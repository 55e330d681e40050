import PencilRs.Analysis.Pack
import PencilRs.Model.Distributed

/-!
# What planning computes

A plan accepted by the layout check changes one topology position.  The source leaves the
axis `B` whole that the destination decomposes there, and the other way round for `A`; so
the send region of peer `k` is the source block cut to the `k`-th block of `B`, the receive
region is the destination block cut to the `k`-th block of `A`, and the displacements are
the cuts times the size of a cross-section.
-/

set_option autoImplicit false

namespace PencilRs.Analysis

open PencilRs.Computation PencilRs.Model

variable {N M : ℕ}

/-! ## The layout check -/

/-- The scan over topology axes returns the single axis that differs. -/
theorem foldlM_changed_ok (differs : Fin M → Prop) [DecidablePred differs] (l : List (Fin M))
    (hn : l.Nodup) {changed : Option (Fin M)} {result : Fin M}
    (h : l.foldlM (fun changed axis =>
      if differs axis then
        if changed.isSome then (.error .unsupportedDecompositionChange :
          Except TransposeError (Option (Fin M))) else .ok (some axis)
      else .ok changed) changed = .ok (some result)) :
    (changed = some result ∧ ∀ a ∈ l, ¬ differs a) ∨
      (changed = none ∧ result ∈ l ∧ differs result ∧ ∀ a ∈ l, a ≠ result → ¬ differs a) := by
  induction l generalizing changed with
  | nil =>
    have : changed = some result := Except.ok.inj h
    exact Or.inl ⟨this, by simp⟩
  | cons axis l ih =>
    obtain ⟨haxis, hn⟩ := List.nodup_cons.mp hn
    rw [List.foldlM_cons] at h
    by_cases hd : differs axis
    · cases changed with
      | some c => simp [hd, bind, Except.bind] at h
      | none =>
        simp only [hd, if_true, Option.isSome_none, Bool.false_eq_true, if_false, bind,
          Except.bind] at h
        cases ih hn h with
        | inl hin =>
          obtain ⟨hr, hrest⟩ := hin
          have heq : axis = result := Option.some.inj hr
          subst heq
          refine Or.inr ⟨rfl, by simp, hd, ?_⟩
          intro a ha hne
          exact hrest a (List.mem_of_ne_of_mem hne ha)
        | inr hin => exact absurd hin.1 (by simp)
    · simp only [hd, if_false, bind, Except.bind] at h
      cases ih hn h with
      | inl hin =>
        obtain ⟨hr, hrest⟩ := hin
        refine Or.inl ⟨hr, ?_⟩
        intro a ha
        cases List.mem_cons.mp ha with
        | inl heq => exact heq ▸ hd
        | inr hmem => exact hrest a hmem
      | inr hin =>
        obtain ⟨hr, hmem, hres, hrest⟩ := hin
        refine Or.inr ⟨hr, by simp [hmem], hres, ?_⟩
        intro a ha hne
        cases List.mem_cons.mp ha with
        | inl heq => exact heq ▸ hd
        | inr hmem' => exact hrest a hmem' hne

/-- Same topology and shape; the decompositions differ at `axis` and nowhere else. -/
structure LayoutChange (source destination : Pencil N M) (axis : Fin M) : Prop where
  topology : source.topology = destination.topology
  globalShape : source.globalShape = destination.globalShape
  changed : source.decomposition.axes axis ≠ destination.decomposition.axes axis
  kept : ∀ t, t ≠ axis → source.decomposition.axes t = destination.decomposition.axes t

theorem validatePlanLayout_ok {source destination : Pencil N M} {axis : Fin M}
    (h : validatePlanLayout source destination = .ok axis) :
    LayoutChange source destination axis := by
  unfold validatePlanLayout at h
  by_cases ht : source.sameTopology destination = true
  · by_cases hs : source.globalShape = destination.globalShape
    · simp only [ht, Bool.not_true, Bool.false_eq_true, if_false, hs, ne_eq, not_true_eq_false,
        bind, Except.bind] at h
      cases hloop : (List.finRange M).foldlM (fun changed axis =>
          if source.decomposition.axes axis ≠ destination.decomposition.axes axis then
            if changed.isSome then (.error .unsupportedDecompositionChange :
              Except TransposeError (Option (Fin M))) else .ok (some axis)
          else .ok changed) (none : Option (Fin M)) with
      | error e =>
        simp only [ne_eq] at hloop
        rw [hloop] at h
        simp at h
      | ok changed =>
        simp only [ne_eq] at hloop
        rw [hloop] at h
        simp only [okOr_eq_ok] at h
        subst h
        obtain hin | ⟨_, _, hd, hrest⟩ := foldlM_changed_ok (fun axis =>
            ¬ source.decomposition.axes axis = destination.decomposition.axes axis)
          (List.finRange M) (List.nodup_finRange M) hloop
        · exact absurd hin.1 (by simp)
        · exact {
            topology := by simpa [Pencil.sameTopology] using ht
            globalShape := hs
            changed := hd
            kept := fun t hne => not_not.mp (hrest t (List.mem_finRange t) hne) }
    · simp [ht, hs, bind, Except.bind, throw, throwThe, MonadExceptOf.throw] at h
  · simp [ht, bind, Except.bind, throw, throwThe, MonadExceptOf.throw] at h

/-- The scan meets the axis that differs once. -/
theorem foldlM_changed_eq (differs : Fin M → Prop) [DecidablePred differs] {result : Fin M}
    (hdiff : ∀ a, differs a ↔ a = result) (l : List (Fin M)) (hn : l.Nodup)
    (changed : Option (Fin M)) (hfresh : result ∈ l → changed = none) :
    l.foldlM (fun changed axis =>
      if differs axis then
        if changed.isSome then (.error .unsupportedDecompositionChange :
          Except TransposeError (Option (Fin M))) else .ok (some axis)
      else .ok changed) changed = .ok (if result ∈ l then some result else changed) := by
  induction l generalizing changed with
  | nil => rfl
  | cons axis l ih =>
    obtain ⟨haxis, hn⟩ := List.nodup_cons.mp hn
    rw [List.foldlM_cons]
    by_cases hd : axis = result
    · subst hd
      have hnone := hfresh (by simp)
      subst hnone
      simp only [(hdiff axis).mpr rfl, if_true, Option.isSome_none, Bool.false_eq_true, if_false,
        bind, Except.bind]
      rw [ih hn _ fun h => absurd h haxis, if_neg haxis, if_pos (by simp)]
    · have hnot : ¬ differs axis := fun h => hd ((hdiff axis).mp h)
      simp only [hnot, if_false, bind, Except.bind]
      rw [ih hn _ fun h => hfresh (List.mem_cons_of_mem _ h)]
      simp [Ne.symm hd]

/-- The layouts the check accepts are those that differ in one decomposition position. -/
theorem LayoutChange.validatePlanLayout_eq {source destination : Pencil N M} {axis : Fin M}
    (h : LayoutChange source destination axis) :
    validatePlanLayout source destination = .ok axis := by
  have hdiffers : ∀ t, source.decomposition.axes t ≠ destination.decomposition.axes t ↔ t = axis :=
    fun t => ⟨fun hd => by_contra fun hne => hd (h.kept t hne), fun ht => ht ▸ h.changed⟩
  have hloop := foldlM_changed_eq _ hdiffers
    (List.finRange M) (List.nodup_finRange M) none fun _ => rfl
  unfold validatePlanLayout
  rw [if_neg (by simp [Pencil.sameTopology, h.topology]), if_neg (by simp [h.globalShape])]
  simp only [bind, Except.bind]
  rw [hloop, if_pos (List.mem_finRange axis)]
  rfl

/-! ## Intersections -/

theorem intersectRanges_left {left right : Fin N → Range} {axis : Fin N}
    (hstart : (right axis).start ≤ (left axis).start)
    (hstop : (left axis).stop ≤ (right axis).stop)
    (hle : (left axis).start ≤ (left axis).stop) :
    intersectRanges left right axis = left axis := by
  unfold intersectRanges
  cases hl : left axis with
  | mk a b =>
    rw [hl] at hstart hstop hle
    simp only at hstart hstop hle ⊢
    rw [Nat.max_eq_left hstart, Nat.min_eq_left hstop]
    split
    · rfl
    · rw [show a = b by omega]

theorem intersectRanges_right {left right : Fin N → Range} {axis : Fin N}
    (hstart : (left axis).start ≤ (right axis).start)
    (hstop : (right axis).stop ≤ (left axis).stop)
    (hle : (right axis).start ≤ (right axis).stop) :
    intersectRanges left right axis = right axis := by
  unfold intersectRanges
  cases hr : right axis with
  | mk a b =>
    rw [hr] at hstart hstop hle
    simp only at hstart hstop hle ⊢
    rw [Nat.max_eq_right hstart, Nat.min_eq_right hstop]
    split
    · rfl
    · rw [show a = b by omega]

namespace LayoutChange

variable {source destination : Pencil N M} {axis : Fin M}

/-- The source leaves the axis whole that the destination decomposes instead. -/
theorem source_whole (h : LayoutChange source destination axis) (t : Fin M) :
    source.decomposition.axes t ≠ destination.decomposition.axes axis := by
  by_cases ht : t = axis
  · subst ht
    exact h.changed
  · rw [h.kept t ht]
    exact fun heq => ht (destination.decomposition.injective heq)

theorem destination_whole (h : LayoutChange source destination axis) (t : Fin M) :
    destination.decomposition.axes t ≠ source.decomposition.axes axis := by
  by_cases ht : t = axis
  · subst ht
    exact h.changed.symm
  · rw [← h.kept t ht]
    exact fun heq => ht (source.decomposition.injective heq)

/-- Away from the exchanged axes both layouts cut alike, for any two ranks that agree off
the changed position. -/
theorem ownedRanges_kept (h : LayoutChange source destination axis) (shape : Fin N → ℕ)
    (grid : Fin M → ℕ) {coords coords' : Fin M → ℕ}
    (hcoords : ∀ t, t ≠ axis → coords t = coords' t) {a : Fin N}
    (ha : a ≠ source.decomposition.axes axis) (ha' : a ≠ destination.decomposition.axes axis) :
    ownedRanges shape grid coords source.decomposition.axes a
      = ownedRanges shape grid coords' destination.decomposition.axes a := by
  by_cases hdec : ∃ t, source.decomposition.axes t = a
  · obtain ⟨t, rfl⟩ := hdec
    have hne : t ≠ axis := fun heq => ha (heq ▸ rfl)
    rw [ownedRanges_decomposed _ _ _ source.decomposition.injective, h.kept t hne,
      ownedRanges_decomposed _ _ _ destination.decomposition.injective, hcoords t hne]
  · have hsource : ∀ t, source.decomposition.axes t ≠ a := fun t ht => hdec ⟨t, ht⟩
    have hdest : ∀ t, destination.decomposition.axes t ≠ a := by
      intro t
      by_cases ht : t = axis
      · subst ht
        exact ha'.symm
      · rw [← h.kept t ht]
        exact hsource t
    rw [ownedRanges_whole _ _ _ hsource, ownedRanges_whole _ _ _ hdest]

/-- The source block cut to the peer's destination block: only the axis the destination
decomposes is narrowed. -/
theorem sendRegion_eq (h : LayoutChange source destination axis) (shape : Fin N → ℕ)
    {grid coords coords' : Fin M → ℕ} (hlt : ∀ t, coords t < grid t)
    (hlt' : ∀ t, coords' t < grid t) (hcoords : ∀ t, t ≠ axis → coords t = coords' t) :
    intersectRanges (ownedRanges shape grid coords source.decomposition.axes)
        (ownedRanges shape grid coords' destination.decomposition.axes)
      = Function.update (ownedRanges shape grid coords source.decomposition.axes)
          (destination.decomposition.axes axis)
          (blockRange (shape (destination.decomposition.axes axis)) (grid axis)
            (coords' axis)) := by
  funext a
  by_cases hB : a = destination.decomposition.axes axis
  · subst hB
    rw [Function.update_self, ← ownedRanges_decomposed shape grid coords'
      destination.decomposition.injective axis]
    apply intersectRanges_right
    · rw [ownedRanges_whole _ _ _ h.source_whole]
      exact Nat.zero_le _
    · rw [ownedRanges_whole _ _ _ h.source_whole]
      exact ownedRanges_stop_le _ _ hlt' _
    · exact ownedRanges_start_le _ _ _ _ _
  · rw [Function.update_of_ne hB]
    apply intersectRanges_left
    · by_cases hA : a = source.decomposition.axes axis
      · subst hA
        rw [ownedRanges_whole shape grid coords' h.destination_whole]
        exact Nat.zero_le _
      · rw [h.ownedRanges_kept shape grid hcoords hA hB]
    · by_cases hA : a = source.decomposition.axes axis
      · subst hA
        rw [ownedRanges_whole shape grid coords' h.destination_whole]
        exact ownedRanges_stop_le _ _ hlt _
      · rw [h.ownedRanges_kept shape grid hcoords hA hB]
    · exact ownedRanges_start_le _ _ _ _ _

/-- The destination block cut to the peer's source block. -/
theorem receiveRegion_eq (h : LayoutChange source destination axis) (shape : Fin N → ℕ)
    {grid coords coords' : Fin M → ℕ} (hlt : ∀ t, coords t < grid t)
    (hlt' : ∀ t, coords' t < grid t) (hcoords : ∀ t, t ≠ axis → coords t = coords' t) :
    intersectRanges (ownedRanges shape grid coords' source.decomposition.axes)
        (ownedRanges shape grid coords destination.decomposition.axes)
      = Function.update (ownedRanges shape grid coords destination.decomposition.axes)
          (source.decomposition.axes axis)
          (blockRange (shape (source.decomposition.axes axis)) (grid axis)
            (coords' axis)) := by
  funext a
  by_cases hA : a = source.decomposition.axes axis
  · subst hA
    rw [Function.update_self, ← ownedRanges_decomposed shape grid coords'
      source.decomposition.injective axis]
    apply intersectRanges_left
    · rw [ownedRanges_whole _ _ _ h.destination_whole]
      exact Nat.zero_le _
    · rw [ownedRanges_whole _ _ _ h.destination_whole]
      exact ownedRanges_stop_le _ _ hlt' _
    · exact ownedRanges_start_le _ _ _ _ _
  · rw [Function.update_of_ne hA]
    apply intersectRanges_right
    · by_cases hB : a = destination.decomposition.axes axis
      · subst hB
        rw [ownedRanges_whole shape grid coords' h.source_whole]
        exact Nat.zero_le _
      · rw [h.ownedRanges_kept shape grid (fun t ht => (hcoords t ht).symm) hA hB]
    · by_cases hB : a = destination.decomposition.axes axis
      · subst hB
        rw [ownedRanges_whole shape grid coords' h.source_whole]
        exact ownedRanges_stop_le _ _ hlt _
      · rw [h.ownedRanges_kept shape grid (fun t ht => (hcoords t ht).symm) hA hB]
    · exact ownedRanges_start_le _ _ _ _ _

end LayoutChange

/-! ## Sizes of narrowed blocks -/

/-- Number of points of a cross-section of the ranges at `axis`. -/
def crossSection (ranges : Fin N → Range) (axis : Fin N) : ℕ :=
  ∏ a ∈ Finset.univ \ {axis}, regionExtent ranges a

theorem regionSize_update (ranges : Fin N → Range) (axis : Fin N) (r : Range) :
    regionSize (Function.update ranges axis r) = r.len * crossSection ranges axis := by
  have hext : regionExtent (Function.update ranges axis r)
      = Function.update (regionExtent ranges) axis r.len := by
    funext a
    by_cases ha : a = axis
    · subst ha
      simp [regionExtent]
    · simp [regionExtent, Function.update_of_ne ha]
  rw [regionSize, hext, Finset.prod_update_of_mem (Finset.mem_univ axis)]
  rfl

theorem regionSize_eq (ranges : Fin N → Range) (axis : Fin N) :
    regionSize ranges = (ranges axis).len * crossSection ranges axis := by
  have := regionSize_update ranges axis (ranges axis)
  rwa [Function.update_eq_self] at this

theorem localLen_eq_regionSize (p : Pencil N M) : p.localLen = regionSize p.localRanges := by
  rw [localLen_eq, p.localShapeLogical_eq]
  rfl

/-- The sizes of the narrowed blocks before block `k` add up to its cut. -/
theorem sum_regionSize_update (ranges : Fin N → Range) (axis : Fin N) (n parts k : ℕ) :
    ((List.range k).map fun j =>
      regionSize (Function.update ranges axis (blockRange n parts j))).sum
        = BlockPartition.cut n parts k * crossSection ranges axis := by
  induction k with
  | zero => simp
  | succ k ih =>
    have hmono := BlockPartition.cut_mono n parts (Nat.le_succ k)
    rw [List.range_succ, List.map_append, List.sum_append, ih]
    simp only [List.map_cons, List.map_nil, List.sum_cons, List.sum_nil, Nat.add_zero]
    rw [regionSize_update, ← Nat.add_mul]
    congr 1
    simp only [blockRange, Range.len, Nat.succ_eq_add_one] at hmono ⊢
    omega

/-! ## The peers of a plan -/

/-- What this rank sends to the peer with coordinate `k`. -/
def sendRegion (p q : Pencil N M) (axis : Fin M) (k : ℕ) : Fin N → Range :=
  Function.update p.localRanges (q.decomposition.axes axis)
    (blockRange (p.globalShape (q.decomposition.axes axis)) (p.topology.processGrid axis) k)

/-- What this rank receives from the peer with coordinate `k`. -/
def receiveRegion (p q : Pencil N M) (axis : Fin M) (k : ℕ) : Fin N → Range :=
  Function.update q.localRanges (p.decomposition.axes axis)
    (blockRange (p.globalShape (p.decomposition.axes axis)) (p.topology.processGrid axis) k)

/-- Elements sent to the peers before `k`. -/
def sendCut (p q : Pencil N M) (axis : Fin M) (k : ℕ) : ℕ :=
  BlockPartition.cut (p.globalShape (q.decomposition.axes axis)) (p.topology.processGrid axis) k
    * crossSection p.localRanges (q.decomposition.axes axis)

/-- Elements received from the peers before `k`. -/
def receiveCut (p q : Pencil N M) (axis : Fin M) (k : ℕ) : ℕ :=
  BlockPartition.cut (p.globalShape (p.decomposition.axes axis)) (p.topology.processGrid axis) k
    * crossSection q.localRanges (p.decomposition.axes axis)

/-- The metadata of the peer with coordinate `k`. -/
def peerAt (p q : Pencil N M) (axis : Fin M) (k : ℕ) : PeerMetadata N where
  peerRank := k
  peerCoordinate := k
  sendRegion := sendRegion p q axis k
  receiveRegion := receiveRegion p q axis k
  sendSpatialLen := regionSize (sendRegion p q axis k)
  receiveSpatialLen := regionSize (receiveRegion p q axis k)
  sendSpatialDisplacement := sendCut p q axis k
  receiveSpatialDisplacement := receiveCut p q axis k

theorem update_block_len (n parts k c : ℕ) :
    BlockPartition.cut n parts k * c + (blockRange n parts k).len * c
      = BlockPartition.cut n parts (k + 1) * c := by
  have hmono := BlockPartition.cut_mono n parts (Nat.le_succ k)
  rw [← Nat.add_mul]
  congr 1
  simp only [blockRange, Range.len, Nat.succ_eq_add_one] at hmono ⊢
  omega

theorem sendCut_succ (p q : Pencil N M) (axis : Fin M) (k : ℕ) :
    sendCut p q axis k + regionSize (sendRegion p q axis k) = sendCut p q axis (k + 1) := by
  rw [sendRegion, regionSize_update]
  exact update_block_len _ _ _ _

theorem receiveCut_succ (p q : Pencil N M) (axis : Fin M) (k : ℕ) :
    receiveCut p q axis k + regionSize (receiveRegion p q axis k)
      = receiveCut p q axis (k + 1) := by
  rw [receiveRegion, regionSize_update]
  exact update_block_len _ _ _ _

@[simp] theorem sendCut_zero (p q : Pencil N M) (axis : Fin M) : sendCut p q axis 0 = 0 := by
  simp [sendCut]

@[simp] theorem receiveCut_zero (p q : Pencil N M) (axis : Fin M) :
    receiveCut p q axis 0 = 0 := by
  simp [receiveCut]

theorem sendCut_mono (p q : Pencil N M) (axis : Fin M) : Monotone (sendCut p q axis) :=
  fun _ _ h => Nat.mul_le_mul_right _ (BlockPartition.cut_mono _ _ h)

theorem receiveCut_mono (p q : Pencil N M) (axis : Fin M) : Monotone (receiveCut p q axis) :=
  fun _ _ h => Nat.mul_le_mul_right _ (BlockPartition.cut_mono _ _ h)

namespace LayoutChange

variable {p q : Pencil N M} {axis : Fin M}

theorem localRanges_send (h : LayoutChange p q axis) :
    p.localRanges (q.decomposition.axes axis) = ⟨0, p.globalShape (q.decomposition.axes axis)⟩ := by
  rw [localRanges_eq, ownedRanges_whole _ _ _ h.source_whole]

theorem localRanges_receive (h : LayoutChange p q axis) :
    q.localRanges (p.decomposition.axes axis) = ⟨0, p.globalShape (p.decomposition.axes axis)⟩ := by
  rw [localRanges_eq, ownedRanges_whole _ _ _ h.destination_whole, h.globalShape]

/-- The send segments reach exactly to the end of the source block. -/
theorem sendCut_all (h : LayoutChange p q axis) :
    sendCut p q axis (p.topology.processGrid axis) = p.localLen := by
  rw [sendCut, BlockPartition.cut_parts _ (p.topology.extents_pos axis), localLen_eq_regionSize,
    regionSize_eq p.localRanges (q.decomposition.axes axis), h.localRanges_send]
  rfl

/-- The receive segments reach exactly to the end of the destination block. -/
theorem receiveCut_all (h : LayoutChange p q axis) :
    receiveCut p q axis (p.topology.processGrid axis) = q.localLen := by
  rw [receiveCut, BlockPartition.cut_parts _ (p.topology.extents_pos axis),
    localLen_eq_regionSize, regionSize_eq q.localRanges (p.decomposition.axes axis),
    h.localRanges_receive]
  rfl

theorem sendCut_le (h : LayoutChange p q axis) {k : ℕ} (hk : k ≤ p.topology.processGrid axis) :
    sendCut p q axis k ≤ p.localLen :=
  h.sendCut_all ▸ sendCut_mono p q axis hk

theorem receiveCut_le (h : LayoutChange p q axis) {k : ℕ}
    (hk : k ≤ p.topology.processGrid axis) : receiveCut p q axis k ≤ q.localLen :=
  h.receiveCut_all ▸ receiveCut_mono p q axis hk

theorem peerCoords_lt (p : Pencil N M) (axis : Fin M) {k : ℕ}
    (hk : k < p.topology.processGrid axis) (t : Fin M) :
    Function.update p.topology.localCoords axis k t < p.topology.processGrid t := by
  by_cases ht : t = axis
  · subst ht
    rwa [Function.update_self]
  · rw [Function.update_of_ne ht]
    exact p.topology.coords_lt t

theorem intersect_send (h : LayoutChange p q axis) {k : ℕ}
    (hk : k < p.topology.processGrid axis) :
    intersectRanges p.localRanges (ownedRanges q.globalShape q.topology.processGrid
        (Function.update p.topology.localCoords axis k) q.decomposition.axes)
      = sendRegion p q axis k := by
  rw [localRanges_eq p, ← h.globalShape, ← h.topology,
    h.sendRegion_eq p.globalShape p.topology.coords_lt (peerCoords_lt p axis hk)
      (fun t ht => (Function.update_of_ne ht _ _).symm), Function.update_self, sendRegion,
    localRanges_eq p]

theorem intersect_receive (h : LayoutChange p q axis) {k : ℕ}
    (hk : k < p.topology.processGrid axis) :
    intersectRanges (ownedRanges p.globalShape p.topology.processGrid
        (Function.update p.topology.localCoords axis k) p.decomposition.axes) q.localRanges
      = receiveRegion p q axis k := by
  rw [localRanges_eq q, ← h.globalShape, ← h.topology,
    h.receiveRegion_eq p.globalShape p.topology.coords_lt (peerCoords_lt p axis hk)
      (fun t ht => (Function.update_of_ne ht _ _).symm), Function.update_self, receiveRegion,
    localRanges_eq q, ← h.globalShape, ← h.topology]

end LayoutChange

/-- Narrowing one axis of a block to a block of the whole axis keeps the bounds. -/
theorem update_block_bounds {ranges : Fin N → Range} {axis : Fin N} {n parts k : ℕ}
    (hrange : ranges axis = ⟨0, n⟩) (hk : k < parts)
    (hle : ∀ a, (ranges a).start ≤ (ranges a).stop) (a : Fin N) :
    let narrowed := Function.update ranges axis (blockRange n parts k)
    (ranges a).start ≤ (narrowed a).start ∧ (narrowed a).stop ≤ (ranges a).stop ∧
      (narrowed a).start ≤ (narrowed a).stop := by
  by_cases ha : a = axis
  · subst ha
    simp only [Function.update_self, hrange]
    exact ⟨Nat.zero_le _, BlockPartition.cut_le n (by omega) hk,
      BlockPartition.cut_mono n parts (Nat.le_succ k)⟩
  · simp only [Function.update_of_ne ha]
    exact ⟨le_rfl, le_rfl, hle a⟩

theorem localRanges_start_le (p : Pencil N M) (a : Fin N) :
    (p.localRanges a).start ≤ (p.localRanges a).stop := by
  rw [localRanges_eq]
  exact ownedRanges_start_le _ _ _ _ _

/-- A region within the block's bounds lies inside the block as soon as it has elements. -/
theorem insideBlock_of_pos {p : Pencil N M} {region : Fin N → Range}
    (hbounds : ∀ a, (p.localRanges a).start ≤ (region a).start ∧
      (region a).stop ≤ (p.localRanges a).stop)
    (hpos : 0 < regionSize region) : InsideBlock p region where
  lower := fun a => (hbounds a).1
  upper := fun a => (hbounds a).2
  nonempty := by
    intro a
    by_contra hnot
    have hzero : regionExtent region a = 0 := by
      simp only [regionExtent, Range.len]
      omega
    have hprod : regionSize region = 0 := Finset.prod_eq_zero (Finset.mem_univ a) hzero
    omega

namespace LayoutChange

variable {p q : Pencil N M} {axis : Fin M}

theorem sendRegion_bounds (h : LayoutChange p q axis) {k : ℕ}
    (hk : k < p.topology.processGrid axis) (a : Fin N) :
    (p.localRanges a).start ≤ (sendRegion p q axis k a).start ∧
      (sendRegion p q axis k a).stop ≤ (p.localRanges a).stop ∧
      (sendRegion p q axis k a).start ≤ (sendRegion p q axis k a).stop :=
  update_block_bounds h.localRanges_send hk (localRanges_start_le p) a

theorem receiveRegion_bounds (h : LayoutChange p q axis) {k : ℕ}
    (hk : k < p.topology.processGrid axis) (a : Fin N) :
    (q.localRanges a).start ≤ (receiveRegion p q axis k a).start ∧
      (receiveRegion p q axis k a).stop ≤ (q.localRanges a).stop ∧
      (receiveRegion p q axis k a).start ≤ (receiveRegion p q axis k a).stop :=
  update_block_bounds h.localRanges_receive hk (localRanges_start_le q) a

theorem sendSize_le (h : LayoutChange p q axis) {k : ℕ}
    (hk : k < p.topology.processGrid axis) :
    sendCut p q axis k + regionSize (sendRegion p q axis k) ≤ p.localLen := by
  rw [sendCut_succ]
  exact h.sendCut_le hk

theorem receiveSize_le (h : LayoutChange p q axis) {k : ℕ}
    (hk : k < p.topology.processGrid axis) :
    receiveCut p q axis k + regionSize (receiveRegion p q axis k) ≤ q.localLen := by
  rw [receiveCut_succ]
  exact h.receiveCut_le hk

theorem regionSpatialLen_send (h : LayoutChange p q axis) {k : ℕ}
    (hk : k < p.topology.processGrid axis) :
    regionSpatialLen (sendRegion p q axis k) = .ok (regionSize (sendRegion p q axis k)) := by
  have := h.sendSize_le hk
  have := localLen_lt p
  exact regionSpatialLen_eq (fun a => (h.sendRegion_bounds hk a).2.2) (by omega)

theorem regionSpatialLen_receive (h : LayoutChange p q axis) {k : ℕ}
    (hk : k < p.topology.processGrid axis) :
    regionSpatialLen (receiveRegion p q axis k)
      = .ok (regionSize (receiveRegion p q axis k)) := by
  have := h.receiveSize_le hk
  have := localLen_lt q
  exact regionSpatialLen_eq (fun a => (h.receiveRegion_bounds hk a).2.2) (by omega)

/-- One round of planning appends the metadata of peer `k`. -/
theorem peerStep_eq (h : LayoutChange p q axis) {k : ℕ}
    (hk : k < p.topology.processGrid axis) (peers : List (PeerMetadata N)) :
    peerStep p q axis (peers, sendCut p q axis k, receiveCut p q axis k) k
      = .ok (peers ++ [peerAt p q axis k], sendCut p q axis (k + 1),
          receiveCut p q axis (k + 1)) := by
  have hcount : countTryFrom k = some k := by
    have := p.topology.extent_le axis
    rw [countTryFrom_eq_some]
    omega
  have hcoords := peerCoords_lt p axis hk
  have hcoords' : ∀ t, Function.update p.topology.localCoords axis k t
      < q.topology.processGrid t := by
    rw [← h.topology]
    exact hcoords
  have hsend : checkedAdd (sendCut p q axis k) (regionSize (sendRegion p q axis k))
      = some (sendCut p q axis (k + 1)) := by
    have := h.sendSize_le hk
    have := localLen_lt p
    exact checkedAdd_eq_some.mpr ⟨by omega, sendCut_succ p q axis k⟩
  have hreceive : checkedAdd (receiveCut p q axis k) (regionSize (receiveRegion p q axis k))
      = some (receiveCut p q axis (k + 1)) := by
    have := h.receiveSize_le hk
    have := localLen_lt q
    exact checkedAdd_eq_some.mpr ⟨by omega, receiveCut_succ p q axis k⟩
  unfold peerStep
  simp only [hcount, okOr_some, subcommunicatorCoordinate, rangesAt_eq p hcoords,
    rangesAt_eq q hcoords', Except.mapError, bind, Except.bind, pure, Except.pure,
    h.intersect_send hk, h.intersect_receive hk, h.regionSpatialLen_send hk,
    h.regionSpatialLen_receive hk, hsend, hreceive]
  rfl

/-- Planning succeeds where the allocator grants the peer list, with this list. -/
theorem buildPeerMetadata_eq (h : LayoutChange p q axis) {alloc : Allocator}
    (halloc : alloc .peers = true) :
    buildPeerMetadata alloc p q axis
      = .ok ((List.range (p.topology.processGrid axis)).map (peerAt p q axis)) := by
  obtain ⟨state, hloop, rfl⟩ := foldlM_range_inv (m := Except TransposeError) (peerStep p q axis)
    (fun k state => state
      = ((List.range k).map (peerAt p q axis), sendCut p q axis k, receiveCut p q axis k))
    (p.topology.processGrid axis) ([], 0, 0) (by simp) (by
      rintro k hk _ rfl
      refine ⟨_, h.peerStep_eq hk _, ?_⟩
      rw [List.range_succ, List.map_append]
      rfl)
  unfold buildPeerMetadata tryReserve
  rw [if_pos halloc]
  simp only [bind, Except.bind]
  rw [hloop]
  rfl

end LayoutChange

theorem plan_change (plan : TransposePlanCore N M) :
    LayoutChange plan.source plan.destination plan.changedTopologyAxis :=
  validatePlanLayout_ok plan.layout_ok

/-- The peers of every plan. -/
theorem plan_peers (plan : TransposePlanCore N M) :
    plan.peers
      = (List.range (plan.source.topology.processGrid plan.changedTopologyAxis)).map
          (peerAt plan.source plan.destination plan.changedTopologyAxis) := by
  obtain ⟨alloc, h⟩ := plan.peers_ok
  by_cases halloc : alloc .peers = true
  · rw [(plan_change plan).buildPeerMetadata_eq halloc] at h
    exact (Except.ok.inj h).symm
  · simp [buildPeerMetadata, tryReserve, halloc, bind, Except.bind] at h

end PencilRs.Analysis
