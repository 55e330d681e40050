import PencilRs.Analysis.Layout

/-!
# Ownership is a partition and local storage is a bijection

The ranges handed to the ranks of a topology cut the global box into one block per rank;
the floor rule gives the blocks of each decomposed axis in coordinate order, without
overflow for any `usize` extent and part count.  On one rank the element offsets number
the valid indices from `0` to the storage length.
-/

set_option autoImplicit false

namespace PencilRs.Analysis

open PencilRs.Computation PencilRs.Model

variable {N M : ℕ}

/-- The ranges contain the global index. -/
def Owns (ranges : Fin N → Range) (g : Fin N → ℕ) : Prop :=
  ∀ axis, (ranges axis).contains (g axis) = true

instance (ranges : Fin N → Range) (g : Fin N → ℕ) : Decidable (Owns ranges g) :=
  inferInstanceAs (Decidable (∀ _, _))

/-- The global index lies in the global box. -/
def InBox (globalShape g : Fin N → ℕ) : Prop := ∀ axis, g axis < globalShape axis

/-- What it means for the ranges of all ranks to partition the global box into blocks. -/
structure IsPartition (globalShape : Fin N → ℕ) (grid : Fin M → ℕ)
    (decomposition : Fin M → Fin N) (ranges : Coords grid → Fin N → Range) : Prop where
  first : ∀ c t, (c t : ℕ) = 0 → (ranges c (decomposition t)).start = 0
  contiguous : ∀ c d t, (d t : ℕ) = c t + 1 →
    (ranges d (decomposition t)).start = (ranges c (decomposition t)).stop
  last : ∀ c t, (c t : ℕ) + 1 = grid t →
    (ranges c (decomposition t)).stop = globalShape (decomposition t)
  whole : ∀ c axis, (∀ t, decomposition t ≠ axis) → ranges c axis = ⟨0, globalShape axis⟩
  ordered : ∀ c axis, (ranges c axis).start ≤ (ranges c axis).stop
  size : ∀ c t, (ranges c (decomposition t)).len = globalShape (decomposition t) / grid t ∨
    (ranges c (decomposition t)).len = globalShape (decomposition t) / grid t + 1
  inside : ∀ c g, Owns (ranges c) g → InBox globalShape g
  disjoint : ∀ c d, c ≠ d → ∀ g, ¬ (Owns (ranges c) g ∧ Owns (ranges d) g)
  cover : ∀ g, InBox globalShape g → ∃ c, Owns (ranges c) g

theorem owns_block_iff (length parts coordinate g : ℕ) :
    (blockRange length parts coordinate).contains g = true ↔
      BlockPartition.InBlock length parts coordinate g := by
  simp [blockRange, BlockPartition.InBlock]

theorem owns_decomposed {globalShape : Fin N → ℕ} {grid coords : Fin M → ℕ}
    {decomposition : Fin M → Fin N} (hinj : Function.Injective decomposition)
    {g : Fin N → ℕ} (h : Owns (ownedRanges globalShape grid coords decomposition) g) (t : Fin M) :
    BlockPartition.InBlock (globalShape (decomposition t)) (grid t) (coords t)
      (g (decomposition t)) := by
  have := h (decomposition t)
  rw [ownedRanges_decomposed globalShape grid coords hinj] at this
  exact (owns_block_iff _ _ _ _).mp this

/-- The blocks of all ranks partition the global box. -/
theorem isPartition_ownedRanges (globalShape : Fin N → ℕ) (grid : Fin M → ℕ)
    {decomposition : Fin M → Fin N} (hinj : Function.Injective decomposition)
    (hgrid : ∀ t, 0 < grid t) :
    IsPartition globalShape grid decomposition
      fun c => ownedRanges globalShape grid (fun t => c t) decomposition where
  first := by
    intro c t h0
    rw [ownedRanges_decomposed globalShape grid _ hinj]
    simp [blockRange, h0]
  contiguous := by
    intro c d t hnext
    rw [ownedRanges_decomposed globalShape grid _ hinj,
      ownedRanges_decomposed globalShape grid _ hinj]
    simp [blockRange, hnext]
  last := by
    intro c t hlast
    rw [ownedRanges_decomposed globalShape grid _ hinj]
    simp only [blockRange, hlast]
    exact BlockPartition.cut_parts _ (Nat.lt_of_le_of_lt (Nat.zero_le _) (c t).isLt)
  whole := fun c axis h => ownedRanges_whole globalShape grid _ h
  ordered := fun c axis => ownedRanges_start_le globalShape grid _ decomposition axis
  size := by
    intro c t
    rw [ownedRanges_decomposed globalShape grid _ hinj]
    exact BlockPartition.cut_succ_sub _ _ (Nat.lt_of_le_of_lt (Nat.zero_le _) (c t).isLt)
  inside := by
    intro c g h axis
    have hstop := ownedRanges_stop_le globalShape decomposition (fun t => (c t).isLt) axis
    have := ((Range.contains_iff _ _).mp (h axis)).2
    exact this.trans_le hstop
  disjoint := by
    rintro c d hne g ⟨hc, hd⟩
    apply hne
    funext t
    exact Fin.ext (BlockPartition.inBlock_unique (owns_decomposed hinj hc t)
      (owns_decomposed hinj hd t))
  cover := by
    intro g hg
    have hblock : ∀ t, ∃ k : Fin (grid t),
        BlockPartition.InBlock (globalShape (decomposition t)) (grid t) k
          (g (decomposition t)) := by
      intro t
      obtain ⟨k, hk, hin⟩ := BlockPartition.exists_inBlock (hgrid t) (hg (decomposition t))
      exact ⟨⟨k, hk⟩, hin⟩
    choose c hc using hblock
    refine ⟨c, ?_⟩
    intro axis
    by_cases hdec : ∃ t, decomposition t = axis
    · obtain ⟨t, rfl⟩ := hdec
      rw [ownedRanges_decomposed globalShape grid _ hinj]
      exact (owns_block_iff _ _ _ _).mpr (hc t)
    · rw [ownedRanges_whole globalShape grid _ fun t ht => hdec ⟨t, ht⟩]
      simpa using hg axis

/-- Every index of the box has exactly one owner. -/
theorem IsPartition.existsUnique_owner {globalShape : Fin N → ℕ} {grid : Fin M → ℕ}
    {decomposition : Fin M → Fin N} {ranges : Coords grid → Fin N → Range}
    (h : IsPartition globalShape grid decomposition ranges) {g : Fin N → ℕ}
    (hg : InBox globalShape g) : ∃! c, Owns (ranges c) g := by
  obtain ⟨c, hc⟩ := h.cover g hg
  refine ⟨c, hc, ?_⟩
  intro d hd
  by_contra hne
  exact h.disjoint d c hne g ⟨hd, hc⟩

/-! ## The pencils of all ranks -/

theorem lt_of_owns {ranges : Fin N → Range} {g : Fin N → ℕ} (h : Owns ranges g) (axis : Fin N) :
    (ranges axis).start ≤ g axis ∧ g axis < (ranges axis).stop :=
  (Range.contains_iff _ _).mp (h axis)

theorem prod_len_lt {globalShape : Fin N → ℕ} (hfit : ∏ axis, globalShape axis < usizeLimit)
    (topology : MpiTopology M) (decomposition : Decomposition N M) :
    (List.ofFn (shapeFromRanges (ownedRanges globalShape topology.processGrid
      topology.localCoords decomposition.axes))).prod < usizeLimit := by
  rw [List.prod_ofFn]
  refine Nat.lt_of_le_of_lt (Finset.prod_le_prod' fun axis _ => ?_) hfit
  have := ownedRanges_stop_le globalShape decomposition.axes topology.coords_lt axis
  unfold shapeFromRanges Range.len
  omega

/-- The pencil of a configuration on one rank. -/
def buildPencil (topology : MpiTopology M) (globalShape : Fin N → ℕ)
    (decomposition : Decomposition N M) (permutation : AxisPermutation N)
    (hpos : ∀ axis, 0 < globalShape axis) (hfit : ∏ axis, globalShape axis < usizeLimit) :
    Pencil N M :=
  let ranges := ownedRanges globalShape topology.processGrid topology.localCoords
    decomposition.axes
  { topology, globalShape, decomposition, permutation
    localRanges := ranges
    localShapeLogical := shapeFromRanges ranges
    localShapeMemory := permutation.permute (shapeFromRanges ranges)
    localLen := (List.ofFn (shapeFromRanges ranges)).prod
    globalLen := (List.ofFn globalShape).prod
    extents_pos := hpos
    globalLen_ok := checkedProduct_of_lt (by rwa [List.prod_ofFn])
    localRanges_ok := rangesAtStored_eq topology (extent_lt hpos hfit) decomposition
      topology.coords_lt
    localShapeLogical_eq := rfl
    localShapeMemory_eq := rfl
    localLen_ok := checkedProduct_of_lt (prod_len_lt hfit topology decomposition) }

/-- One rank. -/
def oneRank : MpiTopology 1 where
  handle := 0
  processGrid := ![1]
  localCoords := ![0]
  extents_pos := by decide
  coords_lt := by decide
  size_le := by decide

/-- The constructor makes this pencil. -/
theorem newPermuted_eq (topology : MpiTopology M) (globalShape : Fin N → ℕ)
    (decomposition : Decomposition N M) (permutation : AxisPermutation N)
    (hpos : ∀ axis, 0 < globalShape axis) (hfit : ∏ axis, globalShape axis < usizeLimit) :
    Pencil.newPermuted topology globalShape (fun t => decomposition.axes t) permutation
      = .ok (buildPencil topology globalShape decomposition permutation hpos hfit) := by
  have hM : ¬ (M = 0 ∨ M > N) := by
    have := decomposition.positive
    have := decomposition.le_spatial
    omega
  have hzero : ((List.finRange N).find? fun axis => globalShape axis = 0) = none := by
    rw [List.find?_eq_none]
    intro axis _
    have := hpos axis
    simp only [decide_eq_true_eq]
    omega
  let built := buildPencil topology globalShape decomposition permutation hpos hfit
  have hglobal := built.globalLen_ok
  have hranges := built.localRanges_ok
  have hlocal := built.localLen_ok
  unfold Pencil.newPermuted
  rw [if_neg hM]
  split
  case h_1 axis h =>
    rw [hzero] at h
    contradiction
  split
  case h_1 e h =>
    have := h.symm.trans hglobal
    contradiction
  rw [Decomposition.new_axes]
  split
  case h_1 e h => contradiction
  rename_i hdec
  cases hdec
  split
  case h_1 e h =>
    have := h.symm.trans hranges
    contradiction
  rename_i localRanges h
  have hsame : localRanges = built.localRanges := Except.ok.inj (h.symm.trans hranges)
  subst hsame
  dsimp only
  split
  case h_1 e h =>
    have := h.symm.trans hlocal
    contradiction
  · congr 1
    exact Pencil.ext_config rfl rfl rfl rfl

/-- The pencil of the same layout on the rank at `coords`. -/
def pencilAt (p : Pencil N M) (coords : Coords p.topology.processGrid) : Pencil N M :=
  buildPencil (p.topology.atCoords coords) p.globalShape p.decomposition p.permutation
    p.extents_pos (globalShape_fits p)

@[simp] theorem pencilAt_here (p : Pencil N M) : pencilAt p p.topology.here = p :=
  Pencil.ext_config rfl rfl rfl rfl

/-! ## Global and local offsets -/

/-- A global index in the coordinates of the rank's own block. -/
def toLocal (p : Pencil N M) (g : Fin N → ℕ) : Fin N → ℕ :=
  fun axis => g axis - (p.localRanges axis).start

/-- A local index in global coordinates. -/
def toGlobal (p : Pencil N M) (x : Fin N → ℕ) : Fin N → ℕ :=
  fun axis => (p.localRanges axis).start + x axis

theorem localShapeLogical_apply (p : Pencil N M) (axis : Fin N) :
    p.localShapeLogical axis = (p.localRanges axis).stop - (p.localRanges axis).start := by
  rw [p.localShapeLogical_eq]
  rfl

theorem validLocal_toLocal {p : Pencil N M} {g : Fin N → ℕ} (h : Owns p.localRanges g) :
    ValidLocal p (toLocal p g) := by
  intro axis
  have := lt_of_owns h axis
  rw [localShapeLogical_apply]
  simp only [toLocal]
  omega

theorem owns_toGlobal {p : Pencil N M} {x : Fin N → ℕ} (h : ValidLocal p x) :
    Owns p.localRanges (toGlobal p x) := by
  intro axis
  have := h axis
  rw [localShapeLogical_apply] at this
  rw [Range.contains_iff]
  simp only [toGlobal]
  omega

@[simp] theorem toLocal_toGlobal (p : Pencil N M) (x : Fin N → ℕ) :
    toLocal p (toGlobal p x) = x := by
  funext axis
  simp [toLocal, toGlobal]

theorem toGlobal_toLocal {p : Pencil N M} {g : Fin N → ℕ} (h : Owns p.localRanges g) :
    toGlobal p (toLocal p g) = g := by
  funext axis
  have := lt_of_owns h axis
  simp only [toLocal, toGlobal]
  omega

theorem localSpatialIndices_eq (p : Pencil N M) (g : Fin N → ℕ) :
    localSpatialIndices p g = if Owns p.localRanges g then some (toLocal p g) else none := by
  unfold localSpatialIndices
  rw [foldlM_guarded (fun axis => (p.localRanges axis).contains (g axis))
    (fun indices axis => Function.update indices axis (g axis - (p.localRanges axis).start))]
  have hall : (List.finRange N).all (fun axis => (p.localRanges axis).contains (g axis)) = true ↔
      Owns p.localRanges g := by
    simp [Owns, List.all_eq_true]
  by_cases h : Owns p.localRanges g
  · rw [if_pos (hall.mpr h), if_pos h]
    congr 1
    funext axis
    have hid : Function.Injective (id : Fin N → Fin N) := Function.injective_id
    exact foldl_update_of_mem hid (toLocal p g) _ _ (List.mem_finRange axis)
  · rw [if_neg fun hc => h (hall.mp hc), if_neg h]

/-- `global_offset` is `local_offset` at the index shifted by the range starts, on the
rank's own block and nowhere else. -/
theorem globalOffset_eq (p : Pencil N M) (extraShape : ExtraShape) (e : List ℕ)
    (g : Fin N → ℕ) :
    globalOffset p extraShape e g =
      if Owns p.localRanges g then (localOffset p extraShape e (toLocal p g)).toOption
      else none := by
  unfold globalOffset
  rw [localSpatialIndices_eq]
  split <;> rfl

theorem validateStorageLen_ok {p : Pencil N M} {extraShape : ExtraShape} {actual : ℕ}
    (h : validateStorageLen p extraShape actual = .ok ()) :
    actual = extraShape.elementCount * p.localLen ∧
      extraShape.elementCount * p.localLen < usizeLimit := by
  unfold validateStorageLen at h
  cases hprod : checkedProduct [extraShape.elementCount, p.localLen] with
  | error e => simp [hprod, Except.mapError, bind, Except.bind] at h
  | ok required =>
    obtain ⟨hreq, hlt⟩ := checkedProduct_eq_ok.mp hprod
    simp only [List.prod_cons, List.prod_nil, mul_one] at hreq hlt
    by_cases hne : actual = required
    · exact ⟨by omega, hlt⟩
    · simp [hprod, hne, Except.mapError, bind, Except.bind] at h

theorem validateStorageLen_of_length {p : Pencil N M} {extraShape : ExtraShape} {actual : ℕ}
    (h : actual = extraShape.elementCount * p.localLen) (hfit : actual < usizeLimit) :
    validateStorageLen p extraShape actual = .ok () := by
  have hprod : checkedProduct [extraShape.elementCount, p.localLen] = .ok actual :=
    checkedProduct_eq_ok.mpr ⟨by simp [h], by simpa [← h] using hfit⟩
  unfold validateStorageLen
  rw [hprod]
  simp [Except.mapError, bind, Except.bind, pure, Except.pure]

theorem view_storage_length {α : Type} (v : PencilArrayView α N M) :
    v.storage.length = v.extraShape.elementCount * v.pencil.localLen :=
  (validateStorageLen_ok v.storageLen_ok).1

theorem view_fits {α : Type} (v : PencilArrayView α N M) :
    v.extraShape.elementCount * v.pencil.localLen < usizeLimit :=
  (validateStorageLen_ok v.storageLen_ok).2

theorem globalOffset_eq_some {p : Pencil N M} {extraShape : ExtraShape}
    (hfit : extraShape.elementCount * p.localLen < usizeLimit) {e : List ℕ} {g : Fin N → ℕ}
    {offset : ℕ} :
    globalOffset p extraShape e g = some offset ↔
      Owns p.localRanges g ∧ ValidIndices extraShape.dimensions e ∧
        offset = elementOffset p extraShape e (toLocal p g) := by
  rw [globalOffset_eq]
  by_cases hown : Owns p.localRanges g
  · rw [if_pos hown]
    cases hloc : localOffset p extraShape e (toLocal p g) with
    | ok r =>
      obtain ⟨⟨hvalid, _⟩, hr⟩ := (localOffset_eq_ok hfit).mp hloc
      simp only [Except.toOption, Option.some.injEq]
      constructor
      · rintro rfl
        exact ⟨hown, hvalid, hr⟩
      · rintro ⟨_, _, rfl⟩
        exact hr
    | error err =>
      simp only [Except.toOption, reduceCtorEq, false_iff]
      rintro ⟨_, hvalid, _⟩
      have := (localOffset_eq_ok hfit).mpr ⟨⟨hvalid, validLocal_toLocal hown⟩, rfl⟩
      rw [this] at hloc
      contradiction
  · simp [hown]

/-! ## The theorem -/

/-- Storage offsets number the valid indices of a view from `0` to the storage length, and
the global offset of an index is the local offset of that index less the range starts. -/
structure IsStorageNumbering {α : Type} (v : PencilArrayView α N M) : Prop where
  length : v.storage.length = v.extraShape.elementCount * v.pencil.localLen
  valid : ∀ e x, (∃ offset, localOffset v.pencil v.extraShape e x = .ok offset) ↔
    ValidElement v.pencil v.extraShape e x
  bounded : ∀ e x offset, localOffset v.pencil v.extraShape e x = .ok offset →
    offset < v.extraShape.elementCount * v.pencil.localLen
  bijective : ∀ offset < v.extraShape.elementCount * v.pencil.localLen,
    ∃! element : List ℕ × (Fin N → ℕ),
      localOffset v.pencil v.extraShape element.1 element.2 = .ok offset
  agrees : ∀ e g offset, globalOffset v.pencil v.extraShape e g = some offset ↔
    Owns v.pencil.localRanges g ∧
      localOffset v.pencil v.extraShape e
        (fun axis => g axis - (v.pencil.localRanges axis).start) = .ok offset
  shifted : ∀ e x, ValidElement v.pencil v.extraShape e x →
    globalOffset v.pencil v.extraShape e
        (fun axis => (v.pencil.localRanges axis).start + x axis)
      = (localOffset v.pencil v.extraShape e x).toOption

theorem isStorageNumbering {α : Type} (v : PencilArrayView α N M) : IsStorageNumbering v where
  length := view_storage_length v
  valid := by
    intro e x
    constructor
    · rintro ⟨offset, h⟩
      exact ((localOffset_eq_ok (view_fits v)).mp h).1
    · intro h
      exact ⟨_, (localOffset_eq_ok (view_fits v)).mpr ⟨h, rfl⟩⟩
  bounded := by
    intro e x offset h
    obtain ⟨hvalid, rfl⟩ := (localOffset_eq_ok (view_fits v)).mp h
    exact elementOffset_lt hvalid
  bijective := by
    intro offset hlt
    obtain ⟨e, x, hvalid, hoff⟩ := exists_elementOffset hlt
    refine ⟨(e, x), (localOffset_eq_ok (view_fits v)).mpr ⟨hvalid, hoff.symm⟩, ?_⟩
    rintro ⟨f, y⟩ h
    obtain ⟨hvalid', hoff'⟩ := (localOffset_eq_ok (view_fits v)).mp h
    obtain ⟨hef, hxy⟩ := elementOffset_inj hvalid' hvalid (by rw [hoff, ← hoff'])
    exact Prod.ext hef hxy
  agrees := by
    intro e g offset
    rw [globalOffset_eq]
    by_cases hown : Owns v.pencil.localRanges g
    · rw [if_pos hown]
      change (localOffset v.pencil v.extraShape e (toLocal v.pencil g)).toOption = some offset ↔
        _ ∧ localOffset v.pencil v.extraShape e (toLocal v.pencil g) = _
      cases localOffset v.pencil v.extraShape e (toLocal v.pencil g) <;>
        simp [Except.toOption, hown]
    · simp [hown]
  shifted := by
    intro e x h
    have hown := owns_toGlobal h.2
    change globalOffset v.pencil v.extraShape e (toGlobal v.pencil x) = _
    rw [globalOffset_eq, if_pos hown, toLocal_toGlobal]

/-- Every length and part count of type `usize` is partitioned without overflow of the
`u128` product, of the quotient's cast or of the incremented coordinate. -/
theorem partitionRange_exact {length parts coordinate : ℕ} (hl : length < usizeLimit)
    (hp : parts < usizeLimit) (h : coordinate < parts) :
    coordinate + 1 < usizeLimit ∧ length * (coordinate + 1) < u128Limit ∧
      length * (coordinate + 1) / parts < usizeLimit ∧
      partitionRange length parts coordinate
        = .ok ⟨length * coordinate / parts, length * (coordinate + 1) / parts⟩ ∧
      (length * (coordinate + 1) / parts - length * coordinate / parts = length / parts ∨
        length * (coordinate + 1) / parts - length * coordinate / parts = length / parts + 1) := by
  have hnext := boundary_eq hl hp (by omega) (by omega : coordinate + 1 ≤ parts)
  exact ⟨by omega, hnext.1, hnext.2.1, partitionRange_eq hl hp h,
    BlockPartition.cut_succ_sub length coordinate (by omega)⟩

/-- **Ownership is a partition and local storage is a bijection.**  For every grid and
every global shape of `usize` extents, every rank's ranges are computed, and over all
ranks they are contiguous, disjoint blocks of floor size that cover the box; so every
global index of a pencil is visible on exactly one rank, and on each rank local storage
numbers the valid indices. -/
theorem ownership_partition_and_storage (globalShape : Fin N → ℕ) (grid : Fin M → ℕ)
    (decomposition : Decomposition N M) (hshape : ∀ axis, globalShape axis < usizeLimit)
    (hgrid : ∀ t, 0 < grid t ∧ grid t < usizeLimit) :
    (∃ ranges : Coords grid → Fin N → Range,
      (∀ c : Coords grid,
        localRangesFor globalShape grid (fun t => c t) decomposition.axes = .ok (ranges c)) ∧
      IsPartition globalShape grid decomposition.axes ranges ∧
      ∀ g, InBox globalShape g → ∃! c, Owns (ranges c) g) ∧
    (∀ length parts coordinate : ℕ, length < usizeLimit → parts < usizeLimit →
      coordinate < parts →
        coordinate + 1 < usizeLimit ∧ length * (coordinate + 1) < u128Limit ∧
        length * (coordinate + 1) / parts < usizeLimit ∧
        partitionRange length parts coordinate
          = .ok ⟨length * coordinate / parts, length * (coordinate + 1) / parts⟩ ∧
        (length * (coordinate + 1) / parts - length * coordinate / parts = length / parts ∨
          length * (coordinate + 1) / parts - length * coordinate / parts
            = length / parts + 1)) ∧
    (∀ (p : Pencil N M) (g : Fin N → ℕ), InBox p.globalShape g →
      ∃! c : Coords p.topology.processGrid, Owns (pencilAt p c).localRanges g) ∧
    ∀ (α : Type) (v : PencilArrayView α N M), IsStorageNumbering v := by
  refine ⟨?_, fun _ _ _ => partitionRange_exact, ?_, fun _ v => isStorageNumbering v⟩
  · have hpart := isPartition_ownedRanges globalShape grid decomposition.injective
      fun t => (hgrid t).1
    refine ⟨_, fun c => localRangesFor_eq decomposition.injective hshape
      (fun t => (hgrid t).2) fun t => (c t).isLt, hpart, ?_⟩
    exact fun g hg => hpart.existsUnique_owner hg
  · intro p g hg
    have hpart := isPartition_ownedRanges p.globalShape p.topology.processGrid
      p.decomposition.injective p.topology.extents_pos
    exact hpart.existsUnique_owner hg

/-- Two ranks share five rows of two; the blocks are rows 0..2 and 2..5. -/
theorem ownership_partition_five_rows :
    (∀ axis, (![5, 2] : Fin 2 → ℕ) axis < usizeLimit) ∧
      (∀ t, 0 < (![2] : Fin 1 → ℕ) t ∧ (![2] : Fin 1 → ℕ) t < usizeLimit) ∧
      ∃ ranges : Coords (![2] : Fin 1 → ℕ) → Fin 2 → Range,
        (∀ c : Coords (![2] : Fin 1 → ℕ),
          localRangesFor ![5, 2] ![2] (fun t => c t) ![0] = .ok (ranges c)) ∧
        IsPartition ![5, 2] ![2] ![0] ranges := by
  have hshape : ∀ axis, (![5, 2] : Fin 2 → ℕ) axis < usizeLimit := by decide
  have hgrid : ∀ t, 0 < (![2] : Fin 1 → ℕ) t ∧ (![2] : Fin 1 → ℕ) t < usizeLimit := by decide
  obtain ⟨⟨ranges, hranges, hpart, _⟩, _⟩ := ownership_partition_and_storage ![5, 2] ![2]
    (⟨![0], by decide, by decide⟩ : Decomposition 2 1) hshape hgrid
  exact ⟨hshape, hgrid, ranges, hranges, hpart⟩

end PencilRs.Analysis
