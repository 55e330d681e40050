import PencilRs.Computation.BlockPartition
import PencilRs.Model.Pencil

/-!
# What the geometry computes

`checkedProduct` is the product where it fits, `partitionRange` is the floor partition for
every `usize` length and part count, and `localRangesFor` hands each decomposed axis the
block of the rank's coordinate and leaves the other axes whole.
-/

set_option autoImplicit false

namespace PencilRs.Analysis

open PencilRs.Computation PencilRs.Model

/-! ## Checked products -/

theorem foldlM_checkedMul_ok {l : List ℕ} {acc n : ℕ}
    (h : l.foldlM (fun acc value => okOr (checkedMul acc value) GeometryError.sizeOverflow) acc
      = .ok n) :
    n = acc * l.prod := by
  induction l generalizing acc with
  | nil =>
    have : acc = n := Except.ok.inj h
    simp [this]
  | cons a l ih =>
    rw [List.foldlM_cons] at h
    cases hmul : checkedMul acc a with
    | none => simp [hmul, bind, Except.bind] at h
    | some r =>
      obtain ⟨_, rfl⟩ := checkedMul_eq_some.mp hmul
      rw [hmul] at h
      rw [List.prod_cons, ih h, Nat.mul_assoc]

theorem foldlM_checkedMul_of_lt {l : List ℕ} (acc : ℕ) (hpos : ∀ a ∈ l, 0 < a)
    (hlt : acc * l.prod < usizeLimit) :
    l.foldlM (fun acc value => okOr (checkedMul acc value) GeometryError.sizeOverflow) acc
      = .ok (acc * l.prod) := by
  induction l generalizing acc with
  | nil => simp [pure, Except.pure]
  | cons a l ih =>
    rw [List.prod_cons, ← Nat.mul_assoc] at hlt ⊢
    have hrest : 0 < l.prod := List.prod_pos fun b hb => hpos b (by simp [hb])
    have hstep : acc * a < usizeLimit :=
      Nat.lt_of_le_of_lt (Nat.le_mul_of_pos_right _ hrest) hlt
    have hmul : checkedMul acc a = some (acc * a) := checkedMul_eq_some.mpr ⟨hstep, rfl⟩
    rw [List.foldlM_cons, hmul]
    exact ih _ (fun b hb => hpos b (by simp [hb])) hlt

/-- A checked product that returns is the product. -/
theorem checkedProduct_ok {values : List ℕ} {n : ℕ} (h : checkedProduct values = .ok n) :
    n = values.prod := by
  unfold checkedProduct at h
  split at h
  case isTrue hzero =>
    have hmem : 0 ∈ values := by simpa using hzero
    have hprod : values.prod = 0 := List.prod_eq_zero hmem
    rw [hprod]
    exact (Except.ok.inj h).symm
  case isFalse =>
    simpa using foldlM_checkedMul_ok h

/-- The product is returned whenever it fits, whatever the order of the factors. -/
theorem checkedProduct_of_lt {values : List ℕ} (h : values.prod < usizeLimit) :
    checkedProduct values = .ok values.prod := by
  unfold checkedProduct
  split
  case isTrue hzero =>
    have hmem : 0 ∈ values := by simpa using hzero
    rw [List.prod_eq_zero hmem]
  case isFalse hzero =>
    have hmem : 0 ∉ values := by simpa using hzero
    have hpos : ∀ a ∈ values, 0 < a := fun a ha =>
      Nat.pos_of_ne_zero fun h0 => hmem (h0 ▸ ha)
    simpa using foldlM_checkedMul_of_lt 1 hpos (by simpa using h)

theorem foldlM_checkedMul_lt {l : List ℕ} {acc n : ℕ} (hacc : acc < usizeLimit)
    (h : l.foldlM (fun acc value => okOr (checkedMul acc value) GeometryError.sizeOverflow) acc
      = .ok n) : n < usizeLimit := by
  induction l generalizing acc with
  | nil =>
    have : acc = n := Except.ok.inj h
    omega
  | cons a l ih =>
    rw [List.foldlM_cons] at h
    cases hmul : checkedMul acc a with
    | none => simp [hmul, bind, Except.bind] at h
    | some r =>
      obtain ⟨hr, rfl⟩ := checkedMul_eq_some.mp hmul
      rw [hmul] at h
      exact ih hr h

theorem checkedProduct_lt {values : List ℕ} {n : ℕ} (h : checkedProduct values = .ok n) :
    n < usizeLimit := by
  unfold checkedProduct at h
  split at h
  · rw [← Except.ok.inj h]
    simp [usizeLimit]
  · exact foldlM_checkedMul_lt (by simp [usizeLimit]) h

theorem checkedProduct_eq_ok {values : List ℕ} {n : ℕ} :
    checkedProduct values = .ok n ↔ n = values.prod ∧ values.prod < usizeLimit := by
  constructor
  · intro h
    have hn := checkedProduct_ok h
    exact ⟨hn, hn ▸ checkedProduct_lt h⟩
  · rintro ⟨rfl, h⟩
    exact checkedProduct_of_lt h

/-! ## One axis -/

/-- The blocks of the floor partition as ranges. -/
def blockRange (length parts coordinate : ℕ) : Range :=
  ⟨BlockPartition.cut length parts coordinate, BlockPartition.cut length parts (coordinate + 1)⟩

/-- The `u128` product and the cast of the quotient lose nothing up to the last boundary. -/
theorem boundary_eq {length parts position : ℕ} (hl : length < usizeLimit)
    (hp : parts < usizeLimit) (h0 : 0 < parts) (h : position ≤ parts) :
    length * position < u128Limit ∧ length * position / parts < usizeLimit ∧
      boundary length parts position = BlockPartition.cut length parts position := by
  have hprod : length * position < u128Limit := by
    have hlp : length * position ≤ (usizeLimit - 1) * (usizeLimit - 1) :=
      Nat.mul_le_mul (by omega) (by omega)
    have : (usizeLimit - 1) * (usizeLimit - 1) < u128Limit := by decide
    omega
  have hquot : length * position / parts < usizeLimit :=
    Nat.lt_of_le_of_lt (BlockPartition.cut_le length h0 h) hl
  refine ⟨hprod, hquot, ?_⟩
  unfold boundary
  rw [Nat.mod_eq_of_lt hprod, Nat.mod_eq_of_lt hquot]
  rfl

theorem partitionRange_eq {length parts coordinate : ℕ} (hl : length < usizeLimit)
    (hp : parts < usizeLimit) (h : coordinate < parts) :
    partitionRange length parts coordinate = .ok (blockRange length parts coordinate) := by
  have h0 : parts ≠ 0 := by omega
  unfold partitionRange blockRange
  rw [if_neg h0, if_neg (by omega),
    (boundary_eq hl hp (by omega) (by omega : coordinate ≤ parts)).2.2,
    (boundary_eq hl hp (by omega) (by omega : coordinate + 1 ≤ parts)).2.2]

/-! ## All axes -/

variable {N M : ℕ}

/-- The part count and the coordinate that cut a spatial axis: those of the topology axis
that decomposes it, or one part for an axis left whole. -/
def axisPosition (decomposition : Fin M → Fin N) (grid coords : Fin M → ℕ) (axis : Fin N) :
    ℕ × ℕ :=
  match (List.finRange M).find? fun t => decomposition t = axis with
  | some t => (grid t, coords t)
  | none => (1, 0)

/-- The block of the global box that belongs to the rank at `coords`. -/
def ownedRanges (globalShape : Fin N → ℕ) (grid coords : Fin M → ℕ)
    (decomposition : Fin M → Fin N) (axis : Fin N) : Range :=
  blockRange (globalShape axis) (axisPosition decomposition grid coords axis).1
    (axisPosition decomposition grid coords axis).2

theorem axisPosition_decomposed {decomposition : Fin M → Fin N}
    (hinj : Function.Injective decomposition) (grid coords : Fin M → ℕ) (t : Fin M) :
    axisPosition decomposition grid coords (decomposition t) = (grid t, coords t) := by
  unfold axisPosition
  cases hfind : (List.finRange M).find? fun s => decomposition s = decomposition t with
  | none =>
    have := List.find?_eq_none.mp hfind t (List.mem_finRange t)
    simp at this
  | some s =>
    have hs : decomposition s = decomposition t := by
      simpa using List.find?_some hfind
    rw [hinj hs]

theorem axisPosition_whole {decomposition : Fin M → Fin N} (grid coords : Fin M → ℕ)
    {axis : Fin N} (h : ∀ t, decomposition t ≠ axis) :
    axisPosition decomposition grid coords axis = (1, 0) := by
  unfold axisPosition
  have hfind : ((List.finRange M).find? fun t => decomposition t = axis) = none :=
    List.find?_eq_none.mpr fun t _ => by simp [h t]
  rw [hfind]

theorem axisPosition_lt (decomposition : Fin M → Fin N) {grid coords : Fin M → ℕ}
    (h : ∀ t, coords t < grid t) (axis : Fin N) :
    (axisPosition decomposition grid coords axis).2 <
      (axisPosition decomposition grid coords axis).1 := by
  unfold axisPosition
  split
  · exact h _
  · exact Nat.zero_lt_one

theorem blockRange_whole (length : ℕ) : blockRange length 1 0 = ⟨0, length⟩ := by
  simp [blockRange, BlockPartition.cut]

theorem ownedRanges_decomposed (globalShape : Fin N → ℕ) (grid coords : Fin M → ℕ)
    {decomposition : Fin M → Fin N} (hinj : Function.Injective decomposition) (t : Fin M) :
    ownedRanges globalShape grid coords decomposition (decomposition t)
      = blockRange (globalShape (decomposition t)) (grid t) (coords t) := by
  rw [ownedRanges, axisPosition_decomposed hinj]

theorem ownedRanges_whole (globalShape : Fin N → ℕ) (grid coords : Fin M → ℕ)
    {decomposition : Fin M → Fin N} {axis : Fin N} (h : ∀ t, decomposition t ≠ axis) :
    ownedRanges globalShape grid coords decomposition axis = ⟨0, globalShape axis⟩ := by
  rw [ownedRanges, axisPosition_whole grid coords h, blockRange_whole]

theorem ownedRanges_start_le (globalShape : Fin N → ℕ) (grid coords : Fin M → ℕ)
    (decomposition : Fin M → Fin N) (axis : Fin N) :
    (ownedRanges globalShape grid coords decomposition axis).start ≤
      (ownedRanges globalShape grid coords decomposition axis).stop :=
  BlockPartition.cut_mono _ _ (Nat.le_succ _)

theorem ownedRanges_stop_le (globalShape : Fin N → ℕ) {grid coords : Fin M → ℕ}
    (decomposition : Fin M → Fin N) (h : ∀ t, coords t < grid t) (axis : Fin N) :
    (ownedRanges globalShape grid coords decomposition axis).stop ≤ globalShape axis := by
  have hlt := axisPosition_lt decomposition h axis
  exact BlockPartition.cut_le _ (by omega) hlt

/-- The loop over topology axes returns the blocks of the rank's coordinates. -/
theorem localRangesFor_eq {globalShape : Fin N → ℕ} {grid coords : Fin M → ℕ}
    {decomposition : Fin M → Fin N} (hinj : Function.Injective decomposition)
    (hshape : ∀ axis, globalShape axis < usizeLimit) (hgrid : ∀ t, grid t < usizeLimit)
    (hcoords : ∀ t, coords t < grid t) :
    localRangesFor globalShape grid coords decomposition
      = .ok (ownedRanges globalShape grid coords decomposition) := by
  have hstep : ∀ (l : List (Fin M)) (ranges : Fin N → Range),
      l.foldlM (localRangesStep globalShape grid coords decomposition) ranges
        = .ok (l.foldl (fun r t => Function.update r (decomposition t)
            (blockRange (globalShape (decomposition t)) (grid t) (coords t))) ranges) := by
    intro l
    induction l with
    | nil => exact fun ranges => rfl
    | cons t l ih =>
      intro ranges
      have h1 : grid t ≠ 0 := by
        have := hcoords t
        omega
      have h2 : ¬ grid t ≤ coords t := by
        have := hcoords t
        omega
      have hone : localRangesStep globalShape grid coords decomposition ranges t
          = .ok (Function.update ranges (decomposition t)
              (blockRange (globalShape (decomposition t)) (grid t) (coords t))) := by
        simp [localRangesStep, h1, h2, partitionRange_eq (hshape _) (hgrid t) (hcoords t),
          bind, Except.bind, pure, Except.pure]
      rw [List.foldlM_cons, hone, List.foldl_cons]
      exact ih _
  unfold localRangesFor
  rw [hstep]
  congr 1
  funext axis
  by_cases hdec : ∃ t, decomposition t = axis
  · obtain ⟨t, rfl⟩ := hdec
    rw [ownedRanges_decomposed globalShape grid coords hinj]
    exact foldl_update_of_mem hinj (fun t => blockRange (globalShape (decomposition t)) (grid t)
      (coords t)) _ _ (List.mem_finRange t)
  · have hwhole : ∀ t, decomposition t ≠ axis := fun t ht => hdec ⟨t, ht⟩
    rw [ownedRanges_whole globalShape grid coords hwhole]
    exact foldl_update_of_notMem decomposition _ _ _ fun t _ => hwhole t

/-! ## Pencils -/

theorem globalShape_fits (p : Pencil N M) : ∏ axis, p.globalShape axis < usizeLimit := by
  obtain ⟨_, hlt⟩ := checkedProduct_eq_ok.mp p.globalLen_ok
  rwa [List.prod_ofFn] at hlt

theorem extent_lt {globalShape : Fin N → ℕ} (hpos : ∀ axis, 0 < globalShape axis)
    (hfit : ∏ axis, globalShape axis < usizeLimit) (axis : Fin N) :
    globalShape axis < usizeLimit := by
  have hle : globalShape axis ≤ ∏ a, globalShape a :=
    Finset.single_le_prod' (fun a _ => hpos a) (Finset.mem_univ axis)
  omega

theorem processGrid_lt (t : MpiTopology M) (axis : Fin M) :
    t.processGrid axis < usizeLimit := by
  have := t.extent_le axis
  have : countMax < usizeLimit := by decide
  omega

theorem rangesAtStored_eq (topology : MpiTopology M) {globalShape : Fin N → ℕ}
    (hshape : ∀ axis, globalShape axis < usizeLimit) (decomposition : Decomposition N M)
    {coords : Fin M → ℕ} (h : ∀ axis, coords axis < topology.processGrid axis) :
    rangesAtStored topology globalShape decomposition.axes coords
      = .ok (ownedRanges globalShape topology.processGrid coords decomposition.axes) := by
  unfold rangesAtStored
  rw [topology.rankAt_ok h, localRangesFor_eq decomposition.injective hshape (processGrid_lt topology) h]
  rfl

/-- Ranges can be computed for every rank of the topology, and are its blocks. -/
theorem rangesAt_eq (p : Pencil N M) {coords : Fin M → ℕ}
    (h : ∀ axis, coords axis < p.topology.processGrid axis) :
    p.rangesAt coords
      = .ok (ownedRanges p.globalShape p.topology.processGrid coords p.decomposition.axes) :=
  rangesAtStored_eq p.topology (extent_lt p.extents_pos (globalShape_fits p)) p.decomposition h

theorem localRanges_eq (p : Pencil N M) :
    p.localRanges = ownedRanges p.globalShape p.topology.processGrid p.topology.localCoords
      p.decomposition.axes :=
  Except.ok.inj (p.localRanges_ok.symm.trans (rangesAt_eq p p.topology.coords_lt))

end PencilRs.Analysis
