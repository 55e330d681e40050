import PencilRs.Analysis.Distribution
import PencilRs.Model.LocalGrid

/-!
# The order of a local grid

The iterator visits the points of the rank's box in the order of their storage offsets: after `k`
items its odometer has the digits of `k` in the memory shape.
-/

set_option autoImplicit false

namespace PencilRs.Analysis

open PencilRs.Computation PencilRs.Model

variable {N M : ℕ} {C : Type}

/-! ## Construction -/

theorem arrayFromFn_eq_some {α : Type} {f : Fin N → Option α} {items : Fin N → α} :
    arrayFromFn f = some items ↔ ∀ i, f i = some (items i) := by
  unfold arrayFromFn
  constructor
  · intro h
    split at h
    · intro i
      rw [← Option.some.inj h]
      exact (Option.some_get _).symm
    · contradiction
  · intro h
    have hsome : ∀ i, (f i).isSome := fun i => by rw [h]; rfl
    rw [dif_pos hsome]
    congr 1
    funext i
    rw [Option.get_of_eq_some _ (h i)]

/-- The coordinates that a rank owns. -/
def gridOf (p : Pencil N M) (coordinates : Fin N → List C) : LocalGrid C N where
  axes := fun axis => ((coordinates axis).drop (p.localRanges axis).start).take
    ((p.localRanges axis).stop - (p.localRanges axis).start)
  logicalShape := p.localShapeLogical
  memoryShape := p.localShapeMemory
  logicalToMemory := AxisPermutation.logicalToMemoryOf p.permutation.axesInMemoryOrder
  len := p.localLen

theorem checkAxis_eq_ok {p : Pencil N M} {coordinates : Fin N → List C} {axis : Fin N} {u : Unit} :
    LocalGrid.checkAxis p coordinates axis = .ok u ↔
      (coordinates axis).length = p.globalShape axis := by
  rw [LocalGrid.checkAxis, ensure_eq_ok, decide_eq_true_eq]

/-- **Construction** takes complete coordinates of every axis. -/
theorem fromPencil_eq_ok {p : Pencil N M} {coordinates : Fin N → List C} {grid : LocalGrid C N} :
    LocalGrid.fromPencil p coordinates = .ok grid ↔
      (∀ axis, (coordinates axis).length = p.globalShape axis) ∧ grid = gridOf p coordinates := by
  have hmemory : checkedProduct (List.ofFn p.localShapeMemory) = .ok p.localLen := by
    have hprod : (List.ofFn p.localShapeMemory).prod = p.localLen := by
      rw [List.prod_ofFn, prod_localShapeMemory]
    exact checkedProduct_eq_ok.mpr ⟨hprod.symm, hprod ▸ localLen_lt p⟩
  have hslices : (∀ axis, (coordinates axis).length = p.globalShape axis) →
      arrayFromFn (fun axis => slice? (coordinates axis) (p.localRanges axis).start
        (p.localRanges axis).stop) = some (gridOf p coordinates).axes := by
    intro hlen
    refine arrayFromFn_eq_some.mpr fun axis => slice?_eq ?_ ?_
    · rw [localRanges_eq]
      exact ownedRanges_start_le _ _ _ _ axis
    · rw [hlen, localRanges_eq]
      exact ownedRanges_stop_le _ _ p.topology.coords_lt axis
  unfold LocalGrid.fromPencil
  constructor
  · intro h
    obtain ⟨_, hcheck, h⟩ := bind_eq_ok.mp h
    have hlen : ∀ axis, (coordinates axis).length = p.globalShape axis := fun axis =>
      checkAxis_eq_ok.mp (foldlM_check_eq_ok.mp hcheck axis (List.mem_finRange axis))
    obtain ⟨len, hlocal, h⟩ := bind_eq_ok.mp h
    obtain rfl := Except.ok.inj (p.localLen_ok.symm.trans (mapError_eq_ok.mp hlocal))
    obtain ⟨_, _, h⟩ := bind_eq_ok.mp h
    obtain ⟨_, _, h⟩ := bind_eq_ok.mp h
    obtain ⟨axes, haxes, h⟩ := bind_eq_ok.mp h
    obtain rfl := Option.some.inj ((hslices hlen).symm.trans (okOr_eq_ok.mp haxes))
    exact ⟨hlen, (Except.ok.inj h).symm⟩
  · rintro ⟨hlen, rfl⟩
    refine bind_eq_ok.mpr ⟨(), foldlM_check_eq_ok.mpr fun axis _ => checkAxis_eq_ok.mpr (hlen axis),
      bind_eq_ok.mpr ⟨_, mapError_eq_ok.mpr p.localLen_ok, bind_eq_ok.mpr ⟨_,
      mapError_eq_ok.mpr hmemory, bind_eq_ok.mpr ⟨(), ?_, bind_eq_ok.mpr ⟨_,
      okOr_eq_ok.mpr (hslices hlen), rfl⟩⟩⟩⟩⟩
    rw [ensure_eq_ok, Bool.and_eq_true, decide_eq_true_eq]
    exact ⟨rfl, rfl⟩

/-! ## The odometer -/

/-- Short of the last number, the loop bumps the odometer and no extent underflows. -/
theorem advanceFrom_eq {memoryShape : Fin N → ℕ} {remaining : ℕ} {positions : List (Fin N)}
    {indices : Fin N → ℕ} (hnodup : positions.Nodup)
    (hvalid : ∀ position ∈ positions, indices position < memoryShape position)
    (hlast : MixedRadix.value memoryShape indices positions + 1
      < MixedRadix.size memoryShape positions) :
    LocalGridIter.advanceFrom memoryShape remaining positions indices
      = some (MixedRadix.bump memoryShape positions indices) := by
  induction positions generalizing indices with
  | nil => simp at hlast
  | cons position positions ih =>
    obtain ⟨hout, hnodup⟩ := List.nodup_cons.mp hnodup
    have hpos := hvalid position List.mem_cons_self
    have hsub : checkedSub (memoryShape position) 1 = some (memoryShape position - 1) :=
      checkedSub_eq_some.mpr ⟨by omega, rfl⟩
    have hsame : ∀ other ∈ positions, Function.update indices position 0 other = indices other :=
      fun other hother => Function.update_of_ne (ne_of_mem_of_not_mem hother hout) _ _
    unfold LocalGridIter.advanceFrom
    rw [hsub, MixedRadix.bump]
    show (if indices position < memoryShape position - 1 then _ else _) = _
    by_cases hroom : indices position + 1 < memoryShape position
    · rw [if_pos hroom, if_pos (by omega)]
      rfl
    · rw [if_neg hroom, if_neg (by omega)]
      refine ih hnodup (fun other hother => ?_) ?_
      · rw [hsame other hother]
        exact hvalid other (List.mem_cons_of_mem position hother)
      · have hfull : indices position + 1 = memoryShape position := by omega
        rw [MixedRadix.value_congr hsame]
        rw [MixedRadix.value_cons, MixedRadix.size_cons] at hlast
        have hscaled : memoryShape position * (MixedRadix.value memoryShape indices positions + 1)
            < memoryShape position * MixedRadix.size memoryShape positions := by
          rw [Nat.mul_add]
          omega
        exact Nat.lt_of_mul_lt_mul_left hscaled

/-! ## Items -/

section Items

variable {p : Pencil N M} {coordinates : Fin N → List C}

/-- The iterator after `k` items.  It is not advanced after the last one. -/
def iterAt (p : Pencil N M) (coordinates : Fin N → List C) (k : ℕ) : LocalGridIter C N :=
  { (gridOf p coordinates).iter with
    memoryIndices := MixedRadix.digit p.localShapeMemory (axesFastestFirst N)
      (min k (p.localLen - 1))
    remaining := p.localLen - k }

theorem iterAt_zero : iterAt p coordinates 0 = (gridOf p coordinates).iter := by
  unfold iterAt LocalGrid.iter
  rw [Nat.zero_min, MixedRadix.digit_zero]
  rfl

theorem iterAt_of_le {k : ℕ} (h : p.localLen ≤ k) :
    iterAt p coordinates k = iterAt p coordinates p.localLen := by
  unfold iterAt
  rw [Nat.sub_eq_zero_of_le h, Nat.sub_self, Nat.min_eq_right (by omega),
    Nat.min_eq_right (Nat.sub_le _ _)]

theorem iterAt_of_lt {k : ℕ} (h : k < p.localLen) :
    iterAt p coordinates k = { (gridOf p coordinates).iter with
      memoryIndices := MixedRadix.digit p.localShapeMemory (axesFastestFirst N) k
      remaining := p.localLen - k } := by
  unfold iterAt
  rw [Nat.min_eq_left (by omega)]

/-- **The odometer** goes on to the next item, where there is one. -/
theorem advance_iterAt {k : ℕ} (hk : k + 1 < p.localLen) :
    LocalGridIter.advanceMemoryIndices
        { iterAt p coordinates k with remaining := p.localLen - (k + 1) }
      = some (iterAt p coordinates (k + 1)) := by
  have hsize : k + 1 < MixedRadix.size p.localShapeMemory (axesFastestFirst N) := by
    rwa [size_axesFastestFirst, prod_localShapeMemory]
  have hpos := MixedRadix.radix_pos (Nat.lt_of_le_of_lt (Nat.zero_le _) hsize)
  have hvalue : MixedRadix.value p.localShapeMemory (MixedRadix.digit p.localShapeMemory
      (axesFastestFirst N) k) (axesFastestFirst N) = k :=
    MixedRadix.value_digit nodup_axesFastestFirst (by omega)
  have hbump := @advanceFrom_eq _ _ (p.localLen - (k + 1)) _ _ nodup_axesFastestFirst
    (MixedRadix.digit_lt k hpos) (hvalue.symm ▸ hsize)
  rw [MixedRadix.bump_digit nodup_axesFastestFirst hsize] at hbump
  rw [iterAt_of_lt (show k < p.localLen by omega), iterAt_of_lt hk]
  exact Option.bind_eq_some_iff.mpr ⟨_, hbump, rfl⟩

/-- The coordinates of a global index. -/
def IsPoint (coordinates : Fin N → List C) (g : Fin N → ℕ) (item : Fin N → C) : Prop :=
  ∀ axis, (coordinates axis)[g axis]? = some (item axis)

/-- The coordinates of the rank's own indices. -/
theorem getElem?_axes {x : Fin N → ℕ} (hx : ValidLocal p x) (axis : Fin N) :
    ((gridOf p coordinates).axes axis)[x axis]? = (coordinates axis)[toGlobal p x axis]? := by
  have hcount : x axis < (p.localRanges axis).stop - (p.localRanges axis).start := by
    rw [← localShapeLogical_apply]
    exact hx axis
  show (((coordinates axis).drop _).take _)[x axis]? = _
  rw [List.getElem?_take_of_lt hcount, List.getElem?_drop]
  rfl

theorem exists_point (hlen : ∀ axis, (coordinates axis).length = p.globalShape axis)
    {x : Fin N → ℕ} (hx : ValidLocal p x) :
    ∃ item, IsPoint coordinates (toGlobal p x) item := by
  have hinside : ∀ axis, toGlobal p x axis < (coordinates axis).length := by
    intro axis
    have hstop : (p.localRanges axis).stop ≤ p.globalShape axis := by
      rw [localRanges_eq]
      exact ownedRanges_stop_le _ _ p.topology.coords_lt axis
    have hlt := lt_of_owns (owns_toGlobal hx) axis
    rw [hlen]
    omega
  exact ⟨_, fun axis => List.getElem?_eq_getElem (hinside axis)⟩

/-- **Random access** takes the indices of the rank's box. -/
theorem getLocal_gridOf (hlen : ∀ axis, (coordinates axis).length = p.globalShape axis)
    (x : Fin N → ℕ) :
    ∃ item, (gridOf p coordinates).getLocal x = some item ∧
      (item = none ↔ ¬ ValidLocal p x) ∧
        ∀ point ∈ item, IsPoint coordinates (toGlobal p x) point := by
  unfold LocalGrid.getLocal
  by_cases hx : ValidLocal p x
  · obtain ⟨item, hpoint⟩ := exists_point hlen hx
    have haxes : ∀ axis, ((gridOf p coordinates).axes axis)[x axis]? = some (item axis) :=
      fun axis => (getElem?_axes hx axis).trans (hpoint axis)
    rw [if_neg fun ⟨axis, h⟩ => absurd (hx axis) (not_lt.mpr h), arrayFromFn_eq_some.mpr haxes]
    exact ⟨some item, rfl, iff_of_false nofun (not_not.mpr hx),
      fun point h => Option.some.inj h ▸ hpoint⟩
  · obtain ⟨axis, hout⟩ := not_forall.mp hx
    rw [if_pos ⟨axis, not_lt.mp hout⟩]
    exact ⟨none, rfl, iff_of_true rfl hx, nofun⟩

/-- **One item**: the coordinates of the index whose storage offset is `k`. -/
theorem next_iterAt (hlen : ∀ axis, (coordinates axis).length = p.globalShape axis) {k : ℕ}
    (hk : k < p.localLen) :
    ∃ g item, globalOffset p ExtraShape.scalar [] g = some k ∧ IsPoint coordinates g item ∧
      (iterAt p coordinates k).next = some (some item, iterAt p coordinates (k + 1)) := by
  obtain ⟨x, hx, hoffset⟩ := exists_layoutOffset hk
  have hfit : ExtraShape.scalar.elementCount * p.localLen < usizeLimit := by
    rw [show ExtraShape.scalar.elementCount = 1 from rfl, Nat.one_mul]
    exact localLen_lt p
  have hglobal : globalOffset p ExtraShape.scalar [] (toGlobal p x) = some k := by
    refine (globalOffset_eq_some hfit).mpr ⟨owns_toGlobal hx, ⟨rfl, nofun⟩, ?_⟩
    rw [toLocal_toGlobal, elementOffset, hoffset]
    simp [rowMajorValue, ExtraShape.scalar]
  -- the digits of `k` are the point's indices in memory order
  have hdigits : ∀ position, (iterAt p coordinates k).memoryIndices position
      = x (p.permutation.axesInMemoryOrder position) := by
    intro position
    show MixedRadix.digit _ _ (min k (p.localLen - 1)) position = _
    rw [Nat.min_eq_left (by omega), ← hoffset]
    exact MixedRadix.digit_value nodup_axesFastestFirst (validLocal_memory hx) position
      (mem_axesFastestFirst position)
  have hindex : ∀ axis, (List.ofFn (iterAt p coordinates k).memoryIndices)[
      (iterAt p coordinates k).logicalToMemory axis]? = some (x axis) := by
    intro axis
    obtain ⟨position, rfl⟩ := p.permutation.surjective axis
    have hmemory : (iterAt p coordinates k).logicalToMemory
        (p.permutation.axesInMemoryOrder position) = position :=
      AxisPermutation.logicalToMemoryOf_inverse p.permutation.injective position
    rw [hmemory, List.getElem?_ofFn, dif_pos position.isLt]
    exact congrArg some (hdigits position)
  obtain ⟨item, hpoint⟩ := exists_point hlen hx
  have haxis : ∀ axis, (iterAt p coordinates k).coordinate axis = some (item axis) := by
    intro axis
    unfold LocalGridIter.coordinate
    rw [hindex]
    exact (getElem?_axes hx axis).trans (hpoint axis)
  refine ⟨toGlobal p x, item, hglobal, hpoint, ?_⟩
  have hremaining : (iterAt p coordinates k).remaining ≠ 0 := by
    show p.localLen - k ≠ 0
    omega
  unfold LocalGridIter.next
  rw [if_neg hremaining, arrayFromFn_eq_some.mpr haxis]
  refine Option.bind_eq_some_iff.mpr ⟨_, rfl, Option.bind_eq_some_iff.mpr
    ⟨iterAt p coordinates (k + 1), ?_, rfl⟩⟩
  show (if p.localLen - k - 1 ≠ 0 then LocalGridIter.advanceMemoryIndices
      { iterAt p coordinates k with remaining := p.localLen - k - 1 }
    else some { iterAt p coordinates k with remaining := p.localLen - k - 1 }) = _
  rw [Nat.sub_sub]
  by_cases hmore : k + 1 < p.localLen
  · rw [if_pos (by omega)]
    exact advance_iterAt hmore
  · rw [if_neg (by omega)]
    unfold iterAt
    rw [Nat.min_eq_left (by omega), Nat.min_eq_right (by omega), show p.localLen - 1 = k by omega]

/-- The iterator stays at its end. -/
theorem next_end {k : ℕ} (h : p.localLen ≤ k) :
    (iterAt p coordinates k).next = some (none, iterAt p coordinates (k + 1)) := by
  have hdone : (iterAt p coordinates k).remaining = 0 := Nat.sub_eq_zero_of_le h
  unfold LocalGridIter.next
  rw [if_pos hdone, iterAt_of_le h, iterAt_of_le (h.trans (Nat.le_succ k))]
  rfl

/-- The `k`-th item of a grid: the coordinates of the index with storage offset `k`, or nothing
past the end. -/
def IsItem (p : Pencil N M) (coordinates : Fin N → List C) (k : ℕ) : Option (Fin N → C) → Prop
  | some item => k < p.localLen ∧
      ∃ g, globalOffset p ExtraShape.scalar [] g = some k ∧ IsPoint coordinates g item
  | none => p.localLen ≤ k

/-- **Every number of calls.** -/
theorem take_iter (hlen : ∀ axis, (coordinates axis).length = p.globalShape axis) (count : ℕ) :
    ∃ items, (gridOf p coordinates).iter.take count = some (items, iterAt p coordinates count) ∧
      items.length = count ∧ ∀ k item, items[k]? = some item → IsItem p coordinates k item := by
  induction count with
  | zero =>
    refine ⟨[], ?_, rfl, nofun⟩
    rw [iterAt_zero]
    rfl
  | succ count ih =>
    obtain ⟨items, htake, hcount, hitems⟩ := ih
    obtain ⟨last, hlast, hnext⟩ : ∃ last, IsItem p coordinates count last ∧
        (iterAt p coordinates count).next = some (last, iterAt p coordinates (count + 1)) := by
      by_cases hmore : count < p.localLen
      · obtain ⟨g, item, hg, hpoint, hnext⟩ := next_iterAt hlen hmore
        exact ⟨some item, ⟨hmore, g, hg, hpoint⟩, hnext⟩
      · exact ⟨none, not_lt.mp hmore, next_end (not_lt.mp hmore)⟩
    refine ⟨items ++ [last], ?_, by rw [List.length_append, hcount]; rfl, fun k item hk => ?_⟩
    · exact Option.bind_eq_some_iff.mpr ⟨_, htake, Option.bind_eq_some_iff.mpr ⟨_, hnext, rfl⟩⟩
    · by_cases hold : k < items.length
      · rw [List.getElem?_append_left hold] at hk
        exact hitems k item hk
      · have hlength := (List.getElem?_eq_some_iff.mp hk).1
        rw [List.length_append, List.length_singleton] at hlength
        obtain rfl : k = count := by omega
        rw [← hcount, List.getElem?_concat_length] at hk
        exact Option.some.inj hk ▸ hlast

end Items

/-- **The order of a local grid.**  Complete coordinates make a grid, and however often its
iterator is called, it hands out the coordinates of the rank's indices in the order of their
storage offsets, each once, and knows how many are left; after that it hands out nothing. -/
theorem local_grid_order (p : Pencil N M) (coordinates : Fin N → List C)
    (hlen : ∀ axis, (coordinates axis).length = p.globalShape axis) :
    ∃ grid, LocalGrid.fromPencil p coordinates = .ok grid ∧ grid.len = p.localLen ∧
      ∀ count, ∃ items iter, grid.iter.take count = some (items, iter) ∧
        iter.sizeHint = (p.localLen - count, some (p.localLen - count)) ∧
        items.length = count ∧ ∀ k item, items[k]? = some item → IsItem p coordinates k item := by
  refine ⟨_, fromPencil_eq_ok.mpr ⟨hlen, rfl⟩, rfl, fun count => ?_⟩
  obtain ⟨items, htake, hcount, hitems⟩ := take_iter hlen count
  exact ⟨items, _, htake, rfl, hcount, hitems⟩

/-- Coordinates of three rows of two. -/
def rowCoordinates : Fin 2 → List ℕ := ![[10, 20, 30], [7, 8]]

theorem local_grid_order_rows :
    ∃ grid, LocalGrid.fromPencil ((threeByTwo 0 swapAxes).on twoRanks.here) rowCoordinates
      = .ok grid ∧ grid.len = 2 := by
  obtain ⟨grid, hgrid, hlen, _⟩ := local_grid_order ((threeByTwo 0 swapAxes).on twoRanks.here)
    rowCoordinates (by decide)
  exact ⟨grid, hgrid, hlen.trans (by decide)⟩

end PencilRs.Analysis
