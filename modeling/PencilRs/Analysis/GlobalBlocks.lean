import PencilRs.Analysis.Codec
import PencilRs.Analysis.Gather
import PencilRs.Computation.Selection

/-!
# Blocks in the global array

The block of a rank is a box of the global array: the extra axes whole, and the rank's range on
each spatial axis.  The cells of this box in row-major order are the elements of the block in
canonical order, so a string of the block, put into the places of the box, is the rank's part of
the global array.  The boxes of all ranks fill the array.
-/

set_option autoImplicit false

namespace PencilRs.Analysis

open PencilRs.Computation PencilRs.Model

variable {N M : ℕ} {α : Type}

/-! ## Cells and index lists -/

/-- The cell of given indices is at the place of the indices shifted by the starts. -/
theorem boxPlace_rowMajorValue {axes : List BoxAxis} {indices : List ℕ}
    (h : ValidIndices (axes.map BoxAxis.count) indices) :
    boxPlace axes (rowMajorValue (axes.map BoxAxis.count) indices)
      = rowMajorValue (axes.map BoxAxis.extent)
          (List.zipWith (fun axis index => axis.start + index) axes indices) := by
  induction axes generalizing indices with
  | nil => rfl
  | cons axis axes ih =>
    obtain ⟨index, indices, rfl⟩ := List.exists_cons_of_length_eq_add_one h.1
    obtain ⟨_, hrest⟩ := validIndices_cons.mp h
    have hlt : rowMajorValue (axes.map BoxAxis.count) indices < boxSize axes :=
      rowMajorValue_lt hrest
    have hpos : 0 < boxSize axes := Nat.zero_lt_of_lt hlt
    have hvalue : rowMajorValue ((axis :: axes).map BoxAxis.count) (index :: indices)
        = index * boxSize axes + rowMajorValue (axes.map BoxAxis.count) indices := by
      rw [List.map_cons, rowMajorValue_cons hrest.1]
      rfl
    have hdiv : (index * boxSize axes + rowMajorValue (axes.map BoxAxis.count) indices)
        / boxSize axes = index := by
      rw [Nat.mul_comm, Nat.mul_add_div hpos, Nat.div_eq_of_lt hlt, Nat.add_zero]
    have hmod : (index * boxSize axes + rowMajorValue (axes.map BoxAxis.count) indices)
        % boxSize axes = rowMajorValue (axes.map BoxAxis.count) indices := by
      rw [Nat.mul_comm, Nat.mul_add_mod, Nat.mod_eq_of_lt hlt]
    have hlen : (List.zipWith (fun axis index => axis.start + index) axes indices).length
        = (axes.map BoxAxis.extent).length := by
      have := hrest.1
      simp only [List.length_map] at this
      simp [this]
    rw [hvalue, boxPlace, hdiv, hmod, ih hrest, List.map_cons, List.zipWith_cons_cons,
      rowMajorValue_cons hlen]
    rfl

/-! ## The box of a block -/

/-- An axis that is not divided. -/
def wholeAxis (extent : ℕ) : BoxAxis := ⟨extent, 0, extent⟩

/-- The range of a rank on a spatial axis. -/
def rangeAxis (p : Pencil N M) (axis : Fin N) : BoxAxis :=
  ⟨p.globalShape axis, (p.localRanges axis).start, (p.localRanges axis).len⟩

/-- The box of a rank's block. -/
def blockAxes (p : Pencil N M) (extraShape : ExtraShape) : List BoxAxis :=
  extraShape.dimensions.map wholeAxis ++ List.ofFn (rangeAxis p)

variable {p : Pencil N M} {extraShape : ExtraShape} {e : List ℕ} {x : Fin N → ℕ}

theorem counts_blockAxes :
    (blockAxes p extraShape).map BoxAxis.count = logicalShape p.localShapeLogical extraShape := by
  have hlen : ∀ axis, (rangeAxis p axis).count = p.localShapeLogical axis := fun axis =>
    (localShapeLogical_apply p axis).symm
  simp [blockAxes, logicalShape, wholeAxis, Function.comp_def, hlen]

theorem extents_blockAxes :
    (blockAxes p extraShape).map BoxAxis.extent = logicalShape p.globalShape extraShape := by
  simp [blockAxes, logicalShape, wholeAxis, rangeAxis, Function.comp_def]

theorem boxSize_blockAxes :
    boxSize (blockAxes p extraShape) = extraShape.elementCount * p.localLen := by
  unfold boxSize
  rw [counts_blockAxes, prod_logicalShape, localLen_eq]

theorem arraySize_blockAxes :
    arraySize (blockAxes p extraShape)
      = extraShape.elementCount * ∏ axis, p.globalShape axis := by
  unfold arraySize
  rw [extents_blockAxes, prod_logicalShape]

theorem inside_blockAxes : ∀ axis ∈ blockAxes p extraShape, axis.Inside := by
  intro axis haxis
  unfold blockAxes at haxis
  cases List.mem_append.mp haxis with
  | inl h =>
    obtain ⟨extent, _, rfl⟩ := List.mem_map.mp h
    exact (Nat.zero_add extent).le
  | inr h =>
    obtain ⟨axis, rfl⟩ := List.mem_ofFn.mp h
    have hstart := ownedRanges_start_le p.globalShape p.topology.processGrid
      p.topology.localCoords p.decomposition.axes axis
    have hstop := ownedRanges_stop_le p.globalShape p.decomposition.axes p.topology.coords_lt axis
    rw [← localRanges_eq p] at hstart hstop
    show (p.localRanges axis).start + (p.localRanges axis).len ≤ p.globalShape axis
    unfold Range.len
    omega

/-- **The elements of a block** in canonical order are the cells of its box. -/
theorem boxPlace_blockAxes (h : ValidElement p extraShape e x) :
    boxPlace (blockAxes p extraShape) (globalPosition p.localShapeLogical extraShape e x)
      = globalPosition p.globalShape extraShape e (toGlobal p x) := by
  have hvalid : ValidIndices (logicalShape p.localShapeLogical extraShape) (e ++ List.ofFn x) :=
    (validIndices_logicalShape h.1.1).mpr ⟨h.1, h.2⟩
  have hextra : ∀ (dims e : List ℕ), e.length = dims.length →
      List.zipWith (fun (axis : BoxAxis) index => axis.start + index) (dims.map wholeAxis) e
        = e := by
    intro dims
    induction dims with
    | nil =>
      rintro e he
      obtain rfl := List.length_eq_zero_iff.mp he
      rfl
    | cons extent dims ih =>
      intro e he
      obtain ⟨index, e, rfl⟩ := List.exists_cons_of_length_eq_add_one he
      rw [List.map_cons, List.zipWith_cons_cons, ih e (by simpa using he)]
      simp [wholeAxis]
  have hshift : List.zipWith (fun (axis : BoxAxis) index => axis.start + index)
      (blockAxes p extraShape) (e ++ List.ofFn x) = e ++ List.ofFn (toGlobal p x) := by
    unfold blockAxes
    rw [List.zipWith_append (by simp [h.1.1]), hextra _ _ h.1.1]
    congr 1
    apply List.ext_getElem
    · simp
    · intro i _ _
      simp [rangeAxis, toGlobal]
  rw [← rowMajorValue_logicalShape x h.1.1, ← rowMajorValue_logicalShape (toGlobal p x) h.1.1,
    ← counts_blockAxes, boxPlace_rowMajorValue (by rwa [counts_blockAxes]), hshift,
    extents_blockAxes]

/-! ## The global array -/

section Blocks

variable {topology : MpiTopology M} {p : DistributedPencil topology N}

/-- The elements of the global array in row-major order, whichever ranks hold them. -/
structure IsGlobalArray (view : DistributedView p extraShape α) (values : List α) : Prop where
  length : values.length = globalCount p extraShape
  element : ∀ c e x, ValidElement (p.on c) extraShape e x →
    values[globalPosition (commonShape p) extraShape e (toGlobal (p.on c) x)]?
      = (view.on c).getLocal e x

variable {view : DistributedView p extraShape α} {values : List α}

theorem validElement_on {c : Coords topology.processGrid} :
    ValidElement (view.on c).pencil (view.on c).extraShape e x
      ↔ ValidElement (p.on c) extraShape e x := by
  rw [view.pencil_eq, view.extraShape_eq]

/-- Every place of the global array is a cell of the block of one rank. -/
theorem exists_cell {i : ℕ} (h : i < globalCount p extraShape) :
    ∃ c e x, ValidElement (p.on c) extraShape e x ∧
      globalPosition (commonShape p) extraShape e (toGlobal (p.on c) x) = i := by
  obtain ⟨e, g, he, hg, rfl⟩ := exists_globalPosition h
  obtain ⟨owner, _, hvalid, hback⟩ := exists_owner (p := p) he hg
  exact ⟨owner, e, _, hvalid, by rw [hback]⟩

/-- A place of the global array is a cell of one block only. -/
theorem cell_unique {c d : Coords topology.processGrid} {f : List ℕ} {y : Fin N → ℕ}
    (hx : ValidElement (p.on c) extraShape e x) (hy : ValidElement (p.on d) extraShape f y)
    (h : globalPosition (commonShape p) extraShape e (toGlobal (p.on c) x)
      = globalPosition (commonShape p) extraShape f (toGlobal (p.on d) y)) :
    c = d ∧ e = f ∧ x = y := by
  obtain ⟨rfl, hg⟩ := globalPosition_inj hx.1 (inBox_toGlobal p hx.2) hy.1
    (inBox_toGlobal p hy.2) h
  have hcd : c = d := by
    by_contra hne
    have hd := owns_toGlobal hy.2
    rw [← hg] at hd
    exact (isPartition_localRanges p).disjoint c d hne _ ⟨owns_toGlobal hx.2, hd⟩
  subst hcd
  refine ⟨rfl, rfl, ?_⟩
  rw [← toLocal_toGlobal (p.on c) x, hg, toLocal_toGlobal]

theorem exists_globalArray (view : DistributedView p extraShape α) :
    ∃ values, IsGlobalArray view values := by
  have hcell : ∀ i : Fin (globalCount p extraShape), ∃ value, ∀ c e x,
      ValidElement (p.on c) extraShape e x →
      globalPosition (commonShape p) extraShape e (toGlobal (p.on c) x) = i →
      (view.on c).getLocal e x = some value := by
    intro i
    obtain ⟨c, e, x, hvalid, hplace⟩ := exists_cell i.isLt
    obtain ⟨value, hvalue⟩ := exists_element (validElement_on (c := c).mpr hvalid)
    refine ⟨value, fun d f y hfy hsame => ?_⟩
    obtain ⟨rfl, rfl, rfl⟩ := cell_unique hfy hvalid (hsame.trans hplace.symm)
    rw [getLocal_eq (validElement_on.mpr hvalid), hvalue]
  choose value hvalue using hcell
  refine ⟨List.ofFn value, List.length_ofFn, fun c e x h => ?_⟩
  have hlt : globalPosition (commonShape p) extraShape e (toGlobal (p.on c) x)
      < globalCount p extraShape := globalPosition_lt h.1 (inBox_toGlobal p h.2)
  rw [List.getElem?_ofFn, dif_pos hlt, hvalue ⟨_, hlt⟩ c e x h rfl]

theorem IsGlobalArray.unique {other : List α} (h : IsGlobalArray view values)
    (hother : IsGlobalArray view other) : values = other := by
  apply List.ext_getElem?
  intro i
  by_cases hi : i < globalCount p extraShape
  · obtain ⟨c, e, x, hvalid, rfl⟩ := exists_cell hi
    rw [h.element c e x hvalid, hother.element c e x hvalid]
  · rw [List.getElem?_eq_none (by rw [h.length]; omega),
      List.getElem?_eq_none (by rw [hother.length]; omega)]

theorem boxPlace_on {c : Coords topology.processGrid} (h : ValidElement (p.on c) extraShape e x) :
    boxPlace (blockAxes (p.on c) extraShape)
        (globalPosition (p.on c).localShapeLogical extraShape e x)
      = globalPosition (commonShape p) extraShape e (toGlobal (p.on c) x) := by
  rw [boxPlace_blockAxes h, globalShape_on]

theorem arraySize_on (c : Coords topology.processGrid) :
    arraySize (blockAxes (p.on c) extraShape) = globalCount p extraShape := by
  rw [arraySize_blockAxes, globalShape_on]
  rfl

/-- The cells of a rank's box, by its elements. -/
theorem exists_blockCell {c : Coords topology.processGrid} {n : ℕ}
    (h : n < boxSize (blockAxes (p.on c) extraShape)) :
    ∃ e x, ValidElement (p.on c) extraShape e x ∧
      globalPosition (p.on c).localShapeLogical extraShape e x = n := by
  rw [boxSize_blockAxes, localLen_eq] at h
  obtain ⟨e, x, he, hx, hn⟩ := exists_globalPosition h
  exact ⟨e, x, ⟨he, hx⟩, hn⟩

/-- **The boxes of the ranks** are disjoint, and no cell of a box repeats. -/
theorem boxPlace_unique {c d : Coords topology.processGrid} {n m : ℕ}
    (hn : n < boxSize (blockAxes (p.on c) extraShape))
    (hm : m < boxSize (blockAxes (p.on d) extraShape))
    (h : boxPlace (blockAxes (p.on c) extraShape) n = boxPlace (blockAxes (p.on d) extraShape) m) :
    c = d ∧ n = m := by
  obtain ⟨e, x, hx, rfl⟩ := exists_blockCell hn
  obtain ⟨f, y, hy, rfl⟩ := exists_blockCell hm
  rw [boxPlace_on hx, boxPlace_on hy] at h
  obtain ⟨rfl, rfl, rfl⟩ := cell_unique hx hy h
  exact ⟨rfl, rfl⟩

/-- **The boxes of the ranks** fill the global array. -/
theorem exists_boxPlace {i : ℕ} (h : i < globalCount p extraShape) :
    ∃ c, ∃ n < boxSize (blockAxes (p.on c) extraShape),
      boxPlace (blockAxes (p.on c) extraShape) n = i := by
  obtain ⟨c, e, x, hvalid, rfl⟩ := exists_cell h
  refine ⟨c, _, ?_, boxPlace_on hvalid⟩
  rw [boxSize_blockAxes, localLen_eq]
  exact globalPosition_lt hvalid.1 hvalid.2

end Blocks

/-! ## Strings of blocks -/

section Strings

variable {topology : MpiTopology M} {p : DistributedPencil topology N} {scalar : ScalarType}
  {view : DistributedView p extraShape scalar.Value} {values : List scalar.Value}

/-- **The string of a block** holds the global array's elements at the cells of the box. -/
theorem IsPacked.getElem_eq {c : Coords topology.processGrid} {block : List scalar.Value}
    (hblock : IsPacked (view.on c) block) (hvalues : IsGlobalArray view values) {n : ℕ}
    (hn : n < boxSize (blockAxes (p.on c) extraShape)) :
    block[n]? = values[boxPlace (blockAxes (p.on c) extraShape) n]? := by
  obtain ⟨e, x, hvalid, rfl⟩ := exists_blockCell hn
  have hposition : blockPosition (view.on c) e x
      = globalPosition (p.on c).localShapeLogical extraShape e x := by
    unfold blockPosition
    rw [view.pencil_eq, view.extraShape_eq]
  rw [boxPlace_on hvalid, hvalues.element c e x hvalid, ← hposition,
    hblock.element e x (validElement_on.mpr hvalid)]

theorem IsPacked.length_eq {c : Coords topology.processGrid} {block : List scalar.Value}
    (hblock : IsPacked (view.on c) block) :
    block.length = boxSize (blockAxes (p.on c) extraShape) := by
  rw [hblock.length, storage_length view c, boxSize_blockAxes]

end Strings

end PencilRs.Analysis
