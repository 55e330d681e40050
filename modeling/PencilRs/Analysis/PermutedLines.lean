import PencilRs.Analysis.AxisTransforms
import PencilRs.Analysis.StridedDiffering

/-!
# Lines of permuted blocks

An axis is transformed as if it was the last one in memory: there its lines lie one behind the
other, so that a batch is all there is to it.  Which lines there are, and what they hold, does not
depend on the order of the axes in memory.
-/

set_option autoImplicit false

namespace PencilRs.Analysis

open PencilRs.Computation PencilRs.Model

variable {N M : ℕ} {K L : Type}

/-! ## The same block in another order -/

/-- The same distribution in another memory order. -/
def withPermutation (p : Pencil N M) (permutation : AxisPermutation N) : Pencil N M :=
  { p with permutation, localShapeMemory := permutation.permute p.localShapeLogical
           localShapeMemory_eq := rfl }

/-- A memory order that has the axis last. -/
def HasLast (permutation : AxisPermutation N) (axis : Fin N) : Prop :=
  ∃ position : Fin N, (position : ℕ) + 1 = N ∧ permutation.axesInMemoryOrder position = axis

/-- The same block with the axis last in memory. -/
structure AxisLast (p p' : Pencil N M) (axis : Fin N) : Prop where
  shape : p'.localShapeLogical = p.localShapeLogical
  last : HasLast p'.permutation axis

/-- Two buffers that hold the same elements, in the memory orders of their pencils. -/
structure Permuted (p p' : Pencil N M) (E : ℕ) (values values' : List K) : Prop where
  length : values.length = E * p.localLen
  length' : values'.length = E * p'.localLen
  same : ∀ e < E, ∀ x, ValidLocal p x →
    values[e * p.localLen + layoutOffset p x]? = values'[e * p'.localLen + layoutOffset p' x]?

theorem exists_hasLast (axis : Fin N) : ∃ permutation : AxisPermutation N, HasLast permutation axis
    := by
  have hlast : N - 1 < N := Nat.sub_lt (Nat.lt_of_le_of_lt (Nat.zero_le _) axis.isLt) one_pos
  have hinj : Function.Injective (Equiv.swap axis ⟨N - 1, hlast⟩) := Equiv.injective _
  refine ⟨⟨Equiv.swap axis ⟨N - 1, hlast⟩, AxisPermutation.logicalToMemoryOf _,
    AxisPermutation.logicalToMemoryOf_inverse hinj⟩, ⟨N - 1, hlast⟩, ?_, ?_⟩
  · exact Nat.sub_add_cancel (Nat.lt_of_le_of_lt (Nat.zero_le _) axis.isLt)
  · exact Equiv.swap_apply_right _ _

theorem axisLast_withPermutation (p : Pencil N M) {axis : Fin N} {permutation : AxisPermutation N}
    (h : HasLast permutation axis) : AxisLast p (withPermutation p permutation) axis := ⟨rfl, h⟩

theorem AxisLast.localLen {p p' : Pencil N M} {axis : Fin N} (h : AxisLast p p' axis) :
    p'.localLen = p.localLen := by
  rw [localLen_eq, localLen_eq, h.shape]

theorem AxisLast.valid {p p' : Pencil N M} {axis : Fin N} (h : AxisLast p p' axis)
    {x : Fin N → ℕ} : ValidLocal p' x ↔ ValidLocal p x := by
  unfold ValidLocal
  rw [h.shape]

/-- The lines of the last axis lie one behind the other. -/
theorem AxisLast.stride {p p' : Pencil N M} {axis : Fin N} (h : AxisLast p p' axis) :
    ∃ q, p'.permutation.axesInMemoryOrder q = axis ∧ lineStride p' q = 1 := by
  obtain ⟨q, hq, haxis⟩ := h.last
  refine ⟨q, haxis, ?_⟩
  unfold lineStride fasterPositions
  rw [List.drop_eq_nil_of_le (by rw [List.length_finRange]; omega)]
  rfl

/-- Every element of a block is at some place. -/
theorem exists_layoutElement {p : Pencil N M} {E j : ℕ} (h : j < E * p.localLen) :
    ∃ e < E, ∃ x, ValidLocal p x ∧ e * p.localLen + layoutOffset p x = j := by
  have hpos : 0 < p.localLen := Nat.pos_of_ne_zero fun hzero => by
    rw [hzero, Nat.mul_zero] at h
    omega
  obtain ⟨x, hx, hoffset⟩ := exists_layoutOffset (Nat.mod_lt j hpos)
  exact ⟨j / p.localLen, Nat.div_lt_of_lt_mul (by rwa [Nat.mul_comm]), x, hx,
    hoffset ▸ Nat.div_add_mod' j p.localLen⟩

/-- The elements of a buffer can be put in the other order. -/
theorem exists_permuted {p p' : Pencil N M} {axis : Fin N} (h : AxisLast p p' axis) {E : ℕ}
    {values : List K} (hlength : values.length = E * p.localLen) :
    ∃ values', Permuted p p' E values values' := by
  have hplace : ∀ j : Fin (E * p'.localLen), ∃ value : K, ∀ e < E, ∀ x, ValidLocal p x →
      e * p'.localLen + layoutOffset p' x = j →
        values[e * p.localLen + layoutOffset p x]? = some value := by
    intro j
    obtain ⟨e, he, x, hx, hj⟩ := exists_layoutElement j.isLt
    have hlt : e * p.localLen + layoutOffset p x < values.length := by
      rw [hlength]
      exact extra_block_lt he (layoutOffset_lt (h.valid.mp hx))
    refine ⟨values[e * p.localLen + layoutOffset p x], fun e' he' x' hx' hj' => ?_⟩
    have hoffset := layoutOffset_lt hx
    have hoffset' := layoutOffset_lt (h.valid.mpr hx')
    have hsame := hj'.trans hj.symm
    have he : e' = e := by
      have hdiv := congrArg (· / p'.localLen) hsame
      simp only [Nat.mul_comm _ p'.localLen, Nat.mul_add_div (Nat.zero_lt_of_lt hoffset),
        Nat.div_eq_of_lt hoffset, Nat.div_eq_of_lt hoffset', Nat.add_zero] at hdiv
      exact hdiv
    subst he
    have hx := layoutOffset_inj (h.valid.mpr hx') hx (Nat.add_left_cancel hsame)
    rw [hx]
    exact List.getElem?_eq_getElem hlt
  choose value hvalue using hplace
  refine ⟨List.ofFn value, hlength, List.length_ofFn, fun e he x hx => ?_⟩
  have hlt : e * p'.localLen + layoutOffset p' x < E * p'.localLen :=
    extra_block_lt he (layoutOffset_lt (h.valid.mpr hx))
  rw [hvalue ⟨_, hlt⟩ e he x hx rfl, List.getElem?_ofFn, dif_pos hlt]

/-! ## Lines of an axis -/

/-- The extents of two blocks are the same but along the axis. -/
structure SameLines (p p₂ : Pencil N M) (axis : Fin N) : Prop where
  permutation : p₂.permutation = p.permutation
  extents : ∀ other, other ≠ axis → p₂.localShapeLogical other = p.localShapeLogical other

theorem SameLines.refl (p : Pencil N M) (axis : Fin N) : SameLines p p axis :=
  ⟨rfl, fun _ _ => rfl⟩

theorem SameLines.withPermutation {p p₂ : Pencil N M} {axis : Fin N} (h : SameLines p p₂ axis)
    (permutation : AxisPermutation N) :
    SameLines (withPermutation p permutation) (withPermutation p₂ permutation) axis :=
  ⟨rfl, h.extents⟩

section Lines

variable {p p₂ : Pencil N M} {axis q : Fin N} {E : ℕ}

theorem SameLines.memory (h : SameLines p p₂ axis)
    (hq : p.permutation.axesInMemoryOrder q = axis) {position : Fin N} (hne : position ≠ q) :
    p₂.localShapeMemory position = p.localShapeMemory position := by
  rw [localShapeMemory_apply, localShapeMemory_apply, h.permutation]
  exact h.extents _ fun heq => hne (p.permutation.injective (heq.trans hq.symm))

theorem SameLines.lineStride_eq (h : SameLines p p₂ axis)
    (hq : p.permutation.axesInMemoryOrder q = axis) : lineStride p₂ q = lineStride p q :=
  MixedRadix.size_congr fun _ hmem => h.memory hq fun heq => (nodup_split q).1 (heq ▸ hmem)

theorem SameLines.blockCount_eq (h : SameLines p p₂ axis)
    (hq : p.permutation.axesInMemoryOrder q = axis) : blockCount p₂ q = blockCount p q :=
  MixedRadix.size_congr fun _ hmem => h.memory hq fun heq => (nodup_split q).2 (heq ▸ hmem)

theorem SameLines.lineOuter_eq (h : SameLines p p₂ axis)
    (hq : p.permutation.axesInMemoryOrder q = axis) (x : Fin N → ℕ) :
    lineOuter p₂ q x = lineOuter p q x := by
  unfold lineOuter
  rw [h.permutation]
  exact MixedRadix.value_congr_radix fun _ hmem =>
    h.memory hq fun heq => (nodup_split q).2 (heq ▸ hmem)

theorem SameLines.lineInner_eq (h : SameLines p p₂ axis)
    (hq : p.permutation.axesInMemoryOrder q = axis) (x : Fin N → ℕ) :
    lineInner p₂ q x = lineInner p q x := by
  unfold lineInner
  rw [h.permutation]
  exact MixedRadix.value_congr_radix fun _ hmem =>
    h.memory hq fun heq => (nodup_split q).1 (heq ▸ hmem)

/-- A line of the buffer is a line of the block. -/
theorem holdsLine_iff (hq : p.permutation.axesInMemoryOrder q = axis) {e : ℕ} {x : Fin N → ℕ}
    {buffer values : List K} :
    HoldsLine (p.localShapeLogical axis) (lineStride p q) (e * blockCount p q + lineOuter p q x)
        (lineInner p q x) buffer values ↔ HoldsAxisLine p axis e x buffer values := by
  unfold HoldsLine HoldsAxisLine
  refine and_congr_right fun _ => forall_congr' fun k => imp_congr_right fun _ => ?_
  rw [element_linePlace hq, lineOuter_update hq, lineInner_update hq, Function.update_self]

/-- Every line of the buffer is the line of some element. -/
theorem exists_lineElement (hq : p.permutation.axesInMemoryOrder q = axis)
    (hpos : 0 < p.localShapeLogical axis) {outer inner : ℕ} (houter : outer < E * blockCount p q)
    (hinner : inner < lineStride p q) :
    ∃ e < E, ∃ x, ValidLocal p x ∧ outer = e * blockCount p q + lineOuter p q x ∧
      inner = lineInner p q x := by
  have hplace := linePlace_lt houter hinner hpos
  rw [Nat.mul_assoc, ← localLen_lines hq] at hplace
  obtain ⟨e, he, x, hx, hj⟩ := exists_layoutElement hplace
  rw [element_linePlace hq] at hj
  obtain ⟨houters, hinners, _⟩ := linePlace_inj (lineInner_lt hx) hinner (hx axis) hpos hj
  exact ⟨e, he, x, hx, houters.symm, hinners.symm⟩

theorem exists_holdsAxisLine (axis : Fin N) {buffer : List K} {e : ℕ}
    (hbuffer : buffer.length = E * p.localLen) (he : e < E) {x : Fin N → ℕ} (hx : ValidLocal p x) :
    ∃ values, HoldsAxisLine p axis e x buffer values := by
  obtain ⟨q, hq⟩ := p.permutation.surjective axis
  rw [localLen_lines hq, ← Nat.mul_assoc] at hbuffer
  obtain ⟨values, hvalues⟩ := exists_holdsLine hbuffer (extra_block_lt he (lineOuter_lt hx))
    (lineInner_lt hx)
  exact ⟨values, (holdsLine_iff hq).mp hvalues⟩

theorem validLocal_update {x : Fin N → ℕ} (hx : ValidLocal p x) {k : ℕ}
    (hk : k < p.localShapeLogical axis) : ValidLocal p (Function.update x axis k) := by
  intro other
  by_cases heq : other = axis
  · subst heq
    rwa [Function.update_self]
  · rw [Function.update_of_ne heq]
    exact hx other

/-- Permuted blocks have the same lines. -/
theorem Permuted.holdsAxisLine {p' : Pencil N M} {buffer buffer' : List K}
    (h : Permuted p p' E buffer buffer') (hlast : AxisLast p p' axis) {e : ℕ} (he : e < E)
    {x : Fin N → ℕ} (hx : ValidLocal p x) {values : List K} :
    HoldsAxisLine p axis e x buffer values ↔ HoldsAxisLine p' axis e x buffer' values := by
  unfold HoldsAxisLine
  rw [hlast.shape]
  refine and_congr_right fun _ => forall_congr' fun k => imp_congr_right fun hk => ?_
  rw [h.same e he _ (validLocal_update hx hk)]

/-! ## Transformed lines -/

/-- Every line of the `E` blocks in `result` is the transform of the line in `source`, which may
have another length. -/
structure AxisTransformedTo (transform : List K → List L) (p p₂ : Pencil N M) (axis : Fin N)
    (E : ℕ) (source : List K) (result : List L) : Prop where
  length : result.length = E * p₂.localLen
  lines : ∀ e < E, ∀ x, ValidLocal p x → ∀ values, HoldsAxisLine p axis e x source values →
    ∀ k < p₂.localShapeLogical axis,
      result[e * p₂.localLen + layoutOffset p₂ (Function.update x axis k)]? = (transform values)[k]?

theorem AxisTransformed.to {transform : List K → List K} {source result : List K}
    (hsource : source.length = E * p.localLen)
    (h : AxisTransformed transform p axis E source result) :
    AxisTransformedTo transform p p axis E source result where
  length := h.length.trans hsource
  lines := by
    intro e he x hx values hvalues k hk
    have hline : HoldsAxisLine p axis e (Function.update x axis k) source values := by
      refine ⟨hvalues.1, fun k' hk' => ?_⟩
      rw [Function.update_idem]
      exact hvalues.2 k' hk'
    rw [h.lines e he _ (validLocal_update hx hk) values hline, Function.update_self]

/-- Lines of the buffers are lines of the blocks. -/
theorem LinesTransformedTo.axisTransformedTo {transform : List K → List L}
    (hlines : SameLines p p₂ axis) (hq : p.permutation.axesInMemoryOrder q = axis)
    {source : List K} {result : List L} (hresult : result.length = E * p₂.localLen)
    (h : LinesTransformedTo transform (p.localShapeLogical axis) (p₂.localShapeLogical axis)
      (lineStride p q) (E * blockCount p q) source result) :
    AxisTransformedTo transform p p₂ axis E source result where
  length := hresult
  lines := by
    intro e he x hx values hvalues k hk
    have hq₂ : p₂.permutation.axesInMemoryOrder q = axis := by rw [hlines.permutation, hq]
    rw [element_linePlace hq₂, lineOuter_update hq₂, lineInner_update hq₂, Function.update_self,
      hlines.lineOuter_eq hq, hlines.lineInner_eq hq, hlines.lineStride_eq hq,
      hlines.blockCount_eq hq]
    exact h _ (extra_block_lt he (lineOuter_lt hx)) _ (lineInner_lt hx) values
      ((holdsLine_iff hq).mpr hvalues) k hk

/-- **Permuted sources** have permuted results. -/
theorem AxisTransformedTo.permuted {transform : List K → List L} {p' p₂' : Pencil N M}
    {source source' : List K} {result result' : List L} (hlines : SameLines p p₂ axis)
    (hpos : 0 < p.localShapeLogical axis) (hlast : AxisLast p p' axis)
    (hlast₂ : AxisLast p₂ p₂' axis) (hsource : Permuted p p' E source source')
    (h : AxisTransformedTo transform p p₂ axis E source result)
    (h' : AxisTransformedTo transform p' p₂' axis E source' result') :
    Permuted p₂ p₂' E result result' where
  length := h.length
  length' := h'.length
  same := by
    intro e he y hy
    have hx : ValidLocal p (Function.update y axis 0) := by
      intro other
      by_cases heq : other = axis
      · subst heq
        rwa [Function.update_self]
      · rw [Function.update_of_ne heq, ← hlines.extents other heq]
        exact hy other
    obtain ⟨values, hvalues⟩ := exists_holdsAxisLine axis hsource.length he hx
    have hvalues' := (hsource.holdsAxisLine hlast he hx).mp hvalues
    have hline := h.lines e he _ hx values hvalues (y axis) (hy axis)
    have hline' := h'.lines e he _ (hlast.valid.mpr hx) values hvalues' (y axis)
      (hlast₂.shape ▸ hy axis)
    rw [Function.update_idem, Function.update_eq_self] at hline hline'
    rw [hline, hline']

end Lines

/-! ## Batches -/

/-- A line of transformed lines. -/
theorem lineAt_mapLines {n m : ℕ} (hn : 0 < n) {transform : List K → List L}
    (hlength : ∀ values, values.length = n → (transform values).length = m) {buffer : List K}
    {count i : ℕ} (hbuffer : buffer.length = count * n) (hi : i < count) :
    lineAt m (mapLines n transform buffer) i = transform (lineAt n buffer i) := by
  obtain ⟨lines, rfl, hlines⟩ := exists_lines (n := n) ⟨count, hbuffer.trans (Nat.mul_comm ..)⟩
  have hcount : i < lines.length := by
    rw [length_flatten_lines hlines] at hbuffer
    rwa [Nat.eq_of_mul_eq_mul_right hn hbuffer]
  have hmapped : ∀ line ∈ lines.map transform, line.length = m := by
    intro line hline
    obtain ⟨values, hvalues, rfl⟩ := List.mem_map.mp hline
    exact hlength values (hlines values hvalues)
  rw [mapLines_flatten hlines hn, lineAt_flatten hlines (List.getElem?_eq_getElem hcount)]
  apply lineAt_flatten hmapped
  rw [List.getElem?_map, List.getElem?_eq_getElem hcount]
  rfl

theorem length_mapLinesTo {n m count : ℕ} (hn : 0 < n) {transform : List K → List L}
    (hlength : ∀ values, values.length = n → (transform values).length = m) {buffer : List K}
    (hbuffer : buffer.length = count * n) :
    (mapLines n transform buffer).length = count * m := by
  unfold mapLines
  rw [hbuffer, Nat.mul_div_cancel _ hn, List.length_flatMap]
  have hline : ∀ i ∈ List.range count, (transform (lineAt n buffer i)).length = m := fun i hi =>
    hlength _ (length_lineAt (hbuffer ▸ Nat.mul_le_mul_right n (List.mem_range.mp hi)))
  rw [List.map_congr_left hline, List.map_const', List.sum_replicate, List.length_range,
    smul_eq_mul]

theorem getElem?_lineAt {n i k : ℕ} (buffer : List K) (hk : k < n) :
    (lineAt n buffer i)[k]? = buffer[i * n + k]? := by
  unfold lineAt
  rw [List.getElem?_take_of_lt hk, List.getElem?_drop]

/-- Consecutive lines. -/
theorem holdsLine_unit {n outer : ℕ} {buffer values : List K} {count : ℕ}
    (hbuffer : buffer.length = count * n) (houter : outer < count) :
    HoldsLine n 1 outer 0 buffer values ↔ values = lineAt n buffer outer := by
  have hline : (lineAt n buffer outer).length = n :=
    length_lineAt (hbuffer ▸ Nat.mul_le_mul_right n houter)
  have hholds : HoldsLine n 1 outer 0 buffer (lineAt n buffer outer) := by
    refine ⟨hline, fun k hk => ?_⟩
    rw [getElem?_lineAt _ hk]
    unfold linePlace
    rw [Nat.mul_one, Nat.mul_one, Nat.add_zero]
  exact ⟨fun h => h.unique hholds, fun h => h ▸ hholds⟩

/-- A batch transforms consecutive lines. -/
theorem linesTransformedTo_mapLines {n m count : ℕ} (hn : 0 < n) {transform : List K → List L}
    (hlength : ∀ values, values.length = n → (transform values).length = m) {buffer : List K}
    (hbuffer : buffer.length = count * n) :
    LinesTransformedTo transform n m 1 count buffer (mapLines n transform buffer) := by
  intro outer houter inner hinner values hvalues k hk
  obtain rfl : inner = 0 := Nat.lt_one_iff.mp hinner
  rw [(holdsLine_unit hbuffer houter).mp hvalues,
    ← lineAt_mapLines hn hlength hbuffer houter, getElem?_lineAt _ hk]
  unfold linePlace
  rw [Nat.mul_one, Nat.mul_one, Nat.add_zero]

end PencilRs.Analysis
