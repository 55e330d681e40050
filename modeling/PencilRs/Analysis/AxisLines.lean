import PencilRs.Analysis.CheckedFold
import PencilRs.Analysis.Ownership
import PencilRs.Analysis.StridedLines

/-!
# The lines of a block along an axis

An axis that a rank holds whole cuts its block into lines.  The elements of a line lie as far
apart as the product of the extents after the axis in memory says.
-/

set_option autoImplicit false

namespace PencilRs.Analysis

open PencilRs.Computation PencilRs.Model

variable {N M : ℕ} {K ε : Type}

/-! ## Places -/

/-- The memory positions behind `q` and those before it, each fastest first. -/
def fasterPositions (q : Fin N) : List (Fin N) := ((List.finRange N).drop (q + 1)).reverse

def slowerPositions (q : Fin N) : List (Fin N) := ((List.finRange N).take q).reverse

theorem axesFastestFirst_split (q : Fin N) :
    axesFastestFirst N = fasterPositions q ++ q :: slowerPositions q := by
  have hq : (q : ℕ) < (List.finRange N).length := by
    rw [List.length_finRange]
    exact q.isLt
  have hcut : List.finRange N
      = (List.finRange N).take q ++ q :: (List.finRange N).drop (q + 1) := by
    conv_lhs => rw [← List.take_append_drop q (List.finRange N), List.drop_eq_getElem_cons hq]
    simp
  unfold axesFastestFirst fasterPositions slowerPositions
  conv_lhs => rw [hcut]
  rw [List.reverse_append, List.reverse_cons, List.append_assoc]
  rfl

theorem nodup_split (q : Fin N) : q ∉ fasterPositions q ∧ q ∉ slowerPositions q := by
  have hnodup := nodup_axesFastestFirst (N := N)
  rw [axesFastestFirst_split q, List.nodup_append, List.nodup_cons] at hnodup
  obtain ⟨_, ⟨hslower, _⟩, hfaster⟩ := hnodup
  exact ⟨fun hmem => hfaster q hmem q List.mem_cons_self rfl, hslower⟩

section Places

variable (p : Pencil N M) (q : Fin N)

/-- The extents after position `q`, multiplied. -/
def lineStride : ℕ := MixedRadix.size p.localShapeMemory (fasterPositions q)

/-- The blocks of lines in one spatial block. -/
def blockCount : ℕ := MixedRadix.size p.localShapeMemory (slowerPositions q)

/-- The line of an element, as a block and a place in it. -/
def lineOuter (x : Fin N → ℕ) : ℕ :=
  MixedRadix.value p.localShapeMemory (p.permutation.permute x) (slowerPositions q)

def lineInner (x : Fin N → ℕ) : ℕ :=
  MixedRadix.value p.localShapeMemory (p.permutation.permute x) (fasterPositions q)

variable {p q} {axis : Fin N} {x : Fin N → ℕ}

theorem localLen_lines (hq : p.permutation.axesInMemoryOrder q = axis) :
    p.localLen = blockCount p q * (p.localShapeLogical axis * lineStride p q) := by
  rw [← prod_localShapeMemory, ← size_axesFastestFirst, axesFastestFirst_split q,
    MixedRadix.size_append, MixedRadix.size_cons, localShapeMemory_apply, hq]
  unfold blockCount lineStride
  ring

theorem layoutOffset_line (hq : p.permutation.axesInMemoryOrder q = axis) :
    layoutOffset p x
      = linePlace (p.localShapeLogical axis) (lineStride p q) (lineOuter p q x) (lineInner p q x)
          (x axis) := by
  unfold layoutOffset
  rw [axesFastestFirst_split q, MixedRadix.value_append, MixedRadix.value_cons,
    localShapeMemory_apply, hq]
  have hperm : p.permutation.permute x q = x axis := by
    rw [← hq]
    rfl
  rw [hperm]
  unfold linePlace lineOuter lineInner lineStride
  ring

theorem lineOuter_lt (h : ValidLocal p x) : lineOuter p q x < blockCount p q :=
  MixedRadix.value_lt_size fun position _ => validLocal_memory h position (mem_axesFastestFirst _)

theorem lineInner_lt (h : ValidLocal p x) : lineInner p q x < lineStride p q :=
  MixedRadix.value_lt_size fun position _ => validLocal_memory h position (mem_axesFastestFirst _)

theorem permute_update_ne (hq : p.permutation.axesInMemoryOrder q = axis) (k : ℕ)
    {position : Fin N} (hne : position ≠ q) :
    p.permutation.permute (Function.update x axis k) position
      = p.permutation.permute x position := by
  have haxis : p.permutation.axesInMemoryOrder position ≠ axis := fun heq =>
    hne (p.permutation.injective (heq.trans hq.symm))
  exact Function.update_of_ne haxis _ _

theorem lineOuter_update (hq : p.permutation.axesInMemoryOrder q = axis) (k : ℕ) :
    lineOuter p q (Function.update x axis k) = lineOuter p q x :=
  MixedRadix.value_congr fun _ hmem =>
    permute_update_ne hq k fun heq => (nodup_split q).2 (heq ▸ hmem)

theorem lineInner_update (hq : p.permutation.axesInMemoryOrder q = axis) (k : ℕ) :
    lineInner p q (Function.update x axis k) = lineInner p q x :=
  MixedRadix.value_congr fun _ hmem =>
    permute_update_ne hq k fun heq => (nodup_split q).1 (heq ▸ hmem)

/-- The place of an element in the buffer of all extra indices. -/
theorem element_linePlace (hq : p.permutation.axesInMemoryOrder q = axis) (e : ℕ) :
    e * p.localLen + layoutOffset p x
      = linePlace (p.localShapeLogical axis) (lineStride p q)
          (e * blockCount p q + lineOuter p q x) (lineInner p q x) (x axis) := by
  rw [localLen_lines hq, layoutOffset_line hq]
  unfold linePlace
  ring

end Places

/-! ## The stride -/

theorem localShapeLogical_le (p : Pencil N M) (axis : Fin N) :
    p.localShapeLogical axis ≤ p.globalShape axis := by
  rw [localShapeLogical_apply, localRanges_eq]
  have hstop := ownedRanges_stop_le p.globalShape p.decomposition.axes p.topology.coords_lt axis
  omega

theorem leadingProd_map_le {ι : Type} (f g : ι → ℕ) (l : List ι)
    (h : ∀ i ∈ l, f i ≤ g i ∧ 0 < g i) : leadingProd (l.map f) ≤ (l.map g).prod := by
  induction l with
  | nil => simp
  | cons i l ih =>
    obtain ⟨hle, hpos⟩ := h i List.mem_cons_self
    have hrest := ih fun j hj => h j (List.mem_cons_of_mem _ hj)
    rw [List.map_cons, List.map_cons, List.prod_cons]
    by_cases hzero : f i = 0
    · rw [hzero, leadingProd_zero]
      have := leadingProd_pos (l.map f)
      exact Nat.mul_pos hpos (by omega)
    · rw [leadingProd_cons hzero]
      exact Nat.mul_le_mul hle hrest

theorem prod_sublist_le (p : Pencil N M) {l : List (Fin N)} (h : l.Sublist (List.finRange N)) :
    (l.map fun position => p.globalShape (p.permutation.axesInMemoryOrder position)).prod
      ≤ p.globalLen := by
  have hall : p.globalLen = ((List.finRange N).map fun position =>
      p.globalShape (p.permutation.axesInMemoryOrder position)).prod := by
    rw [checkedProduct_ok p.globalLen_ok, List.prod_ofFn, ← List.ofFn_eq_map, List.prod_ofFn]
    exact (Fintype.prod_bijective _ p.permutation.bijective _ _ fun _ => rfl).symm
  rw [hall]
  refine List.Sublist.prod_le_prod' (h.map _) ?_
  intro extent hextent
  obtain ⟨position, _, rfl⟩ := List.mem_map.mp hextent
  exact p.extents_pos _

theorem foldlM_okOr_checkedMul {values : List ℕ} {acc n : ℕ} {e : FftError}
    (h : values.foldlM checkedMul acc = some n) :
    values.foldlM (fun stride extent => okOr (checkedMul stride extent) e) acc = .ok n := by
  induction values generalizing acc with
  | nil => exact congrArg _ (Option.some.inj h)
  | cons value values ih =>
    rw [List.foldlM_cons] at h
    obtain ⟨next, hnext, hrest⟩ := Option.bind_eq_some_iff.mp h
    rw [List.foldlM_cons]
    exact bind_eq_ok.mpr ⟨next, okOr_eq_ok.mpr hnext, ih hrest⟩

/-- **The memory stride** never overflows, since the global extents multiply. -/
theorem memoryStride_eq {p : Pencil N M} {q axis : Fin N}
    (hq : p.permutation.axesInMemoryOrder q = axis) :
    memoryStride p axis = .ok (if p.localLen = 0 then 0 else lineStride p q) := by
  have hfind : (List.finRange N).find? (fun position =>
      decide ((p.permutation.axesInMemoryOrder position : ℕ) = (axis : ℕ))) = some q := by
    rw [List.find?_eq_some_iff_getElem]
    refine ⟨by simp [hq], q, by simp, by simp, ?_⟩
    intro j hj
    simp only [List.getElem_finRange, Bool.not_eq_true', decide_eq_false_iff_not]
    intro heq
    have hsame := p.permutation.injective ((Fin.ext heq).trans hq.symm)
    have := congrArg Fin.val hsame
    simp at this
    omega
  have hextents : (List.ofFn p.localShapeMemory).drop (q + 1)
      = ((List.finRange N).drop (q + 1)).map p.localShapeMemory := by
    rw [List.ofFn_eq_map, List.map_drop]
  have hprod : ((List.ofFn p.localShapeMemory).drop (q + 1)).prod = lineStride p q := by
    rw [hextents]
    unfold lineStride fasterPositions
    rw [MixedRadix.size_reverse]
    rfl
  have hfit : leadingProd ((List.ofFn p.localShapeMemory).drop (q + 1)) < usizeLimit := by
    rw [hextents]
    refine (leadingProd_map_le p.localShapeMemory
      (fun position => p.globalShape (p.permutation.axesInMemoryOrder position)) _ ?_).trans_lt
        ((prod_sublist_le p (List.drop_sublist _ _)).trans_lt (checkedProduct_lt p.globalLen_ok))
    intro position _
    rw [localShapeMemory_apply]
    exact ⟨localShapeLogical_le p _, p.extents_pos _⟩
  have hfold := foldlM_okOr_checkedMul (e := FftError.preparationFailed)
    ((foldlM_checkedMul_eq_some (by decide)).mpr
      ⟨(Nat.one_mul _).symm, by rwa [Nat.one_mul]⟩)
  unfold memoryStride
  refine bind_eq_ok.mpr ⟨q, okOr_eq_ok.mpr hfind, bind_eq_ok.mpr ⟨_, hfold, ?_⟩⟩
  rw [hprod]
  rfl

end PencilRs.Analysis
