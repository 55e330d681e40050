import PencilRs.Analysis.Layout

/-!
# Row-major numbers by strides

The stride of an axis is the product of the extents after it.  A row-major number is the sum of
its indices times the strides, and quotient and remainder by stride and extent give the indices
back.
-/

set_option autoImplicit false

namespace PencilRs.Analysis

open PencilRs.Computation PencilRs.Model

/-- How far apart two elements are whose indices on `axis` differ by one. -/
def rowStride (shape : List ℕ) (axis : ℕ) : ℕ := (shape.drop (axis + 1)).prod

def rowStrides (shape : List ℕ) : List ℕ := (List.range shape.length).map (rowStride shape)

@[simp] theorem rowStride_cons_succ (extent : ℕ) (shape : List ℕ) (axis : ℕ) :
    rowStride (extent :: shape) (axis + 1) = rowStride shape axis := rfl

@[simp] theorem rowStride_cons_zero (extent : ℕ) (shape : List ℕ) :
    rowStride (extent :: shape) 0 = shape.prod := rfl

theorem rowStrides_cons (extent : ℕ) (shape : List ℕ) :
    rowStrides (extent :: shape) = shape.prod :: rowStrides shape := by
  unfold rowStrides
  rw [List.length_cons, List.range_succ_eq_map, List.map_cons, List.map_map]
  rfl

@[simp] theorem length_rowStrides (shape : List ℕ) : (rowStrides shape).length = shape.length := by
  simp [rowStrides]

theorem getElem?_rowStrides {shape : List ℕ} {axis : ℕ} (h : axis < shape.length) :
    (rowStrides shape)[axis]? = some (rowStride shape axis) := by
  simp [rowStrides, h]

theorem getElem?_of_lt {α : Type} (d : α) {l : List α} {i : ℕ} (h : i < l.length) :
    l[i]? = some (l.getD i d) := by
  simp [List.getD_eq_getElem?_getD, h]

/-- Positive extents have positive strides. -/
theorem rowStride_pos {shape : List ℕ} (hpos : ∀ extent ∈ shape, 0 < extent) (axis : ℕ) :
    0 < rowStride shape axis :=
  List.prod_pos fun extent h => hpos extent (List.mem_of_mem_drop h)

/-- The product of the last extents is at most the product of all. -/
theorem prod_drop_le {shape : List ℕ} (hpos : ∀ extent ∈ shape, 0 < extent) (axis : ℕ) :
    (shape.drop axis).prod ≤ shape.prod := by
  have hsplit : (shape.take axis).prod * (shape.drop axis).prod = shape.prod := by
    rw [← List.prod_append, List.take_append_drop]
  rw [← hsplit]
  apply Nat.le_mul_of_pos_left
  exact List.prod_pos fun extent h => hpos extent (List.mem_of_mem_take h)

theorem pos_of_prod_ne_zero {shape : List ℕ} (h : shape.prod ≠ 0) :
    ∀ extent ∈ shape, 0 < extent := by
  intro extent hmem
  refine Nat.pos_of_ne_zero fun hzero => h ?_
  exact List.prod_eq_zero (hzero ▸ hmem)

/-- **A row-major number is a sum of strides.** -/
theorem rowMajorValue_eq_sum {shape indices : List ℕ} (h : indices.length = shape.length) :
    rowMajorValue shape indices
      = ((List.range shape.length).map fun axis =>
          indices.getD axis 0 * rowStride shape axis).sum := by
  induction shape generalizing indices with
  | nil =>
    obtain rfl := List.length_eq_zero_iff.mp h
    rfl
  | cons extent shape ih =>
    cases indices with
    | nil => contradiction
    | cons index indices =>
      have hlen : indices.length = shape.length := by simpa using h
      rw [rowMajorValue_cons hlen, ih hlen, List.length_cons, List.range_succ_eq_map, List.map_cons,
        List.sum_cons, List.map_map]
      rfl

/-- The sum over the first axes stays below the size. -/
theorem sum_strides_le {shape indices : List ℕ} (h : indices.length = shape.length) {n : ℕ}
    (hn : n ≤ shape.length) :
    ((List.range n).map fun axis => indices.getD axis 0 * rowStride shape axis).sum
      ≤ rowMajorValue shape indices := by
  rw [rowMajorValue_eq_sum h]
  obtain ⟨rest, hrest⟩ := Nat.exists_eq_add_of_le hn
  rw [hrest, List.range_add, List.map_append, List.sum_append]
  exact Nat.le_add_right _ _

/-- **Quotient and remainder** by stride and extent give an index back. -/
theorem rowMajorValue_div_mod {shape indices : List ℕ} (h : ValidIndices shape indices) {axis : ℕ}
    (haxis : axis < shape.length) :
    rowMajorValue shape indices / rowStride shape axis % shape.getD axis 0
      = indices.getD axis 0 := by
  induction shape generalizing indices axis with
  | nil => contradiction
  | cons extent shape ih =>
    cases indices with
    | nil => exact absurd h.1 (by simp)
    | cons index indices =>
      obtain ⟨hindex, hvalid⟩ := validIndices_cons.mp h
      have hlt := rowMajorValue_lt hvalid
      rw [rowMajorValue_cons hvalid.1]
      cases axis with
      | zero =>
        rw [rowStride_cons_zero, Nat.mul_comm, Nat.mul_add_div (by omega),
          Nat.div_eq_of_lt hlt, Nat.add_zero]
        exact Nat.mod_eq_of_lt hindex
      | succ axis =>
        have haxis : axis < shape.length := by simpa using haxis
        have hsplit : shape.prod
            = rowStride shape axis * (shape.getD axis 0 * (shape.take axis).prod) := by
          have hget : shape.getD axis 0 = shape[axis] := by
            simp [List.getD_eq_getElem?_getD, haxis]
          conv_lhs => rw [← List.take_append_drop axis shape]
          rw [List.prod_append, List.drop_eq_getElem_cons haxis, List.prod_cons, hget]
          unfold rowStride
          ring
        have hpos : 0 < rowStride shape axis := by
          refine Nat.pos_of_ne_zero fun hzero => ?_
          rw [hsplit, hzero, Nat.zero_mul] at hlt
          exact Nat.not_lt_zero _ hlt
        have hih := ih hvalid haxis
        rw [rowStride_cons_succ, List.getD_cons_succ, List.getD_cons_succ]
        have hquot : (index * shape.prod + rowMajorValue shape indices) / rowStride shape axis
            = rowMajorValue shape indices / rowStride shape axis
              + shape.getD axis 0 * (index * (shape.take axis).prod) := by
          have hprod : index * shape.prod
              = rowStride shape axis * (shape.getD axis 0 * (index * (shape.take axis).prod)) := by
            rw [hsplit]
            ring
          rw [hprod, Nat.mul_add_div hpos, Nat.add_comm]
        rw [hquot, Nat.add_mul_mod_self_left, hih]

end PencilRs.Analysis
