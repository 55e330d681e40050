import Mathlib.Tactic
import PencilRs.Computation.Literals

/-!
# Lines summed against a kernel

A linear transform of a line sums its values against the entries of a kernel.  Two such
transforms after each other undo each other, up to a factor, where their kernels are orthogonal.
-/

set_option autoImplicit false

namespace PencilRs.Computation

variable {R : Type} [CommRing R]

/-- The sums of a line against a kernel. -/
def kernelLine (kernel : ℕ → ℕ → R) (values : List R) : List R :=
  (List.range values.length).map fun k =>
    ∑ j ∈ Finset.range values.length, values.getD j 0 * kernel j k

@[simp] theorem length_kernelLine (kernel : ℕ → ℕ → R) (values : List R) :
    (kernelLine kernel values).length = values.length := by
  unfold kernelLine
  rw [List.length_map, List.length_range]

theorem getElem?_kernelLine {kernel : ℕ → ℕ → R} {values : List R} {k : ℕ}
    (hk : k < values.length) : (kernelLine kernel values)[k]?
      = some (∑ j ∈ Finset.range values.length, values.getD j 0 * kernel j k) := by
  unfold kernelLine
  rw [List.getElem?_map, List.getElem?_range hk]
  rfl

/-- **Orthogonal kernels** undo each other up to a factor. -/
theorem kernelLine_kernelLine {kernel kernel' : ℕ → ℕ → R} {factor : R} {values : List R}
    (h : ∀ j < values.length, ∀ l < values.length,
      ∑ k ∈ Finset.range values.length, kernel j k * kernel' k l = if j = l then factor else 0) :
    kernelLine kernel' (kernelLine kernel values) = values.map (factor * ·) := by
  apply List.ext_getElem?
  intro l
  by_cases hl : l < values.length
  · rw [getElem?_kernelLine (by rwa [length_kernelLine]), List.getElem?_map,
      List.getElem?_eq_getElem hl, Option.map_some, length_kernelLine]
    congr 1
    have hinner : ∀ k ∈ Finset.range values.length,
        (kernelLine kernel values).getD k 0 * kernel' k l
          = ∑ j ∈ Finset.range values.length, values.getD j 0 * (kernel j k * kernel' k l) := by
      intro k hk
      rw [List.getD_eq_getElem?_getD, getElem?_kernelLine (Finset.mem_range.mp hk),
        Option.getD_some, Finset.sum_mul]
      exact Finset.sum_congr rfl fun j _ => mul_assoc ..
    rw [Finset.sum_congr rfl hinner, Finset.sum_comm]
    simp only [← Finset.mul_sum]
    rw [Finset.sum_congr rfl fun j hj => by rw [h j (Finset.mem_range.mp hj) l hl]]
    simp only [mul_ite, mul_zero, Finset.sum_ite_eq', Finset.mem_range, hl, if_true]
    rw [List.getD_eq_getElem?_getD, List.getElem?_eq_getElem hl, Option.getD_some, mul_comm]
  · rw [List.getElem?_eq_none (by simpa using hl), List.getElem?_eq_none (by simpa using hl)]

end PencilRs.Computation
