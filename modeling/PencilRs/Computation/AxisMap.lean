import Mathlib.Tactic
import PencilRs.Computation.Literals

/-!
# Maps along the axes of an array

A function of lines acts on an array of several axes along each of them.  What is applied along
different axes is composed in some order of the axes.
-/

set_option autoImplicit false

namespace PencilRs.Computation

variable {ι K : Type} [DecidableEq ι] [Zero K]

/-- Apply `transform` to every line of length `n` along `axis`. -/
def alongAxis (axis : ι) (n : ℕ) (transform : List K → List K) (array : (ι → ℕ) → K)
    (g : ι → ℕ) : K :=
  (transform (List.ofFn fun k : Fin n => array (Function.update g axis k)))[g axis]?.getD 0

/-- Apply one transform an axis, the last of the list first. -/
def alongAxes (shape : ι → ℕ) (transform : ι → List K → List K) (axes : List ι)
    (array : (ι → ℕ) → K) : (ι → ℕ) → K :=
  axes.foldr (fun axis array => alongAxis axis (shape axis) (transform axis) array) array

@[simp] theorem alongAxes_nil (shape : ι → ℕ) (transform : ι → List K → List K)
    (array : (ι → ℕ) → K) : alongAxes shape transform [] array = array := rfl

theorem alongAxes_cons (shape : ι → ℕ) (transform : ι → List K → List K) (axis : ι)
    (axes : List ι) (array : (ι → ℕ) → K) :
    alongAxes shape transform (axis :: axes) array
      = alongAxis axis (shape axis) (transform axis) (alongAxes shape transform axes array) := rfl

/-- The identity along an axis. -/
theorem alongAxis_id {axis : ι} {n : ℕ} {array : (ι → ℕ) → K} {g : ι → ℕ} (hg : g axis < n) :
    alongAxis axis n id array g = array g := by
  unfold alongAxis
  rw [id_eq, List.getElem?_ofFn, dif_pos hg]
  simp

/-- Two arrays that agree in a box are mapped to arrays that agree there. -/
theorem alongAxis_congr {axis : ι} {shape : ι → ℕ} {transform : List K → List K}
    {array array' : (ι → ℕ) → K} (h : ∀ g, (∀ a, g a < shape a) → array g = array' g)
    {g : ι → ℕ} (hg : ∀ a, g a < shape a) :
    alongAxis axis (shape axis) transform array g
      = alongAxis axis (shape axis) transform array' g := by
  have hline : (fun k : Fin (shape axis) => array (Function.update g axis k))
      = fun k : Fin (shape axis) => array' (Function.update g axis k) := by
    funext k
    apply h
    intro a
    by_cases ha : a = axis
    · subst ha
      rw [Function.update_self]
      exact k.isLt
    · rw [Function.update_of_ne ha]
      exact hg a
  unfold alongAxis
  rw [hline]

/-- Two arrays that agree in a box are mapped to arrays that agree there, axis after axis. -/
theorem alongAxes_congr {shape : ι → ℕ} {transform : ι → List K → List K} (axes : List ι)
    {array array' : (ι → ℕ) → K} (h : ∀ g, (∀ a, g a < shape a) → array g = array' g)
    {g : ι → ℕ} (hg : ∀ a, g a < shape a) :
    alongAxes shape transform axes array g = alongAxes shape transform axes array' g := by
  induction axes generalizing g with
  | nil => exact h g hg
  | cons axis axes ih =>
    rw [alongAxes_cons, alongAxes_cons]
    exact alongAxis_congr (fun g hg => ih hg) hg

/-- Two transforms along one axis are one. -/
theorem alongAxis_alongAxis {axis : ι} {n : ℕ} {transform transform' : List K → List K}
    (hlength : ∀ values, values.length = n → (transform values).length = n)
    (array : (ι → ℕ) → K) (g : ι → ℕ) :
    alongAxis axis n transform' (alongAxis axis n transform array) g
      = alongAxis axis n (transform' ∘ transform) array g := by
  have hline : (List.ofFn fun k : Fin n =>
        alongAxis axis n transform array (Function.update g axis k))
      = transform (List.ofFn fun k : Fin n => array (Function.update g axis k)) := by
    have hlen := hlength (List.ofFn fun k : Fin n => array (Function.update g axis k))
      (List.length_ofFn ..)
    apply List.ext_getElem
    · rw [List.length_ofFn, hlen]
    · intro k hk hk'
      rw [List.getElem_ofFn]
      unfold alongAxis
      simp only [Function.update_idem, Function.update_self]
      rw [List.getElem?_eq_getElem hk', Option.getD_some]
  show (transform' (List.ofFn fun k : Fin n =>
    alongAxis axis n transform array (Function.update g axis k)))[g axis]?.getD 0 = _
  rw [hline]
  rfl

section Scaled

variable {R : Type} [CommSemiring R]

/-- The transform commutes with factors. -/
def Homogeneous (transform : List R → List R) : Prop :=
  ∀ (c : R) (values : List R), transform (values.map (c * ·)) = (transform values).map (c * ·)

theorem homogeneous_id : Homogeneous (id : List R → List R) := fun _ _ => rfl

theorem alongAxis_scaled {axis : ι} {n : ℕ} {transform : List R → List R}
    (h : Homogeneous transform) (c : R) (array : (ι → ℕ) → R) :
    alongAxis axis n transform (fun g => c * array g)
      = fun g => c * alongAxis axis n transform array g := by
  funext g
  unfold alongAxis
  have hline : (List.ofFn fun k : Fin n => c * array (Function.update g axis k))
      = (List.ofFn fun k : Fin n => array (Function.update g axis k)).map (c * ·) := by
    rw [List.map_ofFn]
    rfl
  rw [hline, h, List.getElem?_map]
  cases (transform (List.ofFn fun k : Fin n => array (Function.update g axis k)))[g axis]? with
  | none => simp
  | some value => rfl

theorem alongAxes_scaled {shape : ι → ℕ} {transform : ι → List R → List R}
    (h : ∀ a, Homogeneous (transform a)) (axes : List ι) (c : R) (array : (ι → ℕ) → R) :
    alongAxes shape transform axes (fun g => c * array g)
      = fun g => c * alongAxes shape transform axes array g := by
  induction axes with
  | nil => rfl
  | cons axis axes ih => rw [alongAxes_cons, ih, alongAxis_scaled (h axis), alongAxes_cons]

/-- **Back and forth.**  Transforms that undo each other up to a factor do so in any number of
axes, when they are applied in the opposite order. -/
theorem alongAxes_reverse {shape : ι → ℕ} {transform back : ι → List R → List R} {factor : ι → R}
    (hlength : ∀ a values, values.length = shape a → (transform a values).length = shape a)
    (hback : ∀ a values, values.length = shape a →
      back a (transform a values) = values.map (factor a * ·))
    (hhomogeneous : ∀ a, Homogeneous (back a)) (axes : List ι) (array : (ι → ℕ) → R)
    {g : ι → ℕ} (hg : ∀ a, g a < shape a) :
    alongAxes shape back axes.reverse (alongAxes shape transform axes array) g
      = (axes.map factor).prod * array g := by
  induction axes generalizing g with
  | nil => simp
  | cons axis axes ih =>
    have hone : ∀ g, (∀ a, g a < shape a) →
        alongAxis axis (shape axis) (back axis)
          (alongAxis axis (shape axis) (transform axis) (alongAxes shape transform axes array)) g
        = factor axis * alongAxes shape transform axes array g := by
      intro g hg
      rw [alongAxis_alongAxis (hlength axis)]
      unfold alongAxis
      rw [Function.comp_apply, hback axis _ (List.length_ofFn ..), List.getElem?_map,
        List.getElem?_ofFn, dif_pos (hg axis)]
      simp
    calc alongAxes shape back (axis :: axes).reverse
          (alongAxes shape transform (axis :: axes) array) g
        = alongAxes shape back axes.reverse (alongAxis axis (shape axis) (back axis)
            (alongAxes shape transform (axis :: axes) array)) g := by
          unfold alongAxes
          rw [List.reverse_cons, List.foldr_append]
          rfl
      _ = alongAxes shape back axes.reverse
            (fun g => factor axis * alongAxes shape transform axes array g) g :=
          alongAxes_congr axes.reverse hone hg
      _ = factor axis * ((axes.map factor).prod * array g) := by
          rw [alongAxes_scaled hhomogeneous, ← ih hg]
      _ = ((axis :: axes).map factor).prod * array g := by
          rw [List.map_cons, List.prod_cons, mul_assoc]

end Scaled

end PencilRs.Computation
