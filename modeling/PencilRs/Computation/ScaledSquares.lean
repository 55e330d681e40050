import Mathlib.Algebra.BigOperators.Group.List.Basic
import Mathlib.Algebra.Order.Field.Basic
import Mathlib.Tactic.FieldSimp
import Mathlib.Tactic.Ring
import PencilRs.Computation.Literals

/-!
# Scaled sums of squares

A sum of squares is kept relative to the greatest magnitude so far, so that no magnitude is
squared on its own.  Magnitudes may come in any order, and sums with scales of their own are
brought to a common scale before they are added.
-/

set_option autoImplicit false

namespace PencilRs.Computation

variable {K : Type} [Field K]

def squareSum (magnitudes : List K) : K := (magnitudes.map fun a => a * a).sum

theorem squareSum_append (first second : List K) :
    squareSum (first ++ second) = squareSum first + squareSum second := by
  rw [squareSum, List.map_append, List.sum_append]
  rfl

theorem squareSum_perm {first second : List K} (h : first.Perm second) :
    squareSum first = squareSum second := (h.map _).sum_eq

variable [LinearOrder K]

/-- The greatest of zero and some magnitudes. -/
def peak (magnitudes : List K) : K := magnitudes.foldr max 0

theorem peak_cons (a : K) (magnitudes : List K) :
    peak (a :: magnitudes) = max a (peak magnitudes) := rfl

theorem peak_nonneg (magnitudes : List K) : 0 ≤ peak magnitudes := by
  induction magnitudes with
  | nil => exact le_rfl
  | cons a magnitudes ih => exact ih.trans (le_max_right a _)

theorem le_peak {magnitudes : List K} {a : K} (h : a ∈ magnitudes) : a ≤ peak magnitudes := by
  induction magnitudes with
  | nil => exact absurd h List.not_mem_nil
  | cons b magnitudes ih =>
    rw [peak_cons]
    obtain rfl | h := List.mem_cons.mp h
    · exact le_max_left _ _
    · exact (ih h).trans (le_max_right _ _)

/-- The peak is zero or one of the magnitudes. -/
theorem peak_mem (magnitudes : List K) :
    peak magnitudes = 0 ∨ peak magnitudes ∈ magnitudes := by
  induction magnitudes with
  | nil => exact .inl rfl
  | cons a magnitudes ih =>
    rw [peak_cons]
    rcases max_choice a (peak magnitudes) with h | h
    · rw [h]
      exact .inr List.mem_cons_self
    · rw [h]
      exact ih.imp_right (List.mem_cons_of_mem a)

theorem peak_le {magnitudes : List K} {bound : K} (hbound : 0 ≤ bound)
    (h : ∀ a ∈ magnitudes, a ≤ bound) : peak magnitudes ≤ bound := by
  rcases peak_mem magnitudes with hzero | hmem
  · rw [hzero]
    exact hbound
  · exact h _ hmem

theorem peak_append (first second : List K) :
    peak (first ++ second) = max (peak first) (peak second) := by
  induction first with
  | nil => exact (max_eq_right (peak_nonneg second)).symm
  | cons a first ih => rw [List.cons_append, peak_cons, ih, peak_cons, max_assoc]

/-- Nothing but zeros has a peak of zero. -/
theorem squareSum_eq_zero {magnitudes : List K} (hnonneg : ∀ a ∈ magnitudes, 0 ≤ a)
    (h : peak magnitudes = 0) : squareSum magnitudes = 0 := by
  refine List.sum_eq_zero fun x hx => ?_
  obtain ⟨a, ha, rfl⟩ := List.mem_map.mp hx
  have hzero : a = 0 := le_antisymm (h ▸ le_peak ha) (hnonneg a ha)
  rw [hzero, mul_zero]

/-! ## States -/

/-- A sum of squares, relative to the square of the scale. -/
structure ScaledSquares (K : Type) where
  scale : K
  ssq : K
deriving DecidableEq

namespace ScaledSquares

/-- The scale is the peak, and scale and sum together are the sum of the squares. -/
structure Holds (state : ScaledSquares K) (magnitudes : List K) : Prop where
  scale : state.scale = peak magnitudes
  squares : state.scale * state.scale * state.ssq = squareSum magnitudes

def empty : ScaledSquares K := ⟨0, 0⟩

theorem holds_empty : (empty : ScaledSquares K).Holds [] := ⟨rfl, mul_zero _⟩

/-- One more magnitude that is not zero. -/
def push (state : ScaledSquares K) (a : K) : ScaledSquares K :=
  if state.scale < a then
    ⟨a, 1 + state.ssq * (state.scale / a) * (state.scale / a)⟩
  else ⟨state.scale, state.ssq + a / state.scale * (a / state.scale)⟩

/-- A state does not see magnitudes that are zero. -/
theorem Holds.skip {state : ScaledSquares K} {magnitudes : List K} (h : state.Holds magnitudes) :
    state.Holds (magnitudes ++ [0]) := by
  constructor
  · rw [peak_append, ← h.scale, peak_cons]
    have hpos : 0 ≤ state.scale := h.scale ▸ peak_nonneg magnitudes
    simp [peak, hpos]
  · rw [squareSum_append, ← h.squares]
    simp [squareSum]

/-- The sum relative to another scale. -/
def rescaled (state : ScaledSquares K) (scale : K) : K :=
  state.ssq * (state.scale / scale) * (state.scale / scale)

/-- **Rescaling** keeps the sum of the squares. -/
theorem Holds.rescaled {state : ScaledSquares K} {magnitudes : List K}
    (h : state.Holds magnitudes) {scale : K} (hscale : scale ≠ 0) :
    scale * scale * state.rescaled scale = squareSum magnitudes := by
  rw [← h.squares]
  unfold ScaledSquares.rescaled
  field_simp

/-- **One push** keeps the invariant, whether the magnitude is a new peak or not. -/
theorem Holds.push {state : ScaledSquares K} {magnitudes : List K} (h : state.Holds magnitudes)
    {a : K} (ha : 0 < a) : (state.push a).Holds (magnitudes ++ [a]) := by
  have hsum : squareSum (magnitudes ++ [a]) = squareSum magnitudes + a * a := by
    rw [squareSum_append]
    simp [squareSum]
  have hpeak : peak (magnitudes ++ [a]) = max (peak magnitudes) a := by
    rw [peak_append, peak_cons]
    exact congrArg _ (max_eq_left ha.le)
  unfold ScaledSquares.push
  by_cases hnew : state.scale < a
  · rw [if_pos hnew]
    constructor
    · rw [hpeak, ← h.scale]
      exact (max_eq_right hnew.le).symm
    · rw [hsum, ← h.squares]
      field_simp
      ring
  · have hle := not_lt.mp hnew
    have hpos : 0 < state.scale := ha.trans_le hle
    rw [if_neg hnew]
    constructor
    · rw [hpeak, ← h.scale]
      exact (max_eq_left hle).symm
    · rw [hsum, ← h.squares]
      field_simp

end ScaledSquares

end PencilRs.Computation
