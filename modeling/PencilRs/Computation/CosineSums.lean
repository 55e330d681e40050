import Mathlib.Analysis.SpecialFunctions.Trigonometric.Complex
import PencilRs.Computation.Literals

/-!
# Sums of cosines over equidistant angles

The sums over half a period and over its odd quarters, for every integer frequency, and the sums
over a whole period.
-/

set_option autoImplicit false

namespace PencilRs.Computation

open Real

/-- The half angle of a frequency that is no multiple of the period. -/
theorem sin_half_ne_zero {n : ℕ} (hn : 0 < n) {m : ℤ} (h : ¬(2 * n : ℤ) ∣ m) :
    sin (π * m / n / 2) ≠ 0 := by
  intro hzero
  obtain ⟨q, hq⟩ := sin_eq_zero_iff.mp hzero
  apply h
  refine ⟨q, ?_⟩
  have hn' : (n : ℝ) ≠ 0 := Nat.cast_ne_zero.mpr hn.ne'
  have hreal : (m : ℝ) = 2 * n * q := by
    have hpi := pi_ne_zero
    field_simp at hq
    linarith
  exact_mod_cast hreal

theorem cos_int_mul_pi_of_even {m : ℤ} (h : 2 ∣ m) : cos (π * m) = 1 := by
  obtain ⟨q, rfl⟩ := h
  have hangle : π * ((2 * q : ℤ) : ℝ) = q * (2 * π) := by
    push_cast
    ring
  rw [hangle, cos_int_mul_two_pi]

/-- **Half a period.** -/
theorem sum_cos_half {n : ℕ} (hn : 0 < n) (m : ℤ) :
    ∑ k ∈ Finset.range n, 2 * cos (π * m / n * k)
      = (if (2 * n : ℤ) ∣ m then (2 * n : ℝ) else 0) + 1 - cos (π * m) := by
  have hn' : (n : ℝ) ≠ 0 := Nat.cast_ne_zero.mpr hn.ne'
  by_cases h : (2 * n : ℤ) ∣ m
  · rw [if_pos h, cos_int_mul_pi_of_even ((Dvd.intro _ rfl).trans h)]
    obtain ⟨q, rfl⟩ := h
    have hterm : ∀ k ∈ Finset.range n, 2 * cos (π * ((2 * n * q : ℤ) : ℝ) / n * k) = 2 := by
      intro k _
      have hangle : π * ((2 * n * q : ℤ) : ℝ) / n * k = ((q * k : ℤ) : ℝ) * (2 * π) := by
        push_cast
        field_simp
      rw [hangle, cos_int_mul_two_pi, mul_one]
    rw [Finset.sum_congr rfl hterm, Finset.sum_const, Finset.card_range, nsmul_eq_mul]
    ring
  · rw [if_neg h, zero_add]
    apply mul_left_cancel₀ (sin_half_ne_zero hn h)
    have hsum := sin_mul_sum_cos n (π * m / n) 0
    simp only [add_zero] at hsum
    rw [← Finset.mul_sum, mul_left_comm, hsum, ← mul_assoc, two_mul_sin_mul_cos]
    have hdiff : n * (π * m / n) / 2 - (n - 1) * (π * m / n) / 2 = π * m / n / 2 := by ring
    have htotal : n * (π * m / n) / 2 + (n - 1) * (π * m / n) / 2 = m * π - π * m / n / 2 := by
      field_simp
      ring
    rw [hdiff, htotal, sin_sub, sin_int_mul_pi, mul_comm (m : ℝ) π]
    ring

/-- **The odd quarters** of a half period. -/
theorem sum_cos_odd {n : ℕ} (hn : 0 < n) (m : ℤ) :
    ∑ k ∈ Finset.range n, 2 * cos (π * m / (2 * n) * (2 * k + 1))
      = if (2 * n : ℤ) ∣ m then 2 * n * cos (π * m / (2 * n)) else 0 := by
  have hn' : (n : ℝ) ≠ 0 := Nat.cast_ne_zero.mpr hn.ne'
  split
  · rename_i h
    obtain ⟨q, rfl⟩ := h
    have hterm : ∀ k ∈ Finset.range n, 2 * cos (π * ((2 * n * q : ℤ) : ℝ) / (2 * n) * (2 * k + 1))
        = 2 * cos (π * ((2 * n * q : ℤ) : ℝ) / (2 * n)) := by
      intro k _
      have hangle : π * ((2 * n * q : ℤ) : ℝ) / (2 * n) * (2 * k + 1)
          = π * ((2 * n * q : ℤ) : ℝ) / (2 * n) + ((q * k : ℤ) : ℝ) * (2 * π) := by
        push_cast
        field_simp
        ring
      rw [hangle, cos_add_int_mul_two_pi]
    rw [Finset.sum_congr rfl hterm, Finset.sum_const, Finset.card_range, nsmul_eq_mul]
    ring
  · rename_i h
    apply mul_left_cancel₀ (sin_half_ne_zero hn h)
    have hsum := sin_mul_sum_cos n (π * m / n) (π * m / (2 * n))
    have hterm : ∀ k ∈ Finset.range n, cos (π * m / (2 * n) * (2 * k + 1))
        = cos (π * m / n * k + π * m / (2 * n)) := by
      intro k _
      congr 1
      field_simp
    have hhalf : (n : ℝ) * (π * m / n) / 2 = m * π / 2 := by field_simp
    have hcentre : (n - 1) * (π * m / n) / 2 + π * m / (2 * n) = m * π / 2 := by
      field_simp
      ring
    have hdouble : 2 * sin (m * π / 2) * cos (m * π / 2) = sin (m * π) := by
      rw [← sin_two_mul]
      congr 1
      ring
    rw [← Finset.mul_sum, Finset.sum_congr rfl hterm, mul_left_comm, hsum, hhalf, hcentre,
      ← mul_assoc, hdouble, sin_int_mul_pi, mul_zero]

/-! ## Whole periods -/

theorem sum_cos_period {n : ℕ} (hn : 0 < n) (m : ℤ) :
    ∑ k ∈ Finset.range n, cos (2 * π * m / n * k) = if (n : ℤ) ∣ m then (n : ℝ) else 0 := by
  have hn' : (n : ℝ) ≠ 0 := Nat.cast_ne_zero.mpr hn.ne'
  have hsum := sum_cos_half hn (2 * m)
  have hdvd : (2 * n : ℤ) ∣ 2 * m ↔ (n : ℤ) ∣ m := mul_dvd_mul_iff_left two_ne_zero
  rw [cos_int_mul_pi_of_even (Dvd.intro _ rfl), add_sub_cancel_right, if_congr hdvd rfl rfl,
    ← Finset.mul_sum] at hsum
  have hterm : ∀ k ∈ Finset.range n,
      cos (2 * π * m / n * k) = cos (π * ((2 * m : ℤ) : ℝ) / n * k) := by
    intro k _
    push_cast
    congr 1
    ring
  rw [Finset.sum_congr rfl hterm]
  split
  · rename_i h
    rw [if_pos h] at hsum
    linarith
  · rename_i h
    rw [if_neg h] at hsum
    linarith

theorem sum_sin_period {n : ℕ} (hn : 0 < n) (m : ℤ) :
    ∑ k ∈ Finset.range n, sin (2 * π * m / n * k) = 0 := by
  have hn' : (n : ℝ) ≠ 0 := Nat.cast_ne_zero.mpr hn.ne'
  by_cases h : (n : ℤ) ∣ m
  · obtain ⟨q, rfl⟩ := h
    apply Finset.sum_eq_zero
    intro k _
    have hangle : 2 * π * ((n * q : ℤ) : ℝ) / n * k = ((2 * q * k : ℤ) : ℝ) * π := by
      push_cast
      field_simp
    rw [hangle, sin_int_mul_pi]
  · have hne : ¬(2 * n : ℤ) ∣ 2 * m := by rwa [mul_dvd_mul_iff_left two_ne_zero]
    have hsum := sin_mul_sum_sin n (2 * π * m / n) 0
    have hhalf : (n : ℝ) * (2 * π * m / n) / 2 = m * π := by field_simp
    have hangle : 2 * π * m / n / 2 = π * ((2 * m : ℤ) : ℝ) / n / 2 := by
      push_cast
      ring
    simp only [add_zero] at hsum
    rw [hhalf, sin_int_mul_pi, zero_mul, hangle] at hsum
    exact (mul_eq_zero.mp hsum).resolve_left (sin_half_ne_zero hn hne)

end PencilRs.Computation
