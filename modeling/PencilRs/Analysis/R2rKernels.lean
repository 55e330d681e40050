import PencilRs.Computation.CosineSums
import PencilRs.Computation.KernelLines
import PencilRs.Model.R2r

/-!
# The cosine and sine transforms

The coefficients of the eight transforms as they are defined, and their form over the embedding: a
weight, which is one for a value that has no mirror image and two for the others, and the cosine or
sine of an angle.  A transform and its backward kind are orthogonal up to the normalization factor.
-/

set_option autoImplicit false

namespace PencilRs.Analysis

open PencilRs.Computation PencilRs.Model R2r Real

/-! ## Lengths -/

def embeddingLength (kind : R2rKind) (n : ℕ) : ℕ :=
  match kind with
  | .dctI => 2 * (n - 1)
  | .dstI => 2 * (n + 1)
  | .dctII | .dctIII | .dstII | .dstIII => 4 * n
  | .dctIV | .dstIV => 8 * n

def transformFactor (kind : R2rKind) (n : ℕ) : ℕ :=
  match kind with
  | .dctI => 2 * (n - 1)
  | .dstI => 2 * (n + 1)
  | _ => 2 * n

/-- The lengths that a kind accepts. -/
def ValidLength (kind : R2rKind) (n : ℕ) : Prop := 0 < n ∧ (kind = .dctI → 2 ≤ n)

theorem embeddingLength_pos {kind : R2rKind} {n : ℕ} (h : ValidLength kind n) :
    0 < embeddingLength kind n := by
  obtain ⟨hpos, hdctI⟩ := h
  cases kind <;> simp only [embeddingLength] <;> first | omega | (specialize hdctI rfl; omega)

theorem transformFactor_pos {kind : R2rKind} {n : ℕ} (h : ValidLength kind n) :
    0 < transformFactor kind n := by
  obtain ⟨hpos, hdctI⟩ := h
  cases kind <;> simp only [transformFactor] <;> first | omega | (specialize hdctI rfl; omega)

theorem embeddingLength_backwardKind (kind : R2rKind) (n : ℕ) :
    embeddingLength kind.backwardKind n = embeddingLength kind n := by
  cases kind <;> rfl

theorem backwardKind_backwardKind (kind : R2rKind) : kind.backwardKind.backwardKind = kind := by
  cases kind <;> rfl

theorem isDst_backwardKind (kind : R2rKind) : kind.backwardKind.isDst = kind.isDst := by
  cases kind <;> rfl

theorem ValidLength.backwardKind {kind : R2rKind} {n : ℕ} (h : ValidLength kind n) :
    ValidLength kind.backwardKind n := by
  refine ⟨h.1, fun hkind => h.2 ?_⟩
  rw [← backwardKind_backwardKind kind, hkind]
  rfl

/-! ## Coefficients -/

/-- The coefficient of value `j` in output `k` of a line of `n` values.

SOURCE: r2r.rs:1034-1082 -/
noncomputable def fftwCoefficient (kind : R2rKind) (n j k : ℕ) : ℝ :=
  match kind with
  | .dctI =>
    if j = 0 ∨ j = n - 1 then (if j = n - 1 ∧ k % 2 = 1 then -1 else 1)
    else 2 * cos (π * j * k / (n - 1 : ℕ))
  | .dctII => 2 * cos (π * (j + 0.5) * k / n)
  | .dctIII => if j = 0 then 1 else 2 * cos (π * j * (k + 0.5) / n)
  | .dctIV => 2 * cos (π * (j + 0.5) * (k + 0.5) / n)
  | .dstI => 2 * sin (π * (j + 1) * (k + 1) / (n + 1))
  | .dstII => 2 * sin (π * (j + 0.5) * (k + 1) / n)
  | .dstIII =>
    if j = n - 1 then (if k % 2 = 0 then 1 else -1) else 2 * sin (π * (j + 1) * (k + 0.5) / n)
  | .dstIV => 2 * sin (π * (j + 0.5) * (k + 0.5) / n)

/-- The values that have no mirror image. -/
def Unpaired (kind : R2rKind) (n j : ℕ) : Prop :=
  match kind with
  | .dctI => j = 0 ∨ j = n - 1
  | .dctIII => j = 0
  | .dstIII => j = n - 1
  | _ => False

instance (kind : R2rKind) (n j : ℕ) : Decidable (Unpaired kind n j) := by
  unfold Unpaired
  cases kind <;> infer_instance

/-- Where the value goes in the embedding. -/
abbrev position (kind : R2rKind) (j : ℕ) : ℕ := outputBin kind.backwardKind j

noncomputable def weight (kind : R2rKind) (n j : ℕ) : ℝ := if Unpaired kind n j then 1 else 2

/-- The angle between a position and a bin. -/
noncomputable def angle (L p b : ℕ) : ℝ := 2 * π * p * b / L

/-- The part of a unit vector that a kind takes. -/
noncomputable def part (kind : R2rKind) (θ : ℝ) : ℝ := if kind.isDst then sin θ else cos θ

theorem neg_one_pow_eq (k : ℕ) : (-1 : ℝ) ^ k = if k % 2 = 0 then 1 else -1 := by
  split
  · rename_i h
    exact (Nat.even_iff.mpr h).neg_one_pow
  · rename_i h
    exact (Nat.odd_iff.mpr (by omega)).neg_one_pow

/-- The last value of a kind that ends with a value without a mirror image. -/
theorem angle_dctI_last {n : ℕ} (hn : 2 ≤ n) (k : ℕ) :
    angle (embeddingLength .dctI n) (position .dctI (n - 1)) (outputBin .dctI k) = k * π := by
  have hlast : ((n - 1 : ℕ) : ℝ) ≠ 0 := Nat.cast_ne_zero.mpr (by omega)
  unfold angle position outputBin embeddingLength R2rKind.backwardKind
  push_cast
  field_simp

theorem angle_dstIII_last {n : ℕ} (hn : 0 < n) (k : ℕ) :
    angle (embeddingLength .dstIII n) (position .dstIII (n - 1)) (outputBin .dstIII k)
      = π / 2 + k * π := by
  have hn' : (n : ℝ) ≠ 0 := Nat.cast_ne_zero.mpr hn.ne'
  have hlast : ((n - 1 : ℕ) : ℝ) + 1 = n := by exact_mod_cast Nat.sub_add_cancel hn
  unfold angle position outputBin embeddingLength R2rKind.backwardKind
  push_cast
  rw [hlast]
  field_simp
  ring

theorem fftwCoefficient_eq {kind : R2rKind} {n : ℕ} (h : ValidLength kind n) (j k : ℕ) :
    fftwCoefficient kind n j k = weight kind n j
      * part kind (angle (embeddingLength kind n) (position kind j) (outputBin kind k)) := by
  obtain ⟨hpos, hdctI⟩ := h
  have hn : (n : ℝ) ≠ 0 := Nat.cast_ne_zero.mpr hpos.ne'
  have hn' : (n : ℝ) + 1 ≠ 0 := by positivity
  cases kind with
  | dctI =>
    have htwo := hdctI rfl
    have hlast : ((n - 1 : ℕ) : ℝ) ≠ 0 := Nat.cast_ne_zero.mpr (by omega)
    by_cases hfirst : j = 0
    · have hne : ¬(j = n - 1 ∧ k % 2 = 1) := by omega
      simp [fftwCoefficient, weight, Unpaired, part, R2rKind.isDst, angle, position, outputBin,
        R2rKind.backwardKind, hfirst]
      omega
    by_cases hend : j = n - 1
    · have hweight : weight .dctI n j = 1 := if_pos (Or.inr hend)
      rw [hweight, one_mul, hend, angle_dctI_last htwo]
      simp only [fftwCoefficient, part, R2rKind.isDst, cos_nat_mul_pi, neg_one_pow_eq, hend,
        or_true, true_and, if_true, Bool.false_eq_true, if_false]
      split <;> split <;> first | rfl | omega
    · have hpaired : ¬Unpaired .dctI n j := not_or.mpr ⟨hfirst, hend⟩
      simp only [fftwCoefficient, weight, part, R2rKind.isDst, hpaired, hfirst, hend, or_self,
        if_false, Bool.false_eq_true]
      congr 2
      unfold angle position outputBin embeddingLength R2rKind.backwardKind
      push_cast
      field_simp
  | dctIII =>
    by_cases hfirst : j = 0
    · simp [fftwCoefficient, weight, Unpaired, part, R2rKind.isDst, angle, position, outputBin,
        R2rKind.backwardKind, hfirst]
    · simp only [fftwCoefficient, weight, Unpaired, part, R2rKind.isDst, hfirst, if_false,
        Bool.false_eq_true]
      congr 2
      unfold angle position outputBin embeddingLength R2rKind.backwardKind
      push_cast
      field_simp
      ring
  | dstIII =>
    by_cases hend : j = n - 1
    · have hweight : weight .dstIII n j = 1 := if_pos hend
      rw [hweight, one_mul, hend, angle_dstIII_last hpos]
      simp only [fftwCoefficient, part, R2rKind.isDst, sin_add_nat_mul_pi, sin_pi_div_two,
        neg_one_pow_eq, hend, if_true, mul_one]
    · simp only [fftwCoefficient, weight, Unpaired, part, R2rKind.isDst, hend, if_false, if_true]
      congr 2
      unfold angle position outputBin embeddingLength R2rKind.backwardKind
      push_cast
      field_simp
      ring
  | dctII | dctIV | dstI | dstII | dstIV =>
    simp only [fftwCoefficient, weight, Unpaired, part, R2rKind.isDst, if_false, if_true,
      Bool.false_eq_true]
    congr 2
    unfold angle position outputBin embeddingLength R2rKind.backwardKind
    push_cast
    field_simp
    try ring

/-- A value without a mirror image has nothing in the other part. -/
theorem other_part_unpaired {kind : R2rKind} {n j : ℕ} (h : ValidLength kind n)
    (hunpaired : Unpaired kind n j) (k : ℕ) :
    (if kind.isDst then cos (angle (embeddingLength kind n) (position kind j) (outputBin kind k))
      else sin (angle (embeddingLength kind n) (position kind j) (outputBin kind k))) = 0 := by
  obtain ⟨hpos, hdctI⟩ := h
  have hn : (n : ℝ) ≠ 0 := Nat.cast_ne_zero.mpr hpos.ne'
  cases kind with
  | dctI =>
    show sin _ = 0
    cases hunpaired with
    | inl hfirst =>
      unfold angle position outputBin R2rKind.backwardKind
      simp [hfirst]
    | inr hlast =>
      rw [hlast, angle_dctI_last (hdctI rfl), sin_nat_mul_pi]
  | dctIII =>
    show sin _ = 0
    unfold angle position outputBin R2rKind.backwardKind
    rw [show j = 0 from hunpaired]
    simp
  | dstIII =>
    show cos _ = 0
    rw [show j = n - 1 from hunpaired, angle_dstIII_last hpos, cos_add_nat_mul_pi,
      cos_pi_div_two, mul_zero]
  | dctII | dctIV | dstI | dstII | dstIV => exact absurd hunpaired id

/-! ## Orthogonality -/

/-- The cosines of a frequency at the bins of a kind, with the weights of the way back. -/
noncomputable def binSum (kind : R2rKind) (n : ℕ) (m : ℤ) : ℝ :=
  ∑ k ∈ Finset.range n, weight kind.backwardKind n k
    * cos (2 * π * m * outputBin kind k / embeddingLength kind n)

theorem part_mul_part (kind : R2rKind) (θ θ' : ℝ) : part kind θ * part kind θ'
    = (cos (θ - θ') + (if kind.isDst then -1 else 1) * cos (θ + θ')) / 2 := by
  unfold part
  split
  · have h := two_mul_sin_mul_sin θ θ'
    linarith
  · have h := two_mul_cos_mul_cos θ θ'
    linarith

/-- **There and back** is a sum of two frequencies. -/
theorem sum_fftwCoefficient {kind : R2rKind} {n : ℕ} (h : ValidLength kind n) (j l : ℕ) :
    ∑ k ∈ Finset.range n, fftwCoefficient kind n j k * fftwCoefficient kind.backwardKind n k l
      = weight kind n j / 2 * (binSum kind n (position kind j - position kind l)
        + (if kind.isDst then -1 else 1) * binSum kind n (position kind j + position kind l)) := by
  have hterm : ∀ k ∈ Finset.range n,
      fftwCoefficient kind n j k * fftwCoefficient kind.backwardKind n k l
        = weight kind n j / 2 * (weight kind.backwardKind n k
            * cos (2 * π * ((position kind j - position kind l : ℤ) : ℝ) * outputBin kind k
              / embeddingLength kind n)
          + (if kind.isDst then -1 else 1) * (weight kind.backwardKind n k
            * cos (2 * π * ((position kind j + position kind l : ℤ) : ℝ) * outputBin kind k
              / embeddingLength kind n))) := by
    intro k _
    have hback : part kind.backwardKind = part kind := by
      funext θ
      unfold part
      rw [isDst_backwardKind]
    have hposition : position kind.backwardKind k = outputBin kind k := by
      unfold position
      rw [backwardKind_backwardKind]
    have hdiff : angle (embeddingLength kind n) (position kind j) (outputBin kind k)
          - angle (embeddingLength kind n) (outputBin kind k) (position kind l)
        = 2 * π * ((position kind j - position kind l : ℤ) : ℝ) * outputBin kind k
          / embeddingLength kind n := by
      unfold angle
      push_cast
      ring
    have htotal : angle (embeddingLength kind n) (position kind j) (outputBin kind k)
          + angle (embeddingLength kind n) (outputBin kind k) (position kind l)
        = 2 * π * ((position kind j + position kind l : ℤ) : ℝ) * outputBin kind k
          / embeddingLength kind n := by
      unfold angle
      push_cast
      ring
    rw [fftwCoefficient_eq h, fftwCoefficient_eq h.backwardKind, hback,
      embeddingLength_backwardKind, hposition, mul_mul_mul_comm, part_mul_part, hdiff, htotal]
    ring
  rw [Finset.sum_congr rfl hterm, ← Finset.mul_sum, Finset.sum_add_distrib, ← Finset.mul_sum]
  rfl

theorem weight_eq (kind : R2rKind) (n j : ℕ) :
    weight kind n j = 2 - if Unpaired kind n j then 1 else 0 := by
  unfold weight
  split <;> norm_num

/-- The first value has weight one. -/
theorem sum_weight_first {n : ℕ} (hn : 0 < n) (m : ℤ) {c : ℕ → ℝ}
    (hc : ∀ k < n, c k = (2 - if k = 0 then 1 else 0) * cos (π * m / n * k)) :
    ∑ k ∈ Finset.range n, c k
      = (if (2 * n : ℤ) ∣ m then (2 * n : ℝ) else 0) - cos (π * m) := by
  have hterm : ∀ k ∈ Finset.range n,
      c k = 2 * cos (π * m / n * k) - if k = 0 then 1 else 0 := by
    intro k hk
    rw [hc k (Finset.mem_range.mp hk)]
    by_cases hzero : k = 0
    · subst hzero
      simp
    · simp [hzero]
  rw [Finset.sum_congr rfl hterm, Finset.sum_sub_distrib, sum_cos_half hn, Finset.sum_ite_eq',
    if_pos (Finset.mem_range.mpr hn)]
  ring

theorem binSum_dctI {n : ℕ} (hn : 0 < n) (m : ℤ) :
    binSum .dctI (n + 1) m = if (2 * n : ℤ) ∣ m then (2 * n : ℝ) else 0 := by
  have hn' : (n : ℝ) ≠ 0 := Nat.cast_ne_zero.mpr hn.ne'
  have hangle : ∀ k : ℕ, 2 * π * m * (outputBin .dctI k : ℕ) / (embeddingLength .dctI (n + 1) : ℕ)
      = π * m / n * k := by
    intro k
    unfold outputBin embeddingLength
    push_cast
    field_simp
  unfold binSum
  rw [Finset.sum_range_succ, sum_weight_first hn m, hangle, R2rKind.backwardKind, weight_eq,
    if_pos (show Unpaired .dctI (n + 1) n from Or.inr rfl)]
  · have hlast : π * m / n * n = π * m := by field_simp
    rw [hlast]
    ring
  · intro k hk
    have hunpaired : Unpaired .dctI (n + 1) k ↔ k = 0 := by
      show k = 0 ∨ k = n + 1 - 1 ↔ k = 0
      omega
    rw [hangle, R2rKind.backwardKind, weight_eq, if_congr hunpaired rfl rfl]

theorem binSum_dctII {n : ℕ} (hn : 0 < n) (m : ℤ) : binSum .dctII n (2 * m)
    = (if (2 * n : ℤ) ∣ m then (2 * n : ℝ) else 0) - cos (π * m) := by
  apply sum_weight_first hn m
  intro k _
  rw [weight_eq]
  unfold outputBin embeddingLength
  push_cast
  congr 2
  field_simp
  ring

theorem binSum_dstI {n : ℕ} (m : ℤ) : binSum .dstI n m
    = (if (2 * (n + 1) : ℤ) ∣ m then (2 * (n + 1) : ℝ) else 0) - 1 - cos (π * m) := by
  have hn' : (n : ℝ) + 1 ≠ 0 := by positivity
  have hsum := sum_cos_half (Nat.succ_pos n) m
  rw [Finset.sum_range_succ'] at hsum
  push_cast at hsum
  have hterm : ∀ k ∈ Finset.range n, weight (R2rKind.backwardKind .dstI) n k
      * cos (2 * π * m * (outputBin .dstI k : ℕ) / (embeddingLength .dstI n : ℕ))
        = 2 * cos (π * m / (n + 1) * (k + 1)) := by
    intro k _
    unfold outputBin embeddingLength
    push_cast
    congr 2
    field_simp
  unfold binSum
  rw [Finset.sum_congr rfl hterm]
  simp only [mul_zero, cos_zero, mul_one] at hsum
  linarith

theorem binSum_dstII {n : ℕ} (hn : 0 < n) (m : ℤ) :
    binSum .dstII n (2 * m) = (if (2 * n : ℤ) ∣ m then (2 * n : ℝ) else 0) - 1 := by
  have hn' : (n : ℝ) ≠ 0 := Nat.cast_ne_zero.mpr hn.ne'
  have hsum := sum_cos_half hn m
  have hshift := Finset.sum_range_succ' (fun k => 2 * cos (π * m / n * (k : ℕ))) n
  rw [Finset.sum_range_succ] at hshift
  have hlast : π * m / n * n = π * m := by field_simp
  have hterm : ∀ k ∈ Finset.range n, weight (R2rKind.backwardKind .dstII) n k
      * cos (2 * π * ((2 * m : ℤ) : ℝ) * (outputBin .dstII k : ℕ) / (embeddingLength .dstII n : ℕ))
        = 2 * cos (π * m / n * ((k + 1 : ℕ) : ℝ)) - if k = n - 1 then cos (π * m) else 0 := by
    intro k _
    have hangle : 2 * π * ((2 * m : ℤ) : ℝ) * (outputBin .dstII k : ℕ)
        / (embeddingLength .dstII n : ℕ) = π * m / n * ((k + 1 : ℕ) : ℝ) := by
      unfold outputBin embeddingLength
      push_cast
      field_simp
      ring
    rw [hangle, R2rKind.backwardKind, weight_eq]
    by_cases hend : k = n - 1
    · have hk : k + 1 = n := by omega
      rw [if_pos (show Unpaired .dstIII n k from hend), if_pos hend, hk, hlast]
      ring
    · rw [if_neg (show ¬Unpaired .dstIII n k from hend), if_neg hend]
      ring
  unfold binSum
  rw [Finset.sum_congr rfl hterm, Finset.sum_sub_distrib, Finset.sum_ite_eq',
    if_pos (Finset.mem_range.mpr (by omega))]
  simp only [Nat.cast_zero, mul_zero, cos_zero, mul_one, hlast] at hshift
  linarith

/-- The kinds whose bins are odd and whose way back weighs all values alike. -/
theorem sum_odd_bins {n : ℕ} (hn : 0 < n) (m : ℤ) {c : ℕ → ℝ}
    (hc : ∀ k < n, c k = 2 * cos (π * m / (2 * n) * (2 * k + 1))) :
    ∑ k ∈ Finset.range n, c k
      = if (2 * n : ℤ) ∣ m then 2 * n * cos (π * m / (2 * n)) else 0 := by
  rw [← sum_cos_odd hn]
  exact Finset.sum_congr rfl fun k hk => hc k (Finset.mem_range.mp hk)

theorem binSum_typeIII {kind : R2rKind} (hkind : kind = .dctIII ∨ kind = .dstIII) {n : ℕ}
    (hn : 0 < n) (m : ℤ) :
    binSum kind n m = if (2 * n : ℤ) ∣ m then 2 * n * cos (π * m / (2 * n)) else 0 := by
  have hn' : (n : ℝ) ≠ 0 := Nat.cast_ne_zero.mpr hn.ne'
  apply sum_odd_bins hn m
  intro k _
  cases hkind with
  | inl h | inr h =>
    subst h
    unfold outputBin embeddingLength
    push_cast
    congr 2
    field_simp
    ring

theorem binSum_typeIV {kind : R2rKind} (hkind : kind = .dctIV ∨ kind = .dstIV) {n : ℕ}
    (hn : 0 < n) (m : ℤ) :
    binSum kind n (2 * m) = if (2 * n : ℤ) ∣ m then 2 * n * cos (π * m / (2 * n)) else 0 := by
  have hn' : (n : ℝ) ≠ 0 := Nat.cast_ne_zero.mpr hn.ne'
  apply sum_odd_bins hn m
  intro k _
  cases hkind with
  | inl h | inr h =>
    subst h
    unfold outputBin embeddingLength
    push_cast
    congr 2
    field_simp
    ring

theorem dvd_sub_iff {n j l : ℕ} (hj : j < n) (hl : l < n) :
    (n : ℤ) ∣ (j : ℤ) - l ↔ j = l := by
  constructor
  · intro h
    have hzero := Int.eq_zero_of_abs_lt_dvd h (by rw [abs_lt]; omega)
    omega
  · intro h
    rw [h, sub_self]
    exact dvd_zero _

theorem not_dvd_of_lt {n s : ℕ} (hpos : 0 < s) (hs : s < n) : ¬(n : ℤ) ∣ (s : ℤ) := by
  rw [Int.natCast_dvd_natCast]
  exact Nat.not_dvd_of_pos_of_lt hpos hs

theorem cos_pi_congr {m m' : ℤ} (h : 2 ∣ m - m') : cos (π * m) = cos (π * m') := by
  obtain ⟨q, hq⟩ := h
  have hm : m = m' + 2 * q := by omega
  have hangle : π * (m : ℝ) = π * m' + q * (2 * π) := by
    rw [hm]
    push_cast
    ring
  rw [hangle, cos_add_int_mul_two_pi]

theorem cos_pi_succ (m : ℤ) : cos (π * ((m + 1 : ℤ) : ℝ)) = -cos (π * m) := by
  push_cast
  rw [mul_add, mul_one, cos_add_pi]

section Frequencies

variable {n j l : ℕ}

/-- The difference of two places is a period where they are the same. -/
theorem ite_period_sub (hj : j < n) (hl : l < n) (x : ℝ) :
    (if (2 * n : ℤ) ∣ (j : ℤ) - l then x else 0) = if j = l then x else 0 := by
  have hdvd := dvd_sub_iff (n := 2 * n) (j := j) (l := l) (by omega) (by omega)
  rw [Nat.cast_mul, Nat.cast_two] at hdvd
  exact if_congr hdvd rfl rfl

/-- A frequency inside the period is none. -/
theorem ite_period_of_lt {s : ℤ} (hpos : 0 < s) (hs : s < 2 * n) (x : ℝ) :
    (if (2 * n : ℤ) ∣ s then x else 0) = 0 := by
  lift s to ℕ using hpos.le
  have hdvd := not_dvd_of_lt (n := 2 * n) (s := s) (by omega) (by omega)
  rw [Nat.cast_mul, Nat.cast_two] at hdvd
  exact if_neg hdvd

/-- Odd bins: the frequency of a difference. -/
theorem ite_cos_period_sub (hj : j < n) (hl : l < n) :
    (if (2 * n : ℤ) ∣ (j : ℤ) - l then 2 * n * cos (π * ((j - l : ℤ) : ℝ) / (2 * n)) else 0)
      = if j = l then (2 * n : ℝ) else 0 := by
  rw [ite_period_sub hj hl]
  split
  · rename_i h
    subst h
    simp
  · rfl

end Frequencies

/-- **Orthogonality**: the way back multiplies by the normalization factor. -/
theorem sum_fftwCoefficient_eq {kind : R2rKind} {n : ℕ} (h : ValidLength kind n) {j l : ℕ}
    (hj : j < n) (hl : l < n) :
    ∑ k ∈ Finset.range n, fftwCoefficient kind n j k * fftwCoefficient kind.backwardKind n k l
      = if j = l then (transformFactor kind n : ℝ) else 0 := by
  rw [sum_fftwCoefficient h]
  obtain ⟨hpos, hdctI⟩ := h
  have hn' : (n : ℝ) ≠ 0 := Nat.cast_ne_zero.mpr hpos.ne'
  have htwice : ∀ m m' : ℕ, ((2 * m + 1 : ℕ) : ℤ) - ((2 * m' + 1 : ℕ) : ℤ) = 2 * (m - m') := by
    intro m m'
    push_cast
    ring
  have htwice' : ∀ m m' : ℕ, ((2 * m + 1 : ℕ) : ℤ) + ((2 * m' + 1 : ℕ) : ℤ) = 2 * (m + m' + 1) := by
    intro m m'
    push_cast
    ring
  have hsucc : ∀ m m' : ℕ, ((m + 1 : ℕ) : ℤ) - ((m' + 1 : ℕ) : ℤ) = m - m' := by
    intro m m'
    push_cast
    ring
  have hsucc' : ∀ m m' : ℕ, ((m + 1 : ℕ) : ℤ) + ((m' + 1 : ℕ) : ℤ) = m + m' + 2 := by
    intro m m'
    push_cast
    ring
  have hparity : cos (π * ((j - l : ℤ) : ℝ)) = cos (π * ((j + l : ℤ) : ℝ)) :=
    cos_pi_congr ⟨-l, by ring⟩
  cases kind with
  | dctI =>
    obtain ⟨last, rfl⟩ : ∃ last, n = last + 1 := ⟨n - 1, by omega⟩
    have hlast : 0 < last := by have := hdctI rfl; omega
    show weight .dctI (last + 1) j / 2 * (binSum .dctI (last + 1) ((j : ℤ) - l)
      + 1 * binSum .dctI (last + 1) ((j : ℤ) + l)) = if j = l then ((2 * last : ℕ) : ℝ) else 0
    rw [binSum_dctI hlast, binSum_dctI hlast, weight_eq, one_mul]
    have hdiff : (2 * last : ℤ) ∣ (j : ℤ) - l ↔ j = l := by
      have hdvd := dvd_sub_iff (n := 2 * last) (j := j) (l := l) (by omega) (by omega)
      rwa [Nat.cast_mul, Nat.cast_two] at hdvd
    rw [if_congr hdiff rfl rfl]
    by_cases hends : j = l ∧ (j = 0 ∨ j = last)
    · -- An end, which is its own mirror image.
      obtain ⟨rfl, hend⟩ := hends
      have hdvd : (2 * last : ℤ) ∣ (j : ℤ) + j := by
        cases hend with
        | inl hzero => exact ⟨0, by omega⟩
        | inr hlast => exact ⟨1, by omega⟩
      rw [if_pos hdvd, if_pos rfl, if_pos rfl, if_pos (show Unpaired .dctI (last + 1) j from hend)]
      push_cast
      ring
    · have hmirror : ¬(2 * last : ℤ) ∣ (j : ℤ) + l := by
        rintro ⟨q, hq⟩
        have hrange : 0 ≤ q ∧ q ≤ 1 := by
          constructor
          · by_contra hneg
            have : last * q ≤ last * (-1) := by
              exact mul_le_mul_of_nonneg_left (by omega) (by omega)
            linarith
          · by_contra hlarge
            have : last * 2 ≤ last * q := mul_le_mul_of_nonneg_left (by omega) (by omega)
            linarith
        obtain rfl | rfl : q = 0 ∨ q = 1 := by omega
        · omega
        · omega
      rw [if_neg hmirror]
      by_cases hsame : j = l
      · have hpaired : ¬Unpaired .dctI (last + 1) j := fun hend => hends ⟨hsame, hend⟩
        rw [if_pos hsame, if_pos hsame, if_neg hpaired]
        push_cast
        ring
      · rw [if_neg hsame, if_neg hsame]
        ring
  | dctII =>
    show weight .dctII n j / 2 * (binSum .dctII n (((2 * j + 1 : ℕ) : ℤ) - ((2 * l + 1 : ℕ) : ℤ))
      + 1 * binSum .dctII n (((2 * j + 1 : ℕ) : ℤ) + ((2 * l + 1 : ℕ) : ℤ)))
        = if j = l then ((2 * n : ℕ) : ℝ) else 0
    rw [htwice, htwice', binSum_dctII hpos, binSum_dctII hpos, ite_period_sub hj hl,
      ite_period_of_lt (by omega) (by omega), cos_pi_succ, hparity, weight_eq,
      if_neg (show ¬Unpaired .dctII n j from id)]
    push_cast
    ring
  | dctIII =>
    show weight .dctIII n j / 2 * (binSum .dctIII n ((j : ℤ) - l)
      + 1 * binSum .dctIII n ((j : ℤ) + l)) = if j = l then ((2 * n : ℕ) : ℝ) else 0
    rw [binSum_typeIII (Or.inl rfl) hpos, binSum_typeIII (Or.inl rfl) hpos,
      ite_cos_period_sub hj hl, weight_eq]
    by_cases hfirst : j = 0 ∧ l = 0
    · obtain ⟨rfl, rfl⟩ := hfirst
      rw [if_pos (show Unpaired .dctIII n 0 from rfl)]
      simp
      ring
    · rw [ite_period_of_lt (by omega) (by omega)]
      by_cases hsame : j = l
      · have hpaired : ¬Unpaired .dctIII n j := fun hzero => hfirst ⟨hzero, hsame ▸ hzero⟩
        rw [if_pos hsame, if_pos hsame, if_neg hpaired]
        push_cast
        ring
      · rw [if_neg hsame, if_neg hsame]
        ring
  | dctIV =>
    show weight .dctIV n j / 2 * (binSum .dctIV n (((2 * j + 1 : ℕ) : ℤ) - ((2 * l + 1 : ℕ) : ℤ))
      + 1 * binSum .dctIV n (((2 * j + 1 : ℕ) : ℤ) + ((2 * l + 1 : ℕ) : ℤ)))
        = if j = l then ((2 * n : ℕ) : ℝ) else 0
    rw [htwice, htwice', binSum_typeIV (Or.inl rfl) hpos, binSum_typeIV (Or.inl rfl) hpos,
      ite_cos_period_sub hj hl, ite_period_of_lt (by omega) (by omega), weight_eq,
      if_neg (show ¬Unpaired .dctIV n j from id)]
    push_cast
    ring
  | dstI =>
    show weight .dstI n j / 2 * (binSum .dstI n (((j + 1 : ℕ) : ℤ) - ((l + 1 : ℕ) : ℤ))
      + -1 * binSum .dstI n (((j + 1 : ℕ) : ℤ) + ((l + 1 : ℕ) : ℤ)))
        = if j = l then ((2 * (n + 1) : ℕ) : ℝ) else 0
    have hdiff := ite_period_sub (n := n + 1) (by omega : j < n + 1) (by omega : l < n + 1)
      (2 * ((n : ℝ) + 1))
    have htotal := ite_period_of_lt (n := n + 1) (s := j + l + 2) (by omega) (by omega)
      (2 * ((n : ℝ) + 1))
    push_cast at hdiff htotal
    rw [hsucc, hsucc', binSum_dstI, binSum_dstI, hdiff, htotal, hparity,
      cos_pi_congr (show (2 : ℤ) ∣ (j + l + 2 : ℤ) - (j + l : ℤ) from ⟨1, by ring⟩), weight_eq,
      if_neg (show ¬Unpaired .dstI n j from id)]
    push_cast
    ring
  | dstII =>
    show weight .dstII n j / 2 * (binSum .dstII n (((2 * j + 1 : ℕ) : ℤ) - ((2 * l + 1 : ℕ) : ℤ))
      + -1 * binSum .dstII n (((2 * j + 1 : ℕ) : ℤ) + ((2 * l + 1 : ℕ) : ℤ)))
        = if j = l then ((2 * n : ℕ) : ℝ) else 0
    rw [htwice, htwice', binSum_dstII hpos, binSum_dstII hpos, ite_period_sub hj hl,
      ite_period_of_lt (by omega) (by omega), weight_eq,
      if_neg (show ¬Unpaired .dstII n j from id)]
    push_cast
    ring
  | dstIII =>
    show weight .dstIII n j / 2 * (binSum .dstIII n (((j + 1 : ℕ) : ℤ) - ((l + 1 : ℕ) : ℤ))
      + -1 * binSum .dstIII n (((j + 1 : ℕ) : ℤ) + ((l + 1 : ℕ) : ℤ)))
        = if j = l then ((2 * n : ℕ) : ℝ) else 0
    rw [hsucc, hsucc', binSum_typeIII (Or.inr rfl) hpos, binSum_typeIII (Or.inr rfl) hpos,
      ite_cos_period_sub hj hl, weight_eq]
    by_cases hlast : j = n - 1 ∧ l = n - 1
    · have hsame : j = l := hlast.1.trans hlast.2.symm
      have hperiod : (j : ℤ) + l + 2 = 2 * n := by omega
      have hangle : π * ((2 * n : ℤ) : ℝ) / (2 * n) = π := by
        push_cast
        field_simp
      rw [if_pos (show Unpaired .dstIII n j from hlast.1), hperiod, if_pos (dvd_refl _), hangle,
        cos_pi, if_pos hsame, if_pos hsame]
      push_cast
      ring
    · rw [ite_period_of_lt (by omega) (by omega)]
      by_cases hsame : j = l
      · have hpaired : ¬Unpaired .dstIII n j := fun hend => hlast ⟨hend, hsame ▸ hend⟩
        rw [if_pos hsame, if_pos hsame, if_neg hpaired]
        push_cast
        ring
      · rw [if_neg hsame, if_neg hsame]
        ring
  | dstIV =>
    show weight .dstIV n j / 2 * (binSum .dstIV n (((2 * j + 1 : ℕ) : ℤ) - ((2 * l + 1 : ℕ) : ℤ))
      + -1 * binSum .dstIV n (((2 * j + 1 : ℕ) : ℤ) + ((2 * l + 1 : ℕ) : ℤ)))
        = if j = l then ((2 * n : ℕ) : ℝ) else 0
    rw [htwice, htwice', binSum_typeIV (Or.inr rfl) hpos, binSum_typeIV (Or.inr rfl) hpos,
      ite_cos_period_sub hj hl, ite_period_of_lt (by omega) (by omega), weight_eq,
      if_neg (show ¬Unpaired .dstIV n j from id)]
    push_cast
    ring

end PencilRs.Analysis
