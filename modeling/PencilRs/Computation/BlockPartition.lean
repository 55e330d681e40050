import Mathlib.Tactic
import PencilRs.Computation.Literals

/-!
# Cutting an interval into blocks by the floor rule

`cut n p k = n * k / p` is the start of the `k`-th of `p` blocks of `[0, n)`.  The cuts
run from `0` to `n` without going back, so the blocks follow each other, every point lies
in exactly one of them, and a block has `n / p` or `n / p + 1` points.  `n` may be smaller
than `p`; some blocks are then empty.
-/

set_option autoImplicit false

namespace PencilRs.Computation.BlockPartition

/-- Where block `k` of `p` starts in `[0, n)`. -/
def cut (n p k : ℕ) : ℕ := n * k / p

/-- Block `k` holds the point `g`. -/
def InBlock (n p k g : ℕ) : Prop := cut n p k ≤ g ∧ g < cut n p (k + 1)

@[simp] theorem cut_zero (n p : ℕ) : cut n p 0 = 0 := by simp [cut]

theorem cut_parts (n : ℕ) {p : ℕ} (hp : 0 < p) : cut n p p = n := Nat.mul_div_cancel n hp

theorem cut_mono (n p : ℕ) : Monotone (cut n p) := fun _ _ h =>
  Nat.div_le_div_right (Nat.mul_le_mul_left n h)

theorem cut_le (n : ℕ) {p k : ℕ} (hp : 0 < p) (h : k ≤ p) : cut n p k ≤ n := by
  have := cut_mono n p h
  rwa [cut_parts n hp] at this

/-- A block has the floor of the average size, or one more. -/
theorem cut_succ_sub (n k : ℕ) {p : ℕ} (hp : 0 < p) :
    cut n p (k + 1) - cut n p k = n / p ∨ cut n p (k + 1) - cut n p k = n / p + 1 := by
  unfold cut
  have hsucc : n * (k + 1) = n * k + n := by ring
  rw [hsucc, Nat.add_div hp]
  generalize n * k / p = low
  generalize n / p = size
  split
  · right
    omega
  · left
    omega

/-- Every point of the interval lies in a block. -/
theorem exists_inBlock {n p g : ℕ} (hp : 0 < p) (hg : g < n) : ∃ k < p, InBlock n p k g := by
  have hex : ∃ m, g < cut n p m := ⟨p, by rwa [cut_parts n hp]⟩
  obtain ⟨hlt, hmin⟩ : g < cut n p (Nat.find hex) ∧ ∀ m < Nat.find hex, ¬ g < cut n p m :=
    ⟨Nat.find_spec hex, fun m hm => Nat.find_min hex hm⟩
  have hle : Nat.find hex ≤ p := Nat.find_min' hex (by rwa [cut_parts n hp])
  cases hfind : Nat.find hex with
  | zero =>
    rw [hfind, cut_zero] at hlt
    omega
  | succ k =>
    refine ⟨k, by omega, ?_, by rwa [← hfind]⟩
    have := hmin k (by omega)
    omega

/-- No point lies in two blocks. -/
theorem inBlock_unique {n p k m g : ℕ} (hk : InBlock n p k g) (hm : InBlock n p m g) :
    k = m := by
  rcases Nat.lt_trichotomy k m with h | h | h
  · have := cut_mono n p (show k + 1 ≤ m from h)
    have := hk.2
    have := hm.1
    omega
  · exact h
  · have := cut_mono n p (show m + 1 ≤ k from h)
    have := hm.2
    have := hk.1
    omega

/-- The block sizes add up to the interval. -/
theorem sum_cut_sub (n : ℕ) {p : ℕ} (hp : 0 < p) :
    ((List.range p).map fun k => cut n p (k + 1) - cut n p k).sum = n := by
  have hsum : ∀ m, ((List.range m).map fun k => cut n p (k + 1) - cut n p k).sum
      = cut n p m := by
    intro m
    induction m with
    | zero => simp
    | succ m ih =>
      have := cut_mono n p (Nat.le_succ m)
      rw [List.range_succ, List.map_append, List.sum_append, ih]
      simp only [List.map_cons, List.map_nil, List.sum_cons, List.sum_nil, Nat.succ_eq_add_one]
        at this ⊢
      omega
  rw [hsum, cut_parts n hp]

end PencilRs.Computation.BlockPartition
