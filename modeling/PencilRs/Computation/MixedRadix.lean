import Mathlib.Algebra.BigOperators.Ring.List
import Mathlib.Algebra.Order.BigOperators.GroupWithZero.List
import Mathlib.Tactic
import PencilRs.Computation.Literals

/-!
# Mixed-radix numbers over an arbitrary index type

A number is a digit function `c : ι → ℕ`, its radices are `e : ι → ℕ`, and a list of
indices, least significant first, says in which order they count.  `value e c l` is the
number, `size e l` the count of representable numbers, `digit e l k` the digits of `k`,
and `bump e l c` the successor an odometer computes by carrying.

Row-major addressing is this arithmetic on the axes taken from the last to the first, so
the same facts serve a Horner evaluation, a div/mod decomposition, an odometer with a
carried offset and a sum of strides.
-/

set_option autoImplicit false

namespace PencilRs.Computation.MixedRadix

variable {ι : Type} (e c : ι → ℕ)

/-- The number of values the indices in `l` can take. -/
def size (l : List ι) : ℕ := (l.map e).prod

/-- The number with digits `c`, the head of `l` least significant. -/
def value : List ι → ℕ
  | [] => 0
  | a :: l => c a + e a * value l

@[simp] theorem size_nil : size e [] = 1 := rfl

@[simp] theorem size_cons (a : ι) (l : List ι) : size e (a :: l) = e a * size e l := by
  simp [size]

@[simp] theorem value_nil : value e c [] = 0 := rfl

@[simp] theorem value_cons (a : ι) (l : List ι) :
    value e c (a :: l) = c a + e a * value e c l := rfl

theorem size_append (l m : List ι) : size e (l ++ m) = size e l * size e m := by
  simp [size]

@[simp] theorem size_reverse (l : List ι) : size e l.reverse = size e l := by
  simp [size, List.prod_reverse]

/-- The high part of a number counts in units of the size of the low part. -/
theorem value_append (l m : List ι) :
    value e c (l ++ m) = value e c l + size e l * value e c m := by
  induction l with
  | nil => simp
  | cons a l ih => simp only [List.cons_append, value_cons, size_cons, ih]; ring

variable {e c}

theorem size_pos {l : List ι} (h : ∀ a ∈ l, 0 < e a) : 0 < size e l :=
  List.prod_pos (by simpa using h)

/-- A positive size has no zero radix. -/
theorem radix_pos {l : List ι} (h : 0 < size e l) : ∀ a ∈ l, 0 < e a := by
  intro a ha
  rcases Nat.eq_zero_or_pos (e a) with h0 | h0
  · have hz : size e l = 0 :=
      List.prod_eq_zero_iff.mpr (List.mem_map.mpr ⟨a, ha, h0⟩)
    omega
  · exact h0

theorem value_congr {c d : ι → ℕ} {l : List ι} (h : ∀ a ∈ l, c a = d a) :
    value e c l = value e d l := by
  induction l with
  | nil => rfl
  | cons a l ih =>
    rw [value_cons, value_cons, h a (by simp), ih fun b hb => h b (by simp [hb])]

theorem size_congr {e f : ι → ℕ} {l : List ι} (h : ∀ a ∈ l, e a = f a) :
    size e l = size f l := by
  unfold size
  rw [List.map_congr_left h]

theorem value_congr_radix {e f c : ι → ℕ} {l : List ι} (h : ∀ a ∈ l, e a = f a) :
    value e c l = value f c l := by
  induction l with
  | nil => rfl
  | cons a l ih =>
    rw [value_cons, value_cons, h a (by simp), ih fun b hb => h b (by simp [hb])]

/-- Renaming the indices renames the radices and the digits. -/
theorem value_map {κ : Type} (f : κ → ι) (l : List κ) :
    value e c (l.map f) = value (e ∘ f) (c ∘ f) l := by
  induction l with
  | nil => rfl
  | cons a l ih => simp [ih]

theorem size_map {κ : Type} (f : κ → ι) (l : List κ) :
    size e (l.map f) = size (e ∘ f) l := by
  simp [size]

/-- Numbers add up digit by digit. -/
theorem value_add (e c d : ι → ℕ) (l : List ι) :
    value e (fun a => c a + d a) l = value e c l + value e d l := by
  induction l with
  | nil => rfl
  | cons a l ih =>
    simp only [value_cons, ih]
    ring

/-- Digits below their radices make a number below the size. -/
theorem value_lt_size {l : List ι} (h : ∀ a ∈ l, c a < e a) :
    value e c l < size e l := by
  induction l with
  | nil => simp
  | cons a l ih =>
    have ha : c a < e a := h a (by simp)
    have hl : value e c l < size e l := ih fun b hb => h b (by simp [hb])
    rw [value_cons, size_cons]
    calc c a + e a * value e c l < e a + e a * value e c l := by omega
      _ = e a * (value e c l + 1) := by ring
      _ ≤ e a * size e l := Nat.mul_le_mul_left _ hl

/-- Numbers with valid digits are equal only when every digit is. -/
theorem value_inj {d : ι → ℕ} {l : List ι} (hc : ∀ a ∈ l, c a < e a)
    (hd : ∀ a ∈ l, d a < e a) (h : value e c l = value e d l) :
    ∀ a ∈ l, c a = d a := by
  induction l with
  | nil => simp
  | cons a l ih =>
    have hca : c a < e a := hc a (by simp)
    have hda : d a < e a := hd a (by simp)
    rw [value_cons, value_cons] at h
    have hlow : c a = d a := by
      have := congrArg (· % e a) h
      simpa [Nat.add_mul_mod_self_left, Nat.mod_eq_of_lt hca, Nat.mod_eq_of_lt hda] using this
    have hhigh : value e c l = value e d l := by
      rw [hlow] at h
      exact Nat.eq_of_mul_eq_mul_left (by omega) (Nat.add_left_cancel h)
    intro b hb
    rcases List.mem_cons.mp hb with rfl | hb
    · exact hlow
    · exact ih (fun x hx => hc x (by simp [hx])) (fun x hx => hd x (by simp [hx])) hhigh b hb

/-- Horner's rule on the indices from the most significant on. -/
theorem foldl_horner (e c : ι → ℕ) (l : List ι) (acc : ℕ) :
    l.foldl (fun number a => number * e a + c a) acc
      = acc * size e l + value e c l.reverse := by
  induction l generalizing acc with
  | nil => simp
  | cons a l ih =>
    rw [List.foldl_cons, ih, List.reverse_cons, value_append, size_reverse, size_cons, value_cons,
      value_nil]
    ring

section Digits

variable [DecidableEq ι]

/-- The digits of `k`: repeated remainder and quotient along `l`, zero off `l`. -/
def digit (e : ι → ℕ) : List ι → ℕ → ι → ℕ
  | [], _ => fun _ => 0
  | a :: l, k => Function.update (digit e l (k / e a)) a (k % e a)

theorem digit_lt {l : List ι} (k : ℕ) (h : ∀ a ∈ l, 0 < e a) :
    ∀ a ∈ l, digit e l k a < e a := by
  induction l generalizing k with
  | nil => simp
  | cons b l ih =>
    intro a ha
    rw [digit]
    by_cases hab : a = b
    · subst hab
      rw [Function.update_self]
      exact Nat.mod_lt _ (h a (by simp))
    · rw [Function.update_of_ne hab]
      exact ih _ (fun x hx => h x (by simp [hx])) a (List.mem_of_ne_of_mem hab ha)

/-- The digits of a number below the size give the number back. -/
theorem value_digit {l : List ι} (hn : l.Nodup) {k : ℕ} (hk : k < size e l) :
    value e (digit e l k) l = k := by
  induction l generalizing k with
  | nil =>
    have h0 : k = 0 := by simpa using hk
    simp [h0]
  | cons a l ih =>
    obtain ⟨hal, hn⟩ := List.nodup_cons.mp hn
    rw [size_cons] at hk
    have hq : k / e a < size e l := Nat.div_lt_of_lt_mul hk
    have htail : value e (digit e (a :: l) k) l = value e (digit e l (k / e a)) l :=
      value_congr fun b hb => by
        rw [digit, Function.update_of_ne (ne_of_mem_of_not_mem hb hal)]
    rw [value_cons, htail, ih hn hq, digit, Function.update_self]
    exact Nat.mod_add_div k (e a)

/-- Valid digits are the digits of the number they make. -/
theorem digit_value {l : List ι} (hn : l.Nodup) (h : ∀ a ∈ l, c a < e a) :
    ∀ a ∈ l, digit e l (value e c l) a = c a :=
  value_inj (digit_lt _ fun a ha => Nat.lt_of_le_of_lt (Nat.zero_le _) (h a ha)) h
    (value_digit hn (value_lt_size h))

/-- The odometer step: the first digit with room grows by one and the digits before it
go back to zero. -/
def bump (e : ι → ℕ) : List ι → (ι → ℕ) → ι → ℕ
  | [], c => c
  | a :: l, c =>
    if c a + 1 < e a then Function.update c a (c a + 1)
    else bump e l (Function.update c a 0)

theorem bump_of_notMem {l : List ι} {a : ι} (c : ι → ℕ) (h : a ∉ l) :
    bump e l c a = c a := by
  induction l generalizing c with
  | nil => rfl
  | cons b l ih =>
    have hab : a ≠ b := fun hab => h (by simp [hab])
    rw [bump]
    split
    · rw [Function.update_of_ne hab]
    · rw [ih _ fun ha => h (by simp [ha]), Function.update_of_ne hab]

/-- The odometer counts: short of the last number it reaches the next one, with valid
digits. -/
theorem bump_spec {l : List ι} (hn : l.Nodup) (h : ∀ a ∈ l, c a < e a)
    (hlast : value e c l + 1 < size e l) :
    value e (bump e l c) l = value e c l + 1 ∧ ∀ a ∈ l, bump e l c a < e a := by
  induction l generalizing c with
  | nil => simp at hlast
  | cons b l ih =>
    obtain ⟨hbl, hn⟩ := List.nodup_cons.mp hn
    have hb : c b < e b := h b (by simp)
    have hl : ∀ a ∈ l, c a < e a := fun a ha => h a (by simp [ha])
    rw [bump]
    split
    case isTrue hroom =>
      have htail : value e (Function.update c b (c b + 1)) l = value e c l :=
        value_congr fun a ha => Function.update_of_ne (ne_of_mem_of_not_mem ha hbl) _ _
      refine ⟨?_, ?_⟩
      · rw [value_cons, value_cons, htail, Function.update_self]
        omega
      · intro a ha
        by_cases hab : a = b
        · subst hab
          rwa [Function.update_self]
        · rw [Function.update_of_ne hab]
          exact h a ha
    case isFalse hfull =>
      have hcb : c b + 1 = e b := by omega
      have hsame : ∀ a ∈ l, Function.update c b 0 a = c a := fun a ha =>
        Function.update_of_ne (ne_of_mem_of_not_mem ha hbl) _ _
      have htail : value e (Function.update c b 0) l = value e c l := value_congr hsame
      have hroom : value e (Function.update c b 0) l + 1 < size e l := by
        rw [htail]
        rw [value_cons, size_cons] at hlast
        have : e b * (value e c l + 1) < e b * size e l := by
          rw [Nat.mul_add]
          omega
        exact Nat.lt_of_mul_lt_mul_left this
      obtain ⟨hval, hdig⟩ := ih hn (fun a ha => by rw [hsame a ha]; exact hl a ha) hroom
      have hzero : bump e l (Function.update c b 0) b = 0 := by
        rw [bump_of_notMem _ hbl, Function.update_self]
      refine ⟨?_, ?_⟩
      · rw [value_cons, value_cons, hval, htail, hzero, ← hcb]
        ring
      · intro a ha
        by_cases hab : a = b
        · subst hab
          rw [hzero]
          omega
        · exact hdig a (List.mem_of_ne_of_mem hab ha)

theorem digit_of_notMem {e : ι → ℕ} {l : List ι} {a : ι} (k : ℕ) (h : a ∉ l) :
    digit e l k a = 0 := by
  induction l generalizing k with
  | nil => rfl
  | cons b l ih =>
    rw [List.mem_cons, not_or] at h
    rw [digit, Function.update_of_ne h.1, ih _ h.2]

/-- The odometer steps from the digits of `k` to the digits of `k + 1`. -/
theorem bump_digit {e : ι → ℕ} {l : List ι} (hn : l.Nodup) {k : ℕ} (hk : k + 1 < size e l) :
    bump e l (digit e l k) = digit e l (k + 1) := by
  have hpos : ∀ a ∈ l, 0 < e a := radix_pos (by omega)
  have hval : value e (digit e l k) l = k := value_digit hn (by omega)
  obtain ⟨hnext, hvalid⟩ := bump_spec hn (digit_lt k hpos) (by omega)
  have hsame : ∀ a ∈ l, bump e l (digit e l k) a = digit e l (k + 1) a := by
    apply value_inj hvalid (digit_lt (k + 1) hpos)
    rw [hnext, hval, value_digit hn hk]
  funext a
  by_cases ha : a ∈ l
  · exact hsame a ha
  · rw [bump_of_notMem _ ha, digit_of_notMem _ ha, digit_of_notMem _ ha]

@[simp] theorem digit_zero (e : ι → ℕ) (l : List ι) : digit e l 0 = fun _ => 0 := by
  induction l with
  | nil => rfl
  | cons a l ih => simp [digit, ih]

end Digits

/-! ## Strides -/

/-- The stride of every index of `l`, by the running product that lays the indices out
one after another from a first stride `r`. -/
def stride [DecidableEq ι] (e : ι → ℕ) : List ι → ℕ → ι → ℕ
  | [], _ => fun _ => 0
  | a :: l, r => Function.update (stride e l (r * e a)) a r

/-- Adding up digits times strides evaluates the number. -/
theorem sum_stride [DecidableEq ι] {l : List ι} (hn : l.Nodup) (r : ℕ) :
    (l.map fun a => c a * stride e l r a).sum = r * value e c l := by
  induction l generalizing r with
  | nil => simp
  | cons a l ih =>
    obtain ⟨hal, hn⟩ := List.nodup_cons.mp hn
    have htail : (l.map fun b => c b * stride e (a :: l) r b)
        = l.map fun b => c b * stride e l (r * e a) b :=
      List.map_congr_left fun b hb => by
        rw [stride, Function.update_of_ne (ne_of_mem_of_not_mem hb hal)]
    rw [List.map_cons, List.sum_cons, htail, ih hn, stride, Function.update_self, value_cons]
    ring

end PencilRs.Computation.MixedRadix
