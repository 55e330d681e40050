import Mathlib.Data.List.OfFn
import PencilRs.Computation.Literals

/-!
# Delimited codes

A value is written as a string of letters, and one string after another makes up a longer one.  A
code is delimited when a reader who knows where a value starts also knows where it ends: two
values that begin the same string are equal.  A sequence of such values can be told apart from
any other of the same length, and with its length in front from any other.
-/

set_option autoImplicit false

namespace PencilRs.Computation

variable {α β κ : Type}

/-- Among the values in `valid`, the one that begins a string is unique. -/
def Delimited (valid : α → Prop) (code : α → List κ) : Prop :=
  ∀ ⦃a b : α⦄, valid a → valid b → ∀ ⦃s t : List κ⦄, code a ++ s = code b ++ t → a = b ∧ s = t

namespace Delimited

variable {valid : α → Prop} {code : α → List κ} {s t : List κ}

/-- **A code of fixed length** is delimited where it is injective. -/
theorem of_length {n : ℕ} (hlength : ∀ a, valid a → (code a).length = n)
    (hinj : ∀ a b, valid a → valid b → code a = code b → a = b) : Delimited valid code := by
  intro a b ha hb s t h
  obtain ⟨hcode, hrest⟩ := List.append_inj h ((hlength a ha).trans (hlength b hb).symm)
  exact ⟨hinj a b ha hb hcode, hrest⟩

theorem mono {valid' : α → Prop} (h : Delimited valid code) (hvalid : ∀ a, valid' a → valid a) :
    Delimited valid' code :=
  fun _ _ ha hb => h (hvalid _ ha) (hvalid _ hb)

theorem comap (h : Delimited valid code) {f : β → α} (hf : Function.Injective f) :
    Delimited (fun b => valid (f b)) fun b => code (f b) := by
  intro a b ha hb s t heq
  obtain ⟨hvalue, hrest⟩ := h ha hb heq
  exact ⟨hf hvalue, hrest⟩

/-- A whole string stands for one value. -/
theorem inj (h : Delimited valid code) {a b : α} (ha : valid a) (hb : valid b)
    (heq : code a = code b) : a = b :=
  (h ha hb (congrArg (· ++ []) heq)).1

/-- **Sequences** of one length. -/
theorem many (h : Delimited valid code) {l l' : List α} (hlength : l.length = l'.length)
    (hl : ∀ a ∈ l, valid a) (hl' : ∀ a ∈ l', valid a)
    (heq : l.flatMap code ++ s = l'.flatMap code ++ t) : l = l' ∧ s = t := by
  induction l generalizing l' with
  | nil =>
    obtain rfl := List.length_eq_zero_iff.mp hlength.symm
    exact ⟨rfl, heq⟩
  | cons a l ih =>
    cases l' with
    | nil => contradiction
    | cons b l' =>
      rw [List.flatMap_cons, List.flatMap_cons, List.append_assoc, List.append_assoc] at heq
      obtain ⟨rfl, hrest⟩ := h (hl a List.mem_cons_self) (hl' b List.mem_cons_self) heq
      obtain ⟨rfl, hst⟩ := ih (Nat.succ.inj hlength) (fun c hc => hl c (List.mem_cons_of_mem _ hc))
        (fun c hc => hl' c (List.mem_cons_of_mem _ hc)) hrest
      exact ⟨rfl, hst⟩

/-- Sequences with an index. -/
theorem ofFn (h : Delimited valid code) {n : ℕ} {f g : Fin n → α} (hf : ∀ i, valid (f i))
    (hg : ∀ i, valid (g i))
    (heq : (List.ofFn f).flatMap code ++ s = (List.ofFn g).flatMap code ++ t) : f = g ∧ s = t := by
  have hlength : (List.ofFn f).length = (List.ofFn g).length := by
    rw [List.length_ofFn, List.length_ofFn]
  have hmem : ∀ {k : Fin n → α}, (∀ i, valid (k i)) → ∀ a ∈ List.ofFn k, valid a := by
    intro k hk a ha
    obtain ⟨i, rfl⟩ := List.mem_ofFn.mp ha
    exact hk i
  obtain ⟨hfg, hst⟩ := h.many hlength (hmem hf) (hmem hg) heq
  exact ⟨List.ofFn_injective hfg, hst⟩

/-- **A sequence with its length in front.** -/
theorem counted {small : ℕ → Prop} {count : ℕ → List κ} (hcount : Delimited small count)
    (h : Delimited valid code) :
    Delimited (fun l : List α => small l.length ∧ ∀ a ∈ l, valid a)
      fun l => count l.length ++ l.flatMap code := by
  rintro l l' ⟨hsmall, hl⟩ ⟨hsmall', hl'⟩ s t heq
  rw [List.append_assoc, List.append_assoc] at heq
  obtain ⟨hlength, hrest⟩ := hcount hsmall hsmall' heq
  exact h.many hlength hl hl' hrest

end Delimited

end PencilRs.Computation
