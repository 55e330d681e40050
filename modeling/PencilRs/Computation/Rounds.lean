import Mathlib.Tactic
import PencilRs.Computation.Literals

/-!
# Loops that stop at the first failure

A round changes a state and says whether the loop goes on.  A loop that stops keeps what its
rounds have changed so far.
-/

set_option autoImplicit false

namespace PencilRs.Computation

variable {ι ε τ : Type}

/-! ## Checks -/

theorem forM_eq_ok_iff {check : ι → Except ε Unit} {l : List ι} :
    List.forM l check = .ok () ↔ ∀ x ∈ l, check x = .ok () := by
  induction l with
  | nil => exact ⟨fun _ => nofun, fun _ => rfl⟩
  | cons x l ih =>
    rw [List.forM_eq_forM, List.forM_cons, List.forall_mem_cons, ← ih]
    cases check x with
    | ok u => exact ⟨fun h => ⟨rfl, h⟩, fun h => h.2⟩
    | error e => exact ⟨nofun, fun h => nomatch h.1⟩

theorem forM_congr {check check' : ι → Except ε Unit} {l : List ι}
    (h : ∀ x ∈ l, check x = check' x) : List.forM l check = List.forM l check' := by
  induction l with
  | nil => rfl
  | cons x l ih =>
    rw [List.forM_eq_forM, List.forM_cons, List.forM_cons, h x List.mem_cons_self]
    exact congrArg _ (funext fun _ => ih fun y hy => h y (List.mem_cons_of_mem x hy))

theorem forM_eq_error {check : ι → Except ε Unit} {p rest : List ι} {x : ι} {e : ε}
    (hbefore : ∀ y ∈ p, check y = .ok ()) (hx : check x = .error e) :
    List.forM (p ++ x :: rest) check = .error e := by
  induction p with
  | nil =>
    rw [List.nil_append, List.forM_eq_forM, List.forM_cons, hx]
    rfl
  | cons y p ih =>
    rw [List.cons_append, List.forM_eq_forM, List.forM_cons, hbefore y List.mem_cons_self]
    exact ih fun z hz => hbefore z (List.mem_cons_of_mem y hz)

/-- The error of consecutive checks is that of the first one that fails. -/
theorem forM_range_eq_error {check : ℕ → Except ε Unit} {count : ℕ} {e : ε} :
    List.forM (List.range count) check = .error e ↔
      ∃ i < count, (∀ j < i, check j = .ok ()) ∧ check i = .error e := by
  have hfirst : ∀ i < count, ∀ e, (∀ j < i, check j = .ok ()) → check i = .error e →
      List.forM (List.range count) check = .error e := by
    intro i hi e hbefore herror
    obtain ⟨rest, rfl⟩ : ∃ rest, count = i + (rest + 1) := ⟨count - i - 1, by omega⟩
    rw [List.range_add, List.range_succ_eq_map, List.map_cons]
    exact forM_eq_error (fun j hj => hbefore j (List.mem_range.mp hj)) herror
  constructor
  · intro h
    have hfails : ∃ i, i < count ∧ check i ≠ .ok () := by
      by_contra hnone
      have hok : List.forM (List.range count) check = .ok () := by
        refine forM_eq_ok_iff.mpr fun i hi => ?_
        by_contra hi'
        exact hnone ⟨i, List.mem_range.mp hi, hi'⟩
      rw [hok] at h
      nomatch h
    classical
    obtain ⟨hcount, hne⟩ := Nat.find_spec hfails
    have hbefore : ∀ j < Nat.find hfails, check j = .ok () := by
      intro j hj
      by_contra hj'
      exact Nat.find_min hfails hj ⟨hj.trans hcount, hj'⟩
    cases herror : check (Nat.find hfails) with
    | ok u => exact absurd herror hne
    | error e' =>
      have hsame := hfirst _ hcount e' hbefore herror
      rw [h] at hsame
      obtain rfl := Except.error.inj hsame
      exact ⟨_, hcount, hbefore, herror⟩
  · rintro ⟨i, hi, hbefore, herror⟩
    exact hfirst i hi e hbefore herror

/-- Checks that fail in one way only may be made in any order. -/
theorem forM_reverse {check : ι → Except ε Unit} {l : List ι} {e : ε}
    (h : ∀ x ∈ l, check x = .ok () ∨ check x = .error e) :
    List.forM l.reverse check = List.forM l check := by
  have hfails : ∀ {l : List ι}, (∀ x ∈ l, check x = .ok () ∨ check x = .error e) →
      List.forM l check ≠ .ok () → List.forM l check = .error e := by
    intro l h hne
    induction l with
    | nil => exact absurd rfl hne
    | cons x l ih =>
      rw [List.forM_eq_forM, List.forM_cons] at hne ⊢
      cases h x List.mem_cons_self with
      | inl hok =>
        rw [hok] at hne ⊢
        exact ih (fun y hy => h y (List.mem_cons_of_mem x hy)) hne
      | inr herror =>
        rw [herror]
        rfl
  have hreverse : List.forM l.reverse check = .ok () ↔ List.forM l check = .ok () := by
    simp only [forM_eq_ok_iff, List.mem_reverse]
  by_cases hok : List.forM l check = .ok ()
  · rw [hok, hreverse.mpr hok]
  · rw [hfails h hok, hfails (fun x hx => h x (List.mem_reverse.mp hx)) (hreverse.not.mpr hok)]

/-! ## Rounds -/

/-- The rounds of a list, up to the first that fails. -/
def runRounds (round : ι → τ → Except ε Unit × τ) : List ι → τ → Except ε Unit × τ
  | [], s => (.ok (), s)
  | x :: xs, s => match round x s with
    | (.ok (), s) => runRounds round xs s
    | (.error e, s) => (.error e, s)

theorem runRounds_cons_ok {round : ι → τ → Except ε Unit × τ} {x : ι} {xs : List ι} {s s' : τ}
    (h : round x s = (.ok (), s')) : runRounds round (x :: xs) s = runRounds round xs s' := by
  rw [runRounds, h]

theorem runRounds_cons_error {round : ι → τ → Except ε Unit × τ} {x : ι} {xs : List ι}
    {s s' : τ} {e : ε} (h : round x s = (.error e, s')) :
    runRounds round (x :: xs) s = (.error e, s') := by
  rw [runRounds, h]

/-- **The rule of a loop**: where the results of the rounds are settled beforehand, it ends with the
first of these errors, or with what its rounds keep. -/
theorem runRounds_inv {round : ι → τ → Except ε Unit × τ} {verdict : ι → Except ε Unit}
    (inv : List ι → τ → Prop) {l : List ι} {s : τ} (h : inv [] s)
    (step : ∀ p x, p ++ [x] <+: l → ∀ s, inv p s →
      (round x s).1 = verdict x ∧ (verdict x = .ok () → inv (p ++ [x]) (round x s).2)) :
    (runRounds round l s).1 = List.forM l verdict ∧
      (List.forM l verdict = .ok () → inv l (runRounds round l s).2) := by
  induction l generalizing inv s with
  | nil => exact ⟨rfl, fun _ => h⟩
  | cons x l ih =>
    obtain ⟨hresult, hkept⟩ := step [] x ⟨l, rfl⟩ s h
    rcases hround : round x s with ⟨result, t⟩
    rw [hround] at hresult hkept
    simp only at hresult hkept
    subst hresult
    rw [List.forM_eq_forM, List.forM_cons]
    cases hverdict : verdict x with
    | ok u =>
      rw [hverdict] at hround
      rw [runRounds_cons_ok hround]
      refine ih (fun p => inv (x :: p)) (hkept hverdict) fun p y hp s hs => ?_
      exact step (x :: p) y (List.cons_prefix_cons.mpr ⟨rfl, hp⟩) s hs
    | error e =>
      rw [hverdict] at hround
      rw [runRounds_cons_error hround]
      exact ⟨rfl, nofun⟩

end PencilRs.Computation
