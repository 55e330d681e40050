import Mathlib.Tactic
import PencilRs.Computation.Literals

/-!
# Calls that update what they borrow

A call that borrows a value uniquely returns a result and leaves something in the value,
whether or not the result is an error; `none` is a panic.  What a call checks before it touches
the value leaves the value as it is.
-/

set_option autoImplicit false

namespace PencilRs.Computation

variable {ε τ ι κ : Type}

/-- A call with errors `ε` and results `ι` that borrows a `τ`. -/
abbrev Update (ε τ ι : Type) : Type := ExceptT ε (StateT τ Option) ι

namespace Update

/-- A step that does not touch what is borrowed. -/
def checked (result : Except ε ι) : Update ε τ ι := ExceptT.mk (pure result)

/-- A step that only touches what is borrowed. -/
def modify (change : τ → Option τ) : Update ε τ Unit :=
  ExceptT.mk fun s => (change s).map fun s' => (.ok (), s')

/-- A step that panics where there is nothing to return. -/
def demand (value : Option ι) : Update ε τ ι := ExceptT.mk fun s => value.map fun x => (.ok x, s)

/-- The result of a call and what it leaves. -/
def runOn (call : Update ε τ ι) (s : τ) : Option (Except ε ι × τ) := call s

/-- The call succeeds and leaves what is `good`. -/
def Succeeds (good : τ → Prop) (outcome : Option (Except ε Unit × τ)) : Prop :=
  ∃ s', outcome = some (.ok (), s') ∧ good s'

/-- The call ends with an error and leaves `s`, or it succeeds and leaves what is `good`. -/
def Settles (s : τ) (good : τ → Prop) (outcome : Option (Except ε Unit × τ)) : Prop :=
  (∃ e, outcome = some (.error e, s)) ∨ Succeeds good outcome

/-- From a state in `inv` the call returns and leaves a state in `inv`; a result is in `post` and
an error in `bad`. -/
def Keeps (inv : τ → Prop) (bad : ε → Prop) (post : ι → Prop) (call : Update ε τ ι) : Prop :=
  ∀ s, inv s → ∃ r s', call.runOn s = some (r, s') ∧ inv s' ∧ (∀ x, r = .ok x → post x) ∧
    ∀ e, r = .error e → bad e

theorem runOn_bind (call : Update ε τ ι) (k : ι → Update ε τ κ) (s : τ) :
    (call >>= k).runOn s = (call.runOn s).bind fun q => match q.1 with
      | .error e => some (.error e, q.2)
      | .ok x => (k x).runOn q.2 := by
  show (call.runOn s).bind _ = _
  congr 1
  funext ⟨r, s'⟩
  cases r <;> rfl

theorem runOn_checked_bind (result : Except ε ι) (k : ι → Update ε τ κ) (s : τ) :
    (checked result >>= k).runOn s = match result with
      | .error e => some (.error e, s)
      | .ok x => (k x).runOn s := by
  cases result <;> rfl

theorem runOn_checked_bind_ok {result : Except ε ι} {x : ι} (h : result = .ok x)
    (k : ι → Update ε τ κ) (s : τ) : (checked result >>= k).runOn s = (k x).runOn s := by
  rw [runOn_checked_bind, h]

theorem runOn_modify (change : τ → Option τ) (s : τ) :
    (modify change : Update ε τ Unit).runOn s = (change s).map fun s' => (.ok (), s') := rfl

/-- **A check settles** what the rest settles for every result it passes on. -/
theorem settles_checked_bind {result : Except ε ι} {k : ι → Update ε τ Unit} {s : τ}
    {good : τ → Prop} (h : ∀ x, result = .ok x → Settles s good ((k x).runOn s)) :
    Settles s good ((checked result >>= k).runOn s) := by
  rw [runOn_checked_bind]
  cases result with
  | error e => exact Or.inl ⟨e, rfl⟩
  | ok x => exact h x rfl

theorem Succeeds.imp {good good' : τ → Prop} {outcome : Option (Except ε Unit × τ)}
    (h : Succeeds good outcome) (himp : ∀ s, good s → good' s) : Succeeds good' outcome := by
  obtain ⟨s', hs, hgood⟩ := h
  exact ⟨s', hs, himp s' hgood⟩

theorem Settles.imp {s : τ} {good good' : τ → Prop} {outcome : Option (Except ε Unit × τ)}
    (h : Settles s good outcome) (himp : ∀ s, good s → good' s) : Settles s good' outcome := by
  cases h with
  | inl herror => exact Or.inl herror
  | inr hsucceeds => exact Or.inr (hsucceeds.imp himp)

/-- A settled call that succeeds leaves what is good. -/
theorem Settles.good_of_ok {s s' : τ} {good : τ → Prop} {outcome : Option (Except ε Unit × τ)}
    (h : Settles s good outcome) (hok : outcome = some (.ok (), s')) : good s' := by
  rw [hok] at h
  cases h with
  | inl herror =>
    obtain ⟨e, he⟩ := herror
    cases he
  | inr hsucceeds =>
    obtain ⟨s'', hs, hgood⟩ := hsucceeds
    cases hs
    exact hgood

theorem succeeds_pure {s : τ} {good : τ → Prop} (h : good s) :
    Succeeds good ((pure () : Update ε τ Unit).runOn s) :=
  ⟨s, rfl, h⟩

theorem succeeds_modify {change : τ → Option τ} {s s' : τ} {good : τ → Prop}
    (h : change s = some s') (hgood : good s') :
    Succeeds good ((modify change : Update ε τ Unit).runOn s) := by
  rw [runOn_modify, h]
  exact ⟨s', rfl, hgood⟩

theorem succeeds_bind {call : Update ε τ Unit} {k : Unit → Update ε τ Unit} {s : τ}
    {good good' : τ → Prop} (h : Succeeds good (call.runOn s))
    (hk : ∀ s', good s' → Succeeds good' ((k ()).runOn s')) :
    Succeeds good' ((call >>= k).runOn s) := by
  obtain ⟨s', hs, hgood⟩ := h
  rw [runOn_bind, hs]
  exact hk s' hgood

/-- Going on where a call has returned. -/
theorem succeeds_run_bind {call : Update ε τ ι} {k : ι → Update ε τ Unit} {s s' : τ} {x : ι}
    {good : τ → Prop} (h : call.runOn s = some (.ok x, s')) (hk : Succeeds good ((k x).runOn s')) :
    Succeeds good ((call >>= k).runOn s) := by
  rw [runOn_bind, h]
  exact hk

/-- **A loop** of rounds that succeed. -/
theorem succeeds_forM_range {f : ℕ → Update ε τ Unit} (inv : ℕ → τ → Prop) (n : ℕ) {s : τ}
    (h : inv 0 s) (hstep : ∀ k < n, ∀ s, inv k s → Succeeds (inv (k + 1)) ((f k).runOn s)) :
    Succeeds (inv n) (((List.range n).forM f).runOn s) := by
  induction n with
  | zero => exact succeeds_pure h
  | succ n ih =>
    rw [List.range_succ, List.forM_eq_forM, List.forM_append]
    apply succeeds_bind (ih fun k hk => hstep k (by omega))
    intro s' hs'
    rw [List.forM_cons]
    exact succeeds_bind (hstep n (by omega) s' hs') fun _ h => succeeds_pure h

/-! ## Invariants of what is borrowed -/

section Keeps

variable {inv : τ → Prop} {bad : ε → Prop} {post post' : ι → Prop}

theorem keeps_pure {x : ι} (hx : post x) : Keeps inv bad post (pure x) := by
  intro s hs
  exact ⟨.ok x, s, rfl, hs, fun y hy => Except.ok.inj hy ▸ hx, nofun⟩

theorem keeps_checked {result : Except ε ι} (h : ∀ x, result = .ok x → post x)
    (herror : ∀ e, result = .error e → bad e) : Keeps inv bad post (checked result) :=
  fun s hs => ⟨result, s, rfl, hs, h, herror⟩

theorem keeps_demand {value : Option ι} {x : ι} (h : value = some x) (hx : post x) :
    Keeps inv bad post (demand value) := by
  intro s hs
  refine ⟨.ok x, s, ?_, hs, fun y hy => Except.ok.inj hy ▸ hx, nofun⟩
  rw [h]
  rfl

/-- **Sequencing.** -/
theorem keeps_bind {call : Update ε τ ι} {k : ι → Update ε τ κ} {good : κ → Prop}
    (h : Keeps inv bad post call) (hk : ∀ x, post x → Keeps inv bad good (k x)) :
    Keeps inv bad good (call >>= k) := by
  intro s hs
  obtain ⟨r, s', hrun, hinv, hpost, hbad⟩ := h s hs
  cases r with
  | error e =>
    refine ⟨.error e, s', ?_, hinv, nofun, fun e' he => ?_⟩
    · rw [runOn_bind, hrun]
      rfl
    · exact hbad e' (congrArg _ (Except.error.inj he))
  | ok x =>
    obtain ⟨r', s'', hrun', hinv', hgood, hbad'⟩ := hk x (hpost x rfl) s' hinv
    refine ⟨r', s'', ?_, hinv', hgood, hbad'⟩
    rw [runOn_bind, hrun]
    exact hrun'

/-- **A loop** whose rounds keep an invariant of what it has gathered. -/
theorem keeps_foldlM_range {f : ι → ℕ → Update ε τ ι} (motive : ℕ → ι → Prop) (n : ℕ) {x : ι}
    (hx : motive 0 x)
    (hstep : ∀ k < n, ∀ x, motive k x → Keeps inv bad (motive (k + 1)) (f x k)) :
    Keeps inv bad (motive n) ((List.range n).foldlM f x) := by
  induction n with
  | zero => exact keeps_pure hx
  | succ n ih =>
    rw [List.range_succ, List.foldlM_append]
    refine keeps_bind (ih fun k hk => hstep k (by omega)) fun x' hx' => ?_
    rw [List.foldlM_cons]
    exact keeps_bind (hstep n (by omega) x' hx') fun _ h => keeps_pure h

end Keeps

/-! ## Results -/

/-- What the call returns is in `post`. -/
def Returns (post : ι → Prop) (call : Update ε τ ι) : Prop :=
  ∀ s x s', call.runOn s = some (.ok x, s') → post x

/-- The call returns `x` whatever it borrows. -/
def Yields (x : ι) (call : Update ε τ ι) : Prop := ∀ s, ∃ s', call.runOn s = some (.ok x, s')

section Results

variable {post : ι → Prop} {good : κ → Prop}

theorem returns_pure {x : ι} (hx : post x) : Returns post (pure x : Update ε τ ι) := by
  rintro s y s' h
  obtain ⟨hy, _⟩ := Prod.mk.inj (Option.some.inj h)
  exact Except.ok.inj hy ▸ hx

theorem returns_any (call : Update ε τ ι) : Returns (fun _ => True) call := fun _ _ _ _ => trivial

theorem returns_checked {result : Except ε ι} (h : ∀ x, result = .ok x → post x) :
    Returns post (checked result : Update ε τ ι) := by
  intro s x s' hrun
  exact h x (Prod.mk.inj (Option.some.inj hrun)).1

theorem returns_demand {value : Option ι} (h : ∀ x, value = some x → post x) :
    Returns post (demand value : Update ε τ ι) := by
  intro s x s' hrun
  obtain ⟨y, hy, heq⟩ := Option.map_eq_some_iff.mp hrun
  obtain ⟨hx, _⟩ := Prod.mk.inj heq
  exact h x (Except.ok.inj hx ▸ hy)

theorem returns_bind {call : Update ε τ ι} {k : ι → Update ε τ κ} (h : Returns post call)
    (hk : ∀ x, post x → Returns good (k x)) : Returns good (call >>= k) := by
  intro s y s' hrun
  rw [runOn_bind] at hrun
  obtain ⟨⟨r, s''⟩, hcall, hrest⟩ := Option.bind_eq_some_iff.mp hrun
  cases r with
  | error e => cases hrest
  | ok x => exact hk x (h s x s'' hcall) s'' y s' hrest

/-- **A loop** whose rounds return what the invariant says. -/
theorem returns_foldlM_range {f : ι → ℕ → Update ε τ ι} (motive : ℕ → ι → Prop) (n : ℕ) {x : ι}
    (hx : motive 0 x) (hstep : ∀ k < n, ∀ x, motive k x → Returns (motive (k + 1)) (f x k)) :
    Returns (motive n) ((List.range n).foldlM f x) := by
  induction n with
  | zero => exact returns_pure hx
  | succ n ih =>
    rw [List.range_succ, List.foldlM_append]
    refine returns_bind (ih fun k hk => hstep k (by omega)) fun x' hx' => ?_
    rw [List.foldlM_cons]
    exact returns_bind (hstep n (by omega) x' hx') fun _ h => returns_pure h

theorem yields_pure (x : ι) : Yields x (pure x : Update ε τ ι) := fun s => ⟨s, rfl⟩

theorem yields_checked {result : Except ε ι} {x : ι} (h : result = .ok x) :
    Yields x (checked result : Update ε τ ι) := by
  subst h
  exact fun s => ⟨s, rfl⟩

theorem yields_demand {value : Option ι} {x : ι} (h : value = some x) :
    Yields x (demand value : Update ε τ ι) := by
  subst h
  exact fun s => ⟨s, rfl⟩

theorem yields_bind {call : Update ε τ ι} {k : ι → Update ε τ κ} {x : ι} {y : κ}
    (h : Yields x call) (hk : Yields y (k x)) : Yields y (call >>= k) := by
  intro s
  obtain ⟨s', hrun⟩ := h s
  rw [runOn_bind, hrun]
  exact hk s'

/-- **A loop** whose rounds are known. -/
theorem yields_foldlM_range {f : ι → ℕ → Update ε τ ι} (state : ℕ → ι) (n : ℕ)
    (hstep : ∀ k < n, Yields (state (k + 1)) (f (state k) k)) :
    Yields (state n) ((List.range n).foldlM f (state 0)) := by
  induction n with
  | zero => exact yields_pure _
  | succ n ih =>
    rw [List.range_succ, List.foldlM_append]
    refine yields_bind (ih fun k hk => hstep k (by omega)) ?_
    rw [List.foldlM_cons]
    exact yields_bind (hstep n (by omega)) (yields_pure _)

end Results

/-! ## Calls that agree -/

/-- Where the first call succeeds or ends with a `soft` error, the second one does the same. -/
def Agrees (soft : ε → Prop) (call call' : Update ε τ ι) : Prop :=
  ∀ s r s', call.runOn s = some (r, s') → (∀ e, r = .error e → soft e) →
    call'.runOn s = some (r, s')

section Agreement

variable {soft : ε → Prop}

theorem agrees_refl (call : Update ε τ ι) : Agrees soft call call := fun _ _ _ h _ => h

/-- A check that only fails where its error is not soft. -/
theorem agrees_checked {result result' : Except ε ι} (h : ∀ x, result = .ok x → result' = .ok x)
    (herror : ∀ e, result = .error e → soft e → result' = .error e) :
    Agrees soft (checked result : Update ε τ ι) (checked result') := by
  intro s r s' hrun hsoft
  obtain ⟨rfl, rfl⟩ := Prod.mk.inj (Option.some.inj hrun)
  have hsame : result' = result := by
    cases result with
    | ok x => exact h x rfl
    | error e => exact herror e rfl (hsoft e rfl)
  rw [hsame]
  rfl

theorem agrees_bind {call call' : Update ε τ ι} {k k' : ι → Update ε τ κ}
    (h : Agrees soft call call') (hk : ∀ x, Agrees soft (k x) (k' x)) :
    Agrees soft (call >>= k) (call' >>= k') := by
  intro s r s' hrun hsoft
  rw [runOn_bind] at hrun ⊢
  obtain ⟨⟨first, s₁⟩, hfirst, hrest⟩ := Option.bind_eq_some_iff.mp hrun
  cases first with
  | ok x =>
    rw [h s (.ok x) s₁ hfirst nofun]
    exact hk x s₁ r s' hrest hsoft
  | error e =>
    obtain ⟨rfl, rfl⟩ := Prod.mk.inj (Option.some.inj hrest)
    rw [h s (.error e) s₁ hfirst fun e' he => hsoft e' (congrArg _ (Except.error.inj he))]
    rfl

end Agreement

end Update

end PencilRs.Computation
