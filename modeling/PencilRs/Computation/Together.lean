import PencilRs.Computation.Lockstep

/-!
# Ranks that go on together

After a step the ranks agree on, all of them go on or all of them stop.  What they go on with and
what they stop for are two predicates, and a sequence or a loop of such steps is one again.
-/

set_option autoImplicit false

namespace PencilRs.Computation.Semantics.Ensures

variable {I : Interface} {ι World ε ε' ρ σ κ : Type} {S : Semantics I ι World}
  {allowed : CallCondition I ι World} {inv aborted : World → Prop} {w : World}

/-- All ranks go on with values in `good`, or all of them stop with errors in `bad`. -/
def Together (good : (ι → ρ) → Prop) (bad : (ι → ε) → Prop) (r : ι → Except ε ρ) : Prop :=
  (∃ x, r = (fun i => .ok (x i)) ∧ good x) ∨ ∃ e, r = (fun i => .error (e i)) ∧ bad e

section Outcomes

variable {good good' : (ι → ρ) → Prop} {bad bad' : (ι → ε) → Prop} {r : ι → Except ε ρ}

theorem Together.agreed (h : Together good bad r) : Agreed r := by
  obtain ⟨x, rfl, _⟩ | ⟨e, rfl, _⟩ := h
  · exact Or.inl ⟨x, rfl⟩
  · exact Or.inr ⟨e, rfl⟩

theorem Together.mono (h : Together good bad r) (hgood : ∀ x, good x → good' x)
    (hbad : ∀ e, bad e → bad' e) : Together good' bad' r := by
  obtain ⟨x, rfl, hx⟩ | ⟨e, rfl, he⟩ := h
  · exact Or.inl ⟨x, rfl, hgood x hx⟩
  · exact Or.inr ⟨e, rfl, hbad e he⟩

theorem Together.ok [Nonempty ι] {x : ι → ρ} (h : Together good bad fun i => .ok (x i)) :
    good x := by
  obtain ⟨x', heq, hx⟩ | ⟨e, heq, _⟩ := h
  · obtain rfl : x = x' := funext fun i => Except.ok.inj (congrFun heq i)
    exact hx
  · have := congrFun heq (Classical.arbitrary ι)
    contradiction

theorem Together.error [Nonempty ι] {e : ι → ε}
    (h : Together good bad fun i => .error (e i)) : bad e := by
  obtain ⟨x, heq, _⟩ | ⟨e', heq, he⟩ := h
  · have := congrFun heq (Classical.arbitrary ι)
    contradiction
  · obtain rfl : e = e' := funext fun i => Except.error.inj (congrFun heq i)
    exact he

end Outcomes

/-! ## Weaker invariants -/

/-- A run that keeps an invariant keeps a weaker one. -/
theorem weaken {post : (ι → ρ) → World → Prop} {inv' : World → Prop} {p : ι → Proc I ρ}
    (h : S.Ensures allowed inv aborted post w p) (hinv : ∀ w, inv w → inv' w) :
    S.Ensures allowed inv' aborted post w p := by
  induction h with
  | returned r hp hw hpost => exact .returned r hp (hinv _ hw) hpost
  | aborted i hp hw habort => exact .aborted i hp (hinv _ hw) habort
  | round op args next hp hallowed hw htorn hlive _ ih =>
    exact .round op args next hp hallowed (hinv _ hw) (fun w' h => hinv w' (htorn w' h)) hlive ih

/-! ## Sequences -/

section Rules

variable {good : (ι → ρ) → Prop} {good' : (ι → σ) → Prop} {bad : (ι → ε) → Prop}

theorem together_ok {x : ι → ρ} (hinv : inv w) (hx : good x) :
    S.Ensures allowed inv aborted (fun r _ => Together good bad r) w
      fun i => (Fallible.ofExcept (.ok (x i)) : Fallible I ε ρ).run :=
  .returned _ (fun _ => rfl) hinv (Or.inl ⟨x, rfl, hx⟩)

theorem together_adapt_world {good : (ι → ρ) → World → Prop} {B : (ι → ε') → Prop}
    {p : ι → Fallible I ε ρ} {f : ι → ε → ε'}
    (h : S.Ensures allowed inv aborted (fun r w' => Together (fun x => good x w') bad r) w
      fun i => (p i).run)
    (hbad : ∀ e, bad e → B fun i => f i (e i)) :
    S.Ensures allowed inv aborted (fun r w' => Together (fun x => good x w') B r) w
      fun i => (ExceptT.adapt (f i) (p i)).run := by
  refine bind (f := fun i r => .ret (r.mapError (f i))) h ?_
  rintro r w' (⟨x, rfl, hx⟩ | ⟨e, rfl, he⟩) hinv
  · exact .returned _ (fun _ => rfl) hinv (Or.inl ⟨x, rfl, hx⟩)
  · exact .returned _ (fun _ => rfl) hinv (Or.inr ⟨_, rfl, hbad e he⟩)

theorem together_adapt {B : (ι → ε') → Prop} {p : ι → Fallible I ε ρ} {f : ι → ε → ε'}
    (h : S.Ensures allowed inv aborted (fun r _ => Together good bad r) w fun i => (p i).run)
    (hbad : ∀ e, bad e → B fun i => f i (e i)) :
    S.Ensures allowed inv aborted (fun r _ => Together good B r) w
      fun i => (ExceptT.adapt (f i) (p i)).run :=
  together_adapt_world h hbad

variable [Nonempty ι]

/-- **Sequencing** in a world that the values and the errors speak of. -/
theorem together_bind_worlds {motive : (ι → ρ) → World → Prop} {good' : (ι → σ) → World → Prop}
    {bad : (ι → ε) → World → Prop} {p : ι → Fallible I ε ρ} {f : ι → ρ → Fallible I ε σ}
    (h : S.Ensures allowed inv aborted
      (fun r w' => Together (fun x => motive x w') (fun e => bad e w') r) w fun i => (p i).run)
    (hf : ∀ x w', motive x w' → inv w' →
      S.Ensures allowed inv aborted
        (fun r w'' => Together (fun x => good' x w'') (fun e => bad e w'') r) w'
        fun i => (f i (x i)).run) :
    S.Ensures allowed inv aborted
      (fun r w' => Together (fun x => good' x w') (fun e => bad e w') r) w
      fun i => (p i >>= f i).run :=
  bind_agreed h (fun _ _ => Together.agreed) (fun x w' hx hinv => hf x w' hx.ok hinv)
    fun e _ he _ => Or.inr ⟨e, rfl, he.error⟩

theorem together_bind_world {motive : (ι → ρ) → World → Prop} {good' : (ι → σ) → World → Prop}
    {p : ι → Fallible I ε ρ} {f : ι → ρ → Fallible I ε σ}
    (h : S.Ensures allowed inv aborted (fun r w' => Together (fun x => motive x w') bad r) w
      fun i => (p i).run)
    (hf : ∀ x w', motive x w' → inv w' →
      S.Ensures allowed inv aborted (fun r w'' => Together (fun x => good' x w'') bad r) w'
        fun i => (f i (x i)).run) :
    S.Ensures allowed inv aborted (fun r w' => Together (fun x => good' x w') bad r) w
      fun i => (p i >>= f i).run :=
  @together_bind_worlds _ _ _ _ _ _ _ _ _ _ _ _ _ _ (fun e _ => bad e) _ _ h hf

theorem together_bind {motive : (ι → ρ) → Prop} {p : ι → Fallible I ε ρ}
    {f : ι → ρ → Fallible I ε σ}
    (h : S.Ensures allowed inv aborted (fun r _ => Together motive bad r) w fun i => (p i).run)
    (hf : ∀ x w', motive x → inv w' →
      S.Ensures allowed inv aborted (fun r _ => Together good' bad r) w'
        fun i => (f i (x i)).run) :
    S.Ensures allowed inv aborted (fun r _ => Together good' bad r) w
      fun i => (p i >>= f i).run :=
  together_bind_world (motive := fun x _ => motive x) h hf

/-- **A loop of agreed steps** in a world they change. -/
theorem together_foldlM_world {f : ι → σ → κ → Fallible I ε σ}
    {motive : ℕ → (ι → σ) → World → Prop} {bad : (ι → ε) → Prop} (l : List κ)
    (hstep : ∀ k a, l[k]? = some a → ∀ x w', motive k x w' → inv w' →
      S.Ensures allowed inv aborted (fun r w'' => Together (fun x => motive (k + 1) x w'') bad r) w'
        fun i => (f i (x i) a).run)
    {x : ι → σ} (hx : motive 0 x w) (hinv : inv w) :
    S.Ensures allowed inv aborted (fun r w' => Together (fun x => motive l.length x w') bad r) w
      fun i => (l.foldlM (f i) (x i)).run := by
  induction l generalizing w motive x with
  | nil => exact .returned _ (fun _ => rfl) hinv (Or.inl ⟨x, rfl, hx⟩)
  | cons a l ih =>
    simp only [List.foldlM_cons]
    refine together_bind_world (hstep 0 a rfl x w hx hinv) fun x' w' hx' hinv' => ?_
    exact ih (motive := fun k => motive (k + 1)) (fun k b hb => hstep (k + 1) b hb) hx' hinv'

/-- **A loop of agreed steps.**  The invariant sees how many elements are done. -/
theorem together_foldlM {f : ι → σ → κ → Fallible I ε σ} {motive : ℕ → (ι → σ) → Prop}
    {bad : (ι → ε) → Prop} (l : List κ)
    (hstep : ∀ k a, l[k]? = some a → ∀ x w', motive k x → inv w' →
      S.Ensures allowed inv aborted (fun r _ => Together (motive (k + 1)) bad r) w'
        fun i => (f i (x i) a).run)
    {x : ι → σ} (hx : motive 0 x) (hinv : inv w) :
    S.Ensures allowed inv aborted (fun r _ => Together (motive l.length) bad r) w
      fun i => (l.foldlM (f i) (x i)).run :=
  together_foldlM_world (motive := fun k x _ => motive k x) l hstep hx hinv

end Rules

end PencilRs.Computation.Semantics.Ensures
