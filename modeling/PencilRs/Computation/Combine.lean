import PencilRs.Computation.Lockstep

/-!
# Two interfaces side by side

A program that uses one interface runs unchanged where the ranks have a second one too, and
what was proved of it there still holds: its rounds leave the world of the second interface
alone.
-/

set_option autoImplicit false

namespace PencilRs.Computation

/-- The operations of both interfaces. -/
abbrev Interface.beside (I J : Interface) : Interface where
  Op := I.Op ⊕ J.Op
  Arg
    | .inl op => I.Arg op
    | .inr op => J.Arg op
  Reply
    | .inl op => I.Reply op
    | .inr op => J.Reply op

variable {I J : Interface} {ι World ρ σ ε ε' : Type}

namespace Proc

/-- A program of the first interface. -/
def inl : Proc I ρ → Proc (I.beside J) ρ
  | ret r => ret r
  | call op arg next => call (.inl op) arg fun reply => (next reply).inl
  | abort => abort

/-- A program of the second interface. -/
def inr : Proc J ρ → Proc (I.beside J) ρ
  | ret r => ret r
  | call op arg next => call (.inr op) arg fun reply => (next reply).inr
  | abort => abort

theorem inl_bind (p : Proc I ρ) (f : ρ → Proc I σ) :
    (p.bind f).inl = (p.inl : Proc (I.beside J) ρ).bind fun r => (f r).inl := by
  induction p with
  | ret r => rfl
  | call op arg next ih => simp only [bind, inl, ih]
  | abort => rfl

end Proc

namespace Fallible

/-- A program of the first interface, with its errors read as errors of the whole. -/
def inl (embed : ε → ε') (p : Fallible I ε ρ) : Fallible (I.beside J) ε' ρ :=
  ExceptT.mk (p.run.inl.bind fun r => .ret (r.mapError embed))

end Fallible

namespace Semantics

variable (S : Semantics I ι Unit) (T : Semantics J ι World)

/-- The first interface keeps no state, and its rounds do not touch that of the second. -/
def beside : Semantics (I.beside J) ι World where
  Round := fun w op args replies w' =>
    match op with
    | .inl op => S.Round () op args replies () ∧ w' = w
    | .inr op => T.Round w op args replies w'
  Torn := fun w op args w' =>
    match op with
    | .inl op => S.Torn () op args () ∧ w' = w
    | .inr op => T.Torn w op args w'

/-- What has to hold at the calls of either interface. -/
def CallCondition.beside (first : CallCondition I ι Unit) (second : CallCondition J ι World) :
    CallCondition (I.beside J) ι World
  | _, .inl op, args => first () op args
  | w, .inr op, args => second w op args

variable {S T}

/-- **Embedding.**  A correct family of programs of the first interface is correct beside the
second. -/
theorem Ensures.inl {first : CallCondition I ι Unit} (second : CallCondition J ι World)
    {inv aborted : World → Prop} {invFirst : Unit → Prop} {post : (ι → ρ) → Unit → Prop}
    {p : ι → Proc I ρ} {start : Unit} {w : World} (hinv : inv w)
    (h : S.Ensures first invFirst (fun _ => False) post start p) :
    (S.beside T).Ensures (first.beside second) inv aborted (fun r w' => w' = w ∧ post r ()) w
      fun i => (p i).inl := by
  induction h with
  | returned r hp _ hpost =>
    refine .returned r ?_ hinv ⟨rfl, hpost⟩
    intro i
    rw [hp]
    rfl
  | aborted i _ _ habort => exact habort.elim
  | round op args next hp hallowed _ _ hlive _ ih =>
    refine .round (.inl op) args (fun i reply => (next i reply).inl) ?_ hallowed hinv ?_ ?_ ?_
    · intro i
      rw [hp]
      rfl
    · rintro w' ⟨_, rfl⟩
      exact hinv
    · obtain ⟨replies, w', hround⟩ := hlive
      exact ⟨replies, w, hround, rfl⟩
    · rintro replies w' ⟨hround, rfl⟩
      exact ih replies () hround

/-- Going on after an embedded program whose ranks agree. -/
theorem Ensures.inl_bind_agreed {first : CallCondition I ι Unit}
    {second : CallCondition J ι World} {inv aborted : World → Prop} {invFirst : Unit → Prop}
    {embed : ε → ε'} {p : ι → Fallible I ε ρ} {f : ι → ρ → Fallible (I.beside J) ε' σ}
    {mid : (ι → Except ε ρ) → Unit → Prop} {post : (ι → Except ε' σ) → World → Prop}
    {start : Unit} {w : World} (hinv : inv w)
    (h : S.Ensures first invFirst (fun _ => False) mid start fun i => (p i).run)
    (hagreed : ∀ r, mid r () → Agreed r)
    (hok : ∀ x : ι → ρ, mid (fun i => .ok (x i)) () →
      (S.beside T).Ensures (first.beside second) inv aborted post w fun i => (f i (x i)).run)
    (herror : ∀ e : ι → ε, mid (fun i => .error (e i)) () →
      post (fun i => .error (embed (e i))) w) :
    (S.beside T).Ensures (first.beside second) inv aborted post w fun i =>
      (Fallible.inl embed (p i) >>= f i).run := by
  have hrun : ∀ i, (Fallible.inl embed (p i) >>= f i : Fallible (I.beside J) ε' σ).run
      = (p i).run.inl.bind fun r => match r with
        | .ok x => (f i x).run
        | .error e => .ret (.error (embed e)) := by
    intro i
    show ((p i).run.inl.bind fun r => .ret (r.mapError embed)).bind _ = _
    rw [Proc.bind_assoc]
    congr 1
    funext r
    cases r <;> rfl
  simp only [hrun]
  refine (Ensures.inl second hinv h).bind ?_
  rintro r w' ⟨rfl, hmid⟩ _
  cases hagreed r hmid with
  | inl hall =>
    obtain ⟨x, rfl⟩ := hall
    exact hok x hmid
  | inr hnone =>
    obtain ⟨e, rfl⟩ := hnone
    exact .returned _ (fun _ => rfl) hinv (herror e hmid)

end Semantics

end PencilRs.Computation
