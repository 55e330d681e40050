import Mathlib.Logic.Relation
import Mathlib.Data.Set.Basic
import PencilRs.Computation.Literals

/-!
# Rank programs and collective calls

A rank's program makes collective calls, one after another, until it returns or aborts the
job.  The ranks of a job run in lockstep: a round happens when every rank calls the same
operation, each with its own argument; the semantics relates the arguments to the replies
and to the next state of the shared world.  A configuration in which the ranks call
different operations, or in which some returned and others call, takes no step: the job
hangs.

`Ensures` is the proof rule for total correctness of a family of programs: every call is
allowed where it is made, every round can happen, every reply is followed up, and the post
condition holds where the ranks return.  `Ensures.correct` says what this means for runs.
-/

set_option autoImplicit false

namespace PencilRs.Computation

/-- The collective operations, with the argument and the reply of one rank. -/
structure Interface where
  Op : Type
  Arg : Op → Type
  Reply : Op → Type

inductive Proc (I : Interface) (ρ : Type) : Type where
  | ret (r : ρ)
  | call (op : I.Op) (arg : I.Arg op) (next : I.Reply op → Proc I ρ)
  | abort

namespace Proc

variable {I : Interface} {ρ σ τ : Type}

def bind (p : Proc I ρ) (f : ρ → Proc I σ) : Proc I σ :=
  match p with
  | ret r => f r
  | call op arg next => call op arg fun reply => (next reply).bind f
  | abort => abort

instance : Monad (Proc I) where
  pure := ret
  bind := bind

/-- One collective call. -/
def perform (op : I.Op) (arg : I.Arg op) : Proc I (I.Reply op) := call op arg ret

theorem bind_ret (p : Proc I ρ) : p.bind ret = p := by
  induction p with
  | ret r => rfl
  | call op arg next ih => simp only [bind, ih]
  | abort => rfl

theorem bind_assoc (p : Proc I ρ) (f : ρ → Proc I σ) (g : σ → Proc I τ) :
    (p.bind f).bind g = p.bind fun r => (f r).bind g := by
  induction p with
  | ret r => rfl
  | call op arg next ih => simp only [bind, ih]
  | abort => rfl

instance : LawfulMonad (Proc I) := LawfulMonad.mk' (Proc I) bind_ret (fun _ _ => rfl) bind_assoc

end Proc

/-- What a round does: `Round` relates the world and the arguments to the replies and the
next world, `Torn` to the worlds left behind when the job dies during the round. -/
structure Semantics (I : Interface) (ι World : Type) where
  Round : World → (op : I.Op) → (ι → I.Arg op) → (ι → I.Reply op) → World → Prop
  Torn : World → (op : I.Op) → (ι → I.Arg op) → World → Prop

/-- The world and what each rank still has to do. -/
structure Config (I : Interface) (ι World ρ : Type) where
  world : World
  procs : ι → Proc I ρ

namespace Config

variable {I : Interface} {ι World ρ : Type}

/-- Every rank returned. -/
def Returned (c : Config I ι World ρ) (r : ι → ρ) : Prop := ∀ i, c.procs i = .ret (r i)

/-- Some rank aborts the job. -/
def Aborted (c : Config I ι World ρ) : Prop := ∃ i, c.procs i = .abort

/-- Every rank calls the same operation. -/
def Calls (c : Config I ι World ρ) (op : I.Op) (args : ι → I.Arg op)
    (next : ι → I.Reply op → Proc I ρ) : Prop :=
  ∀ i, c.procs i = .call op (args i) (next i)

end Config

namespace Semantics

variable {I : Interface} {ι World ρ σ : Type} (S : Semantics I ι World)

def Step (c c' : Config I ι World ρ) : Prop :=
  ∃ op args next replies, c.Calls op args next ∧ S.Round c.world op args replies c'.world ∧
    c'.procs = fun i => next i (replies i)

abbrev Reaches : Config I ι World ρ → Config I ι World ρ → Prop :=
  Relation.ReflTransGen S.Step

/-- The worlds a job that dies now leaves behind. -/
def LeavesBehind (c : Config I ι World ρ) (w : World) : Prop :=
  w = c.world ∨ ∃ op args next, c.Calls op args next ∧ S.Torn c.world op args w

/-- What has to hold at a collective call. -/
abbrev CallCondition (I : Interface) (ι World : Type) : Type :=
  World → (op : I.Op) → (ι → I.Arg op) → Prop

/-- Total correctness of a job, over its runs. -/
structure Correct (allowed : CallCondition I ι World) (inv aborted : World → Prop)
    (post : (ι → ρ) → World → Prop) (start : Config I ι World ρ) : Prop where
  terminates : Acc (fun c' c => S.Step c c') start
  live : ∀ c, S.Reaches start c → (∃ r, c.Returned r) ∨ c.Aborted ∨ ∃ c', S.Step c c'
  calls : ∀ c op args next, S.Reaches start c → c.Calls op args next → allowed c.world op args
  returned : ∀ c r, S.Reaches start c → c.Returned r → post r c.world
  aborted : ∀ c, S.Reaches start c → c.Aborted → aborted c.world
  stopped : ∀ c w, S.Reaches start c → S.LeavesBehind c w → inv w

/-- The proof rule: the ranks return in `post`, or abort in `aborted`, or make an allowed
round that can happen and after which the rule holds again; a job that dies leaves `inv`
behind. -/
inductive Ensures (allowed : CallCondition I ι World) (inv aborted : World → Prop)
    (post : (ι → ρ) → World → Prop) : World → (ι → Proc I ρ) → Prop where
  | returned {w : World} {p : ι → Proc I ρ} (r : ι → ρ) (hp : ∀ i, p i = .ret (r i))
      (hinv : inv w) (hpost : post r w) : Ensures allowed inv aborted post w p
  | aborted {w : World} {p : ι → Proc I ρ} (i : ι) (hp : p i = .abort) (hinv : inv w)
      (habort : aborted w) : Ensures allowed inv aborted post w p
  | round {w : World} {p : ι → Proc I ρ} (op : I.Op) (args : ι → I.Arg op)
      (next : ι → I.Reply op → Proc I ρ) (hp : ∀ i, p i = .call op (args i) (next i))
      (hallowed : allowed w op args)
      (hinv : inv w) (htorn : ∀ w', S.Torn w op args w' → inv w')
      (hlive : ∃ replies w', S.Round w op args replies w')
      (hnext : ∀ replies w', S.Round w op args replies w' →
        Ensures allowed inv aborted post w' fun i => next i (replies i)) :
      Ensures allowed inv aborted post w p

variable {S}

/-- A correct job that cannot abort returns. -/
theorem Correct.exists_returned {allowed : CallCondition I ι World} {inv : World → Prop}
    {post : (ι → ρ) → World → Prop} {start : Config I ι World ρ}
    (h : S.Correct allowed inv (fun _ => False) post start) :
    ∃ c r, S.Reaches start c ∧ c.Returned r ∧ post r c.world := by
  have hacc : ∀ c, Acc (fun c' c => S.Step c c') c → S.Reaches start c →
      ∃ c' r, S.Reaches start c' ∧ c'.Returned r := by
    intro c hc
    induction hc with
    | intro c _ ih =>
      intro hreach
      obtain ⟨r, hr⟩ | habort | ⟨c', hstep⟩ := h.live c hreach
      · exact ⟨c, r, hreach, hr⟩
      · exact (h.aborted c hreach habort).elim
      · exact ih c' hstep (hreach.tail hstep)
  obtain ⟨c, r, hreach, hr⟩ := hacc start h.terminates .refl
  exact ⟨c, r, hreach, hr, h.returned c r hreach hr⟩

theorem calls_unique [Nonempty ι] {c : Config I ι World ρ} {op op' : I.Op}
    {args : ι → I.Arg op} {args' : ι → I.Arg op'} {next : ι → I.Reply op → Proc I ρ}
    {next' : ι → I.Reply op' → Proc I ρ} (h : c.Calls op args next)
    (h' : c.Calls op' args' next') : ∃ heq : op = op', heq ▸ args = args' ∧ heq ▸ next = next' := by
  obtain ⟨i⟩ := ‹Nonempty ι›
  have hop : op = op' := (Proc.call.inj ((h i).symm.trans (h' i))).1
  subst hop
  have hcall := fun j => Proc.call.inj ((h j).symm.trans (h' j))
  refine ⟨rfl, ?_, ?_⟩
  · funext j
    exact eq_of_heq (hcall j).2.1
  · funext j
    exact eq_of_heq (hcall j).2.2

theorem not_calls_of_aborted {c : Config I ι World ρ} (h : c.Aborted) {op : I.Op}
    {args : ι → I.Arg op} {next : ι → I.Reply op → Proc I ρ} : ¬ c.Calls op args next := by
  intro hcall
  obtain ⟨i, hi⟩ := h
  have := hi.symm.trans (hcall i)
  contradiction

theorem not_calls_of_returned [Nonempty ι] {c : Config I ι World ρ} {r : ι → ρ}
    (h : c.Returned r) {op : I.Op} {args : ι → I.Arg op} {next : ι → I.Reply op → Proc I ρ} :
    ¬ c.Calls op args next := by
  intro hcall
  obtain ⟨i⟩ := ‹Nonempty ι›
  have := (h i).symm.trans (hcall i)
  contradiction

namespace Ensures

variable {allowed : CallCondition I ι World} {inv aborted : World → Prop}
  {post : (ι → ρ) → World → Prop} {w : World} {p : ι → Proc I ρ}

theorem inv_here (h : S.Ensures allowed inv aborted post w p) : inv w := by
  cases h with
  | returned _ _ hinv _ => exact hinv
  | aborted _ _ hinv _ => exact hinv
  | round _ _ _ _ _ hinv _ _ _ => exact hinv

/-- **Sequencing.** -/
theorem bind {mid : (ι → ρ) → World → Prop} {post : (ι → σ) → World → Prop}
    {f : ι → ρ → Proc I σ} (h : S.Ensures allowed inv aborted mid w p)
    (hf : ∀ r w', mid r w' → inv w' → S.Ensures allowed inv aborted post w' fun i => f i (r i)) :
    S.Ensures allowed inv aborted post w fun i => (p i).bind (f i) := by
  induction h with
  | returned r hp hinv hpost =>
    have := hf r _ hpost hinv
    simpa only [hp, Proc.bind] using this
  | aborted i hp hinv habort =>
    refine .aborted i ?_ hinv habort
    simp only [hp, Proc.bind]
  | round op args next hp hallowed hinv htorn hlive hnext ih =>
    refine .round op args (fun i reply => (next i reply).bind (f i)) ?_ hallowed hinv htorn hlive ?_
    · intro i
      simp only [hp, Proc.bind]
    · intro replies w' hround
      exact ih replies w' hround

theorem mono {post' : (ι → ρ) → World → Prop} {aborted' : World → Prop}
    (h : S.Ensures allowed inv aborted post w p) (ha : ∀ w', aborted w' → aborted' w')
    (hp : ∀ r w', post r w' → post' r w') : S.Ensures allowed inv aborted' post' w p := by
  induction h with
  | returned r hret hinv hpost => exact .returned r hret hinv (hp r _ hpost)
  | aborted i hret hinv habort => exact .aborted i hret hinv (ha _ habort)
  | round op args next hcall hallowed hinv htorn hlive hnext ih =>
    exact .round op args next hcall hallowed hinv htorn hlive ih

/-- One collective call, then the rest. -/
theorem perform {op : I.Op} {args : ι → I.Arg op} {post : (ι → I.Reply op) → World → Prop}
    (hallowed : allowed w op args) (hinv : inv w)
    (htorn : ∀ w', S.Torn w op args w' → inv w')
    (hlive : ∃ replies w', S.Round w op args replies w')
    (hpost : ∀ replies w', S.Round w op args replies w' → inv w' ∧ post replies w') :
    S.Ensures allowed inv aborted post w fun i => Proc.perform op (args i) := by
  refine .round op args (fun _ => .ret) (fun _ => rfl) hallowed hinv htorn hlive ?_
  intro replies w' hround
  obtain ⟨hinv', hpost'⟩ := hpost replies w' hround
  exact .returned replies (fun _ => rfl) hinv' hpost'

/-- The rule holds again after a round. -/
theorem step [Nonempty ι] {c' : Config I ι World ρ} (h : S.Ensures allowed inv aborted post w p)
    (hstep : S.Step ⟨w, p⟩ c') : S.Ensures allowed inv aborted post c'.world c'.procs := by
  obtain ⟨op, args, next, replies, hcalls, hround, hprocs⟩ := hstep
  cases h with
  | returned r hp hinv hpost =>
    exact absurd hcalls (not_calls_of_returned (c := ⟨w, p⟩) hp)
  | aborted i hp hinv habort =>
    exact absurd hcalls (not_calls_of_aborted (c := ⟨w, p⟩) ⟨i, hp⟩)
  | round op' args' next' hp hallowed hinv htorn hlive hnext =>
    obtain ⟨rfl, rfl, rfl⟩ := calls_unique (c := ⟨w, p⟩) hcalls hp
    rw [hprocs]
    exact hnext replies _ hround

/-- **What the rule means.**  A job the rule holds for is totally correct. -/
theorem correct [Nonempty ι] (h : S.Ensures allowed inv aborted post w p) :
    S.Correct allowed inv aborted post ⟨w, p⟩ := by
  have hreach : ∀ c, S.Reaches ⟨w, p⟩ c → S.Ensures allowed inv aborted post c.world c.procs := by
    intro c hc
    induction hc with
    | refl => exact h
    | tail _ hstep ih => exact ih.step hstep
  constructor
  case terminates =>
    clear hreach
    induction h with
    | returned r hp hinv hpost =>
      refine ⟨_, fun c' hstep => ?_⟩
      obtain ⟨op, args, next, replies, hcalls, _⟩ := hstep
      exact absurd hcalls (not_calls_of_returned (c := ⟨_, _⟩) hp)
    | aborted i hp hinv habort =>
      refine ⟨_, fun c' hstep => ?_⟩
      obtain ⟨op, args, next, replies, hcalls, _⟩ := hstep
      exact absurd hcalls (not_calls_of_aborted (c := ⟨_, _⟩) ⟨i, hp⟩)
    | round op args next hp hallowed hinv htorn hlive hnext ih =>
      refine ⟨_, fun c' hstep => ?_⟩
      obtain ⟨op', args', next', replies, hcalls, hround, hprocs⟩ := hstep
      obtain ⟨rfl, rfl, rfl⟩ := calls_unique (c := ⟨_, _⟩) hcalls hp
      obtain ⟨world, procs⟩ := c'
      cases hprocs
      exact ih replies world hround
  case live =>
    intro c hc
    cases hreach c hc with
    | returned r hp hinv hpost => exact Or.inl ⟨r, hp⟩
    | aborted i hp hinv habort => exact Or.inr (Or.inl ⟨i, hp⟩)
    | round op args next hp hallowed hinv htorn hlive hnext =>
      obtain ⟨replies, w', hround⟩ := hlive
      exact Or.inr (Or.inr ⟨⟨w', fun i => next i (replies i)⟩, op, args, next, replies, hp,
        hround, rfl⟩)
  case calls =>
    intro c op args next hc hcalls
    cases hreach c hc with
    | returned r hp hinv hpost => exact absurd hcalls (not_calls_of_returned hp)
    | aborted i hp hinv habort => exact absurd hcalls (not_calls_of_aborted ⟨i, hp⟩)
    | round op' args' next' hp hallowed hinv htorn hlive hnext =>
      obtain ⟨rfl, rfl, rfl⟩ := calls_unique hcalls hp
      exact hallowed
  case returned =>
    intro c r hc hr
    cases hreach c hc with
    | returned r' hp hinv hpost =>
      have : r = r' := by
        funext i
        exact Proc.ret.inj ((hr i).symm.trans (hp i))
      rwa [this]
    | aborted i hp hinv habort =>
      have := (hr i).symm.trans hp
      contradiction
    | round op args next hp hallowed hinv htorn hlive hnext =>
      exact absurd hp (not_calls_of_returned hr)
  case aborted =>
    intro c hc ha
    cases hreach c hc with
    | returned r hp hinv hpost =>
      obtain ⟨i, hi⟩ := ha
      have := hi.symm.trans (hp i)
      contradiction
    | aborted i hp hinv habort => exact habort
    | round op args next hp hallowed hinv htorn hlive hnext =>
      exact absurd hp (not_calls_of_aborted ha)
  case stopped =>
    intro c w' hc hleft
    have hens := hreach c hc
    cases hleft with
    | inl heq => exact heq ▸ hens.inv_here
    | inr htorn =>
      obtain ⟨op, args, next, hcalls, htorn⟩ := htorn
      cases hens with
      | returned r hp hinv hpost => exact absurd hcalls (not_calls_of_returned hp)
      | aborted i hp hinv habort => exact absurd hcalls (not_calls_of_aborted ⟨i, hp⟩)
      | round op' args' next' hp hallowed hinv htorn' hlive hnext =>
        obtain ⟨rfl, rfl, rfl⟩ := calls_unique hcalls hp
        exact htorn' w' htorn

end Ensures

end Semantics

/-! ## Programs with errors -/

/-- A rank program that may return an error early. -/
abbrev Fallible (I : Interface) (ε : Type) : Type → Type := ExceptT ε (Proc I)

namespace Fallible

variable {I : Interface} {ε ρ σ : Type}

/-- One collective call. -/
def perform (op : I.Op) (arg : I.Arg op) : Fallible I ε (I.Reply op) :=
  ExceptT.lift (Proc.perform op arg)

/-- A local result. -/
def ofExcept (r : Except ε ρ) : Fallible I ε ρ := ExceptT.mk (Proc.ret r)

theorem ofExcept_ok_bind (x : ρ) (f : ρ → Fallible I ε σ) :
    (ofExcept (.ok x) >>= f : Fallible I ε σ) = f x := rfl

end Fallible

namespace Semantics.Ensures

variable {I : Interface} {ι World ε ρ σ : Type} {S : Semantics I ι World}
  {allowed : CallCondition I ι World} {inv aborted : World → Prop}
  {post : (ι → Except ε σ) → World → Prop} {w : World}

/-- Every rank succeeded, or every rank failed. -/
def Agreed (r : ι → Except ε ρ) : Prop :=
  (∃ x : ι → ρ, r = fun i => .ok (x i)) ∨ ∃ e : ι → ε, r = fun i => .error (e i)

/-- A collective call, followed up for every reply. -/
theorem perform_bind {op : I.Op} {args : ι → I.Arg op}
    {f : ι → I.Reply op → Fallible I ε σ} (hallowed : allowed w op args) (hinv : inv w)
    (htorn : ∀ w', S.Torn w op args w' → inv w')
    (hlive : ∃ replies w', S.Round w op args replies w')
    (hnext : ∀ replies w', S.Round w op args replies w' →
      S.Ensures allowed inv aborted post w' fun i => (f i (replies i)).run) :
    S.Ensures allowed inv aborted post w fun i => (Fallible.perform op (args i) >>= f i).run :=
  .round op args (fun i reply => (f i reply).run) (fun _ => rfl) hallowed hinv htorn hlive hnext

/-- **Sequencing after an agreement.**  If the ranks agree on success, only the two unanimous
outcomes are to be followed up. -/
theorem bind_agreed {p : ι → Fallible I ε ρ} {f : ι → ρ → Fallible I ε σ}
    {mid : (ι → Except ε ρ) → World → Prop}
    (h : S.Ensures allowed inv aborted mid w fun i => (p i).run)
    (hagreed : ∀ r w', mid r w' → Agreed r)
    (hok : ∀ (x : ι → ρ) w', mid (fun i => .ok (x i)) w' → inv w' →
      S.Ensures allowed inv aborted post w' fun i => (f i (x i)).run)
    (herror : ∀ (e : ι → ε) w', mid (fun i => .error (e i)) w' → inv w' →
      post (fun i => .error (e i)) w') :
    S.Ensures allowed inv aborted post w fun i => (p i >>= f i).run := by
  refine bind (f := fun i r => match r with
    | .ok x => (f i x).run
    | .error e => .ret (.error e)) h ?_
  intro r w' hmid hinv
  cases hagreed r w' hmid with
  | inl hall =>
    obtain ⟨x, rfl⟩ := hall
    exact hok x w' hmid hinv
  | inr hnone =>
    obtain ⟨e, rfl⟩ := hnone
    exact .returned _ (fun _ => rfl) hinv (herror e w' hmid hinv)

theorem pure {x : ι → σ} (hinv : inv w) (hpost : post (fun i => .ok (x i)) w) :
    S.Ensures allowed inv aborted post w fun i => (Pure.pure (x i) : Fallible I ε σ).run :=
  .returned _ (fun _ => rfl) hinv hpost

end Semantics.Ensures

end PencilRs.Computation
