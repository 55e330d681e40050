import PencilRs.Computation.Lockstep

/-!
# A program in a larger interface

The operations of one interface are found among those of another.  A program of the first is one of
the second, and what was proved of it holds there, as long as the operations it uses leave the
world alone and reply as they did.
-/

set_option autoImplicit false

namespace PencilRs.Computation

/-- The operations of `I` among those of `J`. -/
structure Interface.Into (I J : Interface) where
  op : I.Op → J.Op
  arg : ∀ o, I.Arg o → J.Arg (op o)
  reply : ∀ o, J.Reply (op o) → I.Reply o

variable {I J : Interface} {ι World ρ ε : Type}

/-- The same program with the operations of `J`. -/
def Proc.into (e : I.Into J) : Proc I ρ → Proc J ρ
  | ret r => ret r
  | call op arg next => call (e.op op) (e.arg op arg) fun reply => (next (e.reply op reply)).into e
  | abort => abort

def Fallible.into (e : I.Into J) (p : Fallible I ε ρ) : Fallible J ε ρ := ExceptT.mk (p.run.into e)

namespace Semantics

variable {S : Semantics I ι Unit} {T : Semantics J ι World}

/-- In the world `w`, the operations of `I` among those of `J` behave as in `S`. -/
structure Follows (e : I.Into J) (S : Semantics I ι Unit) (T : Semantics J ι World) (w : World) :
    Prop where
  round : ∀ op (args : ι → I.Arg op) replies w',
    T.Round w (e.op op) (fun i => e.arg op (args i)) replies w' →
    w' = w ∧ S.Round () op args (fun i => e.reply op (replies i)) ()
  live : ∀ op (args : ι → I.Arg op), (∃ replies, S.Round () op args replies ()) →
    ∃ replies w', T.Round w (e.op op) (fun i => e.arg op (args i)) replies w'
  torn : ∀ op (args : ι → I.Arg op) w', T.Torn w (e.op op) (fun i => e.arg op (args i)) w' → w' = w

/-- **Translation.**  What holds of a program in its own interface holds in the larger one. -/
theorem Ensures.into {e : I.Into J} {w : World} (hfollows : Follows e S T w)
    {inv aborted : World → Prop} {invFirst : Unit → Prop} {post : (ι → ρ) → Unit → Prop}
    {p : ι → Proc I ρ} {start : Unit} (hinv : inv w)
    (h : S.Ensures (fun _ _ _ => True) invFirst (fun _ => False) post start p) :
    T.Ensures (fun _ _ _ => True) inv aborted (fun r w' => w' = w ∧ post r ()) w
      fun i => (p i).into e := by
  induction h with
  | returned r hp _ hpost =>
    refine .returned r (fun i => ?_) hinv ⟨rfl, hpost⟩
    rw [hp]
    rfl
  | aborted i _ _ habort => exact habort.elim
  | round op args next hp _ _ _ hlive _ ih =>
    refine .round (e.op op) (fun i => e.arg op (args i))
      (fun i reply => (next i (e.reply op reply)).into e) (fun i => ?_) trivial hinv ?_ ?_ ?_
    · rw [hp]
      rfl
    · intro w' htorn
      rw [hfollows.torn op args w' htorn]
      exact hinv
    · obtain ⟨replies, _, hround⟩ := hlive
      exact hfollows.live op args ⟨replies, hround⟩
    · intro replies w' hround
      obtain ⟨rfl, hsame⟩ := hfollows.round op args replies w' hround
      exact ih _ () hsame

end Semantics

end PencilRs.Computation
