import Mathlib.Data.Vector.Basic
import Mathlib.Order.Bounds.Defs
import PencilRs.Computation.Lockstep
import PencilRs.Model.Element

/-!
# Collective file calls

The ranks of a file call reduce a number, get bytes from rank zero, and make native calls
together.  A native call gives every rank an outcome of its own: one rank may see an error where
another sees none.

SOURCE: pencil-io/src/mpi_io.rs, ffi.rs
-/

set_option autoImplicit false

namespace PencilRs.Model

open PencilRs.Computation

inductive FileOp (N : Type) where
  | allReduceMin
  | allReduceMax
  | broadcast (len : ℕ)
  | native (op : N)

/-- Reductions and broadcasts besides the native operations of `N`.  A broadcast tells a rank
whether it succeeded and what is in the rank's bytes then. -/
abbrev fileInterface (N : Interface) : Interface where
  Op := FileOp N.Op
  Arg
    | .allReduceMin | .allReduceMax => ℤ
    | .broadcast len => List.Vector Byte len
    | .native op => N.Arg op
  Reply
    | .allReduceMin | .allReduceMax => ℤ
    | .broadcast len => Bool × List.Vector Byte len
    | .native op => N.Reply op

section Semantics

variable {N : Interface} {ι World : Type}

/-- The rounds on a communicator with rank zero `root`.  A broadcast that succeeds on a rank gives
it the bytes of the root; it may fail on any of them where `mayFail` holds. -/
def fileCollectives (root : ι) (natives : Semantics N ι World) (mayFail : Prop) :
    Semantics (fileInterface N) ι World where
  Round := fun w op args replies w' =>
    match op with
    | .allReduceMin => w' = w ∧ ∀ i, IsLeast (Set.range args) (replies i)
    | .allReduceMax => w' = w ∧ ∀ i, IsGreatest (Set.range args) (replies i)
    | .broadcast _ => w' = w ∧ (∀ i, (replies i).1 = true → (replies i).2 = args root) ∧
        (mayFail ∨ ∀ i, (replies i).1 = true)
    | .native op => natives.Round w op args replies w'
  Torn := fun w op args w' =>
    match op with
    | .native op => natives.Torn w op args w'
    | _ => False

end Semantics

abbrev FileProgram (N : Interface) (ε β : Type) : Type := Fallible (fileInterface N) (Stop ε) β

namespace FileProgram

variable {N : Interface} {ε β : Type}

/-- `?` on a local result. -/
def ofResult (result : Except ε β) : FileProgram N ε β :=
  Fallible.ofExcept (result.mapError .error)

/-- A value the source is sure to have. -/
def orPanic (value : Option β) : FileProgram N ε β := Fallible.ofExcept (okOr value .panic)

@[simp] theorem orPanic_some_bind {σ : Type} (value : β) (f : β → FileProgram N ε σ) :
    orPanic (some value) >>= f = f value := by
  unfold orPanic
  exact Fallible.ofExcept_ok_bind value f

def fail (e : ε) : FileProgram N ε β := Fallible.ofExcept (.error (.error e))

def allReduceMin (value : ℤ) : FileProgram N ε ℤ :=
  Fallible.perform (I := fileInterface N) .allReduceMin value

def allReduceMax (value : ℤ) : FileProgram N ε ℤ :=
  Fallible.perform (I := fileInterface N) .allReduceMax value

def native (op : N.Op) (arg : N.Arg op) : FileProgram N ε (N.Reply op) :=
  Fallible.perform (I := fileInterface N) (.native op) arg

end FileProgram

open FileProgram

variable {N : Interface}

/-- SOURCE: mpi_io.rs:995-1007 -/
def agreePhase (localOk : Bool) (phase : String) : FileProgram N IoError Unit := do
  let all ← allReduceMin (if localOk then 1 else 0)
  if all = 1 then return () else fail (.collectivePrecondition phase)

/-- SOURCE: ffi.rs:730-750 -/
def bcastBytes (bytes : List Byte) : FileProgram N IoError (Bool × List Byte) :=
  if bytes.length ≤ countMax then do
    let (ok, received) ← Fallible.perform (I := fileInterface N) (.broadcast bytes.length)
      ⟨bytes, rfl⟩
    return (ok, received.1)
  else return (false, bytes)

end PencilRs.Model
