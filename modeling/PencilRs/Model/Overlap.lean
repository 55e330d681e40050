import PencilRs.Model.Transport

/-!
# The in-place transpose with a callback

The callback runs on the unpacked destination while the sends are still outstanding.  From
packing on, the array is poisoned; it is committed only where the callback succeeded on every
rank.

SOURCE: pencil-array/src/point_to_point_transpose.rs, transpose.rs
-/

set_option autoImplicit false

namespace PencilRs.Model

open PencilRs.Computation

variable {N M : ℕ} {α β ε π σ : Type}

/-- SOURCE: transpose.rs:179-195 -/
inductive OverlapError (ε : Type) where
  | transpose (error : TransposeError)
  | callback (error : ε)
  | peerPanicked
  | peerCallbackFailed
  | collectivePreconditionFailed
deriving Repr, DecidableEq

/-- How a callback ends.  A panic carries its payload; `none` is a panic of the transpose
itself. -/
inductive CallbackOutcome (ε π : Type) where
  | ok
  | err (error : ε)
  | panic (payload : Option π)
deriving Repr, DecidableEq

/-- A callback on a slice: what it leaves in the slice, and how it ends. -/
structure Callback (α ε π : Type) where
  run : List α → List α × CallbackOutcome ε π
  length_run : ∀ cells, (run cells).1.length = cells.length

/-- Why a rank does not return `Ok`. -/
inductive CallbackStop (ε π : Type) where
  | error (e : OverlapError ε)
  | panic (payload : Option π)
deriving Repr, DecidableEq

/-- A rank that stops early leaves some state behind. -/
abbrev OverlapProgram (α : Type) (M : ℕ) (ε π σ β : Type) : Type :=
  Fallible (transport α M) (CallbackStop ε π × σ) β

namespace OverlapProgram

def ofStop : Stop (OverlapError ε) → CallbackStop ε π
  | .error e => .error e
  | .panic => .panic none

/-- Run a part of the program while the state is `state`. -/
def holding (state : σ) (p : RankProgram α M (OverlapError ε) β) :
    OverlapProgram α M ε π σ β :=
  p.adapt fun stop => (ofStop stop, state)

@[simp] theorem holding_orPanic_some_bind {γ : Type} (state : σ) (x : β)
    (f : β → OverlapProgram α M ε π σ γ) :
    holding state (RankProgram.orPanic (some x)) >>= f = f x := rfl

end OverlapProgram

open OverlapProgram

/-- The status of a rank: the callback's outcome as a number.

SOURCE: point_to_point_transpose.rs:668-672 -/
def CallbackOutcome.status : CallbackOutcome ε π → ℕ
  | .ok => 0
  | .err _ => 1
  | .panic _ => 2

/-- The result of a rank whose callback ended in `outcome`, where the greatest status of all
ranks is `status`.

SOURCE: point_to_point_transpose.rs:679-685 -/
def callbackResult (outcome : CallbackOutcome ε π) (status : ℕ) : Except (CallbackStop ε π) Unit :=
  match outcome with
  | .ok =>
    if status = 0 then .ok ()
    else if status = 2 then .error (.error .peerPanicked)
    else .error (.error .peerCallbackFailed)
  | .err error =>
    if status = 1 then .error (.error (.callback error))
    else if status = 2 then .error (.error .peerPanicked)
    else .error (.error .peerCallbackFailed)
  | .panic payload => .error (.panic payload)

/-- `pack` and `callback` share a state: the one `pack` makes from `before`, or the one the
callback leaves.

SOURCE: point_to_point_transpose.rs:561-686 -/
def executePointToPointExchangeCallback (plan : TransposePlanCore N M)
    (preflight : Except (OverlapError ε) PreparedExchange) (reserve : RequestReservation)
    (workspace : TransposeWorkspace α) (extraCount : ℕ) (skipSelf : Bool) (before : σ)
    (begin : Option σ) (pack : σ → PreparedExchange → Buf α → Option (Buf α))
    (callback : σ → List α → σ × CallbackOutcome ε π) : OverlapProgram α M ε π σ σ := do
  let (prepared, skip) ← holding before do
    let selfPeer ← RankProgram.orPanic plan.selfPeer
    let prepared ← agreePreflightAndReservation preflight (reserveRequests reserve preflight)
      .collectivePreconditionFailed .collectivePreconditionFailed
    return (prepared, if skipSelf then some selfPeer.peerCoordinate else none)
  let state ← holding before (RankProgram.orPanic begin)
  let received ← holding state (packAndExchange plan skip prepared workspace
    (pack state prepared) extraCount)
  let (state, outcome) := callback state received
  let status ← Fallible.perform (I := transport α M) (.allReduceMax 1) fun _ => outcome.status
  Fallible.ofExcept ((callbackResult outcome (status 0)).mapError fun stop => (stop, state))
  return state

namespace PointToPointTranspose

/-- What runs on the received elements: unpack them into the buffer whose guard is held, then
the callback on the destination.

SOURCE: point_to_point_transpose.rs:369-384 -/
def unpackAndCall (plan : TransposePlanCore N M) (extraCount : ℕ) (callback : Callback α ε π)
    (guard : ManyPencilArray α N M) (received : List α) :
    ManyPencilArray α N M × CallbackOutcome ε π :=
  let len := received.length
  let unpacked := if len > guard.storage.length then none else
    unpackDestination plan.peers plan.destination (Buf.fresh guard.storage) len received extraCount
  match unpacked with
  | none => (guard, .panic none)
  | some buf =>
    let (cells, outcome) := callback.run (buf.cells.take len)
    match guard.writeStorage (cells ++ buf.cells.drop len) with
    | none => (guard, .panic none)
    | some guard => (guard, outcome)

/-- The result with the array, also where the rank stops early.

SOURCE: point_to_point_transpose.rs:319-393 -/
def executeInPlaceWithCallback (alloc : Allocator) (reserve : RequestReservation)
    (plan : TransposePlanCore N M) (array : ManyPencilArray α N M)
    (workspace : TransposeWorkspace α) (callback : Callback α ε π) :
    OverlapProgram α M ε π (ManyPencilArray α N M) (ManyPencilArray α N M) := do
  let extraCount := array.extraShape.elementCount
  let prepared := prepareInPlace alloc plan array workspace
  let guard ← executePointToPointExchangeCallback plan
    ((prepared.map PreparedInPlace.exchange).mapError .transpose) reserve workspace extraCount
    false array array.beginInPlaceWrite.toOption
    (fun guard exchange sendBuffer => packSource plan.peers plan.source guard.storage sendBuffer
      exchange.requirements.sendLen extraCount)
    (unpackAndCall plan extraCount callback)
  let destinationIndex ← holding guard
    (RankProgram.orPanic (prepared.toOption.map PreparedInPlace.destinationIndex))
  Fallible.ofExcept ((guard.commit destinationIndex).mapError fun error =>
    (.error (.transpose (.array error)), guard))

end PointToPointTranspose

end PencilRs.Model
