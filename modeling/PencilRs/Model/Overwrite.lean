import PencilRs.Model.Overlap

/-!
# Reading and writing an array with several layouts

The caller reads the active layout, edits its elements, replaces them by a write to some
layout, or takes the array apart; the transposes of this crate write through the same guard.
Only a guard changes the state.

SOURCE: pencil-array/src/many.rs
-/

set_option autoImplicit false

namespace PencilRs.Model

variable {N M : ℕ} {α ε π : Type}

/-- SOURCE: many.rs:9-20 -/
inductive OverwriteError (ε : Type) where
  | array (error : ArrayError)
  | writer (error : ε)
deriving Repr, DecidableEq

namespace ManyPencilArray

/-- `try_reserve_exact` of the storage may fail.

SOURCE: many.rs:89-112 -/
def fromElem (reserve : ℕ → Bool) (pencils : List (Pencil N M)) (active : ℕ)
    (extraShape : ExtraShape) (value : α) : Except ArrayError (ManyPencilArray α N M) :=
  match h : validateRegistry pencils active extraShape with
  | .error e => .error e
  | .ok required =>
    if reserve required then .ok {
        pencils, extraShape
        storage := List.replicate required value
        state := .valid active
        registry_ok := ⟨active, by rw [h, List.length_replicate]⟩
        state_ok := valid_state_ok h }
    else .error (.allocationFailed required)

/-- SOURCE: many.rs:133-135 -/
def intoStorage (array : ManyPencilArray α N M) : List α := array.storage

/-- The parts, or the error with the array.

SOURCE: many.rs:152-166 -/
def intoPartsPreserving (array : ManyPencilArray α N M) :
    Except (ArrayError × ManyPencilArray α N M)
      (List (Pencil N M) × ℕ × ExtraShape × List α) :=
  match array.activeIndex with
  | .error e => .error (e, array)
  | .ok active => .ok (array.pencils, active, array.extraShape, array.storage)

/-- SOURCE: many.rs:169-171 -/
def activePencil (array : ManyPencilArray α N M) : Except ArrayError (Pencil N M) := do
  let index ← array.activeIndex
  okOr array.pencils[index]? (.invalidActiveLayout index array.pencils.length)

/-- The view of a registered layout's prefix of the buffer: `view_mut` of the guard, and what
`active_view` and `active_view_mut` do with the active index.

SOURCE: many.rs:179-198, 297-304 -/
def viewOf (array : ManyPencilArray α N M) (index : ℕ) :
    Except ArrayError (PencilArrayView α N M) := do
  let usedLen ← array.layoutLen index
  let pencil ← okOr array.pencils[index]? (.invalidActiveLayout index array.pencils.length)
  PencilArrayView.fromSlice pencil array.extraShape (array.storage.take usedLen)

/-- SOURCE: many.rs:179-187 -/
def activeView (array : ManyPencilArray α N M) : Except ArrayError (PencilArrayView α N M) := do
  let index ← array.activeIndex
  array.viewOf index

end ManyPencilArray

/-- How an operation on the array ends. -/
inductive Ending (ε π : Type) where
  | done
  | failed (error : OverwriteError ε)
  | panicked (payload : Option π)
deriving Repr, DecidableEq

/-- A callback's outcome as the ending of the operation that ran it. -/
def CallbackOutcome.ending : CallbackOutcome ε π → Ending ε π
  | .ok => .done
  | .err error => .failed (.writer error)
  | .panic payload => .panicked payload

namespace ManyPencilArray

/-- Run a callback on the first `len` elements of the buffer. -/
def callOn (array : ManyPencilArray α N M) (len : ℕ) (callback : Callback α ε π) :
    ManyPencilArray α N M × CallbackOutcome ε π :=
  let (cells, outcome) := callback.run (array.storage.take len)
  match array.writeStorage (cells ++ array.storage.drop len) with
  | none => (array, .panic none)
  | some array => (array, outcome)

/-- Edit the elements of the active view; no guard is taken.

SOURCE: many.rs:190-198 -/
def editActive (array : ManyPencilArray α N M) (edit : Callback α ε π) :
    ManyPencilArray α N M × Ending ε π :=
  match array.activeView with
  | .error e => (array, .failed (.array e))
  | .ok view =>
    let (array, outcome) := array.callOn view.storage.length edit
    (array, outcome.ending)

/-- `LayoutWriteGuard::new`.

SOURCE: many.rs:277-280 -/
def poison (array : ManyPencilArray α N M) : ManyPencilArray α N M :=
  { array with
    state := .poisoned
    state_ok := poisoned_state_ok array }

/-- A guard that is dropped without a commit leaves the array poisoned.

SOURCE: many.rs:215-230 -/
def overwriteWith (array : ManyPencilArray α N M) (target : Pencil N M)
    (write : Callback α ε π) : ManyPencilArray α N M × Ending ε π :=
  match array.findLayout target with
  | none => (array, .failed (.array .incompatiblePencils))
  | some targetIndex =>
    let guard := array.poison
    match guard.viewOf targetIndex with
    | .error e => (guard, .failed (.array e))
    | .ok view =>
      let (guard, outcome) := guard.callOn view.storage.length write
      match outcome with
      | .ok =>
        match guard.commit targetIndex with
        | .ok array => (array, .done)
        | .error e => (guard, .failed (.array e))
      | outcome => (guard, outcome.ending)

/-- An in-place transition of this crate: `begin_in_place_write`, stores through
`storage_mut`, and at the end `commit`, unless the writer returns early or panics.

SOURCE: local_transpose.rs:239-256, transpose.rs:556-580 -/
def inPlaceTransition (array : ManyPencilArray α N M) (destinationIndex : ℕ)
    (write : Callback α ε π) : ManyPencilArray α N M × Ending ε π :=
  match array.beginInPlaceWrite with
  | .error e => (array, .failed (.array e))
  | .ok guard =>
    let (guard, outcome) := guard.callOn guard.storage.length write
    match outcome with
    | .ok =>
      match guard.commit destinationIndex with
      | .ok array => (array, .done)
      | .error e => (guard, .failed (.array e))
    | outcome => (guard, outcome.ending)

end ManyPencilArray

/-- What can be done with an array. -/
inductive ArrayOperation (α ε π : Type) (N M : ℕ) where
  | activePencil
  | activeView
  | editActive (edit : Callback α ε π)
  | overwriteWith (target : Pencil N M) (write : Callback α ε π)
  | inPlaceTransition (destinationIndex : ℕ) (write : Callback α ε π)

/-- A read leaves the array as it is. -/
def ManyPencilArray.read {β : Type} (array : ManyPencilArray α N M) :
    Except ArrayError β → ManyPencilArray α N M × Ending ε π
  | .ok _ => (array, .done)
  | .error e => (array, .failed (.array e))

namespace ArrayOperation

/-- The array after an operation, and how the operation ends. -/
def step (array : ManyPencilArray α N M) :
    ArrayOperation α ε π N M → ManyPencilArray α N M × Ending ε π
  | .activePencil => array.read array.activePencil
  | .activeView => array.read array.activeView
  | .editActive edit => array.editActive edit
  | .overwriteWith target write => array.overwriteWith target write
  | .inPlaceTransition destinationIndex write => array.inPlaceTransition destinationIndex write

/-- The array after some operations; an operation that fails or panics is followed by the
next one. -/
def run (array : ManyPencilArray α N M) (operations : List (ArrayOperation α ε π N M)) :
    ManyPencilArray α N M :=
  operations.foldl (fun array operation => (step array operation).1) array

end ArrayOperation

end PencilRs.Model
