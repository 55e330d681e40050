import PencilRs.Model.FftRoute
import PencilRs.Model.Overwrite

/-!
# Permuting the local block

Two layouts of one distribution hold the same elements on each rank, in different orders.  The
block is copied to a workspace and written back, element by element.

SOURCE: pencil-array/src/local_transpose.rs
-/

set_option autoImplicit false

namespace PencilRs.Model

open PencilRs.Computation

variable {N M : ℕ} {α : Type}

/-- One axis of the loop that takes a number apart. -/
def splitAxis (shape : Fin N → ℕ) (state : (Fin N → ℕ) × ℕ) (axis : Fin N) :
    Option ((Fin N → ℕ) × ℕ) := do
  let (indices, remainder) := state
  let index ← checkedRem remainder (shape axis)
  let remainder ← checkedDiv remainder (shape axis)
  some (Function.update indices axis index, remainder)

/-- The places of an element of the block in two layouts.

SOURCE: local_transpose.rs:301-341 -/
def logicalOffsets (source destination : Pencil N M) (linear : ℕ) :
    Except (Stop ArrayError) (ℕ × ℕ) := do
  let localLen := source.localLen
  let spatialLinear ← okOr (checkedRem linear localLen) .panic
  let extraLinear ← okOr (checkedDiv linear localLen) .panic
  let (spatialIndices, _) ← okOr ((List.finRange N).reverse.foldlM
    (splitAxis source.localShapeLogical) ((fun _ => 0), spatialLinear)) .panic
  let offsetIn (pencil : Pencil N M) : Except (Stop ArrayError) ℕ :=
    (rowMajorOffset (List.ofFn pencil.localShapeMemory)
      (List.ofFn (pencil.permutation.permute spatialIndices))).mapError fun e =>
        .error (.geometry e)
  let sourceSpatialOffset ← offsetIn source
  let destinationSpatialOffset ← offsetIn destination
  let sourceOffset ← okOr ((checkedMul extraLinear source.localLen).bind fun base =>
    checkedAdd base sourceSpatialOffset) (.error (.geometry .sizeOverflow))
  let destinationOffset ← okOr ((checkedMul extraLinear destination.localLen).bind fun base =>
    checkedAdd base destinationSpatialOffset) (.error (.geometry .sizeOverflow))
  return (sourceOffset, destinationOffset)

namespace LocalTransposePlan

variable (plan : LocalTransposePlan N M)

/-- An array error of the transpose. -/
def ofArray {β : Type} (result : Except (Stop ArrayError) β) :
    Except (Stop LocalTransposeError) β :=
  result.mapError fun
    | .error e => .error (.array e)
    | .panic => .panic

/-- SOURCE: local_transpose.rs:258-274 -/
def validateInPlace (array : ManyPencilArray α N M) :
    Except (Stop LocalTransposeError) (ℕ × ℕ) := do
  let sourceIndex ← array.activeIndex.mapError fun e => .error (.array e)
  let active ← okOr array.pencils[sourceIndex]? .panic
  ensure (active.sameLayout plan.source) (.error .sourceLayoutMismatch)
  let destinationIndex ←
    okOr (array.findLayout plan.destination) (.error .destinationLayoutMismatch)
  let required ← (checkedProduct [plan.source.localLen, array.extraShape.elementCount]).mapError
    fun e => .error (.array (.geometry e))
  return (destinationIndex, required)

/-- SOURCE: local_transpose.rs:276-298 -/
def validateSource (source : PencilArrayView α N M) (required : ℕ) :
    Except (Stop LocalTransposeError) Unit := do
  ensure (source.storage.length = required)
    (.error (.array (.storageLengthMismatch required source.storage.length)))
  (List.range required).foldlM (fun _ linear => do
    let (sourceOffset, destinationOffset) ←
      ofArray (logicalOffsets plan.source plan.destination linear)
    ensure (sourceOffset < source.storage.length && destinationOffset < required)
      (.error (.array (.storageLengthMismatch required (min source.storage.length required)))))
    ()

/-- One element of the loop that writes the block back. -/
def writeStep (staged storage : List α) (linear : ℕ) :
    Except (Stop LocalTransposeError) (List α) := do
  let (sourceOffset, destinationOffset) ←
    ofArray (logicalOffsets plan.source plan.destination linear)
  ensure (destinationOffset < storage.length) .panic
  let value ← okOr staged[sourceOffset]? .panic
  return storage.set destinationOffset value

/-- SOURCE: local_transpose.rs:239-256 -/
def writeStagedInPlace (array : ManyPencilArray α N M) (destinationIndex required : ℕ)
    (staged : List α) : Except (Stop LocalTransposeError) (ManyPencilArray α N M) := do
  let guard ← array.beginInPlaceWrite.mapError fun e => .error (.array e)
  let storage ← (List.range required).foldlM (plan.writeStep staged) guard.storage
  let guard ← okOr (guard.writeStorage storage) .panic
  (guard.commit destinationIndex).mapError fun e => .error (.array e)

/-- SOURCE: local_transpose.rs:204-232 -/
def executeInPlaceWithTransposeWorkspace (array : ManyPencilArray α N M)
    (workspace : TransposeWorkspace α) :
    Except (Stop LocalTransposeError) (ManyPencilArray α N M) := do
  let (destinationIndex, required) ← plan.validateInPlace array
  ensure (required ≤ workspace.sendBuffer.length)
    (.error (.scratchTooSmall required workspace.sendBuffer.length))
  let source ← array.activeView.mapError fun e => .error (.array e)
  plan.validateSource source required
  let staged := source.storage ++ (workspace.sendBuffer.take required).drop source.storage.length
  plan.writeStagedInPlace array destinationIndex required staged

/-! ## What a call leaves behind -/

/-- The loop that writes, with the storage as it is where the loop stops. -/
def writeLoop (staged : List α) :
    List ℕ → List α → List α × Except (Stop LocalTransposeError) Unit
  | [], storage => (storage, .ok ())
  | linear :: rest, storage =>
    match plan.writeStep staged storage linear with
    | .error e => (storage, .error e)
    | .ok storage => writeLoop staged rest storage

/-- The checks of `execute_views`; the number of elements it writes.

SOURCE: local_transpose.rs:90-125 -/
def validateViews (source destination : PencilArrayView α N M) :
    Except (Stop LocalTransposeError) ℕ := do
  ensure (source.pencil.sameLayout plan.source) (.error .sourceLayoutMismatch)
  ensure (destination.pencil.sameLayout plan.destination) (.error .destinationLayoutMismatch)
  ensure (source.extraShape = destination.extraShape) (.error .extraShapeMismatch)
  let required ← (checkedProduct [plan.source.localLen, source.extraShape.elementCount]).mapError
    fun e => .error (.array (.geometry e))
  ensure (source.storage.length = required)
    (.error (.array (.storageLengthMismatch required source.storage.length)))
  ensure (destination.storage.length = required)
    (.error (.array (.storageLengthMismatch required destination.storage.length)))
  (List.range required).foldlM (fun _ linear => do
    let (sourceOffset, destinationOffset) ←
      ofArray (logicalOffsets plan.source plan.destination linear)
    ensure (sourceOffset < source.storage.length && destinationOffset < destination.storage.length)
      (.error (.array (.storageLengthMismatch required
        (min source.storage.length destination.storage.length))))) ()
  return required

/-- The destination's elements after the call.

SOURCE: local_transpose.rs:85-136 -/
def executeViews (source destination : PencilArrayView α N M) :
    List α × Except (Stop LocalTransposeError) Unit :=
  match plan.validateViews source destination with
  | .error e => (destination.storage, .error e)
  | .ok required => plan.writeLoop source.storage (List.range required) destination.storage

/-- A guard that is dropped without a commit leaves the array poisoned.

SOURCE: local_transpose.rs:239-256 -/
def writeStaged (array : ManyPencilArray α N M) (destinationIndex required : ℕ)
    (staged : List α) : ManyPencilArray α N M × Except (Stop LocalTransposeError) Unit :=
  match array.beginInPlaceWrite with
  | .error e => (array, .error (.error (.array e)))
  | .ok guard =>
    let (storage, result) := plan.writeLoop staged (List.range required) guard.storage
    match guard.writeStorage storage, result with
    | none, _ => (guard, .error .panic)
    | some guard, .error e => (guard, .error e)
    | some guard, .ok () =>
      match guard.commit destinationIndex with
      | .error e => (guard, .error (.error (.array e)))
      | .ok array => (array, .ok ())

end LocalTransposePlan

/-- A vector and its room. -/
structure Scratch (α : Type) where
  values : List α
  capacity : ℕ
  fits : values.length ≤ capacity

namespace Scratch

/-- `Vec::clear` keeps the room. -/
def clear (scratch : Scratch α) : Scratch α :=
  ⟨[], scratch.capacity, Nat.zero_le scratch.capacity⟩

/-- `Vec::push`; a full vector grows first. -/
def push (scratch : Scratch α) (value : α) : Scratch α :=
  ⟨scratch.values ++ [value], max scratch.capacity (scratch.values.length + 1), by
    rw [List.length_append, List.length_singleton]
    exact Nat.le_max_right _ _⟩

end Scratch

/-- `clone_from` on each of the slots, as far as there are values. -/
def cloneInto (slots values : List α) : List α :=
  values.take slots.length ++ slots.drop values.length

namespace LocalTransposePlan

variable (plan : LocalTransposePlan N M)

/-- The scratch too small or the source not valid, or the view of it that is staged. -/
def stagedSource (array : ManyPencilArray α N M) (room : ℕ) :
    Except (Stop LocalTransposeError) (ℕ × ℕ × PencilArrayView α N M) := do
  let (destinationIndex, required) ← plan.validateInPlace array
  ensure (required ≤ room) (.error (.scratchTooSmall required room))
  let source ← array.activeView.mapError fun e => .error (.array e)
  plan.validateSource source required
  return (destinationIndex, required, source)

/-- The array and the scratch after the call.

SOURCE: local_transpose.rs:170-193 -/
def executeInPlace (array : ManyPencilArray α N M) (scratch : Scratch α) :
    ManyPencilArray α N M × Scratch α × Except (Stop LocalTransposeError) Unit :=
  match plan.stagedSource array scratch.capacity with
  | .error e => (array, scratch, .error e)
  | .ok (destinationIndex, required, source) =>
    let scratch := source.storage.foldl Scratch.push scratch.clear
    if required ≤ scratch.values.length then
      let (array, result) :=
        plan.writeStaged array destinationIndex required (scratch.values.take required)
      (array, scratch, result)
    else (array, scratch, .error .panic)

/-- The array and the workspace after the call.

SOURCE: local_transpose.rs:204-232 -/
def executeInPlaceInWorkspace (array : ManyPencilArray α N M) (workspace : TransposeWorkspace α) :
    ManyPencilArray α N M × TransposeWorkspace α × Except (Stop LocalTransposeError) Unit :=
  match plan.stagedSource array workspace.sendBuffer.length with
  | .error e => (array, workspace, .error e)
  | .ok (destinationIndex, required, source) =>
    let sent := cloneInto (workspace.sendBuffer.take required) source.storage
    let workspace := { workspace with sendBuffer := sent ++ workspace.sendBuffer.drop required }
    let (array, result) :=
      plan.writeStaged array destinationIndex required (workspace.sendBuffer.take required)
    (array, workspace, result)

end LocalTransposePlan

end PencilRs.Model
