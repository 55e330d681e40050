import PencilRs.Model.Header

/-!
# The bytes of a block

A rank's block travels as a string of elements in canonical order: row-major order of the extra
axes followed by the spatial axes in logical order.  Packing walks this order and finds each
element in the permuted storage; decoding walks the storage and finds each element in the string.

Allocations may be refused, each on its own.  Where the source indexes a slice out of its bounds,
divides by zero or overflows, the rank panics.

SOURCE: pencil-io/src/format.rs
-/

set_option autoImplicit false

namespace PencilRs.Model

open PencilRs.Computation

variable {N M : ℕ}

/-! ## Canonical order -/

/-- SOURCE: format.rs:135-156 -/
def canonicalDimsWith (reserved : Bool) (extra : List ℕ) (spatial : Fin N → ℕ) :
    Except IoError (List ℕ) := do
  let rank ← okOr (checkedAdd extra.length N) (.sizeLimit "logical rank")
  ensure (rank ≠ 0 && rank ≤ maxProtocolRank) (.sizeLimit "logical rank")
  ensure reserved (.allocationFailed (rank * 8))
  return extra ++ List.ofFn spatial

/-- SOURCE: format.rs:127-133 -/
def canonicalDims (reserved : Bool) (extra : List ℕ) (pencil : Pencil N M) :
    Except IoError (List ℕ) :=
  canonicalDimsWith reserved extra pencil.localShapeLogical

/-- One axis of the loop of `set_indices`, from the last axis on. -/
def setIndex {ε : Type} (dims : List ℕ) (state : List ℕ × ℕ) (axis : ℕ) :
    Except (Stop ε) (List ℕ × ℕ) := do
  let (indices, remaining) := state
  ensure (dims.getD axis 0 ≠ 0 && axis < indices.length) .panic
  return (indices.set axis (remaining % dims.getD axis 0), remaining / dims.getD axis 0)

/-- SOURCE: format.rs:632-638 -/
def setIndices {ε : Type} (flat : ℕ) (dims indices : List ℕ) : Except (Stop ε) (List ℕ) := do
  let (indices, _) ← (List.range dims.length).reverse.foldlM (setIndex dims) (indices, flat)
  return indices

/-! ## Packing -/

/-- What the allocator grants to `pack_view`. -/
structure PackAllocator where
  dims : Bool
  packed : Bool
  indices : Bool
deriving Repr, DecidableEq

/-- One element of the loop of `pack_view`. -/
def packElement {scalar : ScalarType} (view : PencilArrayView scalar.Value N M) (dims : List ℕ)
    (state : List Byte × List ℕ) (flat : ℕ) : Except (Stop IoError) (List Byte × List ℕ) := do
  let (packed, indices) := state
  let extraRank := view.extraShape.dimensions.length
  let indices ← setIndices flat dims indices
  let value ← okOr (view.getLocal (indices.take extraRank)
    fun axis => indices.getD (extraRank + axis) 0)
    (.error (.invalidInput "view index was outside its validated storage"))
  return (packed ++ scalar.encodeLe value, indices)

/-- SOURCE: format.rs:168-207 -/
def packView {scalar : ScalarType} (alloc : PackAllocator)
    (view : PencilArrayView scalar.Value N M) : Except (Stop IoError) (List Byte) := do
  let dims ← (canonicalDims alloc.dims view.extraShape.dimensions view.pencil).mapError .error
  let elements ← (elementCount dims).mapError .error
  ensure (elements = view.storage.length)
    (.error (.invalidInput "view storage does not match logical shape"))
  let bytes ← okOr (checkedMul elements scalar.width) (.error (.sizeLimit "local payload bytes"))
  ensure alloc.packed (.error (.allocationFailed bytes))
  ensure alloc.indices (.error (.allocationFailed (dims.length * 8)))
  let (packed, _) ← (List.range elements).foldlM (packElement view dims)
    ([], List.replicate dims.length 0)
  ensure (packed.length = bytes) .panic
  return packed

/-! ## Decoding -/

/-- The element type is the one of the destination.

SOURCE: format.rs:213-223 -/
structure PhysicalDecodePlan (N : ℕ) where
  logicalDims : List ℕ
  physicalDims : List ℕ
  physicalIndices : List ℕ
  logicalSpatial : Fin N → ℕ
  memoryToLogical : Fin N → Fin N
  extraRank : ℕ
  elements : ℕ
  bytes : ℕ

/-- What the allocator grants to a plan. -/
structure DecodeAllocator where
  logicalDims : Bool
  physicalDims : Bool
  physicalIndices : Bool
deriving Repr, DecidableEq

/-- SOURCE: format.rs:246-297 -/
def preparePhysicalDecodeWith (alloc : DecodeAllocator) (width : ℕ) (extra : List ℕ)
    (logicalSpatial physicalSpatial : Fin N → ℕ) (memoryToLogical : Fin N → Fin N)
    (destinationLen : ℕ) (packed : List Byte) : Except IoError (PhysicalDecodePlan N) := do
  let logicalDims ← canonicalDimsWith alloc.logicalDims extra logicalSpatial
  let elements ← elementCount logicalDims
  let bytes ← okOr (checkedMul elements width) (.sizeLimit "local payload bytes")
  ensure (packed.length = bytes && destinationLen = elements) (.invalidFile "local staging length")
  ensure alloc.physicalDims (.allocationFailed (logicalDims.length * 8))
  let physicalDims := extra ++ List.ofFn physicalSpatial
  ensure alloc.physicalIndices (.allocationFailed (physicalDims.length * 8))
  return {
    logicalDims, physicalDims
    physicalIndices := List.replicate physicalDims.length 0
    logicalSpatial := fun _ => 0
    memoryToLogical
    extraRank := extra.length
    elements, bytes }

/-- SOURCE: format.rs:231-243, 461-480 -/
def preparePhysicalDecode {scalar : ScalarType} (alloc : DecodeAllocator)
    (view : PencilArrayView scalar.Value N M) (packed : List Byte) :
    Except IoError (PhysicalDecodePlan N) :=
  preparePhysicalDecodeWith alloc scalar.width view.extraShape.dimensions
    view.pencil.localShapeLogical view.pencil.localShapeMemory
    view.pencil.permutation.axesInMemoryOrder view.storage.length packed

namespace PhysicalDecodePlan

/-- The loop of `decode_at` that moves each index to its logical axis. -/
def scatterIndices (plan : PhysicalDecodePlan N) : PhysicalDecodePlan N :=
  { plan with
    logicalSpatial := (List.finRange N).foldl (fun table memoryAxis =>
      Function.update table (plan.memoryToLogical memoryAxis)
        (plan.physicalIndices.getD (plan.extraRank + memoryAxis) 0)) plan.logicalSpatial }

/-- The index on an axis of the canonical order. -/
def logicalIndex (plan : PhysicalDecodePlan N) (axis : ℕ) : ℕ :=
  if axis < plan.extraRank then plan.physicalIndices.getD axis 0
  else if h : axis - plan.extraRank < N then plan.logicalSpatial ⟨axis - plan.extraRank, h⟩
  else 0

/-- One axis of the loop of `decode_at` that numbers an element. -/
def logicalStep {ε : Type} (plan : PhysicalDecodePlan N) (flat : ℕ) (entry : ℕ × ℕ) :
    Except (Stop ε) ℕ :=
  let (extent, axis) := entry
  okOr (do
    let scaled ← checkedMul flat extent
    checkedAdd scaled (plan.logicalIndex axis)) .panic

/-- SOURCE: format.rs:351-377 -/
def decodeAt {ε : Type} (scalar : ScalarType) (plan : PhysicalDecodePlan N) (packed : List Byte)
    (physicalFlat : ℕ) : Except (Stop ε) (scalar.Value × PhysicalDecodePlan N) := do
  let physicalIndices ← setIndices physicalFlat plan.physicalDims plan.physicalIndices
  let plan := { plan with physicalIndices }.scatterIndices
  let logicalFlat ← plan.logicalDims.zipIdx.foldlM plan.logicalStep 0
  let start := logicalFlat * scalar.width
  let bytes ← okOr (slice? packed start (start + scalar.width)) .panic
  let value ← okOr (scalar.decodeLe bytes) .panic
  return (value, plan)

/-- One element of the loop of `decode_into`. -/
def decodeElement {ε : Type} {scalar : ScalarType} (packed : List Byte)
    (state : Buf scalar.Value × PhysicalDecodePlan N) (physicalFlat : ℕ) :
    Except (Stop ε) (Buf scalar.Value × PhysicalDecodePlan N) := do
  let (destination, plan) := state
  let (value, plan) ← plan.decodeAt scalar packed physicalFlat
  return (destination.put physicalFlat value, plan)

/-- SOURCE: format.rs:307-321 -/
def decodeInto {ε : Type} {scalar : ScalarType} (plan : PhysicalDecodePlan N) (packed : List Byte)
    (destination : Buf scalar.Value) : Except (Stop ε) (Buf scalar.Value) := do
  ensure (packed.length = plan.bytes) .panic
  ensure (destination.cells.length = plan.elements) .panic
  let (destination, _) ← (List.range destination.cells.length).foldlM (decodeElement packed)
    (destination, plan)
  return destination

end PhysicalDecodePlan

end PencilRs.Model
