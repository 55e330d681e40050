import PencilRs.Model.Descriptor
import PencilRs.Model.Overlap

/-!
# Planning and calling the transposes

Before planning, and before each use of a plan, the ranks compare a descriptor of what they are
about to do.  Only then do they run the programs of the transports.

SOURCE: pencil-array/src/transpose.rs, alltoallv_transpose.rs, point_to_point_transpose.rs
-/

set_option autoImplicit false

namespace PencilRs.Model

open PencilRs.Computation RankProgram

variable {N M : ℕ} {α ε π : Type}

/-! ## Operations -/

/-- SOURCE: transpose.rs:27 -/
def transposeSchema : BitVec 64 := 1

/-- SOURCE: transpose.rs:43 -/
def invalidAxis : BitVec 64 := BitVec.allOnes 64

namespace CommunicationMode

/-- SOURCE: transpose.rs:54-59 -/
def newOperation : CommunicationMode → BitVec 64
  | .allToAllv => 1
  | .pointToPoint => 4

/-- SOURCE: transpose.rs:68-73 -/
def inPlaceOperation : CommunicationMode → BitVec 64
  | .allToAllv => 3
  | .pointToPoint => 6

/-- SOURCE: transpose.rs:82-87 -/
def timedInPlaceOperation : CommunicationMode → BitVec 64
  | .allToAllv => 0x10005
  | .pointToPoint => 0x10003

/-- SOURCE: transpose.rs:96-101 -/
def callbackInPlaceOperation : CommunicationMode → BitVec 64
  | .allToAllv => 3
  | .pointToPoint => 0x10006

end CommunicationMode

/-! ## Descriptors -/

/-- Whether the buffers of a descriptor could be reserved: the descriptor, the paired words and
the reduced words. -/
structure DescriptorAllocator where
  descriptor : Bool
  paired : Bool
  reduced : Bool
deriving Repr, DecidableEq

/-- `value as u64` -/
def words64 (values : List ℕ) : List (BitVec 64) := values.map (BitVec.ofNat 64)

/-- SOURCE: transpose.rs:1423-1430 -/
def planDescriptorLen (N M : ℕ) : Option ℕ := do
  let topologyWords ← checkedMul M 4
  let spatialWords ← checkedMul N 4
  let length ← checkedAdd 5 topologyWords
  checkedAdd length spatialWords

/-- SOURCE: transpose.rs:1454-1473 -/
def pencilValues (pencil : Pencil N M) : List (BitVec 64) :=
  words64 (List.ofFn pencil.globalShape)
    ++ words64 (List.ofFn fun axis => (pencil.decomposition.axes axis : ℕ))
    ++ words64 (List.ofFn fun position => (pencil.permutation.axesInMemoryOrder position : ℕ))

/-- SOURCE: transpose.rs:1475-1489 -/
def changedAxisSentinel (source destination : Pencil N M) : BitVec 64 :=
  match (List.finRange M).filter fun axis =>
      source.decomposition.axes axis ≠ destination.decomposition.axes axis with
  | [axis] => BitVec.ofNat 64 axis
  | _ => invalidAxis

/-- The words `build_plan_descriptor` appends. -/
def planWords (source destination : Pencil N M) (operation : BitVec 64) : List (BitVec 64) :=
  [transposeSchema, operation, BitVec.ofNat 64 N, BitVec.ofNat 64 M,
      changedAxisSentinel source destination]
    ++ words64 (List.ofFn source.topology.processGrid)
    ++ words64 (List.ofFn destination.topology.processGrid)
    ++ pencilValues source ++ pencilValues destination

/-- A descriptor of the expected length. -/
def ofExpectedLength (reserved : Bool) (expectedLen : Option ℕ) (words : List (BitVec 64)) :
    Option (List (BitVec 64)) := do
  let length ← expectedLen
  if !reserved then none
  if words.length ≠ length then none else some words

/-- What this rank brings to the comparison before planning.

SOURCE: transpose.rs:325-345, 1432-1452 -/
def planProposal (alloc : DescriptorAllocator) (source destination : Pencil N M)
    (mode : CommunicationMode) : Proposal 64 where
  schema := transposeSchema
  operation := mode.newOperation
  spatialRank := BitVec.ofNat 64 N
  topologyRank := BitVec.ofNat 64 M
  expectedLen := planDescriptorLen N M
  descriptor := ofExpectedLength alloc.descriptor (planDescriptorLen N M)
    (planWords source destination mode.newOperation)
  reserved := (alloc.paired, alloc.reduced)

/-- The Rust type of the elements and the MPI type it is sent as. -/
structure ElementType where
  size : ℕ
  align : ℕ
  name : List (BitVec 8)
  mpiName : List (BitVec 8)
deriving Repr, DecidableEq

/-- SOURCE: transpose.rs:1585-1588 -/
def shapeWords (shape : ExtraShape) : List (BitVec 64) :=
  BitVec.ofNat 64 shape.dimensions.length :: words64 shape.dimensions

/-- SOURCE: transpose.rs:1590-1593 -/
def typeNameWords (name : List (BitVec 8)) : List (BitVec 64) :=
  BitVec.ofNat 64 name.length :: name.map fun byte => byte.setWidth 64

namespace TransposePlanCore

variable (plan : TransposePlanCore N M)

/-- The descriptor the plan keeps is the one its ranks agreed on. -/
def descriptor : List (BitVec 64) :=
  planWords plan.source plan.destination plan.mode.newOperation

/-- SOURCE: transpose.rs:1530-1557 -/
def executeDescriptorLen (T : ElementType) (sourceExtraShape destinationExtraShape : ExtraShape) :
    Option ℕ :=
  [plan.descriptor.length, 1 + sourceExtraShape.dimensions.length,
    1 + destinationExtraShape.dimensions.length, 2, 1 + T.name.length, 1 + T.mpiName.length].foldlM
    checkedAdd 4

/-- The words `build_execute_descriptor` appends. -/
def executeWords (T : ElementType) (sourceExtraShape destinationExtraShape : ExtraShape)
    (operation : BitVec 64) : List (BitVec 64) :=
  [transposeSchema, operation, BitVec.ofNat 64 N, BitVec.ofNat 64 M] ++ plan.descriptor
    ++ shapeWords sourceExtraShape ++ shapeWords destinationExtraShape
    ++ [BitVec.ofNat 64 T.size, BitVec.ofNat 64 T.align]
    ++ typeNameWords T.name ++ typeNameWords T.mpiName

/-- What this rank brings to the comparison before it uses the plan.

SOURCE: transpose.rs:1493-1528, 1559-1583 -/
def executeProposal (alloc : DescriptorAllocator) (T : ElementType)
    (sourceExtraShape destinationExtraShape : ExtraShape) (operation : BitVec 64) :
    Proposal 64 where
  schema := transposeSchema
  operation := operation
  spatialRank := BitVec.ofNat 64 N
  topologyRank := BitVec.ofNat 64 M
  expectedLen := plan.executeDescriptorLen T sourceExtraShape destinationExtraShape
  descriptor := ofExpectedLength alloc.descriptor
    (plan.executeDescriptorLen T sourceExtraShape destinationExtraShape)
    (plan.executeWords T sourceExtraShape destinationExtraShape operation)
  reserved := (alloc.paired, alloc.reduced)

end TransposePlanCore

/-! ## Planning -/

/-- What the allocator of this rank grants while a plan is built. -/
structure PlanAllocator where
  descriptor : DescriptorAllocator
  peers : Allocator

/-- The collective constructor of both transposes.  The results the ranks agree on are the ones
`TransposePlanCore.new` puts together.

SOURCE: transpose.rs:318-369, alltoallv_transpose.rs:65-72, point_to_point_transpose.rs:73-80 -/
def newTransposePlan (alloc : PlanAllocator) (source destination : Pencil N M)
    (mode : CommunicationMode) : RankProgram α M TransposeError (TransposePlanCore N M) := do
  let _ ← agreeExecuteDescriptor (planProposal alloc.descriptor source destination mode)
  let changedTopologyAxis ← agreePreflight (validatePlanLayout source destination)
    .collectivePreconditionFailed
  let _ ← agreePreflight (buildPeerMetadata alloc.peers source destination changedTopologyAxis)
    .collectivePreconditionFailed
  orPanic (TransposePlanCore.new alloc.peers source destination mode).toOption

/-! ## Calls -/

/-- What the allocator of this rank grants during one use of a plan. -/
structure TransposeAllocator where
  descriptor : DescriptorAllocator
  counts : Allocator
  requests : RequestReservation

/-- The comparison at the start of an in-place transpose. -/
def agreeInPlace (alloc : TransposeAllocator) (T : ElementType) (plan : TransposePlanCore N M)
    (array : ManyPencilArray α N M) (operation : BitVec 64) :
    RankProgram α M TransposeError Unit := do
  let _ ← agreeExecuteDescriptor
    (plan.executeProposal alloc.descriptor T array.extraShape array.extraShape operation)
  return ()

/-- The operation of an in-place transpose whose phases are timed, or not. -/
def inPlaceOperation (timed : Bool) (mode : CommunicationMode) : BitVec 64 :=
  if timed then mode.timedInPlaceOperation else mode.inPlaceOperation

namespace AlltoallvTranspose

/-- SOURCE: alltoallv_transpose.rs:140-201, 258-324 -/
def executeInPlace (alloc : TransposeAllocator) (T : ElementType) (timed : Bool)
    (plan : TransposePlanCore N M) (array : ManyPencilArray α N M)
    (workspace : TransposeWorkspace α) :
    RankProgram α M TransposeError (ManyPencilArray α N M) := do
  agreeInPlace alloc T plan array (inPlaceOperation timed .allToAllv)
  executeInPlaceImpl alloc.counts plan array workspace

end AlltoallvTranspose

namespace PointToPointTranspose

/-- SOURCE: point_to_point_transpose.rs:395-510 -/
def executeInPlace (alloc : TransposeAllocator) (T : ElementType) (timed : Bool)
    (plan : TransposePlanCore N M) (array : ManyPencilArray α N M)
    (workspace : TransposeWorkspace α) :
    RankProgram α M TransposeError (ManyPencilArray α N M) := do
  agreeInPlace alloc T plan array (inPlaceOperation timed .pointToPoint)
  executeInPlaceImpl alloc.counts alloc.requests plan array workspace

/-- SOURCE: point_to_point_transpose.rs:319-393 -/
def callInPlace (alloc : TransposeAllocator) (T : ElementType) (plan : TransposePlanCore N M)
    (array : ManyPencilArray α N M) (workspace : TransposeWorkspace α)
    (callback : Callback α ε π) :
    OverlapProgram α M ε π (ManyPencilArray α N M) (ManyPencilArray α N M) := do
  OverlapProgram.holding array ((agreeInPlace alloc T plan array
    (CommunicationMode.callbackInPlaceOperation .pointToPoint)).adapt fun
      | .error e => .error (.transpose e)
      | .panic => .panic)
  executeInPlaceWithCallback alloc.counts alloc.requests plan array workspace callback

end PointToPointTranspose

end PencilRs.Model
