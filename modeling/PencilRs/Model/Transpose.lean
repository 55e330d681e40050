import PencilRs.Model.View

/-!
# Transpose plans and their preflight

The rank-local part of both transports: which topology position changes, what each peer of
the changed-axis communicator exchanges with this rank, and the checks made before any
element is packed.

SOURCE: pencil-array/src/transpose.rs
-/

set_option autoImplicit false

namespace PencilRs.Model

inductive CommunicationMode where
  | allToAllv
  | pointToPoint
deriving Repr, DecidableEq

inductive TransposeError where
  | incompatibleTopology
  | incompatibleGlobalShape
  | unsupportedDecompositionChange
  | sourceLayoutMismatch
  | destinationLayoutMismatch
  | extraShapeMismatch
  | workspaceTooSmall (sendRequired sendLen receiveRequired receiveLen : ℕ)
  | countOverflow
  | preparationFailed
  | collectiveDescriptorMismatch
  | collectivePreconditionFailed
  | array (error : ArrayError)
deriving Repr, DecidableEq

/-- The reservations made by the planning and preflight code. -/
inductive Reservation where
  | peers
  | sendCounts
  | sendDisplacements
  | receiveCounts
  | receiveDisplacements
deriving Repr, DecidableEq

/-- Which reservations the allocator of this rank grants (`try_reserve_exact`). -/
abbrev Allocator : Type := Reservation → Bool

/-- `Vec::try_reserve_exact`, mapped to the transpose error. -/
def tryReserve (alloc : Allocator) (r : Reservation) : Except TransposeError Unit :=
  if alloc r then .ok () else .error .preparationFailed

structure PeerMetadata (N : ℕ) where
  peerRank : ℕ
  peerCoordinate : ℕ
  sendRegion : Fin N → Range
  receiveRegion : Fin N → Range
  sendSpatialLen : ℕ
  receiveSpatialLen : ℕ
  sendSpatialDisplacement : ℕ
  receiveSpatialDisplacement : ℕ

structure TransposeWorkspaceRequirements where
  sendLen : ℕ
  receiveLen : ℕ
deriving Repr, DecidableEq

structure TransposeWorkspace (α : Type) where
  sendBuffer : List α
  receiveBuffer : List α

structure PreparedExchange where
  requirements : TransposeWorkspaceRequirements
  sendCounts : List ℕ
  sendDisplacements : List ℕ
  receiveCounts : List ℕ
  receiveDisplacements : List ℕ
deriving Repr, DecidableEq

variable {N M : ℕ}

/-! ## Planning -/

/-- SOURCE: transpose.rs:579-599 -/
def validatePlanLayout (source destination : Pencil N M) : Except TransposeError (Fin M) := do
  if !source.sameTopology destination then throw .incompatibleTopology
  if source.globalShape ≠ destination.globalShape then throw .incompatibleGlobalShape
  let changed ← (List.finRange M).foldlM (fun changed axis =>
    if source.decomposition.axes axis ≠ destination.decomposition.axes axis then
      if changed.isSome then .error .unsupportedDecompositionChange else .ok (some axis)
    else .ok changed) (none : Option (Fin M))
  okOr changed .unsupportedDecompositionChange

/-- SOURCE: transpose.rs:658-671 -/
def intersectRanges (left right : Fin N → Range) : Fin N → Range := fun axis =>
  let start := max (left axis).start (right axis).start
  let stop := min (left axis).stop (right axis).stop
  if start < stop then ⟨start, stop⟩ else ⟨start, start⟩

/-- The loop of `region_spatial_len` over the axes. -/
def regionShape (region : Fin N → Range) : Except TransposeError (Fin N → ℕ) :=
  (List.finRange N).foldlM (fun shape axis =>
    (okOr (checkedSub (region axis).stop (region axis).start) .preparationFailed).map
      (Function.update shape axis)) fun _ => 0

/-- SOURCE: transpose.rs:673-682 -/
def regionSpatialLen (region : Fin N → Range) : Except TransposeError ℕ := do
  let shape ← regionShape region
  (checkedProduct (List.ofFn shape)).mapError fun _ => .preparationFailed

/-- The coordinate of a rank of a one-dimensional Cartesian communicator
(`rank_to_coordinates_into`): ranks number the coordinates in order. -/
def subcommunicatorCoordinate (peerRank : ℕ) : ℕ := peerRank

/-- One round of the loop over peers on `(peers, send displacement, receive displacement)`.

SOURCE: transpose.rs:618-654 -/
def peerStep (source destination : Pencil N M) (changedTopologyAxis : Fin M)
    (state : List (PeerMetadata N) × ℕ × ℕ) (peerIndex : ℕ) :
    Except TransposeError (List (PeerMetadata N) × ℕ × ℕ) := do
  let (peers, sendDisplacement, receiveDisplacement) := state
  let peerRank ← okOr (countTryFrom peerIndex) .preparationFailed
  let peerCoordinate := subcommunicatorCoordinate peerRank
  let peerCoords :=
    Function.update source.topology.localCoords changedTopologyAxis peerCoordinate
  let sourcePeerRanges ← (source.rangesAt peerCoords).mapError fun _ => .preparationFailed
  let destinationPeerRanges ←
    (destination.rangesAt peerCoords).mapError fun _ => .preparationFailed
  let sendRegion := intersectRanges source.localRanges destinationPeerRanges
  let receiveRegion := intersectRanges sourcePeerRanges destination.localRanges
  let sendSpatialLen ← regionSpatialLen sendRegion
  let receiveSpatialLen ← regionSpatialLen receiveRegion
  let peer : PeerMetadata N := {
    peerRank, peerCoordinate, sendRegion, receiveRegion, sendSpatialLen, receiveSpatialLen
    sendSpatialDisplacement := sendDisplacement
    receiveSpatialDisplacement := receiveDisplacement }
  let sendDisplacement ←
    okOr (checkedAdd sendDisplacement sendSpatialLen) .preparationFailed
  let receiveDisplacement ←
    okOr (checkedAdd receiveDisplacement receiveSpatialLen) .preparationFailed
  return (peers ++ [peer], sendDisplacement, receiveDisplacement)

/-- SOURCE: transpose.rs:601-656 -/
def buildPeerMetadata (alloc : Allocator) (source destination : Pencil N M)
    (changedTopologyAxis : Fin M) : Except TransposeError (List (PeerMetadata N)) := do
  let peerCount := source.topology.processGrid changedTopologyAxis
  tryReserve alloc .peers
  let (peers, _, _) ← (List.range peerCount).foldlM
    (peerStep source destination changedTopologyAxis) ([], 0, 0)
  return peers

/-- A plan as one rank holds it: the layouts passed the layout check and the peers are those
planning computed for them. -/
structure TransposePlanCore (N M : ℕ) where
  source : Pencil N M
  destination : Pencil N M
  changedTopologyAxis : Fin M
  peers : List (PeerMetadata N)
  mode : CommunicationMode
  layout_ok : validatePlanLayout source destination = .ok changedTopologyAxis
  peers_ok : ∃ alloc, buildPeerMetadata alloc source destination changedTopologyAxis = .ok peers

namespace TransposePlanCore

/-- The rank-local results of the constructor, which the ranks agree on afterwards.

SOURCE: transpose.rs:343-366 -/
def new (alloc : Allocator) (source destination : Pencil N M) (mode : CommunicationMode) :
    Except TransposeError (TransposePlanCore N M) :=
  match hlayout : validatePlanLayout source destination with
  | .error e => .error e
  | .ok changedTopologyAxis =>
    match hpeers : buildPeerMetadata alloc source destination changedTopologyAxis with
    | .error e => .error e
    | .ok peers => .ok {
        source, destination, changedTopologyAxis, peers, mode
        layout_ok := hlayout
        peers_ok := ⟨alloc, hpeers⟩ }

/-- SOURCE: transpose.rs:381-387 -/
def selfPeer (plan : TransposePlanCore N M) : Option (PeerMetadata N) :=
  let coordinate := plan.source.topology.localCoords plan.changedTopologyAxis
  plan.peers.find? fun peer => peer.peerCoordinate = coordinate

end TransposePlanCore

/-! ## Counts and displacements -/

/-- SOURCE: transpose.rs:788-802 -/
def checkedCount (count displacement : ℕ) (mode : CommunicationMode) :
    Except TransposeError ℕ := do
  let countAsMpi ← okOr (countTryFrom count) .countOverflow
  if mode = .allToAllv then
    let _ ← okOr (countTryFrom displacement) .countOverflow
  let _ ← okOr (checkedAdd count displacement) .countOverflow
  return countAsMpi

/-- SOURCE: transpose.rs:804-818 -/
def checkedPartitionCount (count displacement total : ℕ) (mode : CommunicationMode) :
    Except TransposeError ℕ := do
  let countAsMpi ← checkedCount count displacement mode
  let stop ← okOr (checkedAdd count displacement) .countOverflow
  if stop > total then throw .preparationFailed
  return countAsMpi

/-- The four checked products of one peer: send count, receive count, send displacement,
receive displacement.

SOURCE: transpose.rs:692-707, 752-767 -/
def peerCounts (peer : PeerMetadata N) (batch : ℕ) : Except TransposeError (ℕ × ℕ × ℕ × ℕ) := do
  let sendCount ← okOr (checkedMul peer.sendSpatialLen batch) .countOverflow
  let receiveCount ← okOr (checkedMul peer.receiveSpatialLen batch) .countOverflow
  let sendDisplacement ← okOr (checkedMul peer.sendSpatialDisplacement batch) .countOverflow
  let receiveDisplacement ←
    okOr (checkedMul peer.receiveSpatialDisplacement batch) .countOverflow
  return (sendCount, receiveCount, sendDisplacement, receiveDisplacement)

/-- One round of the loop of `workspace_requirements_for_peers`. -/
def requirementsStep (batch : ℕ) (mode : CommunicationMode)
    (lens : TransposeWorkspaceRequirements) (peer : PeerMetadata N) :
    Except TransposeError TransposeWorkspaceRequirements := do
  let (sendCount, receiveCount, sendDisplacement, receiveDisplacement) ← peerCounts peer batch
  let _ ← checkedCount sendCount sendDisplacement mode
  let _ ← checkedCount receiveCount receiveDisplacement mode
  let sendLen ← okOr (checkedAdd lens.sendLen sendCount) .countOverflow
  let receiveLen ← okOr (checkedAdd lens.receiveLen receiveCount) .countOverflow
  return ⟨sendLen, receiveLen⟩

/-- SOURCE: transpose.rs:684-722 -/
def workspaceRequirementsForPeers (peers : List (PeerMetadata N)) (batch : ℕ)
    (mode : CommunicationMode) : Except TransposeError TransposeWorkspaceRequirements :=
  peers.foldlM (requirementsStep batch mode) ⟨0, 0⟩

/-- SOURCE: transpose.rs:830-837 -/
def zeroedVec (alloc : Allocator) (r : Reservation) (len : ℕ) : Except TransposeError (List ℕ) :=
  do
    tryReserve alloc r
    return List.replicate len 0

/-- One round of the loop of `prepare_exchange_counts`.

SOURCE: transpose.rs:746-790 -/
def exchangeStep (batch coordinateExtent peerCount : ℕ) (mode : CommunicationMode)
    (state : PreparedExchange) (peer : PeerMetadata N) :
    Except TransposeError PreparedExchange := do
  let index := peer.peerRank
  if index ≥ peerCount ∨ peer.peerCoordinate ≥ coordinateExtent then throw .preparationFailed
  let (sendCount, receiveCount, sendDisplacement, receiveDisplacement) ← peerCounts peer batch
  let send ← checkedPartitionCount sendCount sendDisplacement state.requirements.sendLen mode
  let sendDisplacements ←
    if mode = .allToAllv then
      (okOr (countTryFrom sendDisplacement) .countOverflow).map
        (state.sendDisplacements.set index)
    else .ok state.sendDisplacements
  let receive ←
    checkedPartitionCount receiveCount receiveDisplacement state.requirements.receiveLen mode
  let receiveDisplacements ←
    if mode = .allToAllv then
      (okOr (countTryFrom receiveDisplacement) .countOverflow).map
        (state.receiveDisplacements.set index)
    else .ok state.receiveDisplacements
  return {
    requirements := state.requirements
    sendCounts := state.sendCounts.set index send
    sendDisplacements
    receiveCounts := state.receiveCounts.set index receive
    receiveDisplacements }

/-- SOURCE: transpose.rs:724-786 -/
def prepareExchangeCounts (alloc : Allocator) (peers : List (PeerMetadata N))
    (batch coordinateExtent : ℕ) (mode : CommunicationMode) :
    Except TransposeError PreparedExchange := do
  let requirements ← workspaceRequirementsForPeers peers batch mode
  let peerCount := peers.length
  let sendCounts ← zeroedVec alloc .sendCounts peerCount
  let sendDisplacements ←
    if mode = .allToAllv then zeroedVec alloc .sendDisplacements peerCount else .ok []
  let receiveCounts ← zeroedVec alloc .receiveCounts peerCount
  let receiveDisplacements ←
    if mode = .allToAllv then zeroedVec alloc .receiveDisplacements peerCount else .ok []
  peers.foldlM (exchangeStep batch coordinateExtent peerCount mode)
    { requirements, sendCounts, sendDisplacements, receiveCounts, receiveDisplacements }

/-! ## Region offsets -/

/-- The loop of `validate_region_offsets` that places the region's last corner. -/
def lastLocal (localRanges region : Fin N → Range) : Except TransposeError (Fin N → ℕ) :=
  (List.finRange N).foldlM (fun last axis =>
    if (region axis).start < (localRanges axis).start ∨
        (region axis).stop > (localRanges axis).stop then .error .preparationFailed
    else
      (okOr ((checkedSub (region axis).stop 1).bind fun stop =>
        checkedSub stop (localRanges axis).start) .preparationFailed).map
          (Function.update last axis)) fun _ => 0

/-- SOURCE: transpose.rs:841-884 -/
def validateRegionOffsets (localRanges : Fin N → Range) (localShapeMemory : Fin N → ℕ)
    (permutation : AxisPermutation N) (localLen storageLen : ℕ) (region : Fin N → Range)
    (extraCount : ℕ) : Except TransposeError Unit := do
  if extraCount = 0 then return ()
  let spatialLen ← regionSpatialLen region
  if spatialLen = 0 then return ()
  let last ← lastLocal localRanges region
  let lastMemory := permutation.permute last
  let maxSpatial ← (rowMajorOffset (List.ofFn localShapeMemory) (List.ofFn lastMemory)).mapError
    fun _ => .preparationFailed
  let maxOffset ← okOr ((checkedMul (extraCount - 1) localLen).bind fun extraOffset =>
    checkedAdd extraOffset maxSpatial) .preparationFailed
  if maxOffset ≥ storageLen then throw .preparationFailed

/-! ## Preflight -/

/-- `counts.iter().try_fold(..)` of `prepare_common`: the checked total. -/
def countTotal (counts : List ℕ) : Except TransposeError ℕ :=
  counts.foldlM (fun total count => okOr (checkedAdd total count) .preparationFailed) 0

/-- The checks `prepare_common` makes for one peer.

SOURCE: transpose.rs:493-515 -/
def peerOffsetsStep (source destination : Pencil N M) (sourceLen destinationLen extraCount : ℕ)
    (peer : PeerMetadata N) : Except TransposeError Unit := do
  let sendLen ← regionSpatialLen peer.sendRegion
  let receiveLen ← regionSpatialLen peer.receiveRegion
  if sendLen ≠ peer.sendSpatialLen ∨ receiveLen ≠ peer.receiveSpatialLen then
    throw .preparationFailed
  validateRegionOffsets source.localRanges source.localShapeMemory source.permutation
    source.localLen sourceLen peer.sendRegion extraCount
  validateRegionOffsets destination.localRanges destination.localShapeMemory
    destination.permutation destination.localLen destinationLen peer.receiveRegion extraCount

namespace TransposePlanCore

variable {α : Type}

/-- SOURCE: transpose.rs:415-420 -/
def workspaceRequirements (plan : TransposePlanCore N M) (extraShape : ExtraShape) :
    Except TransposeError TransposeWorkspaceRequirements :=
  workspaceRequirementsForPeers plan.peers extraShape.elementCount plan.mode

/-- SOURCE: transpose.rs:447-517 -/
def prepareCommon (alloc : Allocator) (plan : TransposePlanCore N M) (extraShape : ExtraShape)
    (sourceLen destinationLen : ℕ) (workspace : TransposeWorkspace α) :
    Except TransposeError PreparedExchange := do
  let requirements ← plan.workspaceRequirements extraShape
  if workspace.sendBuffer.length < requirements.sendLen ∨
      workspace.receiveBuffer.length < requirements.receiveLen then
    throw (.workspaceTooSmall requirements.sendLen workspace.sendBuffer.length
      requirements.receiveLen workspace.receiveBuffer.length)
  let prepared ← prepareExchangeCounts alloc plan.peers extraShape.elementCount
    (plan.source.topology.processGrid plan.changedTopologyAxis) plan.mode
  if requirements.sendLen ≠ sourceLen ∨ requirements.receiveLen ≠ destinationLen then
    throw .preparationFailed
  let sendTotal ← countTotal prepared.sendCounts
  if sendTotal ≠ sourceLen then throw .preparationFailed
  let receiveTotal ← countTotal prepared.receiveCounts
  if receiveTotal ≠ destinationLen then throw .preparationFailed
  let _ ← plan.peers.foldlM (fun _ peer => peerOffsetsStep plan.source plan.destination
    sourceLen destinationLen extraShape.elementCount peer) ()
  return prepared

/-- SOURCE: transpose.rs:422-445 -/
def prepareExecution (alloc : Allocator) (plan : TransposePlanCore N M)
    (source destination : PencilArrayView α N M) (workspace : TransposeWorkspace α) :
    Except TransposeError PreparedExchange := do
  if !source.pencil.sameLayout plan.source then throw .sourceLayoutMismatch
  if !destination.pencil.sameLayout plan.destination then throw .destinationLayoutMismatch
  if source.extraShape ≠ destination.extraShape then throw .extraShapeMismatch
  plan.prepareCommon alloc source.extraShape source.storage.length destination.storage.length
    workspace

end TransposePlanCore

end PencilRs.Model
