import PencilRs.Computation.Exchange
import PencilRs.Computation.Lockstep
import PencilRs.Computation.MessagePassing
import PencilRs.Model.Many
import PencilRs.Model.RegionWalk

/-!
# The transposes as rank programs

Every rank of the topology runs one of these programs; the collective operations are
reductions over the Cartesian communicator, Alltoallv on the communicator of one axis, and
the exchange of point-to-point messages on it.  The programs start after
`agree_execute_descriptor`, which lets only equal plans and extra shapes pass.

SOURCE: pencil-array/src/alltoallv_transpose.rs, point_to_point_transpose.rs, preflight.rs
-/

set_option autoImplicit false

namespace PencilRs.Model

open PencilRs.Computation

variable {N M : ℕ} {α β ε : Type}

/-! ## The communicators -/

inductive TransportOp (M : ℕ) where
  | allReduceMin (width : ℕ)
  | allReduceMax (width : ℕ)
  | allToAllVarcount (axis : Fin M)
  | pointToPoint (axis : Fin M)
deriving Repr, DecidableEq

/-- The requests of one rank: a receive names its peer and its slot in the receive buffer, a
send its peer and its elements. -/
structure Requests (α : Type) where
  receives : List (ℕ × ℕ × ℕ)
  sends : List (ℕ × List α)
  receiveBuffer : List α

/-- Reductions take a vector of integers; the exchanges return the receive buffer. -/
abbrev transport (α : Type) (M : ℕ) : Interface where
  Op := TransportOp M
  Arg
    | .allReduceMin width | .allReduceMax width => Fin width → ℕ
    | .allToAllVarcount _ => Partition α × Partition α
    | .pointToPoint _ => Requests α
  Reply
    | .allReduceMin width | .allReduceMax width => Fin width → ℕ
    | .allToAllVarcount _ | .pointToPoint _ => List α

section Semantics

variable {processGrid : Fin M → ℕ}

/-- The messages and receives that requests stand for. -/
def postsOf (axis : Fin M) (requests : Coords processGrid → Requests α) :
    Posts (Coords processGrid) α where
  sends := fun c => (requests c).sends.filterMap fun (peer, payload) =>
    if h : peer < processGrid axis then
      some { source := c, target := peerRankOf c axis ⟨peer, h⟩, payload }
    else none
  receives := fun c => (requests c).receives.filterMap fun (peer, start, count) =>
    if h : peer < processGrid axis then
      some { source := peerRankOf c axis ⟨peer, h⟩, target := c, start, count }
    else none

/-- Every peer is a rank of the communicator. -/
def RanksExist (axis : Fin M) (requests : Coords processGrid → Requests α) : Prop :=
  ∀ c, (∀ r ∈ (requests c).receives, r.1 < processGrid axis) ∧
    ∀ s ∈ (requests c).sends, s.1 < processGrid axis

/-- The ranks of the grid in some order. -/
noncomputable def allRanks (processGrid : Fin M → ℕ) : List (Coords processGrid) :=
  Finset.univ.toList

/-- The network before any rank has posted. -/
noncomputable def startNetwork (requests : Coords processGrid → Requests α) :
    Network (Coords processGrid) α :=
  Network.start (allRanks processGrid) fun c => (requests c).receiveBuffer

/-- No order of posts and deliveries leaves a receive waiting forever. -/
def NeverStalls (axis : Fin M) (requests : Coords processGrid → Requests α) : Prop :=
  ∀ s, Network.Reaches (postsOf axis requests) (startNetwork requests) s →
    s.Quiet ∨ ∃ s', Network.Step (postsOf axis requests) s s'

/-- MPI's collectives on the Cartesian communicator and on those of its axes.  The messages
of point-to-point requests are delivered in any order; a set of requests that some order
leaves waiting hangs.  A job does not leave anything behind. -/
def communicators (α : Type) (processGrid : Fin M → ℕ) :
    Semantics (transport α M) (Coords processGrid) Unit where
  Round := fun _ op args replies _ =>
    match op with
    | .allReduceMin _ => ∀ c j, IsLeast (Set.range fun d => args d j) (replies c j)
    | .allReduceMax _ => ∀ c j, IsGreatest (Set.range fun d => args d j) (replies c j)
    | .allToAllVarcount axis => ∀ c, ∃ buffer,
        exchange (fun k => (args (peerRankOf c axis k)).1) (args c).2 (c axis) = some buffer ∧
          replies c = buffer.cells
    | .pointToPoint axis => RanksExist axis args ∧ NeverStalls axis args ∧
        ∃ final, Network.Reaches (postsOf axis args) (startNetwork args) final ∧ final.Quiet ∧
          ∀ c, replies c = (final.buffers c).cells
  Torn := fun _ _ _ _ => False

end Semantics

/-! ## Programs -/

abbrev RankProgram (α : Type) (M : ℕ) (ε β : Type) : Type :=
  Fallible (transport α M) (Stop ε) β

namespace RankProgram

def orPanic (x : Option β) : RankProgram α M ε β := Fallible.ofExcept (okOr x .panic)

def fail (e : ε) : RankProgram α M ε β := throw (.error e)

@[simp] theorem orPanic_some_bind {γ : Type} (x : β) (f : β → RankProgram α M ε γ) :
    orPanic (some x) >>= f = f x := rfl

end RankProgram

open RankProgram

/-- SOURCE: transpose.rs:1602-1607 -/
def collectiveValid (localValid : Bool) : RankProgram α M ε Bool := do
  let result ← Fallible.perform (I := transport α M) (.allReduceMin 1) fun _ => localValid.toNat
  return result 0 ≠ 0

/-- `result.err().unwrap_or(peer_error)` -/
def errOr (result : Except ε β) (peerError : ε) : ε :=
  match result with
  | .error e => e
  | .ok _ => peerError

/-- A local result as the rest of the program sees it. -/
def ofResult (result : Except ε β) : RankProgram α M ε β :=
  Fallible.ofExcept (result.mapError .error)

/-- SOURCE: preflight.rs:82-92 -/
def agreePreflight (result : Except ε β) (peerError : ε) : RankProgram α M ε β := do
  if ← collectiveValid result.isOk then ofResult result
  else fail (errOr result peerError)

/-- SOURCE: point_to_point_transpose.rs:519-547 -/
def agreePreflightAndReservation (result : Except ε β) (reserved : Bool)
    (peerError localReservationError : ε) : RankProgram α M ε β := do
  let preflightOk := result.isOk
  let reservationOk := preflightOk && reserved
  let agreed ← Fallible.perform (I := transport α M) (.allReduceMin 2)
    ![preflightOk.toNat, reservationOk.toNat]
  if agreed 0 = 0 then fail (errOr result peerError)
  else if agreed 1 = 0 then fail (if reservationOk then peerError else localReservationError)
  else ofResult result

/-! ## Alltoallv -/

/-- SOURCE: checked_partition.rs:19-38 -/
def assertPartitionBounds (len : ℕ) (counts displacements : List ℕ) : Option Unit :=
  if counts.length ≠ displacements.length then none
  else (counts.zip displacements).foldlM (fun _ segment => do
    let stop ← checkedAdd segment.2 segment.1
    if stop > len then none else some ()) ()

/-- `CheckedPartition::new` and `CheckedPartitionMut::new`. -/
def checkedPartition (buffer : List α) (counts displacements : List ℕ) : Option (Partition α) :=
  (assertPartitionBounds buffer.length counts displacements).map fun _ =>
    { buffer, counts, displacements }

/-- A partition of the dummy element that stands in for empty buffers; no element of it is
ever sent or received. -/
def dummyPartition (counts displacements : List ℕ) : Option (Partition α) :=
  (assertPartitionBounds 1 counts displacements).map fun _ =>
    { buffer := [], counts, displacements }

/-- The partitions `execute_exchange` hands to Alltoallv.

SOURCE: alltoallv_transpose.rs:345-396 -/
def exchangePartitions (prepared : PreparedExchange) (sendBuffer receiveBuffer : List α) :
    Option (Partition α × Partition α) :=
  if prepared.requirements.sendLen = 0 ∧ prepared.requirements.receiveLen = 0 then do
    let send ← dummyPartition prepared.sendCounts prepared.sendDisplacements
    let receive ← dummyPartition prepared.receiveCounts prepared.receiveDisplacements
    return (send, receive)
  else do
    let send ← checkedPartition sendBuffer prepared.sendCounts prepared.sendDisplacements
    let receive ←
      checkedPartition receiveBuffer prepared.receiveCounts prepared.receiveDisplacements
    return (send, receive)

/-- SOURCE: alltoallv_transpose.rs:345-396 -/
def executeExchange (plan : TransposePlanCore N M) (prepared : PreparedExchange)
    (sendBuffer receiveBuffer : List α) : RankProgram α M ε (List α) := do
  let partitions ← orPanic (exchangePartitions prepared sendBuffer receiveBuffer)
  Fallible.perform (I := transport α M) (.allToAllVarcount plan.changedTopologyAxis) partitions

/-- The destination of an in-place transpose overwrites the source.

SOURCE: transpose.rs:556-577 -/
def finishInPlace (plan : TransposePlanCore N M) (array : ManyPencilArray α N M)
    (destinationIndex : ℕ) (exchange : PreparedExchange) (receiveBuffer : List α)
    (extraCount : ℕ) : Option (ManyPencilArray α N M) := do
  let guard ← array.beginInPlaceWrite.toOption
  let receiveLen := exchange.requirements.receiveLen
  if receiveLen > guard.storage.length then none
  let storage ← unpackDestination plan.peers plan.destination (Buf.fresh guard.storage)
    receiveLen receiveBuffer extraCount
  let guard ← guard.writeStorage storage.cells
  (guard.commit destinationIndex).toOption

namespace AlltoallvTranspose

/-- What both transposes do after the agreed preflight: pack and exchange. -/
def transfer (plan : TransposePlanCore N M) (sourceStorage : List α)
    (prepared : PreparedExchange) (workspace : TransposeWorkspace α) (extraCount : ℕ) :
    RankProgram α M ε (List α) := do
  let sendWindow ← orPanic (slice? workspace.sendBuffer 0 prepared.requirements.sendLen)
  let receiveWindow ← orPanic (slice? workspace.receiveBuffer 0 prepared.requirements.receiveLen)
  let sendBuffer ← orPanic (packSource plan.peers plan.source sourceStorage
    (Buf.fresh sendWindow) prepared.requirements.sendLen extraCount)
  executeExchange plan prepared sendBuffer.cells receiveWindow

/-- The destination and the positions of it that were written.

SOURCE: alltoallv_transpose.rs:203-256 -/
def executeViewsImpl (alloc : Allocator) (plan : TransposePlanCore N M)
    (source destination : PencilArrayView α N M) (workspace : TransposeWorkspace α) :
    RankProgram α M TransposeError (Buf α) := do
  let prepared ← agreePreflight (plan.prepareExecution alloc source destination workspace)
    .collectivePreconditionFailed
  let extraCount := source.extraShape.elementCount
  let received ← transfer plan source.storage prepared workspace extraCount
  orPanic (unpackDestination plan.peers plan.destination (Buf.fresh destination.storage)
    destination.storage.length received extraCount)

/-- A rank that stops early leaves the array as it was.

SOURCE: alltoallv_transpose.rs:258-324 -/
def executeInPlaceImpl (alloc : Allocator) (plan : TransposePlanCore N M)
    (array : ManyPencilArray α N M) (workspace : TransposeWorkspace α) :
    RankProgram α M TransposeError (ManyPencilArray α N M) := do
  let prepared ← agreePreflight (prepareInPlace alloc plan array workspace)
    .collectivePreconditionFailed
  let extraCount := array.extraShape.elementCount
  let source ← orPanic array.activeStorage.toOption
  let received ← transfer plan source prepared.exchange workspace extraCount
  orPanic (finishInPlace plan array prepared.destinationIndex prepared.exchange received
    extraCount)

end AlltoallvTranspose

/-! ## Point to point -/

/-- SOURCE: transpose.rs:389-406 -/
def requestCounts (prepared : PreparedExchange) : ℕ × ℕ :=
  (prepared.receiveCounts.countP (· ≠ 0), prepared.sendCounts.countP (· ≠ 0))

/-- Split a buffer of `total` elements into the peers' segments, in peer order; a peer
without elements has none and the skipped peer's is passed over.  The result names the
peer, the offset and the count of each segment. -/
def splitSegments (spatialLen : PeerMetadata N → ℕ) (peers : List (PeerMetadata N))
    (skip : Option ℕ) (total extraCount : ℕ) : Option (List (ℕ × ℕ × ℕ)) :=
  (peers.foldlM (fun (state : List (ℕ × ℕ × ℕ) × ℕ) peer => do
    let count ← checkedMul (spatialLen peer) extraCount
    if count = 0 then some state
    else if state.2 + count > total then none
    else if skip = some peer.peerCoordinate then some (state.1, state.2 + count)
    else some (state.1 ++ [(peer.peerRank, state.2, count)], state.2 + count))
    ([], 0)).map Prod.fst

/-- SOURCE: point_to_point_transpose.rs:767-789 -/
def postReceives (peers : List (PeerMetadata N)) (skip : Option ℕ) (receiveLen extraCount : ℕ) :
    Option (List (ℕ × ℕ × ℕ)) :=
  splitSegments PeerMetadata.receiveSpatialLen peers skip receiveLen extraCount

/-- SOURCE: point_to_point_transpose.rs:792-812 -/
def postSends (peers : List (PeerMetadata N)) (skip : Option ℕ) (sendBuffer : List α)
    (extraCount : ℕ) : Option (List (ℕ × List α)) :=
  (splitSegments PeerMetadata.sendSpatialLen peers skip sendBuffer.length extraCount).map
    fun segments => segments.map fun (peer, offset, count) =>
      (peer, (sendBuffer.drop offset).take count)

/-- Whether the request vectors could be reserved, for the numbers of receives and sends. -/
abbrev RequestReservation : Type := ℕ × ℕ → Bool

/-- `reserved` of both exchanges: a rank whose preflight failed reserves nothing. -/
def reserveRequests (reserve : RequestReservation) (preflight : Except ε PreparedExchange) :
    Bool :=
  match preflight with
  | .ok prepared => reserve (requestCounts prepared)
  | .error _ => false

/-- The part of both exchanges between packing and the end of the receives. -/
def exchangeMessages (plan : TransposePlanCore N M) (skip : Option ℕ)
    (sendBuffer receiveBuffer : List α) (extraCount : ℕ) : RankProgram α M ε (List α) := do
  let receives ← orPanic (postReceives plan.peers skip receiveBuffer.length extraCount)
  let sends ← orPanic (postSends plan.peers skip sendBuffer extraCount)
  Fallible.perform (I := transport α M) (.pointToPoint plan.changedTopologyAxis)
    { receives, sends, receiveBuffer }

/-- What both exchanges do after the agreement, up to the end of the receives. -/
def packAndExchange (plan : TransposePlanCore N M) (skip : Option ℕ)
    (prepared : PreparedExchange) (workspace : TransposeWorkspace α)
    (pack : Buf α → Option (Buf α)) (extraCount : ℕ) : RankProgram α M ε (List α) := do
  let sendWindow ← orPanic (slice? workspace.sendBuffer 0 prepared.requirements.sendLen)
  let receiveWindow ← orPanic (slice? workspace.receiveBuffer 0 prepared.requirements.receiveLen)
  let sendBuffer ← orPanic (pack (Buf.fresh sendWindow))
  exchangeMessages plan skip sendBuffer.cells receiveWindow extraCount

/-- The agreed counts and the received prefix.

SOURCE: point_to_point_transpose.rs:703-826 -/
def executePointToPointExchange (plan : TransposePlanCore N M) (sourceStorage : List α)
    (preflight : Except TransposeError PreparedExchange) (reserve : RequestReservation)
    (workspace : TransposeWorkspace α) (extraCount : ℕ) (skipSelf : Bool) :
    RankProgram α M TransposeError (PreparedExchange × List α) := do
  let selfPeer ← orPanic plan.selfPeer
  let selfCoordinate := selfPeer.peerCoordinate
  let prepared ← agreePreflightAndReservation preflight (reserveRequests reserve preflight)
    .collectivePreconditionFailed .preparationFailed
  let sendLen := prepared.requirements.sendLen
  let received ← packAndExchange plan (if skipSelf then some selfCoordinate else none) prepared
    workspace (fun sendBuffer =>
      if skipSelf then
        packSourceExceptSelf plan.peers selfCoordinate plan.source sourceStorage sendBuffer
          sendLen extraCount
      else packSource plan.peers plan.source sourceStorage sendBuffer sendLen extraCount)
    extraCount
  return (prepared, received)

namespace PointToPointTranspose

/-- The destination and the positions of it that were written.

SOURCE: point_to_point_transpose.rs:183-241 -/
def executeViewsImpl (alloc : Allocator) (reserve : RequestReservation)
    (plan : TransposePlanCore N M) (source destination : PencilArrayView α N M)
    (workspace : TransposeWorkspace α) : RankProgram α M TransposeError (Buf α) := do
  let extraCount := source.extraShape.elementCount
  let (_, received) ← executePointToPointExchange plan source.storage
    (plan.prepareExecution alloc source destination workspace) reserve workspace extraCount true
  let selfPeer ← orPanic plan.selfPeer
  let written ← orPanic (copySelfRegion selfPeer plan.source source.storage plan.destination
    (Buf.fresh destination.storage) destination.storage.length extraCount)
  orPanic (unpackDestinationExceptSelf plan.peers selfPeer.peerCoordinate plan.destination
    written destination.storage.length received extraCount)

/-- A rank that stops early leaves the array as it was.

SOURCE: point_to_point_transpose.rs:450-510 -/
def executeInPlaceImpl (alloc : Allocator) (reserve : RequestReservation)
    (plan : TransposePlanCore N M) (array : ManyPencilArray α N M)
    (workspace : TransposeWorkspace α) :
    RankProgram α M TransposeError (ManyPencilArray α N M) := do
  let extraCount := array.extraShape.elementCount
  let prepared := prepareInPlace alloc plan array workspace
  let source ← match prepared with
    | .ok _ => orPanic array.activeStorage.toOption
    | .error _ => pure []
  let (exchange, received) ← executePointToPointExchange plan source
    (prepared.map PreparedInPlace.exchange) reserve workspace extraCount false
  let destinationIndex ← orPanic (prepared.toOption.map PreparedInPlace.destinationIndex)
  orPanic (finishInPlace plan array destinationIndex exchange received extraCount)

end PointToPointTranspose

end PencilRs.Model
