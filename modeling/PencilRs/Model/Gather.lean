import PencilRs.Computation.Buffer
import PencilRs.Model.Collectives

/-!
# Gathering a view on one rank

The root works out the block of every rank from the layout alone, checks it against what the
ranks report, and then receives the blocks in rank order.  Each block is laid out in the memory
order of its rank; the root writes it to the logical row-major order of the global array.

SOURCE: pencil-array/src/collectives.rs
-/

set_option autoImplicit false

namespace PencilRs.Model

open PencilRs.Computation RankProgram

variable {N M : ℕ} {α : Type}

/-- SOURCE: collectives.rs:65 -/
def gatherSeedTag : ℕ := 0x4741

/-- SOURCE: collectives.rs:66 -/
def gatherPayloadTag : ℕ := 0x4742

/-! ## Metadata -/

/-- SOURCE: collectives.rs:2739-2744 -/
structure GatherBlock (N : ℕ) where
  ranges : Fin N → Range
  localShapeMemory : Fin N → ℕ
  spatialCount : ℕ
  count : ℕ

/-- SOURCE: collectives.rs:2747-2751 -/
structure GatherMetadata (N : ℕ) where
  blocks : List (GatherBlock N)
  maximumCount : ℕ
  firstNonempty : ℕ

/-- The loop of `advance_coordinates` over the axes that are left, the last axis first. -/
def carryCoordinates (grid : Fin M → ℕ) : List (Fin M) → (Fin M → ℕ) → (Fin M → ℕ) × Bool
  | [], coordinates => (coordinates, false)
  | axis :: axes, coordinates =>
    if coordinates axis + 1 < grid axis then
      (Function.update coordinates axis (coordinates axis + 1), true)
    else carryCoordinates grid axes (Function.update coordinates axis 0)

/-- The next coordinates, and whether they did not wrap around.

SOURCE: collectives.rs:2834-2843 -/
def advanceCoordinates (grid coordinates : Fin M → ℕ) : (Fin M → ℕ) × Bool :=
  carryCoordinates grid (List.finRange M).reverse coordinates

/-- The body of the loop of `build_gather_metadata`: the block at some coordinates is put into
the slot of its rank. -/
def placeBlock (pencil : Pencil N M) (extraShape : ExtraShape)
    (slots : List (Option (GatherBlock N))) (coordinates : Fin M → ℕ) :
    Except (Stop CollectiveError) (List (Option (GatherBlock N))) := do
  let rank ← (pencil.topology.rankAt coordinates).mapError fun _ => .error .preparationFailed
  ensure (slots[rank]?.bind id).isNone (.error .preparationFailed)
  let ranges ← (pencil.rangesAt coordinates).mapError fun _ => .error .preparationFailed
  let localShape := shapeFromRanges ranges
  let spatialCount ← (checkedProduct (List.ofFn localShape)).mapError fun _ =>
    .error .countOverflow
  let count ← okOr (checkedMul spatialCount extraShape.elementCount) (.error .countOverflow)
  let _ ← okOr (countTryFrom count) (.error .countOverflow)
  ensure (rank < slots.length) .panic
  return slots.set rank (some
    { ranges, localShapeMemory := pencil.permutation.permute localShape, spatialCount, count })

/-- The loop of `build_gather_metadata`, which ends when the coordinates wrap around.  Running
out of `fuel` stands for a loop that does not end. -/
def fillSlots (pencil : Pencil N M) (extraShape : ExtraShape) :
    ℕ → List (Option (GatherBlock N)) → (Fin M → ℕ) →
      Except (Stop CollectiveError) (List (Option (GatherBlock N)))
  | 0, _, _ => .error .panic
  | fuel + 1, slots, coordinates => do
    let slots ← placeBlock pencil extraShape slots coordinates
    let (coordinates, more) := advanceCoordinates pencil.topology.processGrid coordinates
    if more then fillSlots pencil extraShape fuel slots coordinates else return slots

/-- The total, the maximum and the first rank with elements, over the blocks so far. -/
def summarizeBlock (size : ℕ) (summary : ℕ × ℕ × ℕ) (entry : GatherBlock N × ℕ) :
    Except (Stop CollectiveError) (ℕ × ℕ × ℕ) := do
  let (total, maximumCount, firstNonempty) := summary
  let (block, rank) := entry
  let total ← okOr (checkedAdd total block.count) (.error .countOverflow)
  return (total, max maximumCount block.count,
    if block.count ≠ 0 ∧ firstNonempty = size then rank else firstNonempty)

/-- The rank of the caller in the Cartesian communicator. -/
def MpiTopology.rank (topology : MpiTopology M) : ℕ :=
  MpiTopology.cartesianRank topology.processGrid topology.localCoords

/-- SOURCE: collectives.rs:2753-2832 -/
def buildGatherMetadata (alloc : CollectiveAllocator) (view : PencilArrayView α N M)
    (globalCount : ℕ) : Except (Stop CollectiveError) (GatherMetadata N) := do
  let topology := view.pencil.topology
  let size := topology.size
  ensure alloc.slots (.error (.allocationFailed size))
  let slots ← fillSlots view.pencil view.extraShape size (List.replicate size none) fun _ => 0
  ensure alloc.blocks (.error (.allocationFailed size))
  let blocks ← slots.mapM fun block => okOr block (.error .preparationFailed)
  let (total, maximumCount, firstNonempty) ←
    blocks.zipIdx.foldlM (summarizeBlock size) (0, 0, size)
  ensure (total = globalCount) (.error .preparationFailed)
  let own := (blocks[topology.rank]?).map GatherBlock.count
  ensure (own = some view.storage.length)
    (.error (.array (.storageLengthMismatch (own.getD 0) view.storage.length)))
  return { blocks, maximumCount, firstNonempty }

/-! ## Unpacking -/

/-- One axis of the loop of `unpack_block` that turns an offset into memory coordinates. -/
def splitOffset (shape : Fin N → ℕ) (state : (Fin N → ℕ) × ℕ) (axis : Fin N) :
    Option ((Fin N → ℕ) × ℕ) := do
  let (coordinates, remainder) := state
  let coordinate ← checkedRem remainder (shape axis)
  let remainder ← checkedDiv remainder (shape axis)
  return (Function.update coordinates axis coordinate, remainder)

/-- Where an element of a block belongs in the global array. -/
def globalOffsetOf (pencil : Pencil N M) (block : GatherBlock N) (physicalOffset : ℕ) :
    Option ℕ := do
  let extraOffset ← checkedDiv physicalOffset block.spatialCount
  let remainder ← checkedRem physicalOffset block.spatialCount
  let (memoryCoordinates, _) ← (List.finRange N).reverse.foldlM
    (splitOffset block.localShapeMemory) (fun _ => 0, remainder)
  let globalCoordinates ← (List.finRange N).foldlM (fun coordinates memoryAxis => do
    let logicalAxis := pencil.permutation.axesInMemoryOrder memoryAxis
    let coordinate ← checkedAdd (block.ranges logicalAxis).start (memoryCoordinates memoryAxis)
    return Function.update coordinates logicalAxis coordinate) fun _ => 0
  let globalSpatialOffset ← (List.finRange N).foldlM (fun offset logicalAxis => do
    let scaled ← checkedMul offset (pencil.globalShape logicalAxis)
    checkedAdd scaled (globalCoordinates logicalAxis)) 0
  let base ← checkedMul extraOffset pencil.globalLen
  checkedAdd base globalSpatialOffset

/-- The `debug_assert!` is checked.

SOURCE: collectives.rs:2845-2882 -/
def unpackBlock (pencil : Pencil N M) (destination : Buf α) (physical : List α)
    (block : GatherBlock N) : Option (Buf α) :=
  if block.count = 0 then some destination
  else do
    let extraCount ← checkedDiv block.count block.spatialCount
    physical.zipIdx.foldlM (fun destination (value, physicalOffset) => do
      let globalOffset ← globalOffsetOf pencil block physicalOffset
      if physicalOffset / block.spatialCount < extraCount then
        destination.store 0 destination.cells.length globalOffset value
      else none) destination

/-- The root's loop over the ranks: its own block is read from the view, the others from the
messages as they come.  A message fills the front of the scratch window. -/
def unpackRanks (view : PencilArrayView α N M) (metadata : GatherMetadata N) (root : ℕ) :
    List ℕ → Buf α → List α → List (List α) → Option (Buf α)
  | [], global, _, _ => some global
  | sourceRank :: ranks, global, scratch, payloads => do
    let block ← metadata.blocks[sourceRank]?
    if sourceRank = root then
      let global ← unpackBlock view.pencil global view.storage block
      unpackRanks view metadata root ranks global scratch payloads
    else
      match payloads with
      | [] => none
      | payload :: payloads =>
        let scratch := payload ++ scratch.drop payload.length
        let scratchBlock ← slice? scratch 0 block.count
        let global ← unpackBlock view.pencil global scratchBlock block
        unpackRanks view metadata root ranks global scratch payloads

/-! ## The gather -/

/-- Whether the root waits for a seed from another rank. -/
def seedNeeded (metadata : GatherMetadata N) (globalCount root : ℕ) : Bool :=
  globalCount ≠ 0 && metadata.firstNonempty ≠ root

/-- What a rank sends and receives.

SOURCE: collectives.rs:2679-2735 -/
def gatherActions (metadata : GatherMetadata N) (globalCount root rank size : ℕ)
    (storage : List α) : Option (List (ChannelAction ℕ α)) := do
  let seedSent ← (if seedNeeded metadata globalCount root && rank = metadata.firstNonempty then
    storage[0]?.map fun seed => [.send root gatherSeedTag [seed]]
  else some [])
  if rank = root then
    let seedReceived := if seedNeeded metadata globalCount root then
      [.receive metadata.firstNonempty gatherSeedTag 1] else []
    let payloads ← ((List.range size).filter (· ≠ root)).mapM fun sourceRank =>
      metadata.blocks[sourceRank]?.map fun block =>
        .receive sourceRank gatherPayloadTag block.count
    return seedSent ++ seedReceived ++ payloads
  else if rank < size then return seedSent ++ [.send root gatherPayloadTag storage]
  else return seedSent

/-- The root's buffers are filled with the seed before the blocks are unpacked.

SOURCE: collectives.rs:2691-2725 -/
def assembleGlobal (view : PencilArrayView α N M) (metadata : GatherMetadata N)
    (globalCount root size : ℕ) (received : List (List α)) : Option (Buf α) :=
  if globalCount = 0 then
    unpackRanks view metadata root (List.range size) (Buf.fresh []) [] received
  else if metadata.firstNonempty = root then do
    let seed ← view.storage[0]?
    unpackRanks view metadata root (List.range size)
      (Buf.fresh (List.replicate globalCount seed)) (List.replicate metadata.maximumCount seed)
      received
  else
    match received with
    | (seed :: _) :: payloads =>
      unpackRanks view metadata root (List.range size)
        (Buf.fresh (List.replicate globalCount seed)) (List.replicate metadata.maximumCount seed)
        payloads
    | _ => none

/-- `all_reduce_into` of one word with `SystemOperation::max()`. -/
def reduceMaxOf (value : ℕ) : RankProgram Unit M CollectiveError ℕ := do
  let result ← Fallible.perform (I := transport Unit M) (.allReduceMax 1) fun _ => value
  return result 0

/-- `all_reduce_into` of one word with `SystemOperation::min()`. -/
def reduceMinOf (value : ℕ) : RankProgram Unit M CollectiveError ℕ := do
  let result ← Fallible.perform (I := transport Unit M) (.allReduceMin 1) fun _ => value
  return result 0

/-- The error of a root that is not a rank.

SOURCE: collectives.rs:2596-2608 -/
def rootOutOfBounds (root : Option ℕ) (size : ℕ) : CollectiveError :=
  .rootOutOfBounds (match root with
    | some root => if root < 2 ^ 63 then root else -1
    | none => -1) size

/-- What the root's allocator refuses first, if anything.

SOURCE: collectives.rs:2654-2674 -/
def rootAllocation (alloc : CollectiveAllocator) (globalCount maximumCount : ℕ) :
    Except CollectiveError Unit := do
  ensure alloc.global (.allocationFailed globalCount)
  ensure alloc.scratch (.allocationFailed maximumCount)

/-- A local result on which the ranks agree; a rank that panics does not take part. -/
def agreeBuilt {β : Type} (result : Except (Stop CollectiveError) β) :
    RankProgram Unit M CollectiveError β :=
  match result with
  | .ok x => agreePreflight (.ok x) .collectivePreconditionFailed
  | .error (.error e) => agreePreflight (.error e) .collectivePreconditionFailed
  | .error .panic => Fallible.ofExcept (.error .panic)

/-- The steps of the gather before any element moves: the root, the global element count and
the metadata.

SOURCE: collectives.rs:2590-2675 -/
def prepareGather (alloc : CollectiveAllocator) (T : TypeInfo) (root : Option ℕ)
    (view : PencilArrayView α N M) :
    RankProgram Unit M CollectiveError (ℕ × ℕ × GatherMetadata N) := do
  let topology := view.pencil.topology
  let size := topology.size
  let rootWord := root.getD (2 ^ 64 - 1)
  let globalCount ← prepareLayout view.pencil view.extraShape T T unitName alloc opGather rootWord
  let rootRank ← agreePreflight
    (okOr ((root.bind countTryFrom).filter (· < size)) (rootOutOfBounds root size))
    .collectivePreconditionFailed
  let _ ← (if T.size = 0 then do
    if ← collectiveValid false then orPanic none else fail .zeroSizedTypeUnsupported
  else return ())
  let metadata ← agreeBuilt (buildGatherMetadata alloc view globalCount)
  let _ ← agreePreflight (okOr (countTryFrom view.storage.length) .countOverflow)
    .collectivePreconditionFailed
  let maximumCount ← reduceMaxOf view.storage.length
  let firstNonempty ← reduceMinOf (if view.storage.length = 0 then size else topology.rank)
  let _ ← (if maximumCount ≠ metadata.maximumCount ∨ firstNonempty ≠ metadata.firstNonempty then do
    if ← collectiveValid false then orPanic none else fail .collectivePreconditionFailed
  else return ())
  let _ ← agreePreflight
    (if topology.rank = rootRank then rootAllocation alloc globalCount metadata.maximumCount
      else .ok ()) .collectivePreconditionFailed
  return (rootRank, globalCount, metadata)

/-- The global array on the root and nothing elsewhere.

SOURCE: collectives.rs:2582-2736 -/
def gather (alloc : CollectiveAllocator) (T : TypeInfo) (root : Option ℕ)
    (view : PencilArrayView α N M) : CollectiveProgram α M (Option (Buf α)) := do
  let (rootRank, globalCount, metadata) ← reducing (prepareGather alloc T root view)
  let rank := view.pencil.topology.rank
  let size := view.pencil.topology.size
  let actions ← reducing
    (orPanic (gatherActions metadata globalCount rootRank rank size view.storage))
  let received ← Fallible.perform (I := (transport Unit M).beside (gathering α))
    (.inr .messages) actions
  if rank = rootRank then
    let global ← reducing
      (orPanic (assembleGlobal view metadata globalCount rootRank size received))
    return some global
  else return none

end PencilRs.Model
