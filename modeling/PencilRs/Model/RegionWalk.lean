import PencilRs.Computation.Buffer
import PencilRs.Model.Transpose

/-!
# Walking regions: pack, unpack and the direct copy

A region is copied in global row-major order: an odometer runs over all axes but the last
and carries the memory offset, the last axis is one run.  Every slice index and every
`usize` operation is checked here; `none` stands for a panic, whether an index, an
overflow, a failed `expect` or a debug assertion.

SOURCE: pencil-array/src/transpose.rs
-/

set_option autoImplicit false

namespace PencilRs.Model

open PencilRs.Computation

variable {N M : ℕ} {α : Type}

/-- SOURCE: transpose.rs:915-931 -/
structure LocalLayout (N : ℕ) where
  localRanges : Fin N → Range
  shapeMemory : Fin N → ℕ
  permutation : AxisPermutation N
  localLen : ℕ

def LocalLayout.new (pencil : Pencil N M) : LocalLayout N where
  localRanges := pencil.localRanges
  shapeMemory := pencil.localShapeMemory
  permutation := pencil.permutation
  localLen := pencil.localLen

/-- SOURCE: transpose.rs:938-953 -/
structure RegionWalk (N : ℕ) where
  start : ℕ
  stride : Fin N → ℕ
  extent : Fin N → ℕ
  outerLen : ℕ
  runLen : ℕ
  runStride : ℕ
  maxOffset : ℕ

/-! ## Setting up a walk -/

/-- The loop over memory positions, last first, that lays out the strides. -/
def regionStrides (layout : LocalLayout N) : Option ((Fin N → ℕ) × ℕ) :=
  (List.finRange N).reverse.foldlM (fun state position =>
    (checkedMul state.2 (layout.shapeMemory position)).map fun running =>
      (Function.update state.1 (layout.permutation.axesInMemoryOrder position) state.2, running))
    (fun _ => 0, 1)

/-- The accumulators of the loop over global axes. -/
structure WalkState (N : ℕ) where
  extent : Fin N → ℕ
  start : ℕ
  offsetSpan : ℕ
  outerLen : ℕ
  runLen : ℕ
  runStride : ℕ

/-- One round of the loop over global axes.

SOURCE: transpose.rs:976-1017 -/
def walkStep (layout : LocalLayout N) (region : Fin N → Range) (stride : Fin N → ℕ)
    (state : WalkState N) (axis : Fin N) : Option (WalkState N) := do
  let ours := layout.localRanges axis
  let requested := region axis
  if requested.start < ours.start ∨ requested.stop > ours.stop then none
  let length ← checkedSub requested.stop requested.start
  if length = 0 then none
  let lead ← checkedMul (requested.start - ours.start) (stride axis)
  let start ← checkedAdd state.start lead
  let reach ← checkedMul (length - 1) (stride axis)
  let offsetSpan ← checkedAdd state.offsetSpan reach
  let extent := Function.update state.extent axis length
  if (axis : ℕ) + 1 < N then
    let outerLen ← checkedMul state.outerLen length
    some { state with extent, start, offsetSpan, outerLen }
  else some { state with extent, start, offsetSpan, runLen := length, runStride := stride axis }

/-- SOURCE: transpose.rs:955-1032 -/
def regionWalk (layout : LocalLayout N) (region : Fin N → Range) : Option (RegionWalk N) := do
  let (stride, _) ← regionStrides layout
  let state ← (List.finRange N).foldlM (walkStep layout region stride)
    { extent := fun _ => 0, start := 0, offsetSpan := 0, outerLen := 1, runLen := 0,
      runStride := 0 }
  let maxOffset ← checkedAdd state.start state.offsetSpan
  some {
    start := state.start, stride, extent := state.extent, outerLen := state.outerLen
    runLen := state.runLen, runStride := state.runStride, maxOffset }

/-! ## The odometer -/

/-- All axes but the last, in order. -/
def outerAxes (N : ℕ) : List (Fin N) := (List.finRange N).filter fun axis => (axis : ℕ) + 1 < N

/-- The loop of `advance_region` on `(counter, offset)`. -/
def advanceAxes (walk : RegionWalk N) : List (Fin N) → (Fin N → ℕ) × ℕ →
    Option ((Fin N → ℕ) × ℕ)
  | [], state => some state
  | axis :: rest, (counter, offset) =>
    if counter axis + 1 < walk.extent axis then
      (checkedAdd offset (walk.stride axis)).map fun offset =>
        (Function.update counter axis (counter axis + 1), offset)
    else do
      let advance ← checkedMul (counter axis) (walk.stride axis)
      let offset ← checkedSub offset advance
      advanceAxes walk rest (Function.update counter axis 0, offset)

/-- SOURCE: transpose.rs:1034-1058 -/
def advanceRegion (walk : RegionWalk N) (state : (Fin N → ℕ) × ℕ) :
    Option ((Fin N → ℕ) × ℕ) :=
  advanceAxes walk (outerAxes N).reverse state

/-! ## Copying runs -/

/-- One side of a copy: where each run starts and how far apart its elements are. -/
structure RunWalk (σ : Type) where
  first : σ
  offset : σ → ℕ
  next : σ → Option σ
  stride : ℕ
  runLen : ℕ

/-- The runs of a region in pencil storage. -/
def regionRuns (walk : RegionWalk N) : RunWalk ((Fin N → ℕ) × ℕ) where
  first := (fun _ => 0, walk.start)
  offset := Prod.snd
  next := advanceRegion walk
  stride := walk.runStride
  runLen := walk.runLen

/-- The runs of a payload segment, one after another. -/
def payloadRuns (runLen : ℕ) : RunWalk ℕ where
  first := 0
  offset := id
  next := fun offset => checkedAdd offset runLen
  stride := 1
  runLen := runLen

variable {σ τ : Type}

/-- Copy one run: a slice copy when both sides are contiguous, else element by element. -/
def copyRun (source : RunWalk σ) (target : RunWalk τ) (storage : List α) (start stop : ℕ)
    (sourceOffset targetOffset : ℕ) (buf : Buf α) : Option (Buf α) :=
  if source.stride = 1 ∧ target.stride = 1 then do
    let run ← slice? storage sourceOffset (sourceOffset + source.runLen)
    if run.length ≠ target.runLen then none
    buf.copyFromSlice start stop targetOffset run
  else
    (List.range source.runLen).foldlM (fun buf index => do
      let value ← storage[sourceOffset + index * source.stride]?
      buf.store start stop (targetOffset + index * target.stride) value) buf

/-- One position of the loop over runs; the sides advance unless it was the last one. -/
def copyRunsStep (source : RunWalk σ) (target : RunWalk τ) (outerLen : ℕ) (storage : List α)
    (start stop : ℕ) (state : Buf α × σ × τ) (position : ℕ) : Option (Buf α × σ × τ) := do
  let (buf, s, t) := state
  let buf ← copyRun source target storage start stop (source.offset s) (target.offset t) buf
  if position + 1 = outerLen then some (buf, s, t)
  else
    let s ← source.next s
    let t ← target.next t
    some (buf, s, t)

/-- The loop the three region copies share: `storage` is read, the window `start..stop` of
`buf` is written. -/
def copyRuns (source : RunWalk σ) (target : RunWalk τ) (outerLen : ℕ) (storage : List α)
    (start stop : ℕ) (buf : Buf α) : Option (Buf α) :=
  if source.runLen = 0 then some buf
  else
    ((List.range outerLen).foldlM (copyRunsStep source target outerLen storage start stop)
      (buf, source.first, target.first)).map Prod.fst

/-- SOURCE: transpose.rs:1060-1088 -/
def copyRegionToPayload (walk : RegionWalk N) (storage : List α) (start stop : ℕ)
    (payload : Buf α) : Option (Buf α) :=
  copyRuns (regionRuns walk) (payloadRuns walk.runLen) walk.outerLen storage start stop payload

/-- SOURCE: transpose.rs:1090-1118 -/
def copyRegionFromPayload (walk : RegionWalk N) (payload : List α) (start stop : ℕ)
    (storage : Buf α) : Option (Buf α) :=
  copyRuns (payloadRuns walk.runLen) (regionRuns walk) walk.outerLen payload start stop storage

/-- SOURCE: transpose.rs:1322-1358 -/
def copyRegionBetween (sourceWalk destinationWalk : RegionWalk N) (sourceStorage : List α)
    (start stop : ℕ) (destinationStorage : Buf α) : Option (Buf α) :=
  copyRuns (regionRuns sourceWalk) (regionRuns destinationWalk) sourceWalk.outerLen
    sourceStorage start stop destinationStorage

/-! ## Pack, unpack and the direct copy -/

/-- What packing and unpacking do for one peer: set up the walk of its region, check the
offsets, then copy one block of the region for each extra index.  `copy` is given the walk,
the start of the block in pencil storage and the bounds of its payload. -/
def copyPeerBlocks (layout : LocalLayout N) (region : Fin N → Range)
    (spatialLen spatialDisplacement extraCount : ℕ)
    (copy : RegionWalk N → ℕ → ℕ → ℕ → Buf α → Option (Buf α)) (buf : Buf α) :
    Option (Buf α) := do
  let walk ← regionWalk layout region
  if walk.outerLen * walk.runLen ≠ spatialLen then none
  let lastBlock ← checkedMul (extraCount - 1) layout.localLen
  let maxOffset ← checkedAdd lastBlock walk.maxOffset
  if maxOffset ≥ min (layout.localLen * extraCount) (usizeLimit - 1) then none
  let segmentStart ← checkedMul spatialDisplacement extraCount
  (List.range extraCount).foldlM (fun buf extraLinear => do
    let extraOffset ← checkedMul extraLinear layout.localLen
    let done ← checkedMul extraLinear spatialLen
    let payloadOffset ← checkedAdd segmentStart done
    let payloadEnd ← checkedAdd payloadOffset spatialLen
    copy walk extraOffset payloadOffset payloadEnd buf) buf

/-- SOURCE: transpose.rs:1138-1189 -/
def packSourceRegionsSkipping (peers : List (PeerMetadata N)) (skipPeerCoordinate : Option ℕ)
    (layout : LocalLayout N) (sourceStorage : List α) (sendBuffer : Buf α)
    (sendLen extraCount : ℕ) : Option (Buf α) :=
  if extraCount = 0 then some sendBuffer
  else peers.foldlM (fun buf peer =>
    if skipPeerCoordinate = some peer.peerCoordinate ∨ peer.sendSpatialLen = 0 then some buf
    else copyPeerBlocks layout peer.sendRegion peer.sendSpatialLen peer.sendSpatialDisplacement
      extraCount (fun walk extraOffset payloadOffset payloadEnd buf => do
        let block ← slice? sourceStorage extraOffset sourceStorage.length
        if payloadEnd > sendLen then none
        copyRegionToPayload walk block payloadOffset payloadEnd buf) buf) sendBuffer

/-- SOURCE: transpose.rs:1191-1208 -/
def packSource (peers : List (PeerMetadata N)) (sourcePencil : Pencil N M)
    (sourceStorage : List α) (sendBuffer : Buf α) (sendLen extraCount : ℕ) : Option (Buf α) :=
  packSourceRegionsSkipping peers none (LocalLayout.new sourcePencil) sourceStorage sendBuffer
    sendLen extraCount

/-- SOURCE: transpose.rs:1210-1228 -/
def packSourceExceptSelf (peers : List (PeerMetadata N)) (selfCoordinate : ℕ)
    (sourcePencil : Pencil N M) (sourceStorage : List α) (sendBuffer : Buf α)
    (sendLen extraCount : ℕ) : Option (Buf α) :=
  packSourceRegionsSkipping peers (some selfCoordinate) (LocalLayout.new sourcePencil)
    sourceStorage sendBuffer sendLen extraCount

/-- The destination is the prefix of length `storageLen` of the written block.

SOURCE: transpose.rs:1247-1289 -/
def unpackDestinationRegionsSkipping (peers : List (PeerMetadata N))
    (skipPeerCoordinate : Option ℕ) (layout : LocalLayout N) (destinationStorage : Buf α)
    (storageLen : ℕ) (receiveBuffer : List α) (extraCount : ℕ) : Option (Buf α) :=
  if extraCount = 0 then some destinationStorage
  else peers.foldlM (fun buf peer =>
    if skipPeerCoordinate = some peer.peerCoordinate ∨ peer.receiveSpatialLen = 0 then some buf
    else copyPeerBlocks layout peer.receiveRegion peer.receiveSpatialLen
      peer.receiveSpatialDisplacement extraCount
      (fun walk extraOffset payloadOffset payloadEnd buf => do
        let payload ← slice? receiveBuffer payloadOffset payloadEnd
        if extraOffset > storageLen then none
        copyRegionFromPayload walk payload extraOffset storageLen buf) buf) destinationStorage

/-- SOURCE: transpose.rs:1291-1306 -/
def unpackDestination (peers : List (PeerMetadata N)) (destinationPencil : Pencil N M)
    (destinationStorage : Buf α) (storageLen : ℕ) (receiveBuffer : List α) (extraCount : ℕ) :
    Option (Buf α) :=
  unpackDestinationRegionsSkipping peers none (LocalLayout.new destinationPencil)
    destinationStorage storageLen receiveBuffer extraCount

/-- SOURCE: transpose.rs:1308-1325 -/
def unpackDestinationExceptSelf (peers : List (PeerMetadata N)) (selfCoordinate : ℕ)
    (destinationPencil : Pencil N M) (destinationStorage : Buf α) (storageLen : ℕ)
    (receiveBuffer : List α) (extraCount : ℕ) : Option (Buf α) :=
  unpackDestinationRegionsSkipping peers (some selfCoordinate)
    (LocalLayout.new destinationPencil) destinationStorage storageLen receiveBuffer extraCount

/-- SOURCE: transpose.rs:1360-1400 -/
def copySelfRegionRegions (sourceLayout : LocalLayout N) (sourceRegion : Fin N → Range)
    (sourceStorage : List α) (destinationLayout : LocalLayout N)
    (destinationRegion : Fin N → Range) (destinationStorage : Buf α) (storageLen : ℕ)
    (extraCount : ℕ) : Option (Buf α) := do
  if extraCount = 0 then return destinationStorage
  let spatialLen ← (regionSpatialLen sourceRegion).toOption
  if spatialLen = 0 then return destinationStorage
  let sourceWalk ← regionWalk sourceLayout sourceRegion
  let destinationWalk ← regionWalk destinationLayout destinationRegion
  if sourceWalk.outerLen * sourceWalk.runLen ≠ spatialLen then none
  if destinationWalk.outerLen * destinationWalk.runLen ≠ spatialLen then none
  (List.range extraCount).foldlM (fun buf extraLinear => do
    let sourceExtraOffset ← checkedMul extraLinear sourceLayout.localLen
    let destinationExtraOffset ← checkedMul extraLinear destinationLayout.localLen
    let block ← slice? sourceStorage sourceExtraOffset sourceStorage.length
    if destinationExtraOffset > storageLen then none
    copyRegionBetween sourceWalk destinationWalk block destinationExtraOffset storageLen buf)
    destinationStorage

/-- SOURCE: transpose.rs:1402-1420 -/
def copySelfRegion (peer : PeerMetadata N) (sourcePencil : Pencil N M) (sourceStorage : List α)
    (destinationPencil : Pencil N M) (destinationStorage : Buf α) (storageLen extraCount : ℕ) :
    Option (Buf α) :=
  copySelfRegionRegions (LocalLayout.new sourcePencil) peer.sendRegion sourceStorage
    (LocalLayout.new destinationPencil) peer.receiveRegion destinationStorage storageLen
    extraCount

end PencilRs.Model
