import PencilRs.Model.Collectives
import PencilRs.Model.Descriptor
import PencilRs.Model.TransposePlan

/-!
# Preparing a spatial remap

The ranks compare a descriptor of the remap.  Then each of them asks the rank that owns an element
for its value.  The coordinate of the owner along a decomposed axis is found by bisecting the
blocks of the axis; the plain `+` and `-` of the loop are checked here, and `Stop.panic` is an
overflow.

SOURCE: pencil-array/src/spatial_remap.rs
-/

set_option autoImplicit false

namespace PencilRs.Model

variable {N M : ℕ}

/-! ## Descriptors -/

namespace SpatialRemap

/-- SOURCE: spatial_remap.rs:29 -/
def descriptorSchema : BitVec 64 := 1

/-- SOURCE: spatial_remap.rs:30 -/
def opPrepare : BitVec 64 := 0x3601

/-- The map of a remap along each axis, and what is moved. -/
structure Request (N M : ℕ) where
  source : Pencil N M
  destination : Pencil N M
  element : ElementType
  extraShape : ExtraShape
  signs : Fin N → BitVec 8
  offsets : Fin N → BitVec 128

/-- SOURCE: spatial_remap.rs:503-531 -/
def descriptorLength (request : Request N M) : Except SpatialRemapError ℕ :=
  okOr (do
    let gridWords ← checkedAdd 1 M
    let pencilWords ← checkedMul N 4
    let decompositionWords ← checkedMul M 2
    let extraWords ← checkedAdd 1 request.extraShape.dimensions.length
    let offsetWords ← checkedMul N 2
    let nameWords ← checkedAdd 1 request.element.name.length
    let mpiNameWords ← checkedAdd 1 request.element.mpiName.length
    [gridWords, pencilWords, decompositionWords, extraWords, N, offsetWords, 2, nameWords,
      mpiNameWords].foldlM checkedAdd 4) .sizeOverflow

/-- SOURCE: spatial_remap.rs:648-651 -/
def pushUsize (descriptor : List (BitVec 64)) (value : ℕ) :
    Except SpatialRemapError (List (BitVec 64)) := do
  ensure (value < usizeLimit) .sizeOverflow
  return descriptor ++ [BitVec.ofNat 64 value]

/-- SOURCE: spatial_remap.rs:641-646 -/
def appendUsizes (descriptor : List (BitVec 64)) (values : List ℕ) :
    Except SpatialRemapError (List (BitVec 64)) :=
  values.foldlM pushUsize descriptor

/-- SOURCE: spatial_remap.rs:627-639 -/
def appendPencil (descriptor : List (BitVec 64)) (pencil : Pencil N M) :
    Except SpatialRemapError (List (BitVec 64)) := do
  let descriptor ← appendUsizes descriptor (List.ofFn pencil.globalShape)
  let descriptor ← appendUsizes descriptor (List.ofFn fun axis => (pencil.decomposition.axes axis).val)
  appendUsizes descriptor
    (List.ofFn fun position => (pencil.permutation.axesInMemoryOrder position).val)

/-- SOURCE: spatial_remap.rs:653-657 -/
def appendTypeName (descriptor : List (BitVec 64)) (name : List (BitVec 8)) :
    Except SpatialRemapError (List (BitVec 64)) := do
  let descriptor ← pushUsize descriptor name.length
  return descriptor ++ name.map fun byte => byte.setWidth 64

/-- SOURCE: spatial_remap.rs:411-413 -/
def signWord (sign : BitVec 8) : BitVec 64 := sign.setWidth 64

/-- The low half first.

SOURCE: spatial_remap.rs:605-613 -/
def offsetWords (offset : BitVec 128) : List (BitVec 64) :=
  [offset.extractLsb' 0 64, offset.extractLsb' 64 64]

/-- SOURCE: spatial_remap.rs:572-625 -/
def buildDescriptor (reserved : Bool) (length : ℕ) (request : Request N M) :
    Except SpatialRemapError (List (BitVec 64)) :=
  ofLength length do
    ensure reserved (.allocation "collective descriptor" length)
    let descriptor := [descriptorSchema, opPrepare, dimensionWord N, dimensionWord M,
      dimensionWord request.source.topology.size]
    let descriptor ← appendUsizes descriptor (List.ofFn request.source.topology.processGrid)
    let descriptor ← appendPencil descriptor request.source
    let descriptor ← appendPencil descriptor request.destination
    let descriptor ← pushUsize descriptor request.extraShape.dimensions.length
    let descriptor ← appendUsizes descriptor request.extraShape.dimensions
    let descriptor := descriptor ++ List.ofFn fun axis => signWord (request.signs axis)
    let descriptor := descriptor
      ++ (List.ofFn request.offsets).flatMap offsetWords
    let descriptor ← pushUsize descriptor request.element.size
    let descriptor ← pushUsize descriptor request.element.align
    let descriptor ← appendTypeName descriptor request.element.name
    appendTypeName descriptor request.element.mpiName

end SpatialRemap

/-! ## Owners -/

/-- The loop of `partition_owner` over the window `low..high`.

SOURCE: spatial_remap.rs:824-835 -/
def partitionOwnerLoop (index extent parts low high : ℕ) : Except (Stop SpatialRemapError) ℕ :=
  if low < high then
    match _hmiddle : (checkedSub high low).bind fun width => checkedAdd low (width / 2) with
    | none => .error .panic
    | some middle =>
      match partitionRange extent parts middle with
      | .error _ => .error (.error .structuralInconsistency)
      | .ok range =>
        if index < range.start then partitionOwnerLoop index extent parts low middle
        else if index ≥ range.stop then
          match _hnext : checkedAdd middle 1 with
          | none => .error .panic
          | some next => partitionOwnerLoop index extent parts next high
        else .ok middle
  else .error (.error .structuralInconsistency)
termination_by high - low
decreasing_by
  all_goals
    obtain ⟨width, hwidth, hsum⟩ := Option.bind_eq_some_iff.mp _hmiddle
    rw [checkedSub_eq_some] at hwidth
    rw [checkedAdd_eq_some] at hsum
  · omega
  · rw [checkedAdd_eq_some] at _hnext
    omega

/-- SOURCE: spatial_remap.rs:818-837 -/
def partitionOwner (index extent parts : ℕ) : Except (Stop SpatialRemapError) ℕ :=
  if extent = 0 ∨ index ≥ extent ∨ parts = 0 then .error (.error .structuralInconsistency)
  else partitionOwnerLoop index extent parts 0 parts

/-- The rank number that MPI returns is a nonnegative C integer, so it is a `usize`.

SOURCE: spatial_remap.rs:797-816 -/
def ownerRank (source : Pencil N M) (global : Fin N → ℕ) : Except (Stop SpatialRemapError) ℕ := do
  let ownerCoords ← (List.finRange M).foldlM (fun ownerCoords topologyAxis => do
    let spatialAxis := source.decomposition.axes topologyAxis
    let ownerCoordinate ← partitionOwner (global spatialAxis) (source.globalShape spatialAxis)
      (source.topology.processGrid topologyAxis)
    return Function.update ownerCoords topologyAxis ownerCoordinate) fun _ => 0
  let rank ← (source.topology.rankAt ownerCoords).mapError fun e => .error (.topology e)
  if rank ≥ source.topology.size then throw (.error .structuralInconsistency)
  return rank

end PencilRs.Model
