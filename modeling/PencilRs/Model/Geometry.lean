import PencilRs.Model.Machine

/-!
# Block partitions and row-major offsets

The geometry every layout rests on: `partitionRange` splits an axis by the floor rule,
`localRangesFor` does so on each decomposed axis, `rowMajorOffset` turns an index tuple
into a storage offset with checked arithmetic.

SOURCE: pencil-array/src/geometry.rs, checked.rs
-/

set_option autoImplicit false

namespace PencilRs.Model

/-- The geometry errors the modelled functions return. -/
inductive GeometryError where
  | zeroPartitions
  | zeroProcessExtent (axis : ℕ)
  | processCoordinateOutOfBounds (axis coordinate extent : ℕ)
  | localIndexOutOfBounds (axis index extent : ℕ)
  | rankMismatch (shapeRank indexRank : ℕ)
  | sizeOverflow
  | countOverflow
deriving Repr, DecidableEq

/-- A half-open range `start..stop`. -/
structure Range where
  start : ℕ
  stop : ℕ
deriving Repr, DecidableEq

namespace Range

/-- `Range::len`, zero for a reversed range. -/
def len (r : Range) : ℕ := r.stop - r.start

/-- `Range::contains`. -/
def contains (r : Range) (i : ℕ) : Bool := r.start ≤ i && i < r.stop

@[simp] theorem contains_iff (r : Range) (i : ℕ) :
    r.contains i = true ↔ r.start ≤ i ∧ i < r.stop := by
  simp [contains]

end Range

/-- SOURCE: checked.rs:3-11 -/
def checkedProduct (values : List ℕ) : Except GeometryError ℕ :=
  if values.contains 0 then .ok 0
  else values.foldlM (fun acc value => okOr (checkedMul acc value) .sizeOverflow) 1

/-- The `boundary` closure of `partition_range`: a `u128` product and quotient, cast back
to `usize`.

SOURCE: geometry.rs:28 -/
def boundary (length parts position : ℕ) : ℕ :=
  length * position % u128Limit / parts % usizeLimit

/-- SOURCE: geometry.rs:13-30 -/
def partitionRange (length parts coordinate : ℕ) : Except GeometryError Range :=
  if parts = 0 then .error .zeroPartitions
  else if coordinate ≥ parts then
    .error (.processCoordinateOutOfBounds 0 coordinate parts)
  else .ok ⟨boundary length parts coordinate, boundary length parts (coordinate + 1)⟩

variable {N M : ℕ}

/-- One step of the loop over topology axes: check the coordinate, then replace the range
of the spatial axis it decomposes. -/
def localRangesStep (globalShape : Fin N → ℕ) (processGrid processCoords : Fin M → ℕ)
    (decomposition : Fin M → Fin N) (ranges : Fin N → Range) (topologyAxis : Fin M) :
    Except GeometryError (Fin N → Range) := do
  let extent := processGrid topologyAxis
  let coordinate := processCoords topologyAxis
  if extent = 0 then throw (.zeroProcessExtent topologyAxis)
  if coordinate ≥ extent then
    throw (.processCoordinateOutOfBounds topologyAxis coordinate extent)
  let spatialAxis := decomposition topologyAxis
  let range ← partitionRange (globalShape spatialAxis) extent coordinate
  return Function.update ranges spatialAxis range

/-- SOURCE: geometry.rs:33-59 -/
def localRangesFor (globalShape : Fin N → ℕ) (processGrid processCoords : Fin M → ℕ)
    (decomposition : Fin M → Fin N) : Except GeometryError (Fin N → Range) :=
  (List.finRange M).foldlM
    (localRangesStep globalShape processGrid processCoords decomposition)
    fun axis => ⟨0, globalShape axis⟩

/-- SOURCE: geometry.rs:61-63 -/
def shapeFromRanges (ranges : Fin N → Range) : Fin N → ℕ := fun axis => (ranges axis).len

/-- One step of the Horner loop of `row_major_offset` on `((extent, index), axis)`. -/
def rowMajorStep (offset : ℕ) (entry : (ℕ × ℕ) × ℕ) : Except GeometryError ℕ :=
  let ((extent, index), axis) := entry
  if index ≥ extent then .error (.localIndexOutOfBounds axis index extent)
  else okOr ((checkedMul offset extent).bind fun base => checkedAdd base index) .sizeOverflow

/-- SOURCE: geometry.rs:65-87 -/
def rowMajorOffset (shape indices : List ℕ) : Except GeometryError ℕ :=
  if shape.length ≠ indices.length then .error (.rankMismatch shape.length indices.length)
  else (shape.zip indices).zipIdx.foldlM rowMajorStep 0

end PencilRs.Model
