import PencilRs.Model.RegionWalk

/-!
# Regions element by element

The references of the tests: the index of an element of a region, the offset check that visits
every element, and the offsets of all elements in payload order.

SOURCE: pencil-array/src/transpose.rs
-/

set_option autoImplicit false

namespace PencilRs.Model.Reference

variable {N : ℕ}

/-- One round of the loop of `region_index` over the axes, on `(index, linear)`. -/
def regionIndexStep (region : Fin N → Range) (shape : Fin N → ℕ) (state : (Fin N → ℕ) × ℕ)
    (axis : Fin N) : Except TransposeError ((Fin N → ℕ) × ℕ) :=
  if shape axis = 0 then .error .preparationFailed
  else .ok (Function.update state.1 axis ((region axis).start + state.2 % shape axis),
    state.2 / shape axis)

/-- SOURCE: transpose.rs:886-906 -/
def regionIndex (region : Fin N → Range) (linear : ℕ) : Except TransposeError (Fin N → ℕ) := do
  let shape ← regionShape region
  let (index, _) ← (List.finRange N).reverse.foldlM (regionIndexStep region shape)
    (fun _ => 0, linear)
  return index

/-- The loop over the axes that checks an element and shifts it by the range starts. -/
def localIndex (localRanges : Fin N → Range) (global : Fin N → ℕ) :
    Except TransposeError (Fin N → ℕ) :=
  (List.finRange N).foldlM (fun index axis =>
    let range := localRanges axis
    if global axis < range.start ∨ global axis ≥ range.stop then .error .preparationFailed
    else .ok (Function.update index axis (global axis - range.start))) fun _ => 0

/-- One element of `validate_region_offsets_reference`. -/
def validateElement (localRanges : Fin N → Range) (localShapeMemory : Fin N → ℕ)
    (permutation : AxisPermutation N) (storageLen : ℕ) (region : Fin N → Range)
    (extraOffset linear : ℕ) : Except TransposeError Unit := do
  let global ← regionIndex region linear
  let index ← localIndex localRanges global
  let memory := permutation.permute index
  let spatialOffset ← (rowMajorOffset (List.ofFn localShapeMemory) (List.ofFn memory)).mapError
    fun _ => .preparationFailed
  let offset ← okOr (checkedAdd extraOffset spatialOffset) .preparationFailed
  if offset ≥ storageLen then throw .preparationFailed

/-- SOURCE: transpose.rs:1675-1718 -/
def validateRegionOffsetsReference (localRanges : Fin N → Range) (localShapeMemory : Fin N → ℕ)
    (permutation : AxisPermutation N) (localLen storageLen : ℕ) (region : Fin N → Range)
    (extraCount : ℕ) : Except TransposeError Unit := do
  if extraCount = 0 then return ()
  let spatialLen ← regionSpatialLen region
  if spatialLen = 0 then return ()
  (List.range extraCount).foldlM (fun _ extraLinear => do
    let extraOffset ← okOr (checkedMul extraLinear localLen) .preparationFailed
    (List.range spatialLen).foldlM (fun _ linear => validateElement localRanges localShapeMemory
      permutation storageLen region extraOffset linear) ()) ()

/-- The offsets of the elements of a region in payload order; `none` where an `expect` or the
`assert` panics.

SOURCE: transpose.rs:2000-2020 -/
def referenceRegionOffsets (localRanges : Fin N → Range) (shapeMemory : Fin N → ℕ)
    (permutation : AxisPermutation N) (region : Fin N → Range) : Option (List ℕ) := do
  let spatialLen ← (regionSpatialLen region).toOption
  (List.range spatialLen).mapM fun linear => do
    let global ← (regionIndex region linear).toOption
    let index ← (localIndex localRanges global).toOption
    (rowMajorOffset (List.ofFn shapeMemory) (List.ofFn (permutation.permute index))).toOption

end PencilRs.Model.Reference
