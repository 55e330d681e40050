import PencilRs.Model.Pencil

/-!
# Extra shapes, array views and element offsets

A view pairs a pencil and an extra shape with storage of exactly the required length.
Elements are stored in row-major order of `[extra..., permuted spatial...]`.

SOURCE: pencil-array/src/extra_shape.rs, view.rs
-/

set_option autoImplicit false

namespace PencilRs.Model

inductive ArrayError where
  | storageLengthMismatch (required actual : ℕ)
  | allocationFailed (required : ℕ)
  | extraIndexRankMismatch (required actual : ℕ)
  | incompatiblePencils
  | invalidActiveLayout (index layoutCount : ℕ)
  | poisoned
  | geometry (error : GeometryError)
deriving Repr, DecidableEq

inductive ShapeError where
  | sizeOverflow
deriving Repr, DecidableEq

/-- The undistributed dimensions before the spatial ones, with their checked product. -/
structure ExtraShape where
  dimensions : List ℕ
  elementCount : ℕ
  elementCount_ok : checkedProduct dimensions = .ok elementCount
deriving DecidableEq

namespace ExtraShape

/-- SOURCE: extra_shape.rs:14-21 -/
def new (dimensions : List ℕ) : Except ShapeError ExtraShape :=
  match h : checkedProduct dimensions with
  | .error _ => .error .sizeOverflow
  | .ok elementCount => .ok ⟨dimensions, elementCount, h⟩

/-- SOURCE: extra_shape.rs:24-29 -/
def scalar : ExtraShape := ⟨[], 1, rfl⟩

end ExtraShape

variable {N M : ℕ}

/-- SOURCE: view.rs:379-389 -/
def validateStorageLen (pencil : Pencil N M) (extraShape : ExtraShape) (actual : ℕ) :
    Except ArrayError Unit := do
  let required ←
    (checkedProduct [extraShape.elementCount, pencil.localLen]).mapError .geometry
  if actual ≠ required then throw (.storageLengthMismatch required actual)

/-- `[extra..., permuted spatial...]` in row-major memory order.

SOURCE: view.rs:26-31 -/
def memoryShape (pencil : Pencil N M) (extraShape : ExtraShape) : List ℕ :=
  extraShape.dimensions ++ List.ofFn pencil.localShapeMemory

/-- SOURCE: view.rs:33-55 -/
def localOffset (pencil : Pencil N M) (extraShape : ExtraShape) (extraIndices : List ℕ)
    (spatialIndices : Fin N → ℕ) : Except ArrayError ℕ :=
  if extraIndices.length ≠ extraShape.dimensions.length then
    .error (.extraIndexRankMismatch extraShape.dimensions.length extraIndices.length)
  else
    let memoryIndices := extraIndices ++
      List.ofFn fun position => spatialIndices (pencil.permutation.axesInMemoryOrder position)
    (rowMajorOffset (memoryShape pencil extraShape) memoryIndices).mapError .geometry

/-- The loop of `global_offset`: check each axis and shift it by the range start. -/
def localSpatialIndices (pencil : Pencil N M) (globalSpatialIndices : Fin N → ℕ) :
    Option (Fin N → ℕ) :=
  (List.finRange N).foldlM (fun indices axis =>
    let range := pencil.localRanges axis
    if range.contains (globalSpatialIndices axis) then
      some (Function.update indices axis (globalSpatialIndices axis - range.start))
    else none) fun _ => 0

/-- SOURCE: view.rs:57-72 -/
def globalOffset (pencil : Pencil N M) (extraShape : ExtraShape) (extraIndices : List ℕ)
    (globalSpatialIndices : Fin N → ℕ) : Option ℕ := do
  let indices ← localSpatialIndices pencil globalSpatialIndices
  (localOffset pencil extraShape extraIndices indices).toOption

/-- A local array view: layout metadata and storage of the required length.  The mutable
view of the source has the same fields. -/
structure PencilArrayView (α : Type) (N M : ℕ) where
  pencil : Pencil N M
  extraShape : ExtraShape
  storage : List α
  storageLen_ok : validateStorageLen pencil extraShape storage.length = .ok ()

namespace PencilArrayView

variable {α : Type}

/-- SOURCE: view.rs:109-123 -/
def fromSlice (pencil : Pencil N M) (extraShape : ExtraShape) (storage : List α) :
    Except ArrayError (PencilArrayView α N M) :=
  match h : validateStorageLen pencil extraShape storage.length with
  | .error e => .error e
  | .ok () => .ok ⟨pencil, extraShape, storage, h⟩

/-- SOURCE: view.rs:166-169 -/
def getLocal (view : PencilArrayView α N M) (extraIndices : List ℕ)
    (spatialIndices : Fin N → ℕ) : Option α := do
  let offset ← (localOffset view.pencil view.extraShape extraIndices spatialIndices).toOption
  view.storage[offset]?

/-- SOURCE: view.rs:176-183 -/
def getGlobal (view : PencilArrayView α N M) (extraIndices : List ℕ)
    (globalSpatialIndices : Fin N → ℕ) : Option α := do
  let offset ← globalOffset view.pencil view.extraShape extraIndices globalSpatialIndices
  view.storage[offset]?

end PencilArrayView

end PencilRs.Model
