import PencilRs.Computation.Hyperslab
import PencilRs.Model.Codec
import PencilRs.Model.Hdf5Schema

/-!
# The payload of an HDF5 dataset

The parallel backend: all ranks create the dataset together, every rank selects its block in the
dataset and writes its string there, and the marker is set once all have written.  A reader
checks the attributes, the type and the extents, selects the block of its own layout and decodes
what it reads.  The serial backend transfers the whole array at once.

The calls of the library succeed, and a transfer does what the selections say.

SOURCE: pencil-io/src/hdf5_io.rs, serial_hdf5.rs
-/

set_option autoImplicit false

namespace PencilRs.Model

open PencilRs.Computation

namespace Hdf5

variable {N M : ℕ}

/-! ## The place of a block in the dataset -/

/-- SOURCE: hdf5_io.rs:2589-2595 -/
structure H5Layout where
  global : List ℕ
  localDims : List ℕ
  starts : List ℕ
  block : List ℕ
  empty : Bool
deriving Repr, DecidableEq

/-- `hsize_t` has 64 bits.

SOURCE: hdf5_io.rs:2620-2624 -/
def toHsize (value : ℕ) : Except IoError ℕ := do
  ensure (value < 2 ^ 64) (.sizeLimit "HDF5 dimension")
  return value

/-- One axis of the four vectors of `build_layout`: global, local, start and block. -/
abbrev LayoutAxis : Type := ℕ × ℕ × ℕ × ℕ

/-- One extra dimension of the loop of `build_layout`. -/
def pushExtra (axes : List LayoutAxis) (extent : ℕ) : Except IoError (List LayoutAxis) := do
  let whole ← toHsize extent
  let part ← toHsize extent
  let block ← toHsize extent
  return axes ++ [(whole, part, 0, block)]

/-- One spatial axis of the loop of `build_layout`. -/
def pushSpatial (global localShape : Fin N → ℕ) (ranges : Fin N → Range)
    (axes : List LayoutAxis) (axis : Fin N) : Except IoError (List LayoutAxis) := do
  let whole ← toHsize (global axis)
  let part ← toHsize (localShape axis)
  let start ← toHsize (ranges axis).start
  let block ← toHsize (ranges axis).len
  return axes ++ [(whole, part, start, block)]

/-- The four vectors are built side by side.

SOURCE: hdf5_io.rs:2542-2587 -/
def buildLayout (reserved : Bool) (global : Fin N → ℕ) (extra : List ℕ) (localShape : Fin N → ℕ)
    (ranges : Fin N → Range) (localElements : ℕ) : Except IoError H5Layout := do
  let rank ← okOr (checkedAdd extra.length N) (.sizeLimit "HDF5 rank")
  ensure (rank ≠ 0 && rank ≤ maxProtocolRank) (.sizeLimit "HDF5 rank")
  ensure reserved (.allocationFailed (rank * 8))
  let axes ← extra.foldlM pushExtra []
  let axes ← (List.finRange N).foldlM (pushSpatial global localShape ranges) axes
  return {
    global := axes.map fun (whole, _, _, _) => whole
    localDims := axes.map fun (_, part, _, _) => part
    starts := axes.map fun (_, _, start, _) => start
    block := axes.map fun (_, _, _, block) => block
    empty := localElements = 0 || extra.contains 0 }

/-! ## Selections -/

/-- The stride is one.

SOURCE: ffi.rs:1161-1185 -/
def selectHyperslab (dims start count block : List ℕ) : Dataspace :=
  ⟨dims, .hyperslab ((dims.zip (start.zip (count.zip block))).map
    fun (extent, start, count, block) => ⟨extent, start, 1, count, block⟩)⟩

/-- The selections in the dataset and in memory.

SOURCE: hdf5_io.rs:1337-1390 -/
def selectSpaces (reserved : Bool) (fileDims memDims : List ℕ) (layout : H5Layout) :
    Except IoError (Dataspace × Dataspace) := do
  let rank := layout.global.length
  ensure reserved (.allocationFailed (rank * 8 * 3))
  let count := List.replicate rank 1
  let memStart := List.replicate rank 0
  let memCount := List.replicate rank 1
  if layout.empty then return (⟨fileDims, .none⟩, ⟨memDims, .none⟩)
  else
    return (selectHyperslab fileDims layout.starts count layout.block,
      selectHyperslab memDims memStart memCount layout.block)

/-- The extents of the memory dataspace.

SOURCE: hdf5_io.rs:1515-1519, 1680-1684 -/
def memoryDims (layout : H5Layout) : List ℕ :=
  if layout.empty && !layout.global.contains 0 then layout.global else layout.localDims

/-- The elements of a buffer, each of `width` bytes. -/
def elementsOf (width : ℕ) (bytes : List Byte) : List (List Byte) :=
  (List.range (bytes.length / width)).map fun i => (bytes.drop (i * width)).take width

/-! ## Attributes -/

/-- The attributes of a dataset, as they are written one after another. -/
abbrev Attributes : Type := Attribute → Option StoredAttribute

/-- SOURCE: hdf5_io.rs:1949-2037 -/
def writeAttrU64 (reserved : Bool) (values : List ℕ) : Except IoError StoredAttribute := do
  ensure (!values.isEmpty) (.invalidInput "HDF5 attributes cannot be empty")
  let byteLen ← okOr (checkedMul values.length 8) (.sizeLimit "HDF5 attribute bytes")
  ensure reserved (.allocationFailed byteLen)
  return { shape := if values.length = 1 then [] else [values.length], values }

/-- What the allocator grants while the attributes are written. -/
structure MetadataAllocator where
  global : Bool
  extra : Bool
  grid : Bool
  permutation : Bool
  values : Attribute → Bool

/-- SOURCE: hdf5_io.rs:1730-1787, 2525-2540 -/
def writeMetadata (alloc : MetadataAllocator) {scalar : ScalarType}
    (view : PencilArrayView scalar.Value N M) : Except (Stop IoError) Attributes := do
  let globalValues ← MpiIo.tryU64Values alloc.global (List.ofFn view.pencil.globalShape)
  let extraValues ← MpiIo.tryU64Values alloc.extra view.extraShape.dimensions
  let gridValues ← MpiIo.tryU64Values alloc.grid (List.ofFn view.pencil.topology.processGrid)
  let permValues ← MpiIo.tryU64Values alloc.permutation
    (List.ofFn fun position => (view.pencil.permutation.axesInMemoryOrder position : ℕ))
  let metadata := Metadata.forWrite N scalar.code scalar.width extraValues globalValues gridValues
    permValues
  (Attribute.all.filter fun attr => attr.present extraValues.length).foldlM (fun attributes attr =>
    (((writeAttrU64 (alloc.values attr) (metadata.value attr)).mapError Stop.error).map some).map
      (Function.update attributes attr)) fun _ => none

/-- An attribute of the expected length.

SOURCE: hdf5_io.rs:2217-2378 -/
def readAttr (reserved : Bool) (attributes : Attributes) (attr : Attribute) (n er : ℕ) :
    Except IoError (List ℕ) := do
  let (expected, max) := attr.readLen n er
  let stored ← okOr (attributes attr) (.metadataMismatch "missing HDF5 attribute")
  let length ← (match stored.shape with
    | [] => .ok 1
    | [length] => .ok length
    | _ => .error (.metadataMismatch "HDF5 attribute type or shape"))
  ensure (length ≤ max && expected.all fun expected => expected = length)
    (.metadataMismatch "HDF5 attribute type or shape")
  let byteLen ← okOr (checkedMul length 8) (.sizeLimit "HDF5 attribute bytes")
  ensure reserved (.allocationFailed byteLen)
  return stored.values

/-- The flags of the permutation check are allocated.

SOURCE: hdf5_io.rs:1033-1043 -/
def validWriterProvenance (reserved : Bool) (grid permutation : List ℕ) (spatialRank : ℕ) : Bool :=
  if !validWriterGrid grid spatialRank || permutation.length ≠ spatialRank then false
  else if !reserved then false
  else validPermutation permutation spatialRank spatialRank

/-- What the allocator grants while the attributes are read. -/
structure ReadMetadataAllocator where
  values : Attribute → Bool
  seen : Bool

/-- The first value of an attribute, `values[0]`. -/
def firstValue (values : List ℕ) : Except (Stop IoError) ℕ := okOr values.head? .panic

/-- SOURCE: hdf5_io.rs:2123-2215 -/
def validateReadMetadata (alloc : ReadMetadataAllocator) {scalar : ScalarType}
    (attributes : Attributes) (view : PencilArrayView scalar.Value N M) :
    Except (Stop IoError) Unit := do
  let extraDims := view.extraShape.dimensions
  let metadata := Metadata.expected N scalar.code scalar.width extraDims.length extraDims
    (List.ofFn view.pencil.globalShape)
  let read := fun attr =>
    (readAttr (alloc.values attr) attributes attr N extraDims.length).mapError Stop.error
  let version ← read .version
  let commit ← read .commit
  let n ← read .rank
  let typeCode ← read .typeCode
  let width ← read .width
  let extraRank ← read .extraRank
  let storedExtraRank ← firstValue extraRank
  ensure (metadata.matchesRead .version version && metadata.matchesRead .rank n
    && metadata.matchesRead .typeCode typeCode && metadata.matchesRead .width width
    && metadata.matchesRead .extraRank extraRank && rankInRange storedExtraRank)
    (.error (.metadataMismatch "version, rank, or type"))
  let marker ← firstValue commit
  (match commitState marker with
    | .complete => .ok ()
    | .incomplete => .error (.error .incompleteFile)
    | .invalid => .error (.error (.invalidFile "HDF5 commit marker")))
  let extra ← (if Attribute.extraShape.present storedExtraRank then read .extraShape
    else if (attributes .extraShape).isSome then
      .error (.error (.metadataMismatch "extra shape"))
    else .ok [])
  let global ← read .globalShape
  let writerGrid ← read .writerGrid
  let writerPerm ← read .writerPermutation
  ensure (validGlobalShape global && metadata.matchesRead .globalShape global
    && metadata.matchesRead .extraShape extra
    && validWriterProvenance alloc.seen writerGrid writerPerm N)
    (.error (.metadataMismatch "shape or writer provenance"))

/-! ## Writing -/

/-- What the allocator grants to a rank of `write_hdf5`. -/
structure WriteAllocator where
  pack : PackAllocator
  layout : Bool
  metadata : MetadataAllocator
  selection : Bool

/-- The layout of a view. -/
def layoutOfView (reserved : Bool) {scalar : ScalarType} (view : PencilArrayView scalar.Value N M) :
    Except IoError H5Layout :=
  buildLayout reserved view.pencil.globalShape view.extraShape.dimensions
    view.pencil.localShapeLogical view.pencil.localRanges view.storage.length

/-- SOURCE: hdf5_io.rs:226-240 -/
def prepareWrite (alloc : WriteAllocator) {scalar : ScalarType}
    (view : PencilArrayView scalar.Value N M) : Except (Stop IoError) (List Byte × H5Layout) := do
  let packed ← packView alloc.pack view
  let layout ← (layoutOfView alloc.layout view).mapError .error
  return (packed, layout)

/-- The type of the dataset.

SOURCE: ffi.rs:1242-1255 -/
def typeFromKind (code width : ℕ) : Except IoError ScalarSpec :=
  okOr ((scalarSpec code).filter fun spec => spec.width = width)
    (.native "HDF5 datatype create" (-1))

/-- The dataset the ranks create together; its elements are zero.

SOURCE: hdf5_io.rs:1397-1430, 1453-1504 -/
def createDataset (alloc : MetadataAllocator) {scalar : ScalarType}
    (view : PencilArrayView scalar.Value N M) (layout : H5Layout) :
    Except (Stop IoError) Dataset := do
  let datatype ← (typeFromKind scalar.code scalar.width).mapError .error
  let attributes ← writeMetadata alloc view
  return {
    datatype
    dims := layout.global
    cells := List.replicate layout.global.prod (List.replicate datatype.width 0)
    attributes }

/-- What a rank stores in the dataset, element by element.

SOURCE: hdf5_io.rs:1509-1576 -/
def writePayload (reserved : Bool) (dataset : Dataset) (layout : H5Layout) (packed : List Byte) :
    Except IoError (List (ℕ × List Byte)) := do
  let (fileSpace, memSpace) ← selectSpaces reserved dataset.dims (memoryDims layout) layout
  if layout.global.contains 0 then return []
  else
    okOr (transferWrites memSpace fileSpace (elementsOf dataset.datatype.width packed))
      (.native "H5Dwrite" (-1))

/-- What a rank brings to the dataset: the dataset it creates with the others, and what it
stores there.

SOURCE: hdf5_io.rs:197-317 -/
def contribute (alloc : WriteAllocator) {scalar : ScalarType}
    (view : PencilArrayView scalar.Value N M) :
    Except (Stop IoError) (Dataset × List (ℕ × List Byte)) := do
  let (packed, layout) ← prepareWrite alloc view
  let dataset ← createDataset alloc.metadata view layout
  let writes ← (writePayload alloc.selection dataset layout packed).mapError .error
  return (dataset, writes)

/-- The dataset once some writes are made and the marker is set.

SOURCE: hdf5_io.rs:1577-1595 -/
def publish (created : Dataset) (writes : List (ℕ × List Byte)) : Dataset :=
  { created with cells := pokeAll (List.replicate created.datatype.width 0) created.cells writes
    }.writeExisting .commit [commitMarker]

/-! ## Reading -/

/-- What the allocator grants to a rank of `read_hdf5`. -/
structure ReadAllocator where
  layout : Bool
  staging : Bool
  metadata : ReadMetadataAllocator
  selection : Bool
  decode : DecodeAllocator

/-- SOURCE: hdf5_io.rs:872-905 -/
def prepareRead (alloc : ReadAllocator) {scalar : ScalarType}
    (view : PencilArrayView scalar.Value N M) : Except IoError (H5Layout × List Byte) := do
  let layout ← layoutOfView alloc.layout view
  let bytes ← okOr (checkedMul view.storage.length scalar.width) (.sizeLimit "HDF5 staging bytes")
  ensure alloc.staging (.allocationFailed bytes)
  return (layout, List.replicate bytes 0)

/-- SOURCE: hdf5_io.rs:1627-1692 -/
def validateAndSelect (alloc : ReadAllocator) {scalar : ScalarType} (dataset : Dataset)
    (view : PencilArrayView scalar.Value N M) (layout : H5Layout) :
    Except (Stop IoError) (Dataspace × Dataspace) := do
  validateReadMetadata alloc.metadata dataset.attributes view
  ensure (typeMatches dataset.datatype scalar.code scalar.width)
    (.error (.metadataMismatch "dataset datatype"))
  ensure (dataset.dims = layout.global) (.error (.metadataMismatch "dataset dimensions"))
  (selectSpaces alloc.selection dataset.dims (memoryDims layout) layout).mapError .error

/-- The bytes in the staging buffer after the transfer.

SOURCE: hdf5_io.rs:1695-1728 -/
def readPayload (dataset : Dataset) (layout : H5Layout) (fileSpace memSpace : Dataspace)
    (staging : List Byte) : Except IoError (List Byte) :=
  if layout.global.contains 0 then .ok staging
  else do
    let elements ← okOr (transferRead memSpace fileSpace dataset.cells
      (elementsOf dataset.datatype.width staging)) (.native "H5Dread" (-1))
    return elements.flatten

/-- What `read_hdf5` leaves in the storage of a rank's view.

SOURCE: hdf5_io.rs:842-998 -/
def readHdf5 (alloc : ReadAllocator) {scalar : ScalarType} (dataset : Dataset)
    (view : PencilArrayView scalar.Value N M) : Except (Stop IoError) (Buf scalar.Value) := do
  let (layout, staging) ← (prepareRead alloc view).mapError .error
  let (fileSpace, memSpace) ← validateAndSelect alloc dataset view layout
  let staging ← (readPayload dataset layout fileSpace memSpace staging).mapError .error
  let plan ← (preparePhysicalDecode alloc.decode view staging).mapError .error
  plan.decodeInto staging (Buf.fresh view.storage)

end Hdf5

/-! ## The serial backend -/

namespace SerialHdf5

open Hdf5

/-- `H5S_MAX_RANK` -/
def maxRank : ℕ := 32

/-- `isize::MAX` -/
def isizeMax : ℕ := 2 ^ 63 - 1

/-- SOURCE: serial_hdf5.rs:211-241 -/
def layout (scalar : ScalarType) (global extra : List ℕ) (len : ℕ) :
    Except IoError (List ℕ × ℕ) := do
  ensure (!global.isEmpty && (checkedAdd global.length extra.length).any fun rank => rank ≤ maxRank)
    (.invalidInput "HDF5 logical rank must be 1..=32")
  let spatial ← elementCount global
  let extraElements ← elementCount extra
  let elements ← okOr (checkedMul spatial extraElements) (.sizeLimit "global element count")
  ensure (elements = len) (.invalidInput "slice length does not match shape")
  let bytes ← okOr ((checkedMul len scalar.width).filter fun bytes => bytes ≤ isizeMax)
    (.sizeLimit "serial payload bytes")
  return (extra ++ global, bytes)

/-- The attributes of a serial writer: one process, and the identity permutation. -/
def metadataOf (scalar : ScalarType) (global extra : List ℕ) : Metadata :=
  Metadata.forWrite global.length scalar.code scalar.width extra global [1]
    (List.range global.length)

/-- SOURCE: serial_hdf5.rs:288-312 -/
def writeAttribute (values : List ℕ) : StoredAttribute := { shape := [values.length], values }

/-- SOURCE: serial_hdf5.rs:65-93 -/
def writeMetadata (scalar : ScalarType) (global extra : List ℕ) : Attributes := fun attr =>
  if attr.present extra.length then
    some (writeAttribute ((metadataOf scalar global extra).value attr))
  else none

/-- The dataset that `write_hdf5_serial` leaves.

SOURCE: serial_hdf5.rs:27-139 -/
def writeHdf5Serial (reserved : Bool) {scalar : ScalarType} (global extra : List ℕ)
    (values : List scalar.Value) : Except (Stop IoError) Dataset := do
  let (shape, bytes) ← (layout scalar global extra values.length).mapError .error
  ensure reserved (.error (.allocationFailed bytes))
  let packed := values.flatMap scalar.encodeLe
  let datatype ← okOr (scalarSpec scalar.code) .panic
  let created : Dataset := {
    datatype
    dims := shape
    cells := List.replicate shape.prod (List.replicate datatype.width 0)
    attributes := writeMetadata scalar global extra }
  let writes ← (if packed.isEmpty then .ok [] else
    okOr (transferWrites ⟨shape, .all⟩ ⟨shape, .all⟩ (elementsOf datatype.width packed))
      (.error (.writeIncomplete "HDF5 serial payload")))
  return publish created writes

/-- SOURCE: serial_hdf5.rs:351-382 -/
def readAttribute (attributes : Attributes) (attr : Attribute) (n er : ℕ) :
    Except IoError (List ℕ) := do
  let expected := (attr.readLen n er).1
  let stored ← okOr (attributes attr) (.metadataMismatch "missing HDF5 attribute")
  let len ← (match stored.shape with
    | [] => .ok 1
    | [len] => .ok len
    | _ => .error (.metadataMismatch "HDF5 attribute type or shape"))
  ensure (len ≤ maxProtocolRank && expected.all fun expected => len = expected)
    (.metadataMismatch "HDF5 attribute type or shape")
  return stored.values

/-- SOURCE: serial_hdf5.rs:384-387 -/
def validWriterProvenance (grid permutation : List ℕ) (spatialRank : ℕ) : Bool :=
  validWriterGrid grid spatialRank && validPermutation permutation spatialRank maxProtocolRank

/-- SOURCE: serial_hdf5.rs:389-457 -/
def validateMetadata (scalar : ScalarType) (attributes : Attributes) (global extra : List ℕ) :
    Except (Stop IoError) Unit := do
  let metadata := Metadata.expected global.length scalar.code scalar.width extra.length extra global
  let read := fun attr =>
    (readAttribute attributes attr global.length extra.length).mapError Stop.error
  let one := fun attr => do
    let values ← read attr
    firstValue values
  [Attribute.version, .rank, .typeCode, .width, .extraRank].foldlM (fun _ attr => do
    let value ← one attr
    ensure (metadata.matchesRead attr [value])
      (.error (.metadataMismatch "version, rank, or type"))) ()
  let marker ← one .commit
  (match commitState marker with
    | .complete => .ok ()
    | .incomplete => .error (.error .incompleteFile)
    | .invalid => .error (.error (.invalidFile "HDF5 commit marker")))
  (if !Attribute.extraShape.present extra.length then
    ensure (attributes .extraShape).isNone (.error (.metadataMismatch "extra shape"))
  else do
    let stored ← read .extraShape
    ensure (metadata.matchesRead .extraShape stored) (.error (.metadataMismatch "extra shape")))
  let storedGlobal ← read .globalShape
  let grid ← read .writerGrid
  let perm ← read .writerPermutation
  ensure (metadata.matchesRead .globalShape storedGlobal
    && validWriterProvenance grid perm global.length)
    (.error (.metadataMismatch "shape or writer provenance"))

/-- One value of the loop at the end of `read_hdf5_serial`. -/
def decodeChunk {scalar : ScalarType} (bytes : List Byte) : Except (Stop IoError) scalar.Value :=
  okOr (scalar.decodeLe bytes) .panic

/-- What `read_hdf5_serial` leaves in the destination.

SOURCE: serial_hdf5.rs:141-209 -/
def readHdf5Serial (reserved : Bool) {scalar : ScalarType} (dataset : Dataset)
    (global extra : List ℕ) (destination : List scalar.Value) :
    Except (Stop IoError) (List scalar.Value) := do
  let (shape, bytes) ← (layout scalar global extra destination.length).mapError .error
  ensure reserved (.error (.allocationFailed bytes))
  let packed := List.replicate bytes (0 : Byte)
  validateMetadata scalar dataset.attributes global extra
  let datatype ← okOr (scalarSpec scalar.code) .panic
  ensure (dataset.datatype = datatype) (.error (.metadataMismatch "dataset datatype"))
  ensure (dataset.dims = shape) (.error (.metadataMismatch "dataset dimensions"))
  let elements ← (if packed.isEmpty then .ok (elementsOf datatype.width packed) else
    okOr (transferRead ⟨dataset.dims, .all⟩ ⟨dataset.dims, .all⟩ dataset.cells
      (elementsOf datatype.width packed)) (.error (.native "HDF5 serial payload read" (-1))))
  (destination.zip elements).mapM fun (_, bytes) => decodeChunk bytes

end SerialHdf5

end PencilRs.Model
