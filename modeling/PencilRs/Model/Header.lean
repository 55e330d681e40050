import PencilRs.Computation.Buffer
import PencilRs.Model.Element
import PencilRs.Model.View

/-!
# The header of an array file

A file holds one array: a header of 96 bytes and four arrays of numbers, and then the payload.
The writer leaves an incomplete marker in the header and replaces it once the payload is in the
file; the reader takes a header apart and checks it field by field.

Allocations may be refused, each on its own.  `u64` and `usize` have the same values here, so
the conversions between them do not fail.

SOURCE: pencil-io/src/mpi_io.rs, format.rs
-/

set_option autoImplicit false

namespace PencilRs.Model

open PencilRs.Computation

/-- SOURCE: format.rs:159-165 -/
def elementCount (dims : List ℕ) : Except IoError ℕ :=
  dims.foldlM (fun product extent => okOr (checkedMul product extent) (.sizeLimit "element count"))
    1

namespace MpiIo

variable {N M : ℕ}

/-- SOURCE: mpi_io.rs:20 -/
def headerPrefixBytes : ℕ := 96

/-- SOURCE: mpi_io.rs:21 -/
def mpiLocalByteLimitWhat : String := "MPI local byte count"

/-- `b"PENCILIO"`

SOURCE: mpi_io.rs:22 -/
def magic : List Byte := [0x50, 0x45, 0x4e, 0x43, 0x49, 0x4c, 0x49, 0x4f]

/-- SOURCE: mpi_io.rs:23 -/
def commitOffset : ℕ := 24

/-! ## Bytes -/

/-- `bytes[offset..offset + block.len()].copy_from_slice(block)` -/
def copyInto {ε : Type} (bytes : List Byte) (offset : ℕ) (block : List Byte) :
    Except (Stop ε) (List Byte) :=
  if offset + block.length ≤ bytes.length then .ok (splice bytes offset block) else .error .panic

/-- SOURCE: mpi_io.rs:1648-1650 -/
def putU64 {ε : Type} (bytes : List Byte) (offset value : ℕ) : Except (Stop ε) (List Byte) :=
  copyInto bytes offset (leBytes 8 value)

/-- The bytes are those of a header prefix, so the field is there.

SOURCE: mpi_io.rs:1652-1658 -/
def getU64 (bytes : List Byte) (offset : ℕ) : ℕ := leValue ((bytes.drop offset).take 8)

/-! ## Writing -/

/-- SOURCE: mpi_io.rs:1215-1226 -/
structure Header where
  bytes : List Byte
  n : ℕ
  typeCode : ℕ
  width : ℕ
  extra : List ℕ
  global : List ℕ
  writerGrid : List ℕ
  writerPermutation : List ℕ
  payloadOffset : ℕ
  payloadBytes : ℕ
deriving Repr, DecidableEq

/-- What the allocator grants to a header: its four arrays and its bytes. -/
structure HeaderAllocator where
  global : Bool
  extra : Bool
  grid : Bool
  permutation : Bool
  bytes : Bool
deriving Repr, DecidableEq

/-- The allocator refuses nothing. -/
def HeaderAllocator.Grants (alloc : HeaderAllocator) : Prop :=
  alloc.global = true ∧ alloc.extra = true ∧ alloc.grid = true ∧ alloc.permutation = true ∧
    alloc.bytes = true

/-- One number of the loop at the end of `encode_into`. -/
def putNext {ε : Type} (state : List Byte × ℕ) (value : ℕ) :
    Except (Stop ε) (List Byte × ℕ) := do
  let (bytes, offset) := state
  let bytes ← putU64 bytes offset value
  return (bytes, offset + 8)

/-- SOURCE: mpi_io.rs:1317-1344 -/
def Header.encodeInto (header : Header) : Except (Stop IoError) Header := do
  let bytes ← copyInto header.bytes 0 magic
  let bytes ← [(8, formatVersion), (16, header.bytes.length), (24, incompleteMarker),
    (32, header.n), (40, header.typeCode), (48, header.width), (56, header.extra.length),
    (64, header.payloadOffset), (72, header.payloadBytes), (80, header.writerGrid.length),
    (88, 0)].foldlM (fun bytes (offset, value) => putU64 bytes offset value) bytes
  let (bytes, offset) ← (header.global ++ header.extra ++ header.writerGrid
    ++ header.writerPermutation).foldlM putNext (bytes, headerPrefixBytes)
  ensure (offset = bytes.length) .panic
  return { header with bytes }

/-- SOURCE: mpi_io.rs:1844-1855 -/
def tryU64Values (reserved : Bool) (values : List ℕ) : Except (Stop IoError) (List ℕ) := do
  ensure reserved (.error (.allocationFailed (values.length * 8)))
  return values

/-- SOURCE: mpi_io.rs:1229-1315 -/
def Header.forWrite {scalar : ScalarType} (alloc : HeaderAllocator)
    (view : PencilArrayView scalar.Value N M) : Except (Stop IoError) Header := do
  let extra := view.extraShape.dimensions
  let globalShape := List.ofFn view.pencil.globalShape
  let grid := List.ofFn view.pencil.topology.processGrid
  let spatialElements ← (elementCount globalShape).mapError .error
  let extraElements ← (elementCount extra).mapError .error
  let globalElements ← okOr (checkedMul spatialElements extraElements)
    (.error (.sizeLimit "global element count"))
  let payloadBytes ← okOr (checkedMul globalElements scalar.width)
    (.error (.sizeLimit "global payload bytes"))
  let arrayCount ← okOr (do
    let count ← checkedAdd N extra.length
    let count ← checkedAdd count M
    checkedAdd count N) (.error (.sizeLimit "header dimensions"))
  let arrayBytes ← okOr (checkedMul arrayCount 8) (.error (.sizeLimit "header bytes"))
  let headerLen ← okOr (checkedAdd headerPrefixBytes arrayBytes)
    (.error (.sizeLimit "header bytes"))
  ensure (headerLen ≤ maxHeaderBytes) (.error (.sizeLimit "header bytes"))
  let _ ← okOr (checkedAdd headerLen payloadBytes) (.error (.sizeLimit "file size"))
  let extraValues ← tryU64Values alloc.extra extra
  let globalValues ← tryU64Values alloc.global globalShape
  let gridValues ← tryU64Values alloc.grid grid
  let permutationValues ← tryU64Values alloc.permutation
    (List.ofFn fun position => (view.pencil.permutation.axesInMemoryOrder position : ℕ))
  ensure alloc.bytes (.error (.allocationFailed headerLen))
  Header.encodeInto {
    bytes := List.replicate headerLen 0
    n := N
    typeCode := scalar.code
    width := scalar.width
    extra := extraValues
    global := globalValues
    writerGrid := gridValues
    writerPermutation := permutationValues
    payloadOffset := headerLen
    payloadBytes }

/-- What is in the file once the marker is written. -/
def commit (bytes : List Byte) : List Byte := splice bytes commitOffset (leBytes 8 commitMarker)

/-! ## Reading -/

/-- SOURCE: mpi_io.rs:1623-1630 -/
inductive V1HeaderDefect where
  | invalid (reason : String)
  | incomplete
  | writerGridOverflow
  | payloadElements
  | allocation (requested : ℕ)
deriving Repr, DecidableEq

/-- SOURCE: mpi_io.rs:1634-1646 -/
def headerError : V1HeaderDefect → IoError
  | .invalid reason => .invalidFile reason
  | .incomplete => .incompleteFile
  | .writerGridOverflow => .invalidFile "header metadata"
  | .payloadElements => .invalidFile "payload element count"
  | .allocation requested => .allocationFailed requested

/-- SOURCE: mpi_io.rs:1484-1493 -/
structure V1Fields where
  headerLen : ℕ
  n : ℕ
  extraRank : ℕ
  gridRank : ℕ
  typeCode : ℕ
  width : ℕ
  payloadOffset : ℕ
  payloadBytes : ℕ
deriving Repr, DecidableEq

/-- SOURCE: mpi_io.rs:1587-1592 -/
structure V1Arrays where
  global : List ℕ
  extra : List ℕ
  writerGrid : List ℕ
  writerPermutation : List ℕ
deriving Repr, DecidableEq

/-- A product of `u64` factors. -/
def checkedFold (values : List ℕ) : Option ℕ := values.foldlM checkedMul 1

/-- SOURCE: mpi_io.rs:1660-1667 -/
def validDimensions (values : List ℕ) : Bool := !values.isEmpty && (checkedFold values).isSome

/-- SOURCE: mpi_io.rs:1669-1671 -/
def validExtents (values : List ℕ) : Bool :=
  validDimensions values && values.all fun value => 0 < value

/-- The loop is the one of `checkDistinct`; the table has room for `MAX_PROTOCOL_RANK` axes.

SOURCE: mpi_io.rs:1673-1692 -/
def isPermutation (values : List ℕ) (n : ℕ) : Bool :=
  values.length = n && n ≤ maxProtocolRank && (checkDistinct n values).isOk

namespace V1Fields

/-- SOURCE: mpi_io.rs:1496-1507 -/
def read (front : List Byte) : V1Fields where
  headerLen := getU64 front 16
  n := getU64 front 32
  typeCode := getU64 front 40
  width := getU64 front 48
  extraRank := getU64 front 56
  payloadOffset := getU64 front 64
  payloadBytes := getU64 front 72
  gridRank := getU64 front 80

/-- SOURCE: mpi_io.rs:1509-1521 -/
def checkIdentity (front : List Byte) : Except V1HeaderDefect Unit := do
  ensure (front.take 8 = magic) (.invalid "magic")
  ensure (getU64 front 8 = formatVersion) (.invalid "version")
  if getU64 front commitOffset = commitMarker then return ()
  else if getU64 front commitOffset = incompleteMarker then throw .incomplete
  else throw (.invalid "commit marker")

/-- SOURCE: mpi_io.rs:1523-1532 -/
def expectedHeaderLen (fields : V1Fields) : Except V1HeaderDefect ℕ := do
  let count ← okOr (do
    let count ← checkedAdd fields.n fields.extraRank
    let count ← checkedAdd count fields.gridRank
    checkedAdd count fields.n) (.invalid "header dimensions")
  okOr (do
    let bytes ← checkedMul count 8
    checkedAdd bytes headerPrefixBytes) (.invalid "header length")

/-- SOURCE: mpi_io.rs:1534-1536 -/
def scalarType (fields : V1Fields) : Except V1HeaderDefect ScalarType :=
  okOr (ScalarType.decode fields.typeCode fields.width) (.invalid "type descriptor")

/-- SOURCE: mpi_io.rs:1538-1542 -/
def checkPayloadOffset (fields : V1Fields) : Except V1HeaderDefect Unit :=
  ensure (fields.payloadOffset = fields.headerLen) (.invalid "payload offset")

/-- SOURCE: mpi_io.rs:1544-1548 -/
def checkReserved (front : List Byte) : Except V1HeaderDefect Unit :=
  ensure (getU64 front 88 = 0) (.invalid "reserved field")

/-- The closure of `read_arrays`: the values and the offset after them. -/
def readValues (reserved : Bool) (rest : List Byte) (offset count : ℕ) :
    Except V1HeaderDefect (List ℕ × ℕ) := do
  let bytesCount ← okOr (checkedMul count 8) (.invalid "header array")
  let stop ← okOr (checkedAdd offset bytesCount) (.invalid "header array")
  let bytes ← okOr (slice? rest offset stop) (.invalid "header array")
  ensure reserved (.allocation bytesCount)
  return (leWords 8 count bytes, stop)

/-- SOURCE: mpi_io.rs:1550-1584 -/
def readArrays (alloc : HeaderAllocator) (fields : V1Fields) (rest : List Byte) :
    Except V1HeaderDefect V1Arrays := do
  let (global, offset) ← readValues alloc.global rest 0 fields.n
  let (extra, offset) ← readValues alloc.extra rest offset fields.extraRank
  let (writerGrid, offset) ← readValues alloc.grid rest offset fields.gridRank
  let (writerPermutation, offset) ← readValues alloc.permutation rest offset fields.n
  ensure (offset = rest.length) (.invalid "header array")
  return { global, extra, writerGrid, writerPermutation }

end V1Fields

namespace V1Arrays

/-- SOURCE: mpi_io.rs:1595-1607 -/
def checkWriterGrid (arrays : V1Arrays) : Except V1HeaderDefect Unit := do
  ensure (checkedFold arrays.writerGrid).isSome .writerGridOverflow
  ensure (validExtents arrays.writerGrid && arrays.writerGrid.length ≤ arrays.global.length)
    (.invalid "header metadata")

/-- SOURCE: mpi_io.rs:1609-1620 -/
def checkPayload (arrays : V1Arrays) (width len : ℕ) : Except V1HeaderDefect Unit := do
  let elements ← okOr (checkedFold (arrays.global ++ arrays.extra)) .payloadElements
  let bytes ← okOr (checkedMul elements width) (.invalid "payload bytes")
  ensure (bytes = len) (.invalid "payload bytes")

end V1Arrays

namespace Header

/-- SOURCE: mpi_io.rs:1346-1367 -/
def parsePrefix (front : List Byte) : Except IoError V1Fields := do
  let fields := V1Fields.read front
  (V1Fields.checkIdentity front).mapError headerError
  ensure (fields.n ≤ maxProtocolRank && fields.extraRank ≤ maxProtocolRank
    && fields.gridRank ≤ maxProtocolRank && fields.gridRank ≤ fields.n) (.invalidFile "rank bound")
  let expectedLen ← fields.expectedHeaderLen.mapError headerError
  ensure (fields.headerLen = expectedLen && fields.headerLen ≤ maxHeaderBytes)
    (.invalidFile "header length")
  fields.checkPayloadOffset.mapError headerError
  let _ ← fields.scalarType.mapError headerError
  return fields

/-- SOURCE: mpi_io.rs:1369-1423 -/
def decode (alloc : HeaderAllocator) (bytes : List Byte) : Except IoError Header := do
  ensure (headerPrefixBytes ≤ bytes.length && bytes.length ≤ maxHeaderBytes)
    (.invalidFile "header size")
  let front := bytes.take headerPrefixBytes
  let fields ← parsePrefix front
  ensure (fields.headerLen = bytes.length) (.invalidFile "header trailing bytes")
  (V1Fields.checkReserved front).mapError headerError
  let arrays ← (fields.readArrays alloc (bytes.drop headerPrefixBytes)).mapError headerError
  let n := arrays.global.length
  ensure (validDimensions arrays.global && arrays.checkWriterGrid.isOk
    && isPermutation arrays.writerPermutation n) (.invalidFile "header metadata")
  (arrays.checkPayload fields.width fields.payloadBytes).mapError headerError
  ensure alloc.bytes (.allocationFailed bytes.length)
  return {
    bytes, n
    typeCode := fields.typeCode
    width := fields.width
    extra := arrays.extra
    global := arrays.global
    writerGrid := arrays.writerGrid
    writerPermutation := arrays.writerPermutation
    payloadOffset := fields.payloadOffset
    payloadBytes := fields.payloadBytes }

/-- SOURCE: mpi_io.rs:1425-1480 -/
def matchesView (header : Header) (global : Fin N → ℕ) (extra : List ℕ) (typeCode width : ℕ) :
    Except IoError Unit := do
  ensure (header.n = N && header.typeCode = typeCode && header.width = width)
    (.metadataMismatch "type or rank")
  ensure (header.extra.length = extra.length
    && !(header.extra.zip extra).any fun (stored, expected) => stored ≠ expected)
    (.metadataMismatch "extra shape")
  ensure (header.global.length = N
    && !(header.global.zip (List.ofFn global)).any fun (stored, expected) => stored ≠ expected)
    (.metadataMismatch "global shape")
  let expectedElements := (List.ofFn global).foldlM (fun product extent => do
    let product ← checkedMul product extent
    checkedMul product 1) 1
  let expectedExtra := checkedFold extra
  let expectedPayload ← okOr (do
    let elements ← expectedElements
    let extra ← expectedExtra
    let elements ← checkedMul elements extra
    checkedMul elements width) (.sizeLimit "expected payload")
  ensure (expectedPayload = header.payloadBytes) (.metadataMismatch "payload size")

end Header

/-! ## The place of a block in the file -/

/-- SOURCE: mpi_io.rs:1696-1714 -/
def checkedLocalByteCount (elements width : ℕ) : Except IoError ℕ := do
  let bytes ← okOr (checkedMul elements width) (.sizeLimit mpiLocalByteLimitWhat)
  ensure (bytes ≤ countMax) (.sizeLimit mpiLocalByteLimitWhat)
  return bytes

/-- SOURCE: mpi_io.rs:1739-1744 -/
structure MpiLayout where
  global : List ℕ
  sizes : List ℕ
  starts : List ℕ
  empty : Bool
deriving Repr, DecidableEq

/-- `c_int::try_from` -/
def toCInt (value : ℕ) (what : String) : Except IoError ℕ :=
  okOr (countTryFrom value) (.sizeLimit what)

/-- One extra dimension of the loop of `build_layout`. -/
def pushExtra (layout : List (ℕ × ℕ × ℕ)) (extent : ℕ) : Except IoError (List (ℕ × ℕ × ℕ)) := do
  let whole ← toCInt extent "MPI global dimension"
  let part ← toCInt extent "MPI local dimension"
  return layout ++ [(whole, part, 0)]

/-- One spatial axis of the loop of `build_layout`. -/
def pushSpatial (global localShape : Fin N → ℕ) (ranges : Fin N → Range)
    (layout : List (ℕ × ℕ × ℕ)) (axis : Fin N) : Except IoError (List (ℕ × ℕ × ℕ)) := do
  let whole ← toCInt (global axis) "MPI global dimension"
  let part ← toCInt (localShape axis) "MPI local dimension"
  let start ← toCInt (ranges axis).start "MPI subarray start"
  return layout ++ [(whole, part, start)]

/-- The three arrays are built side by side.

SOURCE: mpi_io.rs:1746-1824 -/
def buildLayout (reserved : Bool) (global : Fin N → ℕ) (extra : List ℕ) (localShape : Fin N → ℕ)
    (ranges : Fin N → Range) (localElements width : ℕ) : Except IoError MpiLayout := do
  let localBytes ← checkedLocalByteCount localElements width
  let rank ← okOr (do
    let rank ← checkedAdd extra.length N
    checkedAdd rank 1) (.sizeLimit "MPI datatype rank")
  ensure (rank ≠ 0 && rank ≤ maxProtocolRank) (.sizeLimit "MPI datatype rank")
  let reserve ← okOr (checkedMul rank 4) (.sizeLimit "MPI datatype arrays")
  ensure reserved (.allocationFailed reserve)
  let layout ← extra.foldlM pushExtra []
  let layout ← (List.finRange N).foldlM (pushSpatial global localShape ranges) layout
  let width ← toCInt width "MPI element width"
  let layout := layout ++ [(width, width, 0)]
  return {
    global := layout.map fun (whole, _, _) => whole
    sizes := layout.map fun (_, part, _) => part
    starts := layout.map fun (_, _, start) => start
    empty := localBytes = 0 || extra.contains 0 }

end MpiIo

end PencilRs.Model
