import PencilRs.Model.Header

/-!
# Two readers of one header

`read_mpi` reads the header of a file and holds it against a view; the catalog reads the same
header without a view and reports what is in the file.  A file is the list of its bytes, which the
root reads and the other ranks get from it.

SOURCE: pencil-io/src/mpi_io.rs, catalog.rs
-/

set_option autoImplicit false

namespace PencilRs.Model

open PencilRs.Computation

namespace MpiIo

variable {N M : ℕ}

/-! ## The array reader -/

/-- The header that `read_mpi` takes from a file.

SOURCE: mpi_io.rs:638-733 -/
def readHeader (reserved : Bool) (alloc : HeaderAllocator) (image : List Byte) :
    Except IoError Header := do
  ensure (headerPrefixBytes ≤ image.length) (.invalidFile "short header")
  let fields ← Header.parsePrefix (image.take headerPrefixBytes)
  ensure (fields.headerLen ≤ image.length) (.invalidFile "truncated header")
  ensure reserved (.allocationFailed fields.headerLen)
  Header.decode alloc (image.take fields.headerLen)

/-- The header of a file that `read_mpi` goes on to read into a view.

SOURCE: mpi_io.rs:735-759 -/
def headerForView {scalar : ScalarType} (reserved : Bool) (alloc : HeaderAllocator)
    (view : PencilArrayView scalar.Value N M) (image : List Byte) : Except IoError Header := do
  let header ← readHeader reserved alloc image
  header.matchesView view.pencil.globalShape view.extraShape.dimensions scalar.code scalar.width
  let expectedSize ← okOr (checkedAdd header.payloadOffset header.payloadBytes)
    (.invalidFile "payload size overflow")
  ensure (expectedSize = image.length) (.invalidFile "trailing or truncated payload")
  return header

/-! ## The catalog -/

/-- SOURCE: catalog.rs:111-118 -/
structure DatasetInfo where
  name : Option String
  scalarType : ScalarType
  globalShape : List ℕ
  extraShape : List ℕ
  provenance : List Byte
deriving Repr, DecidableEq

/-- SOURCE: catalog.rs:141-153 -/
inductive CatalogError where
  | io (error : IoError)
  | malformed (what : String)
  | invalidTail
deriving Repr, DecidableEq

/-- What the allocator grants to the catalog: the bytes of the prefix and of the header, and the
arrays. -/
structure CatalogAllocator where
  front : Bool
  header : Bool
  arrays : HeaderAllocator
deriving Repr, DecidableEq

/-- SOURCE: catalog.rs:225-249 -/
def readAt (reserved : Bool) (image : List Byte) (offset n : ℕ) : Except CatalogError (List Byte) := do
  ensure (n ≤ maxHeaderBytes && reserved) (.io (.collectivePrecondition "catalog metadata allocation"))
  okOr (slice? image offset (offset + n)) (.io (.collectivePrecondition "catalog metadata read"))

/-- The error of arrays that cannot be read. -/
def arraysError : V1HeaderDefect → CatalogError
  | .allocation requested => .io (.allocationFailed requested)
  | _ => .malformed "shape/grid/permutation"

/-- SOURCE: catalog.rs:298-398 -/
def readMpiCatalog (alloc : CatalogAllocator) (image : List Byte) :
    Except CatalogError (List DatasetInfo) := do
  let size := image.length
  ensure (headerPrefixBytes ≤ size) (.malformed "header")
  let front ← readAt alloc.front image 0 headerPrefixBytes
  let fields := V1Fields.read front
  (V1Fields.checkIdentity front).mapError fun _ => .malformed "header"
  let hl := fields.headerLen
  ensure (headerPrefixBytes ≤ hl && hl ≤ maxHeaderBytes && hl ≤ size) (.malformed "header bounds")
  let h ← readAt alloc.header image 0 hl
  let n := fields.n
  let er := fields.extraRank
  let gr := fields.gridRank
  ensure (n ≠ 0 && n ≤ maxProtocolRank && er ≤ maxProtocolRank && n + er ≤ maxProtocolRank
    && gr ≠ 0 && gr ≤ maxProtocolRank) (.malformed "header bounds")
  let expectedLen ← fields.expectedHeaderLen.mapError fun _ => .malformed "header bounds"
  ensure (hl = expectedLen && hl ≤ maxHeaderBytes) (.malformed "header bounds")
  let st ← fields.scalarType.mapError fun _ => .malformed "type"
  let po := fields.payloadOffset
  let pb := fields.payloadBytes
  ensure (fields.checkPayloadOffset.isOk && (V1Fields.checkReserved front).isOk
    && checkedAdd po pb = some size) (.malformed "tail")
  let arrays ← (fields.readArrays alloc.arrays (h.drop headerPrefixBytes)).mapError arraysError
  let grid := arrays.checkWriterGrid
  let payload := arrays.checkPayload st.width fields.payloadBytes
  ensure (grid ≠ .error .writerGridOverflow) (.malformed "grid")
  ensure (payload ≠ .error .payloadElements) (.malformed "shape")
  ensure (!arrays.global.isEmpty && arrays.global.length ≤ maxProtocolRank && grid.isOk && payload.isOk
    && isPermutation arrays.writerPermutation n) (.malformed "shape/grid/permutation")
  let start := headerPrefixBytes + (n + er) * 8
  return [{
    name := none
    scalarType := st
    globalShape := arrays.global
    extraShape := arrays.extra
    provenance := h.drop start }]

end MpiIo

end PencilRs.Model
