import PencilRs.Model.Header

/-!
# Taking a header apart, access by access

The same reader with every access to an array written out: a slice or an index outside of the
array stops the program, and so does a sum that leaves the machine word.

SOURCE: pencil-io/src/mpi_io.rs
-/

set_option autoImplicit false

namespace PencilRs.Model

open PencilRs.Computation

namespace MpiIo

variable {ε α : Type}

/-- `bytes[start..stop]` -/
def sliceAt (bytes : List α) (start stop : ℕ) : Except (Stop ε) (List α) :=
  okOr (slice? bytes start stop) .panic

/-- SOURCE: mpi_io.rs:1652-1658 -/
def getU64At (bytes : List Byte) (offset : ℕ) : Except (Stop ε) ℕ := do
  let stop ← okOr (checkedAdd offset 8) .panic
  let field ← sliceAt bytes offset stop
  ensure (field.length = 8) .panic
  return leValue field

namespace V1Fields

/-- SOURCE: mpi_io.rs:1496-1507 -/
def readAt (front : List Byte) : Except (Stop ε) V1Fields := do
  let headerLen ← getU64At front 16
  let n ← getU64At front 32
  let typeCode ← getU64At front 40
  let width ← getU64At front 48
  let extraRank ← getU64At front 56
  let payloadOffset ← getU64At front 64
  let payloadBytes ← getU64At front 72
  let gridRank ← getU64At front 80
  return { headerLen, n, extraRank, gridRank, typeCode, width, payloadOffset, payloadBytes }

/-- SOURCE: mpi_io.rs:1509-1521 -/
def checkIdentityAt (front : List Byte) : Except (Stop V1HeaderDefect) Unit := do
  let start ← sliceAt front 0 8
  ensure (start = magic) (.error (.invalid "magic"))
  let version ← getU64At front 8
  ensure (version = formatVersion) (.error (.invalid "version"))
  let marker ← getU64At front commitOffset
  if marker = commitMarker then return ()
  else if marker = incompleteMarker then throw (.error .incomplete)
  else throw (.error (.invalid "commit marker"))

/-- SOURCE: mpi_io.rs:1544-1548 -/
def checkReservedAt (front : List Byte) : Except (Stop V1HeaderDefect) Unit := do
  let reserved ← getU64At front 88
  ensure (reserved = 0) (.error (.invalid "reserved field"))

end V1Fields

/-- One round of the loop of `is_permutation`; `none` stops the loop with `false`. -/
def markSeen (n : ℕ) (seen : Option (List Bool)) (value : ℕ) :
    Except (Stop ε) (Option (List Bool)) :=
  match seen with
  | none => .ok none
  | some seen =>
    if value ≥ n then .ok none
    else do
      let marked ← okOr seen[value]? .panic
      return if marked then none else some (seen.set value true)

/-- SOURCE: mpi_io.rs:1673-1692 -/
def isPermutationAt (values : List ℕ) (n : ℕ) : Except (Stop ε) Bool :=
  if values.length ≠ n then .ok false
  else
    match slice? (List.replicate maxProtocolRank false) 0 n with
    | none => .ok false
    | some seen => do
      let seen ← values.foldlM (markSeen n) (some seen)
      return seen.isSome

/-- The error of the reader for a defect of a header. -/
def headerStop : Stop V1HeaderDefect → Stop IoError
  | .error defect => .error (headerError defect)
  | .panic => .panic

namespace Header

/-- SOURCE: mpi_io.rs:1346-1367 -/
def parsePrefixAt (front : List Byte) : Except (Stop IoError) V1Fields := do
  let fields ← V1Fields.readAt front
  (V1Fields.checkIdentityAt front).mapError headerStop
  ensure (fields.n ≤ maxProtocolRank && fields.extraRank ≤ maxProtocolRank
    && fields.gridRank ≤ maxProtocolRank && fields.gridRank ≤ fields.n)
    (.error (.invalidFile "rank bound"))
  let expectedLen ← fields.expectedHeaderLen.mapError fun defect => .error (headerError defect)
  ensure (fields.headerLen = expectedLen && fields.headerLen ≤ maxHeaderBytes)
    (.error (.invalidFile "header length"))
  fields.checkPayloadOffset.mapError fun defect => .error (headerError defect)
  let _ ← fields.scalarType.mapError fun defect => .error (headerError defect)
  return fields

/-- SOURCE: mpi_io.rs:1369-1423 -/
def decodeAt (alloc : HeaderAllocator) (bytes : List Byte) : Except (Stop IoError) Header := do
  ensure (headerPrefixBytes ≤ bytes.length && bytes.length ≤ maxHeaderBytes)
    (.error (.invalidFile "header size"))
  let front ← sliceAt bytes 0 headerPrefixBytes
  -- `copy_from_slice` asks for equal lengths
  ensure (front.length = headerPrefixBytes) .panic
  let fields ← parsePrefixAt front
  ensure (fields.headerLen = bytes.length) (.error (.invalidFile "header trailing bytes"))
  (V1Fields.checkReservedAt front).mapError headerStop
  let rest ← sliceAt bytes headerPrefixBytes bytes.length
  let arrays ← (fields.readArrays alloc rest).mapError fun defect => .error (headerError defect)
  let n := arrays.global.length
  let permutation ← isPermutationAt arrays.writerPermutation n
  ensure (validDimensions arrays.global && arrays.checkWriterGrid.isOk && permutation)
    (.error (.invalidFile "header metadata"))
  (arrays.checkPayload fields.width fields.payloadBytes).mapError fun defect =>
    .error (headerError defect)
  ensure alloc.bytes (.error (.allocationFailed bytes.length))
  return {
    bytes, n
    typeCode := fields.typeCode
    width := fields.width
    extra := arrays.extra
    global := arrays.global
    writerGrid := arrays.writerGrid
    writerPermutation := arrays.writerPermutation
    payloadOffset := fields.payloadOffset
    payloadBytes := fields.payloadBytes }

end Header

end MpiIo

end PencilRs.Model
