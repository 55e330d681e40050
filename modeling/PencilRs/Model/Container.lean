import PencilRs.Computation.Buffer
import PencilRs.Computation.Update
import PencilRs.Model.Element
import Mathlib.Data.Vector.Basic

/-!
# Scanning a container

A container holds named records one after another, each with a header, its name, its metadata, its
payload and a commit word.  One rank reads the headers, names, metadata and commit words of the
committed records; the catalog it makes of them is sent to the others as bytes, which they decode
and check.

A read of a file gives the bytes asked for or fails.  The reads are remembered in the order they
are issued.  `u64` and `usize` have the same values here, so the conversions between them do not
fail.

SOURCE: pencil-io/src/named_mpi.rs
-/

set_option autoImplicit false

namespace PencilRs.Model

open PencilRs.Computation

/-- `i64::MAX` -/
def i64Max : ℕ := 2 ^ 63 - 1

namespace NamedMpi

/-! ## Constants -/

/-- `b"PIONAM02"`

SOURCE: named_mpi.rs:28 -/
def magic : List Byte := [0x50, 0x49, 0x4f, 0x4e, 0x41, 0x4d, 0x30, 0x32]

/-- `b"PIOREC02"`

SOURCE: named_mpi.rs:29 -/
def recordMagic : List Byte := [0x50, 0x49, 0x4f, 0x52, 0x45, 0x43, 0x30, 0x32]

/-- SOURCE: named_mpi.rs:30 -/
def version : ℕ := 2

/-- SOURCE: named_mpi.rs:31 -/
def containerBytes : ℕ := 32

/-- SOURCE: named_mpi.rs:32 -/
def recordHeaderBytes : ℕ := 72

/-- SOURCE: named_mpi.rs:33 -/
def maxName : ℕ := 1024

/-- SOURCE: named_mpi.rs:256-264 -/
inductive ScanStatus where
  | containerHeader
  | containerSize
  | recordLimit
  | metadataRead
  | allocation
  | dimensionsAllocation
  | indexAllocation
  | catalogBytes
  | catalogEncoding
deriving Repr, DecidableEq

/-! ## Bytes and reads -/

/-- The word at `p`, if the bytes reach that far; `p + 8` may panic.

SOURCE: named_mpi.rs:42-46 -/
def u64At (b : List Byte) (p : ℕ) : Option (Option ℕ) := do
  let stop ← checkedAdd p 8
  return if stop ≤ b.length then some (leValue ((b.drop p).take 8)) else none

/-- `std::str::from_utf8(bytes).is_ok()` -/
def isUtf8 (bytes : List Byte) : Bool :=
  (ByteArray.mk (bytes.map UInt8.ofBitVec).toArray).validateUTF8

/-- What a native read gives. -/
abbrev NativeFile : Type := ℕ → (len : ℕ) → Option (List.Vector Byte len)

/-- A file with these bytes, read without a failure. -/
def imageFile (image : List Byte) : NativeFile := fun offset len =>
  if h : ((image.drop offset).take len).length = len then some ⟨(image.drop offset).take len, h⟩
  else none

/-- Offsets and lengths of the reads issued. -/
abbrev Reads : Type := List (ℕ × ℕ)

/-- The record under the scan is not a committed one, or the scan fails. -/
inductive ScanHalt where
  | stop
  | fail (status : ScanStatus)
deriving Repr, DecidableEq

section Steps

variable {ε ι : Type}

def wordAt (b : List Byte) (p : ℕ) : Update ε Reads (Option ℕ) := Update.demand (u64At b p)

/-- The native read of `root_read`. -/
def nativeRead (file : NativeFile) (offset len : ℕ) (failure : ε) :
    Update ε Reads (List Byte) :=
  ExceptT.mk fun reads => some (match file offset len with
    | some bytes => .ok bytes.1
    | none => .error failure, reads ++ [(offset, len)])

/-- SOURCE: named_mpi.rs:324-330 -/
def rootRead (file : NativeFile) (offset len : ℕ) (failure : ε) :
    Update ε Reads (List Byte) := do
  Update.checked (ensure (offset ≤ i64Max) failure)
  nativeRead file offset len failure

/-- `Some(x) => x, _ => break` -/
def orStop (value : Option ι) : Update ScanHalt Reads ι := Update.checked (okOr value .stop)

/-- `if !cond { break; }` -/
def stopUnless (cond : Bool) : Update ScanHalt Reads Unit := Update.checked (ensure cond .stop)

/-- `if !granted { return Err(status); }` -/
def reserve (granted : Bool) (status : ScanStatus) : Update ScanHalt Reads Unit :=
  Update.checked (ensure granted (.fail status))

/-- `None` where the step stopped. -/
def untilStop (step : Update ScanHalt Reads ι) : Update ScanStatus Reads (Option ι) :=
  ExceptT.mk fun reads => (step.runOn reads).map fun (result, reads) =>
    (match result with
      | .ok x => .ok (some x)
      | .error .stop => .ok none
      | .error (.fail status) => .error status, reads)

end Steps

/-! ## Scanning -/

/-- SOURCE: named_mpi.rs:155-162 -/
structure Rec where
  name : List Byte
  typ : ℕ
  width : ℕ
  global : List ℕ
  extra : List ℕ
  payloadOffset : ℕ
deriving Repr, DecidableEq

/-- What the allocator grants to one record of the scan. -/
structure RecordAllocator where
  body : Bool
  dimensions : Bool
  index : Bool
deriving Repr, DecidableEq

/-- The allocator refuses nothing. -/
def grantRecords : ℕ → RecordAllocator := fun _ => ⟨true, true, true⟩

/-- The loop over the dimensions.  The source empties `dims` where a dimension is missing or the
product overflows, and goes on only if all of them are there.

SOURCE: named_mpi.rs:438-460 -/
def readDims (metadata : List Byte) (rank : ℕ) : Update ScanHalt Reads (List ℕ × ℕ) :=
  (List.range rank).foldlM (fun (dims, elements) i => do
    let offset ← Update.demand (checkedMul i 8)
    let offset ← Update.demand (checkedAdd 16 offset)
    let d ← orStop (← wordAt metadata offset)
    let elements ← orStop (checkedMul elements d)
    return (dims ++ [d], elements)) ([], 1)

/-- The record at `p` and the position after it.  The set of names holds those of `out`.

SOURCE: named_mpi.rs:358-503 -/
def scanRecord (file : NativeFile) (alloc : RecordAllocator) (size p : ℕ) (out : List Rec) :
    Update ScanHalt Reads (Rec × ℕ) := do
  let left ← Update.demand (checkedSub size p)
  stopUnless (recordHeaderBytes ≤ left)
  let rh ← rootRead file p recordHeaderBytes (.fail .metadataRead)
  let recordVersion ← wordAt rh 8
  let reserved ← wordAt rh 64
  stopUnless (rh.take 8 = recordMagic && recordVersion = some version && reserved = some 0)
  let nl ← orStop ((← wordAt rh 16).filter fun x => 0 < x && x ≤ maxName)
  let ml ← orStop ((← wordAt rh 24).filter fun x => x ≤ maxHeaderBytes)
  let payload ← orStop (← wordAt rh 32)
  let total ← orStop (← wordAt rh 40)
  let stop ← orStop ((checkedAdd p total).filter fun x => x ≤ size && x ≤ i64Max)
  let minimum := do
    let x ← checkedAdd recordHeaderBytes nl
    let x ← checkedAdd x ml
    let x ← checkedAdd x payload
    checkedAdd x 8
  stopUnless (minimum = some total)
  let bodyLen ← orStop (checkedAdd nl ml)
  reserve alloc.body .allocation
  let bodyOffset ← Update.demand (checkedAdd p recordHeaderBytes)
  let body ← rootRead file bodyOffset bodyLen (.fail .metadataRead)
  let name ← Update.demand (slice? body 0 nl)
  stopUnless (isUtf8 name && !name.contains 0 && !out.any fun record => record.name = name)
  let metadata ← Update.demand (slice? body nl body.length)
  let nr ← orStop ((← wordAt metadata 0).filter fun x => 0 < x && x ≤ maxProtocolRank)
  let er ← orStop ((← wordAt metadata 8).filter fun x => x ≤ maxProtocolRank)
  let rank ← orStop ((checkedAdd nr er).filter fun x => x ≤ maxProtocolRank)
  let need ← orStop (checkedAdd 16 (min (rank * 8) (usizeLimit - 1)))
  stopUnless (need = ml)
  reserve alloc.dimensions .dimensionsAllocation
  let (dims, elements) ← readDims metadata rank
  let typ ← orStop (← wordAt rh 48)
  let width ← orStop (← wordAt rh 56)
  stopUnless ((ScalarType.decode typ width).isSome && checkedMul elements width = some payload)
  let markerOffset ← Update.demand (checkedSub stop 8)
  let marker ← rootRead file markerOffset 8 (.fail .metadataRead)
  stopUnless (leValue marker = commitMarker)
  reserve alloc.index .indexAllocation
  let extra ← Update.demand (slice? dims nr dims.length)
  let payloadOffset ← Update.demand (do
    let x ← checkedAdd p recordHeaderBytes
    let x ← checkedAdd x nl
    checkedAdd x ml)
  let record := {
    name, typ, width, extra, payloadOffset
    global := dims.take nr }
  return (record, stop)

/-- The loop over the records, for at most `fuel` rounds; it has no result after that.

SOURCE: named_mpi.rs:353-505 -/
def scanLoop (file : NativeFile) (alloc : ℕ → RecordAllocator) (size maxRecords : ℕ) :
    ℕ → ℕ → List Rec → Update ScanStatus Reads (List Rec × ℕ)
  | 0, _, _ => Update.demand none
  | fuel + 1, p, out =>
    if p < size then do
      Update.checked (ensure (out.length ≠ maxRecords) .recordLimit)
      match ← untilStop (scanRecord file (alloc out.length) size p out) with
      | none => return (out, p)
      | some (record, stop) =>
        scanLoop file alloc size maxRecords fuel stop (out ++ [record])
    else return (out, p)

/-- The checks of the container's own header.

SOURCE: named_mpi.rs:339-350 -/
def scanHeader (file : NativeFile) (size : ℕ) : Update ScanStatus Reads Unit := do
  Update.checked (ensure (containerBytes ≤ size) .containerHeader)
  let header ← rootRead file 0 containerBytes .metadataRead
  let containerVersion ← wordAt header 8
  let headerSize ← wordAt header 16
  let reserved ← wordAt header 24
  Update.checked (ensure (header.take 8 = magic && containerVersion = some version
    && headerSize = some containerBytes && reserved = some 0) .containerHeader)

/-- SOURCE: named_mpi.rs:334-506 -/
def scanRoot (fuel : ℕ) (file : NativeFile) (alloc : ℕ → RecordAllocator) (size maxRecords : ℕ) :
    Update ScanStatus Reads (List Rec × ℕ) := do
  scanHeader file size
  scanLoop file alloc size maxRecords fuel containerBytes []

/-! ## The catalog -/

/-- SOURCE: named_mpi.rs:533-543 -/
def encodeRecord (record : Rec) : List Byte :=
  leString 8 [record.name.length, record.typ, record.width, record.global.length,
    record.extra.length, record.payloadOffset]
    ++ record.name ++ leString 8 (record.global ++ record.extra)

/-- SOURCE: named_mpi.rs:508-546 -/
def encodeCatalog (granted : Bool) (records : List Rec) :
    Except (Stop ScanStatus) (List Byte) := do
  let catalogLen ← records.foldlM (fun catalogLen record => do
    let rank ← okOr (checkedAdd record.global.length record.extra.length)
      (.error .catalogBytes)
    let fields ← okOr (do
      let x ← checkedAdd 48 record.name.length
      let dims ← checkedMul rank 8
      checkedAdd x dims) (.error .catalogBytes)
    okOr (checkedAdd catalogLen fields) (.error .catalogBytes)) 0
  ensure granted (.error .catalogEncoding)
  let out := records.flatMap encodeRecord
  ensure (out.length = catalogLen) .panic
  return out

/-- `None` of `decode_catalog` is an error without a text.

SOURCE: named_mpi.rs:548-552 -/
def catalogWord (bytes : List Byte) (offset : ℕ) : Except (Stop Unit) (ℕ × ℕ) := do
  let word ← okOr (u64At bytes offset) .panic
  let word ← okOr word (.error ())
  let offset ← okOr (checkedAdd offset 8) (.error ())
  return (word, offset)

/-- SOURCE: named_mpi.rs:554-559 -/
def catalogSlice (bytes : List Byte) (offset len : ℕ) :
    Except (Stop Unit) (List Byte × ℕ) := do
  let stop ← okOr (checkedAdd offset len) (.error ())
  let slice ← okOr (slice? bytes offset stop) (.error ())
  return (slice, stop)

/-- What the allocator grants to one record of the catalog. -/
structure EntryAllocator where
  global : Bool
  extra : Bool
  name : Bool
deriving Repr, DecidableEq

/-- The loop over the dimensions; the first `spatial` of them are the global shape.

SOURCE: named_mpi.rs:597-606 -/
def decodeDims (bytes : List Byte) (rank offset : ℕ) :
    Except (Stop Unit) (List ℕ × ℕ × ℕ) :=
  (List.range rank).foldlM (fun (dims, elements, offset) _ => do
    let (dim, offset) ← catalogWord bytes offset
    let elements ← okOr (checkedMul elements dim) (.error ())
    return (dims ++ [dim], elements, offset)) ([], 1, offset)

/-- A record, the position after it and where the record after it starts in the file.

SOURCE: named_mpi.rs:567-625 -/
def decodeRecord (alloc : EntryAllocator) (bytes : List Byte) (size offset start : ℕ) :
    Except (Stop Unit) (Rec × ℕ × ℕ) := do
  let (nameLen, offset) ← catalogWord bytes offset
  ensure (nameLen ≠ 0 && nameLen ≤ maxName) (.error ())
  let (typ, offset) ← catalogWord bytes offset
  let (width, offset) ← catalogWord bytes offset
  let (spatial, offset) ← catalogWord bytes offset
  let (extraRank, offset) ← catalogWord bytes offset
  let (payloadOffset, offset) ← catalogWord bytes offset
  ensure (spatial ≠ 0 && spatial ≤ maxProtocolRank && extraRank ≤ maxProtocolRank) (.error ())
  let rank ← okOr (checkedAdd spatial extraRank) (.error ())
  ensure (rank ≤ maxProtocolRank) (.error ())
  let (name, offset) ← catalogSlice bytes offset nameLen
  ensure (isUtf8 name && !name.contains 0) (.error ())
  let metadataLen ← okOr (do checkedAdd 16 (← checkedMul rank 8)) (.error ())
  let headerLen ← okOr (do
    let x ← checkedAdd recordHeaderBytes nameLen
    checkedAdd x metadataLen) (.error ())
  let before ← okOr (checkedSub payloadOffset headerLen) (.error ())
  ensure (before = start) (.error ())
  ensure alloc.global (.error ())
  ensure alloc.extra (.error ())
  let (dims, elements, offset) ← decodeDims bytes rank offset
  let payload ← okOr (checkedMul elements width) (.error ())
  let stop ← okOr (do checkedAdd (← checkedAdd payloadOffset payload) 8) (.error ())
  ensure (stop ≤ size && stop ≤ i64Max) (.error ())
  let _ ← okOr (ScalarType.decode typ width) (.error ())
  ensure alloc.name (.error ())
  let record := {
    name, typ, width, payloadOffset
    global := dims.take spatial
    extra := dims.drop spatial }
  return (record, offset, stop)

/-- SOURCE: named_mpi.rs:561-631 -/
def decodeCatalog (granted : Bool) (alloc : ℕ → EntryAllocator) (bytes : List Byte)
    (count tail size : ℕ) : Except (Stop Unit) (List Rec) := do
  ensure granted (.error ())
  let (out, offset, start) ← (List.range count).foldlM (fun (out, offset, start) i => do
    let (record, offset, start) ← decodeRecord (alloc i) bytes size offset start
    return (out ++ [record], offset, start)) ([], 0, containerBytes)
  ensure (offset = bytes.length && start = tail) (.error ())
  return out

end NamedMpi

end PencilRs.Model
