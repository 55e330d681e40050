import PencilRs.Model.Container
import PencilRs.Model.FileCollectives

/-!
# The scan of a container on all ranks

Rank zero scans the file and sends a report of fixed size; the catalog follows in chunks, and the
other ranks decode it.  The ranks agree after every step that may fail on one of them.

SOURCE: pencil-io/src/named_mpi.rs
-/

set_option autoImplicit false

namespace PencilRs.Model

open PencilRs.Computation FileProgram

namespace NamedMpi

/-! ## Reports -/

/-- SOURCE: named_mpi.rs:256-264 -/
def ScanStatus.code : ScanStatus → ℕ
  | .containerHeader => 1
  | .containerSize => 2
  | .recordLimit => 3
  | .metadataRead => 4
  | .allocation => 5
  | .dimensionsAllocation => 6
  | .indexAllocation => 7
  | .catalogBytes => 8
  | .catalogEncoding => 9

/-- SOURCE: named_mpi.rs:648-663 -/
def encodeReport (status catalogLen count tail size : ℕ) : List Byte :=
  leString 8 [status, catalogLen, count, tail, size]

/-- SOURCE: named_mpi.rs:665-669 -/
def reportFields (report : List Byte) : List ℕ := leWords 8 5 report

/-- SOURCE: named_mpi.rs:671-703 -/
def failureStatus (status : ℕ) : Option IoError :=
  match status with
  | 1 => some (.invalidFile "named container header")
  | 2 => some (.sizeLimit "container size")
  | 3 => some (.sizeLimit "catalog dataset count")
  | 4 => some (.collectivePrecondition "named metadata read")
  | 5 => some (.collectivePrecondition "named allocation")
  | 6 => some (.collectivePrecondition "named dimensions allocation")
  | 7 => some (.collectivePrecondition "named record index allocation")
  | 8 => some (.sizeLimit "named catalog bytes")
  | 9 => some (.collectivePrecondition "named catalog encoding")
  | _ => none

/-! ## Chunks -/

/-- SOURCE: named_mpi.rs:251 -/
def catalogChunkBytes : ℕ := 1 <<< 30

/-- The number of broadcasts of a catalog.

SOURCE: named_mpi.rs:837-841 -/
def chunkCount (catalogLen : ℕ) : ℕ :=
  if catalogLen = 0 then 1 else (catalogLen - 1) / catalogChunkBytes + 1

/-- The bytes of the `k`-th broadcast, the first being the zeroth.

SOURCE: named_mpi.rs:843-844 -/
def chunkRange (catalogLen k : ℕ) : Option (ℕ × ℕ) := do
  let start ← checkedMul k catalogChunkBytes
  return (start, min (min (start + catalogChunkBytes) (usizeLimit - 1)) catalogLen)

/-! ## Programs -/

/-- The native operation of a scan: every rank asks for the size of the file. -/
abbrev sizeInterface : Interface where
  Op := Unit
  Arg _ := Unit
  Reply _ := Except ℤ ℤ

/-- Every rank gets the size, unless the call may fail.  Sizes are of type `MPI_Offset`. -/
def sizeCalls (ι : Type) (size : ℤ) (mayFail : Prop) : Semantics sizeInterface ι Unit where
  Round := fun _ _ _ replies _ =>
    (∀ i n, replies i = .ok n → n ≤ i64Max) ∧ (mayFail ∨ ∀ i, replies i = .ok size)
  Torn := fun _ _ _ _ => False

/-- What a rank brings to a scan.  Only rank zero reads the file and encodes a catalog. -/
structure Scanner where
  isRoot : Bool
  file : NativeFile
  recordAlloc : ℕ → RecordAllocator
  catalogGranted : Bool
  receiveGranted : Bool
  entriesGranted : Bool
  entryAlloc : ℕ → EntryAllocator

/-- What rank zero finds.

SOURCE: named_mpi.rs:753-758 -/
def Scanner.outcome (scanner : Scanner) (size : Option ℕ) (maxRecords : ℕ) :
    Except (Stop ScanStatus) (List Rec × ℕ × List Byte) := do
  let size ← okOr size (.error .containerSize)
  let (result, _) ← okOr
    ((scanRoot size scanner.file scanner.recordAlloc size maxRecords).runOn []) .panic
  let (records, tail) ← result.mapError .error
  let catalog ← encodeCatalog scanner.catalogGranted records
  return (records, tail, catalog)

/-- The report of a rank; only that of rank zero is sent.

SOURCE: named_mpi.rs:749-773 -/
def Scanner.report (scanner : Scanner) (size : Option ℕ) (maxRecords : ℕ) :
    Except (Stop IoError) (List Byte × Option (List Rec × List Byte)) :=
  if scanner.isRoot then
    match scanner.outcome size maxRecords with
    | .ok (records, tail, catalog) =>
      .ok (encodeReport 0 catalog.length records.length tail (size.getD 0),
        some (records, catalog))
    | .error (.error status) => .ok (encodeReport status.code 0 0 0 0, none)
    | .error .panic => .error .panic
  else .ok (encodeReport 0 0 0 0 0, none)

/-- `usize::try_from(local_size).ok()` -/
def sizeTryFrom (localSize : ℤ) : Option ℕ := if 0 ≤ localSize then some localSize.toNat else none

/-- SOURCE: named_mpi.rs:802-815 -/
def reportValid (size : Option ℕ) (catalogLen count tail fileSize maxRecords : ℕ) : Bool :=
  match size with
  | none => false
  | some size => fileSize = size && containerBytes ≤ tail && tail ≤ size && count ≤ maxRecords
    && (if count = 0 then catalogLen = 0 && tail = containerBytes
      else (checkedMul count 48).any fun minimum => minimum ≤ catalogLen)

/-- One broadcast of the catalog into the bytes a rank has.

SOURCE: named_mpi.rs:842-863 -/
def broadcastChunk (catalogLen : ℕ) (bytes : List Byte) (k : ℕ) :
    FileProgram sizeInterface IoError (List Byte) := do
  let (start, stop) ← orPanic (chunkRange catalogLen k)
  let chunk ← orPanic (slice? bytes start stop)
  let (ok, received) ← bcastBytes chunk
  agreePhase ok "named catalog broadcast"
  return splice bytes start received

/-- The size every rank sees.

SOURCE: named_mpi.rs:726-747 -/
def agreedSize : FileProgram sizeInterface IoError ℤ := do
  let nativeSize ← FileProgram.native (N := sizeInterface) () ()
  agreePhase nativeSize.isOk "MPI_File_get_size"
  let localSize ← ofResult (nativeSize.mapError fun code => .mpi "MPI_File_get_size" code)
  let minSize ← allReduceMin localSize
  let maxSize ← allReduceMax localSize
  ofResult (ensure (minSize = maxSize) .collectiveDescriptorMismatch)
  return localSize

/-- The bytes the broadcasts fill; rank zero has the catalog there.

SOURCE: named_mpi.rs:816-834, 845-851 -/
def Scanner.buffer (scanner : Scanner) (rootScan : Option (List Rec × List Byte))
    (catalogLen : ℕ) : FileProgram sizeInterface IoError (List Byte) :=
  if scanner.isRoot then orPanic (rootScan.map Prod.snd)
  else return List.replicate catalogLen 0

/-- The records; rank zero has them already.

SOURCE: named_mpi.rs:866-884 -/
def Scanner.decoded (scanner : Scanner) (rootScan : Option (List Rec × List Byte))
    (bytes : List Byte) (count tail size : ℕ) : Except (Stop Unit) (List Rec) :=
  if scanner.isRoot then okOr (rootScan.map Prod.fst) .panic
  else decodeCatalog scanner.entriesGranted scanner.entryAlloc bytes count tail size

/-- The catalog of rank zero, in chunks, and what every rank makes of it.

SOURCE: named_mpi.rs:816-885 -/
def receiveCatalog (scanner : Scanner) (size : Option ℕ)
    (rootScan : Option (List Rec × List Byte)) (catalogLen count tail : ℕ) :
    FileProgram sizeInterface IoError (List Rec × ℕ × ℕ) := do
  let bytes ← scanner.buffer rootScan catalogLen
  let bytes ← (List.range (chunkCount catalogLen)).foldlM (broadcastChunk catalogLen) bytes
  let decoded := scanner.decoded rootScan bytes count tail (size.getD 0)
  agreePhase (decide (decoded ≠ .error (.error ()))) "named catalog decode"
  let records ← orPanic decoded.toOption
  return (records, tail, size.getD 0)

/-- Its errors are `NamedIoError::Io` of these.

SOURCE: named_mpi.rs:721-886 -/
def scanFileBounded (scanner : Scanner) (maxRecords : ℕ) :
    FileProgram sizeInterface IoError (List Rec × ℕ × ℕ) := do
  let localSize ← agreedSize
  let size := sizeTryFrom localSize
  let (report, rootScan) ← Fallible.ofExcept (scanner.report size maxRecords)
  let (reportOk, report) ← bcastBytes report
  agreePhase reportOk "named catalog report broadcast"
  match reportFields report with
  | [status, catalogLen, count, tail, fileSize] =>
    if status ≠ 0 then
      match failureStatus status with
      | some error => fail error
      | none => do
        agreePhase false "named catalog preparation"
        orPanic none
    else do
      agreePhase (reportValid size catalogLen count tail fileSize maxRecords
        && (scanner.isRoot || scanner.receiveGranted)) "named catalog preparation"
      receiveCatalog scanner size rootScan catalogLen count tail
  | _ => orPanic none

end NamedMpi

end PencilRs.Model
