import PencilRs.Computation.Translate
import PencilRs.Model.ContainerScan
import PencilRs.Model.ContainerWrite
import PencilRs.Model.MpiProtocol

/-!
# Operations on a container

All ranks write a record together: rank zero its header and its commit word, each of them its part
of the payload in between.  The header is flushed before the payload is written, and the payload
before the commit word.  A record is read into a buffer beside the destination, which changes when
all native calls are over and no rank failed.

A rank of these operations is given a name and a view.  Its destination is returned with its new
contents; where an error is returned it was not touched.

SOURCE: pencil-io/src/named_mpi.rs
-/

set_option autoImplicit false

namespace PencilRs.Model

open PencilRs.Computation FileProgram MpiIo

variable {N M : ℕ} {scalar : ScalarType} {β : Type}

/-- `From<IoError>` -/
def NamedIoError.fromStop : Stop IoError → Stop NamedIoError
  | .error e => .error (.io e)
  | .panic => .panic

namespace NamedMpi

/-! ## Phases -/

abbrev NamedProgram (β : Type) : Type := MpiProgram NamedIoError β

def liftNamed (p : MpiProgram IoError β) : NamedProgram β := ExceptT.adapt NamedIoError.fromStop p

/-- `agree_phase(..)?` -/
def agreed (localOk : Bool) (phase : String) : NamedProgram Unit :=
  liftNamed (agreePhase localOk phase)

/-- SOURCE: named_mpi.rs:86-93 -/
def prepared (value : Except IoError β) (phase : String) : NamedProgram β := do
  agreed value.isOk phase
  ofResult (value.mapError .io)

/-- The last two lines are those of `allocate`.

SOURCE: named_mpi.rs:58-84 -/
def nameBytes (isRoot granted : Bool) (name : List Byte) : NamedProgram Unit := do
  let valid ← captured (agreePhase (!name.isEmpty && name.length ≤ maxName && !name.contains 0)
    "named key validation")
  ofResult (valid.mapError fun _ => .invalidName)
  let lo ← allReduceMin name.length
  let hi ← allReduceMax name.length
  ofResult (ensure (lo = hi) (.io .collectiveDescriptorMismatch))
  agreed granted "named allocation"
  let root ← broadcastInto (if isRoot then name else List.replicate name.length 0)
  agreed (root = name) "named key agreement"

/-- A path without its final zero.

SOURCE: named_mpi.rs:95-108 -/
def pathC (granted : Bool) (path : List Byte) : Except IoError (List Byte) := do
  let len ← okOr (checkedAdd path.length 1) (.sizeLimit "path")
  ensure granted (.allocationFailed len)
  ensure (!path.contains 0) .invalidPath
  return path

/-- The operations of a scan among the native calls. -/
def sizeInto : (fileInterface sizeInterface).Into (fileInterface mpiInterface) where
  op
    | .allReduceMin => .allReduceMin
    | .allReduceMax => .allReduceMax
    | .broadcast len => .broadcast len
    | .native _ => .native .getSize
  arg
    | .allReduceMin => id
    | .allReduceMax => id
    | .broadcast _ => id
    | .native _ => id
  reply
    | .allReduceMin => id
    | .allReduceMax => id
    | .broadcast _ => id
    | .native _ => id

/-- SOURCE: named_mpi.rs:708-713 -/
def scanFile (scanner : Scanner) (maxRecords : ℕ) : NamedProgram (List Rec × ℕ × ℕ) :=
  liftNamed (Fallible.into sizeInto (scanFileBounded scanner maxRecords))

/-- Only rank zero writes bytes.

SOURCE: named_mpi.rs:1301-1316 -/
def writeMetadata (isRoot : Bool) (offset : ℕ) (bytes : List Byte) : NamedProgram Unit := do
  let own := if isRoot then bytes else []
  let result ← writeAtAll offset own
  agreed (result.toOption = some own.length) "named metadata write"

/-- Flush the file. -/
def flush (phase : String) : NamedProgram Unit := do
  let flushed ← fileSync
  agreed flushed.isOk phase

/-- Set the view of the file. -/
def viewAt (disp : ℕ) (filetype : Option MpiLayout) (phase : String) : NamedProgram Unit := do
  let set ← setView disp filetype
  agreed set.isOk phase

/-! ## Ranks -/

/-- What the allocator grants to a rank of an operation. -/
structure StoreAllocator where
  descriptor : Bool
  name : Bool
  controls : ControlsAllocator
  path : Bool
  layout : Bool
  pack : PackAllocator
  head : HeadAllocator
  axes : ControlsAllocator
  staging : Bool
  decode : DecodeAllocator

/-- What a rank brings to an operation besides its name and its view. -/
structure StoreRank where
  member : Member
  path : List Byte
  options : Option MpiIoOptions
  limits : InfoLimits
  scanner : Scanner
  alloc : StoreAllocator

/-- A name and a view.  The name is a `&str`, and the extents are of type `usize`. -/
structure NamedView (scalar : ScalarType) (N M : ℕ) where
  name : List Byte
  view : PencilArrayView scalar.Value N M
  name_utf8 : isUtf8 name = true
  dims_lt : ∀ d ∈ List.ofFn view.pencil.globalShape ++ view.extraShape.dimensions, d < usizeLimit

/-- What is in the header of the record. -/
def NamedView.subject (target : NamedView scalar N M) : Subject where
  name := target.name
  global := List.ofFn target.view.pencil.globalShape
  extra := target.view.extraShape.dimensions
  scalar := scalar
  name_utf8 := target.name_utf8
  dims_lt := target.dims_lt

/-- The request that the ranks compare. -/
def requestOf (path : List Byte) (operation : BitVec 64)
    (view : PencilArrayView scalar.Value N M) : Request N M where
  path := path
  operation := operation
  global := view.pencil.globalShape
  extra := view.extraShape.dimensions
  grid := view.pencil.topology.processGrid
  decomposition := view.pencil.decomposition.axes
  permutation := view.pencil.permutation.axesInMemoryOrder
  typeCode := BitVec.ofNat 64 scalar.code
  width := scalar.width

/-- The subarray of the view in the payload. -/
def payloadLayout (reserved : Bool) (view : PencilArrayView scalar.Value N M) :
    Except IoError MpiLayout :=
  buildLayout reserved view.pencil.globalShape view.extraShape.dimensions
    view.pencil.localShapeLogical view.pencil.localRanges view.storage.length scalar.width

/-- SOURCE: named_mpi.rs:34-39 -/
inductive StoreOperation where
  | write | read | append
deriving Repr, DecidableEq

def StoreOperation.code (operation : StoreOperation) (options : Bool) : BitVec 64 :=
  match operation, options with
  | .write, false => 0x101
  | .read, false => 0x102
  | .append, false => 0x103
  | .write, true => 51
  | .append, true => 52
  | .read, true => 53

def StoreOperation.mode : StoreOperation → OpenMode
  | .write => .create
  | .read => .read
  | .append => .update

/-- `options.map_or(Collective, |o| o.mode)` -/
def transferMode (options : Option MpiIoOptions) : MpiIoMode :=
  (options.map MpiIoOptions.mode).getD .collective

/-- `if let Some(options) = options && !options_agreed { agree_options(comm, options, &[])?; }` -/
def agreeOptions (rank : StoreRank) (optionsAgreed : Bool) : MpiProgram IoError Unit :=
  match rank.options with
  | some options => if optionsAgreed then return ()
    else agreeControls rank.member rank.limits rank.alloc.controls options []
  | none => return ()

/-- What every operation compares before it looks at its view.

SOURCE: named_mpi.rs:1112-1141, 1392-1415 -/
def preflight (rank : StoreRank) (target : NamedView scalar N M) (operation : StoreOperation)
    (optionsAgreed : Bool) : NamedProgram (List Byte) := do
  liftNamed (descriptorAgreement rank.member rank.alloc.descriptor
    (requestOf rank.path (operation.code rank.options.isSome) target.view))
  nameBytes rank.member.isRoot rank.alloc.name target.name
  liftNamed (agreeOptions rank optionsAgreed)
  prepared (pathC rank.alloc.path rank.path) "named path preparation"

/-- SOURCE: named_mpi.rs:1142-1156, 1416-1430 -/
def layoutPhase (rank : StoreRank) (target : NamedView scalar N M) (phase : String) :
    NamedProgram MpiLayout := do
  let layout := payloadLayout rank.alloc.layout target.view
  liftNamed (agreeMpiPreparation (errorOf layout) phase)
  ofResult (layout.mapError .io)

/-- The hints of the file.

SOURCE: named_mpi.rs:1162-1167, 1438-1443 -/
def acquireInfo (rank : StoreRank) (target : NamedView scalar N M) : MpiProgram IoError Unit :=
  if rank.options.isSome then do
    agreeDecomposition rank.member rank.limits rank.alloc.axes
      target.view.pencil.decomposition.axes
    infoGuard
  else return ()

/-- The communicator, and the file on it.

SOURCE: named_mpi.rs:1168-1185, 1444-1453 -/
def openNamed (mode : OpenMode) (path : List Byte) : NamedProgram Unit := do
  liftNamed duplicateComm
  let file ← captured (openCollective mode path "named file open")
  match file with
    | .ok () => return ()
    | .error e => do
      finishComm
      fail (.io e)

/-- An error ends the hints, too. -/
def openPhase (rank : StoreRank) (target : NamedView scalar N M) (mode : OpenMode)
    (path : List Byte) : NamedProgram Unit := do
  liftNamed (acquireInfo rank target)
  let opened ← captured (openNamed mode path)
  match opened with
    | .ok () => return ()
    | .error e => do
      dropInfo rank.options.isSome
      fail e

/-! ## Writing -/

/-- The two values the closure of `write_named` leaves behind. -/
structure Progress where
  datatype : Bool
  markerAttempted : Bool
deriving Repr, DecidableEq

/-- A step of the closure, with what it leaves behind if it stops there. -/
def during (progress : Progress) (p : NamedProgram β) : MpiProgram (NamedIoError × Progress) β :=
  ExceptT.adapt (fun stop => match stop with
    | .error e => .error (e, progress)
    | .panic => .panic) p

/-- Where the record starts.

SOURCE: named_mpi.rs:1195-1206 -/
def recordOffset (rank : StoreRank) (name : List Byte) (operation : StoreOperation) :
    NamedProgram ℕ :=
  if operation = .append then do
    let (records, tail, size) ← scanFile rank.scanner (usizeLimit - 1)
    ofResult (ensure (tail = size) .invalidTail)
    ofResult (ensure (!records.any fun record => record.name = name) .duplicateName)
    return size
  else return containerBytes

/-- A new container has a header of its own.

SOURCE: named_mpi.rs:1222-1225 -/
def writeContainerHeader (rank : StoreRank) (operation : StoreOperation) : NamedProgram Unit :=
  if operation = .append then return () else writeMetadata rank.member.isRoot 0 containerHeader

/-- The closure of `write_named`.

SOURCE: named_mpi.rs:1188-1272 -/
def writeRecord (rank : StoreRank) (name : List Byte) (operation : StoreOperation)
    (layout : MpiLayout) (packed head : List Byte) (recordLen : ℕ) :
    MpiProgram (NamedIoError × Progress) Progress := do
  let fileSet ← status .fileErrorsReturn true
  during ⟨false, false⟩ (agreed fileSet.isOk "named file error-handler setup")
  let offset ← during ⟨false, false⟩ (recordOffset rank name operation)
  let stop ← during ⟨false, false⟩ (ofResult
    (okOr ((checkedAdd offset recordLen).filter fun n => n ≤ i64Max)
      (.io (.sizeLimit "named container"))))
  let native ← createDatatype layout
  let datatype := native.isOk && !layout.empty
  during ⟨datatype, false⟩ (agreed native.isOk "named datatype")
  during ⟨datatype, false⟩ (writeContainerHeader rank operation)
  during ⟨datatype, false⟩ (writeMetadata rank.member.isRoot offset head)
  during ⟨datatype, false⟩ (flush "named header flush")
  during ⟨datatype, false⟩
    (viewAt (offset + head.length) (payloadType layout) "named payload view")
  let written ← writePayload (transferMode rank.options) packed
  during ⟨datatype, false⟩
    (agreed (written.toOption = some packed.length) "named payload write")
  during ⟨datatype, false⟩ (flush "named payload flush")
  during ⟨datatype, false⟩ (viewAt 0 none "named marker view")
  during ⟨datatype, true⟩
    (writeMetadata rank.member.isRoot (stop - 8) (leBytes 8 commitMarker))
  during ⟨datatype, true⟩ (flush "named marker flush")
  return ⟨datatype, true⟩

/-- What the ranks make of the closure once the handles are closed.

SOURCE: named_mpi.rs:1273-1298 -/
def concludeWrite (rank : StoreRank) (inject : Bool)
    (result : Except (NamedIoError × Progress) Progress) : NamedProgram Unit := do
  let progress := match result with
    | .ok progress => progress
    | .error (_, progress) => progress
  finishResources progress.datatype
  let own := if inject && rank.member.isRoot then
      some (.commitUncertain "named post-cleanup result") else none
  dropInfo rank.options.isSome
  let cleanup ← aggregateCleanupResult own
  if progress.markerAttempted && (!result.isOk || cleanup.isSome) then
    fail (.io (.commitUncertain "named commit or cleanup"))
  else do
    ofResult ((result.mapError fun (e, _) => e).map fun _ => ())
    match cleanup with
      | some e => fail (.io e)
      | none => return ()

/-- SOURCE: named_mpi.rs:1103-1299 -/
def writeNamed (rank : StoreRank) (target : NamedView scalar N M) (operation : StoreOperation)
    (inject optionsAgreed : Bool) : NamedProgram Unit := do
  let path ← preflight rank target operation optionsAgreed
  let layout ← layoutPhase rank target "named layout preparation"
  let packed ← checkedResult (packView rank.alloc.pack target.view)
  let packed ← prepared packed "named payload packing"
  let record := record rank.alloc.head target.subject 0
  agreed record.isOk "named record preparation"
  let (head, recordLen) ← ofResult record
  openPhase rank target operation.mode path
  let result ← captured (writeRecord rank target.name operation layout packed head recordLen)
  concludeWrite rank inject result

/-! ## Reading -/

/-- The closure of `read_named_inner`, and whether the rank has a datatype.

SOURCE: named_mpi.rs:1454-1511 -/
def readRecord (rank : StoreRank) (target : NamedView scalar N M) (layout : MpiLayout)
    (size : ℕ) : MpiProgram (NamedIoError × Progress)
      (PhysicalDecodePlan N × List Byte × Progress) := do
  let fileSet ← status .fileErrorsReturn true
  during ⟨false, false⟩ (agreed fileSet.isOk "named file error-handler setup")
  let (records, _, _) ← during ⟨false, false⟩ (scanFile rank.scanner (usizeLimit - 1))
  let record ← during ⟨false, false⟩ (ofResult (okOr
    (records.find? fun record => record.name = target.name) .notFound))
  during ⟨false, false⟩ (ofResult (ensure (record.typ = scalar.code
    && record.width = scalar.width && record.global = List.ofFn target.view.pencil.globalShape
    && record.extra = target.view.extraShape.dimensions)
    (.io (.metadataMismatch "named record"))))
  let native ← createDatatype layout
  let datatype := native.isOk && !layout.empty
  during ⟨datatype, false⟩ (agreed native.isOk "named read datatype")
  during ⟨datatype, false⟩ (viewAt record.payloadOffset (payloadType layout) "named read view")
  let (read, packed) ← readPayload (transferMode rank.options) size
  during ⟨datatype, false⟩
    (agreed (read.toOption = some packed.length) "named payload read")
  let plan ← during ⟨datatype, false⟩
    (prepared (preparePhysicalDecode rank.alloc.decode target.view packed) "named physical staging")
  return (plan, packed, ⟨datatype, false⟩)

/-- SOURCE: named_mpi.rs:1512-1541 -/
def concludeRead (rank : StoreRank) (target : NamedView scalar N M) (inject : Bool)
    (result : Except (NamedIoError × Progress) (PhysicalDecodePlan N × List Byte × Progress)) :
    NamedProgram (Buf scalar.Value) := do
  let progress := match result with
    | .ok (_, _, progress) => progress
    | .error (_, progress) => progress
  finishResources progress.datatype
  let own := if inject && rank.member.isRoot then
      some (.native "named post-cleanup result" (-1)) else none
  dropInfo rank.options.isSome
  let cleanup ← aggregateCleanupResult own
  let (plan, packed, _) ← ofResult (result.mapError fun (e, _) => e)
  match cleanup with
    | some e => fail (.io e)
    | none => Fallible.ofExcept (plan.decodeInto packed (Buf.fresh target.view.storage))

/-- SOURCE: named_mpi.rs:1377-1541 -/
def readNamed (rank : StoreRank) (target : NamedView scalar N M) (inject optionsAgreed : Bool) :
    NamedProgram (Buf scalar.Value) := do
  let path ← preflight rank target .read optionsAgreed
  let layout ← layoutPhase rank target "named read layout"
  let size ← prepared (okOr (checkedMul target.view.storage.length scalar.width)
    (.sizeLimit "named read buffer")) "named read size"
  agreed rank.alloc.staging "named allocation"
  openPhase rank target StoreOperation.read.mode path
  let result ← captured (readRecord rank target layout size)
  concludeRead rank target inject result

end NamedMpi

end PencilRs.Model
