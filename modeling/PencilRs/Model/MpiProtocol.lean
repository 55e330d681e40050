import PencilRs.Model.Codec
import PencilRs.Model.Hdf5Session
import PencilRs.Model.MpiFile

/-!
# Phases of a file operation

Before the ranks of a job touch a file they compare what they were asked for, and after every
native call they agree whether it succeeded.  Where some of them have a handle and others do not,
the job is aborted: such a handle can neither be used nor closed.

SOURCE: pencil-io/src/mpi_io.rs, options.rs
-/

set_option autoImplicit false

namespace PencilRs.Model

open PencilRs.Computation FileProgram
open Hdf5 (collectiveState abortUnrecoverable)

namespace MpiIo

abbrev MpiProgram (ε β : Type) : Type := FileProgram mpiInterface ε β

section Calls

variable {ε ε' β : Type}

/-- An error is a result; a panic is not. -/
def caught (result : Except (Stop ε) β) : Except (Stop ε') (Except ε β) :=
  match result with
  | .ok x => .ok (.ok x)
  | .error (.error e) => .ok (.error e)
  | .error .panic => .error .panic

/-- The result of a part that may stop early. -/
def captured (p : MpiProgram ε β) : MpiProgram ε' (Except ε β) :=
  ExceptT.mk (p.run.bind fun r => .ret (caught r))

/-- A local result that is looked at later. -/
def checkedResult (result : Except (Stop ε) β) : MpiProgram ε' (Except ε β) :=
  Fallible.ofExcept (caught result)

/-- `Err(own.unwrap_or(agreement))` -/
def orOwn (own : Option IoError) (p : MpiProgram IoError β) : MpiProgram IoError β :=
  ExceptT.adapt (fun agreement => match own with
    | some e => .error e
    | none => agreement) p

def errorOf (result : Except ε β) : Option ε :=
  match result with
  | .ok _ => none
  | .error e => some e

def status (call : StatusCall) (makes : Bool) : MpiProgram ε (Except ℤ Unit) :=
  native (N := mpiInterface) (.status call) makes

/-- SOURCE: ffi.rs:487-527 -/
def writeAtAll (offset : ℕ) (bytes : List Byte) : MpiProgram ε (Except ℤ ℕ) :=
  native (N := mpiInterface) .writeAt (offset, bytes)

/-- SOURCE: ffi.rs:580-620 -/
def writePayload (mode : MpiIoMode) (bytes : List Byte) : MpiProgram ε (Except ℤ ℕ) :=
  native (N := mpiInterface) (.write mode) bytes

/-- SOURCE: ffi.rs:529-575 -/
def readAtAll (offset len : ℕ) : MpiProgram ε (Except ℤ ℕ × List Byte) :=
  native (N := mpiInterface) .readAt (offset, len)

/-- SOURCE: ffi.rs:622-665 -/
def readPayload (mode : MpiIoMode) (len : ℕ) : MpiProgram ε (Except ℤ ℕ × List Byte) :=
  native (N := mpiInterface) (.read mode) len

/-- SOURCE: ffi.rs:405-411 -/
def fileSync : MpiProgram ε (Except ℤ Unit) := native (N := mpiInterface) .sync ()

/-- SOURCE: ffi.rs:413-448 -/
def setView (disp : ℕ) (filetype : Option MpiLayout) : MpiProgram ε (Except ℤ Unit) :=
  native (N := mpiInterface) .setView (disp, filetype)

/-- SOURCE: ffi.rs:345-375 -/
def openFile (mode : OpenMode) (path : List Byte) : MpiProgram ε (Except ℤ Unit) :=
  native (N := mpiInterface) (.openFile mode) path

def fileGetSize : MpiProgram ε (Except ℤ ℤ) := native (N := mpiInterface) .getSize ()

/-- A buffer is sent whole. -/
theorem length_sent (bytes : List Byte) : bytes.length = bytes.length := rfl

def allGather (bytes : List Byte) : MpiProgram ε (List Byte) :=
  native (N := mpiInterface) (.allGather bytes.length) ⟨bytes, length_sent bytes⟩

/-- `broadcast_into` of rank zero, which gives no status -/
def broadcastInto (bytes : List Byte) : MpiProgram ε (List Byte) := do
  let received ← native (N := mpiInterface) (.broadcastInto bytes.length)
    ⟨bytes, length_sent bytes⟩
  return received.1

def reduceWords (greatest : Bool) (words : List ℕ) : MpiProgram ε (List ℕ) := do
  let reduced ← native (N := mpiInterface) (.reduceWords greatest words.length) ⟨words, rfl⟩
  return reduced.1

/-- `bytes.chunks_exact(len)` -/
def chunksExact (len : ℕ) (bytes : List Byte) : List (List Byte) :=
  (List.range (bytes.length / len)).map fun k => (bytes.drop (k * len)).take len

end Calls

/-! ## Agreements -/

/-- What a rank knows of its communicator. -/
structure Member where
  isRoot : Bool
  size : ℕ
deriving Repr, DecidableEq

/-- The same descriptor on every rank.

SOURCE: mpi_io.rs:1045-1117 -/
def descriptorAgreement {N M : ℕ} (member : Member) (granted : Bool) (request : Request N M) :
    MpiProgram IoError Unit := do
  let descriptor := buildDescriptor request
  let localLen := (descriptor.toOption.map List.length).getD 0
  let fixed := [ioNamespace, request.operation.toNat, formatVersion, localLen,
    if descriptor.isOk then 1 else 0]
  let minimum ← reduceWords false fixed
  let maximum ← reduceWords true fixed
  if minimum ≠ maximum then
    fail ((errorOf descriptor).getD .collectiveDescriptorMismatch)
  else do
    let descriptor ← ofResult descriptor
    let total ← ofResult (okOr (checkedMul descriptor.length member.size)
      (.sizeLimit "descriptor allgather"))
    ofResult (ensure (total ≤ 64 * 1024 * 1024) (.sizeLimit "descriptor allgather"))
    orOwn (if granted then none else some (.allocationFailed total))
      (agreePhase granted "descriptor allgather allocation")
    let gathered ← allGather descriptor
    ofResult (ensure ((chunksExact descriptor.length gathered).all fun chunk => chunk = descriptor)
      .collectiveDescriptorMismatch)

/-- Controls of a native file; the hints are UTF-8.

SOURCE: options.rs:19-22 -/
structure MpiIoOptions where
  mode : MpiIoMode
  hints : List (List Byte × List Byte)
deriving Repr, DecidableEq

/-- `MPI_MAX_INFO_KEY`, `MPI_MAX_INFO_VAL` -/
structure InfoLimits where
  key : ℕ
  value : ℕ
deriving Repr, DecidableEq

/-- What the allocator grants to a comparison of controls. -/
structure ControlsAllocator where
  descriptor : Bool
  gathered : Bool
deriving Repr, DecidableEq

/-- The hints are sorted by their keys, and no key repeats. -/
def hintsAreValid (limits : InfoLimits) (hints : List (List Byte × List Byte)) : Bool :=
  hints.zipIdx.all fun ((key, value), i) => !key.isEmpty && !value.isEmpty
    && key.length < limits.key && value.length < limits.value && !key.contains 0
    && !value.contains 0 && (i = 0 || ((hints[i - 1]?).all fun before => before.1 < key))

/-- SOURCE: options.rs:122-162 -/
def controlsDescriptor (limits : InfoLimits) (granted : Bool) (options : MpiIoOptions)
    (extra : List ℕ) : Except IoError (List Byte) := do
  let size ← okOr (options.hints.foldlM (fun n (key, value) =>
    checkedAdd n (16 + key.length + value.length)) (16 + extra.length * 8))
    (.sizeLimit "options descriptor")
  ensure (size ≤ maxDescriptorBytes) (.sizeLimit "options descriptor")
  ensure granted (.allocationFailed size)
  ensure (hintsAreValid limits options.hints) (.invalidInput "invalid or duplicate MPI hint")
  return leString 8 ([options.mode.code, options.hints.length] ++ extra)
    ++ options.hints.flatMap fun (key, value) =>
      leBytes 8 key.length ++ key ++ leBytes 8 value.length ++ value

/-- SOURCE: options.rs:116-194 -/
def agreeControls (member : Member) (limits : InfoLimits) (alloc : ControlsAllocator)
    (options : MpiIoOptions) (extra : List ℕ) : MpiProgram IoError Unit := do
  let descriptor := controlsDescriptor limits alloc.descriptor options extra
  orOwn (errorOf descriptor) (agreePhase descriptor.isOk "options preparation")
  let bytes ← ofResult descriptor
  let least ← allReduceMin bytes.length
  let greatest ← allReduceMax bytes.length
  ofResult (ensure (least = greatest) .collectiveDescriptorMismatch)
  let total ← ofResult (okOr ((checkedMul bytes.length member.size).filter
    fun n => n ≤ 64 * 1024 * 1024) (.sizeLimit "options allgather"))
  orOwn (if alloc.gathered then none else some (.allocationFailed total))
    (agreePhase alloc.gathered "options allocation")
  let all ← allGather bytes
  ofResult (ensure ((chunksExact bytes.length all).all fun chunk => chunk = bytes)
    .collectiveDescriptorMismatch)

/-- SOURCE: options.rs:199-210 -/
def agreeDecomposition {N M : ℕ} (member : Member) (limits : InfoLimits) (alloc : ControlsAllocator)
    (decomposition : Fin M → Fin N) : MpiProgram IoError Unit :=
  agreeControls member limits alloc ⟨.collective, []⟩
    (List.ofFn fun i => (decomposition i).val)

/-- A failure to prepare, as a number: that of the local byte count counts most.

SOURCE: mpi_io.rs:1016-1020 -/
def preparationState (localError : Option IoError) : ℤ :=
  match localError with
  | none => 0
  | some (.sizeLimit what) => if what = mpiLocalByteLimitWhat then 2 else 1
  | some _ => 1

/-- SOURCE: mpi_io.rs:1011-1030 -/
def agreeMpiPreparation (localError : Option IoError) (phase : String) :
    MpiProgram IoError Unit := do
  let greatest ← allReduceMax (preparationState localError)
  if greatest = 0 then return ()
  else if greatest = 2 then fail (.sizeLimit mpiLocalByteLimitWhat)
  else fail (.collectivePrecondition phase)

/-- SOURCE: mpi_io.rs:1032-1038 -/
def mpiPreparationError (localError : Option IoError) (agreement : IoError) : IoError :=
  if agreement = .sizeLimit mpiLocalByteLimitWhat then agreement else localError.getD agreement

/-! ## Handles -/

/-- SOURCE: options.rs:211-240 -/
def infoGuard : MpiProgram IoError Unit := do
  let info ← status .infoCreate true
  let agreed ← captured (agreePhase info.isOk "MPI_Info creation")
  match agreed with
  | .ok () => ofResult (info.mapError (.mpi "MPI_Info"))
  | .error agreement => do
    let freed ← status .infoFree info.isOk
    if freed.isOk then fail (((errorOf info).map (IoError.mpi "MPI_Info")).getD agreement)
    else abortUnrecoverable

/-- The end of an `InfoGuard`.

SOURCE: options.rs:241-247 -/
def dropInfo {ε : Type} (held : Bool) : MpiProgram ε Unit := do
  let freed ← status .infoFree held
  if freed.isOk then return () else abortUnrecoverable

/-- A call on handles that must not be left open.

SOURCE: mpi_io.rs:939-990 -/
def release {ε : Type} (call : StatusCall) (held : Bool) : MpiProgram ε Unit := do
  let code ← status call held
  let (allClosed, _) ← collectiveState code.isOk
  if allClosed then return () else abortUnrecoverable

/-- SOURCE: mpi_io.rs:933-943 -/
def finishComm {ε : Type} : MpiProgram ε Unit := release .commFree true

/-- SOURCE: mpi_io.rs:945-993 -/
def finishResources {ε : Type} (datatype : Bool) : MpiProgram ε Unit := do
  release .typeFree datatype
  release .fileClose true
  release .commFree true

/-- SOURCE: mpi_io.rs:78-147 -/
def duplicateComm : MpiProgram IoError Unit := do
  let begun ← status .originalErrorsReturn true
  if !begun.isOk then abortUnrecoverable
  else do
    let duplicate ← status .commDup true
    let (allSucceeded, mixed) ← collectiveState duplicate.isOk
    let restored ← status .originalRestore true
    let agreement ← captured
      (agreePhase restored.isOk "original communicator error-handler restoration")
    if mixed then abortUnrecoverable
    else if !allSucceeded then
      if !agreement.isOk then abortUnrecoverable
      else fail (((errorOf duplicate).map (IoError.mpi "MPI_Comm_dup")).getD
        (.collectivePrecondition "communicator duplication"))
    else if !agreement.isOk then do
      finishComm
      abortUnrecoverable
    else do
      let set ← status .commErrorsReturn true
      let agreed ← captured (agreePhase set.isOk "communicator error-handler setup")
      match agreed with
      | .ok () => return ()
      | .error agreement => do
        finishComm
        fail (((errorOf set).map (IoError.mpi "MPI_Comm_set_errhandler")).getD agreement)

/-- All ranks open the file, or none.

SOURCE: mpi_io.rs:857-884, named_mpi.rs:111-152 -/
def openCollective (mode : OpenMode) (path : List Byte) (phase : String) :
    MpiProgram IoError Unit := do
  let file ← openFile mode path
  let (allSucceeded, mixed) ← collectiveState file.isOk
  if mixed then abortUnrecoverable
  else if !allSucceeded then
    fail (((errorOf file).map (IoError.mpi "MPI_File_open")).getD (.collectivePrecondition phase))
  else return ()

/-- SOURCE: mpi_io.rs:913-931 -/
def aggregateCleanupResult {ε : Type} (own : Option IoError) : MpiProgram ε (Option IoError) := do
  let anyFailed ← allReduceMax (if own.isSome then 1 else 0)
  return if anyFailed = 0 then none
    else own.or (some (.collectivePrecondition "post-cleanup result"))

/-- The datatype of the payload; a rank whose block is empty has none.

SOURCE: named_mpi.rs:1196-1204, mpi_io.rs:360-371 -/
def createDatatype {ε : Type} (layout : MpiLayout) : MpiProgram ε (Except ℤ Unit) :=
  status .typeCreateSubarray (!layout.empty)

/-- The view of the payload. -/
def payloadType (layout : MpiLayout) : Option MpiLayout :=
  if layout.empty then none else some layout

end MpiIo

end PencilRs.Model
