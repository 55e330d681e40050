import PencilRs.Computation.Unflushed
import PencilRs.Model.Container
import PencilRs.Model.FileCollectives
import PencilRs.Model.Header

/-!
# The native file

A job works on one file.  What the ranks write is in the file once it is flushed; before, any front
part of what a rank wrote in a call may be there.  A read sees what was flushed.  Each rank has its
own view of the file: where the bytes it reads and writes stand.

A native call gives every rank a status of its own.  Where `mayFail` does not hold, the calls
succeed that are made on a file that is there.

SOURCE: pencil-io/src/ffi.rs
-/

set_option autoImplicit false

namespace PencilRs.Model

open PencilRs.Computation FileProgram

namespace MpiIo

/-! ## Views -/

/-- The box that a subarray datatype selects. -/
def MpiLayout.axes (layout : MpiLayout) : List BoxAxis :=
  List.zipWith3 BoxAxis.mk layout.global layout.starts layout.sizes

/-- A view: a displacement, bytes or a subarray of them, and the file pointer. -/
structure NativeView where
  disp : ℕ
  filetype : Option MpiLayout
  pointer : ℕ
deriving Repr, DecidableEq

/-- The bytes of the file, one after another. -/
def byteView : NativeView := ⟨0, none, 0⟩

/-- Where the `k`-th byte of a view stands.  A subarray repeats. -/
def NativeView.place (view : NativeView) (k : ℕ) : ℕ :=
  view.disp + match view.filetype with
    | none => k
    | some layout => k / boxSize layout.axes * arraySize layout.axes
      + boxPlace layout.axes (k % boxSize layout.axes)

/-- Bytes from the `start`-th place of a view on. -/
def NativeView.writes (view : NativeView) (start : ℕ) (bytes : List Byte) : List (ℕ × Byte) :=
  bytes.zipIdx.map fun (byte, k) => (view.place (start + k), byte)

/-- The file of a job with the ranks `ι`. -/
structure NativeState (ι : Type) where
  image : Option (List Byte)
  pending : List (WriteCall ι Byte)
  view : ι → NativeView

namespace NativeState

variable {ι : Type} (w : NativeState ι)

/-- What may be in the file if the job dies now. -/
def OnDisk (image : Option (List Byte)) : Prop :=
  ∃ writes, Landed w.pending writes ∧ image = w.image.map fun cells => pokeAll 0 cells writes

/-- The bytes that were flushed. -/
def cells : List Byte := w.image.getD []

def write (call : WriteCall ι Byte) : NativeState ι := { w with pending := w.pending ++ [call] }

end NativeState

/-! ## Calls -/

/-- Calls that give nothing but a status. -/
inductive StatusCall where
  /-- `MPI_Comm_get_errhandler`, `MPI_Comm_set_errhandler` on the original communicator -/
  | originalErrorsReturn
  | commDup
  /-- `MPI_Comm_set_errhandler`, `MPI_Errhandler_free` -/
  | originalRestore
  | commErrorsReturn
  | commFree
  | infoCreate
  | infoFree
  | fileErrorsReturn
  | typeCreateSubarray
  | typeFree
  | fileClose
deriving Repr, DecidableEq

/-- SOURCE: ffi.rs:355-360 -/
inductive OpenMode where
  | create
  | read
  | update
  | createReadWrite
deriving Repr, DecidableEq

/-- SOURCE: options.rs:7-13 -/
inductive MpiIoMode where
  | collective
  | independent
deriving Repr, DecidableEq

def MpiIoMode.code : MpiIoMode → ℕ
  | .collective => 0
  | .independent => 1

inductive MpiOp where
  | status (call : StatusCall)
  | broadcastInto (len : ℕ)
  | allGather (len : ℕ)
  | reduceWords (greatest : Bool) (len : ℕ)
  | openFile (mode : OpenMode)
  | getSize
  | sync
  | setView
  | writeAt
  | write (mode : MpiIoMode)
  | readAt
  | read (mode : MpiIoMode)

/-- A rank says whether it makes a call that gives a status; the others go on without it.  A read
gives a count and what is in the buffer then. -/
abbrev mpiInterface : Interface where
  Op := MpiOp
  Arg
    | .status _ => Bool
    | .broadcastInto len | .allGather len => List.Vector Byte len
    | .reduceWords _ len => List.Vector ℕ len
    | .openFile _ => List Byte
    | .getSize | .sync => Unit
    | .setView => ℕ × Option MpiLayout
    | .writeAt => ℕ × List Byte
    | .write _ => List Byte
    | .readAt => ℕ × ℕ
    | .read _ => ℕ
  Reply
    | .status _ | .openFile _ | .sync | .setView => Except ℤ Unit
    | .broadcastInto len => List.Vector Byte len
    | .allGather _ => List Byte
    | .reduceWords _ len => List.Vector ℕ len
    | .getSize => Except ℤ ℤ
    | .writeAt | .write _ => Except ℤ ℕ
    | .readAt | .read _ => Except ℤ ℕ × List Byte

section Semantics

variable {ι : Type}

/-- Every rank succeeds, unless calls may fail. -/
def Succeeds {β : Type} (mayFail : Prop) (replies : ι → Except ℤ β) : Prop :=
  mayFail ∨ ∀ i, (replies i).isOk = true

/-- A file is created only where there is none, and opened only where there is one. -/
def opened (mode : OpenMode) (image : Option (List Byte)) : Option (List Byte) :=
  match mode with
  | .create | .createReadWrite => if image.isNone then some [] else none
  | .read | .update => image

/-- The ranks write `bytes` from the `start`-th place of their views on; a rank that succeeds has
written as many bytes as it is told. -/
def Writes (mayFail : Prop) (w : NativeState ι) (start : ι → ℕ) (bytes : ι → List Byte)
    (replies : ι → Except ℤ ℕ) (count : ι → ℕ) (w' : NativeState ι) : Prop :=
  (∀ i, count i ≤ (bytes i).length) ∧ (∀ i n, replies i = .ok n → n = count i) ∧
    (mayFail ∨ ∀ i, replies i = .ok (bytes i).length) ∧
    w' = w.write fun i => (w.view i).writes (start i) ((bytes i).take (count i))

/-- The ranks read `len` bytes from the `start`-th place of their views on. -/
def Reads (mayFail : Prop) (w : NativeState ι) (start len : ι → ℕ)
    (replies : ι → Except ℤ ℕ × List Byte) : Prop :=
  (∀ i, (replies i).2.length = len i) ∧
    (∀ i n, (replies i).1 = .ok n → n ≤ len i ∧ (w.pending = [] →
      ∀ k < n, (replies i).2[k]? = w.cells[(w.view i).place (start i + k)]?)) ∧
    (mayFail ∨ ∀ i, (∀ k < len i, (w.view i).place (start i + k) < w.cells.length) →
      (replies i).1 = .ok (len i))

/-- The file pointers move. -/
def advance (w : NativeState ι) (count : ι → ℕ) : NativeState ι :=
  { w with view := fun i => { w.view i with pointer := (w.view i).pointer + count i } }

/-- The native calls on the file at `path`; `order` lists the ranks, of which `root` is the first. -/
def mpiCalls (root : ι) (path : List Byte) (order : List ι) (mayFail : Prop) :
    Semantics mpiInterface ι (NativeState ι) where
  Round := fun w op args replies w' =>
    match op with
    | .status _ => w' = w ∧ (∀ i, args i = false → replies i = .ok ()) ∧ Succeeds mayFail replies
    | .broadcastInto _ => w' = w ∧ ∀ i, replies i = args root
    | .allGather _ => w' = w ∧ ∀ i, replies i = (order.map fun j => (args j).1).flatten
    | .reduceWords greatest _ => w' = w ∧ ∀ i k,
        if greatest then IsGreatest (Set.range fun j => (args j).get k) ((replies i).get k)
        else IsLeast (Set.range fun j => (args j).get k) ((replies i).get k)
    | .openFile mode => (∀ i, args i = path) ∧
        (((∃ i, replies i = .ok ()) → (opened mode w.image).isSome = true) ∧
          (mayFail ∨ opened mode w.image = none ∨ ∀ i, replies i = .ok ()) ∧
          ∃ made : Bool, ((∃ i, replies i = .ok ()) → made = true) ∧
            w' = { w with image := if made then (opened mode w.image).or w.image else w.image
                          view := fun _ => byteView })
    | .getSize => w' = w ∧ (∀ i n, replies i = .ok n →
        n ≤ i64Max ∧ (w.pending = [] → n = w.cells.length)) ∧
        (mayFail ∨ w.pending ≠ [] ∨ i64Max < w.cells.length ∨ ∀ i, replies i = .ok w.cells.length)
    | .sync => Succeeds mayFail replies ∧
        (((∀ i, (replies i).isOk = true) ∧ ∃ writes, AllLanded w.pending writes ∧ w' = { w with
            image := w.image.map fun cells => pokeAll 0 cells writes
            pending := [] }) ∨
          (∃ i, (replies i).isOk = false) ∧ w' = w)
    | .setView => Succeeds mayFail replies ∧ ∃ view, (∀ i, replies i = .ok () →
        view i = ⟨(args i).1, (args i).2, 0⟩) ∧ w' = { w with view }
    | .writeAt => ∃ count, Writes mayFail w (fun i => (args i).1) (fun i => (args i).2) replies
        count w'
    | .write _ => ∃ count w₁, Writes mayFail w (fun i => (w.view i).pointer) args replies count w₁ ∧
        w' = advance w₁ count
    | .readAt => w' = w ∧ Reads mayFail w (fun i => (args i).1) (fun i => (args i).2) replies
    | .read _ => Reads mayFail w (fun i => (w.view i).pointer) args replies ∧
        ∃ count, w' = advance w count
  Torn := fun w op args w' =>
    match op with
    | .writeAt => w' = w.write fun i => (w.view i).writes (args i).1 (args i).2
    | .write _ => w' = w.write fun i => (w.view i).writes (w.view i).pointer (args i)
    | .openFile mode => ∃ made : Bool, w' = { w with
        image := if made then (opened mode w.image).or w.image else w.image }
    | _ => False

end Semantics

end MpiIo

end PencilRs.Model
