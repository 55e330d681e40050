import PencilRs.Model.Container
import PencilRs.Model.Header

/-!
# Writing a container

A record is a header with its name and its metadata, the payload, and the commit word at its end.
The header is complete before the file is opened; only the place of the record is not known then.

SOURCE: pencil-io/src/named_mpi.rs
-/

set_option autoImplicit false

namespace PencilRs.Model

open PencilRs.Computation

/-- SOURCE: lib.rs:293-309 -/
inductive NamedIoError where
  | invalidName
  | duplicateName
  | notFound
  | invalidTail
  | io (error : IoError)
deriving Repr, DecidableEq

namespace NamedMpi

/-- SOURCE: named_mpi.rs:982-988 -/
def containerHeader : List Byte :=
  splice (splice (splice (List.replicate containerBytes 0) 0 magic) 8 (leBytes 8 version)) 16
    (leBytes 8 containerBytes)

/-- What is written to one record, but its place and its bytes.  A name is a `&str`, and an extent
a `usize`. -/
structure Subject where
  name : List Byte
  global : List ℕ
  extra : List ℕ
  scalar : ScalarType
  name_utf8 : isUtf8 name = true
  dims_lt : ∀ d ∈ global ++ extra, d < usizeLimit

/-- What the allocator grants to a header. -/
structure HeadAllocator where
  metadata : Bool
  header : Bool
deriving Repr, DecidableEq

/-- The bytes of the payload.

SOURCE: named_mpi.rs:911-924 -/
def payloadBytes (subject : Subject) : Except NamedIoError ℕ := do
  let elements ← (do
    let x ← elementCount subject.global
    let y ← elementCount subject.extra
    okOr (checkedMul x y) (.sizeLimit "global elements")).mapError .io
  okOr (checkedMul elements subject.scalar.width) (.io (.sizeLimit "payload"))

/-- The header of a record that starts at `offset`, and where the record ends.

SOURCE: named_mpi.rs:888-980 -/
def record (alloc : HeadAllocator) (subject : Subject) (offset : ℕ) :
    Except NamedIoError (List Byte × ℕ) := do
  let n := subject.global.length
  let rank ← okOr (checkedAdd n subject.extra.length) (.io (.sizeLimit "logical rank"))
  ensure (!subject.name.isEmpty && subject.name.length ≤ maxName && !subject.name.contains 0
    && n ≠ 0 && n ≤ maxProtocolRank && subject.extra.length ≤ maxProtocolRank
    && rank ≤ maxProtocolRank) .invalidName
  let payload ← payloadBytes subject
  let metaLen ← okOr (do checkedAdd 16 (← checkedMul rank 8)) (.io (.sizeLimit "metadata"))
  ensure (metaLen ≤ maxHeaderBytes) (.io (.sizeLimit "metadata"))
  ensure alloc.metadata (.io (.allocationFailed metaLen))
  let metadata := leString 8 (n :: subject.extra.length :: (subject.global ++ subject.extra))
  let total ← okOr (do
    let x ← checkedAdd recordHeaderBytes subject.name.length
    let x ← checkedAdd x metadata.length
    let x ← checkedAdd x payload
    checkedAdd x 8) (.io (.sizeLimit "record"))
  let stop ← okOr ((checkedAdd offset total).filter fun x => x ≤ i64Max)
    (.io (.sizeLimit "record"))
  let headerLen ← okOr (do
    let x ← checkedAdd recordHeaderBytes subject.name.length
    checkedAdd x metadata.length) (.io (.sizeLimit "header"))
  ensure alloc.header (.io (.allocationFailed headerLen))
  let head := recordMagic ++ leString 8 [version, subject.name.length, metadata.length, payload,
    total, subject.scalar.code, subject.scalar.width, 0] ++ subject.name ++ metadata
  return (head, stop)

end NamedMpi

end PencilRs.Model
