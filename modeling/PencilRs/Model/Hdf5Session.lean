import PencilRs.Model.FileCollectives
import PencilRs.Model.Hdf5Catalog
import PencilRs.Model.IoDescriptor

/-!
# The tree of an HDF5 session

A session keeps its datasets in groups under one root.  The catalog walks the links from the root
down, all ranks together: they read the same file, but the identity of an object is that of the
process, so each rank has its own set of the objects it has seen.

The world is the list of the objects opened so far, the root first.  A handle is the object it
stands for, and closing it succeeds and is left out.

SOURCE: pencil-io/src/hdf5_io/session.rs, hdf5_io/session/tree.rs
-/

set_option autoImplicit false

namespace PencilRs.Model

open PencilRs.Computation FileProgram

namespace Hdf5

/-! ## Paths -/

/-- SOURCE: hdf5_io/session.rs:29 -/
def maxDepth : ℕ := 32

/-- SOURCE: hdf5_io/session.rs:30 -/
def maxPath : ℕ := 4096

/-- SOURCE: hdf5_io/session.rs:31 -/
def maxComponent : ℕ := 255

/-- SOURCE: hdf5_io/session.rs:32 -/
def maxObjects : ℕ := 65536

/-- SOURCE: hdf5_io/session.rs:33 -/
def maxTreeBytes : ℕ := 16 * 1024 * 1024

/-- `str::from_utf8` -/
def fromUtf8 (bytes : List Byte) : Option String :=
  String.fromUTF8? ⟨(bytes.map UInt8.ofBitVec).toArray⟩

/-- `str::as_bytes` -/
def utf8Bytes (text : String) : List Byte := text.toByteArray.data.toList.map UInt8.toBitVec

/-- `CString::new`, without the final zero. -/
def cString (text : String) : Option (List Byte) :=
  if 0 ∈ utf8Bytes text then none else some (utf8Bytes text)

/-- `path.split('/')` -/
def pathComponents (path : String) : List (List Char) := path.toList.splitOn '/'

/-- SOURCE: hdf5_io/session.rs:130-138 -/
def validPath (path : String) : Bool :=
  path ≠ "" && path.utf8ByteSize ≤ maxPath && 0 ∉ utf8Bytes path
    && (pathComponents path).length ≤ maxDepth
    && (pathComponents path).all fun c => c ≠ [] && String.ofList c ≠ "." && String.ofList c ≠ ".."
      && (String.ofList c).utf8ByteSize ≤ maxComponent

/-- SOURCE: hdf5_io/session/tree.rs:61-65 -/
def joinPath (pre component : String) : String :=
  if pre = "" then component else pre ++ "/" ++ component

/-! ## Files -/

/-- A link of a group.  A soft or an external link has no target. -/
structure Link (O : Type) where
  name : List Byte
  target : Option O

inductive StoredObject (O : Type) where
  | group (links : List (Link O))
  | dataset (dataset : Dataset)
  | other

/-- SOURCE: ffi.rs:1029-1033 -/
inductive LinkObjectType where
  | group | dataset
deriving Repr, DecidableEq

def StoredObject.hasType {O : Type} : StoredObject O → LinkObjectType → Bool
  | .group _, .group => true
  | .dataset _, .dataset => true
  | _, _ => false

/-- What a file has below the root of the tree.  The links of a group are in the order of their
names. -/
structure LinkGraph (O : Type) where
  object : O → StoredObject O
  root : O
  root_group : (object root).hasType .group = true
  names_nodup : ∀ o links, object o = .group links → (links.map Link.name).Nodup
  /-- An attribute has as many values as its extents say. -/
  values_fill : ∀ o dataset attr stored, object o = .dataset dataset →
    dataset.attributes attr = some stored → stored.values.length = stored.shape.prod

namespace LinkGraph

variable {O : Type} (graph : LinkGraph O)

def links (o : O) : List (Link O) :=
  match graph.object o with
  | .group links => links
  | _ => []

def lookup (group : O) (name : List Byte) : Except ℤ (Link O) :=
  okOr ((graph.links group).find? fun link => link.name = name) (-1)

/-- SOURCE: ffi.rs:1562-1569 -/
def groupLinkCount (group : O) : Except ℤ ℕ :=
  if (graph.object group).hasType .group then .ok (graph.links group).length else .error (-1)

/-- The length of a name, and what fits of it in a buffer that ends with a zero.

SOURCE: ffi.rs:1571-1590 -/
def linkNameByIdx (group : O) (index : ℕ) : Except ℤ (ℕ × List Byte) := do
  let link ← okOr (graph.links group)[index]? (-1)
  let kept := link.name.take maxComponent
  return (link.name.length, kept ++ List.replicate (maxComponent + 1 - kept.length) 0)

/-- SOURCE: ffi.rs:965-997 -/
def linkIsHardAndType (group : O) (name : List Byte) (expected : LinkObjectType) :
    Except ℤ Bool := do
  let link ← graph.lookup group name
  return link.target.any fun o => (graph.object o).hasType expected

/-- SOURCE: ffi.rs:1001-1027 -/
def hardObjectIdentity (identity : O → ℕ × ℕ) (group : O) (name : List Byte) :
    Except ℤ (ℕ × ℕ) := do
  let link ← graph.lookup group name
  let o ← okOr link.target (-1)
  return identity o

/-- `H5Gopen2`, `H5Dopen2` -/
def openLink (group : O) (name : List Byte) : Except ℤ O := do
  let link ← graph.lookup group name
  okOr link.target (-1)

def dataset (o : O) : Option Dataset :=
  match graph.object o with
  | .dataset dataset => some dataset
  | _ => none

end LinkGraph

/-- All ranks open a link together. -/
abbrev openInterface (O : Type) : Interface where
  Op := Unit
  Arg _ := O × List Byte
  Reply _ := Except ℤ O

/-- The world grows by the object that is opened. -/
def openCalls {O : Type} (ι : Type) (graph : LinkGraph O) :
    Semantics (openInterface O) ι (List O) where
  Round := fun w _ args replies w' => ∃ group name, (∀ i, args i = (group, name)) ∧
    (∀ i, replies i = graph.openLink group name) ∧
    w' = w ++ (graph.openLink group name).toOption.toList
  Torn := fun _ _ _ _ => False

/-! ## Phases -/

section Phases

variable {N : Interface} {β : Type}

/-- `From<IoError>` -/
def SessionError.fromStop : Stop IoError → Stop SessionError
  | .error e => .error (.io e)
  | .panic => .panic

def liftIo (p : FileProgram N IoError β) : FileProgram N SessionError β :=
  ExceptT.adapt SessionError.fromStop p

/-- SOURCE: mpi_io.rs:162-172 -/
def collectiveState {ε : Type} (localOk : Bool) : FileProgram N ε (Bool × Bool) := do
  let minimum ← allReduceMin (if localOk then 1 else 0)
  let maximum ← allReduceMax (if localOk then 1 else 0)
  return (minimum = 1, maximum = 1 && minimum = 0)

/-- SOURCE: mpi_io.rs:174-179 -/
def abortUnrecoverable {ε : Type} : FileProgram N ε β := ExceptT.lift Proc.abort

/-- SOURCE: hdf5_io.rs:1302-1318 -/
def collectiveHandlePhase (result : Except ℤ β) (phase : String) : FileProgram N IoError β := do
  let (allSucceeded, mixed) ← collectiveState result.isOk
  if mixed then abortUnrecoverable
  else if !allSucceeded then
    match result with
    | .error code => fail (.native phase code)
    | .ok _ => fail (.collectivePrecondition phase)
  else orPanic result.toOption

/-- SOURCE: hdf5_io/session.rs:108-128 -/
def agreeBytes (isRoot : Bool) (bytes : List Byte) : FileProgram N IoError Unit := do
  agreePhase (bytes.length ≤ MpiIo.maxDescriptorBytes) "session descriptor bound"
  let (_, len) ← bcastBytes (leBytes 8 bytes.length)
  let kept := if isRoot then bytes else []
  let buffer := kept ++ List.replicate (MpiIo.maxDescriptorBytes - kept.length) 0
  let sent ← orPanic (if leValue len ≤ MpiIo.maxDescriptorBytes
    then some (buffer.take (leValue len)) else none)
  let (_, root) ← bcastBytes sent
  agreePhase (bytes = root) "session descriptor agreement"

end Phases

/-! ## The walk -/

/-- What a rank brings to the walk. -/
structure Inspector (O : Type) where
  isRoot : Bool
  identity : O → ℕ × ℕ
  identity_injective : Function.Injective identity
  /-- Whether the list of datasets can grow. -/
  granted : ℕ → Bool

/-- The three values the walk changes. -/
structure TreeState where
  seen : Finset (ℕ × ℕ)
  bytes : ℕ
  out : List MpiIo.DatasetInfo

section Walk

variable {O : Type} (graph : LinkGraph O) (alloc : String → InspectAllocator) (rank : Inspector O)

abbrev SessionProgram (O β : Type) : Type := FileProgram (openInterface O) SessionError β

/-- SOURCE: hdf5_io/session.rs:420-433 -/
def checkKind (group : O) (name : List Byte) (kind : LinkObjectType) : SessionProgram O Unit :=
  liftIo (agreePhase ((graph.linkIsHardAndType group name kind).toOption = some true)
    "session hard link and object kind")

/-- SOURCE: hdf5_io/session/tree.rs:132-149 -/
def identity (result : Except ℤ (ℕ × ℕ)) : SessionProgram O (ℕ × ℕ) := do
  ExceptT.adapt (fun agreement => match result with
    | .error code => .error (.io (.native "session object identity" code))
    | .ok _ => SessionError.fromStop agreement)
    (agreePhase result.isOk "session hard object identity")
  ofResult (result.mapError fun code => .io (.native "session object identity" code))

/-- The bytes a dataset adds for its shapes and its provenance.

SOURCE: hdf5_io/session/tree.rs:117-118 -/
def metadataBytes (bytes : ℕ) (info : MpiIo.DatasetInfo) : Option ℕ := do
  let ranks ← checkedAdd info.globalShape.length info.extraShape.length
  let shapes ← checkedMul ranks 8
  let added ← checkedAdd shapes info.provenance.length
  checkedAdd bytes added

/-- One link of the loop of `walk`.

SOURCE: hdf5_io/session/tree.rs:48-129 -/
def walkLink (descend : O → String → TreeState → SessionProgram O TreeState) (group : O)
    (pre : String) (s : TreeState) (index : ℕ) : SessionProgram O TreeState := do
  let agree := fun (ok : Bool) (phase : String) =>
    (liftIo (agreePhase ok phase) : SessionProgram O Unit)
  let found := graph.linkNameByIdx group index
  agree (found.toOption.any fun (len, _) => 0 < len && len ≤ maxComponent)
    "session catalog component bound"
  let (len, buf) ← ofResult (found.mapError fun code => .io (.native "H5Lget_name_by_idx" code))
  liftIo (agreeBytes rank.isRoot (buf.take len))
  let decoded := fromUtf8 (buf.take len)
  agree decoded.isSome "session catalog UTF-8"
  let component ← orPanic decoded
  let path := joinPath pre component
  agree (validPath path) "session catalog path bound"
  let bytes ← orPanic (checkedAdd s.bytes path.utf8ByteSize)
  agree (bytes ≤ maxTreeBytes) "session catalog aggregate bound"
  let name ← orPanic (cString component)
  let kind := graph.linkIsHardAndType group name .group
  agree kind.isOk "session catalog group kind"
  let isGroup ← ofResult (kind.mapError fun code => .io (.native "session object kind" code))
  liftIo (agreeBytes rank.isRoot [if isGroup then 1 else 0])
  if !isGroup then checkKind graph group name .dataset
  let objectId ← identity (graph.hardObjectIdentity rank.identity group name)
  agree (s.seen.card < maxObjects && objectId ∉ s.seen) "session catalog alias or cycle"
  let seen := insert objectId s.seen
  if isGroup then do
    let child ← liftIo (do
      let opened ← native () (group, name)
      collectiveHandlePhase opened "session catalog group open")
    descend child path { s with seen, bytes }
  else do
    let opened ← liftIo (do
      let opened ← native () (group, name)
      collectiveHandlePhase opened "session catalog dataset open")
    let dataset ← orPanic (graph.dataset opened)
    let info ← Fallible.ofExcept (leaf (alloc path) dataset path)
    let bytes ← orPanic (metadataBytes bytes info)
    agree (bytes ≤ maxTreeBytes) "session catalog metadata bound"
    agree (rank.granted s.out.length) "session catalog allocation"
    return { seen, bytes, out := s.out ++ [info] }

/-- The recursion goes as deep as `depth` says.

SOURCE: hdf5_io/session/tree.rs:31-130 -/
def walk : ℕ → O → String → TreeState → SessionProgram O TreeState
  | 0, _, _, _ => orPanic none
  | depth + 1, group, pre, s => do
    let count := graph.groupLinkCount group
    liftIo (agreePhase count.isOk "session catalog link count")
    let count ← ofResult (count.mapError fun code => .io (.native "H5Gget_info" code))
    liftIo (agreeBytes rank.isRoot (leBytes 8 count))
    let left ← orPanic (checkedSub maxObjects s.seen.card)
    liftIo (agreePhase (count ≤ left) "session catalog object bound")
    (List.range count).foldlM (walkLink graph alloc rank (walk depth) group pre) s

/-- The walk from the open root.  A path has `maxDepth` components at most, so the recursion has
one level more.

SOURCE: hdf5_io/session/tree.rs:13-30 -/
def inspectTree : SessionProgram O (List MpiIo.DatasetInfo) := do
  let root ← identity (.ok (rank.identity graph.root))
  let s ← walk graph alloc rank (maxDepth + 1) graph.root "" ⟨{root}, 0, []⟩
  return s.out

end Walk

end Hdf5

end PencilRs.Model
