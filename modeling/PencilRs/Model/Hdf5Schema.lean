import PencilRs.Model.Header

/-!
# The schema of HDF5 datasets

A dataset carries ten attributes, which the parallel and the serial backend write and check
alike.  An element type has a canonical little-endian HDF5 type; a complex type is a compound of
two such numbers.

SOURCE: pencil-io/src/hdf5_schema.rs
-/

set_option autoImplicit false

namespace PencilRs.Model

open PencilRs.Computation

namespace Hdf5

/-! ## Element types -/

/-- The predefined types of the HDF5 library the schema uses. -/
inductive BaseType where
  | i8le | u8le | i16le | u16le | i32le | u32le | i64le | u64le | f32le | f64le
deriving Repr, DecidableEq

/-- SOURCE: hdf5_schema.rs:170-174 -/
structure ScalarSpec where
  base : BaseType
  complex : Bool
  width : ℕ
deriving Repr, DecidableEq

/-- SOURCE: hdf5_schema.rs:176-199 -/
def scalarSpec : ℕ → Option ScalarSpec
  | 1 => some ⟨.i8le, false, 1⟩
  | 2 => some ⟨.u8le, false, 1⟩
  | 3 => some ⟨.i16le, false, 2⟩
  | 4 => some ⟨.u16le, false, 2⟩
  | 5 => some ⟨.i32le, false, 4⟩
  | 6 => some ⟨.u32le, false, 4⟩
  | 7 => some ⟨.i64le, false, 8⟩
  | 8 => some ⟨.u64le, false, 8⟩
  | 9 => some ⟨.f32le, false, 4⟩
  | 10 => some ⟨.f64le, false, 8⟩
  | 11 => some ⟨.f32le, true, 8⟩
  | 12 => some ⟨.f64le, true, 16⟩
  | _ => none

/-! ## Attributes -/

/-- SOURCE: hdf5_schema.rs:27-54 -/
inductive Attribute where
  | version | commit | rank | typeCode | width | extraRank | extraShape | globalShape
  | writerGrid | writerPermutation
deriving Repr, DecidableEq

namespace Attribute

/-- `ALL`, in write and read order. -/
def all : List Attribute :=
  [version, commit, rank, typeCode, width, extraRank, extraShape, globalShape, writerGrid,
    writerPermutation]

/-- SOURCE: hdf5_schema.rs:57-61 -/
def present (attr : Attribute) (extraRank : ℕ) : Bool :=
  attr ≠ .extraShape || 0 < extraRank

/-- SOURCE: hdf5_schema.rs:63-72 -/
def readLen (attr : Attribute) (n er : ℕ) : Option ℕ × ℕ :=
  match attr with
  | .extraShape => (some er, er)
  | .globalShape | .writerPermutation => (some n, n)
  | .writerGrid => (none, maxProtocolRank)
  | _ => (some 1, 1)

end Attribute

/-- SOURCE: hdf5_schema.rs:75-84 -/
inductive Slot where
  | none
  | scalar (value : ℕ)
  | values (values : List ℕ)
  | shape (expected : List ℕ)
deriving Repr, DecidableEq

/-- Values of the ten attributes, or what a reader expects of them.

SOURCE: hdf5_schema.rs:86-90 -/
abbrev Metadata : Type := Attribute → Slot

namespace Metadata

/-- SOURCE: hdf5_schema.rs:93-117 -/
def forWrite (rank typeCode width : ℕ) (extra global grid permutation : List ℕ) : Metadata
  | .version => .scalar formatVersion
  | .commit => .scalar incompleteMarker
  | .rank => .scalar rank
  | .typeCode => .scalar typeCode
  | .width => .scalar width
  | .extraRank => .scalar extra.length
  | .extraShape => .values extra
  | .globalShape => .values global
  | .writerGrid => .values grid
  | .writerPermutation => .values permutation

/-- SOURCE: hdf5_schema.rs:119-141 -/
def expected (rank typeCode width extraRank : ℕ) (extra global : List ℕ) : Metadata
  | .version => .scalar formatVersion
  | .commit => .none
  | .rank => .scalar rank
  | .typeCode => .scalar typeCode
  | .width => .scalar width
  | .extraRank => .scalar extraRank
  | .extraShape => .shape extra
  | .globalShape => .shape global
  | .writerGrid => .none
  | .writerPermutation => .none

/-- SOURCE: hdf5_schema.rs:143-148 -/
def versionOnly : Metadata
  | .version => .scalar formatVersion
  | _ => .none

/-- SOURCE: hdf5_schema.rs:150-156 -/
def value (metadata : Metadata) (attr : Attribute) : List ℕ :=
  match metadata attr with
  | .scalar value => [value]
  | .values values => values
  | .none | .shape _ => []

/-- SOURCE: hdf5_schema.rs:160-167 -/
def matchesRead (metadata : Metadata) (attr : Attribute) (read : List ℕ) : Bool :=
  match metadata attr with
  | .none => true
  | .scalar expected => read = [expected]
  | .values expected => read = expected
  | .shape expected => read = expected

end Metadata

/-! ## Rules for values that were read -/

/-- SOURCE: hdf5_schema.rs:201-206 -/
inductive CommitState where
  | complete | incomplete | invalid
deriving Repr, DecidableEq

/-- SOURCE: hdf5_schema.rs:208-214 -/
def commitState (value : ℕ) : CommitState :=
  if value = commitMarker then .complete
  else if value = incompleteMarker then .incomplete
  else .invalid

/-- SOURCE: hdf5_schema.rs:216-219 -/
def rankInRange (rank : ℕ) : Bool := rank ≤ maxProtocolRank

/-- SOURCE: hdf5_schema.rs:221-224 -/
def combinedRankInRange (rank extraRank : ℕ) : Bool := (checkedAdd rank extraRank).any rankInRange

/-- SOURCE: hdf5_schema.rs:226-234 -/
def validGlobalShape (values : List ℕ) : Bool :=
  !values.isEmpty && (MpiIo.checkedFold values).isSome

/-- The product of the shapes first and the width last.

SOURCE: hdf5_schema.rs:236-246 -/
def validShapeBytes (global extra : List ℕ) (width : ℕ) : Bool :=
  ((MpiIo.checkedFold (global ++ extra)).bind fun product => checkedMul product width).isSome

/-- From the width on.

SOURCE: hdf5_schema.rs:248-258 -/
def validShapeBytesFromWidth (global extra : List ℕ) (width : ℕ) : Bool :=
  ((global ++ extra).foldlM checkedMul width).isSome

/-- SOURCE: hdf5_schema.rs:260-269 -/
def validWriterGrid (grid : List ℕ) (spatialRank : ℕ) : Bool :=
  !grid.isEmpty && grid.length ≤ spatialRank && (grid.all fun value => 0 < value)
    && (MpiIo.checkedFold grid).isSome

/-- The table of flags has room for `seen` axes; the loop is the one of `checkDistinct`.

SOURCE: hdf5_schema.rs:271-288 -/
def validPermutation (values : List ℕ) (n seen : ℕ) : Bool :=
  values.length = n && n ≤ seen && (checkDistinct n values).isOk

/-! ## Datasets -/

/-- An attribute of unsigned 64-bit numbers: its extents, and its values. -/
structure StoredAttribute where
  shape : List ℕ
  values : List ℕ
deriving Repr, DecidableEq

/-- What the library keeps of a dataset.  An element is the string of its bytes. -/
structure Dataset where
  datatype : ScalarSpec
  dims : List ℕ
  cells : List (List Byte)
  attributes : Attribute → Option StoredAttribute

namespace Dataset

/-- The value of an attribute that is there is replaced. -/
def writeExisting (dataset : Dataset) (attr : Attribute) (values : List ℕ) : Dataset :=
  { dataset with
    attributes := Function.update dataset.attributes attr
      ((dataset.attributes attr).map fun stored => { stored with values }) }

end Dataset

/-- SOURCE: ffi.rs:1257-1320 -/
def typeMatches (stored : ScalarSpec) (code width : ℕ) : Bool :=
  stored.width = width && scalarSpec code = some stored

end Hdf5

end PencilRs.Model
