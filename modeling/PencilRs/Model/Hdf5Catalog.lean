import PencilRs.Model.Catalog
import PencilRs.Model.Hdf5Payload

/-!
# The catalogs of HDF5 files

A catalog reads the attributes of a dataset without a view and reports what is in the file.  The
catalog of a container and the catalog of a session check the same things, each in its own order.

The ranks read the same file, so a check they agree on is the check of one of them; what the
allocator grants is what it grants to all of them.

SOURCE: pencil-io/src/hdf5_io.rs, hdf5_io/session/tree.rs
-/

set_option autoImplicit false

namespace PencilRs.Model

open PencilRs.Computation

namespace Hdf5

/-- What the allocator grants while a catalog reads a dataset. -/
structure InspectAllocator where
  values : Attribute → Bool
  seen : Bool
  provenance : Bool

/-- The grid and the permutation of the writer. -/
def provenanceBytes (grid permutation : List ℕ) : List Byte :=
  (grid ++ permutation).flatMap (leBytes 8)

/-- SOURCE: hdf5_io.rs:2861-2864 -/
def catalogShapeValid (seen : Bool) (global extra grid perm : List ℕ) (n width : ℕ) : Bool :=
  !global.isEmpty && combinedRankInRange global.length extra.length
    && validShapeBytes global extra width && validWriterProvenance seen grid perm n

/-- One dataset of the catalog of a container, under a name that was read before.

SOURCE: hdf5_io.rs:2821-2916, 2962-2998 -/
def inspectDataset (alloc : InspectAllocator) (dataset : Dataset) (name : Option String) :
    Except (Stop MpiIo.CatalogError) MpiIo.DatasetInfo := do
  let valid := fun (ok : Bool) (phase : String) =>
    ensure ok (Stop.error (MpiIo.CatalogError.io (.collectivePrecondition phase)))
  let read := fun attr n er =>
    (readAttr (alloc.values attr) dataset.attributes attr n er).mapError fun e => Stop.error (.io e)
  let first := fun (values : List ℕ) => okOr values.head? .panic
  let version ← read .version 0 0
  let commit ← read .commit 0 0
  let nvals ← read .rank 0 0
  let typ ← read .typeCode 0 0
  let width ← read .width 0 0
  let erank ← read .extraRank 0 0
  let code ← first typ
  let w ← first width
  valid (ScalarType.decode code w).isSome "HDF5 catalog scalar type"
  let scalar ← okOr (ScalarType.decode code w) .panic
  let n ← first nvals
  let er ← first erank
  valid (n < usizeLimit && er < usizeLimit) "HDF5 catalog rank conversion"
  let marker ← first commit
  valid (Metadata.versionOnly.matchesRead .version version && commitState marker = .complete
    && 0 < n && rankInRange n && rankInRange er && combinedRankInRange n er)
    "HDF5 catalog metadata"
  let extra ← (if Attribute.extraShape.present er then read .extraShape n er
    else do
      valid (dataset.attributes .extraShape).isNone "HDF5 catalog extra shape"
      return [])
  let global ← read .globalShape n er
  let grid ← read .writerGrid n er
  let perm ← read .writerPermutation n er
  valid (catalogShapeValid alloc.seen global extra grid perm n scalar.width)
    "HDF5 catalog shape or provenance"
  valid ((extra ++ global).all (· < 2 ^ 64)) "HDF5 catalog native shape bounds"
  valid (dataset.dims = extra ++ global) "HDF5 catalog dataset shape"
  valid (typeMatches dataset.datatype scalar.code scalar.width) "HDF5 catalog datatype"
  let provenanceLen ← okOr (checkedMul (grid.length + perm.length) 8)
    (.error (.io (.sizeLimit "catalog provenance")))
  ensure alloc.provenance (.error (.io (.allocationFailed provenanceLen)))
  return {
    name
    scalarType := scalar
    globalShape := global
    extraShape := extra
    provenance := provenanceBytes grid perm }

/-- SOURCE: hdf5_io/session.rs:36-44 -/
inductive SessionError where
  | io (error : IoError)
  | invalid (what : String)
deriving Repr, DecidableEq

/-- SOURCE: hdf5_io/session/tree.rs:217-218 -/
def leafShapeValid (seen : Bool) (global extra grid perm : List ℕ) (n width : ℕ) : Bool :=
  validShapeBytesFromWidth global extra width && validWriterProvenance seen grid perm n

/-- One dataset of the catalog of a session.

SOURCE: hdf5_io/session/tree.rs:151-290 -/
def leaf (alloc : InspectAllocator) (dataset : Dataset) (path : String) :
    Except (Stop SessionError) MpiIo.DatasetInfo := do
  let agreePhase := fun (ok : Bool) (phase : String) =>
    ensure ok (Stop.error (SessionError.io (.collectivePrecondition phase)))
  let read := fun attr n er =>
    (readAttr (alloc.values attr) dataset.attributes attr n er).mapError fun e => Stop.error (.io e)
  let first := fun (values : List ℕ) => okOr values.head? .panic
  let version ← read .version 0 0
  let commit ← read .commit 0 0
  let nvals ← read .rank 0 0
  let n ← first nvals
  let types ← read .typeCode 0 0
  let typ ← first types
  let widths ← read .width 0 0
  let width ← first widths
  let erank ← read .extraRank 0 0
  let er ← first erank
  let marker ← first commit
  agreePhase (Metadata.versionOnly.matchesRead .version version && commitState marker = .complete
    && 0 < n && rankInRange n && rankInRange er && combinedRankInRange n er
    && (ScalarType.decode typ width).isSome) "session catalog scalar metadata"
  let scalar ← okOr (ScalarType.decode typ width) .panic
  let extra ← (if Attribute.extraShape.present er then read .extraShape n er
    else do
      agreePhase (dataset.attributes .extraShape).isNone "session absent extra shape"
      return [])
  let global ← read .globalShape n er
  let grid ← read .writerGrid n er
  let perm ← read .writerPermutation n er
  agreePhase (leafShapeValid alloc.seen global extra grid perm n width)
    "session catalog shape and provenance"
  agreePhase (dataset.dims = extra ++ global) "session catalog shape"
  agreePhase (typeMatches dataset.datatype scalar.code scalar.width)
    "session catalog datatype match"
  agreePhase alloc.provenance "session provenance allocation"
  return {
    name := some path
    scalarType := scalar
    globalShape := global
    extraShape := extra
    provenance := provenanceBytes grid perm }

end Hdf5

end PencilRs.Model
