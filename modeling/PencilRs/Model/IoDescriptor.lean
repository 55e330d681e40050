import PencilRs.Model.Header

/-!
# Descriptors of file operations

Before a file operation the ranks compare a descriptor of the request: the operation, the type of
the elements, the layout and the path.  It is a string of little-endian words that ends with the
bytes of the path.

SOURCE: pencil-io/src/mpi_io.rs
-/

set_option autoImplicit false

namespace PencilRs.Model

open PencilRs.Computation

namespace MpiIo

/-- SOURCE: lib.rs:317 -/
def ioNamespace : ℕ := 0x494f0000

/-- SOURCE: lib.rs:333 -/
def maxDescriptorBytes : ℕ := 64 * 1024

/-- The descriptor is the part of its array in front of `len`.

SOURCE: mpi_io.rs:1201-1212 -/
def pushBytes (descriptor bytes : List Byte) : Except IoError (List Byte) := do
  let stop ← okOr (checkedAdd descriptor.length bytes.length) (.sizeLimit "descriptor")
  ensure (stop ≤ maxDescriptorBytes) (.sizeLimit "descriptor")
  return descriptor ++ bytes

/-- SOURCE: mpi_io.rs:1197-1199 -/
def pushU64 (descriptor : List Byte) (value : ℕ) : Except IoError (List Byte) :=
  pushBytes descriptor (leBytes 8 value)

/-- `descriptor.push_u64(u64::try_from(value).map_err(..)?)?` -/
def pushSize (what : String) (descriptor : List Byte) (value : ℕ) : Except IoError (List Byte) := do
  ensure (value < usizeLimit) (.sizeLimit what)
  pushU64 descriptor value

/-- What `descriptor_agreement` is asked about; the path is in the bytes of the system. -/
structure Request (N M : ℕ) where
  path : List Byte
  operation : BitVec 64
  global : Fin N → ℕ
  extra : List ℕ
  grid : Fin M → ℕ
  decomposition : Fin M → Fin N
  permutation : Fin N → Fin N
  typeCode : BitVec 64
  width : ℕ

/-- SOURCE: mpi_io.rs:1134-1194 -/
def buildDescriptor {N M : ℕ} (request : Request N M) : Except IoError (List Byte) := do
  ensure (!request.path.contains 0) .invalidPath
  let descriptor ← pushU64 [] ioNamespace
  let descriptor ← pushU64 descriptor request.operation.toNat
  let descriptor ← pushU64 descriptor formatVersion
  let descriptor ← pushSize "rank" descriptor N
  let descriptor ← pushSize "topology rank" descriptor M
  let descriptor ← pushU64 descriptor request.typeCode.toNat
  let descriptor ← pushSize "type width" descriptor request.width
  let descriptor ← pushSize "extra rank" descriptor request.extra.length
  let descriptor ← (List.ofFn request.global).foldlM (pushSize "shape") descriptor
  let descriptor ← request.extra.foldlM (pushSize "extra shape") descriptor
  let descriptor ← (List.ofFn request.grid).foldlM (pushSize "process grid") descriptor
  let descriptor ← (List.ofFn fun i => (request.decomposition i).val).foldlM
    (pushSize "decomposition") descriptor
  let descriptor ← (List.ofFn fun i => (request.permutation i).val).foldlM
    (pushSize "permutation") descriptor
  let descriptor ← pushSize "path" descriptor request.path.length
  pushBytes descriptor request.path

end MpiIo

end PencilRs.Model
