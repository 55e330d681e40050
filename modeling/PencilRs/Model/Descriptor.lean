import PencilRs.Model.Transport

/-!
# Descriptors

Before a collective operation the ranks compare a header of five words and then a descriptor
whose length the header announces.  Words are compared by reductions: one maximum over the
words and their complements, or a minimum and a maximum.

SOURCE: pencil-array/src/preflight.rs, transpose.rs, collectives.rs, spatial_remap.rs
-/

set_option autoImplicit false

namespace PencilRs.Model

open PencilRs.Computation RankProgram

variable {M w : ℕ} {α ε : Type}

inductive CollectiveError where
  | collectiveDescriptorMismatch
  | collectivePreconditionFailed
  | preparationFailed
  | rootOutOfBounds (root : ℤ) (size : ℕ)
  | zeroSizedTypeUnsupported
  | countOverflow
  | allocationFailed (elements : ℕ)
  | integerOverflow
  | array (error : ArrayError)
deriving Repr, DecidableEq

/-! ## Reductions of words -/

/-- `all_reduce_into` with `SystemOperation::max()` on a slice of words. -/
def reduceMax (words : List (BitVec w)) : RankProgram α M ε (List (BitVec w)) := do
  let reply ← Fallible.perform (I := transport α M) (.allReduceMax words.length) fun j =>
    words[j].toNat
  return List.ofFn fun j => BitVec.ofNat w (reply j)

/-- `all_reduce_into` with `SystemOperation::min()` on a slice of words. -/
def reduceMin (words : List (BitVec w)) : RankProgram α M ε (List (BitVec w)) := do
  let reply ← Fallible.perform (I := transport α M) (.allReduceMin words.length) fun j =>
    words[j].toNat
  return List.ofFn fun j => BitVec.ofNat w (reply j)

/-! ## Headers and words -/

/-- SOURCE: preflight.rs:8 -/
def headerWords : ℕ := 5

/-- SOURCE: preflight.rs:11 -/
def wordChunk : ℕ := 64

abbrev Header : Type := Fin headerWords → BitVec 64

/-- SOURCE: preflight.rs:14-20 -/
def expandForMax (values : List (BitVec w)) : List (BitVec w) :=
  values ++ values.map fun value => ~~~value

/-- The minimum and the maximum.

SOURCE: preflight.rs:26-32 -/
def splitMinMax (reduced : List (BitVec w)) : List (BitVec w) × List (BitVec w) :=
  ((reduced.drop (reduced.length / 2)).map fun value => ~~~value,
    reduced.take (reduced.length / 2))

/-- SOURCE: preflight.rs:42-55 -/
def agreeHeader (header : Header) : RankProgram α M ε Bool := do
  let reduced ← reduceMax (expandForMax (List.ofFn header))
  let (minimum, maximum) := splitMinMax reduced
  return minimum = maximum

/-- `slice::chunks` -/
def chunks {β : Type} (size : ℕ) (values : List β) : List (List β) :=
  (List.range ((values.length + size - 1) / size)).map fun k =>
    (values.drop (k * size)).take size

/-- SOURCE: preflight.rs:64-80 -/
def agreeWords (chunk : ℕ) (words : List (BitVec 64)) : RankProgram α M ε Bool :=
  (chunks chunk words).foldlM (fun equal chunk => do
    let minimum ← reduceMin chunk
    let maximum ← reduceMax chunk
    return equal && minimum = maximum) true

/-! ## Descriptors -/

/-- The word of a length that may have overflowed. -/
def lengthWord (expectedLen : Option ℕ) : BitVec 64 :=
  match expectedLen with
  | some len => BitVec.ofNat 64 len
  | none => BitVec.allOnes 64

/-- What a rank brings to the comparison of descriptors: the three words of its header that
name the operation and the ranks of the arrays, the length it expects, the descriptor, if it
could be built, and whether the two buffers of the comparison could be reserved. -/
structure Proposal (w : ℕ) where
  schema : BitVec 64
  operation : BitVec 64
  spatialRank : BitVec 64
  topologyRank : BitVec 64
  expectedLen : Option ℕ
  descriptor : Option (List (BitVec w))
  reserved : Bool × Bool

namespace Proposal

def header (proposal : Proposal w) : Header :=
  ![proposal.schema, proposal.operation, proposal.spatialRank, proposal.topologyRank,
    lengthWord proposal.expectedLen]

/-- The descriptor is there, has the expected length and can be compared. -/
def ready (fits : ℕ → Bool) (proposal : Proposal w) : Bool :=
  match proposal.descriptor, proposal.expectedLen with
  | some descriptor, some expectedLen =>
    descriptor.length = expectedLen && fits expectedLen && proposal.reserved.1
      && proposal.reserved.2
  | _, _ => false

end Proposal

/-- The doubled length is an MPI count. -/
def doubledFits (expectedLen : ℕ) : Bool :=
  match checkedMul expectedLen 2 with
  | some len => (countTryFrom len).isSome
  | none => false

/-- `collective_descriptor` of the transposes.

SOURCE: transpose.rs:1609-1657 -/
def collectiveDescriptor (proposal : Proposal 64) :
    RankProgram α M TransposeError (List (BitVec 64)) := do
  if ← collectiveValid (proposal.ready doubledFits) then
    let descriptor ← orPanic proposal.descriptor
    let length ← orPanic proposal.expectedLen
    let reduced ← reduceMax (expandForMax descriptor)
    let maximum := reduced.take length
    let complementedMinimum := reduced.drop length
    if (maximum.zip complementedMinimum).any fun (maximum, complementedMinimum) =>
        maximum ≠ ~~~complementedMinimum then
      fail .collectiveDescriptorMismatch
    else return descriptor
  else fail .preparationFailed

/-- `agree_execute_descriptor` and the start of the plan constructor.

SOURCE: transpose.rs:326-345, 1493-1528 -/
def agreeExecuteDescriptor (proposal : Proposal 64) :
    RankProgram α M TransposeError (List (BitVec 64)) := do
  if ← agreeHeader proposal.header then collectiveDescriptor proposal
  else fail .collectiveDescriptorMismatch

/-- The length is an MPI count. -/
def lengthFits (expectedLen : ℕ) : Bool := (countTryFrom expectedLen).isSome

/-- `collective_descriptor` of the reductions and the gather.

SOURCE: collectives.rs:2361-2405 -/
def collectiveDescriptorWords (proposal : Proposal 32) :
    RankProgram α M CollectiveError (List (BitVec 32)) := do
  if ← collectiveValid (proposal.ready lengthFits) then
    let words ← orPanic proposal.descriptor
    let minimum ← reduceMin words
    let maximum ← reduceMax words
    if minimum ≠ maximum then fail .collectiveDescriptorMismatch
    else return words
  else fail .preparationFailed

/-- SOURCE: collectives.rs:2411-2435 -/
def agreeDescriptor (proposal : Proposal 32) :
    RankProgram α M CollectiveError (List (BitVec 32)) := do
  if ← agreeHeader proposal.header then collectiveDescriptorWords proposal
  else fail .collectiveDescriptorMismatch

/-! ## The remap's descriptor -/

inductive SpatialRemapError where
  | differentTopology
  | differentShape
  | invalidAffineSign (axis : ℕ) (sign : ℤ)
  | differentExtraShape
  | layoutMismatch
  | collectivePreconditionFailed
  | collectiveDescriptorMismatch
  | sizeOverflow
  | mpiCountOverflow
  | allocation (stage : String) (elements : ℕ)
  | wrongOwner (rank : ℕ) (globalIndex : ℕ)
  | structuralInconsistency
  | unsupportedDatatype
  | pencil (error : PencilError)
  | topology (error : TopologyError)
deriving Repr, DecidableEq

/-- SOURCE: spatial_remap.rs:415-420 -/
def agreeStage {β : Type} (result : Except SpatialRemapError β) :
    RankProgram α M SpatialRemapError β :=
  agreePreflight result .collectivePreconditionFailed

/-- The check at the end of `build_descriptor`.

SOURCE: spatial_remap.rs:618-621 -/
def ofLength (length : ℕ) (built : Except SpatialRemapError (List (BitVec 64))) :
    Except SpatialRemapError (List (BitVec 64)) := do
  let descriptor ← built
  if descriptor.length ≠ length then throw .structuralInconsistency
  return descriptor

/-- The length and the words are what this rank computes.

SOURCE: spatial_remap.rs:533-570 -/
def agreePlanDescriptor (descriptorLen : Except SpatialRemapError ℕ)
    (built : Except SpatialRemapError (List (BitVec 64))) :
    RankProgram α M SpatialRemapError (List (BitVec 64)) := do
  let descriptorLen ← agreeStage descriptorLen
  let lengthWord ← agreeStage (if descriptorLen < usizeLimit then
    .ok (BitVec.ofNat 64 descriptorLen) else .error .sizeOverflow)
  if ← agreeWords 1 [lengthWord] then
    let descriptor ← agreeStage (ofLength descriptorLen built)
    if ← agreeWords wordChunk descriptor then return descriptor
    else fail .collectiveDescriptorMismatch
  else fail .collectiveDescriptorMismatch

/-- SOURCE: spatial_remap.rs:407-409 -/
def dimensionWord (value : ℕ) : BitVec 64 :=
  if value < usizeLimit then BitVec.ofNat 64 value else BitVec.allOnes 64

/-- The agreements at the start of `apply_views`, on the descriptor the plan keeps.

SOURCE: spatial_remap.rs:354-368 -/
def agreeApplyDescriptor (schema operation spatialRank topologyRank : BitVec 64)
    (descriptor : List (BitVec 64)) : RankProgram α M SpatialRemapError Unit := do
  let header : Header :=
    ![schema, operation, spatialRank, topologyRank, dimensionWord descriptor.length]
  if ← agreeHeader header then
    if ← agreeWords wordChunk descriptor then return ()
    else fail .collectiveDescriptorMismatch
  else fail .collectiveDescriptorMismatch

end PencilRs.Model
