import PencilRs.Model.LocalC2c
import PencilRs.Model.Transpose

/-!
# The route of a distributed transform

A transform visits one pencil an axis, from the last axis to the first.  Between two pencils the
decomposition makes way for the next axis, and with permuted dimensions the next axis becomes the
fastest in memory.

SOURCE: pencil-fft/src/distributed.rs, pencil-array/src/local_transpose.rs
-/

set_option autoImplicit false

namespace PencilRs.Model

open PencilRs.Computation

/-- SOURCE: local_transpose.rs:8-43 -/
inductive LocalTransposeError where
  | incompatibleDistribution
  | sourceLayoutMismatch
  | destinationLayoutMismatch
  | extraShapeMismatch
  | scratchTooSmall (required actual : ℕ)
  | array (error : ArrayError)
deriving Repr, DecidableEq

/-- The errors of plans and transforms.

SOURCE: distributed.rs:336-460 -/
inductive FftError where
  | invalidDimensions
  | invalidInputLayout
  | inputLayoutMismatch
  | outputLayoutMismatch
  | extraShapeMismatch
  | workspaceMismatch
  | workspaceTooSmall (kind : String) (required actual : ℕ)
  | collectiveDescriptorMismatch
  | collectivePreconditionFailed
  | preparationFailed
  | allocationFailed (required : ℕ)
  | storageLayoutMismatch
  | localC2c (error : LocalC2cError)
  | pencil (error : PencilError)
  | array (error : ArrayError)
  | transpose (error : TransposeError)
  | localTranspose (error : LocalTransposeError)
deriving Repr, DecidableEq

variable {N M : ℕ}

/-- SOURCE: local_transpose.rs:46-49 -/
structure LocalTransposePlan (N M : ℕ) where
  source : Pencil N M
  destination : Pencil N M

/-- SOURCE: local_transpose.rs:58-70 -/
def LocalTransposePlan.new (source destination : Pencil N M) :
    Except LocalTransposeError (LocalTransposePlan N M) := do
  ensure (source.sameDistribution destination) .incompatibleDistribution
  return { source, destination }

/-- SOURCE: pencil.rs:213-220 -/
def Pencil.reconfigured (pencil : Pencil N M) (globalShape : Fin N → ℕ) (decomposition : Fin M → ℕ)
    (permutation : AxisPermutation N) : Except PencilError (Pencil N M) :=
  Pencil.newPermuted pencil.topology globalShape decomposition permutation

/-- The pencils of a route, one an axis, and where neighbours differ in distribution.

SOURCE: distributed.rs:931-934 -/
structure RouteCandidate (N M : ℕ) where
  stages : List (Pencil N M)
  distributed : List Bool

/-- What the allocator grants to a route. -/
structure RouteAllocator where
  stages : Bool
  distributed : Bool
deriving Repr, DecidableEq

/-- SOURCE: distributed.rs:2201-2227 -/
def validateInput (input : Except FftError (Pencil N M)) (topology : MpiTopology M)
    (globalShape : Fin N → ℕ) : Except FftError (Pencil N M) := do
  ensure (2 ≤ N && M ≠ 0 && M < N) .invalidDimensions
  (match (List.finRange N).find? fun axis => globalShape axis = 0 with
    | some axis => .error (.pencil (.zeroGlobalExtent axis))
    | none => .ok ())
  let input ← input
  ensure (input.topology = topology) .preparationFailed
  ensure (input.globalShape = globalShape) .preparationFailed
  ensure ((List.finRange N).all fun axis => input.permutation.axesInMemoryOrder axis = axis)
    .invalidInputLayout
  ensure ((List.finRange M).all fun axis => (input.decomposition.axes axis : ℕ) = axis)
    .invalidInputLayout
  return input

/-- One axis of the loop that copies all axes but one. -/
def keepAxis (currentAxes : Fin N → Fin N) (axis : ℕ) (state : List ℕ × ℕ) (place : Fin N) :
    List ℕ × ℕ :=
  let (nextAxes, position) := state
  let value := (currentAxes place : ℕ)
  if value ≠ axis then (nextAxes.set position value, position + 1) else (nextAxes, position)

/-- The axes in memory order with one of them moved to the end.

SOURCE: distributed.rs:2248-2257 -/
def moveAxisLast (currentAxes : Fin N → Fin N) (axis : ℕ) : List ℕ :=
  let (nextAxes, _) := (List.finRange N).foldl (keepAxis currentAxes axis) (List.replicate N 0, 0)
  nextAxes.set (N - 1) axis

/-- SOURCE: distributed.rs:2298-2305 -/
def advanceDecomposition (decomposition : Fin M → ℕ) (axis : ℕ) : (Fin M → ℕ) × Bool :=
  match (List.finRange M).find? fun position => decomposition position = axis with
  | some position => (Function.update decomposition position (axis + 1), true)
  | none => (decomposition, false)

/-- One axis of the loop of `build_route`; its debug assertion is left out.

SOURCE: distributed.rs:2246-2279 -/
def routeStep (globalShape : Fin N → ℕ) (permuteDims : Bool)
    (state : RouteCandidate N M × Pencil N M) (axis : ℕ) :
    Except FftError (RouteCandidate N M × Pencil N M) := do
  let (route, current) := state
  let nextAxes := moveAxisLast current.permutation.axesInMemoryOrder axis
  let (nextDecomposition, isDistributed) :=
    advanceDecomposition (fun position => current.decomposition.axes position) axis
  let nextPermutation ← (if permuteDims then
    (AxisPermutation.new fun position => nextAxes.getD position 0).mapError fun error =>
      .pencil (.invalidPermutation error)
  else .ok AxisPermutation.identity)
  let next ← (current.reconfigured globalShape nextDecomposition nextPermutation).mapError .pencil
  return ({
    stages := route.stages ++ [next]
    distributed := route.distributed ++ [isDistributed] }, next)

/-- SOURCE: distributed.rs:2229-2296 -/
def buildRoute (alloc : RouteAllocator) (input : Except FftError (Pencil N M))
    (topology : MpiTopology M) (globalShape : Fin N → ℕ) (permuteDims : Bool) :
    Except FftError (RouteCandidate N M) := do
  let input ← validateInput input topology globalShape
  ensure alloc.stages (.allocationFailed N)
  ensure alloc.distributed (.allocationFailed (N - 1))
  let (route, current) ← (List.range (N - 1)).reverse.foldlM (routeStep globalShape permuteDims)
    ({ stages := [input], distributed := [] }, input)
  ensure ((List.finRange M).all fun axis => (current.decomposition.axes axis : ℕ) = axis + 1)
    .preparationFailed
  ensure ((List.finRange N).all fun position => (current.permutation.axesInMemoryOrder position : ℕ)
    = if permuteDims then N - 1 - position else position) .preparationFailed
  return route

end PencilRs.Model
