import PencilRs.Model.FftPass
import PencilRs.Model.StridedLines

/-!
# Plans of distributed transforms

The constructors compare a descriptor of the request, agree on the route and on the local plans,
and plan the transitions between the stages.  What follows is shared by the families.

SOURCE: pencil-fft/src/distributed.rs
-/

set_option autoImplicit false

namespace PencilRs.Model

open PencilRs.Computation RankProgram

variable {N M : ℕ} {K P L ε β : Type}

/-! ## Requests -/

/-- SOURCE: distributed.rs:541-547 -/
inductive FourierDirection where
  | forward
  | backward
deriving Repr, DecidableEq

/-- SOURCE: distributed.rs:549-573 -/
structure FourierDirections (N : ℕ) where
  direction : Fin N → FourierDirection

def FourierDirections.get (directions : FourierDirections N) (axis : ℕ) : Option FourierDirection :=
  if h : axis < N then some (directions.direction ⟨axis, h⟩) else none

/-- SOURCE: distributed.rs:601-604, 661-664 -/
structure AxisSelection (N : ℕ) where
  mask : Fin N → Bool

def AxisSelection.contains (selection : AxisSelection N) (axis : ℕ) : Bool :=
  if h : axis < N then selection.mask ⟨axis, h⟩ else false

/-- SOURCE: distributed.rs:529-539 -/
structure DistributedLayout where
  transposeMethod : TransposeMethod
  permuteDims : Bool
deriving Repr, DecidableEq

/-! ## Descriptors -/

/-- SOURCE: distributed.rs:222 -/
def fftDescriptorSchema : BitVec 64 := 5

/-- SOURCE: distributed.rs:514-521 -/
def TransposeMethod.descriptorWord : TransposeMethod → BitVec 64
  | .allToAllv => 0
  | .pointToPoint => 1

/-- `options.rigor() as u64` -/
def PlanningRigor.word : PlanningRigor → BitVec 64
  | .estimate => 0
  | .measure => 1
  | .patient => 2
  | .exhaustive => 3

/-- SOURCE: distributed.rs:182-205 -/
def BackendChoice.descriptorWords (realSize : ℕ) : BackendChoice → List (BitVec 64)
  | .rustFft => List.replicate 8 0
  | .fftw options =>
    let (present, secs, nanos) := match options.timeLimit with
      | none => (0, 0, 0)
      | some (secs, nanos) => (1, secs, nanos)
    [1, BitVec.ofNat 64 realSize, options.rigor.word, BitVec.ofNat 64 present,
      BitVec.ofNat 64 secs, BitVec.ofNat 64 nanos, BitVec.ofNat 64 options.threads,
      BitVec.ofNat 64 (options.wisdomOnly.toNat + 2 * options.conserveMemory.toNat)]

/-- SOURCE: distributed.rs:3690-3697 -/
def fftDescriptorLen (N M : ℕ) (extraShape : ExtraShape) : Option ℕ := do
  let length ← checkedAdd N M
  let length ← checkedAdd length 3
  let length ← checkedAdd length extraShape.dimensions.length
  let length ← checkedAdd length N
  checkedAdd length 2

/-- The words `build_descriptor` appends.

SOURCE: distributed.rs:3699-3724 -/
def fftDescriptorWords (topology : MpiTopology M) (globalShape : Fin N → ℕ) (extraShape : ExtraShape)
    (selection : AxisSelection N) (valueKind : BitVec 64) (realSize : ℕ)
    (layout : DistributedLayout) : List (BitVec 64) :=
  words64 (List.ofFn globalShape) ++ words64 (List.ofFn topology.processGrid)
    ++ shapeWords extraShape ++ words64 (List.ofFn fun axis => (selection.mask axis).toNat)
    ++ [valueKind, BitVec.ofNat 64 realSize, layout.transposeMethod.descriptorWord,
      BitVec.ofNat 64 layout.permuteDims.toNat]

/-- `agree_header` and `collective_descriptor`.

SOURCE: distributed.rs:3738-3760, 3909-3950 -/
def agreeFftDescriptor (lift : FftError → ε) (proposal : Proposal 64) :
    RankProgram K M ε (List (BitVec 64)) := do
  if ← agreeHeader proposal.header then
    if ← collectiveValid (proposal.ready lengthFits) then
      let descriptor ← orPanic proposal.descriptor
      let minimum ← reduceMin descriptor
      let maximum ← reduceMax descriptor
      if minimum ≠ maximum then fail (lift .collectiveDescriptorMismatch)
      else return descriptor
    else fail (lift .preparationFailed)
  else fail (lift .collectiveDescriptorMismatch)

/-! ## Local plans -/

/-- The local transform of a stage; `P` are the local plans between real and complex lines.

SOURCE: distributed.rs:858-862 -/
inductive LocalTransform (P K : Type) where
  | identity
  | complex (plan : LocalC2cPlan K)
  | realComplex (plan : P)

/-- SOURCE: distributed.rs:873-879 -/
def LocalTransform.scratchLen (realScratchLen : P → ℕ) : LocalTransform P K → ℕ
  | .identity => 0
  | .complex plan => plan.scratchLen
  | .realComplex plan => realScratchLen plan

/-- What the type of the elements and the FFT libraries of a rank determine. -/
structure FftEnvironment (K : Type) where
  realSize : ℕ
  complexSize : ℕ
  elementType : ElementType
  libraries : FftLibraries K

/-- The axis is whole on the rank.

SOURCE: distributed.rs:2317-2323, 2373-2379 -/
def axisIsLocal (pencil : Pencil N M) (globalShape : Fin N → ℕ) (axis : Fin N) : Bool :=
  !((List.finRange M).any fun position => pencil.decomposition.axes position = axis)
    && pencil.localShapeLogical axis = globalShape axis

/-- `axis` as an index. -/
def axisOf (N axis : ℕ) : Option (Fin N) :=
  if h : axis < N then some ⟨axis, h⟩ else none

/-- The local plan of a selected axis: `LocalC2cPlan::new_with_sign` or `new_fftw_with_sign`. -/
def planLine (env : FftEnvironment K) (lineLen : ℕ) (positive : Bool) :
    BackendChoice → Except (BackendInitError FftError) (LocalC2cPlan K)
  | .rustFft => (LocalC2cPlan.newWithSign env.libraries env.complexSize lineLen positive).mapError
      fun e => .local (.localC2c e)
  | .fftw options =>
    (LocalC2cPlan.newFftwWithSign env.libraries env.complexSize lineLen positive options).mapError
      fun
        | .local e => .local (.localC2c e)
        | .native e => .native e
        | .peerPreflight => .peerPreflight

/-- SOURCE: distributed.rs:2307-2395 -/
def prepareComplexStage (env : FftEnvironment K) (pencil : Pencil N M) (globalShape : Fin N → ℕ)
    (axisNumber : ℕ) (selected : Bool) (directions : FourierDirections N)
    (backend : BackendChoice) :
    Except (Stop (BackendInitError FftError)) (TransformStage (LocalTransform P K) N M) := do
  let axis ← okOr (axisOf N axisNumber) .panic
  ensure (axisIsLocal pencil globalShape axis) (.error (.local .preparationFailed))
  let localTransform ← (if selected then
    ((planLine env (globalShape axis)
      (directions.get axisNumber = some .backward) backend).map LocalTransform.complex).mapError
        Stop.error
  else .ok .identity)
  return { axis := axisNumber, input := pencil, output := pencil, localTransform }

/-- SOURCE: distributed.rs:936-940 -/
structure StagePreparation (L : Type) (N M : ℕ) where
  stages : List (TransformStage L N M)
  fftScratchLen : ℕ

/-- One stage of the loop of `prepare_stages_backend`. -/
def prepareStageStep (env : FftEnvironment K) (realScratchLen : P → ℕ) (globalShape : Fin N → ℕ)
    (selection : AxisSelection N) (directions : FourierDirections N) (backend : BackendChoice)
    (prepared : StagePreparation (LocalTransform P K) N M) (stage : Pencil N M × ℕ) :
    Except (Stop (BackendInitError FftError)) (StagePreparation (LocalTransform P K) N M) := do
  let (pencil, index) := stage
  let axis ← okOr (checkedSub (N - 1) index) .panic
  let stage ← prepareComplexStage env pencil globalShape axis (selection.contains axis) directions
    backend
  return {
    stages := prepared.stages ++ [stage]
    fftScratchLen := max prepared.fftScratchLen (stage.localTransform.scratchLen realScratchLen) }

/-- SOURCE: distributed.rs:2397-2427 -/
def prepareStagesBackend (reserved : Bool) (env : FftEnvironment K) (realScratchLen : P → ℕ)
    (route : RouteCandidate N M) (globalShape : Fin N → ℕ) (selection : AxisSelection N)
    (directions : FourierDirections N) (backend : BackendChoice) :
    Except (Stop (BackendInitError FftError)) (StagePreparation (LocalTransform P K) N M) := do
  ensure reserved (.error (.local (.allocationFailed route.stages.length)))
  route.stages.zipIdx.foldlM
    (prepareStageStep env realScratchLen globalShape selection directions backend)
    { stages := [], fftScratchLen := 0 }

/-- One stage of the loop of `strided_complex_line_len`. -/
def stridedLineLenStep (required : ℕ) (stage : TransformStage (LocalTransform P K) N M) :
    Except FftError ℕ :=
  match stage.localTransform with
  | .complex plan => do
    let stride ← memoryStride stage.output stage.axis
    return if stride > 1 then max required plan.lineLen else required
  | .identity | .realComplex _ => .ok required

/-- SOURCE: distributed.rs:2763-2776 -/
def stridedComplexLineLen (stages : List (TransformStage (LocalTransform P K) N M)) :
    Except FftError ℕ :=
  stages.foldlM stridedLineLenStep 0

/-! ## Transitions -/

/-- What the transposes of a plan need. -/
structure TransposeLengths where
  sendLen : ℕ
  receiveLen : ℕ
  realSendLen : ℕ
  realReceiveLen : ℕ
deriving Repr, DecidableEq

namespace TransposeLengths

/-- `transpose_send_len.max(..)` and its siblings; the real transposes have their own. -/
def cover (lengths : TransposeLengths) (isReal : Bool) (sendLen receiveLen : ℕ) :
    TransposeLengths :=
  if isReal then { lengths with
    realSendLen := max lengths.realSendLen sendLen
    realReceiveLen := max lengths.realReceiveLen receiveLen }
  else { lengths with
    sendLen := max lengths.sendLen sendLen
    receiveLen := max lengths.receiveLen receiveLen }

end TransposeLengths

/-- What the allocator of this rank grants while the transitions are built. -/
structure TransitionAllocator where
  transitions : Bool
  forward : ℕ → PlanAllocator
  backward : ℕ → PlanAllocator

/-- A transition between layouts of one distribution, and the room it needs.

SOURCE: distributed.rs:2498-2516 -/
def buildLocalTransition (source destination : Pencil N M) (extraCount : ℕ) :
    Except FftError (StageTransition N M × ℕ) := do
  let forward ← (LocalTransposePlan.new source destination).mapError .localTranspose
  let backward ← (LocalTransposePlan.new destination source).mapError .localTranspose
  let forwardSendLen ← okOr (checkedMul source.localLen extraCount) .preparationFailed
  let backwardSendLen ← okOr (checkedMul destination.localLen extraCount) .preparationFailed
  return ({ forward := .local forward, backward := .local backward },
    max forwardSendLen backwardSendLen)

/-- The transitions built so far. -/
abbrev BuiltTransitions (N M : ℕ) : Type := List (StageTransition N M) × TransposeLengths

/-- One transition of the loop of `build_transitions`.

SOURCE: distributed.rs:2459-2523 -/
def buildTransitionStep (alloc : TransitionAllocator) (stages : List (TransformStage L N M))
    (extraShape : ExtraShape) (method : TransposeMethod) (realTransitionCount : ℕ)
    (built : BuiltTransitions N M) (entry : Bool × ℕ) :
    RankProgram K M FftError (BuiltTransitions N M) := do
  let (transitions, lengths) := built
  let (isDistributed, index) := entry
  let source ← orPanic (stages[index]?.map TransformStage.output)
  let destination ← orPanic (stages[index + 1]?.map TransformStage.input)
  let isReal : Bool := index < realTransitionCount
  if isDistributed then
    let forward ← agreeCall id (buildDistributedTransition (alloc.forward index) source destination
      method)
    let forwardRequirements ← agreeResult id (transitionWorkspaceRequirements forward extraShape)
    let backward ← agreeCall id (buildDistributedTransition (alloc.backward index) destination
      source method)
    let backwardRequirements ← agreeResult id (transitionWorkspaceRequirements backward extraShape)
    return (transitions ++ [{ forward, backward }], lengths.cover isReal
      (max forwardRequirements.sendLen backwardRequirements.sendLen)
      (max forwardRequirements.receiveLen backwardRequirements.receiveLen))
  else if source.sameLayout destination then
    return (transitions ++ [{ forward := .identity, backward := .identity }], lengths)
  else
    let (transition, sendLen) ← agreeResult id
      (buildLocalTransition source destination extraShape.elementCount)
    return (transitions ++ [transition], lengths.cover isReal sendLen 0)

/-- SOURCE: distributed.rs:2429-2533 -/
def buildTransitions (alloc : TransitionAllocator) (stages : List (TransformStage L N M))
    (distributed : List Bool) (extraShape : ExtraShape) (method : TransposeMethod)
    (realTransitionCount : ℕ) : RankProgram K M FftError (BuiltTransitions N M) := do
  agreeResult id (ensure alloc.transitions (.allocationFailed distributed.length))
  distributed.zipIdx.foldlM
    (buildTransitionStep alloc stages extraShape method realTransitionCount)
    ([], { sendLen := 0, receiveLen := 0, realSendLen := 0, realReceiveLen := 0 })

/-! ## Calls -/

inductive Direction where
  | forward
  | inverse
  | backward
deriving Repr, DecidableEq

/-- How a plan is called. -/
inductive CallVariant where
  | plain
  | timed
  | overlap
  | inPlace
  | inPlaceTimed
deriving Repr, DecidableEq

/-- What the allocator of this rank grants during one call. -/
structure CallAllocator where
  compared : Bool × Bool
  transitions : ℕ → TransposeAllocator

/-- SOURCE: distributed.rs:3762-3790 -/
def agreeExecutionDescriptor (lift : FftError → ε) (alloc : CallAllocator) (N : ℕ)
    (operation : BitVec 64) (descriptor : List (BitVec 64)) : RankProgram K M ε Unit := do
  let _ ← agreeFftDescriptor lift {
    schema := fftDescriptorSchema
    operation
    spatialRank := BitVec.ofNat 64 N
    topologyRank := BitVec.ofNat 64 M
    expectedLen := some descriptor.length
    descriptor := some descriptor
    reserved := alloc.compared }
  return ()

/-! ### Preflight -/

/-- A `PencilArray` and the allocation of its pencil. -/
structure EndpointArray (K : Type) (N M : ℕ) where
  view : PencilArrayView K N M
  pencilAddress : ℕ

/-- SOURCE: distributed.rs:3792-3823 -/
def validateWorkspaceLengthsValues (fftScratchLen requiredFftScratchLen transposeSendLen
    requiredTransposeSendLen transposeReceiveLen requiredTransposeReceiveLen : ℕ) :
    Except FftError Unit := do
  ensure (requiredFftScratchLen ≤ fftScratchLen)
    (.workspaceTooSmall "FFT scratch" requiredFftScratchLen fftScratchLen)
  ensure (requiredTransposeSendLen ≤ transposeSendLen)
    (.workspaceTooSmall "transpose send" requiredTransposeSendLen transposeSendLen)
  ensure (requiredTransposeReceiveLen ≤ transposeReceiveLen)
    (.workspaceTooSmall "transpose receive" requiredTransposeReceiveLen transposeReceiveLen)

/-- A local preflight, agreed on. -/
def agreeLocalPreflight (lift : FftError → ε) : Except (Stop FftError) Unit → RankProgram K M ε Unit
  | .ok () => agreePreflight (.ok ()) (lift .collectivePreconditionFailed)
  | .error (.error e) => agreePreflight (.error (lift e)) (lift .collectivePreconditionFailed)
  | .error .panic => Fallible.ofExcept (.error .panic)

end PencilRs.Model
