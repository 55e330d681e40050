import PencilRs.Model.FftPlan

/-!
# The complex transform

A plan transforms the selected axes of a complex array, out of place, with overlap or in place.
Each call compares its operation and the plan's descriptor, checks its buffers on every rank and
then runs the passes.

SOURCE: pencil-fft/src/distributed.rs
-/

set_option autoImplicit false

namespace PencilRs.Model

open PencilRs.Computation RankProgram

variable {N M : ℕ} {K P ε β : Type}

/-! ## Plans -/

/-- A plan; `address`, `inputAddress` and `outputAddress` are the allocations of the plan's core
and of its two endpoint pencils, which `Arc::ptr_eq` compares.

SOURCE: distributed.rs:906-929 -/
structure TransformPlanCore (P K : Type) (N M : ℕ) where
  stages : List (TransformStage (LocalTransform P K) N M)
  transitions : List (StageTransition N M)
  extraShape : ExtraShape
  selection : AxisSelection N
  layout : DistributedLayout
  descriptor : List (BitVec 64)
  fftScratchLen : ℕ
  stridedLineLen : ℕ
  lengths : TransposeLengths
  directions : FourierDirections N
  backend : BackendChoice
  strictArrayIdentity : Bool
  address : ℕ
  inputAddress : ℕ
  outputAddress : ℕ

/-- What the allocator of this rank grants to a constructor, and the addresses it hands out. -/
structure ConstructAllocator where
  descriptor : Bool
  compared : Bool × Bool
  route : RouteAllocator
  stages : Bool
  transitions : TransitionAllocator
  address : ℕ
  outputAddress : ℕ

/-- The arguments of a constructor on one rank; extra extents are machine integers. -/
structure ConstructArgs (N M : ℕ) where
  globalShape : Fin N → ℕ
  extraShape : ExtraShape
  dimensions_lt : ∀ extent ∈ extraShape.dimensions, extent < usizeLimit
  input : Except FftError (Pencil N M)
  inputAddress : ℕ
  selection : AxisSelection N
  layout : DistributedLayout
  directions : FourierDirections N
  backend : BackendChoice

/-- SOURCE: distributed.rs:223, 282 -/
def BackendChoice.planOperation : BackendChoice → BitVec 64
  | .rustFft => 7
  | .fftw _ => 127

/-- SOURCE: distributed.rs:288 -/
def valueKindC2c : BitVec 64 := 1

def FourierDirection.word : FourierDirection → BitVec 64
  | .forward => 0
  | .backward => 1

/-- What this rank brings to the comparison before planning.

SOURCE: distributed.rs:1787-1830 -/
def constructProposal (alloc : ConstructAllocator) (realSize : ℕ) (topology : MpiTopology M)
    (args : ConstructArgs N M) : Proposal 64 :=
  let expectedLen := (fftDescriptorLen N M args.extraShape).bind fun length =>
    (checkedAdd length N).bind fun length => checkedAdd length 8
  { schema := fftDescriptorSchema
    operation := args.backend.planOperation
    spatialRank := BitVec.ofNat 64 N
    topologyRank := BitVec.ofNat 64 M
    expectedLen
    descriptor := ofExpectedLength alloc.descriptor expectedLen
      (fftDescriptorWords topology args.globalShape args.extraShape args.selection valueKindC2c
          realSize args.layout
        ++ List.ofFn (fun axis => (args.directions.direction axis).word)
        ++ args.backend.descriptorWords realSize)
    reserved := alloc.compared }

/-- `collective_valid` on the prepared stages. -/
def agreePrepared : Except (Stop (BackendInitError FftError)) β →
    RankProgram K M (BackendInitError FftError) β
  | .ok value => agreePreflight (.ok value) .peerPreflight
  | .error (.error e) => agreePreflight (.error e) .peerPreflight
  | .error .panic => Fallible.ofExcept (.error .panic)

/-- An error of the transforms as an error of a constructor. -/
def ofFft : Stop FftError → Stop (BackendInitError FftError)
  | .error e => .error (.local e)
  | .panic => .panic

/-- SOURCE: distributed.rs:1776-1895 -/
def constructWithBackend (alloc : ConstructAllocator) (env : FftEnvironment K)
    (realScratchLen : P → ℕ) (topology : MpiTopology M) (args : ConstructArgs N M) :
    RankProgram K M (BackendInitError FftError) (TransformPlanCore P K N M) := do
  let descriptor ← agreeFftDescriptor .local (constructProposal alloc env.realSize topology args)
  let route ← agreeResult .local ((buildRoute alloc.route args.input topology args.globalShape
    args.layout.permuteDims).mapError .local)
  agreeResult .local (ensure (!((List.finRange N).any fun axis => !args.selection.mask axis
    && args.directions.direction axis = .backward)) (.local .preparationFailed))
  let prepared ← agreePrepared (prepareStagesBackend alloc.stages env realScratchLen route
    args.globalShape args.selection args.directions args.backend)
  let (transitions, lengths) ← ExceptT.adapt ofFft (buildTransitions alloc.transitions
    prepared.stages route.distributed args.extraShape args.layout.transposeMethod 0)
  let stridedLineLen ← Fallible.ofExcept
    ((stridedComplexLineLen prepared.stages).mapError fun e => .error (.local e))
  return {
    stages := prepared.stages
    transitions
    extraShape := args.extraShape
    selection := args.selection
    layout := args.layout
    descriptor
    fftScratchLen := prepared.fftScratchLen
    stridedLineLen
    lengths
    directions := args.directions
    backend := args.backend
    strictArrayIdentity := match args.backend with
      | .rustFft => false
      | .fftw _ => true
    address := alloc.address
    inputAddress := args.inputAddress
    outputAddress := alloc.outputAddress }

/-- SOURCE: distributed.rs:1749-1774 -/
def construct (alloc : ConstructAllocator) (env : FftEnvironment K) (realScratchLen : P → ℕ)
    (topology : MpiTopology M) (args : ConstructArgs N M) :
    RankProgram K M FftError (TransformPlanCore P K N M) :=
  (constructWithBackend alloc env realScratchLen topology { args with backend := .rustFft }).adapt
    fun
    | .error (.local e) => .error e
    | .error (.native _) | .error .peerPreflight => .error FftError.preparationFailed
    | .panic => .panic

/-! ## Calls -/

/-- SOURCE: distributed.rs:224-227, 231-232, 273-281 -/
def c2cOperation : CallVariant → Direction → BitVec 64
  | .plain, .forward => 8
  | .plain, .inverse => 9
  | .plain, .backward => 15
  | .timed, .forward => 49
  | .timed, .inverse => 50
  | .timed, .backward => 51
  | .overlap, .forward => 55
  | .overlap, .inverse => 56
  | .overlap, .backward => 57
  | .inPlace, .forward => 10
  | .inPlace, .inverse => 11
  | .inPlace, .backward => 16
  | .inPlaceTimed, .forward => 52
  | .inPlaceTimed, .inverse => 53
  | .inPlaceTimed, .backward => 54

/-! ### Preflight -/

/-- The scratch and the line buffer are lengths: what they hold before a call is not read.

SOURCE: distributed.rs:752-760 -/
structure C2cOutOfPlaceWorkspace (K : Type) (N M : ℕ) where
  coreAddress : ℕ
  intermediate : ManyPencilArray K N M
  transpose : TransposeWorkspace K
  fftScratchLen : ℕ
  lineBufferLen : ℕ

/-- SOURCE: distributed.rs:2784-2793 -/
def validateLineBuffer (actual required : ℕ) : Except FftError Unit :=
  ensure (required ≤ actual) (.workspaceTooSmall "complex line" required actual)

/-- The layouts of some stages, each once.

SOURCE: distributed.rs:2182-2199 -/
def distinctLayouts (pencils : List (Pencil N M)) : List (Pencil N M) :=
  pencils.foldl (fun registered pencil =>
    if registered.any fun other => other.sameLayout pencil then registered
    else registered ++ [pencil]) []

def registeredPencils (reserved : Bool) (pencils : List (Pencil N M)) :
    Except FftError (List (Pencil N M)) := do
  ensure reserved (.allocationFailed pencils.length)
  return distinctLayouts pencils

/-- SOURCE: distributed.rs:4350-4355 -/
def mapArrayAllocation : ArrayError → FftError
  | .allocationFailed required => .allocationFailed required
  | other => .array other

/-- SOURCE: distributed.rs:3952-3959 -/
def initializedVec (reserved : Bool) (length : ℕ) (value : K) : Except FftError (List K) := do
  ensure reserved (.allocationFailed length)
  return List.replicate length value

/-- What the allocator of this rank grants to a workspace or an array. -/
structure WorkspaceAllocator where
  registry : Bool
  storage : ℕ → Bool
  send : Bool
  receive : Bool
  scratch : Bool
  lineBuffer : Bool

namespace TransformPlanCore

variable (core : TransformPlanCore P K N M)

/-- The array in which a pass works.

SOURCE: distributed.rs:1311-1318, 1346-1352 -/
def allocateIntermediate [Zero K] (alloc : WorkspaceAllocator) :
    Except FftError (ManyPencilArray K N M) := do
  let pencils ← registeredPencils alloc.registry (core.stages.map TransformStage.output)
  (ManyPencilArray.fromElem alloc.storage pencils 0 core.extraShape 0).mapError mapArrayAllocation

/-- SOURCE: distributed.rs:1333-1336, 1354-1357 -/
def allocateTranspose [Zero K] (alloc : WorkspaceAllocator) :
    Except FftError (TransposeWorkspace K) := do
  let sendBuffer ← initializedVec alloc.send core.lengths.sendLen 0
  let receiveBuffer ← initializedVec alloc.receive core.lengths.receiveLen 0
  return { sendBuffer, receiveBuffer }

/-- SOURCE: distributed.rs:1343-1367 -/
def allocateOutOfPlaceWorkspace [Zero K] (alloc : WorkspaceAllocator) :
    Except FftError (C2cOutOfPlaceWorkspace K N M) := do
  let intermediate ← core.allocateIntermediate alloc
  let transpose ← core.allocateTranspose alloc
  ensure alloc.scratch (.allocationFailed core.fftScratchLen)
  ensure alloc.lineBuffer (.allocationFailed core.stridedLineLen)
  return { coreAddress := core.address, intermediate, transpose
           fftScratchLen := core.fftScratchLen, lineBufferLen := core.stridedLineLen }

/-- SOURCE: distributed.rs:1250-1252 -/
def inputPencil : Option (Pencil N M) := core.stages[0]?.map TransformStage.input

/-- SOURCE: distributed.rs:1255-1262 -/
def outputPencil : Option (Pencil N M) := core.stages.getLast?.map TransformStage.output

/-- SOURCE: distributed.rs:3825-3876 -/
def validateOutOfPlace (workspace : C2cOutOfPlaceWorkspace K N M) (direction : Direction)
    (source destination : EndpointArray K N M) : Except (Stop FftError) Unit := do
  ensure (workspace.coreAddress = core.address) (.error .workspaceMismatch)
  let input ← okOr core.inputPencil .panic
  let output ← okOr core.outputPencil .panic
  let (expectedSource, sourceAddress, expectedDestination, destinationAddress) :=
    match direction with
    | .forward => (input, core.inputAddress, output, core.outputAddress)
    | .inverse | .backward => (output, core.outputAddress, input, core.inputAddress)
  ensure (!((core.strictArrayIdentity && source.pencilAddress ≠ sourceAddress)
    || !source.view.pencil.sameLayout expectedSource)) (.error .inputLayoutMismatch)
  ensure (!((core.strictArrayIdentity && destination.pencilAddress ≠ destinationAddress)
    || !destination.view.pencil.sameLayout expectedDestination)) (.error .outputLayoutMismatch)
  ensure (source.view.extraShape = core.extraShape
    && destination.view.extraShape = core.extraShape) (.error .extraShapeMismatch)
  (validateWorkspaceLengthsValues workspace.fftScratchLen core.fftScratchLen
    workspace.transpose.sendBuffer.length core.lengths.sendLen
    workspace.transpose.receiveBuffer.length core.lengths.receiveLen).mapError .error
  ensure (workspace.intermediate.extraShape = core.extraShape) (.error .workspaceMismatch)
  let active ← workspace.intermediate.activePencil.mapError fun e => .error (.array e)
  ensure (core.stages.any fun stage => active.sameLayout stage.output) (.error .workspaceMismatch)

/-- SOURCE: distributed.rs:2004-2027 -/
def preflight (direction : Direction) (source destination : EndpointArray K N M)
    (workspace : C2cOutOfPlaceWorkspace K N M) : Except (Stop FftError) Unit := do
  core.validateOutOfPlace workspace direction source destination
  (validateLineBuffer workspace.lineBufferLen core.stridedLineLen).mapError .error

/-! ### Kernels -/

section Kernels

variable [Field K] (scratchLen lineBufferLen : ℕ)

/-- SOURCE: distributed.rs:2949-2995 -/
def complexForwardKernels : StageKernels (LocalTransform P K) K FftError N M where
  run := fun localTransform pencil axis source destination =>
    match localTransform with
    | .identity => do
      ensure (source.length = destination.length) (.error .preparationFailed)
      return source
    | .complex plan =>
      executeStridedComplexForward plan pencil axis scratchLen lineBufferLen source destination
    | .realComplex _ => .error (.error .preparationFailed)
  runInPlace := fun localTransform pencil axis data =>
    match localTransform with
    | .identity => .ok data
    | .complex plan =>
      executeStridedComplexForwardInPlace plan pencil axis scratchLen lineBufferLen data
    | .realComplex _ => .error (.error .preparationFailed)

/-- SOURCE: distributed.rs:2997-3050 -/
def complexReverseKernels (normalize : Bool) :
    StageKernels (LocalTransform P K) K FftError N M where
  run := fun localTransform pencil axis source destination =>
    match localTransform with
    | .identity => do
      ensure (source.length = destination.length) (.error .preparationFailed)
      return source
    | .complex plan => executeStridedComplexReverse plan pencil axis scratchLen lineBufferLen
        normalize source destination
    | .realComplex _ => .error (.error .preparationFailed)
  runInPlace := fun localTransform pencil axis data =>
    match localTransform with
    | .identity => .ok data
    | .complex plan => executeStridedComplexReverseInPlace plan pencil axis scratchLen
        lineBufferLen normalize data
    | .realComplex _ => .error (.error .preparationFailed)

/-- The kernels of a direction. -/
def complexKernels : Direction → StageKernels (LocalTransform P K) K FftError N M
  | .forward => complexForwardKernels scratchLen lineBufferLen
  | .inverse => complexReverseKernels scratchLen lineBufferLen true
  | .backward => complexReverseKernels scratchLen lineBufferLen false

end Kernels

/-! ### Policies -/

/-- Out of place, local steps were preflighted: `expect`. -/
def expectPolicy : PassPolicy K FftError M where
  settle := fun result => Fallible.ofExcept (result.mapError fun _ => .panic)
  transition := id
  array := fun _ => .panic

/-- In place, local errors are returned: `?`. -/
def returnPolicy : PassPolicy K FftError M where
  settle := Fallible.ofExcept
  transition := id
  array := fun e => .error (.array e)

/-! ### Out of place -/

/-- The counts before a call. -/
def freshReport (N : ℕ) (timed : Bool) : Report :=
  if timed then some (List.replicate N ⟨0, 0⟩) else none

def passContext (alloc : CallAllocator) (env : FftEnvironment K)
    (transpose : TransposeWorkspace K) : PassContext K where
  alloc := alloc.transitions
  elementType := env.elementType
  transpose := transpose

/-- The stages and transitions belong together.

SOURCE: distributed.rs:3339-3341, 3414-3416 -/
def validateTail : Except FftError Unit :=
  ensure (!(core.stages.length = 0 || core.transitions.length + 1 ≠ core.stages.length))
    .preparationFailed

/-- The tail of a plan with a single stage.

SOURCE: distributed.rs:3342-3355 -/
def copySingle (state : PassState K N M) : Except (Stop FftError) (PassState K N M) := do
  let active ← state.array.activeView.mapError fun _ => .panic
  ensure (active.storage.length = state.destination.length) (.error .preparationFailed)
  return { state with destination := active.storage }

variable [Field K]

/-- SOURCE: distributed.rs:3052-3097, 3326-3399 -/
def executeForward (context : PassContext K) (scratchLen lineBufferLen : ℕ) (source : List K)
    (state : PassState K N M) : RankProgram K M FftError (PassState K N M) := do
  let kernels := complexForwardKernels scratchLen lineBufferLen
  let stage ← orPanic core.stages[0]?
  let state ← overwriteStage expectPolicy kernels stage stage.output 0 source state
  Fallible.ofExcept (core.validateTail.mapError .error)
  if core.stages.length = 1 then Fallible.ofExcept (copySingle state)
  else forwardTail expectPolicy kernels context core.stages core.transitions state

/-- The copy that a plan with a single stage starts its reverse pass with.

SOURCE: distributed.rs:3424-3432 -/
def copyKernels : StageKernels (LocalTransform P K) K FftError N M where
  run := fun _ _ _ source destination => do
    ensure (destination.length = source.length) .panic
    return source
  runInPlace := fun _ _ _ data => .ok data

/-- SOURCE: distributed.rs:3282-3324, 3401-3482 -/
def executeInverse (context : PassContext K) (scratchLen lineBufferLen : ℕ) (normalize : Bool)
    (source : List K) (state : PassState K N M) :
    RankProgram K M FftError (PassState K N M) := do
  let kernels := complexReverseKernels scratchLen lineBufferLen normalize
  Fallible.ofExcept (core.validateTail.mapError .error)
  let state ← (if core.stages.length = 1 then do
    let stage ← orPanic core.stages[0]?
    let after ← overwriteStage expectPolicy copyKernels stage stage.input 0 source state
    return { after with report := state.report }
  else reverseTail expectPolicy kernels context core.stages core.transitions source state)
  let stage ← orPanic core.stages[0]?
  destinationStage expectPolicy kernels stage stage.input 0 state

/-- SOURCE: distributed.rs:1897-1963 -/
def execute (alloc : CallAllocator) (env : FftEnvironment K) (timed : Bool)
    (direction : Direction) (source destination : EndpointArray K N M)
    (workspace : C2cOutOfPlaceWorkspace K N M) :
    RankProgram K M FftError (PassState K N M) := do
  agreeExecutionDescriptor id alloc N
    (c2cOperation (if timed then .timed else .plain) direction) core.descriptor
  agreeLocalPreflight id (core.preflight direction source destination workspace)
  let context := passContext alloc env workspace.transpose
  let state : PassState K N M := {
    array := workspace.intermediate
    destination := destination.view.storage
    report := freshReport N timed }
  match direction with
  | .forward =>
    core.executeForward context workspace.fftScratchLen workspace.lineBufferLen
      source.view.storage state
  | .inverse =>
    core.executeInverse context workspace.fftScratchLen workspace.lineBufferLen true
      source.view.storage state
  | .backward =>
    core.executeInverse context workspace.fftScratchLen workspace.lineBufferLen false
      source.view.storage state

/-! ### With overlap -/

/-- SOURCE: distributed.rs:1985-1988 -/
def overlapSupported : Bool :=
  core.transitions.all fun transition =>
    (match transition.forward with
      | .allToAllv _ => false
      | _ => true) &&
    match transition.backward with
      | .allToAllv _ => false
      | _ => true

/-- SOURCE: distributed.rs:1965-2002, 3099-3270 -/
def executeOverlap (alloc : CallAllocator) (env : FftEnvironment K) (direction : Direction)
    (source destination : EndpointArray K N M) (workspace : C2cOutOfPlaceWorkspace K N M) :
    OverlapPassProgram K M FftError (PassState K N M) := do
  agreeExecutionDescriptor .operation alloc N (c2cOperation .overlap direction) core.descriptor
  agreeLocalPreflight .operation (core.preflight direction source destination workspace)
  if ← collectiveValid core.overlapSupported then
    let context := passContext alloc env workspace.transpose
    let kernels := complexKernels workspace.fftScratchLen workspace.lineBufferLen direction
    let state : PassState K N M := {
      array := workspace.intermediate
      destination := destination.view.storage
      report := none }
    match direction with
    | .forward =>
      forwardPassOverlap id kernels context core.stages core.transitions source.view.storage state
    | .inverse | .backward =>
      reversePassOverlap id kernels context core.stages core.transitions source.view.storage state
  else fail .unsupportedTransport

end TransformPlanCore

/-! ### In place -/

/-- SOURCE: distributed.rs:320-329 -/
inductive C2cState where
  | input
  | output
  | poisoned
deriving Repr, DecidableEq

/-- SOURCE: distributed.rs:820-824 -/
structure C2cInPlaceArray (K : Type) (N M : ℕ) where
  coreAddress : ℕ
  array : ManyPencilArray K N M
  state : C2cState

/-- SOURCE: distributed.rs:832-837 -/
structure C2cInPlaceWorkspace (K : Type) where
  coreAddress : ℕ
  transpose : TransposeWorkspace K
  fftScratchLen : ℕ
  lineBufferLen : ℕ

/-- SOURCE: distributed.rs:1311-1324 -/
def TransformPlanCore.allocateInPlace [Zero K] (core : TransformPlanCore P K N M)
    (alloc : WorkspaceAllocator) : Except FftError (C2cInPlaceArray K N M) := do
  let array ← core.allocateIntermediate alloc
  return { coreAddress := core.address, array, state := .input }

/-- SOURCE: distributed.rs:1330-1340 -/
def TransformPlanCore.allocateInPlaceWorkspace [Zero K] (core : TransformPlanCore P K N M)
    (alloc : WorkspaceAllocator) : Except FftError (C2cInPlaceWorkspace K) := do
  let transpose ← core.allocateTranspose alloc
  ensure alloc.scratch (.allocationFailed core.fftScratchLen)
  ensure alloc.lineBuffer (.allocationFailed core.stridedLineLen)
  return { coreAddress := core.address, transpose
           fftScratchLen := core.fftScratchLen, lineBufferLen := core.stridedLineLen }

/-- SOURCE: distributed.rs:2163-2168 -/
def C2cInPlaceArray.view (array : C2cInPlaceArray K N M) :
    Except (Stop FftError) (PencilArrayView K N M) :=
  match array.state with
  | .input | .output => array.array.activeView.mapError fun e => .error (.array e)
  | .poisoned => .error (.error (.array .poisoned))

namespace TransformPlanCore

variable (core : TransformPlanCore P K N M)

/-- SOURCE: distributed.rs:2113-2160 -/
def preflightInPlace (direction : Direction) (array : C2cInPlaceArray K N M)
    (workspace : C2cInPlaceWorkspace K) : Except (Stop FftError) Unit := do
  ensure (array.coreAddress = core.address) (.error (.array .incompatiblePencils))
  ensure (workspace.coreAddress = core.address) (.error .workspaceMismatch)
  let expectedState := match direction with
    | .forward => C2cState.input
    | .inverse | .backward => C2cState.output
  (match array.state with
    | .poisoned => .error (.error (.array .poisoned))
    | state => ensure (state = expectedState) (.error .inputLayoutMismatch))
  ensure (array.array.extraShape = core.extraShape) (.error .extraShapeMismatch)
  let expectedPencil ← okOr (match direction with
    | .forward => core.inputPencil
    | .inverse | .backward => core.outputPencil) .panic
  let active ← array.array.activePencil.mapError fun e => .error (.array e)
  ensure (active.sameLayout expectedPencil) (.error .inputLayoutMismatch)
  (validateWorkspaceLengthsValues workspace.fftScratchLen core.fftScratchLen
    workspace.transpose.sendBuffer.length core.lengths.sendLen
    workspace.transpose.receiveBuffer.length core.lengths.receiveLen).mapError .error
  (validateLineBuffer workspace.lineBufferLen core.stridedLineLen).mapError .error

variable [Field K]

/-- What a call in place leaves: the result, and the array, whose buffer is only known where the
call succeeded or did not start. -/
structure InPlaceResult (K ε : Type) (N M : ℕ) where
  result : Except (Stop ε) Report
  array : C2cInPlaceArray K N M

/-- SOURCE: distributed.rs:2029-2111, 3588-3608 -/
def executeInPlace (alloc : CallAllocator) (env : FftEnvironment K) (timed : Bool)
    (direction : Direction) (array : C2cInPlaceArray K N M) (workspace : C2cInPlaceWorkspace K) :
    Proc (transport K M) (InPlaceResult K FftError N M) := do
  let preflighted ← (show RankProgram K M FftError Unit from do
    agreeExecutionDescriptor id alloc N
      (c2cOperation (if timed then .inPlaceTimed else .inPlace) direction) core.descriptor
    agreeLocalPreflight id (core.preflightInPlace direction array workspace)).run
  match preflighted with
  | .error stop => return ⟨.error stop, array⟩
  | .ok () =>
    let context := passContext alloc env workspace.transpose
    let kernels := complexKernels workspace.fftScratchLen workspace.lineBufferLen direction
    let state : PassState K N M := {
      array := array.array
      destination := []
      report := freshReport N timed }
    let after ← (match direction with
      | .forward => forwardPassInPlace returnPolicy kernels context core.stages core.transitions
          state
      | .inverse | .backward => reversePassInPlace returnPolicy kernels context core.stages
          core.transitions state).run
    match after with
    | .error stop => return ⟨.error stop, { array with state := .poisoned }⟩
    | .ok state => return ⟨.ok state.report, { array with
        array := state.array
        state := match direction with
          | .forward => .output
          | .inverse | .backward => .input }⟩

end TransformPlanCore

end PencilRs.Model
