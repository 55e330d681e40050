import PencilRs.Model.LocalTranspose
import PencilRs.Model.TransposePlan

/-!
# Passes through the stages of a route

A transform is a pass through the stages, first to last or last to first, with a transition
before every stage but the first.  The families of plans differ in the local transforms of a
stage and in what a rank does with a local result: it may go on by itself, or agree with the
others.

SOURCE: pencil-fft/src/distributed.rs, distributed/r2r.rs, distributed/mixed.rs
-/

set_option autoImplicit false

namespace PencilRs.Model

open PencilRs.Computation RankProgram

variable {N M : ℕ} {K ε ε' L β : Type}

/-! ## Agreements -/

/-- A part of the program whose errors become a value; a panic is not caught. -/
def attempt (p : RankProgram K M ε β) : RankProgram K M ε' (Except ε β) :=
  ExceptT.mk (p.run.bind fun
    | .ok value => .ret (.ok (.ok value))
    | .error (.error e) => .ret (.ok (.error e))
    | .error .panic => .ret (.error .panic))

/-- `lift` embeds the errors of the distributed transforms.

SOURCE: distributed.rs:3885-3895 -/
def agreeResult (lift : FftError → ε) (result : Except ε β) : RankProgram K M ε β :=
  agreePreflight result (lift .collectivePreconditionFailed)

/-- `agree_result` of a collective call. -/
def agreeCall (lift : FftError → ε) (p : RankProgram K M ε β) : RankProgram K M ε β := do
  let result ← attempt p
  agreeResult lift result

/-- A local result whose panic is not caught, agreed on. -/
def agreeLocal (lift : FftError → ε) : Except (Stop ε) β → RankProgram K M ε β
  | .ok value => agreeResult lift (.ok value)
  | .error (.error e) => agreeResult lift (.error e)
  | .error .panic => Fallible.ofExcept (.error .panic)

/-! ## Transitions -/

/-- SOURCE: distributed.rs:891-898 -/
inductive Transition (N M : ℕ) where
  /-- Adjacent stages have the same layout. -/
  | identity
  | local (plan : LocalTransposePlan N M)
  | allToAllv (plan : TransposePlanCore N M)
  | pointToPoint (plan : TransposePlanCore N M)

/-- SOURCE: distributed.rs:900-904 -/
structure StageTransition (N M : ℕ) where
  forward : Transition N M
  backward : Transition N M

/-- SOURCE: distributed.rs:508-514 -/
inductive TransposeMethod where
  | allToAllv
  | pointToPoint
deriving Repr, DecidableEq

/-- SOURCE: distributed.rs:2536-2550 -/
def buildDistributedTransition (alloc : PlanAllocator) (source destination : Pencil N M) :
    TransposeMethod → RankProgram K M FftError (Transition N M)
  | .allToAllv => Transition.allToAllv <$>
      (newTransposePlan alloc source destination .allToAllv).adapt fun
        | .error e => Stop.error (FftError.transpose e)
        | .panic => .panic
  | .pointToPoint => Transition.pointToPoint <$>
      (newTransposePlan alloc source destination .pointToPoint).adapt fun
        | .error e => Stop.error (FftError.transpose e)
        | .panic => .panic

/-- SOURCE: distributed.rs:2552-2567 -/
def transitionWorkspaceRequirements (transition : Transition N M) (extraShape : ExtraShape) :
    Except FftError TransposeWorkspaceRequirements :=
  match transition with
  | .identity => .ok { sendLen := 0, receiveLen := 0 }
  | .allToAllv plan | .pointToPoint plan =>
    (plan.workspaceRequirements extraShape).mapError .transpose
  | .local _ => .error .preparationFailed

/-- How often a stage's local transform and transition were run. -/
structure StageCalls where
  fftCalls : ℕ
  transitionCalls : ℕ
deriving Repr, DecidableEq

/-- The counts of a profiled call; the durations are left out. -/
abbrev Report : Type := Option (List StageCalls)

/-- SOURCE: distributed.rs:3612-3622 -/
def recordFftTiming (report : Report) (index : ℕ) : Report :=
  report.map fun stages => stages.modify index fun stage =>
    { stage with fftCalls := stage.fftCalls + 1 }

/-- The end of `execute_transition_timed`. -/
def recordTransition (report : Report) (index : ℕ) : Report :=
  report.map fun stages => stages.modify index fun stage =>
    { stage with transitionCalls := stage.transitionCalls + 1 }

/-- An error of a transpose. -/
def ofTranspose : Stop TransposeError → Stop FftError
  | .error e => .error (.transpose e)
  | .panic => .panic

/-- SOURCE: distributed.rs:3632-3680 -/
def executeTransitionTimed (alloc : TransposeAllocator) (T : ElementType) (timed : Bool)
    (transition : Transition N M) (intermediate : ManyPencilArray K N M)
    (workspace : TransposeWorkspace K) : RankProgram K M FftError (ManyPencilArray K N M) :=
  match transition with
  | .identity => pure intermediate
  | .local plan => orPanic
      (plan.executeInPlaceWithTransposeWorkspace intermediate workspace).toOption
  | .allToAllv plan =>
    (AlltoallvTranspose.executeInPlace alloc T timed plan intermediate workspace).adapt ofTranspose
  | .pointToPoint plan =>
    (PointToPointTranspose.executeInPlace alloc T timed plan intermediate workspace).adapt
      ofTranspose

/-! ## Families -/

/-- SOURCE: distributed.rs:883-889 -/
structure TransformStage (L : Type) (N M : ℕ) where
  axis : ℕ
  input : Pencil N M
  output : Pencil N M
  localTransform : L

/-- The local transforms of one direction, on a pencil and an axis: from a source to a
destination, and in place. -/
structure StageKernels (L K ε : Type) (N M : ℕ) where
  run : L → Pencil N M → ℕ → List K → List K → Except (Stop ε) (List K)
  runInPlace : L → Pencil N M → ℕ → List K → Except (Stop ε) (List K)

/-- What a family does with the results of its steps. -/
structure PassPolicy (K ε : Type) (M : ℕ) where
  /-- A result of local work. -/
  settle : {β : Type} → Except (Stop ε) β → RankProgram K M ε β
  /-- A transition. -/
  transition : {β : Type} → RankProgram K M FftError β → RankProgram K M ε β
  /-- An array that is not in the layout the pass expects. -/
  array : ArrayError → Stop ε

/-- What a rank brings to a pass, besides the plan: its allocator at each transition, and the
buffers of the transposes. -/
structure PassContext (K : Type) where
  alloc : ℕ → TransposeAllocator
  elementType : ElementType
  transpose : TransposeWorkspace K

/-- What a pass changes. -/
structure PassState (K : Type) (N M : ℕ) where
  array : ManyPencilArray K N M
  destination : List K
  report : Report

/-! ## Steps -/

/-- A local transform as a callback on a slice. -/
def kernelCallback (kernel : List K → Except (Stop ε) (List K)) : Callback K ε Unit where
  run := fun cells =>
    match kernel cells with
    | .ok result => if result.length = cells.length then (result, .ok) else (cells, .panic none)
    | .error (.error e) => (cells, .err e)
    | .error .panic => (cells, .panic none)
  length_run := by
    intro cells
    cases kernel cells with
    | ok result =>
      simp only
      split
      · assumption
      · rfl
    | error stop => cases stop <;> rfl

/-- The array after an operation that succeeded. -/
def ofEnding (array : ArrayError → Stop ε) (after : ManyPencilArray K N M × Ending ε Unit) :
    Except (Stop ε) (ManyPencilArray K N M) :=
  match after.2 with
  | .done => .ok after.1
  | .failed (.array e) => .error (array e)
  | .failed (.writer e) => .error (.error e)
  | .panicked _ => .error .panic

section Steps

variable (policy : PassPolicy K ε M) (kernels : StageKernels L K ε N M) (context : PassContext K)

/-- The first stage of a pass: from the source into the intermediate array.  `pencil` is the
one the local transform is given. -/
def overwriteStage (stage : TransformStage L N M) (pencil : Pencil N M) (index : ℕ)
    (source : List K) (state : PassState K N M) : RankProgram K M ε (PassState K N M) := do
  let array ← policy.settle (ofEnding policy.array (state.array.overwriteWith stage.output
    (kernelCallback (kernels.run stage.localTransform pencil stage.axis source))))
  return { state with array, report := recordFftTiming state.report index }

/-- A stage on the active layout of the intermediate array. -/
def inPlaceStage (stage : TransformStage L N M) (pencil : Pencil N M) (index : ℕ)
    (state : PassState K N M) : RankProgram K M ε (PassState K N M) := do
  let array ← policy.settle (ofEnding policy.array (state.array.editActive
    (kernelCallback (kernels.runInPlace stage.localTransform pencil stage.axis))))
  return { state with array, report := recordFftTiming state.report index }

/-- The last stage of a pass: from the intermediate array into the destination. -/
def destinationStage (stage : TransformStage L N M) (pencil : Pencil N M) (index : ℕ)
    (state : PassState K N M) : RankProgram K M ε (PassState K N M) := do
  let destination ← policy.settle (do
    let active ← state.array.activeView.mapError policy.array
    kernels.run stage.localTransform pencil stage.axis active.storage state.destination)
  return { state with destination, report := recordFftTiming state.report index }

/-- The transition at `index`. -/
def passTransition (transition : Transition N M) (index : ℕ) (state : PassState K N M) :
    RankProgram K M ε (PassState K N M) := do
  let array ← policy.transition (executeTransitionTimed (context.alloc index)
    context.elementType state.report.isSome transition state.array context.transpose)
  return { state with array, report := recordTransition state.report index }

/-! ## Out of place -/

/-- `destination.copy_from_slice(active)` -/
def copyActive (array : ArrayError → Stop ε) (state : PassState K N M) :
    Except (Stop ε) (PassState K N M) := do
  let active ← state.array.activeView.mapError array
  ensure (active.storage.length = state.destination.length) .panic
  return { state with destination := active.storage }

variable (stages : List (TransformStage L N M)) (transitions : List (StageTransition N M))

/-- One transition of the forward tail and the stage after it. -/
def forwardTailStep (state : PassState K N M) (index : ℕ) :
    RankProgram K M ε (PassState K N M) := do
  let transition ← orPanic transitions[index]?
  let state ← passTransition policy context transition.forward index state
  let stage ← orPanic stages[index + 1]?
  if index + 1 = stages.length - 1 then
    destinationStage policy kernels stage stage.output (index + 1) state
  else inPlaceStage policy kernels stage stage.output (index + 1) state

/-- The stages of a forward pass after the first.

SOURCE: distributed.rs:3326-3399, r2r.rs:2235-2292, mixed.rs:2215-2290 -/
def forwardTail (state : PassState K N M) : RankProgram K M ε (PassState K N M) :=
  (List.range transitions.length).foldlM
    (forwardTailStep policy kernels context stages transitions) state

/-- SOURCE: distributed.rs:3052-3097, r2r.rs:2208-2292, mixed.rs:2377-2420 -/
def forwardPass (source : List K) (state : PassState K N M) :
    RankProgram K M ε (PassState K N M) := do
  let stage ← orPanic stages[0]?
  let state ← overwriteStage policy kernels stage stage.output 0 source state
  forwardTail policy kernels context stages transitions state

/-- One transition of the reverse tail and the stage after it, unless it is the first stage. -/
def reverseTailStep (state : PassState K N M) (index : ℕ) :
    RankProgram K M ε (PassState K N M) := do
  let transition ← orPanic transitions[index]?
  let state ← passTransition policy context transition.backward index state
  if index ≠ 0 then
    let stage ← orPanic stages[index]?
    inPlaceStage policy kernels stage stage.input index state
  else return state

/-- The stages of a reverse pass before the first.

SOURCE: distributed.rs:3401-3482, r2r.rs:2294-2351, mixed.rs:2292-2375 -/
def reverseTail (source : List K) (state : PassState K N M) :
    RankProgram K M ε (PassState K N M) := do
  let last := stages.length - 1
  let stage ← orPanic stages[last]?
  let state ← overwriteStage policy kernels stage stage.input last source state
  (List.range transitions.length).reverse.foldlM
    (reverseTailStep policy kernels context stages transitions) state

/-- SOURCE: distributed.rs:3282-3324, r2r.rs:2294-2369, mixed.rs:2422-2464 -/
def reversePass (source : List K) (state : PassState K N M) :
    RankProgram K M ε (PassState K N M) := do
  let state ← reverseTail policy kernels context stages transitions source state
  let stage ← orPanic stages[0]?
  destinationStage policy kernels stage stage.input 0 state

/-! ## In place -/

def forwardInPlaceStep (state : PassState K N M) (index : ℕ) :
    RankProgram K M ε (PassState K N M) := do
  let transition ← orPanic transitions[index]?
  let state ← passTransition policy context transition.forward index state
  let stage ← orPanic stages[index + 1]?
  inPlaceStage policy kernels stage stage.output (index + 1) state

/-- SOURCE: distributed.rs:3484-3532, r2r.rs:2371-2417, mixed.rs:2466-2535 -/
def forwardPassInPlace (state : PassState K N M) : RankProgram K M ε (PassState K N M) := do
  let stage ← orPanic stages[0]?
  let state ← inPlaceStage policy kernels stage stage.output 0 state
  (List.range transitions.length).foldlM
    (forwardInPlaceStep policy kernels context stages transitions) state

def reverseInPlaceStep (state : PassState K N M) (index : ℕ) :
    RankProgram K M ε (PassState K N M) := do
  let transition ← orPanic transitions[index]?
  let state ← passTransition policy context transition.backward index state
  let stage ← orPanic stages[index]?
  inPlaceStage policy kernels stage stage.input index state

/-- SOURCE: distributed.rs:3534-3586, r2r.rs:2419-2468, mixed.rs:2537-2610 -/
def reversePassInPlace (state : PassState K N M) : RankProgram K M ε (PassState K N M) := do
  let last := stages.length - 1
  let stage ← orPanic stages[last]?
  let state ← inPlaceStage policy kernels stage stage.input last state
  (List.range transitions.length).reverse.foldlM
    (reverseInPlaceStep policy kernels context stages transitions) state

end Steps

/-! ## With overlap -/

/-- SOURCE: distributed.rs:410-425 -/
inductive FftOverlapError (ε : Type) where
  | operation (error : ε)
  | unsupportedTransport
  | overlap (error : OverlapError ε)
deriving Repr, DecidableEq

abbrev OverlapPassProgram (K : Type) (M : ℕ) (ε β : Type) : Type :=
  RankProgram K M (FftOverlapError ε) β

/-- An error of the operation itself. -/
def ofOperation : Stop ε → Stop (FftOverlapError ε)
  | .error e => .error (.operation e)
  | .panic => .panic

/-- SOURCE: distributed.rs:3272-3280, r2r.rs:2198-2206 -/
def mapOverlap {σ : Type} : CallbackStop ε Unit × σ → Stop (FftOverlapError ε)
  | (.error e, _) => .error (.overlap e)
  | (.panic _, _) => .panic

section Overlap

variable (lift : FftError → ε) (kernels : StageKernels L K ε N M) (context : PassContext K)

/-- A local result of an overlapped pass, which no rank agrees on. -/
def overlapPolicy : PassPolicy K ε M where
  settle := Fallible.ofExcept
  transition := fun p => p.adapt fun
    | .error e => .error (lift e)
    | .panic => .panic
  array := fun e => .error (lift (.array e))

/-- A transition and the stage after it: inside the transpose where that is point to point. -/
def overlapStep (transition : Transition N M) (index : ℕ) (stage : TransformStage L N M)
    (pencil : Pencil N M) (state : PassState K N M) :
    OverlapPassProgram K M ε (PassState K N M) :=
  match transition with
  | .pointToPoint plan => do
    let array ← (PointToPointTranspose.callInPlace (context.alloc index) context.elementType plan
      state.array context.transpose (kernelCallback
        (kernels.runInPlace stage.localTransform pencil stage.axis))).adapt mapOverlap
    return { state with array }
  | .identity | .local _ => ExceptT.adapt ofOperation do
    let array ← (overlapPolicy lift).transition (executeTransitionTimed (context.alloc index)
      context.elementType false transition state.array context.transpose)
    inPlaceStage (overlapPolicy lift) kernels stage pencil 0 { state with array }
  | .allToAllv _ => Fallible.ofExcept (.error (.error .unsupportedTransport))

variable (stages : List (TransformStage L N M)) (transitions : List (StageTransition N M))

def forwardOverlapStep (state : PassState K N M) (index : ℕ) :
    OverlapPassProgram K M ε (PassState K N M) := do
  let transition ← orPanic transitions[index]?
  let stage ← orPanic stages[index + 1]?
  overlapStep lift kernels context transition.forward index stage stage.output state

/-- SOURCE: distributed.rs:3099-3182, r2r.rs:2058-2125 -/
def forwardPassOverlap (source : List K) (state : PassState K N M) :
    OverlapPassProgram K M ε (PassState K N M) := do
  let stage ← orPanic stages[0]?
  let state ← ExceptT.adapt ofOperation
    (overwriteStage (overlapPolicy lift) kernels stage stage.output 0 source state)
  let state ← (List.range transitions.length).foldlM
    (forwardOverlapStep lift kernels context stages transitions) state
  ExceptT.adapt ofOperation
    (Fallible.ofExcept (copyActive (fun e => .error (lift (.array e))) state))

def reverseOverlapStep (state : PassState K N M) (index : ℕ) :
    OverlapPassProgram K M ε (PassState K N M) := do
  let transition ← orPanic transitions[index]?
  let stage ← orPanic stages[index]?
  overlapStep lift kernels context transition.backward index stage stage.input state

/-- SOURCE: distributed.rs:3184-3270, r2r.rs:2127-2196 -/
def reversePassOverlap (source : List K) (state : PassState K N M) :
    OverlapPassProgram K M ε (PassState K N M) := do
  let last := stages.length - 1
  let stage ← orPanic stages[last]?
  let state ← ExceptT.adapt ofOperation
    (overwriteStage (overlapPolicy lift) kernels stage stage.input last source state)
  let state ← (List.range transitions.length).reverse.foldlM
    (reverseOverlapStep lift kernels context stages transitions) state
  ExceptT.adapt ofOperation
    (Fallible.ofExcept (copyActive (fun e => .error (lift (.array e))) state))

end Overlap

end PencilRs.Model
