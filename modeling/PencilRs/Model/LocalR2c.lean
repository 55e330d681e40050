import PencilRs.Computation.Rounds
import PencilRs.Model.R2r

/-!
# Local real-to-half-complex transforms

A plan transforms real lines into half-complex lines and back, out of place, or in one allocation
that is viewed as packed real rows or as complex rows.  A half-complex row takes more room than
the real row it comes from, so that rows are transformed from the back on the way there and from
the front on the way back.

SOURCE: pencil-fft/src/r2c.rs
-/

set_option autoImplicit false

namespace PencilRs.Model

open PencilRs.Computation

namespace R2c

open R2r (ComplexValue)

variable {R : Type}

/-- SOURCE: r2c.rs:14-21 -/
inductive R2cState where
  | realInput
  | complexOutput
  | poisoned
deriving Repr, DecidableEq

/-- SOURCE: r2c.rs:25-108 -/
inductive LocalR2cError where
  | invalidLength
  | lengthOverflow
  | nonIntegralBatch
  | batchCountMismatch (sourceCount destinationCount : ℕ)
  | realLineTooSmall (required actual : ℕ)
  | complexLineTooSmall (required actual : ℕ)
  | scratchTooSmall (required actual : ℕ)
  | allocationFailed (required : ℕ)
  | arrayMismatch
  | workspaceMismatch
  | storageLengthMismatch (required actual : ℕ)
  | storageLayoutMismatch
  | wrongState
  | poisoned
  | invalidSpectrumEndpoint (batch index : ℕ)
deriving Repr, DecidableEq

/-! ## Kernels -/

/-- A planned real transform of the FFT library: what it writes for a line, whether it accepts the
line, and what it leaves in the line and in the scratch. -/
structure RealToComplex (R : Type) where
  scratchLen : ℕ
  transform : List R → List (ComplexValue R)
  accepts : List R → Bool
  leaves : List R → List (ComplexValue R) → List R × List (ComplexValue R)
  length_transform : ∀ line, (transform line).length = line.length / 2 + 1
  length_leaves : ∀ line scratch, (leaves line scratch).1.length = line.length ∧
    (leaves line scratch).2.length = scratch.length

/-- What the library says of a half-complex line: `inputValues` is its complaint about imaginary
parts at the ends. -/
inductive InverseVerdict where
  | accepted
  | inputValues (first last : Bool)
  | failed
deriving Repr, DecidableEq

/-- A planned transform back to `lineLen` real values. -/
structure ComplexToReal (R : Type) where
  lineLen : ℕ
  scratchLen : ℕ
  transform : List (ComplexValue R) → List R
  verdict : List (ComplexValue R) → InverseVerdict
  leaves : List (ComplexValue R) → List (ComplexValue R) →
    List (ComplexValue R) × List (ComplexValue R)
  length_transform : ∀ line, (transform line).length = lineLen
  length_leaves : ∀ line scratch, (leaves line scratch).1.length = line.length ∧
    (leaves line scratch).2.length = scratch.length

/-- The planner of the FFT library. -/
structure RealFftPlanner (R : Type) where
  planFftForward : ℕ → RealToComplex R
  planFftInverse : ℕ → ComplexToReal R
  lineLen_inverse : ∀ realLen, (planFftInverse realLen).lineLen = realLen

/-! ## Lengths -/

/-- SOURCE: r2c.rs:897-903 -/
def validateAddressable (length elementSize : ℕ) : Except LocalR2cError Unit :=
  ensure (isAddressable length elementSize) .lengthOverflow

/-- SOURCE: r2c.rs:857-869 -/
def validateLengths (realSize realLen : ℕ) : Except LocalR2cError ℕ := do
  ensure (realLen ≠ 0) .invalidLength
  let complexLen := realLen / 2 + 1
  validateAddressable realLen realSize
  validateAddressable complexLen (2 * realSize)
  if realLen % 2 ≠ 0 then validateAddressable realLen (2 * realSize)
  return complexLen

/-- SOURCE: r2c.rs:871-883 -/
def inPlaceLengths (realLen batchCount : ℕ) : Except LocalR2cError (ℕ × ℕ) := do
  let complexLen := realLen / 2 + 1
  let realValues ← okOr (checkedMul realLen batchCount) .lengthOverflow
  let complexValues ← okOr (checkedMul complexLen batchCount) .lengthOverflow
  return (realValues, complexValues)

/-- SOURCE: r2c.rs:885-895 -/
def checkedInPlaceLengths (realSize realLen batchCount : ℕ) : Except LocalR2cError (ℕ × ℕ) := do
  let (realValues, complexValues) ← inPlaceLengths realLen batchCount
  validateAddressable realValues realSize
  validateAddressable complexValues (2 * realSize)
  return (realValues, complexValues)

/-- SOURCE: r2c.rs:850-855 -/
def batchCount (actual lineLen : ℕ) : Except LocalR2cError ℕ := do
  ensure (actual % lineLen = 0) .nonIntegralBatch
  return actual / lineLen

/-! ## Arrays -/

/-- The complex values of an allocation as real scalars.

SOURCE: r2c.rs:833-839 -/
def scalars (storage : List (ComplexValue R)) : List R :=
  storage.flatMap fun value => [value.re, value.im]

/-- An allocation whose real view holds these scalars. -/
def ofScalars : List R → List (ComplexValue R)
  | re :: im :: rest => ⟨re, im⟩ :: ofScalars rest
  | _ => []

/-- SOURCE: r2c.rs:131-136 -/
structure LocalR2cInPlaceArray (R : Type) where
  storage : List (ComplexValue R)
  realLen : ℕ
  batchCount : ℕ
  state : R2cState
deriving Repr, DecidableEq

namespace LocalR2cInPlaceArray

variable (array : LocalR2cInPlaceArray R)

/-- SOURCE: r2c.rs:188-194 -/
def ensureState (expected : R2cState) : Except LocalR2cError Unit :=
  match array.state with
  | .poisoned => .error .poisoned
  | state => ensure (state = expected) .wrongState

/-- SOURCE: r2c.rs:196-211 -/
def checkedLengths : Except LocalR2cError (ℕ × ℕ) := do
  let (realValues, complexValues) ← inPlaceLengths array.realLen array.batchCount
  ensure (array.storage.length = complexValues)
    (.storageLengthMismatch complexValues array.storage.length)
  ensure (realValues ≤ (scalars array.storage).length) .storageLayoutMismatch
  return (realValues, complexValues)

/-- SOURCE: r2c.rs:156-162 -/
def realView : Except LocalR2cError (List R) := do
  array.ensureState .realInput
  let (length, _) ← array.checkedLengths
  return (scalars array.storage).take length

/-- SOURCE: r2c.rs:173-178 -/
def complexView : Except LocalR2cError (List (ComplexValue R)) := do
  array.ensureState .complexOutput
  let (_, length) ← array.checkedLengths
  return array.storage.take length

/-- What is left after values are assigned through the mutable real view.

SOURCE: r2c.rs:164-171 -/
def editReal (edit : List R → List R) : LocalR2cInPlaceArray R :=
  match array.realView with
  | .ok view =>
    { array with storage := ofScalars ((edit view).take view.length
        ++ (scalars array.storage).drop (min (edit view).length view.length)) }
  | .error _ => array

/-- SOURCE: r2c.rs:180-186 -/
def editComplex (edit : List (ComplexValue R) → List (ComplexValue R)) : LocalR2cInPlaceArray R :=
  match array.complexView with
  | .ok view =>
    { array with storage := (edit view).take view.length
        ++ array.storage.drop (min (edit view).length view.length) }
  | .error _ => array

end LocalR2cInPlaceArray

/-- SOURCE: r2c.rs:221-227 -/
structure LocalR2cInPlaceWorkspace (R : Type) where
  realLine : List R
  complexLine : List (ComplexValue R)
  scratch : List (ComplexValue R)
  realLen : ℕ
  complexLen : ℕ
deriving Repr, DecidableEq

/-! ## Plans -/

/-- SOURCE: r2c.rs:250-259 -/
structure LocalR2cPlan (R : Type) where
  realLen : ℕ
  complexLen : ℕ
  scratchLen : ℕ
  forwardFft : RealToComplex R
  inverseFft : ComplexToReal R

namespace LocalR2cPlan

/-- SOURCE: r2c.rs:279-315 -/
def new (planner : RealFftPlanner R) (realSize realLen : ℕ) :
    Except LocalR2cError (LocalR2cPlan R) := do
  let complexLen ← validateLengths realSize realLen
  let forwardFft := planner.planFftForward realLen
  let inverseFft := planner.planFftInverse realLen
  return { realLen, complexLen, scratchLen := max forwardFft.scratchLen inverseFft.scratchLen
           forwardFft, inverseFft }

variable (plan : LocalR2cPlan R)

/-! ### Validation -/

/-- SOURCE: r2c.rs:793-801 -/
def validateScratch (actual : ℕ) : Except LocalR2cError Unit :=
  ensure (plan.scratchLen ≤ actual) (.scratchTooSmall plan.scratchLen actual)

/-- SOURCE: r2c.rs:716-757 -/
def validateLineBuffers (sourceLen destinationLen : ℕ) (sourceLineIsReal : Bool)
    (realLineLen complexLineLen scratchLen : ℕ) : Except LocalR2cError Unit := do
  let (sourceRequired, destinationRequired) :=
    if sourceLineIsReal then (plan.realLen, plan.complexLen) else (plan.complexLen, plan.realLen)
  let sourceBatches ← batchCount sourceLen sourceRequired
  let destinationBatches ← batchCount destinationLen destinationRequired
  ensure (sourceBatches = destinationBatches) (.batchCountMismatch sourceBatches destinationBatches)
  ensure (plan.realLen ≤ realLineLen) (.realLineTooSmall plan.realLen realLineLen)
  ensure (plan.complexLen ≤ complexLineLen) (.complexLineTooSmall plan.complexLen complexLineLen)
  plan.validateScratch scratchLen

/-- SOURCE: r2c.rs:759-774 -/
def validateForward (sourceLen destinationLen realLineLen scratchLen : ℕ) :
    Except LocalR2cError Unit :=
  plan.validateLineBuffers sourceLen destinationLen true realLineLen plan.complexLen scratchLen

/-- SOURCE: r2c.rs:776-791 -/
def validateInverse (sourceLen destinationLen complexLineLen scratchLen : ℕ) :
    Except LocalR2cError Unit :=
  plan.validateLineBuffers sourceLen destinationLen false plan.realLen complexLineLen scratchLen

section Endpoints

variable [Zero R] [DecidableEq R]

/-- Whether the constrained imaginary parts of a line are not zero.

SOURCE: r2c.rs:826-831 -/
def endpointImaginary (values : List (ComplexValue R)) (realLen : ℕ) : Option (Bool × Bool) := do
  let head ← values[0]?
  if realLen % 2 = 0 then
    let middle ← values[realLen / 2]?
    return (decide (head.im ≠ 0), decide (middle.im ≠ 0))
  else return (decide (head.im ≠ 0), false)

/-- One line of the check.  The lines have `complexLen` values, so that neither index panics. -/
def validateEndpointsLine (line : List (ComplexValue R)) (batch : ℕ) :
    Except (Stop LocalR2cError) Unit := do
  let (first, last) ← okOr (endpointImaginary line plan.realLen) .panic
  ensure (!first) (.error (.invalidSpectrumEndpoint batch 0))
  ensure (!last) (.error (.invalidSpectrumEndpoint batch (plan.complexLen - 1)))

/-- SOURCE: r2c.rs:803-819 -/
def validateEndpoints (source : List (ComplexValue R)) : Except (Stop LocalR2cError) Unit :=
  (List.range (source.length / plan.complexLen)).forM fun batch =>
    plan.validateEndpointsLine (lineAt plan.complexLen source batch) batch

/-- The checks of an in-place call in front of the endpoints; the result is the number of complex
values.

SOURCE: r2c.rs:693-709 -/
def validateInPlaceBuffers (realSize : ℕ) (array : LocalR2cInPlaceArray R)
    (workspace : LocalR2cInPlaceWorkspace R) (expectedState : R2cState) :
    Except LocalR2cError ℕ := do
  array.ensureState expectedState
  ensure (array.realLen = plan.realLen) .arrayMismatch
  ensure (workspace.realLen = plan.realLen && workspace.complexLen = plan.complexLen)
    .workspaceMismatch
  let _ ← checkedInPlaceLengths realSize array.realLen array.batchCount
  let (realValues, complexValues) ← array.checkedLengths
  plan.validateLineBuffers realValues complexValues true workspace.realLine.length
    workspace.complexLine.length workspace.scratch.length
  return complexValues

/-- SOURCE: r2c.rs:687-714 -/
def validateInPlace (realSize : ℕ) (array : LocalR2cInPlaceArray R)
    (workspace : LocalR2cInPlaceWorkspace R) (expectedState : R2cState) :
    Except (Stop LocalR2cError) ℕ := do
  let complexValues ← (plan.validateInPlaceBuffers realSize array workspace
    expectedState).mapError .error
  if expectedState = .complexOutput then
    plan.validateEndpoints (array.storage.take complexValues)
  return array.batchCount

end Endpoints

/-! ### Forward -/

/-- What a call leaves: its result and everything that it borrows. -/
abbrev Outcome (τ : Type) : Type := Except (Stop LocalR2cError) Unit × τ

/-- A row of a forward transform: the real row, the line buffer and the scratch before it; the
half-complex row and what is left of them.  The `expect` panics where the library refuses. -/
def forwardRow (row realLine : List R) (scratch : List (ComplexValue R)) :
    Option (Except (Stop LocalR2cError) Unit × List (ComplexValue R) × List R ×
      List (ComplexValue R)) := do
  guard (row.length = plan.realLen ∧ plan.realLen ≤ realLine.length ∧
    plan.forwardFft.scratchLen ≤ scratch.length)
  let (line, used) := plan.forwardFft.leaves row (scratch.take plan.forwardFft.scratchLen)
  return (if plan.forwardFft.accepts row then .ok () else .error .panic,
    plan.forwardFft.transform row, line ++ realLine.drop plan.realLen,
    used ++ scratch.drop plan.forwardFft.scratchLen)

/-- What a caller of the out-of-place forward transform lends. -/
structure ForwardBuffers (R : Type) where
  dst : List (ComplexValue R)
  realLine : List R
  scratch : List (ComplexValue R)
deriving Repr, DecidableEq

/-- One row out of place.

SOURCE: r2c.rs:444-455 -/
def forwardRound (src : List R) (batch : ℕ) (buffers : ForwardBuffers R) :
    Outcome (ForwardBuffers R) :=
  match plan.forwardRow (lineAt plan.realLen src batch) buffers.realLine buffers.scratch with
  | none => (.error .panic, buffers)
  | some (result, row, realLine, scratch) =>
    (result, ⟨withLine plan.complexLen buffers.dst batch row, realLine, scratch⟩)

/-- SOURCE: r2c.rs:431-458 -/
def forward (src : List R) (buffers : ForwardBuffers R) : Outcome (ForwardBuffers R) :=
  match plan.validateForward src.length buffers.dst.length buffers.realLine.length
      buffers.scratch.length with
  | .error e => (.error (.error e), buffers)
  | .ok () =>
    if src.isEmpty then (.ok (), buffers)
    else runRounds (plan.forwardRound src) (List.range (min (src.length / plan.realLen)
      (buffers.dst.length / plan.complexLen))) buffers

/-- The array and the workspace that an in-place call borrows. -/
abbrev InPlace (R : Type) : Type := LocalR2cInPlaceArray R × LocalR2cInPlaceWorkspace R

/-- One row in place.

SOURCE: r2c.rs:533-552 -/
def forwardRoundInPlace (batch : ℕ) (s : InPlace R) : Outcome (InPlace R) :=
  if s.1.storage.length < (batch + 1) * plan.complexLen then (.error .panic, s)
  else match plan.forwardRow (lineAt plan.realLen (scalars s.1.storage) batch) s.2.realLine
      s.2.scratch with
  | none => (.error .panic, s)
  | some (result, row, realLine, scratch) =>
    (result, { s.1 with storage := withLine plan.complexLen s.1.storage batch row },
      { s.2 with realLine, scratch })

/-- A call that poisons the array, runs the rounds and leaves another state. -/
def completing (round : ℕ → InPlace R → Outcome (InPlace R)) (batches : List ℕ) (done : R2cState)
    (s : InPlace R) : Outcome (InPlace R) :=
  match runRounds round batches ({ s.1 with state := .poisoned }, s.2) with
  | (.ok (), s) => (.ok (), { s.1 with state := done }, s.2)
  | (.error e, s) => (.error e, s)

section Calls

variable [Field R] [DecidableEq R]

/-- SOURCE: r2c.rs:525-554 -/
def forwardInPlace (realSize : ℕ) (s : InPlace R) : Outcome (InPlace R) :=
  match plan.validateInPlace realSize s.1 s.2 .realInput with
  | .error e => (.error e, s)
  | .ok batchCount =>
    completing plan.forwardRoundInPlace (List.range batchCount).reverse .complexOutput s

/-! ### Inverse -/

/-- SOURCE: r2c.rs:665-677 -/
def convertInverseError (batch : ℕ) : InverseVerdict → Except (Stop LocalR2cError) Unit
  | .accepted => .ok ()
  | .inputValues first _ =>
    .error (.error (.invalidSpectrumEndpoint batch (if first then 0 else plan.complexLen - 1)))
  | .failed => .error .panic

/-- SOURCE: r2c.rs:679-685 -/
def inverseScale (normalize : Bool) : Option R :=
  if normalize then some (1 / plan.realLen) else none

/-- What a transform back leaves in its row.  A row that the library complains about is not
scaled. -/
def inverseValues (normalize : Bool) (row : List (ComplexValue R)) : List R :=
  let values := plan.inverseFft.transform row
  match plan.inverseFft.verdict row, plan.inverseScale normalize with
  | .accepted, some scale => values.map (· * scale)
  | _, _ => values

/-- A row of a transform back. -/
def inverseRow (normalize : Bool) (batch : ℕ) (row complexLine scratch : List (ComplexValue R)) :
    Option (Except (Stop LocalR2cError) Unit × List R × List (ComplexValue R) ×
      List (ComplexValue R)) := do
  guard (row.length = plan.complexLen ∧ plan.complexLen ≤ complexLine.length ∧
    plan.inverseFft.scratchLen ≤ scratch.length)
  let (line, used) := plan.inverseFft.leaves row (scratch.take plan.inverseFft.scratchLen)
  return (plan.convertInverseError batch (plan.inverseFft.verdict row),
    plan.inverseValues normalize row, line ++ complexLine.drop plan.complexLen,
    used ++ scratch.drop plan.inverseFft.scratchLen)

/-- What a caller of an out-of-place transform back lends. -/
structure InverseBuffers (R : Type) where
  dst : List R
  complexLine : List (ComplexValue R)
  scratch : List (ComplexValue R)
deriving Repr, DecidableEq

/-- SOURCE: r2c.rs:643-661 -/
def inverseRound (normalize : Bool) (src : List (ComplexValue R)) (batch : ℕ)
    (buffers : InverseBuffers R) : Outcome (InverseBuffers R) :=
  match plan.inverseRow normalize batch (lineAt plan.complexLen src batch) buffers.complexLine
      buffers.scratch with
  | none => (.error .panic, buffers)
  | some (result, row, complexLine, scratch) =>
    (result, ⟨withLine plan.realLen buffers.dst batch row, complexLine, scratch⟩)

/-- SOURCE: r2c.rs:626-663 -/
def executeInverse (normalize : Bool) (src : List (ComplexValue R)) (buffers : InverseBuffers R) :
    Outcome (InverseBuffers R) :=
  match plan.validateInverse src.length buffers.dst.length buffers.complexLine.length
      buffers.scratch.length with
  | .error e => (.error (.error e), buffers)
  | .ok () =>
    match plan.validateEndpoints src with
    | .error e => (.error e, buffers)
    | .ok () =>
      if src.isEmpty then (.ok (), buffers)
      else runRounds (plan.inverseRound normalize src) (List.range
        (min (src.length / plan.complexLen) (buffers.dst.length / plan.realLen))) buffers

/-- One row in place.

SOURCE: r2c.rs:595-620 -/
def inverseRoundInPlace (normalize : Bool) (batch : ℕ) (s : InPlace R) : Outcome (InPlace R) :=
  if (scalars s.1.storage).length < (batch + 1) * plan.realLen then (.error .panic, s)
  else match plan.inverseRow normalize batch (lineAt plan.complexLen s.1.storage batch)
      s.2.complexLine s.2.scratch with
  | none => (.error .panic, s)
  | some (result, row, complexLine, scratch) =>
    let storage := ofScalars (withLine plan.realLen (scalars s.1.storage) batch row)
    (result, { s.1 with storage }, { s.2 with complexLine, scratch })

/-- SOURCE: r2c.rs:585-624 -/
def executeInPlaceInverse (realSize : ℕ) (normalize : Bool) (s : InPlace R) :
    Outcome (InPlace R) :=
  match plan.validateInPlace realSize s.1 s.2 .complexOutput with
  | .error e => (.error e, s)
  | .ok batchCount =>
    completing (plan.inverseRoundInPlace normalize) (List.range batchCount) .realInput s

/-- SOURCE: r2c.rs:489-497 -/
def inverse (src : List (ComplexValue R)) (buffers : InverseBuffers R) :
    Outcome (InverseBuffers R) := plan.executeInverse true src buffers

/-- SOURCE: r2c.rs:506-514 -/
def backward (src : List (ComplexValue R)) (buffers : InverseBuffers R) :
    Outcome (InverseBuffers R) := plan.executeInverse false src buffers

/-- SOURCE: r2c.rs:563-569 -/
def inverseInPlace (realSize : ℕ) (s : InPlace R) : Outcome (InPlace R) :=
  plan.executeInPlaceInverse realSize true s

/-- SOURCE: r2c.rs:577-583 -/
def backwardInPlace (realSize : ℕ) (s : InPlace R) : Outcome (InPlace R) :=
  plan.executeInPlaceInverse realSize false s

end Calls

end LocalR2cPlan

/-! ## Users -/

/-- What a user does to an array, with any plan and any workspace. -/
inductive Operation (R : Type) where
  | forward (plan : LocalR2cPlan R) (workspace : LocalR2cInPlaceWorkspace R)
  | inverse (plan : LocalR2cPlan R) (workspace : LocalR2cInPlaceWorkspace R)
  | backward (plan : LocalR2cPlan R) (workspace : LocalR2cInPlaceWorkspace R)
  | editReal (edit : List R → List R)
  | editComplex (edit : List (ComplexValue R) → List (ComplexValue R))

/-- A call and its result, or an edit. -/
def Operation.run [Field R] [DecidableEq R] (realSize : ℕ) (array : LocalR2cInPlaceArray R) :
    Operation R → Option (Except (Stop LocalR2cError) Unit) × LocalR2cInPlaceArray R
  | .forward plan workspace =>
    let (result, array, _) := plan.forwardInPlace realSize (array, workspace)
    (some result, array)
  | .inverse plan workspace =>
    let (result, array, _) := plan.inverseInPlace realSize (array, workspace)
    (some result, array)
  | .backward plan workspace =>
    let (result, array, _) := plan.backwardInPlace realSize (array, workspace)
    (some result, array)
  | .editReal edit => (none, array.editReal edit)
  | .editComplex edit => (none, array.editComplex edit)

/-- A history and its results. -/
def runOperations [Field R] [DecidableEq R] (realSize : ℕ) :
    LocalR2cInPlaceArray R → List (Operation R) →
      List (Option (Except (Stop LocalR2cError) Unit)) × LocalR2cInPlaceArray R
  | array, [] => ([], array)
  | array, op :: ops =>
    let (result, array) := op.run realSize array
    let (results, array) := runOperations realSize array ops
    (result :: results, array)

end R2c

end PencilRs.Model
