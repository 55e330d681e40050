import PencilRs.Computation.Update
import PencilRs.Model.LocalC2c

/-!
# Local transforms over several axes

A local plan over chosen axes of a column-major array transforms, for each axis in the order
given, every line along it: a line is copied to a line buffer, transformed into another one and
copied back.

SOURCE: pencil-fft/src/c2c_nd.rs
-/

set_option autoImplicit false

namespace PencilRs.Model

open PencilRs.Computation

variable {K : Type}

namespace C2cNd

/-- SOURCE: c2c_nd.rs:8-37 -/
inductive LocalC2cNdError where
  | invalidShape
  | sizeOverflow
  | axisOutOfRange (axis rank : ℕ)
  | duplicateAxis (axis : ℕ)
  | dataLength (expected actual : ℕ)
  | local (error : LocalC2cError)
deriving Repr, DecidableEq

/-- The scratch is a length: what it holds before a call is not read.

SOURCE: c2c_nd.rs:53-63 -/
structure AxisPlan (K : Type) where
  len : ℕ
  stride : ℕ
  outer : ℕ
  plan : LocalC2cPlan K
  lineIn : List K
  lineOut : List K
  scratchLen : ℕ

namespace AxisPlan

variable (axis : AxisPlan K)

/-- `outer * self.len * self.stride + inner + k * self.stride` -/
def index (outer inner k : ℕ) : Option ℕ := do
  let block ← checkedMul outer axis.len
  let base ← checkedMul block axis.stride
  let base ← checkedAdd base inner
  let step ← checkedMul k axis.stride
  checkedAdd base step

/-- One element into the line buffer.

SOURCE: c2c_nd.rs:69-72 -/
def gatherStep (data : List K) (outer inner : ℕ) (lineIn : List K) (k : ℕ) : Option (List K) := do
  let index ← axis.index outer inner k
  let value ← data[index]?
  if k < lineIn.length then some (lineIn.set k value) else none

/-- One element back to the array.

SOURCE: c2c_nd.rs:83-86 -/
def scatterStep (lineOut : List K) (outer inner : ℕ) (data : List K) (k : ℕ) :
    Option (List K) := do
  let index ← axis.index outer inner k
  let value ← lineOut[k]?
  if index < data.length then some (data.set index value) else none

variable [Field K]

/-- SOURCE: c2c_nd.rs:74-81 -/
def transformLine (inverse : Bool) (s : AxisPlan K × List K) :
    Except LocalC2cError (AxisPlan K × List K) := do
  let lineOut ← if inverse then s.1.plan.inverse s.1.lineIn s.1.lineOut s.1.scratchLen
    else s.1.plan.forward s.1.lineIn s.1.lineOut s.1.scratchLen
  return ({ s.1 with lineOut }, s.2)

def transform (inverse : Bool) : Update LocalC2cNdError (AxisPlan K × List K) Unit :=
  ExceptT.mk fun s => match transformLine inverse s with
    | .error e => some (.error (.local e), s)
    | .ok s => some (.ok (), s)

/-- One line.  What is borrowed is the plan with its line buffers, and the data. -/
def line (inverse : Bool) (outer inner : ℕ) :
    Update LocalC2cNdError (AxisPlan K × List K) Unit := do
  Update.modify fun s => do
    let lineIn ← (List.range axis.len).foldlM (axis.gatherStep s.2 outer inner) s.1.lineIn
    return ({ s.1 with lineIn }, s.2)
  transform inverse
  Update.modify fun s => do
    let data ← (List.range axis.len).foldlM (axis.scatterStep s.1.lineOut outer inner) s.2
    return (s.1, data)

/-- SOURCE: c2c_nd.rs:66-91 -/
def apply (inverse : Bool) : Update LocalC2cNdError (AxisPlan K × List K) Unit :=
  (List.range axis.outer).forM fun outer =>
    (List.range axis.stride).forM fun inner => axis.line inverse outer inner

end AxisPlan

/-- SOURCE: c2c_nd.rs:47-51 -/
structure LocalC2cNdPlan (K : Type) where
  shape : List ℕ
  totalLen : ℕ
  axes : List (AxisPlan K)

/-- SOURCE: c2c_nd.rs:198-210 -/
def validateShape (complexSize : ℕ) (shape : List ℕ) : Except LocalC2cNdError ℕ := do
  ensure (!shape.isEmpty && !shape.contains 0) .invalidShape
  let totalLen ← okOr (shape.foldlM checkedMul 1) .sizeOverflow
  ensure (isAddressable totalLen complexSize) .sizeOverflow
  return totalLen

/-- The plan of an axis.  Neither divisor is zero, because no extent is.

SOURCE: c2c_nd.rs:116-132 -/
def planAxis [Zero K] (libraries : FftLibraries K) (complexSize : ℕ) (shape : List ℕ)
    (totalLen axis : ℕ) : Except (Stop LocalC2cNdError) (AxisPlan K) := do
  let len ← okOr shape[axis]? .panic
  let stride ← okOr ((shape.take axis).foldlM checkedMul 1) .panic
  let outer := totalLen / len / stride
  let plan ← (LocalC2cPlan.newWithSign libraries complexSize len false).mapError fun e =>
    .error (.local e)
  return {
    len, stride, outer, plan
    lineIn := List.replicate len 0
    lineOut := List.replicate len 0
    scratchLen := plan.scratchLen }

/-- The loop that looks for an axis chosen twice.

SOURCE: c2c_nd.rs:109-113 -/
def checkDuplicates (axes : List ℕ) : Except LocalC2cNdError Unit :=
  axes.zipIdx.forM fun (axis, i) => ensure (!(axes.take i).contains axis) (.duplicateAxis axis)

/-- SOURCE: c2c_nd.rs:100-139 -/
def newColMajor [Zero K] (libraries : FftLibraries K) (complexSize : ℕ) (shape axes : List ℕ) :
    Except (Stop LocalC2cNdError) (LocalC2cNdPlan K) := do
  let totalLen ← (validateShape complexSize shape).mapError .error
  axes.forM fun axis =>
    ensure (axis < shape.length) (.error (.axisOutOfRange axis shape.length))
  (checkDuplicates axes).mapError .error
  let axes ← axes.mapM (planAxis libraries complexSize shape totalLen)
  return { shape, totalLen, axes }

variable [Field K]

/-- The loop over the axes; every axis borrows the data after the one before it. -/
def applyAxes (inverse : Bool) : List (AxisPlan K) → List K →
    Option (Except LocalC2cNdError Unit × List (AxisPlan K) × List K)
  | [], data => some (.ok (), [], data)
  | axis :: axes, data => do
    let (result, axis, data) ← (axis.apply inverse).runOn (axis, data)
    match result with
    | .error e => some (.error e, axis :: axes, data)
    | .ok () =>
      let (result, axes, data) ← applyAxes inverse axes data
      return (result, axis :: axes, data)

/-- The result, and the plan and the data that are left.

SOURCE: c2c_nd.rs:184-195 -/
def LocalC2cNdPlan.apply (plan : LocalC2cNdPlan K) (data : List K) (inverse : Bool) :
    Option (Except LocalC2cNdError Unit × LocalC2cNdPlan K × List K) :=
  if data.length ≠ plan.totalLen then
    some (.error (.dataLength plan.totalLen data.length), plan, data)
  else do
    let (result, axes, data) ← applyAxes inverse plan.axes data
    return (result, { plan with axes }, data)

/-- SOURCE: c2c_nd.rs:170-172 -/
def LocalC2cNdPlan.forward (plan : LocalC2cNdPlan K) (data : List K) :
    Option (Except LocalC2cNdError Unit × LocalC2cNdPlan K × List K) := plan.apply data false

/-- SOURCE: c2c_nd.rs:180-182 -/
def LocalC2cNdPlan.inverse (plan : LocalC2cNdPlan K) (data : List K) :
    Option (Except LocalC2cNdError Unit × LocalC2cNdPlan K × List K) := plan.apply data true

end C2cNd

end PencilRs.Model
