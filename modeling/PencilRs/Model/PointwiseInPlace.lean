import PencilRs.Computation.Update
import PencilRs.Model.Broadcast

/-!
# Pointwise operations in place

The output of these calls is also an input: at every position the callback gets what the output
holds there, and its value replaces it.  The output is borrowed with its contents; `left` is what
the call reads of it besides the contents.

SOURCE: pencil-array/src/pointwise.rs
-/

set_option autoImplicit false

namespace PencilRs.Model

open PencilRs.Computation

variable {N M : ℕ} {α β δ σ : Type}

/-- SOURCE: pointwise.rs:102-133 -/
def pointwise2InPlaceViews (grants : ℕ → ℕ → Bool) (left : PencilArrayView α N M)
    (right : PencilArrayView β N M) (f : PointwiseCallback σ (α × β) α) :
    Update PointwiseError (Buf α × σ) Unit := do
  Update.checked (validateTwoInputs left right left.pencil left.extraShape.dimensions)
  let (plan, leftDims, leftStrides) ← Update.checked
    (OutputPlan.new (grants 0) left left.pencil left.extraShape.dimensions)
  let (rightDims, rightStrides) ← Update.checked (plan.input (grants 1) left.pencil right)
  if plan.spatial = 0 then return ()
  else Update.modify fun os => (List.range plan.extraCount).foldlM (fun os n => do
    let li ← broadcastLinear n plan.dims leftDims leftStrides plan.strides
    let ri ← broadcastLinear n plan.dims rightDims rightStrides plan.strides
    (List.range plan.spatial).foldlM (fun os k => do
      let i ← plan.position n k
      let l ← elementAt os.1.cells li plan.spatial k
      let r ← elementAt right.storage ri plan.spatial k
      callInto f os i (l, r)) os) os

/-- SOURCE: pointwise.rs:541-574 -/
def pointwise3InPlaceViews (grants : ℕ → ℕ → Bool) (left : PencilArrayView α N M)
    (b : PencilArrayView β N M) (c : PencilArrayView δ N M)
    (f : PointwiseCallback σ (α × β × δ) α) : Update MultiInputError (Buf α × σ) Unit := do
  let (plan, bDims, bStrides) ← Update.checked
    ((OutputPlan.new (grants 0) b left.pencil left.extraShape.dimensions).mapError (.input 1))
  let (cDims, cStrides) ← Update.checked
    ((plan.input (grants 1) left.pencil c).mapError (.input 2))
  if plan.spatial = 0 then return ()
  else Update.modify fun os => (List.range plan.extraCount).foldlM (fun os n => do
    let bi ← broadcastLinear n plan.dims bDims bStrides plan.strides
    let ci ← broadcastLinear n plan.dims cDims cStrides plan.strides
    (List.range plan.spatial).foldlM (fun os k => do
      let i ← plan.position n k
      let x ← os.1.cells[i]?
      let y ← elementAt b.storage bi plan.spatial k
      let z ← elementAt c.storage ci plan.spatial k
      callInto f os i (x, y, z)) os) os

/-- SOURCE: pointwise.rs:411-458 -/
def pointwiseManyInPlaceViews (grants : ℕ → ℕ → Bool) (left : PencilArrayView α N M)
    (inputs : List (PencilArrayView α N M)) (f : PointwiseCallback σ (α × List α) α) :
    Update MultiInputError (Buf α × σ) Unit := do
  let (plan, plans) ← Update.checked (pointwiseManyPlan grants inputs left)
  Update.checked
    (ensure (grants (inputs.length + 1) 0) (.array (.allocationFailed inputs.length)))
  Update.modify fun os => (List.range plan.extraCount).foldlM (fun os outLinear =>
    (List.range plan.spatial).foldlM (fun os k => do
      let refs ← (inputs.zip plans).mapM fun (input, dims, strides) => do
        let i ← broadcastLinear outLinear plan.dims dims strides plan.strides
        elementAt input.storage i plan.spatial k
      let i ← plan.position outLinear k
      let x ← os.1.cells[i]?
      callInto f os i (x, refs)) os) os

end PencilRs.Model
