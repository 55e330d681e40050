import PencilRs.Computation.Buffer
import PencilRs.Model.Descriptor
import PencilRs.Model.View

/-!
# Broadcasting traversals

Several views with one spatial layout are visited together.  An extra axis of extent one is
repeated along the extent of the others.  The collective reductions have a traversal for pairs,
one for triples and one for slices of views; the pointwise operations write an output view.
Here a traversal lists what it hands to its callback, in order; `none` is a panic.

`grants k` says whether the allocator grants the `k`-th reservation of a call.

SOURCE: pencil-array/src/collectives.rs, pointwise.rs
-/

set_option autoImplicit false

namespace PencilRs.Model

open PencilRs.Computation

variable {N M : ℕ} {α β δ υ σ : Type}

/-! ## Shapes and strides -/

def broadcastExtent (a b : ℕ) : Option ℕ :=
  if a = b then some a else if a = 1 then some b else if b = 1 then some a else none

/-- SOURCE: collectives.rs:1824-1850 -/
def broadcastShape (granted : Bool) (left right : ExtraShape) :
    Except CollectiveError (Option (List ℕ)) :=
  if left.dimensions.length ≠ right.dimensions.length then .ok none
  else if !granted then .error (.allocationFailed left.dimensions.length)
  else .ok ((left.dimensions.zip right.dimensions).mapM fun (a, b) => broadcastExtent a b)

/-- SOURCE: collectives.rs:1438-1448 -/
def broadcastShape3 (grants : ℕ → Bool) (a b d : ExtraShape) :
    Except CollectiveError (Option (List ℕ)) := do
  let ab ← broadcastShape (grants 0) a b
  let ab ← okOr ab .collectivePreconditionFailed
  let ab ← (ExtraShape.new ab).mapError fun _ => .preparationFailed
  broadcastShape (grants 1) ab d

/-- SOURCE: collectives.rs:1852-1854 -/
def extraCount (shape : List ℕ) : Except CollectiveError ℕ :=
  (checkedProduct shape).mapError fun _ => .countOverflow

/-- SOURCE: collectives.rs:1450-1465 -/
def stridesForDims (granted : Bool) (dims : List ℕ) : Except CollectiveError (List ℕ) :=
  if !granted then .error (.allocationFailed dims.length)
  else do
    let (out, _) ← dims.reverse.foldlM (fun (out, stride) dim => do
      let next ← okOr (checkedMul stride dim) CollectiveError.countOverflow
      return (out ++ [stride], next)) ([], 1)
    return out.reverse

/-! ## Plans of the reductions -/

structure MapPlan where
  shape : List ℕ
  leftStrides : List ℕ
  rightStrides : List ℕ
  outputStrides : List ℕ
  spatial : ℕ
  count : ℕ
  globalCount : ℕ
deriving Repr, DecidableEq

structure MapPlan3 where
  shape : List ℕ
  strides : List ℕ × List ℕ × List ℕ
  outputStrides : List ℕ
  spatial : ℕ
  count : ℕ
deriving Repr, DecidableEq

/-- The buffer `offsets` is emptied before each use and is left out. -/
structure ManyPlan where
  shape : List ℕ
  strides : List (List ℕ)
  outputStrides : List ℕ
  spatial : ℕ
  extra : ℕ
  globalCount : ℕ
deriving Repr, DecidableEq

/-- What `prepare_map_reduce2` computes on a rank once the ranks agree on the descriptor.

SOURCE: collectives.rs:1761-1811 -/
def mapPlan (grants : ℕ → Bool) (left : PencilArrayView α N M) (right : PencilArrayView β N M) :
    Except CollectiveError MapPlan := do
  let shape ← broadcastShape (grants 0) left.extraShape right.extraShape
  ensure (left.pencil.sameLayout right.pencil) .collectivePreconditionFailed
  let shape ← okOr shape .collectivePreconditionFailed
  let extra := (extraCount shape).toOption
  let (leftStrides, rightStrides, outputStrides) ← (
    if extra = some 0 then .ok ([], [], []) else do
      let leftStrides ← stridesForDims (grants 1) left.extraShape.dimensions
      let rightStrides ← stridesForDims (grants 2) right.extraShape.dimensions
      let outputStrides ← stridesForDims (grants 3) shape
      return (leftStrides, rightStrides, outputStrides))
  let count ← okOr (extra.bind (checkedMul left.pencil.localLen)) .countOverflow
  let globalCount ← okOr (extra.bind (checkedMul left.pencil.globalLen)) .countOverflow
  return {
    shape, leftStrides, rightStrides, outputStrides, count, globalCount
    spatial := left.pencil.localLen }

/-- What `prepare_map_reduce3` computes on a rank once the ranks agree on the descriptor;
`congruent` is what MPI says when it compares a communicator with the caller's.

SOURCE: collectives.rs:1375-1436 -/
def mapPlan3 (grants : ℕ → Bool) (congruent : MpiTopology M → Bool) (a : PencilArrayView α N M)
    (b : PencilArrayView β N M) (d : PencilArrayView δ N M) : Except CollectiveError MapPlan3 := do
  let shape ← (broadcastShape3 grants a.extraShape b.extraShape d.extraShape).mapError fun _ =>
    .collectivePreconditionFailed
  ensure (a.pencil.sameLayout b.pencil && a.pencil.sameLayout d.pencil
    && congruent a.pencil.topology && congruent b.pencil.topology && congruent d.pencil.topology)
    .collectivePreconditionFailed
  let shape ← okOr shape .collectivePreconditionFailed
  let extra := (extraCount shape).toOption
  let strides : Except CollectiveError _ :=
    if extra = some 0 then .ok (([], [], []), []) else do
      let aStrides ← stridesForDims (grants 2) a.extraShape.dimensions
      let bStrides ← stridesForDims (grants 3) b.extraShape.dimensions
      let dStrides ← stridesForDims (grants 4) d.extraShape.dimensions
      let outputStrides ← stridesForDims (grants 5) shape
      return ((aStrides, bStrides, dStrides), outputStrides)
  let (strides, outputStrides) ← strides.mapError fun _ => .preparationFailed
  let extra ← okOr extra .countOverflow
  let count ← okOr (checkedMul a.pencil.localLen extra) .countOverflow
  let _ ← okOr (checkedMul a.pencil.globalLen extra) .countOverflow
  return { shape, strides, outputStrides, count, spatial := a.pencil.localLen }

/-- One round of the loop over the inputs after the first. -/
def broadcastStep (grants : ℕ → Bool) (shape : List ℕ) (entry : PencilArrayView α N M × ℕ) :
    Except CollectiveError (List ℕ) := do
  let shape ← (ExtraShape.new shape).mapError fun _ => .preparationFailed
  let next ← broadcastShape (grants (entry.2 + 1)) shape entry.1.extraShape
  okOr next .collectivePreconditionFailed

/-- What `prepare_map_reduce_many` computes on a rank besides the descriptor.

SOURCE: collectives.rs:1573-1660 -/
def manyPlan (grants : ℕ → Bool) (congruent : MpiTopology M → Bool)
    (inputs : List (PencilArrayView α N M)) : Except CollectiveError ManyPlan :=
  match inputs with
  | [] => .error .collectivePreconditionFailed
  | first :: rest => do
    ensure (grants 0) (.allocationFailed first.extraShape.dimensions.length)
    let shape ← rest.zipIdx.foldlM (broadcastStep grants) first.extraShape.dimensions
    let extra ← extraCount shape
    let (strides, outputStrides) ← (
      if extra = 0 then .ok ([], []) else do
        ensure (grants inputs.length) (.allocationFailed inputs.length)
        let strides ← inputs.zipIdx.mapM fun (input, k) =>
          stridesForDims (grants (inputs.length + 1 + k)) input.extraShape.dimensions
        let outputStrides ← stridesForDims (grants (2 * inputs.length + 1)) shape
        return (strides, outputStrides))
    let _ ← okOr (checkedMul first.pencil.localLen extra) CollectiveError.countOverflow
    let globalCount ← okOr (checkedMul first.pencil.globalLen extra) .countOverflow
    ensure (inputs.all fun input =>
      input.pencil.sameLayout first.pencil && congruent input.pencil.topology)
      .collectivePreconditionFailed
    return { shape, strides, outputStrides, extra, globalCount, spatial := first.pencil.localLen }

/-! ## Traversals of the reductions -/

/-- `(linear / output_strides[axis]) % shape[axis]` -/
def axisIndex (shape outputStrides : List ℕ) (linear axis : ℕ) : Option ℕ := do
  let stride ← outputStrides[axis]?
  let quotient ← checkedDiv linear stride
  let extent ← shape[axis]?
  checkedRem quotient extent

/-- `if dims[axis] != 1 { base += index * strides[axis] }` -/
def addAxis (dims strides : List ℕ) (axis index base : ℕ) : Option ℕ := do
  let extent ← dims[axis]?
  if extent = 1 then return base
  let stride ← strides[axis]?
  let term ← checkedMul index stride
  checkedAdd base term

/-- `storage[base * spatial + k]` -/
def elementAt (storage : List α) (base spatial k : ℕ) : Option α := do
  let offset ← checkedMul base spatial
  let position ← checkedAdd offset k
  storage[position]?

/-- SOURCE: collectives.rs:1855-1885 -/
def forEachPair (left : PencilArrayView α N M) (right : PencilArrayView β N M) (plan : MapPlan) :
    Option (List (α × β)) :=
  if plan.count = 0 then some []
  else do
    let extra ← checkedDiv plan.count plan.spatial
    (List.range extra).foldlM (fun visited linear => do
      let (li, ri) ← (List.range plan.shape.length).foldlM (fun (li, ri) axis => do
        let index ← axisIndex plan.shape plan.outputStrides linear axis
        let li ← addAxis left.extraShape.dimensions plan.leftStrides axis index li
        let ri ← addAxis right.extraShape.dimensions plan.rightStrides axis index ri
        return (li, ri)) (0, 0)
      (List.range plan.spatial).foldlM (fun visited k => do
        let l ← elementAt left.storage li plan.spatial k
        let r ← elementAt right.storage ri plan.spatial k
        return visited ++ [(l, r)]) visited) []

/-- The loop over the axes of one of the three inputs. -/
def tripleIndex (dims strides shape outputStrides : List ℕ) (linear : ℕ) : Option ℕ :=
  (List.range dims.length).foldlM (fun ix axis => do
    let i ← axisIndex shape outputStrides linear axis
    addAxis dims strides axis i ix) 0

/-- SOURCE: collectives.rs:1467-1506 -/
def forEachTriple (a : PencilArrayView α N M) (b : PencilArrayView β N M)
    (d : PencilArrayView δ N M) (p : MapPlan3) : Option (List (α × β × δ)) :=
  if p.spatial = 0 then some []
  else do
    let extra ← checkedDiv p.count p.spatial
    (List.range extra).foldlM (fun visited linear => do
      let ia ← tripleIndex a.extraShape.dimensions p.strides.1 p.shape p.outputStrides linear
      let ib ← tripleIndex b.extraShape.dimensions p.strides.2.1 p.shape p.outputStrides linear
      let id ← tripleIndex d.extraShape.dimensions p.strides.2.2 p.shape p.outputStrides linear
      (List.range p.spatial).foldlM (fun visited k => do
        let x ← elementAt a.storage ia p.spatial k
        let y ← elementAt b.storage ib p.spatial k
        let z ← elementAt d.storage id p.spatial k
        return visited ++ [(x, y, z)]) visited) []

/-- SOURCE: collectives.rs:1663-1696 -/
def forEachMany (inputs : List (PencilArrayView α N M)) (p : ManyPlan) :
    Option (List (List α)) :=
  if p.spatial = 0 then some []
  else
    (List.range p.extra).foldlM (fun visited linear => do
      let offsets ← inputs.zipIdx.mapM fun (input, q) => do
        let i ← (List.range p.shape.length).foldlM (fun i axis => do
          let x ← axisIndex p.shape p.outputStrides linear axis
          let strides ← p.strides[q]?
          addAxis input.extraShape.dimensions strides axis x i) 0
        checkedMul i p.spatial
      (List.range p.spatial).foldlM (fun visited k => do
        let refs ← (offsets.zip inputs).mapM fun (offset, input) => do
          let position ← checkedAdd offset k
          input.storage[position]?
        return visited ++ [refs]) visited) []

/-! ## Pointwise operations -/

inductive PointwiseError where
  | incompatiblePencils
  | extraRankMismatch (expected actual : ℕ)
  | extraExtentMismatch (axis output input : ℕ)
  | array (error : ArrayError)
deriving Repr, DecidableEq

inductive MultiInputError where
  | emptyInputs
  | input (index : ℕ) (source : PointwiseError)
  | array (error : ArrayError)
deriving Repr, DecidableEq

/-- SOURCE: pointwise.rs:135-151 -/
def pointwiseStrides (granted : Bool) (dims : List ℕ) : Except PointwiseError (List ℕ) :=
  if !granted then .error (.array (.allocationFailed dims.length))
  else do
    let (out, _) ← (List.range dims.length).reverse.foldlM (fun (out, stride) i => do
      let next ← okOr (checkedMul stride (dims.getD i 0))
        (PointwiseError.array (.allocationFailed (usizeLimit - 1)))
      return (out.set i stride, next)) (List.replicate dims.length 1, 1)
    return out

/-- SOURCE: pointwise.rs:176-193 -/
def validateExtents (input output : List ℕ) : Except PointwiseError Unit :=
  if input.length ≠ output.length then .error (.extraRankMismatch output.length input.length)
  else (input.zip output).zipIdx.forM fun ((extent, outputExtent), axis) =>
    if extent ≠ outputExtent ∧ extent ≠ 1 then
      .error (.extraExtentMismatch axis outputExtent extent)
    else .ok ()

/-- SOURCE: pointwise.rs:157-173 -/
def validateTwoInputs (left : PencilArrayView α N M) (right : PencilArrayView β N M)
    (outputPencil : Pencil N M) (outputDimensions : List ℕ) : Except PointwiseError Unit := do
  ensure (left.pencil.sameLayout right.pencil && left.pencil.sameLayout outputPencil)
    .incompatiblePencils
  validateExtents left.extraShape.dimensions outputDimensions
  validateExtents right.extraShape.dimensions outputDimensions

/-- The sum of the indices times the strides, over the axes.

SOURCE: pointwise.rs:195-213 -/
def broadcastLinear (out : ℕ) (outputDims dims strides outputStrides : List ℕ) : Option ℕ := do
  let indices ← (List.range outputDims.length).mapM fun axis => do
    let index ← axisIndex outputDims outputStrides out axis
    let extent ← dims[axis]?
    return if extent = 1 then 0 else index
  let terms ← (indices.zip strides).mapM fun (i, s) => checkedMul i s
  terms.foldlM checkedAdd 0

structure OutputPlan where
  dims : List ℕ
  strides : List ℕ
  spatial : ℕ
  extraCount : ℕ
deriving Repr, DecidableEq

/-- SOURCE: pointwise.rs:233-241 -/
def copyDims (granted : Bool) (dims : List ℕ) : Except PointwiseError (List ℕ) :=
  if granted then .ok dims else .error (.array (.allocationFailed dims.length))

namespace OutputPlan

/-- The plan and the dimensions and strides of the first input.

SOURCE: pointwise.rs:262-297 -/
def new (grants : ℕ → Bool) (first : PencilArrayView α N M) (outputPencil : Pencil N M)
    (outputDimensions : List ℕ) : Except PointwiseError (OutputPlan × List ℕ × List ℕ) := do
  ensure (first.pencil.sameLayout outputPencil) .incompatiblePencils
  validateExtents first.extraShape.dimensions outputDimensions
  let dims ← copyDims (grants 0) outputDimensions
  let firstDims ← copyDims (grants 1) first.extraShape.dimensions
  let spatial := outputPencil.localLen
  let extraCount ← (checkedProduct dims).mapError fun e => .array (.geometry e)
  let _ ← okOr (checkedMul spatial extraCount)
    (PointwiseError.array (.allocationFailed (usizeLimit - 1)))
  let (strides, firstStrides) ← (
    if extraCount = 0 then .ok ([], []) else do
      let strides ← pointwiseStrides (grants 2) dims
      let firstStrides ← pointwiseStrides (grants 3) firstDims
      return (strides, firstStrides))
  return ({ dims, strides, spatial, extraCount }, firstDims, firstStrides)

/-- SOURCE: pointwise.rs:300-318 -/
def input (plan : OutputPlan) (grants : ℕ → Bool) (outputPencil : Pencil N M)
    (view : PencilArrayView α N M) : Except PointwiseError (List ℕ × List ℕ) := do
  ensure (view.pencil.sameLayout outputPencil) .incompatiblePencils
  validateExtents view.extraShape.dimensions plan.dims
  let dims ← copyDims (grants 0) view.extraShape.dimensions
  let strides ← (if plan.extraCount = 0 then .ok [] else pointwiseStrides (grants 1) dims)
  return (dims, strides)

/-- `n * plan.spatial + k`, the position written in the output. -/
def position (plan : OutputPlan) (n k : ℕ) : Option ℕ := do
  let offset ← checkedMul n plan.spatial
  checkedAdd offset k

end OutputPlan

/-- A callback that may change its state at every call. -/
abbrev PointwiseCallback (σ γ υ : Type) : Type := σ → γ → υ × σ

/-- `os[i] = f(args)` -/
def callInto {γ : Type} (f : PointwiseCallback σ γ υ) (os : Buf υ × σ) (i : ℕ) (args : γ) :
    Option (Buf υ × σ) := do
  let (value, state) := f os.2 args
  let buf ← os.1.store 0 os.1.cells.length i value
  return (buf, state)

/-- SOURCE: pointwise.rs:40-72 -/
def pointwise2Views (grants : ℕ → ℕ → Bool) (left : PencilArrayView α N M)
    (right : PencilArrayView β N M) (output : PencilArrayView υ N M)
    (f : PointwiseCallback σ (α × β) υ) (state : σ) :
    Except PointwiseError (Option (Buf υ × σ)) := do
  validateTwoInputs left right output.pencil output.extraShape.dimensions
  let (plan, leftDims, leftStrides) ←
    OutputPlan.new (grants 0) left output.pencil output.extraShape.dimensions
  let (rightDims, rightStrides) ← plan.input (grants 1) output.pencil right
  if plan.spatial = 0 then return some (.fresh output.storage, state)
  else return (List.range plan.extraCount).foldlM (fun os n => do
    let li ← broadcastLinear n plan.dims leftDims leftStrides plan.strides
    let ri ← broadcastLinear n plan.dims rightDims rightStrides plan.strides
    (List.range plan.spatial).foldlM (fun os k => do
      let i ← plan.position n k
      let l ← elementAt left.storage li plan.spatial k
      let r ← elementAt right.storage ri plan.spatial k
      callInto f os i (l, r)) os) (.fresh output.storage, state)

/-- SOURCE: pointwise.rs:482-524 -/
def pointwise3Views (grants : ℕ → ℕ → Bool) (a : PencilArrayView α N M)
    (b : PencilArrayView β N M) (c : PencilArrayView δ N M) (output : PencilArrayView υ N M)
    (f : PointwiseCallback σ (α × β × δ) υ) (state : σ) :
    Except MultiInputError (Option (Buf υ × σ)) := do
  let (plan, aDims, aStrides) ←
    (OutputPlan.new (grants 0) a output.pencil output.extraShape.dimensions).mapError (.input 0)
  let (bDims, bStrides) ← (plan.input (grants 1) output.pencil b).mapError (.input 1)
  let (cDims, cStrides) ← (plan.input (grants 2) output.pencil c).mapError (.input 2)
  if plan.spatial = 0 then return some (.fresh output.storage, state)
  else return (List.range plan.extraCount).foldlM (fun os n => do
    let ai ← broadcastLinear n plan.dims aDims aStrides plan.strides
    let bi ← broadcastLinear n plan.dims bDims bStrides plan.strides
    let ci ← broadcastLinear n plan.dims cDims cStrides plan.strides
    (List.range plan.spatial).foldlM (fun os k => do
      let i ← plan.position n k
      let x ← elementAt a.storage ai plan.spatial k
      let y ← elementAt b.storage bi plan.spatial k
      let z ← elementAt c.storage ci plan.spatial k
      callInto f os i (x, y, z)) os) (.fresh output.storage, state)

/-- The plan and the dimensions and strides of every input.

SOURCE: pointwise.rs:320-347 -/
def pointwiseManyPlan (grants : ℕ → ℕ → Bool) (inputs : List (PencilArrayView α N M))
    (output : PencilArrayView υ N M) :
    Except MultiInputError (OutputPlan × List (List ℕ × List ℕ)) :=
  match inputs with
  | [] => .error .emptyInputs
  | first :: rest => do
    let (plan, firstStrides) ←
      (OutputPlan.new (grants 0) first output.pencil output.extraShape.dimensions).mapError
        (.input 0)
    ensure (grants inputs.length 0) (.array (.allocationFailed inputs.length))
    let strides ← rest.zipIdx.mapM fun (input, k) =>
      (plan.input (grants (k + 1)) output.pencil input).mapError (.input (k + 1))
    return (plan, firstStrides :: strides)

/-- SOURCE: pointwise.rs:354-384 -/
def pointwiseManyViews (grants : ℕ → ℕ → Bool) (inputs : List (PencilArrayView α N M))
    (output : PencilArrayView υ N M) (f : PointwiseCallback σ (List α) υ) (state : σ) :
    Except MultiInputError (Option (Buf υ × σ)) := do
  let (plan, inputStrides) ← pointwiseManyPlan grants inputs output
  if plan.spatial = 0 then return some (.fresh output.storage, state)
  else do
    ensure (grants (inputs.length + 1) 0) (.array (.allocationFailed inputs.length))
    return (List.range plan.extraCount).foldlM (fun os outLinear =>
      (List.range plan.spatial).foldlM (fun os k => do
        let refs ← (inputs.zip inputStrides).mapM fun (input, dims, strides) => do
          let linear ← broadcastLinear outLinear plan.dims dims strides plan.strides
          elementAt input.storage linear plan.spatial k
        let i ← plan.position outLinear k
        callInto f os i refs) os) (.fresh output.storage, state)

end PencilRs.Model
