import Mathlib.RingTheory.RootsOfUnity.Complex
import PencilRs.Analysis.C2cCalls

/-!
# The distributed transform is the transform

With exact local transforms a forward call leaves the transform of the source over the selected
axes, each with its sign; a backward call after it multiplies by the selected extents and an
inverse call undoes it.
-/

set_option autoImplicit false

namespace PencilRs.Analysis

open PencilRs.Computation PencilRs.Model
open Semantics.Ensures (Together)

variable {N M : ℕ} {K P : Type} [Field K] {topology : MpiTopology M}

/-! ## Axis after axis -/

/-- Stages along axes are transforms along a list of axes. -/
theorem appliedUpTo_alongAxes {act : ℕ → GlobalArray K N → GlobalArray K N} {order : ℕ → ℕ}
    {axis : ℕ → Fin N} {shape : Fin N → ℕ} {transform : Fin N → List K → List K} (n : ℕ)
    (h : ∀ k < n, act (order k) = alongStage (axis k) (shape (axis k)) (transform (axis k)))
    (array : GlobalArray K N) :
    appliedUpTo act order n array
      = fun e => alongAxes shape transform ((List.range n).map axis).reverse (array e) := by
  induction n with
  | zero => rfl
  | succ n ih =>
    rw [appliedUpTo_succ, ih fun k hk => h k (by omega), h n (by omega), List.range_succ,
      List.map_append, List.reverse_append]
    rfl

/-- The axes in the order of the stages, the last stage first. -/
def axesVisited (hN : 0 < N) : List (Fin N) := ((List.range N).map (visitedAxis hN)).reverse

theorem nodup_axesVisited (hN : 0 < N) : (axesVisited hN).Nodup := by
  unfold axesVisited
  rw [List.nodup_reverse]
  refine List.Nodup.map_on ?_ List.nodup_range
  intro k hk l hl heq
  have hval : N - 1 - k = N - 1 - l := congrArg Fin.val heq
  have := List.mem_range.mp hk
  have := List.mem_range.mp hl
  omega

theorem mem_axesVisited (hN : 0 < N) (axis : Fin N) : axis ∈ axesVisited hN := by
  unfold axesVisited
  rw [List.mem_reverse, List.mem_map]
  refine ⟨N - 1 - axis, List.mem_range.mpr (by omega), Fin.ext ?_⟩
  have := axis.isLt
  show N - 1 - (N - 1 - (axis : ℕ)) = axis
  omega

theorem axesVisited_reverse (hN : 0 < N) :
    ((List.range N).map fun k => visitedAxis hN (N - 1 - k)).reverse = (axesVisited hN).reverse := by
  congr 1
  unfold axesVisited
  apply List.ext_getElem (by simp)
  intro k hk hk'
  simp

/-! ## Exact plans -/

section Exact

variable {ζ : ℕ → K} {env : Coords topology.processGrid → FftEnvironment K}
  {realScratchLen : P → ℕ} {args : Coords topology.processGrid → ConstructArgs N M}
  {cores : Coords topology.processGrid → TransformPlanCore P K N M} {hN : 0 < N}
  {route : ℕ → DistributedPencil topology N}

/-- The selected axes of a request. -/
def selectedAxes (request : ConstructArgs N M) : Finset (Fin N) :=
  Finset.univ.filter fun axis => request.selection.mask axis

/-- The root of an axis of a request. -/
def requestRoot (ζ : ℕ → K) (request : ConstructArgs N M) (axis : Fin N) : K :=
  signedRoot ζ (request.globalShape axis) (request.directions.direction axis)

/-- What a call does to the lines of an axis. -/
def axisTransform (ζ : ℕ → K) (request : ConstructArgs N M) (direction : Direction)
    (axis : Fin N) : List K → List K :=
  if request.selection.mask axis then
    signedTransform (requestRoot ζ request axis) (request.globalShape axis) direction
  else id

theorem length_axisTransform (request : ConstructArgs N M) (direction : Direction) (axis : Fin N)
    (values : List K) : (axisTransform ζ request direction axis values).length = values.length := by
  unfold axisTransform
  split
  · exact length_signedTransform _ _ _ _
  · rfl

/-- The local plan of every rank does to a line what the request says. -/
theorem StageAt.lineTransform_eq {env : FftEnvironment K} {args request : ConstructArgs N M}
    {core : TransformPlanCore P K N M} {k : ℕ} {axis : Fin N} {pencil : Pencil N M}
    {stage : TransformStage (LocalTransform P K) N M}
    (h : StageAt env realScratchLen args core k axis pencil stage)
    (hexact : ExactLibraries ζ env.libraries) (hagree : ArgsAgree args request)
    (hshape : args.globalShape = request.globalShape) (direction : Direction) {values : List K}
    (hvalues : values.length = request.globalShape axis) :
    lineTransform direction (transformAt core k) values
      = axisTransform ζ request direction axis values := by
  have htransform : transformAt core k = stage.localTransform := by
    unfold transformAt
    rw [h.get]
    rfl
  unfold axisTransform
  rw [htransform, ← hagree.requests.selection]
  obtain ⟨hselected, hidentity⟩ | ⟨hselected, plan, hplan, hplanned⟩ := h.prepared.planned
  · rw [hidentity, hselected]
    cases direction <;> rfl
  · rw [hplan, hselected, if_pos rfl]
    have hplan := planLine_exact hexact hplanned
    rw [hshape, hagree.directions] at hplan
    exact hplan.lineTransform_eq direction hvalues

theorem PlansHold.planAct_eq (h : PlansHold env realScratchLen args cores)
    (hroute : RouteOf env realScratchLen args cores hN route)
    (hexact : ∀ c, ExactLibraries ζ (env c).libraries) (direction : Direction) {k : ℕ}
    (hk : k < N) :
    planAct hN route cores direction k = alongStage (visitedAxis hN k)
      ((args topology.here).globalShape (visitedAxis hN k))
      (axisTransform ζ (args topology.here) direction (visitedAxis hN k)) := by
  have hshape : commonShape (route k) = (args topology.here).globalShape :=
    hroute.shape k topology.here
  funext array
  unfold planAct
  rw [hshape]
  refine ownedStage_eq (fun c values hvalues => ?_) array
  obtain ⟨stage, hat⟩ := hroute.stage c k hk
  exact hat.lineTransform_eq (hexact c) (h.agree c topology.here)
    (h.globalShape_eq c topology.here) direction hvalues

/-- What a call makes of the array, axis after axis. -/
theorem PlansHold.callResult_eq (h : PlansHold env realScratchLen args cores)
    (hroute : RouteOf env realScratchLen args cores hN route)
    (hexact : ∀ c, ExactLibraries ζ (env c).libraries) (direction : Direction)
    (array : GlobalArray K N) :
    callResult hN route cores direction array = fun e =>
      alongAxes (args topology.here).globalShape (axisTransform ζ (args topology.here) direction)
        (sourceEnd (axesVisited hN) (axesVisited hN).reverse direction) (array e) := by
  have hcount : N - 1 + 1 = N := by omega
  have hback : ∀ direction, backwards (planAct hN route cores direction) (N - 1) array = fun e =>
      alongAxes (args topology.here).globalShape (axisTransform ζ (args topology.here) direction)
        (axesVisited hN).reverse (array e) := by
    intro direction
    unfold backwards
    rw [hcount, appliedUpTo_alongAxes N fun k hk =>
      h.planAct_eq hroute hexact direction (show N - 1 - k < N by omega), axesVisited_reverse]
  cases direction with
  | forward =>
    show forwards (planAct hN route cores .forward) (N - 1) array = _
    unfold forwards
    rw [hcount]
    exact appliedUpTo_alongAxes N (fun k hk => h.planAct_eq hroute hexact .forward hk) array
  | inverse => exact hback .inverse
  | backward => exact hback .backward

/-- The transform that a request asks for. -/
def requestedDft (ζ : ℕ → K) (request : ConstructArgs N M) (array : GlobalArray K N) :
    GlobalArray K N :=
  fun e => multiDft request.globalShape (requestRoot ζ request) (selectedAxes request) (array e)

variable (hN) in
theorem alongAxes_requestedDft (request : ConstructArgs N M) (array : GlobalArray K N) (e : ℕ)
    {g : Fin N → ℕ} (hg : InBox request.globalShape g) :
    alongAxes request.globalShape (axisTransform ζ request .forward) (axesVisited hN) (array e) g
      = requestedDft ζ request array e g := by
  have hall : selectedAxes request ∩ (axesVisited hN).toFinset = selectedAxes request := by
    ext axis
    simp [mem_axesVisited]
  have hselected : ∀ axis ∈ selectedAxes request,
      axisTransform ζ request .forward axis = dftLine (requestRoot ζ request axis) := by
    intro axis hmem
    have hmask : request.selection.mask axis = true := by simpa [selectedAxes] using hmem
    unfold axisTransform
    rw [if_pos hmask]
    rfl
  have hother : ∀ axis ∉ selectedAxes request, axisTransform ζ request .forward axis = id := by
    intro axis hmem
    have hmask : request.selection.mask axis = false := by simpa [selectedAxes] using hmem
    unfold axisTransform
    rw [hmask]
    rfl
  unfold requestedDft
  rw [alongAxes_dft hselected hother (nodup_axesVisited hN) (array e) hg, hall]

/-- **There and back.** -/
theorem alongAxes_roundTrip (request : ConstructArgs N M)
    (hroot : ∀ n, 0 < n → IsPrimitiveRoot (ζ n) n) (hpos : ∀ axis, 0 < request.globalShape axis)
    {direction : Direction} (hdirection : direction ≠ .forward) (array : (Fin N → ℕ) → K)
    {g : Fin N → ℕ} (hg : InBox request.globalShape g) :
    alongAxes request.globalShape (axisTransform ζ request direction) (axesVisited hN).reverse
        (alongAxes request.globalShape (axisTransform ζ request .forward) (axesVisited hN) array) g
      = (∏ axis ∈ selectedAxes request, roundTripFactor (request.globalShape axis) direction)
          * array g := by
  let factor (axis : Fin N) : K :=
    if axis ∈ selectedAxes request then roundTripFactor (request.globalShape axis) direction else 1
  have hfactors : ((axesVisited hN).map factor).prod
      = ∏ axis ∈ selectedAxes request, roundTripFactor (request.globalShape axis) direction := by
    have huniv : (axesVisited hN).toFinset = Finset.univ := by
      ext axis
      simp [mem_axesVisited]
    rw [← List.prod_toFinset factor (nodup_axesVisited hN), huniv, Finset.prod_ite_mem,
      Finset.univ_inter]
  rw [← hfactors]
  refine alongAxes_reverse (fun axis values hvalues => ?_) (fun axis values hvalues => ?_)
    (fun axis => ?_) (axesVisited hN) array hg
  · rw [length_axisTransform, hvalues]
  · unfold axisTransform
    cases hmask : request.selection.mask axis with
    | true =>
      have hmem : axis ∈ selectedAxes request := by simp [selectedAxes, hmask]
      simp only [if_true, factor, if_pos hmem]
      exact signedTransform_roundTrip (hpos axis)
        (isPrimitiveRoot_signedRoot (hroot _ (hpos axis)) _) hdirection hvalues
    | false =>
      have hmem : axis ∉ selectedAxes request := by simp [selectedAxes, hmask]
      simp [factor, if_neg hmem]
  · unfold axisTransform
    split
    · exact homogeneous_signedTransform _ _ _
    · exact homogeneous_id

end Exact

/-! ## The plans compute the transform -/

section Plans

variable [Zero K]

omit [Field K] in
/-- The workspaces that a plan allocates are its own. -/
theorem isWorkspaceOf_allocate {core : TransformPlanCore P K N M} {alloc : WorkspaceAllocator}
    {workspace : C2cOutOfPlaceWorkspace K N M}
    (h : core.allocateOutOfPlaceWorkspace alloc = .ok workspace) : IsWorkspaceOf core workspace := by
  unfold TransformPlanCore.allocateOutOfPlaceWorkspace at h
  obtain ⟨intermediate, hintermediate, h⟩ := bind_eq_ok.mp h
  obtain ⟨transpose, _, h⟩ := bind_eq_ok.mp h
  obtain ⟨_, _, h⟩ := bind_eq_ok.mp h
  obtain ⟨_, _, h⟩ := bind_eq_ok.mp h
  obtain rfl := Except.ok.inj h
  unfold TransformPlanCore.allocateIntermediate at hintermediate
  obtain ⟨pencils, hpencils, hintermediate⟩ := bind_eq_ok.mp hintermediate
  unfold registeredPencils at hpencils
  obtain ⟨_, _, hpencils⟩ := bind_eq_ok.mp hpencils
  obtain rfl := Except.ok.inj hpencils
  intro _
  exact (fromElem_spec (mapError_eq_ok.mp hintermediate)).1

end Plans

/-- In every call out of place, plain or timed, of plans whose ends are `input` and `output`, sources
that hold `before` leave destinations that hold `after`; a call that fails does so on every rank. -/
def CallsLeave (extraShape : ExtraShape)
    (cores : Coords topology.processGrid → TransformPlanCore P K N M) (input output : DistributedPencil topology N)
    (direction : Direction) (before after : GlobalArray K N) : Prop :=
  ∀ (alloc : Coords topology.processGrid → CallAllocator)
    (environment : Coords topology.processGrid → FftEnvironment K) (timed : Bool)
    (source destination : Coords topology.processGrid → EndpointArray K N M)
    (workspace : Coords topology.processGrid → C2cOutOfPlaceWorkspace K N M),
    (∀ c, IsWorkspaceOf (cores c) (workspace c)) →
    (∀ c, HoldsBlock (source c).view.pencil (source c).view.extraShape.elementCount before
      (source c).view.storage) →
    Completes (Together
        (DestinationsHold extraShape (destinationEnd input output direction) after)
        (CallFails alloc (fun _ => c2cOperation (if timed then .timed else .plain) direction)
          (fun c => (cores c).preflight direction (source c) (destination c) (workspace c))
          (LiftedTransposeFails id)))
      fun c => ((cores c).execute (alloc c) (environment c) timed direction (source c)
        (destination c) (workspace c)).run

/-- The plans compute the transform that the arguments ask for, and undo it. -/
structure ComputesDft (ζ : ℕ → K) (args : Coords topology.processGrid → ConstructArgs N M)
    (cores : Coords topology.processGrid → TransformPlanCore P K N M)
    (input output : DistributedPencil topology N) : Prop where
  agree : ∀ c d, ArgsAgree (args c) (args d)
  inputPencil : ∀ c, (cores c).inputPencil = some (input.on c)
  outputPencil : ∀ c, (cores c).outputPencil = some (output.on c)
  inputShape : ∀ c, (input.on c).globalShape = (args topology.here).globalShape
  outputShape : ∀ c, (output.on c).globalShape = (args topology.here).globalShape
  forward : ∀ array, CallsLeave (args topology.here).extraShape cores input output .forward array
    (requestedDft ζ (args topology.here) array)
  backward : ∀ array, CallsLeave (args topology.here).extraShape cores input output .backward
    (requestedDft ζ (args topology.here) array) fun e g =>
      (∏ axis ∈ selectedAxes (args topology.here), ((args topology.here).globalShape axis : K))
        * array e g
  inverse : ∀ array, CallsLeave (args topology.here).extraShape cores input output .inverse
    (requestedDft ζ (args topology.here) array) array

section Plans

variable {ζ : ℕ → K} {env : Coords topology.processGrid → FftEnvironment K}
  {realScratchLen : P → ℕ} {args : Coords topology.processGrid → ConstructArgs N M}
  {cores : Coords topology.processGrid → TransformPlanCore P K N M} {hN : 0 < N}
  {route : ℕ → DistributedPencil topology N}

/-- The calls of the plans leave what the calls make of the array, up to the box. -/
theorem PlansHold.callsLeave (h : PlansHold env realScratchLen args cores)
    (hroute : RouteOf env realScratchLen args cores hN route) {direction : Direction}
    {before after : GlobalArray K N}
    (heq : ∀ e g, InBox (args topology.here).globalShape g →
      callResult hN route cores direction before e g = after e g) :
    CallsLeave (args topology.here).extraShape cores (route 0) (route (N - 1)) direction before
      after := by
  intro alloc environment timed source destination workspace howned hsource
  have hshape : commonShape (destinationEnd (route 0) (route (N - 1)) direction)
      = (args topology.here).globalShape := by
    cases direction <;> exact hroute.shape _ topology.here
  refine (h.execute_completes alloc environment hroute howned hsource timed).mono
    (fun _ h => h) fun r _ hr => hr.mono (fun states hstates c => ?_) fun _ h => h
  obtain ⟨hlen, hholds⟩ := hstates c
  refine ⟨hlen, hholds.congr_array fun e _ g hg => heq e g ?_⟩
  rw [← hshape]
  exact hg

/-- A reverse call of the plans on the transform of the array multiplies by the factors. -/
theorem PlansHold.callResult_reverse (h : PlansHold env realScratchLen args cores)
    (hroute : RouteOf env realScratchLen args cores hN route)
    (hexact : ∀ c, ExactLibraries ζ (env c).libraries) {direction : Direction}
    (hdirection : direction ≠ .forward) (array : GlobalArray K N) (e : ℕ) {g : Fin N → ℕ}
    (hg : InBox (args topology.here).globalShape g) :
    callResult hN route cores direction (requestedDft ζ (args topology.here) array) e g
      = (∏ axis ∈ selectedAxes (args topology.here),
          roundTripFactor ((args topology.here).globalShape axis) direction) * array e g := by
  have hpos : ∀ axis, 0 < (args topology.here).globalShape axis := by
    intro axis
    rw [← hroute.shape 0 topology.here]
    exact ((route 0).on topology.here).extents_pos axis
  have hends : sourceEnd (axesVisited hN) (axesVisited hN).reverse direction
      = (axesVisited hN).reverse := by
    cases direction with
    | forward => exact absurd rfl hdirection
    | inverse => rfl
    | backward => rfl
  rw [h.callResult_eq hroute hexact, hends]
  show alongAxes _ _ _ (requestedDft ζ (args topology.here) array e) g = _
  rw [alongAxes_congr _ (fun g hg => (alongAxes_requestedDft hN _ array e hg).symm) hg]
  exact alongAxes_roundTrip _ (hexact topology.here).root hpos hdirection (array e) hg

end Plans

/-! ### Over the complex numbers -/

/-- Rows of two ranks, to be transformed against `exp(2πi/n)` along the columns and against
`exp(-2πi/n)` along the rows. -/
def rowsRequest (c : Coords twoRanks.processGrid) : ConstructArgs 2 1 where
  globalShape := ![3, 2]
  extraShape := ExtraShape.scalar
  dimensions_lt := by decide
  input := .ok ((threeByTwo 0 AxisPermutation.identity).on c)
  inputAddress := 0
  selection := ⟨fun _ => true⟩
  layout := ⟨.allToAllv, true⟩
  directions := ⟨![.backward, .forward]⟩
  backend := .rustFft

/-- Every allocation of a constructor succeeds. -/
def grantedConstruction : ConstructAllocator where
  descriptor := true
  compared := (true, true)
  route := ⟨true, true⟩
  stages := true
  transitions := ⟨true, fun _ => ⟨⟨true, true, true⟩, fun _ => true⟩,
    fun _ => ⟨⟨true, true, true⟩, fun _ => true⟩⟩
  address := 0
  outputAddress := 1

/-- Double precision complex numbers and their libraries. -/
noncomputable def complexEnvironment : FftEnvironment ℂ where
  realSize := 8
  complexSize := 16
  elementType := ⟨16, 8, [0x43#8, 0x36#8, 0x34#8], [0x7a#8]⟩
  libraries := definingLibraries

end PencilRs.Analysis
