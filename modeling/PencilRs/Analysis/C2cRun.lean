import PencilRs.Analysis.C2cKernels

/-!
# Calls of a complex plan

The plans that a constructor leaves on the ranks form a pipeline.  A call whose preflight passes
on every rank leaves the transformed array in the destinations, or a transpose fails on every
rank.
-/

set_option autoImplicit false

namespace PencilRs.Analysis

open PencilRs.Computation PencilRs.Model
open Semantics.Ensures (Together together_adapt)

variable {N M : ℕ} {K P ε β : Type} {topology : MpiTopology M}

/-! ## The plans of all ranks -/

theorem extent_lt_usizeLimit (p : Pencil N M) (axis : Fin N) : p.globalShape axis < usizeLimit :=
  extent_lt p.extents_pos (globalShape_fits p) axis

/-- The axis that the stage in position `k` transforms. -/
def visitedAxis (h : 0 < N) (k : ℕ) : Fin N := ⟨N - 1 - k, by omega⟩

section Plans

variable {env : Coords topology.processGrid → FftEnvironment K} {realScratchLen : P → ℕ}
  {args : Coords topology.processGrid → ConstructArgs N M}
  {cores : Coords topology.processGrid → TransformPlanCore P K N M}

theorem PlansHold.two_le (h : PlansHold env realScratchLen args cores) : 2 ≤ N :=
  (h.plan topology.here).two_le

theorem PlansHold.pos (h : PlansHold env realScratchLen args cores) : 0 < N := by
  have := h.two_le
  omega

theorem PlansHold.extraShape_eq (h : PlansHold env realScratchLen args cores)
    (c d : Coords topology.processGrid) : (args c).extraShape = (args d).extraShape :=
  extraShape_ext (words64_inj (args c).dimensions_lt (args d).dimensions_lt
    (h.agree c d).requests.extraShape)

/-- What the plan of a rank has in position `k`. -/
structure StageAt (env : FftEnvironment K) (realScratchLen : P → ℕ) (args : ConstructArgs N M)
    (core : TransformPlanCore P K N M) (k : ℕ) (axis : Fin N) (pencil : Pencil N M)
    (stage : TransformStage (LocalTransform P K) N M) : Prop where
  get : core.stages[k]? = some stage
  input : stage.input = pencil
  prepared : StagePrepared env args.globalShape args.selection args.directions args.backend axis
    pencil stage
  scratch : stage.localTransform.scratchLen realScratchLen ≤ core.fftScratchLen
  visits : ∃ topology, IsStage topology args.globalShape args.layout.permuteDims (N - 1 - k) pencil

theorem IsC2cPlan.stageAt {env : FftEnvironment K} {topology : MpiTopology M}
    {args : ConstructArgs N M} {core : TransformPlanCore P K N M}
    (h : IsC2cPlan env realScratchLen topology args core) (hN : 0 < N) {k : ℕ} (hk : k < N) :
    ∃ pencil stage, StageAt env realScratchLen args core k (visitedAxis hN k) pencil stage ∧
      IsStage topology args.globalShape args.layout.permuteDims (N - 1 - k) pencil := by
  obtain ⟨pencils, hpencils, hprepared⟩ := h.prepared
  obtain ⟨stage, axis, hget, haxis, hinput, hisStage, hstage, hscratch⟩ :=
    hprepared.at hpencils hk
  have haxis : axis = visitedAxis hN k := Fin.ext haxis
  rw [haxis] at hstage
  exact ⟨stage.output, stage, ⟨hget, hinput, hstage, hscratch, _, hisStage⟩, hisStage⟩

theorem PlansHold.globalShape_eq (h : PlansHold env realScratchLen args cores)
    (c d : Coords topology.processGrid) : (args c).globalShape = (args d).globalShape := by
  obtain ⟨p, _, _, hp⟩ := (h.plan c).stageAt h.pos h.pos
  obtain ⟨q, _, _, hq⟩ := (h.plan d).stageAt h.pos h.pos
  apply List.ofFn_injective
  refine words64_inj ?_ ?_ (h.agree c d).requests.globalShape
  · intro extent hextent
    obtain ⟨axis, rfl⟩ := (List.mem_ofFn' _ _).mp hextent
    rw [← hp.globalShape]
    exact extent_lt_usizeLimit p axis
  · intro extent hextent
    obtain ⟨axis, rfl⟩ := (List.mem_ofFn' _ _).mp hextent
    rw [← hq.globalShape]
    exact extent_lt_usizeLimit q axis

/-- The distributed pencils that the plans' stages are on. -/
structure RouteOf (env : Coords topology.processGrid → FftEnvironment K) (realScratchLen : P → ℕ)
    (args : Coords topology.processGrid → ConstructArgs N M)
    (cores : Coords topology.processGrid → TransformPlanCore P K N M) (hN : 0 < N)
    (route : ℕ → DistributedPencil topology N) : Prop where
  stage : ∀ c k, k < N → ∃ stage, StageAt (env c) realScratchLen (args c) (cores c) k
    (visitedAxis hN k) ((route k).on c) stage
  shape : ∀ k c, ((route k).on c).globalShape = (args topology.here).globalShape

/-- **The plans have a route.** -/
theorem PlansHold.exists_route (h : PlansHold env realScratchLen args cores) :
    ∃ route, RouteOf env realScratchLen args cores h.pos route := by
  have hpos := h.pos
  have hposition : ∀ k, ∃ p : DistributedPencil topology N,
      (∀ c, k < N → ∃ stage, StageAt (env c) realScratchLen (args c) (cores c) k
        (visitedAxis hpos k) (p.on c) stage) ∧
      ∀ c, (p.on c).globalShape = (args topology.here).globalShape := by
    intro k
    choose pencil stage hstage hisStage using fun c =>
      (h.plan c).stageAt hpos (show min k (N - 1) < N by omega)
    have hcommon : ∀ c, IsStage (topology.atCoords c) (args topology.here).globalShape
        (args topology.here).layout.permuteDims (N - 1 - min k (N - 1)) (pencil c) := by
      intro c
      rw [← h.globalShape_eq c topology.here, ← (h.agree c topology.here).requests.layout]
      exact hisStage c
    refine ⟨stagePencil pencil hcommon, fun c hk => ⟨stage c, ?_⟩, fun c => (hcommon c).globalShape⟩
    have hmin : min k (N - 1) = k := by omega
    have := hstage c
    simp only [hmin] at this
    exact this
  choose route hstage hshape using hposition
  exact ⟨route, fun c k => hstage k c, hshape⟩

theorem IsC2cPlan.length_stages {env : FftEnvironment K} {topology : MpiTopology M}
    {args : ConstructArgs N M} {core : TransformPlanCore P K N M}
    (h : IsC2cPlan env realScratchLen topology args core) : core.stages.length = N := by
  obtain ⟨_, _, hprepared⟩ := h.prepared
  exact hprepared.length

end Plans

/-! ## The pipeline -/

/-- The local transform in position `k`. -/
def transformAt (core : TransformPlanCore P K N M) (k : ℕ) : LocalTransform P K :=
  (core.stages[k]?.map TransformStage.localTransform).getD .identity

/-- The layouts that the arrays of a plan register. -/
def planRegistry (core : TransformPlanCore P K N M) : List (Pencil N M) :=
  distinctLayouts (core.stages.map TransformStage.output)

theorem mem_distinctLayouts {pencils : List (Pencil N M)} {p : Pencil N M} (h : p ∈ pencils) :
    p ∈ distinctLayouts pencils := by
  have hloop : ∀ (l registered : List (Pencil N M)), p ∈ registered ∨ p ∈ l →
      p ∈ l.foldl (fun registered pencil =>
        if registered.any fun other => other.sameLayout pencil then registered
        else registered ++ [pencil]) registered := by
    intro l
    induction l with
    | nil => exact fun registered hmem => hmem.resolve_right (List.not_mem_nil)
    | cons q l ih =>
      intro registered hmem
      rw [List.foldl_cons]
      apply ih
      split
      · rename_i hany
        obtain hmem | hmem := hmem
        · exact Or.inl hmem
        · obtain rfl | hmem := List.mem_cons.mp hmem
          · obtain ⟨other, hother, hsame⟩ := List.any_eq_true.mp hany
            obtain rfl := Pencil.eq_of_sameLayout hsame
            exact Or.inl hother
          · exact Or.inr hmem
      · obtain hmem | hmem := hmem
        · exact Or.inl (List.mem_append_left _ hmem)
        · obtain rfl | hmem := List.mem_cons.mp hmem
          · exact Or.inl (List.mem_append_right _ (List.mem_singleton_self _))
          · exact Or.inr hmem
  exact hloop pencils [] (Or.inr h)

/-- The buffers of a call are long enough for the plan. -/
structure BuffersFit (core : TransformPlanCore P K N M) (transpose : TransposeWorkspace K)
    (scratchLen lineBufferLen : ℕ) : Prop where
  scratch : core.fftScratchLen ≤ scratchLen
  lineBuffer : core.stridedLineLen ≤ lineBufferLen
  send : core.lengths.sendLen ≤ transpose.sendBuffer.length

section Pipeline

variable [Field K] {env : Coords topology.processGrid → FftEnvironment K} {realScratchLen : P → ℕ}
  {args : Coords topology.processGrid → ConstructArgs N M}
  {cores : Coords topology.processGrid → TransformPlanCore P K N M} {hN : 0 < N}
  {route : ℕ → DistributedPencil topology N}
  {context : Coords topology.processGrid → PassContext K}
  {scratchLen lineBufferLen : Coords topology.processGrid → ℕ}

/-- What the stage in position `k` makes of the array. -/
noncomputable def planAct (hN : 0 < N) (route : ℕ → DistributedPencil topology N)
    (cores : Coords topology.processGrid → TransformPlanCore P K N M) (direction : Direction)
    (k : ℕ) : GlobalArray K N → GlobalArray K N :=
  ownedStage (route k) (visitedAxis hN k) (commonShape (route k) (visitedAxis hN k))
    fun c => lineTransform direction (transformAt (cores c) k)

omit [Field K] in
theorem StageAt.fits {env : FftEnvironment K} {topology : MpiTopology M} {args : ConstructArgs N M}
    {core : TransformPlanCore P K N M} {k : ℕ} {axis : Fin N} {pencil : Pencil N M}
    {stage : TransformStage (LocalTransform P K) N M}
    (h : StageAt env realScratchLen args core k axis pencil stage)
    (hplan : IsC2cPlan env realScratchLen topology args core) {transpose : TransposeWorkspace K}
    {scratchLen lineBufferLen : ℕ} (hfit : BuffersFit core transpose scratchLen lineBufferLen) :
    StageFits pencil axis scratchLen lineBufferLen stage.localTransform where
  whole := by
    obtain ⟨_, hvisits⟩ := h.visits
    rw [hvisits.globalShape]
    exact h.prepared.whole
  complex := by
    intro plan hcomplex
    obtain ⟨_, hvisits⟩ := h.visits
    refine ⟨?_, ?_, ?_⟩
    · obtain ⟨_, hidentity⟩ | ⟨_, plan', hplan', hplanned⟩ := h.prepared.planned
      · rw [hidentity] at hcomplex
        contradiction
      · rw [hplan'] at hcomplex
        obtain rfl := LocalTransform.complex.inj hcomplex
        rw [hvisits.globalShape]
        exact (planLine_lineLen hplanned).1
    · have hscratch := h.scratch
      rw [hcomplex] at hscratch
      exact hscratch.trans hfit.scratch
    · have hlines := hplan.lines stage (List.mem_of_getElem? h.get) plan hcomplex
      rw [h.prepared.output_eq, h.prepared.axis_eq] at hlines
      exact fun stride hstride hone => (hlines stride hstride hone).trans hfit.lineBuffer
  not_real := by
    intro plan hreal
    obtain ⟨_, hidentity⟩ | ⟨_, _, hcomplex, _⟩ := h.prepared.planned
    · rw [hidentity] at hreal
      contradiction
    · rw [hcomplex] at hreal
      contradiction

theorem PlansHold.kernelsAct (h : PlansHold env realScratchLen args cores)
    (hroute : RouteOf env realScratchLen args cores hN route)
    (hfit : ∀ c, BuffersFit (cores c) (context c).transpose (scratchLen c) (lineBufferLen c))
    (direction : Direction) (E : ℕ) :
    KernelsAct E route (fun c => (cores c).stages)
      (fun c => TransformPlanCore.complexKernels (scratchLen c) (lineBufferLen c) direction)
      (planAct hN route cores direction) := by
  intro c k stage hstage
  have hk : k < N := by
    rw [← (h.plan c).length_stages]
    exact (List.getElem?_eq_some_iff.mp hstage).1
  obtain ⟨stage', hat⟩ := hroute.stage c k hk
  obtain rfl : stage = stage' := Option.some.inj (hstage.symm.trans hat.get)
  have hacts := kernelActs_stage (E := E) (hat.fits (h.plan c) (hfit c)) direction
  have htransform : transformAt (cores c) k = stage.localTransform := by
    unfold transformAt
    rw [hstage]
    rfl
  rw [globalShape_on, ← htransform] at hacts
  rw [hat.prepared.axis_eq, ← htransform]
  exact KernelActs.owned hacts

omit [Field K] in
theorem PlansHold.pipeline (h : PlansHold env realScratchLen args cores)
    (hroute : RouteOf env realScratchLen args cores hN route)
    (hfit : ∀ c, BuffersFit (cores c) (context c).transpose (scratchLen c) (lineBufferLen c)) :
    Pipeline (args topology.here).extraShape.elementCount
      (fun c => (context c).transpose.sendBuffer.length) route (N - 1) (fun c => (cores c).stages)
      fun c => (cores c).transitions := by
  have htwo := h.two_le
  have hbuilt : ∀ c, BuiltUpTo (cores c).stages
      ((List.range (N - 1)).reverse.map fun axis => decide (axis < M))
      (args topology.here).extraShape.elementCount (args topology.here).layout.transposeMethod 0
      (N - 1) ((cores c).transitions, (cores c).lengths) := by
    intro c
    rw [← h.extraShape_eq c topology.here, ← (h.agree c topology.here).requests.layout]
    exact (h.plan c).transitions
  refine pipeline_of_built (by omega) (fun c => ?_) (fun k hk => ⟨fun c => ?_⟩) hbuilt
    fun c => (hfit c).send
  · have := (h.plan c).length_stages
    omega
  · obtain ⟨stage, hat⟩ := hroute.stage c k (by omega)
    exact ⟨stage, hat.get, hat.input, hat.prepared.output_eq⟩

variable (context) in
/-- **The plans are ready for every pass.** -/
theorem PlansHold.passReady (h : PlansHold env realScratchLen args cores)
    (hroute : RouteOf env realScratchLen args cores hN route)
    (hfit : ∀ c, BuffersFit (cores c) (context c).transpose (scratchLen c) (lineBufferLen c))
    {policy : PassPolicy K FftError M} (rules : GoesOn topology policy id) (direction : Direction) :
    PassReady policy id (args topology.here).extraShape (fun c => planRegistry (cores c)) route
      (N - 1) (fun c => (cores c).stages) (fun c => (cores c).transitions)
      (fun c => TransformPlanCore.complexKernels (scratchLen c) (lineBufferLen c) direction) context
      (planAct hN route cores direction) where
  rules := rules
  pipeline := h.pipeline hroute hfit
  registered := by
    intro c k hk
    obtain ⟨stage, hat⟩ := hroute.stage c k (by omega)
    rw [← hat.prepared.output_eq]
    exact mem_distinctLayouts (List.mem_map.mpr ⟨stage, List.mem_of_getElem? hat.get, rfl⟩)
  acts := h.kernelsAct hroute hfit direction _

end Pipeline

end PencilRs.Analysis
