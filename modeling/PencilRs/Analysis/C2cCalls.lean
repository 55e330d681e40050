import PencilRs.Analysis.C2cRun
import PencilRs.Analysis.FftCalls

/-!
# What the calls of a complex plan leave

Out of place, timed, with overlap and in place, a call of the plans makes the same of the array:
the stages' transforms, first to last or last to first.
-/

set_option autoImplicit false

namespace PencilRs.Analysis

open PencilRs.Computation PencilRs.Model
open Semantics.Ensures (Together together_adapt)

variable {N M : ℕ} {K P ε β : Type} {topology : MpiTopology M}

/-! ## Preflight -/

section Preflight

variable {core : TransformPlanCore P K N M} {direction : Direction}
  {source destination : EndpointArray K N M} {workspace : C2cOutOfPlaceWorkspace K N M}

/-- The pencil a call reads from, or the one it writes to. -/
def sourceEnd {β : Type} (input output : β) : Direction → β
  | .forward => input
  | .inverse | .backward => output

def destinationEnd {β : Type} (input output : β) : Direction → β
  | .forward => output
  | .inverse | .backward => input

/-- What the preflight of a call out of place says. -/
structure AcceptedCall (core : TransformPlanCore P K N M) (direction : Direction)
    (source destination : EndpointArray K N M) (workspace : C2cOutOfPlaceWorkspace K N M)
    (input output : Pencil N M) : Prop where
  owner : workspace.coreAddress = core.address
  sourcePencil : source.view.pencil = sourceEnd input output direction
  destinationPencil : destination.view.pencil = destinationEnd input output direction
  sourceShape : source.view.extraShape = core.extraShape
  destinationShape : destination.view.extraShape = core.extraShape
  intermediateShape : workspace.intermediate.extraShape = core.extraShape
  buffers : BuffersFit core workspace.transpose workspace.fftScratchLen workspace.lineBufferLen

theorem validateWorkspaceLengthsValues_ok {scratch requiredScratch send requiredSend receive
    requiredReceive : ℕ}
    (h : validateWorkspaceLengthsValues scratch requiredScratch send requiredSend receive
      requiredReceive = .ok ()) : requiredScratch ≤ scratch ∧ requiredSend ≤ send := by
  unfold validateWorkspaceLengthsValues at h
  obtain ⟨_, hscratch, h⟩ := bind_eq_ok.mp h
  obtain ⟨_, hsend, _⟩ := bind_eq_ok.mp h
  rw [ensure_eq_ok, decide_eq_true_eq] at hscratch hsend
  exact ⟨hscratch, hsend⟩

theorem preflight_ok {input output : Pencil N M} (hinput : core.inputPencil = some input)
    (houtput : core.outputPencil = some output)
    (h : core.preflight direction source destination workspace = .ok ()) :
    AcceptedCall core direction source destination workspace input output := by
  unfold TransformPlanCore.preflight TransformPlanCore.validateOutOfPlace at h
  rw [hinput, houtput] at h
  obtain ⟨_, hvalid, hline⟩ := bind_eq_ok.mp h
  obtain ⟨_, howner, hvalid⟩ := bind_eq_ok.mp hvalid
  obtain ⟨_, hfirst, hvalid⟩ := bind_eq_ok.mp hvalid
  obtain ⟨_, hlast, hvalid⟩ := bind_eq_ok.mp hvalid
  obtain rfl := Except.ok.inj hfirst
  obtain rfl := Except.ok.inj hlast
  have hline := mapError_eq_ok.mp hline
  unfold validateLineBuffer at hline
  rw [ensure_eq_ok, decide_eq_true_eq] at howner hline
  cases direction <;> dsimp only at hvalid
  all_goals
    obtain ⟨_, hsource, hvalid⟩ := bind_eq_ok.mp hvalid
    obtain ⟨_, hdestination, hvalid⟩ := bind_eq_ok.mp hvalid
    obtain ⟨_, hshapes, hvalid⟩ := bind_eq_ok.mp hvalid
    obtain ⟨_, hlengths, hvalid⟩ := bind_eq_ok.mp hvalid
    obtain ⟨_, hintermediate, _⟩ := bind_eq_ok.mp hvalid
    simp only [ensure_eq_ok, Bool.not_eq_true', Bool.or_eq_false_iff, Bool.not_eq_false']
      at hsource hdestination
    rw [ensure_eq_ok, Bool.and_eq_true, decide_eq_true_eq, decide_eq_true_eq] at hshapes
    rw [ensure_eq_ok, decide_eq_true_eq] at hintermediate
    obtain ⟨hscratch, hsend⟩ := validateWorkspaceLengthsValues_ok (mapError_eq_ok.mp hlengths)
    exact ⟨howner, Pencil.eq_of_sameLayout hsource.2, Pencil.eq_of_sameLayout hdestination.2,
      hshapes.1, hshapes.2, hintermediate, hscratch, hline, hsend⟩

/-- No rank panics in a preflight. -/
theorem preflight_ne_panic {input output : Pencil N M} (hinput : core.inputPencil = some input)
    (houtput : core.outputPencil = some output) :
    core.preflight direction source destination workspace ≠ .error .panic := by
  unfold TransformPlanCore.preflight TransformPlanCore.validateOutOfPlace
  rw [hinput, houtput]
  refine noPanic_bind ?_ fun _ => noPanic_mapError _ id
  refine noPanic_bind (noPanic_ensure _ _) fun _ => noPanic_bind (noPanic_ok input) fun first => ?_
  refine noPanic_bind (noPanic_ok output) fun last => ?_
  cases direction <;> dsimp only
  all_goals
    refine noPanic_bind (noPanic_ensure _ _) fun _ => noPanic_bind (noPanic_ensure _ _) fun _ => ?_
    refine noPanic_bind (noPanic_ensure _ _) fun _ => ?_
    refine noPanic_bind (noPanic_mapError _ id) fun _ => noPanic_bind (noPanic_ensure _ _) fun _ => ?_
    exact noPanic_bind (noPanic_mapError _ _) fun _ => noPanic_ensure _ _

end Preflight

/-! ## Out of place -/

/-- The local work of a call goes on after a success. -/
theorem expectPolicy_goesOn :
    GoesOn topology (TransformPlanCore.expectPolicy : PassPolicy K FftError M) id :=
  goesOn_id (fun _ => rfl) fun _ => rfl

theorem returnPolicy_goesOn :
    GoesOn topology (TransformPlanCore.returnPolicy : PassPolicy K FftError M) id :=
  goesOn_id (fun _ => rfl) fun _ => rfl

theorem LiftedTransposeFails.allError {lift : FftError → ε}
    {e : Coords topology.processGrid → Stop ε} (h : LiftedTransposeFails lift e) : AllError e := by
  intro c
  obtain ⟨error, herror⟩ := h c
  exact ⟨_, herror⟩

theorem OverlapFails.allError {lift : FftError → ε}
    {e : Coords topology.processGrid → Stop (FftOverlapError ε)} (h : OverlapFails lift e) :
    AllError e := by
  intro c
  obtain ⟨error, herror⟩ | ⟨error, herror⟩ := h c <;> exact ⟨_, herror⟩

section Calls

variable [Field K] {env : Coords topology.processGrid → FftEnvironment K} {realScratchLen : P → ℕ}
  {args : Coords topology.processGrid → ConstructArgs N M}
  {cores : Coords topology.processGrid → TransformPlanCore P K N M} {hN : 0 < N}
  {route : ℕ → DistributedPencil topology N}

/-- What a call makes of the array. -/
noncomputable def callResult (hN : 0 < N) (route : ℕ → DistributedPencil topology N)
    (cores : Coords topology.processGrid → TransformPlanCore P K N M) (direction : Direction) :
    GlobalArray K N → GlobalArray K N :=
  match direction with
  | .forward => forwards (planAct hN route cores .forward) (N - 1)
  | .inverse => backwards (planAct hN route cores .inverse) (N - 1)
  | .backward => backwards (planAct hN route cores .backward) (N - 1)

omit [Field K] in
theorem RouteOf.inputPencil (hroute : RouteOf env realScratchLen args cores hN route)
    (c : Coords topology.processGrid) : (cores c).inputPencil = some ((route 0).on c) := by
  obtain ⟨stage, hat⟩ := hroute.stage c 0 hN
  unfold TransformPlanCore.inputPencil
  rw [hat.get, Option.map_some, hat.input]

omit [Field K] in
theorem RouteOf.outputPencil (h : PlansHold env realScratchLen args cores)
    (hroute : RouteOf env realScratchLen args cores hN route) (c : Coords topology.processGrid) :
    (cores c).outputPencil = some ((route (N - 1)).on c) := by
  obtain ⟨stage, hat⟩ := hroute.stage c (N - 1) (by omega)
  unfold TransformPlanCore.outputPencil
  rw [List.getLast?_eq_getElem?, (h.plan c).length_stages, hat.get, Option.map_some,
    hat.prepared.output_eq]

/-- A workspace that was allocated for the plan it names has the plan's layouts. -/
def IsWorkspaceOf (core : TransformPlanCore P K N M) (workspace : C2cOutOfPlaceWorkspace K N M) :
    Prop :=
  workspace.coreAddress = core.address → workspace.intermediate.pencils = planRegistry core

variable {direction : Direction} {array : GlobalArray K N}
  {source destination : Coords topology.processGrid → EndpointArray K N M}
  {workspace : Coords topology.processGrid → C2cOutOfPlaceWorkspace K N M}

/-- What the passes need to know about the arrays of an accepted call. -/
structure CallReady (args : Coords topology.processGrid → ConstructArgs N M)
    (cores : Coords topology.processGrid → TransformPlanCore P K N M)
    (start finish : DistributedPencil topology N) (array : GlobalArray K N)
    (source destination : Coords topology.processGrid → EndpointArray K N M)
    (workspace : Coords topology.processGrid → C2cOutOfPlaceWorkspace K N M) : Prop where
  pencils : ∀ c, (workspace c).intermediate.pencils = planRegistry (cores c)
  extraShape : ∀ c, (workspace c).intermediate.extraShape = (args topology.here).extraShape
  sourceLen : ∀ c, (source c).view.storage.length
    = (args topology.here).extraShape.elementCount * (start.on c).localLen
  destinationLen : ∀ c, (destination c).view.storage.length
    = (args topology.here).extraShape.elementCount * (finish.on c).localLen
  holds : ∀ c, HoldsBlock (start.on c) (args topology.here).extraShape.elementCount array
    (source c).view.storage
  buffers : ∀ c, BuffersFit (cores c) (workspace c).transpose (workspace c).fftScratchLen
    (workspace c).lineBufferLen

omit [Field K] in
theorem PlansHold.callReady (h : PlansHold env realScratchLen args cores)
    (hroute : RouteOf env realScratchLen args cores hN route)
    (howned : ∀ c, IsWorkspaceOf (cores c) (workspace c))
    (hsource : ∀ c, HoldsBlock (source c).view.pencil (source c).view.extraShape.elementCount array
      (source c).view.storage)
    (hpreflight : ∀ c, (cores c).preflight direction (source c) (destination c) (workspace c)
      = .ok ()) :
    CallReady args cores (sourceEnd (route 0) (route (N - 1)) direction)
      (destinationEnd (route 0) (route (N - 1)) direction) array source destination workspace := by
  have haccepted := fun c =>
    preflight_ok (hroute.inputPencil c) (hroute.outputPencil h c) (hpreflight c)
  have hextra : ∀ c, (cores c).extraShape = (args topology.here).extraShape := fun c =>
    (h.plan c).extraShape.trans (h.extraShape_eq c topology.here)
  have hsourcePencil : ∀ c, (source c).view.pencil
      = (sourceEnd (route 0) (route (N - 1)) direction).on c := by
    intro c
    rw [(haccepted c).sourcePencil]
    cases direction <;> rfl
  have hdestinationPencil : ∀ c, (destination c).view.pencil
      = (destinationEnd (route 0) (route (N - 1)) direction).on c := by
    intro c
    rw [(haccepted c).destinationPencil]
    cases direction <;> rfl
  constructor
  · exact fun c => howned c (haccepted c).owner
  · exact fun c => (haccepted c).intermediateShape.trans (hextra c)
  · intro c
    rw [view_storage_length, (haccepted c).sourceShape, hextra c, hsourcePencil c]
  · intro c
    rw [view_storage_length, (haccepted c).destinationShape, hextra c, hdestinationPencil c]
  · intro c
    have hblock := hsource c
    rw [(haccepted c).sourceShape, hextra c, hsourcePencil c] at hblock
    exact hblock
  · exact fun c => (haccepted c).buffers

/-! ### The passes of the calls -/

section Passes

variable (core : TransformPlanCore P K N M) (context : PassContext K) (scratchLen lineBufferLen : ℕ)
  (values : List K) (state : PassState K N M)

omit [Field K] in
theorem executeForward_eq (hlen : 2 ≤ core.stages.length)
    (htail : core.transitions.length + 1 = core.stages.length) :
    core.executeForward context scratchLen lineBufferLen values state
      = Model.forwardPass TransformPlanCore.expectPolicy
          (TransformPlanCore.complexForwardKernels scratchLen lineBufferLen) context core.stages
          core.transitions values state := by
  have hvalid : core.validateTail.mapError Stop.error = .ok () := by
    unfold TransformPlanCore.validateTail
    rw [mapError_eq_ok, ensure_eq_ok]
    simp only [Bool.not_eq_true', Bool.or_eq_false_iff, decide_eq_false_iff_not]
    omega
  unfold TransformPlanCore.executeForward Model.forwardPass
  simp only [hvalid, Fallible.ofExcept_ok_bind, if_neg (show ¬ core.stages.length = 1 by omega)]

theorem executeInverse_eq (normalize : Bool) (hlen : 2 ≤ core.stages.length)
    (htail : core.transitions.length + 1 = core.stages.length) :
    core.executeInverse context scratchLen lineBufferLen normalize values state
      = Model.reversePass TransformPlanCore.expectPolicy
          (TransformPlanCore.complexReverseKernels scratchLen lineBufferLen normalize) context
          core.stages core.transitions values state := by
  have hvalid : core.validateTail.mapError Stop.error = .ok () := by
    unfold TransformPlanCore.validateTail
    rw [mapError_eq_ok, ensure_eq_ok]
    simp only [Bool.not_eq_true', Bool.or_eq_false_iff, decide_eq_false_iff_not]
    omega
  unfold TransformPlanCore.executeInverse Model.reversePass
  simp only [hvalid, Fallible.ofExcept_ok_bind, if_neg (show ¬ core.stages.length = 1 by omega)]

end Passes

omit [Field K] in
theorem IsC2cPlan.tail {env : FftEnvironment K} {topology : MpiTopology M}
    {args : ConstructArgs N M} {core : TransformPlanCore P K N M}
    (h : IsC2cPlan env realScratchLen topology args core) :
    2 ≤ core.stages.length ∧ core.transitions.length + 1 = core.stages.length := by
  have htwo := h.two_le
  have hlen := h.length_stages
  have htransitions : core.transitions.length = N - 1 := h.transitions.length
  omega

variable (alloc : Coords topology.processGrid → CallAllocator)
  (environment : Coords topology.processGrid → FftEnvironment K)

/-- **A call out of place**, timed or not. -/
theorem PlansHold.execute_completes (h : PlansHold env realScratchLen args cores)
    (hroute : RouteOf env realScratchLen args cores hN route)
    (howned : ∀ c, IsWorkspaceOf (cores c) (workspace c))
    (hsource : ∀ c, HoldsBlock (source c).view.pencil (source c).view.extraShape.elementCount array
      (source c).view.storage) (timed : Bool) :
    Completes (Together (DestinationsHold (args topology.here).extraShape
        (destinationEnd (route 0) (route (N - 1)) direction)
        (callResult hN route cores direction array))
        (CallFails alloc (fun _ => c2cOperation (if timed then .timed else .plain) direction)
          (fun c => (cores c).preflight direction (source c) (destination c) (workspace c))
          (LiftedTransposeFails id)))
      fun c => ((cores c).execute (alloc c) (environment c) timed direction (source c)
        (destination c) (workspace c)).run := by
  refine call_completes alloc h.descriptor (fun c => (h.plan c).descriptor_fits)
    (fun c => preflight_ne_panic (hroute.inputPencil c) (hroute.outputPencil h c))
    (fun e he => he.allError) fun hpreflight => ?_
  have hready := h.callReady hroute howned hsource hpreflight
  have hpass := h.passReady (fun c => TransformPlanCore.passContext (alloc c) (environment c)
    (workspace c).transpose) hroute hready.buffers expectPolicy_goesOn
  cases direction with
  | forward =>
    simp only [fun c context state => executeForward_eq (cores c) context
      (workspace c).fftScratchLen (workspace c).lineBufferLen (source c).view.storage state
      (h.plan c).tail.1 (h.plan c).tail.2]
    exact (hpass .forward).forwardPass hready.pencils hready.extraShape hready.destinationLen
      hready.sourceLen hready.holds
  | inverse =>
    simp only [fun c context state => executeInverse_eq (cores c) context
      (workspace c).fftScratchLen (workspace c).lineBufferLen (source c).view.storage state true
      (h.plan c).tail.1 (h.plan c).tail.2]
    exact (hpass .inverse).reversePass hready.pencils hready.extraShape hready.destinationLen
      hready.sourceLen hready.holds
  | backward =>
    simp only [fun c context state => executeInverse_eq (cores c) context
      (workspace c).fftScratchLen (workspace c).lineBufferLen (source c).view.storage state false
      (h.plan c).tail.1 (h.plan c).tail.2]
    exact (hpass .backward).reversePass hready.pencils hready.extraShape hready.destinationLen
      hready.sourceLen hready.holds

/-! ## With overlap -/

/-- The errors of a call with overlap: some rank's plan uses Alltoallv, or a transpose failed. -/
def OverlapCallFails (cores : Coords topology.processGrid → TransformPlanCore P K N M)
    (e : Coords topology.processGrid → Stop (FftOverlapError FftError)) : Prop :=
  ((∃ c, (cores c).overlapSupported = false) ∧ ∀ c, e c = .error .unsupportedTransport) ∨
    OverlapFails id e

omit [Field K] in
theorem OverlapCallFails.allError
    {e : Coords topology.processGrid → Stop (FftOverlapError FftError)}
    (h : OverlapCallFails cores e) : AllError e := by
  obtain ⟨_, hall⟩ | h := h
  · exact fun c => ⟨_, hall c⟩
  · exact h.allError

omit [Field K] in
theorem overlapSupported_transitions {core : TransformPlanCore P K N M}
    (h : core.overlapSupported = true) : OverlapSupported core.transitions := by
  intro transition htransition
  have hboth := List.all_eq_true.mp h transition htransition
  rw [Bool.and_eq_true] at hboth
  constructor
  · intro plan hforward
    rw [hforward] at hboth
    exact Bool.false_ne_true hboth.1
  · intro plan hbackward
    rw [hbackward] at hboth
    exact Bool.false_ne_true hboth.2

/-- **A call with overlap** makes the same of the array. -/
theorem PlansHold.executeOverlap_completes (h : PlansHold env realScratchLen args cores)
    (hroute : RouteOf env realScratchLen args cores hN route)
    (howned : ∀ c, IsWorkspaceOf (cores c) (workspace c))
    (hsource : ∀ c, HoldsBlock (source c).view.pencil (source c).view.extraShape.elementCount array
      (source c).view.storage) :
    Completes (Together (DestinationsHold (args topology.here).extraShape
        (destinationEnd (route 0) (route (N - 1)) direction)
        (callResult hN route cores direction array))
        (CallFails alloc (fun _ => c2cOperation .overlap direction)
          (fun c => (cores c).preflight direction (source c) (destination c) (workspace c))
          (OverlapCallFails cores)))
      fun c => ((cores c).executeOverlap (alloc c) (environment c) direction (source c)
        (destination c) (workspace c)).run := by
  refine call_completes alloc h.descriptor (fun c => (h.plan c).descriptor_fits)
    (fun c => preflight_ne_panic (hroute.inputPencil c) (hroute.outputPencil h c))
    (fun e he => he.allError) fun hpreflight => ?_
  have hready := h.callReady hroute howned hsource hpreflight
  refine collectiveValid_bind (fun c => (cores c).overlapSupported) fun verdict hverdict => ?_
  cases verdict with
  | false =>
    refine .returned _ (fun _ => rfl) trivial (Or.inr ⟨_, rfl, Or.inl ⟨?_, fun _ => rfl⟩⟩)
    by_contra hall
    push Not at hall
    exact Bool.false_ne_true (hverdict.mpr fun c => Bool.not_eq_false _ ▸ hall c)
  | true =>
    have hsupported := fun c => overlapSupported_transitions (hverdict.mp rfl c)
    have hpass := h.passReady (fun c => TransformPlanCore.passContext (alloc c) (environment c)
      (workspace c).transpose) hroute hready.buffers overlapPolicy_goesOn
    have hfails : ∀ e : Coords topology.processGrid → Stop (FftOverlapError FftError),
        OverlapFails id e → OverlapCallFails cores e := fun e he => Or.inr he
    simp only [if_true]
    cases direction with
    | forward =>
      exact ((hpass .forward).forwardPassOverlap hsupported hready.pencils hready.extraShape
        hready.destinationLen hready.sourceLen hready.holds).mono (fun _ h => h)
          fun r _ h => h.mono (fun _ h => h) hfails
    | inverse =>
      exact ((hpass .inverse).reversePassOverlap hsupported hready.pencils hready.extraShape
        hready.destinationLen hready.sourceLen hready.holds).mono (fun _ h => h)
          fun r _ h => h.mono (fun _ h => h) hfails
    | backward =>
      exact ((hpass .backward).reversePassOverlap hsupported hready.pencils hready.extraShape
        hready.destinationLen hready.sourceLen hready.holds).mono (fun _ h => h)
          fun r _ h => h.mono (fun _ h => h) hfails

/-! ## In place -/

/-- The state a direction starts from, and the one it leaves. -/
def stateBefore : Direction → C2cState
  | .forward => .input
  | .inverse | .backward => .output

def stateAfter : Direction → C2cState
  | .forward => .output
  | .inverse | .backward => .input

/-- An array that was allocated for the plan it names has the plan's layouts. -/
def IsArrayOf (core : TransformPlanCore P K N M) (shared : C2cInPlaceArray K N M) : Prop :=
  shared.coreAddress = core.address → shared.array.pencils = planRegistry core

/-- What the preflight of a call in place says. -/
structure AcceptedInPlace (core : TransformPlanCore P K N M) (direction : Direction)
    (shared : C2cInPlaceArray K N M) (workspace : C2cInPlaceWorkspace K) (input output : Pencil N M) :
    Prop where
  owner : shared.coreAddress = core.address
  state : shared.state = stateBefore direction
  extraShape : shared.array.extraShape = core.extraShape
  active : shared.array.activePencil = .ok (sourceEnd input output direction)
  buffers : BuffersFit core workspace.transpose workspace.fftScratchLen workspace.lineBufferLen

section InPlacePreflight

variable {core : TransformPlanCore P K N M} {shared : C2cInPlaceArray K N M}
  {workspace : C2cInPlaceWorkspace K} {input output : Pencil N M}

omit [Field K] in
theorem preflightInPlace_ok (hinput : core.inputPencil = some input)
    (houtput : core.outputPencil = some output)
    (h : core.preflightInPlace direction shared workspace = .ok ()) :
    AcceptedInPlace core direction shared workspace input output := by
  unfold TransformPlanCore.preflightInPlace at h
  obtain ⟨_, howner, h⟩ := bind_eq_ok.mp h
  obtain ⟨_, _, h⟩ := bind_eq_ok.mp h
  obtain ⟨_, hstate, h⟩ := bind_eq_ok.mp h
  obtain ⟨_, hextra, h⟩ := bind_eq_ok.mp h
  obtain ⟨expected, hexpected, h⟩ := bind_eq_ok.mp h
  obtain ⟨active, hactive, h⟩ := bind_eq_ok.mp h
  obtain ⟨_, hsame, h⟩ := bind_eq_ok.mp h
  obtain ⟨_, hlengths, hline⟩ := bind_eq_ok.mp h
  rw [ensure_eq_ok, decide_eq_true_eq] at howner hextra
  rw [ensure_eq_ok] at hsame
  obtain rfl := Pencil.eq_of_sameLayout hsame
  obtain ⟨hscratch, hsend⟩ := validateWorkspaceLengthsValues_ok (mapError_eq_ok.mp hlengths)
  have hline := mapError_eq_ok.mp hline
  unfold validateLineBuffer at hline
  rw [ensure_eq_ok, decide_eq_true_eq] at hline
  have hactive := mapError_eq_ok.mp hactive
  refine ⟨howner, ?_, hextra, ?_, hscratch, hline, hsend⟩
  · cases hcurrent : shared.state with
    | poisoned =>
      rw [hcurrent] at hstate
      contradiction
    | input =>
      rw [hcurrent] at hstate
      simp only [ensure_eq_ok, decide_eq_true_eq] at hstate
      rw [hstate]
      cases direction <;> rfl
    | output =>
      rw [hcurrent] at hstate
      simp only [ensure_eq_ok, decide_eq_true_eq] at hstate
      rw [hstate]
      cases direction <;> rfl
  · rw [hactive]
    have hexpected := okOr_eq_ok.mp hexpected
    cases direction with
    | forward => rw [← Option.some.inj (hinput.symm.trans hexpected)]; rfl
    | inverse => rw [← Option.some.inj (houtput.symm.trans hexpected)]; rfl
    | backward => rw [← Option.some.inj (houtput.symm.trans hexpected)]; rfl

omit [Field K] in
theorem preflightInPlace_ne_panic (hinput : core.inputPencil = some input)
    (houtput : core.outputPencil = some output) :
    core.preflightInPlace direction shared workspace ≠ .error .panic := by
  unfold TransformPlanCore.preflightInPlace
  refine noPanic_bind (noPanic_ensure _ _) fun _ => noPanic_bind (noPanic_ensure _ _) fun _ => ?_
  refine noPanic_bind ?_ fun _ => noPanic_bind (noPanic_ensure _ _) fun _ => ?_
  · cases shared.state with
    | poisoned => exact nofun
    | input => exact noPanic_ensure _ _
    | output => exact noPanic_ensure _ _
  refine noPanic_bind ?_ fun _ => noPanic_bind (noPanic_mapError _ _) fun _ => ?_
  · cases direction with
    | forward => rw [hinput]; exact noPanic_ok _
    | inverse => rw [houtput]; exact noPanic_ok _
    | backward => rw [houtput]; exact noPanic_ok _
  exact noPanic_bind (noPanic_ensure _ _) fun _ => noPanic_bind (noPanic_mapError _ id) fun _ =>
    noPanic_mapError _ id

end InPlacePreflight

omit [Field K] in
theorem activePencil_ok {shared : ManyPencilArray K N M} {p : Pencil N M}
    (h : shared.activePencil = .ok p) :
    ∃ index, shared.state = .valid index ∧ shared.pencils[index]? = some p := by
  cases hstate : shared.state with
  | poisoned =>
    rw [(registryInvariant shared).poisoned hstate |>.1] at h
    contradiction
  | valid index =>
    obtain ⟨pencil, _, hpencil, hactive, _⟩ := (registryInvariant shared).active index hstate
    obtain rfl := Except.ok.inj (hactive.symm.trans h)
    exact ⟨index, rfl, hpencil⟩

/-- How a call in place ends: refused on every rank, with every array as it was; stopped by a
transpose on every rank, with every array poisoned; or done. -/
inductive InPlaceEnds (direction : Direction)
    (shared : Coords topology.processGrid → C2cInPlaceArray K N M)
    (refused failed : (Coords topology.processGrid → Stop FftError) → Prop)
    (holds : (Coords topology.processGrid → PassState K N M) → Prop) :
    (Coords topology.processGrid → TransformPlanCore.InPlaceResult K FftError N M) → Prop
  | refused (e : Coords topology.processGrid → Stop FftError) (h : refused e) :
      InPlaceEnds direction shared refused failed holds fun c => ⟨.error (e c), shared c⟩
  | failed (e : Coords topology.processGrid → Stop FftError) (h : failed e) :
      InPlaceEnds direction shared refused failed holds
        fun c => ⟨.error (e c), { shared c with state := .poisoned }⟩
  | done (states : Coords topology.processGrid → PassState K N M) (h : holds states) :
      InPlaceEnds direction shared refused failed holds fun c => ⟨.ok (states c).report,
        { shared c with array := (states c).array, state := stateAfter direction }⟩

variable {shared : Coords topology.processGrid → C2cInPlaceArray K N M}
  {inPlaceWorkspace : Coords topology.processGrid → C2cInPlaceWorkspace K}

omit [Field K] in
theorem PlansHold.inPlaceHolds (h : PlansHold env realScratchLen args cores)
    (hroute : RouteOf env realScratchLen args cores hN route)
    (howned : ∀ c, IsArrayOf (cores c) (shared c))
    (hholds : ∀ c p, (shared c).array.activePencil = .ok p →
      HoldsBlock p (shared c).array.extraShape.elementCount array (shared c).array.storage)
    (hpreflight : ∀ c, (cores c).preflightInPlace direction (shared c) (inPlaceWorkspace c)
      = .ok ()) (c : Coords topology.processGrid) :
    ActiveHolds (planRegistry (cores c)) (args topology.here).extraShape
      ((sourceEnd (route 0) (route (N - 1)) direction).on c) array (shared c).array := by
  have haccepted :=
    preflightInPlace_ok (hroute.inputPencil c) (hroute.outputPencil h c) (hpreflight c)
  have hextra : (shared c).array.extraShape = (args topology.here).extraShape :=
    haccepted.extraShape.trans
      ((h.plan c).extraShape.trans (h.extraShape_eq c topology.here))
  have hpencils := howned c haccepted.owner
  have hend : sourceEnd ((route 0).on c) ((route (N - 1)).on c) direction
      = (sourceEnd (route 0) (route (N - 1)) direction).on c := by cases direction <;> rfl
  have hactive := haccepted.active
  rw [hend] at hactive
  have hblock := hholds c _ hactive
  rw [hextra] at hblock
  obtain ⟨index, hstate, hpencil⟩ := activePencil_ok hactive
  exact ⟨hpencils, hextra, ⟨index, hstate, hpencils ▸ hpencil⟩, hblock⟩

/-- **A call in place** makes the same of the array. -/
theorem PlansHold.executeInPlace_completes (h : PlansHold env realScratchLen args cores)
    (hroute : RouteOf env realScratchLen args cores hN route)
    (howned : ∀ c, IsArrayOf (cores c) (shared c))
    (hholds : ∀ c p, (shared c).array.activePencil = .ok p →
      HoldsBlock p (shared c).array.extraShape.elementCount array (shared c).array.storage)
    (timed : Bool) :
    Completes (InPlaceEnds direction shared
        (CallFails alloc (fun _ => c2cOperation (if timed then .inPlaceTimed else .inPlace)
            direction)
          (fun c => (cores c).preflightInPlace direction (shared c) (inPlaceWorkspace c))
          fun _ => False)
        (LiftedTransposeFails id)
        (StatesHold (fun c => planRegistry (cores c)) (args topology.here).extraShape
          (destinationEnd (route 0) (route (N - 1)) direction)
          (callResult hN route cores direction array)))
      fun c => (cores c).executeInPlace (alloc c) (environment c) timed direction (shared c)
        (inPlaceWorkspace c) := by
  have : Nonempty (Coords topology.processGrid) := ⟨topology.here⟩
  unfold TransformPlanCore.executeInPlace
  refine Semantics.Ensures.bind (preflight_completes alloc h.descriptor
    (fun c => (h.plan c).descriptor_fits)
    fun c => preflightInPlace_ne_panic (hroute.inputPencil c) (hroute.outputPencil h c)) ?_
  rintro r _ (⟨_, rfl, hpreflight⟩ | ⟨e, rfl, he⟩) _
  · have hbuffers := fun c =>
      (preflightInPlace_ok (hroute.inputPencil c) (hroute.outputPencil h c) (hpreflight c)).buffers
    have hstates := h.inPlaceHolds hroute howned hholds hpreflight
    have hpass := h.passReady (fun c => TransformPlanCore.passContext (alloc c) (environment c)
      (inPlaceWorkspace c).transpose) hroute hbuffers returnPolicy_goesOn
    have hrun : Completes (Together (StatesHold (fun c => planRegistry (cores c))
          (args topology.here).extraShape (destinationEnd (route 0) (route (N - 1)) direction)
          (callResult hN route cores direction array)) (LiftedTransposeFails id))
        fun c => (match direction with
          | .forward => Model.forwardPassInPlace TransformPlanCore.returnPolicy
              (TransformPlanCore.complexKernels (inPlaceWorkspace c).fftScratchLen
                (inPlaceWorkspace c).lineBufferLen direction)
              (TransformPlanCore.passContext (alloc c) (environment c)
                (inPlaceWorkspace c).transpose)
              (cores c).stages (cores c).transitions ⟨(shared c).array, [],
                TransformPlanCore.freshReport N timed⟩
          | .inverse | .backward => Model.reversePassInPlace TransformPlanCore.returnPolicy
              (TransformPlanCore.complexKernels (inPlaceWorkspace c).fftScratchLen
                (inPlaceWorkspace c).lineBufferLen direction)
              (TransformPlanCore.passContext (alloc c) (environment c)
                (inPlaceWorkspace c).transpose)
              (cores c).stages (cores c).transitions ⟨(shared c).array, [],
                TransformPlanCore.freshReport N timed⟩).run := by
      cases direction with
      | forward => exact (hpass .forward).forwardPassInPlace hstates
      | inverse => exact (hpass .inverse).reversePassInPlace hstates
      | backward => exact (hpass .backward).reversePassInPlace hstates
    refine Semantics.Ensures.bind hrun ?_
    rintro r _ (⟨states, rfl, hfinal⟩ | ⟨e, rfl, he⟩) _
    · refine .returned _ (fun _ => rfl) trivial ?_
      cases direction <;> exact .done states hfinal
    · exact .returned _ (fun _ => rfl) trivial (.failed e he)
  · exact .returned _ (fun _ => rfl) trivial (.refused e he)

end Calls

end PencilRs.Analysis
