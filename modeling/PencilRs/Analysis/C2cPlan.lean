import PencilRs.Analysis.FftPlan
import PencilRs.Model.C2c

/-!
# Complex plans

Every rank's plan has a stage for each axis, on a pencil that holds the axis whole, and its
transitions lead from stage to stage.  The steps of the constructor that no agreement follows
cannot fail.
-/

set_option autoImplicit false

namespace PencilRs.Analysis

open PencilRs.Computation PencilRs.Model
open Semantics.Ensures (Together together_bind together_adapt)

variable {N M : ℕ} {K P ε β : Type}

/-! ## Routes -/

theorem validateInput_ok {input : Except FftError (Pencil N M)} {topology : MpiTopology M}
    {globalShape : Fin N → ℕ} {p : Pencil N M} (h : validateInput input topology globalShape = .ok p) :
    2 ≤ N ∧ M < N ∧ input = .ok p ∧ p.topology = topology ∧ p.globalShape = globalShape ∧
      IsCanonical p := by
  unfold validateInput at h
  obtain ⟨_, hdimensions, h⟩ := bind_eq_ok.mp h
  obtain ⟨_, _, h⟩ := bind_eq_ok.mp h
  obtain ⟨q, hinput, h⟩ := bind_eq_ok.mp h
  obtain ⟨_, htopology, h⟩ := bind_eq_ok.mp h
  obtain ⟨_, hshape, h⟩ := bind_eq_ok.mp h
  obtain ⟨_, hpermutation, h⟩ := bind_eq_ok.mp h
  obtain ⟨_, hdecomposition, h⟩ := bind_eq_ok.mp h
  obtain rfl := Except.ok.inj h
  rw [ensure_eq_ok] at hdimensions
  simp only [Bool.and_eq_true, decide_eq_true_eq] at hdimensions
  rw [ensure_eq_ok, decide_eq_true_eq] at htopology hshape
  rw [ensure_eq_ok, List.all_eq_true] at hpermutation hdecomposition
  refine ⟨hdimensions.1.1, hdimensions.2, hinput, htopology, hshape, ?_, ?_⟩
  · exact fun axis => of_decide_eq_true (hpermutation axis (List.mem_finRange axis))
  · exact fun t => of_decide_eq_true (hdecomposition t (List.mem_finRange t))

/-- The stages of a route that was built. -/
theorem buildRoute_ok {alloc : RouteAllocator} {input : Except FftError (Pencil N M)}
    {topology : MpiTopology M} {globalShape : Fin N → ℕ} {permuteDims : Bool}
    {route : RouteCandidate N M}
    (h : buildRoute alloc input topology globalShape permuteDims = .ok route) :
    2 ≤ N ∧ M < N ∧ List.Forall₂ (IsStage topology globalShape permuteDims) (List.range N).reverse
        route.stages ∧
      route.distributed = (List.range (N - 1)).reverse.map fun axis => decide (axis < M) := by
  unfold buildRoute at h
  obtain ⟨p, hvalid, hroute⟩ := bind_eq_ok.mp h
  obtain ⟨htwo, hMN, _, rfl, rfl, hcanonical⟩ := validateInput_ok hvalid
  obtain ⟨_, _, hroute⟩ := bind_eq_ok.mp hroute
  obtain ⟨_, _, hroute⟩ := bind_eq_ok.mp hroute
  obtain ⟨⟨built, current⟩, hbuilt, hroute⟩ := bind_eq_ok.mp hroute
  dsimp only at hroute
  obtain ⟨_, _, hroute⟩ := bind_eq_ok.mp hroute
  obtain ⟨_, _, hroute⟩ := bind_eq_ok.mp hroute
  obtain rfl := Except.ok.inj hroute
  have hfirst : IsStage p.topology p.globalShape permuteDims (N - 1) p := hcanonical.isStage hMN
  obtain ⟨stages, last, hloop, hstages, _⟩ :=
    foldlM_routeStep { stages := [p], distributed := [] } hMN (show N - 1 < N by omega) hfirst
  obtain ⟨rfl, rfl⟩ := Prod.mk.inj (Except.ok.inj (hbuilt.symm.trans hloop))
  refine ⟨htwo, hMN, ?_, List.nil_append _⟩
  have hrange : List.range N = List.range (N - 1) ++ [N - 1] := by
    rw [← List.range_succ]
    congr 1
    omega
  rw [hrange, List.reverse_append, List.reverse_singleton]
  exact List.Forall₂.cons hfirst hstages

/-! ## Stages -/

/-- The stage of an axis: nothing, or the local plan of the axis. -/
structure StagePrepared (env : FftEnvironment K) (globalShape : Fin N → ℕ)
    (selection : AxisSelection N) (directions : FourierDirections N) (backend : BackendChoice)
    (axis : Fin N) (pencil : Pencil N M) (stage : TransformStage (LocalTransform P K) N M) :
    Prop where
  axis_eq : stage.axis = axis
  input_eq : stage.input = pencil
  output_eq : stage.output = pencil
  whole : pencil.localShapeLogical axis = globalShape axis
  planned : (selection.mask axis = false ∧ stage.localTransform = .identity) ∨
    (selection.mask axis = true ∧ ∃ plan, stage.localTransform = .complex plan ∧
      planLine env (globalShape axis) (directions.direction axis = .backward) backend = .ok plan)

section Prepare

variable {env : FftEnvironment K} {realScratchLen : P → ℕ} {globalShape : Fin N → ℕ}
  {selection : AxisSelection N} {directions : FourierDirections N} {backend : BackendChoice}

theorem axisOf_eq (axis : Fin N) : axisOf N axis = some axis := by
  unfold axisOf
  rw [dif_pos axis.isLt]

theorem contains_eq (axis : Fin N) : selection.contains axis = selection.mask axis := by
  unfold AxisSelection.contains
  rw [dif_pos axis.isLt]

theorem get_eq (axis : Fin N) : directions.get axis = some (directions.direction axis) := by
  unfold FourierDirections.get
  rw [dif_pos axis.isLt]

theorem validateLineLen_pos {complexSize n : ℕ} (h : validateLineLen complexSize n = .ok ()) :
    0 < n := by
  unfold validateLineLen at h
  obtain ⟨_, hlen, _⟩ := bind_eq_ok.mp h
  rw [ensure_eq_ok, decide_eq_true_eq] at hlen
  omega

/-- A local plan is for lines of the length it was asked for. -/
theorem planLine_lineLen {n : ℕ} {positive : Bool}
    {backend : BackendChoice} {plan : LocalC2cPlan K}
    (h : planLine env n positive backend = .ok plan) : plan.lineLen = n ∧ 0 < n := by
  cases backend with
  | rustFft =>
    unfold planLine LocalC2cPlan.newWithSign at h
    obtain ⟨_, hvalid, h⟩ := bind_eq_ok.mp (mapError_eq_ok.mp h)
    obtain rfl := Except.ok.inj h
    exact ⟨rfl, validateLineLen_pos hvalid⟩
  | fftw options =>
    unfold planLine LocalC2cPlan.newFftwWithSign at h
    obtain ⟨_, hvalid, h⟩ := bind_eq_ok.mp (mapError_eq_ok.mp h)
    obtain ⟨_, _, h⟩ := bind_eq_ok.mp h
    obtain ⟨_, _, h⟩ := bind_eq_ok.mp h
    obtain rfl := Except.ok.inj h
    exact ⟨rfl, validateLineLen_pos (mapError_eq_ok.mp hvalid)⟩

theorem prepareComplexStage_ok {pencil : Pencil N M} (axis : Fin N)
    {stage : TransformStage (LocalTransform P K) N M}
    (h : prepareComplexStage env pencil globalShape axis (selection.contains axis) directions
      backend = .ok stage) :
    StagePrepared env globalShape selection directions backend axis pencil stage := by
  unfold prepareComplexStage at h
  rw [axisOf_eq, contains_eq, get_eq] at h
  obtain ⟨_, haxis, h⟩ := bind_eq_ok.mp h
  obtain rfl := Option.some.inj (okOr_eq_ok.mp haxis)
  obtain ⟨_, hlocal, h⟩ := bind_eq_ok.mp h
  obtain ⟨localTransform, htransform, h⟩ := bind_eq_ok.mp h
  obtain rfl := Except.ok.inj h
  rw [ensure_eq_ok] at hlocal
  unfold axisIsLocal at hlocal
  rw [Bool.and_eq_true, decide_eq_true_eq] at hlocal
  refine ⟨rfl, rfl, rfl, hlocal.2, ?_⟩
  cases hselected : selection.mask axis with
  | false =>
    rw [hselected, if_neg (by decide)] at htransform
    exact Or.inl ⟨rfl, (Except.ok.inj htransform).symm⟩
  | true =>
    rw [hselected, if_pos rfl, mapError_eq_ok] at htransform
    refine Or.inr ⟨rfl, ?_⟩
    cases hplan : planLine env (globalShape axis)
        (decide (some (directions.direction axis) = some FourierDirection.backward)) backend with
    | error e =>
      rw [hplan] at htransform
      contradiction
    | ok plan =>
      rw [hplan] at htransform
      refine ⟨plan, (Except.ok.inj htransform).symm, ?_⟩
      simpa only [Option.some.injEq] using hplan

theorem prepareComplexStage_ne_panic {pencil : Pencil N M} (axis : Fin N) {selected : Bool} :
    prepareComplexStage (P := P) env pencil globalShape axis selected directions backend
      ≠ .error .panic := by
  unfold prepareComplexStage
  rw [axisOf_eq]
  simp only [okOr_some, bind, Except.bind]
  cases axisIsLocal pencil globalShape axis with
  | false => simp
  | true =>
    cases selected with
    | false => simp [pure, Except.pure]
    | true =>
      simp only [ensure_true, if_true]
      cases planLine env (globalShape axis)
        (decide (directions.get axis = some FourierDirection.backward)) backend <;>
        simp [Except.map, Except.mapError, pure, Except.pure]

/-- The first `n` stages are prepared. -/
structure PreparedUpTo (env : FftEnvironment K) (realScratchLen : P → ℕ) (globalShape : Fin N → ℕ)
    (selection : AxisSelection N) (directions : FourierDirections N) (backend : BackendChoice)
    (pencils : List (Pencil N M)) (n : ℕ)
    (prepared : StagePreparation (LocalTransform P K) N M) : Prop where
  length : prepared.stages.length = n
  stage : ∀ k stage, prepared.stages[k]? = some stage → ∃ (pencil : Pencil N M) (axis : Fin N),
    pencils[k]? = some pencil ∧ (axis : ℕ) = N - 1 - k ∧
    StagePrepared env globalShape selection directions backend axis pencil stage ∧
    stage.localTransform.scratchLen realScratchLen ≤ prepared.fftScratchLen

variable {pencils : List (Pencil N M)} {n : ℕ}
  {prepared prepared' : StagePreparation (LocalTransform P K) N M}

theorem prepareStageStep_ok {pencil : Pencil N M}
    (h : PreparedUpTo env realScratchLen globalShape selection directions backend pencils n
      prepared) (hn : n < N) (hpencil : pencils[n]? = some pencil)
    (hstep : prepareStageStep env realScratchLen globalShape selection directions backend prepared
      (pencil, n) = .ok prepared') :
    PreparedUpTo env realScratchLen globalShape selection directions backend pencils (n + 1)
      prepared' := by
  unfold prepareStageStep at hstep
  obtain ⟨axis, haxis, hstep⟩ := bind_eq_ok.mp hstep
  obtain ⟨stage, hstage, hstep⟩ := bind_eq_ok.mp hstep
  obtain rfl := Except.ok.inj hstep
  obtain rfl := (checkedSub_eq_some.mp (okOr_eq_ok.mp haxis)).2
  have hstage := prepareComplexStage_ok ⟨N - 1 - n, by omega⟩ hstage
  refine ⟨by rw [List.length_append, h.length, List.length_singleton], ?_⟩
  intro k other hother
  by_cases hk : k < n
  · rw [List.getElem?_append_left (by rw [h.length]; exact hk)] at hother
    obtain ⟨pencil, axis, hpencil, haxis, hprepared, hscratch⟩ := h.stage k other hother
    exact ⟨pencil, axis, hpencil, haxis, hprepared, hscratch.trans (le_max_left ..)⟩
  · rw [List.getElem?_append_right (by rw [h.length]; omega), h.length] at hother
    obtain ⟨hlt, heq⟩ := List.getElem?_eq_some_iff.mp hother
    obtain rfl : k = n := by
      have : k - n < 1 := hlt
      omega
    rw [List.getElem_singleton] at heq
    subst heq
    exact ⟨pencil, _, hpencil, rfl, hstage, le_max_right ..⟩

/-- One prepared stage, with the axis its pencil visits. -/
theorem PreparedUpTo.at {topology : MpiTopology M} {permuteDims : Bool}
    (h : PreparedUpTo env realScratchLen globalShape selection directions backend pencils N prepared)
    (hpencils : List.Forall₂ (IsStage topology globalShape permuteDims) (List.range N).reverse
      pencils) {k : ℕ} (hk : k < N) :
    ∃ (stage : TransformStage (LocalTransform P K) N M) (axis : Fin N),
      prepared.stages[k]? = some stage ∧ (axis : ℕ) = N - 1 - k ∧ stage.input = stage.output ∧
      IsStage topology globalShape permuteDims (N - 1 - k) stage.output ∧
      StagePrepared env globalShape selection directions backend axis stage.output stage ∧
      stage.localTransform.scratchLen realScratchLen ≤ prepared.fftScratchLen := by
  have hlength : k < prepared.stages.length := by
    rw [h.length]
    exact hk
  have hstage : prepared.stages[k]? = some prepared.stages[k] := List.getElem?_eq_getElem hlength
  obtain ⟨pencil, axis, hpencil, haxis, hprepared, hscratch⟩ := h.stage k _ hstage
  obtain ⟨_, hisStage⟩ := stage_of_getElem? hpencils hpencil
  rw [← hprepared.output_eq] at hisStage
  refine ⟨_, axis, hstage, haxis, hprepared.input_eq.trans hprepared.output_eq.symm, hisStage, ?_,
    hscratch⟩
  rw [hprepared.output_eq]
  exact hprepared

variable {route : RouteCandidate N M} {reserved : Bool}

theorem prepareStagesBackend_ok (hlen : route.stages.length = N)
    (h : prepareStagesBackend reserved env realScratchLen route globalShape selection directions
      backend = .ok prepared) :
    PreparedUpTo env realScratchLen globalShape selection directions backend route.stages N
      prepared := by
  unfold prepareStagesBackend at h
  obtain ⟨_, _, h⟩ := bind_eq_ok.mp h
  have hloop := foldlM_ok_inv (I := PreparedUpTo env realScratchLen globalShape selection
    directions backend route.stages) ⟨rfl, fun k stage h => by simp at h⟩ ?_ h
  · rwa [List.length_zipIdx, hlen] at hloop
  · intro k entry hentry prepared prepared' hprepared hstep
    rw [List.getElem?_zipIdx, Nat.zero_add] at hentry
    obtain ⟨pencil, hpencil, rfl⟩ := Option.map_eq_some_iff.mp hentry
    refine prepareStageStep_ok hprepared ?_ hpencil hstep
    rw [← hlen]
    exact (List.getElem?_eq_some_iff.mp hpencil).1

/-- A route has no stage for which there is no axis. -/
theorem prepareStagesBackend_ne_panic (hlen : route.stages.length = N) :
    prepareStagesBackend reserved env realScratchLen route globalShape selection directions backend
      ≠ .error .panic := by
  unfold prepareStagesBackend
  cases reserved with
  | false => simp [bind, Except.bind]
  | true =>
    apply foldlM_ne_error
    rintro ⟨pencil, index⟩ hmem current
    have hindex : index < N := by
      have := List.snd_lt_of_mem_zipIdx hmem
      omega
    have hstage : prepareComplexStage (P := P) env pencil globalShape (N - 1 - index)
        (selection.contains (N - 1 - index)) directions backend ≠ .error .panic :=
      prepareComplexStage_ne_panic ⟨N - 1 - index, by omega⟩
    have haxis : checkedSub (N - 1) index = some (N - 1 - index) :=
      checkedSub_eq_some.mpr ⟨by omega, rfl⟩
    unfold prepareStageStep
    dsimp only
    rw [haxis]
    simp only [okOr_some, bind, Except.bind]
    split
    · rename_i e herror
      rintro ⟨⟩
      exact hstage herror
    · simp [pure, Except.pure]

/-! ## The line buffer -/

theorem stridedComplexLineLen_eq {stages : List (TransformStage (LocalTransform P K) N M)}
    (haxes : ∀ stage ∈ stages, stage.axis < N) :
    ∃ required, stridedComplexLineLen stages = .ok required ∧
      ∀ stage ∈ stages, ∀ plan, stage.localTransform = .complex plan →
        LineBufferFits stage.output stage.axis plan.lineLen required := by
  refine foldlM_list_inv (m := Except FftError) _
    (fun visited required => ∀ stage ∈ visited, ∀ plan, stage.localTransform = .complex plan →
      LineBufferFits stage.output stage.axis plan.lineLen required) stages 0 nofun ?_
  intro visited stage hvisited required hrequired
  have hlt := haxes stage (hvisited.subset (by simp))
  obtain ⟨q, hq⟩ := stage.output.permutation.surjective ⟨stage.axis, hlt⟩
  have hstride := memoryStride_eq hq
  have hgrow : ∀ larger, required ≤ larger → (∀ plan, stage.localTransform = .complex plan →
      LineBufferFits stage.output stage.axis plan.lineLen larger) →
      ∀ other ∈ visited ++ [stage], ∀ plan, other.localTransform = .complex plan →
        LineBufferFits other.output other.axis plan.lineLen larger := by
    intro larger hle hlast other hother plan hplan
    obtain hmem | rfl := List.mem_append.mp hother |>.imp_right List.mem_singleton.mp
    · intro stride hother hone
      exact (hrequired other hmem plan hplan stride hother hone).trans hle
    · exact hlast plan hplan
  unfold stridedLineLenStep
  cases hlocal : stage.localTransform with
  | identity => exact ⟨required, rfl, hgrow _ le_rfl fun plan hplan => by simp [hlocal] at hplan⟩
  | realComplex realPlan =>
    exact ⟨required, rfl, hgrow _ le_rfl fun plan hplan => by simp [hlocal] at hplan⟩
  | complex plan =>
    show ∃ larger, (memoryStride stage.output (⟨stage.axis, hlt⟩ : Fin N) >>= fun stride =>
      Except.ok (if stride > 1 then max required plan.lineLen else required)) = .ok larger ∧ _
    rw [hstride]
    have hmax : ∀ stride, required ≤ if stride > 1 then max required plan.lineLen else required := by
      intro stride
      split
      · exact le_max_left ..
      · exact le_rfl
    refine ⟨_, rfl, hgrow _ (hmax _) ?_⟩
    intro plan' hplan' stride hother hone
    rw [hlocal] at hplan'
    obtain rfl := LocalTransform.complex.inj hplan'
    obtain rfl := Except.ok.inj (hstride.symm.trans hother)
    rw [if_pos hone]
    exact le_max_right ..

end Prepare

/-! ## The constructor -/

/-- The plan a constructor leaves on one rank. -/
structure IsC2cPlan (env : FftEnvironment K) (realScratchLen : P → ℕ) (topology : MpiTopology M)
    (args : ConstructArgs N M) (core : TransformPlanCore P K N M) : Prop where
  two_le : 2 ≤ N
  lt : M < N
  prepared : ∃ pencils, List.Forall₂
      (IsStage topology args.globalShape args.layout.permuteDims) (List.range N).reverse pencils ∧
    PreparedUpTo env realScratchLen args.globalShape args.selection args.directions args.backend
      pencils N ⟨core.stages, core.fftScratchLen⟩
  lines : ∀ stage ∈ core.stages, ∀ plan, stage.localTransform = .complex plan →
    LineBufferFits stage.output stage.axis plan.lineLen core.stridedLineLen
  transitions : BuiltUpTo core.stages ((List.range (N - 1)).reverse.map fun axis => decide (axis < M))
    args.extraShape.elementCount args.layout.transposeMethod 0 (N - 1) (core.transitions, core.lengths)
  extraShape : core.extraShape = args.extraShape
  descriptor_fits : lengthFits core.descriptor.length = true

/-- What two ranks agree on before they plan. -/
structure ArgsAgree (args args' : ConstructArgs N M) : Prop where
  requests : RequestsAgree args.globalShape args'.globalShape args.extraShape args'.extraShape
    args.selection args'.selection args.layout args'.layout
  directions : args.directions = args'.directions

theorem direction_of_word {d d' : FourierDirection} (h : d.word = d'.word) : d = d' := by
  cases d <;> cases d' <;> first | rfl | contradiction

/-- Equal descriptors come from arguments that agree. -/
theorem constructProposal_agree {alloc alloc' : ConstructAllocator} {realSize realSize' : ℕ}
    {topology topology' : MpiTopology M} {args args' : ConstructArgs N M} {words : List (BitVec 64)}
    (h : (constructProposal alloc realSize topology args).descriptor = some words)
    (h' : (constructProposal alloc' realSize' topology' args').descriptor = some words) :
    ArgsAgree args args' := by
  obtain ⟨hwords, hlen⟩ := ofExpectedLength_eq_some h
  obtain ⟨hwords', hlen'⟩ := ofExpectedLength_eq_some h'
  obtain ⟨length, hbase, _⟩ := Option.bind_eq_some_iff.mp hlen
  obtain ⟨length', hbase', _⟩ := Option.bind_eq_some_iff.mp hlen'
  have heq := hwords.symm.trans hwords'
  rw [List.append_assoc, List.append_assoc] at heq
  obtain ⟨hrequests, hrest⟩ := fftDescriptorWords_inj (fftDescriptorLen_dimensions hbase)
    (fftDescriptorLen_dimensions hbase') heq
  obtain ⟨hdirections, _⟩ := List.append_inj hrest (by simp)
  refine ⟨hrequests, ?_⟩
  have hdirections : args.directions.direction = args'.directions.direction := by
    funext axis
    exact direction_of_word (congrFun (List.ofFn_injective hdirections) axis)
  cases hd : args.directions
  cases hd' : args'.directions
  rw [hd, hd'] at hdirections
  exact congrArg _ hdirections

section Construct

variable {topology : MpiTopology M} {realScratchLen : P → ℕ}

theorem agreePrepared_completes
    {results : Coords topology.processGrid → Except (Stop (BackendInitError FftError)) β}
    (hpanic : ∀ c, results c ≠ .error .panic) :
    Completes (α := K) (Together (fun x => ∀ c, results c = .ok (x c)) AllError)
      fun c => (agreePrepared (results c)).run := by
  have hexists : ∀ c, ∃ result : Except (BackendInitError FftError) β,
      results c = result.mapError Stop.error := by
    intro c
    match hresult : results c with
    | .ok value => exact ⟨.ok value, rfl⟩
    | .error (.error e) => exact ⟨.error e, rfl⟩
    | .error .panic => exact absurd hresult (hpanic c)
  choose result hresult using hexists
  have hagree : ∀ c, (agreePrepared (results c) : RankProgram K M _ β)
      = agreePreflight (result c) .peerPreflight := by
    intro c
    rw [hresult c]
    cases result c <;> rfl
  simp only [hagree]
  refine (agreePreflight_together result fun _ => .peerPreflight).mono (fun _ h => h) ?_
  refine fun r _ h => h.mono (fun x hx c => ?_) fun _ h => h
  rw [hresult c, hx c]
  rfl

theorem allError_ofFft {e : Coords topology.processGrid → Stop FftError} (h : AllError e) :
    AllError fun c => ofFft (e c) := by
  intro c
  obtain ⟨error, herror⟩ := h c
  exact ⟨.local error, congrArg ofFft herror⟩

/-- The plans of all ranks, which come from one call of the constructor. -/
structure PlansHold (env : Coords topology.processGrid → FftEnvironment K)
    (realScratchLen : P → ℕ) (args : Coords topology.processGrid → ConstructArgs N M)
    (cores : Coords topology.processGrid → TransformPlanCore P K N M) : Prop where
  agree : ∀ c d, ArgsAgree (args c) (args d)
  descriptor : ∀ c d, (cores c).descriptor = (cores d).descriptor
  plan : ∀ c, IsC2cPlan (env c) realScratchLen (topology.atCoords c) (args c) (cores c)

/-- **The constructor** leaves a plan on every rank, for arguments that agree, or fails on every
rank. -/
theorem constructWithBackend_completes (alloc : Coords topology.processGrid → ConstructAllocator)
    (env : Coords topology.processGrid → FftEnvironment K)
    (args : Coords topology.processGrid → ConstructArgs N M) :
    Completes (α := K) (Together (PlansHold env realScratchLen args) AllError)
      fun c => (constructWithBackend (alloc c) (env c) realScratchLen (topology.atCoords c)
        (args c)).run := by
  have : Nonempty (Coords topology.processGrid) := ⟨topology.here⟩
  unfold constructWithBackend
  have hcompare := @agreeFftDescriptor_together _ K _ _ BackendInitError.local fun c =>
    constructProposal (alloc c) (env c).realSize (topology.atCoords c) (args c)
  refine completes_bind hcompare fun words hwords => ?_
  obtain ⟨hequal, hdescriptor, _, hfitsWords⟩ := hwords
  have hagree : ∀ c d, ArgsAgree (args c) (args d) := fun c d =>
    constructProposal_agree (hdescriptor c) (hequal c d ▸ hdescriptor d)
  refine completes_bind (agreeResult_completes _ _) fun route hroute => ?_
  refine completes_bind (agreeResult_completes _ _) fun _ _ => ?_
  choose htwo hlt hstages hdistributed using fun c => buildRoute_ok (mapError_eq_ok.mp (hroute c))
  have hlen : ∀ c, (route c).stages.length = N := fun c => by
    simpa using (hstages c).length_eq.symm
  refine completes_bind (agreePrepared_completes fun c =>
    prepareStagesBackend_ne_panic (hlen c)) fun prepared hprepared => ?_
  have hprepared := fun c => prepareStagesBackend_ok (hlen c) (hprepared c)
  obtain ⟨method, hmethod⟩ : ∃ method, ∀ c, (args c).layout.transposeMethod = method :=
    ⟨_, fun c => congrArg _ (hagree c topology.here).requests.layout⟩
  obtain ⟨permuteDims, hpermute⟩ : ∃ permuteDims, ∀ c, (args c).layout.permuteDims = permuteDims :=
    ⟨_, fun c => congrArg _ (hagree c topology.here).requests.layout⟩
  simp only [hpermute] at hstages
  have hbranch : ∀ k < ((List.range (N - 1)).reverse.map fun axis => decide (axis < M)).length,
      ∃ source destination, SameBranch (fun c => (prepared c).stages)
        ((List.range (N - 1)).reverse.map fun axis => decide (axis < M)) k source destination := by
    intro k hk
    rw [List.length_map, List.length_reverse, List.length_range] at hk
    choose source _ hsource _ _ hs _ using fun c =>
      (hprepared c).at (hstages c) (show k < N by omega)
    choose destination _ hdestination _ hsame hd _ using fun c =>
      (hprepared c).at (hstages c) (show k + 1 < N by omega)
    refine ⟨fun c => (source c).output, fun c => (destination c).output, sameBranch_of_isStage
      (fun c => ?_) (fun c => ?_) hs hd⟩
    · rw [hsource c]
      rfl
    · rw [hdestination c, Option.map_some, hsame c]
  simp only [hdistributed, hmethod]
  refine completes_bind (together_adapt (f := fun _ => ofFft) (buildTransitions_completes
    (fun c => (alloc c).transitions) (fun c => (args c).extraShape) hbranch)
      fun e he => allError_ofFft he) fun built hbuilt => ?_
  have hlines : ∀ c, ∃ required, stridedComplexLineLen (prepared c).stages = .ok required ∧
      ∀ stage ∈ (prepared c).stages, ∀ plan, stage.localTransform = .complex plan →
        LineBufferFits stage.output stage.axis plan.lineLen required := by
    intro c
    apply stridedComplexLineLen_eq
    intro stage hstage
    obtain ⟨k, hk, rfl⟩ := List.getElem_of_mem hstage
    obtain ⟨_, axis, _, _, hstage, _⟩ := (hprepared c).stage k _ (List.getElem?_eq_getElem hk)
    rw [hstage.axis_eq]
    exact axis.isLt
  choose required hrequired hfits using hlines
  simp only [hrequired]
  refine completes_ok ⟨hagree, hequal, fun c => ?_⟩
  exact {
    two_le := htwo c
    lt := hlt c
    prepared := ⟨(route c).stages, by rw [hpermute c]; exact hstages c, hprepared c⟩
    lines := hfits c
    transitions := by
      have := hbuilt c
      rw [List.length_map, List.length_reverse, List.length_range] at this
      rw [hmethod c]
      exact this
    extraShape := rfl
    descriptor_fits := hfitsWords c }

end Construct

end PencilRs.Analysis
