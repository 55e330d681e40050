import PencilRs.Analysis.DescriptorWords
import PencilRs.Analysis.FftRoute
import PencilRs.Analysis.Pass
import PencilRs.Model.FftPlan

/-!
# The constructors agree

Whatever the ranks bring to a constructor, every phase is followed by an agreement, so the ranks
get plans together or fail together.
-/

set_option autoImplicit false

namespace PencilRs.Analysis

open PencilRs.Computation PencilRs.Model
open Semantics.Ensures (Together together_bind together_adapt)

variable {N M : ℕ} {K L P ε ε' β : Type} {topology : MpiTopology M}

/-! ## Agreements -/

/-- Every rank fails with an error of its own. -/
def AllError (e : Coords topology.processGrid → Stop ε) : Prop := ∀ c, ∃ error, e c = .error error

/-- Some rank has no result of its own. -/
def SomeFails (results : Coords topology.processGrid → Except ε β) : Prop :=
  ∃ c e, results c = .error e

theorem agreePreflight_verdict (results : Coords topology.processGrid → Except ε β)
    (peerError : Coords topology.processGrid → ε) :
    Completes (α := K) (Together (fun x => ∀ c, results c = .ok (x c))
        fun e => AllError e ∧ SomeFails results)
      fun c => (agreePreflight (results c) (peerError c)).run := by
  have : Nonempty (Coords topology.processGrid) := ⟨topology.here⟩
  refine (agreePreflight_completes results peerError).mono (fun _ h => h) ?_
  rintro r _ (⟨x, hx, rfl⟩ | ⟨hfails, e, rfl, _⟩)
  · exact Or.inl ⟨x, rfl, hx⟩
  · exact Or.inr ⟨_, rfl, fun c => ⟨e c, rfl⟩, hfails⟩

theorem agreePreflight_together (results : Coords topology.processGrid → Except ε β)
    (peerError : Coords topology.processGrid → ε) :
    Completes (α := K) (Together (fun x => ∀ c, results c = .ok (x c)) AllError)
      fun c => (agreePreflight (results c) (peerError c)).run :=
  (agreePreflight_verdict results peerError).mono (fun _ h => h)
    fun _ _ h => h.mono (fun _ h => h) fun _ => And.left

theorem agreeResult_completes (lift : FftError → ε)
    (results : Coords topology.processGrid → Except ε β) :
    Completes (α := K) (Together (fun x => ∀ c, results c = .ok (x c)) AllError)
      fun c => (agreeResult lift (results c)).run :=
  agreePreflight_together results fun _ => lift .collectivePreconditionFailed

theorem run_attempt (p : RankProgram K M ε β) :
    (attempt p : RankProgram K M ε' (Except ε β)).run = p.run.bind fun
      | .ok value => .ret (.ok (.ok value))
      | .error (.error e) => .ret (.ok (.error e))
      | .error .panic => .ret (.error .panic) := rfl

/-- A collective call and an agreement on its result. -/
theorem agreeCall_completes {lift : FftError → ε} {good : (Coords topology.processGrid → β) → Prop}
    {p : Coords topology.processGrid → RankProgram K M ε β}
    (h : Completes (Together good AllError) fun c => (p c).run) :
    Completes (Together good AllError) fun c => (agreeCall lift (p c)).run := by
  have : Nonempty (Coords topology.processGrid) := ⟨topology.here⟩
  have hattempt : Completes (Together (fun results : Coords topology.processGrid → Except ε β =>
        (∃ x, results = (fun c => .ok (x c)) ∧ good x) ∨ ∃ c e, results c = .error e) AllError)
      fun c => (attempt (p c) : RankProgram K M ε (Except ε β)).run := by
    simp only [run_attempt]
    refine Semantics.Ensures.bind h ?_
    rintro r _ (⟨x, rfl, hx⟩ | ⟨e, rfl, he⟩) _
    · exact .returned (fun c => .ok (.ok (x c))) (fun _ => rfl) trivial
        (Or.inl ⟨_, rfl, Or.inl ⟨x, rfl, hx⟩⟩)
    · choose error herror using he
      refine .returned (fun c => .ok (.error (error c))) (fun c => ?_) trivial
        (Or.inl ⟨_, rfl, Or.inr ⟨topology.here, error topology.here, rfl⟩⟩)
      simp only [herror]
  unfold agreeCall
  refine completes_bind hattempt fun results hresults => ?_
  refine (agreeResult_completes lift results).mono (fun _ h => h) fun r _ h => h.mono ?_
    fun _ h => h
  intro x hx
  obtain ⟨y, rfl, hy⟩ | ⟨c, e, herror⟩ := hresults
  · obtain rfl : x = y := funext fun c => (Except.ok.inj (hx c)).symm
    exact hy
  · rw [hx c] at herror
    contradiction

/-- Every rank proposes the same and can compare it. -/
structure ProposalsPass (proposal : Coords topology.processGrid → Proposal 64) : Prop where
  header : ∀ c d, (proposal c).header = (proposal d).header
  ready : ∀ c, (proposal c).ready lengthFits = true
  descriptor : ∀ c d, (proposal c).descriptor = (proposal d).descriptor

/-- The words that were compared. -/
structure ComparedWords (proposal : Coords topology.processGrid → Proposal 64)
    (words : Coords topology.processGrid → List (BitVec 64)) : Prop where
  equal : ∀ c d, words c = words d
  descriptor : ∀ c, (proposal c).descriptor = some (words c)
  header : ∀ c d, (proposal c).header = (proposal d).header
  fits : ∀ c, lengthFits (words c).length = true

/-- **The descriptors of the transforms.** -/
theorem agreeFftDescriptor_completes (lift : FftError → ε)
    (proposal : Coords topology.processGrid → Proposal 64) :
    Completes (α := K) (Together (ComparedWords proposal)
        fun e => AllError e ∧ ¬ ProposalsPass proposal)
      fun c => (agreeFftDescriptor lift (proposal c)).run := by
  have : Nonempty (Coords topology.processGrid) := ⟨topology.here⟩
  unfold agreeFftDescriptor
  refine (compareDescriptor_completes proposal (lift .collectiveDescriptorMismatch)
    (lift .preparationFailed)).mono (fun _ h => h) ?_
  rintro r _ (hheader | ⟨_, hready⟩ | ⟨_, _, hdiffer⟩ | ⟨words, hheader, hready, hequal⟩)
  · exact Or.inr ⟨_, rfl, fun _ => ⟨_, rfl⟩, fun hpass => hheader hpass.header⟩
  · exact Or.inr ⟨_, rfl, fun _ => ⟨_, rfl⟩, fun hpass => hready hpass.ready⟩
  · exact Or.inr ⟨_, rfl, fun _ => ⟨_, rfl⟩, fun hpass => hdiffer hpass.descriptor⟩
  · refine Or.inl ⟨fun _ => words, rfl, fun _ _ => rfl, hequal, hheader, fun c => ?_⟩
    obtain ⟨words', hwords', _, hfits⟩ := ready_descriptor (hready c)
    obtain rfl := Option.some.inj ((hequal c).symm.trans hwords')
    exact hfits

theorem agreeFftDescriptor_together (lift : FftError → ε)
    (proposal : Coords topology.processGrid → Proposal 64) :
    Completes (α := K) (Together (ComparedWords proposal) AllError)
      fun c => (agreeFftDescriptor lift (proposal c)).run :=
  (agreeFftDescriptor_completes lift proposal).mono (fun _ h => h)
    fun _ _ h => h.mono (fun _ h => h) fun _ => And.left

/-! ## What equal descriptors say -/

theorem method_of_word {method method' : TransposeMethod}
    (h : method.descriptorWord = method'.descriptorWord) : method = method' := by
  cases method <;> cases method' <;> first | rfl | contradiction

theorem toNat_inj_word {a b : Bool} (h : BitVec.ofNat 64 a.toNat = BitVec.ofNat 64 b.toNat) :
    a = b := by
  cases a <;> cases b <;> first | rfl | contradiction

/-- Two requests that all families compare. -/
structure RequestsAgree (globalShape globalShape' : Fin N → ℕ) (extraShape extraShape' : ExtraShape)
    (selection selection' : AxisSelection N) (layout layout' : DistributedLayout) : Prop where
  globalShape : words64 (List.ofFn globalShape) = words64 (List.ofFn globalShape')
  extraShape : words64 extraShape.dimensions = words64 extraShape'.dimensions
  selection : selection.mask = selection'.mask
  layout : layout = layout'

theorem fftDescriptorLen_dimensions {extraShape : ExtraShape} {length : ℕ}
    (h : fftDescriptorLen N M extraShape = some length) :
    extraShape.dimensions.length < usizeLimit := by
  unfold fftDescriptorLen at h
  obtain ⟨first, _, h⟩ := Option.bind_eq_some_iff.mp h
  obtain ⟨second, _, h⟩ := Option.bind_eq_some_iff.mp h
  obtain ⟨third, hthird, _⟩ := Option.bind_eq_some_iff.mp h
  have := (checkedAdd_eq_some.mp hthird).1
  omega

theorem fftDescriptorWords_inj {topology' : MpiTopology M} {globalShape globalShape' : Fin N → ℕ}
    {extraShape extraShape' : ExtraShape} {selection selection' : AxisSelection N}
    {valueKind valueKind' : BitVec 64} {realSize realSize' : ℕ} {layout layout' : DistributedLayout}
    {rest rest' : List (BitVec 64)}
    (hextra : extraShape.dimensions.length < usizeLimit)
    (hextra' : extraShape'.dimensions.length < usizeLimit)
    (h : fftDescriptorWords topology globalShape extraShape selection valueKind realSize layout
        ++ rest
      = fftDescriptorWords topology' globalShape' extraShape' selection' valueKind' realSize' layout'
        ++ rest') :
    RequestsAgree globalShape globalShape' extraShape extraShape' selection selection' layout
      layout' ∧ rest = rest' := by
  unfold fftDescriptorWords shapeWords at h
  simp only [List.append_assoc] at h
  obtain ⟨hshape, h⟩ := List.append_inj h (by simp [words64])
  obtain ⟨_, h⟩ := List.append_inj h (by simp [words64])
  obtain ⟨hcount, h⟩ := List.cons.inj h
  have hcount := ofNat64_inj hextra hextra' hcount
  obtain ⟨hdimensions, h⟩ := List.append_inj h (by simp [words64, hcount])
  obtain ⟨hmask, h⟩ := List.append_inj h (by simp [words64])
  obtain ⟨_, h⟩ := List.cons.inj h
  obtain ⟨_, h⟩ := List.cons.inj h
  obtain ⟨hmethod, h⟩ := List.cons.inj h
  obtain ⟨hpermute, h⟩ := List.cons.inj h
  refine ⟨⟨hshape, hdimensions, ?_, ?_⟩, h⟩
  · funext axis
    unfold words64 at hmask
    rw [List.map_ofFn, List.map_ofFn] at hmask
    exact toNat_inj_word (congrFun (List.ofFn_injective hmask) axis)
  · have hmethod := method_of_word hmethod
    have hpermute := toNat_inj_word hpermute
    cases layout
    cases layout'
    simp_all

/-! ## Planning a transpose -/

/-- A plan between two pencils. -/
structure PlansBetween (source destination : Pencil N M) (mode : CommunicationMode)
    (plan : TransposePlanCore N M) : Prop where
  source : plan.source = source
  destination : plan.destination = destination
  mode : plan.mode = mode

theorem newTransposePlan_completes (alloc : Coords topology.processGrid → PlanAllocator)
    (source destination : Coords topology.processGrid → Pencil N M) (mode : CommunicationMode) :
    Completes (α := K) (Together (fun plans => ∀ c, PlansBetween (source c) (destination c) mode
        (plans c)) AllError)
      fun c => (newTransposePlan (alloc c) (source c) (destination c) mode).run := by
  have : Nonempty (Coords topology.processGrid) := ⟨topology.here⟩
  unfold newTransposePlan
  refine completes_bind (motive := fun _ => True) ?_ fun _ _ => ?_
  · refine (agreeExecuteDescriptor_completes fun c => planProposal (alloc c).descriptor (source c)
      (destination c) mode).mono (fun _ h => h) ?_
    rintro r _ (_ | _ | _ | ⟨words, _⟩)
    · exact Or.inr ⟨_, rfl, fun _ => ⟨_, rfl⟩⟩
    · exact Or.inr ⟨_, rfl, fun _ => ⟨_, rfl⟩⟩
    · exact Or.inr ⟨_, rfl, fun _ => ⟨_, rfl⟩⟩
    · exact Or.inl ⟨fun _ => words, rfl, trivial⟩
  · refine completes_bind (agreePreflight_together _ _) fun changed hchanged => ?_
    refine completes_bind (agreePreflight_together _ _) fun peers hpeers => ?_
    have hnew : ∀ c, ∃ plan, TransposePlanCore.new (alloc c).peers (source c) (destination c) mode
        = .ok plan ∧ PlansBetween (source c) (destination c) mode plan := by
      intro c
      unfold TransposePlanCore.new
      split
      case h_1 e herror =>
        have := (hchanged c).symm.trans herror
        contradiction
      case h_2 axis hok =>
        obtain rfl : axis = changed c := Except.ok.inj (hok.symm.trans (hchanged c))
        split
        case h_1 e herror =>
          have := (hpeers c).symm.trans herror
          contradiction
        case h_2 => exact ⟨_, rfl, rfl, rfl, rfl⟩
    choose plan hplan hbetween using hnew
    simp only [hplan]
    exact completes_ok hbetween

/-! ## Building the transitions -/

/-- The mode of a method's transposes. -/
def methodMode : TransposeMethod → CommunicationMode
  | .allToAllv => .allToAllv
  | .pointToPoint => .pointToPoint

/-- The transition a plan of a method is. -/
def transitionBy : TransposeMethod → TransposePlanCore N M → Transition N M
  | .allToAllv, plan => .allToAllv plan
  | .pointToPoint, plan => .pointToPoint plan

theorem buildDistributedTransition_completes
    (alloc : Coords topology.processGrid → PlanAllocator)
    (source destination : Coords topology.processGrid → Pencil N M) (method : TransposeMethod) :
    Completes (α := K) (Together (fun transitions => ∀ c, ∃ plan,
        transitions c = transitionBy method plan ∧
          PlansBetween (source c) (destination c) (methodMode method) plan) AllError)
      fun c => (buildDistributedTransition (alloc c) (source c) (destination c) method).run := by
  have hfails : ∀ e : Coords topology.processGrid → Stop TransposeError, AllError e →
      AllError fun c => ofTranspose (e c) := by
    intro e he c
    obtain ⟨error, herror⟩ := he c
    exact ⟨.transpose error, congrArg ofTranspose herror⟩
  have hwrapped : ∀ wrap : TransposePlanCore N M → Transition N M, ∀ mode,
      Completes (α := K) (Together (fun transitions => ∀ c, ∃ plan, transitions c = wrap plan ∧
          PlansBetween (source c) (destination c) mode plan) AllError)
        fun c => (wrap <$> ExceptT.adapt ofTranspose
          (newTransposePlan (alloc c) (source c) (destination c) mode) :
            RankProgram K M FftError (Transition N M)).run := by
    intro wrap mode
    refine completes_bind (f := fun _ plan => pure (wrap plan)) (together_adapt
      (f := fun _ => ofTranspose) (newTransposePlan_completes alloc source destination mode)
      hfails) fun plans hplans => ?_
    exact completes_ok fun c => ⟨plans c, rfl, hplans c⟩
  cases method with
  | allToAllv => exact hwrapped .allToAllv .allToAllv
  | pointToPoint => exact hwrapped .pointToPoint .pointToPoint

/-- What a transition between two pencils is. -/
inductive JoinsBy (method : TransposeMethod) (source destination : Pencil N M) :
    Bool → StageTransition N M → Prop
  | distributed (forward backward : TransposePlanCore N M)
      (hforward : PlansBetween source destination (methodMode method) forward)
      (hbackward : PlansBetween destination source (methodMode method) backward) :
      JoinsBy method source destination true
        ⟨transitionBy method forward, transitionBy method backward⟩
  | identity (h : source.sameLayout destination = true) :
      JoinsBy method source destination false ⟨.identity, .identity⟩
  | permuted (h : source.sameLayout destination = false)
      (hforward : source.sameDistribution destination = true)
      (hbackward : destination.sameDistribution source = true) :
      JoinsBy method source destination false
        ⟨.local ⟨source, destination⟩, .local ⟨destination, source⟩⟩

/-- A transition that permutes blocks. -/
def IsLocal (transition : StageTransition N M) : Prop :=
  (∃ plan, transition.forward = .local plan) ∨ ∃ plan, transition.backward = .local plan

/-- The blocks that a transition permutes fit into the buffer of the transposes. -/
def HasRoom (E : ℕ) (source destination : Pencil N M) (transition : StageTransition N M)
    (room : ℕ) : Prop :=
  IsLocal transition → E * source.localLen ≤ room ∧ E * destination.localLen ≤ room

theorem HasRoom.mono {E room room' : ℕ} {source destination : Pencil N M}
    {transition : StageTransition N M} (h : HasRoom E source destination transition room)
    (hle : room ≤ room') : HasRoom E source destination transition room' :=
  fun hlocal => ⟨(h hlocal).1.trans hle, (h hlocal).2.trans hle⟩

theorem not_isLocal_distributed {method : TransposeMethod}
    {forward backward : TransposePlanCore N M} :
    ¬ IsLocal ⟨transitionBy method forward, transitionBy method backward⟩ := by
  rintro (⟨plan, h⟩ | ⟨plan, h⟩) <;> cases method <;> contradiction

theorem buildLocalTransition_ok {source destination : Pencil N M} {extraCount : ℕ}
    {built : StageTransition N M × ℕ}
    (h : buildLocalTransition source destination extraCount = .ok built) :
    built.1 = ⟨.local ⟨source, destination⟩, .local ⟨destination, source⟩⟩ ∧
      source.sameDistribution destination = true ∧ destination.sameDistribution source = true ∧
      extraCount * source.localLen ≤ built.2 ∧ extraCount * destination.localLen ≤ built.2 := by
  unfold buildLocalTransition LocalTransposePlan.new at h
  obtain ⟨forward, hforward, h⟩ := bind_eq_ok.mp h
  obtain ⟨backward, hbackward, h⟩ := bind_eq_ok.mp h
  obtain ⟨forwardLen, hforwardLen, h⟩ := bind_eq_ok.mp h
  obtain ⟨backwardLen, hbackwardLen, h⟩ := bind_eq_ok.mp h
  obtain ⟨⟨⟩, hsame, hforward⟩ := bind_eq_ok.mp (mapError_eq_ok.mp hforward)
  obtain ⟨⟨⟩, hsame', hbackward⟩ := bind_eq_ok.mp (mapError_eq_ok.mp hbackward)
  obtain rfl := Except.ok.inj hforward
  obtain rfl := Except.ok.inj hbackward
  obtain rfl := Except.ok.inj h
  have hforwardLen := (checkedMul_eq_some.mp (okOr_eq_ok.mp hforwardLen)).2
  have hbackwardLen := (checkedMul_eq_some.mp (okOr_eq_ok.mp hbackwardLen)).2
  refine ⟨rfl, ensure_eq_ok.mp hsame, ensure_eq_ok.mp hsame', ?_, ?_⟩
  · rw [Nat.mul_comm, hforwardLen]
    exact le_max_left ..
  · rw [Nat.mul_comm, hbackwardLen]
    exact le_max_right ..

/-- The buffer for the transitions of a position. -/
def transposeRoom (lengths : TransposeLengths) (isReal : Bool) : ℕ :=
  if isReal then lengths.realSendLen else lengths.sendLen

theorem room_cover (lengths : TransposeLengths) (isReal : Bool) (sendLen receiveLen : ℕ) :
    sendLen ≤ transposeRoom (lengths.cover isReal sendLen receiveLen) isReal ∧
      ∀ other, transposeRoom lengths other
        ≤ transposeRoom (lengths.cover isReal sendLen receiveLen) other := by
  unfold TransposeLengths.cover
  cases isReal with
  | true =>
    refine ⟨le_max_right .., fun other => ?_⟩
    cases other with
    | true => exact le_max_left ..
    | false => exact le_rfl
  | false =>
    refine ⟨le_max_right .., fun other => ?_⟩
    cases other with
    | true => exact le_rfl
    | false => exact le_max_left ..

section Transitions

variable {stages : Coords topology.processGrid → List (TransformStage L N M)}
  {distributed : List Bool} {E : ℕ} {method : TransposeMethod} {realCount : ℕ}

/-- The pencils on both sides of a transition, and that the ranks take the same branch. -/
structure SameBranch (stages : Coords topology.processGrid → List (TransformStage L N M))
    (distributed : List Bool) (k : ℕ)
    (source destination : Coords topology.processGrid → Pencil N M) : Prop where
  source_eq : ∀ c, (stages c)[k]?.map TransformStage.output = some (source c)
  destination_eq : ∀ c, (stages c)[k + 1]?.map TransformStage.input = some (destination c)
  same : distributed[k]? = some false → ∀ c d,
    (source c).sameLayout (destination c) = (source d).sameLayout (destination d)

/-- The first `n` transitions are built. -/
structure BuiltUpTo (stages : List (TransformStage L N M)) (distributed : List Bool) (E : ℕ)
    (method : TransposeMethod) (realCount n : ℕ) (built : BuiltTransitions N M) : Prop where
  length : built.1.length = n
  joins : ∀ k transition, built.1[k]? = some transition → ∃ source destination isDistributed,
    stages[k]?.map TransformStage.output = some source ∧
      stages[k + 1]?.map TransformStage.input = some destination ∧
      distributed[k]? = some isDistributed ∧
      JoinsBy method source destination isDistributed transition ∧
      HasRoom E source destination transition (transposeRoom built.2 (k < realCount))

theorem BuiltUpTo.push {stages : List (TransformStage L N M)} {built : BuiltTransitions N M}
    {n : ℕ} (h : BuiltUpTo stages distributed E method realCount n built)
    {transition : StageTransition N M} {lengths : TransposeLengths}
    (hlengths : ∀ other, transposeRoom built.2 other ≤ transposeRoom lengths other)
    {source destination : Pencil N M} {isDistributed : Bool}
    (hsource : stages[n]?.map TransformStage.output = some source)
    (hdestination : stages[n + 1]?.map TransformStage.input = some destination)
    (hdistributed : distributed[n]? = some isDistributed)
    (hjoins : JoinsBy method source destination isDistributed transition)
    (hroom : HasRoom E source destination transition (transposeRoom lengths (n < realCount))) :
    BuiltUpTo stages distributed E method realCount (n + 1)
      (built.1 ++ [transition], lengths) where
  length := by rw [List.length_append, h.length, List.length_singleton]
  joins := by
    intro k other hother
    by_cases hk : k < n
    · rw [List.getElem?_append_left (by rw [h.length]; exact hk)] at hother
      obtain ⟨source, destination, isDistributed, hsource, hdestination, hdistributed, hjoins,
        hroom⟩ := h.joins k other hother
      exact ⟨source, destination, isDistributed, hsource, hdestination, hdistributed, hjoins,
        hroom.mono (hlengths _)⟩
    · rw [List.getElem?_append_right (by rw [h.length]; omega), h.length] at hother
      obtain ⟨hlt, heq⟩ := List.getElem?_eq_some_iff.mp hother
      have hlast : k = n := by
        have : k - n < 1 := hlt
        omega
      subst hlast
      rw [List.getElem_singleton] at heq
      subst heq
      exact ⟨source, destination, isDistributed, hsource, hdestination, hdistributed, hjoins,
        hroom⟩

theorem buildTransitionStep_completes (alloc : Coords topology.processGrid → TransitionAllocator)
    (extraShape : Coords topology.processGrid → ExtraShape) {k : ℕ} {isDistributed : Bool}
    (hdistributed : distributed[k]? = some isDistributed)
    {source destination : Coords topology.processGrid → Pencil N M}
    (hbranch : SameBranch stages distributed k source destination)
    {built : Coords topology.processGrid → BuiltTransitions N M}
    (hbuilt : ∀ c, BuiltUpTo (stages c) distributed (extraShape c).elementCount method realCount k
      (built c)) :
    Completes (α := K) (Together (fun after => ∀ c, BuiltUpTo (stages c) distributed
        (extraShape c).elementCount method realCount (k + 1) (after c)) AllError)
      fun c => (buildTransitionStep (alloc c) (stages c) (extraShape c) method realCount (built c)
        (isDistributed, k)).run := by
  unfold buildTransitionStep
  simp only [hbranch.source_eq, hbranch.destination_eq, RankProgram.orPanic_some_bind]
  cases isDistributed with
  | true =>
    simp only [if_true]
    refine completes_bind (agreeCall_completes (buildDistributedTransition_completes _ source
      destination method)) fun forward hforward => ?_
    refine completes_bind (agreeResult_completes _ _) fun forwardRequirements _ => ?_
    refine completes_bind (agreeCall_completes (buildDistributedTransition_completes _ destination
      source method)) fun backward hbackward => ?_
    refine completes_bind (agreeResult_completes _ _) fun backwardRequirements _ => ?_
    refine completes_ok fun c => ?_
    obtain ⟨forwardPlan, hforwardEq, hforwardPlan⟩ := hforward c
    obtain ⟨backwardPlan, hbackwardEq, hbackwardPlan⟩ := hbackward c
    rw [hforwardEq, hbackwardEq]
    exact (hbuilt c).push (room_cover ..).2 (hbranch.source_eq c) (hbranch.destination_eq c) hdistributed
      (.distributed forwardPlan backwardPlan hforwardPlan hbackwardPlan)
      fun hlocal => absurd hlocal not_isLocal_distributed
  | false =>
    simp only [Bool.false_eq_true, if_false]
    have hsame := hbranch.same hdistributed
    by_cases hlayout : (source topology.here).sameLayout (destination topology.here) = true
    · have hlayout : ∀ c, (source c).sameLayout (destination c) = true := fun c =>
        (hsame c topology.here).trans hlayout
      simp only [hlayout, if_true]
      refine completes_ok fun c => (hbuilt c).push (fun _ => le_rfl) (hbranch.source_eq c)
        (hbranch.destination_eq c) hdistributed (.identity (hlayout c)) ?_
      rintro (⟨plan, h⟩ | ⟨plan, h⟩) <;> contradiction
    · have hlayout : ∀ c, (source c).sameLayout (destination c) = false := fun c =>
        (hsame c topology.here).trans (Bool.not_eq_true _ ▸ hlayout)
      simp only [hlayout, Bool.false_eq_true, if_false]
      refine completes_bind (agreeResult_completes _ _) fun result hresult => ?_
      refine completes_ok fun c => ?_
      obtain ⟨heq, hforward, hbackward, hfits, hfits'⟩ := buildLocalTransition_ok (hresult c)
      have hcover := room_cover (built c).2 (k < realCount) (result c).2 0
      rw [heq]
      exact (hbuilt c).push hcover.2 (hbranch.source_eq c) (hbranch.destination_eq c) hdistributed
        (.permuted (hlayout c) hforward hbackward)
        fun _ => ⟨hfits.trans hcover.1, hfits'.trans hcover.1⟩

theorem sameBranch_of_isStage {shape : Coords topology.processGrid → Fin N → ℕ} {permuteDims : Bool}
    {k axis axis' : ℕ} {source destination : Coords topology.processGrid → Pencil N M}
    (hsource : ∀ c, (stages c)[k]?.map TransformStage.output = some (source c))
    (hdestination : ∀ c, (stages c)[k + 1]?.map TransformStage.input = some (destination c))
    (hs : ∀ c, IsStage (topology.atCoords c) (shape c) permuteDims axis (source c))
    (hd : ∀ c, IsStage (topology.atCoords c) (shape c) permuteDims axis' (destination c)) :
    SameBranch stages distributed k source destination where
  source_eq := hsource
  destination_eq := hdestination
  same := by
    have hlayout : ∀ c, (source c).sameLayout (destination c)
        = (decide ((source c).decomposition.axes = (destination c).decomposition.axes)
          && decide ((source c).permutation = (destination c).permutation)) := by
      intro c
      simp [Pencil.sameLayout, Pencil.sameDistribution, Pencil.sameTopology, (hs c).topology,
        (hd c).topology, (hs c).globalShape, (hd c).globalShape]
    intro _ c d
    obtain ⟨hsourceAxes, hsourcePermutation⟩ := (hs c).layout_eq (hs d)
    obtain ⟨hdestinationAxes, hdestinationPermutation⟩ := (hd c).layout_eq (hd d)
    rw [hlayout, hlayout, hsourceAxes, hsourcePermutation, hdestinationAxes,
      hdestinationPermutation]

/-- **The transitions** are built on all ranks or on none. -/
theorem buildTransitions_completes (alloc : Coords topology.processGrid → TransitionAllocator)
    (extraShape : Coords topology.processGrid → ExtraShape)
    (hbranch : ∀ k < distributed.length, ∃ source destination,
      SameBranch stages distributed k source destination) :
    Completes (α := K) (Together (fun built => ∀ c, BuiltUpTo (stages c) distributed
        (extraShape c).elementCount method realCount distributed.length (built c)) AllError)
      fun c => (buildTransitions (alloc c) (stages c) distributed (extraShape c) method
        realCount).run := by
  have : Nonempty (Coords topology.processGrid) := ⟨topology.here⟩
  unfold buildTransitions
  refine completes_bind (agreeResult_completes _ _) fun _ _ => ?_
  have hloop : Completes (α := K) (Together (fun built => ∀ c, BuiltUpTo (stages c) distributed
        (extraShape c).elementCount method realCount distributed.zipIdx.length (built c)) AllError)
      fun c => (distributed.zipIdx.foldlM (buildTransitionStep (alloc c) (stages c) (extraShape c)
        method realCount) ([], ⟨0, 0, 0, 0⟩)).run := by
    refine Semantics.Ensures.together_foldlM (motive := fun k built => ∀ c, BuiltUpTo (stages c)
      distributed (extraShape c).elementCount method realCount k (built c)) _ ?_ ?_ trivial
    · intro k entry hentry built _ hbuilt _
      rw [List.getElem?_zipIdx, Nat.zero_add] at hentry
      obtain ⟨isDistributed, hdistributed, rfl⟩ := Option.map_eq_some_iff.mp hentry
      obtain ⟨source, destination, hpair⟩ :=
        hbranch k (List.getElem?_eq_some_iff.mp hdistributed).1
      exact buildTransitionStep_completes alloc extraShape hdistributed hpair hbuilt
    · exact fun c => ⟨rfl, fun k transition h => by simp at h⟩
  rwa [List.length_zipIdx] at hloop

end Transitions

end PencilRs.Analysis
