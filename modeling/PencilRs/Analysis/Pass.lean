import PencilRs.Analysis.Transition

/-!
# Passes through the stages

A kernel that acts on the global array does so in every kind of pass.  The forward passes leave
what the stages make of the array from the first to the last, the reverse passes from the last to
the first; out of place, in place and with overlap they leave the same array.
-/

set_option autoImplicit false

namespace PencilRs.Analysis

open PencilRs.Computation PencilRs.Model
open Semantics.Ensures (Together together_bind together_adapt together_ok together_foldlM)

variable {N M : ℕ} {K ε L : Type} {topology : MpiTopology M}

/-! ## What stages make of an array -/

/-- The values of the global array. -/
abbrev GlobalArray (K : Type) (N : ℕ) : Type := ℕ → (Fin N → ℕ) → K

/-- The array after the first `n` of the stages in some order. -/
def appliedUpTo (act : ℕ → GlobalArray K N → GlobalArray K N) (order : ℕ → ℕ) (n : ℕ)
    (array : GlobalArray K N) : GlobalArray K N :=
  (List.range n).foldl (fun current k => act (order k) current) array

theorem appliedUpTo_zero (act : ℕ → GlobalArray K N → GlobalArray K N) (order : ℕ → ℕ)
    (array : GlobalArray K N) : appliedUpTo act order 0 array = array := rfl

theorem appliedUpTo_succ (act : ℕ → GlobalArray K N → GlobalArray K N) (order : ℕ → ℕ) (n : ℕ)
    (array : GlobalArray K N) :
    appliedUpTo act order (n + 1) array = act (order n) (appliedUpTo act order n array) := by
  unfold appliedUpTo
  rw [List.range_succ, List.foldl_append]
  rfl

/-- A kernel acts on the array that a block holds, from a source and in place. -/
structure KernelActs (E : ℕ) (p : Pencil N M) (act : GlobalArray K N → GlobalArray K N)
    (run : List K → List K → Except (Stop ε) (List K))
    (runInPlace : List K → Except (Stop ε) (List K)) : Prop where
  run : ∀ array source cells, source.length = E * p.localLen → cells.length = E * p.localLen →
    E * p.localLen < usizeLimit → HoldsBlock p E array source → ∃ result,
      run source cells = .ok result ∧ result.length = cells.length ∧
        HoldsBlock p E (act array) result
  runInPlace : ∀ array data, data.length = E * p.localLen → E * p.localLen < usizeLimit →
    HoldsBlock p E array data → ∃ result, runInPlace data = .ok result ∧
      result.length = data.length ∧ HoldsBlock p E (act array) result

/-- The stages and transitions of all ranks along a distributed route, which ends at `last`. -/
structure Pipeline (E : ℕ) (room : Coords topology.processGrid → ℕ)
    (route : ℕ → DistributedPencil topology N) (last : ℕ)
    (stages : Coords topology.processGrid → List (TransformStage L N M))
    (transitions : Coords topology.processGrid → List (StageTransition N M)) : Prop where
  last_pos : 0 < last
  stages_length : ∀ c, (stages c).length = last + 1
  transitions_length : ∀ c, (transitions c).length = last
  stage : ∀ k ≤ last, ∃ stage : Coords topology.processGrid → TransformStage L N M,
    (∀ c, (stages c)[k]? = some (stage c)) ∧ (∀ c, (stage c).input = (route k).on c) ∧
      ∀ c, (stage c).output = (route k).on c
  joins : ∀ k < last, ∃ transition : Coords topology.processGrid → StageTransition N M,
    (∀ c, (transitions c)[k]? = some (transition c)) ∧
      Connects E room (route k) (route (k + 1)) (fun c => (transition c).forward) ∧
      Connects E room (route (k + 1)) (route k) fun c => (transition c).backward

/-- The kernels of all stages act on the array. -/
def KernelsAct (E : ℕ) (route : ℕ → DistributedPencil topology N)
    (stages : Coords topology.processGrid → List (TransformStage L N M))
    (kernels : Coords topology.processGrid → StageKernels L K ε N M)
    (act : ℕ → GlobalArray K N → GlobalArray K N) : Prop :=
  ∀ c k stage, (stages c)[k]? = some stage →
    KernelActs E ((route k).on c) (act k)
      ((kernels c).run stage.localTransform ((route k).on c) stage.axis)
      ((kernels c).runInPlace stage.localTransform ((route k).on c) stage.axis)

/-- Errors of a transpose, on every rank. -/
def LiftedTransposeFails (lift : FftError → ε) (e : Coords topology.processGrid → Stop ε) : Prop :=
  ∀ c, ∃ error, e c = .error (lift (.transpose error))

/-- A family's ranks go on together after a local success and after a transition. -/
structure GoesOn (topology : MpiTopology M) (policy : PassPolicy K ε M) (lift : FftError → ε) :
    Prop where
  settle : ∀ {β : Type} (x : Coords topology.processGrid → β),
    Completes (Together (· = x) (LiftedTransposeFails lift))
      fun c => (policy.settle (.ok (x c))).run
  transition : ∀ {β : Type} {good : (Coords topology.processGrid → β) → Prop}
    {p : Coords topology.processGrid → RankProgram K M FftError β},
    Completes (Together good TransposeFails) (fun c => (p c).run) →
    Completes (Together good (LiftedTransposeFails lift)) fun c => (policy.transition (p c)).run

/-! ## Ranks that go on together -/

section Together

variable {β γ σ : Type} {bad : (Coords topology.processGrid → Stop ε) → Prop}

theorem completes_ok {good : (Coords topology.processGrid → β) → Prop}
    {x : Coords topology.processGrid → β} (hx : good x) :
    Completes (Together good bad) fun c => (pure (x c) : RankProgram K M ε β).run :=
  .returned _ (fun _ => rfl) trivial (Or.inl ⟨x, rfl, hx⟩)

theorem completes_bind {motive : (Coords topology.processGrid → β) → Prop}
    {good' : (Coords topology.processGrid → γ) → Prop}
    {p : Coords topology.processGrid → RankProgram K M ε β}
    {f : Coords topology.processGrid → β → RankProgram K M ε γ}
    (h : Completes (Together motive bad) fun c => (p c).run)
    (hf : ∀ x, motive x → Completes (Together good' bad) fun c => (f c (x c)).run) :
    Completes (Together good' bad) fun c => (p c >>= f c).run :=
  have : Nonempty (Coords topology.processGrid) := ⟨topology.here⟩
  together_bind h fun x _ hx _ => hf x hx

theorem completes_range {f : Coords topology.processGrid → σ → ℕ → RankProgram K M ε σ}
    {motive : ℕ → (Coords topology.processGrid → σ) → Prop}
    {B : (Coords topology.processGrid → Stop ε) → Prop} (n : ℕ)
    (hstep : ∀ k < n, ∀ x, motive k x →
      Completes (Together (motive (k + 1)) B) fun c => (f c (x c) k).run)
    {x : Coords topology.processGrid → σ} (hx : motive 0 x) :
    Completes (Together (motive n) B) fun c => ((List.range n).foldlM (f c) (x c)).run := by
  have : Nonempty (Coords topology.processGrid) := ⟨topology.here⟩
  have h : Completes (Together (motive (List.range n).length) B)
      fun c => ((List.range n).foldlM (f c) (x c)).run := by
    refine together_foldlM (List.range n) (fun k index hindex x _ hloop _ => ?_) hx trivial
    obtain ⟨hk, rfl⟩ := List.getElem?_eq_some_iff.mp hindex
    rw [List.getElem_range]
    exact hstep k (by simpa using hk) x hloop
  rwa [List.length_range] at h

theorem completes_range_reverse {f : Coords topology.processGrid → σ → ℕ → RankProgram K M ε σ}
    {motive : ℕ → (Coords topology.processGrid → σ) → Prop}
    {B : (Coords topology.processGrid → Stop ε) → Prop} (n : ℕ)
    (hstep : ∀ k < n, ∀ x, motive k x →
      Completes (Together (motive (k + 1)) B) fun c => (f c (x c) (n - 1 - k)).run)
    {x : Coords topology.processGrid → σ} (hx : motive 0 x) :
    Completes (Together (motive n) B)
      fun c => ((List.range n).reverse.foldlM (f c) (x c)).run := by
  have : Nonempty (Coords topology.processGrid) := ⟨topology.here⟩
  have h : Completes (Together (motive (List.range n).reverse.length) B)
      fun c => ((List.range n).reverse.foldlM (f c) (x c)).run := by
    refine together_foldlM (List.range n).reverse (fun k index hindex x _ hloop _ => ?_) hx trivial
    obtain ⟨hk, rfl⟩ := List.getElem?_eq_some_iff.mp hindex
    rw [List.getElem_reverse, List.getElem_range, List.length_range]
    exact hstep k (by simpa using hk) x hloop
  rwa [List.length_reverse, List.length_range] at h

end Together

/-! ## Steps -/

section Steps

variable {extraShape : ExtraShape} {registry : Coords topology.processGrid → List (Pencil N M)}
  {policy : PassPolicy K ε M} {lift : FftError → ε}
  {kernels : Coords topology.processGrid → StageKernels L K ε N M}
  {context : Coords topology.processGrid → PassContext K}

/-- The arrays of all ranks hold the global array in the layout `p`. -/
def StatesHold (registry : Coords topology.processGrid → List (Pencil N M))
    (extraShape : ExtraShape) (p : DistributedPencil topology N) (array : GlobalArray K N)
    (states : Coords topology.processGrid → PassState K N M) : Prop :=
  ∀ c, ActiveHolds (registry c) extraShape (p.on c) array (states c).array

/-- The destinations are as they were. -/
def KeepsDestination (states states' : Coords topology.processGrid → PassState K N M) : Prop :=
  ∀ c, (states' c).destination = (states c).destination

variable {p q : DistributedPencil topology N} {array : GlobalArray K N}
  {act : GlobalArray K N → GlobalArray K N}
  {states : Coords topology.processGrid → PassState K N M}
  {stage : Coords topology.processGrid → TransformStage L N M}

theorem overwriteStage_completes (rules : GoesOn topology policy lift)
    (hpencils : ∀ c, (states c).array.pencils = registry c)
    (hextra : ∀ c, (states c).array.extraShape = extraShape)
    (htarget : ∀ c, p.on c ∈ registry c) (houtput : ∀ c, (stage c).output = p.on c)
    (hkernel : ∀ c, KernelActs extraShape.elementCount (p.on c) act
      ((kernels c).run (stage c).localTransform (p.on c) (stage c).axis)
      ((kernels c).runInPlace (stage c).localTransform (p.on c) (stage c).axis))
    {source : Coords topology.processGrid → List K}
    (hlen : ∀ c, (source c).length = extraShape.elementCount * (p.on c).localLen)
    (hsource : ∀ c, HoldsBlock (p.on c) extraShape.elementCount array (source c)) (index : ℕ) :
    Completes (Together (fun after => StatesHold registry extraShape p (act array) after ∧
        KeepsDestination states after) (LiftedTransposeFails lift))
      fun c => (overwriteStage policy (kernels c) (stage c) (p.on c) index (source c)
        (states c)).run := by
  have : Nonempty (Coords topology.processGrid) := ⟨topology.here⟩
  choose after hafter hholds using fun c => overwriteWith_holds policy.array
    (hpencils c) (hextra c) (htarget c) (fun cells hcells hfit =>
      (hkernel c).run array (source c) cells (hlen c) hcells hfit (hsource c))
  unfold overwriteStage
  simp only [houtput, hafter]
  refine together_bind (rules.settle after) ?_
  rintro _ _ rfl _
  exact .returned _ (fun _ => rfl) trivial (Or.inl ⟨_, rfl, hholds, fun _ => rfl⟩)

theorem inPlaceStage_completes (rules : GoesOn topology policy lift)
    (hstates : StatesHold registry extraShape p array states)
    (hkernel : ∀ c, KernelActs extraShape.elementCount (p.on c) act
      ((kernels c).run (stage c).localTransform (p.on c) (stage c).axis)
      ((kernels c).runInPlace (stage c).localTransform (p.on c) (stage c).axis)) (index : ℕ) :
    Completes (Together (fun after => StatesHold registry extraShape p (act array) after ∧
        KeepsDestination states after) (LiftedTransposeFails lift))
      fun c => (inPlaceStage policy (kernels c) (stage c) (p.on c) index (states c)).run := by
  have : Nonempty (Coords topology.processGrid) := ⟨topology.here⟩
  choose after hafter hholds using fun c => (hstates c).editActive policy.array
    (fun data hdata hblock => by
      obtain ⟨_, _, _, _, hfit⟩ := (hstates c).activeView
      exact (hkernel c).runInPlace array data hdata hfit hblock)
  unfold inPlaceStage
  simp only [hafter]
  refine together_bind (rules.settle after) ?_
  rintro _ _ rfl _
  exact .returned _ (fun _ => rfl) trivial (Or.inl ⟨_, rfl, hholds, fun _ => rfl⟩)

/-- The destinations hold the array. -/
def DestinationsHold (extraShape : ExtraShape) (p : DistributedPencil topology N)
    (array : GlobalArray K N) (states : Coords topology.processGrid → PassState K N M) : Prop :=
  ∀ c, (states c).destination.length = extraShape.elementCount * (p.on c).localLen ∧
    HoldsBlock (p.on c) extraShape.elementCount array (states c).destination

theorem destinationStage_completes (rules : GoesOn topology policy lift)
    (hstates : StatesHold registry extraShape p array states)
    (hkernel : ∀ c, KernelActs extraShape.elementCount (p.on c) act
      ((kernels c).run (stage c).localTransform (p.on c) (stage c).axis)
      ((kernels c).runInPlace (stage c).localTransform (p.on c) (stage c).axis))
    (hlen : ∀ c, (states c).destination.length = extraShape.elementCount * (p.on c).localLen)
    (index : ℕ) :
    Completes (Together (DestinationsHold extraShape p (act array)) (LiftedTransposeFails lift))
      fun c => (destinationStage policy (kernels c) (stage c) (p.on c) index (states c)).run := by
  have : Nonempty (Coords topology.processGrid) := ⟨topology.here⟩
  have hrun : ∀ c, ∃ result, (do
      let active ← (states c).array.activeView.mapError policy.array
      (kernels c).run (stage c).localTransform (p.on c) (stage c).axis active.storage
        (states c).destination) = .ok result ∧ result.length = (states c).destination.length ∧
      HoldsBlock (p.on c) extraShape.elementCount (act array) result := by
    intro c
    obtain ⟨view, hview, hstorage, hviewLen, hfit⟩ := (hstates c).activeView
    obtain ⟨result, hresult, hresultLen, hblock⟩ := (hkernel c).run array view.storage
      (states c).destination hviewLen (hlen c) hfit (hstorage ▸ (hstates c).holds.take)
    refine ⟨result, bind_eq_ok.mpr ⟨view, ?_, hresult⟩, hresultLen, hblock⟩
    rw [hview]
    rfl
  choose result hresult hresultLen hblock using hrun
  unfold destinationStage
  simp only [hresult]
  refine together_bind (rules.settle result) ?_
  rintro _ _ rfl _
  exact .returned _ (fun _ => rfl) trivial
    (Or.inl ⟨_, rfl, fun c => ⟨(hresultLen c).trans (hlen c), hblock c⟩⟩)

theorem passTransition_completes (rules : GoesOn topology policy lift)
    {transition : Coords topology.processGrid → Transition N M}
    (h : Connects extraShape.elementCount
      (fun c => (context c).transpose.sendBuffer.length) p q transition)
    (hstates : StatesHold registry extraShape p array states)
    (hq : ∀ c, q.on c ∈ registry c) (index : ℕ) :
    Completes (Together (fun after => StatesHold registry extraShape q array after ∧
        KeepsDestination states after) (LiftedTransposeFails lift))
      fun c => (passTransition policy (context c) (transition c) index (states c)).run := by
  have : Nonempty (Coords topology.processGrid) := ⟨topology.here⟩
  unfold passTransition
  refine together_bind (rules.transition (executeTransition_completes
    (fun c => (context c).alloc index) (fun c => (context c).elementType)
    (fun c => (states c).report.isSome) h hstates hq)) ?_
  intro after _ hafter _
  exact .returned _ (fun _ => rfl) trivial (Or.inl ⟨_, rfl, hafter, fun _ => rfl⟩)

end Steps

/-! ## Passes -/

section Passes

variable {extraShape : ExtraShape} {registry : Coords topology.processGrid → List (Pencil N M)}
  {policy : PassPolicy K ε M} {lift : FftError → ε}
  {kernels : Coords topology.processGrid → StageKernels L K ε N M}
  {context : Coords topology.processGrid → PassContext K}
  {route : ℕ → DistributedPencil topology N} {last : ℕ}
  {stages : Coords topology.processGrid → List (TransformStage L N M)}
  {transitions : Coords topology.processGrid → List (StageTransition N M)}
  {act : ℕ → GlobalArray K N → GlobalArray K N} {array : GlobalArray K N}
  {states : Coords topology.processGrid → PassState K N M}

/-- The array after all stages, first to last. -/
def forwards (act : ℕ → GlobalArray K N → GlobalArray K N) (last : ℕ)
    (array : GlobalArray K N) : GlobalArray K N :=
  appliedUpTo act id (last + 1) array

/-- The array after all stages, last to first. -/
def backwards (act : ℕ → GlobalArray K N → GlobalArray K N) (last : ℕ)
    (array : GlobalArray K N) : GlobalArray K N :=
  appliedUpTo act (last - ·) (last + 1) array

/-- What the passes need to know about the ranks' plans. -/
structure PassReady (policy : PassPolicy K ε M) (lift : FftError → ε) (extraShape : ExtraShape)
    (registry : Coords topology.processGrid → List (Pencil N M))
    (route : ℕ → DistributedPencil topology N) (last : ℕ)
    (stages : Coords topology.processGrid → List (TransformStage L N M))
    (transitions : Coords topology.processGrid → List (StageTransition N M))
    (kernels : Coords topology.processGrid → StageKernels L K ε N M)
    (context : Coords topology.processGrid → PassContext K)
    (act : ℕ → GlobalArray K N → GlobalArray K N) : Prop where
  rules : GoesOn topology policy lift
  pipeline : Pipeline extraShape.elementCount
    (fun c => (context c).transpose.sendBuffer.length) route last stages transitions
  registered : ∀ c, ∀ k ≤ last, (route k).on c ∈ registry c
  acts : KernelsAct extraShape.elementCount route stages kernels act

variable (ready : PassReady policy lift extraShape registry route last stages transitions kernels
  context act)
include ready

theorem PassReady.forwardPass
    (hpencils : ∀ c, (states c).array.pencils = registry c)
    (hextra : ∀ c, (states c).array.extraShape = extraShape)
    (hdestination : ∀ c, (states c).destination.length
      = extraShape.elementCount * ((route last).on c).localLen)
    {source : Coords topology.processGrid → List K}
    (hlen : ∀ c, (source c).length = extraShape.elementCount * ((route 0).on c).localLen)
    (hsource : ∀ c, HoldsBlock ((route 0).on c) extraShape.elementCount array (source c)) :
    Completes (Together (DestinationsHold extraShape (route last) (forwards act last array))
        (LiftedTransposeFails lift))
      fun c => (Model.forwardPass policy (kernels c) (context c) (stages c) (transitions c)
        (source c) (states c)).run := by
  have hlast := ready.pipeline.last_pos
  obtain ⟨first, hfirst, _, houtput⟩ := ready.pipeline.stage 0 (by omega)
  unfold Model.forwardPass forwardTail
  simp only [hfirst, RankProgram.orPanic_some_bind, houtput, ready.pipeline.transitions_length]
  refine completes_bind (overwriteStage_completes ready.rules hpencils hextra
    (fun c => ready.registered c 0 (by omega)) houtput (fun c => ready.acts c 0 _ (hfirst c)) hlen
    hsource 0) ?_
  rintro started ⟨hstarted, hkept⟩
  -- Up to the last stage the array is in the intermediate; the last stage leaves it.
  let loop (k : ℕ) (x : Coords topology.processGrid → PassState K N M) : Prop :=
    if k < last then StatesHold registry extraShape (route k) (appliedUpTo act id (k + 1) array) x ∧
      KeepsDestination states x
    else DestinationsHold extraShape (route last) (forwards act last array) x
  have hloop := completes_range (K := K) (B := LiftedTransposeFails lift) (motive := loop)
    (f := fun c => forwardTailStep policy (kernels c) (context c) (stages c) (transitions c))
    last ?_ (x := started) ?_
  · simpa only [loop, lt_irrefl, if_false] using hloop
  · intro k hk x hx
    simp only [loop, if_pos hk] at hx
    obtain ⟨hstates, hkeeps⟩ := hx
    obtain ⟨transition, htransition, hforward, _⟩ := ready.pipeline.joins k hk
    obtain ⟨stage, hstage, _, houtput⟩ := ready.pipeline.stage (k + 1) hk
    unfold forwardTailStep
    simp only [htransition, hstage, RankProgram.orPanic_some_bind, houtput,
      ready.pipeline.stages_length, Nat.add_sub_cancel]
    refine completes_bind (passTransition_completes ready.rules hforward hstates
      (fun c => ready.registered c (k + 1) hk) k) ?_
    rintro moved ⟨hmoved, hkeeps'⟩
    have hact := fun c => ready.acts c (k + 1) _ (hstage c)
    by_cases hend : k + 1 = last
    · subst hend
      simp only [loop, lt_irrefl, if_false, if_true, forwards,
        appliedUpTo_succ act id (k + 1)]
      refine (destinationStage_completes ready.rules hmoved hact (fun c => ?_) (k + 1))
      rw [hkeeps' c, hkeeps c]
      exact hdestination c
    · simp only [if_neg hend, loop, if_pos (show k + 1 < last by omega),
        appliedUpTo_succ act id (k + 1)]
      refine (inPlaceStage_completes ready.rules hmoved hact (k + 1)).mono (fun _ h => h) ?_
      refine fun r _ h => h.mono ?_ fun _ h => h
      rintro after ⟨hafter, hkeeps''⟩
      exact ⟨hafter, fun c => (hkeeps'' c).trans ((hkeeps' c).trans (hkeeps c))⟩
  · simp only [loop, if_pos hlast]
    exact ⟨hstarted, hkept⟩

/-- A transition back to stage `k` and the stage's transform. -/
theorem PassReady.stepBack {k : ℕ} (hk : k < last) {array : GlobalArray K N}
    (hstates : StatesHold registry extraShape (route (k + 1)) array states) :
    ∃ (transition : Coords topology.processGrid → StageTransition N M)
      (stage : Coords topology.processGrid → TransformStage L N M),
      (∀ c, (transitions c)[k]? = some (transition c)) ∧ (∀ c, (stages c)[k]? = some (stage c)) ∧
      (∀ c, (stage c).input = (route k).on c) ∧
      Completes (Together (fun after => StatesHold registry extraShape (route k) array after ∧
          KeepsDestination states after) (LiftedTransposeFails lift))
        fun c => (passTransition policy (context c) (transition c).backward k (states c)).run := by
  obtain ⟨transition, htransition, _, hbackward⟩ := ready.pipeline.joins k hk
  obtain ⟨stage, hstage, hinput, _⟩ := ready.pipeline.stage k hk.le
  exact ⟨transition, stage, htransition, hstage, hinput, passTransition_completes ready.rules
    hbackward hstates (fun c => ready.registered c k hk.le) k⟩

theorem PassReady.reversePass
    (hpencils : ∀ c, (states c).array.pencils = registry c)
    (hextra : ∀ c, (states c).array.extraShape = extraShape)
    (hdestination : ∀ c, (states c).destination.length
      = extraShape.elementCount * ((route 0).on c).localLen)
    {source : Coords topology.processGrid → List K}
    (hlen : ∀ c, (source c).length = extraShape.elementCount * ((route last).on c).localLen)
    (hsource : ∀ c, HoldsBlock ((route last).on c) extraShape.elementCount array (source c)) :
    Completes (Together (DestinationsHold extraShape (route 0) (backwards act last array))
        (LiftedTransposeFails lift))
      fun c => (Model.reversePass policy (kernels c) (context c) (stages c) (transitions c)
        (source c) (states c)).run := by
  have hlast := ready.pipeline.last_pos
  obtain ⟨final, hfinal, hfinalInput, hfinalOutput⟩ := ready.pipeline.stage last le_rfl
  obtain ⟨first, hfirst, hfirstInput, _⟩ := ready.pipeline.stage 0 (by omega)
  unfold Model.reversePass reverseTail
  simp only [ready.pipeline.stages_length, Nat.add_sub_cancel, hfinal, hfirst,
    RankProgram.orPanic_some_bind, hfinalInput, hfirstInput, ready.pipeline.transitions_length,
    bind_assoc]
  refine completes_bind (overwriteStage_completes ready.rules hpencils hextra
    (fun c => ready.registered c last le_rfl) hfinalOutput
    (fun c => ready.acts c last _ (hfinal c)) hlen hsource last) ?_
  rintro started ⟨hstarted, hkept⟩
  -- The loop leaves the transform of the first stage to the end of the pass.
  let loop (k : ℕ) (x : Coords topology.processGrid → PassState K N M) : Prop :=
    StatesHold registry extraShape (route (last - k))
      (appliedUpTo act (last - ·) (min (k + 1) last) array) x ∧ KeepsDestination states x
  have hloop := completes_range_reverse (K := K) (B := LiftedTransposeFails lift) (motive := loop)
    (f := fun c => reverseTailStep policy (kernels c) (context c) (stages c) (transitions c))
    last ?_ (x := started) ?_
  · refine completes_bind hloop ?_
    rintro moved ⟨hmoved, hkeeps⟩
    rw [Nat.sub_self, Nat.min_eq_right (by omega)] at hmoved
    have harray : backwards act last array
        = act 0 (appliedUpTo act (last - ·) last array) := by
      unfold backwards
      rw [appliedUpTo_succ, Nat.sub_self]
    rw [harray]
    refine destinationStage_completes ready.rules hmoved
      (fun c => ready.acts c 0 _ (hfirst c)) (fun c => ?_) 0
    rw [hkeeps c]
    exact hdestination c
  · rintro k hk x ⟨hstates, hkeeps⟩
    have hnext : last - k = last - 1 - k + 1 := by omega
    rw [hnext] at hstates
    obtain ⟨transition, stage, htransition, hstage, hinput, hstep⟩ :=
      ready.stepBack (k := last - 1 - k) (by omega) hstates
    unfold reverseTailStep
    simp only [htransition, hstage, RankProgram.orPanic_some_bind, hinput]
    refine completes_bind hstep ?_
    rintro moved ⟨hmoved, hkeeps'⟩
    have hkept' : KeepsDestination states moved := fun c => (hkeeps' c).trans (hkeeps c)
    have hback : last - (k + 1) = last - 1 - k := by omega
    by_cases hzero : last - 1 - k = 0
    · simp only [hzero, ne_eq, not_true_eq_false, if_false]
      refine completes_ok ⟨?_, hkept'⟩
      rw [hback, Nat.min_eq_right (by omega)]
      rwa [Nat.min_eq_right (by omega)] at hmoved
    · simp only [ne_eq, hzero, not_false_eq_true, if_true]
      refine (inPlaceStage_completes ready.rules hmoved
        (fun c => ready.acts c _ _ (hstage c)) (last - 1 - k)).mono (fun _ h => h) ?_
      refine fun r _ h => h.mono ?_ fun _ h => h
      rintro after ⟨hafter, hkeeps''⟩
      refine ⟨?_, fun c => (hkeeps'' c).trans (hkept' c)⟩
      rw [hback, Nat.min_eq_left (by omega), appliedUpTo_succ, hback]
      rwa [Nat.min_eq_left (by omega)] at hafter
  · refine ⟨?_, hkept⟩
    rw [Nat.sub_zero, Nat.min_eq_left (by omega)]
    exact hstarted

/-! ### In place -/

theorem PassReady.forwardPassInPlace
    (hstates : StatesHold registry extraShape (route 0) array states) :
    Completes (Together (StatesHold registry extraShape (route last) (forwards act last array))
        (LiftedTransposeFails lift))
      fun c => (Model.forwardPassInPlace policy (kernels c) (context c) (stages c) (transitions c)
        (states c)).run := by
  obtain ⟨first, hfirst, _, houtput⟩ := ready.pipeline.stage 0 (by omega)
  unfold Model.forwardPassInPlace
  simp only [hfirst, RankProgram.orPanic_some_bind, houtput, ready.pipeline.transitions_length]
  refine completes_bind (inPlaceStage_completes ready.rules hstates
    (fun c => ready.acts c 0 _ (hfirst c)) 0) ?_
  rintro started ⟨hstarted, _⟩
  refine completes_range (motive := fun k => StatesHold registry extraShape (route k)
    (appliedUpTo act id (k + 1) array)) last ?_ hstarted
  intro k hk x hx
  obtain ⟨transition, htransition, hforward, _⟩ := ready.pipeline.joins k hk
  obtain ⟨stage, hstage, _, houtput⟩ := ready.pipeline.stage (k + 1) hk
  unfold forwardInPlaceStep
  simp only [htransition, hstage, RankProgram.orPanic_some_bind, houtput]
  refine completes_bind (passTransition_completes ready.rules hforward hx
    (fun c => ready.registered c (k + 1) hk) k) ?_
  rintro moved ⟨hmoved, _⟩
  rw [appliedUpTo_succ act id (k + 1)]
  exact (inPlaceStage_completes ready.rules hmoved (fun c => ready.acts c (k + 1) _ (hstage c))
    (k + 1)).mono (fun _ h => h) fun r _ h => h.mono (fun _ => And.left) fun _ h => h

theorem PassReady.reversePassInPlace
    (hstates : StatesHold registry extraShape (route last) array states) :
    Completes (Together (StatesHold registry extraShape (route 0) (backwards act last array))
        (LiftedTransposeFails lift))
      fun c => (Model.reversePassInPlace policy (kernels c) (context c) (stages c) (transitions c)
        (states c)).run := by
  obtain ⟨final, hfinal, hinput, _⟩ := ready.pipeline.stage last le_rfl
  unfold Model.reversePassInPlace
  simp only [ready.pipeline.stages_length, Nat.add_sub_cancel, hfinal,
    RankProgram.orPanic_some_bind, hinput, ready.pipeline.transitions_length]
  refine completes_bind (inPlaceStage_completes ready.rules hstates
    (fun c => ready.acts c last _ (hfinal c)) last) ?_
  rintro started ⟨hstarted, _⟩
  have hloop := completes_range_reverse (K := K) (B := LiftedTransposeFails lift)
    (motive := fun k => StatesHold registry extraShape (route (last - k))
      (appliedUpTo act (last - ·) (k + 1) array))
    (f := fun c => reverseInPlaceStep policy (kernels c) (context c) (stages c) (transitions c))
    last ?_ (x := started) hstarted
  · rwa [Nat.sub_self] at hloop
  · intro k hk x hx
    have hnext : last - k = last - 1 - k + 1 := by omega
    rw [hnext] at hx
    obtain ⟨transition, stage, htransition, hstage, hinput, hstep⟩ :=
      ready.stepBack (k := last - 1 - k) (by omega) hx
    unfold reverseInPlaceStep
    simp only [htransition, hstage, RankProgram.orPanic_some_bind, hinput]
    refine completes_bind hstep ?_
    rintro moved ⟨hmoved, _⟩
    have hback : last - (k + 1) = last - 1 - k := by omega
    rw [appliedUpTo_succ act (last - ·) (k + 1), hback]
    exact (inPlaceStage_completes ready.rules hmoved (fun c => ready.acts c _ _ (hstage c))
      (last - 1 - k)).mono (fun _ h => h) fun r _ h => h.mono (fun _ => And.left) fun _ h => h

end Passes

/-! ## With overlap -/

section Overlap

variable {extraShape : ExtraShape} {registry : Coords topology.processGrid → List (Pencil N M)}
  {lift : FftError → ε} {kernels : Coords topology.processGrid → StageKernels L K ε N M}
  {context : Coords topology.processGrid → PassContext K}

/-- A rank that does not agree on local results goes on after a success. -/
theorem overlapPolicy_goesOn :
    GoesOn topology (overlapPolicy lift : PassPolicy K ε M) lift where
  settle := fun x => completes_ok rfl
  transition := by
    intro β good p h
    refine together_adapt (f := fun _ => _) h ?_
    intro e he c
    obtain ⟨error, herror⟩ := he c
    exact ⟨error, by simp only [herror]⟩

/-- The errors of a pass with overlap: a transition or a transpose failed. -/
def OverlapFails (lift : FftError → ε)
    (e : Coords topology.processGrid → Stop (FftOverlapError ε)) : Prop :=
  ∀ c, (∃ error, e c = .error (.operation (lift (.transpose error)))) ∨
    ∃ error, e c = .error (.overlap error)

theorem LiftedTransposeFails.operation {e : Coords topology.processGrid → Stop ε}
    (h : LiftedTransposeFails lift e) : OverlapFails lift fun c => ofOperation (e c) := by
  intro c
  obtain ⟨error, herror⟩ := h c
  exact Or.inl ⟨error, congrArg ofOperation herror⟩

variable {p q : DistributedPencil topology N} {array : GlobalArray K N}
  {act : GlobalArray K N → GlobalArray K N}
  {states : Coords topology.processGrid → PassState K N M}
  {stage : Coords topology.processGrid → TransformStage L N M}

/-- **The transpose with a kernel as its callback.** -/
theorem callInPlace_completes {plan : DistributedPlan topology N .pointToPoint}
    {shared : Coords topology.processGrid → ManyPencilArray K N M}
    (alloc : Coords topology.processGrid → TransposeAllocator)
    (T : Coords topology.processGrid → ElementType)
    (workspace : Coords topology.processGrid → TransposeWorkspace K)
    {kernel : Coords topology.processGrid → List K → Except (Stop ε) (List K)}
    (hactive : ∀ c, ActiveHolds (registry c) extraShape (plan.source.on c) array (shared c))
    (hkernel : ∀ c data, data.length = extraShape.elementCount * (plan.destination.on c).localLen →
      HoldsBlock (plan.destination.on c) extraShape.elementCount array data → ∃ result,
        kernel c data = .ok result ∧ result.length = data.length ∧
          HoldsBlock (plan.destination.on c) extraShape.elementCount (act array) result) :
    Completes (Together (fun after => ∀ c, ActiveHolds (registry c) extraShape
        (plan.destination.on c) (act array) (after c)) fun e => ∀ c, ∃ error after,
          e c = ((.error error : CallbackStop ε Unit), after))
      fun c => (PointToPointTranspose.callInPlace (alloc c) (T c) (plan.on c) (shared c)
        (workspace c) (kernelCallback (kernel c))).run := by
  have : Nonempty (Coords topology.processGrid) := ⟨topology.here⟩
  have hextra := fun c => (hactive c).extraShape_eq
  unfold PointToPointTranspose.callInPlace
  refine together_bind (motive := fun _ => True) ?_ fun _ _ _ _ => ?_
  · refine together_adapt (f := fun _ => _) (together_adapt (f := fun _ => _)
      (B := fun e => ∀ c, ∃ error, e c = Stop.error (OverlapError.transpose error))
      (agreeInPlace_completes alloc T) ?_) ?_
    · intro e he c
      obtain ⟨error, herror⟩ := he c
      exact ⟨error, by simp only [herror]⟩
    · intro e he c
      obtain ⟨error, herror⟩ := he c
      exact ⟨.transpose error, shared c, by simp only [herror]; rfl⟩
  refine (inPlaceWithCallback_delivers plan shared workspace _ _ _ hextra).mono (fun _ h => h) ?_
  rintro r _ (⟨_, e, rfl⟩ | ⟨_, delivered, htransposed, hlen, hended⟩)
  · exact Or.inr ⟨_, rfl, fun c => ⟨e c, shared c, rfl⟩⟩
  have hdelivered := fun c => (htransposed c).holdsBlock fun d => (hactive d).holds
  choose result hresult hresultLen hholds using fun c => hkernel c _ (hlen c) (hdelivered c)
  have hrun : ∀ c, (kernelCallback (kernel c)).run (delivered c) = (result c, .ok) := by
    intro c
    simp [kernelCallback, hresult c, hresultLen c]
  obtain ⟨_, hall⟩ | ⟨hnot, _⟩ := hended
  · choose after index hafter hindex hrewrites using hall
    refine Or.inl ⟨after, funext hafter, fun c => ?_⟩
    refine ⟨(hrewrites c).pencils.trans (hactive c).pencils_eq,
      (hrewrites c).extraShape.trans (hextra c), ⟨index c, (hrewrites c).state, ?_⟩, ?_⟩
    · rw [← (hactive c).pencils_eq]
      exact findLayout_eq_some (hindex c)
    · rw [(hrewrites c).storage, hrun c]
      exact (hholds c).append _ ((hresultLen c).trans (hlen c))
  · exact absurd (fun c => by rw [hrun c]) hnot

/-- **One step of a pass with overlap**, where no transition uses Alltoallv. -/
theorem overlapStep_completes {transition : Coords topology.processGrid → Transition N M}
    (h : Connects extraShape.elementCount
      (fun c => (context c).transpose.sendBuffer.length) p q transition)
    (hmode : ∀ c plan, transition c ≠ .allToAllv plan)
    (hstates : StatesHold registry extraShape p array states) (hq : ∀ c, q.on c ∈ registry c)
    (hkernel : ∀ c, KernelActs extraShape.elementCount (q.on c) act
      ((kernels c).run (stage c).localTransform (q.on c) (stage c).axis)
      ((kernels c).runInPlace (stage c).localTransform (q.on c) (stage c).axis)) (index : ℕ) :
    Completes (Together (fun after => StatesHold registry extraShape q (act array) after ∧
        KeepsDestination states after) (OverlapFails lift))
      fun c => (overlapStep lift (kernels c) (context c) (transition c) index (stage c) (q.on c)
        (states c)).run := by
  -- A transition without messages, then the stage.
  have hquiet : ∀ t : Coords topology.processGrid → Transition N M,
      Connects extraShape.elementCount (fun c => (context c).transpose.sendBuffer.length) p q t →
      Completes (Together (fun after => StatesHold registry extraShape q (act array) after ∧
          KeepsDestination states after) (OverlapFails lift))
        fun c => (ExceptT.adapt ofOperation (do
          let array ← (overlapPolicy lift).transition (executeTransitionTimed
            ((context c).alloc index) (context c).elementType false (t c) (states c).array
            (context c).transpose)
          inPlaceStage (overlapPolicy lift) (kernels c) (stage c) (q.on c) 0
            { states c with array }) : OverlapPassProgram K M ε (PassState K N M)).run := by
    intro t ht
    refine together_adapt (f := fun _ => ofOperation) (completes_bind
      (overlapPolicy_goesOn.transition (executeTransition_completes
        (fun c => (context c).alloc index) (fun c => (context c).elementType) (fun _ => false) ht
        hstates hq)) fun after hafter => ?_) fun e he => he.operation
    have hmoved : StatesHold registry extraShape q array
        fun c => { states c with array := after c } := hafter
    refine (inPlaceStage_completes overlapPolicy_goesOn hmoved hkernel 0).mono (fun _ h => h)
      fun r _ h => h.mono ?_ fun _ h => h
    rintro final ⟨hfinal, hkeeps⟩
    exact ⟨hfinal, hkeeps⟩
  cases h with
  | identity heq => exact hquiet _ (.identity heq)
  | permuted hsame hroom => exact hquiet _ (.permuted hsame hroom)
  | allToAllv plan _ _ => exact absurd rfl (hmode topology.here (plan.on topology.here))
  | pointToPoint plan hsource hdestination =>
    subst hsource hdestination
    unfold overlapStep
    refine completes_bind (motive := fun after => ∀ c, ActiveHolds (registry c) extraShape
      (plan.destination.on c) (act array) (after c)) ?_ fun after hafter => ?_
    · refine together_adapt (f := fun _ => mapOverlap) (callInPlace_completes _ _ _ hstates
        fun c data hdata hblock => ?_) fun e he c => ?_
      · refine (hkernel c).runInPlace array data hdata ?_ hblock
        have hmem := hq c
        rw [← (hstates c).pencils_eq] at hmem
        have hfits := layout_fits (states c).array hmem
        rw [(hstates c).extraShape_eq] at hfits
        exact hfits.1.trans_lt hfits.2
      · obtain ⟨error, after, herror⟩ := he c
        exact Or.inr ⟨error, by simp only [herror]; rfl⟩
    · exact completes_ok ⟨hafter, fun _ => rfl⟩

/-- No transition of a rank uses Alltoallv. -/
def OverlapSupported (transitions : List (StageTransition N M)) : Prop :=
  ∀ transition ∈ transitions, (∀ plan, transition.forward ≠ .allToAllv plan) ∧
    ∀ plan, transition.backward ≠ .allToAllv plan

/-- The end of a pass with overlap. -/
theorem copyActive_completes {onArray : ArrayError → Stop ε}
    (hstates : StatesHold registry extraShape p array states)
    (hlen : ∀ c, (states c).destination.length = extraShape.elementCount * (p.on c).localLen) :
    Completes (Together (DestinationsHold extraShape p array) (OverlapFails lift))
      fun c => (ExceptT.adapt ofOperation (Fallible.ofExcept (copyActive onArray (states c))) :
        OverlapPassProgram K M ε (PassState K N M)).run := by
  have hcopy : ∀ c, ∃ after, copyActive onArray (states c) = .ok after ∧
      after.destination.length = extraShape.elementCount * (p.on c).localLen ∧
      HoldsBlock (p.on c) extraShape.elementCount array after.destination := by
    intro c
    obtain ⟨view, hview, hstorage, hviewLen, _⟩ := (hstates c).activeView
    refine ⟨{ states c with destination := view.storage }, ?_, hviewLen, ?_⟩
    · unfold copyActive
      refine bind_eq_ok.mpr ⟨view, ?_, bind_eq_ok.mpr ⟨(), ?_, rfl⟩⟩
      · rw [hview]
        rfl
      · rw [ensure_eq_ok, decide_eq_true_eq, hviewLen, hlen c]
    · show HoldsBlock _ _ _ view.storage
      rw [hstorage]
      exact (hstates c).holds.take
  choose after hafter hafterLen hholds using hcopy
  simp only [hafter]
  exact completes_ok fun c => ⟨hafterLen c, hholds c⟩

section OverlapPasses

variable {route : ℕ → DistributedPencil topology N} {last : ℕ}
  {stages : Coords topology.processGrid → List (TransformStage L N M)}
  {transitions : Coords topology.processGrid → List (StageTransition N M)}
  {act : ℕ → GlobalArray K N → GlobalArray K N}
  (ready : PassReady (overlapPolicy lift) lift extraShape registry route last stages transitions
    kernels context act)
  (hsupported : ∀ c, OverlapSupported (transitions c))
include ready hsupported

theorem PassReady.forwardPassOverlap
    (hpencils : ∀ c, (states c).array.pencils = registry c)
    (hextra : ∀ c, (states c).array.extraShape = extraShape)
    (hdestination : ∀ c, (states c).destination.length
      = extraShape.elementCount * ((route last).on c).localLen)
    {source : Coords topology.processGrid → List K}
    (hlen : ∀ c, (source c).length = extraShape.elementCount * ((route 0).on c).localLen)
    (hsource : ∀ c, HoldsBlock ((route 0).on c) extraShape.elementCount array (source c)) :
    Completes (Together (DestinationsHold extraShape (route last) (forwards act last array))
        (OverlapFails lift))
      fun c => (Model.forwardPassOverlap lift (kernels c) (context c) (stages c) (transitions c)
        (source c) (states c)).run := by
  obtain ⟨first, hfirst, _, houtput⟩ := ready.pipeline.stage 0 (by omega)
  unfold Model.forwardPassOverlap
  simp only [hfirst, RankProgram.orPanic_some_bind, houtput, ready.pipeline.transitions_length]
  refine completes_bind (together_adapt (f := fun _ => ofOperation)
    (overwriteStage_completes ready.rules hpencils hextra
      (fun c => ready.registered c 0 (by omega)) houtput (fun c => ready.acts c 0 _ (hfirst c))
      hlen hsource 0) fun e he => he.operation) ?_
  rintro started hstarted
  refine completes_bind (completes_range (motive := fun k x =>
    StatesHold registry extraShape (route k) (appliedUpTo act id (k + 1) array) x ∧
      KeepsDestination states x) last ?_ hstarted) ?_
  · rintro k hk x ⟨hx, hkeeps⟩
    obtain ⟨transition, htransition, hforward, _⟩ := ready.pipeline.joins k hk
    obtain ⟨stage, hstage, _, houtput⟩ := ready.pipeline.stage (k + 1) hk
    unfold forwardOverlapStep
    simp only [htransition, hstage, RankProgram.orPanic_some_bind, houtput,
      appliedUpTo_succ act id (k + 1)]
    refine (overlapStep_completes hforward (fun c plan => ?_) hx
      (fun c => ready.registered c (k + 1) hk) (fun c => ready.acts c (k + 1) _ (hstage c))
      k).mono (fun _ h => h) fun r _ h => h.mono ?_ fun _ h => h
    · exact (hsupported c _ (List.mem_of_getElem? (htransition c))).1 plan
    · rintro after ⟨hafter, hkeeps'⟩
      exact ⟨hafter, fun c => (hkeeps' c).trans (hkeeps c)⟩
  · rintro final ⟨hfinal, hkeeps⟩
    refine copyActive_completes hfinal fun c => ?_
    rw [hkeeps c]
    exact hdestination c

theorem PassReady.reversePassOverlap
    (hpencils : ∀ c, (states c).array.pencils = registry c)
    (hextra : ∀ c, (states c).array.extraShape = extraShape)
    (hdestination : ∀ c, (states c).destination.length
      = extraShape.elementCount * ((route 0).on c).localLen)
    {source : Coords topology.processGrid → List K}
    (hlen : ∀ c, (source c).length = extraShape.elementCount * ((route last).on c).localLen)
    (hsource : ∀ c, HoldsBlock ((route last).on c) extraShape.elementCount array (source c)) :
    Completes (Together (DestinationsHold extraShape (route 0) (backwards act last array))
        (OverlapFails lift))
      fun c => (Model.reversePassOverlap lift (kernels c) (context c) (stages c) (transitions c)
        (source c) (states c)).run := by
  obtain ⟨final, hfinal, hinput, houtput⟩ := ready.pipeline.stage last le_rfl
  unfold Model.reversePassOverlap
  simp only [ready.pipeline.stages_length, Nat.add_sub_cancel, hfinal,
    RankProgram.orPanic_some_bind, hinput, ready.pipeline.transitions_length]
  refine completes_bind (together_adapt (f := fun _ => ofOperation)
    (overwriteStage_completes ready.rules hpencils hextra
      (fun c => ready.registered c last le_rfl) houtput
      (fun c => ready.acts c last _ (hfinal c)) hlen hsource last) fun e he => he.operation) ?_
  rintro started hstarted
  refine completes_bind (completes_range_reverse (motive := fun k x =>
    StatesHold registry extraShape (route (last - k)) (appliedUpTo act (last - ·) (k + 1) array) x ∧
      KeepsDestination states x) last ?_ hstarted) ?_
  · rintro k hk x ⟨hx, hkeeps⟩
    have hnext : last - k = last - 1 - k + 1 := by omega
    rw [hnext] at hx
    obtain ⟨transition, htransition, _, hbackward⟩ :=
      ready.pipeline.joins (last - 1 - k) (by omega)
    obtain ⟨stage, hstage, hinput, _⟩ := ready.pipeline.stage (last - 1 - k) (by omega)
    have hback : last - (k + 1) = last - 1 - k := by omega
    unfold reverseOverlapStep
    simp only [htransition, hstage, RankProgram.orPanic_some_bind, hinput,
      appliedUpTo_succ act (last - ·) (k + 1), hback]
    refine (overlapStep_completes hbackward (fun c plan => ?_) hx
      (fun c => ready.registered c _ (by omega)) (fun c => ready.acts c _ _ (hstage c))
      _).mono (fun _ h => h) fun r _ h => h.mono ?_ fun _ h => h
    · exact (hsupported c _ (List.mem_of_getElem? (htransition c))).2 plan
    · rintro after ⟨hafter, hkeeps'⟩
      exact ⟨hafter, fun c => (hkeeps' c).trans (hkeeps c)⟩
  · rintro final ⟨hfinal, hkeeps⟩
    rw [Nat.sub_self] at hfinal
    refine copyActive_completes hfinal fun c => ?_
    rw [hkeeps c]
    exact hdestination c

end OverlapPasses

end Overlap

end PencilRs.Analysis
