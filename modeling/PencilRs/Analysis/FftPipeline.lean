import PencilRs.Analysis.FftPlan

/-!
# From plans to pipelines

The stages that the ranks' plans have in one position are a distributed pencil, and the
transitions that a constructor built between two positions connect the distributed pencils.
-/

set_option autoImplicit false

namespace PencilRs.Analysis

open PencilRs.Computation PencilRs.Model
open Semantics.Ensures (Together)

variable {N M : ℕ} {K L : Type} {topology : MpiTopology M}

/-! ## Distributed stages -/

/-- The pencils that visit one axis on all ranks. -/
def stagePencil {globalShape : Fin N → ℕ} {permuteDims : Bool} {axis : ℕ}
    (pencil : Coords topology.processGrid → Pencil N M)
    (h : ∀ c, IsStage (topology.atCoords c) globalShape permuteDims axis (pencil c)) :
    DistributedPencil topology N where
  on := pencil
  topology_eq := fun c => (h c).topology
  globalShape_eq := fun c d => (h c).globalShape.trans (h d).globalShape.symm
  decomposition_eq := fun c d => ((h c).layout_eq (h d)).1
  permutation_eq := fun c d => ((h c).layout_eq (h d)).2

/-- Whether two distributed pencils have one layout is the same on every rank. -/
theorem sameLayout_distributed (p q : DistributedPencil topology N)
    (c d : Coords topology.processGrid) :
    (p.on c).sameLayout (q.on c) = (p.on d).sameLayout (q.on d) := by
  simp [Pencil.sameLayout, Pencil.sameDistribution, Pencil.sameTopology, p.topology_eq,
    q.topology_eq, p.globalShape_eq c d, q.globalShape_eq c d, p.decomposition_eq c d,
    q.decomposition_eq c d, p.permutation_eq c d, q.permutation_eq c d]

/-! ## Connections -/

section Joins

variable {method : TransposeMethod} {source destination : Pencil N M}
  {transition : StageTransition N M}

theorem JoinsBy.distributed_inv (h : JoinsBy method source destination true transition) :
    ∃ forward backward, transition = ⟨transitionBy method forward, transitionBy method backward⟩ ∧
      PlansBetween source destination (methodMode method) forward ∧
      PlansBetween destination source (methodMode method) backward := by
  cases h with
  | distributed forward backward hforward hbackward =>
    exact ⟨forward, backward, rfl, hforward, hbackward⟩

theorem JoinsBy.identity_inv (h : JoinsBy method source destination false transition)
    (hsame : source.sameLayout destination = true) : transition = ⟨.identity, .identity⟩ := by
  cases h with
  | identity _ => rfl
  | permuted hdiffers _ _ => exact absurd (hsame.symm.trans hdiffers) nofun

theorem JoinsBy.permuted_inv (h : JoinsBy method source destination false transition)
    (hdiffers : source.sameLayout destination = false) :
    transition = ⟨.local ⟨source, destination⟩, .local ⟨destination, source⟩⟩ ∧
      source.sameDistribution destination = true ∧ destination.sameDistribution source = true := by
  cases h with
  | identity hsame => exact absurd (hsame.symm.trans hdiffers) nofun
  | permuted _ hforward hbackward => exact ⟨rfl, hforward, hbackward⟩

end Joins

/-- The plans of all ranks between two distributed pencils. -/
def planBetween {mode : CommunicationMode} (p q : DistributedPencil topology N)
    (plan : Coords topology.processGrid → TransposePlanCore N M)
    (h : ∀ c, PlansBetween (p.on c) (q.on c) mode (plan c)) : DistributedPlan topology N mode where
  source := p
  destination := q
  on := plan
  source_eq := fun c => (h c).source
  destination_eq := fun c => (h c).destination
  mode_eq := fun c => (h c).mode

theorem connects_transitionBy {E : ℕ} {room : Coords topology.processGrid → ℕ}
    {p q : DistributedPencil topology N} {method : TransposeMethod}
    {plan : Coords topology.processGrid → TransposePlanCore N M}
    (h : ∀ c, PlansBetween (p.on c) (q.on c) (methodMode method) (plan c)) :
    Connects E room p q fun c => transitionBy method (plan c) := by
  cases method with
  | allToAllv => exact .allToAllv (planBetween p q plan h) rfl rfl
  | pointToPoint => exact .pointToPoint (planBetween p q plan h) rfl rfl

/-- **A built transition** connects the stages in both directions. -/
theorem connects_of_joins {E : ℕ} {room : Coords topology.processGrid → ℕ}
    {p q : DistributedPencil topology N} {method : TransposeMethod} {isDistributed : Bool}
    {transition : Coords topology.processGrid → StageTransition N M}
    (hjoins : ∀ c, JoinsBy method (p.on c) (q.on c) isDistributed (transition c))
    (hroom : ∀ c, HasRoom E (p.on c) (q.on c) (transition c) (room c)) :
    Connects E room p q (fun c => (transition c).forward) ∧
      Connects E room q p fun c => (transition c).backward := by
  cases isDistributed with
  | true =>
    choose forward backward htransition hforward hbackward using
      fun c => (hjoins c).distributed_inv
    simp only [htransition]
    exact ⟨connects_transitionBy hforward, connects_transitionBy hbackward⟩
  | false =>
    by_cases hsame : (p.on topology.here).sameLayout (q.on topology.here) = true
    · have hsame : ∀ c, (p.on c).sameLayout (q.on c) = true := fun c =>
        (sameLayout_distributed p q c topology.here).trans hsame
      simp only [fun c => (hjoins c).identity_inv (hsame c)]
      have hequal := fun c => Pencil.eq_of_sameLayout (hsame c)
      exact ⟨.identity hequal, .identity fun c => (hequal c).symm⟩
    · have hdiffers : ∀ c, (p.on c).sameLayout (q.on c) = false := fun c =>
        (sameLayout_distributed p q c topology.here).trans (Bool.not_eq_true _ ▸ hsame)
      have hinv := fun c => (hjoins c).permuted_inv (hdiffers c)
      have hfits : ∀ c, E * (p.on c).localLen ≤ room c ∧ E * (q.on c).localLen ≤ room c := by
        intro c
        apply hroom c
        rw [(hinv c).1]
        exact Or.inl ⟨_, rfl⟩
      simp only [fun c => (hinv c).1]
      exact ⟨.permuted (fun c => (hinv c).2.1) fun c => (hfits c).1,
        .permuted (fun c => (hinv c).2.2) fun c => (hfits c).2⟩

/-! ## Pipelines -/

section Pipelines

variable {stages : Coords topology.processGrid → List (TransformStage L N M)}
  {transitions : Coords topology.processGrid → List (StageTransition N M)}
  {lengths : Coords topology.processGrid → TransposeLengths} {distributed : List Bool}
  {E last : ℕ} {method : TransposeMethod} {route : ℕ → DistributedPencil topology N}

/-- Stage `k` is on the pencil of the route, on every rank. -/
structure StagesOn (stages : Coords topology.processGrid → List (TransformStage L N M))
    (route : ℕ → DistributedPencil topology N) (k : ℕ) : Prop where
  stage : ∀ c, ∃ stage, (stages c)[k]? = some stage ∧ stage.input = (route k).on c ∧
    stage.output = (route k).on c

/-- **What a constructor builds is a pipeline**, where the workspaces are long enough. -/
theorem pipeline_of_built {room : Coords topology.processGrid → ℕ} (hlast : 0 < last)
    (hlen : ∀ c, (stages c).length = last + 1) (hon : ∀ k ≤ last, StagesOn stages route k)
    (hbuilt : ∀ c, BuiltUpTo (stages c) distributed E method 0 last (transitions c, lengths c))
    (hroom : ∀ c, (lengths c).sendLen ≤ room c) :
    Pipeline E room route last stages transitions where
  last_pos := hlast
  stages_length := hlen
  transitions_length := fun c => (hbuilt c).length
  stage := by
    intro k hk
    choose stage hstage hinput houtput using (hon k hk).stage
    exact ⟨stage, hstage, hinput, houtput⟩
  joins := by
    intro k hk
    have hexists : ∀ c, ∃ transition, (transitions c)[k]? = some transition := by
      intro c
      have hlength : k < (transitions c).length := by
        rw [(hbuilt c).length]
        exact hk
      exact ⟨_, List.getElem?_eq_getElem hlength⟩
    choose transition htransition using hexists
    refine ⟨transition, htransition, ?_⟩
    have hall : ∀ c, ∃ isDistributed, distributed[k]? = some isDistributed ∧
        JoinsBy method ((route k).on c) ((route (k + 1)).on c) isDistributed
          (transition c) ∧
        HasRoom E ((route k).on c) ((route (k + 1)).on c) (transition c) (room c) := by
      intro c
      obtain ⟨source, destination, isDistributed, hsource, hdestination, hflag, hjoins, hfits⟩ :=
        (hbuilt c).joins k _ (htransition c)
      obtain ⟨first, hfirst, _, houtput⟩ := (hon k hk.le).stage c
      obtain ⟨second, hsecond, hinput, _⟩ := (hon (k + 1) hk).stage c
      rw [hfirst, Option.map_some, Option.some.injEq, houtput] at hsource
      rw [hsecond, Option.map_some, Option.some.injEq, hinput] at hdestination
      subst hsource hdestination
      exact ⟨isDistributed, hflag, hjoins, hfits.mono (hroom c)⟩
    choose isDistributed hflag hjoins hfits using hall
    have hjoined : ∀ c, JoinsBy method ((route k).on c) ((route (k + 1)).on c)
        (isDistributed topology.here) (transition c) := by
      intro c
      obtain heq : isDistributed c = isDistributed topology.here :=
        Option.some.inj ((hflag c).symm.trans (hflag topology.here))
      exact heq ▸ hjoins c
    exact connects_of_joins hjoined hfits

end Pipelines

/-! ## Policies -/

/-- A policy that returns the results of transitions as they are. -/
theorem goesOn_id {policy : PassPolicy K FftError M}
    (hsettle : ∀ {β : Type} (x : β), policy.settle (.ok x) = Fallible.ofExcept (.ok x))
    (htransition : ∀ {β : Type} (p : RankProgram K M FftError β), policy.transition p = p) :
    GoesOn topology policy id where
  settle := by
    intro β x
    simp only [hsettle]
    exact completes_ok rfl
  transition := by
    intro β good p h
    simp only [htransition]
    exact h

end PencilRs.Analysis
