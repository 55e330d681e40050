import PencilRs.Analysis.LocalTranspose
import PencilRs.Analysis.Overlap
import PencilRs.Analysis.Refinement
import PencilRs.Computation.Together

/-!
# Transitions keep the array

A transition takes the ranks from one distributed layout to another: by doing nothing, by
permuting the local blocks, or by a transpose.  Either every rank then holds the same global array
in the new layout, or the transpose failed on every rank.
-/

set_option autoImplicit false

namespace PencilRs.Analysis

open PencilRs.Computation PencilRs.Model
open Semantics.Ensures (Together together_bind together_adapt together_ok)

variable {N M : ℕ} {K ε : Type} {topology : MpiTopology M} {mode : CommunicationMode}

/-! ## Blocks that were transposed -/

section Blocks

variable {plan : DistributedPlan topology N mode} {c : Coords topology.processGrid} {E : ℕ}
  {array : ℕ → (Fin N → ℕ) → K} {elements : Coords topology.processGrid → List K} {cells : List K}

/-- A transposed block holds the array its sources hold. -/
theorem IsTransposed.holdsBlock (h : IsTransposed plan c E elements cells)
    (hholds : ∀ d, HoldsBlock (plan.source.on d) E array (elements d)) :
    HoldsBlock (plan.destination.on c) E array cells := by
  intro e he x hx
  obtain ⟨d, howns, heq⟩ := h e he _ (owns_toGlobal hx)
  rw [toLocal_toGlobal] at heq
  rw [heq, hholds d e he _ (validLocal_toLocal howns), toGlobal_toLocal howns]

end Blocks

section Arrays

variable {plan : DistributedPlan topology N mode} {extraShape : ExtraShape}
  {registry : Coords topology.processGrid → List (Pencil N M)} {array : ℕ → (Fin N → ℕ) → K}
  {shared : Coords topology.processGrid → ManyPencilArray K N M}

theorem TransposedInPlace.activeHolds {c : Coords topology.processGrid}
    {after : ManyPencilArray K N M}
    (h : TransposedInPlace plan c extraShape.elementCount (fun d => (shared d).storage) (shared c)
      after)
    (hactive : ∀ d, ActiveHolds (registry d) extraShape (plan.source.on d) array (shared d)) :
    ActiveHolds (registry c) extraShape (plan.destination.on c) array after := by
  obtain ⟨index, hindex, hstate⟩ := h.active
  refine ⟨h.pencils.trans (hactive c).pencils_eq, h.extraShape.trans (hactive c).extraShape_eq,
    ⟨index, hstate, ?_⟩, ?_⟩
  · rw [← (hactive c).pencils_eq]
    exact findLayout_eq_some hindex
  · exact h.transposed.holdsBlock fun d => (hactive d).holds

end Arrays

/-! ## The transition of all ranks -/

/-- The transitions of the ranks lead from one distributed layout to another.  A local permutation
needs room for the block. -/
inductive Connects (E : ℕ) (room : Coords topology.processGrid → ℕ)
    (p q : DistributedPencil topology N) : (Coords topology.processGrid → Transition N M) → Prop
  | identity (h : ∀ c, p.on c = q.on c) : Connects E room p q fun _ => .identity
  | permuted (h : ∀ c, (p.on c).sameDistribution (q.on c) = true)
      (hroom : ∀ c, E * (p.on c).localLen ≤ room c) :
      Connects E room p q fun c => .local ⟨p.on c, q.on c⟩
  | allToAllv (plan : DistributedPlan topology N .allToAllv) (hsource : plan.source = p)
      (hdestination : plan.destination = q) : Connects E room p q fun c => .allToAllv (plan.on c)
  | pointToPoint (plan : DistributedPlan topology N .pointToPoint) (hsource : plan.source = p)
      (hdestination : plan.destination = q) :
      Connects E room p q fun c => .pointToPoint (plan.on c)

/-- The errors of a transpose. -/
def TransposeFails (e : Coords topology.processGrid → Stop FftError) : Prop :=
  ∀ c, ∃ error, e c = .error (.transpose error)

section Transition

variable {extraShape : ExtraShape} {registry : Coords topology.processGrid → List (Pencil N M)}
  {array : ℕ → (Fin N → ℕ) → K} {shared : Coords topology.processGrid → ManyPencilArray K N M}
  {workspace : Coords topology.processGrid → TransposeWorkspace K}
  (alloc : Coords topology.processGrid → TransposeAllocator)
  (T : Coords topology.processGrid → ElementType)

/-- The comparison before a transpose. -/
theorem agreeInPlace_completes {plan : Coords topology.processGrid → TransposePlanCore N M}
    {operation : Coords topology.processGrid → BitVec 64} :
    Completes (Together (fun _ => True) fun e => ∀ c, ∃ error, e c = Stop.error error)
      fun c => (agreeInPlace (alloc c) (T c) (plan c) (shared c) (operation c)).run := by
  have : Nonempty (Coords topology.processGrid) := ⟨topology.here⟩
  unfold agreeInPlace
  refine Semantics.Ensures.bind_agreed (agreeExecuteDescriptor_completes fun c =>
    (plan c).executeProposal (alloc c).descriptor (T c) (shared c).extraShape
      (shared c).extraShape (operation c)) ?_ ?_ ?_
  · rintro r _ (_ | _ | _ | ⟨words, _⟩)
    · exact Or.inr ⟨_, rfl⟩
    · exact Or.inr ⟨_, rfl⟩
    · exact Or.inr ⟨_, rfl⟩
    · exact Or.inl ⟨fun _ => words, rfl⟩
  · intro _ _ _ _
    exact .returned _ (fun _ => rfl) trivial (Or.inl ⟨_, rfl, trivial⟩)
  · intro e _ hverdict _
    refine Or.inr ⟨e, rfl, fun c => ?_⟩
    generalize hr : (fun i => Except.error (e i) : Coords topology.processGrid →
      Except (Stop TransposeError) (List (BitVec 64))) = r at hverdict
    have hc := congrFun hr c
    cases hverdict with
    | headersDiffer => exact ⟨_, Except.error.inj hc⟩
    | notReady => exact ⟨_, Except.error.inj hc⟩
    | descriptorsDiffer => exact ⟨_, Except.error.inj hc⟩
    | agreed => contradiction

/-- **A transition** leaves the same array in the next layout, or fails on every rank. -/
theorem executeTransition_completes {p q : DistributedPencil topology N}
    {transition : Coords topology.processGrid → Transition N M}
    (timed : Coords topology.processGrid → Bool)
    (h : Connects extraShape.elementCount (fun c => (workspace c).sendBuffer.length) p q transition)
    (hactive : ∀ c, ActiveHolds (registry c) extraShape (p.on c) array (shared c))
    (hq : ∀ c, q.on c ∈ registry c) :
    Completes (Together (fun after => ∀ c, ActiveHolds (registry c) extraShape (q.on c) array
        (after c)) TransposeFails)
      fun c => (executeTransitionTimed (alloc c) (T c) (timed c) (transition c) (shared c)
        (workspace c)).run := by
  have : Nonempty (Coords topology.processGrid) := ⟨topology.here⟩
  have hextra := fun c => (hactive c).extraShape_eq
  have houtcome : ∀ {mode : CommunicationMode} (plan : DistributedPlan topology N mode)
      (passed : Prop) (results : Coords topology.processGrid →
        Except (Stop TransposeError) (ManyPencilArray K N M)),
      plan.source = p → plan.destination = q →
      InPlaceOutcome plan shared extraShape.elementCount passed results →
      Together (fun after => ∀ c, ActiveHolds (registry c) extraShape (q.on c) array (after c))
        (fun e => ∀ c, ∃ error, e c = Stop.error error) results := by
    rintro mode plan passed results rfl rfl (⟨_, hall⟩ | ⟨_, hall⟩)
    · choose after hafter htransposed using hall
      exact Or.inl ⟨after, funext hafter, fun c => (htransposed c).activeHolds hactive⟩
    · choose error herror using hall
      exact Or.inr ⟨fun c => .error (error c), funext herror, fun c => ⟨error c, rfl⟩⟩
  have hfails : ∀ e : Coords topology.processGrid → Stop TransposeError,
      (∀ c, ∃ error, e c = .error error) → TransposeFails fun c => ofTranspose (e c) := by
    intro e he c
    obtain ⟨error, herror⟩ := he c
    exact ⟨error, congrArg ofTranspose herror⟩
  cases h with
  | identity heq =>
    refine .returned _ (fun _ => rfl) trivial (Or.inl ⟨shared, rfl, fun c => ?_⟩)
    rw [← heq c]
    exact hactive c
  | permuted hsame hroom =>
    choose after hafter hholds using fun c => localTranspose_eq ⟨p.on c, q.on c⟩
      (hsame c) (hactive c) (hq c) (hroom c)
    refine .returned (fun c => .ok (after c)) (fun c => ?_) trivial (Or.inl ⟨after, rfl, hholds⟩)
    show (RankProgram.orPanic _).run = _
    rw [hafter c]
    rfl
  | allToAllv plan hsource hdestination =>
    refine together_adapt ?_ hfails
    unfold AlltoallvTranspose.executeInPlace
    exact together_bind (agreeInPlace_completes alloc T) fun _ _ _ _ =>
      (alltoallvInPlace_completes plan shared workspace _ hextra).mono (fun _ h => h)
        fun r _ h => houtcome plan _ r hsource hdestination h
  | pointToPoint plan hsource hdestination =>
    refine together_adapt ?_ hfails
    unfold PointToPointTranspose.executeInPlace
    exact together_bind (agreeInPlace_completes alloc T) fun _ _ _ _ =>
      (pointToPointInPlace_completes plan shared workspace _ _ hextra).mono (fun _ h => h)
        fun r _ h => houtcome plan _ r hsource hdestination h

end Transition

end PencilRs.Analysis
