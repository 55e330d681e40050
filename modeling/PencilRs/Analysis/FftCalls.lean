import PencilRs.Analysis.FftPlan

/-!
# Calls of a plan

A call compares its operation and the plan's descriptor and agrees on the local preflight before
it runs.  The ranks are refused together, or they run together.
-/

set_option autoImplicit false

namespace PencilRs.Analysis

open PencilRs.Computation PencilRs.Model
open Semantics.Ensures (Together)

variable {N M : ℕ} {K ε β : Type} {topology : MpiTopology M}

/-! ## Local checks do not panic -/

section NoPanic

variable {σ : Type}

theorem noPanic_ok (x : β) : (.ok x : Except (Stop ε) β) ≠ .error .panic := nofun

theorem noPanic_bind {x : Except (Stop ε) β} {f : β → Except (Stop ε) σ} (hx : x ≠ .error .panic)
    (hf : ∀ a, f a ≠ .error .panic) : x >>= f ≠ .error .panic := by
  cases x with
  | ok a => exact hf a
  | error e =>
    intro h
    apply hx
    rw [Except.error.inj h]

theorem noPanic_ensure (condition : Bool) (e : ε) :
    ensure condition (Stop.error e) ≠ .error .panic := by
  cases condition <;> exact nofun

theorem noPanic_mapError {δ : Type} (x : Except δ β) (f : δ → ε) :
    x.mapError (fun e => Stop.error (f e)) ≠ .error .panic := by
  cases x <;> exact nofun

end NoPanic

/-! ## Outcomes -/

/-- The errors of a call on all ranks.  Where every rank calls the same operation, gets the buffers
of the comparison and passes its preflight, they are errors of the run. -/
structure CallFails (alloc : Coords topology.processGrid → CallAllocator)
    (operation : Coords topology.processGrid → BitVec 64)
    (preflight : Coords topology.processGrid → Except (Stop FftError) Unit)
    (runFails : (Coords topology.processGrid → Stop ε) → Prop)
    (e : Coords topology.processGrid → Stop ε) : Prop where
  errors : AllError e
  run : (∀ c d, operation c = operation d) → (∀ c, (alloc c).compared = (true, true)) →
    (∀ c, preflight c = .ok ()) → runFails e

section Calls

variable {lift : FftError → ε} (alloc : Coords topology.processGrid → CallAllocator)
  {operation : Coords topology.processGrid → BitVec 64}
  {descriptor : Coords topology.processGrid → List (BitVec 64)}
  {preflight : Coords topology.processGrid → Except (Stop FftError) Unit}
  {runFails : (Coords topology.processGrid → Stop ε) → Prop}

theorem agreeExecutionDescriptor_completes (hequal : ∀ c d, descriptor c = descriptor d)
    (hfits : ∀ c, lengthFits (descriptor c).length = true) :
    Completes (α := K) (Together (fun _ => ∀ c d, operation c = operation d) fun e =>
        AllError e ∧ ((∀ c d, operation c = operation d) → ∃ c, (alloc c).compared ≠ (true, true)))
      fun c => (agreeExecutionDescriptor lift (alloc c) N (operation c) (descriptor c)).run := by
  let proposal (c : Coords topology.processGrid) : Proposal 64 := {
    schema := fftDescriptorSchema
    operation := operation c
    spatialRank := BitVec.ofNat 64 N
    topologyRank := BitVec.ofNat 64 M
    expectedLen := some (descriptor c).length
    descriptor := some (descriptor c)
    reserved := (alloc c).compared }
  have hcompare := agreeFftDescriptor_completes (K := K) lift proposal
  unfold agreeExecutionDescriptor
  refine completes_bind (motive := fun _ => ∀ c d, operation c = operation d)
    (hcompare.mono (fun _ h => h) fun r _ h => h.mono ?_ ?_) fun _ h => completes_ok h
  · intro words hwords c d
    exact congrFun (hwords.header c d) ⟨1, by decide⟩
  · rintro e ⟨hall, hnot⟩
    refine ⟨hall, fun hoperation => ?_⟩
    by_contra hgranted
    push Not at hgranted
    apply hnot
    refine ⟨fun c d => ?_, fun c => ?_, fun c d => ?_⟩
    · simp only [Proposal.header, proposal, hoperation c d, hequal c d]
      rfl
    · simp [Proposal.ready, proposal, hfits c, hgranted c]
    · simp [proposal, hequal c d]

theorem agreeLocalPreflight_completes (hpanic : ∀ c, preflight c ≠ .error .panic) :
    Completes (α := K) (Together (fun _ => ∀ c, preflight c = .ok ()) fun e =>
        AllError e ∧ ∃ c, preflight c ≠ .ok ())
      fun c => (agreeLocalPreflight lift (preflight c)).run := by
  have hexists : ∀ c, ∃ result : Except FftError Unit,
      preflight c = result.mapError Stop.error := by
    intro c
    match hresult : preflight c with
    | .ok () => exact ⟨.ok (), rfl⟩
    | .error (.error e) => exact ⟨.error e, rfl⟩
    | .error .panic => exact absurd hresult (hpanic c)
  choose result hresult using hexists
  have hagree : ∀ c, (agreeLocalPreflight lift (preflight c) : RankProgram K M ε Unit)
      = agreePreflight ((result c).mapError lift) (lift .collectivePreconditionFailed) := by
    intro c
    rw [hresult c]
    cases result c <;> rfl
  simp only [hagree]
  refine (agreePreflight_verdict _ _).mono (fun _ h => h) fun r _ h => h.mono ?_ ?_
  · intro _ hok c
    rw [hresult c, mapError_eq_ok.mp (hok c)]
    rfl
  · rintro e ⟨hall, c, error, herror⟩
    refine ⟨hall, c, ?_⟩
    rw [hresult c]
    cases hc : result c with
    | ok _ =>
      simp only [hc] at herror
      contradiction
    | error _ => exact nofun

/-- **The checks before a call** pass on every rank, or the call is refused on every rank. -/
theorem preflight_completes (hequal : ∀ c d, descriptor c = descriptor d)
    (hfits : ∀ c, lengthFits (descriptor c).length = true)
    (hpanic : ∀ c, preflight c ≠ .error .panic) :
    Completes (α := K) (Together (fun _ => ∀ c, preflight c = .ok ())
        (CallFails alloc operation preflight fun _ => False)) fun c => (do
      agreeExecutionDescriptor lift (alloc c) N (operation c) (descriptor c)
      agreeLocalPreflight lift (preflight c)).run := by
  refine completes_bind (motive := fun _ => ∀ c d, operation c = operation d)
    ((agreeExecutionDescriptor_completes alloc hequal hfits).mono (fun _ h => h)
      fun r _ h => h.mono (fun _ h => h) ?_) fun _ _ => ?_
  · rintro e ⟨hall, hdescriptor⟩
    refine ⟨hall, fun hoperation hgranted _ => ?_⟩
    obtain ⟨c, hc⟩ := hdescriptor hoperation
    exact absurd (hgranted c) hc
  refine (agreeLocalPreflight_completes hpanic).mono (fun _ h => h)
    fun r _ h => h.mono (fun _ h => h) ?_
  rintro e ⟨hall, c, hc⟩
  exact ⟨hall, fun _ _ hpreflight => absurd (hpreflight c) hc⟩

/-- **A call** is refused on every rank, or its run decides. -/
theorem call_completes {good : (Coords topology.processGrid → β) → Prop}
    {body : Coords topology.processGrid → RankProgram K M ε β}
    (hequal : ∀ c d, descriptor c = descriptor d)
    (hfits : ∀ c, lengthFits (descriptor c).length = true)
    (hpanic : ∀ c, preflight c ≠ .error .panic) (herrors : ∀ e, runFails e → AllError e)
    (hbody : (∀ c, preflight c = .ok ()) →
      Completes (Together good runFails) fun c => (body c).run) :
    Completes (Together good (CallFails alloc operation preflight runFails)) fun c => (do
      agreeExecutionDescriptor lift (alloc c) N (operation c) (descriptor c)
      agreeLocalPreflight lift (preflight c)
      body c).run := by
  simp only [← bind_assoc]
  refine completes_bind ((preflight_completes alloc hequal hfits hpanic).mono
    (fun _ h => h) fun r _ h => h.mono (fun _ h => h) ?_) fun _ hpreflight => ?_
  · rintro e ⟨hall, hnot⟩
    exact ⟨hall, fun hoperation hgranted hok => (hnot hoperation hgranted hok).elim⟩
  refine (hbody hpreflight).mono (fun _ h => h) fun r _ h => h.mono (fun _ h => h) fun e he => ?_
  exact ⟨herrors e he, fun _ _ _ => he⟩

end Calls

end PencilRs.Analysis
