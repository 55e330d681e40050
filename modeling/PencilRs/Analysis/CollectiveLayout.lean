import PencilRs.Analysis.Descriptor
import PencilRs.Analysis.Distribution
import PencilRs.Analysis.Ranks

/-!
# Preparing a collective operation

The ranks of a distributed view propose the same descriptor and compute the same global count,
so preparation fails on all of them or on none.
-/

set_option autoImplicit false

namespace PencilRs.Analysis

open PencilRs.Computation PencilRs.Model

variable {N M : ℕ} {α β σ : Type} {topology : MpiTopology M}

/-! ## Programs on the Cartesian communicator -/

/-- The calls of collective operations on views are reductions and gatherings. -/
abbrev CollectiveCalls (α : Type) (topology : MpiTopology M) :
    Semantics.CallCondition ((transport Unit M).beside (gathering α)) (Coords topology.processGrid)
      Unit :=
  Semantics.CallCondition.beside RequestsMatch fun _ _ _ => True

/-- Every run of a collective operation ends with `post`. -/
abbrev CompletesCollective (post : (Coords topology.processGrid → σ) → Prop)
    (p : Coords topology.processGrid → Proc ((transport Unit M).beside (gathering α)) σ) : Prop :=
  (cartesian α topology).Ensures (CollectiveCalls α topology) (fun _ => True) (fun _ => False)
    (fun r _ => post r) () p

/-- Going on after a reduction on which the ranks agree. -/
theorem reducing_bind {p : Coords topology.processGrid → RankProgram Unit M CollectiveError β}
    {mid : (Coords topology.processGrid → Except (Stop CollectiveError) β) → Prop}
    {f : Coords topology.processGrid → β → CollectiveProgram α M σ}
    {post : (Coords topology.processGrid → Except (Stop CollectiveError) σ) → Prop}
    (h : Completes mid fun c => (p c).run) (hagreed : ∀ r, mid r → Semantics.Ensures.Agreed r)
    (hok : ∀ x : Coords topology.processGrid → β, mid (fun c => .ok (x c)) →
      CompletesCollective post fun c => (f c (x c)).run)
    (herror : ∀ e : Coords topology.processGrid → Stop CollectiveError,
      mid (fun c => .error (e c)) → post fun c => .error (e c)) :
    CompletesCollective post fun c => (reducing (p c) >>= f c).run :=
  Semantics.Ensures.inl_bind_agreed trivial h hagreed hok herror

/-- All ranks go on with the gathered values. -/
theorem allGather_bind {args : Coords topology.processGrid → α}
    {f : Coords topology.processGrid → List α → CollectiveProgram α M σ}
    {post : (Coords topology.processGrid → Except (Stop CollectiveError) σ) → Prop}
    (h : CompletesCollective post fun c => (f c ((ranksInOrder topology).map args)).run) :
    CompletesCollective post fun c => (Fallible.perform
      (I := (transport Unit M).beside (gathering α)) (.inr .allGather) (args c) >>= f c).run := by
  have hrounds : (List.range topology.size).map (fun rank => args (topology.coordsAt rank))
      = (ranksInOrder topology).map args := by
    unfold ranksInOrder
    rw [List.map_map]
    rfl
  refine .perform_bind trivial trivial (fun _ h => h.elim)
    ⟨fun _ => (ranksInOrder topology).map args, (), fun _ => hrounds.symm⟩ ?_
  intro replies _ hround
  have hreplies : replies = fun _ => (ranksInOrder topology).map args :=
    funext fun c => (hround c).trans hrounds
  rw [hreplies]
  exact h

/-! ## The descriptor -/

section Layout

variable (p : DistributedPencil topology N) (extraShape : ExtraShape) (T U : TypeInfo)
  (callbackName : List (BitVec 8))

theorem appendWord_length (value : ℕ) : (appendWord value).length = 2 := rfl

theorem flatMap_appendWord_length {γ : Type} (l : List γ) (f : γ → ℕ) :
    (l.flatMap fun x => appendWord (f x)).length = 2 * l.length := by
  rw [List.length_flatMap]
  simp [appendWord_length, Nat.mul_comm]

theorem appendUsizes_length (values : List ℕ) :
    (appendUsizes values).length = 2 * values.length :=
  flatMap_appendWord_length values id

theorem foldlM_checkedAdd {l : List ℕ} {acc n : ℕ} (h : l.foldlM checkedAdd acc = some n) :
    n = acc + l.sum := by
  induction l generalizing acc with
  | nil =>
    rw [List.foldlM_nil] at h
    cases h
    simp
  | cons a l ih =>
    rw [List.foldlM_cons] at h
    obtain ⟨next, hnext, hrest⟩ := Option.bind_eq_some_iff.mp h
    obtain ⟨_, rfl⟩ := checkedAdd_eq_some.mp hnext
    rw [ih hrest, List.sum_cons]
    omega

/-- The descriptor has the length that was announced. -/
theorem layoutWords_length (pencil : Pencil N M) (operation rootWord : ℕ) {length : ℕ}
    (h : descriptorLen (N := N) (M := M) extraShape T U callbackName = some length) :
    (layoutWords pencil extraShape T U callbackName operation rootWord).length = length := by
  obtain ⟨words, hwords, hdouble⟩ := Option.bind_eq_some_iff.mp h
  obtain ⟨_, rfl⟩ := checkedMul_eq_some.mp hdouble
  have hsum := foldlM_checkedAdd hwords
  simp only [List.sum_cons, List.sum_nil] at hsum
  unfold layoutWords appendTypeName
  simp only [List.length_append, appendWord_length, flatMap_appendWord_length,
    appendUsizes_length, List.length_ofFn, List.length_finRange]
  omega

theorem layoutWords_on (c d : Coords topology.processGrid) (operation rootWord : ℕ) :
    layoutWords (p.on c) extraShape T U callbackName operation rootWord
      = layoutWords (p.on d) extraShape T U callbackName operation rootWord := by
  unfold layoutWords
  rw [p.globalShape_eq c d, p.decomposition_eq c d, p.permutation_eq c d, processGrid_on,
    processGrid_on]

theorem globalLen_on (c d : Coords topology.processGrid) :
    (p.on c).globalLen = (p.on d).globalLen := by
  rw [checkedProduct_ok (p.on c).globalLen_ok, checkedProduct_ok (p.on d).globalLen_ok,
    p.globalShape_eq c d]

/-- What preparation needs: the allocators grant the buffers of the comparison, and the
descriptor length and the global count are representable. -/
structure LayoutReady (alloc : Coords topology.processGrid → CollectiveAllocator) : Prop where
  reserved : ∀ c, (alloc c).descriptor = true ∧ (alloc c).minimum = true ∧
    (alloc c).maximum = true
  length : ∃ len, descriptorLen (N := N) (M := M) extraShape T U callbackName = some len ∧
    len ≤ countMax
  count : extraShape.elementCount * (p.on topology.here).globalLen < usizeLimit

variable {p extraShape T U callbackName}
  {alloc : Coords topology.processGrid → CollectiveAllocator}

theorem layoutProposal_ready_iff {pencil : Pencil N M} {grants : CollectiveAllocator}
    {operation rootWord : ℕ} :
    (layoutProposal pencil extraShape T U callbackName grants operation rootWord).ready lengthFits
        = true ↔
      (grants.descriptor = true ∧ grants.minimum = true ∧ grants.maximum = true) ∧
        ∃ len, descriptorLen (N := N) (M := M) extraShape T U callbackName = some len ∧
          len ≤ countMax := by
  have hfits : ∀ len, lengthFits len = true ↔ len ≤ countMax := by
    intro len
    unfold lengthFits countTryFrom
    split <;> simp_all
  unfold layoutProposal Proposal.ready buildDescriptor
  cases hlen : descriptorLen (N := N) (M := M) extraShape T U callbackName with
  | none => simp
  | some len =>
    have hwords := layoutWords_length extraShape T U callbackName pencil operation rootWord hlen
    cases hgrant : grants.descriptor with
    | false => simp
    | true =>
      cases hmin : grants.minimum with
      | false => simp [hwords]
      | true => simp [hwords, hfits, and_comm]

/-- The descriptors of equal layouts differ where their root words do. -/
theorem layoutWords_root_inj {pencil : Pencil N M} {operation rootWord rootWord' : ℕ}
    (h : layoutWords pencil extraShape T U callbackName operation rootWord
      = layoutWords pencil extraShape T U callbackName operation rootWord') :
    appendWord rootWord = appendWord rootWord' := by
  unfold layoutWords at h
  simp only [List.append_assoc, List.append_cancel_left_eq] at h
  exact List.append_cancel_right h

/-- All ranks name the same root. -/
def SameRoots (roots : Coords topology.processGrid → ℕ) : Prop :=
  ∀ c d, appendWord (roots c) = appendWord (roots d)

/-- How preparation ends. -/
inductive Prepared (p : DistributedPencil topology N) (extraShape : ExtraShape) (T U : TypeInfo)
    (callbackName : List (BitVec 8)) (alloc : Coords topology.processGrid → CollectiveAllocator)
    (roots : Coords topology.processGrid → ℕ) :
    (Coords topology.processGrid → Except (Stop CollectiveError) ℕ) → Prop
  | ready (h : LayoutReady p extraShape T U callbackName alloc) (hroots : SameRoots roots) :
      Prepared p extraShape T U callbackName alloc roots fun _ =>
        .ok (extraShape.elementCount * (p.on topology.here).globalLen)
  | refused (e : CollectiveError)
      (h : ¬ (LayoutReady p extraShape T U callbackName alloc ∧ SameRoots roots)) :
      Prepared p extraShape T U callbackName alloc roots fun _ => .error (.error e)

variable {roots : Coords topology.processGrid → ℕ}

theorem Prepared.agreed {r : Coords topology.processGrid → Except (Stop CollectiveError) ℕ}
    (h : Prepared p extraShape T U callbackName alloc roots r) : Semantics.Ensures.Agreed r := by
  cases h with
  | ready _ _ => exact Or.inl ⟨_, rfl⟩
  | refused e _ => exact Or.inr ⟨_, rfl⟩

theorem Prepared.of_ok {count : Coords topology.processGrid → ℕ}
    (h : Prepared p extraShape T U callbackName alloc roots fun c => .ok (count c)) :
    LayoutReady p extraShape T U callbackName alloc ∧ SameRoots roots ∧
      count = fun _ => extraShape.elementCount * (p.on topology.here).globalLen := by
  generalize hr : (fun c => Except.ok (count c)) = r at h
  cases h with
  | ready h hroots => exact ⟨h, hroots, funext fun c => Except.ok.inj (congrFun hr c)⟩
  | refused e _ => exact absurd (congrFun hr topology.here) (by simp)

theorem Prepared.of_error {e : Coords topology.processGrid → Stop CollectiveError}
    (h : Prepared p extraShape T U callbackName alloc roots fun c => .error (e c)) :
    ¬ (LayoutReady p extraShape T U callbackName alloc ∧ SameRoots roots) ∧
      ∃ err : CollectiveError, e = fun _ => .error err := by
  generalize hr : (fun c => Except.error (e c)) = r at h
  cases h with
  | ready _ _ => exact absurd (congrFun hr topology.here) (by simp)
  | refused err h => exact ⟨h, err, funext fun c => Except.error.inj (congrFun hr c)⟩

/-- **Preparation** ends the same way on every rank of a distributed view. -/
theorem prepareLayout_completes (operation : ℕ) (roots : Coords topology.processGrid → ℕ) :
    Completes (α := Unit) (Prepared p extraShape T U callbackName alloc roots)
      fun c => (prepareLayout (p.on c) extraShape T U callbackName (alloc c) operation
        (roots c)).run := by
  have : Nonempty (Coords topology.processGrid) := ⟨topology.here⟩
  unfold prepareLayout
  have hheader : ∀ c d, (layoutProposal (p.on c) extraShape T U callbackName (alloc c) operation
      (roots c)).header = (layoutProposal (p.on d) extraShape T U callbackName (alloc d) operation
      (roots d)).header := fun _ _ => rfl
  have hdescriptor : ∀ c, (layoutProposal (p.on c) extraShape T U callbackName (alloc c) operation
      (roots c)).ready lengthFits = true →
      (layoutProposal (p.on c) extraShape T U callbackName (alloc c) operation
        (roots c)).descriptor = some (layoutWords (p.on topology.here) extraShape T U callbackName
          operation (roots c)) := by
    intro c hready
    obtain ⟨⟨hgrant, _⟩, len, hlen, _⟩ := layoutProposal_ready_iff.mp hready
    have hlength := layoutWords_length extraShape T U callbackName (p.on c) operation (roots c) hlen
    rw [← layoutWords_on p extraShape T U callbackName c]
    unfold layoutProposal buildDescriptor
    simp [hgrant, hlen, hlength]
  refine Semantics.Ensures.bind_agreed (agreeDescriptor_completes _) ?_ ?_ ?_
  · rintro _ _ (_ | _ | _ | words)
    · exact Or.inr ⟨_, rfl⟩
    · exact Or.inr ⟨_, rfl⟩
    · exact Or.inr ⟨_, rfl⟩
    · exact Or.inl ⟨_, rfl⟩
  · intro x _ hverdict _
    generalize hr : (fun c => Except.ok (x c)) = r at hverdict
    cases hverdict with
    | headersDiffer h => exact absurd (congrFun hr topology.here) (by simp)
    | notReady h hready => exact absurd (congrFun hr topology.here) (by simp)
    | descriptorsDiffer h hready hdiffer => exact absurd (congrFun hr topology.here) (by simp)
    | agreed words _ hready hequal =>
      have hroots : SameRoots roots := by
        intro c d
        have hc := (hdescriptor c (hready c)).symm.trans (hequal c)
        have hd := (hdescriptor d (hready d)).symm.trans (hequal d)
        exact layoutWords_root_inj (Option.some.inj (hc.trans hd.symm))
      have hready := fun c => layoutProposal_ready_iff.mp (hready c)
      rw [show (fun c => (agreePreflight (okOr (checkedMul extraShape.elementCount
          (p.on c).globalLen) .countOverflow) .collectivePreconditionFailed :
            RankProgram Unit M CollectiveError ℕ).run)
        = fun c => (agreePreflight (okOr (checkedMul extraShape.elementCount
          (p.on c).globalLen) .countOverflow) .collectivePreconditionFailed >>= pure :
            RankProgram Unit M CollectiveError ℕ).run by simp only [bind_pure]]
      refine agreePreflight_bind ?_ ?_
      · intro count hcount
        have hcount := fun c => checkedMul_eq_some.mp (okOr_eq_ok.mp (hcount c))
        have heq : count = fun _ => extraShape.elementCount * (p.on topology.here).globalLen := by
          funext c
          rw [← (hcount c).2, globalLen_on p c topology.here]
        rw [heq]
        exact .returned _ (fun _ => rfl) trivial (.ready ⟨fun c => (hready c).1,
          (hready topology.here).2, (hcount topology.here).1⟩ hroots)
      · rintro e ⟨c, err, herr⟩ hown
        have hover : ∀ d, okOr (checkedMul extraShape.elementCount (p.on d).globalLen)
            CollectiveError.countOverflow = .error .countOverflow := by
          intro d
          rw [globalLen_on p d c]
          obtain ⟨hnone, _⟩ := okOr_eq_error.mp herr
          rw [hnone]
          rfl
        have heq : e = fun _ => .countOverflow := funext fun d => hown d _ (hover d)
        rw [heq]
        refine .refused _ fun hall => ?_
        have hnone := (okOr_eq_error.mp (hover topology.here)).1
        have := hall.1.count
        have := checkedMul_eq_none.mp hnone
        omega
  · intro e _ hverdict _
    generalize hr : (fun c => Except.error (e c)) = r at hverdict
    cases hverdict with
    | headersDiffer h => exact absurd hheader h
    | notReady h hready =>
      obtain rfl : e = fun _ => .error .preparationFailed :=
        funext fun c => Except.error.inj (congrFun hr c)
      refine .refused _ fun hall => hready fun c => ?_
      exact layoutProposal_ready_iff.mpr ⟨hall.1.reserved c, hall.1.length⟩
    | descriptorsDiffer h hready hdiffer =>
      obtain rfl : e = fun _ => .error .collectiveDescriptorMismatch :=
        funext fun c => Except.error.inj (congrFun hr c)
      refine .refused _ fun hall => hdiffer fun c d => ?_
      rw [hdescriptor c (hready c), hdescriptor d (hready d)]
      unfold layoutWords
      rw [hall.2 c d]
    | agreed words _ _ _ => exact absurd (congrFun hr topology.here) (by simp)

end Layout

end PencilRs.Analysis
