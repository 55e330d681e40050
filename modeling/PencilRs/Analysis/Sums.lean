import PencilRs.Analysis.CollectiveLayout

/-!
# Checked integer sums

A checked sum is the exact sum where every addition on the way fits the type, first in storage
order on each rank and then in rank order; else every rank reports the overflow.
-/

set_option autoImplicit false

namespace PencilRs.Analysis

open PencilRs.Computation PencilRs.Model

variable {N M : ℕ} {α : Type} {topology : MpiTopology M} {scalar : IntegerScalar}

/-! ## One fold -/

/-- Every initial sum of a list is a value of the type. -/
def SumsFit (scalar : IntegerScalar) (l : List ℤ) : Prop :=
  ∀ k ≤ l.length, scalar.min ≤ (l.take k).sum ∧ (l.take k).sum ≤ scalar.max

/-- The integers of a list of values. -/
abbrev integers (l : List scalar.Value) : List ℤ := l.map Subtype.val

/-- The fold succeeds where every addition fits, and then it is exact. -/
theorem foldlM_checkedAddForSum (l : List scalar.Value) (acc : scalar.Value) :
    ((∀ k ≤ l.length, scalar.min ≤ acc.val + ((integers l).take k).sum ∧
          acc.val + ((integers l).take k).sum ≤ scalar.max) →
        ∃ t, l.foldlM IntegerScalar.checkedAddForSum acc = .ok t ∧
          t.val = acc.val + (integers l).sum) ∧
      ((¬ ∀ k ≤ l.length, scalar.min ≤ acc.val + ((integers l).take k).sum ∧
          acc.val + ((integers l).take k).sum ≤ scalar.max) →
        l.foldlM IntegerScalar.checkedAddForSum acc = .error .integerOverflow) := by
  induction l generalizing acc with
  | nil =>
    refine ⟨fun _ => ⟨acc, rfl, by simp⟩, fun hnot => absurd (fun k _ => ?_) hnot⟩
    simpa using acc.2
  | cons x l ih =>
    rw [List.foldlM_cons]
    by_cases hx : scalar.min ≤ acc.val + x.val ∧ acc.val + x.val ≤ scalar.max
    · have hadd : IntegerScalar.checkedAddForSum acc x = .ok ⟨acc.val + x.val, hx⟩ := by
        unfold IntegerScalar.checkedAddForSum
        rw [dif_pos hx]
      rw [hadd]
      have hshift : (∀ k ≤ (x :: l).length,
          scalar.min ≤ acc.val + ((integers (x :: l)).take k).sum ∧
            acc.val + ((integers (x :: l)).take k).sum ≤ scalar.max) ↔
          ∀ k ≤ l.length, scalar.min ≤ acc.val + x.val + ((integers l).take k).sum ∧
            acc.val + x.val + ((integers l).take k).sum ≤ scalar.max := by
        constructor
        · intro h k hk
          have := h (k + 1) (by rw [List.length_cons]; omega)
          simpa [add_assoc] using this
        · intro h k hk
          cases k with
          | zero => simpa using acc.2
          | succ k =>
            have := h k (by rw [List.length_cons] at hk; omega)
            simpa [add_assoc] using this
      rw [hshift]
      obtain ⟨hok, herror⟩ := ih ⟨acc.val + x.val, hx⟩
      refine ⟨fun h => ?_, herror⟩
      obtain ⟨t, ht, hval⟩ := hok h
      refine ⟨t, ht, hval.trans ?_⟩
      show acc.val + x.val + (integers l).sum = acc.val + (x.val :: integers l).sum
      rw [List.sum_cons, add_assoc]
    · have hadd : IntegerScalar.checkedAddForSum acc x = .error .integerOverflow := by
        unfold IntegerScalar.checkedAddForSum
        rw [dif_neg hx]
      rw [hadd]
      refine ⟨fun h => absurd ?_ hx, fun _ => rfl⟩
      simpa using h 1 (by simp)

/-- A sum from zero. -/
theorem foldlM_checkedAddForSum_zero (l : List scalar.Value) :
    (SumsFit scalar (integers l) ∧ ∃ t,
        l.foldlM IntegerScalar.checkedAddForSum scalar.zero = .ok t ∧
          t.val = (integers l).sum) ∨
      (¬ SumsFit scalar (integers l) ∧
        l.foldlM IntegerScalar.checkedAddForSum scalar.zero = .error .integerOverflow) := by
  have hzero : scalar.zero.val = 0 := rfl
  have hfits : SumsFit scalar (integers l) ↔ ∀ k ≤ l.length,
      scalar.min ≤ scalar.zero.val + ((integers l).take k).sum ∧
        scalar.zero.val + ((integers l).take k).sum ≤ scalar.max := by
    unfold SumsFit
    rw [List.length_map, hzero]
    simp only [zero_add]
  obtain ⟨hok, herror⟩ := foldlM_checkedAddForSum l scalar.zero
  by_cases h : SumsFit scalar (integers l)
  · obtain ⟨t, ht, hval⟩ := hok (hfits.mp h)
    exact Or.inl ⟨h, t, ht, by rw [hval, hzero, zero_add]⟩
  · exact Or.inr ⟨h, herror fun hall => h (hfits.mpr hall)⟩

/-- The mapped traversal adds the same way as the local sum. -/
theorem foldl_accumulateMappedSum (f : α → scalar.Value) (l : List α) (acc : scalar.Value) :
    l.foldl (fun sum value => IntegerScalar.accumulateMappedSum sum (f value)) (.ok acc)
      = (l.map f).foldlM IntegerScalar.checkedAddForSum acc := by
  have herror : ∀ (l : List α) (e : CollectiveError),
      l.foldl (fun (sum : Except CollectiveError scalar.Value) value =>
        IntegerScalar.accumulateMappedSum sum (f value)) (.error e) = .error e := by
    intro l e
    induction l with
    | nil => rfl
    | cons x l ih => exact ih
  induction l generalizing acc with
  | nil => rfl
  | cons x l ih =>
    have hzero : IntegerScalar.checkedAddForSum scalar.zero acc = .ok acc := by
      unfold IntegerScalar.checkedAddForSum
      have hacc : scalar.zero.val + acc.val = acc.val := zero_add _
      rw [dif_pos (by rw [hacc]; exact acc.2)]
      exact congrArg Except.ok (Subtype.ext hacc)
    have hstep : IntegerScalar.accumulateMappedSum (.ok acc) (f x)
        = IntegerScalar.checkedAddForSum acc (f x) := by
      show IntegerScalar.localSum [acc, f x] = _
      unfold IntegerScalar.localSum
      rw [List.foldlM_cons, hzero]
      show [f x].foldlM IntegerScalar.checkedAddForSum acc = _
      rw [List.foldlM_cons]
      simp only [List.foldlM_nil]
      exact bind_pure _
    rw [List.foldl_cons, hstep, List.map_cons, List.foldlM_cons]
    cases IntegerScalar.checkedAddForSum acc (f x) with
    | ok sum => exact ih sum
    | error e => exact herror l e

/-! ## All ranks -/

/-- Every addition of the sum over `values` fits: on each rank in storage order, and over the
ranks in rank order. -/
structure AdditionsFit (values : Coords topology.processGrid → List scalar.Value) : Prop where
  storage : ∀ c, SumsFit scalar (integers (values c))
  ranks : SumsFit scalar ((ranksInOrder topology).map fun c => (integers (values c)).sum)

/-- What a checked sum over `values` is: the exact sum of all elements where every addition
fits, and else an overflow. -/
structure IsCheckedSum (values : Coords topology.processGrid → List scalar.Value)
    (result : Except (Stop CollectiveError) scalar.Value) : Prop where
  ok_iff : ∀ t, result = .ok t ↔
    AdditionsFit values ∧ t.val = ∑ c, (integers (values c)).sum
  overflow : ¬ AdditionsFit values → result = .error (.error .integerOverflow)

theorem IsCheckedSum.of_ok {values : Coords topology.processGrid → List scalar.Value}
    {t : scalar.Value} (h : AdditionsFit values) (ht : t.val = ∑ c, (integers (values c)).sum) :
    IsCheckedSum values (.ok t) where
  ok_iff := by
    intro t'
    constructor
    · rintro heq
      cases heq
      exact ⟨h, ht⟩
    · rintro ⟨_, ht'⟩
      rw [Subtype.ext (ht.trans ht'.symm)]
  overflow := fun hnot => absurd h hnot

theorem IsCheckedSum.of_overflow {values : Coords topology.processGrid → List scalar.Value}
    (h : ¬ AdditionsFit values) :
    IsCheckedSum values (.error (.error .integerOverflow)) where
  ok_iff := by
    intro t
    constructor
    · rintro heq
      cases heq
    · rintro ⟨hfits, _⟩
      exact absurd hfits h
  overflow := fun _ => rfl

/-- There is exactly one. -/
theorem existsUnique_isCheckedSum (values : Coords topology.processGrid → List scalar.Value) :
    ∃! result, IsCheckedSum values result := by
  by_cases h : AdditionsFit values
  · have hlast := h.ranks _ le_rfl
    rw [List.take_length, sum_ranksInOrder] at hlast
    refine ⟨.ok ⟨_, hlast⟩, .of_ok h rfl, fun result hresult => ?_⟩
    exact (hresult.ok_iff _).mpr ⟨h, rfl⟩
  · exact ⟨_, .of_overflow h, fun result hresult => hresult.overflow h⟩

/-- How the agreement on local sums ends. -/
inductive SumsAgreed {β : Type} (results : Coords topology.processGrid → Except CollectiveError β) :
    (Coords topology.processGrid → Except (Stop CollectiveError) β) → Prop
  | ok (x : Coords topology.processGrid → β) (h : ∀ c, results c = .ok (x c)) :
      SumsAgreed results fun c => .ok (x c)
  | overflow (c : Coords topology.processGrid) (h : results c = .error .integerOverflow) :
      SumsAgreed results fun _ => .error (.error .integerOverflow)
  | failed (e : Coords topology.processGrid → CollectiveError)
      (h : ∃ c err, results c = .error err) (hnone : ∀ c, results c ≠ .error .integerOverflow) :
      SumsAgreed results fun c => .error (.error (e c))

/-- **A local overflow** is reported by every rank. -/
theorem agreeSumResult_completes {β : Type}
    (results : Coords topology.processGrid → Except CollectiveError β) :
    Completes (SumsAgreed results) fun c => (agreeSumResult (results c)).run := by
  have : Nonempty (Coords topology.processGrid) := ⟨topology.here⟩
  unfold agreeSumResult
  refine collectiveValid_bind _ fun valid hvalid => ?_
  cases valid with
  | true =>
    have hok := hvalid.mp rfl
    have hnone : ¬ ∃ c e, results c = .error e := by
      rintro ⟨c, e, he⟩
      have := hok c
      rw [he] at this
      contradiction
    obtain ⟨x, hx⟩ := forall_ok_of_not_error hnone
    refine .returned _ (fun c => ?_) trivial (.ok x hx)
    rw [hx c]
    rfl
  | false =>
    have hfail : ∃ c err, results c = .error err := by
      by_contra hnone
      obtain ⟨x, hx⟩ := forall_ok_of_not_error hnone
      exact Bool.false_ne_true (hvalid.mpr fun c => by rw [hx c]; rfl)
    refine .perform_bind trivial trivial (fun _ h => h.elim) (allReduceMax_live _) ?_
    intro replies _ hround
    by_cases hover : ∃ c, results c = .error .integerOverflow
    · obtain ⟨c, hc⟩ := hover
      refine .returned _ (fun d => ?_) trivial (.overflow c hc)
      have hpos : replies d 0 ≠ 0 := by
        have hle := (hround d 0).2 (Set.mem_range_self c)
        simp only [hc, Bool.toNat_true] at hle
        omega
      rw [if_pos hpos]
      rfl
    · have hnone : ∀ c, results c ≠ .error .integerOverflow := fun c hc => hover ⟨c, hc⟩
      refine .returned (fun c => .error (.error (errOr (results c) .collectivePreconditionFailed)))
        (fun d => ?_) trivial (.failed _ hfail hnone)
      have hzero : replies d 0 = 0 := by
        obtain ⟨c, hc⟩ := (hround d 0).1
        rw [← hc]
        simp only
        split
        · rename_i heq
          exact absurd heq (hnone c)
        · rfl
      rw [if_neg (not_not.mpr hzero)]
      rfl

/-- How the agreement on the local sums of `values` ends. -/
inductive LocalSums (values : Coords topology.processGrid → List scalar.Value) :
    (Coords topology.processGrid → Except (Stop CollectiveError) scalar.Value) → Prop
  | ok (x : Coords topology.processGrid → scalar.Value)
      (hfits : ∀ c, SumsFit scalar (integers (values c)))
      (hx : ∀ c, (x c).val = (integers (values c)).sum) : LocalSums values fun c => .ok (x c)
  | overflow (h : ∃ c, ¬ SumsFit scalar (integers (values c))) :
      LocalSums values fun _ => .error (.error .integerOverflow)

theorem LocalSums.agreed {values : Coords topology.processGrid → List scalar.Value}
    {r : Coords topology.processGrid → Except (Stop CollectiveError) scalar.Value}
    (h : LocalSums values r) : Semantics.Ensures.Agreed r := by
  cases h with
  | ok x _ _ => exact Or.inl ⟨x, rfl⟩
  | overflow _ => exact Or.inr ⟨_, rfl⟩

theorem LocalSums.of_ok {values : Coords topology.processGrid → List scalar.Value}
    {sums : Coords topology.processGrid → scalar.Value}
    (h : LocalSums values fun c => .ok (sums c)) :
    (∀ c, SumsFit scalar (integers (values c))) ∧
      ∀ c, (sums c).val = (integers (values c)).sum := by
  generalize hr : (fun c => Except.ok (sums c)) = r at h
  cases h with
  | ok x hfits hx =>
    obtain rfl : sums = x := funext fun c => Except.ok.inj (congrFun hr c)
    exact ⟨hfits, hx⟩
  | overflow _ => exact absurd (congrFun hr topology.here) (by simp)

theorem LocalSums.of_error {values : Coords topology.processGrid → List scalar.Value}
    {e : Coords topology.processGrid → Stop CollectiveError}
    (h : LocalSums values fun c => .error (e c)) :
    (∃ c, ¬ SumsFit scalar (integers (values c))) ∧ e = fun _ => .error .integerOverflow := by
  generalize hr : (fun c => Except.error (e c)) = r at h
  cases h with
  | ok x _ _ => exact absurd (congrFun hr topology.here) (by simp)
  | overflow h => exact ⟨h, funext fun c => Except.error.inj (congrFun hr c)⟩

theorem localSums_completes (values : Coords topology.processGrid → List scalar.Value) :
    Completes (LocalSums values)
      fun c => (agreeSumResult (IntegerScalar.localSum (values c))).run := by
  refine (agreeSumResult_completes _).mono (fun _ h => h) ?_
  intro r _ hagreed
  have hsum := fun c => foldlM_checkedAddForSum_zero (values c)
  cases hagreed with
  | ok x h =>
    have hc : ∀ c, SumsFit scalar (integers (values c)) ∧
        (x c).val = (integers (values c)).sum := by
      intro c
      obtain ⟨hfits, t, ht, hval⟩ | ⟨_, herror⟩ := hsum c
      · obtain rfl : t = x c := Except.ok.inj (ht.symm.trans (h c))
        exact ⟨hfits, hval⟩
      · have := (h c).symm.trans herror
        contradiction
    exact .ok x (fun c => (hc c).1) fun c => (hc c).2
  | overflow c h =>
    refine .overflow ⟨c, fun hfits => ?_⟩
    obtain ⟨_, t, ht, _⟩ | ⟨hnot, _⟩ := hsum c
    · have := h.symm.trans ht
      contradiction
    · exact hnot hfits
  | failed e h hnone =>
    obtain ⟨c, err, herr⟩ := h
    obtain ⟨_, t, ht, _⟩ | ⟨_, herror⟩ := hsum c
    · have := herr.symm.trans ht
      contradiction
    · exact absurd herror (hnone c)

/-- The sum of the local sums in rank order is the checked sum. -/
theorem isCheckedSum_ranks {values : Coords topology.processGrid → List scalar.Value}
    {sums : Coords topology.processGrid → scalar.Value}
    (hfits : ∀ c, SumsFit scalar (integers (values c)))
    (hsums : ∀ c, (sums c).val = (integers (values c)).sum) :
    IsCheckedSum values ((((ranksInOrder topology).map sums).foldlM
      IntegerScalar.checkedAddForSum scalar.zero).mapError .error) := by
  have hmap : integers ((ranksInOrder topology).map sums)
      = (ranksInOrder topology).map fun c => (integers (values c)).sum := by
    rw [integers, List.map_map]
    exact List.map_congr_left fun c _ => hsums c
  obtain ⟨hranks, t, ht, hval⟩ | ⟨hnot, herror⟩ :=
    foldlM_checkedAddForSum_zero ((ranksInOrder topology).map sums)
  · rw [ht]
    rw [hmap] at hranks hval
    refine .of_ok ⟨hfits, hranks⟩ ?_
    rw [hval, sum_ranksInOrder]
  · rw [herror]
    rw [hmap] at hnot
    exact .of_overflow fun hall => hnot hall.ranks

/-- How a program ends that only needs the buffer of the partials. -/
inductive PartialsReserved (alloc : Coords topology.processGrid → CollectiveAllocator) :
    (Coords topology.processGrid → Except (Stop CollectiveError) Unit) → Prop
  | reserved (h : ∀ c, (alloc c).partials = true) : PartialsReserved alloc fun _ => .ok ()
  | refused (e : Coords topology.processGrid → CollectiveError)
      (h : ¬ ∀ c, (alloc c).partials = true) :
      PartialsReserved alloc fun c => .error (.error (e c))

section Reservation

variable {alloc : Coords topology.processGrid → CollectiveAllocator}

theorem PartialsReserved.agreed
    {r : Coords topology.processGrid → Except (Stop CollectiveError) Unit}
    (h : PartialsReserved alloc r) : Semantics.Ensures.Agreed r := by
  cases h with
  | reserved _ => exact Or.inl ⟨_, rfl⟩
  | refused e _ => exact Or.inr ⟨_, rfl⟩

theorem PartialsReserved.of_ok {x : Coords topology.processGrid → Unit}
    (h : PartialsReserved alloc fun c => .ok (x c)) : ∀ c, (alloc c).partials = true := by
  generalize hr : (fun c => Except.ok (x c)) = r at h
  cases h with
  | reserved h => exact h
  | refused e _ => exact absurd (congrFun hr topology.here) (by simp)

theorem PartialsReserved.of_error {e : Coords topology.processGrid → Stop CollectiveError}
    (h : PartialsReserved alloc fun c => .error (e c)) :
    (¬ ∀ c, (alloc c).partials = true) ∧
      ∃ err : Coords topology.processGrid → CollectiveError, e = fun c => .error (err c) := by
  generalize hr : (fun c => Except.error (e c)) = r at h
  cases h with
  | reserved _ => exact absurd (congrFun hr topology.here) (by simp)
  | refused err h => exact ⟨h, err, funext fun c => Except.error.inj (congrFun hr c)⟩

end Reservation

theorem prepareIntegerCollectiveSum_completes
    (alloc : Coords topology.processGrid → CollectiveAllocator)
    (size : Coords topology.processGrid → ℕ) :
    Completes (α := Unit) (PartialsReserved alloc)
      fun c => (prepareIntegerCollectiveSum (alloc c).partials (size c)).run := by
  have : Nonempty (Coords topology.processGrid) := ⟨topology.here⟩
  unfold prepareIntegerCollectiveSum
  refine collectiveValid_bind _ fun valid hvalid => ?_
  cases valid with
  | true => exact .returned (fun _ => .ok ()) (fun _ => rfl) trivial (.reserved (hvalid.mp rfl))
  | false =>
    refine .returned (fun c => .error (.error (if (alloc c).partials then
      .collectivePreconditionFailed else .allocationFailed (size c)))) (fun _ => rfl) trivial
      (.refused _ fun hall => ?_)
    exact Bool.false_ne_true (hvalid.mpr hall)

/-- The ranks add the gathered sums in rank order. -/
theorem integerCollectiveSumPrepared_completes (sums : Coords topology.processGrid → scalar.Value)
    {post : (Coords topology.processGrid → Except (Stop CollectiveError) scalar.Value) → Prop}
    (h : post fun _ => (((ranksInOrder topology).map sums).foldlM
      IntegerScalar.checkedAddForSum scalar.zero).mapError .error) :
    CompletesCollective post fun c => (integerCollectiveSumPrepared (sums c)).run := by
  unfold integerCollectiveSumPrepared
  refine allGather_bind ?_
  exact .returned _ (fun _ => rfl) trivial h

/-! ## The collective operations -/

section Operations

variable {p : DistributedPencil topology N} {extraShape : ExtraShape} {T : TypeInfo}
  {callbackName : List (BitVec 8)} {alloc : Coords topology.processGrid → CollectiveAllocator}

/-- What a sum over `values` needs besides: the preparation of the layout and the buffer of the
partials. -/
def SumReady (p : DistributedPencil topology N) (extraShape : ExtraShape) (T : TypeInfo)
    (callbackName : List (BitVec 8)) (alloc : Coords topology.processGrid → CollectiveAllocator) :
    Prop :=
  LayoutReady p extraShape T T callbackName alloc ∧ ∀ c, (alloc c).partials = true

/-- How a sum over `values` ends: with the checked sum on all ranks, or, where it was not ready,
with errors on all ranks. -/
structure SumOutcome (ready : Prop) (values : Coords topology.processGrid → List scalar.Value)
    (r : Coords topology.processGrid → Except (Stop CollectiveError) scalar.Value) : Prop where
  same : ready → ∃ result, IsCheckedSum values result ∧ r = fun _ => result
  refused : ¬ ready → ∀ c, ∃ e, r c = .error (.error e)

theorem SumOutcome.of_refused {ready : Prop}
    {values : Coords topology.processGrid → List scalar.Value}
    {e : Coords topology.processGrid → CollectiveError} (h : ¬ ready) :
    SumOutcome ready values fun c => .error (.error (e c)) where
  same := fun hready => absurd hready h
  refused := fun _ c => ⟨e c, rfl⟩

theorem SumOutcome.of_sum {ready : Prop}
    {values : Coords topology.processGrid → List scalar.Value}
    {result : Except (Stop CollectiveError) scalar.Value} (hready : ready)
    (h : IsCheckedSum values result) : SumOutcome ready values fun _ => result where
  same := fun _ => ⟨result, h, rfl⟩
  refused := fun hnot => absurd hready hnot

/-- `global_sum` also reports a local overflow where the partials are refused. -/
theorem globalSum_completes (view : DistributedView p extraShape scalar.Value) :
    CompletesCollective
      (fun r => SumOutcome (SumReady p extraShape T unitName alloc) (fun c => (view.on c).storage) r ∧
        (LayoutReady p extraShape T T unitName alloc →
          (∃ c, ¬ SumsFit scalar (integers (view.on c).storage)) →
          r = fun _ => .error (.error .integerOverflow)))
      fun c => (globalSum (alloc c) T (view.on c)).run := by
  unfold globalSum
  simp only [view.pencil_eq, view.extraShape_eq]
  refine reducing_bind (prepareLayout_completes opGlobalSum fun _ => 0) (fun _ h => h.agreed) ?_ ?_
  · intro _ hprepared
    have hready : LayoutReady p extraShape T T unitName alloc := hprepared.of_ok.1
    refine reducing_bind (localSums_completes fun c => (view.on c).storage)
      (fun _ h => h.agreed) ?_ ?_
    · intro sums hsums
      obtain ⟨hfits, hval⟩ := hsums.of_ok
      have hlocal : ¬ ∃ c, ¬ SumsFit scalar (integers (view.on c).storage) := by
        rintro ⟨c, hc⟩
        exact hc (hfits c)
      refine reducing_bind (prepareIntegerCollectiveSum_completes alloc _) (fun _ h => h.agreed)
        ?_ ?_
      · intro _ hreserved
        refine integerCollectiveSumPrepared_completes _ ⟨?_, fun _ h => absurd h hlocal⟩
        exact .of_sum ⟨hready, hreserved.of_ok⟩ (isCheckedSum_ranks hfits hval)
      · intro e hreserved
        obtain ⟨hnot, err, rfl⟩ := hreserved.of_error
        exact ⟨.of_refused fun h => hnot h.2, fun _ h => absurd h hlocal⟩
    · intro e hsums
      obtain ⟨⟨c, hc⟩, rfl⟩ := hsums.of_error
      refine ⟨⟨fun _ => ⟨_, .of_overflow fun h => hc (h.storage c), rfl⟩, fun _ c => ⟨_, rfl⟩⟩, ?_⟩
      exact fun _ _ => rfl
  · intro e hprepared
    obtain ⟨hnot, err, rfl⟩ := hprepared.of_error
    have hnot : ¬ LayoutReady p extraShape T T unitName alloc :=
      fun h => hnot ⟨h, fun _ _ => rfl⟩
    exact ⟨.of_refused fun h => hnot h.1, fun h _ => absurd h hnot⟩

theorem sumBy_completes (view : DistributedView p extraShape scalar.Value) :
    CompletesCollective
      (SumOutcome (SumReady p extraShape T callbackName alloc) fun c => (view.on c).storage)
      fun c => (sumBy (alloc c) T T callbackName (view.on c) id).run := by
  have htraversal : ∀ c, (view.on c).storage.foldl
      (fun sum value => IntegerScalar.accumulateMappedSum sum (id value)) (.ok scalar.zero)
        = IntegerScalar.localSum (view.on c).storage := by
    intro c
    rw [foldl_accumulateMappedSum, List.map_id]
    rfl
  unfold sumBy
  simp only [view.pencil_eq, view.extraShape_eq, htraversal]
  refine reducing_bind (prepareLayout_completes opSumBy fun _ => 0) (fun _ h => h.agreed) ?_ ?_
  · intro _ hprepared
    have hready : LayoutReady p extraShape T T callbackName alloc := hprepared.of_ok.1
    refine reducing_bind (prepareIntegerCollectiveSum_completes alloc _) (fun _ h => h.agreed)
      ?_ ?_
    · intro _ hreserved
      have hready : SumReady p extraShape T callbackName alloc := ⟨hready, hreserved.of_ok⟩
      refine reducing_bind (localSums_completes fun c => (view.on c).storage)
        (fun _ h => h.agreed) ?_ ?_
      · intro sums hsums
        obtain ⟨hfits, hval⟩ := hsums.of_ok
        exact integerCollectiveSumPrepared_completes _
          (.of_sum hready (isCheckedSum_ranks hfits hval))
      · intro e hsums
        obtain ⟨⟨c, hc⟩, rfl⟩ := hsums.of_error
        exact .of_sum hready (.of_overflow fun h => hc (h.storage c))
    · intro e hreserved
      obtain ⟨hnot, err, rfl⟩ := hreserved.of_error
      exact .of_refused fun h => hnot h.2
  · intro e hprepared
    obtain ⟨hnot, err, rfl⟩ := hprepared.of_error
    exact .of_refused fun h => hnot ⟨h.1, fun _ _ => rfl⟩

/-- **Checked sums agree.**  There is one result for given local data: the exact sum where every
addition fits, in storage order on each rank and then in rank order, and else an overflow.
`global_sum` and `sum_by` with the identity return it on every rank, and a local overflow is
reported on every rank. -/
theorem checked_sum_agreement (p : DistributedPencil topology N) (extraShape : ExtraShape)
    (T : TypeInfo) (callbackName : List (BitVec 8))
    (alloc : Coords topology.processGrid → CollectiveAllocator)
    (view : DistributedView p extraShape scalar.Value) :
    ∃ result, (∀ r, IsCheckedSum (fun c => (view.on c).storage) r ↔ r = result) ∧
      ((∃ c, ¬ SumsFit scalar (integers (view.on c).storage)) →
        result = .error (.error .integerOverflow)) ∧
      (cartesian scalar.Value topology).Correct (CollectiveCalls scalar.Value topology)
        (fun _ => True) (fun _ => False)
        (fun r _ => (SumReady p extraShape T unitName alloc → r = fun _ => result) ∧
          (LayoutReady p extraShape T T unitName alloc →
            (∃ c, ¬ SumsFit scalar (integers (view.on c).storage)) →
            r = fun _ => .error (.error .integerOverflow)) ∧
          (¬ SumReady p extraShape T unitName alloc → ∀ c, ∃ e, r c = .error (.error e)))
        ⟨(), fun c => (globalSum (alloc c) T (view.on c)).run⟩ ∧
      (cartesian scalar.Value topology).Correct (CollectiveCalls scalar.Value topology)
        (fun _ => True) (fun _ => False)
        (fun r _ => (SumReady p extraShape T callbackName alloc → r = fun _ => result) ∧
          (¬ SumReady p extraShape T callbackName alloc → ∀ c, ∃ e, r c = .error (.error e)))
        ⟨(), fun c => (sumBy (alloc c) T T callbackName (view.on c) id).run⟩ := by
  have : Nonempty (Coords topology.processGrid) := ⟨topology.here⟩
  obtain ⟨result, hresult, hunique⟩ := existsUnique_isCheckedSum fun c => (view.on c).storage
  have hsame : ∀ {ready : Prop} {r : Coords topology.processGrid →
      Except (Stop CollectiveError) scalar.Value},
      SumOutcome ready (fun c => (view.on c).storage) r → ready → r = fun _ => result := by
    intro ready r h hready
    obtain ⟨result', hresult', rfl⟩ := h.same hready
    rw [hunique result' hresult']
  refine ⟨result, fun r => ⟨hunique r, fun h => h ▸ hresult⟩, ?_, ?_, ?_⟩
  · rintro ⟨c, hc⟩
    exact hresult.overflow fun h => hc (h.storage c)
  · refine ((globalSum_completes view).mono (fun _ h => h) ?_).correct
    rintro r _ ⟨h, hover⟩
    exact ⟨hsame h, hover, h.refused⟩
  · refine ((sumBy_completes view).mono (fun _ h => h) ?_).correct
    intro r _ h
    exact ⟨hsame h, h.refused⟩

end Operations

end PencilRs.Analysis
