import PencilRs.Analysis.PointToPoint
import PencilRs.Model.Overlap

/-!
# Callbacks keep the ranks in agreement

Either the ranks agree that some preflight or reservation failed, and no array is touched,
or the exchange and every callback run; then all arrays are committed, or all are poisoned
and every rank reports why.
-/

set_option autoImplicit false

namespace PencilRs.Analysis

open PencilRs.Computation PencilRs.Model

variable {N M : ℕ} {α ε π σ : Type} {topology : MpiTopology M} {mode : CommunicationMode}

/-! ## What a rank reports -/

/-- What rank `i` reports where some callback did not return `Ok`: its own panic; else that a
peer panicked; else its own error; else that a peer failed. -/
structure Reports {ι : Type} (outcomes : ι → CallbackOutcome ε π) (i : ι)
    (stop : CallbackStop ε π) : Prop where
  resumed : ∀ payload, outcomes i = .panic payload → stop = .panic payload
  peerPanicked : (∀ payload, outcomes i ≠ .panic payload) →
    (∃ j payload, outcomes j = .panic payload) → stop = .error .peerPanicked
  own : (∀ j payload, outcomes j ≠ .panic payload) → ∀ error, outcomes i = .err error →
    stop = .error (.callback error)
  peerFailed : (∀ j payload, outcomes j ≠ .panic payload) → outcomes i = .ok →
    stop = .error .peerCallbackFailed

section Status

variable {ι : Type} {outcomes : ι → CallbackOutcome ε π} {status : ℕ}

theorem status_le_two (outcome : CallbackOutcome ε π) : outcome.status ≤ 2 := by
  cases outcome <;> simp [CallbackOutcome.status]

theorem status_eq_zero_iff {outcome : CallbackOutcome ε π} :
    outcome.status = 0 ↔ outcome = .ok := by
  cases outcome <;> simp [CallbackOutcome.status]

theorem status_eq_two_iff {outcome : CallbackOutcome ε π} :
    outcome.status = 2 ↔ ∃ payload, outcome = .panic payload := by
  cases outcome <;> simp [CallbackOutcome.status]

/-- The greatest status is zero exactly where every callback returned `Ok`. -/
theorem greatest_eq_zero_iff
    (h : IsGreatest (Set.range fun i => (outcomes i).status) status) :
    status = 0 ↔ ∀ i, outcomes i = .ok := by
  constructor
  · rintro rfl i
    have hle := h.2 (Set.mem_range_self i)
    exact status_eq_zero_iff.mp (Nat.le_zero.mp hle)
  · intro hall
    obtain ⟨i, hi⟩ := h.1
    rw [← hi]
    exact status_eq_zero_iff.mpr (hall i)

/-- It is two exactly where some callback panicked. -/
theorem greatest_eq_two_iff
    (h : IsGreatest (Set.range fun i => (outcomes i).status) status) :
    status = 2 ↔ ∃ i payload, outcomes i = .panic payload := by
  constructor
  · rintro rfl
    obtain ⟨i, hi⟩ := h.1
    exact ⟨i, status_eq_two_iff.mp hi⟩
  · rintro ⟨i, hi⟩
    have hle := h.2 (Set.mem_range_self i)
    have htwo := status_eq_two_iff.mpr hi
    obtain ⟨j, hj⟩ := h.1
    have := status_le_two (outcomes j)
    simp only at hle hj
    omega

theorem callbackResult_of_ok
    (h : IsGreatest (Set.range fun i => (outcomes i).status) status)
    (hall : ∀ i, outcomes i = .ok) (i : ι) : callbackResult (outcomes i) status = .ok () := by
  rw [hall i, (greatest_eq_zero_iff h).mpr hall]
  rfl

theorem reports_peerPanicked {i : ι} (hown : ∀ payload, outcomes i ≠ .panic payload)
    (hpeer : ∃ j payload, outcomes j = .panic payload) :
    Reports outcomes i (.error .peerPanicked) where
  resumed := fun payload heq => absurd heq (hown payload)
  peerPanicked := fun _ _ => rfl
  own := by
    intro hnone
    obtain ⟨j, payload, hj⟩ := hpeer
    exact absurd hj (hnone j payload)
  peerFailed := by
    intro hnone
    obtain ⟨j, payload, hj⟩ := hpeer
    exact absurd hj (hnone j payload)

/-- Where some callback did not return `Ok`, no rank does, and each reports why. -/
theorem callbackResult_of_not_ok
    (h : IsGreatest (Set.range fun i => (outcomes i).status) status)
    (hnot : ¬ ∀ i, outcomes i = .ok) (i : ι) :
    ∃ stop, callbackResult (outcomes i) status = .error stop ∧ Reports outcomes i stop := by
  have hzero : status ≠ 0 := fun heq => hnot ((greatest_eq_zero_iff h).mp heq)
  have htwo := greatest_eq_two_iff h
  have hle : status ≤ 2 := by
    obtain ⟨j, hj⟩ := h.1
    exact hj ▸ status_le_two (outcomes j)
  cases hi : outcomes i with
  | panic payload =>
    refine ⟨.panic payload, rfl, ?_, ?_, ?_, ?_⟩
    · intro payload' heq
      rw [hi] at heq
      rw [CallbackOutcome.panic.inj heq]
    · exact fun hown _ => absurd hi (hown payload)
    · exact fun hnone _ _ => absurd hi (hnone i payload)
    · exact fun hnone _ => absurd hi (hnone i payload)
  | err error =>
    have hown : ∀ payload, outcomes i ≠ .panic payload := by simp [hi]
    by_cases hpanic : status = 2
    · exact ⟨_, by simp [callbackResult, hpanic], reports_peerPanicked hown (htwo.mp hpanic)⟩
    · have hone : status = 1 := by omega
      refine ⟨.error (.callback error), by simp [callbackResult, hone], ?_, ?_, ?_, ?_⟩
      · exact fun payload heq => absurd heq (hown payload)
      · exact fun _ hsome => absurd (htwo.mpr hsome) hpanic
      · intro _ error' heq
        rw [hi] at heq
        rw [CallbackOutcome.err.inj heq]
      · intro _ heq
        rw [hi] at heq
        contradiction
  | ok =>
    have hown : ∀ payload, outcomes i ≠ .panic payload := by simp [hi]
    by_cases hpanic : status = 2
    · exact ⟨_, by simp [callbackResult, hpanic], reports_peerPanicked hown (htwo.mp hpanic)⟩
    · refine ⟨.error .peerCallbackFailed, by simp [callbackResult, hzero, hpanic], ?_, ?_, ?_, ?_⟩
      · exact fun payload heq => absurd heq (hown payload)
      · exact fun _ hsome => absurd (htwo.mpr hsome) hpanic
      · intro _ error heq
        rw [hi] at heq
        contradiction
      · exact fun _ _ => rfl

end Status

/-! ## The exchange with a callback -/

/-- A part of the program that runs while the state is kept. -/
theorem holding_completes {β : Type} {post : (Coords topology.processGrid →
      Except (Stop (OverlapError ε)) β) → Prop}
    {p : Coords topology.processGrid → RankProgram α M (OverlapError ε) β}
    {state : Coords topology.processGrid → σ} (h : Completes post fun c => (p c).run) :
    Completes (fun r => ∃ r', post r' ∧
        r = fun c => (r' c).mapError fun stop => (OverlapProgram.ofStop stop, state c))
      fun c => (OverlapProgram.holding (state c) (p c) : OverlapProgram α M ε π σ β).run := by
  refine Semantics.Ensures.bind (f := fun c r =>
    .ret (r.mapError fun stop => (OverlapProgram.ofStop stop, state c))) h ?_
  intro r _ hpost _
  exact .returned _ (fun _ => rfl) trivial ⟨r, hpost, rfl⟩

section Exchange

variable (plan : DistributedPlan topology N mode) {E : ℕ} {skipSelf : Bool}
  {storage : Coords topology.processGrid → List α}
  {workspace : Coords topology.processGrid → TransposeWorkspace α}
  {preflight : Coords topology.processGrid → Except (OverlapError ε) PreparedExchange}
  {reserve : Coords topology.processGrid → RequestReservation}

/-- Every rank's preflight passed and its requests are reserved. -/
def OverlapPassed (preflight : Coords topology.processGrid →
      Except (OverlapError ε) PreparedExchange)
    (reserve : Coords topology.processGrid → RequestReservation) : Prop :=
  ∀ c, (∃ prepared, preflight c = .ok prepared) ∧
    reserveRequests (reserve c) (preflight c) = true

/-- The agreement at the start of the exchange. -/
theorem agreeOverlap_completes :
    Completes (α := α) (fun r => (∃ prepared : Coords topology.processGrid → PreparedExchange,
          (∀ c, preflight c = .ok (prepared c)) ∧ OverlapPassed preflight reserve ∧
          r = fun c => .ok (prepared c, selfSkip plan skipSelf c)) ∨
        (¬ OverlapPassed preflight reserve ∧
          ∃ e : Coords topology.processGrid → OverlapError ε,
            r = fun c => .error (.error (e c))))
      fun c => (do
        let selfPeer ← RankProgram.orPanic (plan.on c).selfPeer
        let prepared ← agreePreflightAndReservation (preflight c)
          (reserveRequests (reserve c) (preflight c)) .collectivePreconditionFailed
          .collectivePreconditionFailed
        return (prepared, if skipSelf then some selfPeer.peerCoordinate else none) :
          RankProgram α M (OverlapError ε) (PreparedExchange × Option ℕ)).run := by
  simp only [selfPeer_eq, RankProgram.orPanic_some_bind]
  refine Semantics.Ensures.bind_agreed (agreePreflightAndReservation_completes preflight
    (fun c => reserveRequests (reserve c) (preflight c)) (fun _ => .collectivePreconditionFailed)
    fun _ => .collectivePreconditionFailed) (fun _ _ h => AgreedWithReservation.agreed h) ?_ ?_
  · rintro prepared _ (⟨x, hx, hreserved, heq⟩ | ⟨_, e, heq, _⟩) _
    · obtain rfl : prepared = x := funext fun c => Except.ok.inj (congrFun heq c)
      exact .returned _ (fun _ => rfl) trivial
        (Or.inl ⟨prepared, hx, fun c => ⟨⟨_, hx c⟩, hreserved c⟩, rfl⟩)
    · have := congrFun heq topology.here
      contradiction
  · rintro e _ (⟨x, _, _, heq⟩ | ⟨hfail, e', heq, _⟩) _
    · have := congrFun heq topology.here
      contradiction
    · refine Or.inr ⟨not_passed_of_error hfail, e', ?_⟩
      funext c
      rw [Except.error.inj (congrFun heq c)]

/-- The outcome of the exchange: nothing was begun, or everything was received, the callbacks
ran, and their outcomes were agreed on. -/
def OverlapExchanged (E : ℕ) (skipSelf : Bool) (storage : Coords topology.processGrid → List α)
    (passed : Prop) (before guard : Coords topology.processGrid → σ)
    (callback : Coords topology.processGrid → σ → List α → σ × CallbackOutcome ε π)
    (r : Coords topology.processGrid → Except (CallbackStop ε π × σ) σ) : Prop :=
  (¬ passed ∧ ∃ e : Coords topology.processGrid → OverlapError ε,
      r = fun c => .error (.error (e c), before c)) ∨
    (passed ∧ ∃ received : Coords topology.processGrid → List α,
      (∀ c, (received c).length = E * (plan.destination.on c).localLen ∧
        HasReceived plan c E storage (selfSkip plan skipSelf c) (received c)) ∧
      (((∀ c, (callback c (guard c) (received c)).2 = .ok) ∧
          r = fun c => .ok (callback c (guard c) (received c)).1) ∨
        ((¬ ∀ c, (callback c (guard c) (received c)).2 = .ok) ∧
          ∃ stop : Coords topology.processGrid → CallbackStop ε π,
            (∀ c, Reports (fun d => (callback d (guard d) (received d)).2) c (stop c)) ∧
            r = fun c => .error (stop c, (callback c (guard c) (received c)).1))))

/-- **The exchange with a callback** completes, and all ranks end the same way. -/
theorem executePointToPointExchangeCallback_completes
    {before guard : Coords topology.processGrid → σ}
    {begin : Coords topology.processGrid → Option σ}
    {pack : Coords topology.processGrid → σ → PreparedExchange → Buf α → Option (Buf α)}
    {callback : Coords topology.processGrid → σ → List α → σ × CallbackOutcome ε π}
    (hready : ∀ c prepared, preflight c = .ok prepared →
      ExchangeReady plan E c (storage c) (workspace c) prepared)
    (hbegin : ∀ c prepared, preflight c = .ok prepared → begin c = some (guard c))
    (hpack : ∀ c prepared buf, preflight c = .ok prepared → pack c (guard c) prepared buf
      = packSourceRegionsSkipping (plan.on c).peers (selfSkip plan skipSelf c)
          (LocalLayout.new (plan.source.on c)) (storage c) buf
          (E * (plan.source.on c).localLen) E) :
    Completes (OverlapExchanged plan E skipSelf storage (OverlapPassed preflight reserve) before
        guard callback)
      fun c => (executePointToPointExchangeCallback (plan.on c) (preflight c) (reserve c)
        (workspace c) E skipSelf (before c) (begin c) (pack c) (callback c)).run := by
  unfold executePointToPointExchangeCallback
  refine Semantics.Ensures.bind_agreed (holding_completes (agreeOverlap_completes plan)) ?_ ?_ ?_
  · rintro _ _ ⟨r, ⟨prepared, _, _, rfl⟩ | ⟨_, e, rfl⟩, rfl⟩
    · exact Or.inl ⟨fun c => (prepared c, selfSkip plan skipSelf c), rfl⟩
    · exact Or.inr ⟨fun c => (.error (e c), before c), rfl⟩
  · rintro agreed _ ⟨r, ⟨prepared, hprepared, hpassed, rfl⟩ | ⟨_, e, rfl⟩, heq⟩ _
    · obtain rfl : agreed = fun c => (prepared c, selfSkip plan skipSelf c) :=
        funext fun c => Except.ok.inj (congrFun heq c)
      simp only [fun c => hbegin c _ (hprepared c), OverlapProgram.holding_orPanic_some_bind]
      refine Semantics.Ensures.bind_agreed (holding_completes (packAndExchange_completes plan
        skipSelf (fun c => hready c _ (hprepared c)) fun c buf => hpack c _ buf (hprepared c)))
        ?_ ?_ ?_
      · rintro _ _ ⟨r, ⟨received, rfl, _⟩, rfl⟩
        exact Or.inl ⟨received, rfl⟩
      · rintro received _ ⟨r, ⟨received', rfl, hreceived⟩, heq⟩ _
        obtain rfl : received = received' := funext fun c => Except.ok.inj (congrFun heq c)
        refine .perform_bind trivial trivial (fun _ h => h.elim) (allReduceMax_live _) ?_
        intro replies _ hround
        by_cases hall : ∀ c, (callback c (guard c) (received c)).2 = .ok
        · refine .returned (fun c => .ok (callback c (guard c) (received c)).1) ?_ trivial
            (Or.inr ⟨hpassed, received, hreceived, Or.inl ⟨hall, rfl⟩⟩)
          intro c
          rw [callbackResult_of_ok (hround c 0) hall]
          rfl
        · have hstop := fun c => callbackResult_of_not_ok (hround c 0) hall c
          choose stop hstop hreports using hstop
          refine .returned (fun c => .error (stop c, (callback c (guard c) (received c)).1)) ?_
            trivial (Or.inr ⟨hpassed, received, hreceived, Or.inr ⟨hall, stop, hreports, rfl⟩⟩)
          intro c
          rw [hstop c]
          rfl
      · rintro e _ ⟨r, ⟨received, rfl, _⟩, heq⟩ _
        have := congrFun heq topology.here
        contradiction
    · have := congrFun heq topology.here
      contradiction
  · rintro e _ ⟨r, ⟨prepared, _, _, rfl⟩ | ⟨hnot, e', rfl⟩, heq⟩ _
    · have := congrFun heq topology.here
      contradiction
    · refine Or.inl ⟨hnot, e', ?_⟩
      funext c
      exact congrArg Except.error (Except.error.inj (congrFun heq c))

end Exchange

/-! ## In place -/

section InPlace

variable (plan : DistributedPlan topology N mode) {extraShape : ExtraShape}

/-- What unpacking and the callback leave behind. -/
theorem unpackAndCall_spec {c : Coords topology.processGrid} {array guard : ManyPencilArray α N M}
    {workspace : TransposeWorkspace α} {prepared : PreparedInPlace}
    {elements : Coords topology.processGrid → List α} {received : List α}
    (callback : Callback α ε π) (hready : InPlaceReady plan c extraShape array workspace prepared)
    (hextra : array.extraShape = extraShape)
    (hguard : Rewrites array guard array.storage .poisoned)
    (hlen : received.length = extraShape.elementCount * (plan.destination.on c).localLen)
    (hreceived : HasReceived plan c extraShape.elementCount elements none received) :
    ∃ delivered after, PointToPointTranspose.unpackAndCall (plan.on c) extraShape.elementCount
        callback guard received = (after, (callback.run delivered).2) ∧
      IsTransposed plan c extraShape.elementCount elements delivered ∧
      delivered.length = extraShape.elementCount * (plan.destination.on c).localLen ∧
      Rewrites array after ((callback.run delivered).1 ++ array.storage.drop delivered.length)
        .poisoned := by
  obtain ⟨_, hle, hlt⟩ := hready.fits plan hextra
  obtain ⟨buf, hbuf, hbufLen, _, htransposed, hkept⟩ := unpack_isTransposed plan c
    extraShape.elementCount (Buf.fresh guard.storage) hlen hlen.ge (hle.trans_lt hlt)
    (by rw [hguard.storage, hlen]; exact hle) hreceived
  have hcells : buf.cells.length = array.storage.length := by
    rw [hbufLen, hguard.storage]
    rfl
  have htake : (buf.cells.take received.length).length = received.length := by
    rw [List.length_take]
    omega
  have hdrop : buf.cells.drop received.length = array.storage.drop received.length := by
    apply List.ext_getElem?
    intro j
    rw [List.getElem?_drop, List.getElem?_drop, hkept _ (by omega), hguard.storage]
    rfl
  obtain ⟨after, hafter, hwritten⟩ := writeStorage_eq
    (show ((callback.run (buf.cells.take received.length)).1
        ++ buf.cells.drop received.length).length = guard.storage.length by
      rw [List.length_append, callback.length_run, htake, List.length_drop, hguard.storage]
      omega)
  refine ⟨buf.cells.take received.length, after, ?_, ?_, htake.trans hlen, ?_⟩
  · unfold PointToPointTranspose.unpackAndCall
    have hfits : ¬ received.length > guard.storage.length := by
      rw [hguard.storage]
      omega
    simp only [plan.destination_eq, if_neg hfits, hbuf, hafter]
  · rw [hlen]
    exact htransposed.take plan c _
  · rw [htake, ← hdrop]
    exact ⟨hwritten.pencils.trans hguard.pencils, hwritten.extraShape.trans hguard.extraShape,
      hwritten.storage, hwritten.state.trans hguard.state⟩

/-- The outcome of the transpose with callbacks. -/
def OverlapOutcome (extraShape : ExtraShape)
    (arrays : Coords topology.processGrid → ManyPencilArray α N M)
    (callbacks : Coords topology.processGrid → Callback α ε π) (passed : Prop)
    (r : Coords topology.processGrid →
      Except (CallbackStop ε π × ManyPencilArray α N M) (ManyPencilArray α N M)) : Prop :=
  (¬ passed ∧ ∃ e : Coords topology.processGrid → OverlapError ε,
      r = fun c => .error (.error (e c), arrays c)) ∨
    (passed ∧ ∃ delivered : Coords topology.processGrid → List α,
      (∀ c, IsTransposed plan c extraShape.elementCount (fun d => (arrays d).storage)
        (delivered c)) ∧
      (((∀ c, ((callbacks c).run (delivered c)).2 = .ok) ∧
          ∀ c, ∃ after index, r c = .ok after ∧
            (arrays c).findLayout (plan.destination.on c) = some index ∧
            Rewrites (arrays c) after (((callbacks c).run (delivered c)).1
              ++ (arrays c).storage.drop (delivered c).length) (.valid index)) ∨
        ((¬ ∀ c, ((callbacks c).run (delivered c)).2 = .ok) ∧
          ∀ c, ∃ stop after, r c = .error (stop, after) ∧
            Reports (fun d => ((callbacks d).run (delivered d)).2) c stop ∧
            Rewrites (arrays c) after (((callbacks c).run (delivered c)).1
              ++ (arrays c).storage.drop (delivered c).length) .poisoned)))

/-- What the ranks return after their callbacks ran on `delivered`. -/
def CallbacksEnded (arrays : Coords topology.processGrid → ManyPencilArray α N M)
    (callbacks : Coords topology.processGrid → Callback α ε π)
    (delivered : Coords topology.processGrid → List α)
    (r : Coords topology.processGrid →
      Except (CallbackStop ε π × ManyPencilArray α N M) (ManyPencilArray α N M)) : Prop :=
  ((∀ c, ((callbacks c).run (delivered c)).2 = .ok) ∧
      ∀ c, ∃ after index, r c = .ok after ∧
        (arrays c).findLayout (plan.destination.on c) = some index ∧
        Rewrites (arrays c) after (((callbacks c).run (delivered c)).1
          ++ (arrays c).storage.drop (delivered c).length) (.valid index)) ∨
    ((¬ ∀ c, ((callbacks c).run (delivered c)).2 = .ok) ∧
      ∀ c, ∃ stop after, r c = .error (stop, after) ∧
        Reports (fun d => ((callbacks d).run (delivered d)).2) c stop ∧
        Rewrites (arrays c) after (((callbacks c).run (delivered c)).1
          ++ (arrays c).storage.drop (delivered c).length) .poisoned)

/-- The outcome of the transpose with callbacks, and the length of what it delivered. -/
def OverlapDelivered (extraShape : ExtraShape)
    (arrays : Coords topology.processGrid → ManyPencilArray α N M)
    (callbacks : Coords topology.processGrid → Callback α ε π) (passed : Prop)
    (r : Coords topology.processGrid →
      Except (CallbackStop ε π × ManyPencilArray α N M) (ManyPencilArray α N M)) : Prop :=
  (¬ passed ∧ ∃ e : Coords topology.processGrid → OverlapError ε,
      r = fun c => .error (.error (e c), arrays c)) ∨
    (passed ∧ ∃ delivered : Coords topology.processGrid → List α,
      (∀ c, IsTransposed plan c extraShape.elementCount (fun d => (arrays d).storage)
        (delivered c)) ∧
      (∀ c, (delivered c).length = extraShape.elementCount * (plan.destination.on c).localLen) ∧
      CallbacksEnded plan arrays callbacks delivered r)

theorem OverlapDelivered.outcome {extraShape : ExtraShape}
    {arrays : Coords topology.processGrid → ManyPencilArray α N M}
    {callbacks : Coords topology.processGrid → Callback α ε π} {passed : Prop}
    {r : Coords topology.processGrid →
      Except (CallbackStop ε π × ManyPencilArray α N M) (ManyPencilArray α N M)}
    (h : OverlapDelivered plan extraShape arrays callbacks passed r) :
    OverlapOutcome plan extraShape arrays callbacks passed r := by
  obtain hfailed | ⟨hpassed, delivered, htransposed, _, hended⟩ := h
  · exact Or.inl hfailed
  · exact Or.inr ⟨hpassed, delivered, htransposed, hended⟩

variable (arrays : Coords topology.processGrid → ManyPencilArray α N M)
  (workspace : Coords topology.processGrid → TransposeWorkspace α)
  (alloc : Coords topology.processGrid → Allocator)
  (reserve : Coords topology.processGrid → RequestReservation)
  (callbacks : Coords topology.processGrid → Callback α ε π)

/-- The local results of the preflight, with the error the callback API reports. -/
abbrev overlapPreflight (c : Coords topology.processGrid) :
    Except (OverlapError ε) PreparedExchange :=
  ((inPlacePreflight plan arrays workspace alloc c).map PreparedInPlace.exchange).mapError
    .transpose

theorem overlapPassed_iff :
    OverlapPassed (overlapPreflight (ε := ε) plan arrays workspace alloc) reserve
      ↔ InPlacePassed plan arrays workspace alloc reserve := by
  refine forall_congr' fun c => ?_
  unfold overlapPreflight
  cases inPlacePreflight plan arrays workspace alloc c <;>
    simp [Except.map, Except.mapError, reserveRequests]

theorem overlapPreflight_ok {c : Coords topology.processGrid} {exchange : PreparedExchange}
    (h : overlapPreflight (ε := ε) plan arrays workspace alloc c = .ok exchange) :
    ∃ prepared, inPlacePreflight plan arrays workspace alloc c = .ok prepared ∧
      exchange = prepared.exchange := by
  unfold overlapPreflight at h
  cases hok : inPlacePreflight plan arrays workspace alloc c with
  | error e =>
    rw [hok] at h
    contradiction
  | ok prepared =>
    rw [hok] at h
    exact ⟨prepared, rfl, (Except.ok.inj h).symm⟩

/-- **The in-place transpose with callbacks** completes, and the ranks agree. -/
theorem inPlaceWithCallback_delivers (hextra : ∀ c, (arrays c).extraShape = extraShape) :
    Completes (OverlapDelivered plan extraShape arrays callbacks
        (InPlacePassed plan arrays workspace alloc reserve))
      fun c => (PointToPointTranspose.executeInPlaceWithCallback (alloc c) (reserve c) (plan.on c)
        (arrays c) (workspace c) (callbacks c)).run := by
  let guard : Coords topology.processGrid → ManyPencilArray α N M := fun c =>
    (arrays c).beginInPlaceWrite.toOption.getD (arrays c)
  have hguard : ∀ {c prepared}, inPlacePreflight plan arrays workspace alloc c = .ok prepared →
      (arrays c).beginInPlaceWrite.toOption = some (guard c) ∧
        Rewrites (arrays c) (guard c) (arrays c).storage .poisoned := by
    intro c prepared hok
    obtain ⟨index, hstate, _⟩ := (prepareInPlace_ok plan (hextra c) hok).active
    obtain ⟨begun, hbegun, hrewrites⟩ := beginInPlaceWrite_eq hstate
    simp only [guard, hbegun, Except.toOption, Option.getD_some, true_and]
    exact hrewrites
  have hready : ∀ c exchange, overlapPreflight (ε := ε) plan arrays workspace alloc c
      = .ok exchange → ExchangeReady plan extraShape.elementCount c (arrays c).storage
        (workspace c) exchange := by
    intro c exchange hok
    obtain ⟨prepared, hprepared, rfl⟩ := overlapPreflight_ok plan arrays workspace alloc hok
    exact (prepareInPlace_ok plan (hextra c) hprepared).exchangeReady plan (hextra c)
  have hbegin : ∀ c exchange, overlapPreflight (ε := ε) plan arrays workspace alloc c
      = .ok exchange → (arrays c).beginInPlaceWrite.toOption = some (guard c) := by
    intro c exchange hok
    obtain ⟨prepared, hok, _⟩ := overlapPreflight_ok plan arrays workspace alloc hok
    exact (hguard hok).1
  have hpack : ∀ c exchange buf, overlapPreflight (ε := ε) plan arrays workspace alloc c
      = .ok exchange → packSource (plan.on c).peers (plan.on c).source (guard c).storage buf
          exchange.requirements.sendLen extraShape.elementCount
        = packSourceRegionsSkipping (plan.on c).peers (selfSkip plan false c)
            (LocalLayout.new (plan.source.on c)) (arrays c).storage buf
            (extraShape.elementCount * (plan.source.on c).localLen)
            extraShape.elementCount := by
    intro c exchange buf hok
    obtain ⟨prepared, hprepared, _⟩ := overlapPreflight_ok plan arrays workspace alloc hok
    rw [(hguard hprepared).2.storage, (hready c exchange hok).sendLen, plan.source_eq]
    rfl
  unfold PointToPointTranspose.executeInPlaceWithCallback
  simp only [hextra]
  refine Semantics.Ensures.bind_agreed (executePointToPointExchangeCallback_completes plan
    hready hbegin hpack) ?_ ?_ ?_
  · rintro _ _ (⟨_, e, rfl⟩ | ⟨_, received, _, ⟨_, rfl⟩ | ⟨_, stop, _, rfl⟩⟩)
    · exact Or.inr ⟨fun c => (.error (e c), arrays c), rfl⟩
    · exact Or.inl ⟨_, rfl⟩
    · exact Or.inr ⟨_, rfl⟩
  · rintro state _ houtcome _
    obtain ⟨_, e, heq⟩ | ⟨hpassed, received, hreceived, hend⟩ := houtcome
    · have := congrFun heq topology.here
      contradiction
    have hpassed := (overlapPassed_iff plan arrays workspace alloc reserve).mp hpassed
    choose prepared hok using fun c => (hpassed c).1
    have hcall := fun c => unpackAndCall_spec plan (callbacks c)
      (prepareInPlace_ok plan (hextra c) (hok c)) (hextra c) (hguard (hok c)).2
      (hreceived c).1 (hreceived c).2
    choose delivered after hcall htransposed hlength hrewrites using hcall
    simp only [hcall] at hend
    obtain ⟨hall, heq⟩ | ⟨_, stop, _, heq⟩ := hend
    · have hlayout : ∀ c, (prepared c).destinationIndex < (after c).pencils.length := fun c => by
        rw [(hrewrites c).pencils]
        exact (prepareInPlace_ok plan (hextra c) (hok c)).destinationIndex_lt
      choose committed hcommit hcommitted using fun c => commit_eq (hlayout c)
      refine .returned (fun c => .ok (committed c)) ?_ trivial (Or.inr ⟨hpassed, delivered,
        htransposed, hlength, Or.inl ⟨?_, ?_⟩⟩)
      · intro c
        have hstate : state c = after c := Except.ok.inj (congrFun heq c)
        have hindex : (prepareInPlace (alloc c) (plan.on c) (arrays c) (workspace c)).toOption.map
            PreparedInPlace.destinationIndex = some (prepared c).destinationIndex := by
          rw [show prepareInPlace (alloc c) (plan.on c) (arrays c) (workspace c)
            = .ok (prepared c) from hok c]
          rfl
        rw [hindex, hstate, OverlapProgram.holding_orPanic_some_bind, hcommit]
        rfl
      · exact hall
      · intro c
        exact ⟨_, _, rfl, (prepareInPlace_ok plan (hextra c) (hok c)).destination,
          (hcommitted c).pencils.trans (hrewrites c).pencils,
          (hcommitted c).extraShape.trans (hrewrites c).extraShape,
          (hcommitted c).storage.trans (hrewrites c).storage, (hcommitted c).state⟩
    · have := congrFun heq topology.here
      contradiction
  · rintro e _ houtcome _
    obtain ⟨hnot, e', heq⟩ | ⟨hpassed, received, hreceived, hend⟩ := houtcome
    · refine Or.inl ⟨fun hpassed => hnot
        ((overlapPassed_iff plan arrays workspace alloc reserve).mpr hpassed), e', heq⟩
    have hpassed := (overlapPassed_iff plan arrays workspace alloc reserve).mp hpassed
    choose prepared hok using fun c => (hpassed c).1
    have hcall := fun c => unpackAndCall_spec plan (callbacks c)
      (prepareInPlace_ok plan (hextra c) (hok c)) (hextra c) (hguard (hok c)).2
      (hreceived c).1 (hreceived c).2
    choose delivered after hcall htransposed hlength hrewrites using hcall
    simp only [hcall] at hend
    obtain ⟨_, heq⟩ | ⟨hnot, stop, hreports, heq⟩ := hend
    · have := congrFun heq topology.here
      contradiction
    · exact Or.inr ⟨hpassed, delivered, htransposed, hlength, Or.inr ⟨hnot, fun c =>
        ⟨stop c, after c, congrFun heq c, hreports c, hrewrites c⟩⟩⟩

theorem inPlaceWithCallback_completes (hextra : ∀ c, (arrays c).extraShape = extraShape) :
    Completes (OverlapOutcome plan extraShape arrays callbacks
        (InPlacePassed plan arrays workspace alloc reserve))
      fun c => (PointToPointTranspose.executeInPlaceWithCallback (alloc c) (reserve c) (plan.on c)
        (arrays c) (workspace c) (callbacks c)).run :=
  (inPlaceWithCallback_delivers plan arrays workspace alloc reserve callbacks hextra).mono
    (fun _ h => h) fun _ _ h => h.outcome plan

/-- **Callbacks keep the ranks in agreement**: every run of the in-place transpose with
callbacks keeps its calls matched and ends.  Either some rank's preflight or reservation failed,
every rank reports an error and no array changed; or every array holds what its callback left of
the transposed elements, and all are committed to the destination and every rank returns `Ok`
where every callback did, or all are poisoned and every rank reports why. -/
theorem in_place_callbacks_keep_agreement (plan : DistributedPlan topology N .pointToPoint)
    (extraShape : ExtraShape) (arrays : Coords topology.processGrid → ManyPencilArray α N M)
    (workspace : Coords topology.processGrid → TransposeWorkspace α)
    (alloc : Coords topology.processGrid → Allocator)
    (reserve : Coords topology.processGrid → RequestReservation)
    (callbacks : Coords topology.processGrid → Callback α ε π)
    (hextra : ∀ c, (arrays c).extraShape = extraShape) :
    (communicators α topology.processGrid).Correct RequestsMatch (fun _ => True) (fun _ => False)
      (fun results _ => OverlapOutcome plan extraShape arrays callbacks
        (InPlacePassed plan arrays workspace alloc reserve) results)
      ⟨(), fun c => (PointToPointTranspose.executeInPlaceWithCallback (alloc c) (reserve c)
        (plan.on c) (arrays c) (workspace c) (callbacks c)).run⟩ :=
  (inPlaceWithCallback_completes plan arrays workspace alloc reserve callbacks hextra).correct

end InPlace

/-! ## Two ranks -/

/-- A callback that leaves its slice as it is; rank one's fails. -/
def failsOnRankOne (c : Coords twoRanks.processGrid) : Callback ℕ String Empty where
  run := fun cells => (cells, if (c 0).val = 0 then .ok else .err "write failed")
  length_run := fun _ => rfl

theorem failsOnRankOne_outcome (c : Coords twoRanks.processGrid) (cells : List ℕ) :
    ((failsOnRankOne c).run cells).2 = if (c 0).val = 0 then .ok else .err "write failed" := rfl

theorem failsOnRankOne_ne_panic (c : Coords twoRanks.processGrid) (cells : List ℕ)
    (payload : Option Empty) : ((failsOnRankOne c).run cells).2 ≠ .panic payload := by
  rw [failsOnRankOne_outcome]
  split <;> simp

/-- Rows to columns on two ranks, where one callback fails: both arrays are poisoned. -/
theorem in_place_callbacks_poison_both :
    ∃ final results, (communicators ℕ twoRanks.processGrid).Reaches
      ⟨(), fun c => (PointToPointTranspose.executeInPlaceWithCallback (fun _ => true)
        (fun _ => true) ((rowsToColumns .pointToPoint).on c) (rowsAndColumns c)
        (zeroWorkspace 6) (failsOnRankOne c)).run⟩ final ∧
      final.Returned results ∧ ∀ c, ∃ after, results c = .error
        (if (c 0).val = 0 then .error .peerCallbackFailed else .error (.callback "write failed"),
          after) ∧ after.state = .poisoned := by
  obtain ⟨final, results, hreach, hreturned, hpost⟩ := (in_place_callbacks_keep_agreement
    (rowsToColumns .pointToPoint) ExtraShape.scalar rowsAndColumns (fun _ => zeroWorkspace 6)
    (fun _ _ => true) (fun _ _ => true) failsOnRankOne fun _ => rfl).exists_returned
  refine ⟨final, results, hreach, hreturned, ?_⟩
  have hpassed : InPlacePassed (rowsToColumns .pointToPoint) rowsAndColumns
      (fun _ => zeroWorkspace 6) (fun _ _ => true) fun _ _ => true := by
    intro c
    obtain ⟨prepared, hok⟩ := rowsAndColumns_prepared c
    unfold inPlacePreflight
    rw [hok]
    exact ⟨⟨_, rfl⟩, rfl⟩
  rcases hpost with ⟨hnot, _⟩ | ⟨_, delivered, _, ⟨hall, _⟩ | ⟨_, hstopped⟩⟩
  · exact absurd hpassed hnot
  · have hone : ∃ c : Coords twoRanks.processGrid, (c 0).val ≠ 0 := by decide
    obtain ⟨c, hc⟩ := hone
    have hok := hall c
    rw [failsOnRankOne_outcome, if_neg hc] at hok
    contradiction
  · intro c
    obtain ⟨stop, after, hresult, hreports, hrewrites⟩ := hstopped c
    refine ⟨after, ?_, hrewrites.state⟩
    rw [hresult]
    have hnone := fun j => failsOnRankOne_ne_panic j (delivered j)
    by_cases hzero : (c 0).val = 0
    · rw [hreports.peerFailed hnone (by rw [failsOnRankOne_outcome, if_pos hzero]), if_pos hzero]
    · rw [hreports.own hnone "write failed" (by rw [failsOnRankOne_outcome, if_neg hzero]),
        if_neg hzero]

end PencilRs.Analysis
