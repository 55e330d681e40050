import PencilRs.Analysis.InPlace
import PencilRs.Analysis.SelfRegion

/-!
# The point-to-point transpose

The exchange delivers what the ranks packed, in every order of delivery.  On the view path
the rank's own region is copied directly and the other regions are unpacked around it; in
place everything is packed.  Both end with the array the Alltoallv transpose produces.
-/

set_option autoImplicit false

namespace PencilRs.Analysis

open PencilRs.Computation PencilRs.Model

variable {N M : ℕ} {α : Type} {topology : MpiTopology M} {mode : CommunicationMode}

/-! ## The exchange -/

section Exchange

variable (plan : DistributedPlan topology N mode)

theorem selfPeer_eq (c : Coords topology.processGrid) :
    (plan.on c).selfPeer = some (peerAt (plan.source.on c) (plan.destination.on c)
      (changedAxis plan) (c (changedAxis plan))) := by
  unfold TransposePlanCore.selfPeer
  rw [plan.source_eq, localCoords_on, changedAxis_on, peers_on]
  simp only
  rw [List.find?_map]
  have hfind : (List.range (peerCount plan)).find? (fun k => decide (k = (c (changedAxis plan) : ℕ)))
      = some (c (changedAxis plan) : ℕ) := by
    rw [List.find?_range_eq_some]
    refine ⟨by simp, by simp, ?_⟩
    intro j hj
    simp only [Bool.not_eq_true', decide_eq_false_iff_not]
    omega
  exact congrArg (Option.map _) hfind

variable {skipSelf : Bool} {packed windows : Coords topology.processGrid → List α} {E : ℕ}

/-- **The messages** arrive on every rank. -/
theorem exchangeMessages_completes {ε : Type}
    {elements : Coords topology.processGrid → List α}
    (hsend : ∀ c, (packed c).length = E * (plan.source.on c).localLen)
    (hsendFit : ∀ c, E * (plan.source.on c).localLen < usizeLimit)
    (hpacked : ∀ c, HasPacked plan E elements (selfSkip plan skipSelf c) c (packed c))
    (hwindows : ∀ c, (windows c).length = E * (plan.destination.on c).localLen)
    (hwindowFit : ∀ c, E * (plan.destination.on c).localLen < usizeLimit) :
    Completes (Delivered plan E (selfSkip plan skipSelf) elements)
      fun c => (exchangeMessages (plan.on c) (selfSkip plan skipSelf c) (packed c) (windows c) E :
        RankProgram α M ε (List α)).run := by
  have hprogram : ∀ c, (exchangeMessages (plan.on c) (selfSkip plan skipSelf c) (packed c)
      (windows c) E : RankProgram α M ε (List α))
        = Fallible.perform (I := transport α M) (.pointToPoint (changedAxis plan))
            (requestsOf plan E skipSelf packed windows c) := by
    intro c
    have hreceives := postReceives_eq plan E (selfSkip plan skipSelf c) c (hwindows c)
      (by rw [hwindows]; exact hwindowFit c)
    have hsends := postSends_eq plan E (selfSkip plan skipSelf c) c (hsend c)
      (by rw [hsend]; exact hsendFit c)
    unfold exchangeMessages
    rw [hreceives, hsends, changedAxis_on]
    rfl
  simp only [hprogram]
  refine .round (.pointToPoint (changedAxis plan)) (requestsOf plan E skipSelf packed windows)
    (fun _ reply => .ret (.ok reply)) (fun _ => rfl) (paired_requests skipSelf hsend hwindows).matchedOnce
    trivial (fun _ h => h.elim) (pointToPoint_round hsend hwindows) ?_
  rintro replies _ ⟨_, _, final, hreach, hquiet, hreplies⟩
  refine .returned (fun c => .ok (replies c)) (fun _ => rfl) trivial ⟨replies, rfl, ?_⟩
  intro c
  rw [hreplies]
  exact quiet_hasReceived hpacked hsend hwindows hreach hquiet c

variable (skipSelf) in
/-- **Packing and exchanging** complete on every rank. -/
theorem packAndExchange_completes {ε : Type} {storage : Coords topology.processGrid → List α}
    {workspace : Coords topology.processGrid → TransposeWorkspace α}
    {prepared : Coords topology.processGrid → PreparedExchange}
    (hready : ∀ c, ExchangeReady plan E c (storage c) (workspace c) (prepared c))
    {pack : Coords topology.processGrid → Buf α → Option (Buf α)}
    (hpack : ∀ c buf, pack c buf = packSourceRegionsSkipping (plan.on c).peers
      (selfSkip plan skipSelf c) (LocalLayout.new (plan.source.on c)) (storage c) buf
      (E * (plan.source.on c).localLen) E) :
    Completes (Delivered plan E (selfSkip plan skipSelf) storage)
      fun c => (packAndExchange (plan.on c) (selfSkip plan skipSelf c) (prepared c) (workspace c)
        (pack c) E : RankProgram α M ε (List α)).run := by
  have hspec := fun c => (hready c).pack (selfSkip plan skipSelf c)
  choose packed hbuf hlen hcells using hspec
  have hprogram : ∀ c, (packAndExchange (plan.on c) (selfSkip plan skipSelf c) (prepared c)
      (workspace c) (pack c) E : RankProgram α M ε (List α))
        = exchangeMessages (plan.on c) (selfSkip plan skipSelf c) (packed c).cells
            ((workspace c).receiveBuffer.take (E * (plan.destination.on c).localLen)) E := by
    intro c
    unfold packAndExchange
    rw [(hready c).sendLen, (hready c).receiveLen, (slice?_take (hready c).send).1,
      (slice?_take (hready c).receive).1]
    simp only [RankProgram.orPanic_some_bind]
    rw [hpack, hbuf, RankProgram.orPanic_some_bind]
  simp only [hprogram]
  exact exchangeMessages_completes plan hlen (fun c => (hready c).sourceFits)
    (fun c k hk hskip e he i hi => hcells c k hk hskip e he i hi)
    (fun c => (slice?_take (hready c).receive).2) fun c => (hready c).destinationFits

/-- The outcome of the exchange: every rank holds what it is to receive, or every rank has an
error. -/
def ExchangeOutcome (E : ℕ) (skipSelf : Bool) (storage : Coords topology.processGrid → List α)
    (preflight : Coords topology.processGrid → Except TransposeError PreparedExchange)
    (reserved : Coords topology.processGrid → Bool)
    (r : Coords topology.processGrid → Except (Stop TransposeError) (PreparedExchange × List α)) :
    Prop :=
  ((∀ c, (∃ prepared, preflight c = .ok prepared) ∧ reserved c = true) ∧
    ∃ received : Coords topology.processGrid → List α,
      (∀ c, ∃ prepared, preflight c = .ok prepared ∧ r c = .ok (prepared, received c)) ∧
      ∀ c, (received c).length = E * (plan.destination.on c).localLen ∧
        HasReceived plan c E storage (selfSkip plan skipSelf c) (received c)) ∨
  (¬ (∀ c, (∃ prepared, preflight c = .ok prepared) ∧ reserved c = true) ∧
    ∃ e : Coords topology.processGrid → TransposeError, r = fun c => .error (.error (e c)))

theorem ExchangeOutcome.agreed {storage : Coords topology.processGrid → List α}
    {preflight : Coords topology.processGrid → Except TransposeError PreparedExchange}
    {reserved : Coords topology.processGrid → Bool}
    {r : Coords topology.processGrid → Except (Stop TransposeError) (PreparedExchange × List α)}
    (h : ExchangeOutcome plan E skipSelf storage preflight reserved r) :
    Semantics.Ensures.Agreed r := by
  obtain ⟨_, received, hok, _⟩ | ⟨_, e, rfl⟩ := h
  · choose prepared _ hr using hok
    exact Or.inl ⟨fun c => (prepared c, received c), funext hr⟩
  · exact Or.inr ⟨fun c => .error (e c), rfl⟩

/-- A rank that agrees has passed and reserved, and one that does not has not. -/
theorem not_passed_of_error {ε β : Type} {preflight : Coords topology.processGrid → Except ε β}
    {reserved : Coords topology.processGrid → Bool}
    (h : (∃ c e, preflight c = .error e) ∨ ∃ c, reserved c = false) :
    ¬ ∀ c, (∃ prepared, preflight c = .ok prepared) ∧ reserved c = true := by
  intro hall
  obtain ⟨c, e, he⟩ | ⟨c, hc⟩ := h
  · obtain ⟨prepared, hok⟩ := (hall c).1
    have := hok.symm.trans he
    contradiction
  · have := (hall c).2.symm.trans hc
    contradiction

variable (skipSelf) in
/-- **The point-to-point exchange** completes, with everything received or errors on all
ranks. -/
theorem executePointToPointExchange_completes
    (preflight : Coords topology.processGrid → Except TransposeError PreparedExchange)
    (reserve : Coords topology.processGrid → RequestReservation)
    (storage : Coords topology.processGrid → List α)
    (workspace : Coords topology.processGrid → TransposeWorkspace α)
    (hready : ∀ c prepared, preflight c = .ok prepared →
      ExchangeReady plan E c (storage c) (workspace c) prepared) :
    Completes (ExchangeOutcome plan E skipSelf storage preflight
        fun c => reserveRequests (reserve c) (preflight c))
      fun c => (executePointToPointExchange (plan.on c) (storage c) (preflight c) (reserve c)
        (workspace c) E skipSelf).run := by
  unfold executePointToPointExchange
  simp only [selfPeer_eq, RankProgram.orPanic_some_bind]
  refine Semantics.Ensures.bind_agreed (agreePreflightAndReservation_completes preflight
    (fun c => reserveRequests (reserve c) (preflight c)) (fun _ => .collectivePreconditionFailed)
    fun _ => .preparationFailed) (fun _ _ h => AgreedWithReservation.agreed h) ?_ ?_
  · intro prepared _ hagreed _
    obtain ⟨x, hx, hreserved, heq⟩ | ⟨_, e, heq, _⟩ := hagreed
    · obtain rfl : prepared = x := funext fun c => Except.ok.inj (congrFun heq c)
      have hall := fun c => hready c _ (hx c)
      refine Semantics.Ensures.bind_agreed (packAndExchange_completes plan skipSelf hall ?_) ?_ ?_ ?_
      · intro c buf
        rw [(hall c).sendLen, plan.source_eq]
        unfold selfSkip
        cases skipSelf <;> rfl
      · rintro _ _ ⟨received, hreceived, _⟩
        exact Or.inl ⟨received, hreceived⟩
      · rintro received _ ⟨received', heq', hreceived⟩ _
        obtain rfl : received = received' := funext fun c => Except.ok.inj (congrFun heq' c)
        refine .returned _ (fun _ => rfl) trivial (Or.inl ⟨?_, received, ?_, hreceived⟩)
        · exact fun c => ⟨⟨_, hx c⟩, hreserved c⟩
        · exact fun c => ⟨_, hx c, rfl⟩
      · rintro e _ ⟨_, heq', _⟩ _
        have := congrFun heq' topology.here
        contradiction
    · have := congrFun heq topology.here
      contradiction
  · intro e _ hagreed _
    obtain ⟨x, _, _, heq⟩ | ⟨hfail, e', heq, _⟩ := hagreed
    · have := congrFun heq topology.here
      contradiction
    · refine Or.inr ⟨not_passed_of_error hfail, e', ?_⟩
      funext c
      rw [Except.error.inj (congrFun heq c)]

end Exchange

/-! ## Between views -/

section Views

variable (plan : DistributedPlan topology N .pointToPoint) {extraShape : ExtraShape}
  (source : DistributedView plan.source extraShape α)
  (destination : DistributedView plan.destination extraShape α)
  (workspace : Coords topology.processGrid → TransposeWorkspace α)
  (alloc : Coords topology.processGrid → Allocator)
  (reserve : Coords topology.processGrid → RequestReservation)

theorem pointToPointViews_completes :
    Completes (ViewsOutcome plan source destination
        (∀ c, (∃ prepared, preflight plan source destination workspace alloc c = .ok prepared) ∧
          reserveRequests (reserve c) (preflight plan source destination workspace alloc c)
            = true))
      fun c => (PointToPointTranspose.executeViewsImpl (alloc c) (reserve c) (plan.on c)
        (source.on c) (destination.on c) (workspace c)).run := by
  unfold PointToPointTranspose.executeViewsImpl
  simp only [source.extraShape_eq]
  refine Semantics.Ensures.bind_agreed (executePointToPointExchange_completes plan true
    (preflight plan source destination workspace alloc) reserve
    (fun c => (source.on c).storage) workspace fun c prepared hok =>
      preflight_ready plan source destination hok) (fun _ _ h => ExchangeOutcome.agreed plan h)
    ?_ ?_
  · intro exchanged _ houtcome _
    obtain ⟨hpassed, received, heq, hreceived⟩ | ⟨_, e, heq⟩ := houtcome
    · have hspec := fun c => copySelf_unpack_spec plan c (source_length plan source c).ge
        (source_fits plan source c) (destination_length plan destination c)
        (destination_fits plan destination c) (hreceived c).1 rfl (hreceived c).2
      choose copied written hcopied hwritten hlen hlog htransposed using hspec
      refine .returned (fun c => .ok (written c)) ?_ trivial (Or.inl ⟨hpassed, ?_⟩)
      · intro c
        obtain ⟨prepared, _, hexchanged⟩ := heq c
        rw [Except.ok.inj hexchanged, plan.source_eq, plan.destination_eq, selfPeer_eq,
          RankProgram.orPanic_some_bind]
        rw [hcopied, RankProgram.orPanic_some_bind]
        exact congrArg (fun x => (RankProgram.orPanic x).run) (hwritten c)
      · exact fun c => ⟨written c, rfl, hlen c, hlog c,
          (htransposed c).holdsTranspose plan c source (destination_fits plan destination c)⟩
    · have := congrFun heq topology.here
      contradiction
  · intro e _ houtcome _
    obtain ⟨_, received, heq, _⟩ | ⟨hnot, e', heq⟩ := houtcome
    · obtain ⟨_, _, hexchanged⟩ := heq topology.here
      contradiction
    · exact Or.inr ⟨hnot, fun c =>
        ⟨e' c, congrArg Except.error (Except.error.inj (congrFun heq c))⟩⟩

end Views

/-! ## In place -/

section InPlace

variable (plan : DistributedPlan topology N mode) {extraShape : ExtraShape}
  (arrays : Coords topology.processGrid → ManyPencilArray α N M)
  (workspace : Coords topology.processGrid → TransposeWorkspace α)
  (alloc : Coords topology.processGrid → Allocator)
  (reserve : Coords topology.processGrid → RequestReservation)

/-- The local results of the in-place preflight. -/
abbrev inPlacePreflight (plan : DistributedPlan topology N mode)
    (arrays : Coords topology.processGrid → ManyPencilArray α N M)
    (workspace : Coords topology.processGrid → TransposeWorkspace α)
    (alloc : Coords topology.processGrid → Allocator) (c : Coords topology.processGrid) :
    Except TransposeError PreparedInPlace :=
  prepareInPlace (alloc c) (plan.on c) (arrays c) (workspace c)

/-- Every rank's preflight passed and its requests are reserved. -/
def InPlacePassed (plan : DistributedPlan topology N mode)
    (arrays : Coords topology.processGrid → ManyPencilArray α N M)
    (workspace : Coords topology.processGrid → TransposeWorkspace α)
    (alloc : Coords topology.processGrid → Allocator)
    (reserve : Coords topology.processGrid → RequestReservation) : Prop :=
  ∀ c, (∃ prepared, inPlacePreflight plan arrays workspace alloc c = .ok prepared) ∧
    reserveRequests (reserve c) ((inPlacePreflight plan arrays workspace alloc c).map
      PreparedInPlace.exchange) = true

/-- What the ranks return: the transposed array everywhere, or an error everywhere. -/
def InPlaceOutcome (E : ℕ) (passed : Prop)
    (results : Coords topology.processGrid →
      Except (Stop TransposeError) (ManyPencilArray α N M)) : Prop :=
  (passed ∧ ∀ c, ∃ after, results c = .ok after ∧
      TransposedInPlace plan c E (fun d => (arrays d).storage) (arrays c) after) ∨
    (¬ passed ∧ ∀ c, ∃ e, results c = .error (.error e))

/-- **The point-to-point transpose in place** completes. -/
theorem pointToPointInPlace_completes (hextra : ∀ c, (arrays c).extraShape = extraShape) :
    Completes (InPlaceOutcome plan arrays extraShape.elementCount
        (InPlacePassed plan arrays workspace alloc reserve))
      fun c => (PointToPointTranspose.executeInPlaceImpl (alloc c) (reserve c) (plan.on c)
        (arrays c) (workspace c)).run := by
  -- A rank whose preflight failed packs nothing: the agreement ends the exchange before.
  let storage : Coords topology.processGrid → List α := fun c =>
    (inPlacePreflight plan arrays workspace alloc c).toOption.elim [] fun _ =>
      (arrays c).storage.take (extraShape.elementCount * (plan.source.on c).localLen)
  have hstorage : ∀ {c prepared}, inPlacePreflight plan arrays workspace alloc c = .ok prepared →
      storage c = (arrays c).storage.take
        (extraShape.elementCount * (plan.source.on c).localLen) := by
    intro c prepared hok
    simp only [storage, hok, Except.toOption, Option.elim]
  have hprogram : ∀ c, PointToPointTranspose.executeInPlaceImpl (alloc c) (reserve c) (plan.on c)
      (arrays c) (workspace c)
        = executePointToPointExchange (plan.on c) (storage c)
            ((inPlacePreflight plan arrays workspace alloc c).map PreparedInPlace.exchange)
            (reserve c) (workspace c) extraShape.elementCount false >>= fun exchanged =>
          RankProgram.orPanic ((inPlacePreflight plan arrays workspace alloc c).toOption.map
            PreparedInPlace.destinationIndex) >>= fun destinationIndex =>
          RankProgram.orPanic (finishInPlace (plan.on c) (arrays c) destinationIndex exchanged.1
            exchanged.2 extraShape.elementCount) := by
    intro c
    unfold PointToPointTranspose.executeInPlaceImpl
    simp only [hextra, storage, inPlacePreflight]
    cases hok : prepareInPlace (alloc c) (plan.on c) (arrays c) (workspace c) with
    | error e => rfl
    | ok prepared =>
      have hactive := (prepareInPlace_ok plan (hextra c) hok).activeStorage plan (hextra c)
      simp only [hactive]
      rfl
  simp only [hprogram]
  have hready : ∀ c exchange, (inPlacePreflight plan arrays workspace alloc c).map
      PreparedInPlace.exchange = .ok exchange →
        ExchangeReady plan extraShape.elementCount c (storage c) (workspace c) exchange := by
    intro c exchange hmap
    cases hok : inPlacePreflight plan arrays workspace alloc c with
    | error e =>
      rw [hok] at hmap
      contradiction
    | ok prepared =>
      rw [hok] at hmap
      cases hmap
      rw [hstorage hok]
      exact (prepareInPlace_ok plan (hextra c) hok).exchangeReady_take plan (hextra c)
  have hpassed : (∀ c, (∃ exchange, (inPlacePreflight plan arrays workspace alloc c).map
      PreparedInPlace.exchange = .ok exchange) ∧
        reserveRequests (reserve c) ((inPlacePreflight plan arrays workspace alloc c).map
          PreparedInPlace.exchange) = true) ↔ InPlacePassed plan arrays workspace alloc reserve := by
    refine forall_congr' fun c => and_congr_left fun _ => ?_
    cases inPlacePreflight plan arrays workspace alloc c <;> simp [Except.map]
  refine Semantics.Ensures.bind_agreed (executePointToPointExchange_completes plan false
    _ reserve storage workspace hready) (fun _ _ h => ExchangeOutcome.agreed plan h) ?_ ?_
  · intro exchanged _ houtcome _
    obtain ⟨hall, received, heq, hreceived⟩ | ⟨_, e, heq⟩ := houtcome
    · have hok := fun c => (hpassed.mp hall c).1
      choose prepared hok using hok
      have helements : storage = fun d => (arrays d).storage.take
          (extraShape.elementCount * (plan.source.on d).localLen) :=
        funext fun d => hstorage (hok d)
      rw [helements] at hreceived
      have hfinish := finishInPlace_delivered plan
        (fun c => prepareInPlace_ok plan (hextra c) (hok c)) hextra hreceived
      choose after hafter htransposed using hfinish
      refine .returned (fun c => .ok (after c)) ?_ trivial
        (Or.inl ⟨hpassed.mp hall, fun c => ⟨_, rfl, htransposed c⟩⟩)
      intro c
      obtain ⟨exchange, hexchange, hexchanged⟩ := heq c
      simp only [hok c] at hexchange ⊢
      cases hexchange
      rw [Except.ok.inj hexchanged]
      exact congrArg (fun x => (RankProgram.orPanic x).run) (hafter c)
    · have := congrFun heq topology.here
      contradiction
  · intro e _ houtcome _
    obtain ⟨_, received, heq, _⟩ | ⟨hnot, e', heq⟩ := houtcome
    · obtain ⟨_, _, hexchanged⟩ := heq topology.here
      contradiction
    · exact Or.inr ⟨fun hall => hnot (hpassed.mpr hall), fun c =>
        ⟨e' c, congrArg Except.error (Except.error.inj (congrFun heq c))⟩⟩

end InPlace

end PencilRs.Analysis
