import PencilRs.Analysis.PointToPoint

/-!
# The point-to-point transpose refines the Alltoallv transpose

The destination of a transpose is determined by the source.  So every path that transposes
gives the destination the Alltoallv transpose gives, whatever the order of the messages; and
in place, nothing changes behind the destination.
-/

set_option autoImplicit false

namespace PencilRs.Analysis

open PencilRs.Computation PencilRs.Model

variable {N M : ℕ} {α : Type} {topology : MpiTopology M}

section AlltoallvInPlace

variable (plan : DistributedPlan topology N .allToAllv) {extraShape : ExtraShape}
  (arrays : Coords topology.processGrid → ManyPencilArray α N M)
  (workspace : Coords topology.processGrid → TransposeWorkspace α)
  (alloc : Coords topology.processGrid → Allocator)

/-- **The Alltoallv transpose in place** completes. -/
theorem alltoallvInPlace_completes (hextra : ∀ c, (arrays c).extraShape = extraShape) :
    Completes (InPlaceOutcome plan arrays extraShape.elementCount
        (∀ c, ∃ prepared, inPlacePreflight plan arrays workspace alloc c = .ok prepared))
      fun c => (AlltoallvTranspose.executeInPlaceImpl (alloc c) (plan.on c) (arrays c)
        (workspace c)).run := by
  unfold AlltoallvTranspose.executeInPlaceImpl
  simp only [hextra]
  refine Semantics.Ensures.bind_agreed (agreePreflight_completes
    (inPlacePreflight plan arrays workspace alloc) _) (fun _ _ h => AgreedOn.agreed h) ?_ ?_
  · intro prepared _ hmid _
    have hok := AgreedOn.ok hmid
    have hready := fun c => prepareInPlace_ok plan (hextra c) (hok c)
    have hactive := fun c => (hready c).activeStorage plan (hextra c)
    simp only [hactive, Except.toOption, RankProgram.orPanic_some_bind]
    refine Semantics.Ensures.bind_agreed (transfer_completes plan
      fun c => (hready c).exchangeReady_take plan (hextra c)) ?_ ?_ ?_
    · rintro _ _ ⟨received, hreceived, _⟩
      exact Or.inl ⟨received, hreceived⟩
    · rintro received _ ⟨received', heq, hreceived⟩ _
      obtain rfl : received = received' := funext fun c => Except.ok.inj (congrFun heq c)
      have hfinish := finishInPlace_delivered plan hready hextra hreceived
      choose after hafter htransposed using hfinish
      refine .returned (fun c => .ok (after c)) ?_ trivial
        (Or.inl ⟨fun c => ⟨_, hok c⟩, fun c => ⟨_, rfl, htransposed c⟩⟩)
      intro c
      exact congrArg (fun x => (RankProgram.orPanic x).run) (hafter c)
    · rintro e _ ⟨_, heq, _⟩ _
      have := congrFun heq topology.here
      contradiction
  · intro e _ hmid _
    obtain ⟨⟨c, err, herror⟩, errs, rfl, _⟩ := AgreedOn.error hmid
    refine Or.inr ⟨fun hall => ?_, fun c => ⟨errs c, rfl⟩⟩
    obtain ⟨prepared, hok⟩ := hall c
    have := hok.symm.trans herror
    contradiction

end AlltoallvInPlace

/-! ## One destination -/

section Refinement

variable {mode : CommunicationMode} {plan : DistributedPlan topology N mode}
  {reference : DistributedPlan topology N .allToAllv} {extraShape : ExtraShape}

/-- What every run of the Alltoallv transpose of `data` leaves in the destination of the
rank is `cells`. -/
def AlltoallvGives (reference : DistributedPlan topology N .allToAllv) (extraShape : ExtraShape)
    (data : Coords topology.processGrid → List α) (c : Coords topology.processGrid)
    (cells : List α) : Prop :=
  ∀ (source : DistributedView reference.source extraShape α)
    (destination : DistributedView reference.destination extraShape α)
    (workspace : Coords topology.processGrid → TransposeWorkspace α)
    (alloc : Coords topology.processGrid → Allocator) final results written,
    (∀ d, (source.on d).storage = data d) →
    (communicators α topology.processGrid).Reaches
      ⟨(), fun c => (AlltoallvTranspose.executeViewsImpl (alloc c) (reference.on c) (source.on c)
        (destination.on c) (workspace c)).run⟩ final →
    final.Returned results → results c = .ok written → cells = written.cells

/-- A transposed block is the one of the Alltoallv transpose. -/
theorem IsTransposed.alltoallvGives (hsource : reference.source = plan.source)
    (hdestination : reference.destination = plan.destination)
    {data : Coords topology.processGrid → List α} {c : Coords topology.processGrid}
    {cells : List α} (h : IsTransposed plan c extraShape.elementCount data cells)
    (hlen : cells.length = extraShape.elementCount * (plan.destination.on c).localLen) :
    AlltoallvGives reference extraShape data c cells := by
  intro source destination workspace alloc final results written hdata hreach hreturned hwritten
  have hcorrect := (alltoallv_completes reference source destination workspace alloc).correct
  obtain ⟨_, hall⟩ | ⟨_, herrors⟩ := hcorrect.returned final results hreach hreturned
  · obtain ⟨written', hresult, hwrittenLen, _, hholds⟩ := hall c
    obtain rfl : written = written' := Except.ok.inj (hwritten.symm.trans hresult)
    have htransposed := hholds.isTransposed reference c source
      (destination_fits reference destination c)
    rw [destination_length, hdestination] at hwrittenLen
    simp only [hdata] at htransposed
    have htransposed' : IsTransposed plan c extraShape.elementCount data written.cells := by
      unfold IsTransposed at htransposed ⊢
      rwa [hsource, hdestination] at htransposed
    apply List.ext_getElem?
    intro j
    by_cases hj : j < extraShape.elementCount * (plan.destination.on c).localLen
    · exact h.unique plan c _ htransposed' hj
    · rw [List.getElem?_eq_none (by omega), List.getElem?_eq_none (by omega)]
  · obtain ⟨e, he⟩ := herrors c
    have := hwritten.symm.trans he
    contradiction

/-- The prefix of an array transposed in place is what the Alltoallv transpose gives. -/
theorem TransposedInPlace.alltoallvGives (hsource : reference.source = plan.source)
    (hdestination : reference.destination = plan.destination)
    {arrays : Coords topology.processGrid → ManyPencilArray α N M}
    {workspace : Coords topology.processGrid → TransposeWorkspace α}
    {prepared : Coords topology.processGrid → PreparedInPlace}
    (hready : ∀ d, InPlaceReady plan d extraShape (arrays d) (workspace d) (prepared d))
    (hextra : ∀ d, (arrays d).extraShape = extraShape)
    {data : Coords topology.processGrid → List α}
    (hdata : ∀ d, (arrays d).activeStorage = .ok (data d)) {c : Coords topology.processGrid}
    {after : ManyPencilArray α N M}
    (h : TransposedInPlace plan c extraShape.elementCount (fun d => (arrays d).storage)
      (arrays c) after) :
    AlltoallvGives reference extraShape data c
      (after.storage.take (extraShape.elementCount * (plan.destination.on c).localLen)) := by
  obtain ⟨_, hle, _⟩ := (hready c).fits plan (hextra c)
  refine IsTransposed.alltoallvGives hsource hdestination (IsTransposed.congr plan c _
    (h.transposed.take plan c _) ?_) ?_
  · intro d j hj
    have hactive := (hready d).activeStorage plan (hextra d)
    rw [hdata] at hactive
    rw [Except.ok.inj hactive, List.getElem?_take_of_lt hj]
  · rw [List.length_take, h.length]
    omega

/-- What the ranks return between views: the destination of the Alltoallv transpose
everywhere, or an error everywhere. -/
def RefinesViews (plan : DistributedPlan topology N mode)
    (reference : DistributedPlan topology N .allToAllv)
    (source : DistributedView plan.source extraShape α)
    (destination : DistributedView plan.destination extraShape α) (passed : Prop)
    (results : Coords topology.processGrid → Except (Stop TransposeError) (Buf α)) : Prop :=
  (passed ∧ ∀ c, ∃ written, results c = .ok written ∧
      CompleteDestination plan source destination c written ∧
      AlltoallvGives reference extraShape (fun d => (source.on d).storage) c written.cells) ∨
    (¬ passed ∧ ∀ c, ∃ e, results c = .error (.error e))

theorem ViewsOutcome.refines (hsource : reference.source = plan.source)
    (hdestination : reference.destination = plan.destination)
    {source : DistributedView plan.source extraShape α}
    {destination : DistributedView plan.destination extraShape α} {passed : Prop}
    {results : Coords topology.processGrid → Except (Stop TransposeError) (Buf α)}
    (h : ViewsOutcome plan source destination passed results) :
    RefinesViews plan reference source destination passed results := by
  obtain ⟨hpass, hall⟩ | hfailed := h
  · refine Or.inl ⟨hpass, fun c => ?_⟩
    obtain ⟨written, hresult, hcomplete⟩ := hall c
    refine ⟨written, hresult, hcomplete, ?_⟩
    obtain ⟨hlen, _, hholds⟩ := hcomplete
    rw [destination_length] at hlen
    exact IsTransposed.alltoallvGives hsource hdestination
      (hholds.isTransposed plan c source (destination_fits plan destination c)) hlen
  · exact Or.inr hfailed

/-- What the ranks return in place: the destination of the Alltoallv transpose everywhere and
the rest of the buffer as it was, or an error everywhere. -/
def RefinesInPlace (plan : DistributedPlan topology N mode)
    (reference : DistributedPlan topology N .allToAllv) (extraShape : ExtraShape)
    (arrays : Coords topology.processGrid → ManyPencilArray α N M) (passed : Prop)
    (results : Coords topology.processGrid →
      Except (Stop TransposeError) (ManyPencilArray α N M)) : Prop :=
  (passed ∧ ∀ c, ∃ after, results c = .ok after ∧
      TransposedInPlace plan c extraShape.elementCount (fun d => (arrays d).storage) (arrays c)
        after ∧
      ∀ data, (∀ d, (arrays d).activeStorage = .ok (data d)) →
        AlltoallvGives reference extraShape data c
          (after.storage.take (extraShape.elementCount * (plan.destination.on c).localLen))) ∨
    (¬ passed ∧ ∀ c, ∃ e, results c = .error (.error e))

theorem InPlaceOutcome.refines (hsource : reference.source = plan.source)
    (hdestination : reference.destination = plan.destination)
    {arrays : Coords topology.processGrid → ManyPencilArray α N M}
    {workspace : Coords topology.processGrid → TransposeWorkspace α}
    {alloc : Coords topology.processGrid → Allocator}
    (hextra : ∀ d, (arrays d).extraShape = extraShape) {passed : Prop}
    (hpassed : passed → ∀ c, ∃ prepared,
      inPlacePreflight plan arrays workspace alloc c = .ok prepared)
    {results : Coords topology.processGrid →
      Except (Stop TransposeError) (ManyPencilArray α N M)}
    (h : InPlaceOutcome plan arrays extraShape.elementCount passed results) :
    RefinesInPlace plan reference extraShape arrays passed results := by
  obtain ⟨hpass, hall⟩ | hfailed := h
  · have hok := hpassed hpass
    choose prepared hok using hok
    have hready := fun d => prepareInPlace_ok plan (hextra d) (hok d)
    refine Or.inl ⟨hpass, fun c => ?_⟩
    obtain ⟨after, hresult, htransposed⟩ := hall c
    exact ⟨after, hresult, htransposed, fun data hdata =>
      htransposed.alltoallvGives hsource hdestination hready hextra hdata⟩
  · exact Or.inr hfailed

end Refinement

/-- **The point-to-point transpose refines the Alltoallv transpose.**  Between views and in
place, the job always ends, in whatever order the messages are delivered, and every receive
it posts has exactly one message, of the length it expects.  Where all ranks pass, every
rank's destination is complete and is the one every run of the Alltoallv transpose of the
same data gives; both transposes in place leave the rest of the buffer as it was. -/
theorem point_to_point_refines_alltoallv (plan : DistributedPlan topology N .pointToPoint)
    (reference : DistributedPlan topology N .allToAllv)
    (hsource : reference.source = plan.source)
    (hdestination : reference.destination = plan.destination) (extraShape : ExtraShape)
    (workspace : Coords topology.processGrid → TransposeWorkspace α)
    (alloc : Coords topology.processGrid → Allocator)
    (reserve : Coords topology.processGrid → RequestReservation) :
    (∀ (source : DistributedView plan.source extraShape α)
        (destination : DistributedView plan.destination extraShape α),
      (communicators α topology.processGrid).Correct RequestsMatch (fun _ => True)
        (fun _ => False)
        (fun results _ => RefinesViews plan reference source destination
          (∀ c, (∃ prepared, preflight plan source destination workspace alloc c = .ok prepared) ∧
            reserveRequests (reserve c) (preflight plan source destination workspace alloc c)
              = true) results)
        ⟨(), fun c => (PointToPointTranspose.executeViewsImpl (alloc c) (reserve c) (plan.on c)
          (source.on c) (destination.on c) (workspace c)).run⟩) ∧
    (∀ arrays : Coords topology.processGrid → ManyPencilArray α N M,
      (∀ c, (arrays c).extraShape = extraShape) →
      (communicators α topology.processGrid).Correct RequestsMatch (fun _ => True)
        (fun _ => False)
        (fun results _ => RefinesInPlace plan reference extraShape arrays
          (InPlacePassed plan arrays workspace alloc reserve) results)
        ⟨(), fun c => (PointToPointTranspose.executeInPlaceImpl (alloc c) (reserve c) (plan.on c)
          (arrays c) (workspace c)).run⟩) ∧
    (∀ arrays : Coords topology.processGrid → ManyPencilArray α N M,
      (∀ c, (arrays c).extraShape = extraShape) →
      (communicators α topology.processGrid).Correct RequestsMatch (fun _ => True)
        (fun _ => False)
        (fun results _ => RefinesInPlace reference reference extraShape arrays
          (∀ c, ∃ prepared, inPlacePreflight reference arrays workspace alloc c = .ok prepared)
          results)
        ⟨(), fun c => (AlltoallvTranspose.executeInPlaceImpl (alloc c) (reference.on c) (arrays c)
          (workspace c)).run⟩) := by
  refine ⟨?_, ?_, ?_⟩
  · intro source destination
    refine Semantics.Ensures.correct ((pointToPointViews_completes plan source destination
      workspace alloc reserve).mono (fun _ h => h) ?_)
    exact fun results _ h => h.refines hsource hdestination
  · intro arrays hextra
    refine Semantics.Ensures.correct ((pointToPointInPlace_completes plan arrays workspace alloc
      reserve hextra).mono (fun _ h => h) ?_)
    exact fun results _ h => h.refines hsource hdestination hextra fun hall c => (hall c).1
  · intro arrays hextra
    refine Semantics.Ensures.correct ((alltoallvInPlace_completes reference arrays workspace alloc
      hextra).mono (fun _ h => h) ?_)
    exact fun results _ h => h.refines rfl rfl hextra fun hall => hall

/-- Rows to columns on two ranks, in place. -/
theorem point_to_point_refines_rows_to_columns :
    ∃ final results, (communicators ℕ twoRanks.processGrid).Reaches
      ⟨(), fun c => (PointToPointTranspose.executeInPlaceImpl (fun _ => true) (fun _ => true)
        ((rowsToColumns .pointToPoint).on c) (rowsAndColumns c) (zeroWorkspace 6)).run⟩ final ∧
      final.Returned results ∧ ∀ c, ∃ after, results c = .ok after ∧
        AlltoallvGives (rowsToColumns .allToAllv) ExtraShape.scalar
          (fun d => (numberedRows.on d).storage) c
          (after.storage.take (((threeByTwo 1 swapAxes).on c).localLen)) := by
  obtain ⟨_, hinPlace, _⟩ := point_to_point_refines_alltoallv
    (rowsToColumns .pointToPoint) (rowsToColumns .allToAllv) rfl rfl
    ExtraShape.scalar (fun _ => zeroWorkspace 6) (fun _ _ => true) fun _ _ => true
  obtain ⟨final, results, hreach, hreturned, hpost⟩ :=
    (hinPlace rowsAndColumns fun _ => rfl).exists_returned
  have hpassed : ∀ c : Coords twoRanks.processGrid,
      (∃ prepared, prepareInPlace (fun _ => true) ((rowsToColumns .pointToPoint).on c)
        (rowsAndColumns c) (zeroWorkspace 6) = .ok prepared) ∧
      reserveRequests (fun _ => true) ((prepareInPlace (fun _ => true)
        ((rowsToColumns .pointToPoint).on c) (rowsAndColumns c) (zeroWorkspace 6)).map
          PreparedInPlace.exchange) = true := by
    intro c
    obtain ⟨prepared, hok⟩ := rowsAndColumns_prepared c
    rw [hok]
    exact ⟨⟨_, rfl⟩, rfl⟩
  have hactive : ∀ d, (rowsAndColumns d).activeStorage = .ok (numberedRows.on d).storage := by
    decide
  obtain ⟨_, hall⟩ | ⟨hnot, _⟩ := hpost
  · refine ⟨final, results, hreach, hreturned, fun c => ?_⟩
    obtain ⟨after, hresult, _, hgives⟩ := hall c
    refine ⟨after, hresult, ?_⟩
    have hlen : ExtraShape.scalar.elementCount * ((threeByTwo 1 swapAxes).on c).localLen
        = ((threeByTwo 1 swapAxes).on c).localLen := Nat.one_mul _
    rw [← hlen]
    exact hgives _ hactive
  · exact absurd hpassed hnot

end PencilRs.Analysis
