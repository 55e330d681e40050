import PencilRs.Analysis.Agreement
import PencilRs.Analysis.Unpacking

/-!
# The Alltoallv transpose

Once every rank's preflight has passed, the segments a rank packs for its peers have the
counts the peers reserved, so Alltoallv delivers them, and unpacking writes every
destination element once, with the element its source owner holds.
-/

set_option autoImplicit false

namespace PencilRs.Analysis

open PencilRs.Computation PencilRs.Model

variable {N M : ℕ} {α : Type} {topology : MpiTopology M} {mode : CommunicationMode}

instance nonemptyCoords : Nonempty (Coords topology.processGrid) := ⟨topology.here⟩

/-! ## The partitions -/

theorem assertPartitionBounds_eq (len : ℕ) {n : ℕ} {counts displacements : ℕ → ℕ}
    (h : ∀ k < n, displacements k + counts k ≤ len) (hlen : len < usizeLimit) :
    assertPartitionBounds len ((List.range n).map counts) ((List.range n).map displacements)
      = some () := by
  have hloop : ∀ (l : List ℕ), (∀ k ∈ l, k < n) →
      (((l.map counts).zip (l.map displacements)).foldlM (fun _ segment => do
        let stop ← checkedAdd segment.2 segment.1
        if stop > len then none else some ()) ()) = some () := by
    intro l
    induction l with
    | nil => exact fun _ => rfl
    | cons k l ih =>
      intro hk
      have hle := h k (hk k (by simp))
      have hadd : checkedAdd (displacements k) (counts k)
          = some (displacements k + counts k) := checkedAdd_eq_some.mpr ⟨by omega, rfl⟩
      rw [List.map_cons, List.map_cons, List.zip_cons_cons, List.foldlM_cons]
      simp only [hadd, Option.bind_eq_bind, Option.bind_some]
      rw [if_neg (by omega)]
      exact ih fun j hj => hk j (List.mem_cons_of_mem _ hj)
  unfold assertPartitionBounds
  rw [if_neg (by simp)]
  exact hloop _ fun k hk => List.mem_range.mp hk

/-- The counts of a prepared plan cut `sendBuffer` and `receiveBuffer` into partitions. -/
theorem exchangePartitions_eq {p q : Pencil N M} {axis : Fin M} (h : LayoutChange p q axis)
    {batch : ℕ} {sendBuffer receiveBuffer : List α}
    (hsend : sendBuffer.length = batch * p.localLen) (hfit : batch * p.localLen < usizeLimit)
    (hreceive : receiveBuffer.length = batch * q.localLen)
    (hfit' : batch * q.localLen < usizeLimit) :
    exchangePartitions (preparedFor p q axis batch .allToAllv) sendBuffer receiveBuffer = some
      ({ buffer := sendBuffer
         counts := (List.range (p.topology.processGrid axis)).map fun k =>
           regionSize (sendRegion p q axis k) * batch
         displacements := (List.range (p.topology.processGrid axis)).map fun k =>
           sendCut p q axis k * batch },
       { buffer := receiveBuffer
         counts := (List.range (p.topology.processGrid axis)).map fun k =>
           regionSize (receiveRegion p q axis k) * batch
         displacements := (List.range (p.topology.processGrid axis)).map fun k =>
           receiveCut p q axis k * batch }) := by
  have hs : ∀ k < p.topology.processGrid axis,
      sendCut p q axis k * batch + regionSize (sendRegion p q axis k) * batch
        ≤ batch * p.localLen := by
    intro k hk
    rw [← Nat.add_mul, Nat.mul_comm]
    exact Nat.mul_le_mul_left _ (h.sendSize_le hk)
  have hr : ∀ k < p.topology.processGrid axis,
      receiveCut p q axis k * batch + regionSize (receiveRegion p q axis k) * batch
        ≤ batch * q.localLen := by
    intro k hk
    rw [← Nat.add_mul, Nat.mul_comm]
    exact Nat.mul_le_mul_left _ (h.receiveSize_le hk)
  unfold exchangePartitions
  by_cases hempty : (preparedFor p q axis batch .allToAllv).requirements.sendLen = 0 ∧
      (preparedFor p q axis batch .allToAllv).requirements.receiveLen = 0
  · rw [if_pos hempty]
    obtain ⟨hs0, hr0⟩ := hempty
    simp only [preparedFor, Nat.mul_comm _ batch] at hs0 hr0
    have hsnil : sendBuffer = [] := List.eq_nil_of_length_eq_zero (hsend.trans hs0)
    have hrnil : receiveBuffer = [] := List.eq_nil_of_length_eq_zero (hreceive.trans hr0)
    subst hsnil hrnil
    have hone : 1 < usizeLimit := by decide
    have hds := assertPartitionBounds_eq 1
      (fun k hk => (hs k hk).trans (by omega)) hone
    have hdr := assertPartitionBounds_eq 1
      (fun k hk => (hr k hk).trans (by omega)) hone
    simp only [dummyPartition, preparedFor, if_true, hds, hdr, Option.map_some,
      Option.bind_eq_bind, Option.bind_some]
    rfl
  · rw [if_neg hempty]
    have hds := assertPartitionBounds_eq _ hs hfit
    have hdr := assertPartitionBounds_eq _ hr hfit'
    rw [← hsend] at hds
    rw [← hreceive] at hdr
    simp only [checkedPartition, preparedFor, if_true, hds, hdr, Option.map_some,
      Option.bind_eq_bind, Option.bind_some]
    rfl

/-! ## The exchange -/

section Exchange

variable (plan : DistributedPlan topology N mode) (E : ℕ)

/-- The send partition of a rank. -/
def sendPartition (c : Coords topology.processGrid) (buffer : List α) : Partition α where
  buffer := buffer
  counts := (List.range (peerCount plan)).map fun k => regionSize (sentTo plan c k) * E
  displacements := (List.range (peerCount plan)).map fun k => sendStart plan c k * E

/-- The receive partition of a rank. -/
def receivePartition (c : Coords topology.processGrid) (buffer : List α) : Partition α where
  buffer := buffer
  counts := (List.range (peerCount plan)).map fun k => regionSize (receivedFrom plan c k) * E
  displacements := (List.range (peerCount plan)).map fun k => receiveStart plan c k * E

theorem hasSegment_send (c : Coords topology.processGrid) {buffer : List α}
    (hlen : buffer.length = E * (plan.source.on c).localLen) {k : ℕ} (hk : k < peerCount plan) :
    (sendPartition plan E c buffer).HasSegment k (sendStart plan c k * E)
      (regionSize (sentTo plan c k) * E) where
  count := by simp [sendPartition, hk]
  displacement := by simp [sendPartition, hk]
  fits := by
    have hle := (change_on plan c).sendSize_le (lt_processGrid plan c hk)
    simp only [sendPartition, hlen]
    rw [← Nat.add_mul, Nat.mul_comm]
    exact Nat.mul_le_mul_left E hle

theorem hasSegment_receive (c : Coords topology.processGrid) {buffer : List α}
    (hlen : buffer.length = E * (plan.destination.on c).localLen) {k : ℕ}
    (hk : k < peerCount plan) :
    (receivePartition plan E c buffer).HasSegment k (receiveStart plan c k * E)
      (regionSize (receivedFrom plan c k) * E) where
  count := by simp [receivePartition, hk]
  displacement := by simp [receivePartition, hk]
  fits := by
    have hle := (change_on plan c).receiveSize_le (lt_processGrid plan c hk)
    simp only [receivePartition, hlen]
    rw [← Nat.add_mul, Nat.mul_comm]
    exact Nat.mul_le_mul_left E hle

/-- The receive slots, one for each rank of the communicator, tile the receive buffer. -/
theorem tiles_slots (c : Coords topology.processGrid) :
    Tiles 0 ((List.finRange (peerCount plan)).map fun k : Fin (peerCount plan) =>
        (receiveStart plan c k * E, regionSize (receivedFrom plan c k) * E))
      ((plan.destination.on c).localLen * E) := by
  have htiles := tiles_receive plan c E
  rw [peers_on, List.map_map, ← List.map_coe_finRange_eq_range, List.map_map] at htiles
  exact htiles

/-- What the ranks packed, elements of their regions, segment by segment. -/
def HasPacked (elements : Coords topology.processGrid → List α) (skip : Option ℕ)
    (c : Coords topology.processGrid) (packed : List α) : Prop :=
  ∀ k < peerCount plan, skip ≠ some k → ∀ e < E, ∀ i < regionSize (sentTo plan c k),
    packed[sendStart plan c k * E + (e * regionSize (sentTo plan c k) + i)]?
      = (elements c)[e * (plan.source.on c).localLen
          + regionPosition (plan.source.on c) (sentTo plan c k) i]?

variable {elements : Coords topology.processGrid → List α}

/-- A receive segment that equals the segment its peer packed holds the peer's elements. -/
theorem hasReceived_of_segments (packed : Coords topology.processGrid → List α)
    {skip : Option ℕ} {c : Coords topology.processGrid}
    {received : List α}
    (hpacked : ∀ k : Fin (peerCount plan), skip ≠ some (k : ℕ) →
      HasPacked plan E elements (skip.map fun _ => (k : ℕ)) (peerOf plan c k)
        (packed (peerOf plan c k)))
    (hskip : ∀ s, skip = some s → s = c (changedAxis plan))
    (h : ∀ k : Fin (peerCount plan), skip ≠ some (k : ℕ) →
      ∀ t < regionSize (receivedFrom plan c k) * E,
        received[receiveStart plan c k * E + t]?
          = (packed (peerOf plan c k))[sendStart plan (peerOf plan c k) (c (changedAxis plan)) * E
              + t]?) :
    HasReceived plan c E elements skip received := by
  intro k hk e he i hi
  have hsize := congrArg regionSize (receivedFrom_eq_sentTo plan c k)
  have hend : e * regionSize (receivedFrom plan c k) + i
      < regionSize (receivedFrom plan c k) * E := by
    have hle : (e + 1) * regionSize (receivedFrom plan c k)
        ≤ E * regionSize (receivedFrom plan c k) := Nat.mul_le_mul_right _ he
    rw [Nat.succ_mul] at hle
    rw [Nat.mul_comm _ E]
    omega
  have hne : (skip.map fun _ => (k : ℕ)) ≠ some ((c (changedAxis plan) : ℕ)) := by
    cases hs : skip with
    | none => simp
    | some s =>
      intro heq
      apply hk
      rw [hs, hskip s hs]
      exact congrArg some (Option.some.inj heq).symm
  rw [Nat.add_assoc, h k hk _ hend, hsize, receivedFrom_eq_sentTo]
  rw [hsize] at hi
  exact hpacked k hk _ (c (changedAxis plan)).isLt hne e he i hi

/-- **Alltoallv** can exchange the partitions, and every rank then holds the elements its
peers packed for it. -/
theorem exchange_received (packed : Coords topology.processGrid → List α)
    {buffers : Coords topology.processGrid → List α}
    (hpacked : ∀ c, HasPacked plan E elements none c (packed c))
    (hsend : ∀ c, (packed c).length = E * (plan.source.on c).localLen)
    (hreceive : ∀ c, (buffers c).length = E * (plan.destination.on c).localLen)
    (c : Coords topology.processGrid) :
    ∃ buffer, exchange (fun k => sendPartition plan E (peerOf plan c k)
          (packed (peerOf plan c k))) (receivePartition plan E c (buffers c))
          (c (changedAxis plan)) = some buffer ∧
      buffer.cells.length = E * (plan.destination.on c).localLen ∧
      HasReceived plan c E elements none buffer.cells := by
  have hsegments : ∀ k : Fin (peerCount plan),
      (sendPartition plan E (peerOf plan c k) (packed (peerOf plan c k))).HasSegment
        (c (changedAxis plan)) (sendStart plan (peerOf plan c k) (c (changedAxis plan)) * E)
        (regionSize (receivedFrom plan c k) * E) := by
    intro k
    rw [receivedFrom_eq_sentTo]
    exact hasSegment_send plan E _ (hsend _) (c (changedAxis plan)).isLt
  have hslots : ∀ k : Fin (peerCount plan),
      (receivePartition plan E c (buffers c)).HasSegment k (receiveStart plan c k * E)
        (regionSize (receivedFrom plan c k) * E) :=
    fun k => hasSegment_receive plan E c (hreceive c) k.isLt
  obtain ⟨buffer, hbuffer⟩ := exchange_isSome hsegments hslots
  obtain ⟨hlen, hcells⟩ := exchange_cells hsegments hslots (tiles_slots plan E c) hbuffer
  refine ⟨buffer, hbuffer, hlen.trans (hreceive c), ?_⟩
  exact hasReceived_of_segments plan E packed (fun k _ => hpacked _) (by simp)
    fun k _ t ht => hcells k t ht

end Exchange

/-! ## The transfer -/

/-- A prefix that the workspace has. -/
theorem slice?_take {buffer : List α} {len : ℕ} (h : len ≤ buffer.length) :
    slice? buffer 0 len = some (buffer.take len) ∧ (buffer.take len).length = len := by
  refine ⟨?_, by simp [h]⟩
  rw [slice?_eq (Nat.zero_le _) h]
  simp

section Ready

variable (plan : DistributedPlan topology N mode) (E : ℕ)

/-- What a rank's preflight has to say about the storage it packs and its workspace. -/
structure ExchangeReady (c : Coords topology.processGrid) (storage : List α)
    (workspace : TransposeWorkspace α) (prepared : PreparedExchange) : Prop where
  prepared : prepared = preparedFor (plan.source.on c) (plan.destination.on c)
    (changedAxis plan) E mode
  storage : E * (plan.source.on c).localLen ≤ storage.length
  sourceFits : E * (plan.source.on c).localLen < usizeLimit
  destinationFits : E * (plan.destination.on c).localLen < usizeLimit
  send : E * (plan.source.on c).localLen ≤ workspace.sendBuffer.length
  receive : E * (plan.destination.on c).localLen ≤ workspace.receiveBuffer.length

/-- Every rank holds what its peers packed for it. -/
def Delivered {ε : Type} (skip : Coords topology.processGrid → Option ℕ)
    (elements : Coords topology.processGrid → List α)
    (r : Coords topology.processGrid → Except ε (List α)) : Prop :=
  ∃ received : Coords topology.processGrid → List α, r = (fun c => .ok (received c)) ∧
    ∀ c, (received c).length = E * (plan.destination.on c).localLen ∧
      HasReceived plan c E elements (skip c) (received c)

variable {plan E} {c : Coords topology.processGrid} {storage : List α}
  {workspace : TransposeWorkspace α} {prepared : PreparedExchange}

theorem ExchangeReady.sendLen (h : ExchangeReady plan E c storage workspace prepared) :
    prepared.requirements.sendLen = E * (plan.source.on c).localLen := by
  rw [h.prepared]
  exact Nat.mul_comm _ _

theorem ExchangeReady.receiveLen (h : ExchangeReady plan E c storage workspace prepared) :
    prepared.requirements.receiveLen = E * (plan.destination.on c).localLen := by
  rw [h.prepared]
  exact Nat.mul_comm _ _

/-- What a rank packs for its peers. -/
theorem ExchangeReady.pack (h : ExchangeReady plan E c storage workspace prepared)
    (skip : Option ℕ) :
    ∃ buf, packSourceRegionsSkipping (plan.on c).peers skip
        (LocalLayout.new (plan.source.on c)) storage
        (Buf.fresh (workspace.sendBuffer.take (E * (plan.source.on c).localLen)))
        (E * (plan.source.on c).localLen) E = some buf ∧
      buf.cells.length = E * (plan.source.on c).localLen ∧
      ∀ k < peerCount plan, skip ≠ some k → ∀ e < E, ∀ i < regionSize (sentTo plan c k),
        buf.cells[sendStart plan c k * E + (e * regionSize (sentTo plan c k) + i)]?
          = storage[e * (plan.source.on c).localLen
              + regionPosition (plan.source.on c) (sentTo plan c k) i]? :=
  pack_spec plan c E skip storage h.storage h.sourceFits (slice?_take h.send).2

end Ready

section Transfer

variable (plan : DistributedPlan topology N .allToAllv) {E : ℕ}

/-- The exchange of one rank, once its partitions are known. -/
theorem executeExchange_eq (c : Coords topology.processGrid)
    {sendBuffer receiveBuffer : List α}
    (hsend : sendBuffer.length = E * (plan.source.on c).localLen)
    (hfit : E * (plan.source.on c).localLen < usizeLimit)
    (hreceive : receiveBuffer.length = E * (plan.destination.on c).localLen)
    (hfit' : E * (plan.destination.on c).localLen < usizeLimit) {ε : Type} :
    (executeExchange (plan.on c) (preparedFor (plan.source.on c) (plan.destination.on c)
        (changedAxis plan) E .allToAllv) sendBuffer receiveBuffer : RankProgram α M ε (List α))
      = Fallible.perform (I := transport α M) (.allToAllVarcount (changedAxis plan))
          (sendPartition plan E c sendBuffer, receivePartition plan E c receiveBuffer) := by
  unfold executeExchange
  rw [exchangePartitions_eq (change_on plan c) hsend hfit hreceive hfit', changedAxis_on,
    processGrid_on]
  rfl

/-- **The transfer** completes on every rank. -/
theorem transfer_completes {ε : Type} {storage : Coords topology.processGrid → List α}
    {workspace : Coords topology.processGrid → TransposeWorkspace α}
    {prepared : Coords topology.processGrid → PreparedExchange}
    (hready : ∀ c, ExchangeReady plan E c (storage c) (workspace c) (prepared c)) :
    Completes (Delivered plan E (fun _ => none) storage)
      fun c => (AlltoallvTranspose.transfer (plan.on c) (storage c) (prepared c) (workspace c) E :
        RankProgram α M ε (List α)).run := by
  have hpack := fun c => (hready c).pack none
  choose packed hpacked hlen hcells using hpack
  have hpackedAll : ∀ c, HasPacked plan E storage none c (packed c).cells :=
    fun c k hk hskip e he i hi => hcells c k hk hskip e he i hi
  have hexchange := exchange_received plan E (fun c => (packed c).cells) hpackedAll hlen
    fun c => (slice?_take (hready c).receive).2
  choose buffers hbuffers hbufferLen hreceived using hexchange
  have hprogram : ∀ c, (AlltoallvTranspose.transfer (plan.on c) (storage c) (prepared c)
      (workspace c) E : RankProgram α M ε (List α))
        = Fallible.perform (I := transport α M) (.allToAllVarcount (changedAxis plan))
            (sendPartition plan E c (packed c).cells, receivePartition plan E c
              ((workspace c).receiveBuffer.take (E * (plan.destination.on c).localLen))) := by
    intro c
    unfold AlltoallvTranspose.transfer packSource
    rw [(hready c).sendLen, (hready c).receiveLen, (slice?_take (hready c).send).1,
      (slice?_take (hready c).receive).1, plan.source_eq]
    simp only [RankProgram.orPanic_some_bind]
    rw [hpacked, RankProgram.orPanic_some_bind, (hready c).prepared]
    exact executeExchange_eq plan c (hlen c) (hready c).sourceFits
      (slice?_take (hready c).receive).2 (hready c).destinationFits
  simp only [hprogram]
  refine .round (.allToAllVarcount (changedAxis plan)) _ (fun _ reply => .ret (.ok reply))
    (fun _ => rfl) trivial trivial (fun _ h => h.elim)
    ⟨fun c => (buffers c).cells, (), fun c => ⟨_, hbuffers c, rfl⟩⟩ ?_
  intro replies _ hround
  have hreplies : ∀ c, replies c = (buffers c).cells := by
    intro c
    obtain ⟨buffer, hbuffer, hreply⟩ := hround c
    rw [hreply, Option.some.inj (hbuffer.symm.trans (hbuffers c))]
  refine .returned (fun c => .ok (replies c)) (fun _ => rfl) trivial ⟨replies, rfl, ?_⟩
  intro c
  rw [hreplies]
  exact ⟨hbufferLen c, hreceived c⟩

end Transfer

/-! ## The transpose -/

section Transpose

variable (plan : DistributedPlan topology N .allToAllv) {extraShape : ExtraShape}
  (source : DistributedView plan.source extraShape α)
  (destination : DistributedView plan.destination extraShape α)
  (workspace : Coords topology.processGrid → TransposeWorkspace α)
  (alloc : Coords topology.processGrid → Allocator)

/-- The local results of the preflight. -/
abbrev preflight (plan : DistributedPlan topology N mode)
    (source : DistributedView plan.source extraShape α)
    (destination : DistributedView plan.destination extraShape α)
    (workspace : Coords topology.processGrid → TransposeWorkspace α)
    (alloc : Coords topology.processGrid → Allocator) (c : Coords topology.processGrid) :
    Except TransposeError PreparedExchange :=
  (plan.on c).prepareExecution (alloc c) (source.on c) (destination.on c) (workspace c)

theorem preflight_ready (plan : DistributedPlan topology N mode)
    (source : DistributedView plan.source extraShape α)
    (destination : DistributedView plan.destination extraShape α)
    {workspace : Coords topology.processGrid → TransposeWorkspace α}
    {alloc : Coords topology.processGrid → Allocator} {c : Coords topology.processGrid}
    {prepared : PreparedExchange}
    (h : preflight plan source destination workspace alloc c = .ok prepared) :
    ExchangeReady plan extraShape.elementCount c (source.on c).storage (workspace c) prepared := by
  obtain ⟨heq, hsend, hreceive⟩ := prepareExecution_ok plan source destination h
  exact ⟨heq, (source_length plan source c).ge, source_fits plan source c,
    destination_fits plan destination c, hsend, hreceive⟩

/-- A complete destination: every position written once, every element transposed. -/
def CompleteDestination (plan : DistributedPlan topology N mode)
    (source : DistributedView plan.source extraShape α)
    (destination : DistributedView plan.destination extraShape α)
    (c : Coords topology.processGrid) (written : Buf α) : Prop :=
  written.cells.length = (destination.on c).storage.length ∧
    written.log.Perm (List.range (destination.on c).storage.length) ∧
    HoldsTranspose plan c source written.cells

/-- What the ranks return: the complete destination everywhere, or an error everywhere. -/
def ViewsOutcome (plan : DistributedPlan topology N mode)
    (source : DistributedView plan.source extraShape α)
    (destination : DistributedView plan.destination extraShape α)
    (passed : Prop)
    (results : Coords topology.processGrid → Except (Stop TransposeError) (Buf α)) : Prop :=
  (passed ∧ ∀ c, ∃ written, results c = .ok written ∧
      CompleteDestination plan source destination c written) ∨
    (¬ passed ∧ ∀ c, ∃ e, results c = .error (.error e))

theorem alltoallv_completes :
    Completes (ViewsOutcome plan source destination
        (∀ c, ∃ prepared, preflight plan source destination workspace alloc c = .ok prepared))
      fun c => (AlltoallvTranspose.executeViewsImpl (alloc c) (plan.on c) (source.on c)
        (destination.on c) (workspace c)).run := by
  unfold AlltoallvTranspose.executeViewsImpl
  refine Semantics.Ensures.bind_agreed (agreePreflight_completes
    (preflight plan source destination workspace alloc) _) (fun _ _ h => AgreedOn.agreed h) ?_ ?_
  · intro prepared _ hmid _
    have hok := AgreedOn.ok hmid
    simp only [source.extraShape_eq]
    refine Semantics.Ensures.bind_agreed (transfer_completes plan
      fun c => preflight_ready plan source destination (hok c)) ?_ ?_ ?_
    · rintro _ _ ⟨received, hreceived, _⟩
      exact Or.inl ⟨received, hreceived⟩
    · rintro received _ ⟨received', heq, hreceived⟩ _
      obtain rfl : received = received' := funext fun c => Except.ok.inj (congrFun heq c)
      have hunpack := fun c => unpack_isTransposed plan c extraShape.elementCount
        (Buf.fresh (destination.on c).storage) (hreceived c).1
        (destination_length plan destination c).ge (destination_fits plan destination c) le_rfl
        (hreceived c).2
      choose written hwritten hwrittenLen hlog htransposed hkept using hunpack
      refine .returned (fun c => .ok (written c)) ?_ trivial (Or.inl ⟨fun c => ⟨_, hok c⟩, ?_⟩)
      · intro c
        rw [plan.destination_eq, hwritten]
        rfl
      · intro c
        refine ⟨written c, rfl, hwrittenLen c, ?_,
          (htransposed c).holdsTranspose plan c source (destination_fits plan destination c)⟩
        obtain ⟨positions, hperm, heq⟩ := hlog c
        rw [heq, destination_length plan destination c]
        exact hperm
    · rintro e _ ⟨_, heq, _⟩ _
      have := congrFun heq topology.here
      contradiction
  · intro e _ hmid _
    obtain ⟨⟨c, err, herror⟩, errs, rfl, _⟩ := AgreedOn.error hmid
    refine Or.inr ⟨fun hall => ?_, fun c => ⟨errs c, rfl⟩⟩
    obtain ⟨prepared, hok⟩ := hall c
    have := hok.symm.trans herror
    contradiction

/-- **The Alltoallv transpose is correct.**  The job always ends, without hanging.  If every
rank's preflight passes, every rank ends with the complete transposed destination; if some
rank's preflight fails, every rank returns an error. -/
theorem alltoallv_transpose_correct :
    (communicators α topology.processGrid).Correct RequestsMatch (fun _ => True) (fun _ => False)
      (fun results _ => ViewsOutcome plan source destination
        (∀ c, ∃ prepared, preflight plan source destination workspace alloc c = .ok prepared)
        results)
      ⟨(), fun c => (AlltoallvTranspose.executeViewsImpl (alloc c) (plan.on c) (source.on c)
        (destination.on c) (workspace c)).run⟩ :=
  (alltoallv_completes plan source destination workspace alloc).correct

end Transpose

/-- Rows to columns on two ranks. -/
theorem alltoallv_transpose_rows_to_columns :
    ∃ final results, (communicators ℕ twoRanks.processGrid).Reaches
      ⟨(), fun c => (AlltoallvTranspose.executeViewsImpl (fun _ => true)
        ((rowsToColumns .allToAllv).on c) (numberedRows.on c) (numberedColumns.on c)
        (zeroWorkspace 6)).run⟩ final ∧ final.Returned results ∧
      ∀ c, ∃ written, results c = .ok written ∧
        CompleteDestination (rowsToColumns .allToAllv) numberedRows numberedColumns c written := by
  have hcorrect := alltoallv_transpose_correct (rowsToColumns .allToAllv) numberedRows
    numberedColumns (fun _ => zeroWorkspace 6) fun _ _ => true
  obtain ⟨final, results, hreach, hreturned, hpost⟩ := hcorrect.exists_returned
  have hsix : 6 ≤ countMax := by decide
  have hsend : 6 ≤ (zeroWorkspace 6).sendBuffer.length := by simp [zeroWorkspace]
  have hreceive : 6 ≤ (zeroWorkspace 6).receiveBuffer.length := by simp [zeroWorkspace]
  have hpassed : ∀ c, ∃ prepared, preflight (rowsToColumns .allToAllv) numberedRows
      numberedColumns (fun _ => zeroWorkspace 6) (fun _ _ => true) c = .ok prepared := fun c =>
    ⟨_, (prepareExecution_eq (rowsToColumns .allToAllv) numberedRows numberedColumns c _ _).trans
      (prepareCommon_of_le (rowsToColumns .allToAllv) c
        ⟨rfl, fun _ => rfl, rfl, fun _ => rfl⟩ ((threeByTwo_le 0 _ c).trans hsix)
        ((threeByTwo_le 1 _ c).trans hsix) ((threeByTwo_le 0 _ c).trans hsend)
        ((threeByTwo_le 1 _ c).trans hreceive))⟩
  obtain ⟨_, hall⟩ | ⟨hnot, _⟩ := hpost
  · exact ⟨final, results, hreach, hreturned, hall⟩
  · exact absurd hpassed hnot

end PencilRs.Analysis
