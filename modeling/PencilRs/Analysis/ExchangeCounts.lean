import PencilRs.Analysis.Distribution
import PencilRs.Computation.Tiling

/-!
# Exchange counts are dual and the preflight is complete

The send count of rank `i` for peer `j` is the receive count of `j` for `i`; on each rank
the segments tile the views in peer order; and the preflight rejects a plan whose views
and workspaces match only where a count or a displacement leaves a C integer, or where the
allocator refuses a vector.
-/

set_option autoImplicit false

namespace PencilRs.Analysis

open PencilRs.Computation PencilRs.Model

variable {N M : ℕ} {α : Type} {topology : MpiTopology M} {mode : CommunicationMode}

/-- A count of the peer exceeds a C integer, or a displacement where the transport needs
displacements. -/
def ExceedsCount (mode : CommunicationMode) (batch : ℕ) (peer : PeerMetadata N) : Prop :=
  countMax < peer.sendSpatialLen * batch ∨ countMax < peer.receiveSpatialLen * batch ∨
    (mode = .allToAllv ∧ (countMax < peer.sendSpatialDisplacement * batch ∨
      countMax < peer.receiveSpatialDisplacement * batch))

instance (mode : CommunicationMode) (batch : ℕ) (peer : PeerMetadata N) :
    Decidable (ExceedsCount mode batch peer) :=
  inferInstanceAs (Decidable (_ ∨ _ ∨ (_ ∧ (_ ∨ _))))

theorem exceedsCount_of_not_fit {mode : CommunicationMode} {batch : ℕ} {peer : PeerMetadata N}
    (hs : peer.sendSpatialLen * batch + peer.sendSpatialDisplacement * batch < usizeLimit)
    (hr : peer.receiveSpatialLen * batch + peer.receiveSpatialDisplacement * batch < usizeLimit)
    (h : ¬ CountsFit mode batch peer) : ExceedsCount mode batch peer := by
  by_contra hnot
  simp only [ExceedsCount, not_or, not_and, Nat.not_lt] at hnot
  obtain ⟨h1, h2, h3⟩ := hnot
  exact h ⟨h1, h2, fun hm => (h3 hm).1, fun hm => (h3 hm).2, hs, hr⟩

theorem not_exceedsCount_of_fit {mode : CommunicationMode} {batch : ℕ} {peer : PeerMetadata N}
    (h : CountsFit mode batch peer) : ¬ ExceedsCount mode batch peer := by
  rintro (h1 | h1 | ⟨hm, h1 | h1⟩)
  · exact absurd h.send (by omega)
  · exact absurd h.receive (by omega)
  · exact absurd (h.sendDisplacement hm) (by omega)
  · exact absurd (h.receiveDisplacement hm) (by omega)

section Plan

variable (plan : DistributedPlan topology N mode)

/-- The send segments of a rank, scaled by the extra elements, tile the source view. -/
theorem tiles_send (c : Coords topology.processGrid) (batch : ℕ) :
    Tiles 0 ((plan.on c).peers.map fun peer =>
        (peer.sendSpatialDisplacement * batch, peer.sendSpatialLen * batch))
      ((plan.source.on c).localLen * batch) := by
  have hchange := change_on plan c
  have htiles := tiles_of_cuts
    (fun k => sendCut (plan.source.on c) (plan.destination.on c) (changedAxis plan) k * batch)
    (fun k => (sendCut (plan.source.on c) (plan.destination.on c) (changedAxis plan) k * batch,
      regionSize (sendRegion (plan.source.on c) (plan.destination.on c) (changedAxis plan) k)
        * batch))
    (topology.processGrid (changedAxis plan)) ?_
    fun _ _ hle => Nat.mul_le_mul_right _ (sendCut_mono _ _ _ hle)
  · have hall := hchange.sendCut_all
    rw [processGrid_on] at hall
    rw [peers_on, List.map_map]
    simp only [sendCut_zero, Nat.zero_mul, hall] at htiles
    exact htiles
  · intro k _
    simp only [Prod.mk.injEq, true_and]
    rw [← sendCut_succ, Nat.add_mul, Nat.add_sub_cancel_left]

/-- The receive segments of a rank tile the destination view. -/
theorem tiles_receive (c : Coords topology.processGrid) (batch : ℕ) :
    Tiles 0 ((plan.on c).peers.map fun peer =>
        (peer.receiveSpatialDisplacement * batch, peer.receiveSpatialLen * batch))
      ((plan.destination.on c).localLen * batch) := by
  have hchange := change_on plan c
  have htiles := tiles_of_cuts
    (fun k => receiveCut (plan.source.on c) (plan.destination.on c) (changedAxis plan) k * batch)
    (fun k => (receiveCut (plan.source.on c) (plan.destination.on c) (changedAxis plan) k * batch,
      regionSize (receiveRegion (plan.source.on c) (plan.destination.on c) (changedAxis plan) k)
        * batch))
    (topology.processGrid (changedAxis plan)) ?_
    fun _ _ hle => Nat.mul_le_mul_right _ (receiveCut_mono _ _ _ hle)
  · have hall := hchange.receiveCut_all
    rw [processGrid_on] at hall
    rw [peers_on, List.map_map]
    simp only [receiveCut_zero, Nat.zero_mul, hall] at htiles
    exact htiles
  · intro k _
    simp only [Prod.mk.injEq, true_and]
    rw [← receiveCut_succ, Nat.add_mul, Nat.add_sub_cancel_left]

variable {extraShape : ExtraShape} (source : DistributedView plan.source extraShape α)
  (destination : DistributedView plan.destination extraShape α)

theorem source_length (c : Coords topology.processGrid) :
    (source.on c).storage.length
      = extraShape.elementCount * (plan.source.on c).localLen := by
  rw [view_storage_length, source.extraShape_eq, source.pencil_eq]

theorem peers_eq_planPeers (c : Coords topology.processGrid) :
    (plan.on c).peers
      = planPeers (plan.source.on c) (plan.destination.on c) (changedAxis plan) := by
  rw [peers_on, planPeers, processGrid_on]

include source in
theorem source_fits (c : Coords topology.processGrid) :
    extraShape.elementCount * (plan.source.on c).localLen < usizeLimit := by
  have := view_fits (source.on c)
  rwa [source.extraShape_eq, source.pencil_eq] at this

theorem destination_length (c : Coords topology.processGrid) :
    (destination.on c).storage.length
      = extraShape.elementCount * (plan.destination.on c).localLen := by
  rw [view_storage_length, destination.extraShape_eq, destination.pencil_eq]

include destination in
theorem destination_fits (c : Coords topology.processGrid) :
    extraShape.elementCount * (plan.destination.on c).localLen < usizeLimit := by
  have := view_fits (destination.on c)
  rwa [destination.extraShape_eq, destination.pencil_eq] at this

omit source destination in
/-- With a sufficient workspace the common preflight is the preflight of the counts. -/
theorem prepareCommon_eq (c : Coords topology.processGrid) (alloc : Allocator)
    {workspace : TransposeWorkspace α}
    (hsource : extraShape.elementCount * (plan.source.on c).localLen < usizeLimit)
    (hdestination : extraShape.elementCount * (plan.destination.on c).localLen < usizeLimit)
    (hworkspace : ∀ requirements, (plan.on c).workspaceRequirements extraShape
      = .ok requirements → requirements.sendLen ≤ workspace.sendBuffer.length ∧
        requirements.receiveLen ≤ workspace.receiveBuffer.length) :
    (plan.on c).prepareCommon alloc extraShape
        (extraShape.elementCount * (plan.source.on c).localLen)
        (extraShape.elementCount * (plan.destination.on c).localLen) workspace
      = prepareExchangeCounts alloc (planPeers (plan.source.on c) (plan.destination.on c)
          (changedAxis plan)) extraShape.elementCount (topology.processGrid (changedAxis plan))
          mode := by
  have hcommon := prepareCommon_eq_of_counts (plan.on c) alloc extraShape workspace
    (by rwa [plan.source_eq]) (by rwa [plan.destination_eq]) hworkspace
  rw [plan.source_eq, plan.destination_eq, changedAxis_on, processGrid_on, peers_on,
    plan.mode_eq] at hcommon
  rw [hcommon, planPeers, processGrid_on]

/-- With matching views the preflight is the common one. -/
theorem prepareExecution_eq (c : Coords topology.processGrid) (alloc : Allocator)
    (workspace : TransposeWorkspace α) :
    (plan.on c).prepareExecution alloc (source.on c) (destination.on c) workspace
      = (plan.on c).prepareCommon alloc extraShape
          (extraShape.elementCount * (plan.source.on c).localLen)
          (extraShape.elementCount * (plan.destination.on c).localLen) workspace := by
  unfold TransposePlanCore.prepareExecution
  rw [source.pencil_eq, destination.pencil_eq, plan.source_eq, plan.destination_eq,
    source.extraShape_eq, destination.extraShape_eq, source_length, destination_length]
  simp only [Pencil.sameLayout_self, Bool.not_true, Bool.false_eq_true, if_false, ne_eq,
    not_true_eq_false, bind, Except.bind]

/-- The sums a peer's segment ends at stay below the view lengths. -/
theorem segment_ends (c : Coords topology.processGrid) {peer : PeerMetadata N}
    (h : peer ∈ planPeers (plan.source.on c) (plan.destination.on c) (changedAxis plan))
    {batch : ℕ} (hsource : batch * (plan.source.on c).localLen < usizeLimit)
    (hdest : batch * (plan.destination.on c).localLen < usizeLimit) :
    peer.sendSpatialLen * batch + peer.sendSpatialDisplacement * batch < usizeLimit ∧
      peer.receiveSpatialLen * batch + peer.receiveSpatialDisplacement * batch < usizeLimit := by
  obtain ⟨k, hk, rfl⟩ := List.mem_map.mp h
  have hk' := List.mem_range.mp hk
  have hs := (change_on plan c).sendSize_le hk'
  have hr := (change_on plan c).receiveSize_le hk'
  constructor
  · rw [← Nat.add_mul]
    refine Nat.lt_of_le_of_lt ?_ hsource
    rw [Nat.mul_comm batch]
    exact Nat.mul_le_mul_right _ (by simp only [peerAt]; omega)
  · rw [← Nat.add_mul]
    refine Nat.lt_of_le_of_lt ?_ hdest
    rw [Nat.mul_comm batch]
    exact Nat.mul_le_mul_right _ (by simp only [peerAt]; omega)

omit source destination in
/-- A preflight that returns returns the plan's counts. -/
theorem prepareCommon_ok {c : Coords topology.processGrid} {alloc : Allocator}
    {workspace : TransposeWorkspace α} {prepared : PreparedExchange}
    (hsource : extraShape.elementCount * (plan.source.on c).localLen < usizeLimit)
    (hdestination : extraShape.elementCount * (plan.destination.on c).localLen < usizeLimit)
    (h : (plan.on c).prepareCommon alloc extraShape
        (extraShape.elementCount * (plan.source.on c).localLen)
        (extraShape.elementCount * (plan.destination.on c).localLen) workspace = .ok prepared) :
    prepared = preparedFor (plan.source.on c) (plan.destination.on c) (changedAxis plan)
        extraShape.elementCount mode ∧
      extraShape.elementCount * (plan.source.on c).localLen ≤ workspace.sendBuffer.length ∧
      extraShape.elementCount * (plan.destination.on c).localLen
        ≤ workspace.receiveBuffer.length := by
  have hworkspace : ∀ requirements, (plan.on c).workspaceRequirements extraShape
      = .ok requirements → requirements.sendLen ≤ workspace.sendBuffer.length ∧
        requirements.receiveLen ≤ workspace.receiveBuffer.length := by
    intro requirements hreq
    unfold TransposePlanCore.prepareCommon at h
    rw [hreq] at h
    simp only [bind, Except.bind] at h
    by_contra hsmall
    rw [if_pos (by omega)] at h
    contradiction
  rw [prepareCommon_eq plan c alloc hsource hdestination hworkspace] at h
  have hgrid : (plan.source.on c).topology.processGrid (changedAxis plan)
      = topology.processGrid (changedAxis plan) := by rw [processGrid_on]
  rcases prepareExchangeCounts_cases (change_on plan c) alloc mode extraShape.elementCount with
    ⟨_, herr⟩ | ⟨_, _, herr⟩ | ⟨hfit, _, hok⟩
  · rw [hgrid] at herr
    rw [herr] at h
    contradiction
  · rw [hgrid] at herr
    rw [herr] at h
    contradiction
  · rw [hgrid] at hok
    have hreq : (plan.on c).workspaceRequirements extraShape = .ok
        { sendLen := (plan.source.on c).localLen * extraShape.elementCount
          receiveLen := (plan.destination.on c).localLen * extraShape.elementCount } := by
      unfold TransposePlanCore.workspaceRequirements
      rw [peers_eq_planPeers, plan.mode_eq]
      exact workspaceRequirementsForPeers_eq (change_on plan c) hfit
    obtain ⟨hs, hr⟩ := hworkspace _ hreq
    simp only [Nat.mul_comm _ extraShape.elementCount] at hs hr
    exact ⟨(Except.ok.inj (hok.symm.trans h)).symm, hs, hr⟩

theorem prepareExecution_ok {c : Coords topology.processGrid} {alloc : Allocator}
    {workspace : TransposeWorkspace α} {prepared : PreparedExchange}
    (h : (plan.on c).prepareExecution alloc (source.on c) (destination.on c) workspace
      = .ok prepared) :
    prepared = preparedFor (plan.source.on c) (plan.destination.on c) (changedAxis plan)
        extraShape.elementCount mode ∧
      extraShape.elementCount * (plan.source.on c).localLen ≤ workspace.sendBuffer.length ∧
      extraShape.elementCount * (plan.destination.on c).localLen
        ≤ workspace.receiveBuffer.length := by
  rw [prepareExecution_eq] at h
  exact prepareCommon_ok plan (source_fits plan source c) (destination_fits plan destination c) h

omit source destination in
/-- Blocks whose length fits a C integer pass the preflight. -/
theorem prepareCommon_of_le (c : Coords topology.processGrid) {alloc : Allocator}
    {workspace : TransposeWorkspace α} (halloc : CountsGranted mode alloc)
    (hsource : extraShape.elementCount * (plan.source.on c).localLen ≤ countMax)
    (hdestination : extraShape.elementCount * (plan.destination.on c).localLen ≤ countMax)
    (hsend : extraShape.elementCount * (plan.source.on c).localLen ≤ workspace.sendBuffer.length)
    (hreceive : extraShape.elementCount * (plan.destination.on c).localLen
      ≤ workspace.receiveBuffer.length) :
    (plan.on c).prepareCommon alloc extraShape
        (extraShape.elementCount * (plan.source.on c).localLen)
        (extraShape.elementCount * (plan.destination.on c).localLen) workspace
      = .ok (preparedFor (plan.source.on c) (plan.destination.on c) (changedAxis plan)
          extraShape.elementCount mode) := by
  have hlimit : countMax < usizeLimit := by decide
  have hfit : ∀ peer ∈ planPeers (plan.source.on c) (plan.destination.on c) (changedAxis plan),
      CountsFit mode extraShape.elementCount peer := by
    intro peer hmem
    obtain ⟨k, hk, rfl⟩ := List.mem_map.mp hmem
    have hk := List.mem_range.mp hk
    have hs := Nat.mul_le_mul_left extraShape.elementCount ((change_on plan c).sendSize_le hk)
    have hr := Nat.mul_le_mul_left extraShape.elementCount ((change_on plan c).receiveSize_le hk)
    rw [Nat.mul_add] at hs hr
    constructor <;> simp only [peerAt, Nat.mul_comm _ extraShape.elementCount] <;> omega
  have hgrid : (plan.source.on c).topology.processGrid (changedAxis plan)
      = topology.processGrid (changedAxis plan) := by rw [processGrid_on]
  rw [prepareCommon_eq plan c alloc (hsource.trans_lt hlimit) (hdestination.trans_lt hlimit)]
  · rcases prepareExchangeCounts_cases (change_on plan c) alloc mode extraShape.elementCount with
      ⟨hnot, _⟩ | ⟨_, hrefused, _⟩ | ⟨_, _, hok⟩
    · exact absurd hfit hnot
    · exact absurd halloc hrefused
    · rwa [hgrid] at hok
  · intro requirements hreq
    unfold TransposePlanCore.workspaceRequirements at hreq
    rw [peers_eq_planPeers, plan.mode_eq,
      workspaceRequirementsForPeers_eq (change_on plan c) hfit] at hreq
    cases hreq
    simp only [Nat.mul_comm _ extraShape.elementCount]
    exact ⟨hsend, hreceive⟩

end Plan

/-- **Exchange counts are dual and the preflight is complete.**  For every plan and every
extra shape: the count a rank sends to a peer is the count the peer receives from it, both
in the peers and in the prepared counts; the segments tile the views in peer order; the
preflight fails on no rank with a structural error; and the counts of any batch are
rejected only where some value does not fit. -/
theorem exchange_counts_dual_and_preflight_complete (plan : DistributedPlan topology N mode)
    (extraShape : ExtraShape) (source : DistributedView plan.source extraShape α)
    (destination : DistributedView plan.destination extraShape α) :
    (∀ (c : Coords topology.processGrid) (k : Fin (topology.processGrid (changedAxis plan))),
      ∃ send receive,
        (plan.on c).peers[(k : ℕ)]? = some send ∧
        (plan.on (peerRankOf c _ k)).peers[(c (changedAxis plan) : ℕ)]? = some receive ∧
        send.peerRank = k ∧ receive.peerRank = c (changedAxis plan) ∧
        send.sendRegion = receive.receiveRegion ∧
        send.sendSpatialLen * extraShape.elementCount
          = receive.receiveSpatialLen * extraShape.elementCount) ∧
    (∀ (c : Coords topology.processGrid) (k : Fin (topology.processGrid (changedAxis plan)))
      (alloc alloc' : Allocator) (workspace workspace' : TransposeWorkspace α)
      (prepared prepared' : PreparedExchange),
      (plan.on c).prepareExecution alloc (source.on c) (destination.on c) workspace
        = .ok prepared →
      (plan.on (peerRankOf c _ k)).prepareExecution alloc' (source.on (peerRankOf c _ k))
        (destination.on (peerRankOf c _ k)) workspace' = .ok prepared' →
      ∃ count, prepared.sendCounts[(k : ℕ)]? = some count ∧
        prepared'.receiveCounts[(c (changedAxis plan) : ℕ)]? = some count) ∧
    (∀ c : Coords topology.processGrid,
      (plan.on c).peers.map PeerMetadata.peerRank
        = List.range (topology.processGrid (changedAxis plan)) ∧
      Tiles 0 ((plan.on c).peers.map fun peer =>
          (peer.sendSpatialDisplacement * extraShape.elementCount,
            peer.sendSpatialLen * extraShape.elementCount)) (source.on c).storage.length ∧
      Tiles 0 ((plan.on c).peers.map fun peer =>
          (peer.receiveSpatialDisplacement * extraShape.elementCount,
            peer.receiveSpatialLen * extraShape.elementCount))
        (destination.on c).storage.length) ∧
    (∀ (c : Coords topology.processGrid) (alloc : Allocator) (workspace : TransposeWorkspace α),
      (∀ requirements, (plan.on c).workspaceRequirements extraShape = .ok requirements →
        requirements.sendLen ≤ workspace.sendBuffer.length ∧
          requirements.receiveLen ≤ workspace.receiveBuffer.length) →
      ∀ error, (plan.on c).prepareExecution alloc (source.on c) (destination.on c) workspace
          = .error error →
        (error = .countOverflow ∧
          ∃ peer ∈ (plan.on c).peers, ExceedsCount mode extraShape.elementCount peer) ∨
        (error = .preparationFailed ∧ ¬ CountsGranted mode alloc)) ∧
    (∀ (c : Coords topology.processGrid) (alloc : Allocator) (batch : ℕ) (error : TransposeError),
      prepareExchangeCounts alloc (plan.on c).peers batch
          (topology.processGrid (changedAxis plan)) mode = .error error →
        (error = .countOverflow ∧ ∃ peer ∈ (plan.on c).peers, ¬ CountsFit mode batch peer) ∨
        (error = .preparationFailed ∧ ¬ CountsGranted mode alloc)) := by
  have hgrid : ∀ c, (plan.source.on c).topology.processGrid (changedAxis plan)
      = topology.processGrid (changedAxis plan) := fun c => by rw [processGrid_on]
  refine ⟨?_, ?_, ?_, ?_, ?_⟩
  · intro c k
    refine ⟨_, _, peer_on plan c k.isLt, peer_on plan _ (c _).isLt, rfl, rfl,
      sendRegion_dual plan c k, ?_⟩
    simp only [peerAt, sendRegion_dual plan c k]
  · intro c k alloc alloc' workspace workspace' prepared prepared' h h'
    obtain ⟨rfl, _⟩ := prepareExecution_ok plan source destination h
    obtain ⟨rfl, _⟩ := prepareExecution_ok plan source destination h'
    refine ⟨regionSize (sendRegion (plan.source.on c) (plan.destination.on c)
      (changedAxis plan) k) * extraShape.elementCount, ?_, ?_⟩
    · simp [preparedFor, hgrid, k.isLt]
    · simp [preparedFor, hgrid, (c (changedAxis plan)).isLt, sendRegion_dual plan c k]
  · intro c
    refine ⟨?_, ?_, ?_⟩
    · rw [peers_on, List.map_map]
      exact List.map_id _
    · rw [source_length plan source c, Nat.mul_comm]
      exact tiles_send plan c extraShape.elementCount
    · rw [destination_length plan destination c, Nat.mul_comm]
      exact tiles_receive plan c extraShape.elementCount
  · intro c alloc workspace hworkspace error herror
    rw [prepareExecution_eq, prepareCommon_eq plan c alloc (source_fits plan source c)
      (destination_fits plan destination c) hworkspace] at herror
    rcases prepareExchangeCounts_cases (change_on plan c) alloc mode extraShape.elementCount with
      ⟨hnot, herr⟩ | ⟨_, hrefused, herr⟩ | ⟨_, _, hok⟩
    · rw [hgrid, herror] at herr
      left
      refine ⟨Except.error.inj herr, ?_⟩
      push Not at hnot
      obtain ⟨peer, hmem, hnot⟩ := hnot
      obtain ⟨hs, hr⟩ := segment_ends plan c hmem (source_fits plan source c)
        (destination_fits plan destination c)
      exact ⟨peer, peers_eq_planPeers plan c ▸ hmem, exceedsCount_of_not_fit hs hr hnot⟩
    · rw [hgrid, herror] at herr
      exact Or.inr ⟨Except.error.inj herr, hrefused⟩
    · rw [hgrid, herror] at hok
      contradiction
  · intro c alloc batch error herror
    rw [peers_eq_planPeers] at herror
    rcases prepareExchangeCounts_cases (change_on plan c) alloc mode batch with
      ⟨hnot, herr⟩ | ⟨_, hrefused, herr⟩ | ⟨_, _, hok⟩
    · rw [hgrid, herror] at herr
      left
      refine ⟨Except.error.inj herr, ?_⟩
      push Not at hnot
      obtain ⟨peer, hmem, hnot⟩ := hnot
      exact ⟨peer, peers_eq_planPeers plan c ▸ hmem, hnot⟩
    · rw [hgrid, herror] at herr
      exact Or.inr ⟨Except.error.inj herr, hrefused⟩
    · rw [hgrid, herror] at hok
      contradiction

/-- Rows to columns on two ranks: what rank 0 sends to rank 1 is what rank 1 receives. -/
theorem exchange_counts_rows_to_columns :
    ∃ send receive : PeerMetadata 2,
      ((rowsToColumns .allToAllv).on twoRanks.here).peers[1]? = some send ∧
      ((rowsToColumns .allToAllv).on (peerRankOf twoRanks.here 0 ⟨1, by decide⟩)).peers[0]? = some receive ∧
      send.sendRegion = receive.receiveRegion ∧
      send.sendSpatialLen * ExtraShape.scalar.elementCount
        = receive.receiveSpatialLen * ExtraShape.scalar.elementCount := by
  obtain ⟨hdual, _⟩ := exchange_counts_dual_and_preflight_complete (rowsToColumns .allToAllv)
    ExtraShape.scalar numberedRows numberedColumns
  obtain ⟨send, receive, hs, hr, _, _, hregion, hlen⟩ := hdual twoRanks.here ⟨1, by decide⟩
  exact ⟨send, receive, hs, hr, hregion, hlen⟩

end PencilRs.Analysis
