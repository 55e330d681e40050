import PencilRs.Analysis.Preflight

/-!
# Distributed plans

The ranks of a plan change the same topology position, and the region a rank sends to a
peer is the region the peer receives from it: both are the meet of the sender's source
block and the receiver's destination block.
-/

set_option autoImplicit false

namespace PencilRs.Analysis

open PencilRs.Computation PencilRs.Model

variable {N M : ℕ}

/-! ## Building distributions -/

/-- One configuration on every rank of a topology. -/
def distribute (topology : MpiTopology M) (globalShape : Fin N → ℕ)
    (decomposition : Decomposition N M) (permutation : AxisPermutation N)
    (hpos : ∀ axis, 0 < globalShape axis) (hfit : ∏ axis, globalShape axis < usizeLimit) :
    DistributedPencil topology N where
  on := fun c =>
    buildPencil (topology.atCoords c) globalShape decomposition permutation hpos hfit
  topology_eq := fun _ => rfl
  globalShape_eq := fun _ _ => rfl
  decomposition_eq := fun _ _ => rfl
  permutation_eq := fun _ _ => rfl

variable {topology : MpiTopology M} {mode : CommunicationMode}

/-- The plans of layouts that the layout check accepts on every rank. -/
def distributePlan (source destination : DistributedPencil topology N)
    (mode : CommunicationMode) (axis : Coords topology.processGrid → Fin M)
    (h : ∀ c, validatePlanLayout (source.on c) (destination.on c) = .ok (axis c)) :
    DistributedPlan topology N mode where
  source := source
  destination := destination
  on := fun c => {
    source := source.on c
    destination := destination.on c
    changedTopologyAxis := axis c
    peers := planPeers (source.on c) (destination.on c) (axis c)
    mode := mode
    layout_ok := h c
    peers_ok := ⟨fun _ => true, (validatePlanLayout_ok (h c)).buildPeerMetadata_eq rfl⟩ }
  source_eq := fun _ => rfl
  destination_eq := fun _ => rfl
  mode_eq := fun _ => rfl

/-! ## Distributed pencils -/


section Pencils

variable (p : DistributedPencil topology N)

theorem processGrid_on (c : Coords topology.processGrid) :
    (p.on c).topology.processGrid = topology.processGrid := by
  rw [p.topology_eq]
  rfl

theorem localCoords_on (c : Coords topology.processGrid) :
    (p.on c).topology.localCoords = fun t => (c t : ℕ) := by
  rw [p.topology_eq]
  rfl

theorem localRanges_on (c d : Coords topology.processGrid) :
    (p.on c).localRanges = ownedRanges (p.on d).globalShape topology.processGrid
      (fun t => c t) (p.on d).decomposition.axes := by
  rw [localRanges_eq, p.globalShape_eq c d, p.decomposition_eq c d, p.topology_eq]
  rfl

end Pencils

/-! ## Distributed plans -/

section Plans

variable (plan : DistributedPlan topology N mode)

theorem layoutChange_on (c : Coords topology.processGrid) :
    LayoutChange (plan.source.on c) (plan.destination.on c)
      (plan.on c).changedTopologyAxis := by
  have := plan_change (plan.on c)
  rwa [plan.source_eq, plan.destination_eq] at this

/-- The topology position the plan changes. -/
def changedAxis : Fin M := (plan.on topology.here).changedTopologyAxis

theorem changedAxis_on (c : Coords topology.processGrid) :
    (plan.on c).changedTopologyAxis = changedAxis plan := by
  have hc := layoutChange_on plan c
  have hd := layoutChange_on plan topology.here
  by_contra hne
  apply hc.changed
  rw [plan.source.decomposition_eq c topology.here,
    plan.destination.decomposition_eq c topology.here]
  exact hd.kept _ hne

theorem change_on (c : Coords topology.processGrid) :
    LayoutChange (plan.source.on c) (plan.destination.on c) (changedAxis plan) :=
  changedAxis_on plan c ▸ layoutChange_on plan c

theorem peers_on (c : Coords topology.processGrid) :
    (plan.on c).peers
      = (List.range (topology.processGrid (changedAxis plan))).map
          (peerAt (plan.source.on c) (plan.destination.on c) (changedAxis plan)) := by
  rw [plan_peers, plan.source_eq, plan.destination_eq, changedAxis_on, processGrid_on]

theorem peer_on (c : Coords topology.processGrid) {k : ℕ}
    (hk : k < topology.processGrid (changedAxis plan)) :
    (plan.on c).peers[k]?
      = some (peerAt (plan.source.on c) (plan.destination.on c) (changedAxis plan) k) := by
  rw [peers_on]
  simp [hk]

theorem coe_peerRankOf (c : Coords topology.processGrid) (axis : Fin M)
    (k : Fin (topology.processGrid axis)) :
    (fun t => ((peerRankOf c axis k t : Fin _) : ℕ))
      = Function.update (fun t => (c t : ℕ)) axis k := by
  funext t
  by_cases ht : t = axis
  · subst ht
    simp
  · simp [Function.update_of_ne ht]

theorem coe_peerRankOf_self (c : Coords topology.processGrid) (axis : Fin M)
    (k : Fin (topology.processGrid axis)) :
    Function.update (fun t => ((peerRankOf c axis k t : Fin _) : ℕ)) axis (c axis)
      = fun t => (c t : ℕ) := by
  rw [coe_peerRankOf, Function.update_idem, Function.update_eq_self]

/-- **Duality of the regions.**  What a rank sends to the peer at coordinate `k` is what
that peer receives from it. -/
theorem sendRegion_dual (c : Coords topology.processGrid)
    (k : Fin (topology.processGrid (changedAxis plan))) :
    sendRegion (plan.source.on c) (plan.destination.on c) (changedAxis plan) k
      = receiveRegion (plan.source.on (peerRankOf c _ k)) (plan.destination.on (peerRankOf c _ k))
          (changedAxis plan) (c (changedAxis plan)) := by
  have hk : (k : ℕ) < (plan.source.on c).topology.processGrid (changedAxis plan) := by
    rw [processGrid_on]
    exact k.isLt
  have hc : (c (changedAxis plan) : ℕ)
      < (plan.source.on (peerRankOf c _ k)).topology.processGrid (changedAxis plan) := by
    rw [processGrid_on]
    exact (c (changedAxis plan)).isLt
  rw [← (change_on plan c).intersect_send hk,
    ← (change_on plan (peerRankOf c _ k)).intersect_receive hc, localCoords_on, localCoords_on,
    coe_peerRankOf_self, localRanges_on plan.source c (peerRankOf c _ k),
    localRanges_on plan.destination (peerRankOf c _ k) c, processGrid_on, processGrid_on,
    coe_peerRankOf]

end Plans

/-! ## Two ranks -/

/-- Two ranks in a row. -/
def twoRanks : MpiTopology 1 where
  handle := 0
  processGrid := ![2]
  localCoords := ![0]
  extents_pos := by decide
  coords_lt := by decide
  size_le := by decide

/-- Three rows of two, cut along one axis. -/
def threeByTwo (axis : Fin 2) (permutation : AxisPermutation 2) :
    DistributedPencil twoRanks 2 :=
  distribute twoRanks ![3, 2] ⟨![axis], fun a b _ => Subsingleton.elim a b, by decide⟩
    permutation (by decide) (by decide)

def swapAxes : AxisPermutation 2 where
  axesInMemoryOrder := ![1, 0]
  logicalToMemory := ![1, 0]
  inverse := by decide

/-- Rows to columns; the destination stores columns first. -/
def rowsToColumns (mode : CommunicationMode) : DistributedPlan twoRanks 2 mode :=
  distributePlan (threeByTwo 0 AxisPermutation.identity) (threeByTwo 1 swapAxes) mode
    (fun _ => 0) fun _ => LayoutChange.validatePlanLayout_eq {
      topology := rfl
      globalShape := rfl
      changed := Fin.zero_ne_one
      kept := fun t hne => absurd (Subsingleton.elim t 0) hne }

/-- Views whose storage numbers its own positions. -/
def numberedView {topology : MpiTopology M} (pencil : DistributedPencil topology N)
    (extraShape : ExtraShape)
    (hfit : ∀ c, extraShape.elementCount * (pencil.on c).localLen < usizeLimit) :
    DistributedView pencil extraShape ℕ where
  on := fun c => {
    pencil := pencil.on c
    extraShape := extraShape
    storage := List.range (extraShape.elementCount * (pencil.on c).localLen)
    storageLen_ok := validateStorageLen_of_length (by simp) (by simpa using hfit c) }
  pencil_eq := fun _ => rfl
  extraShape_eq := fun _ => rfl

def zeroWorkspace (len : ℕ) : TransposeWorkspace ℕ :=
  ⟨List.replicate len 0, List.replicate len 0⟩

theorem threeByTwo_le (axis : Fin 2) (permutation : AxisPermutation 2)
    (c : Coords twoRanks.processGrid) :
    ExtraShape.scalar.elementCount * ((threeByTwo axis permutation).on c).localLen ≤ 6 := by
  have hlen : ((threeByTwo axis permutation).on c).localLen
      = ((threeByTwo axis AxisPermutation.identity).on c).localLen := rfl
  rw [hlen]
  clear hlen
  revert axis c
  decide

theorem threeByTwo_fits (axis : Fin 2) (permutation : AxisPermutation 2)
    (c : Coords twoRanks.processGrid) :
    ExtraShape.scalar.elementCount * ((threeByTwo axis permutation).on c).localLen
      < usizeLimit :=
  (threeByTwo_le axis permutation c).trans_lt (by decide)

/-- The source of the two ranks, numbered. -/
def numberedRows : DistributedView (threeByTwo 0 AxisPermutation.identity) ExtraShape.scalar ℕ :=
  numberedView _ _ (threeByTwo_fits 0 _)

def numberedColumns : DistributedView (threeByTwo 1 swapAxes) ExtraShape.scalar ℕ :=
  numberedView _ _ (threeByTwo_fits 1 _)

end PencilRs.Analysis
