import PencilRs.Analysis.Plan

/-!
# The preflight never fails structurally

For the peers planning computes, the checked arithmetic of the preflight fails only where a
count or a displacement leaves its machine type.  Everything else it checks holds of every
plan: indices and coordinates are in range, segments end inside the totals, the totals are
the view lengths and every region lies inside its storage.
-/

set_option autoImplicit false

namespace PencilRs.Analysis

open PencilRs.Computation PencilRs.Model

variable {N M : ℕ} {α : Type}

/-! ## Counts of one peer -/

/-- Every value the preflight derives from a peer fits its machine type. -/
structure CountsFit (mode : CommunicationMode) (batch : ℕ) (peer : PeerMetadata N) : Prop where
  send : peer.sendSpatialLen * batch ≤ countMax
  receive : peer.receiveSpatialLen * batch ≤ countMax
  sendDisplacement : mode = .allToAllv → peer.sendSpatialDisplacement * batch ≤ countMax
  receiveDisplacement : mode = .allToAllv → peer.receiveSpatialDisplacement * batch ≤ countMax
  sendEnd : peer.sendSpatialLen * batch + peer.sendSpatialDisplacement * batch < usizeLimit
  receiveEnd :
    peer.receiveSpatialLen * batch + peer.receiveSpatialDisplacement * batch < usizeLimit

theorem checkedCount_eq_ok {count displacement r : ℕ} {mode : CommunicationMode} :
    checkedCount count displacement mode = .ok r ↔
      count ≤ countMax ∧ (mode = .allToAllv → displacement ≤ countMax) ∧
        count + displacement < usizeLimit ∧ r = count := by
  unfold checkedCount
  rw [bind_eq_ok]
  cases mode with
  | allToAllv =>
    simp only [okOr_eq_ok, countTryFrom_eq_some, if_true, bind_eq_ok, checkedAdd_eq_some,
      pure, Except.pure, Except.ok.injEq, true_implies]
    constructor
    · rintro ⟨_, ⟨h1, rfl⟩, _, ⟨h2, _⟩, _, ⟨h3, _⟩, h4⟩
      exact ⟨h1, h2, h3, h4.symm⟩
    · rintro ⟨h1, h2, h3, rfl⟩
      exact ⟨_, ⟨h1, rfl⟩, _, ⟨h2, rfl⟩, _, ⟨h3, rfl⟩, rfl⟩
  | pointToPoint =>
    simp only [okOr_eq_ok, countTryFrom_eq_some, reduceCtorEq, if_false, bind_eq_ok,
      checkedAdd_eq_some, pure, Except.pure, Except.ok.injEq, false_implies, true_and]
    constructor
    · rintro ⟨_, ⟨h1, rfl⟩, _, ⟨h3, _⟩, h4⟩
      exact ⟨h1, h3, h4.symm⟩
    · rintro ⟨h1, h3, rfl⟩
      exact ⟨_, ⟨h1, rfl⟩, _, ⟨h3, rfl⟩, rfl⟩

theorem checkedCount_error {count displacement : ℕ} {mode : CommunicationMode}
    {e : TransposeError} (h : checkedCount count displacement mode = .error e) :
    e = .countOverflow := by
  unfold checkedCount at h
  cases mode with
  | allToAllv =>
    simp only [bind_eq_error, okOr_eq_error, if_true, pure, Except.pure, reduceCtorEq,
      and_false, exists_false, or_false] at h
    rcases h with h | ⟨_, _, h | ⟨_, _, h⟩⟩
    · exact h.2.symm
    · exact h.2.symm
    · exact h.2.symm
  | pointToPoint =>
    simp only [bind_eq_error, okOr_eq_error, reduceCtorEq, if_false, pure, Except.pure,
      and_false, exists_false, or_false] at h
    rcases h with h | ⟨_, _, h⟩
    · exact h.2.symm
    · exact h.2.symm

theorem peerCounts_eq_ok (peer : PeerMetadata N) (batch : ℕ) {r : ℕ × ℕ × ℕ × ℕ} :
    peerCounts peer batch = .ok r ↔
      peer.sendSpatialLen * batch < usizeLimit ∧ peer.receiveSpatialLen * batch < usizeLimit ∧
        peer.sendSpatialDisplacement * batch < usizeLimit ∧
        peer.receiveSpatialDisplacement * batch < usizeLimit ∧
        r = (peer.sendSpatialLen * batch, peer.receiveSpatialLen * batch,
          peer.sendSpatialDisplacement * batch, peer.receiveSpatialDisplacement * batch) := by
  unfold peerCounts
  simp only [bind_eq_ok, okOr_eq_ok, checkedMul_eq_some, pure, Except.pure, Except.ok.injEq]
  constructor
  · rintro ⟨_, ⟨h1, rfl⟩, _, ⟨h2, rfl⟩, _, ⟨h3, rfl⟩, _, ⟨h4, rfl⟩, h5⟩
    exact ⟨h1, h2, h3, h4, h5.symm⟩
  · rintro ⟨h1, h2, h3, h4, rfl⟩
    exact ⟨_, ⟨h1, rfl⟩, _, ⟨h2, rfl⟩, _, ⟨h3, rfl⟩, _, ⟨h4, rfl⟩, rfl⟩

theorem peerCounts_error {peer : PeerMetadata N} {batch : ℕ} {e : TransposeError}
    (h : peerCounts peer batch = .error e) : e = .countOverflow := by
  unfold peerCounts at h
  simp only [bind_eq_error, okOr_eq_error, pure, Except.pure, reduceCtorEq, and_false,
    exists_false, or_false] at h
  rcases h with h | ⟨_, _, h | ⟨_, _, h | ⟨_, _, h⟩⟩⟩
  · exact h.2.symm
  · exact h.2.symm
  · exact h.2.symm
  · exact h.2.symm

/-! ## Workspace requirements -/

theorem requirementsStep_eq_ok {batch : ℕ} {mode : CommunicationMode}
    {lens r : TransposeWorkspaceRequirements} {peer : PeerMetadata N} :
    requirementsStep batch mode lens peer = .ok r ↔
      CountsFit mode batch peer ∧
        lens.sendLen + peer.sendSpatialLen * batch < usizeLimit ∧
        lens.receiveLen + peer.receiveSpatialLen * batch < usizeLimit ∧
        r = ⟨lens.sendLen + peer.sendSpatialLen * batch,
          lens.receiveLen + peer.receiveSpatialLen * batch⟩ := by
  unfold requirementsStep
  simp only [bind_eq_ok, peerCounts_eq_ok]
  constructor
  · rintro ⟨_, ⟨h1, h2, h3, h4, rfl⟩, _, hs, _, hr, _, ha, _, hb, hret⟩
    obtain ⟨hs1, hs2, hs3, _⟩ := checkedCount_eq_ok.mp hs
    obtain ⟨hr1, hr2, hr3, _⟩ := checkedCount_eq_ok.mp hr
    obtain ⟨ha1, rfl⟩ := checkedAdd_eq_some.mp (okOr_eq_ok.mp ha)
    obtain ⟨hb1, rfl⟩ := checkedAdd_eq_some.mp (okOr_eq_ok.mp hb)
    exact ⟨⟨hs1, hr1, hs2, hr2, hs3, hr3⟩, ha1, hb1, (Except.ok.inj hret).symm⟩
  · rintro ⟨hfit, ha, hb, rfl⟩
    have hs := hfit.sendEnd
    have hr := hfit.receiveEnd
    refine ⟨_, ⟨by omega, by omega, by omega, by omega, rfl⟩, ?_⟩
    refine ⟨_, checkedCount_eq_ok.mpr ⟨hfit.send, hfit.sendDisplacement, hs, rfl⟩, ?_⟩
    refine ⟨_, checkedCount_eq_ok.mpr ⟨hfit.receive, hfit.receiveDisplacement, hr, rfl⟩, ?_⟩
    refine ⟨_, okOr_eq_ok.mpr (checkedAdd_eq_some.mpr ⟨ha, rfl⟩), ?_⟩
    exact ⟨_, okOr_eq_ok.mpr (checkedAdd_eq_some.mpr ⟨hb, rfl⟩), rfl⟩

theorem requirementsStep_error {batch : ℕ} {mode : CommunicationMode}
    {lens : TransposeWorkspaceRequirements} {peer : PeerMetadata N} {e : TransposeError}
    (h : requirementsStep batch mode lens peer = .error e) : e = .countOverflow := by
  unfold requirementsStep at h
  rcases bind_eq_error.mp h with h | ⟨⟨a, b, c, d⟩, _, h⟩
  · exact peerCounts_error h
  rcases bind_eq_error.mp h with h | ⟨_, _, h⟩
  · exact checkedCount_error h
  rcases bind_eq_error.mp h with h | ⟨_, _, h⟩
  · exact checkedCount_error h
  rcases bind_eq_error.mp h with h | ⟨_, _, h⟩
  · exact (okOr_eq_error.mp h).2.symm
  rcases bind_eq_error.mp h with h | ⟨_, _, h⟩
  · exact (okOr_eq_error.mp h).2.symm
  · contradiction

/-- The only error of the requirements is `CountOverflow`. -/
theorem workspaceRequirementsForPeers_error {peers : List (PeerMetadata N)} {batch : ℕ}
    {mode : CommunicationMode} {e : TransposeError}
    (h : workspaceRequirementsForPeers peers batch mode = .error e) : e = .countOverflow := by
  unfold workspaceRequirementsForPeers at h
  have hloop : ∀ (l : List (PeerMetadata N)) (lens : TransposeWorkspaceRequirements),
      l.foldlM (requirementsStep batch mode) lens = .error e → e = .countOverflow := by
    intro l
    induction l with
    | nil => exact fun lens h => by contradiction
    | cons peer l ih =>
      intro lens h
      rw [List.foldlM_cons] at h
      rcases bind_eq_error.mp h with h | ⟨lens', _, h⟩
      · exact requirementsStep_error h
      · exact ih lens' h
  exact hloop peers _ h

/-- Requirements that are returned mean every peer's values fit. -/
theorem workspaceRequirementsForPeers_fit {peers : List (PeerMetadata N)} {batch : ℕ}
    {mode : CommunicationMode} {r : TransposeWorkspaceRequirements}
    (h : workspaceRequirementsForPeers peers batch mode = .ok r) :
    ∀ peer ∈ peers, CountsFit mode batch peer := by
  unfold workspaceRequirementsForPeers at h
  have hloop : ∀ (l : List (PeerMetadata N)) (lens : TransposeWorkspaceRequirements),
      l.foldlM (requirementsStep batch mode) lens = .ok r →
        ∀ peer ∈ l, CountsFit mode batch peer := by
    intro l
    induction l with
    | nil => exact fun lens _ peer hp => by simp at hp
    | cons peer l ih =>
      intro lens h
      rw [List.foldlM_cons, bind_eq_ok] at h
      obtain ⟨lens', hstep, hrest⟩ := h
      intro x hx
      cases List.mem_cons.mp hx with
      | inl heq => exact heq ▸ (requirementsStep_eq_ok.mp hstep).1
      | inr hmem => exact ih lens' hrest x hmem
  exact hloop peers _ h

variable {p q : Pencil N M} {axis : Fin M}

/-- The peers of a plan with the layouts `p`, `q` changing `axis`. -/
abbrev planPeers (p q : Pencil N M) (axis : Fin M) : List (PeerMetadata N) :=
  (List.range (p.topology.processGrid axis)).map (peerAt p q axis)

theorem planPeers_fit {mode : CommunicationMode} {batch : ℕ}
    (h : ∀ peer ∈ planPeers p q axis, CountsFit mode batch peer) {k : ℕ}
    (hk : k < p.topology.processGrid axis) : CountsFit mode batch (peerAt p q axis k) :=
  h _ (List.mem_map.mpr ⟨k, List.mem_range.mpr hk, rfl⟩)

theorem workspaceRequirementsForPeers_eq (hchange : LayoutChange p q axis)
    {mode : CommunicationMode} {batch : ℕ}
    (hfit : ∀ peer ∈ planPeers p q axis, CountsFit mode batch peer) :
    workspaceRequirementsForPeers (planPeers p q axis) batch mode
      = .ok ⟨p.localLen * batch, q.localLen * batch⟩ := by
  unfold workspaceRequirementsForPeers
  obtain ⟨lens, hloop, rfl⟩ := foldlM_range_inv (m := Except TransposeError)
    (fun lens k => requirementsStep batch mode lens (peerAt p q axis k))
    (fun k lens => lens = ⟨sendCut p q axis k * batch, receiveCut p q axis k * batch⟩)
    (p.topology.processGrid axis) ⟨0, 0⟩ (by simp) (by
      rintro k hk _ rfl
      have hf := planPeers_fit hfit hk
      have hs : sendCut p q axis k * batch + (peerAt p q axis k).sendSpatialLen * batch
          = sendCut p q axis (k + 1) * batch := by
        rw [← sendCut_succ, Nat.add_mul]
        rfl
      have hr : receiveCut p q axis k * batch + (peerAt p q axis k).receiveSpatialLen * batch
          = receiveCut p q axis (k + 1) * batch := by
        rw [← receiveCut_succ, Nat.add_mul]
        rfl
      refine ⟨_, requirementsStep_eq_ok.mpr ⟨hf, ?_, ?_, rfl⟩, ?_⟩
      · have := hf.sendEnd
        rw [Nat.add_comm]
        exact this
      · have := hf.receiveEnd
        rw [Nat.add_comm]
        exact this
      · rw [hs, hr])
  rw [List.foldlM_map, hloop, hchange.sendCut_all, hchange.receiveCut_all]
  rfl

/-! ## Exchange counts -/

/-- What the preflight prepares for a plan. -/
def preparedFor (p q : Pencil N M) (axis : Fin M) (batch : ℕ) (mode : CommunicationMode) :
    PreparedExchange :=
  let n := p.topology.processGrid axis
  { requirements := ⟨p.localLen * batch, q.localLen * batch⟩
    sendCounts := (List.range n).map fun k => regionSize (sendRegion p q axis k) * batch
    sendDisplacements :=
      if mode = .allToAllv then (List.range n).map fun k => sendCut p q axis k * batch else []
    receiveCounts := (List.range n).map fun k => regionSize (receiveRegion p q axis k) * batch
    receiveDisplacements :=
      if mode = .allToAllv then (List.range n).map fun k => receiveCut p q axis k * batch
      else [] }

/-- The allocator grants the count and displacement vectors. -/
def CountsGranted (mode : CommunicationMode) (alloc : Allocator) : Prop :=
  alloc .sendCounts = true ∧ (mode = .allToAllv → alloc .sendDisplacements = true) ∧
    alloc .receiveCounts = true ∧ (mode = .allToAllv → alloc .receiveDisplacements = true)

theorem zeroedVec_granted {alloc : Allocator} {r : Reservation} (h : alloc r = true) (len : ℕ) :
    zeroedVec alloc r len = .ok (List.replicate len 0) := by
  simp [zeroedVec, tryReserve, h, bind, Except.bind, pure, Except.pure]

theorem zeroedVec_refused {alloc : Allocator} {r : Reservation} (h : ¬ alloc r = true)
    (len : ℕ) : zeroedVec alloc r len = .error .preparationFailed := by
  simp [zeroedVec, tryReserve, h, bind, Except.bind]

theorem checkedPartitionCount_eq {count displacement total : ℕ} {mode : CommunicationMode}
    (hcount : count ≤ countMax) (hdisp : mode = .allToAllv → displacement ≤ countMax)
    (hend : count + displacement < usizeLimit) (htotal : count + displacement ≤ total) :
    checkedPartitionCount count displacement total mode = .ok count := by
  have hadd : checkedAdd count displacement = some (count + displacement) :=
    checkedAdd_eq_some.mpr ⟨hend, rfl⟩
  have hchecked := checkedCount_eq_ok.mpr ⟨hcount, hdisp, hend, rfl⟩
  unfold checkedPartitionCount
  rw [hchecked, hadd]
  have hle : ¬ count + displacement > total := by omega
  simp [hle, bind, Except.bind, pure, Except.pure]

/-- The vectors after the peers before `k` have been entered. -/
def preparedUpTo (p q : Pencil N M) (axis : Fin M) (batch : ℕ) (mode : CommunicationMode)
    (k : ℕ) : PreparedExchange :=
  let n := p.topology.processGrid axis
  { requirements := ⟨p.localLen * batch, q.localLen * batch⟩
    sendCounts := Computation.filled n k 0 fun k => regionSize (sendRegion p q axis k) * batch
    sendDisplacements :=
      if mode = .allToAllv then Computation.filled n k 0 fun k => sendCut p q axis k * batch else []
    receiveCounts := Computation.filled n k 0 fun k => regionSize (receiveRegion p q axis k) * batch
    receiveDisplacements :=
      if mode = .allToAllv then Computation.filled n k 0 fun k => receiveCut p q axis k * batch
      else [] }

theorem exchangeStep_eq (hchange : LayoutChange p q axis) {mode : CommunicationMode}
    {batch k : ℕ} (hk : k < p.topology.processGrid axis)
    (hfit : CountsFit mode batch (peerAt p q axis k)) :
    exchangeStep batch (p.topology.processGrid axis) (p.topology.processGrid axis) mode
        (preparedUpTo p q axis batch mode k) (peerAt p q axis k)
      = .ok (preparedUpTo p q axis batch mode (k + 1)) := by
  have hs := hfit.sendEnd
  have hr := hfit.receiveEnd
  have hcounts := (peerCounts_eq_ok (peerAt p q axis k) batch).mpr
    ⟨by omega, by omega, by omega, by omega, rfl⟩
  have hsend : regionSize (sendRegion p q axis k) * batch + sendCut p q axis k * batch
      ≤ p.localLen * batch := by
    rw [← Nat.add_mul]
    have := hchange.sendSize_le hk
    exact Nat.mul_le_mul_right _ (by omega)
  have hreceive : regionSize (receiveRegion p q axis k) * batch
      + receiveCut p q axis k * batch ≤ q.localLen * batch := by
    rw [← Nat.add_mul]
    have := hchange.receiveSize_le hk
    exact Nat.mul_le_mul_right _ (by omega)
  have hpart := checkedPartitionCount_eq hfit.send hfit.sendDisplacement hs hsend
  have hpart' := checkedPartitionCount_eq hfit.receive hfit.receiveDisplacement hr hreceive
  have hindex : ¬ ((peerAt p q axis k).peerRank ≥ p.topology.processGrid axis ∨
      (peerAt p q axis k).peerCoordinate ≥ p.topology.processGrid axis) := by
    simp only [peerAt]
    omega
  unfold exchangeStep
  rw [if_neg hindex]
  simp only [hcounts, bind, Except.bind, pure, Except.pure]
  cases mode with
  | allToAllv =>
    have hd : countTryFrom (sendCut p q axis k * batch) = some (sendCut p q axis k * batch) :=
      countTryFrom_eq_some.mpr ⟨hfit.sendDisplacement rfl, rfl⟩
    have hd' : countTryFrom (receiveCut p q axis k * batch)
        = some (receiveCut p q axis k * batch) :=
      countTryFrom_eq_some.mpr ⟨hfit.receiveDisplacement rfl, rfl⟩
    simp only [preparedUpTo, if_true, peerAt] at hpart hpart' ⊢
    simp only [hpart, hpart', hd, hd', okOr_some, Except.map]
    rw [filled_set 0 (fun k => regionSize (sendRegion p q axis k) * batch) hk,
      filled_set 0 (fun k => sendCut p q axis k * batch) hk,
      filled_set 0 (fun k => regionSize (receiveRegion p q axis k) * batch) hk,
      filled_set 0 (fun k => receiveCut p q axis k * batch) hk]
  | pointToPoint =>
    simp only [preparedUpTo, reduceCtorEq, if_false, peerAt] at hpart hpart' ⊢
    simp only [hpart, hpart']
    rw [filled_set 0 (fun k => regionSize (sendRegion p q axis k) * batch) hk,
      filled_set 0 (fun k => regionSize (receiveRegion p q axis k) * batch) hk]

/-- The loop over peers fills the vectors. -/
theorem foldlM_exchangeStep (hchange : LayoutChange p q axis) {mode : CommunicationMode}
    {batch : ℕ} (hfit : ∀ peer ∈ planPeers p q axis, CountsFit mode batch peer) :
    (planPeers p q axis).foldlM (exchangeStep batch (p.topology.processGrid axis)
        (p.topology.processGrid axis) mode) (preparedUpTo p q axis batch mode 0)
      = .ok (preparedFor p q axis batch mode) := by
  obtain ⟨state, hloop, rfl⟩ := foldlM_range_inv (m := Except TransposeError)
    (fun state k => exchangeStep batch (p.topology.processGrid axis)
      (p.topology.processGrid axis) mode state (peerAt p q axis k))
    (fun k state => state = preparedUpTo p q axis batch mode k)
    (p.topology.processGrid axis) (preparedUpTo p q axis batch mode 0) rfl (by
      rintro k hk _ rfl
      exact ⟨_, exchangeStep_eq hchange hk (planPeers_fit hfit hk), rfl⟩)
  rw [List.foldlM_map, hloop]
  simp only [preparedUpTo, preparedFor, filled_all]
  rfl

/-- **The preflight of the counts**, exactly: overflow where a value does not fit, failed
preparation where an allocation is refused, the counts of the plan otherwise. -/
theorem prepareExchangeCounts_cases (hchange : LayoutChange p q axis) (alloc : Allocator)
    (mode : CommunicationMode) (batch : ℕ) :
    (¬ (∀ peer ∈ planPeers p q axis, CountsFit mode batch peer) ∧
      prepareExchangeCounts alloc (planPeers p q axis) batch (p.topology.processGrid axis) mode
        = .error .countOverflow) ∨
    ((∀ peer ∈ planPeers p q axis, CountsFit mode batch peer) ∧ ¬ CountsGranted mode alloc ∧
      prepareExchangeCounts alloc (planPeers p q axis) batch (p.topology.processGrid axis) mode
        = .error .preparationFailed) ∨
    ((∀ peer ∈ planPeers p q axis, CountsFit mode batch peer) ∧ CountsGranted mode alloc ∧
      prepareExchangeCounts alloc (planPeers p q axis) batch (p.topology.processGrid axis) mode
        = .ok (preparedFor p q axis batch mode)) := by
  by_cases hfit : ∀ peer ∈ planPeers p q axis, CountsFit mode batch peer
  · have hreq := workspaceRequirementsForPeers_eq hchange hfit
    have hlen : (planPeers p q axis).length = p.topology.processGrid axis := by simp
    have hrun := foldlM_exchangeStep hchange hfit
    right
    by_cases hgranted : CountsGranted mode alloc
    · right
      refine ⟨hfit, hgranted, ?_⟩
      obtain ⟨h1, h2, h3, h4⟩ := hgranted
      unfold prepareExchangeCounts
      rw [hreq]
      simp only [bind, Except.bind, hlen, zeroedVec_granted h1, zeroedVec_granted h3]
      cases mode with
      | allToAllv =>
        simp only [if_true, zeroedVec_granted (h2 rfl), zeroedVec_granted (h4 rfl)]
        simpa only [preparedUpTo, filled_zero, if_true] using hrun
      | pointToPoint =>
        simp only [reduceCtorEq, if_false]
        simpa only [preparedUpTo, filled_zero, reduceCtorEq, if_false] using hrun
    · left
      refine ⟨hfit, hgranted, ?_⟩
      unfold prepareExchangeCounts
      rw [hreq]
      simp only [bind, Except.bind, hlen]
      by_cases h1 : alloc .sendCounts = true
      · rw [zeroedVec_granted h1]
        by_cases h2 : mode = .allToAllv → alloc .sendDisplacements = true
        · by_cases h3 : alloc .receiveCounts = true
          · have h4 : ¬ (mode = .allToAllv → alloc .receiveDisplacements = true) :=
              fun h4 => hgranted ⟨h1, h2, h3, h4⟩
            obtain ⟨rfl, hrefused⟩ := Classical.not_imp.mp h4
            simp only [if_true, zeroedVec_granted (h2 rfl), zeroedVec_granted h3,
              zeroedVec_refused hrefused]
          · cases mode with
            | allToAllv =>
              simp only [if_true, zeroedVec_granted (h2 rfl), zeroedVec_refused h3]
            | pointToPoint => simp only [reduceCtorEq, if_false, zeroedVec_refused h3]
        · obtain ⟨rfl, hrefused⟩ := Classical.not_imp.mp h2
          simp only [if_true, zeroedVec_refused hrefused]
      · rw [zeroedVec_refused h1]
  · left
    refine ⟨hfit, ?_⟩
    cases hreq : workspaceRequirementsForPeers (planPeers p q axis) batch mode with
    | ok r => exact absurd (workspaceRequirementsForPeers_fit hreq) hfit
    | error e =>
      have he := workspaceRequirementsForPeers_error hreq
      subst he
      unfold prepareExchangeCounts
      rw [hreq]
      rfl

/-! ## Totals and region offsets -/

/-- The checked total of counts that add up to a machine integer. -/
theorem countTotal_eq {counts : List ℕ} (h : counts.sum < usizeLimit) :
    countTotal counts = .ok counts.sum := by
  have hloop : ∀ (l : List ℕ) (total : ℕ), total + l.sum < usizeLimit →
      l.foldlM (fun total count => okOr (checkedAdd total count)
        TransposeError.preparationFailed) total = .ok (total + l.sum) := by
    intro l
    induction l with
    | nil => exact fun total _ => rfl
    | cons count l ih =>
      intro total hlt
      rw [List.sum_cons] at hlt ⊢
      have hadd : checkedAdd total count = some (total + count) :=
        checkedAdd_eq_some.mpr ⟨by omega, rfl⟩
      rw [List.foldlM_cons, hadd, ← Nat.add_assoc]
      exact ih (total + count) (by omega)
  unfold countTotal
  rw [hloop counts 0 (by omega), Nat.zero_add]

theorem sum_sendCounts (p q : Pencil N M) (axis : Fin M) (batch n : ℕ) :
    ((List.range n).map fun k => regionSize (sendRegion p q axis k) * batch).sum
      = sendCut p q axis n * batch := by
  induction n with
  | zero => simp
  | succ n ih =>
    rw [List.range_succ, List.map_append, List.sum_append, ih, ← sendCut_succ, Nat.add_mul]
    simp

theorem sum_receiveCounts (p q : Pencil N M) (axis : Fin M) (batch n : ℕ) :
    ((List.range n).map fun k => regionSize (receiveRegion p q axis k) * batch).sum
      = receiveCut p q axis n * batch := by
  induction n with
  | zero => simp
  | succ n ih =>
    rw [List.range_succ, List.map_append, List.sum_append, ih, ← receiveCut_succ, Nat.add_mul]
    simp

theorem lastLocal_eq {p : Pencil N M} {region : Fin N → Range} (h : InsideBlock p region) :
    lastLocal p.localRanges region
      = .ok fun axis => regionLead p region axis + (regionExtent region axis - 1) := by
  have hloop : ∀ (l : List (Fin N)) (last : Fin N → ℕ),
      l.foldlM (fun last axis =>
        if (region axis).start < (p.localRanges axis).start ∨
            (region axis).stop > (p.localRanges axis).stop then
          (.error .preparationFailed : Except TransposeError (Fin N → ℕ))
        else
          (okOr ((checkedSub (region axis).stop 1).bind fun stop =>
            checkedSub stop (p.localRanges axis).start) .preparationFailed).map
              (Function.update last axis)) last
        = .ok (l.foldl (fun t axis => Function.update t (id axis)
            (regionLead p region axis + (regionExtent region axis - 1))) last) := by
    intro l
    induction l with
    | nil => exact fun last => rfl
    | cons axis l ih =>
      intro last
      have hl := h.lower axis
      have hu := h.upper axis
      have hn := h.nonempty axis
      have hin : ¬ ((region axis).start < (p.localRanges axis).start ∨
          (region axis).stop > (p.localRanges axis).stop) := by omega
      have hone : checkedSub (region axis).stop 1 = some ((region axis).stop - 1) :=
        checkedSub_eq_some.mpr ⟨by omega, rfl⟩
      have htwo : checkedSub ((region axis).stop - 1) (p.localRanges axis).start
          = some (regionLead p region axis + (regionExtent region axis - 1)) := by
        rw [checkedSub_eq_some]
        simp only [regionLead, regionExtent, Range.len]
        omega
      rw [List.foldlM_cons, if_neg hin, hone, Option.bind_some, htwo, List.foldl_cons]
      exact ih _
  unfold lastLocal
  rw [hloop]
  congr 1
  funext axis
  exact foldl_update_of_mem Function.injective_id
    (fun axis => regionLead p region axis + (regionExtent region axis - 1)) _ _
    (List.mem_finRange axis)

theorem rowMajorOffset_memory {p : Pencil N M} {x : Fin N → ℕ} (hx : ValidLocal p x) :
    rowMajorOffset (List.ofFn p.localShapeMemory) (List.ofFn (p.permutation.permute x))
      = .ok (layoutOffset p x) := by
  have hzip : (List.ofFn p.localShapeMemory).zip (List.ofFn (p.permutation.permute x))
      = (List.finRange N).map fun position =>
          (p.localShapeMemory position, p.permutation.permute x position) := by
    rw [List.ofFn_eq_map, List.ofFn_eq_map, List.zip_map']
  rw [rowMajorOffset_of_lt (by simp) ?_ ?_, rowMajorValue, hzip, ← List.map_reverse,
    MixedRadix.value_map]
  · rfl
  · rw [hzip]
    intro y hy
    obtain ⟨position, _, rfl⟩ := List.mem_map.mp hy
    exact validLocal_memory hx position (mem_axesFastestFirst position)
  · have := localLen_lt p
    rw [List.prod_ofFn, prod_localShapeMemory]
    omega

/-- A region that lies inside its block, or is empty, passes the offset check. -/
theorem validateRegionOffsets_ok {p : Pencil N M} (region : Fin N → Range) {extraCount : ℕ}
    (hordered : ∀ axis, (region axis).start ≤ (region axis).stop)
    (hsize : regionSize region < usizeLimit)
    (hin : 0 < regionSize region → InsideBlock p region)
    (hstore : extraCount * p.localLen < usizeLimit) :
    validateRegionOffsets p.localRanges p.localShapeMemory p.permutation p.localLen
      (extraCount * p.localLen) region extraCount = .ok () := by
  unfold validateRegionOffsets
  by_cases hextra : extraCount = 0
  · simp [hextra, pure, Except.pure]
  rw [if_neg hextra, regionSpatialLen_eq hordered hsize]
  simp only [bind, Except.bind]
  by_cases hzero : regionSize region = 0
  · simp [hzero, pure, Except.pure]
  have h := hin (by omega)
  have hvalid : ValidLocal p fun axis =>
      regionLead p region axis + (regionExtent region axis - 1) :=
    h.validLocal_add fun axis => by
      have := h.extent_pos axis
      omega
  have hlt := layoutOffset_lt hvalid
  have hsplit : extraCount * p.localLen = (extraCount - 1) * p.localLen + p.localLen := by
    rw [← Nat.succ_mul, Nat.succ_eq_add_one, Nat.sub_add_cancel (by omega)]
  have hmul : checkedMul (extraCount - 1) p.localLen = some ((extraCount - 1) * p.localLen) :=
    checkedMul_eq_some.mpr ⟨by omega, rfl⟩
  have hadd : checkedAdd ((extraCount - 1) * p.localLen)
      (layoutOffset p fun axis => regionLead p region axis + (regionExtent region axis - 1))
      = some ((extraCount - 1) * p.localLen
          + layoutOffset p fun axis => regionLead p region axis + (regionExtent region axis - 1)) :=
    checkedAdd_eq_some.mpr ⟨by omega, rfl⟩
  rw [if_neg hzero, lastLocal_eq h]
  simp only
  rw [rowMajorOffset_memory hvalid]
  simp only [Except.mapError, hmul, Option.bind_some, hadd, okOr_some]
  rw [if_neg (by omega)]
  rfl

/-- The offset checks of every peer pass. -/
theorem peerOffsetsStep_ok (hchange : LayoutChange p q axis) {extraCount k : ℕ}
    (hk : k < p.topology.processGrid axis) (hsource : extraCount * p.localLen < usizeLimit)
    (hdest : extraCount * q.localLen < usizeLimit) :
    peerOffsetsStep p q (extraCount * p.localLen) (extraCount * q.localLen) extraCount
      (peerAt p q axis k) = .ok () := by
  have hs := hchange.sendSize_le hk
  have hr := hchange.receiveSize_le hk
  have hp := localLen_lt p
  have hq := localLen_lt q
  have hsend := validateRegionOffsets_ok (p := p) (sendRegion p q axis k)
    (fun a => (hchange.sendRegion_bounds hk a).2.2) (by omega)
    (insideBlock_of_pos fun a => ⟨(hchange.sendRegion_bounds hk a).1,
      (hchange.sendRegion_bounds hk a).2.1⟩) hsource
  have hreceive := validateRegionOffsets_ok (p := q) (receiveRegion p q axis k)
    (fun a => (hchange.receiveRegion_bounds hk a).2.2) (by omega)
    (insideBlock_of_pos fun a => ⟨(hchange.receiveRegion_bounds hk a).1,
      (hchange.receiveRegion_bounds hk a).2.1⟩) hdest
  unfold peerOffsetsStep
  simp only [peerAt, hchange.regionSpatialLen_send hk, hchange.regionSpatialLen_receive hk,
    bind, Except.bind, ne_eq, not_true_eq_false, or_self, if_false, hsend, hreceive]

/-! ## The whole preflight -/

theorem prepareCommon_eq_of_counts (plan : TransposePlanCore N M) (alloc : Allocator)
    (extraShape : ExtraShape) (workspace : TransposeWorkspace α)
    (hsource : extraShape.elementCount * plan.source.localLen < usizeLimit)
    (hdest : extraShape.elementCount * plan.destination.localLen < usizeLimit)
    (hworkspace : ∀ requirements, plan.workspaceRequirements extraShape = .ok requirements →
      requirements.sendLen ≤ workspace.sendBuffer.length ∧
        requirements.receiveLen ≤ workspace.receiveBuffer.length) :
    plan.prepareCommon alloc extraShape (extraShape.elementCount * plan.source.localLen)
        (extraShape.elementCount * plan.destination.localLen) workspace
      = prepareExchangeCounts alloc plan.peers extraShape.elementCount
          (plan.source.topology.processGrid plan.changedTopologyAxis) plan.mode := by
  have hchange := plan_change plan
  have hpeers := plan_peers plan
  unfold TransposePlanCore.prepareCommon
  cases hreq : plan.workspaceRequirements extraShape with
  | error e =>
    have hreq' : workspaceRequirementsForPeers plan.peers extraShape.elementCount plan.mode
        = .error e := hreq
    unfold prepareExchangeCounts
    rw [hreq']
    rfl
  | ok requirements =>
    obtain ⟨hsend, hreceive⟩ := hworkspace requirements hreq
    have hreq' : workspaceRequirementsForPeers plan.peers extraShape.elementCount plan.mode
        = .ok requirements := hreq
    have hfit := workspaceRequirementsForPeers_fit hreq'
    rw [hpeers] at hfit hreq' ⊢
    have hexact := workspaceRequirementsForPeers_eq hchange hfit
    have hvalue : requirements = ⟨plan.source.localLen * extraShape.elementCount,
        plan.destination.localLen * extraShape.elementCount⟩ :=
      Except.ok.inj (hreq'.symm.trans hexact)
    subst hvalue
    simp only [bind, Except.bind]
    rw [if_neg (by simp only at hsend hreceive ⊢; omega)]
    rcases prepareExchangeCounts_cases hchange alloc plan.mode extraShape.elementCount with
      ⟨_, herr⟩ | ⟨_, _, herr⟩ | ⟨_, _, hok⟩
    · rw [herr]
    · rw [herr]
    · rw [hok]
      have hsendTotal : countTotal (preparedFor plan.source plan.destination
          plan.changedTopologyAxis extraShape.elementCount plan.mode).sendCounts
            = .ok (extraShape.elementCount * plan.source.localLen) := by
        have hsum := sum_sendCounts plan.source plan.destination plan.changedTopologyAxis
          extraShape.elementCount (plan.source.topology.processGrid plan.changedTopologyAxis)
        rw [hchange.sendCut_all, Nat.mul_comm] at hsum
        simp only [preparedFor]
        rw [countTotal_eq (by rw [hsum]; exact hsource), hsum]
      have hreceiveTotal : countTotal (preparedFor plan.source plan.destination
          plan.changedTopologyAxis extraShape.elementCount plan.mode).receiveCounts
            = .ok (extraShape.elementCount * plan.destination.localLen) := by
        have hsum := sum_receiveCounts plan.source plan.destination plan.changedTopologyAxis
          extraShape.elementCount (plan.source.topology.processGrid plan.changedTopologyAxis)
        rw [hchange.receiveCut_all, Nat.mul_comm] at hsum
        simp only [preparedFor]
        rw [countTotal_eq (by rw [hsum]; exact hdest), hsum]
      obtain ⟨_, hloop, _⟩ := foldlM_list_inv (m := Except TransposeError)
        (fun _ peer => peerOffsetsStep plan.source plan.destination
          (extraShape.elementCount * plan.source.localLen)
          (extraShape.elementCount * plan.destination.localLen) extraShape.elementCount peer)
        (fun _ _ => True)
        ((List.range (plan.source.topology.processGrid plan.changedTopologyAxis)).map
          (peerAt plan.source plan.destination plan.changedTopologyAxis)) () trivial (by
          intro done peer hdone _ _
          have hmem := hdone.subset (List.mem_append_right done (List.mem_singleton_self peer))
          obtain ⟨k, hk, rfl⟩ := List.mem_map.mp hmem
          exact ⟨(), peerOffsetsStep_ok hchange (List.mem_range.mp hk) hsource hdest, trivial⟩)
      simp only
      rw [if_neg (by rw [Nat.mul_comm, Nat.mul_comm plan.destination.localLen]; simp),
        hsendTotal]
      simp only [ne_eq, not_true_eq_false, if_false]
      rw [hreceiveTotal]
      simp only [not_true_eq_false, if_false]
      rw [hloop]
      rfl

end PencilRs.Analysis
