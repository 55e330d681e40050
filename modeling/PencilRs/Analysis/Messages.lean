import PencilRs.Analysis.Alltoallv

/-!
# The messages of the point-to-point transport

Both sides split their buffers by the peers' counts, so the requests of all ranks pair up:
each receive has one send of the same length.  In whatever order the messages are
delivered, every rank ends with the elements its peers packed for it.
-/

set_option autoImplicit false

namespace PencilRs.Analysis

open PencilRs.Computation PencilRs.Model

variable {N M : ℕ} {α : Type} {topology : MpiTopology M}

/-! ## Segments -/

/-- The segments of `n` peers with cuts `cut`, without the empty and the skipped ones. -/
def segmentsUpTo (size cut : ℕ → ℕ) (skip : Option ℕ) (E n : ℕ) : List (ℕ × ℕ × ℕ) :=
  (List.range n).filterMap fun k =>
    if size k * E = 0 ∨ skip = some k then none else some (k, cut k * E, size k * E)

theorem mem_segmentsUpTo {size cut : ℕ → ℕ} {skip : Option ℕ} {E n : ℕ} {s : ℕ × ℕ × ℕ} :
    s ∈ segmentsUpTo size cut skip E n ↔ ∃ k < n, size k * E ≠ 0 ∧ skip ≠ some (k : ℕ) ∧
      s = (k, cut k * E, size k * E) := by
  simp only [segmentsUpTo, List.mem_filterMap, List.mem_range]
  constructor
  · rintro ⟨k, hk, heq⟩
    split at heq
    · contradiction
    · rename_i hnot
      rw [not_or] at hnot
      exact ⟨k, hk, hnot.1, hnot.2, (Option.some.inj heq).symm⟩
  · rintro ⟨k, hk, hsize, hskip, rfl⟩
    exact ⟨k, hk, by rw [if_neg (by simp [hsize, hskip])]⟩

theorem nodup_segmentsUpTo (size cut : ℕ → ℕ) (skip : Option ℕ) (E n : ℕ) :
    ((segmentsUpTo size cut skip E n).map Prod.fst).Nodup := by
  have hsub : ((segmentsUpTo size cut skip E n).map Prod.fst).Sublist (List.range n) := by
    rw [segmentsUpTo, List.map_filterMap]
    have hfilter : (List.range n).filterMap (fun k =>
        ((if size k * E = 0 ∨ skip = some k then none
          else some (k, cut k * E, size k * E) : Option (ℕ × ℕ × ℕ))).map Prod.fst)
        = (List.range n).filter fun k => ¬ (size k * E = 0 ∨ skip = some k) := by
      rw [← List.filterMap_eq_filter]
      apply List.filterMap_congr
      intro k _
      by_cases h : size k * E = 0 ∨ skip = some k
      · rw [if_pos h]
        simp only [Option.map_none, Option.guard, h, not_true_eq_false, decide_false,
          Bool.false_eq_true, if_false]
      · rw [if_neg h]
        simp only [Option.map_some, Option.guard, h, not_false_eq_true, decide_true, if_true]
    rw [hfilter]
    exact List.filter_sublist
  exact List.nodup_range.sublist hsub

theorem splitSegments_eq (spatialLen : PeerMetadata N → ℕ) (peer : ℕ → PeerMetadata N)
    (cut : ℕ → ℕ) {n total E : ℕ} (skip : Option ℕ) (hrank : ∀ k, (peer k).peerRank = k)
    (hcoordinate : ∀ k, (peer k).peerCoordinate = k) (hzero : cut 0 = 0)
    (hsucc : ∀ k, cut k + spatialLen (peer k) = cut (k + 1)) (htotal : cut n * E ≤ total)
    (hfit : total < usizeLimit) :
    splitSegments spatialLen ((List.range n).map peer) skip total E
      = some (segmentsUpTo (fun k => spatialLen (peer k)) cut skip E n) := by
  have hmono : Monotone cut := monotone_nat_of_le_succ fun k => by
    rw [← hsucc]
    exact Nat.le_add_right _ _
  have hloop : ∀ m ≤ n, ((List.range m).map peer).foldlM
      (fun (state : List (ℕ × ℕ × ℕ) × ℕ) peer => do
        let count ← checkedMul (spatialLen peer) E
        if count = 0 then some state
        else if state.2 + count > total then none
        else if skip = some peer.peerCoordinate then some (state.1, state.2 + count)
        else some (state.1 ++ [(peer.peerRank, state.2, count)], state.2 + count))
      (([] : List (ℕ × ℕ × ℕ)), 0)
        = some (segmentsUpTo (fun k => spatialLen (peer k)) cut skip E m, cut m * E) := by
    intro m
    induction m with
    | zero =>
      intro _
      simp [segmentsUpTo, hzero]
    | succ m ih =>
      intro hm
      have hle : cut (m + 1) * E ≤ total :=
        (Nat.mul_le_mul_right E (hmono hm)).trans htotal
      have hnext : cut m * E + spatialLen (peer m) * E = cut (m + 1) * E := by
        rw [← Nat.add_mul, hsucc]
      have hmul : checkedMul (spatialLen (peer m)) E = some (spatialLen (peer m) * E) :=
        checkedMul_eq_some.mpr ⟨by omega, rfl⟩
      have hgrow : segmentsUpTo (fun k => spatialLen (peer k)) cut skip E (m + 1)
          = segmentsUpTo (fun k => spatialLen (peer k)) cut skip E m ++
            (if spatialLen (peer m) * E = 0 ∨ skip = some m then []
              else [(m, cut m * E, spatialLen (peer m) * E)]) := by
        simp only [segmentsUpTo, List.range_succ, List.filterMap_append]
        congr 1
        by_cases h : spatialLen (peer m) * E = 0 ∨ skip = some m
        · rw [if_pos h, List.filterMap_cons_none (by rw [if_pos h])]
          rfl
        · rw [if_neg h, List.filterMap_cons_some (by rw [if_neg h])]
          rfl
      rw [List.range_succ, List.map_append, List.foldlM_append, ih (by omega), hgrow]
      simp only [List.map_cons, List.map_nil, List.foldlM_cons, List.foldlM_nil, hmul,
        Option.bind_eq_bind, Option.bind_some, hrank, hcoordinate]
      by_cases hempty : spatialLen (peer m) * E = 0
      · rw [if_pos hempty, if_pos (Or.inl hempty), List.append_nil]
        simp only [Option.bind_some, pure]
        rw [← hnext, hempty, Nat.add_zero]
      rw [if_neg hempty, if_neg (by omega)]
      by_cases hskip : skip = some m
      · rw [if_pos hskip, if_pos (Or.inr hskip), List.append_nil]
        simp only [Option.bind_some, pure]
        rw [← hnext]
      · rw [if_neg hskip, if_neg (by simp [hempty, hskip])]
        simp only [Option.bind_some, pure]
        rw [← hnext]
  unfold splitSegments
  rw [hloop n le_rfl]
  rfl

section Plan

variable {mode : CommunicationMode} (plan : DistributedPlan topology N mode) (E : ℕ)

/-- The segments a rank receives. -/
def receiveSegments (skip : Option ℕ) (c : Coords topology.processGrid) : List (ℕ × ℕ × ℕ) :=
  segmentsUpTo (fun k => regionSize (receivedFrom plan c k)) (receiveStart plan c) skip E
    (peerCount plan)

/-- The segments a rank sends. -/
def sendSegments (skip : Option ℕ) (c : Coords topology.processGrid) : List (ℕ × ℕ × ℕ) :=
  segmentsUpTo (fun k => regionSize (sentTo plan c k)) (sendStart plan c) skip E (peerCount plan)

theorem postReceives_eq (skip : Option ℕ) (c : Coords topology.processGrid) {receiveLen : ℕ}
    (hlen : receiveLen = E * (plan.destination.on c).localLen) (hfit : receiveLen < usizeLimit) :
    postReceives (plan.on c).peers skip receiveLen E = some (receiveSegments plan E skip c) := by
  have hall := (change_on plan c).receiveCut_all
  rw [processGrid_on] at hall
  unfold postReceives
  rw [peers_on]
  refine splitSegments_eq _ _ (receiveStart plan c) skip (fun _ => rfl) (fun _ => rfl)
    (receiveCut_zero _ _ _) (fun k => receiveCut_succ _ _ _ k) ?_ hfit
  rw [receiveStart, hall, hlen, Nat.mul_comm]

theorem postSends_eq (skip : Option ℕ) (c : Coords topology.processGrid) {buffer : List α}
    (hlen : buffer.length = E * (plan.source.on c).localLen)
    (hfit : buffer.length < usizeLimit) :
    postSends (plan.on c).peers skip buffer E
      = some ((sendSegments plan E skip c).map fun s =>
          (s.1, (buffer.drop s.2.1).take s.2.2)) := by
  have hall := (change_on plan c).sendCut_all
  rw [processGrid_on] at hall
  have htotal : sendStart plan c (peerCount plan) * E ≤ buffer.length := by
    rw [sendStart, hall, hlen, Nat.mul_comm]
  have hsplit := splitSegments_eq PeerMetadata.sendSpatialLen
    (peerAt (plan.source.on c) (plan.destination.on c) (changedAxis plan)) (sendStart plan c)
    skip (fun _ => rfl) (fun _ => rfl) (sendCut_zero _ _ _) (fun k => sendCut_succ _ _ _ k)
    htotal hfit
  unfold postSends
  rw [peers_on, hsplit]
  rfl

/-- The peers that are passed over: none, or each rank itself. -/
def selfSkip (skipSelf : Bool) (c : Coords topology.processGrid) : Option ℕ :=
  if skipSelf then some (c (changedAxis plan)) else none

theorem selfSkip_ne_comm {skipSelf : Bool} {c : Coords topology.processGrid}
    {k : Fin (peerCount plan)} (h : selfSkip plan skipSelf c ≠ some (k : ℕ)) :
    selfSkip plan skipSelf (peerOf plan c k) ≠ some (c (changedAxis plan) : ℕ) := by
  have hself : (peerOf plan c k) (changedAxis plan) = k := Function.update_self _ _ _
  unfold selfSkip at h ⊢
  cases skipSelf with
  | false => simp
  | true =>
    simp only [if_true, ne_eq, Option.some.injEq, hself] at h ⊢
    exact fun heq => h heq.symm

/-- What the ranks post. -/
def requestsOf (skipSelf : Bool) (packed buffers : Coords topology.processGrid → List α)
    (c : Coords topology.processGrid) : Requests α where
  receives := receiveSegments plan E (selfSkip plan skipSelf c) c
  sends := (sendSegments plan E (selfSkip plan skipSelf c) c).map fun s =>
    (s.1, ((packed c).drop s.2.1).take s.2.2)
  receiveBuffer := buffers c

/-! ## The requests pair up -/

section Pairing

variable {plan E} {skipSelf : Bool} {packed buffers : Coords topology.processGrid → List α}
  {c : Coords topology.processGrid}

/-- The message for peer `k`. -/
def messageTo (plan : DistributedPlan topology N mode) (E : ℕ)
    (packed : Coords topology.processGrid → List α) (c : Coords topology.processGrid)
    (k : Fin (peerCount plan)) : Message (Coords topology.processGrid) α where
  source := c
  target := peerOf plan c k
  payload := ((packed c).drop (sendStart plan c k * E)).take (regionSize (sentTo plan c k) * E)

/-- The receive for peer `k`. -/
def receiveFrom (plan : DistributedPlan topology N mode) (E : ℕ)
    (c : Coords topology.processGrid) (k : Fin (peerCount plan)) :
    Receive (Coords topology.processGrid) where
  source := peerOf plan c k
  target := c
  start := receiveStart plan c k * E
  count := regionSize (receivedFrom plan c k) * E

theorem mem_sends {m : Message (Coords topology.processGrid) α} :
    m ∈ (postsOf (changedAxis plan) (requestsOf plan E skipSelf packed buffers)).sends c ↔
      ∃ k : Fin (peerCount plan), regionSize (sentTo plan c k) * E ≠ 0 ∧
        selfSkip plan skipSelf c ≠ some (k : ℕ) ∧ m = messageTo plan E packed c k := by
  simp only [postsOf, requestsOf, List.mem_filterMap, List.mem_map]
  constructor
  · rintro ⟨_, ⟨s, hs, rfl⟩, hm⟩
    obtain ⟨k, hk, hsize, hskip, rfl⟩ := mem_segmentsUpTo.mp hs
    simp only [hk, dif_pos, Option.some.injEq] at hm
    exact ⟨⟨k, hk⟩, hsize, hskip, hm.symm⟩
  · rintro ⟨k, hsize, hskip, rfl⟩
    refine ⟨_, ⟨_, mem_segmentsUpTo.mpr ⟨k, k.isLt, hsize, hskip, rfl⟩, rfl⟩, ?_⟩
    simp only [k.isLt, dif_pos]
    rfl

theorem mem_receives {r : Receive (Coords topology.processGrid)} :
    r ∈ (postsOf (changedAxis plan) (requestsOf plan E skipSelf packed buffers)).receives c ↔
      ∃ k : Fin (peerCount plan), regionSize (receivedFrom plan c k) * E ≠ 0 ∧
        selfSkip plan skipSelf c ≠ some (k : ℕ) ∧ r = receiveFrom plan E c k := by
  simp only [postsOf, requestsOf, List.mem_filterMap]
  constructor
  · rintro ⟨s, hs, hr⟩
    obtain ⟨k, hk, hsize, hskip, rfl⟩ := mem_segmentsUpTo.mp hs
    simp only [hk, dif_pos, Option.some.injEq] at hr
    exact ⟨⟨k, hk⟩, hsize, hskip, hr.symm⟩
  · rintro ⟨k, hsize, hskip, rfl⟩
    refine ⟨_, mem_segmentsUpTo.mpr ⟨k, k.isLt, hsize, hskip, rfl⟩, ?_⟩
    simp only [k.isLt, dif_pos]
    rfl

theorem peerOf_injective (c : Coords topology.processGrid) :
    Function.Injective (peerOf plan c) := by
  intro k k' h
  have := congrFun h (changedAxis plan)
  simpa [peerOf, peerRankOf] using this

/-- Routes that differ in the rank on one side and in the peer on the other. -/
theorem nodup_routes (routes : Coords topology.processGrid → List ℕ)
    (hroutes : ∀ c, (routes c).Nodup) {β : Type}
    (route : Coords topology.processGrid → Fin (peerCount plan) → β)
    (hinj : ∀ c c' k k', route c k = route c' k' → c = c' ∧ k = k') :
    ((allRanks topology.processGrid).flatMap fun c => (routes c).filterMap fun k =>
      if h : k < peerCount plan then some (route c ⟨k, h⟩) else none).Nodup := by
  rw [List.nodup_flatMap]
  constructor
  · intro c _
    refine (hroutes c).filterMap ?_
    intro k k' b hb hb'
    by_cases hk : k < peerCount plan
    · by_cases hk' : k' < peerCount plan
      · simp only [hk, hk', dif_pos, Option.mem_def, Option.some.injEq] at hb hb'
        have := (hinj c c _ _ (hb.trans hb'.symm)).2
        exact Fin.mk.inj this
      · simp [hk'] at hb'
    · simp [hk] at hb
  · refine List.Nodup.pairwise_of_forall_ne (Finset.nodup_toList _) ?_
    intro c _ c' _ hne b hb hb'
    obtain ⟨k, _, hk⟩ := List.mem_filterMap.mp hb
    obtain ⟨k', _, hk'⟩ := List.mem_filterMap.mp hb'
    split at hk
    · split at hk'
      · exact hne (hinj c c' _ _ ((Option.some.inj hk).trans (Option.some.inj hk').symm)).1
      · contradiction
    · contradiction

theorem nodup_sends :
    (((allRanks topology.processGrid).flatMap
      (postsOf (changedAxis plan) (requestsOf plan E skipSelf packed buffers)).sends).map
        Message.route).Nodup := by
  have hroutes := nodup_routes
    (fun c => (sendSegments plan E (selfSkip plan skipSelf c) c).map Prod.fst)
    (fun c => nodup_segmentsUpTo _ _ _ _ _) (fun c k => (c, peerOf plan c k)) (by
      intro c c' k k' h
      obtain ⟨rfl, hk⟩ := Prod.mk.inj h
      exact ⟨rfl, peerOf_injective c hk⟩)
  rw [List.map_flatMap]
  convert hroutes using 2
  funext c
  simp only [postsOf, requestsOf, List.filterMap_map, List.map_filterMap]
  apply List.filterMap_congr
  intro s _
  simp only [Function.comp]
  split <;> rfl

theorem nodup_receives :
    (((allRanks topology.processGrid).flatMap
      (postsOf (changedAxis plan) (requestsOf plan E skipSelf packed buffers)).receives).map
        Receive.route).Nodup := by
  have hroutes := nodup_routes
    (fun c => (receiveSegments plan E (selfSkip plan skipSelf c) c).map Prod.fst)
    (fun c => nodup_segmentsUpTo _ _ _ _ _) (fun c k => (peerOf plan c k, c)) (by
      intro c c' k k' h
      obtain ⟨hk, rfl⟩ := Prod.mk.inj h
      exact ⟨rfl, peerOf_injective c hk⟩)
  rw [List.map_flatMap]
  convert hroutes using 2
  funext c
  simp only [postsOf, requestsOf, List.filterMap_map, List.map_filterMap]
  apply List.filterMap_congr
  intro s _
  simp only [Function.comp]
  split <;> rfl

theorem mem_allPosts {β : Type} {f : Coords topology.processGrid → List β} {x : β} :
    x ∈ (allRanks topology.processGrid).flatMap f ↔ ∃ c, x ∈ f c := by
  simp [allRanks]

/-- The message a rank receives from peer `k` is the one the peer has for it. -/
theorem matches_messageTo (k : Fin (peerCount plan)) :
    Matches (messageTo plan E packed (peerOf plan c k) (c (changedAxis plan)))
      (receiveFrom plan E c k) := by
  show (peerOf plan c k, peerOf plan (peerOf plan c k) (c (changedAxis plan)))
    = (peerOf plan c k, c)
  rw [peerOf_peerOf]

theorem length_messageTo (hpacked : (packed c).length = E * (plan.source.on c).localLen)
    (k : Fin (peerCount plan)) :
    (messageTo plan E packed c k).payload.length = regionSize (sentTo plan c k) * E := by
  have hfits := (hasSegment_send plan E c hpacked k.isLt).fits
  simp only [sendPartition] at hfits
  simp only [messageTo, List.length_take, List.length_drop]
  omega

variable (skipSelf) in
/-- **The requests pair up.**  A rank posts a receive for a peer exactly when the peer posts
a send for it, since both name the region the one owns before and the other after. -/
theorem paired_requests
    (hpacked : ∀ c, (packed c).length = E * (plan.source.on c).localLen)
    (hbuffers : ∀ c, (buffers c).length = E * (plan.destination.on c).localLen) :
    Paired (postsOf (changedAxis plan) (requestsOf plan E skipSelf packed buffers))
      (allRanks topology.processGrid) buffers where
  sends_unique := nodup_sends
  receives_unique := nodup_receives
  send := by
    intro r hr
    obtain ⟨c, hr⟩ := mem_allPosts.mp hr
    obtain ⟨k, hsize, hskip, rfl⟩ := mem_receives.mp hr
    rw [receivedFrom_eq_sentTo] at hsize
    refine ⟨messageTo plan E packed (peerOf plan c k) (c (changedAxis plan)),
      mem_allPosts.mpr ⟨_, mem_sends.mpr
        ⟨_, hsize, selfSkip_ne_comm plan hskip, rfl⟩⟩, matches_messageTo k, ?_⟩
    rw [length_messageTo (hpacked _), ← receivedFrom_eq_sentTo]
    rfl
  receive := by
    intro m hm
    obtain ⟨c, hm⟩ := mem_allPosts.mp hm
    obtain ⟨k, hsize, hskip, rfl⟩ := mem_sends.mp hm
    have hself : (peerOf plan c k) (changedAxis plan) = k := Function.update_self _ _ _
    have hback := peerOf_peerOf plan c k
    have hregion := receivedFrom_eq_sentTo plan (peerOf plan c k) (c (changedAxis plan))
    rw [hback, hself] at hregion
    refine ⟨receiveFrom plan E (peerOf plan c k) (c (changedAxis plan)),
      mem_allPosts.mpr ⟨_, mem_receives.mpr
        ⟨_, by rwa [hregion], selfSkip_ne_comm plan hskip, rfl⟩⟩, ?_⟩
    show (c, peerOf plan c k)
      = (peerOf plan (peerOf plan c k) (c (changedAxis plan)), peerOf plan c k)
    rw [hback]
  fits := by
    intro r hr
    obtain ⟨c, hr⟩ := mem_allPosts.mp hr
    obtain ⟨k, _, _, rfl⟩ := mem_receives.mp hr
    exact (hasSegment_receive plan E c (hbuffers c) k.isLt).fits
  apart := by
    intro r hr r' hr' htarget hsource
    obtain ⟨c, hr⟩ := mem_allPosts.mp hr
    obtain ⟨k, _, _, rfl⟩ := mem_receives.mp hr
    obtain ⟨c', hr'⟩ := mem_allPosts.mp hr'
    obtain ⟨k', _, _, rfl⟩ := mem_receives.mp hr'
    obtain rfl : c = c' := htarget
    have hne : (k : ℕ) ≠ k' := by
      intro heq
      exact hsource (by rw [show k = k' from Fin.ext heq])
    have hcut : ∀ {j j' : ℕ}, j < j' →
        receiveStart plan c j * E + regionSize (receivedFrom plan c j) * E
          ≤ receiveStart plan c j' * E := by
      intro j j' hlt
      rw [← Nat.add_mul]
      apply Nat.mul_le_mul_right
      rw [receiveStart, receivedFrom, receiveCut_succ]
      exact receiveCut_mono _ _ _ hlt
    cases Nat.lt_or_gt_of_ne hne with
    | inl hlt => exact Or.inl (hcut hlt)
    | inr hgt => exact Or.inr (hcut hgt)

/-! ## What the receives deliver -/

/-- Every order of deliveries fills the receive buffers with what the peers packed. -/
theorem quiet_hasReceived {elements : Coords topology.processGrid → List α}
    (hpacked : ∀ c, HasPacked plan E elements (selfSkip plan skipSelf c) c (packed c))
    (hsend : ∀ c, (packed c).length = E * (plan.source.on c).localLen)
    (hbuffers : ∀ c, (buffers c).length = E * (plan.destination.on c).localLen)
    {final : Network (Coords topology.processGrid) α}
    (hreach : Network.Reaches
      (postsOf (changedAxis plan) (requestsOf plan E skipSelf packed buffers))
      (startNetwork (requestsOf plan E skipSelf packed buffers)) final)
    (hquiet : final.Quiet) (c : Coords topology.processGrid) :
    (final.buffers c).cells.length = E * (plan.destination.on c).localLen ∧
      HasReceived plan c E elements (selfSkip plan skipSelf c) (final.buffers c).cells := by
  have hpaired := paired_requests skipSelf hsend hbuffers
  have hinvariant := Network.invariant_start.reaches hpaired hreach
  refine ⟨(hinvariant.length c).trans (hbuffers c), ?_⟩
  obtain ⟨_, _, hcells⟩ := hinvariant.quiet hpaired hquiet
  refine hasReceived_of_segments plan E packed ?_ ?_ ?_
  · intro k _
    have hself : (selfSkip plan skipSelf c).map (fun _ => (k : ℕ))
        = selfSkip plan skipSelf (peerOf plan c k) := by
      have hcoordinate : (peerOf plan c k) (changedAxis plan) = k := Function.update_self _ _ _
      unfold selfSkip
      rw [hcoordinate]
      cases skipSelf <;> rfl
    rw [hself]
    exact hpacked _
  · intro s hs
    unfold selfSkip at hs
    cases skipSelf with
    | false => contradiction
    | true => exact (Option.some.inj hs).symm
  · intro k hskip t ht
    have hsize : regionSize (receivedFrom plan c k) * E ≠ 0 := by omega
    have hsize' := hsize
    rw [receivedFrom_eq_sentTo] at hsize'
    have hcell := hcells (receiveFrom plan E c k)
      (mem_allPosts.mpr ⟨c, mem_receives.mpr ⟨k, hsize, hskip, rfl⟩⟩)
      (messageTo plan E packed (peerOf plan c k) (c (changedAxis plan)))
      (mem_allPosts.mpr ⟨_, mem_sends.mpr ⟨_, hsize', selfSkip_ne_comm plan hskip, rfl⟩⟩)
      (matches_messageTo k) t ht
    rw [receivedFrom_eq_sentTo] at ht
    refine hcell.trans ?_
    simp only [messageTo]
    rw [List.getElem?_take_of_lt ht, List.getElem?_drop]

/-- The point-to-point exchange can happen and delivers in every order what was packed. -/
theorem pointToPoint_round
    (hsend : ∀ c, (packed c).length = E * (plan.source.on c).localLen)
    (hbuffers : ∀ c, (buffers c).length = E * (plan.destination.on c).localLen) :
    ∃ replies w', (communicators α topology.processGrid).Round ()
      (.pointToPoint (changedAxis plan)) (requestsOf plan E skipSelf packed buffers)
      replies w' := by
  have hpaired := paired_requests skipSelf hsend hbuffers
  obtain ⟨final, hreach, hquiet⟩ := Network.invariant_start.exists_quiet hpaired
  refine ⟨fun c => (final.buffers c).cells, (), ?_, ?_, final, hreach, hquiet, fun _ => rfl⟩
  · intro c
    constructor
    · intro r hr
      obtain ⟨k, hk, _, _, rfl⟩ := mem_segmentsUpTo.mp hr
      exact hk
    · intro s hs
      obtain ⟨r, hr, rfl⟩ := List.mem_map.mp hs
      obtain ⟨k, hk, _, _, rfl⟩ := mem_segmentsUpTo.mp hr
      exact hk
  · intro s hs
    exact (Network.invariant_start.reaches hpaired hs).live hpaired

end Pairing

end Plan

end PencilRs.Analysis
