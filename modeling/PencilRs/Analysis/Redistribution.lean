import PencilRs.Analysis.Distribution
import PencilRs.Analysis.ExchangeCounts
import PencilRs.Computation.Tiling

/-!
# Packing and unpacking all peers

The packed segments of a rank tile its send buffer, whatever is skipped lies apart from
what is not, and the receive regions cover the rank's block.  So packing fills each
segment with the region it stands for, and unpacking writes every element of the block
once.
-/

set_option autoImplicit false

namespace PencilRs.Analysis

open PencilRs.Computation PencilRs.Model

variable {N M : ℕ} {α : Type} {topology : MpiTopology M} {mode : CommunicationMode}

/-! ## Elements of a region -/

/-- Every index of a region has a payload position. -/
theorem exists_regionIndex {region : Fin N → Range} {g : Fin N → ℕ}
    (h : ∀ axis, (region axis).start ≤ g axis ∧ g axis < (region axis).stop) :
    ∃ i < regionSize region, regionIndex region i = g := by
  have hdigit : ∀ axis ∈ axesFastestFirst N,
      g axis - (region axis).start < regionExtent region axis := by
    intro axis _
    have := h axis
    simp only [regionExtent, Range.len]
    omega
  refine ⟨MixedRadix.value (regionExtent region) (fun axis => g axis - (region axis).start)
    (axesFastestFirst N), ?_, ?_⟩
  · rw [regionSize, ← size_axesFastestFirst]
    exact MixedRadix.value_lt_size hdigit
  · funext axis
    have hvalue := MixedRadix.digit_value nodup_axesFastestFirst hdigit axis
      (mem_axesFastestFirst axis)
    have := (h axis).1
    rw [regionIndex, hvalue]
    omega

section Blocks

variable (E : ℕ)

/-- The positions of the blocks of a segment are the positions of the segment. -/
theorem flatMap_blocks (disp len : ℕ) :
    ((List.range E).flatMap fun e => (List.range len).map fun q => disp * E + e * len + q)
      = segmentPositions (disp * E, len * E) := by
  have h := (tiles_blocks (disp * E) len E).positions
  rw [List.flatMap_map] at h
  rw [Nat.add_sub_cancel_left, Nat.mul_comm E] at h
  exact h

theorem nodup_segmentPositions (segment : ℕ × ℕ) : (segmentPositions segment).Nodup :=
  List.nodup_range.map fun _ _ hab => Nat.add_left_cancel hab

theorem map_fst_packMoves (p : Pencil N M) (skip : Option ℕ) (peers : List (PeerMetadata N)) :
    (packMoves p E skip peers).map Prod.fst
      = peers.flatMap fun peer => if skip = some peer.peerCoordinate then []
        else segmentPositions (peer.sendSpatialDisplacement * E, peer.sendSpatialLen * E) := by
  rw [packMoves, List.map_flatMap]
  congr 1
  funext peer
  split
  · rfl
  · rw [← flatMap_blocks, List.map_flatMap]
    congr 1
    funext e
    rw [packBlock, List.map_map]
    rfl

theorem map_snd_unpackMoves (p : Pencil N M) (skip : Option ℕ) (peers : List (PeerMetadata N)) :
    (unpackMoves p E skip peers).map Prod.snd
      = peers.flatMap fun peer => if skip = some peer.peerCoordinate then []
        else segmentPositions
          (peer.receiveSpatialDisplacement * E, peer.receiveSpatialLen * E) := by
  rw [unpackMoves, List.map_flatMap]
  congr 1
  funext peer
  split
  · rfl
  · rw [← flatMap_blocks, List.map_flatMap]
    congr 1
    funext e
    rw [unpackBlock, List.map_map]
    rfl

/-- What is left after skipping is a part of the whole. -/
theorem sublist_flatMap_skip {β γ : Type} (skipped : β → Prop) [DecidablePred skipped]
    (f : β → List γ) (l : List β) :
    (l.flatMap fun x => if skipped x then [] else f x).Sublist (l.flatMap f) := by
  induction l with
  | nil => exact List.Sublist.slnil
  | cons x l ih =>
    rw [List.flatMap_cons, List.flatMap_cons]
    refine List.Sublist.append ?_ ih
    split
    · exact List.nil_sublist _
    · exact List.Sublist.refl _

/-- The skipped part put in front. -/
theorem perm_flatMap_skip {β γ : Type} [DecidableEq β] (f : β → List γ) {l : List β}
    (hn : l.Nodup) {x : β} (hx : x ∈ l) :
    (f x ++ l.flatMap fun y => if y = x then [] else f y).Perm (l.flatMap f) := by
  induction l with
  | nil => simp at hx
  | cons y l ih =>
    obtain ⟨hy, hn⟩ := List.nodup_cons.mp hn
    rw [List.flatMap_cons, List.flatMap_cons]
    by_cases hyx : y = x
    · subst hyx
      have hrest : (l.flatMap fun z => if z = y then [] else f z) = l.flatMap f := by
        apply List.flatMap_congr
        intro z hz
        rw [if_neg (ne_of_mem_of_not_mem hz hy)]
      rw [if_pos rfl, List.nil_append, hrest]
    · rw [if_neg hyx, ← List.append_assoc]
      refine ((List.perm_append_comm).append_right _).trans ?_
      rw [List.append_assoc]
      exact (ih hn (List.mem_of_ne_of_mem (Ne.symm hyx) hx)).append_left _

end Blocks

/-! ## Packing -/

section Plan

variable (plan : DistributedPlan topology N mode) (c : Coords topology.processGrid)

/-- The number of ranks that exchange with each other. -/
abbrev peerCount : ℕ := topology.processGrid (changedAxis plan)

/-- What the rank sends to its peer `k`. -/
abbrev sentTo (k : ℕ) : Fin N → Range :=
  sendRegion (plan.source.on c) (plan.destination.on c) (changedAxis plan) k

/-- What the rank receives from its peer `k`. -/
abbrev receivedFrom (k : ℕ) : Fin N → Range :=
  receiveRegion (plan.source.on c) (plan.destination.on c) (changedAxis plan) k

/-- Where the send segment of peer `k` starts, for one extra index. -/
abbrev sendStart (k : ℕ) : ℕ :=
  sendCut (plan.source.on c) (plan.destination.on c) (changedAxis plan) k

abbrev receiveStart (k : ℕ) : ℕ :=
  receiveCut (plan.source.on c) (plan.destination.on c) (changedAxis plan) k

theorem lt_processGrid {k : ℕ} (hk : k < peerCount plan) :
    k < (plan.source.on c).topology.processGrid (changedAxis plan) := by
  rwa [processGrid_on]

theorem insideBlock_sentTo {k : ℕ} (hk : k < peerCount plan)
    (hpos : 0 < regionSize (sentTo plan c k)) :
    InsideBlock (plan.source.on c) (sentTo plan c k) :=
  insideBlock_of_pos (fun a =>
    have hb := (change_on plan c).sendRegion_bounds (lt_processGrid plan c hk) a
    ⟨hb.1, hb.2.1⟩) hpos

theorem insideBlock_receivedFrom {k : ℕ} (hk : k < peerCount plan)
    (hpos : 0 < regionSize (receivedFrom plan c k)) :
    InsideBlock (plan.destination.on c) (receivedFrom plan c k) :=
  insideBlock_of_pos (fun a =>
    have hb := (change_on plan c).receiveRegion_bounds (lt_processGrid plan c hk) a
    ⟨hb.1, hb.2.1⟩) hpos

variable (E : ℕ)

theorem sendSound_on : ∀ peer ∈ (plan.on c).peers,
    SendSound (plan.source.on c) E (E * (plan.source.on c).localLen) peer := by
  intro peer hmem
  rw [peers_on] at hmem
  obtain ⟨k, hk, rfl⟩ := List.mem_map.mp hmem
  have hk := List.mem_range.mp hk
  have hle := (change_on plan c).sendSize_le (lt_processGrid plan c hk)
  refine ⟨rfl, fun hpos => insideBlock_sentTo plan c hk hpos, ?_⟩
  simp only [peerAt]
  rw [Nat.mul_comm _ E, ← Nat.mul_add]
  exact Nat.mul_le_mul_left E hle

theorem receiveSound_on : ∀ peer ∈ (plan.on c).peers,
    ReceiveSound (plan.destination.on c) E (E * (plan.destination.on c).localLen) peer := by
  intro peer hmem
  rw [peers_on] at hmem
  obtain ⟨k, hk, rfl⟩ := List.mem_map.mp hmem
  have hk := List.mem_range.mp hk
  have hle := (change_on plan c).receiveSize_le (lt_processGrid plan c hk)
  refine ⟨rfl, fun hpos => insideBlock_receivedFrom plan c hk hpos, ?_⟩
  simp only [peerAt]
  rw [Nat.mul_comm _ E, ← Nat.mul_add]
  exact Nat.mul_le_mul_left E hle

theorem peerAt_mem {k : ℕ} (hk : k < peerCount plan) :
    peerAt (plan.source.on c) (plan.destination.on c) (changedAxis plan) k
      ∈ (plan.on c).peers := by
  rw [peers_on]
  exact List.mem_map_of_mem (List.mem_range.mpr hk)

/-- The pack positions are those of the whole send buffer. -/
theorem packPositions_all :
    (packMoves (plan.source.on c) E none (plan.on c).peers).map Prod.fst
      = segmentPositions (0, (plan.source.on c).localLen * E) := by
  have htiles := (tiles_send plan c E).positions
  rw [List.flatMap_map] at htiles
  rw [map_fst_packMoves]
  simpa using htiles

theorem nodup_packPositions (skip : Option ℕ) :
    ((packMoves (plan.source.on c) E skip (plan.on c).peers).map Prod.fst).Nodup := by
  have hall := packPositions_all plan c E
  rw [map_fst_packMoves] at hall ⊢
  simp only [reduceCtorEq, if_false] at hall
  have hsub := sublist_flatMap_skip (fun peer : PeerMetadata N =>
      skip = some peer.peerCoordinate)
    (fun peer => segmentPositions (peer.sendSpatialDisplacement * E, peer.sendSpatialLen * E))
    (plan.on c).peers
  rw [hall] at hsub
  exact (nodup_segmentPositions _).sublist hsub

/-- Inside its segment, the element of extra index `e` at payload position `i`. -/
theorem mem_packMoves {skip : Option ℕ} {k : ℕ} (hk : k < peerCount plan) (hskip : skip ≠ some k)
    {e i : ℕ} (he : e < E) (hi : i < regionSize (sentTo plan c k)) :
    (sendStart plan c k * E + (e * regionSize (sentTo plan c k) + i),
        e * (plan.source.on c).localLen
          + regionPosition (plan.source.on c) (sentTo plan c k) i)
      ∈ packMoves (plan.source.on c) E skip (plan.on c).peers := by
  refine List.mem_flatMap.mpr ⟨_, peerAt_mem plan c hk, ?_⟩
  change _ ∈ if skip = some k then [] else _
  rw [if_neg hskip]
  refine List.mem_flatMap.mpr ⟨e, List.mem_range.mpr he, ?_⟩
  refine List.mem_map.mpr ⟨i, List.mem_range.mpr hi, ?_⟩
  simp only [peerAt, Nat.add_assoc]

/-- **Packing** fills the segments that are not skipped with their regions. -/
theorem pack_spec (skip : Option ℕ) (storage : List α) {window : List α}
    (hstorage : E * (plan.source.on c).localLen ≤ storage.length)
    (hstore : E * (plan.source.on c).localLen < usizeLimit)
    (hwindow : window.length = E * (plan.source.on c).localLen) :
    ∃ buf, packSourceRegionsSkipping (plan.on c).peers skip
        (LocalLayout.new (plan.source.on c)) storage (Buf.fresh window)
        (E * (plan.source.on c).localLen) E = some buf ∧
      buf.cells.length = E * (plan.source.on c).localLen ∧
      ∀ k < peerCount plan, skip ≠ some k → ∀ e < E, ∀ i < regionSize (sentTo plan c k),
        buf.cells[sendStart plan c k * E + (e * regionSize (sentTo plan c k) + i)]?
          = storage[e * (plan.source.on c).localLen
              + regionPosition (plan.source.on c) (sentTo plan c k) i]? := by
  rw [packSourceRegionsSkipping_eq (sendSound_on plan c E) skip hstorage hstore hstore
    (by simp [Buf.fresh, hwindow])]
  have hreads : ∀ m ∈ packMoves (plan.source.on c) E skip (plan.on c).peers,
      (storage[m.2]?).isSome := by
    intro m hm
    obtain ⟨peer, hpeer, hm⟩ := List.mem_flatMap.mp hm
    split at hm
    · simp at hm
    obtain ⟨e, he, hm⟩ := List.mem_flatMap.mp hm
    obtain ⟨i, hi, rfl⟩ := List.mem_map.mp hm
    have he := List.mem_range.mp he
    have hi := List.mem_range.mp hi
    have hin := (sendSound_on plan c E peer hpeer).inside (by omega)
    have hpos := regionPosition_lt hin i
    have hend := extra_end_le (plan.source.on c).localLen he
    rw [List.getElem?_eq_getElem (by simp only; omega)]
    rfl
  obtain ⟨buf, hbuf⟩ := Buf.moveAll_isSome (Buf.fresh window) hreads
  have hlen := Buf.length_moveAll hbuf
  refine ⟨buf, hbuf, by rw [hlen]; exact hwindow, ?_⟩
  intro k hk hskip e he i hi
  refine Buf.cells_moveAll_of_mem hbuf (nodup_packPositions plan c E skip) ?_
    (mem_packMoves plan c E hk hskip he hi)
  have hsound := sendSound_on plan c E _ (peerAt_mem plan c hk)
  have hend : sendStart plan c k * E + e * regionSize (sentTo plan c k)
      + regionSize (sentTo plan c k) ≤ _ := block_end_le hsound.fits he
  simp only [Buf.fresh, hwindow]
  omega

end Plan

end PencilRs.Analysis
