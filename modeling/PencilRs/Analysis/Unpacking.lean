import PencilRs.Analysis.Redistribution

/-!
# Where the elements of a destination block come from

Every global index the destination owns lies in the receive region of exactly one peer,
and that peer owns it in the source.  So the unpacked positions are a rearrangement of the
whole block, each received from the unique source owner of its index.
-/

set_option autoImplicit false

namespace PencilRs.Analysis

open PencilRs.Computation PencilRs.Model

variable {N M : ℕ} {α : Type} {topology : MpiTopology M} {mode : CommunicationMode}

/-- One rank owns a global index. -/
theorem owner_unique (p : DistributedPencil topology N) {c d : Coords topology.processGrid}
    {g : Fin N → ℕ} (hc : Owns (p.on c).localRanges g) (hd : Owns (p.on d).localRanges g) :
    c = d := by
  have hpart := isPartition_ownedRanges (p.on c).globalShape topology.processGrid
    (p.on c).decomposition.injective topology.extents_pos
  rw [localRanges_on p c c] at hc
  rw [localRanges_on p d c] at hd
  by_contra hne
  exact hpart.disjoint c d hne g ⟨hc, hd⟩

section Plan

variable (plan : DistributedPlan topology N mode) (c : Coords topology.processGrid)

/-- The peer of rank number `k`. -/
abbrev peerOf (k : Fin (peerCount plan)) : Coords topology.processGrid :=
  peerRankOf c (changedAxis plan) k

theorem peerOf_peerOf (k : Fin (peerCount plan)) :
    peerOf plan (peerOf plan c k) (c (changedAxis plan)) = c := by
  simp [peerOf, peerRankOf]

/-- What the rank receives from a peer is what the peer sends to it. -/
theorem receivedFrom_eq_sentTo (k : Fin (peerCount plan)) :
    receivedFrom plan c k = sentTo plan (peerOf plan c k) (c (changedAxis plan)) := by
  have hdual := sendRegion_dual plan (peerOf plan c k) (c (changedAxis plan))
  have hself : (peerOf plan c k) (changedAxis plan) = k := Function.update_self _ _ _
  have hback : peerRankOf (peerOf plan c k) (changedAxis plan) (c (changedAxis plan)) = c :=
    peerOf_peerOf plan c k
  rw [sentTo, hdual, hback, hself]

/-- Every index of the destination block is received from some peer. -/
theorem exists_receivedFrom {g : Fin N → ℕ} (h : Owns (plan.destination.on c).localRanges g) :
    ∃ k : Fin (peerCount plan), ∃ i < regionSize (receivedFrom plan c k),
      regionIndex (receivedFrom plan c k) i = g := by
  have hchange := change_on plan c
  have hwhole := hchange.localRanges_receive
  have hlt := lt_of_owns h ((plan.source.on c).decomposition.axes (changedAxis plan))
  rw [hwhole] at hlt
  obtain ⟨k, hk, hblock⟩ := BlockPartition.exists_inBlock
    (topology.extents_pos (changedAxis plan)) hlt.2
  refine ⟨⟨k, hk⟩, exists_regionIndex ?_⟩
  intro axis
  by_cases haxis : axis = (plan.source.on c).decomposition.axes (changedAxis plan)
  · subst haxis
    rw [receivedFrom, receiveRegion, Function.update_self, processGrid_on]
    exact hblock
  · rw [receivedFrom, receiveRegion, Function.update_of_ne haxis]
    exact lt_of_owns h axis

/-- The peer owns what it sends. -/
theorem owns_of_receivedFrom (k : Fin (peerCount plan)) {i : ℕ}
    (hi : i < regionSize (receivedFrom plan c k)) :
    Owns (plan.source.on (peerOf plan c k)).localRanges
      (regionIndex (receivedFrom plan c k) i) := by
  rw [receivedFrom_eq_sentTo] at hi ⊢
  exact owns_regionIndex (insideBlock_sentTo plan _ (c (changedAxis plan)).isLt (by omega)) i

variable (E : ℕ)

theorem length_unpackMoves :
    (unpackMoves (plan.destination.on c) E none (plan.on c).peers).length
      = E * (plan.destination.on c).localLen := by
  have htiles := (tiles_receive plan c E).positions
  rw [List.flatMap_map] at htiles
  have hsnd := map_snd_unpackMoves E (plan.destination.on c) none (plan.on c).peers
  simp only [reduceCtorEq, if_false] at hsnd
  rw [htiles] at hsnd
  have hlen := congrArg List.length hsnd
  rw [List.length_map, length_segmentPositions] at hlen
  rw [hlen, Nat.sub_zero, Nat.mul_comm]

/-- The storage position of extra index `e` at payload position `i` of peer `k`. -/
theorem mem_unpackMoves {skip : Option ℕ} {k : ℕ} (hk : k < peerCount plan)
    (hskip : skip ≠ some k) {e i : ℕ} (he : e < E)
    (hi : i < regionSize (receivedFrom plan c k)) :
    (e * (plan.destination.on c).localLen
          + regionPosition (plan.destination.on c) (receivedFrom plan c k) i,
        receiveStart plan c k * E + e * regionSize (receivedFrom plan c k) + i)
      ∈ unpackMoves (plan.destination.on c) E skip (plan.on c).peers := by
  refine List.mem_flatMap.mpr ⟨_, peerAt_mem plan c hk, ?_⟩
  change _ ∈ if skip = some k then [] else _
  rw [if_neg hskip]
  refine List.mem_flatMap.mpr ⟨e, List.mem_range.mpr he, ?_⟩
  exact List.mem_map.mpr ⟨i, List.mem_range.mpr hi, rfl⟩

/-- Unpacking writes every position of the block exactly once. -/
theorem unpackPositions_perm :
    ((unpackMoves (plan.destination.on c) E none (plan.on c).peers).map Prod.fst).Perm
      (List.range (E * (plan.destination.on c).localLen)) := by
  apply Buf.perm_range_of_cover
  · rw [List.length_map, length_unpackMoves]
  · intro offset hoffset
    have hpos : 0 < (plan.destination.on c).localLen := by
      by_contra hzero
      have hz : (plan.destination.on c).localLen = 0 := by omega
      rw [hz, Nat.mul_zero] at hoffset
      omega
    obtain ⟨x, hx, hlayout⟩ := exists_layoutOffset (Nat.mod_lt offset hpos)
    obtain ⟨k, i, hi, hindex⟩ := exists_receivedFrom plan c (owns_toGlobal hx)
    have he : offset / (plan.destination.on c).localLen < E := by
      rw [Nat.div_lt_iff_lt_mul hpos]
      exact hoffset
    have hskip : (none : Option ℕ) ≠ some (k : ℕ) := by simp
    refine List.mem_map.mpr ⟨_, mem_unpackMoves plan c E k.isLt hskip he hi, ?_⟩
    simp only [regionPosition, hindex, toLocal_toGlobal, hlayout]
    exact Nat.div_add_mod' offset _

/-- What unpacking all peers but the skipped one leaves in a block of `storageLen`. -/
theorem unpack_spec (skip : Option ℕ) {received : List α} {buf : Buf α} {storageLen : ℕ}
    (hreceived : received.length = E * (plan.destination.on c).localLen)
    (hstorage : E * (plan.destination.on c).localLen ≤ storageLen)
    (hstore : E * (plan.destination.on c).localLen < usizeLimit)
    (hbuf : storageLen ≤ buf.cells.length) :
    ∃ buf', unpackDestinationRegionsSkipping (plan.on c).peers skip
        (LocalLayout.new (plan.destination.on c)) buf storageLen received E = some buf' ∧
      buf'.cells.length = buf.cells.length ∧
      buf'.log = buf.log
        ++ (unpackMoves (plan.destination.on c) E skip (plan.on c).peers).map Prod.fst ∧
      (∀ k < peerCount plan, skip ≠ some k → ∀ e < E, ∀ i < regionSize (receivedFrom plan c k),
        buf'.cells[e * (plan.destination.on c).localLen
            + regionPosition (plan.destination.on c) (receivedFrom plan c k) i]?
          = received[receiveStart plan c k * E + e * regionSize (receivedFrom plan c k) + i]?) ∧
      ∀ j, j ∉ (unpackMoves (plan.destination.on c) E skip (plan.on c).peers).map Prod.fst →
        buf'.cells[j]? = buf.cells[j]? := by
  have hsound := receiveSound_on plan c E
  rw [← hreceived] at hsound
  rw [unpackDestinationRegionsSkipping_eq hsound skip hstorage hstore (by omega) hbuf]
  have hreads : ∀ m ∈ unpackMoves (plan.destination.on c) E skip (plan.on c).peers,
      (received[m.2]?).isSome := by
    intro m hm
    obtain ⟨peer, hpeer, hm⟩ := List.mem_flatMap.mp hm
    split at hm
    · simp at hm
    obtain ⟨e, he, hm⟩ := List.mem_flatMap.mp hm
    obtain ⟨i, hi, rfl⟩ := List.mem_map.mp hm
    have hi := List.mem_range.mp hi
    have hend := block_end_le (hsound peer hpeer).fits (List.mem_range.mp he)
    rw [List.getElem?_eq_getElem (by simp only; omega)]
    rfl
  obtain ⟨buf', hbuf'⟩ := Buf.moveAll_isSome buf hreads
  have hsub : ((unpackMoves (plan.destination.on c) E skip (plan.on c).peers).map
      Prod.fst).Sublist
        ((unpackMoves (plan.destination.on c) E none (plan.on c).peers).map Prod.fst) := by
    refine List.Sublist.map _ ?_
    simp only [unpackMoves, reduceCtorEq, if_false]
    exact sublist_flatMap_skip (fun peer : PeerMetadata N => skip = some peer.peerCoordinate) _ _
  have hperm := unpackPositions_perm plan c E
  have hnodup := (hperm.nodup_iff.mpr List.nodup_range).sublist hsub
  refine ⟨buf', hbuf', Buf.length_moveAll hbuf', Buf.log_moveAll hbuf', ?_, ?_⟩
  · intro k hk hskip e he i hi
    have hmem := mem_unpackMoves plan c E hk hskip he hi
    refine Buf.cells_moveAll_of_mem hbuf' hnodup ?_ hmem
    have hlt := List.mem_range.mp (hperm.subset (hsub.subset (List.mem_map_of_mem hmem)))
    simp only at hlt
    omega
  · intro j hj
    exact Buf.cells_moveAll_of_notMem hbuf' hj

/-! ## The transposed array -/

/-- Each receive segment holds, extra index by extra index, the peer's elements of the
region, as the peer stores them. -/
def HasReceived (elements : Coords topology.processGrid → List α) (skip : Option ℕ)
    (received : List α) : Prop :=
  ∀ k : Fin (peerCount plan), skip ≠ some (k : ℕ) → ∀ e < E, ∀ i < regionSize (receivedFrom plan c k),
    received[receiveStart plan c k * E + e * regionSize (receivedFrom plan c k) + i]?
      = (elements (peerOf plan c k))[e * (plan.source.on (peerOf plan c k)).localLen
          + regionPosition (plan.source.on (peerOf plan c k)) (receivedFrom plan c k) i]?

/-- The block holds every owned element as its source owner stores it. -/
def IsTransposed (elements : Coords topology.processGrid → List α) (cells : List α) : Prop :=
  ∀ e < E, ∀ g, Owns (plan.destination.on c).localRanges g →
    ∃ d, Owns (plan.source.on d).localRanges g ∧
      cells[e * (plan.destination.on c).localLen
          + layoutOffset (plan.destination.on c) (toLocal (plan.destination.on c) g)]?
        = (elements d)[e * (plan.source.on d).localLen
            + layoutOffset (plan.source.on d) (toLocal (plan.source.on d) g)]?

variable {elements : Coords topology.processGrid → List α}

theorem isTransposed_of_regions {cells : List α}
    (h : ∀ k : Fin (peerCount plan), ∀ e < E, ∀ i < regionSize (receivedFrom plan c k),
      cells[e * (plan.destination.on c).localLen
          + regionPosition (plan.destination.on c) (receivedFrom plan c k) i]?
        = (elements (peerOf plan c k))[e * (plan.source.on (peerOf plan c k)).localLen
            + regionPosition (plan.source.on (peerOf plan c k)) (receivedFrom plan c k) i]?) :
    IsTransposed plan c E elements cells := by
  intro e he g hg
  obtain ⟨k, i, hi, rfl⟩ := exists_receivedFrom plan c hg
  exact ⟨peerOf plan c k, owns_of_receivedFrom plan c k hi, h k e he i hi⟩

/-- The block is determined by the source. -/
theorem IsTransposed.unique {cells cells' : List α} (h : IsTransposed plan c E elements cells)
    (h' : IsTransposed plan c E elements cells') {offset : ℕ}
    (hoffset : offset < E * (plan.destination.on c).localLen) :
    cells[offset]? = cells'[offset]? := by
  have hpos : 0 < (plan.destination.on c).localLen := by
    by_contra hzero
    have hz : (plan.destination.on c).localLen = 0 := by omega
    rw [hz, Nat.mul_zero] at hoffset
    omega
  obtain ⟨x, hx, hlayout⟩ := exists_layoutOffset (Nat.mod_lt offset hpos)
  have he : offset / (plan.destination.on c).localLen < E := by
    rw [Nat.div_lt_iff_lt_mul hpos]
    exact hoffset
  obtain ⟨d, hd, hcell⟩ := h _ he _ (owns_toGlobal hx)
  obtain ⟨d', hd', hcell'⟩ := h' _ he _ (owns_toGlobal hx)
  rw [toLocal_toGlobal, hlayout, Nat.div_add_mod'] at hcell hcell'
  rw [hcell, hcell', owner_unique plan.source hd hd']

/-- Only the elements of the source blocks count. -/
theorem IsTransposed.congr {elements' : Coords topology.processGrid → List α} {cells : List α}
    (h : IsTransposed plan c E elements cells)
    (heq : ∀ d, ∀ j < E * (plan.source.on d).localLen, (elements d)[j]? = (elements' d)[j]?) :
    IsTransposed plan c E elements' cells := by
  intro e he g hg
  obtain ⟨d, hd, hcell⟩ := h e he g hg
  have hlt := layoutOffset_lt (validLocal_toLocal hd)
  have hend := extra_end_le (plan.source.on d).localLen he
  exact ⟨d, hd, by rw [hcell, heq d _ (by omega)]⟩

/-- Only the block's own prefix counts. -/
theorem IsTransposed.take {cells : List α} (h : IsTransposed plan c E elements cells) :
    IsTransposed plan c E elements (cells.take (E * (plan.destination.on c).localLen)) := by
  intro e he g hg
  obtain ⟨d, hd, hcell⟩ := h e he g hg
  have hlt := layoutOffset_lt (validLocal_toLocal hg)
  have hend := extra_end_le (plan.destination.on c).localLen he
  exact ⟨d, hd, by rw [List.getElem?_take_of_lt (by omega), hcell]⟩

/-- Unpacking what was received transposes the array. -/
theorem unpack_isTransposed {received : List α} (buf : Buf α) {storageLen : ℕ}
    (hreceived : received.length = E * (plan.destination.on c).localLen)
    (hstorage : E * (plan.destination.on c).localLen ≤ storageLen)
    (hstore : E * (plan.destination.on c).localLen < usizeLimit)
    (hbuf : storageLen ≤ buf.cells.length)
    (h : HasReceived plan c E elements none received) :
    ∃ buf', unpackDestination (plan.on c).peers (plan.destination.on c) buf storageLen received E
        = some buf' ∧
      buf'.cells.length = buf.cells.length ∧
      (∃ written, written.Perm (List.range (E * (plan.destination.on c).localLen)) ∧
        buf'.log = buf.log ++ written) ∧
      IsTransposed plan c E elements buf'.cells ∧
      ∀ j, E * (plan.destination.on c).localLen ≤ j → buf'.cells[j]? = buf.cells[j]? := by
  obtain ⟨buf', hbuf', hlen, hlog, hcells, hkept⟩ :=
    unpack_spec plan c E none hreceived hstorage hstore hbuf
  have hperm := unpackPositions_perm plan c E
  refine ⟨buf', hbuf', hlen, ⟨_, hperm, hlog⟩, ?_, ?_⟩
  · apply isTransposed_of_regions
    intro k e he i hi
    rw [hcells k k.isLt (by simp) e he i hi]
    exact h k (by simp) e he i hi
  · intro j hj
    apply hkept
    intro hmem
    have := List.mem_range.mp (hperm.subset hmem)
    omega

/-! ## The transposed array, in terms of views -/

variable {extraShape : ExtraShape} (source : DistributedView plan.source extraShape α)

/-- Every owned element of the destination is the one that its unique source owner has at
the same extra and global index. -/
def HoldsTranspose (cells : List α) : Prop :=
  ∀ e g, ValidIndices extraShape.dimensions e → Owns (plan.destination.on c).localRanges g →
    ∃ d, Owns (plan.source.on d).localRanges g ∧
      (∀ d', Owns (plan.source.on d').localRanges g → d' = d) ∧
      ∃ value offset, (source.on d).getGlobal e g = some value ∧
        globalOffset (plan.destination.on c) extraShape e g = some offset ∧
        cells[offset]? = some value

theorem IsTransposed.holdsTranspose {cells : List α}
    (hfit : extraShape.elementCount * (plan.destination.on c).localLen < usizeLimit)
    (h : IsTransposed plan c extraShape.elementCount (fun d => (source.on d).storage) cells) :
    HoldsTranspose plan c source cells := by
  intro e g he hg
  have helt : rowMajorValue extraShape.dimensions e < extraShape.elementCount := by
    rw [elementCount_eq]
    exact rowMajorValue_lt he
  obtain ⟨d, hd, hcell⟩ := h _ helt g hg
  have hfitd := source_fits plan source d
  have hvalid : ValidElement (plan.source.on d) extraShape e (toLocal (plan.source.on d) g) :=
    ⟨he, validLocal_toLocal hd⟩
  have hlt := elementOffset_lt hvalid
  rw [← source_length plan source d] at hlt
  have hoffset : globalOffset (plan.source.on d) extraShape e g
      = some (elementOffset (plan.source.on d) extraShape e (toLocal (plan.source.on d) g)) :=
    (globalOffset_eq_some hfitd).mpr ⟨hd, he, rfl⟩
  refine ⟨d, hd, fun d' hd' => owner_unique plan.source hd' hd,
    (source.on d).storage.get ⟨_, hlt⟩,
    elementOffset (plan.destination.on c) extraShape e (toLocal (plan.destination.on c) g), ?_,
    (globalOffset_eq_some hfit).mpr ⟨hg, he, rfl⟩, ?_⟩
  · unfold PencilArrayView.getGlobal
    rw [source.pencil_eq, source.extraShape_eq, hoffset]
    exact List.getElem?_eq_getElem hlt
  · unfold elementOffset
    rw [hcell]
    exact List.getElem?_eq_getElem hlt

/-- Every storage position stands for an extra and a global index. -/
theorem HoldsTranspose.isTransposed {cells : List α}
    (hfit : extraShape.elementCount * (plan.destination.on c).localLen < usizeLimit)
    (h : HoldsTranspose plan c source cells) :
    IsTransposed plan c extraShape.elementCount (fun d => (source.on d).storage) cells := by
  intro e he g hg
  rw [elementCount_eq] at he
  have hvalue := rowMajorValue_indicesOf he
  obtain ⟨d, hd, _, value, offset, hget, hoffset, hcell⟩ := h _ g (validIndices_indicesOf he) hg
  refine ⟨d, hd, ?_⟩
  have hdestination := ((globalOffset_eq_some hfit).mp hoffset).2.2
  unfold PencilArrayView.getGlobal at hget
  rw [source.pencil_eq, source.extraShape_eq] at hget
  obtain ⟨offset', hoffset', hget⟩ := Option.bind_eq_some_iff.mp hget
  have hsource := ((globalOffset_eq_some (source_fits plan source d)).mp hoffset').2.2
  simp only [elementOffset, hvalue] at hdestination hsource
  rw [← hdestination, ← hsource, hcell, hget]

end Plan

end PencilRs.Analysis
