import PencilRs.Analysis.Unpacking

/-!
# The region a rank keeps

What a rank sends to itself is what it receives from itself, so it can be copied directly.
The direct copy and the unpacking of the other peers together write every position of the
block once.
-/

set_option autoImplicit false

namespace PencilRs.Analysis

open PencilRs.Computation PencilRs.Model

variable {N M : ℕ} {α : Type} {topology : MpiTopology M} {mode : CommunicationMode}

/-- The positions of one peer's receive region, extra index by extra index. -/
def blockPositions (q : Pencil N M) (E : ℕ) (peer : PeerMetadata N) : List ℕ :=
  (List.range E).flatMap fun e => (unpackBlock q E peer e).map Prod.fst

theorem map_fst_unpackMoves (q : Pencil N M) (E : ℕ) (skip : Option ℕ)
    (peers : List (PeerMetadata N)) :
    (unpackMoves q E skip peers).map Prod.fst
      = peers.flatMap fun peer =>
          if skip = some peer.peerCoordinate then [] else blockPositions q E peer := by
  rw [unpackMoves, List.map_flatMap]
  apply List.flatMap_congr
  intro peer _
  split
  · rfl
  · rw [blockPositions, List.map_flatMap]

section Plan

variable (plan : DistributedPlan topology N mode) (c : Coords topology.processGrid)

theorem peerOf_self : peerOf plan c (c (changedAxis plan)) = c :=
  Function.update_eq_self _ _

/-- What a rank sends to itself is what it receives from itself. -/
theorem sentTo_self :
    sentTo plan c (c (changedAxis plan)) = receivedFrom plan c (c (changedAxis plan)) := by
  rw [receivedFrom_eq_sentTo, peerOf_self]

/-- The rank among its peers. -/
abbrev selfAt : PeerMetadata N :=
  peerAt (plan.source.on c) (plan.destination.on c) (changedAxis plan) (c (changedAxis plan))

/-- The moves of the direct copy. -/
abbrev ownMoves (E : ℕ) : List (ℕ × ℕ) :=
  selfMoves (plan.source.on c) (plan.destination.on c) E
    (receivedFrom plan c (c (changedAxis plan)))

theorem map_fst_ownMoves (E : ℕ) :
    (ownMoves plan c E).map Prod.fst
      = blockPositions (plan.destination.on c) E (selfAt plan c) := by
  rw [ownMoves, selfMoves, blockPositions, List.map_flatMap]
  apply List.flatMap_congr
  intro e _
  rw [unpackBlock, List.map_map, List.map_map]
  rfl

/-- **The direct copy and the other peers** write every position once. -/
theorem ownPositions_perm (E : ℕ) :
    ((ownMoves plan c E).map Prod.fst ++ (unpackMoves (plan.destination.on c) E
      (some (c (changedAxis plan) : ℕ)) (plan.on c).peers).map Prod.fst).Perm
        (List.range (E * (plan.destination.on c).localLen)) := by
  refine List.Perm.trans ?_ (unpackPositions_perm plan c E)
  rw [map_fst_ownMoves, map_fst_unpackMoves, map_fst_unpackMoves, peers_on, List.flatMap_map,
    List.flatMap_map]
  simp only [reduceCtorEq, if_false, Option.some.injEq]
  have hself : (c (changedAxis plan) : ℕ) ∈ List.range (peerCount plan) :=
    List.mem_range.mpr (c (changedAxis plan)).isLt
  have hskip := perm_flatMap_skip (fun k : ℕ => blockPositions (plan.destination.on c) E
    (peerAt (plan.source.on c) (plan.destination.on c) (changedAxis plan) k))
    List.nodup_range hself
  refine List.Perm.trans ?_ hskip
  apply List.Perm.append_left
  apply List.Perm.of_eq
  apply List.flatMap_congr
  intro k _
  by_cases hk : k = c (changedAxis plan)
  · rw [if_pos hk]
    exact if_pos hk.symm
  · rw [if_neg hk]
    exact if_neg (Ne.symm hk)

variable {E : ℕ} {elements : Coords topology.processGrid → List α}

/-- The direct copy moves the rank's own elements into place. -/
theorem copySelf_spec {storage : List α} (buf : Buf α) {storageLen : ℕ}
    (hsource : E * (plan.source.on c).localLen ≤ storage.length)
    (hstore : E * (plan.source.on c).localLen < usizeLimit)
    (hstorage : E * (plan.destination.on c).localLen ≤ storageLen)
    (hstore' : E * (plan.destination.on c).localLen < usizeLimit)
    (hbuf : storageLen ≤ buf.cells.length) :
    ∃ buf', copySelfRegion (selfAt plan c) (plan.source.on c) storage (plan.destination.on c) buf
        storageLen E = some buf' ∧
      buf'.cells.length = buf.cells.length ∧
      buf'.log = buf.log ++ (ownMoves plan c E).map Prod.fst ∧
      ∀ e < E, ∀ i < regionSize (receivedFrom plan c (c (changedAxis plan))),
        buf'.cells[e * (plan.destination.on c).localLen + regionPosition (plan.destination.on c)
            (receivedFrom plan c (c (changedAxis plan))) i]?
          = storage[e * (plan.source.on c).localLen + regionPosition (plan.source.on c)
              (receivedFrom plan c (c (changedAxis plan))) i]? := by
  have hlt := (c (changedAxis plan)).isLt
  have hbounds := fun a =>
    (change_on plan c).receiveRegion_bounds (lt_processGrid plan c hlt) a
  have hsize := (change_on plan c).receiveSize_le (lt_processGrid plan c hlt)
  have hinside : 0 < regionSize (receivedFrom plan c (c (changedAxis plan))) →
      InsideBlock (plan.source.on c) (receivedFrom plan c (c (changedAxis plan))) ∧
        InsideBlock (plan.destination.on c) (receivedFrom plan c (c (changedAxis plan))) := by
    intro hpos
    refine ⟨?_, insideBlock_receivedFrom plan c hlt hpos⟩
    rw [← sentTo_self] at hpos ⊢
    exact insideBlock_sentTo plan c hlt hpos
  have hprogram : copySelfRegion (selfAt plan c) (plan.source.on c) storage
      (plan.destination.on c) buf storageLen E
        = Buf.moveAll (fun i => storage[i]?) buf (ownMoves plan c E) := by
    show copySelfRegionRegions _ (sentTo plan c (c (changedAxis plan))) _ _
      (receivedFrom plan c (c (changedAxis plan))) _ _ _ = _
    rw [sentTo_self]
    exact copySelfRegionRegions_eq (fun a => (hbounds a).2.2) hinside
      ((Nat.le_of_add_left_le hsize).trans_lt (localLen_lt _)) hsource hstore hstorage hstore' hbuf
  have hreads : ∀ m ∈ ownMoves plan c E, (storage[m.2]?).isSome := by
    intro m hm
    obtain ⟨e, he, hm⟩ := List.mem_flatMap.mp hm
    obtain ⟨i, hi, rfl⟩ := List.mem_map.mp hm
    have hi := List.mem_range.mp hi
    have hend := extra_end_le (plan.source.on c).localLen (List.mem_range.mp he)
    have hpos := regionPosition_lt (hinside (by omega)).1 i
    rw [List.getElem?_eq_getElem (by simp only; omega)]
    rfl
  obtain ⟨buf', hbuf'⟩ := Buf.moveAll_isSome buf hreads
  refine ⟨buf', hprogram.trans hbuf', Buf.length_moveAll hbuf', Buf.log_moveAll hbuf', ?_⟩
  have hperm := ownPositions_perm plan c E
  have hnodup := hperm.nodup_iff.mpr List.nodup_range
  intro e he i hi
  have hmem : (e * (plan.destination.on c).localLen + regionPosition (plan.destination.on c)
        (receivedFrom plan c (c (changedAxis plan))) i,
      e * (plan.source.on c).localLen + regionPosition (plan.source.on c)
        (receivedFrom plan c (c (changedAxis plan))) i) ∈ ownMoves plan c E :=
    List.mem_flatMap.mpr ⟨e, List.mem_range.mpr he,
      List.mem_map.mpr ⟨i, List.mem_range.mpr hi, rfl⟩⟩
  refine Buf.cells_moveAll_of_mem hbuf' hnodup.of_append_left ?_ hmem
  have hlt' := List.mem_range.mp
    (hperm.subset (List.mem_append_left _ (List.mem_map_of_mem hmem)))
  simp only at hlt'
  omega

/-- **The view path** completes the block: the rank's own elements are copied and the others
unpacked around them. -/
theorem copySelf_unpack_spec {storage received destination : List α}
    (hsource : E * (plan.source.on c).localLen ≤ storage.length)
    (hstore : E * (plan.source.on c).localLen < usizeLimit)
    (hdestination : destination.length = E * (plan.destination.on c).localLen)
    (hstore' : E * (plan.destination.on c).localLen < usizeLimit)
    (hreceived : received.length = E * (plan.destination.on c).localLen)
    (hown : storage = elements c)
    (h : HasReceived plan c E elements (some (c (changedAxis plan) : ℕ)) received) :
    ∃ copied written, copySelfRegion (selfAt plan c) (plan.source.on c) storage
        (plan.destination.on c) (Buf.fresh destination) destination.length E = some copied ∧
      unpackDestinationExceptSelf (plan.on c).peers (c (changedAxis plan))
        (plan.destination.on c) copied destination.length received E = some written ∧
      written.cells.length = destination.length ∧
      written.log.Perm (List.range destination.length) ∧
      IsTransposed plan c E elements written.cells := by
  obtain ⟨copied, hcopied, hcopiedLen, hcopiedLog, hcopiedCells⟩ := copySelf_spec plan c
    (Buf.fresh destination) hsource hstore hdestination.ge hstore' le_rfl
  obtain ⟨written, hwritten, hwrittenLen, hwrittenLog, hcells, hkept⟩ := unpack_spec plan c E
    (some (c (changedAxis plan) : ℕ)) hreceived hdestination.ge hstore' hcopiedLen.ge
  have hperm := ownPositions_perm plan c E
  refine ⟨copied, written, hcopied, hwritten, hwrittenLen.trans hcopiedLen, ?_, ?_⟩
  · rw [hwrittenLog, hcopiedLog, hdestination]
    exact hperm
  · apply isTransposed_of_regions
    intro k e he i hi
    by_cases hk : (k : ℕ) = c (changedAxis plan)
    · obtain rfl : k = c (changedAxis plan) := Fin.ext hk
      have hmem : e * (plan.destination.on c).localLen + regionPosition (plan.destination.on c)
          (receivedFrom plan c (c (changedAxis plan))) i ∈ (ownMoves plan c E).map Prod.fst := by
        refine List.mem_map.mpr ⟨_, List.mem_flatMap.mpr ⟨e, List.mem_range.mpr he,
          List.mem_map.mpr ⟨i, List.mem_range.mpr hi, rfl⟩⟩, rfl⟩
      have hdisjoint := List.disjoint_of_nodup_append (hperm.nodup_iff.mpr List.nodup_range)
      rw [hkept _ (hdisjoint hmem), hcopiedCells e he i hi, hown, peerOf_self]
    · have hskip : (some (c (changedAxis plan) : ℕ)) ≠ some (k : ℕ) := by
        simpa [eq_comm] using hk
      rw [hcells k k.isLt hskip e he i hi]
      exact h k hskip e he i hi

end Plan

end PencilRs.Analysis
