import PencilRs.Analysis.RegionCopy

/-!
# What packing, unpacking and the direct copy move

Packing moves the elements of each send region, extra index by extra index, into the
peer's payload segment in payload order; unpacking moves them from the segments into the
receive regions; the direct copy goes from region to region.
-/

set_option autoImplicit false

namespace PencilRs.Analysis

open PencilRs.Computation PencilRs.Model

variable {N M : ℕ} {α ρ : Type}

/-- The loop over extra indices performs the moves of each block in turn. -/
theorem copyPeerBlocks_eq {p : Pencil N M} {region : Fin N → Range} (h : InsideBlock p region)
    {len disp extraCount n : ℕ} {copy : RegionWalk N → ℕ → ℕ → ℕ → Buf α → Option (Buf α)}
    {buf : Buf α} {read : ρ → Option α} {moves : ℕ → List (ℕ × ρ)}
    (hlen : len = regionSize region) (hextra : 0 < extraCount)
    (hstore : extraCount * p.localLen < usizeLimit)
    (hpay : disp * extraCount + extraCount * len < usizeLimit)
    (hbuf : buf.cells.length = n)
    (hcopy : ∀ walk, IsWalk p region walk → ∀ e < extraCount, ∀ b : Buf α,
      b.cells.length = n →
      copy walk (e * p.localLen) (disp * extraCount + e * len)
        (disp * extraCount + e * len + len) b = Buf.moveAll read b (moves e)) :
    copyPeerBlocks (LocalLayout.new p) region len disp extraCount copy buf
      = Buf.moveAll read buf ((List.range extraCount).flatMap moves) := by
  obtain ⟨walk, hwalk, hw⟩ := regionWalk_eq h
  have hsize : walk.outerLen * walk.runLen = len := by rw [outerLen_mul_runLen hw, hlen]
  have hmax : walk.maxOffset < p.localLen := by
    rw [hw.maxOffset]
    refine layoutOffset_lt (h.validLocal_add fun axis => ?_)
    have := h.extent_pos axis
    omega
  have hsplit : extraCount * p.localLen = (extraCount - 1) * p.localLen + p.localLen := by
    rw [← Nat.succ_mul, Nat.succ_eq_add_one, Nat.sub_add_cancel hextra]
  have hlayout : (LocalLayout.new p).localLen = p.localLen := rfl
  have hmul1 : checkedMul (extraCount - 1) (LocalLayout.new p).localLen
      = some ((extraCount - 1) * p.localLen) :=
    checkedMul_eq_some.mpr ⟨by rw [hlayout]; omega, by rw [hlayout]⟩
  have hadd1 : checkedAdd ((extraCount - 1) * p.localLen) walk.maxOffset
      = some ((extraCount - 1) * p.localLen + walk.maxOffset) :=
    checkedAdd_eq_some.mpr ⟨by omega, rfl⟩
  have hmul2 : checkedMul disp extraCount = some (disp * extraCount) :=
    checkedMul_eq_some.mpr ⟨by omega, rfl⟩
  have hassert : ¬ (extraCount - 1) * p.localLen + walk.maxOffset
      ≥ min ((LocalLayout.new p).localLen * extraCount) (usizeLimit - 1) := by
    rw [hlayout, Nat.mul_comm p.localLen]
    omega
  unfold copyPeerBlocks
  rw [hwalk]
  simp only [Option.bind_eq_bind, Option.bind_some]
  rw [if_neg (by simp [hsize])]
  simp only [hmul1, Option.bind_some, hadd1]
  rw [if_neg hassert]
  simp only [hmul2, Option.bind_some]
  refine Buf.foldlM_moveAll (n := n) _ moves _ ?_ buf hbuf
  intro e he b hb
  have hlt : e < extraCount := List.mem_range.mp he
  have hle : e * p.localLen ≤ (extraCount - 1) * p.localLen :=
    Nat.mul_le_mul_right _ (by omega)
  have hle' : (e + 1) * len ≤ extraCount * len := Nat.mul_le_mul_right _ hlt
  have hsucc : (e + 1) * len = e * len + len := Nat.succ_mul e len
  have hmul3 : checkedMul e (LocalLayout.new p).localLen = some (e * p.localLen) :=
    checkedMul_eq_some.mpr ⟨by rw [hlayout]; omega, by rw [hlayout]⟩
  have hmul4 : checkedMul e len = some (e * len) := checkedMul_eq_some.mpr ⟨by omega, rfl⟩
  have hadd2 : checkedAdd (disp * extraCount) (e * len) = some (disp * extraCount + e * len) :=
    checkedAdd_eq_some.mpr ⟨by omega, rfl⟩
  have hadd3 : checkedAdd (disp * extraCount + e * len) len
      = some (disp * extraCount + e * len + len) := checkedAdd_eq_some.mpr ⟨by omega, rfl⟩
  simp only [hmul3, hmul4, hadd2, hadd3, Option.bind_some]
  exact hcopy walk hw e hlt b hb

/-! ## Packing -/

/-- A peer whose send segment lies in the send prefix and whose region lies in the block. -/
structure SendSound (p : Pencil N M) (extraCount sendLen : ℕ) (peer : PeerMetadata N) :
    Prop where
  size : peer.sendSpatialLen = regionSize peer.sendRegion
  inside : 0 < peer.sendSpatialLen → InsideBlock p peer.sendRegion
  fits : peer.sendSpatialDisplacement * extraCount + extraCount * peer.sendSpatialLen ≤ sendLen

/-- Moves `(payload position, storage offset)` of one extra index of one peer. -/
def packBlock (p : Pencil N M) (extraCount : ℕ) (peer : PeerMetadata N) (e : ℕ) :
    List (ℕ × ℕ) :=
  (List.range peer.sendSpatialLen).map fun q =>
    (peer.sendSpatialDisplacement * extraCount + e * peer.sendSpatialLen + q,
      e * p.localLen + regionPosition p peer.sendRegion q)

/-- Moves of a pack, peer by peer. -/
def packMoves (p : Pencil N M) (extraCount : ℕ) (skip : Option ℕ)
    (peers : List (PeerMetadata N)) : List (ℕ × ℕ) :=
  peers.flatMap fun peer =>
    if skip = some peer.peerCoordinate then []
    else (List.range extraCount).flatMap (packBlock p extraCount peer)

theorem block_end_le {disp extraCount len bound e : ℕ}
    (hfits : disp * extraCount + extraCount * len ≤ bound) (he : e < extraCount) :
    disp * extraCount + e * len + len ≤ bound := by
  have hle : (e + 1) * len ≤ extraCount * len := Nat.mul_le_mul_right _ he
  have hsucc : (e + 1) * len = e * len + len := Nat.succ_mul e len
  omega

theorem extra_end_le (localLen : ℕ) {extraCount e : ℕ} (he : e < extraCount) :
    e * localLen + localLen ≤ extraCount * localLen := by
  have hle : (e + 1) * localLen ≤ extraCount * localLen := Nat.mul_le_mul_right _ he
  rwa [Nat.succ_mul] at hle

theorem packSourceRegionsSkipping_eq {p : Pencil N M} {extraCount sendLen : ℕ}
    {peers : List (PeerMetadata N)} (hpeers : ∀ peer ∈ peers, SendSound p extraCount sendLen peer)
    (skip : Option ℕ) {storage : List α} {buf : Buf α}
    (hstorage : extraCount * p.localLen ≤ storage.length)
    (hstore : extraCount * p.localLen < usizeLimit) (hsend : sendLen < usizeLimit)
    (hbuf : sendLen ≤ buf.cells.length) :
    packSourceRegionsSkipping peers skip (LocalLayout.new p) storage buf sendLen extraCount
      = Buf.moveAll (fun i => storage[i]?) buf (packMoves p extraCount skip peers) := by
  unfold packSourceRegionsSkipping
  by_cases hzero : extraCount = 0
  · rw [if_pos hzero]
    have hnil : packMoves p extraCount skip peers = [] := by simp [packMoves, hzero]
    rw [hnil, Buf.moveAll_nil]
  rw [if_neg hzero]
  refine Buf.foldlM_moveAll (n := buf.cells.length) _
    (fun peer => if skip = some peer.peerCoordinate then []
      else (List.range extraCount).flatMap (packBlock p extraCount peer)) _ ?_ buf rfl
  intro peer hmem b hb
  have hsound := hpeers peer hmem
  by_cases hskip : skip = some peer.peerCoordinate
  · simp [hskip]
  by_cases hlen : peer.sendSpatialLen = 0
  · have hnil : (List.range extraCount).flatMap (packBlock p extraCount peer) = [] := by
      simp [packBlock, hlen]
    rw [if_pos (Or.inr hlen), if_neg hskip, hnil, Buf.moveAll_nil]
  rw [if_neg (by simp [hskip, hlen]), if_neg hskip]
  have hin := hsound.inside (by omega)
  have hfits := hsound.fits
  refine copyPeerBlocks_eq hin hsound.size (by omega) hstore (by omega) hb ?_
  intro walk hw e he b' hb'
  have hend := block_end_le hfits he
  have hextra := extra_end_le p.localLen he
  rw [slice?_eq (by omega) (by omega)]
  simp only [Option.bind_eq_bind, Option.bind_some]
  rw [if_neg (by omega)]
  have hdrop : (storage.drop (e * p.localLen)).take (storage.length - e * p.localLen)
      = storage.drop (e * p.localLen) := List.take_of_length_le (by simp)
  rw [hdrop, copyRegionToPayload_eq hin hw (by rw [List.length_drop]; omega)
    (by rw [hsound.size]) (by omega),
    Buf.moveAll_map_place (g := fun i => storage[i]?) (fun i => e * p.localLen + i)]
  · rw [List.map_map, packBlock, hsound.size]
    rfl
  · intro m _
    rw [List.getElem?_drop]

/-! ## Unpacking -/

/-- A peer whose receive segment lies in the receive prefix and whose region lies in the
block. -/
structure ReceiveSound (p : Pencil N M) (extraCount receiveLen : ℕ) (peer : PeerMetadata N) :
    Prop where
  size : peer.receiveSpatialLen = regionSize peer.receiveRegion
  inside : 0 < peer.receiveSpatialLen → InsideBlock p peer.receiveRegion
  fits : peer.receiveSpatialDisplacement * extraCount + extraCount * peer.receiveSpatialLen
    ≤ receiveLen

/-- Moves `(storage offset, payload position)` of one extra index of one peer. -/
def unpackBlock (p : Pencil N M) (extraCount : ℕ) (peer : PeerMetadata N) (e : ℕ) :
    List (ℕ × ℕ) :=
  (List.range peer.receiveSpatialLen).map fun q =>
    (e * p.localLen + regionPosition p peer.receiveRegion q,
      peer.receiveSpatialDisplacement * extraCount + e * peer.receiveSpatialLen + q)

/-- Moves of an unpack, peer by peer. -/
def unpackMoves (p : Pencil N M) (extraCount : ℕ) (skip : Option ℕ)
    (peers : List (PeerMetadata N)) : List (ℕ × ℕ) :=
  peers.flatMap fun peer =>
    if skip = some peer.peerCoordinate then []
    else (List.range extraCount).flatMap (unpackBlock p extraCount peer)

theorem unpackDestinationRegionsSkipping_eq {p : Pencil N M} {extraCount storageLen : ℕ}
    {peers : List (PeerMetadata N)} {receive : List α}
    (hpeers : ∀ peer ∈ peers, ReceiveSound p extraCount receive.length peer)
    (skip : Option ℕ) {buf : Buf α} (hstorage : extraCount * p.localLen ≤ storageLen)
    (hstore : extraCount * p.localLen < usizeLimit) (hreceive : receive.length < usizeLimit)
    (hbuf : storageLen ≤ buf.cells.length) :
    unpackDestinationRegionsSkipping peers skip (LocalLayout.new p) buf storageLen receive
        extraCount
      = Buf.moveAll (fun i => receive[i]?) buf (unpackMoves p extraCount skip peers) := by
  unfold unpackDestinationRegionsSkipping
  by_cases hzero : extraCount = 0
  · rw [if_pos hzero]
    have hnil : unpackMoves p extraCount skip peers = [] := by simp [unpackMoves, hzero]
    rw [hnil, Buf.moveAll_nil]
  rw [if_neg hzero]
  refine Buf.foldlM_moveAll (n := buf.cells.length) _
    (fun peer => if skip = some peer.peerCoordinate then []
      else (List.range extraCount).flatMap (unpackBlock p extraCount peer)) _ ?_ buf rfl
  intro peer hmem b hb
  have hsound := hpeers peer hmem
  by_cases hskip : skip = some peer.peerCoordinate
  · simp [hskip]
  by_cases hlen : peer.receiveSpatialLen = 0
  · have hnil : (List.range extraCount).flatMap (unpackBlock p extraCount peer) = [] := by
      simp [unpackBlock, hlen]
    rw [if_pos (Or.inr hlen), if_neg hskip, hnil, Buf.moveAll_nil]
  rw [if_neg (by simp [hskip, hlen]), if_neg hskip]
  have hin := hsound.inside (by omega)
  have hfits := hsound.fits
  refine copyPeerBlocks_eq hin hsound.size (by omega) hstore (by omega) hb ?_
  intro walk hw e he b' hb'
  have hend := block_end_le hfits he
  have hextra := extra_end_le p.localLen he
  rw [slice?_eq (by omega) (by omega)]
  simp only [Option.bind_eq_bind, Option.bind_some]
  rw [if_neg (by omega), copyRegionFromPayload_eq hin hw
    (by rw [length_take_drop (by omega)]; exact hsound.size.ge) (by omega) (by omega),
    Buf.moveAll_map_place (g := fun i => receive[i]?) (fun q =>
      peer.receiveSpatialDisplacement * extraCount + e * peer.receiveSpatialLen + q)]
  · rw [List.map_map, unpackBlock, hsound.size]
    rfl
  · intro m hm
    obtain ⟨q, hq, rfl⟩ := List.mem_map.mp hm
    have hlt : q < regionSize peer.receiveRegion := List.mem_range.mp hq
    have := hsound.size
    simp only
    rw [List.getElem?_take_of_lt (by omega), List.getElem?_drop]

/-! ## The direct copy -/

/-- Moves of the direct copy of one region. -/
def selfMoves (source destination : Pencil N M) (extraCount : ℕ) (region : Fin N → Range) :
    List (ℕ × ℕ) :=
  (List.range extraCount).flatMap fun e =>
    (List.range (regionSize region)).map fun q =>
      (e * destination.localLen + regionPosition destination region q,
        e * source.localLen + regionPosition source region q)

theorem regionShape_eq {region : Fin N → Range} (h : ∀ axis, (region axis).start ≤ (region axis).stop) :
    regionShape region = .ok (regionExtent region) := by
  have hloop : ∀ (l : List (Fin N)) (shape : Fin N → ℕ),
      l.foldlM (fun shape axis =>
        (okOr (checkedSub (region axis).stop (region axis).start)
          TransposeError.preparationFailed).map (Function.update shape axis)) shape
        = .ok (l.foldl (fun s axis => Function.update s (id axis) (regionExtent region axis))
            shape) := by
    intro l
    induction l with
    | nil => exact fun shape => rfl
    | cons axis l ih =>
      intro shape
      have hsub : checkedSub (region axis).stop (region axis).start
          = some (regionExtent region axis) := checkedSub_eq_some.mpr ⟨h axis, rfl⟩
      rw [List.foldlM_cons, List.foldl_cons, hsub]
      exact ih _
  unfold regionShape
  rw [hloop]
  congr 1
  funext axis
  exact foldl_update_of_mem Function.injective_id (regionExtent region) _ _
    (List.mem_finRange axis)

theorem regionSpatialLen_eq {region : Fin N → Range}
    (h : ∀ axis, (region axis).start ≤ (region axis).stop)
    (hfit : regionSize region < usizeLimit) :
    regionSpatialLen region = .ok (regionSize region) := by
  unfold regionSpatialLen
  rw [regionShape_eq h]
  have hprod : (List.ofFn (regionExtent region)).prod = regionSize region := List.prod_ofFn
  simp only [bind, Except.bind]
  rw [checkedProduct_of_lt (by rwa [hprod]), hprod]
  rfl

theorem copySelfRegionRegions_eq {p p' : Pencil N M} {region : Fin N → Range}
    {extraCount storageLen : ℕ} {source : List α} {buf : Buf α}
    (hordered : ∀ axis, (region axis).start ≤ (region axis).stop)
    (hin : 0 < regionSize region → InsideBlock p region ∧ InsideBlock p' region)
    (hfit : regionSize region < usizeLimit)
    (hsource : extraCount * p.localLen ≤ source.length)
    (hstore : extraCount * p.localLen < usizeLimit)
    (hstorage : extraCount * p'.localLen ≤ storageLen)
    (hstore' : extraCount * p'.localLen < usizeLimit) (hbuf : storageLen ≤ buf.cells.length) :
    copySelfRegionRegions (LocalLayout.new p) region source (LocalLayout.new p') region buf
        storageLen extraCount
      = Buf.moveAll (fun i => source[i]?) buf (selfMoves p p' extraCount region) := by
  unfold copySelfRegionRegions
  by_cases hzero : extraCount = 0
  · rw [if_pos hzero]
    have hnil : selfMoves p p' extraCount region = [] := by simp [selfMoves, hzero]
    rw [hnil]
    rfl
  rw [if_neg hzero, regionSpatialLen_eq hordered hfit]
  simp only [Except.toOption, Option.bind_eq_bind, Option.bind_some]
  by_cases hsize : regionSize region = 0
  · rw [if_pos hsize]
    have hnil : selfMoves p p' extraCount region = [] := by simp [selfMoves, hsize]
    rw [hnil]
    rfl
  obtain ⟨h, h'⟩ := hin (by omega)
  obtain ⟨walk, hwalk, hw⟩ := regionWalk_eq h
  obtain ⟨walk', hwalk', hw'⟩ := regionWalk_eq h'
  rw [if_neg hsize, hwalk]
  simp only [Option.bind_some]
  rw [hwalk']
  simp only [Option.bind_some, outerLen_mul_runLen hw, outerLen_mul_runLen hw', ne_eq,
    not_true_eq_false, if_false]
  refine Buf.foldlM_moveAll (n := buf.cells.length) _ _ _ ?_ buf rfl
  intro e he b hb
  have hlt : e < extraCount := List.mem_range.mp he
  have hextra := extra_end_le p.localLen hlt
  have hextra' := extra_end_le p'.localLen hlt
  have hmul : checkedMul e (LocalLayout.new p).localLen = some (e * p.localLen) :=
    checkedMul_eq_some.mpr ⟨by simp only [LocalLayout.new]; omega, rfl⟩
  have hmul' : checkedMul e (LocalLayout.new p').localLen = some (e * p'.localLen) :=
    checkedMul_eq_some.mpr ⟨by simp only [LocalLayout.new]; omega, rfl⟩
  rw [hmul, hmul']
  simp only [Option.bind_some]
  rw [slice?_eq (by omega) (by omega)]
  simp only [Option.bind_some]
  have hdrop : (source.drop (e * p.localLen)).take (source.length - e * p.localLen)
      = source.drop (e * p.localLen) := List.take_of_length_le (by simp)
  rw [if_neg (by omega), hdrop, copyRegionBetween_eq h hw h' hw' rfl
    (by rw [List.length_drop]; omega) (by omega) (by omega),
    Buf.moveAll_map_place (g := fun i => source[i]?) (fun i => e * p.localLen + i)]
  · rw [List.map_map]
    rfl
  · intro m _
    rw [List.getElem?_drop]

end PencilRs.Analysis
