import PencilRs.Analysis.RegionReference

/-!
# The walk visits the region

For any layout of a block, with any shape and any order of the axes, the odometer passes the
offsets that the elementwise reference computes, in the same order, and the copies that follow
it move the elements at these offsets.
-/

set_option autoImplicit false

namespace PencilRs.Analysis

open PencilRs.Computation PencilRs.Model

variable {N M : ℕ} {α : Type}

/-! ## What the loops pass -/

/-- One position of the copy loops, with the offsets passed so far. -/
def walkedStep (walk : RegionWalk N) (state : List ℕ × (Fin N → ℕ) × ℕ) (position : ℕ) :
    Option (List ℕ × (Fin N → ℕ) × ℕ) :=
  let offsets := state.1 ++ (List.range walk.runLen).map fun index =>
    state.2.2 + index * walk.runStride
  if position + 1 = walk.outerLen then some (offsets, state.2)
  else (advanceRegion walk state.2).map fun next => (offsets, next)

/-- The offsets that the copy loops pass, in order; `none` where the odometer leaves `usize`. -/
def walkedOffsets (walk : RegionWalk N) : Option (List ℕ) :=
  ((List.range walk.outerLen).foldlM (walkedStep walk) ([], fun _ => 0, walk.start)).map Prod.fst

theorem walkedOffsets_eq {p : Pencil N M} {region : Fin N → Range} {walk : RegionWalk N}
    (h : InsideBlock p region) (hw : IsWalk p region walk) :
    walkedOffsets walk = some ((List.range (regionSize region)).map (regionPosition p region)) := by
  obtain ⟨state, hfirst, hnext, hoffset⟩ := visits_regionRuns h hw
  let runs (k : ℕ) : List ℕ := (List.range walk.runLen).map fun index =>
    walk.start + weighted walk.stride (outerAxes N).reverse (outerDigits region k)
      + index * walk.runStride
  obtain ⟨⟨offsets, final⟩, hloop, hinv, _⟩ := foldlM_range_inv (m := Option) (walkedStep walk)
    (fun k current => current.1 = (List.range k).flatMap runs ∧
      (k < walk.outerLen → current.2 = state k)) walk.outerLen ([], fun _ => 0, walk.start)
    ⟨rfl, fun _ => hfirst.symm⟩ (by
      rintro k hk ⟨offsets, current⟩ ⟨hoffsets, hstate⟩
      have hcurrent := hstate hk
      simp only at hoffsets hcurrent
      have hruns : offsets ++ (List.range walk.runLen).map (fun index =>
          current.2 + index * walk.runStride) = (List.range (k + 1)).flatMap runs := by
        have hhere : current.2
            = walk.start + weighted walk.stride (outerAxes N).reverse (outerDigits region k) := by
          rw [hcurrent]
          exact hoffset k hk
        rw [hoffsets, List.range_succ, List.flatMap_append, hhere]
        simp [runs]
      by_cases hlast : k + 1 = walk.outerLen
      · refine ⟨(offsets ++ (List.range walk.runLen).map fun index =>
          current.2 + index * walk.runStride, current), ?_, hruns, fun h => absurd h (by omega)⟩
        unfold walkedStep
        rw [if_pos hlast]
        rfl
      · have hstep : advanceRegion walk current = some (state (k + 1)) := by
          rw [hcurrent]
          exact hnext k (by omega)
        refine ⟨(offsets ++ (List.range walk.runLen).map fun index =>
          current.2 + index * walk.runStride, state (k + 1)), ?_, hruns, fun _ => rfl⟩
        unfold walkedStep
        rw [if_neg hlast, hstep]
        rfl)
  unfold walkedOffsets
  rw [hloop]
  show some offsets = _
  have hoffsets : offsets = (List.range walk.outerLen).flatMap runs := hinv
  rw [hoffsets, flatMap_range_map, outerLen_mul_runLen hw]
  congr 1
  apply List.map_congr_left
  intro q _
  exact walk_position h hw q

/-! ## Layouts -/

/-- A layout as a pencil publishes it: some axes, ranges in order, the shape in memory order and
its checked product. -/
structure IsLayout (layout : LocalLayout N) : Prop where
  spatial : 0 < N
  shapeMemory : layout.shapeMemory
    = layout.permutation.permute (shapeFromRanges layout.localRanges)
  localLen : checkedProduct (List.ofFn (shapeFromRanges layout.localRanges)) = .ok layout.localLen

theorem isLayout_new (p : Pencil N M) : IsLayout (LocalLayout.new p) where
  spatial := spatial_pos p
  shapeMemory := by
    show p.localShapeMemory = _
    rw [p.localShapeMemory_eq, p.localShapeLogical_eq]
    rfl
  localLen := by
    have hlen := p.localLen_ok
    rw [p.localShapeLogical_eq] at hlen
    exact hlen

/-- A nonempty region inside the ranges of a layout. -/
structure InsideRanges (localRanges region : Fin N → Range) : Prop where
  lower : ∀ axis, (localRanges axis).start ≤ (region axis).start
  upper : ∀ axis, (region axis).stop ≤ (localRanges axis).stop
  nonempty : ∀ axis, (region axis).start < (region axis).stop

section Layouts

variable {layout : LocalLayout N} {region : Fin N → Range}

theorem InsideRanges.extent_pos (h : InsideRanges layout.localRanges region) (axis : Fin N) :
    0 < shapeFromRanges layout.localRanges axis := by
  have := h.lower axis
  have := h.upper axis
  have := h.nonempty axis
  unfold shapeFromRanges Range.len
  omega

/-- The block of a layout as the whole array of one rank. -/
def pencilOfLayout (layout : LocalLayout N) (hlayout : IsLayout layout)
    (hpos : ∀ axis, 0 < shapeFromRanges layout.localRanges axis) : Pencil N 1 :=
  buildPencil oneRank (shapeFromRanges layout.localRanges)
    ⟨![⟨0, hlayout.spatial⟩], fun a b _ => Subsingleton.elim a b, Nat.one_pos⟩
    layout.permutation hpos (by
      have hfit := (checkedProduct_eq_ok.mp hlayout.localLen).2
      rwa [List.prod_ofFn] at hfit)

variable (hlayout : IsLayout layout)
  (hpos : ∀ axis, 0 < shapeFromRanges layout.localRanges axis)

theorem localRanges_pencilOfLayout :
    (pencilOfLayout layout hlayout hpos).localRanges
      = fun axis => ⟨0, shapeFromRanges layout.localRanges axis⟩ := by
  funext axis
  have hwhole : axisPosition ![⟨0, hlayout.spatial⟩] oneRank.processGrid oneRank.localCoords axis
      = (1, 0) := by
    unfold axisPosition
    split
    · rename_i t _
      rw [Subsingleton.elim t 0]
      rfl
    · rfl
  show blockRange _ (axisPosition _ _ _ axis).1 (axisPosition _ _ _ axis).2 = _
  rw [show axisPosition _ _ _ axis = (1, 0) from hwhole]
  unfold blockRange
  rw [BlockPartition.cut_zero, Nat.zero_add, BlockPartition.cut_parts _ Nat.one_pos]

theorem layout_pencilOfLayout :
    (pencilOfLayout layout hlayout hpos).localShapeMemory = layout.shapeMemory ∧
      (pencilOfLayout layout hlayout hpos).localLen = layout.localLen := by
  have hshape : (pencilOfLayout layout hlayout hpos).localShapeLogical
      = shapeFromRanges layout.localRanges := by
    rw [(pencilOfLayout layout hlayout hpos).localShapeLogical_eq,
      localRanges_pencilOfLayout hlayout hpos]
    rfl
  constructor
  · rw [(pencilOfLayout layout hlayout hpos).localShapeMemory_eq, hshape, hlayout.shapeMemory]
    rfl
  · have hlen := (pencilOfLayout layout hlayout hpos).localLen_ok
    rw [hshape, hlayout.localLen] at hlen
    exact (Except.ok.inj hlen).symm

/-- A region relative to the start of the ranges. -/
def shiftRegion (localRanges region : Fin N → Range) : Fin N → Range := fun axis =>
  ⟨(region axis).start - (localRanges axis).start, (region axis).stop - (localRanges axis).start⟩

variable (hregion : InsideRanges layout.localRanges region)

include hregion in
theorem regionExtent_shiftRegion :
    regionExtent (shiftRegion layout.localRanges region) = regionExtent region := by
  funext axis
  have := hregion.lower axis
  have := hregion.nonempty axis
  simp only [regionExtent, shiftRegion, Range.len]
  omega

include hregion in
theorem insideBlock_shiftRegion :
    InsideBlock (pencilOfLayout layout hlayout hpos)
      (shiftRegion layout.localRanges region) := by
  have hranges := localRanges_pencilOfLayout hlayout hpos
  refine ⟨fun axis => ?_, fun axis => ?_, fun axis => ?_⟩
  · rw [hranges]
    exact Nat.zero_le _
  · have := hregion.upper axis
    simp only [hranges, shiftRegion, shapeFromRanges, Range.len]
    omega
  · have := hregion.lower axis
    have := hregion.nonempty axis
    unfold shiftRegion
    show (region axis).start - _ < (region axis).stop - _
    omega

include hregion in
theorem regionWalk_shiftRegion :
    regionWalk layout region = regionWalk (LocalLayout.new (pencilOfLayout layout hlayout hpos))
      (shiftRegion layout.localRanges region) := by
  have hranges := localRanges_pencilOfLayout hlayout hpos
  have hstrides : regionStrides (LocalLayout.new (pencilOfLayout layout hlayout hpos))
      = regionStrides layout := by
    unfold regionStrides
    rw [show (LocalLayout.new (pencilOfLayout layout hlayout hpos)).shapeMemory
      = layout.shapeMemory from (layout_pencilOfLayout hlayout hpos).1]
    rfl
  have hstep : ∀ stride, walkStep layout region stride
      = walkStep (LocalLayout.new (pencilOfLayout layout hlayout hpos))
          (shiftRegion layout.localRanges region) stride := by
    intro stride
    funext state axis
    have hlower := hregion.lower axis
    have hupper := hregion.upper axis
    have hnonempty := hregion.nonempty axis
    have hlength : checkedSub ((region axis).stop - (layout.localRanges axis).start)
        ((region axis).start - (layout.localRanges axis).start)
          = checkedSub (region axis).stop (region axis).start := by
      rw [checkedSub_eq_some.mpr ⟨by omega, rfl⟩, checkedSub_eq_some.mpr ⟨by omega, rfl⟩]
      congr 1
      omega
    unfold walkStep
    simp only [LocalLayout.new, hranges, shiftRegion, shapeFromRanges, Range.len, hlength,
      Nat.sub_zero]
    rw [if_neg (by omega), if_neg (by omega)]
  unfold regionWalk
  rw [hstrides]
  simp only [hstep]

include hregion in
theorem referenceRegionOffsets_eq :
    Reference.referenceRegionOffsets layout.localRanges layout.shapeMemory layout.permutation
      region = some ((List.range (regionSize region)).map
        (regionPosition (pencilOfLayout layout hlayout hpos)
          (shiftRegion layout.localRanges region))) := by
  have hinside := insideBlock_shiftRegion hlayout hpos hregion
  have hextent := regionExtent_shiftRegion hregion
  have hsize : regionSize region < usizeLimit := by
    have hle := regionSize_le hinside
    have hlt := localLen_lt (pencilOfLayout layout hlayout hpos)
    unfold regionSize at hle ⊢
    rw [hextent] at hle
    omega
  have hlen := regionSpatialLen_eq (fun axis => (hregion.nonempty axis).le) hsize
  unfold Reference.referenceRegionOffsets
  rw [hlen]
  apply mapM_eq_some
  intro linear _
  have howns : Owns layout.localRanges (regionIndex region linear) := by
    intro axis
    have hext : ∀ axis, 0 < regionExtent region axis := by
      rw [← hextent]
      exact hinside.extent_pos
    have := regionIndex_lt hext linear axis
    have := hregion.lower axis
    have := hregion.upper axis
    rw [Range.contains_iff]
    omega
  have hlocal : (fun axis => regionIndex region linear axis - (layout.localRanges axis).start)
      = toLocal (pencilOfLayout layout hlayout hpos)
          (regionIndex (shiftRegion layout.localRanges region) linear) := by
    funext axis
    have := hregion.lower axis
    unfold toLocal regionIndex
    rw [localRanges_pencilOfLayout hlayout hpos, hextent]
    show _ - _ = (region axis).start - _ + _ - 0
    omega
  rw [reference_regionIndex_eq hregion.nonempty]
  show (Reference.localIndex _ (regionIndex region linear)).toOption.bind _ = _
  rw [localIndex_eq_ok.mpr ⟨howns, rfl⟩]
  show (rowMajorOffset _ (List.ofFn (layout.permutation.permute _))).toOption = _
  rw [hlocal, ← (layout_pencilOfLayout hlayout hpos).1]
  show (rowMajorOffset (List.ofFn (pencilOfLayout layout hlayout hpos).localShapeMemory)
    (List.ofFn ((pencilOfLayout layout hlayout hpos).permutation.permute _))).toOption = _
  rw [rowMajorOffset_memory (validLocal_toLocal (owns_regionIndex hinside linear))]
  rfl

end Layouts

/-! ## What a walk does -/

/-- The moves of a copy between a run of places and one block of storage, with the offsets in
payload order. -/
def payloadMoves (offsets : List ℕ) (start block : ℕ) : List (ℕ × ℕ) :=
  offsets.zipIdx.map fun (offset, k) => (start + k, block + offset)

/-- The moves back into the block. -/
def blockMoves (offsets : List ℕ) (block : ℕ) : List (ℕ × ℕ) :=
  offsets.zipIdx.map fun (offset, k) => (block + offset, k)

/-- The moves between two blocks, element by element. -/
def betweenMoves (offsets offsets' : List ℕ) (block block' : ℕ) : List (ℕ × ℕ) :=
  (offsets'.zip offsets).map fun (offset', offset) => (block' + offset', block + offset)

theorem zipIdx_map_range {β : Type} (f : ℕ → β) (n : ℕ) :
    ((List.range n).map f).zipIdx = (List.range n).map fun k => (f k, k) := by
  apply List.ext_getElem?
  intro i
  rw [List.getElem?_zipIdx, List.getElem?_map, List.getElem?_map]
  by_cases hi : i < n
  · rw [List.getElem?_range hi]
    simp
  · rw [List.getElem?_eq_none (by simpa using hi)]
    rfl

/-- The walk passes the offsets of the elements of the region in payload order, as many as the
region has, all of them inside a block. -/
structure WalksRegion (layout : LocalLayout N) (region : Fin N → Range) (walk : RegionWalk N)
    (offsets : List ℕ) : Prop where
  setup : regionWalk layout region = some walk
  reference : Reference.referenceRegionOffsets layout.localRanges layout.shapeMemory
    layout.permutation region = some offsets
  walked : walkedOffsets walk = some offsets
  length : offsets.length = regionSize region
  positions : walk.outerLen * walk.runLen = regionSize region
  inside : ∀ offset ∈ offsets, offset < layout.localLen

/-- Packing a block of storage moves the elements at the offsets, in order. -/
def PacksBlocks (layout : LocalLayout N) (walk : RegionWalk N) (offsets : List ℕ) (α : Type) :
    Prop :=
  ∀ (storage : List α) (extraCount extraLinear : ℕ),
    extraCount * layout.localLen ≤ storage.length → extraLinear < extraCount → ∀ (payload : Buf α) (start stop : ℕ),
    start + offsets.length ≤ stop → stop ≤ payload.cells.length →
    ∃ payload', copyRegionToPayload walk (storage.drop (extraLinear * layout.localLen)) start
        stop payload = some payload' ∧
      Buf.moveAll (fun i => storage[i]?) payload
        (payloadMoves offsets start (extraLinear * layout.localLen)) = some payload'

/-- Unpacking into a block of storage moves the elements to the offsets, in order. -/
def UnpacksBlocks (layout : LocalLayout N) (walk : RegionWalk N) (offsets : List ℕ) (α : Type) :
    Prop :=
  ∀ (payload : List α), offsets.length ≤ payload.length → ∀ (storage : Buf α)
    (extraCount extraLinear stop : ℕ), extraLinear < extraCount →
    extraCount * layout.localLen ≤ stop → stop ≤ storage.cells.length →
    ∃ storage', copyRegionFromPayload walk payload (extraLinear * layout.localLen) stop storage
        = some storage' ∧
      Buf.moveAll (fun i => payload[i]?) storage
        (blockMoves offsets (extraLinear * layout.localLen)) = some storage'

/-- The direct copy moves the elements from the offsets of one layout to those of the other. -/
def CopiesBlocks (layout layout' : LocalLayout N) (walk walk' : RegionWalk N)
    (offsets offsets' : List ℕ) (α : Type) : Prop :=
  ∀ (storage : List α) (extraCount extraLinear : ℕ),
    extraCount * layout.localLen ≤ storage.length → extraLinear < extraCount → ∀ (target : Buf α) (stop : ℕ),
    extraCount * layout'.localLen ≤ stop → stop ≤ target.cells.length →
    ∃ target', copyRegionBetween walk walk' (storage.drop (extraLinear * layout.localLen))
        (extraLinear * layout'.localLen) stop target = some target' ∧
      Buf.moveAll (fun i => storage[i]?) target
        (betweenMoves offsets offsets' (extraLinear * layout.localLen)
          (extraLinear * layout'.localLen)) = some target'

/-- A walk of a layout as the walk of a pencil. -/
structure PencilWalk (layout : LocalLayout N) (region : Fin N → Range) (p : Pencil N 1)
    (region' : Fin N → Range) (walk : RegionWalk N) : Prop where
  inside : InsideBlock p region'
  isWalk : IsWalk p region' walk
  localLen : p.localLen = layout.localLen
  extent : regionExtent region' = regionExtent region
  walks : WalksRegion layout region walk
    ((List.range (regionSize region)).map (regionPosition p region'))

theorem exists_pencilWalk {layout : LocalLayout N} {region : Fin N → Range}
    (hlayout : IsLayout layout) (hregion : InsideRanges layout.localRanges region) :
    ∃ p region' walk, PencilWalk layout region p region' walk := by
  have hpos := hregion.extent_pos
  have hinside := insideBlock_shiftRegion hlayout hpos hregion
  have hextent := regionExtent_shiftRegion hregion
  have hlen := (layout_pencilOfLayout hlayout hpos).2
  have hsize : regionSize (shiftRegion layout.localRanges region) = regionSize region := by
    unfold regionSize
    rw [hextent]
  obtain ⟨walk, hwalk, hw⟩ := regionWalk_eq hinside
  refine ⟨_, _, walk, hinside, hw, hlen, hextent, ?_⟩
  constructor
  · rw [regionWalk_shiftRegion hlayout hpos hregion]
    exact hwalk
  · exact referenceRegionOffsets_eq hlayout hpos hregion
  · rw [walkedOffsets_eq hinside hw, hsize]
  · rw [List.length_map, List.length_range]
  · rw [outerLen_mul_runLen hw, hsize]
  · intro offset hoffset
    obtain ⟨q, _, rfl⟩ := List.mem_map.mp hoffset
    rw [← hlen]
    exact regionPosition_lt hinside q

namespace PencilWalk

variable {layout layout' : LocalLayout N} {region region' shifted shifted' : Fin N → Range}
  {p p' : Pencil N 1} {walk walk' : RegionWalk N}

theorem regionSize_eq (h : PencilWalk layout region p shifted walk) :
    regionSize shifted = regionSize region := by
  unfold regionSize
  rw [h.extent]

/-- A block of storage is one block long at least. -/
theorem block_le (h : PencilWalk layout region p shifted walk) {total extraCount extraLinear : ℕ}
    (htotal : extraCount * layout.localLen ≤ total) (hextra : extraLinear < extraCount) :
    extraLinear * layout.localLen + p.localLen ≤ total := by
  calc extraLinear * layout.localLen + p.localLen
      = (extraLinear + 1) * layout.localLen := by rw [h.localLen, Nat.succ_mul]
    _ ≤ extraCount * layout.localLen := Nat.mul_le_mul_right _ hextra
    _ ≤ total := htotal

theorem packs (h : PencilWalk layout region p shifted walk) :
    PacksBlocks layout walk ((List.range (regionSize region)).map (regionPosition p shifted)) α := by
  intro storage extraCount extraLinear hstorage hextra payload start stop hstop hlen
  rw [List.length_map, List.length_range] at hstop
  have hblock := h.block_le hstorage hextra
  have hmoves : payloadMoves ((List.range (regionSize region)).map (regionPosition p shifted))
      start (extraLinear * layout.localLen) = (List.range (regionSize region)).map fun q =>
        (start + q, extraLinear * layout.localLen + regionPosition p shifted q) := by
    unfold payloadMoves
    rw [zipIdx_map_range, List.map_map]
    rfl
  have hdropped : p.localLen ≤ (storage.drop (extraLinear * layout.localLen)).length := by
    rw [List.length_drop]
    omega
  have hcopy := copyRegionToPayload_eq h.inside h.isWalk hdropped
    (by rw [h.regionSize_eq]; exact hstop) hlen
  rw [h.regionSize_eq, Buf.moveAll_map_place (g := fun i => storage[i]?)
    (fun i => extraLinear * layout.localLen + i) _ (fun _ _ => List.getElem?_drop),
    List.map_map] at hcopy
  have hread : ∀ m ∈ (List.range (regionSize region)).map fun q =>
      (start + q, extraLinear * layout.localLen + regionPosition p shifted q),
      (storage[m.2]?).isSome := by
    intro m hm
    obtain ⟨q, _, rfl⟩ := List.mem_map.mp hm
    have := regionPosition_lt h.inside q
    simp only [isSome_getElem?]
    omega
  obtain ⟨payload', hpayload⟩ := payload.moveAll_isSome hread
  exact ⟨payload', hcopy.trans hpayload, by rw [hmoves]; exact hpayload⟩

theorem unpacks (h : PencilWalk layout region p shifted walk) :
    UnpacksBlocks layout walk ((List.range (regionSize region)).map (regionPosition p shifted))
      α := by
  intro payload hpayload storage extraCount extraLinear stop hextra hstop hlen
  rw [List.length_map, List.length_range] at hpayload
  have hblock := h.block_le hstop hextra
  have hmoves : blockMoves ((List.range (regionSize region)).map (regionPosition p shifted))
      (extraLinear * layout.localLen) = (List.range (regionSize region)).map fun q =>
        (extraLinear * layout.localLen + regionPosition p shifted q, q) := by
    unfold blockMoves
    rw [zipIdx_map_range, List.map_map]
    rfl
  rw [← h.regionSize_eq] at hpayload
  have hcopy := copyRegionFromPayload_eq h.inside h.isWalk hpayload hblock hlen
  rw [h.regionSize_eq] at hcopy hpayload
  have hread : ∀ m ∈ (List.range (regionSize region)).map fun q =>
      (extraLinear * layout.localLen + regionPosition p shifted q, q),
      (payload[m.2]?).isSome := by
    intro m hm
    obtain ⟨q, hq, rfl⟩ := List.mem_map.mp hm
    have := List.mem_range.mp hq
    simp only [isSome_getElem?]
    omega
  obtain ⟨storage', hstorage⟩ := storage.moveAll_isSome hread
  exact ⟨storage', hcopy.trans hstorage, by rw [hmoves]; exact hstorage⟩

theorem copies (h : PencilWalk layout region p shifted walk)
    (h' : PencilWalk layout' region' p' shifted' walk')
    (hextent : regionExtent region' = regionExtent region) :
    CopiesBlocks layout layout' walk walk'
      ((List.range (regionSize region)).map (regionPosition p shifted))
      ((List.range (regionSize region')).map (regionPosition p' shifted')) α := by
  intro storage extraCount extraLinear hstorage hextra target stop hstop hlen
  have hblock := h.block_le hstorage hextra
  have hblock' := h'.block_le hstop hextra
  have hsize : regionSize region' = regionSize region := by
    unfold regionSize
    rw [hextent]
  have hmoves : betweenMoves ((List.range (regionSize region)).map (regionPosition p shifted))
      ((List.range (regionSize region')).map (regionPosition p' shifted'))
      (extraLinear * layout.localLen) (extraLinear * layout'.localLen)
      = (List.range (regionSize region)).map fun q =>
        (extraLinear * layout'.localLen + regionPosition p' shifted' q,
          extraLinear * layout.localLen + regionPosition p shifted q) := by
    unfold betweenMoves
    rw [hsize, List.zip_map', List.map_map]
    rfl
  have hdropped : p.localLen ≤ (storage.drop (extraLinear * layout.localLen)).length := by
    rw [List.length_drop]
    omega
  have hcopy := copyRegionBetween_eq h.inside h.isWalk h'.inside h'.isWalk
    (by rw [h.extent, h'.extent, hextent]) hdropped hblock' hlen
  rw [h.regionSize_eq, Buf.moveAll_map_place (g := fun i => storage[i]?)
    (fun i => extraLinear * layout.localLen + i) _ (fun _ _ => List.getElem?_drop),
    List.map_map] at hcopy
  have hread : ∀ m ∈ (List.range (regionSize region)).map fun q =>
      (extraLinear * layout'.localLen + regionPosition p' shifted' q,
        extraLinear * layout.localLen + regionPosition p shifted q),
      (storage[m.2]?).isSome := by
    intro m hm
    obtain ⟨q, _, rfl⟩ := List.mem_map.mp hm
    have := regionPosition_lt h.inside q
    simp only [isSome_getElem?]
    omega
  obtain ⟨target', htarget⟩ := target.moveAll_isSome hread
  exact ⟨target', hcopy.trans htarget, by rw [hmoves]; exact htarget⟩

end PencilWalk

/-- **Region walks visit exactly the region.**  On any layout and any nonempty region inside it
the odometer passes the offset of every element in global row-major order and stops after the
last one, nothing leaves `usize` or a block of the storage, and pack, unpack and the direct copy
move the elements at these offsets, for every extra block. -/
theorem region_walk_visits_region {layout : LocalLayout N} (hlayout : IsLayout layout)
    {region : Fin N → Range} (hregion : InsideRanges layout.localRanges region) :
    ∃ walk offsets, WalksRegion layout region walk offsets ∧
      (∀ α, PacksBlocks layout walk offsets α) ∧ (∀ α, UnpacksBlocks layout walk offsets α) ∧
      ∀ (layout' : LocalLayout N) (region' : Fin N → Range), IsLayout layout' →
        InsideRanges layout'.localRanges region' → regionExtent region' = regionExtent region →
        ∃ walk' offsets', WalksRegion layout' region' walk' offsets' ∧
          ∀ α, CopiesBlocks layout layout' walk walk' offsets offsets' α := by
  obtain ⟨p, shifted, walk, h⟩ := exists_pencilWalk hlayout hregion
  refine ⟨walk, _, h.walks, fun α => h.packs, fun α => h.unpacks, ?_⟩
  intro layout' region' hlayout' hregion' hextent
  obtain ⟨p', shifted', walk', h'⟩ := exists_pencilWalk hlayout' hregion'
  exact ⟨walk', _, h'.walks, fun α => h.copies h' hextent⟩

theorem columns_inverse : ∀ position : Fin 2,
    (![1, 0] : Fin 2 → ℕ) ((![1, 0] : Fin 2 → Fin 2) position) = position := by
  decide

/-- A block of three rows of two, stored by columns. -/
def columnLayout : LocalLayout 2 where
  localRanges := ![⟨1, 4⟩, ⟨1, 3⟩]
  shapeMemory := ![2, 3]
  permutation := ⟨![1, 0], ![1, 0], columns_inverse⟩
  localLen := 6

theorem region_walk_visits_column_region :
    ∃ walk offsets, WalksRegion columnLayout ![⟨2, 4⟩, ⟨1, 3⟩] walk offsets ∧
      (∀ α, PacksBlocks columnLayout walk offsets α) ∧
      (∀ α, UnpacksBlocks columnLayout walk offsets α) ∧
      ∀ (layout' : LocalLayout 2) (region' : Fin 2 → Range), IsLayout layout' →
        InsideRanges layout'.localRanges region' →
        regionExtent region' = regionExtent ![⟨2, 4⟩, ⟨1, 3⟩] →
        ∃ walk' offsets', WalksRegion layout' region' walk' offsets' ∧
          ∀ α, CopiesBlocks columnLayout layout' walk walk' offsets offsets' α :=
  have hlayout : IsLayout columnLayout := ⟨by decide, by decide, by decide⟩
  have hinside : InsideRanges columnLayout.localRanges ![⟨2, 4⟩, ⟨1, 3⟩] :=
    ⟨by decide, by decide, by decide⟩
  region_walk_visits_region hlayout hinside

example : (regionWalk columnLayout ![⟨2, 4⟩, ⟨1, 3⟩]).bind walkedOffsets = some [1, 4, 2, 5] := by
  decide

end PencilRs.Analysis
