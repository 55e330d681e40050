import PencilRs.Analysis.GlobalBlocks
import PencilRs.Model.Hdf5Payload

/-!
# Selections in an HDF5 dataset

The layout of a rank selects in the dataset the box of the rank's block, and the whole of the
rank's buffer in memory, or nothing at all where the block has no elements.
-/

set_option autoImplicit false

namespace PencilRs.Analysis

open PencilRs.Computation PencilRs.Model PencilRs.Model.Hdf5

variable {N M : ℕ}

/-! ## The layout of a block -/

theorem toHsize_eq_ok {value size : ℕ} :
    toHsize value = .ok size ↔ value < 2 ^ 64 ∧ size = value := by
  unfold toHsize
  rw [bind_eq_ok]
  constructor
  · rintro ⟨_, hlt, h⟩
    cases h
    exact ⟨of_decide_eq_true (ensure_eq_ok.mp hlt), rfl⟩
  · rintro ⟨hlt, rfl⟩
    exact ⟨(), ensure_eq_ok.mpr (decide_eq_true hlt), rfl⟩

theorem pushExtra_eq_ok {axes axes' : List LayoutAxis} {extent : ℕ} :
    Hdf5.pushExtra axes extent = .ok axes' ↔
      extent < 2 ^ 64 ∧ axes' = axes ++ [(extent, extent, 0, extent)] := by
  unfold Hdf5.pushExtra
  constructor
  · intro h
    obtain ⟨_, hwhole, h⟩ := bind_eq_ok.mp h
    obtain ⟨_, hpart, h⟩ := bind_eq_ok.mp h
    obtain ⟨_, hblock, h⟩ := bind_eq_ok.mp h
    cases h
    obtain ⟨hlt, rfl⟩ := toHsize_eq_ok.mp hwhole
    obtain ⟨_, rfl⟩ := toHsize_eq_ok.mp hpart
    obtain ⟨_, rfl⟩ := toHsize_eq_ok.mp hblock
    exact ⟨hlt, rfl⟩
  · rintro ⟨hlt, rfl⟩
    have hsize := toHsize_eq_ok.mpr ⟨hlt, rfl⟩
    exact bind_eq_ok.mpr ⟨_, hsize, bind_eq_ok.mpr ⟨_, hsize, bind_eq_ok.mpr ⟨_, hsize, rfl⟩⟩⟩

theorem foldlM_pushExtra_eq_ok {extra : List ℕ} {axes axes' : List LayoutAxis} :
    extra.foldlM Hdf5.pushExtra axes = .ok axes' ↔
      (∀ extent ∈ extra, extent < 2 ^ 64) ∧
        axes' = axes ++ extra.map fun extent => (extent, extent, 0, extent) := by
  induction extra generalizing axes with
  | nil =>
    rw [List.foldlM_nil, List.map_nil, List.append_nil]
    exact ⟨fun h => ⟨fun _ h => absurd h List.not_mem_nil, (Except.ok.inj h).symm⟩,
      fun h => congrArg Except.ok h.2.symm⟩
  | cons extent extra ih =>
    rw [List.foldlM_cons, bind_eq_ok, List.forall_mem_cons, List.map_cons]
    constructor
    · rintro ⟨next, hnext, h⟩
      obtain ⟨hlt, rfl⟩ := pushExtra_eq_ok.mp hnext
      obtain ⟨hall, rfl⟩ := ih.mp h
      exact ⟨⟨hlt, hall⟩, by simp⟩
    · rintro ⟨⟨hlt, hall⟩, rfl⟩
      exact ⟨_, pushExtra_eq_ok.mpr ⟨hlt, rfl⟩, ih.mpr ⟨hall, by simp⟩⟩

theorem foldlM_pushSpatial_eq {global localShape : Fin N → ℕ} {ranges : Fin N → Range}
    (h : ∀ axis, global axis < 2 ^ 64 ∧ localShape axis < 2 ^ 64 ∧ (ranges axis).start < 2 ^ 64 ∧
      (ranges axis).len < 2 ^ 64) (axes : List (Fin N)) (pushed : List LayoutAxis) :
    axes.foldlM (Hdf5.pushSpatial global localShape ranges) pushed
      = .ok (pushed ++ axes.map fun axis =>
          (global axis, localShape axis, (ranges axis).start, (ranges axis).len)) := by
  induction axes generalizing pushed with
  | nil =>
    rw [List.foldlM_nil, List.map_nil, List.append_nil]
    rfl
  | cons axis axes ih =>
    obtain ⟨hwhole, hpart, hstart, hblock⟩ := h axis
    have hstep : Hdf5.pushSpatial global localShape ranges pushed axis
        = .ok (pushed ++ [(global axis, localShape axis, (ranges axis).start,
            (ranges axis).len)]) :=
      bind_eq_ok.mpr ⟨_, toHsize_eq_ok.mpr ⟨hwhole, rfl⟩, bind_eq_ok.mpr ⟨_,
        toHsize_eq_ok.mpr ⟨hpart, rfl⟩, bind_eq_ok.mpr ⟨_, toHsize_eq_ok.mpr ⟨hstart, rfl⟩,
        bind_eq_ok.mpr ⟨_, toHsize_eq_ok.mpr ⟨hblock, rfl⟩, rfl⟩⟩⟩⟩
    rw [List.foldlM_cons, hstep]
    refine (ih _).trans ?_
    rw [List.append_assoc]
    rfl

/-- The layout of a block: the box of the block in the global array. -/
def h5LayoutOf (p : Pencil N M) (extraShape : ExtraShape) : H5Layout where
  global := (blockAxes p extraShape).map BoxAxis.extent
  localDims := (blockAxes p extraShape).map BoxAxis.count
  starts := (blockAxes p extraShape).map BoxAxis.start
  block := (blockAxes p extraShape).map BoxAxis.count
  empty := extraShape.elementCount * p.localLen = 0 || extraShape.dimensions.contains 0

variable {scalar : ScalarType} {view : PencilArrayView scalar.Value N M}

theorem spatial_lt (p : Pencil N M) (axis : Fin N) :
    p.globalShape axis < 2 ^ 64 ∧ p.localShapeLogical axis < 2 ^ 64 ∧
      (p.localRanges axis).start < 2 ^ 64 ∧ (p.localRanges axis).len < 2 ^ 64 := by
  have hglobal : p.globalShape axis < 2 ^ 64 :=
    extent_lt p.extents_pos (globalShape_fits p) axis
  have hstart := ownedRanges_start_le p.globalShape p.topology.processGrid
    p.topology.localCoords p.decomposition.axes axis
  have hstop := ownedRanges_stop_le p.globalShape p.decomposition.axes p.topology.coords_lt axis
  rw [← localRanges_eq p] at hstart hstop
  have hlocal := localShapeLogical_apply p axis
  have hlen : (p.localRanges axis).len = (p.localRanges axis).stop - (p.localRanges axis).start :=
    rfl
  exact ⟨hglobal, by omega, by omega, by omega⟩

/-- The vectors of a layout list the box of the block, axis by axis. -/
theorem layoutAxes_eq (p : Pencil N M) (extraShape : ExtraShape) :
    [] ++ extraShape.dimensions.map (fun extent => (extent, extent, 0, extent))
        ++ (List.finRange N).map (fun axis => (p.globalShape axis, p.localShapeLogical axis,
          (p.localRanges axis).start, (p.localRanges axis).len))
      = (blockAxes p extraShape).map fun axis =>
          (axis.extent, axis.count, axis.start, axis.count) := by
  have hlen : ∀ axis, p.localShapeLogical axis = (p.localRanges axis).len := fun axis =>
    localShapeLogical_apply p axis
  simp [blockAxes, wholeAxis, rangeAxis, Function.comp_def, List.ofFn_eq_map, hlen]

/-- **The layout** of a view is the box of its block. -/
theorem layoutOfView_eq_ok {reserved : Bool} {layout : H5Layout} :
    Hdf5.layoutOfView reserved view = .ok layout ↔
      reserved = true ∧ view.extraShape.dimensions.length + N ≤ maxProtocolRank ∧
        (∀ extent ∈ view.extraShape.dimensions, extent < 2 ^ 64) ∧
        layout = h5LayoutOf view.pencil view.extraShape := by
  have hspatial := foldlM_pushSpatial_eq (spatial_lt view.pencil) (List.finRange N)
  have hN : 0 < N :=
    view.pencil.decomposition.positive.trans_le view.pencil.decomposition.le_spatial
  have hlimit : maxProtocolRank < usizeLimit := by decide
  unfold Hdf5.layoutOfView Hdf5.buildLayout
  constructor
  · intro h
    obtain ⟨_, hrank, h⟩ := bind_eq_ok.mp h
    obtain ⟨_, rfl⟩ := checkedAdd_eq_some.mp (okOr_eq_ok.mp hrank)
    obtain ⟨_, hbound, h⟩ := bind_eq_ok.mp h
    rw [ensure_eq_ok, Bool.and_eq_true, decide_eq_true_eq, decide_eq_true_eq] at hbound
    obtain ⟨_, hreserved, h⟩ := bind_eq_ok.mp h
    obtain ⟨_, hextra, h⟩ := bind_eq_ok.mp h
    obtain ⟨hextents, rfl⟩ := foldlM_pushExtra_eq_ok.mp hextra
    obtain ⟨_, hpushed, h⟩ := bind_eq_ok.mp h
    obtain rfl := Except.ok.inj ((hspatial _).symm.trans hpushed)
    refine ⟨ensure_eq_ok.mp hreserved, hbound.2, hextents, ?_⟩
    rw [← Except.ok.inj h, layoutAxes_eq, view_storage_length view]
    simp [h5LayoutOf]
  · rintro ⟨rfl, hrank, hextents, rfl⟩
    refine bind_eq_ok.mpr ⟨_, okOr_eq_ok.mpr (checkedAdd_eq_some.mpr ⟨by omega, rfl⟩),
      bind_eq_ok.mpr ⟨(), ?_, bind_eq_ok.mpr ⟨(), rfl, bind_eq_ok.mpr ⟨_,
      foldlM_pushExtra_eq_ok.mpr ⟨hextents, rfl⟩, bind_eq_ok.mpr ⟨_, hspatial _, ?_⟩⟩⟩⟩⟩
    · rw [ensure_eq_ok, Bool.and_eq_true, decide_eq_true_eq, decide_eq_true_eq]
      exact ⟨by omega, hrank⟩
    · rw [layoutAxes_eq, view_storage_length view]
      show Except.ok _ = Except.ok _
      simp [h5LayoutOf]

/-! ## Selections -/

variable {p : Pencil N M} {extraShape : ExtraShape}

theorem selectHyperslab_box (axes : List BoxAxis) :
    selectHyperslab (axes.map BoxAxis.extent) (axes.map BoxAxis.start)
      (List.replicate axes.length 1) (axes.map BoxAxis.count) = Dataspace.ofBox axes := by
  have hslabs : ∀ axes : List BoxAxis, ((axes.map BoxAxis.extent).zip ((axes.map BoxAxis.start).zip
      ((List.replicate axes.length 1).zip (axes.map BoxAxis.count)))).map
        (fun (entry : ℕ × ℕ × ℕ × ℕ) =>
          (⟨entry.1, entry.2.1, 1, entry.2.2.1, entry.2.2.2⟩ : SlabAxis))
      = axes.map BoxAxis.toSlab := by
    intro axes
    induction axes with
    | nil => rfl
    | cons axis axes ih =>
      simp only [List.map_cons, List.length_cons, List.replicate_succ, List.zip_cons_cons, ih]
      rfl
  exact congrArg (fun slabs => (⟨axes.map BoxAxis.extent, .hyperslab slabs⟩ : Dataspace))
    (hslabs axes)

/-- A block has no elements where its layout is empty. -/
theorem empty_h5LayoutOf :
    (h5LayoutOf p extraShape).empty = true ↔ boxSize (blockAxes p extraShape) = 0 := by
  rw [boxSize_blockAxes]
  show (decide _ || _) = true ↔ _
  rw [Bool.or_eq_true, decide_eq_true_eq, List.contains_iff_mem]
  refine ⟨fun h => h.elim id fun hzero => ?_, Or.inl⟩
  rw [elementCount_eq, List.prod_eq_zero hzero, Nat.zero_mul]

/-- The whole of a rank's buffer. -/
def bufferAxes (p : Pencil N M) (extraShape : ExtraShape) : List BoxAxis :=
  ((blockAxes p extraShape).map BoxAxis.count).map wholeAxis

theorem whole_bufferAxes :
    ∀ axis ∈ bufferAxes p extraShape, axis.start = 0 ∧ axis.count = axis.extent := by
  intro axis haxis
  obtain ⟨extent, _, rfl⟩ := List.mem_map.mp haxis
  exact ⟨rfl, rfl⟩

theorem boxSize_bufferAxes :
    boxSize (bufferAxes p extraShape) = boxSize (blockAxes p extraShape) := by
  unfold bufferAxes boxSize
  simp [wholeAxis, Function.comp_def]

/-- The selections of a rank: the box of its block, and its buffer; or nothing. -/
def spacesOf (p : Pencil N M) (extraShape : ExtraShape) : Dataspace × Dataspace :=
  if boxSize (blockAxes p extraShape) = 0 then
    (⟨(h5LayoutOf p extraShape).global, .none⟩, ⟨memoryDims (h5LayoutOf p extraShape), .none⟩)
  else (Dataspace.ofBox (blockAxes p extraShape), Dataspace.ofBox (bufferAxes p extraShape))

/-- **The selections** that a rank makes with its layout. -/
theorem selectSpaces_eq_ok {reserved : Bool} {spaces : Dataspace × Dataspace} :
    selectSpaces reserved (h5LayoutOf p extraShape).global
        (memoryDims (h5LayoutOf p extraShape)) (h5LayoutOf p extraShape) = .ok spaces ↔
      reserved = true ∧ spaces = spacesOf p extraShape := by
  have hlen : (h5LayoutOf p extraShape).global.length = (blockAxes p extraShape).length :=
    List.length_map _
  have hvalue : (if (h5LayoutOf p extraShape).empty = true then
      (return (⟨(h5LayoutOf p extraShape).global, .none⟩,
        ⟨memoryDims (h5LayoutOf p extraShape), .none⟩) : Except IoError (Dataspace × Dataspace))
      else return (selectHyperslab (h5LayoutOf p extraShape).global
          (h5LayoutOf p extraShape).starts
          (List.replicate (h5LayoutOf p extraShape).global.length 1)
          (h5LayoutOf p extraShape).block,
        selectHyperslab (memoryDims (h5LayoutOf p extraShape))
          (List.replicate (h5LayoutOf p extraShape).global.length 0)
          (List.replicate (h5LayoutOf p extraShape).global.length 1)
          (h5LayoutOf p extraShape).block)) = .ok (spacesOf p extraShape) := by
    unfold spacesOf
    by_cases hempty : boxSize (blockAxes p extraShape) = 0
    · rw [if_pos (empty_h5LayoutOf.mpr hempty), if_pos hempty]
      rfl
    · have hsome : ¬ (h5LayoutOf p extraShape).empty = true := fun h =>
        hempty (empty_h5LayoutOf.mp h)
      have hmemory : memoryDims (h5LayoutOf p extraShape)
          = (bufferAxes p extraShape).map BoxAxis.extent := by
        unfold memoryDims bufferAxes
        rw [Bool.eq_false_iff.mpr hsome]
        simp [h5LayoutOf, wholeAxis, Function.comp_def]
      have hstart : List.replicate (blockAxes p extraShape).length 0
          = (bufferAxes p extraShape).map BoxAxis.start := by
        unfold bufferAxes
        simp [wholeAxis, Function.comp_def, List.map_const']
      have hcount : (h5LayoutOf p extraShape).block
          = (bufferAxes p extraShape).map BoxAxis.count := by
        unfold bufferAxes
        simp [h5LayoutOf, wholeAxis, Function.comp_def]
      have hsame : (blockAxes p extraShape).length = (bufferAxes p extraShape).length := by
        unfold bufferAxes
        simp
      have hfile := selectHyperslab_box (blockAxes p extraShape)
      have hbuffer := selectHyperslab_box (bufferAxes p extraShape)
      rw [if_neg hsome, if_neg hempty, hlen, hmemory, hstart]
      rw [hcount, hsame, hbuffer, ← hsame, ← hcount]
      show Except.ok (_, _) = _
      exact congrArg (fun space => Except.ok (space, Dataspace.ofBox (bufferAxes p extraShape)))
        hfile
  unfold selectSpaces
  rw [bind_eq_ok]
  constructor
  · rintro ⟨_, hreserved, h⟩
    exact ⟨ensure_eq_ok.mp hreserved, (Except.ok.inj (hvalue.symm.trans h)).symm⟩
  · rintro ⟨rfl, rfl⟩
    exact ⟨(), rfl, hvalue⟩

/-- The places a rank selects in the dataset are the cells of its box. -/
theorem places_spacesOf :
    (spacesOf p extraShape).1.places = (List.range (boxSize (blockAxes p extraShape))).map
      (boxPlace (blockAxes p extraShape)) := by
  unfold spacesOf
  split
  · rename_i hempty
    rw [hempty]
    rfl
  · exact Dataspace.places_ofBox _

end PencilRs.Analysis
