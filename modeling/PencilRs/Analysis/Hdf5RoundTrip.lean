import PencilRs.Analysis.Hdf5Layout
import PencilRs.Analysis.Hdf5Metadata

/-!
# HDF5 round trips

The ranks of a parallel writer leave in the dataset the row-major array of the elements they
hold, in whatever order their writes are made.  A dataset that holds an array, whoever wrote it,
gives every rank of a parallel reader its block of the array, and the serial reader the array.
-/

set_option autoImplicit false

namespace PencilRs.Analysis

open PencilRs.Computation PencilRs.Model PencilRs.Model.Hdf5

variable {N M : ℕ} {scalar : ScalarType}

/-! ## Transfers of a block -/

section Transfers

variable {p : Pencil N M} {extraShape : ExtraShape} {β : Type}

/-- What a rank stores: its elements in canonical order at the cells of its box. -/
def blockWrites (p : Pencil N M) (extraShape : ExtraShape) (elements : List β) : List (ℕ × β) :=
  ((List.range (boxSize (blockAxes p extraShape))).map (boxPlace (blockAxes p extraShape))).zip
    elements

theorem places_bufferAxes :
    (Dataspace.ofBox (bufferAxes p extraShape)).places
      = List.range (boxSize (blockAxes p extraShape)) := by
  rw [Dataspace.places_ofBox, boxSize_bufferAxes]
  refine (List.map_congr_left fun n hn => ?_).trans (List.map_id _)
  rw [List.mem_range, ← boxSize_bufferAxes] at hn
  exact boxPlace_whole whole_bufferAxes hn

theorem inside_bufferAxes : ∀ axis ∈ bufferAxes p extraShape, axis.Inside := by
  intro axis haxis
  obtain ⟨hstart, hcount⟩ := whole_bufferAxes axis haxis
  unfold BoxAxis.Inside
  omega

/-- Nothing is in a block of an array without elements. -/
theorem boxSize_of_contains (h : (h5LayoutOf p extraShape).global.contains 0 = true) :
    boxSize (blockAxes p extraShape) = 0 := by
  rw [List.contains_iff_mem] at h
  obtain ⟨axis, haxis, hzero⟩ := List.mem_map.mp h
  have hinside : axis.start + axis.count ≤ axis.extent := inside_blockAxes axis haxis
  refine List.prod_eq_zero (List.mem_map.mpr ⟨axis, haxis, ?_⟩)
  omega

theorem transferWrites_spacesOf {elements : List β}
    (h : elements.length = boxSize (blockAxes p extraShape)) :
    transferWrites (spacesOf p extraShape).2 (spacesOf p extraShape).1 elements
      = some (blockWrites p extraShape elements) := by
  unfold spacesOf blockWrites
  by_cases hempty : boxSize (blockAxes p extraShape) = 0
  · rw [if_pos hempty, hempty]
    exact transferWrites_none
  · have hplaces := Dataspace.places_ofBox (blockAxes p extraShape)
    rw [if_neg hempty, ← hplaces]
    refine transferWrites_eq (Dataspace.isValid_ofBox inside_bufferAxes)
      (Dataspace.isValid_ofBox inside_blockAxes) ?_ ?_
    · rw [places_bufferAxes, hplaces, List.length_map, List.length_range]
    · rw [h, hplaces, List.length_map, List.length_range]

theorem transferRead_spacesOf {cells buffer elements : List β}
    (h : buffer.length = boxSize (blockAxes p extraShape))
    (hread : readAll cells ((List.range (boxSize (blockAxes p extraShape))).map
      (boxPlace (blockAxes p extraShape))) = some elements) :
    transferRead (spacesOf p extraShape).2 (spacesOf p extraShape).1 cells buffer
      = some elements := by
  unfold spacesOf
  by_cases hempty : boxSize (blockAxes p extraShape) = 0
  · rw [hempty] at h hread
    obtain rfl := List.length_eq_zero_iff.mp h
    rw [if_pos hempty]
    exact transferRead_none.trans hread
  · have hplaces := Dataspace.places_ofBox (blockAxes p extraShape)
    rw [← hplaces] at hread
    rw [if_neg hempty]
    refine transferRead_eq (Dataspace.isValid_ofBox inside_bufferAxes)
      (Dataspace.isValid_ofBox inside_blockAxes) ?_ ?_ hread
    · rw [places_bufferAxes, hplaces, List.length_map, List.length_range]
    · rw [h, hplaces, List.length_map, List.length_range]

end Transfers

/-! ## Strings of elements -/

theorem length_elementsOf (width : ℕ) (bytes : List Byte) :
    (elementsOf width bytes).length = bytes.length / width := by
  rw [elementsOf, List.length_map, List.length_range]

theorem width_pos (scalar : ScalarType) : 0 < scalar.width := by
  cases scalar <;> decide

theorem elementsOf_flatMap (values : List scalar.Value) :
    elementsOf scalar.width (values.flatMap scalar.encodeLe) = values.map scalar.encodeLe := by
  have hlen : (values.flatMap scalar.encodeLe).length / scalar.width = values.length := by
    rw [length_flatMap_encodeLe, Nat.mul_div_cancel _ (width_pos scalar)]
  unfold elementsOf
  rw [hlen]
  apply List.ext_getElem?
  intro i
  rw [List.getElem?_map, List.getElem?_map]
  by_cases hi : i < values.length
  · rw [List.getElem?_range hi, List.getElem?_eq_getElem hi]
    exact congrArg some (slice_flatMap_encodeLe (List.getElem?_eq_getElem hi))
  · rw [List.getElem?_eq_none (by simpa using hi), List.getElem?_eq_none (by simpa using hi)]
    rfl

theorem flatten_encodeLe (values : List scalar.Value) :
    (values.map scalar.encodeLe).flatten = values.flatMap scalar.encodeLe :=
  List.flatMap_def.symm

/-! ## Writing -/

/-- What the parallel writer asks of the allocator. -/
def GrantsWrite (alloc : WriteAllocator) (extraRank : ℕ) : Prop :=
  (alloc.pack.dims = true ∧ alloc.pack.packed = true ∧ alloc.pack.indices = true) ∧
    alloc.layout = true ∧ GrantsAttributes alloc.metadata extraRank ∧ alloc.selection = true

section Contribution

variable {view : PencilArrayView scalar.Value N M}

/-- The dataset that the ranks create. -/
def createdOf (view : PencilArrayView scalar.Value N M) (datatype : ScalarSpec) : Dataset where
  datatype := datatype
  dims := (h5LayoutOf view.pencil view.extraShape).global
  cells := List.replicate (h5LayoutOf view.pencil view.extraShape).global.prod
    (List.replicate datatype.width 0)
  attributes := writtenAttributes view

theorem writePayload_eq_ok {reserved : Bool} {datatype : ScalarSpec} {block : List scalar.Value}
    {writes : List (ℕ × List Byte)} (hwidth : datatype.width = scalar.width)
    (hblock : block.length = boxSize (blockAxes view.pencil view.extraShape)) :
    writePayload reserved (createdOf view datatype) (h5LayoutOf view.pencil view.extraShape)
        (block.flatMap scalar.encodeLe) = .ok writes ↔
      reserved = true ∧
        writes = blockWrites view.pencil view.extraShape (block.map scalar.encodeLe) := by
  have helements : elementsOf (createdOf view datatype).datatype.width
      (block.flatMap scalar.encodeLe) = block.map scalar.encodeLe := by
    show elementsOf datatype.width _ = _
    rw [hwidth, elementsOf_flatMap]
  have htransfer : (if (h5LayoutOf view.pencil view.extraShape).global.contains 0 then
      (return [] : Except IoError (List (ℕ × List Byte)))
      else okOr (transferWrites (spacesOf view.pencil view.extraShape).2
        (spacesOf view.pencil view.extraShape).1
        (elementsOf (createdOf view datatype).datatype.width (block.flatMap scalar.encodeLe)))
        (.native "H5Dwrite" (-1)))
      = .ok (blockWrites view.pencil view.extraShape (block.map scalar.encodeLe)) := by
    by_cases hzero : (h5LayoutOf view.pencil view.extraShape).global.contains 0 = true
    · rw [if_pos hzero]
      unfold blockWrites
      rw [boxSize_of_contains hzero]
      rfl
    · rw [if_neg hzero, helements, transferWrites_spacesOf (by rw [List.length_map, hblock])]
      rfl
  unfold writePayload
  rw [bind_eq_ok]
  constructor
  · rintro ⟨spaces, hspaces, h⟩
    obtain ⟨hreserved, rfl⟩ := selectSpaces_eq_ok.mp hspaces
    exact ⟨hreserved, (Except.ok.inj (htransfer.symm.trans h)).symm⟩
  · rintro ⟨hreserved, rfl⟩
    exact ⟨_, selectSpaces_eq_ok.mpr ⟨hreserved, rfl⟩, htransfer⟩

/-- **What a rank brings**: the dataset, and its block at the cells of its box. -/
theorem contribute_eq_ok {alloc : WriteAllocator} {result : Dataset × List (ℕ × List Byte)} :
    contribute alloc view = .ok result ↔
      GrantsWrite alloc view.extraShape.dimensions.length ∧ Packable view ∧
        (∀ extent ∈ view.extraShape.dimensions, extent < 2 ^ 64) ∧
        ∃ datatype block, scalarSpec scalar.code = some datatype ∧ IsPacked view block ∧
          result = (createdOf view datatype,
            blockWrites view.pencil view.extraShape (block.map scalar.encodeLe)) := by
  have hsize : ∀ block : List scalar.Value, IsPacked view block →
      block.length = boxSize (blockAxes view.pencil view.extraShape) := fun block h => by
    rw [h.length, view_storage_length view, boxSize_blockAxes]
  have hwidth : ∀ datatype, scalarSpec scalar.code = some datatype →
      datatype.width = scalar.width := fun datatype h => by
    obtain ⟨found, hfound, hwidth⟩ := scalarSpec_code scalar
    exact Option.some.inj (h.symm.trans hfound) ▸ hwidth
  unfold contribute prepareWrite createDataset
  constructor
  · intro h
    obtain ⟨_, hprepare, h⟩ := bind_eq_ok.mp h
    obtain ⟨packed, hpack, hprepare⟩ := bind_eq_ok.mp hprepare
    obtain ⟨layout, hlayout, hprepare⟩ := bind_eq_ok.mp hprepare
    obtain rfl := Except.ok.inj hprepare
    obtain ⟨hpackGrants, hpackable, block, hblock, rfl⟩ := packView_eq_ok.mp hpack
    obtain ⟨hlayoutGrant, hrank, hextents, rfl⟩ := layoutOfView_eq_ok.mp (mapError_eq_ok.mp hlayout)
    obtain ⟨_, hcreate, h⟩ := bind_eq_ok.mp h
    obtain ⟨datatype, hdatatype, hcreate⟩ := bind_eq_ok.mp hcreate
    obtain ⟨attributes, hattributes, hcreate⟩ := bind_eq_ok.mp hcreate
    have hspec := typeFromKind_eq_ok.mp (mapError_eq_ok.mp hdatatype)
    obtain ⟨hmetadata, rfl⟩ := (writeMetadata_eq_ok hrank).mp hattributes
    obtain rfl := Except.ok.inj hcreate
    obtain ⟨writes, hwrites, h⟩ := bind_eq_ok.mp h
    obtain ⟨hselection, rfl⟩ := (writePayload_eq_ok (hwidth _ hspec) (hsize block hblock)).mp
      (mapError_eq_ok.mp hwrites)
    exact ⟨⟨hpackGrants, hlayoutGrant, hmetadata, hselection⟩, hpackable, hextents, datatype, block,
      hspec, hblock, (Except.ok.inj h).symm⟩
  · rintro ⟨⟨hpackGrants, hlayoutGrant, hmetadata, hselection⟩, hpackable, hextents, datatype,
      block, hspec, hblock, rfl⟩
    refine bind_eq_ok.mpr ⟨_, bind_eq_ok.mpr ⟨_, packView_eq_ok.mpr ⟨hpackGrants, hpackable, block,
      hblock, rfl⟩, bind_eq_ok.mpr ⟨_, mapError_eq_ok.mpr (layoutOfView_eq_ok.mpr ⟨hlayoutGrant,
      hpackable.rank_le, hextents, rfl⟩), rfl⟩⟩, bind_eq_ok.mpr ⟨createdOf view datatype,
      bind_eq_ok.mpr ⟨datatype, mapError_eq_ok.mpr (typeFromKind_eq_ok.mpr hspec),
      bind_eq_ok.mpr ⟨_, (writeMetadata_eq_ok hpackable.rank_le).mpr ⟨hmetadata, rfl⟩, rfl⟩⟩,
      bind_eq_ok.mpr ⟨_, mapError_eq_ok.mpr ((writePayload_eq_ok (hwidth _ hspec)
      (hsize block hblock)).mpr ⟨hselection, rfl⟩), rfl⟩⟩⟩

end Contribution

/-! ## All ranks -/

section Ranks

variable {topology : MpiTopology M} {p : DistributedPencil topology N} {extraShape : ExtraShape}
  {α β : Type}

/-- **The writes of all ranks**, in any order, leave the global array. -/
theorem pokeAll_blocks {f : α → β} {fill : β} {cells : List β} {values : List α}
    {blocks : Coords topology.processGrid → List α} {writes : List (ℕ × β)}
    (hlength : values.length = globalCount p extraShape)
    (hblocks : ∀ c, (blocks c).length = boxSize (blockAxes (p.on c) extraShape) ∧
      ∀ n < boxSize (blockAxes (p.on c) extraShape),
        (blocks c)[n]? = values[boxPlace (blockAxes (p.on c) extraShape) n]?)
    (hcells : cells.length ≤ globalCount p extraShape)
    (hwrites : ∀ w, w ∈ writes ↔
      ∃ c, w ∈ blockWrites (p.on c) extraShape ((blocks c).map f)) :
    pokeAll fill cells writes = values.map f := by
  have hmem : ∀ c n value, n < boxSize (blockAxes (p.on c) extraShape) →
      values[boxPlace (blockAxes (p.on c) extraShape) n]? = some value →
      (boxPlace (blockAxes (p.on c) extraShape) n, f value)
        ∈ blockWrites (p.on c) extraShape ((blocks c).map f) := by
    intro c n value hn hvalue
    have hget := (hblocks c).2 n hn
    rw [hvalue] at hget
    refine List.mem_iff_getElem?.mpr ⟨n, ?_⟩
    unfold blockWrites
    rw [List.getElem?_zip_eq_some, List.getElem?_map, List.getElem?_map, hget,
      List.getElem?_range hn]
    exact ⟨rfl, rfl⟩
  apply pokeAll_eq_content
  · rw [List.length_map, hlength]
    exact hcells
  · rintro ⟨place, value⟩ hw
    obtain ⟨c, hw⟩ := (hwrites _).mp hw
    obtain ⟨n, hget⟩ := List.mem_iff_getElem?.mp hw
    unfold blockWrites at hget
    obtain ⟨hplace, hvalue⟩ := List.getElem?_zip_eq_some.mp hget
    rw [List.getElem?_map] at hplace hvalue
    obtain ⟨m, hm, rfl⟩ := Option.map_eq_some_iff.mp hplace
    obtain ⟨element, helement, rfl⟩ := Option.map_eq_some_iff.mp hvalue
    obtain ⟨hn, rfl⟩ := List.getElem?_eq_some_iff.mp hm
    rw [List.length_range] at hn
    show (values.map f)[boxPlace _ (List.range _)[n]]? = some (f element)
    rw [List.getElem_range, List.getElem?_map, ← (hblocks c).2 n hn, helement]
    rfl
  · intro i hi
    rw [List.length_map, hlength] at hi
    obtain ⟨c, n, hn, rfl⟩ := exists_boxPlace hi
    obtain ⟨value, hvalue⟩ : ∃ value,
        values[boxPlace (blockAxes (p.on c) extraShape) n]? = some value :=
      ⟨_, List.getElem?_eq_getElem (hlength ▸ hi)⟩
    exact .inr ⟨_, (hwrites _).mpr ⟨c, hmem c n value hn hvalue⟩, rfl⟩

end Ranks

/-! ## Reading -/

/-- A complete dataset that holds an array, its elements in row-major order. -/
structure IsStored (global extra : List ℕ) (values : List scalar.Value) (dataset : Dataset) :
    Prop where
  complete : IsComplete scalar global extra dataset
  cells : dataset.cells = values.map scalar.encodeLe
  length : values.length = (extra ++ global).prod

section Reading

variable {view : PencilArrayView scalar.Value N M} {values : List scalar.Value} {dataset : Dataset}

/-- Where a rank of the parallel reader goes on. -/
structure Readable (alloc : ReadAllocator) (view : PencilArrayView scalar.Value N M) : Prop where
  layout : alloc.layout = true
  staging : alloc.staging = true
  metadata : GrantsMetadata alloc.metadata view.extraShape.dimensions.length
  selection : alloc.selection = true
  decode : alloc.decode.logicalDims = true ∧ alloc.decode.physicalDims = true ∧
    alloc.decode.physicalIndices = true
  packable : Packable view
  extents_lt : ∀ extent ∈ view.extraShape.dimensions, extent < 2 ^ 64

/-- What a rank has after a read: each element of its storage is written once, and is the one of
the array. -/
structure HasRead (view : PencilArrayView scalar.Value N M) (values : List scalar.Value)
    (buffer : Buf scalar.Value) : Prop where
  length : buffer.cells.length = view.storage.length
  once : buffer.log = List.range view.storage.length
  element : ∀ e x, ValidElement view.pencil view.extraShape e x →
    buffer.cells[elementOffset view.pencil view.extraShape e x]?
      = values[globalPosition view.pencil.globalShape view.extraShape e
          (toGlobal view.pencil x)]?

theorem HasRead.unique {buffer buffer' : Buf scalar.Value} (h : HasRead view values buffer)
    (h' : HasRead view values buffer') : buffer = buffer' := by
  have hcells : buffer.cells = buffer'.cells := by
    apply List.ext_getElem?
    intro i
    by_cases hi : i < view.storage.length
    · rw [view_storage_length] at hi
      obtain ⟨e, x, hvalid, rfl⟩ := exists_elementOffset hi
      rw [h.element e x hvalid, h'.element e x hvalid]
    · rw [List.getElem?_eq_none (by rw [h.length]; omega),
        List.getElem?_eq_none (by rw [h'.length]; omega)]
  obtain ⟨cells, log⟩ := buffer
  obtain ⟨cells', log'⟩ := buffer'
  obtain rfl : cells = cells' := hcells
  obtain rfl : log = log' := h.once.trans h'.once.symm
  rfl

/-- The elements of a block, read from the array. -/
theorem exists_blockValues {p : Pencil N M} {extraShape : ExtraShape} {α : Type} {values : List α}
    (hlength : values.length = arraySize (blockAxes p extraShape)) :
    ∃ block : List α, block.length = boxSize (blockAxes p extraShape) ∧
      (∀ n < boxSize (blockAxes p extraShape),
        block[n]? = values[boxPlace (blockAxes p extraShape) n]?) ∧
      readAll values ((List.range (boxSize (blockAxes p extraShape))).map
        (boxPlace (blockAxes p extraShape))) = some block := by
  obtain ⟨block, hread⟩ : ∃ block, readAll values ((List.range (boxSize (blockAxes p
      extraShape))).map (boxPlace (blockAxes p extraShape))) = some block := by
    refine exists_readAll fun place hplace => ?_
    obtain ⟨n, hn, rfl⟩ := List.mem_map.mp hplace
    rw [hlength]
    exact boxPlace_lt inside_blockAxes (List.mem_range.mp hn)
  refine ⟨block, ?_, fun n hn => getElem?_readAll hread ?_, hread⟩
  · rw [length_readAll hread, List.length_map, List.length_range]
  · rw [List.getElem?_map, List.getElem?_range hn]
    rfl

theorem arraySize_view :
    arraySize (blockAxes view.pencil view.extraShape)
      = (view.extraShape.dimensions ++ List.ofFn view.pencil.globalShape).prod := by
  unfold arraySize
  rw [extents_blockAxes]
  rfl

/-- **The payload** of a rank's block. -/
theorem readPayload_eq {block : List scalar.Value}
    (hstored : IsStored (List.ofFn view.pencil.globalShape) view.extraShape.dimensions values
      dataset)
    (hblock : block.length = boxSize (blockAxes view.pencil view.extraShape))
    (hread : readAll values ((List.range (boxSize (blockAxes view.pencil view.extraShape))).map
      (boxPlace (blockAxes view.pencil view.extraShape))) = some block) :
    readPayload dataset (h5LayoutOf view.pencil view.extraShape)
        (spacesOf view.pencil view.extraShape).1 (spacesOf view.pencil view.extraShape).2
        (List.replicate (view.storage.length * scalar.width) 0)
      = .ok (block.flatMap scalar.encodeLe) := by
  have hlen : view.storage.length = boxSize (blockAxes view.pencil view.extraShape) := by
    rw [view_storage_length view, boxSize_blockAxes]
  have hwidth : dataset.datatype.width = scalar.width := by
    obtain ⟨found, hfound, hwidth⟩ := scalarSpec_code scalar
    exact Option.some.inj (hstored.complete.datatype.symm.trans hfound) ▸ hwidth
  unfold readPayload
  by_cases hzero : (h5LayoutOf view.pencil view.extraShape).global.contains 0 = true
  · have hsize := boxSize_of_contains hzero
    rw [hsize] at hlen hblock
    obtain rfl := List.length_eq_zero_iff.mp hblock
    rw [if_pos hzero, hlen, Nat.zero_mul]
    rfl
  · have hbuffer : (elementsOf dataset.datatype.width
        (List.replicate (view.storage.length * scalar.width) 0)).length
        = boxSize (blockAxes view.pencil view.extraShape) := by
      rw [length_elementsOf, List.length_replicate, hwidth,
        Nat.mul_div_cancel _ (width_pos scalar), hlen]
    have htransfer := transferRead_spacesOf hbuffer (readAll_map scalar.encodeLe hread)
    rw [← hstored.cells] at htransfer
    rw [if_neg hzero]
    refine bind_eq_ok.mpr ⟨_, okOr_eq_ok.mpr htransfer, ?_⟩
    rw [flatten_encodeLe]
    rfl

/-- A rank decodes its block. -/
theorem decodeInto_hasRead {alloc : DecodeAllocator} {plan : PhysicalDecodePlan N}
    {block : List scalar.Value}
    (hblock : block.length = boxSize (blockAxes view.pencil view.extraShape))
    (hvalues : ∀ n < boxSize (blockAxes view.pencil view.extraShape),
      block[n]? = values[boxPlace (blockAxes view.pencil view.extraShape) n]?)
    (hplan : preparePhysicalDecode alloc view (block.flatMap scalar.encodeLe) = .ok plan) :
    ∃ buffer, plan.decodeInto (block.flatMap scalar.encodeLe) (Buf.fresh view.storage)
        = (.ok buffer : Except (Stop IoError) _) ∧ HasRead view values buffer := by
  obtain ⟨hisPlan, hpacked, _⟩ := preparePhysicalDecodeWith_eq_ok hplan
  have hstorage := view_storage_length view
  have hfit : view.extraShape.elementCount * view.pencil.localLen < usizeLimit := view_fits view
  obtain ⟨buffer, hdecode, hlength, hlog, helement⟩ := decodeInto_eq (ε := IoError) hisPlan hpacked
    hfit (show (Buf.fresh view.storage).cells.length = _ from hstorage)
  refine ⟨buffer, hdecode, hlength, hlog.trans (List.nil_append _), fun e x hvalid => ?_⟩
  have hn : globalPosition view.pencil.localShapeLogical view.extraShape e x
      < boxSize (blockAxes view.pencil view.extraShape) := by
    rw [boxSize_blockAxes, localLen_eq]
    exact globalPosition_lt hvalid.1 hvalid.2
  obtain ⟨value, hvalue⟩ : ∃ value,
      block[globalPosition view.pencil.localShapeLogical view.extraShape e x]? = some value :=
    ⟨_, List.getElem?_eq_getElem (hblock ▸ hn)⟩
  rw [helement e x hvalid, valueAt_flatMap hvalue, ← hvalue, hvalues _ hn,
    boxPlace_blockAxes hvalid]

theorem prepareRead_eq_ok {alloc : ReadAllocator} {result : H5Layout × List Byte} :
    prepareRead alloc view = .ok result ↔
      alloc.layout = true ∧ alloc.staging = true ∧
        view.extraShape.dimensions.length + N ≤ maxProtocolRank ∧
        (∀ extent ∈ view.extraShape.dimensions, extent < 2 ^ 64) ∧
        view.storage.length * scalar.width < usizeLimit ∧
        result = (h5LayoutOf view.pencil view.extraShape,
          List.replicate (view.storage.length * scalar.width) 0) := by
  unfold prepareRead
  constructor
  · intro h
    obtain ⟨_, hlayout, h⟩ := bind_eq_ok.mp h
    obtain ⟨hreserved, hrank, hextents, rfl⟩ := layoutOfView_eq_ok.mp hlayout
    obtain ⟨_, hbytes, h⟩ := bind_eq_ok.mp h
    obtain ⟨hbytesLt, rfl⟩ := checkedMul_eq_some.mp (okOr_eq_ok.mp hbytes)
    obtain ⟨_, hstaging, h⟩ := bind_eq_ok.mp h
    exact ⟨hreserved, ensure_eq_ok.mp hstaging, hrank, hextents, hbytesLt,
      (Except.ok.inj h).symm⟩
  · rintro ⟨hreserved, hstaging, hrank, hextents, hbytesLt, rfl⟩
    exact bind_eq_ok.mpr ⟨_, layoutOfView_eq_ok.mpr ⟨hreserved, hrank, hextents, rfl⟩,
      bind_eq_ok.mpr ⟨_, okOr_eq_ok.mpr (checkedMul_eq_some.mpr ⟨hbytesLt, rfl⟩),
      bind_eq_ok.mpr ⟨(), ensure_eq_ok.mpr hstaging, rfl⟩⟩⟩

/-- **A rank of the parallel reader** gets its block of the array. -/
theorem readHdf5_eq_ok {alloc : ReadAllocator} {buffer : Buf scalar.Value}
    (hstored : IsStored (List.ofFn view.pencil.globalShape) view.extraShape.dimensions values
      dataset) :
    readHdf5 alloc dataset view = .ok buffer ↔
      Readable alloc view ∧ HasRead view values buffer := by
  have hlength : values.length = arraySize (blockAxes view.pencil view.extraShape) := by
    rw [hstored.length, arraySize_view]
  obtain ⟨block, hblock, hvalues, hread⟩ := exists_blockValues hlength
  have hpayload := readPayload_eq hstored hblock hread
  have hdims : dataset.dims = (h5LayoutOf view.pencil view.extraShape).global := by
    rw [hstored.complete.dims]
    exact extents_blockAxes.symm
  have hpackedLen : (block.flatMap scalar.encodeLe).length
      = view.storage.length * scalar.width := by
    rw [length_flatMap_encodeLe, hblock, boxSize_blockAxes, view_storage_length view]
  unfold readHdf5 validateAndSelect
  rw [hdims]
  constructor
  · intro h
    obtain ⟨_, hprepare, h⟩ := bind_eq_ok.mp h
    obtain ⟨hlayout, hstaging, _, hextents, _, rfl⟩ :=
      prepareRead_eq_ok.mp (mapError_eq_ok.mp hprepare)
    obtain ⟨_, hselect, h⟩ := bind_eq_ok.mp h
    obtain ⟨_, hmetadata, hselect⟩ := bind_eq_ok.mp hselect
    obtain ⟨_, _, hselect⟩ := bind_eq_ok.mp hselect
    obtain ⟨_, _, hselect⟩ := bind_eq_ok.mp hselect
    obtain ⟨hselection, rfl⟩ := selectSpaces_eq_ok.mp (mapError_eq_ok.mp hselect)
    obtain ⟨staging, hstaged, h⟩ := bind_eq_ok.mp h
    obtain rfl := Except.ok.inj (hpayload.symm.trans (mapError_eq_ok.mp hstaged))
    obtain ⟨plan, hplan, h⟩ := bind_eq_ok.mp h
    obtain ⟨hdecode, hpackable, _⟩ :=
      preparePhysicalDecode_eq_ok.mp ⟨plan, mapError_eq_ok.mp hplan⟩
    obtain ⟨other, hother, hhas⟩ := decodeInto_hasRead hblock hvalues (mapError_eq_ok.mp hplan)
    obtain rfl := Except.ok.inj (hother.symm.trans h)
    exact ⟨⟨hlayout, hstaging, validateReadMetadata_grants hmetadata, hselection, hdecode,
      hpackable, hextents⟩, hhas⟩
  · rintro ⟨hreadable, hhas⟩
    obtain ⟨plan, hplan⟩ := preparePhysicalDecode_eq_ok.mpr
      ⟨hreadable.decode, hreadable.packable, hpackedLen⟩
    obtain ⟨other, hother, hotherHas⟩ := decodeInto_hasRead hblock hvalues hplan
    obtain rfl := hhas.unique hotherHas
    refine bind_eq_ok.mpr ⟨_, mapError_eq_ok.mpr (prepareRead_eq_ok.mpr ⟨hreadable.layout,
      hreadable.staging, hreadable.packable.rank_le, hreadable.extents_lt,
      hreadable.packable.bytes_lt, rfl⟩), bind_eq_ok.mpr ⟨_, bind_eq_ok.mpr ⟨(),
      validateReadMetadata_eq hstored.complete hreadable.packable.rank_le hreadable.metadata,
      bind_eq_ok.mpr ⟨(), ensure_eq_ok.mpr (typeMatches_spec hstored.complete.datatype),
      bind_eq_ok.mpr ⟨(), ensure_eq_ok.mpr (decide_eq_true rfl), mapError_eq_ok.mpr
      (selectSpaces_eq_ok.mpr ⟨hreadable.selection, rfl⟩)⟩⟩⟩, bind_eq_ok.mpr ⟨_,
      mapError_eq_ok.mpr hpayload, bind_eq_ok.mpr ⟨plan, mapError_eq_ok.mpr hplan, hother⟩⟩⟩⟩

end Reading

/-! ## The serial backend -/

section Serial

variable {values : List scalar.Value} {dataset : Dataset} {global extra : List ℕ}

/-- The shapes that the serial backend takes. -/
structure SerialShape (scalar : ScalarType) (global extra : List ℕ) : Prop where
  global_ne : global ≠ []
  rank_le : global.length + extra.length ≤ SerialHdf5.maxRank
  global_fits : leadingProd global < usizeLimit
  extra_fits : leadingProd extra < usizeLimit
  count_lt : global.prod * extra.prod < usizeLimit
  bytes_le : global.prod * extra.prod * scalar.width ≤ SerialHdf5.isizeMax

theorem layout_eq_ok {len : ℕ} {result : List ℕ × ℕ} :
    SerialHdf5.layout scalar global extra len = .ok result ↔
      SerialShape scalar global extra ∧ len = (extra ++ global).prod ∧
        result = (extra ++ global, len * scalar.width) := by
  have hprod : (extra ++ global).prod = global.prod * extra.prod := by
    rw [List.prod_append, Nat.mul_comm]
  have hlimit : SerialHdf5.maxRank < usizeLimit := by decide
  have hsize : SerialHdf5.isizeMax < usizeLimit := by decide
  rw [hprod]
  unfold SerialHdf5.layout
  constructor
  · intro h
    obtain ⟨_, hrank, h⟩ := bind_eq_ok.mp h
    rw [ensure_eq_ok, Bool.and_eq_true, Bool.not_eq_true', List.isEmpty_eq_false_iff,
      Option.any_eq_true] at hrank
    obtain ⟨hne, rank, hsum, hle⟩ := hrank
    obtain ⟨_, rfl⟩ := checkedAdd_eq_some.mp hsum
    obtain ⟨_, hspatial, h⟩ := bind_eq_ok.mp h
    obtain ⟨rfl, hglobalFits⟩ := elementCount_eq_ok.mp hspatial
    obtain ⟨_, hextra, h⟩ := bind_eq_ok.mp h
    obtain ⟨rfl, hextraFits⟩ := elementCount_eq_ok.mp hextra
    obtain ⟨_, hcount, h⟩ := bind_eq_ok.mp h
    obtain ⟨hcountLt, rfl⟩ := checkedMul_eq_some.mp (okOr_eq_ok.mp hcount)
    obtain ⟨_, hlen, h⟩ := bind_eq_ok.mp h
    obtain rfl := of_decide_eq_true (ensure_eq_ok.mp hlen)
    obtain ⟨bytes, hbytes, h⟩ := bind_eq_ok.mp h
    obtain ⟨hmul, hbytesLe⟩ := Option.filter_eq_some_iff.mp (okOr_eq_ok.mp hbytes)
    obtain ⟨_, rfl⟩ := checkedMul_eq_some.mp hmul
    exact ⟨⟨hne, of_decide_eq_true hle, hglobalFits, hextraFits, hcountLt,
      of_decide_eq_true hbytesLe⟩, rfl, (Except.ok.inj h).symm⟩
  · rintro ⟨hshape, rfl, rfl⟩
    have hrank := hshape.rank_le
    have hbytes := hshape.bytes_le
    refine bind_eq_ok.mpr ⟨(), ?_, bind_eq_ok.mpr ⟨_, elementCount_eq_ok.mpr ⟨rfl,
      hshape.global_fits⟩, bind_eq_ok.mpr ⟨_, elementCount_eq_ok.mpr ⟨rfl, hshape.extra_fits⟩,
      bind_eq_ok.mpr ⟨_, okOr_eq_ok.mpr (checkedMul_eq_some.mpr ⟨hshape.count_lt, rfl⟩),
      bind_eq_ok.mpr ⟨(), ensure_eq_ok.mpr (decide_eq_true rfl), bind_eq_ok.mpr ⟨_,
      okOr_eq_ok.mpr (Option.filter_eq_some_iff.mpr ⟨checkedMul_eq_some.mpr ⟨by omega, rfl⟩,
      decide_eq_true hbytes⟩), rfl⟩⟩⟩⟩⟩⟩
    rw [ensure_eq_ok, Bool.and_eq_true, Bool.not_eq_true', List.isEmpty_eq_false_iff,
      Option.any_eq_true]
    exact ⟨hshape.global_ne, _, checkedAdd_eq_some.mpr ⟨by omega, rfl⟩, decide_eq_true hrank⟩

/-- All places, in memory as in the dataset. -/
theorem transferWrites_all {β : Type} {shape : List ℕ} {elements : List β}
    (h : elements.length = shape.prod) :
    transferWrites ⟨shape, .all⟩ ⟨shape, .all⟩ elements
      = some ((List.range shape.prod).zip elements) := by
  refine transferWrites_eq rfl rfl ?_ ?_
  · show List.range shape.prod = List.range (List.range shape.prod).length
    rw [List.length_range]
  · show elements.length = (List.range shape.prod).length
    rw [List.length_range, h]

theorem transferRead_all {β : Type} {shape : List ℕ} {cells buffer : List β}
    (hcells : cells.length = shape.prod) (hbuffer : buffer.length = shape.prod) :
    transferRead ⟨shape, .all⟩ ⟨shape, .all⟩ cells buffer = some cells := by
  refine transferRead_eq rfl rfl ?_ ?_ ?_
  · show List.range shape.prod = List.range (List.range shape.prod).length
    rw [List.length_range]
  · show buffer.length = (List.range shape.prod).length
    rw [List.length_range, hbuffer]
  · show readAll cells (List.range shape.prod) = some cells
    obtain ⟨read, hread⟩ : ∃ read, readAll cells (List.range shape.prod) = some read :=
      exists_readAll fun place hplace => by
        rw [hcells]
        exact List.mem_range.mp hplace
    rw [hread]
    congr 1
    apply List.ext_getElem?
    intro i
    by_cases hi : i < shape.prod
    · exact getElem?_readAll hread (List.getElem?_range hi)
    · rw [List.getElem?_eq_none (by rw [length_readAll hread, List.length_range]; omega),
        List.getElem?_eq_none (by omega)]

theorem mem_zip_range {β : Type} {content : List β} {n : ℕ} (hn : content.length = n)
    {place : ℕ} {value : β} :
    (place, value) ∈ (List.range n).zip content ↔ content[place]? = some value := by
  rw [List.mem_iff_getElem?]
  constructor
  · rintro ⟨i, hi⟩
    obtain ⟨hplace, hvalue⟩ := List.getElem?_zip_eq_some.mp hi
    obtain ⟨hlt, rfl⟩ := List.getElem?_eq_some_iff.mp hplace
    rwa [List.getElem_range]
  · intro h
    have hlt : place < n := hn ▸ (List.getElem?_eq_some_iff.mp h).1
    exact ⟨place, List.getElem?_zip_eq_some.mpr ⟨List.getElem?_range hlt, h⟩⟩

/-- **The serial writer** leaves the array. -/
theorem writeHdf5Serial_eq_ok {reserved : Bool} :
    SerialHdf5.writeHdf5Serial reserved global extra values = .ok dataset →
      reserved = true ∧ SerialShape scalar global extra ∧
        IsStored global extra values dataset := by
  intro h
  unfold SerialHdf5.writeHdf5Serial at h
  obtain ⟨_, hlayout, h⟩ := bind_eq_ok.mp h
  obtain ⟨hshape, hlen, rfl⟩ := layout_eq_ok.mp (mapError_eq_ok.mp hlayout)
  obtain ⟨_, hreserved, h⟩ := bind_eq_ok.mp h
  obtain ⟨datatype, hdatatype, h⟩ := bind_eq_ok.mp h
  obtain ⟨writes, hwrites, h⟩ := bind_eq_ok.mp h
  obtain rfl := Except.ok.inj h
  have hspec : scalarSpec scalar.code = some datatype := okOr_eq_ok.mp hdatatype
  have hwidth : datatype.width = scalar.width := by
    obtain ⟨found, hfound, hwidth⟩ := scalarSpec_code scalar
    exact Option.some.inj (hspec.symm.trans hfound) ▸ hwidth
  have hcontent : (values.map scalar.encodeLe).length = (extra ++ global).prod := by
    rw [List.length_map, hlen]
  have hmem : ∀ w, w ∈ writes ↔ (values.map scalar.encodeLe)[w.1]? = some w.2 := by
    rintro ⟨place, value⟩
    by_cases hempty : (values.flatMap scalar.encodeLe).isEmpty = true
    · have hnil : values = [] := by
        have hzero := length_flatMap_encodeLe values
        rw [List.isEmpty_iff.mp hempty, List.length_nil] at hzero
        have := width_pos scalar
        exact List.length_eq_zero_iff.mp (by
          rcases Nat.mul_eq_zero.mp hzero.symm with h | h
          · exact h
          · omega)
      rw [if_pos hempty] at hwrites
      obtain rfl := Except.ok.inj hwrites
      rw [hnil]
      simp
    · rw [if_neg hempty, hwidth, elementsOf_flatMap, transferWrites_all hcontent] at hwrites
      obtain rfl := Except.ok.inj hwrites
      exact mem_zip_range hcontent
  refine ⟨ensure_eq_ok.mp hreserved, hshape, isComplete_serial hshape.global_ne hspec rfl rfl, ?_,
    hlen⟩
  refine pokeAll_eq_content ?_ (fun w hw => (hmem w).mp hw) fun i hi => .inr ?_
  · rw [List.length_replicate, hcontent]
  · exact ⟨(i, (values.map scalar.encodeLe)[i]), (hmem _).mpr (List.getElem?_eq_getElem hi), rfl⟩

theorem mapM_decodeChunk {destination : List scalar.Value}
    (h : destination.length = values.length) :
    (destination.zip (values.map scalar.encodeLe)).mapM
        (fun (entry : scalar.Value × List Byte) => SerialHdf5.decodeChunk entry.2)
      = .ok values := by
  induction values generalizing destination with
  | nil =>
    rw [List.map_nil, List.zip_nil_right]
    rfl
  | cons value values ih =>
    obtain ⟨old, destination, rfl⟩ := List.exists_cons_of_length_eq_add_one h
    have hvalue : SerialHdf5.decodeChunk (scalar.encodeLe value) = .ok value := by
      unfold SerialHdf5.decodeChunk
      rw [ScalarType.decodeLe_encodeLe]
      rfl
    rw [List.map_cons, List.zip_cons_cons, List.mapM_cons, hvalue]
    refine bind_eq_ok.mpr ⟨value, rfl, bind_eq_ok.mpr ⟨values, ih (by simpa using h), rfl⟩⟩

/-- **The serial reader** gets the array. -/
theorem readHdf5Serial_eq_ok {reserved : Bool} {destination read : List scalar.Value}
    (hstored : IsStored global extra values dataset) :
    SerialHdf5.readHdf5Serial reserved dataset global extra destination = .ok read ↔
      reserved = true ∧ SerialShape scalar global extra ∧ destination.length = values.length ∧
        read = values := by
  have hwidth : dataset.datatype.width = scalar.width := by
    obtain ⟨found, hfound, hwidth⟩ := scalarSpec_code scalar
    exact Option.some.inj (hstored.complete.datatype.symm.trans hfound) ▸ hwidth
  have hcells : dataset.cells.length = (extra ++ global).prod := by
    rw [hstored.cells, List.length_map, hstored.length]
  have htransfer : destination.length = (extra ++ global).prod →
      (if (List.replicate (destination.length * scalar.width) (0 : Byte)).isEmpty then
        .ok (elementsOf dataset.datatype.width
          (List.replicate (destination.length * scalar.width) 0))
      else okOr (transferRead ⟨dataset.dims, .all⟩ ⟨dataset.dims, .all⟩ dataset.cells
        (elementsOf dataset.datatype.width
          (List.replicate (destination.length * scalar.width) 0)))
        (.error (.native "HDF5 serial payload read" (-1))) : Except (Stop IoError) _)
      = .ok (values.map scalar.encodeLe) := by
    intro hlen
    have hbuffer : (elementsOf dataset.datatype.width
        (List.replicate (destination.length * scalar.width) 0)).length
        = (extra ++ global).prod := by
      rw [length_elementsOf, List.length_replicate, hwidth,
        Nat.mul_div_cancel _ (width_pos scalar), hlen]
    split
    · rename_i hempty
      have hzero : destination.length * scalar.width = 0 := by simpa using hempty
      have hnone : (extra ++ global).prod = 0 := by
        rw [← hlen]
        have := width_pos scalar
        rcases Nat.mul_eq_zero.mp hzero with h | h
        · exact h
        · omega
      rw [hnone] at hbuffer
      rw [List.length_eq_zero_iff.mp hbuffer, List.length_eq_zero_iff.mp
        (hstored.length.trans hnone)]
      rfl
    · rw [hstored.complete.dims, transferRead_all hcells hbuffer, ← hstored.cells]
      rfl
  unfold SerialHdf5.readHdf5Serial
  constructor
  · intro h
    obtain ⟨_, hlayout, h⟩ := bind_eq_ok.mp h
    obtain ⟨hshape, hlen, rfl⟩ := layout_eq_ok.mp (mapError_eq_ok.mp hlayout)
    obtain ⟨_, hreserved, h⟩ := bind_eq_ok.mp h
    obtain ⟨_, _, h⟩ := bind_eq_ok.mp h
    obtain ⟨datatype, hdatatype, h⟩ := bind_eq_ok.mp h
    obtain rfl := Option.some.inj (hstored.complete.datatype.symm.trans (okOr_eq_ok.mp hdatatype))
    obtain ⟨_, _, h⟩ := bind_eq_ok.mp h
    obtain ⟨_, _, h⟩ := bind_eq_ok.mp h
    obtain ⟨elements, helements, h⟩ := bind_eq_ok.mp h
    obtain rfl := Except.ok.inj ((htransfer hlen).symm.trans helements)
    have hsame : destination.length = values.length := hlen.trans hstored.length.symm
    exact ⟨ensure_eq_ok.mp hreserved, hshape, hsame,
      (Except.ok.inj ((mapM_decodeChunk hsame).symm.trans h)).symm⟩
  · rintro ⟨rfl, hshape, hsame, rfl⟩
    have hlen := hsame.trans hstored.length
    have hlimit : SerialHdf5.maxRank ≤ maxProtocolRank := by decide
    have hrank := hshape.rank_le
    exact bind_eq_ok.mpr ⟨_, mapError_eq_ok.mpr (layout_eq_ok.mpr ⟨hshape, hlen, rfl⟩),
      bind_eq_ok.mpr ⟨(), rfl, bind_eq_ok.mpr ⟨(), validateMetadata_eq hstored.complete (by omega),
      bind_eq_ok.mpr ⟨_, okOr_eq_ok.mpr hstored.complete.datatype, bind_eq_ok.mpr ⟨(),
      ensure_eq_ok.mpr (decide_eq_true rfl), bind_eq_ok.mpr ⟨(), ensure_eq_ok.mpr
      (decide_eq_true hstored.complete.dims), bind_eq_ok.mpr ⟨_, htransfer hlen,
      mapM_decodeChunk hsame⟩⟩⟩⟩⟩⟩⟩

end Serial

end PencilRs.Analysis
