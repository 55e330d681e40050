import PencilRs.Analysis.Hdf5RoundTrip

/-!
# HDF5 files across layouts and backends

What all ranks of one layout write, the ranks of every other layout and the serial reader read
back, and what the serial writer writes as well.
-/

set_option autoImplicit false

namespace PencilRs.Analysis

open PencilRs.Computation PencilRs.Model PencilRs.Model.Hdf5

variable {N M : ℕ} {scalar : ScalarType} {topology : MpiTopology M}
  {p : DistributedPencil topology N} {extraShape : ExtraShape}

/-! ## What the ranks write together -/

/-- A dataset of the parallel writer: every rank brings its part, all create the same dataset,
and the writes are made in some order. -/
def WrittenBy (alloc : Coords topology.processGrid → WriteAllocator)
    (view : DistributedView p extraShape scalar.Value) (dataset : Dataset) : Prop :=
  ∃ (parts : Coords topology.processGrid → Dataset × List (ℕ × List Byte))
    (writes : List (ℕ × List Byte)),
    (∀ c, contribute (alloc c) (view.on c) = .ok (parts c)) ∧
      (∀ w, w ∈ writes ↔ ∃ c, w ∈ (parts c).2) ∧ ∀ c, dataset = publish (parts c).1 writes

/-- Where every rank of the parallel writer can bring its part. -/
def AllWritable (alloc : Coords topology.processGrid → WriteAllocator)
    (view : DistributedView p extraShape scalar.Value) : Prop :=
  (∀ extent ∈ extraShape.dimensions, extent < 2 ^ 64) ∧ ∀ c,
    GrantsWrite (alloc c) extraShape.dimensions.length ∧ Packable (view.on c)

variable {view : DistributedView p extraShape scalar.Value}
  {alloc : Coords topology.processGrid → WriteAllocator} {values : List scalar.Value}
  {dataset : Dataset}

/-- All ranks create one dataset. -/
theorem createdOf_on (view : DistributedView p extraShape scalar.Value) (datatype : ScalarSpec)
    (c d : Coords topology.processGrid) :
    createdOf (view.on c) datatype = createdOf (view.on d) datatype := by
  have hglobal : (view.on c).pencil.globalShape = (view.on d).pencil.globalShape := by
    rw [view.pencil_eq, view.pencil_eq, globalShape_on, globalShape_on]
  have hgrid : (List.ofFn (view.on c).pencil.topology.processGrid)
      = List.ofFn (view.on d).pencil.topology.processGrid := by
    rw [view.pencil_eq, view.pencil_eq, p.topology_eq, p.topology_eq]
    rfl
  have hpermutation : (view.on c).pencil.permutation = (view.on d).pencil.permutation := by
    rw [view.pencil_eq, view.pencil_eq, p.permutation_eq c d]
  have hextra : (view.on c).extraShape = (view.on d).extraShape := by
    rw [view.extraShape_eq, view.extraShape_eq]
  have hdims : (h5LayoutOf (view.on c).pencil (view.on c).extraShape).global
      = (h5LayoutOf (view.on d).pencil (view.on d).extraShape).global := by
    show (blockAxes _ _).map _ = (blockAxes _ _).map _
    rw [extents_blockAxes, extents_blockAxes, hglobal, hextra]
  have hattributes : writtenAttributes (view.on c) = writtenAttributes (view.on d) := by
    unfold writtenAttributes metadataOf
    rw [hglobal, hgrid, hpermutation, hextra]
  unfold createdOf
  rw [hdims, hattributes]

theorem dimensions_on (view : DistributedView p extraShape scalar.Value)
    (c : Coords topology.processGrid) :
    (view.on c).extraShape.dimensions = extraShape.dimensions := by
  rw [view.extraShape_eq]

/-- **The parallel writer** leaves the global array of its ranks' elements. -/
theorem isStored_of_writtenBy (hvalues : IsGlobalArray view values)
    (hwritten : WrittenBy alloc view dataset) :
    IsStored (List.ofFn (commonShape p)) extraShape.dimensions values dataset := by
  obtain ⟨parts, writes, hparts, hmem, hdataset⟩ := hwritten
  have hcontribute := fun c => contribute_eq_ok.mp (hparts c)
  choose hgrants hpackable hextents datatype block hspec hblock hpart using hcontribute
  have hblocks : ∀ c, (block c).length = boxSize (blockAxes (p.on c) extraShape) ∧
      ∀ n < boxSize (blockAxes (p.on c) extraShape),
        (block c)[n]? = values[boxPlace (blockAxes (p.on c) extraShape) n]? := fun c =>
    ⟨(hblock c).length_eq, fun n hn => (hblock c).getElem_eq hvalues hn⟩
  have hwrites : ∀ c, (parts c).2
      = blockWrites (p.on c) extraShape ((block c).map scalar.encodeLe) := fun c => by
    rw [hpart c, view.pencil_eq, view.extraShape_eq]
  have hdims : (h5LayoutOf (view.on topology.here).pencil
      (view.on topology.here).extraShape).global
      = extraShape.dimensions ++ List.ofFn (commonShape p) := by
    show (blockAxes _ _).map _ = _
    rw [extents_blockAxes, view.pencil_eq, view.extraShape_eq, globalShape_on]
    rfl
  have hcount : (extraShape.dimensions ++ List.ofFn (commonShape p)).prod
      = globalCount p extraShape := prod_logicalShape
  have hcomplete : IsComplete scalar (List.ofFn (view.on topology.here).pencil.globalShape)
      (view.on topology.here).extraShape.dimensions (publish (parts topology.here).1 writes) :=
    isComplete_publish (hpackable topology.here).rank_le (by rw [hpart]; exact hspec topology.here)
    (by
      rw [hpart]
      show (blockAxes _ _).map _ = _
      rw [extents_blockAxes]
      rfl) (by rw [hpart]; rfl)
  rw [dimensions_on, view.pencil_eq, globalShape_on, ← hdataset topology.here] at hcomplete
  refine ⟨hcomplete, ?_, hvalues.length.trans hcount.symm⟩
  rw [hdataset topology.here]
  refine pokeAll_blocks hvalues.length hblocks ?_ fun w => (hmem w).trans (exists_congr fun c => ?_)
  · rw [hpart]
    show (List.replicate _ _).length ≤ _
    rw [List.length_replicate, hdims, hcount]
  · rw [hwrites c]

/-- A writer whose ranks can all bring their parts leaves a dataset. -/
theorem exists_writtenBy (hwritable : AllWritable alloc view) :
    ∃ dataset, WrittenBy alloc view dataset := by
  obtain ⟨hextents, hranks⟩ := hwritable
  obtain ⟨datatype, hspec, _⟩ := scalarSpec_code scalar
  have hpart : ∀ c, ∃ writes, contribute (alloc c) (view.on c)
      = .ok (createdOf (view.on c) datatype, writes) := by
    intro c
    obtain ⟨block, _, _, hblock⟩ := foldlM_packElement (view.on c)
    refine ⟨_, contribute_eq_ok.mpr ⟨?_, (hranks c).2, ?_, datatype, block, hspec, hblock, rfl⟩⟩
    · rw [dimensions_on]
      exact (hranks c).1
    · rw [dimensions_on]
      exact hextents
  choose writes hpart using hpart
  refine ⟨publish (createdOf (view.on topology.here) datatype)
    (Finset.univ.toList.flatMap writes), fun c => (createdOf (view.on c) datatype, writes c),
    Finset.univ.toList.flatMap writes, hpart, fun w => ?_, fun c => ?_⟩
  · rw [List.mem_flatMap]
    exact exists_congr fun c => and_iff_right (by simp)
  · show _ = publish (createdOf (view.on c) datatype) _
    rw [createdOf_on view datatype c topology.here]

/-! ## The selections of all ranks -/

/-- The selections that a rank makes with its layout, in the dataset and in memory. -/
def rankSelections (alloc : WriteAllocator) (view : PencilArrayView scalar.Value N M) :
    Except IoError (Dataspace × Dataspace) := do
  let layout ← Hdf5.layoutOfView alloc.layout view
  selectSpaces alloc.selection layout.global (memoryDims layout) layout

/-- The selections of the ranks in a dataset of the global array: no place repeats, every place
is selected by one rank, and a rank without elements selects nothing. -/
structure SelectionsTile (p : DistributedPencil topology N) (extraShape : ExtraShape)
    (spaces : Coords topology.processGrid → Dataspace) : Prop where
  dims : ∀ c, (spaces c).dims = extraShape.dimensions ++ List.ofFn (commonShape p)
  once : ∀ c, (spaces c).places.Nodup
  disjoint : ∀ c d, c ≠ d → ∀ place ∈ (spaces c).places, place ∉ (spaces d).places
  cover : ∀ place, place < (extraShape.dimensions ++ List.ofFn (commonShape p)).prod ↔
    ∃ c, place ∈ (spaces c).places
  empty : ∀ c, (spaces c).selection = .none ↔
    (p.on c).localLen = 0 ∨ 0 ∈ extraShape.dimensions

theorem selectionsTile_spacesOf (p : DistributedPencil topology N) (extraShape : ExtraShape) :
    SelectionsTile p extraShape fun c => (spacesOf (p.on c) extraShape).1 := by
  have hcount : (extraShape.dimensions ++ List.ofFn (commonShape p)).prod
      = globalCount p extraShape := prod_logicalShape
  have hmem : ∀ c place, place ∈ (spacesOf (p.on c) extraShape).1.places ↔
      ∃ n < boxSize (blockAxes (p.on c) extraShape),
        boxPlace (blockAxes (p.on c) extraShape) n = place := by
    intro c place
    rw [places_spacesOf, List.mem_map]
    exact exists_congr fun n => and_congr_left' List.mem_range
  constructor
  case dims =>
    intro c
    have hextents : (blockAxes (p.on c) extraShape).map BoxAxis.extent
        = extraShape.dimensions ++ List.ofFn (commonShape p) := by
      rw [extents_blockAxes, globalShape_on]
      rfl
    show (spacesOf (p.on c) extraShape).1.dims = _
    rw [← hextents]
    unfold spacesOf
    split <;> rfl
  case once =>
    intro c
    rw [places_spacesOf]
    refine List.Nodup.map_on (fun n hn m hm h => ?_) List.nodup_range
    exact (boxPlace_unique (List.mem_range.mp hn) (List.mem_range.mp hm) h).2
  case disjoint =>
    intro c d hne place hc hd
    obtain ⟨n, hn, rfl⟩ := (hmem c place).mp hc
    obtain ⟨m, hm, hsame⟩ := (hmem d _).mp hd
    exact hne (boxPlace_unique hn hm hsame.symm).1
  case cover =>
    intro place
    rw [hcount]
    constructor
    · intro hplace
      obtain ⟨c, n, hn, rfl⟩ := exists_boxPlace hplace
      exact ⟨c, (hmem c _).mpr ⟨n, hn, rfl⟩⟩
    · rintro ⟨c, hplace⟩
      obtain ⟨n, hn, rfl⟩ := (hmem c place).mp hplace
      rw [← arraySize_on c]
      exact boxPlace_lt inside_blockAxes hn
  case empty =>
    intro c
    have hzero : boxSize (blockAxes (p.on c) extraShape) = 0 ↔
        (p.on c).localLen = 0 ∨ 0 ∈ extraShape.dimensions := by
      rw [boxSize_blockAxes, Nat.mul_eq_zero, elementCount_eq, List.prod_eq_zero_iff, or_comm]
    rw [← hzero]
    show (spacesOf (p.on c) extraShape).1.selection = .none ↔ _
    unfold spacesOf
    split
    · rename_i hempty
      exact iff_of_true rfl hempty
    · rename_i hsome
      exact iff_of_false nofun hsome

/-! ## Round trips -/

section RoundTrip

variable {L : ℕ} {other : MpiTopology L} {q : DistributedPencil other N}

/-- The ranks of a parallel reader get the elements of an array from a dataset, each once. -/
structure ReadsElements (target : DistributedView q extraShape scalar.Value) (dataset : Dataset)
    (element : List ℕ → (Fin N → ℕ) → scalar.Value → Prop) : Prop where
  succeeds : ∀ d alloc, Readable alloc (target.on d) →
    ∃ buffer, readHdf5 alloc dataset (target.on d) = .ok buffer
  once : ∀ d alloc buffer, readHdf5 alloc dataset (target.on d) = .ok buffer →
    buffer.cells.length = (target.on d).storage.length ∧
      buffer.log = List.range (target.on d).storage.length
  element : ∀ d alloc buffer, readHdf5 alloc dataset (target.on d) = .ok buffer →
    ∀ e g, ValidIndices extraShape.dimensions e → Owns (q.on d).localRanges g →
      ∃ offset value, globalOffset (q.on d) extraShape e g = some offset ∧
        buffer.cells[offset]? = some value ∧ element e g value

/-- The element that the ranks of a view hold at an index. -/
def HeldAt (view : DistributedView p extraShape scalar.Value) (e : List ℕ) (g : Fin N → ℕ)
    (value : scalar.Value) : Prop :=
  ∃ c, Owns (p.on c).localRanges g ∧ (view.on c).getGlobal e g = some value

theorem view_fits_on (view : DistributedView p extraShape scalar.Value)
    (c : Coords topology.processGrid) :
    extraShape.elementCount * (p.on c).localLen < usizeLimit := by
  have := view_fits (view.on c)
  rwa [view.extraShape_eq, view.pencil_eq] at this

/-- The element of the owner is the one of the global array. -/
theorem IsGlobalArray.getGlobal_eq (hvalues : IsGlobalArray view values)
    {c : Coords topology.processGrid} {e : List ℕ} {g : Fin N → ℕ}
    (he : ValidIndices extraShape.dimensions e) (hg : Owns (p.on c).localRanges g) :
    (view.on c).getGlobal e g = values[globalPosition (commonShape p) extraShape e g]? := by
  have hvalid : ValidElement (p.on c) extraShape e (toLocal (p.on c) g) :=
    ⟨he, validLocal_toLocal hg⟩
  have helement := hvalues.element c e _ hvalid
  rw [toGlobal_toLocal hg] at helement
  rw [helement, getLocal_eq (validElement_on.mpr hvalid)]
  unfold PencilArrayView.getGlobal
  rw [view.pencil_eq, view.extraShape_eq,
    (globalOffset_eq_some (view_fits_on view c)).mpr ⟨hg, he, rfl⟩]
  rfl

theorem readsElements_of_stored {target : DistributedView q extraShape scalar.Value}
    (hshape : commonShape q = commonShape p)
    (hstored : IsStored (List.ofFn (commonShape p)) extraShape.dimensions values dataset) :
    ReadsElements target dataset fun e g value =>
      values[globalPosition (commonShape p) extraShape e g]? = some value := by
  have hstoredOn : ∀ d, IsStored (List.ofFn (target.on d).pencil.globalShape)
      (target.on d).extraShape.dimensions values dataset := fun d => by
    rw [target.pencil_eq, target.extraShape_eq, globalShape_on, hshape]
    exact hstored
  constructor
  case succeeds =>
    intro d alloc hreadable
    have hlength : values.length
        = arraySize (blockAxes (target.on d).pencil (target.on d).extraShape) := by
      rw [(hstoredOn d).length, arraySize_view]
    obtain ⟨block, hblock, hvalues, _⟩ := exists_blockValues hlength
    have hbytes : (block.flatMap scalar.encodeLe).length
        = (target.on d).storage.length * scalar.width := by
      rw [length_flatMap_encodeLe, hblock, boxSize_blockAxes, view_storage_length]
    obtain ⟨plan, hplan⟩ :=
      preparePhysicalDecode_eq_ok.mpr ⟨hreadable.decode, hreadable.packable, hbytes⟩
    obtain ⟨buffer, _, hhas⟩ := decodeInto_hasRead hblock hvalues hplan
    exact ⟨buffer, (readHdf5_eq_ok (hstoredOn d)).mpr ⟨hreadable, hhas⟩⟩
  case once =>
    intro d alloc buffer hread
    have hhas := ((readHdf5_eq_ok (hstoredOn d)).mp hread).2
    exact ⟨hhas.length, hhas.once⟩
  case element =>
    intro d alloc buffer hread e g he hg
    have hhas := ((readHdf5_eq_ok (hstoredOn d)).mp hread).2
    have hvalid : ValidElement (q.on d) extraShape e (toLocal (q.on d) g) :=
      ⟨he, validLocal_toLocal hg⟩
    have helement := hhas.element e _ (validElement_on.mpr hvalid)
    rw [target.pencil_eq, target.extraShape_eq, toGlobal_toLocal hg, globalShape_on, hshape]
      at helement
    have hlt : globalPosition (commonShape p) extraShape e g < values.length := by
      rw [hstored.length, ← hshape]
      exact (globalPosition_lt he ((isPartition_localRanges q).inside d g hg)).trans_eq
        prod_logicalShape.symm
    exact ⟨_, values[globalPosition (commonShape p) extraShape e g],
      (globalOffset_eq_some (view_fits_on target d)).mpr ⟨hg, he, rfl⟩,
      helement.trans (List.getElem?_eq_getElem hlt), List.getElem?_eq_getElem hlt⟩

end RoundTrip

/-- **HDF5 round trips.**  The selections of the ranks tile the dataset.  What the ranks of one
layout write together, and what the serial writer writes, the ranks of every layout read back;
and the serial reader gets what the ranks write as one row-major array. -/
theorem hdf5_payload_round_trip (view : DistributedView p extraShape scalar.Value)
    (alloc : Coords topology.processGrid → WriteAllocator) {written : Dataset}
    (hwritten : WrittenBy alloc view written) :
    (∃ spaces : Coords topology.processGrid → Dataspace × Dataspace,
      (∀ c, rankSelections (alloc c) (view.on c) = .ok (spaces c)) ∧
        SelectionsTile p extraShape fun c => (spaces c).1) ∧
    (∀ {L : ℕ} {other : MpiTopology L} {q : DistributedPencil other N}
      (target : DistributedView q extraShape scalar.Value), commonShape q = commonShape p →
        ReadsElements target written (HeldAt view) ∧
        ∀ (reserved : Bool) (array : List scalar.Value) (serial : Dataset),
          SerialHdf5.writeHdf5Serial reserved (List.ofFn (commonShape p)) extraShape.dimensions
              array = .ok serial →
            ReadsElements target serial fun e g value =>
              array[globalPosition (commonShape p) extraShape e g]? = some value) ∧
    (∀ (granted : Bool) (destination read : List scalar.Value),
      SerialHdf5.readHdf5Serial granted written (List.ofFn (commonShape p))
        extraShape.dimensions destination = .ok read →
      read.length = globalCount p extraShape ∧
        ∀ e g, ValidIndices extraShape.dimensions e → InBox (commonShape p) g →
          ∃ value, read[globalPosition (commonShape p) extraShape e g]? = some value ∧
            HeldAt view e g value) ∧
    (∀ destination : List scalar.Value,
      SerialShape scalar (List.ofFn (commonShape p)) extraShape.dimensions →
        destination.length = globalCount p extraShape →
          ∃ read, SerialHdf5.readHdf5Serial true written (List.ofFn (commonShape p))
            extraShape.dimensions destination = .ok read) := by
  obtain ⟨values, hvalues⟩ := exists_globalArray view
  have hstored := isStored_of_writtenBy hvalues hwritten
  refine ⟨⟨fun c => spacesOf (p.on c) extraShape, fun c => ?_,
      selectionsTile_spacesOf p extraShape⟩,
    @fun _ _ q target hshape => ⟨?_, fun reserved array serial hserial =>
      readsElements_of_stored hshape (writeHdf5Serial_eq_ok hserial).2.2⟩, ?_, ?_⟩
  · obtain ⟨parts, _, hparts, _, _⟩ := hwritten
    obtain ⟨hgrants, hpackable, hextents, _⟩ := contribute_eq_ok.mp (hparts c)
    have hlayout := layoutOfView_eq_ok.mpr ⟨hgrants.2.1, hpackable.rank_le, hextents, rfl⟩
    have hspaces := (@selectSpaces_eq_ok _ _ (view.on c).pencil (view.on c).extraShape _ _).mpr
      ⟨hgrants.2.2.2, rfl⟩
    rw [view.pencil_eq, view.extraShape_eq] at hlayout hspaces
    exact bind_eq_ok.mpr ⟨_, hlayout, hspaces⟩
  · have hreads : ReadsElements target written _ := readsElements_of_stored hshape hstored
    refine ⟨hreads.succeeds, hreads.once, fun d alloc buffer hread e g he hg => ?_⟩
    obtain ⟨offset, value, hoffset, hcell, hvalue⟩ := hreads.element d alloc buffer hread e g he hg
    have hbox : InBox (commonShape p) g := by
      rw [← hshape]
      exact (isPartition_localRanges q).inside d g hg
    obtain ⟨c, hc⟩ := (isPartition_localRanges p).cover g hbox
    exact ⟨offset, value, hoffset, hcell, c, hc, (hvalues.getGlobal_eq he hc).trans hvalue⟩
  · intro granted destination read hread
    obtain ⟨_, _, _, rfl⟩ := (readHdf5Serial_eq_ok hstored).mp hread
    refine ⟨hvalues.length, fun e g he hg => ?_⟩
    obtain ⟨c, hc⟩ := (isPartition_localRanges p).cover g hg
    have hlt : globalPosition (commonShape p) extraShape e g < read.length := by
      rw [hvalues.length]
      exact globalPosition_lt he hg
    exact ⟨_, List.getElem?_eq_getElem hlt, c, hc,
      (hvalues.getGlobal_eq he hc).trans (List.getElem?_eq_getElem hlt)⟩
  · intro destination hshape hlength
    exact ⟨values, (readHdf5Serial_eq_ok hstored).mpr
      ⟨rfl, hshape, hlength.trans hvalues.length.symm, rfl⟩⟩

/-! ## Six bytes on two ranks -/

/-- Rows of bytes, one rank after the other. -/
def byteRows : DistributedView (threeByTwo 0 AxisPermutation.identity) ExtraShape.scalar
    ScalarType.u8.Value where
  on := fun c => {
    pencil := (threeByTwo 0 AxisPermutation.identity).on c
    extraShape := ExtraShape.scalar
    storage := List.replicate
      (ExtraShape.scalar.elementCount * ((threeByTwo 0 AxisPermutation.identity).on c).localLen)
      (7 : BitVec 8)
    storageLen_ok := validateStorageLen_of_length (by simp) (by simpa using threeByTwo_fits 0 _ c) }
  pencil_eq := fun _ => rfl
  extraShape_eq := fun _ => rfl

/-- Nothing is refused. -/
def grantAllWrites : WriteAllocator where
  pack := ⟨true, true, true⟩
  layout := true
  metadata := ⟨true, true, true, true, fun _ => true⟩
  selection := true

theorem byteRows_writable : AllWritable (fun _ => grantAllWrites) byteRows := by
  refine ⟨fun extent h => absurd h (List.not_mem_nil), fun c => ⟨?_, ?_, ?_, ?_⟩⟩
  · exact ⟨⟨rfl, rfl, rfl⟩, rfl, ⟨rfl, rfl, rfl, rfl, fun _ _ => rfl⟩, rfl⟩
  · show 0 + 2 ≤ maxProtocolRank
    decide
  · revert c
    decide
  · have hlen : (byteRows.on c).storage.length ≤ 6 := by
      show (List.replicate _ _).length ≤ 6
      rw [List.length_replicate]
      exact threeByTwo_le 0 _ c
    show (byteRows.on c).storage.length * 1 < usizeLimit
    exact (Nat.mul_one _).trans_lt (hlen.trans_lt (by decide))

theorem hdf5_payload_round_trip_rows :
    ∃ written, WrittenBy (fun _ => grantAllWrites) byteRows written ∧
      ∃ read, SerialHdf5.readHdf5Serial true written [3, 2] []
        (List.replicate 6 (0 : ScalarType.u8.Value)) = .ok read := by
  obtain ⟨written, hwritten⟩ := exists_writtenBy byteRows_writable
  obtain ⟨_, _, _, hread⟩ := hdf5_payload_round_trip byteRows (fun _ => grantAllWrites) hwritten
  have hshape : SerialShape ScalarType.u8 [3, 2] [] := by
    constructor <;> decide
  exact ⟨written, hwritten, hread _ hshape (by decide)⟩

end PencilRs.Analysis
