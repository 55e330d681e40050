import PencilRs.Analysis.Hdf5Files
import PencilRs.Model.Hdf5Catalog

/-!
# What the catalogs of HDF5 files accept

Both catalogs accept the attributes of a complete dataset, but for the check of its number of
bytes.  One of them multiplies by the width last and the other first: a zero extent after a large
one saves the first product, and comes too late for the second.
-/

set_option autoImplicit false

namespace PencilRs.Analysis

open PencilRs.Computation PencilRs.Model PencilRs.Model.Hdf5

variable {N M : ℕ} {scalar : ScalarType}

/-! ## The two products -/

section Products

variable {global extra : List ℕ} {width : ℕ}

theorem validShapeBytes_iff :
    validShapeBytes global extra width = true ↔ leadingProd (global ++ extra) < usizeLimit ∧
      (global ++ extra).prod * width < usizeLimit := by
  unfold validShapeBytes
  rw [Option.isSome_iff_exists]
  constructor
  · rintro ⟨bytes, h⟩
    obtain ⟨product, hproduct, hbytes⟩ := Option.bind_eq_some_iff.mp h
    obtain ⟨rfl, hleading⟩ := checkedFold_eq_some.mp hproduct
    exact ⟨hleading, (checkedMul_eq_some.mp hbytes).1⟩
  · rintro ⟨hleading, hbytes⟩
    exact ⟨_, Option.bind_eq_some_iff.mpr ⟨_, checkedFold_eq_some.mpr ⟨rfl, hleading⟩,
      checkedMul_eq_some.mpr ⟨hbytes, rfl⟩⟩⟩

theorem validShapeBytesFromWidth_iff (hwidth : width < usizeLimit) :
    validShapeBytesFromWidth global extra width = true ↔
      width * leadingProd (global ++ extra) < usizeLimit := by
  unfold validShapeBytesFromWidth
  rw [Option.isSome_iff_exists]
  constructor
  · rintro ⟨bytes, h⟩
    exact ((foldlM_checkedMul_eq_some hwidth).mp h).2
  · intro h
    exact ⟨_, (foldlM_checkedMul_eq_some hwidth).mpr ⟨rfl, h⟩⟩

/-- A product is no larger than its front, or it has a zero. -/
theorem prod_eq_leadingProd_or_zero (values : List ℕ) :
    values.prod = leadingProd values ∧ 0 ∉ values ∨ values.prod = 0 ∧ 0 ∈ values := by
  by_cases hzero : 0 ∈ values
  · exact .inr ⟨List.prod_eq_zero hzero, hzero⟩
  · refine .inl ⟨(leadingProd_of_pos fun value hvalue h => ?_).symm, hzero⟩
    exact hzero (h ▸ hvalue)

theorem validShapeBytes_of_fromWidth (hpos : 0 < width) (hwidth : width < usizeLimit)
    (h : validShapeBytesFromWidth global extra width = true) :
    validShapeBytes global extra width = true := by
  rw [validShapeBytesFromWidth_iff hwidth] at h
  have hle : leadingProd (global ++ extra) ≤ width * leadingProd (global ++ extra) :=
    Nat.le_mul_of_pos_left _ hpos
  rw [validShapeBytes_iff]
  refine ⟨hle.trans_lt h, ?_⟩
  obtain ⟨hprod, _⟩ | ⟨hprod, _⟩ := prod_eq_leadingProd_or_zero (global ++ extra)
  · rwa [hprod, Nat.mul_comm]
  · rw [hprod, Nat.zero_mul]
    decide

/-- **The two products part** at a zero after extents whose bytes do not fit, although their
number does. -/
theorem validShapeBytes_ne_iff (hpos : 0 < width) (hwidth : width < usizeLimit) :
    validShapeBytes global extra width ≠ validShapeBytesFromWidth global extra width ↔
      0 ∈ global ++ extra ∧ leadingProd (global ++ extra) < usizeLimit ∧
        usizeLimit ≤ width * leadingProd (global ++ extra) := by
  constructor
  · intro hne
    by_cases hsession : validShapeBytesFromWidth global extra width = true
    · exact absurd ((validShapeBytes_of_fromWidth hpos hwidth hsession).trans hsession.symm) hne
    · have hcontainer : validShapeBytes global extra width = true := by
        rw [Bool.not_eq_true] at hsession
        rw [hsession] at hne
        exact Bool.eq_true_of_not_eq_false hne
      rw [validShapeBytesFromWidth_iff hwidth, Nat.not_lt] at hsession
      obtain ⟨hleading, hbytes⟩ := validShapeBytes_iff.mp hcontainer
      obtain ⟨hprod, _⟩ | ⟨_, hzero⟩ := prod_eq_leadingProd_or_zero (global ++ extra)
      · rw [hprod, Nat.mul_comm] at hbytes
        omega
      · exact ⟨hzero, hleading, hsession⟩
  · rintro ⟨hzero, hleading, hbytes⟩ heq
    have hcontainer : validShapeBytes global extra width = true := by
      refine validShapeBytes_iff.mpr ⟨hleading, ?_⟩
      rw [List.prod_eq_zero hzero, Nat.zero_mul]
      decide
    rw [heq, validShapeBytesFromWidth_iff hwidth] at hcontainer
    omega

end Products

/-! ## Complete datasets -/

section Complete

variable {global extra : List ℕ} {dataset : Dataset}

/-- What a catalog asks of the allocator. -/
structure GrantsInspection (alloc : InspectAllocator) (extraRank : ℕ) : Prop where
  values : ∀ attr : Attribute, attr.present extraRank = true → alloc.values attr = true
  seen : alloc.seen = true
  provenance : alloc.provenance = true

/-- What a catalog reports of a dataset. -/
def infoOf (scalar : ScalarType) (global extra grid permutation : List ℕ)
    (name : Option String) : MpiIo.DatasetInfo where
  name
  scalarType := scalar
  globalShape := global
  extraShape := extra
  provenance := provenanceBytes grid permutation

/-- The attributes of a complete dataset, as a catalog reads them. -/
structure ReadsComplete (alloc : InspectAllocator) (scalar : ScalarType)
    (global extra grid permutation : List ℕ) (dataset : Dataset) : Prop where
  /-- An attribute whose length does not depend on the ranks. -/
  scalars : ∀ attr : Attribute, attr.present extra.length = true →
    attr.readLen 0 0 = attr.readLen global.length extra.length →
    readAttr (alloc.values attr) dataset.attributes attr 0 0
      = .ok (completeValue scalar global extra grid permutation attr)
  arrays : ∀ attr : Attribute, attr.present extra.length = true →
    readAttr (alloc.values attr) dataset.attributes attr global.length extra.length
      = .ok (completeValue scalar global extra grid permutation attr)
  absent : Attribute.extraShape.present extra.length = false →
    dataset.attributes .extraShape = none ∧ extra = []
  provenance : Hdf5.validWriterProvenance alloc.seen grid permutation global.length = true
  lengths : grid.length ≤ maxProtocolRank ∧ permutation.length ≤ maxProtocolRank

theorem IsComplete.reads {alloc : InspectAllocator}
    (hcomplete : IsComplete scalar global extra dataset)
    (hrank : extra.length + global.length ≤ maxProtocolRank)
    (halloc : GrantsInspection alloc extra.length) :
    ∃ grid permutation, ReadsComplete alloc scalar global extra grid permutation dataset := by
  obtain ⟨grid, permutation, ⟨hgrid, hpermutation⟩, hattributes⟩ := hcomplete.attributes
  have hfits : maxProtocolRank * 8 < usizeLimit := by decide
  have harrays : ∀ attr : Attribute, attr.present extra.length = true →
      readAttr (alloc.values attr) dataset.attributes attr global.length extra.length
        = .ok (completeValue scalar global extra grid permutation attr) := by
    intro attr hpresent
    have hstored := hattributes attr
    rw [if_pos hpresent] at hstored
    obtain ⟨stored, hstored, harray⟩ := hstored
    obtain ⟨hle, hmax, hexpected⟩ := @length_completeValue scalar global extra grid permutation
      hgrid hpermutation hrank attr
    rw [halloc.values attr hpresent]
    exact readAttr_eq hstored harray hmax hexpected (by omega)
  refine ⟨grid, permutation, fun attr hpresent hlen => ?_, harrays, fun habsent => ?_, ?_, ?_⟩
  · have h := harrays attr hpresent
    unfold readAttr at h ⊢
    rwa [hlen]
  · have hnone := hattributes .extraShape
    rw [if_neg (by rw [habsent]; decide)] at hnone
    refine ⟨hnone, List.length_eq_zero_iff.mp ?_⟩
    by_contra hne
    have hpresent : Attribute.extraShape.present extra.length = true :=
      decide_eq_true (Nat.pos_of_ne_zero hne)
    rw [habsent] at hpresent
    contradiction
  · unfold Hdf5.validWriterProvenance
    rw [hgrid, halloc.seen, length_permutation hpermutation]
    simpa using hpermutation
  · have hlen := length_writerGrid hgrid
    have hperm := length_permutation hpermutation
    omega

section Readers

variable {alloc : InspectAllocator} {grid permutation : List ℕ}

/-- The ranks of a complete dataset are in range. -/
theorem scalarMetadata_valid (hglobal : global ≠ [])
    (hrank : extra.length + global.length ≤ maxProtocolRank) :
    (Metadata.versionOnly.matchesRead .version
        (completeValue scalar global extra grid permutation .version)
      && commitState commitMarker = .complete && 0 < global.length && rankInRange global.length
      && rankInRange extra.length && combinedRankInRange global.length extra.length) = true := by
  have hpos := List.length_pos_iff.mpr hglobal
  have hlimit : maxProtocolRank < usizeLimit := by decide
  have hcombined : combinedRankInRange global.length extra.length = true := by
    unfold combinedRankInRange
    rw [checkedAdd_eq_some.mpr ⟨by omega, rfl⟩]
    exact decide_eq_true (by omega)
  have hversion : Metadata.versionOnly.matchesRead .version
      (completeValue scalar global extra grid permutation .version) = true := by
    simp [Metadata.versionOnly, Metadata.matchesRead, completeValue, Metadata.forWrite,
      Metadata.value]
  rw [hversion, hcombined, decide_eq_true hpos,
    show rankInRange global.length = true from decide_eq_true (by omega),
    show rankInRange extra.length = true from decide_eq_true (by omega)]
  rfl

theorem bind_of_ok {ε α β : Type} {result : Except ε α} {value : α} (h : result = .ok value)
    (next : α → Except ε β) : (result >>= next) = next value := by
  rw [h]
  rfl

theorem bind_of_ensure {ε β : Type} {cond : Bool} {error : ε} (h : cond = true)
    (next : Unit → Except ε β) : (ensure cond error >>= next) = next () :=
  bind_of_ok (ensure_eq_ok.mpr h) next

theorem mapError_of_ok {ε ε' α : Type} {result : Except ε α} {value : α} (h : result = .ok value)
    (f : ε → ε') : result.mapError f = .ok value := mapError_eq_ok.mpr h

theorem extraShape_reads {ε : Type} {read : Except ε (List ℕ)} {absent : ε}
    (hreads : ReadsComplete alloc scalar global extra grid permutation dataset)
    (hread : Attribute.extraShape.present extra.length = true → read = .ok extra) :
    (if Attribute.extraShape.present extra.length then read
      else do
        ensure (dataset.attributes .extraShape).isNone absent
        return []) = .ok extra := by
  by_cases hpresent : Attribute.extraShape.present extra.length = true
  · rw [if_pos hpresent, hread hpresent]
  · obtain ⟨hnone, hnil⟩ := hreads.absent (Bool.not_eq_true _ ▸ hpresent)
    rw [if_neg hpresent, hnone, hnil]
    rfl

/-- **The catalog of a container** accepts a complete dataset whose bytes pass its check. -/
theorem inspectDataset_eq
    (hreads : ReadsComplete alloc scalar global extra grid permutation dataset)
    (hcomplete : IsComplete scalar global extra dataset) (hglobal : global ≠ [])
    (hrank : extra.length + global.length ≤ maxProtocolRank)
    (hextents : ∀ extent ∈ extra ++ global, extent < 2 ^ 64) (halloc : alloc.provenance = true)
    (name : Option String) :
    inspectDataset alloc dataset name
      = if validShapeBytes global extra scalar.width then
          .ok (infoOf scalar global extra grid permutation name)
        else .error (.error
          (.io (.collectivePrecondition "HDF5 catalog shape or provenance"))) := by
  have hpos := List.length_pos_iff.mpr hglobal
  have hmeta := @scalarMetadata_valid scalar global extra grid permutation hglobal hrank
  have hlimit : maxProtocolRank * 8 < usizeLimit := by decide
  have hdecode : ScalarType.decode scalar.code scalar.width = some scalar :=
    ScalarType.decode_eq_some.mpr ⟨rfl, rfl⟩
  have hdecoded : (ScalarType.decode scalar.code scalar.width).isSome = true := by rw [hdecode]; rfl
  have hshape : catalogShapeValid alloc.seen global extra grid permutation global.length
      scalar.width = validShapeBytes global extra scalar.width := by
    have hcombined := hmeta
    rw [Bool.and_eq_true] at hcombined
    unfold catalogShapeValid
    rw [hreads.provenance, Bool.and_true, hcombined.2, Bool.and_true,
      List.isEmpty_eq_false_iff.mpr hglobal]
    rfl
  have hscalar := fun attr hpresent hlen =>
    mapError_of_ok (hreads.scalars attr hpresent hlen) fun e => Stop.error (MpiIo.CatalogError.io e)
  have harray := fun attr hpresent =>
    mapError_of_ok (hreads.arrays attr hpresent) fun e => Stop.error (MpiIo.CatalogError.io e)
  unfold inspectDataset
  refine (bind_of_ok (hscalar .version rfl rfl) _).trans <|
    (bind_of_ok (hscalar .commit rfl rfl) _).trans <|
    (bind_of_ok (hscalar .rank rfl rfl) _).trans <|
    (bind_of_ok (hscalar .typeCode rfl rfl) _).trans <|
    (bind_of_ok (hscalar .width rfl rfl) _).trans <|
    (bind_of_ok (hscalar .extraRank rfl rfl) _).trans <|
    (bind_of_ok (show _ = Except.ok scalar.code from rfl) _).trans <|
    (bind_of_ok (show _ = Except.ok scalar.width from rfl) _).trans <|
    (bind_of_ensure hdecoded _).trans <|
    (bind_of_ok (okOr_eq_ok.mpr hdecode) _).trans <|
    (bind_of_ok (show _ = Except.ok global.length from rfl) _).trans <|
    (bind_of_ok (show _ = Except.ok extra.length from rfl) _).trans <|
    (bind_of_ensure ?_ _).trans <|
    (bind_of_ok (show _ = Except.ok commitMarker from rfl) _).trans <|
    (bind_of_ensure hmeta _).trans <|
    (bind_of_ok (extraShape_reads hreads (harray .extraShape)) _).trans <|
    (bind_of_ok (harray .globalShape rfl) _).trans <|
    (bind_of_ok (harray .writerGrid rfl) _).trans <|
    (bind_of_ok (harray .writerPermutation rfl) _).trans ?_
  · rw [Bool.and_eq_true, decide_eq_true_eq, decide_eq_true_eq]
    omega
  show (ensure (catalogShapeValid alloc.seen global extra grid permutation global.length
    scalar.width) _ >>= _) = _
  rw [hshape]
  by_cases hvalid : validShapeBytes global extra scalar.width = true
  · rw [if_pos hvalid]
    refine (bind_of_ensure hvalid _).trans <|
      (bind_of_ensure (List.all_eq_true.mpr fun extent h => decide_eq_true (hextents extent h))
        _).trans <|
      (bind_of_ensure (decide_eq_true hcomplete.dims) _).trans <|
      (bind_of_ensure (typeMatches_spec hcomplete.datatype) _).trans <|
      (bind_of_ok (okOr_eq_ok.mpr (checkedMul_eq_some.mpr ⟨?_, rfl⟩)) _).trans <|
      (bind_of_ensure halloc _).trans rfl
    have := hreads.lengths
    have : 2 * maxProtocolRank * 8 < usizeLimit := by decide
    show (grid.length + permutation.length) * 8 < usizeLimit
    omega
  · rw [if_neg hvalid, Bool.eq_false_of_not_eq_true hvalid]
    rfl

/-- **The catalog of a session** accepts a complete dataset whose bytes pass its check. -/
theorem leaf_eq (hreads : ReadsComplete alloc scalar global extra grid permutation dataset)
    (hcomplete : IsComplete scalar global extra dataset) (hglobal : global ≠ [])
    (hrank : extra.length + global.length ≤ maxProtocolRank) (halloc : alloc.provenance = true)
    (path : String) :
    leaf alloc dataset path
      = if validShapeBytesFromWidth global extra scalar.width then
          .ok (infoOf scalar global extra grid permutation (some path))
        else .error (.error (.io (.collectivePrecondition
          "session catalog shape and provenance"))) := by
  have hmeta := @scalarMetadata_valid scalar global extra grid permutation hglobal hrank
  have hdecode : ScalarType.decode scalar.code scalar.width = some scalar :=
    ScalarType.decode_eq_some.mpr ⟨rfl, rfl⟩
  have hdecoded : (ScalarType.decode scalar.code scalar.width).isSome = true := by rw [hdecode]; rfl
  have hshape : leafShapeValid alloc.seen global extra grid permutation global.length
      scalar.width = validShapeBytesFromWidth global extra scalar.width := by
    unfold leafShapeValid
    rw [hreads.provenance, Bool.and_true]
  have hscalar := fun attr hpresent hlen =>
    mapError_of_ok (hreads.scalars attr hpresent hlen) fun e => Stop.error (SessionError.io e)
  have harray := fun attr hpresent =>
    mapError_of_ok (hreads.arrays attr hpresent) fun e => Stop.error (SessionError.io e)
  unfold leaf
  refine (bind_of_ok (hscalar .version rfl rfl) _).trans <|
    (bind_of_ok (hscalar .commit rfl rfl) _).trans <|
    (bind_of_ok (hscalar .rank rfl rfl) _).trans <|
    (bind_of_ok (show _ = Except.ok global.length from rfl) _).trans <|
    (bind_of_ok (hscalar .typeCode rfl rfl) _).trans <|
    (bind_of_ok (show _ = Except.ok scalar.code from rfl) _).trans <|
    (bind_of_ok (hscalar .width rfl rfl) _).trans <|
    (bind_of_ok (show _ = Except.ok scalar.width from rfl) _).trans <|
    (bind_of_ok (hscalar .extraRank rfl rfl) _).trans <|
    (bind_of_ok (show _ = Except.ok extra.length from rfl) _).trans <|
    (bind_of_ok (show _ = Except.ok commitMarker from rfl) _).trans <|
    (bind_of_ensure (Bool.and_eq_true_iff.mpr ⟨hmeta, hdecoded⟩) _).trans <|
    (bind_of_ok (okOr_eq_ok.mpr hdecode) _).trans <|
    (bind_of_ok (extraShape_reads hreads (harray .extraShape)) _).trans <|
    (bind_of_ok (harray .globalShape rfl) _).trans <|
    (bind_of_ok (harray .writerGrid rfl) _).trans <|
    (bind_of_ok (harray .writerPermutation rfl) _).trans ?_
  show (ensure (leafShapeValid alloc.seen global extra grid permutation global.length
    scalar.width) _ >>= _) = _
  rw [hshape]
  by_cases hvalid : validShapeBytesFromWidth global extra scalar.width = true
  · rw [if_pos hvalid]
    exact (bind_of_ensure hvalid _).trans <|
      (bind_of_ensure (decide_eq_true hcomplete.dims) _).trans <|
      (bind_of_ensure (typeMatches_spec hcomplete.datatype) _).trans <|
      (bind_of_ensure halloc _).trans rfl
  · rw [if_neg hvalid, Bool.eq_false_of_not_eq_true hvalid]
    rfl

end Readers

end Complete

/-! ## What the writer leaves -/

section Written

variable {view : PencilArrayView scalar.Value N M}

theorem prepareWrite_eq_ok {alloc : WriteAllocator} {packed : List Byte} {layout : H5Layout}
    (h : prepareWrite alloc view = .ok (packed, layout)) :
    view.extraShape.dimensions.length + N ≤ maxProtocolRank ∧
      (∀ extent ∈ view.extraShape.dimensions, extent < 2 ^ 64) ∧
      layout = h5LayoutOf view.pencil view.extraShape := by
  obtain ⟨_, _, h⟩ := bind_eq_ok.mp h
  obtain ⟨_, hlayout, h⟩ := bind_eq_ok.mp h
  cases h
  exact (layoutOfView_eq_ok.mp (mapError_eq_ok.mp hlayout)).2

/-- **A written dataset** is complete. -/
theorem isComplete_written {alloc : WriteAllocator} {packed : List Byte} {layout : H5Layout}
    {created : Dataset} (hprepare : prepareWrite alloc view = .ok (packed, layout))
    (hcreate : createDataset alloc.metadata view layout = .ok created)
    (writes : List (ℕ × List Byte)) :
    IsComplete scalar (List.ofFn view.pencil.globalShape) view.extraShape.dimensions
      (publish created writes) := by
  obtain ⟨hrank, _, rfl⟩ := prepareWrite_eq_ok hprepare
  obtain ⟨datatype, hdatatype, hcreate⟩ := bind_eq_ok.mp hcreate
  obtain ⟨attributes, hattributes, hcreate⟩ := bind_eq_ok.mp hcreate
  obtain ⟨_, rfl⟩ := (writeMetadata_eq_ok hrank).mp hattributes
  cases hcreate
  refine isComplete_publish hrank (typeFromKind_eq_ok.mp (mapError_eq_ok.mp hdatatype)) ?_ rfl
  show (blockAxes _ _).map _ = _
  rw [extents_blockAxes]
  rfl

/-- **Shape validators.**  The attributes a writer sets for a view that it packed and laid out pass
every check of the reader, and all checks of the two catalogs but the one of the number of bytes.
The catalog of a container multiplies the extents and then the width: it accepts when the extents
before the first zero and the bytes fit.  The catalog of a session starts at the width: it accepts
when the bytes of the extents before the first zero fit.  So it accepts no more than the other, and
the two part exactly where a zero follows extents that fit as a number but not as bytes. -/
theorem shape_validators {alloc : WriteAllocator} {packed : List Byte} {layout : H5Layout}
    {created : Dataset} (hprepare : prepareWrite alloc view = .ok (packed, layout))
    (hcreate : createDataset alloc.metadata view layout = .ok created)
    (writes : List (ℕ × List Byte)) :
    (∀ (M' : ℕ) (target : PencilArrayView scalar.Value N M') (granted : ReadMetadataAllocator),
      target.pencil.globalShape = view.pencil.globalShape →
      target.extraShape.dimensions = view.extraShape.dimensions →
      GrantsMetadata granted view.extraShape.dimensions.length →
      validateReadMetadata granted (publish created writes).attributes target = .ok ()) ∧
    (∀ (granted : InspectAllocator) (name : Option String),
      GrantsInspection granted view.extraShape.dimensions.length →
      ((∃ info, inspectDataset granted (publish created writes) name = .ok info) ↔
        leadingProd (List.ofFn view.pencil.globalShape ++ view.extraShape.dimensions) < usizeLimit ∧
        (List.ofFn view.pencil.globalShape ++ view.extraShape.dimensions).prod * scalar.width
          < usizeLimit)) ∧
    (∀ (granted : InspectAllocator) (path : String),
      GrantsInspection granted view.extraShape.dimensions.length →
      ((∃ info, leaf granted (publish created writes) path = .ok info) ↔
        scalar.width * leadingProd (List.ofFn view.pencil.globalShape ++ view.extraShape.dimensions)
          < usizeLimit)) ∧
    ∀ (global extra : List ℕ) (width : ℕ), 0 < width → width < usizeLimit →
      (validShapeBytesFromWidth global extra width = true →
        validShapeBytes global extra width = true) ∧
      (validShapeBytes global extra width ≠ validShapeBytesFromWidth global extra width ↔
        0 ∈ global ++ extra ∧ leadingProd (global ++ extra) < usizeLimit ∧
          usizeLimit ≤ width * leadingProd (global ++ extra)) := by
  obtain ⟨hrank, hextents, _⟩ := prepareWrite_eq_ok hprepare
  have hcomplete := isComplete_written hprepare hcreate writes
  have hN : 0 < N :=
    view.pencil.decomposition.positive.trans_le view.pencil.decomposition.le_spatial
  have hlength : (List.ofFn view.pencil.globalShape).length = N := List.length_ofFn
  have hglobal : List.ofFn view.pencil.globalShape ≠ [] := by
    rw [← List.length_pos_iff, hlength]
    exact hN
  have hrank' : view.extraShape.dimensions.length + (List.ofFn view.pencil.globalShape).length
      ≤ maxProtocolRank := by rwa [hlength]
  have hsizes : ∀ extent ∈ view.extraShape.dimensions ++ List.ofFn view.pencil.globalShape,
      extent < 2 ^ 64 := by
    intro extent h
    obtain h | h := List.mem_append.mp h
    · exact hextents extent h
    · obtain ⟨axis, rfl⟩ := (List.mem_ofFn' _ _).mp h
      exact extent_lt view.pencil.extents_pos (globalShape_fits view.pencil) axis
  have hwidth : 0 < scalar.width ∧ scalar.width < usizeLimit := by cases scalar <;> decide
  refine ⟨fun _ target granted hshape hextra hgrants => ?_, fun granted name hgrants => ?_,
    fun granted path hgrants => ?_, fun global extra width hpos hlt =>
      ⟨validShapeBytes_of_fromWidth hpos hlt, validShapeBytes_ne_iff hpos hlt⟩⟩
  · rw [← hshape, ← hextra] at hcomplete
    exact validateReadMetadata_eq hcomplete (hextra ▸ hrank) (hextra ▸ hgrants)
  · obtain ⟨grid, permutation, hreads⟩ := hcomplete.reads hrank' hgrants
    rw [inspectDataset_eq hreads hcomplete hglobal hrank' hsizes hgrants.provenance,
      ← validShapeBytes_iff]
    split <;> simp_all
  · obtain ⟨grid, permutation, hreads⟩ := hcomplete.reads hrank' hgrants
    rw [leaf_eq hreads hcomplete hglobal hrank' hgrants.provenance,
      ← validShapeBytesFromWidth_iff hwidth.2]
    split <;> simp_all

end Written

/-! ## A long row and no components -/

theorem row_injective : Function.Injective (![0] : Fin 1 → Fin 1) :=
  fun a b _ => Subsingleton.elim a b

/-- One row on one rank. -/
def longRow : Pencil 1 1 :=
  buildPencil oneRank (fun _ => 2 ^ 61) ⟨![0], row_injective, Nat.one_pos⟩
    AxisPermutation.identity (fun _ => by decide) (by decide)

/-- A view of the row without an element: its extra extent is zero. -/
def emptyRow : PencilArrayView ScalarType.u64.Value 1 1 where
  pencil := longRow
  extraShape := ⟨[0], 0, rfl⟩
  storage := []
  storageLen_ok := validateStorageLen_of_length (by simp) (by decide)

theorem emptyRow_written : ∃ packed layout created,
    prepareWrite grantAllWrites emptyRow = .ok (packed, layout) ∧
      createDataset grantAllWrites.metadata emptyRow layout = .ok created := by
  obtain ⟨datatype, hdatatype, _⟩ := scalarSpec_code .u64
  obtain ⟨block, _, _, hblock⟩ := foldlM_packElement emptyRow
  have hpackable : Packable emptyRow := ⟨by decide, by decide, by decide⟩
  have hpart : contribute grantAllWrites emptyRow = .ok _ := contribute_eq_ok.mpr
    ⟨⟨⟨rfl, rfl, rfl⟩, rfl, ⟨rfl, rfl, rfl, rfl, fun _ _ => rfl⟩, rfl⟩, hpackable, by decide,
      datatype, block, hdatatype, hblock, rfl⟩
  obtain ⟨⟨packed, layout⟩, hprepare, hpart⟩ := bind_eq_ok.mp hpart
  obtain ⟨created, hcreate, _⟩ := bind_eq_ok.mp hpart
  exact ⟨packed, layout, created, hprepare, hcreate⟩

/-- The writer packs and lays out an array that the catalog of a session does not read. -/
theorem shape_validators_counterexample :
    ∃ (packed : List Byte) (layout : H5Layout) (created : Dataset),
      prepareWrite grantAllWrites emptyRow = .ok (packed, layout) ∧
      createDataset grantAllWrites.metadata emptyRow layout = .ok created ∧
      validShapeBytes (List.ofFn emptyRow.pencil.globalShape) emptyRow.extraShape.dimensions 8
        = true ∧
      validShapeBytesFromWidth (List.ofFn emptyRow.pencil.globalShape)
        emptyRow.extraShape.dimensions 8 = false := by
  obtain ⟨packed, layout, created, hprepare, hcreate⟩ := emptyRow_written
  exact ⟨packed, layout, created, hprepare, hcreate, by decide, by decide⟩

theorem shape_validators_row :
    ∃ (created : Dataset) (info : MpiIo.DatasetInfo),
      validateReadMetadata ⟨fun _ => true, true⟩ (publish created []).attributes emptyRow = .ok () ∧
      inspectDataset ⟨fun _ => true, true, true⟩ (publish created []) none = .ok info ∧
      ¬ ∃ info, leaf ⟨fun _ => true, true, true⟩ (publish created []) "row" = .ok info := by
  obtain ⟨packed, layout, created, hprepare, hcreate⟩ := emptyRow_written
  obtain ⟨hread, hcontainer, hsession, _⟩ := shape_validators hprepare hcreate []
  have hgrants : GrantsInspection ⟨fun _ => true, true, true⟩ 1 := ⟨fun _ _ => rfl, rfl, rfl⟩
  obtain ⟨info, hinfo⟩ := (hcontainer _ none hgrants).mpr ⟨by decide, by decide⟩
  refine ⟨created, info, hread _ emptyRow _ rfl rfl ⟨fun _ _ => rfl, rfl⟩, hinfo, ?_⟩
  rw [hsession _ "row" hgrants]
  decide

end PencilRs.Analysis
