import PencilRs.Analysis.HeaderRoundTrip
import PencilRs.Model.Hdf5Payload

/-!
# The attributes of a complete dataset

Both backends leave the same values in the attributes, of which one value is stored as a scalar
or as an array of length one.  Both readers accept the attributes of a complete dataset of the
shapes and the element type they expect.
-/

set_option autoImplicit false

namespace PencilRs.Analysis

open PencilRs.Computation PencilRs.Model PencilRs.Model.Hdf5

variable {N M : ℕ} {scalar : ScalarType} {view : PencilArrayView scalar.Value N M}

/-! ## Element types -/

theorem scalarSpec_code (scalar : ScalarType) :
    ∃ spec, scalarSpec scalar.code = some spec ∧ spec.width = scalar.width := by
  cases scalar <;> exact ⟨_, rfl, rfl⟩

theorem typeFromKind_eq_ok {spec : ScalarSpec} :
    typeFromKind scalar.code scalar.width = .ok spec ↔ scalarSpec scalar.code = some spec := by
  obtain ⟨found, hfound, hwidth⟩ := scalarSpec_code scalar
  unfold typeFromKind
  rw [okOr_eq_ok, hfound, Option.filter_some, if_pos (decide_eq_true hwidth)]

theorem typeMatches_spec {spec : ScalarSpec} (h : scalarSpec scalar.code = some spec) :
    typeMatches spec scalar.code scalar.width = true := by
  obtain ⟨found, hfound, hwidth⟩ := scalarSpec_code scalar
  obtain rfl := Option.some.inj (hfound.symm.trans h)
  unfold typeMatches
  rw [h, Bool.and_eq_true, decide_eq_true_eq, decide_eq_true_eq]
  exact ⟨hwidth, rfl⟩

/-! ## Stored values -/

/-- One value, or an array of values. -/
def IsArray (stored : StoredAttribute) (values : List ℕ) : Prop :=
  stored.values = values ∧ (stored.shape = [] ∧ values.length = 1 ∨ stored.shape = [values.length])

theorem readAttr_eq {attributes : Attributes} {attr : Attribute} {stored : StoredAttribute}
    {values : List ℕ} {n er : ℕ} (hstored : attributes attr = some stored)
    (harray : IsArray stored values) (hmax : values.length ≤ (attr.readLen n er).2)
    (hexpected : ∀ expected ∈ (attr.readLen n er).1, expected = values.length)
    (hbytes : values.length * 8 < usizeLimit) :
    readAttr true attributes attr n er = .ok values := by
  unfold readAttr
  refine bind_eq_ok.mpr ⟨stored, okOr_eq_ok.mpr hstored, bind_eq_ok.mpr ⟨values.length, ?_,
    bind_eq_ok.mpr ⟨(), ?_, bind_eq_ok.mpr ⟨_, okOr_eq_ok.mpr (checkedMul_eq_some.mpr ⟨hbytes,
    rfl⟩), bind_eq_ok.mpr ⟨(), rfl, congrArg Except.ok harray.1⟩⟩⟩⟩⟩
  · obtain ⟨hshape, hone⟩ | hshape := harray.2
    · rw [hshape, hone]
    · rw [hshape]
  · rw [ensure_eq_ok, Bool.and_eq_true, decide_eq_true_eq, Option.all_eq_true]
    exact ⟨hmax, fun expected h => decide_eq_true (hexpected expected h)⟩

theorem readAttribute_eq {attributes : Attributes} {attr : Attribute} {stored : StoredAttribute}
    {values : List ℕ} {n er : ℕ} (hstored : attributes attr = some stored)
    (harray : IsArray stored values) (hmax : values.length ≤ maxProtocolRank)
    (hexpected : ∀ expected ∈ (attr.readLen n er).1, expected = values.length) :
    SerialHdf5.readAttribute attributes attr n er = .ok values := by
  unfold SerialHdf5.readAttribute
  refine bind_eq_ok.mpr ⟨stored, okOr_eq_ok.mpr hstored, bind_eq_ok.mpr ⟨values.length, ?_,
    bind_eq_ok.mpr ⟨(), ?_, congrArg Except.ok harray.1⟩⟩⟩
  · obtain ⟨hshape, hone⟩ | hshape := harray.2
    · rw [hshape, hone]
    · rw [hshape]
  · rw [ensure_eq_ok, Bool.and_eq_true, decide_eq_true_eq, Option.all_eq_true]
    exact ⟨hmax, fun expected h => decide_eq_true (hexpected expected h).symm⟩

/-! ## Complete datasets -/

/-- The value of an attribute of a complete dataset. -/
def completeValue (scalar : ScalarType) (global extra grid permutation : List ℕ)
    (attr : Attribute) : List ℕ :=
  if attr = .commit then [commitMarker]
  else (Metadata.forWrite global.length scalar.code scalar.width extra global grid
    permutation).value attr

/-- A complete dataset of an array of some shape, whoever wrote it. -/
structure IsComplete (scalar : ScalarType) (global extra : List ℕ) (dataset : Dataset) : Prop where
  datatype : scalarSpec scalar.code = some dataset.datatype
  dims : dataset.dims = extra ++ global
  attributes : ∃ grid permutation : List ℕ,
    (validWriterGrid grid global.length = true ∧
      validPermutation permutation global.length global.length = true) ∧
    ∀ attr : Attribute, if attr.present extra.length then
      ∃ stored, dataset.attributes attr = some stored ∧
        IsArray stored (completeValue scalar global extra grid permutation attr)
    else dataset.attributes attr = none

/-- What the parallel reader asks of the allocator. -/
def GrantsMetadata (alloc : ReadMetadataAllocator) (extraRank : ℕ) : Prop :=
  (∀ attr : Attribute, attr.present extraRank = true → alloc.values attr = true) ∧
    alloc.seen = true

theorem length_writerGrid {grid : List ℕ} {n : ℕ} (h : validWriterGrid grid n = true) :
    grid.length ≤ n := by
  unfold validWriterGrid at h
  simp only [Bool.and_eq_true, decide_eq_true_eq] at h
  exact h.1.1.2

theorem length_permutation {permutation : List ℕ} {n seen : ℕ}
    (h : validPermutation permutation n seen = true) : permutation.length = n := by
  unfold validPermutation at h
  simp only [Bool.and_eq_true, decide_eq_true_eq] at h
  exact h.1.1

/-- The lengths of complete attributes are those the readers expect. -/
theorem length_completeValue {global extra grid permutation : List ℕ}
    (hgrid : validWriterGrid grid global.length = true)
    (hpermutation : validPermutation permutation global.length global.length = true)
    (hrank : extra.length + global.length ≤ maxProtocolRank) (attr : Attribute) :
    (completeValue scalar global extra grid permutation attr).length ≤ maxProtocolRank ∧
      (completeValue scalar global extra grid permutation attr).length
        ≤ (attr.readLen global.length extra.length).2 ∧
      ∀ expected ∈ (attr.readLen global.length extra.length).1,
        expected = (completeValue scalar global extra grid permutation attr).length := by
  have hmax : 1 ≤ maxProtocolRank := by decide
  have hlen := length_writerGrid hgrid
  have hperm := length_permutation hpermutation
  cases attr with
  | extraShape =>
    refine ⟨?_, le_rfl, fun expected h => (Option.some.inj h).symm⟩
    show extra.length ≤ _
    omega
  | globalShape =>
    refine ⟨?_, le_rfl, fun expected h => (Option.some.inj h).symm⟩
    show global.length ≤ _
    omega
  | writerGrid =>
    refine ⟨?_, ?_, fun expected h => absurd h nofun⟩
    · show grid.length ≤ _
      omega
    · show grid.length ≤ maxProtocolRank
      omega
  | writerPermutation =>
    refine ⟨?_, hperm.le, fun expected h => (Option.some.inj h).symm.trans hperm.symm⟩
    show permutation.length ≤ _
    omega
  | _ => exact ⟨hmax, le_rfl, fun expected h => (Option.some.inj h).symm⟩

section Readers

variable {dataset : Dataset}

/-- **The parallel reader** accepts the attributes of a complete dataset of its shapes. -/
theorem validateReadMetadata_eq {alloc : ReadMetadataAllocator}
    (hcomplete : IsComplete scalar (List.ofFn view.pencil.globalShape)
      view.extraShape.dimensions dataset)
    (hrank : view.extraShape.dimensions.length + N ≤ maxProtocolRank)
    (halloc : GrantsMetadata alloc view.extraShape.dimensions.length) :
    validateReadMetadata alloc dataset.attributes view = .ok () := by
  obtain ⟨global, hglobal⟩ : ∃ global, global = List.ofFn view.pencil.globalShape := ⟨_, rfl⟩
  have hN : global.length = N := by rw [hglobal, List.length_ofFn]
  obtain ⟨grid, permutation, ⟨hgrid, hpermutation⟩, hattributes⟩ := hcomplete.attributes
  rw [← hglobal] at hgrid hpermutation hattributes
  have hfits : maxProtocolRank * 8 < usizeLimit := by decide
  have hread : ∀ attr : Attribute, attr.present view.extraShape.dimensions.length = true →
      (readAttr (alloc.values attr) dataset.attributes attr N
        view.extraShape.dimensions.length).mapError Stop.error = .ok (completeValue scalar
          global view.extraShape.dimensions grid permutation attr) := by
    intro attr hpresent
    have hstored := hattributes attr
    rw [if_pos hpresent] at hstored
    obtain ⟨stored, hstored, harray⟩ := hstored
    obtain ⟨hle, hmax, hexpected⟩ := @length_completeValue scalar global
      view.extraShape.dimensions grid permutation hgrid hpermutation (by omega) attr
    rw [hN] at hmax hexpected
    rw [mapError_eq_ok, halloc.1 attr hpresent]
    exact readAttr_eq hstored harray hmax hexpected (by omega)
  have hextraRank : rankInRange view.extraShape.dimensions.length = true :=
    decide_eq_true (by omega)
  have hshape : validGlobalShape global = true := by
    have hne : global ≠ [] := by
      rw [← List.length_pos_iff, hN]
      exact view.pencil.decomposition.positive.trans_le view.pencil.decomposition.le_spatial
    unfold validGlobalShape
    rw [Bool.and_eq_true, Bool.not_eq_true', List.isEmpty_eq_false_iff, checkedFold_isSome, hglobal,
      leadingProd_globalShape]
    exact ⟨hglobal ▸ hne, (checkedProduct_eq_ok.mp view.pencil.globalLen_ok).2⟩
  rw [hglobal] at hshape
  have hprovenance : Hdf5.validWriterProvenance alloc.seen grid permutation N = true := by
    unfold Hdf5.validWriterProvenance
    rw [← hN, hgrid, halloc.2, length_permutation hpermutation]
    simpa using hpermutation
  have hextra : (if Attribute.extraShape.present view.extraShape.dimensions.length then
      (readAttr (alloc.values .extraShape) dataset.attributes .extraShape N
        view.extraShape.dimensions.length).mapError Stop.error
      else if (dataset.attributes .extraShape).isSome then
        .error (.error (.metadataMismatch "extra shape"))
      else .ok [] : Except (Stop IoError) (List ℕ)) = .ok view.extraShape.dimensions := by
    by_cases hpresent : Attribute.extraShape.present view.extraShape.dimensions.length = true
    · rw [if_pos hpresent]
      exact hread .extraShape hpresent
    · have habsent := hattributes .extraShape
      rw [if_neg hpresent] at habsent
      have hnil : view.extraShape.dimensions = [] := by
        rw [← List.length_eq_zero_iff]
        by_contra hne
        exact hpresent (decide_eq_true (Nat.pos_of_ne_zero hne))
      rw [if_neg hpresent, habsent, hnil]
      rfl
  unfold validateReadMetadata
  refine bind_eq_ok.mpr ⟨_, hread .version rfl, bind_eq_ok.mpr ⟨_, hread .commit rfl,
    bind_eq_ok.mpr ⟨_, hread .rank rfl, bind_eq_ok.mpr ⟨_, hread .typeCode rfl,
    bind_eq_ok.mpr ⟨_, hread .width rfl, bind_eq_ok.mpr ⟨_, hread .extraRank rfl,
    bind_eq_ok.mpr ⟨view.extraShape.dimensions.length, rfl, bind_eq_ok.mpr ⟨(), ?_,
    bind_eq_ok.mpr ⟨commitMarker, rfl, bind_eq_ok.mpr ⟨(), rfl, bind_eq_ok.mpr ⟨_, hextra,
    bind_eq_ok.mpr ⟨_, hread .globalShape rfl, bind_eq_ok.mpr ⟨_, hread .writerGrid rfl,
    bind_eq_ok.mpr ⟨_, hread .writerPermutation rfl, ?_⟩⟩⟩⟩⟩⟩⟩⟩⟩⟩⟩⟩⟩⟩
  · rw [ensure_eq_ok, hextraRank]
    simp [completeValue, Metadata.forWrite, Metadata.expected, Metadata.value,
      Metadata.matchesRead, hN]
  · rw [ensure_eq_ok]
    simp [completeValue, Metadata.forWrite, Metadata.expected, Metadata.value,
      Metadata.matchesRead, hshape, hprovenance, hglobal]

theorem readAttr_reserved {reserved : Bool} {attributes : Attributes} {attr : Attribute}
    {values : List ℕ} {n er : ℕ} (h : readAttr reserved attributes attr n er = .ok values) :
    reserved = true := by
  unfold readAttr at h
  obtain ⟨_, _, h⟩ := bind_eq_ok.mp h
  obtain ⟨_, _, h⟩ := bind_eq_ok.mp h
  obtain ⟨_, _, h⟩ := bind_eq_ok.mp h
  obtain ⟨_, _, h⟩ := bind_eq_ok.mp h
  obtain ⟨_, hreserved, _⟩ := bind_eq_ok.mp h
  exact ensure_eq_ok.mp hreserved

/-- A reader that accepts the attributes could allocate them. -/
theorem validateReadMetadata_grants {alloc : ReadMetadataAllocator} {attributes : Attributes}
    (h : validateReadMetadata alloc attributes view = .ok ()) :
    GrantsMetadata alloc view.extraShape.dimensions.length := by
  have hreserved : ∀ {attr : Attribute} {values : List ℕ},
      (readAttr (alloc.values attr) attributes attr N
        view.extraShape.dimensions.length).mapError (Stop.error (ε := IoError)) = .ok values →
      alloc.values attr = true := fun h => readAttr_reserved (mapError_eq_ok.mp h)
  unfold validateReadMetadata at h
  obtain ⟨_, hversion, h⟩ := bind_eq_ok.mp h
  obtain ⟨_, hcommit, h⟩ := bind_eq_ok.mp h
  obtain ⟨_, hn, h⟩ := bind_eq_ok.mp h
  obtain ⟨_, htype, h⟩ := bind_eq_ok.mp h
  obtain ⟨_, hwidth, h⟩ := bind_eq_ok.mp h
  obtain ⟨extraRank, hextraRank, h⟩ := bind_eq_ok.mp h
  obtain ⟨first, hfirst, h⟩ := bind_eq_ok.mp h
  obtain ⟨_, hchecks, h⟩ := bind_eq_ok.mp h
  obtain ⟨_, _, h⟩ := bind_eq_ok.mp h
  obtain ⟨_, _, h⟩ := bind_eq_ok.mp h
  obtain ⟨_, hextra, h⟩ := bind_eq_ok.mp h
  obtain ⟨_, hglobal, h⟩ := bind_eq_ok.mp h
  obtain ⟨_, hgrid, h⟩ := bind_eq_ok.mp h
  obtain ⟨_, hperm, h⟩ := bind_eq_ok.mp h
  -- the stored rank is the expected one, so the extra shape is read where there is one
  have hsame : first = view.extraShape.dimensions.length := by
    rw [ensure_eq_ok] at hchecks
    simp only [Bool.and_eq_true] at hchecks
    have hrank := hchecks.1.2
    simp only [Metadata.matchesRead, Metadata.expected, decide_eq_true_eq] at hrank
    rw [hrank] at hfirst
    exact (Except.ok.inj hfirst).symm
  refine ⟨fun attr hpresent => ?_, ?_⟩
  · cases attr with
    | version => exact hreserved hversion
    | commit => exact hreserved hcommit
    | rank => exact hreserved hn
    | typeCode => exact hreserved htype
    | width => exact hreserved hwidth
    | extraRank => exact hreserved hextraRank
    | extraShape =>
      rw [hsame, if_pos hpresent] at hextra
      exact hreserved hextra
    | globalShape => exact hreserved hglobal
    | writerGrid => exact hreserved hgrid
    | writerPermutation => exact hreserved hperm
  · rw [ensure_eq_ok, Bool.and_eq_true] at h
    have hprovenance := h.2
    unfold Hdf5.validWriterProvenance at hprovenance
    by_contra hrefused
    rw [Bool.eq_false_iff.mpr hrefused] at hprovenance
    simp at hprovenance

/-- **The serial reader** accepts the attributes of a complete dataset of its shapes. -/
theorem validateMetadata_eq {global extra : List ℕ}
    (hcomplete : IsComplete scalar global extra dataset)
    (hrank : extra.length + global.length ≤ maxProtocolRank) :
    SerialHdf5.validateMetadata scalar dataset.attributes global extra = .ok () := by
  obtain ⟨grid, permutation, ⟨hgrid, hpermutation⟩, hattributes⟩ := hcomplete.attributes
  have hread : ∀ attr : Attribute, attr.present extra.length = true →
      (SerialHdf5.readAttribute dataset.attributes attr global.length
        extra.length).mapError Stop.error
        = .ok (completeValue scalar global extra grid permutation attr) := by
    intro attr hpresent
    have hstored := hattributes attr
    rw [if_pos hpresent] at hstored
    obtain ⟨stored, hstored, harray⟩ := hstored
    obtain ⟨hle, _, hexpected⟩ := @length_completeValue scalar global extra grid permutation hgrid
      hpermutation hrank attr
    rw [mapError_eq_ok]
    exact readAttribute_eq hstored harray hle hexpected
  have hprovenance : SerialHdf5.validWriterProvenance grid permutation global.length = true := by
    unfold SerialHdf5.validWriterProvenance
    unfold validPermutation at hpermutation ⊢
    simp only [Bool.and_eq_true, decide_eq_true_eq] at hpermutation ⊢
    exact ⟨hgrid, ⟨hpermutation.1.1, by omega⟩, hpermutation.2⟩
  have hextra : (if !Attribute.extraShape.present extra.length then
      ensure (dataset.attributes .extraShape).isNone
        (.error (.metadataMismatch "extra shape"))
      else do
        let stored ← (SerialHdf5.readAttribute dataset.attributes .extraShape global.length
          extra.length).mapError Stop.error
        ensure ((Metadata.expected global.length scalar.code scalar.width extra.length extra
          global).matchesRead .extraShape stored)
          (.error (.metadataMismatch "extra shape")) : Except (Stop IoError) Unit) = .ok () := by
    by_cases hpresent : Attribute.extraShape.present extra.length = true
    · rw [hpresent]
      refine bind_eq_ok.mpr ⟨_, hread .extraShape hpresent, ?_⟩
      simp [completeValue, Metadata.forWrite, Metadata.expected, Metadata.value,
        Metadata.matchesRead]
    · have habsent := hattributes .extraShape
      rw [if_neg hpresent] at habsent
      rw [Bool.eq_false_iff.mpr hpresent, habsent]
      rfl
  have hone : ∀ (attr : Attribute) (value : ℕ), attr.present extra.length = true →
      completeValue scalar global extra grid permutation attr = [value] →
      (do
        let values ← (SerialHdf5.readAttribute dataset.attributes attr global.length
          extra.length).mapError Stop.error
        firstValue values) = .ok value := by
    intro attr value hpresent hvalue
    refine bind_eq_ok.mpr ⟨_, hread attr hpresent, ?_⟩
    rw [hvalue]
    rfl
  have hchecks : [Attribute.version, .rank, .typeCode, .width, .extraRank].foldlM (fun _ attr => do
      let value ← (do
        let values ← (SerialHdf5.readAttribute dataset.attributes attr global.length
          extra.length).mapError Stop.error
        firstValue values)
      ensure ((Metadata.expected global.length scalar.code scalar.width extra.length extra
        global).matchesRead attr [value]) (.error (.metadataMismatch "version, rank, or type"))) ()
      = (.ok () : Except (Stop IoError) Unit) := by
    refine foldlM_check_eq_ok.mpr fun attr hattr => ?_
    simp only [List.mem_cons, List.not_mem_nil, or_false] at hattr
    obtain rfl | rfl | rfl | rfl | rfl := hattr
    all_goals
      refine bind_eq_ok.mpr ⟨_, hone _ _ rfl rfl, ensure_eq_ok.mpr ?_⟩
      simp [Metadata.expected, Metadata.matchesRead]
  unfold SerialHdf5.validateMetadata
  refine bind_eq_ok.mpr ⟨(), hchecks, bind_eq_ok.mpr ⟨commitMarker, hone .commit _ rfl rfl,
    bind_eq_ok.mpr ⟨(), rfl, bind_eq_ok.mpr ⟨(), hextra, bind_eq_ok.mpr ⟨_,
    hread .globalShape rfl, bind_eq_ok.mpr ⟨_, hread .writerGrid rfl, bind_eq_ok.mpr ⟨_,
    hread .writerPermutation rfl, ?_⟩⟩⟩⟩⟩⟩⟩
  rw [ensure_eq_ok]
  simp [completeValue, Metadata.forWrite, Metadata.expected, Metadata.value,
    Metadata.matchesRead, hprovenance]

end Readers

/-! ## Writers -/

/-- How the parallel writer stores values. -/
def storeOf (values : List ℕ) : StoredAttribute :=
  { shape := if values.length = 1 then [] else [values.length], values }

theorem isArray_storeOf (values : List ℕ) : IsArray (storeOf values) values := by
  refine ⟨rfl, ?_⟩
  by_cases h : values.length = 1
  · exact .inl ⟨if_pos h, h⟩
  · exact .inr (if_neg h)

theorem writeAttrU64_eq_ok {reserved : Bool} {values : List ℕ} {stored : StoredAttribute} :
    writeAttrU64 reserved values = .ok stored ↔
      values ≠ [] ∧ values.length * 8 < usizeLimit ∧ reserved = true ∧ stored = storeOf values := by
  unfold writeAttrU64
  constructor
  · intro h
    obtain ⟨_, hne, h⟩ := bind_eq_ok.mp h
    obtain ⟨_, hbytes, h⟩ := bind_eq_ok.mp h
    obtain ⟨_, hreserved, h⟩ := bind_eq_ok.mp h
    rw [ensure_eq_ok, Bool.not_eq_true', List.isEmpty_eq_false_iff] at hne
    exact ⟨hne, (checkedMul_eq_some.mp (okOr_eq_ok.mp hbytes)).1, ensure_eq_ok.mp hreserved,
      (Except.ok.inj h).symm⟩
  · rintro ⟨hne, hbytes, rfl, rfl⟩
    refine bind_eq_ok.mpr ⟨(), ?_, bind_eq_ok.mpr ⟨_, okOr_eq_ok.mpr (checkedMul_eq_some.mpr
      ⟨hbytes, rfl⟩), bind_eq_ok.mpr ⟨(), rfl, rfl⟩⟩⟩
    rw [ensure_eq_ok, Bool.not_eq_true', List.isEmpty_eq_false_iff]
    exact hne

/-- The values that a writer of a view puts into the attributes. -/
def metadataOf (view : PencilArrayView scalar.Value N M) : Metadata :=
  Metadata.forWrite N scalar.code scalar.width view.extraShape.dimensions
    (List.ofFn view.pencil.globalShape) (List.ofFn view.pencil.topology.processGrid)
    (List.ofFn fun position => (view.pencil.permutation.axesInMemoryOrder position : ℕ))

/-- The attributes the parallel writer sets first. -/
def writtenAttributes (view : PencilArrayView scalar.Value N M) : Attributes := fun attr =>
  if attr.present view.extraShape.dimensions.length then
    some (storeOf ((metadataOf view).value attr))
  else none

/-- What the parallel writer asks of the allocator for its attributes. -/
def GrantsAttributes (alloc : MetadataAllocator) (extraRank : ℕ) : Prop :=
  alloc.global = true ∧ alloc.extra = true ∧ alloc.grid = true ∧ alloc.permutation = true ∧
    ∀ attr : Attribute, attr.present extraRank = true → alloc.values attr = true

theorem tryU64Values_eq_ok {reserved : Bool} {values values' : List ℕ} :
    MpiIo.tryU64Values reserved values = .ok values' ↔ reserved = true ∧ values' = values := by
  unfold MpiIo.tryU64Values
  rw [bind_eq_ok]
  constructor
  · rintro ⟨_, h, hvalues⟩
    exact ⟨ensure_eq_ok.mp h, (Except.ok.inj hvalues).symm⟩
  · rintro ⟨rfl, rfl⟩
    exact ⟨(), rfl, rfl⟩

theorem map_eq_ok {ε α β : Type} {result : Except ε α} {f : α → β} {value : β} :
    result.map f = .ok value ↔ ∃ inner, result = .ok inner ∧ f inner = value := by
  cases result <;> simp [Except.map]

/-- Every attribute has a value, and not too many of them. -/
theorem length_metadataOf (hrank : view.extraShape.dimensions.length + N ≤ maxProtocolRank)
    {attr : Attribute} (hpresent : attr.present view.extraShape.dimensions.length = true) :
    (metadataOf view).value attr ≠ [] ∧
      ((metadataOf view).value attr).length * 8 < usizeLimit := by
  have hM := view.pencil.decomposition.positive
  have hN := view.pencil.decomposition.le_spatial
  have hfits : maxProtocolRank * 8 < usizeLimit := by decide
  have hone : 1 ≤ maxProtocolRank := by decide
  have hlength : 0 < ((metadataOf view).value attr).length ∧
      ((metadataOf view).value attr).length ≤ maxProtocolRank := by
    cases attr with
    | extraShape =>
      refine ⟨of_decide_eq_true hpresent, ?_⟩
      show view.extraShape.dimensions.length ≤ _
      omega
    | globalShape =>
      show 0 < (List.ofFn _).length ∧ (List.ofFn _).length ≤ _
      rw [List.length_ofFn]
      omega
    | writerGrid =>
      show 0 < (List.ofFn _).length ∧ (List.ofFn _).length ≤ _
      rw [List.length_ofFn]
      omega
    | writerPermutation =>
      show 0 < (List.ofFn _).length ∧ (List.ofFn _).length ≤ _
      rw [List.length_ofFn]
      omega
    | _ => exact ⟨Nat.one_pos, hone⟩
  exact ⟨List.length_pos_iff.mp hlength.1, by omega⟩

/-- **The attributes** that the parallel writer sets first. -/
theorem writeMetadata_eq_ok {alloc : MetadataAllocator} {attributes : Attributes}
    (hrank : view.extraShape.dimensions.length + N ≤ maxProtocolRank) :
    Hdf5.writeMetadata alloc view = .ok attributes ↔
      GrantsAttributes alloc view.extraShape.dimensions.length ∧
        attributes = writtenAttributes view := by
  have hnodup : (Attribute.all.filter fun attr =>
      attr.present view.extraShape.dimensions.length).Nodup :=
    List.Nodup.filter _ (by decide)
  have hmem : ∀ attr : Attribute, (attr ∈ Attribute.all.filter fun attr =>
      attr.present view.extraShape.dimensions.length) ↔
      attr.present view.extraShape.dimensions.length = true := by
    intro attr
    rw [List.mem_filter]
    exact ⟨And.right, fun h => ⟨by cases attr <;> simp [Attribute.all], h⟩⟩
  unfold Hdf5.writeMetadata
  constructor
  · intro h
    obtain ⟨_, hglobal, h⟩ := bind_eq_ok.mp h
    obtain ⟨_, hextra, h⟩ := bind_eq_ok.mp h
    obtain ⟨_, hgrid, h⟩ := bind_eq_ok.mp h
    obtain ⟨_, hperm, h⟩ := bind_eq_ok.mp h
    obtain ⟨grantGlobal, rfl⟩ := tryU64Values_eq_ok.mp hglobal
    obtain ⟨grantExtra, rfl⟩ := tryU64Values_eq_ok.mp hextra
    obtain ⟨grantGrid, rfl⟩ := tryU64Values_eq_ok.mp hgrid
    obtain ⟨grantPerm, rfl⟩ := tryU64Values_eq_ok.mp hperm
    obtain ⟨hstored, hothers⟩ := (foldlM_fill_eq_ok hnodup).mp h
    have hvalue : ∀ attr : Attribute, attr.present view.extraShape.dimensions.length = true →
        alloc.values attr = true ∧
          attributes attr = some (storeOf ((metadataOf view).value attr)) := by
      intro attr hpresent
      obtain ⟨stored, hstored, hsome⟩ := map_eq_ok.mp (hstored attr ((hmem attr).mpr hpresent))
      obtain ⟨_, _, hreserved, rfl⟩ := writeAttrU64_eq_ok.mp (mapError_eq_ok.mp hstored)
      exact ⟨hreserved, hsome.symm⟩
    refine ⟨⟨grantGlobal, grantExtra, grantGrid, grantPerm, fun attr h => (hvalue attr h).1⟩,
      funext fun attr => ?_⟩
    unfold writtenAttributes
    split
    · rename_i hpresent
      exact (hvalue attr hpresent).2
    · rename_i habsent
      exact hothers attr fun hin => habsent ((hmem attr).mp hin)
  · rintro ⟨⟨hglobal, hextra, hgrid, hperm, hvalues⟩, rfl⟩
    refine bind_eq_ok.mpr ⟨_, tryU64Values_eq_ok.mpr ⟨hglobal, rfl⟩, bind_eq_ok.mpr ⟨_,
      tryU64Values_eq_ok.mpr ⟨hextra, rfl⟩, bind_eq_ok.mpr ⟨_, tryU64Values_eq_ok.mpr ⟨hgrid, rfl⟩,
      bind_eq_ok.mpr ⟨_, tryU64Values_eq_ok.mpr ⟨hperm, rfl⟩,
      (foldlM_fill_eq_ok hnodup).mpr ⟨fun attr hattr => ?_, fun attr hattr => ?_⟩⟩⟩⟩⟩
    · have hpresent := (hmem attr).mp hattr
      obtain ⟨hne, hbytes⟩ := length_metadataOf hrank hpresent
      refine map_eq_ok.mpr ⟨_, mapError_eq_ok.mpr (writeAttrU64_eq_ok.mpr ⟨hne, hbytes,
        hvalues attr hpresent, rfl⟩), ?_⟩
      exact (if_pos hpresent).symm
    · exact if_neg fun hpresent => hattr ((hmem attr).mpr hpresent)

section Publish

variable {created : Dataset} {writes : List (ℕ × List Byte)}

theorem publish_commit :
    (publish created writes).attributes .commit
      = (created.attributes .commit).map ({ · with values := [commitMarker] }) := by
  simp only [publish, Dataset.writeExisting, Function.update_self]

theorem publish_of_ne {attr : Attribute} (h : attr ≠ .commit) :
    (publish created writes).attributes attr = created.attributes attr := by
  show Function.update created.attributes .commit _ attr = _
  rw [Function.update_of_ne h]

/-- **A published dataset** is complete. -/
theorem isComplete_publish
    (hrank : view.extraShape.dimensions.length + N ≤ maxProtocolRank)
    (hdatatype : scalarSpec scalar.code = some created.datatype)
    (hdims : created.dims = view.extraShape.dimensions ++ List.ofFn view.pencil.globalShape)
    (hattributes : created.attributes = writtenAttributes view) :
    IsComplete scalar (List.ofFn view.pencil.globalShape) view.extraShape.dimensions
      (publish created writes) := by
  refine ⟨hdatatype, hdims, List.ofFn view.pencil.topology.processGrid,
    List.ofFn fun position => (view.pencil.permutation.axesInMemoryOrder position : ℕ), ⟨?_, ?_⟩,
    fun attr => ?_⟩
  · unfold validWriterGrid
    simp only [Bool.and_eq_true, Bool.not_eq_true', List.isEmpty_eq_false_iff, decide_eq_true_eq,
      List.all_eq_true, checkedFold_isSome, List.length_ofFn]
    refine ⟨⟨⟨?_, view.pencil.decomposition.le_spatial⟩, fun extent hextent => ?_⟩,
      leadingProd_processGrid_lt view.pencil.topology⟩
    · rw [← List.length_pos_iff, List.length_ofFn]
      exact view.pencil.decomposition.positive
    · obtain ⟨axis, rfl⟩ := (List.mem_ofFn' _ _).mp hextent
      exact view.pencil.topology.extents_pos axis
  · have h := isPermutation_axes view.pencil.permutation (by omega)
    unfold MpiIo.isPermutation at h
    unfold validPermutation
    simp only [Bool.and_eq_true, decide_eq_true_eq, List.length_ofFn] at h ⊢
    exact ⟨⟨trivial, le_rfl⟩, h.2⟩
  · by_cases hcommit : attr = .commit
    · subst hcommit
      rw [if_pos (show Attribute.commit.present _ = true from rfl), publish_commit, hattributes]
      exact ⟨_, rfl, rfl, .inl ⟨rfl, rfl⟩⟩
    · rw [publish_of_ne hcommit, hattributes]
      unfold writtenAttributes
      split
      · refine ⟨_, rfl, ?_⟩
        unfold completeValue
        rw [if_neg hcommit, List.length_ofFn]
        exact isArray_storeOf _
      · rfl

/-- **A dataset of the serial writer** is complete. -/
theorem isComplete_serial {global extra : List ℕ} (hglobal : global ≠ [])
    (hdatatype : scalarSpec scalar.code = some created.datatype)
    (hdims : created.dims = extra ++ global)
    (hattributes : created.attributes = SerialHdf5.writeMetadata scalar global extra) :
    IsComplete scalar global extra (publish created writes) := by
  refine ⟨hdatatype, hdims, [1], List.range global.length, ⟨?_, ?_⟩, fun attr => ?_⟩
  · have hlen : 1 ≤ global.length := List.length_pos_iff.mpr hglobal
    unfold validWriterGrid
    rw [show (MpiIo.checkedFold [1]).isSome = true from rfl]
    simp [hlen]
  · obtain ⟨seen, hseen⟩ := @checkDistinct_of_nodup global.length (List.range global.length)
      (fun axis h => List.mem_range.mp h) List.nodup_range
    unfold validPermutation
    rw [hseen, List.length_range]
    simp [Except.isOk, Except.toBool]
  · by_cases hcommit : attr = .commit
    · subst hcommit
      rw [if_pos (show Attribute.commit.present _ = true from rfl), publish_commit, hattributes]
      exact ⟨_, rfl, rfl, .inr rfl⟩
    · rw [publish_of_ne hcommit, hattributes]
      unfold SerialHdf5.writeMetadata
      split
      · refine ⟨_, rfl, ?_⟩
        unfold completeValue
        rw [if_neg hcommit]
        exact ⟨rfl, .inr rfl⟩
      · rfl

end Publish

end PencilRs.Analysis
