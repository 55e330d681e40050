import PencilRs.Analysis.FileLayout
import PencilRs.Analysis.Header
import PencilRs.Model.Catalog

/-!
# The two readers agree

Both readers accept a header exactly when every part of it is right; the catalog also asks that
the axes together are not too many, which a view that can be read has, and that the payload ends
the file, which `read_mpi` asks once it has the header.
-/

set_option autoImplicit false

namespace PencilRs.Analysis

open PencilRs.Computation PencilRs.Model PencilRs.Model.MpiIo

variable {N M : ℕ} {image : List Byte}

/-- The allocator refuses nothing to the catalog. -/
def CatalogAllocator.Grants (alloc : CatalogAllocator) : Prop :=
  alloc.front = true ∧ alloc.header = true ∧ alloc.arrays.global = true ∧
    alloc.arrays.extra = true ∧ alloc.arrays.grid = true ∧ alloc.arrays.permutation = true

/-- What the catalog reports of accepted bytes. -/
def reported (bytes : List Byte) (fields : V1Fields) (arrays : V1Arrays) (scalar : ScalarType) :
    DatasetInfo where
  name := none
  scalarType := scalar
  globalShape := arrays.global
  extraShape := arrays.extra
  provenance := bytes.drop (headerPrefixBytes + (fields.n + fields.extraRank) * 8)

/-- A file whose header is accepted and whose payload ends it. -/
structure CatalogAccepts (image : List Byte) (fields : V1Fields) (arrays : V1Arrays) : Prop where
  accepted : Accepted (image.take fields.headerLen) fields arrays
  ranks_le : fields.n + fields.extraRank ≤ maxProtocolRank
  size : fields.payloadOffset + fields.payloadBytes = image.length
  size_lt : image.length < usizeLimit

theorem readAt_eq_ok {reserved : Bool} {n : ℕ} {bytes : List Byte} :
    readAt reserved image 0 n = .ok bytes ↔
      n ≤ maxHeaderBytes ∧ reserved = true ∧ n ≤ image.length ∧ bytes = image.take n := by
  have hslice : slice? image 0 (0 + n) = some bytes ↔ n ≤ image.length ∧ bytes = image.take n := by
    unfold slice?
    rw [Nat.zero_add, List.drop_zero, Nat.sub_zero]
    by_cases hle : n ≤ image.length
    · rw [if_pos ⟨Nat.zero_le n, hle⟩, Option.some.injEq]
      exact ⟨fun h => ⟨hle, h.symm⟩, fun h => h.2.symm⟩
    · rw [if_neg fun h => hle h.2]
      exact ⟨fun h => absurd h (Option.some_ne_none _).symm, fun h => absurd h.1 hle⟩
  unfold readAt
  rw [bind_eq_ok]
  constructor
  · rintro ⟨_, hgrant, h⟩
    rw [ensure_eq_ok, Bool.and_eq_true, decide_eq_true_eq] at hgrant
    exact ⟨hgrant.1, hgrant.2, hslice.mp (okOr_eq_ok.mp h)⟩
  · rintro ⟨hle, rfl, h⟩
    exact ⟨(), ensure_eq_ok.mpr (by rw [decide_eq_true hle]; rfl), okOr_eq_ok.mpr (hslice.mpr h)⟩

theorem isOk_iff {ε : Type} {check : Except ε Unit} : check.isOk = true ↔ check = .ok () := by
  cases check <;> simp [Except.isOk, Except.toBool]

theorem checkPayloadOffset_eq_ok {fields : V1Fields} :
    fields.checkPayloadOffset = .ok () ↔ fields.payloadOffset = fields.headerLen := by
  unfold V1Fields.checkPayloadOffset
  rw [ensure_eq_ok, decide_eq_true_eq]

/-- **The catalog** accepts what is right in every part and ends with its payload. -/
theorem readMpiCatalog_eq_ok {alloc : CatalogAllocator} {infos : List DatasetInfo} :
    readMpiCatalog alloc image = .ok infos ↔
      CatalogAllocator.Grants alloc ∧ ∃ fields arrays scalar,
        CatalogAccepts image fields arrays ∧
        (fields.typeCode = ScalarType.code scalar ∧ fields.width = scalar.width) ∧
        infos = [reported (image.take fields.headerLen) fields arrays scalar] := by
  unfold readMpiCatalog
  constructor
  · intro h
    obtain ⟨_, hsize, h⟩ := bind_eq_ok.mp h
    obtain ⟨front, hfront, h⟩ := bind_eq_ok.mp h
    obtain ⟨_, hidentity, h⟩ := bind_eq_ok.mp h
    obtain ⟨_, hbounds, h⟩ := bind_eq_ok.mp h
    obtain ⟨header, hheader, h⟩ := bind_eq_ok.mp h
    obtain ⟨_, hranks, h⟩ := bind_eq_ok.mp h
    obtain ⟨len, hlen, h⟩ := bind_eq_ok.mp h
    obtain ⟨_, hsame, h⟩ := bind_eq_ok.mp h
    obtain ⟨scalar, hscalar, h⟩ := bind_eq_ok.mp h
    obtain ⟨_, htail, h⟩ := bind_eq_ok.mp h
    obtain ⟨arrays, harrays, h⟩ := bind_eq_ok.mp h
    obtain ⟨_, _, h⟩ := bind_eq_ok.mp h
    obtain ⟨_, _, h⟩ := bind_eq_ok.mp h
    obtain ⟨_, hmetadata, h⟩ := bind_eq_ok.mp h
    cases h
    obtain ⟨_, hfrontGrant, _, rfl⟩ := readAt_eq_ok.mp hfront
    obtain ⟨_, hheaderGrant, _, rfl⟩ := readAt_eq_ok.mp hheader
    simp only [ensure_eq_ok, Bool.and_eq_true, decide_eq_true_eq, isOk_iff, checkReserved_eq_ok,
      checkPayloadOffset_eq_ok, checkedAdd_eq_some] at hbounds hranks hsame htail hmetadata
    obtain ⟨⟨hprefixLe, hheaderLe⟩, hfileLe⟩ := hbounds
    obtain ⟨⟨⟨⟨⟨_, hn⟩, hextra⟩, htogether⟩, _⟩, _⟩ := hranks
    obtain ⟨⟨hoffset, hreserved⟩, hfileLt, hfile⟩ := htail
    obtain ⟨⟨⟨⟨hne, _⟩, hgrid⟩, hpayload⟩, hpermutation⟩ := hmetadata
    obtain ⟨hmagic, hversion, hmarker⟩ := checkIdentity_eq_ok.mp (mapError_eq_ok.mp hidentity)
    obtain ⟨rfl, _⟩ := expectedHeaderLen_eq_ok.mp (mapError_eq_ok.mp hlen)
    have hscalar := scalarType_eq_ok.mp (mapError_eq_ok.mp hscalar)
    generalize hread : V1Fields.read (image.take headerPrefixBytes) = fields at *
    have htake : (image.take fields.headerLen).take headerPrefixBytes
        = image.take headerPrefixBytes := by
      rw [List.take_take, Nat.min_eq_left hprefixLe]
    have hfit : 8 * V1Fields.arrayCount fields < usizeLimit := by
      have hlimit : maxHeaderBytes < usizeLimit := by decide
      omega
    obtain ⟨⟨hg, he, hw, hp⟩, hrest⟩ := (readArrays_eq_ok hfit).mp (mapError_eq_ok.mp harrays)
    have hgridLe : fields.gridRank ≤ fields.n := by
      obtain ⟨_, _, _, hle⟩ := checkWriterGrid_isOk.mp (isOk_iff.mpr hgrid)
      rwa [hrest.grid, hrest.global] at hle
    have haccepted : Accepted (image.take fields.headerLen) fields arrays := by
      constructor
      case front =>
        rw [htake]
        exact ⟨hread.symm, hmagic, hversion, hmarker, hn, hextra, hgridLe, hsame.1, hheaderLe,
          hoffset, scalar, hscalar⟩
      case length => rw [List.length_take, Nat.min_eq_left hfileLe]
      case reserved =>
        rw [htake]
        exact hreserved
      case rest => exact hrest
      case global_ne => simpa using hne
      case grid => exact isOk_iff.mpr hgrid
      case permutation => exact hpermutation
      case payload =>
        rw [hscalar.2]
        exact hpayload
    exact ⟨⟨hfrontGrant, hheaderGrant, hg, he, hw, hp⟩, fields, arrays, scalar,
      ⟨haccepted, htogether, hfile, hfile.symm.trans_lt hfileLt⟩, hscalar, rfl⟩
  · rintro ⟨⟨hfrontGrant, hheaderGrant, hg, he, hw, hp⟩, fields, arrays, scalar, h, hscalar, rfl⟩
    have hfront := h.accepted.front
    have hlength := hfront.length
    have hlen := h.accepted.length
    rw [List.length_take] at hlen
    have hfileLe : fields.headerLen ≤ image.length := by omega
    have hprefixLe : headerPrefixBytes ≤ fields.headerLen := by omega
    have htake : (image.take fields.headerLen).take headerPrefixBytes
        = image.take headerPrefixBytes := by
      rw [List.take_take, Nat.min_eq_left hprefixLe]
    have hreserved := h.accepted.reserved
    rw [htake] at hfront hreserved
    obtain ⟨hgridNe, _, _, hgridLe⟩ := checkWriterGrid_isOk.mp h.accepted.grid
    have hn : fields.n ≠ 0 := by
      have := List.length_pos_iff.mpr h.accepted.global_ne
      rw [h.accepted.rest.global] at this
      omega
    have hgrid : fields.gridRank ≠ 0 := by
      have := List.length_pos_iff.mpr hgridNe
      rw [h.accepted.rest.grid] at this
      omega
    have hgridOk := isOk_iff.mp h.accepted.grid
    have hpayload := h.accepted.payload
    rw [hscalar.2] at hpayload
    have hle := hfront.length_le
    have hranks := h.ranks_le
    refine bind_eq_ok.mpr ⟨(), ?_, bind_eq_ok.mpr ⟨image.take headerPrefixBytes,
      readAt_eq_ok.mpr ⟨by decide, hfrontGrant, by omega, rfl⟩, ?_⟩⟩
    · rw [ensure_eq_ok, decide_eq_true_eq]
      omega
    rw [← hfront.read]
    refine bind_eq_ok.mpr ⟨(), mapError_eq_ok.mpr (checkIdentity_eq_ok.mpr ⟨hfront.magic,
      hfront.version, hfront.marker⟩), bind_eq_ok.mpr ⟨(), ?_, bind_eq_ok.mpr ⟨_,
      readAt_eq_ok.mpr ⟨hle, hheaderGrant, hfileLe, rfl⟩, bind_eq_ok.mpr ⟨(), ?_, bind_eq_ok.mpr ⟨_,
      mapError_eq_ok.mpr (expectedHeaderLen_eq_ok.mpr ⟨hlength, ?_⟩), bind_eq_ok.mpr ⟨(), ?_,
      bind_eq_ok.mpr ⟨scalar, mapError_eq_ok.mpr (scalarType_eq_ok.mpr hscalar),
      bind_eq_ok.mpr ⟨(), ?_, bind_eq_ok.mpr ⟨arrays, mapError_eq_ok.mpr ((readArrays_eq_ok
        hfront.arrayCount_lt).mpr ⟨⟨hg, he, hw, hp⟩, h.accepted.rest⟩), bind_eq_ok.mpr ⟨(), ?_,
      bind_eq_ok.mpr ⟨(), ?_, bind_eq_ok.mpr ⟨(), ?_, rfl⟩⟩⟩⟩⟩⟩⟩⟩⟩⟩⟩⟩
    · simp only [ensure_eq_ok, Bool.and_eq_true, decide_eq_true_eq]
      exact ⟨⟨hprefixLe, hle⟩, hfileLe⟩
    · have := hfront.n_le
      have := hfront.extra_le
      have := hfront.grid_le
      simp only [ensure_eq_ok, Bool.and_eq_true, decide_eq_true_eq]
      exact ⟨⟨⟨⟨⟨hn, by omega⟩, by omega⟩, hranks⟩, hgrid⟩, by omega⟩
    · have hlimit : maxHeaderBytes < usizeLimit := by decide
      omega
    · simp only [ensure_eq_ok, Bool.and_eq_true, decide_eq_true_eq, true_and]
      exact hle
    · simp only [ensure_eq_ok, Bool.and_eq_true, decide_eq_true_eq, isOk_iff, checkReserved_eq_ok,
        checkPayloadOffset_eq_ok, checkedAdd_eq_some]
      exact ⟨⟨hfront.offset, hreserved⟩, h.size.trans_lt h.size_lt, h.size⟩
    · rw [hgridOk]
      rfl
    · rw [hpayload]
      rfl
    · have hn' := hfront.n_le
      rw [← h.accepted.rest.global] at hn'
      simp only [ensure_eq_ok, Bool.and_eq_true, decide_eq_true_eq, isOk_iff, Bool.not_eq_true',
        List.isEmpty_eq_false_iff]
      exact ⟨⟨⟨⟨h.accepted.global_ne, hn'⟩, hgridOk⟩, hpayload⟩, h.accepted.permutation⟩

/-- **The array reader** takes what is right in every part, whatever follows the header. -/
theorem readHeader_eq_ok {reserved : Bool} {alloc : HeaderAllocator} {header : MpiIo.Header} :
    readHeader reserved alloc image = .ok header ↔
      (reserved = true ∧ alloc.Grants) ∧ ∃ fields arrays,
        Accepted (image.take fields.headerLen) fields arrays ∧
        header = assemble (image.take fields.headerLen) fields arrays := by
  unfold readHeader
  constructor
  · intro h
    obtain ⟨_, hsize, h⟩ := bind_eq_ok.mp h
    obtain ⟨fields, hfields, h⟩ := bind_eq_ok.mp h
    obtain ⟨_, hle, h⟩ := bind_eq_ok.mp h
    obtain ⟨_, hreserved, h⟩ := bind_eq_ok.mp h
    have hle := of_decide_eq_true (ensure_eq_ok.mp hle)
    obtain ⟨hgrants, fields', arrays, haccepted, rfl⟩ := decode_eq_ok_iff_accepted.mp h
    have hfront := parsePrefix_eq_ok.mp hfields
    have htake : (image.take fields.headerLen).take headerPrefixBytes
        = image.take headerPrefixBytes := by
      rw [List.take_take, Nat.min_eq_left]
      have := hfront.length
      omega
    obtain rfl : fields' = fields := by
      have hread := haccepted.front.read
      rwa [htake, ← hfront.read] at hread
    exact ⟨⟨ensure_eq_ok.mp hreserved, hgrants⟩, fields', arrays, haccepted, rfl⟩
  · rintro ⟨⟨rfl, hgrants⟩, fields, arrays, haccepted, rfl⟩
    have hfront := haccepted.front
    have hlength := hfront.length
    have hlen := haccepted.length
    rw [List.length_take] at hlen
    have hfileLe : fields.headerLen ≤ image.length := by omega
    have htake : (image.take fields.headerLen).take headerPrefixBytes
        = image.take headerPrefixBytes := by
      rw [List.take_take, Nat.min_eq_left (by omega)]
    rw [htake] at hfront
    refine bind_eq_ok.mpr ⟨(), ?_, bind_eq_ok.mpr ⟨fields, parsePrefix_eq_ok.mpr hfront,
      bind_eq_ok.mpr ⟨(), ensure_eq_ok.mpr (decide_eq_true hfileLe), bind_eq_ok.mpr ⟨(), rfl,
      decode_eq_ok_iff_accepted.mpr ⟨hgrants, fields, arrays, haccepted, rfl⟩⟩⟩⟩⟩
    rw [ensure_eq_ok, decide_eq_true_eq]
    omega

/-! ## Agreement -/

/-- The catalog reports what the header says.  The place of the payload is the end of what is
reported: the prefix, the two shapes and the provenance. -/
structure SameMetadata (header : MpiIo.Header) (info : DatasetInfo) : Prop where
  name : info.name = none
  scalar : header.typeCode = info.scalarType.code ∧ header.width = info.scalarType.width
  global : info.globalShape = header.global
  extra : info.extraShape = header.extra
  provenance : info.provenance = leString 8 (header.writerGrid ++ header.writerPermutation)
  payload : header.payloadOffset = headerPrefixBytes
    + 8 * (info.globalShape.length + info.extraShape.length) + info.provenance.length

theorem sameMetadata {bytes : List Byte} {fields : V1Fields} {arrays : V1Arrays}
    {scalar : ScalarType} (h : Accepted bytes fields arrays)
    (hscalar : fields.typeCode = scalar.code ∧ fields.width = scalar.width) :
    SameMetadata (assemble bytes fields arrays) (reported bytes fields arrays scalar) := by
  have hrest := h.rest.words
  have hstring : bytes.drop headerPrefixBytes
      = leString 8 (arrays.global ++ arrays.extra)
        ++ leString 8 (arrays.writerGrid ++ arrays.writerPermutation) := by
    rw [← leString_append, ← List.append_assoc, ← hrest, leString_leWords h.rest.length]
  have hprovenance : bytes.drop (headerPrefixBytes + (fields.n + fields.extraRank) * 8)
      = leString 8 (arrays.writerGrid ++ arrays.writerPermutation) := by
    rw [← List.drop_drop, hstring]
    refine List.drop_left' ?_
    rw [length_leString, List.length_append, h.rest.global, h.rest.extra, Nat.mul_comm]
  constructor
  case name => rfl
  case scalar => exact hscalar
  case global => rfl
  case extra => rfl
  case provenance => exact hprovenance
  case payload =>
    have hoffset := h.front.offset
    have hlength := h.front.length
    unfold V1Fields.arrayCount at hlength
    simp only [assemble, reported, hprovenance, length_leString, List.length_append, h.rest.global,
      h.rest.extra, h.rest.grid, h.rest.permutation]
    omega

/-- **The two readers agree.**  Where `read_mpi` gets past the header of a file for some view, the
catalog accepts the file with the same metadata; and where the catalog accepts a file, the header
is accepted with the same fields. -/
theorem header_readers_agree (image : List Byte) :
    (∀ (N M : ℕ) (scalar : ScalarType) (view : PencilArrayView scalar.Value N M)
        (place reserved : Bool) (layout : MpiLayout) (alloc : HeaderAllocator)
        (header : MpiIo.Header),
      buildLayout place view.pencil.globalShape view.extraShape.dimensions
        view.pencil.localShapeLogical view.pencil.localRanges view.storage.length scalar.width
          = .ok layout →
      headerForView reserved alloc view image = .ok header →
      ∀ catalog : CatalogAllocator, CatalogAllocator.Grants catalog →
        ∃ info, readMpiCatalog catalog image = .ok [info] ∧ SameMetadata header info) ∧
    (∀ (catalog : CatalogAllocator) (infos : List DatasetInfo),
      readMpiCatalog catalog image = .ok infos →
      ∀ alloc : HeaderAllocator, alloc.Grants →
        ∃ info header, infos = [info] ∧ readHeader true alloc image = .ok header ∧
          SameMetadata header info) := by
  constructor
  · intro N M scalar view place reserved layout alloc header hlayout hheader catalog hcatalog
    unfold headerForView at hheader
    obtain ⟨header', hread, h⟩ := bind_eq_ok.mp hheader
    obtain ⟨_, hmatch, h⟩ := bind_eq_ok.mp h
    obtain ⟨_, hsum, h⟩ := bind_eq_ok.mp h
    obtain ⟨_, hsize, h⟩ := bind_eq_ok.mp h
    cases h
    obtain ⟨hfit, rfl⟩ := checkedAdd_eq_some.mp (okOr_eq_ok.mp hsum)
    have hsize := of_decide_eq_true (ensure_eq_ok.mp hsize)
    obtain ⟨_, fields, arrays, haccepted, rfl⟩ := readHeader_eq_ok.mp hread
    obtain ⟨_, hplace, _⟩ := buildLayout_eq_ok.mp hlayout
    unfold MpiIo.Header.matchesView at hmatch
    obtain ⟨_, htype, hmatch⟩ := bind_eq_ok.mp hmatch
    obtain ⟨_, hextra, hmatch⟩ := bind_eq_ok.mp hmatch
    simp only [ensure_eq_ok, Bool.and_eq_true, decide_eq_true_eq] at htype hextra
    have hranks : fields.n + fields.extraRank ≤ maxProtocolRank := by
      have hrank := hplace.rank_le
      have hn : arrays.global.length = N := htype.1.1
      have hextra : arrays.extra.length = view.extraShape.dimensions.length := hextra.1
      rw [haccepted.rest.global] at hn
      rw [haccepted.rest.extra] at hextra
      omega
    have hscalar : fields.typeCode = scalar.code ∧ fields.width = scalar.width :=
      ⟨htype.1.2, htype.2⟩
    exact ⟨_, readMpiCatalog_eq_ok.mpr ⟨hcatalog, fields, arrays, scalar,
      ⟨haccepted, hranks, hsize, hsize.symm.trans_lt hfit⟩, hscalar, rfl⟩,
      sameMetadata haccepted hscalar⟩
  · intro catalog infos hinfos alloc hgrants
    obtain ⟨_, fields, arrays, scalar, h, hscalar, rfl⟩ := readMpiCatalog_eq_ok.mp hinfos
    exact ⟨_, _, rfl, readHeader_eq_ok.mpr ⟨⟨rfl, hgrants⟩, fields, arrays, h.accepted, rfl⟩,
      sameMetadata h.accepted hscalar⟩

end PencilRs.Analysis
