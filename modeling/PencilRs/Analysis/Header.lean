import PencilRs.Analysis.CheckedFold

/-!
# Header images

The reader accepts exactly the images of valid headers, and the writer leaves the image of its
header in the file.
-/

set_option autoImplicit false

namespace PencilRs.Analysis

open PencilRs.Computation PencilRs.Model PencilRs.Model.MpiIo

variable {alloc : HeaderAllocator} {bytes front rest : List Byte} {fields : V1Fields}

/-! ## The checks of the reader -/

theorem checkIdentity_eq_ok :
    V1Fields.checkIdentity front = .ok () ↔
      front.take 8 = magic ∧ getU64 front 8 = formatVersion ∧
        getU64 front commitOffset = commitMarker := by
  unfold V1Fields.checkIdentity
  rw [bind_eq_ok]
  constructor
  · rintro ⟨_, hmagic, h⟩
    obtain ⟨_, hversion, h⟩ := bind_eq_ok.mp h
    refine ⟨by simpa using hmagic, by simpa using hversion, ?_⟩
    by_contra hne
    rw [if_neg hne] at h
    split at h <;> contradiction
  · rintro ⟨hmagic, hversion, hmarker⟩
    refine ⟨(), by simp [hmagic], bind_eq_ok.mpr ⟨(), by simp [hversion], ?_⟩⟩
    rw [if_pos hmarker]
    rfl

/-- How many numbers the arrays of a header hold. -/
def V1Fields.arrayCount (fields : V1Fields) : ℕ :=
  fields.n + fields.extraRank + fields.gridRank + fields.n

theorem expectedHeaderLen_eq_ok {len : ℕ} :
    fields.expectedHeaderLen = .ok len ↔
      len = headerPrefixBytes + 8 * V1Fields.arrayCount fields ∧ len < usizeLimit := by
  unfold V1Fields.expectedHeaderLen V1Fields.arrayCount
  simp only [bind_eq_ok, okOr_eq_ok, Option.bind_eq_bind, Option.bind_eq_some_iff,
    checkedAdd_eq_some, checkedMul_eq_some]
  constructor
  · rintro ⟨_, ⟨_, ⟨_, rfl⟩, _, ⟨_, rfl⟩, _, rfl⟩, _, ⟨_, rfl⟩, hlt, rfl⟩
    exact ⟨by ring, hlt⟩
  · rintro ⟨rfl, hlt⟩
    refine ⟨_, ⟨_, ⟨by omega, rfl⟩, _, ⟨by omega, rfl⟩, by omega, rfl⟩, _, ⟨by omega, rfl⟩, ?_, ?_⟩
    · omega
    · ring

theorem scalarType_eq_ok {scalar : ScalarType} :
    fields.scalarType = .ok scalar ↔ fields.typeCode = scalar.code ∧ fields.width = scalar.width := by
  unfold V1Fields.scalarType
  rw [okOr_eq_ok, ScalarType.decode_eq_some]

/-- What a prefix that is accepted says. -/
structure PrefixAccepted (front : List Byte) (fields : V1Fields) : Prop where
  read : fields = V1Fields.read front
  magic : front.take 8 = magic
  version : getU64 front 8 = formatVersion
  marker : getU64 front commitOffset = commitMarker
  n_le : fields.n ≤ maxProtocolRank
  extra_le : fields.extraRank ≤ maxProtocolRank
  grid_le : fields.gridRank ≤ fields.n
  length : fields.headerLen = headerPrefixBytes + 8 * V1Fields.arrayCount fields
  length_le : fields.headerLen ≤ maxHeaderBytes
  offset : fields.payloadOffset = fields.headerLen
  scalar : ∃ scalar : ScalarType, fields.typeCode = scalar.code ∧ fields.width = scalar.width

theorem parsePrefix_eq_ok :
    MpiIo.Header.parsePrefix front = .ok fields ↔ PrefixAccepted front fields := by
  unfold MpiIo.Header.parsePrefix
  simp only [bind_eq_ok, mapError_eq_ok, ensure_eq_ok, Bool.and_eq_true, decide_eq_true_eq]
  constructor
  · rintro ⟨_, hidentity, _, ⟨⟨⟨hn, hextra⟩, _⟩, hgrid⟩, len, hlen, _, ⟨hsame, hle⟩, _, hoffset,
      scalar, hscalar, hfields⟩
    cases hfields
    obtain ⟨hmagic, hversion, hmarker⟩ := checkIdentity_eq_ok.mp hidentity
    obtain ⟨rfl, _⟩ := expectedHeaderLen_eq_ok.mp hlen
    refine ⟨rfl, hmagic, hversion, hmarker, hn, hextra, hgrid, hsame, hle, ?_, scalar,
      scalarType_eq_ok.mp hscalar⟩
    unfold V1Fields.checkPayloadOffset at hoffset
    simpa using hoffset
  · rintro ⟨rfl, hmagic, hversion, hmarker, hn, hextra, hgrid, hsame, hle, hoffset, scalar, hscalar⟩
    refine ⟨(), checkIdentity_eq_ok.mpr ⟨hmagic, hversion, hmarker⟩, (),
      ⟨⟨⟨hn, hextra⟩, hgrid.trans hn⟩, hgrid⟩, _, expectedHeaderLen_eq_ok.mpr ⟨hsame, ?_⟩, (),
      ⟨rfl, hle⟩, (), ?_, scalar, scalarType_eq_ok.mpr hscalar, rfl⟩
    · have : maxHeaderBytes < usizeLimit := by decide
      omega
    · unfold V1Fields.checkPayloadOffset
      simpa using hoffset

theorem readValues_eq_ok {reserved : Bool} {offset count stop : ℕ} {values : List ℕ}
    (hfit : offset + 8 * count < usizeLimit) :
    V1Fields.readValues reserved rest offset count = .ok (values, stop) ↔
      reserved = true ∧ stop = offset + 8 * count ∧ stop ≤ rest.length ∧
        values = leWords 8 count (rest.drop offset) := by
  have hmul : checkedMul count 8 = some (count * 8) := by
    rw [checkedMul_eq_some]
    exact ⟨by omega, rfl⟩
  have hadd : checkedAdd offset (count * 8) = some (offset + 8 * count) := by
    rw [checkedAdd_eq_some]
    omega
  unfold V1Fields.readValues
  rw [hmul]
  simp only [okOr_some, bind_eq_ok, hadd, Except.ok.injEq, Option.some.injEq, exists_eq_left',
    okOr_eq_ok]
  by_cases hle : offset + 8 * count ≤ rest.length
  · have hwords : leWords 8 count ((rest.drop offset).take (offset + 8 * count - offset))
        = leWords 8 count (rest.drop offset) := leWords_take (by omega)
    rw [slice?_eq (by omega) hle]
    simp only [Option.some.injEq, exists_eq_left', ensure_eq_ok, pure, Except.pure,
      Except.ok.injEq, Prod.mk.injEq, hwords]
    constructor
    · rintro ⟨_, hreserved, rfl, rfl⟩
      exact ⟨hreserved, rfl, hle, rfl⟩
    · rintro ⟨hreserved, rfl, _, rfl⟩
      exact ⟨(), hreserved, rfl, rfl⟩
  · have hnone : slice? rest offset (offset + 8 * count) = none := by
      unfold slice?
      rw [if_neg (by omega)]
    rw [hnone]
    constructor
    · rintro ⟨_, hslice, _⟩
      contradiction
    · rintro ⟨_, rfl, hlt, _⟩
      exact absurd hlt hle

/-- The arrays are the numbers after the prefix, one array after another. -/
structure ArraysRead (rest : List Byte) (fields : V1Fields) (arrays : V1Arrays) : Prop where
  length : rest.length = 8 * V1Fields.arrayCount fields
  global : arrays.global.length = fields.n
  extra : arrays.extra.length = fields.extraRank
  grid : arrays.writerGrid.length = fields.gridRank
  permutation : arrays.writerPermutation.length = fields.n
  words : leWords 8 (V1Fields.arrayCount fields) rest
    = arrays.global ++ arrays.extra ++ arrays.writerGrid ++ arrays.writerPermutation

theorem readArrays_eq_ok {arrays : V1Arrays}
    (hfit : 8 * V1Fields.arrayCount fields < usizeLimit) :
    fields.readArrays alloc rest = .ok arrays ↔
      (alloc.global = true ∧ alloc.extra = true ∧ alloc.grid = true ∧ alloc.permutation = true) ∧
        ArraysRead rest fields arrays := by
  unfold V1Fields.arrayCount at hfit
  have hsplit : leWords 8 (fields.n + fields.extraRank + fields.gridRank + fields.n) rest
      = leWords 8 fields.n rest ++ leWords 8 fields.extraRank (rest.drop (8 * fields.n))
        ++ leWords 8 fields.gridRank (rest.drop (8 * (fields.n + fields.extraRank)))
        ++ leWords 8 fields.n
          (rest.drop (8 * (fields.n + fields.extraRank + fields.gridRank))) := by
    rw [leWords_add, leWords_add, leWords_add]
  have hsecond : 0 + 8 * fields.n = 8 * fields.n := by omega
  have hthird : 0 + 8 * fields.n + 8 * fields.extraRank = 8 * (fields.n + fields.extraRank) := by
    ring
  have hfourth : 0 + 8 * fields.n + 8 * fields.extraRank + 8 * fields.gridRank
      = 8 * (fields.n + fields.extraRank + fields.gridRank) := by
    ring
  unfold V1Fields.readArrays
  constructor
  · intro h
    obtain ⟨⟨global, o₁⟩, hglobal, h⟩ := bind_eq_ok.mp h
    obtain ⟨hg, rfl, hle₁, rfl⟩ := (readValues_eq_ok (by omega)).mp hglobal
    obtain ⟨⟨extra, o₂⟩, hextra, h⟩ := bind_eq_ok.mp h
    obtain ⟨he, rfl, hle₂, rfl⟩ := (readValues_eq_ok (by omega)).mp hextra
    obtain ⟨⟨grid, o₃⟩, hgrid, h⟩ := bind_eq_ok.mp h
    obtain ⟨hw, rfl, hle₃, rfl⟩ := (readValues_eq_ok (by omega)).mp hgrid
    obtain ⟨⟨permutation, o₄⟩, hpermutation, h⟩ := bind_eq_ok.mp h
    obtain ⟨hp, rfl, hle₄, rfl⟩ := (readValues_eq_ok (by omega)).mp hpermutation
    obtain ⟨_, hend, h⟩ := bind_eq_ok.mp h
    cases h
    have hend := of_decide_eq_true (ensure_eq_ok.mp hend)
    refine ⟨⟨hg, he, hw, hp⟩, by unfold V1Fields.arrayCount; omega, by simp, by simp, by simp,
      by simp, ?_⟩
    unfold V1Fields.arrayCount
    rw [hsplit, hfourth, hthird, hsecond, List.drop_zero]
  · rintro ⟨⟨hg, he, hw, hp⟩, hlen, hglobal, hextra, hgrid, hpermutation, hwords⟩
    unfold V1Fields.arrayCount at hlen hwords
    obtain ⟨global, extra, grid, permutation⟩ := arrays
    simp only at hglobal hextra hgrid hpermutation hwords
    rw [hsplit] at hwords
    obtain ⟨hwords, hlast⟩ := List.append_inj' hwords (by simp [hpermutation])
    obtain ⟨hwords, hthird'⟩ := List.append_inj' hwords (by simp [hgrid])
    obtain ⟨hfirst', hsecond'⟩ := List.append_inj' hwords (by simp [hextra])
    have h₁ : V1Fields.readValues alloc.global rest 0 fields.n = .ok (_, _) :=
      (readValues_eq_ok (by omega)).mpr ⟨hg, rfl, by omega, rfl⟩
    have h₂ : V1Fields.readValues alloc.extra rest (0 + 8 * fields.n) fields.extraRank
        = .ok (_, _) :=
      (readValues_eq_ok (by omega)).mpr ⟨he, rfl, by omega, rfl⟩
    have h₃ : V1Fields.readValues alloc.grid rest (0 + 8 * fields.n + 8 * fields.extraRank)
        fields.gridRank = .ok (_, _) :=
      (readValues_eq_ok (by omega)).mpr ⟨hw, rfl, by omega, rfl⟩
    have h₄ : V1Fields.readValues alloc.permutation rest
        (0 + 8 * fields.n + 8 * fields.extraRank + 8 * fields.gridRank) fields.n = .ok (_, _) :=
      (readValues_eq_ok (by omega)).mpr ⟨hp, rfl, by omega, rfl⟩
    refine bind_eq_ok.mpr ⟨_, h₁, bind_eq_ok.mpr ⟨_, h₂, bind_eq_ok.mpr ⟨_, h₃,
      bind_eq_ok.mpr ⟨_, h₄, bind_eq_ok.mpr ⟨(), ?_, ?_⟩⟩⟩⟩⟩
    · rw [ensure_eq_ok, decide_eq_true_eq]
      omega
    · rw [hfourth, hthird, hsecond, List.drop_zero, hfirst', hsecond', hthird', hlast]
      rfl

theorem checkWriterGrid_isOk {arrays : V1Arrays} :
    arrays.checkWriterGrid.isOk = true ↔
      arrays.writerGrid ≠ [] ∧ (∀ extent ∈ arrays.writerGrid, 0 < extent) ∧
        leadingProd arrays.writerGrid < usizeLimit ∧
        arrays.writerGrid.length ≤ arrays.global.length := by
  have hok : arrays.checkWriterGrid.isOk = true ↔ arrays.checkWriterGrid = .ok () := by
    cases arrays.checkWriterGrid <;> simp [Except.isOk, Except.toBool]
  rw [hok]
  unfold V1Arrays.checkWriterGrid validExtents validDimensions
  simp only [bind_eq_ok, ensure_eq_ok, Bool.and_eq_true, Bool.not_eq_true', List.isEmpty_eq_false_iff,
    checkedFold_isSome, List.all_eq_true, decide_eq_true_eq]
  constructor
  · rintro ⟨_, hfit, ⟨⟨hne, _⟩, hpos⟩, hle⟩
    exact ⟨hne, hpos, hfit, hle⟩
  · rintro ⟨hne, hpos, hfit, hle⟩
    exact ⟨(), hfit, ⟨⟨hne, hfit⟩, hpos⟩, hle⟩

theorem checkPayload_eq_ok {arrays : V1Arrays} {width len : ℕ} :
    arrays.checkPayload width len = .ok () ↔
      leadingProd (arrays.global ++ arrays.extra) < usizeLimit ∧
        len = (arrays.global ++ arrays.extra).prod * width ∧ len < usizeLimit := by
  unfold V1Arrays.checkPayload
  simp only [bind_eq_ok, okOr_eq_ok, checkedFold_eq_some, checkedMul_eq_some, ensure_eq_ok,
    decide_eq_true_eq]
  constructor
  · rintro ⟨_, ⟨rfl, hfit⟩, _, ⟨hlt, rfl⟩, rfl⟩
    exact ⟨hfit, rfl, hlt⟩
  · rintro ⟨hfit, rfl, hlt⟩
    exact ⟨_, ⟨rfl, hfit⟩, _, ⟨hlt, rfl⟩, rfl⟩

/-! ## What both readers accept -/

/-- The header that the fixed fields and the arrays of some bytes say. -/
def assemble (bytes : List Byte) (fields : V1Fields) (arrays : V1Arrays) : MpiIo.Header where
  bytes
  n := arrays.global.length
  typeCode := fields.typeCode
  width := fields.width
  extra := arrays.extra
  global := arrays.global
  writerGrid := arrays.writerGrid
  writerPermutation := arrays.writerPermutation
  payloadOffset := fields.payloadOffset
  payloadBytes := fields.payloadBytes

/-- What the bytes of a header say when nothing is wrong with them. -/
structure Accepted (bytes : List Byte) (fields : V1Fields) (arrays : V1Arrays) : Prop where
  front : PrefixAccepted (bytes.take headerPrefixBytes) fields
  length : fields.headerLen = bytes.length
  reserved : getU64 (bytes.take headerPrefixBytes) 88 = 0
  rest : ArraysRead (bytes.drop headerPrefixBytes) fields arrays
  global_ne : arrays.global ≠ []
  grid : arrays.checkWriterGrid.isOk = true
  permutation : isPermutation arrays.writerPermutation fields.n = true
  payload : arrays.checkPayload fields.width fields.payloadBytes = .ok ()

theorem checkReserved_eq_ok :
    V1Fields.checkReserved front = .ok () ↔ getU64 front 88 = 0 := by
  unfold V1Fields.checkReserved
  rw [ensure_eq_ok, decide_eq_true_eq]

theorem PrefixAccepted.arrayCount_lt (h : PrefixAccepted front fields) :
    8 * V1Fields.arrayCount fields < usizeLimit := by
  have hlimit : maxHeaderBytes < usizeLimit := by decide
  have := h.length
  have := h.length_le
  omega

/-- **The reader** accepts what is right in every part. -/
theorem decode_eq_ok_iff_accepted {header : MpiIo.Header} :
    MpiIo.Header.decode alloc bytes = .ok header ↔
      alloc.Grants ∧ ∃ fields arrays, Accepted bytes fields arrays ∧
        header = assemble bytes fields arrays := by
  unfold MpiIo.Header.decode
  constructor
  · intro h
    obtain ⟨_, _, h⟩ := bind_eq_ok.mp h
    obtain ⟨fields, hfields, h⟩ := bind_eq_ok.mp h
    obtain ⟨_, hlen, h⟩ := bind_eq_ok.mp h
    obtain ⟨_, hreserved, h⟩ := bind_eq_ok.mp h
    obtain ⟨arrays, harrays, h⟩ := bind_eq_ok.mp h
    obtain ⟨_, hmetadata, h⟩ := bind_eq_ok.mp h
    obtain ⟨_, hpayload, h⟩ := bind_eq_ok.mp h
    obtain ⟨_, hbytes, h⟩ := bind_eq_ok.mp h
    cases h
    have hfront := parsePrefix_eq_ok.mp hfields
    obtain ⟨⟨hg, he, hw, hp⟩, hread⟩ :=
      (readArrays_eq_ok hfront.arrayCount_lt).mp (mapError_eq_ok.mp harrays)
    rw [ensure_eq_ok, Bool.and_eq_true, Bool.and_eq_true] at hmetadata
    obtain ⟨⟨hdimensions, hgrid⟩, hpermutation⟩ := hmetadata
    refine ⟨⟨hg, he, hw, hp, ensure_eq_ok.mp hbytes⟩, fields, arrays, ?_, rfl⟩
    constructor
    case front => exact hfront
    case length => exact of_decide_eq_true (ensure_eq_ok.mp hlen)
    case reserved => exact checkReserved_eq_ok.mp (mapError_eq_ok.mp hreserved)
    case rest => exact hread
    case global_ne =>
      unfold validDimensions at hdimensions
      rw [Bool.and_eq_true, Bool.not_eq_true', List.isEmpty_eq_false_iff] at hdimensions
      exact hdimensions.1
    case grid => exact hgrid
    case permutation =>
      rw [← hread.global]
      exact hpermutation
    case payload => exact mapError_eq_ok.mp hpayload
  · rintro ⟨⟨hg, he, hw, hp, hb⟩, fields, arrays, h, rfl⟩
    have hlength := h.front.length
    have hle := h.front.length_le
    have hdimensions : validDimensions arrays.global = true := by
      have helements := (checkPayload_eq_ok.mp h.payload).1
      unfold validDimensions
      rw [Bool.and_eq_true, Bool.not_eq_true', List.isEmpty_eq_false_iff, checkedFold_isSome]
      exact ⟨h.global_ne, (leadingProd_le_append _ _).trans_lt helements⟩
    have hpermutation := h.permutation
    rw [← h.rest.global] at hpermutation
    refine bind_eq_ok.mpr ⟨(), ?_, bind_eq_ok.mpr ⟨_, parsePrefix_eq_ok.mpr h.front,
      bind_eq_ok.mpr ⟨(), ensure_eq_ok.mpr (decide_eq_true h.length), bind_eq_ok.mpr ⟨(),
      mapError_eq_ok.mpr (checkReserved_eq_ok.mpr h.reserved), bind_eq_ok.mpr ⟨_,
      mapError_eq_ok.mpr ((readArrays_eq_ok h.front.arrayCount_lt).mpr ⟨⟨hg, he, hw, hp⟩, h.rest⟩),
      bind_eq_ok.mpr ⟨(), ?_, bind_eq_ok.mpr ⟨(), mapError_eq_ok.mpr h.payload,
      bind_eq_ok.mpr ⟨(), ensure_eq_ok.mpr hb, rfl⟩⟩⟩⟩⟩⟩⟩⟩
    · rw [ensure_eq_ok, Bool.and_eq_true, decide_eq_true_eq, decide_eq_true_eq]
      have := h.length
      omega
    · rw [ensure_eq_ok, hdimensions, h.grid, hpermutation]
      rfl

/-! ## Images -/

/-- How long a header is. -/
def headerLenOf (header : MpiIo.Header) : ℕ :=
  headerPrefixBytes
    + 8 * (header.n + header.extra.length + header.writerGrid.length + header.n)

/-- The numbers of the fixed fields of a header. -/
def prefixWords (marker : ℕ) (header : MpiIo.Header) : List ℕ :=
  [formatVersion, headerLenOf header, marker, header.n, header.typeCode, header.width,
    header.extra.length, header.payloadOffset, header.payloadBytes, header.writerGrid.length, 0]

/-- The numbers of its arrays. -/
def arrayWords (header : MpiIo.Header) : List ℕ :=
  header.global ++ header.extra ++ header.writerGrid ++ header.writerPermutation

/-- The bytes of a header under a marker. -/
def headerImage (marker : ℕ) (header : MpiIo.Header) : List Byte :=
  magic ++ leString 8 (prefixWords marker header ++ arrayWords header)

/-- What the reader asks of a header. -/
structure ValidHeader (header : MpiIo.Header) : Prop where
  global_length : header.global.length = header.n
  permutation_length : header.writerPermutation.length = header.n
  n_pos : 0 < header.n
  n_le : header.n ≤ maxProtocolRank
  extra_le : header.extra.length ≤ maxProtocolRank
  grid_ne : header.writerGrid ≠ []
  grid_le : header.writerGrid.length ≤ header.n
  grid_pos : ∀ extent ∈ header.writerGrid, 0 < extent
  grid_fits : leadingProd header.writerGrid < usizeLimit
  permutation : isPermutation header.writerPermutation header.n = true
  scalar : ∃ scalar : ScalarType, header.typeCode = scalar.code ∧ header.width = scalar.width
  length_le : headerLenOf header ≤ maxHeaderBytes
  offset : header.payloadOffset = headerLenOf header
  words : ∀ word ∈ arrayWords header, word < usizeLimit
  elements : leadingProd (header.global ++ header.extra) < usizeLimit
  payload : header.payloadBytes = (header.global ++ header.extra).prod * header.width
  payload_lt : header.payloadBytes < usizeLimit

theorem length_arrayWords {header : MpiIo.Header} (h : ValidHeader header) :
    (arrayWords header).length
      = header.n + header.extra.length + header.writerGrid.length + header.n := by
  unfold arrayWords
  simp only [List.length_append, h.global_length, h.permutation_length]

theorem length_headerImage {header : MpiIo.Header} (h : ValidHeader header) (marker : ℕ) :
    (headerImage marker header).length = headerLenOf header := by
  unfold headerImage headerLenOf headerPrefixBytes
  rw [List.length_append, length_leString, List.length_append, length_arrayWords h]
  simp only [magic, prefixWords, List.length_cons, List.length_nil]
  ring

/-- A field of a prefix is a number of the string after the magic bytes. -/
theorem getU64_word {count i : ℕ} (h : 8 * (i + 2) ≤ count) :
    getU64 (bytes.take count) (8 * (i + 1))
      = leValue (((bytes.drop 8).drop (8 * i)).take 8) := by
  unfold getU64
  rw [List.drop_take, List.take_take, Nat.min_eq_left (by omega), List.drop_drop,
    show 8 + 8 * i = 8 * (i + 1) by ring]

/-- The fixed fields of a header, read one by one. -/
theorem prefix_leWords (bytes : List Byte) :
    leWords 8 11 (bytes.drop 8)
      = [getU64 (bytes.take headerPrefixBytes) 8, getU64 (bytes.take headerPrefixBytes) 16,
        getU64 (bytes.take headerPrefixBytes) 24, getU64 (bytes.take headerPrefixBytes) 32,
        getU64 (bytes.take headerPrefixBytes) 40, getU64 (bytes.take headerPrefixBytes) 48,
        getU64 (bytes.take headerPrefixBytes) 56, getU64 (bytes.take headerPrefixBytes) 64,
        getU64 (bytes.take headerPrefixBytes) 72, getU64 (bytes.take headerPrefixBytes) 80,
        getU64 (bytes.take headerPrefixBytes) 88] := by
  have hget := fun i (hi : i < 11) =>
    @getU64_word bytes headerPrefixBytes i (by unfold headerPrefixBytes; omega)
  apply List.ext_getElem?
  intro i
  by_cases hi : i < 11
  · rw [getElem?_leWords _ hi, ← hget i hi]
    interval_cases i <;> rfl
  · rw [List.getElem?_eq_none (by simp; omega), List.getElem?_eq_none (by simp; omega)]

/-- The bytes are the image of a header where its numbers are those the bytes hold. -/
theorem eq_headerImage_iff {header : MpiIo.Header} (hheader : ValidHeader header) {marker : ℕ}
    (hmarker : marker < 256 ^ 8) :
    bytes = headerImage marker header ↔
      bytes.length = headerLenOf header ∧ bytes.take 8 = magic ∧
        leWords 8 11 (bytes.drop 8) = prefixWords marker header ∧
        leWords 8 (arrayWords header).length (bytes.drop headerPrefixBytes)
          = arrayWords header := by
  have hwords : ∀ word ∈ prefixWords marker header ++ arrayWords header, word < 256 ^ 8 := by
    have hlimit : usizeLimit = 256 ^ 8 := rfl
    have hmax : maxHeaderBytes < 256 ^ 8 := by decide
    have hrank : maxProtocolRank < 256 ^ 8 := by decide
    have := hheader.n_le
    have := hheader.extra_le
    have := hheader.grid_le
    have := hheader.length_le
    have := hheader.offset
    have := hheader.payload_lt
    obtain ⟨scalar, hcode, hwidth⟩ := hheader.scalar
    have hscalar : scalar.code < 256 ∧ scalar.width < 256 := by cases scalar <;> decide
    intro word hword
    cases List.mem_append.mp hword with
    | inl hword =>
      unfold prefixWords formatVersion at hword
      simp only [List.mem_cons, List.not_mem_nil, or_false] at hword
      obtain rfl | rfl | rfl | rfl | rfl | rfl | rfl | rfl | rfl | rfl | rfl := hword <;> omega
    | inr hword => exact hheader.words word hword
  have hdrop : (bytes.drop 8).drop (8 * 11) = bytes.drop headerPrefixBytes := by
    rw [List.drop_drop]
    rfl
  constructor
  · intro h
    have htail : bytes.drop 8 = leString 8 (prefixWords marker header ++ arrayWords header) := by
      rw [h]
      rfl
    have hall := leWords_leString hwords []
    rw [List.append_nil, ← htail, List.length_append, leWords_add] at hall
    obtain ⟨hfields, harrays⟩ := List.append_inj hall (by simp)
    refine ⟨?_, ?_, hfields, ?_⟩
    · rw [h, length_headerImage hheader]
    · rw [h]
      rfl
    · rw [← hdrop]
      exact harrays
  · rintro ⟨hlen, hmagic, hfields, harrays⟩
    have htail : bytes.drop 8 = leString 8 (prefixWords marker header ++ arrayWords header) := by
      have hcount : (bytes.drop 8).length = 8 * (11 + (arrayWords header).length) := by
        rw [List.length_drop, hlen, length_arrayWords hheader]
        unfold headerLenOf headerPrefixBytes
        omega
      rw [← leString_leWords hcount, leWords_add, hfields, hdrop, harrays]
    rw [← List.take_append_drop 8 bytes, hmagic, htail]
    rfl

/-- **What is accepted** is the committed image of a valid header. -/
theorem Accepted.image {arrays : V1Arrays} (h : Accepted bytes fields arrays) :
    ValidHeader (assemble bytes fields arrays) ∧
      bytes = headerImage commitMarker (assemble bytes fields arrays) := by
  have hmarker : commitMarker < 256 ^ 8 := by decide
  have hlength := h.front.length
  have hread := h.front.read
  have hlen : headerLenOf (assemble bytes fields arrays) = fields.headerLen := by
    unfold V1Fields.arrayCount at hlength
    simp only [headerLenOf, assemble, h.rest.global, h.rest.extra, h.rest.grid]
    exact hlength.symm
  obtain ⟨hne, hpos, hgridFits, hgridLe⟩ := checkWriterGrid_isOk.mp h.grid
  obtain ⟨helements, hpayloadBytes, hpayloadLt⟩ := checkPayload_eq_ok.mp h.payload
  have hheader : ValidHeader (assemble bytes fields arrays) := by
    constructor
    case global_length => rfl
    case permutation_length => exact h.rest.permutation.trans h.rest.global.symm
    case n_pos => exact List.length_pos_iff.mpr h.global_ne
    case n_le => exact h.rest.global.trans_le h.front.n_le
    case extra_le => exact h.rest.extra.trans_le h.front.extra_le
    case grid_ne => exact hne
    case grid_le => exact hgridLe
    case grid_pos => exact hpos
    case grid_fits => exact hgridFits
    case permutation =>
      have := h.permutation
      rw [← h.rest.global] at this
      exact this
    case scalar => exact h.front.scalar
    case length_le => exact hlen.trans_le h.front.length_le
    case offset => exact h.front.offset.trans hlen.symm
    case words =>
      intro word hword
      have hwords := h.rest.words
      unfold arrayWords at hword
      simp only [assemble, ← hwords] at hword
      exact leWords_lt word hword
    case elements => exact helements
    case payload => exact hpayloadBytes
    case payload_lt => exact hpayloadLt
  refine ⟨hheader, (eq_headerImage_iff hheader hmarker).mpr ⟨?_, ?_, ?_, ?_⟩⟩
  · exact h.length.symm.trans hlen.symm
  · have := h.front.magic
    rwa [List.take_take, Nat.min_eq_left (by decide)] at this
  · have hheaderLen : getU64 (bytes.take headerPrefixBytes) 16 = fields.headerLen := by
      rw [hread]
      rfl
    rw [prefix_leWords, h.front.version, show (24 : ℕ) = commitOffset from rfl, h.front.marker,
      h.reserved, hheaderLen, ← hlen]
    simp only [prefixWords, assemble, h.rest.global, h.rest.extra, h.rest.grid]
    rw [hread]
    rfl
  · rw [length_arrayWords hheader]
    have hcount : (assemble bytes fields arrays).n + (assemble bytes fields arrays).extra.length
        + (assemble bytes fields arrays).writerGrid.length + (assemble bytes fields arrays).n
          = V1Fields.arrayCount fields := by
      unfold V1Fields.arrayCount
      simp only [assemble, h.rest.global, h.rest.extra, h.rest.grid]
    rw [hcount]
    exact h.rest.words

/-- The fixed fields of a header. -/
def fieldsOf (header : MpiIo.Header) : V1Fields where
  headerLen := headerLenOf header
  n := header.n
  extraRank := header.extra.length
  gridRank := header.writerGrid.length
  typeCode := header.typeCode
  width := header.width
  payloadOffset := header.payloadOffset
  payloadBytes := header.payloadBytes

/-- The arrays of a header. -/
def arraysOf (header : MpiIo.Header) : V1Arrays where
  global := header.global
  extra := header.extra
  writerGrid := header.writerGrid
  writerPermutation := header.writerPermutation

theorem assemble_of {header : MpiIo.Header} (h : ValidHeader header) :
    assemble bytes (fieldsOf header) (arraysOf header) = { header with bytes } := by
  unfold assemble fieldsOf arraysOf
  rw [h.global_length]

/-- **Every committed image** of a valid header is accepted. -/
theorem ValidHeader.accepted {header : MpiIo.Header} (h : ValidHeader header) :
    Accepted (headerImage commitMarker header) (fieldsOf header) (arraysOf header) := by
  have hmarker : commitMarker < 256 ^ 8 := by decide
  obtain ⟨hlen, hmagic, hprefix, harrays⟩ := (eq_headerImage_iff h hmarker).mp rfl
  rw [prefix_leWords] at hprefix
  unfold prefixWords at hprefix
  simp only [List.cons.injEq, and_true] at hprefix
  obtain ⟨hversion, hheaderLen, hcommit, hn, hcode, hwidth, hextra, hoffset, hpayload, hgrid,
    hreserved⟩ := hprefix
  have hfields : V1Fields.read ((headerImage commitMarker header).take headerPrefixBytes)
      = fieldsOf header := by
    unfold V1Fields.read fieldsOf
    rw [hheaderLen, hn, hcode, hwidth, hextra, hoffset, hpayload, hgrid]
  have hcount : V1Fields.arrayCount (fieldsOf header) = (arrayWords header).length := by
    rw [length_arrayWords h]
    rfl
  constructor
  case front =>
    refine ⟨hfields.symm, ?_, hversion, hcommit, h.n_le, h.extra_le, h.grid_le, rfl, h.length_le,
      h.offset, h.scalar⟩
    rw [List.take_take, Nat.min_eq_left (by decide)]
    exact hmagic
  case length => exact hlen.symm
  case reserved => exact hreserved
  case rest =>
    refine ⟨?_, h.global_length, rfl, rfl, h.permutation_length, ?_⟩
    · rw [List.length_drop, hlen]
      show headerLenOf header - headerPrefixBytes
        = 8 * (header.n + header.extra.length + header.writerGrid.length + header.n)
      unfold headerLenOf
      omega
    · rw [hcount, harrays]
      rfl
  case global_ne =>
    have hpos := h.n_pos
    rw [← h.global_length] at hpos
    exact List.length_pos_iff.mp hpos
  case grid =>
    refine checkWriterGrid_isOk.mpr ⟨h.grid_ne, h.grid_pos, h.grid_fits, ?_⟩
    exact h.grid_le.trans_eq h.global_length.symm
  case permutation => exact h.permutation
  case payload => exact checkPayload_eq_ok.mpr ⟨h.elements, h.payload, h.payload_lt⟩

/-- **The reader accepts** exactly the committed images of valid headers. -/
theorem decode_eq_ok {header : MpiIo.Header} :
    MpiIo.Header.decode alloc bytes = .ok header ↔
      alloc.Grants ∧ header.bytes = bytes ∧ ValidHeader header ∧
        bytes = headerImage commitMarker header := by
  rw [decode_eq_ok_iff_accepted]
  constructor
  · rintro ⟨hgrants, fields, arrays, h, rfl⟩
    exact ⟨hgrants, rfl, h.image⟩
  · rintro ⟨hgrants, rfl, hheader, himage⟩
    refine ⟨hgrants, fieldsOf header, arraysOf header, ?_, (assemble_of hheader).symm⟩
    rw [himage]
    exact hheader.accepted

end PencilRs.Analysis
