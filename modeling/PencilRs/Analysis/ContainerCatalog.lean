import PencilRs.Analysis.Container

/-!
# The catalog of a scan

The encoder writes the fields of the records one after another.  The decoder finds them again at
the place where the encoder left off, and its checks are what the scan has made sure of.
-/

set_option autoImplicit false

namespace PencilRs.Analysis

open PencilRs.Computation PencilRs.Model NamedMpi Update

/-! ## Encoding -/

theorem length_encodeRecord (record : Rec) :
    (encodeRecord record).length
      = 48 + record.name.length + 8 * (recordDims record).length := by
  unfold encodeRecord recordDims
  simp only [List.length_append, length_leString, List.length_cons, List.length_nil]

/-- A record takes fewer bytes in the catalog than in the file. -/
theorem RecordAt.encode_le {size start stop : ℕ} {record : Rec}
    (h : RecordAt size start stop record) : start + (encodeRecord record).length ≤ stop := by
  obtain ⟨elements, _, _, hstop⟩ := h.payload
  have hoffset := h.offset
  rw [length_encodeRecord]
  unfold recordHeaderBytes at hoffset
  omega

theorem Chained.encode_le {size start tail : ℕ} {records : List Rec}
    (h : Chained size start records tail) :
    start + (records.flatMap encodeRecord).length ≤ tail := by
  induction records generalizing start with
  | nil => exact h.le
  | cons record rest ih =>
    obtain ⟨stop, hrecord, hrest⟩ := h
    have hfirst := hrecord.encode_le
    have := ih hrest
    rw [List.flatMap_cons, List.length_append]
    omega

/-- The lengths the encoder adds up. -/
theorem catalogLen_ok {size tail : ℕ} {records : List Rec} {start : ℕ} (htail : tail ≤ i64Max)
    (h : Chained size start records tail) {sum : ℕ} (hsum : sum ≤ start) :
    records.foldlM (fun catalogLen record => do
      let rank ← okOr (checkedAdd record.global.length record.extra.length)
        (Stop.error ScanStatus.catalogBytes)
      let fields ← okOr (do
        let x ← checkedAdd 48 record.name.length
        let dims ← checkedMul rank 8
        checkedAdd x dims) (.error .catalogBytes)
      okOr (checkedAdd catalogLen fields) (.error .catalogBytes)) sum
      = .ok (sum + (records.flatMap encodeRecord).length) := by
  induction records generalizing start sum with
  | nil => rfl
  | cons record rest ih =>
    have hall := h.encode_le
    obtain ⟨stop, hrecord, hrest⟩ := h
    have hfirst := hrecord.encode_le
    have hrestLe := hrest.encode_le
    have hlimit : i64Max < usizeLimit := by decide
    rw [length_encodeRecord] at hfirst
    unfold recordDims at hfirst
    rw [List.length_append] at hfirst
    rw [List.foldlM_cons]
    apply bind_eq_ok.mpr
    refine ⟨sum + (encodeRecord record).length, ?_, ?_⟩
    · rw [length_encodeRecord, recordDims, List.length_append]
      refine bind_eq_ok.mpr ⟨_, okOr_eq_ok.mpr (checkedAdd_eq_some.mpr ⟨by omega, rfl⟩),
        bind_eq_ok.mpr ⟨_, okOr_eq_ok.mpr (Option.bind_eq_some_iff.mpr ⟨_,
          checkedAdd_eq_some.mpr ⟨by omega, rfl⟩, Option.bind_eq_some_iff.mpr ⟨_,
          checkedMul_eq_some.mpr ⟨by omega, rfl⟩, checkedAdd_eq_some.mpr ⟨by omega, rfl⟩⟩⟩), ?_⟩⟩
      exact okOr_eq_ok.mpr (checkedAdd_eq_some.mpr ⟨by omega, by omega⟩)
    · rw [List.flatMap_cons, List.length_append, ← Nat.add_assoc]
      apply ih hrest
      rw [length_encodeRecord, recordDims, List.length_append]
      omega

/-- **Encoding** the records of a scan does not fail but for its allocation. -/
theorem encodeCatalog_ok {size tail : ℕ} {records : List Rec} (htail : tail ≤ i64Max)
    (h : Chained size containerBytes records tail) :
    encodeCatalog true records = .ok (records.flatMap encodeRecord) := by
  unfold encodeCatalog
  rw [catalogLen_ok htail h (Nat.zero_le _), Nat.zero_add]
  refine bind_eq_ok.mpr ⟨_, rfl, bind_eq_ok.mpr ⟨_, rfl, bind_eq_ok.mpr ⟨(), ?_, rfl⟩⟩⟩
  exact ensure_eq_ok.mpr (decide_eq_true rfl)

/-! ## Decoding what was encoded -/

section Decode

variable {bytes : List Byte} (hbytes : bytes.length ≤ i64Max)

theorem drop_append_length {bytes front rest : List Byte} {offset : ℕ}
    (h : bytes.drop offset = front ++ rest) :
    bytes.drop (offset + front.length) = rest := by
  rw [← List.drop_drop, h]
  exact List.drop_left

theorem offset_add_length_le {bytes front rest : List Byte} {offset : ℕ}
    (h : bytes.drop offset = front ++ rest) (hpos : 0 < front.length) :
    offset + front.length ≤ bytes.length := by
  have hlen := congrArg List.length h
  rw [List.length_drop, List.length_append] at hlen
  omega

include hbytes

/-- The decoder reads a word where it was written. -/
theorem catalogWord_at {offset word : ℕ} {rest : List Byte} (hword : word < usizeLimit)
    (h : bytes.drop offset = leBytes 8 word ++ rest) :
    catalogWord bytes offset = .ok (word, offset + 8) ∧ bytes.drop (offset + 8) = rest := by
  have hlen : offset + 8 ≤ bytes.length := by
    have := offset_add_length_le h (by simp)
    rwa [length_leBytes] at this
  have hfits : offset + 8 < usizeLimit := by
    unfold i64Max at hbytes
    unfold usizeLimit
    omega
  have htake : (bytes.drop offset).take 8 = leBytes 8 word := by
    rw [h]
    exact List.take_left' (length_leBytes 8 word)
  have hdrop := drop_append_length h
  rw [length_leBytes] at hdrop
  refine ⟨?_, hdrop⟩
  unfold catalogWord
  rw [u64At_eq hfits, if_pos hlen, htake, leValue_leBytes_of_lt hword]
  exact bind_eq_ok.mpr ⟨_, rfl, bind_eq_ok.mpr ⟨_, rfl, bind_eq_ok.mpr ⟨_,
    okOr_eq_ok.mpr (checkedAdd_eq_some.mpr ⟨hfits, rfl⟩), rfl⟩⟩⟩

/-- The decoder takes a slice where it was written. -/
theorem catalogSlice_at {offset : ℕ} {slice rest : List Byte} (hpos : 0 < slice.length)
    (h : bytes.drop offset = slice ++ rest) :
    catalogSlice bytes offset slice.length = .ok (slice, offset + slice.length) ∧
      bytes.drop (offset + slice.length) = rest := by
  have hlen := offset_add_length_le h hpos
  have hfits : offset + slice.length < usizeLimit := by
    unfold i64Max at hbytes
    unfold usizeLimit
    omega
  have hslice : slice? bytes offset (offset + slice.length) = some slice := by
    rw [slice?_eq (Nat.le_add_right _ _) hlen, Nat.add_sub_cancel_left, h]
    exact congrArg some List.take_left
  refine ⟨?_, drop_append_length h⟩
  unfold catalogSlice
  exact bind_eq_ok.mpr ⟨_, okOr_eq_ok.mpr (checkedAdd_eq_some.mpr ⟨hfits, rfl⟩),
    bind_eq_ok.mpr ⟨_, okOr_eq_ok.mpr hslice, rfl⟩⟩

/-- The decoder reads the dimensions where they were written. -/
theorem decodeDims_at {offset elements : ℕ} {dims : List ℕ} {rest : List Byte}
    (hdims : ∀ d ∈ dims, d < usizeLimit)
    (helements : dims.foldlM checkedMul 1 = some elements)
    (h : bytes.drop offset = leString 8 dims ++ rest) :
    decodeDims bytes dims.length offset = .ok (dims, elements, offset + 8 * dims.length) ∧
      bytes.drop (offset + 8 * dims.length) = rest := by
  have hloop : ∃ q, decodeDims bytes dims.length offset = .ok q ∧
      (q.1 = dims.take dims.length ∧ (dims.take dims.length).foldlM checkedMul 1 = some q.2.1 ∧
        q.2.2 = offset + 8 * dims.length ∧
        bytes.drop q.2.2 = leString 8 (dims.drop dims.length) ++ rest) := by
    apply foldlM_range_inv (m := Except (Stop Unit)) _ fun k (q : List ℕ × ℕ × ℕ) =>
      q.1 = dims.take k ∧ (dims.take k).foldlM checkedMul 1 = some q.2.1 ∧
        q.2.2 = offset + 8 * k ∧ bytes.drop q.2.2 = leString 8 (dims.drop k) ++ rest
    · exact ⟨rfl, rfl, rfl, h⟩
    · rintro k hk ⟨taken, product, at'⟩ ⟨rfl, hproduct, rfl, hdrop⟩
      simp only at hproduct
      rw [List.drop_eq_getElem_cons hk, leString_cons, List.append_assoc] at hdrop
      obtain ⟨hword, hnext⟩ := catalogWord_at hbytes (hdims _ (List.getElem_mem hk)) hdrop
      have htake : dims.take (k + 1) = dims.take k ++ [dims[k]] := by
        rw [List.take_add_one, List.getElem?_eq_getElem hk]
        rfl
      have hmul : ∃ next, checkedMul product dims[k] = some next := by
        have hsplit : dims = dims.take (k + 1) ++ dims.drop (k + 1) :=
          (List.take_append_drop _ _).symm
        rw [hsplit, htake, List.append_assoc, List.foldlM_append, hproduct] at helements
        simp only [Option.bind_eq_bind, Option.bind_some, List.singleton_append,
          List.foldlM_cons] at helements
        obtain ⟨next, hnext, _⟩ := Option.bind_eq_some_iff.mp helements
        exact ⟨next, hnext⟩
      obtain ⟨next, hmul⟩ := hmul
      refine ⟨(dims.take (k + 1), next, offset + 8 * (k + 1)), ?_, rfl, ?_, rfl, ?_⟩
      · rw [htake]
        exact bind_eq_ok.mpr ⟨_, hword, bind_eq_ok.mpr ⟨_, okOr_eq_ok.mpr hmul, rfl⟩⟩
      · rw [htake, List.foldlM_append, hproduct]
        show (checkedMul product dims[k] >>= fun x => pure x) = _
        rw [hmul]
        rfl
      · exact hnext
  obtain ⟨⟨q, product, at'⟩, hrun, hq, hproduct, hat, hdrop⟩ := hloop
  simp only at hq hproduct hat hdrop
  rw [List.take_length] at hq hproduct
  rw [helements] at hproduct
  subst hq hat
  cases hproduct
  rw [List.drop_length] at hdrop
  exact ⟨hrun, hdrop⟩

/-- **A record** is decoded where it was encoded. -/
theorem decodeRecord_at {size start stop offset : ℕ} {record : Rec} {rest : List Byte}
    (hrecord : RecordAt size start stop record)
    (h : bytes.drop offset = encodeRecord record ++ rest) :
    decodeRecord ⟨true, true, true⟩ bytes size offset start
        = .ok (record, offset + (encodeRecord record).length, stop) ∧
      bytes.drop (offset + (encodeRecord record).length) = rest := by
  obtain ⟨elements, helements, hfits, hstop⟩ := hrecord.payload
  have hoffset := hrecord.offset
  have hlimit : i64Max < usizeLimit := by decide
  have hstop64 := hrecord.stop_le_i64
  have hnameLe := hrecord.name_le
  have hrankLe := hrecord.rank_le
  have hrank : record.global.length + record.extra.length = (recordDims record).length :=
    List.length_append.symm
  obtain ⟨scalar, hscalar⟩ := Option.isSome_iff_exists.mp hrecord.scalar
  have hcodes : record.typ < usizeLimit ∧ record.width < usizeLimit := by
    obtain ⟨htyp, hwidth⟩ := ScalarType.decode_eq_some.mp hscalar
    rw [htyp, hwidth]
    cases scalar <;> decide
  have hrest := drop_append_length h
  unfold encodeRecord at h
  simp only [leString_cons, leString_nil, List.append_nil, List.append_assoc] at h
  unfold maxName at hnameLe
  unfold maxProtocolRank at hrankLe
  have hsmall : 1024 < usizeLimit := by decide
  obtain ⟨hnameLen, h⟩ := catalogWord_at hbytes (by omega) h
  obtain ⟨htyp, h⟩ := catalogWord_at hbytes hcodes.1 h
  obtain ⟨hwidth, h⟩ := catalogWord_at hbytes hcodes.2 h
  obtain ⟨hglobal, h⟩ := catalogWord_at hbytes (by omega) h
  obtain ⟨hextra, h⟩ := catalogWord_at hbytes (by omega) h
  obtain ⟨hpayload, h⟩ := catalogWord_at hbytes (by omega) h
  obtain ⟨hname, h⟩ := catalogSlice_at hbytes hrecord.name_pos h
  obtain ⟨hdims, _⟩ := decodeDims_at hbytes hrecord.dims_lt helements h
  have hheader : recordHeaderBytes + record.name.length + (16 + (recordDims record).length * 8)
      = record.payloadOffset - start := by omega
  have hmetadataLen : (do checkedAdd 16 (← checkedMul (recordDims record).length 8))
      = some (16 + (recordDims record).length * 8) :=
    Option.bind_eq_some_iff.mpr ⟨_, checkedMul_eq_some.mpr ⟨by omega, rfl⟩,
      checkedAdd_eq_some.mpr ⟨by omega, rfl⟩⟩
  have hheaderLen : (do
      let x ← checkedAdd recordHeaderBytes record.name.length
      checkedAdd x (16 + (recordDims record).length * 8))
        = some (record.payloadOffset - start) :=
    Option.bind_eq_some_iff.mpr ⟨_, checkedAdd_eq_some.mpr ⟨by omega, rfl⟩,
      checkedAdd_eq_some.mpr ⟨by omega, hheader⟩⟩
  have hbefore : checkedSub record.payloadOffset (record.payloadOffset - start) = some start :=
    checkedSub_eq_some.mpr ⟨by omega, by omega⟩
  have hend : (do checkedAdd (← checkedAdd record.payloadOffset (elements * record.width)) 8)
      = some stop :=
    Option.bind_eq_some_iff.mpr ⟨_, checkedAdd_eq_some.mpr ⟨by omega, rfl⟩,
      checkedAdd_eq_some.mpr ⟨by omega, by omega⟩⟩
  have hnameOk : (record.name.length ≠ 0 && record.name.length ≤ maxName : Bool) = true := by
    unfold maxName
    simp only [Bool.and_eq_true, decide_eq_true_eq]
    have := hrecord.name_pos
    omega
  have hranksOk : (record.global.length ≠ 0 && record.global.length ≤ maxProtocolRank
      && record.extra.length ≤ maxProtocolRank : Bool) = true := by
    unfold maxProtocolRank
    simp only [Bool.and_eq_true, decide_eq_true_eq]
    have := hrecord.global_pos
    omega
  have htextOk : (isUtf8 record.name && !record.name.contains 0) = true := by
    rw [hrecord.name_utf8, hrecord.name_zero]
    rfl
  have hstopOk : (stop ≤ size && stop ≤ i64Max : Bool) = true := by
    simp only [Bool.and_eq_true, decide_eq_true_eq]
    exact ⟨hrecord.stop_le, hrecord.stop_le_i64⟩
  have hlength : offset + 8 + 8 + 8 + 8 + 8 + 8 + record.name.length
      + 8 * (recordDims record).length = offset + (encodeRecord record).length := by
    rw [length_encodeRecord]
    omega
  refine ⟨?_, hrest⟩
  unfold decodeRecord
  refine bind_eq_ok.mpr ⟨_, hnameLen, bind_eq_ok.mpr ⟨(), ensure_eq_ok.mpr hnameOk,
    bind_eq_ok.mpr ⟨_, htyp, bind_eq_ok.mpr ⟨_, hwidth, bind_eq_ok.mpr ⟨_, hglobal,
    bind_eq_ok.mpr ⟨_, hextra, bind_eq_ok.mpr ⟨_, hpayload,
    bind_eq_ok.mpr ⟨(), ensure_eq_ok.mpr hranksOk, bind_eq_ok.mpr ⟨_,
    okOr_eq_ok.mpr (checkedAdd_eq_some.mpr ⟨by omega, hrank⟩), bind_eq_ok.mpr ⟨(),
    ensure_eq_ok.mpr (decide_eq_true hrecord.rank_le), bind_eq_ok.mpr ⟨_, hname,
    bind_eq_ok.mpr ⟨(), ensure_eq_ok.mpr htextOk, bind_eq_ok.mpr ⟨_, okOr_eq_ok.mpr hmetadataLen,
    bind_eq_ok.mpr ⟨_, okOr_eq_ok.mpr hheaderLen, bind_eq_ok.mpr ⟨_, okOr_eq_ok.mpr hbefore,
    bind_eq_ok.mpr ⟨(), ensure_eq_ok.mpr (decide_eq_true rfl), bind_eq_ok.mpr ⟨(), rfl,
    bind_eq_ok.mpr ⟨(), rfl, bind_eq_ok.mpr ⟨_, hdims, bind_eq_ok.mpr ⟨_,
    okOr_eq_ok.mpr (checkedMul_eq_some.mpr ⟨hfits, rfl⟩), bind_eq_ok.mpr ⟨_,
    okOr_eq_ok.mpr hend, bind_eq_ok.mpr ⟨(), ensure_eq_ok.mpr hstopOk, bind_eq_ok.mpr ⟨_,
    okOr_eq_ok.mpr hscalar, bind_eq_ok.mpr ⟨(), rfl, ?_⟩⟩⟩⟩⟩⟩⟩⟩⟩⟩⟩⟩⟩⟩⟩⟩⟩⟩⟩⟩⟩⟩⟩⟩
  have hspatial : (recordDims record).take record.global.length = record.global := List.take_left
  have hextraDims : (recordDims record).drop record.global.length = record.extra := List.drop_left
  simp only
  rw [hspatial, hextraDims, hlength]
  rfl

end Decode

/-- The allocator of the decoder refuses nothing. -/
def grantEntries : ℕ → EntryAllocator := fun _ => ⟨true, true, true⟩

/-- **The round trip** of a catalog. -/
theorem decodeCatalog_encode {size tail : ℕ} {records : List Rec} (htail : tail ≤ i64Max)
    (h : Chained size containerBytes records tail) :
    decodeCatalog true grantEntries (records.flatMap encodeRecord) records.length tail size
      = .ok records := by
  have hbytes : (records.flatMap encodeRecord).length ≤ i64Max := by
    have := h.encode_le
    omega
  have hloop : ∃ q : List Rec × ℕ × ℕ,
      (List.range records.length).foldlM (fun (q : List Rec × ℕ × ℕ) i => do
        let found ←
          decodeRecord (grantEntries i) (records.flatMap encodeRecord) size q.2.1 q.2.2
        return (q.1 ++ [found.1], found.2.1, found.2.2)) (([] : List Rec), 0, containerBytes)
          = (pure q : Except (Stop Unit) (List Rec × ℕ × ℕ)) ∧
      (q.1 = records.take records.length ∧ q.2.1 ≤ (records.flatMap encodeRecord).length ∧
        (records.flatMap encodeRecord).drop q.2.1
          = (records.drop records.length).flatMap encodeRecord ∧
        Chained size q.2.2 (records.drop records.length) tail) := by
    apply foldlM_range_inv _ fun k (q : List Rec × ℕ × ℕ) =>
      q.1 = records.take k ∧ q.2.1 ≤ (records.flatMap encodeRecord).length ∧
        (records.flatMap encodeRecord).drop q.2.1 = (records.drop k).flatMap encodeRecord ∧
        Chained size q.2.2 (records.drop k) tail
    · exact ⟨rfl, Nat.zero_le _, rfl, h⟩
    · rintro k hk ⟨out, offset, start⟩ ⟨rfl, hoffset, hdrop, hchained⟩
      rw [List.drop_eq_getElem_cons hk] at hchained hdrop
      rw [List.flatMap_cons] at hdrop
      obtain ⟨stop, hrecord, hrest⟩ := hchained
      obtain ⟨hdecode, hnext⟩ := decodeRecord_at hbytes hrecord hdrop
      have hinside := offset_add_length_le hdrop (by rw [length_encodeRecord]; omega)
      have htake : records.take (k + 1) = records.take k ++ [records[k]] := by
        rw [List.take_add_one, List.getElem?_eq_getElem hk]
        rfl
      refine ⟨_, bind_eq_ok.mpr ⟨_, hdecode, rfl⟩, ?_, hinside, hnext, hrest⟩
      exact htake.symm
  obtain ⟨⟨out, offset, start⟩, hrun, hout, hoffset, hdrop, hchained⟩ := hloop
  simp only at hout hoffset hdrop hchained
  rw [List.drop_length] at hdrop hchained
  rw [List.take_length] at hout
  have hend : offset = (records.flatMap encodeRecord).length := by
    have := congrArg List.length hdrop
    rw [List.length_drop, List.flatMap_nil, List.length_nil] at this
    omega
  have hstart : start = tail := hchained
  unfold decodeCatalog
  refine bind_eq_ok.mpr ⟨(), rfl, bind_eq_ok.mpr ⟨_, hrun, bind_eq_ok.mpr ⟨(), ?_, ?_⟩⟩⟩
  · apply ensure_eq_ok.mpr
    rw [hend, hstart, decide_eq_true rfl, decide_eq_true rfl]
    rfl
  · rw [hout]
    rfl

end PencilRs.Analysis
