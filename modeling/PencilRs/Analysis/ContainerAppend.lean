import PencilRs.Analysis.ContainerImage
import PencilRs.Analysis.CheckedFold

/-!
# Appending to a container

A record is put behind the last one, its commit word last.  As long as that word is not there, the
container holds the records it held before; then it holds one more.  The scan multiplies all
extents of a record one after another, which the writer does not: where this product does not fit,
the record is written and no scan finds it.
-/

set_option autoImplicit false

namespace PencilRs.Analysis

open PencilRs.Computation PencilRs.Model NamedMpi

/-! ## The header of a record -/

/-- The record the scan returns for a subject that is written at `offset`. -/
def recordOf (subject : Subject) (offset : ℕ) : Rec where
  name := subject.name
  typ := subject.scalar.code
  width := subject.scalar.width
  global := subject.global
  extra := subject.extra
  payloadOffset := offset + recordHeaderBytes + subject.name.length
    + (16 + 8 * (subject.global ++ subject.extra).length)

/-- The scan multiplies the extents one after another. -/
def Scannable (subject : Subject) : Prop :=
  leadingProd (subject.global ++ subject.extra) < usizeLimit

theorem recordLen_recordOf (subject : Subject) (offset payload : ℕ) :
    recordLen (recordOf subject offset) payload = recordHeaderBytes + subject.name.length
      + (16 + 8 * (subject.global ++ subject.extra).length) + payload + 8 := rfl

/-- What a header says, with the length of the payload. -/
structure HeadOf (subject : Subject) (offset payload : ℕ) (head : List Byte) (stop : ℕ) : Prop where
  name_pos : 0 < subject.name.length
  name_le : subject.name.length ≤ maxName
  name_zero : subject.name.contains 0 = false
  global_pos : 0 < subject.global.length
  rank_le : (subject.global ++ subject.extra).length ≤ maxProtocolRank
  payload_eq : payload = subject.global.prod * subject.extra.prod * subject.scalar.width
  payload_lt : payload < usizeLimit
  stop_eq : stop = offset + recordLen (recordOf subject offset) payload
  stop_le : stop ≤ i64Max
  head_eq : head = headBytes (recordOf subject offset) payload

section Writer

variable {subject : Subject} {offset payload stop : ℕ} {head : List Byte}

theorem payloadBytes_eq_ok (h : NamedMpi.payloadBytes subject = .ok payload) :
    payload = subject.global.prod * subject.extra.prod * subject.scalar.width ∧
      payload < usizeLimit := by
  obtain ⟨elements, helements, hpayload⟩ := bind_eq_ok.mp h
  obtain ⟨x, hx, hrest⟩ := bind_eq_ok.mp (mapError_eq_ok.mp helements)
  obtain ⟨y, hy, hmul⟩ := bind_eq_ok.mp hrest
  obtain ⟨rfl, _⟩ := elementCount_eq_ok.mp hx
  obtain ⟨rfl, _⟩ := elementCount_eq_ok.mp hy
  obtain ⟨_, rfl⟩ := checkedMul_eq_some.mp (okOr_eq_ok.mp hmul)
  obtain ⟨hlt, rfl⟩ := checkedMul_eq_some.mp (okOr_eq_ok.mp hpayload)
  exact ⟨rfl, hlt⟩

/-- **What the writer prepares.** -/
theorem record_eq_ok {alloc : HeadAllocator}
    (h : record alloc subject offset = .ok (head, stop)) :
    ∃ payload, NamedMpi.payloadBytes subject = .ok payload ∧
      HeadOf subject offset payload head stop := by
  obtain ⟨rank, hrank, h⟩ := bind_eq_ok.mp h
  obtain ⟨_, hchecks, h⟩ := bind_eq_ok.mp h
  obtain ⟨payload, hpayload, h⟩ := bind_eq_ok.mp h
  obtain ⟨metaLen, hmetaLen, h⟩ := bind_eq_ok.mp h
  obtain ⟨_, _, h⟩ := bind_eq_ok.mp h
  obtain ⟨_, _, h⟩ := bind_eq_ok.mp h
  obtain ⟨total, htotal, h⟩ := bind_eq_ok.mp h
  obtain ⟨stop', hstop, h⟩ := bind_eq_ok.mp h
  obtain ⟨headerLen, _, h⟩ := bind_eq_ok.mp h
  obtain ⟨_, _, h⟩ := bind_eq_ok.mp h
  obtain ⟨rfl, rfl⟩ := Prod.mk.inj (Except.ok.inj h)
  obtain ⟨_, rfl⟩ := checkedAdd_eq_some.mp (okOr_eq_ok.mp hrank)
  obtain ⟨heq, hlt⟩ := payloadBytes_eq_ok hpayload
  have hchecks := ensure_eq_ok.mp hchecks
  simp only [Bool.and_eq_true, Bool.not_eq_true', decide_eq_true_eq] at hchecks
  obtain ⟨⟨⟨⟨⟨⟨hname, hnameLe⟩, hzero⟩, hglobal⟩, _⟩, _⟩, hrankLe⟩ := hchecks
  have hnamePos : 0 < subject.name.length := by
    rw [List.isEmpty_eq_false_iff] at hname
    exact List.length_pos_of_ne_nil hname
  obtain ⟨hstop, hstopLe⟩ := option_filter_eq_some.mp (okOr_eq_ok.mp hstop)
  obtain ⟨_, rfl⟩ := checkedAdd_eq_some.mp hstop
  have hmetadata : (leString 8 (subject.global.length :: subject.extra.length
      :: (subject.global ++ subject.extra))).length
        = 16 + 8 * (recordDims (recordOf subject offset)).length :=
    length_metaBytes (recordOf subject offset)
  have htotal := minimum_eq_some (okOr_eq_ok.mp htotal)
  rw [hmetadata] at htotal
  refine ⟨payload, hpayload, hnamePos, hnameLe, hzero, by omega, ?_, heq, hlt, ?_,
    of_decide_eq_true hstopLe, ?_⟩
  · rw [List.length_append]
    exact hrankLe
  · rw [htotal]
    rfl
  · rw [hmetadata, htotal]
    rfl

/-- A record whose product fits can stand in a file. -/
theorem HeadOf.inFile (h : HeadOf subject offset payload head stop) (hscan : Scannable subject)
    {size : ℕ} (hsize : stop ≤ size) : RecordAt size offset stop (recordOf subject offset) where
  name_pos := h.name_pos
  name_le := h.name_le
  name_utf8 := subject.name_utf8
  name_zero := h.name_zero
  global_pos := h.global_pos
  rank_le := h.rank_le
  dims_lt := subject.dims_lt
  scalar := by
    show (ScalarType.decode subject.scalar.code subject.scalar.width).isSome = true
    rw [ScalarType.decode_eq_some.mpr ⟨rfl, rfl⟩]
    rfl
  offset := rfl
  payload := by
    have hpayload : payload = (subject.global ++ subject.extra).prod * subject.scalar.width := by
      rw [List.prod_append, h.payload_eq]
    refine ⟨(subject.global ++ subject.extra).prod,
      checkedFold_eq_some.mpr ⟨rfl, hscan⟩, hpayload ▸ h.payload_lt, ?_⟩
    show stop = offset + recordHeaderBytes + subject.name.length
      + (16 + 8 * (subject.global ++ subject.extra).length) + _ * subject.scalar.width + 8
    have hstop := h.stop_eq
    rw [recordLen_recordOf] at hstop
    omega
  stop_le := hsize
  stop_le_i64 := h.stop_le

end Writer

/-! ## Behind the last record -/

/-- The words a header of `record` must have, all of them words. -/
def WordsFit (record : Rec) (payload : ℕ) : Prop :=
  ∀ w ∈ headWords record payload, w < usizeLimit

theorem headWords_inj {record other : Rec} {payload payload' : ℕ} (hfits : WordsFit record payload)
    (hfits' : WordsFit other payload')
    (h : leString 8 (headWords record payload) = leString 8 (headWords other payload')) :
    headWords record payload = headWords other payload' :=
  leString_inj rfl (fun w hw => (hfits w hw : w < 256 ^ 8))
    (fun w hw => (hfits' w hw : w < 256 ^ 8)) h

theorem recordLen_eq_of_headWords {record other : Rec} {payload payload' : ℕ}
    (h : headWords record payload = headWords other payload') :
    recordLen record payload = recordLen other payload' := by
  injection h with _ h
  injection h with _ h
  injection h with _ h
  injection h with _ h
  injection h

section Tail

variable {image rest : List Byte} {record found : Rec} {payload stop : ℕ}

/-- Whatever record stands behind the image has the words of the header there. -/
theorem Committed.words_eq (h : Committed (image ++ rest) image.length stop found)
    (hsize : (image ++ rest).length < usizeLimit) (hfits : WordsFit record payload)
    (hhead : rest.take recordHeaderBytes <+: recordMagic ++ leString 8 (headWords record payload)) :
    ∃ bytes, rest.take (recordLen found bytes.length) = recordBytes found bytes ∧
      stop = image.length + recordLen found bytes.length ∧
      headWords found bytes.length = headWords record payload := by
  obtain ⟨bytes, _, hbytes, hstop, _, _⟩ := h.payload
  obtain ⟨hfound, _, _⟩ := parts_of_recordBytes hbytes
  rw [List.drop_left] at hbytes hfound
  refine ⟨bytes, hbytes, hstop, ?_⟩
  have heq : recordMagic ++ leString 8 (headWords found bytes.length)
      = recordMagic ++ leString 8 (headWords record payload) := by
    rw [hfound] at hhead
    apply hhead.eq_of_length
    rw [length_headWords, length_headWords]
  exact headWords_inj (headWords_lt h.inFile hsize hstop) hfits (List.append_cancel_left heq)

/-- **Before its last byte is there**, a record is not found. -/
theorem nothingAt_of_partial (hsize : (image ++ rest).length < usizeLimit)
    (hfits : WordsFit record payload)
    (hhead : rest.take recordHeaderBytes <+: recordMagic ++ leString 8 (headWords record payload))
    (hshort : rest.length < recordLen record payload) (out : List Rec) :
    NothingAt (image ++ rest) image.length out := by
  intro found stop h
  obtain ⟨bytes, hbytes, _, hwords⟩ := h.words_eq hsize hfits hhead
  have hlen := congrArg List.length hbytes
  rw [length_recordBytes, List.length_take, recordLen_eq_of_headWords hwords] at hlen
  omega

/-! ## A whole record -/

variable {subject : Subject} {head bytes : List Byte}

theorem HeadOf.wordsFit {offset : ℕ} (h : HeadOf subject offset payload head stop) :
    WordsFit (recordOf subject offset) payload := by
  intro w hw
  have hname := h.name_le
  have hrank := h.rank_le
  have hpayload := h.payload_lt
  have hstop := h.stop_eq
  have hstopLe := h.stop_le
  have hlimit : maxName < usizeLimit ∧ 16 + 8 * maxProtocolRank < usizeLimit ∧
      i64Max < usizeLimit ∧ version < usizeLimit := by decide
  have hcode : subject.scalar.code < usizeLimit ∧ subject.scalar.width < usizeLimit := by
    cases subject.scalar <;> decide
  have hdims : recordDims (recordOf subject offset) = subject.global ++ subject.extra := rfl
  simp only [headWords, List.mem_cons, List.not_mem_nil, or_false, hdims] at hw
  rcases hw with rfl | rfl | rfl | rfl | rfl | rfl | rfl | rfl
  · exact hlimit.2.2.2
  · exact lt_of_le_of_lt hname hlimit.1
  · omega
  · exact hpayload
  · omega
  · exact hcode.1
  · exact hcode.2
  · decide

/-- The metadata give the dimensions back. -/
theorem metaBytes_inj {record other : Rec} (hlen : (recordDims record).length
      = (recordDims other).length) (hrank : (recordDims record).length ≤ maxProtocolRank)
    (hdims : ∀ d ∈ recordDims record, d < usizeLimit)
    (hdims' : ∀ d ∈ recordDims other, d < usizeLimit) (h : metaBytes record = metaBytes other) :
    record.global = other.global ∧ record.extra = other.extra := by
  have hlimit : maxProtocolRank < usizeLimit := by decide
  have hcounts : ∀ r : Rec, (recordDims r).length ≤ maxProtocolRank →
      (∀ d ∈ recordDims r, d < usizeLimit) →
      ∀ w ∈ r.global.length :: r.extra.length :: recordDims r, w < 256 ^ 8 := by
    intro r hr hd w hw
    have : (recordDims r).length = r.global.length + r.extra.length := List.length_append
    rcases List.mem_cons.mp hw with rfl | hw
    · exact (show r.global.length < usizeLimit by omega)
    · rcases List.mem_cons.mp hw with rfl | hw
      · exact (show r.extra.length < usizeLimit by omega)
      · exact hd w hw
  have heq := leString_inj (by rw [List.length_cons, List.length_cons, hlen]; rfl)
    (hcounts record hrank hdims) (hcounts other (hlen ▸ hrank) hdims') h
  injection heq with hglobal heq
  injection heq with _ heq
  exact List.append_inj heq hglobal

/-- **A whole record** behind the image is the one that was written, and its product fits. -/
theorem HeadOf.found_eq (h : HeadOf subject image.length payload head stop)
    (hsize : (image ++ rest).length < usizeLimit)
    (hrest : rest.take (recordLen (recordOf subject image.length) payload)
      = recordBytes (recordOf subject image.length) bytes) (hbytes : bytes.length = payload)
    {stop' : ℕ} (hfound : Committed (image ++ rest) image.length stop' found) :
    found = recordOf subject image.length ∧ stop' = stop ∧ Scannable subject := by
  subst hbytes
  have hhead : rest.take recordHeaderBytes
      <+: recordMagic ++ leString 8 (headWords (recordOf subject image.length) bytes.length) := by
    rw [← List.drop_zero (l := rest)] at hrest
    have hparts := parts_of_recordBytes hrest
    rw [List.drop_zero] at hparts
    rw [hparts.1]
  obtain ⟨bytes', hbytes', hstop', hwords⟩ := hfound.words_eq hsize h.wordsFit hhead
  have hlen := recordLen_eq_of_headWords hwords
  rw [hlen, hrest] at hbytes'
  have hall := hwords
  injection hwords with _ hwords
  injection hwords with hname hwords
  injection hwords with hmeta hwords
  injection hwords with hpayload hwords
  injection hwords with _ hwords
  injection hwords with htyp hwords
  injection hwords with hwidth _
  have hdimsLen : (recordDims found).length
      = (recordDims (recordOf subject image.length)).length := by omega
  have hheads : headBytes found bytes'.length
      = headBytes (recordOf subject image.length) bytes.length := by
    unfold recordBytes at hbytes'
    rw [List.append_assoc, List.append_assoc] at hbytes'
    refine (List.append_inj hbytes' ?_).1.symm
    rw [length_headBytes, length_headBytes]
    omega
  unfold headBytes at hheads
  rw [hall] at hheads
  simp only [List.append_assoc] at hheads
  have htexts := List.append_cancel_left (List.append_cancel_left hheads)
  obtain ⟨hnames, hmetas⟩ := List.append_inj htexts hname
  obtain ⟨hglobal, hextra⟩ := metaBytes_inj hdimsLen hfound.inFile.rank_le hfound.inFile.dims_lt
    subject.dims_lt hmetas
  have hoffset := hfound.inFile.offset
  have heq : found = recordOf subject image.length := by
    rcases found with ⟨name, typ, width, global, extra, payloadOffset⟩
    obtain rfl : name = subject.name := hnames
    obtain rfl : typ = subject.scalar.code := htyp
    obtain rfl : width = subject.scalar.width := hwidth
    obtain rfl : global = subject.global := hglobal
    obtain rfl : extra = subject.extra := hextra
    have hplace : payloadOffset = (recordOf subject image.length).payloadOffset := hoffset
    rw [hplace]
    rfl
  refine ⟨heq, ?_, ?_⟩
  · rw [hstop', hlen, h.stop_eq]
  · obtain ⟨elements, hproduct, _⟩ := hfound.inFile.payload
    rw [heq] at hproduct
    exact (checkedFold_eq_some.mp hproduct).2

end Tail

/-! ## Appending -/

/-- A part of a record: the bytes end before the record does, and they begin like its header. -/
def Unfinished (head : List Byte) (total : ℕ) (rest : List Byte) : Prop :=
  rest.length < total ∧ rest.take head.length <+: head

theorem unfinished_take (head : List Byte) {total k : ℕ} (h : (head.take k).length < total) :
    Unfinished head total (head.take k) := by
  refine ⟨h, ?_⟩
  rw [List.take_take]
  exact List.take_prefix _ _

theorem unfinished_append (head : List Byte) {total : ℕ} {bytes : List Byte}
    (h : head.length + bytes.length < total) : Unfinished head total (head ++ bytes) := by
  refine ⟨by rwa [List.length_append], ?_⟩
  rw [List.take_left]

section Append

variable {image rest : List Byte} {records : List Rec} {subject : Subject} {head bytes : List Byte}
  {payload stop : ℕ}

/-- What stands in the image is there with more bytes behind it. -/
theorem Holds.of_append (h : Holds image records image.length) {tail : ℕ} {more : List Rec}
    (hmore : CommittedFrom (image ++ rest) image.length more tail)
    (hnames : ((records ++ more).map Rec.name).Nodup)
    (hends : NothingAt (image ++ rest) tail (records ++ more)) :
    Holds (image ++ rest) (records ++ more) tail := by
  have hheader := header_length_le h.header
  refine ⟨?_, (h.chain.of_take ?_ ?_).append hmore, hnames, hends⟩
  · rw [List.take_append_of_le_length hheader, h.header]
  · rw [List.length_append]
    exact Nat.le_add_right _ _
  · rw [List.take_left, List.take_length]

/-- **A record that is not finished** leaves the container as it was. -/
theorem Holds.unfinished (h : Holds image records image.length)
    (hhead : HeadOf subject image.length payload head stop)
    (hrest : Unfinished head (stop - image.length) rest)
    (hsize : (image ++ rest).length < usizeLimit) :
    Holds (image ++ rest) records image.length := by
  have hstop := hhead.stop_eq
  have hfull : recordHeaderBytes ≤ head.length := by
    rw [hhead.head_eq, length_headBytes]
    omega
  have hprefix : rest.take recordHeaderBytes
      <+: recordMagic ++ leString 8 (headWords (recordOf subject image.length) payload) := by
    have hwords : head.take recordHeaderBytes
        = recordMagic ++ leString 8 (headWords (recordOf subject image.length) payload) := by
      rw [hhead.head_eq, headBytes, List.append_assoc, List.take_left' (length_headWords _ _)]
    have htake := List.IsPrefix.take hrest.2 recordHeaderBytes
    rwa [List.take_take, Nat.min_eq_left hfull, hwords] at htake
  have hends := nothingAt_of_partial hsize hhead.wordsFit hprefix
    (show rest.length < _ by have := hrest.1; omega) records
  have hmore := @Holds.of_append _ rest _ h _ [] rfl
    (by rw [List.append_nil]; exact h.names) (by rwa [List.append_nil])
  rwa [List.append_nil] at hmore

/-- The bytes of a whole record. -/
def written (head bytes : List Byte) : List Byte := head ++ bytes ++ leBytes 8 commitMarker

theorem HeadOf.written_eq {offset : ℕ} (hhead : HeadOf subject offset bytes.length head stop) :
    written head bytes = recordBytes (recordOf subject offset) bytes := by
  rw [written, hhead.head_eq]
  rfl

theorem HeadOf.length_written {offset : ℕ} (hhead : HeadOf subject offset bytes.length head stop) :
    offset + (written head bytes).length = stop := by
  rw [hhead.written_eq, length_recordBytes, hhead.stop_eq]

/-- A whole record whose product fits stands behind the image. -/
theorem HeadOf.committed (hhead : HeadOf subject image.length bytes.length head stop)
    (hscan : Scannable subject) : Committed (image ++ written head bytes) image.length stop
      (recordOf subject image.length) := by
  have hlen := hhead.length_written
  refine ⟨hhead.inFile hscan ?_, bytes, ?_⟩
  · rw [List.length_append, hlen]
  · rw [List.drop_left, ← hhead.written_eq, ← hlen, Nat.add_sub_cancel_left, List.take_length]

/-- **A whole record** is the next one. -/
theorem Holds.append (h : Holds image records image.length)
    (hhead : HeadOf subject image.length bytes.length head stop) (hscan : Scannable subject)
    (hnew : subject.name ∉ records.map Rec.name) :
    Holds (image ++ written head bytes) (records ++ [recordOf subject image.length])
      (image ++ written head bytes).length := by
  rw [List.length_append, hhead.length_written]
  refine h.of_append ⟨stop, hhead.committed hscan, rfl⟩ ?_ ?_
  · rw [List.map_append, List.map_singleton]
    refine List.nodup_append.mpr ⟨h.names, List.nodup_singleton _, fun a ha b hb => ?_⟩
    rintro rfl
    obtain rfl : a = subject.name := List.mem_singleton.mp hb
    exact hnew ha
  · intro found stop' hfound
    have hlt := hfound.inFile.start_lt
    have hle := hfound.inFile.stop_le
    rw [List.length_append, hhead.length_written] at hle
    omega

/-- **A record whose product does not fit** is not found. -/
theorem Holds.append_lost (h : Holds image records image.length)
    (hhead : HeadOf subject image.length bytes.length head stop) (hscan : ¬Scannable subject)
    (hsize : (image ++ written head bytes).length < usizeLimit) :
    Holds (image ++ written head bytes) records image.length := by
  have hlen := hhead.length_written
  have hmore := @Holds.of_append _ (written head bytes) _ h _ [] rfl
    (by rw [List.append_nil]; exact h.names) ?_
  · rwa [List.append_nil] at hmore
  · intro found stop' hfound
    refine absurd (hhead.found_eq hsize ?_ rfl hfound).2.2 hscan
    rw [← hhead.written_eq, List.take_of_length_le]
    rw [hhead.written_eq, length_recordBytes]

end Append

/-! ## Where the product fits -/

/-- Extents that are not zero multiply to what the writer checks. -/
theorem HeadOf.scannable {subject : Subject} {offset payload stop : ℕ} {head : List Byte}
    (hhead : HeadOf subject offset payload head stop)
    (hpos : ∀ d ∈ subject.global ++ subject.extra, 0 < d) : Scannable subject := by
  have hwidth : 0 < subject.scalar.width := by
    cases subject.scalar <;> decide
  have hprod : (subject.global ++ subject.extra).prod < usizeLimit := by
    have hpayload := hhead.payload_lt
    rw [hhead.payload_eq, ← List.prod_append] at hpayload
    exact lt_of_le_of_lt (Nat.le_mul_of_pos_right _ hwidth) hpayload
  rwa [Scannable, leadingProd_of_pos fun d hd => (hpos d hd).ne']

end PencilRs.Analysis
