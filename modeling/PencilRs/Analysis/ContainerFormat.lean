import PencilRs.Analysis.ContainerLimit
import PencilRs.Model.ContainerWrite

/-!
# The format of a container

The scan accepts a record where its bytes are in the file, and nowhere else: every byte of a
record but its payload is determined by its fields.  So the records of a scan are the records
whose bytes stand one after another behind the header, and what follows them does not begin with
one more.
-/

set_option autoImplicit false

namespace PencilRs.Analysis

open PencilRs.Computation PencilRs.Model NamedMpi Update

/-! ## The bytes of a record -/

/-- The length of a record with a payload of this length. -/
def recordLen (record : Rec) (payload : ℕ) : ℕ :=
  recordHeaderBytes + record.name.length + (16 + 8 * (recordDims record).length) + payload + 8

/-- The words of the header of a record. -/
def headWords (record : Rec) (payload : ℕ) : List ℕ :=
  [version, record.name.length, 16 + 8 * (recordDims record).length, payload,
    recordLen record payload, record.typ, record.width, 0]

/-- The metadata of a record: two counts and the dimensions. -/
def metaBytes (record : Rec) : List Byte :=
  leString 8 (record.global.length :: record.extra.length :: recordDims record)

/-- The header of a record, with its name and its metadata. -/
def headBytes (record : Rec) (payload : ℕ) : List Byte :=
  recordMagic ++ leString 8 (headWords record payload) ++ record.name ++ metaBytes record

/-- The bytes of a committed record. -/
def recordBytes (record : Rec) (payload : List Byte) : List Byte :=
  headBytes record payload.length ++ payload ++ leBytes 8 commitMarker

theorem length_headWords (record : Rec) (payload : ℕ) :
    (recordMagic ++ leString 8 (headWords record payload)).length = recordHeaderBytes := by
  rw [List.length_append, length_leString]
  rfl

theorem length_metaBytes (record : Rec) :
    (metaBytes record).length = 16 + 8 * (recordDims record).length := by
  unfold metaBytes
  rw [length_leString, List.length_cons, List.length_cons]
  omega

theorem length_headBytes (record : Rec) (payload : ℕ) :
    (headBytes record payload).length
      = recordHeaderBytes + record.name.length + (16 + 8 * (recordDims record).length) := by
  unfold headBytes
  rw [List.length_append, List.length_append, length_headWords, length_metaBytes]

theorem length_recordBytes (record : Rec) (payload : List Byte) :
    (recordBytes record payload).length = recordLen record payload.length := by
  unfold recordBytes recordLen
  simp only [List.length_append, length_headBytes, length_leBytes]

/-- The bytes from `p` up to `stop` are those of the record. -/
structure Committed (image : List Byte) (p stop : ℕ) (record : Rec) : Prop where
  inFile : RecordAt image.length p stop record
  bytes : ∃ payload, (image.drop p).take (stop - p) = recordBytes record payload

/-! ## Reading an image -/

section Reads

variable {image : List Byte} {ε : Type}

theorem returns_wordAt (bytes : List Byte) (p : ℕ) :
    Update.Returns (fun word => ∀ x, word = some x → x = leValue ((bytes.drop p).take 8))
      (NamedMpi.wordAt bytes p : Update ε Reads (Option ℕ)) := by
  apply returns_demand
  rintro word hword x rfl
  obtain ⟨stop, _, hword⟩ := Option.bind_eq_some_iff.mp hword
  by_cases h : stop ≤ bytes.length
  · rw [if_pos h] at hword
    exact (Option.some.inj (Option.some.inj hword)).symm
  · rw [if_neg h] at hword
    cases hword

theorem yields_wordAt {bytes : List Byte} {p : ℕ} (hp : p + 8 < usizeLimit)
    (h : p + 8 ≤ bytes.length) :
    Update.Yields (some (leValue ((bytes.drop p).take 8)))
      (NamedMpi.wordAt bytes p : Update ε Reads (Option ℕ)) := by
  apply yields_demand
  rw [u64At_eq hp, if_pos h]

theorem imageFile_eq {offset len : ℕ} (h : ((image.drop offset).take len).length = len) :
    imageFile image offset len = some ⟨(image.drop offset).take len, h⟩ := dif_pos h

theorem returns_rootRead (offset len : ℕ) (failure : ε) :
    Update.Returns (fun bytes => bytes = (image.drop offset).take len ∧ bytes.length = len)
      (rootRead (imageFile image) offset len failure) := by
  refine returns_bind (returns_any _) ?_
  intro _ _ reads bytes reads' hrun
  obtain ⟨hread, _⟩ := Prod.mk.inj (Option.some.inj hrun)
  by_cases h : ((image.drop offset).take len).length = len
  · rw [imageFile_eq h] at hread
    exact Except.ok.inj hread ▸ ⟨rfl, h⟩
  · have hnone : imageFile image offset len = none := dif_neg h
    rw [hnone] at hread
    cases hread

theorem yields_rootRead {offset len : ℕ} (failure : ε) (hoffset : offset ≤ i64Max)
    (h : offset + len ≤ image.length) :
    Update.Yields ((image.drop offset).take len)
      (rootRead (imageFile image) offset len failure) := by
  refine yields_bind (x := ()) (yields_checked (ensure_eq_ok.mpr (decide_eq_true hoffset))) ?_
  intro reads
  have hlen : ((image.drop offset).take len).length = len := by
    rw [List.length_take, List.length_drop]
    omega
  refine ⟨reads ++ [(offset, len)], ?_⟩
  rw [nativeRead, imageFile_eq hlen]
  rfl

/-! ## What the scan accepts -/

theorem returns_orStop {ι : Type} (value : Option ι) :
    Update.Returns (fun x => value = some x) (orStop value) :=
  returns_checked fun _ h => okOr_eq_ok.mp h

theorem returns_stopUnless (cond : Bool) :
    Update.Returns (fun _ => cond = true) (stopUnless cond) :=
  returns_checked fun _ h => ensure_eq_ok.mp h

theorem yields_orStop {ι : Type} {value : Option ι} {x : ι} (h : value = some x) :
    Update.Yields x (orStop value) := yields_checked (okOr_eq_ok.mpr h)

theorem yields_stopUnless {cond : Bool} (h : cond = true) : Update.Yields () (stopUnless cond) :=
  yields_checked (ensure_eq_ok.mpr h)

theorem yields_reserve (status : ScanStatus) : Update.Yields () (reserve true status) :=
  yields_checked rfl

/-- A string of words is one word after another. -/
theorem leWords_succ_last (width count : ℕ) (bytes : List Byte) :
    leWords width (count + 1) bytes
      = leWords width count bytes ++ [leValue ((bytes.drop (width * count)).take width)] := by
  rw [leWords_add]
  rfl

theorem returns_readDims (metadata : List Byte) (rank : ℕ) :
    Update.Returns (fun q => q.1 = leWords 8 rank (metadata.drop 16)) (readDims metadata rank) := by
  apply returns_foldlM_range fun k (q : List ℕ × ℕ) => q.1 = leWords 8 k (metadata.drop 16)
  · rfl
  · rintro k _ ⟨dims, elements⟩ rfl
    refine returns_bind (returns_demand fun _ h => h) fun scaled hscaled => ?_
    refine returns_bind (returns_demand fun _ h => h) fun offset hoffset => ?_
    obtain ⟨_, rfl⟩ := checkedMul_eq_some.mp hscaled
    obtain ⟨_, rfl⟩ := checkedAdd_eq_some.mp hoffset
    refine returns_bind (returns_wordAt metadata (16 + k * 8)) fun word hword => ?_
    refine returns_bind (returns_orStop word) fun d hd => ?_
    refine returns_bind (returns_orStop (checkedMul elements d)) fun next _ => ?_
    apply returns_pure
    show _ ++ [d] = _
    rw [leWords_succ_last, hword d hd, List.drop_drop, Nat.mul_comm k]

/-- The product of the first factors is there where the product of all is. -/
theorem foldlM_take_isSome {dims : List ℕ} {elements : ℕ}
    (h : dims.foldlM checkedMul 1 = some elements) (k : ℕ) :
    ∃ first, (dims.take k).foldlM checkedMul 1 = some first := by
  rw [← List.take_append_drop k dims, List.foldlM_append] at h
  obtain ⟨first, hfirst, _⟩ := Option.bind_eq_some_iff.mp h
  exact ⟨first, hfirst⟩

theorem yields_readDims {metadata : List Byte} {rank elements : ℕ}
    (hrank : rank ≤ maxProtocolRank) (hlen : metadata.length = 16 + 8 * rank)
    (hproduct : (leWords 8 rank (metadata.drop 16)).foldlM checkedMul 1 = some elements) :
    Update.Yields (leWords 8 rank (metadata.drop 16), elements) (readDims metadata rank) := by
  have htake : ∀ k ≤ rank, (leWords 8 rank (metadata.drop 16)).take k
      = leWords 8 k (metadata.drop 16) := by
    intro k hk
    obtain ⟨more, rfl⟩ := Nat.exists_eq_add_of_le hk
    rw [leWords_add]
    exact List.take_left' (length_leWords 8 k _)
  have hfirst : ∀ k, ∃ first, k ≤ rank →
      (leWords 8 k (metadata.drop 16)).foldlM checkedMul 1 = some first := by
    intro k
    obtain ⟨first, h⟩ := foldlM_take_isSome hproduct k
    exact ⟨first, fun hk => htake k hk ▸ h⟩
  choose first hfirst using hfirst
  have hzero : first 0 = 1 := (Option.some.inj (hfirst 0 (Nat.zero_le _))).symm
  have hall : first rank = elements :=
    Option.some.inj ((hfirst rank le_rfl).symm.trans hproduct)
  have hloop := yields_foldlM_range (ε := ScanHalt) (τ := Reads)
    (f := fun (q : List ℕ × ℕ) i => do
      let offset ← Update.demand (checkedMul i 8)
      let offset ← Update.demand (checkedAdd 16 offset)
      let d ← orStop (← NamedMpi.wordAt metadata offset)
      let elements ← orStop (checkedMul q.2 d)
      return (q.1 ++ [d], elements)) (fun k => (leWords 8 k (metadata.drop 16), first k)) rank ?_
  · rw [← hall]
    rw [show leWords 8 0 (metadata.drop 16) = [] from rfl, hzero] at hloop
    exact hloop
  · intro k hk
    unfold maxProtocolRank at hrank
    have hmul : k * 8 < usizeLimit := by
      unfold usizeLimit
      omega
    have hadd : 16 + k * 8 < usizeLimit := by
      unfold usizeLimit
      omega
    have hend : 16 + k * 8 + 8 < usizeLimit := by
      unfold usizeLimit
      omega
    refine yields_bind (yields_demand (checkedMul_eq_some.mpr ⟨hmul, rfl⟩)) ?_
    refine yields_bind (yields_demand (checkedAdd_eq_some.mpr ⟨hadd, rfl⟩)) ?_
    refine yields_bind (yields_wordAt hend (by omega)) ?_
    refine yields_bind (yields_orStop rfl) ?_
    have hnext : checkedMul (first k) (leValue ((metadata.drop (16 + k * 8)).take 8))
        = some (first (k + 1)) := by
      have hsucc := hfirst (k + 1) hk
      rw [leWords_succ_last, List.foldlM_append, hfirst k hk.le, List.drop_drop,
        Nat.mul_comm 8 k] at hsucc
      change (checkedMul (first k) _ >>= pure) = _ at hsucc
      rwa [bind_pure] at hsucc
    refine yields_bind (yields_orStop hnext) ?_
    rw [leWords_succ_last, List.drop_drop, Nat.mul_comm 8 k]
    exact Update.yields_pure _

/-- The header of a record, from its magic and its words. -/
theorem recordHeader_eq {rh : List Byte} (hlen : rh.length = recordHeaderBytes) :
    rh = rh.take 8 ++ leString 8 [leValue ((rh.drop 8).take 8), leValue ((rh.drop 16).take 8),
      leValue ((rh.drop 24).take 8), leValue ((rh.drop 32).take 8), leValue ((rh.drop 40).take 8),
      leValue ((rh.drop 48).take 8), leValue ((rh.drop 56).take 8),
      leValue ((rh.drop 64).take 8)] := by
  have hrest : (rh.drop 8).length = 8 * 8 := by
    rw [List.length_drop, hlen]
    rfl
  have hwords := leString_leWords hrest
  simp only [leWords, List.drop_drop] at hwords
  conv_lhs => rw [← List.take_append_drop 8 rh, ← hwords]

/-- The metadata of a record, from its counts and its dimensions. -/
theorem metadata_eq {metadata : List Byte} {rank : ℕ} (hlen : metadata.length = 16 + 8 * rank) :
    metadata = leString 8 (leValue (metadata.take 8) :: leValue ((metadata.drop 8).take 8)
      :: leWords 8 rank (metadata.drop 16)) := by
  have hwords : metadata.length = 8 * (rank + 1 + 1) := by omega
  have := leString_leWords hwords
  rw [leWords, leWords, List.drop_drop] at this
  exact this.symm

/-- The sum of the parts of a record. -/
theorem minimum_eq_some {nl ml payload total : ℕ} (h : (do
    let x ← checkedAdd recordHeaderBytes nl
    let x ← checkedAdd x ml
    let x ← checkedAdd x payload
    checkedAdd x 8) = some total) : total = recordHeaderBytes + nl + ml + payload + 8 := by
  obtain ⟨a, ha, h⟩ := Option.bind_eq_some_iff.mp h
  obtain ⟨b, hb, h⟩ := Option.bind_eq_some_iff.mp h
  obtain ⟨c, hc, h⟩ := Option.bind_eq_some_iff.mp h
  obtain ⟨_, rfl⟩ := checkedAdd_eq_some.mp ha
  obtain ⟨_, rfl⟩ := checkedAdd_eq_some.mp hb
  obtain ⟨_, rfl⟩ := checkedAdd_eq_some.mp hc
  exact (checkedAdd_eq_some.mp h).2.symm

theorem minimum_eq {nl ml payload : ℕ}
    (h : recordHeaderBytes + nl + ml + payload + 8 < usizeLimit) : (do
    let x ← checkedAdd recordHeaderBytes nl
    let x ← checkedAdd x ml
    let x ← checkedAdd x payload
    checkedAdd x 8) = some (recordHeaderBytes + nl + ml + payload + 8) :=
  Option.bind_eq_some_iff.mpr ⟨_, checkedAdd_eq_some.mpr ⟨by omega, rfl⟩,
    Option.bind_eq_some_iff.mpr ⟨_, checkedAdd_eq_some.mpr ⟨by omega, rfl⟩,
    Option.bind_eq_some_iff.mpr ⟨_, checkedAdd_eq_some.mpr ⟨by omega, rfl⟩,
      checkedAdd_eq_some.mpr ⟨h, rfl⟩⟩⟩⟩

/-- The four parts of a record. -/
theorem take_four (image : List Byte) (p a b c d : ℕ) :
    (image.drop p).take (a + b + c + d) = (image.drop p).take a ++ (image.drop (p + a)).take b
      ++ (image.drop (p + a + b)).take c ++ (image.drop (p + a + b + c)).take d := by
  rw [List.take_add, List.take_add, List.take_add]
  simp only [List.drop_drop, Nat.add_assoc]

/-- The bytes of a record, from its fields and the parts of the file they were read from. -/
theorem recordBytes_of_parts {image : List Byte} {p payload : ℕ} {record : Rec}
    (hhead : (image.drop p).take recordHeaderBytes
      = recordMagic ++ leString 8 (headWords record payload))
    (hbody : (image.drop (p + recordHeaderBytes)).take
        (record.name.length + (16 + 8 * (recordDims record).length))
      = record.name ++ metaBytes record)
    (hmarker : (image.drop (p + recordLen record payload - 8)).take 8 = leBytes 8 commitMarker) :
    ∃ bytes, (image.drop p).take (recordLen record payload) = recordBytes record bytes := by
  have hoffset : p + recordLen record payload - 8 = p + recordHeaderBytes
      + (record.name.length + (16 + 8 * (recordDims record).length)) + payload := by
    unfold recordLen
    omega
  have hinside : p + recordLen record payload ≤ image.length := by
    have hlen := congrArg List.length hmarker
    rw [List.length_take, List.length_drop, length_leBytes] at hlen
    omega
  have hpayload : ((image.drop (p + recordHeaderBytes
      + (record.name.length + (16 + 8 * (recordDims record).length)))).take payload).length
      = payload := by
    rw [List.length_take, List.length_drop]
    omega
  refine ⟨(image.drop (p + recordHeaderBytes
    + (record.name.length + (16 + 8 * (recordDims record).length)))).take payload, ?_⟩
  rw [hoffset] at hmarker
  rw [recordLen, Nat.add_assoc recordHeaderBytes, take_four, hhead, hbody, hmarker, recordBytes,
    hpayload, headBytes]
  simp only [List.append_assoc]

/-- **What the scan accepts** has the bytes of the record it returns. -/
theorem returns_scanRecord (image : List Byte) (size p : ℕ) (out : List Rec) :
    Update.Returns (fun q => (∃ payload, (image.drop p).take (q.2 - p) = recordBytes q.1 payload) ∧
        (out.any fun record => record.name = q.1.name) = false)
      (scanRecord (imageFile image) ⟨true, true, true⟩ size p out) := by
  unfold scanRecord
  refine returns_bind (returns_demand fun _ h => h) fun left _ => ?_
  refine returns_bind (returns_stopUnless _) fun _ _ => ?_
  refine returns_bind (returns_rootRead p recordHeaderBytes _) fun rh hrh => ?_
  refine returns_bind (returns_wordAt rh 8) fun recordVersion hversion => ?_
  refine returns_bind (returns_wordAt rh 64) fun reserved hreserved => ?_
  refine returns_bind (returns_stopUnless _) fun _ hmagic => ?_
  refine returns_bind (returns_wordAt rh 16) fun nameWord hnameWord => ?_
  refine returns_bind (returns_orStop _) fun nl hnl => ?_
  refine returns_bind (returns_wordAt rh 24) fun metaWord hmetaWord => ?_
  refine returns_bind (returns_orStop _) fun ml hml => ?_
  refine returns_bind (returns_wordAt rh 32) fun payloadWord hpayloadWord => ?_
  refine returns_bind (returns_orStop _) fun payload hpayload => ?_
  refine returns_bind (returns_wordAt rh 40) fun totalWord htotalWord => ?_
  refine returns_bind (returns_orStop _) fun total htotal => ?_
  refine returns_bind (returns_orStop _) fun stop hstop => ?_
  refine returns_bind (returns_stopUnless _) fun _ hminimum => ?_
  refine returns_bind (returns_orStop _) fun bodyLen hbodyLen => ?_
  refine returns_bind (returns_any _) fun _ _ => ?_
  refine returns_bind (returns_demand fun _ h => h) fun bodyOffset hbodyOffset => ?_
  refine returns_bind (returns_rootRead bodyOffset bodyLen _) fun body hbody => ?_
  refine returns_bind (returns_demand fun _ h => h) fun name hname => ?_
  refine returns_bind (returns_stopUnless _) fun _ hnew => ?_
  refine returns_bind (returns_demand fun _ h => h) fun metadata hmetadata => ?_
  refine returns_bind (returns_wordAt metadata 0) fun spatialWord hspatialWord => ?_
  refine returns_bind (returns_orStop _) fun nr hnr => ?_
  refine returns_bind (returns_wordAt metadata 8) fun extraWord hextraWord => ?_
  refine returns_bind (returns_orStop _) fun er her => ?_
  refine returns_bind (returns_orStop _) fun rank hrank => ?_
  refine returns_bind (returns_orStop _) fun need hneed => ?_
  refine returns_bind (returns_stopUnless _) fun _ hneedLen => ?_
  refine returns_bind (returns_any _) fun _ _ => ?_
  refine returns_bind (returns_readDims metadata rank) fun dims hdims => ?_
  obtain ⟨dims, elements⟩ := dims
  refine returns_bind (returns_wordAt rh 48) fun typWord htypWord => ?_
  refine returns_bind (returns_orStop _) fun typ htyp => ?_
  refine returns_bind (returns_wordAt rh 56) fun widthWord hwidthWord => ?_
  refine returns_bind (returns_orStop _) fun width hwidth => ?_
  refine returns_bind (returns_stopUnless _) fun _ _ => ?_
  refine returns_bind (returns_demand fun _ h => h) fun markerOffset hmarkerOffset => ?_
  refine returns_bind (returns_rootRead markerOffset 8 _) fun marker hmarker => ?_
  refine returns_bind (returns_stopUnless _) fun _ hcommit => ?_
  refine returns_bind (returns_any _) fun _ _ => ?_
  refine returns_bind (returns_demand fun _ h => h) fun extra hextra => ?_
  refine returns_bind (returns_demand fun _ h => h) fun payloadOffset hpayloadOffset => ?_
  apply returns_pure
  rw [Bool.and_eq_true, Bool.and_eq_true, decide_eq_true_eq, decide_eq_true_eq,
    decide_eq_true_eq] at hmagic
  rw [Bool.and_eq_true] at hnew
  obtain ⟨hnl, _⟩ := option_filter_eq_some.mp hnl
  obtain ⟨hml, _⟩ := option_filter_eq_some.mp hml
  obtain ⟨hstop, _⟩ := option_filter_eq_some.mp hstop
  obtain ⟨_, rfl⟩ := checkedAdd_eq_some.mp hstop
  obtain rfl := minimum_eq_some (of_decide_eq_true hminimum)
  obtain ⟨_, rfl⟩ := checkedAdd_eq_some.mp hbodyLen
  obtain ⟨_, rfl⟩ := checkedAdd_eq_some.mp hbodyOffset
  obtain ⟨hnr, _⟩ := option_filter_eq_some.mp hnr
  obtain ⟨her, _⟩ := option_filter_eq_some.mp her
  obtain ⟨hrank, hrankLe⟩ := option_filter_eq_some.mp hrank
  obtain ⟨_, rfl⟩ := checkedAdd_eq_some.mp hrank
  obtain ⟨_, rfl⟩ := checkedAdd_eq_some.mp hneed
  obtain ⟨_, rfl⟩ := checkedSub_eq_some.mp hmarkerOffset
  obtain ⟨hrhEq, hrhLen⟩ := hrh
  obtain ⟨hbodyEq, hbodyLen'⟩ := hbody
  obtain ⟨_, hnameLe, rfl⟩ := slice?_eq_some hname
  obtain ⟨_, _, rfl⟩ := slice?_eq_some hmetadata
  obtain ⟨hnrLe, _, rfl⟩ := slice?_eq_some hextra
  have hnameLen : ((body.drop 0).take (nl - 0)).length = nl := by
    rw [List.drop_zero, Nat.sub_zero, List.length_take, Nat.min_eq_left hnameLe]
  have hml' : 16 + 8 * (nr + er) = ml := by
    have hsmall : (nr + er) * 8 ≤ usizeLimit - 1 := by
      have := of_decide_eq_true hrankLe
      unfold maxProtocolRank at this
      unfold usizeLimit
      omega
    have := of_decide_eq_true hneedLen
    rw [Nat.min_eq_left hsmall] at this
    omega
  have hmetadataLen :
      ((body.drop nl).take (body.length - nl)).length = 16 + 8 * (nr + er) := by
    rw [List.length_take, List.length_drop]
    omega
  have hdims :
      dims = leWords 8 (nr + er) (((body.drop nl).take (body.length - nl)).drop 16) := hdims
  have hdimsLen : dims.length = nr + er := by rw [hdims, length_leWords]
  have hsplit : dims.take nr ++ (dims.drop nr).take (dims.length - nr) = dims := by
    rw [List.take_of_length_le List.length_drop.le, List.take_append_drop]
  have hextraLen : ((dims.drop nr).take (dims.length - nr)).length = er := by
    rw [List.length_take, List.length_drop]
    omega
  have hglobalLen : (dims.take nr).length = nr := by
    rw [List.length_take]
    omega
  refine ⟨?_, by simpa using hnew.2⟩
  rw [Nat.add_sub_cancel_left]
  obtain ⟨record, hrecord⟩ : ∃ record : Rec, record = ⟨(body.drop 0).take (nl - 0), typ, width,
    dims.take nr, (dims.drop nr).take (dims.length - nr), payloadOffset⟩ := ⟨_, rfl⟩
  have hfields : record.name = (body.drop 0).take (nl - 0) ∧ record.typ = typ ∧
      record.width = width ∧ record.global.length = nr ∧ record.extra.length = er ∧
      recordDims record = dims := by
    subst hrecord
    exact ⟨rfl, rfl, rfl, hglobalLen, hextraLen, hsplit⟩
  obtain ⟨hrecordName, rfl, rfl, rfl, rfl, hrecordDims⟩ := hfields
  rw [← hrecordName] at hnameLen
  have hlen : recordHeaderBytes + nl + ml + payload + 8 = recordLen record payload := by
    unfold recordLen
    rw [hnameLen, hrecordDims, hdimsLen, hml']
  show ∃ bytes, (image.drop p).take _ = recordBytes _ bytes
  rw [← hrecord, hlen]
  rw [hlen] at htotal hmarker
  apply recordBytes_of_parts
  · rw [← hrhEq, recordHeader_eq hrhLen, headWords, hmagic.1.1, ← hversion _ hmagic.1.2,
      ← hreserved _ hmagic.2, ← hnameWord _ hnl, ← hmetaWord _ hml, ← hpayloadWord _ hpayload,
      ← htotalWord _ htotal, ← htypWord _ htyp, ← hwidthWord _ hwidth, hnameLen, hrecordDims,
      hdimsLen, hml']
  · have hspatial := hspatialWord _ hnr
    rw [List.drop_zero] at hspatial
    have hmetadataEq := metadata_eq hmetadataLen
    rw [← hspatial, ← hextraWord _ her, ← hdims] at hmetadataEq
    rw [metaBytes, hrecordDims, hdimsLen, hnameLen, hml', ← hbodyEq, ← hmetadataEq, hrecordName,
      List.drop_zero, Nat.sub_zero, ← List.length_drop, List.take_length, List.take_append_drop]
  · obtain ⟨hmarkerEq, hmarkerLen⟩ := hmarker
    rw [← hmarkerEq]
    have := leBytes_leValue marker
    rw [hmarkerLen, of_decide_eq_true hcommit] at this
    exact this.symm

/-! ## Records that stand in the file -/

/-- A part of a part. -/
theorem take_drop_part {α : Type} {l : List α} {p len a n : ℕ} (h : a + n ≤ len) :
    (l.drop (p + a)).take n = (((l.drop p).take len).drop a).take n := by
  rw [List.drop_take, List.take_take, List.drop_drop, Nat.min_eq_left (by omega)]

/-- The parts of the file a record is read from, from its bytes. -/
theorem parts_of_recordBytes {image : List Byte} {p : ℕ} {record : Rec} {payload : List Byte}
    (h : (image.drop p).take (recordLen record payload.length) = recordBytes record payload) :
    (image.drop p).take recordHeaderBytes
        = recordMagic ++ leString 8 (headWords record payload.length) ∧
      (image.drop (p + recordHeaderBytes)).take
          (record.name.length + (16 + 8 * (recordDims record).length))
        = record.name ++ metaBytes record ∧
      (image.drop (p + (recordLen record payload.length - 8))).take 8
        = leBytes 8 commitMarker := by
  have hhead := length_headBytes record payload.length
  refine ⟨?_, ?_, ?_⟩
  · have hpart : 0 + recordHeaderBytes ≤ recordLen record payload.length := by
      unfold recordLen
      omega
    have hpart := take_drop_part (l := image) (p := p) hpart
    rw [Nat.add_zero] at hpart
    rw [hpart, h, List.drop_zero, recordBytes, headBytes]
    simp only [List.append_assoc]
    rw [← List.append_assoc]
    exact List.take_left' (length_headWords record payload.length)
  · have hpart : recordHeaderBytes + (record.name.length + (16 + 8 * (recordDims record).length))
        ≤ recordLen record payload.length := by
      unfold recordLen
      omega
    rw [take_drop_part hpart, h, recordBytes, headBytes]
    simp only [List.append_assoc]
    rw [← List.append_assoc recordMagic, List.drop_left' (length_headWords _ _),
      ← List.append_assoc record.name]
    apply List.take_left'
    rw [List.length_append, length_metaBytes]
  · have hpart : recordLen record payload.length - 8 + 8 ≤ recordLen record payload.length := by
      unfold recordLen
      omega
    rw [take_drop_part hpart, h, recordBytes]
    rw [List.drop_left' (by simp only [List.length_append, hhead]; unfold recordLen; omega)]
    exact List.take_of_length_le (length_leBytes 8 commitMarker).le

/-- A word of a string behind some other bytes. -/
theorem word_between (front : List Byte) {words : List ℕ} {i w : ℕ}
    (hfits : ∀ w ∈ words, w < usizeLimit) (hw : words[i]? = some w) (rest : List Byte) :
    leValue (((front ++ leString 8 words ++ rest).drop (front.length + 8 * i)).take 8) = w := by
  have hlt : i < words.length := (List.getElem?_eq_some_iff.mp hw).1
  have hread : leWords 8 words.length (leString 8 words ++ rest) = words :=
    leWords_leString (fun w h => (hfits w h : w < 256 ^ 8)) rest
  have hword : (leWords 8 words.length (leString 8 words ++ rest))[i]? = _ :=
    getElem?_leWords (leString 8 words ++ rest) hlt
  rw [hread, hw] at hword
  rw [List.append_assoc, ← List.drop_drop, List.drop_left]
  exact (Option.some.inj hword).symm

/-- The payload of a committed record has the length its dimensions say. -/
theorem Committed.payload {image : List Byte} {p stop : ℕ} {record : Rec}
    (h : Committed image p stop record) : ∃ payload elements,
      (image.drop p).take (recordLen record payload.length) = recordBytes record payload ∧
      stop = p + recordLen record payload.length ∧
      (recordDims record).foldlM checkedMul 1 = some elements ∧
      payload.length = elements * record.width := by
  obtain ⟨payload, hbytes⟩ := h.bytes
  obtain ⟨elements, hproduct, _, hstop⟩ := h.inFile.payload
  have hoffset := h.inFile.offset
  have hlt := h.inFile.start_lt
  have hle := h.inFile.stop_le
  have hlen := congrArg List.length hbytes
  rw [length_recordBytes, List.length_take, List.length_drop, Nat.min_eq_left (by omega)] at hlen
  refine ⟨payload, elements, by rw [← hlen, hbytes], by omega, hproduct, ?_⟩
  unfold recordLen at hlen
  omega

theorem headWords_lt {size p stop : ℕ} {record : Rec} {payload : ℕ}
    (h : RecordAt size p stop record) (hsize : size < usizeLimit)
    (hstop : stop = p + recordLen record payload) :
    ∀ w ∈ headWords record payload, w < usizeLimit := by
  obtain ⟨scalar, hscalar⟩ := Option.isSome_iff_exists.mp h.scalar
  obtain ⟨htyp, hwidth⟩ := ScalarType.decode_eq_some.mp hscalar
  have hcode : scalar.code < usizeLimit ∧ scalar.width < usizeLimit := by
    cases scalar <;> decide
  have hle := h.stop_le
  have hlen : recordLen record payload < usizeLimit := by omega
  intro w hw
  unfold recordLen at hlen
  simp only [headWords, List.mem_cons, List.not_mem_nil, or_false] at hw
  rcases hw with rfl | rfl | rfl | rfl | rfl | rfl | rfl | rfl
  · decide
  · omega
  · omega
  · omega
  · exact hlen
  · rw [htyp]
    exact hcode.1
  · rw [hwidth]
    exact hcode.2
  · decide

theorem metaWord_eq {size p stop : ℕ} {record : Rec} (h : RecordAt size p stop record) (i w : ℕ)
    (hw : (record.global.length :: record.extra.length :: recordDims record)[i]? = some w) :
    leValue (((metaBytes record).drop (8 * i)).take 8) = w := by
  have hrank := h.rank_le
  have hdimsLen : (recordDims record).length = record.global.length + record.extra.length :=
    List.length_append
  have hlimit : maxProtocolRank < usizeLimit := by decide
  have hfits : ∀ w ∈ record.global.length :: record.extra.length :: recordDims record,
      w < usizeLimit := by
    intro w hw
    rcases List.mem_cons.mp hw with rfl | hw
    · omega
    · rcases List.mem_cons.mp hw with rfl | hw
      · omega
      · exact h.dims_lt w hw
  have hread := word_between [] hfits hw []
  rwa [List.nil_append, List.append_nil, List.length_nil, Nat.zero_add] at hread

theorem metaDims_eq {size p stop : ℕ} {record : Rec} (h : RecordAt size p stop record) :
    leWords 8 (recordDims record).length ((metaBytes record).drop 16) = recordDims record := by
  have hread : leWords 8 (recordDims record).length (leString 8 (recordDims record) ++ [])
      = recordDims record := leWords_leString (fun w hw => (h.dims_lt w hw : w < 256 ^ 8)) []
  rw [List.append_nil] at hread
  rw [metaBytes, leString_cons, leString_cons, ← List.append_assoc, List.drop_left' (by
    rw [List.length_append, length_leBytes, length_leBytes])]
  exact hread

/-- **What stands in the file** the scan accepts, if no record before has its name. -/
theorem yields_scanRecord {image : List Byte} (hsize : image.length < usizeLimit) {p stop : ℕ}
    {record : Rec} (h : Committed image p stop record) {out : List Rec}
    (hnew : (out.any fun other => other.name = record.name) = false) :
    Update.Yields (record, stop)
      (scanRecord (imageFile image) ⟨true, true, true⟩ image.length p out) := by
  obtain ⟨payload, elements, hbytes, rfl, hproduct, hpayload⟩ := h.payload
  obtain ⟨hhead, hbody, hmarker⟩ := parts_of_recordBytes hbytes
  have hfits := headWords_lt h.inFile hsize rfl
  obtain ⟨hnamePos, hnameLe, hutf8, hzero, hglobal, hrank, hdimsLt, hscalar, hoffset, _, hstopLe,
    hstop64⟩ := h.inFile
  have hlenEq : recordLen record payload.length = recordHeaderBytes + record.name.length
    + (16 + 8 * (recordDims record).length) + payload.length + 8 := rfl
  have hdimsLen : (recordDims record).length = record.global.length + record.extra.length :=
    List.length_append
  have hheaderBytes : recordHeaderBytes = 72 := rfl
  have hlimits : maxProtocolRank = 1024 ∧ maxHeaderBytes = 1048576 ∧ i64Max < usizeLimit :=
    ⟨rfl, rfl, by decide⟩
  obtain ⟨hmaxRank, hmaxHeader, hi64⟩ := hlimits
  have hword : ∀ i w, (headWords record payload.length)[i]? = some w →
      leValue (((recordMagic ++ leString 8 (headWords record payload.length)).drop
        (8 + 8 * i)).take 8) = w := by
    intro i w hw
    have hread := word_between recordMagic hfits hw []
    rwa [List.append_nil] at hread
  have hheadLen := length_headWords record payload.length
  unfold scanRecord
  refine yields_bind (yields_demand (checkedSub_eq_some.mpr ⟨by omega, rfl⟩)) ?_
  refine yields_bind (yields_stopUnless (decide_eq_true (by omega))) ?_
  refine yields_bind (yields_rootRead _ (by omega) (by omega)) ?_
  rw [hhead]
  refine yields_bind (yields_wordAt (by decide) (by omega)) ?_
  refine yields_bind (yields_wordAt (by decide) (by omega)) ?_
  rw [hword 0 version rfl, hword 7 0 rfl]
  refine yields_bind (yields_stopUnless ?_) ?_
  · have hmagic : (recordMagic ++ leString 8 (headWords record payload.length)).take 8
        = recordMagic := List.take_left' rfl
    rw [hmagic]
    rfl
  refine yields_bind (yields_wordAt (by decide) (by omega)) ?_
  rw [hword 1 record.name.length rfl]
  refine yields_bind (yields_orStop (option_filter_eq_some.mpr ⟨rfl, ?_⟩)) ?_
  · rw [Bool.and_eq_true, decide_eq_true_eq, decide_eq_true_eq]
    exact ⟨hnamePos, hnameLe⟩
  refine yields_bind (yields_wordAt (by decide) (by omega)) ?_
  rw [hword 2 _ rfl]
  refine yields_bind (yields_orStop (option_filter_eq_some.mpr ⟨rfl, decide_eq_true ?_⟩)) ?_
  · omega
  refine yields_bind (yields_wordAt (by decide) (by omega)) ?_
  rw [hword 3 _ rfl]
  refine yields_bind (yields_orStop rfl) ?_
  refine yields_bind (yields_wordAt (by decide) (by omega)) ?_
  rw [hword 4 _ rfl]
  refine yields_bind (yields_orStop rfl) ?_
  refine yields_bind (yields_orStop (option_filter_eq_some.mpr
    ⟨checkedAdd_eq_some.mpr ⟨by omega, rfl⟩, ?_⟩)) ?_
  · rw [Bool.and_eq_true, decide_eq_true_eq, decide_eq_true_eq]
    exact ⟨hstopLe, hstop64⟩
  refine yields_bind (yields_stopUnless (decide_eq_true ?_)) ?_
  · exact minimum_eq (by omega)
  refine yields_bind (yields_orStop (checkedAdd_eq_some.mpr ⟨by omega, rfl⟩)) ?_
  refine yields_bind (yields_reserve _) ?_
  refine yields_bind (yields_demand (checkedAdd_eq_some.mpr ⟨by omega, rfl⟩)) ?_
  refine yields_bind (yields_rootRead _ (by omega) (by omega)) ?_
  rw [hbody]
  have hname : ((record.name ++ metaBytes record).drop 0).take (record.name.length - 0)
      = record.name := by
    rw [List.drop_zero, Nat.sub_zero]
    exact List.take_left
  refine yields_bind (yields_demand (slice?_eq (Nat.zero_le _) ?_)) ?_
  · rw [List.length_append]
    omega
  rw [hname]
  refine yields_bind (yields_stopUnless ?_) ?_
  · rw [hutf8, hzero, hnew]
    rfl
  have hmetadata : ((record.name ++ metaBytes record).drop record.name.length).take
      ((record.name ++ metaBytes record).length - record.name.length) = metaBytes record := by
    rw [List.drop_left, List.length_append, Nat.add_sub_cancel_left, List.take_length]
  refine yields_bind (yields_demand (slice?_eq ?_ le_rfl)) ?_
  · rw [List.length_append]
    omega
  rw [hmetadata]
  have hmetadataLen := length_metaBytes record
  have hmetaWord := metaWord_eq h.inFile
  have hdims := metaDims_eq h.inFile
  refine yields_bind (yields_wordAt (by decide) (by omega)) ?_
  rw [hmetaWord 0 _ rfl]
  refine yields_bind (yields_orStop (option_filter_eq_some.mpr ⟨rfl, ?_⟩)) ?_
  · rw [Bool.and_eq_true, decide_eq_true_eq, decide_eq_true_eq]
    exact ⟨hglobal, by omega⟩
  refine yields_bind (yields_wordAt (by decide) (by omega)) ?_
  rw [hmetaWord 1 _ rfl]
  refine yields_bind (yields_orStop (option_filter_eq_some.mpr ⟨rfl, decide_eq_true ?_⟩)) ?_
  · omega
  have hrankFits : record.global.length + record.extra.length < usizeLimit := by omega
  refine yields_bind (yields_orStop (option_filter_eq_some.mpr
    ⟨checkedAdd_eq_some.mpr ⟨hrankFits, rfl⟩, decide_eq_true ?_⟩)) ?_
  · omega
  have hsmall : min ((record.global.length + record.extra.length) * 8) (usizeLimit - 1)
      = 8 * (recordDims record).length := by
    rw [Nat.min_eq_left (by unfold usizeLimit; omega)]
    omega
  rw [hsmall]
  refine yields_bind (yields_orStop (checkedAdd_eq_some.mpr ⟨by omega, rfl⟩)) ?_
  refine yields_bind (yields_stopUnless (decide_eq_true rfl)) ?_
  refine yields_bind (yields_reserve _) ?_
  rw [← hdimsLen]
  refine yields_bind (x := (recordDims record, elements)) ?_ ?_
  · have hread : Update.Yields _ (readDims (metaBytes record) (recordDims record).length) :=
      yields_readDims hrank hmetadataLen (hdims ▸ hproduct)
    rwa [hdims] at hread
  refine yields_bind (yields_wordAt (by decide) (by omega)) ?_
  rw [hword 5 _ rfl]
  refine yields_bind (yields_orStop rfl) ?_
  refine yields_bind (yields_wordAt (by decide) (by omega)) ?_
  rw [hword 6 _ rfl]
  refine yields_bind (yields_orStop rfl) ?_
  refine yields_bind (yields_stopUnless ?_) ?_
  · rw [hscalar, checkedMul_eq_some.mpr ⟨by omega, hpayload.symm⟩]
    exact decide_eq_true rfl
  have hmarkerPlace : p + recordLen record payload.length - 8
      = p + (recordLen record payload.length - 8) := by omega
  refine yields_bind (yields_demand (checkedSub_eq_some.mpr ⟨by omega, hmarkerPlace⟩)) ?_
  refine yields_bind (yields_rootRead _ (by omega) (by omega)) ?_
  rw [hmarker]
  refine yields_bind (yields_stopUnless (decide_eq_true ?_)) ?_
  · exact leValue_leBytes_of_lt (by decide)
  refine yields_bind (yields_reserve _) ?_
  have hextra : ((recordDims record).drop record.global.length).take
      ((recordDims record).length - record.global.length) = record.extra := by
    rw [recordDims, List.drop_left, List.length_append, Nat.add_sub_cancel_left, List.take_length]
  refine yields_bind (yields_demand (slice?_eq (by omega) le_rfl)) ?_
  rw [hextra]
  have hplace : (do
      let x ← checkedAdd p recordHeaderBytes
      let x ← checkedAdd x record.name.length
      checkedAdd x (16 + 8 * (recordDims record).length)) = some record.payloadOffset := by
    rw [hoffset]
    exact Option.bind_eq_some_iff.mpr ⟨_, checkedAdd_eq_some.mpr ⟨by omega, rfl⟩,
      Option.bind_eq_some_iff.mpr ⟨_, checkedAdd_eq_some.mpr ⟨by omega, rfl⟩,
        checkedAdd_eq_some.mpr ⟨by omega, rfl⟩⟩⟩
  refine yields_bind (yields_demand hplace) ?_
  have hglobalEq : (recordDims record).take record.global.length = record.global := List.take_left
  rw [hglobalEq]
  exact Update.yields_pure _

end Reads

end PencilRs.Analysis
