import PencilRs.Model.Container

/-!
# Scanning a container

Every record the scan accepts ends after it begins and within the file, and its fields are those
of a record.  With the checks in this order no step leaves the machine integers, and no read
leaves the file.  A decoder that is given arbitrary bytes never leaves them either.
-/

set_option autoImplicit false

namespace PencilRs.Analysis

open PencilRs.Computation PencilRs.Model NamedMpi Update

variable {ε : Type}

/-! ## Words and reads -/

/-- Every read lies in the file. -/
def ReadsInside (size : ℕ) (reads : Reads) : Prop := ∀ q ∈ reads, q.1 + q.2 ≤ size

theorem leValue_word_lt (bytes : List Byte) (p : ℕ) :
    leValue ((bytes.drop p).take 8) < usizeLimit := by
  have hlt := leValue_lt ((bytes.drop p).take 8)
  have hle : ((bytes.drop p).take 8).length ≤ 8 := List.length_take_le _ _
  exact hlt.trans_le (Nat.pow_le_pow_right (by decide) hle)

theorem u64At_eq {bytes : List Byte} {p : ℕ} (h : p + 8 < usizeLimit) :
    u64At bytes p = some (if p + 8 ≤ bytes.length then some (leValue ((bytes.drop p).take 8))
      else none) := by
  unfold u64At
  rw [checkedAdd_eq_some.mpr ⟨h, rfl⟩]
  rfl

theorem keeps_wordAt {inv : Reads → Prop} {bad : ε → Prop} {bytes : List Byte} {p : ℕ} (h : p + 8 < usizeLimit) :
    Keeps inv bad (fun word => ∀ w, word = some w → w < usizeLimit) (wordAt bytes p) := by
  apply keeps_demand (u64At_eq h)
  intro w hw
  by_cases hlen : p + 8 ≤ bytes.length
  · rw [if_pos hlen] at hw
    exact Option.some.inj hw ▸ leValue_word_lt bytes p
  · rw [if_neg hlen] at hw
    contradiction

/-- Reads inside the file fail only for a reason the caller knows. -/
def ReadsOrFails (file : NativeFile) (size : ℕ) (bad : Prop) : Prop :=
  ∀ offset len, offset + len ≤ size → offset ≤ i64Max → file offset len = none → bad

theorem keeps_rootRead {size : ℕ} {file : NativeFile} {offset len : ℕ} {failure : ε}
    {bad : ε → Prop} (hfile : ReadsOrFails file size (bad failure)) (h : offset + len ≤ size)
    (hoffset : offset ≤ i64Max) :
    Keeps (ReadsInside size) bad (fun bytes => bytes.length = len)
      (rootRead file offset len failure) := by
  unfold rootRead
  rw [decide_eq_true hoffset]
  apply keeps_bind (keeps_checked (fun _ _ => trivial) nofun)
  intro _ _ reads hreads
  refine ⟨_, _, rfl, ?_, ?_⟩
  · intro q hq
    rcases List.mem_append.mp hq with hold | hnew
    · exact hreads q hold
    · rw [List.mem_singleton.mp hnew]
      exact h
  · cases hread : file offset len with
    | none =>
      refine ⟨nofun, fun e he => ?_⟩
      rw [← Except.error.inj he]
      exact hfile offset len h hoffset hread
    | some read =>
      refine ⟨fun bytes hbytes => ?_, nofun⟩
      exact Except.ok.inj hbytes ▸ read.2

section Halts

variable {ι : Type} {inv : Reads → Prop} {bad : ScanHalt → Prop}

theorem keeps_orStop (hstop : bad .stop) {value : Option ι} :
    Keeps inv bad (fun x => value = some x) (orStop value) :=
  keeps_checked (fun _ h => okOr_eq_ok.mp h) fun _ h => (okOr_eq_error.mp h).2 ▸ hstop

theorem keeps_stopUnless (hstop : bad .stop) {cond : Bool} :
    Keeps inv bad (fun _ => cond = true) (stopUnless cond) := by
  cases cond with
  | false => exact keeps_checked nofun fun _ h => Except.error.inj h ▸ hstop
  | true => exact keeps_checked (fun _ _ => rfl) nofun

theorem keeps_reserve {granted : Bool} {status : ScanStatus}
    (h : granted = false → bad (.fail status)) :
    Keeps inv bad (fun _ => True) (reserve granted status) := by
  cases granted with
  | false => exact keeps_checked nofun fun _ he => Except.error.inj he ▸ h rfl
  | true => exact keeps_checked (fun _ _ => trivial) nofun

end Halts

/-! ## One record -/

/-- The dimensions of a record, the spatial ones first. -/
def recordDims (record : Rec) : List ℕ := record.global ++ record.extra

/-- The record stands in a file of `size` bytes from `start` up to `stop`. -/
structure RecordAt (size start stop : ℕ) (record : Rec) : Prop where
  name_pos : 0 < record.name.length
  name_le : record.name.length ≤ maxName
  name_utf8 : isUtf8 record.name = true
  name_zero : record.name.contains 0 = false
  global_pos : 0 < record.global.length
  rank_le : (recordDims record).length ≤ maxProtocolRank
  dims_lt : ∀ d ∈ recordDims record, d < usizeLimit
  scalar : (ScalarType.decode record.typ record.width).isSome = true
  offset : record.payloadOffset
    = start + recordHeaderBytes + record.name.length + (16 + 8 * (recordDims record).length)
  payload : ∃ elements, (recordDims record).foldlM checkedMul 1 = some elements ∧
    elements * record.width < usizeLimit ∧
    stop = record.payloadOffset + elements * record.width + 8
  stop_le : stop ≤ size
  stop_le_i64 : stop ≤ i64Max

theorem RecordAt.start_lt {size start stop : ℕ} {record : Rec}
    (h : RecordAt size start stop record) : start < stop := by
  obtain ⟨elements, _, _, hstop⟩ := h.payload
  have := h.offset
  omega

theorem keeps_readDims {inv : Reads → Prop} {bad : ScanHalt → Prop} (hstop : bad .stop) (metadata : List Byte) {rank : ℕ}
    (hrank : rank ≤ maxProtocolRank) :
    Keeps inv bad (fun q => q.1.length = rank ∧ q.1.foldlM checkedMul 1 = some q.2 ∧
      ∀ d ∈ q.1, d < usizeLimit) (readDims metadata rank) := by
  unfold readDims
  apply keeps_foldlM_range fun k (q : List ℕ × ℕ) =>
    q.1.length = k ∧ q.1.foldlM checkedMul 1 = some q.2 ∧ ∀ d ∈ q.1, d < usizeLimit
  · exact ⟨rfl, rfl, nofun⟩
  · rintro k hk ⟨dims, elements⟩ ⟨hlen, hproduct, hlt⟩
    unfold maxProtocolRank at hrank
    have hmul : k * 8 < usizeLimit := by
      unfold usizeLimit
      omega
    have hadd : 16 + k * 8 < usizeLimit := by
      unfold usizeLimit
      omega
    have hend : 16 + k * 8 + 8 < usizeLimit := by
      unfold usizeLimit
      omega
    apply keeps_bind (keeps_demand (checkedMul_eq_some.mpr ⟨hmul, rfl⟩) rfl)
    rintro _ rfl
    apply keeps_bind (keeps_demand (checkedAdd_eq_some.mpr ⟨hadd, rfl⟩) rfl)
    rintro _ rfl
    apply keeps_bind (keeps_wordAt hend)
    intro word hword
    apply keeps_bind (keeps_orStop hstop)
    intro d hd
    apply keeps_bind (keeps_orStop hstop)
    intro next hnext
    apply keeps_pure
    refine ⟨by simp [hlen], ?_, ?_⟩
    · rw [List.foldlM_append, hproduct]
      show (checkedMul elements d >>= fun x => pure x) = _
      rw [hnext]
      rfl
    · intro x hx
      rcases List.mem_append.mp hx with hold | hnew
      · exact hlt x hold
      · rw [List.mem_singleton.mp hnew]
        exact hword d hd

theorem option_filter_eq_some {value : Option ℕ} {cond : ℕ → Bool} {x : ℕ} :
    value.filter cond = some x ↔ value = some x ∧ cond x = true := by
  cases value with
  | none => simp
  | some y =>
    by_cases hy : cond y = true
    · rw [Option.filter_some_pos hy]
      constructor
      · intro h
        exact ⟨h, Option.some.inj h ▸ hy⟩
      · exact fun h => h.1
    · rw [Option.filter_some_neg (by simpa using hy)]
      constructor
      · intro h
        contradiction
      · rintro ⟨h, hx⟩
        exact absurd (Option.some.inj h ▸ hx) hy

/-- What the scan of a record ends with where it accepts none. -/
structure HaltsIn (file : NativeFile) (alloc : RecordAllocator) (size : ℕ)
    (bad : ScanHalt → Prop) : Prop where
  stop : bad .stop
  read : ReadsOrFails file size (bad (.fail .metadataRead))
  body : alloc.body = false → bad (.fail .allocation)
  dimensions : alloc.dimensions = false → bad (.fail .dimensionsAllocation)
  index : alloc.index = false → bad (.fail .indexAllocation)

/-- **One record.**  The scan of a record stays in the file and in the machine integers, and a
record it accepts stands in the file where the scan goes on. -/
theorem keeps_scanRecord {size p : ℕ} (hsize : size < usizeLimit) (hp : p < size)
    (hp64 : p ≤ i64Max) {file : NativeFile} {alloc : RecordAllocator} {bad : ScanHalt → Prop}
    (hbad : HaltsIn file alloc size bad) (out : List Rec) :
    Keeps (ReadsInside size) bad (fun q => RecordAt size p q.2 q.1)
      (scanRecord file alloc size p out) := by
  have hstop := hbad.stop
  unfold scanRecord
  apply keeps_bind (keeps_demand (checkedSub_eq_some.mpr ⟨hp.le, rfl⟩) rfl)
  rintro _ rfl
  apply keeps_bind (keeps_stopUnless hstop)
  intro _ hleft
  have hheader : p + recordHeaderBytes ≤ size := by
    have := of_decide_eq_true hleft
    omega
  apply keeps_bind (keeps_rootRead hbad.read hheader hp64)
  intro rh hrh
  apply keeps_bind (keeps_wordAt (by decide))
  intro recordVersion _
  apply keeps_bind (keeps_wordAt (by decide))
  intro reserved _
  apply keeps_bind (keeps_stopUnless hstop)
  intro _ _
  apply keeps_bind (keeps_wordAt (by decide))
  intro nameWord _
  apply keeps_bind (keeps_orStop hstop)
  intro nl hnl
  obtain ⟨_, hnl⟩ := option_filter_eq_some.mp hnl
  rw [Bool.and_eq_true, decide_eq_true_eq, decide_eq_true_eq] at hnl
  apply keeps_bind (keeps_wordAt (by decide))
  intro metaWord _
  apply keeps_bind (keeps_orStop hstop)
  intro ml hml
  obtain ⟨_, hml⟩ := option_filter_eq_some.mp hml
  rw [decide_eq_true_eq] at hml
  apply keeps_bind (keeps_wordAt (by decide))
  intro payloadWord _
  apply keeps_bind (keeps_orStop hstop)
  intro payload _
  apply keeps_bind (keeps_wordAt (by decide))
  intro totalWord _
  apply keeps_bind (keeps_orStop hstop)
  intro total _
  apply keeps_bind (keeps_orStop hstop)
  intro stop hend
  obtain ⟨hend, hbounds⟩ := option_filter_eq_some.mp hend
  rw [Bool.and_eq_true, decide_eq_true_eq, decide_eq_true_eq] at hbounds
  obtain ⟨_, rfl⟩ := checkedAdd_eq_some.mp hend
  apply keeps_bind (keeps_stopUnless hstop)
  intro _ hminimum
  have htotal : recordHeaderBytes + nl + ml + payload + 8 = total := by
    obtain ⟨a, ha, hminimum⟩ := Option.bind_eq_some_iff.mp (of_decide_eq_true hminimum)
    obtain ⟨b, hb, hminimum⟩ := Option.bind_eq_some_iff.mp hminimum
    obtain ⟨c, hc, hminimum⟩ := Option.bind_eq_some_iff.mp hminimum
    obtain ⟨_, rfl⟩ := checkedAdd_eq_some.mp ha
    obtain ⟨_, rfl⟩ := checkedAdd_eq_some.mp hb
    obtain ⟨_, rfl⟩ := checkedAdd_eq_some.mp hc
    exact (checkedAdd_eq_some.mp hminimum).2
  apply keeps_bind (keeps_orStop hstop)
  intro bodyLen hbody
  obtain ⟨_, rfl⟩ := checkedAdd_eq_some.mp hbody
  apply keeps_bind (keeps_reserve hbad.body)
  intro _ _
  apply keeps_bind (keeps_demand (checkedAdd_eq_some.mpr ⟨by omega, rfl⟩) rfl)
  rintro _ rfl
  apply keeps_bind (keeps_rootRead hbad.read (by omega) (by omega))
  intro body hbodyLen
  apply keeps_bind (keeps_demand (slice?_eq (Nat.zero_le _) (by omega)) rfl)
  rintro _ rfl
  apply keeps_bind (keeps_stopUnless hstop)
  intro _ hname
  rw [Bool.and_eq_true, Bool.and_eq_true] at hname
  apply keeps_bind (keeps_demand (slice?_eq (by omega) le_rfl) rfl)
  rintro _ rfl
  apply keeps_bind (keeps_wordAt (by decide))
  intro spatialWord _
  apply keeps_bind (keeps_orStop hstop)
  intro nr hnr
  obtain ⟨_, hnr⟩ := option_filter_eq_some.mp hnr
  rw [Bool.and_eq_true, decide_eq_true_eq, decide_eq_true_eq] at hnr
  apply keeps_bind (keeps_wordAt (by decide))
  intro extraWord _
  apply keeps_bind (keeps_orStop hstop)
  intro er _
  apply keeps_bind (keeps_orStop hstop)
  intro rank hrank
  obtain ⟨hrank, hrankLe⟩ := option_filter_eq_some.mp hrank
  rw [decide_eq_true_eq] at hrankLe
  obtain ⟨_, rfl⟩ := checkedAdd_eq_some.mp hrank
  apply keeps_bind (keeps_orStop hstop)
  intro need hneed
  obtain ⟨_, rfl⟩ := checkedAdd_eq_some.mp hneed
  apply keeps_bind (keeps_stopUnless hstop)
  intro _ hml'
  have hmeta := of_decide_eq_true hml'
  apply keeps_bind (keeps_reserve hbad.dimensions)
  intro _ _
  apply keeps_bind (keeps_readDims hstop _ hrankLe)
  rintro ⟨dims, elements⟩ ⟨hdims, hproduct, hlt⟩
  apply keeps_bind (keeps_wordAt (by decide))
  intro typWord _
  apply keeps_bind (keeps_orStop hstop)
  intro typ _
  apply keeps_bind (keeps_wordAt (by decide))
  intro widthWord _
  apply keeps_bind (keeps_orStop hstop)
  intro width _
  apply keeps_bind (keeps_stopUnless hstop)
  intro _ hscalar
  rw [Bool.and_eq_true, decide_eq_true_eq] at hscalar
  obtain ⟨hfits, hpayload⟩ := checkedMul_eq_some.mp hscalar.2
  apply keeps_bind (keeps_demand (checkedSub_eq_some.mpr ⟨by omega, rfl⟩) rfl)
  rintro _ rfl
  apply keeps_bind (keeps_rootRead hbad.read (by omega) (by omega))
  intro marker _
  apply keeps_bind (keeps_stopUnless hstop)
  intro _ _
  apply keeps_bind (keeps_reserve hbad.index)
  intro _ _
  simp only at hdims
  apply keeps_bind (keeps_demand (slice?_eq (by omega) le_rfl) rfl)
  rintro _ rfl
  have hoffset : (do
      let x ← checkedAdd p recordHeaderBytes
      let x ← checkedAdd x nl
      checkedAdd x ml) = some (p + recordHeaderBytes + nl + ml) := by
    rw [checkedAdd_eq_some.mpr ⟨show p + recordHeaderBytes < usizeLimit by omega, rfl⟩]
    simp only [Option.bind_eq_bind, Option.bind_some]
    rw [checkedAdd_eq_some.mpr ⟨show p + recordHeaderBytes + nl < usizeLimit by omega, rfl⟩]
    exact checkedAdd_eq_some.mpr ⟨by omega, rfl⟩
  apply keeps_bind (keeps_demand hoffset rfl)
  rintro _ rfl
  apply keeps_pure
  have hnameLen : ((body.drop 0).take (nl - 0)).length = nl := by
    simp only [List.drop_zero, Nat.sub_zero, List.length_take]
    omega
  have hsplit : dims.take nr ++ (dims.drop nr).take (dims.length - nr) = dims := by
    rw [List.take_of_length_le List.length_drop.le, List.take_append_drop]
  have hspatial : (dims.take nr).length = nr := by
    rw [List.length_take]
    omega
  have hneedEq : 16 + 8 * (nr + er) = ml := by
    have hsmall : (nr + er) * 8 ≤ usizeLimit - 1 := by
      unfold maxProtocolRank at hrankLe
      unfold usizeLimit
      omega
    rw [Nat.min_eq_left hsmall] at hmeta
    omega
  constructor
  · rw [hnameLen]
    exact hnl.1
  · rw [hnameLen]
    exact hnl.2
  · exact hname.1.1
  · simpa using hname.1.2
  · rw [hspatial]
    exact hnr.1
  · show (dims.take nr ++ _).length ≤ _
    rw [hsplit, hdims]
    exact hrankLe
  · show ∀ d ∈ dims.take nr ++ _, _
    rw [hsplit]
    exact hlt
  · exact hscalar.1
  · show p + recordHeaderBytes + nl + ml
      = p + recordHeaderBytes + _ + (16 + 8 * (dims.take nr ++ _).length)
    rw [hnameLen, hsplit, hdims, hneedEq]
  · refine ⟨elements, ?_, hfits, ?_⟩
    · show (dims.take nr ++ _).foldlM _ _ = _
      rw [hsplit]
      exact hproduct
    · show p + total = p + recordHeaderBytes + nl + ml + elements * width + 8
      omega
  · exact hbounds.1
  · exact hbounds.2

/-! ## The loop over the records -/

/-- The records stand one after another from `start` up to `tail`. -/
def Chained (size : ℕ) : ℕ → List Rec → ℕ → Prop
  | start, [], tail => start = tail
  | start, record :: rest, tail => ∃ stop, RecordAt size start stop record ∧
      Chained size stop rest tail

theorem Chained.snoc {size start stop tail : ℕ} {records : List Rec} {record : Rec}
    (h : Chained size start records stop) (hrecord : RecordAt size stop tail record) :
    Chained size start (records ++ [record]) tail := by
  induction records generalizing start with
  | nil =>
    obtain rfl : start = stop := h
    exact ⟨tail, hrecord, rfl⟩
  | cons first rest ih =>
    obtain ⟨next, hfirst, hrest⟩ := h
    exact ⟨next, hfirst, ih hrest⟩

theorem Chained.length_le {size start tail : ℕ} {records : List Rec}
    (h : Chained size start records tail) : start + records.length ≤ tail := by
  induction records generalizing start with
  | nil =>
    obtain rfl : start = tail := h
    exact le_rfl
  | cons first rest ih =>
    obtain ⟨next, hfirst, hrest⟩ := h
    have hlt := hfirst.start_lt
    have := ih hrest
    rw [List.length_cons]
    omega

theorem runOn_untilStop {ι : Type} (step : Update ScanHalt Reads ι) (reads : Reads) :
    (untilStop step).runOn reads = (step.runOn reads).map fun q => (match q.1 with
      | .ok x => .ok (some x)
      | .error .stop => .ok none
      | .error (.fail status) => .error status, q.2) := rfl

/-- A failure of the step is a failure of the scan. -/
def FailsAs (bad : ScanStatus → Prop) : ScanHalt → Prop
  | .stop => True
  | .fail status => bad status

theorem keeps_untilStop {ι : Type} {inv : Reads → Prop} {bad : ScanStatus → Prop}
    {post : ι → Prop} {step : Update ScanHalt Reads ι} (h : Keeps inv (FailsAs bad) post step) :
    Keeps inv bad (fun o => ∀ x, o = some x → post x) (untilStop step) := by
  intro reads hreads
  obtain ⟨r, reads', hrun, hinv, hpost, hbad⟩ := h reads hreads
  rw [runOn_untilStop, hrun]
  refine ⟨_, reads', rfl, hinv, ?_, ?_⟩
  · intro o ho x hx
    subst hx
    cases r with
    | ok y =>
      cases ho
      exact hpost x rfl
    | error halt => cases halt <;> cases ho
  · intro status hstatus
    cases r with
    | ok y => cases hstatus
    | error halt =>
      cases halt with
      | stop => cases hstatus
      | fail status' =>
        cases hstatus
        exact hbad _ rfl

/-- What the scan fails with. -/
structure FailsIn (file : NativeFile) (alloc : ℕ → RecordAllocator) (size maxRecords : ℕ)
    (bad : ScanStatus → Prop) : Prop where
  limit : maxRecords < size → bad .recordLimit
  record : ∀ k, HaltsIn file (alloc k) size (FailsAs bad)

section Loop

variable {size maxRecords : ℕ} {file : NativeFile} {alloc : ℕ → RecordAllocator}
  {bad : ScanStatus → Prop}

/-- What a scan without an error returns: the committed records, one after another from the
header up to a tail in the file. -/
structure ScanReturns (size maxRecords : ℕ) (q : List Rec × ℕ) : Prop where
  chained : Chained size containerBytes q.1 q.2
  tail_le : q.2 ≤ size
  tail_le_i64 : q.2 ≤ i64Max
  count_le : q.1.length ≤ maxRecords

/-- **The loop** returns within the fuel that reaches the end of the file. -/
theorem keeps_scanLoop (hsize : size < usizeLimit) (hbad : FailsIn file alloc size maxRecords bad)
    {fuel p : ℕ} (hfuel : size < p + fuel) (hp : p ≤ size) (hp64 : p ≤ i64Max) {out : List Rec}
    (hout : Chained size containerBytes out p) (hcount : out.length ≤ maxRecords) :
    Keeps (ReadsInside size) bad (ScanReturns size maxRecords)
      (scanLoop file alloc size maxRecords fuel p out) := by
  induction fuel generalizing p out with
  | zero => omega
  | succ fuel ih =>
    unfold scanLoop
    by_cases hmore : p < size
    · rw [if_pos hmore]
      have hlimit : Keeps (ReadsInside size) bad (fun _ => out.length ≠ maxRecords)
          (Update.checked (ensure (out.length ≠ maxRecords) .recordLimit)) := by
        apply keeps_checked fun _ h => of_decide_eq_true (ensure_eq_ok.mp h)
        intro status hstatus
        by_cases hreached : out.length = maxRecords
        · rw [decide_eq_false (not_not.mpr hreached)] at hstatus
          rw [← Except.error.inj hstatus]
          have := hout.length_le
          exact hbad.limit (by omega)
        · rw [decide_eq_true hreached] at hstatus
          contradiction
      apply keeps_bind hlimit
      intro _ hbelow
      apply keeps_bind (keeps_untilStop (keeps_scanRecord hsize hmore hp64 (hbad.record _) out))
      rintro (_ | ⟨record, stop⟩) hrecord
      · exact keeps_pure ⟨hout, hp, hp64, hcount⟩
      · have hat := hrecord _ rfl
        have hlt := hat.start_lt
        apply ih (by omega) hat.stop_le hat.stop_le_i64 (hout.snoc hat)
        rw [List.length_append, List.length_singleton]
        omega
    · rw [if_neg hmore]
      exact keeps_pure ⟨hout, hp, hp64, hcount⟩

theorem keeps_scanHeader (hheader : bad .containerHeader)
    (hread : ReadsOrFails file size (bad .metadataRead)) :
    Keeps (ReadsInside size) bad (fun _ => containerBytes ≤ size) (scanHeader file size) := by
  have hensure : ∀ cond, ∀ status,
      ensure cond ScanStatus.containerHeader = .error status → bad status := by
    intro cond status hstatus
    cases cond with
    | false => exact Except.error.inj hstatus ▸ hheader
    | true => contradiction
  unfold scanHeader
  apply keeps_bind (keeps_checked (fun _ h => h) (hensure _))
  intro _ hsize
  have hsize := of_decide_eq_true (ensure_eq_ok.mp hsize)
  apply keeps_bind (keeps_rootRead hread (by omega) (Nat.zero_le _))
  intro header _
  apply keeps_bind (keeps_wordAt (by decide))
  intro containerVersion _
  apply keeps_bind (keeps_wordAt (by decide))
  intro headerSize _
  apply keeps_bind (keeps_wordAt (by decide))
  intro reserved _
  exact keeps_checked (fun _ _ => hsize) (hensure _)

theorem size_lt_of_fuel {fuel : ℕ} (h : size ≤ fuel) : size < containerBytes + fuel := by
  have : 0 < containerBytes := by decide
  omega

/-- **The whole scan.** -/
theorem keeps_scanRoot (hsize : size < usizeLimit) (hheader : bad .containerHeader)
    (hread : ReadsOrFails file size (bad .metadataRead))
    (hbad : FailsIn file alloc size maxRecords bad) {fuel : ℕ} (hfuel : size ≤ fuel) :
    Keeps (ReadsInside size) bad (ScanReturns size maxRecords)
      (scanRoot fuel file alloc size maxRecords) :=
  keeps_bind (keeps_scanHeader hheader hread) fun _ h =>
    keeps_scanLoop hsize hbad (size_lt_of_fuel hfuel) h (by decide) rfl (Nat.zero_le _)

end Loop

/-! ## Fuel -/

section Fuel

variable {size : ℕ} (hsize : size < usizeLimit) (file : NativeFile)
  (alloc : ℕ → RecordAllocator) (maxRecords : ℕ)

theorem failsIn_any : FailsIn file alloc size maxRecords fun _ => True where
  limit _ := trivial
  record k := {
    stop := trivial
    read := fun _ _ _ _ _ => trivial
    body := fun _ => trivial
    dimensions := fun _ => trivial
    index := fun _ => trivial }

include hsize

/-- More fuel changes nothing. -/
theorem scanLoop_fuel {fuel fuel' p : ℕ} (hfuel : size < p + fuel) (hfuel' : size < p + fuel')
    (hp : p ≤ size) (hp64 : p ≤ i64Max) (out : List Rec) {reads : Reads}
    (hreads : ReadsInside size reads) :
    (scanLoop file alloc size maxRecords fuel p out).runOn reads
      = (scanLoop file alloc size maxRecords fuel' p out).runOn reads := by
  induction fuel generalizing fuel' p out reads with
  | zero => omega
  | succ fuel ih =>
    cases fuel' with
    | zero => omega
    | succ fuel' =>
      unfold scanLoop
      by_cases hmore : p < size
      · rw [if_pos hmore, if_pos hmore, runOn_checked_bind, runOn_checked_bind]
        cases ensure (out.length ≠ maxRecords) ScanStatus.recordLimit with
        | error status => rfl
        | ok u =>
          have hany : FailsIn file alloc size maxRecords _ := failsIn_any file alloc maxRecords
          have hkeeps := keeps_untilStop
            (keeps_scanRecord hsize hmore hp64 (hany.record out.length) out)
          obtain ⟨r, reads', hrun, hinv, hpost, _⟩ := hkeeps reads hreads
          simp only
          rw [runOn_bind, runOn_bind, hrun]
          cases r with
          | error status => rfl
          | ok found =>
            cases found with
            | none => rfl
            | some q =>
              have hat := hpost _ rfl q rfl
              have hlt := hat.start_lt
              exact ih (by omega) (by omega) hat.stop_le hat.stop_le_i64 _ hinv
      · rw [if_neg hmore, if_neg hmore]

theorem scanRoot_fuel {fuel fuel' : ℕ} (hfuel : size ≤ fuel) (hfuel' : size ≤ fuel') :
    (scanRoot fuel file alloc size maxRecords).runOn []
      = (scanRoot fuel' file alloc size maxRecords).runOn [] := by
  have hkeeps : Keeps (ReadsInside size) (fun _ => True) (fun _ => containerBytes ≤ size)
      (scanHeader file size) := keeps_scanHeader trivial fun _ _ _ _ _ => trivial
  obtain ⟨r, reads, hrun, hinv, hheader, _⟩ := hkeeps [] nofun
  unfold scanRoot
  rw [runOn_bind, runOn_bind, hrun]
  cases r with
  | error status => rfl
  | ok u =>
    exact scanLoop_fuel hsize file alloc maxRecords (size_lt_of_fuel hfuel)
      (size_lt_of_fuel hfuel') (hheader u rfl) (by decide) [] hinv

/-- The scan has one result, whatever fuel reaches the end of the file. -/
theorem scanRoot_total : ∃ result reads, ReadsInside size reads ∧
    (∀ q, result = .ok q → ScanReturns size maxRecords q) ∧
    ∀ fuel, size ≤ fuel →
      (scanRoot fuel file alloc size maxRecords).runOn [] = some (result, reads) := by
  have hkeeps := keeps_scanRoot hsize trivial (fun _ _ _ _ _ => trivial)
    (failsIn_any file alloc maxRecords) (le_refl size)
  obtain ⟨result, reads, hrun, hinside, hpost, _⟩ := hkeeps [] nofun
  refine ⟨result, reads, hinside, hpost, fun fuel hfuel => ?_⟩
  rw [scanRoot_fuel hsize file alloc maxRecords hfuel le_rfl]
  exact hrun

end Fuel

/-! ## Decoding arbitrary bytes -/

/-- The call does not panic, and what it returns is in `post`. -/
def Calm {ι : Type} (post : ι → Prop) (r : Except (Stop Unit) ι) : Prop :=
  r ≠ .error .panic ∧ ∀ x, r = .ok x → post x

section Calm

variable {ι κ : Type} {post : ι → Prop} {good : κ → Prop}

theorem Calm.bind {r : Except (Stop Unit) ι} {k : ι → Except (Stop Unit) κ}
    (h : Calm post r) (hk : ∀ x, post x → Calm good (k x)) : Calm good (r >>= k) := by
  cases r with
  | error e => exact ⟨fun he => h.1 (congrArg _ (Except.error.inj he)), nofun⟩
  | ok x => exact hk x (h.2 x rfl)

theorem calm_ok {x : ι} (hx : post x) : Calm post (.ok x) :=
  ⟨nofun, fun _ hy => Except.ok.inj hy ▸ hx⟩

/-- `?` on a value that may be missing. -/
theorem calm_okOr {value : Option ι} : Calm (fun x => value = some x)
    (okOr value (.error ())) := by
  cases value with
  | none => exact ⟨nofun, nofun⟩
  | some x => exact calm_ok rfl

theorem calm_ensure {cond : Bool} : Calm (fun _ => cond = true)
    (ensure cond (.error ()) : Except (Stop Unit) Unit) := by
  cases cond with
  | false => exact ⟨nofun, nofun⟩
  | true => exact calm_ok rfl

theorem calm_foldlM_range {f : ι → ℕ → Except (Stop Unit) ι} (n : ℕ) {x : ι} (hx : post x)
    (hstep : ∀ k < n, ∀ x, post x → Calm post (f x k)) :
    Calm post ((List.range n).foldlM f x) := by
  induction n with
  | zero => exact calm_ok hx
  | succ n ih =>
    rw [List.range_succ, List.foldlM_append]
    refine (ih fun k hk => hstep k (by omega)).bind fun x' hx' => ?_
    rw [List.foldlM_cons]
    exact (hstep n (by omega) x' hx').bind fun _ h => calm_ok h

end Calm

section Decode

variable {bytes : List Byte} (hbytes : bytes.length ≤ i64Max)

include hbytes

theorem calm_catalogWord {offset : ℕ} (h : offset ≤ bytes.length) :
    Calm (fun q => q.2 ≤ bytes.length) (catalogWord bytes offset) := by
  have hfits : offset + 8 < usizeLimit := by
    unfold i64Max at hbytes
    unfold usizeLimit
    omega
  unfold catalogWord
  rw [u64At_eq hfits]
  show Calm _ (okOr _ _ >>= _)
  refine calm_okOr.bind fun word hword => ?_
  have hlen : offset + 8 ≤ bytes.length := by
    by_contra hlen
    rw [if_neg hlen] at hword
    contradiction
  refine calm_okOr.bind fun next hnext => ?_
  obtain ⟨_, rfl⟩ := checkedAdd_eq_some.mp hnext
  exact calm_ok hlen

omit hbytes in
theorem calm_catalogSlice (bytes : List Byte) (offset len : ℕ) :
    Calm (fun q => q.2 ≤ bytes.length) (catalogSlice bytes offset len) := by
  unfold catalogSlice
  refine calm_okOr.bind fun stop _ => ?_
  refine calm_okOr.bind fun slice hslice => ?_
  unfold slice? at hslice
  by_cases hstop : offset ≤ stop ∧ stop ≤ bytes.length
  · exact calm_ok hstop.2
  · rw [if_neg hstop] at hslice
    contradiction

theorem calm_decodeDims (rank : ℕ) {offset : ℕ} (h : offset ≤ bytes.length) :
    Calm (fun q => q.2.2 ≤ bytes.length) (decodeDims bytes rank offset) := by
  unfold decodeDims
  apply calm_foldlM_range rank
  · exact h
  · rintro k _ ⟨dims, elements, offset⟩ hoffset
    refine (calm_catalogWord hbytes hoffset).bind fun q hq => ?_
    exact calm_okOr.bind fun next _ => calm_ok hq

theorem calm_decodeRecord (alloc : EntryAllocator) (size start : ℕ) {offset : ℕ}
    (h : offset ≤ bytes.length) :
    Calm (fun q => q.2.1 ≤ bytes.length) (decodeRecord alloc bytes size offset start) := by
  unfold decodeRecord
  refine (calm_catalogWord hbytes h).bind fun nameLen hoffset => ?_
  refine calm_ensure.bind fun _ _ => ?_
  refine (calm_catalogWord hbytes hoffset).bind fun typ hoffset => ?_
  refine (calm_catalogWord hbytes hoffset).bind fun width hoffset => ?_
  refine (calm_catalogWord hbytes hoffset).bind fun spatial hoffset => ?_
  refine (calm_catalogWord hbytes hoffset).bind fun extraRank hoffset => ?_
  refine (calm_catalogWord hbytes hoffset).bind fun payloadOffset _ => ?_
  refine calm_ensure.bind fun _ _ => ?_
  refine calm_okOr.bind fun rank _ => ?_
  refine calm_ensure.bind fun _ _ => ?_
  refine (calm_catalogSlice bytes _ _).bind fun name hoffset => ?_
  refine calm_ensure.bind fun _ _ => ?_
  refine calm_okOr.bind fun metadataLen _ => ?_
  refine calm_okOr.bind fun headerLen _ => ?_
  refine calm_okOr.bind fun before _ => ?_
  refine calm_ensure.bind fun _ _ => ?_
  refine calm_ensure.bind fun _ _ => ?_
  refine calm_ensure.bind fun _ _ => ?_
  refine (calm_decodeDims hbytes _ hoffset).bind fun dims hoffset => ?_
  refine calm_okOr.bind fun payload _ => ?_
  refine calm_okOr.bind fun stop _ => ?_
  refine calm_ensure.bind fun _ _ => ?_
  refine calm_okOr.bind fun _ _ => ?_
  exact calm_ensure.bind fun _ _ => calm_ok hoffset

theorem decodeCatalog_ne_panic (granted : Bool) (alloc : ℕ → EntryAllocator)
    (count tail size : ℕ) : decodeCatalog granted alloc bytes count tail size ≠ .error .panic := by
  have h : Calm (fun _ => True) (decodeCatalog granted alloc bytes count tail size) := by
    unfold decodeCatalog
    refine calm_ensure.bind fun _ _ => ?_
    have hloop : Calm (fun q => q.2.1 ≤ bytes.length)
        ((List.range count).foldlM (fun (q : List Rec × ℕ × ℕ) i => do
          let found ← decodeRecord (alloc i) bytes size q.2.1 q.2.2
          return (q.1 ++ [found.1], found.2.1, found.2.2)) (([] : List Rec), 0,
            containerBytes)) := by
      apply calm_foldlM_range count
      · exact Nat.zero_le _
      · rintro k _ ⟨out, offset, start⟩ hoffset
        exact (calm_decodeRecord hbytes _ size start hoffset).bind fun _ hq => calm_ok hq
    exact hloop.bind fun _ _ => calm_ensure.bind fun _ _ => calm_ok trivial
  exact h.1

end Decode

/-- **Scanning is total.**  On any file the scan returns: its position grows with every record
and stays in the file, every read it issues lies in the file, and no sum, product, conversion or
index leaves its range, which would be a panic.  The decoder returns for any bytes a slice can
hold, any count, tail and size. -/
theorem container_scanning_total :
    (∀ (file : NativeFile) (alloc : ℕ → RecordAllocator) (size maxRecords : ℕ),
      size < usizeLimit → ∃ result reads, ReadsInside size reads ∧ ∀ fuel, size ≤ fuel →
        (scanRoot fuel file alloc size maxRecords).runOn [] = some (result, reads)) ∧
    (∀ (file : NativeFile) (alloc : RecordAllocator) (size p : ℕ) (out : List Rec)
      (reads : Reads), size < usizeLimit → p < size → p ≤ i64Max → ReadsInside size reads →
      ∃ result reads', (scanRecord file alloc size p out).runOn reads = some (result, reads') ∧
        ReadsInside size reads' ∧ ∀ record stop, result = .ok (record, stop) →
          p < stop ∧ stop ≤ size ∧ stop ≤ i64Max) ∧
    (∀ (granted : Bool) (alloc : ℕ → EntryAllocator) (bytes : List Byte) (count tail size : ℕ),
      bytes.length ≤ i64Max →
      decodeCatalog granted alloc bytes count tail size ≠ .error .panic) := by
  refine ⟨fun file alloc size maxRecords hsize => ?_, ?_, ?_⟩
  · obtain ⟨result, reads, hinside, _, hrun⟩ := scanRoot_total hsize file alloc maxRecords
    exact ⟨result, reads, hinside, hrun⟩
  · intro file alloc size p out reads hsize hp hp64 hreads
    have hfails : FailsIn file (fun _ => alloc) size 0 _ := failsIn_any file (fun _ => alloc) 0
    have hany := hfails.record 0
    obtain ⟨result, reads', hrun, hinside, hpost, _⟩ :=
      keeps_scanRecord hsize hp hp64 hany out reads hreads
    refine ⟨result, reads', hrun, hinside, fun record stop hresult => ?_⟩
    have hat := hpost _ hresult
    exact ⟨hat.start_lt, hat.stop_le, hat.stop_le_i64⟩
  · intro granted alloc bytes count tail size hbytes
    exact decodeCatalog_ne_panic hbytes granted alloc count tail size

theorem container_scanning_zero_file :
    ∃ result reads, ReadsInside 32 reads ∧ ∀ fuel, 32 ≤ fuel →
      (scanRoot fuel (fun _ len => some (List.Vector.replicate len 0)) (fun _ => ⟨true, true, true⟩)
        32 0).runOn [] = some (result, reads) :=
  container_scanning_total.1 _ _ 32 0 (by decide)

end PencilRs.Analysis
