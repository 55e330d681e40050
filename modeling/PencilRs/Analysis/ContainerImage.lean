import PencilRs.Analysis.ContainerFormat

/-!
# What a container holds

A container holds some records when its header is there, the bytes of the records follow one after
another under different names, and no record begins behind them.  The scan returns just that.  So
bytes behind the last record change nothing in front of them, and a record whose bytes are added
there is the next one.
-/

set_option autoImplicit false

namespace PencilRs.Analysis

open PencilRs.Computation PencilRs.Model NamedMpi Update

/-! ## Records one after another -/

/-- The bytes of the records stand one after another from `start` up to `tail`. -/
def CommittedFrom (image : List Byte) : ℕ → List Rec → ℕ → Prop
  | start, [], tail => start = tail
  | start, record :: rest, tail => ∃ stop, Committed image start stop record ∧
      CommittedFrom image stop rest tail

/-- No record of a new name begins at `p`. -/
def NothingAt (image : List Byte) (p : ℕ) (out : List Rec) : Prop :=
  ∀ record stop, Committed image p stop record → record.name ∈ out.map Rec.name

/-- The container holds these records, and its committed part ends at `tail`. -/
structure Holds (image : List Byte) (records : List Rec) (tail : ℕ) : Prop where
  header : image.take containerBytes = containerHeader
  chain : CommittedFrom image containerBytes records tail
  names : (records.map Rec.name).Nodup
  ends : NothingAt image tail records

namespace CommittedFrom

variable {image : List Byte} {start stop tail : ℕ} {records : List Rec}

theorem chained (h : CommittedFrom image start records tail) :
    Chained image.length start records tail := by
  induction records generalizing start with
  | nil => exact h
  | cons record rest ih =>
    obtain ⟨stop, hrecord, hrest⟩ := h
    exact ⟨stop, hrecord.inFile, ih hrest⟩

theorem append {more : List Rec} (h : CommittedFrom image start records stop)
    (hmore : CommittedFrom image stop more tail) :
    CommittedFrom image start (records ++ more) tail := by
  induction records generalizing start with
  | nil =>
    obtain rfl : start = stop := h
    exact hmore
  | cons record rest ih =>
    obtain ⟨next, hrecord, hrest⟩ := h
    exact ⟨next, hrecord, ih hrest⟩

end CommittedFrom

/-! ## Scanning an image -/

section Scan

variable {image : List Byte} {maxRecords : ℕ}

theorem any_name_eq_false {out : List Rec} {name : List Byte} :
    (out.any fun record => record.name = name) = false ↔ name ∉ out.map Rec.name := by
  rw [List.any_eq_false]
  constructor
  · intro h hmem
    obtain ⟨record, hrecord, rfl⟩ := List.mem_map.mp hmem
    exact h record hrecord (decide_eq_true rfl)
  · intro h record hrecord heq
    exact h (List.mem_map.mpr ⟨record, hrecord, of_decide_eq_true heq⟩)

theorem haltsIn_image (image : List Byte) :
    HaltsIn (imageFile image) ⟨true, true, true⟩ image.length fun halt => halt = .stop where
  stop := rfl
  read := imageFile_reads image _
  body := nofun
  dimensions := nofun
  index := nofun

variable (hsize : image.length < usizeLimit)

include hsize

/-- **One step** finds the record that stands at its place. -/
theorem step_committed {p stop : ℕ} {record : Rec} (h : Committed image p stop record)
    {out : List Rec} (hnew : record.name ∉ out.map Rec.name) {reads : Reads}
    (hreads : ReadsInside image.length reads) : ∃ reads', ReadsInside image.length reads' ∧
      (untilStop (scanRecord (imageFile image) (grantRecords out.length) image.length p out)).runOn
        reads = some (.ok (some (record, stop)), reads') := by
  have hlt := h.inFile.start_lt
  have hle := h.inFile.stop_le
  have hle64 := h.inFile.stop_le_i64
  obtain ⟨reads', hrun⟩ := yields_scanRecord hsize h (any_name_eq_false.mpr hnew) reads
  obtain ⟨_, _, hrun', hinside, _⟩ :=
    keeps_scanRecord hsize (show p < image.length by omega) (by omega) (haltsIn_image image) out
      reads hreads
  obtain ⟨_, rfl⟩ := Prod.mk.inj (Option.some.inj (hrun.symm.trans hrun'))
  refine ⟨reads', hinside, ?_⟩
  rw [runOn_untilStop]
  show ((scanRecord (imageFile image) ⟨true, true, true⟩ image.length p out).runOn reads).map _ = _
  rw [hrun]
  rfl

/-- **One step** stops where nothing stands. -/
theorem step_nothing {p : ℕ} (hp : p < image.length) (hp64 : p ≤ i64Max) {out : List Rec}
    (h : NothingAt image p out) {reads : Reads} (hreads : ReadsInside image.length reads) :
    ∃ reads', ReadsInside image.length reads' ∧
      (untilStop (scanRecord (imageFile image) (grantRecords out.length) image.length p out)).runOn
        reads = some (.ok none, reads') := by
  obtain ⟨r, reads', hrun, hinside, hpost, hbad⟩ :=
    keeps_scanRecord hsize hp hp64 (haltsIn_image image) out reads hreads
  refine ⟨reads', hinside, ?_⟩
  rw [runOn_untilStop]
  show ((scanRecord (imageFile image) ⟨true, true, true⟩ image.length p out).runOn reads).map _ = _
  rw [hrun]
  cases r with
  | ok q =>
    obtain ⟨hbytes, hnew⟩ := returns_scanRecord image image.length p out reads q reads' hrun
    exact absurd (h q.1 q.2 ⟨hpost q rfl, hbytes⟩) (any_name_eq_false.mp hnew)
  | error halt =>
    obtain rfl := hbad halt rfl
    rfl

/-- **The scan passes the records** that stand one after another. -/
theorem scanLoop_pass {fuel p tail : ℕ} {rest out : List Rec} (hfuel : image.length < p + fuel)
    (h : CommittedFrom image p rest tail) (hnames : ((out ++ rest).map Rec.name).Nodup)
    (hlimit : (out ++ rest).length ≤ maxRecords) {reads : Reads}
    (hreads : ReadsInside image.length reads) :
    ∃ fuel' reads', image.length < tail + fuel' ∧ ReadsInside image.length reads' ∧
      (scanLoop (imageFile image) grantRecords image.length maxRecords fuel p out).runOn reads
        = (scanLoop (imageFile image) grantRecords image.length maxRecords fuel' tail
            (out ++ rest)).runOn reads' := by
  induction rest generalizing fuel p out reads with
  | nil =>
    obtain rfl : p = tail := h
    rw [List.append_nil]
    exact ⟨fuel, reads, hfuel, hreads, rfl⟩
  | cons record rest ih =>
    obtain ⟨stop, hrecord, hrest⟩ := h
    have hlt := hrecord.inFile.start_lt
    have hle := hrecord.inFile.stop_le
    obtain ⟨fuel, rfl⟩ : ∃ less, fuel = less + 1 := ⟨fuel - 1, by omega⟩
    have hnew : record.name ∉ out.map Rec.name := by
      rw [List.map_append, List.map_cons] at hnames
      exact fun hmem => (List.nodup_append.mp hnames).2.2 _ hmem _ List.mem_cons_self rfl
    obtain ⟨reads', hinside, hstep⟩ := step_committed hsize hrecord hnew hreads
    rw [List.append_cons] at hnames hlimit ⊢
    have hmore : out.length ≠ maxRecords := by
      rw [List.length_append, List.length_append, List.length_singleton] at hlimit
      omega
    obtain ⟨fuel', reads'', hfuel', hinside', hrun⟩ :=
      ih (show image.length < stop + fuel by omega) hrest hnames hlimit hinside
    refine ⟨fuel', reads'', hfuel', hinside', ?_⟩
    rw [runOn_scanLoop_round (by omega) hmore, hstep, ← hrun]
    rfl

end Scan

/-! ## The header -/

section Header

variable {image : List Byte}

theorem length_containerHeader : containerHeader.length = containerBytes := rfl

/-- The four words of the header. -/
theorem containerHeader_eq_iff {header : List Byte} (hlen : header.length = containerBytes) :
    header = containerHeader ↔ header.take 8 = magic ∧ leValue ((header.drop 8).take 8) = version ∧
      leValue ((header.drop 16).take 8) = containerBytes ∧
      leValue ((header.drop 24).take 8) = 0 := by
  constructor
  · rintro rfl
    decide
  · rintro ⟨hmagic, hversion, hsize, hreserved⟩
    have hrest : (header.drop 8).length = 8 * 3 := by
      rw [List.length_drop, hlen]
      rfl
    have hwords := leString_leWords hrest
    simp only [leWords, List.drop_drop] at hwords
    rw [hversion, hsize, hreserved] at hwords
    rw [← List.take_append_drop 8 header, hmagic, ← hwords]
    rfl

theorem returns_scanHeader (image : List Byte) (size : ℕ) :
    Update.Returns (fun _ => image.take containerBytes = containerHeader)
      (scanHeader (imageFile image) size) := by
  unfold scanHeader
  refine returns_bind (returns_any _) fun _ _ => ?_
  refine returns_bind (returns_rootRead 0 containerBytes _) fun header hheader => ?_
  refine returns_bind (returns_wordAt header 8) fun containerVersion hversion => ?_
  refine returns_bind (returns_wordAt header 16) fun headerSize hsize => ?_
  refine returns_bind (returns_wordAt header 24) fun reserved hreserved => ?_
  apply returns_checked
  intro _ hok
  obtain ⟨rfl, hlen⟩ := hheader
  have hcond := ensure_eq_ok.mp hok
  rw [Bool.and_eq_true, Bool.and_eq_true, Bool.and_eq_true] at hcond
  obtain ⟨⟨⟨hmagic, hv⟩, hs⟩, hr⟩ := hcond
  exact (containerHeader_eq_iff hlen).mpr ⟨of_decide_eq_true hmagic,
    (hversion _ (of_decide_eq_true hv)).symm, (hsize _ (of_decide_eq_true hs)).symm,
    (hreserved _ (of_decide_eq_true hr)).symm⟩

theorem yields_scanHeader (h : image.take containerBytes = containerHeader) :
    Update.Yields () (scanHeader (imageFile image) image.length) := by
  have hlen : containerBytes ≤ image.length := by
    have := congrArg List.length h
    rw [length_containerHeader, List.length_take] at this
    omega
  have hread : (image.drop 0).take containerBytes = containerHeader := h
  obtain ⟨hmagic, hversion, hsize, hreserved⟩ :=
    (containerHeader_eq_iff length_containerHeader).mp rfl
  unfold scanHeader
  refine yields_bind (x := ()) (yields_checked (ensure_eq_ok.mpr (decide_eq_true hlen))) ?_
  refine yields_bind (yields_rootRead _ (Nat.zero_le _) (by omega)) ?_
  rw [hread]
  refine yields_bind (yields_wordAt (by decide) (by decide)) ?_
  refine yields_bind (yields_wordAt (by decide) (by decide)) ?_
  refine yields_bind (yields_wordAt (by decide) (by decide)) ?_
  apply yields_checked
  rw [hmagic, hversion, hsize, hreserved]
  rfl

/-- **The header** is checked before anything else. -/
theorem scanHeader_run (image : List Byte) :
    ∃ reads, ReadsInside image.length reads ∧
      (scanHeader (imageFile image) image.length).runOn [] = some (if
        image.take containerBytes = containerHeader then .ok () else .error .containerHeader,
        reads) := by
  have hkeeps : Keeps (ReadsInside image.length) (fun status => status = .containerHeader)
      (fun _ => containerBytes ≤ image.length) (scanHeader (imageFile image) image.length) :=
    keeps_scanHeader rfl (imageFile_reads image _)
  obtain ⟨r, reads, hrun, hinside, _, hbad⟩ := hkeeps [] nofun
  refine ⟨reads, hinside, hrun.trans ?_⟩
  by_cases h : image.take containerBytes = containerHeader
  · obtain ⟨reads', hok⟩ := yields_scanHeader h []
    obtain ⟨rfl, _⟩ := Prod.mk.inj (Option.some.inj (hrun.symm.trans hok))
    rw [if_pos h]
  · rw [if_neg h]
    cases r with
    | ok u => exact absurd (returns_scanHeader image image.length [] u reads hrun) h
    | error status => rw [hbad status rfl]

end Header

/-! ## Scans -/

section Scans

variable {image : List Byte} {records : List Rec} {tail : ℕ}

theorem CommittedFrom.bounds {start : ℕ} (h : CommittedFrom image start records tail)
    (hstart : start ≤ image.length) (hstart64 : start ≤ i64Max) :
    tail ≤ image.length ∧ tail ≤ i64Max := by
  induction records generalizing start with
  | nil =>
    obtain rfl : start = tail := h
    exact ⟨hstart, hstart64⟩
  | cons record rest ih =>
    obtain ⟨stop, hrecord, hrest⟩ := h
    exact ih hrest hrecord.inFile.stop_le hrecord.inFile.stop_le_i64

theorem header_length_le (h : image.take containerBytes = containerHeader) :
    containerBytes ≤ image.length := by
  have := congrArg List.length h
  rw [length_containerHeader, List.length_take] at this
  omega

theorem Holds.bounds (h : Holds image records tail) :
    containerBytes + records.length ≤ tail ∧ tail ≤ image.length ∧ tail ≤ i64Max :=
  ⟨h.chain.chained.length_le, h.chain.bounds (header_length_le h.header) (by decide)⟩

/-- Where the header is there, the loop follows it. -/
theorem scanImage_of_header (h : image.take containerBytes = containerHeader) (maxRecords : ℕ) :
    ∃ reads, ReadsInside image.length reads ∧ scanImage image maxRecords
      = (scanLoop (imageFile image) grantRecords image.length maxRecords image.length
          containerBytes []).runOn reads := by
  obtain ⟨reads, hinside, hheader⟩ := scanHeader_run image
  rw [if_pos h] at hheader
  refine ⟨reads, hinside, ?_⟩
  unfold scanImage scanRoot
  rw [runOn_bind, hheader]
  rfl

/-- The scan returns what the container holds. -/
theorem Holds.scan (h : Holds image records tail) (hsize : image.length < usizeLimit) :
    ∃ reads, scanImage image unbounded = some (.ok (records, tail), reads) := by
  obtain ⟨hcount, htail, htail64⟩ := h.bounds
  obtain ⟨reads, hinside, hrun⟩ := scanImage_of_header h.header unbounded
  have hbelow : records.length < unbounded := by
    unfold unbounded
    have : 0 < containerBytes := by decide
    omega
  obtain ⟨fuel, reads', hfuel, hinside', hpass⟩ := scanLoop_pass hsize
    (size_lt_of_fuel le_rfl) h.chain (show (([] ++ records).map Rec.name).Nodup from h.names)
    hbelow.le hinside
  obtain ⟨fuel, rfl⟩ : ∃ less, fuel = less + 1 := ⟨fuel - 1, by omega⟩
  rw [hrun, hpass, List.nil_append]
  by_cases hmore : tail < image.length
  · obtain ⟨reads'', _, hstep⟩ := step_nothing hsize hmore htail64 h.ends hinside'
    refine ⟨reads'', ?_⟩
    rw [runOn_scanLoop_round hmore hbelow.ne, hstep]
    rfl
  · exact ⟨reads', runOn_scanLoop_end hmore⟩

/-- A record that stands at the place of the loop is found. -/
theorem scanLoop_finds (hsize : image.length < usizeLimit) {maxRecords fuel p stop : ℕ}
    {out : List Rec} {record : Rec} (hrecord : Committed image p stop record)
    (hnew : record.name ∉ out.map Rec.name) {reads reads' : Reads}
    (hreads : ReadsInside image.length reads)
    (h : (scanLoop (imageFile image) grantRecords image.length maxRecords (fuel + 1) p out).runOn
      reads = some (.ok (records, tail), reads')) : out.length < records.length := by
  have hlt := hrecord.inFile.start_lt
  have hle := hrecord.inFile.stop_le
  have hmore : p < image.length := by omega
  by_cases hlimit : out.length = maxRecords
  · rw [runOn_scanLoop_limit hmore hlimit] at h
    cases h
  · obtain ⟨reads'', _, hstep⟩ := step_committed hsize hrecord hnew hreads
    rw [runOn_scanLoop_round hmore hlimit, hstep] at h
    have hlen := scanLoop_length_le h
    rw [List.length_append, List.length_singleton] at hlen
    omega

/-- **The records the loop finds** stand one after another, and none stands behind them. -/
theorem scanLoop_found (hsize : image.length < usizeLimit) {maxRecords fuel p : ℕ}
    {out : List Rec} (hp64 : p ≤ i64Max) (hout : (out.map Rec.name).Nodup) {reads reads' : Reads}
    (hreads : ReadsInside image.length reads)
    (h : (scanLoop (imageFile image) grantRecords image.length maxRecords fuel p out).runOn reads
      = some (.ok (records, tail), reads')) :
    ∃ more, records = out ++ more ∧ CommittedFrom image p more tail ∧
      (records.map Rec.name).Nodup ∧ NothingAt image tail records := by
  induction fuel generalizing p out reads with
  | zero => cases h
  | succ fuel ih =>
    rcases scanLoop_ok_cases h with ⟨rfl, rfl⟩ | ⟨hmore, record, stop, reads'', hstep, hrest⟩
    · refine ⟨[], (List.append_nil _).symm, rfl, hout, fun record stop hrecord => ?_⟩
      by_contra hnew
      exact lt_irrefl _ (scanLoop_finds hsize hrecord hnew hreads h)
    · have hrecord : Committed image p stop record ∧ record.name ∉ out.map Rec.name ∧
          ReadsInside image.length reads'' := by
        obtain ⟨r, reads₁, hrun, hinside, hpost, hbad⟩ :=
          keeps_scanRecord hsize hmore hp64 (haltsIn_image image) out reads hreads
        rw [runOn_untilStop] at hstep
        obtain ⟨⟨r', reads₂⟩, hrun', heq⟩ := Option.map_eq_some_iff.mp hstep
        obtain ⟨rfl, rfl⟩ := Prod.mk.inj (Option.some.inj (hrun.symm.trans hrun'))
        cases r with
        | ok q =>
          cases heq
          obtain ⟨hbytes, hnew⟩ := returns_scanRecord image image.length p out reads _ _ hrun
          exact ⟨⟨hpost _ rfl, hbytes⟩, any_name_eq_false.mp hnew, hinside⟩
        | error halt => cases halt <;> cases heq
      obtain ⟨hcommitted, hnew, hinside⟩ := hrecord
      have hnames : ((out ++ [record]).map Rec.name).Nodup := by
        rw [List.map_append]
        refine List.nodup_append.mpr ⟨hout, List.nodup_singleton _, fun a ha b hb => ?_⟩
        rintro rfl
        rw [List.map_singleton, List.mem_singleton] at hb
        exact hnew (hb ▸ ha)
      obtain ⟨more, rfl, hchain, hall, hends⟩ := ih hcommitted.inFile.stop_le_i64 hnames hinside
        hrest
      rw [List.append_assoc] at hall hends ⊢
      exact ⟨[record] ++ more, rfl, ⟨stop, hcommitted, hchain⟩, hall, hends⟩

/-- **The scan returns what the container holds**, and nothing else. -/
theorem scanImage_eq_ok_iff (hsize : image.length < usizeLimit) :
    (∃ reads, scanImage image unbounded = some (.ok (records, tail), reads))
      ↔ Holds image records tail := by
  refine ⟨fun ⟨reads, h⟩ => ?_, fun h => h.scan hsize⟩
  have hheader : image.take containerBytes = containerHeader := by
    by_contra hno
    obtain ⟨reads', _, hrun⟩ := scanHeader_run image
    rw [if_neg hno] at hrun
    unfold scanImage scanRoot at h
    rw [runOn_bind, hrun] at h
    cases h
  obtain ⟨reads', hinside, hrun⟩ := scanImage_of_header hheader unbounded
  rw [hrun] at h
  obtain ⟨more, rfl, hchain, hnames, hends⟩ :=
    scanLoop_found hsize (by decide) (show (([] : List Rec).map Rec.name).Nodup from List.nodup_nil)
      hinside h
  exact ⟨hheader, hchain, hnames, hends⟩

/-! ## Bytes behind the records -/

variable {image' : List Byte}

/-- A record depends on its own bytes only. -/
theorem Committed.of_take {p stop : ℕ} {record : Rec} (h : Committed image p stop record)
    (hle : stop ≤ image'.length) (htake : image'.take stop = image.take stop) :
    Committed image' p stop record := by
  obtain ⟨payload, hbytes⟩ := h.bytes
  refine ⟨{ h.inFile with stop_le := hle }, payload, ?_⟩
  rw [← hbytes, List.take_drop, List.take_drop]
  have hlt := h.inFile.start_lt
  rw [show p + (stop - p) = stop by omega, htake]

theorem CommittedFrom.of_take {start : ℕ} (h : CommittedFrom image start records tail)
    (hle : tail ≤ image'.length) (htake : image'.take tail = image.take tail) :
    CommittedFrom image' start records tail := by
  induction records generalizing start with
  | nil => exact h
  | cons record rest ih =>
    obtain ⟨stop, hrecord, hrest⟩ := h
    have hstop : stop ≤ tail := by
      have := hrest.chained.length_le
      omega
    refine ⟨stop, hrecord.of_take (by omega) ?_, ih hrest⟩
    have := congrArg (List.take stop) htake
    rwa [List.take_take, List.take_take, Nat.min_eq_left hstop] at this

/-- A container whose header is there is scanned without an error. -/
theorem scanImage_ok (hsize : image.length < usizeLimit)
    (hheader : image.take containerBytes = containerHeader) :
    ∃ records tail reads, scanImage image unbounded = some (.ok (records, tail), reads) := by
  obtain ⟨reads, hinside, hrun⟩ := scanImage_of_header hheader unbounded
  have hstart : Chained image.length containerBytes [] containerBytes := rfl
  obtain ⟨result, reads', hloop, _, _, hnever⟩ := keeps_scanLoop hsize (failsIn_image hsize)
    (size_lt_of_fuel le_rfl) (header_length_le hheader) (by decide) hstart (Nat.zero_le _) reads
    hinside
  cases result with
  | error status => exact (hnever status rfl).elim
  | ok q => exact ⟨q.1, q.2, reads', hrun.trans hloop⟩

/-- **What the container holds stays**, whatever bytes come behind it. -/
theorem Holds.of_take (h : Holds image records tail) (hle : tail ≤ image'.length)
    (htake : image'.take tail = image.take tail) (hsize : image'.length < usizeLimit) :
    ∃ more tail', tail ≤ tail' ∧ Holds image' (records ++ more) tail' := by
  obtain ⟨hcount, _, htail64⟩ := h.bounds
  have hheader : image'.take containerBytes = containerHeader := by
    have := congrArg (List.take containerBytes) htake
    rw [List.take_take, List.take_take, Nat.min_eq_left (by omega)] at this
    rw [this, h.header]
  have hchain := h.chain.of_take hle htake
  have hbelow : records.length ≤ unbounded := by
    unfold unbounded
    omega
  obtain ⟨reads, hinside, hrun⟩ := scanImage_of_header hheader unbounded
  obtain ⟨fuel, reads', _, hinside', hpass⟩ := scanLoop_pass hsize
    (size_lt_of_fuel le_rfl) hchain (show (([] ++ records).map Rec.name).Nodup from h.names)
    hbelow hinside
  obtain ⟨records', tail', reads'', hscan⟩ := scanImage_ok hsize hheader
  rw [hrun, hpass, List.nil_append] at hscan
  obtain ⟨more, rfl, hmore, hnames, hends⟩ := scanLoop_found hsize htail64 h.names hinside' hscan
  refine ⟨more, tail', ?_, hheader, hchain.append hmore, hnames, hends⟩
  have := hmore.chained.length_le
  omega

end Scans

/-! ## Files that fail -/

/-- A file that gives the bytes of an image, or fails. -/
def Honest (file : NativeFile) (image : List Byte) : Prop :=
  ∀ offset len bytes, file offset len = some bytes → imageFile image offset len = some bytes

theorem honest_imageFile (image : List Byte) : Honest (imageFile image) image := fun _ _ _ h => h

section Failing

variable {file : NativeFile} {image : List Byte}

theorem agrees_rootRead (hfile : Honest file image) {ε : Type} {soft : ε → Prop} (offset len : ℕ)
    {failure : ε} (hfailure : ¬soft failure) :
    Agrees soft (rootRead file offset len failure)
      (rootRead (imageFile image) offset len failure) := by
  refine agrees_bind (agrees_refl _) fun _ => ?_
  intro reads r reads' hrun hsoft
  obtain ⟨hr, hreads⟩ := Prod.mk.inj (Option.some.inj hrun)
  cases hread : file offset len with
  | none =>
    rw [hread] at hr
    exact absurd (hsoft failure hr.symm) hfailure
  | some bytes =>
    rw [hread] at hr
    subst hr
    subst hreads
    show (nativeRead (imageFile image) offset len failure).runOn reads = _
    rw [nativeRead, hfile offset len bytes hread]
    rfl

/-- A refusal is not what stops a scan. -/
def Stops (halt : ScanHalt) : Prop := halt = .stop

theorem agrees_reserve (granted : Bool) (status : ScanStatus) :
    Agrees Stops (reserve granted status) (reserve true status) := by
  refine agrees_checked (fun _ _ => rfl) fun e he hstop => ?_
  cases granted with
  | true => cases he
  | false =>
    obtain rfl := Except.error.inj he
    cases hstop

theorem agrees_scanRecord (hfile : Honest file image) (alloc : RecordAllocator) (size p : ℕ)
    (out : List Rec) : Agrees Stops (scanRecord file alloc size p out)
      (scanRecord (imageFile image) ⟨true, true, true⟩ size p out) := by
  have hfail : ¬Stops (.fail .metadataRead) := nofun
  unfold scanRecord
  refine agrees_bind (agrees_refl _) fun left => ?_
  refine agrees_bind (agrees_refl _) fun _ => ?_
  refine agrees_bind (agrees_rootRead hfile _ _ hfail) fun rh => ?_
  refine agrees_bind (agrees_refl _) fun recordVersion => ?_
  refine agrees_bind (agrees_refl _) fun reserved => ?_
  refine agrees_bind (agrees_refl _) fun _ => ?_
  refine agrees_bind (agrees_refl _) fun nameWord => ?_
  refine agrees_bind (agrees_refl _) fun nl => ?_
  refine agrees_bind (agrees_refl _) fun metaWord => ?_
  refine agrees_bind (agrees_refl _) fun ml => ?_
  refine agrees_bind (agrees_refl _) fun payloadWord => ?_
  refine agrees_bind (agrees_refl _) fun payload => ?_
  refine agrees_bind (agrees_refl _) fun totalWord => ?_
  refine agrees_bind (agrees_refl _) fun total => ?_
  refine agrees_bind (agrees_refl _) fun stop => ?_
  refine agrees_bind (agrees_refl _) fun _ => ?_
  refine agrees_bind (agrees_refl _) fun bodyLen => ?_
  refine agrees_bind (agrees_reserve _ _) fun _ => ?_
  refine agrees_bind (agrees_refl _) fun bodyOffset => ?_
  refine agrees_bind (agrees_rootRead hfile _ _ hfail) fun body => ?_
  refine agrees_bind (agrees_refl _) fun name => ?_
  refine agrees_bind (agrees_refl _) fun _ => ?_
  refine agrees_bind (agrees_refl _) fun metadata => ?_
  refine agrees_bind (agrees_refl _) fun globalWord => ?_
  refine agrees_bind (agrees_refl _) fun nr => ?_
  refine agrees_bind (agrees_refl _) fun extraWord => ?_
  refine agrees_bind (agrees_refl _) fun er => ?_
  refine agrees_bind (agrees_refl _) fun rank => ?_
  refine agrees_bind (agrees_refl _) fun need => ?_
  refine agrees_bind (agrees_refl _) fun _ => ?_
  refine agrees_bind (agrees_reserve _ _) fun _ => ?_
  refine agrees_bind (agrees_refl _) fun dims => ?_
  refine agrees_bind (agrees_refl _) fun typeWord => ?_
  refine agrees_bind (agrees_refl _) fun typ => ?_
  refine agrees_bind (agrees_refl _) fun widthWord => ?_
  refine agrees_bind (agrees_refl _) fun width => ?_
  refine agrees_bind (agrees_refl _) fun _ => ?_
  refine agrees_bind (agrees_refl _) fun markerOffset => ?_
  refine agrees_bind (agrees_rootRead hfile _ _ hfail) fun marker => ?_
  refine agrees_bind (agrees_refl _) fun _ => ?_
  exact agrees_bind (agrees_reserve _ _) fun _ => agrees_refl _

theorem agrees_untilStop {β : Type} {soft : ScanStatus → Prop}
    {step step' : Update ScanHalt Reads β}
    (h : Agrees Stops step step') (hsoft : ∀ status, ¬soft status) :
    Agrees soft (untilStop step) (untilStop step') := by
  intro reads r reads' hrun hr
  obtain ⟨⟨found, reads₁⟩, hfound, heq⟩ := Option.map_eq_some_iff.mp hrun
  have hstep : step'.runOn reads = some (found, reads₁) := by
    refine h reads found reads₁ hfound ?_
    rintro (_ | status) rfl
    · rfl
    · obtain ⟨hstatus, _⟩ := Prod.mk.inj heq
      exact absurd (hr status hstatus.symm) (hsoft status)
  show (step'.runOn reads).map _ = _
  rw [hstep]
  exact congrArg some heq

theorem agrees_scanLoop (hfile : Honest file image) (alloc : ℕ → RecordAllocator)
    (size maxRecords fuel p : ℕ) (out : List Rec) :
    Agrees (fun _ => False) (scanLoop file alloc size maxRecords fuel p out)
      (scanLoop (imageFile image) grantRecords size maxRecords fuel p out) := by
  induction fuel generalizing p out with
  | zero => exact agrees_refl _
  | succ fuel ih =>
    unfold scanLoop
    by_cases hp : p < size
    · simp only [if_pos hp]
      refine agrees_bind (agrees_refl _) fun _ => ?_
      refine agrees_bind (agrees_untilStop (agrees_scanRecord hfile _ size p out) nofun) ?_
      rintro (_ | ⟨record, stop⟩)
      · exact agrees_refl _
      · exact ih stop (out ++ [record])
    · simp only [if_neg hp]
      exact agrees_refl _

/-- **A file that fails** gives no other records than the image: the scan returns them or fails. -/
theorem scanRoot_honest (hfile : Honest file image) {alloc : ℕ → RecordAllocator}
    {fuel size maxRecords : ℕ} {q : List Rec × ℕ} {reads reads' : Reads}
    (h : (scanRoot fuel file alloc size maxRecords).runOn reads = some (.ok q, reads')) :
    (scanRoot fuel (imageFile image) grantRecords size maxRecords).runOn reads
      = some (.ok q, reads') := by
  have hagrees : Agrees (fun _ => False) (scanRoot fuel file alloc size maxRecords)
      (scanRoot fuel (imageFile image) grantRecords size maxRecords) := by
    unfold scanRoot scanHeader
    refine agrees_bind ?_ fun _ => agrees_scanLoop hfile alloc size maxRecords fuel _ _
    refine agrees_bind (agrees_refl _) fun _ => ?_
    exact agrees_bind (agrees_rootRead hfile _ _ nofun) fun _ => agrees_refl _
  exact hagrees reads (.ok q) reads' h nofun

end Failing

end PencilRs.Analysis
