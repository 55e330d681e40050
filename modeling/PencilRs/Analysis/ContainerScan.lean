import PencilRs.Analysis.ContainerCatalog
import PencilRs.Analysis.ContainerLimit
import PencilRs.Analysis.FileCollectives
import PencilRs.Model.ContainerScan

/-!
# The scan of a container on all ranks

The chunks of a catalog cover it once and in order, and each fits the count of a broadcast.  After
every step the ranks agree, so that they all return the records of rank zero or all stop with one
error.
-/

set_option autoImplicit false

namespace PencilRs.Analysis

open PencilRs.Computation PencilRs.Model NamedMpi FileProgram Semantics.Ensures

/-! ## Chunks -/

/-- Where the `k`-th chunk begins. -/
def chunkStart (catalogLen k : ℕ) : ℕ := min (k * catalogChunkBytes) catalogLen

theorem chunkBytes_pos : 0 < catalogChunkBytes := by decide

/-- The last chunk is the only one that may be empty, and only of an empty catalog. -/
theorem chunk_mul_le {catalogLen k : ℕ} (hk : k < chunkCount catalogLen) :
    k * catalogChunkBytes ≤ catalogLen := by
  unfold chunkCount at hk
  by_cases hzero : catalogLen = 0
  · rw [if_pos hzero] at hk
    obtain rfl : k = 0 := by omega
    omega
  · rw [if_neg hzero] at hk
    have hle : k ≤ (catalogLen - 1) / catalogChunkBytes := by omega
    have := (Nat.le_div_iff_mul_le chunkBytes_pos).mp hle
    omega

/-- The chunks reach the end. -/
theorem le_chunkCount_mul (catalogLen : ℕ) :
    catalogLen ≤ chunkCount catalogLen * catalogChunkBytes := by
  unfold chunkCount
  by_cases hzero : catalogLen = 0
  · omega
  · rw [if_neg hzero, Nat.add_mul, Nat.one_mul]
    have := Nat.lt_div_mul_add (a := catalogLen - 1) chunkBytes_pos
    omega

theorem chunkRange_eq {catalogLen k : ℕ} (hlen : catalogLen < usizeLimit)
    (hk : k < chunkCount catalogLen) :
    chunkRange catalogLen k = some (chunkStart catalogLen k, chunkStart catalogLen (k + 1)) := by
  have hmul := chunk_mul_le hk
  unfold chunkRange chunkStart
  rw [checkedMul_eq_some.mpr ⟨by omega, rfl⟩, Nat.add_mul, Nat.one_mul, Nat.min_eq_left hmul]
  simp only [Option.bind_eq_bind, Option.bind_some, Option.pure_def, Option.some.injEq,
    Prod.mk.injEq, true_and]
  omega

theorem chunkStart_mono (catalogLen k : ℕ) :
    chunkStart catalogLen k ≤ chunkStart catalogLen (k + 1) := by
  unfold chunkStart
  rw [Nat.add_mul]
  omega

theorem chunkStart_le (catalogLen k : ℕ) : chunkStart catalogLen k ≤ catalogLen :=
  Nat.min_le_right _ _

theorem chunk_count_le (catalogLen k : ℕ) :
    chunkStart catalogLen (k + 1) - chunkStart catalogLen k ≤ countMax := by
  have hcount : catalogChunkBytes ≤ countMax := by decide
  unfold chunkStart
  rw [Nat.add_mul, Nat.one_mul]
  omega

/-- **The chunks** cover the bytes of a catalog once, in order. -/
theorem chunks_cover (catalogLen : ℕ) :
    (List.range (chunkCount catalogLen)).flatMap (fun k => List.range' (chunkStart catalogLen k)
      (chunkStart catalogLen (k + 1) - chunkStart catalogLen k)) = List.range catalogLen := by
  have hchunks : ∀ n, (List.range n).flatMap (fun k => List.range' (chunkStart catalogLen k)
      (chunkStart catalogLen (k + 1) - chunkStart catalogLen k))
        = List.range (chunkStart catalogLen n) := by
    intro n
    induction n with
    | zero => simp [chunkStart]
    | succ n ih =>
      have hle := chunkStart_mono catalogLen n
      rw [List.range_succ, List.flatMap_append, ih, List.flatMap_singleton,
        List.range_eq_range', List.range_eq_range']
      have happend := List.range'_append_1 (s := 0) (m := chunkStart catalogLen n)
        (n := chunkStart catalogLen (n + 1) - chunkStart catalogLen n)
      rw [Nat.zero_add, Nat.add_sub_cancel' hle] at happend
      exact happend
  rw [hchunks, chunkStart, Nat.min_eq_right (le_chunkCount_mul catalogLen)]

/-! ## Reports -/

theorem reportFields_encodeReport {status catalogLen count tail size : ℕ}
    (hstatus : status < usizeLimit) (hlen : catalogLen < usizeLimit) (hcount : count < usizeLimit)
    (htail : tail < usizeLimit) (hsize : size < usizeLimit) :
    reportFields (encodeReport status catalogLen count tail size)
      = [status, catalogLen, count, tail, size] := by
  have hfits : ∀ value ∈ [status, catalogLen, count, tail, size], value < 256 ^ 8 := by
    intro value hvalue
    have hlimit : usizeLimit = 256 ^ 8 := rfl
    rw [← hlimit]
    simp only [List.mem_cons, List.not_mem_nil, or_false] at hvalue
    rcases hvalue with rfl | rfl | rfl | rfl | rfl <;> assumption
  have hread := leWords_leString hfits []
  rw [List.append_nil] at hread
  exact hread

theorem failureStatus_code (status : ScanStatus) :
    ∃ error, failureStatus status.code = some error := by
  cases status <;> exact ⟨_, rfl⟩

theorem status_code_pos (status : ScanStatus) : status.code ≠ 0 ∧ status.code < usizeLimit := by
  cases status <;> decide

/-! ## What rank zero finds -/

/-- Rank zero fails with a status or has the records of a scan and their catalog; it does not
panic. -/
theorem outcome_cases (scanner : Scanner) {size : Option ℕ} (maxRecords : ℕ)
    (hsize : ∀ n, size = some n → n < usizeLimit) :
    (∃ status, scanner.outcome size maxRecords = .error (.error status)) ∨
      ∃ n records tail, size = some n ∧ ScanReturns n maxRecords (records, tail) ∧
        scanner.outcome size maxRecords = .ok (records, tail, records.flatMap encodeRecord) := by
  cases size with
  | none => exact Or.inl ⟨.containerSize, rfl⟩
  | some n =>
    obtain ⟨result, reads, _, hreturns, hrun⟩ :=
      scanRoot_total (hsize n rfl) scanner.file scanner.recordAlloc maxRecords
    have hscan := hrun n le_rfl
    have hrest : scanner.outcome (some n) maxRecords = (do
        let found ← result.mapError .error
        let catalog ← encodeCatalog scanner.catalogGranted found.1
        return (found.1, found.2, catalog)) := by
      unfold Scanner.outcome
      show (okOr ((scanRoot n scanner.file scanner.recordAlloc n maxRecords).runOn [])
        Stop.panic
        >>= _) = _
      rw [hscan]
      rfl
    rw [hrest]
    cases result with
    | error status => exact Or.inl ⟨status, rfl⟩
    | ok q =>
      have hq := hreturns q rfl
      have hencode : ∀ granted, encodeCatalog granted q.1
          = .ok (q.1.flatMap encodeRecord) ∨
            encodeCatalog granted q.1 = .error (.error .catalogEncoding) := by
        intro granted
        cases granted with
        | true => exact Or.inl (encodeCatalog_ok hq.tail_le_i64 hq.chained)
        | false =>
          right
          unfold encodeCatalog
          rw [catalogLen_ok hq.tail_le_i64 hq.chained (Nat.zero_le _)]
          rfl
      rcases hencode scanner.catalogGranted with hok | herror
      · refine Or.inr ⟨n, q.1, q.2, rfl, hq, ?_⟩
        show (encodeCatalog scanner.catalogGranted q.1 >>= _) = _
        rw [hok]
        rfl
      · refine Or.inl ⟨.catalogEncoding, ?_⟩
        show (encodeCatalog scanner.catalogGranted q.1 >>= _) = _
        rw [herror]
        rfl

/-! ## The broadcasts -/

variable {ι : Type} [Finite ι] [Nonempty ι] {root : ι} {natives : Semantics sizeInterface ι Unit}
  {size : ℤ} {mayFail : Prop}

/-- The jobs of a scan: all ranks return values in `good` or all stop with errors in `bad`. -/
abbrev ScanJob {σ : Type} (root : ι) (natives : Semantics sizeInterface ι Unit) (mayFail : Prop)
    (good : (ι → σ) → Prop)
    (bad : (ι → Stop IoError) → Prop) (p : ι → FileProgram sizeInterface IoError σ) : Prop :=
  FileJob root natives mayFail (Together good bad) () p

/-- After `k` chunks every rank has the front of the catalog; rank zero has all of it. -/
structure ChunksReceived (catalog : List Byte) (root : ι) (k : ℕ) (bytes : ι → List Byte) :
    Prop where
  root : bytes root = catalog
  length : ∀ i, (bytes i).length = catalog.length
  front : ∀ i, (bytes i).take (chunkStart catalog.length k)
    = catalog.take (chunkStart catalog.length k)

theorem splice_front {bytes catalog : List Byte} {start stop : ℕ} (hstart : start ≤ stop)
    (hstop : stop ≤ catalog.length) (hfront : bytes.take start = catalog.take start) :
    (splice bytes start ((catalog.drop start).take (stop - start))).take stop
      = catalog.take stop := by
  have hjoin : catalog.take start ++ (catalog.drop start).take (stop - start)
      = catalog.take stop := by
    rw [← List.take_add, Nat.add_sub_cancel' hstart]
  unfold splice
  rw [hfront, hjoin]
  have hlen : (catalog.take stop).length = stop := by
    rw [List.length_take]
    omega
  rw [List.take_append_of_le_length hlen.ge, List.take_of_length_le hlen.le]

theorem splice_self {catalog : List Byte} {start stop : ℕ} (hstart : start ≤ stop)
    (hstop : stop ≤ catalog.length) :
    splice catalog start ((catalog.drop start).take (stop - start)) = catalog := by
  have hblock : ((catalog.drop start).take (stop - start)).length = stop - start := by
    rw [List.length_take, List.length_drop]
    omega
  unfold splice
  rw [hblock, ← List.take_add, Nat.add_sub_cancel' hstart, List.take_append_drop]

/-- **One chunk.** -/
theorem broadcastChunk_together {catalog : List Byte} (hcatalog : catalog.length ≤ i64Max) {k : ℕ}
    (hk : k < chunkCount catalog.length) {bytes : ι → List Byte}
    (hbytes : ChunksReceived catalog root k bytes) {bad : (ι → Stop IoError) → Prop}
    (hbad : mayFail → ∀ err, bad fun _ => .error err) :
    ScanJob root natives mayFail (ChunksReceived catalog root (k + 1)) bad
      fun i => broadcastChunk catalog.length (bytes i) k := by
  have hlimit : i64Max < usizeLimit := by decide
  have hmono := chunkStart_mono catalog.length k
  have hle := chunkStart_le catalog.length (k + 1)
  have hslice : ∀ i, slice? (bytes i) (chunkStart catalog.length k)
      (chunkStart catalog.length (k + 1)) = some (((bytes i).drop (chunkStart catalog.length k)).take
        (chunkStart catalog.length (k + 1) - chunkStart catalog.length k)) := by
    intro i
    apply slice?_eq hmono
    rw [hbytes.length]
    exact hle
  have hlen : ∀ i, (((bytes i).drop (chunkStart catalog.length k)).take
      (chunkStart catalog.length (k + 1) - chunkStart catalog.length k)).length
        = chunkStart catalog.length (k + 1) - chunkStart catalog.length k := by
    intro i
    rw [List.length_take, List.length_drop, hbytes.length]
    omega
  unfold broadcastChunk
  rw [chunkRange_eq (by omega) hk]
  simp only [hslice, orPanic_some_bind]
  apply bcastBytes_bind hlen (chunk_count_le _ _)
  intro ok received hreceived hlength hfail
  apply agreePhase_bind
  · intro hall
    apply fileJob_pure
    have hsame : ∀ i, received i = (catalog.drop (chunkStart catalog.length k)).take
        (chunkStart catalog.length (k + 1) - chunkStart catalog.length k) := by
      intro i
      rw [hreceived i (hall i), hbytes.root]
    refine Or.inl ⟨_, rfl, ?_, ?_, ?_⟩
    · simp only [hsame, hbytes.root]
      exact splice_self hmono hle
    · intro i
      rw [length_splice, hbytes.length]
      rw [hlength, hbytes.length]
      omega
    · intro i
      simp only [hsame]
      exact splice_front hmono hle (hbytes.front i)
  · rintro ⟨i, hi⟩
    refine Or.inr ⟨_, rfl, hbad ?_ _⟩
    rcases hfail with h | h
    · exact h
    · rw [h i] at hi
      cases hi

/-- **All chunks.** -/
theorem chunks_together {catalog : List Byte} (hcatalog : catalog.length ≤ i64Max)
    {bytes : ι → List Byte} (hroot : bytes root = catalog)
    (hlength : ∀ i, (bytes i).length = catalog.length) {bad : (ι → Stop IoError) → Prop}
    (hbad : mayFail → ∀ err, bad fun _ => .error err) :
    ScanJob root natives mayFail (fun received => received = fun _ => catalog) bad
      fun i => (List.range (chunkCount catalog.length)).foldlM (broadcastChunk catalog.length)
        (bytes i) := by
  have hstart : ChunksReceived catalog root 0 bytes := by
    refine ⟨hroot, hlength, fun i => ?_⟩
    unfold chunkStart
    rw [Nat.zero_mul, Nat.zero_min, List.take_zero, List.take_zero]
  have hloop : ScanJob root natives mayFail
      (ChunksReceived catalog root (List.range (chunkCount catalog.length)).length) bad
      fun i => (List.range (chunkCount catalog.length)).foldlM (broadcastChunk catalog.length)
        (bytes i) := by
    apply together_foldlM _ ?_ hstart trivial
    intro k a ha received w' hreceived _
    obtain ⟨hk, rfl⟩ := List.getElem?_eq_some_iff.mp ha
    rw [List.getElem_range]
    rw [List.length_range] at hk
    exact broadcastChunk_together hcatalog hk hreceived hbad
  refine hloop.mono (fun _ h => h) fun r _ h => h.mono (fun received hreceived => ?_) fun _ h => h
  funext i
  have hfront := hreceived.front i
  rw [List.length_range, chunkStart, Nat.min_eq_right (le_chunkCount_mul _), List.take_length,
    ← hreceived.length i, List.take_length] at hfront
  exact hfront

/-! ## What the ranks decode -/

/-- A record is only decoded when none of its allocations is refused. -/
theorem decodeRecord_grants {alloc : EntryAllocator} {bytes : List Byte} {size offset start : ℕ}
    {q : Rec × ℕ × ℕ} (h : decodeRecord alloc bytes size offset start = .ok q) :
    alloc = ⟨true, true, true⟩ := by
  obtain ⟨nameLen, _, h⟩ := bind_eq_ok.mp h
  obtain ⟨_, _, h⟩ := bind_eq_ok.mp h
  obtain ⟨typ, _, h⟩ := bind_eq_ok.mp h
  obtain ⟨width, _, h⟩ := bind_eq_ok.mp h
  obtain ⟨spatial, _, h⟩ := bind_eq_ok.mp h
  obtain ⟨extraRank, _, h⟩ := bind_eq_ok.mp h
  obtain ⟨payloadOffset, _, h⟩ := bind_eq_ok.mp h
  obtain ⟨_, _, h⟩ := bind_eq_ok.mp h
  obtain ⟨rank, _, h⟩ := bind_eq_ok.mp h
  obtain ⟨_, _, h⟩ := bind_eq_ok.mp h
  obtain ⟨name, _, h⟩ := bind_eq_ok.mp h
  obtain ⟨_, _, h⟩ := bind_eq_ok.mp h
  obtain ⟨metadataLen, _, h⟩ := bind_eq_ok.mp h
  obtain ⟨headerLen, _, h⟩ := bind_eq_ok.mp h
  obtain ⟨before, _, h⟩ := bind_eq_ok.mp h
  obtain ⟨_, _, h⟩ := bind_eq_ok.mp h
  obtain ⟨_, hglobal, h⟩ := bind_eq_ok.mp h
  obtain ⟨_, hextra, h⟩ := bind_eq_ok.mp h
  obtain ⟨dims, _, h⟩ := bind_eq_ok.mp h
  obtain ⟨payload, _, h⟩ := bind_eq_ok.mp h
  obtain ⟨stop, _, h⟩ := bind_eq_ok.mp h
  obtain ⟨_, _, h⟩ := bind_eq_ok.mp h
  obtain ⟨scalar, _, h⟩ := bind_eq_ok.mp h
  obtain ⟨_, hname, _⟩ := bind_eq_ok.mp h
  obtain ⟨global, extra, name⟩ := alloc
  simp only [ensure_eq_ok] at hglobal hextra hname
  rw [hglobal, hextra, hname]

theorem foldlM_ok_mono {α κ ε : Type} {f g : α → κ → Except ε α}
    (h : ∀ x a y, f x a = .ok y → g x a = .ok y) {l : List κ} {x y : α}
    (hf : l.foldlM f x = .ok y) : l.foldlM g x = .ok y := by
  induction l generalizing x with
  | nil => exact hf
  | cons a l ih =>
    rw [List.foldlM_cons] at hf ⊢
    obtain ⟨x', hx, hrest⟩ := bind_eq_ok.mp hf
    exact bind_eq_ok.mpr ⟨x', h x a x' hx, ih hrest⟩

theorem decodeCatalog_mono {granted : Bool} {alloc : ℕ → EntryAllocator} {bytes : List Byte}
    {count tail size : ℕ} {records : List Rec}
    (h : decodeCatalog granted alloc bytes count tail size = .ok records) :
    decodeCatalog true grantEntries bytes count tail size = .ok records := by
  obtain ⟨_, _, h⟩ := bind_eq_ok.mp h
  obtain ⟨q, hloop, h⟩ := bind_eq_ok.mp h
  refine bind_eq_ok.mpr ⟨(), rfl, bind_eq_ok.mpr ⟨q, ?_, h⟩⟩
  refine foldlM_ok_mono (fun x i y hstep => ?_) hloop
  obtain ⟨r, hrecord, hstep⟩ := bind_eq_ok.mp hstep
  have hgrants := decodeRecord_grants hrecord
  rw [hgrants] at hrecord
  exact bind_eq_ok.mpr ⟨r, hrecord, hstep⟩

/-- A rank decodes the records of rank zero, or an allocation was refused. -/
theorem decodeCatalog_cases {size maxRecords tail : ℕ} {records : List Rec}
    (h : ScanReturns size maxRecords (records, tail)) (granted : Bool)
    (alloc : ℕ → EntryAllocator) :
    decodeCatalog granted alloc (records.flatMap encodeRecord) records.length tail size
        = .ok records ∨
      decodeCatalog granted alloc (records.flatMap encodeRecord) records.length tail size
          = .error (.error ()) ∧
        (granted = false ∨ ∃ k, alloc k ≠ ⟨true, true, true⟩) := by
  have hround := decodeCatalog_encode h.tail_le_i64 h.chained
  have hbytes : (records.flatMap encodeRecord).length ≤ i64Max := by
    have hle : containerBytes + (records.flatMap encodeRecord).length ≤ tail :=
      h.chained.encode_le
    have htail : tail ≤ i64Max := h.tail_le_i64
    omega
  have hcalm := decodeCatalog_ne_panic hbytes granted alloc records.length tail size
  cases hdecoded : decodeCatalog granted alloc (records.flatMap encodeRecord) records.length
      tail size with
  | ok decoded =>
    rw [decodeCatalog_mono hdecoded] at hround
    exact Or.inl hround
  | error stop =>
    cases stop with
    | panic => exact absurd hdecoded hcalm
    | error _ =>
      refine Or.inr ⟨rfl, ?_⟩
      by_contra hgranted
      simp only [not_or, not_exists, not_not, Bool.not_eq_false] at hgranted
      obtain rfl : alloc = grantEntries := funext hgranted.2
      rw [hgranted.1, hround] at hdecoded
      contradiction

/-! ## The job -/

/-- An allocation of a rank other than zero is refused. -/
def ReceiverRefused (scanner : ι → Scanner) (root : ι) : Prop :=
  ∃ i, i ≠ root ∧ ((scanner i).receiveGranted = false ∨ (scanner i).entriesGranted = false ∨
    ∃ k, (scanner i).entryAlloc k ≠ ⟨true, true, true⟩)

/-- What the calls for the size promise: the sizes are in `sizes`, and where nothing fails every
rank gets the same one. -/
structure SizeCalls (natives : Semantics sizeInterface ι Unit) (mayFail : Prop) (sizes : ℤ → Prop) :
    Prop where
  live : ∃ replies, natives.Round () () (fun _ => ()) replies ()
  sizes : ∀ replies, natives.Round () () (fun _ => ()) replies () → ∀ i n, replies i = .ok n →
    n ≤ i64Max ∧ sizes n
  same : ∀ replies, natives.Round () () (fun _ => ()) replies () →
    mayFail ∨ ∃ n, ∀ i, replies i = .ok n

theorem sizeCalls_sizes (hsize : size ≤ i64Max) :
    SizeCalls (sizeCalls ι size mayFail) mayFail fun n => mayFail ∨ n = size where
  live := by
    refine ⟨fun _ => .ok size, ?_, Or.inr fun _ => rfl⟩
    rintro _ n ⟨⟩
    exact hsize
  sizes := by
    rintro replies ⟨hbound, hreplies⟩ i n hn
    refine ⟨hbound i n hn, hreplies.imp_right fun h => ?_⟩
    rw [h i] at hn
    exact (Except.ok.inj hn).symm
  same := fun replies h => h.2.imp_right fun h => ⟨size, h⟩

variable {sizes : ℤ → Prop}

/-- **The size** is the same on all ranks, or they all stop. -/
theorem agreedSize_together (hcalls : SizeCalls natives mayFail sizes)
    {bad : (ι → Stop IoError) → Prop} (hbad : mayFail → ∀ err, bad fun _ => .error err) :
    ScanJob root natives mayFail
      (fun x => ∃ n : ℤ, x = (fun _ => n) ∧ n ≤ i64Max ∧ sizes n) bad fun _ => agreedSize := by
  unfold agreedSize FileProgram.native
  apply perform_bind trivial trivial (fun _ _ => trivial)
  · obtain ⟨replies, hreplies⟩ := hcalls.live
    exact ⟨replies, (), hreplies⟩
  · intro replies w' hround
    have hsizes := hcalls.sizes replies hround
    have hreplies := hcalls.same replies hround
    apply agreePhase_bind
    · intro hall
      have hok : ∀ i, ∃ n, replies i = .ok n := by
        intro i
        have hi := hall i
        cases hreply : replies i with
        | ok n => exact ⟨n, rfl⟩
        | error code =>
          rw [hreply] at hi
          cases hi
      choose local' hlocal using hok
      have hlocalResult : ∀ i, (ofResult (N := sizeInterface)
          ((replies i).mapError fun code => IoError.mpi "MPI_File_get_size" code))
            = (Fallible.ofExcept (.ok (local' i)) : FileProgram sizeInterface IoError ℤ) := by
        intro i
        rw [hlocal i]
        rfl
      simp only [hlocalResult, Fallible.ofExcept_ok_bind]
      apply allReduceMin_bind
      intro least hleast
      apply agreedMax_bind
      intro greatest hgreatest
      by_cases heq : least = greatest
      · subst heq
        have hsame : ∀ i, local' i = least := fun i =>
          le_antisymm (hgreatest.2 (Set.mem_range_self i)) (hleast.2 (Set.mem_range_self i))
        simp only [ensure, decide_true, if_true]
        apply fileJob_pure
        refine Or.inl ⟨_, rfl, least, funext hsame, ?_⟩
        rw [← hsame root]
        exact hsizes root _ (hlocal root)
      · simp only [ensure, heq, decide_false]
        apply fileJob_fail_bind
        refine Or.inr ⟨_, rfl, hbad ?_ _⟩
        refine hreplies.resolve_right fun ⟨n, h⟩ => heq ?_
        have hconst : ∀ i, local' i = n := by
          intro i
          have := hlocal i
          rw [h i] at this
          exact (Except.ok.inj this).symm
        obtain ⟨i, hi⟩ := hleast.1
        obtain ⟨j, hj⟩ := hgreatest.1
        rw [← hi, ← hj, hconst, hconst]
    · rintro ⟨i, hi⟩
      refine Or.inr ⟨_, rfl, hbad ?_ _⟩
      refine hreplies.resolve_right fun ⟨n, h⟩ => ?_
      rw [h i] at hi
      cases hi

/-- **The catalog** reaches every rank, which then has the records of rank zero. -/
theorem receiveCatalog_together {scanner : ι → Scanner}
    (hroot : ∀ i, (scanner i).isRoot = true ↔ i = root) {n maxRecords tail : ℕ}
    {records : List Rec} (h : ScanReturns n maxRecords (records, tail))
    {rootScan : ι → Option (List Rec × List Byte)}
    (hscan : rootScan root = some (records, records.flatMap encodeRecord))
    {bad : (ι → Stop IoError) → Prop}
    (hbad : mayFail ∨ ReceiverRefused scanner root → ∀ err, bad fun _ => .error err) :
    ScanJob root natives mayFail (fun x => x = fun _ => (records, tail, n)) bad
      fun i => receiveCatalog (scanner i) (some n) (rootScan i)
        (records.flatMap encodeRecord).length records.length tail := by
  have hcatalog : (records.flatMap encodeRecord).length ≤ i64Max := by
    have hle : containerBytes + (records.flatMap encodeRecord).length ≤ tail :=
      h.chained.encode_le
    have htail : tail ≤ i64Max := h.tail_le_i64
    omega
  generalize hcatalogEq : records.flatMap encodeRecord = catalog at hscan hcatalog ⊢
  let bytes : ι → List Byte := fun i =>
    if (scanner i).isRoot then catalog else List.replicate catalog.length 0
  have hbuffer : ∀ i, (scanner i).buffer (rootScan i) catalog.length
      = Fallible.ofExcept (.ok (bytes i)) := by
    intro i
    unfold Scanner.buffer
    by_cases hi : (scanner i).isRoot = true
    · have hbytes : bytes i = catalog := if_pos hi
      rw [if_pos hi, hbytes, (hroot i).mp hi, hscan]
      rfl
    · have hbytes : bytes i = List.replicate catalog.length 0 := if_neg hi
      rw [if_neg hi, hbytes]
      rfl
  have hlength : ∀ i, (bytes i).length = catalog.length := by
    intro i
    by_cases hi : (scanner i).isRoot = true
    · exact congrArg List.length (if_pos hi)
    · have hbytes : bytes i = List.replicate catalog.length 0 := if_neg hi
      rw [hbytes, List.length_replicate]
  have hdecoded : ∀ i, (scanner i).decoded (rootScan i) catalog records.length tail n
        = .ok records ∨
      (scanner i).decoded (rootScan i) catalog records.length tail n = .error (.error ()) ∧
        ReceiverRefused scanner root := by
    intro i
    unfold Scanner.decoded
    by_cases hi : (scanner i).isRoot = true
    · left
      rw [if_pos hi, (hroot i).mp hi, hscan]
      rfl
    · rw [if_neg hi, ← hcatalogEq]
      have hcases := decodeCatalog_cases h (scanner i).entriesGranted (scanner i).entryAlloc
      refine hcases.imp_right fun hrefused => ⟨hrefused.1, i, ?_, Or.inr hrefused.2⟩
      exact fun hir => hi ((hroot i).mpr hir)
  have hbytesRoot : bytes root = catalog := if_pos ((hroot root).mpr rfl)
  have hchunks : ScanJob root natives mayFail (fun received => received = fun _ => catalog) bad
      fun i => (List.range (chunkCount catalog.length)).foldlM (broadcastChunk catalog.length)
        (bytes i) :=
    chunks_together hcatalog hbytesRoot hlength fun hfail => hbad (Or.inl hfail)
  unfold receiveCatalog
  simp only [hbuffer, Fallible.ofExcept_ok_bind]
  refine together_bind hchunks ?_
  rintro received w' rfl _
  simp only [Option.getD_some]
  apply agreePhase_bind
  · intro hall
    have hrecords : ∀ i, (scanner i).decoded (rootScan i) catalog records.length tail n
        = .ok records := by
      intro i
      refine (hdecoded i).resolve_right fun hrefused => ?_
      exact of_decide_eq_true (hall i) hrefused.1
    simp only [hrecords]
    exact fileJob_pure (Or.inl ⟨_, rfl, rfl⟩)
  · rintro ⟨i, hi⟩
    refine Or.inr ⟨_, rfl, hbad (Or.inr ?_) _⟩
    rcases hdecoded i with hok | hrefused
    · refine absurd ?_ (of_decide_eq_false hi)
      rw [hok]
      exact nofun
    · exact hrefused.2

/-- What rank zero sends fits the check of every rank. -/
theorem reportValid_of_returns {n maxRecords tail : ℕ} {records : List Rec}
    (h : ScanReturns n maxRecords (records, tail)) :
    reportValid (some n) (records.flatMap encodeRecord).length records.length tail n maxRecords
      = true := by
  have htail : tail ≤ n := h.tail_le
  have htail64 : tail ≤ i64Max := h.tail_le_i64
  have hcount : records.length ≤ maxRecords := h.count_le
  have hchained : Chained n containerBytes records tail := h.chained
  have hfits := hchained.encode_le
  have hlimit : i64Max < usizeLimit := by decide
  unfold reportValid
  simp only [Bool.and_eq_true, decide_eq_true_eq]
  refine ⟨⟨⟨⟨trivial, by omega⟩, htail⟩, hcount⟩, ?_⟩
  by_cases hnone : records.length = 0
  · obtain rfl := List.length_eq_zero_iff.mp hnone
    have hstart : containerBytes = tail := hchained
    rw [← hstart]
    rfl
  · rw [if_neg hnone]
    have hminimum : records.length * 48 ≤ (records.flatMap encodeRecord).length := by
      rw [List.length_flatMap]
      have hsum := List.card_nsmul_le_sum (records.map fun r => (encodeRecord r).length) 48 (by
        intro len hlen
        obtain ⟨r, _, rfl⟩ := List.mem_map.mp hlen
        rw [length_encodeRecord]
        omega)
      rwa [List.length_map, smul_eq_mul] at hsum
    rw [checkedMul_eq_some.mpr ⟨by omega, rfl⟩]
    exact decide_eq_true hminimum

/-- What rank zero has found and sends. -/
inductive Found (scanner : Scanner) (maxRecords : ℕ) :
    Option ℕ → List Byte × Option (List Rec × List Byte) → Prop where
  | failure {size : Option ℕ} (status : ScanStatus)
      (houtcome : scanner.outcome size maxRecords = .error (.error status)) :
      Found scanner maxRecords size (encodeReport status.code 0 0 0 0, none)
  | records {n tail : ℕ} {records : List Rec}
      (hreturns : ScanReturns n maxRecords (records, tail))
      (houtcome : scanner.outcome (some n) maxRecords
        = .ok (records, tail, records.flatMap encodeRecord)) :
      Found scanner maxRecords (some n)
        (encodeReport 0 (records.flatMap encodeRecord).length records.length tail n,
          some (records, records.flatMap encodeRecord))

theorem report_eq (scanner : Scanner) {size : Option ℕ} (maxRecords : ℕ)
    (hsize : ∀ n, size = some n → n < usizeLimit) :
    ∃ report, scanner.report size maxRecords = .ok report ∧ report.1.length = 40 ∧
      (scanner.isRoot = true → Found scanner maxRecords size report) := by
  unfold Scanner.report
  by_cases hroot : scanner.isRoot = true
  · rw [if_pos hroot]
    rcases outcome_cases scanner maxRecords hsize with
      ⟨status, houtcome⟩ | ⟨n, records, tail, rfl, hreturns, houtcome⟩
    · rw [houtcome]
      exact ⟨_, rfl, length_leString _ _, fun _ => .failure status houtcome⟩
    · rw [houtcome]
      exact ⟨_, rfl, length_leString _ _, fun _ => .records hreturns houtcome⟩
  · rw [if_neg hroot]
    exact ⟨_, rfl, length_leString _ _, fun h => absurd h hroot⟩

/-- **The scan of a file**: every rank returns the records of rank zero, or all of them stop with
one error, for which one of the ranks has a reason. -/
theorem scanFile_together (hcalls : SizeCalls natives mayFail sizes) {scanner : ι → Scanner}
    (hroot : ∀ i, (scanner i).isRoot = true ↔ i = root) (maxRecords : ℕ) :
    ScanJob root natives mayFail
      (fun x => ∃ n records tail, ScanReturns n maxRecords (records, tail) ∧
        (scanner root).outcome (some n) maxRecords
          = .ok (records, tail, records.flatMap encodeRecord) ∧
        sizes n ∧ x = fun _ => (records, tail, n))
      (fun e => (∃ err, e = fun _ => .error err) ∧ (mayFail ∨ ReceiverRefused scanner root ∨
        ∃ n status, sizes n ∧
          (scanner root).outcome (sizeTryFrom n) maxRecords = .error (.error status)))
      fun i => scanFileBounded (scanner i) maxRecords := by
  unfold scanFileBounded
  refine together_bind (agreedSize_together hcalls fun hfail err => ⟨⟨err, rfl⟩, Or.inl hfail⟩) ?_
  rintro x w' ⟨localSize, rfl, hbound, hlocal⟩ _
  beta_reduce
  have hlimit : i64Max < usizeLimit := by decide
  have hzero : 0 < usizeLimit := by decide
  have hfits : ∀ n, sizeTryFrom localSize = some n → (n : ℤ) = localSize ∧ n < usizeLimit := by
    intro n hn
    unfold sizeTryFrom at hn
    by_cases hpos : 0 ≤ localSize
    · rw [if_pos hpos] at hn
      obtain rfl := Option.some.inj hn
      omega
    · rw [if_neg hpos] at hn
      contradiction
  generalize hfoundSize : sizeTryFrom localSize = found at hfits ⊢
  choose report hreported hlength hfound using fun i =>
    report_eq (scanner i) maxRecords fun n hn => (hfits n hn).2
  simp only [hreported, Fallible.ofExcept_ok_bind]
  apply bcastBytes_bind hlength (by decide)
  intro ok received hreceived _ hfail
  apply agreePhase_bind
  · intro hall
    simp only [fun i => hreceived i (hall i)]
    have hsent := hfound root ((hroot root).mpr rfl)
    generalize hscan : report root = sent at hsent ⊢
    cases hsent with
    | failure status houtcome =>
      obtain ⟨hpos, hlt⟩ := status_code_pos status
      obtain ⟨err, herr⟩ := failureStatus_code status
      have hfields : reportFields (encodeReport status.code 0 0 0 0) = [status.code, 0, 0, 0, 0] :=
        reportFields_encodeReport hlt hzero hzero hzero hzero
      simp only [hfields, if_pos hpos, herr]
      apply fileJob_error
      refine Or.inr ⟨_, rfl, ⟨err, rfl⟩, Or.inr (Or.inr ⟨localSize, status, hlocal, ?_⟩)⟩
      rwa [hfoundSize]
    | @records n tail records hreturns houtcome =>
      have hchained : Chained n containerBytes records tail := hreturns.chained
      have htail : tail ≤ i64Max := hreturns.tail_le_i64
      have hcatalog := hchained.encode_le
      have hcount := hchained.length_le
      have hfields : reportFields (encodeReport 0 (records.flatMap encodeRecord).length
          records.length tail n) = [0, (records.flatMap encodeRecord).length, records.length, tail,
            n] :=
        reportFields_encodeReport hzero (by omega) (by omega) (by omega) (hfits n rfl).2
      have hrootScan : (report root).2 = some (records, records.flatMap encodeRecord) := by
        rw [hscan]
      simp only [hfields, reportValid_of_returns hreturns, Bool.true_and]
      apply agreePhase_bind
      · intro _
        refine Semantics.Ensures.mono (receiveCatalog_together hroot hreturns hrootScan ?_)
          (fun _ h => h) fun r _ h => h.mono ?_ fun _ h => h
        · rintro hbad err
          exact ⟨⟨err, rfl⟩, hbad.imp_right Or.inl⟩
        · rintro x rfl
          refine ⟨n, records, tail, hreturns, houtcome, ?_, rfl⟩
          rwa [(hfits n rfl).1]
      · rintro ⟨i, hi⟩
        refine Or.inr ⟨_, rfl, ⟨_, rfl⟩, Or.inr (Or.inl ⟨i, ?_, Or.inl ?_⟩)⟩
        · rintro rfl
          rw [(hroot i).mpr rfl] at hi
          cases hi
        · exact (Bool.or_eq_false_iff.mp hi).2
  · rintro ⟨i, hi⟩
    refine Or.inr ⟨_, rfl, ⟨_, rfl⟩, Or.inl ?_⟩
    refine hfail.resolve_right fun h => ?_
    rw [h i] at hi
    cases hi

theorem scanFileBounded_together (hsize : size ≤ i64Max) {scanner : ι → Scanner}
    (hroot : ∀ i, (scanner i).isRoot = true ↔ i = root) (maxRecords : ℕ) :
    ScanJob root (sizeCalls ι size mayFail) mayFail
      (fun x => ∃ n records tail, ScanReturns n maxRecords (records, tail) ∧
        (scanner root).outcome (some n) maxRecords
          = .ok (records, tail, records.flatMap encodeRecord) ∧
        (mayFail ∨ (n : ℤ) = size) ∧ x = fun _ => (records, tail, n))
      (fun e => (∃ err, e = fun _ => .error err) ∧ (mayFail ∨ ReceiverRefused scanner root ∨
        ∃ status, (scanner root).outcome (sizeTryFrom size) maxRecords = .error (.error status)))
      fun i => scanFileBounded (scanner i) maxRecords := by
  refine (scanFile_together (sizeCalls_sizes hsize) hroot maxRecords).mono (fun _ h => h) ?_
  refine fun r _ h => h.mono (fun _ hx => hx) ?_
  rintro e ⟨herr, hreason⟩
  refine ⟨herr, ?_⟩
  rcases hreason with hfail | hrefused | ⟨n, status, hfail | rfl, houtcome⟩
  · exact .inl hfail
  · exact .inr (.inl hrefused)
  · exact .inl hfail
  · exact .inr (.inr ⟨status, houtcome⟩)

end PencilRs.Analysis
