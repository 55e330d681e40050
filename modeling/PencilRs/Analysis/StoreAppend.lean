import PencilRs.Analysis.ContainerLog
import PencilRs.Analysis.Hdf5Files
import PencilRs.Analysis.Ranks
import PencilRs.Analysis.StoreWrite

/-!
# Appending a record on all ranks

The ranks scan the container, put the record behind its end, and write the commit word last.
Wherever calls fail and wherever the job dies, the container lists the records it listed before,
or these and the new one.  It lists the old ones wherever the ranks do not return that the commit
is uncertain, and the new one where they return no error.
-/

set_option autoImplicit false

namespace PencilRs.Analysis

open PencilRs.Computation PencilRs.Model PencilRs.Model.MpiIo NamedMpi FileProgram
open Semantics.Ensures

/-! ## What a container lists -/

/-- A file with a container that holds these records. -/
def Lists (records : List Rec) (image : Option (List Byte)) : Prop :=
  ∃ cells tail, image = some cells ∧ Holds cells records tail

section Held

variable {image base head : List Byte} {records records' : List Rec} {tail tail' : ℕ}
  {scanner : Scanner} {subject : Subject} {payload len stop : ℕ}

theorem Holds.unique (hsize : image.length < usizeLimit) (h : Holds image records tail)
    (h' : Holds image records' tail') : records = records' ∧ tail = tail' := by
  obtain ⟨reads, hscan⟩ := (scanImage_eq_ok_iff hsize).mpr h
  obtain ⟨reads', hscan'⟩ := (scanImage_eq_ok_iff hsize).mpr h'
  have heq := (Prod.mk.inj (Option.some.inj (hscan.symm.trans hscan'))).1
  exact Prod.mk.inj (Except.ok.inj heq)

/-- **What rank zero finds** in a file that may fail is what the container holds. -/
theorem holds_of_outcome (hfile : Honest scanner.file image) (hsize : image.length < usizeLimit)
    {catalog : List Byte} (h : scanner.outcome (some image.length) (usizeLimit - 1)
      = .ok (records, tail, catalog)) : Holds image records tail := by
  obtain ⟨size, hsome, hscanned⟩ := bind_eq_ok.mp h
  obtain rfl := Option.some.inj (okOr_eq_ok.mp hsome)
  obtain ⟨⟨result, reads⟩, hrun, hfound⟩ := bind_eq_ok.mp hscanned
  obtain ⟨⟨found, foundTail⟩, hresult, hencoded⟩ := bind_eq_ok.mp hfound
  obtain ⟨_, _, hmade⟩ := bind_eq_ok.mp hencoded
  obtain rfl := mapError_eq_ok.mp hresult
  obtain ⟨rfl, hrest⟩ := Prod.mk.inj (Except.ok.inj hmade)
  obtain ⟨rfl, _⟩ := Prod.mk.inj hrest
  exact (scanImage_eq_ok_iff hsize).mp ⟨reads, scanRoot_honest hfile (okOr_eq_ok.mp hrun)⟩

/-- The header fits at every place where the record ends in time. -/
theorem HeadOf.at (h : HeadOf subject 0 payload head len) (hfits : base.length + len ≤ i64Max) :
    HeadOf subject base.length payload head (base.length + len) where
  name_pos := h.name_pos
  name_le := h.name_le
  name_zero := h.name_zero
  global_pos := h.global_pos
  rank_le := h.rank_le
  payload_eq := h.payload_eq
  payload_lt := h.payload_lt
  stop_eq := by
    rw [h.stop_eq, Nat.zero_add]
    rfl
  stop_le := hfits
  head_eq := h.head_eq

theorem HeadOf.total_eq {offset : ℕ} (h : HeadOf subject offset payload head stop) :
    stop = offset + (head.length + payload + 8) := by
  rw [h.stop_eq, h.head_eq, length_headBytes]
  unfold recordLen
  omega

/-- What rank zero finds where nothing fails. -/
theorem outcome_of_holds (hsize : image.length < usizeLimit) (h : Holds image records tail)
    (hfile : scanner.file = imageFile image) (halloc : scanner.recordAlloc = grantRecords)
    (hgranted : scanner.catalogGranted = true) :
    scanner.outcome (some image.length) (usizeLimit - 1)
      = .ok (records, tail, records.flatMap encodeRecord) := by
  obtain ⟨reads, hscan⟩ := (scanImage_eq_ok_iff hsize).mpr h
  unfold Scanner.outcome
  refine bind_eq_ok.mpr ⟨_, rfl, bind_eq_ok.mpr ⟨(.ok (records, tail), reads), ?_,
    bind_eq_ok.mpr ⟨_, rfl, bind_eq_ok.mpr ⟨_, ?_, rfl⟩⟩⟩⟩
  · rw [hfile, halloc]
    exact okOr_eq_ok.mpr hscan
  · rw [hgranted]
    exact encodeCatalog_ok h.bounds.2.2 h.chain.chained

/-- **A record behind a container** leaves its records, and adds one once it is whole. -/
theorem publishes_append (hheld : Holds base records base.length)
    (hhead : HeadOf subject base.length payload head stop)
    (hnew : subject.name ∉ records.map Rec.name) :
    Publishes base head payload (Lists records) fun image =>
      Lists records image ∨ Lists (records ++ [recordOf subject base.length]) image where
  part := by
    intro rest hrest
    have htotal := hhead.total_eq
    have hle := hhead.stop_le
    have hlimit : i64Max < usizeLimit := by decide
    refine ⟨_, _, rfl, hheld.unfinished hhead ?_ ?_⟩
    · rwa [htotal, Nat.add_sub_cancel_left]
    · have := hrest.1
      rw [List.length_append]
      omega
  whole := by
    rintro bytes rfl
    have hle := hhead.stop_le
    have hlen := hhead.length_written
    have hlimit : i64Max < usizeLimit := by decide
    by_cases hscan : Scannable subject
    · exact .inr ⟨_, _, rfl, hheld.append hhead hscan hnew⟩
    · refine .inl ⟨_, _, rfl, hheld.append_lost hhead hscan ?_⟩
      rw [List.length_append, hlen]
      omega
  later := fun _ h => .inl h

end Held

/-! ## Where the record starts -/

section Start

variable {ι : Type} [Finite ι] [Nonempty ι] [DecidableEq ι] {J : NativeJob ι} {N M : ℕ}
  {scalar : ScalarType} {rank : ι → StoreRank} {target : ι → NamedView scalar N M}
  {w : NativeState ι} {safe : Option (List Byte) → Prop} {layout : ι → MpiLayout}
  {base head name : List Byte} {records : List Rec} {tail payload recordLen : ℕ}
  {bad : (ι → NamedIoError) → NativeState ι → Prop}

/-- The container can be appended to: rank zero finds the records, the last of them ends with the
file, and the name is new. -/
structure Appendable (J : NativeJob ι) (rank : ι → StoreRank) (base : List Byte)
    (records : List Rec) (name : List Byte) : Prop where
  size : base.length ≤ i64Max
  scanned : (rank J.root).scanner.outcome (some base.length) (usizeLimit - 1)
    = .ok (records, base.length, records.flatMap encodeRecord)
  received : ¬ReceiverRefused (fun i => (rank i).scanner) J.root
  new : name ∉ records.map Rec.name

/-- **The place of the record** is the end of the container. -/
theorem run_recordOffset (hjob : StoreJob J rank) (himage : w.image = some base)
    (hflushed : w.pending = []) (hfile : Honest (rank J.root).scanner.file base)
    (hheld : Holds base records tail) (hinv : Guards safe w)
    (hbad : J.mayFail ∨ ¬Appendable J rank base records name → ∀ e, bad e w) :
    J.Run safe (fun x w' => w' = w ∧ x = (fun _ => base.length) ∧ base.length ≤ i64Max ∧
        Holds base records base.length ∧ name ∉ records.map Rec.name) bad w
      fun i => recordOffset (rank i) name .append := by
  have hcells : w.cells = base := by
    unfold NativeState.cells
    rw [himage]
    rfl
  have hlimit : i64Max < usizeLimit := by decide
  have hscanRun : J.Run safe (fun x w' => w' = w ∧ ∃ found foundTail, base.length ≤ i64Max ∧
      (rank J.root).scanner.outcome (some base.length) (usizeLimit - 1)
        = .ok (found, foundTail, found.flatMap encodeRecord) ∧
      x = fun _ => (found, foundTail, base.length)) bad w
      fun i => scanFile (rank i).scanner (usizeLimit - 1) := by
    refine run_scanFile hjob.scanner (usizeLimit - 1) hflushed hinv ?_ ?_
    · intro found foundTail hsize houtcome
      rw [hcells] at hsize houtcome ⊢
      exact ⟨rfl, found, foundTail, hsize, houtcome, rfl⟩
    · rw [hcells]
      rintro (hfail | hlong | hrefused | ⟨status, hfailed⟩) e
      · exact hbad (.inl hfail) e
      · exact hbad (.inr fun h => absurd h.size (Nat.not_le_of_lt hlong)) e
      · exact hbad (.inr fun h => h.received hrefused) e
      · refine hbad (.inr fun h => ?_) e
        rw [h.scanned] at hfailed
        cases hfailed
  unfold recordOffset
  simp only [if_true]
  refine run_bind hscanRun ?_
  rintro _ w ⟨rfl, found, foundTail, hsize, houtcome, rfl⟩ _
  obtain ⟨rfl, rfl⟩ := (holds_of_outcome hfile (by omega) houtcome).unique (by omega) hheld
  by_cases hends : foundTail = base.length
  swap
  · refine run_ofResult_bind hinv (.inr ⟨fun _ => .invalidTail, funext fun _ =>
      if_neg (by simpa using hends), hbad (.inr fun h => hends ?_) _⟩)
    have := Except.ok.inj (houtcome.symm.trans h.scanned)
    exact (Prod.mk.inj (Prod.mk.inj this).2).1
  subst hends
  refine run_ofResult_bind hinv (.inl ⟨fun _ => (), funext fun _ => if_pos (decide_eq_true rfl),
    ?_⟩)
  by_cases hnew : name ∈ found.map Rec.name
  · refine run_ofResult_bind hinv (.inr ⟨fun _ => .duplicateName, funext fun _ => if_neg ?_,
      hbad (.inr fun h => h.new hnew) _⟩)
    intro h
    rw [Bool.not_eq_true'] at h
    exact any_name_eq_false.mp h hnew
  · refine run_ofResult_bind hinv (.inl ⟨fun _ => (), funext fun _ => if_pos ?_, ?_⟩)
    · rw [any_name_eq_false.mpr hnew]
      rfl
    · exact run_pure hinv ⟨rfl, rfl, hsize, hheld, hnew⟩

/-- **The header of the record** is written behind the container. -/
theorem run_startAppend (hjob : StoreJob J rank) (himage : w.image = some base)
    (hflushed : w.pending = []) (hview : ∀ i, w.view i = byteView)
    (hfile : Honest (rank J.root).scanner.file base) (hheld : Holds base records tail)
    {subject : Subject} (hname : subject.name = name)
    (hhead : HeadOf subject 0 payload head recordLen)
    {bad : (ι → NamedIoError × Progress) → NativeState ι → Prop}
    (hbad : J.mayFail ∨ ¬Appendable J rank base records name ∨ i64Max < base.length + recordLen →
      ∀ e w', (∀ i, (e i).2.markerAttempted = false) → Guards (Lists records) w' → bad e w') :
    J.Run (Lists records) (fun x w' => base.length + recordLen ≤ i64Max ∧
        Holds base records base.length ∧ name ∉ records.map Rec.name ∧
        (∃ datatype : ι → Bool, x = fun i =>
          (base.length, base.length + recordLen, datatype i)) ∧ Guards (Lists records) w' ∧
        ∀ writes, AllLanded w'.pending writes →
          w'.image.map (fun cells => pokeAll 0 cells writes) = some (base ++ head)) bad w
      fun i => startRecord (rank i) name .append (layout i) head recordLen := by
  have hinv : Guards (Lists records) w := guards_of_flushed hflushed (by
    rw [himage]
    exact ⟨base, tail, rfl, hheld⟩)
  have hroot : ∀ i, (rank i).member.isRoot = true ↔ i = J.root := by
    intro i
    rw [hjob.member i]
    exact decide_eq_true_iff
  have hstop : ∀ {w' : NativeState ι}, Guards (Lists records) w' →
      (J.mayFail ∨ ¬Appendable J rank base records name ∨ i64Max < base.length + recordLen) →
      ∀ (datatype : ι → Bool) (e : ι → NamedIoError),
        bad (fun i => (e i, ⟨datatype i, false⟩)) w' :=
    fun hw' hcause datatype e => hbad hcause _ _ (fun _ => rfl) hw'
  unfold startRecord
  refine run_bind (run_status hinv) ?_
  rintro replies w ⟨rfl, _, hsucceeds⟩ _
  have hfileSet : J.Run (Lists records) (fun _ w' => w' = w)
      (fun e w' => bad (fun i => (e i, ⟨false, false⟩)) w') w
      fun i => agreed (replies i).isOk "named file error-handler setup" :=
    run_agreed hinv (fun _ => rfl) fun ⟨i, hi⟩ =>
      hstop hinv (.inl (mayFail_of hsucceeds hi)) fun _ => false
  refine run_bind (run_during hfileSet) ?_
  rintro _ w rfl _
  refine run_bind (run_during (run_recordOffset hjob himage hflushed hfile hheld hinv fun hcause =>
    hstop hinv (hcause.imp_right .inl) fun _ => false)) ?_
  rintro _ w ⟨rfl, rfl, hsize, hends, hnew⟩ _
  have hlimit : i64Max < usizeLimit := by decide
  have hstopRun : J.Run (Lists records) (fun x w' => w' = w ∧ base.length + recordLen ≤ i64Max ∧
      x = fun _ => base.length + recordLen) (fun e w' => bad (fun i => (e i, ⟨false, false⟩)) w') w
      fun _ : ι => FileProgram.ofResult (okOr ((checkedAdd base.length recordLen).filter
        fun n => n ≤ i64Max) (.io (.sizeLimit "named container"))) := by
    by_cases hfits : base.length + recordLen ≤ i64Max
    · refine run_ofResult hinv (.inl ⟨fun _ => base.length + recordLen, funext fun _ =>
        okOr_eq_ok.mpr ?_, rfl, hfits, rfl⟩)
      rw [checkedAdd_eq_some.mpr ⟨by omega, rfl⟩, Option.filter_some, if_pos (by simpa using hfits)]
    · refine run_ofResult hinv (.inr ⟨fun _ => .io (.sizeLimit "named container"),
        funext fun _ => ?_, hstop hinv (.inr (.inr (Nat.lt_of_not_le hfits))) _ _⟩)
      have hnone : (checkedAdd base.length recordLen).filter (fun n => n ≤ i64Max) = none := by
        rw [Option.filter_eq_none_iff]
        intro n hn
        obtain ⟨_, rfl⟩ := checkedAdd_eq_some.mp hn
        simpa using hfits
      rw [hnone]
      rfl
  refine run_bind (run_during hstopRun) ?_
  rintro _ w ⟨rfl, hfits, rfl⟩ _
  have hpub := publishes_append hends (hhead.at hfits) (hname ▸ hnew)
  refine run_bind (run_status hinv) ?_
  rintro native w ⟨rfl, _, hsucceeds⟩ _
  have hdatatype : J.Run (Lists records) (fun _ w' => w' = w) (fun e w' => bad (fun i =>
      (e i, ⟨(native i).isOk && !(layout i).empty, false⟩)) w') w
      fun i => agreed (native i).isOk "named datatype" :=
    run_agreed hinv (fun _ => rfl) fun ⟨i, hi⟩ =>
      hstop hinv (.inl (mayFail_of hsucceeds hi)) _
  refine run_bind (run_during hdatatype) ?_
  rintro _ w rfl _
  have hnoHeader : J.Run (Lists records) (fun _ w' => w' = w) (fun e w' => bad (fun i =>
      (e i, ⟨(native i).isOk && !(layout i).empty, false⟩)) w') w
      fun i => writeContainerHeader (rank i) .append := run_pure hinv rfl
  refine run_bind (run_during hnoHeader) ?_
  rintro _ w rfl _
  have hcounts : ∀ count, Guards (Lists records)
      (w.write (onlyFrom J.root base.length (head.take count))) :=
    hpub.guards_head himage hflushed
  have hwhole : Guards (Lists records) (w.write (onlyFrom J.root base.length head)) := by
    have := hcounts head.length
    rwa [List.take_length] at this
  have hheader : J.Run (Lists records) (fun _ w' => w' = w.write (onlyFrom J.root base.length head))
      (fun e w' => bad (fun i => (e i, ⟨(native i).isOk && !(layout i).empty, false⟩)) w') w
      fun i => writeMetadata (rank i).member.isRoot base.length head :=
    run_writeMetadata hroot hview hinv hwhole rfl fun hfail count =>
      hstop (hcounts count) (.inl hfail) _
  refine run_bind (run_during hheader) ?_
  rintro _ _ rfl _
  refine run_pure hwhole ⟨hfits, hends, hnew, ⟨_, rfl⟩, hwhole, fun writes hwrites => ?_⟩
  obtain ⟨hlanded, hmade⟩ := flushed_write himage hflushed hwrites
  rw [hmade, pokeAll_append (allLanded_onlyFrom hlanded)]

/-! ## The closure -/

/-- A record behind `base` whose payload is what the ranks wrote. -/
structure Appended (layout : ι → MpiLayout) (packed : ι → List Byte) (base head : List Byte)
    (payload : ℕ) (image : List Byte) : Prop where
  written : ∃ writes rest, PayloadWrites layout packed (base ++ head).length writes ∧
    rest.length ≤ payload ∧ pokeAll 0 (base ++ head) writes = base ++ head ++ rest ∧
    image = base ++ written head (rest ++ List.replicate (payload - rest.length) 0)

/-- **The closure of an append.** -/
theorem run_writeRecord_append (hjob : StoreJob J rank) {target : ι → NamedView scalar N M}
    {packed : ι → List Byte} (hpacked : Packed rank target layout packed payload)
    (himage : w.image = some base)
    (hflushed : w.pending = []) (hview : ∀ i, w.view i = byteView)
    (hfile : Honest (rank J.root).scanner.file base) (hheld : Holds base records tail)
    {subject : Subject} (hname : subject.name = name)
    (hhead : HeadOf subject 0 payload head recordLen) :
    J.Run (fun image => Lists records image ∨
        Lists (records ++ [recordOf subject base.length]) image)
      (fun x w' => (∀ i, (x i).markerAttempted = true) ∧ w'.pending = [] ∧
        base.length + recordLen ≤ i64Max ∧ Holds base records base.length ∧
        name ∉ records.map Rec.name ∧ ∃ image, w'.image = some image ∧
          Appended layout packed base head payload image)
      (fun e w' => (J.mayFail ∨ ¬Appendable J rank base records name ∨
          i64Max < base.length + recordLen) ∧
        ((∀ i, (e i).2.markerAttempted = true) ∨
          (∀ i, (e i).2.markerAttempted = false) ∧ Guards (Lists records) w')) w
      fun i => writeRecord (rank i) name .append (layout i) (packed i) head recordLen := by
  simp only [writeRecord_eq]
  refine run_bind (run_weaken (run_startAppend hjob himage hflushed hview hfile hheld hname hhead
    fun hcause e w' hunmarked hguards => ⟨hcause, .inr ⟨hunmarked, hguards⟩⟩)
    fun _ => .inl) ?_
  rintro _ w ⟨hfits, hends, hnew, ⟨datatype, rfl⟩, hguards, hflush⟩ _
  dsimp only
  have hpub := publishes_append hends (hhead.at hfits) (hname ▸ hnew)
  have htotal := (hhead.at hfits).total_eq
  refine run_bind (run_mono (run_weaken (run_storePayload hpacked hpub List.length_append.symm
    hguards hflush) fun _ => .inl) (fun _ _ h => h) ?_) ?_
  · rintro e w' ⟨hfail, hunmarked, hguards⟩
    exact ⟨.inl hfail, .inr ⟨hunmarked, hguards⟩⟩
  rintro _ w ⟨hpending, hview, writes, rest, hwrites, hlen, hrest, himage⟩ _
  refine run_mono (run_storeMarker hjob hpub hlen ?_ himage hpending hview) ?_ ?_
  · rw [List.length_append]
    omega
  · rintro x w' ⟨hmarked, hpending, himage⟩
    exact ⟨hmarked, hpending, hfits, hends, hnew, _, himage, writes, rest,
      by rwa [List.length_append], hlen, hrest, rfl⟩
  · rintro e w' ⟨hfail, hmarked⟩
    exact ⟨.inl hfail, .inl hmarked⟩

end Start

/-! ## The operation -/

section Append

variable {ι : Type} [Finite ι] [Nonempty ι] [DecidableEq ι] {J : NativeJob ι} {N M : ℕ}
  {scalar : ScalarType} {rank : ι → StoreRank} {target : ι → NamedView scalar N M}
  {optionsAgreed inject : Bool} {w : NativeState ι} {base : List Byte} {records : List Rec}
  {tail : ℕ}

/-- The axes of the decomposition are agreed where the ranks have options. -/
def AxesAgree (J : NativeJob ι) (rank : ι → StoreRank) (target : ι → NamedView scalar N M) : Prop :=
  ControlsAgree J (fun i => (rank i).limits) (fun i => (rank i).alloc.axes)
    (fun _ => ⟨.collective, []⟩)
    fun i => List.ofFn fun a => ((target i).view.pencil.decomposition.axes a).val

/-- Nothing is in the way of an append. -/
structure AppendReady (J : NativeJob ι) (rank : ι → StoreRank) (target : ι → NamedView scalar N M)
    (inject optionsAgreed : Bool) (base : List Byte) (records : List Rec) : Prop where
  calls : ¬J.mayFail
  inject : inject = false
  axes : AxesAgree J rank target
  appendable : Appendable J rank base records (target J.root).name
  prepared : ∃ layout packed head recordLen,
    StorePrepared J rank target .append optionsAgreed layout packed head recordLen ∧
      base.length + recordLen ≤ i64Max

/-- What an append without an error has made. -/
structure HasAppended (J : NativeJob ι) (rank : ι → StoreRank) (target : ι → NamedView scalar N M)
    (optionsAgreed : Bool) (base : List Byte) (records : List Rec) (image : List Byte) : Prop where
  ends : Holds base records base.length
  new : (target J.root).name ∉ records.map Rec.name
  record : ∃ layout packed head recordLen payload,
    StorePrepared J rank target .append optionsAgreed layout packed head recordLen ∧
      HeadOf (target J.root).subject base.length payload head (base.length + recordLen) ∧
      Appended layout packed base head payload image

/-- **An append.** -/
theorem run_writeNamed_append (hjob : StoreJob J rank)
    (hmodes : optionsAgreed = true → ∃ kind, ∀ i, transferMode (rank i).options = kind)
    (himage : w.image = some base) (hflushed : w.pending = [])
    (hfile : Honest (rank J.root).scanner.file base) (hheld : Holds base records tail) :
    J.Run (fun image => Lists records image ∨
        Lists (records ++ [recordOf (target J.root).subject base.length]) image)
      (fun _ w' => w'.pending = [] ∧ ∃ image, w'.image = some image ∧
        HasAppended J rank target optionsAgreed base records image)
      (fun e w' => ¬AppendReady J rank target inject optionsAgreed base records ∧
        ((∀ i, e i = .io (.commitUncertain "named commit or cleanup")) ∨
          Guards (Lists records) w')) w
      fun i => writeNamed (rank i) (target i) .append inject optionsAgreed := by
  have hbefore : Guards (Lists records) w := guards_of_flushed hflushed (by
    rw [himage]
    exact ⟨base, tail, rfl, hheld⟩)
  have hinv : Guards (fun image => Lists records image ∨
      Lists (records ++ [recordOf (target J.root).subject base.length]) image) w :=
    hbefore.mono fun _ => .inl
  simp only [writeNamed_eq]
  have hprepareRun : J.Run (fun image => Lists records image ∨
      Lists (records ++ [recordOf (target J.root).subject base.length]) image)
      (fun x w' => w' = w ∧ ∃ layout packed head recordLen,
        StorePrepared J rank target .append optionsAgreed layout packed head recordLen ∧
        x = fun i => (J.path, layout i, packed i, head, recordLen))
      (fun e w' => ¬AppendReady J rank target inject optionsAgreed base records ∧
        ((∀ i, e i = .io (.commitUncertain "named commit or cleanup")) ∨
          Guards (Lists records) w')) w
      fun i => prepareWrite (rank i) (target i) .append optionsAgreed := by
    refine run_prepareWrite hjob hinv (fun layout packed head recordLen h =>
      ⟨rfl, layout, packed, head, recordLen, h, rfl⟩)
      fun hnone _ => ⟨fun hready => ?_, .inr hbefore⟩
    obtain ⟨layout, packed, head, recordLen, h, _⟩ := hready.prepared
    exact hnone ⟨layout, packed, head, recordLen, h⟩
  refine run_bind hprepareRun ?_
  rintro _ w ⟨rfl, layout, packed, head, recordLen, hprepared, rfl⟩ _
  obtain ⟨payload, hhead, hpacked⟩ := hprepared.parts hmodes
  dsimp only [StoreOperation.mode]
  have hopened : ∀ made, afterOpen .update w made = w.image := by
    intro made
    unfold afterOpen opened
    cases made with
    | true => rw [himage]; rfl
    | false => rfl
  have hopenRun : J.Run (fun image => Lists records image ∨
      Lists (records ++ [recordOf (target J.root).subject base.length]) image)
      (fun _ w' => w' = { w with view := fun _ => byteView })
      (fun e w' => ¬AppendReady J rank target inject optionsAgreed base records ∧
        ((∀ i, e i = .io (.commitUncertain "named commit or cleanup")) ∨
          Guards (Lists records) w')) w
      fun i => openPhase (rank i) (target i) .update J.path := by
    refine run_openPhase hjob hprepared.preflight.options_isSome hinv ?_ ?_ ?_
    · rintro _ ⟨made, view, rfl⟩
      exact hinv.of_same (hopened made) rfl
    · intro _
      rw [hopened]
    · rintro hcause _ ⟨made, view, rfl⟩ e
      refine ⟨fun hready => ?_, .inr (hbefore.of_same (hopened made) rfl)⟩
      rcases hcause with hfail | hnone | haxes
      · exact hready.calls hfail
      · unfold opened at hnone
        rw [himage] at hnone
        cases hnone
      · exact haxes hready.axes
  refine run_bind hopenRun ?_
  rintro _ _ rfl hinv
  have hnames : ∀ i, (target i).name = (target J.root).name := fun i =>
    hprepared.preflight.names.same i J.root
  simp only [hnames]
  have hname : (target J.root).subject.name = (target J.root).name := rfl
  refine run_captured_bind (run_writeRecord_append (w := { w with view := fun _ => byteView })
    hjob hpacked himage hflushed (fun _ => rfl) hfile hheld hname hhead) ?_ ?_
  · rintro x w' ⟨hmarked, hpending, hfits, hends, hnew, image, himage, happended⟩ hinv'
    refine run_concludeWrite_ok hjob hmarked hinv' (fun _ => ?_) fun hinject => ?_
    · exact ⟨hpending, image, himage, hends, hnew, layout, packed, head, recordLen, payload,
        hprepared, hhead.at hfits, happended⟩
    · refine ⟨fun hready => ?_, .inl fun _ => rfl⟩
      rw [hready.inject] at hinject
      cases hinject
  · rintro e w' ⟨hcause, hreached⟩ hinv'
    have hnot : ¬AppendReady J rank target inject optionsAgreed base records := by
      intro hready
      rcases hcause with hfail | hblocked | hlong
      · exact hready.calls hfail
      · exact hblocked hready.appendable
      · obtain ⟨_, _, head', recordLen', h', hfits⟩ := hready.prepared
        have hmade := record_unique (hprepared.head J.root) (h'.head J.root)
        rw [(Prod.mk.inj hmade).2] at hlong
        omega
    refine run_concludeWrite_error hinv' (fun _ => ⟨hnot, .inl fun _ => rfl⟩)
      (fun hunmarked => ⟨hnot, .inr ?_⟩) (hreached.imp_right And.left)
    rcases hreached with hmarked | ⟨_, hguards⟩
    · have hboth := (hmarked J.root).symm.trans (hunmarked J.root)
      cases hboth
    · exact hguards

omit [Finite ι] [Nonempty ι] [DecidableEq ι] in
/-- A record that the scan can find is listed. -/
theorem HasAppended.holds {image : List Byte}
    (h : HasAppended J rank target optionsAgreed base records image)
    (hscan : Scannable (target J.root).subject) :
    Holds image (records ++ [recordOf (target J.root).subject base.length]) image.length := by
  obtain ⟨layout, packed, head, recordLen, payload, _, hhead, happended⟩ := h.record
  obtain ⟨writes, rest, _, hlen, _, rfl⟩ := happended.written
  have hbytes : (rest ++ List.replicate (payload - rest.length) 0).length = payload := by
    rw [List.length_append, List.length_replicate]
    omega
  exact h.ends.append (hbytes.symm ▸ hhead) hscan h.new

end Append

/-! ## A distributed array -/

section Arrays

variable {N M : ℕ} {scalar : ScalarType} {topology : MpiTopology M}
  {pencils : DistributedPencil topology N} {extraShape : ExtraShape}
  {view : DistributedView pencils extraShape scalar.Value} {values : List scalar.Value}
  {J : NativeJob (Coords topology.processGrid)} {rank : Coords topology.processGrid → StoreRank}
  {target : Coords topology.processGrid → NamedView scalar N M} {optionsAgreed inject : Bool}
  {w : NativeState (Coords topology.processGrid)} {base image : List Byte} {records : List Rec}
  {tail : ℕ}

/-- The record of an append holds the global array. -/
theorem HasAppended.array_eq
    (hmodes : optionsAgreed = true → ∃ kind, ∀ c, transferMode (rank c).options = kind)
    (hviews : ∀ c, (target c).view = view.on c) (hvalues : IsGlobalArray view values)
    (h : HasAppended J rank target optionsAgreed base records image) :
    image = base ++ recordBytes (recordOf (target J.root).subject base.length)
      (values.flatMap scalar.encodeLe) := by
  have : Nonempty (Coords topology.processGrid) := ⟨topology.here⟩
  obtain ⟨layout, packed, head, recordLen, payload, hprepared, hhead, happended⟩ := h.record
  obtain ⟨payload', hhead', hpacked⟩ := hprepared.parts hmodes
  obtain rfl : payload = payload' := hhead.payload_eq.trans hhead'.payload_eq.symm
  have hblocks : ∀ c, ∃ block, IsPacked (view.on c) block ∧
      packed c = block.flatMap scalar.encodeLe := by
    intro c
    obtain ⟨_, _, block, hblock, hbytes⟩ := packView_eq_ok.mp (hprepared.packed c)
    exact ⟨block, hviews c ▸ hblock, hbytes⟩
  choose blocks hblocks hbytes using hblocks
  obtain ⟨writes, rest, hwrites, _, hrest, rfl⟩ := happended.written
  obtain ⟨rfl, hlen⟩ := payloadWrites_eq hpacked hviews hvalues hblocks hbytes hwrites hrest
  subst hlen
  rw [Nat.sub_self, List.replicate_zero, List.append_nil, hhead.written_eq]

/-- **An append stores the array.**  Where the ranks hold the blocks of a distributed array, an
append without an error puts the elements of the whole array, in row-major order, behind the
container. -/
theorem append_stores_array (hjob : StoreJob J rank)
    (hmodes : optionsAgreed = true → ∃ kind, ∀ c, transferMode (rank c).options = kind)
    (hviews : ∀ c, (target c).view = view.on c) (hvalues : IsGlobalArray view values)
    (himage : w.image = some base) (hflushed : w.pending = [])
    (hfile : Honest (rank J.root).scanner.file base) (hheld : Holds base records tail) :
    J.Correct (fun image => Lists records image ∨
        Lists (records ++ [recordOf (target J.root).subject base.length]) image)
      (fun _ w' => w'.pending = [] ∧ w'.image = some (base ++ recordBytes
        (recordOf (target J.root).subject base.length) (values.flatMap scalar.encodeLe)))
      (fun _ _ => ¬AppendReady J rank target inject optionsAgreed base records) w
      fun c => writeNamed (rank c) (target c) .append inject optionsAgreed := by
  have : Nonempty (Coords topology.processGrid) := ⟨topology.here⟩
  refine run_correct (run_mono (run_writeNamed_append hjob hmodes himage hflushed hfile hheld)
    ?_ fun _ _ h => h.1)
  rintro _ w' ⟨hpending, image, himage, happended⟩
  exact ⟨hpending, himage.trans (congrArg some (happended.array_eq hmodes hviews hvalues))⟩

end Arrays

/-! ## Six bytes on two ranks -/

/-- Two ranks and a file whose calls do not fail. -/
def byteJob : NativeJob (Coords twoRanks.processGrid) where
  root := twoRanks.here
  path := [112]
  order := ranksInOrder twoRanks
  mem_order := mem_ranksInOrder twoRanks
  mayFail := False

/-- Nothing is refused to these ranks, and the file at their path is `image`. -/
def byteRank (image : List Byte) (c : Coords twoRanks.processGrid) : StoreRank where
  member := byteJob.member c
  path := [112]
  options := none
  limits := ⟨255, 1024⟩
  scanner := ⟨decide (c = twoRanks.here), imageFile image, grantRecords, true, true, true,
    fun _ => ⟨true, true, true⟩⟩
  alloc := {
    descriptor := true
    name := true
    controls := ⟨true, true⟩
    path := true
    layout := true
    pack := ⟨true, true, true⟩
    head := ⟨true, true⟩
    axes := ⟨true, true⟩
    staging := true
    decode := ⟨true, true, true⟩ }

theorem byteJob_store (image : List Byte) : StoreJob byteJob (byteRank image) where
  member := fun _ => rfl
  scanner := fun _ => decide_eq_true_iff
  path := rfl

theorem isUtf8_a : NamedMpi.isUtf8 [97] = true := by
  decide

/-- The rows of bytes under the name "a". -/
def byteTarget (c : Coords twoRanks.processGrid) : NamedView .u8 2 1 where
  name := [97]
  view := byteRows.on c
  name_utf8 := isUtf8_a
  dims_lt := by
    revert c
    decide

/-- An empty container. -/
def emptyContainer : NativeState (Coords twoRanks.processGrid) where
  image := some containerHeader
  pending := []
  view := fun _ => byteView

theorem holds_containerHeader : Holds containerHeader [] containerBytes := Log.empty.holds nofun

theorem exists_ok {ε α : Type} {result : Except ε α} (h : result.isOk = true) :
    ∃ value, result = .ok value := by
  cases result with
  | error e => cases h
  | ok value => exact ⟨value, rfl⟩

/-- Nothing is in the way of these ranks. -/
theorem append_ready : AppendReady byteJob (byteRank containerHeader) byteTarget false false
    containerHeader [] where
  calls := id
  inject := rfl
  axes := by
    refine ⟨⟨leString 8 [0, 0, 0], by decide, fun c => ?_⟩, fun _ => rfl⟩
    revert c
    decide
  appendable := {
    size := by decide
    scanned := outcome_of_holds (by decide) holds_containerHeader rfl rfl rfl
    received := by
      rintro ⟨i, _, h | h | ⟨k, h⟩⟩
      · cases h
      · cases h
      · exact h rfl
    new := nofun }
  prepared := by
    have hlayout : ∀ c, (payloadLayout true (byteTarget c).view).isOk = true := by decide
    choose layout hlayout using fun c => exists_ok (hlayout c)
    have hpacked : ∀ c, ∃ packed, packView ⟨true, true, true⟩ (byteTarget c).view = .ok packed := by
      intro c
      obtain ⟨values, _, _, hvalues⟩ := foldlM_packElement (byteRows.on c)
      exact ⟨_, packView_eq_ok.mpr
        ⟨⟨rfl, rfl, rfl⟩, (byteRows_writable.2 c).2, values, hvalues, rfl⟩⟩
    choose packed hpacked using hpacked
    have hrecord : (record ⟨true, true⟩ (byteTarget byteJob.root).subject 0).map Prod.snd
        = .ok 119 := by
      decide
    obtain ⟨⟨head, recordLen⟩, hrecord, hlen⟩ := map_eq_ok.mp hrecord
    obtain rfl : recordLen = 119 := hlen
    refine ⟨layout, packed, head, 119, ?_, ?_⟩
    · refine ⟨⟨?_, ⟨fun _ => rfl, fun _ _ => rfl, fun _ => rfl⟩, ?_, fun _ => rfl⟩, hlayout,
        hpacked, fun _ => hrecord⟩
      · refine ⟨fun _ _ => rfl, fun c => ?_, fun _ => rfl⟩
        have hbuilt : (MpiIo.buildDescriptor (requests (byteRank []) byteTarget .append
            byteJob.root)).isOk = true := by decide +kernel
        obtain ⟨descriptor, hbuilt⟩ := exists_ok hbuilt
        refine ⟨descriptor, hbuilt, ?_⟩
        obtain ⟨_, _, hle⟩ := io_buildDescriptor_eq_ok hbuilt
        have horder : byteJob.order.length = 2 := by decide
        have hmax : maxDescriptorBytes * 2 ≤ 64 * 1024 * 1024 := by decide
        rw [horder]
        omega
      · exact fun _ options h => nomatch h byteJob.root
    · decide

theorem append_stores_array_rows : ∃ values : List ScalarType.u8.Value,
    byteJob.Correct (fun image => Lists [] image ∨
        Lists [recordOf (byteTarget byteJob.root).subject containerBytes] image)
      (fun _ w' => w'.pending = [] ∧ w'.image = some (containerHeader ++ recordBytes
        (recordOf (byteTarget byteJob.root).subject containerBytes)
        (values.flatMap ScalarType.u8.encodeLe)))
      (fun _ _ => ¬AppendReady byteJob (byteRank containerHeader) byteTarget false false
        containerHeader []) emptyContainer
      fun c => writeNamed (byteRank containerHeader c) (byteTarget c) .append false false := by
  obtain ⟨values, hvalues⟩ := exists_globalArray byteRows
  have hmodes : false = true → ∃ kind, ∀ c, transferMode (byteRank containerHeader c).options
      = kind := nofun
  have hviews : ∀ c, (byteTarget c).view = byteRows.on c := fun _ => rfl
  exact ⟨values, append_stores_array (byteJob_store _) hmodes hviews hvalues rfl rfl
    (honest_imageFile _) holds_containerHeader⟩

/-! ## Before the file is opened -/

end PencilRs.Analysis
