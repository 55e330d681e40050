import PencilRs.Analysis.FileCollectives
import PencilRs.Model.MpiProtocol

/-!
# Runs on a native file

A run keeps a property of what may be on the disk, whatever native calls fail and wherever the job
dies; its ranks go on together, or stop together with errors and without a panic.  It aborts only
where calls may fail.
-/

set_option autoImplicit false

namespace PencilRs.Analysis

open PencilRs.Computation PencilRs.Model PencilRs.Model.MpiIo FileProgram Semantics.Ensures
open Hdf5 (collectiveState abortUnrecoverable)

/-- A job with its rank zero, its file and its ranks in order. -/
structure NativeJob (ι : Type) where
  root : ι
  path : List Byte
  order : List ι
  mem_order : ∀ i, i ∈ order
  mayFail : Prop

/-- Whatever the job leaves on the disk is safe. -/
def Guards {ι : Type} (safe : Option (List Byte) → Prop) (w : NativeState ι) : Prop :=
  ∀ image, w.OnDisk image → safe image

section Guarding

variable {ι : Type} {safe safe' : Option (List Byte) → Prop} {w w' : NativeState ι}

theorem Guards.of_same (h : Guards safe w) (himage : w'.image = w.image)
    (hpending : w'.pending = w.pending) : Guards safe w' := by
  intro image hdisk
  refine h image ?_
  obtain ⟨writes, hlanded, rfl⟩ := hdisk
  rw [hpending] at hlanded
  rw [himage]
  exact ⟨writes, hlanded, rfl⟩

theorem Guards.mono (h : Guards safe w) (hsafe : ∀ image, safe image → safe' image) :
    Guards safe' w := fun image hdisk => hsafe image (h image hdisk)

/-- What is flushed was possible before. -/
theorem Guards.flushed (h : Guards safe w) {writes : List (ℕ × Byte)}
    (hwrites : AllLanded w.pending writes) : Guards safe { w with
      image := w.image.map fun cells => pokeAll 0 cells writes, pending := [] } := by
  rintro image ⟨more, hmore, rfl⟩
  obtain rfl := landed_nil_iff.mp hmore
  refine h _ ⟨writes, hwrites.landed, ?_⟩
  show (w.image.map _).map _ = _
  rw [Option.map_map]
  rfl

/-- A file without unflushed writes holds what was flushed. -/
theorem guards_of_flushed (hpending : w.pending = []) (h : safe w.image) : Guards safe w := by
  rintro image ⟨writes, hlanded, rfl⟩
  rw [hpending] at hlanded
  obtain rfl := landed_nil_iff.mp hlanded
  have hsame : (w.image.map fun cells => pokeAll 0 cells []) = w.image := by
    cases w.image <;> rfl
  rwa [hsame]

/-- A rank that writes less leaves nothing that it could not have left otherwise. -/
theorem Guards.shorter {call : WriteCall ι Byte} (h : Guards safe (w.write call))
    (count : ι → ℕ) : Guards safe (w.write fun i => (call i).take (count i)) := by
  rintro image ⟨writes, hlanded, rfl⟩
  exact h _ ⟨writes, Landed.of_shorter hlanded, rfl⟩

end Guarding

/-! ## Runs -/

namespace NativeJob

variable {ι ε ε' β σ : Type} (J : NativeJob ι)

/-- What rank `i` knows of the job. -/
def member [DecidableEq ι] (i : ι) : Member := ⟨i = J.root, J.order.length⟩

/-- The calls of the job. -/
def calls : Semantics (fileInterface mpiInterface) ι (NativeState ι) :=
  fileCollectives J.root (mpiCalls J.root J.path J.order J.mayFail) J.mayFail

/-- All ranks return values in `good`, or all of them errors in `bad`; on the disk is always
something safe. -/
abbrev Run (safe : Option (List Byte) → Prop) (good : (ι → β) → NativeState ι → Prop)
    (bad : (ι → ε) → NativeState ι → Prop) (w : NativeState ι) (p : ι → MpiProgram ε β) : Prop :=
  J.calls.Ensures (fun _ _ _ => True) (Guards safe) (fun _ => J.mayFail)
    (fun r w' => Together (fun x => good x w')
      (fun e => ∃ err, e = (fun i => Stop.error (err i)) ∧ bad err w') r) w fun i => (p i).run

/-- What is shown of a job: every run of it ends, and does not get stuck.  All ranks return values
in `good` or all of them errors in `bad`; a rank aborts only where calls may fail, and wherever the
job dies, something safe is on the disk. -/
abbrev Correct (safe : Option (List Byte) → Prop) (good : (ι → β) → NativeState ι → Prop)
    (bad : (ι → ε) → NativeState ι → Prop) (w : NativeState ι) (p : ι → MpiProgram ε β) : Prop :=
  J.calls.Correct (fun _ _ _ => True) (Guards safe) (fun _ => J.mayFail)
    (fun r w' => Together (fun x => good x w')
      (fun e => ∃ err, e = (fun i => Stop.error (err i)) ∧ bad err w') r) ⟨w, fun i => (p i).run⟩

end NativeJob

section Rules

variable {ι ε ε' β σ : Type} {J : NativeJob ι} {safe safe' : Option (List Byte) → Prop}
  {good good' : (ι → β) → NativeState ι → Prop} {bad bad' : (ι → ε) → NativeState ι → Prop}
  {w : NativeState ι}

theorem run_pure {x : ι → β} (hinv : Guards safe w) (h : good x w) :
    J.Run safe good bad w fun i => (pure (x i) : MpiProgram ε β) :=
  .returned _ (fun _ => rfl) hinv (Or.inl ⟨x, rfl, h⟩)

theorem run_fail {e : ι → ε} (hinv : Guards safe w) (h : bad e w) :
    J.Run safe good bad w fun i => (FileProgram.fail (e i) : MpiProgram ε β) :=
  .returned _ (fun _ => rfl) hinv (Or.inr ⟨_, rfl, e, rfl, h⟩)

theorem run_mono {p : ι → MpiProgram ε β} (h : J.Run safe good bad w p)
    (hgood : ∀ x w', good x w' → good' x w') (hbad : ∀ e w', bad e w' → bad' e w') :
    J.Run safe good' bad' w p :=
  Semantics.Ensures.mono h (fun _ h => h) fun _ w' h => h.mono (fun x hx => hgood x w' hx)
    fun _ ⟨err, heq, herr⟩ => ⟨err, heq, hbad err w' herr⟩

theorem run_weaken {p : ι → MpiProgram ε β} (h : J.Run safe good bad w p)
    (hsafe : ∀ image, safe image → safe' image) : J.Run safe' good bad w p :=
  Semantics.Ensures.weaken h fun _ hw => hw.mono hsafe

/-- Every rank aborts. -/
theorem run_abort [Nonempty ι] (hinv : Guards safe w) (h : J.mayFail) :
    J.Run safe good bad w fun _ => (abortUnrecoverable : MpiProgram ε β) :=
  .aborted (Classical.arbitrary ι) rfl hinv h

/-- Some rank aborts. -/
theorem run_abort_of {p : ι → MpiProgram ε β} (i : ι) (hi : p i = abortUnrecoverable)
    (hinv : Guards safe w) (h : J.mayFail) : J.Run safe good bad w p :=
  .aborted i (congrArg ExceptT.run hi) hinv h

theorem run_captured {p : ι → MpiProgram ε β} (h : J.Run safe good bad w p) :
    J.Run (ε := ε') safe (fun x w' => (∃ y, x = (fun i => .ok (y i)) ∧ good y w') ∨
      ∃ e, x = (fun i => .error (e i)) ∧ bad e w') (fun _ _ => False) w
      fun i => captured (p i) := by
  refine Semantics.Ensures.bind (f := fun _ r => .ret (caught r)) h ?_
  rintro _ w' (⟨y, rfl, hy⟩ | ⟨_, rfl, e, rfl, he⟩) hinv
  · exact .returned _ (fun _ => rfl) hinv (Or.inl ⟨_, rfl, Or.inl ⟨y, rfl, hy⟩⟩)
  · exact .returned _ (fun _ => rfl) hinv (Or.inl ⟨_, rfl, Or.inr ⟨e, rfl, he⟩⟩)

/-- Errors under another name. -/
theorem run_adapt {p : ι → MpiProgram ε β} {bad : (ι → ε) → NativeState ι → Prop}
    {f : ι → Stop ε → Stop ε'} {g : ι → ε → ε'} {bad' : (ι → ε') → NativeState ι → Prop}
    (h : J.Run safe good bad w p) (hf : ∀ i e, f i (.error e) = .error (g i e))
    (hbad : ∀ e w', bad e w' → bad' (fun i => g i (e i)) w') :
    J.Run safe good bad' w fun i => ExceptT.adapt (f i) (p i) := by
  refine Semantics.Ensures.bind (f := fun i r => .ret (r.mapError (f i))) h ?_
  rintro _ w' (⟨x, rfl, hx⟩ | ⟨_, rfl, e, rfl, he⟩) hinv
  · exact .returned _ (fun _ => rfl) hinv (Or.inl ⟨x, rfl, hx⟩)
  · refine .returned _ (fun _ => rfl) hinv (Or.inr ⟨_, rfl, _, ?_, hbad e w' he⟩)
    funext i
    exact hf i (e i)

theorem run_orOwn {own : ι → Option IoError} {bad : (ι → IoError) → NativeState ι → Prop}
    {bad' : (ι → IoError) → NativeState ι → Prop} {p : ι → MpiProgram IoError β}
    (h : J.Run safe good bad w p)
    (hbad : ∀ e w', bad e w' → bad' (fun i => (own i).getD (e i)) w') :
    J.Run safe good bad' w fun i => orOwn (own i) (p i) := by
  refine run_adapt h (fun i e => ?_) hbad
  cases own i <;> rfl

/-- A local result of every rank. -/
theorem run_ofResult {result : ι → Except ε β} (hinv : Guards safe w)
    (h : (∃ x, result = (fun i => .ok (x i)) ∧ good x w) ∨
      ∃ e, result = (fun i => .error (e i)) ∧ bad e w) :
    J.Run safe good bad w fun i => (FileProgram.ofResult (result i) : MpiProgram ε β) := by
  rcases h with ⟨x, rfl, hx⟩ | ⟨e, rfl, he⟩
  · exact run_pure hinv hx
  · exact run_fail hinv he

variable [Nonempty ι]

theorem run_bind {mid : (ι → σ) → NativeState ι → Prop} {p : ι → MpiProgram ε σ}
    {f : ι → σ → MpiProgram ε β} (h : J.Run safe mid bad w p)
    (hf : ∀ x w', mid x w' → Guards safe w' → J.Run safe good bad w' fun i => f i (x i)) :
    J.Run safe good bad w fun i => p i >>= f i := by
  change J.calls.Ensures _ _ _ (fun r w' => Together (fun x => good x w')
    (fun e => (fun e w' => ∃ err, e = (fun i => Stop.error (err i)) ∧ bad err w') e w') r) w _
  exact together_bind_worlds h hf

theorem run_correct {p : ι → MpiProgram ε β} (h : J.Run safe good bad w p) :
    J.Correct safe good bad w p := correct h

/-- Going on after a part that may stop early. -/
theorem run_captured_bind {mid : (ι → σ) → NativeState ι → Prop}
    {stop : (ι → ε') → NativeState ι → Prop} {p : ι → MpiProgram ε' σ}
    {f : ι → Except ε' σ → MpiProgram ε β} (h : J.Run safe mid stop w p)
    (hok : ∀ x w', mid x w' → Guards safe w' → J.Run safe good bad w' fun i => f i (.ok (x i)))
    (herror : ∀ e w', stop e w' → Guards safe w' →
      J.Run safe good bad w' fun i => f i (.error (e i))) :
    J.Run safe good bad w fun i => captured (p i) >>= f i := by
  refine run_bind (run_mono (run_captured h) (fun _ _ h => h) fun _ _ h => h.elim) ?_
  rintro _ w' (⟨x, rfl, hx⟩ | ⟨e, rfl, he⟩) hinv
  · exact hok x w' hx hinv
  · exact herror e w' he hinv

end Rules

/-! ## Native calls -/

section Natives

variable {ι ε : Type} {J : NativeJob ι} {safe : Option (List Byte) → Prop}
  {bad : (ι → ε) → NativeState ι → Prop} {w : NativeState ι}

/-- One native call. -/
theorem run_native (op : mpiInterface.Op) (args : ι → mpiInterface.Arg op)
    {good : (ι → mpiInterface.Reply op) → NativeState ι → Prop} (hinv : Guards safe w)
    (htorn : ∀ w', (mpiCalls J.root J.path J.order J.mayFail).Torn w op args w' → Guards safe w')
    (hlive : ∃ replies w', (mpiCalls J.root J.path J.order J.mayFail).Round w op args replies w')
    (h : ∀ replies w', (mpiCalls J.root J.path J.order J.mayFail).Round w op args replies w' →
      Guards safe w' ∧ good replies w') :
    J.Run safe good bad w fun i => (FileProgram.native op (args i) :
      MpiProgram ε (mpiInterface.Reply op)) := by
  refine .round (.native op) args (fun _ reply => .ret (.ok reply)) (fun _ => rfl) trivial hinv
    htorn hlive fun replies w' hround => ?_
  obtain ⟨hinv', hgood⟩ := h replies w' hround
  exact .returned _ (fun _ => rfl) hinv' (Or.inl ⟨replies, rfl, hgood⟩)

theorem run_status {call : StatusCall} {makes : ι → Bool} (hinv : Guards safe w) :
    J.Run safe (fun replies w' => w' = w ∧ (∀ i, makes i = false → replies i = .ok ()) ∧
      Succeeds J.mayFail replies) bad w fun i => (status call (makes i) : MpiProgram ε _) := by
  refine run_native (.status call) makes hinv (fun _ h => h.elim) ?_ ?_
  · exact ⟨fun _ => .ok (), w, rfl, fun _ _ => rfl, Or.inr fun _ => rfl⟩
  · rintro replies _ ⟨rfl, hskip, hsucceeds⟩
    exact ⟨hinv, rfl, hskip, hsucceeds⟩

/-- After a flush that succeeds everywhere, everything is in the file. -/
theorem run_fileSync [Finite ι] (hinv : Guards safe w) :
    J.Run safe (fun replies w' => Succeeds J.mayFail replies ∧
        (((∀ i, (replies i).isOk = true) ∧ ∃ writes, AllLanded w.pending writes ∧ w' = { w with
            image := w.image.map fun cells => pokeAll 0 cells writes
            pending := [] }) ∨ (∃ i, (replies i).isOk = false) ∧ w' = w)) bad w
      fun _ => (fileSync : MpiProgram ε _) := by
  refine run_native .sync (fun _ => ()) hinv (fun _ h => h.elim) ?_ ?_
  · obtain ⟨writes, hwrites⟩ := exists_allLanded w.pending
    exact ⟨fun _ => .ok (), _, Or.inr fun _ => rfl, Or.inl ⟨fun _ => rfl, writes, hwrites, rfl⟩⟩
  · rintro replies w' ⟨hsucceeds, hworld⟩
    refine ⟨?_, hsucceeds, hworld⟩
    rcases hworld with ⟨_, writes, hwrites, rfl⟩ | ⟨_, rfl⟩
    · exact hinv.flushed hwrites
    · exact hinv

theorem run_setView {disp : ι → ℕ} {filetype : ι → Option MpiLayout} (hinv : Guards safe w) :
    J.Run safe (fun replies w' => Succeeds J.mayFail replies ∧ ∃ view,
        (∀ i, replies i = .ok () → view i = ⟨disp i, filetype i, 0⟩) ∧ w' = { w with view }) bad w
      fun i => (setView (disp i) (filetype i) : MpiProgram ε _) := by
  refine run_native .setView (fun i => (disp i, filetype i)) hinv
    (fun _ h => h.elim) ?_ ?_
  · exact ⟨fun _ => .ok (), _, Or.inr fun _ => rfl, fun i => ⟨disp i, filetype i, 0⟩,
      fun _ _ => rfl, rfl⟩
  · rintro replies w' ⟨hsucceeds, view, hview, rfl⟩
    exact ⟨hinv.of_same rfl rfl, hsucceeds, view, hview, rfl⟩

theorem exists_writes (w : NativeState ι) (start : ι → ℕ) (bytes : ι → List Byte)
    (mayFail : Prop) : ∃ replies count w', MpiIo.Writes mayFail w start bytes replies count w' :=
  ⟨fun i => .ok (bytes i).length, fun i => (bytes i).length, _, fun _ => le_rfl,
    fun _ _ h => (Except.ok.inj h).symm, Or.inr fun _ => rfl, rfl⟩

theorem take_writes (view : NativeView) (start : ℕ) (bytes : List Byte) (count : ℕ) :
    view.writes start (bytes.take count) = (view.writes start bytes).take count := by
  unfold NativeView.writes
  rw [← List.map_take]
  congr 1
  apply List.ext_getElem?
  intro k
  by_cases hk : k < count
  · rw [List.getElem?_take_of_lt hk, List.getElem?_zipIdx, List.getElem?_zipIdx,
      List.getElem?_take_of_lt hk]
  · rw [List.getElem?_eq_none (by rw [List.length_zipIdx, List.length_take]; omega),
      List.getElem?_eq_none (by rw [List.length_take]; omega)]

theorem Guards.writes {mayFail : Prop} {start : ι → ℕ} {bytes : ι → List Byte}
    {replies : ι → Except ℤ ℕ} {count : ι → ℕ} {w' : NativeState ι}
    (h : Guards safe (w.write fun i => (w.view i).writes (start i) (bytes i)))
    (hwrites : MpiIo.Writes mayFail w start bytes replies count w') : Guards safe w' := by
  obtain ⟨_, _, _, rfl⟩ := hwrites
  simp only [take_writes]
  exact h.shorter count

theorem run_writeAtAll {offset : ι → ℕ} {bytes : ι → List Byte} (hinv : Guards safe w)
    (hwrite : Guards safe (w.write fun i => (w.view i).writes (offset i) (bytes i))) :
    J.Run safe (fun replies w' =>
        ∃ count, MpiIo.Writes J.mayFail w offset bytes replies count w') bad w
      fun i => (writeAtAll (offset i) (bytes i) : MpiProgram ε _) := by
  refine run_native .writeAt (fun i => (offset i, bytes i)) hinv ?_ ?_ ?_
  · rintro _ rfl
    exact hwrite
  · obtain ⟨replies, count, w', h⟩ := exists_writes w offset bytes J.mayFail
    exact ⟨replies, w', count, h⟩
  · rintro replies w' ⟨count, hwrites⟩
    exact ⟨hwrite.writes hwrites, count, hwrites⟩

theorem run_writePayload {mode : ι → MpiIoMode} {kind : MpiIoMode} (hmode : ∀ i, mode i = kind)
    {bytes : ι → List Byte} (hinv : Guards safe w)
    (hwrite : Guards safe (w.write fun i => (w.view i).writes (w.view i).pointer (bytes i))) :
    J.Run safe (fun replies w' => ∃ count w₁,
        MpiIo.Writes J.mayFail w (fun i => (w.view i).pointer) bytes replies count w₁ ∧
        w' = advance w₁ count) bad w
      fun i => (writePayload (mode i) (bytes i) : MpiProgram ε _) := by
  simp only [hmode]
  refine run_native (.write kind) bytes hinv ?_ ?_ ?_
  · rintro _ rfl
    exact hwrite
  · obtain ⟨replies, count, w', h⟩ :=
      exists_writes w (fun i => (w.view i).pointer) bytes J.mayFail
    exact ⟨replies, _, count, w', h, rfl⟩
  · rintro replies w' ⟨count, w₁, hwrites, rfl⟩
    exact ⟨(hwrite.writes hwrites).of_same rfl rfl, count, w₁, hwrites, rfl⟩

/-- A read that a file can answer. -/
theorem exists_reads (w : NativeState ι) (start len : ι → ℕ) (mayFail : Prop) :
    ∃ replies, Reads mayFail w start len replies := by
  classical
  refine ⟨fun i => (if ∀ k < len i, (w.view i).place (start i + k) < w.cells.length then .ok (len i)
    else .error 1, (List.range (len i)).map fun k =>
      (w.cells[(w.view i).place (start i + k)]?).getD 0), ?_, ?_, ?_⟩
  · intro i
    rw [List.length_map, List.length_range]
  · intro i n hn
    by_cases hinside : ∀ k < len i, (w.view i).place (start i + k) < w.cells.length
    · simp only [if_pos hinside] at hn
      obtain rfl := Except.ok.inj hn
      refine ⟨le_rfl, fun _ k hk => ?_⟩
      rw [List.getElem?_map, List.getElem?_range hk, Option.map_some,
        List.getElem?_eq_getElem (hinside k hk), Option.getD_some]
    · simp only [if_neg hinside] at hn
      cases hn
  · exact .inr fun i hinside => if_pos hinside

theorem run_readAtAll {offset len : ι → ℕ} (hinv : Guards safe w) :
    J.Run safe (fun replies w' => w' = w ∧ Reads J.mayFail w offset len replies) bad w
      fun i => (readAtAll (offset i) (len i) : MpiProgram ε _) := by
  refine run_native .readAt (fun i => (offset i, len i)) hinv
    (fun _ h => h.elim) ?_ ?_
  · obtain ⟨replies, h⟩ := exists_reads w offset len J.mayFail
    exact ⟨replies, w, rfl, h⟩
  · rintro replies _ ⟨rfl, hreads⟩
    exact ⟨hinv, rfl, hreads⟩

theorem run_readPayload {mode : ι → MpiIoMode} {kind : MpiIoMode} (hmode : ∀ i, mode i = kind)
    {len : ι → ℕ} (hinv : Guards safe w) :
    J.Run safe (fun replies w' => Reads J.mayFail w (fun i => (w.view i).pointer) len replies ∧
        ∃ count, w' = advance w count) bad w
      fun i => (readPayload (mode i) (len i) : MpiProgram ε _) := by
  simp only [hmode]
  refine run_native (.read kind) len hinv (fun _ h => h.elim) ?_ ?_
  · obtain ⟨replies, h⟩ := exists_reads w (fun i => (w.view i).pointer) len J.mayFail
    exact ⟨replies, _, h, fun _ => 0, rfl⟩
  · rintro replies _ ⟨hreads, count, rfl⟩
    exact ⟨hinv.of_same rfl rfl, hreads, count, rfl⟩

/-- The file that is there after an attempt to open it. -/
def afterOpen (mode : OpenMode) (w : NativeState ι) (made : Bool) : Option (List Byte) :=
  if made then (opened mode w.image).or w.image else w.image

theorem run_openFile {mode : OpenMode} (hinv : Guards safe w)
    (hmade : ∀ made view, Guards safe { w with image := afterOpen mode w made, view }) :
    J.Run safe (fun replies w' =>
        ((∃ i, replies i = .ok ()) → (opened mode w.image).isSome = true) ∧
        (J.mayFail ∨ opened mode w.image = none ∨ ∀ i, replies i = .ok ()) ∧
        ∃ made : Bool, ((∃ i, replies i = .ok ()) → made = true) ∧
          w' = { w with image := afterOpen mode w made, view := fun _ => byteView }) bad w
      fun _ => (openFile mode J.path : MpiProgram ε _) := by
  refine run_native (.openFile mode) (fun _ => J.path) hinv ?_ ?_ ?_
  · rintro _ ⟨made, rfl⟩
    exact hmade made w.view
  · by_cases hopened : (opened mode w.image).isSome = true
    · exact ⟨fun _ => .ok (), _, fun _ => rfl, fun _ => hopened, .inr (.inr fun _ => rfl), true,
        fun _ => rfl, rfl⟩
    · have hnone : ∀ P : Prop, (∃ _ : ι, (.error 1 : Except ℤ Unit) = .ok ()) → P :=
        fun _ ⟨_, h⟩ => nomatch h
      refine ⟨fun _ => .error 1, _, fun _ => rfl, hnone _, .inr (.inl ?_), false, hnone _, rfl⟩
      rwa [Bool.not_eq_true, Option.isSome_eq_false_iff, Option.isNone_iff_eq_none] at hopened
  · rintro replies _ ⟨_, hsome, hall, made, hmades, rfl⟩
    exact ⟨hmade made _, hsome, hall, made, hmades, rfl⟩

theorem run_allGather {len : ℕ} {bytes : ι → List Byte} (hlen : ∀ i, (bytes i).length = len)
    (hinv : Guards safe w) :
    J.Run safe (fun x w' => w' = w ∧ x = fun _ => (J.order.map bytes).flatten) bad w
      fun i => (allGather (bytes i) : MpiProgram ε _) := by
  have hcall : ∀ i, (allGather (bytes i) : MpiProgram ε _)
      = FileProgram.native (N := mpiInterface) (.allGather len) ⟨bytes i, hlen i⟩ := by
    intro i
    have hi := hlen i
    subst hi
    rfl
  simp only [hcall]
  refine run_native (.allGather len) (fun i => ⟨bytes i, hlen i⟩) hinv
    (fun _ h => h.elim) ?_ ?_
  · exact ⟨_, w, rfl, fun _ => rfl⟩
  · rintro replies _ ⟨rfl, hreplies⟩
    exact ⟨hinv, rfl, funext hreplies⟩

/-- A broadcast gives every rank the string of rank zero. -/
theorem run_broadcastInto {len : ℕ} {bytes : ι → List Byte} (hlen : ∀ i, (bytes i).length = len)
    (hinv : Guards safe w) :
    J.Run safe (fun x w' => w' = w ∧ x = fun _ => bytes J.root) bad w
      fun i => (broadcastInto (bytes i) : MpiProgram ε _) := by
  obtain ⟨vectors, rfl⟩ : ∃ vectors : ι → List.Vector Byte len, bytes = fun i => (vectors i).1 :=
    ⟨fun i => ⟨bytes i, hlen i⟩, rfl⟩
  have hcall : ∀ i, (broadcastInto (vectors i).1 : MpiProgram ε _)
      = FileProgram.native (N := mpiInterface) (.broadcastInto len) (vectors i)
        >>= fun received => pure received.1 := by
    intro i
    obtain ⟨bytes, rfl⟩ := vectors i
    rfl
  have hcalled : J.Run safe (fun replies w' => w' = w ∧ ∀ i, replies i = vectors J.root) bad w
      fun i => (FileProgram.native (N := mpiInterface) (.broadcastInto len) (vectors i) :
        MpiProgram ε _) := by
    refine run_native (.broadcastInto len) vectors hinv (fun _ h => h.elim) ?_ ?_
    · exact ⟨_, w, rfl, fun _ => rfl⟩
    · rintro replies _ ⟨rfl, hreplies⟩
      exact ⟨hinv, rfl, hreplies⟩
  simp only [hcall]
  have : Nonempty ι := ⟨J.root⟩
  refine run_bind hcalled ?_
  rintro replies _ ⟨rfl, hreplies⟩ _
  exact run_pure hinv ⟨rfl, funext fun i => congrArg Subtype.val (hreplies i)⟩

end Natives

/-! ## Reductions -/

section Reductions

variable {ι ε : Type} [Finite ι] [Nonempty ι] {J : NativeJob ι}
  {safe : Option (List Byte) → Prop} {bad : (ι → ε) → NativeState ι → Prop} {w : NativeState ι}

theorem run_allReduceMin {values : ι → ℤ} (hinv : Guards safe w) :
    J.Run safe (fun x w' => w' = w ∧ ∃ least, IsLeast (Set.range values) least ∧
        x = fun _ => least) bad w
      fun i => (allReduceMin (values i) : MpiProgram ε ℤ) := by
  refine .round .allReduceMin values (fun _ reply => .ret (.ok reply)) (fun _ => rfl) trivial hinv
    (fun _ h => h.elim) ?_ ?_
  · obtain ⟨least, hleast⟩ := exists_isLeast_int values
    exact ⟨fun _ => least, w, rfl, fun _ => hleast⟩
  · rintro replies w' ⟨rfl, hreplies⟩
    refine .returned _ (fun _ => rfl) hinv (Or.inl ⟨_, rfl, rfl, replies J.root, hreplies _, ?_⟩)
    exact funext fun i => (hreplies i).unique (hreplies J.root)

theorem run_allReduceMax {values : ι → ℤ} (hinv : Guards safe w) :
    J.Run safe (fun x w' => w' = w ∧ ∃ greatest, IsGreatest (Set.range values) greatest ∧
        x = fun _ => greatest) bad w
      fun i => (allReduceMax (values i) : MpiProgram ε ℤ) := by
  refine .round .allReduceMax values (fun _ reply => .ret (.ok reply)) (fun _ => rfl) trivial hinv
    (fun _ h => h.elim) ?_ ?_
  · obtain ⟨greatest, hgreatest⟩ := exists_isGreatest_int values
    exact ⟨fun _ => greatest, w, rfl, fun _ => hgreatest⟩
  · rintro replies w' ⟨rfl, hreplies⟩
    refine .returned _ (fun _ => rfl) hinv (Or.inl ⟨_, rfl, rfl, replies J.root, hreplies _, ?_⟩)
    exact funext fun i => (hreplies i).unique (hreplies J.root)

/-- **The least and the greatest number** are the same where all ranks have the same one. -/
theorem run_bounds {values : ι → ℤ} {β : Type} {f : ι → ℤ → ℤ → MpiProgram ε β}
    {good : (ι → β) → NativeState ι → Prop} (hinv : Guards safe w)
    (hf : ∀ least greatest, (least = greatest ↔ ∀ i j, values i = values j) →
      J.Run safe good bad w fun i => f i least greatest) :
    J.Run safe good bad w fun i => allReduceMin (values i) >>= fun least =>
      allReduceMax (values i) >>= fun greatest => f i least greatest := by
  refine run_bind (run_allReduceMin hinv) ?_
  rintro _ _ ⟨rfl, least, hleast, rfl⟩ _
  refine run_bind (run_allReduceMax hinv) ?_
  rintro _ _ ⟨rfl, greatest, hgreatest, rfl⟩ _
  refine hf _ _ ⟨fun heq i j => ?_, fun hsame => ?_⟩
  · subst heq
    have hvalue : ∀ i, values i = least := fun i =>
      le_antisymm (hgreatest.2 (Set.mem_range_self i)) (hleast.2 (Set.mem_range_self i))
    exact (hvalue i).trans (hvalue j).symm
  · obtain ⟨i, hi⟩ := hleast.1
    obtain ⟨j, hj⟩ := hgreatest.1
    exact hi.symm.trans ((hsame i j).trans hj)

/-- **`agree_phase`.** -/
theorem run_agreePhase {ok : ι → Bool} {phase : String} {bad : (ι → IoError) → NativeState ι → Prop}
    {good : (ι → Unit) → NativeState ι → Prop} (hinv : Guards safe w)
    (hgood : (∀ i, ok i = true) → good (fun _ => ()) w)
    (hbad : (∃ i, ok i = false) → bad (fun _ => .collectivePrecondition phase) w) :
    J.Run safe good bad w fun i => agreePhase (ok i) phase := by
  unfold agreePhase
  refine run_bind (run_allReduceMin hinv) ?_
  rintro _ _ ⟨rfl, least, hleast, rfl⟩ _
  by_cases hall : ∀ i, ok i = true
  · simp only [if_pos ((isLeast_flag_eq_one_iff hleast).mpr hall)]
    exact run_pure hinv (hgood hall)
  · simp only [if_neg (mt (isLeast_flag_eq_one_iff hleast).mp hall)]
    exact run_fail hinv (hbad (by simpa using hall))

/-- The outcome of `agree_phase`, looked at later. -/
theorem run_captured_agreePhase {ok : ι → Bool} {phase : String} (hinv : Guards safe w) :
    J.Run safe (fun x w' => w' = w ∧ ((∀ i, ok i = true) ∧ x = (fun _ => .ok ()) ∨
        (∃ i, ok i = false) ∧ x = fun _ => .error (.collectivePrecondition phase))) bad w
      fun i => (captured (agreePhase (ok i) phase) : MpiProgram ε _) := by
  have hphase : J.Run safe (fun _ w' => (∀ i, ok i = true) ∧ w' = w)
      (fun e w' => w' = w ∧ (∃ i, ok i = false) ∧ e = fun _ => .collectivePrecondition phase) w
      fun i => agreePhase (ok i) phase :=
    run_agreePhase hinv (fun h => ⟨h, rfl⟩) fun h => ⟨rfl, h, rfl⟩
  refine run_mono (run_captured hphase) (fun x w' h => ?_) fun _ _ h => h.elim
  rcases h with ⟨y, rfl, hall, rfl⟩ | ⟨e, rfl, rfl, hnot, rfl⟩
  · exact ⟨rfl, .inl ⟨hall, rfl⟩⟩
  · exact ⟨rfl, .inr ⟨hnot, rfl⟩⟩

/-- The same, where a rank that is not fine has an error of its own. -/
theorem run_orOwn_agreePhase_bind {ok : ι → Bool} {phase : String} {own : ι → Option IoError}
    {β : Type} {bad : (ι → IoError) → NativeState ι → Prop} {good : (ι → β) → NativeState ι → Prop}
    {f : ι → Unit → MpiProgram IoError β} (hinv : Guards safe w)
    (hgo : (∀ i, ok i = true) → J.Run safe good bad w fun i => f i ())
    (hstop : (∃ i, ok i = false) → ∀ e, bad e w) :
    J.Run safe good bad w fun i => orOwn (own i) (agreePhase (ok i) phase) >>= f i := by
  have hphase : J.Run safe (fun _ w' => w' = w ∧ ∀ i, ok i = true) (fun _ w' => ∀ e, bad e w') w
      fun i => agreePhase (ok i) phase := run_agreePhase hinv (fun h => ⟨rfl, h⟩) hstop
  refine run_bind (run_orOwn hphase fun e w' h => h _) ?_
  rintro _ _ ⟨rfl, hall⟩ _
  exact hgo hall

omit [Finite ι] [Nonempty ι] in
/-- **Going on after a local result** that is the same kind on all ranks. -/
theorem run_ofResult_bind {β σ : Type} {result : ι → Except ε σ} {f : ι → σ → MpiProgram ε β}
    {good : (ι → β) → NativeState ι → Prop} (hinv : Guards safe w)
    (h : (∃ x : ι → σ, result = (fun i => .ok (x i)) ∧ J.Run safe good bad w fun i => f i (x i)) ∨
      ∃ e : ι → ε, result = (fun i => .error (e i)) ∧ bad e w) :
    J.Run safe good bad w fun i => FileProgram.ofResult (result i) >>= f i := by
  rcases h with ⟨x, rfl, hrun⟩ | ⟨e, rfl, he⟩
  · exact hrun
  · exact .returned _ (fun _ => rfl) hinv (Or.inr ⟨_, rfl, e, rfl, he⟩)

/-- What a rank learns of all of them. -/
def StateOf (ok : ι → Bool) (state : Bool × Bool) : Prop :=
  (state.1 = true ↔ ∀ i, ok i = true) ∧
    (state.2 = true ↔ (∃ i, ok i = true) ∧ ∃ i, ok i = false)

theorem run_collectiveState {ok : ι → Bool} (hinv : Guards safe w) :
    J.Run safe (fun x w' => w' = w ∧ ∃ state, StateOf ok state ∧ x = fun _ => state) bad w
      fun i => (collectiveState (ok i) : MpiProgram ε _) := by
  unfold collectiveState
  refine run_bind (run_allReduceMin hinv) ?_
  rintro _ _ ⟨rfl, least, hleast, rfl⟩ _
  refine run_bind (run_allReduceMax hinv) ?_
  rintro _ _ ⟨rfl, greatest, hgreatest, rfl⟩ _
  refine run_pure hinv ⟨rfl, _, ⟨?_, ?_⟩, rfl⟩
  · rw [decide_eq_true_eq]
    exact isLeast_flag_eq_one_iff hleast
  · rw [Bool.and_eq_true, decide_eq_true_eq, decide_eq_true_eq]
    have hvalue : ∀ i, (if ok i then (1 : ℤ) else 0) = 1 ↔ ok i = true := by
      intro i
      cases ok i <;> simp
    have hzero : ∀ i, (if ok i then (1 : ℤ) else 0) = 0 ↔ ok i = false := by
      intro i
      cases ok i <;> simp
    obtain ⟨i, hi⟩ := hgreatest.1
    obtain ⟨j, hj⟩ := hleast.1
    beta_reduce at hi hj
    constructor
    · rintro ⟨rfl, rfl⟩
      exact ⟨⟨i, (hvalue i).mp hi⟩, j, (hzero j).mp hj⟩
    · rintro ⟨⟨i', hi'⟩, j', hj'⟩
      have hup := hgreatest.2 (Set.mem_range_self i')
      have hdown := hleast.2 (Set.mem_range_self j')
      beta_reduce at hup hdown
      rw [(hvalue i').mpr hi'] at hup
      rw [(hzero j').mpr hj'] at hdown
      have hle : greatest ≤ 1 := by
        rw [← hi]
        split <;> omega
      have hge : 0 ≤ least := by
        rw [← hj]
        split <;> omega
      exact ⟨le_antisymm hle hup, le_antisymm hdown hge⟩

/-- What a reduction makes of the words of the ranks. -/
def Reduced {len : ℕ} (greatest : Bool) (words : ι → List.Vector ℕ len)
    (reduced : List.Vector ℕ len) : Prop :=
  ∀ k, if greatest then IsGreatest (Set.range fun j => (words j).get k) (reduced.get k)
    else IsLeast (Set.range fun j => (words j).get k) (reduced.get k)

theorem exists_reduced {len : ℕ} (greatest : Bool) (words : ι → List.Vector ℕ len) :
    ∃ reduced, Reduced greatest words reduced := by
  have hextreme : ∀ k, ∃ n, if greatest then IsGreatest (Set.range fun j => (words j).get k) n
      else IsLeast (Set.range fun j => (words j).get k) n := by
    intro k
    cases greatest with
    | true =>
      obtain ⟨i, hi⟩ := Finite.exists_max fun j => (words j).get k
      exact ⟨_, ⟨i, rfl⟩, Set.forall_mem_range.mpr hi⟩
    | false =>
      obtain ⟨i, hi⟩ := Finite.exists_min fun j => (words j).get k
      exact ⟨_, ⟨i, rfl⟩, Set.forall_mem_range.mpr hi⟩
  choose extreme hextreme using hextreme
  refine ⟨List.Vector.ofFn extreme, fun k => ?_⟩
  rw [List.Vector.get_ofFn]
  exact hextreme k

omit [Finite ι] [Nonempty ι] in
theorem Reduced.unique {len : ℕ} {greatest : Bool} {words : ι → List.Vector ℕ len}
    {reduced reduced' : List.Vector ℕ len} (h : Reduced greatest words reduced)
    (h' : Reduced greatest words reduced') : reduced = reduced' := by
  refine List.Vector.ext fun k => ?_
  have hk := h k
  have hk' := h' k
  cases greatest with
  | true => exact hk.unique hk'
  | false => exact hk.unique hk'

theorem run_reduceWords {greatest : Bool} {len : ℕ} {words : ι → List.Vector ℕ len}
    (hinv : Guards safe w) :
    J.Run safe (fun x w' => w' = w ∧ ∃ reduced, Reduced greatest words reduced ∧
        x = fun _ => reduced.1) bad w
      fun i => (reduceWords greatest (words i).1 : MpiProgram ε _) := by
  have hcall : ∀ i, (reduceWords greatest (words i).1 : MpiProgram ε _)
      = FileProgram.native (N := mpiInterface) (.reduceWords greatest len) (words i)
        >>= fun reduced => pure reduced.1 := by
    intro i
    obtain ⟨words, rfl⟩ := words i
    rfl
  simp only [hcall]
  have hcalled : J.Run safe (fun replies w' => w' = w ∧ ∀ i, Reduced greatest words (replies i))
      bad w fun i => (FileProgram.native (N := mpiInterface) (.reduceWords greatest len) (words i) :
        MpiProgram ε _) := by
    refine run_native (.reduceWords greatest len) words hinv (fun _ h => h.elim) ?_ ?_
    · obtain ⟨reduced, hreduced⟩ := exists_reduced greatest words
      exact ⟨fun _ => reduced, w, rfl, fun _ => hreduced⟩
    · rintro replies _ ⟨rfl, hreplies⟩
      exact ⟨hinv, rfl, hreplies⟩
  refine run_bind hcalled ?_
  · rintro replies _ ⟨rfl, hreplies⟩ _
    refine run_pure hinv ⟨rfl, replies J.root, hreplies J.root, ?_⟩
    funext i
    exact congrArg Subtype.val ((hreplies i).unique (hreplies J.root))

/-- **The least and the greatest words** are the same where all ranks have the same words. -/
theorem run_extremes {len : ℕ} {words : ι → List ℕ} (hlen : ∀ i, (words i).length = len)
    {β : Type} {f : ι → List ℕ → List ℕ → MpiProgram ε β}
    {good : (ι → β) → NativeState ι → Prop} (hinv : Guards safe w)
    (hf : ∀ least greatest, (least = greatest ↔ ∀ i j, words i = words j) →
      J.Run safe good bad w fun i => f i least greatest) :
    J.Run safe good bad w fun i => reduceWords false (words i) >>= fun least =>
      reduceWords true (words i) >>= fun greatest => f i least greatest := by
  obtain ⟨vectors, rfl⟩ : ∃ vectors : ι → List.Vector ℕ len, words = fun i => (vectors i).1 :=
    ⟨fun i => ⟨words i, hlen i⟩, rfl⟩
  refine run_bind (run_reduceWords hinv) ?_
  rintro _ _ ⟨rfl, least, hleast, rfl⟩ _
  refine run_bind (run_reduceWords hinv) ?_
  rintro _ _ ⟨rfl, greatest, hgreatest, rfl⟩ _
  refine hf _ _ ⟨fun heq i j => ?_, fun hsame => ?_⟩
  · obtain rfl : least = greatest := Subtype.ext heq
    have hword : ∀ i, vectors i = least := fun i =>
      List.Vector.ext fun k => le_antisymm ((hgreatest k).2 (Set.mem_range_self i))
        ((hleast k).2 (Set.mem_range_self i))
    exact congrArg Subtype.val ((hword i).trans (hword j).symm)
  · refine congrArg Subtype.val (List.Vector.ext fun k => ?_)
    obtain ⟨i, hi⟩ := (hleast k).1
    obtain ⟨j, hj⟩ := (hgreatest k).1
    have hij : vectors i = vectors j := Subtype.ext (hsame i j)
    exact hi.symm.trans ((congrArg (List.Vector.get · k) hij).trans hj)

end Reductions

end PencilRs.Analysis
