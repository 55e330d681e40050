import PencilRs.Analysis.ContainerAppend
import PencilRs.Analysis.ContainerScan
import PencilRs.Analysis.FileLayout
import PencilRs.Analysis.MpiPhases
import PencilRs.Model.ContainerStore

/-!
# Phases of a container operation

Before the ranks open a container they have agreed on the request, the name and the options, and
each of them has prepared its part.  The scan gives all of them the records the file holds.
-/

set_option autoImplicit false

namespace PencilRs.Analysis

open PencilRs.Computation PencilRs.Model PencilRs.Model.MpiIo NamedMpi FileProgram
open Semantics.Ensures

variable {ι β σ : Type} [Finite ι] [Nonempty ι] {J : NativeJob ι}
  {safe : Option (List Byte) → Prop} {w : NativeState ι}

/-! ## Rules -/

section Rules

variable {good : (ι → β) → NativeState ι → Prop} {bad : (ι → NamedIoError) → NativeState ι → Prop}

omit [Finite ι] [Nonempty ι] in
theorem run_liftNamed {p : ι → MpiProgram IoError β}
    (h : J.Run safe good (fun e w' => bad (fun i => .io (e i)) w') w p) :
    J.Run safe good bad w fun i => liftNamed (p i) :=
  run_adapt h (fun _ _ => rfl) fun _ _ h => h

omit [Finite ι] [Nonempty ι] in
theorem run_during {bad : (ι → NamedIoError × Progress) → NativeState ι → Prop}
    {p : ι → NamedProgram β} {progress : ι → Progress}
    (h : J.Run safe good (fun e w' => bad (fun i => (e i, progress i)) w') w p) :
    J.Run safe good bad w fun i => during (progress i) (p i) :=
  run_adapt (g := fun i e => (e, progress i)) h (fun _ _ => rfl) fun _ _ h => h

theorem run_agreed {ok : ι → Bool} {phase : String} {good : (ι → Unit) → NativeState ι → Prop}
    (hinv : Guards safe w) (hgood : (∀ i, ok i = true) → good (fun _ => ()) w)
    (hbad : (∃ i, ok i = false) → ∀ e, bad e w) :
    J.Run safe good bad w fun i => agreed (ok i) phase :=
  run_liftNamed (run_agreePhase hinv hgood fun h => hbad h _)

omit [Finite ι] [Nonempty ι] in
/-- All ranks have results, or one of them has none. -/
theorem results_cases {ε : Type} (value : ι → Except ε σ) :
    (∃ x : ι → σ, value = fun i => .ok (x i)) ∨ ∃ i, (value i).isOk = false := by
  by_cases hall : ∀ i, (value i).isOk = true
  · have hok : ∀ i, ∃ x, value i = .ok x := by
      intro i
      have hi := hall i
      cases hvalue : value i with
      | ok x => exact ⟨x, rfl⟩
      | error e =>
        rw [hvalue] at hi
        cases hi
    choose x hx using hok
    exact .inl ⟨x, funext hx⟩
  · obtain ⟨i, hi⟩ := not_forall.mp hall
    exact .inr ⟨i, Bool.not_eq_true _ ▸ hi⟩

/-- **`prepared`.** -/
theorem run_prepared {value : ι → Except IoError β} {phase : String} (hinv : Guards safe w)
    (hgood : ∀ x : ι → β, value = (fun i => .ok (x i)) → good x w)
    (hbad : (∃ i, (value i).isOk = false) → ∀ e, bad e w) :
    J.Run safe good bad w fun i => prepared (value i) phase := by
  unfold prepared
  have hphase : J.Run safe (fun _ w' => w' = w ∧ ∀ i, (value i).isOk = true) bad w
      fun i => agreed (value i).isOk phase := run_agreed hinv (fun h => ⟨rfl, h⟩) hbad
  refine run_bind hphase ?_
  rintro _ w ⟨rfl, hall⟩ _
  rcases results_cases value with ⟨x, rfl⟩ | ⟨i, hi⟩
  · exact run_pure hinv (hgood x rfl)
  · rw [hall i] at hi
    cases hi

end Rules

/-! ## Ranks and requests -/

section Preflight

variable [DecidableEq ι] {N M : ℕ} {scalar : ScalarType} {rank : ι → StoreRank}
  {target : ι → NamedView scalar N M}

/-- The ranks are those of the job. -/
structure StoreJob (J : NativeJob ι) (rank : ι → StoreRank) : Prop where
  member : ∀ i, (rank i).member = J.member i
  scanner : ∀ i, (rank i).scanner.isRoot = true ↔ i = J.root
  path : (rank J.root).path = J.path

/-- The ranks agree on a name. -/
structure NamesAgree (name : ι → List Byte) (granted : ι → Bool) : Prop where
  valid : ∀ i, (!(name i).isEmpty && (name i).length ≤ maxName && !(name i).contains 0) = true
  same : ∀ i j, name i = name j
  granted : ∀ i, granted i = true

omit [DecidableEq ι] in
/-- **`name_bytes`.** -/
theorem run_nameBytes {name : ι → List Byte} {granted isRoot : ι → Bool}
    (hroot : ∀ i, isRoot i = true ↔ i = J.root) {good : (ι → Unit) → NativeState ι → Prop}
    {bad : (ι → NamedIoError) → NativeState ι → Prop} (hinv : Guards safe w)
    (hgood : NamesAgree name granted → good (fun _ => ()) w)
    (hbad : ¬NamesAgree name granted → ∀ e, bad e w) :
    J.Run safe good bad w fun i => nameBytes (isRoot i) (granted i) (name i) := by
  unfold nameBytes
  refine run_bind (run_captured_agreePhase hinv) ?_
  rintro _ w ⟨rfl, ⟨hvalid, rfl⟩ | ⟨⟨i, hi⟩, rfl⟩⟩ _
  swap
  · refine run_ofResult_bind hinv (.inr ⟨_, rfl, hbad (fun h => ?_) _⟩)
    rw [h.valid i] at hi
    cases hi
  refine run_ofResult_bind hinv (.inl ⟨_, rfl, ?_⟩)
  refine run_bounds hinv fun least greatest hbounds => ?_
  by_cases heq : least = greatest
  swap
  · refine run_ofResult_bind hinv (.inr ⟨fun _ => .io .collectiveDescriptorMismatch,
      funext fun i => if_neg (by simpa using heq), hbad (fun h => heq (hbounds.mpr ?_)) _⟩)
    intro i j
    rw [h.same i j]
  have hlengths : ∀ i, (name i).length = (name J.root).length := fun i =>
    Int.ofNat_inj.mp (hbounds.mp heq i J.root)
  refine run_ofResult_bind hinv (.inl ⟨fun _ => (), funext fun i => if_pos (decide_eq_true heq),
    ?_⟩)
  have hgrantRun : J.Run safe (fun _ w' => w' = w ∧ ∀ i, granted i = true) bad w
      fun i => agreed (granted i) "named allocation" :=
    run_agreed hinv (fun h => ⟨rfl, h⟩) fun ⟨i, hi⟩ =>
      hbad fun h => by rw [h.granted i] at hi; cases hi
  refine run_bind hgrantRun ?_
  rintro _ w ⟨rfl, hgranted⟩ _
  have hsent : ∀ i, (if isRoot i then name i else List.replicate (name i).length 0).length
      = (name J.root).length := by
    intro i
    split
    · exact hlengths i
    · rw [List.length_replicate, hlengths]
  refine run_bind (run_broadcastInto hsent hinv) ?_
  rintro _ w ⟨rfl, rfl⟩ _
  have hrootName : (if isRoot J.root then name J.root else List.replicate (name J.root).length 0)
      = name J.root := if_pos ((hroot J.root).mpr rfl)
  simp only [hrootName]
  refine run_agreed hinv (fun hsame => hgood ⟨hvalid, fun i j => ?_, hgranted⟩) fun ⟨i, hi⟩ =>
    hbad fun h => ?_
  · rw [← of_decide_eq_true (hsame i), ← of_decide_eq_true (hsame j)]
  · exact of_decide_eq_false hi (h.same J.root i)

/-- The requests of the ranks. -/
def requests (rank : ι → StoreRank) (target : ι → NamedView scalar N M)
    (operation : StoreOperation) (i : ι) : Request N M :=
  requestOf (rank i).path (operation.code (rank i).options.isSome) (target i).view

theorem code_inj {operation : StoreOperation} {a b : Bool}
    (h : operation.code a = operation.code b) : a = b := by
  revert h
  cases operation <;> cases a <;> cases b <;> decide

/-- What the ranks have agreed on before they open the file. -/
structure PreflightAgrees (J : NativeJob ι) (rank : ι → StoreRank)
    (target : ι → NamedView scalar N M) (operation : StoreOperation) (optionsAgreed : Bool) :
    Prop where
  descriptor : DescriptorAgrees J (fun i => (rank i).alloc.descriptor)
    (requests rank target operation)
  names : NamesAgree (fun i => (target i).name) fun i => (rank i).alloc.name
  controls : optionsAgreed = false → ∀ options : ι → MpiIoOptions,
    (∀ i, (rank i).options = some (options i)) →
    ControlsAgree J (fun i => (rank i).limits) (fun i => (rank i).alloc.controls) options
      fun _ => []
  path : ∀ i, (pathC (rank i).alloc.path (rank i).path).isOk = true

omit [Finite ι] [Nonempty ι] [DecidableEq ι] in
/-- The ranks have options, or none of them has. -/
theorem options_cases {granted : ι → Bool} {operation : StoreOperation}
    (h : DescriptorAgrees J granted (requests rank target operation)) :
    (∃ options : ι → MpiIoOptions, ∀ i, (rank i).options = some (options i)) ∨
      ∀ i, (rank i).options = none := by
  have hsome : ∀ i, (rank i).options.isSome = (rank J.root).options.isSome := fun i =>
    code_inj (congrArg Request.operation (h.same i J.root))
  cases hroot : (rank J.root).options.isSome with
  | true =>
    left
    have hoptions : ∀ i, ∃ options, (rank i).options = some options := fun i =>
      Option.isSome_iff_exists.mp ((hsome i).trans hroot)
    choose options hoptions using hoptions
    exact ⟨options, hoptions⟩
  | false =>
    right
    intro i
    have hi := (hsome i).trans hroot
    rwa [Option.isSome_eq_false_iff, Option.isNone_iff_eq_none] at hi

/-- **What every operation compares.** -/
theorem run_preflight (hjob : StoreJob J rank) {operation : StoreOperation} {optionsAgreed : Bool}
    {good : (ι → List Byte) → NativeState ι → Prop}
    {bad : (ι → NamedIoError) → NativeState ι → Prop} (hinv : Guards safe w)
    (hgood : PreflightAgrees J rank target operation optionsAgreed → good (fun _ => J.path) w)
    (hbad : ¬PreflightAgrees J rank target operation optionsAgreed → ∀ e, bad e w) :
    J.Run safe good bad w
      fun i => NamedMpi.preflight (rank i) (target i) operation optionsAgreed := by
  unfold NamedMpi.preflight
  simp only [hjob.member]
  have hdescriptorRun : J.Run safe (fun _ w' => w' = w ∧ DescriptorAgrees J
      (fun i => (rank i).alloc.descriptor) (requests rank target operation))
      (fun e w' => bad (fun i => .io (e i)) w') w fun i => descriptorAgreement (J.member i)
        (rank i).alloc.descriptor (requests rank target operation i) :=
    run_descriptorAgreement hinv (fun h => ⟨rfl, h⟩) fun h _ => hbad (fun h' => h h'.descriptor) _
  refine run_bind (run_liftNamed hdescriptorRun) ?_
  rintro _ w ⟨rfl, hdescriptor⟩ _
  have hnamesRun : J.Run safe (fun _ w' => w' = w ∧ NamesAgree (fun i => (target i).name)
      fun i => (rank i).alloc.name) bad w
      fun i => nameBytes (J.member i).isRoot (rank i).alloc.name (target i).name :=
    run_nameBytes (fun i => decide_eq_true_iff) hinv (fun h => ⟨rfl, h⟩) fun h =>
      hbad fun h' => h h'.names
  refine run_bind hnamesRun ?_
  rintro _ w ⟨rfl, hnames⟩ _
  have hcontrolsRun : J.Run safe (fun _ w' => w' = w ∧ (optionsAgreed = false →
      ∀ options : ι → MpiIoOptions, (∀ i, (rank i).options = some (options i)) →
      ControlsAgree J (fun i => (rank i).limits) (fun i => (rank i).alloc.controls) options
        fun _ => [])) (fun e w' => bad (fun i => .io (e i)) w') w
      fun i => agreeOptions (rank i) optionsAgreed := by
    unfold agreeOptions
    rcases options_cases hdescriptor with ⟨options, hoptions⟩ | hnone
    · cases optionsAgreed with
      | true =>
        simp only [hoptions, if_true]
        exact run_pure hinv ⟨rfl, fun h => Bool.noConfusion h⟩
      | false =>
        simp only [hoptions, Bool.false_eq_true, if_false, hjob.member]
        refine run_agreeControls hinv (fun h => ⟨rfl, fun _ options' hoptions' => ?_⟩) fun h _ =>
          hbad (fun h' => h (h'.controls rfl options hoptions)) _
        obtain rfl : options = options' := funext fun i => Option.some.inj (hoptions' i)
        exact h
    · simp only [hnone]
      refine run_pure hinv ⟨rfl, fun _ options hoptions => ?_⟩
      cases hoptions J.root
  refine run_bind (run_liftNamed hcontrolsRun) ?_
  rintro _ w ⟨rfl, hcontrols⟩ _
  refine run_prepared hinv (fun x hx => ?_) fun hnot => hnot.elim fun i hi => hbad fun h => ?_
  · have hpath : ∀ i, x i = J.path := by
      intro i
      obtain ⟨_, _, hi⟩ := bind_eq_ok.mp (congrFun hx i)
      obtain ⟨_, _, hi⟩ := bind_eq_ok.mp hi
      obtain ⟨_, _, hi⟩ := bind_eq_ok.mp hi
      rw [← Except.ok.inj hi, ← hjob.path]
      exact congrArg Request.path (hdescriptor.same i J.root)
    obtain rfl : x = fun _ => J.path := funext hpath
    refine hgood ⟨hdescriptor, hnames, hcontrols, fun i => ?_⟩
    rw [congrFun hx i]
    rfl
  · rw [h.path i] at hi
    cases hi

omit [DecidableEq ι] in
/-- **The layouts** of the ranks. -/
theorem run_layoutPhase {phase : String} {good : (ι → MpiLayout) → NativeState ι → Prop}
    {bad : (ι → NamedIoError) → NativeState ι → Prop} (hinv : Guards safe w)
    (hgood : ∀ layout : ι → MpiLayout,
      (∀ i, payloadLayout (rank i).alloc.layout (target i).view = .ok (layout i)) → good layout w)
    (hbad : (∃ i, (payloadLayout (rank i).alloc.layout (target i).view).isOk = false) →
      ∀ e, bad e w) :
    J.Run safe good bad w fun i => layoutPhase (rank i) (target i) phase := by
  unfold layoutPhase
  have hnone : ∀ i, errorOf (payloadLayout (rank i).alloc.layout (target i).view) = none ↔
      ∃ layout, payloadLayout (rank i).alloc.layout (target i).view = .ok layout := by
    intro i
    cases payloadLayout (rank i).alloc.layout (target i).view with
    | ok layout => exact ⟨fun _ => ⟨layout, rfl⟩, fun _ => rfl⟩
    | error e => exact ⟨nofun, nofun⟩
  have hprepared : J.Run safe (fun _ w' => w' = w ∧
      ∀ i, errorOf (payloadLayout (rank i).alloc.layout (target i).view) = none)
      (fun e w' => bad (fun i => .io (e i)) w') w fun i => agreeMpiPreparation
        (errorOf (payloadLayout (rank i).alloc.layout (target i).view)) phase := by
    refine run_agreeMpiPreparation hinv (fun h => ⟨rfl, h⟩) fun ⟨i, hi⟩ _ _ => hbad ⟨i, ?_⟩ _
    cases hlayout : payloadLayout (rank i).alloc.layout (target i).view with
    | ok layout => exact absurd ((hnone i).mpr ⟨layout, hlayout⟩) hi
    | error e => rfl
  refine run_bind (run_liftNamed hprepared) ?_
  rintro _ w ⟨rfl, hall⟩ _
  choose layout hlayout using fun i => (hnone i).mp (hall i)
  simp only [hlayout]
  exact run_pure hinv (hgood layout hlayout)

/-! ## The file is opened -/

/-- **The hints.** -/
theorem run_acquireInfo (hjob : StoreJob J rank) {bad : (ι → IoError) → NativeState ι → Prop}
    (hsome : (∀ i, (rank i).options.isSome = true) ∨ ∀ i, (rank i).options.isSome = false)
    (hinv : Guards safe w)
    (hbad : (J.mayFail ∨ ¬ControlsAgree J (fun i => (rank i).limits) (fun i => (rank i).alloc.axes)
      (fun _ => ⟨.collective, []⟩)
      fun i => List.ofFn fun a => ((target i).view.pencil.decomposition.axes a).val) →
      ∀ e, bad e w) :
    J.Run safe (fun _ w' => w' = w) bad w fun i => acquireInfo (rank i) (target i) := by
  unfold acquireInfo
  rcases hsome with hsome | hsome
  · simp only [hsome, if_true, hjob.member]
    have hcontrols : J.Run safe (fun _ w' => w' = w) bad w
        fun i => agreeDecomposition (J.member i) (rank i).limits (rank i).alloc.axes
          (target i).view.pencil.decomposition.axes :=
      run_agreeControls hinv (fun _ => rfl) fun h e => hbad (.inr h) e
    refine run_bind hcontrols ?_
    rintro _ w rfl hinv
    exact run_infoGuard hinv fun hfail e => hbad (.inl hfail) e
  · simp only [hsome, Bool.false_eq_true, if_false]
    exact run_pure hinv rfl

/-- What opening a file leaves behind. -/
def OpenedFrom (mode : OpenMode) (w w' : NativeState ι) : Prop :=
  ∃ made view, w' = { w with image := afterOpen mode w made, view }

omit [DecidableEq ι] in
/-- **The file is open on all ranks**, or on none. -/
theorem run_openNamed {mode : OpenMode} {good : (ι → Unit) → NativeState ι → Prop}
    {bad : (ι → NamedIoError) → NativeState ι → Prop} (hinv : Guards safe w)
    (hmade : ∀ w', OpenedFrom mode w w' → Guards safe w')
    (hgood : (opened mode w.image).isSome = true →
      good (fun _ => ()) { w with image := afterOpen mode w true, view := fun _ => byteView })
    (hbad : J.mayFail ∨ opened mode w.image = none → ∀ w', OpenedFrom mode w w' → ∀ e, bad e w') :
    J.Run safe good bad w fun _ => openNamed mode J.path := by
  have hsame : OpenedFrom mode w w := ⟨false, w.view, rfl⟩
  unfold openNamed
  refine run_bind (run_liftNamed (run_duplicateComm hinv fun hfail e =>
    hbad (.inl hfail) w hsame _)) ?_
  rintro _ w rfl hinv
  have hopen : J.Run safe (fun _ w' => (opened mode w.image).isSome = true ∧
      w' = { w with image := afterOpen mode w true, view := fun _ => byteView })
      (fun _ w' => (J.mayFail ∨ opened mode w.image = none) ∧ OpenedFrom mode w w') w
      fun _ => openCollective mode J.path "named file open" :=
    run_openCollective hinv (fun made view => hmade _ ⟨made, view, rfl⟩) (fun h => ⟨h, rfl⟩)
      fun h made _ => ⟨h, made, _, rfl⟩
  refine run_captured_bind hopen ?_ ?_
  · rintro _ w' ⟨hsome, rfl⟩ hinv'
    exact run_pure hinv' (hgood hsome)
  · rintro e w' ⟨hcause, hfrom⟩ hinv'
    refine run_bind (run_finishComm hinv') ?_
    rintro _ w'' rfl hinv''
    exact run_fail hinv'' (hbad hcause _ hfrom _)

/-- **Hints, communicator and file.** -/
theorem run_openPhase (hjob : StoreJob J rank) {mode : OpenMode}
    {good : (ι → Unit) → NativeState ι → Prop} {bad : (ι → NamedIoError) → NativeState ι → Prop}
    (hsome : (∀ i, (rank i).options.isSome = true) ∨ ∀ i, (rank i).options.isSome = false)
    (hinv : Guards safe w) (hmade : ∀ w', OpenedFrom mode w w' → Guards safe w')
    (hgood : (opened mode w.image).isSome = true →
      good (fun _ => ()) { w with image := afterOpen mode w true, view := fun _ => byteView })
    (hbad : (J.mayFail ∨ opened mode w.image = none ∨
      ¬ControlsAgree J (fun i => (rank i).limits) (fun i => (rank i).alloc.axes)
      (fun _ => ⟨.collective, []⟩)
      fun i => List.ofFn fun a => ((target i).view.pencil.decomposition.axes a).val) →
      ∀ w', OpenedFrom mode w w' → ∀ e, bad e w') :
    J.Run safe good bad w fun i => openPhase (rank i) (target i) mode J.path := by
  have hsame : OpenedFrom mode w w := ⟨false, w.view, rfl⟩
  unfold openPhase
  refine run_bind (run_liftNamed (run_acquireInfo hjob hsome hinv fun h e =>
    hbad (h.imp_right .inr) w hsame _)) ?_
  rintro _ w rfl hinv
  have hopen : J.Run safe good (fun e w' => (J.mayFail ∨ opened mode w.image = none) ∧
      OpenedFrom mode w w') w fun _ => openNamed mode J.path :=
    run_openNamed hinv hmade hgood fun h w' hfrom _ => ⟨h, hfrom⟩
  refine run_captured_bind hopen ?_ ?_
  · intro _ w' hdone hinv'
    exact run_pure hinv' hdone
  · rintro e w' ⟨hcause, hfrom⟩ hinv'
    refine run_bind (run_dropInfo hinv') ?_
    rintro _ w'' rfl hinv''
    exact run_fail hinv'' (hbad (hcause.imp_right .inl) _ hfrom _)

end Preflight

/-! ## The scan -/

section Scan

/-- The calls for the size of a flushed file with `size` bytes. -/
def flushedSizes (ι : Type) (size : ℕ) (mayFail : Prop) : Semantics sizeInterface ι Unit where
  Round := fun _ _ _ replies _ => (∀ i n, replies i = .ok n → n ≤ i64Max ∧ n = size) ∧
    (mayFail ∨ i64Max < size ∨ ∀ i, replies i = .ok size)
  Torn := fun _ _ _ _ => False

omit [Finite ι] [Nonempty ι] in
theorem sizeCalls_flushed (size : ℕ) (mayFail : Prop) :
    SizeCalls (flushedSizes ι size mayFail) (mayFail ∨ i64Max < size)
      fun n => n = size ∧ size ≤ i64Max where
  live := by
    by_cases hsize : size ≤ i64Max
    · refine ⟨fun _ => .ok size, ?_, .inr (.inr fun _ => rfl)⟩
      rintro _ n ⟨⟩
      exact ⟨Int.ofNat_le.mpr hsize, rfl⟩
    · exact ⟨fun _ => .error 1, nofun, .inr (.inl (Nat.lt_of_not_le hsize))⟩
  sizes := by
    intro replies h i n hn
    obtain ⟨hle, rfl⟩ := h.1 i n hn
    exact ⟨hle, rfl, Int.ofNat_le.mp hle⟩
  same := fun replies h => h.2.elim (fun h => .inl (.inl h)) fun h =>
    h.elim (fun h => .inl (.inr h)) fun h => .inr ⟨size, h⟩

omit [Finite ι] [Nonempty ι] in
theorem follows_flushed (hflushed : w.pending = []) : Semantics.Follows sizeInto
    (fileCollectives J.root (flushedSizes ι w.cells.length J.mayFail)
      (J.mayFail ∨ i64Max < w.cells.length)) J.calls w where
  round := by
    rintro (_ | _ | _ | op) args replies w' hround
    · exact ⟨hround.1, rfl, hround.2⟩
    · exact ⟨hround.1, rfl, hround.2⟩
    · exact ⟨hround.1, rfl, hround.2.1, hround.2.2.imp_left .inl⟩
    · obtain ⟨rfl, hsizes, hall⟩ := hround
      refine ⟨rfl, fun i n hn => ⟨(hsizes i n hn).1, (hsizes i n hn).2 hflushed⟩, ?_⟩
      exact hall.imp_right fun h => h.resolve_left fun h => h hflushed
  live := by
    rintro (_ | _ | _ | op) args ⟨replies, hround⟩
    · exact ⟨replies, w, rfl, hround.2⟩
    · exact ⟨replies, w, rfl, hround.2⟩
    · exact ⟨fun _ => (true, args J.root), w, rfl, fun _ _ => rfl, .inr fun _ => rfl⟩
    · refine ⟨replies, w, rfl,
        fun i n hn => ⟨(hround.1 i n hn).1, fun _ => (hround.1 i n hn).2⟩, ?_⟩
      exact hround.2.imp_right .inr
  torn := by
    rintro (_ | _ | _ | op) args w' htorn
    · exact htorn.elim
    · exact htorn.elim
    · exact htorn.elim
    · exact htorn.elim

/-- **The scan** of a flushed file gives all ranks the records of rank zero. -/
theorem run_scanFile {scanner : ι → Scanner}
    (hroot : ∀ i, (scanner i).isRoot = true ↔ i = J.root) (maxRecords : ℕ)
    {good : (ι → List Rec × ℕ × ℕ) → NativeState ι → Prop}
    {bad : (ι → NamedIoError) → NativeState ι → Prop} (hflushed : w.pending = [])
    (hinv : Guards safe w)
    (hgood : ∀ records tail, w.cells.length ≤ i64Max →
      (scanner J.root).outcome (some w.cells.length) maxRecords
        = .ok (records, tail, records.flatMap encodeRecord) →
      good (fun _ => (records, tail, w.cells.length)) w)
    (hbad : (J.mayFail ∨ i64Max < w.cells.length ∨ ReceiverRefused scanner J.root ∨
      ∃ status, (scanner J.root).outcome (some w.cells.length) maxRecords
        = .error (.error status)) → ∀ e, bad e w) :
    J.Run safe good bad w fun i => scanFile (scanner i) maxRecords := by
  have hscan : J.Run safe good (fun e w' => bad (fun i => .io (e i)) w') w
      fun i => Fallible.into sizeInto (scanFileBounded (scanner i) maxRecords) := by
    have hfirst := scanFile_together (sizeCalls_flushed w.cells.length J.mayFail) hroot maxRecords
    refine Semantics.Ensures.mono (Semantics.Ensures.into (follows_flushed hflushed) hinv hfirst)
      (fun _ h => h) ?_
    rintro r w ⟨rfl, hr⟩
    refine hr.mono ?_ ?_
    · rintro x ⟨n, records, tail, hreturns, houtcome, ⟨hn, hle⟩, rfl⟩
      rw [Int.ofNat_inj.mp hn] at houtcome ⊢
      exact hgood records tail hle houtcome
    · rintro e ⟨⟨err, rfl⟩, hcause⟩
      refine ⟨fun _ => err, rfl, hbad ?_ _⟩
      rcases hcause with (hfail | hlong) | hrefused | ⟨n, status, ⟨rfl, _⟩, houtcome⟩
      · exact .inl hfail
      · exact .inr (.inl hlong)
      · exact .inr (.inr (.inl hrefused))
      · exact .inr (.inr (.inr ⟨status, houtcome⟩))
  exact run_liftNamed hscan

end Scan

end PencilRs.Analysis
