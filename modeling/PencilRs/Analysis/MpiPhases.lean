import PencilRs.Analysis.DescriptorWords
import PencilRs.Analysis.NativeRuns

/-!
# Runs of phases

In each phase all ranks go on or all of them stop.  They go on just where they were asked for the
same and nothing was refused; where native calls do not fail, these are the only reasons to stop.
No phase but the opening of a file changes what is on the disk.
-/

set_option autoImplicit false

namespace PencilRs.Analysis

open PencilRs.Computation PencilRs.Model PencilRs.Model.MpiIo FileProgram Semantics.Ensures
open Hdf5 (collectiveState abortUnrecoverable)

variable {ι β ε : Type} [Finite ι] [Nonempty ι] {J : NativeJob ι}
  {safe : Option (List Byte) → Prop} {w : NativeState ι}

/-! ## Strings of all ranks -/

/-- The strings of all ranks, cut at their common length. -/
theorem chunksExact_flatten {len : ℕ} (hlen : 0 < len) {strings : List (List Byte)}
    (h : ∀ s ∈ strings, s.length = len) : chunksExact len strings.flatten = strings := by
  have htotal : strings.flatten.length = strings.length * len := by
    rw [List.length_flatten, List.map_congr_left h, List.map_const', List.sum_replicate,
      smul_eq_mul]
  unfold chunksExact
  rw [htotal, Nat.mul_div_cancel _ hlen]
  clear htotal
  induction strings with
  | nil => rfl
  | cons first rest ih =>
    obtain ⟨hfirst, hrest⟩ := List.forall_mem_cons.mp h
    rw [List.length_cons, List.range_succ_eq_map, List.map_cons, List.map_map, List.flatten_cons]
    congr 1
    · rw [Nat.zero_mul, List.drop_zero, List.take_left' hfirst]
    · refine Eq.trans (List.map_congr_left fun k _ => ?_) (ih hrest)
      show ((first ++ rest.flatten).drop ((k + 1) * len)).take len = _
      rw [Nat.succ_mul, Nat.add_comm, ← hfirst, List.drop_append, Nat.add_sub_cancel_left,
        List.drop_eq_nil_of_le (Nat.le_add_right _ _), List.nil_append]

omit [Finite ι] [Nonempty ι] in
/-- Every rank has the string of every other one, or none has. -/
theorem chunks_same {len : ℕ} (hlen : 0 < len) {bytes : ι → List Byte}
    (h : ∀ i, (bytes i).length = len) (i : ι) :
    ((chunksExact (bytes i).length (J.order.map bytes).flatten).all fun chunk => chunk = bytes i)
      = true ↔ ∀ j k, bytes j = bytes k := by
  have hstrings : ∀ s ∈ J.order.map bytes, s.length = len := by
    intro s hs
    obtain ⟨j, _, rfl⟩ := List.mem_map.mp hs
    exact h j
  rw [h i, chunksExact_flatten hlen hstrings, List.all_eq_true]
  constructor
  · intro hall j k
    have hsame : ∀ j, bytes j = bytes i := fun j =>
      of_decide_eq_true (hall _ (List.mem_map.mpr ⟨j, J.mem_order j, rfl⟩))
    rw [hsame j, hsame k]
  · rintro hsame s hs
    obtain ⟨j, _, rfl⟩ := List.mem_map.mp hs
    exact decide_eq_true (hsame j i)

omit [Finite ι] in
/-- **Comparing strings** of the same length: all ranks have the same one, or all of them stop. -/
theorem run_compare {len : ℕ} (hpos : 0 < len) {bytes : ι → List Byte}
    (hlen : ∀ i, (bytes i).length = len) {good : (ι → Unit) → NativeState ι → Prop}
    {bad : (ι → IoError) → NativeState ι → Prop} (hinv : Guards safe w)
    (hgood : (∀ i j, bytes i = bytes j) → good (fun _ => ()) w)
    (hbad : (¬∀ i j, bytes i = bytes j) → bad (fun _ => .collectiveDescriptorMismatch) w) :
    J.Run safe good bad w fun i => allGather (bytes i) >>= fun gathered =>
      FileProgram.ofResult (ensure ((chunksExact (bytes i).length gathered).all
        fun chunk => chunk = bytes i) .collectiveDescriptorMismatch) := by
  refine run_bind (run_allGather hlen hinv) ?_
  rintro _ _ ⟨rfl, rfl⟩ _
  have hchunks := chunks_same (J := J) hpos hlen
  refine run_ofResult hinv ?_
  by_cases hall : ∀ j k, bytes j = bytes k
  · exact .inl ⟨fun _ => (), funext fun i => if_pos ((hchunks i).mpr hall), hgood hall⟩
  · exact .inr ⟨_, funext fun i => if_neg (mt (hchunks i).mp hall), hbad hall⟩

/-! ## Descriptors -/

section Descriptors

variable [DecidableEq ι] {N M : ℕ} {granted : ι → Bool} {request : ι → Request N M}
  {good : (ι → Unit) → NativeState ι → Prop} {bad : (ι → IoError) → NativeState ι → Prop}

/-- The ranks agree on a descriptor. -/
structure DescriptorAgrees (J : NativeJob ι) (granted : ι → Bool) (request : ι → Request N M) :
    Prop where
  same : ∀ i j, request i = request j
  built : ∀ i, ∃ descriptor, buildDescriptor (request i) = .ok descriptor ∧
    descriptor.length * J.order.length ≤ 64 * 1024 * 1024
  granted : ∀ i, granted i = true

theorem request_ext {request request' : Request N M} {bytes : List Byte}
    (h : buildDescriptor request = .ok bytes) (h' : buildDescriptor request' = .ok bytes) :
    request = request' := by
  obtain ⟨hfits, hbytes, _⟩ := io_buildDescriptor_eq_ok h
  obtain ⟨hfits', hbytes', _⟩ := io_buildDescriptor_eq_ok h'
  obtain ⟨_, _, hoperation, htype, hwidth, hglobal, hextra, hgrid, hdecomposition, hpermutation,
    hpath⟩ := requestBytes_inj hfits hfits' (hbytes.symm.trans hbytes')
  obtain ⟨path, operation, global, extra, grid, decomposition, permutation, typeCode, width⟩ :=
    request
  obtain ⟨path', operation', global', extra', grid', decomposition', permutation', typeCode',
    width'⟩ := request'
  obtain rfl : global = global' := List.ofFn_injective hglobal
  obtain rfl : grid = grid' := List.ofFn_injective hgrid
  have haxes : decomposition = decomposition' := funext fun i =>
    Fin.ext (congrFun (List.ofFn_injective hdecomposition) i)
  have haxes' : permutation = permutation' := funext fun i =>
    Fin.ext (congrFun (List.ofFn_injective hpermutation) i)
  simp only at hoperation htype hwidth hextra hpath
  subst_vars
  rfl

/-- **`descriptor_agreement`.** -/
theorem run_descriptorAgreement (hinv : Guards safe w)
    (hgood : DescriptorAgrees J granted request → good (fun _ => ()) w)
    (hbad : ¬DescriptorAgrees J granted request → ∀ e, bad e w) :
    J.Run safe good bad w
      fun i => descriptorAgreement (J.member i) (granted i) (request i) := by
  have hlen : ∀ i, [ioNamespace, (request i).operation.toNat, formatVersion,
      (((buildDescriptor (request i)).toOption.map List.length).getD 0),
      if (buildDescriptor (request i)).isOk then 1 else 0].length = 5 := fun _ => rfl
  refine run_extremes hlen hinv fun least greatest hwords => ?_
  by_cases hsame : least = greatest
  · have hwords := hwords.mp hsame
    simp only [hsame, ne_eq, not_true_eq_false, if_false]
    have hvalid : ∀ i j,
        (buildDescriptor (request i)).isOk = (buildDescriptor (request j)).isOk := by
      intro i j
      have h := hwords i j
      injection h with _ h
      injection h with _ h
      injection h with _ h
      injection h with _ h
      injection h with h
      cases hi : (buildDescriptor (request i)).isOk <;>
        cases hj : (buildDescriptor (request j)).isOk <;> simp_all
    by_cases hbuilt : (buildDescriptor (request J.root)).isOk = true
    · have hdescriptors : ∀ i, ∃ descriptor, buildDescriptor (request i) = .ok descriptor := by
        intro i
        have hi := (hvalid i J.root).trans hbuilt
        cases hresult : buildDescriptor (request i) with
        | ok descriptor => exact ⟨descriptor, rfl⟩
        | error e =>
          rw [hresult] at hi
          cases hi
      choose descriptor hdescriptor using hdescriptors
      have hlengths : ∀ i, (descriptor i).length = (descriptor J.root).length := by
        intro i
        have h := hwords i J.root
        rw [hdescriptor, hdescriptor] at h
        injection h with _ h
        injection h with _ h
        injection h with _ h
        injection h with h
      have hpos : 0 < (descriptor J.root).length := by
        obtain ⟨_, hbytes, _⟩ := io_buildDescriptor_eq_ok (hdescriptor J.root)
        rw [hbytes, length_requestBytes]
        omega
      have hsize : ∀ i, (descriptor i).length * (J.member i).size
          = (descriptor J.root).length * J.order.length := fun i =>
        congrArg (· * J.order.length) (hlengths i)
      have hbuiltAll : ∀ {d}, buildDescriptor (request J.root) = .ok d → d = descriptor J.root :=
        fun h => Except.ok.inj (h.symm.trans (hdescriptor J.root))
      simp only [hdescriptor]
      refine run_ofResult_bind hinv (.inl ⟨descriptor, rfl, ?_⟩)
      simp only [hsize, checkedMul]
      by_cases hfits : (descriptor J.root).length * J.order.length ≤ 64 * 1024 * 1024
      · have hlt : (descriptor J.root).length * J.order.length < usizeLimit :=
          lt_of_le_of_lt hfits (by decide)
        simp only [if_pos hlt]
        refine run_ofResult_bind hinv (.inl ⟨_, rfl, ?_⟩)
        refine run_ofResult_bind hinv (.inl ⟨fun _ => (), ?_, ?_⟩)
        · funext i
          exact ensure_eq_ok.mpr (decide_eq_true hfits)
        refine run_orOwn_agreePhase_bind hinv (fun hgranted => ?_) fun hnot =>
          hnot.elim fun i hi => hbad fun h => by rw [h.granted i] at hi; cases hi
        refine run_compare hpos hlengths hinv (fun hall => ?_) fun hnot =>
          hbad (fun h => hnot ?_) _
        · refine hgood ⟨fun i j => ?_, fun i => ?_, hgranted⟩
          · exact request_ext (hdescriptor i) (hall j i ▸ hdescriptor j)
          · exact ⟨_, hdescriptor i, by rw [hlengths i]; exact hfits⟩
        · intro j k
          have hjk := h.same j k
          exact Except.ok.inj ((hdescriptor j).symm.trans (hjk ▸ hdescriptor k))
      · have hnot : ¬DescriptorAgrees J granted request := by
          intro h
          obtain ⟨d, hd, hle⟩ := h.built J.root
          exact hfits (hbuiltAll hd ▸ hle)
        by_cases hlt : (descriptor J.root).length * J.order.length < usizeLimit
        · simp only [if_pos hlt]
          refine run_ofResult_bind hinv (.inl ⟨_, rfl, ?_⟩)
          refine run_ofResult_bind hinv (.inr ⟨fun _ => .sizeLimit "descriptor allgather", ?_,
            hbad hnot _⟩)
          funext i
          exact if_neg (by simpa using hfits)
        · simp only [if_neg hlt]
          exact run_ofResult_bind hinv (.inr ⟨fun _ => .sizeLimit "descriptor allgather", rfl,
            hbad hnot _⟩)
    · have herrors : ∀ i, ∃ e, buildDescriptor (request i) = .error e := by
        intro i
        cases hresult : buildDescriptor (request i) with
        | ok descriptor =>
          refine absurd ?_ hbuilt
          rw [hvalid J.root i, hresult]
          rfl
        | error e => exact ⟨e, rfl⟩
      choose e he using herrors
      refine run_ofResult_bind hinv (.inr ⟨e, funext he, hbad (fun h => ?_) e⟩)
      obtain ⟨d, hd, _⟩ := h.built J.root
      rw [hd] at hbuilt
      exact hbuilt rfl
  · simp only [ne_eq, hsame, not_false_eq_true, if_true]
    refine run_fail hinv (hbad (fun h => hsame (hwords.mpr fun i j => ?_)) _)
    rw [h.same i j]

end Descriptors

/-! ## Controls -/

section Controls

variable [DecidableEq ι] {limits : ι → InfoLimits} {alloc : ι → ControlsAllocator}
  {options : ι → MpiIoOptions} {extra : ι → List ℕ} {good : (ι → Unit) → NativeState ι → Prop}
  {bad : (ι → IoError) → NativeState ι → Prop}

/-- The ranks agree on a string of controls. -/
structure ControlsAgree (J : NativeJob ι) (limits : ι → InfoLimits) (alloc : ι → ControlsAllocator)
    (options : ι → MpiIoOptions) (extra : ι → List ℕ) : Prop where
  built : ∃ descriptor, descriptor.length * J.order.length ≤ 64 * 1024 * 1024 ∧ ∀ i,
    controlsDescriptor (limits i) (alloc i).descriptor (options i) (extra i) = .ok descriptor
  gathered : ∀ i, (alloc i).gathered = true

theorem controlsDescriptor_eq_ok {limits : InfoLimits} {granted : Bool} {options : MpiIoOptions}
    {extra : List ℕ} {descriptor : List Byte}
    (h : controlsDescriptor limits granted options extra = .ok descriptor) :
    ∃ rest, descriptor = leBytes 8 options.mode.code ++ rest := by
  obtain ⟨_, _, h⟩ := bind_eq_ok.mp h
  obtain ⟨_, _, h⟩ := bind_eq_ok.mp h
  obtain ⟨_, _, h⟩ := bind_eq_ok.mp h
  obtain ⟨_, _, h⟩ := bind_eq_ok.mp h
  obtain rfl := Except.ok.inj h
  rw [List.cons_append, leString_cons, List.append_assoc]
  exact ⟨_, rfl⟩

omit [Finite ι] [Nonempty ι] [DecidableEq ι] in
/-- Ranks that agree on their controls transfer in the same mode. -/
theorem ControlsAgree.mode_eq (h : ControlsAgree J limits alloc options extra) (i j : ι) :
    (options i).mode = (options j).mode := by
  obtain ⟨descriptor, _, hbuilt⟩ := h.built
  obtain ⟨rest, hrest⟩ := controlsDescriptor_eq_ok (hbuilt i)
  obtain ⟨rest', hrest'⟩ := controlsDescriptor_eq_ok (hbuilt j)
  have hbytes := (List.append_inj (hrest.symm.trans hrest') (by
    rw [length_leBytes, length_leBytes])).1
  generalize (options i).mode = mode, (options j).mode = mode' at hbytes
  cases mode <;> cases mode' <;> first | rfl | exact absurd hbytes (by decide)

/-- **`agree_options`** -/
theorem run_agreeControls (hinv : Guards safe w)
    (hgood : ControlsAgree J limits alloc options extra → good (fun _ => ()) w)
    (hbad : ¬ControlsAgree J limits alloc options extra → ∀ e, bad e w) :
    J.Run safe good bad w
      fun i => agreeControls (J.member i) (limits i) (alloc i) (options i) (extra i) := by
  unfold agreeControls
  refine run_orOwn_agreePhase_bind hinv (fun hvalid => ?_) fun hnot =>
    hnot.elim fun i hi => hbad fun h => ?_
  · have hdescriptors : ∀ i, ∃ descriptor, controlsDescriptor (limits i) (alloc i).descriptor
        (options i) (extra i) = .ok descriptor := by
      intro i
      have hi := hvalid i
      cases hresult : controlsDescriptor (limits i) (alloc i).descriptor (options i) (extra i) with
      | ok descriptor => exact ⟨descriptor, rfl⟩
      | error e =>
        rw [hresult] at hi
        cases hi
    choose descriptor hdescriptor using hdescriptors
    have hsame : ControlsAgree J limits alloc options extra →
        ∀ i j, descriptor i = descriptor j := by
      intro h i j
      obtain ⟨d, _, hbuilt⟩ := h.built
      exact (Except.ok.inj ((hdescriptor i).symm.trans (hbuilt i))).trans
        (Except.ok.inj ((hbuilt j).symm.trans (hdescriptor j)))
    simp only [hdescriptor]
    refine run_ofResult_bind hinv (.inl ⟨descriptor, rfl, ?_⟩)
    refine run_bounds hinv fun least greatest hbounds => ?_
    by_cases heq : least = greatest
    · have hlengths : ∀ i, (descriptor i).length = (descriptor J.root).length := fun i =>
        Int.ofNat_inj.mp (hbounds.mp heq i J.root)
      have hpos : 0 < (descriptor J.root).length := by
        obtain ⟨rest, hrest⟩ := controlsDescriptor_eq_ok (hdescriptor J.root)
        rw [hrest, List.length_append, length_leBytes]
        omega
      have hsize : ∀ i, (descriptor i).length * (J.member i).size
          = (descriptor J.root).length * J.order.length := fun i =>
        congrArg (· * J.order.length) (hlengths i)
      refine run_ofResult_bind hinv (.inl ⟨fun _ => (), funext fun i => if_pos ?_, ?_⟩)
      · exact decide_eq_true heq
      simp only [hsize, checkedMul]
      by_cases hfits : (descriptor J.root).length * J.order.length ≤ 64 * 1024 * 1024
      · have hlt : (descriptor J.root).length * J.order.length < usizeLimit :=
          lt_of_le_of_lt hfits (by decide)
        simp only [if_pos hlt]
        refine run_ofResult_bind hinv (.inl ⟨fun _ => (descriptor J.root).length * J.order.length,
          funext fun i => ?_, ?_⟩)
        · rw [Option.filter_some, if_pos (decide_eq_true hfits)]
          rfl
        refine run_orOwn_agreePhase_bind hinv (fun hgathered => ?_) fun hnot =>
          hnot.elim fun i hi => hbad fun h => by rw [h.gathered i] at hi; cases hi
        refine run_compare hpos hlengths hinv (fun hall => hgood ⟨⟨descriptor J.root, hfits, ?_⟩,
          hgathered⟩) fun hnot => hbad (fun h => hnot (hsame h)) _
        intro i
        rw [hdescriptor i, hall i J.root]
      · refine run_ofResult_bind hinv (.inr ⟨fun _ => .sizeLimit "options allgather",
          funext fun i => ?_, hbad (fun h => hfits ?_) _⟩)
        · split
          · rw [Option.filter_some, if_neg (by simpa using hfits)]
            rfl
          · rfl
        · obtain ⟨d, hle, hbuilt⟩ := h.built
          rwa [Except.ok.inj ((hdescriptor J.root).symm.trans (hbuilt J.root))]
    · refine run_ofResult_bind hinv (.inr ⟨fun _ => .collectiveDescriptorMismatch,
        funext fun i => if_neg ?_, hbad (fun h => heq (hbounds.mpr fun i j => ?_)) _⟩)
      · simpa using heq
      · rw [hsame h i j]
  · obtain ⟨d, _, hbuilt⟩ := h.built
    rw [hbuilt i] at hi
    cases hi

end Controls

/-! ## Preparation -/

section Preparation

variable {localError : ι → Option IoError} {phase : String}
  {good : (ι → Unit) → NativeState ι → Prop} {bad : (ι → IoError) → NativeState ι → Prop}

theorem preparationState_nonneg (e : Option IoError) : 0 ≤ preparationState e ∧
    (preparationState e = 0 ↔ e = none) ∧
      (preparationState e = 2 ↔ e = some (.sizeLimit mpiLocalByteLimitWhat)) ∧
      preparationState e ≤ 2 := by
  unfold preparationState
  split
  · decide
  · split
    · rename_i what hwhat
      rw [hwhat]
      simp
    · rename_i what hwhat
      simp [hwhat]
  · rename_i e' hother
    simp only [Option.some.injEq, reduceCtorEq, iff_false]
    refine ⟨by decide, by decide, ⟨fun h => absurd h (by decide), fun h => ?_⟩, by decide⟩
    exact absurd h (hother _)

/-- The error all ranks stop with: the limit of the local bytes counts most. -/
def preparationFailure (localError : ι → Option IoError) (phase : String) (e : IoError) : Prop :=
  ((∃ i, localError i = some (.sizeLimit mpiLocalByteLimitWhat)) →
      e = .sizeLimit mpiLocalByteLimitWhat) ∧
    ((∀ i, localError i ≠ some (.sizeLimit mpiLocalByteLimitWhat)) →
      e = .collectivePrecondition phase)

/-- **`agree_mpi_preparation`.** -/
theorem run_agreeMpiPreparation (hinv : Guards safe w)
    (hgood : (∀ i, localError i = none) → good (fun _ => ()) w)
    (hbad : (∃ i, localError i ≠ none) → ∀ e, preparationFailure localError phase e →
      bad (fun _ => e) w) :
    J.Run safe good bad w fun i => agreeMpiPreparation (localError i) phase := by
  unfold agreeMpiPreparation
  refine run_bind (run_allReduceMax hinv) ?_
  rintro _ _ ⟨rfl, greatest, hgreatest, rfl⟩ _
  have hle : ∀ i, preparationState (localError i) ≤ greatest := fun i =>
    hgreatest.2 (Set.mem_range_self i)
  obtain ⟨i, hi⟩ := hgreatest.1
  beta_reduce at hi
  obtain ⟨hnonneg, hzero, htwo, hbound⟩ := preparationState_nonneg (localError i)
  by_cases hnone : greatest = 0
  · simp only [hnone, if_true]
    refine run_pure hinv (hgood fun j => ?_)
    obtain ⟨hj, hjzero, _⟩ := preparationState_nonneg (localError j)
    exact hjzero.mp (le_antisymm (hnone ▸ hle j) hj)
  have hsome : ∃ i, localError i ≠ none := ⟨i, fun h => hnone (hi ▸ hzero.mpr h)⟩
  by_cases hlimit : greatest = 2
  · simp only [hlimit, OfNat.ofNat_ne_zero, if_false, if_true]
    refine run_fail hinv (hbad hsome _ ⟨fun _ => rfl, fun h => ?_⟩)
    exact absurd (htwo.mp (hi.trans hlimit)) (h i)
  · simp only [hnone, hlimit, if_false]
    refine run_fail hinv (hbad hsome _ ⟨fun ⟨j, hj⟩ => ?_, fun _ => rfl⟩)
    have hjtwo := (preparationState_nonneg (localError j)).2.2.1.mpr hj
    have := hle j
    omega

end Preparation

/-! ## Handles -/

section Handles

variable {bad : (ι → ε) → NativeState ι → Prop}

omit [Finite ι] [Nonempty ι] in
/-- Where some rank fails, calls may fail. -/
theorem mayFail_of {β : Type} {mayFail : Prop} {replies : ι → Except ℤ β}
    (h : Succeeds mayFail replies) {i : ι} (hi : (replies i).isOk = false) : mayFail := by
  refine h.resolve_right fun hall => ?_
  rw [hall i] at hi
  cases hi

/-- Handles that must not stay open are closed by all ranks, or the job is aborted. -/
theorem run_release {call : StatusCall} {held : ι → Bool} (hinv : Guards safe w) :
    J.Run safe (fun _ w' => w' = w) bad w fun i => (release call (held i) : MpiProgram ε Unit) := by
  unfold release
  refine run_bind (run_status hinv) ?_
  rintro replies _ ⟨rfl, _, hsucceeds⟩ _
  refine run_bind (run_collectiveState hinv) ?_
  rintro _ _ ⟨rfl, ⟨all, mixed⟩, ⟨hall, _⟩, rfl⟩ _
  cases all with
  | true => exact run_pure hinv rfl
  | false =>
    have hnot : ¬∀ i, (replies i).isOk = true := fun h => Bool.false_ne_true (hall.mpr h)
    obtain ⟨i, hi⟩ := not_forall.mp hnot
    exact run_abort hinv (mayFail_of hsucceeds (Bool.not_eq_true _ ▸ hi))

theorem run_finishComm (hinv : Guards safe w) :
    J.Run safe (fun _ w' => w' = w) bad w fun _ => (finishComm : MpiProgram ε Unit) :=
  run_release hinv

theorem run_finishResources {datatype : ι → Bool} (hinv : Guards safe w) :
    J.Run safe (fun _ w' => w' = w) bad w
      fun i => (finishResources (datatype i) : MpiProgram ε Unit) := by
  unfold finishResources
  refine run_bind (run_release hinv) ?_
  rintro _ _ rfl _
  refine run_bind (run_release hinv) ?_
  rintro _ _ rfl _
  exact run_release hinv

omit [Finite ι] in
/-- The hints are given back, or a rank aborts the job. -/
theorem run_dropInfo {held : ι → Bool} (hinv : Guards safe w) :
    J.Run safe (fun _ w' => w' = w) bad w fun i => (dropInfo (held i) : MpiProgram ε Unit) := by
  unfold dropInfo
  refine run_bind (run_status hinv) ?_
  rintro replies _ ⟨rfl, _, hsucceeds⟩ _
  by_cases hall : ∀ i, (replies i).isOk = true
  · simp only [hall, if_true]
    exact run_pure hinv rfl
  · obtain ⟨i, hi⟩ := not_forall.mp hall
    exact run_abort_of i (if_neg hi) hinv (mayFail_of hsucceeds (Bool.not_eq_true _ ▸ hi))

theorem run_aggregateCleanupResult {own : ι → Option IoError} (hinv : Guards safe w) :
    J.Run safe (fun x w' => w' = w ∧ ((∀ i, own i = none) → x = fun _ => none) ∧
        ((∃ i, own i ≠ none) → ∀ i, x i ≠ none)) bad w
      fun i => (aggregateCleanupResult (own i) : MpiProgram ε _) := by
  unfold aggregateCleanupResult
  refine run_bind (run_allReduceMax hinv) ?_
  rintro _ _ ⟨rfl, greatest, hgreatest, rfl⟩ _
  have hle : ∀ i, (if (own i).isSome then (1 : ℤ) else 0) ≤ greatest := fun i =>
    hgreatest.2 (Set.mem_range_self i)
  obtain ⟨i, hi⟩ := hgreatest.1
  beta_reduce at hi
  refine run_pure hinv ⟨rfl, fun hnone => ?_, fun ⟨j, hj⟩ k => ?_⟩
  · rw [hnone i] at hi
    obtain rfl : 0 = greatest := hi
    rfl
  · have hj := hle j
    rw [if_pos (Option.ne_none_iff_isSome.mp ‹own j ≠ none›)] at hj
    have hfailed : greatest ≠ 0 := by omega
    beta_reduce
    rw [if_neg hfailed]
    cases own k <;> simp

end Handles

/-! ## Hints, communicators and files -/

section Opening

variable {bad : (ι → IoError) → NativeState ι → Prop}

/-- The hints are made by all ranks. -/
theorem run_infoGuard (hinv : Guards safe w) (hbad : J.mayFail → ∀ e, bad e w) :
    J.Run safe (fun _ w' => w' = w) bad w fun _ => infoGuard := by
  unfold infoGuard
  refine run_bind (run_status hinv) ?_
  rintro replies _ ⟨rfl, _, hsucceeds⟩ _
  refine run_bind (run_captured_agreePhase hinv) ?_
  rintro _ _ ⟨rfl, ⟨hall, rfl⟩ | ⟨⟨i, hi⟩, rfl⟩⟩ _
  · refine run_ofResult hinv (.inl ⟨fun _ => (), funext fun i => ?_, rfl⟩)
    have hi := hall i
    cases hreply : replies i with
    | ok u => rfl
    | error code =>
      rw [hreply] at hi
      cases hi
  · have hfail := mayFail_of hsucceeds hi
    refine run_bind (run_status hinv) ?_
    rintro freed _ ⟨rfl, _, _⟩ _
    by_cases hfreed : ∀ i, (freed i).isOk = true
    · simp only [hfreed, if_true]
      exact run_fail hinv (hbad hfail _)
    · obtain ⟨j, hj⟩ := not_forall.mp hfreed
      exact run_abort_of j (if_neg hj) hinv hfail

/-- The communicator of the operation. -/
theorem run_duplicateComm (hinv : Guards safe w) (hbad : J.mayFail → ∀ e, bad e w) :
    J.Run safe (fun _ w' => w' = w) bad w fun _ => duplicateComm := by
  unfold duplicateComm
  refine run_bind (run_status hinv) ?_
  rintro begun _ ⟨rfl, _, hbegun⟩ _
  by_cases hall : ∀ i, (begun i).isOk = true
  swap
  · obtain ⟨i, hi⟩ := not_forall.mp hall
    exact run_abort_of i (if_pos (by simpa using hi)) hinv
      (mayFail_of hbegun (Bool.not_eq_true _ ▸ hi))
  simp only [hall, Bool.not_true, Bool.false_eq_true, if_false]
  refine run_bind (run_status hinv) ?_
  rintro duplicate _ ⟨rfl, _, hduplicate⟩ _
  refine run_bind (run_collectiveState hinv) ?_
  rintro _ _ ⟨rfl, ⟨all, mixed⟩, ⟨hsucceeded, hmixed⟩, rfl⟩ _
  refine run_bind (run_status hinv) ?_
  rintro restored _ ⟨rfl, _, hrestored⟩ _
  refine run_bind (run_captured_agreePhase hinv) ?_
  have hfails : (∃ i, (duplicate i).isOk = false) → J.mayFail := fun ⟨i, hi⟩ =>
    mayFail_of hduplicate hi
  cases mixed with
  | true =>
    rintro _ _ ⟨rfl, ⟨_, rfl⟩ | ⟨_, rfl⟩⟩ _
    · exact run_abort hinv (hfails (hmixed.mp rfl).2)
    · exact run_abort hinv (hfails (hmixed.mp rfl).2)
  | false =>
    simp only [Bool.false_eq_true, if_false]
    cases all with
    | false =>
      have hnot : ¬∀ i, (duplicate i).isOk = true := fun h => Bool.false_ne_true (hsucceeded.mpr h)
      have hfail : J.mayFail := hfails (by simpa using hnot)
      rintro _ _ ⟨rfl, ⟨_, rfl⟩ | ⟨_, rfl⟩⟩ _
      · exact run_fail hinv (hbad hfail _)
      · exact run_abort hinv hfail
    | true =>
      rintro _ _ ⟨rfl, ⟨_, rfl⟩ | ⟨⟨i, hi⟩, rfl⟩⟩ _
      · refine run_bind (run_status hinv) ?_
        rintro set _ ⟨rfl, _, hset⟩ _
        refine run_bind (run_captured_agreePhase hinv) ?_
        rintro _ _ ⟨rfl, ⟨_, rfl⟩ | ⟨⟨i, hi⟩, rfl⟩⟩ _
        · exact run_pure hinv rfl
        · refine run_bind (run_finishComm hinv) ?_
          rintro _ _ rfl _
          exact run_fail hinv (hbad (mayFail_of hset hi) _)
      · refine run_bind (run_finishComm hinv) ?_
        rintro _ _ rfl _
        exact run_abort hinv (mayFail_of hrestored hi)

/-- **All ranks open the file**, or none. -/
theorem run_openCollective {mode : OpenMode} {phase : String}
    {good : (ι → Unit) → NativeState ι → Prop} (hinv : Guards safe w)
    (hmade : ∀ made view, Guards safe { w with image := afterOpen mode w made, view })
    (hgood : (opened mode w.image).isSome = true →
      good (fun _ => ()) { w with image := afterOpen mode w true, view := fun _ => byteView })
    (hbad : J.mayFail ∨ opened mode w.image = none → ∀ made e,
      bad e { w with image := afterOpen mode w made, view := fun _ => byteView }) :
    J.Run safe good bad w fun _ => openCollective mode J.path phase := by
  unfold openCollective
  refine run_bind (run_openFile hinv hmade) ?_
  rintro file _ ⟨hsome, hall, made, hmades, rfl⟩ hinv'
  refine run_bind (run_collectiveState hinv') ?_
  rintro _ _ ⟨rfl, ⟨all, mixed⟩, ⟨hsucceeded, hmixed⟩, rfl⟩ _
  have hok : ∀ i, (file i).isOk = true → file i = .ok () := by
    intro i hi
    cases hfile : file i with
    | ok u => rfl
    | error code =>
      rw [hfile] at hi
      cases hi
  have hreason : (∃ i, (file i).isOk = false) → J.mayFail ∨ opened mode w.image = none := by
    rintro ⟨i, hi⟩
    rcases hall with hfail | hnone | hall
    · exact .inl hfail
    · exact .inr hnone
    · rw [hall i] at hi
      cases hi
  cases mixed with
  | true =>
    obtain ⟨⟨i, hi⟩, hfalse⟩ := hmixed.mp rfl
    refine run_abort hinv' ((hreason hfalse).resolve_right fun hnone => ?_)
    have := hsome ⟨i, hok i hi⟩
    rw [hnone] at this
    cases this
  | false =>
    simp only [Bool.false_eq_true, if_false]
    cases all with
    | false =>
      have hnot : ¬∀ i, (file i).isOk = true := fun h => Bool.false_ne_true (hsucceeded.mpr h)
      exact run_fail hinv' (hbad (hreason (by simpa using hnot)) _ _)
    | true =>
      have hopened : ∃ i, file i = .ok () := ⟨J.root, hok _ (hsucceeded.mp rfl _)⟩
      obtain rfl := hmades hopened
      exact run_pure hinv' (hgood (hsome hopened))

end Opening

end PencilRs.Analysis
