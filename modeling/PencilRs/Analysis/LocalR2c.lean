import PencilRs.Analysis.R2cRows

/-!
# Local real-to-half-complex transforms

A call in place does what the call out of place does and ends the same way.  Until everything is
checked it changes nothing; then the array is poisoned until the last row is written.
-/

set_option autoImplicit false

namespace PencilRs.Analysis

open PencilRs.Computation PencilRs.Model R2c
open R2r (ComplexValue)

variable {R : Type} {plan : LocalR2cPlan R}

/-! ## Endpoints -/

section Endpoints

variable [Zero R] [DecidableEq R] {n : ℕ}

/-- A value of a spectrum line that must be real and is not. -/
def OffendsIn (n : ℕ) (row : List (ComplexValue R)) (index : ℕ) : Prop :=
  (index = 0 ∨ n % 2 = 0 ∧ index = n / 2) ∧ ∃ value, row[index]? = some value ∧ value.im ≠ 0

/-- Such a value in a batch. -/
def Offends (n : ℕ) (src : List (ComplexValue R)) (batch index : ℕ) : Prop :=
  batch < src.length / (n / 2 + 1) ∧ OffendsIn n (lineAt (n / 2 + 1) src batch) index

/-- The first of them. -/
def FirstOffends (n : ℕ) (src : List (ComplexValue R)) (batch index : ℕ) : Prop :=
  Offends n src batch index ∧
    ∀ batch' index', Offends n src batch' index' → batch < batch' ∨ batch = batch' ∧ index ≤ index'

theorem FirstOffends.unique {src : List (ComplexValue R)} {batch index batch' index' : ℕ}
    (h : FirstOffends n src batch index) (h' : FirstOffends n src batch' index') :
    batch = batch' ∧ index = index' := by
  have hle := h.2 batch' index' h'.1
  have hge := h'.2 batch index h.1
  omega

/-- One line: its first offending value, if there is one. -/
theorem validateEndpointsLine_cases (hplan : IsR2cPlan n plan) {row : List (ComplexValue R)}
    (hrow : row.length = n / 2 + 1) (batch : ℕ) :
    (plan.validateEndpointsLine row batch = .ok () ∧ ∀ i, ¬OffendsIn n row i) ∨
      ∃ i, plan.validateEndpointsLine row batch
          = .error (.error (.invalidSpectrumEndpoint batch i)) ∧
        OffendsIn n row i ∧ ∀ i', OffendsIn n row i' → i ≤ i' := by
  obtain ⟨head, hhead⟩ : ∃ head, row[0]? = some head :=
    ⟨row[0], List.getElem?_eq_getElem (by omega)⟩
  obtain ⟨middle, hmiddle⟩ : ∃ middle, row[n / 2]? = some middle :=
    ⟨row[n / 2], List.getElem?_eq_getElem (by omega)⟩
  have hindex : plan.complexLen - 1 = n / 2 := by
    rw [hplan.complexLen]
    rfl
  unfold LocalR2cPlan.validateEndpointsLine LocalR2cPlan.endpointImaginary
  rw [hplan.realLen, hindex, hhead]
  by_cases hdc : head.im = 0
  · by_cases heven : n % 2 = 0
    · by_cases hnyquist : middle.im = 0
      · refine Or.inl ⟨by simp [hmiddle, heven, hdc, hnyquist, okOr, ensure, bind, Except.bind], ?_⟩
        rintro i ⟨rfl | ⟨_, rfl⟩, value, hvalue, him⟩
        · obtain rfl := Option.some.inj (hhead.symm.trans hvalue)
          exact him hdc
        · obtain rfl := Option.some.inj (hmiddle.symm.trans hvalue)
          exact him hnyquist
      · refine Or.inr ⟨n / 2, ?_, ⟨Or.inr ⟨heven, rfl⟩, middle, hmiddle, hnyquist⟩, ?_⟩
        · simp [hmiddle, heven, hdc, hnyquist, okOr, ensure, bind, Except.bind]
        · rintro i' ⟨rfl | ⟨_, rfl⟩, value, hvalue, him⟩
          · obtain rfl := Option.some.inj (hhead.symm.trans hvalue)
            exact absurd hdc him
          · exact le_rfl
    · refine Or.inl ⟨by simp [heven, hdc, okOr, ensure, bind, Except.bind], ?_⟩
      rintro i ⟨rfl | ⟨heven', _⟩, value, hvalue, him⟩
      · obtain rfl := Option.some.inj (hhead.symm.trans hvalue)
        exact him hdc
      · exact heven heven'
  · refine Or.inr ⟨0, ?_, ⟨Or.inl rfl, head, hhead, hdc⟩, fun _ _ => Nat.zero_le _⟩
    by_cases heven : n % 2 = 0
    · simp [hmiddle, heven, hdc, okOr, ensure, bind, Except.bind]
    · simp [heven, hdc, okOr, ensure, bind, Except.bind]

/-- **The endpoint check** covers every batch and reports the first offending value. -/
theorem validateEndpoints_spec (hplan : IsR2cPlan n plan) {src : List (ComplexValue R)} {count : ℕ}
    (hsrc : src.length = count * (n / 2 + 1)) :
    (plan.validateEndpoints src = .ok () ∧ ∀ batch index, ¬Offends n src batch index) ∨
      ∃ batch index, plan.validateEndpoints src
          = .error (.error (.invalidSpectrumEndpoint batch index)) ∧
        FirstOffends n src batch index := by
  have hcount : src.length / (n / 2 + 1) = count := by
    rw [hsrc]
    exact Nat.mul_div_cancel count (Nat.succ_pos _)
  have hcases : ∀ b < count, _ := fun b hb => validateEndpointsLine_cases hplan
    (length_lineAt (row_end_le hb hsrc)) b
  have hloop : plan.validateEndpoints src = List.forM (List.range count) fun b =>
      plan.validateEndpointsLine (lineAt (n / 2 + 1) src b) b := by
    unfold LocalR2cPlan.validateEndpoints
    rw [hplan.complexLen, hcount]
  rw [hloop]
  cases hresult : List.forM (List.range count) fun b =>
      plan.validateEndpointsLine (lineAt (n / 2 + 1) src b) b with
  | ok u =>
    refine Or.inl ⟨rfl, ?_⟩
    rintro batch index ⟨hbatch, hoffends⟩
    rw [hcount] at hbatch
    have hok := forM_eq_ok_iff.mp hresult batch (List.mem_range.mpr hbatch)
    cases hcases batch hbatch with
    | inl hnone => exact hnone.2 index hoffends
    | inr hsome =>
      obtain ⟨i, herror, _⟩ := hsome
      rw [hok] at herror
      nomatch herror
  | error e =>
    obtain ⟨b, hb, hbefore, herror⟩ := forM_range_eq_error.mp hresult
    cases hcases b hb with
    | inl hnone =>
      rw [hnone.1] at herror
      nomatch herror
    | inr hsome =>
      obtain ⟨i, hi, hoffends, hleast⟩ := hsome
      rw [hi] at herror
      obtain rfl := Except.error.inj herror
      refine Or.inr ⟨b, i, rfl, ⟨hcount.symm ▸ hb, hoffends⟩, ?_⟩
      rintro batch' index' ⟨hbatch', hoffends'⟩
      rw [hcount] at hbatch'
      rcases Nat.lt_trichotomy b batch' with hlt | rfl | hgt
      · exact Or.inl hlt
      · exact Or.inr ⟨rfl, hleast index' hoffends'⟩
      · cases hcases batch' hbatch' with
        | inl hnone => exact absurd hoffends' (hnone.2 index')
        | inr hsome' =>
          obtain ⟨i', herror', _⟩ := hsome'
          rw [hbefore batch' hgt] at herror'
          nomatch herror'

end Endpoints

/-! ## Validation -/

section Validation

variable {n : ℕ}

theorem batchCount_ok {actual lineLen k : ℕ} (h : batchCount actual lineLen = .ok k) :
    actual = k * lineLen := by
  unfold batchCount at h
  obtain ⟨_, hmod, h⟩ := bind_eq_ok.mp h
  rw [ensure_eq_ok, decide_eq_true_eq] at hmod
  obtain rfl := Except.ok.inj h
  exact (Nat.div_mul_cancel (Nat.dvd_of_mod_eq_zero hmod)).symm

/-- Buffers that pass the check hold equally many lines. -/
theorem validateLineBuffers_ok {sourceLen destinationLen realLineLen complexLineLen scratchLen : ℕ}
    {sourceLineIsReal : Bool}
    (h : plan.validateLineBuffers sourceLen destinationLen sourceLineIsReal realLineLen
      complexLineLen scratchLen = .ok ()) :
    (∃ count, sourceLen = count * (if sourceLineIsReal then plan.realLen else plan.complexLen) ∧
        destinationLen = count * (if sourceLineIsReal then plan.complexLen else plan.realLen)) ∧
      plan.realLen ≤ realLineLen ∧ plan.complexLen ≤ complexLineLen ∧
      plan.scratchLen ≤ scratchLen := by
  unfold LocalR2cPlan.validateLineBuffers LocalR2cPlan.validateScratch at h
  obtain ⟨k, hsource, h⟩ := bind_eq_ok.mp h
  obtain ⟨k', hdestination, h⟩ := bind_eq_ok.mp h
  obtain ⟨_, hsame, h⟩ := bind_eq_ok.mp h
  obtain ⟨_, hreal, h⟩ := bind_eq_ok.mp h
  obtain ⟨_, hcomplex, hscratch⟩ := bind_eq_ok.mp h
  rw [ensure_eq_ok, decide_eq_true_eq] at hsame hreal hcomplex hscratch
  rw [← hsame] at hdestination
  refine ⟨⟨k, ?_, ?_⟩, hreal, hcomplex, hscratch⟩
  · cases sourceLineIsReal <;> exact batchCount_ok hsource
  · cases sourceLineIsReal <;> exact batchCount_ok hdestination

/-- An array and a workspace that fit the plan. -/
structure FitsPlan (plan : LocalR2cPlan R) (n : ℕ) (expected : R2cState)
    (s : LocalR2cPlan.InPlace R) : Prop where
  state : s.1.state = expected
  realLen : s.1.realLen = n
  lengths : s.1.checkedLengths = .ok (n * s.1.batchCount, s.1.storage.length)
  storage : s.1.storage.length = s.1.batchCount * plan.complexLen
  realLine : n ≤ s.2.realLine.length
  complexLine : plan.complexLen ≤ s.2.complexLine.length
  scratch : plan.scratchLen ≤ s.2.scratch.length

theorem ensureState_ok {array : LocalR2cInPlaceArray R} {expected : R2cState}
    (h : array.ensureState expected = .ok ()) : array.state = expected := by
  unfold LocalR2cInPlaceArray.ensureState at h
  split at h
  · nomatch h
  · rwa [ensure_eq_ok, decide_eq_true_eq] at h

theorem ensureState_eq {array : LocalR2cInPlaceArray R} {expected : R2cState}
    (hpoisoned : expected ≠ .poisoned) (h : array.state = expected) :
    array.ensureState expected = .ok () := by
  unfold LocalR2cInPlaceArray.ensureState
  split
  · rename_i hstate
    exact absurd (h.symm.trans hstate) hpoisoned
  · rw [ensure_eq_ok, decide_eq_true_eq]
    exact h

theorem checkedLengths_ok {array : LocalR2cInPlaceArray R} {lengths : ℕ × ℕ}
    (h : array.checkedLengths = .ok lengths) :
    lengths = (array.realLen * array.batchCount, array.storage.length) ∧
      array.storage.length = array.batchCount * (array.realLen / 2 + 1) := by
  unfold LocalR2cInPlaceArray.checkedLengths inPlaceLengths at h
  obtain ⟨⟨realValues, complexValues⟩, hlengths, h⟩ := bind_eq_ok.mp h
  obtain ⟨_, hreal, hlengths⟩ := bind_eq_ok.mp hlengths
  obtain ⟨_, hcomplex, hlengths⟩ := bind_eq_ok.mp hlengths
  obtain ⟨rfl, rfl⟩ := Prod.mk.inj (Except.ok.inj hlengths)
  obtain ⟨_, hstorage, h⟩ := bind_eq_ok.mp h
  obtain ⟨_, _, h⟩ := bind_eq_ok.mp h
  rw [okOr_eq_ok, checkedMul_eq_some] at hreal hcomplex
  rw [ensure_eq_ok, decide_eq_true_eq] at hstorage
  obtain rfl := Except.ok.inj h
  refine ⟨?_, ?_⟩
  · rw [hreal.2, hstorage]
  · rw [hstorage, ← hcomplex.2, Nat.mul_comm]

/-- What passes the checks in front of the endpoints fits. -/
theorem validateInPlaceBuffers_ok (hplan : IsR2cPlan n plan) {realSize : ℕ}
    {s : LocalR2cPlan.InPlace R} {expected : R2cState} {complexValues : ℕ}
    (h : plan.validateInPlaceBuffers realSize s.1 s.2 expected = .ok complexValues) :
    FitsPlan plan n expected s ∧ complexValues = s.1.storage.length := by
  unfold LocalR2cPlan.validateInPlaceBuffers at h
  obtain ⟨_, hstate, h⟩ := bind_eq_ok.mp h
  obtain ⟨_, harray, h⟩ := bind_eq_ok.mp h
  obtain ⟨_, _, h⟩ := bind_eq_ok.mp h
  obtain ⟨_, _, h⟩ := bind_eq_ok.mp h
  obtain ⟨lengths, hlengths, h⟩ := bind_eq_ok.mp h
  obtain ⟨_, hbuffers, h⟩ := bind_eq_ok.mp h
  rw [ensure_eq_ok, decide_eq_true_eq, hplan.realLen] at harray
  obtain ⟨rfl, hstorage⟩ := checkedLengths_ok hlengths
  obtain ⟨_, hreal, hcomplex, hscratch⟩ := validateLineBuffers_ok hbuffers
  rw [harray] at hlengths hstorage
  rw [hplan.realLen] at hreal
  exact ⟨⟨ensureState_ok hstate, harray, hlengths, hplan.complexLen ▸ hstorage, hreal, hcomplex,
    hscratch⟩, (Except.ok.inj h).symm⟩

theorem length_take_real (hplan : IsR2cPlan n plan) {expected : R2cState}
    {s : LocalR2cPlan.InPlace R} (h : FitsPlan plan n expected s) :
    ((scalars s.1.storage).take (n * s.1.batchCount)).length = s.1.batchCount * n := by
  rw [List.length_take, Nat.mul_comm]
  exact Nat.min_eq_left (realRows_le hplan h.storage)

/-- A call begins with a poisoned array. -/
theorem FitsPlan.poisoned {expected : R2cState} {s : LocalR2cPlan.InPlace R}
    (h : FitsPlan plan n expected s) :
    FitsPlan plan n .poisoned ({ s.1 with state := .poisoned }, s.2) :=
  ⟨rfl, h.realLen, h.lengths, h.storage, h.realLine, h.complexLine, h.scratch⟩

/-- The lengths do not depend on the values. -/
theorem checkedLengths_congr {array array' : LocalR2cInPlaceArray R}
    (hrealLen : array'.realLen = array.realLen) (hbatchCount : array'.batchCount = array.batchCount)
    (hstorage : array'.storage.length = array.storage.length) :
    array'.checkedLengths = array.checkedLengths := by
  unfold LocalR2cInPlaceArray.checkedLengths
  rw [length_scalars, length_scalars, hrealLen, hbatchCount, hstorage]

theorem realView_eq {expected : R2cState} {s : LocalR2cPlan.InPlace R} (h : FitsPlan plan n expected s)
    {array : LocalR2cInPlaceArray R} (hstate : array.state = .realInput)
    (hrealLen : array.realLen = s.1.realLen) (hbatchCount : array.batchCount = s.1.batchCount)
    (hstorage : array.storage.length = s.1.storage.length) :
    array.realView = .ok ((scalars array.storage).take (n * s.1.batchCount)) := by
  unfold LocalR2cInPlaceArray.realView
  rw [ensureState_eq (by decide) hstate, checkedLengths_congr hrealLen hbatchCount hstorage,
    h.lengths]
  rfl

theorem complexView_eq {expected : R2cState} {s : LocalR2cPlan.InPlace R}
    (h : FitsPlan plan n expected s)
    {array : LocalR2cInPlaceArray R} (hstate : array.state = .complexOutput)
    (hrealLen : array.realLen = s.1.realLen) (hbatchCount : array.batchCount = s.1.batchCount)
    (hstorage : array.storage.length = s.1.storage.length) :
    array.complexView = .ok array.storage := by
  unfold LocalR2cInPlaceArray.complexView
  rw [ensureState_eq (by decide) hstate, checkedLengths_congr hrealLen hbatchCount hstorage,
    h.lengths, ← hstorage]
  exact congrArg Except.ok List.take_length

end Validation

/-! ## Calls -/

section Calls

variable {n realSize : ℕ}

theorem completing_ok {round : ℕ → LocalR2cPlan.InPlace R →
      LocalR2cPlan.Outcome (LocalR2cPlan.InPlace R)} {batches : List ℕ} {finished : R2cState}
    {s t : LocalR2cPlan.InPlace R}
    (h : runRounds round batches ({ s.1 with state := .poisoned }, s.2) = (.ok (), t)) :
    LocalR2cPlan.completing round batches finished s
      = (.ok (), { t.1 with state := finished }, t.2) := by
  unfold LocalR2cPlan.completing
  rw [h]

theorem completing_error {round : ℕ → LocalR2cPlan.InPlace R →
      LocalR2cPlan.Outcome (LocalR2cPlan.InPlace R)} {batches : List ℕ} {finished : R2cState}
    {s t : LocalR2cPlan.InPlace R} {e : Stop LocalR2cError}
    (h : runRounds round batches ({ s.1 with state := .poisoned }, s.2) = (.error e, t)) :
    LocalR2cPlan.completing round batches finished s = (.error e, t) := by
  unfold LocalR2cPlan.completing
  rw [h]

theorem completing_fst (round : ℕ → LocalR2cPlan.InPlace R →
      LocalR2cPlan.Outcome (LocalR2cPlan.InPlace R)) (batches : List ℕ) (finished : R2cState)
    (s : LocalR2cPlan.InPlace R) :
    (LocalR2cPlan.completing round batches finished s).1
      = (runRounds round batches ({ s.1 with state := .poisoned }, s.2)).1 := by
  rcases h : runRounds round batches ({ s.1 with state := .poisoned }, s.2) with ⟨e | u, t⟩
  · rw [completing_error h]
  · rw [completing_ok h]

/-- A call that runs its rounds ends in the state that it promises, or poisoned. -/
theorem completing_cases {round : ℕ → LocalR2cPlan.InPlace R →
      LocalR2cPlan.Outcome (LocalR2cPlan.InPlace R)} (batches : List ℕ) (finished : R2cState)
    (hround : ∀ b s, (round b s).2.1.state = s.1.state) (s : LocalR2cPlan.InPlace R) :
    ((LocalR2cPlan.completing round batches finished s).1 = .ok () ∧
        (LocalR2cPlan.completing round batches finished s).2.1.state = finished) ∨
      ∃ e, (LocalR2cPlan.completing round batches finished s).1 = .error e ∧
        (LocalR2cPlan.completing round batches finished s).2.1.state = .poisoned := by
  have hstate : ∀ (batches : List ℕ) (s : LocalR2cPlan.InPlace R),
      (runRounds round batches s).2.1.state = s.1.state := by
    intro batches
    induction batches with
    | nil => exact fun _ => rfl
    | cons b batches ih =>
      intro s
      have hkept := hround b s
      rcases h : round b s with ⟨_ | _, t⟩
      · rw [h] at hkept
        rw [runRounds_cons_error h]
        exact hkept
      · rw [h] at hkept
        rw [runRounds_cons_ok h, ih]
        exact hkept
  have hend := hstate batches ({ s.1 with state := .poisoned }, s.2)
  rcases h : runRounds round batches ({ s.1 with state := .poisoned }, s.2) with ⟨e | u, t⟩
  · rw [h] at hend
    rw [completing_error h]
    exact Or.inr ⟨e, rfl, hend⟩
  · rw [completing_ok h]
    exact Or.inl ⟨rfl, rfl⟩

theorem state_forwardRoundInPlace (plan : LocalR2cPlan R) (b : ℕ) (s : LocalR2cPlan.InPlace R) :
    (plan.forwardRoundInPlace b s).2.1.state = s.1.state := by
  unfold LocalR2cPlan.forwardRoundInPlace
  split
  · rfl
  · split <;> rfl

/-- The rounds of a valid call out of place, which has none for an empty source. -/
theorem forward_eq (hplan : IsR2cPlan n plan) {src : List R}
    {buffers : LocalR2cPlan.ForwardBuffers R} {count : ℕ} (hsrc : src.length = count * n)
    (h : plan.validateForward src.length buffers.dst.length buffers.realLine.length
      buffers.scratch.length = .ok ()) :
    plan.forward src buffers = runRounds (plan.forwardRound src) (List.range count) buffers ∧
      buffers.dst.length = count * plan.complexLen ∧ n ≤ buffers.realLine.length ∧
      plan.scratchLen ≤ buffers.scratch.length := by
  obtain ⟨⟨k, hk, hdst⟩, hline, _, hscratch⟩ := validateLineBuffers_ok h
  simp only [if_true, hplan.realLen] at hk hdst hline
  obtain rfl : k = count := Nat.eq_of_mul_eq_mul_right hplan.pos (hk.symm.trans hsrc)
  refine ⟨?_, hdst, hline, hscratch⟩
  have hrows : min (src.length / plan.realLen) (buffers.dst.length / plan.complexLen) = k := by
    rw [hsrc, hdst, hplan.realLen, Nat.mul_div_cancel _ hplan.pos,
      Nat.mul_div_cancel _ hplan.row_le.2, Nat.min_self]
  unfold LocalR2cPlan.forward
  rw [h, hrows]
  show (if src.isEmpty then _ else _) = _
  split
  · rename_i hempty
    rw [List.isEmpty_iff] at hempty
    rw [hempty, List.length_nil, eq_comm, Nat.mul_eq_zero] at hsrc
    rw [hsrc.resolve_right hplan.pos.ne']
    rfl
  · rfl

/-- **A row that is reached** was not written over. -/
theorem forwardInPlace_unread (hplan : IsR2cPlan n plan) {s : LocalR2cPlan.InPlace R}
    (hfits : FitsPlan plan n .realInput s) {done : List ℕ} {b : ℕ}
    (hdone : done ++ [b] <+: (List.range s.1.batchCount).reverse) {t : LocalR2cPlan.InPlace R}
    (ht : runRounds plan.forwardRoundInPlace done ({ s.1 with state := .poisoned }, s.2)
      = (.ok (), t)) :
    lineAt n (scalars t.1.storage) b
      = lineAt n ((scalars s.1.storage).take (n * s.1.batchCount)) b := by
  have hstart := hfits.poisoned
  obtain ⟨hbefore, hmem, _⟩ := pairwise_reached (pairwise_range_reverse _) hdone
  have hb : b < s.1.batchCount := List.mem_range.mp (List.mem_reverse.mp hmem)
  obtain ⟨hresult, hreached⟩ := runRounds_forwardRoundInPlace hplan hstart.storage
    hstart.realLine hstart.scratch ((List.prefix_append done [b]).trans hdone)
  rw [ht] at hresult hreached
  have hnew : b ∉ done := fun hin => absurd (hbefore b hin) (lt_irrefl b)
  rw [lineAt_take _ (by
    rw [Nat.mul_comm n]
    exact Nat.mul_le_mul_right n hb)]
  exact (hreached hresult.symm).unread b hb hnew

variable [Field R] [DecidableEq R]

theorem state_inverseRoundInPlace (plan : LocalR2cPlan R) (normalize : Bool) (b : ℕ)
    (s : LocalR2cPlan.InPlace R) :
    (plan.inverseRoundInPlace normalize b s).2.1.state = s.1.state := by
  unfold LocalR2cPlan.inverseRoundInPlace
  split
  · rfl
  · split <;> rfl

theorem executeInverse_rounds (hplan : IsR2cPlan n plan) (normalize : Bool)
    {src : List (ComplexValue R)} {buffers : LocalR2cPlan.InverseBuffers R} {count : ℕ}
    (hsrc : src.length = count * plan.complexLen)
    (h : plan.validateInverse src.length buffers.dst.length buffers.complexLine.length
      buffers.scratch.length = .ok ()) :
    plan.executeInverse normalize src buffers = (match plan.validateEndpoints src with
      | .error e => (.error e, buffers)
      | .ok () => runRounds (plan.inverseRound normalize src) (List.range count) buffers) ∧
      buffers.dst.length = count * n ∧ plan.complexLen ≤ buffers.complexLine.length ∧
      plan.scratchLen ≤ buffers.scratch.length := by
  obtain ⟨⟨k, hk, hdst⟩, _, hline, hscratch⟩ := validateLineBuffers_ok h
  simp only [Bool.false_eq_true, if_false, hplan.realLen] at hk hdst
  obtain rfl : k = count := Nat.eq_of_mul_eq_mul_right hplan.row_le.2 (hk.symm.trans hsrc)
  refine ⟨?_, hdst, hline, hscratch⟩
  have hrows : min (src.length / plan.complexLen) (buffers.dst.length / plan.realLen) = k := by
    rw [hsrc, hdst, hplan.realLen, Nat.mul_div_cancel _ hplan.pos,
      Nat.mul_div_cancel _ hplan.row_le.2, Nat.min_self]
  unfold LocalR2cPlan.executeInverse
  rw [h, hrows]
  cases plan.validateEndpoints src with
  | error e => rfl
  | ok u =>
    show (if src.isEmpty then _ else _) = _
    split
    · rename_i hempty
      rw [List.isEmpty_iff] at hempty
      rw [hempty, List.length_nil, eq_comm, Nat.mul_eq_zero] at hsrc
      rw [hsrc.resolve_right hplan.row_le.2.ne']
      rfl
    · rfl

/-- **The forward transform** in place is that out of place. -/
theorem forwardInPlace_agrees (hplan : IsR2cPlan n plan) {s : LocalR2cPlan.InPlace R}
    {buffers : LocalR2cPlan.ForwardBuffers R} {src : List R} {complexValues : ℕ}
    (hsrc : s.1.realView = .ok src)
    (hin : plan.validateInPlaceBuffers realSize s.1 s.2 .realInput = .ok complexValues)
    (hout : plan.validateForward src.length buffers.dst.length buffers.realLine.length
      buffers.scratch.length = .ok ()) :
    (plan.forwardInPlace realSize s).1 = (plan.forward src buffers).1 ∧
      ((plan.forward src buffers).1 = .ok () →
        (plan.forwardInPlace realSize s).2.1.complexView
          = .ok (plan.forward src buffers).2.dst) ∧
      ((∀ b < s.1.batchCount, plan.forwardFft.accepts (lineAt n src b) = true) →
        (plan.forward src buffers).1 = .ok ()) := by
  obtain ⟨hfits, _⟩ := validateInPlaceBuffers_ok hplan hin
  obtain rfl := Except.ok.inj ((realView_eq hfits hfits.state rfl rfl rfl).symm.trans hsrc)
  have hlength := length_take_real hplan hfits
  obtain ⟨houtIs, hdst, hrealLine, hscratch⟩ := forward_eq hplan hlength hout
  obtain ⟨houtResult, houtValues⟩ := runRounds_forwardRound hplan hlength hdst hrealLine hscratch
  have hstart := hfits.poisoned
  obtain ⟨hinResult, hinReached⟩ := runRounds_forwardRoundInPlace hplan hstart.storage
    hstart.realLine hstart.scratch List.prefix_rfl
  have hvalid : plan.validateInPlace realSize s.1 s.2 .realInput = .ok s.1.batchCount := by
    unfold LocalR2cPlan.validateInPlace
    rw [hin]
    rfl
  have hinIs : plan.forwardInPlace realSize s = LocalR2cPlan.completing plan.forwardRoundInPlace
      (List.range s.1.batchCount).reverse .complexOutput s := by
    unfold LocalR2cPlan.forwardInPlace
    rw [hvalid]
  have hrows : ∀ b ∈ List.range s.1.batchCount,
      forwardVerdict plan (lineAt n (scalars s.1.storage) b) = forwardVerdict plan
        (lineAt n ((scalars s.1.storage).take (n * s.1.batchCount)) b) := by
    intro b hb
    rw [lineAt_take _ (by
      rw [Nat.mul_comm n]
      exact Nat.mul_le_mul_right n (List.mem_range.mp hb))]
  have hverdict := (forM_reverse fun b _ =>
    forwardVerdict_cases plan (lineAt n (scalars s.1.storage) b)).trans (forM_congr hrows)
  rw [houtIs, hinIs]
  refine ⟨?_, fun hok => ?_, fun haccepts => ?_⟩
  · rw [houtResult, ← hverdict, ← hinResult]
    exact completing_fst _ _ _ _
  · have hokIn := hverdict.trans (houtResult.symm.trans hok)
    have hreached := hinReached hokIn
    rcases hrun : runRounds plan.forwardRoundInPlace (List.range s.1.batchCount).reverse
        ({ s.1 with state := .poisoned }, s.2) with ⟨result, t⟩
    rw [hrun] at hinResult hreached
    obtain rfl : result = .ok () := hinResult.trans hokIn
    have hend := hreached.all hplan hstart.storage
    have hview : ({ t.1 with state := .complexOutput } : LocalR2cInPlaceArray R).complexView
        = .ok t.1.storage := by
      apply complexView_eq hfits
      · rfl
      · exact hreached.same.1
      · exact hreached.same.2.1
      · exact hreached.length.trans hfits.storage.symm
    rw [completing_ok hrun, (houtValues (houtResult.symm.trans hok)).1, Nat.mul_comm n]
    exact hview.trans (congrArg Except.ok hend)
  · rw [houtResult]
    refine forM_eq_ok_iff.mpr fun b hb => ?_
    unfold forwardVerdict
    rw [if_pos (haccepts b (List.mem_range.mp hb))]

/-- **The transforms back** in place are those out of place. -/
theorem executeInPlaceInverse_agrees (hplan : IsR2cPlan n plan) (normalize : Bool)
    {s : LocalR2cPlan.InPlace R} {buffers : LocalR2cPlan.InverseBuffers R}
    {src : List (ComplexValue R)} {complexValues : ℕ} (hsrc : s.1.complexView = .ok src)
    (hin : plan.validateInPlaceBuffers realSize s.1 s.2 .complexOutput = .ok complexValues)
    (hout : plan.validateInverse src.length buffers.dst.length buffers.complexLine.length
      buffers.scratch.length = .ok ()) :
    (plan.executeInPlaceInverse realSize normalize s).1
        = (plan.executeInverse normalize src buffers).1 ∧
      ((plan.executeInverse normalize src buffers).1 = .ok () →
        (plan.executeInPlaceInverse realSize normalize s).2.1.realView
          = .ok (plan.executeInverse normalize src buffers).2.dst) ∧
      (∀ batch index, FirstOffends n src batch index →
        plan.executeInPlaceInverse realSize normalize s
            = (.error (.error (.invalidSpectrumEndpoint batch index)), s) ∧
          plan.executeInverse normalize src buffers
            = (.error (.error (.invalidSpectrumEndpoint batch index)), buffers)) ∧
      ((∀ batch index, ¬Offends n src batch index) →
        (∀ b < s.1.batchCount,
          plan.inverseFft.verdict (lineAt plan.complexLen src b) = .accepted) →
        (plan.executeInverse normalize src buffers).1 = .ok ()) := by
  obtain ⟨hfits, rfl⟩ := validateInPlaceBuffers_ok hplan hin
  obtain rfl := Except.ok.inj ((complexView_eq hfits hfits.state rfl rfl rfl).symm.trans hsrc)
  have hvalid : plan.validateInPlace realSize s.1 s.2 .complexOutput
      = (do plan.validateEndpoints s.1.storage; return s.1.batchCount) := by
    unfold LocalR2cPlan.validateInPlace
    rw [hin]
    show (do plan.validateEndpoints (s.1.storage.take s.1.storage.length)
             return s.1.batchCount) = _
    rw [List.take_length]
  obtain ⟨houtIs, hdst, hcomplexLine, hscratch⟩ :=
    executeInverse_rounds hplan normalize hfits.storage hout
  rcases validateEndpoints_spec hplan (hplan.complexLen ▸ hfits.storage) with
    ⟨hendpoints, hnone⟩ | ⟨batch, index, hendpoints, hfirst⟩
  · have hinIs : plan.executeInPlaceInverse realSize normalize s = LocalR2cPlan.completing
        (plan.inverseRoundInPlace normalize) (List.range s.1.batchCount) .realInput s := by
      unfold LocalR2cPlan.executeInPlaceInverse
      rw [hvalid, hendpoints]
      rfl
    rw [hendpoints] at houtIs
    have hstart := hfits.poisoned
    obtain ⟨houtResult, houtValues⟩ := runRounds_inverseRound normalize hplan
      hfits.storage hdst hcomplexLine hscratch
    obtain ⟨hinResult, hinReached⟩ := runRounds_inverseRoundInPlace normalize hplan
      hstart.storage hstart.complexLine hstart.scratch List.prefix_rfl
    rw [houtIs, hinIs]
    refine ⟨?_, fun hok => ?_, fun batch index hfirst => absurd hfirst.1 (hnone batch index),
      fun _ haccepted => ?_⟩
    · exact (completing_fst _ _ _ _).trans (hinResult.trans houtResult.symm)
    · have hokIn := houtResult.symm.trans hok
      have hreached := hinReached hokIn
      rcases hrun : runRounds (plan.inverseRoundInPlace normalize) (List.range s.1.batchCount)
          ({ s.1 with state := .poisoned }, s.2) with ⟨result, t⟩
      rw [hrun] at hinResult hreached
      obtain rfl : result = .ok () := hinResult.trans hokIn
      have hend := hreached.all normalize hplan hstart.storage
      have hview : ({ t.1 with state := .realInput } : LocalR2cInPlaceArray R).realView
          = .ok ((scalars t.1.storage).take (n * s.1.batchCount)) := by
        apply realView_eq hfits
        · rfl
        · exact hreached.same.1
        · exact hreached.same.2.1
        · exact hreached.length.trans hfits.storage.symm
      rw [completing_ok hrun]
      rw [Nat.mul_comm n] at hview
      exact hview.trans (congrArg Except.ok (hend.trans (houtValues hokIn).1.symm))
    · refine houtResult.trans (forM_eq_ok_iff.mpr fun b hb => ?_)
      unfold inverseVerdict
      rw [haccepted b (List.mem_range.mp hb)]
      rfl
  · have hinIs : plan.executeInPlaceInverse realSize normalize s
        = (.error (.error (.invalidSpectrumEndpoint batch index)), s) := by
      unfold LocalR2cPlan.executeInPlaceInverse
      rw [hvalid, hendpoints]
      rfl
    rw [hendpoints] at houtIs
    rw [houtIs, hinIs]
    refine ⟨rfl, nofun, fun batch' index' hfirst' => ?_, fun hnone => ?_⟩
    · obtain ⟨rfl, rfl⟩ := hfirst.unique hfirst'
      exact ⟨rfl, rfl⟩
    · exact absurd hfirst.1 (hnone batch index)

theorem executeInPlaceInverse_unread (hplan : IsR2cPlan n plan) {normalize : Bool}
    {s : LocalR2cPlan.InPlace R} (hfits : FitsPlan plan n .complexOutput s) {done : List ℕ} {b : ℕ}
    (hdone : done ++ [b] <+: List.range s.1.batchCount) {t : LocalR2cPlan.InPlace R}
    (ht : runRounds (plan.inverseRoundInPlace normalize) done
      ({ s.1 with state := .poisoned }, s.2) = (.ok (), t)) :
    lineAt plan.complexLen t.1.storage b = lineAt plan.complexLen s.1.storage b := by
  have hstart := hfits.poisoned
  obtain ⟨hbefore, hmem, _⟩ := pairwise_reached List.pairwise_lt_range hdone
  obtain ⟨hresult, hreached⟩ := runRounds_inverseRoundInPlace normalize hplan
    hstart.storage hstart.complexLine hstart.scratch ((List.prefix_append done [b]).trans hdone)
  rw [ht] at hresult hreached
  have hnew : b ∉ done := fun hin => absurd (hbefore b hin) (lt_irrefl b)
  exact (hreached hresult.symm).unread b (List.mem_range.mp hmem) hnew

/-- How a call in place ends: refused without an effect, or, from the state that it expects, in the
state that it promises, or poisoned. -/
def EndsAs (validation : Except (Stop LocalR2cError) ℕ) (expected finished : R2cState)
    (s : LocalR2cPlan.InPlace R) (outcome : LocalR2cPlan.Outcome (LocalR2cPlan.InPlace R)) : Prop :=
  (∃ e, validation = .error e ∧ outcome = (.error e, s)) ∨
    validation = .ok s.1.batchCount ∧ s.1.state = expected ∧
      (outcome.1 = .ok () ∧ outcome.2.1.state = finished ∨
        ∃ e, outcome.1 = .error e ∧ outcome.2.1.state = .poisoned)

theorem validateInPlace_ok {s : LocalR2cPlan.InPlace R} {expected : R2cState} {count : ℕ}
    (h : plan.validateInPlace realSize s.1 s.2 expected = .ok count) :
    count = s.1.batchCount ∧ s.1.state = expected := by
  unfold LocalR2cPlan.validateInPlace LocalR2cPlan.validateInPlaceBuffers at h
  obtain ⟨complexValues, hbuffers, h⟩ := bind_eq_ok.mp h
  obtain ⟨_, hstate, _⟩ := bind_eq_ok.mp (mapError_eq_ok.mp hbuffers)
  refine ⟨?_, ensureState_ok hstate⟩
  split at h
  · obtain ⟨_, _, h⟩ := bind_eq_ok.mp h
    exact (Except.ok.inj h).symm
  · exact (Except.ok.inj h).symm

theorem forwardInPlace_ends (plan : LocalR2cPlan R) (s : LocalR2cPlan.InPlace R) :
    EndsAs (plan.validateInPlace realSize s.1 s.2 .realInput) .realInput .complexOutput s
      (plan.forwardInPlace realSize s) := by
  unfold LocalR2cPlan.forwardInPlace
  cases h : plan.validateInPlace realSize s.1 s.2 .realInput with
  | error e => exact Or.inl ⟨e, rfl, rfl⟩
  | ok count =>
    obtain ⟨rfl, hstate⟩ := validateInPlace_ok h
    exact Or.inr ⟨rfl, hstate, completing_cases _ _ (state_forwardRoundInPlace plan) s⟩

theorem executeInPlaceInverse_ends (plan : LocalR2cPlan R) (normalize : Bool)
    (s : LocalR2cPlan.InPlace R) :
    EndsAs (plan.validateInPlace realSize s.1 s.2 .complexOutput) .complexOutput .realInput s
      (plan.executeInPlaceInverse realSize normalize s) := by
  unfold LocalR2cPlan.executeInPlaceInverse
  cases h : plan.validateInPlace realSize s.1 s.2 .complexOutput with
  | error e => exact Or.inl ⟨e, rfl, rfl⟩
  | ok count =>
    obtain ⟨rfl, hstate⟩ := validateInPlace_ok h
    exact Or.inr ⟨rfl, hstate, completing_cases _ _ (state_inverseRoundInPlace plan normalize) s⟩

/-- A poisoned array is refused by every check. -/
theorem validateInPlace_poisoned (plan : LocalR2cPlan R) {s : LocalR2cPlan.InPlace R}
    (h : s.1.state = .poisoned) (expected : R2cState) :
    plan.validateInPlace realSize s.1 s.2 expected = .error (.error .poisoned) := by
  unfold LocalR2cPlan.validateInPlace LocalR2cPlan.validateInPlaceBuffers
    LocalR2cInPlaceArray.ensureState
  rw [h]
  rfl

end Calls

/-! ## Histories -/

section Histories

variable {realSize : ℕ}

/-- Which way a call goes, with the states that it expects and promises. -/
def Operation.states : Operation R → Option (R2cState × R2cState)
  | .forward .. => some (.realInput, .complexOutput)
  | .inverse .. | .backward .. => some (.complexOutput, .realInput)
  | .editReal _ | .editComplex _ => none

/-- What a poisoned array answers. -/
def Operation.refused (op : Operation R) : Option (Except (Stop LocalR2cError) Unit) :=
  (Operation.states op).map fun _ => .error (.error .poisoned)

def succeeded : Option (Except (Stop LocalR2cError) Unit) → Bool
  | some (.ok ()) => true
  | _ => false

/-- How many calls of a history succeeded from a state. -/
def successes (expected : R2cState) (ops : List (Operation R))
    (results : List (Option (Except (Stop LocalR2cError) Unit))) : ℕ :=
  (ops.zip results).countP fun (op, result) =>
    succeeded result && ((Operation.states op).map Prod.fst == some expected)

theorem state_editReal (array : LocalR2cInPlaceArray R) (edit : List R → List R) :
    (array.editReal edit).state = array.state := by
  unfold LocalR2cInPlaceArray.editReal
  split <;> rfl

theorem state_editComplex (array : LocalR2cInPlaceArray R)
    (edit : List (ComplexValue R) → List (ComplexValue R)) :
    (array.editComplex edit).state = array.state := by
  unfold LocalR2cInPlaceArray.editComplex
  split <;> rfl

variable [Field R] [DecidableEq R]

/-- **One step** of a history. -/
theorem operation_cases (realSize : ℕ) (op : Operation R) (array : LocalR2cInPlaceArray R) :
    (Operation.states op = none ∧ (op.run realSize array).1 = none ∧
        (op.run realSize array).2.state = array.state) ∨
      ∃ expected finished, Operation.states op = some (expected, finished) ∧
        ((∃ e, op.run realSize array = (some (.error e), array)) ∨
          array.state = expected ∧
            ((op.run realSize array).1 = some (.ok ()) ∧
                (op.run realSize array).2.state = finished ∨
              ∃ e, (op.run realSize array).1 = some (.error e) ∧
                (op.run realSize array).2.state = .poisoned)) := by
  have hcall : ∀ {validation : Except (Stop LocalR2cError) ℕ} {expected finished : R2cState}
      {s : LocalR2cPlan.InPlace R} {outcome : LocalR2cPlan.Outcome (LocalR2cPlan.InPlace R)},
      EndsAs validation expected finished s outcome →
        (∃ e, (some outcome.1, outcome.2.1) = (some (.error e), s.1)) ∨
          s.1.state = expected ∧
            (some outcome.1 = some (.ok ()) ∧ outcome.2.1.state = finished ∨
              ∃ e, some outcome.1 = some (.error e) ∧ outcome.2.1.state = .poisoned) := by
    rintro validation expected finished s outcome (⟨e, _, rfl⟩ | ⟨_, hstate, hok | ⟨e, he, hp⟩⟩)
    · exact Or.inl ⟨e, rfl⟩
    · exact Or.inr ⟨hstate, Or.inl ⟨congrArg some hok.1, hok.2⟩⟩
    · exact Or.inr ⟨hstate, Or.inr ⟨e, congrArg some he, hp⟩⟩
  cases op with
  | forward plan workspace =>
    exact Or.inr ⟨_, _, rfl, hcall (forwardInPlace_ends plan (array, workspace))⟩
  | inverse plan workspace =>
    exact Or.inr ⟨_, _, rfl, hcall (executeInPlaceInverse_ends plan true (array, workspace))⟩
  | backward plan workspace =>
    exact Or.inr ⟨_, _, rfl, hcall (executeInPlaceInverse_ends plan false (array, workspace))⟩
  | editReal edit => exact Or.inl ⟨rfl, rfl, state_editReal array edit⟩
  | editComplex edit => exact Or.inl ⟨rfl, rfl, state_editComplex array edit⟩

/-- **A poisoned array** stays as it is. -/
theorem operation_poisoned {array : LocalR2cInPlaceArray R} (h : array.state = .poisoned)
    (op : Operation R) : op.run realSize array = (Operation.refused op, array) := by
  have hview : ∀ expected, array.ensureState expected = .error .poisoned := by
    intro expected
    unfold LocalR2cInPlaceArray.ensureState
    rw [h]
  cases op with
  | forward plan workspace =>
    show (some (plan.forwardInPlace realSize (array, workspace)).1,
      (plan.forwardInPlace realSize (array, workspace)).2.1) = _
    unfold LocalR2cPlan.forwardInPlace
    rw [validateInPlace_poisoned plan h]
    rfl
  | inverse plan workspace =>
    show (some (plan.executeInPlaceInverse realSize true (array, workspace)).1,
      (plan.executeInPlaceInverse realSize true (array, workspace)).2.1) = _
    unfold LocalR2cPlan.executeInPlaceInverse
    rw [validateInPlace_poisoned plan h]
    rfl
  | backward plan workspace =>
    show (some (plan.executeInPlaceInverse realSize false (array, workspace)).1,
      (plan.executeInPlaceInverse realSize false (array, workspace)).2.1) = _
    unfold LocalR2cPlan.executeInPlaceInverse
    rw [validateInPlace_poisoned plan h]
    rfl
  | editReal edit =>
    show (none, array.editReal edit) = _
    unfold LocalR2cInPlaceArray.editReal LocalR2cInPlaceArray.realView
    rw [hview]
    rfl
  | editComplex edit =>
    show (none, array.editComplex edit) = _
    unfold LocalR2cInPlaceArray.editComplex LocalR2cInPlaceArray.complexView
    rw [hview]
    rfl

theorem runOperations_poisoned {array : LocalR2cInPlaceArray R} (h : array.state = .poisoned)
    (ops : List (Operation R)) :
    runOperations realSize array ops = (ops.map Operation.refused, array) := by
  induction ops with
  | nil => rfl
  | cons op ops ih =>
    unfold runOperations
    rw [operation_poisoned h]
    simp only [ih, List.map_cons]

/-- How many transforms a state is ahead of those back. -/
def ahead : R2cState → ℕ
  | .complexOutput => 1
  | _ => 0

/-- **A whole history**: transforms and transforms back alternate. -/
theorem runOperations_alternates (realSize : ℕ) (array : LocalR2cInPlaceArray R)
    (ops : List (Operation R)) (h : (runOperations realSize array ops).2.state ≠ .poisoned) :
    successes .complexOutput ops (runOperations realSize array ops).1
        + ahead (runOperations realSize array ops).2.state
      = successes .realInput ops (runOperations realSize array ops).1 + ahead array.state := by
  induction ops generalizing array with
  | nil => rfl
  | cons op ops ih =>
    have hrest : (runOperations realSize array (op :: ops)).2
        = (runOperations realSize (op.run realSize array).2 ops).2 := rfl
    rw [hrest] at h ⊢
    have hcount : ∀ expected, successes expected (op :: ops)
          (runOperations realSize array (op :: ops)).1
        = successes expected ops (runOperations realSize (op.run realSize array).2 ops).1
          + if succeeded (op.run realSize array).1 &&
              ((Operation.states op).map Prod.fst == some expected) then 1 else 0 := by
      intro expected
      exact List.countP_cons ..
    have hlive : (op.run realSize array).2.state ≠ .poisoned := by
      intro hpoisoned
      rw [runOperations_poisoned hpoisoned] at h
      exact h hpoisoned
    have hih := ih _ h
    rw [hcount, hcount]
    rcases operation_cases realSize op array with
      ⟨_, hnone, hstate⟩ | ⟨expected, finished, hop, hcall⟩
    · rw [hstate] at hih
      rw [hnone]
      exact hih
    · rw [hop]
      rcases hcall with ⟨e, hrun⟩ | ⟨hstate, ⟨hok, hfinished⟩ | ⟨e, _, hpoisoned⟩⟩
      · rw [hrun] at hih ⊢
        exact hih
      · rw [hok, hstate]
        rw [hfinished] at hih
        have hway : expected = .realInput ∧ finished = .complexOutput ∨
            expected = .complexOutput ∧ finished = .realInput := by
          cases op with
          | forward _ _ =>
            obtain ⟨rfl, rfl⟩ := Prod.mk.inj (Option.some.inj hop)
            exact Or.inl ⟨rfl, rfl⟩
          | inverse _ _ =>
            obtain ⟨rfl, rfl⟩ := Prod.mk.inj (Option.some.inj hop)
            exact Or.inr ⟨rfl, rfl⟩
          | backward _ _ =>
            obtain ⟨rfl, rfl⟩ := Prod.mk.inj (Option.some.inj hop)
            exact Or.inr ⟨rfl, rfl⟩
          | editReal _ => nomatch hop
          | editComplex _ => nomatch hop
        rcases hway with ⟨rfl, rfl⟩ | ⟨rfl, rfl⟩
        · show _ + 0 + _ = _ + 1 + 0
          rw [Nat.add_zero, hih]
          rfl
        · show _ + 1 + _ = _ + 0 + 1
          rw [Nat.add_right_comm, hih]
          rfl
      · exact absurd hpoisoned hlive

end Histories

/-- **Local real-to-half-complex transforms in place** give the values of the out-of-place calls and
end as these do; no row is read after something was written over it; the endpoint check covers
every batch in front of the first write and reports the first offending value; what is refused has
no effect; and histories of calls, with any plans, alternate until one fails on its way, after
which the array only answers that it is poisoned. -/
theorem local_r2c_in_place [Field R] [DecidableEq R] {planner : RealFftPlanner R} {realSize n : ℕ}
    (hplan : LocalR2cPlan.new planner realSize n = .ok plan) :
    (∀ (s : LocalR2cPlan.InPlace R) (buffers : LocalR2cPlan.ForwardBuffers R) (src : List R)
        (complexValues : ℕ),
      s.1.realView = .ok src →
      plan.validateInPlaceBuffers realSize s.1 s.2 .realInput = .ok complexValues →
      plan.validateForward src.length buffers.dst.length buffers.realLine.length
        buffers.scratch.length = .ok () →
      (plan.forwardInPlace realSize s).1 = (plan.forward src buffers).1 ∧
      ((plan.forward src buffers).1 = .ok () →
        (plan.forwardInPlace realSize s).2.1.complexView
          = .ok (plan.forward src buffers).2.dst) ∧
      ((∀ b < s.1.batchCount, plan.forwardFft.accepts (lineAt n src b) = true) →
        (plan.forward src buffers).1 = .ok ()) ∧
      ∀ done b, done ++ [b] <+: (List.range s.1.batchCount).reverse →
        ∀ t, runRounds plan.forwardRoundInPlace done ({ s.1 with state := .poisoned }, s.2)
          = (.ok (), t) → lineAt n (scalars t.1.storage) b = lineAt n src b) ∧
    (∀ (normalize : Bool) (s : LocalR2cPlan.InPlace R) (buffers : LocalR2cPlan.InverseBuffers R)
        (src : List (ComplexValue R)) (complexValues : ℕ),
      s.1.complexView = .ok src →
      plan.validateInPlaceBuffers realSize s.1 s.2 .complexOutput = .ok complexValues →
      plan.validateInverse src.length buffers.dst.length buffers.complexLine.length
        buffers.scratch.length = .ok () →
      (plan.executeInPlaceInverse realSize normalize s).1
        = (plan.executeInverse normalize src buffers).1 ∧
      ((plan.executeInverse normalize src buffers).1 = .ok () →
        (plan.executeInPlaceInverse realSize normalize s).2.1.realView
          = .ok (plan.executeInverse normalize src buffers).2.dst) ∧
      (∀ batch index, FirstOffends n src batch index →
        plan.executeInPlaceInverse realSize normalize s
            = (.error (.error (.invalidSpectrumEndpoint batch index)), s) ∧
          plan.executeInverse normalize src buffers
            = (.error (.error (.invalidSpectrumEndpoint batch index)), buffers)) ∧
      ((∀ batch index, ¬Offends n src batch index) →
        (∀ b < s.1.batchCount,
          plan.inverseFft.verdict (lineAt plan.complexLen src b) = .accepted) →
        (plan.executeInverse normalize src buffers).1 = .ok ()) ∧
      ∀ done b, done ++ [b] <+: List.range s.1.batchCount →
        ∀ t, runRounds (plan.inverseRoundInPlace normalize) done
            ({ s.1 with state := .poisoned }, s.2) = (.ok (), t) →
          lineAt plan.complexLen t.1.storage b = lineAt plan.complexLen src b) ∧
    (∀ src buffers e, plan.validateForward src.length buffers.dst.length buffers.realLine.length
        buffers.scratch.length = .error e →
      plan.forward src buffers = (.error (.error e), buffers)) ∧
    (∀ normalize src buffers e,
      plan.validateInverse src.length buffers.dst.length buffers.complexLine.length
        buffers.scratch.length = .error e →
      plan.executeInverse normalize src buffers = (.error (.error e), buffers)) ∧
    (∀ s, EndsAs (plan.validateInPlace realSize s.1 s.2 .realInput) .realInput .complexOutput s
      (plan.forwardInPlace realSize s)) ∧
    (∀ normalize s, EndsAs (plan.validateInPlace realSize s.1 s.2 .complexOutput) .complexOutput
      .realInput s (plan.executeInPlaceInverse realSize normalize s)) ∧
    ∀ (array : LocalR2cInPlaceArray R) (ops : List (Operation R)),
      let (results, last) := runOperations realSize array ops
      (array.state = .realInput →
        (last.state = .realInput →
          successes .realInput ops results = successes .complexOutput ops results) ∧
        (last.state = .complexOutput →
          successes .realInput ops results = successes .complexOutput ops results + 1)) ∧
      (last.state = .poisoned →
        ∀ more, runOperations realSize last more = (more.map Operation.refused, last)) := by
  have his := isR2cPlan_of_new hplan
  refine ⟨fun s buffers src complexValues hsrc hin hout => ?_,
    fun normalize s buffers src complexValues hsrc hin hout => ?_, fun src buffers e h => ?_,
    fun normalize src buffers e h => ?_, forwardInPlace_ends plan,
    executeInPlaceInverse_ends plan, fun array ops => ⟨fun hstart => ⟨fun hlast => ?_,
      fun hlast => ?_⟩, runOperations_poisoned⟩⟩
  · obtain ⟨hresult, hvalues, haccepts⟩ := forwardInPlace_agrees his hsrc hin hout
    refine ⟨hresult, hvalues, haccepts, fun done b hdone t ht => ?_⟩
    obtain ⟨hfits, _⟩ := validateInPlaceBuffers_ok his hin
    obtain rfl := Except.ok.inj ((realView_eq hfits hfits.state rfl rfl rfl).symm.trans hsrc)
    exact forwardInPlace_unread his hfits hdone ht
  · obtain ⟨hresult, hvalues, hendpoints, haccepts⟩ :=
      executeInPlaceInverse_agrees his normalize hsrc hin hout
    refine ⟨hresult, hvalues, hendpoints, haccepts, fun done b hdone t ht => ?_⟩
    obtain ⟨hfits, _⟩ := validateInPlaceBuffers_ok his hin
    obtain rfl := Except.ok.inj ((complexView_eq hfits hfits.state rfl rfl rfl).symm.trans hsrc)
    exact executeInPlaceInverse_unread his hfits hdone ht
  · unfold LocalR2cPlan.forward
    rw [h]
  · unfold LocalR2cPlan.executeInverse
    rw [h]
  · have hcount := runOperations_alternates realSize array ops
      (by rw [hlast]; decide)
    rw [hlast, hstart] at hcount
    exact hcount.symm
  · have hcount := runOperations_alternates realSize array ops
      (by rw [hlast]; decide)
    rw [hlast, hstart] at hcount
    exact hcount.symm

/-- The transforms of pairs. -/
def pairPlanner : RealFftPlanner ℚ where
  planFftForward _ :=
    { scratchLen := 0
      transform := fun
        | [a, b] => [⟨a + b, 0⟩, ⟨a - b, 0⟩]
        | line => List.replicate (line.length / 2 + 1) ⟨0, 0⟩
      accepts := fun _ => true
      leaves := fun line scratch => (line, scratch)
      length_transform := fun line => by
        split
        · exact (by decide : 2 = 2 / 2 + 1)
        · exact List.length_replicate
      length_leaves := fun _ _ => ⟨rfl, rfl⟩ }
  planFftInverse n :=
    { lineLen := n
      scratchLen := 0
      transform := fun row => match n, row with
        | 2, [x, y] => [x.re + y.re, x.re - y.re]
        | n, _ => List.replicate n 0
      verdict := fun
        | [x, y] =>
          if x.im = 0 ∧ y.im = 0 then .accepted
          else .inputValues (decide (x.im ≠ 0)) (decide (y.im ≠ 0))
        | _ => .failed
      leaves := fun line scratch => (line, scratch)
      length_transform := fun line => by
        split
        · rfl
        · exact List.length_replicate
      length_leaves := fun _ _ => ⟨rfl, rfl⟩ }
  lineLen_inverse _ := rfl

theorem local_r2c_in_place_pairs :
    let plan : LocalR2cPlan ℚ :=
      ⟨2, 2, 0, pairPlanner.planFftForward 2, pairPlanner.planFftInverse 2⟩
    let array : LocalR2cInPlaceArray ℚ := ⟨[⟨1, 2⟩, ⟨3, 4⟩, ⟨0, 0⟩, ⟨0, 0⟩], 2, 2, .realInput⟩
    let workspace : LocalR2cInPlaceWorkspace ℚ := ⟨[0, 0], [⟨0, 0⟩, ⟨0, 0⟩], [], 2, 2⟩
    (plan.forwardInPlace 8 (array, workspace)).2.1.complexView
      = .ok [⟨3, 0⟩, ⟨-1, 0⟩, ⟨7, 0⟩, ⟨-1, 0⟩] := by
  intro plan array workspace
  have hnew : LocalR2cPlan.new pairPlanner 8 2 = .ok plan := rfl
  have hforward := (local_r2c_in_place hnew).1 (array, workspace)
    ⟨List.replicate 4 ⟨0, 0⟩, [0, 0], []⟩ [1, 2, 3, 4] 4 (by decide +kernel)
    (by decide +kernel) (by decide)
  have hvalues := hforward.2.1 (hforward.2.2.1 fun _ _ => rfl)
  rw [hvalues]
  decide +kernel

end PencilRs.Analysis
