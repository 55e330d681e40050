import PencilRs.Analysis.LineLoops
import PencilRs.Model.LocalR2c

/-!
# Rows of local real-to-half-complex transforms

In place, a row is read before anything that was written can reach it: on the way there the written
half-complex rows lie behind the unread real ones, on the way back the written real rows lie in
front of the unread half-complex ones.
-/

set_option autoImplicit false

namespace PencilRs.Analysis

open PencilRs.Computation PencilRs.Model R2c
open R2r (ComplexValue)

variable {R : Type}

/-! ## Views of an allocation -/

@[simp] theorem length_scalars (storage : List (ComplexValue R)) :
    (scalars storage).length = 2 * storage.length := by
  unfold scalars
  rw [List.length_flatMap]
  simp [Nat.mul_comm]

theorem ofScalars_scalars (storage : List (ComplexValue R)) : ofScalars (scalars storage) = storage
    := by
  induction storage with
  | nil => rfl
  | cons value storage ih =>
    show _ :: ofScalars (scalars storage) = _
    rw [ih]

theorem scalars_ofScalars {values : List R} (h : 2 ∣ values.length) :
    scalars (ofScalars values) = values := by
  obtain ⟨count, hcount⟩ := h
  induction count generalizing values with
  | zero =>
    rw [List.eq_nil_of_length_eq_zero hcount]
    rfl
  | succ count ih =>
    match values, hcount with
    | re :: im :: rest, hcount =>
      have hrest : rest.length = 2 * count := by simpa [Nat.mul_succ] using hcount
      show re :: im :: scalars (ofScalars rest) = _
      rw [ih hrest]

theorem length_ofScalars {values : List R} (h : 2 ∣ values.length) :
    2 * (ofScalars values).length = values.length := by
  rw [← length_scalars, scalars_ofScalars h]

theorem scalars_append (a b : List (ComplexValue R)) :
    scalars (a ++ b) = scalars a ++ scalars b := List.flatMap_append

theorem scalars_take (storage : List (ComplexValue R)) (k : ℕ) :
    scalars (storage.take k) = (scalars storage).take (2 * k) := by
  induction storage generalizing k with
  | nil => simp [scalars]
  | cons value storage ih =>
    cases k with
    | zero => rfl
    | succ k =>
      show value.re :: value.im :: scalars (storage.take k) = _
      rw [ih]
      rfl

theorem scalars_drop (storage : List (ComplexValue R)) (k : ℕ) :
    scalars (storage.drop k) = (scalars storage).drop (2 * k) := by
  induction storage generalizing k with
  | nil => simp [scalars]
  | cons value storage ih =>
    cases k with
    | zero => rfl
    | succ k => exact ih k

/-- A half-complex row in the real view. -/
theorem scalars_withLine (n : ℕ) (storage : List (ComplexValue R)) (i : ℕ)
    (line : List (ComplexValue R)) :
    scalars (withLine n storage i line) = withLine (2 * n) (scalars storage) i (scalars line) := by
  have hstart : 2 * (i * n) = i * (2 * n) := by ring
  have hend : 2 * ((i + 1) * n) = (i + 1) * (2 * n) := by ring
  unfold withLine
  rw [scalars_append, scalars_append, scalars_take, scalars_drop, hstart, hend]

theorem scalars_lineAt (n : ℕ) (storage : List (ComplexValue R)) (i : ℕ) :
    scalars (lineAt n storage i) = lineAt (2 * n) (scalars storage) i := by
  unfold lineAt
  rw [scalars_take, scalars_drop]
  congr 2
  ring

theorem scalars_inj {a b : List (ComplexValue R)} (h : scalars a = scalars b) : a = b := by
  rw [← ofScalars_scalars a, h, ofScalars_scalars]

/-! ## Rows -/

variable {plan : LocalR2cPlan R}

/-- The plans of real lines of `n` values. -/
structure IsR2cPlan (n : ℕ) (plan : LocalR2cPlan R) : Prop where
  pos : 0 < n
  realLen : plan.realLen = n
  complexLen : plan.complexLen = n / 2 + 1
  scratch : plan.scratchLen = max plan.forwardFft.scratchLen plan.inverseFft.scratchLen
  inverseLen : plan.inverseFft.lineLen = n

theorem isR2cPlan_of_new {planner : RealFftPlanner R} {realSize n : ℕ}
    (h : LocalR2cPlan.new planner realSize n = .ok plan) : IsR2cPlan n plan := by
  unfold LocalR2cPlan.new at h
  obtain ⟨complexLen, hlengths, h⟩ := bind_eq_ok.mp h
  unfold validateLengths at hlengths
  obtain ⟨_, hpos, hlengths⟩ := bind_eq_ok.mp hlengths
  obtain ⟨_, _, hlengths⟩ := bind_eq_ok.mp hlengths
  obtain ⟨_, _, hlengths⟩ := bind_eq_ok.mp hlengths
  have hcomplexLen : complexLen = n / 2 + 1 := by
    simp only at hlengths
    split at hlengths
    · obtain ⟨_, _, hlengths⟩ := bind_eq_ok.mp hlengths
      exact (Except.ok.inj hlengths).symm
    · exact (Except.ok.inj hlengths).symm
  subst hcomplexLen
  obtain rfl := Except.ok.inj h
  rw [ensure_eq_ok, decide_eq_true_eq] at hpos
  exact ⟨Nat.pos_of_ne_zero hpos, rfl, rfl, rfl, planner.lineLen_inverse n⟩

/-- A real row is no longer than its half-complex row, and a row is not empty. -/
theorem IsR2cPlan.row_le {n : ℕ} (h : IsR2cPlan n plan) :
    n ≤ 2 * plan.complexLen ∧ 0 < plan.complexLen := by
  rw [h.complexLen]
  omega

/-- **A forward row** in buffers that fit. -/
theorem forwardRow_eq {n : ℕ} (hplan : IsR2cPlan n plan) {row realLine : List R}
    {scratch : List (ComplexValue R)} (hrow : row.length = n) (hline : n ≤ realLine.length)
    (hscratch : plan.scratchLen ≤ scratch.length) :
    ∃ realLine' scratch', plan.forwardRow row realLine scratch
        = some (if plan.forwardFft.accepts row then .ok () else .error .panic,
          plan.forwardFft.transform row, realLine', scratch') ∧
      realLine'.length = realLine.length ∧ scratch'.length = scratch.length := by
  have hkernel : plan.forwardFft.scratchLen ≤ scratch.length :=
    (le_max_left ..).trans (hplan.scratch ▸ hscratch)
  have hleaves := plan.forwardFft.length_leaves row (scratch.take plan.forwardFft.scratchLen)
  refine ⟨(plan.forwardFft.leaves row (scratch.take plan.forwardFft.scratchLen)).1
    ++ realLine.drop plan.realLen,
    (plan.forwardFft.leaves row (scratch.take plan.forwardFft.scratchLen)).2
    ++ scratch.drop plan.forwardFft.scratchLen, ?_, ?_, ?_⟩
  · unfold LocalR2cPlan.forwardRow
    rw [guard, if_pos ⟨hrow.trans hplan.realLen.symm, hplan.realLen ▸ hline, hkernel⟩]
    rfl
  · rw [List.length_append, hleaves.1, List.length_drop, hrow, hplan.realLen]
    omega
  · rw [List.length_append, hleaves.2, List.length_take, List.length_drop]
    omega

/-- Whether the library accepts a real row. -/
def forwardVerdict (plan : LocalR2cPlan R) (row : List R) : Except (Stop LocalR2cError) Unit :=
  if plan.forwardFft.accepts row then .ok () else .error .panic

theorem forwardVerdict_cases (plan : LocalR2cPlan R) (row : List R) :
    forwardVerdict plan row = .ok () ∨ forwardVerdict plan row = .error .panic := by
  unfold forwardVerdict
  split
  · exact Or.inl rfl
  · exact Or.inr rfl

/-- What comes before and behind an element that a loop has reached. -/
theorem pairwise_reached {ι : Type} {r : ι → ι → Prop} {l p : List ι} {x : ι} (h : l.Pairwise r)
    (hp : p ++ [x] <+: l) :
    (∀ y ∈ p, r y x) ∧ x ∈ l ∧ ∀ y ∈ l, y ∉ p ++ [x] → r x y := by
  obtain ⟨rest, rfl⟩ := hp
  rw [List.append_assoc, List.pairwise_append] at h
  obtain ⟨_, hrest, hacross⟩ := h
  refine ⟨fun y hy => hacross y hy x (by simp), by simp, fun y hy hnot => ?_⟩
  have hmem : y ∈ rest := (List.mem_append.mp hy).resolve_left hnot
  exact (List.pairwise_cons.mp hrest).1 y hmem

theorem pairwise_range_reverse (count : ℕ) : (List.range count).reverse.Pairwise (· > ·) := by
  rw [List.pairwise_reverse]
  exact List.pairwise_lt_range

theorem row_end_le {count b m length : ℕ} (hb : b < count) (h : length = count * m) :
    (b + 1) * m ≤ length := h ▸ Nat.mul_le_mul_right m hb

/-! ## The way there -/

section Forward

variable {n count : ℕ}

/-- What the rounds out of place have reached. -/
structure ForwardReached (plan : LocalR2cPlan R) (n count : ℕ) (src : List R)
    (buffers : LocalR2cPlan.ForwardBuffers R) (done : List ℕ)
    (s : LocalR2cPlan.ForwardBuffers R) : Prop where
  length : s.dst.length = count * plan.complexLen
  realLine : s.realLine.length = buffers.realLine.length
  scratch : s.scratch.length = buffers.scratch.length
  written : ∀ b ∈ done,
    lineAt plan.complexLen s.dst b = plan.forwardFft.transform (lineAt n src b)

/-- **Out of place.** -/
theorem forwardRound_reached (hplan : IsR2cPlan n plan) {src : List R}
    (hsrc : src.length = count * n) {buffers : LocalR2cPlan.ForwardBuffers R}
    (hline : n ≤ buffers.realLine.length) (hscratch : plan.scratchLen ≤ buffers.scratch.length)
    {done : List ℕ} {b : ℕ} (hdone : done ++ [b] <+: List.range count)
    {s : LocalR2cPlan.ForwardBuffers R} (hs : ForwardReached plan n count src buffers done s) :
    (plan.forwardRound src b s).1 = forwardVerdict plan (lineAt n src b) ∧
      ForwardReached plan n count src buffers (done ++ [b]) (plan.forwardRound src b s).2 := by
  obtain ⟨hbefore, hmem, _⟩ := pairwise_reached List.pairwise_lt_range hdone
  have hb := List.mem_range.mp hmem
  have hrowIs : (lineAt n src b).length = n := length_lineAt (row_end_le hb hsrc)
  obtain ⟨realLine, scratch, hrow, hrealLine, hscratch'⟩ := forwardRow_eq hplan hrowIs
    (hs.realLine ▸ hline) (hs.scratch ▸ hscratch)
  have hlength : (plan.forwardFft.transform (lineAt n src b)).length = plan.complexLen := by
    rw [plan.forwardFft.length_transform, hrowIs, hplan.complexLen]
  have hend := row_end_le hb hs.length
  have hround : plan.forwardRound src b s = (forwardVerdict plan (lineAt n src b),
      ⟨withLine plan.complexLen s.dst b (plan.forwardFft.transform (lineAt n src b)), realLine,
        scratch⟩) := by
    unfold LocalR2cPlan.forwardRound
    rw [hplan.realLen, hrow]
    rfl
  rw [hround]
  refine ⟨rfl, ?_, hrealLine.trans hs.realLine, hscratch'.trans hs.scratch, ?_⟩
  · rw [length_withLine hlength hend, hs.length]
  · intro b' hb'
    cases List.mem_append.mp hb' with
    | inl hold =>
      rw [lineAt_withLine_ne hlength hend (hbefore b' hold).ne]
      exact hs.written b' hold
    | inr hnow =>
      rw [List.mem_singleton.mp hnow]
      exact lineAt_withLine_self hlength hend

theorem runRounds_forwardRound (hplan : IsR2cPlan n plan) {src : List R}
    (hsrc : src.length = count * n) {buffers : LocalR2cPlan.ForwardBuffers R}
    (hdst : buffers.dst.length = count * plan.complexLen) (hline : n ≤ buffers.realLine.length)
    (hscratch : plan.scratchLen ≤ buffers.scratch.length) :
    let verdict := List.forM (List.range count) fun b => forwardVerdict plan (lineAt n src b)
    let outcome := runRounds (plan.forwardRound src) (List.range count) buffers
    outcome.1 = verdict ∧
      (verdict = .ok () → outcome.2.dst = mapLines n plan.forwardFft.transform src ∧
        outcome.2.realLine.length = buffers.realLine.length ∧
        outcome.2.scratch.length = buffers.scratch.length) := by
  obtain ⟨hresult, hreached⟩ := runRounds_inv (ForwardReached plan n count src buffers)
    ⟨hdst, rfl, rfl, nofun⟩ fun done b hdone s hs =>
      (forwardRound_reached hplan hsrc hline hscratch hdone hs).imp_right fun h _ => h
  refine ⟨hresult, fun hok => ?_⟩
  have hend := hreached hok
  refine ⟨?_, hend.realLine, hend.scratch⟩
  exact eq_mapLines hplan.pos hsrc hend.length fun b hb => hend.written b (List.mem_range.mpr hb)

/-- What the rounds in place have reached: the rows that are left are as they were. -/
structure ForwardReachedInPlace (plan : LocalR2cPlan R) (n count : ℕ) (s₀ : LocalR2cPlan.InPlace R)
    (done : List ℕ) (s : LocalR2cPlan.InPlace R) : Prop where
  length : s.1.storage.length = count * plan.complexLen
  realLine : s.2.realLine.length = s₀.2.realLine.length
  scratch : s.2.scratch.length = s₀.2.scratch.length
  same : s.1.realLen = s₀.1.realLen ∧ s.1.batchCount = s₀.1.batchCount ∧ s.1.state = s₀.1.state
  unread : ∀ b < count, b ∉ done →
    lineAt n (scalars s.1.storage) b = lineAt n (scalars s₀.1.storage) b
  written : ∀ b ∈ done, lineAt plan.complexLen s.1.storage b
    = plan.forwardFft.transform (lineAt n (scalars s₀.1.storage) b)

/-- The real rows fit in an allocation of half-complex rows. -/
theorem realRows_le (hplan : IsR2cPlan n plan) {storage : List (ComplexValue R)}
    (hstorage : storage.length = count * plan.complexLen) :
    count * n ≤ (scalars storage).length := by
  rw [length_scalars, hstorage]
  calc count * n ≤ count * (2 * plan.complexLen) := Nat.mul_le_mul_left count hplan.row_le.1
    _ = 2 * (count * plan.complexLen) := by ring

theorem length_realRow (hplan : IsR2cPlan n plan) {storage : List (ComplexValue R)}
    (hstorage : storage.length = count * plan.complexLen) {b : ℕ} (hb : b < count) :
    (lineAt n (scalars storage) b).length = n :=
  length_lineAt ((Nat.mul_le_mul_right n hb).trans (realRows_le hplan hstorage))

/-- **In place**, from the back: a written row lies behind every row that is still to be read. -/
theorem forwardRoundInPlace_reached (hplan : IsR2cPlan n plan) {s₀ : LocalR2cPlan.InPlace R}
    (hstorage : s₀.1.storage.length = count * plan.complexLen)
    (hline : n ≤ s₀.2.realLine.length) (hscratch : plan.scratchLen ≤ s₀.2.scratch.length)
    {done : List ℕ} {b : ℕ} (hdone : done ++ [b] <+: (List.range count).reverse)
    {s : LocalR2cPlan.InPlace R} (hs : ForwardReachedInPlace plan n count s₀ done s) :
    (plan.forwardRoundInPlace b s).1
        = forwardVerdict plan (lineAt n (scalars s₀.1.storage) b) ∧
      ForwardReachedInPlace plan n count s₀ (done ++ [b]) (plan.forwardRoundInPlace b s).2 := by
  obtain ⟨hbefore, hmem, hbehind⟩ := pairwise_reached (pairwise_range_reverse count) hdone
  have hb : b < count := List.mem_range.mp (List.mem_reverse.mp hmem)
  have hnew : b ∉ done := fun hin => absurd (hbefore b hin) (lt_irrefl b)
  have hrowIs := hs.unread b hb hnew
  have hrowLength := length_realRow hplan hstorage hb
  obtain ⟨realLine, scratch, hrow, hrealLine, hscratch'⟩ := forwardRow_eq hplan hrowLength
    (hs.realLine ▸ hline) (hs.scratch ▸ hscratch)
  have hlength : (plan.forwardFft.transform
      (lineAt n (scalars s₀.1.storage) b)).length = plan.complexLen := by
    rw [plan.forwardFft.length_transform, hrowLength, hplan.complexLen]
  have hend := row_end_le hb hs.length
  have hround : plan.forwardRoundInPlace b s
      = (forwardVerdict plan (lineAt n (scalars s₀.1.storage) b),
        { s.1 with storage := (withLine plan.complexLen s.1.storage b
            (plan.forwardFft.transform (lineAt n (scalars s₀.1.storage) b))) },
        { s.2 with realLine := realLine, scratch := scratch }) := by
    unfold LocalR2cPlan.forwardRoundInPlace
    rw [if_neg (Nat.not_lt.mpr hend), hplan.realLen, hrowIs, hrow]
    rfl
  rw [hround]
  refine ⟨rfl, ?_, hrealLine.trans hs.realLine, hscratch'.trans hs.scratch, hs.same, ?_, ?_⟩
  · show (withLine plan.complexLen s.1.storage b _).length = _
    rw [length_withLine hlength hend, hs.length]
  · -- What is unread ends in front of the row that is written.
    intro b' hb' hnot
    have hlt : b' < b := hbehind b' (List.mem_reverse.mpr (List.mem_range.mpr hb')) hnot
    have hfront : (b' + 1) * n ≤ b * (2 * plan.complexLen) :=
      Nat.mul_le_mul hlt hplan.row_le.1
    have hinside : b * (2 * plan.complexLen) ≤ (scalars s.1.storage).length := by
      rw [length_scalars]
      calc b * (2 * plan.complexLen) = 2 * (b * plan.complexLen) := by ring
        _ ≤ 2 * ((b + 1) * plan.complexLen) :=
          Nat.mul_le_mul_left 2 (Nat.mul_le_mul_right _ (Nat.le_succ b))
        _ ≤ 2 * s.1.storage.length := Nat.mul_le_mul_left 2 hend
    show lineAt n (scalars (withLine plan.complexLen s.1.storage b _)) b' = _
    rw [scalars_withLine, ← lineAt_take _ hfront, take_withLine _ le_rfl hinside,
      lineAt_take _ hfront]
    exact hs.unread b' hb' fun hin => hnot (List.mem_append_left _ hin)
  · intro b' hb'
    show lineAt plan.complexLen (withLine plan.complexLen s.1.storage b _) b' = _
    cases List.mem_append.mp hb' with
    | inl hold =>
      rw [lineAt_withLine_ne hlength hend (hbefore b' hold).ne']
      exact hs.written b' hold
    | inr hnow =>
      rw [List.mem_singleton.mp hnow]
      exact lineAt_withLine_self hlength hend

theorem runRounds_forwardRoundInPlace (hplan : IsR2cPlan n plan) {s₀ : LocalR2cPlan.InPlace R}
    (hstorage : s₀.1.storage.length = count * plan.complexLen)
    (hline : n ≤ s₀.2.realLine.length) (hscratch : plan.scratchLen ≤ s₀.2.scratch.length)
    {done : List ℕ} (hdone : done <+: (List.range count).reverse) :
    let verdict := List.forM done fun b =>
      forwardVerdict plan (lineAt n (scalars s₀.1.storage) b)
    let outcome := runRounds plan.forwardRoundInPlace done s₀
    outcome.1 = verdict ∧
      (verdict = .ok () → ForwardReachedInPlace plan n count s₀ done outcome.2) :=
  runRounds_inv (ForwardReachedInPlace plan n count s₀)
    ⟨hstorage, rfl, rfl, ⟨rfl, rfl, rfl⟩, fun _ _ _ => rfl, nofun⟩ fun _ _ hp _ hs =>
      (forwardRoundInPlace_reached hplan hstorage hline hscratch (hp.trans hdone) hs).imp_right
        fun h _ => h

/-- All rows are written. -/
theorem ForwardReachedInPlace.all (hplan : IsR2cPlan n plan) {s₀ s : LocalR2cPlan.InPlace R}
    (hstorage : s₀.1.storage.length = count * plan.complexLen)
    (h : ForwardReachedInPlace plan n count s₀ (List.range count).reverse s) :
    s.1.storage
      = mapLines n plan.forwardFft.transform ((scalars s₀.1.storage).take (count * n)) := by
  have hprefix : ((scalars s₀.1.storage).take (count * n)).length = count * n := by
    rw [List.length_take]
    exact Nat.min_eq_left (realRows_le hplan hstorage)
  refine eq_mapLines hplan.pos hprefix h.length fun b hb => ?_
  rw [lineAt_take _ (Nat.mul_le_mul_right n hb)]
  exact h.written b (List.mem_reverse.mpr (List.mem_range.mpr hb))

end Forward

/-! ## The way back -/

section Inverse

variable [Field R] [DecidableEq R] {n count : ℕ} (normalize : Bool)

/-- What the library says of a half-complex row. -/
def inverseVerdict (plan : LocalR2cPlan R) (batch : ℕ) (row : List (ComplexValue R)) :
    Except (Stop LocalR2cError) Unit :=
  plan.convertInverseError batch (plan.inverseFft.verdict row)

theorem length_inverseValues (hplan : IsR2cPlan n plan) (row : List (ComplexValue R)) :
    (plan.inverseValues normalize row).length = n := by
  have hlength := (plan.inverseFft.length_transform row).trans hplan.inverseLen
  unfold LocalR2cPlan.inverseValues
  split
  · rw [List.length_map, hlength]
  · exact hlength

/-- **A row of the way back** in buffers that fit. -/
theorem inverseRow_eq (hplan : IsR2cPlan n plan) {batch : ℕ}
    {row complexLine scratch : List (ComplexValue R)} (hrow : row.length = plan.complexLen)
    (hline : plan.complexLen ≤ complexLine.length) (hscratch : plan.scratchLen ≤ scratch.length) :
    ∃ complexLine' scratch', plan.inverseRow normalize batch row complexLine scratch
        = some (inverseVerdict plan batch row, plan.inverseValues normalize row, complexLine',
          scratch') ∧
      complexLine'.length = complexLine.length ∧ scratch'.length = scratch.length := by
  have hkernel : plan.inverseFft.scratchLen ≤ scratch.length :=
    (le_max_right ..).trans (hplan.scratch ▸ hscratch)
  have hleaves := plan.inverseFft.length_leaves row (scratch.take plan.inverseFft.scratchLen)
  refine ⟨(plan.inverseFft.leaves row (scratch.take plan.inverseFft.scratchLen)).1
    ++ complexLine.drop plan.complexLen,
    (plan.inverseFft.leaves row (scratch.take plan.inverseFft.scratchLen)).2
    ++ scratch.drop plan.inverseFft.scratchLen, ?_, ?_, ?_⟩
  · unfold LocalR2cPlan.inverseRow
    rw [guard, if_pos ⟨hrow, hline, hkernel⟩]
    rfl
  · rw [List.length_append, hleaves.1, List.length_drop, hrow]
    omega
  · rw [List.length_append, hleaves.2, List.length_take, List.length_drop]
    omega

/-- What the rounds out of place have reached. -/
structure InverseReached (plan : LocalR2cPlan R) (normalize : Bool) (n count : ℕ)
    (src : List (ComplexValue R)) (buffers : LocalR2cPlan.InverseBuffers R) (done : List ℕ)
    (s : LocalR2cPlan.InverseBuffers R) : Prop where
  length : s.dst.length = count * n
  complexLine : s.complexLine.length = buffers.complexLine.length
  scratch : s.scratch.length = buffers.scratch.length
  written : ∀ b ∈ done,
    lineAt n s.dst b = plan.inverseValues normalize (lineAt plan.complexLen src b)

/-- **Out of place.** -/
theorem inverseRound_reached (hplan : IsR2cPlan n plan) {src : List (ComplexValue R)}
    (hsrc : src.length = count * plan.complexLen) {buffers : LocalR2cPlan.InverseBuffers R}
    (hline : plan.complexLen ≤ buffers.complexLine.length)
    (hscratch : plan.scratchLen ≤ buffers.scratch.length)
    {done : List ℕ} {b : ℕ} (hdone : done ++ [b] <+: List.range count)
    {s : LocalR2cPlan.InverseBuffers R}
    (hs : InverseReached plan normalize n count src buffers done s) :
    (plan.inverseRound normalize src b s).1
        = inverseVerdict plan b (lineAt plan.complexLen src b) ∧
      InverseReached plan normalize n count src buffers (done ++ [b])
        (plan.inverseRound normalize src b s).2 := by
  obtain ⟨hbefore, hmem, _⟩ := pairwise_reached List.pairwise_lt_range hdone
  have hb := List.mem_range.mp hmem
  have hrowIs : (lineAt plan.complexLen src b).length = plan.complexLen :=
    length_lineAt (row_end_le hb hsrc)
  obtain ⟨complexLine, scratch, hrow, hcomplexLine, hscratch'⟩ := inverseRow_eq normalize hplan
    hrowIs (hs.complexLine ▸ hline) (hs.scratch ▸ hscratch)
  have hlength := length_inverseValues normalize hplan (lineAt plan.complexLen src b)
  have hend := row_end_le hb hs.length
  have hround : plan.inverseRound normalize src b s
      = (inverseVerdict plan b (lineAt plan.complexLen src b),
        ⟨withLine n s.dst b (plan.inverseValues normalize (lineAt plan.complexLen src b)),
          complexLine, scratch⟩) := by
    unfold LocalR2cPlan.inverseRound
    rw [hrow, hplan.realLen]
  rw [hround]
  refine ⟨rfl, ?_, hcomplexLine.trans hs.complexLine, hscratch'.trans hs.scratch, ?_⟩
  · rw [length_withLine hlength hend, hs.length]
  · intro b' hb'
    cases List.mem_append.mp hb' with
    | inl hold =>
      rw [lineAt_withLine_ne hlength hend (hbefore b' hold).ne]
      exact hs.written b' hold
    | inr hnow =>
      rw [List.mem_singleton.mp hnow]
      exact lineAt_withLine_self hlength hend

theorem runRounds_inverseRound (hplan : IsR2cPlan n plan) {src : List (ComplexValue R)}
    (hsrc : src.length = count * plan.complexLen) {buffers : LocalR2cPlan.InverseBuffers R}
    (hdst : buffers.dst.length = count * n) (hline : plan.complexLen ≤ buffers.complexLine.length)
    (hscratch : plan.scratchLen ≤ buffers.scratch.length) :
    let verdict := List.forM (List.range count) fun b =>
      inverseVerdict plan b (lineAt plan.complexLen src b)
    let outcome := runRounds (plan.inverseRound normalize src) (List.range count) buffers
    outcome.1 = verdict ∧ (verdict = .ok () →
      outcome.2.dst = mapLines plan.complexLen (plan.inverseValues normalize) src ∧
        outcome.2.complexLine.length = buffers.complexLine.length ∧
        outcome.2.scratch.length = buffers.scratch.length) := by
  obtain ⟨hresult, hreached⟩ := runRounds_inv
    (InverseReached plan normalize n count src buffers) ⟨hdst, rfl, rfl, nofun⟩
    fun done b hdone s hs =>
      (inverseRound_reached normalize hplan hsrc hline hscratch hdone hs).imp_right fun h _ => h
  refine ⟨hresult, fun hok => ?_⟩
  have hend := hreached hok
  refine ⟨?_, hend.complexLine, hend.scratch⟩
  exact eq_mapLines hplan.row_le.2 hsrc hend.length fun b hb =>
    hend.written b (List.mem_range.mpr hb)

/-- What the rounds in place have reached: the rows that are left are as they were. -/
structure InverseReachedInPlace (plan : LocalR2cPlan R) (normalize : Bool) (n count : ℕ)
    (s₀ : LocalR2cPlan.InPlace R) (done : List ℕ) (s : LocalR2cPlan.InPlace R) : Prop where
  length : s.1.storage.length = count * plan.complexLen
  complexLine : s.2.complexLine.length = s₀.2.complexLine.length
  scratch : s.2.scratch.length = s₀.2.scratch.length
  same : s.1.realLen = s₀.1.realLen ∧ s.1.batchCount = s₀.1.batchCount ∧ s.1.state = s₀.1.state
  unread : ∀ b < count, b ∉ done →
    lineAt plan.complexLen s.1.storage b = lineAt plan.complexLen s₀.1.storage b
  written : ∀ b ∈ done, lineAt n (scalars s.1.storage) b
    = plan.inverseValues normalize (lineAt plan.complexLen s₀.1.storage b)

/-- **In place**, from the front: a written row ends in front of every row that is still to be
read. -/
theorem inverseRoundInPlace_reached (hplan : IsR2cPlan n plan) {s₀ : LocalR2cPlan.InPlace R}
    (hstorage : s₀.1.storage.length = count * plan.complexLen)
    (hline : plan.complexLen ≤ s₀.2.complexLine.length)
    (hscratch : plan.scratchLen ≤ s₀.2.scratch.length)
    {done : List ℕ} {b : ℕ} (hdone : done ++ [b] <+: List.range count)
    {s : LocalR2cPlan.InPlace R}
    (hs : InverseReachedInPlace plan normalize n count s₀ done s) :
    (plan.inverseRoundInPlace normalize b s).1
        = inverseVerdict plan b (lineAt plan.complexLen s₀.1.storage b) ∧
      InverseReachedInPlace plan normalize n count s₀ (done ++ [b])
        (plan.inverseRoundInPlace normalize b s).2 := by
  obtain ⟨hbefore, hmem, hbehind⟩ := pairwise_reached List.pairwise_lt_range hdone
  have hb := List.mem_range.mp hmem
  have hnew : b ∉ done := fun hin => absurd (hbefore b hin) (lt_irrefl b)
  have hrowIs := hs.unread b hb hnew
  have hrowLength : (lineAt plan.complexLen s₀.1.storage b).length = plan.complexLen :=
    length_lineAt (row_end_le hb hstorage)
  obtain ⟨complexLine, scratch, hrow, hcomplexLine, hscratch'⟩ := inverseRow_eq normalize hplan
    hrowLength (hs.complexLine ▸ hline) (hs.scratch ▸ hscratch)
  have hlength := length_inverseValues normalize hplan
    (lineAt plan.complexLen s₀.1.storage b)
  have hend : (b + 1) * n ≤ (scalars s.1.storage).length :=
    (Nat.mul_le_mul_right n hb).trans (realRows_le hplan hs.length)
  have heven : 2 ∣ (withLine n (scalars s.1.storage) b (plan.inverseValues normalize
      (lineAt plan.complexLen s₀.1.storage b))).length := by
    rw [length_withLine hlength hend, length_scalars]
    exact dvd_mul_right ..
  have hscalars := scalars_ofScalars heven
  have hround : plan.inverseRoundInPlace normalize b s
      = (inverseVerdict plan b (lineAt plan.complexLen s₀.1.storage b),
        { s.1 with storage := (ofScalars (withLine n (scalars s.1.storage) b
            (plan.inverseValues normalize (lineAt plan.complexLen s₀.1.storage b)))) },
        { s.2 with complexLine := complexLine, scratch := scratch }) := by
    unfold LocalR2cPlan.inverseRoundInPlace
    rw [hplan.realLen, if_neg (Nat.not_lt.mpr hend), hrowIs, hrow]
  rw [hround]
  refine ⟨rfl, ?_, hcomplexLine.trans hs.complexLine, hscratch'.trans hs.scratch, hs.same, ?_, ?_⟩
  · show (ofScalars _).length = _
    have hdouble := length_ofScalars heven
    rw [length_withLine hlength hend, length_scalars] at hdouble
    rw [Nat.eq_of_mul_eq_mul_left two_pos hdouble, hs.length]
  · -- What is unread begins behind the row that is written.
    intro b' hb' hnot
    have hlt : b < b' := hbehind b' (List.mem_range.mpr hb') hnot
    have hbehindRow : (b + 1) * n ≤ b' * (2 * plan.complexLen) :=
      Nat.mul_le_mul hlt hplan.row_le.1
    show lineAt plan.complexLen (ofScalars _) b' = _
    apply scalars_inj
    rw [← hs.unread b' hb' fun hin => hnot (List.mem_append_left _ hin), scalars_lineAt,
      scalars_lineAt, hscalars]
    exact congrArg (List.take _) (drop_withLine hlength hend hbehindRow)
  · intro b' hb'
    show lineAt n (scalars (ofScalars _)) b' = _
    rw [hscalars]
    cases List.mem_append.mp hb' with
    | inl hold =>
      rw [lineAt_withLine_ne hlength hend (hbefore b' hold).ne]
      exact hs.written b' hold
    | inr hnow =>
      rw [List.mem_singleton.mp hnow]
      exact lineAt_withLine_self hlength hend

theorem runRounds_inverseRoundInPlace (hplan : IsR2cPlan n plan) {s₀ : LocalR2cPlan.InPlace R}
    (hstorage : s₀.1.storage.length = count * plan.complexLen)
    (hline : plan.complexLen ≤ s₀.2.complexLine.length)
    (hscratch : plan.scratchLen ≤ s₀.2.scratch.length)
    {done : List ℕ} (hdone : done <+: List.range count) :
    let verdict := List.forM done fun b =>
      inverseVerdict plan b (lineAt plan.complexLen s₀.1.storage b)
    let outcome := runRounds (plan.inverseRoundInPlace normalize) done s₀
    outcome.1 = verdict ∧ (verdict = .ok () →
      InverseReachedInPlace plan normalize n count s₀ done outcome.2) :=
  runRounds_inv (InverseReachedInPlace plan normalize n count s₀)
    ⟨hstorage, rfl, rfl, ⟨rfl, rfl, rfl⟩, fun _ _ _ => rfl, nofun⟩ fun _ _ hp _ hs =>
      (inverseRoundInPlace_reached normalize hplan hstorage hline hscratch (hp.trans hdone)
        hs).imp_right fun h _ => h

/-- All rows are written. -/
theorem InverseReachedInPlace.all (hplan : IsR2cPlan n plan) {s₀ s : LocalR2cPlan.InPlace R}
    (hstorage : s₀.1.storage.length = count * plan.complexLen)
    (h : InverseReachedInPlace plan normalize n count s₀ (List.range count) s) :
    (scalars s.1.storage).take (count * n)
      = mapLines plan.complexLen (plan.inverseValues normalize) s₀.1.storage := by
  have hprefix : ((scalars s.1.storage).take (count * n)).length = count * n := by
    rw [List.length_take]
    exact Nat.min_eq_left (realRows_le hplan h.length)
  refine eq_mapLines hplan.row_le.2 hstorage hprefix fun b hb => ?_
  rw [lineAt_take _ (Nat.mul_le_mul_right n hb)]
  exact h.written b (List.mem_range.mpr hb)

end Inverse

end PencilRs.Analysis
