import PencilRs.Model.Transport

/-!
# What the ranks agree on

After an agreement every rank has its own value, or every rank has an error; a rank whose
own result failed keeps its own error.
-/

set_option autoImplicit false

namespace PencilRs.Analysis

open PencilRs.Computation PencilRs.Model

variable {M : ℕ} {α β ε σ : Type} {processGrid : Fin M → ℕ}

/-! ## Reductions -/

theorem exists_isLeast {ι : Type} [Nonempty ι] (f : ι → ℕ) : ∃ n, IsLeast (Set.range f) n :=
  ⟨sInf (Set.range f), Nat.sInf_mem (Set.range_nonempty f), fun _ h => Nat.sInf_le h⟩

theorem exists_isGreatest {ι : Type} [Nonempty ι] [Finite ι] (f : ι → ℕ) :
    ∃ n, IsGreatest (Set.range f) n := by
  obtain ⟨i, hi⟩ := Finite.exists_max f
  refine ⟨f i, Set.mem_range_self i, ?_⟩
  rintro _ ⟨j, rfl⟩
  exact hi j

/-- A least flag is zero exactly where some flag is. -/
theorem isLeast_eq_zero_iff {ι : Type} {f : ι → ℕ} {n : ℕ} (h : IsLeast (Set.range f) n) :
    n = 0 ↔ ∃ i, f i = 0 := by
  constructor
  · rintro rfl
    exact h.1
  · rintro ⟨i, hi⟩
    exact Nat.le_zero.mp (hi ▸ h.2 (Set.mem_range_self i))

/-! ## Outcomes -/

/-- Every receive that is posted has exactly one message, of the length it expects. -/
def RequestsMatch : Semantics.CallCondition (transport α M) (Coords processGrid) Unit
  | _, .pointToPoint axis, requests => (postsOf axis requests).MatchedOnce (allRanks processGrid)
  | _, _, _ => True

/-- The jobs of the transposes leave nothing behind and do not abort. -/
abbrev Completes (post : (Coords processGrid → σ) → Prop)
    (p : Coords processGrid → Proc (transport α M) σ) : Prop :=
  (communicators α processGrid).Ensures RequestsMatch (fun _ => True) (fun _ => False)
    (fun r _ => post r) () p

/-- The outcome of an agreement on local results: all succeed, or some failed and all fail,
the failed ones with their own error. -/
def AgreedOn (results : Coords processGrid → Except ε β)
    (r : Coords processGrid → Except (Stop ε) β) : Prop :=
  (∃ x : Coords processGrid → β, (∀ c, results c = .ok (x c)) ∧ r = fun c => .ok (x c)) ∨
    ((∃ c e, results c = .error e) ∧ ∃ e : Coords processGrid → ε,
      (r = fun c => .error (.error (e c))) ∧ ∀ c err, results c = .error err → e c = err)

theorem AgreedOn.agreed {results : Coords processGrid → Except ε β}
    {r : Coords processGrid → Except (Stop ε) β} (h : AgreedOn results r) :
    Semantics.Ensures.Agreed r := by
  obtain ⟨x, _, rfl⟩ | ⟨_, e, rfl, _⟩ := h
  · exact Or.inl ⟨x, rfl⟩
  · exact Or.inr ⟨fun c => .error (e c), rfl⟩

theorem AgreedOn.ok [Nonempty (Coords processGrid)] {results : Coords processGrid → Except ε β}
    {x : Coords processGrid → β} (h : AgreedOn results fun c => .ok (x c)) :
    ∀ c, results c = .ok (x c) := by
  obtain ⟨y, hy, heq⟩ | ⟨_, e, heq, _⟩ := h
  · intro c
    rw [hy, Except.ok.inj (congrFun heq c)]
  · have := congrFun heq (Classical.arbitrary _)
    contradiction

theorem AgreedOn.error [Nonempty (Coords processGrid)]
    {results : Coords processGrid → Except ε β} {e : Coords processGrid → Stop ε}
    (h : AgreedOn results fun c => .error (e c)) :
    (∃ c err, results c = .error err) ∧ ∃ err : Coords processGrid → ε,
      (e = fun c => .error (err c)) ∧ ∀ c err', results c = .error err' → err c = err' := by
  obtain ⟨y, _, heq⟩ | ⟨hfail, err, heq, hown⟩ := h
  · have := congrFun heq (Classical.arbitrary _)
    contradiction
  · exact ⟨hfail, err, funext fun c => Except.error.inj (congrFun heq c), hown⟩

theorem isOk_toNat_eq_zero {result : Except ε β} :
    result.isOk.toNat = 0 ↔ ∃ e, result = .error e := by
  cases result <;> simp [Except.isOk, Except.toBool]

theorem forall_ok_of_not_error {ι : Type} {results : ι → Except ε β}
    (h : ¬ ∃ i e, results i = .error e) : ∃ x : ι → β, ∀ i, results i = .ok (x i) := by
  have hok : ∀ i, ∃ x, results i = .ok x := by
    intro i
    cases hi : results i with
    | ok x => exact ⟨x, rfl⟩
    | error e => exact absurd ⟨i, e, hi⟩ h
  exact ⟨fun i => (hok i).choose, fun i => (hok i).choose_spec⟩

variable [Nonempty (Coords processGrid)]

theorem allReduceMin_live {width : ℕ} (args : Coords processGrid → Fin width → ℕ) :
    ∃ replies w', (communicators α processGrid).Round () (.allReduceMin width) args replies w' := by
  choose least hleast using fun j => exists_isLeast fun d => args d j
  exact ⟨fun _ j => least j, (), fun _ j => hleast j⟩

theorem allReduceMax_live {width : ℕ} (args : Coords processGrid → Fin width → ℕ) :
    ∃ replies w', (communicators α processGrid).Round () (.allReduceMax width) args replies w' := by
  choose greatest hgreatest using fun j => exists_isGreatest fun d => args d j
  exact ⟨fun _ j => greatest j, (), fun _ j => hgreatest j⟩

/-! ## Agreements -/

/-- `agree_preflight` agrees on the local results. -/
theorem agreePreflight_completes (results : Coords processGrid → Except ε β)
    (peerError : Coords processGrid → ε) :
    Completes (α := α) (AgreedOn results)
      fun c => (agreePreflight (results c) (peerError c)).run := by
  refine .round (.allReduceMin 1) (fun c _ => (results c).isOk.toNat)
    (fun c reply => (if decide (reply 0 ≠ 0) = true then ofResult (results c)
      else RankProgram.fail (errOr (results c) (peerError c)) :
        RankProgram α M ε β).run) (fun _ => rfl) trivial trivial
    (fun _ h => h.elim) (allReduceMin_live _) ?_
  intro replies _ hround
  have hzero : ∀ c, replies c 0 = 0 ↔ ∃ d e, results d = .error e := by
    intro c
    rw [isLeast_eq_zero_iff (hround c 0)]
    simp only [isOk_toNat_eq_zero]
  by_cases hfail : ∃ d e, results d = .error e
  · refine .returned (fun c => .error (.error (errOr (results c) (peerError c)))) ?_ trivial ?_
    · intro c
      rw [if_neg (by simp [(hzero c).mpr hfail])]
      rfl
    · refine Or.inr ⟨hfail, _, rfl, ?_⟩
      intro c err herr
      rw [herr]
      rfl
  · obtain ⟨x, hx⟩ := forall_ok_of_not_error hfail
    refine .returned (fun c => .ok (x c)) ?_ trivial (Or.inl ⟨x, hx, rfl⟩)
    intro c
    have hne : replies c 0 ≠ 0 := fun h => hfail ((hzero c).mp h)
    rw [if_pos (by simpa using hne), hx]
    rfl

/-- Going on after `agree_preflight`. -/
theorem agreePreflight_bind {results : Coords processGrid → Except ε β}
    {peerError : Coords processGrid → ε} {f : Coords processGrid → β → RankProgram α M ε σ}
    {post : (Coords processGrid → Except (Stop ε) σ) → Prop}
    (hok : ∀ x : Coords processGrid → β, (∀ c, results c = .ok (x c)) →
      Completes post fun c => (f c (x c)).run)
    (herror : ∀ e : Coords processGrid → ε, (∃ c err, results c = .error err) →
      (∀ c err, results c = .error err → e c = err) → post fun c => .error (.error (e c))) :
    Completes post fun c => (agreePreflight (results c) (peerError c) >>= f c).run := by
  refine Semantics.Ensures.bind_agreed (agreePreflight_completes results peerError)
    (fun _ _ h => AgreedOn.agreed h) ?_ ?_
  · intro x _ hmid _
    exact hok x (AgreedOn.ok hmid)
  · intro e _ hmid _
    obtain ⟨hfail, err, rfl, hown⟩ := AgreedOn.error hmid
    exact herror err hfail hown

/-- The outcome of the agreement on results and reservations. -/
def AgreedWithReservation (results : Coords processGrid → Except ε β)
    (reserved : Coords processGrid → Bool) (r : Coords processGrid → Except (Stop ε) β) : Prop :=
  (∃ x : Coords processGrid → β, (∀ c, results c = .ok (x c)) ∧ (∀ c, reserved c = true) ∧
      r = fun c => .ok (x c)) ∨
    (((∃ c e, results c = .error e) ∨ ∃ c, reserved c = false) ∧ ∃ e : Coords processGrid → ε,
      (r = fun c => .error (.error (e c))) ∧ ∀ c err, results c = .error err → e c = err)

omit [Nonempty (Coords processGrid)] in
theorem AgreedWithReservation.agreed {results : Coords processGrid → Except ε β}
    {reserved : Coords processGrid → Bool} {r : Coords processGrid → Except (Stop ε) β}
    (h : AgreedWithReservation results reserved r) : Semantics.Ensures.Agreed r := by
  obtain ⟨x, _, _, rfl⟩ | ⟨_, e, rfl, _⟩ := h
  · exact Or.inl ⟨x, rfl⟩
  · exact Or.inr ⟨fun c => .error (e c), rfl⟩

/-- `agree_preflight_and_reservation` agrees on results and reservations in one reduction. -/
theorem agreePreflightAndReservation_completes (results : Coords processGrid → Except ε β)
    (reserved : Coords processGrid → Bool)
    (peerError reservationError : Coords processGrid → ε) :
    Completes (α := α) (AgreedWithReservation results reserved)
      fun c => (agreePreflightAndReservation (results c) (reserved c) (peerError c)
        (reservationError c)).run := by
  refine .round (.allReduceMin 2)
    (fun c => ![(results c).isOk.toNat, ((results c).isOk && reserved c).toNat])
    (fun c reply => (if reply 0 = 0 then RankProgram.fail (errOr (results c) (peerError c))
      else if reply 1 = 0 then
        RankProgram.fail (if (results c).isOk && reserved c then peerError c
          else reservationError c)
      else ofResult (results c) : RankProgram α M ε β).run) (fun _ => rfl) trivial trivial
    (fun _ h => h.elim) (allReduceMin_live _) ?_
  intro replies _ hround
  have hzero : ∀ c, replies c 0 = 0 ↔ ∃ d e, results d = .error e := by
    intro c
    rw [isLeast_eq_zero_iff (hround c 0)]
    simp only [Matrix.cons_val_zero, isOk_toNat_eq_zero]
  have hone : ∀ c, replies c 1 = 0 ↔ ∃ d, ((results d).isOk && reserved d) = false := by
    intro c
    rw [isLeast_eq_zero_iff (hround c 1)]
    simp only [Matrix.cons_val_one, Matrix.cons_val_fin_one, Bool.toNat_eq_zero]
  by_cases hfail : ∃ d e, results d = .error e
  · refine .returned (fun c => .error (.error (errOr (results c) (peerError c)))) ?_ trivial ?_
    · intro c
      rw [if_pos ((hzero c).mpr hfail)]
      rfl
    · refine Or.inr ⟨Or.inl hfail, _, rfl, ?_⟩
      intro c err herr
      rw [herr]
      rfl
  obtain ⟨x, hx⟩ := forall_ok_of_not_error hfail
  have hok : ∀ c, (results c).isOk = true := fun c => by rw [hx]; rfl
  simp only [hok, Bool.true_and] at hone
  by_cases hreserve : ∃ d, reserved d = false
  · refine .returned (fun c => .error (.error (if (results c).isOk && reserved c then peerError c
      else reservationError c))) ?_ trivial ?_
    · intro c
      rw [if_neg fun h => hfail ((hzero c).mp h), if_pos ((hone c).mpr hreserve)]
      rfl
    · refine Or.inr ⟨Or.inr hreserve, _, rfl, ?_⟩
      intro c err herr
      rw [hx] at herr
      contradiction
  · refine .returned (fun c => .ok (x c)) ?_ trivial (Or.inl ⟨x, hx, ?_, rfl⟩)
    · intro c
      rw [if_neg fun h => hfail ((hzero c).mp h), if_neg fun h => hreserve ((hone c).mp h), hx]
      rfl
    · intro c
      cases hc : reserved c with
      | true => rfl
      | false => exact absurd ⟨c, hc⟩ hreserve

end PencilRs.Analysis
