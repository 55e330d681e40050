import PencilRs.Analysis.Agreement
import PencilRs.Computation.Together
import PencilRs.Model.FileCollectives

/-!
# Rules for collective file calls

After a reduction every rank has the same number; after an agreement all ranks go on or all stop
with the same error; after a broadcast that succeeds a rank has the bytes of rank zero.
-/

set_option autoImplicit false

namespace PencilRs.Analysis

open PencilRs.Computation PencilRs.Model FileProgram Semantics.Ensures

variable {N : Interface} {ι World ε β σ : Type} {root : ι}
  {natives : Semantics N ι World} {mayFail : Prop}

/-- The run keeps `inv` and returns in `post`: no rank hangs, aborts or is left alone. -/
abbrev FileRun (root : ι) (natives : Semantics N ι World) (mayFail : Prop) (inv : World → Prop)
    (post : (ι → Except (Stop ε) β) → World → Prop) (w : World)
    (p : ι → FileProgram N ε β) : Prop :=
  (fileCollectives root natives mayFail).Ensures (fun _ _ _ => True) inv (fun _ => False) post w
    fun i => (p i).run

/-- The job returns in `post`. -/
abbrev FileJob (root : ι) (natives : Semantics N ι World) (mayFail : Prop)
    (post : (ι → Except (Stop ε) β) → Prop) (w : World)
    (p : ι → FileProgram N ε β) : Prop :=
  FileRun root natives mayFail (fun _ => True) (fun r _ => post r) w p

section Runs

variable {inv : World → Prop} {post : (ι → Except (Stop ε) σ) → World → Prop} {w : World}

theorem fileRun_fail_bind {e : ι → Stop ε} {f : ι → β → FileProgram N ε σ} (hinv : inv w)
    (h : post (fun i => .error (e i)) w) :
    FileRun root natives mayFail inv post w fun i => Fallible.ofExcept (.error (e i)) >>= f i :=
  .returned _ (fun _ => rfl) hinv h

variable [Finite ι] [Nonempty ι]

theorem exists_isLeast_int (f : ι → ℤ) : ∃ n, IsLeast (Set.range f) n := by
  obtain ⟨i, hi⟩ := Finite.exists_min f
  refine ⟨f i, Set.mem_range_self i, ?_⟩
  rintro _ ⟨j, rfl⟩
  exact hi j

theorem exists_isGreatest_int (f : ι → ℤ) : ∃ n, IsGreatest (Set.range f) n := by
  obtain ⟨i, hi⟩ := Finite.exists_max f
  refine ⟨f i, Set.mem_range_self i, ?_⟩
  rintro _ ⟨j, rfl⟩
  exact hi j

theorem fileRun_allReduceMin {values : ι → ℤ} {f : ι → ℤ → FileProgram N ε σ} (hinv : inv w)
    (h : ∀ least, IsLeast (Set.range values) least →
      FileRun root natives mayFail inv post w fun i => f i least) :
    FileRun root natives mayFail inv post w fun i => allReduceMin (values i) >>= f i := by
  apply perform_bind trivial hinv (fun _ (h : False) => h.elim)
  · obtain ⟨least, hleast⟩ := exists_isLeast_int values
    exact ⟨fun _ => least, w, rfl, fun _ => hleast⟩
  · rintro replies w' ⟨rfl, hreplies⟩
    have hsame : replies = fun _ => replies root :=
      funext fun i => (hreplies i).unique (hreplies root)
    rw [hsame]
    exact h _ (hreplies root)

theorem fileRun_allReduceMax {values : ι → ℤ} {f : ι → ℤ → FileProgram N ε σ} (hinv : inv w)
    (h : ∀ greatest, IsGreatest (Set.range values) greatest →
      FileRun root natives mayFail inv post w fun i => f i greatest) :
    FileRun root natives mayFail inv post w fun i => allReduceMax (values i) >>= f i := by
  apply perform_bind trivial hinv (fun _ (h : False) => h.elim)
  · obtain ⟨greatest, hgreatest⟩ := exists_isGreatest_int values
    exact ⟨fun _ => greatest, w, rfl, fun _ => hgreatest⟩
  · rintro replies w' ⟨rfl, hreplies⟩
    have hsame : replies = fun _ => replies root :=
      funext fun i => (hreplies i).unique (hreplies root)
    rw [hsame]
    exact h _ (hreplies root)

end Runs

section Rules

variable {post : (ι → Except (Stop ε) σ) → Prop} {w : World}

/-- Every rank stops here. -/
theorem fileJob_error {e : ι → Stop ε} (h : post fun i => .error (e i)) :
    FileJob root natives mayFail post w fun i => Fallible.ofExcept (.error (e i)) :=
  .returned _ (fun _ => rfl) trivial h

theorem fileJob_pure {x : ι → σ} (h : post fun i => .ok (x i)) :
    FileJob root natives mayFail post w fun i => pure (x i) :=
  .returned _ (fun _ => rfl) trivial h

theorem fileJob_fail_bind {e : ι → Stop ε} {f : ι → β → FileProgram N ε σ}
    (h : post fun i => .error (e i)) :
    FileJob root natives mayFail post w fun i => Fallible.ofExcept (.error (e i)) >>= f i :=
  .returned _ (fun _ => rfl) trivial h

variable [Finite ι] [Nonempty ι]

/-- Going on after a minimum. -/
theorem allReduceMin_bind {values : ι → ℤ} {f : ι → ℤ → FileProgram N ε σ}
    (h : ∀ least, IsLeast (Set.range values) least →
      FileJob root natives mayFail post w fun i => f i least) :
    FileJob root natives mayFail post w fun i => allReduceMin (values i) >>= f i :=
  fileRun_allReduceMin trivial h

/-- Going on after a maximum. -/
theorem agreedMax_bind {values : ι → ℤ} {f : ι → ℤ → FileProgram N ε σ}
    (h : ∀ greatest, IsGreatest (Set.range values) greatest →
      FileJob root natives mayFail post w fun i => f i greatest) :
    FileJob root natives mayFail post w fun i => allReduceMax (values i) >>= f i :=
  fileRun_allReduceMax trivial h

end Rules

section Phases

variable {ok : ι → Bool} {phase : String}

theorem isLeast_flag_eq_one_iff {least : ℤ}
    (h : IsLeast (Set.range fun i => if ok i then (1 : ℤ) else 0) least) :
    least = 1 ↔ ∀ i, ok i = true := by
  constructor
  · rintro rfl i
    have hle := h.2 (Set.mem_range_self i)
    by_contra hfalse
    simp only [hfalse] at hle
    norm_num at hle
  · intro hall
    obtain ⟨i, hi⟩ := h.1
    simp only [hall i, if_true] at hi
    exact hi.symm

variable [Finite ι] [Nonempty ι]

section Runs

variable {inv : World → Prop} {post : (ι → Except (Stop IoError) σ) → World → Prop} {w : World}

/-- **`agree_phase`** in a run that keeps `inv`. -/
theorem fileRun_agreePhase {f : ι → Unit → FileProgram N IoError σ} (hinv : inv w)
    (hok : (∀ i, ok i = true) → FileRun root natives mayFail inv post w fun i => f i ())
    (herror : (∃ i, ok i = false) →
      post (fun _ => .error (.error (.collectivePrecondition phase))) w) :
    FileRun root natives mayFail inv post w fun i => agreePhase (ok i) phase >>= f i := by
  simp only [agreePhase, bind_assoc]
  apply fileRun_allReduceMin hinv
  intro least hleast
  by_cases hall : ∀ i, ok i = true
  · simp only [if_pos ((isLeast_flag_eq_one_iff hleast).mpr hall), pure_bind]
    exact hok hall
  · simp only [if_neg (mt (isLeast_flag_eq_one_iff hleast).mp hall)]
    apply fileRun_fail_bind hinv
    apply herror
    simpa using hall

/-- A broadcast of bytes that fit a count, in a run that keeps `inv`. -/
theorem fileRun_bcastBytes {bytes : ι → List Byte} {len : ℕ}
    {f : ι → Bool × List Byte → FileProgram N IoError σ} (hinv : inv w)
    (hlen : ∀ i, (bytes i).length = len) (hcount : len ≤ countMax)
    (h : ∀ (ok : ι → Bool) (received : ι → List Byte),
      (∀ i, ok i = true → received i = bytes root) → (∀ i, (received i).length = len) →
      (mayFail ∨ ∀ i, ok i = true) →
      FileRun root natives mayFail inv post w fun i => f i (ok i, received i)) :
    FileRun root natives mayFail inv post w fun i => bcastBytes (bytes i) >>= f i := by
  have hsend : ∀ i, bcastBytes (N := N) (bytes i) >>= f i
      = (Fallible.perform (I := fileInterface N) (.broadcast len) ⟨bytes i, hlen i⟩
        >>= fun r => f i (r.1, r.2.1)) := by
    intro i
    have hi := hlen i
    subst hi
    unfold bcastBytes
    rw [if_pos hcount, bind_assoc]
    rfl
  simp only [hsend]
  apply perform_bind trivial hinv (fun _ (h : False) => h.elim)
  · exact ⟨fun _ => (true, ⟨bytes root, hlen root⟩), w, rfl, fun _ _ => rfl, Or.inr fun _ => rfl⟩
  · rintro replies w' ⟨rfl, hreceived, hfail⟩
    refine h (fun i => (replies i).1) (fun i => (replies i).2.1) (fun i hi => ?_)
      (fun i => (replies i).2.2) hfail
    rw [hreceived i hi]

/-- All ranks are fine, or all stop with the same error. -/
theorem fileRun_agreed (hinv : inv w) :
    FileRun root natives mayFail inv (fun r w' => Together (fun _ => (∀ i, ok i = true) ∧ w' = w)
      (fun e => (∃ i, ok i = false) ∧ e = fun _ => .error (.collectivePrecondition phase)) r) w
      fun i => agreePhase (ok i) phase := by
  suffices h : FileRun root natives mayFail inv
      (fun r w' => Together (fun _ => (∀ i, ok i = true) ∧ w' = w)
        (fun e => (∃ i, ok i = false) ∧ e = fun _ => .error (.collectivePrecondition phase)) r) w
      fun i => agreePhase (ok i) phase >>= pure by
    simpa only [bind_pure] using h
  refine fileRun_agreePhase hinv (fun hall => ?_) fun hfalse => Or.inr ⟨_, rfl, hfalse, rfl⟩
  exact .returned _ (fun _ => rfl) hinv (Or.inl ⟨fun _ => (), rfl, hall, rfl⟩)

end Runs

variable {post : (ι → Except (Stop IoError) σ) → Prop} {w : World}

/-- **Going on after `agree_phase`.**  All ranks are fine, or all stop with the same error. -/
theorem agreePhase_bind {f : ι → Unit → FileProgram N IoError σ}
    (hok : (∀ i, ok i = true) → FileJob root natives mayFail post w fun i => f i ())
    (herror : (∃ i, ok i = false) → post fun _ => .error (.error (.collectivePrecondition phase))) :
    FileJob root natives mayFail post w fun i => agreePhase (ok i) phase >>= f i :=
  fileRun_agreePhase trivial hok herror

/-- **Going on after a broadcast** of bytes that fit a count. -/
theorem bcastBytes_bind {bytes : ι → List Byte} {len : ℕ}
    {f : ι → Bool × List Byte → FileProgram N IoError σ} (hlen : ∀ i, (bytes i).length = len)
    (hcount : len ≤ countMax)
    (h : ∀ (ok : ι → Bool) (received : ι → List Byte),
      (∀ i, ok i = true → received i = bytes root) → (∀ i, (received i).length = len) →
      (mayFail ∨ ∀ i, ok i = true) →
      FileJob root natives mayFail post w fun i => f i (ok i, received i)) :
    FileJob root natives mayFail post w fun i => bcastBytes (bytes i) >>= f i :=
  fileRun_bcastBytes trivial hlen hcount h

end Phases

end PencilRs.Analysis
