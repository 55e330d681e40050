import PencilRs.Analysis.Layout
import PencilRs.Computation.Lines
import PencilRs.Computation.Loop
import PencilRs.Model.StridedLines

/-!
# Lines that lie apart

The loops over strided lines transform every line once, whether they read another buffer or the
one they write.
-/

set_option autoImplicit false

namespace PencilRs.Analysis

open PencilRs.Computation PencilRs.Model

variable {K ε : Type}

/-! ## One line -/

theorem mapM_getElem? (values : List K) :
    (List.range values.length).mapM (fun k => values[k]?) = some values := by
  cases values with
  | nil => rfl
  | cons first rest =>
    have hget : ∀ k ∈ List.range (first :: rest).length,
        (first :: rest)[k]? = some ((first :: rest).getD k first) := by
      intro k hk
      rw [List.getD_eq_getElem?_getD, List.getElem?_eq_getElem (List.mem_range.mp hk)]
      rfl
    rw [mapM_eq_some hget]
    congr 1
    apply List.ext_getElem (by simp)
    intro k hk hk'
    rw [List.getElem_map, List.getElem_range, List.getD_eq_getElem?_getD,
      List.getElem?_eq_getElem hk']
    rfl

theorem gatherLine_eq {n stride outer inner : ℕ} {buffer values : List K}
    (h : HoldsLine n stride outer inner buffer values) :
    gatherLine buffer (outer * (n * stride)) n stride inner = some values := by
  obtain ⟨rfl, hvalues⟩ := h
  unfold gatherLine
  exact (mapM_congr fun k hk => hvalues k (List.mem_range.mp hk)).trans (mapM_getElem? values)

/-- A line written back: its places hold the line, the other places what they held. -/
theorem scatterLine_from {base stride inner k₀ : ℕ} {values destination : List K}
    (hstride : 0 < stride)
    (hfit : ∀ k < values.length, base + (k₀ + k) * stride + inner < destination.length) :
    ∃ result, (values.zipIdx k₀).foldlM (fun destination (value, k) =>
        if base + k * stride + inner < destination.length then
          some (destination.set (base + k * stride + inner) value)
        else none) destination = some result ∧
      result.length = destination.length ∧
      (∀ k < values.length, result[base + (k₀ + k) * stride + inner]? = values[k]?) ∧
      ∀ j, (∀ k < values.length, j ≠ base + (k₀ + k) * stride + inner) →
        result[j]? = destination[j]? := by
  induction values generalizing k₀ destination with
  | nil => exact ⟨destination, rfl, rfl, fun k hk => absurd hk (by simp), fun _ _ => rfl⟩
  | cons value values ih =>
    have hfirst := hfit 0 (by simp)
    rw [Nat.add_zero] at hfirst
    have hrest : ∀ k < values.length, base + (k₀ + 1 + k) * stride + inner
        < (destination.set (base + k₀ * stride + inner) value).length := by
      intro k hk
      rw [List.length_set, Nat.add_assoc k₀, Nat.add_comm 1]
      exact hfit (k + 1) (by simpa using hk)
    obtain ⟨result, hresult, hlen, hplaces, hkept⟩ := ih hrest
    have hapart : ∀ k, base + k₀ * stride + inner ≠ base + (k₀ + 1 + k) * stride + inner := by
      intro k heq
      have hmul : k₀ * stride < (k₀ + 1 + k) * stride :=
        Nat.mul_lt_mul_of_pos_right (by omega) hstride
      omega
    refine ⟨result, ?_, hlen.trans (List.length_set ..), ?_, ?_⟩
    · rw [List.zipIdx_cons, List.foldlM_cons]
      simp only [hfirst, ↓reduceIte]
      exact hresult
    · intro k hk
      cases k with
      | zero =>
        rw [Nat.add_zero, hkept _ fun k _ => hapart k]
        simp [hfirst]
      | succ k =>
        rw [List.getElem?_cons_succ, ← hplaces k (by simpa using hk), Nat.add_assoc k₀,
          Nat.add_comm 1]
    · intro j hj
      rw [hkept j fun k hk => by
        have := hj (k + 1) (by simpa using hk)
        rwa [Nat.add_assoc k₀, Nat.add_comm 1]]
      have hne := hj 0 (by simp)
      rw [Nat.add_zero] at hne
      rw [List.getElem?_set_ne (Ne.symm hne)]

theorem scatterLine_eq {n stride count outer inner : ℕ} {values destination : List K}
    (hlen : destination.length = count * (n * stride)) (hvalues : values.length = n)
    (houter : outer < count) (hinner : inner < stride) :
    ∃ result, scatterLine destination (outer * (n * stride)) stride inner values = some result ∧
      result.length = destination.length ∧
      (∀ k < n, result[linePlace n stride outer inner k]? = values[k]?) ∧
      ∀ j, (∀ k < n, j ≠ linePlace n stride outer inner k) → result[j]? = destination[j]? := by
  subst hvalues
  have hfit : ∀ k < values.length, outer * (values.length * stride) + (0 + k) * stride + inner
      < destination.length := by
    intro k hk
    rw [Nat.zero_add, hlen]
    exact linePlace_lt houter hinner hk
  have h := scatterLine_from (Nat.zero_lt_of_lt hinner) hfit
  simpa only [Nat.zero_add, linePlace, scatterLine] using h

/-! ## All lines -/

section Loops

variable {transform : List K → List K} {read : List K → List K} {n stride count : ℕ}
  {source initial : List K}

/-- The lines before number `done` are transformed, the others as they were. -/
structure LinesUpTo (transform : List K → List K) (n stride count : ℕ) (source initial : List K)
    (done : ℕ) (current : List K) : Prop where
  length : current.length = initial.length
  transformed : ∀ outer < count, ∀ inner < stride, outer * stride + inner < done →
    ∀ values, HoldsLine n stride outer inner source values →
      ∀ k < n, current[linePlace n stride outer inner k]? = (transform values)[k]?
  kept : ∀ outer < count, ∀ inner < stride, done ≤ outer * stride + inner →
    ∀ k < n, current[linePlace n stride outer inner k]? = initial[linePlace n stride outer inner k]?

/-- Lines are read as the source has them, while the buffer has not changed there. -/
def ReadsLines (read : List K → List K) (n stride count : ℕ) (source initial : List K) : Prop :=
  ∀ current, current.length = initial.length → ∀ outer < count, ∀ inner < stride,
    (∀ k < n, current[linePlace n stride outer inner k]?
      = initial[linePlace n stride outer inner k]?) →
    ∀ values, HoldsLine n stride outer inner source values →
      HoldsLine n stride outer inner (read current) values

theorem readsLines_const (n stride count : ℕ) (source initial : List K) :
    ReadsLines (fun _ => source) n stride count source initial :=
  fun _ _ _ _ _ _ _ _ hvalues => hvalues

theorem readsLines_id (n stride count : ℕ) (initial : List K) :
    ReadsLines id n stride count initial initial := by
  intro current _ outer _ inner _ hsame values hvalues
  exact ⟨hvalues.1, fun k hk => (hsame k hk).trans (hvalues.2 k hk)⟩

/-- Lines have different numbers. -/
theorem lineNumber_inj {stride outer outer' inner inner' : ℕ} (hinner : inner < stride)
    (hinner' : inner' < stride) (h : outer * stride + inner = outer' * stride + inner') :
    outer = outer' ∧ inner = inner' := by
  have hmod := congrArg (· % stride) h
  have hdiv := congrArg (· / stride) h
  simp only [Nat.mul_comm _ stride, Nat.mul_add_mod, Nat.mod_eq_of_lt hinner,
    Nat.mod_eq_of_lt hinner'] at hmod
  simp only [Nat.mul_comm _ stride, Nat.mul_add_div (Nat.zero_lt_of_lt hinner),
    Nat.div_eq_of_lt hinner, Nat.div_eq_of_lt hinner', Nat.add_zero] at hdiv
  exact ⟨hdiv, hmod⟩

/-- One more line is transformed. -/
theorem LinesUpTo.line {outer inner : ℕ} {current result values : List K}
    (h : LinesUpTo transform n stride count source initial (outer * stride + inner) current)
    (hinner : inner < stride) (hvalues : HoldsLine n stride outer inner source values)
    (hlen : result.length = current.length)
    (hplaces : ∀ k < n, result[linePlace n stride outer inner k]? = (transform values)[k]?)
    (hothers : ∀ j, (∀ k < n, j ≠ linePlace n stride outer inner k) →
      result[j]? = current[j]?) :
    LinesUpTo transform n stride count source initial (outer * stride + inner + 1) result := by
  refine ⟨hlen.trans h.length, ?_, ?_⟩
  · intro outer' houter' inner' hinner' hdone values' hvalues' k hk
    by_cases hsame : outer' = outer ∧ inner' = inner
    · obtain ⟨rfl, rfl⟩ := hsame
      rw [hplaces k hk, hvalues.unique hvalues']
    · have hne : ∀ k' < n,
          linePlace n stride outer' inner' k ≠ linePlace n stride outer inner k' := by
        intro k' hk' heq
        obtain ⟨houters, hinners, _⟩ := linePlace_inj hinner' hinner hk hk' heq
        exact hsame ⟨houters, hinners⟩
      have hnumber : outer' * stride + inner' ≠ outer * stride + inner := fun heq =>
        hsame (lineNumber_inj hinner' hinner heq)
      rw [hothers _ hne]
      exact h.transformed outer' houter' inner' hinner' (by omega) values' hvalues' k hk
  · intro outer' houter' inner' hinner' hdone k hk
    have hne : ∀ k' < n,
        linePlace n stride outer' inner' k ≠ linePlace n stride outer inner k' := by
      intro k' hk' heq
      obtain ⟨rfl, rfl, _⟩ := linePlace_inj hinner' hinner hk hk' heq
      omega
    rw [hothers _ hne]
    exact h.kept outer' houter' inner' hinner' (by omega) k hk

/-- All lines are transformed. -/
theorem LinesUpTo.all {current : List K}
    (h : LinesUpTo transform n stride count source initial (count * stride) current) :
    LinesTransformed transform n stride count source current := by
  intro outer houter inner hinner values hvalues k hk
  refine h.transformed outer houter inner hinner ?_ values hvalues k hk
  calc outer * stride + inner < outer * stride + stride := by omega
    _ = (outer + 1) * stride := by ring
    _ ≤ count * stride := Nat.mul_le_mul_right _ houter

variable {run : List K → Except (Stop ε) (List K)} {lineBufferLen outer inner : ℕ}

/-- **One line.** -/
theorem stridedLineStep_eq (hread : ReadsLines read n stride count source initial)
    (hsource : source.length = count * (n * stride))
    (hinitial : initial.length = count * (n * stride))
    (hrun : ∀ values, values.length = n → run values = .ok (transform values))
    (hlength : ∀ values, values.length = n → (transform values).length = n)
    (hbuffer : n ≤ lineBufferLen) (houter : outer < count) (hinner : inner < stride)
    {current : List K}
    (h : LinesUpTo transform n stride count source initial (outer * stride + inner) current) :
    ∃ result, stridedLineStep read lineBufferLen n stride (outer * (n * stride)) run current inner
        = .ok result ∧
      LinesUpTo transform n stride count source initial (outer * stride + inner + 1) result := by
  obtain ⟨values, hvalues⟩ := exists_holdsLine hsource houter hinner
  have hgather := gatherLine_eq (hread current h.length outer houter inner hinner
    (h.kept outer houter inner hinner le_rfl) values hvalues)
  obtain ⟨result, hscatter, hlen, hplaces, hothers⟩ := scatterLine_eq
    (h.length.trans hinitial) (hlength values hvalues.1) houter hinner
  refine ⟨result, ?_, h.line hinner hvalues hlen hplaces hothers⟩
  unfold stridedLineStep
  refine bind_eq_ok.mpr ⟨values, okOr_eq_ok.mpr hgather, bind_eq_ok.mpr ⟨(), ?_,
    bind_eq_ok.mpr ⟨transform values, hrun values hvalues.1, okOr_eq_ok.mpr hscatter⟩⟩⟩
  simpa using hbuffer

/-- **The loops over lines** transform every line. -/
theorem stridedLines_eq (lift : FftError → ε)
    (hread : ReadsLines read n stride count source initial)
    (hsource : source.length = count * (n * stride))
    (hinitial : initial.length = count * (n * stride))
    (hfit : count * (n * stride) < usizeLimit) (hblock : n * stride < usizeLimit)
    (hrun : ∀ values, values.length = n → run values = .ok (transform values))
    (hlength : ∀ values, values.length = n → (transform values).length = n)
    (hbuffer : n ≤ lineBufferLen) :
    ∃ result, stridedLines lift read initial lineBufferLen count n stride run = .ok result ∧
      result.length = initial.length ∧
      LinesTransformed transform n stride count source result := by
  have hstart : LinesUpTo transform n stride count source initial (0 * stride) initial :=
    ⟨rfl, fun _ _ _ _ hdone => absurd hdone (by omega), fun _ _ _ _ _ _ _ => rfl⟩
  have hloop := foldlM_range_inv (m := Except (Stop ε)) (fun destination outer => do
      let base ← okOr (checkedMul outer (n * stride)) (.error (lift .preparationFailed))
      (List.range stride).foldlM (stridedLineStep read lineBufferLen n stride base run)
        destination)
    (fun done => LinesUpTo transform n stride count source initial (done * stride)) count initial
    hstart (by
      intro outer houter current hcurrent
      have hbase : outer * (n * stride) < usizeLimit :=
        (Nat.mul_le_mul_right _ houter.le).trans_lt hfit
      obtain ⟨result, hresult, hdone⟩ := foldlM_range_inv (m := Except (Stop ε))
        (stridedLineStep read lineBufferLen n stride (outer * (n * stride)) run)
        (fun done => LinesUpTo transform n stride count source initial (outer * stride + done))
        stride current (by simpa using hcurrent) (fun inner hinner current hcurrent =>
          stridedLineStep_eq hread hsource hinitial hrun hlength hbuffer houter hinner hcurrent)
      refine ⟨result, ?_, by rwa [Nat.succ_mul]⟩
      exact bind_eq_ok.mpr ⟨_, okOr_eq_ok.mpr (checkedMul_eq_some.mpr ⟨hbase, rfl⟩), hresult⟩)
  obtain ⟨result, hresult, hdone⟩ := hloop
  refine ⟨result, ?_, hdone.length, hdone.all⟩
  unfold stridedLines
  exact bind_eq_ok.mpr ⟨_, okOr_eq_ok.mpr (checkedMul_eq_some.mpr ⟨hblock, rfl⟩), hresult⟩

end Loops

end PencilRs.Analysis
