import PencilRs.Analysis.StridedLines
import PencilRs.Model.StridedReal

/-!
# Lines of different lengths

A loop that writes shorter or longer lines than it reads transforms every line once, as the loops
over lines of one length do.
-/

set_option autoImplicit false

namespace PencilRs.Analysis

open PencilRs.Computation PencilRs.Model

variable {K L σ ε : Type}

/-- A line of `m` elements of the result is the transform of the line of `n` elements of the
source. -/
def LinesTransformedTo (transform : List K → List L) (n m stride count : ℕ) (source : List K)
    (result : List L) : Prop :=
  ∀ outer < count, ∀ inner < stride, ∀ values, HoldsLine n stride outer inner source values →
    ∀ k < m, result[linePlace m stride outer inner k]? = (transform values)[k]?

theorem LinesTransformed.to {transform : List K → List K} {n stride count : ℕ}
    {source result : List K} (h : LinesTransformed transform n stride count source result) :
    LinesTransformedTo transform n n stride count source result := h

/-- What all lines hold is what a buffer holds. -/
theorem LinesTransformedTo.unique {transform : List K → List L} {n m stride count : ℕ}
    {source : List K} {result result' : List L} (hsource : source.length = count * (n * stride))
    (hresult : result.length = count * (m * stride))
    (hresult' : result'.length = count * (m * stride))
    (h : LinesTransformedTo transform n m stride count source result)
    (h' : LinesTransformedTo transform n m stride count source result') : result = result' := by
  apply List.ext_getElem?
  intro j
  by_cases hj : j < count * (m * stride)
  · obtain ⟨outer, houter, inner, hinner, k, hk, rfl⟩ := exists_linePlace hj
    obtain ⟨values, hvalues⟩ := exists_holdsLine hsource houter hinner
    rw [h outer houter inner hinner values hvalues k hk,
      h' outer houter inner hinner values hvalues k hk]
  · rw [List.getElem?_eq_none (by omega), List.getElem?_eq_none (by omega)]

section Loops

variable {transform : List K → List L} {n m stride count : ℕ} {source : List K}

/-- The lines before number `done` are written. -/
structure LinesWritten (transform : List K → List L) (n m stride count : ℕ) (source : List K)
    (done : ℕ) (current : List L) : Prop where
  length : current.length = count * (m * stride)
  written : ∀ outer < count, ∀ inner < stride, outer * stride + inner < done →
    ∀ values, HoldsLine n stride outer inner source values →
      ∀ k < m, current[linePlace m stride outer inner k]? = (transform values)[k]?

/-- One more line is written. -/
theorem LinesWritten.line {outer inner : ℕ} {current result : List L} {values : List K}
    (h : LinesWritten transform n m stride count source (outer * stride + inner) current)
    (hinner : inner < stride) (hvalues : HoldsLine n stride outer inner source values)
    (hlen : result.length = current.length)
    (hplaces : ∀ k < m, result[linePlace m stride outer inner k]? = (transform values)[k]?)
    (hothers : ∀ j, (∀ k < m, j ≠ linePlace m stride outer inner k) →
      result[j]? = current[j]?) :
    LinesWritten transform n m stride count source (outer * stride + inner + 1) result := by
  refine ⟨hlen.trans h.length, ?_⟩
  intro outer' houter' inner' hinner' hdone values' hvalues' k hk
  by_cases hsame : outer' = outer ∧ inner' = inner
  · obtain ⟨rfl, rfl⟩ := hsame
    rw [hplaces k hk, hvalues.unique hvalues']
  · have hne : ∀ k' < m,
        linePlace m stride outer' inner' k ≠ linePlace m stride outer inner k' := by
      intro k' hk' heq
      obtain ⟨houters, hinners, _⟩ := linePlace_inj hinner' hinner hk hk' heq
      exact hsame ⟨houters, hinners⟩
    have hnumber : outer' * stride + inner' ≠ outer * stride + inner := fun heq =>
      hsame (lineNumber_inj hinner' hinner heq)
    rw [hothers _ hne]
    exact h.written outer' houter' inner' hinner' (by omega) values' hvalues' k hk

/-- All lines are written. -/
theorem LinesWritten.all {current : List L}
    (h : LinesWritten transform n m stride count source (count * stride) current) :
    LinesTransformedTo transform n m stride count source current := by
  intro outer houter inner hinner values hvalues k hk
  refine h.written outer houter inner hinner ?_ values hvalues k hk
  calc outer * stride + inner < outer * stride + stride := by omega
    _ = (outer + 1) * stride := by ring
    _ ≤ count * stride := Nat.mul_le_mul_right _ houter

variable {run : List K → List L → σ → Except (Stop ε) (List L × σ)} {usable : σ → Prop}

/-- What a transform does to the lines of a source, with whatever it borrows. -/
def RunsLines (transform : List K → List L) (n m stride count : ℕ) (source : List K)
    (run : List K → List L → σ → Except (Stop ε) (List L × σ)) (usable : σ → Prop) : Prop :=
  ∀ outer < count, ∀ inner < stride, ∀ values, HoldsLine n stride outer inner source values →
    (transform values).length = m ∧ ∀ line rest, line.length = m → usable rest →
      ∃ rest', run values line rest = .ok (transform values, rest') ∧ usable rest'

/-- **One line.** -/
theorem differingLineStep_eq (hrun : RunsLines transform n m stride count source run usable)
    (hsource : source.length = count * (n * stride)) {outer inner : ℕ} (houter : outer < count)
    (hinner : inner < stride) {current line : List L} {rest : σ}
    (h : LinesWritten transform n m stride count source (outer * stride + inner) current)
    (hline : line.length = m) (hrest : usable rest) :
    ∃ result line' rest', differingLineStep source n stride (outer * (n * stride))
        (outer * (m * stride)) run (current, line, rest) inner = .ok (result, line', rest') ∧
      LinesWritten transform n m stride count source (outer * stride + inner + 1) result ∧
      line'.length = m ∧ usable rest' := by
  obtain ⟨values, hvalues⟩ := exists_holdsLine hsource houter hinner
  have hgather := gatherLine_eq hvalues
  obtain ⟨hlength, hvaluesRun⟩ := hrun outer houter inner hinner values hvalues
  obtain ⟨rest', hran, hrest'⟩ := hvaluesRun line rest hline hrest
  obtain ⟨result, hscatter, hlen, hplaces, hothers⟩ := scatterLine_eq h.length hlength houter hinner
  refine ⟨result, transform values, rest', ?_, h.line hinner hvalues hlen hplaces hothers, hlength,
    hrest'⟩
  unfold differingLineStep
  refine bind_eq_ok.mpr ⟨values, okOr_eq_ok.mpr hgather, bind_eq_ok.mpr ⟨_, hran, ?_⟩⟩
  exact bind_eq_ok.mpr ⟨result, okOr_eq_ok.mpr hscatter, rfl⟩

/-- **The loops over lines** write every line. -/
theorem forEachStridedLineDiffering_eq (lift : FftError → ε)
    (hrun : RunsLines transform n m stride count source run usable)
    (hsource : source.length = count * (n * stride)) {destination line : List L} {rest : σ}
    (hdestination : destination.length = count * (m * stride))
    (hsourceFit : count * (n * stride) < usizeLimit)
    (hdestinationFit : count * (m * stride) < usizeLimit) (hsourceBlock : n * stride < usizeLimit)
    (hdestinationBlock : m * stride < usizeLimit) (hline : line.length = m) (hrest : usable rest) :
    ∃ result line' rest', forEachStridedLineDiffering lift source destination n line count stride
        run rest = .ok (result, line', rest') ∧
      result.length = destination.length ∧
      LinesTransformedTo transform n m stride count source result ∧ line'.length = m ∧
      usable rest' := by
  subst hline
  have hstart : LinesWritten transform n line.length stride count source (0 * stride) destination :=
    ⟨hdestination, fun _ _ _ _ hdone => absurd hdone (by omega)⟩
  have hloop := foldlM_range_inv (m := Except (Stop ε)) (fun s outer => do
      let sourceBase ← okOr (checkedMul outer (n * stride)) (.error (lift .preparationFailed))
      let destinationBase ← okOr (checkedMul outer (line.length * stride))
        (.error (lift .preparationFailed))
      (List.range stride).foldlM (differingLineStep source n stride sourceBase destinationBase run)
        s)
    (fun done s => LinesWritten transform n line.length stride count source (done * stride) s.1 ∧
      s.2.1.length = line.length ∧ usable s.2.2) count (destination, line, rest)
    ⟨hstart, rfl, hrest⟩ (by
      rintro outer houter ⟨current, currentLine, currentRest⟩ ⟨hcurrent, hlineLen, hcurrentRest⟩
      have hsourceBase : outer * (n * stride) < usizeLimit :=
        (Nat.mul_le_mul_right _ houter.le).trans_lt hsourceFit
      have hdestinationBase : outer * (line.length * stride) < usizeLimit :=
        (Nat.mul_le_mul_right _ houter.le).trans_lt hdestinationFit
      obtain ⟨s, hs, hdone⟩ := foldlM_range_inv (m := Except (Stop ε))
        (differingLineStep source n stride (outer * (n * stride))
          (outer * (line.length * stride)) run)
        (fun done s =>
          LinesWritten transform n line.length stride count source (outer * stride + done) s.1 ∧
            s.2.1.length = line.length ∧ usable s.2.2)
        stride (current, currentLine, currentRest) ⟨by simpa using hcurrent, hlineLen, hcurrentRest⟩
        (by
          rintro inner hinner ⟨current, currentLine, currentRest⟩ ⟨hcurrent, hlineLen, hrest⟩
          obtain ⟨result, line', rest', hstep, hkept⟩ :=
            differingLineStep_eq hrun hsource houter hinner hcurrent hlineLen hrest
          exact ⟨_, hstep, hkept⟩)
      refine ⟨s, ?_, by rwa [Nat.succ_mul]⟩
      exact bind_eq_ok.mpr ⟨_, okOr_eq_ok.mpr (checkedMul_eq_some.mpr ⟨hsourceBase, rfl⟩),
        bind_eq_ok.mpr ⟨_, okOr_eq_ok.mpr (checkedMul_eq_some.mpr ⟨hdestinationBase, rfl⟩), hs⟩⟩)
  obtain ⟨⟨result, line', rest'⟩, hresult, hdone, hlineLen, hrest'⟩ := hloop
  refine ⟨result, line', rest', ?_, hdone.length.trans hdestination.symm, hdone.all, hlineLen,
    hrest'⟩
  unfold forEachStridedLineDiffering
  exact bind_eq_ok.mpr ⟨_, okOr_eq_ok.mpr (checkedMul_eq_some.mpr ⟨hsourceBlock, rfl⟩),
    bind_eq_ok.mpr ⟨_, okOr_eq_ok.mpr (checkedMul_eq_some.mpr ⟨hdestinationBlock, rfl⟩), hresult⟩⟩

end Loops

end PencilRs.Analysis
