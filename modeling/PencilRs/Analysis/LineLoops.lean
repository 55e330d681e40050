import PencilRs.Computation.Loop
import PencilRs.Model.R2r

/-!
# Loops over consecutive lines

A batch call whose buffers fit transforms every line, out of place and in place alike.  In place, a
line is read before it is overwritten, and no other line is touched.
-/

set_option autoImplicit false

namespace PencilRs.Analysis

open PencilRs.Computation PencilRs.Model R2r

variable {T C : Type}

theorem validateR2rInPlace_eq {sizes : LineSizes} {dataLen embeddingLen scratchLen : ℕ} :
    validateR2rInPlace sizes dataLen embeddingLen scratchLen = .ok () ↔
      sizes.lineLen ∣ dataLen ∧ sizes.embeddingLen ≤ embeddingLen ∧
        sizes.scratchLen ≤ scratchLen := by
  unfold validateR2rInPlace
  simp only [bind_eq_ok, ensure_eq_ok, decide_eq_true_eq, exists_const, Nat.dvd_iff_mod_eq_zero]

theorem validateR2rOutOfPlace_eq {sizes : LineSizes}
    {sourceLen destinationLen embeddingLen scratchLen : ℕ} :
    validateR2rOutOfPlace sizes sourceLen destinationLen embeddingLen scratchLen = .ok () ↔
      sourceLen = destinationLen ∧ sizes.lineLen ∣ sourceLen ∧
        sizes.embeddingLen ≤ embeddingLen ∧ sizes.scratchLen ≤ scratchLen := by
  unfold validateR2rOutOfPlace
  simp only [bind_eq_ok, ensure_eq_ok, decide_eq_true_eq, exists_const, validateR2rInPlace_eq]

/-- The first `done` lines are transformed, the others are as they were. -/
def linesUpTo (transform : List T → List T) (lines others : List (List T)) (done : ℕ) :
    List (List T) :=
  (lines.take done).map transform ++ others.drop done

section LinesUpTo

variable {transform : List T → List T} {lines others : List (List T)} {n i : ℕ}

theorem linesUpTo_length (hlength : ∀ line, line.length = n → (transform line).length = n)
    (hlines : ∀ line ∈ lines, line.length = n) (hothers : ∀ line ∈ others, line.length = n) :
    ∀ line ∈ linesUpTo transform lines others i, line.length = n := by
  intro line hline
  cases List.mem_append.mp hline with
  | inl hdone =>
    obtain ⟨source, hsource, rfl⟩ := List.mem_map.mp hdone
    exact hlength source (hlines source (List.mem_of_mem_take hsource))
  | inr hother => exact hothers line (List.mem_of_mem_drop hother)

theorem getElem?_linesUpTo (transform : List T → List T)
    (hcount : lines.length = others.length) (hi : i < lines.length) :
    (linesUpTo transform lines others i)[i]? = others[i]? := by
  unfold linesUpTo
  have hdone : ((lines.take i).map transform).length = i := by
    rw [List.length_map, List.length_take]
    omega
  rw [List.getElem?_append_right (by omega), hdone, Nat.sub_self, List.getElem?_drop, Nat.add_zero]

/-- **One line.** -/
theorem linesUpTo_set (hcount : lines.length = others.length) {line : List T}
    (hi : lines[i]? = some line) :
    (linesUpTo transform lines others i).set i (transform line)
      = linesUpTo transform lines others (i + 1) := by
  obtain ⟨hlt, hline⟩ := List.getElem?_eq_some_iff.mp hi
  have hdone : ((lines.take i).map transform).length = i := by
    rw [List.length_map, List.length_take]
    omega
  unfold linesUpTo
  rw [List.set_append_right _ _ (by omega), hdone, Nat.sub_self,
    List.drop_eq_getElem_cons (by omega), List.set_cons_zero, List.take_add_one, hi,
    List.map_append]
  simp

theorem linesUpTo_all (hcount : lines.length = others.length) :
    linesUpTo transform lines others lines.length = lines.map transform := by
  unfold linesUpTo
  rw [List.take_length, hcount, List.drop_length, List.append_nil]

theorem length_linesUpTo (hcount : lines.length = others.length) (hi : i ≤ lines.length) :
    (linesUpTo transform lines others i).length = lines.length := by
  unfold linesUpTo
  rw [List.length_append, List.length_map, List.length_take, List.length_drop]
  omega

end LinesUpTo

variable {sizes : LineSizes} {transform : List T → List T} {embeddingLine : List C}
  {scratchLen : ℕ}

/-- **Out of place.** -/
theorem forEachOutOfPlaceLine_eq (hpos : 0 < sizes.lineLen) {source destination : List T}
    (hsame : source.length = destination.length) (hdvd : sizes.lineLen ∣ source.length)
    (hembedding : sizes.embeddingLen ≤ embeddingLine.length)
    (hscratch : sizes.scratchLen ≤ scratchLen)
    (hlength : ∀ line, line.length = sizes.lineLen → (transform line).length = sizes.lineLen)
    {shortcut : List T → List T → Option (List T)}
    (hshortcut : shortcut source destination = none ∨
      shortcut source destination = some (mapLines sizes.lineLen transform source))
    {line : List T → List T → List C → Option (List T × List C)}
    (hline : shortcut source destination = none → ∀ values written buffer,
      values.length = sizes.lineLen →
      written.length = sizes.lineLen → sizes.embeddingLen ≤ buffer.length →
      ∃ buffer', line values written buffer = some (transform values, buffer') ∧
        buffer'.length = buffer.length) :
    ∃ embeddingLine', forEachOutOfPlaceLine sizes source destination embeddingLine scratchLen
        shortcut line
      = some (.ok (), mapLines sizes.lineLen transform source, embeddingLine') := by
  unfold forEachOutOfPlaceLine
  rw [validateR2rOutOfPlace_eq.mpr ⟨hsame, hdvd, hembedding, hscratch⟩]
  simp only
  split
  · rename_i hempty
    rw [List.isEmpty_iff] at hempty
    subst hempty
    rw [List.eq_nil_of_length_eq_zero hsame.symm]
    exact ⟨embeddingLine, by simp [mapLines]⟩
  cases hshortcut with
  | inr hwhole =>
    rw [hwhole]
    exact ⟨embeddingLine, rfl⟩
  | inl hnone =>
    rw [hnone]
    obtain ⟨lines, rfl, hlines⟩ := exists_lines hdvd
    obtain ⟨others, rfl, hothers⟩ := exists_lines (hsame ▸ hdvd)
    rw [length_flatten_lines hlines, length_flatten_lines hothers] at hsame
    have hcount : lines.length = others.length := Nat.eq_of_mul_eq_mul_right hpos hsame
    simp only [length_flatten_lines hlines, length_flatten_lines hothers,
      Nat.mul_div_cancel _ hpos, ← hcount, Nat.min_self]
    obtain ⟨s, hs, hdone, _⟩ := foldlM_range_inv (m := Option)
      (fun (s : List T × List C) i => do
        let next ←
          line (lineAt sizes.lineLen lines.flatten i) (lineAt sizes.lineLen s.1 i) s.2
        return (withLine sizes.lineLen s.1 i next.1, next.2))
      (fun i s => s.1 = (linesUpTo transform lines others i).flatten ∧
        s.2.length = embeddingLine.length)
      lines.length (others.flatten, embeddingLine) ⟨by simp [linesUpTo], rfl⟩ (by
        rintro i hi ⟨current, buffer⟩ ⟨hcurrent, hbuffer⟩
        simp only at hcurrent hbuffer
        have hthese := linesUpTo_length (i := i) hlength hlines hothers
        have hvalues := List.getElem?_eq_getElem hi
        have hother := (getElem?_linesUpTo transform hcount hi).trans
          (List.getElem?_eq_getElem (hcount ▸ hi))
        obtain ⟨buffer', hrun, hbuffer'⟩ := hline hnone lines[i] others[i] buffer
          (hlines _ (List.getElem_mem hi)) (hothers _ (List.getElem_mem _)) (by omega)
        refine ⟨(((linesUpTo transform lines others i).set i (transform lines[i])).flatten,
          buffer'), ?_, ?_, hbuffer'.trans hbuffer⟩
        · simp only [lineAt_flatten hlines hvalues, hcurrent, lineAt_flatten hthese hother, hrun,
            Option.bind_eq_bind, Option.bind_some]
          rw [withLine_flatten hthese (by rwa [length_linesUpTo hcount hi.le])]
        · simp only
          rw [linesUpTo_set hcount hvalues])
    refine ⟨s.2, ?_⟩
    rw [hs, mapLines_flatten hlines hpos]
    rw [linesUpTo_all hcount] at hdone
    show some (_, s.1, s.2) = _
    rw [hdone]

/-- **In place.** -/
theorem forEachInPlaceLine_eq (hpos : 0 < sizes.lineLen) {data : List T}
    (hdvd : sizes.lineLen ∣ data.length) (hembedding : sizes.embeddingLen ≤ embeddingLine.length)
    (hscratch : sizes.scratchLen ≤ scratchLen)
    (hlength : ∀ line, line.length = sizes.lineLen → (transform line).length = sizes.lineLen)
    {shortcut : List T → Option (List T)}
    (hshortcut : shortcut data = none ∨
      shortcut data = some (mapLines sizes.lineLen transform data))
    {line : List T → List C → Option (List T × List C)}
    (hline : shortcut data = none → ∀ values buffer,
      values.length = sizes.lineLen → sizes.embeddingLen ≤ buffer.length →
      ∃ buffer', line values buffer = some (transform values, buffer') ∧
        buffer'.length = buffer.length) :
    ∃ embeddingLine', forEachInPlaceLine sizes data embeddingLine scratchLen shortcut line
      = some (.ok (), mapLines sizes.lineLen transform data, embeddingLine') := by
  unfold forEachInPlaceLine
  rw [validateR2rInPlace_eq.mpr ⟨hdvd, hembedding, hscratch⟩]
  simp only
  split
  · rename_i hempty
    rw [List.isEmpty_iff] at hempty
    subst hempty
    exact ⟨embeddingLine, by simp [mapLines]⟩
  cases hshortcut with
  | inr hwhole =>
    rw [hwhole]
    exact ⟨embeddingLine, rfl⟩
  | inl hnone =>
    rw [hnone]
    obtain ⟨lines, rfl, hlines⟩ := exists_lines hdvd
    simp only [length_flatten_lines hlines, Nat.mul_div_cancel _ hpos]
    obtain ⟨s, hs, hdone, _⟩ := foldlM_range_inv (m := Option)
      (fun (s : List T × List C) i => do
        let next ← line (lineAt sizes.lineLen s.1 i) s.2
        return (withLine sizes.lineLen s.1 i next.1, next.2))
      (fun i s => s.1 = (linesUpTo transform lines lines i).flatten ∧
        s.2.length = embeddingLine.length)
      lines.length (lines.flatten, embeddingLine) ⟨by simp [linesUpTo], rfl⟩ (by
        rintro i hi ⟨current, buffer⟩ ⟨hcurrent, hbuffer⟩
        simp only at hcurrent hbuffer
        have hthese := linesUpTo_length (i := i) hlength hlines hlines
        have hvalues := List.getElem?_eq_getElem hi
        -- Line `i` is read before it is overwritten.
        have hunread := (getElem?_linesUpTo transform rfl hi).trans hvalues
        obtain ⟨buffer', hrun, hbuffer'⟩ := hline hnone lines[i] buffer
          (hlines _ (List.getElem_mem hi)) (by omega)
        refine ⟨(((linesUpTo transform lines lines i).set i (transform lines[i])).flatten,
          buffer'), ?_, ?_, hbuffer'.trans hbuffer⟩
        · simp only [hcurrent, lineAt_flatten hthese hunread, hrun, Option.bind_eq_bind,
            Option.bind_some]
          rw [withLine_flatten hthese (by rwa [length_linesUpTo rfl hi.le])]
        · simp only
          rw [linesUpTo_set rfl hvalues])
    refine ⟨s.2, ?_⟩
    rw [hs, mapLines_flatten hlines hpos]
    rw [linesUpTo_all rfl] at hdone
    show some (_, s.1, s.2) = _
    rw [hdone]

end PencilRs.Analysis
