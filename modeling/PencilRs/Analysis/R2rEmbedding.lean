import PencilRs.Analysis.R2rKernels

/-!
# The symmetric embedding

Every value of a line goes to its position and, if it has one, to its mirror image.  The positions
are all different, so that a sum over the embedding is a sum over the values.
-/

set_option autoImplicit false

namespace PencilRs.Analysis

open PencilRs.Computation PencilRs.Model R2r

variable {R : Type} [Field R] {valueKind : ValueKind}

/-! ## What is written -/

/-- The writes of `put_pair`. -/
def pairMoves (length p : ℕ) (value : ComplexValue R) (dst : Bool) : List (ℕ × ComplexValue R) :=
  [(p, value), (length - p, if dst then ⟨-value.re, -value.im⟩ else value)]

/-- The writes of a value of a line. -/
def valueMoves (kind : R2rKind) (n j : ℕ) (value : ComplexValue R) : List (ℕ × ComplexValue R) :=
  if Unpaired kind n j then [(position kind j, value)]
  else pairMoves (embeddingLength kind n) (position kind j) value kind.isDst

/-- The writes of a line, in the order of its values. -/
def lineMoves (kind : R2rKind) (source : List (R2rScalar R valueKind)) :
    List (ℕ × ComplexValue R) :=
  source.zipIdx.flatMap fun entry => valueMoves kind source.length entry.2 (toComplex entry.1)

theorem put_eq {embedding : Buf (ComplexValue R)} {p : ℕ} (hp : p < embedding.cells.length)
    (value : ComplexValue R) :
    put embedding p value = Buf.moveAll some embedding [(p, value)] := by
  unfold put
  rw [Buf.store_eq value (by omega) le_rfl, Nat.zero_add]
  rfl

theorem putPair_eq {embedding : Buf (ComplexValue R)} {p : ℕ} (hpos : 0 < p)
    (hp : p < embedding.cells.length) (value : ComplexValue R) (dst : Bool) :
    putPair embedding p value dst
      = Buf.moveAll some embedding (pairMoves embedding.cells.length p value dst) := by
  have hlength : (embedding.put p value).cells.length = embedding.cells.length :=
    Buf.length_put ..
  have hfirst : put embedding p value = some (embedding.put p value) := by rw [put_eq hp]; rfl
  have hmirror : checkedSub embedding.cells.length p = some (embedding.cells.length - p) :=
    checkedSub_eq_some.mpr ⟨hp.le, rfl⟩
  unfold putPair
  rw [hfirst, Option.bind_eq_bind, Option.bind_some, hlength, hmirror, Option.bind_eq_bind,
    Option.bind_some, put_eq (by omega)]
  rfl

theorem putPairs_eq {length : ℕ} {embedding : Buf (ComplexValue R)}
    (hlength : embedding.cells.length = length) {places : ℕ → ℕ} {dst : Bool}
    {entries : List (R2rScalar R valueKind × ℕ)}
    (h : ∀ entry ∈ entries, 0 < places entry.2 ∧ places entry.2 < length) :
    putPairs embedding places dst entries = Buf.moveAll some embedding
      (entries.flatMap fun entry => pairMoves length (places entry.2) (toComplex entry.1) dst) := by
  apply Buf.foldlM_moveAll (n := length) _ _ _ _ _ hlength
  intro entry hentry b hb
  obtain ⟨hpos, hlt⟩ := h entry hentry
  rw [putPair_eq hpos (hb ▸ hlt), hb]

/-! ## Positions -/

section Positions

variable {kind : R2rKind} {n j l : ℕ}

theorem position_paired (h : ValidLength kind n) (hj : j < n) (hpaired : ¬Unpaired kind n j) :
    0 < position kind j ∧ 2 * position kind j < embeddingLength kind n := by
  have hdctI := h.2
  cases kind <;> simp only [Unpaired, not_or] at hpaired <;>
    simp only [position, outputBin, R2rKind.backwardKind, embeddingLength] <;> omega

theorem position_le (h : ValidLength kind n) (hj : j < n) :
    2 * position kind j ≤ embeddingLength kind n ∧ position kind j < embeddingLength kind n := by
  have hdctI : kind = .dctI → 2 ≤ n := h.2
  cases kind <;> simp only [reduceCtorEq, false_imp_iff, true_imp_iff] at hdctI <;>
    simp only [position, outputBin, R2rKind.backwardKind, embeddingLength] <;> omega

theorem position_inj (h : position kind j = position kind l) : j = l := by
  cases kind <;> simp only [position, outputBin, R2rKind.backwardKind] at h <;> omega

/-- The bins that are read exist. -/
theorem outputBin_lt (h : ValidLength kind n) (hj : j < n) :
    outputBin kind j < embeddingLength kind n := by
  have hback := (position_le h.backwardKind hj).2
  unfold position at hback
  rwa [backwardKind_backwardKind, embeddingLength_backwardKind] at hback

end Positions

/-- The places of a value. -/
theorem mem_valueMoves {kind : R2rKind} {n j : ℕ} {value : ComplexValue R}
    {move : ℕ × ComplexValue R} (h : move ∈ valueMoves kind n j value) :
    move.1 = position kind j ∨
      ¬Unpaired kind n j ∧ move.1 = embeddingLength kind n - position kind j := by
  unfold valueMoves at h
  split at h
  · exact Or.inl (by rw [List.mem_singleton.mp h])
  · rename_i hpaired
    cases List.mem_cons.mp h with
    | inl heq => exact Or.inl (by rw [heq])
    | inr hmem => exact Or.inr ⟨hpaired, by rw [List.mem_singleton.mp hmem]⟩

theorem valueMoves_lt {kind : R2rKind} {n j : ℕ} (h : ValidLength kind n) (hj : j < n)
    {value : ComplexValue R} {move : ℕ × ComplexValue R}
    (hmove : move ∈ valueMoves kind n j value) : move.1 < embeddingLength kind n := by
  cases mem_valueMoves hmove with
  | inl heq => exact heq ▸ (position_le h hj).2
  | inr hmirror =>
    have hpaired := position_paired h hj hmirror.1
    omega

/-- **No position is written twice.** -/
theorem nodup_lineMoves {kind : R2rKind} {source : List (R2rScalar R valueKind)}
    (h : ValidLength kind source.length) : ((lineMoves kind source).map Prod.fst).Nodup := by
  unfold lineMoves
  rw [List.map_flatMap, List.nodup_flatMap]
  constructor
  · rintro ⟨value, j⟩ hentry
    have hj : j < source.length := (List.getElem?_eq_some_iff.mp
      (List.mem_zipIdx_iff_getElem?.mp hentry)).1
    unfold valueMoves
    split
    · simp
    · rename_i hpaired
      have hposition := position_paired h hj hpaired
      have hne : position kind j ≠ embeddingLength kind source.length - position kind j := by omega
      simpa [pairMoves] using hne
  · have hindices : (source.zipIdx.map Prod.snd).Nodup := by
      rw [List.zipIdx_map_snd]
      exact List.nodup_range'
    have hpairwise := List.pairwise_map.mp hindices
    refine hpairwise.imp_of_mem ?_
    rintro ⟨value, j⟩ ⟨value', l⟩ hentry hentry' hne
    have hj : j < source.length := (List.getElem?_eq_some_iff.mp
      (List.mem_zipIdx_iff_getElem?.mp hentry)).1
    have hl : l < source.length := (List.getElem?_eq_some_iff.mp
      (List.mem_zipIdx_iff_getElem?.mp hentry')).1
    have hplaces : position kind j ≠ position kind l := fun heq => hne (position_inj heq)
    have hlej := position_le h hj
    have hlel := position_le h hl
    show List.Disjoint _ _
    intro p hp hp'
    obtain ⟨move, hmove, rfl⟩ := List.mem_map.mp hp
    obtain ⟨move', hmove', heq⟩ := List.mem_map.mp hp'
    simp only at hmove hmove'
    -- A position is in the first half, its mirror image in the second.
    cases mem_valueMoves hmove with
    | inl hat =>
      cases mem_valueMoves hmove' with
      | inl hat' => omega
      | inr hmirror' =>
        have := position_paired h hl hmirror'.1
        omega
    | inr hmirror =>
      have := position_paired h hj hmirror.1
      cases mem_valueMoves hmove' with
      | inl hat' => omega
      | inr hmirror' => omega

/-! ## The loop of a kind -/

section Entries

variable {source : List (R2rScalar R valueKind)}

theorem lt_of_mem_zipIdx {entry : R2rScalar R valueKind × ℕ} (h : entry ∈ source.zipIdx) :
    entry.2 < source.length :=
  (List.getElem?_eq_some_iff.mp (List.mem_zipIdx_iff_getElem?.mp h)).1

theorem zipIdx_drop_one {first : R2rScalar R valueKind} (hfirst : source[0]? = some first) :
    source.zipIdx = (first, 0) :: source.zipIdx.drop 1 := by
  cases source with
  | nil => cases hfirst
  | cons value source =>
    obtain rfl := Option.some.inj hfirst
    rfl

theorem zipIdx_drop_last {last : R2rScalar R valueKind} {n : ℕ} (hn : source.length = n + 1)
    (hlast : source[n]? = some last) : source.zipIdx.drop n = [(last, n)] := by
  have hget : source.zipIdx[n]? = some (last, n) := by
    rw [List.getElem?_zipIdx, hlast, Nat.zero_add]
    rfl
  obtain ⟨hlt, hvalue⟩ := List.getElem?_eq_some_iff.mp hget
  rw [List.drop_eq_getElem_cons hlt, hvalue,
    List.drop_eq_nil_of_le (by rw [List.length_zipIdx, hn])]

theorem le_of_mem_drop {n : ℕ} {entry : R2rScalar R valueKind × ℕ}
    (h : entry ∈ source.zipIdx.drop n) : n ≤ entry.2 := by
  obtain ⟨i, hi⟩ := List.mem_iff_getElem?.mp h
  rw [List.getElem?_drop, List.getElem?_zipIdx, Option.map_eq_some_iff] at hi
  obtain ⟨value, _, rfl⟩ := hi
  show n ≤ 0 + (n + i)
  omega

theorem lt_of_mem_window {start n : ℕ} {entry : R2rScalar R valueKind × ℕ}
    (h : entry ∈ (source.zipIdx.drop start).take n) : entry.2 < start + n := by
  obtain ⟨i, hlt, hi⟩ := List.mem_take_iff_getElem.mp h
  rw [List.getElem_drop, List.getElem_zipIdx] at hi
  rw [← hi]
  show 0 + (start + i) < start + n
  omega

end Entries

/-- The pairs of some values. -/
theorem flatMap_valueMoves {kind : R2rKind} {n : ℕ} {entries : List (R2rScalar R valueKind × ℕ)}
    (h : ∀ entry ∈ entries, ¬Unpaired kind n entry.2) :
    (entries.flatMap fun entry => valueMoves kind n entry.2 (toComplex entry.1))
      = entries.flatMap fun entry => pairMoves (embeddingLength kind n) (position kind entry.2)
          (toComplex entry.1) kind.isDst := by
  rw [List.flatMap_def, List.flatMap_def]
  congr 1
  refine List.map_congr_left fun entry hentry => ?_
  exact if_neg (h entry hentry)

theorem length_fresh_zeros (length : ℕ) (zero : ComplexValue R) :
    (Buf.fresh (List.replicate length zero)).cells.length = length := List.length_replicate

/-- One loop after another. -/
theorem moveAll_bind {embedding : Buf (ComplexValue R)} {moves moves' : List (ℕ × ComplexValue R)}
    {step : Buf (ComplexValue R) → Option (Buf (ComplexValue R))}
    (h : ∀ b : Buf (ComplexValue R), b.cells.length = embedding.cells.length →
      step b = Buf.moveAll some b moves') :
    (Buf.moveAll some embedding moves).bind step
      = Buf.moveAll some embedding (moves ++ moves') := by
  rw [Buf.moveAll_append]
  cases hmoves : Buf.moveAll some embedding moves with
  | none => rfl
  | some b => exact h b (Buf.length_moveAll hmoves)

/-- **The embedding** performs the writes of the line, in some order. -/
theorem embed_eq {kind : R2rKind} {source : List (R2rScalar R valueKind)}
    (h : ValidLength kind source.length) :
    ∃ moves, embed kind source.length (embeddingLength kind source.length) source
        = Buf.moveAll some (Buf.fresh (List.replicate (embeddingLength kind source.length) ⟨0, 0⟩))
          moves ∧ moves.Perm (lineMoves kind source) := by
  have hzeros := length_fresh_zeros (R := R) (embeddingLength kind source.length) ⟨0, 0⟩
  have hpos := h.1
  obtain ⟨first, hfirst⟩ : ∃ first, source[0]? = some first := ⟨_, List.getElem?_eq_getElem h.1⟩
  obtain ⟨last, hlast⟩ : ∃ last, source[source.length - 1]? = some last :=
    ⟨_, List.getElem?_eq_getElem (by omega)⟩
  have hend : checkedSub source.length 1 = some (source.length - 1) :=
    checkedSub_eq_some.mpr ⟨hpos, rfl⟩
  have hlastEntry := zipIdx_drop_last (n := source.length - 1) (by omega) hlast
  -- A loop over values that have mirror images.
  have hpairs : ∀ {entries : List (R2rScalar R valueKind × ℕ)} (b : Buf (ComplexValue R)),
      b.cells.length = embeddingLength kind source.length →
      (∀ entry ∈ entries, entry.2 < source.length ∧ ¬Unpaired kind source.length entry.2) →
      putPairs b (position kind) kind.isDst entries = Buf.moveAll some b
        (entries.flatMap fun entry => valueMoves kind source.length entry.2
          (toComplex entry.1)) := by
    intro entries b hb hentries
    rw [flatMap_valueMoves fun entry hentry => (hentries entry hentry).2]
    apply putPairs_eq hb
    intro entry hentry
    have hposition := position_paired h (hentries entry hentry).1 (hentries entry hentry).2
    omega
  have hall : (∀ j < source.length, ¬Unpaired kind source.length j) →
      putPairs (Buf.fresh (List.replicate (embeddingLength kind source.length) ⟨0, 0⟩))
          (position kind) kind.isDst source.zipIdx
        = Buf.moveAll some (Buf.fresh (List.replicate (embeddingLength kind source.length) ⟨0, 0⟩))
          (lineMoves kind source) := fun hpaired => hpairs _ hzeros fun entry hentry =>
    ⟨lt_of_mem_zipIdx hentry, hpaired _ (lt_of_mem_zipIdx hentry)⟩
  cases kind with
  | dctII | dctIV | dstI | dstII | dstIV => exact ⟨_, hall fun _ _ => id, List.Perm.refl _⟩
  | dctIII =>
    have hput := put_eq (p := 0) (hzeros ▸ embeddingLength_pos h) (toComplex first)
    refine ⟨lineMoves .dctIII source, ?_, List.Perm.refl _⟩
    unfold embed lineMoves
    rw [zipIdx_drop_one hfirst, List.flatMap_cons]
    simp only [hfirst, Option.bind_eq_bind, Option.bind_some, hput]
    refine (moveAll_bind fun b hb => hpairs b (hb.trans hzeros) fun entry hentry => ?_).trans ?_
    · exact ⟨lt_of_mem_zipIdx (List.mem_of_mem_drop hentry),
        Nat.ne_of_gt (le_of_mem_drop hentry)⟩
    · rfl
  | dstIII =>
    have hsplit : source.zipIdx
        = source.zipIdx.take (source.length - 1) ++ [(last, source.length - 1)] := by
      rw [← hlastEntry, List.take_append_drop]
    have hlastMoves : valueMoves .dstIII source.length (source.length - 1) (toComplex last)
        = [(source.length, toComplex last)] := by
      unfold valueMoves
      rw [if_pos (show Unpaired .dstIII source.length (source.length - 1) from rfl)]
      show [(source.length - 1 + 1, toComplex last)] = _
      rw [Nat.sub_add_cancel hpos]
    refine ⟨lineMoves .dstIII source, ?_, List.Perm.refl _⟩
    unfold embed lineMoves
    rw [hsplit, List.flatMap_append, ← hsplit, List.flatMap_cons, List.flatMap_nil,
      List.append_nil, hlastMoves]
    simp only [hend, hlast, Option.bind_eq_bind, Option.bind_some]
    have hentries : ∀ entry ∈ source.zipIdx.take (source.length - 1), entry.2 < source.length ∧
        ¬Unpaired .dstIII source.length entry.2 := by
      intro entry hentry
      refine ⟨lt_of_mem_zipIdx (List.mem_of_mem_take hentry), Nat.ne_of_lt ?_⟩
      have hwindow : entry ∈ (source.zipIdx.drop 0).take (source.length - 1) := hentry
      simpa using lt_of_mem_window hwindow
    have hloop := hpairs _ hzeros hentries
    refine (congrArg (Option.bind · _) hloop).trans (moveAll_bind fun b hb => ?_)
    apply put_eq
    rw [hb, hzeros]
    show source.length < 4 * source.length
    omega
  | dctI =>
    have htwo := h.2 rfl
    have hmiddle : checkedSub source.length 2 = some (source.length - 2) :=
      checkedSub_eq_some.mpr ⟨htwo, rfl⟩
    have hrest : source.zipIdx.drop 1
        = (source.zipIdx.drop 1).take (source.length - 2) ++ [(last, source.length - 1)] := by
      have hdrop : (source.zipIdx.drop 1).drop (source.length - 2)
          = [(last, source.length - 1)] := by
        rw [List.drop_drop, ← hlastEntry]
        congr 1
        omega
      rw [← hdrop, List.take_append_drop]
    have hput := put_eq (p := 0) (hzeros ▸ embeddingLength_pos h) (toComplex first)
    refine ⟨[(0, toComplex first)] ++ ([(source.length - 1, toComplex last)]
      ++ ((source.zipIdx.drop 1).take (source.length - 2)).flatMap fun entry =>
        valueMoves .dctI source.length entry.2 (toComplex entry.1)), ?_, ?_⟩
    · unfold embed
      simp only [hfirst, hlast, hend, hmiddle, Option.bind_eq_bind, Option.bind_some, hput]
      refine moveAll_bind fun b hb => ?_
      have hsecond : put b (source.length - 1) (toComplex last)
          = Buf.moveAll some b [(source.length - 1, toComplex last)] := by
        apply put_eq
        rw [hb, hzeros]
        show source.length - 1 < 2 * (source.length - 1)
        omega
      rw [hsecond]
      refine moveAll_bind fun b' hb' => hpairs b' (hb'.trans (hb.trans hzeros)) ?_
      intro entry hentry
      have hge := le_of_mem_drop (List.mem_of_mem_take hentry)
      have hlt := lt_of_mem_zipIdx (List.mem_of_mem_drop (List.mem_of_mem_take hentry))
      have hbefore := lt_of_mem_window hentry
      exact ⟨hlt, not_or.mpr ⟨by omega, by omega⟩⟩
    · have hfirstMoves : valueMoves .dctI source.length 0 (toComplex first)
          = [(0, toComplex first)] := if_pos (Or.inl rfl)
      have hlastMoves : valueMoves .dctI source.length (source.length - 1) (toComplex last)
          = [(source.length - 1, toComplex last)] := if_pos (Or.inr rfl)
      unfold lineMoves
      rw [zipIdx_drop_one hfirst, hrest, List.flatMap_cons, List.flatMap_append, List.flatMap_cons,
        List.flatMap_nil, List.append_nil, hfirstMoves, hlastMoves, ← hrest]
      apply List.Perm.append_left
      exact List.perm_append_comm

end PencilRs.Analysis
