import PencilRs.Analysis.Agreement
import PencilRs.Model.Descriptor

/-!
# Descriptor agreement is exact

Whatever the ranks bring, they make the same reductions and reach the same verdict; it is
positive exactly where all headers and all descriptors are equal and every rank is ready.
-/

set_option autoImplicit false

namespace PencilRs.Analysis

open PencilRs.Computation PencilRs.Model

variable {M w : ℕ} {α β ε : Type} {processGrid : Fin M → ℕ}

/-! ## Extremes of words -/

/-- The word at a position; past the end it is zero. -/
def wordAt (words : List (BitVec w)) (j : ℕ) : BitVec w := words[j]?.getD 0

theorem wordAt_of_lt {words : List (BitVec w)} {j : ℕ} (h : j < words.length) :
    wordAt words j = words[j] := by
  unfold wordAt
  rw [List.getElem?_eq_getElem h]
  rfl

theorem wordAt_ofFn {n : ℕ} (f : Fin n → BitVec w) {j : ℕ} (h : j < n) :
    wordAt (List.ofFn f) j = f ⟨j, h⟩ := by
  rw [wordAt_of_lt (by rw [List.length_ofFn]; exact h), List.getElem_ofFn]

theorem wordAt_take (words : List (BitVec w)) {n j : ℕ} (h : j < n) :
    wordAt (words.take n) j = wordAt words j := by
  unfold wordAt
  rw [List.getElem?_take_of_lt h]

theorem wordAt_drop (words : List (BitVec w)) (n j : ℕ) :
    wordAt (words.drop n) j = wordAt words (n + j) := by
  unfold wordAt
  rw [List.getElem?_drop]

theorem wordAt_map_not {words : List (BitVec w)} {j : ℕ} (h : j < words.length) :
    wordAt (words.map fun value => ~~~value) j = ~~~wordAt words j := by
  rw [wordAt_of_lt (by rw [List.length_map]; exact h), wordAt_of_lt h, List.getElem_map]

theorem eq_of_wordAt {l l' : List (BitVec w)} {n : ℕ} (hl : l.length = n) (hl' : l'.length = n)
    (h : ∀ j, j < n → wordAt l j = wordAt l' j) : l = l' := by
  apply List.ext_getElem (hl.trans hl'.symm)
  intro j hj hj'
  rw [← wordAt_of_lt hj, ← wordAt_of_lt hj', h j (hl ▸ hj)]

/-- The elementwise maximum of the ranks' words. -/
structure Maximum {ι : Type} (words : ι → List (BitVec w)) (n : ℕ)
    (maximum : List (BitVec w)) : Prop where
  length : maximum.length = n
  greatest : ∀ j, j < n →
    IsGreatest (Set.range fun i => (wordAt (words i) j).toNat) (wordAt maximum j).toNat

/-- The elementwise minimum of the ranks' words. -/
structure Minimum {ι : Type} (words : ι → List (BitVec w)) (n : ℕ)
    (minimum : List (BitVec w)) : Prop where
  length : minimum.length = n
  least : ∀ j, j < n →
    IsLeast (Set.range fun i => (wordAt (words i) j).toNat) (wordAt minimum j).toNat

section Extremes

variable {ι : Type} {words : ι → List (BitVec w)} {n : ℕ}

/-- The minimum is the maximum exactly where all words are equal. -/
theorem minimum_eq_maximum_iff {minimum maximum : List (BitVec w)}
    (hlen : ∀ i, (words i).length = n) (hmin : Minimum words n minimum)
    (hmax : Maximum words n maximum) : minimum = maximum ↔ ∀ i j, words i = words j := by
  constructor
  · rintro rfl i i'
    refine eq_of_wordAt (hlen i) (hlen i') fun j hj => BitVec.eq_of_toNat_eq ?_
    have hi := (hmin.least j hj).2 (Set.mem_range_self i)
    have hi' := (hmin.least j hj).2 (Set.mem_range_self i')
    have hj' := (hmax.greatest j hj).2 (Set.mem_range_self i)
    have hj'' := (hmax.greatest j hj).2 (Set.mem_range_self i')
    exact le_antisymm (hj'.trans hi') (hj''.trans hi)
  · intro hall
    refine eq_of_wordAt hmin.length hmax.length fun j hj => BitVec.eq_of_toNat_eq ?_
    obtain ⟨i, hi⟩ := (hmin.least j hj).1
    obtain ⟨i', hi'⟩ := (hmax.greatest j hj).1
    rw [← hi, ← hi']
    exact congrArg (fun l => (wordAt l j).toNat) (hall i i')

theorem expandForMax_length (values : List (BitVec w)) :
    (expandForMax values).length = values.length + values.length := by
  unfold expandForMax
  rw [List.length_append, List.length_map]

theorem wordAt_expandForMax_left {values : List (BitVec w)} {j : ℕ} (h : j < values.length) :
    wordAt (expandForMax values) j = wordAt values j := by
  unfold expandForMax wordAt
  rw [List.getElem?_append_left h]

theorem wordAt_expandForMax_right {values : List (BitVec w)} {j : ℕ} (h : j < values.length) :
    wordAt (expandForMax values) (values.length + j) = ~~~wordAt values j := by
  rw [← wordAt_map_not h]
  unfold expandForMax wordAt
  rw [List.getElem?_append_right (Nat.le_add_right _ _), Nat.add_sub_cancel_left]

/-- The complement of the greatest complement is the least word. -/
theorem isLeast_of_complements {f : ι → BitVec w} {greatest : BitVec w}
    (h : IsGreatest (Set.range fun i => (~~~f i).toNat) greatest.toNat) :
    IsLeast (Set.range fun i => (f i).toNat) (~~~greatest).toNat := by
  obtain ⟨⟨i, hi⟩, hupper⟩ := h
  constructor
  · refine ⟨i, ?_⟩
    have heq : greatest = ~~~f i := BitVec.eq_of_toNat_eq hi.symm
    simp only [heq, BitVec.not_not]
  · rintro _ ⟨i', rfl⟩
    have hle := hupper (Set.mem_range_self i')
    have hlt := greatest.isLt
    have hlt' := (f i').isLt
    simp only [BitVec.toNat_not] at hle ⊢
    omega

/-- **The complement trick**: a maximum over words and complements holds the maximum and the
complements of the minimum. -/
theorem extremes_of_expanded {reduced : List (BitVec w)} (hlen : ∀ i, (words i).length = n)
    (h : Maximum (fun i => expandForMax (words i)) (n + n) reduced) :
    Maximum words n (reduced.take n) ∧
      Minimum words n ((reduced.drop n).map fun value => ~~~value) := by
  have hdrop : (reduced.drop n).length = n := by
    rw [List.length_drop, h.length]
    omega
  constructor
  · refine ⟨by rw [List.length_take, h.length]; omega, fun j hj => ?_⟩
    have hgreatest := h.greatest j (by omega)
    rw [wordAt_take _ hj]
    simpa only [fun i => wordAt_expandForMax_left
      (show j < (words i).length by rw [hlen i]; exact hj)] using hgreatest
  · refine ⟨by rw [List.length_map, hdrop], fun j hj => ?_⟩
    have hgreatest := h.greatest (n + j) (by omega)
    rw [wordAt_map_not (by rw [hdrop]; exact hj), wordAt_drop]
    apply isLeast_of_complements
    have hright : ∀ i, wordAt (expandForMax (words i)) (n + j) = ~~~wordAt (words i) j := by
      intro i
      have := wordAt_expandForMax_right (show j < (words i).length by rw [hlen i]; exact hj)
      rwa [hlen i] at this
    simpa only [hright] using hgreatest

end Extremes

/-! ## The reductions -/

section Reductions

variable [Nonempty (Coords processGrid)] {n : ℕ} {words : Coords processGrid → List (BitVec w)}
  {post : (Coords processGrid → Except (Stop ε) β) → Prop}

theorem reduceMax_bind_eq {words : List (BitVec w)} (hlen : words.length = n)
    (f : List (BitVec w) → RankProgram α M ε β) :
    reduceMax words >>= f
      = Fallible.perform (I := transport α M) (.allReduceMax n)
          (fun j => (wordAt words j).toNat) >>= fun reply =>
        f (List.ofFn fun j => BitVec.ofNat w (reply j)) := by
  subst hlen
  unfold reduceMax
  rw [bind_assoc]
  simp only [pure_bind, wordAt_of_lt (Fin.isLt _)]
  rfl

theorem reduceMin_bind_eq {words : List (BitVec w)} (hlen : words.length = n)
    (f : List (BitVec w) → RankProgram α M ε β) :
    reduceMin words >>= f
      = Fallible.perform (I := transport α M) (.allReduceMin n)
          (fun j => (wordAt words j).toNat) >>= fun reply =>
        f (List.ofFn fun j => BitVec.ofNat w (reply j)) := by
  subst hlen
  unfold reduceMin
  rw [bind_assoc]
  simp only [pure_bind, wordAt_of_lt (Fin.isLt _)]
  rfl

omit [Nonempty (Coords processGrid)] in
/-- A value of the range of words is a word. -/
theorem toNat_ofNat_of_mem {f : Coords processGrid → BitVec w} {x : ℕ}
    (h : x ∈ Set.range fun c => (f c).toNat) : (BitVec.ofNat w x).toNat = x := by
  obtain ⟨c, rfl⟩ := h
  rw [BitVec.toNat_ofNat, Nat.mod_eq_of_lt (f c).isLt]

/-- All ranks go on with the maximum. -/
theorem reduceMax_bind (hlen : ∀ c, (words c).length = n)
    {f : Coords processGrid → List (BitVec w) → RankProgram α M ε β}
    (h : ∀ maximum, Maximum words n maximum → Completes post fun c => (f c maximum).run) :
    Completes post fun c => (reduceMax (words c) >>= f c).run := by
  simp only [fun c => reduceMax_bind_eq (α := α) (hlen c) (f c)]
  refine .perform_bind trivial trivial (fun _ h => h.elim) (allReduceMax_live _) ?_
  intro replies _ hround
  have hsame : ∀ c, replies c = replies (Classical.arbitrary _) := by
    intro c
    funext j
    exact (hround c j).unique (hround _ j)
  simp only [hsame]
  refine h _ ⟨List.length_ofFn, fun j hj => ?_⟩
  have hgreatest := hround (Classical.arbitrary _) ⟨j, hj⟩
  rw [wordAt_ofFn _ hj, toNat_ofNat_of_mem hgreatest.1]
  exact hgreatest

/-- All ranks go on with the minimum. -/
theorem reduceMin_bind (hlen : ∀ c, (words c).length = n)
    {f : Coords processGrid → List (BitVec w) → RankProgram α M ε β}
    (h : ∀ minimum, Minimum words n minimum → Completes post fun c => (f c minimum).run) :
    Completes post fun c => (reduceMin (words c) >>= f c).run := by
  simp only [fun c => reduceMin_bind_eq (α := α) (hlen c) (f c)]
  refine .perform_bind trivial trivial (fun _ h => h.elim) (allReduceMin_live _) ?_
  intro replies _ hround
  have hsame : ∀ c, replies c = replies (Classical.arbitrary _) := by
    intro c
    funext j
    exact (hround c j).unique (hround _ j)
  simp only [hsame]
  refine h _ ⟨List.length_ofFn, fun j hj => ?_⟩
  have hleast := hround (Classical.arbitrary _) ⟨j, hj⟩
  rw [wordAt_ofFn _ hj, toNat_ofNat_of_mem hleast.1]
  exact hleast

/-- All ranks go on with the conjunction of their flags. -/
theorem collectiveValid_bind (valid : Coords processGrid → Bool)
    {f : Coords processGrid → Bool → RankProgram α M ε β}
    (h : ∀ verdict : Bool, (verdict = true ↔ ∀ c, valid c = true) →
      Completes post fun c => (f c verdict).run) :
    Completes post fun c => (collectiveValid (valid c) >>= f c).run := by
  have hbind : ∀ c, (collectiveValid (valid c) >>= f c : RankProgram α M ε β)
      = Fallible.perform (I := transport α M) (.allReduceMin 1) (fun _ => (valid c).toNat)
        >>= fun reply => f c (reply 0 ≠ 0) := by
    intro c
    unfold collectiveValid
    rw [bind_assoc]
    rfl
  simp only [hbind]
  refine .perform_bind trivial trivial (fun _ h => h.elim) (allReduceMin_live _) ?_
  intro replies _ hround
  have hsame : ∀ c, replies c = replies (Classical.arbitrary _) := by
    intro c
    funext j
    exact (hround c j).unique (hround _ j)
  simp only [hsame]
  refine h _ ?_
  have hzero := isLeast_eq_zero_iff (hround (Classical.arbitrary _) 0)
  rw [decide_eq_true_iff, ne_eq, hzero]
  simp only [Bool.toNat_eq_zero, not_exists, Bool.not_eq_false]

/-! ## Headers and words -/

/-- **A header** is agreed on exactly where all headers are equal. -/
theorem agreeHeader_bind {header : Coords processGrid → Header}
    {f : Coords processGrid → Bool → RankProgram α M ε β}
    (h : ∀ verdict : Bool, (verdict = true ↔ ∀ c d, header c = header d) →
      Completes post fun c => (f c verdict).run) :
    Completes post fun c => (agreeHeader (header c) >>= f c).run := by
  unfold agreeHeader
  simp only [bind_assoc, pure_bind]
  have hlen : ∀ c, (List.ofFn (header c)).length = headerWords := fun c => List.length_ofFn
  refine reduceMax_bind (n := headerWords + headerWords)
    (fun c => by rw [expandForMax_length, hlen]) ?_
  intro reduced hreduced
  obtain ⟨hmax, hmin⟩ := extremes_of_expanded hlen hreduced
  have hhalf : reduced.length / 2 = headerWords := by
    rw [hreduced.length]
    rfl
  unfold splitMinMax
  rw [hhalf]
  refine h _ ?_
  rw [decide_eq_true_iff, minimum_eq_maximum_iff hlen hmin hmax]
  simp only [List.ofFn_inj]

theorem chunks_length {γ : Type} (size : ℕ) (values : List γ) :
    (chunks size values).length = (values.length + size - 1) / size := by
  unfold chunks
  rw [List.length_map, List.length_range]

/-- The chunks of equally long lists are equal exactly where the lists are. -/
theorem chunks_eq_iff {γ : Type} {size : ℕ} (hsize : 0 < size) {l l' : List γ}
    (hlen : l.length = l'.length) :
    (∀ k, k < (l.length + size - 1) / size →
      (l.drop (k * size)).take size = (l'.drop (k * size)).take size) ↔ l = l' := by
  constructor
  · intro h
    apply List.ext_getElem? fun j => ?_
    by_cases hj : j < l.length
    · have hk : j / size < (l.length + size - 1) / size := by
        rw [Nat.lt_div_iff_mul_lt hsize]
        have := Nat.div_mul_le_self j size
        have := Nat.mul_comm (j / size) size
        omega
      have hchunk := congrArg (fun l => l[j % size]?) (h _ hk)
      have hmod := Nat.mod_lt j hsize
      simp only [List.getElem?_take_of_lt hmod, List.getElem?_drop] at hchunk
      rwa [Nat.div_add_mod' j size] at hchunk
    · rw [List.getElem?_eq_none (by omega), List.getElem?_eq_none (by omega)]
  · rintro rfl k _
    rfl

/-- The loop over the chunks, from a verdict that all ranks share. -/
theorem agreeWords_loop {chunksOf : Coords processGrid → List (List (BitVec 64))}
    {f : Coords processGrid → Bool → RankProgram α M ε β} {rounds : ℕ}
    (hrounds : ∀ c, (chunksOf c).length = rounds)
    (hlen : ∀ (c d : Coords processGrid) (k : ℕ), ((chunksOf c)[k]?.getD []).length = ((chunksOf d)[k]?.getD []).length)
    (equal : Bool)
    (h : ∀ verdict : Bool, (verdict = true ↔ equal = true ∧ ∀ c d, chunksOf c = chunksOf d) →
      Completes post fun c => (f c verdict).run) :
    Completes post fun c => ((chunksOf c).foldlM (fun equal chunk => do
        let minimum ← reduceMin chunk
        let maximum ← reduceMax chunk
        return equal && minimum = maximum : Bool → _ → RankProgram α M ε Bool) equal
      >>= f c).run := by
  induction rounds generalizing chunksOf equal with
  | zero =>
    have hnil : ∀ c, chunksOf c = [] := fun c => List.eq_nil_of_length_eq_zero (hrounds c)
    simp only [hnil, List.foldlM_nil, pure_bind]
    exact h equal (by simp [hnil])
  | succ rounds ih =>
    have hcons : ∀ c, ∃ chunk rest, chunksOf c = chunk :: rest := fun c =>
      List.exists_cons_of_length_eq_add_one (hrounds c)
    choose chunk rest hcons using hcons
    simp only [hcons, List.foldlM_cons, bind_assoc, pure_bind]
    have hchunk : ∀ c, (chunk c).length = (chunk (Classical.arbitrary _)).length := by
      intro c
      simpa [hcons] using hlen c (Classical.arbitrary _) 0
    refine reduceMin_bind hchunk fun minimum hmin => ?_
    refine reduceMax_bind hchunk fun maximum hmax => ?_
    refine @ih rest ?_ ?_ _ ?_
    · intro c
      have := hrounds c
      rw [hcons, List.length_cons] at this
      omega
    · intro c d k
      simpa [hcons] using hlen c d (k + 1)
    · intro verdict hverdict
      refine h verdict ?_
      rw [hverdict, Bool.and_eq_true, decide_eq_true_iff,
        minimum_eq_maximum_iff hchunk hmin hmax]
      simp only [hcons, List.cons.injEq, forall_and, and_assoc]

/-- **Words** of one common length are agreed on exactly where they are equal. -/
theorem agreeWords_bind {chunk n : ℕ} (hchunk : 0 < chunk)
    {words : Coords processGrid → List (BitVec 64)} (hlen : ∀ c, (words c).length = n)
    {f : Coords processGrid → Bool → RankProgram α M ε β}
    (h : ∀ verdict : Bool, (verdict = true ↔ ∀ c d, words c = words d) →
      Completes post fun c => (f c verdict).run) :
    Completes post fun c => (agreeWords chunk (words c) >>= f c).run := by
  unfold agreeWords
  have hrounds : ∀ c, (chunks chunk (words c)).length = (n + chunk - 1) / chunk := fun c => by
    rw [chunks_length, hlen]
  refine agreeWords_loop hrounds ?_ true ?_
  · intro c d k
    unfold chunks
    rw [List.getElem?_map, List.getElem?_map, hlen, hlen]
    cases (List.range ((n + chunk - 1) / chunk))[k]? with
    | none => rfl
    | some k =>
      simp only [Option.map_some, Option.getD_some, List.length_take, List.length_drop, hlen]
  · intro verdict hverdict
    refine h verdict (hverdict.trans ?_)
    simp only [true_and]
    refine forall_congr' fun c => forall_congr' fun d => ?_
    rw [← chunks_eq_iff hchunk ((hlen c).trans (hlen d).symm), hlen]
    unfold chunks
    rw [hlen, hlen, List.map_inj_left]
    simp only [List.mem_range]

end Reductions

/-! ## Descriptors -/

/-- What the ranks return after comparing what they propose: a mismatch where two headers or
two descriptors differ, a failed preparation where some rank is not ready, and else the common
descriptor. -/
inductive DescriptorVerdict {ι : Type} (fits : ℕ → Bool) (mismatch preparation : ε)
    (proposal : ι → Proposal w) : (ι → Except (Stop ε) (List (BitVec w))) → Prop
  | headersDiffer (h : ¬ ∀ i j, (proposal i).header = (proposal j).header) :
      DescriptorVerdict fits mismatch preparation proposal fun _ => .error (.error mismatch)
  | notReady (h : ∀ i j, (proposal i).header = (proposal j).header)
      (hready : ¬ ∀ i, (proposal i).ready fits = true) :
      DescriptorVerdict fits mismatch preparation proposal fun _ => .error (.error preparation)
  | descriptorsDiffer (h : ∀ i j, (proposal i).header = (proposal j).header)
      (hready : ∀ i, (proposal i).ready fits = true)
      (hdiffer : ¬ ∀ i j, (proposal i).descriptor = (proposal j).descriptor) :
      DescriptorVerdict fits mismatch preparation proposal fun _ => .error (.error mismatch)
  | agreed (words : List (BitVec w)) (h : ∀ i j, (proposal i).header = (proposal j).header)
      (hready : ∀ i, (proposal i).ready fits = true)
      (hequal : ∀ i, (proposal i).descriptor = some words) :
      DescriptorVerdict fits mismatch preparation proposal fun _ => .ok words

theorem ready_descriptor {fits : ℕ → Bool} {proposal : Proposal w}
    (h : proposal.ready fits = true) :
    ∃ words, proposal.descriptor = some words ∧ proposal.expectedLen = some words.length ∧
      fits words.length = true := by
  unfold Proposal.ready at h
  cases hdescriptor : proposal.descriptor with
  | none =>
    rw [hdescriptor] at h
    contradiction
  | some words =>
    cases hlen : proposal.expectedLen with
    | none =>
      rw [hdescriptor, hlen] at h
      contradiction
    | some len =>
      rw [hdescriptor, hlen] at h
      simp only [Bool.and_eq_true, decide_eq_true_iff] at h
      obtain ⟨⟨⟨rfl, hfits⟩, _⟩, _⟩ := h
      exact ⟨words, rfl, rfl, hfits⟩

theorem lengthFits_le {n : ℕ} (h : lengthFits n = true) : n ≤ countMax := by
  unfold lengthFits countTryFrom at h
  split at h
  · assumption
  · contradiction

theorem doubledFits_le {n : ℕ} (h : doubledFits n = true) : n ≤ countMax := by
  unfold doubledFits at h
  cases hdouble : checkedMul n 2 with
  | none =>
    rw [hdouble] at h
    contradiction
  | some len =>
    rw [hdouble] at h
    have hle := lengthFits_le h
    obtain ⟨_, rfl⟩ := checkedMul_eq_some.mp hdouble
    omega

/-- The header announces the length. -/
theorem length_of_header {words words' : List (BitVec w)} {proposal proposal' : Proposal w}
    (h : proposal.header = proposal'.header) (hlen : proposal.expectedLen = some words.length)
    (hlen' : proposal'.expectedLen = some words'.length) (hle : words.length ≤ countMax)
    (hle' : words'.length ≤ countMax) : words.length = words'.length := by
  have hword : lengthWord proposal.expectedLen = lengthWord proposal'.expectedLen :=
    congrFun h (Fin.last 4)
  rw [hlen, hlen'] at hword
  have hnat := congrArg BitVec.toNat hword
  unfold lengthWord at hnat
  simp only [BitVec.toNat_ofNat] at hnat
  have hmax : countMax < 2 ^ 64 := by decide
  rwa [Nat.mod_eq_of_lt (by omega), Nat.mod_eq_of_lt (by omega)] at hnat

/-- Ready ranks with equal headers have descriptors of one length. -/
theorem ready_words {ι : Type} [Nonempty ι] {fits : ℕ → Bool} {proposal : ι → Proposal w}
    (hfits : ∀ n, fits n = true → n ≤ countMax)
    (h : ∀ i j, (proposal i).header = (proposal j).header)
    (hready : ∀ i, (proposal i).ready fits = true) :
    ∃ (n : ℕ) (words : ι → List (BitVec w)), ∀ i, (proposal i).descriptor = some (words i) ∧
      (proposal i).expectedLen = some n ∧ (words i).length = n := by
  choose words hdescriptor hlen hfit using fun i => ready_descriptor (hready i)
  have hsame : ∀ i, (words i).length = (words (Classical.arbitrary ι)).length := fun i =>
    length_of_header (h i _) (hlen i) (hlen _) (hfits _ (hfit i)) (hfits _ (hfit _))
  exact ⟨_, words, fun i => ⟨hdescriptor i, (hlen i).trans (by rw [hsame i]), hsame i⟩⟩

/-- Two lists differ exactly where the loop finds a position at which they do. -/
theorem any_zip_ne {l l' : List (BitVec w)} (hlen : l.length = l'.length) :
    ((l.zip l').any fun (a, b) => a ≠ ~~~b) = decide (l ≠ l'.map fun value => ~~~value) := by
  induction l generalizing l' with
  | nil =>
    cases l' with
    | nil => rfl
    | cons b l' => contradiction
  | cons a l ih =>
    cases l' with
    | nil => contradiction
    | cons b l' =>
      simp only [List.zip_cons_cons, List.any_cons, List.map_cons]
      rw [ih (Nat.succ.inj hlen)]
      by_cases hab : a = ~~~b <;> simp [hab]

section Verdicts

variable [Nonempty (Coords processGrid)]

/-- The verdict on the descriptors of ready ranks. -/
theorem DescriptorVerdict.of_words {ι : Type} [Nonempty ι] {fits : ℕ → Bool}
    {mismatch preparation : ε} {proposal : ι → Proposal w} {words : ι → List (BitVec w)}
    {minimum maximum : List (BitVec w)} {n : ℕ}
    (h : ∀ i j, (proposal i).header = (proposal j).header)
    (hready : ∀ i, (proposal i).ready fits = true)
    (hwords : ∀ i, (proposal i).descriptor = some (words i))
    (hlen : ∀ i, (words i).length = n) (hmin : Minimum words n minimum)
    (hmax : Maximum words n maximum) :
    DescriptorVerdict fits mismatch preparation proposal
      (if minimum = maximum then fun i => .ok (words i)
        else fun _ => .error (.error mismatch)) := by
  have hiff := minimum_eq_maximum_iff hlen hmin hmax
  split
  case isTrue heq =>
    have hall := hiff.mp heq
    have hwords' : words = fun _ => words (Classical.arbitrary ι) := funext fun i => hall i _
    rw [hwords']
    exact .agreed _ h hready fun i => by rw [hwords i, hall i]
  case isFalse hne =>
    refine .descriptorsDiffer h hready fun hequal => hne (hiff.mpr fun i j => ?_)
    have := hequal i j
    rwa [hwords, hwords, Option.some.injEq] at this

/-- **The transposes' descriptors.** -/
theorem agreeExecuteDescriptor_completes (proposal : Coords processGrid → Proposal 64) :
    Completes (α := α) (DescriptorVerdict doubledFits .collectiveDescriptorMismatch
        .preparationFailed proposal)
      fun c => (agreeExecuteDescriptor (proposal c)).run := by
  unfold agreeExecuteDescriptor
  refine agreeHeader_bind fun verdict hverdict => ?_
  cases verdict with
  | false =>
    exact .returned _ (fun _ => rfl) trivial
      (.headersDiffer fun hall => Bool.false_ne_true (hverdict.mpr hall))
  | true =>
    have hheader := hverdict.mp rfl
    unfold collectiveDescriptor
    refine collectiveValid_bind (fun c => (proposal c).ready doubledFits) fun ready hready => ?_
    cases ready with
    | false =>
      exact .returned _ (fun _ => rfl) trivial
        (.notReady hheader fun hall => Bool.false_ne_true (hready.mpr hall))
    | true =>
      have hready := hready.mp rfl
      obtain ⟨n, words, hwords⟩ := ready_words (fun _ => doubledFits_le) hheader hready
      have hlen : ∀ c, (words c).length = n := fun c => (hwords c).2.2
      simp only [if_true, fun c => (hwords c).1, fun c => (hwords c).2.1,
        RankProgram.orPanic_some_bind]
      refine reduceMax_bind (n := n + n) (fun c => by rw [expandForMax_length, hlen]) ?_
      intro reduced hreduced
      obtain ⟨hmax, hmin⟩ := extremes_of_expanded hlen hreduced
      have hzip : (reduced.take n).length = (reduced.drop n).length := by
        rw [hmax.length, List.length_drop, hreduced.length]
        omega
      simp only [any_zip_ne hzip]
      refine .returned _ ?_ trivial (.of_words hheader hready (fun c => (hwords c).1) hlen hmin hmax)
      intro c
      by_cases heq : reduced.take n = (reduced.drop n).map fun value => ~~~value
      · rw [if_neg (by simpa using heq), if_pos heq.symm]
        rfl
      · rw [if_pos (by simpa using heq), if_neg fun h => heq h.symm]
        rfl

/-- The comparison by a minimum and a maximum. -/
theorem compareDescriptor_completes (proposal : Coords processGrid → Proposal w)
    (mismatch preparation : ε) :
    Completes (α := α) (DescriptorVerdict lengthFits mismatch preparation proposal)
      fun c => (do
        if ← agreeHeader (proposal c).header then
          if ← collectiveValid ((proposal c).ready lengthFits) then
            let words ← RankProgram.orPanic (proposal c).descriptor
            let minimum ← reduceMin words
            let maximum ← reduceMax words
            if minimum ≠ maximum then RankProgram.fail mismatch
            else return words
          else RankProgram.fail preparation
        else RankProgram.fail mismatch : RankProgram α M ε (List (BitVec w))).run := by
  refine agreeHeader_bind fun verdict hverdict => ?_
  cases verdict with
  | false =>
    exact .returned _ (fun _ => rfl) trivial
      (.headersDiffer fun hall => Bool.false_ne_true (hverdict.mpr hall))
  | true =>
    have hheader := hverdict.mp rfl
    refine collectiveValid_bind (fun c => (proposal c).ready lengthFits) fun ready hready => ?_
    cases ready with
    | false =>
      exact .returned _ (fun _ => rfl) trivial
        (.notReady hheader fun hall => Bool.false_ne_true (hready.mpr hall))
    | true =>
      have hready := hready.mp rfl
      obtain ⟨n, words, hwords⟩ := ready_words (fun _ => lengthFits_le) hheader hready
      have hlen : ∀ c, (words c).length = n := fun c => (hwords c).2.2
      simp only [if_true, fun c => (hwords c).1, RankProgram.orPanic_some_bind]
      refine reduceMin_bind hlen fun minimum hmin => ?_
      refine reduceMax_bind hlen fun maximum hmax => ?_
      refine .returned _ ?_ trivial (.of_words hheader hready (fun c => (hwords c).1) hlen hmin hmax)
      intro c
      by_cases heq : minimum = maximum
      · rw [if_neg (not_not.mpr heq), if_pos heq]
        rfl
      · rw [if_pos heq, if_neg heq]
        rfl

/-- **The descriptors of the reductions and the gather.** -/
theorem agreeDescriptor_completes (proposal : Coords processGrid → Proposal 32) :
    Completes (α := α) (DescriptorVerdict lengthFits .collectiveDescriptorMismatch
        .preparationFailed proposal)
      fun c => (agreeDescriptor (proposal c)).run := by
  unfold agreeDescriptor collectiveDescriptorWords
  exact compareDescriptor_completes proposal _ _

/-- What the ranks return after comparing the remap's descriptors: errors where some rank has
none, a mismatch where two differ, and else the common descriptor. -/
inductive PlanDescriptorVerdict {ι : Type} (descriptorLen : ι → Except SpatialRemapError ℕ)
    (built : ι → Except SpatialRemapError (List (BitVec 64))) :
    (ι → Except (Stop SpatialRemapError) (List (BitVec 64))) → Prop
  | refused (e : ι → SpatialRemapError)
      (h : ¬ ∀ i, ∃ words, descriptorLen i = .ok words.length ∧ built i = .ok words ∧
        words.length < usizeLimit) :
      PlanDescriptorVerdict descriptorLen built fun i => .error (.error (e i))
  | differ (h : ¬ ∀ i j, descriptorLen i = descriptorLen j ∧ built i = built j) :
      PlanDescriptorVerdict descriptorLen built fun _ =>
        .error (.error .collectiveDescriptorMismatch)
  | agreed (words : List (BitVec 64)) (h : ∀ i, descriptorLen i = .ok words.length)
      (hequal : ∀ i, built i = .ok words) :
      PlanDescriptorVerdict descriptorLen built fun _ => .ok words

theorem ofLength_ok {length : ℕ} {built : Except SpatialRemapError (List (BitVec 64))}
    {words : List (BitVec 64)} (h : ofLength length built = .ok words) :
    built = .ok words ∧ words.length = length := by
  obtain ⟨descriptor, rfl, hrest⟩ := bind_eq_ok.mp h
  by_cases hne : descriptor.length ≠ length
  · rw [if_pos hne] at hrest
    contradiction
  · rw [if_neg hne] at hrest
    cases hrest
    exact ⟨rfl, not_not.mp hne⟩

theorem ofLength_error {length : ℕ} {built : Except SpatialRemapError (List (BitVec 64))}
    {e : SpatialRemapError} (h : ofLength length built = .error e) :
    ∀ words, built = .ok words → words.length ≠ length := by
  rintro words rfl rfl
  unfold ofLength at h
  simp [bind, Except.bind, pure, Except.pure] at h

/-- **The remap's descriptors**, of lengths that the ranks compare first. -/
theorem agreePlanDescriptor_completes (descriptorLen : Coords processGrid → Except SpatialRemapError ℕ)
    (built : Coords processGrid → Except SpatialRemapError (List (BitVec 64))) :
    Completes (α := α) (PlanDescriptorVerdict descriptorLen built)
      fun c => (agreePlanDescriptor (descriptorLen c) (built c)).run := by
  unfold agreePlanDescriptor agreeStage
  refine agreePreflight_bind (fun len hlen => ?_) ?_
  swap
  · rintro e ⟨c, err, herr⟩ _
    refine .refused e fun hall => ?_
    obtain ⟨words, hok, _⟩ := hall c
    rw [hok] at herr
    contradiction
  refine agreePreflight_bind (fun word hword => ?_) ?_
  swap
  · rintro e ⟨c, err, herr⟩ _
    refine .refused e fun hall => ?_
    obtain ⟨words, hok, _, hlt⟩ := hall c
    rw [← Except.ok.inj ((hlen c).symm.trans hok)] at hlt
    rw [if_pos hlt] at herr
    contradiction
  have hword : ∀ c, len c < usizeLimit ∧ word c = BitVec.ofNat 64 (len c) := by
    intro c
    have := hword c
    split at this
    case isTrue hlt => exact ⟨hlt, (Except.ok.inj this).symm⟩
    case isFalse => contradiction
  refine agreeWords_bind (n := 1) Nat.one_pos (fun _ => rfl) fun verdict hverdict => ?_
  cases verdict with
  | false =>
    refine .returned _ (fun _ => rfl) trivial (.differ fun hall => ?_)
    refine Bool.false_ne_true (hverdict.mpr fun c d => ?_)
    have heq := (hall c d).1
    rw [hlen, hlen, Except.ok.injEq] at heq
    rw [(hword c).2, (hword d).2, heq]
  | true =>
    have hsame : ∀ c d, len c = len d := by
      intro c d
      have hwords := List.singleton_inj.mp (hverdict.mp rfl c d)
      rw [(hword c).2, (hword d).2] at hwords
      have hnat := congrArg BitVec.toNat hwords
      simp only [BitVec.toNat_ofNat] at hnat
      exact (Nat.mod_eq_of_lt (hword c).1).symm.trans (hnat.trans (Nat.mod_eq_of_lt (hword d).1))
    refine agreePreflight_bind (fun words hwords => ?_) ?_
    swap
    · rintro e ⟨c, err, herr⟩ _
      refine .refused e fun hall => ?_
      obtain ⟨words, hok, hbuilt, _⟩ := hall c
      exact ofLength_error herr words hbuilt (Except.ok.inj (hok.symm.trans (hlen c)))
    have hwords := fun c => ofLength_ok (hwords c)
    refine agreeWords_bind (n := len (Classical.arbitrary _)) (by decide)
      (fun c => (hwords c).2.trans (hsame c _)) fun verdict hverdict => ?_
    cases verdict with
    | false =>
      refine .returned _ (fun _ => rfl) trivial (.differ fun hall => ?_)
      refine Bool.false_ne_true (hverdict.mpr fun c d => ?_)
      have heq := (hall c d).2
      rwa [(hwords c).1, (hwords d).1, Except.ok.injEq] at heq
    | true =>
      have hall := hverdict.mp rfl
      refine .returned (fun _ => .ok (words (Classical.arbitrary _))) ?_ trivial
        (.agreed _ (fun c => ?_) fun c => ?_)
      · intro c
        rw [hall (Classical.arbitrary _) c]
        rfl
      · rw [hlen c, (hwords _).2, hsame c]
      · rw [(hwords c).1, hall c]

theorem dimensionWord_inj {n n' : ℕ} (hn : n < usizeLimit) (hn' : n' < usizeLimit)
    (h : dimensionWord n = dimensionWord n') : n = n' := by
  unfold dimensionWord at h
  rw [if_pos hn, if_pos hn'] at h
  have hnat := congrArg BitVec.toNat h
  simp only [BitVec.toNat_ofNat] at hnat
  exact (Nat.mod_eq_of_lt hn).symm.trans (hnat.trans (Nat.mod_eq_of_lt hn'))

/-- **The descriptor of a remap plan**, compared again before each use of the plan. -/
theorem agreeApplyDescriptor_completes
    {schema operation spatialRank topologyRank : Coords processGrid → BitVec 64}
    {descriptor : Coords processGrid → List (BitVec 64)}
    (hlt : ∀ c, (descriptor c).length < usizeLimit) :
    Completes (α := α) (fun r => ∃ verdict : Bool, (verdict = true ↔ ∀ c d,
          schema c = schema d ∧ operation c = operation d ∧ spatialRank c = spatialRank d ∧
            topologyRank c = topologyRank d ∧ descriptor c = descriptor d) ∧
        r = fun _ => if verdict then .ok () else .error (.error .collectiveDescriptorMismatch))
      fun c => (agreeApplyDescriptor (schema c) (operation c) (spatialRank c) (topologyRank c)
        (descriptor c)).run := by
  unfold agreeApplyDescriptor
  refine agreeHeader_bind fun verdict hverdict => ?_
  cases verdict with
  | false =>
    refine .returned _ (fun _ => rfl) trivial ⟨false, ?_, rfl⟩
    simp only [Bool.false_eq_true, false_iff]
    refine fun hall => Bool.false_ne_true (hverdict.mpr fun c d => ?_)
    obtain ⟨hs, ho, hn, hm, hd⟩ := hall c d
    rw [hs, ho, hn, hm, hd]
  | true =>
    have hheader := hverdict.mp rfl
    have hlen : ∀ c, (descriptor c).length = (descriptor (Classical.arbitrary _)).length :=
      fun c => dimensionWord_inj (hlt c) (hlt _) (congrFun (hheader c _) (Fin.last 4))
    refine agreeWords_bind (by decide) hlen fun verdict hwords => ?_
    cases verdict with
    | false =>
      refine .returned _ (fun _ => rfl) trivial ⟨false, ?_, rfl⟩
      simp only [Bool.false_eq_true, false_iff]
      exact fun hall => Bool.false_ne_true (hwords.mpr fun c d => (hall c d).2.2.2.2)
    | true =>
      refine .returned _ (fun _ => rfl) trivial ⟨true, ?_, rfl⟩
      simp only [true_iff]
      exact fun c d => ⟨congrFun (hheader c d) (0 : Fin 5),
        congrFun (hheader c d) (1 : Fin 5), congrFun (hheader c d) (2 : Fin 5),
        congrFun (hheader c d) (3 : Fin 5), hwords.mp rfl c d⟩

end Verdicts

/-- **Descriptor agreement is exact.**  For any ranks and whatever each of them brings, every
run keeps the reductions matched and ends, with one verdict on all ranks: headers, words of
one length, and the descriptors of the transposes, of the reductions and of the remap are
agreed on exactly where they are equal and every rank is ready. -/
theorem descriptor_agreement_exact (topology : MpiTopology M) (α : Type) :
    (∀ header : Coords topology.processGrid → Header,
      (communicators α topology.processGrid).Correct RequestsMatch (fun _ => True)
        (fun _ => False)
        (fun r _ => ∃ verdict : Bool, (verdict = true ↔ ∀ c d, header c = header d) ∧
          r = fun _ => .ok verdict)
        ⟨(), fun c => (agreeHeader (ε := ε) (header c)).run⟩) ∧
    (∀ (chunk n : ℕ) (words : Coords topology.processGrid → List (BitVec 64)), 0 < chunk →
      (∀ c, (words c).length = n) →
      (communicators α topology.processGrid).Correct RequestsMatch (fun _ => True)
        (fun _ => False)
        (fun r _ => ∃ verdict : Bool, (verdict = true ↔ ∀ c d, words c = words d) ∧
          r = fun _ => .ok verdict)
        ⟨(), fun c => (agreeWords (ε := ε) chunk (words c)).run⟩) ∧
    (∀ proposal : Coords topology.processGrid → Proposal 64,
      (communicators α topology.processGrid).Correct RequestsMatch (fun _ => True)
        (fun _ => False)
        (fun r _ => DescriptorVerdict doubledFits .collectiveDescriptorMismatch
          .preparationFailed proposal r)
        ⟨(), fun c => (agreeExecuteDescriptor (proposal c)).run⟩) ∧
    (∀ proposal : Coords topology.processGrid → Proposal 32,
      (communicators α topology.processGrid).Correct RequestsMatch (fun _ => True)
        (fun _ => False)
        (fun r _ => DescriptorVerdict lengthFits .collectiveDescriptorMismatch
          .preparationFailed proposal r)
        ⟨(), fun c => (agreeDescriptor (proposal c)).run⟩) ∧
    (∀ (descriptorLen : Coords topology.processGrid → Except SpatialRemapError ℕ)
      (built : Coords topology.processGrid → Except SpatialRemapError (List (BitVec 64))),
      (communicators α topology.processGrid).Correct RequestsMatch (fun _ => True)
        (fun _ => False) (fun r _ => PlanDescriptorVerdict descriptorLen built r)
        ⟨(), fun c => (agreePlanDescriptor (descriptorLen c) (built c)).run⟩) ∧
    ∀ (schema operation spatialRank topologyRank : Coords topology.processGrid → BitVec 64)
      (descriptor : Coords topology.processGrid → List (BitVec 64)),
      (∀ c, (descriptor c).length < usizeLimit) →
      (communicators α topology.processGrid).Correct RequestsMatch (fun _ => True)
        (fun _ => False)
        (fun r _ => ∃ verdict : Bool, (verdict = true ↔ ∀ c d,
            schema c = schema d ∧ operation c = operation d ∧ spatialRank c = spatialRank d ∧
              topologyRank c = topologyRank d ∧ descriptor c = descriptor d) ∧
          r = fun _ => if verdict then .ok ()
            else .error (.error .collectiveDescriptorMismatch))
        ⟨(), fun c => (agreeApplyDescriptor (schema c) (operation c) (spatialRank c)
          (topologyRank c) (descriptor c)).run⟩ := by
  have : Nonempty (Coords topology.processGrid) := ⟨topology.here⟩
  refine ⟨fun header => ?_, fun chunk n words hchunk hlen => ?_, fun proposal => ?_,
    fun proposal => ?_, fun descriptorLen built => ?_,
    fun schema operation spatialRank topologyRank descriptor hlt => ?_⟩
  · refine Semantics.Ensures.correct ?_
    have h : Completes (α := α) (fun r => ∃ verdict : Bool,
          (verdict = true ↔ ∀ c d, header c = header d) ∧ r = fun _ => .ok verdict)
        fun c => (agreeHeader (header c) >>= pure : RankProgram α M ε Bool).run :=
      agreeHeader_bind fun verdict hverdict =>
        .returned _ (fun _ => rfl) trivial ⟨verdict, hverdict, rfl⟩
    simpa only [bind_pure] using h
  · refine Semantics.Ensures.correct ?_
    have h : Completes (α := α) (fun r => ∃ verdict : Bool,
          (verdict = true ↔ ∀ c d, words c = words d) ∧ r = fun _ => .ok verdict)
        fun c => (agreeWords chunk (words c) >>= pure : RankProgram α M ε Bool).run :=
      agreeWords_bind hchunk hlen fun verdict hverdict =>
        .returned _ (fun _ => rfl) trivial ⟨verdict, hverdict, rfl⟩
    simpa only [bind_pure] using h
  · exact (agreeExecuteDescriptor_completes proposal).correct
  · exact (agreeDescriptor_completes proposal).correct
  · exact (agreePlanDescriptor_completes descriptorLen built).correct
  · exact (agreeApplyDescriptor_completes hlt).correct

end PencilRs.Analysis
