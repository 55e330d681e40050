import Mathlib.Tactic
import PencilRs.Computation.Literals

/-!
# Lines of a buffer

A buffer of `count` blocks of `n * stride` elements is also `count * stride` lines of `n`
elements, which lie `stride` apart in a block.  A transform of the lines is said element by
element: what a line holds afterwards is a function of what it held before.
-/

set_option autoImplicit false

namespace PencilRs.Computation

/-- The place of element `k` of a line. -/
def linePlace (n stride outer inner k : ℕ) : ℕ := outer * (n * stride) + k * stride + inner

section Places

variable {n stride outer outer' inner inner' k k' count : ℕ}

theorem linePlace_block_lt (hinner : inner < stride) (hk : k < n) :
    k * stride + inner < n * stride := by
  calc k * stride + inner < k * stride + stride := by omega
    _ = (k + 1) * stride := by ring
    _ ≤ n * stride := Nat.mul_le_mul_right _ hk

theorem linePlace_lt (houter : outer < count) (hinner : inner < stride) (hk : k < n) :
    linePlace n stride outer inner k < count * (n * stride) := by
  have hblock := linePlace_block_lt hinner hk
  unfold linePlace
  calc outer * (n * stride) + k * stride + inner < outer * (n * stride) + n * stride := by omega
    _ = (outer + 1) * (n * stride) := by ring
    _ ≤ count * (n * stride) := Nat.mul_le_mul_right _ houter

theorem linePlace_inj (hinner : inner < stride) (hinner' : inner' < stride) (hk : k < n)
    (hk' : k' < n) (h : linePlace n stride outer inner k = linePlace n stride outer' inner' k') :
    outer = outer' ∧ inner = inner' ∧ k = k' := by
  have hblock := linePlace_block_lt hinner hk
  have hblock' := linePlace_block_lt hinner' hk'
  unfold linePlace at h
  rw [Nat.add_assoc, Nat.add_assoc] at h
  have houter : outer = outer' := by
    have hdiv := congrArg (· / (n * stride)) h
    simp only [Nat.mul_add_div (Nat.zero_lt_of_lt hblock), Nat.mul_comm _ (n * stride),
      Nat.div_eq_of_lt hblock, Nat.div_eq_of_lt hblock', Nat.add_zero] at hdiv
    exact hdiv
  subst houter
  have hrest : k * stride + inner = k' * stride + inner' := by omega
  have hline : k = k' := by
    have hdiv := congrArg (· / stride) hrest
    simp only [Nat.mul_comm _ stride, Nat.mul_add_div (Nat.zero_lt_of_lt hinner),
      Nat.div_eq_of_lt hinner, Nat.div_eq_of_lt hinner', Nat.add_zero] at hdiv
    exact hdiv
  subst hline
  exact ⟨rfl, by omega, rfl⟩

/-- Every place is on a line. -/
theorem exists_linePlace {j : ℕ} (h : j < count * (n * stride)) :
    ∃ outer < count, ∃ inner < stride, ∃ k < n, j = linePlace n stride outer inner k := by
  have hblock : 0 < n * stride := by
    by_contra hzero
    rw [Nat.eq_zero_of_not_pos hzero, Nat.mul_zero] at h
    omega
  have hstride : 0 < stride := Nat.pos_of_mul_pos_left hblock
  refine ⟨j / (n * stride), Nat.div_lt_of_lt_mul (by rwa [Nat.mul_comm]),
    j % (n * stride) % stride, Nat.mod_lt _ hstride, j % (n * stride) / stride,
    Nat.div_lt_of_lt_mul (by rw [Nat.mul_comm stride]; exact Nat.mod_lt _ hblock), ?_⟩
  have houter := Nat.div_add_mod' j (n * stride)
  have hline := Nat.div_add_mod' (j % (n * stride)) stride
  unfold linePlace
  omega

end Places

/-! ## Transformed lines -/

section Lines

variable {K : Type}

/-- What the buffer holds on a line. -/
def HoldsLine (n stride outer inner : ℕ) (buffer values : List K) : Prop :=
  values.length = n ∧ ∀ k < n, buffer[linePlace n stride outer inner k]? = values[k]?

/-- `result` holds, on every line, the transform of what `source` holds there. -/
def LinesTransformed (transform : List K → List K) (n stride count : ℕ)
    (source result : List K) : Prop :=
  ∀ outer < count, ∀ inner < stride, ∀ values, HoldsLine n stride outer inner source values →
    ∀ k < n, result[linePlace n stride outer inner k]? = (transform values)[k]?

theorem exists_holdsLine {n stride count outer inner : ℕ} {buffer : List K}
    (hlen : buffer.length = count * (n * stride)) (houter : outer < count)
    (hinner : inner < stride) : ∃ values, HoldsLine n stride outer inner buffer values := by
  have hplace : ∀ k : Fin n, linePlace n stride outer inner k < buffer.length := fun k =>
    hlen ▸ linePlace_lt houter hinner k.isLt
  refine ⟨List.ofFn fun k => buffer.get ⟨linePlace n stride outer inner k, hplace k⟩,
    List.length_ofFn, ?_⟩
  intro k hk
  rw [List.getElem?_eq_getElem (hplace ⟨k, hk⟩), List.getElem?_ofFn, dif_pos hk]
  rfl

/-- What is held on a line, for lines that are held. -/
theorem HoldsLine.unique {n stride outer inner : ℕ} {buffer values values' : List K}
    (h : HoldsLine n stride outer inner buffer values)
    (h' : HoldsLine n stride outer inner buffer values') : values = values' := by
  apply List.ext_getElem?
  intro k
  by_cases hk : k < n
  · rw [← h.2 k hk, h'.2 k hk]
  · have hlen := h.1
    have hlen' := h'.1
    rw [List.getElem?_eq_none (by omega), List.getElem?_eq_none (by omega)]

end Lines

/-! ## Consecutive lines -/

section Consecutive

variable {K L : Type}

/-- Line number `i` of a buffer of consecutive lines. -/
def lineAt (n : ℕ) (buffer : List K) (i : ℕ) : List K := (buffer.drop (i * n)).take n

/-- The buffer with that line replaced. -/
def withLine (n : ℕ) (buffer : List K) (i : ℕ) (line : List K) : List K :=
  buffer.take (i * n) ++ line ++ buffer.drop ((i + 1) * n)

/-- The transformed lines of a buffer. -/
def mapLines (n : ℕ) (transform : List K → List L) (buffer : List K) : List L :=
  (List.range (buffer.length / n)).flatMap fun i => transform (lineAt n buffer i)

theorem exists_lines {n : ℕ} {buffer : List K} (h : n ∣ buffer.length) :
    ∃ lines : List (List K), lines.flatten = buffer ∧ ∀ line ∈ lines, line.length = n := by
  obtain ⟨count, hcount⟩ := h
  induction count generalizing buffer with
  | zero => exact ⟨[], (List.eq_nil_of_length_eq_zero hcount).symm, nofun⟩
  | succ count ih =>
    rw [Nat.mul_succ] at hcount
    have hdrop : (buffer.drop n).length = n * count := by
      rw [List.length_drop]
      omega
    obtain ⟨lines, hlines, hlength⟩ := ih hdrop
    refine ⟨buffer.take n :: lines, ?_, ?_⟩
    · rw [List.flatten_cons, hlines, List.take_append_drop]
    · intro line hline
      cases List.mem_cons.mp hline with
      | inl heq => rw [heq, List.length_take, Nat.min_eq_left (by omega)]
      | inr hmem => exact hlength line hmem

section Flatten

variable {n : ℕ} {lines : List (List K)} (h : ∀ line ∈ lines, line.length = n)

include h

theorem length_flatten_lines : lines.flatten.length = lines.length * n := by
  rw [List.length_flatten, List.map_congr_left h]
  simp

theorem take_flatten_lines (i : ℕ) : lines.flatten.take (i * n) = (lines.take i).flatten := by
  induction lines generalizing i with
  | nil => simp
  | cons line lines ih =>
    cases i with
    | zero => simp
    | succ i =>
      have hline := h line List.mem_cons_self
      rw [List.take_succ_cons, List.flatten_cons, List.flatten_cons, Nat.succ_mul,
        Nat.add_comm, ← hline, List.take_append, hline, Nat.add_sub_cancel_left,
        ih fun l hl => h l (List.mem_cons_of_mem _ hl)]
      congr 1
      exact List.take_of_length_le (by omega)

theorem drop_flatten_lines (i : ℕ) : lines.flatten.drop (i * n) = (lines.drop i).flatten := by
  have hall := List.take_append_drop (i * n) lines.flatten
  rw [take_flatten_lines h] at hall
  have hsplit : (lines.take i).flatten ++ (lines.drop i).flatten = lines.flatten := by
    rw [← List.flatten_append, List.take_append_drop]
  exact List.append_cancel_left (hall.trans hsplit.symm)

theorem lineAt_flatten {i : ℕ} {line : List K} (hi : lines[i]? = some line) :
    lineAt n lines.flatten i = line := by
  obtain ⟨hlt, hline⟩ := List.getElem?_eq_some_iff.mp hi
  unfold lineAt
  rw [drop_flatten_lines h, List.drop_eq_getElem_cons hlt, hline, List.flatten_cons,
    List.take_append_of_le_length (h line (hline ▸ List.getElem_mem hlt)).ge]
  exact List.take_of_length_le (h line (hline ▸ List.getElem_mem hlt)).le

theorem withLine_flatten {i : ℕ} (hi : i < lines.length) (line : List K) :
    withLine n lines.flatten i line = (lines.set i line).flatten := by
  unfold withLine
  rw [take_flatten_lines h, drop_flatten_lines h, List.set_eq_take_append_cons_drop, if_pos hi,
    List.flatten_append, List.flatten_cons, List.append_assoc]

theorem mapLines_flatten (hn : 0 < n) (transform : List K → List L) :
    mapLines n transform lines.flatten = (lines.map transform).flatten := by
  unfold mapLines
  rw [length_flatten_lines h, Nat.mul_div_cancel _ hn, List.flatMap_def]
  congr 1
  apply List.ext_getElem?
  intro i
  rw [List.getElem?_map, List.getElem?_map]
  by_cases hi : i < lines.length
  · rw [List.getElem?_range hi, List.getElem?_eq_getElem hi, Option.map_some, Option.map_some,
      lineAt_flatten h (List.getElem?_eq_getElem hi)]
  · rw [List.getElem?_eq_none (by simpa using hi), List.getElem?_eq_none (by omega)]
    rfl

end Flatten

theorem length_lineAt {n i : ℕ} {buffer : List K} (h : (i + 1) * n ≤ buffer.length) :
    (lineAt n buffer i).length = n := by
  rw [Nat.succ_mul] at h
  unfold lineAt
  rw [List.length_take, List.length_drop]
  omega

theorem length_withLine {n i : ℕ} {buffer line : List K} (hline : line.length = n)
    (h : (i + 1) * n ≤ buffer.length) : (withLine n buffer i line).length = buffer.length := by
  have hbefore : i * n ≤ buffer.length := (Nat.mul_le_mul_right n (Nat.le_succ i)).trans h
  unfold withLine
  rw [List.length_append, List.length_append, List.length_take, List.length_drop, hline]
  rw [Nat.succ_mul] at h ⊢
  omega

/-- A line is in front of what it ends before. -/
theorem lineAt_take {n i k : ℕ} (buffer : List K) (h : (i + 1) * n ≤ k) :
    lineAt n (buffer.take k) i = lineAt n buffer i := by
  rw [Nat.succ_mul] at h
  unfold lineAt
  rw [List.drop_take, List.take_take, Nat.min_eq_left (by omega)]

theorem lineAt_withLine_self {n i : ℕ} {buffer line : List K} (hline : line.length = n)
    (h : (i + 1) * n ≤ buffer.length) : lineAt n (withLine n buffer i line) i = line := by
  have hbefore : i * n ≤ buffer.length := (Nat.mul_le_mul_right n (Nat.le_succ i)).trans h
  have htake : (buffer.take (i * n)).length = i * n := by
    rw [List.length_take]
    omega
  unfold lineAt withLine
  rw [List.append_assoc, List.drop_append, htake, Nat.sub_self, List.drop_zero,
    List.drop_eq_nil_of_le htake.le, List.nil_append, ← hline]
  exact List.take_left

theorem take_withLine {n i k : ℕ} {buffer : List K} (line : List K) (hk : k ≤ i * n)
    (h : i * n ≤ buffer.length) : (withLine n buffer i line).take k = buffer.take k := by
  unfold withLine
  rw [List.append_assoc, List.take_append_of_le_length (by rw [List.length_take]; omega),
    List.take_take, Nat.min_eq_left hk]

theorem drop_withLine {n i : ℕ} {buffer line : List K} (hline : line.length = n)
    (h : (i + 1) * n ≤ buffer.length) {k : ℕ} (hk : (i + 1) * n ≤ k) :
    (withLine n buffer i line).drop k = buffer.drop k := by
  have hbefore : i * n ≤ buffer.length := (Nat.mul_le_mul_right n (Nat.le_succ i)).trans h
  have hfront : (buffer.take (i * n) ++ line).length = (i + 1) * n := by
    rw [List.length_append, List.length_take, hline, Nat.succ_mul]
    omega
  unfold withLine
  rw [List.drop_append, hfront, List.drop_eq_nil_of_le (by omega), List.nil_append,
    List.drop_drop]
  congr 1
  omega

theorem lineAt_withLine_ne {n i j : ℕ} {buffer line : List K} (hline : line.length = n)
    (h : (i + 1) * n ≤ buffer.length) (hne : j ≠ i) :
    lineAt n (withLine n buffer i line) j = lineAt n buffer j := by
  have hbefore : i * n ≤ buffer.length := (Nat.mul_le_mul_right n (Nat.le_succ i)).trans h
  cases Nat.lt_or_gt_of_ne hne with
  | inl hlt =>
    have hend : (j + 1) * n ≤ i * n := Nat.mul_le_mul_right n hlt
    rw [← lineAt_take _ hend, take_withLine line le_rfl hbefore, lineAt_take _ hend]
  | inr hgt =>
    unfold lineAt
    rw [drop_withLine hline h (Nat.mul_le_mul_right n hgt)]

/-- A buffer is its lines. -/
theorem flatMap_lineAt {n count : ℕ} {buffer : List K} (h : buffer.length = count * n) :
    ((List.range count).flatMap fun i => lineAt n buffer i) = buffer := by
  obtain ⟨lines, rfl, hlines⟩ := exists_lines (n := n) ⟨count, h.trans (Nat.mul_comm ..)⟩
  induction count generalizing lines with
  | zero =>
    rw [Nat.zero_mul] at h
    exact (List.eq_nil_of_length_eq_zero h).symm
  | succ count ih =>
    rw [List.range_succ, List.flatMap_append, List.flatMap_singleton]
    have hfront : ((List.range count).flatMap fun i => lineAt n lines.flatten i)
        = lines.flatten.take (count * n) := by
      rw [take_flatten_lines hlines, ← ih (lines.take count)]
      · rw [List.flatMap_def, List.flatMap_def]
        congr 1
        refine List.map_congr_left fun i hi => ?_
        rw [← take_flatten_lines hlines, lineAt_take]
        exact Nat.mul_le_mul_right n (List.mem_range.mp hi)
      · exact fun line hline => hlines line (List.mem_of_mem_take hline)
      · rw [← take_flatten_lines hlines, List.length_take, h]
        exact Nat.min_eq_left (Nat.mul_le_mul_right n (Nat.le_succ count))
    have hlast : lineAt n lines.flatten count = lines.flatten.drop (count * n) := by
      unfold lineAt
      apply List.take_of_length_le
      rw [List.length_drop, h, Nat.succ_mul]
      omega
    rw [hfront, hlast, List.take_append_drop]

/-- What holds the transformed lines is their buffer. -/
theorem eq_mapLines {n m count : ℕ} (hn : 0 < n) {source : List K} {result : List L}
    {transform : List K → List L} (hsource : source.length = count * n)
    (hresult : result.length = count * m)
    (h : ∀ i < count, lineAt m result i = transform (lineAt n source i)) :
    result = mapLines n transform source := by
  unfold mapLines
  rw [hsource, Nat.mul_div_cancel _ hn]
  refine (flatMap_lineAt hresult).symm.trans ?_
  rw [List.flatMap_def, List.flatMap_def]
  congr 1
  exact List.map_congr_left fun i hi => h i (List.mem_range.mp hi)

/-- **Two transforms** of the lines, one after the other. -/
theorem mapLines_mapLines {M : Type} {n : ℕ} (hn : 0 < n) {buffer : List K}
    (hdvd : n ∣ buffer.length) {transform : List K → List L} (transform' : List L → List M)
    (hlength : ∀ line, line.length = n → (transform line).length = n) :
    mapLines n transform' (mapLines n transform buffer)
      = mapLines n (fun line => transform' (transform line)) buffer := by
  obtain ⟨lines, rfl, hlines⟩ := exists_lines hdvd
  rw [mapLines_flatten hlines hn, mapLines_flatten hlines hn, mapLines_flatten _ hn, List.map_map]
  · rfl
  · intro line hline
    obtain ⟨source, hsource, rfl⟩ := List.mem_map.mp hline
    exact hlength source (hlines source hsource)

theorem mapLines_congr {n : ℕ} (hn : 0 < n) {buffer : List K} (hdvd : n ∣ buffer.length)
    {transform transform' : List K → List L}
    (h : ∀ line, line.length = n → transform line = transform' line) :
    mapLines n transform buffer = mapLines n transform' buffer := by
  obtain ⟨lines, rfl, hlines⟩ := exists_lines hdvd
  rw [mapLines_flatten hlines hn, mapLines_flatten hlines hn]
  congr 1
  exact List.map_congr_left fun line hline => h line (hlines line hline)

/-- A transform that acts value by value. -/
theorem mapLines_map {n : ℕ} (hn : 0 < n) {buffer : List K} (hdvd : n ∣ buffer.length)
    (f : K → L) : mapLines n (List.map f) buffer = buffer.map f := by
  obtain ⟨lines, rfl, hlines⟩ := exists_lines hdvd
  rw [mapLines_flatten hlines hn, List.map_flatten]

theorem length_mapLines {n : ℕ} (hn : 0 < n) {buffer : List K} (hdvd : n ∣ buffer.length)
    {transform : List K → List L}
    (hlength : ∀ line, line.length = n → (transform line).length = n) :
    (mapLines n transform buffer).length = buffer.length := by
  obtain ⟨lines, rfl, hlines⟩ := exists_lines hdvd
  rw [mapLines_flatten hlines hn, length_flatten_lines hlines, length_flatten_lines (n := n),
    List.length_map]
  intro line hline
  obtain ⟨source, hsource, rfl⟩ := List.mem_map.mp hline
  exact hlength source (hlines source hsource)

end Consecutive

end PencilRs.Computation
