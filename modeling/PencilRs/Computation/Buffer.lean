import PencilRs.Computation.Loop

/-!
# Buffers that remember where they were written

A `Buf` is a block of cells together with the list of positions stored to so far, in
order.  Programs over it fail (`none`) where an index leaves the block or its window.

A copying loop is understood through the list of moves it performs, each from a place that
can be read to a position of the block: `moveAll` performs such a list, `foldlM_moveAll`
turns a loop of moves into one list, and with pairwise different positions the block is
read back cell by cell.  "Every cell is written exactly once" is then the statement that
the log is a permutation of the block's positions.
-/

set_option autoImplicit false

namespace PencilRs.Computation

/-- Cells and the positions stored to, oldest first. -/
structure Buf (α : Type) where
  cells : List α
  log : List ℕ
deriving Repr, DecidableEq

/-- `slice[start..stop]`; out of bounds fails. -/
def slice? {α : Type} (l : List α) (start stop : ℕ) : Option (List α) :=
  if start ≤ stop ∧ stop ≤ l.length then some ((l.drop start).take (stop - start)) else none

theorem slice?_eq {α : Type} {l : List α} {start stop : ℕ} (h : start ≤ stop)
    (hl : stop ≤ l.length) : slice? l start stop = some ((l.drop start).take (stop - start)) := by
  simp [slice?, h, hl]

theorem slice?_eq_some {α : Type} {l s : List α} {start stop : ℕ} (h : slice? l start stop = some s) :
    start ≤ stop ∧ stop ≤ l.length ∧ s = (l.drop start).take (stop - start) := by
  unfold slice? at h
  by_cases hin : start ≤ stop ∧ stop ≤ l.length
  · rw [if_pos hin] at h
    exact ⟨hin.1, hin.2, (Option.some.inj h).symm⟩
  · rw [if_neg hin] at h
    cases h

theorem length_take_drop {α : Type} {l : List α} {start len : ℕ} (hl : start + len ≤ l.length) :
    ((l.drop start).take (start + len - start)).length = len := by
  simp only [List.length_take, List.length_drop]
  omega

namespace Buf

variable {α β ρ : Type}

/-- A block that has not been written. -/
def fresh (cells : List α) : Buf α := ⟨cells, []⟩

/-- Store at position `i`, without a bounds check. -/
def put (b : Buf α) (i : ℕ) (v : α) : Buf α := ⟨b.cells.set i v, b.log ++ [i]⟩

/-- `window[i] = v` for the window `start..stop` of the block; out of bounds fails. -/
def store (b : Buf α) (start stop i : ℕ) (v : α) : Option (Buf α) :=
  if start + i < stop ∧ stop ≤ b.cells.length then some (b.put (start + i) v) else none

/-- `window[off..off + len].copy_from_slice(values)` for the window `start..stop`. -/
def copyFromSlice (b : Buf α) (start stop off : ℕ) (values : List α) : Option (Buf α) :=
  values.zipIdx.foldlM (fun b (v, i) => b.store start stop (off + i) v) b

/-- Perform moves `(position, place)` in order, reading places with `read`. -/
def moveAll (read : ρ → Option α) (b : Buf α) (moves : List (ℕ × ρ)) : Option (Buf α) :=
  moves.foldlM (fun b m => (read m.2).map (b.put m.1)) b

@[simp] theorem length_put (b : Buf α) (i : ℕ) (v : α) :
    (b.put i v).cells.length = b.cells.length := by
  simp [put]

section Moves

variable (read : ρ → Option α)

@[simp] theorem moveAll_nil (b : Buf α) : moveAll read b [] = some b := rfl

theorem moveAll_cons (b : Buf α) (m : ℕ × ρ) (moves : List (ℕ × ρ)) :
    moveAll read b (m :: moves)
      = (read m.2).bind fun v => moveAll read (b.put m.1 v) moves := by
  unfold moveAll
  rw [List.foldlM_cons]
  cases read m.2 <;> rfl

theorem moveAll_append (b : Buf α) (l m : List (ℕ × ρ)) :
    moveAll read b (l ++ m) = (moveAll read b l).bind fun b => moveAll read b m := by
  unfold moveAll
  rw [List.foldlM_append]
  rfl

variable {read}

/-- Moves from readable places succeed. -/
theorem moveAll_isSome (b : Buf α) {moves : List (ℕ × ρ)}
    (h : ∀ m ∈ moves, (read m.2).isSome) : ∃ b', moveAll read b moves = some b' := by
  induction moves generalizing b with
  | nil => exact ⟨b, rfl⟩
  | cons m moves ih =>
    obtain ⟨v, hv⟩ := Option.isSome_iff_exists.mp (h m (by simp))
    obtain ⟨b', hb'⟩ := ih (b.put m.1 v) fun x hx => h x (by simp [hx])
    exact ⟨b', by rw [moveAll_cons, hv]; exact hb'⟩

theorem length_moveAll {b b' : Buf α} {moves : List (ℕ × ρ)}
    (h : moveAll read b moves = some b') : b'.cells.length = b.cells.length := by
  induction moves generalizing b with
  | nil =>
    have := Option.some.inj h
    rw [this]
  | cons m moves ih =>
    rw [moveAll_cons] at h
    obtain ⟨v, _, hrest⟩ := Option.bind_eq_some_iff.mp h
    rw [ih hrest, length_put]

theorem log_moveAll {b b' : Buf α} {moves : List (ℕ × ρ)}
    (h : moveAll read b moves = some b') : b'.log = b.log ++ moves.map Prod.fst := by
  induction moves generalizing b with
  | nil =>
    have := Option.some.inj h
    simp [this]
  | cons m moves ih =>
    rw [moveAll_cons] at h
    obtain ⟨v, _, hrest⟩ := Option.bind_eq_some_iff.mp h
    rw [ih hrest]
    simp [put]

/-- A position no move names keeps its cell. -/
theorem cells_moveAll_of_notMem {b b' : Buf α} {moves : List (ℕ × ρ)} {i : ℕ}
    (h : moveAll read b moves = some b') (hi : i ∉ moves.map Prod.fst) :
    b'.cells[i]? = b.cells[i]? := by
  induction moves generalizing b with
  | nil =>
    have := Option.some.inj h
    rw [this]
  | cons m moves ih =>
    rw [moveAll_cons] at h
    obtain ⟨v, _, hrest⟩ := Option.bind_eq_some_iff.mp h
    rw [List.map_cons, List.mem_cons, not_or] at hi
    rw [ih hrest hi.2]
    simp [put, List.getElem?_set_ne (Ne.symm hi.1)]

/-- With pairwise different positions every move is still there at the end. -/
theorem cells_moveAll_of_mem {b b' : Buf α} {moves : List (ℕ × ρ)} {i : ℕ} {r : ρ}
    (h : moveAll read b moves = some b') (hn : (moves.map Prod.fst).Nodup)
    (hi : i < b.cells.length) (hm : (i, r) ∈ moves) : b'.cells[i]? = read r := by
  induction moves generalizing b with
  | nil => simp at hm
  | cons m moves ih =>
    rw [List.map_cons, List.nodup_cons] at hn
    rw [moveAll_cons] at h
    obtain ⟨v, hv, hrest⟩ := Option.bind_eq_some_iff.mp h
    cases List.mem_cons.mp hm with
    | inl heq =>
      subst heq
      rw [cells_moveAll_of_notMem hrest hn.1, hv]
      simp [put, hi]
    | inr hmem => exact ih hrest hn.2 (by simpa using hi) hmem

/-- **A sum over the cells** after moves to different cells that counted nothing before. -/
theorem sum_moveAll {M : Type} [AddCommMonoid M] {b b' : Buf α} {moves : List (ℕ × α)}
    (f : ℕ → α → M) (h : moveAll some b moves = some b') (hn : (moves.map Prod.fst).Nodup)
    (hin : ∀ m ∈ moves, m.1 < b.cells.length)
    (hzero : ∀ m ∈ moves, ∀ v, b.cells[m.1]? = some v → f m.1 v = 0) :
    ∑ i ∈ Finset.range b.cells.length, (b'.cells[i]?).elim 0 (f i)
      = ∑ i ∈ Finset.range b.cells.length, (b.cells[i]?).elim 0 (f i)
        + (moves.map fun m => f m.1 m.2).sum := by
  induction moves generalizing b with
  | nil =>
    obtain rfl := Option.some.inj h
    simp
  | cons m moves ih =>
    rw [List.map_cons, List.nodup_cons] at hn
    rw [moveAll_cons, Option.bind_some] at h
    have hlt := hin m List.mem_cons_self
    have hothers : ∀ i, i ≠ m.1 → (b.put m.1 m.2).cells[i]? = b.cells[i]? := fun i hi =>
      List.getElem?_set_ne (Ne.symm hi)
    have hrest := ih h hn.2
      (fun x hx => by rw [length_put]; exact hin x (List.mem_cons_of_mem _ hx))
      (by
        intro x hx v hv
        have hne : x.1 ≠ m.1 := fun heq => hn.1 (heq ▸ List.mem_map_of_mem hx)
        exact hzero x (List.mem_cons_of_mem _ hx) v (hothers _ hne ▸ hv))
    rw [length_put] at hrest
    have hmem : m.1 ∈ Finset.range b.cells.length := Finset.mem_range.mpr hlt
    have hwritten : (b.put m.1 m.2).cells[m.1]? = some m.2 := List.getElem?_set_self hlt
    have hold : (b.cells[m.1]?).elim 0 (f m.1) = 0 := by
      rw [List.getElem?_eq_getElem hlt]
      exact hzero m List.mem_cons_self _ (List.getElem?_eq_getElem hlt)
    rw [hrest, List.map_cons, List.sum_cons, ← add_assoc]
    congr 1
    rw [Finset.sum_eq_add_sum_sdiff_singleton_of_mem hmem,
      Finset.sum_eq_add_sum_sdiff_singleton_of_mem hmem, hwritten, hold, zero_add, add_comm]
    congr 1
    refine Finset.sum_congr rfl fun i hi => ?_
    rw [hothers i (by simpa using (Finset.mem_sdiff.mp hi).2)]

/-- The places may be named differently, as long as they read the same. -/
theorem moveAll_map_place {ρ' : Type} {g : ρ' → Option α} (f : ρ → ρ') (b : Buf α)
    {moves : List (ℕ × ρ)} (h : ∀ m ∈ moves, read m.2 = g (f m.2)) :
    moveAll read b moves = moveAll g b (moves.map fun m => (m.1, f m.2)) := by
  induction moves generalizing b with
  | nil => rfl
  | cons m moves ih =>
    rw [List.map_cons, moveAll_cons, moveAll_cons, h m (by simp)]
    congr 1
    funext v
    exact ih (b.put m.1 v) fun x hx => h x (by simp [hx])

theorem store_eq {b : Buf α} {start stop i : ℕ} (v : α) (hi : start + i < stop)
    (hs : stop ≤ b.cells.length) : b.store start stop i v = some (b.put (start + i) v) := by
  simp [store, hi, hs]

/-- **A loop of moves.**  If every round performs a list of moves that depends only on the
element visited, the loop performs the concatenation. -/
theorem foldlM_moveAll {n : ℕ} (f : Buf α → β → Option (Buf α)) (moves : β → List (ℕ × ρ))
    (l : List β)
    (h : ∀ x ∈ l, ∀ b : Buf α, b.cells.length = n → f b x = moveAll read b (moves x))
    (b : Buf α) (hb : b.cells.length = n) :
    l.foldlM f b = moveAll read b (l.flatMap moves) := by
  induction l generalizing b with
  | nil => simp
  | cons x l ih =>
    rw [List.foldlM_cons, h x (by simp) b hb, List.flatMap_cons, moveAll_append]
    cases hx : moveAll read b (moves x) with
    | none => rfl
    | some b₁ =>
      exact ih (fun y hy => h y (by simp [hy])) b₁ ((length_moveAll hx).trans hb)

/-- Elementwise stores of consecutive values. -/
theorem copyFromSlice_eq {b : Buf α} {start stop off : ℕ} {values : List α}
    (hi : start + off + values.length ≤ stop) (hs : stop ≤ b.cells.length) :
    b.copyFromSlice start stop off values
      = moveAll (fun i => values[i]?) b
          ((List.range values.length).map fun i => (start + off + i, i)) := by
  have hstore : ∀ x ∈ values.zipIdx, ∀ b' : Buf α, b'.cells.length = b.cells.length →
      b'.store start stop (off + x.2) x.1
        = moveAll (fun i => values[i]?) b' [(start + off + x.2, x.2)] := by
    intro x hx b' hb'
    obtain ⟨v, i⟩ := x
    have hget : values[i]? = some v := List.mem_zipIdx_iff_getElem?.mp hx
    have hlt : i < values.length := (List.getElem?_eq_some_iff.mp hget).1
    rw [store_eq v (by omega) (by omega), moveAll_cons, hget]
    simp [Nat.add_assoc]
  have hloop := foldlM_moveAll _ _ _ hstore b rfl
  unfold copyFromSlice
  rw [hloop, ← List.map_eq_flatMap]
  congr 1
  apply List.ext_getElem
  · simp
  · intro i h1 h2
    simp

/-- What storing a window leaves in the block. -/
theorem cells_copyFromSlice {b b' : Buf α} {start : ℕ} {values : List α}
    (hfit : start + values.length ≤ b.cells.length)
    (h : b.copyFromSlice start (start + values.length) 0 values = some b') :
    b'.cells.length = b.cells.length ∧
      (∀ t < values.length, b'.cells[start + t]? = values[t]?) ∧
      ∀ i, i < start ∨ start + values.length ≤ i → b'.cells[i]? = b.cells[i]? := by
  rw [copyFromSlice_eq (by omega) hfit] at h
  have hfst : ((List.range values.length).map fun i => (start + 0 + i, i)).map Prod.fst
      = (List.range values.length).map (start + ·) := by
    rw [List.map_map]
    rfl
  refine ⟨length_moveAll h, ?_, ?_⟩
  · intro t ht
    refine cells_moveAll_of_mem (r := t) h ?_ (by omega) ?_
    · rw [hfst]
      exact List.nodup_range.map fun a b hab => Nat.add_left_cancel hab
    · exact List.mem_map.mpr ⟨t, List.mem_range.mpr ht, rfl⟩
  · intro i hi
    apply cells_moveAll_of_notMem h
    rw [hfst]
    intro hmem
    obtain ⟨t, ht, rfl⟩ := List.mem_map.mp hmem
    have := List.mem_range.mp ht
    omega

end Moves

/-! ## Writing everything once -/

/-- A list of `n` positions that reaches every position below `n` is a rearrangement of
them. -/
theorem perm_range_of_cover {l : List ℕ} {n : ℕ} (hlen : l.length = n)
    (h : ∀ i < n, i ∈ l) : l.Perm (List.range n) := by
  have hsub : List.Subperm (List.range n) l :=
    List.subperm_of_subset List.nodup_range fun i hi => h i (List.mem_range.mp hi)
  exact (hsub.perm_of_length_le (by simp [hlen])).symm

end Buf

end PencilRs.Computation
