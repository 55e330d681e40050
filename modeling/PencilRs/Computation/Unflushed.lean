import Mathlib.Data.Fintype.Card
import PencilRs.Computation.Selection

/-!
# Writes that are not flushed

The writers of a call each write cells one after another.  Until they are flushed, any front part
of what each of them writes may be in the file, in any order; after the flush all of it is.
-/

set_option autoImplicit false

namespace PencilRs.Computation

variable {ι α : Type}

/-- What each writer of a call writes, cell by cell. -/
abbrev WriteCall (ι α : Type) : Type := ι → List (ℕ × α)

/-- The writes are front parts of what the writers of the calls write. -/
def Landed (calls : List (WriteCall ι α)) (writes : List (ℕ × α)) : Prop :=
  ∃ count : ℕ → ι → ℕ, ∀ w, w ∈ writes ↔
    ∃ k, ∃ call : WriteCall ι α, calls[k]? = some call ∧ ∃ i, w ∈ (call i).take (count k i)

/-- The writes are all writes of the calls. -/
def AllLanded (calls : List (WriteCall ι α)) (writes : List (ℕ × α)) : Prop :=
  ∀ w, w ∈ writes ↔ ∃ call ∈ calls, ∃ i, w ∈ call i

section Landing

variable {calls : List (WriteCall ι α)} {call : WriteCall ι α} {writes : List (ℕ × α)}

theorem landed_nil_iff : Landed ([] : List (WriteCall ι α)) writes ↔ writes = [] := by
  constructor
  · rintro ⟨_, h⟩
    apply List.eq_nil_iff_forall_not_mem.mpr
    intro w hw
    obtain ⟨k, call, hcall, _⟩ := (h w).mp hw
    rw [List.getElem?_nil] at hcall
    contradiction
  · rintro rfl
    refine ⟨fun _ _ => 0, fun w => ⟨fun hw => absurd hw List.not_mem_nil, ?_⟩⟩
    rintro ⟨k, call, hcall, _⟩
    rw [List.getElem?_nil] at hcall
    contradiction

/-- Of one call. -/
theorem landed_singleton (h : Landed [call] writes) :
    ∃ count : ι → ℕ, ∀ w, w ∈ writes ↔ ∃ i, w ∈ (call i).take (count i) := by
  obtain ⟨count, h⟩ := h
  refine ⟨count 0, fun w => (h w).trans ?_⟩
  constructor
  · rintro ⟨k, other, hother, hw⟩
    obtain ⟨hk, rfl⟩ := List.getElem?_eq_some_iff.mp hother
    obtain rfl : k = 0 := by simpa using hk
    exact hw
  · exact fun hw => ⟨0, call, rfl, hw⟩

/-- The last call apart. -/
theorem landed_append_iff : Landed (calls ++ [call]) writes ↔
    ∃ (count : ℕ → ι → ℕ) (last : ι → ℕ), ∀ w, w ∈ writes ↔
      (∃ k, ∃ other : WriteCall ι α, calls[k]? = some other ∧ ∃ i, w ∈ (other i).take (count k i)) ∨
        ∃ i, w ∈ (call i).take (last i) := by
  have hlast : (calls ++ [call])[calls.length]? = some call := by
    rw [List.getElem?_append_right le_rfl, Nat.sub_self]
    rfl
  constructor
  · rintro ⟨count, h⟩
    refine ⟨count, count calls.length, fun w => (h w).trans ⟨?_, ?_⟩⟩
    · rintro ⟨k, other, hother, hw⟩
      by_cases hk : k < calls.length
      · exact .inl ⟨k, other, by rwa [List.getElem?_append_left hk] at hother, hw⟩
      · have hlt := (List.getElem?_eq_some_iff.mp hother).1
        rw [List.length_append, List.length_singleton] at hlt
        obtain rfl : k = calls.length := by omega
        obtain rfl := Option.some.inj (hlast.symm.trans hother)
        exact .inr hw
    · rintro (⟨k, other, hother, hw⟩ | hw)
      · have hk := (List.getElem?_eq_some_iff.mp hother).1
        exact ⟨k, other, by rwa [List.getElem?_append_left hk], hw⟩
      · exact ⟨_, call, hlast, hw⟩
  · rintro ⟨count, last, h⟩
    refine ⟨fun k => if k < calls.length then count k else last, fun w => (h w).trans ⟨?_, ?_⟩⟩
    · rintro (⟨k, other, hother, hw⟩ | hw)
      · have hk := (List.getElem?_eq_some_iff.mp hother).1
        refine ⟨k, other, by rwa [List.getElem?_append_left hk], ?_⟩
        beta_reduce
        rwa [if_pos hk]
      · refine ⟨_, call, hlast, ?_⟩
        beta_reduce
        rwa [if_neg (lt_irrefl _)]
    · rintro ⟨k, other, hother, hw⟩
      beta_reduce at hw
      by_cases hk : k < calls.length
      · rw [if_pos hk] at hw
        exact .inl ⟨k, other, by rwa [List.getElem?_append_left hk] at hother, hw⟩
      · rw [if_neg hk] at hw
        have hlt := (List.getElem?_eq_some_iff.mp hother).1
        rw [List.length_append, List.length_singleton] at hlt
        obtain rfl : k = calls.length := by omega
        obtain rfl := Option.some.inj (hlast.symm.trans hother)
        exact .inr hw

/-- What lands of less is what may land. -/
theorem Landed.of_shorter {count : ι → ℕ}
    (h : Landed (calls ++ [fun i => (call i).take (count i)]) writes) :
    Landed (calls ++ [call]) writes := by
  obtain ⟨earlier, last, h⟩ := landed_append_iff.mp h
  refine landed_append_iff.mpr ⟨earlier, fun i => min (last i) (count i), fun w => ?_⟩
  simp only [h w, List.take_take]

theorem Landed.mem (h : Landed calls writes) {w : ℕ × α} (hw : w ∈ writes) :
    ∃ call ∈ calls, ∃ i, w ∈ call i := by
  obtain ⟨count, h⟩ := h
  obtain ⟨k, call, hcall, i, hw⟩ := (h w).mp hw
  exact ⟨call, List.mem_of_getElem? hcall, i, List.mem_of_mem_take hw⟩

theorem AllLanded.landed (h : AllLanded calls writes) : Landed calls writes := by
  refine ⟨fun k i => ((calls[k]?.map fun call => call i).getD []).length, fun w => (h w).trans ?_⟩
  constructor
  · rintro ⟨call, hcall, i, hw⟩
    obtain ⟨k, hk⟩ := List.mem_iff_getElem?.mp hcall
    refine ⟨k, call, hk, i, ?_⟩
    show w ∈ (call i).take ((calls[k]?.map fun call => call i).getD []).length
    rw [hk, Option.map_some, Option.getD_some, List.take_length]
    exact hw
  · rintro ⟨k, call, hk, i, hw⟩
    exact ⟨call, List.mem_of_getElem? hk, i, List.mem_of_mem_take hw⟩

/-- The writes of finitely many writers can all be in the file. -/
theorem exists_allLanded [Finite ι] (calls : List (WriteCall ι α)) :
    ∃ writes, AllLanded calls writes := by
  have := Fintype.ofFinite ι
  refine ⟨calls.flatMap fun call => (Finset.univ : Finset ι).toList.flatMap call, fun w => ?_⟩
  simp only [List.mem_flatMap, Finset.mem_toList, Finset.mem_univ, true_and]

end Landing

/-! ## Behind the end -/

section Behind

variable {fill : α} {cells : List α} {writes : List (ℕ × α)}

theorem length_pokeAll_le {n : ℕ} (h : ∀ w ∈ writes, w.1 < n) (hn : cells.length ≤ n) :
    (pokeAll fill cells writes).length ≤ n := by
  induction writes generalizing cells with
  | nil => exact hn
  | cons w writes ih =>
    have hw := h w List.mem_cons_self
    refine @ih (poke fill cells w.1 w.2) (fun v hv => h v (List.mem_cons_of_mem w hv)) ?_
    rw [length_poke]
    omega

/-- Writes at or behind a place leave what is in front of it. -/
theorem take_pokeAll {n : ℕ} (h : ∀ w ∈ writes, n ≤ w.1) (hn : n ≤ cells.length) :
    (pokeAll fill cells writes).take n = cells.take n := by
  induction writes generalizing cells with
  | nil => rfl
  | cons w writes ih =>
    have hw := h w List.mem_cons_self
    have hlen : cells.length ≤ (poke fill cells w.1 w.2).length := by
      rw [length_poke]
      exact Nat.le_max_left _ _
    have hrest := @ih (poke fill cells w.1 w.2) (fun v hv => h v (List.mem_cons_of_mem w hv))
      (hn.trans hlen)
    refine hrest.trans ?_
    apply List.ext_getElem?
    intro i
    by_cases hi : i < n
    · rw [List.getElem?_take_of_lt hi, List.getElem?_take_of_lt hi,
        getElem?_poke_of_ne (by omega) (by omega)]
    · rw [List.getElem?_eq_none (by rw [List.length_take]; omega),
        List.getElem?_eq_none (by rw [List.length_take]; omega)]

/-- **Writes behind the end** add at most as much as they reach. -/
theorem pokeAll_behind {n : ℕ} (h : ∀ w ∈ writes, cells.length ≤ w.1 ∧ w.1 < cells.length + n) :
    ∃ rest, pokeAll fill cells writes = cells ++ rest ∧ rest.length ≤ n := by
  have htake := @take_pokeAll _ fill _ _ _ (fun w hw => (h w hw).1) (le_refl cells.length)
  have hlen := @length_pokeAll_le _ fill _ _ (cells.length + n) (fun w hw => (h w hw).2)
    (Nat.le_add_right _ _)
  rw [List.take_length] at htake
  refine ⟨(pokeAll fill cells writes).drop cells.length, ?_, ?_⟩
  · conv_lhs => rw [← List.take_append_drop cells.length (pokeAll fill cells writes), htake]
  · rw [List.length_drop]
    omega

/-! ## Consecutive cells -/

variable {values : List α} {place : ℕ}

theorem mem_writesFrom {w : ℕ × α} :
    w ∈ writesFrom place values ↔ ∃ k, values[k]? = some w.2 ∧ w.1 = place + k := by
  unfold writesFrom
  rw [List.mem_map]
  constructor
  · rintro ⟨⟨value, k⟩, hmem, rfl⟩
    exact ⟨k, List.mem_zipIdx_iff_getElem?.mp hmem, rfl⟩
  · rintro ⟨k, hvalue, hplace⟩
    exact ⟨(w.2, k), List.mem_zipIdx_iff_getElem?.mpr hvalue, Prod.ext hplace.symm rfl⟩

theorem take_writesFrom (count : ℕ) :
    (writesFrom place values).take count = writesFrom place (values.take count) := by
  unfold writesFrom
  rw [← List.map_take]
  congr 1
  apply List.ext_getElem?
  intro k
  by_cases hk : k < count
  · rw [List.getElem?_take_of_lt hk, List.getElem?_zipIdx, List.getElem?_zipIdx,
      List.getElem?_take_of_lt hk]
  · rw [List.getElem?_eq_none (by rw [List.length_take]; omega),
      List.getElem?_eq_none (by rw [List.length_zipIdx, List.length_take]; omega)]

/-- **Consecutive cells behind the end** are appended. -/
theorem pokeAll_append (h : ∀ w, w ∈ writes ↔ w ∈ writesFrom cells.length values) :
    pokeAll fill cells writes = cells ++ values := by
  apply pokeAll_eq_content
  · rw [List.length_append]
    exact Nat.le_add_right _ _
  · intro w hw
    obtain ⟨k, hvalue, hplace⟩ := mem_writesFrom.mp ((h w).mp hw)
    rw [hplace, List.getElem?_append_right (Nat.le_add_right _ _), Nat.add_sub_cancel_left, hvalue]
  · intro i hi
    by_cases hin : i < cells.length
    · exact .inl (List.getElem?_append_left hin).symm
    · right
      rw [List.length_append] at hi
      refine ⟨(i, values[i - cells.length]), (h _).mpr (mem_writesFrom.mpr ⟨i - cells.length, ?_,
        ?_⟩), rfl⟩
      · exact List.getElem?_eq_getElem _
      · show i = cells.length + (i - cells.length)
        omega

/-- **A gap** in front of the first write is filled. -/
theorem pokeAll_gap {n : ℕ} (hne : writes ≠ []) (h : ∀ w ∈ writes, n ≤ w.1)
    (hn : cells.length ≤ n) : pokeAll fill cells writes
      = pokeAll fill (cells ++ List.replicate (n - cells.length) fill) writes := by
  obtain ⟨⟨first, value⟩, rest, rfl⟩ := List.exists_cons_of_ne_nil hne
  have hfirst : n ≤ first := h _ List.mem_cons_self
  have hlen : (cells ++ List.replicate (n - cells.length) fill).length = n := by
    rw [List.length_append, List.length_replicate]
    omega
  have hpoke : poke fill cells first value
      = poke fill (cells ++ List.replicate (n - cells.length) fill) first value := by
    have hsplit : List.replicate (first - cells.length) fill
        = List.replicate (n - cells.length) fill ++ List.replicate (first - n) fill := by
      rw [List.replicate_append_replicate]
      congr 1
      omega
    unfold poke
    rw [if_neg (by omega), if_neg (by omega), hlen, hsplit, ← List.append_assoc cells]
  show pokeAll fill (poke fill cells first value) rest = pokeAll fill (poke fill _ first value) rest
  rw [hpoke]

/-- **Consecutive cells** at or behind the end. -/
theorem pokeAll_behind_gap {n : ℕ} (hvalues : values ≠ [])
    (h : ∀ w, w ∈ writes ↔ w ∈ writesFrom n values) (hn : cells.length ≤ n) :
    pokeAll fill cells writes = cells ++ List.replicate (n - cells.length) fill ++ values := by
  have hlen : (cells ++ List.replicate (n - cells.length) fill).length = n := by
    rw [List.length_append, List.length_replicate]
    omega
  rw [pokeAll_gap (n := n) ?_ (fun w hw => ?_) hn]
  · apply pokeAll_append
    rwa [hlen]
  · rintro rfl
    obtain ⟨value, rest, rfl⟩ := List.exists_cons_of_ne_nil hvalues
    exact List.not_mem_nil ((h (n, value)).mpr (mem_writesFrom.mpr ⟨0, rfl, rfl⟩))
  · obtain ⟨k, _, hplace⟩ := mem_writesFrom.mp ((h w).mp hw)
    omega

end Behind

/-! ## One writer -/

section Only

variable [DecidableEq ι] {writer : ι} {place : ℕ} {values : List α} {writes : List (ℕ × α)}

/-- One of the writers writes consecutive cells. -/
def onlyFrom (writer : ι) (place : ℕ) (values : List α) : WriteCall ι α := fun i =>
  if i = writer then writesFrom place values else []

theorem mem_onlyFrom_take {count : ι → ℕ} {w : ℕ × α} :
    (∃ i, w ∈ (onlyFrom writer place values i).take (count i))
      ↔ w ∈ writesFrom place (values.take (count writer)) := by
  rw [← take_writesFrom]
  constructor
  · rintro ⟨i, hw⟩
    unfold onlyFrom at hw
    by_cases hi : i = writer
    · rwa [if_pos hi, hi] at hw
    · rw [if_neg hi, List.take_nil] at hw
      exact absurd hw List.not_mem_nil
  · intro hw
    refine ⟨writer, ?_⟩
    unfold onlyFrom
    rwa [if_pos rfl]

/-- What one writer has written so far. -/
theorem landed_onlyFrom (h : Landed [onlyFrom writer place values] writes) :
    ∃ count, ∀ w, w ∈ writes ↔ w ∈ writesFrom place (values.take count) := by
  obtain ⟨count, h⟩ := landed_singleton h
  exact ⟨count writer, fun w => (h w).trans mem_onlyFrom_take⟩

theorem allLanded_onlyFrom (h : AllLanded [onlyFrom writer place values] writes) (w : ℕ × α) :
    w ∈ writes ↔ w ∈ writesFrom place values := by
  rw [h w]
  constructor
  · rintro ⟨call, hcall, i, hw⟩
    obtain rfl := List.mem_singleton.mp hcall
    unfold onlyFrom at hw
    by_cases hi : i = writer
    · rwa [if_pos hi] at hw
    · rw [if_neg hi] at hw
      exact absurd hw List.not_mem_nil
  · intro hw
    refine ⟨_, List.mem_singleton_self _, writer, ?_⟩
    unfold onlyFrom
    rwa [if_pos rfl]

end Only

end PencilRs.Computation
