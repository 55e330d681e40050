import Mathlib.Tactic
import PencilRs.Computation.Literals

/-!
# Boxes of a row-major array

A box of an array takes a range on each axis; its cells are numbered in row-major order, and the
place of a cell is its number in the whole array.  A file or a dataset is written through such
places.  The writes of several writers leave one content, in whatever order they are made, where
each of them writes what the content has and together they leave no place out.
-/

set_option autoImplicit false

namespace PencilRs.Computation

/-- One axis of a box: the extent of the array, and the range of the box. -/
structure BoxAxis where
  extent : ℕ
  start : ℕ
  count : ℕ
deriving Repr, DecidableEq

namespace BoxAxis

/-- The range is inside the array. -/
def Inside (axis : BoxAxis) : Prop := axis.start + axis.count ≤ axis.extent

instance (axis : BoxAxis) : Decidable axis.Inside := inferInstanceAs (Decidable (_ ≤ _))

end BoxAxis

/-- The number of cells of a box. -/
def boxSize (axes : List BoxAxis) : ℕ := (axes.map BoxAxis.count).prod

/-- The number of cells of the array. -/
def arraySize (axes : List BoxAxis) : ℕ := (axes.map BoxAxis.extent).prod

/-- The place in the array of a cell of the box; the first axis is the slowest. -/
def boxPlace : List BoxAxis → ℕ → ℕ
  | [], _ => 0
  | axis :: axes, n => (axis.start + n / boxSize axes) * arraySize axes
      + boxPlace axes (n % boxSize axes)

@[simp] theorem boxSize_nil : boxSize [] = 1 := rfl

@[simp] theorem arraySize_nil : arraySize [] = 1 := rfl

theorem boxSize_cons (axis : BoxAxis) (axes : List BoxAxis) :
    boxSize (axis :: axes) = axis.count * boxSize axes := List.prod_cons

theorem arraySize_cons (axis : BoxAxis) (axes : List BoxAxis) :
    arraySize (axis :: axes) = axis.extent * arraySize axes := List.prod_cons

theorem boxSize_append (front back : List BoxAxis) :
    boxSize (front ++ back) = boxSize front * boxSize back := by
  unfold boxSize
  rw [List.map_append, List.prod_append]

theorem arraySize_append (front back : List BoxAxis) :
    arraySize (front ++ back) = arraySize front * arraySize back := by
  unfold arraySize
  rw [List.map_append, List.prod_append]

/-- Cells of a box are inside the array. -/
theorem boxPlace_lt {axes : List BoxAxis} (h : ∀ axis ∈ axes, axis.Inside) {n : ℕ}
    (hn : n < boxSize axes) : boxPlace axes n < arraySize axes := by
  induction axes generalizing n with
  | nil => exact Nat.one_pos
  | cons axis axes ih =>
    rw [boxSize_cons] at hn
    rw [arraySize_cons]
    have hpos : 0 < boxSize axes := Nat.pos_of_mul_pos_left (Nat.zero_lt_of_lt hn)
    have hrest := ih (fun a ha => h a (List.mem_cons_of_mem axis ha)) (Nat.mod_lt n hpos)
    have hindex : n / boxSize axes < axis.count := Nat.div_lt_of_lt_mul (by rwa [Nat.mul_comm])
    have hinside : axis.start + axis.count ≤ axis.extent := h axis List.mem_cons_self
    calc boxPlace (axis :: axes) n
        < (axis.start + n / boxSize axes) * arraySize axes + arraySize axes :=
          Nat.add_lt_add_left hrest _
      _ = (axis.start + n / boxSize axes + 1) * arraySize axes := by ring
      _ ≤ axis.extent * arraySize axes := Nat.mul_le_mul_right _ (by omega)

/-- The cells of a box whose cells are boxes themselves. -/
theorem boxPlace_append {front back : List BoxAxis} {n m : ℕ} (hn : n < boxSize front)
    (hm : m < boxSize back) :
    boxPlace (front ++ back) (n * boxSize back + m)
      = boxPlace front n * arraySize back + boxPlace back m := by
  have hpos : 0 < boxSize back := Nat.zero_lt_of_lt hm
  induction front generalizing n with
  | nil =>
    obtain rfl : n = 0 := Nat.lt_one_iff.mp hn
    rw [List.nil_append, Nat.zero_mul, Nat.zero_add]
    show _ = 0 * _ + _
    rw [Nat.zero_mul, Nat.zero_add]
  | cons axis front ih =>
    rw [boxSize_cons] at hn
    have hfront : 0 < boxSize front := Nat.pos_of_mul_pos_left (Nat.zero_lt_of_lt hn)
    have hwhole : (n * boxSize back + m) / boxSize back = n := by
      rw [Nat.mul_comm, Nat.mul_add_div hpos, Nat.div_eq_of_lt hm, Nat.add_zero]
    have hpart : (n * boxSize back + m) % boxSize back = m := by
      rw [Nat.mul_comm, Nat.mul_add_mod, Nat.mod_eq_of_lt hm]
    have hdiv : (n * boxSize back + m) / boxSize (front ++ back) = n / boxSize front := by
      rw [boxSize_append, Nat.mul_comm (boxSize front), ← Nat.div_div_eq_div_mul, hwhole]
    have hmod : (n * boxSize back + m) % boxSize (front ++ back)
        = n % boxSize front * boxSize back + m := by
      rw [boxSize_append, Nat.mul_comm (boxSize front), Nat.mod_mul, hwhole, hpart]
      ring
    rw [List.cons_append, boxPlace, boxPlace, hdiv, hmod, ih (Nat.mod_lt n hfront),
      arraySize_append]
    ring

/-- Every axis whole: the cells of the array itself. -/
theorem boxPlace_whole {axes : List BoxAxis}
    (h : ∀ axis ∈ axes, axis.start = 0 ∧ axis.count = axis.extent) {n : ℕ}
    (hn : n < boxSize axes) : boxPlace axes n = n := by
  induction axes generalizing n with
  | nil => exact (Nat.lt_one_iff.mp hn).symm
  | cons axis axes ih =>
    rw [boxSize_cons] at hn
    have hpos : 0 < boxSize axes := Nat.pos_of_mul_pos_left (Nat.zero_lt_of_lt hn)
    have hrest : ∀ a ∈ axes, a.start = 0 ∧ a.count = a.extent := fun a ha =>
      h a (List.mem_cons_of_mem axis ha)
    have hsize : arraySize axes = boxSize axes :=
      congrArg List.prod (List.map_congr_left fun a ha => (hrest a ha).2.symm)
    rw [boxPlace, ih hrest (Nat.mod_lt n hpos), (h axis List.mem_cons_self).1, Nat.zero_add, hsize]
    exact Nat.div_add_mod' n _

/-! ## Writing -/

section Writing

variable {α : Type}

/-- One write: past the end, the gap is filled. -/
def poke (fill : α) (cells : List α) (place : ℕ) (value : α) : List α :=
  if place < cells.length then cells.set place value
  else cells ++ List.replicate (place - cells.length) fill ++ [value]

/-- Writes in the order of a list. -/
def pokeAll (fill : α) (cells : List α) (writes : List (ℕ × α)) : List α :=
  writes.foldl (fun cells (place, value) => poke fill cells place value) cells

variable {fill value : α} {cells content : List α} {place : ℕ}

theorem length_poke : (poke fill cells place value).length = max cells.length (place + 1) := by
  unfold poke
  split
  · rw [List.length_set]
    omega
  · simp only [List.length_append, List.length_replicate, List.length_singleton]
    omega

theorem getElem?_poke_self : (poke fill cells place value)[place]? = some value := by
  unfold poke
  split
  · rename_i h
    rw [List.getElem?_set_self h]
  · rename_i h
    rw [List.getElem?_append_right (by simp; omega)]
    simp only [List.length_append, List.length_replicate]
    rw [show place - (cells.length + (place - cells.length)) = 0 by omega]
    rfl

/-- What is elsewhere stays. -/
theorem getElem?_poke_of_ne {i : ℕ} (hne : i ≠ place) (hi : i < cells.length) :
    (poke fill cells place value)[i]? = cells[i]? := by
  unfold poke
  split
  · rw [List.getElem?_set_ne fun h => hne h.symm]
  · rw [List.append_assoc, List.getElem?_append_left hi]

/-- **Writes that agree with one content**, and leave no place out, leave that content. -/
theorem pokeAll_eq_content {writes : List (ℕ × α)} (hlen : cells.length ≤ content.length)
    (hwrites : ∀ w ∈ writes, content[w.1]? = some w.2)
    (hcover : ∀ i < content.length, cells[i]? = content[i]? ∨ ∃ w ∈ writes, w.1 = i) :
    pokeAll fill cells writes = content := by
  induction writes generalizing cells with
  | nil =>
    apply List.ext_getElem?
    intro i
    by_cases hi : i < content.length
    · obtain h | ⟨w, hw, _⟩ := hcover i hi
      · exact h
      · exact absurd hw List.not_mem_nil
    · show cells[i]? = _
      rw [List.getElem?_eq_none (by omega), List.getElem?_eq_none (by omega)]
  | cons w writes ih =>
    have hw := hwrites w List.mem_cons_self
    have hplace : w.1 < content.length := (List.getElem?_eq_some_iff.mp hw).1
    refine @ih (poke fill cells w.1 w.2) ?_ 
      (fun v hv => hwrites v (List.mem_cons_of_mem w hv)) ?_
    · rw [length_poke]
      omega
    · intro i hi
      by_cases hi' : i = w.1
      · left
        rw [hi', getElem?_poke_self, hw]
      · obtain h | ⟨v, hv, rfl⟩ := hcover i hi
        · left
          have hin : i < cells.length := by
            rw [List.getElem?_eq_getElem hi] at h
            exact (List.getElem?_eq_some_iff.mp h).1
          rw [getElem?_poke_of_ne hi' hin, h]
        · obtain rfl | hv := List.mem_cons.mp hv
          · exact absurd rfl hi'
          · exact .inr ⟨v, hv, rfl⟩

/-- Values one after another, from a place on. -/
def writesFrom (place : ℕ) (values : List α) : List (ℕ × α) :=
  values.zipIdx.map fun (value, i) => (place + i, value)

/-- Read the cells at some places; none where one of them is past the end. -/
def readAll (cells : List α) (places : List ℕ) : Option (List α) :=
  places.mapM fun place => cells[place]?

end Writing

section Reading

variable {α β : Type} {cells values : List α} {places : List ℕ}

theorem readAll_cons {place : ℕ} :
    readAll cells (place :: places) = some values ↔
      ∃ value rest, cells[place]? = some value ∧ readAll cells places = some rest ∧
        values = value :: rest := by
  unfold readAll
  rw [List.mapM_cons, Option.bind_eq_bind, Option.bind_eq_some_iff]
  constructor
  · rintro ⟨value, hvalue, h⟩
    obtain ⟨rest, hrest, h⟩ := Option.bind_eq_some_iff.mp h
    exact ⟨value, rest, hvalue, hrest, (Option.some.inj h).symm⟩
  · rintro ⟨value, rest, hvalue, hrest, rfl⟩
    exact ⟨value, hvalue, Option.bind_eq_some_iff.mpr ⟨rest, hrest, rfl⟩⟩

theorem exists_readAll (h : ∀ place ∈ places, place < cells.length) :
    ∃ values, readAll cells places = some values := by
  induction places with
  | nil => exact ⟨[], rfl⟩
  | cons place places ih =>
    obtain ⟨rest, hrest⟩ := ih fun other hother => h other (List.mem_cons_of_mem place hother)
    exact ⟨_, readAll_cons.mpr ⟨_, rest, List.getElem?_eq_getElem (h place List.mem_cons_self),
      hrest, rfl⟩⟩

theorem length_readAll (h : readAll cells places = some values) :
    values.length = places.length := by
  induction places generalizing values with
  | nil =>
    obtain rfl := Option.some.inj h
    rfl
  | cons place places ih =>
    obtain ⟨value, rest, _, hrest, rfl⟩ := readAll_cons.mp h
    rw [List.length_cons, List.length_cons, ih hrest]

theorem getElem?_readAll (h : readAll cells places = some values) {n place : ℕ}
    (hplace : places[n]? = some place) : values[n]? = cells[place]? := by
  induction places generalizing values n with
  | nil => contradiction
  | cons first places ih =>
    obtain ⟨value, rest, hvalue, hrest, rfl⟩ := readAll_cons.mp h
    cases n with
    | zero =>
      obtain rfl := Option.some.inj hplace
      exact hvalue.symm
    | succ n => exact ih hrest hplace

theorem readAll_map (f : α → β) (h : readAll cells places = some values) :
    readAll (cells.map f) places = some (values.map f) := by
  induction places generalizing values with
  | nil =>
    obtain rfl := Option.some.inj h
    rfl
  | cons place places ih =>
    obtain ⟨value, rest, hvalue, hrest, rfl⟩ := readAll_cons.mp h
    refine readAll_cons.mpr ⟨f value, rest.map f, ?_, ih hrest, rfl⟩
    rw [List.getElem?_map, hvalue]
    rfl

end Reading

end PencilRs.Computation
