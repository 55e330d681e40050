import Mathlib.Data.List.Basic
import Mathlib.Data.List.Range
import Mathlib.Data.List.Nodup
import Mathlib.Order.Monotone.Basic
import PencilRs.Computation.Literals

/-!
# Tilings

Segments `(offset, length)` tile an interval when they follow each other without gap or
overlap.  Enumerating the positions of the segments then enumerates the interval.
-/

set_option autoImplicit false

namespace PencilRs.Computation

/-- Segments `(offset, length)` that follow each other from `start` to `stop`. -/
def Tiles : ℕ → List (ℕ × ℕ) → ℕ → Prop
  | start, [], stop => start = stop
  | start, segment :: rest, stop => segment.1 = start ∧ Tiles (start + segment.2) rest stop

theorem tiles_append {start stop : ℕ} {l m : List (ℕ × ℕ)} :
    Tiles start (l ++ m) stop ↔ ∃ mid, Tiles start l mid ∧ Tiles mid m stop := by
  induction l generalizing start with
  | nil => simp [Tiles]
  | cons segment l ih =>
    rw [List.cons_append, Tiles, ih]
    constructor
    · rintro ⟨h, mid, hl, hm⟩
      exact ⟨mid, ⟨h, hl⟩, hm⟩
    · rintro ⟨mid, ⟨h, hl⟩, hm⟩
      exact ⟨h, mid, hl, hm⟩

/-- Segments between consecutive cuts tile. -/
theorem tiles_of_cuts (cut : ℕ → ℕ) (segment : ℕ → ℕ × ℕ) (n : ℕ)
    (h : ∀ k < n, segment k = (cut k, cut (k + 1) - cut k)) (hmono : Monotone cut) :
    Tiles (cut 0) ((List.range n).map segment) (cut n) := by
  induction n with
  | zero => rfl
  | succ n ih =>
    rw [List.range_succ, List.map_append, tiles_append]
    refine ⟨cut n, ih fun k hk => h k (by omega), ?_⟩
    have hle : cut n ≤ cut (n + 1) := hmono (Nat.le_succ n)
    rw [List.map_cons, List.map_nil, Tiles, Tiles, h n (by omega)]
    exact ⟨rfl, Nat.add_sub_of_le hle⟩

theorem Tiles.le {start stop : ℕ} {l : List (ℕ × ℕ)} (h : Tiles start l stop) : start ≤ stop := by
  induction l generalizing start with
  | nil => exact Nat.le_of_eq h
  | cons segment l ih =>
    have := ih h.2
    omega

theorem Tiles.end_le {start stop : ℕ} {l : List (ℕ × ℕ)} (h : Tiles start l stop)
    {segment : ℕ × ℕ} (hmem : segment ∈ l) : segment.1 + segment.2 ≤ stop := by
  induction l generalizing start with
  | nil => simp at hmem
  | cons first l ih =>
    obtain ⟨hstart, hrest⟩ := h
    cases List.mem_cons.mp hmem with
    | inl heq =>
      have := hrest.le
      subst heq
      omega
    | inr hin => exact ih hrest hin

/-- The positions of a segment. -/
def segmentPositions (segment : ℕ × ℕ) : List ℕ :=
  (List.range segment.2).map (segment.1 + ·)

@[simp] theorem length_segmentPositions (segment : ℕ × ℕ) :
    (segmentPositions segment).length = segment.2 := by
  simp [segmentPositions]

theorem mem_segmentPositions {segment : ℕ × ℕ} {i : ℕ} :
    i ∈ segmentPositions segment ↔ segment.1 ≤ i ∧ i < segment.1 + segment.2 := by
  simp only [segmentPositions, List.mem_map, List.mem_range]
  constructor
  · rintro ⟨t, ht, rfl⟩
    omega
  · rintro ⟨hle, hlt⟩
    exact ⟨i - segment.1, by omega, by omega⟩

theorem segmentPositions_append (start m n : ℕ) :
    segmentPositions (start, m) ++ segmentPositions (start + m, n)
      = segmentPositions (start, m + n) := by
  simp only [segmentPositions]
  rw [List.range_add, List.map_append, List.map_map]
  congr 1
  apply List.map_congr_left
  intro t _
  exact Nat.add_assoc start m t

/-- The positions of tiling segments are the positions of the whole. -/
theorem Tiles.positions {start stop : ℕ} {l : List (ℕ × ℕ)} (h : Tiles start l stop) :
    l.flatMap segmentPositions = segmentPositions (start, stop - start) := by
  induction l generalizing start with
  | nil =>
    have heq : start = stop := h
    subst heq
    simp [segmentPositions]
  | cons segment l ih =>
    obtain ⟨hstart, hrest⟩ := h
    have hle := hrest.le
    rw [List.flatMap_cons, ih hrest,
      show segment = (start, segment.2) from Prod.ext hstart rfl, segmentPositions_append]
    congr 2
    omega

/-- Equal blocks tile. -/
theorem tiles_blocks (start len n : ℕ) :
    Tiles start ((List.range n).map fun e => (start + e * len, len)) (start + n * len) := by
  have h := tiles_of_cuts (fun e => start + e * len) (fun e => (start + e * len, len)) n
    (fun e _ => by
      have hsucc : (e + 1) * len = e * len + len := Nat.succ_mul e len
      simp only [Prod.mk.injEq, true_and]
      omega)
    fun _ _ hle => Nat.add_le_add_left (Nat.mul_le_mul_right len hle) start
  simpa using h

end PencilRs.Computation
