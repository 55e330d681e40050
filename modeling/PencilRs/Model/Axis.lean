import PencilRs.Computation.Loop
import PencilRs.Model.Geometry

/-!
# Axis permutations and decompositions

Both are arrays of distinct axes below `N`, checked by the same scan over a `seen` table.
The validated values carry what the scan establishes.

SOURCE: pencil-array/src/axis.rs, decomposition.rs
-/

set_option autoImplicit false

namespace PencilRs.Model

open PencilRs.Computation

inductive AxisError where
  | outOfBounds (axis dimensions : ℕ)
  | duplicate (axis : ℕ)
  | invalidDecompositionRank (spatialDimensions topologyDimensions : ℕ)
deriving Repr, DecidableEq

/-- One round of the scan: reject an axis outside `0..n` or already in `seen`, else mark it. -/
def markAxis (n : ℕ) (seen : ℕ → Bool) (axis : ℕ) : Except AxisError (ℕ → Bool) :=
  if axis ≥ n then .error (.outOfBounds axis n)
  else if seen axis then .error (.duplicate axis)
  else .ok (Function.update seen axis true)

/-- The scan shared by `AxisPermutation::new` and `Decomposition::new`.

SOURCE: axis.rs:48-60, decomposition.rs:19-31 -/
def checkDistinct (n : ℕ) (axes : List ℕ) : Except AxisError (ℕ → Bool) :=
  axes.foldlM (markAxis n) fun _ => false

theorem foldlM_markAxis {n : ℕ} {axes : List ℕ} {seen seen' : ℕ → Bool}
    (h : axes.foldlM (markAxis n) seen = .ok seen') :
    (∀ a ∈ axes, a < n ∧ seen a = false) ∧ axes.Nodup := by
  induction axes generalizing seen with
  | nil => simp
  | cons a axes ih =>
    rw [List.foldlM_cons] at h
    by_cases hn : a ≥ n
    · simp [markAxis, hn, bind, Except.bind] at h
    by_cases hs : seen a = true
    · simp [markAxis, hn, hs, bind, Except.bind] at h
    have hstep : markAxis n seen a = .ok (Function.update seen a true) := by
      simp [markAxis, hn, hs]
    rw [hstep] at h
    obtain ⟨hall, hnodup⟩ := ih h
    have ha : a ∉ axes := by
      intro hmem
      have := (hall a hmem).2
      rw [Function.update_self] at this
      contradiction
    refine ⟨?_, List.nodup_cons.mpr ⟨ha, hnodup⟩⟩
    intro b hb
    cases List.mem_cons.mp hb with
    | inl heq => subst heq; exact ⟨by omega, by simpa using hs⟩
    | inr hmem =>
      have hne : b ≠ a := ne_of_mem_of_not_mem hmem ha
      obtain ⟨hlt, hseen⟩ := hall b hmem
      rw [Function.update_of_ne hne] at hseen
      exact ⟨hlt, hseen⟩

theorem foldlM_markAxis_of_nodup {n : ℕ} {axes : List ℕ} {seen : ℕ → Bool}
    (hlt : ∀ a ∈ axes, a < n ∧ seen a = false) (hn : axes.Nodup) :
    ∃ seen', axes.foldlM (markAxis n) seen = .ok seen' := by
  induction axes generalizing seen with
  | nil => exact ⟨seen, rfl⟩
  | cons a axes ih =>
    obtain ⟨ha, hn⟩ := List.nodup_cons.mp hn
    obtain ⟨halt, haseen⟩ := hlt a (by simp)
    have hstep : markAxis n seen a = .ok (Function.update seen a true) := by
      simp [markAxis, Nat.not_le.mpr halt, haseen]
    have hrest : ∀ b ∈ axes, b < n ∧ Function.update seen a true b = false := by
      intro b hb
      rw [Function.update_of_ne (ne_of_mem_of_not_mem hb ha)]
      exact hlt b (by simp [hb])
    obtain ⟨seen', hrun⟩ := ih hrest hn
    refine ⟨seen', ?_⟩
    rw [List.foldlM_cons, hstep]
    exact hrun

/-- A list that passes the scan has distinct axes in range. -/
theorem checkDistinct_ok {n : ℕ} {axes : List ℕ} {seen : ℕ → Bool}
    (h : checkDistinct n axes = .ok seen) : (∀ a ∈ axes, a < n) ∧ axes.Nodup :=
  ⟨fun a ha => ((foldlM_markAxis h).1 a ha).1, (foldlM_markAxis h).2⟩

theorem checkDistinct_of_nodup {n : ℕ} {axes : List ℕ} (hlt : ∀ a ∈ axes, a < n)
    (hn : axes.Nodup) : ∃ seen, checkDistinct n axes = .ok seen :=
  foldlM_markAxis_of_nodup (fun a ha => ⟨hlt a ha, rfl⟩) hn

/-- A bijection from row-major memory positions to logical axes, with the inverse table the
constructor fills. -/
structure AxisPermutation (N : ℕ) where
  axesInMemoryOrder : Fin N → Fin N
  logicalToMemory : Fin N → ℕ
  inverse : ∀ position, logicalToMemory (axesInMemoryOrder position) = position

namespace AxisPermutation

variable {N : ℕ}

theorem ext_axes {p q : AxisPermutation N} (h : p.axesInMemoryOrder = q.axesInMemoryOrder) :
    p = q := by
  have hsurj : Function.Surjective p.axesInMemoryOrder := by
    apply Finite.injective_iff_surjective.mp
    intro a b hab
    have := congrArg p.logicalToMemory hab
    rw [p.inverse, p.inverse] at this
    exact Fin.ext this
  have hinv : p.logicalToMemory = q.logicalToMemory := by
    funext axis
    obtain ⟨position, rfl⟩ := hsurj axis
    rw [p.inverse, h, q.inverse]
  cases p
  cases q
  simp_all

/-- Derived equality of the source compares both arrays; the first decides. -/
instance : DecidableEq (AxisPermutation N) := fun p q =>
  decidable_of_iff (p.axesInMemoryOrder = q.axesInMemoryOrder)
    ⟨ext_axes, fun h => by rw [h]⟩

/-- The loop that fills `logical_to_memory`.

SOURCE: axis.rs:63-66 -/
def logicalToMemoryOf (axes : Fin N → Fin N) : Fin N → ℕ :=
  (List.finRange N).foldl (fun table position => Function.update table (axes position) position)
    fun _ => 0

theorem logicalToMemoryOf_inverse {axes : Fin N → Fin N} (hinj : Function.Injective axes)
    (position : Fin N) : logicalToMemoryOf axes (axes position) = position := by
  exact foldl_update_of_mem hinj Fin.val _ _ (List.mem_finRange position)

/-- Axes in memory order, validated.

SOURCE: axis.rs:45-72 -/
def new (axes : Fin N → ℕ) : Except AxisError (AxisPermutation N) :=
  match h : checkDistinct N (List.ofFn axes) with
  | .error e => .error e
  | .ok _ =>
    let hlt : ∀ position, axes position < N := fun position =>
      (checkDistinct_ok h).1 _ (by simp)
    let validated : Fin N → Fin N := fun position => ⟨axes position, hlt position⟩
    .ok {
      axesInMemoryOrder := validated
      logicalToMemory := logicalToMemoryOf validated
      inverse := logicalToMemoryOf_inverse fun a b hab =>
        List.nodup_ofFn.mp (checkDistinct_ok h).2 (congrArg Fin.val hab) }

/-- SOURCE: axis.rs:75-80 -/
def identity : AxisPermutation N where
  axesInMemoryOrder := id
  logicalToMemory := Fin.val
  inverse := fun _ => rfl

/-- Reorder logical-axis values into memory order.

SOURCE: axis.rs:110-114 -/
def permute {α : Type} (p : AxisPermutation N) (logical : Fin N → α) : Fin N → α :=
  fun position => logical (p.axesInMemoryOrder position)

@[simp] theorem permute_apply {α : Type} (p : AxisPermutation N) (logical : Fin N → α)
    (position : Fin N) : p.permute logical position = logical (p.axesInMemoryOrder position) :=
  rfl

theorem injective (p : AxisPermutation N) : Function.Injective p.axesInMemoryOrder := by
  intro a b hab
  have := congrArg p.logicalToMemory hab
  rw [p.inverse, p.inverse] at this
  exact Fin.ext this

theorem bijective (p : AxisPermutation N) : Function.Bijective p.axesInMemoryOrder :=
  Finite.injective_iff_bijective.mp p.injective

theorem surjective (p : AxisPermutation N) : Function.Surjective p.axesInMemoryOrder :=
  p.bijective.2

/-- Permuting does not change what is being multiplied. -/
theorem prod_permute (p : AxisPermutation N) (f : Fin N → ℕ) :
    (List.ofFn (p.permute f)).prod = (List.ofFn f).prod := by
  rw [List.prod_ofFn, List.prod_ofFn]
  exact Fintype.prod_bijective _ p.bijective _ _ fun _ => rfl

end AxisPermutation

/-- Distinct spatial axes in topology-axis order. -/
structure Decomposition (N M : ℕ) where
  axes : Fin M → Fin N
  injective : Function.Injective axes
  positive : 0 < M
deriving DecidableEq

namespace Decomposition

variable {N M : ℕ}

/-- SOURCE: decomposition.rs:11-39 -/
def new (axes : Fin M → ℕ) : Except AxisError (Decomposition N M) :=
  if hM : M = 0 ∨ M > N then .error (.invalidDecompositionRank N M)
  else
    match h : checkDistinct N (List.ofFn axes) with
    | .error e => .error e
    | .ok _ => .ok {
        axes := fun index => ⟨axes index, (checkDistinct_ok h).1 _ (by simp)⟩
        injective := fun a b hab =>
          List.nodup_ofFn.mp (checkDistinct_ok h).2 (congrArg Fin.val hab)
        positive := by omega }

theorem le_spatial (d : Decomposition N M) : M ≤ N := by
  simpa using Fintype.card_le_of_injective d.axes d.injective

/-- The axes of a decomposition pass the constructor's checks again. -/
theorem new_axes (d : Decomposition N M) : new (fun t => (d.axes t : ℕ)) = .ok d := by
  have hM : ¬ (M = 0 ∨ M > N) := by
    have := d.positive
    have := d.le_spatial
    omega
  have hlt : ∀ axis ∈ List.ofFn fun t => (d.axes t : ℕ), axis < N := by simp [List.mem_ofFn]
  obtain ⟨seen, hseen⟩ := checkDistinct_of_nodup hlt
    (List.nodup_ofFn.mpr fun a b hab => d.injective (Fin.ext hab))
  unfold new
  rw [dif_neg hM]
  split
  case h_1 e herr =>
    rw [hseen] at herr
    contradiction
  case h_2 => rfl

end Decomposition

end PencilRs.Model
