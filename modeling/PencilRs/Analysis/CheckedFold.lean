import PencilRs.Model.Header

/-!
# Products that stop at a zero

A product checked factor by factor overflows before a later zero can save it: what counts is the
product of the factors before the first zero.
-/

set_option autoImplicit false

namespace PencilRs.Analysis

open PencilRs.Computation PencilRs.Model PencilRs.Model.MpiIo

/-- The product of the factors before the first zero. -/
def leadingProd (values : List ℕ) : ℕ := (values.takeWhile (· ≠ 0)).prod

@[simp] theorem leadingProd_nil : leadingProd [] = 1 := rfl

theorem leadingProd_zero (values : List ℕ) : leadingProd (0 :: values) = 1 := by
  simp [leadingProd]

theorem leadingProd_cons {value : ℕ} (h : value ≠ 0) (values : List ℕ) :
    leadingProd (value :: values) = value * leadingProd values := by
  simp [leadingProd, h]

theorem leadingProd_pos (values : List ℕ) : 0 < leadingProd values := by
  refine List.prod_pos fun value hvalue => ?_
  have := List.all_eq_true.mp List.all_takeWhile value hvalue
  exact Nat.pos_of_ne_zero (by simpa using this)

theorem leadingProd_append {values : List ℕ} (h : ∀ value ∈ values, value ≠ 0) (more : List ℕ) :
    leadingProd (values ++ more) = values.prod * leadingProd more := by
  induction values with
  | nil => simp
  | cons value values ih =>
    rw [List.cons_append, leadingProd_cons (h value List.mem_cons_self),
      ih fun v hv => h v (List.mem_cons_of_mem _ hv), List.prod_cons, Nat.mul_assoc]

theorem leadingProd_of_pos {values : List ℕ} (h : ∀ value ∈ values, value ≠ 0) :
    leadingProd values = values.prod := by
  have := leadingProd_append h []
  rwa [List.append_nil, leadingProd_nil, Nat.mul_one] at this

theorem leadingProd_le_append (values more : List ℕ) :
    leadingProd values ≤ leadingProd (values ++ more) := by
  induction values with
  | nil => exact leadingProd_pos more
  | cons value values ih =>
    by_cases hzero : value = 0
    · rw [hzero, List.cons_append, leadingProd_zero, leadingProd_zero]
    · rw [List.cons_append, leadingProd_cons hzero, leadingProd_cons hzero]
      exact Nat.mul_le_mul_left value ih

/-- **A checked product** from a factor that fits. -/
theorem foldlM_checkedMul_eq_some {values : List ℕ} {acc n : ℕ} (hacc : acc < usizeLimit) :
    values.foldlM checkedMul acc = some n ↔
      n = acc * values.prod ∧ acc * leadingProd values < usizeLimit := by
  induction values generalizing acc with
  | nil =>
    rw [List.foldlM_nil, leadingProd_nil, List.prod_nil, Nat.mul_one]
    exact ⟨fun h => ⟨(Option.some.inj h).symm, hacc⟩, fun h => congrArg some h.1.symm⟩
  | cons value values ih =>
    rw [List.foldlM_cons, List.prod_cons, ← Nat.mul_assoc]
    by_cases hzero : value = 0
    · have hmul : checkedMul acc value = some 0 := by
        rw [checkedMul_eq_some, hzero, Nat.mul_zero]
        exact ⟨by decide, rfl⟩
      rw [hmul, hzero, leadingProd_zero, Nat.mul_one, Nat.mul_zero]
      refine (ih (by decide)).trans ?_
      rw [Nat.zero_mul, Nat.zero_mul]
      exact ⟨fun h => ⟨h.1, hacc⟩, fun h => ⟨h.1, by decide⟩⟩
    · rw [leadingProd_cons hzero, ← Nat.mul_assoc]
      by_cases hfit : acc * value < usizeLimit
      · rw [checkedMul_eq_some.mpr ⟨hfit, rfl⟩]
        exact ih hfit
      · have hle : acc * value ≤ acc * value * leadingProd values :=
          Nat.le_mul_of_pos_right _ (leadingProd_pos values)
        rw [checkedMul_eq_none.mpr (Nat.not_lt.mp hfit)]
        constructor
        · intro h
          contradiction
        · rintro ⟨_, hlt⟩
          omega

theorem checkedFold_eq_some {values : List ℕ} {n : ℕ} :
    checkedFold values = some n ↔ n = values.prod ∧ leadingProd values < usizeLimit := by
  unfold checkedFold
  rw [foldlM_checkedMul_eq_some (by decide), Nat.one_mul, Nat.one_mul]

theorem checkedFold_isSome {values : List ℕ} :
    (checkedFold values).isSome = true ↔ leadingProd values < usizeLimit := by
  rw [Option.isSome_iff_exists]
  constructor
  · rintro ⟨n, hn⟩
    exact (checkedFold_eq_some.mp hn).2
  · intro h
    exact ⟨_, checkedFold_eq_some.mpr ⟨rfl, h⟩⟩

theorem elementCount_eq_okOr (dims : List ℕ) :
    Model.elementCount dims = okOr (checkedFold dims) (.sizeLimit "element count") := by
  have hloop : ∀ acc, dims.foldlM
      (fun product extent => okOr (checkedMul product extent) (IoError.sizeLimit "element count"))
      acc = okOr (dims.foldlM checkedMul acc) (.sizeLimit "element count") := by
    induction dims with
    | nil => exact fun acc => rfl
    | cons extent dims ih =>
      intro acc
      rw [List.foldlM_cons, List.foldlM_cons]
      cases checkedMul acc extent with
      | none => rfl
      | some next => exact ih next
  exact hloop 1

theorem elementCount_eq_ok {dims : List ℕ} {n : ℕ} :
    Model.elementCount dims = .ok n ↔ n = dims.prod ∧ leadingProd dims < usizeLimit := by
  rw [elementCount_eq_okOr, okOr_eq_ok, checkedFold_eq_some]

end PencilRs.Analysis
