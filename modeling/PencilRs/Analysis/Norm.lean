import Mathlib.Analysis.SpecialFunctions.Sqrt
import PencilRs.Computation.Loop
import PencilRs.Model.Norm

/-!
# Norms do not depend on the order

In exact arithmetic a state always holds the sum of the squares of the values it took, and the
ranks together return the norm of all values, however these are distributed and in whatever order
they come.
-/

set_option autoImplicit false

namespace PencilRs.Analysis

open PencilRs.Computation PencilRs.Model PencilRs.Model.Norm

/-! ## Finite values -/

/-- No part is infinite or NaN. -/
def IsFinite : Scalar ℝ → Prop
  | .real x => ∃ a, x = .finite a
  | .complex re im => (∃ a, re = .finite a) ∧ ∃ b, im = .finite b

/-- The absolute value of a finite value. -/
noncomputable def magnitude : Scalar ℝ → ℝ
  | .real (.finite x) => |x|
  | .complex (.finite x) (.finite y) => √(x * x + y * y)
  | _ => 0

theorem magnitude_nonneg (value : Scalar ℝ) : 0 ≤ magnitude value := by
  unfold magnitude
  split
  · exact abs_nonneg _
  · exact Real.sqrt_nonneg _
  · exact le_rfl

theorem normAbs_eq {value : Scalar ℝ} (h : IsFinite value) :
    normAbs Real.sqrt value = .finite (magnitude value) := by
  cases value with
  | real x =>
    obtain ⟨a, rfl⟩ := h
    rfl
  | complex re im =>
    obtain ⟨⟨a, rfl⟩, b, rfl⟩ := h
    rfl

theorem nonfiniteFlags_eq {value : Scalar ℝ} (h : IsFinite value) : nonfiniteFlags value = 0 := by
  cases value with
  | real x =>
    obtain ⟨a, rfl⟩ := h
    funext j
    fin_cases j <;> rfl
  | complex re im =>
    obtain ⟨⟨a, rfl⟩, b, rfl⟩ := h
    funext j
    fin_cases j <;> rfl

theorem mergeFlags_zero : mergeFlags 0 0 = 0 := rfl

theorem valuesNonfiniteFlags_eq {values : List (Scalar ℝ)} (h : ∀ v ∈ values, IsFinite v) :
    valuesNonfiniteFlags values = 0 := by
  unfold valuesNonfiniteFlags
  induction values with
  | nil => rfl
  | cons value values ih =>
    rw [List.foldl_cons, nonfiniteFlags_eq (h value List.mem_cons_self), mergeFlags_zero]
    exact ih fun v hv => h v (List.mem_cons_of_mem value hv)

theorem divide_eq {x y : ℝ} (h : y ≠ 0) : divide x y = .ok (x / y) := if_neg h

/-! ## One rank -/

/-- The state of some finite values: no flags, and the sum of their squares. -/
structure Accumulates (values : List (Scalar ℝ)) (state : NormState ℝ) : Prop where
  flags : state.flags = 0
  sum : ∃ core : ScaledSquares ℝ, state.scale = core.scale ∧ state.ssq = core.ssq ∧
    core.Holds (values.map magnitude)

/-- **One push** of a finite value divides by no zero and keeps the sum. -/
theorem push_eq {values : List (Scalar ℝ)} {state : NormState ℝ} (h : Accumulates values state)
    {value : Scalar ℝ} (hvalue : IsFinite value) :
    ∃ next, push Real.sqrt state value = .ok next ∧ Accumulates (values ++ [value]) next := by
  obtain ⟨hflags, ⟨scale, sum⟩, hscale, hssq, hcore⟩ := h
  obtain ⟨_, _, flags⟩ := state
  simp only at hflags hscale hssq
  subst hflags hscale hssq
  have hmap : (values ++ [value]).map magnitude = values.map magnitude ++ [magnitude value] :=
    List.map_append
  have hnonneg := magnitude_nonneg value
  unfold push
  simp only [normAbs_eq hvalue, nonfiniteFlags_eq hvalue, mergeFlags_zero]
  by_cases hzero : magnitude value = 0
  · refine ⟨_, if_pos hzero, rfl, ⟨scale, _⟩, rfl, rfl, ?_⟩
    rw [hmap, hzero]
    exact hcore.skip
  · have hpos : 0 < magnitude value := lt_of_le_of_ne hnonneg (Ne.symm hzero)
    have hpush := hcore.push hpos
    rw [← hmap] at hpush
    unfold ScaledSquares.push at hpush
    rw [if_neg hzero]
    by_cases hnew : scale < magnitude value
    · rw [if_pos hnew] at hpush ⊢
      rw [divide_eq hzero]
      exact ⟨_, rfl, rfl, _, rfl, rfl, hpush⟩
    · have hne : scale ≠ 0 := by
        intro h
        exact hnew (h ▸ hpos)
      rw [if_neg hnew] at hpush ⊢
      rw [divide_eq hne]
      exact ⟨_, rfl, rfl, _, rfl, rfl, hpush⟩

/-- **All values of a rank.** -/
theorem pushAll_eq {values : List (Scalar ℝ)} (hfinite : ∀ v ∈ values, IsFinite v) :
    ∃ state, pushAll Real.sqrt values = .ok state ∧ Accumulates values state := by
  refine foldlM_list_inv (push Real.sqrt) Accumulates values NormState.default
    ⟨rfl, .empty, rfl, rfl, ScaledSquares.holds_empty⟩ fun visited value hvisited state hstate => ?_
  refine push_eq hstate (hfinite value (hvisited.subset ?_))
  exact List.mem_append_right visited List.mem_cons_self

/-! ## All ranks -/

section Ranks

variable {ι : Type} [Fintype ι]

/-- What the ranks have, one rank after the other. -/
noncomputable def gathered {α : Type} (values : ι → List α) : List α :=
  Finset.univ.toList.flatMap values

theorem mem_gathered {α : Type} {values : ι → List α} {a : α} :
    a ∈ gathered values ↔ ∃ c, a ∈ values c := by
  simp [gathered]

theorem map_gathered {α β : Type} (f : α → β) (values : ι → List α) :
    (gathered values).map f = gathered fun c => (values c).map f :=
  List.map_flatMap

/-- Whatever the order of the ranks, their sum is the same. -/
theorem sum_order {order : List ι} (hnodup : order.Nodup) (hall : ∀ d, d ∈ order) (f : ι → ℝ) :
    (order.map f).foldl (· + ·) 0 = ∑ d, f d := by
  classical
  have huniv : order.toFinset = Finset.univ := by
    ext d
    simpa using hall d
  rw [← List.sum_eq_foldl, ← List.sum_toFinset f hnodup, huniv]

theorem squareSum_gathered (magnitudes : ι → List ℝ) :
    squareSum (gathered magnitudes) = ∑ d, squareSum (magnitudes d) := by
  unfold squareSum
  rw [map_gathered]
  unfold gathered
  rw [List.flatMap_def, List.sum_flatten, List.map_map, ← Finset.sum_map_toList]
  rfl

theorem length_gathered {α : Type} (values : ι → List α) :
    (gathered values).length = ∑ d, (values d).length := by
  unfold gathered
  rw [List.length_flatMap, Finset.sum_map_toList]

/-- The greatest peak of the ranks is the peak of everything. -/
theorem peak_gathered {magnitudes : ι → List ℝ} {greatest : ℝ}
    (h : IsGreatest (Set.range fun d => peak (magnitudes d)) greatest) :
    greatest = peak (gathered magnitudes) := by
  apply le_antisymm
  · obtain ⟨d, rfl⟩ := h.1
    refine peak_le (peak_nonneg _) fun a ha => le_peak (mem_gathered.mpr ⟨d, ha⟩)
  · obtain ⟨d, hd⟩ := h.1
    refine peak_le (hd ▸ peak_nonneg _) fun a ha => ?_
    obtain ⟨e, he⟩ := mem_gathered.mp ha
    exact (le_peak he).trans (h.2 ⟨e, rfl⟩)

variable [Nonempty ι]

/-- Every rank returns `result`. -/
abbrev Returns (program : ι → NormProgram ℝ (Number ℝ)) (result : Number ℝ) : Prop :=
  (reducing ℝ ι).Correct (fun _ _ _ => True) (fun _ => True) (fun _ => False)
    (fun r _ => r = fun _ => .ok result) ⟨(), fun c => (program c).run⟩

abbrev Yields (program : ι → NormProgram ℝ (Number ℝ)) (result : Number ℝ) : Prop :=
  (reducing ℝ ι).Ensures (fun _ _ _ => True) (fun _ => True) (fun _ => False)
    (fun r _ => r = fun _ => .ok result) () fun c => (program c).run

omit [Fintype ι] [Nonempty ι] in
theorem yields_pure (result : Number ℝ) :
    Yields (fun _ : ι => (return result : NormProgram ℝ (Number ℝ))) result :=
  .returned _ (fun _ => rfl) trivial rfl

omit [Fintype ι] in
/-- No rank saw anything infinite or NaN. -/
theorem collectiveFlags_bind {f : ι → Flags → NormProgram ℝ (Number ℝ)} {result : Number ℝ}
    (h : Yields (fun c => f c 0) result) :
    Yields (fun c => collectiveFlags 0 >>= f c) result := by
  refine .perform_bind trivial trivial (fun _ h => h.elim) ?_ fun replies _ hround => ?_
  · exact ⟨fun _ => 0, (), fun _ j => ⟨⟨Classical.arbitrary ι, rfl⟩, fun _ ⟨_, h⟩ => h ▸ le_rfl⟩⟩
  · have hzero : replies = fun _ => 0 := by
      funext c j
      obtain ⟨_, hd⟩ := (hround c j).1
      exact hd.symm
    rw [hzero]
    exact h

/-- The greatest scale of the ranks. -/
theorem allReduceMax_bind (magnitudes : ι → List ℝ) {scale : ι → WithTop ℝ}
    {f : ι → WithTop ℝ → NormProgram ℝ (Number ℝ)} {result : Number ℝ}
    (hscale : ∀ c, scale c = (peak (magnitudes c) : ℝ))
    (h : Yields (fun c => f c (peak (gathered magnitudes) : ℝ)) result) :
    Yields (fun c => allReduceMax (scale c) >>= f c) result := by
  obtain rfl : scale = fun c => ((peak (magnitudes c) : ℝ) : WithTop ℝ) := funext hscale
  refine .perform_bind trivial trivial (fun _ h => h.elim) ?_ fun replies _ hround => ?_
  · obtain ⟨d, hd⟩ := Finite.exists_max fun c => peak (magnitudes c)
    refine ⟨fun _ => (peak (magnitudes d) : ℝ), (), fun _ => ⟨⟨d, rfl⟩, ?_⟩⟩
    rintro _ ⟨e, rfl⟩
    exact WithTop.coe_le_coe.mpr (hd e)
  · have hpeak : replies = fun _ => ((peak (gathered magnitudes) : ℝ) : WithTop ℝ) := by
      funext c
      obtain ⟨⟨d, hd⟩, hgreatest⟩ := hround c
      have hall : IsGreatest (Set.range fun d => peak (magnitudes d)) (peak (magnitudes d)) := by
        refine ⟨⟨d, rfl⟩, ?_⟩
        rintro _ ⟨e, rfl⟩
        exact WithTop.coe_le_coe.mp ((hgreatest ⟨e, rfl⟩).trans hd.ge)
      rw [← hd, ← peak_gathered hall]
    rw [hpeak]
    exact h

omit [Nonempty ι] in
/-- The sum over the ranks. -/
theorem allReduceSum_bind (value : ι → ℝ) {f : ι → ℝ → NormProgram ℝ (Number ℝ)}
    {result : Number ℝ} (h : Yields (fun c => f c (∑ d, value d)) result) :
    Yields (fun c => allReduceSum (value c) >>= f c) result := by
  refine .perform_bind trivial trivial (fun _ h => h.elim) ?_ fun replies _ hround => ?_
  · exact ⟨fun _ => _, (), fun _ => ⟨Finset.univ.toList, Finset.nodup_toList _,
      fun d => Finset.mem_toList.mpr (Finset.mem_univ d), rfl⟩⟩
  · have hsum : replies = fun _ => ∑ d, value d := by
      funext c
      obtain ⟨order, hnodup, hall, hreply⟩ := hround c
      exact hreply.trans (sum_order hnodup hall value)
    rw [hsum]
    exact h

/-! ## The norm -/

/-- The norm of some values. -/
noncomputable def norm (values : List (Scalar ℝ)) : ℝ := √(squareSum (values.map magnitude))

theorem norm_perm {values values' : List (Scalar ℝ)} (h : values.Perm values') :
    norm values = norm values' := by
  unfold norm
  rw [squareSum_perm (h.map magnitude)]

theorem norm_eq_zero {values : List (Scalar ℝ)}
    (h : peak (values.map magnitude) = 0 ∨ values.length = 0) : norm values = 0 := by
  have hzero : squareSum (values.map magnitude) = 0 := by
    obtain h | h := h
    · refine squareSum_eq_zero (fun a ha => ?_) h
      obtain ⟨v, _, rfl⟩ := List.mem_map.mp ha
      exact magnitude_nonneg v
    · rw [List.length_eq_zero_iff.mp h]
      rfl
  rw [norm, hzero, Real.sqrt_zero]

omit [Nonempty ι] in
/-- A norm is put together from its scale and the scaled sums of the ranks. -/
theorem norm_of_scaled {values : ι → List (Scalar ℝ)} {greatest : ℝ} (hgreatest : 0 ≤ greatest)
    {scaled : ι → ℝ}
    (h : ∀ c, greatest * greatest * scaled c = squareSum ((values c).map magnitude)) :
    greatest * √(∑ d, scaled d) = norm (gathered values) := by
  have hsum : greatest * greatest * ∑ d, scaled d
      = squareSum ((gathered values).map magnitude) := by
    rw [map_gathered, squareSum_gathered, Finset.mul_sum]
    exact Finset.sum_congr rfl fun d _ => h d
  unfold norm
  rw [← hsum, Real.sqrt_mul (mul_self_nonneg greatest), Real.sqrt_mul_self hgreatest]

variable {values : ι → List (Scalar ℝ)}

/-- **The one-pass norm.** -/
theorem mappedNorm_yields (hfinite : ∀ c, ∀ v ∈ values c, IsFinite v) :
    Yields (fun c => mappedNorm Real.sqrt (values c) (∑ d, (values d).length))
      (.finite (norm (gathered values))) := by
  choose state hstate haccumulates using fun c => pushAll_eq (hfinite c)
  have hflags := fun c => (haccumulates c).flags
  choose core hscale hssq hcore using fun c => (haccumulates c).sum
  have hprogram : (fun c => mappedNorm Real.sqrt (values c) (∑ d, (values d).length))
      = fun c => (state c).finish Real.sqrt (∑ d, (values d).length) := by
    funext c
    unfold mappedNorm
    rw [hstate c]
    rfl
  rw [hprogram]
  unfold NormState.finish
  simp only [hflags]
  refine collectiveFlags_bind ?_
  simp only [Pi.zero_apply, ne_eq, not_true_eq_false, or_self, if_false]
  refine allReduceMax_bind (fun c => (values c).map magnitude)
    (fun c => (hscale c).trans (congrArg _ (hcore c).scale)) ?_
  simp only [hscale, ← map_gathered]
  rw [← length_gathered]
  by_cases hzero : peak ((gathered values).map magnitude) = 0 ∨ (gathered values).length = 0
  · simp only [if_pos hzero]
    rw [norm_eq_zero hzero]
    exact yields_pure _
  · have hne := (not_or.mp hzero).1
    simp only [if_neg hzero, divide_eq hne, Fallible.ofExcept_ok_bind, hssq]
    refine allReduceSum_bind (fun c => (core c).rescaled _) ?_
    rw [norm_of_scaled (peak_nonneg _) fun c => (hcore c).rescaled hne]
    exact yields_pure _

/-- The greatest magnitude of a rank. -/
theorem foldl_maxNumber {values : List (Scalar ℝ)} (hfinite : ∀ v ∈ values, IsFinite v) :
    (values.map (normAbs Real.sqrt)).foldl maxNumber ((0 : ℝ) : WithTop ℝ)
      = (peak (values.map magnitude) : ℝ) := by
  have hfold : ∀ (values : List (Scalar ℝ)) (greatest : ℝ), (∀ v ∈ values, IsFinite v) →
      0 ≤ greatest → (values.map (normAbs Real.sqrt)).foldl maxNumber (greatest : WithTop ℝ)
        = (max greatest (peak (values.map magnitude)) : ℝ) := by
    intro values
    induction values with
    | nil =>
      intro greatest _ hnonneg
      exact congrArg _ (max_eq_left hnonneg).symm
    | cons value values ih =>
      intro greatest hfinite hnonneg
      have hvalue := hfinite value List.mem_cons_self
      have hmax : maxNumber greatest (normAbs Real.sqrt value)
          = ((max greatest (magnitude value) : ℝ) : WithTop ℝ) := by
        rw [normAbs_eq hvalue]
        exact (WithTop.coe_max _ _).symm
      rw [List.map_cons, List.foldl_cons, hmax,
        ih _ (fun v hv => hfinite v (List.mem_cons_of_mem value hv))
          (hnonneg.trans (le_max_left _ _)), List.map_cons, peak_cons, max_assoc]
  rw [hfold values 0 hfinite le_rfl]
  exact congrArg _ (max_eq_right (peak_nonneg _))

/-- The scaled sum of a rank. -/
theorem foldlM_addRatio {values : List (Scalar ℝ)} (hfinite : ∀ v ∈ values, IsFinite v)
    {greatest : ℝ} (hne : greatest ≠ 0) :
    ∃ scaled, values.foldlM (addRatio Real.sqrt greatest) 0 = .ok scaled ∧
      greatest * greatest * scaled = squareSum (values.map magnitude) := by
  refine foldlM_list_inv (addRatio Real.sqrt greatest) (fun visited scaled =>
    greatest * greatest * scaled = squareSum (visited.map magnitude)) values 0 (mul_zero _)
    fun visited value hvisited scaled hscaled => ?_
  have hvalue := hfinite value (hvisited.subset (List.mem_append_right visited List.mem_cons_self))
  refine ⟨scaled + magnitude value / greatest * (magnitude value / greatest), ?_, ?_⟩
  · unfold addRatio
    simp only [normAbs_eq hvalue, divide_eq hne]
    rfl
  · rw [List.map_append, squareSum_append, ← hscaled]
    simp only [squareSum, List.map_cons, List.map_nil, List.sum_cons, List.sum_nil]
    field_simp
    ring

/-- **The two-pass norm.** -/
theorem normValues_yields (hfinite : ∀ c, ∀ v ∈ values c, IsFinite v) :
    Yields (fun c => normValues Real.sqrt (values c) (∑ d, (values d).length))
      (.finite (norm (gathered values))) := by
  unfold normValues
  simp only [fun c => valuesNonfiniteFlags_eq (hfinite c)]
  refine collectiveFlags_bind ?_
  simp only [Pi.zero_apply, ne_eq, not_true_eq_false, or_self, if_false]
  refine allReduceMax_bind (fun c => (values c).map magnitude)
    (fun c => foldl_maxNumber (hfinite c)) ?_
  simp only [← map_gathered]
  rw [← length_gathered]
  by_cases hzero : peak ((gathered values).map magnitude) = 0 ∨ (gathered values).length = 0
  · simp only [if_pos hzero]
    rw [norm_eq_zero hzero]
    exact yields_pure _
  · have hne := (not_or.mp hzero).1
    choose scaled hscaled hsum using fun c => foldlM_addRatio (hfinite c) hne
    simp only [if_neg hzero, hscaled, Fallible.ofExcept_ok_bind]
    refine allReduceSum_bind scaled ?_
    rw [norm_of_scaled (peak_nonneg _) hsum]
    exact yields_pure _

end Ranks

/-- **Norms** are those of all values together.  A rank's state has the peak of its magnitudes as
its scale, and scale and sum together are the sum of the squares; the ranks return the norm of all
values, and so do the ranks of any other distribution of the same values in the other algorithm. -/
theorem norm_independent {ι κ : Type} [Fintype ι] [Nonempty ι] [Fintype κ] [Nonempty κ]
    (values : ι → List (Scalar ℝ)) (others : κ → List (Scalar ℝ))
    (hfinite : ∀ c, ∀ v ∈ values c, IsFinite v)
    (hperm : (gathered others).Perm (gathered values)) :
    (∀ c, ∃ state, pushAll Real.sqrt (values c) = .ok state ∧ Accumulates (values c) state) ∧
      Returns (fun c => mappedNorm Real.sqrt (values c) (∑ d, (values d).length))
        (.finite (norm (gathered values))) ∧
      Returns (fun c => mappedNorm Real.sqrt (others c) (∑ d, (others d).length))
        (.finite (norm (gathered values))) ∧
      Returns (fun c => normValues Real.sqrt (others c) (∑ d, (others d).length))
        (.finite (norm (gathered values))) := by
  have hothers : ∀ c, ∀ v ∈ others c, IsFinite v := by
    intro c v hv
    obtain ⟨d, hd⟩ := mem_gathered.mp (hperm.subset (mem_gathered.mpr ⟨c, hv⟩))
    exact hfinite d v hd
  have hsame := norm_perm hperm
  refine ⟨fun c => pushAll_eq (hfinite c), (mappedNorm_yields hfinite).correct, ?_, ?_⟩
  · rw [← hsame]
    exact (mappedNorm_yields hothers).correct
  · rw [← hsame]
    exact (normValues_yields hothers).correct

/-! ## The scale of complex values -/

/-- The absolute values of the real and the imaginary part. -/
def components : Scalar ℝ → List ℝ
  | .real (.finite x) => [max x (-x)]
  | .complex (.finite x) (.finite y) => [max x (-x), max y (-y)]
  | _ => []

/-- Three and four, as a complex number. -/
def threeFour : Scalar ℝ := .complex (.finite 3) (.finite 4)

theorem isFinite_threeFour : IsFinite threeFour := ⟨⟨3, rfl⟩, 4, rfl⟩

theorem magnitude_threeFour : magnitude threeFour = 5 := by
  have hsquare : (3 : ℝ) * 3 + 4 * 4 = 5 * 5 := by norm_num
  show √((3 : ℝ) * 3 + 4 * 4) = 5
  rw [hsquare, Real.sqrt_mul_self (by norm_num)]

/-- The scale of a complex value is its absolute value, not the greater of its parts. -/
theorem scale_ne_components : ¬ ∀ values : List (Scalar ℝ), (∀ v ∈ values, IsFinite v) →
    ∀ state, pushAll Real.sqrt values = .ok state →
      state.scale = (peak (values.flatMap components) : ℝ) := by
  intro h
  have hfinite : ∀ v ∈ [threeFour], IsFinite v := by
    intro v hv
    rw [List.mem_singleton.mp hv]
    exact isFinite_threeFour
  obtain ⟨state, hstate, _, core, hscale, _, hcore⟩ := pushAll_eq hfinite
  have hfive : state.scale = ((5 : ℝ) : WithTop ℝ) := by
    rw [hscale, hcore.scale, List.map_cons, magnitude_threeFour]
    norm_num [peak]
  have hfour := hfive.symm.trans (h _ hfinite state hstate)
  rw [WithTop.coe_eq_coe] at hfour
  norm_num [peak, components, threeFour] at hfour

theorem norm_independent_pair :
    Returns (fun _ : Unit => normValues Real.sqrt [threeFour, .real (.finite 3)] (∑ _ : Unit, 2))
      (.finite (norm (gathered fun _ : Unit => [.real (.finite 3), threeFour]))) := by
  refine (norm_independent (fun _ : Unit => [.real (.finite 3), threeFour])
    (fun _ : Unit => [threeFour, .real (.finite 3)]) ?_ ?_).2.2.2
  · intro _ v hv
    obtain rfl | hv := List.mem_cons.mp hv
    · exact ⟨3, rfl⟩
    · rw [List.mem_singleton.mp hv]
      exact isFinite_threeFour
  · unfold gathered
    exact List.Perm.flatMap_left _ fun _ _ => List.Perm.swap _ _ _

end PencilRs.Analysis
