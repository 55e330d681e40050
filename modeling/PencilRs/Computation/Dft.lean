import PencilRs.Computation.AxisMap

/-!
# Discrete Fourier transforms

The transform of a line against the powers of a root of unity, and the transform of an array over
some of its axes.  One axis after the other gives the transform over all of them, in any order.
-/

set_option autoImplicit false

namespace PencilRs.Computation

variable {ι K : Type}

/-! ## Lines -/

section Lines

variable [CommRing K]

/-- The sums of a line against the powers of `ω`. -/
def dftLine (ω : K) (values : List K) : List K :=
  (List.range values.length).map fun k =>
    ∑ j ∈ Finset.range values.length, values.getD j 0 * ω ^ (j * k)

@[simp] theorem length_dftLine (ω : K) (values : List K) :
    (dftLine ω values).length = values.length := by
  unfold dftLine
  rw [List.length_map, List.length_range]

theorem getElem?_dftLine {ω : K} {values : List K} {k : ℕ} (hk : k < values.length) :
    (dftLine ω values)[k]? = some (∑ j ∈ Finset.range values.length, values.getD j 0 * ω ^ (j * k))
    := by
  unfold dftLine
  rw [List.getElem?_map, List.getElem?_range hk]
  rfl

theorem homogeneous_dftLine (ω : K) : Homogeneous (dftLine ω) := by
  intro c values
  unfold dftLine
  rw [List.length_map, List.map_map]
  refine List.map_congr_left fun k _ => ?_
  rw [Function.comp_apply, Finset.mul_sum]
  refine Finset.sum_congr rfl fun j hj => ?_
  rw [List.getD_eq_getElem?_getD, List.getD_eq_getElem?_getD, List.getElem?_map,
    List.getElem?_eq_getElem (Finset.mem_range.mp hj)]
  exact mul_assoc ..

theorem alongAxis_dftLine [DecidableEq ι] {axis : ι} {n : ℕ} (ω : K) (array : (ι → ℕ) → K) {g : ι → ℕ}
    (hg : g axis < n) :
    alongAxis axis n (dftLine ω) array g
      = ∑ j ∈ Finset.range n, array (Function.update g axis j) * ω ^ (j * g axis) := by
  unfold alongAxis
  rw [getElem?_dftLine (by rwa [List.length_ofFn]), Option.getD_some, List.length_ofFn]
  refine Finset.sum_congr rfl fun j hj => ?_
  rw [List.getD_eq_getElem?_getD, List.getElem?_ofFn, dif_pos (Finset.mem_range.mp hj)]
  rfl

theorem homogeneous_map_mul (c : K) : Homogeneous (fun values : List K => values.map (· * c)) := by
  intro d values
  simp only [List.map_map]
  refine List.map_congr_left fun value _ => ?_
  rw [Function.comp_apply, Function.comp_apply, mul_assoc]

theorem Homogeneous.comp {transform transform' : List K → List K} (h : Homogeneous transform')
    (h' : Homogeneous transform) : Homogeneous (transform' ∘ transform) := by
  intro c values
  rw [Function.comp_apply, h', h, Function.comp_apply]

end Lines

section Field

variable [Field K]

/-- The powers of a root of unity other than one sum to zero. -/
theorem sum_pow_eq_zero {x : K} {n : ℕ} (hone : x ≠ 1) (hx : x ^ n = 1) :
    ∑ k ∈ Finset.range n, x ^ k = 0 := by
  have h : (x - 1) * ∑ k ∈ Finset.range n, x ^ k = 0 := by rw [mul_geom_sum, hx, sub_self]
  exact (mul_eq_zero.mp h).resolve_left (sub_ne_zero.mpr hone)

theorem sum_pow_primitiveRoot {ω : K} {n j l : ℕ} (hω : IsPrimitiveRoot ω n) (hj : j < n)
    (hl : l < n) :
    ∑ k ∈ Finset.range n, ω ^ (j * k) * ω⁻¹ ^ (k * l) = if j = l then (n : K) else 0 := by
  have hzero : ω ≠ 0 := hω.ne_zero (by omega)
  have hterm : ∀ k, ω ^ (j * k) * ω⁻¹ ^ (k * l) = (ω ^ j * ω⁻¹ ^ l) ^ k := by
    intro k
    rw [mul_pow, ← pow_mul, ← pow_mul, Nat.mul_comm k l]
  simp only [hterm]
  split
  · rename_i heq
    subst heq
    have hunit : ω ^ j * ω⁻¹ ^ j = 1 := by
      rw [inv_pow]
      exact mul_inv_cancel₀ (pow_ne_zero j hzero)
    simp only [hunit, one_pow, Finset.sum_const, Finset.card_range, nsmul_eq_mul, mul_one]
  · rename_i hne
    apply sum_pow_eq_zero
    · intro hone
      apply hne
      apply hω.pow_inj hj hl
      rw [inv_pow] at hone
      exact eq_of_mul_inv_eq_one hone
    · rw [mul_pow, ← pow_mul, ← pow_mul, Nat.mul_comm j n, Nat.mul_comm l n, pow_mul, pow_mul,
        hω.pow_eq_one, inv_pow, hω.pow_eq_one]
      simp

/-- **The reverse transform** of a transformed line is a multiple of the line. -/
theorem dftLine_inv_dftLine {ω : K} {values : List K} (hω : IsPrimitiveRoot ω values.length) :
    dftLine ω⁻¹ (dftLine ω values) = values.map ((values.length : K) * ·) := by
  apply List.ext_getElem?
  intro l
  by_cases hl : l < values.length
  · rw [getElem?_dftLine (by rwa [length_dftLine]), List.getElem?_map,
      List.getElem?_eq_getElem hl, Option.map_some, length_dftLine]
    congr 1
    have hinner : ∀ k ∈ Finset.range values.length, (dftLine ω values).getD k 0 * ω⁻¹ ^ (k * l)
        = ∑ j ∈ Finset.range values.length,
            values.getD j 0 * (ω ^ (j * k) * ω⁻¹ ^ (k * l)) := by
      intro k hk
      rw [List.getD_eq_getElem?_getD, getElem?_dftLine (Finset.mem_range.mp hk), Option.getD_some,
        Finset.sum_mul]
      exact Finset.sum_congr rfl fun j _ => mul_assoc ..
    rw [Finset.sum_congr rfl hinner, Finset.sum_comm]
    simp only [← Finset.mul_sum]
    rw [Finset.sum_congr rfl fun j hj => by
      rw [sum_pow_primitiveRoot hω (Finset.mem_range.mp hj) hl]]
    simp only [mul_ite, mul_zero, Finset.sum_ite_eq', Finset.mem_range, hl, if_true]
    rw [List.getD_eq_getElem?_getD, List.getElem?_eq_getElem hl, Option.getD_some, mul_comm]
  · rw [List.getElem?_eq_none (by simpa using hl), List.getElem?_eq_none (by simpa using hl)]

end Field

/-! ## Arrays -/

section Arrays

variable [CommRing K] [DecidableEq ι] [Fintype ι]

/-- The indices that a transform over `selected` sums: all on the selected axes, `g` on the
others. -/
def summedIndices (shape : ι → ℕ) (selected : Finset ι) (g : ι → ℕ) : Finset (ι → ℕ) :=
  Fintype.piFinset fun axis => if axis ∈ selected then Finset.range (shape axis) else {g axis}

/-- The transform of an array over the selected axes, each against the powers of its own root. -/
def multiDft (shape : ι → ℕ) (root : ι → K) (selected : Finset ι) (array : (ι → ℕ) → K)
    (g : ι → ℕ) : K :=
  ∑ h ∈ summedIndices shape selected g, array h * ∏ axis ∈ selected, root axis ^ (h axis * g axis)

theorem multiDft_empty (shape : ι → ℕ) (root : ι → K) (array : (ι → ℕ) → K) :
    multiDft shape root ∅ array = array := by
  funext g
  have hindices : summedIndices shape ∅ g = {g} := by
    ext h
    simp [summedIndices, funext_iff]
  unfold multiDft
  rw [hindices]
  simp

/-- **One more axis.** -/
theorem alongAxis_multiDft {shape : ι → ℕ} {root : ι → K} {selected : Finset ι} {axis : ι}
    (haxis : axis ∉ selected) (array : (ι → ℕ) → K) {g : ι → ℕ} (hg : g axis < shape axis) :
    alongAxis axis (shape axis) (dftLine (root axis)) (multiDft shape root selected array) g
      = multiDft shape root (insert axis selected) array g := by
  rw [alongAxis_dftLine _ _ hg]
  -- The indices of the larger sum are grouped by their place on the new axis.
  have hmaps : ∀ h ∈ summedIndices shape (insert axis selected) g,
      h axis ∈ Finset.range (shape axis) := by
    intro h hmem
    have := Fintype.mem_piFinset.mp hmem axis
    rwa [if_pos (Finset.mem_insert_self ..)] at this
  have hgroup : ∀ j ∈ Finset.range (shape axis),
      (summedIndices shape (insert axis selected) g).filter (fun h => h axis = j)
        = summedIndices shape selected (Function.update g axis j) := by
    intro j hj
    ext h
    simp only [summedIndices, Finset.mem_filter, Fintype.mem_piFinset]
    constructor
    · rintro ⟨hmem, rfl⟩ a
      by_cases ha : a = axis
      · subst ha
        rw [if_neg haxis, Function.update_self]
        exact Finset.mem_singleton_self _
      · have := hmem a
        rw [Function.update_of_ne ha]
        simpa only [Finset.mem_insert, ha, false_or] using this
    · intro hmem
      have hat := hmem axis
      rw [if_neg haxis, Function.update_self, Finset.mem_singleton] at hat
      refine ⟨fun a => ?_, hat⟩
      by_cases ha : a = axis
      · subst ha
        rw [if_pos (Finset.mem_insert_self ..), hat]
        exact hj
      · have := hmem a
        rw [Function.update_of_ne ha] at this
        simpa only [Finset.mem_insert, ha, false_or] using this
  unfold multiDft
  rw [← Finset.sum_fiberwise_of_maps_to hmaps]
  refine Finset.sum_congr rfl fun j hj => ?_
  rw [hgroup j hj, Finset.sum_mul]
  refine Finset.sum_congr rfl fun h hmem => ?_
  have hat : h axis = j := by
    have := Fintype.mem_piFinset.mp hmem axis
    rwa [if_neg haxis, Function.update_self, Finset.mem_singleton] at this
  have hfactors : ∏ a ∈ selected, root a ^ (h a * Function.update g axis j a)
      = ∏ a ∈ selected, root a ^ (h a * g a) := by
    refine Finset.prod_congr rfl fun a ha => ?_
    rw [Function.update_of_ne]
    rintro rfl
    exact haxis ha
  rw [hfactors, Finset.prod_insert haxis, hat]
  ring

/-- **One axis after the other** is the transform over all selected axes. -/
theorem alongAxes_dft {shape : ι → ℕ} {root : ι → K} {selected : Finset ι}
    {transform : ι → List K → List K} (hselected : ∀ a ∈ selected, transform a = dftLine (root a))
    (hother : ∀ a ∉ selected, transform a = id) {axes : List ι} (hnodup : axes.Nodup)
    (array : (ι → ℕ) → K) {g : ι → ℕ} (hg : ∀ a, g a < shape a) :
    alongAxes shape transform axes array g
      = multiDft shape root (selected ∩ axes.toFinset) array g := by
  induction axes generalizing g with
  | nil => rw [alongAxes_nil, List.toFinset_nil, Finset.inter_empty, multiDft_empty]
  | cons axis axes ih =>
    obtain ⟨haxis, hnodup⟩ := List.nodup_cons.mp hnodup
    rw [alongAxes_cons, alongAxis_congr (fun g hg => ih hnodup hg) hg, List.toFinset_cons]
    by_cases hmem : axis ∈ selected
    · have hnew : axis ∉ selected ∩ axes.toFinset := by simp [haxis]
      rw [hselected axis hmem, alongAxis_multiDft hnew array (hg axis),
        Finset.inter_insert_of_mem hmem]
    · rw [hother axis hmem, alongAxis_id (hg axis), Finset.inter_insert_of_notMem hmem]

end Arrays

end PencilRs.Computation
