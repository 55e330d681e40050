import PencilRs.Analysis.Pack
import PencilRs.Analysis.Preflight
import PencilRs.Model.RegionReference

/-!
# The corner of a region decides

The offset check of the preflight looks at one element of one block: the last corner of the
region in the last block.  Offsets grow with every index and every failure is the same error, so
on any input, however ill-formed, that element passes when all elements do.
-/

set_option autoImplicit false

namespace PencilRs.Analysis

open PencilRs.Computation PencilRs.Model

variable {N : ℕ}

/-! ## Checks with one error -/

/-- The check passes or fails in the one way the preflight fails. -/
def Verdict (r : Except TransposeError Unit) : Prop := r = .ok () ∨ r = .error .preparationFailed

theorem Verdict.eq {r r' : Except TransposeError Unit} (h : Verdict r) (h' : Verdict r')
    (hiff : r = .ok () ↔ r' = .ok ()) : r = r' := by
  obtain rfl | rfl := h
  · exact (hiff.mp rfl).symm
  · obtain rfl | rfl := h'
    · exact hiff.mpr rfl
    · rfl

theorem verdict_okOr {α : Type} (o : Option α) {f : α → Except TransposeError Unit}
    (hf : ∀ a, Verdict (f a)) : Verdict (okOr o .preparationFailed >>= f) := by
  cases o with
  | none => exact Or.inr rfl
  | some a => exact hf a

theorem verdict_mapError {ε α : Type} (r : Except ε α) {f : α → Except TransposeError Unit}
    (hf : ∀ a, Verdict (f a)) :
    Verdict (r.mapError (fun _ => TransposeError.preparationFailed) >>= f) := by
  cases r with
  | error e => exact Or.inr rfl
  | ok a => exact hf a

theorem verdict_foldlM {κ : Type} {check : κ → Except TransposeError Unit} {l : List κ}
    (h : ∀ a ∈ l, Verdict (check a)) : Verdict (l.foldlM (fun _ a => check a) ()) := by
  induction l with
  | nil => exact Or.inl rfl
  | cons a l ih =>
    rw [List.foldlM_cons]
    obtain hok | hfails := h a List.mem_cons_self
    · rw [hok]
      exact ih fun b hb => h b (List.mem_cons_of_mem _ hb)
    · rw [hfails]
      exact Or.inr rfl

/-- A loop that fills a table fails with the error of an entry. -/
theorem verdict_fill {β : Type} {val : Fin N → Except TransposeError β}
    (hval : ∀ axis e, val axis = .error e → e = .preparationFailed) {l : List (Fin N)}
    {table : Fin N → β} {f : (Fin N → β) → Except TransposeError Unit} (hf : ∀ t, Verdict (f t)) :
    Verdict (l.foldlM (fun t axis => (val axis).map (Function.update t axis)) table >>= f) := by
  induction l generalizing table with
  | nil => exact hf table
  | cons axis l ih =>
    rw [List.foldlM_cons]
    cases hcase : val axis with
    | error e =>
      rw [hval axis e hcase]
      exact Or.inr rfl
    | ok x => exact ih

/-! ## Offsets grow -/

theorem foldlM_rowMajorStep_mono {l l' : List (ℕ × ℕ)}
    (h : List.Forall₂ (fun x x' => x.1 = x'.1 ∧ x.2 ≤ x'.2) l l') {k offset offset' r' : ℕ}
    (hle : offset ≤ offset') (hr : (l'.zipIdx k).foldlM rowMajorStep offset' = .ok r') :
    ∃ r ≤ r', (l.zipIdx k).foldlM rowMajorStep offset = .ok r := by
  induction h generalizing k offset offset' with
  | nil =>
    obtain rfl := Except.ok.inj hr
    exact ⟨offset, hle, rfl⟩
  | @cons x x' l l' hx _ ih =>
    obtain ⟨extent, index⟩ := x
    obtain ⟨extent', index'⟩ := x'
    obtain ⟨rfl, hindex⟩ := hx
    rw [List.zipIdx_cons, List.foldlM_cons] at hr
    obtain ⟨next', hstep', hr⟩ := bind_eq_ok.mp hr
    unfold rowMajorStep at hstep'
    dsimp only at hstep' hindex
    split at hstep'
    · contradiction
    rename_i hbound
    obtain ⟨base', hmul', hadd'⟩ := Option.bind_eq_some_iff.mp (okOr_eq_ok.mp hstep')
    obtain ⟨hmulLt, rfl⟩ := checkedMul_eq_some.mp hmul'
    obtain ⟨haddLt, rfl⟩ := checkedAdd_eq_some.mp hadd'
    have hscaled : offset * extent ≤ offset' * extent := Nat.mul_le_mul_right _ hle
    obtain ⟨r, hrle, hrun⟩ := ih (Nat.add_le_add hscaled hindex) hr
    refine ⟨r, hrle, ?_⟩
    have hstep : rowMajorStep offset ((extent, index), k) = .ok (offset * extent + index) := by
      have hmul : checkedMul offset extent = some (offset * extent) :=
        checkedMul_eq_some.mpr ⟨by omega, rfl⟩
      have hadd : checkedAdd (offset * extent) index = some (offset * extent + index) :=
        checkedAdd_eq_some.mpr ⟨by omega, rfl⟩
      unfold rowMajorStep
      dsimp only
      rw [if_neg (by omega), hmul, Option.bind_some, hadd, okOr_some]
    rw [List.zipIdx_cons, List.foldlM_cons, hstep]
    exact hrun

/-- **A smaller index has an offset, and it is not larger.** -/
theorem rowMajorOffset_mono {shape x x' : Fin N → ℕ} (hle : ∀ position, x position ≤ x' position)
    {r' : ℕ} (hr : rowMajorOffset (List.ofFn shape) (List.ofFn x') = .ok r') :
    ∃ r ≤ r', rowMajorOffset (List.ofFn shape) (List.ofFn x) = .ok r := by
  have hzip : ∀ y : Fin N → ℕ, (List.ofFn shape).zip (List.ofFn y)
      = (List.finRange N).map fun position => (shape position, y position) := by
    intro y
    rw [List.ofFn_eq_map, List.ofFn_eq_map, List.zip_map']
  unfold rowMajorOffset at hr ⊢
  rw [if_neg (by simp), hzip] at hr
  rw [if_neg (by simp), hzip]
  refine foldlM_rowMajorStep_mono ?_ (Nat.le_refl 0) hr
  rw [List.forall₂_map_left_iff, List.forall₂_map_right_iff, List.forall₂_same]
  exact fun position _ => ⟨rfl, hle position⟩

/-! ## One element -/

section Element

variable {region localRanges : Fin N → Range}

/-- The element of the region at a payload position, as the reference computes it. -/
theorem reference_regionIndex_eq (h : ∀ axis, (region axis).start < (region axis).stop)
    (linear : ℕ) : Reference.regionIndex region linear = .ok (regionIndex region linear) := by
  have hpos : ∀ axis, regionExtent region axis ≠ 0 := by
    intro axis
    have := h axis
    unfold regionExtent Range.len
    omega
  have hloop : ∀ (l : List (Fin N)), l.Nodup → ∀ (index : Fin N → ℕ) (rest : ℕ),
      ∃ index' rest', l.foldlM (Reference.regionIndexStep region (regionExtent region))
          (index, rest) = .ok (index', rest') ∧
        (∀ axis ∈ l, index' axis = (region axis).start
          + MixedRadix.digit (regionExtent region) l rest axis) ∧
        ∀ axis ∉ l, index' axis = index axis := by
    intro l
    induction l with
    | nil => exact fun _ index rest => ⟨index, rest, rfl, nofun, fun _ _ => rfl⟩
    | cons a l ih =>
      intro hn index rest
      obtain ⟨ha, hn⟩ := List.nodup_cons.mp hn
      obtain ⟨index', rest', hrun, hin, hout⟩ := ih hn
        (Function.update index a ((region a).start + rest % regionExtent region a))
        (rest / regionExtent region a)
      refine ⟨index', rest', ?_, fun axis hmem => ?_, fun axis hmem => ?_⟩
      · rw [List.foldlM_cons, Reference.regionIndexStep, if_neg (hpos a)]
        exact hrun
      · rw [MixedRadix.digit]
        by_cases heq : axis = a
        · rw [heq, hout a ha, Function.update_self, Function.update_self]
        · rw [Function.update_of_ne heq]
          exact hin axis (List.mem_of_ne_of_mem heq hmem)
      · rw [List.mem_cons, not_or] at hmem
        rw [hout axis hmem.2, Function.update_of_ne hmem.1]
  obtain ⟨index, rest, hrun, hin, _⟩ := hloop (List.finRange N).reverse
    (List.nodup_reverse.mpr (List.nodup_finRange N)) (fun _ => 0) linear
  have hindex : index = regionIndex region linear :=
    funext fun axis => hin axis (by simp)
  unfold Reference.regionIndex
  rw [regionShape_eq fun axis => (h axis).le]
  simp only [bind, Except.bind, hrun, hindex]
  rfl

/-- What the reference computes for one axis of an element. -/
def indexOnAxis (localRanges : Fin N → Range) (global : Fin N → ℕ) (axis : Fin N) :
    Except TransposeError ℕ :=
  if global axis < (localRanges axis).start ∨ global axis ≥ (localRanges axis).stop then
    .error .preparationFailed
  else .ok (global axis - (localRanges axis).start)

theorem localIndex_eq_fill (global : Fin N → ℕ) :
    Reference.localIndex localRanges global = (List.finRange N).foldlM
      (fun t axis => (indexOnAxis localRanges global axis).map (Function.update t axis))
      fun _ => 0 := by
  unfold Reference.localIndex indexOnAxis
  congr 1
  funext t axis
  dsimp only
  split <;> rfl

theorem indexOnAxis_error {global : Fin N → ℕ} (axis : Fin N) (e : TransposeError)
    (h : indexOnAxis localRanges global axis = .error e) : e = .preparationFailed := by
  unfold indexOnAxis at h
  split at h
  · exact (Except.error.inj h).symm
  · contradiction

/-- The position in the block of an element that the block owns. -/
theorem localIndex_eq_ok {global index : Fin N → ℕ} :
    Reference.localIndex localRanges global = .ok index ↔
      Owns localRanges global ∧ index = fun axis => global axis - (localRanges axis).start := by
  have hval : ∀ axis x, indexOnAxis localRanges global axis = .ok x ↔
      (localRanges axis).contains (global axis) = true ∧
        x = global axis - (localRanges axis).start := by
    intro axis x
    rw [Range.contains_iff]
    unfold indexOnAxis
    split
    · rename_i hout
      exact ⟨nofun, fun h => absurd h.1 (by omega)⟩
    · rename_i hin
      rw [Except.ok.injEq]
      exact ⟨fun h => ⟨by omega, h.symm⟩, fun h => h.2.symm⟩
  rw [localIndex_eq_fill, foldlM_fill_eq_ok (List.nodup_finRange N)]
  simp only [List.mem_finRange, forall_true_left, not_true_eq_false, false_imp_iff, implies_true,
    and_true, hval]
  exact ⟨fun h => ⟨fun axis => (h axis).1, funext fun axis => (h axis).2⟩,
    fun ⟨howns, heq⟩ axis => ⟨howns axis, congrFun heq axis⟩⟩

variable {shape : Fin N → ℕ} {permutation : AxisPermutation N} {storageLen extraOffset : ℕ}

/-- The element with the global index `g` lies in its block, has an offset, and the offset is
inside the storage. -/
def ElementFits (localRanges : Fin N → Range) (shape : Fin N → ℕ) (permutation : AxisPermutation N)
    (storageLen extraOffset : ℕ) (g : Fin N → ℕ) : Prop :=
  Owns localRanges g ∧ ∃ r, rowMajorOffset (List.ofFn shape)
      (List.ofFn (permutation.permute fun axis => g axis - (localRanges axis).start)) = .ok r ∧
    extraOffset + r < usizeLimit ∧ extraOffset + r < storageLen

theorem validateElement_eq_ok (h : ∀ axis, (region axis).start < (region axis).stop)
    {linear : ℕ} :
    Reference.validateElement localRanges shape permutation storageLen region extraOffset linear
        = .ok () ↔
      ElementFits localRanges shape permutation storageLen extraOffset
        (regionIndex region linear) := by
  unfold Reference.validateElement
  rw [reference_regionIndex_eq h]
  simp only [bind_eq_ok, Except.ok.injEq, exists_eq_left', localIndex_eq_ok, mapError_eq_ok,
    okOr_eq_ok, checkedAdd_eq_some]
  constructor
  · rintro ⟨_, ⟨howns, rfl⟩, r, hr, _, ⟨hlt, rfl⟩, hstored⟩
    refine ⟨howns, r, hr, hlt, ?_⟩
    by_contra hge
    rw [if_pos (by omega)] at hstored
    contradiction
  · rintro ⟨howns, r, hr, hlt, hstored⟩
    refine ⟨_, ⟨howns, rfl⟩, r, hr, _, ⟨hlt, rfl⟩, ?_⟩
    rw [if_neg (by omega)]
    rfl

/-- An element below one that fits, and in no later block, fits. -/
theorem ElementFits.mono {extraOffset' : ℕ} {g g' : Fin N → ℕ}
    (h : ElementFits localRanges shape permutation storageLen extraOffset' g')
    (hextra : extraOffset ≤ extraOffset')
    (hlower : ∀ axis, (localRanges axis).start ≤ g axis) (hle : ∀ axis, g axis ≤ g' axis) :
    ElementFits localRanges shape permutation storageLen extraOffset g := by
  obtain ⟨howns, r', hr', hlt, hstored⟩ := h
  have hposition : ∀ position,
      permutation.permute (fun axis => g axis - (localRanges axis).start) position
        ≤ permutation.permute (fun axis => g' axis - (localRanges axis).start) position :=
    fun position => Nat.sub_le_sub_right (hle _) _
  obtain ⟨r, hrle, hr⟩ := rowMajorOffset_mono hposition hr'
  refine ⟨fun axis => ?_, r, hr, by omega, by omega⟩
  have hcontains := howns axis
  rw [Range.contains_iff] at hcontains ⊢
  have := hlower axis
  have := hle axis
  omega

end Element

/-! ## The corner -/

section Corner

variable {region localRanges : Fin N → Range}

/-- The last element of a region. -/
def regionCorner (region : Fin N → Range) : Fin N → ℕ := fun axis => (region axis).stop - 1

theorem regionSpatialLen_ok {n : ℕ} (h : regionSpatialLen region = .ok n) :
    (∀ axis, (region axis).start ≤ (region axis).stop) ∧ n = regionSize region := by
  unfold regionSpatialLen at h
  obtain ⟨shape, hshape, hproduct⟩ := bind_eq_ok.mp h
  unfold regionShape at hshape
  obtain ⟨hall, _⟩ := (foldlM_fill_eq_ok (List.nodup_finRange N)).mp hshape
  have hsub : ∀ axis, (region axis).start ≤ (region axis).stop ∧
      shape axis = regionExtent region axis := by
    intro axis
    obtain ⟨hle, heq⟩ := checkedSub_eq_some.mp (okOr_eq_ok.mp (hall axis (List.mem_finRange axis)))
    exact ⟨hle, heq.symm⟩
  refine ⟨fun axis => (hsub axis).1, ?_⟩
  rw [checkedProduct_ok (mapError_eq_ok.mp hproduct), List.prod_ofFn]
  exact Finset.prod_congr rfl fun axis _ => (hsub axis).2

theorem nonempty_of_regionSize (h : ∀ axis, (region axis).start ≤ (region axis).stop)
    (hsize : regionSize region ≠ 0) (axis : Fin N) : (region axis).start < (region axis).stop := by
  have hne : regionExtent region axis ≠ 0 :=
    Finset.prod_ne_zero_iff.mp hsize axis (Finset.mem_univ axis)
  have := h axis
  unfold regionExtent Range.len at hne
  omega

/-- The last payload position is the corner. -/
theorem regionIndex_last (h : ∀ axis, (region axis).start < (region axis).stop) :
    regionIndex region (regionSize region - 1) = regionCorner region := by
  have hpos : ∀ axis, 0 < regionExtent region axis := by
    intro axis
    have := h axis
    unfold regionExtent Range.len
    omega
  have hlast : ∀ l : List (Fin N), MixedRadix.value (regionExtent region)
      (fun axis => regionExtent region axis - 1) l = MixedRadix.size (regionExtent region) l - 1 := by
    intro l
    induction l with
    | nil => rfl
    | cons axis l ih =>
      have hsize : 0 < MixedRadix.size (regionExtent region) l :=
        MixedRadix.size_pos fun a _ => hpos a
      have := hpos axis
      rw [MixedRadix.value_cons, MixedRadix.size_cons, ih, Nat.mul_sub_one]
      have : regionExtent region axis
          ≤ regionExtent region axis * MixedRadix.size (regionExtent region) l :=
        Nat.le_mul_of_pos_right _ hsize
      omega
  funext axis
  have hdigit := MixedRadix.digit_value (e := regionExtent region)
    (c := fun axis => regionExtent region axis - 1) (l := axesFastestFirst N)
    nodup_axesFastestFirst (fun a _ => by have := hpos a; omega) axis (mem_axesFastestFirst axis)
  rw [hlast, size_axesFastestFirst] at hdigit
  have := h axis
  unfold regionIndex regionSize regionCorner
  rw [hdigit]
  unfold regionExtent Range.len
  omega

/-- What the fast check computes for one axis. -/
def lastOnAxis (localRanges region : Fin N → Range) (axis : Fin N) : Except TransposeError ℕ :=
  if (region axis).start < (localRanges axis).start ∨
      (region axis).stop > (localRanges axis).stop then .error .preparationFailed
  else okOr ((checkedSub (region axis).stop 1).bind fun stop =>
    checkedSub stop (localRanges axis).start) .preparationFailed

theorem lastLocal_eq_fill : lastLocal localRanges region = (List.finRange N).foldlM
    (fun t axis => (lastOnAxis localRanges region axis).map (Function.update t axis))
    fun _ => 0 := by
  unfold lastLocal lastOnAxis
  congr 1
  funext t axis
  split <;> rfl

theorem lastOnAxis_error (axis : Fin N) (e : TransposeError)
    (h : lastOnAxis localRanges region axis = .error e) : e = .preparationFailed := by
  unfold lastOnAxis at h
  split at h
  · exact (Except.error.inj h).symm
  · revert h
    cases (checkedSub (region axis).stop 1).bind fun stop =>
      checkedSub stop (localRanges axis).start with
    | none => exact fun h => (Except.error.inj h).symm
    | some _ => exact nofun

/-- The loop of the fast check finds the corner of a region inside the block. -/
theorem lastLocal_eq_ok (h : ∀ axis, (region axis).start < (region axis).stop)
    {last : Fin N → ℕ} :
    lastLocal localRanges region = .ok last ↔
      ((∀ axis, (localRanges axis).start ≤ (region axis).start) ∧
        Owns localRanges (regionCorner region)) ∧
      last = fun axis => regionCorner region axis - (localRanges axis).start := by
  have hval : ∀ axis x, lastOnAxis localRanges region axis = .ok x ↔
      ((localRanges axis).start ≤ (region axis).start ∧
        (localRanges axis).contains (regionCorner region axis) = true) ∧
      x = regionCorner region axis - (localRanges axis).start := by
    intro axis x
    have hnonempty := h axis
    rw [Range.contains_iff]
    unfold regionCorner lastOnAxis
    split
    · rename_i hout
      exact ⟨nofun, fun hin => absurd hin.1 (by omega)⟩
    · rename_i hin
      have hone : checkedSub (region axis).stop 1 = some ((region axis).stop - 1) :=
        checkedSub_eq_some.mpr ⟨by omega, rfl⟩
      rw [hone, Option.bind_some, okOr_eq_ok, checkedSub_eq_some]
      exact ⟨fun hx => ⟨by omega, hx.2.symm⟩, fun hx => ⟨by omega, hx.2.symm⟩⟩
  rw [lastLocal_eq_fill, foldlM_fill_eq_ok (List.nodup_finRange N)]
  simp only [List.mem_finRange, forall_true_left, not_true_eq_false, false_imp_iff, implies_true,
    and_true, hval]
  exact ⟨fun hall => ⟨⟨fun axis => (hall axis).1.1, fun axis => (hall axis).1.2⟩,
    funext fun axis => (hall axis).2⟩,
    fun ⟨⟨hlower, howns⟩, heq⟩ axis => ⟨⟨hlower axis, howns axis⟩, congrFun heq axis⟩⟩

end Corner

/-! ## The two checks -/

section Checks

variable {localRanges : Fin N → Range} {localShapeMemory : Fin N → ℕ}
  {permutation : AxisPermutation N} {localLen storageLen : ℕ} {region : Fin N → Range}

/-- What the fast check computes once the region is known not to be empty. -/
def checkCorner (localRanges : Fin N → Range) (localShapeMemory : Fin N → ℕ)
    (permutation : AxisPermutation N) (localLen storageLen : ℕ) (region : Fin N → Range)
    (extraCount : ℕ) : Except TransposeError Unit := do
  let last ← lastLocal localRanges region
  let maxSpatial ← (rowMajorOffset (List.ofFn localShapeMemory)
    (List.ofFn (permutation.permute last))).mapError fun _ => .preparationFailed
  let maxOffset ← okOr ((checkedMul (extraCount - 1) localLen).bind fun extraOffset =>
    checkedAdd extraOffset maxSpatial) .preparationFailed
  if maxOffset ≥ storageLen then throw .preparationFailed

/-- What the reference computes once the region is known not to be empty. -/
def checkElements (localRanges : Fin N → Range) (localShapeMemory : Fin N → ℕ)
    (permutation : AxisPermutation N) (localLen storageLen : ℕ) (region : Fin N → Range)
    (extraCount spatialLen : ℕ) : Except TransposeError Unit :=
  (List.range extraCount).foldlM (fun _ extraLinear => do
    let extraOffset ← okOr (checkedMul extraLinear localLen) .preparationFailed
    (List.range spatialLen).foldlM (fun _ linear => Reference.validateElement localRanges
      localShapeMemory permutation storageLen region extraOffset linear) ()) ()

theorem verdict_stored (offset : ℕ) : Verdict (if offset ≥ storageLen then
    throw TransposeError.preparationFailed else pure ()) := by
  split
  · exact Or.inr rfl
  · exact Or.inl rfl

theorem verdict_checkCorner (extraCount : ℕ) : Verdict (checkCorner localRanges localShapeMemory
    permutation localLen storageLen region extraCount) := by
  unfold checkCorner
  rw [lastLocal_eq_fill]
  refine verdict_fill lastOnAxis_error fun last => verdict_mapError _ fun maxSpatial => ?_
  exact verdict_okOr _ verdict_stored

theorem verdict_checkElements (h : ∀ axis, (region axis).start < (region axis).stop)
    (extraCount spatialLen : ℕ) : Verdict (checkElements localRanges localShapeMemory permutation
      localLen storageLen region extraCount spatialLen) := by
  refine verdict_foldlM fun extraLinear _ => verdict_okOr _ fun extraOffset => ?_
  refine verdict_foldlM fun linear _ => ?_
  unfold Reference.validateElement
  rw [reference_regionIndex_eq h]
  show Verdict (Reference.localIndex localRanges (regionIndex region linear) >>= _)
  rw [localIndex_eq_fill]
  refine verdict_fill indexOnAxis_error fun index => verdict_mapError _ fun spatialOffset => ?_
  exact verdict_okOr _ verdict_stored

theorem checkCorner_eq_ok (h : ∀ axis, (region axis).start < (region axis).stop)
    {extraCount : ℕ} :
    checkCorner localRanges localShapeMemory permutation localLen storageLen region extraCount
        = .ok () ↔
      (∀ axis, (localRanges axis).start ≤ (region axis).start) ∧
        (extraCount - 1) * localLen < usizeLimit ∧
        ElementFits localRanges localShapeMemory permutation storageLen
          ((extraCount - 1) * localLen) (regionCorner region) := by
  unfold checkCorner
  simp only [bind_eq_ok, lastLocal_eq_ok h, mapError_eq_ok, okOr_eq_ok, Option.bind_eq_some_iff,
    checkedMul_eq_some, checkedAdd_eq_some]
  constructor
  · rintro ⟨_, ⟨⟨hlower, howns⟩, rfl⟩, r, hr, _, ⟨_, ⟨hmul, rfl⟩, hadd, rfl⟩, hstored⟩
    refine ⟨hlower, hmul, howns, r, hr, hadd, ?_⟩
    by_contra hge
    rw [if_pos (by omega)] at hstored
    contradiction
  · rintro ⟨hlower, hmul, howns, r, hr, hadd, hstored⟩
    refine ⟨_, ⟨⟨hlower, howns⟩, rfl⟩, r, hr, _, ⟨_, ⟨hmul, rfl⟩, hadd, rfl⟩, ?_⟩
    rw [if_neg (by omega)]
    rfl

theorem checkElements_eq_ok (h : ∀ axis, (region axis).start < (region axis).stop)
    {extraCount spatialLen : ℕ} :
    checkElements localRanges localShapeMemory permutation localLen storageLen region extraCount
        spatialLen = .ok () ↔
      ∀ extraLinear < extraCount, extraLinear * localLen < usizeLimit ∧
        ∀ linear < spatialLen, ElementFits localRanges localShapeMemory permutation storageLen
          (extraLinear * localLen) (regionIndex region linear) := by
  unfold checkElements
  rw [foldlM_check_eq_ok]
  simp only [List.mem_range, bind_eq_ok, okOr_eq_ok, checkedMul_eq_some, foldlM_check_eq_ok,
    validateElement_eq_ok h]
  refine forall₂_congr fun extraLinear _ => ?_
  constructor
  · rintro ⟨_, ⟨hmul, heq⟩, hall⟩
    exact ⟨hmul, heq ▸ hall⟩
  · rintro ⟨hmul, hall⟩
    exact ⟨_, ⟨hmul, rfl⟩, hall⟩

/-- **The corner decides.** -/
theorem checkCorner_eq_checkElements (h : ∀ axis, (region axis).start < (region axis).stop)
    {extraCount : ℕ} (hextra : extraCount ≠ 0) :
    checkCorner localRanges localShapeMemory permutation localLen storageLen region extraCount
      = checkElements localRanges localShapeMemory permutation localLen storageLen region
          extraCount (regionSize region) := by
  have hpos : ∀ axis, 0 < regionExtent region axis := by
    intro axis
    have := h axis
    unfold regionExtent Range.len
    omega
  have hsize : 0 < regionSize region := Finset.prod_pos fun axis _ => hpos axis
  refine Verdict.eq (verdict_checkCorner _) (verdict_checkElements h _ _) ?_
  rw [checkCorner_eq_ok h, checkElements_eq_ok h]
  constructor
  · rintro ⟨hlower, hmul, hcorner⟩ extraLinear hlt
    have hle : extraLinear * localLen ≤ (extraCount - 1) * localLen :=
      Nat.mul_le_mul_right _ (by omega)
    refine ⟨hle.trans_lt hmul, fun linear _ => ?_⟩
    have hindex := regionIndex_lt hpos linear
    refine hcorner.mono hle (fun axis => (hlower axis).trans (hindex axis).1) fun axis => ?_
    have := (hindex axis).2
    unfold regionCorner
    omega
  · intro hall
    obtain ⟨hmul, hlast⟩ := hall (extraCount - 1) (by omega)
    have hcorner := hlast (regionSize region - 1) (by omega)
    rw [regionIndex_last h] at hcorner
    refine ⟨fun axis => ?_, hmul, hcorner⟩
    have hfirst := (hlast 0 hsize).1 axis
    simp only [Range.contains_iff, regionIndex, MixedRadix.digit_zero, Nat.add_zero] at hfirst
    exact hfirst.1

variable (localRanges localShapeMemory permutation localLen storageLen region)

/-- **The fast check is the check of every element**, on every input. -/
theorem validate_region_offsets_eq_reference (extraCount : ℕ) :
    validateRegionOffsets localRanges localShapeMemory permutation localLen storageLen region
        extraCount
      = Reference.validateRegionOffsetsReference localRanges localShapeMemory permutation localLen
          storageLen region extraCount := by
  unfold validateRegionOffsets Reference.validateRegionOffsetsReference
  by_cases hextra : extraCount = 0
  · rw [if_pos hextra, if_pos hextra]
  rw [if_neg hextra, if_neg hextra]
  cases hspatial : regionSpatialLen region with
  | error e => rfl
  | ok n =>
    obtain ⟨hordered, rfl⟩ := regionSpatialLen_ok hspatial
    simp only [bind, Except.bind]
    by_cases hzero : regionSize region = 0
    · rw [if_pos hzero, if_pos hzero]
    rw [if_neg hzero, if_neg hzero]
    exact checkCorner_eq_checkElements (nonempty_of_regionSize hordered hzero) hextra

end Checks

end PencilRs.Analysis
