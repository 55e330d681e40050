import PencilRs.Analysis.C2cKernels
import PencilRs.Analysis.LineLoops
import PencilRs.Analysis.R2rEmbedding

/-!
# Local real-to-real transforms

With an exact FFT of the embedding, a bin holds the sum of the values of the line against the
coefficients of the transform, so that a plan computes the cosine and sine transforms as they are
defined, and its way back multiplies every line by the normalization factor.
-/

set_option autoImplicit false

namespace PencilRs.Analysis

open PencilRs.Computation PencilRs.Model R2r

variable {valueKind : ValueKind}

/-! ## Exact transforms of the embedding -/

/-- A complex value as a number. -/
def toNumber (value : ComplexValue ℝ) : ℂ := ⟨value.re, value.im⟩

/-- The planner's transforms are the discrete Fourier transforms. -/
def ExactFft (planFftForward : ℕ → FftKernel (ComplexValue ℝ)) : Prop :=
  ∀ length values, values.length = length →
    ((planFftForward length).transform values).map toNumber
      = dftLine (unitRoot length)⁻¹ (values.map toNumber)

theorem unitRoot_inv_pow (length p b : ℕ) : (unitRoot length)⁻¹ ^ (p * b)
    = (Real.cos (angle length p b) : ℂ) - (Real.sin (angle length p b) : ℂ) * Complex.I := by
  have hangle : ((p * b : ℕ) : ℂ) * -(2 * Real.pi * Complex.I / length)
      = (-(angle length p b) : ℝ) * Complex.I := by
    unfold angle
    push_cast
    ring
  unfold unitRoot
  rw [← Complex.exp_neg, ← Complex.exp_nat_mul, hangle, Complex.exp_mul_I, ← Complex.ofReal_cos,
    ← Complex.ofReal_sin, Real.cos_neg, Real.sin_neg]
  push_cast
  ring

/-- A mirror image turns the other way. -/
theorem unitRoot_inv_pow_mirror {length p : ℕ} (hpos : 0 < length) (hp : p ≤ length) (b : ℕ) :
    (unitRoot length)⁻¹ ^ ((length - p) * b)
      = (Real.cos (angle length p b) : ℂ) + (Real.sin (angle length p b) : ℂ) * Complex.I := by
  have hlength : (length : ℝ) ≠ 0 := Nat.cast_ne_zero.mpr hpos.ne'
  have hangle : angle length (length - p) b = b * (2 * Real.pi) - angle length p b := by
    unfold angle
    rw [Nat.cast_sub hp]
    field_simp
  rw [unitRoot_inv_pow, hangle, Real.cos_nat_mul_two_pi_sub, Real.sin_nat_mul_two_pi_sub]
  push_cast
  ring

/-! ## Outputs -/

/-- What `write_output` does to the bin of a sine transform. -/
noncomputable def turn (kind : R2rKind) (z : ℂ) : ℂ := if kind.isDst then Complex.I * z else z

theorem turn_add (kind : R2rKind) (z z' : ℂ) : turn kind (z + z') = turn kind z + turn kind z' := by
  unfold turn
  split
  · exact mul_add ..
  · rfl

theorem turn_zero (kind : R2rKind) : turn kind 0 = 0 := by
  unfold turn
  split
  · exact mul_zero _
  · rfl

theorem turn_sum (kind : R2rKind) (l : List ℂ) : turn kind l.sum = (l.map (turn kind)).sum := by
  induction l with
  | nil => exact turn_zero kind
  | cons z l ih => rw [List.sum_cons, turn_add, ih, List.map_cons, List.sum_cons]

theorem toNumber_outputValue (kind : R2rKind) (scale : Option ℝ) (value : ComplexValue ℝ) :
    toNumber (outputValue kind scale value)
      = turn kind (toNumber value) * ((scale.getD 1 : ℝ) : ℂ) := by
  unfold outputValue turn toNumber
  cases scale <;> cases kind.isDst <;> apply Complex.ext <;> simp

/-- What a write adds to a bin. -/
noncomputable def binTerm (length b p : ℕ) (value : ComplexValue ℝ) : ℂ :=
  toNumber value * (unitRoot length)⁻¹ ^ (p * b)

/-- **The writes of a value** add the value times its coefficient. -/
theorem turn_valueMoves {kind : R2rKind} {n j : ℕ} (h : ValidLength kind n) (hj : j < n) (k : ℕ)
    (value : ComplexValue ℝ) :
    turn kind (((valueMoves kind n j value).map fun move =>
        binTerm (embeddingLength kind n) (outputBin kind k) move.1 move.2).sum)
      = toNumber value * (fftwCoefficient kind n j k : ℂ) := by
  rw [fftwCoefficient_eq h]
  have hplace := unitRoot_inv_pow (embeddingLength kind n) (position kind j) (outputBin kind k)
  have hmirror := unitRoot_inv_pow_mirror (embeddingLength_pos h) (position_le h hj).2.le
    (outputBin kind k)
  have hother := fun hunpaired => other_part_unpaired (n := n) (j := j) h hunpaired k
  unfold valueMoves weight part
  generalize Real.cos (angle (embeddingLength kind n) (position kind j) (outputBin kind k)) = c
    at hplace hmirror hother ⊢
  generalize Real.sin (angle (embeddingLength kind n) (position kind j) (outputBin kind k)) = s
    at hplace hmirror hother ⊢
  split
  · rename_i hunpaired
    have hzero := hother hunpaired
    rw [List.map_singleton, List.sum_singleton, binTerm, hplace]
    unfold turn
    split at hzero
    · rename_i hdst
      rw [if_pos hdst, if_pos hdst, hzero]
      push_cast
      linear_combination -(toNumber value) * s * Complex.I_mul_I
    · rename_i hdct
      rw [if_neg hdct, if_neg hdct, hzero]
      push_cast
      ring
  · unfold pairMoves
    rw [List.map_cons, List.map_singleton, List.sum_cons, List.sum_singleton, binTerm, binTerm,
      hplace, hmirror]
    unfold turn
    split
    · have hneg : toNumber ⟨-value.re, -value.im⟩ = -toNumber value := rfl
      rw [hneg]
      push_cast
      linear_combination -2 * (toNumber value) * s * Complex.I_mul_I
    · push_cast
      ring

/-! ## Lines -/

theorem sum_zipIdx {α M : Type} [AddCommMonoid M] (f : α → ℕ → M) (d : α) (l : List α) :
    (l.zipIdx.map fun entry => f entry.1 entry.2).sum
      = ∑ j ∈ Finset.range l.length, f (l.getD j d) j := by
  induction l using List.reverseRecOn with
  | nil => rfl
  | append_singleton l x ih =>
    rw [List.zipIdx_append, List.map_append, List.sum_append, ih, List.length_append,
      List.length_singleton, Finset.sum_range_succ]
    congr 1
    · refine Finset.sum_congr rfl fun j hj => ?_
      rw [List.getD_eq_getElem?_getD, List.getD_eq_getElem?_getD,
        List.getElem?_append_left (Finset.mem_range.mp hj)]
    · rw [List.getD_eq_getElem?_getD, List.getElem?_append_right le_rfl]
      simp

/-- **A bin of the embedding**, turned, is the sum of the values against their coefficients. -/
theorem turn_dftLine_embedding {kind : R2rKind} {source : List (R2rScalar ℝ valueKind)}
    (h : ValidLength kind source.length) {k : ℕ} (hk : k < source.length)
    {embedding : Buf (ComplexValue ℝ)}
    (hembed : embed kind source.length (embeddingLength kind source.length) source
      = some embedding) (d : R2rScalar ℝ valueKind) :
    ((dftLine (unitRoot (embeddingLength kind source.length))⁻¹
        (embedding.cells.map toNumber))[outputBin kind k]?).map (turn kind)
      = some (∑ j ∈ Finset.range source.length, toNumber (toComplex (source.getD j d))
          * (fftwCoefficient kind source.length j k : ℂ)) := by
  obtain ⟨moves, hmoves, hperm⟩ := embed_eq h
  rw [hembed] at hmoves
  have hzeros := length_fresh_zeros (R := ℝ) (embeddingLength kind source.length) ⟨0, 0⟩
  have hlength : embedding.cells.length = embeddingLength kind source.length :=
    (Buf.length_moveAll hmoves.symm).trans hzeros
  have hnodup : (moves.map Prod.fst).Nodup := (hperm.map _).nodup_iff.mpr (nodup_lineMoves h)
  have hin : ∀ move ∈ moves, move.1 < embeddingLength kind source.length := by
    intro move hmove
    obtain ⟨entry, hentry, hmem⟩ := List.mem_flatMap.mp (hperm.mem_iff.mp hmove)
    exact valueMoves_lt h (lt_of_mem_zipIdx hentry) hmem
  have hfresh : ∀ p v, (Buf.fresh (List.replicate (embeddingLength kind source.length)
      (⟨0, 0⟩ : ComplexValue ℝ))).cells[p]? = some v →
      binTerm (embeddingLength kind source.length) (outputBin kind k) p v = 0 := by
    intro p v hv
    have hmem := List.mem_of_getElem? hv
    rw [List.eq_of_mem_replicate hmem]
    exact zero_mul _
  have hsum := Buf.sum_moveAll (binTerm (embeddingLength kind source.length) (outputBin kind k))
    hmoves.symm hnodup (fun move hmove => hzeros.symm ▸ hin move hmove)
    (fun move _ v hv => hfresh move.1 v hv)
  have hnothing : ∑ p ∈ Finset.range (embeddingLength kind source.length),
      ((Buf.fresh (List.replicate (embeddingLength kind source.length)
        (⟨0, 0⟩ : ComplexValue ℝ))).cells[p]?).elim 0
        (binTerm (embeddingLength kind source.length) (outputBin kind k) p) = 0 := by
    apply Finset.sum_eq_zero
    intro p hp
    have hget := List.getElem?_replicate_of_lt (a := (⟨0, 0⟩ : ComplexValue ℝ))
      (Finset.mem_range.mp hp)
    unfold Buf.fresh
    rw [hget]
    exact hfresh p _ hget
  rw [hzeros, hnothing, zero_add] at hsum
  have hcells : ∑ p ∈ Finset.range (embeddingLength kind source.length),
      (embedding.cells.map toNumber).getD p 0
        * (unitRoot (embeddingLength kind source.length))⁻¹ ^ (p * outputBin kind k)
      = ∑ p ∈ Finset.range (embeddingLength kind source.length), (embedding.cells[p]?).elim 0
          (binTerm (embeddingLength kind source.length) (outputBin kind k) p) := by
    refine Finset.sum_congr rfl fun p hp => ?_
    have hp' : p < embedding.cells.length := hlength ▸ Finset.mem_range.mp hp
    rw [List.getD_eq_getElem?_getD, List.getElem?_map, List.getElem?_eq_getElem hp']
    rfl
  have hbin := outputBin_lt h hk
  rw [getElem?_dftLine (by rwa [List.length_map, hlength]), List.length_map, hlength, hcells, hsum,
    (hperm.map _).sum_eq, lineMoves, List.map_flatMap, List.flatMap_def, List.sum_flatten,
    List.map_map, Option.map_some, turn_sum, List.map_map, ← sum_zipIdx (fun value j =>
      toNumber (toComplex value) * (fftwCoefficient kind source.length j k : ℂ)) d]
  congr 2
  refine List.map_congr_left fun entry hentry => ?_
  exact turn_valueMoves h (lt_of_mem_zipIdx hentry) k _

/-- A transform of real lines, on the real and the imaginary parts. -/
def onComponents (transform : List ℝ → List ℝ) (values : List (R2rScalar ℝ valueKind)) :
    List (R2rScalar ℝ valueKind) :=
  List.zipWith (fun re im => fromComplex ⟨re, im⟩)
    (transform (values.map fun value => (toComplex value).re))
    (transform (values.map fun value => (toComplex value).im))

/-- The transform of a line, as it is defined. -/
noncomputable def fftwLine (kind : R2rKind) (values : List ℝ) : List ℝ :=
  kernelLine (fftwCoefficient kind values.length) values

/-- The transform of a line, times a scale. -/
noncomputable def scaledLine (kind : R2rKind) (scale : ℝ) (values : List ℝ) : List ℝ :=
  (fftwLine kind values).map (· * scale)

theorem length_scaledLine (kind : R2rKind) (scale : ℝ) (values : List ℝ) :
    (scaledLine kind scale values).length = values.length := by
  unfold scaledLine fftwLine
  rw [List.length_map, length_kernelLine]

theorem scaledLine_one (kind : R2rKind) : scaledLine kind 1 = fftwLine kind := by
  funext values
  unfold scaledLine
  simp

theorem length_onComponents {transform : List ℝ → List ℝ}
    (h : ∀ values, (transform values).length = values.length)
    (values : List (R2rScalar ℝ valueKind)) :
    (onComponents transform values).length = values.length := by
  unfold onComponents
  rw [List.length_zipWith, h, h, List.length_map, List.length_map, Nat.min_self]

theorem fromComplex_toComplex {R : Type} [Zero R] (value : R2rScalar R valueKind) :
    fromComplex (toComplex value) = value := by
  cases valueKind <;> rfl

/-- A sum of real multiples, part by part. -/
theorem toNumber_eq_sum {n : ℕ} {value : ComplexValue ℝ} {numbers : ℕ → ComplexValue ℝ}
    {coefficient : ℕ → ℝ} {scale : ℝ}
    (h : toNumber value = (∑ j ∈ Finset.range n, toNumber (numbers j) * (coefficient j : ℂ))
      * (scale : ℂ)) :
    value.re = (∑ j ∈ Finset.range n, (numbers j).re * coefficient j) * scale ∧
      value.im = (∑ j ∈ Finset.range n, (numbers j).im * coefficient j) * scale := by
  have hre := congrArg Complex.re h
  have him := congrArg Complex.im h
  rw [Complex.re_mul_ofReal, Complex.re_sum] at hre
  rw [Complex.im_mul_ofReal, Complex.im_sum] at him
  simp only [Complex.re_mul_ofReal] at hre
  simp only [Complex.im_mul_ofReal] at him
  exact ⟨hre, him⟩

/-- What a value of the transform of a part is. -/
theorem getElem?_scaledLine {kind : R2rKind} {scale : ℝ} {source : List (R2rScalar ℝ valueKind)}
    {k : ℕ} (hk : k < source.length) (f : R2rScalar ℝ valueKind → ℝ)
    (d : R2rScalar ℝ valueKind) :
    (scaledLine kind scale (source.map f))[k]? = some ((∑ j ∈ Finset.range source.length,
      f (source.getD j d) * fftwCoefficient kind source.length j k) * scale) := by
  unfold scaledLine fftwLine
  rw [List.getElem?_map, getElem?_kernelLine (by rwa [List.length_map]), Option.map_some,
    List.length_map]
  congr 2
  refine Finset.sum_congr rfl fun j hj => ?_
  rw [List.getD_eq_getElem?_getD, List.getD_eq_getElem?_getD, List.getElem?_map,
    List.getElem?_eq_getElem (Finset.mem_range.mp hj)]
  rfl

/-- The plans of lines of `n` values. -/
structure IsR2rPlan (n : ℕ) (kind : R2rKind) (plan : LocalR2rPlan ℝ valueKind) : Prop where
  valid : ValidLength kind n
  lineLen : plan.lineLen = n
  kind_eq : plan.kind = kind
  embeddingLen : plan.embeddingLen = embeddingLength kind n
  factor : plan.normalizationFactor = transformFactor kind n
  exact : ∀ values, values.length = embeddingLength kind n →
    (plan.fft.transform values).map toNumber
      = dftLine (unitRoot (embeddingLength kind n))⁻¹ (values.map toNumber)

/-- The kinds that a plan calls. -/
def IsCalled (kind called : R2rKind) : Prop := called = kind ∨ called = kind.backwardKind

theorem IsCalled.valid {kind called : R2rKind} {n : ℕ} (h : IsCalled kind called)
    (hvalid : ValidLength kind n) : ValidLength called n := by
  cases h with
  | inl heq => exact heq ▸ hvalid
  | inr heq => exact heq ▸ hvalid.backwardKind

theorem IsCalled.embeddingLength_eq {kind called : R2rKind} (h : IsCalled kind called) (n : ℕ) :
    embeddingLength called n = embeddingLength kind n := by
  cases h with
  | inl heq => rw [heq]
  | inr heq => rw [heq, embeddingLength_backwardKind]

/-- **One line.** -/
theorem line_eq {n : ℕ} {kind called : R2rKind} {plan : LocalR2rPlan ℝ valueKind}
    (hplan : IsR2rPlan n kind plan) (hcalled : IsCalled kind called) (scale : Option ℝ)
    {scratchLen : ℕ} (hscratch : plan.scratchLen ≤ scratchLen)
    {source : List (R2rScalar ℝ valueKind)} (hsource : source.length = n)
    {embeddingLine : List (ComplexValue ℝ)} (hline : plan.embeddingLen ≤ embeddingLine.length) :
    ∃ embeddingLine', plan.line called scale scratchLen source n embeddingLine
        = some (onComponents (scaledLine called (scale.getD 1)) source, embeddingLine') ∧
      embeddingLine'.length = embeddingLine.length := by
  subst hsource
  have hvalid := hcalled.valid hplan.valid
  have hlen := (hcalled.embeddingLength_eq source.length).trans hplan.embeddingLen.symm
  obtain ⟨moves, hmoves, hperm⟩ := embed_eq hvalid
  have hzeros := length_fresh_zeros (R := ℝ) (embeddingLength called source.length) ⟨0, 0⟩
  have hread : ∀ move ∈ moves, (some move.2 : Option (ComplexValue ℝ)).isSome := fun _ _ => rfl
  obtain ⟨embedding, hembedding⟩ := Buf.moveAll_isSome
    (Buf.fresh (List.replicate (embeddingLength called source.length) (⟨0, 0⟩ : ComplexValue ℝ)))
    hread
  have hembed := hmoves.trans hembedding
  have hcells : embedding.cells.length = plan.embeddingLen :=
    ((Buf.length_moveAll hembedding).trans hzeros).trans hlen
  -- What the embedding line holds afterwards.
  let transformed := plan.fft.transform embedding.cells
  have htransformed : transformed.length = plan.embeddingLen :=
    (plan.fft.length_transform _).trans hcells
  have hexact : transformed.map toNumber
      = dftLine (unitRoot (embeddingLength called source.length))⁻¹
        (embedding.cells.map toNumber) := by
    rw [hcalled.embeddingLength_eq]
    exact hplan.exact _ (hcells.trans hplan.embeddingLen)
  have hpos : 0 < plan.embeddingLen := hlen ▸ embeddingLength_pos hvalid
  have htransform : plan.transformLine called source embeddingLine scratchLen
      = some (transformed ++ embeddingLine.drop plan.embeddingLen) := by
    have hbuild : plan.buildEmbedding called source embeddingLine
        = some (embedding.cells ++ embeddingLine.drop plan.embeddingLen) := by
      unfold LocalR2rPlan.buildEmbedding
      rw [hplan.lineLen, ← hlen, hembed, hlen, guard, if_pos hline]
      rfl
    have hlength : (embedding.cells ++ embeddingLine.drop plan.embeddingLen).length
        = embeddingLine.length := by
      rw [List.length_append, List.length_drop, hcells]
      omega
    unfold LocalR2rPlan.transformLine
    rw [hbuild, Option.bind_eq_bind, Option.bind_some, guard,
      if_pos ⟨hlength.symm ▸ hline, hscratch⟩,
      List.take_append_of_le_length hcells.ge, List.take_of_length_le hcells.le,
      List.drop_append_of_le_length hcells.ge, List.drop_eq_nil_of_le hcells.le, List.nil_append,
      process_single plan.fft hpos hcells]
    rfl
  refine ⟨transformed ++ embeddingLine.drop plan.embeddingLen, ?_, ?_⟩
  · unfold LocalR2rPlan.line
    rw [htransform, Option.bind_eq_bind, Option.bind_some]
    have hwrite : writeOutput called source.length
        (transformed ++ embeddingLine.drop plan.embeddingLen) scale
        = some (onComponents (scaledLine called (scale.getD 1)) source) := by
      have hlength := length_onComponents (length_scaledLine called (scale.getD 1)) source
      unfold writeOutput
      rw [← hlength]
      apply mapM_range_eq_some
      intro k hk
      rw [hlength] at hk
      have hbin : outputBin called k < transformed.length :=
        htransformed.symm ▸ hlen ▸ outputBin_lt hvalid hk
      -- The bin, turned and scaled, has the sums of the parts as its parts.
      have hsum := turn_dftLine_embedding hvalid hk hembed (fromComplex ⟨0, 0⟩)
      rw [← hexact, List.getElem?_map, List.getElem?_eq_getElem hbin, Option.map_some,
        Option.map_some, Option.some_inj] at hsum
      have hvalue := toNumber_outputValue called scale transformed[outputBin called k]
      rw [hsum] at hvalue
      obtain ⟨hre, him⟩ := toNumber_eq_sum hvalue
      rw [List.getElem?_append_left hbin, List.getElem?_eq_getElem hbin, Option.map_some]
      unfold onComponents
      rw [List.getElem?_zipWith, getElem?_scaledLine hk _ (fromComplex ⟨0, 0⟩),
        getElem?_scaledLine hk _ (fromComplex ⟨0, 0⟩), ← hre, ← him]
    rw [hwrite]
    rfl
  · rw [List.length_append, List.length_drop]
    omega

/-! ## Calls -/

theorem derivedLengths_eq {kind : R2rKind} {n : ℕ} {lengths : ℕ × ℕ}
    (h : derivedLengths n kind = .ok lengths) :
    lengths = (embeddingLength kind n, transformFactor kind n) := by
  cases kind <;>
    · simp only [derivedLengths, bind_eq_ok, okOr_eq_ok, checkedSub_eq_some, checkedAdd_eq_some,
        checkedMul_eq_some] at h
      obtain ⟨_, ⟨_, rfl⟩, _, ⟨_, rfl⟩, h⟩ := h
      rw [← Except.ok.inj h]
      simp only [embeddingLength, transformFactor, Prod.mk.injEq]
      omega

/-- A plan that was built computes with the FFT of its embedding. -/
theorem isR2rPlan_of_new {planFftForward : ℕ → FftKernel (ComplexValue ℝ)}
    (hexact : ExactFft planFftForward) {realSize n : ℕ} {kind : R2rKind}
    {plan : LocalR2rPlan ℝ valueKind}
    (h : LocalR2rPlan.new planFftForward realSize valueKind n kind = .ok plan) :
    IsR2rPlan n kind plan := by
  unfold LocalR2rPlan.new validateLengths at h
  obtain ⟨lengths, hlengths, h⟩ := bind_eq_ok.mp h
  obtain ⟨_, hvalid, hlengths⟩ := bind_eq_ok.mp hlengths
  obtain ⟨_, _, hlengths⟩ := bind_eq_ok.mp hlengths
  obtain ⟨derived, hderived, hlengths⟩ := bind_eq_ok.mp hlengths
  obtain ⟨_, _, hlengths⟩ := bind_eq_ok.mp hlengths
  obtain ⟨_, _, hlengths⟩ := bind_eq_ok.mp hlengths
  obtain ⟨_, _, h⟩ := bind_eq_ok.mp h
  obtain rfl := derivedLengths_eq hderived
  obtain rfl := Except.ok.inj hlengths
  obtain rfl := Except.ok.inj h
  rw [ensure_eq_ok] at hvalid
  simp only [Bool.not_eq_true', Bool.or_eq_false_iff, beq_eq_false_iff_ne, Bool.and_eq_false_iff]
    at hvalid
  refine ⟨⟨Nat.pos_of_ne_zero hvalid.1, ?_⟩, rfl, rfl, rfl, rfl, fun values => hexact _ values⟩
  intro hkind
  have hne := hvalid.2.resolve_left fun hne => hne hkind
  have hzero := hvalid.1
  omega

/-- The call succeeds and leaves these values. -/
def LeavesLine {T C : Type} (call : Option (LineResult T C)) (result : List T) : Prop :=
  ∃ embeddingLine, call = some (.ok (), result, embeddingLine)

/-- The buffers of a call fit. -/
structure LinesFit (sizes : LineSizes) (dataLen embeddingLen scratchLen : ℕ) : Prop where
  lines : sizes.lineLen ∣ dataLen
  embedding : sizes.embeddingLen ≤ embeddingLen
  scratch : sizes.scratchLen ≤ scratchLen

section Calls

variable {n : ℕ} {kind called : R2rKind} {plan : LocalR2rPlan ℝ valueKind}
  {embeddingLine : List (ComplexValue ℝ)} {scratchLen : ℕ}

theorem executeOutOfPlace_returns (hplan : IsR2rPlan n kind plan) (hcalled : IsCalled kind called)
    (scale : Option ℝ) {src dst : List (R2rScalar ℝ valueKind)} (hsame : src.length = dst.length)
    (hfit : LinesFit plan.sizes src.length embeddingLine.length scratchLen) :
    LeavesLine (plan.executeOutOfPlace called scale src dst embeddingLine scratchLen)
      (mapLines n (onComponents (scaledLine called (scale.getD 1))) src) := by
  have hlineLen : plan.sizes.lineLen = n := hplan.lineLen
  rw [← hlineLen]
  unfold LocalR2rPlan.executeOutOfPlace
  apply forEachOutOfPlaceLine_eq (hlineLen ▸ hplan.valid.1) hsame hfit.lines hfit.embedding
    hfit.scratch
  · intro line hline
    rw [length_onComponents (length_scaledLine called _), hline]
  · exact Or.inl rfl
  · intro _ values written buffer hvalues hwritten hbuffer
    rw [hwritten, hlineLen]
    exact line_eq hplan hcalled scale hfit.scratch (hvalues.trans hlineLen) hbuffer

theorem executeInPlace_returns (hplan : IsR2rPlan n kind plan) (hcalled : IsCalled kind called)
    (scale : Option ℝ) {data : List (R2rScalar ℝ valueKind)}
    (hfit : LinesFit plan.sizes data.length embeddingLine.length scratchLen) :
    LeavesLine (plan.executeInPlace called scale data embeddingLine scratchLen)
      (mapLines n (onComponents (scaledLine called (scale.getD 1))) data) := by
  have hlineLen : plan.sizes.lineLen = n := hplan.lineLen
  rw [← hlineLen]
  unfold LocalR2rPlan.executeInPlace
  apply forEachInPlaceLine_eq (hlineLen ▸ hplan.valid.1) hfit.lines hfit.embedding hfit.scratch
  · intro line hline
    rw [length_onComponents (length_scaledLine called _), hline]
  · exact Or.inl rfl
  · intro _ values buffer hvalues hbuffer
    rw [hvalues, hlineLen]
    exact line_eq hplan hcalled scale hfit.scratch (hvalues.trans hlineLen) hbuffer

end Calls

/-! ## There and back -/

/-- A real multiple of a scalar. -/
def scaleScalar (c : ℝ) (value : R2rScalar ℝ valueKind) : R2rScalar ℝ valueKind :=
  fromComplex ⟨c * (toComplex value).re, c * (toComplex value).im⟩

theorem getElem?_onComponents {transform : List ℝ → List ℝ}
    (h : ∀ values, (transform values).length = values.length)
    {values : List (R2rScalar ℝ valueKind)} {k : ℕ} (hk : k < values.length) :
    (onComponents transform values)[k]? = some (fromComplex
      ⟨(transform (values.map fun value => (toComplex value).re)).getD k 0,
        (transform (values.map fun value => (toComplex value).im)).getD k 0⟩) := by
  unfold onComponents
  rw [List.getElem?_zipWith, List.getElem?_eq_getElem (by rwa [h, List.length_map]),
    List.getElem?_eq_getElem (by rwa [h, List.length_map]), List.getD_eq_getElem?_getD,
    List.getD_eq_getElem?_getD, List.getElem?_eq_getElem (by rwa [h, List.length_map]),
    List.getElem?_eq_getElem (by rwa [h, List.length_map])]
  rfl

/-- The parts of a transformed line. -/
theorem map_part_onComponents {transform : List ℝ → List ℝ}
    (h : ∀ values, (transform values).length = values.length)
    (values : List (R2rScalar ℝ valueKind)) (f : ComplexValue ℝ → ℝ)
    (hf : ∀ z : ComplexValue ℝ, f (toComplex ((fromComplex z : R2rScalar ℝ valueKind))) = f z) :
    (onComponents transform values).map (fun value => f (toComplex value))
      = List.zipWith (fun re im => f ⟨re, im⟩)
        (transform (values.map fun value => (toComplex value).re))
        (transform (values.map fun value => (toComplex value).im)) := by
  unfold onComponents
  rw [List.map_zipWith]
  simp only [hf]

theorem zipWith_fst {A B : List ℝ} (h : A.length = B.length) :
    List.zipWith (fun a _ => a) A B = A := by
  apply List.ext_getElem?
  intro k
  rw [List.getElem?_zipWith]
  by_cases hk : k < A.length
  · rw [List.getElem?_eq_getElem hk, List.getElem?_eq_getElem (h ▸ hk)]
  · rw [List.getElem?_eq_none (by omega)]

theorem zipWith_snd {A B : List ℝ} (h : A.length = B.length) :
    List.zipWith (fun _ b => b) A B = B := by
  rw [List.zipWith_comm]
  exact zipWith_fst h.symm

/-- **Two transforms** of the parts, one after the other. -/
theorem onComponents_onComponents {transform transform' : List ℝ → List ℝ}
    (h : ∀ values, (transform values).length = values.length)
    (h' : ∀ values, (transform' values).length = values.length)
    (values : List (R2rScalar ℝ valueKind)) :
    onComponents transform' (onComponents transform values)
      = onComponents (fun line => transform' (transform line)) values := by
  have hcomposed : ∀ line, (transform' (transform line)).length = line.length := fun line =>
    (h' _).trans (h line)
  have hparts : (transform (values.map fun value => (toComplex value).re)).length
      = (transform (values.map fun value => (toComplex value).im)).length := by
    rw [h, h, List.length_map, List.length_map]
  have hre := (map_part_onComponents h values ComplexValue.re fun _ => by
    cases valueKind <;> rfl).trans (zipWith_fst hparts)
  apply List.ext_getElem?
  intro k
  by_cases hk : k < values.length
  · rw [getElem?_onComponents h' (by rwa [length_onComponents h]),
      getElem?_onComponents hcomposed hk, hre]
    cases valueKind with
    | real => rfl
    | complex =>
      have him := (map_part_onComponents h values ComplexValue.im fun _ => rfl).trans
        (zipWith_snd hparts)
      rw [him]
  · rw [List.getElem?_eq_none, List.getElem?_eq_none]
    · rw [length_onComponents hcomposed]
      omega
    · rw [length_onComponents h', length_onComponents h]
      omega

theorem onComponents_map_mul (c : ℝ) (values : List (R2rScalar ℝ valueKind)) :
    onComponents (List.map (c * ·)) values = values.map (scaleScalar c) := by
  unfold onComponents
  rw [List.map_map, List.map_map, List.zipWith_map_left, List.zipWith_map_right, List.zipWith_self]
  rfl

theorem onComponents_congr {n : ℕ} {transform transform' : List ℝ → List ℝ}
    (h : ∀ line, line.length = n → transform line = transform' line)
    {values : List (R2rScalar ℝ valueKind)} (hvalues : values.length = n) :
    onComponents transform values = onComponents transform' values := by
  unfold onComponents
  rw [h _ (by rwa [List.length_map]), h _ (by rwa [List.length_map])]

theorem scaleScalar_one : (scaleScalar 1 : R2rScalar ℝ valueKind → R2rScalar ℝ valueKind) = id := by
  funext value
  cases valueKind with
  | real => exact one_mul (M := ℝ) value
  | complex => exact congrArg₂ ComplexValue.mk (one_mul _) (one_mul _)

/-- **There and back** on a line. -/
theorem scaledLine_fftwLine {kind : R2rKind} {values : List ℝ}
    (h : ValidLength kind values.length) (scale : ℝ) :
    scaledLine kind.backwardKind scale (fftwLine kind values)
      = values.map (transformFactor kind values.length * scale * ·) := by
  unfold scaledLine fftwLine
  rw [length_kernelLine, kernelLine_kernelLine fun j hj l hl => sum_fftwCoefficient_eq h hj hl,
    List.map_map]
  refine List.map_congr_left fun value _ => ?_
  show transformFactor kind values.length * value * scale = _
  ring

/-- **There and back** on a batch. -/
theorem mapLines_roundTrip {n : ℕ} {kind : R2rKind} (h : ValidLength kind n) (scale : ℝ)
    {source : List (R2rScalar ℝ valueKind)} (hdvd : n ∣ source.length) :
    mapLines n (onComponents (scaledLine kind.backwardKind scale))
        (mapLines n (onComponents (fftwLine kind)) source)
      = source.map (scaleScalar (transformFactor kind n * scale)) := by
  have hlength : ∀ values, (fftwLine kind values).length = values.length := fun values =>
    length_kernelLine _ values
  have hlength' : ∀ values, (scaledLine kind.backwardKind scale values).length = values.length :=
    length_scaledLine _ _
  rw [mapLines_mapLines h.1 hdvd _ fun line hline => (length_onComponents hlength line).trans hline,
    ← mapLines_map h.1 hdvd]
  apply mapLines_congr h.1 hdvd
  intro line hline
  rw [onComponents_onComponents hlength hlength', ← onComponents_map_mul]
  apply onComponents_congr _ hline
  intro values hvalues
  rw [scaledLine_fftwLine (hvalues.symm ▸ h), hvalues]

/-- **The real-to-real transforms.**  The embedding of a line is written at different positions
inside it and read at bins inside it; every call, out of place or in place, computes the transform
as it is defined of every line, of the real and the imaginary parts alike; and a raw or normalized
way back after a forward call multiplies by the normalization factor or not at all. -/
theorem r2r_computes_fftw {planFftForward : ℕ → FftKernel (ComplexValue ℝ)}
    (hexact : ExactFft planFftForward) {realSize n : ℕ} {kind : R2rKind}
    {plan : LocalR2rPlan ℝ valueKind}
    (hplan : LocalR2rPlan.new planFftForward realSize valueKind n kind = .ok plan) :
    (∀ called, IsCalled kind called → ∀ source : List (R2rScalar ℝ valueKind),
      source.length = n → ∃ embedding, embed called n plan.embeddingLen source = some embedding ∧
        embedding.log.Nodup ∧ (∀ p ∈ embedding.log, p < plan.embeddingLen) ∧
        ∀ k < n, outputBin called k < plan.embeddingLen) ∧
    plan.normalizationFactor = transformFactor kind n ∧
    (∀ (src dst : List (R2rScalar ℝ valueKind)) embeddingLine scratchLen,
      src.length = dst.length →
      LinesFit plan.sizes src.length embeddingLine.length scratchLen →
      LeavesLine (plan.forward src dst embeddingLine scratchLen)
        (mapLines n (onComponents (fftwLine kind)) src) ∧
      LeavesLine (plan.forwardInPlace src embeddingLine scratchLen)
        (mapLines n (onComponents (fftwLine kind)) src) ∧
      LeavesLine (plan.backward src dst embeddingLine scratchLen)
        (mapLines n (onComponents (fftwLine kind.backwardKind)) src) ∧
      LeavesLine (plan.backwardInPlace src embeddingLine scratchLen)
        (mapLines n (onComponents (fftwLine kind.backwardKind)) src) ∧
      LeavesLine (plan.inverse src dst embeddingLine scratchLen)
        (mapLines n (onComponents (scaledLine kind.backwardKind
          (1 / plan.normalizationFactor))) src) ∧
      LeavesLine (plan.inverseInPlace src embeddingLine scratchLen)
        (mapLines n (onComponents (scaledLine kind.backwardKind
          (1 / plan.normalizationFactor))) src)) ∧
    ∀ source : List (R2rScalar ℝ valueKind), n ∣ source.length →
      mapLines n (onComponents (fftwLine kind.backwardKind))
          (mapLines n (onComponents (fftwLine kind)) source)
        = source.map (scaleScalar plan.normalizationFactor) ∧
      mapLines n (onComponents (scaledLine kind.backwardKind (1 / plan.normalizationFactor)))
          (mapLines n (onComponents (fftwLine kind)) source) = source := by
  have h := isR2rPlan_of_new hexact hplan
  have hsame : IsCalled kind kind := Or.inl rfl
  have hback : IsCalled kind kind.backwardKind := Or.inr rfl
  refine ⟨?_, h.factor, ?_, ?_⟩
  · intro called hcalled source hsource
    subst hsource
    have hvalid := hcalled.valid h.valid
    have hlen := (hcalled.embeddingLength_eq source.length).trans h.embeddingLen.symm
    obtain ⟨moves, hmoves, hperm⟩ := embed_eq hvalid
    have hread : ∀ move ∈ moves, (some move.2 : Option (ComplexValue ℝ)).isSome :=
      fun _ _ => rfl
    obtain ⟨embedding, hembedding⟩ := Buf.moveAll_isSome (Buf.fresh (List.replicate
      (embeddingLength called source.length) (⟨0, 0⟩ : ComplexValue ℝ))) hread
    have hlog : embedding.log = moves.map Prod.fst := Buf.log_moveAll hembedding
    rw [← hlen]
    refine ⟨embedding, hmoves.trans hembedding, ?_, ?_, fun k hk => outputBin_lt hvalid hk⟩
    · rw [hlog, (hperm.map _).nodup_iff]
      exact nodup_lineMoves hvalid
    · intro p hp
      rw [hlog] at hp
      obtain ⟨move, hmove, rfl⟩ := List.mem_map.mp hp
      obtain ⟨entry, hentry, hmem⟩ := List.mem_flatMap.mp (hperm.mem_iff.mp hmove)
      exact valueMoves_lt hvalid (lt_of_mem_zipIdx hentry) hmem
  · intro src dst embeddingLine scratchLen hlength hfit
    rw [← scaledLine_one, ← scaledLine_one]
    unfold LocalR2rPlan.forward LocalR2rPlan.forwardInPlace LocalR2rPlan.backward
      LocalR2rPlan.backwardInPlace LocalR2rPlan.inverse LocalR2rPlan.inverseInPlace
    rw [h.kind_eq]
    exact ⟨executeOutOfPlace_returns h hsame none hlength hfit,
      executeInPlace_returns h hsame none hfit,
      executeOutOfPlace_returns h hback none hlength hfit,
      executeInPlace_returns h hback none hfit,
      executeOutOfPlace_returns h hback (some plan.normalizationScale) hlength hfit,
      executeInPlace_returns h hback (some plan.normalizationScale) hfit⟩
  · intro source hsource
    have hraw := mapLines_roundTrip h.valid 1 hsource
    have hscaled := mapLines_roundTrip h.valid (1 / plan.normalizationFactor) hsource
    rw [scaledLine_one, mul_one, ← h.factor] at hraw
    refine ⟨hraw, ?_⟩
    have hfactor : (transformFactor kind n : ℝ) ≠ 0 :=
      Nat.cast_ne_zero.mpr (transformFactor_pos h.valid).ne'
    rw [hscaled, h.factor, mul_one_div_cancel hfactor, scaleScalar_one, List.map_id]

/-! ### A plan for pairs -/

def ofNumber (z : ℂ) : ComplexValue ℝ := ⟨z.re, z.im⟩

/-- A planner whose transforms are what they are defined to be. -/
noncomputable def definingFft (length : ℕ) : FftKernel (ComplexValue ℝ) where
  transform values := (dftLine (unitRoot length)⁻¹ (values.map toNumber)).map ofNumber
  immutableScratchLen := 0
  inplaceScratchLen := 0
  length_transform values := by rw [List.length_map, length_dftLine, List.length_map]

theorem exactFft_defining : ExactFft definingFft := by
  intro length values _
  show ((dftLine _ _).map ofNumber).map toNumber = _
  rw [List.map_map]
  exact List.map_id' _

noncomputable def pairsPlan : LocalR2rPlan ℝ .complex :=
  ⟨2, .dctII, 8, 0, 4, definingFft 8⟩

theorem r2r_computes_fftw_pairs :
    pairsPlan.normalizationFactor = 4 ∧
      LeavesLine (pairsPlan.forward [⟨1, 2⟩, ⟨3, 4⟩] [⟨0, 0⟩, ⟨0, 0⟩] (List.replicate 8 ⟨0, 0⟩) 0)
        (mapLines 2 (onComponents (fftwLine .dctII)) [⟨1, 2⟩, ⟨3, 4⟩]) := by
  have hplan : LocalR2rPlan.new definingFft 8 .complex 2 .dctII = .ok pairsPlan := rfl
  obtain ⟨_, hfactor, hcalls, _⟩ := r2r_computes_fftw exactFft_defining hplan
  refine ⟨hfactor, (hcalls [⟨1, 2⟩, ⟨3, 4⟩] [⟨0, 0⟩, ⟨0, 0⟩] (List.replicate 8 ⟨0, 0⟩) 0 rfl ?_).1⟩
  exact ⟨dvd_refl 2, by simp [pairsPlan, LocalR2rPlan.sizes], le_rfl⟩

end PencilRs.Analysis
