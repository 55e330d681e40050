import PencilRs.Analysis.R2r
import PencilRs.Model.Dht

/-!
# Local discrete Hartley transforms

The transform of the real part of a line is even in the bins of its FFT where the transform of the
imaginary part is odd, so that a bin and its mirror image give both.  The Hartley transform is its
own way back, up to the length of the line.
-/

set_option autoImplicit false

namespace PencilRs.Analysis

open PencilRs.Computation PencilRs.Model R2r

variable {valueKind : ValueKind}

/-! ## Coefficients -/

/-- The coefficient of value `j` in output `k` of a line of `n` values.

SOURCE: dht.rs:445-460 -/
noncomputable def casCoefficient (n j k : ℕ) : ℝ := Real.cos (angle n j k) + Real.sin (angle n j k)

/-- The Hartley transform of a line, as it is defined. -/
noncomputable def dhtLine (values : List ℝ) : List ℝ :=
  kernelLine (casCoefficient values.length) values

theorem length_dhtLine (values : List ℝ) : (dhtLine values).length = values.length :=
  length_kernelLine _ values

/-- **Orthogonality**: the transform is its own way back. -/
theorem sum_casCoefficient {n j l : ℕ} (hj : j < n) (hl : l < n) :
    ∑ k ∈ Finset.range n, casCoefficient n j k * casCoefficient n k l
      = if j = l then (n : ℝ) else 0 := by
  have hterm : ∀ k ∈ Finset.range n, casCoefficient n j k * casCoefficient n k l
      = Real.cos (2 * Real.pi * ((j - l : ℤ) : ℝ) / n * k)
        + Real.sin (2 * Real.pi * ((j + l : ℤ) : ℝ) / n * k) := by
    intro k _
    have hdiff : 2 * Real.pi * ((j - l : ℤ) : ℝ) / n * k = angle n j k - angle n k l := by
      unfold angle
      push_cast
      ring
    have htotal : 2 * Real.pi * ((j + l : ℤ) : ℝ) / n * k = angle n j k + angle n k l := by
      unfold angle
      push_cast
      ring
    rw [hdiff, htotal, Real.cos_sub, Real.sin_add]
    unfold casCoefficient
    ring
  rw [Finset.sum_congr rfl hterm, Finset.sum_add_distrib, sum_cos_period (by omega),
    sum_sin_period (by omega), add_zero]
  exact if_congr (dvd_sub_iff hj hl) rfl rfl

theorem dhtLine_dhtLine (values : List ℝ) :
    dhtLine (dhtLine values) = values.map ((values.length : ℝ) * ·) := by
  unfold dhtLine
  rw [length_kernelLine]
  exact kernelLine_kernelLine fun j hj l hl => sum_casCoefficient hj hl

/-! ## Bins -/

/-- The cosine and sine sums of some values at a bin. -/
noncomputable def cosSum (n : ℕ) (values : ℕ → ℝ) (k : ℕ) : ℝ :=
  ∑ j ∈ Finset.range n, values j * Real.cos (angle n j k)

noncomputable def sinSum (n : ℕ) (values : ℕ → ℝ) (k : ℕ) : ℝ :=
  ∑ j ∈ Finset.range n, values j * Real.sin (angle n j k)

theorem cosSum_add_sinSum (n : ℕ) (values : ℕ → ℝ) (k : ℕ) : cosSum n values k + sinSum n values k
    = ∑ j ∈ Finset.range n, values j * casCoefficient n j k := by
  unfold cosSum sinSum
  rw [← Finset.sum_add_distrib]
  exact Finset.sum_congr rfl fun j _ => (mul_add ..).symm

/-- The angles of the mirror image of a bin. -/
theorem angle_mirror {n k : ℕ} (hk : k ≤ n) (hn : 0 < n) (j : ℕ) :
    angle n j (n - k) = j * (2 * Real.pi) - angle n j k := by
  have hn' : (n : ℝ) ≠ 0 := Nat.cast_ne_zero.mpr hn.ne'
  unfold angle
  rw [Nat.cast_sub hk]
  field_simp

theorem cosSum_mirror {n k : ℕ} (hk : k ≤ n) (hn : 0 < n) (values : ℕ → ℝ) :
    cosSum n values (n - k) = cosSum n values k := by
  refine Finset.sum_congr rfl fun j _ => ?_
  rw [angle_mirror hk hn, Real.cos_nat_mul_two_pi_sub]

theorem sinSum_mirror {n k : ℕ} (hk : k ≤ n) (hn : 0 < n) (values : ℕ → ℝ) :
    sinSum n values (n - k) = -sinSum n values k := by
  unfold sinSum
  rw [← Finset.sum_neg_distrib]
  refine Finset.sum_congr rfl fun j _ => ?_
  rw [angle_mirror hk hn, Real.sin_nat_mul_two_pi_sub]
  ring

/-- **The bins that are their own mirror images** hold no sines. -/
theorem sinSum_self {n k : ℕ} (hn : 0 < n) (hk : k = 0 ∨ n % 2 = 0 ∧ k = n / 2)
    (values : ℕ → ℝ) : sinSum n values k = 0 := by
  have hn' : (n : ℝ) ≠ 0 := Nat.cast_ne_zero.mpr hn.ne'
  apply Finset.sum_eq_zero
  intro j _
  have hsin : Real.sin (angle n j k) = 0 := by
    cases hk with
    | inl hzero =>
      unfold angle
      simp [hzero]
    | inr hhalf =>
      have htwice : (n : ℝ) = 2 * k := by
        have heq : n = 2 * k := by omega
        exact_mod_cast heq
      have hk' : (k : ℝ) ≠ 0 := by
        intro hzero
        rw [htwice, hzero, mul_zero] at hn'
        exact hn' rfl
      have hangle : angle n j k = j * Real.pi := by
        unfold angle
        rw [htwice]
        field_simp
      rw [hangle, Real.sin_nat_mul_pi]
  rw [hsin, mul_zero]

/-- **A bin** of the FFT of a line. -/
theorem dftLine_bin {values : List (ComplexValue ℝ)} {k : ℕ} (hk : k < values.length)
    {bin : ComplexValue ℝ}
    (h : (dftLine (unitRoot values.length)⁻¹ (values.map toNumber))[k]? = some (toNumber bin)) :
    bin.re = cosSum values.length (fun j => (values.map ComplexValue.re).getD j 0) k
        + sinSum values.length (fun j => (values.map ComplexValue.im).getD j 0) k ∧
      bin.im = cosSum values.length (fun j => (values.map ComplexValue.im).getD j 0) k
        - sinSum values.length (fun j => (values.map ComplexValue.re).getD j 0) k := by
  rw [getElem?_dftLine (by rwa [List.length_map]), List.length_map, Option.some_inj] at h
  have hterm : ∀ j ∈ Finset.range values.length,
      (values.map toNumber).getD j 0 * (unitRoot values.length)⁻¹ ^ (j * k)
        = (⟨(values.map ComplexValue.re).getD j 0 * Real.cos (angle values.length j k)
            + (values.map ComplexValue.im).getD j 0 * Real.sin (angle values.length j k),
          (values.map ComplexValue.im).getD j 0 * Real.cos (angle values.length j k)
            - (values.map ComplexValue.re).getD j 0 * Real.sin (angle values.length j k)⟩ : ℂ) := by
    intro j hj
    have hget := List.getElem?_eq_getElem (Finset.mem_range.mp hj)
    simp only [List.getD_eq_getElem?_getD, List.getElem?_map, hget, Option.map_some,
      Option.getD_some]
    rw [unitRoot_inv_pow]
    generalize Real.cos (angle values.length j k) = c
    generalize Real.sin (angle values.length j k) = s
    unfold toNumber
    apply Complex.ext
    · simp
    · simp
      ring
  rw [Finset.sum_congr rfl hterm] at h
  have hre := congrArg Complex.re h
  have him := congrArg Complex.im h
  rw [Complex.re_sum, Finset.sum_add_distrib] at hre
  rw [Complex.im_sum, Finset.sum_sub_distrib] at him
  exact ⟨hre.symm, him.symm⟩

/-! ## Recombination -/

theorem halfSum_eq (x y : ℝ) : halfSum x y = (x + y) / 2 := by
  unfold halfSum
  split <;> ring

/-- What a normalizing call multiplies by. -/
noncomputable def dhtScale (normalize : Bool) (n : ℕ) : ℝ := if normalize then 1 / n else 1

theorem scaledParts_eq (real imaginary : ℝ) (normalize : Bool) (n : ℕ) :
    scaledParts real imaginary normalize n
      = ⟨real * dhtScale normalize n, imaginary * dhtScale normalize n⟩ := by
  cases normalize <;> simp [scaledParts, dhtScale, div_eq_mul_inv]

theorem scaled_eq (value : ComplexValue ℝ) (normalize : Bool) (n : ℕ) :
    scaled value normalize n
      = ⟨value.re * dhtScale normalize n, value.im * dhtScale normalize n⟩ := by
  cases normalize with
  | false => simp [scaled, dhtScale]
  | true =>
    show scaledParts value.re value.im true n = _
    exact scaledParts_eq ..

/-! ## Lines -/

/-- The transform of a line, divided by its length if the call normalizes. -/
noncomputable def scaledDht (normalize : Bool) (values : List ℝ) : List ℝ :=
  (dhtLine values).map (· * dhtScale normalize values.length)

theorem length_scaledDht (normalize : Bool) (values : List ℝ) :
    (scaledDht normalize values).length = values.length := by
  unfold scaledDht
  rw [List.length_map, length_dhtLine]

theorem scaledDht_false : scaledDht false = dhtLine := by
  funext values
  unfold scaledDht dhtScale
  simp

theorem getD_scaledDht (normalize : Bool) {values : List ℝ} {k : ℕ} (hk : k < values.length) :
    (scaledDht normalize values).getD k 0
      = (cosSum values.length (values.getD · 0) k + sinSum values.length (values.getD · 0) k)
        * dhtScale normalize values.length := by
  unfold scaledDht dhtLine
  rw [List.getD_eq_getElem?_getD, List.getElem?_map, getElem?_kernelLine hk, Option.map_some,
    Option.getD_some, cosSum_add_sinSum]

/-- The plans of lines of `n` values. -/
structure IsDhtPlan (n : ℕ) (plan : LocalDhtPlan ℝ valueKind) : Prop where
  pos : 0 < n
  lineLen : plan.lineLen = n
  embeddingLen : plan.embeddingLen = n
  exact : ∀ values, values.length = n → (plan.fft.transform values).map toNumber
    = dftLine (unitRoot n)⁻¹ (values.map toNumber)

section Plan

variable {n : ℕ} {plan : LocalDhtPlan ℝ valueKind} {source : List (R2rScalar ℝ valueKind)}
  {scratchLen : ℕ}

/-- **One value**, from the transformed line. -/
theorem writeValue_eq (hplan : IsDhtPlan n plan) (hsource : source.length = n) (normalize : Bool)
    (rest : List (ComplexValue ℝ)) {k : ℕ} (hk : k < n) :
    plan.writeValue (plan.fft.transform (source.map toComplex) ++ rest) normalize k
      = (onComponents (scaledDht normalize) source)[k]? := by
  subst hsource
  have hlength : (source.map toComplex).length = source.length := List.length_map _
  have htransformed : (plan.fft.transform (source.map toComplex)).length = source.length :=
    (plan.fft.length_transform _).trans hlength
  -- The parts of a bin of the transformed line.
  have hbin : ∀ b (hb : b < source.length), ∃ bin,
      (plan.fft.transform (source.map toComplex) ++ rest)[b]? = some bin ∧
      bin.re = cosSum source.length
          ((source.map fun value => (toComplex value).re).getD · 0) b
        + sinSum source.length ((source.map fun value => (toComplex value).im).getD · 0) b ∧
      bin.im = cosSum source.length
          ((source.map fun value => (toComplex value).im).getD · 0) b
        - sinSum source.length ((source.map fun value => (toComplex value).re).getD · 0) b := by
    intro b hb
    have hget := List.getElem?_eq_getElem (htransformed.symm ▸ hb)
    refine ⟨_, (List.getElem?_append_left (htransformed.symm ▸ hb)).trans hget, ?_⟩
    have hexact := congrArg (·[b]?) (hplan.exact _ hlength)
    simp only [List.getElem?_map, hget, Option.map_some] at hexact
    have hnumbers : b < (source.map toComplex).length := by rwa [hlength]
    have hparts := dftLine_bin hnumbers
      (by rw [hlength]; exact hexact.symm)
    rw [hlength, List.map_map, List.map_map] at hparts
    exact hparts
  obtain ⟨value, hvalue, hre, him⟩ := hbin k hk
  rw [getElem?_onComponents (length_scaledDht normalize) hk,
    getD_scaledDht normalize (by rwa [List.length_map]),
    getD_scaledDht normalize (by rwa [List.length_map]), List.length_map, List.length_map]
  unfold LocalDhtPlan.writeValue
  rw [hvalue, hplan.lineLen, Option.bind_eq_bind, Option.bind_some]
  split
  · rename_i hself
    rw [scaled_eq, hre, him, sinSum_self hplan.pos hself, sinSum_self hplan.pos hself]
    simp only [add_zero, sub_zero]
    rfl
  · rename_i hself
    rw [not_or] at hself
    have hmirrorLt : source.length - k < source.length := by omega
    obtain ⟨mirror, hmirror, hmirrorRe, hmirrorIm⟩ := hbin (source.length - k) hmirrorLt
    have hsub : checkedSub source.length k = some (source.length - k) :=
      checkedSub_eq_some.mpr ⟨hk.le, rfl⟩
    rw [cosSum_mirror hk.le hplan.pos, sinSum_mirror hk.le hplan.pos] at hmirrorRe hmirrorIm
    rw [hsub, Option.bind_eq_bind, Option.bind_some, hmirror, Option.bind_some]
    unfold separate
    simp only [scaledParts_eq, halfSum_eq, hre, him, hmirrorRe, hmirrorIm]
    show some _ = some _
    congr 3 <;> ring

/-- **One line.** -/
theorem dht_line_eq (hplan : IsDhtPlan n plan) (normalize : Bool)
    (hscratch : plan.scratchLen ≤ scratchLen) (hsource : source.length = n)
    {embeddingLine : List (ComplexValue ℝ)} (hline : plan.embeddingLen ≤ embeddingLine.length) :
    ∃ embeddingLine', plan.line normalize scratchLen source n embeddingLine
        = some (onComponents (scaledDht normalize) source, embeddingLine') ∧
      embeddingLine'.length = embeddingLine.length := by
  subst hsource
  have hlength : (source.map (toComplex (R := ℝ))).length = plan.embeddingLen :=
    (List.length_map _).trans hplan.embeddingLen.symm
  have hpos : 0 < plan.embeddingLen := hplan.embeddingLen ▸ hplan.pos
  refine ⟨plan.fft.transform (source.map toComplex) ++ embeddingLine.drop plan.embeddingLen,
    ?_, ?_⟩
  · have hfill : plan.fillAndFft source embeddingLine scratchLen = some
        (plan.fft.transform (source.map toComplex) ++ embeddingLine.drop plan.embeddingLen) := by
      unfold LocalDhtPlan.fillAndFft
      rw [guard, if_pos ⟨hline, hscratch⟩, List.take_of_length_le hlength.le,
        List.drop_eq_nil_of_le (by rw [List.length_take, hplan.embeddingLen]; omega),
        List.append_nil]
      show some (plan.fft.process plan.embeddingLen (source.map toComplex) ++ _) = _
      rw [process_single plan.fft hpos hlength]
    have hwrite : plan.writeLine source.length
        (plan.fft.transform (source.map toComplex) ++ embeddingLine.drop plan.embeddingLen)
        normalize = some (onComponents (scaledDht normalize) source) := by
      have hresult := length_onComponents (length_scaledDht normalize) source
      unfold LocalDhtPlan.writeLine
      rw [← hresult]
      apply mapM_range_eq_some
      intro k hk
      exact writeValue_eq hplan rfl normalize _ (hresult ▸ hk)
    unfold LocalDhtPlan.line
    rw [hfill, Option.bind_eq_bind, Option.bind_some, hwrite]
    rfl
  · rw [List.length_append, plan.fft.length_transform, hlength, List.length_drop]
    omega

end Plan

/-! ## Calls -/

theorem isDhtPlan_of_new {planFftForward : ℕ → FftKernel (ComplexValue ℝ)}
    (hexact : ExactFft planFftForward) {realSize n : ℕ} {plan : LocalDhtPlan ℝ valueKind}
    (h : LocalDhtPlan.new planFftForward realSize valueKind n = .ok plan) : IsDhtPlan n plan := by
  unfold LocalDhtPlan.new validateDhtLengths at h
  obtain ⟨_, hvalid, h⟩ := bind_eq_ok.mp h
  obtain ⟨_, hpos, hvalid⟩ := bind_eq_ok.mp hvalid
  obtain ⟨_, _, h⟩ := bind_eq_ok.mp h
  obtain rfl := Except.ok.inj h
  rw [ensure_eq_ok, decide_eq_true_eq] at hpos
  exact ⟨Nat.pos_of_ne_zero hpos, rfl, rfl, fun values => hexact n values⟩

/-- The transform of a single value is the value. -/
theorem mapLines_scaledDht_one (normalize : Bool) (source : List (R2rScalar ℝ valueKind)) :
    mapLines 1 (onComponents (scaledDht normalize)) source = source := by
  have hdvd : 1 ∣ source.length := one_dvd _
  have hone : ∀ values : List ℝ, values.length = 1 → scaledDht normalize values = values.map (1 * ·)
      := by
    intro values hvalues
    obtain ⟨x, rfl⟩ := List.length_eq_one_iff.mp hvalues
    cases normalize <;>
      simp [scaledDht, dhtLine, kernelLine, casCoefficient, angle, dhtScale]
  calc mapLines 1 (onComponents (scaledDht normalize)) source
      = mapLines 1 (List.map (scaleScalar 1)) source := by
        apply mapLines_congr one_pos hdvd
        intro line hline
        rw [onComponents_congr hone hline, onComponents_map_mul]
    _ = source := by rw [mapLines_map one_pos hdvd, scaleScalar_one, List.map_id]

section Calls

variable {n : ℕ} {plan : LocalDhtPlan ℝ valueKind} {embeddingLine : List (ComplexValue ℝ)}
  {scratchLen : ℕ}

theorem dht_executeOutOfPlace_returns (hplan : IsDhtPlan n plan) (normalize : Bool)
    {src dst : List (R2rScalar ℝ valueKind)} (hsame : src.length = dst.length)
    (hfit : LinesFit plan.sizes src.length embeddingLine.length scratchLen) :
    LeavesLine (plan.executeOutOfPlace src dst embeddingLine scratchLen normalize)
      (mapLines n (onComponents (scaledDht normalize)) src) := by
  have hlineLen : plan.sizes.lineLen = n := hplan.lineLen
  rw [← hlineLen]
  unfold LocalDhtPlan.executeOutOfPlace
  apply forEachOutOfPlaceLine_eq (hlineLen ▸ hplan.pos) hsame hfit.lines hfit.embedding hfit.scratch
  · intro line hline
    rw [length_onComponents (length_scaledDht normalize), hline]
  · by_cases hone : plan.lineLen = 1
    · have hsizes : plan.sizes.lineLen = 1 := hone
      rw [if_pos hone, hsizes, mapLines_scaledDht_one]
      exact Or.inr rfl
    · exact Or.inl (if_neg hone)
  · intro _ values written buffer hvalues hwritten hbuffer
    rw [hwritten, hlineLen]
    exact dht_line_eq hplan normalize hfit.scratch (hvalues.trans hlineLen) hbuffer

theorem dht_executeInPlace_returns (hplan : IsDhtPlan n plan) (normalize : Bool)
    {data : List (R2rScalar ℝ valueKind)}
    (hfit : LinesFit plan.sizes data.length embeddingLine.length scratchLen) :
    LeavesLine (plan.executeInPlace data embeddingLine scratchLen normalize)
      (mapLines n (onComponents (scaledDht normalize)) data) := by
  have hlineLen : plan.sizes.lineLen = n := hplan.lineLen
  rw [← hlineLen]
  unfold LocalDhtPlan.executeInPlace
  apply forEachInPlaceLine_eq (hlineLen ▸ hplan.pos) hfit.lines hfit.embedding hfit.scratch
  · intro line hline
    rw [length_onComponents (length_scaledDht normalize), hline]
  · by_cases hone : plan.lineLen = 1
    · have hsizes : plan.sizes.lineLen = 1 := hone
      rw [if_pos hone, hsizes, mapLines_scaledDht_one]
      exact Or.inr rfl
    · exact Or.inl (if_neg hone)
  · intro _ values buffer hvalues hbuffer
    rw [hvalues, hlineLen]
    exact dht_line_eq hplan normalize hfit.scratch (hvalues.trans hlineLen) hbuffer

end Calls

/-- **There and back** on a batch. -/
theorem mapLines_dhtLine {n : ℕ} (hpos : 0 < n) (normalize : Bool)
    {source : List (R2rScalar ℝ valueKind)} (hdvd : n ∣ source.length) :
    mapLines n (onComponents (scaledDht normalize)) (mapLines n (onComponents dhtLine) source)
      = source.map (scaleScalar (n * dhtScale normalize n)) := by
  rw [mapLines_mapLines hpos hdvd _ fun line hline =>
    (length_onComponents length_dhtLine line).trans
    hline, ← mapLines_map hpos hdvd]
  apply mapLines_congr hpos hdvd
  intro line hline
  rw [onComponents_onComponents length_dhtLine (length_scaledDht normalize),
    ← onComponents_map_mul]
  apply onComponents_congr _ hline
  intro values hvalues
  unfold scaledDht
  rw [dhtLine_dhtLine, length_dhtLine, hvalues, List.map_map]
  refine List.map_congr_left fun value _ => ?_
  show (n : ℝ) * value * dhtScale normalize n = _
  ring

/-- **The Hartley transform.**  Every call, out of place or in place, computes the transform as it
is defined of every line, of the real and the imaginary parts alike; a second call multiplies by
the length of the lines, and a normalizing one gives the lines back. -/
theorem dht_computes_hartley {planFftForward : ℕ → FftKernel (ComplexValue ℝ)}
    (hexact : ExactFft planFftForward) {realSize n : ℕ} {plan : LocalDhtPlan ℝ valueKind}
    (hplan : LocalDhtPlan.new planFftForward realSize valueKind n = .ok plan) :
    (∀ (src dst : List (R2rScalar ℝ valueKind)) embeddingLine scratchLen,
      src.length = dst.length →
      LinesFit plan.sizes src.length embeddingLine.length scratchLen →
      LeavesLine (plan.forward src dst embeddingLine scratchLen)
        (mapLines n (onComponents dhtLine) src) ∧
      LeavesLine (plan.forwardInPlace src embeddingLine scratchLen)
        (mapLines n (onComponents dhtLine) src) ∧
      LeavesLine (plan.backward src dst embeddingLine scratchLen)
        (mapLines n (onComponents dhtLine) src) ∧
      LeavesLine (plan.backwardInPlace src embeddingLine scratchLen)
        (mapLines n (onComponents dhtLine) src) ∧
      LeavesLine (plan.inverse src dst embeddingLine scratchLen)
        (mapLines n (onComponents (scaledDht true)) src) ∧
      LeavesLine (plan.inverseInPlace src embeddingLine scratchLen)
        (mapLines n (onComponents (scaledDht true)) src)) ∧
    ∀ source : List (R2rScalar ℝ valueKind), n ∣ source.length →
      mapLines n (onComponents dhtLine) (mapLines n (onComponents dhtLine) source)
        = source.map (scaleScalar n) ∧
      mapLines n (onComponents (scaledDht true)) (mapLines n (onComponents dhtLine) source)
        = source := by
  have h := isDhtPlan_of_new hexact hplan
  constructor
  · intro src dst embeddingLine scratchLen hlength hfit
    rw [← scaledDht_false]
    exact ⟨dht_executeOutOfPlace_returns h false hlength hfit,
      dht_executeInPlace_returns h false hfit,
      dht_executeOutOfPlace_returns h false hlength hfit,
      dht_executeInPlace_returns h false hfit,
      dht_executeOutOfPlace_returns h true hlength hfit,
      dht_executeInPlace_returns h true hfit⟩
  · intro source hsource
    have hraw := mapLines_dhtLine h.pos false hsource
    have hscaled := mapLines_dhtLine h.pos true hsource
    have hn : (n : ℝ) ≠ 0 := Nat.cast_ne_zero.mpr h.pos.ne'
    have hunscaled : (n : ℝ) * dhtScale false n = n := mul_one _
    have hnormalized : (n : ℝ) * dhtScale true n = 1 := mul_one_div_cancel hn
    rw [scaledDht_false, hunscaled] at hraw
    rw [hnormalized, scaleScalar_one, List.map_id] at hscaled
    exact ⟨hraw, hscaled⟩

/-! ### A plan for lines of three values -/

noncomputable def triplesPlan : LocalDhtPlan ℝ .complex := ⟨3, 3, 0, definingFft 3⟩

theorem dht_computes_hartley_triples :
    LeavesLine (triplesPlan.forward [⟨1, 2⟩, ⟨3, 4⟩, ⟨5, 6⟩] [⟨0, 0⟩, ⟨0, 0⟩, ⟨0, 0⟩]
        (List.replicate 3 ⟨0, 0⟩) 0)
      (mapLines 3 (onComponents dhtLine) [⟨1, 2⟩, ⟨3, 4⟩, ⟨5, 6⟩]) := by
  have hplan : LocalDhtPlan.new definingFft 8 .complex 3 = .ok triplesPlan := rfl
  have hcalls := (dht_computes_hartley exactFft_defining hplan).1
  refine (hcalls [⟨1, 2⟩, ⟨3, 4⟩, ⟨5, 6⟩] [⟨0, 0⟩, ⟨0, 0⟩, ⟨0, 0⟩]
    (List.replicate 3 ⟨0, 0⟩) 0 rfl ?_).1
  exact ⟨dvd_refl 3, by simp [triplesPlan, LocalDhtPlan.sizes], le_rfl⟩

end PencilRs.Analysis
