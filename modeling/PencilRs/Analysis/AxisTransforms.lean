import PencilRs.Analysis.AxisLines

/-!
# Transforms along an axis

Whatever the stride of the axis, out of place or in place, the local transforms of a stage
apply one function to every line of the block along the axis.
-/

set_option autoImplicit false

namespace PencilRs.Analysis

open PencilRs.Computation PencilRs.Model

variable {N M : ℕ} {K ε : Type}

/-- `values` is the line of the block through the local position `x`. -/
def HoldsAxisLine (p : Pencil N M) (axis : Fin N) (e : ℕ) (x : Fin N → ℕ)
    (buffer values : List K) : Prop :=
  values.length = p.localShapeLogical axis ∧ ∀ k < p.localShapeLogical axis,
    buffer[e * p.localLen + layoutOffset p (Function.update x axis k)]? = values[k]?

/-- Every line of the `E` blocks in `result` is the transform of the line in `source`. -/
structure AxisTransformed (transform : List K → List K) (p : Pencil N M) (axis : Fin N) (E : ℕ)
    (source result : List K) : Prop where
  length : result.length = source.length
  lines : ∀ e < E, ∀ x, ValidLocal p x → ∀ values, HoldsAxisLine p axis e x source values →
    result[e * p.localLen + layoutOffset p x]? = (transform values)[x axis]?

theorem extra_block_lt {E count e outer : ℕ} (he : e < E) (houter : outer < count) :
    e * count + outer < E * count := by
  calc e * count + outer < e * count + count := by omega
    _ = (e + 1) * count := by ring
    _ ≤ E * count := Nat.mul_le_mul_right _ he

/-- Lines of the buffer are lines of the block. -/
theorem LinesTransformed.axisTransformed {transform : List K → List K} {p : Pencil N M}
    {q axis : Fin N} {E stride : ℕ} {source result : List K}
    (hq : p.permutation.axesInMemoryOrder q = axis) (hstride : stride = lineStride p q)
    (hlen : result.length = source.length)
    (h : LinesTransformed transform (p.localShapeLogical axis) stride (E * blockCount p q) source
      result) : AxisTransformed transform p axis E source result where
  length := hlen
  lines := by
    subst hstride
    intro e he x hx values hvalues
    rw [element_linePlace hq]
    refine h _ (extra_block_lt he (lineOuter_lt hx)) _ (lineInner_lt hx) values
      ⟨hvalues.1, ?_⟩ _ (hx axis)
    intro k hk
    rw [← hvalues.2 k hk, element_linePlace hq, lineOuter_update hq, lineInner_update hq,
      Function.update_self]

/-- A block without elements has no lines. -/
theorem axisTransformed_of_empty (transform : List K → List K) {p : Pencil N M} {axis : Fin N}
    {E : ℕ} {source result : List K} (hlen : result.length = source.length)
    (hempty : E * p.localLen = 0) : AxisTransformed transform p axis E source result where
  length := hlen
  lines := by
    intro e he x hx
    have := layoutOffset_lt hx
    have hpos : 0 < E * p.localLen := Nat.mul_pos (by omega) (by omega)
    omega

theorem AxisTransformed.congr {transform transform' : List K → List K} {p : Pencil N M}
    {axis : Fin N} {E : ℕ} {source result : List K}
    (h : AxisTransformed transform p axis E source result)
    (heq : ∀ values : List K, values.length = p.localShapeLogical axis →
      transform values = transform' values) :
    AxisTransformed transform' p axis E source result where
  length := h.length
  lines := fun e he x hx values hvalues => by
    rw [h.lines e he x hx values hvalues, heq values hvalues.1]

/-! ## Kernels -/

section Strided

variable {transform : List K → List K} {errors : StridedErrors ε} {emptyBatch : Bool}
  {p : Pencil N M} {axis : Fin N} {E lineLen lineBufferLen : ℕ}

/-- What the batch and the line kernel of a strided transform do. -/
structure StridedKernels (transform : List K → List K) (lineLen : ℕ)
    (batch : List K → List K → Except (Stop ε) (List K))
    (line : List K → Except (Stop ε) (List K)) : Prop where
  length : ∀ values, values.length = lineLen → (transform values).length = lineLen
  batch : ∀ source destination, source.length = destination.length → lineLen ∣ source.length →
    ∃ result, batch source destination = .ok result ∧ result.length = source.length ∧
      LinesTransformed transform lineLen 1 (source.length / lineLen) source result
  line : ∀ values, values.length = lineLen → line values = .ok (transform values)

/-- How the extents of the block, its stride and its lines belong together. -/
theorem block_facts {q : Fin N} (hq : p.permutation.axesInMemoryOrder q = axis)
    (hlineLen : p.localShapeLogical axis = lineLen) (hpos : 0 < lineLen)
    (hstride : 0 < lineStride p q) :
    E * p.localLen = E * blockCount p q * (lineLen * lineStride p q) ∧
      E * p.localLen / (lineLen * lineStride p q) = E * blockCount p q ∧
      E * p.localLen % (lineLen * lineStride p q) = 0 := by
  have hlen : E * p.localLen = E * blockCount p q * (lineLen * lineStride p q) := by
    rw [localLen_lines hq, hlineLen, Nat.mul_assoc]
  refine ⟨hlen, ?_, ?_⟩
  · rw [hlen, Nat.mul_div_cancel _ (Nat.mul_pos hpos hstride)]
  · rw [hlen, Nat.mul_mod_left]

theorem lineStride_pos {q : Fin N} (h : p.localLen ≠ 0)
    (hq : p.permutation.axesInMemoryOrder q = axis) : 0 < lineStride p q := by
  refine Nat.pos_of_ne_zero fun hzero => h ?_
  rw [localLen_lines hq, hzero, Nat.mul_zero, Nat.mul_zero]

theorem stride_block_lt {q : Fin N} (h : p.localLen ≠ 0)
    (hq : p.permutation.axesInMemoryOrder q = axis) (hlineLen : p.localShapeLogical axis = lineLen) :
    lineLen * lineStride p q < usizeLimit := by
  have hlen := localLen_lines hq
  rw [hlineLen] at hlen
  have hcount : 0 < blockCount p q := by
    refine Nat.pos_of_ne_zero fun hzero => h ?_
    rw [hlen, hzero, Nat.zero_mul]
  calc lineLen * lineStride p q = 1 * (lineLen * lineStride p q) := (Nat.one_mul _).symm
    _ ≤ blockCount p q * (lineLen * lineStride p q) := Nat.mul_le_mul_right _ hcount
    _ = p.localLen := hlen.symm
    _ < usizeLimit := localLen_lt p

/-- The line buffer is long enough where lines are copied. -/
def LineBufferFits (p : Pencil N M) (axis lineLen lineBufferLen : ℕ) : Prop :=
  ∀ stride, memoryStride p axis = .ok stride → 1 < stride → lineLen ≤ lineBufferLen

/-- The number of lines of a stride. -/
theorem stridedLineCount_block {q : Fin N} (h : p.localLen ≠ 0)
    (hq : p.permutation.axesInMemoryOrder q = axis) (hlineLen : p.localShapeLogical axis = lineLen)
    (hpos : 0 < lineLen) :
    stridedLineCount (E * p.localLen) lineLen (lineStride p q) = .ok (E * blockCount p q) := by
  have hstride := lineStride_pos h hq
  obtain ⟨_, hcount, hrest⟩ := block_facts (E := E) hq hlineLen hpos hstride
  unfold stridedLineCount
  rw [if_neg (by omega)]
  refine bind_eq_ok.mpr ⟨_, okOr_eq_ok.mpr (checkedMul_eq_some.mpr
    ⟨stride_block_lt h hq hlineLen, rfl⟩), bind_eq_ok.mpr ⟨(), ?_, ?_⟩⟩
  · simp [hrest]
  · rw [hcount]
    rfl

/-- A batch of consecutive lines is what a unit stride asks for. -/
theorem axisTransformed_of_batch {q : Fin N} (hq : p.permutation.axesInMemoryOrder q = axis)
    (hlineLen : p.localShapeLogical axis = lineLen) (hpos : 0 < lineLen) {source result : List K}
    (hsource : source.length = E * p.localLen) (hlen : result.length = source.length)
    (hunit : p.localLen = 0 ∨ lineStride p q = 1)
    (h : LinesTransformed transform lineLen 1 (source.length / lineLen) source result) :
    AxisTransformed transform p axis E source result := by
  by_cases hzero : p.localLen = 0
  · exact axisTransformed_of_empty _ hlen (by rw [hzero, Nat.mul_zero])
  have hone : lineStride p q = 1 := hunit.resolve_left hzero
  obtain ⟨_, hcount, _⟩ := block_facts (E := E) hq hlineLen hpos (lineStride_pos hzero hq)
  apply LinesTransformed.axisTransformed hq hone.symm hlen
  rw [hone, Nat.mul_one] at hcount
  rwa [hlineLen, ← hcount, ← hsource]

variable {batch : List K → List K → Except (Stop ε) (List K)}
  {line : List K → Except (Stop ε) (List K)}

theorem dvd_of_axis (hlineLen : p.localShapeLogical axis = lineLen) :
    lineLen ∣ E * p.localLen := by
  obtain ⟨q, hq⟩ := p.permutation.surjective axis
  rw [localLen_lines hq, hlineLen]
  exact Dvd.dvd.mul_left (Dvd.dvd.mul_left (Dvd.intro _ rfl) _) _

/-- **A strided transform** from a source to a destination. -/
theorem executeStrided_eq (hkernels : StridedKernels transform lineLen batch line)
    (hlineLen : p.localShapeLogical axis = lineLen) (hpos : 0 < lineLen)
    (hbuffer : LineBufferFits p axis lineLen lineBufferLen)
    {source destination : List K} (hsource : source.length = E * p.localLen)
    (hdestination : destination.length = E * p.localLen) (hfit : E * p.localLen < usizeLimit) :
    ∃ result, executeStrided errors emptyBatch p axis lineLen lineBufferLen batch line source
        destination = .ok result ∧
      AxisTransformed transform p axis E source result := by
  obtain ⟨q, hq⟩ := p.permutation.surjective axis
  have hstride := memoryStride_eq hq
  obtain ⟨batched, hbatched, hbatchedLen, hlines⟩ := hkernels.batch source destination
    (hsource.trans hdestination.symm) (hsource ▸ dvd_of_axis hlineLen)
  unfold executeStrided
  rw [hstride]
  simp only [bind, Except.bind, Except.mapError]
  by_cases hzero : p.localLen = 0
  · rw [if_pos hzero, if_pos (Nat.zero_le 1)]
    exact ⟨batched, hbatched, axisTransformed_of_batch hq hlineLen hpos hsource hbatchedLen
      (Or.inl hzero) hlines⟩
  rw [if_neg hzero] at hstride ⊢
  by_cases hone : lineStride p q ≤ 1
  · have hstridePos := lineStride_pos hzero hq
    rw [if_pos hone]
    exact ⟨batched, hbatched, axisTransformed_of_batch hq hlineLen hpos hsource hbatchedLen
      (Or.inr (by omega)) hlines⟩
  · rw [if_neg hone]
    have hbufferLen := hbuffer _ hstride (by omega)
    have hvalid : validateStridedLineBuffer errors lineBufferLen lineLen = .ok () := by
      simp [validateStridedLineBuffer, hbufferLen]
    have hequal : (ensure (decide (destination.length = source.length))
        (Stop.error errors.lengthMismatch) : Except (Stop ε) Unit) = .ok () := by
      simp [hsource, hdestination]
    rw [hvalid, hsource, stridedLineCount_block hzero hq hlineLen hpos, ← hsource]
    simp only [hequal]
    split
    · rename_i hempty
      simp only [Bool.and_eq_true, List.isEmpty_iff] at hempty
      refine ⟨batched, hbatched, axisTransformed_of_empty _ hbatchedLen ?_⟩
      rw [← hsource, hempty.2]
      rfl
    · have hblocks := (block_facts (E := E) hq hlineLen hpos (lineStride_pos hzero hq)).1
      obtain ⟨result, hresult, hlen, htransformed⟩ := stridedLines_eq errors.lift
        (readsLines_const lineLen (lineStride p q) (E * blockCount p q) source destination)
        (hsource.trans hblocks) (hdestination.trans hblocks) (hblocks ▸ hfit)
        (stride_block_lt hzero hq hlineLen) hkernels.line hkernels.length hbufferLen
      refine ⟨result, hresult, LinesTransformed.axisTransformed hq rfl
        (hlen.trans (hdestination.trans hsource.symm)) ?_⟩
      rwa [hlineLen]

/-- **A strided transform** in place. -/
theorem executeStridedInPlace_eq {batch : List K → Except (Stop ε) (List K)}
    (hkernels : StridedKernels transform lineLen (fun source _ => batch source) line)
    (hlineLen : p.localShapeLogical axis = lineLen) (hpos : 0 < lineLen)
    (hbuffer : LineBufferFits p axis lineLen lineBufferLen)
    {data : List K} (hdata : data.length = E * p.localLen) (hfit : E * p.localLen < usizeLimit) :
    ∃ result, executeStridedInPlace errors emptyBatch p axis lineLen lineBufferLen batch line data
        = .ok result ∧
      AxisTransformed transform p axis E data result := by
  obtain ⟨q, hq⟩ := p.permutation.surjective axis
  have hstride := memoryStride_eq hq
  obtain ⟨batched, hbatched, hbatchedLen, hlines⟩ := hkernels.batch data data rfl
    (hdata ▸ dvd_of_axis hlineLen)
  unfold executeStridedInPlace
  rw [hstride]
  simp only [bind, Except.bind, Except.mapError]
  by_cases hzero : p.localLen = 0
  · rw [if_pos hzero, if_pos (Nat.zero_le 1)]
    exact ⟨batched, hbatched, axisTransformed_of_batch hq hlineLen hpos hdata hbatchedLen
      (Or.inl hzero) hlines⟩
  rw [if_neg hzero] at hstride ⊢
  by_cases hone : lineStride p q ≤ 1
  · have hstridePos := lineStride_pos hzero hq
    rw [if_pos hone]
    exact ⟨batched, hbatched, axisTransformed_of_batch hq hlineLen hpos hdata hbatchedLen
      (Or.inr (by omega)) hlines⟩
  · rw [if_neg hone]
    have hbufferLen := hbuffer _ hstride (by omega)
    have hvalid : validateStridedLineBuffer errors lineBufferLen lineLen = .ok () := by
      simp [validateStridedLineBuffer, hbufferLen]
    rw [hvalid, hdata, stridedLineCount_block hzero hq hlineLen hpos]
    simp only
    split
    · rename_i hempty
      simp only [Bool.and_eq_true, List.isEmpty_iff] at hempty
      refine ⟨batched, hbatched, axisTransformed_of_empty _ hbatchedLen ?_⟩
      rw [← hdata, hempty.2]
      rfl
    · have hblocks := (block_facts (E := E) hq hlineLen hpos (lineStride_pos hzero hq)).1
      obtain ⟨result, hresult, hlen, htransformed⟩ := stridedLines_eq errors.lift
        (readsLines_id lineLen (lineStride p q) (E * blockCount p q) data)
        (hdata.trans hblocks) (hdata.trans hblocks) (hblocks ▸ hfit)
        (stride_block_lt hzero hq hlineLen) hkernels.line hkernels.length hbufferLen
      refine ⟨result, hresult, LinesTransformed.axisTransformed hq rfl hlen ?_⟩
      rwa [hlineLen]

end Strided

/-! ## Complex kernels -/

section Complex

theorem getElem?_flatMap_range {count n : ℕ} {f : ℕ → List K}
    (hf : ∀ i < count, (f i).length = n) {i k : ℕ} (hi : i < count) (hk : k < n) :
    ((List.range count).flatMap f)[i * n + k]? = (f i)[k]? := by
  induction count with
  | zero => omega
  | succ count ih =>
    have hlen : ((List.range count).flatMap f).length = count * n := by
      rw [List.length_flatMap, List.map_congr_left fun j hj =>
        hf j (by have := List.mem_range.mp hj; omega)]
      simp
    rw [List.range_succ, List.flatMap_append, List.flatMap_singleton]
    by_cases hlast : i < count
    · rw [List.getElem?_append_left, ih (fun j hj => hf j (by omega)) hlast]
      rw [hlen]
      calc i * n + k < i * n + n := by omega
        _ = (i + 1) * n := by ring
        _ ≤ count * n := Nat.mul_le_mul_right _ hlast
    · obtain rfl : i = count := by omega
      rw [List.getElem?_append_right (by omega), hlen, Nat.add_sub_cancel_left]

/-- A batch is transformed line by line. -/
theorem process_lines (fft : FftKernel K) {lineLen : ℕ} (hpos : 0 < lineLen) {data : List K}
    (hdvd : lineLen ∣ data.length) :
    (fft.process lineLen data).length = data.length ∧
      LinesTransformed fft.transform lineLen 1 (data.length / lineLen) data
        (fft.process lineLen data) := by
  have hcount := Nat.div_mul_cancel hdvd
  have hchunk : ∀ i < data.length / lineLen,
      ((data.drop (i * lineLen)).take lineLen).length = lineLen := by
    intro i hi
    have hend : (i + 1) * lineLen ≤ data.length := hcount ▸ Nat.mul_le_mul_right _ hi
    rw [Nat.succ_mul] at hend
    rw [List.length_take, List.length_drop]
    omega
  have hlines : ∀ i < data.length / lineLen,
      (fft.transform ((data.drop (i * lineLen)).take lineLen)).length = lineLen := by
    intro i hi
    rw [fft.length_transform, hchunk i hi]
  constructor
  · unfold FftKernel.process
    rw [List.length_flatMap, List.map_congr_left fun i hi => hlines i (List.mem_range.mp hi)]
    simp [hcount]
  · intro outer houter inner hinner values hvalues k hk
    obtain rfl : inner = 0 := by omega
    have hline : (data.drop (outer * lineLen)).take lineLen = values := by
      apply List.ext_getElem?
      intro j
      by_cases hj : j < lineLen
      · have hget := hvalues.2 j hj
        unfold linePlace at hget
        rw [List.getElem?_take_of_lt hj, List.getElem?_drop, ← hget]
        congr 1
        ring
      · have hlen := hvalues.1
        rw [List.getElem?_eq_none (by rw [hchunk outer houter]; omega),
          List.getElem?_eq_none (by omega)]
    have hget := getElem?_flatMap_range hlines houter hk
    rw [hline] at hget
    unfold linePlace FftKernel.process
    rw [← hget]
    congr 1
    ring

variable {plan : LocalC2cPlan K} {scratchLen : ℕ}

theorem processOutOfPlace_eq (fft : FftKernel K)
    (hscratch : plan.scratchLen ≤ scratchLen) {source destination : List K}
    (hlen : source.length = destination.length) (hdvd : plan.lineLen ∣ source.length) :
    plan.processOutOfPlace fft source destination scratchLen
      = .ok (fft.process plan.lineLen source) := by
  unfold LocalC2cPlan.processOutOfPlace LocalC2cPlan.validateOutOfPlace
    LocalC2cPlan.validateBatch LocalC2cPlan.validateScratch
  rw [hlen] at hdvd
  simp only [hlen, Nat.mod_eq_zero_of_dvd hdvd, hscratch, decide_true, ensure_true, bind,
    Except.bind, pure, Except.pure]
  split
  · rename_i hempty
    rw [List.isEmpty_iff] at hempty
    subst hempty
    rw [List.eq_nil_of_length_eq_zero hlen.symm]
    simp [FftKernel.process]
  · rfl

theorem processInPlace_eq (fft : FftKernel K) (hscratch : plan.scratchLen ≤ scratchLen)
    {data : List K} (hdvd : plan.lineLen ∣ data.length) :
    plan.processInPlace fft data scratchLen = .ok (fft.process plan.lineLen data) := by
  unfold LocalC2cPlan.processInPlace LocalC2cPlan.validateInPlace
    LocalC2cPlan.validateBatch LocalC2cPlan.validateScratch
  simp only [Nat.mod_eq_zero_of_dvd hdvd, hscratch, decide_true, ensure_true, bind, Except.bind,
    pure, Except.pure]
  split
  · rename_i hempty
    rw [List.isEmpty_iff] at hempty
    subst hempty
    simp [FftKernel.process]
  · rfl

theorem process_single (fft : FftKernel K) {lineLen : ℕ} (hpos : 0 < lineLen) {values : List K}
    (hlen : values.length = lineLen) : fft.process lineLen values = fft.transform values := by
  unfold FftKernel.process
  rw [hlen, Nat.div_self hpos]
  simp [← hlen]

theorem LinesTransformed.map {transform : List K → List K} {n stride count : ℕ}
    {source result : List K} (h : LinesTransformed transform n stride count source result)
    (f : K → K) :
    LinesTransformed (fun values => (transform values).map f) n stride count source
      (result.map f) := by
  intro outer houter inner hinner values hvalues k hk
  rw [List.getElem?_map, List.getElem?_map, h outer houter inner hinner values hvalues k hk]

/-- The kernels that run an FFT and scale the result. -/
theorem stridedKernels_scaled (fft : FftKernel K) (f : K → K) (hpos : 0 < plan.lineLen)
    {batch : List K → List K → Except (Stop ε) (List K)}
    {line : List K → Except (Stop ε) (List K)}
    (hbatch : ∀ source destination, source.length = destination.length →
      plan.lineLen ∣ source.length →
        batch source destination = .ok ((fft.process plan.lineLen source).map f))
    (hline : ∀ values, plan.lineLen ∣ values.length →
      line values = .ok ((fft.process plan.lineLen values).map f)) :
    StridedKernels (fun values => (fft.transform values).map f) plan.lineLen batch line where
  length := fun values hvalues => by rw [List.length_map, fft.length_transform, hvalues]
  batch := by
    intro source destination hlen hdvd
    obtain ⟨hprocess, hlines⟩ := process_lines fft hpos hdvd
    exact ⟨_, hbatch source destination hlen hdvd, by rw [List.length_map, hprocess],
      LinesTransformed.map hlines f⟩
  line := by
    intro values hvalues
    rw [hline values (hvalues ▸ dvd_refl _), process_single fft hpos hvalues]

variable [Field K]

/-- What a reverse transform does to a line. -/
def reverseLine (plan : LocalC2cPlan K) (normalize : Bool) (values : List K) : List K :=
  (plan.backwardFft.transform values).map fun value =>
    if normalize then value * (1 / (plan.lineLen : K)) else value

section Kernels

variable {p : Pencil N M} {axis : Fin N} {E lineBufferLen : ℕ}
  (hlineLen : p.localShapeLogical axis = plan.lineLen) (hpos : 0 < plan.lineLen)
  (hscratch : plan.scratchLen ≤ scratchLen)
  (hbuffer : LineBufferFits p axis plan.lineLen lineBufferLen)
  (hfit : E * p.localLen < usizeLimit)

include hlineLen hpos hscratch hbuffer hfit

omit [Field K] in
theorem executeStridedComplexForward_eq {source destination : List K}
    (hsource : source.length = E * p.localLen) (hdestination : destination.length = E * p.localLen) :
    ∃ result, executeStridedComplexForward plan p axis scratchLen lineBufferLen source destination
        = .ok result ∧
      AxisTransformed plan.forwardFft.transform p axis E source result := by
  have hbatch : ∀ source destination, source.length = destination.length →
      plan.lineLen ∣ source.length → ofLocalC2c (plan.forward source destination scratchLen)
        = .ok ((plan.forwardFft.process plan.lineLen source).map id) := by
    intro source destination hlen hdvd
    rw [List.map_id]
    exact congrArg ofLocalC2c (processOutOfPlace_eq plan.forwardFft hscratch hlen hdvd)
  have hline : ∀ values, plan.lineLen ∣ values.length →
      ofLocalC2c (plan.forwardInPlace values scratchLen)
        = .ok ((plan.forwardFft.process plan.lineLen values).map id) := by
    intro values hdvd
    rw [List.map_id]
    exact congrArg ofLocalC2c (processInPlace_eq plan.forwardFft hscratch hdvd)
  have hkernels := stridedKernels_scaled plan.forwardFft id hpos hbatch hline
  obtain ⟨result, hresult, htransformed⟩ := executeStrided_eq hkernels hlineLen hpos hbuffer hsource hdestination hfit
  exact ⟨result, hresult, htransformed.congr fun values _ => List.map_id _⟩

omit [Field K] in
theorem executeStridedComplexForwardInPlace_eq {data : List K}
    (hdata : data.length = E * p.localLen) :
    ∃ result, executeStridedComplexForwardInPlace plan p axis scratchLen lineBufferLen data
        = .ok result ∧
      AxisTransformed plan.forwardFft.transform p axis E data result := by
  have hinPlace : ∀ values, plan.lineLen ∣ values.length →
      ofLocalC2c (plan.forwardInPlace values scratchLen)
        = .ok ((plan.forwardFft.process plan.lineLen values).map id) := by
    intro values hdvd
    rw [List.map_id]
    exact congrArg ofLocalC2c (processInPlace_eq plan.forwardFft hscratch hdvd)
  have hkernels := stridedKernels_scaled plan.forwardFft id hpos
    (fun source _ _ hdvd => hinPlace source hdvd) hinPlace
  obtain ⟨result, hresult, htransformed⟩ := executeStridedInPlace_eq hkernels hlineLen hpos hbuffer hdata hfit
  exact ⟨result, hresult, htransformed.congr fun values _ => List.map_id _⟩

omit hlineLen hpos hbuffer hfit in
theorem reverse_batch_eq (normalize : Bool) {source destination : List K}
    (hlen : source.length = destination.length) (hdvd : plan.lineLen ∣ source.length) :
    ofLocalC2c (if normalize then plan.inverse source destination scratchLen
        else plan.backward source destination scratchLen)
      = .ok ((plan.backwardFft.process plan.lineLen source).map fun value =>
          if normalize then value * (1 / (plan.lineLen : K)) else value) := by
  have hprocess := processOutOfPlace_eq plan.backwardFft hscratch hlen hdvd
  cases normalize with
  | true =>
    simp only [if_true]
    unfold LocalC2cPlan.inverse LocalC2cPlan.backward
    rw [hprocess]
    rfl
  | false =>
    simp only [Bool.false_eq_true, if_false, List.map_id']
    unfold LocalC2cPlan.backward
    rw [hprocess]
    rfl

omit hlineLen hpos hbuffer hfit in
theorem reverse_line_eq (normalize : Bool) {values : List K} (hdvd : plan.lineLen ∣ values.length) :
    ofLocalC2c (if normalize then plan.inverseInPlace values scratchLen
        else plan.backwardInPlace values scratchLen)
      = .ok ((plan.backwardFft.process plan.lineLen values).map fun value =>
          if normalize then value * (1 / (plan.lineLen : K)) else value) := by
  have hprocess := processInPlace_eq plan.backwardFft hscratch hdvd
  cases normalize with
  | true =>
    simp only [if_true]
    unfold LocalC2cPlan.inverseInPlace LocalC2cPlan.backwardInPlace
    rw [hprocess]
    rfl
  | false =>
    simp only [Bool.false_eq_true, if_false, List.map_id']
    unfold LocalC2cPlan.backwardInPlace
    rw [hprocess]
    rfl

theorem executeStridedComplexReverse_eq (normalize : Bool) {source destination : List K}
    (hsource : source.length = E * p.localLen) (hdestination : destination.length = E * p.localLen) :
    ∃ result, executeStridedComplexReverse plan p axis scratchLen lineBufferLen normalize source
        destination = .ok result ∧
      AxisTransformed (reverseLine plan normalize) p axis E source result :=
  executeStrided_eq
    (stridedKernels_scaled plan.backwardFft _ hpos
      (fun _ _ hlen hdvd => reverse_batch_eq hscratch normalize hlen hdvd)
      (fun _ hdvd => reverse_line_eq hscratch normalize hdvd))
    hlineLen hpos hbuffer hsource hdestination hfit

theorem executeStridedComplexReverseInPlace_eq (normalize : Bool) {data : List K}
    (hdata : data.length = E * p.localLen) :
    ∃ result, executeStridedComplexReverseInPlace plan p axis scratchLen lineBufferLen normalize
        data = .ok result ∧
      AxisTransformed (reverseLine plan normalize) p axis E data result :=
  executeStridedInPlace_eq
    (stridedKernels_scaled plan.backwardFft _ hpos
      (fun _ _ _ hdvd => reverse_line_eq hscratch normalize hdvd)
      (fun _ hdvd => reverse_line_eq hscratch normalize hdvd))
    hlineLen hpos hbuffer hdata hfit

end Kernels

end Complex

end PencilRs.Analysis
