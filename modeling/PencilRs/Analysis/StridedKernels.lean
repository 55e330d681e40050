import PencilRs.Analysis.LocalR2c
import PencilRs.Analysis.LocalTransposePaths
import PencilRs.Analysis.PermutedLines

/-!
# Strided kernels

A kernel that works along any axis does what it does to consecutive lines where the axis is the
last one in memory, whether it keeps the length of the lines or not.
-/

set_option autoImplicit false

namespace PencilRs.Analysis

open PencilRs.Computation PencilRs.Model

variable {N M : ℕ} {K L σ ε : Type}

/-! ## Kernels that change the length of lines -/

section Differing

open R2c

variable {transform : List K → List L} {n m : ℕ} {good : List K → Prop} {usable : σ → Prop}
  {batch : List K → List L → σ → Except (Stop R2cError) (List L × σ)}
  {p p₂ p' p₂' : Pencil N M} {axis : Fin N} {E : ℕ}

/-- What a kernel does to a batch of lines: it succeeds just where the lines are good and what it
borrows is usable. -/
structure DifferingKernel (transform : List K → List L) (n m : ℕ) (good : List K → Prop)
    (usable : σ → Prop) (batch : List K → List L → σ → Except (Stop R2cError) (List L × σ)) :
    Prop where
  pos : 0 < n ∧ 0 < m
  length : ∀ values, values.length = n → (transform values).length = m
  run : ∀ count source destination rest, source.length = count * n →
    destination.length = count * m → usable rest → (∀ b < count, good (lineAt n source b)) →
      ∃ rest', batch source destination rest = .ok (mapLines n transform source, rest') ∧
        usable rest'
  of_ok : ∀ count source destination rest result rest', source.length = count * n →
    batch source destination rest = .ok (result, rest') →
      usable rest ∧ (∀ b < count, good (lineAt n source b)) ∧ result = mapLines n transform source

/-- All lines of the axis are good. -/
def GoodLines (good : List K → Prop) (p : Pencil N M) (axis : Fin N) (E : ℕ)
    (source : List K) : Prop :=
  ∀ e < E, ∀ x, ValidLocal p x → ∀ values, HoldsAxisLine p axis e x source values → good values

/-- The lines of two blocks. -/
theorem SameLines.counts {q : Fin N} (hlines : SameLines p p₂ axis)
    (hq : p.permutation.axesInMemoryOrder q = axis) (hn : p.localShapeLogical axis = n)
    (hm : p₂.localShapeLogical axis = m) :
    E * p.localLen = E * blockCount p q * lineStride p q * n ∧
      E * p₂.localLen = E * blockCount p q * lineStride p q * m := by
  have hq₂ : p₂.permutation.axesInMemoryOrder q = axis := by rw [hlines.permutation, hq]
  rw [localLen_lines hq, localLen_lines hq₂, hlines.lineStride_eq hq, hlines.blockCount_eq hq, hn,
    hm]
  constructor <;> ring

theorem lineAt_zero {values : List K} (h : values.length = n) : lineAt n values 0 = values := by
  unfold lineAt
  rw [Nat.zero_mul, List.drop_zero]
  exact List.take_of_length_le h.le

theorem mapLines_single (hn : 0 < n) {values : List K} (h : values.length = n) :
    mapLines n transform values = transform values := by
  unfold mapLines
  rw [h, Nat.div_self hn]
  exact (List.flatMap_singleton ..).trans (congrArg transform (lineAt_zero h))

/-- Consecutive lines are the lines of an axis without a stride. -/
theorem goodLines_iff {q : Fin N} (hq : p.permutation.axesInMemoryOrder q = axis)
    (hone : lineStride p q = 1) (hn : p.localShapeLogical axis = n) (hpos : 0 < n)
    {source : List K} (hsource : source.length = E * blockCount p q * n) :
    GoodLines good p axis E source ↔
      ∀ b < E * blockCount p q, good (lineAt n source b) := by
  subst hn
  constructor
  · intro h b hb
    obtain ⟨e, he, x, hx, rfl, hinner⟩ := exists_lineElement hq hpos hb
      (show 0 < lineStride p q by rw [hone]; exact one_pos)
    apply h e he x hx
    apply (holdsLine_iff hq).mp
    rw [hone, ← hinner]
    exact (holdsLine_unit hsource hb).mpr rfl
  · intro h e he x hx values hvalues
    have hline := (holdsLine_iff hq).mpr hvalues
    have hinner : lineInner p q x = 0 := Nat.lt_one_iff.mp (hone ▸ lineInner_lt hx)
    rw [hone, hinner] at hline
    have houter := extra_block_lt he (lineOuter_lt (q := q) hx)
    rw [(holdsLine_unit hsource houter).mp hline]
    exact h _ houter

theorem Permuted.goodLines {source source' : List K} (h : Permuted p p' E source source')
    (hlast : AxisLast p p' axis) (hgood : GoodLines good p' axis E source') :
    GoodLines good p axis E source := fun e he x hx values hvalues =>
  hgood e he x (hlast.valid.mpr hx) values ((h.holdsAxisLine hlast he hx).mp hvalues)

/-- A kernel runs on the lines of a loop one by one. -/
theorem DifferingKernel.runsLines (h : DifferingKernel transform n m good usable batch)
    {q : Fin N} (hq : p.permutation.axesInMemoryOrder q = axis)
    (hn : p.localShapeLogical axis = n) {source : List K}
    (hgood : GoodLines good p axis E source) :
    RunsLines transform n m (lineStride p q) (E * blockCount p q) source batch usable := by
  subst hn
  intro outer houter inner hinner values hvalues
  obtain ⟨e, he, x, hx, rfl, rfl⟩ := exists_lineElement hq h.pos.1 houter hinner
  have hgoodValues := hgood e he x hx values ((holdsLine_iff hq).mp hvalues)
  refine ⟨h.length values hvalues.1, fun line rest hline hrest => ?_⟩
  have hrun := h.run 1 values line rest (hvalues.1.trans (Nat.one_mul _).symm)
    (hline.trans (Nat.one_mul _).symm) hrest (by
      intro b hb
      rw [Nat.lt_one_iff.mp hb, lineAt_zero hvalues.1]
      exact hgoodValues)
  rwa [mapLines_single h.pos.1 hvalues.1] at hrun

/-- **A strided kernel** transforms the lines of the axis. -/
theorem executeStridedDiffering_eq (h : DifferingKernel transform n m good usable batch)
    (kind : String) (hlines : SameLines p p₂ axis) (hn : p.localShapeLogical axis = n)
    (hm : p₂.localShapeLogical axis = m) {source : List K} {destination destinationLine : List L}
    {rest : σ} {sourceLineLen : ℕ} (hsource : source.length = E * p.localLen)
    (hdestination : destination.length = E * p₂.localLen) (hfit : E * p.localLen < usizeLimit)
    (hfit₂ : E * p₂.localLen < usizeLimit)
    (hbuffer : ∀ stride, memoryStride p axis = .ok stride → 1 < stride →
      n ≤ sourceLineLen ∧ m ≤ destinationLine.length)
    (hgood : GoodLines good p axis E source) (hrest : usable rest) :
    ∃ result line' rest', executeStridedDiffering kind p axis n m sourceLineLen batch source
        destinationLine destination rest = .ok (result, line', rest') ∧
      AxisTransformedTo transform p p₂ axis E source result := by
  obtain ⟨q, hq⟩ := p.permutation.surjective axis
  obtain ⟨hcount, hcount₂⟩ := hlines.counts (E := E) hq hn hm
  have hstride := memoryStride_eq hq
  have hbatchLength : (mapLines n transform source).length = E * p₂.localLen := by
    rw [hcount₂]
    exact length_mapLinesTo h.pos.1 h.length (hsource.trans hcount)
  unfold executeStridedDiffering
  rw [hstride]
  simp only [bind, Except.bind, Except.mapError]
  by_cases hone : p.localLen = 0 ∨ lineStride p q = 1
  · -- The block is a batch.
    have hgoodBatch : ∀ b < E * blockCount p q * lineStride p q, good (lineAt n source b) := by
      cases hone with
      | inl hzero =>
        rw [hzero, Nat.mul_zero] at hcount
        intro b hb
        exact absurd (Nat.mul_pos (Nat.zero_lt_of_lt hb) h.pos.1) (by omega)
      | inr hone =>
        rw [hone, Nat.mul_one] at hcount ⊢
        exact (goodLines_iff hq hone hn h.pos.1 (hsource.trans hcount)).mp hgood
    obtain ⟨rest', hrun, _⟩ := h.run _ source destination rest (hsource.trans hcount)
      (hdestination.trans hcount₂) hrest hgoodBatch
    have hle : (if p.localLen = 0 then 0 else lineStride p q) ≤ 1 := by
      split
      · exact Nat.zero_le 1
      · exact (hone.resolve_left ‹_›).le
    rw [if_pos hle, hrun]
    refine ⟨_, _, _, rfl, ?_⟩
    by_cases hzero : p.localLen = 0
    · refine ⟨hbatchLength, fun e _ x hx => ?_⟩
      have hoffset := layoutOffset_lt hx
      omega
    · have hone := hone.resolve_left hzero
      apply LinesTransformedTo.axisTransformedTo hlines hq hbatchLength
      rw [hn, hm, hone]
      rw [hone, Nat.mul_one] at hcount
      exact linesTransformedTo_mapLines h.pos.1 h.length (hsource.trans hcount)
  · rw [not_or] at hone
    obtain ⟨hzero, hne⟩ := hone
    have hq₂ : p₂.permutation.axesInMemoryOrder q = axis := by rw [hlines.permutation, hq]
    have hpos := lineStride_pos hzero hq
    have hlarge : 1 < lineStride p q := by omega
    have hblockCount : 0 < blockCount p q := by
      refine Nat.pos_of_ne_zero fun hnone => hzero ?_
      rw [localLen_lines hq, hnone, Nat.zero_mul]
    have hzero₂ : p₂.localLen ≠ 0 := by
      rw [localLen_lines hq₂, hm, hlines.lineStride_eq hq, hlines.blockCount_eq hq]
      exact (Nat.mul_pos hblockCount (Nat.mul_pos h.pos.2 hpos)).ne'
    rw [if_neg hzero, if_neg (by omega : ¬lineStride p q ≤ 1)]
    rw [if_neg hzero] at hstride
    obtain ⟨hsourceLine, hdestinationLine⟩ := hbuffer _ hstride hlarge
    have hblock₂ : m * lineStride p q < usizeLimit := by
      have hfits := stride_block_lt hzero₂ hq₂ hm
      rwa [hlines.lineStride_eq hq] at hfits
    obtain ⟨result, line', rest', hloops, hlength, htransformed, _⟩ :=
      forEachStridedLineDiffering_eq R2cError.fft (h.runsLines hq hn hgood)
        (hsource.trans (hcount.trans (by ring))) (hdestination.trans (hcount₂.trans (by ring)))
        (lt_of_eq_of_lt (by rw [hcount]; ring) hfit)
        (lt_of_eq_of_lt (by rw [hcount₂]; ring) hfit₂) (stride_block_lt hzero hq hn) hblock₂
        (by rw [List.length_take]; exact Nat.min_eq_left hdestinationLine) hrest
    have hrequired : ((checkedMul (E * blockCount p q) m).bind (checkedMul · (lineStride p q)))
        = some (E * p₂.localLen) := by
      have hproduct : E * blockCount p q * m * lineStride p q = E * p₂.localLen := by
        rw [hcount₂]
        ring
      have hfirst : E * blockCount p q * m < usizeLimit := by
        refine lt_of_le_of_lt ?_ (hproduct ▸ hfit₂)
        exact Nat.le_mul_of_pos_right _ hpos
      rw [checkedMul_eq_some.mpr ⟨hfirst, rfl⟩]
      exact checkedMul_eq_some.mpr ⟨hproduct ▸ hfit₂, hproduct⟩
    have hcheck : (ensure (decide (n ≤ sourceLineLen) && decide (m ≤ destinationLine.length))
        (.error (.fft (.workspaceTooSmall kind (max n m)
          (min sourceLineLen destinationLine.length)))) : Except (Stop R2cError) Unit)
          = .ok () := by
      simp [hsourceLine, hdestinationLine]
    rw [hcheck]
    simp only
    rw [hsource, stridedLineCount_block hzero hq hn h.pos.1]
    simp only
    rw [hrequired]
    simp only [okOr, hdestination, decide_true, ensure_true]
    rw [hloops]
    refine ⟨_, _, _, rfl, ?_⟩
    apply LinesTransformedTo.axisTransformedTo hlines hq (hlength.trans hdestination)
    rw [hn, hm]
    exact htransformed

/-- A batch transforms the lines of the axis that is last in memory. -/
theorem mapLines_axisTransformedTo (hlines : SameLines p p₂ axis)
    (hn : p.localShapeLogical axis = n) (hm : p₂.localShapeLogical axis = m) (hpos : 0 < n)
    {permutation : AxisPermutation N} (hlast : HasLast permutation axis) {source : List K}
    (hsource : source.length = E * (withPermutation p permutation).localLen)
    (hlength : ∀ values, values.length = n → (transform values).length = m) :
    AxisTransformedTo transform (withPermutation p permutation) (withPermutation p₂ permutation)
      axis E source (mapLines n transform source) := by
  obtain ⟨q, hq, hone⟩ := (axisLast_withPermutation p hlast).stride
  have hlines' := hlines.withPermutation permutation
  obtain ⟨hcount, hcount₂⟩ := hlines'.counts (E := E) hq hn hm
  rw [hone, Nat.mul_one] at hcount hcount₂
  apply LinesTransformedTo.axisTransformedTo hlines' hq
  · exact (length_mapLinesTo hpos hlength (hsource.trans hcount)).trans hcount₂.symm
  · rw [hone]
    show LinesTransformedTo transform (p.localShapeLogical axis) (p₂.localShapeLogical axis) _ _ _
      _
    rw [hn, hm]
    exact linesTransformedTo_mapLines hpos hlength (hsource.trans hcount)

/-- **A strided kernel** does what its batch does where the axis is the last one in memory. -/
theorem executeStridedDiffering_permuted (h : DifferingKernel transform n m good usable batch)
    (kind : String) (hlines : SameLines p p₂ axis) (hn : p.localShapeLogical axis = n)
    (hm : p₂.localShapeLogical axis = m) {permutation : AxisPermutation N}
    (hlast : HasLast permutation axis) {source source' : List K}
    (hsource : Permuted p (withPermutation p permutation) E source source')
    {destination destinationLine : List L} {rest : σ} {sourceLineLen : ℕ}
    (hdestination : destination.length = E * p₂.localLen) (hfit : E * p.localLen < usizeLimit)
    (hfit₂ : E * p₂.localLen < usizeLimit)
    (hbuffer : ∀ stride, memoryStride p axis = .ok stride → 1 < stride →
      n ≤ sourceLineLen ∧ m ≤ destinationLine.length)
    {destination' result' : List L} {rest' : σ}
    (hbatch : batch source' destination' rest = .ok (result', rest')) :
    ∃ result line' rest', executeStridedDiffering kind p axis n m sourceLineLen batch source
        destinationLine destination rest = .ok (result, line', rest') ∧
      Permuted p₂ (withPermutation p₂ permutation) E result result' := by
  have hlastOf := axisLast_withPermutation p hlast
  obtain ⟨q, hq, hone⟩ := hlastOf.stride
  have hlines' := hlines.withPermutation permutation
  obtain ⟨hcount, hcount₂⟩ := hlines'.counts (E := E) hq hn hm
  rw [hone, Nat.mul_one] at hcount hcount₂
  obtain ⟨hrest, hgoodBatch, rfl⟩ := h.of_ok _ source' destination' rest result' rest'
    (hsource.length'.trans hcount) hbatch
  have hgood' : GoodLines good (withPermutation p permutation) axis E source' :=
    (goodLines_iff hq hone hn h.pos.1 (hsource.length'.trans hcount)).mpr hgoodBatch
  obtain ⟨result, line', rest', hrun, htransformed⟩ := executeStridedDiffering_eq h kind hlines hn
    hm hsource.length hdestination hfit hfit₂ hbuffer (hsource.goodLines hlastOf hgood') hrest
  have htransformed' := mapLines_axisTransformedTo hlines hn hm h.pos.1 hlast hsource.length'
    h.length
  refine ⟨result, line', rest', hrun, ?_⟩
  exact AxisTransformedTo.permuted hlines (hn ▸ h.pos.1) hlastOf
    (axisLast_withPermutation p₂ hlast) hsource htransformed htransformed'

end Differing

/-! ## Real kernels -/

section Real

open R2c
open R2r (ComplexValue)

variable {R : Type} {plan : LocalR2cPlan R} {n : ℕ}

theorem batchCount_of {actual lineLen count : ℕ} (hpos : 0 < lineLen)
    (h : actual = count * lineLen) : batchCount actual lineLen = .ok count := by
  unfold batchCount
  rw [h, Nat.mul_mod_left, Nat.mul_div_cancel _ hpos]
  rfl

theorem completed_eq_ok {τ : Type} {outcome : LocalR2cPlan.Outcome τ} {s : τ} :
    completed outcome = .ok s ↔ outcome = (.ok (), s) := by
  rcases outcome with ⟨(e | panic) | u, t⟩
  · exact ⟨nofun, nofun⟩
  · exact ⟨nofun, nofun⟩
  · exact ⟨fun h => by rw [Except.ok.inj h], fun h => by rw [(Prod.mk.inj h).2]; rfl⟩

theorem validateForward_of (hplan : IsR2cPlan n plan) {count sourceLen destinationLen : ℕ}
    {realLineLen scratchLen : ℕ} (hsource : sourceLen = count * n)
    (hdestination : destinationLen = count * plan.complexLen) (hline : n ≤ realLineLen)
    (hscratch : plan.scratchLen ≤ scratchLen) :
    plan.validateForward sourceLen destinationLen realLineLen scratchLen = .ok () := by
  have hsources := batchCount_of hplan.pos hsource
  have hdestinations := batchCount_of hplan.row_le.2 hdestination
  rw [← hplan.realLen] at hsources hline
  unfold LocalR2cPlan.validateForward LocalR2cPlan.validateLineBuffers
    LocalR2cPlan.validateScratch
  simp [hsources, hdestinations, hline, hscratch, bind, Except.bind, ensure]

theorem validateInverse_of (hplan : IsR2cPlan n plan) {count sourceLen destinationLen : ℕ}
    {complexLineLen scratchLen : ℕ} (hsource : sourceLen = count * plan.complexLen)
    (hdestination : destinationLen = count * n) (hline : plan.complexLen ≤ complexLineLen)
    (hscratch : plan.scratchLen ≤ scratchLen) :
    plan.validateInverse sourceLen destinationLen complexLineLen scratchLen = .ok () := by
  have hsources := batchCount_of hplan.row_le.2 hsource
  have hdestinations := batchCount_of hplan.pos hdestination
  rw [← hplan.realLen] at hdestinations
  unfold LocalR2cPlan.validateInverse LocalR2cPlan.validateLineBuffers
    LocalR2cPlan.validateScratch
  simp [hsources, hdestinations, hline, hscratch, bind, Except.bind, ensure]

/-- **The forward transform** of rows. -/
theorem forwardBatch_kernel (hplan : IsR2cPlan n plan) :
    DifferingKernel plan.forwardFft.transform n plan.complexLen
      (fun row => plan.forwardFft.accepts row = true)
      (fun rest => n ≤ rest.1.length ∧ plan.scratchLen ≤ rest.2.length)
      (forwardBatch plan) where
  pos := ⟨hplan.pos, hplan.row_le.2⟩
  length := fun values hvalues => by
    rw [plan.forwardFft.length_transform, hvalues, hplan.complexLen]
  run := by
    intro count source destination rest hsource hdestination hrest hgood
    let buffers : LocalR2cPlan.ForwardBuffers R := ⟨destination, rest.1, rest.2⟩
    have hvalid : plan.validateForward source.length buffers.dst.length buffers.realLine.length
        buffers.scratch.length = .ok () :=
      validateForward_of hplan hsource hdestination hrest.1 hrest.2
    obtain ⟨his, hdst, hline, hscratch⟩ := forward_eq hplan hsource hvalid
    obtain ⟨hresult, hvalues⟩ := runRounds_forwardRound hplan hsource hdst hline hscratch
    have hverdict : (List.forM (List.range count) fun b =>
        forwardVerdict plan (lineAt n source b)) = .ok () := by
      refine forM_eq_ok_iff.mpr fun b hb => ?_
      unfold forwardVerdict
      rw [if_pos (hgood b (List.mem_range.mp hb))]
    obtain ⟨hdone, hrealLine, hscratchLen⟩ := hvalues hverdict
    rw [← his] at hresult hdone hrealLine hscratchLen
    refine ⟨((plan.forward source buffers).2.realLine, (plan.forward source buffers).2.scratch),
      ?_, ?_, ?_⟩
    · refine bind_eq_ok.mpr ⟨(plan.forward source buffers).2,
        completed_eq_ok.mpr (Prod.ext (hresult.trans hverdict) rfl), ?_⟩
      rw [hdone]
      rfl
    · exact hrealLine.symm ▸ hrest.1
    · exact hscratchLen.symm ▸ hrest.2
  of_ok := by
    intro count source destination rest result rest' hsource hbatch
    obtain ⟨done, hdone, hpure⟩ := bind_eq_ok.mp hbatch
    have hforward := completed_eq_ok.mp hdone
    obtain ⟨rfl, rfl⟩ := Prod.mk.inj (Except.ok.inj hpure)
    let buffers : LocalR2cPlan.ForwardBuffers R := ⟨destination, rest.1, rest.2⟩
    have hvalid : plan.validateForward source.length buffers.dst.length buffers.realLine.length
        buffers.scratch.length = .ok () := by
      by_contra hne
      unfold LocalR2cPlan.forward at hforward
      split at hforward
      · nomatch hforward
      · exact hne ‹_›
    obtain ⟨his, hdst, hline, hscratch⟩ := forward_eq hplan hsource hvalid
    obtain ⟨hresult, hvalues⟩ := runRounds_forwardRound hplan hsource hdst hline hscratch
    rw [← his, hforward] at hresult hvalues
    refine ⟨⟨hline, hscratch⟩, fun b hb => ?_, (hvalues hresult.symm).1⟩
    have hverdict := forM_eq_ok_iff.mp hresult.symm b (List.mem_range.mpr hb)
    unfold forwardVerdict at hverdict
    split at hverdict
    · assumption
    · nomatch hverdict

theorem inverseVerdict_ok {b : ℕ} {row : List (ComplexValue R)} :
    inverseVerdict plan b row = .ok () ↔ plan.inverseFft.verdict row = .accepted := by
  unfold inverseVerdict
  cases plan.inverseFft.verdict row with
  | accepted => exact ⟨fun _ => rfl, fun _ => rfl⟩
  | inputValues first last => exact ⟨nofun, nofun⟩
  | failed => exact ⟨nofun, nofun⟩

section Reverse

variable [Field R] [DecidableEq R]

theorem reverseBatch_eq (plan : LocalR2cPlan R) (normalize : Bool) :
    reverseBatch plan normalize = fun source destination rest => do
      let done ← completed (plan.executeInverse normalize source ⟨destination, rest.1, rest.2⟩)
      return (done.dst, done.complexLine, done.scratch) := by
  funext source destination rest
  cases normalize <;> rfl

/-- A row that a transform back takes: its ends are real and the library accepts it. -/
def AcceptedBack (plan : LocalR2cPlan R) (n : ℕ) (row : List (ComplexValue R)) : Prop :=
  (∀ index, ¬OffendsIn n row index) ∧ plan.inverseFft.verdict row = .accepted

/-- **The transforms of rows back.** -/
theorem reverseBatch_kernel (hplan : IsR2cPlan n plan) (normalize : Bool) :
    DifferingKernel (plan.inverseValues normalize) plan.complexLen n (AcceptedBack plan n)
      (fun rest => plan.complexLen ≤ rest.1.length ∧ plan.scratchLen ≤ rest.2.length)
      (reverseBatch plan normalize) where
  pos := ⟨hplan.row_le.2, hplan.pos⟩
  length := fun values _ => length_inverseValues normalize hplan values
  run := by
    intro count source destination rest hsource hdestination hrest hgood
    let buffers : LocalR2cPlan.InverseBuffers R := ⟨destination, rest.1, rest.2⟩
    have hvalid : plan.validateInverse source.length buffers.dst.length buffers.complexLine.length
        buffers.scratch.length = .ok () :=
      validateInverse_of hplan hsource hdestination hrest.1 hrest.2
    obtain ⟨his, hdst, hline, hscratch⟩ := executeInverse_rounds hplan normalize hsource hvalid
    have hendpoints : plan.validateEndpoints source = .ok () := by
      rcases validateEndpoints_spec hplan (hplan.complexLen ▸ hsource) with
        ⟨hok, _⟩ | ⟨batch, index, _, ⟨⟨hbatch, hoffends⟩, _⟩⟩
      · exact hok
      · rw [hsource, ← hplan.complexLen, Nat.mul_div_cancel _ hplan.row_le.2] at hbatch
        rw [← hplan.complexLen] at hoffends
        exact absurd hoffends ((hgood batch hbatch).1 index)
    rw [hendpoints] at his
    simp only at his
    obtain ⟨hresult, hvalues⟩ := runRounds_inverseRound normalize hplan hsource hdst hline hscratch
    have hverdict : (List.forM (List.range count) fun b =>
        inverseVerdict plan b (lineAt plan.complexLen source b)) = .ok () :=
      forM_eq_ok_iff.mpr fun b hb => inverseVerdict_ok.mpr (hgood b (List.mem_range.mp hb)).2
    obtain ⟨hdone, hcomplexLine, hscratchLen⟩ := hvalues hverdict
    rw [← his] at hresult hdone hcomplexLine hscratchLen
    refine ⟨((plan.executeInverse normalize source buffers).2.complexLine,
      (plan.executeInverse normalize source buffers).2.scratch), ?_, ?_, ?_⟩
    · rw [reverseBatch_eq]
      refine bind_eq_ok.mpr ⟨(plan.executeInverse normalize source buffers).2,
        completed_eq_ok.mpr (Prod.ext (hresult.trans hverdict) rfl), ?_⟩
      rw [hdone]
      rfl
    · exact hcomplexLine.symm ▸ hrest.1
    · exact hscratchLen.symm ▸ hrest.2
  of_ok := by
    intro count source destination rest result rest' hsource hbatch
    rw [reverseBatch_eq] at hbatch
    obtain ⟨done, hdone, hpure⟩ := bind_eq_ok.mp hbatch
    have hinverse := completed_eq_ok.mp hdone
    obtain ⟨rfl, rfl⟩ := Prod.mk.inj (Except.ok.inj hpure)
    let buffers : LocalR2cPlan.InverseBuffers R := ⟨destination, rest.1, rest.2⟩
    have hvalid : plan.validateInverse source.length buffers.dst.length buffers.complexLine.length
        buffers.scratch.length = .ok () := by
      by_contra hne
      unfold LocalR2cPlan.executeInverse at hinverse
      split at hinverse
      · nomatch hinverse
      · exact hne ‹_›
    obtain ⟨his, hdst, hline, hscratch⟩ := executeInverse_rounds hplan normalize hsource hvalid
    rw [hinverse] at his
    rcases validateEndpoints_spec hplan (hplan.complexLen ▸ hsource) with
      ⟨hok, hnone⟩ | ⟨batch, index, herror, _⟩
    · rw [hok] at his
      simp only at his
      obtain ⟨hresult, hvalues⟩ := runRounds_inverseRound normalize hplan hsource hdst hline
        hscratch
      rw [← his] at hresult hvalues
      refine ⟨⟨hline, hscratch⟩, fun b hb => ⟨fun index hoffends => ?_, ?_⟩,
        (hvalues hresult.symm).1⟩
      · refine hnone b index ⟨?_, hplan.complexLen ▸ hoffends⟩
        rwa [hsource, ← hplan.complexLen, Nat.mul_div_cancel _ hplan.row_le.2]
      · exact inverseVerdict_ok.mp (forM_eq_ok_iff.mp hresult.symm b (List.mem_range.mpr hb))
    · rw [herror] at his
      nomatch his

end Reverse

end Real

/-! ## Loops along an axis -/

section Loops

variable {p p₂ : Pencil N M} {axis : Fin N} {E : ℕ}

/-- The loops over `count` blocks of `stride` lines visit every line of the axis once, and every
element on it. -/
structure EnumeratesLines (p : Pencil N M) (axis : Fin N) (E stride count : ℕ) : Prop where
  fits : E * p.localLen = count * (p.localShapeLogical axis * stride)
  once : ∀ e < E, ∀ x, ValidLocal p x → ∃! line : ℕ × ℕ, line.1 < count ∧ line.2 < stride ∧
    ∀ k < p.localShapeLogical axis,
      e * p.localLen + layoutOffset p (Function.update x axis k)
        = linePlace (p.localShapeLogical axis) stride line.1 line.2 k
  inside : ∀ outer < count, ∀ inner < stride, ∀ k < p.localShapeLogical axis,
    linePlace (p.localShapeLogical axis) stride outer inner k < E * p.localLen
  covered : ∀ j < E * p.localLen, ∃! place : ℕ × ℕ × ℕ, place.1 < count ∧ place.2.1 < stride ∧
    place.2.2 < p.localShapeLogical axis ∧
      j = linePlace (p.localShapeLogical axis) stride place.1 place.2.1 place.2.2

theorem enumeratesLines {q : Fin N} (hq : p.permutation.axesInMemoryOrder q = axis)
    (hpos : 0 < p.localShapeLogical axis) :
    EnumeratesLines p axis E (lineStride p q) (E * blockCount p q) := by
  have hfits : E * p.localLen
      = E * blockCount p q * (p.localShapeLogical axis * lineStride p q) := by
    rw [localLen_lines hq, Nat.mul_assoc]
  refine ⟨hfits, fun e he x hx => ?_, fun outer houter inner hinner k hk => ?_, fun j hj => ?_⟩
  · refine ⟨(e * blockCount p q + lineOuter p q x, lineInner p q x),
      ⟨extra_block_lt he (lineOuter_lt hx), lineInner_lt hx, fun k hk => ?_⟩, ?_⟩
    · rw [element_linePlace hq, lineOuter_update hq, lineInner_update hq, Function.update_self]
    · rintro ⟨outer, inner⟩ ⟨_, hinner, hplace⟩
      have hfirst := hplace 0 hpos
      rw [element_linePlace hq, lineOuter_update hq, lineInner_update hq,
        Function.update_self] at hfirst
      obtain ⟨houters, hinners, _⟩ := linePlace_inj (lineInner_lt hx) hinner hpos hpos hfirst
      exact Prod.ext houters.symm hinners.symm
  · rw [hfits]
    exact linePlace_lt houter hinner hk
  · rw [hfits] at hj
    obtain ⟨outer, houter, inner, hinner, k, hk, rfl⟩ := exists_linePlace hj
    refine ⟨(outer, inner, k), ⟨houter, hinner, hk, rfl⟩, ?_⟩
    rintro ⟨outer', inner', k'⟩ ⟨_, hinner', hk', hplace⟩
    obtain ⟨rfl, rfl, rfl⟩ := linePlace_inj hinner hinner' hk hk' hplace
    rfl

/-- A block without elements has no lines. -/
theorem enumeratesLines_empty (axis : Fin N) (hzero : p.localLen = 0) :
    EnumeratesLines p axis E 0 0 := by
  refine ⟨by rw [hzero, Nat.mul_zero, Nat.zero_mul], fun e _ x hx => ?_,
    fun outer houter => absurd houter (Nat.not_lt_zero outer), fun j hj => ?_⟩
  · have hoffset := layoutOffset_lt hx
    omega
  · rw [hzero, Nat.mul_zero] at hj
    exact absurd hj (Nat.not_lt_zero j)

/-- **The stride and the number of lines** are always found, and the loops visit all lines. -/
theorem exists_lines_of_axis (p : Pencil N M) (axis : Fin N) (E : ℕ)
    (hpos : 0 < p.localShapeLogical axis) :
    ∃ stride count, memoryStride p axis = .ok stride ∧
      stridedLineCount (E * p.localLen) (p.localShapeLogical axis) stride = .ok count ∧
      EnumeratesLines p axis E stride count := by
  obtain ⟨q, hq⟩ := p.permutation.surjective axis
  have hstride := memoryStride_eq hq
  by_cases hzero : p.localLen = 0
  · rw [if_pos hzero] at hstride
    refine ⟨0, 0, hstride, ?_, enumeratesLines_empty axis hzero⟩
    unfold stridedLineCount
    rw [hzero, Nat.mul_zero, if_pos rfl, if_pos rfl]
  · rw [if_neg hzero] at hstride
    exact ⟨_, _, hstride, stridedLineCount_block hzero hq rfl hpos, enumeratesLines hq hpos⟩

/-- What the loops do to lines is done to the lines of the axis. -/
theorem LinesTransformedTo.of_axis {transform : List K → List L} {stride count : ℕ}
    (hlines : SameLines p p₂ axis) (hpos : 0 < p.localShapeLogical axis)
    (hstride : memoryStride p axis = .ok stride)
    (hcount : stridedLineCount (E * p.localLen) (p.localShapeLogical axis) stride = .ok count)
    {source : List K} {result : List L} (hresult : result.length = E * p₂.localLen)
    (h : LinesTransformedTo transform (p.localShapeLogical axis) (p₂.localShapeLogical axis)
      stride count source result) : AxisTransformedTo transform p p₂ axis E source result := by
  obtain ⟨q, hq⟩ := p.permutation.surjective axis
  have hstride' := (memoryStride_eq hq).symm.trans hstride
  by_cases hzero : p.localLen = 0
  · refine ⟨hresult, fun e _ x hx => ?_⟩
    have hoffset := layoutOffset_lt hx
    omega
  · rw [if_neg hzero] at hstride'
    obtain rfl := Except.ok.inj hstride'
    obtain rfl := Except.ok.inj ((stridedLineCount_block hzero hq rfl hpos).symm.trans hcount)
    exact LinesTransformedTo.axisTransformedTo hlines hq hresult h

/-- The blocks that the loops count fit in an index. -/
theorem loop_bounds (hlines : SameLines p p₂ axis) (hpos : 0 < p.localShapeLogical axis)
    {stride count : ℕ} (hstride : memoryStride p axis = .ok stride)
    (hcount : stridedLineCount (E * p.localLen) (p.localShapeLogical axis) stride = .ok count) :
    E * p.localLen = count * (p.localShapeLogical axis * stride) ∧
      E * p₂.localLen = count * (p₂.localShapeLogical axis * stride) ∧
      p.localShapeLogical axis * stride < usizeLimit ∧
      p₂.localShapeLogical axis * stride < usizeLimit := by
  obtain ⟨q, hq⟩ := p.permutation.surjective axis
  have hq₂ : p₂.permutation.axesInMemoryOrder q = axis := by rw [hlines.permutation, hq]
  obtain ⟨hlen, hlen₂⟩ := hlines.counts (E := E) hq rfl rfl
  have hstride' := (memoryStride_eq hq).symm.trans hstride
  by_cases hzero : p.localLen = 0
  · rw [if_pos hzero] at hstride'
    obtain rfl := Except.ok.inj hstride'
    have hnone : count = 0 := by
      unfold stridedLineCount at hcount
      rw [hzero, Nat.mul_zero, if_pos rfl, if_pos rfl] at hcount
      exact (Except.ok.inj hcount).symm
    rw [hzero, Nat.mul_zero, eq_comm, Nat.mul_eq_zero] at hlen
    rw [hlen.resolve_right hpos.ne', Nat.zero_mul] at hlen₂
    rw [hnone, hzero, hlen₂, Nat.mul_zero, Nat.mul_zero, Nat.mul_zero]
    have hlimit : 0 < usizeLimit := by decide
    exact ⟨rfl, rfl, hlimit, hlimit⟩
  · rw [if_neg hzero] at hstride'
    obtain rfl := Except.ok.inj hstride'
    obtain rfl := Except.ok.inj ((stridedLineCount_block hzero hq rfl hpos).symm.trans hcount)
    refine ⟨hlen.trans (by ring), hlen₂.trans (by ring), stride_block_lt hzero hq rfl, ?_⟩
    by_cases hnone : p₂.localShapeLogical axis = 0
    · rw [hnone, Nat.zero_mul]
      decide
    · have hblockCount : blockCount p q ≠ 0 := by
        intro hnone
        rw [localLen_lines hq, hnone, Nat.zero_mul] at hzero
        exact hzero rfl
      have hzero₂ : p₂.localLen ≠ 0 := by
        rw [localLen_lines hq₂, hlines.lineStride_eq hq, hlines.blockCount_eq hq]
        exact Nat.mul_ne_zero hblockCount
          (Nat.mul_ne_zero hnone (lineStride_pos hzero hq).ne')
      have hfits := stride_block_lt hzero₂ hq₂ rfl
      rwa [hlines.lineStride_eq hq] at hfits

end Loops

/-! ## The theorem -/

section Kernels

open R2c
open R2r (ComplexValue)

variable {p : Pencil N M} {axis : Fin N} {E : ℕ}

theorem AxisTransformedTo.unique {transform : List K → List L} {p₂ : Pencil N M} {source : List K}
    {result result' : List L} (hlines : SameLines p p₂ axis)
    (hpos : 0 < p.localShapeLogical axis) (hsource : source.length = E * p.localLen)
    (h : AxisTransformedTo transform p p₂ axis E source result)
    (h' : AxisTransformedTo transform p p₂ axis E source result') : result = result' := by
  apply List.ext_getElem?
  intro j
  by_cases hj : j < E * p₂.localLen
  · obtain ⟨e, he, y, hy, rfl⟩ := exists_layoutElement hj
    have hx : ValidLocal p (Function.update y axis 0) := by
      intro other
      by_cases heq : other = axis
      · subst heq
        rwa [Function.update_self]
      · rw [Function.update_of_ne heq, ← hlines.extents other heq]
        exact hy other
    obtain ⟨values, hvalues⟩ := exists_holdsAxisLine axis hsource he hx
    have hline := h.lines e he _ hx values hvalues (y axis) (hy axis)
    have hline' := h'.lines e he _ hx values hvalues (y axis) (hy axis)
    rw [Function.update_idem, Function.update_eq_self] at hline hline'
    rw [hline, hline']
  · rw [List.getElem?_eq_none (h.length ▸ Nat.not_lt.mp hj),
      List.getElem?_eq_none (h'.length ▸ Nat.not_lt.mp hj)]

/-- What the kernels along an axis do, in terms of what the kernels of consecutive lines do where
the memory order has the axis last. -/
structure KernelsPermute (p : Pencil N M) (axis : Fin N) (E stride count : ℕ)
    (permutation : AxisPermutation N) : Prop where
  /-- Every array has a permuted one. -/
  permuted : ∀ (K : Type) (source : List K), source.length = E * p.localLen →
    ∃ source', Permuted p (withPermutation p permutation) E source source'
  /-- The loops over lines of one length agree, with each other and with a batch. -/
  loops : ∀ (K ε : Type) (lift : FftError → ε) (transform : List K → List K)
    (line : List K → Except (Stop ε) (List K)),
    (∀ values, values.length = p.localShapeLogical axis →
      line values = .ok (transform values) ∧
        (transform values).length = p.localShapeLogical axis) →
    ∀ lineBufferLen, p.localShapeLogical axis ≤ lineBufferLen →
    ∀ (source source' destination buffer : List K),
      Permuted p (withPermutation p permutation) E source source' →
      destination.length = source.length → buffer.length = p.localShapeLogical axis →
      ∃ result buffer', forEachStridedLine lift source destination lineBufferLen count
          (p.localShapeLogical axis) stride line = .ok result ∧
        forEachStridedLineInPlace lift source lineBufferLen count (p.localShapeLogical axis)
          stride line = .ok result ∧
        forEachStridedLineDiffering lift source destination (p.localShapeLogical axis) buffer count
          stride (fun values _ rest => do return (← line values, rest)) ()
            = .ok (result, buffer', ()) ∧
        Permuted p (withPermutation p permutation) E result
          (mapLines (p.localShapeLogical axis) transform source')
  /-- The loop over lines of two lengths agrees with a batch. -/
  differing : ∀ (K L σ ε : Type) (lift : FftError → ε) (p₂ : Pencil N M), SameLines p p₂ axis →
    E * p₂.localLen < usizeLimit → ∀ (transform : List K → List L)
    (run : List K → List L → σ → Except (Stop ε) (List L × σ)) (usable : σ → Prop),
    (∀ values, values.length = p.localShapeLogical axis →
      (transform values).length = p₂.localShapeLogical axis ∧
      ∀ line rest, line.length = p₂.localShapeLogical axis → usable rest →
        ∃ rest', run values line rest = .ok (transform values, rest') ∧ usable rest') →
    ∀ (source source' : List K) (destination line : List L) (rest : σ),
      Permuted p (withPermutation p permutation) E source source' →
      destination.length = E * p₂.localLen → line.length = p₂.localShapeLogical axis →
      usable rest →
      ∃ result line' rest', forEachStridedLineDiffering lift source destination
          (p.localShapeLogical axis) line count stride run rest = .ok (result, line', rest') ∧
        Permuted p₂ (withPermutation p₂ permutation) E result
          (mapLines (p.localShapeLogical axis) transform source')
  /-- The complex forward transforms, out of place and in place. -/
  complexForward : ∀ (K : Type) (plan : LocalC2cPlan K) (scratchLen lineBufferLen : ℕ),
    plan.lineLen = p.localShapeLogical axis → plan.scratchLen ≤ scratchLen →
    (1 < stride → plan.lineLen ≤ lineBufferLen) →
    ∀ (source source' destination destination' : List K),
      Permuted p (withPermutation p permutation) E source source' →
      destination.length = source.length → destination'.length = source'.length →
      ∃ result result', executeStridedComplexForward plan p axis scratchLen lineBufferLen source
          destination = .ok result ∧
        executeStridedComplexForwardInPlace plan p axis scratchLen lineBufferLen source
          = .ok result ∧
        plan.forward source' destination' scratchLen = .ok result' ∧
        plan.forwardInPlace source' scratchLen = .ok result' ∧
        Permuted p (withPermutation p permutation) E result result'
  /-- The complex reverse transforms. -/
  complexReverse : ∀ (K : Type) [Field K] (plan : LocalC2cPlan K) (scratchLen lineBufferLen : ℕ)
    (normalize : Bool), plan.lineLen = p.localShapeLogical axis → plan.scratchLen ≤ scratchLen →
    (1 < stride → plan.lineLen ≤ lineBufferLen) →
    ∀ (source source' destination destination' : List K),
      Permuted p (withPermutation p permutation) E source source' →
      destination.length = source.length → destination'.length = source'.length →
      ∃ result result', executeStridedComplexReverse plan p axis scratchLen lineBufferLen normalize
          source destination = .ok result ∧
        executeStridedComplexReverseInPlace plan p axis scratchLen lineBufferLen normalize source
          = .ok result ∧
        (if normalize then plan.inverse source' destination' scratchLen
          else plan.backward source' destination' scratchLen) = .ok result' ∧
        (if normalize then plan.inverseInPlace source' scratchLen
          else plan.backwardInPlace source' scratchLen) = .ok result' ∧
        Permuted p (withPermutation p permutation) E result result'
  /-- The transform of real lines. -/
  realForward : ∀ (R : Type) (planner : RealFftPlanner R) (realSize : ℕ) (plan : LocalR2cPlan R),
    LocalR2cPlan.new planner realSize (p.localShapeLogical axis) = .ok plan →
    ∀ p₂ : Pencil N M, SameLines p p₂ axis →
    p₂.localShapeLogical axis = p.localShapeLogical axis / 2 + 1 → E * p₂.localLen < usizeLimit →
    ∀ (source source' : List R) (destination complexLine : List (ComplexValue R))
      (realSourceLineLen : ℕ), Permuted p (withPermutation p permutation) E source source' →
      destination.length = E * p₂.localLen →
      (1 < stride → plan.realLen ≤ realSourceLineLen ∧ plan.complexLen ≤ complexLine.length) →
      ∀ buffers done, plan.forward source' buffers = (.ok (), done) →
        ∃ result line rest, executeStridedRealForward plan p axis source realSourceLineLen
            complexLine destination (buffers.realLine, buffers.scratch)
              = .ok (result, line, rest) ∧
          Permuted p₂ (withPermutation p₂ permutation) E result done.dst
  /-- The transforms back to real lines. -/
  realReverse : ∀ (R : Type) [Field R] [DecidableEq R] (planner : RealFftPlanner R)
    (realSize realLen : ℕ) (plan : LocalR2cPlan R),
    LocalR2cPlan.new planner realSize realLen = .ok plan →
    p.localShapeLogical axis = realLen / 2 + 1 →
    ∀ p₂ : Pencil N M, SameLines p p₂ axis → p₂.localShapeLogical axis = realLen →
    E * p₂.localLen < usizeLimit →
    ∀ (normalize : Bool) (source source' : List (ComplexValue R)) (destination realLine : List R)
      (complexSourceLineLen : ℕ), Permuted p (withPermutation p permutation) E source source' →
      destination.length = E * p₂.localLen →
      (1 < stride → plan.complexLen ≤ complexSourceLineLen ∧ plan.realLen ≤ realLine.length) →
      ∀ buffers done, (if normalize then plan.inverse source' buffers
          else plan.backward source' buffers) = (.ok (), done) →
        ∃ result line rest, executeStridedRealReverse plan p axis normalize source
            complexSourceLineLen realLine destination (buffers.complexLine, buffers.scratch)
              = .ok (result, line, rest) ∧
          Permuted p₂ (withPermutation p₂ permutation) E result done.dst

/-- What is done to the lines of the axis, once out of place and once in place, is done to a batch
in the other memory order. -/
theorem AxisTransformed.permutes {permutation : AxisPermutation N}
    (hpos : 0 < p.localShapeLogical axis) (hlast : HasLast permutation axis)
    {transform : List K → List K}
    (hlength : ∀ values : List K, (transform values).length = values.length)
    {source source' result inPlace : List K}
    (hsource : Permuted p (withPermutation p permutation) E source source')
    (h : AxisTransformed transform p axis E source result)
    (hinPlace : AxisTransformed transform p axis E source inPlace) :
    inPlace = result ∧ Permuted p (withPermutation p permutation) E result
      (mapLines (p.localShapeLogical axis) transform source') := by
  have hlines := SameLines.refl p axis
  have hto := h.to hsource.length
  refine ⟨(hinPlace.to hsource.length).unique hlines hpos hsource.length hto, ?_⟩
  exact AxisTransformedTo.permuted hlines hpos (axisLast_withPermutation p hlast)
    (axisLast_withPermutation p hlast) hsource hto
    (mapLines_axisTransformedTo hlines rfl rfl hpos hlast hsource.length' fun values hvalues =>
      (hlength values).trans hvalues)

theorem dvd_length_permuted (axis : Fin N) {permutation : AxisPermutation N} {values : List K}
    (h : values.length = E * (withPermutation p permutation).localLen) :
    p.localShapeLogical axis ∣ values.length :=
  h ▸ dvd_of_axis (p := withPermutation p permutation) rfl

section Fields

variable {stride count : ℕ} {permutation : AxisPermutation N}
  (hpos : 0 < p.localShapeLogical axis) (hfit : E * p.localLen < usizeLimit)
  (hstride : memoryStride p axis = .ok stride)
  (hcount : stridedLineCount (E * p.localLen) (p.localShapeLogical axis) stride = .ok count)
  (hlast : HasLast permutation axis)

include hpos hfit hstride hcount hlast

theorem differing_permutes {p₂ : Pencil N M} (hlines : SameLines p p₂ axis)
    (hfit₂ : E * p₂.localLen < usizeLimit) (lift : FftError → ε) {transform : List K → List L}
    {run : List K → List L → σ → Except (Stop ε) (List L × σ)} {usable : σ → Prop}
    (hrun : ∀ values, values.length = p.localShapeLogical axis →
      (transform values).length = p₂.localShapeLogical axis ∧
      ∀ line rest, line.length = p₂.localShapeLogical axis → usable rest →
        ∃ rest', run values line rest = .ok (transform values, rest') ∧ usable rest')
    {source source' : List K} {destination line : List L} {rest : σ}
    (hsource : Permuted p (withPermutation p permutation) E source source')
    (hdestination : destination.length = E * p₂.localLen)
    (hline : line.length = p₂.localShapeLogical axis) (hrest : usable rest) :
    ∃ result line' rest', forEachStridedLineDiffering lift source destination
        (p.localShapeLogical axis) line count stride run rest = .ok (result, line', rest') ∧
      LinesTransformedTo transform (p.localShapeLogical axis) (p₂.localShapeLogical axis) stride
        count source result ∧
      Permuted p₂ (withPermutation p₂ permutation) E result
        (mapLines (p.localShapeLogical axis) transform source') := by
  obtain ⟨hlen, hlen₂, hblock, hblock₂⟩ := loop_bounds hlines hpos hstride hcount
  have hruns : RunsLines transform (p.localShapeLogical axis) (p₂.localShapeLogical axis) stride
      count source run usable := fun _ _ _ _ values hvalues => hrun values hvalues.1
  obtain ⟨result, line', rest', hresult, hlength, htransformed, _⟩ :=
    forEachStridedLineDiffering_eq lift hruns (hsource.length.trans hlen)
      (hdestination.trans hlen₂) (hlen ▸ hfit) (hlen₂ ▸ hfit₂) hblock hblock₂ hline hrest
  refine ⟨result, line', rest', hresult, htransformed, ?_⟩
  exact AxisTransformedTo.permuted hlines hpos (axisLast_withPermutation p hlast)
    (axisLast_withPermutation p₂ hlast) hsource
    (htransformed.of_axis hlines hpos hstride hcount (hlength.trans hdestination))
    (mapLines_axisTransformedTo hlines rfl rfl hpos hlast hsource.length' fun values hvalues =>
      (hrun values hvalues).1)

theorem loops_permute (lift : FftError → ε) {transform : List K → List K}
    {line : List K → Except (Stop ε) (List K)}
    (hline : ∀ values, values.length = p.localShapeLogical axis →
      line values = .ok (transform values) ∧
        (transform values).length = p.localShapeLogical axis)
    {lineBufferLen : ℕ} (hbuffer : p.localShapeLogical axis ≤ lineBufferLen)
    {source source' destination buffer : List K}
    (hsource : Permuted p (withPermutation p permutation) E source source')
    (hdestination : destination.length = source.length)
    (hbufferLen : buffer.length = p.localShapeLogical axis) :
    ∃ result buffer', forEachStridedLine lift source destination lineBufferLen count
        (p.localShapeLogical axis) stride line = .ok result ∧
      forEachStridedLineInPlace lift source lineBufferLen count (p.localShapeLogical axis)
        stride line = .ok result ∧
      forEachStridedLineDiffering lift source destination (p.localShapeLogical axis) buffer count
        stride (fun values _ rest => do return (← line values, rest)) ()
          = .ok (result, buffer', ()) ∧
      Permuted p (withPermutation p permutation) E result
        (mapLines (p.localShapeLogical axis) transform source') := by
  have hlines := SameLines.refl p axis
  obtain ⟨hlen, _, hblock, _⟩ := loop_bounds hlines hpos hstride hcount
  have hlength := hsource.length.trans hlen
  have hrun : ∀ values, values.length = p.localShapeLogical axis →
      (transform values).length = p.localShapeLogical axis ∧
      ∀ (buffer : List K) (rest : Unit), buffer.length = p.localShapeLogical axis → True →
        ∃ rest' : Unit, (do return (← line values, rest) : Except (Stop ε) (List K × Unit))
          = .ok (transform values, rest') ∧ True := by
    intro values hvalues
    refine ⟨(hline values hvalues).2, fun _ rest _ _ => ⟨rest, ?_, trivial⟩⟩
    rw [(hline values hvalues).1]
    rfl
  obtain ⟨result, buffer', rest', hresult, htransformed, hpermuted⟩ := differing_permutes hpos hfit
    hstride hcount hlast hlines hfit lift hrun hsource (hdestination.trans hsource.length)
    hbufferLen trivial
  obtain ⟨outOfPlace, houtOfPlace, houtLen, houtTransformed⟩ := stridedLines_eq lift
    (readsLines_const _ stride count source destination) hlength (hdestination.trans hlength)
    (hlen ▸ hfit) hblock (fun values hvalues => (hline values hvalues).1)
    (fun values hvalues => (hline values hvalues).2) hbuffer
  obtain ⟨inPlace, hinPlace, hinLen, hinTransformed⟩ := stridedLines_eq lift
    (readsLines_id _ stride count source) hlength hlength (hlen ▸ hfit) hblock
    (fun values hvalues => (hline values hvalues).1)
    (fun values hvalues => (hline values hvalues).2) hbuffer
  have hresultLen : result.length = count * (p.localShapeLogical axis * stride) :=
    hpermuted.length.trans hlen
  obtain rfl : outOfPlace = result := LinesTransformedTo.unique hlength
    ((houtLen.trans hdestination).trans hlength) hresultLen houtTransformed htransformed
  obtain rfl : inPlace = outOfPlace := LinesTransformedTo.unique hlength (hinLen.trans hlength)
    hresultLen hinTransformed htransformed
  exact ⟨inPlace, buffer', houtOfPlace, hinPlace, hresult, hpermuted⟩

omit hcount in
theorem complexForward_permutes {plan : LocalC2cPlan K} {scratchLen lineBufferLen : ℕ}
    (hplan : plan.lineLen = p.localShapeLogical axis) (hscratch : plan.scratchLen ≤ scratchLen)
    (hbuffer : 1 < stride → plan.lineLen ≤ lineBufferLen)
    {source source' destination destination' : List K}
    (hsource : Permuted p (withPermutation p permutation) E source source')
    (hdestination : destination.length = source.length)
    (hdestination' : destination'.length = source'.length) :
    ∃ result result', executeStridedComplexForward plan p axis scratchLen lineBufferLen source
        destination = .ok result ∧
      executeStridedComplexForwardInPlace plan p axis scratchLen lineBufferLen source
        = .ok result ∧
      plan.forward source' destination' scratchLen = .ok result' ∧
      plan.forwardInPlace source' scratchLen = .ok result' ∧
      Permuted p (withPermutation p permutation) E result result' := by
  have hfits : LineBufferFits p axis plan.lineLen lineBufferLen := by
    intro other hother hlarge
    obtain rfl := Except.ok.inj (hstride.symm.trans hother)
    exact hbuffer hlarge
  obtain ⟨result, hresult, htransformed⟩ := executeStridedComplexForward_eq hplan.symm
    (hplan ▸ hpos) hscratch hfits hfit hsource.length (hdestination.trans hsource.length)
  obtain ⟨inPlace, hinPlace, hinTransformed⟩ := executeStridedComplexForwardInPlace_eq hplan.symm
    (hplan ▸ hpos) hscratch hfits hfit hsource.length
  obtain ⟨rfl, hpermuted⟩ := htransformed.permutes hpos hlast
    plan.forwardFft.length_transform hsource hinTransformed
  have hdvd := dvd_length_permuted axis hsource.length'
  rw [← hplan] at hdvd hpermuted
  exact ⟨inPlace, _, hresult, hinPlace,
    processOutOfPlace_eq plan.forwardFft hscratch hdestination'.symm hdvd,
    processInPlace_eq plan.forwardFft hscratch hdvd, hpermuted⟩

omit hcount in
theorem complexReverse_permutes [Field K] {plan : LocalC2cPlan K} {scratchLen lineBufferLen : ℕ}
    (normalize : Bool) (hplan : plan.lineLen = p.localShapeLogical axis)
    (hscratch : plan.scratchLen ≤ scratchLen)
    (hbuffer : 1 < stride → plan.lineLen ≤ lineBufferLen)
    {source source' destination destination' : List K}
    (hsource : Permuted p (withPermutation p permutation) E source source')
    (hdestination : destination.length = source.length)
    (hdestination' : destination'.length = source'.length) :
    ∃ result result', executeStridedComplexReverse plan p axis scratchLen lineBufferLen normalize
        source destination = .ok result ∧
      executeStridedComplexReverseInPlace plan p axis scratchLen lineBufferLen normalize source
        = .ok result ∧
      (if normalize then plan.inverse source' destination' scratchLen
        else plan.backward source' destination' scratchLen) = .ok result' ∧
      (if normalize then plan.inverseInPlace source' scratchLen
        else plan.backwardInPlace source' scratchLen) = .ok result' ∧
      Permuted p (withPermutation p permutation) E result result' := by
  have hfits : LineBufferFits p axis plan.lineLen lineBufferLen := by
    intro other hother hlarge
    obtain rfl := Except.ok.inj (hstride.symm.trans hother)
    exact hbuffer hlarge
  have hlength : ∀ values : List K, (reverseLine plan normalize values).length = values.length := by
    intro values
    unfold reverseLine
    rw [List.length_map, plan.backwardFft.length_transform]
  obtain ⟨result, hresult, htransformed⟩ := executeStridedComplexReverse_eq hplan.symm
    (hplan ▸ hpos) hscratch hfits hfit normalize hsource.length
    (hdestination.trans hsource.length)
  obtain ⟨inPlace, hinPlace, hinTransformed⟩ := executeStridedComplexReverseInPlace_eq hplan.symm
    (hplan ▸ hpos) hscratch hfits hfit normalize hsource.length
  obtain ⟨rfl, hpermuted⟩ := htransformed.permutes hpos hlast hlength hsource
    hinTransformed
  have hdvd := dvd_length_permuted axis hsource.length'
  rw [← hplan] at hdvd hpermuted
  have hscaled : (plan.backwardFft.process plan.lineLen source').map (fun value =>
        if normalize then value * (1 / (plan.lineLen : K)) else value)
      = mapLines plan.lineLen (reverseLine plan normalize) source' := by
    unfold FftKernel.process mapLines
    rw [List.map_flatMap]
    rfl
  have hbatch := reverse_batch_eq hscratch normalize hdestination'.symm hdvd
  have hbatchInPlace := reverse_line_eq hscratch normalize hdvd
  rw [hscaled] at hbatch hbatchInPlace
  exact ⟨inPlace, _, hresult, hinPlace, mapError_eq_ok.mp hbatch, mapError_eq_ok.mp hbatchInPlace,
    hpermuted⟩

end Fields

/-- **Strided kernels** equal permuted contiguous kernels: the stride and the number of lines are
found without an overflow, the loops visit every line of the axis once, and all of them, out of
place, in place and with lines of two lengths, do what a batch does in a memory order that has the
axis last. -/
theorem strided_kernels_permute (p : Pencil N M) (axis : Fin N) (E : ℕ)
    (hfull : p.localShapeLogical axis = p.globalShape axis) (hfit : E * p.localLen < usizeLimit) :
    ∃ stride count, memoryStride p axis = .ok stride ∧
      stridedLineCount (E * p.localLen) (p.localShapeLogical axis) stride = .ok count ∧
      EnumeratesLines p axis E stride count ∧
      (∃ permutation : AxisPermutation N, HasLast permutation axis) ∧
      ∀ permutation, HasLast permutation axis →
        KernelsPermute p axis E stride count permutation := by
  have hpos : 0 < p.localShapeLogical axis := hfull ▸ p.extents_pos axis
  obtain ⟨stride, count, hstride, hcount, henumerates⟩ := exists_lines_of_axis p axis E hpos
  refine ⟨stride, count, hstride, hcount, henumerates, exists_hasLast axis,
    fun permutation hlast => ?_⟩
  have hbuffers : ∀ {required required' actual actual' : ℕ},
      (1 < stride → required ≤ actual ∧ required' ≤ actual') →
      ∀ other, memoryStride p axis = .ok other → 1 < other →
        required ≤ actual ∧ required' ≤ actual' := by
    intro required required' actual actual' hbuffer other hother hlarge
    obtain rfl := Except.ok.inj (hstride.symm.trans hother)
    exact hbuffer hlarge
  constructor
  case permuted => exact fun _ _ => exists_permuted (axisLast_withPermutation p hlast)
  case loops =>
    intro K ε lift transform line hline lineBufferLen hbuffer source source' destination buffer
    exact loops_permute hpos hfit hstride hcount hlast lift hline hbuffer
  case differing =>
    intro K L σ ε lift p₂ hlines hfit₂ transform run usable hrun source source' destination line
      rest hsource hdestination hline hrest
    obtain ⟨result, line', rest', hresult, _, hpermuted⟩ := differing_permutes hpos hfit hstride
      hcount hlast hlines hfit₂ lift hrun hsource hdestination hline hrest
    exact ⟨result, line', rest', hresult, hpermuted⟩
  case complexForward =>
    intro K plan scratchLen lineBufferLen hplan hscratch hbuffer source source' destination
      destination'
    exact complexForward_permutes hpos hfit hstride hlast hplan hscratch hbuffer
  case complexReverse =>
    intro K _ plan scratchLen lineBufferLen normalize hplan hscratch hbuffer source source'
      destination destination'
    exact complexReverse_permutes hpos hfit hstride hlast normalize hplan hscratch hbuffer
  case realForward =>
    intro R planner realSize plan hnew p₂ hlines hextent hfit₂ source source' destination
      complexLine realSourceLineLen hsource hdestination hbuffer buffers done hdone
    have hplan := isR2cPlan_of_new hnew
    have hbatch : forwardBatch plan source' buffers.dst (buffers.realLine, buffers.scratch)
        = .ok (done.dst, done.realLine, done.scratch) :=
      bind_eq_ok.mpr ⟨done, completed_eq_ok.mpr hdone, rfl⟩
    have hrun := executeStridedDiffering_permuted (forwardBatch_kernel hplan) "real/complex line"
      hlines rfl (hextent.trans hplan.complexLen.symm) hlast hsource hdestination hfit hfit₂
      (hbuffers (hplan.realLen ▸ hbuffer)) hbatch
    unfold executeStridedRealForward
    rw [hplan.realLen]
    exact hrun
  case realReverse =>
    intro R _ _ planner realSize realLen plan hnew hextent p₂ hlines hextent₂ hfit₂ normalize source
      source' destination realLine complexSourceLineLen hsource hdestination hbuffer buffers done
      hdone
    have hplan := isR2cPlan_of_new hnew
    have hbatch : reverseBatch plan normalize source' buffers.dst
        (buffers.complexLine, buffers.scratch) = .ok (done.dst, done.complexLine, done.scratch) :=
      bind_eq_ok.mpr ⟨done, completed_eq_ok.mpr hdone, rfl⟩
    have hrun := executeStridedDiffering_permuted (reverseBatch_kernel hplan normalize)
      "complex/real line" hlines (hextent.trans hplan.complexLen.symm) hextent₂ hlast hsource
      hdestination hfit hfit₂ (hbuffers (hplan.realLen ▸ hbuffer)) hbatch
    unfold executeStridedRealReverse
    rw [hplan.realLen]
    exact hrun

theorem strided_kernels_permute_rows :
    ∃ stride count, memoryStride (rowsOfThree swapAxes) 1 = .ok stride ∧
      stridedLineCount (3 * (rowsOfThree swapAxes).localLen)
        ((rowsOfThree swapAxes).localShapeLogical 1) stride = .ok count ∧
      EnumeratesLines (rowsOfThree swapAxes) 1 3 stride count ∧
      (∃ permutation : AxisPermutation 2, HasLast permutation 1) ∧
      ∀ permutation, HasLast permutation 1 →
        KernelsPermute (rowsOfThree swapAxes) 1 3 stride count permutation :=
  strided_kernels_permute (rowsOfThree swapAxes) 1 3 (by decide) (by decide)

end Kernels

end PencilRs.Analysis
