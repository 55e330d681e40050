import PencilRs.Analysis.C2cPlan
import PencilRs.Analysis.FftPipeline
import PencilRs.Analysis.OwnedArray
import PencilRs.Computation.Dft

/-!
# What the stages of a complex plan do

A stage acts on the global array along its axis: every line is transformed by the local plan of
the rank that owns it.  With exact libraries that is the signed transform of the line, and the
reverse undoes it up to the length of the line.
-/

set_option autoImplicit false

namespace PencilRs.Analysis

open PencilRs.Computation PencilRs.Model
open Semantics.Ensures (Together)

variable {N M : ℕ} {K P : Type} [Field K]

/-! ## Kernels -/

/-- What a call does to a line of a stage. -/
def lineTransform : Direction → LocalTransform P K → List K → List K
  | _, .identity => id
  | .forward, .complex plan => plan.forwardFft.transform
  | .inverse, .complex plan => reverseLine plan true
  | .backward, .complex plan => reverseLine plan false
  | _, .realComplex _ => id

theorem length_lineTransform (direction : Direction) (localTransform : LocalTransform P K)
    (values : List K) : (lineTransform direction localTransform values).length = values.length := by
  cases localTransform with
  | identity => cases direction <;> rfl
  | realComplex plan => cases direction <;> rfl
  | complex plan =>
    cases direction with
    | forward => exact plan.forwardFft.length_transform values
    | inverse =>
      show ((plan.backwardFft.transform values).map _).length = _
      rw [List.length_map, plan.backwardFft.length_transform]
    | backward =>
      show ((plan.backwardFft.transform values).map _).length = _
      rw [List.length_map, plan.backwardFft.length_transform]

/-- The buffers of a call are long enough for a stage. -/
structure StageFits (p : Pencil N M) (axis : Fin N) (scratchLen lineBufferLen : ℕ)
    (localTransform : LocalTransform P K) : Prop where
  whole : p.localShapeLogical axis = p.globalShape axis
  complex : ∀ plan, localTransform = .complex plan → plan.lineLen = p.globalShape axis ∧
    plan.scratchLen ≤ scratchLen ∧ LineBufferFits p axis plan.lineLen lineBufferLen
  not_real : ∀ plan, localTransform ≠ .realComplex plan

section Kernels

variable {p : Pencil N M} {axis : Fin N} {E scratchLen lineBufferLen : ℕ}

theorem toGlobal_lt_shape {x : Fin N → ℕ} (hx : ValidLocal p x) (a : Fin N) :
    toGlobal p x a < p.globalShape a := by
  have howns := (Range.contains_iff ..).mp (owns_toGlobal hx a)
  have hstop := ownedRanges_stop_le p.globalShape p.decomposition.axes p.topology.coords_lt a
  rw [← localRanges_eq] at hstop
  exact howns.2.trans_le hstop

variable {localTransform : LocalTransform P K}

/-- **A stage** acts on the array along its axis. -/
theorem kernelActs_stage (h : StageFits p axis scratchLen lineBufferLen localTransform)
    (direction : Direction) :
    KernelActs E p (alongStage axis (p.globalShape axis) (lineTransform direction localTransform))
      ((TransformPlanCore.complexKernels scratchLen lineBufferLen direction).run localTransform p
        axis)
      ((TransformPlanCore.complexKernels scratchLen lineBufferLen direction).runInPlace
        localTransform p axis) := by
  cases localTransform with
  | realComplex plan => exact absurd rfl (h.not_real plan)
  | identity =>
    have hblock : ∀ {array : GlobalArray K N} {storage : List K}, HoldsBlock p E array storage →
        HoldsBlock p E (alongStage axis (p.globalShape axis)
          (lineTransform direction (.identity : LocalTransform P K)) array) storage := by
      intro array storage hstorage e he x hx
      rw [hstorage e he x hx]
      unfold alongStage
      have hid : lineTransform direction (.identity : LocalTransform P K) = id := by
        cases direction <;> rfl
      rw [hid, alongAxis_id (toGlobal_lt_shape hx axis)]
    constructor
    · intro array source cells hsource hcells _ hholds
      have hlen : source.length = cells.length := hsource.trans hcells.symm
      refine ⟨source, ?_, hlen, hblock hholds⟩
      cases direction <;>
        exact bind_eq_ok.mpr ⟨(), ensure_eq_ok.mpr (decide_eq_true hlen), rfl⟩
    · intro array data _ _ hholds
      refine ⟨data, ?_, rfl, hblock hholds⟩
      cases direction <;> rfl
  | complex plan =>
    obtain ⟨hplan, hscratch, hbuffer⟩ := h.complex plan rfl
    have hlineLen : p.localShapeLogical axis = plan.lineLen := h.whole.trans hplan.symm
    have hpos : 0 < plan.lineLen := hplan ▸ p.extents_pos axis
    have hholds : ∀ {array : GlobalArray K N} {source result : List K},
        AxisTransformed (lineTransform direction (.complex plan : LocalTransform P K)) p axis E
          source result → HoldsBlock p E array source →
        HoldsBlock p E (alongStage axis (p.globalShape axis)
          (lineTransform direction (.complex plan : LocalTransform P K)) array) result :=
      fun htransformed hsource => hsource.axisTransformed h.whole
        (length_lineTransform direction _) htransformed
    cases direction with
    | forward =>
      constructor
      · intro array source cells hsource hcells hfit hblock
        obtain ⟨result, hresult, htransformed⟩ := executeStridedComplexForward_eq hlineLen hpos
          hscratch hbuffer hfit hsource hcells
        exact ⟨result, hresult, htransformed.length.trans (hsource.trans hcells.symm),
          hholds htransformed hblock⟩
      · intro array data hdata hfit hblock
        obtain ⟨result, hresult, htransformed⟩ := executeStridedComplexForwardInPlace_eq hlineLen
          hpos hscratch hbuffer hfit hdata
        exact ⟨result, hresult, htransformed.length, hholds htransformed hblock⟩
    | inverse =>
      constructor
      · intro array source cells hsource hcells hfit hblock
        obtain ⟨result, hresult, htransformed⟩ := executeStridedComplexReverse_eq hlineLen hpos
          hscratch hbuffer hfit true hsource hcells
        exact ⟨result, hresult, htransformed.length.trans (hsource.trans hcells.symm),
          hholds htransformed hblock⟩
      · intro array data hdata hfit hblock
        obtain ⟨result, hresult, htransformed⟩ := executeStridedComplexReverseInPlace_eq hlineLen
          hpos hscratch hbuffer hfit true hdata
        exact ⟨result, hresult, htransformed.length, hholds htransformed hblock⟩
    | backward =>
      constructor
      · intro array source cells hsource hcells hfit hblock
        obtain ⟨result, hresult, htransformed⟩ := executeStridedComplexReverse_eq hlineLen hpos
          hscratch hbuffer hfit false hsource hcells
        exact ⟨result, hresult, htransformed.length.trans (hsource.trans hcells.symm),
          hholds htransformed hblock⟩
      · intro array data hdata hfit hblock
        obtain ⟨result, hresult, htransformed⟩ := executeStridedComplexReverseInPlace_eq hlineLen
          hpos hscratch hbuffer hfit false hdata
        exact ⟨result, hresult, htransformed.length, hholds htransformed hblock⟩

end Kernels

/-! ## Exact libraries -/

/-- The root whose powers a library's transform of length `n` sums against. -/
def libraryRoot (ζ : ℕ → K) (n : ℕ) : FftDirection → K
  | .forward => (ζ n)⁻¹
  | .inverse => ζ n

/-- The libraries compute the transforms against the roots of unity `ζ`. -/
structure ExactLibraries (ζ : ℕ → K) (libraries : FftLibraries K) : Prop where
  root : ∀ n, 0 < n → IsPrimitiveRoot (ζ n) n
  rustFft : ∀ n direction values, values.length = n →
    (libraries.rustFft n direction).transform values = dftLine (libraryRoot ζ n direction) values
  fftw : ∀ options n direction kernel, libraries.fftw options n direction = .ok kernel →
    ∀ values, values.length = n →
      kernel.transform values = dftLine (libraryRoot ζ n direction) values

/-- The root of an axis with a sign. -/
def signedRoot (ζ : ℕ → K) (n : ℕ) : FourierDirection → K
  | .forward => (ζ n)⁻¹
  | .backward => ζ n

theorem isPrimitiveRoot_signedRoot {ζ : ℕ → K} {n : ℕ} (h : IsPrimitiveRoot (ζ n) n)
    (direction : FourierDirection) : IsPrimitiveRoot (signedRoot ζ n direction) n := by
  cases direction with
  | forward => exact h.inv
  | backward => exact h

/-- What the local plan of an axis does to a line. -/
structure IsExactPlan (ω : K) (n : ℕ) (plan : LocalC2cPlan K) : Prop where
  lineLen : plan.lineLen = n
  pos : 0 < n
  forward : ∀ values, values.length = n → plan.forwardFft.transform values = dftLine ω values
  backward : ∀ values, values.length = n → plan.backwardFft.transform values = dftLine ω⁻¹ values

theorem isExactPlan_fromPlans {ζ : ℕ → K} {n : ℕ} (hpos : 0 < n) {forward inverse : FftKernel K}
    (hforward : ∀ values, values.length = n → forward.transform values = dftLine (ζ n)⁻¹ values)
    (hinverse : ∀ values, values.length = n → inverse.transform values = dftLine (ζ n) values)
    (direction : FourierDirection) :
    IsExactPlan (signedRoot ζ n direction) n
      (LocalC2cPlan.fromPlans n (decide (direction = .backward)) forward inverse) := by
  cases direction with
  | forward =>
    refine ⟨rfl, hpos, hforward, ?_⟩
    intro values hvalues
    show inverse.transform values = dftLine (ζ n)⁻¹⁻¹ values
    rw [inv_inv]
    exact hinverse values hvalues
  | backward => exact ⟨rfl, hpos, hinverse, hforward⟩

theorem planLine_exact {ζ : ℕ → K} {env : FftEnvironment K} (hexact : ExactLibraries ζ env.libraries)
    {n : ℕ} {direction : FourierDirection} {backend : BackendChoice} {plan : LocalC2cPlan K}
    (h : planLine env n (direction = .backward) backend = .ok plan) :
    IsExactPlan (signedRoot ζ n direction) n plan := by
  cases backend with
  | rustFft =>
    unfold planLine LocalC2cPlan.newWithSign at h
    obtain ⟨_, hvalid, h⟩ := bind_eq_ok.mp (mapError_eq_ok.mp h)
    obtain rfl := Except.ok.inj h
    exact isExactPlan_fromPlans (validateLineLen_pos hvalid) (hexact.rustFft n .forward)
      (hexact.rustFft n .inverse) direction
  | fftw options =>
    unfold planLine LocalC2cPlan.newFftwWithSign at h
    obtain ⟨_, hvalid, h⟩ := bind_eq_ok.mp (mapError_eq_ok.mp h)
    obtain ⟨forward, hforward, h⟩ := bind_eq_ok.mp h
    obtain ⟨inverse, hinverse, h⟩ := bind_eq_ok.mp h
    obtain rfl := Except.ok.inj h
    exact isExactPlan_fromPlans (validateLineLen_pos (mapError_eq_ok.mp hvalid))
      (hexact.fftw options n .forward _ (mapError_eq_ok.mp hforward))
      (hexact.fftw options n .inverse _ (mapError_eq_ok.mp hinverse)) direction

/-! ## Transforms of an axis -/

/-- What a call does to the lines of length `n` of a selected axis. -/
def signedTransform (ω : K) (n : ℕ) : Direction → List K → List K
  | .forward => dftLine ω
  | .inverse => fun values => (dftLine ω⁻¹ values).map (· * (1 / (n : K)))
  | .backward => dftLine ω⁻¹

theorem length_signedTransform (ω : K) (n : ℕ) (direction : Direction) (values : List K) :
    (signedTransform ω n direction values).length = values.length := by
  cases direction with
  | forward => exact length_dftLine ω values
  | inverse =>
    show ((dftLine ω⁻¹ values).map _).length = _
    rw [List.length_map, length_dftLine]
  | backward => exact length_dftLine ω⁻¹ values

theorem homogeneous_signedTransform (ω : K) (n : ℕ) (direction : Direction) :
    Homogeneous (signedTransform ω n direction) := by
  cases direction with
  | forward => exact homogeneous_dftLine ω
  | inverse => exact (homogeneous_map_mul _).comp (homogeneous_dftLine ω⁻¹)
  | backward => exact homogeneous_dftLine ω⁻¹

/-- A reverse call after a forward call multiplies by this. -/
def roundTripFactor (n : ℕ) : Direction → K
  | .forward | .inverse => 1
  | .backward => n

theorem signedTransform_roundTrip {ω : K} {n : ℕ} (hpos : 0 < n) (hω : IsPrimitiveRoot ω n)
    {direction : Direction} (hdirection : direction ≠ .forward) {values : List K}
    (hvalues : values.length = n) :
    signedTransform ω n direction (signedTransform ω n .forward values)
      = values.map (roundTripFactor n direction * ·) := by
  have hroot : IsPrimitiveRoot ω values.length := hvalues.symm ▸ hω
  have hback := dftLine_inv_dftLine hroot
  rw [hvalues] at hback
  cases direction with
  | forward => exact absurd rfl hdirection
  | inverse =>
    have : NeZero n := ⟨hpos.ne'⟩
    have hne : (n : K) ≠ 0 := hω.neZero'.out
    show (dftLine ω⁻¹ (dftLine ω values)).map (· * (1 / (n : K))) = values.map ((1 : K) * ·)
    rw [hback, List.map_map]
    refine List.map_congr_left fun value _ => ?_
    rw [Function.comp_apply, one_mul]
    field_simp
  | backward => exact hback

/-- The local plan of an exact library transforms a line by the signed transform. -/
theorem IsExactPlan.lineTransform_eq {ω : K} {n : ℕ} {plan : LocalC2cPlan K}
    (h : IsExactPlan ω n plan) (direction : Direction) {values : List K}
    (hvalues : values.length = n) :
    lineTransform direction (.complex plan : LocalTransform P K) values
      = signedTransform ω n direction values := by
  cases direction with
  | forward => exact h.forward values hvalues
  | inverse =>
    show reverseLine plan true values = _
    unfold reverseLine
    rw [h.backward values hvalues, h.lineLen]
    rfl
  | backward =>
    show reverseLine plan false values = _
    unfold reverseLine
    rw [h.backward values hvalues]
    exact List.map_id _

/-! ## Over the complex numbers -/

/-- The roots of unity of the forward kernels of the libraries, inverted. -/
noncomputable def unitRoot (n : ℕ) : ℂ := Complex.exp (2 * Real.pi * Complex.I / n)

/-- Libraries that compute the transforms as their definition says. -/
noncomputable def definingLibraries : FftLibraries ℂ where
  rustFft n direction :=
    { transform := dftLine (libraryRoot unitRoot n direction), immutableScratchLen := 0
      inplaceScratchLen := 0, length_transform := length_dftLine _ }
  fftw _ n direction := .ok
    { transform := dftLine (libraryRoot unitRoot n direction), immutableScratchLen := 0
      inplaceScratchLen := 0, length_transform := length_dftLine _ }

theorem exactLibraries_defining : ExactLibraries unitRoot definingLibraries where
  root n hn := Complex.isPrimitiveRoot_exp n hn.ne'
  rustFft _ _ _ _ := rfl
  fftw _ _ _ kernel h values _ := by
    obtain rfl := Except.ok.inj h
    rfl

end PencilRs.Analysis
