import PencilRs.Analysis.C2cKernels
import PencilRs.Model.C2cNd

/-!
# Local transforms over several axes

The lines of an axis of a column-major array cover it once, so that the loop over the lines of an
axis applies the transform of a line along that axis, and the loop over the axes transforms the
array over all of them, in whatever order they were chosen.
-/

set_option autoImplicit false

namespace PencilRs.Analysis

open PencilRs.Computation PencilRs.Model C2cNd

variable {K : Type}

/-! ## Column-major arrays -/

section Places

variable (shape : List ℕ)

/-- The extent of an axis. -/
abbrev extentOf (axis : Fin shape.length) : ℕ := shape.get axis

/-- The axes before and behind an axis. -/
def axesBefore (axis : Fin shape.length) : List (Fin shape.length) :=
  (List.finRange shape.length).take axis

def axesBehind (axis : Fin shape.length) : List (Fin shape.length) :=
  (List.finRange shape.length).drop (axis + 1)

/-- Where an element is. -/
def columnMajor (g : Fin shape.length → ℕ) : ℕ :=
  MixedRadix.value (extentOf shape) g (List.finRange shape.length)

/-- How far the elements of a line are apart, and the number of blocks of lines. -/
def strideOf (axis : Fin shape.length) : ℕ :=
  MixedRadix.size (extentOf shape) (axesBefore shape axis)

def outerOf (axis : Fin shape.length) : ℕ :=
  MixedRadix.size (extentOf shape) (axesBehind shape axis)

variable {shape} (axis : Fin shape.length)

theorem finRange_split :
    List.finRange shape.length = axesBefore shape axis ++ axis :: axesBehind shape axis := by
  have hlt : (axis : ℕ) < (List.finRange shape.length).length := by
    rw [List.length_finRange]
    exact axis.isLt
  conv_lhs => rw [← List.take_append_drop axis (List.finRange shape.length),
    List.drop_eq_getElem_cons hlt]
  rw [List.getElem_finRange]
  rfl

theorem notMem_split : axis ∉ axesBefore shape axis ∧ axis ∉ axesBehind shape axis := by
  have hnodup := List.nodup_finRange shape.length
  rw [finRange_split axis, List.nodup_append, List.nodup_cons] at hnodup
  obtain ⟨_, ⟨hbehind, _⟩, hbefore⟩ := hnodup
  exact ⟨fun hmem => hbefore axis hmem axis List.mem_cons_self rfl, hbehind⟩

theorem map_extentOf : (List.finRange shape.length).map (extentOf shape) = shape := by
  apply List.ext_getElem
  · rw [List.length_map, List.length_finRange]
  · intro i hi hi'
    rw [List.getElem_map, List.getElem_finRange]
    rfl

theorem size_shape :
    MixedRadix.size (extentOf shape) (List.finRange shape.length) = shape.prod := by
  unfold MixedRadix.size
  rw [map_extentOf]

theorem strideOf_eq : strideOf shape axis = (shape.take axis).prod := by
  unfold strideOf MixedRadix.size axesBefore
  rw [List.map_take, map_extentOf]

theorem prod_shape :
    shape.prod = outerOf shape axis * (extentOf shape axis * strideOf shape axis) := by
  rw [← size_shape, finRange_split axis, MixedRadix.size_append, MixedRadix.size_cons]
  unfold outerOf strideOf
  ring

/-- The line of an element. -/
def outerAt (axis : Fin shape.length) (g : Fin shape.length → ℕ) : ℕ :=
  MixedRadix.value (extentOf shape) g (axesBehind shape axis)

def innerAt (axis : Fin shape.length) (g : Fin shape.length → ℕ) : ℕ :=
  MixedRadix.value (extentOf shape) g (axesBefore shape axis)

theorem columnMajor_line (g : Fin shape.length → ℕ) : columnMajor shape g
    = linePlace (extentOf shape axis) (strideOf shape axis) (outerAt axis g) (innerAt axis g)
        (g axis) := by
  unfold columnMajor
  rw [finRange_split axis, MixedRadix.value_append, MixedRadix.value_cons]
  unfold linePlace outerAt innerAt strideOf
  ring

variable {axis} {g : Fin shape.length → ℕ}

theorem outerAt_lt (hg : ∀ a, g a < extentOf shape a) : outerAt axis g < outerOf shape axis :=
  MixedRadix.value_lt_size fun a _ => hg a

theorem innerAt_lt (hg : ∀ a, g a < extentOf shape a) : innerAt axis g < strideOf shape axis :=
  MixedRadix.value_lt_size fun a _ => hg a

theorem outerAt_update (k : ℕ) : outerAt axis (Function.update g axis k) = outerAt axis g :=
  MixedRadix.value_congr fun _ ha => Function.update_of_ne
    (ne_of_mem_of_not_mem ha (notMem_split axis).2) _ _

theorem innerAt_update (k : ℕ) : innerAt axis (Function.update g axis k) = innerAt axis g :=
  MixedRadix.value_congr fun _ ha => Function.update_of_ne
    (ne_of_mem_of_not_mem ha (notMem_split axis).1) _ _

end Places

/-- The data hold an array. -/
structure HoldsArray (shape : List ℕ) (data : List K) (array : (Fin shape.length → ℕ) → K) :
    Prop where
  length : data.length = shape.prod
  element : ∀ g, (∀ a, g a < extentOf shape a) → data[columnMajor shape g]? = some (array g)

/-- **Transformed lines** hold the array transformed along the axis. -/
theorem HoldsArray.alongAxis [Zero K] {shape : List ℕ} {data result : List K}
    {array : (Fin shape.length → ℕ) → K} (h : HoldsArray shape data array)
    {axis : Fin shape.length} {transform : List K → List K}
    (hlength : ∀ values, values.length = extentOf shape axis →
      (transform values).length = extentOf shape axis)
    (hlen : result.length = data.length)
    (hlines : LinesTransformed transform (extentOf shape axis) (strideOf shape axis)
      (outerOf shape axis) data result) :
    HoldsArray shape result (alongAxis axis (extentOf shape axis) transform array) where
  length := hlen.trans h.length
  element := by
    intro g hg
    have hline : HoldsLine (extentOf shape axis) (strideOf shape axis) (outerAt axis g)
        (innerAt axis g) data
        (List.ofFn fun k : Fin (extentOf shape axis) => array (Function.update g axis k)) := by
      refine ⟨List.length_ofFn, fun k hk => ?_⟩
      have hplace := columnMajor_line axis (Function.update g axis k)
      rw [outerAt_update, innerAt_update, Function.update_self] at hplace
      rw [← hplace, List.getElem?_ofFn, dif_pos hk]
      apply h.element
      intro a
      by_cases ha : a = axis
      · subst ha
        rwa [Function.update_self]
      · rw [Function.update_of_ne ha]
        exact hg a
    rw [columnMajor_line axis, hlines _ (outerAt_lt hg) _ (innerAt_lt hg) _ hline _
      (hg axis)]
    unfold PencilRs.Computation.alongAxis
    have hlt : g axis < (transform (List.ofFn fun k : Fin (extentOf shape axis) =>
        array (Function.update g axis k))).length := by
      rw [hlength _ List.length_ofFn]
      exact hg axis
    rw [List.getElem?_eq_getElem hlt, Option.getD_some]

/-! ## One axis -/

/-- The plan of an axis, whatever its line buffers hold. -/
structure PlansAxis [Field K] (ω : K) (shape : List ℕ) (axis : Fin shape.length)
    (plan : AxisPlan K) : Prop where
  len : plan.len = extentOf shape axis
  stride : plan.stride = strideOf shape axis
  outer : plan.outer = outerOf shape axis
  exact : IsExactPlan ω (extentOf shape axis) plan.plan
  lineIn : plan.lineIn.length = extentOf shape axis
  lineOut : plan.lineOut.length = extentOf shape axis
  scratch : plan.plan.scratchLen ≤ plan.scratchLen

section Axis

variable {shape : List ℕ} {axis : Fin shape.length}

/-- No index overflows, and each is the place of its element on its line. -/
theorem index_eq {plan : AxisPlan K} {outer inner k : ℕ} (hlen : plan.len = extentOf shape axis)
    (hstride : plan.stride = strideOf shape axis) (hfit : shape.prod < usizeLimit)
    (houter : outer < outerOf shape axis) (hinner : inner < strideOf shape axis)
    (hk : k < extentOf shape axis) :
    plan.index outer inner k
      = some (linePlace (extentOf shape axis) (strideOf shape axis) outer inner k) := by
  have hplace := linePlace_lt houter hinner hk
  rw [← prod_shape] at hplace
  have hwhole : linePlace (extentOf shape axis) (strideOf shape axis) outer inner k
      = outer * extentOf shape axis * strideOf shape axis + inner + k * strideOf shape axis := by
    unfold linePlace
    ring
  have hblock : outer * extentOf shape axis
      ≤ outer * extentOf shape axis * strideOf shape axis :=
    Nat.le_mul_of_pos_right _ (Nat.zero_lt_of_lt hinner)
  unfold AxisPlan.index
  rw [hlen, hstride, hwhole]
  rw [hwhole] at hplace
  simp only [Option.bind_eq_bind, Option.bind_eq_some_iff, checkedMul_eq_some, checkedAdd_eq_some]
  exact ⟨_, ⟨by omega, rfl⟩, _, ⟨by omega, rfl⟩, _, ⟨by omega, rfl⟩, _, ⟨by omega, rfl⟩,
    by omega, rfl⟩

/-- A line is copied to the line buffer. -/
theorem gather_eq {plan : AxisPlan K} {outer inner : ℕ} {data values lineIn : List K}
    (hindex : ∀ k < plan.len, plan.index outer inner k
      = some (linePlace plan.len plan.stride outer inner k))
    (hvalues : HoldsLine plan.len plan.stride outer inner data values)
    (hlineIn : lineIn.length = plan.len) :
    (List.range plan.len).foldlM (plan.gatherStep data outer inner) lineIn = some values := by
  obtain ⟨result, hresult, hlength, helement⟩ := foldlM_range_inv
    (plan.gatherStep data outer inner)
    (fun done buffer => buffer.length = plan.len ∧ ∀ k < done, buffer[k]? = values[k]?)
    plan.len lineIn ⟨hlineIn, fun k hk => absurd hk (by omega)⟩ (by
      rintro k hk buffer ⟨hlength, hdone⟩
      obtain ⟨value, hvalue⟩ : ∃ value, values[k]? = some value :=
        ⟨_, List.getElem?_eq_getElem (by rw [hvalues.1]; exact hk)⟩
      have hread := (hvalues.2 k hk).trans hvalue
      refine ⟨buffer.set k value, ?_, by rw [List.length_set, hlength], ?_⟩
      · unfold AxisPlan.gatherStep
        rw [hindex k hk, Option.bind_eq_bind, Option.bind_some, hread, Option.bind_eq_bind,
          Option.bind_some, if_pos (by omega)]
        rfl
      · intro j hj
        by_cases hsame : j = k
        · subst hsame
          rw [List.getElem?_set_self (by omega), hvalue]
        · rw [List.getElem?_set_ne (Ne.symm hsame), hdone j (by omega)])
  rw [hresult]
  congr 1
  apply List.ext_getElem?
  intro k
  by_cases hk : k < plan.len
  · exact helement k hk
  · rw [List.getElem?_eq_none (by omega), List.getElem?_eq_none (by have := hvalues.1; omega)]

/-- A line is copied back. -/
theorem scatter_eq {plan : AxisPlan K} {outer inner count : ℕ} {data values : List K}
    (hindex : ∀ k < plan.len, plan.index outer inner k
      = some (linePlace plan.len plan.stride outer inner k))
    (hdata : data.length = count * (plan.len * plan.stride)) (hvalues : values.length = plan.len)
    (houter : outer < count) (hinner : inner < plan.stride) :
    ∃ result, (List.range plan.len).foldlM (plan.scatterStep values outer inner) data
        = some result ∧ result.length = data.length ∧
      (∀ k < plan.len, result[linePlace plan.len plan.stride outer inner k]? = values[k]?) ∧
      ∀ j, (∀ k < plan.len, j ≠ linePlace plan.len plan.stride outer inner k) →
        result[j]? = data[j]? := by
  obtain ⟨result, hresult, hlength, hplaces, hothers⟩ := foldlM_range_inv
    (plan.scatterStep values outer inner)
    (fun done current => current.length = data.length ∧
      (∀ k < done, k < plan.len →
        current[linePlace plan.len plan.stride outer inner k]? = values[k]?) ∧
      ∀ j, (∀ k < plan.len, j ≠ linePlace plan.len plan.stride outer inner k) →
        current[j]? = data[j]?)
    plan.len data ⟨rfl, fun k hk => absurd hk (by omega), fun _ _ => rfl⟩ (by
      rintro k hk current ⟨hlength, hdone, hothers⟩
      have hplace := linePlace_lt houter hinner hk
      rw [← hdata, ← hlength] at hplace
      have hvalue : values[k]? = some values[k] := List.getElem?_eq_getElem (by omega)
      refine ⟨current.set (linePlace plan.len plan.stride outer inner k) values[k], ?_,
        (List.length_set ..).trans hlength, ?_, ?_⟩
      · unfold AxisPlan.scatterStep
        rw [hindex k hk, Option.bind_eq_bind, Option.bind_some, hvalue, Option.bind_eq_bind,
          Option.bind_some, if_pos hplace]
        rfl
      · intro j hj hlt
        by_cases hsame : j = k
        · subst hsame
          rw [List.getElem?_set_self hplace, hvalue]
        · have hne : linePlace plan.len plan.stride outer inner k
              ≠ linePlace plan.len plan.stride outer inner j := by
            intro heq
            exact hsame (linePlace_inj hinner hinner hk hlt heq).2.2.symm
          rw [List.getElem?_set_ne hne, hdone j (by omega) hlt]
      · intro j hj
        rw [List.getElem?_set_ne (Ne.symm (hj k hk)), hothers j hj])
  exact ⟨result, hresult, hlength, fun k hk => hplaces k hk hk, hothers⟩

variable [Field K] {ω : K}

/-- What a call does to a line. -/
abbrev calledTransform (ω : K) (n : ℕ) (inverse : Bool) : List K → List K :=
  signedTransform ω n (if inverse then .inverse else .forward)

theorem runOn_transform (inverse : Bool) (s : AxisPlan K × List K) :
    (AxisPlan.transform inverse).runOn s = match AxisPlan.transformLine inverse s with
      | .error e => some (.error (.local e), s)
      | .ok s => some (.ok (), s) := rfl

theorem transform_eq {s : AxisPlan K × List K} (h : PlansAxis ω shape axis s.1)
    (inverse : Bool) :
    ∃ lineOut, (AxisPlan.transform inverse).runOn s = some (.ok (), { s.1 with lineOut }, s.2) ∧
      lineOut = calledTransform ω (extentOf shape axis) inverse s.1.lineIn := by
  have hlen : s.1.plan.lineLen = extentOf shape axis := h.exact.lineLen
  have hpos : 0 < s.1.plan.lineLen := hlen ▸ h.exact.pos
  have hsame : s.1.lineIn.length = s.1.lineOut.length := h.lineIn.trans h.lineOut.symm
  have hdvd : s.1.plan.lineLen ∣ s.1.lineIn.length := by rw [hlen, h.lineIn]
  have hone : s.1.lineIn.length = s.1.plan.lineLen := h.lineIn.trans hlen.symm
  have hline : AxisPlan.transformLine inverse s = .ok ({ s.1 with
      lineOut := calledTransform ω (extentOf shape axis) inverse s.1.lineIn }, s.2) := by
    unfold AxisPlan.transformLine
    cases inverse with
    | false =>
      refine bind_eq_ok.mpr ⟨_, ?_, rfl⟩
      rw [LocalC2cPlan.forward,
        processOutOfPlace_eq _ h.scratch hsame hdvd, process_single _ hpos hone,
        h.exact.forward _ h.lineIn]
      rfl
    | true =>
      refine bind_eq_ok.mpr ⟨_, ?_, rfl⟩
      rw [LocalC2cPlan.inverse, LocalC2cPlan.backward,
        processOutOfPlace_eq _ h.scratch hsame hdvd, process_single _ hpos hone,
        h.exact.backward _ h.lineIn]
      unfold LocalC2cPlan.normalizeInverse
      rw [hlen]
      rfl
  refine ⟨_, ?_, rfl⟩
  rw [runOn_transform, hline]

/-- The lines of the axis before number `done` are transformed. -/
def TransformedUpTo (ω : K) (shape : List ℕ) (axis : Fin shape.length) (inverse : Bool)
    (source : List K) (done : ℕ) (s : AxisPlan K × List K) : Prop :=
  PlansAxis ω shape axis s.1 ∧ LinesUpTo (calledTransform ω (extentOf shape axis) inverse)
    (extentOf shape axis) (strideOf shape axis) (outerOf shape axis) source source done s.2

/-- **One line.** -/
theorem line_succeeds {plan : AxisPlan K} (hplan : PlansAxis ω shape axis plan)
    (hfit : shape.prod < usizeLimit) (inverse : Bool) {source : List K}
    (hsource : source.length = shape.prod) {outer inner : ℕ} (houter : outer < outerOf shape axis)
    (hinner : inner < strideOf shape axis) {s : AxisPlan K × List K}
    (h : TransformedUpTo ω shape axis inverse source
      (outer * strideOf shape axis + inner) s) :
    Update.Succeeds (TransformedUpTo ω shape axis inverse source
      (outer * strideOf shape axis + inner + 1)) ((plan.line inverse outer inner).runOn s) := by
  obtain ⟨hs, hlines⟩ := h
  have hblocks : source.length
      = outerOf shape axis * (extentOf shape axis * strideOf shape axis) := by
    rw [hsource, prod_shape]
  have hindex : ∀ k < plan.len, plan.index outer inner k
      = some (linePlace plan.len plan.stride outer inner k) := by
    intro k hk
    rw [index_eq hplan.len hplan.stride hfit houter hinner (hplan.len ▸ hk), hplan.len,
      hplan.stride]
  obtain ⟨values, hvalues⟩ := exists_holdsLine hblocks houter hinner
  have hread := (readsLines_id _ _ _ source) s.2 hlines.length outer houter inner hinner
    (hlines.kept outer houter inner hinner le_rfl) values hvalues
  have hgather : (List.range plan.len).foldlM (plan.gatherStep s.2 outer inner) s.1.lineIn
      = some values := by
    apply gather_eq hindex
    · rw [hplan.len, hplan.stride]
      exact hread
    · rw [hs.lineIn, hplan.len]
  have hfirst : PlansAxis ω shape axis { s.1 with lineIn := values } :=
    { hs with lineIn := hvalues.1 }
  obtain ⟨lineOut, hline, hlineOut⟩ := transform_eq
    (s := ({ s.1 with lineIn := values }, s.2)) hfirst inverse
  have hlength : lineOut.length = extentOf shape axis := by
    rw [hlineOut, length_signedTransform]
    exact hvalues.1
  have hcurrent : s.2.length = outerOf shape axis * (plan.len * plan.stride) := by
    rw [hlines.length, hblocks, hplan.len, hplan.stride]
  obtain ⟨result, hscatter, hresult, hplaces, hothers⟩ := scatter_eq hindex hcurrent
    (hlength.trans hplan.len.symm) houter (hplan.stride ▸ hinner)
  rw [hplan.len, hplan.stride] at hplaces hothers
  rw [hlineOut] at hplaces
  have hchange : (plan.line inverse outer inner).runOn s
      = some (.ok (), { s.1 with lineIn := values, lineOut }, result) := by
    unfold AxisPlan.line
    rw [Update.runOn_bind, Update.runOn_modify, hgather]
    show ((AxisPlan.transform inverse >>= _ : Update _ _ Unit).runOn _) = _
    rw [Update.runOn_bind, hline]
    show (Update.modify _).runOn _ = _
    rw [Update.runOn_modify, hscatter]
    rfl
  exact ⟨_, hchange, { hfirst with lineOut := hlength },
    hlines.line hinner hvalues hresult hplaces hothers⟩

/-- **An axis.** -/
theorem apply_succeeds {plan : AxisPlan K} (hplan : PlansAxis ω shape axis plan)
    (hfit : shape.prod < usizeLimit) (inverse : Bool) {data : List K}
    (hdata : data.length = shape.prod) :
    Update.Succeeds (fun s => PlansAxis ω shape axis s.1 ∧ s.2.length = data.length ∧
      LinesTransformed (calledTransform ω (extentOf shape axis) inverse) (extentOf shape axis)
        (strideOf shape axis) (outerOf shape axis) data s.2)
      ((plan.apply inverse).runOn (plan, data)) := by
  have hstart : TransformedUpTo ω shape axis inverse data (0 * strideOf shape axis)
      (plan, data) := by
    refine ⟨hplan, rfl, fun _ _ _ _ hdone => ?_, fun _ _ _ _ _ _ _ => rfl⟩
    rw [Nat.zero_mul] at hdone
    exact absurd hdone (Nat.not_lt_zero _)
  have hloop := Update.succeeds_forM_range
    (f := fun outer => (List.range plan.stride).forM fun inner => plan.line inverse outer inner)
    (fun done => TransformedUpTo ω shape axis inverse data (done * strideOf shape axis))
    plan.outer hstart ?_
  · refine hloop.imp fun s hs => ?_
    rw [hplan.outer] at hs
    exact ⟨hs.1, hs.2.length, hs.2.all⟩
  · intro outer houter s hs
    have hinner := Update.succeeds_forM_range (f := fun inner => plan.line inverse outer inner)
      (fun done => TransformedUpTo ω shape axis inverse data
        (outer * strideOf shape axis + done)) plan.stride hs ?_
    · rw [hplan.stride, ← Nat.succ_mul] at hinner
      rw [hplan.stride]
      exact hinner
    · intro inner hinner s hs
      exact line_succeeds hplan hfit inverse hdata (hplan.outer ▸ houter)
        (hplan.stride ▸ hinner) hs

end Axis

/-! ## Data and arrays -/

section Arrays

variable {shape : List ℕ}

theorem exists_columnMajor (hpos : ∀ a, 0 < extentOf shape a) {j : ℕ} (hj : j < shape.prod) :
    ∃ g, (∀ a, g a < extentOf shape a) ∧ columnMajor shape g = j := by
  rw [← size_shape] at hj
  exact ⟨_, fun a => MixedRadix.digit_lt j (fun a _ => hpos a) a (List.mem_finRange a),
    MixedRadix.value_digit (List.nodup_finRange _) hj⟩

theorem columnMajor_lt {g : Fin shape.length → ℕ} (hg : ∀ a, g a < extentOf shape a) :
    columnMajor shape g < shape.prod := by
  rw [← size_shape]
  exact MixedRadix.value_lt_size fun a _ => hg a

/-- Data of the right length hold some array. -/
theorem exists_holdsArray [Zero K] {data : List K} (hdata : data.length = shape.prod) :
    HoldsArray shape data fun g => data.getD (columnMajor shape g) 0 where
  length := hdata
  element := by
    intro g hg
    have hlt : columnMajor shape g < data.length := hdata ▸ columnMajor_lt hg
    rw [List.getD_eq_getElem?_getD, List.getElem?_eq_getElem hlt, Option.getD_some]

/-- Arrays that agree are held by the same data. -/
theorem HoldsArray.unique {data data' : List K} {array array' : (Fin shape.length → ℕ) → K}
    (hpos : ∀ a, 0 < extentOf shape a) (h : HoldsArray shape data array)
    (h' : HoldsArray shape data' array')
    (hsame : ∀ g, (∀ a, g a < extentOf shape a) → array g = array' g) : data = data' := by
  apply List.ext_getElem?
  intro j
  by_cases hj : j < shape.prod
  · obtain ⟨g, hg, rfl⟩ := exists_columnMajor hpos hj
    rw [h.element g hg, h'.element g hg, hsame g hg]
  · have hlength := h.length
    have hlength' := h'.length
    rw [List.getElem?_eq_none (by omega), List.getElem?_eq_none (by omega)]

theorem HoldsArray.congr {data : List K} {array array' : (Fin shape.length → ℕ) → K}
    (h : HoldsArray shape data array)
    (hsame : ∀ g, (∀ a, g a < extentOf shape a) → array g = array' g) :
    HoldsArray shape data array' :=
  ⟨h.length, fun g hg => (h.element g hg).trans (congrArg some (hsame g hg))⟩

end Arrays

/-! ## All axes -/

section Plans

variable [Field K] {ζ : ℕ → K} {shape : List ℕ} {axes : List (Fin shape.length)}

/-- The root of an axis: the forward transform has the negative exponent. -/
abbrev axisRoot (ζ : ℕ → K) (shape : List ℕ) (axis : Fin shape.length) : K :=
  (ζ (extentOf shape axis))⁻¹

/-- A plan over `axes`, whatever its line buffers hold. -/
structure IsNdPlan (ζ : ℕ → K) (shape : List ℕ) (axes : List (Fin shape.length))
    (plan : LocalC2cNdPlan K) : Prop where
  shape_eq : plan.shape = shape
  totalLen : plan.totalLen = shape.prod
  pos : ∀ a, 0 < extentOf shape a
  fits : shape.prod < usizeLimit
  nodup : axes.Nodup
  root : ∀ a, IsPrimitiveRoot (axisRoot ζ shape a) (extentOf shape a)
  axes : List.Forall₂ (fun a => PlansAxis (axisRoot ζ shape a) shape a) axes plan.axes

theorem applyAxes_eq (hfit : shape.prod < usizeLimit) (inverse : Bool)
    {plans : List (AxisPlan K)}
    (hplans : List.Forall₂ (fun a => PlansAxis (axisRoot ζ shape a) shape a) axes plans)
    {data : List K} {array : (Fin shape.length → ℕ) → K} (h : HoldsArray shape data array) :
    ∃ plans' data', applyAxes inverse plans data = some (.ok (), plans', data') ∧
      List.Forall₂ (fun a => PlansAxis (axisRoot ζ shape a) shape a) axes plans' ∧
      HoldsArray shape data' (alongAxes (extentOf shape)
        (fun a => calledTransform (axisRoot ζ shape a) (extentOf shape a) inverse)
        axes.reverse array) := by
  induction hplans generalizing data array with
  | nil => exact ⟨[], data, rfl, .nil, h⟩
  | @cons axis plan axes plans hplan hplans ih =>
    obtain ⟨⟨plan', between⟩, hrun, hplan', hlen, hlines⟩ :=
      apply_succeeds hplan hfit inverse h.length
    have hbetween := h.alongAxis (fun values hvalues => by
      rw [length_signedTransform, hvalues]) hlen hlines
    obtain ⟨plans', data', hrest, hplans', hdata'⟩ := ih hbetween
    refine ⟨plan' :: plans', data', ?_, .cons hplan' hplans', ?_⟩
    · unfold applyAxes
      rw [hrun]
      show (applyAxes inverse plans between).bind _ = _
      rw [hrest]
      rfl
    · unfold alongAxes at hdata' ⊢
      rw [List.reverse_cons, List.foldr_append]
      exact hdata'

/-- **A call** transforms the array over the axes. -/
theorem IsNdPlan.apply {plan : LocalC2cNdPlan K} (h : IsNdPlan ζ shape axes plan)
    (inverse : Bool) {data : List K} {array : (Fin shape.length → ℕ) → K}
    (hdata : HoldsArray shape data array) :
    ∃ plan' data', plan.apply data inverse = some (.ok (), plan', data') ∧
      IsNdPlan ζ shape axes plan' ∧ HoldsArray shape data' (alongAxes (extentOf shape)
        (fun a => calledTransform (axisRoot ζ shape a) (extentOf shape a) inverse)
        axes.reverse array) := by
  obtain ⟨plans', data', hrun, hplans', hdata'⟩ := applyAxes_eq h.fits inverse h.axes hdata
  refine ⟨{ plan with axes := plans' }, data', ?_, { h with axes := hplans' }, hdata'⟩
  unfold LocalC2cNdPlan.apply
  rw [if_neg (by rw [h.totalLen, hdata.length]; exact fun hne => hne rfl), hrun]
  rfl

/-- Data of another length are left alone. -/
theorem IsNdPlan.apply_length {plan : LocalC2cNdPlan K} (h : IsNdPlan ζ shape axes plan)
    (inverse : Bool) {data : List K} (hdata : data.length ≠ shape.prod) :
    plan.apply data inverse = some (.error (.dataLength shape.prod data.length), plan, data) := by
  unfold LocalC2cNdPlan.apply
  rw [h.totalLen, if_pos hdata]

/-- The forward transforms along some axes are the transform over them. -/
theorem alongAxes_forward {axes : List (Fin shape.length)} (hnodup : axes.Nodup)
    (array : (Fin shape.length → ℕ) → K) {g : Fin shape.length → ℕ}
    (hg : ∀ a, g a < extentOf shape a) :
    alongAxes (extentOf shape)
        (fun a => calledTransform (axisRoot ζ shape a) (extentOf shape a) false) axes array g
      = multiDft (extentOf shape) (axisRoot ζ shape) axes.toFinset array g := by
  rw [← Finset.univ_inter axes.toFinset]
  apply alongAxes_dft
  · exact fun _ _ => rfl
  · exact fun a ha => absurd (Finset.mem_univ a) ha
  · exact hnodup
  · exact hg

/-- **Forward** is the transform over the axes, in whatever order they are. -/
theorem IsNdPlan.forward {plan : LocalC2cNdPlan K} (h : IsNdPlan ζ shape axes plan)
    {data : List K} {array : (Fin shape.length → ℕ) → K} (hdata : HoldsArray shape data array) :
    ∃ plan' data', plan.forward data = some (.ok (), plan', data') ∧
      IsNdPlan ζ shape axes plan' ∧ HoldsArray shape data'
        (multiDft (extentOf shape) (axisRoot ζ shape) axes.toFinset array) := by
  obtain ⟨plan', data', hrun, hplan', hdata'⟩ := h.apply false hdata
  refine ⟨plan', data', hrun, hplan', hdata'.congr fun g hg => ?_⟩
  rw [alongAxes_forward (List.nodup_reverse.mpr h.nodup) array hg, List.toFinset_reverse]

/-- **Inverse after forward** gives the data back. -/
theorem IsNdPlan.roundTrip {plan : LocalC2cNdPlan K} (h : IsNdPlan ζ shape axes plan)
    {data : List K} (hdata : data.length = shape.prod) :
    ∃ plan' data' plan'', plan.forward data = some (.ok (), plan', data') ∧
      plan'.inverse data' = some (.ok (), plan'', data) := by
  have hholds := exists_holdsArray hdata
  obtain ⟨plan', data', hforward, hplan', hdata'⟩ := h.forward hholds
  obtain ⟨plan'', data'', hinverse, hplan'', hdata''⟩ := hplan'.apply true hdata'
  refine ⟨plan', data', plan'', hforward, ?_⟩
  have hback : data'' = data := by
    apply hdata''.unique h.pos hholds
    intro g hg
    have hreverse : alongAxes (extentOf shape)
        (fun a => calledTransform (axisRoot ζ shape a) (extentOf shape a) true) axes.reverse
        (alongAxes (extentOf shape)
          (fun a => calledTransform (axisRoot ζ shape a) (extentOf shape a) false) axes
          fun g => data.getD (columnMajor shape g) 0) g
        = (axes.map fun _ => (1 : K)).prod * data.getD (columnMajor shape g) 0 := by
      apply alongAxes_reverse
      · intro a values hvalues
        rw [length_signedTransform, hvalues]
      · exact fun a values => signedTransform_roundTrip (h.pos a) (h.root a) (by decide)
      · exact fun a => homogeneous_signedTransform _ _ _
      · exact hg
    rw [alongAxes_congr axes.reverse (fun g hg => (alongAxes_forward h.nodup _ hg).symm) hg,
      hreverse, List.map_const', List.prod_replicate, one_pow, one_mul]
  rw [← hback]
  exact hinverse

/-! ## Planning -/

theorem isAddressable_mono {length length' elementSize : ℕ} (hle : length ≤ length')
    (h : isAddressable length' elementSize = true) : isAddressable length elementSize = true := by
  unfold isAddressable at h ⊢
  have hmul : length * elementSize ≤ length' * elementSize := Nat.mul_le_mul_right _ hle
  cases hbytes : checkedMul length' elementSize with
  | none =>
    rw [hbytes] at h
    cases h
  | some bytes =>
    rw [hbytes] at h
    obtain ⟨hlt, rfl⟩ := checkedMul_eq_some.mp hbytes
    have hsmall := of_decide_eq_true h
    rw [checkedMul_eq_some.mpr ⟨hmul.trans_lt hlt, rfl⟩]
    exact decide_eq_true (hmul.trans_lt hsmall)

theorem validateShape_ok {complexSize total : ℕ}
    (h : validateShape complexSize shape = .ok total) :
    total = shape.prod ∧ shape.prod < usizeLimit ∧ (∀ a, 0 < extentOf shape a) ∧
      isAddressable shape.prod complexSize = true := by
  obtain ⟨_, hshape, h⟩ := bind_eq_ok.mp h
  obtain ⟨_, htotal, h⟩ := bind_eq_ok.mp h
  obtain ⟨_, haddressable, h⟩ := bind_eq_ok.mp h
  obtain rfl := Except.ok.inj h
  have hshape := ensure_eq_ok.mp hshape
  simp only [Bool.and_eq_true, Bool.not_eq_true', List.contains_eq_mem, decide_eq_false_iff_not]
    at hshape
  have hpos : ∀ a, 0 < extentOf shape a := fun a =>
    Nat.pos_of_ne_zero fun hzero => hshape.2 (hzero ▸ List.get_mem shape a)
  obtain ⟨htotal, hlt⟩ := (foldlM_checkedMul_eq_some (by decide)).mp (okOr_eq_ok.mp htotal)
  rw [Nat.one_mul] at htotal hlt
  rw [leadingProd_of_pos fun d hd hzero => hshape.2 (hzero ▸ hd)] at hlt
  exact ⟨htotal, hlt, hpos, htotal ▸ ensure_eq_ok.mp haddressable⟩

theorem strideOf_pos (hpos : ∀ a, 0 < extentOf shape a) (axis : Fin shape.length) :
    0 < strideOf shape axis :=
  MixedRadix.size_pos fun a _ => hpos a

/-- The plan of an axis is found. -/
theorem planAxis_ok {libraries : FftLibraries K} (hexact : ExactLibraries ζ libraries)
    {complexSize : ℕ} (hpos : ∀ a, 0 < extentOf shape a) (hfit : shape.prod < usizeLimit)
    (haddressable : isAddressable shape.prod complexSize = true) (axis : Fin shape.length) :
    ∃ plan, planAxis libraries complexSize shape shape.prod axis = .ok plan ∧
      PlansAxis (axisRoot ζ shape axis) shape axis plan := by
  have hprod := prod_shape axis
  have hstride := strideOf_pos hpos axis
  have houter : 0 < outerOf shape axis := MixedRadix.size_pos fun a _ => hpos a
  have hextent : extentOf shape axis ≤ shape.prod := by
    rw [hprod]
    calc extentOf shape axis ≤ extentOf shape axis * strideOf shape axis :=
          Nat.le_mul_of_pos_right _ hstride
      _ ≤ outerOf shape axis * (extentOf shape axis * strideOf shape axis) :=
          Nat.le_mul_of_pos_left _ houter
  have hstrideLe : strideOf shape axis ≤ shape.prod := by
    rw [hprod, ← Nat.mul_assoc]
    exact Nat.le_mul_of_pos_left _ (Nat.mul_pos houter (hpos axis))
  have hget : shape[(axis : ℕ)]? = some (extentOf shape axis) :=
    List.getElem?_eq_getElem axis.isLt
  have hproduct : (shape.take axis).foldlM checkedMul 1 = some (strideOf shape axis) := by
    rw [foldlM_checkedMul_eq_some (by decide), Nat.one_mul, Nat.one_mul, strideOf_eq]
    refine ⟨rfl, ?_⟩
    rw [leadingProd_of_pos fun d hd => ?_, ← strideOf_eq]
    · exact hstrideLe.trans_lt hfit
    · obtain ⟨i, hi, rfl⟩ := List.getElem_of_mem (List.mem_of_mem_take hd)
      exact (hpos ⟨i, hi⟩).ne'
  have hcount : shape.prod / extentOf shape axis / strideOf shape axis = outerOf shape axis := by
    rw [Nat.div_div_eq_div_mul, hprod]
    exact Nat.mul_div_cancel _ (Nat.mul_pos (hpos axis) hstride)
  have hvalid : validateLineLen complexSize (extentOf shape axis) = .ok () := by
    refine bind_eq_ok.mpr ⟨(), ensure_eq_ok.mpr (decide_eq_true (hpos axis).ne'), ?_⟩
    exact ensure_eq_ok.mpr (isAddressable_mono hextent haddressable)
  have hline : LocalC2cPlan.newWithSign libraries complexSize (extentOf shape axis) false
      = .ok (LocalC2cPlan.fromPlans (extentOf shape axis) false
        (libraries.rustFft (extentOf shape axis) .forward)
        (libraries.rustFft (extentOf shape axis) .inverse)) :=
    bind_eq_ok.mpr ⟨(), hvalid, rfl⟩
  refine ⟨_, bind_eq_ok.mpr ⟨_, okOr_eq_ok.mpr hget, bind_eq_ok.mpr ⟨_, okOr_eq_ok.mpr hproduct,
    bind_eq_ok.mpr ⟨_, mapError_eq_ok.mpr hline, rfl⟩⟩⟩, rfl, rfl, hcount, ?_,
    List.length_replicate, List.length_replicate, le_rfl⟩
  exact isExactPlan_fromPlans (hpos axis) (hexact.rustFft _ .forward) (hexact.rustFft _ .inverse)
    .forward

theorem checkDuplicates_ok {axes : List ℕ} (hnodup : axes.Nodup) :
    checkDuplicates axes = .ok () := by
  apply forM_eq_ok
  rintro ⟨axis, i⟩ hmem
  obtain ⟨hi, haxis⟩ := List.getElem?_eq_some_iff.mp (List.mem_zipIdx_iff_getElem?.mp hmem)
  apply ensure_eq_ok.mpr
  simp only [Bool.not_eq_true', List.contains_eq_mem, decide_eq_false_iff_not]
  intro hbefore
  obtain ⟨j, hj, heq⟩ := List.getElem_of_mem hbefore
  rw [List.getElem_take] at heq
  rw [List.length_take] at hj
  have hsame := (List.Nodup.getElem_inj_iff hnodup).mp (heq.trans haxis.symm)
  simp only at hsame
  omega

/-- **Planning** over distinct axes of an acceptable shape succeeds. -/
theorem newColMajor_ok {libraries : FftLibraries K} (hexact : ExactLibraries ζ libraries)
    {complexSize total : ℕ} (hshape : validateShape complexSize shape = .ok total)
    (hnodup : axes.Nodup) :
    ∃ plan, newColMajor libraries complexSize shape (axes.map Fin.val) = .ok plan ∧
      IsNdPlan ζ shape axes plan := by
  obtain ⟨rfl, hfit, hpos, haddressable⟩ := validateShape_ok hshape
  have hrange : (axes.map Fin.val).forM (fun axis =>
      ensure (axis < shape.length) (Stop.error (LocalC2cNdError.axisOutOfRange axis shape.length)))
      = .ok () := by
    apply forM_eq_ok
    intro axis haxis
    obtain ⟨a, _, rfl⟩ := List.mem_map.mp haxis
    exact ensure_eq_ok.mpr (decide_eq_true a.isLt)
  have hduplicates : checkDuplicates (axes.map Fin.val) = .ok () :=
    checkDuplicates_ok (hnodup.map Fin.val_injective)
  obtain ⟨plans, hplans, hall⟩ := mapM_forall₂ (l := axes)
    (f := fun a : Fin shape.length => planAxis libraries complexSize shape shape.prod (a : ℕ))
    fun a _ => planAxis_ok hexact hpos hfit haddressable a
  refine ⟨_, bind_eq_ok.mpr ⟨_, mapError_eq_ok.mpr hshape, bind_eq_ok.mpr ⟨(), hrange,
    bind_eq_ok.mpr ⟨(), mapError_eq_ok.mpr hduplicates, bind_eq_ok.mpr ⟨plans, ?_, rfl⟩⟩⟩⟩,
    rfl, rfl, hpos, hfit, hnodup, fun a => (hexact.root _ (hpos a)).inv, hall⟩
  rw [List.mapM_map]
  exact hplans

/-! ## What a plan does -/

/-- A plan that calls leave, right or wrong, from the plan that was made. -/
inductive CalledFrom (plan : LocalC2cNdPlan K) : LocalC2cNdPlan K → Prop where
  | new : CalledFrom plan plan
  | call {between after : LocalC2cNdPlan K} {data data' : List K} {inverse : Bool}
      {result : Except LocalC2cNdError Unit} (before : CalledFrom plan between)
      (run : between.apply data inverse = some (result, after, data')) : CalledFrom plan after

/-- Every element is gathered and scattered by one round of the loops over the lines. -/
def CoversOnce (total : ℕ) (plan : AxisPlan K) : Prop :=
  (∀ outer < plan.outer, ∀ inner < plan.stride, ∀ k < plan.len,
    ∃ j < total, plan.index outer inner k = some j) ∧
  ∀ j < total, ∃! round : ℕ × ℕ × ℕ, round.1 < plan.outer ∧ round.2.1 < plan.stride ∧
    round.2.2 < plan.len ∧ plan.index round.1 round.2.1 round.2.2 = some j

/-- What a plan over `axes` does. -/
structure TransformsNd (ζ : ℕ → K) (shape : List ℕ) (axes : List (Fin shape.length))
    (plan : LocalC2cNdPlan K) : Prop where
  /-- Forward is the transform over the axes, as a set. -/
  forward : ∀ data array, HoldsArray shape data array → ∃ plan' data',
    plan.forward data = some (.ok (), plan', data') ∧ HoldsArray shape data'
      (multiDft (extentOf shape) (axisRoot ζ shape) axes.toFinset array)
  roundTrip : ∀ data : List K, data.length = shape.prod → ∃ plan' data' plan'',
    plan.forward data = some (.ok (), plan', data') ∧
      plan'.inverse data' = some (.ok (), plan'', data)
  /-- Data of another length are not touched. -/
  wrongLength : ∀ (data : List K) inverse, data.length ≠ shape.prod → plan.apply data inverse
    = some (.error (.dataLength shape.prod data.length), plan, data)
  lines : plan.axes.length = axes.length ∧ ∀ axisPlan ∈ plan.axes, CoversOnce shape.prod axisPlan

theorem PlansAxis.coversOnce {ω : K} {axis : Fin shape.length} {plan : AxisPlan K}
    (h : PlansAxis ω shape axis plan) (hfit : shape.prod < usizeLimit) :
    CoversOnce shape.prod plan := by
  have hindex : ∀ outer < plan.outer, ∀ inner < plan.stride, ∀ k < plan.len,
      plan.index outer inner k = some (linePlace plan.len plan.stride outer inner k) := by
    intro outer houter inner hinner k hk
    rw [index_eq h.len h.stride hfit (h.outer ▸ houter) (h.stride ▸ hinner) (h.len ▸ hk), h.len,
      h.stride]
  have hprod : shape.prod = plan.outer * (plan.len * plan.stride) := by
    rw [h.outer, h.len, h.stride, prod_shape]
  constructor
  · intro outer houter inner hinner k hk
    refine ⟨_, ?_, hindex outer houter inner hinner k hk⟩
    rw [hprod]
    exact linePlace_lt houter hinner hk
  · intro j hj
    rw [hprod] at hj
    obtain ⟨outer, houter, inner, hinner, k, hk, rfl⟩ := exists_linePlace hj
    refine ⟨(outer, inner, k), ⟨houter, hinner, hk, hindex outer houter inner hinner k hk⟩, ?_⟩
    rintro ⟨outer', inner', k'⟩ ⟨houter', hinner', hk', hround⟩
    rw [hindex outer' houter' inner' hinner' k' hk'] at hround
    obtain ⟨rfl, rfl, rfl⟩ := linePlace_inj hinner' hinner hk' hk (Option.some.inj hround)
    rfl

theorem IsNdPlan.transformsNd {plan : LocalC2cNdPlan K} (h : IsNdPlan ζ shape axes plan) :
    TransformsNd ζ shape axes plan where
  forward := by
    intro data array hdata
    obtain ⟨plan', data', hrun, _, hdata'⟩ := h.forward hdata
    exact ⟨plan', data', hrun, hdata'⟩
  roundTrip := fun _ => h.roundTrip
  wrongLength := fun _ inverse => h.apply_length inverse
  lines := by
    refine ⟨h.axes.length_eq.symm, fun axisPlan hmem => ?_⟩
    obtain ⟨i, hi, rfl⟩ := List.getElem_of_mem hmem
    exact (h.axes.get (h.axes.length_eq ▸ hi) hi).coversOnce h.fits

theorem CalledFrom.isNdPlan {plan plan' : LocalC2cNdPlan K} (h : CalledFrom plan plan')
    (hplan : IsNdPlan ζ shape axes plan) : IsNdPlan ζ shape axes plan' := by
  induction h with
  | new => exact hplan
  | @call between after data data' inverse result _ hrun ih =>
    by_cases hdata : data.length = shape.prod
    · obtain ⟨after', data'', hcall, hafter, _⟩ := ih.apply inverse (exists_holdsArray hdata)
      obtain ⟨_, hsame⟩ := Prod.mk.inj (Option.some.inj (hcall.symm.trans hrun))
      obtain ⟨rfl, _⟩ := Prod.mk.inj hsame
      exact hafter
    · have hcall := ih.apply_length inverse hdata
      obtain ⟨_, hsame⟩ := Prod.mk.inj (Option.some.inj (hcall.symm.trans hrun))
      obtain ⟨rfl, _⟩ := Prod.mk.inj hsame
      exact ih

/-- **Local transforms over several axes.**  A plan over distinct axes of an acceptable shape is
made, and whatever calls came before, it transforms an array over exactly these axes, gives it back
with the inverse, visits every line once and leaves data of another length alone. -/
theorem local_nd_c2c_transforms {libraries : FftLibraries K}
    (hexact : ExactLibraries ζ libraries) {complexSize total : ℕ} {shape : List ℕ}
    (hshape : validateShape complexSize shape = .ok total) {axes : List (Fin shape.length)}
    (hnodup : axes.Nodup) :
    ∃ plan, newColMajor libraries complexSize shape (axes.map Fin.val) = .ok plan ∧
      ∀ plan', CalledFrom plan plan' → TransformsNd ζ shape axes plan' := by
  obtain ⟨plan, hnew, hplan⟩ := newColMajor_ok hexact hshape hnodup
  exact ⟨plan, hnew, fun plan' hcalls => (hcalls.isNdPlan hplan).transformsNd⟩

end Plans

/-- Three columns of two complex numbers, over both axes. -/
theorem local_nd_c2c_transforms_two_by_three :
    ∃ plan, newColMajor definingLibraries 16 [2, 3] [1, 0] = .ok plan ∧
      ∀ plan', CalledFrom plan plan' → TransformsNd unitRoot [2, 3] [1, 0] plan' :=
  local_nd_c2c_transforms exactLibraries_defining
    (rfl : validateShape 16 [2, 3] = .ok 6) (by decide : ([1, 0] : List (Fin 2)).Nodup)

end PencilRs.Analysis
