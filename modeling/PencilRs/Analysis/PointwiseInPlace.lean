import PencilRs.Analysis.Distribution
import PencilRs.Analysis.Pointwise
import PencilRs.Model.PointwiseInPlace

/-!
# Pointwise operations in place

At every position the cell read is the one about to be written, and nothing from this position
on has changed yet.  An in-place call therefore hands its callback what the output held when the
call began, and leaves what the call into an output of its own writes.
-/

set_option autoImplicit false

namespace PencilRs.Analysis

open PencilRs.Computation PencilRs.Model Update

variable {N M : ℕ} {α β δ υ σ γ γ' ε ε' : Type}

/-! ## Reading the output -/

theorem clip_self {dims e : List ℕ} (h : ValidIndices dims e) : clip dims e = e := by
  induction dims generalizing e with
  | nil =>
    have hnil : e = [] := List.length_eq_zero_iff.mp h.1
    rw [hnil]
    rfl
  | cons extent dims ih =>
    cases e with
    | nil => exact absurd h.1 (by simp)
    | cons index e =>
      obtain ⟨hindex, hrest⟩ := validIndices_cons.mp h
      show (if extent = 1 then 0 else index) :: clip dims e = index :: e
      rw [ih hrest]
      congr 1
      by_cases hone : extent = 1
      · rw [if_pos hone]
        omega
      · rw [if_neg hone]

theorem elementAt_eq {cells : List α} {n len k : ℕ} (h : n * len + k < usizeLimit) :
    elementAt cells n len k = cells[n * len + k]? := by
  unfold elementAt
  rw [checkedMul_eq_some.mpr ⟨by omega, rfl⟩]
  simp only [Option.bind_eq_bind, Option.bind_some]
  rw [checkedAdd_eq_some.mpr ⟨h, rfl⟩]
  rfl

section Output

variable {left : PencilArrayView α N M} {n k : ℕ}

theorem output_position_lt (hn : n < left.extraShape.elementCount) (hk : k < left.pencil.localLen) :
    n * left.pencil.localLen + k < usizeLimit := by
  have hrow : (n + 1) * left.pencil.localLen
      ≤ left.extraShape.elementCount * left.pencil.localLen := Nat.mul_le_mul_right _ hn
  have hfits := view_fits left
  rw [Nat.succ_mul] at hrow
  omega

theorem output_row (hn : n < left.extraShape.elementCount) :
    rowMajorValue left.extraShape.dimensions
      (clip left.extraShape.dimensions (indicesOf left.extraShape.dimensions n)) = n := by
  rw [elementCount_eq] at hn
  rw [clip_self (validIndices_indicesOf hn), rowMajorValue_indicesOf hn]

/-- A cell that has not changed holds what the output presents as an input. -/
theorem unread_eq_presented (hn : n < left.extraShape.elementCount)
    (hk : k < left.pencil.localLen) {cells : List α}
    (h : ∀ i, n * left.pencil.localLen + k ≤ i → cells[i]? = left.storage[i]?) :
    cells[n * left.pencil.localLen + k]? = presented left left.pencil left.extraShape n k := by
  rw [h _ le_rfl]
  unfold presented
  rw [output_row hn, elementAt_eq (output_position_lt hn hk)]

end Output

/-! ## Outcomes -/

theorem WritesOutput.unique {p : Pencil N M} {outShape : ExtraShape}
    {element : List ℕ → (Fin N → ℕ) → Option γ} {f : PointwiseCallback σ γ υ} {state : σ}
    {result result' : Option (Buf υ × σ)} (h : WritesOutput p outShape element f state result)
    (h' : WritesOutput p outShape element f state result') : result = result' := by
  obtain ⟨visited, os, hresult, hpresents, hcells, hlog, hstate⟩ := h
  obtain ⟨visited', os', hresult', hpresents', hcells', hlog', hstate'⟩ := h'
  have hvisited := hpresents.unique hpresents'
  have hcellsEq : os.1.cells = os'.1.cells := by rw [hcells, hcells', hvisited]
  have hlogEq : os.1.log = os'.1.log := by rw [hlog, hlog', hcellsEq]
  have hstateEq : os.2 = os'.2 := by rw [hstate, hstate', hvisited]
  have hbuf : os.1 = os'.1 := by
    cases hfirst : os.1
    cases hsecond : os'.1
    rw [hfirst, hsecond] at hcellsEq hlogEq
    simp only at hcellsEq hlogEq
    rw [hcellsEq, hlogEq]
  rw [hresult, hresult', Prod.ext hbuf hstateEq]

theorem callAll_map (g : γ → γ') {f : PointwiseCallback σ γ υ} {h : PointwiseCallback σ γ' υ}
    (hcallback : ∀ s args, h s (g args) = f s args) (state : σ) (args : List γ) :
    callAll h state (args.map g) = callAll f state args := by
  induction args using List.reverseRecOn with
  | nil => rfl
  | append_singleton args arg ih =>
    rw [List.map_append, List.map_singleton, callAll_snoc, callAll_snoc, ih, hcallback]

/-- A callback that gets its arguments in another form writes the same. -/
theorem WritesOutput.map {p : Pencil N M} {outShape : ExtraShape}
    {element : List ℕ → (Fin N → ℕ) → Option γ} {f : PointwiseCallback σ γ υ} {state : σ}
    {result : Option (Buf υ × σ)} (hwrites : WritesOutput p outShape element f state result)
    (g : γ → γ') {h : PointwiseCallback σ γ' υ}
    (hcallback : ∀ s args, h s (g args) = f s args) :
    WritesOutput p outShape (fun e x => (element e x).map g) h state result := by
  obtain ⟨visited, os, hresult, hpresents, hcells, hlog, hstate⟩ := hwrites
  refine ⟨visited.map g, os, hresult, hpresents.map g, ?_, hlog, ?_⟩
  · rw [callAll_map g hcallback, hcells]
  · rw [callAll_map g hcallback, hstate]

/-- What is left where every position is written. -/
def Leaves (left : PencilArrayView α N M) (element : List ℕ → (Fin N → ℕ) → Option γ)
    (f : PointwiseCallback σ γ α) (state : σ) (os : Buf α × σ) : Prop :=
  WritesOutput left.pencil left.extraShape element f state (some os)

section Loop

variable {left : PencilArrayView α N M} {element : List ℕ → (Fin N → ℕ) → Option γ}
  {f : PointwiseCallback σ γ α} {state : σ} {loop : Buf α × σ → Option (Buf α × σ)}

theorem succeeds_loop
    (h : WritesOutput left.pencil left.extraShape element f state
      (loop (.fresh left.storage, state))) :
    Succeeds (Leaves left element f state)
      ((Update.modify loop : Update ε (Buf α × σ) Unit).runOn (.fresh left.storage, state)) := by
  obtain ⟨visited, os, hrun, hwritten⟩ := h
  exact succeeds_modify hrun ⟨visited, os, rfl, hwritten⟩

/-- A loop skipped where there is nothing to write. -/
theorem succeeds_loop_unless {plan : OutputPlan}
    (hplan : PlansOutput plan left.pencil left.extraShape)
    (h : WritesOutput left.pencil left.extraShape element f state
      (loop (.fresh left.storage, state))) :
    Succeeds (Leaves left element f state)
      ((if plan.spatial = 0 then pure () else Update.modify loop :
        Update ε (Buf α × σ) Unit).runOn (.fresh left.storage, state)) := by
  by_cases hzero : plan.spatial = 0
  · rw [if_pos hzero]
    apply succeeds_pure
    apply writesOutput_nil hplan.fits (view_storage_length left)
    rw [← hplan.spatial, hzero, Nat.mul_zero]
  · rw [if_neg hzero]
    exact succeeds_loop h

end Loop

/-- The input has the layout of the output and broadcasts to it. -/
def Compatible (left : PencilArrayView α N M) (right : PencilArrayView β N M) : Prop :=
  right.pencil = left.pencil ∧
    Broadcasts right.extraShape.dimensions left.extraShape.dimensions

theorem PlansInput.compatible {left : PencilArrayView α N M} {right : PencilArrayView β N M}
    {mapping : List ℕ × List ℕ} (h : PlansInput right left.pencil left.extraShape mapping) :
    Compatible left right :=
  ⟨h.pencil, h.broadcasts⟩

/-- An in-place call beside the calls that write an output of the same shape, from an output
`left` whose contents they take as an input.  The in-place call ends with an error and leaves the
output and the callback's state as they are, or it computes every position once, in order, from
`element`.  Both are accepted, if the allocator grants what they reserve, just where the inputs
are compatible, and then the output is left with the same values. -/
structure EqualsOutOfPlace (left : PencilArrayView α N M) (compatible : Prop)
    (element : List ℕ → (Fin N → ℕ) → Option γ) (f : PointwiseCallback σ γ α) (state : σ)
    (inPlace : (ℕ → ℕ → Bool) → Update ε (Buf α × σ) Unit)
    (outOfPlace : (ℕ → ℕ → Bool) → PencilArrayView α N M → Except ε' (Option (Buf α × σ))) :
    Prop where
  settles : ∀ grants, Settles (.fresh left.storage, state) (Leaves left element f state)
    ((inPlace grants).runOn (.fresh left.storage, state))
  accepted : Succeeds (fun _ => True)
    ((inPlace fun _ => grantAll).runOn (.fresh left.storage, state)) ↔ compatible
  outAccepted : ∀ output : PencilArrayView α N M, output.pencil = left.pencil →
    output.extraShape = left.extraShape →
    ((∃ out, outOfPlace (fun _ => grantAll) output = .ok out) ↔ compatible)
  equal : ∀ (grants grants' : ℕ → ℕ → Bool) (output : PencilArrayView α N M) (os : Buf α × σ)
    (out : Option (Buf α × σ)), output.pencil = left.pencil →
    output.extraShape = left.extraShape →
    (inPlace grants).runOn (.fresh left.storage, state) = some (.ok (), os) →
    outOfPlace grants' output = .ok out → out = some os

/-! ## Two inputs -/

section Two

variable {left : PencilArrayView α N M} {right : PencilArrayView β N M}

/-- What the callback gets at a position: what the output held there and the right input. -/
def pairAt (left : PencilArrayView α N M) (right : PencilArrayView β N M) (e : List ℕ)
    (x : Fin N → ℕ) : Option (α × β) := do
  let l ← clippedElement left e x
  let r ← clippedElement right e x
  return (l, r)

theorem pointwise2InPlace_loop {plan : OutputPlan} {lm rm : List ℕ × List ℕ}
    (hplan : PlansOutput plan left.pencil left.extraShape)
    (hl : PlansInput left left.pencil left.extraShape lm)
    (hr : PlansInput right left.pencil left.extraShape rm)
    (f : PointwiseCallback σ (α × β) α) (state : σ) :
    WritesOutput left.pencil left.extraShape (pairAt left right) f state
      ((List.range plan.extraCount).foldlM (fun os n => do
        let li ← broadcastLinear n plan.dims lm.1 lm.2 plan.strides
        let ri ← broadcastLinear n plan.dims rm.1 rm.2 plan.strides
        (List.range plan.spatial).foldlM (fun os k => do
          let i ← plan.position n k
          let l ← elementAt os.1.cells li plan.spatial k
          let r ← elementAt right.storage ri plan.spatial k
          callInto f os i (l, r)) os) (.fresh left.storage, state)) := by
  rw [hplan.extraCount]
  refine foldlM_writesOutput hplan.fits (fun n k => do
    let l ← presented left left.pencil left.extraShape n k
    let r ← presented right left.pencil left.extraShape n k
    return (l, r)) (fun e x hvalid =>
      presented_pair hl.pencil hr.pencil hl.broadcasts hr.broadcasts hvalid) f state
      (view_storage_length left)
    (fun n os k => do
      let i ← plan.position n k
      let l ← elementAt os.1.cells n left.pencil.localLen k
      let r ← presented right left.pencil left.extraShape n k
      callInto f os i (l, r)) ?_ ?_
  · intro n hn os
    rw [hl.linear hplan hn, hr.linear hplan hn, hplan.spatial, output_row hn]
    rfl
  · intro n hn k hk os hunread
    rw [hplan.position hn hk, elementAt_eq (output_position_lt hn hk),
      unread_eq_presented hn hk hunread]
    simp only [Option.bind_eq_bind, Option.bind_some, Option.bind_assoc, Option.pure_def]

theorem validateTwoInputs_self (h : Compatible left right) :
    validateTwoInputs left right left.pencil left.extraShape.dimensions = .ok () := by
  unfold validateTwoInputs
  rw [h.1, Pencil.sameLayout_self]
  exact bind_eq_ok.mpr ⟨_, rfl, bind_eq_ok.mpr ⟨_, validateExtents_ok.mpr (Broadcasts.refl _),
    validateExtents_ok.mpr h.2⟩⟩

theorem pointwise2InPlaceViews_settles (grants : ℕ → ℕ → Bool)
    (f : PointwiseCallback σ (α × β) α) (state : σ) :
    Settles (.fresh left.storage, state)
      (fun os => Compatible left right ∧ Leaves left (pairAt left right) f state os)
      ((pointwise2InPlaceViews grants left right f).runOn (.fresh left.storage, state)) := by
  unfold pointwise2InPlaceViews
  apply settles_checked_bind
  intro _ _
  apply settles_checked_bind
  rintro ⟨plan, lm⟩ hnew
  apply settles_checked_bind
  intro rm hinput
  obtain ⟨hplan, hl⟩ := outputPlan_new_ok hnew
  have hr := outputPlan_input_ok hplan hinput
  have hloop := pointwise2InPlace_loop hplan hl hr f state
  exact Or.inr ((succeeds_loop_unless hplan hloop).imp fun _ h => ⟨hr.compatible, h⟩)

theorem pointwise2InPlaceViews_succeeds (h : Compatible left right)
    (f : PointwiseCallback σ (α × β) α) (state : σ) :
    Succeeds (fun _ => True) ((pointwise2InPlaceViews (fun _ => grantAll) left right f).runOn
      (.fresh left.storage, state)) := by
  obtain ⟨plan, lm, hnew⟩ := outputPlan_new_exists (view_fits left) rfl (Broadcasts.refl _)
  obtain ⟨hplan, hl⟩ := outputPlan_new_ok hnew
  obtain ⟨rm, hinput⟩ := outputPlan_input_exists hplan h.1 h.2
  have hr := outputPlan_input_ok hplan hinput
  unfold pointwise2InPlaceViews
  rw [runOn_checked_bind_ok (validateTwoInputs_self h), runOn_checked_bind_ok hnew,
    runOn_checked_bind_ok hinput]
  exact (succeeds_loop_unless hplan (pointwise2InPlace_loop hplan hl hr f state)).imp
    fun _ _ => trivial

theorem pointwise2Views_accepted (output : PencilArrayView α N M)
    (hpencil : output.pencil = left.pencil) (hshape : output.extraShape = left.extraShape)
    (f : PointwiseCallback σ (α × β) α) (state : σ) :
    (∃ out, pointwise2Views (fun _ => grantAll) left right output f state = .ok out) ↔
      Compatible left right := by
  unfold pointwise2Views
  rw [hpencil, hshape]
  constructor
  · rintro ⟨out, h⟩
    obtain ⟨_, _, h⟩ := bind_eq_ok.mp h
    obtain ⟨⟨plan, lm⟩, hnew, h⟩ := bind_eq_ok.mp h
    obtain ⟨rm, hinput, h⟩ := bind_eq_ok.mp h
    exact (outputPlan_input_ok (outputPlan_new_ok hnew).1 hinput).compatible
  · intro h
    obtain ⟨plan, lm, hnew⟩ := outputPlan_new_exists (view_fits left) rfl (Broadcasts.refl _)
    obtain ⟨rm, hinput⟩ := outputPlan_input_exists (outputPlan_new_ok hnew).1 h.1 h.2
    rw [validateTwoInputs_self h, hnew]
    show ∃ out, (plan.input grantAll left.pencil right >>= _) = _
    rw [hinput]
    by_cases hzero : plan.spatial = 0
    · exact ⟨_, if_pos hzero⟩
    · exact ⟨_, if_neg hzero⟩

theorem pointwise2_equalsOutOfPlace (left : PencilArrayView α N M) (right : PencilArrayView β N M)
    (f : PointwiseCallback σ (α × β) α) (state : σ) :
    EqualsOutOfPlace left (Compatible left right) (pairAt left right) f state
      (fun grants => pointwise2InPlaceViews grants left right f)
      (fun grants output => pointwise2Views grants left right output f state) where
  settles grants := (pointwise2InPlaceViews_settles grants f state).imp fun _ h => h.2
  accepted := by
    constructor
    · rintro ⟨os, hrun, _⟩
      exact ((pointwise2InPlaceViews_settles _ f state).good_of_ok hrun).1
    · intro h
      exact pointwise2InPlaceViews_succeeds h f state
  outAccepted output hpencil hshape := pointwise2Views_accepted output hpencil hshape f state
  equal grants grants' output os out hpencil hshape hrun hout := by
    have hin := ((pointwise2InPlaceViews_settles grants f state).good_of_ok hrun).2
    have hwrites := pointwise2Views_writesOutput hout
    rw [hpencil, hshape] at hwrites
    exact hwrites.unique hin

end Two

/-! ## Three inputs -/

section Three

variable {left : PencilArrayView α N M} {b : PencilArrayView β N M} {c : PencilArrayView δ N M}

def tripleAt (left : PencilArrayView α N M) (b : PencilArrayView β N M)
    (c : PencilArrayView δ N M) (e : List ℕ) (x : Fin N → ℕ) : Option (α × β × δ) := do
  let l ← clippedElement left e x
  let m ← clippedElement b e x
  let r ← clippedElement c e x
  return (l, m, r)

theorem pointwise3InPlace_loop {plan : OutputPlan} {bm cm : List ℕ × List ℕ}
    (hplan : PlansOutput plan left.pencil left.extraShape)
    (hb : PlansInput b left.pencil left.extraShape bm)
    (hc : PlansInput c left.pencil left.extraShape cm)
    (f : PointwiseCallback σ (α × β × δ) α) (state : σ) :
    WritesOutput left.pencil left.extraShape (tripleAt left b c) f state
      ((List.range plan.extraCount).foldlM (fun os n => do
        let bi ← broadcastLinear n plan.dims bm.1 bm.2 plan.strides
        let ci ← broadcastLinear n plan.dims cm.1 cm.2 plan.strides
        (List.range plan.spatial).foldlM (fun os k => do
          let i ← plan.position n k
          let x ← os.1.cells[i]?
          let y ← elementAt b.storage bi plan.spatial k
          let z ← elementAt c.storage ci plan.spatial k
          callInto f os i (x, y, z)) os) (.fresh left.storage, state)) := by
  rw [hplan.extraCount]
  refine foldlM_writesOutput hplan.fits (fun n k => do
    let l ← presented left left.pencil left.extraShape n k
    let m ← presented b left.pencil left.extraShape n k
    let r ← presented c left.pencil left.extraShape n k
    return (l, m, r)) (fun e x hvalid => presented_triple rfl hb.pencil hc.pencil
      (Broadcasts.refl _) hb.broadcasts hc.broadcasts hvalid) f state (view_storage_length left)
    (fun n os k => do
      let i ← plan.position n k
      let x ← os.1.cells[i]?
      let y ← presented b left.pencil left.extraShape n k
      let z ← presented c left.pencil left.extraShape n k
      callInto f os i (x, y, z)) ?_ ?_
  · intro n hn os
    rw [hb.linear hplan hn, hc.linear hplan hn, hplan.spatial]
    rfl
  · intro n hn k hk os hunread
    rw [hplan.position hn hk]
    simp only [Option.bind_eq_bind, Option.bind_some, Option.bind_assoc, Option.pure_def]
    rw [unread_eq_presented hn hk hunread]

theorem pointwise3InPlaceViews_settles (grants : ℕ → ℕ → Bool)
    (f : PointwiseCallback σ (α × β × δ) α) (state : σ) :
    Settles (.fresh left.storage, state)
      (fun os => (Compatible left b ∧ Compatible left c) ∧
        Leaves left (tripleAt left b c) f state os)
      ((pointwise3InPlaceViews grants left b c f).runOn (.fresh left.storage, state)) := by
  unfold pointwise3InPlaceViews
  apply settles_checked_bind
  rintro ⟨plan, bm⟩ hnew
  apply settles_checked_bind
  intro cm hinput
  obtain ⟨hplan, hb⟩ := outputPlan_new_ok (mapError_eq_ok.mp hnew)
  have hc := outputPlan_input_ok hplan (mapError_eq_ok.mp hinput)
  have hloop := pointwise3InPlace_loop hplan hb hc f state
  exact Or.inr ((succeeds_loop_unless hplan hloop).imp
    fun _ h => ⟨⟨hb.compatible, hc.compatible⟩, h⟩)

theorem pointwise3InPlaceViews_succeeds (hb : Compatible left b) (hc : Compatible left c)
    (f : PointwiseCallback σ (α × β × δ) α) (state : σ) :
    Succeeds (fun _ => True) ((pointwise3InPlaceViews (fun _ => grantAll) left b c f).runOn
      (.fresh left.storage, state)) := by
  obtain ⟨plan, bm, hnew⟩ := outputPlan_new_exists (view_fits left) hb.1 hb.2
  obtain ⟨hplan, hbm⟩ := outputPlan_new_ok hnew
  obtain ⟨cm, hinput⟩ := outputPlan_input_exists hplan hc.1 hc.2
  have hcm := outputPlan_input_ok hplan hinput
  unfold pointwise3InPlaceViews
  rw [runOn_checked_bind_ok (mapError_eq_ok.mpr hnew),
    runOn_checked_bind_ok (mapError_eq_ok.mpr hinput)]
  exact (succeeds_loop_unless hplan (pointwise3InPlace_loop hplan hbm hcm f state)).imp
    fun _ _ => trivial

theorem pointwise3Views_accepted (output : PencilArrayView α N M)
    (hpencil : output.pencil = left.pencil) (hshape : output.extraShape = left.extraShape)
    (f : PointwiseCallback σ (α × β × δ) α) (state : σ) :
    (∃ out, pointwise3Views (fun _ => grantAll) left b c output f state = .ok out) ↔
      Compatible left b ∧ Compatible left c := by
  unfold pointwise3Views
  rw [hpencil, hshape]
  constructor
  · rintro ⟨out, h⟩
    obtain ⟨⟨plan, am⟩, hnew, h⟩ := bind_eq_ok.mp h
    obtain ⟨bm, hsecond, h⟩ := bind_eq_ok.mp h
    obtain ⟨cm, hthird, h⟩ := bind_eq_ok.mp h
    have hplan := (outputPlan_new_ok (mapError_eq_ok.mp hnew)).1
    exact ⟨(outputPlan_input_ok hplan (mapError_eq_ok.mp hsecond)).compatible,
      (outputPlan_input_ok hplan (mapError_eq_ok.mp hthird)).compatible⟩
  · rintro ⟨hb, hc⟩
    obtain ⟨plan, am, hnew⟩ := outputPlan_new_exists (view_fits left) rfl (Broadcasts.refl _)
    have hplan := (outputPlan_new_ok hnew).1
    obtain ⟨bm, hsecond⟩ := outputPlan_input_exists hplan hb.1 hb.2
    obtain ⟨cm, hthird⟩ := outputPlan_input_exists hplan hc.1 hc.2
    rw [mapError_eq_ok.mpr hnew]
    show ∃ out, ((plan.input grantAll left.pencil b).mapError _ >>= _) = _
    rw [mapError_eq_ok.mpr hsecond]
    show ∃ out, ((plan.input grantAll left.pencil c).mapError _ >>= _) = _
    rw [mapError_eq_ok.mpr hthird]
    by_cases hzero : plan.spatial = 0
    · exact ⟨_, if_pos hzero⟩
    · exact ⟨_, if_neg hzero⟩

theorem pointwise3_equalsOutOfPlace (left : PencilArrayView α N M) (b : PencilArrayView β N M)
    (c : PencilArrayView δ N M) (f : PointwiseCallback σ (α × β × δ) α) (state : σ) :
    EqualsOutOfPlace left (Compatible left b ∧ Compatible left c) (tripleAt left b c) f state
      (fun grants => pointwise3InPlaceViews grants left b c f)
      (fun grants output => pointwise3Views grants left b c output f state) where
  settles grants := (pointwise3InPlaceViews_settles grants f state).imp fun _ h => h.2
  accepted := by
    constructor
    · rintro ⟨os, hrun, _⟩
      exact ((pointwise3InPlaceViews_settles _ f state).good_of_ok hrun).1
    · intro h
      exact pointwise3InPlaceViews_succeeds h.1 h.2 f state
  outAccepted output hpencil hshape := pointwise3Views_accepted output hpencil hshape f state
  equal grants grants' output os out hpencil hshape hrun hout := by
    have hin := ((pointwise3InPlaceViews_settles grants f state).good_of_ok hrun).2
    have hwrites := pointwise3Views_writesOutput hout
    rw [hpencil, hshape] at hwrites
    exact hwrites.unique hin

end Three

/-! ## A slice of inputs -/

section Many

variable {left : PencilArrayView α N M} {inputs : List (PencilArrayView α N M)}

def elementsAt (left : PencilArrayView α N M) (inputs : List (PencilArrayView α N M)) (e : List ℕ)
    (x : Fin N → ℕ) : Option (α × List α) := do
  let l ← clippedElement left e x
  let refs ← inputs.mapM fun input => clippedElement input e x
  return (l, refs)

theorem presented_elements (h : ∀ input ∈ inputs, Compatible left input) {e : List ℕ}
    {x : Fin N → ℕ} (hvalid : ValidElement left.pencil left.extraShape e x) :
    (do
      let l ← presented left left.pencil left.extraShape
        (rowMajorValue left.extraShape.dimensions e) (layoutOffset left.pencil x)
      let refs ← inputs.mapM fun input => presented input left.pencil left.extraShape
        (rowMajorValue left.extraShape.dimensions e) (layoutOffset left.pencil x)
      return (l, refs)) = elementsAt left inputs e x ∧ (elementsAt left inputs e x).isSome := by
  have hself : left.pencil = left.pencil := rfl
  obtain ⟨hleft, hlsome⟩ := presented_eq hself (Broadcasts.refl _) hvalid
  obtain ⟨hmany, hmsome⟩ := presented_many h hvalid
  rw [hleft, hmany]
  obtain ⟨l, hl⟩ := Option.isSome_iff_exists.mp hlsome
  obtain ⟨refs, hrefs⟩ := Option.isSome_iff_exists.mp hmsome
  unfold elementsAt
  rw [hl, hrefs]
  exact ⟨rfl, rfl⟩

theorem pointwiseManyInPlace_loop {plan : OutputPlan} {plans : List (List ℕ × List ℕ)}
    (hplan : PlansOutput plan left.pencil left.extraShape)
    (hinputs : List.Forall₂ (fun input mapping =>
      PlansInput input left.pencil left.extraShape mapping) inputs plans)
    (f : PointwiseCallback σ (α × List α) α) (state : σ) :
    WritesOutput left.pencil left.extraShape (elementsAt left inputs) f state
      ((List.range plan.extraCount).foldlM (fun os outLinear =>
        (List.range plan.spatial).foldlM (fun os k => do
          let refs ← (inputs.zip plans).mapM fun (input, dims, strides) => do
            let i ← broadcastLinear outLinear plan.dims dims strides plan.strides
            elementAt input.storage i plan.spatial k
          let i ← plan.position outLinear k
          let x ← os.1.cells[i]?
          callInto f os i (x, refs)) os) (.fresh left.storage, state)) := by
  have hall := forall_of_plansInput hinputs
  have hrefs := fun n hn k => mapM_broadcastLinear hplan hinputs (n := n) (k := k) hn
  rw [hplan.extraCount]
  refine foldlM_writesOutput hplan.fits (fun n k => do
    let l ← presented left left.pencil left.extraShape n k
    let refs ← inputs.mapM fun input => presented input left.pencil left.extraShape n k
    return (l, refs)) (fun e x hvalid => presented_elements hall hvalid) f state
      (view_storage_length left)
    (fun n os k => do
      let refs ← inputs.mapM fun input => presented input left.pencil left.extraShape n k
      let i ← plan.position n k
      let x ← os.1.cells[i]?
      callInto f os i (x, refs)) ?_ ?_
  · intro n hn os
    rw [← hplan.spatial]
    simp only [← hrefs n hn]
  · intro n hn k hk os hunread
    rw [hplan.position hn hk]
    simp only [Option.bind_eq_bind, Option.bind_some, Option.bind_assoc, Option.pure_def]
    rw [unread_eq_presented hn hk hunread]
    cases presented left left.pencil left.extraShape n k with
    | none =>
      cases inputs.mapM fun input => presented input left.pencil left.extraShape n k <;> rfl
    | some l => rfl

theorem pointwiseManyInPlaceViews_settles (grants : ℕ → ℕ → Bool)
    (f : PointwiseCallback σ (α × List α) α) (state : σ) :
    Settles (.fresh left.storage, state)
      (fun os => (∀ input ∈ inputs, Compatible left input) ∧
        Leaves left (elementsAt left inputs) f state os)
      ((pointwiseManyInPlaceViews grants left inputs f).runOn (.fresh left.storage, state)) := by
  unfold pointwiseManyInPlaceViews
  apply settles_checked_bind
  rintro ⟨plan, plans⟩ hmany
  apply settles_checked_bind
  intro _ _
  obtain ⟨hplan, hinputs⟩ := pointwiseManyPlan_ok hmany
  have hloop := pointwiseManyInPlace_loop hplan hinputs f state
  exact Or.inr ((succeeds_loop hloop).imp fun _ h => ⟨forall_of_plansInput hinputs, h⟩)

theorem pointwiseManyInPlaceViews_succeeds (hne : inputs ≠ [])
    (h : ∀ input ∈ inputs, Compatible left input) (f : PointwiseCallback σ (α × List α) α)
    (state : σ) :
    Succeeds (fun _ => True) ((pointwiseManyInPlaceViews (fun _ => grantAll) left inputs f).runOn
      (.fresh left.storage, state)) := by
  obtain ⟨⟨plan, plans⟩, hmany⟩ := pointwiseManyPlan_exists hne h
  obtain ⟨hplan, hinputs⟩ := pointwiseManyPlan_ok hmany
  unfold pointwiseManyInPlaceViews
  rw [runOn_checked_bind_ok hmany]
  exact (succeeds_loop (pointwiseManyInPlace_loop hplan hinputs f state)).imp fun _ _ => trivial

/-- The same arguments as one list. -/
theorem elementsAt_map (e : List ℕ) (x : Fin N → ℕ) :
    (elementsAt left inputs e x).map (fun q => q.1 :: q.2)
      = (left :: inputs).mapM fun input => clippedElement input e x := by
  unfold elementsAt
  rw [List.mapM_cons]
  cases clippedElement left e x with
  | none => rfl
  | some l => cases inputs.mapM fun input => clippedElement input e x <;> rfl

theorem pointwiseManyViews_accepted (output : PencilArrayView α N M)
    (hpencil : output.pencil = left.pencil) (hshape : output.extraShape = left.extraShape)
    (h : PointwiseCallback σ (List α) α) (state : σ) :
    (∃ out, pointwiseManyViews (fun _ => grantAll) (left :: inputs) output h state = .ok out) ↔
      ∀ input ∈ inputs, Compatible left input := by
  constructor
  · rintro ⟨out, hrun⟩ input hmem
    unfold pointwiseManyViews at hrun
    obtain ⟨⟨plan, plans⟩, hmany, _⟩ := bind_eq_ok.mp hrun
    have hinputs := forall_of_plansInput (pointwiseManyPlan_ok hmany).2
    rw [hpencil, hshape] at hinputs
    exact hinputs input (List.mem_cons_of_mem _ hmem)
  · intro hinputs
    apply pointwiseManyViews_exists (List.cons_ne_nil _ _)
    rw [hpencil, hshape]
    intro input hmem
    rcases List.mem_cons.mp hmem with rfl | hmem
    · exact ⟨rfl, Broadcasts.refl _⟩
    · exact hinputs input hmem

theorem pointwiseMany_equalsOutOfPlace (left : PencilArrayView α N M)
    {inputs : List (PencilArrayView α N M)} (hne : inputs ≠ [])
    (f : PointwiseCallback σ (α × List α) α) {h : PointwiseCallback σ (List α) α}
    (hcallback : ∀ s l refs, h s (l :: refs) = f s (l, refs)) (state : σ) :
    EqualsOutOfPlace left (∀ input ∈ inputs, Compatible left input) (elementsAt left inputs)
      f state (fun grants => pointwiseManyInPlaceViews grants left inputs f)
      (fun grants output => pointwiseManyViews grants (left :: inputs) output h state) where
  settles grants := (pointwiseManyInPlaceViews_settles grants f state).imp fun _ h => h.2
  accepted := by
    constructor
    · rintro ⟨os, hrun, _⟩
      exact ((pointwiseManyInPlaceViews_settles _ f state).good_of_ok hrun).1
    · intro h
      exact pointwiseManyInPlaceViews_succeeds hne h f state
  outAccepted output hpencil hshape := pointwiseManyViews_accepted output hpencil hshape h state
  equal grants grants' output os out hpencil hshape hrun hout := by
    have hin := ((pointwiseManyInPlaceViews_settles grants f state).good_of_ok hrun).2
    have hlist := WritesOutput.map hin (fun q => q.1 :: q.2) (h := h)
      fun s q => hcallback s q.1 q.2
    simp only [elementsAt_map] at hlist
    have hwrites := pointwiseManyViews_writesOutput hout
    rw [hpencil, hshape] at hwrites
    exact hwrites.unique hlist

end Many

/-- **In place equals out of place.**  For two inputs, for three and for a slice, whatever the
callback (it may even keep a state), the in-place call leaves what the out-of-place call on the
output's old contents and the same inputs writes into an output of the same shape.  Every
position is computed once; an error is found before the first callback and leaves the output as
it was.  A slice is not empty: without inputs both calls are refused. -/
theorem pointwise_in_place_equals_out_of_place :
    (∀ (left : PencilArrayView α N M) (right : PencilArrayView β N M)
      (f : PointwiseCallback σ (α × β) α) (state : σ),
      EqualsOutOfPlace left (Compatible left right) (pairAt left right) f state
        (fun grants => pointwise2InPlaceViews grants left right f)
        (fun grants output => pointwise2Views grants left right output f state)) ∧
    (∀ (left : PencilArrayView α N M) (b : PencilArrayView β N M) (c : PencilArrayView δ N M)
      (f : PointwiseCallback σ (α × β × δ) α) (state : σ),
      EqualsOutOfPlace left (Compatible left b ∧ Compatible left c) (tripleAt left b c) f state
        (fun grants => pointwise3InPlaceViews grants left b c f)
        (fun grants output => pointwise3Views grants left b c output f state)) ∧
    (∀ (left : PencilArrayView α N M) (inputs : List (PencilArrayView α N M))
      (f : PointwiseCallback σ (α × List α) α) (h : PointwiseCallback σ (List α) α) (state : σ),
      inputs ≠ [] → (∀ s l refs, h s (l :: refs) = f s (l, refs)) →
      EqualsOutOfPlace left (∀ input ∈ inputs, Compatible left input) (elementsAt left inputs)
        f state (fun grants => pointwiseManyInPlaceViews grants left inputs f)
        (fun grants output => pointwiseManyViews grants (left :: inputs) output h state)) ∧
    (∀ (grants grants' : ℕ → ℕ → Bool) (left output : PencilArrayView α N M)
      (f : PointwiseCallback σ (α × List α) α) (h : PointwiseCallback σ (List α) α) (state : σ),
      (pointwiseManyInPlaceViews grants left [] f).runOn (.fresh left.storage, state)
          = some (.error .emptyInputs, (.fresh left.storage, state)) ∧
        pointwiseManyViews grants' [] output h state = .error .emptyInputs) :=
  ⟨fun left right f state => pointwise2_equalsOutOfPlace left right f state,
    fun left b c f state => pointwise3_equalsOutOfPlace left b c f state,
    fun left _ f _ state hne hcallback =>
      pointwiseMany_equalsOutOfPlace left hne f hcallback state,
    fun _ _ _ _ _ _ _ => ⟨rfl, rfl⟩⟩

/-- Adds what it gets. -/
def addRefs : PointwiseCallback Unit (List ℕ) ℕ := fun s refs => (refs.sum, s)

theorem pointwise_in_place_rows :
    Succeeds (fun _ => True) ((pointwiseManyInPlaceViews (fun _ => grantAll)
      (numberedRows.on twoRanks.here) [numberedRows.on twoRanks.here]
      (fun s q => addRefs s (q.1 :: q.2))).runOn
        (.fresh (numberedRows.on twoRanks.here).storage, ())) := by
  obtain ⟨_, _, hmany, _⟩ := pointwise_in_place_equals_out_of_place
    (N := 2) (M := 1) (α := ℕ) (β := ℕ) (δ := ℕ) (σ := Unit)
  have hrows := hmany (numberedRows.on twoRanks.here) [numberedRows.on twoRanks.here]
    (fun s q => addRefs s (q.1 :: q.2)) addRefs () (List.cons_ne_nil _ _) fun _ _ _ => rfl
  apply hrows.accepted.mpr
  intro input hmem
  rw [List.mem_singleton.mp hmem]
  exact ⟨rfl, Broadcasts.refl _⟩

end PencilRs.Analysis
