import PencilRs.Analysis.Traversals

/-!
# Pointwise operations

A pointwise operation writes the output once at every position, in order, with what its callback
returns for the inputs at the clipped indices.
-/

set_option autoImplicit false

namespace PencilRs.Analysis

open PencilRs.Computation PencilRs.Model

variable {N M : ℕ} {α β δ υ σ γ : Type}

/-! ## Plans -/

/-- **The extents** pass where the input broadcasts to the output. -/
theorem validateExtents_ok {input output : List ℕ} :
    validateExtents input output = .ok () ↔ Broadcasts input output := by
  unfold validateExtents
  have hloop : ∀ (input output : List ℕ) (k : ℕ), input.length = output.length →
      (((input.zip output).zipIdx k).forM (fun entry =>
        if entry.1.1 ≠ entry.1.2 ∧ entry.1.1 ≠ 1 then
          .error (.extraExtentMismatch entry.2 entry.1.2 entry.1.1)
        else .ok () : _ → Except PointwiseError Unit) = .ok () ↔ Broadcasts input output) := by
    intro input
    induction input with
    | nil =>
      intro output k hlen
      obtain rfl := List.length_eq_zero_iff.mp hlen.symm
      exact ⟨fun _ => .nil, fun _ => rfl⟩
    | cons extent input ih =>
      intro output k hlen
      cases output with
      | nil => contradiction
      | cons out output =>
        rw [List.zip_cons_cons, List.zipIdx_cons]
        rw [List.forM_eq_forM, List.forM_cons]
        have htail := ih output (k + 1) (by simpa using hlen)
        rw [List.forM_eq_forM] at htail
        unfold Broadcasts at htail ⊢
        rw [List.forall₂_cons, ← htail]
        by_cases hbad : extent ≠ out ∧ extent ≠ 1
        · simp only [if_pos hbad, bind, Except.bind]
          constructor
          · intro h
            contradiction
          · rintro ⟨h | h, _⟩
            · exact absurd h hbad.1
            · exact absurd h hbad.2
        · simp only [if_neg hbad, bind, Except.bind]
          exact (and_iff_right (by tauto)).symm
  by_cases hlen : input.length = output.length
  · rw [if_neg (not_not.mpr hlen)]
    exact hloop input output 0 hlen
  · rw [if_pos hlen]
    constructor
    · intro h
      contradiction
    · intro h
      exact absurd h.length_eq hlen

theorem copyDims_ok {granted : Bool} {dims copy : List ℕ} (h : copyDims granted dims = .ok copy) :
    copy = dims := by
  cases granted with
  | false => contradiction
  | true => exact (Except.ok.inj h).symm

/-- What a plan knows of its output. -/
structure PlansOutput (plan : OutputPlan) (p : Pencil N M) (outShape : ExtraShape) : Prop where
  dims : plan.dims = outShape.dimensions
  spatial : plan.spatial = p.localLen
  extraCount : plan.extraCount = outShape.elementCount
  strides : outShape.elementCount ≠ 0 → plan.strides = rowStrides outShape.dimensions
  fits : outShape.elementCount * p.localLen < usizeLimit

/-- What a plan knows of an input. -/
structure PlansInput (view : PencilArrayView α N M) (p : Pencil N M) (outShape : ExtraShape)
    (mapping : List ℕ × List ℕ) : Prop where
  pencil : view.pencil = p
  broadcasts : Broadcasts view.extraShape.dimensions outShape.dimensions
  dims : mapping.1 = view.extraShape.dimensions
  strides : outShape.elementCount ≠ 0 → mapping.2 = rowStrides view.extraShape.dimensions

theorem outputPlan_new_ok {grants : ℕ → Bool} {first : PencilArrayView α N M} {p : Pencil N M}
    {outShape : ExtraShape} {plan : OutputPlan} {mapping : List ℕ × List ℕ}
    (h : OutputPlan.new grants first p outShape.dimensions = .ok (plan, mapping)) :
    PlansOutput plan p outShape ∧ PlansInput first p outShape mapping := by
  unfold OutputPlan.new at h
  obtain ⟨_, hlayout, h⟩ := bind_eq_ok.mp h
  obtain ⟨_, hextents, h⟩ := bind_eq_ok.mp h
  obtain ⟨dims, hdims, h⟩ := bind_eq_ok.mp h
  obtain ⟨firstDims, hfirst, h⟩ := bind_eq_ok.mp h
  obtain ⟨extraCount, hextra, h⟩ := bind_eq_ok.mp h
  obtain ⟨total, htotal, h⟩ := bind_eq_ok.mp h
  obtain ⟨⟨strides, firstStrides⟩, hstrides, h⟩ := bind_eq_ok.mp h
  cases h
  have hbroadcasts := validateExtents_ok.mp hextents
  obtain rfl := copyDims_ok hdims
  obtain rfl := copyDims_ok hfirst
  obtain rfl : extraCount = outShape.elementCount :=
    Except.ok.inj ((mapError_eq_ok.mp hextra).symm.trans outShape.elementCount_ok)
  have hfits := (checkedMul_eq_some.mp (okOr_eq_ok.mp htotal)).1
  rw [Nat.mul_comm] at hfits
  have hrows : outShape.elementCount ≠ 0 → strides = rowStrides outShape.dimensions ∧
      firstStrides = rowStrides first.extraShape.dimensions := by
    intro hne
    rw [if_neg hne] at hstrides
    obtain ⟨s, hs, hstrides⟩ := bind_eq_ok.mp hstrides
    obtain ⟨f, hf, hstrides⟩ := bind_eq_ok.mp hstrides
    cases hstrides
    exact ⟨pointwiseStrides_ok (ExtraShape.countable hne) hs,
      pointwiseStrides_ok (countable_input hbroadcasts hne) hf⟩
  exact ⟨⟨rfl, rfl, rfl, fun hne => (hrows hne).1, hfits⟩,
    ⟨Pencil.eq_of_sameLayout (ensure_eq_ok.mp hlayout), hbroadcasts, rfl,
      fun hne => (hrows hne).2⟩⟩

theorem outputPlan_input_ok {grants : ℕ → Bool} {view : PencilArrayView α N M} {p : Pencil N M}
    {outShape : ExtraShape} {plan : OutputPlan} {mapping : List ℕ × List ℕ}
    (hplan : PlansOutput plan p outShape) (h : plan.input grants p view = .ok mapping) :
    PlansInput view p outShape mapping := by
  unfold OutputPlan.input at h
  obtain ⟨_, hlayout, h⟩ := bind_eq_ok.mp h
  obtain ⟨_, hextents, h⟩ := bind_eq_ok.mp h
  obtain ⟨dims, hdims, h⟩ := bind_eq_ok.mp h
  obtain ⟨strides, hstrides, h⟩ := bind_eq_ok.mp h
  cases h
  rw [hplan.dims] at hextents
  have hbroadcasts := validateExtents_ok.mp hextents
  obtain rfl := copyDims_ok hdims
  refine ⟨Pencil.eq_of_sameLayout (ensure_eq_ok.mp hlayout), hbroadcasts, rfl, fun hne => ?_⟩
  rw [hplan.extraCount, if_neg hne] at hstrides
  exact pointwiseStrides_ok (countable_input hbroadcasts hne) hstrides

/-! ## Writing the output -/

/-- The values a callback returns for a list of arguments, and its last state. -/
def callAll (f : PointwiseCallback σ γ υ) (state : σ) (args : List γ) : List υ × σ :=
  args.foldl (fun acc arg => (acc.1 ++ [(f acc.2 arg).1], (f acc.2 arg).2)) ([], state)

theorem callAll_snoc (f : PointwiseCallback σ γ υ) (state : σ) (args : List γ) (arg : γ) :
    callAll f state (args ++ [arg])
      = ((callAll f state args).1 ++ [(f (callAll f state args).2 arg).1],
        (f (callAll f state args).2 arg).2) := by
  simp [callAll]

theorem length_callAll (f : PointwiseCallback σ γ υ) (state : σ) (args : List γ) :
    (callAll f state args).1.length = args.length := by
  induction args using List.reverseRecOn with
  | nil => rfl
  | append_singleton args arg ih =>
    rw [callAll_snoc, List.length_append, ih, List.length_append]
    rfl

/-- The first `i` positions are written with the values for the first `i` arguments. -/
structure Written (f : PointwiseCallback σ γ υ) (state : σ) (args : List γ) (original : List υ)
    (i : ℕ) (os : Buf υ × σ) : Prop where
  cells : os.1.cells = (callAll f state (args.take i)).1 ++ original.drop i
  log : os.1.log = List.range i
  state : os.2 = (callAll f state (args.take i)).2

/-- From the next position on, nothing has changed. -/
theorem Written.unread {f : PointwiseCallback σ γ υ} {state : σ} {args : List γ}
    {original : List υ} {i : ℕ} {os : Buf υ × σ} (h : Written f state args original i os)
    (hi : i ≤ args.length) {j : ℕ} (hj : i ≤ j) : os.1.cells[j]? = original[j]? := by
  have hfirst : (callAll f state (args.take i)).1.length = i := by
    rw [length_callAll, List.length_take]
    omega
  rw [h.cells, List.getElem?_append_right (by omega), hfirst, List.getElem?_drop]
  congr 1
  omega

/-- One call writes the next position. -/
theorem Written.callInto {f : PointwiseCallback σ γ υ} {state : σ} {args : List γ}
    {original : List υ} {i : ℕ} {os : Buf υ × σ} (h : Written f state args original i os)
    (hi : i < original.length) {arg : γ} (harg : args[i]? = some arg) :
    ∃ os', callInto f os i arg = some os' ∧ Written f state args original (i + 1) os' := by
  have hlt := (List.getElem?_eq_some_iff.mp harg).1
  have htake : args.take (i + 1) = args.take i ++ [arg] := by
    rw [List.take_add_one, harg]
    rfl
  have hfirst : (callAll f state (args.take i)).1.length = i := by
    rw [length_callAll, List.length_take]
    omega
  have hlength : os.1.cells.length = original.length := by
    rw [h.cells, List.length_append, hfirst, List.length_drop]
    omega
  refine ⟨(os.1.put i (f os.2 arg).1, (f os.2 arg).2), ?_, ?_, ?_, ?_⟩
  · have hstore : os.1.store 0 os.1.cells.length i (f os.2 arg).1
        = some (os.1.put i (f os.2 arg).1) := by
      rw [Buf.store_eq _ (by rw [hlength]; omega) le_rfl, Nat.zero_add]
    show (do
      let buf ← os.1.store 0 os.1.cells.length i (f os.2 arg).1
      return (buf, (f os.2 arg).2)) = _
    rw [hstore]
    rfl
  · rw [htake, callAll_snoc]
    show os.1.cells.set i _ = _
    rw [h.cells, h.state, List.set_append_right _ _ hfirst.le, hfirst, Nat.sub_self,
      List.drop_eq_getElem_cons hi, List.set_cons_zero, List.append_assoc]
    rfl
  · show os.1.log ++ [i] = _
    rw [h.log, List.range_succ]
  · rw [htake, callAll_snoc, h.state]

/-- The output holds the callback's values for `element` at every position, and every position
is written once, in order. -/
structure WritesOutput (p : Pencil N M) (outShape : ExtraShape)
    (element : List ℕ → (Fin N → ℕ) → Option γ) (f : PointwiseCallback σ γ υ) (state : σ)
    (result : Option (Buf υ × σ)) : Prop where
  written : ∃ visited os, result = some os ∧ Presents p outShape element visited ∧
    os.1.cells = (callAll f state visited).1 ∧ os.1.log = List.range os.1.cells.length ∧
    os.2 = (callAll f state visited).2

/-- **A loop that calls into the output** writes it. -/
theorem foldlM_writesOutput {p : Pencil N M} {outShape : ExtraShape}
    (hfit : outShape.elementCount * p.localLen < usizeLimit)
    {element : List ℕ → (Fin N → ℕ) → Option γ} (present : ℕ → ℕ → Option γ)
    (hpresent : ∀ e x, ValidElement p outShape e x →
      present (rowMajorValue outShape.dimensions e) (layoutOffset p x) = element e x ∧
        (element e x).isSome)
    (f : PointwiseCallback σ γ υ) (state : σ) {original : List υ}
    (horiginal : original.length = outShape.elementCount * p.localLen)
    {round : Buf υ × σ → ℕ → Option (Buf υ × σ)}
    (step : ℕ → Buf υ × σ → ℕ → Option (Buf υ × σ))
    (hround : ∀ n < outShape.elementCount, ∀ os,
      round os n = (List.range p.localLen).foldlM (step n) os)
    (hstep : ∀ n < outShape.elementCount, ∀ k < p.localLen, ∀ os : Buf υ × σ,
      (∀ i, n * p.localLen + k ≤ i → os.1.cells[i]? = original[i]?) → step n os k = do
        let args ← present n k
        callInto f os (n * p.localLen + k) args) :
    WritesOutput p outShape element f state
      ((List.range outShape.elementCount).foldlM round (.fresh original, state)) := by
  obtain ⟨visited, _, hvisited⟩ := traversal_presents hfit present hpresent (fun _ _ _ => rfl)
  have hargs : ∀ n < outShape.elementCount, ∀ k < p.localLen, ∃ arg, present n k = some arg ∧
      visited[n * p.localLen + k]? = some arg := by
    intro n hn k hk
    rw [elementCount_eq] at hn
    obtain ⟨x, hx, rfl⟩ := exists_layoutOffset hk
    have hvalid : ValidElement p outShape (indicesOf outShape.dimensions n) x :=
      ⟨validIndices_indicesOf hn, hx⟩
    obtain ⟨v, hv, hev⟩ := hvisited.element _ x _ ((localOffset_eq_ok hfit).mpr ⟨hvalid, rfl⟩)
    have hpresented := (hpresent _ x hvalid).1
    unfold elementOffset at hv
    rw [rowMajorValue_indicesOf hn] at hpresented hv
    exact ⟨v, hpresented.trans hev, hv⟩
  have hrow : ∀ n < outShape.elementCount, ∀ os, Written f state visited original
      (n * p.localLen) os → ∃ os', round os n = some os' ∧
        Written f state visited original ((n + 1) * p.localLen) os' := by
    intro n hn os hos
    rw [hround n hn, Nat.succ_mul]
    apply foldlM_range_inv (m := Option) (step n)
      (fun k os => Written f state visited original (n * p.localLen + k) os) p.localLen os hos
    intro k hk os hos
    obtain ⟨arg, harg, hget⟩ := hargs n hn k hk
    have hlt := (List.getElem?_eq_some_iff.mp hget).1
    rw [hstep n hn k hk os (fun _ => hos.unread hlt.le), harg]
    refine hos.callInto ?_ hget
    rwa [horiginal, ← hvisited.length]
  have hall : ∃ os, (List.range outShape.elementCount).foldlM round (.fresh original, state)
      = some os ∧ Written f state visited original (outShape.elementCount * p.localLen) os := by
    apply foldlM_range_inv round
      (fun n os => Written f state visited original (n * p.localLen) os)
    · rw [Nat.zero_mul]
      exact ⟨rfl, rfl, rfl⟩
    · intro n hn os hos
      exact hrow n hn os hos
  obtain ⟨os, hrun, hos⟩ := hall
  have htake : visited.take (outShape.elementCount * p.localLen) = visited := by
    rw [← hvisited.length, List.take_length]
  have hcells := hos.cells
  rw [htake, ← horiginal, List.drop_length, List.append_nil] at hcells
  refine ⟨visited, os, hrun, hvisited, hcells, ?_, ?_⟩
  · rw [hos.log, hcells, length_callAll, hvisited.length]
  · rw [hos.state, htake]

section Views

variable {p : Pencil N M} {outShape : ExtraShape} {plan : OutputPlan}

theorem writesOutput_nil (hfit : outShape.elementCount * p.localLen < usizeLimit)
    {element : List ℕ → (Fin N → ℕ) → Option γ} {f : PointwiseCallback σ γ υ} {state : σ}
    {original : List υ} (horiginal : original.length = outShape.elementCount * p.localLen)
    (h : outShape.elementCount * p.localLen = 0) :
    WritesOutput p outShape element f state (some (.fresh original, state)) := by
  obtain rfl := List.length_eq_zero_iff.mp (horiginal.trans h)
  exact ⟨[], _, rfl, presents_nil hfit h, rfl, rfl, rfl⟩

/-- The base of an input at output index `n`. -/
theorem PlansInput.linear {view : PencilArrayView α N M} {mapping : List ℕ × List ℕ}
    (hplan : PlansOutput plan p outShape) (h : PlansInput view p outShape mapping) {n : ℕ}
    (hn : n < outShape.elementCount) :
    broadcastLinear n plan.dims mapping.1 mapping.2 plan.strides
      = some (rowMajorValue view.extraShape.dimensions
          (clip view.extraShape.dimensions (indicesOf outShape.dimensions n))) := by
  have hne : outShape.elementCount ≠ 0 := Nat.ne_zero_of_lt hn
  rw [hplan.dims, hplan.strides hne, h.dims, h.strides hne]
  refine broadcastLinear_eq (ExtraShape.countable hne) (countable_input h.broadcasts hne)
    h.broadcasts ?_
  rwa [← elementCount_eq]

theorem PlansOutput.position (hplan : PlansOutput plan p outShape) {n k : ℕ}
    (hn : n < outShape.elementCount) (hk : k < p.localLen) :
    plan.position n k = some (n * p.localLen + k) := by
  have hlt : n * p.localLen + k < usizeLimit := by
    have hrow : (n + 1) * p.localLen ≤ outShape.elementCount * p.localLen :=
      Nat.mul_le_mul_right _ hn
    have := hplan.fits
    rw [Nat.succ_mul] at hrow
    omega
  unfold OutputPlan.position
  rw [hplan.spatial, checkedMul_eq_some.mpr ⟨by omega, rfl⟩]
  exact checkedAdd_eq_some.mpr ⟨hlt, rfl⟩

/-- **Two inputs.** -/
theorem pointwise2Views_writesOutput {grants : ℕ → ℕ → Bool} {left : PencilArrayView α N M}
    {right : PencilArrayView β N M} {output : PencilArrayView υ N M}
    {f : PointwiseCallback σ (α × β) υ} {state : σ} {result : Option (Buf υ × σ)}
    (h : pointwise2Views grants left right output f state = .ok result) :
    WritesOutput output.pencil output.extraShape (fun e x => do
      let l ← clippedElement left e x
      let r ← clippedElement right e x
      return (l, r)) f state result := by
  unfold pointwise2Views at h
  obtain ⟨_, _, h⟩ := bind_eq_ok.mp h
  obtain ⟨⟨plan, leftDims, leftStrides⟩, hnew, h⟩ := bind_eq_ok.mp h
  obtain ⟨⟨rightDims, rightStrides⟩, hinput, h⟩ := bind_eq_ok.mp h
  obtain ⟨hplan, hl⟩ := outputPlan_new_ok hnew
  have hr := outputPlan_input_ok hplan hinput
  have horiginal := view_storage_length output
  by_cases hzero : plan.spatial = 0
  · simp only [if_pos hzero] at h
    cases h
    refine writesOutput_nil hplan.fits horiginal ?_
    rw [← hplan.spatial, hzero, Nat.mul_zero]
  · simp only [if_neg hzero] at h
    cases h
    rw [hplan.extraCount]
    refine foldlM_writesOutput hplan.fits (fun n k => do
      let l ← presented left output.pencil output.extraShape n k
      let r ← presented right output.pencil output.extraShape n k
      return (l, r)) (fun e x hvalid =>
        presented_pair hl.pencil hr.pencil hl.broadcasts hr.broadcasts hvalid) f state horiginal
      (fun n os k => do
        let i ← plan.position n k
        let l ← presented left output.pencil output.extraShape n k
        let r ← presented right output.pencil output.extraShape n k
        callInto f os i (l, r)) ?_ ?_
    · intro n hn os
      have hleft := hl.linear hplan hn
      have hright := hr.linear hplan hn
      simp only at hleft hright
      rw [hleft, hright, hplan.spatial]
      rfl
    · intro n hn k hk os _
      rw [hplan.position hn hk]
      simp only [Option.bind_eq_bind, Option.bind_some, Option.bind_assoc, Option.pure_def]

/-- **Three inputs.** -/
theorem pointwise3Views_writesOutput {grants : ℕ → ℕ → Bool} {a : PencilArrayView α N M}
    {b : PencilArrayView β N M} {c : PencilArrayView δ N M} {output : PencilArrayView υ N M}
    {f : PointwiseCallback σ (α × β × δ) υ} {state : σ} {result : Option (Buf υ × σ)}
    (h : pointwise3Views grants a b c output f state = .ok result) :
    WritesOutput output.pencil output.extraShape (fun e x => do
      let l ← clippedElement a e x
      let m ← clippedElement b e x
      let r ← clippedElement c e x
      return (l, m, r)) f state result := by
  unfold pointwise3Views at h
  obtain ⟨⟨plan, aDims, aStrides⟩, hnew, h⟩ := bind_eq_ok.mp h
  obtain ⟨⟨bDims, bStrides⟩, hsecond, h⟩ := bind_eq_ok.mp h
  obtain ⟨⟨cDims, cStrides⟩, hthird, h⟩ := bind_eq_ok.mp h
  obtain ⟨hplan, ha⟩ := outputPlan_new_ok (mapError_eq_ok.mp hnew)
  have hb := outputPlan_input_ok hplan (mapError_eq_ok.mp hsecond)
  have hc := outputPlan_input_ok hplan (mapError_eq_ok.mp hthird)
  have horiginal := view_storage_length output
  by_cases hzero : plan.spatial = 0
  · simp only [if_pos hzero] at h
    cases h
    refine writesOutput_nil hplan.fits horiginal ?_
    rw [← hplan.spatial, hzero, Nat.mul_zero]
  · simp only [if_neg hzero] at h
    cases h
    rw [hplan.extraCount]
    refine foldlM_writesOutput hplan.fits (fun n k => do
      let l ← presented a output.pencil output.extraShape n k
      let m ← presented b output.pencil output.extraShape n k
      let r ← presented c output.pencil output.extraShape n k
      return (l, m, r)) (fun e x hvalid => presented_triple ha.pencil hb.pencil hc.pencil
        ha.broadcasts hb.broadcasts hc.broadcasts hvalid) f state horiginal
      (fun n os k => do
        let i ← plan.position n k
        let l ← presented a output.pencil output.extraShape n k
        let m ← presented b output.pencil output.extraShape n k
        let r ← presented c output.pencil output.extraShape n k
        callInto f os i (l, m, r)) ?_ ?_
    · intro n hn os
      have hfirst := ha.linear hplan hn
      have hsecond := hb.linear hplan hn
      have hthird := hc.linear hplan hn
      simp only at hfirst hsecond hthird
      rw [hfirst, hsecond, hthird, hplan.spatial]
      rfl
    · intro n hn k hk os _
      rw [hplan.position hn hk]
      simp only [Option.bind_eq_bind, Option.bind_some, Option.bind_assoc, Option.pure_def]

/-- **The plan for a slice of views** maps every input. -/
theorem pointwiseManyPlan_ok {grants : ℕ → ℕ → Bool} {inputs : List (PencilArrayView α N M)}
    {output : PencilArrayView υ N M} {inputStrides : List (List ℕ × List ℕ)}
    (h : pointwiseManyPlan grants inputs output = .ok (plan, inputStrides)) :
    PlansOutput plan output.pencil output.extraShape ∧
      List.Forall₂ (fun input mapping =>
        PlansInput input output.pencil output.extraShape mapping) inputs inputStrides := by
  cases inputs with
  | nil => contradiction
  | cons first rest =>
    unfold pointwiseManyPlan at h
    obtain ⟨⟨newPlan, firstMapping⟩, hnew, h⟩ := bind_eq_ok.mp h
    obtain ⟨_, _, h⟩ := bind_eq_ok.mp h
    obtain ⟨strides, hstrides, h⟩ := bind_eq_ok.mp h
    cases h
    obtain ⟨hplan, hfirst⟩ := outputPlan_new_ok (mapError_eq_ok.mp hnew)
    refine ⟨hplan, .cons hfirst ?_⟩
    clear hnew hfirst
    have hloop : ∀ (rest : List (PencilArrayView α N M)) (k : ℕ)
        (strides : List (List ℕ × List ℕ)),
        (rest.zipIdx k).mapM (fun entry =>
          (plan.input (grants (entry.2 + 1)) output.pencil entry.1).mapError
            (MultiInputError.input (entry.2 + 1)))
          = .ok strides →
        List.Forall₂ (fun input mapping =>
          PlansInput input output.pencil output.extraShape mapping) rest strides := by
      intro rest
      induction rest with
      | nil =>
        intro k strides h
        cases h
        exact .nil
      | cons input rest ih =>
        intro k strides h
        rw [List.zipIdx_cons, List.mapM_cons] at h
        obtain ⟨mapping, hmapping, h⟩ := bind_eq_ok.mp h
        obtain ⟨mappings, hmappings, h⟩ := bind_eq_ok.mp h
        cases h
        exact .cons (outputPlan_input_ok hplan (mapError_eq_ok.mp hmapping)) (ih _ _ hmappings)
    exact hloop rest 0 strides hstrides

theorem forall_of_plansInput {inputs : List (PencilArrayView α N M)}
    {mappings : List (List ℕ × List ℕ)}
    (h : List.Forall₂ (fun input mapping => PlansInput input p outShape mapping) inputs mappings) :
    ∀ input ∈ inputs, input.pencil = p ∧
      Broadcasts input.extraShape.dimensions outShape.dimensions := by
  induction h with
  | nil => simp
  | cons hhead _ ih => exact List.forall_mem_cons.mpr ⟨⟨hhead.pencil, hhead.broadcasts⟩, ih⟩

/-- The arguments of one call. -/
theorem mapM_broadcastLinear (hplan : PlansOutput plan p outShape)
    {inputs : List (PencilArrayView α N M)} {mappings : List (List ℕ × List ℕ)}
    (h : List.Forall₂ (fun input mapping => PlansInput input p outShape mapping) inputs mappings)
    {n k : ℕ} (hn : n < outShape.elementCount) :
    ((inputs.zip mappings).mapM fun (input, dims, strides) => do
      let linear ← broadcastLinear n plan.dims dims strides plan.strides
      elementAt input.storage linear plan.spatial k)
      = inputs.mapM fun input => presented input p outShape n k := by
  induction h with
  | nil => rfl
  | @cons input mapping inputs mappings hhead _ ih =>
    obtain ⟨dims, strides⟩ := mapping
    rw [List.zip_cons_cons, List.mapM_cons, List.mapM_cons, ih]
    have hlinear := hhead.linear hplan hn
    simp only at hlinear
    simp only [hlinear, hplan.spatial, Option.bind_eq_bind, Option.bind_some]
    rfl

/-- **A slice of inputs.** -/
theorem pointwiseManyViews_writesOutput {grants : ℕ → ℕ → Bool}
    {inputs : List (PencilArrayView α N M)} {output : PencilArrayView υ N M}
    {f : PointwiseCallback σ (List α) υ} {state : σ} {result : Option (Buf υ × σ)}
    (h : pointwiseManyViews grants inputs output f state = .ok result) :
    WritesOutput output.pencil output.extraShape
      (fun e x => inputs.mapM fun input => clippedElement input e x) f state result := by
  unfold pointwiseManyViews at h
  obtain ⟨⟨plan, inputStrides⟩, hmany, h⟩ := bind_eq_ok.mp h
  obtain ⟨hplan, hinputs⟩ := pointwiseManyPlan_ok hmany
  have horiginal := view_storage_length output
  by_cases hzero : plan.spatial = 0
  · simp only [if_pos hzero] at h
    cases h
    refine writesOutput_nil hplan.fits horiginal ?_
    rw [← hplan.spatial, hzero, Nat.mul_zero]
  · simp only [if_neg hzero] at h
    obtain ⟨_, _, h⟩ := bind_eq_ok.mp h
    cases h
    have hall := forall_of_plansInput hinputs
    have hrefs := fun n hn k => mapM_broadcastLinear hplan hinputs (n := n) (k := k) hn
    rw [hplan.extraCount]
    refine foldlM_writesOutput hplan.fits (fun n k => inputs.mapM fun input =>
      presented input output.pencil output.extraShape n k) (fun e x hvalid =>
        presented_many hall hvalid) f state horiginal
      (fun n os k => do
        let refs ← inputs.mapM fun input => presented input output.pencil output.extraShape n k
        let i ← plan.position n k
        callInto f os i refs) ?_ ?_
    · intro n hn os
      rw [← hplan.spatial]
      simp only [← hrefs n hn]
    · intro n hn k hk os _
      rw [hplan.position hn hk]
      rfl

end Views

/-! ## When there is a plan -/

section Exists

variable {p : Pencil N M} {outShape : ExtraShape}

theorem outputPlan_new_exists (hfit : outShape.elementCount * p.localLen < usizeLimit)
    {first : PencilArrayView α N M} (hp : first.pencil = p)
    (h : Broadcasts first.extraShape.dimensions outShape.dimensions) :
    ∃ plan mapping, OutputPlan.new grantAll first p outShape.dimensions = .ok (plan, mapping) := by
  have hstrides : ∃ strides, (if outShape.elementCount = 0 then .ok ([], []) else do
      let strides ← pointwiseStrides (grantAll 2) outShape.dimensions
      let firstStrides ← pointwiseStrides (grantAll 3) first.extraShape.dimensions
      return (strides, firstStrides) : Except PointwiseError (List ℕ × List ℕ)) = .ok strides := by
    by_cases hzero : outShape.elementCount = 0
    · exact ⟨_, if_pos hzero⟩
    · rw [if_neg hzero]
      have hs : pointwiseStrides (grantAll 2) outShape.dimensions
          = .ok (rowStrides outShape.dimensions) :=
        pointwiseStrides_eq (ExtraShape.countable hzero)
      have hf : pointwiseStrides (grantAll 3) first.extraShape.dimensions
          = .ok (rowStrides first.extraShape.dimensions) :=
        pointwiseStrides_eq (countable_input h hzero)
      rw [hs, hf]
      exact ⟨_, rfl⟩
  obtain ⟨strides, hstrides⟩ := hstrides
  rw [Nat.mul_comm] at hfit
  unfold OutputPlan.new
  rw [hp, Pencil.sameLayout_self]
  exact ⟨_, _, bind_eq_ok.mpr ⟨_, rfl, bind_eq_ok.mpr ⟨_, validateExtents_ok.mpr h,
    bind_eq_ok.mpr ⟨_, rfl, bind_eq_ok.mpr ⟨_, rfl, bind_eq_ok.mpr ⟨_,
      mapError_eq_ok.mpr outShape.elementCount_ok, bind_eq_ok.mpr ⟨_, okOr_eq_ok.mpr
        (checkedMul_eq_some.mpr ⟨hfit, rfl⟩), bind_eq_ok.mpr ⟨strides, hstrides, rfl⟩⟩⟩⟩⟩⟩⟩⟩

theorem outputPlan_input_exists {plan : OutputPlan} (hplan : PlansOutput plan p outShape)
    {view : PencilArrayView α N M} (hp : view.pencil = p)
    (h : Broadcasts view.extraShape.dimensions outShape.dimensions) :
    ∃ mapping, plan.input grantAll p view = .ok mapping := by
  have hstrides : ∃ strides, (if plan.extraCount = 0 then .ok []
      else pointwiseStrides (grantAll 1) view.extraShape.dimensions) = .ok strides := by
    rw [hplan.extraCount]
    by_cases hzero : outShape.elementCount = 0
    · exact ⟨_, if_pos hzero⟩
    · rw [if_neg hzero]
      exact ⟨_, pointwiseStrides_eq (countable_input h hzero)⟩
  obtain ⟨strides, hstrides⟩ := hstrides
  have hextents : validateExtents view.extraShape.dimensions plan.dims = .ok () := by
    rw [hplan.dims]
    exact validateExtents_ok.mpr h
  unfold OutputPlan.input
  rw [hp, Pencil.sameLayout_self]
  exact ⟨_, bind_eq_ok.mpr ⟨_, rfl, bind_eq_ok.mpr ⟨_, hextents, bind_eq_ok.mpr ⟨_, rfl,
    bind_eq_ok.mpr ⟨strides, hstrides, rfl⟩⟩⟩⟩⟩

theorem pointwiseManyPlan_exists {inputs : List (PencilArrayView α N M)} (hne : inputs ≠ [])
    {output : PencilArrayView υ N M}
    (h : ∀ input ∈ inputs, input.pencil = output.pencil ∧
      Broadcasts input.extraShape.dimensions output.extraShape.dimensions) :
    ∃ plan, pointwiseManyPlan (fun _ => grantAll) inputs output = .ok plan := by
  cases inputs with
  | nil => contradiction
  | cons first rest =>
    obtain ⟨plan, mapping, hnew⟩ := outputPlan_new_exists (view_fits output)
      (h first (by simp)).1 (h first (by simp)).2
    have hplan := (outputPlan_new_ok hnew).1
    have hinputs : ∀ input ∈ rest, ∃ mapping,
        plan.input grantAll output.pencil input = .ok mapping := fun input hmem =>
      outputPlan_input_exists hplan (h input (by simp [hmem])).1 (h input (by simp [hmem])).2
    have hrest : ∃ strides, (rest.zipIdx.mapM fun entry =>
        (plan.input grantAll output.pencil entry.1).mapError (MultiInputError.input (entry.2 + 1)))
          = .ok strides := by
      choose! mapping hmapping using hinputs
      refine ⟨_, mapM_eq_pure (g := fun entry => mapping entry.1) ?_⟩
      rintro ⟨input, k⟩ hmem
      exact mapError_eq_ok.mpr (hmapping input (List.fst_mem_of_mem_zipIdx hmem))
    obtain ⟨strides, hstrides⟩ := hrest
    exact ⟨_, bind_eq_ok.mpr ⟨_, mapError_eq_ok.mpr hnew, bind_eq_ok.mpr ⟨_, rfl,
      bind_eq_ok.mpr ⟨strides, hstrides, rfl⟩⟩⟩⟩

/-- **A slice of inputs** is accepted where all of them broadcast to the output. -/
theorem pointwiseManyViews_exists {inputs : List (PencilArrayView α N M)} (hne : inputs ≠ [])
    {output : PencilArrayView υ N M}
    (h : ∀ input ∈ inputs, input.pencil = output.pencil ∧
      Broadcasts input.extraShape.dimensions output.extraShape.dimensions)
    (f : PointwiseCallback σ (List α) υ) (state : σ) :
    ∃ result, pointwiseManyViews (fun _ => grantAll) inputs output f state = .ok result := by
  obtain ⟨⟨plan, strides⟩, hmany⟩ := pointwiseManyPlan_exists hne h
  unfold pointwiseManyViews
  rw [hmany]
  by_cases hzero : plan.spatial = 0
  · exact ⟨_, if_pos hzero⟩
  · exact ⟨_, if_neg hzero⟩

end Exists

/-- **Broadcasting traversals equal the reference.**  The traversals for pairs, triples and
slices of views and the pointwise operations return without a panic.  They follow the shape
rule, and for every output position, once and in the storage order of the output, they present
the elements at the clipped indices.  Compatible shapes have a plan if the output can be counted,
a slice of two or three views where the pair or the triple has one, and then the same elements
are presented. -/
theorem broadcasting_traversals_equal_reference :
    (∀ (grants : ℕ → Bool) (left : PencilArrayView α N M) (right : PencilArrayView β N M)
      (plan : MapPlan), mapPlan grants left right = .ok plan →
      ∃ outShape : ExtraShape, outShape.dimensions = plan.shape ∧
        IsBroadcast [left.extraShape.dimensions, right.extraShape.dimensions] plan.shape ∧
        ∃ visited, forEachPair left right plan = some visited ∧
          Presents left.pencil outShape (fun e x => do
            let l ← clippedElement left e x
            let r ← clippedElement right e x
            return (l, r)) visited) ∧
    (∀ (grants : ℕ → Bool) (congruent : MpiTopology M → Bool) (a : PencilArrayView α N M)
      (b : PencilArrayView β N M) (d : PencilArrayView δ N M) (plan : MapPlan3),
      mapPlan3 grants congruent a b d = .ok plan →
      ∃ outShape : ExtraShape, outShape.dimensions = plan.shape ∧
        IsBroadcast [a.extraShape.dimensions, b.extraShape.dimensions, d.extraShape.dimensions]
          plan.shape ∧
        ∃ visited, forEachTriple a b d plan = some visited ∧
          Presents a.pencil outShape (fun e x => do
            let l ← clippedElement a e x
            let m ← clippedElement b e x
            let r ← clippedElement d e x
            return (l, m, r)) visited) ∧
    (∀ (grants : ℕ → Bool) (congruent : MpiTopology M → Bool) (first : PencilArrayView α N M)
      (rest : List (PencilArrayView α N M)) (plan : ManyPlan),
      manyPlan grants congruent (first :: rest) = .ok plan →
      ∃ outShape : ExtraShape, outShape.dimensions = plan.shape ∧
        IsBroadcast ((first :: rest).map fun input => input.extraShape.dimensions) plan.shape ∧
        ∃ visited, forEachMany (first :: rest) plan = some visited ∧
          Presents first.pencil outShape
            (fun e x => (first :: rest).mapM fun input => clippedElement input e x) visited) ∧
    (∀ (grants : ℕ → ℕ → Bool) (left : PencilArrayView α N M) (right : PencilArrayView β N M)
      (output : PencilArrayView υ N M) (f : PointwiseCallback σ (α × β) υ) (state : σ)
      (result : Option (Buf υ × σ)),
      pointwise2Views grants left right output f state = .ok result →
      WritesOutput output.pencil output.extraShape (fun e x => do
        let l ← clippedElement left e x
        let r ← clippedElement right e x
        return (l, r)) f state result) ∧
    (∀ (grants : ℕ → ℕ → Bool) (a : PencilArrayView α N M) (b : PencilArrayView β N M)
      (c : PencilArrayView δ N M) (output : PencilArrayView υ N M)
      (f : PointwiseCallback σ (α × β × δ) υ) (state : σ) (result : Option (Buf υ × σ)),
      pointwise3Views grants a b c output f state = .ok result →
      WritesOutput output.pencil output.extraShape (fun e x => do
        let l ← clippedElement a e x
        let m ← clippedElement b e x
        let r ← clippedElement c e x
        return (l, m, r)) f state result) ∧
    (∀ (grants : ℕ → ℕ → Bool) (inputs : List (PencilArrayView α N M))
      (output : PencilArrayView υ N M) (f : PointwiseCallback σ (List α) υ) (state : σ)
      (result : Option (Buf υ × σ)),
      pointwiseManyViews grants inputs output f state = .ok result →
      WritesOutput output.pencil output.extraShape
        (fun e x => inputs.mapM fun input => clippedElement input e x) f state result) ∧
    (∀ (inputs : List (PencilArrayView α N M)) (output : PencilArrayView υ N M)
      (f : PointwiseCallback σ (List α) υ) (state : σ), inputs ≠ [] →
      (∀ input ∈ inputs, input.pencil = output.pencil ∧
        Broadcasts input.extraShape.dimensions output.extraShape.dimensions) →
      ∃ result, pointwiseManyViews (fun _ => grantAll) inputs output f state = .ok result) ∧
    (∀ (left : PencilArrayView α N M) (right : PencilArrayView β N M),
      (∃ plan, mapPlan grantAll left right = .ok plan) ↔
        right.pencil = left.pencil ∧ ∃ shape,
          IsBroadcast [left.extraShape.dimensions, right.extraShape.dimensions] shape ∧
          CountFits left.pencil shape) ∧
    (∀ left right : PencilArrayView α N M,
      ((∃ plan, mapPlan grantAll left right = .ok plan) ↔
        ∃ plan, manyPlan grantAll (fun _ => true) [left, right] = .ok plan) ∧
      ∀ (grants grants' : ℕ → Bool) (congruent : MpiTopology M → Bool) (plan : MapPlan)
        (plan' : ManyPlan), mapPlan grants left right = .ok plan →
        manyPlan grants' congruent [left, right] = .ok plan' →
        forEachMany [left, right] plan'
          = (forEachPair left right plan).map (List.map fun q => [q.1, q.2])) ∧
    (∀ a b d : PencilArrayView α N M,
      ((∃ plan, mapPlan3 grantAll (fun _ => true) a b d = .ok plan) ↔
        ∃ plan, manyPlan grantAll (fun _ => true) [a, b, d] = .ok plan) ∧
      ∀ (grants grants' : ℕ → Bool) (congruent congruent' : MpiTopology M → Bool)
        (plan : MapPlan3) (plan' : ManyPlan), mapPlan3 grants congruent a b d = .ok plan →
        manyPlan grants' congruent' [a, b, d] = .ok plan' →
        forEachMany [a, b, d] plan'
          = (forEachTriple a b d plan).map (List.map fun q => [q.1, q.2.1, q.2.2])) := by
  refine ⟨fun _ _ _ _ h => forEachPair_presents h, fun _ _ _ _ _ _ h => forEachTriple_presents h,
    fun _ _ _ _ _ h => forEachMany_presents h,
    fun _ _ _ _ _ _ _ h => pointwise2Views_writesOutput h,
    fun _ _ _ _ _ _ _ _ h => pointwise3Views_writesOutput h,
    fun _ _ _ _ _ _ h => pointwiseManyViews_writesOutput h,
    fun _ _ f state hne h => pointwiseManyViews_exists hne h f state, fun left right => ?_,
    fun left right => ?_, fun a b d => ?_⟩
  · rw [mapPlan_exists_iff]
    constructor
    · rintro ⟨hp, shape, hshape, hfits⟩
      exact ⟨hp, shape, broadcastShape_isBroadcast hshape, hfits⟩
    · rintro ⟨hp, shape, hshape, hfits⟩
      exact ⟨hp, shape, broadcastShape_eq hshape, hfits⟩
  · exact ⟨pair_plan_iff, fun _ _ _ _ _ h h' => pair_presents_many h h'⟩
  · exact ⟨triple_plan_iff, fun _ _ _ _ _ _ h h' => triple_presents_many h h'⟩

end PencilRs.Analysis
