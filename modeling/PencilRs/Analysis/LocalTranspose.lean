import PencilRs.Analysis.ActiveArray
import PencilRs.Analysis.Gather
import PencilRs.Model.LocalTranspose

/-!
# Permuting the local block

Two layouts of one distribution put the same elements at different places.  The transpose writes
each of them once.
-/

set_option autoImplicit false

namespace PencilRs.Analysis

open PencilRs.Computation PencilRs.Model

variable {N M : ℕ} {K : Type}

/-! ## Places -/

/-- The local position of element number `linear` of a block. -/
def linearPosition (p : Pencil N M) (linear : ℕ) : Fin N → ℕ :=
  MixedRadix.digit p.localShapeLogical (axesFastestFirst N) (linear % p.localLen)

section Places

variable {p q : Pencil N M} {linear E : ℕ}

theorem localLen_size (p : Pencil N M) :
    MixedRadix.size p.localShapeLogical (axesFastestFirst N) = p.localLen := by
  rw [size_axesFastestFirst, localLen_eq]

theorem localLen_pos_of_lt (h : linear < E * p.localLen) : 0 < p.localLen := by
  refine Nat.pos_of_ne_zero fun hzero => ?_
  rw [hzero, Nat.mul_zero] at h
  omega

theorem validLocal_linearPosition (linear : ℕ) (h : 0 < p.localLen) :
    ValidLocal p (linearPosition p linear) := by
  intro axis
  refine MixedRadix.digit_lt _ (fun a _ => ?_) axis (mem_axesFastestFirst axis)
  exact MixedRadix.radix_pos (by rw [localLen_size]; exact h) a (mem_axesFastestFirst a)

theorem value_linearPosition (h : 0 < p.localLen) :
    MixedRadix.value p.localShapeLogical (linearPosition p linear) (axesFastestFirst N)
      = linear % p.localLen :=
  MixedRadix.value_digit nodup_axesFastestFirst (by rw [localLen_size]; exact Nat.mod_lt _ h)

/-- The number of an element. -/
theorem exists_linear {e : ℕ} {x : Fin N → ℕ} (he : e < E) (hx : ValidLocal p x) :
    ∃ linear < E * p.localLen, linear / p.localLen = e ∧ linearPosition p linear = x := by
  have hvalue := MixedRadix.value_lt_size (l := axesFastestFirst N) (e := p.localShapeLogical)
    (c := x) fun a _ => hx a
  rw [localLen_size] at hvalue
  have hpos : 0 < p.localLen := by omega
  refine ⟨e * p.localLen + MixedRadix.value p.localShapeLogical x (axesFastestFirst N),
    ?_, ?_, ?_⟩
  · have hend := extra_end_le p.localLen he
    omega
  · rw [Nat.mul_comm, Nat.mul_add_div hpos, Nat.div_eq_of_lt hvalue, Nat.add_zero]
  · unfold linearPosition
    rw [Nat.mul_comm, Nat.mul_add_mod, Nat.mod_eq_of_lt hvalue]
    funext axis
    exact MixedRadix.digit_value nodup_axesFastestFirst (fun a _ => hx a) axis
      (mem_axesFastestFirst axis)

/-- The place of element number `linear` of the source block in another layout. -/
def placeIn (source p : Pencil N M) (linear : ℕ) : ℕ :=
  linear / source.localLen * p.localLen + layoutOffset p (linearPosition source linear)

theorem sameDistribution_self (p : Pencil N M) : p.sameDistribution p = true := by
  simp [Pencil.sameDistribution, Pencil.sameTopology]

theorem sameDistribution_symm (h : p.sameDistribution q = true) :
    q.sameDistribution p = true := by
  simp only [Pencil.sameDistribution, Pencil.sameTopology, Bool.and_eq_true,
    decide_eq_true_eq] at h ⊢
  exact ⟨⟨h.1.1.symm, h.1.2.symm⟩, h.2.symm⟩

theorem localRanges_of_sameDistribution (h : p.sameDistribution q = true) :
    p.localRanges = q.localRanges := by
  simp only [Pencil.sameDistribution, Pencil.sameTopology, Bool.and_eq_true,
    decide_eq_true_eq] at h
  obtain ⟨⟨htopology, hshape⟩, hdecomposition⟩ := h
  rw [localRanges_eq, localRanges_eq, htopology, hshape, hdecomposition]

theorem localShape_of_sameDistribution (h : p.sameDistribution q = true) :
    p.localShapeLogical = q.localShapeLogical ∧ p.localLen = q.localLen := by
  have hshape : p.localShapeLogical = q.localShapeLogical := by
    rw [p.localShapeLogical_eq, q.localShapeLogical_eq, localRanges_of_sameDistribution h]
  exact ⟨hshape, by rw [localLen_eq, localLen_eq, hshape]⟩

theorem validLocal_of_sameDistribution (h : p.sameDistribution q = true) {x : Fin N → ℕ} :
    ValidLocal p x ↔ ValidLocal q x := by
  unfold ValidLocal
  rw [(localShape_of_sameDistribution h).1]

theorem placeIn_lt (h : p.sameDistribution q = true) (hlinear : linear < E * p.localLen) :
    placeIn p q linear < E * p.localLen := by
  have hpos := localLen_pos_of_lt hlinear
  have hvalid := (validLocal_of_sameDistribution h).mp (validLocal_linearPosition linear hpos)
  have he : linear / p.localLen < E := Nat.div_lt_of_lt_mul (by rwa [Nat.mul_comm])
  calc placeIn p q linear < E * q.localLen := element_lt he hvalid
    _ = E * p.localLen := by rw [(localShape_of_sameDistribution h).2]

theorem placeIn_inj (h : p.sameDistribution q = true) {linear' : ℕ} (hpos : 0 < p.localLen)
    (heq : placeIn p q linear = placeIn p q linear') : linear = linear' := by
  have hvalid := fun linear => (validLocal_of_sameDistribution h).mp (validLocal_linearPosition linear hpos)
  have hlt := layoutOffset_lt (hvalid linear)
  have hlt' := layoutOffset_lt (hvalid linear')
  unfold placeIn at heq
  have hdiv := congrArg (· / q.localLen) heq
  have hmod := congrArg (· % q.localLen) heq
  simp only [Nat.mul_comm _ q.localLen, Nat.mul_add_div (Nat.zero_lt_of_lt hlt),
    Nat.div_eq_of_lt hlt, Nat.div_eq_of_lt hlt', Nat.add_zero] at hdiv
  simp only [Nat.mul_comm _ q.localLen, Nat.mul_add_mod, Nat.mod_eq_of_lt hlt,
    Nat.mod_eq_of_lt hlt'] at hmod
  have hposition := layoutOffset_inj (hvalid linear) (hvalid linear') hmod
  have hrest : linear % p.localLen = linear' % p.localLen := by
    rw [← value_linearPosition hpos, ← value_linearPosition hpos, hposition]
  rw [← Nat.div_add_mod linear p.localLen, ← Nat.div_add_mod linear' p.localLen, hdiv, hrest]

/-- The loop over the axes computes both places. -/
theorem logicalOffsets_eq (h : p.sameDistribution q = true) (hlinear : linear < E * p.localLen)
    (hfit : E * p.localLen < usizeLimit) :
    logicalOffsets p q linear = .ok (placeIn p p linear, placeIn p q linear) := by
  have hpos := localLen_pos_of_lt hlinear
  have hvalid := validLocal_linearPosition linear hpos
  have hvalid' := (validLocal_of_sameDistribution h).mp hvalid
  obtain ⟨indices, rest, hsplit, hdigits, _⟩ := foldlM_splitOffset nodup_axesFastestFirst
    (fun axis _ => MixedRadix.radix_pos (by rw [localLen_size]; exact hpos) axis
      (mem_axesFastestFirst axis)) (fun _ => 0) (linear % p.localLen)
  obtain rfl : indices = linearPosition p linear :=
    funext fun axis => hdigits axis (mem_axesFastestFirst axis)
  have hplace : ∀ r : Pencil N M, p.sameDistribution r = true →
      ((checkedMul (linear / p.localLen) r.localLen).bind fun base =>
        checkedAdd base (layoutOffset r (linearPosition p linear))) = some (placeIn p r linear) := by
    intro r hr
    have hlt := placeIn_lt hr hlinear
    unfold placeIn at hlt ⊢
    rw [Option.bind_eq_some_iff]
    exact ⟨_, checkedMul_eq_some.mpr ⟨by omega, rfl⟩, checkedAdd_eq_some.mpr ⟨by omega, rfl⟩⟩
  unfold logicalOffsets
  refine bind_eq_ok.mpr ⟨_, okOr_eq_ok.mpr (if_neg hpos.ne'), bind_eq_ok.mpr
    ⟨_, okOr_eq_ok.mpr (if_neg hpos.ne'), bind_eq_ok.mpr ⟨_, okOr_eq_ok.mpr hsplit,
      bind_eq_ok.mpr ⟨_, ?_, bind_eq_ok.mpr ⟨_, ?_, bind_eq_ok.mpr ⟨_, okOr_eq_ok.mpr
          (hplace p (sameDistribution_self p)),
        bind_eq_ok.mpr ⟨_, okOr_eq_ok.mpr (hplace q h), rfl⟩⟩⟩⟩⟩⟩⟩
  · show (rowMajorOffset _ _).mapError _ = _
    rw [rowMajorOffset_memory hvalid]
    rfl
  · show (rowMajorOffset _ _).mapError _ = _
    rw [rowMajorOffset_memory hvalid']
    rfl

end Places

/-! ## The transpose -/

section Transpose

variable {plan : LocalTransposePlan N M} {E : ℕ}

/-- The loop that checks the places finds all of them inside. -/
theorem offsetChecks_eq (h : plan.source.sameDistribution plan.destination = true)
    {sourceLen destinationLen : ℕ} (hsource : sourceLen = E * plan.source.localLen)
    (hdestination : destinationLen = E * plan.source.localLen)
    (hfit : E * plan.source.localLen < usizeLimit) (error : Stop LocalTransposeError) :
    (List.range (E * plan.source.localLen)).foldlM (fun _ linear => do
      let (sourceOffset, destinationOffset) ←
        LocalTransposePlan.ofArray (logicalOffsets plan.source plan.destination linear)
      ensure (sourceOffset < sourceLen && destinationOffset < destinationLen) error) ()
      = .ok () := by
  apply foldlM_check_eq_ok.mpr
  intro linear hmem
  have hlinear := List.mem_range.mp hmem
  refine bind_eq_ok.mpr ⟨(placeIn plan.source plan.source linear,
    placeIn plan.source plan.destination linear), ?_, ?_⟩
  · rw [logicalOffsets_eq h hlinear hfit]
    rfl
  · simp [hsource, hdestination, placeIn_lt h hlinear,
      placeIn_lt (sameDistribution_self plan.source) hlinear]

theorem validateSource_eq (h : plan.source.sameDistribution plan.destination = true)
    {view : PencilArrayView K N M} (hlen : view.storage.length = E * plan.source.localLen)
    (hfit : E * plan.source.localLen < usizeLimit) :
    plan.validateSource view (E * plan.source.localLen) = .ok () := by
  unfold LocalTransposePlan.validateSource
  refine bind_eq_ok.mpr ⟨(), ?_, offsetChecks_eq h hlen rfl hfit _⟩
  simp [hlen]

/-- The loop that writes the block back moves every element. -/
theorem writeSteps_eq (h : plan.source.sameDistribution plan.destination = true)
    (hfit : E * plan.source.localLen < usizeLimit) {staged storage : List K}
    (hstaged : E * plan.source.localLen ≤ staged.length)
    (hstorage : E * plan.source.localLen ≤ storage.length) :
    ∃ result, (List.range (E * plan.source.localLen)).foldlM (plan.writeStep staged) storage
        = .ok result ∧ result.length = storage.length ∧
      (∀ linear < E * plan.source.localLen, result[placeIn plan.source plan.destination linear]?
        = staged[placeIn plan.source plan.source linear]?) ∧
      result.drop (E * plan.source.localLen) = storage.drop (E * plan.source.localLen) := by
  obtain ⟨result, hresult, hlen, hplaces, hrest⟩ := foldlM_range_inv
    (m := Except (Stop LocalTransposeError)) (plan.writeStep staged)
    (fun done current => current.length = storage.length ∧ (∀ linear < done,
      current[placeIn plan.source plan.destination linear]?
        = staged[placeIn plan.source plan.source linear]?) ∧
      current.drop (E * plan.source.localLen) = storage.drop (E * plan.source.localLen))
    (E * plan.source.localLen) storage ⟨rfl, fun _ hlt => absurd hlt (by omega), rfl⟩ (by
      rintro linear hlinear current ⟨hlen, hplaces, hrest⟩
      have hsource := placeIn_lt (sameDistribution_self plan.source) hlinear
      have hdestination := placeIn_lt h hlinear
      have hread := List.getElem?_eq_getElem
        (show placeIn plan.source plan.source linear < staged.length by omega)
      refine ⟨current.set (placeIn plan.source plan.destination linear)
        (staged.get ⟨placeIn plan.source plan.source linear, by omega⟩), ?_,
        (List.length_set ..).trans hlen, ?_, ?_⟩
      · unfold LocalTransposePlan.writeStep
        refine bind_eq_ok.mpr ⟨(placeIn plan.source plan.source linear,
          placeIn plan.source plan.destination linear), ?_, bind_eq_ok.mpr ⟨(), ?_, bind_eq_ok.mpr
            ⟨_, okOr_eq_ok.mpr hread, rfl⟩⟩⟩
        · rw [logicalOffsets_eq h hlinear hfit]
          rfl
        · rw [ensure_eq_ok, decide_eq_true_eq]
          omega
      · intro earlier hearlier
        by_cases hlast : earlier = linear
        · subst hlast
          rw [List.getElem?_set_self (by omega), hread]
          rfl
        · rw [List.getElem?_set_ne fun heq => hlast (placeIn_inj h
            (localLen_pos_of_lt hlinear) heq).symm]
          exact hplaces earlier (by omega)
      · rw [List.drop_set_of_lt hdestination]
        exact hrest)
  exact ⟨result, hresult, hlen, hplaces, hrest⟩

variable {registry : List (Pencil N M)} {extraShape : ExtraShape}
  {array : ℕ → (Fin N → ℕ) → K} {shared : ManyPencilArray K N M}

variable (plan) in
/-- **The local transpose** keeps what the array holds. -/
theorem localTranspose_eq (h : plan.source.sameDistribution plan.destination = true)
    (hactive : ActiveHolds registry extraShape plan.source array shared)
    (hdestination : plan.destination ∈ registry) {workspace : TransposeWorkspace K}
    (hworkspace : extraShape.elementCount * plan.source.localLen ≤ workspace.sendBuffer.length) :
    ∃ after, plan.executeInPlaceWithTransposeWorkspace shared workspace = .ok after ∧
      ActiveHolds registry extraShape plan.destination array after := by
  obtain ⟨view, hview, hviewStorage, hviewLen, hfit⟩ := hactive.activeView
  obtain ⟨index, hstate, hpencil⟩ := hactive.active
  rw [← hactive.pencils_eq] at hpencil
  obtain ⟨target, htarget⟩ := findLayout_isSome (hactive.pencils_eq ▸ hdestination)
  have hproduct : checkedProduct [plan.source.localLen, shared.extraShape.elementCount]
      = .ok (extraShape.elementCount * plan.source.localLen) := by
    apply checkedProduct_eq_ok.mpr
    simp only [hactive.extraShape_eq, List.prod_cons, List.prod_nil, Nat.mul_one,
      Nat.mul_comm plan.source.localLen, true_and]
    exact hfit
  have hvalid : plan.validateInPlace shared
      = .ok (target, extraShape.elementCount * plan.source.localLen) := by
    unfold LocalTransposePlan.validateInPlace
    refine bind_eq_ok.mpr ⟨index, ?_, bind_eq_ok.mpr ⟨plan.source, okOr_eq_ok.mpr hpencil,
      bind_eq_ok.mpr ⟨(), ?_, bind_eq_ok.mpr ⟨target, okOr_eq_ok.mpr htarget,
        bind_eq_ok.mpr ⟨_, ?_, rfl⟩⟩⟩⟩⟩
    · rw [activeIndex_valid hstate]
      rfl
    · simp
    · rw [hproduct]
      rfl
  have hle : extraShape.elementCount * plan.source.localLen ≤ shared.storage.length := by
    have hfits := (layout_fits shared (List.mem_of_getElem? hpencil)).1
    rwa [hactive.extraShape_eq] at hfits
  have hstaged : (workspace.sendBuffer.take (extraShape.elementCount * plan.source.localLen)).drop
      view.storage.length = [] := by
    rw [hviewLen]
    exact List.drop_eq_nil_of_le (List.length_take_le ..)
  obtain ⟨result, hresult, hresultLen, hplaces, _⟩ := writeSteps_eq h hfit hviewLen.ge hle
  obtain ⟨guard, hguard, hbegun⟩ := beginInPlaceWrite_eq hstate
  obtain ⟨written, hwritten, hrewritten⟩ := writeStorage_eq
    (show result.length = guard.storage.length by rw [hresultLen, hbegun.storage])
  have htargetLt : target < written.pencils.length := by
    rw [hrewritten.pencils, hbegun.pencils]
    exact (List.getElem?_eq_some_iff.mp (findLayout_eq_some htarget)).1
  obtain ⟨after, hafter, hcommitted⟩ := commit_eq htargetLt
  refine ⟨after, ?_, ?_, ?_, ⟨target, hcommitted.state, ?_⟩, ?_⟩
  · unfold LocalTransposePlan.executeInPlaceWithTransposeWorkspace
    refine bind_eq_ok.mpr ⟨_, hvalid, bind_eq_ok.mpr ⟨(), ?_, bind_eq_ok.mpr ⟨view, ?_,
      bind_eq_ok.mpr ⟨(), validateSource_eq h hviewLen hfit, ?_⟩⟩⟩⟩
    · rw [ensure_eq_ok, decide_eq_true_eq]
      exact hworkspace
    · rw [hview]
      rfl
    · rw [hstaged, List.append_nil]
      unfold LocalTransposePlan.writeStagedInPlace
      refine bind_eq_ok.mpr ⟨guard, ?_, bind_eq_ok.mpr ⟨result, ?_, bind_eq_ok.mpr
        ⟨written, okOr_eq_ok.mpr hwritten, ?_⟩⟩⟩
      · rw [hguard]
        rfl
      · rw [hbegun.storage]
        exact hresult
      · rw [hafter]
        rfl
  · rw [hcommitted.pencils, hrewritten.pencils, hbegun.pencils]
    exact hactive.pencils_eq
  · rw [hcommitted.extraShape, hrewritten.extraShape, hbegun.extraShape]
    exact hactive.extraShape_eq
  · rw [← hactive.pencils_eq]
    exact findLayout_eq_some htarget
  · rw [hcommitted.storage, hrewritten.storage]
    intro e he x hx
    have hxSource := (validLocal_of_sameDistribution h).mpr hx
    obtain ⟨linear, hlinear, rfl, rfl⟩ := exists_linear he hxSource
    have hplace := hplaces linear hlinear
    unfold placeIn at hplace
    rw [hplace, hviewStorage, List.getElem?_take_of_lt (element_lt he hxSource),
      hactive.holds _ he _ hxSource]
    unfold toGlobal
    rw [localRanges_of_sameDistribution h]

end Transpose

end PencilRs.Analysis
