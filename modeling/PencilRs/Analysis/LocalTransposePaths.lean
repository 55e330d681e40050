import PencilRs.Analysis.LocalTranspose
import PencilRs.Analysis.OwnedArray

/-!
# The ways to permute the local block

The transpose between two views and the two transposes of a shared array stage their source in
different memory.  They accept the same arguments, move each element to the same place, undo
each other, and leave everything as it was where they refuse.
-/

set_option autoImplicit false

namespace PencilRs.Analysis

open PencilRs.Computation PencilRs.Model

variable {N M : ℕ} {K S : Type}

/-! ## Blocks in two layouts -/

/-- Each element of the block of `p` is at its place in the block of `q`. -/
def TransposedBlock (p q : Pencil N M) (E : ℕ) (before after : List K) : Prop :=
  ∀ e < E, ∀ x, ValidLocal p x →
    after[e * q.localLen + layoutOffset q x]? = before[e * p.localLen + layoutOffset p x]?

section Blocks

variable {p q : Pencil N M} {E : ℕ} {before after after' : List K}

theorem TransposedBlock.symm (h : TransposedBlock p q E before after)
    (hsame : p.sameDistribution q = true) : TransposedBlock q p E after before := by
  intro e he x hx
  exact (h e he x ((validLocal_of_sameDistribution hsame).mpr hx)).symm

/-- The source settles the block of the destination. -/
theorem TransposedBlock.unique (h : TransposedBlock p q E before after)
    (h' : TransposedBlock p q E before after') (hsame : p.sameDistribution q = true) :
    after.take (E * q.localLen) = after'.take (E * q.localLen) := by
  apply List.ext_getElem?
  intro place
  by_cases hplace : place < E * q.localLen
  · obtain ⟨e, he, x, hx, rfl⟩ := exists_blockElement hplace
    have hx := (validLocal_of_sameDistribution hsame).mpr hx
    rw [List.getElem?_take_of_lt hplace, List.getElem?_take_of_lt hplace, h e he x hx, h' e he x hx]
  · rw [List.getElem?_take_eq_none (by omega), List.getElem?_take_eq_none (by omega)]

theorem TransposedBlock.take (h : TransposedBlock p q E before after)
    (hsame : p.sameDistribution q = true) :
    TransposedBlock p q E (before.take (E * p.localLen)) (after.take (E * p.localLen)) := by
  intro e he x hx
  have hx' := (validLocal_of_sameDistribution hsame).mp hx
  have hlt : e * q.localLen + layoutOffset q x < E * p.localLen := by
    rw [(localShape_of_sameDistribution hsame).2]
    exact element_lt he hx'
  rw [List.getElem?_take_of_lt hlt, List.getElem?_take_of_lt (element_lt he hx), h e he x hx]

/-- What the loop over the elements leaves is the transposed block. -/
theorem transposedBlock_of_places (hplaces : ∀ linear < E * p.localLen,
      after[placeIn p q linear]? = before[placeIn p p linear]?) :
    TransposedBlock p q E before after := by
  intro e he x hx
  obtain ⟨linear, hlinear, rfl, rfl⟩ := exists_linear he hx
  exact hplaces linear hlinear

end Blocks

/-! ## Between two views -/

section Views

variable {plan : LocalTransposePlan N M} {E : ℕ}

theorem writeLoop_of_ok {staged result : List K} {linears : List ℕ} {storage : List K}
    (h : linears.foldlM (plan.writeStep staged) storage = .ok result) :
    plan.writeLoop staged linears storage = (result, .ok ()) := by
  induction linears generalizing storage with
  | nil =>
    cases h
    rfl
  | cons linear rest ih =>
    rw [List.foldlM_cons] at h
    obtain ⟨next, hnext, hrest⟩ := bind_eq_ok.mp h
    unfold LocalTransposePlan.writeLoop
    rw [hnext]
    exact ih hrest

/-- The writes of a whole block. -/
theorem writeLoop_eq (h : plan.source.sameDistribution plan.destination = true)
    (hfit : E * plan.source.localLen < usizeLimit) {staged storage : List K}
    (hstaged : E * plan.source.localLen ≤ staged.length)
    (hstorage : E * plan.source.localLen ≤ storage.length) :
    ∃ result, plan.writeLoop staged (List.range (E * plan.source.localLen)) storage
        = (result, .ok ()) ∧ result.length = storage.length ∧
      TransposedBlock plan.source plan.destination E staged result ∧
      result.drop (E * plan.source.localLen) = storage.drop (E * plan.source.localLen) := by
  obtain ⟨result, hresult, hlen, hplaces, hrest⟩ := writeSteps_eq h hfit hstaged hstorage
  exact ⟨result, writeLoop_of_ok hresult, hlen, transposedBlock_of_places hplaces, hrest⟩

/-- The views are in the layouts of the plan and have one extra shape. -/
def ViewsFit (p q : Pencil N M) (source destination : PencilArrayView K N M) : Prop :=
  source.pencil = p ∧ destination.pencil = q ∧ source.extraShape = destination.extraShape

theorem requiredLen_eq {p : Pencil N M} {extraShape : ExtraShape}
    (hfit : extraShape.elementCount * p.localLen < usizeLimit) :
    checkedProduct [p.localLen, extraShape.elementCount]
      = .ok (extraShape.elementCount * p.localLen) := by
  apply checkedProduct_eq_ok.mpr
  simp only [List.prod_cons, List.prod_nil, Nat.mul_one, Nat.mul_comm p.localLen, true_and]
  exact hfit

theorem validateViews_eq (h : plan.source.sameDistribution plan.destination = true)
    {source destination : PencilArrayView K N M}
    (hviews : ViewsFit plan.source plan.destination source destination) :
    plan.validateViews source destination
      = .ok (source.extraShape.elementCount * plan.source.localLen) := by
  obtain ⟨hsource, hdestination, hextra⟩ := hviews
  have hsourceLen := view_storage_length source
  have hdestinationLen := view_storage_length destination
  have hfit := view_fits source
  rw [hsource] at hsourceLen hfit
  rw [hdestination, ← hextra, ← (localShape_of_sameDistribution h).2] at hdestinationLen
  unfold LocalTransposePlan.validateViews
  refine bind_eq_ok.mpr ⟨(), ?_, bind_eq_ok.mpr ⟨(), ?_, bind_eq_ok.mpr ⟨(), ?_,
    bind_eq_ok.mpr ⟨_, ?_, bind_eq_ok.mpr ⟨(), ?_, bind_eq_ok.mpr ⟨(), ?_,
      bind_eq_ok.mpr ⟨(), offsetChecks_eq h hsourceLen hdestinationLen hfit _, rfl⟩⟩⟩⟩⟩⟩⟩
  · rw [ensure_eq_ok, hsource]
    exact Pencil.sameLayout_self plan.source
  · rw [ensure_eq_ok, hdestination]
    exact Pencil.sameLayout_self plan.destination
  · rw [ensure_eq_ok, decide_eq_true_eq]
    exact hextra
  · rw [requiredLen_eq hfit]
    rfl
  · rw [ensure_eq_ok, decide_eq_true_eq]
    exact hsourceLen
  · rw [ensure_eq_ok, decide_eq_true_eq]
    exact hdestinationLen

theorem validateViews_error {source destination : PencilArrayView K N M}
    (hviews : ¬ViewsFit plan.source plan.destination source destination) :
    ∃ e, plan.validateViews source destination = .error (.error e) := by
  unfold LocalTransposePlan.validateViews
  by_cases hsource : source.pencil.sameLayout plan.source = true
  · by_cases hdestination : destination.pencil.sameLayout plan.destination = true
    · have hextra : source.extraShape ≠ destination.extraShape := fun hextra => hviews
        ⟨Pencil.eq_of_sameLayout hsource, Pencil.eq_of_sameLayout hdestination, hextra⟩
      refine ⟨.extraShapeMismatch, ?_⟩
      simp [hsource, hdestination, hextra, bind, Except.bind]
    · refine ⟨.destinationLayoutMismatch, ?_⟩
      simp [hsource, hdestination, bind, Except.bind]
  · refine ⟨.sourceLayoutMismatch, ?_⟩
    simp [hsource, bind, Except.bind]

/-- **The transpose between two views**, where it accepts them and where it does not. -/
theorem executeViews_eq (h : plan.source.sameDistribution plan.destination = true)
    (source destination : PencilArrayView K N M) :
    (ViewsFit plan.source plan.destination source destination →
      ∃ written, plan.executeViews source destination = (written, .ok ()) ∧
        written.length = destination.storage.length ∧
        TransposedBlock plan.source plan.destination source.extraShape.elementCount
          source.storage written) ∧
    (¬ViewsFit plan.source plan.destination source destination →
      ∃ e, plan.executeViews source destination = (destination.storage, .error (.error e))) := by
  constructor
  · intro hviews
    have hvalid := validateViews_eq h hviews
    obtain ⟨hsource, hdestination, hextra⟩ := hviews
    have hsourceLen := view_storage_length source
    have hdestinationLen := view_storage_length destination
    have hfit := view_fits source
    rw [hsource] at hsourceLen hfit
    rw [hdestination, ← hextra, ← (localShape_of_sameDistribution h).2] at hdestinationLen
    obtain ⟨written, hwritten, hlen, hblock, _⟩ :=
      writeLoop_eq h hfit hsourceLen.ge hdestinationLen.ge
    refine ⟨written, ?_, hlen, hblock⟩
    unfold LocalTransposePlan.executeViews
    rw [hvalid]
    exact hwritten
  · intro hviews
    obtain ⟨e, he⟩ := validateViews_error hviews
    refine ⟨e, ?_⟩
    unfold LocalTransposePlan.executeViews
    rw [he]

end Views

/-! ## In a shared array -/

/-- The array shows the source layout, knows the destination layout, and the scratch has room
for the block. -/
def InPlaceFits (p q : Pencil N M) (array : ManyPencilArray K N M) (room : ℕ) : Prop :=
  (∃ index, array.state = .valid index ∧ array.pencils[index]? = some p) ∧ q ∈ array.pencils ∧
    array.extraShape.elementCount * p.localLen ≤ room

/-- The array shows the block in the destination layout; the rest of the storage is kept. -/
structure ShowsTransposed (p q : Pencil N M) (array after : ManyPencilArray K N M) : Prop where
  pencils : after.pencils = array.pencils
  extraShape : after.extraShape = array.extraShape
  active : ∃ index, after.state = .valid index ∧ after.pencils[index]? = some q
  length : after.storage.length = array.storage.length
  block : TransposedBlock p q array.extraShape.elementCount array.storage after.storage
  rest : after.storage.drop (array.extraShape.elementCount * p.localLen)
    = array.storage.drop (array.extraShape.elementCount * p.localLen)

/-- What a transpose in place does, with a scratch of some kind. -/
structure TransposesInPlace (p q : Pencil N M) (room : S → ℕ)
    (run : ManyPencilArray K N M → S →
      ManyPencilArray K N M × S × Except (Stop LocalTransposeError) Unit) : Prop where
  accepts : ∀ array scratch, InPlaceFits p q array (room scratch) → ∃ after scratch',
    run array scratch = (after, scratch', .ok ()) ∧ ShowsTransposed p q array after ∧
      room scratch' = room scratch
  refuses : ∀ array scratch, ¬InPlaceFits p q array (room scratch) →
    ∃ e, run array scratch = (array, scratch, .error (.error e))

section InPlace

variable {plan : LocalTransposePlan N M} {array : ManyPencilArray K N M}

/-- The layouts of an array differ. -/
theorem layoutIndex_unique {p : Pencil N M} {i j : ℕ} (hi : array.pencils[i]? = some p)
    (hj : array.pencils[j]? = some p) : i = j := by
  have hapart : ∀ i j : ℕ, i < j → array.pencils[i]? = some p → array.pencils[j]? ≠ some p := by
    intro i j hlt hi hj
    obtain ⟨active, hregistry⟩ := array.registry_ok
    unfold validateRegistry at hregistry
    cases hpencils : array.pencils with
    | nil =>
      rw [hpencils] at hi
      contradiction
    | cons first rest =>
      rw [hpencils] at hregistry hi hj
      simp only at hregistry
      split at hregistry
      · contradiction
      split at hregistry
      · contradiction
      split at hregistry
      · contradiction
      rename_i hdistinct
      refine hdistinct (List.any_eq_true.mpr ⟨j, ?_, ?_⟩)
      · exact List.mem_range.mpr (List.getElem?_eq_some_iff.mp hj).1
      · rw [hj]
        exact List.any_eq_true.mpr ⟨p, List.mem_iff_getElem?.mpr
          ⟨i, by rw [List.getElem?_take_of_lt hlt, hi]⟩, Pencil.sameLayout_self p⟩
  rcases Nat.lt_trichotomy i j with hlt | heq | hgt
  · exact absurd hj (hapart i j hlt hi)
  · exact heq
  · exact absurd hi (hapart j i hgt hj)

theorem validateInPlace_eq {room : ℕ} (h : InPlaceFits plan.source plan.destination array room) :
    ∃ target, array.pencils[target]? = some plan.destination ∧ plan.validateInPlace array
      = .ok (target, array.extraShape.elementCount * plan.source.localLen) := by
  obtain ⟨⟨index, hstate, hpencil⟩, hdestination, _⟩ := h
  obtain ⟨target, htarget⟩ := findLayout_isSome hdestination
  obtain ⟨hle, hlt⟩ := layout_fits array (List.mem_of_getElem? hpencil)
  refine ⟨target, findLayout_eq_some htarget, ?_⟩
  unfold LocalTransposePlan.validateInPlace
  refine bind_eq_ok.mpr ⟨index, ?_, bind_eq_ok.mpr ⟨plan.source, okOr_eq_ok.mpr hpencil,
    bind_eq_ok.mpr ⟨(), ?_, bind_eq_ok.mpr ⟨target, okOr_eq_ok.mpr htarget,
      bind_eq_ok.mpr ⟨_, ?_, rfl⟩⟩⟩⟩⟩
  · rw [activeIndex_valid hstate]
    rfl
  · rw [ensure_eq_ok]
    exact Pencil.sameLayout_self plan.source
  · rw [requiredLen_eq (hle.trans_lt hlt)]
    rfl

variable (plan array) in
/-- The checks end with an error, or what they hand on is what the array has. -/
theorem validateInPlace_cases :
    (∃ e, plan.validateInPlace array = .error (.error e)) ∨
      ((∃ index, array.state = .valid index ∧ array.pencils[index]? = some plan.source) ∧
        plan.destination ∈ array.pencils) := by
  cases hstate : array.state with
  | poisoned =>
    refine .inl ⟨.array .poisoned, ?_⟩
    unfold LocalTransposePlan.validateInPlace
    rw [activeIndex_poisoned hstate]
    rfl
  | valid index =>
    obtain ⟨active, hactive⟩ : ∃ active, array.pencils[index]? = some active :=
      ⟨_, List.getElem?_eq_getElem (array.state_ok index hstate)⟩
    by_cases hsame : active.sameLayout plan.source = true
    · cases htarget : array.findLayout plan.destination with
      | none =>
        refine .inl ⟨.destinationLayoutMismatch, ?_⟩
        unfold LocalTransposePlan.validateInPlace
        rw [activeIndex_valid hstate]
        simp [hactive, hsame, htarget, bind, Except.bind, Except.mapError, okOr]
      | some target =>
        refine .inr ⟨⟨index, rfl, ?_⟩, List.mem_of_getElem? (findLayout_eq_some htarget)⟩
        rw [hactive, Pencil.eq_of_sameLayout hsame]
    · refine .inl ⟨.sourceLayoutMismatch, ?_⟩
      unfold LocalTransposePlan.validateInPlace
      rw [activeIndex_valid hstate]
      simp [hactive, hsame, bind, Except.bind, Except.mapError, okOr]

/-- The view that is staged. -/
theorem stagedSource_eq (h : plan.source.sameDistribution plan.destination = true) {room : ℕ}
    (hfits : InPlaceFits plan.source plan.destination array room) :
    ∃ target view, array.pencils[target]? = some plan.destination ∧ plan.stagedSource array room
        = .ok (target, array.extraShape.elementCount * plan.source.localLen, view) ∧
      view.storage = array.storage.take (array.extraShape.elementCount * plan.source.localLen) ∧
      view.storage.length = array.extraShape.elementCount * plan.source.localLen := by
  obtain ⟨target, htarget, hvalid⟩ := validateInPlace_eq hfits
  obtain ⟨⟨index, hstate, hpencil⟩, _, hroom⟩ := hfits
  obtain ⟨hle, hlt⟩ := layout_fits array (List.mem_of_getElem? hpencil)
  obtain ⟨view, hview, _, _, hstorage⟩ := viewOf_eq array hpencil
  have hlen : view.storage.length = array.extraShape.elementCount * plan.source.localLen := by
    rw [hstorage, List.length_take_of_le hle]
  refine ⟨target, view, htarget, ?_, hstorage, hlen⟩
  unfold LocalTransposePlan.stagedSource
  refine bind_eq_ok.mpr ⟨_, hvalid, bind_eq_ok.mpr ⟨(), ?_, bind_eq_ok.mpr ⟨view, ?_,
    bind_eq_ok.mpr ⟨(), validateSource_eq h hlen (hle.trans_lt hlt), rfl⟩⟩⟩⟩
  · rw [ensure_eq_ok, decide_eq_true_eq]
    exact hroom
  · unfold ManyPencilArray.activeView
    rw [activeIndex_valid hstate]
    show (array.viewOf index).mapError _ = _
    rw [hview]
    rfl

theorem stagedSource_error {room : ℕ}
    (h : ¬InPlaceFits plan.source plan.destination array room) :
    ∃ e, plan.stagedSource array room = .error (.error e) := by
  unfold LocalTransposePlan.stagedSource
  rcases validateInPlace_cases plan array with ⟨e, he⟩ | ⟨hactive, hregistered⟩
  · refine ⟨e, ?_⟩
    rw [he]
    rfl
  · have hroom : ¬array.extraShape.elementCount * plan.source.localLen ≤ room :=
      fun hroom => h ⟨hactive, hregistered, hroom⟩
    obtain ⟨_, _, hvalid⟩ := validateInPlace_eq ⟨hactive, hregistered, le_refl _⟩
    refine ⟨.scratchTooSmall (array.extraShape.elementCount * plan.source.localLen) room, ?_⟩
    rw [hvalid]
    simp [hroom, bind, Except.bind]

/-- The staged block is written, and the array shows it. -/
theorem writeStaged_eq (h : plan.source.sameDistribution plan.destination = true) {index target : ℕ}
    (hstate : array.state = .valid index) (hpencil : array.pencils[index]? = some plan.source)
    (htarget : array.pencils[target]? = some plan.destination) :
    ∃ after, plan.writeStaged array target (array.extraShape.elementCount * plan.source.localLen)
        (array.storage.take (array.extraShape.elementCount * plan.source.localLen))
        = (after, .ok ()) ∧ ShowsTransposed plan.source plan.destination array after := by
  obtain ⟨hle, hlt⟩ := layout_fits array (List.mem_of_getElem? hpencil)
  obtain ⟨guard, hguard, hbegun⟩ := beginInPlaceWrite_eq hstate
  have hguardLe : array.extraShape.elementCount * plan.source.localLen ≤ guard.storage.length := by
    rw [hbegun.storage]
    exact hle
  obtain ⟨result, hresult, hlen, hblock, hrest⟩ := writeLoop_eq h (hle.trans_lt hlt)
    (List.length_take_of_le hle).ge hguardLe
  obtain ⟨written, hwritten, hrewritten⟩ := writeStorage_eq hlen
  have htargetLt : target < written.pencils.length := by
    rw [hrewritten.pencils, hbegun.pencils]
    exact (List.getElem?_eq_some_iff.mp htarget).1
  obtain ⟨after, hafter, hcommitted⟩ := commit_eq htargetLt
  have hpencils : after.pencils = array.pencils := by
    rw [hcommitted.pencils, hrewritten.pencils, hbegun.pencils]
  have hstorage : after.storage = result := by rw [hcommitted.storage, hrewritten.storage]
  refine ⟨after, ?_, hpencils, ?_, ⟨target, hcommitted.state, ?_⟩, ?_, ?_, ?_⟩
  · unfold LocalTransposePlan.writeStaged
    rw [hguard]
    simp only [hresult, hwritten, hafter]
  · rw [hcommitted.extraShape, hrewritten.extraShape, hbegun.extraShape]
  · rw [hpencils]
    exact htarget
  · rw [hstorage, hlen, hbegun.storage]
  · intro e he x hx
    rw [hstorage, hblock e he x hx, List.getElem?_take_of_lt (element_lt he hx)]
  · rw [hstorage, hrest, hbegun.storage]

theorem foldl_push (values : List K) (scratch : Scratch K) :
    (values.foldl Scratch.push scratch).values = scratch.values ++ values := by
  induction values generalizing scratch with
  | nil => exact (List.append_nil _).symm
  | cons value values ih =>
    rw [List.foldl_cons, ih]
    show scratch.values ++ [value] ++ values = _
    rw [List.append_assoc, List.singleton_append]

/-- Where there is room for all values, no push grows the vector. -/
theorem foldl_push_capacity (values : List K) (scratch : Scratch K)
    (h : scratch.values.length + values.length ≤ scratch.capacity) :
    (values.foldl Scratch.push scratch).capacity = scratch.capacity := by
  induction values generalizing scratch with
  | nil => rfl
  | cons value values ih =>
    rw [List.length_cons] at h
    have hcapacity : (scratch.push value).capacity = scratch.capacity :=
      Nat.max_eq_left (by omega)
    rw [List.foldl_cons, ih, hcapacity]
    rw [hcapacity]
    show (scratch.values ++ [value]).length + values.length ≤ scratch.capacity
    rw [List.length_append, List.length_singleton]
    omega

/-- **The transpose with a vector.** -/
theorem executeInPlace_transposes (h : plan.source.sameDistribution plan.destination = true) :
    TransposesInPlace plan.source plan.destination (Scratch.capacity (α := K))
      plan.executeInPlace where
  accepts := by
    intro array scratch hfits
    obtain ⟨target, view, htarget, hstaged, hstorage, hlen⟩ := stagedSource_eq h hfits
    obtain ⟨⟨index, hstate, hpencil⟩, _, hroom⟩ := hfits
    obtain ⟨after, hafter, hshows⟩ := writeStaged_eq h hstate hpencil htarget
    have hvalues : (view.storage.foldl Scratch.push scratch.clear).values = view.storage :=
      (foldl_push view.storage scratch.clear).trans (List.nil_append _)
    refine ⟨after, _, ?_, hshows, foldl_push_capacity view.storage scratch.clear ?_⟩
    · unfold LocalTransposePlan.executeInPlace
      simp only [hstaged, hvalues]
      rw [if_pos hlen.ge, ← hlen, List.take_length, hlen, hstorage, hafter]
    · show 0 + view.storage.length ≤ scratch.capacity
      omega
  refuses := by
    intro array scratch hfits
    obtain ⟨e, he⟩ := stagedSource_error hfits
    refine ⟨e, ?_⟩
    unfold LocalTransposePlan.executeInPlace
    rw [he]

/-- **The transpose with a transpose workspace.** -/
theorem executeInPlaceInWorkspace_transposes
    (h : plan.source.sameDistribution plan.destination = true) :
    TransposesInPlace plan.source plan.destination
      (fun workspace : TransposeWorkspace K => workspace.sendBuffer.length)
      plan.executeInPlaceInWorkspace where
  accepts := by
    intro array workspace hfits
    obtain ⟨target, view, htarget, hstaged, hstorage, hlen⟩ := stagedSource_eq h hfits
    obtain ⟨⟨index, hstate, hpencil⟩, _, hroom⟩ := hfits
    obtain ⟨after, hafter, hshows⟩ := writeStaged_eq h hstate hpencil htarget
    have hstagedLen := List.length_take_of_le hroom
    have hcloned : cloneInto (workspace.sendBuffer.take
        (array.extraShape.elementCount * plan.source.localLen)) view.storage = view.storage := by
      unfold cloneInto
      rw [hstagedLen, List.take_of_length_le hlen.le,
        List.drop_eq_nil_of_le (hstagedLen.trans hlen.symm).le, List.append_nil]
    refine ⟨after, ⟨view.storage ++ workspace.sendBuffer.drop
      (array.extraShape.elementCount * plan.source.localLen), workspace.receiveBuffer⟩, ?_,
      hshows, ?_⟩
    · unfold LocalTransposePlan.executeInPlaceInWorkspace
      simp only [hstaged, hcloned]
      rw [List.take_left' hlen, hstorage, hafter]
    · show (view.storage ++ workspace.sendBuffer.drop _).length = _
      rw [List.length_append, List.length_drop, hlen]
      omega
  refuses := by
    intro array workspace hfits
    obtain ⟨e, he⟩ := stagedSource_error hfits
    refine ⟨e, ?_⟩
    unfold LocalTransposePlan.executeInPlaceInWorkspace
    rw [he]

theorem foldlM_writeStep (staged : List K) (linears : List ℕ) (storage : List K) :
    linears.foldlM (plan.writeStep staged) storage
      = (plan.writeLoop staged linears storage).2.map fun _ =>
        (plan.writeLoop staged linears storage).1 := by
  induction linears generalizing storage with
  | nil => rfl
  | cons linear rest ih =>
    rw [List.foldlM_cons]
    unfold LocalTransposePlan.writeLoop
    cases plan.writeStep staged storage linear with
    | error e => rfl
    | ok next => exact ih next

variable (plan) in
/-- Stores do not change the length. -/
theorem length_writeLoop (staged : List K) (linears : List ℕ) (storage : List K) :
    (plan.writeLoop staged linears storage).1.length = storage.length := by
  induction linears generalizing storage with
  | nil => rfl
  | cons linear rest ih =>
    unfold LocalTransposePlan.writeLoop
    cases hstep : plan.writeStep staged storage linear with
    | error e => rfl
    | ok next =>
      obtain ⟨_, _, hset⟩ := bind_eq_ok.mp hstep
      obtain ⟨_, _, hset⟩ := bind_eq_ok.mp hset
      obtain ⟨_, _, hset⟩ := bind_eq_ok.mp hset
      cases hset
      exact (ih _).trans (List.length_set ..)

theorem writeStagedInPlace_eq (target required : ℕ) (staged : List K) :
    plan.writeStagedInPlace array target required staged
      = (plan.writeStaged array target required staged).2.map fun _ =>
        (plan.writeStaged array target required staged).1 := by
  unfold LocalTransposePlan.writeStagedInPlace LocalTransposePlan.writeStaged
  cases array.beginInPlaceWrite with
  | error e => rfl
  | ok guard =>
    obtain ⟨written, hwritten, _⟩ :=
      writeStorage_eq (length_writeLoop plan staged (List.range required) guard.storage)
    simp only [Except.mapError, bind, Except.bind, foldlM_writeStep, hwritten]
    cases (plan.writeLoop staged (List.range required) guard.storage).2 with
    | error e => rfl
    | ok u =>
      simp only [Except.map, hwritten, okOr_some]
      cases written.commit target <;> rfl

/-- The model of the transpose without what a failure leaves behind has the same result. -/
theorem executeInPlaceWithTransposeWorkspace_eq
    (h : plan.source.sameDistribution plan.destination = true)
    (workspace : TransposeWorkspace K) :
    plan.executeInPlaceWithTransposeWorkspace array workspace
      = (plan.executeInPlaceInWorkspace array workspace).2.2.map fun _ =>
        (plan.executeInPlaceInWorkspace array workspace).1 := by
  have hsplit : plan.executeInPlaceWithTransposeWorkspace array workspace
      = plan.stagedSource array workspace.sendBuffer.length >>= fun (target, required, source) =>
        plan.writeStagedInPlace array target required (source.storage
          ++ (workspace.sendBuffer.take required).drop source.storage.length) := by
    unfold LocalTransposePlan.executeInPlaceWithTransposeWorkspace LocalTransposePlan.stagedSource
    simp only [bind_assoc, pure_bind]
  rw [hsplit]
  by_cases hfits : InPlaceFits plan.source plan.destination array workspace.sendBuffer.length
  · obtain ⟨target, view, _, hstaged, _, hlen⟩ := stagedSource_eq h hfits
    have hstagedLen := List.length_take_of_le hfits.2.2
    have hrest : (workspace.sendBuffer.take (array.extraShape.elementCount
        * plan.source.localLen)).drop view.storage.length = [] :=
      List.drop_eq_nil_of_le (hstagedLen.trans hlen.symm).le
    unfold LocalTransposePlan.executeInPlaceInWorkspace cloneInto
    simp only [hstaged, bind, Except.bind, hstagedLen, hrest, List.append_nil,
      List.take_of_length_le hlen.le, List.take_left' hlen]
    exact writeStagedInPlace_eq target _ view.storage
  · obtain ⟨e, he⟩ := stagedSource_error hfits
    unfold LocalTransposePlan.executeInPlaceInWorkspace
    rw [he]
    rfl

end InPlace

/-! ## All of them -/

section Paths

variable {p q : Pencil N M} {array after after' : ManyPencilArray K N M}

theorem ShowsTransposed.fits (h : ShowsTransposed p q array after)
    (hsame : p.sameDistribution q = true) {room room' : ℕ} (hfits : InPlaceFits p q array room)
    (hroom : array.extraShape.elementCount * p.localLen ≤ room') :
    InPlaceFits q p after room' := by
  obtain ⟨⟨index, _, hpencil⟩, _, _⟩ := hfits
  refine ⟨h.active, ?_, ?_⟩
  · rw [h.pencils]
    exact List.mem_of_getElem? hpencil
  · rw [h.extraShape, ← (localShape_of_sameDistribution hsame).2]
    exact hroom

/-- Arrays of one registry that show the same layout and have the same storage are one. -/
theorem manyPencilArray_eq {index index' : ℕ} (hpencils : after.pencils = array.pencils)
    (hextra : after.extraShape = array.extraShape) (hstorage : after.storage = array.storage)
    (hstate : array.state = .valid index) (hstate' : after.state = .valid index')
    (hpencil : array.pencils[index]? = some p) (hpencil' : after.pencils[index']? = some p) :
    after = array := by
  obtain rfl : index' = index := layoutIndex_unique (hpencils ▸ hpencil') hpencil
  cases array
  cases after
  cases hpencils
  cases hextra
  cases hstorage
  cases hstate
  cases hstate'
  rfl

/-- The transposes of one array are one array. -/
theorem ShowsTransposed.unique (h : ShowsTransposed p q array after)
    (h' : ShowsTransposed p q array after') (hsame : p.sameDistribution q = true) :
    after = after' := by
  obtain ⟨index, hstate, hpencil⟩ := h.active
  obtain ⟨index', hstate', hpencil'⟩ := h'.active
  refine manyPencilArray_eq (h.pencils.trans h'.pencils.symm)
    (h.extraShape.trans h'.extraShape.symm) ?_ hstate' hstate hpencil' hpencil
  have hblock := h.block.unique h'.block hsame
  rw [← (localShape_of_sameDistribution hsame).2] at hblock
  rw [← List.take_append_drop (array.extraShape.elementCount * p.localLen) after.storage, hblock,
    h.rest, ← h'.rest, List.take_append_drop]

theorem ShowsTransposed.symm (h : ShowsTransposed p q array after)
    (hsame : p.sameDistribution q = true) (hactive : ∃ index, array.state = .valid index ∧
      array.pencils[index]? = some p) : ShowsTransposed q p after array where
  pencils := h.pencils.symm
  extraShape := h.extraShape.symm
  active := hactive
  length := h.length.symm
  block := by
    rw [h.extraShape]
    exact h.block.symm hsame
  rest := by
    rw [h.extraShape, ← (localShape_of_sameDistribution hsame).2]
    exact h.rest.symm

theorem ShowsTransposed.activeView (h : ShowsTransposed p q array after) :
    ∃ view, after.activeView = .ok view ∧ view.pencil = q ∧ view.extraShape = array.extraShape ∧
      view.storage = after.storage.take (array.extraShape.elementCount * q.localLen) := by
  obtain ⟨index, hstate, hpencil⟩ := h.active
  obtain ⟨view, hview, hviewPencil, hextra, hstorage⟩ := viewOf_eq after hpencil
  rw [h.extraShape] at hextra hstorage
  refine ⟨view, ?_, hviewPencil, hextra, hstorage⟩
  unfold ManyPencilArray.activeView
  rw [activeIndex_valid hstate]
  exact hview

variable {S' : Type} {room : S → ℕ} {room' : S' → ℕ}
  {run : ManyPencilArray K N M → S →
    ManyPencilArray K N M × S × Except (Stop LocalTransposeError) Unit}
  {run' : ManyPencilArray K N M → S' →
    ManyPencilArray K N M × S' × Except (Stop LocalTransposeError) Unit}

/-- A call that succeeds was accepted. -/
theorem TransposesInPlace.of_ok (h : TransposesInPlace p q room run) {scratch scratch' : S}
    (hrun : run array scratch = (after, scratch', .ok ())) :
    InPlaceFits p q array (room scratch) ∧ ShowsTransposed p q array after := by
  by_cases hfits : InPlaceFits p q array (room scratch)
  · obtain ⟨_, _, haccepted, hshows, _⟩ := h.accepts array scratch hfits
    cases hrun.symm.trans haccepted
    exact ⟨hfits, hshows⟩
  · obtain ⟨e, hrefused⟩ := h.refuses array scratch hfits
    cases hrun.symm.trans hrefused

/-- **There and back.** -/
theorem TransposesInPlace.back (h : TransposesInPlace p q room run)
    (h' : TransposesInPlace q p room' run') (hsame : p.sameDistribution q = true)
    {scratch₁ scratch₂ : S} (hrun : run array scratch₁ = (after, scratch₂, .ok ())) {scratch₃ : S'}
    (hroom : array.extraShape.elementCount * p.localLen ≤ room' scratch₃) :
    ∃ scratch₄, run' after scratch₃ = (array, scratch₄, .ok ()) := by
  obtain ⟨hfits, hshows⟩ := h.of_ok hrun
  obtain ⟨array', scratch₄, hback, hshowsBack, _⟩ :=
    h'.accepts after scratch₃ (hshows.fits hsame hfits hroom)
  obtain rfl := hshowsBack.unique (hshows.symm hsame hfits.1) (sameDistribution_symm hsame)
  exact ⟨scratch₄, hback⟩

/-- What a plan's three ways to run do: each accepts what fits and refuses the rest without a
write, the results are the same block, and the plan of the way back undoes them. -/
structure LocalTransposesAgree (K : Type) (plan back : LocalTransposePlan N M) : Prop where
  views : ∀ source destination : PencilArrayView K N M,
    (ViewsFit plan.source plan.destination source destination →
      ∃ written, plan.executeViews source destination = (written, .ok ()) ∧
        written.length = destination.storage.length ∧
        TransposedBlock plan.source plan.destination source.extraShape.elementCount
          source.storage written) ∧
    (¬ViewsFit plan.source plan.destination source destination →
      ∃ e, plan.executeViews source destination = (destination.storage, .error (.error e)))
  inPlace : TransposesInPlace plan.source plan.destination (Scratch.capacity (α := K))
    plan.executeInPlace
  inWorkspace : TransposesInPlace plan.source plan.destination
    (fun workspace : TransposeWorkspace K => workspace.sendBuffer.length)
    plan.executeInPlaceInWorkspace
  inWorkspace_result : ∀ (array : ManyPencilArray K N M) workspace,
    plan.executeInPlaceWithTransposeWorkspace array workspace
      = (plan.executeInPlaceInWorkspace array workspace).2.2.map fun _ =>
        (plan.executeInPlaceInWorkspace array workspace).1
  inPlace_inWorkspace : ∀ (array after after' : ManyPencilArray K N M) scratch scratch' workspace
    workspace', plan.executeInPlace array scratch = (after, scratch', .ok ()) →
    plan.executeInPlaceInWorkspace array workspace = (after', workspace', .ok ()) → after = after'
  views_inPlace : ∀ (array after : ManyPencilArray K N M) scratch scratch' source destination written,
    plan.executeInPlace array scratch = (after, scratch', .ok ()) →
    array.activeView = .ok source → plan.executeViews source destination = (written, .ok ()) →
    ∃ view, after.activeView = .ok view ∧ view.pencil = destination.pencil ∧
      view.extraShape = destination.extraShape ∧ view.storage = written
  views_back : ∀ (source destination written destination' : PencilArrayView K N M),
    plan.executeViews source destination = (written.storage, .ok ()) →
    written.extraShape = destination.extraShape →
    ViewsFit plan.destination plan.source written destination' →
    back.executeViews written destination' = (source.storage, .ok ())
  inPlace_back : ∀ (array after : ManyPencilArray K N M) scratch₁ scratch₂ scratch₃,
    plan.executeInPlace array scratch₁ = (after, scratch₂, .ok ()) →
    array.extraShape.elementCount * plan.source.localLen ≤ scratch₃.capacity →
    ∃ scratch₄, back.executeInPlace after scratch₃ = (array, scratch₄, .ok ())
  inWorkspace_back : ∀ (array after : ManyPencilArray K N M) workspace₁ workspace₂ workspace₃,
    plan.executeInPlaceInWorkspace array workspace₁ = (after, workspace₂, .ok ()) →
    array.extraShape.elementCount * plan.source.localLen ≤ workspace₃.sendBuffer.length →
    ∃ workspace₄, back.executeInPlaceInWorkspace after workspace₃ = (array, workspace₄, .ok ())

theorem views_inPlace_eq {plan : LocalTransposePlan N M}
    (h : plan.source.sameDistribution plan.destination = true) {scratch scratch' : Scratch K}
    {source destination : PencilArrayView K N M} {written : List K}
    (hrun : plan.executeInPlace array scratch = (after, scratch', .ok ()))
    (hsource : array.activeView = .ok source)
    (hviews : plan.executeViews source destination = (written, .ok ())) :
    ∃ view, after.activeView = .ok view ∧ view.pencil = destination.pencil ∧
      view.extraShape = destination.extraShape ∧ view.storage = written := by
  obtain ⟨⟨⟨index, hstate, hpencil⟩, _, _⟩, hshows⟩ :=
    (executeInPlace_transposes h).of_ok hrun
  obtain ⟨view, hview, hviewPencil, hviewExtra, hviewStorage⟩ := hshows.activeView
  obtain ⟨source', hsource', hsourcePencil, hsourceExtra, hsourceStorage⟩ := viewOf_eq array hpencil
  have hactive : array.activeView = .ok source' := by
    unfold ManyPencilArray.activeView
    rw [activeIndex_valid hstate]
    exact hsource'
  obtain rfl : source' = source := Except.ok.inj (hactive.symm.trans hsource)
  by_cases hfits : ViewsFit plan.source plan.destination source' destination
  · obtain ⟨written', hwritten, hlen, hblock⟩ := (executeViews_eq h source' destination).1 hfits
    cases hviews.symm.trans hwritten
    obtain ⟨_, hdestination, hextra⟩ := hfits
    refine ⟨view, hview, hviewPencil.trans hdestination.symm,
      hviewExtra.trans (hsourceExtra.symm.trans hextra), ?_⟩
    have hdestinationLen := view_storage_length destination
    rw [hdestination, ← hextra, hsourceExtra] at hdestinationLen
    have hsourceBlock := (hshows.block.take h)
    rw [← hsourceStorage, (localShape_of_sameDistribution h).2] at hsourceBlock
    rw [hsourceExtra] at hblock
    have hunique := hsourceBlock.unique hblock h
    rw [List.take_take, Nat.min_self, List.take_of_length_le (hlen.trans hdestinationLen).le]
      at hunique
    rw [hviewStorage, hunique]
  · obtain ⟨e, hrefused⟩ := (executeViews_eq h source' destination).2 hfits
    cases hviews.symm.trans hrefused

theorem views_back_eq {plan back : LocalTransposePlan N M}
    (h : plan.source.sameDistribution plan.destination = true)
    (hsource : back.source = plan.destination) (hdestination : back.destination = plan.source)
    {source destination written destination' : PencilArrayView K N M}
    (hviews : plan.executeViews source destination = (written.storage, .ok ()))
    (hback : ViewsFit plan.destination plan.source written destination')
    (hextra : written.extraShape = destination.extraShape) :
    back.executeViews written destination' = (source.storage, .ok ()) := by
  have hsame : back.source.sameDistribution back.destination = true := by
    rw [hsource, hdestination]
    exact sameDistribution_symm h
  by_cases hfits : ViewsFit plan.source plan.destination source destination
  · obtain ⟨written', hwritten, _, hblock⟩ := (executeViews_eq h source destination).1 hfits
    obtain rfl : written.storage = written' := congrArg Prod.fst (hviews.symm.trans hwritten)
    obtain ⟨restored, hrestored, hlen, hblock'⟩ :=
      (executeViews_eq hsame written destination').1 (by rwa [hsource, hdestination])
    rw [hsource, hdestination] at hblock'
    have hcount : written.extraShape = source.extraShape := hextra.trans hfits.2.2.symm
    rw [hcount] at hblock'
    have hunique := hblock'.unique (hblock.symm h) (sameDistribution_symm h)
    have hsourceLen := view_storage_length source
    have hrestoredLen := view_storage_length destination'
    rw [hfits.1] at hsourceLen
    rw [hback.2.1, ← hback.2.2, hcount] at hrestoredLen
    rw [List.take_of_length_le (hlen.trans hrestoredLen).le,
      List.take_of_length_le hsourceLen.le] at hunique
    rw [hrestored, hunique]
  · obtain ⟨e, hrefused⟩ := (executeViews_eq h source destination).2 hfits
    have hresult := congrArg Prod.snd (hviews.symm.trans hrefused)
    contradiction

/-- **The ways to run a local transpose agree and invert.** -/
theorem local_transposes_agree {plan : LocalTransposePlan N M}
    (hplan : LocalTransposePlan.new p q = .ok plan) :
    plan = ⟨p, q⟩ ∧ ∃ back, LocalTransposePlan.new q p = .ok back ∧
      LocalTransposesAgree K plan back := by
  obtain ⟨_, hsame, hplan⟩ := bind_eq_ok.mp hplan
  have hsame := ensure_eq_ok.mp hsame
  cases hplan
  have hback := sameDistribution_symm hsame
  refine ⟨rfl, ⟨q, p⟩, ?_, ?_⟩
  · exact bind_eq_ok.mpr ⟨(), ensure_eq_ok.mpr hback, rfl⟩
  · have hinPlace := @executeInPlace_transposes _ _ K ⟨p, q⟩ hsame
    have hinWorkspace := @executeInPlaceInWorkspace_transposes _ _ K ⟨p, q⟩ hsame
    have hinPlaceBack := @executeInPlace_transposes _ _ K ⟨q, p⟩ hback
    have hinWorkspaceBack := @executeInPlaceInWorkspace_transposes _ _ K ⟨q, p⟩ hback
    exact {
      views := executeViews_eq hsame
      inPlace := hinPlace
      inWorkspace := hinWorkspace
      inWorkspace_result := fun _ => executeInPlaceWithTransposeWorkspace_eq hsame
      inPlace_inWorkspace := fun _ _ _ _ _ _ _ hrun hrun' =>
        (hinPlace.of_ok hrun).2.unique (hinWorkspace.of_ok hrun').2 hsame
      views_inPlace := fun _ _ _ _ _ _ _ hrun hsource hviews =>
        views_inPlace_eq hsame hrun hsource hviews
      views_back := fun _ _ _ _ hviews hextra hfits =>
        views_back_eq hsame rfl rfl hviews hfits hextra
      inPlace_back := fun _ _ _ _ _ hrun hroom =>
        hinPlace.back hinPlaceBack hsame hrun hroom
      inWorkspace_back := fun _ _ _ _ _ hrun hroom =>
        hinWorkspace.back hinWorkspaceBack hsame hrun hroom }

theorem rows_injective : Function.Injective (![0] : Fin 1 → Fin 2) :=
  fun a b _ => Subsingleton.elim a b

theorem threeRows_pos : ∀ axis, 0 < (![3, 2] : Fin 2 → ℕ) axis := by
  decide

theorem threeRows_fit : ∏ axis, (![3, 2] : Fin 2 → ℕ) axis < usizeLimit := by
  decide

/-- The rows that one of two ranks has of three, in some order in memory. -/
def rowsOfThree (permutation : AxisPermutation 2) : Pencil 2 1 :=
  buildPencil twoRanks ![3, 2] ⟨![0], rows_injective, Nat.one_pos⟩ permutation threeRows_pos
    threeRows_fit

theorem local_transposes_agree_rows :
    LocalTransposePlan.new (rowsOfThree AxisPermutation.identity) (rowsOfThree swapAxes)
        = .ok ⟨rowsOfThree AxisPermutation.identity, rowsOfThree swapAxes⟩ ∧
      ∃ back, LocalTransposePlan.new (rowsOfThree swapAxes) (rowsOfThree AxisPermutation.identity)
        = .ok back ∧ LocalTransposesAgree ℕ
          ⟨rowsOfThree AxisPermutation.identity, rowsOfThree swapAxes⟩ back :=
  ⟨rfl, (local_transposes_agree rfl).2⟩

end Paths

end PencilRs.Analysis
