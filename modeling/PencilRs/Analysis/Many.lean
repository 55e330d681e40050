import PencilRs.Analysis.InPlace
import PencilRs.Model.Overwrite

/-!
# Which layout an array shows

Only a finished write makes a layout active, and a started one that does not finish leaves
the array poisoned until the next overwrite that succeeds.
-/

set_option autoImplicit false

namespace PencilRs.Analysis

open PencilRs.Computation PencilRs.Model

variable {N M : ℕ} {α ε π : Type}

/-! ## The buffer and its layouts -/

theorem foldl_max_mem (l : List ℕ) (a : ℕ) : l.foldl max a ∈ a :: l := by
  induction l generalizing a with
  | nil => exact List.mem_cons_self
  | cons y l ih =>
    rw [List.foldl_cons]
    cases List.mem_cons.mp (ih (max a y)) with
    | inr hmem => exact List.mem_cons_of_mem a (List.mem_cons_of_mem y hmem)
    | inl heq =>
      rw [heq]
      cases max_choice a y with
      | inl h =>
        rw [h]
        exact List.mem_cons_self
      | inr h =>
        rw [h]
        exact List.mem_cons_of_mem a List.mem_cons_self

/-- The buffer is exactly as long as the longest layout. -/
theorem longest_layout (array : ManyPencilArray α N M) :
    ∃ pencil ∈ array.pencils,
      array.storage.length = array.extraShape.elementCount * pencil.localLen := by
  obtain ⟨active, hregistry⟩ := array.registry_ok
  unfold validateRegistry at hregistry
  cases hpencils : array.pencils with
  | nil =>
    rw [hpencils] at hregistry
    contradiction
  | cons first rest =>
    rw [hpencils] at hregistry
    simp only at hregistry
    split at hregistry
    · contradiction
    split at hregistry
    · contradiction
    split at hregistry
    · contradiction
    cases hproduct : checkedProduct
        [maxOf first.localLen (rest.map Pencil.localLen), array.extraShape.elementCount] with
    | error e =>
      rw [hproduct] at hregistry
      contradiction
    | ok required =>
      rw [hproduct] at hregistry
      have hrequired : required = array.storage.length := Except.ok.inj hregistry
      have hprod := checkedProduct_ok hproduct
      simp only [List.prod_cons, List.prod_nil, Nat.mul_one] at hprod
      have hmax : maxOf first.localLen (rest.map Pencil.localLen)
          ∈ (first :: rest).map Pencil.localLen := foldl_max_mem _ _
      obtain ⟨pencil, hpencil, heq⟩ := List.mem_map.mp hmax
      refine ⟨pencil, hpencil, ?_⟩
      rw [← hrequired, hprod, ← heq, Nat.mul_comm]

/-- A registered layout's view is the prefix of its length. -/
theorem viewOf_eq (array : ManyPencilArray α N M) {index : ℕ} {pencil : Pencil N M}
    (h : array.pencils[index]? = some pencil) :
    ∃ view, array.viewOf index = .ok view ∧ view.pencil = pencil ∧
      view.extraShape = array.extraShape ∧
      view.storage = array.storage.take (array.extraShape.elementCount * pencil.localLen) := by
  obtain ⟨hle, hlt⟩ := layout_fits array (List.mem_of_getElem? h)
  have hlen : (array.storage.take (array.extraShape.elementCount * pencil.localLen)).length
      = array.extraShape.elementCount * pencil.localLen := List.length_take_of_le hle
  have hproduct : checkedProduct [array.extraShape.elementCount, pencil.localLen]
      = .ok (array.extraShape.elementCount * pencil.localLen) := by
    apply checkedProduct_eq_ok.mpr
    simp only [List.prod_cons, List.prod_nil, Nat.mul_one, true_and]
    omega
  have hvalid : validateStorageLen pencil array.extraShape
      (array.storage.take (array.extraShape.elementCount * pencil.localLen)).length = .ok () := by
    unfold validateStorageLen
    rw [hproduct, hlen]
    simp [Except.mapError, bind, Except.bind, pure, Except.pure]
  refine ⟨⟨pencil, array.extraShape, _, hvalid⟩, ?_, rfl, rfl, rfl⟩
  unfold ManyPencilArray.viewOf PencilArrayView.fromSlice
  rw [layoutLen_eq array h, h]
  simp only [okOr_some, bind, Except.bind]
  split
  · rename_i e heq
    rw [hvalid] at heq
    contradiction
  · rfl

/-- What a validated registry keeps: the buffer is as long as its longest layout, a valid
state names a registered layout, whose prefix is what a reader sees, and a poisoned array
shows nothing. -/
structure RegistryInvariant (array : ManyPencilArray α N M) : Prop where
  longest : ∃ pencil ∈ array.pencils,
    array.storage.length = array.extraShape.elementCount * pencil.localLen
  fits : ∀ pencil ∈ array.pencils,
    array.extraShape.elementCount * pencil.localLen ≤ array.storage.length
  active : ∀ index, array.state = .valid index → ∃ pencil view,
    array.pencils[index]? = some pencil ∧ array.activePencil = .ok pencil ∧
      array.activeView = .ok view ∧ view.pencil = pencil ∧
      view.extraShape = array.extraShape ∧
      view.storage = array.storage.take (array.extraShape.elementCount * pencil.localLen) ∧
      view.storage.length = array.extraShape.elementCount * pencil.localLen ∧
      array.intoPartsPreserving = .ok (array.pencils, index, array.extraShape, array.storage)
  poisoned : array.state = .poisoned → array.activePencil = .error .poisoned ∧
    array.activeView = .error .poisoned ∧ array.intoPartsPreserving = .error (.poisoned, array)

theorem activeIndex_valid {array : ManyPencilArray α N M} {index : ℕ}
    (h : array.state = .valid index) : array.activeIndex = .ok index := by
  unfold ManyPencilArray.activeIndex
  rw [h]
  simp only
  rw [if_pos (array.state_ok index h)]

theorem activeIndex_poisoned {array : ManyPencilArray α N M} (h : array.state = .poisoned) :
    array.activeIndex = .error .poisoned := by
  unfold ManyPencilArray.activeIndex
  rw [h]

theorem registryInvariant (array : ManyPencilArray α N M) : RegistryInvariant array where
  longest := longest_layout array
  fits := fun _ h => (layout_fits array h).1
  active := by
    intro index hstate
    have hindex := activeIndex_valid hstate
    have hpencil := List.getElem?_eq_getElem (array.state_ok index hstate)
    obtain ⟨view, hview, hviewPencil, hextra, hstorage⟩ := viewOf_eq array hpencil
    refine ⟨_, view, hpencil, ?_, ?_, hviewPencil, hextra, hstorage, ?_, ?_⟩
    · unfold ManyPencilArray.activePencil
      rw [hindex]
      simp only [bind, Except.bind, hpencil, okOr_some]
    · unfold ManyPencilArray.activeView
      rw [hindex]
      exact hview
    · rw [hstorage]
      exact List.length_take_of_le (layout_fits array (List.mem_of_getElem? hpencil)).1
    · unfold ManyPencilArray.intoPartsPreserving
      rw [hindex]
  poisoned := by
    intro hstate
    have hindex := activeIndex_poisoned hstate
    refine ⟨?_, ?_, ?_⟩
    · unfold ManyPencilArray.activePencil
      rw [hindex]
      rfl
    · unfold ManyPencilArray.activeView
      rw [hindex]
      rfl
    · unfold ManyPencilArray.intoPartsPreserving
      rw [hindex]

/-- The index of the active layout matters to the registry only as an index. -/
theorem validateRegistry_of_lt {pencils : List (Pencil N M)} {active index required : ℕ}
    {extraShape : ExtraShape} (h : validateRegistry pencils active extraShape = .ok required)
    (hlt : index < pencils.length) : validateRegistry pencils index extraShape = .ok required := by
  have hactive := active_lt_of_validateRegistry h
  unfold validateRegistry at h ⊢
  cases pencils with
  | nil => contradiction
  | cons first rest =>
    simp only at h ⊢
    rw [if_neg (by omega)] at h ⊢
    exact h

theorem fromVec_spec {pencils : List (Pencil N M)} {active : ℕ} {extraShape : ExtraShape}
    {storage : List α} {array : ManyPencilArray α N M}
    (h : ManyPencilArray.fromVec pencils active extraShape storage = .ok array) :
    array.pencils = pencils ∧ array.extraShape = extraShape ∧ array.storage = storage ∧
      array.state = .valid active := by
  unfold ManyPencilArray.fromVec at h
  split at h
  · contradiction
  split at h
  · cases h
    exact ⟨rfl, rfl, rfl, rfl⟩
  · contradiction

/-- The parts of a readable array make up the array again. -/
theorem fromVec_intoParts {array : ManyPencilArray α N M} {index : ℕ}
    (h : array.state = .valid index) :
    ManyPencilArray.fromVec array.pencils index array.extraShape array.intoStorage
      = .ok array := by
  obtain ⟨active, hregistry⟩ := array.registry_ok
  have hvalid := validateRegistry_of_lt hregistry (array.state_ok index h)
  obtain ⟨pencils, extraShape, storage, state, registry_ok, state_ok⟩ := array
  cases h
  unfold ManyPencilArray.fromVec ManyPencilArray.intoStorage
  split
  · rename_i e heq
    rw [hvalid] at heq
    contradiction
  · rename_i required heq
    rw [hvalid] at heq
    cases heq
    rw [dif_pos rfl]

theorem fromElem_spec {reserve : ℕ → Bool} {pencils : List (Pencil N M)} {active : ℕ}
    {extraShape : ExtraShape} {value : α} {array : ManyPencilArray α N M}
    (h : ManyPencilArray.fromElem reserve pencils active extraShape value = .ok array) :
    array.pencils = pencils ∧ array.extraShape = extraShape ∧ array.state = .valid active ∧
      ∀ x ∈ array.storage, x = value := by
  unfold ManyPencilArray.fromElem at h
  split at h
  · contradiction
  split at h
  · cases h
    exact ⟨rfl, rfl, rfl, fun x hx => List.eq_of_mem_replicate hx⟩
  · contradiction

/-! ## What an operation does -/

/-- A callback on a prefix of the buffer changes that prefix only. -/
theorem callOn_eq (array : ManyPencilArray α N M) {len : ℕ} (callback : Callback α ε π)
    (h : len ≤ array.storage.length) :
    ∃ after, array.callOn len callback
        = (after, (callback.run (array.storage.take len)).2) ∧
      Rewrites array after ((callback.run (array.storage.take len)).1
        ++ array.storage.drop len) array.state := by
  obtain ⟨after, hafter, hrewrites⟩ := @writeStorage_eq _ _ _ array _
    (show ((callback.run (array.storage.take len)).1 ++ array.storage.drop len).length
        = array.storage.length by
      rw [List.length_append, callback.length_run, List.length_take, List.length_drop]
      omega)
  refine ⟨after, ?_, hrewrites⟩
  unfold ManyPencilArray.callOn
  simp only [hafter]

/-- Whether an operation gets as far as writing. -/
def Starts (array : ManyPencilArray α N M) : ArrayOperation α ε π N M → Prop
  | .activePencil | .activeView => False
  | .editActive _ | .inPlaceTransition _ _ => ∃ index, array.state = .valid index
  | .overwriteWith target _ => ∃ index, array.findLayout target = some index

/-- Whether an operation writes under a guard. -/
def Guarded : ArrayOperation α ε π N M → Prop
  | .overwriteWith _ _ | .inPlaceTransition _ _ => True
  | .activePencil | .activeView | .editActive _ => False

/-- An overwrite that succeeds. -/
def Overwrites (array : ManyPencilArray α N M) (operation : ArrayOperation α ε π N M) : Prop :=
  ∃ target write, operation = .overwriteWith target write ∧
    (ArrayOperation.step array operation).2 = .done

theorem ending_ne_done {outcome : CallbackOutcome ε π} (h : outcome ≠ .ok) :
    outcome.ending ≠ .done := by
  cases outcome with
  | ok => exact absurd rfl h
  | err error => simp [CallbackOutcome.ending]
  | panic payload => simp [CallbackOutcome.ending]

theorem poison_rewrites (array : ManyPencilArray α N M) :
    Rewrites array array.poison array.storage .poisoned := ⟨rfl, rfl, rfl, rfl⟩

/-- The storage after a callback on the first `len` elements. -/
abbrev calledOn (array : ManyPencilArray α N M) (len : ℕ) (callback : Callback α ε π) : List α :=
  (callback.run (array.storage.take len)).1 ++ array.storage.drop len

/-- **An overwrite** of a registered layout makes it active where the writer returned `Ok`, and
else poisons the array. -/
theorem overwriteWith_spec (array : ManyPencilArray α N M) {target : Pencil N M} {index : ℕ}
    (write : Callback α ε π) (h : array.findLayout target = some index) :
    ∃ after, array.overwriteWith target write = (after, (write.run
        (array.storage.take (array.extraShape.elementCount * target.localLen))).2.ending) ∧
      Rewrites array after (calledOn array (array.extraShape.elementCount * target.localLen) write)
        (if (write.run (array.storage.take
            (array.extraShape.elementCount * target.localLen))).2.status = 0
          then .valid index else .poisoned) := by
  have hpencil := findLayout_eq_some h
  have hfits := (layout_fits array (List.mem_of_getElem? hpencil)).1
  obtain ⟨view, hview, _, _, hstorage⟩ := viewOf_eq array.poison hpencil
  have hlen : view.storage.length = array.extraShape.elementCount * target.localLen := by
    rw [hstorage]
    exact List.length_take_of_le hfits
  obtain ⟨guard, hcall, hwritten⟩ := callOn_eq array.poison write hfits
  unfold ManyPencilArray.overwriteWith
  simp only [h, hview, hlen, hcall, show array.poison.storage = array.storage from rfl]
  cases houtcome : (write.run
      (array.storage.take (array.extraShape.elementCount * target.localLen))).2 with
  | ok =>
    have hlt : index < guard.pencils.length := by
      rw [hwritten.pencils]
      exact (List.getElem?_eq_some_iff.mp hpencil).1
    obtain ⟨after, hcommit, hcommitted⟩ := commit_eq hlt
    simp only [hcommit]
    exact ⟨after, rfl, hcommitted.pencils.trans hwritten.pencils,
      hcommitted.extraShape.trans hwritten.extraShape,
      hcommitted.storage.trans hwritten.storage, hcommitted.state⟩
  | err error =>
    exact ⟨guard, rfl, hwritten.pencils, hwritten.extraShape, hwritten.storage, hwritten.state⟩
  | panic payload =>
    exact ⟨guard, rfl, hwritten.pencils, hwritten.extraShape, hwritten.storage, hwritten.state⟩

/-- **A transition in place** of a readable array makes the destination active where the writer
returned `Ok` and the destination is registered, and else poisons the array. -/
theorem inPlaceTransition_spec (array : ManyPencilArray α N M) {active : ℕ}
    (destinationIndex : ℕ) (write : Callback α ε π) (h : array.state = .valid active) :
    ∃ after ending, array.inPlaceTransition destinationIndex write = (after, ending) ∧
      ((ending = .done ∧ Rewrites array after (calledOn array array.storage.length write)
          (.valid destinationIndex)) ∨
        (ending ≠ .done ∧ Rewrites array after (calledOn array array.storage.length write)
          .poisoned)) := by
  obtain ⟨begun, hbegun, hbegin⟩ := beginInPlaceWrite_eq h
  obtain ⟨guard, hcall, hwritten⟩ := callOn_eq begun write le_rfl
  have hrewrites : Rewrites array guard (calledOn array array.storage.length write) .poisoned := by
    refine ⟨hwritten.pencils.trans hbegin.pencils, hwritten.extraShape.trans hbegin.extraShape,
      ?_, hwritten.state.trans hbegin.state⟩
    rw [hwritten.storage, hbegin.storage]
  unfold ManyPencilArray.inPlaceTransition
  simp only [hbegun, hcall]
  cases houtcome : (write.run (begun.storage.take begun.storage.length)).2 with
  | ok =>
    by_cases hlt : destinationIndex < guard.pencils.length
    · obtain ⟨after, hcommit, hcommitted⟩ := commit_eq hlt
      simp only [hcommit]
      exact ⟨after, _, rfl, Or.inl ⟨rfl, hcommitted.pencils.trans hrewrites.pencils,
        hcommitted.extraShape.trans hrewrites.extraShape,
        hcommitted.storage.trans hrewrites.storage, hcommitted.state⟩⟩
    · have hcommit : guard.commit destinationIndex
          = .error (.invalidActiveLayout destinationIndex guard.pencils.length) := by
        unfold ManyPencilArray.commit
        rw [dif_neg hlt]
      simp only [hcommit]
      exact ⟨guard, _, rfl, Or.inr ⟨by simp, hrewrites⟩⟩
  | err error => exact ⟨guard, _, rfl, Or.inr ⟨by simp [CallbackOutcome.ending], hrewrites⟩⟩
  | panic payload => exact ⟨guard, _, rfl, Or.inr ⟨by simp [CallbackOutcome.ending], hrewrites⟩⟩

/-- An edit changes the elements of the active layout only. -/
theorem editActive_spec (array : ManyPencilArray α N M) {active : ℕ} {pencil : Pencil N M}
    (edit : Callback α ε π) (h : array.state = .valid active)
    (hpencil : array.pencils[active]? = some pencil) :
    ∃ after, array.editActive edit = (after, (edit.run
        (array.storage.take (array.extraShape.elementCount * pencil.localLen))).2.ending) ∧
      Rewrites array after
        (calledOn array (array.extraShape.elementCount * pencil.localLen) edit)
        (.valid active) := by
  have hfits := (layout_fits array (List.mem_of_getElem? hpencil)).1
  obtain ⟨view, hview, _, _, hstorage⟩ := viewOf_eq array hpencil
  have hlen : view.storage.length = array.extraShape.elementCount * pencil.localLen := by
    rw [hstorage]
    exact List.length_take_of_le hfits
  obtain ⟨after, hcall, hwritten⟩ := callOn_eq array edit hfits
  have hactive : array.activeView = .ok view := by
    unfold ManyPencilArray.activeView
    rw [activeIndex_valid h]
    exact hview
  refine ⟨after, ?_, hwritten.pencils, hwritten.extraShape, hwritten.storage,
    hwritten.state.trans h⟩
  unfold ManyPencilArray.editActive
  simp only [hactive, hlen, hcall]

/-! ## One step -/

/-- The registry, and with it the length of the buffer, is fixed. -/
structure SameRegistry (array after : ManyPencilArray α N M) : Prop where
  pencils : after.pencils = array.pencils
  extraShape : after.extraShape = array.extraShape
  storageLen : after.storage.length = array.storage.length

theorem Rewrites.sameRegistry {array after : ManyPencilArray α N M} {storage : List α}
    {state : LayoutState} (h : Rewrites array after storage state)
    (hlen : storage.length = array.storage.length) : SameRegistry array after :=
  ⟨h.pencils, h.extraShape, by rw [h.storage, hlen]⟩

theorem calledOn_length (array : ManyPencilArray α N M) {len : ℕ} (callback : Callback α ε π)
    (h : len ≤ array.storage.length) :
    (calledOn array len callback).length = array.storage.length := by
  rw [List.length_append, callback.length_run, List.length_take, List.length_drop]
  omega

/-- The layout a finished write makes active, and the storage it leaves. -/
def Writes (array : ManyPencilArray α N M) (index : ℕ) (storage : List α) :
    ArrayOperation α ε π N M → Prop
  | .overwriteWith target write => array.findLayout target = some index ∧
      storage = calledOn array (array.extraShape.elementCount * target.localLen) write
  | .inPlaceTransition destinationIndex write => index = destinationIndex ∧
      storage = calledOn array array.storage.length write
  | .activePencil | .activeView | .editActive _ => False

/-- What one operation does to an array. -/
structure StepSpec (array : ManyPencilArray α N M) (operation : ArrayOperation α ε π N M)
    (after : ManyPencilArray α N M) (ending : Ending ε π) : Prop where
  registry : SameRegistry array after
  kept : ¬ Starts array operation → after = array
  unguarded : ¬ Guarded operation → after.state = array.state
  finished : Guarded operation → Starts array operation → ending = .done →
    ∃ index, after.state = .valid index ∧ Writes array index after.storage operation
  unfinished : Guarded operation → Starts array operation → ending ≠ .done →
    after.state = .poisoned

theorem step_kept {array : ManyPencilArray α N M} {operation : ArrayOperation α ε π N M}
    (h : ¬ Starts array operation) {ending : Ending ε π} :
    StepSpec array operation array ending where
  registry := ⟨rfl, rfl, rfl⟩
  kept := fun _ => rfl
  unguarded := fun _ => rfl
  finished := fun _ hstarts => absurd hstarts h
  unfinished := fun _ hstarts => absurd hstarts h

theorem not_valid_iff {array : ManyPencilArray α N M} :
    (¬ ∃ index, array.state = .valid index) ↔ array.state = .poisoned := by
  cases hstate : array.state with
  | valid index => simp
  | poisoned => simp

theorem step_editActive (array : ManyPencilArray α N M) (edit : Callback α ε π) :
    StepSpec array (.editActive edit) (array.editActive edit).1 (array.editActive edit).2 := by
  by_cases h : ∃ index, array.state = .valid index
  · obtain ⟨index, hstate⟩ := h
    have hpencil := List.getElem?_eq_getElem (array.state_ok index hstate)
    obtain ⟨after, hedit, hrewrites⟩ := editActive_spec array edit hstate hpencil
    rw [hedit]
    exact {
      registry := hrewrites.sameRegistry (calledOn_length array edit
        (layout_fits array (List.mem_of_getElem? hpencil)).1)
      kept := fun hnot => absurd ⟨index, hstate⟩ hnot
      unguarded := fun _ => hrewrites.state.trans hstate.symm
      finished := fun hguarded => hguarded.elim
      unfinished := fun hguarded => hguarded.elim }
  · have hview := ((registryInvariant array).poisoned (not_valid_iff.mp h)).2.1
    unfold ManyPencilArray.editActive
    rw [hview]
    refine step_kept ?_
    exact h

theorem step_overwriteWith (array : ManyPencilArray α N M) (target : Pencil N M)
    (write : Callback α ε π) :
    StepSpec array (.overwriteWith target write) (array.overwriteWith target write).1
      (array.overwriteWith target write).2 := by
  cases hfind : array.findLayout target with
  | none =>
    unfold ManyPencilArray.overwriteWith
    rw [hfind]
    refine step_kept ?_
    rintro ⟨index, hindex⟩
    rw [hfind] at hindex
    contradiction
  | some index =>
    obtain ⟨after, heq, hrewrites⟩ := overwriteWith_spec array write hfind
    have hfits := (layout_fits array (List.mem_of_getElem? (findLayout_eq_some hfind))).1
    rw [heq]
    refine {
      registry := hrewrites.sameRegistry (calledOn_length array write hfits)
      kept := fun hnot => absurd ⟨index, hfind⟩ hnot
      unguarded := fun hnot => absurd trivial hnot
      finished := ?_
      unfinished := ?_ }
    · intro _ _ hdone
      have hzero : (write.run (array.storage.take
          (array.extraShape.elementCount * target.localLen))).2.status = 0 := by
        by_contra hne
        refine ending_ne_done ?_ hdone
        intro hok
        exact hne (by rw [hok]; rfl)
      exact ⟨index, by rw [hrewrites.state, if_pos hzero], hfind, hrewrites.storage⟩
    · intro _ _ hnot
      have hne : (write.run (array.storage.take
          (array.extraShape.elementCount * target.localLen))).2.status ≠ 0 := by
        intro hzero
        cases hrun : (write.run (array.storage.take
            (array.extraShape.elementCount * target.localLen))).2 with
        | ok => exact hnot (by simp only [hrun]; rfl)
        | err error => simp [hrun, CallbackOutcome.status] at hzero
        | panic payload => simp [hrun, CallbackOutcome.status] at hzero
      rw [hrewrites.state, if_neg hne]

theorem step_inPlaceTransition (array : ManyPencilArray α N M) (destinationIndex : ℕ)
    (write : Callback α ε π) :
    StepSpec array (.inPlaceTransition destinationIndex write)
      (array.inPlaceTransition destinationIndex write).1
      (array.inPlaceTransition destinationIndex write).2 := by
  by_cases h : ∃ index, array.state = .valid index
  · obtain ⟨index, hstate⟩ := h
    obtain ⟨after, ending, heq, hcases⟩ :=
      inPlaceTransition_spec array destinationIndex write hstate
    rw [heq]
    have hlen := calledOn_length array write le_rfl
    rcases hcases with ⟨hdone, hrewrites⟩ | ⟨hnot, hrewrites⟩
    · exact {
        registry := hrewrites.sameRegistry hlen
        kept := fun hnot => absurd ⟨index, hstate⟩ hnot
        unguarded := fun hnot => absurd trivial hnot
        finished := fun _ _ _ => ⟨destinationIndex, hrewrites.state, rfl, hrewrites.storage⟩
        unfinished := fun _ _ hne => absurd hdone hne }
    · exact {
        registry := hrewrites.sameRegistry hlen
        kept := fun hnot => absurd ⟨index, hstate⟩ hnot
        unguarded := fun hnot => absurd trivial hnot
        finished := fun _ _ hdone => absurd hdone hnot
        unfinished := fun _ _ _ => hrewrites.state }
  · have hbegin : array.beginInPlaceWrite = .error .poisoned := by
      unfold ManyPencilArray.beginInPlaceWrite
      rw [activeIndex_poisoned (not_valid_iff.mp h)]
      rfl
    unfold ManyPencilArray.inPlaceTransition
    rw [hbegin]
    refine step_kept ?_
    exact h

/-- **What a step can do.** -/
theorem step_spec (array : ManyPencilArray α N M) (operation : ArrayOperation α ε π N M) :
    StepSpec array operation (ArrayOperation.step array operation).1
      (ArrayOperation.step array operation).2 := by
  have hread : ∀ {β : Type} (result : Except ArrayError β),
      (array.read result : _ × Ending ε π).1 = array := by
    intro β result
    cases result <;> rfl
  cases operation with
  | activePencil =>
    rw [show (ArrayOperation.step array .activePencil : _ × Ending ε π).1 = array from hread _]
    exact step_kept id
  | activeView =>
    rw [show (ArrayOperation.step array .activeView : _ × Ending ε π).1 = array from hread _]
    exact step_kept id
  | editActive edit => exact step_editActive array edit
  | overwriteWith target write => exact step_overwriteWith array target write
  | inPlaceTransition destinationIndex write =>
    exact step_inPlaceTransition array destinationIndex write

/-! ## Runs -/

theorem run_sameRegistry (array : ManyPencilArray α N M)
    (operations : List (ArrayOperation α ε π N M)) :
    SameRegistry array (ArrayOperation.run array operations) := by
  induction operations generalizing array with
  | nil => exact ⟨rfl, rfl, rfl⟩
  | cons operation operations ih =>
    have hstep := (step_spec array operation).registry
    have hrun := ih (ArrayOperation.step array operation).1
    exact ⟨hrun.pencils.trans hstep.pencils, hrun.extraShape.trans hstep.extraShape,
      hrun.storageLen.trans hstep.storageLen⟩

/-- None of the operations of a run overwrites the array. -/
def NoOverwrite (array : ManyPencilArray α N M) (operations : List (ArrayOperation α ε π N M)) :
    Prop :=
  ∀ earlier operation later, operations = earlier ++ operation :: later →
    ¬ Overwrites (ArrayOperation.run array earlier) operation

/-- Only an overwrite takes an array out of the poisoned state. -/
theorem step_poisoned {array : ManyPencilArray α N M} {operation : ArrayOperation α ε π N M}
    (h : array.state = .poisoned) (hnot : ¬ Overwrites array operation) :
    (ArrayOperation.step array operation).1.state = .poisoned := by
  have hspec := step_spec array operation
  by_cases hstarts : Starts array operation
  · cases operation with
    | overwriteWith target write =>
      refine hspec.unfinished trivial hstarts ?_
      intro hdone
      exact hnot ⟨target, write, rfl, hdone⟩
    | activePencil => exact hstarts.elim
    | activeView => exact hstarts.elim
    | editActive edit => exact absurd h (fun heq => not_valid_iff.mpr heq hstarts)
    | inPlaceTransition destinationIndex write =>
      exact absurd h (fun heq => not_valid_iff.mpr heq hstarts)
  · rw [hspec.kept hstarts, h]

theorem run_poisoned {array : ManyPencilArray α N M}
    (operations : List (ArrayOperation α ε π N M)) (h : array.state = .poisoned)
    (hnot : NoOverwrite array operations) :
    (ArrayOperation.run array operations).state = .poisoned := by
  induction operations generalizing array with
  | nil => exact h
  | cons operation operations ih =>
    refine ih (step_poisoned h (hnot [] operation operations rfl)) ?_
    intro earlier operation' later heq
    exact hnot (operation :: earlier) operation' later (by rw [heq, List.cons_append])

/-- **The invariant of an array with several layouts**, at every point of every run.  The
registry never changes; the buffer is as long as its longest layout; a valid state names a
registered layout and readers see exactly its prefix.  An operation that does not get as far
as writing changes nothing.  A write under a guard ends with a registered layout active where
it finished, and else leaves the array poisoned until an overwrite succeeds. -/
theorem many_pencil_array_invariant (array : ManyPencilArray α N M)
    (operations : List (ArrayOperation α ε π N M)) :
    RegistryInvariant (ArrayOperation.run array operations) ∧
      SameRegistry array (ArrayOperation.run array operations) ∧
      ∀ operation, StepSpec (ArrayOperation.run array operations) operation
          (ArrayOperation.step (ArrayOperation.run array operations) operation).1
          (ArrayOperation.step (ArrayOperation.run array operations) operation).2 ∧
        (Guarded operation → Starts (ArrayOperation.run array operations) operation →
          (ArrayOperation.step (ArrayOperation.run array operations) operation).2 ≠ .done →
          ∀ later, NoOverwrite (ArrayOperation.run array (operations ++ [operation])) later →
            (ArrayOperation.run array (operations ++ operation :: later)).state
              = .poisoned) := by
  refine ⟨registryInvariant _, run_sameRegistry array operations, fun operation =>
    ⟨step_spec _ operation, ?_⟩⟩
  intro hguarded hstarts hnot later hlater
  have hpoisoned := (step_spec _ operation).unfinished hguarded hstarts hnot
  have hrun : ∀ rest, ArrayOperation.run array (operations ++ operation :: rest)
      = ArrayOperation.run
        (ArrayOperation.step (ArrayOperation.run array operations) operation).1 rest := by
    intro rest
    unfold ArrayOperation.run
    rw [List.foldl_append, List.foldl_cons]
  rw [hrun later]
  rw [hrun []] at hlater
  exact run_poisoned later hpoisoned hlater

end PencilRs.Analysis
