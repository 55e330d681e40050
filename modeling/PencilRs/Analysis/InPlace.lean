import PencilRs.Analysis.Messages

/-!
# Transposing in place

The buffer of a registry holds every layout of it.  Finishing an in-place transpose makes
the destination layout active, writes its prefix of the buffer and leaves the rest alone.
-/

set_option autoImplicit false

namespace PencilRs.Analysis

open PencilRs.Computation PencilRs.Model

variable {N M : ℕ} {α : Type} {topology : MpiTopology M} {mode : CommunicationMode}

/-! ## The registry -/

theorem le_foldl_max (l : List ℕ) (a : ℕ) : a ≤ l.foldl max a ∧ ∀ x ∈ l, x ≤ l.foldl max a := by
  induction l generalizing a with
  | nil => simp
  | cons y l ih =>
    obtain ⟨hstart, hmem⟩ := ih (max a y)
    refine ⟨(le_max_left a y).trans hstart, ?_⟩
    intro x hx
    cases List.mem_cons.mp hx with
    | inl heq => exact heq ▸ (le_max_right a y).trans hstart
    | inr hx => exact hmem x hx

/-- The buffer of an array holds each of its layouts. -/
theorem layout_fits (array : ManyPencilArray α N M) {pencil : Pencil N M}
    (h : pencil ∈ array.pencils) :
    array.extraShape.elementCount * pencil.localLen ≤ array.storage.length ∧
      array.storage.length < usizeLimit := by
  obtain ⟨active, hregistry⟩ := array.registry_ok
  unfold validateRegistry at hregistry
  cases hpencils : array.pencils with
  | nil =>
    rw [hpencils] at h
    contradiction
  | cons first rest =>
    rw [hpencils] at h hregistry
    simp only at hregistry
    split at hregistry
    · contradiction
    split at hregistry
    · contradiction
    split at hregistry
    · contradiction
    cases hproduct : checkedProduct
        [maxOf first.localLen (rest.map Pencil.localLen), array.extraShape.elementCount] with
    | error e =>
      rw [hproduct] at hregistry
      contradiction
    | ok required =>
      rw [hproduct] at hregistry
      have hrequired : required = array.storage.length := Except.ok.inj hregistry
      obtain ⟨hprod, hlt⟩ := checkedProduct_eq_ok.mp hproduct
      obtain ⟨hfirst, hrest⟩ := le_foldl_max (rest.map Pencil.localLen) first.localLen
      have hmax : pencil.localLen ≤ maxOf first.localLen (rest.map Pencil.localLen) := by
        cases List.mem_cons.mp h with
        | inl heq => exact heq ▸ hfirst
        | inr hmem => exact hrest _ (List.mem_map_of_mem hmem)
      rw [← hrequired]
      simp only [List.prod_cons, List.prod_nil, Nat.mul_one] at hprod hlt
      rw [hprod, Nat.mul_comm]
      exact ⟨Nat.mul_le_mul_right _ hmax, hlt⟩

theorem layoutLen_eq (array : ManyPencilArray α N M) {index : ℕ} {pencil : Pencil N M}
    (h : array.pencils[index]? = some pencil) :
    array.layoutLen index = .ok (array.extraShape.elementCount * pencil.localLen) := by
  obtain ⟨hle, hlt⟩ := layout_fits array (List.mem_of_getElem? h)
  have hproduct : checkedProduct [pencil.localLen, array.extraShape.elementCount]
      = .ok (array.extraShape.elementCount * pencil.localLen) := by
    apply checkedProduct_eq_ok.mpr
    simp only [List.prod_cons, List.prod_nil, Nat.mul_one, Nat.mul_comm pencil.localLen,
      true_and]
    omega
  unfold ManyPencilArray.layoutLen
  rw [h]
  simp only [hproduct]
  rfl

theorem findLayout_eq_some {array : ManyPencilArray α N M} {pencil : Pencil N M} {index : ℕ}
    (h : array.findLayout pencil = some index) : array.pencils[index]? = some pencil := by
  obtain ⟨hlt, hsame, _⟩ := List.findIdx?_eq_some_iff_getElem.mp h
  rw [List.getElem?_eq_getElem hlt, Pencil.eq_of_sameLayout hsame]

/-- The active layout's prefix, where the active layout is `pencil`. -/
theorem activeStorage_eq {array : ManyPencilArray α N M} {index : ℕ} {pencil : Pencil N M}
    (hstate : array.state = .valid index) (h : array.pencils[index]? = some pencil) :
    array.activeStorage
      = .ok (array.storage.take (array.extraShape.elementCount * pencil.localLen)) := by
  have hindex : array.activeIndex = .ok index := by
    unfold ManyPencilArray.activeIndex
    rw [hstate]
    simp only
    rw [if_pos (array.state_ok index hstate)]
  unfold ManyPencilArray.activeStorage
  rw [hindex]
  simp only [bind, Except.bind, layoutLen_eq array h]
  rfl

/-! ## Writing -/

/-- A writer's array differs from `array` in the state and, where it says so, in the storage. -/
structure Rewrites (array after : ManyPencilArray α N M) (storage : List α)
    (state : LayoutState) : Prop where
  pencils : after.pencils = array.pencils
  extraShape : after.extraShape = array.extraShape
  storage : after.storage = storage
  state : after.state = state

theorem beginInPlaceWrite_eq {array : ManyPencilArray α N M} {index : ℕ}
    (h : array.state = .valid index) :
    ∃ guard, array.beginInPlaceWrite = .ok guard ∧
      Rewrites array guard array.storage .poisoned := by
  refine ⟨{ array with
    state := .poisoned
    state_ok := fun _ h => by cases h }, ?_, rfl, rfl, rfl, rfl⟩
  unfold ManyPencilArray.beginInPlaceWrite ManyPencilArray.activeIndex
  rw [h]
  simp only
  rw [if_pos (array.state_ok index h)]
  rfl

theorem writeStorage_eq {array : ManyPencilArray α N M} {storage : List α}
    (h : storage.length = array.storage.length) :
    ∃ after, array.writeStorage storage = some after ∧
      Rewrites array after storage array.state := by
  unfold ManyPencilArray.writeStorage
  rw [dif_pos h]
  exact ⟨_, rfl, rfl, rfl, rfl, rfl⟩

theorem commit_eq {array : ManyPencilArray α N M} {index : ℕ} (h : index < array.pencils.length) :
    ∃ after, array.commit index = .ok after ∧
      Rewrites array after array.storage (.valid index) := by
  unfold ManyPencilArray.commit
  rw [dif_pos h]
  exact ⟨_, rfl, rfl, rfl, rfl, rfl⟩

/-! ## The preflight -/

section Plan

variable (plan : DistributedPlan topology N mode) {c : Coords topology.processGrid}
  {extraShape : ExtraShape} {array : ManyPencilArray α N M} {workspace : TransposeWorkspace α}

/-- What an in-place preflight that passed has checked. -/
structure InPlaceReady (c : Coords topology.processGrid) (extraShape : ExtraShape)
    (array : ManyPencilArray α N M) (workspace : TransposeWorkspace α)
    (prepared : PreparedInPlace) : Prop where
  active : ∃ index, array.state = .valid index ∧
    array.pencils[index]? = some (plan.source.on c)
  destination : array.findLayout (plan.destination.on c) = some prepared.destinationIndex
  exchange : prepared.exchange = preparedFor (plan.source.on c) (plan.destination.on c)
    (changedAxis plan) extraShape.elementCount mode
  send : extraShape.elementCount * (plan.source.on c).localLen ≤ workspace.sendBuffer.length
  receive : extraShape.elementCount * (plan.destination.on c).localLen
    ≤ workspace.receiveBuffer.length

theorem prepareInPlace_ok {alloc : Allocator} {prepared : PreparedInPlace}
    (hextra : array.extraShape = extraShape)
    (h : prepareInPlace alloc (plan.on c) array workspace = .ok prepared) :
    InPlaceReady plan c extraShape array workspace prepared := by
  subst hextra
  unfold prepareInPlace at h
  rw [plan.source_eq, plan.destination_eq] at h
  obtain ⟨index, hindex, h⟩ := bind_eq_ok.mp h
  obtain ⟨active, hactive, h⟩ := bind_eq_ok.mp h
  have hactive := okOr_eq_ok.mp hactive
  split at h
  · contradiction
  rename_i hsame
  have hsource : active = plan.source.on c := by
    apply Pencil.eq_of_sameLayout
    simpa using hsame
  subst hsource
  obtain ⟨destinationIndex, hfind, h⟩ := bind_eq_ok.mp h
  have hfind := okOr_eq_ok.mp hfind
  have hdestination := findLayout_eq_some hfind
  obtain ⟨sourceLen, hsourceLen, h⟩ := bind_eq_ok.mp h
  obtain ⟨pencil, hpencil, h⟩ := bind_eq_ok.mp h
  obtain rfl : plan.destination.on c = pencil :=
    Option.some.inj (hdestination.symm.trans (okOr_eq_ok.mp hpencil))
  obtain ⟨destinationLen, hdestinationLen, h⟩ := bind_eq_ok.mp h
  obtain ⟨exchange, hexchange, h⟩ := bind_eq_ok.mp h
  cases h
  obtain ⟨hsourceFit, hlt⟩ := layout_fits array (List.mem_of_getElem? hactive)
  obtain ⟨hdestinationFit, _⟩ := layout_fits array (List.mem_of_getElem? hdestination)
  have hlen : ∀ {len : ℕ} {p : Pencil N M},
      (checkedProduct [p.localLen, array.extraShape.elementCount]).mapError
        (fun error => TransposeError.array (.geometry error)) = .ok len →
      len = array.extraShape.elementCount * p.localLen := by
    intro len p hmap
    cases hproduct : checkedProduct [p.localLen, array.extraShape.elementCount] with
    | error e =>
      rw [hproduct] at hmap
      contradiction
    | ok value =>
      rw [hproduct] at hmap
      have heq := (checkedProduct_eq_ok.mp hproduct).1
      cases hmap
      simpa [Nat.mul_comm] using heq
  rw [hlen hsourceLen, hlen hdestinationLen] at hexchange
  obtain ⟨heq, hsend, hreceive⟩ := prepareCommon_ok plan (hsourceFit.trans_lt hlt)
    (hdestinationFit.trans_lt hlt) hexchange
  refine ⟨⟨index, ?_, hactive⟩, hfind, heq, hsend, hreceive⟩
  cases hstate : array.state with
  | poisoned =>
    unfold ManyPencilArray.activeIndex at hindex
    rw [hstate] at hindex
    contradiction
  | valid active =>
    unfold ManyPencilArray.activeIndex at hindex
    rw [hstate] at hindex
    simp only at hindex
    rw [if_pos (array.state_ok active hstate)] at hindex
    exact congrArg _ (Except.ok.inj hindex)

theorem InPlaceReady.fits {prepared : PreparedInPlace}
    (h : InPlaceReady plan c extraShape array workspace prepared)
    (hextra : array.extraShape = extraShape) :
    extraShape.elementCount * (plan.source.on c).localLen ≤ array.storage.length ∧
      extraShape.elementCount * (plan.destination.on c).localLen ≤ array.storage.length ∧
      array.storage.length < usizeLimit := by
  subst hextra
  obtain ⟨index, _, hsource⟩ := h.active
  obtain ⟨hle, hlt⟩ := layout_fits array (List.mem_of_getElem? hsource)
  obtain ⟨hle', _⟩ := layout_fits array (List.mem_of_getElem? (findLayout_eq_some h.destination))
  exact ⟨hle, hle', hlt⟩

theorem InPlaceReady.destinationIndex_lt {prepared : PreparedInPlace}
    (h : InPlaceReady plan c extraShape array workspace prepared) :
    prepared.destinationIndex < array.pencils.length :=
  (List.getElem?_eq_some_iff.mp (findLayout_eq_some h.destination)).1

/-- The source of the transpose: the prefix of the source layout. -/
theorem InPlaceReady.activeStorage {prepared : PreparedInPlace}
    (h : InPlaceReady plan c extraShape array workspace prepared)
    (hextra : array.extraShape = extraShape) :
    array.activeStorage = .ok
      (array.storage.take (extraShape.elementCount * (plan.source.on c).localLen)) := by
  obtain ⟨index, hstate, hsource⟩ := h.active
  rw [activeStorage_eq hstate hsource, hextra]

/-! ## The end of the transpose -/

/-- The destination layout is active and transposed; what it does not cover is as before. -/
structure TransposedInPlace (c : Coords topology.processGrid) (E : ℕ)
    (elements : Coords topology.processGrid → List α) (before after : ManyPencilArray α N M) :
    Prop where
  pencils : after.pencils = before.pencils
  extraShape : after.extraShape = before.extraShape
  length : after.storage.length = before.storage.length
  active : ∃ index, before.findLayout (plan.destination.on c) = some index ∧
    after.state = .valid index
  transposed : IsTransposed plan c E elements after.storage
  kept : ∀ j, E * (plan.destination.on c).localLen ≤ j →
    after.storage[j]? = before.storage[j]?

/-- **Finishing in place** transposes the prefix of the destination layout. -/
theorem finishInPlace_spec {prepared : PreparedInPlace}
    {elements : Coords topology.processGrid → List α} {received : List α}
    (h : InPlaceReady plan c extraShape array workspace prepared)
    (hextra : array.extraShape = extraShape)
    (hlen : received.length = extraShape.elementCount * (plan.destination.on c).localLen)
    (hreceived : HasReceived plan c extraShape.elementCount elements none received) :
    ∃ after, finishInPlace (plan.on c) array prepared.destinationIndex prepared.exchange received
        extraShape.elementCount = some after ∧
      TransposedInPlace plan c extraShape.elementCount elements array after := by
  obtain ⟨_, hle, hlt⟩ := h.fits plan hextra
  obtain ⟨index, hstate, _⟩ := h.active
  obtain ⟨buf, hbuf, hbufLen, _, htransposed, hkept⟩ := unpack_isTransposed plan c
    extraShape.elementCount (Buf.fresh array.storage) hlen le_rfl (hle.trans_lt hlt) hle hreceived
  have hreceiveLen : prepared.exchange.requirements.receiveLen
      = extraShape.elementCount * (plan.destination.on c).localLen := by
    rw [h.exchange]
    exact Nat.mul_comm _ _
  obtain ⟨guard, hguard, hbegun⟩ := beginInPlaceWrite_eq hstate
  obtain ⟨written, hwritten, hrewritten⟩ := writeStorage_eq
    (show buf.cells.length = guard.storage.length by rw [hbufLen, hbegun.storage]; rfl)
  have hlayout : prepared.destinationIndex < written.pencils.length := by
    rw [hrewritten.pencils, hbegun.pencils]
    exact h.destinationIndex_lt
  obtain ⟨after, hafter, hcommitted⟩ := commit_eq hlayout
  refine ⟨after, ?_, ?_, ?_, ?_, ⟨_, h.destination, hcommitted.state⟩, ?_, ?_⟩
  · unfold finishInPlace
    rw [hguard, hreceiveLen, plan.destination_eq]
    simp only [Except.toOption, Option.bind_eq_bind, Option.bind_some]
    rw [if_neg (by rw [hbegun.storage]; omega), hbegun.storage, hbuf]
    simp only [Option.bind_some, hwritten, hafter]
  · rw [hcommitted.pencils, hrewritten.pencils, hbegun.pencils]
  · rw [hcommitted.extraShape, hrewritten.extraShape, hbegun.extraShape]
  · rw [hcommitted.storage, hrewritten.storage, hbufLen]
    rfl
  · rw [hcommitted.storage, hrewritten.storage]
    exact htransposed
  · rw [hcommitted.storage, hrewritten.storage]
    exact hkept

theorem InPlaceReady.exchangeReady {prepared : PreparedInPlace}
    (h : InPlaceReady plan c extraShape array workspace prepared)
    (hextra : array.extraShape = extraShape) :
    ExchangeReady plan extraShape.elementCount c array.storage workspace prepared.exchange := by
  obtain ⟨hle, hle', hlt⟩ := h.fits plan hextra
  exact ⟨h.exchange, hle, hle.trans_lt hlt, hle'.trans_lt hlt, h.send, h.receive⟩

/-- The source prefix is all that is packed. -/
theorem InPlaceReady.exchangeReady_take {prepared : PreparedInPlace}
    (h : InPlaceReady plan c extraShape array workspace prepared)
    (hextra : array.extraShape = extraShape) :
    ExchangeReady plan extraShape.elementCount c
      (array.storage.take (extraShape.elementCount * (plan.source.on c).localLen)) workspace
      prepared.exchange := by
  obtain ⟨hle, _⟩ := h.fits plan hextra
  refine { h.exchangeReady plan hextra with storage := ?_ }
  rw [List.length_take]
  omega

/-- Every rank finishes with what was delivered to it. -/
theorem finishInPlace_delivered {arrays : Coords topology.processGrid → ManyPencilArray α N M}
    {workspace : Coords topology.processGrid → TransposeWorkspace α}
    {prepared : Coords topology.processGrid → PreparedInPlace}
    {received : Coords topology.processGrid → List α}
    (h : ∀ c, InPlaceReady plan c extraShape (arrays c) (workspace c) (prepared c))
    (hextra : ∀ c, (arrays c).extraShape = extraShape)
    (hreceived : ∀ c, (received c).length
        = extraShape.elementCount * (plan.destination.on c).localLen ∧
      HasReceived plan c extraShape.elementCount (fun d => (arrays d).storage.take
        (extraShape.elementCount * (plan.source.on d).localLen)) none (received c))
    (c : Coords topology.processGrid) :
    ∃ after, finishInPlace (plan.on c) (arrays c) (prepared c).destinationIndex
        (prepared c).exchange (received c) extraShape.elementCount = some after ∧
      TransposedInPlace plan c extraShape.elementCount (fun d => (arrays d).storage) (arrays c)
        after := by
  obtain ⟨after, hafter, htransposed⟩ := finishInPlace_spec plan (h c) (hextra c)
    (hreceived c).1 (hreceived c).2
  refine ⟨after, hafter, { htransposed with transposed := ?_ }⟩
  refine IsTransposed.congr plan c _ htransposed.transposed ?_
  intro d j hj
  exact List.getElem?_take_of_lt hj

end Plan

/-! ## Two ranks -/

/-- The rows of three by two, in a buffer that also holds its columns. -/
def rowsAndColumns (c : Coords twoRanks.processGrid) : ManyPencilArray ℕ 2 1 where
  pencils := [(threeByTwo 0 AxisPermutation.identity).on c, (threeByTwo 1 swapAxes).on c]
  extraShape := ExtraShape.scalar
  storage := List.range (max ((threeByTwo 0 AxisPermutation.identity).on c).localLen
    ((threeByTwo 1 swapAxes).on c).localLen)
  state := .valid 0
  registry_ok := by
    refine ⟨0, ?_⟩
    rw [List.length_range]
    revert c
    decide
  state_ok := by
    rintro index heq
    cases heq
    exact Nat.zero_lt_two

theorem rowsAndColumns_prepared (c : Coords twoRanks.processGrid) :
    ∃ prepared, prepareInPlace (fun _ => true) ((rowsToColumns .pointToPoint).on c)
      (rowsAndColumns c) (zeroWorkspace 6) = .ok prepared := by
  have hok : (prepareInPlace (fun _ => true) ((rowsToColumns .pointToPoint).on c)
      (rowsAndColumns c) (zeroWorkspace 6)).isOk = true := by
    revert c
    decide
  cases h : prepareInPlace (fun _ => true) ((rowsToColumns .pointToPoint).on c)
      (rowsAndColumns c) (zeroWorkspace 6) with
  | ok prepared => exact ⟨prepared, rfl⟩
  | error e =>
    rw [h] at hok
    contradiction

end PencilRs.Analysis
