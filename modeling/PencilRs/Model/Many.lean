import PencilRs.Model.Transpose

/-!
# One buffer for several layouts

Only the active layout is observable.  A writer poisons the array before it touches the
storage and makes the new layout active at the end.

SOURCE: pencil-array/src/many.rs
-/

set_option autoImplicit false

namespace PencilRs.Model

variable {N M : ℕ} {α : Type}

inductive LayoutState where
  | valid (index : ℕ)
  | poisoned
deriving Repr, DecidableEq

/-- `iter().max()` of a nonempty list. -/
def maxOf : ℕ → List ℕ → ℕ := List.foldl max

/-- SOURCE: many.rs:307-347 -/
def validateRegistry (pencils : List (Pencil N M)) (active : ℕ) (extraShape : ExtraShape) :
    Except ArrayError ℕ :=
  match pencils with
  | [] => .error .incompatiblePencils
  | first :: rest =>
    if active ≥ pencils.length then .error (.invalidActiveLayout active pencils.length)
    else if rest.any fun pencil =>
        !first.sameTopology pencil || first.globalShape ≠ pencil.globalShape then
      .error .incompatiblePencils
    else if (List.range pencils.length).any fun index =>
        match pencils[index]? with
        | some pencil => (pencils.take index).any fun registered => registered.sameLayout pencil
        | none => false then
      .error .incompatiblePencils
    else
      (checkedProduct [maxOf first.localLen (rest.map Pencil.localLen),
        extraShape.elementCount]).mapError .geometry

theorem active_lt_of_validateRegistry {pencils : List (Pencil N M)} {active required : ℕ}
    {extraShape : ExtraShape} (h : validateRegistry pencils active extraShape = .ok required) :
    active < pencils.length := by
  unfold validateRegistry at h
  cases pencils with
  | nil => simp at h
  | cons first rest =>
    by_contra hge
    simp only at h
    rw [if_pos (by omega)] at h
    contradiction

/-- A buffer of the length its registry requires. -/
structure ManyPencilArray (α : Type) (N M : ℕ) where
  pencils : List (Pencil N M)
  extraShape : ExtraShape
  storage : List α
  state : LayoutState
  registry_ok : ∃ active, validateRegistry pencils active extraShape = .ok storage.length
  state_ok : ∀ index, state = .valid index → index < pencils.length

namespace ManyPencilArray

theorem valid_state_ok {pencils : List (Pencil N M)} {active : ℕ} {extraShape : ExtraShape}
    {required : ℕ} (h : validateRegistry pencils active extraShape = .ok required) :
    ∀ index, LayoutState.valid active = .valid index → index < pencils.length := by
  intro index heq
  cases heq
  exact active_lt_of_validateRegistry h

theorem poisoned_state_ok (array : ManyPencilArray α N M) :
    ∀ index, LayoutState.poisoned = .valid index → index < array.pencils.length := by
  intro index h
  cases h

/-- SOURCE: many.rs:44-86 -/
def fromVec (pencils : List (Pencil N M)) (active : ℕ) (extraShape : ExtraShape)
    (storage : List α) : Except ArrayError (ManyPencilArray α N M) :=
  match h : validateRegistry pencils active extraShape with
  | .error e => .error e
  | .ok required =>
    if hlen : storage.length = required then .ok {
        pencils, extraShape, storage
        state := .valid active
        registry_ok := ⟨active, by rw [h, hlen]⟩
        state_ok := valid_state_ok h }
    else .error (.storageLengthMismatch required storage.length)

/-- SOURCE: many.rs:232-241 -/
def activeIndex (array : ManyPencilArray α N M) : Except ArrayError ℕ :=
  match array.state with
  | .valid index =>
    if index < array.pencils.length then .ok index
    else .error (.invalidActiveLayout index array.pencils.length)
  | .poisoned => .error .poisoned

/-- SOURCE: many.rs:243-247 -/
def findLayout (array : ManyPencilArray α N M) (pencil : Pencil N M) : Option ℕ :=
  array.pencils.findIdx? fun registered => registered.sameLayout pencil

/-- SOURCE: many.rs:256-268 -/
def layoutLen (array : ManyPencilArray α N M) (index : ℕ) : Except ArrayError ℕ :=
  match array.pencils[index]? with
  | none => .error (.invalidActiveLayout index array.pencils.length)
  | some pencil =>
    (checkedProduct [pencil.localLen, array.extraShape.elementCount]).mapError .geometry

/-- The storage of `active_view`: the prefix of the active layout's length.

SOURCE: many.rs:179-187 -/
def activeStorage (array : ManyPencilArray α N M) : Except ArrayError (List α) := do
  let index ← array.activeIndex
  let usedLen ← array.layoutLen index
  return array.storage.take usedLen

/-- `begin_in_place_write`: the array whose guard is held is poisoned.

SOURCE: many.rs:249-254, 277-280 -/
def beginInPlaceWrite (array : ManyPencilArray α N M) :
    Except ArrayError (ManyPencilArray α N M) := do
  let _ ← array.activeIndex
  return { array with
    state := .poisoned
    state_ok := poisoned_state_ok array }

/-- Store through `storage_mut`, which cannot change the length. -/
def writeStorage (array : ManyPencilArray α N M) (storage : List α) :
    Option (ManyPencilArray α N M) :=
  if h : storage.length = array.storage.length then some { array with
    storage := storage
    registry_ok := h ▸ array.registry_ok }
  else none

/-- `LayoutWriteGuard::commit`.

SOURCE: many.rs:286-295 -/
def commit (array : ManyPencilArray α N M) (index : ℕ) :
    Except ArrayError (ManyPencilArray α N M) :=
  if h : index < array.pencils.length then .ok { array with
      state := .valid index
      state_ok := fun _ heq => by
        cases heq
        exact h }
  else .error (.invalidActiveLayout index array.pencils.length)

end ManyPencilArray

/-- What the in-place preflight hands on. -/
structure PreparedInPlace where
  destinationIndex : ℕ
  exchange : PreparedExchange
deriving Repr, DecidableEq

/-- SOURCE: transpose.rs:520-554 -/
def prepareInPlace (alloc : Allocator) (plan : TransposePlanCore N M)
    (array : ManyPencilArray α N M) (workspace : TransposeWorkspace α) :
    Except TransposeError PreparedInPlace := do
  let sourceIndex ← array.activeIndex.mapError .array
  let activeSource ← okOr array.pencils[sourceIndex]? .sourceLayoutMismatch
  if !activeSource.sameLayout plan.source then throw .sourceLayoutMismatch
  let destinationIndex ← okOr (array.findLayout plan.destination) .destinationLayoutMismatch
  let extraCount := array.extraShape.elementCount
  let sourceLen ← (checkedProduct [activeSource.localLen, extraCount]).mapError fun error =>
    .array (.geometry error)
  let destinationPencil ← okOr array.pencils[destinationIndex]? .destinationLayoutMismatch
  let destinationLen ← (checkedProduct [destinationPencil.localLen, extraCount]).mapError
    fun error => .array (.geometry error)
  let exchange ← plan.prepareCommon alloc array.extraShape sourceLen destinationLen workspace
  return { destinationIndex, exchange }

end PencilRs.Model
