import PencilRs.Computation.Buffer
import PencilRs.Model.Pencil

/-!
# Local grids

The coordinates of the points a rank owns.  A grid restricts the coordinates of every axis to the
rank's range and visits its points in memory order; its iterator is an odometer over the memory
axes.  An index out of bounds, an underflow and a failed debug assertion are panics, and `none`
is a panic.

SOURCE: pencil-array/src/grid.rs
-/

set_option autoImplicit false

namespace PencilRs.Model

open PencilRs.Computation

variable {N M : ℕ} {C : Type}

/-- SOURCE: error.rs:98-113 -/
inductive LocalGridError where
  | axisLengthMismatch (axis expected actual : ℕ)
  | sizeOverflow
deriving Repr, DecidableEq

/-- SOURCE: grid.rs:19-26 -/
structure LocalGrid (C : Type) (N : ℕ) where
  axes : Fin N → List C
  logicalShape : Fin N → ℕ
  memoryShape : Fin N → ℕ
  logicalToMemory : Fin N → ℕ
  len : ℕ

/-- SOURCE: grid.rs:121-129 -/
structure LocalGridIter (C : Type) (N : ℕ) where
  axes : Fin N → List C
  memoryShape : Fin N → ℕ
  logicalToMemory : Fin N → ℕ
  memoryIndices : Fin N → ℕ
  remaining : ℕ

/-- `std::array::from_fn` of a function that may panic. -/
def arrayFromFn {α : Type} (f : Fin N → Option α) : Option (Fin N → α) :=
  if h : ∀ i, (f i).isSome then some fun i => (f i).get (h i) else none

namespace LocalGrid

/-- One axis of the check of the coordinate arrays. -/
def checkAxis (pencil : Pencil N M) (coordinates : Fin N → List C) (axis : Fin N) :
    Except (Stop LocalGridError) Unit :=
  ensure ((coordinates axis).length = pencil.globalShape axis)
    (.error (.axisLengthMismatch axis (pencil.globalShape axis) (coordinates axis).length))

/-- SOURCE: grid.rs:29-76 -/
def fromPencil (pencil : Pencil N M) (coordinates : Fin N → List C) :
    Except (Stop LocalGridError) (LocalGrid C N) := do
  (List.finRange N).foldlM (fun _ axis => checkAxis pencil coordinates axis) ()
  let logicalShape := pencil.localShapeLogical
  let memoryShape := pencil.localShapeMemory
  let len ← (checkedProduct (List.ofFn logicalShape)).mapError fun _ =>
    Stop.error LocalGridError.sizeOverflow
  let memoryLen ← (checkedProduct (List.ofFn memoryShape)).mapError fun _ =>
    Stop.error LocalGridError.sizeOverflow
  ensure (len = memoryLen && len = pencil.localLen) .panic
  let axes ← okOr (arrayFromFn fun axis =>
    slice? (coordinates axis) (pencil.localRanges axis).start (pencil.localRanges axis).stop) .panic
  return {
    axes, logicalShape, memoryShape, len
    logicalToMemory := AxisPermutation.logicalToMemoryOf pencil.permutation.axesInMemoryOrder }

/-- SOURCE: grid.rs:91-102 -/
def getLocal (grid : LocalGrid C N) (localIndices : Fin N → ℕ) :
    Option (Option (Fin N → C)) :=
  if ∃ axis, grid.logicalShape axis ≤ localIndices axis then some none
  else (arrayFromFn fun axis => (grid.axes axis)[localIndices axis]?).map some

/-- SOURCE: grid.rs:110-118 -/
def iter (grid : LocalGrid C N) : LocalGridIter C N where
  axes := grid.axes
  memoryShape := grid.memoryShape
  logicalToMemory := grid.logicalToMemory
  memoryIndices := fun _ => 0
  remaining := grid.len

end LocalGrid

namespace LocalGridIter

/-- The loop of `advance_memory_indices` over the positions that are left.

SOURCE: grid.rs:161-170 -/
def advanceFrom (memoryShape : Fin N → ℕ) (remaining : ℕ) :
    List (Fin N) → (Fin N → ℕ) → Option (Fin N → ℕ)
  | [], indices => if remaining = 0 then some indices else none
  | position :: positions, indices => do
    let last ← checkedSub (memoryShape position) 1
    if indices position < last then
      return Function.update indices position (indices position + 1)
    else advanceFrom memoryShape remaining positions (Function.update indices position 0)

/-- SOURCE: grid.rs:160-170 -/
def advanceMemoryIndices (iter : LocalGridIter C N) : Option (LocalGridIter C N) := do
  let memoryIndices ← advanceFrom iter.memoryShape iter.remaining (List.finRange N).reverse
    iter.memoryIndices
  return { iter with memoryIndices }

/-- The coordinate of one axis at the iterator's point. -/
def coordinate (iter : LocalGridIter C N) (logicalAxis : Fin N) : Option C := do
  let index ← (List.ofFn iter.memoryIndices)[iter.logicalToMemory logicalAxis]?
  (iter.axes logicalAxis)[index]?

/-- SOURCE: grid.rs:134-147 -/
def next (iter : LocalGridIter C N) : Option (Option (Fin N → C) × LocalGridIter C N) := do
  if iter.remaining = 0 then return (none, iter)
  else
    let item ← arrayFromFn iter.coordinate
    let iter := { iter with remaining := iter.remaining - 1 }
    let iter ← (if iter.remaining ≠ 0 then iter.advanceMemoryIndices else some iter)
    return (some item, iter)

/-- SOURCE: grid.rs:149-151 -/
def sizeHint (iter : LocalGridIter C N) : ℕ × Option ℕ := (iter.remaining, some iter.remaining)

/-- The items of `k` calls of `next`, and the iterator after them. -/
def take (iter : LocalGridIter C N) : ℕ → Option (List (Option (Fin N → C)) × LocalGridIter C N)
  | 0 => some ([], iter)
  | k + 1 => do
    let (items, iter) ← take iter k
    let (item, iter) ← iter.next
    return (items ++ [item], iter)

end LocalGridIter

end PencilRs.Model
