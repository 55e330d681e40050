import PencilRs.Model.Axis

/-!
# Cartesian topologies

A topology is a non-periodic process grid together with the coordinates of the calling
rank.  The ranks of one topology are the points of the grid; a rank's number in the
Cartesian communicator is the row-major number of its coordinates, and its number in the
one-dimensional communicator of an axis is its coordinate on that axis, as MPI numbers
them.

SOURCE: pencil-array/src/topology.rs
-/

set_option autoImplicit false

namespace PencilRs.Model

open PencilRs.Computation

inductive TopologyError where
  | coordinateOutOfBounds (axis coordinate extent : ℕ)
  | countOverflow
deriving Repr, DecidableEq

/-- An owned topology on one rank.  `handle` stands for the identity of the shared object
(`Arc::ptr_eq`); two topologies are the same object when the records are equal. -/
structure MpiTopology (M : ℕ) where
  handle : ℕ
  processGrid : Fin M → ℕ
  localCoords : Fin M → ℕ
  extents_pos : ∀ axis, 0 < processGrid axis
  coords_lt : ∀ axis, localCoords axis < processGrid axis
  size_le : ∏ axis, processGrid axis ≤ countMax
deriving DecidableEq

/-- The ranks of a process grid, by coordinates. -/
abbrev Coords {M : ℕ} (processGrid : Fin M → ℕ) : Type := (axis : Fin M) → Fin (processGrid axis)

/-- `subcommunicator(axis).process_at_rank(k)`: the rank that differs from the caller in the
coordinate of the axis only. -/
abbrev peerRankOf {M : ℕ} {processGrid : Fin M → ℕ} (c : Coords processGrid) (axis : Fin M)
    (k : Fin (processGrid axis)) : Coords processGrid := Function.update c axis k

namespace MpiTopology

variable {M : ℕ}

/-- The loop of `rank_at` that turns coordinates into C integers. -/
def mpiCoords (topology : MpiTopology M) (coords : Fin M → ℕ) :
    Except TopologyError (Fin M → ℕ) :=
  (List.finRange M).foldlM (fun converted axis =>
    if coords axis ≥ topology.processGrid axis then
      .error (.coordinateOutOfBounds axis (coords axis) (topology.processGrid axis))
    else (okOr (countTryFrom (coords axis)) .countOverflow).map
      (Function.update converted axis)) fun _ => 0

/-- The rank number MPI gives to coordinates: row-major order. -/
def cartesianRank (processGrid coords : Fin M → ℕ) : ℕ :=
  (List.finRange M).foldl (fun rank axis => rank * processGrid axis + coords axis) 0

/-- SOURCE: topology.rs:160-180 -/
def rankAt (topology : MpiTopology M) (coords : Fin M → ℕ) : Except TopologyError ℕ :=
  (topology.mpiCoords coords).map (cartesianRank topology.processGrid)

/-- The same topology as held by the rank at `coords`. -/
def atCoords (topology : MpiTopology M) (coords : Coords topology.processGrid) :
    MpiTopology M where
  handle := topology.handle
  processGrid := topology.processGrid
  localCoords := fun axis => coords axis
  extents_pos := topology.extents_pos
  coords_lt := fun axis => (coords axis).isLt
  size_le := topology.size_le

/-- The coordinates of the calling rank as a rank of the grid. -/
def here (topology : MpiTopology M) : Coords topology.processGrid :=
  fun axis => ⟨topology.localCoords axis, topology.coords_lt axis⟩

@[simp] theorem atCoords_processGrid (topology : MpiTopology M)
    (coords : Coords topology.processGrid) :
    (topology.atCoords coords).processGrid = topology.processGrid := rfl

@[simp] theorem atCoords_localCoords (topology : MpiTopology M)
    (coords : Coords topology.processGrid) (axis : Fin M) :
    (topology.atCoords coords).localCoords axis = coords axis := rfl

@[simp] theorem atCoords_here (topology : MpiTopology M) :
    topology.atCoords topology.here = topology := rfl

/-- No extent exceeds a C integer: the grid has that many ranks. -/
theorem extent_le (topology : MpiTopology M) (axis : Fin M) :
    topology.processGrid axis ≤ countMax := by
  have hle : topology.processGrid axis ≤ ∏ a, topology.processGrid a :=
    Finset.single_le_prod' (fun a _ => topology.extents_pos a) (Finset.mem_univ axis)
  exact hle.trans topology.size_le

/-- Coordinates inside the grid have a rank. -/
theorem rankAt_ok (topology : MpiTopology M) {coords : Fin M → ℕ}
    (h : ∀ axis, coords axis < topology.processGrid axis) :
    topology.rankAt coords = .ok (cartesianRank topology.processGrid coords) := by
  have hloop : ∀ (l : List (Fin M)) (converted : Fin M → ℕ),
      l.foldlM (fun converted axis =>
        if coords axis ≥ topology.processGrid axis then
          (.error (.coordinateOutOfBounds axis (coords axis) (topology.processGrid axis)) :
            Except TopologyError (Fin M → ℕ))
        else (okOr (countTryFrom (coords axis)) .countOverflow).map
          (Function.update converted axis)) converted
        = .ok (l.foldl (fun t axis => Function.update t axis (coords axis)) converted) := by
    intro l
    induction l with
    | nil => exact fun converted => rfl
    | cons axis l ih =>
      intro converted
      have hlt := h axis
      have hle := topology.extent_le axis
      have hcount : countTryFrom (coords axis) = some (coords axis) := by
        rw [countTryFrom_eq_some]
        exact ⟨by omega, rfl⟩
      rw [List.foldlM_cons, if_neg (by omega), hcount]
      exact ih (Function.update converted axis (coords axis))
  have hcoords : (List.finRange M).foldl (fun t axis => Function.update t axis (coords axis))
      (fun _ => 0) = coords := by
    funext axis
    have hid : Function.Injective (id : Fin M → Fin M) := Function.injective_id
    exact foldl_update_of_mem hid coords _ _ (List.mem_finRange axis)
  unfold rankAt mpiCoords
  rw [hloop, hcoords]
  rfl

end MpiTopology

end PencilRs.Model
