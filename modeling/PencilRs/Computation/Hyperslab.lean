import PencilRs.Computation.Loop
import PencilRs.Computation.Selection

/-!
# Dataspaces and hyperslabs

A dataspace has extents and a selection of its places: all of them, none, or a hyperslab, which
takes on each axis `count` blocks of `block` places, `stride` apart.  The selected places are
visited in row-major order.  A transfer moves the elements selected in memory and those selected
in the dataset onto each other, the first to the first and so on; it fails where the numbers of
elements differ or a selection leaves the extents.
-/

set_option autoImplicit false

namespace PencilRs.Computation

/-- One axis of a hyperslab. -/
structure SlabAxis where
  extent : ℕ
  start : ℕ
  stride : ℕ
  count : ℕ
  block : ℕ
deriving Repr, DecidableEq

namespace SlabAxis

/-- The selected indices of the axis. -/
def indices (axis : SlabAxis) : List ℕ :=
  (List.range axis.count).flatMap fun k =>
    (List.range axis.block).map fun j => axis.start + k * axis.stride + j

/-- No block leaves the extent, and blocks do not overlap. -/
def Inside (axis : SlabAxis) : Prop :=
  axis.start + (axis.count - 1) * axis.stride + axis.block ≤ axis.extent ∧
    (axis.count ≤ 1 ∨ axis.block ≤ axis.stride)

instance (axis : SlabAxis) : Decidable axis.Inside := inferInstanceAs (Decidable (_ ∧ _))

end SlabAxis

/-- One block on an axis. -/
def BoxAxis.toSlab (axis : BoxAxis) : SlabAxis := ⟨axis.extent, axis.start, 1, 1, axis.count⟩

namespace BoxAxis

theorem indices_toSlab (axis : BoxAxis) :
    axis.toSlab.indices = (List.range axis.count).map fun j => axis.start + j := by
  simp [SlabAxis.indices, toSlab]

theorem inside_toSlab {axis : BoxAxis} (h : axis.Inside) : axis.toSlab.Inside := by
  refine ⟨?_, .inl le_rfl⟩
  show axis.start + (1 - 1) * 1 + axis.count ≤ axis.extent
  rw [Nat.sub_self, Nat.zero_mul, Nat.add_zero]
  exact h

end BoxAxis

/-- The selected places of a hyperslab in row-major order. -/
def slabPlaces : List SlabAxis → List ℕ
  | [] => [0]
  | axis :: axes => axis.indices.flatMap fun i =>
      (slabPlaces axes).map fun place => i * (axes.map SlabAxis.extent).prod + place

/-- **One block on each axis** is a box. -/
theorem slabPlaces_toSlab (axes : List BoxAxis) :
    slabPlaces (axes.map BoxAxis.toSlab) = (List.range (boxSize axes)).map (boxPlace axes) := by
  induction axes with
  | nil => rfl
  | cons axis axes ih =>
    have hextent : ((axes.map BoxAxis.toSlab).map SlabAxis.extent).prod = arraySize axes := by
      unfold arraySize
      rw [List.map_map]
      rfl
    rw [List.map_cons, slabPlaces, ih, BoxAxis.indices_toSlab, List.flatMap_map, hextent,
      boxSize_cons]
    simp only [List.map_map]
    exact flatMap_range_map axis.count _ fun k n => (axis.start + k) * arraySize axes
      + boxPlace axes n

inductive Selection where
  | all
  | none
  | hyperslab (axes : List SlabAxis)
deriving Repr, DecidableEq

/-- A selection with the extents it is made in. -/
structure Dataspace where
  dims : List ℕ
  selection : Selection
deriving Repr, DecidableEq

namespace Dataspace

/-- The selected places, in the order of a transfer. -/
def places : Dataspace → List ℕ
  | ⟨dims, .all⟩ => List.range dims.prod
  | ⟨_, .none⟩ => []
  | ⟨_, .hyperslab axes⟩ => slabPlaces axes

/-- The selection is inside the extents. -/
def isValid : Dataspace → Bool
  | ⟨_, .all⟩ | ⟨_, .none⟩ => true
  | ⟨dims, .hyperslab axes⟩ =>
    axes.map SlabAxis.extent = dims && axes.all fun axis => decide axis.Inside

/-- The dataspace of an array in which a box is selected. -/
def ofBox (axes : List BoxAxis) : Dataspace :=
  ⟨axes.map BoxAxis.extent, .hyperslab (axes.map BoxAxis.toSlab)⟩

theorem places_ofBox (axes : List BoxAxis) :
    (ofBox axes).places = (List.range (boxSize axes)).map (boxPlace axes) :=
  slabPlaces_toSlab axes

theorem isValid_ofBox {axes : List BoxAxis} (h : ∀ axis ∈ axes, axis.Inside) :
    (ofBox axes).isValid = true := by
  show (decide (_ = _) && _) = true
  rw [Bool.and_eq_true, decide_eq_true_eq, List.all_eq_true, List.map_map]
  refine ⟨rfl, fun slab hslab => ?_⟩
  obtain ⟨axis, haxis, rfl⟩ := List.mem_map.mp hslab
  exact decide_eq_true (BoxAxis.inside_toSlab (h axis haxis))

end Dataspace

/-! ## Transfers -/

section Transfers

variable {α : Type}

/-- The places a transfer pairs: in the dataset, and in memory. -/
def transferPairs (memory file : Dataspace) : Option (List (ℕ × ℕ)) :=
  if memory.isValid && file.isValid && memory.places.length = file.places.length then
    some (file.places.zip memory.places)
  else none

/-- What a write stores in the dataset, element by element. -/
def transferWrites (memory file : Dataspace) (buffer : List α) : Option (List (ℕ × α)) := do
  let pairs ← transferPairs memory file
  pairs.mapM fun (place, i) => (buffer[i]?).map fun value => (place, value)

/-- What a read leaves in memory. -/
def transferRead (memory file : Dataspace) (cells buffer : List α) : Option (List α) := do
  let pairs ← transferPairs memory file
  pairs.foldlM (fun buffer (place, i) => do
    let value ← cells[place]?
    if i < buffer.length then some (buffer.set i value) else none) buffer

variable {memory file : Dataspace} {buffer cells values : List α}

theorem transferPairs_none {dims dims' : List ℕ} :
    transferPairs ⟨dims, .none⟩ ⟨dims', .none⟩ = some [] := rfl

/-- Nothing is selected, nothing moves. -/
theorem transferWrites_none {dims dims' : List ℕ} :
    transferWrites ⟨dims, .none⟩ ⟨dims', .none⟩ buffer = some [] := rfl

theorem transferRead_none {dims dims' : List ℕ} :
    transferRead ⟨dims, .none⟩ ⟨dims', .none⟩ cells buffer = some buffer := rfl

theorem transferPairs_eq (hmemory : memory.isValid = true) (hfile : file.isValid = true)
    (hplaces : memory.places = List.range file.places.length) :
    transferPairs memory file = some file.places.zipIdx := by
  have hlen : memory.places.length = file.places.length := by
    rw [hplaces, List.length_range]
  unfold transferPairs
  rw [hmemory, hfile, Bool.and_self, Bool.true_and, if_pos (decide_eq_true hlen), hplaces,
    List.zipIdx_eq_zip_range', List.range_eq_range']

/-- **A write** of a whole buffer stores it at the selected places. -/
theorem transferWrites_eq (hmemory : memory.isValid = true) (hfile : file.isValid = true)
    (hplaces : memory.places = List.range file.places.length)
    (hbuffer : buffer.length = file.places.length) :
    transferWrites memory file buffer = some (file.places.zip buffer) := by
  have hstore : ∀ (places : List ℕ) (k : ℕ), k + places.length = buffer.length →
      (places.zipIdx k).mapM (fun (entry : ℕ × ℕ) =>
        (buffer[entry.2]?).map fun value => (entry.1, value))
        = some (places.zip (buffer.drop k)) := by
    intro places
    induction places with
    | nil => exact fun k _ => rfl
    | cons place places ih =>
      intro k hk
      rw [List.length_cons] at hk
      have hlt : k < buffer.length := by omega
      rw [List.zipIdx_cons, List.mapM_cons, ih (k + 1) (by omega), List.drop_eq_getElem_cons hlt,
        List.zip_cons_cons, List.getElem?_eq_getElem hlt]
      rfl
  unfold transferWrites
  rw [transferPairs_eq hmemory hfile hplaces]
  have := hstore file.places 0 (by omega)
  rwa [List.drop_zero] at this

/-- **A read** into a whole buffer fills it from the selected places. -/
theorem transferRead_eq (hmemory : memory.isValid = true) (hfile : file.isValid = true)
    (hplaces : memory.places = List.range file.places.length)
    (hbuffer : buffer.length = file.places.length)
    (hread : readAll cells file.places = some values) :
    transferRead memory file cells buffer = some values := by
  have hfill : ∀ (places : List ℕ) (front back values : List α), back.length = places.length →
      readAll cells places = some values →
      (places.zipIdx front.length).foldlM (fun buffer (entry : ℕ × ℕ) => do
        let value ← cells[entry.1]?
        if entry.2 < buffer.length then some (buffer.set entry.2 value) else none) (front ++ back)
        = some (front ++ values) := by
    intro places
    induction places with
    | nil =>
      intro front back values hback hvalues
      obtain rfl := List.length_eq_zero_iff.mp hback
      obtain rfl := Option.some.inj hvalues
      rfl
    | cons place places ih =>
      intro front back values hback hvalues
      obtain ⟨old, back, rfl⟩ := List.exists_cons_of_length_eq_add_one hback
      obtain ⟨value, rest, hvalue, hrest, rfl⟩ := readAll_cons.mp hvalues
      have hset : (front ++ old :: back).set front.length value = front ++ [value] ++ back := by
        rw [List.set_append_right _ _ le_rfl, Nat.sub_self, List.set_cons_zero, List.append_assoc]
        rfl
      have hnext := ih (front ++ [value]) back rest (by simpa using hback) hrest
      rw [List.length_append, List.length_singleton, List.append_assoc front [value] rest] at hnext
      rw [List.zipIdx_cons, List.foldlM_cons, hvalue]
      show (if front.length < (front ++ old :: back).length then
        some ((front ++ old :: back).set front.length value) else none).bind _ = _
      rw [if_pos (by simp), hset]
      exact hnext
  unfold transferRead
  rw [transferPairs_eq hmemory hfile hplaces]
  exact hfill file.places [] buffer values hbuffer hread

end Transfers

end PencilRs.Computation
