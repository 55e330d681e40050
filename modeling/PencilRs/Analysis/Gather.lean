import PencilRs.Analysis.CollectiveLayout
import PencilRs.Analysis.GatherMetadata

/-!
# Gather correctness

The root unpacks every block element by element.  An element of a block goes to its number in
the logical row-major order of the global array, and the blocks of all ranks fill the array.
-/

set_option autoImplicit false

namespace PencilRs.Analysis

open PencilRs.Computation PencilRs.Model

variable {N M : ℕ} {α : Type} {topology : MpiTopology M}

/-! ## One element -/

/-- Repeated remainder and quotient are the digits. -/
theorem foldlM_splitOffset {shape : Fin N → ℕ} {axes : List (Fin N)} (hn : axes.Nodup)
    (hpos : ∀ axis ∈ axes, 0 < shape axis) (coordinates : Fin N → ℕ) (offset : ℕ) :
    ∃ coordinates' rest, axes.foldlM (splitOffset shape) (coordinates, offset)
        = some (coordinates', rest) ∧
      (∀ axis ∈ axes, coordinates' axis = MixedRadix.digit shape axes offset axis) ∧
      ∀ axis, axis ∉ axes → coordinates' axis = coordinates axis := by
  induction axes generalizing coordinates offset with
  | nil => exact ⟨coordinates, offset, rfl, fun _ h => absurd h List.not_mem_nil, fun _ _ => rfl⟩
  | cons axis axes ih =>
    obtain ⟨hnotMem, hn⟩ := List.nodup_cons.mp hn
    have hne : shape axis ≠ 0 := (hpos axis List.mem_cons_self).ne'
    have hstep : splitOffset shape (coordinates, offset) axis = some
        (Function.update coordinates axis (offset % shape axis), offset / shape axis) := by
      simp [splitOffset, checkedRem, checkedDiv, hne]
    obtain ⟨coordinates', rest, hrun, hdigits, hothers⟩ := ih hn
      (fun a ha => hpos a (List.mem_cons_of_mem _ ha))
      (Function.update coordinates axis (offset % shape axis)) (offset / shape axis)
    refine ⟨coordinates', rest, ?_, ?_, ?_⟩
    · rw [List.foldlM_cons, hstep]
      exact hrun
    · intro a ha
      rw [MixedRadix.digit]
      by_cases hax : a = axis
      · subst hax
        rw [hothers a hnotMem, Function.update_self, Function.update_self]
      · rw [Function.update_of_ne hax]
        exact hdigits a (List.mem_of_ne_of_mem hax ha)
    · intro a ha
      rw [List.mem_cons, not_or] at ha
      rw [hothers a ha.2, Function.update_of_ne ha.1]

/-- Horner's rule with checked arithmetic, on a number that is below the limit. -/
theorem foldlM_checkedHorner {shape coordinates : Fin N → ℕ} {axes : List (Fin N)} {offset : ℕ}
    (hlt : ∀ axis ∈ axes, coordinates axis < shape axis)
    (hfit : (offset + 1) * MixedRadix.size shape axes ≤ usizeLimit) :
    axes.foldlM (fun offset axis => do
        let scaled ← checkedMul offset (shape axis)
        checkedAdd scaled (coordinates axis)) offset
      = some (offset * MixedRadix.size shape axes
          + MixedRadix.value shape coordinates axes.reverse) := by
  induction axes generalizing offset with
  | nil => simp
  | cons axis axes ih =>
    have hhere := hlt axis List.mem_cons_self
    have hsize : 0 < MixedRadix.size shape axes := MixedRadix.size_pos fun a ha =>
      Nat.lt_of_le_of_lt (Nat.zero_le _) (hlt a (List.mem_cons_of_mem _ ha))
    rw [MixedRadix.size_cons, ← Nat.mul_assoc] at hfit
    have hnext : offset * shape axis + coordinates axis + 1 ≤ (offset + 1) * shape axis := by
      rw [Nat.add_mul]
      omega
    have hbound : (offset + 1) * shape axis ≤ usizeLimit :=
      (Nat.le_mul_of_pos_right _ hsize).trans hfit
    have hmul : checkedMul offset (shape axis) = some (offset * shape axis) := by
      rw [checkedMul_eq_some]
      exact ⟨by omega, rfl⟩
    have hadd : checkedAdd (offset * shape axis) (coordinates axis)
        = some (offset * shape axis + coordinates axis) := by
      rw [checkedAdd_eq_some]
      exact ⟨by omega, rfl⟩
    rw [List.foldlM_cons, hmul]
    simp only [bind, Option.bind, hadd]
    have hbounded : (offset * shape axis + coordinates axis + 1) * MixedRadix.size shape axes
        ≤ usizeLimit := (Nat.mul_le_mul_right _ hnext).trans hfit
    have hrest := ih (fun a ha => hlt a (List.mem_cons_of_mem _ ha)) hbounded
    simp only [bind, Option.bind] at hrest
    rw [hrest, List.reverse_cons, MixedRadix.value_append, MixedRadix.size_cons,
      MixedRadix.size_reverse, MixedRadix.value_cons, MixedRadix.value_nil]
    congr 1
    ring

section Element

variable (p : DistributedPencil topology N) (extraShape : ExtraShape)

/-- The number of elements of the global array. -/
def globalCount : ℕ := extraShape.elementCount * ∏ axis, commonShape p axis

variable {p extraShape}

theorem layoutOffset_split {c : Coords topology.processGrid} {e : List ℕ} {x : Fin N → ℕ}
    (h : ValidElement (p.on c) extraShape e x) :
    elementOffset (p.on c) extraShape e x / (p.on c).localLen
        = rowMajorValue extraShape.dimensions e ∧
      elementOffset (p.on c) extraShape e x % (p.on c).localLen = layoutOffset (p.on c) x := by
  have hlt := layoutOffset_lt h.2
  have hpos : 0 < (p.on c).localLen := Nat.lt_of_le_of_lt (Nat.zero_le _) hlt
  unfold elementOffset
  refine ⟨?_, ?_⟩
  · rw [Nat.add_comm, Nat.add_mul_div_right _ _ hpos, Nat.div_eq_of_lt hlt, Nat.zero_add]
  · rw [Nat.mul_add_mod_self_right, Nat.mod_eq_of_lt hlt]

/-- **One element** of a block goes to its number in the global array. -/
theorem globalOffsetOf_block (hcount : globalCount p extraShape < usizeLimit)
    (c d : Coords topology.processGrid) {e : List ℕ} {x : Fin N → ℕ}
    (h : ValidElement (p.on d) extraShape e x) :
    globalOffsetOf (p.on c) (blockOf (p.on d) extraShape)
        (elementOffset (p.on d) extraShape e x)
      = some (globalPosition (commonShape p) extraShape e (toGlobal (p.on d) x)) := by
  obtain ⟨hquotient, hremainder⟩ := layoutOffset_split h
  have hlt := layoutOffset_lt h.2
  have hpos : (p.on d).localLen ≠ 0 := by omega
  have hbox := inBox_toGlobal p h.2
  have hposition := globalPosition_lt h.1 hbox
  -- the offset inside the block gives back the memory coordinates
  have hradix : ∀ axis ∈ axesFastestFirst N, 0 < (p.on d).localShapeMemory axis :=
    fun axis ha => Nat.lt_of_le_of_lt (Nat.zero_le _) (validLocal_memory h.2 axis ha)
  obtain ⟨coordinates, rest, hsplit, hdigits, _⟩ := foldlM_splitOffset nodup_axesFastestFirst
    hradix (fun _ => 0) (layoutOffset (p.on d) x)
  have hmemory : coordinates = (p.on d).permutation.permute x := by
    funext axis
    rw [hdigits axis (mem_axesFastestFirst axis)]
    exact MixedRadix.digit_value nodup_axesFastestFirst (validLocal_memory h.2) axis
      (mem_axesFastestFirst axis)
  subst hmemory
  -- shifted by the starts of the ranges these are the global coordinates
  have hextent := extent_lt (p.on topology.here).extents_pos (globalShape_fits (p.on topology.here))
  have hglobal : (List.finRange N).foldlM (fun coordinates memoryAxis => do
      let logicalAxis := (p.on c).permutation.axesInMemoryOrder memoryAxis
      let coordinate ← checkedAdd ((p.on d).localRanges logicalAxis).start
        ((p.on d).permutation.permute x memoryAxis)
      return Function.update coordinates logicalAxis coordinate) (fun _ => 0)
        = some (toGlobal (p.on d) x) := by
    have hstep : ∀ memoryAxis, checkedAdd
        ((p.on d).localRanges ((p.on c).permutation.axesInMemoryOrder memoryAxis)).start
        ((p.on d).permutation.permute x memoryAxis)
          = some (toGlobal (p.on d) x ((p.on c).permutation.axesInMemoryOrder memoryAxis)) := by
      intro memoryAxis
      rw [p.permutation_eq c d, AxisPermutation.permute_apply, checkedAdd_eq_some]
      exact ⟨(hbox _).trans (hextent _), rfl⟩
    simp only [hstep]
    have hpure : (List.finRange N).foldlM (fun coordinates memoryAxis =>
        (pure (Function.update coordinates ((p.on c).permutation.axesInMemoryOrder memoryAxis)
          (toGlobal (p.on d) x ((p.on c).permutation.axesInMemoryOrder memoryAxis))) :
            Option (Fin N → ℕ))) (fun _ => 0)
        = pure ((List.finRange N).foldl (fun coordinates memoryAxis =>
            Function.update coordinates ((p.on c).permutation.axesInMemoryOrder memoryAxis)
              (toGlobal (p.on d) x ((p.on c).permutation.axesInMemoryOrder memoryAxis)))
            fun _ => 0) := List.foldlM_pure
    refine hpure.trans (congrArg some (funext fun axis => ?_))
    obtain ⟨position, rfl⟩ := (p.on c).permutation.surjective axis
    exact foldl_update_of_mem (p.on c).permutation.injective _ _ _ (List.mem_finRange position)
  -- and their number
  have hhorner : (List.finRange N).foldlM (fun offset logicalAxis => do
      let scaled ← checkedMul offset ((p.on c).globalShape logicalAxis)
      checkedAdd scaled (toGlobal (p.on d) x logicalAxis)) 0
        = some (MixedRadix.value (commonShape p) (toGlobal (p.on d) x) (axesFastestFirst N)) := by
    rw [globalShape_on p c, foldlM_checkedHorner (fun axis _ => hbox axis), Nat.zero_mul,
      Nat.zero_add]
    · rfl
    · rw [MixedRadix.size, ← List.ofFn_eq_map, List.prod_ofFn, Nat.zero_add, Nat.one_mul]
      exact (globalShape_fits (p.on topology.here)).le
  have hmul : checkedMul (rowMajorValue extraShape.dimensions e) (p.on c).globalLen
      = some (rowMajorValue extraShape.dimensions e * ∏ axis, commonShape p axis) := by
    rw [globalLen_eq, checkedMul_eq_some]
    refine ⟨?_, rfl⟩
    unfold globalPosition at hposition
    unfold globalCount at hcount
    omega
  have hadd : checkedAdd (rowMajorValue extraShape.dimensions e * ∏ axis, commonShape p axis)
      (MixedRadix.value (commonShape p) (toGlobal (p.on d) x) (axesFastestFirst N))
        = some (globalPosition (commonShape p) extraShape e (toGlobal (p.on d) x)) := by
    rw [checkedAdd_eq_some]
    exact ⟨hposition.trans hcount, rfl⟩
  have hdiv : checkedDiv (elementOffset (p.on d) extraShape e x) (p.on d).localLen
      = some (rowMajorValue extraShape.dimensions e) := by
    rw [checkedDiv, if_neg hpos, hquotient]
  have hrem : checkedRem (elementOffset (p.on d) extraShape e x) (p.on d).localLen
      = some (layoutOffset (p.on d) x) := by
    rw [checkedRem, if_neg hpos, hremainder]
  unfold globalOffsetOf blockOf
  simp only [hdiv, hrem, Option.bind_eq_bind, Option.bind_some]
  rw [show (List.finRange N).reverse = axesFastestFirst N from rfl, hsplit]
  simp only [Option.bind_some, Option.bind_eq_bind] at hglobal hhorner ⊢
  rw [hglobal]
  simp only [Option.bind_some]
  rw [hhorner, Option.bind_some, hmul, Option.bind_some, hadd]

/-! ## One block -/

/-- Where the element at an offset of a block goes. -/
def placeOf (p : DistributedPencil topology N) (extraShape : ExtraShape)
    (c d : Coords topology.processGrid) (offset : ℕ) : ℕ :=
  (globalOffsetOf (p.on c) (blockOf (p.on d) extraShape) offset).getD 0

/-- Unpacking a block moves its elements. -/
theorem unpackBlock_eq (hcount : globalCount p extraShape < usizeLimit)
    (c d : Coords topology.processGrid) {destination : Buf α} {physical : List α}
    (hlength : physical.length = extraShape.elementCount * (p.on d).localLen)
    (hcells : destination.cells.length = globalCount p extraShape) :
    Model.unpackBlock (p.on c) destination physical (blockOf (p.on d) extraShape)
      = Buf.moveAll (fun k => physical[k]?) destination
          ((List.range physical.length).map fun k =>
            (placeOf p extraShape c d k, k)) := by
  have hblock : (blockOf (p.on d) extraShape).count = physical.length := by
    rw [hlength, Nat.mul_comm]
    rfl
  unfold Model.unpackBlock
  by_cases hzero : physical.length = 0
  · rw [if_pos (hblock.trans hzero), hzero]
    rfl
  · rw [if_neg (hblock ▸ hzero)]
    have hpos : (p.on d).localLen ≠ 0 := by
      intro h
      rw [h, Nat.mul_zero] at hlength
      exact hzero hlength
    have hextra : checkedDiv (blockOf (p.on d) extraShape).count
        (blockOf (p.on d) extraShape).spatialCount = some extraShape.elementCount := by
      show checkedDiv ((p.on d).localLen * extraShape.elementCount) (p.on d).localLen = _
      rw [checkedDiv, if_neg hpos, Nat.mul_div_cancel_left _ (Nat.pos_of_ne_zero hpos)]
    rw [hextra]
    simp only [Option.bind_eq_bind, Option.bind_some]
    have hmoves : _ = Buf.moveAll (fun k => physical[k]?) _ _ :=
      Buf.foldlM_moveAll (n := globalCount p extraShape) (fun destination (entry : α × ℕ) => do
        let globalOffset ← globalOffsetOf (p.on c) (blockOf (p.on d) extraShape) entry.2
        if entry.2 / (blockOf (p.on d) extraShape).spatialCount < extraShape.elementCount then
          destination.store 0 destination.cells.length globalOffset entry.1
        else none)
      (fun entry => [(placeOf p extraShape c d entry.2, entry.2)])
      physical.zipIdx ?_ destination hcells
    · refine hmoves.trans ?_
      congr 1
      rw [← List.map_eq_flatMap]
      apply List.ext_getElem
      · simp
      · intro k h1 h2
        simp
    · rintro ⟨value, k⟩ hmem destination' hcells'
      have hget : physical[k]? = some value := List.mem_zipIdx_iff_getElem?.mp hmem
      have hk := (List.getElem?_eq_some_iff.mp hget).1
      rw [hlength] at hk
      obtain ⟨e, x, hvalid, hoffset⟩ := exists_elementOffset hk
      have hplace := globalOffsetOf_block hcount c d hvalid
      have hposition := globalPosition_lt hvalid.1
        (inBox_toGlobal p hvalid.2)
      rw [hoffset] at hplace
      have hquotient : k / (blockOf (p.on d) extraShape).spatialCount
          < extraShape.elementCount := Nat.div_lt_of_lt_mul (by rwa [Nat.mul_comm] at hk)
      unfold globalCount at hcells'
      simp only [hplace, Option.bind_eq_bind, Option.bind_some, if_pos hquotient]
      rw [Buf.store_eq value (by omega) (Nat.le_refl _), Buf.moveAll_cons, hget]
      simp only [Option.bind_some, Buf.moveAll_nil, placeOf, hplace, Option.getD_some,
        Nat.zero_add]

end Element

/-! ## All blocks -/

section Blocks

variable {p : DistributedPencil topology N} {extraShape : ExtraShape}

/-- What gathering promises of the root's array: every position is written once, and an element
is that of the rank that owns it. -/
structure IsGathered (view : DistributedView p extraShape α) (buffer : Buf α) : Prop where
  length : buffer.cells.length = globalCount p extraShape
  once : buffer.log.Perm (List.range (globalCount p extraShape))
  element : ∀ e g offset,
    rowMajorOffset (logicalShape (commonShape p) extraShape) (e ++ List.ofFn g) = .ok offset →
      ∃ owner value, (∀ c, Owns (p.on c).localRanges g ↔ c = owner) ∧
        (view.on owner).getGlobal e g = some value ∧ buffer.cells[offset]? = some value

variable (view : DistributedView p extraShape α)

/-- The elements of a rank. -/
abbrev storageOf (rank : ℕ) : List α := (view.on (topology.coordsAt rank)).storage

theorem storage_length (c : Coords topology.processGrid) :
    (view.on c).storage.length = extraShape.elementCount * (p.on c).localLen := by
  rw [view_storage_length, view.extraShape_eq, view.pencil_eq]

/-- The moves that unpack the blocks of some ranks on the rank `c`. -/
def movesOf (c : Coords topology.processGrid) (ranks : List ℕ) : List (ℕ × ℕ × ℕ) :=
  ranks.flatMap fun rank => (List.range (storageOf view rank).length).map fun k =>
    (placeOf p extraShape c (topology.coordsAt rank) k, rank, k)

/-- Reading an element by its rank and offset. -/
abbrev readFrom (place : ℕ × ℕ) : Option α := (storageOf view place.1)[place.2]?

variable {view} {metadata : GatherMetadata N}

theorem MetadataExact.storage_le (h : MetadataExact view metadata)
    (c : Coords topology.processGrid) :
    (view.on c).storage.length ≤ metadata.maximumCount := h.maximum.2 ⟨c, rfl⟩

/-- Unpacking the block of one rank moves its elements. -/
theorem unpackBlock_rank (hcount : globalCount p extraShape < usizeLimit)
    (c : Coords topology.processGrid) (rank : ℕ) {destination : Buf α}
    (hcells : destination.cells.length = globalCount p extraShape) :
    Model.unpackBlock (view.on c).pencil destination (storageOf view rank)
        (blockAt p extraShape rank)
      = Buf.moveAll (readFrom view) destination (movesOf view c [rank]) := by
  rw [view.pencil_eq c]
  unfold blockAt
  rw [unpackBlock_eq hcount c _ (storage_length view _) hcells,
    Buf.moveAll_map_place (g := readFrom view) (fun k => (rank, k)) _ fun _ _ => rfl]
  unfold movesOf
  rw [List.flatMap_singleton, List.map_map]
  rfl

/-- **The loop over the ranks** performs the moves of their blocks. -/
theorem unpackRanks_eq (hcount : globalCount p extraShape < usizeLimit)
    (hexact : MetadataExact view metadata) (c : Coords topology.processGrid) {ranks : List ℕ}
    (hranks : ∀ rank ∈ ranks, rank < topology.size) {destination : Buf α} {scratch : List α}
    (hcells : destination.cells.length = globalCount p extraShape)
    (hscratch : scratch.length = metadata.maximumCount) :
    unpackRanks (view.on c) metadata (rankOf topology c) ranks destination scratch
        ((ranks.filter (· ≠ rankOf topology c)).map (storageOf view))
      = Buf.moveAll (readFrom view) destination (movesOf view c ranks) := by
  induction ranks generalizing destination scratch with
  | nil => rfl
  | cons rank ranks ih =>
    have hrank := hranks rank List.mem_cons_self
    have hblock : metadata.blocks[rank]? = some (blockAt p extraShape rank) := by
      rw [hexact.blocks, List.getElem?_map, List.getElem?_range hrank, Option.map_some]
    have hsplit : movesOf view c (rank :: ranks) = movesOf view c [rank] ++ movesOf view c ranks := by
      unfold movesOf
      rw [List.flatMap_cons, List.flatMap_singleton]
    have hrest := fun rank hmem => hranks rank (List.mem_cons_of_mem _ hmem)
    rw [unpackRanks, hblock, hsplit, Buf.moveAll_append, Option.bind_eq_bind, Option.bind_some]
    by_cases hroot : rank = rankOf topology c
    · have hown : (view.on c).storage = storageOf view rank := by
        rw [hroot, storageOf, coordsAt_rankOf]
      rw [if_pos hroot, hown, unpackBlock_rank hcount c rank hcells,
        List.filter_cons_of_neg (by simpa using hroot)]
      cases hmoved : Buf.moveAll (readFrom view) destination (movesOf view c [rank]) with
      | none => rfl
      | some destination' => exact ih hrest ((Buf.length_moveAll hmoved).trans hcells) hscratch
    · have hle : (storageOf view rank).length ≤ metadata.maximumCount :=
        hexact.storage_le (topology.coordsAt rank)
      have hcount' : (blockAt p extraShape rank).count = (storageOf view rank).length :=
        count_blockOf view _
      have hwindow : slice? (storageOf view rank ++ scratch.drop (storageOf view rank).length) 0
          (blockAt p extraShape rank).count = some (storageOf view rank) := by
        rw [hcount', slice?_eq (Nat.zero_le _) (by simp), List.drop_zero, Nat.sub_zero,
          List.take_left]
      have hscratch' : (storageOf view rank ++ scratch.drop (storageOf view rank).length).length
          = metadata.maximumCount := by
        rw [List.length_append, List.length_drop, hscratch]
        omega
      rw [if_neg hroot, List.filter_cons_of_pos (by simpa using hroot), List.map_cons]
      simp only
      rw [hwindow, Option.bind_eq_bind, Option.bind_some, unpackBlock_rank hcount c rank hcells]
      cases hmoved : Buf.moveAll (readFrom view) destination (movesOf view c [rank]) with
      | none => rfl
      | some destination' => exact ih hrest ((Buf.length_moveAll hmoved).trans hcells) hscratch'

/-! ## The global array -/

theorem length_movesOf (c : Coords topology.processGrid) :
    (movesOf view c (List.range topology.size)).length = globalCount p extraShape := by
  unfold movesOf globalCount
  rw [← sum_counts, List.length_flatMap, List.map_map]
  congr 1
  refine List.map_congr_left fun rank _ => ?_
  rw [List.length_map, List.length_range]
  exact (count_blockOf view _).symm

variable (view) in
/-- An element of a rank is moved to its number. -/
theorem mem_movesOf (hcount : globalCount p extraShape < usizeLimit)
    (c owner : Coords topology.processGrid) {e : List ℕ} {x : Fin N → ℕ}
    (h : ValidElement (p.on owner) extraShape e x) :
    (globalPosition (commonShape p) extraShape e (toGlobal (p.on owner) x),
        rankOf topology owner, elementOffset (p.on owner) extraShape e x)
      ∈ movesOf view c (List.range topology.size) := by
  unfold movesOf
  refine List.mem_flatMap.mpr ⟨rankOf topology owner,
    List.mem_range.mpr (rankOf_lt topology owner), List.mem_map.mpr
      ⟨elementOffset (p.on owner) extraShape e x, ?_, ?_⟩⟩
  · rw [List.mem_range, storageOf, coordsAt_rankOf, storage_length]
    exact elementOffset_lt h
  · rw [coordsAt_rankOf, placeOf, globalOffsetOf_block hcount c owner h, Option.getD_some]

/-- The owner of an index, and where it keeps the element. -/
theorem exists_owner {e : List ℕ} {g : Fin N → ℕ} (he : ValidIndices extraShape.dimensions e)
    (hg : InBox (commonShape p) g) :
    ∃ owner, (∀ c, Owns (p.on c).localRanges g ↔ c = owner) ∧
      ValidElement (p.on owner) extraShape e (toLocal (p.on owner) g) ∧
      toGlobal (p.on owner) (toLocal (p.on owner) g) = g := by
  obtain ⟨owner, howner, hunique⟩ := (isPartition_localRanges p).existsUnique_owner hg
  refine ⟨owner, fun c => ⟨hunique c, fun h => h ▸ howner⟩, ⟨he, validLocal_toLocal howner⟩, ?_⟩
  exact toGlobal_toLocal howner

variable (view) in
/-- **The moves of all ranks** leave the gathered array, whatever was there before. -/
theorem isGathered_moveAll (hcount : globalCount p extraShape < usizeLimit)
    (c : Coords topology.processGrid) {cells : List α}
    (hcells : cells.length = globalCount p extraShape) :
    ∃ buffer, Buf.moveAll (readFrom view) (Buf.fresh cells)
        (movesOf view c (List.range topology.size)) = some buffer ∧ IsGathered view buffer := by
  have hreadable : ∀ m ∈ movesOf view c (List.range topology.size),
      (readFrom view m.2).isSome := by
    intro m hm
    unfold movesOf at hm
    obtain ⟨rank, _, hm⟩ := List.mem_flatMap.mp hm
    obtain ⟨k, hk, rfl⟩ := List.mem_map.mp hm
    simpa using List.mem_range.mp hk
  obtain ⟨buffer, hbuffer⟩ := Buf.moveAll_isSome (Buf.fresh cells) hreadable
  have hperm : ((movesOf view c (List.range topology.size)).map Prod.fst).Perm
      (List.range (globalCount p extraShape)) := by
    refine Buf.perm_range_of_cover ?_ fun i hi => ?_
    · rw [List.length_map, length_movesOf]
    · obtain ⟨e, g, he, hg, rfl⟩ := exists_globalPosition hi
      obtain ⟨owner, _, hvalid, hback⟩ := exists_owner (p := p) he hg
      have hmem := mem_movesOf view hcount c owner hvalid
      rw [hback] at hmem
      exact List.mem_map.mpr ⟨_, hmem, rfl⟩
  refine ⟨buffer, hbuffer, ?_, ?_, ?_⟩
  · rw [Buf.length_moveAll hbuffer]
    exact hcells
  · rw [Buf.log_moveAll hbuffer]
    simpa [Buf.fresh] using hperm
  · intro e g offset hoffset
    obtain ⟨he, hg, rfl⟩ := rowMajorOffset_logicalShape hoffset
    obtain ⟨owner, howner, hvalid, hback⟩ := exists_owner (p := p) he hg
    have hmem := mem_movesOf view hcount c owner hvalid
    rw [hback] at hmem
    have hlt : elementOffset (p.on owner) extraShape e (toLocal (p.on owner) g)
        < (view.on owner).storage.length := by
      rw [storage_length]
      exact elementOffset_lt hvalid
    have hfit : extraShape.elementCount * (p.on owner).localLen < usizeLimit := by
      have := view_fits (view.on owner)
      rwa [view.extraShape_eq, view.pencil_eq] at this
    have hglobal : (view.on owner).getGlobal e g = some
        (view.on owner).storage[elementOffset (p.on owner) extraShape e
          (toLocal (p.on owner) g)] := by
      unfold PencilArrayView.getGlobal
      rw [view.pencil_eq, view.extraShape_eq,
        (globalOffset_eq_some hfit).mpr ⟨(howner owner).mpr rfl, he, rfl⟩]
      exact List.getElem?_eq_getElem hlt
    refine ⟨owner, _, howner, hglobal, ?_⟩
    have hlt' : globalPosition (commonShape p) extraShape e g < (Buf.fresh cells).cells.length := by
      show _ < cells.length
      rw [hcells]
      exact globalPosition_lt he hg
    rw [Buf.cells_moveAll_of_mem hbuffer (hperm.nodup_iff.mpr List.nodup_range) hlt' hmem]
    show (view.on (topology.coordsAt (rankOf topology owner))).storage[_]? = _
    rw [coordsAt_rankOf]
    exact List.getElem?_eq_getElem hlt

end Blocks

end PencilRs.Analysis
