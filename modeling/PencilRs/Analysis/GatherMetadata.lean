import PencilRs.Analysis.GlobalOrder
import PencilRs.Analysis.Ranks
import PencilRs.Model.Gather

/-!
# Gather metadata

The loop over the coordinates of the grid visits the ranks in the order of their numbers and
stores for each the block its view has, so the counts are those the ranks report.
-/

set_option autoImplicit false

namespace PencilRs.Analysis

open PencilRs.Computation PencilRs.Model

variable {N M : ℕ} {α : Type} {topology : MpiTopology M}

/-! ## The odometer -/

/-- The carry of an odometer, and whether there was room for one more. -/
theorem carryCoordinates_eq {grid : Fin M → ℕ} {axes : List (Fin M)} (hn : axes.Nodup)
    {coordinates : Fin M → ℕ} (h : ∀ axis ∈ axes, coordinates axis < grid axis) :
    carryCoordinates grid axes coordinates = (MixedRadix.bump grid axes coordinates,
      decide (MixedRadix.value grid coordinates axes + 1 < MixedRadix.size grid axes)) := by
  induction axes generalizing coordinates with
  | nil => simp [carryCoordinates, MixedRadix.bump]
  | cons axis axes ih =>
    obtain ⟨hnotMem, hn⟩ := List.nodup_cons.mp hn
    have hrest : ∀ a ∈ axes, coordinates a < grid a := fun a ha => h a (List.mem_cons_of_mem _ ha)
    have hhere := h axis List.mem_cons_self
    have hvalue := MixedRadix.value_lt_size hrest
    unfold carryCoordinates MixedRadix.bump
    rw [MixedRadix.value_cons, MixedRadix.size_cons]
    by_cases hroom : coordinates axis + 1 < grid axis
    · have hmore : coordinates axis + grid axis * MixedRadix.value grid coordinates axes + 1
          < grid axis * MixedRadix.size grid axes := by
        have := Nat.mul_le_mul_left (grid axis) hvalue
        rw [Nat.succ_eq_add_one, Nat.mul_add] at this
        omega
      rw [if_pos hroom, if_pos hroom, decide_eq_true hmore]
    · have hsame : ∀ a ∈ axes, Function.update coordinates axis 0 a = coordinates a :=
        fun a ha => Function.update_of_ne (ne_of_mem_of_not_mem ha hnotMem) _ _
      rw [if_neg hroom, if_neg hroom, ih hn fun a ha => by rw [hsame a ha]; exact hrest a ha,
        MixedRadix.value_congr hsame]
      congr 1
      rw [decide_eq_decide]
      have hfull : coordinates axis + grid axis * MixedRadix.value grid coordinates axes + 1
          = grid axis * (MixedRadix.value grid coordinates axes + 1) := by
        rw [Nat.mul_add]
        omega
      rw [hfull]
      exact (Nat.mul_lt_mul_left (by omega)).symm

/-- The coordinates of a rank number, as natural numbers. -/
abbrev rankCoords (topology : MpiTopology M) (rank : ℕ) : Fin M → ℕ :=
  fun axis => topology.coordsAt rank axis

theorem rankCoords_zero : rankCoords topology 0 = fun _ => 0 := by
  funext axis
  show MixedRadix.digit _ _ 0 axis = 0
  rw [MixedRadix.digit_zero]

/-- From the coordinates of one rank to those of the next. -/
theorem advanceCoordinates_rank {rank : ℕ} (h : rank < topology.size) :
    (advanceCoordinates topology.processGrid (rankCoords topology rank)).2
        = decide (rank + 1 < topology.size) ∧
      (rank + 1 < topology.size →
        (advanceCoordinates topology.processGrid (rankCoords topology rank)).1
          = rankCoords topology (rank + 1)) := by
  have hvalid : ∀ axis ∈ axesFastestFirst M,
      rankCoords topology rank axis < topology.processGrid axis :=
    fun axis _ => (topology.coordsAt rank axis).isLt
  have hvalue : MixedRadix.value topology.processGrid (rankCoords topology rank)
      (axesFastestFirst M) = rank := by
    rw [← cartesianRank_eq]
    exact rankOf_coordsAt topology h
  have hcarry := carryCoordinates_eq nodup_axesFastestFirst hvalid
  rw [hvalue, ← size_eq] at hcarry
  unfold advanceCoordinates
  rw [show (List.finRange M).reverse = axesFastestFirst M from rfl, hcarry]
  refine ⟨rfl, fun hnext => ?_⟩
  rw [size_eq] at hnext
  exact MixedRadix.bump_digit nodup_axesFastestFirst hnext

/-! ## The slots -/

section Slots

variable (p : DistributedPencil topology N) (extraShape : ExtraShape)

/-- The block of a view on a pencil. -/
def blockOf (pencil : Pencil N M) (extraShape : ExtraShape) : GatherBlock N where
  ranges := pencil.localRanges
  localShapeMemory := pencil.localShapeMemory
  spatialCount := pencil.localLen
  count := pencil.localLen * extraShape.elementCount

/-- The block of the rank with a number. -/
def blockAt (rank : ℕ) : GatherBlock N := blockOf (p.on (topology.coordsAt rank)) extraShape

/-- Every block has an MPI count. -/
def BlocksFit : Prop := ∀ c, (p.on c).localLen * extraShape.elementCount ≤ countMax

variable {p extraShape}

/-- Placing the block of a rank whose slot is free. -/
theorem placeBlock_rank {c : Coords topology.processGrid} {rank : ℕ}
    (hrank : rank < topology.size) {slots : List (Option (GatherBlock N))}
    (hslot : slots[rank]? = some none) :
    placeBlock (p.on c) extraShape slots (rankCoords topology rank)
      = if (blockAt p extraShape rank).count ≤ countMax then
          .ok (slots.set rank (some (blockAt p extraShape rank)))
        else .error (.error .countOverflow) := by
  have hgrid : ∀ axis, rankCoords topology rank axis < (p.on c).topology.processGrid axis := by
    intro axis
    rw [processGrid_on]
    exact (topology.coordsAt rank axis).isLt
  have hnumber : (p.on c).topology.rankAt (rankCoords topology rank) = .ok rank := by
    rw [(p.on c).topology.rankAt_ok hgrid, processGrid_on]
    congr 1
    exact rankOf_coordsAt topology hrank
  have hranges : (p.on c).rangesAt (rankCoords topology rank)
      = .ok (p.on (topology.coordsAt rank)).localRanges := by
    rw [rangesAt_eq (p.on c) hgrid, localRanges_on p _ c, processGrid_on]
  have hproduct : checkedProduct
      (List.ofFn (shapeFromRanges (p.on (topology.coordsAt rank)).localRanges))
        = .ok (p.on (topology.coordsAt rank)).localLen := by
    rw [← (p.on _).localShapeLogical_eq]
    exact (p.on _).localLen_ok
  have hmemory : (p.on c).permutation.permute
      (shapeFromRanges (p.on (topology.coordsAt rank)).localRanges)
        = (p.on (topology.coordsAt rank)).localShapeMemory := by
    rw [(p.on _).localShapeMemory_eq, (p.on _).localShapeLogical_eq,
      p.permutation_eq c (topology.coordsAt rank)]
  have hlt : rank < slots.length := (List.getElem?_eq_some_iff.mp hslot).1
  unfold placeBlock
  rw [hnumber, hranges]
  simp only [Except.mapError, hslot, Option.bind_some, id_eq, Option.isNone_none, ensure_true,
    hproduct, hmemory, bind, Except.bind]
  by_cases hfit : (blockAt p extraShape rank).count ≤ countMax
  · have hfit' : (p.on (topology.coordsAt rank)).localLen * extraShape.elementCount ≤ countMax :=
      hfit
    have hmul : checkedMul (p.on (topology.coordsAt rank)).localLen extraShape.elementCount
        = some ((p.on (topology.coordsAt rank)).localLen * extraShape.elementCount) := by
      rw [checkedMul_eq_some]
      have : countMax < usizeLimit := by decide
      exact ⟨by omega, rfl⟩
    have hcount : countTryFrom
        ((p.on (topology.coordsAt rank)).localLen * extraShape.elementCount)
          = some ((p.on (topology.coordsAt rank)).localLen * extraShape.elementCount) := by
      rw [countTryFrom_eq_some]
      exact ⟨hfit', rfl⟩
    rw [if_pos hfit, hmul]
    simp only [okOr_some, hcount, hlt, decide_true, ensure_true]
    rfl
  · rw [if_neg hfit]
    cases hmul : checkedMul (p.on (topology.coordsAt rank)).localLen extraShape.elementCount with
    | none => rfl
    | some count =>
      obtain ⟨_, rfl⟩ := checkedMul_eq_some.mp hmul
      have hcount : countTryFrom
          ((p.on (topology.coordsAt rank)).localLen * extraShape.elementCount) = none := by
        rw [countTryFrom_eq_none]
        exact Nat.not_le.mp hfit
      simp only [okOr_some, hcount, okOr_none]

/-- The slots once the ranks below `k` have been visited. -/
abbrev slotsUpTo (p : DistributedPencil topology N) (extraShape : ExtraShape) (k : ℕ) :
    List (Option (GatherBlock N)) :=
  Computation.filled topology.size k none fun rank => some (blockAt p extraShape rank)

theorem slotsUpTo_getElem? {k : ℕ} (h : k < topology.size) :
    (slotsUpTo p extraShape k)[k]? = some none := by
  unfold slotsUpTo Computation.filled
  rw [List.getElem?_append_right (by simp)]
  simp [h]

/-- One round of the loop, at a rank that is not the last. -/
theorem fillSlots_step {c : Coords topology.processGrid} {fuel k : ℕ} (hk : k < topology.size)
    (hfit : (blockAt p extraShape k).count ≤ countMax) :
    fillSlots (p.on c) extraShape (fuel + 1) (slotsUpTo p extraShape k) (rankCoords topology k)
      = if k + 1 < topology.size then
          fillSlots (p.on c) extraShape fuel (slotsUpTo p extraShape (k + 1))
            (rankCoords topology (k + 1))
        else .ok (slotsUpTo p extraShape (k + 1)) := by
  obtain ⟨hmore, hnext⟩ := advanceCoordinates_rank hk
  rw [fillSlots, placeBlock_rank hk (slotsUpTo_getElem? hk), if_pos hfit, processGrid_on]
  simp only [bind, Except.bind]
  rw [filled_set _ (fun rank => some (blockAt p extraShape rank)) hk]
  by_cases hlast : k + 1 < topology.size
  · rw [hmore, decide_eq_true hlast, hnext hlast, if_pos rfl, if_pos hlast]
  · rw [hmore, decide_eq_false hlast, if_neg hlast]
    rfl

/-- **The loop over the grid** fills the slot of every rank with its block, or finds a block
without an MPI count. -/
theorem fillSlots_eq (c : Coords topology.processGrid) :
    (BlocksFit p extraShape → fillSlots (p.on c) extraShape topology.size
        (List.replicate topology.size none) (fun _ => 0)
      = .ok (slotsUpTo p extraShape topology.size)) ∧
    (¬ BlocksFit p extraShape → fillSlots (p.on c) extraShape topology.size
        (List.replicate topology.size none) (fun _ => 0) = .error (.error .countOverflow)) := by
  have hpos : 0 < topology.size := Finset.prod_pos fun axis _ => topology.extents_pos axis
  rw [← filled_zero topology.size none fun rank => some (blockAt p extraShape rank),
    ← rankCoords_zero]
  constructor
  · intro hfit
    have hloop : ∀ fuel k, k < topology.size → k + fuel = topology.size →
        fillSlots (p.on c) extraShape fuel (slotsUpTo p extraShape k) (rankCoords topology k)
          = .ok (slotsUpTo p extraShape topology.size) := by
      intro fuel
      induction fuel with
      | zero => intro k hk hsum; omega
      | succ fuel ih =>
        intro k hk hsum
        rw [fillSlots_step hk (hfit (topology.coordsAt k))]
        by_cases hlast : k + 1 < topology.size
        · rw [if_pos hlast]
          exact ih (k + 1) hlast (by omega)
        · rw [if_neg hlast, show k + 1 = topology.size by omega]
    exact hloop topology.size 0 hpos (by omega)
  · intro hfit
    obtain ⟨d, hd⟩ := not_forall.mp hfit
    -- no rank from `k` to the one of `d` has been visited yet
    have hloop : ∀ fuel k, k ≤ rankOf topology d → k + fuel = topology.size →
        fillSlots (p.on c) extraShape fuel (slotsUpTo p extraShape k) (rankCoords topology k)
          = .error (.error .countOverflow) := by
      intro fuel
      have hdlt := rankOf_lt topology d
      induction fuel with
      | zero => intro k hk hsum; omega
      | succ fuel ih =>
        intro k hk hsum
        by_cases hthis : (blockAt p extraShape k).count ≤ countMax
        · have hne : k ≠ rankOf topology d := by
            rintro rfl
            unfold blockAt at hthis
            rw [coordsAt_rankOf] at hthis
            exact hd hthis
          rw [fillSlots_step (by omega) hthis, if_pos (by omega)]
          exact ih (k + 1) (by omega) (by omega)
        · unfold fillSlots
          rw [placeBlock_rank (by omega) (slotsUpTo_getElem? (by omega)), if_neg hthis]
          rfl
    exact hloop topology.size 0 (Nat.zero_le _) (by omega)

end Slots

/-! ## The summary -/

/-- The fold over the blocks, from the rank `k` on. -/
theorem foldlM_summarizeBlock {size k total : ℕ} {blocks : List (GatherBlock N)}
    (maximumCount firstNonempty : ℕ) (hlen : k + blocks.length = size)
    (hfit : total + (blocks.map GatherBlock.count).sum < usizeLimit) :
    (blocks.zipIdx k).foldlM (summarizeBlock size) (total, maximumCount, firstNonempty)
      = .ok (total + (blocks.map GatherBlock.count).sum,
          (blocks.map GatherBlock.count).foldl max maximumCount,
          if firstNonempty = size then k + blocks.findIdx fun block => block.count ≠ 0
          else firstNonempty) := by
  induction blocks generalizing k total maximumCount firstNonempty with
  | nil =>
    rw [List.length_nil, Nat.add_zero] at hlen
    subst hlen
    simp [pure, Except.pure, eq_comm]
  | cons block blocks ih =>
    rw [List.map_cons, List.sum_cons] at hfit
    rw [List.length_cons] at hlen
    have hadd : checkedAdd total block.count = some (total + block.count) := by
      rw [checkedAdd_eq_some]
      exact ⟨by omega, rfl⟩
    have hstep : summarizeBlock size (total, maximumCount, firstNonempty) (block, k)
        = .ok (total + block.count, max maximumCount block.count,
            if block.count ≠ 0 ∧ firstNonempty = size then k else firstNonempty) := by
      unfold summarizeBlock
      simp only [hadd, okOr_some]
      rfl
    rw [List.zipIdx_cons, List.foldlM_cons, hstep]
    show (blocks.zipIdx (k + 1)).foldlM (summarizeBlock size) _ = _
    rw [ih _ _ (by omega) (by omega), List.map_cons, List.sum_cons, List.foldl_cons,
      List.findIdx_cons, Nat.add_assoc]
    congr 3
    by_cases hzero : block.count = 0
    · simp only [hzero, ne_eq, not_true_eq_false, false_and, if_false, decide_false, cond_false,
        Nat.add_assoc, Nat.add_comm 1]
    · by_cases hfirst : firstNonempty = size
      · have hne : k ≠ size := by omega
        simp [hzero, hfirst, hne]
      · simp [hzero, hfirst]

variable {p : DistributedPencil topology N} {extraShape : ExtraShape}

/-- What gather metadata say of the views of all ranks. -/
structure MetadataExact (view : DistributedView p extraShape α) (metadata : GatherMetadata N) :
    Prop where
  blocks : metadata.blocks = (List.range topology.size).map (blockAt p extraShape)
  maximum : IsGreatest (Set.range fun c => (view.on c).storage.length) metadata.maximumCount
  first : IsLeast (Set.range fun c => if (view.on c).storage.length = 0 then topology.size
    else rankOf topology c) metadata.firstNonempty

theorem MetadataExact.unique {view : DistributedView p extraShape α}
    {metadata metadata' : GatherMetadata N} (h : MetadataExact view metadata)
    (h' : MetadataExact view metadata') : metadata = metadata' := by
  obtain ⟨blocks, maximumCount, firstNonempty⟩ := metadata
  obtain ⟨blocks', maximumCount', firstNonempty'⟩ := metadata'
  obtain rfl : blocks = blocks' := h.blocks.trans h'.blocks.symm
  obtain rfl : maximumCount = maximumCount' := h.maximum.unique h'.maximum
  obtain rfl : firstNonempty = firstNonempty' := h.first.unique h'.first
  rfl

/-- The count of a block is the storage length of its rank. -/
theorem count_blockOf (view : DistributedView p extraShape α) (c : Coords topology.processGrid) :
    (blockOf (p.on c) extraShape).count = (view.on c).storage.length := by
  rw [view_storage_length, view.extraShape_eq, view.pencil_eq, Nat.mul_comm]
  rfl

theorem MetadataExact.block {view : DistributedView p extraShape α}
    {metadata : GatherMetadata N} (h : MetadataExact view metadata)
    (c : Coords topology.processGrid) :
    metadata.blocks[rankOf topology c]? = some (blockOf (p.on c) extraShape) := by
  rw [h.blocks, List.getElem?_map, List.getElem?_range (rankOf_lt topology c)]
  unfold blockAt
  rw [Option.map_some, coordsAt_rankOf]

/-- The blocks of all ranks in the order of their numbers. -/
theorem map_blockAt :
    (List.range topology.size).map (blockAt p extraShape)
      = (ranksInOrder topology).map fun c => blockOf (p.on c) extraShape := by
  unfold ranksInOrder
  rw [List.map_map]
  rfl

/-- The summary of the blocks is exact. -/
theorem metadataExact_summary (view : DistributedView p extraShape α) :
    MetadataExact view
      { blocks := (List.range topology.size).map (blockAt p extraShape)
        maximumCount := (((List.range topology.size).map (blockAt p extraShape)).map
          GatherBlock.count).foldl max 0
        firstNonempty := ((List.range topology.size).map (blockAt p extraShape)).findIdx
          fun block => block.count ≠ 0 } := by
  have hcount : ∀ c, (blockAt p extraShape (rankOf topology c)).count
      = (view.on c).storage.length := by
    intro c
    unfold blockAt
    rw [coordsAt_rankOf, count_blockOf view]
  refine ⟨rfl, ?_, ?_⟩
  · simp only
    rw [map_blockAt, List.map_map]
    set counts := (ranksInOrder topology).map
      (GatherBlock.count ∘ fun c => blockOf (p.on c) extraShape) with hcounts
    have hmem : ∀ n, n ∈ counts ↔ n ∈ Set.range fun c => (view.on c).storage.length := by
      intro n
      rw [hcounts, List.mem_map]
      constructor
      · rintro ⟨c, _, rfl⟩
        exact ⟨c, (count_blockOf view c).symm⟩
      · rintro ⟨c, rfl⟩
        exact ⟨c, mem_ranksInOrder topology c, count_blockOf view c⟩
    rw [List.foldl_max]
    cases hmax : counts.max? with
    | none =>
      have hnil := List.max?_eq_none_iff.mp hmax
      have hhere := (hmem _).mpr ⟨topology.here, rfl⟩
      rw [hnil] at hhere
      contradiction
    | some greatest =>
      obtain ⟨hin, hupper⟩ := List.max?_eq_some_iff.mp hmax
      rw [Option.getD_some, Nat.zero_max]
      exact ⟨(hmem _).mp hin, fun n hn => hupper n ((hmem n).mpr hn)⟩
  · simp only
    set blocks := (List.range topology.size).map (blockAt p extraShape) with hblocks
    have hget : ∀ (k : ℕ) (hk : k < blocks.length), blocks[k] = blockAt p extraShape k := by
      intro k hk
      simp [hblocks]
    have hlength : blocks.length = topology.size := by simp [hblocks]
    have hlower : ∀ c, blocks.findIdx (fun block => block.count ≠ 0)
        ≤ if (view.on c).storage.length = 0 then topology.size else rankOf topology c := by
      intro c
      split
      · rw [← hlength]
        exact List.findIdx_le_length
      · rename_i hne
        by_contra hlt
        have hnot := List.not_of_lt_findIdx (Nat.not_le.mp hlt)
        rw [hget, hcount] at hnot
        simp [hne] at hnot
    refine ⟨?_, ?_⟩
    · by_cases hfound : blocks.findIdx (fun block => block.count ≠ 0) < blocks.length
      · have hhas := List.findIdx_getElem (w := hfound)
        rw [hget] at hhas
        rw [hlength] at hfound
        have hrank := rankOf_coordsAt topology hfound
        rw [← hrank, hcount] at hhas
        refine ⟨topology.coordsAt (blocks.findIdx fun block => block.count ≠ 0), ?_⟩
        simp only
        rw [if_neg (by simpa using hhas), hrank]
      · have hnone := Nat.le_antisymm List.findIdx_le_length (Nat.not_lt.mp hfound)
        refine ⟨topology.here, ?_⟩
        have hle := hlower topology.here
        rw [hnone, hlength] at hle ⊢
        have hlt := rankOf_lt topology topology.here
        simp only
        split at hle
        · rename_i hzero
          rw [if_pos hzero]
        · omega
    · rintro n ⟨c, rfl⟩
      exact hlower c

/-! ## The metadata -/

/-- The blocks hold all elements. -/
theorem sum_counts :
    (((List.range topology.size).map (blockAt p extraShape)).map GatherBlock.count).sum
      = extraShape.elementCount * ∏ axis, commonShape p axis := by
  rw [map_blockAt, List.map_map, sum_ranksInOrder topology, ← sum_localLen p, Finset.mul_sum]
  exact Finset.sum_congr rfl fun c _ => Nat.mul_comm _ _

/-- **Gather metadata.**  Every rank that can allocate works out the same exact metadata, where
each block has an MPI count; a rank that fails does so with an error. -/
theorem buildGatherMetadata_eq (view : DistributedView p extraShape α)
    (hcount : extraShape.elementCount * ∏ axis, commonShape p axis < usizeLimit) :
    ∃ metadata, MetadataExact view metadata ∧ ∀ c (alloc : CollectiveAllocator),
      ((BlocksFit p extraShape ∧ alloc.slots = true ∧ alloc.blocks = true) →
        buildGatherMetadata alloc (view.on c)
          (extraShape.elementCount * ∏ axis, commonShape p axis) = .ok metadata) ∧
      ((¬ (BlocksFit p extraShape ∧ alloc.slots = true ∧ alloc.blocks = true)) →
        ∃ e, buildGatherMetadata alloc (view.on c)
          (extraShape.elementCount * ∏ axis, commonShape p axis) = .error (.error e)) := by
  refine ⟨_, metadataExact_summary view, fun c alloc => ?_⟩
  have hsize : (view.on c).pencil.topology.size = topology.size := by
    rw [view.pencil_eq]
    unfold MpiTopology.size
    rw [processGrid_on]
  have hrank : (view.on c).pencil.topology.rank = rankOf topology c := by
    rw [view.pencil_eq]
    unfold MpiTopology.rank rankOf
    rw [processGrid_on, localCoords_on]
  unfold buildGatherMetadata
  simp only
  rw [hsize, hrank, view.extraShape_eq c]
  cases hslots : alloc.slots with
  | false => exact ⟨fun h => absurd h.2.1 (by simp), fun _ => ⟨_, rfl⟩⟩
  | true =>
    rw [ensure_true, view.pencil_eq c]
    by_cases hfit : BlocksFit p extraShape
    · have hfill := (fillSlots_eq (p := p) c).1 hfit
      cases hgrant : alloc.blocks with
      | false =>
        refine ⟨fun h => absurd h.2.2 (by simp), fun _ => ⟨.allocationFailed topology.size, ?_⟩⟩
        simp only [bind, Except.bind, hfill, ensure_false]
      | true =>
        refine ⟨fun _ => ?_, fun h => absurd ⟨hfit, rfl, rfl⟩ h⟩
        have hmap : (slotsUpTo p extraShape topology.size).mapM
            (fun block => okOr block (Stop.error CollectiveError.preparationFailed))
            = .ok ((List.range topology.size).map (blockAt p extraShape)) := by
          unfold slotsUpTo
          rw [filled_all, List.mapM_map]
          exact mapM_eq_pure fun rank _ => rfl
        have hlength : 0 + ((List.range topology.size).map (blockAt p extraShape)).length
            = topology.size := by simp
        have htotal : 0 + (((List.range topology.size).map (blockAt p extraShape)).map
            GatherBlock.count).sum < usizeLimit := by
          rw [sum_counts]
          omega
        have hsummary := foldlM_summarizeBlock 0 topology.size hlength htotal
        have hown : (((List.range topology.size).map (blockAt p extraShape))[rankOf topology c]?).map
            GatherBlock.count = some (view.on c).storage.length := by
          have := (metadataExact_summary view).block c
          simp only at this
          rw [this, Option.map_some, count_blockOf view]
        rw [if_pos rfl, Nat.zero_add, Nat.zero_add, sum_counts] at hsummary
        simp only [bind, Except.bind, hfill, ensure_true, hmap, hsummary, hown, decide_true]
        rfl
    · refine ⟨fun h => absurd h.1 hfit, fun _ => ⟨.countOverflow, ?_⟩⟩
      have hfill := (fillSlots_eq (p := p) c).2 hfit
      simp only [bind, Except.bind, hfill]

end PencilRs.Analysis
