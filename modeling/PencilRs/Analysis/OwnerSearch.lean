import PencilRs.Analysis.Ownership
import PencilRs.Analysis.Ranks
import PencilRs.Model.SpatialRemap

/-!
# The search finds the owner

The window of the search always holds the coordinate whose block has the index: the cuts do not
go back, so a block that starts after the index rules out the blocks behind it and a block that
ends before it, empty or not, rules out the blocks up to it.
-/

set_option autoImplicit false

namespace PencilRs.Analysis

open PencilRs.Computation PencilRs.Model

variable {N M : ℕ}

/-- The loop returns the coordinate as long as the window holds it. -/
theorem partitionOwnerLoop_eq {index extent parts owner : ℕ} (hextent : extent < usizeLimit)
    (hparts : parts < usizeLimit) (howner : BlockPartition.InBlock extent parts owner index)
    {low high : ℕ} (hlow : low ≤ owner) (hhigh : owner < high) (hwindow : high ≤ parts) :
    partitionOwnerLoop index extent parts low high = .ok owner := by
  -- by induction on the width of the window
  induction hwidth : high - low using Nat.strong_induction_on generalizing low high with
  | _ width ih =>
    have hmiddle : ((checkedSub high low).bind fun width => checkedAdd low (width / 2))
        = some (low + (high - low) / 2) := by
      rw [checkedSub_eq_some.mpr ⟨by omega, rfl⟩]
      exact checkedAdd_eq_some.mpr ⟨by omega, rfl⟩
    obtain ⟨hstart, hstop⟩ := howner
    rw [partitionOwnerLoop, if_pos (by omega)]
    split
    case h_1 hnone =>
      rw [hmiddle] at hnone
      contradiction
    case h_2 middle hsome =>
      obtain rfl : low + (high - low) / 2 = middle :=
        Option.some.inj (hmiddle.symm.trans hsome)
      rw [partitionRange_eq hextent hparts (by omega)]
      show (if index < BlockPartition.cut extent parts (low + (high - low) / 2) then _ else _) = _
      by_cases hbefore : index < BlockPartition.cut extent parts (low + (high - low) / 2)
      · have hleft : owner < low + (high - low) / 2 := by
          by_contra hnot
          have := BlockPartition.cut_mono extent parts (Nat.le_of_not_lt hnot)
          omega
        rw [if_pos hbefore]
        exact ih _ (by omega) hlow hleft (by omega) rfl
      · rw [if_neg hbefore]
        show (if index ≥ BlockPartition.cut extent parts (low + (high - low) / 2 + 1) then _
          else _) = _
        by_cases hafter : index ≥ BlockPartition.cut extent parts (low + (high - low) / 2 + 1)
        · rw [if_pos hafter]
          have hright : low + (high - low) / 2 < owner := by
            by_contra hnot
            have := BlockPartition.cut_mono extent parts
              (show owner + 1 ≤ low + (high - low) / 2 + 1 by omega)
            omega
          have hnext : checkedAdd (low + (high - low) / 2) 1
              = some (low + (high - low) / 2 + 1) := checkedAdd_eq_some.mpr ⟨by omega, rfl⟩
          split
          case h_1 hnone =>
            rw [hnext] at hnone
            contradiction
          case h_2 next hsome =>
            obtain rfl : low + (high - low) / 2 + 1 = next :=
              Option.some.inj (hnext.symm.trans hsome)
            exact ih _ (by omega) hright hhigh hwindow rfl
        · rw [if_neg hafter, BlockPartition.inBlock_unique ⟨hstart, hstop⟩
            (m := low + (high - low) / 2) ⟨by omega, by omega⟩]

theorem partitionOwner_eq {index extent parts owner : ℕ} (hextent : extent < usizeLimit)
    (hparts : parts < usizeLimit) (hindex : index < extent) (hlt : owner < parts)
    (howner : BlockPartition.InBlock extent parts owner index) :
    partitionOwner index extent parts = .ok owner := by
  unfold partitionOwner
  rw [if_neg (by omega)]
  exact partitionOwnerLoop_eq hextent hparts howner (Nat.zero_le _) hlt le_rfl

/-- The search returns the number of the rank that owns the index. -/
theorem ownerRank_eq (source : Pencil N M) {global : Fin N → ℕ}
    (hglobal : InBox source.globalShape global) {c : Coords source.topology.processGrid}
    (hc : Owns (pencilAt source c).localRanges global) :
    ownerRank source global = .ok (rankOf source.topology c) := by
  have hcoordinate : ∀ t : Fin M, partitionOwner (global (source.decomposition.axes t))
      (source.globalShape (source.decomposition.axes t)) (source.topology.processGrid t)
        = .ok (c t : ℕ) := by
    intro t
    exact partitionOwner_eq (extent_lt source.extents_pos (globalShape_fits source) _)
      (processGrid_lt source.topology t) (hglobal _) (c t).isLt
      (owns_decomposed source.decomposition.injective hc t)
  have hloop : ∀ (l : List (Fin M)) (ownerCoords : Fin M → ℕ),
      l.foldlM (fun ownerCoords topologyAxis => do
        let spatialAxis := source.decomposition.axes topologyAxis
        let ownerCoordinate ← partitionOwner (global spatialAxis)
          (source.globalShape spatialAxis) (source.topology.processGrid topologyAxis)
        return Function.update ownerCoords topologyAxis ownerCoordinate) ownerCoords
        = .ok (l.foldl (fun table t => Function.update table t (c t : ℕ)) ownerCoords) := by
    intro l
    induction l with
    | nil => exact fun ownerCoords => rfl
    | cons t l ih =>
      intro ownerCoords
      rw [List.foldlM_cons]
      show (partitionOwner _ _ _ >>= _) >>= _ = _
      rw [hcoordinate t]
      exact ih _
  have hcoords : (List.finRange M).foldl (fun table t => Function.update table t (c t : ℕ))
      (fun _ => 0) = fun t => (c t : ℕ) := by
    funext t
    have hid : Function.Injective (id : Fin M → Fin M) := Function.injective_id
    exact foldl_update_of_mem hid (fun t => (c t : ℕ)) _ _ (List.mem_finRange t)
  have hsize := rankOf_lt source.topology c
  unfold ownerRank
  rw [hloop, hcoords]
  show (Except.mapError _ (source.topology.rankAt fun t => (c t : ℕ))) >>= _ = _
  rw [source.topology.rankAt_ok fun t => (c t).isLt]
  show (if rankOf source.topology c ≥ source.topology.size then _ else _) = _
  rw [if_neg (by omega)]
  rfl

/-- **Owner search is exact.**  For every extent and number of parts, also where blocks are
empty, the bisection ends with the one coordinate whose range has the index; the products of the
boundaries stay inside `u128` and their quotients inside `usize`.  The owner of a global index is
the one rank whose ranges have it. -/
theorem owner_search_exact :
    (∀ extent parts index : ℕ, extent < usizeLimit → parts < usizeLimit → 1 ≤ parts →
      index < extent →
      (∃ c, partitionOwner index extent parts = .ok c ∧ ∀ d,
        (∃ range, partitionRange extent parts d = .ok range ∧ range.contains index = true)
          ↔ d = c) ∧
      ∀ position ≤ parts, extent * position < u128Limit ∧
        extent * position / parts < usizeLimit) ∧
    ∀ {N M : ℕ} (source : Pencil N M) (global : Fin N → ℕ), InBox source.globalShape global →
      ∃ rank < source.topology.size, ownerRank source global = .ok rank ∧
        ∀ rank' < source.topology.size,
          Owns (pencilAt source (source.topology.coordsAt rank')).localRanges global ↔
            rank' = rank := by
  constructor
  · intro extent parts index hextent hparts hone hindex
    obtain ⟨c, hc, hin⟩ := BlockPartition.exists_inBlock hone hindex
    refine ⟨⟨c, partitionOwner_eq hextent hparts hindex hc hin, fun d => ?_⟩,
      fun position hposition => ?_⟩
    · constructor
      · rintro ⟨range, hrange, hcontains⟩
        have hd : d < parts := by
          by_contra hnot
          unfold partitionRange at hrange
          rw [if_neg (by omega), if_pos (by omega)] at hrange
          contradiction
        rw [partitionRange_eq hextent hparts hd] at hrange
        obtain rfl := Except.ok.inj hrange
        exact BlockPartition.inBlock_unique ((owns_block_iff _ _ _ _).mp hcontains) hin
      · rintro rfl
        exact ⟨_, partitionRange_eq hextent hparts hc, (owns_block_iff _ _ _ _).mpr hin⟩
    · have hfits := boundary_eq hextent hparts hone hposition
      exact ⟨hfits.1, hfits.2.1⟩
  · intro N M source global hglobal
    have hpartition := isPartition_ownedRanges source.globalShape source.topology.processGrid
      source.decomposition.injective source.topology.extents_pos
    obtain ⟨c, hc, hunique⟩ := hpartition.existsUnique_owner hglobal
    refine ⟨rankOf source.topology c, rankOf_lt source.topology c,
      ownerRank_eq source hglobal hc, fun rank' hrank' => ⟨fun howns => ?_, ?_⟩⟩
    · rw [← hunique _ howns, rankOf_coordsAt source.topology hrank']
    · rintro rfl
      rw [coordsAt_rankOf]
      exact hc

theorem owner_search_empty_blocks : partitionOwner 1 2 4 = .ok 3 := by
  obtain ⟨⟨c, hc, howner⟩, _⟩ := owner_search_exact.1 2 4 1 (by decide) (by decide) (by decide)
    (by decide)
  obtain rfl : 3 = c := (howner 3).mp ⟨⟨1, 2⟩, by decide, by decide⟩
  exact hc

end PencilRs.Analysis
