import PencilRs.Analysis.Layout
import PencilRs.Model.Collectives

/-!
# Rank numbers

The numbers MPI gives to the ranks of a topology count its grid in row-major order: every
number below the size is the number of exactly one rank.
-/

set_option autoImplicit false

namespace PencilRs.Analysis

open PencilRs.Computation PencilRs.Model

variable {M : ℕ} (topology : MpiTopology M)

/-- The number of a rank. -/
def rankOf (c : Coords topology.processGrid) : ℕ :=
  MpiTopology.cartesianRank topology.processGrid fun axis => c axis

theorem size_eq : topology.size = MixedRadix.size topology.processGrid (axesFastestFirst M) :=
  (size_axesFastestFirst topology.processGrid).symm

theorem cartesianRank_eq (coords : Fin M → ℕ) :
    MpiTopology.cartesianRank topology.processGrid coords
      = MixedRadix.value topology.processGrid coords (axesFastestFirst M) := by
  unfold MpiTopology.cartesianRank axesFastestFirst
  rw [MixedRadix.foldl_horner, Nat.zero_mul, Nat.zero_add]

theorem rankOf_lt (c : Coords topology.processGrid) : rankOf topology c < topology.size := by
  unfold rankOf
  rw [cartesianRank_eq, size_eq]
  exact MixedRadix.value_lt_size fun axis _ => (c axis).isLt

theorem coordsAt_rankOf (c : Coords topology.processGrid) :
    topology.coordsAt (rankOf topology c) = c := by
  funext axis
  apply Fin.ext
  unfold rankOf
  rw [cartesianRank_eq]
  exact MixedRadix.digit_value nodup_axesFastestFirst (fun axis _ => (c axis).isLt) axis
    (List.mem_reverse.mpr (List.mem_finRange axis))

theorem rankOf_coordsAt {rank : ℕ} (h : rank < topology.size) :
    rankOf topology (topology.coordsAt rank) = rank := by
  unfold rankOf
  rw [cartesianRank_eq]
  rw [size_eq] at h
  exact MixedRadix.value_digit nodup_axesFastestFirst h

theorem rankOf_inj {c d : Coords topology.processGrid} (h : rankOf topology c = rankOf topology d) :
    c = d := by
  rw [← coordsAt_rankOf topology c, h, coordsAt_rankOf]

/-- The ranks in the order of their numbers. -/
def ranksInOrder : List (Coords topology.processGrid) :=
  (List.range topology.size).map topology.coordsAt

theorem nodup_ranksInOrder : (ranksInOrder topology).Nodup := by
  refine List.Nodup.map_on ?_ List.nodup_range
  intro rank hrank rank' hrank' h
  rw [← rankOf_coordsAt topology (List.mem_range.mp hrank), h,
    rankOf_coordsAt topology (List.mem_range.mp hrank')]

theorem mem_ranksInOrder (c : Coords topology.processGrid) : c ∈ ranksInOrder topology :=
  List.mem_map.mpr ⟨rankOf topology c, List.mem_range.mpr (rankOf_lt topology c),
    coordsAt_rankOf topology c⟩

/-- A sum in rank order is the sum over the ranks. -/
theorem sum_ranksInOrder {β : Type} [AddCommMonoid β] (f : Coords topology.processGrid → β) :
    ((ranksInOrder topology).map f).sum = ∑ c, f c := by
  have huniv : (Finset.univ : Finset (Coords topology.processGrid))
      = (ranksInOrder topology).toFinset := by
    ext c
    simp [mem_ranksInOrder]
  rw [huniv, List.sum_toFinset f (nodup_ranksInOrder topology)]

end PencilRs.Analysis
