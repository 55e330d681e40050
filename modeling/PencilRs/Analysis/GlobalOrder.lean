import PencilRs.Analysis.Distribution

/-!
# The logical row-major order of a global array

The elements of the global array are numbered in row-major order of the extra axes followed by
the spatial axes in logical order.  The blocks of all ranks cover the numbers, each once.
-/

set_option autoImplicit false

namespace PencilRs.Analysis

open PencilRs.Computation PencilRs.Model

variable {N M : ℕ}

/-- The number of an element of the global array. -/
def globalPosition (globalShape : Fin N → ℕ) (extraShape : ExtraShape) (e : List ℕ)
    (g : Fin N → ℕ) : ℕ :=
  rowMajorValue extraShape.dimensions e * (∏ axis, globalShape axis)
    + MixedRadix.value globalShape g (axesFastestFirst N)

variable {globalShape : Fin N → ℕ} {extraShape : ExtraShape} {e f : List ℕ} {g h : Fin N → ℕ}

/-- The dimensions of the global array. -/
def logicalShape (globalShape : Fin N → ℕ) (extraShape : ExtraShape) : List ℕ :=
  extraShape.dimensions ++ List.ofFn globalShape

theorem prod_logicalShape :
    (logicalShape globalShape extraShape).prod
      = extraShape.elementCount * ∏ axis, globalShape axis := by
  unfold logicalShape
  rw [List.prod_append, List.prod_ofFn, elementCount_eq]

theorem zip_logicalShape (g : Fin N → ℕ) (he : e.length = extraShape.dimensions.length) :
    (logicalShape globalShape extraShape).zip (e ++ List.ofFn g)
      = extraShape.dimensions.zip e
        ++ (List.finRange N).map fun axis => (globalShape axis, g axis) := by
  unfold logicalShape
  rw [List.zip_append he.symm]
  congr 1
  rw [List.ofFn_eq_map, List.ofFn_eq_map, List.zip_map']

theorem rowMajorValue_logicalShape (g : Fin N → ℕ)
    (he : e.length = extraShape.dimensions.length) :
    rowMajorValue (logicalShape globalShape extraShape) (e ++ List.ofFn g)
      = globalPosition globalShape extraShape e g := by
  unfold rowMajorValue globalPosition rowMajorValue
  rw [zip_logicalShape g he, List.reverse_append, MixedRadix.value_append, ← List.map_reverse,
    MixedRadix.value_map, MixedRadix.size_map]
  have hsize : MixedRadix.size (Prod.fst ∘ fun axis : Fin N => (globalShape axis, g axis))
      (List.finRange N).reverse = ∏ axis, globalShape axis := size_axesFastestFirst globalShape
  rw [hsize, Nat.add_comm, Nat.mul_comm]
  rfl

theorem validIndices_logicalShape (he : e.length = extraShape.dimensions.length) :
    ValidIndices (logicalShape globalShape extraShape) (e ++ List.ofFn g) ↔
      ValidIndices extraShape.dimensions e ∧ InBox globalShape g := by
  unfold ValidIndices
  rw [zip_logicalShape g he]
  constructor
  · rintro ⟨_, hall⟩
    refine ⟨⟨he, fun x hx => hall x (List.mem_append_left _ hx)⟩, fun axis => ?_⟩
    exact hall (_, _) (List.mem_append_right _ (List.mem_map.mpr ⟨axis, List.mem_finRange axis,
      rfl⟩))
  · rintro ⟨⟨_, hextra⟩, hbox⟩
    refine ⟨by simp [logicalShape, he], fun x hx => ?_⟩
    cases List.mem_append.mp hx with
    | inl hx => exact hextra x hx
    | inr hx =>
      obtain ⟨axis, _, rfl⟩ := List.mem_map.mp hx
      exact hbox axis

/-- A checked row-major offset in the global array is the number of the element. -/
theorem rowMajorOffset_logicalShape {offset : ℕ}
    (hoffset : rowMajorOffset (logicalShape globalShape extraShape) (e ++ List.ofFn g)
      = .ok offset) :
    ValidIndices extraShape.dimensions e ∧ InBox globalShape g ∧
      offset = globalPosition globalShape extraShape e g := by
  obtain ⟨hlen, hall, hoff⟩ := rowMajorOffset_ok hoffset
  have he : e.length = extraShape.dimensions.length := by
    simpa [logicalShape] using hlen.symm
  obtain ⟨hextra, hbox⟩ := (validIndices_logicalShape he).mp ⟨hlen.symm, hall⟩
  exact ⟨hextra, hbox, hoff.trans (rowMajorValue_logicalShape g he)⟩

theorem globalPosition_lt (he : ValidIndices extraShape.dimensions e)
    (hg : InBox globalShape g) :
    globalPosition globalShape extraShape e g
      < extraShape.elementCount * ∏ axis, globalShape axis := by
  rw [← rowMajorValue_logicalShape g he.1, ← prod_logicalShape]
  exact rowMajorValue_lt ((validIndices_logicalShape he.1).mpr ⟨he, hg⟩)

theorem globalPosition_inj (he : ValidIndices extraShape.dimensions e)
    (hg : InBox globalShape g) (hf : ValidIndices extraShape.dimensions f)
    (hh : InBox globalShape h)
    (heq : globalPosition globalShape extraShape e g = globalPosition globalShape extraShape f h) :
    e = f ∧ g = h := by
  rw [← rowMajorValue_logicalShape g he.1, ← rowMajorValue_logicalShape h hf.1] at heq
  have happ := rowMajorValue_inj ((validIndices_logicalShape he.1).mpr ⟨he, hg⟩)
    ((validIndices_logicalShape hf.1).mpr ⟨hf, hh⟩) heq
  obtain ⟨hef, hgh⟩ := List.append_inj happ (he.1.trans hf.1.symm)
  exact ⟨hef, List.ofFn_injective hgh⟩

theorem exists_globalPosition {i : ℕ}
    (hi : i < extraShape.elementCount * ∏ axis, globalShape axis) :
    ∃ e g, ValidIndices extraShape.dimensions e ∧ InBox globalShape g ∧
      globalPosition globalShape extraShape e g = i := by
  have hlen : 0 < ∏ axis, globalShape axis :=
    Nat.pos_of_mul_pos_left (Nat.lt_of_le_of_lt (Nat.zero_le _) hi)
  have hq : i / (∏ axis, globalShape axis) < extraShape.dimensions.prod := by
    rw [← elementCount_eq]
    exact Nat.div_lt_of_lt_mul (by rwa [Nat.mul_comm])
  have hr : i % (∏ axis, globalShape axis)
      < MixedRadix.size globalShape (axesFastestFirst N) := by
    rw [size_axesFastestFirst]
    exact Nat.mod_lt _ hlen
  have hpos := MixedRadix.radix_pos (Nat.lt_of_le_of_lt (Nat.zero_le _) hr)
  refine ⟨indicesOf extraShape.dimensions (i / ∏ axis, globalShape axis),
    MixedRadix.digit globalShape (axesFastestFirst N) (i % ∏ axis, globalShape axis),
    validIndices_indicesOf hq, fun axis => ?_, ?_⟩
  · exact MixedRadix.digit_lt _ hpos axis (mem_axesFastestFirst axis)
  · unfold globalPosition
    rw [rowMajorValue_indicesOf hq, MixedRadix.value_digit nodup_axesFastestFirst hr]
    exact Nat.div_add_mod' i _

/-! ## The blocks of all ranks -/

variable {topology : MpiTopology M} (p : DistributedPencil topology N)

/-- The global shape all ranks hold. -/
def commonShape : Fin N → ℕ := (p.on topology.here).globalShape

theorem globalShape_on (c : Coords topology.processGrid) :
    (p.on c).globalShape = commonShape p := p.globalShape_eq c topology.here

theorem globalLen_eq (c : Coords topology.processGrid) :
    (p.on c).globalLen = ∏ axis, commonShape p axis := by
  rw [checkedProduct_ok (p.on c).globalLen_ok, List.prod_ofFn, globalShape_on]

theorem isPartition_localRanges :
    IsPartition (commonShape p) topology.processGrid
      (p.on topology.here).decomposition.axes fun c => (p.on c).localRanges := by
  have h := isPartition_ownedRanges (commonShape p) topology.processGrid
    (p.on topology.here).decomposition.injective topology.extents_pos
  have heq : (fun c => (p.on c).localRanges) = fun c : Coords topology.processGrid =>
      ownedRanges (commonShape p) topology.processGrid (fun t => c t)
        (p.on topology.here).decomposition.axes :=
    funext fun c => localRanges_on p c topology.here
  rw [heq]
  exact h

theorem inBox_toGlobal {c : Coords topology.processGrid} {x : Fin N → ℕ}
    (hx : ValidLocal (p.on c) x) : InBox (commonShape p) (toGlobal (p.on c) x) :=
  (isPartition_localRanges p).inside c _ (owns_toGlobal hx)

/-- The blocks together have as many elements as the global array. -/
theorem sum_localLen :
    ∑ c, (p.on c).localLen = ∏ axis, commonShape p axis := by
  classical
  have hpart := isPartition_localRanges p
  have hblock : ∀ c, (p.on c).localLen = (Fintype.piFinset fun axis =>
      Finset.Ico ((p.on c).localRanges axis).start ((p.on c).localRanges axis).stop).card := by
    intro c
    rw [localLen_eq, Fintype.card_piFinset]
    exact Finset.prod_congr rfl fun axis _ => by rw [Nat.card_Ico, localShapeLogical_apply]
  have hbox : ∏ axis, commonShape p axis
      = (Fintype.piFinset fun axis => Finset.range (commonShape p axis)).card := by
    simp
  have hmem : ∀ c g, g ∈ (Fintype.piFinset fun axis =>
      Finset.Ico ((p.on c).localRanges axis).start ((p.on c).localRanges axis).stop) ↔
        Owns (p.on c).localRanges g := by
    intro c g
    simp [Owns, Fintype.mem_piFinset]
  rw [hbox, Finset.sum_congr rfl fun c _ => hblock c, ← Finset.card_biUnion]
  · congr 1
    ext g
    rw [Finset.mem_biUnion, Fintype.mem_piFinset]
    constructor
    · rintro ⟨c, _, hc⟩ axis
      exact Finset.mem_range.mpr (hpart.inside c g ((hmem c g).mp hc) axis)
    · intro hg
      obtain ⟨c, hc⟩ := hpart.cover g fun axis => Finset.mem_range.mp (hg axis)
      exact ⟨c, Finset.mem_univ c, (hmem c g).mpr hc⟩
  · intro c _ d _ hne
    refine Finset.disjoint_left.mpr fun g hc hd => ?_
    exact hpart.disjoint c d hne g ⟨(hmem c g).mp hc, (hmem d g).mp hd⟩

end PencilRs.Analysis
