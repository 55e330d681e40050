import PencilRs.Analysis.Ownership
import PencilRs.Model.RegionWalk

/-!
# What a region walk visits

The strides the walk lays out evaluate the pencil's row-major offset, the odometer visits
the region in global row-major order, and none of the arithmetic overflows: every value is
bounded by an offset inside local storage.
-/

set_option autoImplicit false

namespace PencilRs.Analysis

open PencilRs.Computation PencilRs.Model

variable {N M : ℕ}

/-! ## Strides -/

/-- Digits times strides, added up over the axes in `l`. -/
def weighted (stride : Fin N → ℕ) (l : List (Fin N)) (x : Fin N → ℕ) : ℕ :=
  (l.map fun axis => x axis * stride axis).sum

@[simp] theorem weighted_nil (stride x : Fin N → ℕ) : weighted stride [] x = 0 := rfl

@[simp] theorem weighted_cons (stride x : Fin N → ℕ) (axis : Fin N) (l : List (Fin N)) :
    weighted stride (axis :: l) x = x axis * stride axis + weighted stride l x := rfl

theorem weighted_append (stride x : Fin N → ℕ) (l m : List (Fin N)) :
    weighted stride (l ++ m) x = weighted stride l x + weighted stride m x := by
  simp [weighted]

theorem weighted_reverse (stride x : Fin N → ℕ) (l : List (Fin N)) :
    weighted stride l.reverse x = weighted stride l x := by
  simp [weighted, List.sum_reverse]

theorem weighted_congr {stride x y : Fin N → ℕ} {l : List (Fin N)}
    (h : ∀ axis ∈ l, x axis = y axis) : weighted stride l x = weighted stride l y := by
  unfold weighted
  rw [List.map_congr_left fun axis ha => by rw [h axis ha]]

theorem weighted_le_of_initial (stride x : Fin N → ℕ) {l m : List (Fin N)} (h : l <+: m) :
    weighted stride l x ≤ weighted stride m x := by
  obtain ⟨t, rfl⟩ := h
  rw [weighted_append]
  omega

theorem foldlM_regionStrides {axes : Fin N → Fin N} (hinj : Function.Injective axes)
    {shape : Fin N → ℕ} (hpos : ∀ position, 0 < shape position) (l : List (Fin N))
    (hn : l.Nodup) (table : Fin N → ℕ) (running : ℕ)
    (hfit : running * MixedRadix.size shape l < usizeLimit) :
    ∃ table', l.foldlM (fun (state : (Fin N → ℕ) × ℕ) position =>
        (checkedMul state.2 (shape position)).map fun next =>
          (Function.update state.1 (axes position) state.2, next)) (table, running)
        = some (table', running * MixedRadix.size shape l) ∧
      (∀ position ∈ l, table' (axes position) = MixedRadix.stride shape l running position) ∧
      ∀ position ∉ l, table' (axes position) = table (axes position) := by
  induction l generalizing table running with
  | nil => exact ⟨table, by simp, by simp, fun _ _ => rfl⟩
  | cons a l ih =>
    obtain ⟨ha, hn⟩ := List.nodup_cons.mp hn
    rw [MixedRadix.size_cons, ← Nat.mul_assoc] at hfit
    have hrest : 0 < MixedRadix.size shape l := MixedRadix.size_pos fun b _ => hpos b
    have hmul : checkedMul running (shape a) = some (running * shape a) :=
      checkedMul_eq_some.mpr
        ⟨Nat.lt_of_le_of_lt (Nat.le_mul_of_pos_right _ hrest) hfit, rfl⟩
    obtain ⟨table', hrun, hin, hout⟩ :=
      ih hn (Function.update table (axes a) running) (running * shape a) hfit
    refine ⟨table', ?_, ?_, ?_⟩
    · rw [List.foldlM_cons, hmul, MixedRadix.size_cons, ← Nat.mul_assoc]
      exact hrun
    · intro position hmem
      rw [MixedRadix.stride]
      by_cases heq : position = a
      · subst heq
        rw [hout position ha, Function.update_self, Function.update_self]
      · rw [Function.update_of_ne heq]
        exact hin position (List.mem_of_ne_of_mem heq hmem)
    · intro position hmem
      rw [List.mem_cons, not_or] at hmem
      rw [hout position hmem.2,
        Function.update_of_ne fun h => hmem.1 (hinj h)]

/-- The strides of a pencil with a nonempty block evaluate its offsets. -/
theorem regionStrides_eq (p : Pencil N M) (hpos : 0 < p.localLen) :
    ∃ stride running, regionStrides (LocalLayout.new p) = some (stride, running) ∧
      ∀ x, layoutOffset p x = weighted stride (List.finRange N) x := by
  have hsize : MixedRadix.size p.localShapeMemory (axesFastestFirst N) = p.localLen := by
    rw [size_axesFastestFirst, prod_localShapeMemory]
  have hshape : ∀ position, 0 < p.localShapeMemory position := fun position =>
    MixedRadix.radix_pos (by rwa [hsize]) position (mem_axesFastestFirst position)
  obtain ⟨stride, hrun, hstride, _⟩ := foldlM_regionStrides p.permutation.injective hshape
    (axesFastestFirst N) nodup_axesFastestFirst (fun _ => 0) 1
    (by rw [hsize, Nat.one_mul]; exact localLen_lt p)
  refine ⟨stride, _, hrun, ?_⟩
  intro x
  have hmem : layoutOffset p x
      = ((axesFastestFirst N).map fun position =>
          x (p.permutation.axesInMemoryOrder position)
            * stride (p.permutation.axesInMemoryOrder position)).sum := by
    have hsum := MixedRadix.sum_stride (e := p.localShapeMemory)
      (c := p.permutation.permute x) (nodup_axesFastestFirst (N := N)) 1
    rw [Nat.one_mul] at hsum
    rw [layoutOffset, ← hsum]
    congr 1
    apply List.map_congr_left
    intro position _
    rw [hstride position (mem_axesFastestFirst position)]
    rfl
  rw [hmem, weighted, axesFastestFirst, List.map_reverse, List.sum_reverse,
    ← List.ofFn_eq_map, ← List.ofFn_eq_map, List.sum_ofFn, List.sum_ofFn]
  exact Fintype.sum_bijective _ p.permutation.bijective _ _ fun _ => rfl

/-! ## Regions -/

/-- The extent of a region along each axis. -/
def regionExtent (region : Fin N → Range) : Fin N → ℕ := fun axis => (region axis).len

/-- A nonempty region inside the pencil's own block. -/
structure InsideBlock (p : Pencil N M) (region : Fin N → Range) : Prop where
  lower : ∀ axis, (p.localRanges axis).start ≤ (region axis).start
  upper : ∀ axis, (region axis).stop ≤ (p.localRanges axis).stop
  nonempty : ∀ axis, (region axis).start < (region axis).stop

namespace InsideBlock

variable {p : Pencil N M} {region : Fin N → Range}

/-- Adding to the region's start anything below its extents stays in the block. -/
theorem validLocal_add (h : InsideBlock p region) {x : Fin N → ℕ}
    (hx : ∀ axis, x axis < regionExtent region axis) :
    ValidLocal p fun axis => ((region axis).start - (p.localRanges axis).start) + x axis := by
  intro axis
  have hlt := hx axis
  have := h.lower axis
  have := h.upper axis
  rw [localShapeLogical_apply]
  simp only [regionExtent, Range.len] at hlt ⊢
  omega

theorem extent_pos (h : InsideBlock p region) (axis : Fin N) : 0 < regionExtent region axis := by
  have := h.nonempty axis
  simp only [regionExtent, Range.len]
  omega

theorem localLen_pos (h : InsideBlock p region) : 0 < p.localLen :=
  Nat.lt_of_le_of_lt (Nat.zero_le _)
    (layoutOffset_lt (h.validLocal_add fun axis => h.extent_pos axis))

theorem extent_le (h : InsideBlock p region) (axis : Fin N) :
    regionExtent region axis ≤ p.localShapeLogical axis := by
  have := h.lower axis
  have := h.upper axis
  rw [localShapeLogical_apply]
  simp only [regionExtent, Range.len]
  omega

end InsideBlock

/-- Local position of the region's first corner. -/
def regionLead (p : Pencil N M) (region : Fin N → Range) : Fin N → ℕ :=
  fun axis => (region axis).start - (p.localRanges axis).start

/-- The global index at payload position `q`: row-major over the region. -/
def regionIndex (region : Fin N → Range) (q : ℕ) : Fin N → ℕ := fun axis =>
  (region axis).start + MixedRadix.digit (regionExtent region) (axesFastestFirst N) q axis

/-- What a walk of a region inside the block has to be. -/
structure IsWalk (p : Pencil N M) (region : Fin N → Range) (walk : RegionWalk N) : Prop where
  start : walk.start = layoutOffset p (regionLead p region)
  stride : ∀ x, layoutOffset p x = weighted walk.stride (List.finRange N) x
  extent : walk.extent = regionExtent region
  outerLen : walk.outerLen = MixedRadix.size (regionExtent region) (outerAxes N)
  run : ∀ axis : Fin N, ¬ (axis : ℕ) + 1 < N →
    walk.runLen = regionExtent region axis ∧ walk.runStride = walk.stride axis
  maxOffset : walk.maxOffset = layoutOffset p fun axis =>
    regionLead p region axis + (regionExtent region axis - 1)

/-- The loop invariant of the setup after the axes in `done`. -/
structure WalkInvariant (p : Pencil N M) (region : Fin N → Range) (stride : Fin N → ℕ)
    (done : List (Fin N)) (state : WalkState N) : Prop where
  extent : ∀ axis ∈ done, state.extent axis = regionExtent region axis
  start : state.start = weighted stride done (regionLead p region)
  span : state.offsetSpan = weighted stride done fun axis => regionExtent region axis - 1
  outerLen : state.outerLen = MixedRadix.size (regionExtent region)
    (done.filter fun axis => (axis : ℕ) + 1 < N)
  run : ∀ axis ∈ done, ¬ (axis : ℕ) + 1 < N →
    state.runLen = regionExtent region axis ∧ state.runStride = stride axis

theorem size_filter_le {e : Fin N → ℕ} (hpos : ∀ axis, 0 < e axis) {l : List (Fin N)}
    (hl : l <+: List.finRange N) (cond : Fin N → Bool) :
    MixedRadix.size e (l.filter cond) ≤ ∏ axis, e axis := by
  have hsub : ((l.filter cond).map e).Sublist ((List.finRange N).map e) :=
    (l.filter_sublist.trans hl.sublist).map e
  have hle : MixedRadix.size e (l.filter cond) ≤ MixedRadix.size e (List.finRange N) :=
    Nat.le_of_dvd (MixedRadix.size_pos fun axis _ => hpos axis) hsub.prod_dvd_prod
  rwa [← MixedRadix.size_reverse e (List.finRange N), ← axesFastestFirst,
    size_axesFastestFirst] at hle

theorem walkStep_inv {p : Pencil N M} {region : Fin N → Range} (h : InsideBlock p region)
    {stride : Fin N → ℕ} (hstride : ∀ x, layoutOffset p x = weighted stride (List.finRange N) x)
    {done : List (Fin N)} {axis : Fin N} (hdone : done ++ [axis] <+: List.finRange N)
    {state : WalkState N} (hI : WalkInvariant p region stride done state) :
    ∃ state', walkStep (LocalLayout.new p) region stride state axis = some state' ∧
      WalkInvariant p region stride (done ++ [axis]) state' := by
  have hlower := h.lower axis
  have hupper := h.upper axis
  have hnon := h.nonempty axis
  have hlead : weighted stride (done ++ [axis]) (regionLead p region) < p.localLen := by
    refine (weighted_le_of_initial _ _ hdone).trans_lt ?_
    rw [← hstride]
    exact layoutOffset_lt (h.validLocal_add h.extent_pos)
  have hspan : weighted stride (done ++ [axis]) (fun a => regionExtent region a - 1)
      < p.localLen := by
    refine (weighted_le_of_initial _ _ hdone).trans_lt ?_
    rw [← hstride]
    refine layoutOffset_lt fun a => ?_
    have := h.extent_pos a
    have := h.extent_le a
    omega
  have houter : MixedRadix.size (regionExtent region)
      ((done ++ [axis]).filter fun a : Fin N => (a : ℕ) + 1 < N) ≤ p.localLen := by
    refine (size_filter_le h.extent_pos hdone _).trans ?_
    rw [localLen_eq]
    exact Finset.prod_le_prod' fun a _ => h.extent_le a
  have hlen := localLen_lt p
  rw [weighted_append, weighted_cons, weighted_nil, Nat.add_zero] at hlead hspan
  have hlen_eq : (region axis).stop - (region axis).start = regionExtent region axis := rfl
  have hsub : checkedSub (region axis).stop (region axis).start
      = some (regionExtent region axis) := checkedSub_eq_some.mpr ⟨by omega, rfl⟩
  have hne : regionExtent region axis ≠ 0 := by
    have := h.extent_pos axis
    omega
  have hmul1 : checkedMul ((region axis).start - (p.localRanges axis).start) (stride axis)
      = some (regionLead p region axis * stride axis) :=
    checkedMul_eq_some.mpr ⟨by simp only [regionLead] at hlead; omega, rfl⟩
  have hadd1 : checkedAdd state.start (regionLead p region axis * stride axis)
      = some (state.start + regionLead p region axis * stride axis) :=
    checkedAdd_eq_some.mpr ⟨by rw [hI.start]; omega, rfl⟩
  have hmul2 : checkedMul (regionExtent region axis - 1) (stride axis)
      = some ((regionExtent region axis - 1) * stride axis) :=
    checkedMul_eq_some.mpr ⟨by omega, rfl⟩
  have hadd2 : checkedAdd state.offsetSpan ((regionExtent region axis - 1) * stride axis)
      = some (state.offsetSpan + (regionExtent region axis - 1) * stride axis) :=
    checkedAdd_eq_some.mpr ⟨by rw [hI.span]; omega, rfl⟩
  have hbounds : ¬ ((region axis).start < (p.localRanges axis).start ∨
      (p.localRanges axis).stop < (region axis).stop) := by omega
  have hextent : ∀ a ∈ done ++ [axis],
      Function.update state.extent axis (regionExtent region axis) a = regionExtent region a := by
    intro a ha
    by_cases heq : a = axis
    · subst heq
      rw [Function.update_self]
    · rw [Function.update_of_ne heq]
      refine hI.extent a ?_
      simpa [heq] using ha
  by_cases hlast : (axis : ℕ) + 1 < N
  · have hfilter : (done ++ [axis]).filter (fun a : Fin N => (a : ℕ) + 1 < N)
        = done.filter (fun a : Fin N => (a : ℕ) + 1 < N) ++ [axis] := by simp [hlast]
    rw [hfilter, MixedRadix.size_append, MixedRadix.size_cons, MixedRadix.size_nil,
      Nat.mul_one] at houter
    have hmul3 : checkedMul state.outerLen (regionExtent region axis)
        = some (state.outerLen * regionExtent region axis) :=
      checkedMul_eq_some.mpr ⟨by rw [hI.outerLen]; omega, rfl⟩
    have hstep : walkStep (LocalLayout.new p) region stride state axis = some
        { extent := Function.update state.extent axis (regionExtent region axis)
          start := state.start + regionLead p region axis * stride axis
          offsetSpan := state.offsetSpan + (regionExtent region axis - 1) * stride axis
          outerLen := state.outerLen * regionExtent region axis
          runLen := state.runLen
          runStride := state.runStride } := by
      simp [walkStep, LocalLayout.new, hbounds, hsub, hne, hmul1, hadd1, hmul2, hadd2, hmul3,
        hlast]
    refine ⟨_, hstep, ?_⟩
    refine ⟨hextent, ?_, ?_, ?_, ?_⟩
    · simp [weighted_append, hI.start]
    · simp [weighted_append, hI.span]
    · rw [hfilter, MixedRadix.size_append]
      simp [hI.outerLen]
    · intro a ha hnot
      have hmem : a ∈ done := by
        have hne' : a ≠ axis := fun heq => hnot (heq ▸ hlast)
        simpa [hne'] using ha
      exact hI.run a hmem hnot
  · have hfilter : (done ++ [axis]).filter (fun a : Fin N => (a : ℕ) + 1 < N)
        = done.filter (fun a : Fin N => (a : ℕ) + 1 < N) := by simp [hlast]
    have hstep : walkStep (LocalLayout.new p) region stride state axis = some
        { extent := Function.update state.extent axis (regionExtent region axis)
          start := state.start + regionLead p region axis * stride axis
          offsetSpan := state.offsetSpan + (regionExtent region axis - 1) * stride axis
          outerLen := state.outerLen
          runLen := regionExtent region axis
          runStride := stride axis } := by
      simp [walkStep, LocalLayout.new, hbounds, hsub, hne, hmul1, hadd1, hmul2, hadd2, hlast]
    refine ⟨_, hstep, ?_⟩
    refine ⟨hextent, ?_, ?_, ?_, ?_⟩
    · simp [weighted_append, hI.start]
    · simp [weighted_append, hI.span]
    · rw [hfilter]
      exact hI.outerLen
    · intro a ha hnot
      have heq : a = axis := by
        have := a.isLt
        have := axis.isLt
        exact Fin.ext (by omega)
      subst heq
      exact ⟨rfl, rfl⟩

/-- The setup succeeds on every nonempty region inside the block. -/
theorem regionWalk_eq {p : Pencil N M} {region : Fin N → Range} (h : InsideBlock p region) :
    ∃ walk, regionWalk (LocalLayout.new p) region = some walk ∧ IsWalk p region walk := by
  obtain ⟨stride, running, hrun, hstride⟩ := regionStrides_eq p h.localLen_pos
  have hinit : WalkInvariant p region stride []
      { extent := fun _ => 0, start := 0, offsetSpan := 0, outerLen := 1, runLen := 0,
        runStride := 0 } :=
    ⟨by simp, rfl, rfl, rfl, by simp⟩
  obtain ⟨state, hloop, hI⟩ := foldlM_list_inv (m := Option)
    (walkStep (LocalLayout.new p) region stride) (WalkInvariant p region stride)
    (List.finRange N) _ hinit fun done axis hdone state hI => walkStep_inv h hstride hdone hI
  have hmax : state.start + state.offsetSpan = layoutOffset p fun axis =>
      regionLead p region axis + (regionExtent region axis - 1) := by
    rw [layoutOffset_add, hI.start, hI.span, hstride, hstride]
  have hlt : state.start + state.offsetSpan < p.localLen := by
    rw [hmax]
    refine layoutOffset_lt (h.validLocal_add fun axis => ?_)
    have := h.extent_pos axis
    omega
  have hadd : checkedAdd state.start state.offsetSpan
      = some (state.start + state.offsetSpan) :=
    checkedAdd_eq_some.mpr ⟨hlt.trans (localLen_lt p), rfl⟩
  refine ⟨_, by
    unfold regionWalk
    rw [hrun]
    simp only [Option.bind_eq_bind, Option.bind_some]
    rw [hloop]
    simp only [Option.pure_def, Option.bind_some]
    rw [hadd]
    rfl, ?_⟩
  exact {
    start := by rw [hstride]; exact hI.start
    stride := hstride
    extent := funext fun axis => hI.extent axis (List.mem_finRange axis)
    outerLen := hI.outerLen
    run := fun axis hlast => hI.run axis (List.mem_finRange axis) hlast
    maxOffset := hmax }

end PencilRs.Analysis
