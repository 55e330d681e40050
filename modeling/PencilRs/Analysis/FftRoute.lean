import PencilRs.Analysis.Distribution
import PencilRs.Model.FftRoute

/-!
# Routes are well formed

On the way to an axis the decomposition is the canonical one with every place from that axis on
moved up by one, so the axis itself is whole on every rank; with permuted dimensions the axes from
that one on stand at the end of the memory order, in reverse.  One round of the loop keeps this.
-/

set_option autoImplicit false

namespace PencilRs.Analysis

open PencilRs.Computation PencilRs.Model

variable {N M : ℕ}

/-! ## Moving an axis to the end -/

/-- The memory order on the way to an axis. -/
def stageAxes (N axis : ℕ) : List ℕ := List.range axis ++ (List.range' axis (N - axis)).reverse

theorem length_stageAxes {axis : ℕ} (h : axis ≤ N) : (stageAxes N axis).length = N := by
  unfold stageAxes
  simp only [List.length_append, List.length_range, List.length_reverse, List.length_range']
  omega

theorem stageAxes_last {axis : ℕ} (h : axis < N) :
    stageAxes N axis
      = List.range axis ++ (List.range' (axis + 1) (N - (axis + 1))).reverse ++ [axis] := by
  have hsplit : N - axis = N - (axis + 1) + 1 := by omega
  unfold stageAxes
  rw [hsplit, List.range'_succ, List.reverse_cons, List.append_assoc]

theorem stageAxes_next {axis : ℕ} :
    stageAxes N (axis + 1)
      = List.range axis ++ [axis] ++ (List.range' (axis + 1) (N - (axis + 1))).reverse := by
  unfold stageAxes
  rw [List.range_succ]

theorem mem_stageAxes {axis value : ℕ} (h : axis ≤ N) : value ∈ stageAxes N axis ↔ value < N := by
  unfold stageAxes
  simp only [List.mem_append, List.mem_range, List.mem_reverse, List.mem_range'_1]
  omega

theorem nodup_stageAxes (N axis : ℕ) : (stageAxes N axis).Nodup := by
  refine List.Nodup.append List.nodup_range (List.nodup_reverse.mpr List.nodup_range') ?_
  intro value hlow hhigh
  have := List.mem_range.mp hlow
  have := (List.mem_range'_1.mp (List.mem_reverse.mp hhigh)).1
  omega

theorem stageAxes_first (h : 0 < N) : stageAxes N (N - 1) = List.range N := by
  have hN : N = N - 1 + 1 := by omega
  have hone : N - (N - 1) = 1 := by omega
  unfold stageAxes
  rw [hone, hN, List.range_succ]
  rfl

/-- Dropping an axis leaves the order the next one is appended to. -/
theorem stageAxes_succ {axis : ℕ} (h : axis < N) :
    (stageAxes N (axis + 1)).filter (· ≠ axis) ++ [axis] = stageAxes N axis := by
  have hlow : (List.range axis).filter (· ≠ axis) = List.range axis := by
    rw [List.filter_eq_self]
    intro value hvalue
    have := List.mem_range.mp hvalue
    simp only [decide_eq_true_eq]
    omega
  have hhigh : ((List.range' (axis + 1) (N - (axis + 1))).reverse).filter (· ≠ axis)
      = (List.range' (axis + 1) (N - (axis + 1))).reverse := by
    rw [List.filter_eq_self]
    intro value hvalue
    have := (List.mem_range'_1.mp (List.mem_reverse.mp hvalue)).1
    simp only [decide_eq_true_eq]
    omega
  rw [stageAxes_next, stageAxes_last h, List.filter_append, List.filter_append, hlow, hhigh]
  simp

/-- The loop keeps the axes it has seen, but for one. -/
theorem foldl_keepAxis (axes : Fin N → Fin N) (axis : ℕ) (places : List (Fin N))
    (kept : List ℕ) (room : ℕ)
    (hroom : (places.filter fun place => (axes place : ℕ) ≠ axis).length ≤ room) :
    places.foldl (keepAxis axes axis) (kept ++ List.replicate room 0, kept.length)
      = (kept ++ (places.map fun place => (axes place : ℕ)).filter (· ≠ axis)
          ++ List.replicate (room - (places.filter fun place => (axes place : ℕ) ≠ axis).length) 0,
        kept.length + (places.filter fun place => (axes place : ℕ) ≠ axis).length) := by
  induction places generalizing kept room with
  | nil => simp
  | cons place places ih =>
    rw [List.foldl_cons, List.map_cons]
    by_cases hkeep : (axes place : ℕ) = axis
    · have hstep : keepAxis axes axis (kept ++ List.replicate room 0, kept.length) place
          = (kept ++ List.replicate room 0, kept.length) := by
        unfold keepAxis
        simp [hkeep]
      have hfilter : (place :: places).filter (fun place => (axes place : ℕ) ≠ axis)
          = places.filter fun place => (axes place : ℕ) ≠ axis := by
        rw [List.filter_cons_of_neg (by simp [hkeep])]
      rw [hfilter] at hroom ⊢
      rw [hstep, ih kept room hroom, List.filter_cons_of_neg (by simp [hkeep])]
    · have hfilter : (place :: places).filter (fun place => (axes place : ℕ) ≠ axis)
          = place :: places.filter fun place => (axes place : ℕ) ≠ axis := by
        rw [List.filter_cons_of_pos (by simp [hkeep])]
      rw [hfilter, List.length_cons] at hroom ⊢
      obtain ⟨room, rfl⟩ : ∃ smaller, room = smaller + 1 := ⟨room - 1, by omega⟩
      have hstep : keepAxis axes axis (kept ++ List.replicate (room + 1) 0, kept.length) place
          = (kept ++ [(axes place : ℕ)] ++ List.replicate room 0,
            (kept ++ [(axes place : ℕ)]).length) := by
        unfold keepAxis
        simp only [ne_eq, hkeep, not_false_eq_true, if_true, List.replicate_succ,
          List.length_append, List.length_cons, List.length_nil]
        rw [List.set_append_right _ _ (le_refl _), Nat.sub_self, List.set_cons_zero,
          List.append_assoc]
        rfl
      rw [hstep, ih _ room (by omega), List.filter_cons_of_pos (by simp [hkeep])]
      simp only [List.append_assoc, List.length_append, List.length_cons, List.length_nil,
        List.cons_append, List.nil_append, Prod.mk.injEq, Nat.add_sub_add_right, true_and]
      omega

/-- **Moving an axis to the end** of the order on the way to the axis after it. -/
theorem moveAxisLast_eq {axes : Fin N → Fin N} {axis : ℕ} (h : axis + 1 < N + 1)
    (haxes : List.ofFn (fun place => (axes place : ℕ)) = stageAxes N (axis + 1)) :
    moveAxisLast axes axis = stageAxes N axis := by
  have hlt : axis < N := by omega
  have hmap : (List.finRange N).map (fun place => (axes place : ℕ)) = stageAxes N (axis + 1) := by
    rw [← List.ofFn_eq_map]
    exact haxes
  have hkept := stageAxes_succ hlt
  have hcount : ((List.finRange N).filter fun place => (axes place : ℕ) ≠ axis).length
      = ((stageAxes N (axis + 1)).filter (· ≠ axis)).length := by
    rw [← hmap, List.filter_map, List.length_map]
    rfl
  have hlen : ((stageAxes N (axis + 1)).filter (· ≠ axis)).length + 1 = N := by
    have := congrArg List.length hkept
    rw [List.length_append, length_stageAxes (by omega)] at this
    exact this
  have hfold := foldl_keepAxis axes axis (List.finRange N) [] N (by omega)
  rw [List.nil_append, List.length_nil, hmap, hcount] at hfold
  unfold moveAxisLast
  rw [hfold]
  have hone : N - ((stageAxes N (axis + 1)).filter (· ≠ axis)).length = 1 := by omega
  have hset : N - 1 = ((stageAxes N (axis + 1)).filter (· ≠ axis)).length := by omega
  show List.set _ (N - 1) axis = _
  rw [hone, hset, List.nil_append, List.set_append_right _ _ (le_refl _), Nat.sub_self, ← hkept]
  rfl

/-! ## Stages -/

/-- The decomposition on the way to an axis. -/
def stageDecomposition (axis t : ℕ) : ℕ := if t < axis then t else t + 1

/-- The pencil on the way to an axis. -/
structure IsStage (topology : MpiTopology M) (globalShape : Fin N → ℕ) (permuteDims : Bool)
    (axis : ℕ) (p : Pencil N M) : Prop where
  topology : p.topology = topology
  globalShape : p.globalShape = globalShape
  decomposition : ∀ t, (p.decomposition.axes t : ℕ) = stageDecomposition axis t
  permutation : List.ofFn (fun position => (p.permutation.axesInMemoryOrder position : ℕ))
    = if permuteDims then stageAxes N axis else List.range N

variable {topology : MpiTopology M} {globalShape : Fin N → ℕ} {permuteDims : Bool} {axis : ℕ}

theorem advanceDecomposition_eq {decomposition : Fin M → ℕ}
    (h : ∀ t, decomposition t = stageDecomposition (axis + 1) t) :
    advanceDecomposition decomposition axis
      = (fun t : Fin M => stageDecomposition axis t, decide (axis < M)) := by
  have hhit : ∀ t, decomposition t = axis ↔ (t : ℕ) = axis := by
    intro t
    rw [h t]
    unfold stageDecomposition
    split <;> omega
  have hkept : ∀ t : Fin M, (t : ℕ) ≠ axis → decomposition t = stageDecomposition axis t := by
    intro t hne
    rw [h t]
    unfold stageDecomposition
    split <;> split <;> omega
  unfold advanceDecomposition
  cases hfind : (List.finRange M).find? fun position => decomposition position = axis with
  | none =>
    have hmiss : ∀ t, decomposition t ≠ axis := fun t => by
      simpa using List.find?_eq_none.mp hfind t (List.mem_finRange t)
    have hle : ¬ axis < M := fun hlt => hmiss ⟨axis, hlt⟩ ((hhit _).mpr rfl)
    refine Prod.ext (funext fun t => hkept t fun heq => ?_) (decide_eq_false hle).symm
    have := t.isLt
    omega
  | some position =>
    have hposition : decomposition position = axis := by simpa using List.find?_some hfind
    have haxis : (position : ℕ) = axis := (hhit position).mp hposition
    have hlt : axis < M := by
      have := position.isLt
      omega
    refine Prod.ext (funext fun t => ?_) (decide_eq_true hlt).symm
    show Function.update decomposition position (axis + 1) t = stageDecomposition axis t
    by_cases heq : t = position
    · rw [heq, Function.update_self]
      unfold stageDecomposition
      rw [if_neg (by omega), haxis]
    · rw [Function.update_of_ne heq]
      exact hkept t fun hval => heq (Fin.ext (by omega))

theorem axisPermutation_new_eq {axes : List ℕ} (hlen : axes.length = N) (hnodup : axes.Nodup)
    (hlt : ∀ value ∈ axes, value < N) :
    ∃ permutation : AxisPermutation N,
      AxisPermutation.new (fun position => axes.getD position 0) = .ok permutation ∧
        List.ofFn (fun position => (permutation.axesInMemoryOrder position : ℕ)) = axes := by
  have hlist : List.ofFn (fun position : Fin N => axes.getD position 0) = axes := by
    apply List.ext_getElem
    · rw [List.length_ofFn, hlen]
    · intro i h₁ h₂
      simp [List.getD_eq_getElem?_getD, h₂]
  obtain ⟨seen, hseen⟩ := checkDistinct_of_nodup hlt hnodup
  rw [← hlist] at hseen
  unfold AxisPermutation.new
  split
  case h_1 error herror =>
    have := herror.symm.trans hseen
    contradiction
  case h_2 => exact ⟨_, rfl, hlist⟩

theorem exists_decomposition (axes : Fin M → ℕ) (hM : 0 < M)
    (hlt : ∀ t, axes t < N) (hinj : Function.Injective axes) :
    ∃ decomposition : Decomposition N M, (fun t => (decomposition.axes t : ℕ)) = axes :=
  ⟨⟨fun t => ⟨axes t, hlt t⟩, fun _ _ h => hinj (congrArg Fin.val h), hM⟩, rfl⟩

theorem stageDecomposition_injective (axis : ℕ) : Function.Injective (stageDecomposition axis) := by
  intro a b h
  unfold stageDecomposition at h
  split at h <;> split at h <;> omega

/-- **One round** goes from the stage of an axis to the stage of the axis before it. -/
theorem routeStep_eq (route : RouteCandidate N M) {current : Pencil N M} (hMN : M < N)
    (haxis : axis + 1 < N) (h : IsStage topology globalShape permuteDims (axis + 1) current) :
    ∃ next, routeStep globalShape permuteDims (route, current) axis
        = .ok ({ stages := route.stages ++ [next],
                 distributed := route.distributed ++ [decide (axis < M)] }, next) ∧
      IsStage topology globalShape permuteDims axis next := by
  have hlt : ∀ t : Fin M, stageDecomposition axis t < N := by
    intro t
    have := t.isLt
    unfold stageDecomposition
    split <;> omega
  obtain ⟨decomposition, hdecomposition⟩ := exists_decomposition
    (fun t : Fin M => stageDecomposition axis t) current.decomposition.positive hlt
    fun a b hab => Fin.ext (stageDecomposition_injective axis hab)
  have hadvance := advanceDecomposition_eq h.decomposition
  have hperm : ∃ permutation : AxisPermutation N,
      (if permuteDims then
        (AxisPermutation.new fun position =>
          (moveAxisLast current.permutation.axesInMemoryOrder axis).getD position 0).mapError
            fun error => FftError.pencil (.invalidPermutation error)
      else .ok AxisPermutation.identity) = .ok permutation ∧
      List.ofFn (fun position => (permutation.axesInMemoryOrder position : ℕ))
        = if permuteDims then stageAxes N axis else List.range N := by
    cases permuteDims with
    | false =>
      refine ⟨AxisPermutation.identity, rfl, ?_⟩
      show List.ofFn (fun position : Fin N => (position : ℕ)) = List.range N
      rw [List.ofFn_eq_map, List.map_coe_finRange_eq_range]
    | true =>
      have hmove : moveAxisLast current.permutation.axesInMemoryOrder axis = stageAxes N axis :=
        moveAxisLast_eq (by omega) h.permutation
      obtain ⟨permutation, hnew, hlist⟩ := axisPermutation_new_eq
        (length_stageAxes (by omega : axis ≤ N)) (nodup_stageAxes N axis)
        fun value hvalue => (mem_stageAxes (by omega)).mp hvalue
      refine ⟨permutation, ?_, hlist⟩
      rw [hmove, if_pos rfl, hnew]
      rfl
  obtain ⟨permutation, hpermutation, hlist⟩ := hperm
  have hpos : ∀ axis, 0 < globalShape axis := by
    rw [← h.globalShape]
    exact current.extents_pos
  have hfit : ∏ axis, globalShape axis < usizeLimit := by
    rw [← h.globalShape]
    exact globalShape_fits current
  refine ⟨buildPencil current.topology globalShape decomposition permutation hpos hfit, ?_,
    ⟨h.topology, rfl, fun t => congrFun hdecomposition t, hlist⟩⟩
  have hnew := newPermuted_eq current.topology globalShape decomposition permutation hpos hfit
  rw [hdecomposition] at hnew
  unfold routeStep Pencil.reconfigured
  simp only [hadvance]
  refine bind_eq_ok.mpr ⟨permutation, hpermutation, bind_eq_ok.mpr ⟨_, mapError_eq_ok.mpr hnew, rfl⟩⟩

/-- **The loop** passes through the stages of all axes below the one it starts from. -/
theorem foldlM_routeStep {count : ℕ} (route : RouteCandidate N M) {current : Pencil N M}
    (hMN : M < N) (hcount : count < N)
    (h : IsStage topology globalShape permuteDims count current) :
    ∃ stages last, (List.range count).reverse.foldlM (routeStep globalShape permuteDims)
        (route, current)
        = .ok ({ stages := route.stages ++ stages,
                 distributed := route.distributed
                   ++ (List.range count).reverse.map fun axis => decide (axis < M) }, last) ∧
      List.Forall₂ (IsStage topology globalShape permuteDims) (List.range count).reverse stages ∧
      IsStage topology globalShape permuteDims 0 last := by
  induction count generalizing route current with
  | zero => exact ⟨[], current, by simp [pure, Except.pure], List.Forall₂.nil, h⟩
  | succ count ih =>
    obtain ⟨next, hstep, hnext⟩ := routeStep_eq route hMN hcount h
    obtain ⟨stages, last, hloop, hstages, hlast⟩ := ih
      { stages := route.stages ++ [next]
        distributed := route.distributed ++ [decide (count < M)] }
      (by omega) hnext
    refine ⟨next :: stages, last, ?_, ?_, hlast⟩
    · rw [List.range_succ, List.reverse_append, List.reverse_singleton, List.singleton_append,
        List.foldlM_cons]
      refine bind_eq_ok.mpr ⟨_, hstep, hloop.trans ?_⟩
      simp
    · rw [List.range_succ, List.reverse_append, List.reverse_singleton, List.singleton_append]
      exact List.Forall₂.cons hnext hstages

/-! ## Routes -/

/-- What a transform along an axis finds in the pencil it visits. -/
structure VisitsAxis (permuteDims : Bool) (axis : Fin N) (p : Pencil N M) : Prop where
  undecomposed : ∀ t, p.decomposition.axes t ≠ axis
  whole : p.localShapeLogical axis = p.globalShape axis
  fastest : permuteDims = true → ∀ position : Fin N, (position : ℕ) = N - 1 →
    p.permutation.axesInMemoryOrder position = axis
  distinct : Function.Injective p.decomposition.axes

/-- What lies between two neighbours: a change that the planner takes both ways, or none but of
the memory order. -/
structure JoinsStages (p q : Pencil N M) (isDistributed : Bool) : Prop where
  distributed_iff : isDistributed = true ↔ p.decomposition.axes ≠ q.decomposition.axes
  one_change : ∀ s t, p.decomposition.axes s ≠ q.decomposition.axes s →
    p.decomposition.axes t ≠ q.decomposition.axes t → s = t
  planned : isDistributed = true → ∀ (alloc : Allocator) (mode : CommunicationMode),
    alloc .peers = true →
      (∃ plan, TransposePlanCore.new alloc p q mode = .ok plan) ∧
        ∃ plan, TransposePlanCore.new alloc q p mode = .ok plan
  permuted : isDistributed = false →
    (∃ plan, LocalTransposePlan.new p q = .ok plan) ∧ ∃ plan, LocalTransposePlan.new q p = .ok plan

structure IsRoute (permuteDims : Bool) (route : RouteCandidate N M) : Prop where
  stages_length : route.stages.length = N
  distributed_length : route.distributed.length = N - 1
  visits : ∀ (axis : Fin N) (p : Pencil N M), route.stages[N - 1 - (axis : ℕ)]? = some p →
    VisitsAxis permuteDims axis p
  joins : ∀ (i : ℕ) (p q : Pencil N M) (isDistributed : Bool), route.stages[i]? = some p →
    route.stages[i + 1]? = some q → route.distributed[i]? = some isDistributed →
      JoinsStages p q isDistributed
  output : ∀ p, route.stages[N - 1]? = some p →
    (∀ t, (p.decomposition.axes t : ℕ) = t + 1) ∧
      ∀ position, (p.permutation.axesInMemoryOrder position : ℕ)
        = if permuteDims then N - 1 - position else position

theorem IsStage.visitsAxis {axis : Fin N} {p : Pencil N M}
    (h : IsStage topology globalShape permuteDims axis p) : VisitsAxis permuteDims axis p := by
  have hne : ∀ t, p.decomposition.axes t ≠ axis := by
    intro t heq
    have hval := h.decomposition t
    rw [heq] at hval
    unfold stageDecomposition at hval
    split at hval <;> omega
  constructor
  case undecomposed => exact hne
  case whole =>
    rw [localShapeLogical_apply, localRanges_eq, ownedRanges_whole _ _ _ hne]
    rfl
  case fastest =>
    intro hpermute position hposition
    have hlist := h.permutation
    rw [if_pos hpermute, stageAxes_last axis.isLt] at hlist
    have hlen : (List.range (axis : ℕ)
        ++ (List.range' ((axis : ℕ) + 1) (N - ((axis : ℕ) + 1))).reverse).length = position := by
      simp only [List.length_append, List.length_range, List.length_reverse, List.length_range']
      have := axis.isLt
      omega
    have hget : (List.ofFn fun position =>
        (p.permutation.axesInMemoryOrder position : ℕ))[(position : ℕ)]? = some (axis : ℕ) := by
      rw [hlist, ← hlen]
      exact List.getElem?_concat_length
    rw [List.getElem?_ofFn, dif_pos position.isLt] at hget
    exact Fin.ext (Option.some.inj hget)
  case distinct => exact p.decomposition.injective

/-- The axis determines the layout, whatever the rank and the extents. -/
theorem IsStage.layout_eq {topology' : MpiTopology M} {globalShape' : Fin N → ℕ} {p q : Pencil N M}
    (hp : IsStage topology globalShape permuteDims axis p)
    (hq : IsStage topology' globalShape' permuteDims axis q) :
    p.decomposition = q.decomposition ∧ p.permutation = q.permutation := by
  constructor
  · have haxes : p.decomposition.axes = q.decomposition.axes := by
      funext t
      exact Fin.ext ((hp.decomposition t).trans (hq.decomposition t).symm)
    cases hdp : p.decomposition
    cases hdq : q.decomposition
    rw [hdp, hdq] at haxes
    simp only at haxes
    subst haxes
    rfl
  · apply AxisPermutation.ext_axes
    funext position
    have hlists := List.ofFn_injective (hp.permutation.trans hq.permutation.symm)
    exact Fin.ext (congrFun hlists position)

theorem exists_plan {p q : Pencil N M} {axis : Fin M} (h : LayoutChange p q axis)
    {alloc : Allocator} (halloc : alloc .peers = true) (mode : CommunicationMode) :
    ∃ plan, TransposePlanCore.new alloc p q mode = .ok plan := by
  have hlayout := h.validatePlanLayout_eq
  have hpeers := h.buildPeerMetadata_eq halloc
  unfold TransposePlanCore.new
  split
  case h_1 error herror =>
    have := herror.symm.trans hlayout
    contradiction
  case h_2 changed hchanged =>
    obtain rfl : changed = axis := Except.ok.inj (hchanged.symm.trans hlayout)
    split
    case h_1 error herror =>
      have := herror.symm.trans hpeers
      contradiction
    case h_2 => exact ⟨_, rfl⟩

/-- **Neighbours** differ in the one place that makes way for the next axis, if in any. -/
theorem IsStage.joinsStages {p q : Pencil N M}
    (hp : IsStage topology globalShape permuteDims (axis + 1) p)
    (hq : IsStage topology globalShape permuteDims axis q) :
    JoinsStages p q (decide (axis < M)) := by
  have hdiffers : ∀ t, p.decomposition.axes t ≠ q.decomposition.axes t ↔ (t : ℕ) = axis := by
    intro t
    rw [ne_eq, Fin.ext_iff, hp.decomposition, hq.decomposition]
    unfold stageDecomposition
    split <;> split <;> omega
  have htopology : p.topology = q.topology := hp.topology.trans hq.topology.symm
  have hshape : p.globalShape = q.globalShape := hp.globalShape.trans hq.globalShape.symm
  constructor
  case distributed_iff =>
    rw [decide_eq_true_eq]
    constructor
    · intro hlt heq
      exact (hdiffers ⟨axis, hlt⟩).mpr rfl (congrFun heq _)
    · intro hne
      obtain ⟨t, ht⟩ := Function.ne_iff.mp hne
      have := (hdiffers t).mp ht
      have := t.isLt
      omega
  case one_change =>
    intro s t hs ht
    exact Fin.ext (((hdiffers s).mp hs).trans ((hdiffers t).mp ht).symm)
  case planned =>
    intro hlt alloc mode halloc
    have hlt := of_decide_eq_true hlt
    have hforward : LayoutChange p q ⟨axis, hlt⟩ := {
      topology := htopology
      globalShape := hshape
      changed := (hdiffers _).mpr rfl
      kept := fun t hne => by
        by_contra hdiff
        exact hne (Fin.ext ((hdiffers t).mp hdiff)) }
    have hbackward : LayoutChange q p ⟨axis, hlt⟩ := {
      topology := htopology.symm
      globalShape := hshape.symm
      changed := hforward.changed.symm
      kept := fun t hne => (hforward.kept t hne).symm }
    exact ⟨exists_plan hforward halloc mode, exists_plan hbackward halloc mode⟩
  case permuted =>
    intro hle
    have hle := of_decide_eq_false hle
    have haxes : p.decomposition.axes = q.decomposition.axes := by
      funext t
      by_contra hdiff
      have := (hdiffers t).mp hdiff
      have := t.isLt
      omega
    have hsame : p.sameDistribution q = true := by
      simp [Pencil.sameDistribution, Pencil.sameTopology, htopology, hshape, haxes]
    have hback : q.sameDistribution p = true := by
      simp [Pencil.sameDistribution, Pencil.sameTopology, htopology, hshape, haxes]
    exact ⟨⟨⟨p, q⟩, bind_eq_ok.mpr ⟨(), ensure_eq_ok.mpr hsame, rfl⟩⟩,
      ⟨⟨q, p⟩, bind_eq_ok.mpr ⟨(), ensure_eq_ok.mpr hback, rfl⟩⟩⟩

/-- An input pencil as the constructors ask for: identity memory order and the first axes cut in
their order. -/
structure IsCanonical (input : Pencil N M) : Prop where
  permutation : ∀ axis, input.permutation.axesInMemoryOrder axis = axis
  decomposition : ∀ t, (input.decomposition.axes t : ℕ) = t

theorem IsCanonical.isStage {input : Pencil N M} (h : IsCanonical input) (hMN : M < N) :
    IsStage input.topology input.globalShape permuteDims (N - 1) input where
  topology := rfl
  globalShape := rfl
  decomposition := by
    intro t
    rw [h.decomposition t]
    unfold stageDecomposition
    rw [if_pos (by omega)]
  permutation := by
    rw [stageAxes_first (by omega), ite_self]
    simp only [h.permutation]
    rw [List.ofFn_eq_map, List.map_coe_finRange_eq_range]

theorem IsCanonical.validateInput_eq {input : Pencil N M} (h : IsCanonical input) (hMN : M < N) :
    validateInput (.ok input) input.topology input.globalShape = .ok input := by
  have hM := input.decomposition.positive
  have hzero : ((List.finRange N).find? fun axis => input.globalShape axis = 0) = none := by
    rw [List.find?_eq_none]
    intro axis _
    have := input.extents_pos axis
    simp only [decide_eq_true_eq]
    omega
  unfold validateInput
  rw [hzero]
  refine bind_eq_ok.mpr ⟨(), ?_, bind_eq_ok.mpr ⟨(), rfl, bind_eq_ok.mpr ⟨input, rfl,
    bind_eq_ok.mpr ⟨(), ?_, bind_eq_ok.mpr ⟨(), ?_, bind_eq_ok.mpr ⟨(), ?_,
    bind_eq_ok.mpr ⟨(), ?_, rfl⟩⟩⟩⟩⟩⟩⟩
  · simp only [ensure_eq_ok, Bool.and_eq_true, decide_eq_true_eq]
    omega
  · rw [ensure_eq_ok, decide_eq_true_eq]
  · rw [ensure_eq_ok, decide_eq_true_eq]
  · rw [ensure_eq_ok, List.all_eq_true]
    exact fun axis _ => decide_eq_true (h.permutation axis)
  · rw [ensure_eq_ok, List.all_eq_true]
    exact fun t _ => decide_eq_true (h.decomposition t)

/-- The last stage is decomposed over the axes from the second on, in reverse memory order. -/
theorem IsStage.output {p : Pencil N M} (h : IsStage topology globalShape permuteDims 0 p) :
    (∀ t, (p.decomposition.axes t : ℕ) = t + 1) ∧
      ∀ position, (p.permutation.axesInMemoryOrder position : ℕ)
        = if permuteDims then N - 1 - position else position := by
  refine ⟨fun t => h.decomposition t, fun position => ?_⟩
  have hget : some (p.permutation.axesInMemoryOrder position : ℕ)
      = (if permuteDims then stageAxes N 0 else List.range N)[(position : ℕ)]? := by
    rw [← h.permutation, List.getElem?_ofFn, dif_pos position.isLt]
  cases permuteDims with
  | false =>
    rw [if_neg (by decide), List.getElem?_range position.isLt] at hget
    exact Option.some.inj hget
  | true =>
    have horder : stageAxes N 0 = (List.range N).reverse := by
      unfold stageAxes
      rw [List.range_zero, List.nil_append, Nat.sub_zero, List.range_eq_range']
    rw [if_pos rfl, horder, List.getElem?_reverse (by simp), List.length_range,
      List.getElem?_range (by omega)] at hget
    exact Option.some.inj hget

theorem stage_of_getElem? {stages : List (Pencil N M)} {p : Pencil N M} {i : ℕ}
    (h : List.Forall₂ (IsStage topology globalShape permuteDims) (List.range N).reverse stages)
    (hp : stages[i]? = some p) : i < N ∧ IsStage topology globalShape permuteDims (N - 1 - i) p := by
  obtain ⟨hi, rfl⟩ := List.getElem?_eq_some_iff.mp hp
  have hlen : stages.length = N := by simpa using h.length_eq.symm
  have hget := h.get (by simpa [hlen] using hi) hi
  simp only [List.get_eq_getElem, List.getElem_reverse, List.getElem_range, List.length_range]
    at hget
  exact ⟨hlen ▸ hi, hget⟩

theorem isRoute_of_stages {route : RouteCandidate N M}
    (hstages : List.Forall₂ (IsStage topology globalShape permuteDims) (List.range N).reverse
      route.stages)
    (hdistributed : route.distributed
      = (List.range (N - 1)).reverse.map fun axis => decide (axis < M)) :
    IsRoute permuteDims route where
  stages_length := by simpa using hstages.length_eq.symm
  distributed_length := by simp [hdistributed]
  visits := by
    intro axis p hp
    obtain ⟨_, hstage⟩ := stage_of_getElem? hstages hp
    have haxis : N - 1 - (N - 1 - (axis : ℕ)) = axis := by omega
    rw [haxis] at hstage
    exact hstage.visitsAxis
  joins := by
    intro i p q isDistributed hp hq hflag
    obtain ⟨_, hfirst⟩ := stage_of_getElem? hstages hp
    obtain ⟨hi, hsecond⟩ := stage_of_getElem? hstages hq
    have hnext : N - 1 - i = N - 1 - (i + 1) + 1 := by omega
    rw [hnext] at hfirst
    have hget : (List.range (N - 1)).reverse[i]? = some (N - 1 - (i + 1)) := by
      rw [List.getElem?_reverse (by rw [List.length_range]; omega), List.length_range,
        List.getElem?_range (by omega)]
      congr 1
      omega
    rw [hdistributed, List.getElem?_map, hget] at hflag
    obtain rfl := Option.some.inj hflag
    exact hfirst.joinsStages hsecond
  output := by
    intro p hp
    obtain ⟨_, hstage⟩ := stage_of_getElem? hstages hp
    rw [Nat.sub_self] at hstage
    exact hstage.output

/-- **Routes are well formed.**  A canonical input has a route, unless an allocation is refused,
and every route is well formed. -/
theorem route_well_formed {input : Pencil N M} (hMN : M < N) (hcanonical : IsCanonical input)
    (permuteDims : Bool) (alloc : RouteAllocator) :
    (∀ error, buildRoute alloc (.ok input) input.topology input.globalShape permuteDims
        = .error error → ∃ required, error = .allocationFailed required) ∧
      (alloc.stages = true → alloc.distributed = true → ∃ route,
        buildRoute alloc (.ok input) input.topology input.globalShape permuteDims = .ok route) ∧
      ∀ route, buildRoute alloc (.ok input) input.topology input.globalShape permuteDims
        = .ok route → IsRoute permuteDims route := by
  have hvalid := hcanonical.validateInput_eq hMN
  have hfirst : IsStage input.topology input.globalShape permuteDims (N - 1) input :=
    hcanonical.isStage hMN
  have hshort : N - 1 < N := by omega
  obtain ⟨stages, last, hloop, hstages, hlast⟩ :=
    foldlM_routeStep { stages := [input], distributed := [] } hMN hshort hfirst
  obtain ⟨hdecomposition, hpositions⟩ := hlast.output
  have hall : List.Forall₂ (IsStage input.topology input.globalShape permuteDims)
      (List.range N).reverse ([input] ++ stages) := by
    have hrange : List.range N = List.range (N - 1) ++ [N - 1] := by
      rw [← List.range_succ]
      congr 1
      omega
    rw [hrange, List.reverse_append, List.reverse_singleton]
    exact List.Forall₂.cons hfirst hstages
  have hroute : IsRoute permuteDims { stages := [input] ++ stages, distributed := [] ++
      (List.range (N - 1)).reverse.map fun axis => decide (axis < M) } :=
    isRoute_of_stages hall (List.nil_append _)
  have hbuild : buildRoute alloc (.ok input) input.topology input.globalShape permuteDims
      = (do
        ensure alloc.stages (.allocationFailed N)
        ensure alloc.distributed (.allocationFailed (N - 1))
        return { stages := [input] ++ stages, distributed := [] ++
          (List.range (N - 1)).reverse.map fun axis => decide (axis < M) }) := by
    have hout : ((List.finRange M).all fun axis =>
        (last.decomposition.axes axis : ℕ) = axis + 1) = true :=
      List.all_eq_true.mpr fun t _ => decide_eq_true (hdecomposition t)
    have hperm : ((List.finRange N).all fun position =>
        (last.permutation.axesInMemoryOrder position : ℕ)
          = if permuteDims then N - 1 - position else position) = true :=
      List.all_eq_true.mpr fun position _ => decide_eq_true (hpositions position)
    unfold buildRoute
    rw [hvalid]
    simp only [bind, Except.bind]
    rw [hloop]
    simp only [hout, hperm, ensure_true]
  rw [hbuild]
  cases alloc.stages with
  | false =>
    refine ⟨fun error herror => ⟨N, ?_⟩, fun h => absurd h (by decide), fun route h => ?_⟩
    · exact (Except.error.inj herror).symm
    · contradiction
  | true =>
    cases alloc.distributed with
    | false =>
      refine ⟨fun error herror => ⟨N - 1, ?_⟩, fun _ h => absurd h (by decide), fun route h => ?_⟩
      · exact (Except.error.inj herror).symm
      · contradiction
    | true =>
      refine ⟨fun error herror => ?_, fun _ _ => ⟨_, rfl⟩, fun route h => ?_⟩
      · contradiction
      · obtain rfl := Except.ok.inj h
        exact hroute

/-- Rows of two ranks are a canonical input. -/
theorem route_well_formed_rows :
    ∃ route, buildRoute ⟨true, true⟩
        (.ok ((threeByTwo 0 AxisPermutation.identity).on twoRanks.here)) twoRanks ![3, 2] true
        = .ok route ∧
      IsRoute true route := by
  have hcanonical : IsCanonical ((threeByTwo 0 AxisPermutation.identity).on twoRanks.here) := {
    permutation := fun _ => rfl
    decomposition := fun t => by
      rw [Subsingleton.elim t 0]
      rfl }
  obtain ⟨_, hexists, hall⟩ := route_well_formed (by decide) hcanonical true ⟨true, true⟩
  obtain ⟨route, hroute⟩ := hexists rfl rfl
  exact ⟨route, hroute, hall route hroute⟩

end PencilRs.Analysis
