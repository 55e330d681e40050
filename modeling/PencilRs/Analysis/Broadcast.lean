import PencilRs.Analysis.Ownership
import PencilRs.Analysis.Strides
import PencilRs.Model.Broadcast

/-!
# Broadcast shapes and indices

At output index `e` an input is read at `e` with zeros on its axes of extent one.  The loops
over the axes compute the row-major number of these clipped indices.
-/

set_option autoImplicit false

namespace PencilRs.Analysis

open PencilRs.Computation PencilRs.Model

variable {N M : ℕ} {α : Type}

/-! ## The shape rule -/

/-- A shape that can be read at the indices of another: of each extent or of extent one. -/
def Broadcasts (dims shape : List ℕ) : Prop :=
  List.Forall₂ (fun extent out => extent = out ∨ extent = 1) dims shape

instance (dims shape : List ℕ) : Decidable (Broadcasts dims shape) :=
  inferInstanceAs (Decidable (List.Forall₂ _ dims shape))

/-- The shape rule: every input broadcasts to `shape`, and every extent of `shape` is that of
some input. -/
structure IsBroadcast (inputs : List (List ℕ)) (shape : List ℕ) : Prop where
  broadcasts : ∀ dims ∈ inputs, Broadcasts dims shape
  attained : ∀ axis < shape.length, ∃ dims ∈ inputs, dims.getD axis 0 = shape.getD axis 0

/-- Where an input is read for output index `e`. -/
def clip (dims e : List ℕ) : List ℕ :=
  List.zipWith (fun extent index => if extent = 1 then 0 else index) dims e

theorem Broadcasts.length_eq {dims shape : List ℕ} (h : Broadcasts dims shape) :
    dims.length = shape.length := List.Forall₂.length_eq h

theorem Broadcasts.refl (shape : List ℕ) : Broadcasts shape shape :=
  List.forall₂_same.mpr fun _ _ => Or.inl rfl

theorem Broadcasts.trans {dims mid shape : List ℕ} (h : Broadcasts dims mid)
    (h' : Broadcasts mid shape) : Broadcasts dims shape := by
  induction h generalizing shape with
  | nil => exact h'
  | cons hhead _ ih =>
    cases h' with
    | cons hhead' htail' =>
      refine .cons ?_ (ih htail')
      rcases hhead with rfl | rfl
      · exact hhead'
      · exact Or.inr rfl

theorem Broadcasts.extent {dims shape : List ℕ} (h : Broadcasts dims shape) {axis : ℕ}
    (haxis : axis < dims.length) :
    dims.getD axis 0 = shape.getD axis 0 ∨ dims.getD axis 0 = 1 := by
  induction h generalizing axis with
  | nil => contradiction
  | cons hhead _ ih =>
    cases axis with
    | zero => simpa using hhead
    | succ axis => simpa using ih (by simpa using haxis)

/-- Inputs of a shape without zero extents have none. -/
theorem Broadcasts.pos {dims shape : List ℕ} (h : Broadcasts dims shape)
    (hpos : ∀ extent ∈ shape, 0 < extent) : ∀ extent ∈ dims, 0 < extent := by
  induction h with
  | nil => simp
  | @cons extent out _ _ hhead _ ih =>
    obtain ⟨hout, hrest⟩ := List.forall_mem_cons.mp hpos
    refine List.forall_mem_cons.mpr ⟨?_, ih hrest⟩
    rcases hhead with rfl | rfl
    · exact hout
    · exact Nat.one_pos

theorem length_clip {dims e : List ℕ} (h : e.length = dims.length) :
    (clip dims e).length = dims.length := by
  simp [clip, h]

theorem clip_getD {dims e : List ℕ} {axis : ℕ} (hdims : axis < dims.length)
    (he : axis < e.length) :
    (clip dims e).getD axis 0 = if dims.getD axis 0 = 1 then 0 else e.getD axis 0 := by
  simp [clip, List.getD_eq_getElem?_getD, hdims, he]

/-- The clipped indices are indices of the input. -/
theorem validIndices_clip {dims shape e : List ℕ} (h : Broadcasts dims shape)
    (he : ValidIndices shape e) : ValidIndices dims (clip dims e) := by
  induction h generalizing e with
  | nil => exact ⟨rfl, by simp [clip]⟩
  | @cons extent out dims shape hhead _ ih =>
    cases e with
    | nil => exact absurd he.1 (by simp)
    | cons index e =>
      obtain ⟨hindex, hrest⟩ := validIndices_cons.mp he
      refine validIndices_cons.mpr ⟨?_, ih hrest⟩
      show (if extent = 1 then 0 else index) < extent
      split
      · omega
      · rcases hhead with rfl | rfl
        · exact hindex
        · contradiction

theorem broadcastExtent_eq_some {a b out : ℕ} (h : broadcastExtent a b = some out) :
    (a = out ∨ a = 1) ∧ (b = out ∨ b = 1) ∧ (a = out ∨ b = out) := by
  unfold broadcastExtent at h
  split at h
  · cases h
    omega
  · split at h
    · cases h
      omega
    · split at h
      · cases h
        omega
      · contradiction

theorem mapM_broadcastExtent {left right shape : List ℕ} (hlen : left.length = right.length)
    (h : (left.zip right).mapM (fun (a, b) => broadcastExtent a b) = some shape) :
    Broadcasts left shape ∧ Broadcasts right shape ∧
      ∀ axis < shape.length, left.getD axis 0 = shape.getD axis 0 ∨
        right.getD axis 0 = shape.getD axis 0 := by
  induction left generalizing right shape with
  | nil =>
    obtain rfl := List.length_eq_zero_iff.mp hlen.symm
    cases h
    exact ⟨.nil, .nil, by simp⟩
  | cons a left ih =>
    cases right with
    | nil => contradiction
    | cons b right =>
      rw [List.zip_cons_cons, List.mapM_cons] at h
      obtain ⟨out, hout, hrest⟩ := Option.bind_eq_some_iff.mp h
      obtain ⟨rest, htail, heq⟩ := Option.bind_eq_some_iff.mp hrest
      obtain ⟨hleft, hright, hattained⟩ := ih (by simpa using hlen) htail
      cases heq
      obtain ⟨ha, hb, hone⟩ := broadcastExtent_eq_some hout
      refine ⟨.cons ha hleft, .cons hb hright, ?_⟩
      intro axis haxis
      cases axis with
      | zero => simpa using hone
      | succ axis => simpa using hattained axis (by simpa using haxis)

/-- **The shape rule** is what `broadcast_shape` computes. -/
theorem broadcastShape_isBroadcast {granted : Bool} {left right : ExtraShape} {shape : List ℕ}
    (h : broadcastShape granted left right = .ok (some shape)) :
    IsBroadcast [left.dimensions, right.dimensions] shape := by
  unfold broadcastShape at h
  split at h
  · exact absurd (Except.ok.inj h) (by simp)
  · rename_i hlen
    split at h
    · contradiction
    · obtain ⟨hleft, hright, hattained⟩ :=
        mapM_broadcastExtent (not_not.mp hlen) (Except.ok.inj h)
      refine ⟨?_, ?_⟩
      · simp only [List.mem_cons, List.not_mem_nil, or_false]
        rintro dims (rfl | rfl)
        · exact hleft
        · exact hright
      · intro axis haxis
        rcases hattained axis haxis with h | h
        · exact ⟨_, by simp, h⟩
        · exact ⟨_, by simp, h⟩

theorem mapM_broadcastExtent_eq {left right shape : List ℕ} (hl : Broadcasts left shape)
    (hr : Broadcasts right shape)
    (h : ∀ axis < shape.length, left.getD axis 0 = shape.getD axis 0 ∨
      right.getD axis 0 = shape.getD axis 0) :
    (left.zip right).mapM (fun (a, b) => broadcastExtent a b) = some shape := by
  induction hl generalizing right with
  | nil =>
    cases hr
    rfl
  | @cons a out left shape ha _ ih =>
    cases hr with
    | @cons b _ right _ hb hr =>
      have hhead := h 0 (by simp)
      have htail := ih hr fun axis haxis => by
        simpa using h (axis + 1) (by simpa using haxis)
      have hout : broadcastExtent a b = some out := by
        simp only [List.getD_cons_zero] at hhead
        unfold broadcastExtent
        split_ifs with h1 h2 h3
        · rw [Option.some.injEq]
          omega
        · rw [Option.some.injEq]
          omega
        · rw [Option.some.injEq]
          omega
        · omega
      rw [List.zip_cons_cons, List.mapM_cons, htail]
      simp only [hout]
      rfl

theorem broadcastShape_eq {left right : ExtraShape} {shape : List ℕ}
    (h : IsBroadcast [left.dimensions, right.dimensions] shape) :
    broadcastShape true left right = .ok (some shape) := by
  have hl := h.broadcasts left.dimensions (by simp)
  have hr := h.broadcasts right.dimensions (by simp)
  unfold broadcastShape
  rw [if_neg (by rw [hl.length_eq, hr.length_eq]; simp), if_neg (by simp),
    mapM_broadcastExtent_eq hl hr]
  intro axis haxis
  obtain ⟨d, hd, heq⟩ := h.attained axis haxis
  simp only [List.mem_cons, List.not_mem_nil, or_false] at hd
  rcases hd with rfl | rfl
  · exact Or.inl heq
  · exact Or.inr heq

/-- One more input. -/
theorem IsBroadcast.snoc {inputs : List (List ℕ)} {mid dims shape : List ℕ}
    (h : IsBroadcast inputs mid) (h' : IsBroadcast [mid, dims] shape) :
    IsBroadcast (inputs ++ [dims]) shape := by
  have hmid : Broadcasts mid shape := h'.broadcasts mid (by simp)
  constructor
  · intro d hd
    rcases List.mem_append.mp hd with hd | hd
    · exact (h.broadcasts d hd).trans hmid
    · rw [List.mem_singleton.mp hd]
      exact h'.broadcasts dims (by simp)
  · intro axis haxis
    obtain ⟨d, hd, heq⟩ := h'.attained axis haxis
    simp only [List.mem_cons, List.not_mem_nil, or_false] at hd
    rcases hd with rfl | rfl
    · obtain ⟨d', hd', heq'⟩ := h.attained axis (by rw [hmid.length_eq]; exact haxis)
      exact ⟨d', List.mem_append_left _ hd', heq'.trans heq⟩
    · exact ⟨_, List.mem_append_right _ (List.mem_singleton.mpr rfl), heq⟩

/-! ## Strides -/

/-- Positive extents whose product fits. -/
structure Countable (dims : List ℕ) : Prop where
  pos : ∀ extent ∈ dims, 0 < extent
  fits : dims.prod < usizeLimit

theorem Countable.stride_mul {extent : ℕ} {dims : List ℕ} (h : Countable (extent :: dims)) :
    Countable dims ∧ dims.prod * extent < usizeLimit := by
  have hfits := h.fits
  rw [List.prod_cons, Nat.mul_comm] at hfits
  refine ⟨⟨fun d hd => h.pos d (List.mem_cons_of_mem _ hd), ?_⟩, hfits⟩
  exact (Nat.le_mul_of_pos_right _ (h.pos extent List.mem_cons_self)).trans_lt hfits

theorem stridesForDims_eq {dims : List ℕ} (h : Countable dims) :
    stridesForDims true dims = .ok (rowStrides dims) := by
  have hfold : dims.reverse.foldlM (fun (state : List ℕ × ℕ) dim => do
      let next ← okOr (checkedMul state.2 dim) CollectiveError.countOverflow
      return (state.1 ++ [state.2], next)) ([], 1)
        = .ok ((rowStrides dims).reverse, dims.prod) := by
    induction dims with
    | nil => rfl
    | cons extent dims ih =>
      obtain ⟨hrest, hmul⟩ := h.stride_mul
      rw [List.reverse_cons, List.foldlM_append, ih hrest, rowStrides_cons, List.reverse_cons,
        List.prod_cons]
      have hnext : checkedMul dims.prod extent = some (extent * dims.prod) :=
        checkedMul_eq_some.mpr ⟨hmul, Nat.mul_comm _ _⟩
      simp only [bind, Except.bind, List.foldlM_cons, List.foldlM_nil, hnext]
      rfl
  unfold stridesForDims
  rw [if_neg (by simp)]
  show (do
    let state ← (_ : Except CollectiveError (List ℕ × ℕ))
    return state.1.reverse) = _
  rw [hfold]
  simp [bind, Except.bind, pure, Except.pure]

theorem stridesForDims_ok {granted : Bool} {dims strides : List ℕ} (h : Countable dims)
    (hok : stridesForDims granted dims = .ok strides) : strides = rowStrides dims := by
  cases granted with
  | false => contradiction
  | true => exact Except.ok.inj (hok.symm.trans (stridesForDims_eq h))

theorem foldlM_pointwiseStrides {dims : List ℕ} (h : Countable dims) :
    (List.range dims.length).reverse.foldlM (fun (state : List ℕ × ℕ) i => do
        let next ← okOr (checkedMul state.2 (dims.getD i 0))
          (PointwiseError.array (.allocationFailed (usizeLimit - 1)))
        return (state.1.set i state.2, next)) (List.replicate dims.length 1, 1)
      = .ok (rowStrides dims, dims.prod) := by
  induction dims with
  | nil => rfl
  | cons extent dims ih =>
    obtain ⟨hrest, hmul⟩ := h.stride_mul
    -- the rounds on the last axes leave the first entry alone
    have hshift : ∀ (l : List ℕ) (state : List ℕ × ℕ),
        (l.map Nat.succ).foldlM (fun (state : List ℕ × ℕ) i => do
          let next ← okOr (checkedMul state.2 ((extent :: dims).getD i 0))
            (PointwiseError.array (.allocationFailed (usizeLimit - 1)))
          return (state.1.set i state.2, next)) (1 :: state.1, state.2)
        = (l.foldlM (fun (state : List ℕ × ℕ) i => do
          let next ← okOr (checkedMul state.2 (dims.getD i 0))
            (PointwiseError.array (.allocationFailed (usizeLimit - 1)))
          return (state.1.set i state.2, next)) state).map
            fun (out : List ℕ × ℕ) => (1 :: out.1, out.2) := by
      intro l
      induction l with
      | nil => exact fun _ => rfl
      | cons i l ihl =>
        intro state
        rw [List.map_cons, List.foldlM_cons, List.foldlM_cons, List.getD_cons_succ]
        cases checkedMul state.2 (dims.getD i 0) with
        | none => rfl
        | some next => exact ihl (state.1.set i state.2, next)
    rw [List.length_cons, List.range_succ_eq_map, List.reverse_cons, ← List.map_reverse,
      List.foldlM_append, List.replicate_succ, hshift _ (List.replicate dims.length 1, 1), ih hrest,
      rowStrides_cons, List.prod_cons]
    have hnext : checkedMul dims.prod ((extent :: dims).getD 0 0) = some (extent * dims.prod) :=
      checkedMul_eq_some.mpr ⟨hmul, Nat.mul_comm _ _⟩
    simp only [bind, Except.bind, Except.map, List.foldlM_cons, List.foldlM_nil, hnext]
    rfl

theorem pointwiseStrides_eq {dims : List ℕ} (h : Countable dims) :
    pointwiseStrides true dims = .ok (rowStrides dims) := by
  unfold pointwiseStrides
  rw [if_neg (by simp)]
  show (do
    let state ← (_ : Except PointwiseError (List ℕ × ℕ))
    return state.1) = _
  rw [foldlM_pointwiseStrides h]
  rfl

theorem pointwiseStrides_ok {granted : Bool} {dims strides : List ℕ} (h : Countable dims)
    (hok : pointwiseStrides granted dims = .ok strides) : strides = rowStrides dims := by
  cases granted with
  | false => contradiction
  | true => exact Except.ok.inj (hok.symm.trans (pointwiseStrides_eq h))

/-! ## Decoding an output index -/

section Decoding

variable {dims shape : List ℕ} {linear : ℕ}

theorem axisIndex_eq (hshape : Countable shape) (hlinear : linear < shape.prod) {axis : ℕ}
    (haxis : axis < shape.length) :
    axisIndex shape (rowStrides shape) linear axis
      = some ((indicesOf shape linear).getD axis 0) := by
  have hdecode := rowMajorValue_div_mod (validIndices_indicesOf hlinear) haxis
  rw [rowMajorValue_indicesOf hlinear] at hdecode
  have hstride := rowStride_pos hshape.pos axis
  have hextent : shape.getD axis 0 ≠ 0 := by
    have hmem : shape.getD axis 0 ∈ shape := by
      have hget : shape.getD axis 0 = shape[axis] := by
        simp [List.getD_eq_getElem?_getD, haxis]
      rw [hget]
      exact List.getElem_mem haxis
    have := hshape.pos _ hmem
    omega
  unfold axisIndex checkedDiv checkedRem
  rw [getElem?_rowStrides haxis, getElem?_of_lt 0 haxis]
  simp only [Option.bind_eq_bind, Option.bind_some]
  rw [if_neg (by omega), Option.bind_some, if_neg hextent, hdecode]

/-- One axis adds its clipped index times its stride. -/
theorem addAxis_eq {e : List ℕ} (hdims : Countable dims) (he : ValidIndices dims (clip dims e))
    (hlen : e.length = dims.length) {axis : ℕ} (haxis : axis < dims.length) :
    addAxis dims (rowStrides dims) axis (e.getD axis 0) ((List.range axis).map fun axis =>
        (clip dims e).getD axis 0 * rowStride dims axis).sum
      = some ((List.range (axis + 1)).map fun axis =>
        (clip dims e).getD axis 0 * rowStride dims axis).sum := by
  have hsum := sum_strides_le he.1 (show axis + 1 ≤ dims.length from haxis)
  have hlt := rowMajorValue_lt he
  have hfits := hdims.fits
  rw [List.range_succ, List.map_append, List.sum_append] at hsum ⊢
  simp only [List.map_cons, List.map_nil, List.sum_cons, List.sum_nil, Nat.add_zero] at hsum ⊢
  rw [clip_getD haxis (by omega)] at hsum ⊢
  unfold addAxis
  rw [getElem?_of_lt 0 haxis]
  simp only [Option.bind_eq_bind, Option.bind_some]
  by_cases hone : dims.getD axis 0 = 1
  · simp only [if_pos hone, Nat.zero_mul, Nat.add_zero]
    rfl
  · rw [if_neg hone] at hsum ⊢
    have hmul : checkedMul (e.getD axis 0) (rowStride dims axis)
        = some (e.getD axis 0 * rowStride dims axis) :=
      checkedMul_eq_some.mpr ⟨by omega, rfl⟩
    simp only [if_neg hone, getElem?_rowStrides haxis, hmul, Option.bind_some]
    exact checkedAdd_eq_some.mpr ⟨by omega, rfl⟩

/-- **The axis loop** of an input reads at the clipped indices. -/
theorem foldlM_addAxis (hshape : Countable shape) (hdims : Countable dims)
    (h : Broadcasts dims shape) (hlinear : linear < shape.prod) :
    (List.range shape.length).foldlM (fun i axis => do
        let index ← axisIndex shape (rowStrides shape) linear axis
        addAxis dims (rowStrides dims) axis index i) 0
      = some (rowMajorValue dims (clip dims (indicesOf shape linear))) := by
  have hvalid := validIndices_indicesOf hlinear
  have hclip := validIndices_clip h hvalid
  have hlen : (indicesOf shape linear).length = dims.length := hvalid.1.trans h.length_eq.symm
  obtain ⟨i, hrun, hi⟩ := foldlM_range_inv (m := Option) (fun i axis => do
      let index ← axisIndex shape (rowStrides shape) linear axis
      addAxis dims (rowStrides dims) axis index i)
    (fun n i => i = ((List.range n).map fun axis =>
      (clip dims (indicesOf shape linear)).getD axis 0 * rowStride dims axis).sum)
    shape.length 0 rfl (by
      intro axis haxis i hi
      refine ⟨_, ?_, rfl⟩
      rw [axisIndex_eq hshape hlinear haxis, hi]
      exact addAxis_eq hdims hclip hlen (by rw [h.length_eq]; exact haxis))
  rw [hrun, hi, ← h.length_eq, ← rowMajorValue_eq_sum hclip.1]
  rfl

theorem foldlM_checkedAdd_of_lt {l : List ℕ} {acc : ℕ} (h : acc + l.sum < usizeLimit) :
    l.foldlM checkedAdd acc = some (acc + l.sum) := by
  induction l generalizing acc with
  | nil => rfl
  | cons a l ih =>
    rw [List.sum_cons] at h ⊢
    rw [List.foldlM_cons, checkedAdd_eq_some.mpr ⟨by omega, rfl⟩]
    rw [← Nat.add_assoc] at h ⊢
    exact ih h

/-- `broadcast_linear` computes the same number. -/
theorem broadcastLinear_eq (hshape : Countable shape) (hdims : Countable dims)
    (h : Broadcasts dims shape) (hlinear : linear < shape.prod) :
    broadcastLinear linear shape dims (rowStrides dims) (rowStrides shape)
      = some (rowMajorValue dims (clip dims (indicesOf shape linear))) := by
  have hvalid := validIndices_indicesOf hlinear
  have hclip := validIndices_clip h hvalid
  have hlen : (indicesOf shape linear).length = dims.length := hvalid.1.trans h.length_eq.symm
  have hlt := rowMajorValue_lt hclip
  have hfits := hdims.fits
  have hindices : (List.range shape.length).mapM (fun axis => do
      let index ← axisIndex shape (rowStrides shape) linear axis
      let extent ← dims[axis]?
      return if extent = 1 then 0 else index)
        = some ((List.range shape.length).map fun axis =>
            (clip dims (indicesOf shape linear)).getD axis 0) := by
    refine mapM_eq_some fun axis haxis => ?_
    have haxis := List.mem_range.mp haxis
    have hdim : axis < dims.length := by rw [h.length_eq]; exact haxis
    rw [axisIndex_eq hshape hlinear haxis, getElem?_of_lt 0 hdim, clip_getD hdim (by omega)]
    rfl
  have hzip : ((List.range shape.length).map fun axis =>
        (clip dims (indicesOf shape linear)).getD axis 0).zip (rowStrides dims)
      = (List.range dims.length).map fun axis =>
          ((clip dims (indicesOf shape linear)).getD axis 0, rowStride dims axis) := by
    rw [← h.length_eq, rowStrides, List.zip_map']
  have hterms : ((List.range dims.length).map fun axis =>
        ((clip dims (indicesOf shape linear)).getD axis 0, rowStride dims axis)).mapM
        (fun (i, s) => checkedMul i s)
      = some ((List.range dims.length).map fun axis =>
          (clip dims (indicesOf shape linear)).getD axis 0 * rowStride dims axis) := by
    rw [List.mapM_map]
    refine mapM_eq_some fun axis haxis => checkedMul_eq_some.mpr ⟨?_, rfl⟩
    have hle := sum_strides_le hclip.1 (le_refl dims.length)
    have hterm := List.single_le_sum (l := (List.range dims.length).map fun axis =>
      (clip dims (indicesOf shape linear)).getD axis 0 * rowStride dims axis) (by simp) _
      (List.mem_map.mpr ⟨axis, haxis, rfl⟩)
    omega
  unfold broadcastLinear
  rw [hindices]
  simp only [Option.bind_eq_bind, Option.bind_some]
  rw [hzip, hterms, Option.bind_some, foldlM_checkedAdd_of_lt, Nat.zero_add,
    ← rowMajorValue_eq_sum hclip.1]
  rw [Nat.zero_add, ← rowMajorValue_eq_sum hclip.1]
  omega

end Decoding

end PencilRs.Analysis
