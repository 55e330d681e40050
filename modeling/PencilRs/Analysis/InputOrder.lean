import PencilRs.Analysis.Traversals

/-!
# The order of the inputs

The reductions of three and of many views fold the shapes of their inputs pairwise, and every
partial shape has to be representable.  Without a zero extent no partial shape is larger than
the full one.  With a zero extent the full shape is empty, and what a partial shape counts
depends on whether the input with the zero came before.
-/

set_option autoImplicit false

namespace PencilRs.Analysis

open PencilRs.Computation PencilRs.Model

variable {N M : ℕ} {α : Type}

/-! ## Partial shapes -/

section Shapes

variable {inputs seen : List (List ℕ)} {dims mid part shape : List ℕ}

/-- Broadcasting, axis by axis. -/
theorem broadcasts_iff : Broadcasts dims shape ↔ dims.length = shape.length ∧
    ∀ axis < dims.length, dims.getD axis 0 = shape.getD axis 0 ∨ dims.getD axis 0 = 1 := by
  constructor
  · intro h
    exact ⟨h.length_eq, fun axis haxis => h.extent haxis⟩
  · rintro ⟨hlen, h⟩
    induction dims generalizing shape with
    | nil =>
      obtain rfl := List.length_eq_zero_iff.mp hlen.symm
      exact .nil
    | cons extent dims ih =>
      cases shape with
      | nil => contradiction
      | cons out shape =>
        refine .cons (by simpa using h 0 (by simp)) (ih (by simpa using hlen) ?_)
        intro axis haxis
        simpa using h (axis + 1) (by simpa using haxis)

/-- Some of the inputs have a shape of their own, which broadcasts to that of all. -/
theorem IsBroadcast.exists_part (h : IsBroadcast inputs shape) (hne : seen ≠ [])
    (hsub : ∀ dims ∈ seen, dims ∈ inputs) :
    ∃ part, IsBroadcast seen part ∧ Broadcasts part shape := by
  classical
  let extent (axis : ℕ) : ℕ :=
    if ∃ dims ∈ seen, dims.getD axis 0 ≠ 1 then shape.getD axis 0 else 1
  have hlen : ∀ dims ∈ seen, dims.length = shape.length := fun dims hdims =>
    (h.broadcasts dims (hsub dims hdims)).length_eq
  have hget : ∀ axis < shape.length,
      ((List.range shape.length).map extent).getD axis 0 = extent axis := by
    intro axis haxis
    simp [List.getD_eq_getElem?_getD, haxis]
  refine ⟨(List.range shape.length).map extent, ⟨?_, ?_⟩, ?_⟩
  · intro dims hdims
    apply broadcasts_iff.mpr
    refine ⟨by simp [hlen dims hdims], fun axis haxis => ?_⟩
    rw [hlen dims hdims] at haxis
    have hextent := (h.broadcasts dims (hsub dims hdims)).extent
      (by rw [hlen dims hdims]; exact haxis)
    rw [hget axis haxis]
    by_cases hone : dims.getD axis 0 = 1
    · exact Or.inr hone
    · have hpart : extent axis = shape.getD axis 0 := if_pos ⟨dims, hdims, hone⟩
      rw [hpart]
      exact hextent
  · intro axis haxis
    have haxis : axis < shape.length := by simpa using haxis
    rw [hget axis haxis]
    by_cases hsome : ∃ dims ∈ seen, dims.getD axis 0 ≠ 1
    · obtain ⟨dims, hdims, hother⟩ := hsome
      have hextent := (h.broadcasts dims (hsub dims hdims)).extent
        (by rw [hlen dims hdims]; exact haxis)
      have hpart : extent axis = shape.getD axis 0 := if_pos ⟨dims, hdims, hother⟩
      exact ⟨dims, hdims, by rw [hpart]; exact hextent.resolve_right hother⟩
    · obtain ⟨dims, hdims⟩ := List.exists_mem_of_ne_nil seen hne
      have hpart : extent axis = 1 := if_neg hsome
      refine ⟨dims, hdims, ?_⟩
      rw [hpart]
      by_contra hother
      exact hsome ⟨dims, hdims, hother⟩
  · apply broadcasts_iff.mpr
    refine ⟨by simp, fun axis haxis => ?_⟩
    have haxis : axis < shape.length := by simpa using haxis
    rw [hget axis haxis]
    by_cases hsome : ∃ dims ∈ seen, dims.getD axis 0 ≠ 1
    · exact Or.inl (if_pos hsome)
    · exact Or.inr (if_neg hsome)

/-- The shape of the inputs so far and of one more, as the shape of two inputs. -/
theorem IsBroadcast.pair (hmid : IsBroadcast seen mid) (hne : seen ≠ [])
    (h : IsBroadcast (seen ++ [dims]) shape) : IsBroadcast [mid, dims] shape := by
  obtain ⟨first, hfirst⟩ := List.exists_mem_of_ne_nil seen hne
  have hseen : ∀ d ∈ seen, Broadcasts d shape := fun d hd =>
    h.broadcasts d (List.mem_append_left _ hd)
  have hlen : mid.length = shape.length := by
    rw [← (hmid.broadcasts first hfirst).length_eq, (hseen first hfirst).length_eq]
  have hmidShape : Broadcasts mid shape := by
    refine broadcasts_iff.mpr ⟨hlen, fun axis haxis => ?_⟩
    obtain ⟨d, hd, heq⟩ := hmid.attained axis haxis
    rw [← heq]
    exact (hseen d hd).extent (by rw [(hseen d hd).length_eq, ← hlen]; exact haxis)
  refine ⟨?_, fun axis haxis => ?_⟩
  · intro d hd
    simp only [List.mem_cons, List.not_mem_nil, or_false] at hd
    rcases hd with rfl | rfl
    · exact hmidShape
    · exact h.broadcasts d (List.mem_append_right _ (List.mem_singleton.mpr rfl))
  · obtain ⟨d, hd, heq⟩ := h.attained axis haxis
    rcases List.mem_append.mp hd with hd | hd
    · refine ⟨mid, by simp, ?_⟩
      have haxis' : axis < mid.length := by rwa [hlen]
      -- an axis where all inputs so far have extent one has it in their shape too
      rcases (hmid.broadcasts d hd).extent
        (by rw [(hmid.broadcasts d hd).length_eq]; exact haxis') with hd' | hone
      · rw [← hd', heq]
      · obtain ⟨d', hd', heq'⟩ := hmid.attained axis haxis'
        have := (hseen d' hd').extent (by rw [(hseen d' hd').length_eq]; exact haxis)
        omega
    · rw [List.mem_singleton.mp hd] at heq
      exact ⟨dims, by simp, heq⟩

theorem Broadcasts.prod_le (h : Broadcasts part shape) (hpos : ∀ extent ∈ shape, 0 < extent) :
    part.prod ≤ shape.prod := by
  induction h with
  | nil => exact le_rfl
  | @cons extent out _ _ hhead _ ih =>
    obtain ⟨hout, hrest⟩ := List.forall_mem_cons.mp hpos
    rw [List.prod_cons, List.prod_cons]
    refine Nat.mul_le_mul ?_ (ih hrest)
    rcases hhead with rfl | rfl
    · exact le_rfl
    · exact hout

/-- A zero extent stays zero. -/
theorem IsBroadcast.zero_mem (h : IsBroadcast inputs shape) (hdims : dims ∈ inputs)
    (hzero : 0 ∈ dims) : 0 ∈ shape := by
  have hb := h.broadcasts dims hdims
  obtain ⟨axis, haxis, hget⟩ := List.mem_iff_getElem.mp hzero
  have hextent := hb.extent haxis
  have hdimsAxis : dims.getD axis 0 = 0 := by
    simp [List.getD_eq_getElem?_getD, haxis, hget]
  have haxis' : axis < shape.length := by rwa [← hb.length_eq]
  have hshape : shape[axis] = 0 := by
    have : shape.getD axis 0 = shape[axis] := by
      simp [List.getD_eq_getElem?_getD, haxis']
    omega
  exact List.mem_iff_getElem.mpr ⟨axis, haxis', hshape⟩

/-- A zero extent comes from an input. -/
theorem IsBroadcast.exists_zero (h : IsBroadcast inputs shape) (hzero : 0 ∈ shape) :
    ∃ dims ∈ inputs, 0 ∈ dims := by
  obtain ⟨axis, haxis, hget⟩ := List.mem_iff_getElem.mp hzero
  obtain ⟨dims, hdims, heq⟩ := h.attained axis haxis
  have haxis' : axis < dims.length := by
    rw [(h.broadcasts dims hdims).length_eq]
    exact haxis
  refine ⟨dims, hdims, List.mem_iff_getElem.mpr ⟨axis, haxis', ?_⟩⟩
  rw [List.getD_eq_getElem?_getD, List.getD_eq_getElem?_getD, List.getElem?_eq_getElem haxis,
    List.getElem?_eq_getElem haxis'] at heq
  simpa [hget] using heq

theorem IsBroadcast.perm {inputs' : List (List ℕ)} (h : IsBroadcast inputs shape)
    (hperm : inputs'.Perm inputs) : IsBroadcast inputs' shape where
  broadcasts := fun dims hdims => h.broadcasts dims (hperm.mem_iff.mp hdims)
  attained := by
    intro axis haxis
    obtain ⟨dims, hdims, heq⟩ := h.attained axis haxis
    exact ⟨dims, hperm.mem_iff.mpr hdims, heq⟩

/-! ## The fold -/

/-- Every shape that the fold rebuilds is representable: that of the inputs seen before, and with
each further input but the last. -/
def PartialsFit (seen rest : List (List ℕ)) : Prop :=
  ∀ k < rest.length, ∀ part, IsBroadcast (seen ++ rest.take k) part → part.prod < usizeLimit

theorem partialsFit_cons : PartialsFit seen (dims :: inputs) ↔
    (∀ part, IsBroadcast seen part → part.prod < usizeLimit) ∧
      PartialsFit (seen ++ [dims]) inputs := by
  constructor
  · intro h
    refine ⟨fun part hpart => h 0 (by simp) part (by simpa using hpart), ?_⟩
    intro k hk part hpart
    exact h (k + 1) (by simpa using hk) part (by simpa using hpart)
  · rintro ⟨hfirst, hrest⟩ k hk part hpart
    cases k with
    | zero => exact hfirst part (by simpa using hpart)
    | succ k => exact hrest k (by simpa using hk) part (by simpa using hpart)

theorem ExtraShape.new_eq_ok_iff {shape : ExtraShape} :
    ExtraShape.new dims = .ok shape ↔ shape.dimensions = dims ∧ dims.prod < usizeLimit := by
  constructor
  · intro h
    have hdims := ExtraShape.dimensions_of_new h
    refine ⟨hdims, ?_⟩
    have hcount := shape.elementCount_ok
    rw [hdims] at hcount
    exact (checkedProduct_eq_ok.mp hcount).2
  · rintro ⟨rfl, _⟩
    exact ExtraShape.new_dimensions shape

/-- One round of the fold. -/
theorem broadcastStep_grantAll {entry : PencilArrayView α N M × ℕ} :
    broadcastStep grantAll mid entry = .ok shape ↔ mid.prod < usizeLimit ∧
      IsBroadcast [mid, entry.1.extraShape.dimensions] shape := by
  rw [broadcastStep_ok]
  constructor
  · rintro ⟨current, hcurrent, hshape⟩
    obtain ⟨rfl, hfit⟩ := ExtraShape.new_eq_ok_iff.mp hcurrent
    exact ⟨hfit, broadcastShape_isBroadcast hshape⟩
  · rintro ⟨hfit, hshape⟩
    have hcount : checkedProduct mid = .ok mid.prod := checkedProduct_of_lt hfit
    refine ⟨shapeOf mid hcount, ExtraShape.new_eq_ok_iff.mpr ⟨rfl, hfit⟩, ?_⟩
    exact broadcastShape_eq hshape

/-- What the fold over the inputs needs and returns. -/
theorem foldlM_broadcastStep_iff {entries : List (PencilArrayView α N M × ℕ)} (hne : seen ≠ [])
    (hmid : IsBroadcast seen mid) :
    entries.foldlM (broadcastStep grantAll) mid = .ok shape ↔
      IsBroadcast (seen ++ entries.map fun entry => entry.1.extraShape.dimensions) shape ∧
        PartialsFit seen (entries.map fun entry => entry.1.extraShape.dimensions) := by
  obtain ⟨first, others, rfl⟩ : ∃ first others, seen = first :: others :=
    List.exists_cons_of_ne_nil hne
  induction entries generalizing others mid with
  | nil =>
    rw [List.foldlM_nil]
    constructor
    · intro h
      cases h
      exact ⟨by simpa using hmid, fun k hk => absurd hk (by simp)⟩
    · rintro ⟨hshape, _⟩
      rw [hmid.unique (by simpa using hshape)]
      rfl
  | cons entry entries ih =>
    rw [List.foldlM_cons, bind_eq_ok, List.map_cons, partialsFit_cons]
    constructor
    · rintro ⟨next, hstep, hrest⟩
      obtain ⟨hfit, hnext⟩ := broadcastStep_grantAll.mp hstep
      obtain ⟨hshape, hpartials⟩ := (ih (others ++ [entry.1.extraShape.dimensions]) (by simp)
        (hmid.snoc hnext)).mp hrest
      refine ⟨by simpa using hshape, fun part hpart => ?_, hpartials⟩
      rwa [hpart.unique hmid]
    · rintro ⟨hshape, hfirst, hpartials⟩
      obtain ⟨next, hnext, _⟩ := hshape.exists_part
        (by simp : first :: others ++ [entry.1.extraShape.dimensions] ≠ []) fun d hd => by
          simp only [List.mem_append, List.mem_cons] at hd ⊢
          tauto
      refine ⟨next, broadcastStep_grantAll.mpr ⟨hfirst mid hmid, hmid.pair hne hnext⟩, ?_⟩
      refine (ih (others ++ [entry.1.extraShape.dimensions]) (by simp) hnext).mpr
        ⟨by simpa using hshape, hpartials⟩

end Shapes

/-! ## Inputs in another order -/

section Order

universe u

variable {X : Type u} (layout : X → Pencil N M × ExtraShape)

def shapesOf (inputs : List X) : List (List ℕ) := inputs.map fun x => (layout x).2.dimensions

/-- The input has no zero extent. -/
def noZero (x : X) : Bool := decide (0 ∉ (layout x).2.dimensions)

/-- What preparation asks of its inputs, with the shape that it computes. -/
structure Reduces (inputs : List X) (shape : List ℕ) : Prop where
  pencils : ∀ x ∈ inputs, ∀ y ∈ inputs, (layout x).1 = (layout y).1
  broadcast : IsBroadcast (shapesOf layout inputs) shape
  count : ∃ x ∈ inputs, CountFits (layout x).1 shape
  partials : PartialsFit ((shapesOf layout inputs).take 1) ((shapesOf layout inputs).drop 1)

/-- The inputs that could be reduced together are all without zero extents, or those that are
have a representable shape. -/
def OrderSettled (inputs : List X) : Prop :=
  (∀ x ∈ inputs, ∀ y ∈ inputs, (layout x).1 = (layout y).1) →
    (∃ shape, IsBroadcast (shapesOf layout inputs) shape) →
    (∃ x ∈ inputs, noZero layout x = false) →
    ∀ part, IsBroadcast (shapesOf layout (inputs.filter (noZero layout))) part →
      part.prod < usizeLimit

variable {layout} {inputs inputs' : List X} {shape : List ℕ}

theorem noZero_iff {x : X} : noZero layout x = true ↔ 0 ∉ (layout x).2.dimensions := by
  unfold noZero
  exact decide_eq_true_iff

theorem mem_shapesOf {dims : List ℕ} :
    dims ∈ shapesOf layout inputs ↔ ∃ x ∈ inputs, (layout x).2.dimensions = dims :=
  List.mem_map

theorem usizeLimit_pos : 0 < usizeLimit := by decide

theorem OrderSettled.perm (h : OrderSettled layout inputs) (hperm : inputs'.Perm inputs) :
    OrderSettled layout inputs' := by
  intro hpencils hshape hzero part hpart
  obtain ⟨shape, hshape⟩ := hshape
  obtain ⟨z, hz, hzero⟩ := hzero
  refine h (fun x hx y hy => hpencils x (hperm.mem_iff.mpr hx) y (hperm.mem_iff.mpr hy))
    ⟨shape, hshape.perm (hperm.symm.map _)⟩ ⟨z, hperm.mem_iff.mp hz, hzero⟩ part ?_
  exact hpart.perm ((hperm.symm.filter _).map _)

/-- Where the order is settled no partial shape is too large. -/
theorem OrderSettled.partials (h : OrderSettled layout inputs)
    (hpencils : ∀ x ∈ inputs, ∀ y ∈ inputs, (layout x).1 = (layout y).1)
    (hshape : IsBroadcast (shapesOf layout inputs) shape)
    (hcount : ∃ x ∈ inputs, CountFits (layout x).1 shape) :
    PartialsFit ((shapesOf layout inputs).take 1) ((shapesOf layout inputs).drop 1) := by
  obtain ⟨x, _, ⟨n, hn, _, _⟩⟩ := hcount
  obtain ⟨_, hfit⟩ := checkedProduct_eq_ok.mp hn
  intro k hk part hpart
  let before := (shapesOf layout inputs).take 1 ++ ((shapesOf layout inputs).drop 1).take k
  have hsub : ∀ dims ∈ before, dims ∈ shapesOf layout inputs := by
    intro dims hdims
    rcases List.mem_append.mp hdims with hdims | hdims
    · exact List.mem_of_mem_take hdims
    · exact List.mem_of_mem_drop (List.mem_of_mem_take hdims)
  obtain ⟨first, others, hbefore⟩ : ∃ first others, before = first :: others := by
    cases hall : shapesOf layout inputs with
    | nil =>
      rw [hall] at hk
      simp at hk
    | cons first rest => exact ⟨first, rest.take k, by simp only [before, hall]; rfl⟩
  have hpart : IsBroadcast before part := hpart
  -- a shape that `before` broadcasts to, without zeros, is at least as large
  have hbound : ∀ all whole, IsBroadcast all whole → (∀ dims ∈ before, dims ∈ all) →
      0 ∉ whole → part.prod ≤ whole.prod := by
    intro all whole hwhole hall hpos
    obtain ⟨part', hpart', hle⟩ := hwhole.exists_part (by rw [hbefore]; simp) hall
    rw [hbefore] at hpart hpart'
    rw [hpart.unique hpart']
    exact hle.prod_le fun extent hextent => Nat.pos_of_ne_zero fun h0 => hpos (h0 ▸ hextent)
  by_cases hzero : 0 ∈ part
  · rw [List.prod_eq_zero hzero]
    exact usizeLimit_pos
  by_cases hfull : 0 ∈ shape
  · obtain ⟨dims, hdims, hdims0⟩ := hshape.exists_zero hfull
    obtain ⟨z, hz, rfl⟩ := mem_shapesOf.mp hdims
    have hbeforeNoZero : ∀ dims ∈ before,
        dims ∈ shapesOf layout (inputs.filter (noZero layout)) := by
      intro dims hdims
      obtain ⟨y, hy, rfl⟩ := mem_shapesOf.mp (hsub dims hdims)
      refine mem_shapesOf.mpr ⟨y, List.mem_filter.mpr ⟨hy, noZero_iff.mpr fun h0 => ?_⟩, rfl⟩
      exact hzero (hpart.zero_mem hdims h0)
    have hfirst := hbeforeNoZero first (by rw [hbefore]; simp)
    have hkept : ∀ dims ∈ shapesOf layout (inputs.filter (noZero layout)),
        dims ∈ shapesOf layout inputs := by
      intro dims hdims
      obtain ⟨y, hy, rfl⟩ := mem_shapesOf.mp hdims
      exact mem_shapesOf.mpr ⟨y, List.mem_of_mem_filter hy, rfl⟩
    obtain ⟨whole, hwhole, _⟩ := hshape.exists_part (List.ne_nil_of_mem hfirst) hkept
    have hpos : 0 ∉ whole := by
      intro h0
      obtain ⟨dims, hdims, hdims0⟩ := hwhole.exists_zero h0
      obtain ⟨y, hy, rfl⟩ := mem_shapesOf.mp hdims
      exact noZero_iff.mp (List.mem_filter.mp hy).2 hdims0
    have hwholeFits := h hpencils ⟨shape, hshape⟩
      ⟨z, hz, Bool.eq_false_iff.mpr fun hnot => noZero_iff.mp hnot hdims0⟩ whole hwhole
    exact (hbound _ whole hwhole hbeforeNoZero hpos).trans_lt hwholeFits
  · exact (hbound _ shape hshape hsub hfull).trans_lt hfit

/-- **The order decides nothing** exactly where it is settled. -/
theorem reduces_perm_iff : (∀ inputs' : List X, inputs'.Perm inputs → ∀ shape,
    Reduces layout inputs' shape ↔ Reduces layout inputs shape) ↔ OrderSettled layout inputs := by
  constructor
  · intro horder hpencils hshape hzero part hpart
    obtain ⟨shape, hshape⟩ := hshape
    obtain ⟨z, hz, hzero⟩ := hzero
    let filled := inputs.filter (noZero layout)
    let empty := inputs.filter fun x => !noZero layout x
    have hz' : z ∈ empty := List.mem_filter.mpr ⟨hz, by rw [hzero]; rfl⟩
    have hperm : (filled ++ empty).Perm inputs := List.filter_append_perm _ inputs
    have hperm' : (empty ++ filled).Perm inputs := List.perm_append_comm.trans hperm
    have hmem : ∀ l : List X, l.Perm inputs → ∀ x ∈ l, ∀ y ∈ l, (layout x).1 = (layout y).1 :=
      fun l hl x hx y hy => hpencils x (hl.mem_iff.mp hx) y (hl.mem_iff.mp hy)
    have hdims0 : 0 ∈ (layout z).2.dimensions := by
      by_contra hnot
      rw [noZero_iff.mpr hnot] at hzero
      contradiction
    have hfull : 0 ∈ shape := hshape.zero_mem (mem_shapesOf.mpr ⟨z, hz, rfl⟩) hdims0
    have hempty : CountFits (layout z).1 shape := by
      refine ⟨0, checkedProduct_eq_ok.mpr ⟨(List.prod_eq_zero hfull).symm, ?_⟩, ?_, ?_⟩
      · rw [List.prod_eq_zero hfull]
        exact usizeLimit_pos
      · rw [Nat.mul_zero]
        exact usizeLimit_pos
      · rw [Nat.mul_zero]
        exact usizeLimit_pos
    -- with an input of zero extent first, every partial shape is empty
    obtain ⟨e, es, hes⟩ : ∃ e es, empty = e :: es :=
      List.exists_cons_of_ne_nil (List.ne_nil_of_mem hz')
    have he0 : 0 ∈ (layout e).2.dimensions := by
      have he : e ∈ empty := by rw [hes]; simp
      have hnot := (List.mem_filter.mp he).2
      by_contra h0
      rw [noZero_iff.mpr h0] at hnot
      contradiction
    have hfirst : Reduces layout (empty ++ filled) shape := by
      refine ⟨hmem _ hperm', hshape.perm (hperm'.map _), ⟨z, List.mem_append_left _ hz', hempty⟩,
        fun k _ part hpart => ?_⟩
      have hmember : (layout e).2.dimensions ∈ (shapesOf layout (empty ++ filled)).take 1
          ++ ((shapesOf layout (empty ++ filled)).drop 1).take k := by
        rw [hes]
        simp [shapesOf]
      rw [List.prod_eq_zero (hpart.zero_mem hmember he0)]
      exact usizeLimit_pos
    have hlast := (horder _ hperm shape).mpr ((horder _ hperm' shape).mp hfirst)
    cases hfilled : filled with
    | nil =>
      have hpart : IsBroadcast [] part := by
        have : IsBroadcast (shapesOf layout filled) part := hpart
        rwa [hfilled] at this
      have hnil : part = [] := by
        by_contra hne
        obtain ⟨dims, hdims, _⟩ := hpart.attained 0 (List.length_pos_of_ne_nil hne)
        simp at hdims
      rw [hnil]
      decide
    | cons f fs =>
      refine hlast.partials fs.length ?_ part ?_
      · rw [hfilled, hes]
        simp [shapesOf]
      · have hpart : IsBroadcast (shapesOf layout filled) part := hpart
        rw [hfilled] at hpart ⊢
        simpa [shapesOf] using hpart
  · intro hsettled inputs' hperm shape
    have hfree : ∀ l : List X, l.Perm inputs → (Reduces layout l shape ↔
        (∀ x ∈ inputs, ∀ y ∈ inputs, (layout x).1 = (layout y).1) ∧
          IsBroadcast (shapesOf layout inputs) shape ∧
          ∃ x ∈ inputs, CountFits (layout x).1 shape) := by
      intro l hl
      constructor
      · rintro ⟨hpencils, hshape, ⟨x, hx, hcount⟩, _⟩
        exact ⟨fun x hx y hy => hpencils x (hl.mem_iff.mpr hx) y (hl.mem_iff.mpr hy),
          hshape.perm (hl.symm.map _), x, hl.mem_iff.mp hx, hcount⟩
      · rintro ⟨hpencils, hshape, x, hx, hcount⟩
        have hpencils' : ∀ x ∈ l, ∀ y ∈ l, (layout x).1 = (layout y).1 :=
          fun x hx y hy => hpencils x (hl.mem_iff.mp hx) y (hl.mem_iff.mp hy)
        have hshape' := hshape.perm (hl.map _)
        have hcount' : ∃ x ∈ l, CountFits (layout x).1 shape := ⟨x, hl.mem_iff.mpr hx, hcount⟩
        exact ⟨hpencils', hshape', hcount',
          (hsettled.perm hl).partials hpencils' hshape' hcount'⟩
    rw [hfree inputs' hperm, hfree inputs (List.Perm.refl _)]

end Order

/-! ## The reductions -/

/-- A view of any element type. -/
structure AnyView (N M : ℕ) where
  Elem : Type
  view : PencilArrayView Elem N M

def viewLayout (view : PencilArrayView α N M) : Pencil N M × ExtraShape :=
  (view.pencil, view.extraShape)

def AnyView.layout (input : AnyView N M) : Pencil N M × ExtraShape := viewLayout input.view

variable (congruent : MpiTopology M → Bool)

/-- `map_reduce_many` and `sum_many_by` accept the inputs with this output shape, when the
allocator grants what they reserve. -/
def AcceptsMany (inputs : List (PencilArrayView α N M)) (shape : List ℕ) : Prop :=
  ∃ plan, manyPlan grantAll congruent inputs = .ok plan ∧ plan.shape = shape

/-- `map_reduce3` accepts the inputs with this output shape, when the allocator grants what it
reserves. -/
def AcceptsTriple (inputs : List (AnyView N M)) (shape : List ℕ) : Prop :=
  ∃ a b d plan, inputs = [a, b, d] ∧
    mapPlan3 grantAll congruent a.view b.view d.view = .ok plan ∧ plan.shape = shape

variable {congruent}

/-- The comparison of communicators is a check of its own. -/
theorem manyPlan_congruent {inputs : List (PencilArrayView α N M)} {plan : ManyPlan} :
    manyPlan grantAll congruent inputs = .ok plan ↔
      manyPlan grantAll (fun _ => true) inputs = .ok plan ∧
        ∀ input ∈ inputs, congruent input.pencil.topology = true := by
  cases inputs with
  | nil => exact ⟨nofun, fun h => nomatch h.1⟩
  | cons first rest =>
    unfold manyPlan
    simp only [bind_eq_ok, ensure_eq_ok, List.all_eq_true, Bool.and_eq_true, Bool.and_true]
    constructor
    · rintro ⟨u, hu, shape, hshape, n, hn, strides, hstrides, count, hcount, global, hglobal, v,
        hall, hplan⟩
      exact ⟨⟨u, hu, shape, hshape, n, hn, strides, hstrides, count, hcount, global, hglobal, v,
        fun input hinput => (hall input hinput).1, hplan⟩, fun input hinput =>
          (hall input hinput).2⟩
    · rintro ⟨⟨u, hu, shape, hshape, n, hn, strides, hstrides, count, hcount, global, hglobal, v,
        hall, hplan⟩, hcongruent⟩
      exact ⟨u, hu, shape, hshape, n, hn, strides, hstrides, count, hcount, global, hglobal, v,
        fun input hinput => ⟨hall input hinput, hcongruent input hinput⟩, hplan⟩

theorem acceptsMany_iff {inputs : List (PencilArrayView α N M)} {shape : List ℕ} :
    AcceptsMany congruent inputs shape ↔
      Reduces viewLayout inputs shape ∧
        ∀ input ∈ inputs, congruent input.pencil.topology = true := by
  have hsplit : AcceptsMany congruent inputs shape ↔ ∃ plan,
      (manyPlan grantAll (fun _ => true) inputs = .ok plan ∧
        ∀ input ∈ inputs, congruent input.pencil.topology = true) ∧ plan.shape = shape :=
    exists_congr fun plan => by rw [manyPlan_congruent]
  rw [hsplit]
  cases inputs with
  | nil =>
    constructor
    · rintro ⟨plan, ⟨hplan, _⟩, _⟩
      contradiction
    · rintro ⟨⟨_, _, ⟨x, hx, _⟩, _⟩, _⟩
      exact absurd hx List.not_mem_nil
  | cons first rest =>
    have hfirst : IsBroadcast [first.extraShape.dimensions] first.extraShape.dimensions :=
      ⟨by simpa using Broadcasts.refl _, fun axis _ => ⟨_, by simp, rfl⟩⟩
    have hfold : ∀ shape, rest.zipIdx.foldlM (broadcastStep grantAll) first.extraShape.dimensions
        = .ok shape ↔ IsBroadcast (shapesOf viewLayout (first :: rest)) shape ∧
          PartialsFit ((shapesOf viewLayout (first :: rest)).take 1)
            ((shapesOf viewLayout (first :: rest)).drop 1) := by
      intro shape
      rw [foldlM_broadcastStep_iff (by simp) hfirst,
        map_zipIdx_fst fun input : PencilArrayView α N M => input.extraShape.dimensions]
      rfl
    constructor
    · rintro ⟨plan, ⟨hplan, hcongruent⟩, rfl⟩
      obtain ⟨_, _, _, hshape, _⟩ := manyPlan_ok hplan
      obtain ⟨hpencils, shape, hrun, hcount⟩ := manyPlan_exists_iff.mp ⟨plan, hplan⟩
      obtain ⟨hbroadcast, hpartials⟩ := (hfold shape).mp hrun
      have hsame : shape = plan.shape := hbroadcast.unique hshape
      rw [hsame] at hbroadcast hcount
      have hpencil : ∀ x ∈ first :: rest, x.pencil = first.pencil :=
        List.forall_mem_cons.mpr ⟨rfl, hpencils⟩
      exact ⟨⟨fun x hx y hy => (hpencil x hx).trans (hpencil y hy).symm, hbroadcast,
        ⟨first, by simp, hcount⟩, hpartials⟩, hcongruent⟩
    · rintro ⟨⟨hpencils, hbroadcast, ⟨x, hx, hcount⟩, hpartials⟩, hcongruent⟩
      have hpencil : ∀ y ∈ rest, y.pencil = first.pencil := fun y hy =>
        hpencils y (List.mem_cons_of_mem _ hy) first (by simp)
      rw [hpencils x hx first (by simp)] at hcount
      obtain ⟨plan, hplan⟩ := manyPlan_exists_iff.mpr
        ⟨hpencil, shape, (hfold shape).mpr ⟨hbroadcast, hpartials⟩, hcount⟩
      obtain ⟨_, _, _, hshape, _⟩ := manyPlan_ok hplan
      exact ⟨plan, ⟨hplan, hcongruent⟩, hshape.unique hbroadcast⟩

theorem mapPlan3_congruent {β δ : Type} {a : PencilArrayView α N M} {b : PencilArrayView β N M}
    {d : PencilArrayView δ N M} {plan : MapPlan3} :
    mapPlan3 grantAll congruent a b d = .ok plan ↔
      mapPlan3 grantAll (fun _ => true) a b d = .ok plan ∧ congruent a.pencil.topology = true ∧
        congruent b.pencil.topology = true ∧ congruent d.pencil.topology = true := by
  unfold mapPlan3
  simp only [bind_eq_ok, ensure_eq_ok, Bool.and_eq_true, Bool.and_true]
  constructor
  · rintro ⟨shape, hshape, u, ⟨⟨⟨hlayout, ha⟩, hb⟩, hd⟩, hplan⟩
    exact ⟨⟨shape, hshape, u, hlayout, hplan⟩, ha, hb, hd⟩
  · rintro ⟨⟨shape, hshape, u, hlayout, hplan⟩, ha, hb, hd⟩
    exact ⟨shape, hshape, u, ⟨⟨⟨hlayout, ha⟩, hb⟩, hd⟩, hplan⟩

/-- What the fold over three inputs needs and returns. -/
theorem broadcastShape3_iff {a b d : ExtraShape} {shape : List ℕ} :
    broadcastShape3 grantAll a b d = .ok (some shape) ↔
      IsBroadcast [a.dimensions, b.dimensions, d.dimensions] shape ∧
        PartialsFit [a.dimensions] [b.dimensions, d.dimensions] := by
  have hpair : ∀ part, IsBroadcast [a.dimensions] part → part.prod < usizeLimit := by
    intro part hpart
    have ha : IsBroadcast [a.dimensions] a.dimensions :=
      ⟨by simpa using Broadcasts.refl _, fun axis _ => ⟨_, by simp, rfl⟩⟩
    rw [hpart.unique ha]
    exact (ExtraShape.new_eq_ok_iff.mp (ExtraShape.new_dimensions a)).2
  constructor
  · intro h
    refine ⟨broadcastShape3_isBroadcast h, partialsFit_cons.mpr ⟨hpair, partialsFit_cons.mpr
      ⟨fun part hpart => ?_, fun k hk => absurd hk (by simp)⟩⟩⟩
    unfold broadcastShape3 at h
    obtain ⟨ab, hab, h⟩ := bind_eq_ok.mp h
    obtain ⟨dims, hdims, h⟩ := bind_eq_ok.mp h
    obtain ⟨mid, hmid, _⟩ := bind_eq_ok.mp h
    rw [okOr_eq_ok.mp hdims] at hab
    rw [hpart.unique (broadcastShape_isBroadcast hab)]
    exact (ExtraShape.new_eq_ok_iff.mp (mapError_eq_ok.mp hmid)).2
  · rintro ⟨hshape, hpartials⟩
    obtain ⟨_, hrest⟩ := partialsFit_cons.mp hpartials
    obtain ⟨hmidFits, _⟩ := partialsFit_cons.mp hrest
    have htwo : ∀ dims ∈ [a.dimensions, b.dimensions],
        dims ∈ [a.dimensions, b.dimensions, d.dimensions] := by
      intro dims hdims
      simp only [List.mem_cons, List.not_mem_nil, or_false] at hdims ⊢
      tauto
    obtain ⟨mid, hmid, _⟩ := hshape.exists_part (by simp) htwo
    have hcount : checkedProduct mid = .ok mid.prod :=
      checkedProduct_of_lt (hmidFits mid hmid)
    have hlast : IsBroadcast [(shapeOf mid hcount).dimensions, d.dimensions] shape :=
      hmid.pair (by simp) hshape
    unfold broadcastShape3
    exact bind_eq_ok.mpr ⟨some mid, broadcastShape_eq hmid, bind_eq_ok.mpr ⟨mid, rfl,
      bind_eq_ok.mpr ⟨shapeOf mid hcount, mapError_eq_ok.mpr
        (ExtraShape.new_eq_ok_iff.mpr ⟨rfl, hmidFits mid hmid⟩),
        broadcastShape_eq hlast⟩⟩⟩

theorem acceptsTriple_iff {a b d : AnyView N M} {shape : List ℕ} :
    AcceptsTriple congruent [a, b, d] shape ↔ Reduces AnyView.layout [a, b, d] shape ∧
      ∀ input ∈ [a, b, d], congruent input.view.pencil.topology = true := by
  constructor
  · rintro ⟨a', b', d', plan, hinputs, hplan, rfl⟩
    cases hinputs
    obtain ⟨hplan, ha, hb, hd⟩ := mapPlan3_congruent.mp hplan
    obtain ⟨_, _, _, _, hshape, _⟩ := mapPlan3_ok hplan
    obtain ⟨hpb, hpd, shape, hrun, hcount⟩ := mapPlan3_exists_iff.mp ⟨plan, hplan⟩
    obtain ⟨hbroadcast, hpartials⟩ := broadcastShape3_iff.mp hrun
    have hsame : shape = plan.shape := hbroadcast.unique hshape
    rw [hsame] at hbroadcast hcount
    have hpencil : ∀ x ∈ [a, b, d], x.layout.1 = a.layout.1 := by
      simp only [List.forall_mem_cons, List.not_mem_nil, IsEmpty.forall_iff, implies_true,
        and_true, true_and]
      exact ⟨hpb, hpd⟩
    refine ⟨⟨fun x hx y hy => (hpencil x hx).trans (hpencil y hy).symm, hbroadcast,
      ⟨a, by simp, hcount⟩, hpartials⟩, ?_⟩
    simp only [List.forall_mem_cons, List.not_mem_nil, IsEmpty.forall_iff, implies_true, and_true]
    exact ⟨ha, hb, hd⟩
  · rintro ⟨⟨hpencils, hbroadcast, ⟨x, hx, hcount⟩, hpartials⟩, hcongruent⟩
    have hpb : b.view.pencil = a.view.pencil := hpencils b (by simp) a (by simp)
    have hpd : d.view.pencil = a.view.pencil := hpencils d (by simp) a (by simp)
    rw [hpencils x hx a (by simp)] at hcount
    obtain ⟨plan, hplan⟩ := mapPlan3_exists_iff.mpr
      ⟨hpb, hpd, shape, broadcastShape3_iff.mpr ⟨hbroadcast, hpartials⟩, hcount⟩
    obtain ⟨_, _, _, _, hshape, _⟩ := mapPlan3_ok hplan
    exact ⟨a, b, d, plan, rfl, mapPlan3_congruent.mpr ⟨hplan, hcongruent a (by simp),
      hcongruent b (by simp), hcongruent d (by simp)⟩, hshape.unique hbroadcast⟩

theorem perm_accepts_iff {X : Type*} {layout : X → Pencil N M × ExtraShape}
    {accepts : List X → List ℕ → Prop} {joins : X → Prop} {inputs : List X}
    (h : ∀ inputs' : List X, inputs'.Perm inputs → ∀ shape, accepts inputs' shape ↔
      Reduces layout inputs' shape ∧ ∀ x ∈ inputs', joins x) :
    (∀ inputs' : List X, inputs'.Perm inputs → ∀ shape,
      accepts inputs' shape ↔ accepts inputs shape) ↔
      ((∀ x ∈ inputs, joins x) → OrderSettled layout inputs) := by
  have hself := h inputs (List.Perm.refl _)
  constructor
  · intro horder hjoins
    apply reduces_perm_iff.mp
    intro inputs' hperm shape
    have hjoins' : ∀ x ∈ inputs', joins x := fun x hx => hjoins x (hperm.mem_iff.mp hx)
    have hiff := horder inputs' hperm shape
    rw [h inputs' hperm, hself] at hiff
    exact ⟨fun hr => (hiff.mp ⟨hr, hjoins'⟩).1, fun hr => (hiff.mpr ⟨hr, hjoins⟩).1⟩
  · intro hsettled inputs' hperm shape
    rw [h inputs' hperm, hself]
    have hsame : (∀ x ∈ inputs', joins x) ↔ ∀ x ∈ inputs, joins x :=
      ⟨fun hall x hx => hall x (hperm.mem_iff.mpr hx), fun hall x hx => hall x (hperm.mem_iff.mp hx)⟩
    rw [hsame]
    apply and_congr_left
    intro hjoins
    exact reduces_perm_iff.mpr (hsettled hjoins) inputs' hperm shape

/-- **Input order.**  The order of the inputs decides neither whether a reduction accepts them
nor its output shape, exactly if their communicators or layouts differ, their shapes do not
broadcast, none has a zero extent, or those without one have a representable shape. -/
theorem input_order_iff :
    (∀ inputs : List (PencilArrayView α N M),
      (∀ inputs' : List (PencilArrayView α N M), inputs'.Perm inputs → ∀ shape,
        AcceptsMany congruent inputs' shape ↔ AcceptsMany congruent inputs shape) ↔
      ((∀ input ∈ inputs, congruent input.pencil.topology = true) →
        OrderSettled viewLayout inputs)) ∧
    ∀ inputs : List (AnyView N M), inputs.length = 3 →
      ((∀ inputs' : List (AnyView N M), inputs'.Perm inputs → ∀ shape,
        AcceptsTriple congruent inputs' shape ↔ AcceptsTriple congruent inputs shape) ↔
      ((∀ input ∈ inputs, congruent input.view.pencil.topology = true) →
        OrderSettled AnyView.layout inputs)) := by
  constructor
  · intro inputs
    exact perm_accepts_iff fun _ _ _ => acceptsMany_iff
  · intro inputs hlength
    refine perm_accepts_iff fun inputs' hperm shape => ?_
    obtain ⟨a, b, d, rfl⟩ := List.length_eq_three.mp (hperm.length_eq.trans hlength)
    exact acceptsTriple_iff

/-- One point on one rank. -/
def onePoint : Pencil 1 1 :=
  buildPencil oneRank (fun _ => 1) ⟨![0], fun a b _ => Subsingleton.elim a b, Nat.one_pos⟩
    AxisPermutation.identity (by decide) (by decide)

/-- Elements of no size. -/
def unitView (dims : List ℕ) (hfit : dims.prod < usizeLimit) : PencilArrayView Unit 1 1 where
  pencil := onePoint
  extraShape := ⟨dims, dims.prod, checkedProduct_of_lt hfit⟩
  storage := List.replicate dims.prod ()
  storageLen_ok := validateStorageLen_of_length
    (by rw [List.length_replicate]; exact (Nat.mul_one _).symm)
    (by rw [List.length_replicate]; exact hfit)

def rows : PencilArrayView Unit 1 1 := unitView [2 ^ 32, 1, 1] (by decide)

def columns : PencilArrayView Unit 1 1 := unitView [1, 2 ^ 32, 1] (by decide)

def layers : PencilArrayView Unit 1 1 := unitView [1, 1, 0] (by decide)

/-- With the empty input last, the shape of the two before it is too large. -/
theorem input_order_matters :
    ([layers, rows, columns].Perm [rows, columns, layers] ∧
      AcceptsMany (fun _ => true) [layers, rows, columns] [2 ^ 32, 2 ^ 32, 0] ∧
      ¬ AcceptsMany (fun _ => true) [rows, columns, layers] [2 ^ 32, 2 ^ 32, 0]) ∧
    AcceptsTriple (fun _ => true) [⟨_, layers⟩, ⟨_, rows⟩, ⟨_, columns⟩] [2 ^ 32, 2 ^ 32, 0] ∧
      ¬ AcceptsTriple (fun _ => true) [⟨_, rows⟩, ⟨_, columns⟩, ⟨_, layers⟩]
        [2 ^ 32, 2 ^ 32, 0] := by
  have hbroadcast : IsBroadcast [[1, 1, 0], [2 ^ 32, 1, 1], [1, 2 ^ 32, 1]]
      [2 ^ 32, 2 ^ 32, 0] := ⟨by decide, by decide⟩
  have hcount : CountFits onePoint [2 ^ 32, 2 ^ 32, 0] := ⟨0, by decide, by decide, by decide⟩
  have hpartials : PartialsFit [[1, 1, 0]] [[2 ^ 32, 1, 1], [1, 2 ^ 32, 1]] := by
    intro k _ part hpart
    have hzero : 0 ∈ part := hpart.zero_mem (show [1, 1, 0] ∈ _ by simp) (by decide)
    rw [List.prod_eq_zero hzero]
    exact usizeLimit_pos
  have htoo : ¬ PartialsFit [[2 ^ 32, 1, 1]] [[1, 2 ^ 32, 1], [1, 1, 0]] := by
    intro h
    have hpart : IsBroadcast [[2 ^ 32, 1, 1], [1, 2 ^ 32, 1]] [2 ^ 32, 2 ^ 32, 1] :=
      ⟨by decide, by decide⟩
    exact absurd (h 1 (by decide) _ hpart) (by decide)
  refine ⟨⟨?_, ?_, ?_⟩, ?_, ?_⟩
  · show ([layers] ++ [rows, columns]).Perm ([rows, columns] ++ [layers])
    exact List.perm_append_comm
  · refine acceptsMany_iff.mpr ⟨⟨?_, hbroadcast, ⟨layers, by simp, hcount⟩, hpartials⟩,
      fun _ _ => rfl⟩
    intro x hx y hy
    simp only [List.mem_cons, List.not_mem_nil, or_false] at hx hy
    rcases hx with rfl | rfl | rfl <;> rcases hy with rfl | rfl | rfl <;> rfl
  · intro h
    exact htoo (acceptsMany_iff.mp h).1.partials
  · refine acceptsTriple_iff.mpr ⟨⟨?_, hbroadcast, ⟨⟨_, layers⟩, by simp, hcount⟩, hpartials⟩,
      fun _ _ => rfl⟩
    intro x hx y hy
    simp only [List.mem_cons, List.not_mem_nil, or_false] at hx hy
    rcases hx with rfl | rfl | rfl <;> rcases hy with rfl | rfl | rfl <;> rfl
  · intro h
    exact htoo (acceptsTriple_iff.mp h).1.partials

end PencilRs.Analysis
