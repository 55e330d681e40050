import PencilRs.Analysis.Broadcast

/-!
# Broadcasting reductions

A plan follows the shape rule, and the traversals for pairs, triples and slices of views present
the inputs at the clipped indices, for every output position once, in the storage order of the
output.
-/

set_option autoImplicit false

namespace PencilRs.Analysis

open PencilRs.Computation PencilRs.Model

variable {N M : ℕ} {α β δ γ : Type}

/-! ## What a traversal presents -/

/-- What an input presents for output position `(e, x)`. -/
def clippedElement (view : PencilArrayView α N M) (e : List ℕ) (x : Fin N → ℕ) : Option α :=
  view.getLocal (clip view.extraShape.dimensions e) x

/-- `visited` has one entry for every output position, in the storage order of the output; the
entry of `(e, x)` is `element e x`. -/
structure Presents (p : Pencil N M) (outShape : ExtraShape)
    (element : List ℕ → (Fin N → ℕ) → Option γ) (visited : List γ) : Prop where
  length : visited.length = outShape.elementCount * p.localLen
  once : ∀ i < visited.length, ∃! q : List ℕ × (Fin N → ℕ),
    localOffset p outShape q.1 q.2 = .ok i
  element : ∀ e x i, localOffset p outShape e x = .ok i →
    ∃ v, visited[i]? = some v ∧ element e x = some v

/-- What is presented is determined by the shape and the inputs. -/
theorem Presents.unique {p : Pencil N M} {outShape : ExtraShape}
    {element : List ℕ → (Fin N → ℕ) → Option γ} {visited visited' : List γ}
    (h : Presents p outShape element visited) (h' : Presents p outShape element visited') :
    visited = visited' := by
  apply List.ext_getElem? 
  intro i
  by_cases hi : i < visited.length
  · obtain ⟨⟨e, x⟩, hq, _⟩ := h.once i hi
    obtain ⟨v, hv, hev⟩ := h.element e x i hq
    obtain ⟨v', hv', hev'⟩ := h'.element e x i hq
    rw [hv, hv', ← hev, ← hev']
  · have hi' : ¬ i < visited'.length := by rwa [h'.length, ← h.length]
    rw [List.getElem?_eq_none (not_lt.mp hi), List.getElem?_eq_none (not_lt.mp hi')]

/-- The same elements, each seen through `g`. -/
theorem Presents.map {γ' : Type} {p : Pencil N M} {outShape : ExtraShape}
    {element : List ℕ → (Fin N → ℕ) → Option γ} {visited : List γ}
    (h : Presents p outShape element visited) (g : γ → γ') :
    Presents p outShape (fun e x => (element e x).map g) (visited.map g) where
  length := by rw [List.length_map, h.length]
  once := by
    rw [List.length_map]
    exact h.once
  element := by
    intro e x i hi
    obtain ⟨v, hv, hev⟩ := h.element e x i hi
    exact ⟨g v, by rw [List.getElem?_map, hv]; rfl, by rw [hev]; rfl⟩

theorem indicesOf_rowMajorValue {shape e : List ℕ} (h : ValidIndices shape e) :
    indicesOf shape (rowMajorValue shape e) = e :=
  rowMajorValue_inj (validIndices_indicesOf (rowMajorValue_lt h)) h
    (rowMajorValue_indicesOf (rowMajorValue_lt h))

section Views

variable {p : Pencil N M} {outShape : ExtraShape}

/-- What an input presents at output index `n` and spatial position `k`. -/
def presented (view : PencilArrayView α N M) (p : Pencil N M) (outShape : ExtraShape) (n k : ℕ) :
    Option α :=
  elementAt view.storage (rowMajorValue view.extraShape.dimensions
    (clip view.extraShape.dimensions (indicesOf outShape.dimensions n))) p.localLen k

/-- What an input has stored at its clipped index. -/
theorem presented_eq {view : PencilArrayView α N M} (hp : view.pencil = p)
    (h : Broadcasts view.extraShape.dimensions outShape.dimensions) {e : List ℕ} {x : Fin N → ℕ}
    (hvalid : ValidElement p outShape e x) :
    presented view p outShape (rowMajorValue outShape.dimensions e) (layoutOffset p x)
      = clippedElement view e x ∧ (clippedElement view e x).isSome := by
  subst hp
  unfold presented
  rw [indicesOf_rowMajorValue hvalid.1]
  have hclip : ValidElement view.pencil view.extraShape (clip view.extraShape.dimensions e) x :=
    ⟨validIndices_clip h hvalid.1, hvalid.2⟩
  have hlt := elementOffset_lt hclip
  have hfits := view_fits view
  have hoffset := (localOffset_eq_ok hfits).mpr ⟨hclip, rfl⟩
  have hread : clippedElement view e x
      = view.storage[elementOffset view.pencil view.extraShape
          (clip view.extraShape.dimensions e) x]? := by
    unfold clippedElement PencilArrayView.getLocal
    rw [hoffset]
    rfl
  have hmul : checkedMul (rowMajorValue view.extraShape.dimensions
      (clip view.extraShape.dimensions e)) view.pencil.localLen
        = some (rowMajorValue view.extraShape.dimensions
      (clip view.extraShape.dimensions e) * view.pencil.localLen) := by
    unfold elementOffset at hlt
    exact checkedMul_eq_some.mpr ⟨by omega, rfl⟩
  refine ⟨?_, ?_⟩
  · unfold elementAt
    rw [hmul, hread]
    simp only [Option.bind_eq_bind, Option.bind_some]
    rw [checkedAdd_eq_some.mpr ⟨lt_trans hlt hfits, rfl⟩]
    rfl
  · rw [hread, List.getElem?_eq_getElem (by rw [view_storage_length]; exact hlt)]
    rfl

theorem presented_pair {left : PencilArrayView α N M} {right : PencilArrayView β N M}
    (hpl : left.pencil = p) (hpr : right.pencil = p)
    (hl : Broadcasts left.extraShape.dimensions outShape.dimensions)
    (hr : Broadcasts right.extraShape.dimensions outShape.dimensions) {e : List ℕ}
    {x : Fin N → ℕ} (hvalid : ValidElement p outShape e x) :
    (do
      let l ← presented left p outShape (rowMajorValue outShape.dimensions e) (layoutOffset p x)
      let r ← presented right p outShape (rowMajorValue outShape.dimensions e) (layoutOffset p x)
      return (l, r)) = (do
      let l ← clippedElement left e x
      let r ← clippedElement right e x
      return (l, r)) ∧
      (do
        let l ← clippedElement left e x
        let r ← clippedElement right e x
        return (l, r)).isSome := by
  obtain ⟨hleft, hlsome⟩ := presented_eq hpl hl hvalid
  obtain ⟨hright, hrsome⟩ := presented_eq hpr hr hvalid
  rw [hleft, hright]
  obtain ⟨l, hl⟩ := Option.isSome_iff_exists.mp hlsome
  obtain ⟨r, hr⟩ := Option.isSome_iff_exists.mp hrsome
  rw [hl, hr]
  exact ⟨rfl, rfl⟩

theorem presented_triple {a : PencilArrayView α N M} {b : PencilArrayView β N M}
    {d : PencilArrayView δ N M} (hpa : a.pencil = p) (hpb : b.pencil = p) (hpd : d.pencil = p)
    (ha : Broadcasts a.extraShape.dimensions outShape.dimensions)
    (hb : Broadcasts b.extraShape.dimensions outShape.dimensions)
    (hd : Broadcasts d.extraShape.dimensions outShape.dimensions) {e : List ℕ}
    {x : Fin N → ℕ} (hvalid : ValidElement p outShape e x) :
    (do
      let l ← presented a p outShape (rowMajorValue outShape.dimensions e) (layoutOffset p x)
      let m ← presented b p outShape (rowMajorValue outShape.dimensions e) (layoutOffset p x)
      let r ← presented d p outShape (rowMajorValue outShape.dimensions e) (layoutOffset p x)
      return (l, m, r)) = (do
      let l ← clippedElement a e x
      let m ← clippedElement b e x
      let r ← clippedElement d e x
      return (l, m, r)) ∧
      (do
        let l ← clippedElement a e x
        let m ← clippedElement b e x
        let r ← clippedElement d e x
        return (l, m, r)).isSome := by
  obtain ⟨hfirst, hlsome⟩ := presented_eq hpa ha hvalid
  obtain ⟨hsecond, hmsome⟩ := presented_eq hpb hb hvalid
  obtain ⟨hthird, hrsome⟩ := presented_eq hpd hd hvalid
  rw [hfirst, hsecond, hthird]
  obtain ⟨l, hl⟩ := Option.isSome_iff_exists.mp hlsome
  obtain ⟨m, hm⟩ := Option.isSome_iff_exists.mp hmsome
  obtain ⟨r, hr⟩ := Option.isSome_iff_exists.mp hrsome
  rw [hl, hm, hr]
  exact ⟨rfl, rfl⟩

theorem presented_many {inputs : List (PencilArrayView α N M)}
    (h : ∀ input ∈ inputs, input.pencil = p ∧
      Broadcasts input.extraShape.dimensions outShape.dimensions) {e : List ℕ}
    {x : Fin N → ℕ} (hvalid : ValidElement p outShape e x) :
    (inputs.mapM fun input =>
        presented input p outShape (rowMajorValue outShape.dimensions e) (layoutOffset p x))
      = inputs.mapM (fun input => clippedElement input e x) ∧
      (inputs.mapM fun input => clippedElement input e x).isSome :=
  ⟨mapM_congr fun input hmem => (presented_eq (h input hmem).1 (h input hmem).2 hvalid).1,
    mapM_isSome fun input hmem => (presented_eq (h input hmem).1 (h input hmem).2 hvalid).2⟩

/-- An empty output has nothing to present. -/
theorem presents_nil (hfit : outShape.elementCount * p.localLen < usizeLimit)
    {element : List ℕ → (Fin N → ℕ) → Option γ} (h : outShape.elementCount * p.localLen = 0) :
    Presents p outShape element [] where
  length := h.symm
  once := by simp
  element := by
    intro e x i hi
    have hlt := elementOffset_lt ((localOffset_eq_ok hfit).mp hi).1
    rw [h] at hlt
    exact absurd hlt (Nat.not_lt_zero _)

/-- **A traversal that presents `element`** at every round visits it at every position. -/
theorem traversal_presents (hfit : outShape.elementCount * p.localLen < usizeLimit)
    {element : List ℕ → (Fin N → ℕ) → Option γ} (present : ℕ → ℕ → Option γ)
    (hpresent : ∀ e x, ValidElement p outShape e x →
      present (rowMajorValue outShape.dimensions e) (layoutOffset p x) = element e x ∧
        (element e x).isSome)
    {round : List γ → ℕ → Option (List γ)}
    (hround : ∀ n < outShape.elementCount, ∀ visited, round visited n
      = (List.range p.localLen).foldlM (fun visited k =>
          (present n k).map fun v => visited ++ [v]) visited) :
    ∃ visited, (List.range outShape.elementCount).foldlM round [] = some visited ∧
      Presents p outShape element visited := by
  have hsome : ∀ n < outShape.elementCount, ∀ k < p.localLen, (present n k).isSome := by
    intro n hn k hk
    rw [elementCount_eq] at hn
    obtain ⟨x, hx, rfl⟩ := exists_layoutOffset hk
    obtain ⟨heq, hsome⟩ := hpresent _ x ⟨validIndices_indicesOf hn, hx⟩
    rw [rowMajorValue_indicesOf hn] at heq
    rwa [heq]
  obtain ⟨visited, hrun, hvisited⟩ := foldlM_push_nested _ _ present round hround hsome
  have hlength : visited.length = outShape.elementCount * p.localLen := by
    have := congrArg List.length hvisited
    simpa using this
  refine ⟨visited, hrun, hlength, ?_, ?_⟩
  · intro i hi
    rw [hlength] at hi
    obtain ⟨e, x, hvalid, hoffset⟩ := exists_elementOffset hi
    refine ⟨(e, x), (localOffset_eq_ok hfit).mpr ⟨hvalid, hoffset.symm⟩, ?_⟩
    rintro ⟨e', x'⟩ h'
    obtain ⟨hvalid', hoffset'⟩ := (localOffset_eq_ok hfit).mp h'
    obtain ⟨rfl, rfl⟩ := elementOffset_inj hvalid hvalid' (hoffset.trans hoffset')
    rfl
  · intro e x i hi
    obtain ⟨hvalid, rfl⟩ := (localOffset_eq_ok hfit).mp hi
    obtain ⟨heq, hsome⟩ := hpresent e x hvalid
    obtain ⟨v, hv⟩ := Option.isSome_iff_exists.mp hsome
    have hx := layoutOffset_lt hvalid.2
    have hentry := congrArg (·[elementOffset p outShape e x]?) hvisited
    have hdiv : elementOffset p outShape e x / p.localLen
        = rowMajorValue outShape.dimensions e := by
      unfold elementOffset
      rw [Nat.mul_comm, Nat.mul_add_div (by omega), Nat.div_eq_of_lt hx, Nat.add_zero]
    have hmod : elementOffset p outShape e x % p.localLen = layoutOffset p x := by
      unfold elementOffset
      rw [Nat.mul_comm, Nat.mul_add_mod, Nat.mod_eq_of_lt hx]
    simp only [List.getElem?_map, List.getElem?_range (elementOffset_lt hvalid), Option.map_some,
      hdiv, hmod, heq, hv] at hentry
    obtain ⟨w, hw, hwv⟩ := Option.map_eq_some_iff.mp hentry
    exact ⟨v, by rw [hw, Option.some.inj hwv], hv⟩

end Views

/-! ## Plans -/

theorem ExtraShape.countable {shape : ExtraShape} (h : shape.elementCount ≠ 0) :
    Countable shape.dimensions := by
  have hcount := elementCount_eq shape
  refine ⟨pos_of_prod_ne_zero (hcount ▸ h), ?_⟩
  rw [← hcount]
  exact checkedProduct_lt shape.elementCount_ok

theorem countable_input {input outShape : ExtraShape}
    (h : Broadcasts input.dimensions outShape.dimensions) (hne : outShape.elementCount ≠ 0) :
    Countable input.dimensions := by
  refine ⟨h.pos (ExtraShape.countable hne).pos, ?_⟩
  rw [← elementCount_eq]
  exact checkedProduct_lt input.elementCount_ok

/-- A shape whose count is known. -/
def shapeOf (shape : List ℕ) {n : ℕ} (h : checkedProduct shape = .ok n) : ExtraShape :=
  ⟨shape, n, h⟩

theorem extraCount_toOption {shape : List ℕ} {n : ℕ} (h : (extraCount shape).toOption = some n) :
    checkedProduct shape = .ok n := by
  unfold extraCount at h
  cases hproduct : checkedProduct shape with
  | error e =>
    rw [hproduct] at h
    contradiction
  | ok m =>
    rw [hproduct] at h
    cases h
    rfl

/-- **The plan for a pair.** -/
theorem mapPlan_ok {grants : ℕ → Bool} {left : PencilArrayView α N M}
    {right : PencilArrayView β N M} {plan : MapPlan} (h : mapPlan grants left right = .ok plan) :
    right.pencil = left.pencil ∧ ∃ outShape : ExtraShape, outShape.dimensions = plan.shape ∧
      IsBroadcast [left.extraShape.dimensions, right.extraShape.dimensions] plan.shape ∧
      plan.spatial = left.pencil.localLen ∧
      plan.count = left.pencil.localLen * outShape.elementCount ∧ plan.count < usizeLimit ∧
      (outShape.elementCount ≠ 0 → plan.leftStrides = rowStrides left.extraShape.dimensions ∧
        plan.rightStrides = rowStrides right.extraShape.dimensions ∧
        plan.outputStrides = rowStrides plan.shape) := by
  unfold mapPlan at h
  obtain ⟨shape, hshape, h⟩ := bind_eq_ok.mp h
  obtain ⟨_, hlayout, h⟩ := bind_eq_ok.mp h
  obtain ⟨dims, hdims, h⟩ := bind_eq_ok.mp h
  rw [okOr_eq_ok.mp hdims] at hshape
  obtain ⟨⟨leftStrides, rightStrides, outputStrides⟩, hstrides, h⟩ := bind_eq_ok.mp h
  obtain ⟨count, hcount, h⟩ := bind_eq_ok.mp h
  obtain ⟨globalCount, _, h⟩ := bind_eq_ok.mp h
  cases h
  obtain ⟨n, hextra, hcount⟩ := Option.bind_eq_some_iff.mp (okOr_eq_ok.mp hcount)
  obtain ⟨hfits, rfl⟩ := checkedMul_eq_some.mp hcount
  have hsame := ensure_eq_ok.mp hlayout
  have hbroadcast := broadcastShape_isBroadcast hshape
  refine ⟨(Pencil.eq_of_sameLayout hsame).symm, shapeOf dims (extraCount_toOption hextra), rfl,
    hbroadcast, rfl, rfl, hfits, ?_⟩
  intro hne
  have hne : n ≠ 0 := hne
  rw [hextra, if_neg (by simpa using hne)] at hstrides
  obtain ⟨l, hl, hstrides⟩ := bind_eq_ok.mp hstrides
  obtain ⟨r, hr, hstrides⟩ := bind_eq_ok.mp hstrides
  obtain ⟨o, ho, hstrides⟩ := bind_eq_ok.mp hstrides
  cases hstrides
  have hinput : ∀ {input : ExtraShape},
      input.dimensions ∈ [left.extraShape.dimensions, right.extraShape.dimensions] →
      Countable input.dimensions := fun hmem =>
    countable_input (hbroadcast.broadcasts _ hmem)
      (show (shapeOf dims (extraCount_toOption hextra)).elementCount ≠ 0 from hne)
  exact ⟨stridesForDims_ok (hinput (by simp)) hl, stridesForDims_ok (hinput (by simp)) hr,
    stridesForDims_ok (ExtraShape.countable
      (show (shapeOf dims (extraCount_toOption hextra)).elementCount ≠ 0 from hne)) ho⟩

/-- **The pair traversal.** -/
theorem forEachPair_presents {left : PencilArrayView α N M} {right : PencilArrayView β N M}
    {grants : ℕ → Bool} {plan : MapPlan} (h : mapPlan grants left right = .ok plan) :
    ∃ outShape : ExtraShape, outShape.dimensions = plan.shape ∧
      IsBroadcast [left.extraShape.dimensions, right.extraShape.dimensions] plan.shape ∧
      ∃ visited, forEachPair left right plan = some visited ∧
        Presents left.pencil outShape (fun e x => do
          let l ← clippedElement left e x
          let r ← clippedElement right e x
          return (l, r)) visited := by
  obtain ⟨hpencil, outShape, hdims, hbroadcast, hspatial, hcount, hfits, hstrides⟩ :=
    mapPlan_ok h
  refine ⟨outShape, hdims, hbroadcast, ?_⟩
  rw [hcount, Nat.mul_comm] at hfits
  unfold forEachPair
  rw [hspatial, hcount]
  by_cases hzero : left.pencil.localLen * outShape.elementCount = 0
  · rw [if_pos hzero]
    exact ⟨[], rfl, presents_nil hfits (by rw [Nat.mul_comm, hzero])⟩
  · rw [if_neg hzero]
    obtain ⟨hlocal, hne⟩ := Nat.mul_ne_zero_iff.mp hzero
    obtain ⟨hleft, hright, hout⟩ := hstrides hne
    have hshape : Countable plan.shape := hdims ▸ ExtraShape.countable hne
    have hbl : Broadcasts left.extraShape.dimensions outShape.dimensions :=
      hdims ▸ hbroadcast.broadcasts _ (by simp)
    have hbr : Broadcasts right.extraShape.dimensions outShape.dimensions :=
      hdims ▸ hbroadcast.broadcasts _ (by simp)
    have hextra : checkedDiv (left.pencil.localLen * outShape.elementCount) left.pencil.localLen
        = some outShape.elementCount := by
      unfold checkedDiv
      rw [if_neg hlocal, Nat.mul_div_cancel_left _ (Nat.pos_of_ne_zero hlocal)]
    rw [hextra]
    simp only [Option.bind_eq_bind, Option.bind_some]
    refine traversal_presents hfits (fun n k => do
      let l ← presented left left.pencil outShape n k
      let r ← presented right left.pencil outShape n k
      return (l, r)) (fun e x hvalid => presented_pair rfl hpencil hbl hbr hvalid) ?_
    · intro n hn visited
      have hn : n < plan.shape.prod := by rwa [← hdims, ← elementCount_eq]
      have hinput : ∀ {input : ExtraShape}, Broadcasts input.dimensions outShape.dimensions →
          Countable input.dimensions := fun h => countable_input h hne
      have hloop := foldlM_both
        (foldlM_addAxis hshape (hinput hbl) (hdims ▸ hbl) hn)
        (foldlM_addAxis hshape (hinput hbr) (hdims ▸ hbr) hn)
      have hstep : (fun (state : ℕ × ℕ) axis => do
            let index ← axisIndex plan.shape plan.outputStrides n axis
            let li ← addAxis left.extraShape.dimensions plan.leftStrides axis index state.1
            let ri ← addAxis right.extraShape.dimensions plan.rightStrides axis index state.2
            return (li, ri))
          = fun (state : ℕ × ℕ) axis => do
            let li ← (do
              let index ← axisIndex plan.shape (rowStrides plan.shape) n axis
              addAxis left.extraShape.dimensions (rowStrides left.extraShape.dimensions) axis
                index state.1)
            let ri ← (do
              let index ← axisIndex plan.shape (rowStrides plan.shape) n axis
              addAxis right.extraShape.dimensions (rowStrides right.extraShape.dimensions) axis
                index state.2)
            return (li, ri) := by
        funext state axis
        rw [hleft, hright, hout]
        cases axisIndex plan.shape (rowStrides plan.shape) n axis <;> rfl
      unfold presented
      rw [hdims]
      show (do
        let state ← (List.range plan.shape.length).foldlM (fun (state : ℕ × ℕ) axis => do
            let index ← axisIndex plan.shape plan.outputStrides n axis
            let li ← addAxis left.extraShape.dimensions plan.leftStrides axis index state.1
            let ri ← addAxis right.extraShape.dimensions plan.rightStrides axis index state.2
            return (li, ri)) (0, 0)
        (List.range left.pencil.localLen).foldlM (fun visited k => do
          let l ← elementAt left.storage state.1 left.pencil.localLen k
          let r ← elementAt right.storage state.2 left.pencil.localLen k
          return visited ++ [(l, r)]) visited) = _
      rw [hstep, hloop]
      simp only [Option.bind_eq_bind, Option.bind_some, Option.map_bind, Option.pure_def,
        Option.map_some, Function.comp_def]

theorem stridesTriple_ok {grants : ℕ → Bool} {a b d : ExtraShape} {shape : List ℕ}
    {strides : List ℕ × List ℕ × List ℕ} {outputStrides : List ℕ}
    (ha : Countable a.dimensions) (hb : Countable b.dimensions) (hd : Countable d.dimensions)
    (hshape : Countable shape)
    (h : (do
      let aStrides ← stridesForDims (grants 2) a.dimensions
      let bStrides ← stridesForDims (grants 3) b.dimensions
      let dStrides ← stridesForDims (grants 4) d.dimensions
      let outputStrides ← stridesForDims (grants 5) shape
      return ((aStrides, bStrides, dStrides), outputStrides) : Except CollectiveError _)
        = .ok (strides, outputStrides)) :
    strides = (rowStrides a.dimensions, rowStrides b.dimensions, rowStrides d.dimensions) ∧
      outputStrides = rowStrides shape := by
  obtain ⟨sa, hsa, h⟩ := bind_eq_ok.mp h
  obtain ⟨sb, hsb, h⟩ := bind_eq_ok.mp h
  obtain ⟨sd, hsd, h⟩ := bind_eq_ok.mp h
  obtain ⟨so, hso, h⟩ := bind_eq_ok.mp h
  cases h
  rw [stridesForDims_ok ha hsa, stridesForDims_ok hb hsb, stridesForDims_ok hd hsd,
    stridesForDims_ok hshape hso]
  exact ⟨rfl, rfl⟩

theorem broadcastShape3_isBroadcast {grants : ℕ → Bool} {a b d : ExtraShape} {shape : List ℕ}
    (h : broadcastShape3 grants a b d = .ok (some shape)) :
    IsBroadcast [a.dimensions, b.dimensions, d.dimensions] shape := by
  unfold broadcastShape3 at h
  obtain ⟨ab, hab, h⟩ := bind_eq_ok.mp h
  obtain ⟨dims, hdims, h⟩ := bind_eq_ok.mp h
  obtain ⟨mid, hmid, h⟩ := bind_eq_ok.mp h
  rw [okOr_eq_ok.mp hdims] at hab
  have hmid : mid.dimensions = dims := by
    unfold ExtraShape.new at hmid
    split at hmid
    · contradiction
    · cases hmid
      rfl
  have hlast := broadcastShape_isBroadcast h
  rw [hmid] at hlast
  exact (broadcastShape_isBroadcast hab).snoc hlast

/-- **The plan for a triple.** -/
theorem mapPlan3_ok {grants : ℕ → Bool} {congruent : MpiTopology M → Bool}
    {a : PencilArrayView α N M} {b : PencilArrayView β N M} {d : PencilArrayView δ N M}
    {plan : MapPlan3} (h : mapPlan3 grants congruent a b d = .ok plan) :
    b.pencil = a.pencil ∧ d.pencil = a.pencil ∧
      ∃ outShape : ExtraShape, outShape.dimensions = plan.shape ∧
        IsBroadcast [a.extraShape.dimensions, b.extraShape.dimensions, d.extraShape.dimensions]
          plan.shape ∧
        plan.spatial = a.pencil.localLen ∧
        plan.count = a.pencil.localLen * outShape.elementCount ∧ plan.count < usizeLimit ∧
        (outShape.elementCount ≠ 0 →
          plan.strides = (rowStrides a.extraShape.dimensions, rowStrides b.extraShape.dimensions,
            rowStrides d.extraShape.dimensions) ∧
          plan.outputStrides = rowStrides plan.shape) := by
  unfold mapPlan3 at h
  obtain ⟨shape, hshape, h⟩ := bind_eq_ok.mp h
  obtain ⟨_, hlayout, h⟩ := bind_eq_ok.mp h
  obtain ⟨dims, hdims, h⟩ := bind_eq_ok.mp h
  rw [mapError_eq_ok, okOr_eq_ok.mp hdims] at hshape
  obtain ⟨⟨strides, outputStrides⟩, hstrides, h⟩ := bind_eq_ok.mp h
  obtain ⟨n, hextra, h⟩ := bind_eq_ok.mp h
  obtain ⟨count, hcount, h⟩ := bind_eq_ok.mp h
  obtain ⟨globalCount, _, h⟩ := bind_eq_ok.mp h
  cases h
  rw [mapError_eq_ok] at hstrides
  rw [okOr_eq_ok] at hextra
  obtain ⟨hfits, rfl⟩ := checkedMul_eq_some.mp (okOr_eq_ok.mp hcount)
  have hlayout := ensure_eq_ok.mp hlayout
  simp only [Bool.and_eq_true] at hlayout
  obtain ⟨⟨⟨⟨hab, had⟩, _⟩, _⟩, _⟩ := hlayout
  have hbroadcast := broadcastShape3_isBroadcast hshape
  refine ⟨(Pencil.eq_of_sameLayout hab).symm, (Pencil.eq_of_sameLayout had).symm,
    shapeOf dims (extraCount_toOption hextra), rfl, hbroadcast, rfl, rfl, hfits, ?_⟩
  intro hne
  have hne' : n ≠ 0 := hne
  rw [hextra, if_neg (by simpa using hne')] at hstrides
  exact stridesTriple_ok (countable_input (hbroadcast.broadcasts _ (by simp)) hne)
    (countable_input (hbroadcast.broadcasts _ (by simp)) hne)
    (countable_input (hbroadcast.broadcasts _ (by simp)) hne) (ExtraShape.countable hne) hstrides

theorem tripleIndex_eq {dims shape : List ℕ} {linear : ℕ} (hshape : Countable shape)
    (hdims : Countable dims) (h : Broadcasts dims shape) (hlinear : linear < shape.prod) :
    tripleIndex dims (rowStrides dims) shape (rowStrides shape) linear
      = some (rowMajorValue dims (clip dims (indicesOf shape linear))) := by
  unfold tripleIndex
  rw [h.length_eq]
  exact foldlM_addAxis hshape hdims h hlinear

/-- **The triple traversal.** -/
theorem forEachTriple_presents {grants : ℕ → Bool} {congruent : MpiTopology M → Bool}
    {a : PencilArrayView α N M} {b : PencilArrayView β N M} {d : PencilArrayView δ N M}
    {plan : MapPlan3} (h : mapPlan3 grants congruent a b d = .ok plan) :
    ∃ outShape : ExtraShape, outShape.dimensions = plan.shape ∧
      IsBroadcast [a.extraShape.dimensions, b.extraShape.dimensions, d.extraShape.dimensions]
        plan.shape ∧
      ∃ visited, forEachTriple a b d plan = some visited ∧
        Presents a.pencil outShape (fun e x => do
          let l ← clippedElement a e x
          let m ← clippedElement b e x
          let r ← clippedElement d e x
          return (l, m, r)) visited := by
  obtain ⟨hpb, hpd, outShape, hdims, hbroadcast, hspatial, hcount, hfits, hstrides⟩ :=
    mapPlan3_ok h
  refine ⟨outShape, hdims, hbroadcast, ?_⟩
  rw [hcount, Nat.mul_comm] at hfits
  have hba : Broadcasts a.extraShape.dimensions outShape.dimensions :=
    hdims ▸ hbroadcast.broadcasts _ (by simp)
  have hbb : Broadcasts b.extraShape.dimensions outShape.dimensions :=
    hdims ▸ hbroadcast.broadcasts _ (by simp)
  have hbd : Broadcasts d.extraShape.dimensions outShape.dimensions :=
    hdims ▸ hbroadcast.broadcasts _ (by simp)
  unfold forEachTriple
  rw [hspatial, hcount]
  by_cases hzero : a.pencil.localLen = 0
  · rw [if_pos hzero]
    exact ⟨[], rfl, presents_nil hfits (by rw [hzero, Nat.mul_zero])⟩
  · rw [if_neg hzero]
    have hextra : checkedDiv (a.pencil.localLen * outShape.elementCount) a.pencil.localLen
        = some outShape.elementCount := by
      unfold checkedDiv
      rw [if_neg hzero, Nat.mul_div_cancel_left _ (Nat.pos_of_ne_zero hzero)]
    rw [hextra]
    simp only [Option.bind_eq_bind, Option.bind_some]
    refine traversal_presents hfits (fun n k => do
      let l ← presented a a.pencil outShape n k
      let m ← presented b a.pencil outShape n k
      let r ← presented d a.pencil outShape n k
      return (l, m, r)) (fun e x hvalid => presented_triple rfl hpb hpd hba hbb hbd hvalid) ?_
    · intro n hn visited
      have hne : outShape.elementCount ≠ 0 := Nat.ne_zero_of_lt hn
      obtain ⟨hs, hout⟩ := hstrides hne
      have hn : n < plan.shape.prod := by rwa [← hdims, ← elementCount_eq]
      have hshape : Countable plan.shape := hdims ▸ ExtraShape.countable hne
      rw [hs, hout, tripleIndex_eq hshape (countable_input hba hne) (hdims ▸ hba) hn,
        tripleIndex_eq hshape (countable_input hbb hne) (hdims ▸ hbb) hn,
        tripleIndex_eq hshape (countable_input hbd hne) (hdims ▸ hbd) hn]
      unfold presented
      rw [hdims]
      simp only [Option.bind_eq_bind, Option.bind_some, Option.map_bind, Option.pure_def,
        Option.map_some, Function.comp_def]

theorem ExtraShape.dimensions_of_new {dims : List ℕ} {shape : ExtraShape}
    (h : ExtraShape.new dims = .ok shape) : shape.dimensions = dims := by
  unfold ExtraShape.new at h
  split at h
  · contradiction
  · cases h
    rfl

/-- The loop over the inputs follows the shape rule. -/
theorem foldlM_broadcastStep {grants : ℕ → Bool} {entries : List (PencilArrayView α N M × ℕ)}
    {seen : List (List ℕ)} {mid shape : List ℕ} (hmid : IsBroadcast seen mid)
    (h : entries.foldlM (broadcastStep grants) mid = .ok shape) :
    IsBroadcast (seen ++ entries.map fun entry => entry.1.extraShape.dimensions) shape := by
  induction entries generalizing seen mid with
  | nil =>
    cases h
    simpa using hmid
  | cons entry entries ih =>
    rw [List.foldlM_cons] at h
    obtain ⟨next, hstep, h⟩ := bind_eq_ok.mp h
    unfold broadcastStep at hstep
    obtain ⟨current, hcurrent, hstep⟩ := bind_eq_ok.mp hstep
    obtain ⟨result, hresult, hstep⟩ := bind_eq_ok.mp hstep
    rw [okOr_eq_ok.mp hstep] at hresult
    have hnext := broadcastShape_isBroadcast hresult
    rw [ExtraShape.dimensions_of_new (mapError_eq_ok.mp hcurrent)] at hnext
    have := ih (hmid.snoc hnext) h
    rwa [List.append_assoc] at this

/-- **The plan for a slice of views.** -/
theorem manyPlan_ok {grants : ℕ → Bool} {congruent : MpiTopology M → Bool}
    {first : PencilArrayView α N M} {rest : List (PencilArrayView α N M)} {plan : ManyPlan}
    (h : manyPlan grants congruent (first :: rest) = .ok plan) :
    (∀ input ∈ first :: rest, input.pencil = first.pencil) ∧
      ∃ outShape : ExtraShape, outShape.dimensions = plan.shape ∧
        IsBroadcast ((first :: rest).map fun input => input.extraShape.dimensions) plan.shape ∧
        plan.spatial = first.pencil.localLen ∧ plan.extra = outShape.elementCount ∧
        first.pencil.localLen * outShape.elementCount < usizeLimit ∧
        (outShape.elementCount ≠ 0 →
          plan.strides = (first :: rest).map (fun input => rowStrides input.extraShape.dimensions) ∧
          plan.outputStrides = rowStrides plan.shape) := by
  unfold manyPlan at h
  obtain ⟨_, _, h⟩ := bind_eq_ok.mp h
  obtain ⟨shape, hshape, h⟩ := bind_eq_ok.mp h
  obtain ⟨n, hextra, h⟩ := bind_eq_ok.mp h
  obtain ⟨⟨strides, outputStrides⟩, hstrides, h⟩ := bind_eq_ok.mp h
  obtain ⟨count, hcount, h⟩ := bind_eq_ok.mp h
  obtain ⟨globalCount, _, h⟩ := bind_eq_ok.mp h
  obtain ⟨_, hlayout, h⟩ := bind_eq_ok.mp h
  cases h
  obtain ⟨hfits, rfl⟩ := checkedMul_eq_some.mp (okOr_eq_ok.mp hcount)
  have hlayout := List.all_eq_true.mp (ensure_eq_ok.mp hlayout)
  have hbroadcast : IsBroadcast ((first :: rest).map fun input => input.extraShape.dimensions)
      shape := by
    have hfirst : IsBroadcast [first.extraShape.dimensions] first.extraShape.dimensions :=
      ⟨by simpa using Broadcasts.refl _, fun axis _ => ⟨_, by simp, rfl⟩⟩
    have := foldlM_broadcastStep hfirst hshape
    rwa [map_zipIdx_fst (fun input : PencilArrayView α N M => input.extraShape.dimensions)]
      at this
  refine ⟨fun input hinput => ?_, shapeOf shape (mapError_eq_ok.mp hextra), rfl, hbroadcast, rfl,
    rfl, hfits, ?_⟩
  · have := hlayout input hinput
    simp only [Bool.and_eq_true] at this
    exact Pencil.eq_of_sameLayout this.1
  · intro hne
    have hne' : n ≠ 0 := hne
    rw [if_neg hne'] at hstrides
    obtain ⟨_, _, hstrides⟩ := bind_eq_ok.mp hstrides
    obtain ⟨s, hs, hstrides⟩ := bind_eq_ok.mp hstrides
    obtain ⟨o, ho, hstrides⟩ := bind_eq_ok.mp hstrides
    cases hstrides
    refine ⟨?_, stridesForDims_ok (ExtraShape.countable hne) ho⟩
    have := mapM_ok (g := fun entry : PencilArrayView α N M × ℕ =>
      rowStrides entry.1.extraShape.dimensions) ?_ hs
    · rw [this, map_zipIdx_fst fun input : PencilArrayView α N M =>
        rowStrides input.extraShape.dimensions]
    · rintro ⟨input, k⟩ hmem strides hok
      have hinput : input ∈ first :: rest := List.fst_mem_of_mem_zipIdx hmem
      exact stridesForDims_ok (countable_input
        (hbroadcast.broadcasts _ (List.mem_map_of_mem hinput)) hne) hok

/-- **The traversal of a slice of views.** -/
theorem forEachMany_presents {grants : ℕ → Bool} {congruent : MpiTopology M → Bool}
    {first : PencilArrayView α N M} {rest : List (PencilArrayView α N M)} {plan : ManyPlan}
    (h : manyPlan grants congruent (first :: rest) = .ok plan) :
    ∃ outShape : ExtraShape, outShape.dimensions = plan.shape ∧
      IsBroadcast ((first :: rest).map fun input => input.extraShape.dimensions) plan.shape ∧
      ∃ visited, forEachMany (first :: rest) plan = some visited ∧
        Presents first.pencil outShape
          (fun e x => (first :: rest).mapM fun input => clippedElement input e x) visited := by
  obtain ⟨hpencil, outShape, hdims, hbroadcast, hspatial, hextra, hfits, hstrides⟩ :=
    manyPlan_ok h
  refine ⟨outShape, hdims, hbroadcast, ?_⟩
  rw [Nat.mul_comm] at hfits
  generalize hinputs : first :: rest = inputs at *
  have hb : ∀ input ∈ inputs, Broadcasts input.extraShape.dimensions outShape.dimensions :=
    fun input hmem => hdims ▸ hbroadcast.broadcasts _ (List.mem_map_of_mem hmem)
  unfold forEachMany
  rw [hspatial]
  by_cases hzero : first.pencil.localLen = 0
  · rw [if_pos hzero]
    exact ⟨[], rfl, presents_nil hfits (by rw [hzero, Nat.mul_zero])⟩
  · rw [if_neg hzero, hextra]
    refine traversal_presents hfits (fun n k => inputs.mapM fun input =>
      presented input first.pencil outShape n k) (fun e x hvalid =>
      presented_many (fun input hmem => ⟨hpencil input hmem, hb input hmem⟩) hvalid) ?_
    · intro n hn visited
      have hne : outShape.elementCount ≠ 0 := Nat.ne_zero_of_lt hn
      obtain ⟨hs, hout⟩ := hstrides hne
      have hn : n < plan.shape.prod := by rwa [← hdims, ← elementCount_eq]
      have hshape : Countable plan.shape := hdims ▸ ExtraShape.countable hne
      have hfitsInput : ∀ input ∈ inputs, rowMajorValue input.extraShape.dimensions
          (clip input.extraShape.dimensions (indicesOf plan.shape n)) * first.pencil.localLen
            < usizeLimit := by
        intro input hmem
        have hlt := rowMajorValue_lt (validIndices_clip (hdims ▸ hb input hmem)
          (validIndices_indicesOf hn))
        have hview := view_fits input
        rw [elementCount_eq, hpencil input hmem] at hview
        exact (Nat.mul_le_mul_right _ hlt.le).trans_lt hview
      have hread : ∀ input ∈ inputs, ∀ k, presented input first.pencil outShape n k
          = (checkedAdd (rowMajorValue input.extraShape.dimensions
              (clip input.extraShape.dimensions (indicesOf plan.shape n))
                * first.pencil.localLen) k).bind fun position => input.storage[position]? := by
        intro input hmem k
        unfold presented elementAt
        rw [hdims, checkedMul_eq_some.mpr ⟨hfitsInput input hmem, rfl⟩]
        rfl
      have hoffsets : inputs.zipIdx.mapM (fun entry => do
            let i ← (List.range plan.shape.length).foldlM (fun i axis => do
              let x ← axisIndex plan.shape plan.outputStrides n axis
              let strides ← plan.strides[entry.2]?
              addAxis entry.1.extraShape.dimensions strides axis x i) 0
            checkedMul i first.pencil.localLen)
          = some (inputs.map fun input => rowMajorValue input.extraShape.dimensions
              (clip input.extraShape.dimensions (indicesOf plan.shape n))
                * first.pencil.localLen) := by
        rw [← map_zipIdx_fst (fun input => rowMajorValue input.extraShape.dimensions
          (clip input.extraShape.dimensions (indicesOf plan.shape n)) * first.pencil.localLen)
          inputs 0]
        refine mapM_eq_some ?_
        rintro ⟨input, q⟩ hmem
        have hget := List.mem_zipIdx_iff_getElem?.mp hmem
        have hinput : input ∈ inputs := List.mem_of_getElem? hget
        have hq : plan.strides[q]? = some (rowStrides input.extraShape.dimensions) := by
          rw [hs, List.getElem?_map, hget]
          rfl
        have hbi := hb input hinput
        simp only [hq, hout, Option.bind_eq_bind, Option.bind_some]
        have hloop := foldlM_addAxis hshape (countable_input hbi hne) (hdims ▸ hbi) hn
        simp only [Option.bind_eq_bind] at hloop
        rw [hloop, Option.bind_some]
        exact checkedMul_eq_some.mpr ⟨hfitsInput input hinput, rfl⟩
      have hzip : ∀ f : PencilArrayView α N M → ℕ,
          (inputs.map f).zip inputs = inputs.map fun input => (f input, input) := by
        intro f
        have hmap := List.zip_map' (f := f) (g := id) (l := inputs)
        rwa [List.map_id] at hmap
      rw [hoffsets]
      simp only [Option.bind_eq_bind, Option.bind_some]
      rw [hzip]
      simp only [List.mapM_map, Function.comp_def]
      congr 1
      funext visited k
      rw [mapM_congr fun input hmem => (hread input hmem k).symm]
      cases inputs.mapM fun input => presented input first.pencil outShape n k <;> rfl

/-! ## When there is a plan -/

/-- Every reservation is granted. -/
def grantAll : ℕ → Bool := fun _ => true

/-- What a plan over views like `first` needs of the output shape. -/
structure CountFits (first : Pencil N M) (shape : List ℕ) : Prop where
  representable : ∃ n, checkedProduct shape = .ok n ∧ first.localLen * n < usizeLimit ∧
    first.globalLen * n < usizeLimit

theorem ExtraShape.new_dimensions (shape : ExtraShape) :
    ExtraShape.new shape.dimensions = .ok shape := by
  unfold ExtraShape.new
  split
  · rename_i h
    have := h.symm.trans shape.elementCount_ok
    contradiction
  · rename_i n h
    have hn : n = shape.elementCount := Except.ok.inj (h.symm.trans shape.elementCount_ok)
    subst hn
    rfl

theorem mapPlan_exists_iff {left : PencilArrayView α N M} {right : PencilArrayView β N M} :
    (∃ plan, mapPlan grantAll left right = .ok plan) ↔
      right.pencil = left.pencil ∧ ∃ shape,
        broadcastShape true left.extraShape right.extraShape = .ok (some shape) ∧
        CountFits left.pencil shape := by
  constructor
  · rintro ⟨plan, h⟩
    unfold mapPlan at h
    obtain ⟨shape, hshape, h⟩ := bind_eq_ok.mp h
    obtain ⟨_, hlayout, h⟩ := bind_eq_ok.mp h
    obtain ⟨dims, hdims, h⟩ := bind_eq_ok.mp h
    obtain ⟨_, _, h⟩ := bind_eq_ok.mp h
    obtain ⟨_, hcount, h⟩ := bind_eq_ok.mp h
    obtain ⟨_, hglobal, h⟩ := bind_eq_ok.mp h
    rw [okOr_eq_ok.mp hdims] at hshape
    obtain ⟨n, hn, hcount⟩ := Option.bind_eq_some_iff.mp (okOr_eq_ok.mp hcount)
    obtain ⟨n', hn', hglobal⟩ := Option.bind_eq_some_iff.mp (okOr_eq_ok.mp hglobal)
    obtain rfl := Option.some.inj (hn.symm.trans hn')
    exact ⟨(Pencil.eq_of_sameLayout (ensure_eq_ok.mp hlayout)).symm, dims, hshape,
      ⟨n, extraCount_toOption hn, (checkedMul_eq_some.mp hcount).1,
        (checkedMul_eq_some.mp hglobal).1⟩⟩
  · rintro ⟨hpencil, shape, hshape, n, hn, hlocal, hglobal⟩
    have hbroadcast := broadcastShape_isBroadcast hshape
    have hextra : (extraCount shape).toOption = some n := by
      unfold extraCount
      rw [hn]
      rfl
    have hstrides : ∃ strides, (if (extraCount shape).toOption = some 0 then .ok ([], [], [])
        else do
          let leftStrides ← stridesForDims (grantAll 1) left.extraShape.dimensions
          let rightStrides ← stridesForDims (grantAll 2) right.extraShape.dimensions
          let outputStrides ← stridesForDims (grantAll 3) shape
          return (leftStrides, rightStrides, outputStrides) :
            Except CollectiveError (List ℕ × List ℕ × List ℕ)) = .ok strides := by
      rw [hextra]
      by_cases hzero : n = 0
      · exact ⟨_, if_pos (by rw [hzero])⟩
      · have hne : (shapeOf shape hn).elementCount ≠ 0 := hzero
        rw [if_neg (by simpa using hzero)]
        have hl := stridesForDims_eq (countable_input
          (hbroadcast.broadcasts left.extraShape.dimensions (by simp)) hne)
        have hr := stridesForDims_eq (countable_input
          (hbroadcast.broadcasts right.extraShape.dimensions (by simp)) hne)
        have ho := stridesForDims_eq (ExtraShape.countable hne)
        show ∃ strides, (do
          let leftStrides ← stridesForDims true left.extraShape.dimensions
          let rightStrides ← stridesForDims true right.extraShape.dimensions
          let outputStrides ← stridesForDims true (shapeOf shape hn).dimensions
          return (leftStrides, rightStrides, outputStrides) :
            Except CollectiveError (List ℕ × List ℕ × List ℕ)) = .ok strides
        rw [hl, hr, ho]
        exact ⟨_, rfl⟩
    obtain ⟨strides, hstrides⟩ := hstrides
    have hcount : checkedMul left.pencil.localLen n = some (left.pencil.localLen * n) :=
      checkedMul_eq_some.mpr ⟨hlocal, rfl⟩
    have hglobalCount : checkedMul left.pencil.globalLen n = some (left.pencil.globalLen * n) :=
      checkedMul_eq_some.mpr ⟨hglobal, rfl⟩
    unfold mapPlan
    rw [show grantAll 0 = true from rfl, hshape, hpencil, Pencil.sameLayout_self]
    refine ⟨_, bind_eq_ok.mpr ⟨_, rfl, bind_eq_ok.mpr ⟨_, rfl, bind_eq_ok.mpr ⟨shape, rfl,
      bind_eq_ok.mpr ⟨strides, hstrides, bind_eq_ok.mpr ⟨left.pencil.localLen * n, ?_,
        bind_eq_ok.mpr ⟨left.pencil.globalLen * n, ?_, rfl⟩⟩⟩⟩⟩⟩⟩
    · rw [hextra, Option.bind_some, hcount]
      rfl
    · rw [hextra, Option.bind_some, hglobalCount]
      rfl

theorem mapPlan3_exists_iff {a : PencilArrayView α N M} {b : PencilArrayView β N M}
    {d : PencilArrayView δ N M} :
    (∃ plan, mapPlan3 grantAll (fun _ => true) a b d = .ok plan) ↔
      b.pencil = a.pencil ∧ d.pencil = a.pencil ∧ ∃ shape,
        broadcastShape3 grantAll a.extraShape b.extraShape d.extraShape = .ok (some shape) ∧
        CountFits a.pencil shape := by
  constructor
  · rintro ⟨plan, h⟩
    unfold mapPlan3 at h
    obtain ⟨shape, hshape, h⟩ := bind_eq_ok.mp h
    obtain ⟨_, hlayout, h⟩ := bind_eq_ok.mp h
    obtain ⟨dims, hdims, h⟩ := bind_eq_ok.mp h
    obtain ⟨_, _, h⟩ := bind_eq_ok.mp h
    obtain ⟨n, hn, h⟩ := bind_eq_ok.mp h
    obtain ⟨_, hcount, h⟩ := bind_eq_ok.mp h
    obtain ⟨_, hglobal, h⟩ := bind_eq_ok.mp h
    rw [mapError_eq_ok, okOr_eq_ok.mp hdims] at hshape
    have hlayout := ensure_eq_ok.mp hlayout
    simp only [Bool.and_true, Bool.and_eq_true] at hlayout
    exact ⟨(Pencil.eq_of_sameLayout hlayout.1).symm, (Pencil.eq_of_sameLayout hlayout.2).symm,
      dims, hshape, ⟨n, extraCount_toOption (okOr_eq_ok.mp hn),
        (checkedMul_eq_some.mp (okOr_eq_ok.mp hcount)).1,
        (checkedMul_eq_some.mp (okOr_eq_ok.mp hglobal)).1⟩⟩
  · rintro ⟨hpb, hpd, shape, hshape, n, hn, hlocal, hglobal⟩
    have hbroadcast := broadcastShape3_isBroadcast hshape
    have hextra : (extraCount shape).toOption = some n := by
      unfold extraCount
      rw [hn]
      rfl
    have hstrides : ∃ strides, (if (extraCount shape).toOption = some 0 then
        .ok (([], [], []), []) else do
          let aStrides ← stridesForDims (grantAll 2) a.extraShape.dimensions
          let bStrides ← stridesForDims (grantAll 3) b.extraShape.dimensions
          let dStrides ← stridesForDims (grantAll 4) d.extraShape.dimensions
          let outputStrides ← stridesForDims (grantAll 5) shape
          return ((aStrides, bStrides, dStrides), outputStrides) :
            Except CollectiveError ((List ℕ × List ℕ × List ℕ) × List ℕ)) = .ok strides := by
      rw [hextra]
      by_cases hzero : n = 0
      · exact ⟨_, if_pos (by rw [hzero])⟩
      · have hne : (shapeOf shape hn).elementCount ≠ 0 := hzero
        rw [if_neg (by simpa using hzero)]
        have ha := stridesForDims_eq (countable_input
          (hbroadcast.broadcasts a.extraShape.dimensions (by simp)) hne)
        have hb := stridesForDims_eq (countable_input
          (hbroadcast.broadcasts b.extraShape.dimensions (by simp)) hne)
        have hd := stridesForDims_eq (countable_input
          (hbroadcast.broadcasts d.extraShape.dimensions (by simp)) hne)
        have ho := stridesForDims_eq (ExtraShape.countable hne)
        show ∃ strides, (do
          let aStrides ← stridesForDims true a.extraShape.dimensions
          let bStrides ← stridesForDims true b.extraShape.dimensions
          let dStrides ← stridesForDims true d.extraShape.dimensions
          let outputStrides ← stridesForDims true (shapeOf shape hn).dimensions
          return ((aStrides, bStrides, dStrides), outputStrides) :
            Except CollectiveError ((List ℕ × List ℕ × List ℕ) × List ℕ)) = .ok strides
        rw [ha, hb, hd, ho]
        exact ⟨_, rfl⟩
    obtain ⟨strides, hstrides⟩ := hstrides
    unfold mapPlan3
    rw [hshape, hpb, hpd, Pencil.sameLayout_self]
    exact ⟨_, bind_eq_ok.mpr ⟨_, rfl, bind_eq_ok.mpr ⟨_, rfl, bind_eq_ok.mpr ⟨shape, rfl,
      bind_eq_ok.mpr ⟨strides, mapError_eq_ok.mpr hstrides, bind_eq_ok.mpr ⟨n,
        okOr_eq_ok.mpr hextra, bind_eq_ok.mpr ⟨_, okOr_eq_ok.mpr
          (checkedMul_eq_some.mpr ⟨hlocal, rfl⟩), bind_eq_ok.mpr ⟨_, okOr_eq_ok.mpr
          (checkedMul_eq_some.mpr ⟨hglobal, rfl⟩), rfl⟩⟩⟩⟩⟩⟩⟩⟩

theorem manyPlan_exists_iff {first : PencilArrayView α N M} {rest : List (PencilArrayView α N M)} :
    (∃ plan, manyPlan grantAll (fun _ => true) (first :: rest) = .ok plan) ↔
      (∀ input ∈ rest, input.pencil = first.pencil) ∧ ∃ shape,
        rest.zipIdx.foldlM (broadcastStep grantAll) first.extraShape.dimensions = .ok shape ∧
        CountFits first.pencil shape := by
  constructor
  · rintro ⟨plan, h⟩
    have hpencil := (manyPlan_ok h).1
    unfold manyPlan at h
    obtain ⟨_, _, h⟩ := bind_eq_ok.mp h
    obtain ⟨shape, hshape, h⟩ := bind_eq_ok.mp h
    obtain ⟨n, hn, h⟩ := bind_eq_ok.mp h
    obtain ⟨_, _, h⟩ := bind_eq_ok.mp h
    obtain ⟨_, hcount, h⟩ := bind_eq_ok.mp h
    obtain ⟨_, hglobal, h⟩ := bind_eq_ok.mp h
    exact ⟨fun input hmem => hpencil input (List.mem_cons_of_mem _ hmem), shape, hshape,
      ⟨n, mapError_eq_ok.mp hn, (checkedMul_eq_some.mp (okOr_eq_ok.mp hcount)).1,
        (checkedMul_eq_some.mp (okOr_eq_ok.mp hglobal)).1⟩⟩
  · rintro ⟨hpencil, shape, hshape, n, hn, hlocal, hglobal⟩
    have hfirst : IsBroadcast [first.extraShape.dimensions] first.extraShape.dimensions :=
      ⟨by simpa using Broadcasts.refl _, fun axis _ => ⟨_, by simp, rfl⟩⟩
    have hbroadcast := foldlM_broadcastStep hfirst hshape
    rw [map_zipIdx_fst (fun input : PencilArrayView α N M => input.extraShape.dimensions)]
      at hbroadcast
    have hstrides : ∃ strides, (if n = 0 then .ok ([], []) else do
        ensure (grantAll (first :: rest).length) (.allocationFailed (first :: rest).length)
        let strides ← (first :: rest).zipIdx.mapM fun entry =>
          stridesForDims (grantAll ((first :: rest).length + 1 + entry.2))
            entry.1.extraShape.dimensions
        let outputStrides ← stridesForDims (grantAll (2 * (first :: rest).length + 1)) shape
        return (strides, outputStrides) :
          Except CollectiveError (List (List ℕ) × List ℕ)) = .ok strides := by
      by_cases hzero : n = 0
      · exact ⟨_, if_pos hzero⟩
      · have hne : (shapeOf shape hn).elementCount ≠ 0 := hzero
        rw [if_neg hzero]
        have hinputs : ((first :: rest).zipIdx.mapM fun entry =>
            stridesForDims (grantAll ((first :: rest).length + 1 + entry.2))
              entry.1.extraShape.dimensions)
              = .ok ((first :: rest).zipIdx.map fun entry =>
                rowStrides entry.1.extraShape.dimensions) := by
          refine mapM_eq_pure ?_
          rintro ⟨input, k⟩ hmem
          have hinput : input ∈ first :: rest := List.fst_mem_of_mem_zipIdx hmem
          exact stridesForDims_eq (countable_input (hbroadcast.broadcasts _
            (List.mem_map_of_mem (f := fun input : PencilArrayView α N M =>
              input.extraShape.dimensions) hinput)) hne)
        have ho : stridesForDims (grantAll (2 * (first :: rest).length + 1)) shape
            = .ok (rowStrides shape) := stridesForDims_eq (ExtraShape.countable hne)
        rw [hinputs, ho]
        exact ⟨_, rfl⟩
    obtain ⟨strides, hstrides⟩ := hstrides
    have hall : ((first :: rest).all fun input =>
        input.pencil.sameLayout first.pencil && true) = true := by
      refine List.all_eq_true.mpr fun input hmem => ?_
      have hp : input.pencil = first.pencil := by
        cases List.mem_cons.mp hmem with
        | inl h => rw [h]
        | inr h => exact hpencil input h
      rw [hp, Pencil.sameLayout_self]
      rfl
    unfold manyPlan
    exact ⟨_, bind_eq_ok.mpr ⟨_, rfl, bind_eq_ok.mpr ⟨shape, hshape, bind_eq_ok.mpr ⟨n,
      mapError_eq_ok.mpr hn, bind_eq_ok.mpr ⟨strides, hstrides, bind_eq_ok.mpr ⟨_,
        okOr_eq_ok.mpr (checkedMul_eq_some.mpr ⟨hlocal, rfl⟩), bind_eq_ok.mpr ⟨_,
        okOr_eq_ok.mpr (checkedMul_eq_some.mpr ⟨hglobal, rfl⟩), bind_eq_ok.mpr ⟨(),
        ensure_eq_ok.mpr hall, rfl⟩⟩⟩⟩⟩⟩⟩⟩

theorem broadcastStep_ok {grants : ℕ → Bool} {mid shape : List ℕ}
    {entry : PencilArrayView α N M × ℕ} :
    broadcastStep grants mid entry = .ok shape ↔ ∃ current, ExtraShape.new mid = .ok current ∧
      broadcastShape (grants (entry.2 + 1)) current entry.1.extraShape = .ok (some shape) := by
  unfold broadcastStep
  constructor
  · intro h
    obtain ⟨current, hcurrent, h⟩ := bind_eq_ok.mp h
    obtain ⟨next, hnext, h⟩ := bind_eq_ok.mp h
    rw [okOr_eq_ok.mp h] at hnext
    exact ⟨current, mapError_eq_ok.mp hcurrent, hnext⟩
  · rintro ⟨current, hcurrent, hnext⟩
    exact bind_eq_ok.mpr ⟨current, mapError_eq_ok.mpr hcurrent,
      bind_eq_ok.mpr ⟨_, hnext, rfl⟩⟩

/-- **A pair has a plan** exactly where the slice of the two has one. -/
theorem pair_plan_iff {left right : PencilArrayView α N M} :
    (∃ plan, mapPlan grantAll left right = .ok plan) ↔
      ∃ plan, manyPlan grantAll (fun _ => true) [left, right] = .ok plan := by
  rw [mapPlan_exists_iff, manyPlan_exists_iff]
  have hshape : ∀ shape, [right].zipIdx.foldlM (broadcastStep grantAll) left.extraShape.dimensions
      = .ok shape ↔ broadcastShape true left.extraShape right.extraShape = .ok (some shape) := by
    intro shape
    show (broadcastStep grantAll left.extraShape.dimensions (right, 0) >>= pure) = _ ↔ _
    rw [bind_pure, broadcastStep_ok, ExtraShape.new_dimensions]
    constructor
    · rintro ⟨current, hcurrent, h⟩
      cases hcurrent
      exact h
    · intro h
      exact ⟨_, rfl, h⟩
  simp only [hshape, List.forall_mem_singleton]

/-- **A triple has a plan** exactly where the slice of the three has one. -/
theorem triple_plan_iff {a b d : PencilArrayView α N M} :
    (∃ plan, mapPlan3 grantAll (fun _ => true) a b d = .ok plan) ↔
      ∃ plan, manyPlan grantAll (fun _ => true) [a, b, d] = .ok plan := by
  rw [mapPlan3_exists_iff, manyPlan_exists_iff]
  have hshape : ∀ shape, [b, d].zipIdx.foldlM (broadcastStep grantAll) a.extraShape.dimensions
      = .ok shape ↔ broadcastShape3 grantAll a.extraShape b.extraShape d.extraShape
        = .ok (some shape) := by
    intro shape
    show (broadcastStep grantAll a.extraShape.dimensions (b, 0) >>= fun mid =>
      broadcastStep grantAll mid (d, 1) >>= pure) = _ ↔ _
    simp only [bind_pure, bind_eq_ok, broadcastStep_ok, ExtraShape.new_dimensions]
    unfold broadcastShape3
    constructor
    · rintro ⟨mid, ⟨current, hcurrent, hmid⟩, current', hcurrent', h⟩
      cases hcurrent
      exact bind_eq_ok.mpr ⟨some mid, hmid, bind_eq_ok.mpr ⟨mid, rfl,
        bind_eq_ok.mpr ⟨current', mapError_eq_ok.mpr hcurrent', h⟩⟩⟩
    · intro h
      obtain ⟨ab, hab, h⟩ := bind_eq_ok.mp h
      obtain ⟨mid, hmid, h⟩ := bind_eq_ok.mp h
      obtain ⟨current', hcurrent', h⟩ := bind_eq_ok.mp h
      rw [okOr_eq_ok.mp hmid] at hab
      exact ⟨mid, ⟨_, rfl, hab⟩, current', mapError_eq_ok.mp hcurrent', h⟩
  simp only [hshape, List.forall_mem_cons, List.not_mem_nil, IsEmpty.forall_iff, implies_true,
    and_true, and_assoc]

/-! ## The same results -/

/-- The shape rule gives one shape. -/
theorem IsBroadcast.unique {dims : List ℕ} {inputs : List (List ℕ)} {shape shape' : List ℕ}
    (h : IsBroadcast (dims :: inputs) shape) (h' : IsBroadcast (dims :: inputs) shape') :
    shape = shape' := by
  have hlen := (h.broadcasts dims (by simp)).length_eq
  have hlen' := (h'.broadcasts dims (by simp)).length_eq
  apply List.ext_getElem (hlen.symm.trans hlen')
  intro axis haxis haxis'
  have hget : shape.getD axis 0 = shape[axis] := by simp [List.getD_eq_getElem?_getD, haxis]
  have hget' : shape'.getD axis 0 = shape'[axis] := by simp [List.getD_eq_getElem?_getD, haxis']
  rw [← hget, ← hget']
  have hextent : ∀ d ∈ dims :: inputs,
      (d.getD axis 0 = shape.getD axis 0 ∨ d.getD axis 0 = 1) ∧
        (d.getD axis 0 = shape'.getD axis 0 ∨ d.getD axis 0 = 1) := by
    intro d hd
    have hb := h.broadcasts d hd
    have hb' := h'.broadcasts d hd
    exact ⟨hb.extent (by rw [hb.length_eq]; exact haxis),
      hb'.extent (by rw [hb'.length_eq]; exact haxis')⟩
  obtain ⟨d, hd, hone⟩ := h.attained axis haxis
  obtain ⟨d', hd', hone'⟩ := h'.attained axis haxis'
  have := hextent d hd
  have := hextent d' hd'
  omega

theorem ExtraShape.ext_dimensions {s s' : ExtraShape} (h : s.dimensions = s'.dimensions) :
    s = s' := by
  obtain ⟨dims, count, hcount⟩ := s
  obtain ⟨dims', count', hcount'⟩ := s'
  simp only at h
  subst h
  obtain rfl : count = count' := Except.ok.inj (hcount.symm.trans hcount')
  rfl

/-- A pair and the slice of the two present the same. -/
theorem pair_presents_many {left right : PencilArrayView α N M} {grants grants' : ℕ → Bool}
    {congruent : MpiTopology M → Bool} {plan : MapPlan} {plan' : ManyPlan}
    (h : mapPlan grants left right = .ok plan)
    (h' : manyPlan grants' congruent [left, right] = .ok plan') :
    forEachMany [left, right] plan'
      = (forEachPair left right plan).map (List.map fun q => [q.1, q.2]) := by
  obtain ⟨outShape, hdims, hbroadcast, visited, hrun, hpresents⟩ := forEachPair_presents h
  obtain ⟨outShape', hdims', hbroadcast', visited', hrun', hpresents'⟩ := forEachMany_presents h'
  obtain rfl : outShape = outShape' := by
    apply ExtraShape.ext_dimensions
    rw [hdims, hdims']
    exact hbroadcast.unique hbroadcast'
  have hmap := hpresents.map fun q : α × α => [q.1, q.2]
  have helement : (fun e x => ((do
        let l ← clippedElement left e x
        let r ← clippedElement right e x
        return (l, r)).map fun q : α × α => [q.1, q.2]))
      = fun e x => [left, right].mapM fun input => clippedElement input e x := by
    funext e x
    rw [List.mapM_cons, List.mapM_cons, List.mapM_nil]
    cases clippedElement left e x with
    | none => rfl
    | some l => cases clippedElement right e x <;> rfl
  rw [helement] at hmap
  rw [hrun, hrun', hpresents'.unique hmap]
  rfl

/-- A triple and the slice of the three present the same. -/
theorem triple_presents_many {a b d : PencilArrayView α N M} {grants grants' : ℕ → Bool}
    {congruent congruent' : MpiTopology M → Bool} {plan : MapPlan3} {plan' : ManyPlan}
    (h : mapPlan3 grants congruent a b d = .ok plan)
    (h' : manyPlan grants' congruent' [a, b, d] = .ok plan') :
    forEachMany [a, b, d] plan'
      = (forEachTriple a b d plan).map (List.map fun q => [q.1, q.2.1, q.2.2]) := by
  obtain ⟨outShape, hdims, hbroadcast, visited, hrun, hpresents⟩ := forEachTriple_presents h
  obtain ⟨outShape', hdims', hbroadcast', visited', hrun', hpresents'⟩ := forEachMany_presents h'
  obtain rfl : outShape = outShape' := by
    apply ExtraShape.ext_dimensions
    rw [hdims, hdims']
    exact hbroadcast.unique hbroadcast'
  have hmap := hpresents.map fun q : α × α × α => [q.1, q.2.1, q.2.2]
  have helement : (fun e x => ((do
        let l ← clippedElement a e x
        let m ← clippedElement b e x
        let r ← clippedElement d e x
        return (l, m, r)).map fun q : α × α × α => [q.1, q.2.1, q.2.2]))
      = fun e x => [a, b, d].mapM fun input => clippedElement input e x := by
    funext e x
    rw [List.mapM_cons, List.mapM_cons, List.mapM_cons, List.mapM_nil]
    cases clippedElement a e x with
    | none => rfl
    | some l =>
      cases clippedElement b e x with
      | none => rfl
      | some m => cases clippedElement d e x <;> rfl
  rw [helement] at hmap
  rw [hrun, hrun', hpresents'.unique hmap]
  rfl

end PencilRs.Analysis
