import PencilRs.Analysis.CheckedFold
import PencilRs.Analysis.GlobalOrder
import PencilRs.Model.Codec

/-!
# Packing and decoding a block

The string of a block holds its elements in row-major order of the extra axes and the spatial axes
in logical order.  Packing finds each element of this order in the permuted storage, and decoding
finds each element of the storage in this order: both walk a row-major numbering, one of the
logical and one of the memory dimensions.
-/

set_option autoImplicit false

namespace PencilRs.Analysis

open PencilRs.Computation PencilRs.Model

variable {N M : ℕ} {scalar : ScalarType} {ε : Type}

/-! ## Index lists -/

/-- **The index loop** replaces the entries of the axes it visits by the digits of the number. -/
theorem foldlM_setIndex {dims axes : List ℕ} (hnodup : axes.Nodup)
    (hpos : ∀ axis ∈ axes, dims.getD axis 0 ≠ 0) (indices : List ℕ) (flat : ℕ)
    (hlt : ∀ axis ∈ axes, axis < indices.length) :
    ∃ result, axes.foldlM (setIndex dims) (indices, flat)
        = (.ok (result, flat / MixedRadix.size (fun i => dims.getD i 0) axes) :
          Except (Stop ε) (List ℕ × ℕ)) ∧
      result.length = indices.length ∧
      ∀ i, result.getD i 0 = if i ∈ axes
        then MixedRadix.digit (fun i => dims.getD i 0) axes flat i else indices.getD i 0 := by
  induction axes generalizing indices flat with
  | nil => exact ⟨indices, by simp [pure, Except.pure], rfl, fun i => by simp⟩
  | cons axis axes ih =>
    obtain ⟨haxis, hnodup⟩ := List.nodup_cons.mp hnodup
    have hextent := hpos axis List.mem_cons_self
    have hbound := hlt axis List.mem_cons_self
    have hstep : setIndex dims (indices, flat) axis
        = (.ok (indices.set axis (flat % dims.getD axis 0), flat / dims.getD axis 0) :
          Except (Stop ε) (List ℕ × ℕ)) := by
      unfold setIndex
      refine bind_eq_ok.mpr ⟨(), ?_, rfl⟩
      rw [ensure_eq_ok, Bool.and_eq_true, decide_eq_true_eq, decide_eq_true_eq]
      exact ⟨hextent, hbound⟩
    obtain ⟨result, hloop, hlen, hget⟩ := ih hnodup
      (fun i hi => hpos i (List.mem_cons_of_mem _ hi)) (indices.set axis (flat % dims.getD axis 0))
      (flat / dims.getD axis 0) fun i hi => by
        rw [List.length_set]
        exact hlt i (List.mem_cons_of_mem _ hi)
    refine ⟨result, ?_, by rw [hlen, List.length_set], fun i => ?_⟩
    · rw [List.foldlM_cons]
      refine bind_eq_ok.mpr ⟨_, hstep, hloop.trans ?_⟩
      rw [MixedRadix.size_cons, Nat.div_div_eq_div_mul]
    · rw [hget i, MixedRadix.digit]
      by_cases hi : i = axis
      · rw [hi, if_neg haxis, if_pos List.mem_cons_self, Function.update_self]
        simp [List.getD_eq_getElem?_getD, hbound]
      · rw [Function.update_of_ne hi]
        by_cases hmem : i ∈ axes
        · rw [if_pos hmem, if_pos (List.mem_cons_of_mem _ hmem)]
        · rw [if_neg hmem, if_neg (fun h => (List.mem_cons.mp h).elim hi hmem)]
          simp [List.getD_eq_getElem?_getD, Ne.symm hi]

/-- **The indices** of an element by its row-major number. -/
theorem setIndices_eq {dims indices : List ℕ} (hpos : ∀ extent ∈ dims, extent ≠ 0)
    (hlen : indices.length = dims.length) (flat : ℕ) :
    setIndices flat dims indices = (.ok (indicesOf dims flat) : Except (Stop ε) (List ℕ)) := by
  have haxis : ∀ axis ∈ (List.range dims.length).reverse, axis < dims.length := fun axis h => by
    simpa using h
  have hextent : ∀ axis ∈ (List.range dims.length).reverse, dims.getD axis 0 ≠ 0 := by
    intro axis h
    rw [List.getD_eq_getElem?_getD, List.getElem?_eq_getElem (haxis axis h)]
    exact hpos _ (List.getElem_mem (haxis axis h))
  obtain ⟨result, hloop, hresult, hget⟩ := @foldlM_setIndex ε _ _
    (List.nodup_reverse.mpr List.nodup_range) hextent indices flat
    fun axis h => (haxis axis h).trans_eq hlen.symm
  have heq : result = indicesOf dims flat := by
    apply List.ext_getElem
    · rw [hresult, hlen, length_indicesOf]
    · intro i h₁ h₂
      have hi : i < dims.length := by rwa [hresult, hlen] at h₁
      have := hget i
      rw [if_pos (by simpa using hi), ← indicesOf_getD flat hi] at this
      simpa [List.getD_eq_getElem?_getD, h₁, h₂] using this
  unfold setIndices
  exact bind_eq_ok.mpr ⟨_, hloop, congrArg Except.ok heq⟩

/-- The indices of an element of a box, extra and spatial. -/
theorem indicesOf_logicalShape {shape : Fin N → ℕ} {extraShape : ExtraShape} {e : List ℕ}
    {x : Fin N → ℕ} (he : ValidIndices extraShape.dimensions e) (hx : InBox shape x) :
    indicesOf (logicalShape shape extraShape) (globalPosition shape extraShape e x)
      = e ++ List.ofFn x := by
  have hvalid := (validIndices_logicalShape he.1).mpr ⟨he, hx⟩
  have hlt : globalPosition shape extraShape e x < (logicalShape shape extraShape).prod := by
    rw [prod_logicalShape]
    exact globalPosition_lt he hx
  refine rowMajorValue_inj (validIndices_indicesOf hlt) hvalid ?_
  rw [rowMajorValue_indicesOf hlt, rowMajorValue_logicalShape x he.1]

theorem getD_append_ofFn {e : List ℕ} {n : ℕ} (he : e.length = n) (x : Fin N → ℕ) (axis : Fin N) :
    (e ++ List.ofFn x).getD (n + axis) 0 = x axis := by
  rw [List.getD_eq_getElem?_getD, List.getElem?_append_right (by omega), he,
    Nat.add_sub_cancel_left, List.getElem?_ofFn, dif_pos axis.isLt]
  rfl

/-! ## Packing -/

/-- The dimensions of a block in canonical order. -/
def blockShape (view : PencilArrayView scalar.Value N M) : List ℕ :=
  logicalShape view.pencil.localShapeLogical view.extraShape

/-- The place of an element in the canonical order of a block. -/
def blockPosition (view : PencilArrayView scalar.Value N M) (e : List ℕ) (x : Fin N → ℕ) : ℕ :=
  globalPosition view.pencil.localShapeLogical view.extraShape e x

theorem prod_blockShape (view : PencilArrayView scalar.Value N M) :
    (blockShape view).prod = view.storage.length := by
  unfold blockShape
  rw [prod_logicalShape, ← localLen_eq, view_storage_length]

theorem blockPosition_lt {view : PencilArrayView scalar.Value N M} {e : List ℕ} {x : Fin N → ℕ}
    (h : ValidElement view.pencil view.extraShape e x) :
    blockPosition view e x < view.storage.length := by
  rw [← prod_blockShape, blockShape, prod_logicalShape]
  exact globalPosition_lt h.1 h.2

theorem exists_blockPosition {view : PencilArrayView scalar.Value N M} {flat : ℕ}
    (h : flat < view.storage.length) :
    ∃ e x, ValidElement view.pencil view.extraShape e x ∧ blockPosition view e x = flat := by
  rw [← prod_blockShape, blockShape, prod_logicalShape] at h
  obtain ⟨e, x, he, hx, hflat⟩ := exists_globalPosition h
  exact ⟨e, x, ⟨he, hx⟩, hflat⟩

theorem blockShape_pos {view : PencilArrayView scalar.Value N M} (h : 0 < view.storage.length) :
    ∀ extent ∈ blockShape view, extent ≠ 0 := by
  rintro extent hmem rfl
  rw [← prod_blockShape, List.prod_eq_zero hmem] at h
  omega

theorem getLocal_eq {α : Type} {view : PencilArrayView α N M} {e : List ℕ} {x : Fin N → ℕ}
    (h : ValidElement view.pencil view.extraShape e x) :
    view.getLocal e x = view.storage[elementOffset view.pencil view.extraShape e x]? := by
  have hoffset := (localOffset_eq_ok (view_fits view)).mpr ⟨h, rfl⟩
  unfold PencilArrayView.getLocal
  rw [hoffset]
  rfl

/-- An element is in the storage. -/
theorem exists_element {α : Type} {view : PencilArrayView α N M} {e : List ℕ} {x : Fin N → ℕ}
    (h : ValidElement view.pencil view.extraShape e x) :
    ∃ value, view.storage[elementOffset view.pencil view.extraShape e x]? = some value := by
  have hlt := elementOffset_lt h
  rw [← view_storage_length] at hlt
  exact ⟨_, List.getElem?_eq_getElem hlt⟩

theorem packElement_eq {view : PencilArrayView scalar.Value N M} {packed : List Byte}
    {indices e : List ℕ} {x : Fin N → ℕ} {value : scalar.Value}
    (hlen : indices.length = (blockShape view).length)
    (h : ValidElement view.pencil view.extraShape e x)
    (hvalue : view.storage[elementOffset view.pencil view.extraShape e x]? = some value) :
    packElement view (blockShape view) (packed, indices) (blockPosition view e x)
      = .ok (packed ++ scalar.encodeLe value, e ++ List.ofFn x) := by
  have hpos := blockShape_pos ((Nat.zero_le _).trans_lt (blockPosition_lt h))
  have hindices : indicesOf (blockShape view) (blockPosition view e x) = e ++ List.ofFn x :=
    indicesOf_logicalShape h.1 h.2
  have hextra : (e ++ List.ofFn x).take view.extraShape.dimensions.length = e :=
    List.take_left' h.1.1
  have hspatial : (fun axis : Fin N =>
      (e ++ List.ofFn x).getD (view.extraShape.dimensions.length + axis) 0) = x :=
    funext fun axis => getD_append_ofFn h.1.1 x axis
  unfold packElement
  refine bind_eq_ok.mpr ⟨_, (setIndices_eq hpos hlen _).trans (congrArg _ hindices),
    bind_eq_ok.mpr ⟨value, okOr_eq_ok.mpr ?_, rfl⟩⟩
  rw [hextra, hspatial, getLocal_eq h, hvalue]

/-- The string of a block: its elements in canonical order. -/
structure IsPacked (view : PencilArrayView scalar.Value N M) (values : List scalar.Value) : Prop where
  length : values.length = view.storage.length
  element : ∀ e x, ValidElement view.pencil view.extraShape e x →
    values[blockPosition view e x]? = view.getLocal e x

theorem foldlM_packElement (view : PencilArrayView scalar.Value N M) :
    ∃ values indices, (List.range view.storage.length).foldlM (packElement view (blockShape view))
        ([], List.replicate (blockShape view).length 0)
        = .ok (values.flatMap scalar.encodeLe, indices) ∧ IsPacked view values := by
  obtain ⟨⟨packed, indices⟩, hloop, _, values, hlen, helement, rfl⟩ := foldlM_range_inv
    (packElement view (blockShape view))
    (fun k state => state.2.length = (blockShape view).length ∧ ∃ values : List scalar.Value,
      values.length = k ∧ (∀ e x, ValidElement view.pencil view.extraShape e x →
        blockPosition view e x < k → values[blockPosition view e x]? = view.getLocal e x) ∧
      state.1 = values.flatMap scalar.encodeLe)
    view.storage.length ([], List.replicate (blockShape view).length 0)
    ⟨List.length_replicate, [], rfl, fun _ _ _ h => absurd h (Nat.not_lt_zero _), rfl⟩
    (by
      rintro k hk ⟨packed, indices⟩ ⟨hlen, values, hcount, helement, rfl⟩
      obtain ⟨e, x, hvalid, rfl⟩ := exists_blockPosition hk
      obtain ⟨value, hvalue⟩ := exists_element hvalid
      refine ⟨_, packElement_eq hlen hvalid hvalue, ?_, values ++ [value], ?_, ?_, ?_⟩
      · have := hvalid.1.1
        simp [blockShape, logicalShape, this]
      · rw [List.length_append, hcount]
        rfl
      · intro f y hfy hlt
        cases Nat.lt_succ_iff_lt_or_eq.mp hlt with
        | inl hlt =>
          rw [List.getElem?_append_left (hcount ▸ hlt)]
          exact helement f y hfy hlt
        | inr heq =>
          obtain ⟨rfl, rfl⟩ := globalPosition_inj hfy.1 hfy.2 hvalid.1 hvalid.2 heq
          rw [List.getElem?_append_right hcount.le, hcount, Nat.sub_self, getLocal_eq hvalid, hvalue]
          rfl
      · rw [List.flatMap_append, List.flatMap_singleton])
  exact ⟨values, indices, hloop, hlen, fun e x h => helement e x h (blockPosition_lt h)⟩

theorem IsPacked.unique {view : PencilArrayView scalar.Value N M} {values other : List scalar.Value}
    (h : IsPacked view values) (hother : IsPacked view other) : values = other := by
  apply List.ext_getElem?
  intro flat
  by_cases hflat : flat < view.storage.length
  · obtain ⟨e, x, hvalid, rfl⟩ := exists_blockPosition hflat
    rw [h.element e x hvalid, hother.element e x hvalid]
  · rw [List.getElem?_eq_none (by rw [h.length]; omega),
      List.getElem?_eq_none (by rw [hother.length]; omega)]

theorem canonicalDimsWith_eq_ok {reserved : Bool} {extra dims : List ℕ} {spatial : Fin N → ℕ} :
    canonicalDimsWith reserved extra spatial = .ok dims ↔
      (extra.length + N ≠ 0 ∧ extra.length + N ≤ maxProtocolRank) ∧ reserved = true ∧
        dims = extra ++ List.ofFn spatial := by
  have hlimit : maxProtocolRank < usizeLimit := by decide
  unfold canonicalDimsWith
  constructor
  · intro h
    obtain ⟨_, hrank, h⟩ := bind_eq_ok.mp h
    obtain ⟨_, rfl⟩ := checkedAdd_eq_some.mp (okOr_eq_ok.mp hrank)
    obtain ⟨_, hbound, h⟩ := bind_eq_ok.mp h
    obtain ⟨_, hreserved, h⟩ := bind_eq_ok.mp h
    cases h
    rw [ensure_eq_ok, Bool.and_eq_true, decide_eq_true_eq, decide_eq_true_eq] at hbound
    exact ⟨hbound, ensure_eq_ok.mp hreserved, rfl⟩
  · rintro ⟨⟨hne, hle⟩, rfl, rfl⟩
    refine bind_eq_ok.mpr ⟨_, okOr_eq_ok.mpr (checkedAdd_eq_some.mpr ⟨by omega, rfl⟩),
      bind_eq_ok.mpr ⟨(), ?_, bind_eq_ok.mpr ⟨(), rfl, rfl⟩⟩⟩
    rw [ensure_eq_ok, Bool.and_eq_true, decide_eq_true_eq, decide_eq_true_eq]
    exact ⟨hne, hle⟩

/-- Where a block has a string. -/
structure Packable (view : PencilArrayView scalar.Value N M) : Prop where
  rank_le : view.extraShape.dimensions.length + N ≤ maxProtocolRank
  fits : leadingProd (blockShape view) < usizeLimit
  bytes_lt : view.storage.length * scalar.width < usizeLimit

theorem length_flatMap_encodeLe (values : List scalar.Value) :
    (values.flatMap scalar.encodeLe).length = values.length * scalar.width := by
  induction values with
  | nil => simp
  | cons value values ih =>
    rw [List.flatMap_cons, List.length_append, ih, ScalarType.length_encodeLe, List.length_cons,
      Nat.succ_mul, Nat.add_comm]

/-- **A packed block** is the string of its elements in canonical order. -/
theorem packView_eq_ok {alloc : PackAllocator} {view : PencilArrayView scalar.Value N M}
    {packed : List Byte} :
    packView alloc view = .ok packed ↔
      (alloc.dims = true ∧ alloc.packed = true ∧ alloc.indices = true) ∧ Packable view ∧
        ∃ values, IsPacked view values ∧ packed = values.flatMap scalar.encodeLe := by
  obtain ⟨values, indices, hloop, hvalues⟩ := foldlM_packElement view
  have hN : 0 < N := view.pencil.decomposition.positive.trans_le view.pencil.decomposition.le_spatial
  have hlen : (values.flatMap scalar.encodeLe).length = view.storage.length * scalar.width := by
    rw [length_flatMap_encodeLe, hvalues.length]
  unfold packView canonicalDims
  constructor
  · intro h
    obtain ⟨_, hdims, h⟩ := bind_eq_ok.mp h
    obtain ⟨⟨_, hrank⟩, hdimsGrant, rfl⟩ := canonicalDimsWith_eq_ok.mp (mapError_eq_ok.mp hdims)
    obtain ⟨_, helements, h⟩ := bind_eq_ok.mp h
    obtain ⟨rfl, hfits⟩ := elementCount_eq_ok.mp (mapError_eq_ok.mp helements)
    obtain ⟨_, hsame, h⟩ := bind_eq_ok.mp h
    have hsame := of_decide_eq_true (ensure_eq_ok.mp hsame)
    rw [hsame] at h
    obtain ⟨_, hbytes, h⟩ := bind_eq_ok.mp h
    obtain ⟨hbytesLt, rfl⟩ := checkedMul_eq_some.mp (okOr_eq_ok.mp hbytes)
    obtain ⟨_, hpackedGrant, h⟩ := bind_eq_ok.mp h
    obtain ⟨_, hindicesGrant, h⟩ := bind_eq_ok.mp h
    obtain ⟨_, hrun, h⟩ := bind_eq_ok.mp h
    obtain rfl := Except.ok.inj (hloop.symm.trans hrun)
    obtain ⟨_, _, h⟩ := bind_eq_ok.mp h
    cases h
    exact ⟨⟨hdimsGrant, ensure_eq_ok.mp hpackedGrant, ensure_eq_ok.mp hindicesGrant⟩,
      ⟨hrank, hfits, hbytesLt⟩, values, hvalues, rfl⟩
  · rintro ⟨⟨hdims, hpacked, hindices⟩, hpackable, other, hother, rfl⟩
    obtain rfl := hvalues.unique hother
    have hprod : view.storage.length
        = (view.extraShape.dimensions ++ List.ofFn view.pencil.localShapeLogical).prod :=
      (prod_blockShape view).symm
    refine bind_eq_ok.mpr ⟨_, mapError_eq_ok.mpr (canonicalDimsWith_eq_ok.mpr
      ⟨⟨by omega, hpackable.rank_le⟩, hdims, rfl⟩), bind_eq_ok.mpr ⟨_,
      mapError_eq_ok.mpr (elementCount_eq_ok.mpr ⟨hprod, hpackable.fits⟩), bind_eq_ok.mpr ⟨(),
      ensure_eq_ok.mpr (decide_eq_true rfl), bind_eq_ok.mpr ⟨_, okOr_eq_ok.mpr
      (checkedMul_eq_some.mpr ⟨hpackable.bytes_lt, rfl⟩), bind_eq_ok.mpr ⟨(),
      ensure_eq_ok.mpr hpacked, bind_eq_ok.mpr ⟨(), ensure_eq_ok.mpr hindices, bind_eq_ok.mpr ⟨_,
      hloop, bind_eq_ok.mpr ⟨(), ensure_eq_ok.mpr (decide_eq_true hlen), rfl⟩⟩⟩⟩⟩⟩⟩⟩

/-- The bytes of the `i`-th element of a string of elements. -/
theorem slice_flatMap_encodeLe {values : List scalar.Value} {i : ℕ} {value : scalar.Value}
    (h : values[i]? = some value) :
    ((values.flatMap scalar.encodeLe).drop (i * scalar.width)).take scalar.width
      = scalar.encodeLe value := by
  induction values generalizing i with
  | nil => simp at h
  | cons first values ih =>
    rw [List.flatMap_cons]
    cases i with
    | zero =>
      obtain rfl : first = value := by simpa using h
      rw [Nat.zero_mul, List.drop_zero]
      exact List.take_left' (ScalarType.length_encodeLe _ _)
    | succ i =>
      rw [List.getElem?_cons_succ] at h
      have hdrop : (i + 1) * scalar.width
          = (scalar.encodeLe first).length + i * scalar.width := by
        rw [ScalarType.length_encodeLe, Nat.succ_mul, Nat.add_comm]
      rw [hdrop, ← List.drop_drop, List.drop_left, ih h]

/-! ## Decoding -/

/-- A plan for the storage of a pencil and an extra shape. -/
structure IsPlan (p : Pencil N M) (extraShape : ExtraShape) (width : ℕ)
    (plan : PhysicalDecodePlan N) : Prop where
  logicalDims : plan.logicalDims = logicalShape p.localShapeLogical extraShape
  physicalDims : plan.physicalDims = memoryShape p extraShape
  physicalIndices : plan.physicalIndices.length = plan.physicalDims.length
  memoryToLogical : plan.memoryToLogical = p.permutation.axesInMemoryOrder
  extraRank : plan.extraRank = extraShape.dimensions.length
  elements : plan.elements = extraShape.elementCount * p.localLen
  bytes : plan.bytes = plan.elements * width

variable {p : Pencil N M} {extraShape : ExtraShape} {plan : PhysicalDecodePlan N}
  {packed : List Byte} {e : List ℕ} {x : Fin N → ℕ} {width : ℕ}

theorem preparePhysicalDecodeWith_eq_ok {alloc : DecodeAllocator} {destinationLen : ℕ} :
    preparePhysicalDecodeWith alloc width extraShape.dimensions p.localShapeLogical
        p.localShapeMemory p.permutation.axesInMemoryOrder destinationLen packed = .ok plan →
      IsPlan p extraShape width plan ∧ packed.length = plan.bytes ∧
        destinationLen = plan.elements := by
  intro h
  unfold preparePhysicalDecodeWith at h
  obtain ⟨_, hdims, h⟩ := bind_eq_ok.mp h
  obtain ⟨_, _, rfl⟩ := canonicalDimsWith_eq_ok.mp hdims
  obtain ⟨_, helements, h⟩ := bind_eq_ok.mp h
  obtain ⟨rfl, _⟩ := elementCount_eq_ok.mp helements
  obtain ⟨_, hbytes, h⟩ := bind_eq_ok.mp h
  obtain ⟨_, rfl⟩ := checkedMul_eq_some.mp (okOr_eq_ok.mp hbytes)
  obtain ⟨_, hsame, h⟩ := bind_eq_ok.mp h
  obtain ⟨_, _, h⟩ := bind_eq_ok.mp h
  obtain ⟨_, _, h⟩ := bind_eq_ok.mp h
  cases h
  rw [ensure_eq_ok, Bool.and_eq_true, decide_eq_true_eq, decide_eq_true_eq] at hsame
  refine ⟨⟨rfl, rfl, List.length_replicate, rfl, rfl, ?_, rfl⟩, hsame⟩
  show (logicalShape p.localShapeLogical extraShape).prod = _
  rw [prod_logicalShape, localLen_eq]

/-- A string of a block can be decoded where it could be packed. -/
theorem preparePhysicalDecode_eq_ok {alloc : DecodeAllocator}
    {view : PencilArrayView scalar.Value N M} :
    (∃ plan, preparePhysicalDecode alloc view packed = .ok plan) ↔
      (alloc.logicalDims = true ∧ alloc.physicalDims = true ∧ alloc.physicalIndices = true) ∧
        Packable view ∧ packed.length = view.storage.length * scalar.width := by
  have hN : 0 < N := view.pencil.decomposition.positive.trans_le view.pencil.decomposition.le_spatial
  have hprod : (view.extraShape.dimensions ++ List.ofFn view.pencil.localShapeLogical).prod
      = view.storage.length := prod_blockShape view
  unfold preparePhysicalDecode preparePhysicalDecodeWith
  constructor
  · rintro ⟨plan, h⟩
    obtain ⟨_, hdims, h⟩ := bind_eq_ok.mp h
    obtain ⟨⟨_, hrank⟩, hlogical, rfl⟩ := canonicalDimsWith_eq_ok.mp hdims
    obtain ⟨_, helements, h⟩ := bind_eq_ok.mp h
    obtain ⟨rfl, hfits⟩ := elementCount_eq_ok.mp helements
    obtain ⟨_, hbytes, h⟩ := bind_eq_ok.mp h
    obtain ⟨hbytesLt, rfl⟩ := checkedMul_eq_some.mp (okOr_eq_ok.mp hbytes)
    obtain ⟨_, hsame, h⟩ := bind_eq_ok.mp h
    obtain ⟨_, hphysical, h⟩ := bind_eq_ok.mp h
    obtain ⟨_, hindices, h⟩ := bind_eq_ok.mp h
    rw [ensure_eq_ok, Bool.and_eq_true, decide_eq_true_eq, decide_eq_true_eq] at hsame
    rw [hprod] at hbytesLt hsame
    exact ⟨⟨hlogical, ensure_eq_ok.mp hphysical, ensure_eq_ok.mp hindices⟩,
      ⟨hrank, hfits, hbytesLt⟩, hsame.1⟩
  · rintro ⟨⟨hlogical, hphysical, hindices⟩, hpackable, hlen⟩
    refine ⟨_, bind_eq_ok.mpr ⟨_, canonicalDimsWith_eq_ok.mpr ⟨⟨by omega, hpackable.rank_le⟩,
      hlogical, rfl⟩, bind_eq_ok.mpr ⟨_, elementCount_eq_ok.mpr ⟨hprod.symm, hpackable.fits⟩,
      bind_eq_ok.mpr ⟨_, okOr_eq_ok.mpr (checkedMul_eq_some.mpr ⟨hpackable.bytes_lt, rfl⟩),
      bind_eq_ok.mpr ⟨(), ?_, bind_eq_ok.mpr ⟨(), ensure_eq_ok.mpr hphysical,
      bind_eq_ok.mpr ⟨(), ensure_eq_ok.mpr hindices, rfl⟩⟩⟩⟩⟩⟩⟩
    rw [ensure_eq_ok, Bool.and_eq_true, decide_eq_true_eq, decide_eq_true_eq]
    exact ⟨hlen, rfl⟩

/-- The element at a place of the storage, by its place in the canonical order. -/
theorem indicesOf_memoryShape (h : ValidElement p extraShape e x) :
    indicesOf (memoryShape p extraShape) (elementOffset p extraShape e x)
      = e ++ List.ofFn fun position => x (p.permutation.axesInMemoryOrder position) := by
  have hvalid : ValidIndices (memoryShape p extraShape)
      (e ++ List.ofFn fun position => x (p.permutation.axesInMemoryOrder position)) :=
    ⟨by simp [memoryShape, h.1.1], (mem_zip_memoryShape p extraShape x h.1.1).mpr h⟩
  have hprod : (memoryShape p extraShape).prod = extraShape.elementCount * p.localLen := by
    unfold memoryShape
    rw [List.prod_append, List.prod_ofFn, prod_localShapeMemory, elementCount_eq]
  have hlt : elementOffset p extraShape e x < (memoryShape p extraShape).prod := by
    rw [hprod]
    exact elementOffset_lt h
  refine rowMajorValue_inj (validIndices_indicesOf hlt) hvalid ?_
  rw [rowMajorValue_indicesOf hlt, rowMajorValue_memoryShape p extraShape x h.1.1]

theorem memoryShape_pos (h : ValidElement p extraShape e x) :
    ∀ extent ∈ memoryShape p extraShape, extent ≠ 0 := by
  rintro extent hmem rfl
  have hlt := elementOffset_lt h
  have hprod : (memoryShape p extraShape).prod = extraShape.elementCount * p.localLen := by
    unfold memoryShape
    rw [List.prod_append, List.prod_ofFn, prod_localShapeMemory, elementCount_eq]
  rw [← hprod, List.prod_eq_zero hmem] at hlt
  omega

theorem scatterIndices_spatial (hplan : IsPlan p extraShape width plan)
    (he : e.length = extraShape.dimensions.length)
    (hindices : plan.physicalIndices
      = e ++ List.ofFn fun position => x (p.permutation.axesInMemoryOrder position)) :
    plan.scatterIndices.logicalSpatial = x := by
  have hvalue : ∀ position : Fin N,
      plan.physicalIndices.getD (plan.extraRank + position) 0
        = x (p.permutation.axesInMemoryOrder position) := by
    intro position
    rw [hindices, hplan.extraRank]
    exact getD_append_ofFn he (fun position => x (p.permutation.axesInMemoryOrder position)) position
  funext axis
  obtain ⟨position, rfl⟩ := p.permutation.surjective axis
  unfold PhysicalDecodePlan.scatterIndices
  simp only [hplan.memoryToLogical, hvalue]
  exact foldl_update_of_mem p.permutation.injective
    (fun position => x (p.permutation.axesInMemoryOrder position)) (List.finRange N)
    plan.logicalSpatial (List.mem_finRange position)

theorem logicalIndex_eq (hrank : plan.extraRank = e.length)
    (hextra : ∀ axis < e.length, plan.physicalIndices.getD axis 0 = e.getD axis 0)
    (hspatial : plan.logicalSpatial = x) (axis : ℕ) :
    plan.logicalIndex axis = (e ++ List.ofFn x).getD axis 0 := by
  have hright : (e ++ List.ofFn x).getD axis 0 = ((e ++ List.ofFn x)[axis]?).getD 0 :=
    List.getD_eq_getElem?_getD
  unfold PhysicalDecodePlan.logicalIndex
  rw [hrank, hspatial, hright]
  by_cases haxis : axis < e.length
  · rw [if_pos haxis, hextra axis haxis, List.getElem?_append_left haxis,
      List.getD_eq_getElem?_getD]
  · rw [if_neg haxis, List.getElem?_append_right (Nat.not_lt.mp haxis), List.getElem?_ofFn]
    split <;> rfl

/-- **The numbering loop** is Horner's rule on the indices of the canonical order. -/
theorem foldlM_logicalStep {dims indices : List ℕ} {offset k : ℕ} (hvalid : ValidIndices dims indices)
    (hindex : ∀ i < dims.length, plan.logicalIndex (k + i) = indices.getD i 0)
    (hfit : (offset + 1) * dims.prod ≤ usizeLimit) :
    (dims.zipIdx k).foldlM plan.logicalStep offset
      = (.ok (offset * dims.prod + rowMajorValue dims indices) : Except (Stop ε) ℕ) := by
  induction dims generalizing indices offset k with
  | nil => simp [pure, Except.pure, rowMajorValue]
  | cons extent dims ih =>
    obtain ⟨index, indices, rfl⟩ := List.exists_cons_of_length_eq_add_one hvalid.1
    obtain ⟨hlt, hrest⟩ := validIndices_cons.mp hvalid
    have hsize : 0 < dims.prod :=
      (Nat.zero_le _).trans_lt (rowMajorValue_lt hrest)
    rw [List.prod_cons, ← Nat.mul_assoc] at hfit
    have hgrow : offset * extent + index + 1 ≤ (offset + 1) * extent := by
      rw [Nat.add_mul]
      omega
    have hnext : (offset * extent + index + 1) * dims.prod ≤ usizeLimit :=
      (Nat.mul_le_mul_right _ hgrow).trans hfit
    have hsmall : offset * extent + index + 1 ≤ usizeLimit :=
      (Nat.le_mul_of_pos_right _ hsize).trans hnext
    have hfirst : plan.logicalIndex k = index := hindex 0 (Nat.succ_pos _)
    have hstep : plan.logicalStep offset (extent, k)
        = (.ok (offset * extent + index) : Except (Stop ε) ℕ) := by
      show okOr (do
        let scaled ← checkedMul offset extent
        checkedAdd scaled (plan.logicalIndex k)) (Stop.panic : Stop ε) = _
      rw [hfirst]
      exact okOr_eq_ok.mpr (Option.bind_eq_some_iff.mpr ⟨_,
        checkedMul_eq_some.mpr ⟨by omega, rfl⟩, checkedAdd_eq_some.mpr ⟨by omega, rfl⟩⟩)
    have hindices : ∀ i < dims.length, plan.logicalIndex (k + 1 + i) = indices.getD i 0 := by
      intro i hi
      rw [Nat.add_assoc, Nat.add_comm 1]
      exact hindex (i + 1) (Nat.succ_lt_succ hi)
    rw [List.zipIdx_cons, List.foldlM_cons]
    refine bind_eq_ok.mpr ⟨_, hstep, (ih hrest hindices hnext).trans ?_⟩
    rw [rowMajorValue_cons hrest.1, List.prod_cons]
    congr 1
    ring

theorem decodeLe_isSome {bytes : List Byte} (h : bytes.length = scalar.width) :
    ∃ value, scalar.decodeLe bytes = some value := by
  have hbits : ∀ w count, bytes.length = count → ∃ value, ScalarType.bitsFromLe w count bytes
      = some value := by
    intro w count hcount
    unfold ScalarType.bitsFromLe
    rw [if_pos hcount]
    exact ⟨_, rfl⟩
  have hpair : ∀ w count, bytes.length = 2 * count → ∃ value, ScalarType.pairFromLe w count bytes
      = some value := by
    intro w count hcount
    unfold ScalarType.pairFromLe ScalarType.bitsFromLe
    rw [if_pos (by omega), if_pos (by rw [List.length_take]; omega),
      if_pos (by rw [List.length_take, List.length_drop]; omega)]
    exact ⟨_, rfl⟩
  cases scalar with
  | complexF32 => exact hpair 32 4 h
  | complexF64 => exact hpair 64 8 h
  | _ => exact hbits _ _ h

/-- The value that a string of elements holds at a place of the canonical order. -/
def valueAt (scalar : ScalarType) (packed : List Byte) (position : ℕ) : Option scalar.Value :=
  scalar.decodeLe ((packed.drop (position * scalar.width)).take scalar.width)

/-- **One element** of the storage gets the value at its place in the canonical order. -/
theorem decodeAt_eq (hplan : IsPlan p extraShape scalar.width plan)
    (hpacked : packed.length = plan.bytes)
    (hfit : extraShape.elementCount * p.localLen < usizeLimit)
    (h : ValidElement p extraShape e x) :
    ∃ value plan', plan.decodeAt scalar packed (elementOffset p extraShape e x)
        = (.ok (value, plan') : Except (Stop ε) _) ∧
      IsPlan p extraShape scalar.width plan' ∧ plan'.bytes = plan.bytes ∧
      valueAt scalar packed (globalPosition p.localShapeLogical extraShape e x) = some value := by
  obtain ⟨indices, hindices⟩ : ∃ indices, indices
      = e ++ List.ofFn fun position => x (p.permutation.axesInMemoryOrder position) := ⟨_, rfl⟩
  have hset : setIndices (elementOffset p extraShape e x) plan.physicalDims plan.physicalIndices
      = (.ok indices : Except (Stop ε) (List ℕ)) := by
    have hpos := memoryShape_pos h
    rw [← hplan.physicalDims] at hpos
    rw [setIndices_eq hpos hplan.physicalIndices, hplan.physicalDims, indicesOf_memoryShape h,
      hindices]
  obtain ⟨moved, hmoved⟩ : ∃ moved, moved = { plan with physicalIndices := indices } := ⟨_, rfl⟩
  have hmovedPlan : IsPlan p extraShape scalar.width moved := by
    rw [hmoved]
    refine ⟨hplan.logicalDims, hplan.physicalDims, ?_, hplan.memoryToLogical, hplan.extraRank,
      hplan.elements, hplan.bytes⟩
    show indices.length = plan.physicalDims.length
    rw [hindices, hplan.physicalDims]
    simp [memoryShape, h.1.1]
  have hmovedIndices : moved.physicalIndices
      = e ++ List.ofFn fun position => x (p.permutation.axesInMemoryOrder position) := by
    rw [hmoved]
    exact hindices
  have hspatial : moved.scatterIndices.logicalSpatial = x :=
    scatterIndices_spatial hmovedPlan h.1.1 hmovedIndices
  have hindex : ∀ axis, moved.scatterIndices.logicalIndex axis = (e ++ List.ofFn x).getD axis 0 := by
    refine logicalIndex_eq (hmovedPlan.extraRank.trans h.1.1.symm) ?_ hspatial
    intro axis haxis
    show moved.physicalIndices.getD axis 0 = _
    rw [hmovedIndices, List.getD_eq_getElem?_getD, List.getElem?_append_left haxis,
      List.getD_eq_getElem?_getD]
  have hposition : globalPosition p.localShapeLogical extraShape e x
      < extraShape.elementCount * p.localLen := by
    rw [localLen_eq]
    exact globalPosition_lt h.1 h.2
  have hloop : moved.scatterIndices.logicalDims.zipIdx.foldlM moved.scatterIndices.logicalStep 0
      = (.ok (globalPosition p.localShapeLogical extraShape e x) : Except (Stop ε) ℕ) := by
    have hdims : moved.scatterIndices.logicalDims = logicalShape p.localShapeLogical extraShape :=
      hmovedPlan.logicalDims
    have hvalid : ValidIndices (logicalShape p.localShapeLogical extraShape) (e ++ List.ofFn x) :=
      (validIndices_logicalShape h.1.1).mpr ⟨h.1, h.2⟩
    rw [hdims, foldlM_logicalStep hvalid (fun i _ => by rw [Nat.zero_add, hindex]) ?_]
    · rw [Nat.zero_mul, Nat.zero_add, rowMajorValue_logicalShape x h.1.1]
    · rw [Nat.zero_add, Nat.one_mul, prod_logicalShape, ← localLen_eq]
      exact hfit.le
  have hbound : globalPosition p.localShapeLogical extraShape e x * scalar.width + scalar.width
      ≤ packed.length := by
    rw [hpacked, hplan.bytes, hplan.elements, ← Nat.succ_mul]
    exact Nat.mul_le_mul_right _ hposition
  have hslice := slice?_eq (Nat.le_add_right _ _) hbound
  rw [Nat.add_sub_cancel_left] at hslice
  have hsliceLen : ((packed.drop (globalPosition p.localShapeLogical extraShape e x
      * scalar.width)).take scalar.width).length = scalar.width := by
    rw [List.length_take, List.length_drop]
    omega
  obtain ⟨value, hvalue⟩ := decodeLe_isSome hsliceLen
  refine ⟨value, moved.scatterIndices, ?_, ?_, by rw [hmoved]; rfl, hvalue⟩
  · unfold PhysicalDecodePlan.decodeAt
    refine bind_eq_ok.mpr ⟨_, hset, ?_⟩
    rw [← hmoved]
    exact bind_eq_ok.mpr ⟨_, hloop, bind_eq_ok.mpr ⟨_, okOr_eq_ok.mpr hslice,
      bind_eq_ok.mpr ⟨value, okOr_eq_ok.mpr hvalue, rfl⟩⟩⟩
  · exact ⟨hmovedPlan.logicalDims, hmovedPlan.physicalDims, hmovedPlan.physicalIndices,
      hmovedPlan.memoryToLogical, hmovedPlan.extraRank, hmovedPlan.elements, hmovedPlan.bytes⟩

/-- The values a string of elements holds, by their places. -/
theorem valueAt_flatMap {values : List scalar.Value} {position : ℕ} {value : scalar.Value}
    (h : values[position]? = some value) :
    valueAt scalar (values.flatMap scalar.encodeLe) position = some value := by
  unfold valueAt
  rw [slice_flatMap_encodeLe h, ScalarType.decodeLe_encodeLe]

/-- **Decoding** writes every element of the storage once, with the value at its place in the
canonical order. -/
theorem decodeInto_eq (hplan : IsPlan p extraShape scalar.width plan)
    (hpacked : packed.length = plan.bytes)
    (hfit : extraShape.elementCount * p.localLen < usizeLimit) {destination : Buf scalar.Value}
    (hlen : destination.cells.length = extraShape.elementCount * p.localLen) :
    ∃ buffer, plan.decodeInto packed destination = (.ok buffer : Except (Stop ε) _) ∧
      buffer.cells.length = destination.cells.length ∧
      buffer.log = destination.log ++ List.range destination.cells.length ∧
      ∀ e x, ValidElement p extraShape e x → buffer.cells[elementOffset p extraShape e x]?
        = valueAt scalar packed (globalPosition p.localShapeLogical extraShape e x) := by
  obtain ⟨⟨buffer, plan'⟩, hloop, _, _, hsame, hlog, hvalues⟩ := foldlM_range_inv
    (m := Except (Stop ε)) (PhysicalDecodePlan.decodeElement packed)
    (fun k state => IsPlan p extraShape scalar.width state.2 ∧ state.2.bytes = plan.bytes ∧
      state.1.cells.length = destination.cells.length ∧
      state.1.log = destination.log ++ List.range k ∧
      ∀ e x, ValidElement p extraShape e x → elementOffset p extraShape e x < k →
        state.1.cells[elementOffset p extraShape e x]?
          = valueAt scalar packed (globalPosition p.localShapeLogical extraShape e x))
    destination.cells.length (destination, plan)
    ⟨hplan, rfl, rfl, by simp, fun _ _ _ h => absurd h (Nat.not_lt_zero _)⟩
    (by
      rintro k hk ⟨buffer, state⟩ ⟨hstate, hbytes, hsame, hlog, hvalues⟩
      rw [hlen] at hk
      obtain ⟨e, x, hvalid, rfl⟩ := exists_elementOffset hk
      obtain ⟨value, next, hdecode, hnext, hnextBytes, hvalue⟩ :=
        decodeAt_eq (ε := ε) hstate (hpacked.trans hbytes.symm) hfit hvalid
      refine ⟨(buffer.put (elementOffset p extraShape e x) value, next),
        bind_eq_ok.mpr ⟨_, hdecode, rfl⟩, hnext, hnextBytes.trans hbytes, ?_, ?_, ?_⟩
      · exact (Buf.length_put _ _ _).trans hsame
      · show buffer.log ++ _ = _
        rw [hlog, List.range_succ, List.append_assoc]
      · intro f y hfy hlt
        show (buffer.cells.set _ value)[_]? = _
        cases Nat.lt_succ_iff_lt_or_eq.mp hlt with
        | inl hlt =>
          rw [List.getElem?_set_ne (Nat.ne_of_gt hlt)]
          exact hvalues f y hfy hlt
        | inr heq =>
          obtain ⟨rfl, rfl⟩ := elementOffset_inj hfy hvalid heq
          have hbound : elementOffset p extraShape f y < buffer.cells.length := by
            rw [hsame, hlen]
            exact hk
          rw [List.getElem?_set_self hbound, hvalue])
  refine ⟨buffer, ?_, hsame, hlog, fun e x h => hvalues e x h ?_⟩
  · unfold PhysicalDecodePlan.decodeInto
    refine bind_eq_ok.mpr ⟨(), ensure_eq_ok.mpr (decide_eq_true hpacked), bind_eq_ok.mpr ⟨(),
      ensure_eq_ok.mpr (decide_eq_true (hlen.trans hplan.elements.symm)),
      bind_eq_ok.mpr ⟨_, hloop, rfl⟩⟩⟩
  · rw [hlen]
    exact elementOffset_lt h

end PencilRs.Analysis
