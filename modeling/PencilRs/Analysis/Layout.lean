import PencilRs.Analysis.Partition
import PencilRs.Computation.MixedRadix
import PencilRs.Model.View

/-!
# Where an element is stored

`rowMajorOffset` evaluates a mixed-radix number, most significant index first.  The
element of extra index `e` at local position `x` is therefore at
`extraOffset e * localLen + layoutOffset x`, and the two parts are bijections onto
`[0, elementCount)` and `[0, localLen)`.
-/

set_option autoImplicit false

namespace PencilRs.Analysis

open PencilRs.Computation PencilRs.Model

/-! ## The Horner loop -/

/-- The row-major number of an index list. -/
def rowMajorValue (shape indices : List ℕ) : ℕ :=
  MixedRadix.value Prod.fst Prod.snd (shape.zip indices).reverse

theorem value_reverse_cons (x : ℕ × ℕ) (l : List (ℕ × ℕ)) :
    MixedRadix.value Prod.fst Prod.snd (x :: l).reverse
      = x.2 * MixedRadix.size Prod.fst l + MixedRadix.value Prod.fst Prod.snd l.reverse := by
  rw [List.reverse_cons, MixedRadix.value_append, MixedRadix.size_reverse]
  simp only [MixedRadix.value_cons, MixedRadix.value_nil]
  ring

theorem foldlM_rowMajorStep_ok {l : List (ℕ × ℕ)} {offset r k : ℕ}
    (h : (l.zipIdx k).foldlM rowMajorStep offset = .ok r) :
    (∀ x ∈ l, x.2 < x.1) ∧
      r = offset * MixedRadix.size Prod.fst l
        + MixedRadix.value Prod.fst Prod.snd l.reverse := by
  induction l generalizing offset k with
  | nil =>
    have : offset = r := Except.ok.inj h
    simp [this]
  | cons x l ih =>
    obtain ⟨extent, index⟩ := x
    rw [List.zipIdx_cons, List.foldlM_cons] at h
    by_cases hge : index ≥ extent
    · simp [rowMajorStep, hge, bind, Except.bind] at h
    · cases hstep : (checkedMul offset extent).bind fun base => checkedAdd base index with
      | none => simp [rowMajorStep, hge, hstep, bind, Except.bind] at h
      | some next =>
        have hnext : next = offset * extent + index := by
          obtain ⟨base, hmul, hadd⟩ := Option.bind_eq_some_iff.mp hstep
          rw [← (checkedAdd_eq_some.mp hadd).2, ← (checkedMul_eq_some.mp hmul).2]
        have hone : rowMajorStep offset ((extent, index), k) = .ok next := by
          simp [rowMajorStep, hge, hstep]
        rw [hone] at h
        obtain ⟨hall, hr⟩ := ih h
        refine ⟨?_, ?_⟩
        · intro y hy
          cases List.mem_cons.mp hy with
          | inl heq => subst heq; exact Nat.lt_of_not_le hge
          | inr hmem => exact hall y hmem
        · rw [hr, hnext, value_reverse_cons, MixedRadix.size_cons]
          ring

theorem foldlM_rowMajorStep_of_lt {l : List (ℕ × ℕ)} {offset k : ℕ}
    (hall : ∀ x ∈ l, x.2 < x.1)
    (hfit : (offset + 1) * MixedRadix.size Prod.fst l ≤ usizeLimit) :
    (l.zipIdx k).foldlM rowMajorStep offset
      = .ok (offset * MixedRadix.size Prod.fst l
          + MixedRadix.value Prod.fst Prod.snd l.reverse) := by
  induction l generalizing offset k with
  | nil => simp [pure, Except.pure]
  | cons x l ih =>
    obtain ⟨extent, index⟩ := x
    have hlt : index < extent := hall (extent, index) (by simp)
    have hrest : ∀ y ∈ l, y.2 < y.1 := fun y hy => hall y (by simp [hy])
    have hsize : 0 < MixedRadix.size Prod.fst l :=
      MixedRadix.size_pos fun y hy => Nat.lt_of_le_of_lt (Nat.zero_le _) (hrest y hy)
    rw [MixedRadix.size_cons, ← Nat.mul_assoc] at hfit
    have hgrow : offset * extent + index + 1 ≤ (offset + 1) * extent := by
      rw [Nat.add_mul]
      omega
    have hnext : (offset * extent + index + 1) * MixedRadix.size Prod.fst l ≤ usizeLimit :=
      (Nat.mul_le_mul_right _ hgrow).trans hfit
    have hsmall : offset * extent + index + 1 ≤ usizeLimit :=
      (Nat.le_mul_of_pos_right _ hsize).trans hnext
    have hstep : rowMajorStep offset ((extent, index), k) = .ok (offset * extent + index) := by
      have hmul : checkedMul offset extent = some (offset * extent) :=
        checkedMul_eq_some.mpr ⟨by omega, rfl⟩
      have hadd : checkedAdd (offset * extent) index = some (offset * extent + index) :=
        checkedAdd_eq_some.mpr ⟨by omega, rfl⟩
      simp [rowMajorStep, Nat.not_le.mpr hlt, hmul, hadd]
    rw [List.zipIdx_cons, List.foldlM_cons, hstep]
    have hrun := ih (k := k + 1) hrest hnext
    rw [value_reverse_cons, MixedRadix.size_cons]
    simp only [bind, Except.bind]
    rw [hrun]
    congr 1
    ring

theorem size_zip {shape indices : List ℕ} (h : shape.length = indices.length) :
    MixedRadix.size Prod.fst (shape.zip indices) = shape.prod := by
  rw [MixedRadix.size, List.map_fst_zip h.le]

theorem rowMajorOffset_ok {shape indices : List ℕ} {r : ℕ}
    (h : rowMajorOffset shape indices = .ok r) :
    shape.length = indices.length ∧ (∀ x ∈ shape.zip indices, x.2 < x.1) ∧
      r = rowMajorValue shape indices := by
  unfold rowMajorOffset at h
  by_cases hlen : shape.length = indices.length
  · simp only [hlen, ne_eq, not_true_eq_false, ↓reduceIte] at h
    obtain ⟨hall, hr⟩ := foldlM_rowMajorStep_ok h
    exact ⟨hlen, hall, by simpa [rowMajorValue] using hr⟩
  · simp [hlen] at h

theorem rowMajorOffset_of_lt {shape indices : List ℕ} (hlen : shape.length = indices.length)
    (hall : ∀ x ∈ shape.zip indices, x.2 < x.1) (hfit : shape.prod ≤ usizeLimit) :
    rowMajorOffset shape indices = .ok (rowMajorValue shape indices) := by
  unfold rowMajorOffset rowMajorValue
  simp only [hlen, ne_eq, not_true_eq_false, ↓reduceIte]
  rw [foldlM_rowMajorStep_of_lt hall (by rw [size_zip hlen]; omega)]
  simp

/-! ## Index lists and row-major numbers -/

/-- A valid index list: one index below each extent. -/
def ValidIndices (shape indices : List ℕ) : Prop :=
  indices.length = shape.length ∧ ∀ x ∈ shape.zip indices, x.2 < x.1

instance (shape indices : List ℕ) : Decidable (ValidIndices shape indices) :=
  inferInstanceAs (Decidable (_ ∧ _))

theorem zip_eq_map_range {shape indices : List ℕ} (h : indices.length = shape.length) :
    shape.zip indices
      = (List.range shape.length).map fun i => (shape.getD i 0, indices.getD i 0) := by
  apply List.ext_getElem
  · simp [h]
  · intro i h1 h2
    simp only [List.length_zip, lt_inf_iff] at h1
    simp [List.getElem_zip, List.getD_eq_getElem?_getD, h1.1, h1.2]

theorem rowMajorValue_eq {shape indices : List ℕ} (h : indices.length = shape.length) :
    rowMajorValue shape indices
      = MixedRadix.value (fun i => shape.getD i 0) (fun i => indices.getD i 0)
          (List.range shape.length).reverse := by
  unfold rowMajorValue
  rw [zip_eq_map_range h, ← List.map_reverse, MixedRadix.value_map]
  rfl

theorem rowMajorValue_cons {shape indices : List ℕ} (h : indices.length = shape.length)
    (extent index : ℕ) :
    rowMajorValue (extent :: shape) (index :: indices)
      = index * shape.prod + rowMajorValue shape indices := by
  unfold rowMajorValue
  rw [List.zip_cons_cons, value_reverse_cons, size_zip h.symm]

theorem validIndices_cons {shape indices : List ℕ} {extent index : ℕ} :
    ValidIndices (extent :: shape) (index :: indices) ↔
      index < extent ∧ ValidIndices shape indices := by
  unfold ValidIndices
  rw [List.zip_cons_cons, List.forall_mem_cons, List.length_cons, List.length_cons,
    Nat.add_right_cancel_iff]
  exact and_left_comm

theorem size_getD (shape : List ℕ) :
    MixedRadix.size (fun i => shape.getD i 0) (List.range shape.length).reverse
      = shape.prod := by
  rw [MixedRadix.size_reverse, MixedRadix.size]
  congr 1
  apply List.ext_getElem
  · simp
  · intro i h1 h2
    simp [List.getD_eq_getElem?_getD, h2]

theorem validIndices_getD {shape indices : List ℕ} (h : ValidIndices shape indices) :
    ∀ i ∈ (List.range shape.length).reverse, indices.getD i 0 < shape.getD i 0 := by
  intro i hi
  have hmem : (shape.getD i 0, indices.getD i 0) ∈ shape.zip indices := by
    rw [zip_eq_map_range h.1]
    exact List.mem_map.mpr ⟨i, by simpa using hi, rfl⟩
  exact h.2 _ hmem

theorem rowMajorValue_lt {shape indices : List ℕ} (h : ValidIndices shape indices) :
    rowMajorValue shape indices < shape.prod := by
  rw [rowMajorValue_eq h.1, ← size_getD shape]
  exact MixedRadix.value_lt_size (validIndices_getD h)

theorem rowMajorValue_inj {shape a b : List ℕ} (ha : ValidIndices shape a)
    (hb : ValidIndices shape b) (h : rowMajorValue shape a = rowMajorValue shape b) : a = b := by
  rw [rowMajorValue_eq ha.1, rowMajorValue_eq hb.1] at h
  have hdig := MixedRadix.value_inj (validIndices_getD ha) (validIndices_getD hb) h
  apply List.ext_getElem (ha.1.trans hb.1.symm)
  intro i h1 h2
  have := hdig i (by simp; rw [← ha.1]; exact h1)
  simpa [List.getD_eq_getElem?_getD, h1, h2] using this

/-- The index list with row-major number `k`. -/
def indicesOf (shape : List ℕ) (k : ℕ) : List ℕ :=
  (List.range shape.length).map
    (MixedRadix.digit (fun i => shape.getD i 0) (List.range shape.length).reverse k)

theorem length_indicesOf (shape : List ℕ) (k : ℕ) :
    (indicesOf shape k).length = shape.length := by
  simp [indicesOf]

theorem indicesOf_getD {shape : List ℕ} (k : ℕ) {i : ℕ} (h : i < shape.length) :
    (indicesOf shape k).getD i 0
      = MixedRadix.digit (fun i => shape.getD i 0) (List.range shape.length).reverse k i := by
  simp [indicesOf, List.getD_eq_getElem?_getD, h]

theorem validIndices_indicesOf {shape : List ℕ} {k : ℕ} (h : k < shape.prod) :
    ValidIndices shape (indicesOf shape k) := by
  refine ⟨length_indicesOf shape k, ?_⟩
  rw [zip_eq_map_range (length_indicesOf shape k)]
  intro x hx
  obtain ⟨i, hi, rfl⟩ := List.mem_map.mp hx
  have hpos : 0 < MixedRadix.size (fun i => shape.getD i 0) (List.range shape.length).reverse := by
    rw [size_getD]
    omega
  simp only
  rw [indicesOf_getD k (by simpa using hi)]
  exact MixedRadix.digit_lt k (MixedRadix.radix_pos hpos) i (by simpa using hi)

theorem rowMajorValue_indicesOf {shape : List ℕ} {k : ℕ} (h : k < shape.prod) :
    rowMajorValue shape (indicesOf shape k) = k := by
  rw [rowMajorValue_eq (length_indicesOf shape k)]
  have hdig : ∀ i ∈ (List.range shape.length).reverse, (indicesOf shape k).getD i 0
      = MixedRadix.digit (fun i => shape.getD i 0) (List.range shape.length).reverse k i :=
    fun i hi => indicesOf_getD k (by simpa using hi)
  rw [MixedRadix.value_congr hdig]
  exact MixedRadix.value_digit (by simpa using List.nodup_range) (by rwa [size_getD])

/-! ## Spatial offsets -/

variable {N M : ℕ}

/-- The axes of an `N`-dimensional row-major array, fastest first. -/
def axesFastestFirst (N : ℕ) : List (Fin N) := (List.finRange N).reverse

theorem nodup_axesFastestFirst : (axesFastestFirst N).Nodup :=
  List.nodup_reverse.mpr (List.nodup_finRange N)

@[simp] theorem mem_axesFastestFirst (axis : Fin N) : axis ∈ axesFastestFirst N := by
  simp [axesFastestFirst]

theorem size_axesFastestFirst (f : Fin N → ℕ) :
    MixedRadix.size f (axesFastestFirst N) = ∏ axis, f axis := by
  rw [axesFastestFirst, MixedRadix.size_reverse, MixedRadix.size, ← List.ofFn_eq_map,
    List.prod_ofFn]

/-- Offset of the local logical position `x` inside one block of local storage. -/
def layoutOffset (p : Pencil N M) (x : Fin N → ℕ) : ℕ :=
  MixedRadix.value p.localShapeMemory (p.permutation.permute x) (axesFastestFirst N)

/-- The local index tuple lies in the local box. -/
def ValidLocal (p : Pencil N M) (x : Fin N → ℕ) : Prop :=
  ∀ axis, x axis < p.localShapeLogical axis

instance (p : Pencil N M) (x : Fin N → ℕ) : Decidable (ValidLocal p x) :=
  inferInstanceAs (Decidable (∀ _, _))

theorem localShapeMemory_apply (p : Pencil N M) (position : Fin N) :
    p.localShapeMemory position
      = p.localShapeLogical (p.permutation.axesInMemoryOrder position) := by
  rw [p.localShapeMemory_eq]
  rfl

theorem localLen_eq (p : Pencil N M) : p.localLen = ∏ axis, p.localShapeLogical axis := by
  rw [checkedProduct_ok p.localLen_ok, List.prod_ofFn]

theorem prod_localShapeMemory (p : Pencil N M) :
    ∏ position, p.localShapeMemory position = p.localLen := by
  rw [localLen_eq, p.localShapeMemory_eq]
  exact Fintype.prod_bijective _ p.permutation.bijective _ _ fun _ => rfl

theorem localLen_lt (p : Pencil N M) : p.localLen < usizeLimit := checkedProduct_lt p.localLen_ok

theorem validLocal_memory {p : Pencil N M} {x : Fin N → ℕ} (h : ValidLocal p x) :
    ∀ position ∈ axesFastestFirst N,
      p.permutation.permute x position < p.localShapeMemory position := by
  intro position _
  rw [localShapeMemory_apply]
  exact h _

theorem layoutOffset_lt {p : Pencil N M} {x : Fin N → ℕ} (h : ValidLocal p x) :
    layoutOffset p x < p.localLen := by
  rw [← prod_localShapeMemory, ← size_axesFastestFirst]
  exact MixedRadix.value_lt_size (validLocal_memory h)

theorem layoutOffset_inj {p : Pencil N M} {x y : Fin N → ℕ} (hx : ValidLocal p x)
    (hy : ValidLocal p y) (h : layoutOffset p x = layoutOffset p y) : x = y := by
  funext axis
  obtain ⟨position, rfl⟩ := p.permutation.surjective axis
  exact MixedRadix.value_inj (validLocal_memory hx) (validLocal_memory hy) h position
    (mem_axesFastestFirst position)

theorem exists_layoutOffset {p : Pencil N M} {k : ℕ} (h : k < p.localLen) :
    ∃ x, ValidLocal p x ∧ layoutOffset p x = k := by
  have hsize : k < MixedRadix.size p.localShapeMemory (axesFastestFirst N) := by
    rwa [size_axesFastestFirst, prod_localShapeMemory]
  have hpos := MixedRadix.radix_pos (Nat.lt_of_le_of_lt (Nat.zero_le k) hsize)
  obtain ⟨inv, hinv⟩ := Function.bijective_iff_has_inverse.mp p.permutation.bijective
  let x : Fin N → ℕ := fun axis =>
    MixedRadix.digit p.localShapeMemory (axesFastestFirst N) k (inv axis)
  have hperm : p.permutation.permute x
      = MixedRadix.digit p.localShapeMemory (axesFastestFirst N) k := by
    funext position
    simp only [AxisPermutation.permute_apply, x, hinv.1 position]
  refine ⟨x, ?_, ?_⟩
  · intro axis
    obtain ⟨position, rfl⟩ := p.permutation.surjective axis
    have := MixedRadix.digit_lt k hpos position (mem_axesFastestFirst position)
    rw [← localShapeMemory_apply]
    exact (congrFun hperm position).trans_lt this
  · rw [layoutOffset, hperm]
    exact MixedRadix.value_digit nodup_axesFastestFirst hsize

/-- Offsets of local positions add up. -/
theorem layoutOffset_add (p : Pencil N M) (x y : Fin N → ℕ) :
    layoutOffset p (fun axis => x axis + y axis) = layoutOffset p x + layoutOffset p y :=
  MixedRadix.value_add _ _ _ _

/-! ## Element offsets -/

/-- Valid extra and local spatial indices. -/
def ValidElement (p : Pencil N M) (extraShape : ExtraShape) (e : List ℕ) (x : Fin N → ℕ) :
    Prop :=
  ValidIndices extraShape.dimensions e ∧ ValidLocal p x

/-- Where the element is stored. -/
def elementOffset (p : Pencil N M) (extraShape : ExtraShape) (e : List ℕ) (x : Fin N → ℕ) : ℕ :=
  rowMajorValue extraShape.dimensions e * p.localLen + layoutOffset p x

theorem elementCount_eq (extraShape : ExtraShape) :
    extraShape.elementCount = extraShape.dimensions.prod :=
  checkedProduct_ok extraShape.elementCount_ok

theorem zip_memoryShape (p : Pencil N M) (extraShape : ExtraShape) {e : List ℕ}
    (x : Fin N → ℕ) (h : e.length = extraShape.dimensions.length) :
    (memoryShape p extraShape).zip
        (e ++ List.ofFn fun position => x (p.permutation.axesInMemoryOrder position))
      = extraShape.dimensions.zip e
        ++ (List.finRange N).map fun position =>
            (p.localShapeMemory position, p.permutation.permute x position) := by
  unfold memoryShape
  rw [List.zip_append h.symm]
  congr 1
  rw [List.ofFn_eq_map, List.ofFn_eq_map, List.zip_map', ]
  rfl

theorem rowMajorValue_memoryShape (p : Pencil N M) (extraShape : ExtraShape) {e : List ℕ}
    (x : Fin N → ℕ) (h : e.length = extraShape.dimensions.length) :
    rowMajorValue (memoryShape p extraShape)
        (e ++ List.ofFn fun position => x (p.permutation.axesInMemoryOrder position))
      = elementOffset p extraShape e x := by
  unfold rowMajorValue elementOffset layoutOffset rowMajorValue
  rw [zip_memoryShape p extraShape x h, List.reverse_append, MixedRadix.value_append,
    ← List.map_reverse, MixedRadix.value_map, MixedRadix.size_map]
  have hsize : MixedRadix.size (Prod.fst ∘ fun position : Fin N =>
      (p.localShapeMemory position, p.permutation.permute x position))
        (List.finRange N).reverse = p.localLen := by
    rw [← prod_localShapeMemory]
    exact size_axesFastestFirst p.localShapeMemory
  rw [hsize, Nat.add_comm, Nat.mul_comm]
  rfl

theorem mem_zip_memoryShape (p : Pencil N M) (extraShape : ExtraShape) {e : List ℕ}
    (x : Fin N → ℕ) (h : e.length = extraShape.dimensions.length) :
    (∀ y ∈ (memoryShape p extraShape).zip
        (e ++ List.ofFn fun position => x (p.permutation.axesInMemoryOrder position)),
        y.2 < y.1) ↔ ValidElement p extraShape e x := by
  rw [zip_memoryShape p extraShape x h]
  constructor
  · intro hall
    refine ⟨⟨h, fun y hy => hall y (List.mem_append_left _ hy)⟩, ?_⟩
    intro axis
    obtain ⟨position, rfl⟩ := p.permutation.surjective axis
    rw [← localShapeMemory_apply]
    exact hall (_, _) (List.mem_append_right _
      (List.mem_map.mpr ⟨position, List.mem_finRange position, rfl⟩))
  · rintro ⟨⟨_, hextra⟩, hlocal⟩ y hy
    cases List.mem_append.mp hy with
    | inl hy => exact hextra y hy
    | inr hy =>
      obtain ⟨position, _, rfl⟩ := List.mem_map.mp hy
      simp only [localShapeMemory_apply]
      exact hlocal _

/-- `local_offset` returns on the valid indices only, and returns the element's offset. -/
theorem localOffset_eq_ok {p : Pencil N M} {extraShape : ExtraShape}
    (hfit : extraShape.elementCount * p.localLen < usizeLimit) {e : List ℕ} {x : Fin N → ℕ}
    {offset : ℕ} :
    localOffset p extraShape e x = .ok offset ↔
      ValidElement p extraShape e x ∧ offset = elementOffset p extraShape e x := by
  unfold localOffset
  by_cases hlen : e.length = extraShape.dimensions.length
  · simp only [hlen, ne_eq, not_true_eq_false, ↓reduceIte]
    constructor
    · intro h
      cases hrow : rowMajorOffset (memoryShape p extraShape)
          (e ++ List.ofFn fun position => x (p.permutation.axesInMemoryOrder position)) with
      | error err => simp [hrow, Except.mapError] at h
      | ok r =>
        obtain ⟨_, hall, hr⟩ := rowMajorOffset_ok hrow
        rw [hrow] at h
        have hoff : r = offset := Except.ok.inj h
        refine ⟨(mem_zip_memoryShape p extraShape x hlen).mp hall, ?_⟩
        rw [← hoff, hr, rowMajorValue_memoryShape p extraShape x hlen]
    · rintro ⟨hvalid, rfl⟩
      have hshape : (memoryShape p extraShape).prod ≤ usizeLimit := by
        unfold memoryShape
        rw [List.prod_append, List.prod_ofFn, prod_localShapeMemory, ← elementCount_eq]
        omega
      rw [rowMajorOffset_of_lt (by simp [memoryShape, hlen])
        ((mem_zip_memoryShape p extraShape x hlen).mpr hvalid) hshape,
        rowMajorValue_memoryShape p extraShape x hlen]
      rfl
  · simp only [ne_eq, hlen, not_false_eq_true, ↓reduceIte, reduceCtorEq, false_iff]
    rintro ⟨⟨⟨h, _⟩, _⟩, _⟩
    exact hlen h

theorem elementOffset_lt {p : Pencil N M} {extraShape : ExtraShape} {e : List ℕ}
    {x : Fin N → ℕ} (h : ValidElement p extraShape e x) :
    elementOffset p extraShape e x < extraShape.elementCount * p.localLen := by
  have he := rowMajorValue_lt h.1
  have hx := layoutOffset_lt h.2
  rw [← elementCount_eq] at he
  calc elementOffset p extraShape e x
      < rowMajorValue extraShape.dimensions e * p.localLen + p.localLen := by
        unfold elementOffset
        omega
    _ = (rowMajorValue extraShape.dimensions e + 1) * p.localLen := by ring
    _ ≤ extraShape.elementCount * p.localLen := Nat.mul_le_mul_right _ he

theorem elementOffset_inj {p : Pencil N M} {extraShape : ExtraShape} {e f : List ℕ}
    {x y : Fin N → ℕ} (hx : ValidElement p extraShape e x) (hy : ValidElement p extraShape f y)
    (h : elementOffset p extraShape e x = elementOffset p extraShape f y) : e = f ∧ x = y := by
  have hxlt := layoutOffset_lt hx.2
  have hylt := layoutOffset_lt hy.2
  have hpos : 0 < p.localLen := by omega
  unfold elementOffset at h
  have hlow : layoutOffset p x = layoutOffset p y := by
    have := congrArg (· % p.localLen) h
    simpa [Nat.mul_add_mod_self_right, Nat.mod_eq_of_lt hxlt, Nat.mod_eq_of_lt hylt] using this
  have hhigh : rowMajorValue extraShape.dimensions e
      = rowMajorValue extraShape.dimensions f := by
    rw [hlow] at h
    exact Nat.eq_of_mul_eq_mul_right hpos (Nat.add_right_cancel h)
  exact ⟨rowMajorValue_inj hx.1 hy.1 hhigh, layoutOffset_inj hx.2 hy.2 hlow⟩

theorem exists_elementOffset {p : Pencil N M} {extraShape : ExtraShape} {offset : ℕ}
    (h : offset < extraShape.elementCount * p.localLen) :
    ∃ e x, ValidElement p extraShape e x ∧ elementOffset p extraShape e x = offset := by
  have hpos : 0 < p.localLen := Nat.pos_of_mul_pos_left (Nat.lt_of_le_of_lt (Nat.zero_le _) h)
  have hq : offset / p.localLen < extraShape.dimensions.prod := by
    rw [← elementCount_eq]
    exact Nat.div_lt_of_lt_mul (by rwa [Nat.mul_comm])
  obtain ⟨x, hx, hoff⟩ := exists_layoutOffset (Nat.mod_lt offset hpos)
  refine ⟨indicesOf extraShape.dimensions (offset / p.localLen), x,
    ⟨validIndices_indicesOf hq, hx⟩, ?_⟩
  unfold elementOffset
  rw [rowMajorValue_indicesOf hq, hoff]
  exact Nat.div_add_mod' offset p.localLen

end PencilRs.Analysis
