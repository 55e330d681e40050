import PencilRs.Analysis.FileLayout
import PencilRs.Analysis.Hdf5RoundTrip
import PencilRs.Model.ContainerStore

/-!
# The bytes of a block in a file

The datatype of a rank selects the bytes of its block: the box of the block with the bytes of an
element as its last axis.  The bytes that the ranks write through their views are those of the
global array, one after another, and a rank reads back those of its block.
-/

set_option autoImplicit false

namespace PencilRs.Analysis

open PencilRs.Computation PencilRs.Model PencilRs.Model.MpiIo NamedMpi

variable {N M : ℕ} {scalar : ScalarType} {p : Pencil N M} {extraShape : ExtraShape} {width : ℕ}

/-! ## Places -/

/-- The box of the bytes of a block. -/
def byteAxes (p : Pencil N M) (extraShape : ExtraShape) (width : ℕ) : List BoxAxis :=
  blockAxes p extraShape ++ [wholeAxis width]

theorem boxSize_byteAxes :
    boxSize (byteAxes p extraShape width) = boxSize (blockAxes p extraShape) * width := by
  unfold byteAxes
  rw [boxSize_append, boxSize_cons, boxSize_nil, Nat.mul_one]
  rfl

theorem arraySize_byteAxes :
    arraySize (byteAxes p extraShape width) = arraySize (blockAxes p extraShape) * width := by
  unfold byteAxes
  rw [arraySize_append, arraySize_cons, arraySize_nil, Nat.mul_one]
  rfl

theorem inside_byteAxes : ∀ axis ∈ byteAxes p extraShape width, axis.Inside := by
  intro axis haxis
  cases List.mem_append.mp haxis with
  | inl h => exact inside_blockAxes axis h
  | inr h =>
    obtain rfl := List.mem_singleton.mp h
    exact (Nat.zero_add width).le

theorem boxPlace_byteAxes {n b : ℕ} (hn : n < boxSize (blockAxes p extraShape)) (hb : b < width) :
    boxPlace (byteAxes p extraShape width) (n * width + b)
      = boxPlace (blockAxes p extraShape) n * width + b := by
  have hlast : boxSize [wholeAxis width] = width := by
    rw [boxSize_cons, boxSize_nil, Nat.mul_one]
    rfl
  have happend := @boxPlace_append (blockAxes p extraShape) [wholeAxis width] n b hn
    (by rwa [hlast])
  have hwhole : boxPlace [wholeAxis width] b = b :=
    boxPlace_whole (fun axis haxis => by
      obtain rfl := List.mem_singleton.mp haxis
      exact ⟨rfl, rfl⟩) (by rwa [hlast])
  have hextent : arraySize [wholeAxis width] = width := by
    rw [arraySize_cons, arraySize_nil, Nat.mul_one]
    rfl
  rwa [hlast, hwhole, hextent] at happend

/-! ## Layouts -/

section Layouts

variable {reserved : Bool} {view : PencilArrayView scalar.Value N M} {layout : MpiLayout}

/-- The layout of a view selects the box of its bytes. -/
theorem payloadLayout_axes (h : payloadLayout reserved view = .ok layout) :
    layout.axes = byteAxes view.pencil view.extraShape scalar.width := by
  obtain ⟨_, _, rfl⟩ := buildLayout_eq_ok.mp h
  have hzip : ∀ (a b c a' b' c' : List ℕ), a.length = b.length → a.length = c.length →
      List.zipWith3 BoxAxis.mk (a ++ a') (b ++ b') (c ++ c')
        = List.zipWith3 BoxAxis.mk a b c ++ List.zipWith3 BoxAxis.mk a' b' c' := by
    intro a
    induction a with
    | nil =>
      intro b c a' b' c' hb hc
      obtain rfl := List.length_eq_zero_iff.mp hb.symm
      obtain rfl := List.length_eq_zero_iff.mp hc.symm
      rfl
    | cons x a ih =>
      intro b c a' b' c' hb hc
      obtain ⟨y, b, rfl⟩ := List.exists_cons_of_length_eq_add_one hb.symm
      obtain ⟨z, c, rfl⟩ := List.exists_cons_of_length_eq_add_one hc.symm
      have hrest := ih b c a' b' c' (by simpa using hb) (by simpa using hc)
      exact congrArg (BoxAxis.mk x y z :: ·) hrest
  have hextra : ∀ dims : List ℕ, List.zipWith3 BoxAxis.mk dims (dims.map fun _ => 0) dims
      = dims.map wholeAxis := by
    intro dims
    induction dims with
    | nil => rfl
    | cons d dims ih => exact congrArg (wholeAxis d :: ·) ih
  have hofFn : ∀ {n : ℕ} (a b c : Fin n → ℕ), List.zipWith3 BoxAxis.mk (List.ofFn a) (List.ofFn b)
      (List.ofFn c) = List.ofFn fun i => ⟨a i, b i, c i⟩ := by
    intro n
    induction n with
    | zero => exact fun _ _ _ => rfl
    | succ n ih =>
      intro a b c
      rw [List.ofFn_succ, List.ofFn_succ, List.ofFn_succ, List.ofFn_succ]
      exact congrArg (BoxAxis.mk (a 0) (b 0) (c 0) :: ·) (ih _ _ _)
  have hspatial : List.zipWith3 BoxAxis.mk (List.ofFn view.pencil.globalShape)
      (List.ofFn fun axis => (view.pencil.localRanges axis).start)
      (List.ofFn view.pencil.localShapeLogical) = List.ofFn (rangeAxis view.pencil) := by
    rw [hofFn]
    exact congrArg List.ofFn (funext fun axis =>
      congrArg (BoxAxis.mk _ _) (localShapeLogical_apply view.pencil axis))
  unfold MpiLayout.axes layoutOf byteAxes blockAxes
  rw [hzip _ _ _ _ _ _ (by simp) (by simp), hzip _ _ _ _ _ _ (by simp) (by simp), hextra, hspatial]
  rfl

/-- A rank without a datatype has nothing to select. -/
theorem payloadLayout_empty (h : payloadLayout reserved view = .ok layout)
    (hempty : layout.empty = true) :
    boxSize (byteAxes view.pencil view.extraShape scalar.width) = 0 := by
  obtain ⟨_, _, rfl⟩ := buildLayout_eq_ok.mp h
  rw [boxSize_byteAxes, boxSize_blockAxes, ← view_storage_length view]
  rcases Bool.or_eq_true_iff.mp hempty with hzero | hcontains
  · exact of_decide_eq_true hzero
  · have hnone : view.extraShape.elementCount = 0 := by
      rw [elementCount_eq]
      exact List.prod_eq_zero (List.contains_iff_mem.mp hcontains)
    rw [view_storage_length view, hnone, Nat.zero_mul, Nat.zero_mul]

/-- **The bytes of a view** stand at the places of the box. -/
theorem payloadView_place (h : payloadLayout reserved view = .ok layout) {disp k : ℕ}
    (hk : k < boxSize (byteAxes view.pencil view.extraShape scalar.width)) :
    NativeView.place ⟨disp, payloadType layout, 0⟩ k
      = disp + boxPlace (byteAxes view.pencil view.extraShape scalar.width) k := by
  cases hempty : layout.empty with
  | true => rw [payloadLayout_empty h hempty] at hk; omega
  | false =>
    unfold NativeView.place payloadType
    rw [if_neg (by rw [hempty]; exact Bool.false_ne_true)]
    simp only [payloadLayout_axes h]
    rw [Nat.div_eq_of_lt hk, Nat.mod_eq_of_lt hk, Nat.zero_mul, Nat.zero_add]

theorem mem_payloadWrites (h : payloadLayout reserved view = .ok layout) {disp : ℕ}
    {bytes : List Byte}
    (hlen : bytes.length ≤ boxSize (byteAxes view.pencil view.extraShape scalar.width))
    {w : ℕ × Byte} : w ∈ NativeView.writes ⟨disp, payloadType layout, 0⟩ 0 bytes ↔
      ∃ k, bytes[k]? = some w.2 ∧
        w.1 = disp + boxPlace (byteAxes view.pencil view.extraShape scalar.width) k := by
  unfold NativeView.writes
  rw [List.mem_map]
  constructor
  · rintro ⟨⟨byte, k⟩, hmem, rfl⟩
    have hbyte := List.mem_zipIdx_iff_getElem?.mp hmem
    have hk := (List.getElem?_eq_some_iff.mp hbyte).1
    refine ⟨k, hbyte, ?_⟩
    show NativeView.place _ (0 + k) = _
    rw [Nat.zero_add, payloadView_place h (by omega)]
  · rintro ⟨k, hbyte, hplace⟩
    have hk := (List.getElem?_eq_some_iff.mp hbyte).1
    refine ⟨(w.2, k), List.mem_zipIdx_iff_getElem?.mpr hbyte, Prod.ext ?_ rfl⟩
    show NativeView.place _ (0 + k) = w.1
    rw [Nat.zero_add, payloadView_place h (by omega), hplace]

/-- What is written through a view stays inside the payload. -/
theorem payloadWrites_inside (h : payloadLayout reserved view = .ok layout) {disp : ℕ}
    {bytes : List Byte}
    (hlen : bytes.length ≤ boxSize (byteAxes view.pencil view.extraShape scalar.width))
    {w : ℕ × Byte} (hw : w ∈ NativeView.writes ⟨disp, payloadType layout, 0⟩ 0 bytes) :
    disp ≤ w.1 ∧ w.1 < disp + arraySize (byteAxes view.pencil view.extraShape scalar.width) := by
  obtain ⟨k, hbyte, hplace⟩ := (mem_payloadWrites h hlen).mp hw
  have hk := (List.getElem?_eq_some_iff.mp hbyte).1
  have hlt := boxPlace_lt (inside_byteAxes (p := view.pencil)) (hk.trans_le hlen)
  omega

end Layouts

/-! ## Strings -/

theorem getElem?_flatMap_encodeLe {values : List scalar.Value} {n b : ℕ} (hb : b < scalar.width) :
    (values.flatMap scalar.encodeLe)[n * scalar.width + b]?
      = (values[n]?).bind fun value => (scalar.encodeLe value)[b]? := by
  induction values generalizing n with
  | nil => simp
  | cons first values ih =>
    rw [List.flatMap_cons]
    have hlen : (scalar.encodeLe first).length = scalar.width := ScalarType.length_encodeLe _ _
    cases n with
    | zero =>
      rw [Nat.zero_mul, Nat.zero_add, List.getElem?_append_left (by omega)]
      rfl
    | succ n =>
      rw [List.getElem?_append_right (by rw [hlen, Nat.succ_mul]; omega), hlen,
        show (n + 1) * scalar.width + b - scalar.width = n * scalar.width + b by
          rw [Nat.succ_mul]; omega, ih, List.getElem?_cons_succ]

/-- A place among the bytes of elements. -/
theorem exists_bytePlace {width n k : ℕ} (hk : k < n * width) :
    ∃ i b, i < n ∧ b < width ∧ k = i * width + b := by
  have hwidth : 0 < width := Nat.pos_of_mul_pos_left (Nat.zero_lt_of_lt hk)
  refine ⟨k / width, k % width, ?_, Nat.mod_lt k hwidth, (Nat.div_add_mod' k width).symm⟩
  exact Nat.div_lt_of_lt_mul (by rwa [Nat.mul_comm] at hk)

/-- The bytes of elements that stand in an array stand in the bytes of the array. -/
theorem flatMap_encodeLe_place {block values : List scalar.Value}
    (h : ∀ n < boxSize (blockAxes p extraShape),
      block[n]? = values[boxPlace (blockAxes p extraShape) n]?) {k : ℕ}
    (hk : k < boxSize (byteAxes p extraShape scalar.width)) :
    (block.flatMap scalar.encodeLe)[k]?
      = (values.flatMap scalar.encodeLe)[boxPlace (byteAxes p extraShape scalar.width) k]? := by
  rw [boxSize_byteAxes] at hk
  obtain ⟨n, b, hn, hb, rfl⟩ := exists_bytePlace hk
  rw [boxPlace_byteAxes hn hb, getElem?_flatMap_encodeLe hb, getElem?_flatMap_encodeLe hb, h n hn]

/-! ## All ranks -/

section Ranks

variable {topology : MpiTopology M} {pencils : DistributedPencil topology N}
  {view : DistributedView pencils extraShape scalar.Value} {values : List scalar.Value}

/-- The bytes of the blocks of all ranks are those of the global array. -/
theorem mem_writesFrom_iff (hvalues : IsGlobalArray view values)
    {blocks : Coords topology.processGrid → List scalar.Value}
    (hblocks : ∀ c, IsPacked (view.on c) (blocks c)) {disp : ℕ} {w : ℕ × Byte} :
    w ∈ writesFrom disp (values.flatMap scalar.encodeLe) ↔
      ∃ c k, ((blocks c).flatMap scalar.encodeLe)[k]? = some w.2 ∧
        w.1 = disp + boxPlace (byteAxes (pencils.on c) extraShape scalar.width) k := by
  have hbytes : ∀ c, ((blocks c).flatMap scalar.encodeLe).length
      = boxSize (byteAxes (pencils.on c) extraShape scalar.width) := by
    intro c
    rw [length_flatMap_encodeLe, (hblocks c).length_eq, boxSize_byteAxes]
  have hplace : ∀ c, ∀ k < boxSize (byteAxes (pencils.on c) extraShape scalar.width),
      ((blocks c).flatMap scalar.encodeLe)[k]? = (values.flatMap scalar.encodeLe)[boxPlace
        (byteAxes (pencils.on c) extraShape scalar.width) k]? := fun c k hk =>
    flatMap_encodeLe_place (fun n hn => (hblocks c).getElem_eq hvalues hn) hk
  rw [mem_writesFrom]
  constructor
  · rintro ⟨place, hbyte, hw⟩
    have hlt := (List.getElem?_eq_some_iff.mp hbyte).1
    rw [length_flatMap_encodeLe, hvalues.length] at hlt
    obtain ⟨i, b, hi, hb, rfl⟩ := exists_bytePlace hlt
    obtain ⟨c, n, hn, rfl⟩ := exists_boxPlace hi
    have hk : n * scalar.width + b < boxSize (byteAxes (pencils.on c) extraShape scalar.width) := by
      rw [boxSize_byteAxes]
      calc n * scalar.width + b < (n + 1) * scalar.width := by rw [Nat.succ_mul]; omega
        _ ≤ _ := Nat.mul_le_mul_right _ hn
    refine ⟨c, n * scalar.width + b, ?_, ?_⟩
    · rw [hplace c _ hk, boxPlace_byteAxes hn hb, hbyte]
    · rw [boxPlace_byteAxes hn hb, hw]
  · rintro ⟨c, k, hbyte, hw⟩
    have hk := (List.getElem?_eq_some_iff.mp hbyte).1
    rw [hbytes] at hk
    exact ⟨_, by rw [← hplace c k hk, hbyte], hw⟩

end Ranks

end PencilRs.Analysis
