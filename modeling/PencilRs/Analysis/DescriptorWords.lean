import PencilRs.Analysis.CollectiveLayout
import PencilRs.Computation.Delimited
import PencilRs.Model.IoDescriptor
import PencilRs.Model.SpatialRemap

/-!
# What descriptors tell

Every part of a descriptor is a word, a number of words that is known from the words in front of
it, or a sequence behind its length.  So equal descriptors were built from equal requests, and
each has the length its builder announces.
-/

set_option autoImplicit false

namespace PencilRs.Analysis

open PencilRs.Computation PencilRs.Model

variable {N M N' M' : ℕ}

/-! ## Words -/

theorem ofExpectedLength_eq_some {reserved : Bool} {expectedLen : Option ℕ}
    {words descriptor : List (BitVec 64)}
    (h : ofExpectedLength reserved expectedLen words = some descriptor) :
    descriptor = words ∧ expectedLen = some words.length := by
  unfold ofExpectedLength at h
  cases expectedLen with
  | none => contradiction
  | some length =>
    cases reserved with
    | false => contradiction
    | true =>
      simp only [Option.bind_eq_bind, Option.bind_some, Bool.not_true, Bool.false_eq_true, if_false]
        at h
      by_cases hne : words.length ≠ length
      · simp [hne] at h
      · simp only [if_neg hne] at h
        exact ⟨(Option.some.inj h).symm, congrArg some (not_not.mp hne).symm⟩

theorem ofNat64_inj {a b : ℕ} (ha : a < usizeLimit) (hb : b < usizeLimit)
    (h : BitVec.ofNat 64 a = BitVec.ofNat 64 b) : a = b := by
  have hnat := congrArg BitVec.toNat h
  rw [BitVec.toNat_ofNat, BitVec.toNat_ofNat] at hnat
  calc a = a % 2 ^ 64 := (Nat.mod_eq_of_lt ha).symm
    _ = b % 2 ^ 64 := hnat
    _ = b := Nat.mod_eq_of_lt hb

theorem words64_inj {l l' : List ℕ} (hl : ∀ a ∈ l, a < usizeLimit) (hl' : ∀ a ∈ l', a < usizeLimit)
    (h : words64 l = words64 l') : l = l' := by
  induction l generalizing l' with
  | nil =>
    cases l' with
    | nil => rfl
    | cons b l' => contradiction
  | cons a l ih =>
    cases l' with
    | nil => contradiction
    | cons b l' =>
      obtain ⟨hhead, htail⟩ := List.cons.inj h
      rw [ofNat64_inj (hl a (List.mem_cons_self ..)) (hl' b (List.mem_cons_self ..)) hhead,
        ih (fun c hc => hl c (List.mem_cons_of_mem _ hc))
          (fun c hc => hl' c (List.mem_cons_of_mem _ hc)) htail]

theorem delimited_word : Delimited (· < usizeLimit) fun n => [BitVec.ofNat 64 n] :=
  Delimited.of_length (fun _ _ => rfl) fun _ _ ha hb h => ofNat64_inj ha hb (List.cons.inj h).1

/-- The two halves of a word. -/
theorem delimited_appendWord : Delimited (· < usizeLimit) appendWord := by
  apply Delimited.of_length fun n _ => appendWord_length n
  intro a b ha hb h
  obtain ⟨hlow, hhigh⟩ := List.cons.inj h
  have hlow := congrArg BitVec.toNat hlow
  have hhigh := congrArg BitVec.toNat (List.cons.inj hhigh).1
  simp only [BitVec.toNat_ofNat, Nat.shiftRight_eq_div_pow] at hlow hhigh
  unfold usizeLimit at ha hb
  omega

theorem delimited_leBytes : Delimited (· < usizeLimit) (leBytes 8) := by
  apply Delimited.of_length fun n _ => length_leBytes 8 n
  intro a b ha hb h
  have hvalue := congrArg leValue h
  rwa [leValue_leBytes_of_lt (by exact ha), leValue_leBytes_of_lt (by exact hb)] at hvalue

theorem words64_eq_flatMap (values : List ℕ) :
    words64 values = values.flatMap fun n => [BitVec.ofNat 64 n] :=
  List.map_eq_flatMap

@[simp] theorem length_words64 (values : List ℕ) : (words64 values).length = values.length :=
  List.length_map _

/-- A byte is a word of its own. -/
theorem delimited_byte : Delimited (fun _ => True) fun byte : BitVec 8 => [byte.setWidth 64] := by
  refine Delimited.of_length (fun _ _ => rfl) fun a b _ _ h => ?_
  have hvalue := congrArg BitVec.toNat (List.cons.inj h).1
  rw [BitVec.toNat_setWidth_of_le (by decide), BitVec.toNat_setWidth_of_le (by decide)] at hvalue
  exact BitVec.eq_of_toNat_eq hvalue

theorem delimited_typeName :
    Delimited (fun name => name.length < usizeLimit) typeNameWords := by
  intro a b ha hb s t h
  unfold typeNameWords at h
  rw [List.map_eq_flatMap, List.map_eq_flatMap] at h
  exact delimited_word.counted delimited_byte ⟨ha, fun _ _ => trivial⟩ ⟨hb, fun _ _ => trivial⟩ h

/-- Equal dimensions have equal counts. -/
theorem extraShape_ext {a b : ExtraShape} (h : a.dimensions = b.dimensions) : a = b := by
  obtain ⟨dimensions, count, hcount⟩ := a
  obtain ⟨dimensions', count', hcount'⟩ := b
  simp only at h
  subst h
  obtain rfl := Except.ok.inj (hcount.symm.trans hcount')
  rfl

/-- The dimensions and their number are machine words. -/
def Fits (shape : ExtraShape) : Prop :=
  shape.dimensions.length < usizeLimit ∧ ∀ d ∈ shape.dimensions, d < usizeLimit

theorem delimited_shape : Delimited Fits shapeWords := by
  intro a b ha hb s t h
  unfold shapeWords at h
  rw [words64_eq_flatMap, words64_eq_flatMap] at h
  obtain ⟨hdimensions, hst⟩ := delimited_word.counted delimited_word ha hb h
  exact ⟨extraShape_ext hdimensions, hst⟩

/-! ## Pencils -/

/-- What a descriptor tells of a pencil besides the process grid. -/
structure PencilDescription where
  globalShape : List ℕ
  decomposition : List ℕ
  permutation : List ℕ
deriving DecidableEq

def describePencil (pencil : Pencil N M) : PencilDescription where
  globalShape := List.ofFn pencil.globalShape
  decomposition := List.ofFn fun i => (pencil.decomposition.axes i).val
  permutation := List.ofFn fun i => (pencil.permutation.axesInMemoryOrder i).val

def processGridOf (pencil : Pencil N M) : List ℕ := List.ofFn pencil.topology.processGrid

/-- Pencils of one description have one layout. -/
theorem describePencil_inj {p q : Pencil N M} (h : describePencil p = describePencil q) :
    p.globalShape = q.globalShape ∧ p.decomposition = q.decomposition ∧
      p.permutation = q.permutation := by
  obtain ⟨hshape, hdecomposition, hpermutation⟩ := PencilDescription.mk.inj h
  refine ⟨List.ofFn_injective hshape, ?_, ?_⟩
  · have haxes : p.decomposition.axes = q.decomposition.axes :=
      funext fun i => Fin.ext (congrFun (List.ofFn_injective hdecomposition) i)
    generalize p.decomposition = d, q.decomposition = d' at haxes
    obtain ⟨axes, hinj, hpos⟩ := d
    obtain ⟨axes', hinj', hpos'⟩ := d'
    simp only at haxes
    subst haxes
    rfl
  · apply AxisPermutation.ext_axes
    exact funext fun i => Fin.ext (congrFun (List.ofFn_injective hpermutation) i)

/-- **The words of a pencil**, in any code for words. -/
theorem pencil_split {κ : Type} {word : ℕ → List κ} (hword : Delimited (· < usizeLimit) word)
    (hN : N < usizeLimit) {p q : Pencil N M} {s t : List κ}
    (h : (describePencil p).globalShape.flatMap word
        ++ ((describePencil p).decomposition.flatMap word
          ++ ((describePencil p).permutation.flatMap word ++ s))
      = (describePencil q).globalShape.flatMap word
        ++ ((describePencil q).decomposition.flatMap word
          ++ ((describePencil q).permutation.flatMap word ++ t))) :
    describePencil p = describePencil q ∧ s = t := by
  have hextent : ∀ r : Pencil N M, ∀ i, r.globalShape i < usizeLimit := fun r =>
    extent_lt r.extents_pos (globalShape_fits r)
  have haxis : ∀ i : Fin N, i.val < usizeLimit := fun i => i.isLt.trans hN
  obtain ⟨hshape, h⟩ := hword.ofFn (hextent p) (hextent q) h
  obtain ⟨hdecomposition, h⟩ := hword.ofFn (fun i => haxis _) (fun i => haxis _) h
  obtain ⟨hpermutation, h⟩ := hword.ofFn (fun i => haxis _) (fun i => haxis _) h
  refine ⟨?_, h⟩
  unfold describePencil
  rw [hshape, hdecomposition, hpermutation]

/-- The words of a process grid. -/
theorem grid_split {κ : Type} {word : ℕ → List κ} (hword : Delimited (· < usizeLimit) word)
    {p q : Pencil N M} {s t : List κ}
    (h : (processGridOf p).flatMap word ++ s = (processGridOf q).flatMap word ++ t) :
    processGridOf p = processGridOf q ∧ s = t := by
  obtain ⟨hgrid, h⟩ := hword.ofFn (processGrid_lt p.topology) (processGrid_lt q.topology) h
  exact ⟨congrArg List.ofFn hgrid, h⟩

/-! ## Transposes -/

theorem pencilValues_eq (pencil : Pencil N M) : pencilValues pencil
    = words64 (describePencil pencil).globalShape ++ words64 (describePencil pencil).decomposition
      ++ words64 (describePencil pencil).permutation :=
  rfl

theorem pencilValues_split (hN : N < usizeLimit) {p q : Pencil N M} {s t : List (BitVec 64)}
    (h : pencilValues p ++ s = pencilValues q ++ t) :
    describePencil p = describePencil q ∧ s = t := by
  simp only [pencilValues_eq, words64_eq_flatMap, List.append_assoc] at h
  exact pencil_split delimited_word hN h

theorem words64_grid {p q : Pencil N M} {s t : List (BitVec 64)}
    (h : words64 (List.ofFn p.topology.processGrid) ++ s
      = words64 (List.ofFn q.topology.processGrid) ++ t) :
    processGridOf p = processGridOf q ∧ s = t := by
  rw [words64_eq_flatMap, words64_eq_flatMap] at h
  exact grid_split delimited_word h

/-- **The descriptor of a transpose plan**, whatever follows it. -/
theorem planWords_split (hN : N < usizeLimit) (hN' : N' < usizeLimit) (hM : M < usizeLimit)
    (hM' : M' < usizeLimit) {source destination : Pencil N M} {source' destination' : Pencil N' M'}
    {operation operation' : BitVec 64} {s t : List (BitVec 64)}
    (h : planWords source destination operation ++ s
      = planWords source' destination' operation' ++ t) :
    N = N' ∧ M = M' ∧ operation = operation' ∧ processGridOf source = processGridOf source' ∧
      processGridOf destination = processGridOf destination' ∧
      describePencil source = describePencil source' ∧
      describePencil destination = describePencil destination' ∧ s = t := by
  unfold planWords at h
  simp only [List.cons_append, List.nil_append, List.append_assoc] at h
  obtain ⟨_, h⟩ := List.cons.inj h
  obtain ⟨hoperation, h⟩ := List.cons.inj h
  obtain ⟨hspatial, h⟩ := List.cons.inj h
  obtain ⟨htopology, h⟩ := List.cons.inj h
  obtain ⟨_, h⟩ := List.cons.inj h
  obtain rfl := ofNat64_inj hN hN' hspatial
  obtain rfl := ofNat64_inj hM hM' htopology
  obtain ⟨hgrid, h⟩ := words64_grid h
  obtain ⟨hgrid', h⟩ := words64_grid h
  obtain ⟨hsource, h⟩ := pencilValues_split hN h
  obtain ⟨hdestination, h⟩ := pencilValues_split hN h
  exact ⟨rfl, rfl, hoperation, hgrid, hgrid', hsource, hdestination, h⟩

theorem planDescriptorLen_eq {len : ℕ} (h : planDescriptorLen N M = some len) :
    len = 5 + 4 * M + 4 * N ∧ len < usizeLimit := by
  obtain ⟨topologyWords, htopology, h⟩ := Option.bind_eq_some_iff.mp h
  obtain ⟨spatialWords, hspatial, h⟩ := Option.bind_eq_some_iff.mp h
  obtain ⟨length, hlength, h⟩ := Option.bind_eq_some_iff.mp h
  obtain ⟨_, rfl⟩ := checkedMul_eq_some.mp htopology
  obtain ⟨_, rfl⟩ := checkedMul_eq_some.mp hspatial
  obtain ⟨_, rfl⟩ := checkedAdd_eq_some.mp hlength
  obtain ⟨hlt, rfl⟩ := checkedAdd_eq_some.mp h
  omega

theorem length_planWords (source destination : Pencil N M) (operation : BitVec 64) :
    (planWords source destination operation).length = 5 + 4 * M + 4 * N := by
  unfold planWords pencilValues
  simp only [List.length_append, List.length_cons, List.length_nil, length_words64,
    List.length_ofFn]
  omega

theorem foldlM_checkedAdd_lt {l : List ℕ} {acc n : ℕ} (hacc : acc < usizeLimit)
    (h : l.foldlM checkedAdd acc = some n) : n < usizeLimit := by
  induction l generalizing acc with
  | nil => exact Option.some.inj h ▸ hacc
  | cons a l ih =>
    rw [List.foldlM_cons] at h
    obtain ⟨next, hnext, hrest⟩ := Option.bind_eq_some_iff.mp h
    obtain ⟨hlt, rfl⟩ := checkedAdd_eq_some.mp hnext
    exact ih hlt hrest

theorem length_shapeWords (shape : ExtraShape) :
    (shapeWords shape).length = 1 + shape.dimensions.length := by
  unfold shapeWords
  rw [List.length_cons, length_words64, Nat.add_comm]

theorem length_typeNameWords (name : List (BitVec 8)) :
    (typeNameWords name).length = 1 + name.length := by
  unfold typeNameWords
  rw [List.length_cons, List.length_map, Nat.add_comm]

/-- The sizes of a type, and the dimensions of a shape, are machine words. -/
def ElementType.Fits (T : ElementType) : Prop := T.size < usizeLimit ∧ T.align < usizeLimit

theorem elementType_ext {T T' : ElementType} (hsize : T.size = T'.size)
    (halign : T.align = T'.align)
    (hname : T.name = T'.name) (hmpiName : T.mpiName = T'.mpiName) : T = T' := by
  obtain ⟨size, align, name, mpiName⟩ := T
  obtain ⟨size', align', name', mpiName'⟩ := T'
  simp only at hsize halign hname hmpiName
  rw [hsize, halign, hname, hmpiName]

theorem executeDescriptorLen_eq {plan : TransposePlanCore N M} {T : ElementType}
    {source destination : ExtraShape} {len : ℕ}
    (h : plan.executeDescriptorLen T source destination = some len) :
    len < usizeLimit ∧ len = 4 + (5 + 4 * M + 4 * N) + (1 + source.dimensions.length)
      + (1 + destination.dimensions.length) + 2 + (1 + T.name.length) + (1 + T.mpiName.length) := by
  unfold TransposePlanCore.executeDescriptorLen TransposePlanCore.descriptor at h
  rw [length_planWords] at h
  refine ⟨foldlM_checkedAdd_lt (by decide) h, ?_⟩
  have hsum := foldlM_checkedAdd h
  simp only [List.sum_cons, List.sum_nil] at hsum
  omega

theorem length_executeWords (plan : TransposePlanCore N M) (T : ElementType)
    (source destination : ExtraShape) (operation : BitVec 64) :
    (plan.executeWords T source destination operation).length
      = 4 + (5 + 4 * M + 4 * N) + (1 + source.dimensions.length)
        + (1 + destination.dimensions.length) + 2 + (1 + T.name.length)
        + (1 + T.mpiName.length) := by
  unfold TransposePlanCore.executeWords TransposePlanCore.descriptor
  simp only [List.length_append, List.length_cons, List.length_nil, length_planWords,
    length_shapeWords, length_typeNameWords]

theorem newOperation_inj {mode mode' : CommunicationMode}
    (h : mode.newOperation = mode'.newOperation) : mode = mode' := by
  cases mode <;> cases mode' <;> first | rfl | exact absurd h (by decide)

/-- **The descriptor of an execution.** -/
theorem executeWords_inj {plan : TransposePlanCore N M} {plan' : TransposePlanCore N' M'}
    {T T' : ElementType} {source destination source' destination' : ExtraShape}
    {operation operation' : BitVec 64} {len len' : ℕ}
    (hlen : plan.executeDescriptorLen T source destination = some len)
    (hlen' : plan'.executeDescriptorLen T' source' destination' = some len')
    (hT : ElementType.Fits T) (hT' : ElementType.Fits T')
    (hdims : ∀ shape ∈ [source, destination, source', destination'],
      ∀ d ∈ shape.dimensions, d < usizeLimit)
    (h : plan.executeWords T source destination operation
      = plan'.executeWords T' source' destination' operation') :
    N = N' ∧ M = M' ∧ operation = operation' ∧ plan.mode = plan'.mode ∧
      processGridOf plan.source = processGridOf plan'.source ∧
      processGridOf plan.destination = processGridOf plan'.destination ∧
      describePencil plan.source = describePencil plan'.source ∧
      describePencil plan.destination = describePencil plan'.destination ∧ source = source' ∧
      destination = destination' ∧ T = T' := by
  obtain ⟨hlt, hlen⟩ := executeDescriptorLen_eq hlen
  obtain ⟨hlt', hlen'⟩ := executeDescriptorLen_eq hlen'
  simp only [List.forall_mem_cons, List.not_mem_nil, false_implies, implies_true, and_true] at hdims
  obtain ⟨hs, hd, hs', hd'⟩ := hdims
  unfold TransposePlanCore.executeWords TransposePlanCore.descriptor at h
  simp only [List.cons_append, List.nil_append, List.append_assoc] at h
  obtain ⟨_, h⟩ := List.cons.inj h
  obtain ⟨hoperation, h⟩ := List.cons.inj h
  obtain ⟨_, h⟩ := List.cons.inj h
  obtain ⟨_, h⟩ := List.cons.inj h
  obtain ⟨hN, hM, hmode, hgrid, hgrid', hsource, hdestination, h⟩ := planWords_split (by omega)
    (by omega) (by omega) (by omega) h
  obtain ⟨hextra, h⟩ := delimited_shape ⟨by omega, hs⟩ ⟨by omega, hs'⟩ h
  obtain ⟨hextra', h⟩ := delimited_shape ⟨by omega, hd⟩ ⟨by omega, hd'⟩ h
  obtain ⟨hsize, h⟩ := List.cons.inj h
  obtain ⟨halign, h⟩ := List.cons.inj h
  obtain ⟨hname, h⟩ := delimited_typeName (by omega) (by omega) h
  have hmpiName := delimited_typeName.inj (by omega) (by omega) h
  exact ⟨hN, hM, hoperation, newOperation_inj hmode, hgrid, hgrid', hsource, hdestination, hextra,
    hextra', elementType_ext (ofNat64_inj hT.1 hT'.1 hsize) (ofNat64_inj hT.2 hT'.2 halign)
      hname hmpiName⟩

/-! ## Remaps -/

section Remap

open SpatialRemap

theorem pushUsize_eq_ok {descriptor words : List (BitVec 64)} {value : ℕ} :
    pushUsize descriptor value = .ok words
      ↔ value < usizeLimit ∧ words = descriptor ++ [BitVec.ofNat 64 value] := by
  constructor
  · intro h
    obtain ⟨_, hlt, h⟩ := bind_eq_ok.mp h
    exact ⟨of_decide_eq_true (ensure_eq_ok.mp hlt), (Except.ok.inj h).symm⟩
  · rintro ⟨hlt, rfl⟩
    exact bind_eq_ok.mpr ⟨(), ensure_eq_ok.mpr (decide_eq_true hlt), rfl⟩

theorem appendUsizes_eq_ok {descriptor words : List (BitVec 64)} {values : List ℕ} :
    SpatialRemap.appendUsizes descriptor values = .ok words
      ↔ (∀ value ∈ values, value < usizeLimit) ∧ words = descriptor ++ words64 values := by
  unfold SpatialRemap.appendUsizes
  induction values generalizing descriptor with
  | nil =>
    rw [words64, List.map_nil, List.append_nil]
    exact ⟨fun h => ⟨nofun, (Except.ok.inj h).symm⟩, fun h => congrArg Except.ok h.2.symm⟩
  | cons value values ih =>
    have hwords : descriptor ++ words64 (value :: values)
        = (descriptor ++ [BitVec.ofNat 64 value]) ++ words64 values := by
      rw [List.append_assoc]
      rfl
    rw [List.foldlM_cons, List.forall_mem_cons, hwords, bind_eq_ok]
    constructor
    · rintro ⟨next, hnext, hrest⟩
      obtain ⟨hlt, rfl⟩ := pushUsize_eq_ok.mp hnext
      obtain ⟨hall, rfl⟩ := ih.mp hrest
      exact ⟨⟨hlt, hall⟩, rfl⟩
    · rintro ⟨⟨hlt, hall⟩, rfl⟩
      exact ⟨_, pushUsize_eq_ok.mpr ⟨hlt, rfl⟩, ih.mpr ⟨hall, rfl⟩⟩

theorem remap_appendTypeName_eq_ok {descriptor words : List (BitVec 64)} {name : List (BitVec 8)} :
    SpatialRemap.appendTypeName descriptor name = .ok words
      ↔ name.length < usizeLimit ∧ words = descriptor ++ typeNameWords name := by
  have hwords : descriptor ++ typeNameWords name
      = (descriptor ++ [BitVec.ofNat 64 name.length]) ++ name.map fun byte => byte.setWidth 64 := by
    rw [List.append_assoc]
    rfl
  unfold SpatialRemap.appendTypeName
  rw [hwords, bind_eq_ok]
  constructor
  · rintro ⟨next, hnext, h⟩
    obtain ⟨hlt, rfl⟩ := pushUsize_eq_ok.mp hnext
    exact ⟨hlt, (Except.ok.inj h).symm⟩
  · rintro ⟨hlt, rfl⟩
    exact ⟨_, pushUsize_eq_ok.mpr ⟨hlt, rfl⟩, rfl⟩

theorem appendPencil_eq_ok (hN : N < usizeLimit) {descriptor words : List (BitVec 64)}
    {pencil : Pencil N M} : appendPencil descriptor pencil = .ok words
      ↔ words = descriptor ++ pencilValues pencil := by
  have haxis : ∀ {n : ℕ} (f : Fin n → Fin N), ∀ value ∈ List.ofFn fun i => (f i).val,
      value < usizeLimit := by
    intro n f value hvalue
    obtain ⟨i, rfl⟩ := List.mem_ofFn.mp hvalue
    exact (f i).isLt.trans hN
  have hshape : ∀ value ∈ List.ofFn pencil.globalShape, value < usizeLimit := by
    intro value hvalue
    obtain ⟨i, rfl⟩ := List.mem_ofFn.mp hvalue
    exact extent_lt pencil.extents_pos (globalShape_fits pencil) i
  unfold appendPencil pencilValues
  rw [← List.append_assoc, ← List.append_assoc]
  constructor
  · intro h
    obtain ⟨_, hglobal, h⟩ := bind_eq_ok.mp h
    obtain ⟨_, hdecomposition, h⟩ := bind_eq_ok.mp h
    obtain ⟨_, rfl⟩ := appendUsizes_eq_ok.mp hglobal
    obtain ⟨_, rfl⟩ := appendUsizes_eq_ok.mp hdecomposition
    exact (appendUsizes_eq_ok.mp h).2
  · rintro rfl
    exact bind_eq_ok.mpr ⟨_, appendUsizes_eq_ok.mpr ⟨hshape, rfl⟩, bind_eq_ok.mpr ⟨_,
      appendUsizes_eq_ok.mpr ⟨haxis _, rfl⟩, appendUsizes_eq_ok.mpr ⟨haxis _, rfl⟩⟩⟩

/-- The words `build_descriptor` pushes. -/
def remapWords (request : SpatialRemap.Request N M) : List (BitVec 64) :=
  [SpatialRemap.descriptorSchema, opPrepare, dimensionWord N, dimensionWord M,
      dimensionWord request.source.topology.size]
    ++ words64 (List.ofFn request.source.topology.processGrid)
    ++ pencilValues request.source ++ pencilValues request.destination
    ++ shapeWords request.extraShape
    ++ (List.ofFn fun axis => signWord (request.signs axis))
    ++ (List.ofFn request.offsets).flatMap offsetWords
    ++ [BitVec.ofNat 64 request.element.size, BitVec.ofNat 64 request.element.align]
    ++ typeNameWords request.element.name ++ typeNameWords request.element.mpiName

/-- Every number of the request is a machine word. -/
structure RemapFits (request : SpatialRemap.Request N M) : Prop where
  shape : Fits request.extraShape
  element : ElementType.Fits request.element
  name : request.element.name.length < usizeLimit
  mpiName : request.element.mpiName.length < usizeLimit

/-- **The builder** of a remap's descriptor. -/
theorem remap_buildDescriptor_eq_ok (hN : N < usizeLimit) {reserved : Bool} {length : ℕ}
    {request : SpatialRemap.Request N M} {words : List (BitVec 64)} :
    SpatialRemap.buildDescriptor reserved length request = .ok words
      ↔ reserved = true ∧ RemapFits request ∧ words = remapWords request ∧
        words.length = length := by
  have hgrid : ∀ value ∈ List.ofFn request.source.topology.processGrid, value < usizeLimit := by
    intro value hvalue
    obtain ⟨i, rfl⟩ := List.mem_ofFn.mp hvalue
    exact processGrid_lt _ i
  have hshape : remapWords request = [SpatialRemap.descriptorSchema, opPrepare, dimensionWord N,
        dimensionWord M, dimensionWord request.source.topology.size]
      ++ words64 (List.ofFn request.source.topology.processGrid)
      ++ pencilValues request.source ++ pencilValues request.destination
      ++ [BitVec.ofNat 64 request.extraShape.dimensions.length]
      ++ words64 request.extraShape.dimensions
      ++ (List.ofFn fun axis => signWord (request.signs axis))
      ++ (List.ofFn request.offsets).flatMap offsetWords
      ++ [BitVec.ofNat 64 request.element.size] ++ [BitVec.ofNat 64 request.element.align]
      ++ typeNameWords request.element.name ++ typeNameWords request.element.mpiName := by
    unfold remapWords shapeWords
    simp only [List.append_assoc, List.cons_append, List.nil_append]
  constructor
  · intro h
    obtain ⟨h, hlength⟩ := ofLength_ok h
    obtain ⟨_, hreserved, h⟩ := bind_eq_ok.mp h
    obtain ⟨_, hpushed, h⟩ := bind_eq_ok.mp h
    obtain ⟨_, rfl⟩ := appendUsizes_eq_ok.mp hpushed
    obtain ⟨_, hpushed, h⟩ := bind_eq_ok.mp h
    obtain rfl := (appendPencil_eq_ok hN).mp hpushed
    obtain ⟨_, hpushed, h⟩ := bind_eq_ok.mp h
    obtain rfl := (appendPencil_eq_ok hN).mp hpushed
    obtain ⟨_, hpushed, h⟩ := bind_eq_ok.mp h
    obtain ⟨hrank, rfl⟩ := pushUsize_eq_ok.mp hpushed
    obtain ⟨_, hpushed, h⟩ := bind_eq_ok.mp h
    obtain ⟨hdims, rfl⟩ := appendUsizes_eq_ok.mp hpushed
    obtain ⟨_, hpushed, h⟩ := bind_eq_ok.mp h
    obtain ⟨hsize, rfl⟩ := pushUsize_eq_ok.mp hpushed
    obtain ⟨_, hpushed, h⟩ := bind_eq_ok.mp h
    obtain ⟨halign, rfl⟩ := pushUsize_eq_ok.mp hpushed
    obtain ⟨_, hpushed, h⟩ := bind_eq_ok.mp h
    obtain ⟨hname, rfl⟩ := remap_appendTypeName_eq_ok.mp hpushed
    obtain ⟨hmpiName, rfl⟩ := remap_appendTypeName_eq_ok.mp h
    exact ⟨ensure_eq_ok.mp hreserved, ⟨⟨hrank, hdims⟩, ⟨hsize, halign⟩, hname, hmpiName⟩,
      hshape.symm, hlength⟩
  · rintro ⟨rfl, ⟨⟨hrank, hdims⟩, ⟨hsize, halign⟩, hname, hmpiName⟩, rfl, hlength⟩
    unfold SpatialRemap.buildDescriptor ofLength
    refine bind_eq_ok.mpr ⟨remapWords request, bind_eq_ok.mpr ⟨(), rfl, bind_eq_ok.mpr ⟨_,
      appendUsizes_eq_ok.mpr ⟨hgrid, rfl⟩, bind_eq_ok.mpr ⟨_, (appendPencil_eq_ok hN).mpr rfl,
      bind_eq_ok.mpr ⟨_, (appendPencil_eq_ok hN).mpr rfl, bind_eq_ok.mpr ⟨_,
      pushUsize_eq_ok.mpr ⟨hrank, rfl⟩, bind_eq_ok.mpr ⟨_, appendUsizes_eq_ok.mpr ⟨hdims, rfl⟩,
      bind_eq_ok.mpr ⟨_, pushUsize_eq_ok.mpr ⟨hsize, rfl⟩, bind_eq_ok.mpr ⟨_,
      pushUsize_eq_ok.mpr ⟨halign, rfl⟩, bind_eq_ok.mpr ⟨_,
      remap_appendTypeName_eq_ok.mpr ⟨hname, rfl⟩,
      remap_appendTypeName_eq_ok.mpr ⟨hmpiName, hshape⟩⟩⟩⟩⟩⟩⟩⟩⟩⟩, ?_⟩
    rw [if_neg (not_not.mpr hlength)]
    rfl

theorem length_offsetWords (offset : BitVec 128) : (offsetWords offset).length = 2 := rfl

theorem delimited_offset : Delimited (fun _ => True) offsetWords := by
  refine Delimited.of_length (fun offset _ => length_offsetWords offset) fun a b _ _ h => ?_
  obtain ⟨hlow, hhigh⟩ := List.cons.inj h
  have hlow := congrArg BitVec.toNat hlow
  have hhigh := congrArg BitVec.toNat (List.cons.inj hhigh).1
  simp only [BitVec.extractLsb'_toNat, Nat.shiftRight_eq_div_pow] at hlow hhigh
  have ha := a.isLt
  have hb := b.isLt
  apply BitVec.eq_of_toNat_eq
  omega

theorem remap_descriptorLength_eq {request : SpatialRemap.Request N M} {len : ℕ}
    (h : descriptorLength request = .ok len) :
    len < usizeLimit ∧ len = 4 + (1 + M) + 4 * N + 2 * M
      + (1 + request.extraShape.dimensions.length) + N + 2 * N + 2
      + (1 + request.element.name.length) + (1 + request.element.mpiName.length) := by
  obtain ⟨_, hgrid, h⟩ := Option.bind_eq_some_iff.mp (okOr_eq_ok.mp h)
  obtain ⟨_, hpencil, h⟩ := Option.bind_eq_some_iff.mp h
  obtain ⟨_, hdecomposition, h⟩ := Option.bind_eq_some_iff.mp h
  obtain ⟨_, hextra, h⟩ := Option.bind_eq_some_iff.mp h
  obtain ⟨_, hoffset, h⟩ := Option.bind_eq_some_iff.mp h
  obtain ⟨_, hname, h⟩ := Option.bind_eq_some_iff.mp h
  obtain ⟨_, hmpiName, h⟩ := Option.bind_eq_some_iff.mp h
  obtain ⟨_, rfl⟩ := checkedAdd_eq_some.mp hgrid
  obtain ⟨_, rfl⟩ := checkedMul_eq_some.mp hpencil
  obtain ⟨_, rfl⟩ := checkedMul_eq_some.mp hdecomposition
  obtain ⟨_, rfl⟩ := checkedAdd_eq_some.mp hextra
  obtain ⟨_, rfl⟩ := checkedMul_eq_some.mp hoffset
  obtain ⟨_, rfl⟩ := checkedAdd_eq_some.mp hname
  obtain ⟨_, rfl⟩ := checkedAdd_eq_some.mp hmpiName
  refine ⟨foldlM_checkedAdd_lt (by decide) h, ?_⟩
  have hsum := foldlM_checkedAdd h
  simp only [List.sum_cons, List.sum_nil] at hsum
  omega

theorem length_remapWords (request : SpatialRemap.Request N M) :
    (remapWords request).length = 4 + (1 + M) + 4 * N + 2 * M
      + (1 + request.extraShape.dimensions.length) + N + 2 * N + 2
      + (1 + request.element.name.length) + (1 + request.element.mpiName.length) := by
  have hoffsets : ((List.ofFn request.offsets).flatMap offsetWords).length = 2 * N := by
    rw [List.length_flatMap]
    simp only [length_offsetWords, List.map_const', List.length_ofFn, List.sum_replicate,
      smul_eq_mul]
    omega
  unfold remapWords pencilValues
  simp only [List.length_append, List.length_cons, List.length_nil, length_words64,
    List.length_ofFn, length_shapeWords, length_typeNameWords, hoffsets]
  omega

theorem size_lt (topology : MpiTopology M) : topology.size < usizeLimit := by
  have hle := topology.size_le
  have hcount : countMax < usizeLimit := by decide
  unfold MpiTopology.size
  omega

/-- **The descriptor of a remap.** -/
theorem remapWords_inj (hN : N < usizeLimit) (hN' : N' < usizeLimit) (hM : M < usizeLimit)
    (hM' : M' < usizeLimit) {request : SpatialRemap.Request N M}
    {request' : SpatialRemap.Request N' M'} (hfits : RemapFits request)
    (hfits' : RemapFits request') (h : remapWords request = remapWords request') :
    N = N' ∧ M = M' ∧ processGridOf request.source = processGridOf request'.source ∧
      describePencil request.source = describePencil request'.source ∧
      describePencil request.destination = describePencil request'.destination ∧
      request.extraShape = request'.extraShape ∧
      List.ofFn request.signs = List.ofFn request'.signs ∧
      List.ofFn request.offsets = List.ofFn request'.offsets ∧
      request.element = request'.element := by
  have hsigns : ∀ {n m : ℕ} (r : SpatialRemap.Request n m),
      (List.ofFn fun axis => signWord (r.signs axis))
        = (List.ofFn r.signs).flatMap fun sign => [signWord sign] := by
    intro n m r
    rw [← List.map_eq_flatMap, List.map_ofFn]
    rfl
  unfold remapWords at h
  simp only [List.cons_append, List.nil_append, List.append_assoc, hsigns] at h
  obtain ⟨_, h⟩ := List.cons.inj h
  obtain ⟨_, h⟩ := List.cons.inj h
  obtain ⟨hspatial, h⟩ := List.cons.inj h
  obtain ⟨htopology, h⟩ := List.cons.inj h
  obtain ⟨_, h⟩ := List.cons.inj h
  obtain rfl := dimensionWord_inj hN hN' hspatial
  obtain rfl := dimensionWord_inj hM hM' htopology
  obtain ⟨hgrid, h⟩ := words64_grid h
  obtain ⟨hsource, h⟩ := pencilValues_split hN h
  obtain ⟨hdestination, h⟩ := pencilValues_split hN h
  obtain ⟨hextra, h⟩ := delimited_shape hfits.shape hfits'.shape h
  obtain ⟨hsign, h⟩ := delimited_byte.ofFn (fun _ => trivial) (fun _ => trivial) h
  obtain ⟨hoffset, h⟩ := delimited_offset.ofFn (fun _ => trivial) (fun _ => trivial) h
  obtain ⟨hsize, h⟩ := List.cons.inj h
  obtain ⟨halign, h⟩ := List.cons.inj h
  obtain ⟨hname, h⟩ := delimited_typeName hfits.name hfits'.name h
  have hmpiName := delimited_typeName.inj hfits.mpiName hfits'.mpiName h
  exact ⟨rfl, rfl, hgrid, hsource, hdestination, hextra, congrArg List.ofFn hsign,
    congrArg List.ofFn hoffset, elementType_ext (ofNat64_inj hfits.element.1 hfits'.element.1 hsize)
      (ofNat64_inj hfits.element.2 hfits'.element.2 halign) hname hmpiName⟩

end Remap

/-! ## Reductions and gathers -/

section Layouts

variable {T U T' U' : TypeInfo} {extraShape extraShape' : ExtraShape}
  {callbackName callbackName' : List (BitVec 8)}

def TypeInfo.Fits (T : TypeInfo) : Prop := T.size < usizeLimit ∧ T.align < usizeLimit

/-- The two halves of each word of a name. -/
theorem delimited_appendTypeName :
    Delimited (fun name => name.length < usizeLimit) Model.appendTypeName := by
  have hbyte : Delimited (fun _ => True) fun byte : BitVec 8 => appendWord byte.toNat := by
    refine Delimited.of_length (fun byte _ => appendWord_length byte.toNat) fun a b _ _ h => ?_
    have hlt : ∀ byte : BitVec 8, byte.toNat < usizeLimit := fun byte =>
      byte.isLt.trans (by decide)
    exact BitVec.eq_of_toNat_eq (delimited_appendWord.inj (hlt a) (hlt b) h)
  intro a b ha hb s t h
  exact delimited_appendWord.counted hbyte ⟨ha, fun _ _ => trivial⟩ ⟨hb, fun _ _ => trivial⟩ h

theorem delimited_extra : Delimited Fits fun shape =>
    appendWord shape.dimensions.length ++ Model.appendUsizes shape.dimensions := by
  intro a b ha hb s t h
  obtain ⟨hdimensions, hst⟩ := delimited_appendWord.counted delimited_appendWord ha hb h
  exact ⟨extraShape_ext hdimensions, hst⟩

/-- The words of a layout, in the order of the source. -/
theorem layoutWords_eq (pencil : Pencil N M) (operation rootWord : ℕ) :
    layoutWords pencil extraShape T U callbackName operation rootWord
      = appendWord Model.descriptorSchema.toNat ++ (appendWord operation ++ (appendWord N
        ++ (appendWord M ++ ((describePencil pencil).globalShape.flatMap appendWord
        ++ ((describePencil pencil).decomposition.flatMap appendWord
        ++ ((describePencil pencil).permutation.flatMap appendWord
        ++ ((appendWord extraShape.dimensions.length
          ++ Model.appendUsizes extraShape.dimensions)
        ++ ((processGridOf pencil).flatMap appendWord ++ (appendWord rootWord ++ (appendWord T.size
        ++ (appendWord T.align ++ (appendWord U.size ++ (appendWord U.align
        ++ (Model.appendTypeName T.name ++ (Model.appendTypeName U.name
        ++ Model.appendTypeName callbackName))))))))))))))) := by
  unfold layoutWords describePencil processGridOf Model.appendUsizes
  simp only [List.append_assoc, List.ofFn_eq_map, List.flatMap_map]

/-- **The descriptor of a reduction or a gather.** -/
theorem layoutWords_inj {pencil : Pencil N M} {pencil' : Pencil N' M'}
    {operation operation' rootWord rootWord' len len' : ℕ}
    (hlen : descriptorLen (N := N) (M := M) extraShape T U callbackName = some len)
    (hlen' : descriptorLen (N := N') (M := M') extraShape' T' U' callbackName' = some len')
    (hoperation : operation < usizeLimit) (hoperation' : operation' < usizeLimit)
    (hroot : rootWord < usizeLimit) (hroot' : rootWord' < usizeLimit)
    (htypes : TypeInfo.Fits T ∧ TypeInfo.Fits U) (htypes' : TypeInfo.Fits T' ∧ TypeInfo.Fits U')
    (hdims : ∀ d ∈ extraShape.dimensions, d < usizeLimit)
    (hdims' : ∀ d ∈ extraShape'.dimensions, d < usizeLimit)
    (h : layoutWords pencil extraShape T U callbackName operation rootWord
      = layoutWords pencil' extraShape' T' U' callbackName' operation' rootWord') :
    N = N' ∧ M = M' ∧ operation = operation' ∧ rootWord = rootWord' ∧
      processGridOf pencil = processGridOf pencil' ∧
      describePencil pencil = describePencil pencil' ∧
      extraShape = extraShape' ∧ T = T' ∧ U = U' ∧ callbackName = callbackName' := by
  have hbounds : ∀ {n m l : ℕ} {e : ExtraShape} {V W : TypeInfo} {name : List (BitVec 8)},
      descriptorLen (N := n) (M := m) e V W name = some l → n < usizeLimit ∧ m < usizeLimit ∧
        e.dimensions.length < usizeLimit ∧ V.name.length < usizeLimit ∧
        W.name.length < usizeLimit ∧ name.length < usizeLimit := by
    intro n m l e V W name hl
    obtain ⟨words, hwords, _⟩ := Option.bind_eq_some_iff.mp hl
    have hlt := foldlM_checkedAdd_lt (by decide) hwords
    have hsum := foldlM_checkedAdd hwords
    simp only [List.sum_cons, List.sum_nil] at hsum
    omega
  obtain ⟨hN, hM, hrank, hnameT, hnameU, hname⟩ := hbounds hlen
  obtain ⟨hN', hM', hrank', hnameT', hnameU', hname'⟩ := hbounds hlen'
  rw [layoutWords_eq, layoutWords_eq] at h
  have hword := delimited_appendWord
  obtain ⟨_, h⟩ := hword (by decide) (by decide) h
  obtain ⟨hop, h⟩ := hword hoperation hoperation' h
  obtain ⟨rfl, h⟩ := hword hN hN' h
  obtain ⟨rfl, h⟩ := hword hM hM' h
  obtain ⟨hpencil, h⟩ := pencil_split hword hN h
  obtain ⟨hextra, h⟩ := delimited_extra ⟨hrank, hdims⟩ ⟨hrank', hdims'⟩ h
  obtain ⟨hgrid, h⟩ := grid_split hword h
  obtain ⟨hrootWord, h⟩ := hword hroot hroot' h
  obtain ⟨hsizeT, h⟩ := hword htypes.1.1 htypes'.1.1 h
  obtain ⟨halignT, h⟩ := hword htypes.1.2 htypes'.1.2 h
  obtain ⟨hsizeU, h⟩ := hword htypes.2.1 htypes'.2.1 h
  obtain ⟨halignU, h⟩ := hword htypes.2.2 htypes'.2.2 h
  obtain ⟨hTname, h⟩ := delimited_appendTypeName hnameT hnameT' h
  obtain ⟨hUname, h⟩ := delimited_appendTypeName hnameU hnameU' h
  have hcallback := delimited_appendTypeName.inj hname hname' h
  have hinfo : ∀ {V W : TypeInfo}, V.size = W.size → V.align = W.align → V.name = W.name →
      V = W := by
    rintro ⟨size, align, name⟩ ⟨size', align', name'⟩ hsize halign hname
    simp only at hsize halign hname
    rw [hsize, halign, hname]
  exact ⟨rfl, rfl, hop, hrootWord, hgrid, hpencil, hextra, hinfo hsizeT halignT hTname,
    hinfo hsizeU halignU hUname, hcallback⟩

end Layouts

/-! ## Files -/

section Files

open MpiIo

theorem pushBytes_eq_ok {descriptor bytes out : List Byte}
    (h : pushBytes descriptor bytes = .ok out) :
    out = descriptor ++ bytes ∧ out.length ≤ maxDescriptorBytes := by
  obtain ⟨stop, hstop, h⟩ := bind_eq_ok.mp h
  obtain ⟨_, rfl⟩ := checkedAdd_eq_some.mp (okOr_eq_ok.mp hstop)
  obtain ⟨_, hle, h⟩ := bind_eq_ok.mp h
  obtain rfl := Except.ok.inj h
  rw [List.length_append]
  exact ⟨rfl, of_decide_eq_true (ensure_eq_ok.mp hle)⟩

theorem pushSize_eq_ok {what : String} {descriptor out : List Byte} {value : ℕ}
    (h : pushSize what descriptor value = .ok out) :
    value < usizeLimit ∧ out = descriptor ++ leBytes 8 value := by
  obtain ⟨_, hlt, h⟩ := bind_eq_ok.mp h
  exact ⟨of_decide_eq_true (ensure_eq_ok.mp hlt), (pushBytes_eq_ok h).1⟩

theorem foldlM_pushSize_eq_ok {what : String} {descriptor out : List Byte} {values : List ℕ}
    (h : values.foldlM (pushSize what) descriptor = .ok out) :
    (∀ value ∈ values, value < usizeLimit) ∧ out = descriptor ++ leString 8 values := by
  induction values generalizing descriptor with
  | nil =>
    rw [leString_nil, List.append_nil]
    exact ⟨nofun, (Except.ok.inj h).symm⟩
  | cons value values ih =>
    rw [List.foldlM_cons] at h
    obtain ⟨next, hnext, hrest⟩ := bind_eq_ok.mp h
    obtain ⟨hlt, rfl⟩ := pushSize_eq_ok hnext
    obtain ⟨hall, rfl⟩ := ih hrest
    rw [leString_cons, List.append_assoc]
    exact ⟨List.forall_mem_cons.mpr ⟨hlt, hall⟩, rfl⟩

/-- The bytes of a file request. -/
def requestBytes (request : MpiIo.Request N M) : List Byte :=
  leBytes 8 ioNamespace ++ (leBytes 8 request.operation.toNat ++ (leBytes 8 formatVersion
    ++ (leBytes 8 N ++ (leBytes 8 M ++ (leBytes 8 request.typeCode.toNat
    ++ (leBytes 8 request.width ++ (leBytes 8 request.extra.length
    ++ (leString 8 (List.ofFn request.global) ++ (leString 8 request.extra
    ++ (leString 8 (List.ofFn request.grid)
    ++ (leString 8 (List.ofFn fun i => (request.decomposition i).val)
    ++ (leString 8 (List.ofFn fun i => (request.permutation i).val)
    ++ (leBytes 8 request.path.length ++ request.path)))))))))))))

/-- Every number of a file request is a machine word. -/
structure RequestFits (request : MpiIo.Request N M) : Prop where
  spatialRank : N < usizeLimit
  topologyRank : M < usizeLimit
  width : request.width < usizeLimit
  extraRank : request.extra.length < usizeLimit
  global : ∀ i, request.global i < usizeLimit
  extra : ∀ d ∈ request.extra, d < usizeLimit
  grid : ∀ i, request.grid i < usizeLimit
  path : request.path.length < usizeLimit

/-- **The builder** of a file descriptor. -/
theorem io_buildDescriptor_eq_ok {request : MpiIo.Request N M} {bytes : List Byte}
    (h : MpiIo.buildDescriptor request = .ok bytes) :
    RequestFits request ∧ bytes = requestBytes request ∧ bytes.length ≤ maxDescriptorBytes := by
  obtain ⟨_, _, h⟩ := bind_eq_ok.mp h
  obtain ⟨_, hpushed, h⟩ := bind_eq_ok.mp h
  obtain ⟨rfl, _⟩ := pushBytes_eq_ok hpushed
  obtain ⟨_, hpushed, h⟩ := bind_eq_ok.mp h
  obtain ⟨rfl, _⟩ := pushBytes_eq_ok hpushed
  obtain ⟨_, hpushed, h⟩ := bind_eq_ok.mp h
  obtain ⟨rfl, _⟩ := pushBytes_eq_ok hpushed
  obtain ⟨_, hpushed, h⟩ := bind_eq_ok.mp h
  obtain ⟨hN, rfl⟩ := pushSize_eq_ok hpushed
  obtain ⟨_, hpushed, h⟩ := bind_eq_ok.mp h
  obtain ⟨hM, rfl⟩ := pushSize_eq_ok hpushed
  obtain ⟨_, hpushed, h⟩ := bind_eq_ok.mp h
  obtain ⟨rfl, _⟩ := pushBytes_eq_ok hpushed
  obtain ⟨_, hpushed, h⟩ := bind_eq_ok.mp h
  obtain ⟨hwidth, rfl⟩ := pushSize_eq_ok hpushed
  obtain ⟨_, hpushed, h⟩ := bind_eq_ok.mp h
  obtain ⟨hrank, rfl⟩ := pushSize_eq_ok hpushed
  obtain ⟨_, hpushed, h⟩ := bind_eq_ok.mp h
  obtain ⟨hglobal, rfl⟩ := foldlM_pushSize_eq_ok hpushed
  obtain ⟨_, hpushed, h⟩ := bind_eq_ok.mp h
  obtain ⟨hextra, rfl⟩ := foldlM_pushSize_eq_ok hpushed
  obtain ⟨_, hpushed, h⟩ := bind_eq_ok.mp h
  obtain ⟨hgrid, rfl⟩ := foldlM_pushSize_eq_ok hpushed
  obtain ⟨_, hpushed, h⟩ := bind_eq_ok.mp h
  obtain ⟨_, rfl⟩ := foldlM_pushSize_eq_ok hpushed
  obtain ⟨_, hpushed, h⟩ := bind_eq_ok.mp h
  obtain ⟨_, rfl⟩ := foldlM_pushSize_eq_ok hpushed
  obtain ⟨_, hpushed, h⟩ := bind_eq_ok.mp h
  obtain ⟨hpath, rfl⟩ := pushSize_eq_ok hpushed
  obtain ⟨rfl, hle⟩ := pushBytes_eq_ok h
  refine ⟨⟨hN, hM, hwidth, hrank, fun i => hglobal _ (List.mem_ofFn.mpr ⟨i, rfl⟩), hextra,
    fun i => hgrid _ (List.mem_ofFn.mpr ⟨i, rfl⟩), hpath⟩, ?_, hle⟩
  unfold requestBytes
  simp only [List.append_assoc, List.nil_append]

theorem length_requestBytes (request : MpiIo.Request N M) :
    (requestBytes request).length
      = 8 * (9 + 2 * N + request.extra.length + 2 * M) + request.path.length := by
  unfold requestBytes
  simp only [List.length_append, length_leBytes, length_leString, List.length_ofFn]
  omega

theorem pushBytes_ok {descriptor bytes : List Byte}
    (h : (descriptor ++ bytes).length ≤ maxDescriptorBytes) :
    pushBytes descriptor bytes = .ok (descriptor ++ bytes) := by
  have hlimit : maxDescriptorBytes < usizeLimit := by decide
  rw [List.length_append] at h
  exact bind_eq_ok.mpr ⟨_, okOr_eq_ok.mpr (checkedAdd_eq_some.mpr ⟨by omega, rfl⟩),
    bind_eq_ok.mpr ⟨(), ensure_eq_ok.mpr (decide_eq_true h), rfl⟩⟩

theorem pushSize_ok {what : String} {descriptor : List Byte} {value : ℕ}
    (hvalue : value < usizeLimit)
    (h : (descriptor ++ leBytes 8 value).length ≤ maxDescriptorBytes) :
    pushSize what descriptor value = .ok (descriptor ++ leBytes 8 value) :=
  bind_eq_ok.mpr ⟨(), ensure_eq_ok.mpr (decide_eq_true hvalue), pushBytes_ok h⟩

theorem foldlM_pushSize_ok {what : String} {descriptor : List Byte} {values : List ℕ}
    (hvalues : ∀ value ∈ values, value < usizeLimit)
    (h : (descriptor ++ leString 8 values).length ≤ maxDescriptorBytes) :
    values.foldlM (pushSize what) descriptor = .ok (descriptor ++ leString 8 values) := by
  induction values generalizing descriptor with
  | nil =>
    rw [leString_nil, List.append_nil]
    rfl
  | cons value values ih =>
    rw [leString_cons, ← List.append_assoc] at h ⊢
    obtain ⟨hvalue, hrest⟩ := List.forall_mem_cons.mp hvalues
    have hfirst : (descriptor ++ leBytes 8 value).length ≤ maxDescriptorBytes := by
      rw [List.length_append] at h
      omega
    rw [List.foldlM_cons]
    exact bind_eq_ok.mpr ⟨_, pushSize_ok hvalue hfirst, ih hrest h⟩

/-- The builder accepts what fits the array. -/
theorem io_buildDescriptor_ok {request : MpiIo.Request N M} (hfits : RequestFits request)
    (hpath : request.path.contains 0 = false)
    (hlength : (requestBytes request).length ≤ maxDescriptorBytes) :
    MpiIo.buildDescriptor request = .ok (requestBytes request) := by
  have hglobal : ∀ value ∈ List.ofFn request.global, value < usizeLimit := by
    intro value hvalue
    obtain ⟨i, rfl⟩ := List.mem_ofFn.mp hvalue
    exact hfits.global i
  have hgrid : ∀ value ∈ List.ofFn request.grid, value < usizeLimit := by
    intro value hvalue
    obtain ⟨i, rfl⟩ := List.mem_ofFn.mp hvalue
    exact hfits.grid i
  have haxes : ∀ {n : ℕ} (f : Fin n → Fin N), ∀ value ∈ List.ofFn fun i => (f i).val,
      value < usizeLimit := by
    intro n f value hvalue
    obtain ⟨i, rfl⟩ := List.mem_ofFn.mp hvalue
    exact (f i).isLt.trans hfits.spatialRank
  have hbytes : requestBytes request = [] ++ leBytes 8 ioNamespace
      ++ leBytes 8 request.operation.toNat ++ leBytes 8 formatVersion ++ leBytes 8 N ++ leBytes 8 M
      ++ leBytes 8 request.typeCode.toNat ++ leBytes 8 request.width
      ++ leBytes 8 request.extra.length ++ leString 8 (List.ofFn request.global)
      ++ leString 8 request.extra ++ leString 8 (List.ofFn request.grid)
      ++ leString 8 (List.ofFn fun i => (request.decomposition i).val)
      ++ leString 8 (List.ofFn fun i => (request.permutation i).val)
      ++ leBytes 8 request.path.length ++ request.path := by
    unfold requestBytes
    simp only [List.append_assoc, List.nil_append]
  rw [hbytes] at hlength ⊢
  simp only [List.length_append, length_leBytes, length_leString, List.length_ofFn,
    List.length_nil] at hlength
  have hpathOk : (!request.path.contains 0) = true := by rw [hpath]; rfl
  unfold MpiIo.buildDescriptor
  refine bind_eq_ok.mpr ⟨(), ensure_eq_ok.mpr hpathOk, bind_eq_ok.mpr ⟨_, pushBytes_ok ?_,
    bind_eq_ok.mpr ⟨_, pushBytes_ok ?_, bind_eq_ok.mpr ⟨_, pushBytes_ok ?_,
    bind_eq_ok.mpr ⟨_, pushSize_ok hfits.spatialRank ?_,
    bind_eq_ok.mpr ⟨_, pushSize_ok hfits.topologyRank ?_, bind_eq_ok.mpr ⟨_, pushBytes_ok ?_,
    bind_eq_ok.mpr ⟨_, pushSize_ok hfits.width ?_,
    bind_eq_ok.mpr ⟨_, pushSize_ok hfits.extraRank ?_,
    bind_eq_ok.mpr ⟨_, foldlM_pushSize_ok hglobal ?_,
    bind_eq_ok.mpr ⟨_, foldlM_pushSize_ok hfits.extra ?_,
    bind_eq_ok.mpr ⟨_, foldlM_pushSize_ok hgrid ?_,
    bind_eq_ok.mpr ⟨_, foldlM_pushSize_ok (haxes _) ?_,
    bind_eq_ok.mpr ⟨_, foldlM_pushSize_ok (haxes _) ?_,
    bind_eq_ok.mpr ⟨_, pushSize_ok hfits.path ?_, pushBytes_ok ?_⟩⟩⟩⟩⟩⟩⟩⟩⟩⟩⟩⟩⟩⟩⟩
  all_goals
    simp only [List.length_append, length_leBytes, length_leString, List.length_ofFn,
      List.length_nil]
    omega

/-- **The descriptor of a file request.** -/
theorem requestBytes_inj {request : MpiIo.Request N M} {request' : MpiIo.Request N' M'}
    (hfits : RequestFits request) (hfits' : RequestFits request')
    (h : requestBytes request = requestBytes request') :
    N = N' ∧ M = M' ∧ request.operation = request'.operation ∧
      request.typeCode = request'.typeCode ∧ request.width = request'.width ∧
      List.ofFn request.global = List.ofFn request'.global ∧ request.extra = request'.extra ∧
      List.ofFn request.grid = List.ofFn request'.grid ∧
      (List.ofFn fun i => (request.decomposition i).val)
        = (List.ofFn fun i => (request'.decomposition i).val) ∧
      (List.ofFn fun i => (request.permutation i).val)
        = (List.ofFn fun i => (request'.permutation i).val) ∧ request.path = request'.path := by
  have hword := delimited_leBytes
  have hbits : ∀ word : BitVec 64, word.toNat < usizeLimit := fun word => word.isLt
  unfold requestBytes at h
  obtain ⟨_, h⟩ := hword (by decide) (by decide) h
  obtain ⟨hoperation, h⟩ := hword (hbits _) (hbits _) h
  obtain ⟨_, h⟩ := hword (by decide) (by decide) h
  obtain ⟨rfl, h⟩ := hword hfits.spatialRank hfits'.spatialRank h
  obtain ⟨rfl, h⟩ := hword hfits.topologyRank hfits'.topologyRank h
  obtain ⟨htypeCode, h⟩ := hword (hbits _) (hbits _) h
  obtain ⟨hwidth, h⟩ := hword hfits.width hfits'.width h
  obtain ⟨hrank, h⟩ := hword hfits.extraRank hfits'.extraRank h
  have haxis : ∀ i : Fin N, i.val < usizeLimit := fun i => i.isLt.trans hfits.spatialRank
  obtain ⟨hglobal, h⟩ := hword.ofFn hfits.global hfits'.global h
  obtain ⟨hextra, h⟩ := hword.many hrank hfits.extra hfits'.extra h
  obtain ⟨hgrid, h⟩ := hword.ofFn hfits.grid hfits'.grid h
  obtain ⟨hdecomposition, h⟩ := hword.ofFn (fun _ => haxis _) (fun _ => haxis _) h
  obtain ⟨hpermutation, h⟩ := hword.ofFn (fun _ => haxis _) (fun _ => haxis _) h
  obtain ⟨_, hpath⟩ := hword hfits.path hfits'.path h
  exact ⟨rfl, rfl, BitVec.eq_of_toNat_eq hoperation, BitVec.eq_of_toNat_eq htypeCode, hwidth,
    congrArg List.ofFn hglobal, hextra, congrArg List.ofFn hgrid, congrArg List.ofFn hdecomposition,
    congrArg List.ofFn hpermutation, hpath⟩

end Files

/-! ## All descriptors -/

theorem layout_buildDescriptor_eq_some {pencil : Pencil N M} {extraShape : ExtraShape}
    {T U : TypeInfo} {callbackName : List (BitVec 8)} {reserved : Bool} {operation rootWord : ℕ}
    {words : List (BitVec 32)}
    (h : Model.buildDescriptor pencil extraShape T U callbackName reserved operation rootWord
      = some words) :
    (∃ len, descriptorLen (N := N) (M := M) extraShape T U callbackName = some len) ∧
      words = layoutWords pencil extraShape T U callbackName operation rootWord := by
  obtain ⟨len, hlen, h⟩ := Option.bind_eq_some_iff.mp h
  refine ⟨⟨len, hlen⟩, ?_⟩
  cases reserved with
  | false => contradiction
  | true =>
    by_cases hne : (layoutWords pencil extraShape T U callbackName operation rootWord).length ≠ len
    · simp [hne] at h
    · simp only [Bool.not_true, Bool.false_eq_true, if_false, hne, Option.some.injEq] at h
      exact h.symm

/-- **Descriptors are injective.**  Requests whose descriptors are the same string agree on all
that the descriptor is about: the ranks and process grids, the shapes, decompositions and
permutations, the extra shapes, the element types, and the operation with its own arguments (the
map of a remap, the root and the callback of a collective, the path of a file).  The machine words
among the arguments are assumed to be such; the source and the destination of a remap have one
topology, which is checked before.  The builders produce as many words as they announce. -/
theorem collective_descriptors_injective :
    (∀ {N M N' M' : ℕ} (source destination : Pencil N M) (source' destination' : Pencil N' M')
      (operation operation' : BitVec 64) (reserved reserved' : Bool) (words : List (BitVec 64)),
      ofExpectedLength reserved (planDescriptorLen N M) (planWords source destination operation)
        = some words →
      ofExpectedLength reserved' (planDescriptorLen N' M')
        (planWords source' destination' operation') = some words →
      N = N' ∧ M = M' ∧ operation = operation' ∧ processGridOf source = processGridOf source' ∧
        processGridOf destination = processGridOf destination' ∧
      describePencil source = describePencil source' ∧
        describePencil destination = describePencil destination') ∧
    (∀ {N M N' M' : ℕ} (plan : TransposePlanCore N M) (plan' : TransposePlanCore N' M')
      (T T' : ElementType) (source destination source' destination' : ExtraShape)
      (operation operation' : BitVec 64) (reserved reserved' : Bool) (words : List (BitVec 64)),
      ElementType.Fits T → ElementType.Fits T' →
      (∀ shape ∈ [source, destination, source', destination'],
        ∀ d ∈ shape.dimensions, d < usizeLimit) →
      ofExpectedLength reserved (plan.executeDescriptorLen T source destination)
        (plan.executeWords T source destination operation) = some words →
      ofExpectedLength reserved' (plan'.executeDescriptorLen T' source' destination')
        (plan'.executeWords T' source' destination' operation') = some words →
      N = N' ∧ M = M' ∧ operation = operation' ∧ plan.mode = plan'.mode ∧
        processGridOf plan.source = processGridOf plan'.source ∧
        processGridOf plan.destination = processGridOf plan'.destination ∧
        describePencil plan.source = describePencil plan'.source ∧
        describePencil plan.destination = describePencil plan'.destination ∧ source = source' ∧
        destination = destination' ∧ T = T') ∧
    (∀ {N M N' M' : ℕ} (request : SpatialRemap.Request N M) (request' : SpatialRemap.Request N' M')
      (reserved reserved' : Bool) (len len' : ℕ) (words : List (BitVec 64)),
      SpatialRemap.descriptorLength request = .ok len →
      SpatialRemap.descriptorLength request' = .ok len' →
      SpatialRemap.buildDescriptor reserved len request = .ok words →
      SpatialRemap.buildDescriptor reserved' len' request' = .ok words →
      N = N' ∧ M = M' ∧ processGridOf request.source = processGridOf request'.source ∧
        (request.destination.topology = request.source.topology →
          request'.destination.topology = request'.source.topology →
          processGridOf request.destination = processGridOf request'.destination) ∧
        describePencil request.source = describePencil request'.source ∧
        describePencil request.destination = describePencil request'.destination ∧
        request.extraShape = request'.extraShape ∧
        List.ofFn request.signs = List.ofFn request'.signs ∧
        List.ofFn request.offsets = List.ofFn request'.offsets ∧
        request.element = request'.element) ∧
    (∀ {N M N' M' : ℕ} (pencil : Pencil N M) (pencil' : Pencil N' M')
      (extraShape extraShape' : ExtraShape) (T U T' U' : TypeInfo)
      (callbackName callbackName' : List (BitVec 8)) (reserved reserved' : Bool)
      (operation operation' rootWord rootWord' : ℕ) (words : List (BitVec 32)),
      operation < usizeLimit → operation' < usizeLimit → rootWord < usizeLimit →
      rootWord' < usizeLimit → TypeInfo.Fits T ∧ TypeInfo.Fits U →
      TypeInfo.Fits T' ∧ TypeInfo.Fits U' → (∀ d ∈ extraShape.dimensions, d < usizeLimit) →
      (∀ d ∈ extraShape'.dimensions, d < usizeLimit) →
      Model.buildDescriptor pencil extraShape T U callbackName reserved operation rootWord
        = some words →
      Model.buildDescriptor pencil' extraShape' T' U' callbackName' reserved' operation' rootWord'
        = some words →
      N = N' ∧ M = M' ∧ operation = operation' ∧ rootWord = rootWord' ∧
        processGridOf pencil = processGridOf pencil' ∧
        describePencil pencil = describePencil pencil' ∧
        extraShape = extraShape' ∧ T = T' ∧ U = U' ∧ callbackName = callbackName') ∧
    (∀ {N M N' M' : ℕ} (request : MpiIo.Request N M) (request' : MpiIo.Request N' M')
      (bytes : List Byte), MpiIo.buildDescriptor request = .ok bytes →
      MpiIo.buildDescriptor request' = .ok bytes →
      N = N' ∧ M = M' ∧ request.operation = request'.operation ∧
        request.typeCode = request'.typeCode ∧ request.width = request'.width ∧
        List.ofFn request.global = List.ofFn request'.global ∧ request.extra = request'.extra ∧
        List.ofFn request.grid = List.ofFn request'.grid ∧
        (List.ofFn fun i => (request.decomposition i).val)
          = (List.ofFn fun i => (request'.decomposition i).val) ∧
        (List.ofFn fun i => (request.permutation i).val)
          = (List.ofFn fun i => (request'.permutation i).val) ∧ request.path = request'.path) ∧
    (∀ {N M : ℕ} (source destination : Pencil N M) (operation : BitVec 64) (len : ℕ),
      planDescriptorLen N M = some len → (planWords source destination operation).length = len) ∧
    (∀ {N M : ℕ} (plan : TransposePlanCore N M) (T : ElementType)
      (source destination : ExtraShape) (operation : BitVec 64) (len : ℕ),
      plan.executeDescriptorLen T source destination = some len →
      (plan.executeWords T source destination operation).length = len) ∧
    (∀ {N M : ℕ} (request : SpatialRemap.Request N M) (len : ℕ),
      SpatialRemap.descriptorLength request = .ok len → RemapFits request →
      ∃ words, SpatialRemap.buildDescriptor true len request = .ok words ∧ words.length = len) ∧
    (∀ {N M : ℕ} (pencil : Pencil N M) (extraShape : ExtraShape) (T U : TypeInfo)
      (callbackName : List (BitVec 8)) (operation rootWord len : ℕ),
      descriptorLen (N := N) (M := M) extraShape T U callbackName = some len →
      (layoutWords pencil extraShape T U callbackName operation rootWord).length = len) ∧
    ∀ {N M : ℕ} (request : MpiIo.Request N M) (bytes : List Byte),
      MpiIo.buildDescriptor request = .ok bytes → bytes.length
        = 8 * (9 + 2 * N + request.extra.length + 2 * M) + request.path.length := by
  refine ⟨?_, ?_, ?_, ?_, ?_, ?_, ?_, ?_, ?_, ?_⟩
  · intro N M N' M' source destination source' destination' operation operation' reserved
      reserved' words h h'
    obtain ⟨rfl, hlen⟩ := ofExpectedLength_eq_some h
    obtain ⟨hwords, hlen'⟩ := ofExpectedLength_eq_some h'
    have hbound := planDescriptorLen_eq hlen
    have hbound' := planDescriptorLen_eq hlen'
    obtain ⟨hN, hM, hoperation, hgrid, hgrid', hsource, hdestination, _⟩ := planWords_split
      (by omega) (by omega) (by omega) (by omega) (congrArg (· ++ []) hwords)
    exact ⟨hN, hM, hoperation, hgrid, hgrid', hsource, hdestination⟩
  · intro N M N' M' plan plan' T T' source destination source' destination' operation operation'
      reserved reserved' words hT hT' hdims h h'
    obtain ⟨rfl, hlen⟩ := ofExpectedLength_eq_some h
    obtain ⟨hwords, hlen'⟩ := ofExpectedLength_eq_some h'
    exact executeWords_inj hlen hlen' hT hT' hdims hwords
  · intro N M N' M' request request' reserved reserved' len len' words hlen hlen' h h'
    have hbound := remap_descriptorLength_eq hlen
    have hbound' := remap_descriptorLength_eq hlen'
    obtain ⟨_, hfits, rfl, _⟩ := (remap_buildDescriptor_eq_ok (by omega)).mp h
    obtain ⟨_, hfits', hwords, _⟩ := (remap_buildDescriptor_eq_ok (by omega)).mp h'
    obtain ⟨hN, hM, hgrid, hrest⟩ := remapWords_inj (by omega) (by omega) (by omega) (by omega)
      hfits hfits' hwords
    refine ⟨hN, hM, hgrid, fun htopology htopology' => ?_, hrest⟩
    unfold processGridOf at hgrid ⊢
    rw [htopology, htopology', hgrid]
  · intro N M N' M' pencil pencil' extraShape extraShape' T U T' U' callbackName callbackName'
      reserved reserved' operation operation' rootWord rootWord' words hoperation hoperation' hroot
      hroot' htypes htypes' hdims hdims' h h'
    obtain ⟨⟨len, hlen⟩, rfl⟩ := layout_buildDescriptor_eq_some h
    obtain ⟨⟨len', hlen'⟩, hwords⟩ := layout_buildDescriptor_eq_some h'
    exact layoutWords_inj hlen hlen' hoperation hoperation' hroot hroot' htypes htypes' hdims
      hdims' hwords
  · intro N M N' M' request request' bytes h h'
    obtain ⟨hfits, rfl, _⟩ := io_buildDescriptor_eq_ok h
    obtain ⟨hfits', hbytes, _⟩ := io_buildDescriptor_eq_ok h'
    exact requestBytes_inj hfits hfits' hbytes
  · intro N M source destination operation len h
    rw [length_planWords, (planDescriptorLen_eq h).1]
  · intro N M plan T source destination operation len h
    rw [length_executeWords, (executeDescriptorLen_eq h).2]
  · intro N M request len h hfits
    have hbound := remap_descriptorLength_eq h
    have hlength : (remapWords request).length = len := by rw [length_remapWords, hbound.2]
    exact ⟨_, (remap_buildDescriptor_eq_ok (by omega)).mpr ⟨rfl, hfits, rfl, hlength⟩, hlength⟩
  · intro N M pencil extraShape T U callbackName operation rootWord len h
    exact layoutWords_length extraShape T U callbackName pencil operation rootWord h
  · intro N M request bytes h
    obtain ⟨_, rfl, _⟩ := io_buildDescriptor_eq_ok h
    exact length_requestBytes request

/-- Reading eight numbers from the file "/a" on one rank. -/
def smallRequest : MpiIo.Request 1 1 where
  path := [0x2f, 0x61]
  operation := 2
  global := fun _ => 8
  extra := []
  grid := fun _ => 1
  decomposition := fun _ => 0
  permutation := fun _ => 0
  typeCode := 10
  width := 8

theorem collective_descriptors_injective_small :
    ∃ bytes, MpiIo.buildDescriptor smallRequest = .ok bytes ∧
      List.ofFn smallRequest.global = List.ofFn smallRequest.global ∧ bytes.length = 106 := by
  have hlimit : 8 < usizeLimit := by decide
  have hok : MpiIo.buildDescriptor smallRequest = .ok (requestBytes smallRequest) := by
    apply io_buildDescriptor_ok _ (by decide)
    · rw [length_requestBytes]
      decide
    · exact ⟨by decide, by decide, hlimit, by decide, fun _ => hlimit, nofun,
        fun _ => (by decide : 1 < usizeLimit), by decide⟩
  refine ⟨requestBytes smallRequest, hok, ?_, ?_⟩
  · exact (collective_descriptors_injective.2.2.2.2.1 smallRequest smallRequest _ hok
      hok).2.2.2.2.2.1
  · exact collective_descriptors_injective.2.2.2.2.2.2.2.2.2 smallRequest _ hok

end PencilRs.Analysis
