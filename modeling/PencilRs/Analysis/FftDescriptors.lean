import PencilRs.Analysis.DescriptorWords
import PencilRs.Analysis.FftPlan
import PencilRs.Model.FftDescriptors

/-!
# What the descriptors of transforms tell

Every operation has a word of its own, and behind equal words stand equal requests: each part of
a descriptor has a length that is known when it is reached.
-/

set_option autoImplicit false

namespace PencilRs.Analysis

open PencilRs.Computation PencilRs.Model

variable {N M : ℕ}

/-! ## Operations -/

def allFamilies : List Family := [.c2c, .r2c, .c2r, .r2r, .dht, .mixedC2c, .mixedR2c]

def allVariants : List CallVariant := [.plain, .timed, .overlap, .inPlace, .inPlaceTimed]

def allDirections : List Direction := [.forward, .inverse, .backward]

def allOperations : List FftOperation :=
  (allFamilies.flatMap fun family => [false, true].map (.plan family))
    ++ (allFamilies.flatMap fun family => allVariants.flatMap fun variant =>
      allDirections.map (.execute family variant))
    ++ [false, true].flatMap fun inPlace => allDirections.map (.executeMany inPlace)

theorem mem_allOperations (operation : FftOperation) : operation ∈ allOperations := by
  have hfamily : ∀ family : Family, family ∈ allFamilies := fun family => by
    cases family <;> decide
  have hvariant : ∀ variant : CallVariant, variant ∈ allVariants := fun variant => by
    cases variant <;> decide
  have hdirection : ∀ direction : Direction, direction ∈ allDirections := fun direction => by
    cases direction <;> decide
  have hbool : ∀ b : Bool, b ∈ [false, true] := by decide
  unfold allOperations
  cases operation with
  | plan family native =>
    refine List.mem_append_left _ (List.mem_append_left _ ?_)
    exact List.mem_flatMap.mpr ⟨family, hfamily family, List.mem_map_of_mem (hbool native)⟩
  | execute family variant direction =>
    refine List.mem_append_left _ (List.mem_append_right _ ?_)
    exact List.mem_flatMap.mpr ⟨family, hfamily family, List.mem_flatMap.mpr ⟨variant,
      hvariant variant, List.mem_map_of_mem (hdirection direction)⟩⟩
  | executeMany inPlace direction =>
    refine List.mem_append_right _ ?_
    exact List.mem_flatMap.mpr ⟨inPlace, hbool inPlace,
      List.mem_map_of_mem (hdirection direction)⟩

/-- **Operation words** are pairwise distinct. -/
theorem operationWord_inj {a b : FftOperation} {word : BitVec 64} (ha : a.word = some word)
    (hb : b.word = some word) : a = b := by
  have hall : ∀ a ∈ allOperations, ∀ b ∈ allOperations, a.word = b.word → a.word ≠ none →
      a = b := by decide +kernel
  refine hall a (mem_allOperations a) b (mem_allOperations b) (ha.trans hb.symm) ?_
  rw [ha]
  exact Option.some_ne_none word

theorem collectionWord_inj {a b : Family} {word : BitVec 64} (ha : a.collectionWord = some word)
    (hb : b.collectionWord = some word) : a = b := by
  have h := ha.trans hb.symm
  cases a <;> cases b <;> first | rfl | contradiction

/-! ## Requests -/

/-- The numbers of a backend are those of their machine types. -/
def FitsBackend (backend : BackendChoice) : Prop :=
  ∀ options, backend = .fftw options → options.threads < usizeLimit ∧
    ∀ secs nanos, options.timeLimit = some (secs, nanos) → secs < usizeLimit ∧ nanos < usizeLimit

/-- The numbers of the arguments are machine words. -/
structure FitsArgs (args : PlanArgs N M) : Prop where
  globalShape : ∀ axis, args.globalShape axis < usizeLimit
  extraShape : Fits args.extraShape
  backend : FitsBackend args.backend

structure FitsRequest (request : PlanRequest N M) : Prop where
  args : FitsArgs request.args
  realLen : ∀ realLen, request.realLen = some realLen → realLen < usizeLimit

/-- Two constructors are given the same. -/
structure SameArgs (a b : PlanArgs N M) : Prop where
  globalShape : a.globalShape = b.globalShape
  processGrid : a.topology.processGrid = b.topology.processGrid
  extraShape : a.extraShape = b.extraShape
  layout : a.layout = b.layout
  backend : a.backend = b.backend
  real : a.real = b.real

/-- Two requests for the same plan, with every selection, kind, direction and length. -/
def SameRequest : PlanRequest N M → PlanRequest N M → Prop
  | .c2c a selection directions, .c2c b selection' directions' =>
    SameArgs a b ∧ selection = selection' ∧ directions = directions'
  | .r2c a selection, .r2c b selection' => SameArgs a b ∧ selection = selection'
  | .c2r a selection realLen, .c2r b selection' realLen' =>
    SameArgs a b ∧ selection = selection' ∧ realLen = realLen'
  | .r2r a complex kinds, .r2r b complex' kinds' =>
    SameArgs a b ∧ complex = complex' ∧ kinds = kinds'
  | .dht a complex selection, .dht b complex' selection' =>
    SameArgs a b ∧ complex = complex' ∧ selection = selection'
  | .mixedC2c a transforms directions, .mixedC2c b transforms' directions' =>
    SameArgs a b ∧ transforms = transforms' ∧ directions = directions'
  | .mixedR2c a transforms directions, .mixedR2c b transforms' directions' =>
    SameArgs a b ∧ transforms = transforms' ∧ directions = directions'
  | _, _ => False

/-! ## The parts of a descriptor -/

section Parts

variable {s t : List (BitVec 64)}

theorem ofFn_eq_flatMap {α β : Type} {n : ℕ} (f : Fin n → α) (code : α → β) :
    List.ofFn (fun i => code (f i)) = (List.ofFn f).flatMap fun a => [code a] := by
  rw [← List.map_eq_flatMap, List.map_ofFn]
  rfl

theorem words64_ofFn_split {n : ℕ} {f g : Fin n → ℕ} (hf : ∀ i, f i < usizeLimit)
    (hg : ∀ i, g i < usizeLimit)
    (h : words64 (List.ofFn f) ++ s = words64 (List.ofFn g) ++ t) : f = g ∧ s = t := by
  rw [words64_eq_flatMap, words64_eq_flatMap] at h
  exact delimited_word.ofFn hf hg h

/-- The words of one of finitely many values. -/
theorem delimited_of_injective {α : Type} {word : α → BitVec 64}
    (hinj : Function.Injective word) : Delimited (fun _ => True) fun a => [word a] :=
  Delimited.of_length (fun _ _ => rfl) fun _ _ _ _ h => hinj (List.cons.inj h).1

theorem ofFn_word_split {α : Type} {word : α → BitVec 64} (hinj : Function.Injective word) {n : ℕ}
    {f g : Fin n → α} (h : List.ofFn (fun i => word (f i)) ++ s
      = List.ofFn (fun i => word (g i)) ++ t) : f = g ∧ s = t := by
  rw [ofFn_eq_flatMap f word, ofFn_eq_flatMap g word] at h
  exact (delimited_of_injective hinj).ofFn (fun _ => trivial) (fun _ => trivial) h

theorem direction_word_inj : Function.Injective FourierDirection.word := by
  intro a b h
  cases a <;> cases b <;> first | rfl | contradiction

theorem maskWord_inj : Function.Injective fun selected : Bool => BitVec.ofNat 64 selected.toNat :=
  fun _ _ h => toNat_inj_word h

theorem directions_split {a b : FourierDirections N}
    (h : List.ofFn (fun axis => (a.direction axis).word) ++ s
      = List.ofFn (fun axis => (b.direction axis).word) ++ t) : a = b ∧ s = t := by
  obtain ⟨hdirection, hst⟩ := ofFn_word_split direction_word_inj h
  exact ⟨by cases a; cases b; exact congrArg FourierDirections.mk hdirection, hst⟩

theorem mask_split {a b : AxisSelection N}
    (h : words64 (List.ofFn fun axis => (a.mask axis).toNat) ++ s
      = words64 (List.ofFn fun axis => (b.mask axis).toNat) ++ t) : a = b ∧ s = t := by
  unfold words64 at h
  rw [List.map_ofFn, List.map_ofFn] at h
  obtain ⟨hmask, hst⟩ := ofFn_word_split maskWord_inj h
  exact ⟨by cases a; cases b; exact congrArg AxisSelection.mk hmask, hst⟩

theorem realWord_inj {a b : FftReal} (h : BitVec.ofNat 64 a.size = BitVec.ofNat 64 b.size) :
    a = b := by
  cases a <;> cases b <;> first | rfl | contradiction

theorem layout_of_words {a b : DistributedLayout}
    (hmethod : a.transposeMethod.descriptorWord = b.transposeMethod.descriptorWord)
    (hpermute : BitVec.ofNat 64 a.permuteDims.toNat = BitVec.ofNat 64 b.permuteDims.toNat) :
    a = b := by
  have hmethod := method_of_word hmethod
  have hpermute := toNat_inj_word hpermute
  cases a
  cases b
  exact congrArg₂ DistributedLayout.mk hmethod hpermute

theorem r2rKindWord_inj :
    Function.Injective fun kind : Option AxisR2rKind => kind.elim 0 AxisR2rKind.descriptorCode := by
  intro a b h
  rcases a with _ | (kind | _) <;> rcases b with _ | (kind' | _) <;>
    first
    | rfl
    | (cases kind <;> cases kind' <;> first | rfl | contradiction)
    | (cases kind <;> contradiction)
    | (cases kind' <;> contradiction)
    | contradiction

theorem delimited_transform : Delimited (fun _ => True) AxisTransform.words := by
  have hlength : ∀ a : AxisTransform, a.words.length = 2 := fun a => by cases a <;> rfl
  have hkind : ∀ kind kind' : AxisR2rKind, kind.descriptorCode = kind'.descriptorCode →
      kind = kind' := fun kind kind' h =>
    Option.some.inj (@r2rKindWord_inj (some kind) (some kind') h)
  refine Delimited.of_length (fun a _ => hlength a) fun a b _ _ h => ?_
  cases a <;> cases b <;>
    first
    | rfl
    | contradiction
    | exact absurd (List.cons.inj h).1 (by decide)
    | exact congrArg AxisTransform.r2r (hkind _ _ (List.cons.inj (List.cons.inj h).2).1)

theorem rigor_word_inj : Function.Injective PlanningRigor.word := by
  intro a b h
  cases a <;> cases b <;> first | rfl | contradiction

theorem length_backendWords (size : ℕ) (backend : BackendChoice) :
    (backend.descriptorWords size).length = 8 := by
  cases backend <;> rfl

theorem optionFlags_inj {a b a' b' : Bool}
    (h : BitVec.ofNat 64 (a.toNat + 2 * b.toNat) = BitVec.ofNat 64 (a'.toNat + 2 * b'.toNat)) :
    a = a' ∧ b = b' := by
  cases a <;> cases b <;> cases a' <;> cases b' <;> first | exact ⟨rfl, rfl⟩ | contradiction

/-- **The words of a backend.** -/
theorem backend_split {a b : BackendChoice} {size : ℕ} (ha : FitsBackend a) (hb : FitsBackend b)
    (h : a.descriptorWords size ++ s = b.descriptorWords size ++ t) : a = b ∧ s = t := by
  obtain ⟨hwords, hst⟩ := List.append_inj h
    ((length_backendWords size a).trans (length_backendWords size b).symm)
  refine ⟨?_, hst⟩
  cases a with
  | rustFft =>
    cases b with
    | rustFft => rfl
    | fftw options => exact absurd (List.cons.inj hwords).1 (by decide)
  | fftw options =>
    cases b with
    | rustFft => exact absurd (List.cons.inj hwords).1 (by decide)
    | fftw options' =>
      obtain ⟨hthreads, htime⟩ := ha options rfl
      obtain ⟨hthreads', htime'⟩ := hb options' rfl
      obtain ⟨_, hwords⟩ := List.cons.inj hwords
      obtain ⟨_, hwords⟩ := List.cons.inj hwords
      obtain ⟨hrigor, hwords⟩ := List.cons.inj hwords
      obtain ⟨hpresent, hwords⟩ := List.cons.inj hwords
      obtain ⟨hsecs, hwords⟩ := List.cons.inj hwords
      obtain ⟨hnanos, hwords⟩ := List.cons.inj hwords
      obtain ⟨hcount, hwords⟩ := List.cons.inj hwords
      obtain ⟨hwisdom, hmemory⟩ := optionFlags_inj (List.cons.inj hwords).1
      obtain ⟨rigor, timeLimit, threads, wisdomOnly, conserveMemory⟩ := options
      obtain ⟨rigor', timeLimit', threads', wisdomOnly', conserveMemory'⟩ := options'
      obtain rfl := rigor_word_inj hrigor
      obtain rfl := ofNat64_inj hthreads hthreads' hcount
      obtain rfl : wisdomOnly = wisdomOnly' := hwisdom
      obtain rfl : conserveMemory = conserveMemory' := hmemory
      have hlimit : timeLimit = timeLimit' := by
        cases timeLimit with
        | none =>
          cases timeLimit' with
          | none => rfl
          | some limit => exact absurd (show (0 : BitVec 64) = 1 from hpresent) (by decide)
        | some limit =>
          cases timeLimit' with
          | none => exact absurd (show (1 : BitVec 64) = 0 from hpresent) (by decide)
          | some limit' =>
            obtain ⟨hlimit, hlimit'⟩ := htime limit.1 limit.2 rfl
            obtain ⟨hsmall, hsmall'⟩ := htime' limit'.1 limit'.2 rfl
            exact congrArg some (Prod.ext (ofNat64_inj hlimit hsmall hsecs)
              (ofNat64_inj hlimit' hsmall' hnanos))
      rw [hlimit]

end Parts

/-! ## The descriptors of the families -/

section Descriptors

variable {a b : PlanArgs N M} {s t : List (BitVec 64)}

/-- What all descriptors tell before the backend. -/
structure SameBase (a b : PlanArgs N M) : Prop where
  globalShape : a.globalShape = b.globalShape
  processGrid : a.topology.processGrid = b.topology.processGrid
  extraShape : a.extraShape = b.extraShape
  layout : a.layout = b.layout
  real : a.real = b.real

theorem grid_fits (args : PlanArgs N M) : ∀ axis, args.topology.processGrid axis < usizeLimit :=
  processGrid_lt args.topology

theorem SameBase.args (h : SameBase a b) (ha : FitsArgs a) (hb : FitsArgs b)
    (hwords : a.backend.descriptorWords a.real.size ++ s
      = b.backend.descriptorWords b.real.size ++ t) : SameArgs a b ∧ s = t := by
  rw [h.real] at hwords
  obtain ⟨hbackend, hst⟩ := backend_split ha.backend hb.backend hwords
  exact ⟨⟨h.globalShape, h.processGrid, h.extraShape, h.layout, hbackend, h.real⟩, hst⟩

theorem fftWords_split {selection selection' : AxisSelection N} {kind kind' : BitVec 64}
    (ha : FitsArgs a) (hb : FitsArgs b)
    (h : fftDescriptorWords a.topology a.globalShape a.extraShape selection kind a.real.size
        a.layout ++ s
      = fftDescriptorWords b.topology b.globalShape b.extraShape selection' kind' b.real.size
        b.layout ++ t) : SameBase a b ∧ selection = selection' ∧ s = t := by
  unfold fftDescriptorWords at h
  simp only [List.append_assoc] at h
  obtain ⟨hshape, h⟩ := words64_ofFn_split ha.globalShape hb.globalShape h
  obtain ⟨hgrid, h⟩ := words64_ofFn_split (grid_fits a) (grid_fits b) h
  obtain ⟨hextra, h⟩ := delimited_shape ha.extraShape hb.extraShape h
  obtain ⟨hselection, h⟩ := mask_split h
  obtain ⟨_, h⟩ := List.cons.inj h
  obtain ⟨hreal, h⟩ := List.cons.inj h
  obtain ⟨hmethod, h⟩ := List.cons.inj h
  obtain ⟨hpermute, h⟩ := List.cons.inj h
  exact ⟨⟨hshape, hgrid, hextra, layout_of_words hmethod hpermute, realWord_inj hreal⟩, hselection,
    h⟩

theorem r2rWords_split {kind kind' : BitVec 64} {kinds kinds' : Fin N → Option AxisR2rKind}
    (ha : FitsArgs a) (hb : FitsArgs b)
    (h : r2rDescriptorWords a kind kinds ++ s = r2rDescriptorWords b kind' kinds' ++ t) :
    SameBase a b ∧ kind = kind' ∧ kinds = kinds' ∧ s = t := by
  unfold r2rDescriptorWords at h
  simp only [List.append_assoc] at h
  obtain ⟨hshape, h⟩ := words64_ofFn_split ha.globalShape hb.globalShape h
  obtain ⟨hgrid, h⟩ := words64_ofFn_split (grid_fits a) (grid_fits b) h
  obtain ⟨hextra, h⟩ := delimited_shape ha.extraShape hb.extraShape h
  obtain ⟨hkind, h⟩ := List.cons.inj h
  obtain ⟨hreal, h⟩ := List.cons.inj h
  obtain ⟨hkinds, h⟩ := ofFn_word_split r2rKindWord_inj h
  obtain ⟨hmethod, h⟩ := List.cons.inj h
  obtain ⟨hpermute, h⟩ := List.cons.inj h
  exact ⟨⟨hshape, hgrid, hextra, layout_of_words hmethod hpermute, realWord_inj hreal⟩, hkind,
    hkinds, h⟩

theorem mixedWords_split {outputShape outputShape' : Fin N → ℕ}
    {transforms transforms' : Fin N → AxisTransform} {family family' : BitVec 64}
    {axis axis' : Option (Fin N)} {len len' : ℕ} (ha : FitsArgs a) (hb : FitsArgs b)
    (h : mixedDescriptorWords a outputShape transforms family axis len ++ s
      = mixedDescriptorWords b outputShape' transforms' family' axis' len' ++ t) :
    SameBase a b ∧ transforms = transforms' ∧ s = t := by
  unfold mixedDescriptorWords at h
  simp only [List.append_assoc] at h
  obtain ⟨hshape, h⟩ := words64_ofFn_split ha.globalShape hb.globalShape h
  obtain ⟨_, h⟩ := List.append_inj h (by simp)
  obtain ⟨hgrid, h⟩ := words64_ofFn_split (grid_fits a) (grid_fits b) h
  obtain ⟨hextra, h⟩ := delimited_shape ha.extraShape hb.extraShape h
  obtain ⟨_, h⟩ := List.cons.inj h
  obtain ⟨_, h⟩ := List.cons.inj h
  obtain ⟨hreal, h⟩ := List.cons.inj h
  obtain ⟨_, h⟩ := List.cons.inj h
  obtain ⟨_, h⟩ := List.cons.inj h
  obtain ⟨_, h⟩ := List.cons.inj h
  obtain ⟨hmethod, h⟩ := List.cons.inj h
  obtain ⟨hpermute, h⟩ := List.cons.inj h
  obtain ⟨htransforms, h⟩ := delimited_transform.ofFn (fun _ => trivial) (fun _ => trivial) h
  exact ⟨⟨hshape, hgrid, hextra, layout_of_words hmethod hpermute, realWord_inj hreal⟩,
    htransforms, h⟩

end Descriptors

section Requests

variable {p q : PlanRequest N M}

theorem complexKind_inj {a b : Bool}
    (h : (if a then 2 else 1 : BitVec 64) = if b then 2 else 1) : a = b := by
  cases a <;> cases b <;> first | rfl | contradiction

/-- **Equal descriptors** of one family come from the same request. -/
theorem words_inj (hp : FitsRequest p) (hq : FitsRequest q) (hfamily : p.family = q.family)
    (hwords : p.words = q.words) : SameRequest p q := by
  have ha := hp.args
  have hb := hq.args
  cases p with
  | c2c a selection directions =>
    cases q with
    | c2c b selection' directions' =>
      simp only [PlanRequest.words, List.append_assoc] at hwords
      obtain ⟨hbase, hselection, hwords⟩ := fftWords_split ha hb hwords
      obtain ⟨hdirections, hwords⟩ := directions_split hwords
      obtain ⟨hargs, _⟩ := hbase.args ha hb (congrArg (· ++ []) hwords)
      exact ⟨hargs, hselection, hdirections⟩
    | _ => contradiction
  | r2c a selection =>
    cases q with
    | r2c b selection' =>
      obtain ⟨hbase, hselection, hwords⟩ := fftWords_split ha hb hwords
      obtain ⟨hargs, _⟩ := hbase.args ha hb (congrArg (· ++ []) hwords)
      exact ⟨hargs, hselection⟩
    | _ => contradiction
  | c2r a selection realLen =>
    cases q with
    | c2r b selection' realLen' =>
      simp only [PlanRequest.words, List.append_assoc] at hwords
      obtain ⟨hbase, hselection, hwords⟩ := fftWords_split ha hb hwords
      obtain ⟨hargs, hwords⟩ := hbase.args ha hb hwords
      exact ⟨hargs, hselection, ofNat64_inj (hp.realLen _ rfl) (hq.realLen _ rfl)
        (List.cons.inj hwords).1⟩
    | _ => contradiction
  | r2r a complex kinds =>
    cases q with
    | r2r b complex' kinds' =>
      obtain ⟨hbase, hcomplex, hkinds, hwords⟩ := r2rWords_split ha hb hwords
      obtain ⟨hargs, _⟩ := hbase.args ha hb (congrArg (· ++ []) hwords)
      refine ⟨hargs, complexKind_inj hcomplex, funext fun axis => ?_⟩
      exact Option.map_injective (fun _ _ h => AxisR2rKind.fftw.inj h) (congrFun hkinds axis)
    | _ => contradiction
  | dht a complex selection =>
    cases q with
    | dht b complex' selection' =>
      obtain ⟨hbase, hcomplex, hkinds, hwords⟩ := r2rWords_split ha hb hwords
      obtain ⟨hargs, _⟩ := hbase.args ha hb (congrArg (· ++ []) hwords)
      refine ⟨hargs, complexKind_inj hcomplex, ?_⟩
      have hmask : selection.mask = selection'.mask := by
        funext axis
        have h := congrFun hkinds axis
        cases hmask : selection.mask axis <;> cases hmask' : selection'.mask axis <;>
          simp only [hmask, hmask', if_true, Bool.false_eq_true, if_false] at h
          <;> first | rfl | contradiction
      cases selection
      cases selection'
      exact congrArg AxisSelection.mk hmask
    | _ => contradiction
  | mixedC2c a transforms directions =>
    cases q with
    | mixedC2c b transforms' directions' =>
      simp only [PlanRequest.words, List.append_assoc] at hwords
      obtain ⟨hbase, htransforms, hwords⟩ := mixedWords_split ha hb hwords
      obtain ⟨hargs, hwords⟩ := hbase.args ha hb hwords
      obtain ⟨hdirections, _⟩ := directions_split (congrArg (· ++ []) hwords)
      exact ⟨hargs, htransforms, hdirections⟩
    | _ => contradiction
  | mixedR2c a transforms directions =>
    cases q with
    | mixedR2c b transforms' directions' =>
      simp only [PlanRequest.words, List.append_assoc] at hwords
      obtain ⟨hbase, htransforms, hwords⟩ := mixedWords_split ha hb hwords
      obtain ⟨hargs, hwords⟩ := hbase.args ha hb hwords
      obtain ⟨hdirections, _⟩ := directions_split (congrArg (· ++ []) hwords)
      exact ⟨hargs, htransforms, hdirections⟩
    | _ => contradiction

theorem fftDescriptorLen_eq {extraShape : ExtraShape} {len : ℕ}
    (h : fftDescriptorLen N M extraShape = some len) :
    len = 2 * N + M + extraShape.dimensions.length + 5 := by
  obtain ⟨first, hfirst, h⟩ := Option.bind_eq_some_iff.mp h
  obtain ⟨second, hsecond, h⟩ := Option.bind_eq_some_iff.mp h
  obtain ⟨third, hthird, h⟩ := Option.bind_eq_some_iff.mp h
  obtain ⟨fourth, hfourth, h⟩ := Option.bind_eq_some_iff.mp h
  have h₁ := (checkedAdd_eq_some.mp hfirst).2
  have h₂ := (checkedAdd_eq_some.mp hsecond).2
  have h₃ := (checkedAdd_eq_some.mp hthird).2
  have h₄ := (checkedAdd_eq_some.mp hfourth).2
  have h₅ := (checkedAdd_eq_some.mp h).2
  omega

theorem mixedDescriptorLen_eq {extra : ExtraShape} {len : ℕ}
    (h : mixedDescriptorLen N M extra = some len) :
    len = 4 * N + M + extra.dimensions.length + 9 := by
  obtain ⟨first, hfirst, h⟩ := Option.bind_eq_some_iff.mp h
  obtain ⟨second, hsecond, h⟩ := Option.bind_eq_some_iff.mp h
  obtain ⟨third, hthird, h⟩ := Option.bind_eq_some_iff.mp h
  have h₁ := (checkedMul_eq_some.mp hfirst).2
  have h₂ := (checkedAdd_eq_some.mp hsecond).2
  have h₃ := (checkedAdd_eq_some.mp hthird).2
  have h₄ := (checkedAdd_eq_some.mp h).2
  omega

theorem length_fftWords (args : PlanArgs N M) (selection : AxisSelection N) (kind : BitVec 64) :
    (fftDescriptorWords args.topology args.globalShape args.extraShape selection kind
      args.real.size args.layout).length
      = 2 * N + M + args.extraShape.dimensions.length + 5 := by
  unfold fftDescriptorWords
  simp only [List.length_append, length_words64, List.length_ofFn, length_shapeWords,
    List.length_cons, List.length_nil]
  omega

theorem length_r2rWords (args : PlanArgs N M) (kind : BitVec 64)
    (kinds : Fin N → Option AxisR2rKind) :
    (r2rDescriptorWords args kind kinds).length
      = 2 * N + M + args.extraShape.dimensions.length + 5 := by
  unfold r2rDescriptorWords
  simp only [List.length_append, length_words64, List.length_ofFn, length_shapeWords,
    List.length_cons, List.length_nil]
  omega

theorem length_mixedWords (args : PlanArgs N M) (outputShape : Fin N → ℕ)
    (transforms : Fin N → AxisTransform) (family : BitVec 64) (axis : Option (Fin N)) (len : ℕ) :
    (mixedDescriptorWords args outputShape transforms family axis len).length
      = 4 * N + M + args.extraShape.dimensions.length + 9 := by
  have htransforms : ((List.ofFn transforms).flatMap AxisTransform.words).length = 2 * N := by
    have hlength : ∀ a : AxisTransform, a.words.length = 2 := fun a => by cases a <;> rfl
    rw [List.length_flatMap, List.map_congr_left fun a _ => hlength a, List.map_const',
      List.length_ofFn, List.sum_replicate, smul_eq_mul, Nat.mul_comm]
  unfold mixedDescriptorWords
  simp only [List.length_append, length_words64, List.length_ofFn, length_shapeWords,
    List.length_cons, List.length_nil, htransforms]
  omega

/-- **The announced length** is the number of words. -/
theorem length_words {len : ℕ} (h : p.expectedLen = some len) : p.words.length = len := by
  cases p with
  | c2c a selection directions =>
    obtain ⟨base, hbase, h⟩ := Option.bind_eq_some_iff.mp h
    obtain ⟨next, hnext, h⟩ := Option.bind_eq_some_iff.mp h
    rw [PlanRequest.words, List.length_append, List.length_append, length_fftWords,
      List.length_ofFn, length_backendWords]
    have := fftDescriptorLen_eq hbase
    have := (checkedAdd_eq_some.mp hnext).2
    have := (checkedAdd_eq_some.mp h).2
    omega
  | r2c a selection =>
    obtain ⟨base, hbase, h⟩ := Option.bind_eq_some_iff.mp h
    rw [PlanRequest.words, List.length_append, length_fftWords, length_backendWords]
    have := fftDescriptorLen_eq hbase
    have := (checkedAdd_eq_some.mp h).2
    omega
  | c2r a selection realLen =>
    obtain ⟨base, hbase, h⟩ := Option.bind_eq_some_iff.mp h
    rw [PlanRequest.words, List.length_append, List.length_append, length_fftWords,
      length_backendWords, List.length_singleton]
    have := fftDescriptorLen_eq hbase
    have := (checkedAdd_eq_some.mp h).2
    omega
  | r2r a complex kinds | dht a complex selection =>
    obtain ⟨base, hbase, h⟩ := Option.bind_eq_some_iff.mp h
    rw [PlanRequest.words, List.length_append, length_r2rWords, length_backendWords]
    have := fftDescriptorLen_eq hbase
    have := (checkedAdd_eq_some.mp h).2
    omega
  | mixedC2c a transforms directions | mixedR2c a transforms directions =>
    obtain ⟨base, hbase, h⟩ := Option.bind_eq_some_iff.mp h
    rw [PlanRequest.words, List.length_append, List.length_append, length_mixedWords,
      length_backendWords, List.length_ofFn]
    have := mixedDescriptorLen_eq hbase
    have := (checkedAdd_eq_some.mp h).2
    omega

/-- What follows from the arguments is the same for the same request. -/
theorem SameRequest.derived (h : SameRequest p q) : p.valueKind = q.valueKind ∧
    p.reductionAxis = q.reductionAxis ∧ p.realLen = q.realLen := by
  cases p with
  | c2c a selection directions =>
    cases q with
    | c2c b selection' directions' => exact ⟨rfl, rfl, rfl⟩
    | _ => exact absurd h id
  | r2c a selection =>
    cases q with
    | r2c b selection' =>
      obtain ⟨hargs, rfl⟩ := h
      refine ⟨rfl, rfl, ?_⟩
      show Option.map a.globalShape _ = Option.map b.globalShape _
      rw [hargs.globalShape]
      rfl
    | _ => exact absurd h id
  | c2r a selection realLen =>
    cases q with
    | c2r b selection' realLen' =>
      obtain ⟨_, rfl, rfl⟩ := h
      exact ⟨rfl, rfl, rfl⟩
    | _ => exact absurd h id
  | r2r a complex kinds =>
    cases q with
    | r2r b complex' kinds' =>
      obtain ⟨_, rfl, rfl⟩ := h
      exact ⟨rfl, rfl, rfl⟩
    | _ => exact absurd h id
  | dht a complex selection =>
    cases q with
    | dht b complex' selection' =>
      obtain ⟨_, rfl, rfl⟩ := h
      exact ⟨rfl, rfl, rfl⟩
    | _ => exact absurd h id
  | mixedC2c a transforms directions =>
    cases q with
    | mixedC2c b transforms' directions' => exact ⟨rfl, rfl, rfl⟩
    | _ => exact absurd h id
  | mixedR2c a transforms directions =>
    cases q with
    | mixedR2c b transforms' directions' =>
      obtain ⟨hargs, rfl, rfl⟩ := h
      have haxis : (PlanRequest.mixedR2c a transforms directions).reductionAxis
          = (PlanRequest.mixedR2c b transforms directions).reductionAxis := by
        show validateR2cGraph a.globalShape transforms = validateR2cGraph b.globalShape transforms
        rw [hargs.globalShape]
      refine ⟨rfl, haxis, ?_⟩
      show Option.map a.globalShape _ = Option.map b.globalShape _
      rw [haxis, hargs.globalShape]
    | _ => exact absurd h id

end Requests

/-! ## Calls -/

/-- The request of a constructor of complex transforms. -/
def c2cRequest (topology : MpiTopology M) (args : ConstructArgs N M) (real : FftReal) :
    PlanRequest N M :=
  .c2c {
    topology
    globalShape := args.globalShape
    extraShape := args.extraShape
    layout := args.layout
    backend := args.backend
    real } args.selection args.directions

/-- What the constructor of complex transforms compares. -/
theorem constructProposal_request (alloc : ConstructAllocator) (topology : MpiTopology M)
    (args : ConstructArgs N M) (real : FftReal) :
    (PlanCall.construct.operation (c2cRequest topology args real)).word
        = some (constructProposal alloc real.size topology args).operation ∧
      (constructProposal alloc real.size topology args).expectedLen
        = (c2cRequest topology args real).expectedLen ∧
      (constructProposal alloc real.size topology args).descriptor
        = ofExpectedLength alloc.descriptor (c2cRequest topology args real).expectedLen
          (c2cRequest topology args real).words := by
  refine ⟨?_, rfl, rfl⟩
  unfold constructProposal
  cases hbackend : args.backend <;>
    simp [PlanCall.operation, FftOperation.word, c2cRequest, PlanRequest.args, hbackend,
      PlanRequest.family, FftOperation.planWord, BackendChoice.planOperation]

section Calls

variable {p q : PlanRequest N M} {call call' : PlanCall} {header : List (BitVec 64)}

/-- The last word of a header is the word of the operation. -/
theorem operation_of_header (h : call.headerWords p = some header) :
    ∃ word, (call.operation p).word = some word ∧ header.getLast? = some word := by
  cases call with
  | construct =>
    have h : Option.map (fun word => [word]) (PlanCall.construct.operation p).word = some header :=
      h
    obtain ⟨word, hword, rfl⟩ := Option.map_eq_some_iff.mp h
    exact ⟨word, hword, rfl⟩
  | execute variant direction =>
    have h : Option.map (fun word => [word]) ((PlanCall.execute variant direction).operation p).word
        = some header := h
    obtain ⟨word, hword, rfl⟩ := Option.map_eq_some_iff.mp h
    exact ⟨word, hword, rfl⟩
  | executeMany inPlace direction =>
    obtain ⟨family, _, h⟩ := Option.bind_eq_some_iff.mp h
    obtain ⟨word, hword, h⟩ := Option.bind_eq_some_iff.mp h
    obtain rfl := Option.some.inj h
    exact ⟨word, hword, rfl⟩

/-- The first word of the header of a collection is the word of its family. -/
theorem family_of_header {inPlace : Bool} {direction : Direction}
    (h : (PlanCall.executeMany inPlace direction).headerWords p = some header) :
    ∃ word, p.family.collectionWord = some word ∧ header.head? = some word := by
  obtain ⟨family, hfamily, h⟩ := Option.bind_eq_some_iff.mp h
  obtain ⟨word, _, h⟩ := Option.bind_eq_some_iff.mp h
  obtain rfl := Option.some.inj h
  exact ⟨family, hfamily, rfl⟩

/-- **Equal headers** belong to the same call of one family. -/
theorem header_inj (h : call.headerWords p = some header)
    (h' : call'.headerWords q = some header) : call = call' ∧ p.family = q.family := by
  obtain ⟨word, hword, hlast⟩ := operation_of_header h
  obtain ⟨word', hword', hlast'⟩ := operation_of_header h'
  obtain rfl := Option.some.inj (hlast.symm.trans hlast')
  have hoperation := operationWord_inj hword hword'
  cases call with
  | construct =>
    cases call' with
    | construct => exact ⟨rfl, (FftOperation.plan.inj hoperation).1⟩
    | execute variant' direction' => contradiction
    | executeMany inPlace' direction' => contradiction
  | execute variant direction =>
    cases call' with
    | construct => contradiction
    | execute variant' direction' =>
      obtain ⟨hfamily, rfl, rfl⟩ := FftOperation.execute.inj hoperation
      exact ⟨rfl, hfamily⟩
    | executeMany inPlace' direction' => contradiction
  | executeMany inPlace direction =>
    cases call' with
    | construct => contradiction
    | execute variant' direction' => contradiction
    | executeMany inPlace' direction' =>
      obtain ⟨rfl, rfl⟩ := FftOperation.executeMany.inj hoperation
      obtain ⟨family, hfamily, hhead⟩ := family_of_header h
      obtain ⟨family', hfamily', hhead'⟩ := family_of_header h'
      obtain rfl := Option.some.inj (hhead.symm.trans hhead')
      exact ⟨rfl, collectionWord_inj hfamily hfamily'⟩

/-- **The descriptors of the transforms.**  The operation words of all families, directions and
kinds of calls differ from each other and from those of the collections; the announced length of a
descriptor is the number of its words; and equal headers and descriptors come from the same call
on the same request: global shape, process grid, extra shape, selection or transforms, value kind,
precision, reduction axis and real length, Fourier directions, backend options and layout.  The
header of a collection has the word of its family. -/
theorem fft_descriptors_injective :
    (∀ (a b : FftOperation) (word : BitVec 64), a.word = some word → b.word = some word → a = b) ∧
    (∀ (N M : ℕ) (p : PlanRequest N M) (len : ℕ), p.expectedLen = some len →
      p.words.length = len) ∧
    ∀ (N M : ℕ) (p q : PlanRequest N M) (call call' : PlanCall) (header : List (BitVec 64)),
      FitsRequest p → FitsRequest q → call.headerWords p = some header →
      call'.headerWords q = some header → p.words = q.words →
      call = call' ∧ SameRequest p q ∧ p.valueKind = q.valueKind ∧
        p.reductionAxis = q.reductionAxis ∧ p.realLen = q.realLen := by
  refine ⟨fun a b word => operationWord_inj, fun N M p len => length_words, ?_⟩
  intro N M p q call call' header hp hq hheader hheader' hwords
  obtain ⟨hcall, hfamily⟩ := header_inj hheader hheader'
  have hsame := words_inj hp hq hfamily hwords
  exact ⟨hcall, hsame, hsame.derived⟩

end Calls

/-! ## One row of four -/

/-- A complex transform of one row on one rank. -/
def rowRequest : PlanRequest 1 1 :=
  .c2c {
    topology := oneRank
    globalShape := ![4]
    extraShape := ExtraShape.scalar
    layout := ⟨.allToAllv, true⟩
    backend := .rustFft
    real := .f64 } ⟨fun _ => true⟩ ⟨fun _ => .forward⟩

theorem fft_descriptors_injective_row :
    rowRequest.words.length = 17 ∧ SameRequest rowRequest rowRequest := by
  have hfits : FitsRequest rowRequest := by
    refine ⟨⟨by decide, ⟨by decide, fun d hd => absurd hd List.not_mem_nil⟩, fun _ h => ?_⟩,
      fun _ h => ?_⟩ <;> contradiction
  obtain ⟨_, hlength, hinj⟩ := fft_descriptors_injective
  exact ⟨hlength 1 1 rowRequest 17 rfl,
    (hinj 1 1 rowRequest rowRequest .construct .construct [7] hfits hfits rfl rfl rfl).2.1⟩

end PencilRs.Analysis
