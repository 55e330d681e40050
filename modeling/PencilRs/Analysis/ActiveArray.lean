import PencilRs.Analysis.AxisTransforms
import PencilRs.Analysis.Many
import PencilRs.Analysis.Unpacking
import PencilRs.Computation.AxisMap
import PencilRs.Model.FftPass

/-!
# What an array holds

A global array is a function of the extra index and the global index.  A block of storage holds
its part of it, in the order of a pencil; a shared array holds it in its active layout.  Local
transforms along an axis that the rank holds whole act on the global array.
-/

set_option autoImplicit false

namespace PencilRs.Analysis

open PencilRs.Computation PencilRs.Model

variable {N M : ℕ} {K ε L : Type}

/-! ## Blocks -/

/-- The storage holds the rank's part of the global array, for all extra indices. -/
def HoldsBlock (p : Pencil N M) (E : ℕ) (array : ℕ → (Fin N → ℕ) → K) (storage : List K) : Prop :=
  ∀ e < E, ∀ x, ValidLocal p x →
    storage[e * p.localLen + layoutOffset p x]? = some (array e (toGlobal p x))

section Blocks

variable {p : Pencil N M} {E : ℕ} {array : ℕ → (Fin N → ℕ) → K} {storage : List K}

theorem element_lt {e : ℕ} {x : Fin N → ℕ} (he : e < E) (hx : ValidLocal p x) :
    e * p.localLen + layoutOffset p x < E * p.localLen := by
  have hlt := layoutOffset_lt hx
  have hend := extra_end_le p.localLen he
  omega

/-- Every place of the block is an element's. -/
theorem exists_blockElement {place : ℕ} (h : place < E * p.localLen) :
    ∃ e < E, ∃ x, ValidLocal p x ∧ e * p.localLen + layoutOffset p x = place := by
  have hpos : 0 < p.localLen := by
    refine Nat.pos_of_ne_zero fun hzero => ?_
    rw [hzero, Nat.mul_zero] at h
    omega
  obtain ⟨x, hx, hoffset⟩ := exists_layoutOffset (p := p) (Nat.mod_lt place hpos)
  refine ⟨place / p.localLen, Nat.div_lt_of_lt_mul (by rwa [Nat.mul_comm]), x, hx, ?_⟩
  rw [hoffset]
  exact Nat.div_add_mod' place p.localLen

/-- Only the block's own prefix counts. -/
theorem HoldsBlock.congr {storage' : List K} (h : HoldsBlock p E array storage)
    (heq : ∀ j < E * p.localLen, storage'[j]? = storage[j]?) :
    HoldsBlock p E array storage' := by
  intro e he x hx
  rw [heq _ (element_lt he hx), h e he x hx]

theorem HoldsBlock.take (h : HoldsBlock p E array storage) :
    HoldsBlock p E array (storage.take (E * p.localLen)) :=
  h.congr fun _ hj => List.getElem?_take_of_lt hj

theorem HoldsBlock.append (h : HoldsBlock p E array storage) (rest : List K)
    (hlen : storage.length = E * p.localLen) : HoldsBlock p E array (storage ++ rest) :=
  h.congr fun _ hj => List.getElem?_append_left (by omega)

/-- An axis that is whole on the rank starts at zero. -/
theorem toGlobal_update {axis : Fin N} (hwhole : p.localShapeLogical axis = p.globalShape axis)
    (x : Fin N → ℕ) (k : ℕ) :
    toGlobal p (Function.update x axis k) = Function.update (toGlobal p x) axis k := by
  have hstart : (p.localRanges axis).start = 0 := by
    have hstop := ownedRanges_stop_le p.globalShape p.decomposition.axes p.topology.coords_lt axis
    have hpos := p.extents_pos axis
    rw [localShapeLogical_apply] at hwhole
    rw [← localRanges_eq] at hstop
    omega
  funext a
  unfold toGlobal
  by_cases ha : a = axis
  · subst ha
    rw [Function.update_self, Function.update_self, hstart, Nat.zero_add]
  · rw [Function.update_of_ne ha, Function.update_of_ne ha]

theorem toGlobal_whole {axis : Fin N} (hwhole : p.localShapeLogical axis = p.globalShape axis)
    (x : Fin N → ℕ) : toGlobal p x axis = x axis := by
  have h := congrFun (toGlobal_update hwhole x (x axis)) axis
  rwa [Function.update_eq_self, Function.update_self] at h

/-- **A transform along a whole axis** acts on the global array. -/
theorem HoldsBlock.axisTransformed [Zero K] {transform : List K → List K} {axis : Fin N}
    {result : List K} (h : HoldsBlock p E array storage)
    (hwhole : p.localShapeLogical axis = p.globalShape axis)
    (hlength : ∀ values, (transform values).length = values.length)
    (htransformed : AxisTransformed transform p axis E storage result) :
    HoldsBlock p E (fun e => alongAxis axis (p.globalShape axis) transform (array e)) result := by
  intro e he x hx
  let values : List K := List.ofFn fun k : Fin (p.globalShape axis) =>
    array e (Function.update (toGlobal p x) axis k)
  have hvalues : HoldsAxisLine p axis e x storage values := by
    refine ⟨by rw [List.length_ofFn, hwhole], ?_⟩
    intro k hk
    have hvalid : ValidLocal p (Function.update x axis k) := by
      intro a
      by_cases ha : a = axis
      · subst ha
        rwa [Function.update_self]
      · rw [Function.update_of_ne ha]
        exact hx a
    rw [h e he _ hvalid, toGlobal_update hwhole, List.getElem?_ofFn, dif_pos (hwhole ▸ hk)]
  rw [htransformed.lines e he x hx values hvalues]
  have hlt : x axis < (transform values).length := by
    rw [hlength, List.length_ofFn, ← hwhole]
    exact hx axis
  show _ = some ((transform values)[toGlobal p x axis]?.getD 0)
  rw [toGlobal_whole hwhole, List.getElem?_eq_getElem hlt]
  rfl

end Blocks

/-! ## Shared arrays -/

/-- The shared array is in the layout of `p` and holds the global array there. -/
structure ActiveHolds (registry : List (Pencil N M)) (extraShape : ExtraShape) (p : Pencil N M)
    (array : ℕ → (Fin N → ℕ) → K) (shared : ManyPencilArray K N M) : Prop where
  pencils_eq : shared.pencils = registry
  extraShape_eq : shared.extraShape = extraShape
  active : ∃ index, shared.state = .valid index ∧ registry[index]? = some p
  holds : HoldsBlock p extraShape.elementCount array shared.storage

section Shared

variable {registry : List (Pencil N M)} {extraShape : ExtraShape} {p : Pencil N M}
  {array : ℕ → (Fin N → ℕ) → K} {shared : ManyPencilArray K N M}

theorem ActiveHolds.activeView (h : ActiveHolds registry extraShape p array shared) :
    ∃ view, shared.activeView = .ok view ∧
      view.storage = shared.storage.take (extraShape.elementCount * p.localLen) ∧
      view.storage.length = extraShape.elementCount * p.localLen ∧
      extraShape.elementCount * p.localLen < usizeLimit := by
  obtain ⟨index, hstate, hpencil⟩ := h.active
  rw [← h.pencils_eq] at hpencil
  obtain ⟨view, hview, _, _, hstorage⟩ := viewOf_eq shared hpencil
  obtain ⟨hle, hlt⟩ := layout_fits shared (List.mem_of_getElem? hpencil)
  rw [h.extraShape_eq] at hstorage hle
  refine ⟨view, ?_, hstorage, by rw [hstorage, List.length_take_of_le hle], hle.trans_lt hlt⟩
  unfold ManyPencilArray.activeView
  rw [activeIndex_valid hstate]
  exact hview

theorem callOn_kernel {kernel : List K → Except (Stop ε) (List K)} {len : ℕ} {result : List K}
    (hlen : len ≤ shared.storage.length) (hkernel : kernel (shared.storage.take len) = .ok result)
    (hresult : result.length = len) :
    ∃ after, shared.callOn len (kernelCallback kernel) = (after, .ok) ∧
      Rewrites shared after (result ++ shared.storage.drop len) shared.state := by
  have hrun : (kernelCallback kernel).run (shared.storage.take len) = (result, .ok) := by
    simp [kernelCallback, hkernel, hresult, hlen]
  have hwhole : (result ++ shared.storage.drop len).length = shared.storage.length := by
    rw [List.length_append, List.length_drop, hresult]
    omega
  obtain ⟨after, hafter, hrewrites⟩ := writeStorage_eq hwhole
  refine ⟨after, ?_, hrewrites⟩
  unfold ManyPencilArray.callOn
  rw [hrun]
  simp only [hafter]

variable (onArray : ArrayError → Stop ε)

/-- **A kernel in place**, on the active layout. -/
theorem ActiveHolds.editActive (h : ActiveHolds registry extraShape p array shared)
    {kernel : List K → Except (Stop ε) (List K)} {array' : ℕ → (Fin N → ℕ) → K}
    (hkernel : ∀ data, data.length = extraShape.elementCount * p.localLen →
      HoldsBlock p extraShape.elementCount array data → ∃ result, kernel data = .ok result ∧
        result.length = data.length ∧ HoldsBlock p extraShape.elementCount array' result) :
    ∃ after, ofEnding onArray (shared.editActive (kernelCallback kernel)) = .ok after ∧
      ActiveHolds registry extraShape p array' after := by
  obtain ⟨view, hview, hstorage, hlen, _⟩ := h.activeView
  have hfits : view.storage.length ≤ shared.storage.length := by
    rw [hstorage]
    exact List.length_take_le' ..
  obtain ⟨result, hresult, hresultLen, hholds⟩ := hkernel view.storage hlen (hstorage ▸ h.holds.take)
  have htake : shared.storage.take view.storage.length = view.storage := by rw [hlen, hstorage]
  obtain ⟨after, hafter, hrewrites⟩ := callOn_kernel hfits
    (htake.symm ▸ hresult) hresultLen
  refine ⟨after, ?_, hrewrites.pencils.trans h.pencils_eq,
    hrewrites.extraShape.trans h.extraShape_eq,
    ?_, ?_⟩
  · unfold ManyPencilArray.editActive ofEnding
    rw [hview]
    simp only [hafter, CallbackOutcome.ending]
  · rw [hrewrites.state]
    exact h.active
  · rw [hrewrites.storage]
    exact hholds.append _ (hresultLen.trans hlen)

theorem findLayout_isSome {target : Pencil N M} (h : target ∈ shared.pencils) :
    ∃ index, shared.findLayout target = some index := by
  apply Option.isSome_iff_exists.mp
  unfold ManyPencilArray.findLayout
  rw [List.findIdx?_isSome, List.any_eq_true]
  exact ⟨target, h, Pencil.sameLayout_self target⟩

/-- **A kernel from a source**, over the layout of `target`. -/
theorem overwriteWith_holds {target : Pencil N M}
    (hpencils : shared.pencils = registry) (hextra : shared.extraShape = extraShape)
    (htarget : target ∈ registry) {kernel : List K → Except (Stop ε) (List K)}
    {array' : ℕ → (Fin N → ℕ) → K}
    (hkernel : ∀ cells, cells.length = extraShape.elementCount * target.localLen →
      extraShape.elementCount * target.localLen < usizeLimit → ∃ result,
        kernel cells = .ok result ∧ result.length = cells.length ∧
          HoldsBlock target extraShape.elementCount array' result) :
    ∃ after, ofEnding onArray (shared.overwriteWith target (kernelCallback kernel)) = .ok after ∧
      ActiveHolds registry extraShape target array' after := by
  have hregistered : target ∈ shared.pencils := hpencils ▸ htarget
  obtain ⟨index, hindex⟩ := findLayout_isSome hregistered
  have hpencil := findLayout_eq_some hindex
  obtain ⟨view, hview, _, _, hstorage⟩ := viewOf_eq shared.poison
    (show shared.poison.pencils[index]? = some target from hpencil)
  obtain ⟨hle, hlt⟩ := layout_fits shared (List.mem_of_getElem? hpencil)
  have hstorage : view.storage = shared.storage.take (extraShape.elementCount * target.localLen) :=
    hextra ▸ hstorage
  rw [hextra] at hle
  have hlen : view.storage.length = extraShape.elementCount * target.localLen := by
    rw [hstorage, List.length_take_of_le hle]
  obtain ⟨result, hresult, hresultLen, hholds⟩ := hkernel view.storage hlen (hle.trans_lt hlt)
  have htake : shared.poison.storage.take view.storage.length = view.storage := by
    rw [hlen, hstorage]
    rfl
  have hcovers : view.storage.length ≤ shared.poison.storage.length := by
    rw [hlen]
    exact hle
  have hkernelled : kernel (shared.poison.storage.take view.storage.length) = .ok result :=
    htake.symm ▸ hresult
  obtain ⟨written, hwritten, hrewrites⟩ := callOn_kernel hcovers hkernelled hresultLen
  have hindexLt : index < written.pencils.length := by
    rw [hrewrites.pencils]
    exact (List.getElem?_eq_some_iff.mp hpencil).1
  obtain ⟨after, hafter, hcommitted⟩ := commit_eq hindexLt
  refine ⟨after, ?_, ?_, ?_, ⟨index, hcommitted.state, hpencils ▸ hpencil⟩, ?_⟩
  · unfold ManyPencilArray.overwriteWith ofEnding
    rw [hindex]
    simp only [hview, hwritten, hafter]
  · rw [hcommitted.pencils, hrewrites.pencils]
    exact hpencils
  · rw [hcommitted.extraShape, hrewrites.extraShape]
    exact hextra
  · rw [hcommitted.storage, hrewrites.storage]
    exact hholds.append _ (hresultLen.trans hlen)

end Shared

end PencilRs.Analysis
