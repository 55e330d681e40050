import PencilRs.Analysis.GlobalOrder
import PencilRs.Analysis.Pass

/-!
# Arrays by their owners

Every global index has one owner, so what the ranks hold is a global array, and two blocks that
hold the same array are the same.  A transform of the lines along an axis may be another on every
rank; each line is transformed by its owner.
-/

set_option autoImplicit false

namespace PencilRs.Analysis

open PencilRs.Computation PencilRs.Model

variable {N M : ℕ} {K ε : Type} {topology : MpiTopology M}

/-! ## Owners -/

/-- The rank that owns a global index. -/
noncomputable def ownerOf (p : DistributedPencil topology N) (g : Fin N → ℕ) :
    Coords topology.processGrid :=
  open Classical in
  if h : ∃ c, Owns (p.on c).localRanges g then h.choose else topology.here

theorem ownerOf_eq {p : DistributedPencil topology N} {c : Coords topology.processGrid}
    {g : Fin N → ℕ} (h : Owns (p.on c).localRanges g) : ownerOf p g = c := by
  have hexists : ∃ c, Owns (p.on c).localRanges g := ⟨c, h⟩
  unfold ownerOf
  rw [dif_pos hexists]
  by_contra hne
  exact (isPartition_localRanges p).disjoint _ _ hne g ⟨hexists.choose_spec, h⟩

/-! ## The array of some blocks -/

/-- The array whose blocks the ranks hold. -/
noncomputable def heldArray [Zero K] (p : DistributedPencil topology N)
    (blocks : Coords topology.processGrid → List K) : GlobalArray K N :=
  fun e g => (blocks (ownerOf p g))[e * (p.on (ownerOf p g)).localLen
    + layoutOffset (p.on (ownerOf p g)) (toLocal (p.on (ownerOf p g)) g)]?.getD 0

/-- **Any blocks hold an array.** -/
theorem holdsBlock_heldArray [Zero K] {p : DistributedPencil topology N} {E : ℕ}
    {blocks : Coords topology.processGrid → List K} {c : Coords topology.processGrid}
    (hlen : (blocks c).length = E * (p.on c).localLen) :
    HoldsBlock (p.on c) E (heldArray p blocks) (blocks c) := by
  intro e he x hx
  unfold heldArray
  rw [ownerOf_eq (owns_toGlobal hx), toLocal_toGlobal,
    List.getElem?_eq_getElem (by rw [hlen]; exact element_lt he hx), Option.getD_some]

/-- **A block holds one array.** -/
theorem HoldsBlock.unique {p : Pencil N M} {E : ℕ} {array : GlobalArray K N}
    {storage storage' : List K} (h : HoldsBlock p E array storage)
    (h' : HoldsBlock p E array storage') (hlen : storage.length = E * p.localLen)
    (hlen' : storage'.length = E * p.localLen) : storage = storage' := by
  apply List.ext_getElem?
  intro place
  by_cases hplace : place < E * p.localLen
  · obtain ⟨e, he, x, hx, rfl⟩ := exists_blockElement hplace
    rw [h e he x hx, h' e he x hx]
  · rw [List.getElem?_eq_none (by omega), List.getElem?_eq_none (by omega)]

/-- Arrays that agree in the box have the same blocks. -/
theorem HoldsBlock.congr_array {p : DistributedPencil topology N}
    {c : Coords topology.processGrid} {E : ℕ} {array array' : GlobalArray K N} {storage : List K}
    (h : HoldsBlock (p.on c) E array storage)
    (heq : ∀ e < E, ∀ g, InBox (commonShape p) g → array e g = array' e g) :
    HoldsBlock (p.on c) E array' storage := by
  intro e he x hx
  rw [h e he x hx, heq e he _ (inBox_toGlobal p hx)]

/-! ## Transforms along an axis -/

section Stages

variable [Zero K]

/-- A transform of the lines along an axis. -/
def alongStage (axis : Fin N) (n : ℕ) (transform : List K → List K) (array : GlobalArray K N) :
    GlobalArray K N :=
  fun e => alongAxis axis n transform (array e)

/-- A transform of the lines along an axis, each by its owner. -/
noncomputable def ownedStage (p : DistributedPencil topology N) (axis : Fin N) (n : ℕ)
    (transform : Coords topology.processGrid → List K → List K) (array : GlobalArray K N) :
    GlobalArray K N :=
  fun e g => alongAxis axis n (transform (ownerOf p g)) (array e) g

theorem HoldsBlock.ownedStage {p : DistributedPencil topology N} {c : Coords topology.processGrid}
    {E n : ℕ} {axis : Fin N} {transform : Coords topology.processGrid → List K → List K}
    {array : GlobalArray K N} {storage : List K}
    (h : HoldsBlock (p.on c) E (alongStage axis n (transform c) array) storage) :
    HoldsBlock (p.on c) E (ownedStage p axis n transform array) storage := by
  intro e he x hx
  rw [h e he x hx]
  unfold alongStage Analysis.ownedStage
  rw [ownerOf_eq (owns_toGlobal hx)]

/-- The kernels of all ranks act on the array together. -/
theorem KernelActs.owned {p : DistributedPencil topology N} {c : Coords topology.processGrid}
    {E n : ℕ} {axis : Fin N} {transform : Coords topology.processGrid → List K → List K}
    {run : List K → List K → Except (Stop ε) (List K)}
    {runInPlace : List K → Except (Stop ε) (List K)}
    (h : KernelActs E (p.on c) (alongStage axis n (transform c)) run runInPlace) :
    KernelActs E (p.on c) (ownedStage p axis n transform) run runInPlace where
  run := by
    intro array source cells hsource hcells hfit hblock
    obtain ⟨result, hresult, hlen, hholds⟩ := h.run array source cells hsource hcells hfit hblock
    exact ⟨result, hresult, hlen, hholds.ownedStage⟩
  runInPlace := by
    intro array data hdata hfit hblock
    obtain ⟨result, hresult, hlen, hholds⟩ := h.runInPlace array data hdata hfit hblock
    exact ⟨result, hresult, hlen, hholds.ownedStage⟩

/-- Owners that all apply one transform to the lines of an axis. -/
theorem ownedStage_eq {p : DistributedPencil topology N} {axis : Fin N} {n : ℕ}
    {transform : Coords topology.processGrid → List K → List K} {common : List K → List K}
    (h : ∀ c values, values.length = n → transform c values = common values)
    (array : GlobalArray K N) :
    ownedStage p axis n transform array = alongStage axis n common array := by
  funext e g
  unfold ownedStage alongStage alongAxis
  rw [h _ _ (List.length_ofFn ..)]

end Stages

end PencilRs.Analysis
