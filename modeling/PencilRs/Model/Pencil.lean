import PencilRs.Model.Topology

/-!
# Pencils

A pencil is a distribution of a global index box over a topology together with a memory
order of its axes.  The stored ranges, shapes and lengths are those the constructor
computed, and the structure keeps the equations that say so.

SOURCE: pencil-array/src/pencil.rs
-/

set_option autoImplicit false

namespace PencilRs.Model

inductive PencilError where
  | invalidDimensionRelation (spatial topology : ℕ)
  | zeroGlobalExtent (axis : ℕ)
  | invalidDecomposition (error : AxisError)
  | invalidPermutation (error : AxisError)
  | sizeOverflow
  | topology (error : TopologyError)
  /-- The `unreachable!` arm of `map_geometry_error`, a panic. -/
  | unreachable (error : GeometryError)
deriving Repr, DecidableEq

/-- SOURCE: pencil.rs:282-287 -/
def mapGeometryError : GeometryError → PencilError
  | .sizeOverflow => .sizeOverflow
  | .countOverflow => .sizeOverflow
  | other => .unreachable other

variable {N M : ℕ}

/-- Ranges for an already validated decomposition.

SOURCE: pencil.rs:264-280 -/
def rangesAtStored (topology : MpiTopology M) (globalShape : Fin N → ℕ)
    (decomposition : Fin M → Fin N) (processCoords : Fin M → ℕ) :
    Except PencilError (Fin N → Range) := do
  let _ ← (topology.rankAt processCoords).mapError .topology
  (localRangesFor globalShape topology.processGrid processCoords decomposition).mapError
    mapGeometryError

/-- A distribution and a row-major memory layout, as seen by one rank. -/
structure Pencil (N M : ℕ) where
  topology : MpiTopology M
  globalShape : Fin N → ℕ
  decomposition : Decomposition N M
  permutation : AxisPermutation N
  localRanges : Fin N → Range
  localShapeLogical : Fin N → ℕ
  localShapeMemory : Fin N → ℕ
  localLen : ℕ
  globalLen : ℕ
  extents_pos : ∀ axis, 0 < globalShape axis
  globalLen_ok : checkedProduct (List.ofFn globalShape) = .ok globalLen
  localRanges_ok :
    rangesAtStored topology globalShape decomposition.axes topology.localCoords = .ok localRanges
  localShapeLogical_eq : localShapeLogical = shapeFromRanges localRanges
  localShapeMemory_eq : localShapeMemory = permutation.permute localShapeLogical
  localLen_ok : checkedProduct (List.ofFn localShapeLogical) = .ok localLen

namespace Pencil

/-- SOURCE: pencil.rs:74-121 -/
def newPermuted (topology : MpiTopology M) (globalShape : Fin N → ℕ)
    (decomposition : Fin M → ℕ) (permutation : AxisPermutation N) :
    Except PencilError (Pencil N M) :=
  if M = 0 ∨ M > N then .error (.invalidDimensionRelation N M)
  else
    match hzero : (List.finRange N).find? fun axis => globalShape axis = 0 with
    | some axis => .error (.zeroGlobalExtent axis)
    | none =>
      match hglobal : checkedProduct (List.ofFn globalShape) with
      | .error e => .error (mapGeometryError e)
      | .ok globalLen =>
        match Decomposition.new (N := N) decomposition with
        | .error e => .error (.invalidDecomposition e)
        | .ok decomposition =>
          match hranges : rangesAtStored topology globalShape decomposition.axes
              topology.localCoords with
          | .error e => .error e
          | .ok localRanges =>
            let localShapeLogical := shapeFromRanges localRanges
            match hlocal : checkedProduct (List.ofFn localShapeLogical) with
            | .error e => .error (mapGeometryError e)
            | .ok localLen => .ok {
                topology, globalShape, decomposition, permutation, localRanges,
                localShapeLogical, localLen, globalLen
                localShapeMemory := permutation.permute localShapeLogical
                extents_pos := fun axis => by
                  have := List.find?_eq_none.mp hzero axis (List.mem_finRange axis)
                  simp only [decide_eq_true_eq] at this
                  omega
                globalLen_ok := hglobal
                localRanges_ok := hranges
                localShapeLogical_eq := rfl
                localShapeMemory_eq := rfl
                localLen_ok := hlocal }

/-- SOURCE: pencil.rs:188-196 -/
def rangesAt (pencil : Pencil N M) (processCoords : Fin M → ℕ) :
    Except PencilError (Fin N → Range) :=
  rangesAtStored pencil.topology pencil.globalShape pencil.decomposition.axes processCoords

/-- SOURCE: pencil.rs:235-237 -/
def sameTopology (pencil other : Pencil N M) : Bool := pencil.topology = other.topology

/-- SOURCE: pencil.rs:240-244 -/
def sameDistribution (pencil other : Pencil N M) : Bool :=
  pencil.sameTopology other && pencil.globalShape = other.globalShape
    && pencil.decomposition.axes = other.decomposition.axes

/-- SOURCE: pencil.rs:250-252 -/
def sameLayout (pencil other : Pencil N M) : Bool :=
  pencil.sameDistribution other && pencil.permutation = other.permutation

theorem ext_config {p q : Pencil N M} (ht : p.topology = q.topology)
    (hs : p.globalShape = q.globalShape) (hd : p.decomposition = q.decomposition)
    (hp : p.permutation = q.permutation) : p = q := by
  obtain ⟨pt, ps, pd, pp, pr, psl, psm, pll, pgl, pe, pg, prok, psle, psme, plok⟩ := p
  obtain ⟨qt, qs, qd, qp, qr, qsl, qsm, qll, qgl, qe, qg, qrok, qsle, qsme, qlok⟩ := q
  simp only at ht hs hd hp
  subst ht hs hd hp
  have hr : pr = qr := Except.ok.inj (prok.symm.trans qrok)
  subst hr
  have hsl : psl = qsl := psle.trans qsle.symm
  subst hsl
  have hsm : psm = qsm := psme.trans qsme.symm
  subst hsm
  have hll : pll = qll := Except.ok.inj (plok.symm.trans qlok)
  have hgl : pgl = qgl := Except.ok.inj (pg.symm.trans qg)
  subst hll hgl
  rfl

/-- Pencils with the same layout are equal: everything stored is computed from it. -/
theorem eq_of_sameLayout {p q : Pencil N M} (h : p.sameLayout q = true) : p = q := by
  simp only [sameLayout, sameDistribution, sameTopology, Bool.and_eq_true,
    decide_eq_true_eq] at h
  obtain ⟨⟨⟨ht, hs⟩, hd⟩, hp⟩ := h
  refine ext_config ht hs ?_ hp
  obtain ⟨pd⟩ := p
  rename_i pdec _ _ _ _ _ _ _ _ _ _ _ _
  cases pdec
  cases hq : q.decomposition
  simp_all

@[simp] theorem sameLayout_self (p : Pencil N M) : p.sameLayout p = true := by
  simp [sameLayout, sameDistribution, sameTopology]

end Pencil

end PencilRs.Model
