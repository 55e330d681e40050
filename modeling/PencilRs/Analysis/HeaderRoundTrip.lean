import PencilRs.Analysis.Distribution
import PencilRs.Analysis.FileLayout
import PencilRs.Analysis.HeaderWrite

/-!
# The header round trip

A header that the writer has, on a rank whose block has a descriptor, is valid but for one thing:
the product of the extents before the first zero may not fit.
-/

set_option autoImplicit false

namespace PencilRs.Analysis

open PencilRs.Computation PencilRs.Model PencilRs.Model.MpiIo

variable {N M : ℕ} {scalar : ScalarType}

/-- The reader takes the committed header of a view, with the fields the writer gave it, and
matches it with every view of the same shapes and element type. -/
structure ReadsBack (view : PencilArrayView scalar.Value N M) (header : MpiIo.Header) : Prop where
  decoded : ∀ reader : HeaderAllocator, reader.Grants →
    MpiIo.Header.decode reader (commit header.bytes)
      = .ok { header with bytes := commit header.bytes }
  matched : ∀ (L : ℕ) (other : PencilArrayView scalar.Value N L),
    other.pencil.globalShape = view.pencil.globalShape →
    other.extraShape.dimensions = view.extraShape.dimensions →
    MpiIo.Header.matchesView { header with bytes := commit header.bytes } other.pencil.globalShape
      other.extraShape.dimensions scalar.code scalar.width = .ok ()

/-- The descriptor of the block of a view. -/
def layoutOfView (reserved : Bool) (view : PencilArrayView scalar.Value N M) :
    Except IoError MpiLayout :=
  buildLayout reserved view.pencil.globalShape view.extraShape.dimensions
    view.pencil.localShapeLogical view.pencil.localRanges view.storage.length scalar.width

theorem isPermutation_axes (permutation : AxisPermutation N) (h : N ≤ maxProtocolRank) :
    isPermutation (List.ofFn fun position => (permutation.axesInMemoryOrder position : ℕ)) N
      = true := by
  have hlt : ∀ axis ∈ List.ofFn fun position => (permutation.axesInMemoryOrder position : ℕ),
      axis < N := by
    simp [List.mem_ofFn]
  have hnodup : (List.ofFn fun position => (permutation.axesInMemoryOrder position : ℕ)).Nodup :=
    List.nodup_ofFn.mpr fun a b hab => permutation.injective (Fin.ext hab)
  obtain ⟨seen, hseen⟩ := checkDistinct_of_nodup hlt hnodup
  unfold isPermutation
  rw [hseen, List.length_ofFn, decide_eq_true rfl, decide_eq_true h]
  rfl

/-- **A written header** lacks at most that its elements can be counted by the reader. -/
theorem validHeader_describe_iff {view : PencilArrayView scalar.Value N M} {bytes : List Byte}
    (hwritable : Writable view)
    (hplace : Describable view.pencil.globalShape view.extraShape.dimensions
      view.pencil.localShapeLogical view.pencil.localRanges view.storage.length scalar.width) :
    ValidHeader (describe view bytes) ↔
      (∏ axis, view.pencil.globalShape axis) * leadingProd view.extraShape.dimensions
        < usizeLimit := by
  have helements : leadingProd (List.ofFn view.pencil.globalShape ++ view.extraShape.dimensions)
      = (∏ axis, view.pencil.globalShape axis) * leadingProd view.extraShape.dimensions := by
    rw [leadingProd_append ?_ _, List.prod_ofFn]
    intro extent hextent
    obtain ⟨axis, rfl⟩ := (List.mem_ofFn' _ _).mp hextent
    exact (view.pencil.extents_pos axis).ne'
  have hM := view.pencil.decomposition.positive
  have hMN := view.pencil.decomposition.le_spatial
  have hrank := hplace.rank_le
  constructor
  · intro h
    rw [← helements]
    exact h.elements
  · intro hfit
    constructor
    case global_length => exact List.length_ofFn
    case permutation_length => exact List.length_ofFn
    case n_pos => exact hM.trans_le hMN
    case n_le =>
      show N ≤ maxProtocolRank
      omega
    case extra_le =>
      show view.extraShape.dimensions.length ≤ maxProtocolRank
      omega
    case grid_ne =>
      show List.ofFn view.pencil.topology.processGrid ≠ []
      rw [← List.length_pos_iff, List.length_ofFn]
      exact hM
    case grid_le =>
      show (List.ofFn view.pencil.topology.processGrid).length ≤ N
      rw [List.length_ofFn]
      exact hMN
    case grid_pos =>
      intro extent hextent
      obtain ⟨axis, rfl⟩ := (List.mem_ofFn' _ _).mp hextent
      exact view.pencil.topology.extents_pos axis
    case grid_fits => exact leadingProd_processGrid_lt view.pencil.topology
    case permutation => exact isPermutation_axes view.pencil.permutation (by omega)
    case scalar => exact ⟨scalar, rfl, rfl⟩
    case length_le =>
      rw [headerLenOf_describe]
      exact hwritable.length_le
    case offset => exact (headerLenOf_describe view bytes).symm
    case words =>
      have hlimit : countMax < usizeLimit := by decide
      have hranks : maxProtocolRank < usizeLimit := by decide
      intro word hword
      unfold arrayWords describe at hword
      simp only [List.mem_append, List.mem_ofFn', Set.mem_range] at hword
      obtain ((⟨axis, rfl⟩ | hextra) | ⟨axis, rfl⟩) | ⟨position, rfl⟩ := hword
      · exact (hplace.spatial_le axis).1.trans_lt hlimit
      · exact (hplace.extra_le word hextra).trans_lt hlimit
      · exact (view.pencil.topology.extent_le axis).trans_lt hlimit
      · have := (view.pencil.permutation.axesInMemoryOrder position).isLt
        omega
    case elements =>
      show leadingProd (List.ofFn view.pencil.globalShape ++ view.extraShape.dimensions)
        < usizeLimit
      rw [helements]
      exact hfit
    case payload =>
      show _ * _ * _ = _ * _
      rw [List.prod_append]
      rfl
    case payload_lt => exact hwritable.payload_lt

/-- **A written header** matches every view of its shapes and its element type. -/
theorem matchesView_describe {L : ℕ} {view : PencilArrayView scalar.Value N M}
    {other : PencilArrayView scalar.Value N L} {bytes : List Byte} (hwritable : Writable view)
    (hglobal : other.pencil.globalShape = view.pencil.globalShape)
    (hextra : other.extraShape.dimensions = view.extraShape.dimensions) :
    MpiIo.Header.matchesView (describe view bytes) other.pencil.globalShape
      other.extraShape.dimensions scalar.code scalar.width = .ok () := by
  have hsame : ∀ values : List ℕ,
      ((values.zip values).any fun pair => pair.1 ≠ pair.2) = false := by
    intro values
    rw [List.any_eq_false]
    rintro ⟨stored, expected⟩ hmem
    obtain rfl : stored = expected := by
      induction values with
      | nil => contradiction
      | cons value values ih =>
        cases List.mem_cons.mp hmem with
        | inl h =>
          cases h
          rfl
        | inr h => exact ih h
    simp
  have hstep : (fun product extent => do
      let product ← checkedMul product extent
      checkedMul product 1) = checkedMul := by
    funext product extent
    unfold checkedMul
    split <;> simp_all
  have helements : (List.ofFn view.pencil.globalShape).foldlM checkedMul 1
      = some (List.ofFn view.pencil.globalShape).prod := by
    refine checkedFold_eq_some.mpr ⟨rfl, ?_⟩
    rw [leadingProd_globalShape]
    exact (checkedProduct_eq_ok.mp view.pencil.globalLen_ok).2
  have hextraFold : checkedFold view.extraShape.dimensions
      = some view.extraShape.dimensions.prod :=
    checkedFold_eq_some.mpr ⟨rfl, hwritable.extra_fits⟩
  unfold MpiIo.Header.matchesView
  rw [hglobal, hextra, hstep, helements, hextraFold]
  refine bind_eq_ok.mpr ⟨(), ?_, bind_eq_ok.mpr ⟨(), ?_, bind_eq_ok.mpr ⟨(), ?_,
    bind_eq_ok.mpr ⟨_, okOr_eq_ok.mpr (Option.bind_eq_some_iff.mpr ⟨_, rfl,
      Option.bind_eq_some_iff.mpr ⟨_, rfl, Option.bind_eq_some_iff.mpr ⟨_,
        checkedMul_eq_some.mpr ⟨hwritable.elements_lt, rfl⟩,
        checkedMul_eq_some.mpr ⟨hwritable.payload_lt, rfl⟩⟩⟩⟩), ?_⟩⟩⟩⟩
  · simp [describe]
  · rw [ensure_eq_ok]
    simp only [describe, hsame, decide_true, Bool.not_false, Bool.and_true]
  · rw [ensure_eq_ok]
    simp only [describe, hsame, List.length_ofFn, decide_true, Bool.not_false, Bool.and_true]
  · rw [ensure_eq_ok, decide_eq_true_eq]
    rfl

/-- The header that a committed file shows. -/
theorem commit_written (view : PencilArrayView scalar.Value N M) :
    commit (headerImage incompleteMarker (describe view []))
      = headerImage commitMarker (describe view []) := commit_headerImage _

theorem decode_written_iff {view : PencilArrayView scalar.Value N M} {reader : HeaderAllocator}
    (hgrants : reader.Grants) :
    MpiIo.Header.decode reader (headerImage commitMarker (describe view []))
        = .ok (describe view (headerImage commitMarker (describe view []))) ↔
      ValidHeader (describe view (headerImage commitMarker (describe view []))) := by
  rw [decode_eq_ok]
  exact ⟨fun h => h.2.2.1, fun h => ⟨hgrants, rfl, h, rfl⟩⟩

theorem readsBack_describe_iff {view : PencilArrayView scalar.Value N M}
    (hwritable : Writable view)
    (hplace : Describable view.pencil.globalShape view.extraShape.dimensions
      view.pencil.localShapeLogical view.pencil.localRanges view.storage.length scalar.width) :
    ReadsBack view (describe view (headerImage incompleteMarker (describe view []))) ↔
      (∏ axis, view.pencil.globalShape axis) * leadingProd view.extraShape.dimensions
        < usizeLimit := by
  have hall : HeaderAllocator.Grants ⟨true, true, true, true, true⟩ := ⟨rfl, rfl, rfl, rfl, rfl⟩
  have hbytes : commit (describe view (headerImage incompleteMarker (describe view []))).bytes
      = headerImage commitMarker (describe view []) := commit_written view
  have hvalid : ValidHeader (describe view (headerImage commitMarker (describe view []))) ↔ _ :=
    validHeader_describe_iff hwritable hplace
  refine Iff.trans ?_ hvalid
  constructor
  · intro h
    have hdecoded := h.decoded _ hall
    rw [hbytes] at hdecoded
    exact (decode_written_iff hall).mp hdecoded
  · intro h
    constructor
    · intro reader hgrants
      rw [hbytes]
      exact (decode_written_iff hgrants).mpr h
    · intro L other hglobal hextra
      exact matchesView_describe hwritable hglobal hextra

/-- **Written headers are read back** exactly where the product of the global extents and of the
extra extents before the first zero fits a machine word. -/
theorem written_header_reads_back_iff {view : PencilArrayView scalar.Value N M}
    {writer : HeaderAllocator} {reserved : Bool} {header : MpiIo.Header} {layout : MpiLayout}
    (hwrite : MpiIo.Header.forWrite writer view = .ok header)
    (hlayout : layoutOfView reserved view = .ok layout) :
    ReadsBack view header ↔
      (∏ axis, view.pencil.globalShape axis)
        * (view.extraShape.dimensions.takeWhile (· ≠ 0)).prod < usizeLimit := by
  obtain ⟨_, hwritable, rfl⟩ := forWrite_eq_ok.mp hwrite
  obtain ⟨_, hplace, _⟩ := buildLayout_eq_ok.mp hlayout
  exact readsBack_describe_iff hwritable hplace

/-! ## Two ranks -/

/-- Extents that are C integers leave a descriptor for every block of at most as many bytes. -/
theorem describable_of_le {view : PencilArrayView scalar.Value N M}
    (hglobal : ∀ axis, view.pencil.globalShape axis ≤ countMax)
    (hextra : ∀ extent ∈ view.extraShape.dimensions, extent ≤ countMax)
    (hbytes : view.storage.length * scalar.width ≤ countMax)
    (hrank : view.extraShape.dimensions.length + N + 1 ≤ maxProtocolRank) :
    Describable view.pencil.globalShape view.extraShape.dimensions view.pencil.localShapeLogical
      view.pencil.localRanges view.storage.length scalar.width where
  bytes_le := hbytes
  rank_le := hrank
  extra_le := hextra
  spatial_le := by
    intro axis
    have hglobal := hglobal axis
    have hstart : (view.pencil.localRanges axis).start ≤ (view.pencil.localRanges axis).stop := by
      rw [localRanges_eq]
      exact ownedRanges_start_le _ _ _ _ axis
    have hstop : (view.pencil.localRanges axis).stop ≤ view.pencil.globalShape axis := by
      rw [localRanges_eq]
      exact ownedRanges_stop_le _ _ view.pencil.topology.coords_lt axis
    have hlen : view.pencil.localShapeLogical axis
        = (view.pencil.localRanges axis).stop - (view.pencil.localRanges axis).start := by
      rw [localShapeLogical_apply]
    omega
  width_le := by cases scalar <;> decide

/-- A view of two ranks without elements: one extra extent is zero. -/
def emptyView (globalShape : Fin 2 → ℕ) (extent : ℕ) (hpos : ∀ axis, 0 < globalShape axis)
    (hfit : ∏ axis, globalShape axis < usizeLimit) :
    PencilArrayView ScalarType.i32.Value 2 1 where
  pencil := buildPencil twoRanks globalShape
    ⟨![0], fun a b _ => Subsingleton.elim a b, Nat.one_pos⟩ AxisPermutation.identity hpos hfit
  extraShape := ⟨[extent, 0], 0, by simp [checkedProduct]⟩
  storage := []
  storageLen_ok := validateStorageLen_of_length (by simp) (by simp [usizeLimit])

theorem writable_emptyView {globalShape : Fin 2 → ℕ} {extent : ℕ}
    (hpos : ∀ axis, 0 < globalShape axis) (hfit : ∏ axis, globalShape axis < usizeLimit)
    (hextent : extent < usizeLimit) : Writable (emptyView globalShape extent hpos hfit) := by
  have hlen : (describe (emptyView globalShape extent hpos hfit) []).payloadOffset = 152 := rfl
  have hbytes : (describe (emptyView globalShape extent hpos hfit) []).payloadBytes = 0 := by
    simp [describe, emptyView]
  constructor
  case extra_fits =>
    show leadingProd [extent, 0] < usizeLimit
    by_cases hzero : extent = 0
    · rw [hzero, leadingProd_zero]
      decide
    · rw [leadingProd_cons hzero, leadingProd_zero, Nat.mul_one]
      exact hextent
  case payload_lt =>
    rw [hbytes]
    decide
  case elements_lt =>
    show (List.ofFn globalShape).prod * [extent, 0].prod < usizeLimit
    rw [List.prod_cons, List.prod_cons, Nat.zero_mul, Nat.mul_zero, Nat.mul_zero]
    decide
  case length_le =>
    rw [hlen]
    decide
  case file_lt =>
    rw [hlen, hbytes]
    decide

theorem describable_emptyView {globalShape : Fin 2 → ℕ} {extent : ℕ}
    (hpos : ∀ axis, 0 < globalShape axis) (hfit : ∏ axis, globalShape axis < usizeLimit)
    (hglobal : ∀ axis, globalShape axis ≤ countMax) (hextent : extent ≤ countMax) :
    Describable (emptyView globalShape extent hpos hfit).pencil.globalShape
      (emptyView globalShape extent hpos hfit).extraShape.dimensions
      (emptyView globalShape extent hpos hfit).pencil.localShapeLogical
      (emptyView globalShape extent hpos hfit).pencil.localRanges
      (emptyView globalShape extent hpos hfit).storage.length ScalarType.i32.width := by
  have hrank : 2 + 2 + 1 ≤ maxProtocolRank := by decide
  refine describable_of_le hglobal ?_ (Nat.zero_le _) hrank
  intro dimension hdimension
  have hcases : dimension = extent ∨ dimension = 0 := by simpa [emptyView] using hdimension
  obtain rfl | rfl := hcases
  · exact hextent
  · exact Nat.zero_le _

/-- A small shape whose header is read back. -/
theorem written_header_reads_back_three_by_two :
    ∃ header layout,
      MpiIo.Header.forWrite ⟨true, true, true, true, true⟩
        (emptyView ![3, 2] 5 (by decide) (by decide)) = .ok header ∧
      layoutOfView true (emptyView ![3, 2] 5 (by decide) (by decide)) = .ok layout ∧
      ReadsBack (emptyView ![3, 2] 5 (by decide) (by decide)) header := by
  have hwritable := @writable_emptyView ![3, 2] 5 (by decide) (by decide) (by decide)
  have hplace := @describable_emptyView ![3, 2] 5 (by decide) (by decide) (by decide) (by decide)
  have hwrite : MpiIo.Header.forWrite ⟨true, true, true, true, true⟩
      (emptyView ![3, 2] 5 (by decide) (by decide)) = .ok _ :=
    forWrite_eq_ok.mpr ⟨⟨rfl, rfl, rfl, rfl, rfl⟩, hwritable, rfl⟩
  have hlayout : layoutOfView true (emptyView ![3, 2] 5 (by decide) (by decide)) = .ok _ :=
    buildLayout_eq_ok.mpr ⟨rfl, hplace, rfl⟩
  exact ⟨_, _, hwrite, hlayout, (written_header_reads_back_iff hwrite hlayout).mpr (by decide)⟩

/-- Three extents of 2 ^ 30 before a zero: the header is written and never read. -/
theorem zero_extent_header_not_read_back :
    ∃ header layout,
      MpiIo.Header.forWrite ⟨true, true, true, true, true⟩
        (emptyView ![2 ^ 30, 2 ^ 30] (2 ^ 30) (by decide) (by decide)) = .ok header ∧
      layoutOfView true (emptyView ![2 ^ 30, 2 ^ 30] (2 ^ 30) (by decide) (by decide))
        = .ok layout ∧
      ¬ ReadsBack (emptyView ![2 ^ 30, 2 ^ 30] (2 ^ 30) (by decide) (by decide)) header := by
  have hwritable := @writable_emptyView ![2 ^ 30, 2 ^ 30] (2 ^ 30) (by decide) (by decide)
    (by decide)
  have hplace := @describable_emptyView ![2 ^ 30, 2 ^ 30] (2 ^ 30) (by decide) (by decide)
    (by decide) (by decide)
  refine ⟨_, _, forWrite_eq_ok.mpr ⟨⟨rfl, rfl, rfl, rfl, rfl⟩, hwritable, rfl⟩,
    buildLayout_eq_ok.mpr ⟨rfl, hplace, rfl⟩, ?_⟩
  rw [readsBack_describe_iff hwritable hplace]
  decide

end PencilRs.Analysis
