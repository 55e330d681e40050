import PencilRs.Model.Header

/-!
# The place of a block in the file

What the subarray descriptor of a rank says: the extra dimensions whole, the rank's range on each
spatial axis, and the bytes of one element.
-/

set_option autoImplicit false

namespace PencilRs.Analysis

open PencilRs.Computation PencilRs.Model PencilRs.Model.MpiIo

variable {N : ℕ}

theorem foldlM_pushExtra {extra : List ℕ} {layout layout' : List (ℕ × ℕ × ℕ)} :
    extra.foldlM pushExtra layout = .ok layout' ↔
      (∀ extent ∈ extra, extent ≤ countMax) ∧
        layout' = layout ++ extra.map fun extent => (extent, extent, 0) := by
  induction extra generalizing layout with
  | nil =>
    rw [List.foldlM_nil, List.map_nil, List.append_nil]
    exact ⟨fun h => ⟨fun _ h => absurd h List.not_mem_nil, (Except.ok.inj h).symm⟩,
      fun h => congrArg Except.ok h.2.symm⟩
  | cons extent extra ih =>
    rw [List.foldlM_cons, bind_eq_ok, List.forall_mem_cons, List.map_cons]
    constructor
    · rintro ⟨next, hnext, h⟩
      obtain ⟨_, hwhole, hnext⟩ := bind_eq_ok.mp hnext
      obtain ⟨_, hpart, hnext⟩ := bind_eq_ok.mp hnext
      cases hnext
      obtain ⟨hle, rfl⟩ := countTryFrom_eq_some.mp (okOr_eq_ok.mp hwhole)
      obtain ⟨_, rfl⟩ := countTryFrom_eq_some.mp (okOr_eq_ok.mp hpart)
      obtain ⟨hall, rfl⟩ := ih.mp h
      exact ⟨⟨hle, hall⟩, by simp⟩
    · rintro ⟨⟨hle, hall⟩, rfl⟩
      have hcount : ∀ what, toCInt extent what = .ok extent := fun what =>
        okOr_eq_ok.mpr (countTryFrom_eq_some.mpr ⟨hle, rfl⟩)
      refine ⟨layout ++ [(extent, extent, 0)], ?_, ih.mpr ⟨hall, by simp⟩⟩
      exact bind_eq_ok.mpr ⟨_, hcount _, bind_eq_ok.mpr ⟨_, hcount _, rfl⟩⟩


theorem foldlM_pushSpatial {global localShape : Fin N → ℕ} {ranges : Fin N → Range}
    {axes : List (Fin N)} {layout layout' : List (ℕ × ℕ × ℕ)} :
    axes.foldlM (pushSpatial global localShape ranges) layout = .ok layout' ↔
      (∀ axis ∈ axes, global axis ≤ countMax ∧ localShape axis ≤ countMax ∧
        (ranges axis).start ≤ countMax) ∧
        layout' = layout ++ axes.map fun axis =>
          (global axis, localShape axis, (ranges axis).start) := by
  induction axes generalizing layout with
  | nil =>
    rw [List.foldlM_nil, List.map_nil, List.append_nil]
    exact ⟨fun h => ⟨fun _ h => absurd h List.not_mem_nil, (Except.ok.inj h).symm⟩,
      fun h => congrArg Except.ok h.2.symm⟩
  | cons axis axes ih =>
    rw [List.foldlM_cons, bind_eq_ok, List.forall_mem_cons, List.map_cons]
    constructor
    · rintro ⟨next, hnext, h⟩
      obtain ⟨_, hwhole, hnext⟩ := bind_eq_ok.mp hnext
      obtain ⟨_, hpart, hnext⟩ := bind_eq_ok.mp hnext
      obtain ⟨_, hstart, hnext⟩ := bind_eq_ok.mp hnext
      cases hnext
      obtain ⟨hle₁, rfl⟩ := countTryFrom_eq_some.mp (okOr_eq_ok.mp hwhole)
      obtain ⟨hle₂, rfl⟩ := countTryFrom_eq_some.mp (okOr_eq_ok.mp hpart)
      obtain ⟨hle₃, rfl⟩ := countTryFrom_eq_some.mp (okOr_eq_ok.mp hstart)
      obtain ⟨hall, rfl⟩ := ih.mp h
      exact ⟨⟨⟨hle₁, hle₂, hle₃⟩, hall⟩, by simp⟩
    · rintro ⟨⟨⟨hle₁, hle₂, hle₃⟩, hall⟩, rfl⟩
      have hcount : ∀ value what, value ≤ countMax → toCInt value what = .ok value :=
        fun _ _ h => okOr_eq_ok.mpr (countTryFrom_eq_some.mpr ⟨h, rfl⟩)
      refine ⟨layout ++ [(global axis, localShape axis, (ranges axis).start)], ?_,
        ih.mpr ⟨hall, by simp⟩⟩
      exact bind_eq_ok.mpr ⟨_, hcount _ _ hle₁, bind_eq_ok.mpr ⟨_, hcount _ _ hle₂,
        bind_eq_ok.mpr ⟨_, hcount _ _ hle₃, rfl⟩⟩⟩

theorem checkedLocalByteCount_eq_ok {elements width bytes : ℕ} :
    checkedLocalByteCount elements width = .ok bytes ↔
      bytes = elements * width ∧ bytes ≤ countMax := by
  have hlimit : countMax < usizeLimit := by decide
  unfold checkedLocalByteCount
  rw [bind_eq_ok]
  constructor
  · rintro ⟨_, hbytes, h⟩
    obtain ⟨_, rfl⟩ := checkedMul_eq_some.mp (okOr_eq_ok.mp hbytes)
    obtain ⟨_, hle, h⟩ := bind_eq_ok.mp h
    cases h
    exact ⟨rfl, of_decide_eq_true (ensure_eq_ok.mp hle)⟩
  · rintro ⟨rfl, hle⟩
    exact ⟨_, okOr_eq_ok.mpr (checkedMul_eq_some.mpr ⟨hle.trans_lt hlimit, rfl⟩),
      bind_eq_ok.mpr ⟨(), ensure_eq_ok.mpr (decide_eq_true hle), rfl⟩⟩

/-- The descriptor of a block. -/
def layoutOf (global : Fin N → ℕ) (extra : List ℕ) (localShape : Fin N → ℕ)
    (ranges : Fin N → Range) (localElements width : ℕ) : MpiLayout where
  global := extra ++ List.ofFn global ++ [width]
  sizes := extra ++ List.ofFn localShape ++ [width]
  starts := extra.map (fun _ => 0) ++ List.ofFn (fun axis => (ranges axis).start) ++ [0]
  empty := localElements * width = 0 || extra.contains 0

/-- Where a block has a descriptor: every number is a C integer, and the rank is bounded. -/
structure Describable (global : Fin N → ℕ) (extra : List ℕ) (localShape : Fin N → ℕ)
    (ranges : Fin N → Range) (localElements width : ℕ) : Prop where
  bytes_le : localElements * width ≤ countMax
  rank_le : extra.length + N + 1 ≤ maxProtocolRank
  extra_le : ∀ extent ∈ extra, extent ≤ countMax
  spatial_le : ∀ axis, global axis ≤ countMax ∧ localShape axis ≤ countMax ∧
    (ranges axis).start ≤ countMax
  width_le : width ≤ countMax

theorem buildLayout_eq_ok {reserved : Bool} {global : Fin N → ℕ} {extra : List ℕ}
    {localShape : Fin N → ℕ} {ranges : Fin N → Range} {localElements width : ℕ}
    {layout : MpiLayout} :
    buildLayout reserved global extra localShape ranges localElements width = .ok layout ↔
      reserved = true ∧ Describable global extra localShape ranges localElements width ∧
        layout = layoutOf global extra localShape ranges localElements width := by
  unfold buildLayout
  constructor
  · intro h
    obtain ⟨_, hbytes, h⟩ := bind_eq_ok.mp h
    obtain ⟨rfl, hbytesLe⟩ := checkedLocalByteCount_eq_ok.mp hbytes
    obtain ⟨_, hrank, h⟩ := bind_eq_ok.mp h
    obtain ⟨_, hrank₁, hrank⟩ := Option.bind_eq_some_iff.mp (okOr_eq_ok.mp hrank)
    obtain ⟨_, rfl⟩ := checkedAdd_eq_some.mp hrank₁
    obtain ⟨_, rfl⟩ := checkedAdd_eq_some.mp hrank
    obtain ⟨_, hbound, h⟩ := bind_eq_ok.mp h
    rw [ensure_eq_ok, Bool.and_eq_true, decide_eq_true_eq, decide_eq_true_eq] at hbound
    obtain ⟨_, _, h⟩ := bind_eq_ok.mp h
    obtain ⟨_, hreserved, h⟩ := bind_eq_ok.mp h
    obtain ⟨_, hextra, h⟩ := bind_eq_ok.mp h
    obtain ⟨hextraLe, rfl⟩ := foldlM_pushExtra.mp hextra
    obtain ⟨_, hspatial, h⟩ := bind_eq_ok.mp h
    obtain ⟨hspatialLe, rfl⟩ := foldlM_pushSpatial.mp hspatial
    obtain ⟨_, hwidth, h⟩ := bind_eq_ok.mp h
    obtain ⟨hwidthLe, rfl⟩ := countTryFrom_eq_some.mp (okOr_eq_ok.mp hwidth)
    cases h
    refine ⟨ensure_eq_ok.mp hreserved, ⟨hbytesLe, hbound.2, hextraLe,
      fun axis => hspatialLe axis (List.mem_finRange axis), hwidthLe⟩, ?_⟩
    simp [layoutOf, List.ofFn_eq_map, Function.comp_def]
  · rintro ⟨rfl, h, rfl⟩
    have hrank := h.rank_le
    have hlimit : maxProtocolRank * 4 < usizeLimit := by decide
    have hranks : (do
        let rank ← checkedAdd extra.length N
        checkedAdd rank 1) = some (extra.length + N + 1) :=
      Option.bind_eq_some_iff.mpr ⟨_, checkedAdd_eq_some.mpr ⟨by omega, rfl⟩,
        checkedAdd_eq_some.mpr ⟨by omega, rfl⟩⟩
    refine bind_eq_ok.mpr ⟨_, checkedLocalByteCount_eq_ok.mpr ⟨rfl, h.bytes_le⟩,
      bind_eq_ok.mpr ⟨_, okOr_eq_ok.mpr hranks, bind_eq_ok.mpr ⟨(), ?_, bind_eq_ok.mpr ⟨_,
      okOr_eq_ok.mpr (checkedMul_eq_some.mpr ⟨by omega, rfl⟩), bind_eq_ok.mpr ⟨(), rfl,
      bind_eq_ok.mpr ⟨_, foldlM_pushExtra.mpr ⟨h.extra_le, rfl⟩, bind_eq_ok.mpr ⟨_,
      foldlM_pushSpatial.mpr ⟨fun axis _ => h.spatial_le axis, rfl⟩, bind_eq_ok.mpr ⟨_,
      okOr_eq_ok.mpr (countTryFrom_eq_some.mpr ⟨h.width_le, rfl⟩), ?_⟩⟩⟩⟩⟩⟩⟩⟩
    · rw [ensure_eq_ok, Bool.and_eq_true, decide_eq_true_eq, decide_eq_true_eq]
      exact ⟨by omega, hrank⟩
    · show Except.ok _ = Except.ok _
      congr 1
      simp [layoutOf, List.ofFn_eq_map, Function.comp_def]

end PencilRs.Analysis
