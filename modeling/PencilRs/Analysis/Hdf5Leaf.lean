import PencilRs.Analysis.Hdf5Catalog

/-!
# What the catalog of a session reads

The catalog of a session accepts a dataset exactly if it is complete, within the bounds of a rank,
and the bytes of its extents before the first zero fit.  It never panics: every attribute it takes
the first value of was read with one value.
-/

set_option autoImplicit false

namespace PencilRs.Analysis

open PencilRs.Computation PencilRs.Model PencilRs.Model.Hdf5

/-- An attribute has as many values as its extents say. -/
def ValuesFill (dataset : Dataset) : Prop :=
  ∀ attr stored, dataset.attributes attr = some stored → stored.values.length = stored.shape.prod

/-- A committed dataset within the bounds of the catalog of a session. -/
structure IsLeaf (dataset : Dataset) (scalar : ScalarType) (global extra : List ℕ) : Prop where
  complete : IsComplete scalar global extra dataset
  global_ne_nil : global ≠ []
  rank_le : extra.length + global.length ≤ maxProtocolRank
  bytes_fit : scalar.width * leadingProd (global ++ extra) < usizeLimit

/-- What the catalog says of a dataset: its path, its type, its shapes and its provenance. -/
def Describes (dataset : Dataset) (path : String) (info : MpiIo.DatasetInfo) : Prop :=
  ∃ grid permutation : StoredAttribute, dataset.attributes .writerGrid = some grid ∧
    dataset.attributes .writerPermutation = some permutation ∧
    IsLeaf dataset info.scalarType info.globalShape info.extraShape ∧
    info = infoOf info.scalarType info.globalShape info.extraShape grid.values permutation.values
      (some path)

section Leaf

variable {dataset : Dataset} {alloc : InspectAllocator} {path : String}

theorem readAttr_eq_ok {reserved : Bool} {attr : Attribute} {n er : ℕ} {values : List ℕ}
    (hfill : ValuesFill dataset) (h : readAttr reserved dataset.attributes attr n er = .ok values) :
    (∃ stored, dataset.attributes attr = some stored ∧ IsArray stored values) ∧
      ∀ expected ∈ (attr.readLen n er).1, expected = values.length := by
  obtain ⟨stored, hstored, h⟩ := bind_eq_ok.mp h
  obtain ⟨length, hlength, h⟩ := bind_eq_ok.mp h
  obtain ⟨_, hbounds, h⟩ := bind_eq_ok.mp h
  obtain ⟨_, _, h⟩ := bind_eq_ok.mp h
  obtain ⟨_, _, h⟩ := bind_eq_ok.mp h
  cases h
  have hstored := okOr_eq_ok.mp hstored
  have hvalues := hfill attr stored hstored
  have hshape : stored.shape = [] ∧ length = 1 ∨ stored.shape = [length] := by
    match hstoredShape : stored.shape with
    | [] =>
      rw [hstoredShape] at hlength
      exact .inl ⟨rfl, (Except.ok.inj hlength).symm⟩
    | [_] =>
      rw [hstoredShape] at hlength
      exact .inr (by rw [Except.ok.inj hlength])
    | _ :: _ :: _ =>
      rw [hstoredShape] at hlength
      contradiction
  have hlen : stored.values.length = length := by
    obtain ⟨hshape, rfl⟩ | hshape := hshape
    · rw [hvalues, hshape, List.prod_nil]
    · rw [hvalues, hshape, List.prod_singleton]
  have hbounds := ensure_eq_ok.mp hbounds
  rw [Bool.and_eq_true] at hbounds
  refine ⟨⟨stored, hstored, rfl, ?_⟩, fun expected hexpected => ?_⟩
  · rw [hlen]
    exact hshape.imp_left fun h => h
  · have hall : (attr.readLen n er).1.all (fun expected => expected = length) = true := hbounds.2
    rw [Option.mem_def.mp hexpected] at hall
    exact (of_decide_eq_true hall).trans hlen.symm

/-- The one value of an attribute. -/
theorem readAttr_first {ε : Type} {reserved : Bool} {attr : Attribute} {values : List ℕ} {value : ℕ}
    {lift : IoError → ε} {absent : ε} (hfill : ValuesFill dataset)
    (h : (readAttr reserved dataset.attributes attr 0 0).mapError lift = .ok values)
    (hfirst : okOr values.head? absent = .ok value) (hone : (attr.readLen 0 0).1 = some 1) :
    ∃ stored, dataset.attributes attr = some stored ∧ IsArray stored [value] := by
  obtain ⟨hstored, hlen⟩ := readAttr_eq_ok hfill (mapError_eq_ok.mp h)
  obtain ⟨only, rfl⟩ := List.length_eq_one_iff.mp (hlen 1 hone).symm
  rwa [← Option.some.inj (okOr_eq_ok.mp hfirst)]

/-- The attribute holds the values of a complete dataset. -/
theorem leaf_eq_ok (hfill : ValuesFill dataset) {info : MpiIo.DatasetInfo}
    (h : leaf alloc dataset path = .ok info) : Describes dataset path info := by
  obtain ⟨version, hversion, h⟩ := bind_eq_ok.mp h
  obtain ⟨commit, hcommit, h⟩ := bind_eq_ok.mp h
  obtain ⟨nvals, hnvals, h⟩ := bind_eq_ok.mp h
  obtain ⟨n, hn, h⟩ := bind_eq_ok.mp h
  obtain ⟨types, htypes, h⟩ := bind_eq_ok.mp h
  obtain ⟨typ, htyp, h⟩ := bind_eq_ok.mp h
  obtain ⟨widths, hwidths, h⟩ := bind_eq_ok.mp h
  obtain ⟨width, hwidth, h⟩ := bind_eq_ok.mp h
  obtain ⟨erank, herank, h⟩ := bind_eq_ok.mp h
  obtain ⟨er, her, h⟩ := bind_eq_ok.mp h
  obtain ⟨marker, hmarker, h⟩ := bind_eq_ok.mp h
  obtain ⟨_, hmeta, h⟩ := bind_eq_ok.mp h
  obtain ⟨scalar, hscalar, h⟩ := bind_eq_ok.mp h
  obtain ⟨extra, hextra, h⟩ := bind_eq_ok.mp h
  obtain ⟨global, hglobal, h⟩ := bind_eq_ok.mp h
  obtain ⟨grid, hgrid, h⟩ := bind_eq_ok.mp h
  obtain ⟨perm, hperm, h⟩ := bind_eq_ok.mp h
  obtain ⟨_, hshape, h⟩ := bind_eq_ok.mp h
  obtain ⟨_, hdims, h⟩ := bind_eq_ok.mp h
  obtain ⟨_, htype, h⟩ := bind_eq_ok.mp h
  obtain ⟨_, _, h⟩ := bind_eq_ok.mp h
  cases h
  have hmeta := ensure_eq_ok.mp hmeta
  simp only [Bool.and_eq_true, decide_eq_true_eq] at hmeta
  obtain ⟨⟨⟨⟨⟨⟨hversionOk, hcommitOk⟩, hpos⟩, _⟩, _⟩, hcombined⟩, _⟩ := hmeta
  obtain ⟨rfl, rfl⟩ := ScalarType.decode_eq_some.mp (okOr_eq_ok.mp hscalar)
  have hrank : n + er ≤ maxProtocolRank := by
    unfold combinedRankInRange at hcombined
    cases hsum : checkedAdd n er with
    | none =>
      rw [hsum] at hcombined
      contradiction
    | some sum =>
      rw [hsum] at hcombined
      rw [(checkedAdd_eq_some.mp hsum).2]
      exact of_decide_eq_true hcombined
  obtain ⟨hversionStored, _⟩ := readAttr_eq_ok hfill (mapError_eq_ok.mp hversion)
  have hversionValue : version = [formatVersion] := of_decide_eq_true hversionOk
  have hcommitStored := readAttr_first hfill hcommit hmarker rfl
  have hrankStored := readAttr_first hfill hnvals hn rfl
  have htypeStored := readAttr_first hfill htypes htyp rfl
  have hwidthStored := readAttr_first hfill hwidths hwidth rfl
  have herankStored := readAttr_first hfill herank her rfl
  obtain ⟨hglobalStored, hglobalLen⟩ := readAttr_eq_ok hfill (mapError_eq_ok.mp hglobal)
  obtain ⟨hgridStored, _⟩ := readAttr_eq_ok hfill (mapError_eq_ok.mp hgrid)
  obtain ⟨hpermStored, _⟩ := readAttr_eq_ok hfill (mapError_eq_ok.mp hperm)
  obtain rfl : n = global.length := hglobalLen n rfl
  have hextraStored : er = extra.length ∧ if Attribute.extraShape.present er then
      ∃ stored, dataset.attributes .extraShape = some stored ∧ IsArray stored extra
      else dataset.attributes .extraShape = none := by
    by_cases hpresent : Attribute.extraShape.present er = true
    · rw [if_pos hpresent] at hextra ⊢
      obtain ⟨hstored, hlen⟩ := readAttr_eq_ok hfill (mapError_eq_ok.mp hextra)
      exact ⟨hlen er rfl, hstored⟩
    · rw [if_neg hpresent] at hextra ⊢
      obtain ⟨_, hnone, hextra⟩ := bind_eq_ok.mp hextra
      cases hextra
      refine ⟨?_, Option.isNone_iff_eq_none.mp (ensure_eq_ok.mp hnone)⟩
      by_contra hne
      exact hpresent (decide_eq_true (Nat.pos_of_ne_zero hne))
  obtain ⟨rfl, hextraStored⟩ := hextraStored
  have hshape := ensure_eq_ok.mp hshape
  unfold leafShapeValid Hdf5.validWriterProvenance at hshape
  rw [Bool.and_eq_true] at hshape
  obtain ⟨hbytes, hprovenance⟩ := hshape
  have hgridValid : validWriterGrid grid global.length = true := by
    by_contra hinvalid
    rw [Bool.eq_false_of_not_eq_true hinvalid] at hprovenance
    simp at hprovenance
  have hpermValid : validPermutation perm global.length global.length = true := by
    by_contra hinvalid
    rw [Bool.eq_false_of_not_eq_true hinvalid] at hprovenance
    simp at hprovenance
  have hcommitted : marker = commitMarker := by
    by_contra hother
    unfold commitState at hcommitOk
    rw [if_neg hother] at hcommitOk
    split at hcommitOk <;> contradiction
  obtain ⟨gridStored, hgridStored, hgridArray⟩ := hgridStored
  obtain ⟨permStored, hpermStored, hpermArray⟩ := hpermStored
  subst hversionValue
  subst hcommitted
  refine ⟨gridStored, permStored, hgridStored, hpermStored, ⟨⟨?_, ?_, grid, perm,
    ⟨hgridValid, hpermValid⟩, fun attr => ?_⟩, ?_, ?_, ?_⟩, ?_⟩
  · have hmatches := ensure_eq_ok.mp htype
    unfold typeMatches at hmatches
    rw [Bool.and_eq_true] at hmatches
    exact of_decide_eq_true hmatches.2
  · exact of_decide_eq_true (ensure_eq_ok.mp hdims)
  · by_cases hpresent : attr.present extra.length = true
    · rw [if_pos hpresent]
      cases attr with
      | version => exact hversionStored
      | commit => exact hcommitStored
      | rank => exact hrankStored
      | typeCode => exact htypeStored
      | width => exact hwidthStored
      | extraRank => exact herankStored
      | extraShape =>
        rw [if_pos hpresent] at hextraStored
        exact hextraStored
      | globalShape => exact hglobalStored
      | writerGrid => exact ⟨gridStored, hgridStored, hgridArray⟩
      | writerPermutation => exact ⟨permStored, hpermStored, hpermArray⟩
    · rw [if_neg hpresent]
      cases attr with
      | extraShape =>
        rw [if_neg hpresent] at hextraStored
        exact hextraStored
      | _ => exact absurd rfl hpresent
  · exact List.length_pos_iff.mp hpos
  · rw [Nat.add_comm]
    exact hrank
  · have hwidth : scalar.width < usizeLimit := by cases scalar <;> decide
    exact (validShapeBytesFromWidth_iff hwidth).mp hbytes
  · rw [hgridArray.1, hpermArray.1]
    rfl

/-- **The leaves of a session.** -/
theorem leaf_isOk_iff (hfill : ValuesFill dataset)
    (hgrants : ∀ extraRank, GrantsInspection alloc extraRank) :
    (∃ info, leaf alloc dataset path = .ok info) ↔
      ∃ scalar global extra, IsLeaf dataset scalar global extra := by
  constructor
  · rintro ⟨info, h⟩
    obtain ⟨_, _, _, _, hleaf, _⟩ := leaf_eq_ok hfill h
    exact ⟨_, _, _, hleaf⟩
  · rintro ⟨scalar, global, extra, hleaf⟩
    obtain ⟨grid, permutation, hreads⟩ := hleaf.complete.reads hleaf.rank_le
      (hgrants extra.length)
    have hwidth : scalar.width < usizeLimit := by cases scalar <;> decide
    rw [leaf_eq hreads hleaf.complete hleaf.global_ne_nil hleaf.rank_le (hgrants 0).provenance,
      if_pos ((validShapeBytesFromWidth_iff hwidth).mpr hleaf.bytes_fit)]
    exact ⟨_, rfl⟩

/-! ## No panic -/

section Panics

variable {ε σ τ : Type}

theorem bind_ne_panic {result : Except (Stop ε) σ} {next : σ → Except (Stop ε) τ}
    (h : result ≠ .error .panic)
    (hnext : ∀ value, result = .ok value → next value ≠ .error .panic) :
    (result >>= next) ≠ .error .panic := by
  cases result with
  | ok value => exact hnext value rfl
  | error e =>
    intro heq
    exact h (congrArg Except.error (Except.error.inj heq))

theorem ensure_ne_panic {ok : Bool} {e : ε} : ensure ok (Stop.error e) ≠ .error .panic := by
  cases ok <;> exact nofun

theorem mapError_ne_panic {ε' : Type} {result : Except ε' σ} {f : ε' → ε} :
    (result.mapError fun e => Stop.error (f e)) ≠ .error .panic := by
  cases result <;> exact nofun

end Panics

/-- An attribute that was read with one value has a first value. -/
theorem first_ne_panic {reserved : Bool} {attr : Attribute} {values : List ℕ} {ε : Type}
    {lift : IoError → Stop ε} (hfill : ValuesFill dataset)
    (h : (readAttr reserved dataset.attributes attr 0 0).mapError lift = .ok values)
    (hone : (attr.readLen 0 0).1 = some 1) :
    okOr values.head? (Stop.panic : Stop ε) ≠ .error .panic := by
  obtain ⟨_, hlen⟩ := readAttr_eq_ok hfill (mapError_eq_ok.mp h)
  obtain ⟨only, rfl⟩ := List.length_eq_one_iff.mp (hlen 1 hone).symm
  exact nofun

/-- **The catalog does not panic** on a dataset. -/
theorem leaf_ne_panic (hfill : ValuesFill dataset) : leaf alloc dataset path ≠ .error .panic := by
  refine bind_ne_panic mapError_ne_panic fun version _ => ?_
  refine bind_ne_panic mapError_ne_panic fun commit hcommit => ?_
  refine bind_ne_panic mapError_ne_panic fun nvals hnvals => ?_
  refine bind_ne_panic (first_ne_panic hfill hnvals rfl) fun n _ => ?_
  refine bind_ne_panic mapError_ne_panic fun types htypes => ?_
  refine bind_ne_panic (first_ne_panic hfill htypes rfl) fun typ _ => ?_
  refine bind_ne_panic mapError_ne_panic fun widths hwidths => ?_
  refine bind_ne_panic (first_ne_panic hfill hwidths rfl) fun width _ => ?_
  refine bind_ne_panic mapError_ne_panic fun erank herank => ?_
  refine bind_ne_panic (first_ne_panic hfill herank rfl) fun er _ => ?_
  refine bind_ne_panic (first_ne_panic hfill hcommit rfl) fun marker _ => ?_
  refine bind_ne_panic ensure_ne_panic fun _ hmeta => ?_
  have hmeta := ensure_eq_ok.mp hmeta
  rw [Bool.and_eq_true] at hmeta
  obtain ⟨scalar, hscalar⟩ := Option.isSome_iff_exists.mp hmeta.2
  refine bind_ne_panic (by rw [hscalar]; exact nofun) fun _ _ => ?_
  refine bind_ne_panic ?_ fun extra _ => ?_
  · split
    · exact mapError_ne_panic
    · exact bind_ne_panic ensure_ne_panic fun _ _ => nofun
  refine bind_ne_panic mapError_ne_panic fun global _ => ?_
  refine bind_ne_panic mapError_ne_panic fun grid _ => ?_
  refine bind_ne_panic mapError_ne_panic fun perm _ => ?_
  refine bind_ne_panic ensure_ne_panic fun _ _ => ?_
  refine bind_ne_panic ensure_ne_panic fun _ _ => ?_
  refine bind_ne_panic ensure_ne_panic fun _ _ => ?_
  exact bind_ne_panic ensure_ne_panic fun _ _ => nofun

end Leaf

end PencilRs.Analysis
