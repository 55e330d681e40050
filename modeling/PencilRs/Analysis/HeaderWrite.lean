import PencilRs.Analysis.Header
import PencilRs.Analysis.Partition

/-!
# Written headers

The writer fills the bytes of its header from front to back and leaves the image of the header,
under the incomplete marker.  Committing replaces the marker alone.  The reader accepts what was
committed exactly where the product of the extents before the first zero fits a machine word: the
writer multiplies two products, the reader one product of both shapes.
-/

set_option autoImplicit false

namespace PencilRs.Analysis

open PencilRs.Computation PencilRs.Model PencilRs.Model.MpiIo

variable {N M : ℕ} {scalar : ScalarType} {ε : Type}

/-! ## Filling the bytes -/

theorem putU64_over {written room : List Byte} (value : ℕ) (h : 8 ≤ room.length) :
    putU64 (written ++ room) written.length value
      = (.ok (written ++ leBytes 8 value ++ room.drop 8) : Except (Stop ε) (List Byte)) := by
  have hlen : (leBytes 8 value).length = (room.take 8).length := by
    rw [length_leBytes, List.length_take_of_le h]
  have hsplit : written ++ room = written ++ room.take 8 ++ room.drop 8 := by
    rw [List.append_assoc, List.take_append_drop]
  have hroom : written.length + (leBytes 8 value).length ≤ (written ++ room).length := by
    rw [length_leBytes, List.length_append]
    omega
  unfold putU64 copyInto
  rw [if_pos hroom, hsplit, splice_append hlen]

/-- The places of consecutive numbers. -/
def placed : ℕ → List ℕ → List (ℕ × ℕ)
  | _, [] => []
  | offset, value :: values => (offset, value) :: placed (offset + 8) values

/-- One number of a list of places. -/
def putAt (bytes : List Byte) (entry : ℕ × ℕ) : Except (Stop ε) (List Byte) :=
  putU64 bytes entry.1 entry.2

/-- Consecutive numbers replace what was in their room. -/
theorem foldlM_putAt (values : List ℕ) (written : List Byte) {room : List Byte}
    (h : 8 * values.length ≤ room.length) :
    (placed written.length values).foldlM putAt (written ++ room)
      = (.ok (written ++ leString 8 values ++ room.drop (8 * values.length)) :
        Except (Stop ε) (List Byte)) := by
  induction values generalizing written room with
  | nil =>
    rw [leString_nil, List.append_nil]
    rfl
  | cons value values ih =>
    rw [List.length_cons] at h
    have hrest : 8 * values.length ≤ (room.drop 8).length := by
      rw [List.length_drop]
      omega
    have hnext := ih (written ++ leBytes 8 value) hrest
    rw [List.length_append, length_leBytes, List.drop_drop] at hnext
    have hcount : 8 + 8 * values.length = 8 * (value :: values).length := by
      rw [List.length_cons]
      omega
    have hput : putAt (written ++ room) (written.length, value)
        = (.ok (written ++ leBytes 8 value ++ room.drop 8) : Except (Stop ε) (List Byte)) :=
      putU64_over value (by omega)
    rw [placed, List.foldlM_cons, hput, leString_cons, ← List.append_assoc, ← hcount, ← hnext]
    rfl

theorem putNext_eq (bytes : List Byte) (offset value : ℕ) :
    putNext (bytes, offset) value
      = (putAt bytes (offset, value) : Except (Stop ε) (List Byte)).map
          fun filled => (filled, offset + 8) := by
  show (putU64 bytes offset value : Except (Stop ε) (List Byte)) >>= _ = _
  unfold putAt
  cases (putU64 bytes offset value : Except (Stop ε) (List Byte)) <;> rfl

/-- The loop over the arrays puts its numbers at consecutive places. -/
theorem foldlM_putNext (values : List ℕ) (bytes : List Byte) (offset : ℕ) :
    values.foldlM putNext (bytes, offset)
      = ((placed offset values).foldlM putAt bytes : Except (Stop ε) (List Byte)).map
          fun filled => (filled, offset + 8 * values.length) := by
  induction values generalizing bytes offset with
  | nil => rfl
  | cons value values ih =>
    have hoffset : offset + 8 * (value :: values).length = offset + 8 + 8 * values.length := by
      rw [List.length_cons]
      omega
    rw [List.foldlM_cons, placed, List.foldlM_cons, hoffset, putNext_eq]
    cases (putAt bytes (offset, value) : Except (Stop ε) (List Byte)) with
    | error stop => rfl
    | ok next => exact ih next (offset + 8)

/-- **Encoding** leaves the image of a header, under the incomplete marker, whatever was in its
bytes. -/
theorem encodeInto_over {header : MpiIo.Header} {buffer : List Byte}
    (hbuffer : buffer.length = headerLenOf header)
    (hglobal : header.global.length = header.n)
    (hpermutation : header.writerPermutation.length = header.n) :
    MpiIo.Header.encodeInto { header with bytes := buffer }
      = .ok { header with bytes := headerImage incompleteMarker header } := by
  have hcount : (arrayWords header).length
      = header.n + header.extra.length + header.writerGrid.length + header.n := by
    unfold arrayWords
    simp only [List.length_append, hglobal, hpermutation]
  have hlen : buffer.length = 8 + 8 * (11 + (arrayWords header).length) := by
    rw [hbuffer]
    unfold headerLenOf headerPrefixBytes
    omega
  have hmagic : (copyInto buffer 0 magic : Except (Stop IoError) (List Byte))
      = .ok (magic ++ buffer.drop 8) := by
    have hroom : 0 + magic.length ≤ buffer.length := by
      rw [hlen]
      simp [magic]
    unfold copyInto
    rw [if_pos hroom]
    rfl
  have hfields : [(8, formatVersion), (16, buffer.length), (24, incompleteMarker),
      (32, header.n), (40, header.typeCode), (48, header.width), (56, header.extra.length),
      (64, header.payloadOffset), (72, header.payloadBytes), (80, header.writerGrid.length),
      (88, 0)] = placed magic.length (prefixWords incompleteMarker header) := by
    rw [hbuffer]
    rfl
  have hprefix : (magic ++ leString 8 (prefixWords incompleteMarker header)).length
      = headerPrefixBytes := by
    rw [List.length_append, length_leString]
    rfl
  have hfixed : (placed magic.length (prefixWords incompleteMarker header)).foldlM putAt
      (magic ++ buffer.drop 8)
        = (.ok (magic ++ leString 8 (prefixWords incompleteMarker header)
          ++ (buffer.drop 8).drop (8 * (prefixWords incompleteMarker header).length)) :
          Except (Stop IoError) (List Byte)) := by
    refine foldlM_putAt (prefixWords incompleteMarker header) magic ?_
    rw [List.length_drop, hlen]
    show 8 * 11 ≤ _
    omega
  have harrays : (arrayWords header).foldlM putNext
      (magic ++ leString 8 (prefixWords incompleteMarker header)
        ++ (buffer.drop 8).drop (8 * (prefixWords incompleteMarker header).length),
        headerPrefixBytes)
        = (.ok (headerImage incompleteMarker header,
            headerPrefixBytes + 8 * (arrayWords header).length) :
          Except (Stop IoError) (List Byte × ℕ)) := by
    have hroom : ((buffer.drop 8).drop (8 * (prefixWords incompleteMarker header).length)).length
        = 8 * (arrayWords header).length := by
      rw [List.length_drop, List.length_drop, hlen]
      show 8 + 8 * (11 + _) - 8 - 8 * 11 = _
      omega
    rw [foldlM_putNext, ← hprefix, foldlM_putAt _ _ hroom.ge, List.drop_eq_nil_of_le hroom.le,
      List.append_nil]
    unfold headerImage
    rw [List.append_assoc, ← leString_append]
    rfl
  have hend : headerPrefixBytes + 8 * (arrayWords header).length
      = (headerImage incompleteMarker header).length := by
    unfold headerImage headerPrefixBytes
    rw [List.length_append, length_leString, List.length_append]
    simp only [magic, prefixWords, List.length_cons, List.length_nil]
    ring
  unfold MpiIo.Header.encodeInto
  simp only [hfields]
  refine bind_eq_ok.mpr ⟨_, hmagic, bind_eq_ok.mpr ⟨_, hfixed, bind_eq_ok.mpr ⟨_, harrays,
    bind_eq_ok.mpr ⟨(), ?_, rfl⟩⟩⟩⟩
  rw [ensure_eq_ok, decide_eq_true_eq]
  exact hend

/-- **The writer** leaves the image of its header, under the incomplete marker. -/
theorem encodeInto_eq {header : MpiIo.Header}
    (hbytes : header.bytes = List.replicate (headerLenOf header) 0)
    (hglobal : header.global.length = header.n)
    (hpermutation : header.writerPermutation.length = header.n) :
    header.encodeInto = .ok { header with bytes := headerImage incompleteMarker header } := by
  have hbuffer : header.bytes.length = headerLenOf header := by
    rw [hbytes, List.length_replicate]
  exact encodeInto_over hbuffer hglobal hpermutation

/-- **Committing** replaces the marker and nothing else. -/
theorem commit_headerImage (header : MpiIo.Header) :
    commit (headerImage incompleteMarker header) = headerImage commitMarker header := by
  have hsplit : ∀ marker, headerImage marker header
      = (magic ++ leString 8 [formatVersion, headerLenOf header]) ++ leBytes 8 marker
        ++ leString 8 ((prefixWords marker header).drop 3 ++ arrayWords header) := by
    intro marker
    unfold headerImage prefixWords
    simp only [List.cons_append, leString_cons, leString_nil, List.drop_succ_cons, List.drop_zero,
      List.append_assoc, List.append_nil]
  have hfront : (magic ++ leString 8 [formatVersion, headerLenOf header]).length
      = commitOffset := by
    rw [List.length_append, length_leString]
    rfl
  unfold commit
  rw [hsplit incompleteMarker, hsplit commitMarker, ← hfront, splice_append (by simp)]
  rfl

/-! ## What is described -/

/-- The header of a view, with its bytes left open. -/
def describe (view : PencilArrayView scalar.Value N M) (bytes : List Byte) : MpiIo.Header where
  bytes
  n := N
  typeCode := scalar.code
  width := scalar.width
  extra := view.extraShape.dimensions
  global := List.ofFn view.pencil.globalShape
  writerGrid := List.ofFn view.pencil.topology.processGrid
  writerPermutation := List.ofFn fun position =>
    (view.pencil.permutation.axesInMemoryOrder position : ℕ)
  payloadOffset := headerPrefixBytes + (N + view.extraShape.dimensions.length + M + N) * 8
  payloadBytes := (List.ofFn view.pencil.globalShape).prod * view.extraShape.dimensions.prod
    * scalar.width

theorem headerLenOf_describe (view : PencilArrayView scalar.Value N M) (bytes : List Byte) :
    headerLenOf (describe view bytes)
      = headerPrefixBytes + (N + view.extraShape.dimensions.length + M + N) * 8 := by
  unfold headerLenOf describe
  rw [List.length_ofFn, Nat.mul_comm]

/-- Where the writer has a header for a view. -/
structure Writable (view : PencilArrayView scalar.Value N M) : Prop where
  extra_fits : leadingProd view.extraShape.dimensions < usizeLimit
  payload_lt : (describe view []).payloadBytes < usizeLimit
  elements_lt : (List.ofFn view.pencil.globalShape).prod * view.extraShape.dimensions.prod
    < usizeLimit
  length_le : (describe view []).payloadOffset ≤ maxHeaderBytes
  file_lt : (describe view []).payloadOffset + (describe view []).payloadBytes < usizeLimit

theorem leadingProd_globalShape (p : Pencil N M) :
    leadingProd (List.ofFn p.globalShape) = (List.ofFn p.globalShape).prod := by
  refine leadingProd_of_pos fun extent hextent => ?_
  obtain ⟨axis, rfl⟩ := (List.mem_ofFn' _ _).mp hextent
  exact (p.extents_pos axis).ne'

theorem leadingProd_processGrid_lt (topology : MpiTopology M) :
    leadingProd (List.ofFn topology.processGrid) < usizeLimit := by
  have hle := topology.size_le
  have hlimit : countMax < usizeLimit := by decide
  rw [leadingProd_of_pos fun extent hextent => ?_, List.prod_ofFn]
  · omega
  · obtain ⟨axis, rfl⟩ := (List.mem_ofFn' _ _).mp hextent
    exact (topology.extents_pos axis).ne'

theorem forWrite_eq_ok {alloc : HeaderAllocator} {view : PencilArrayView scalar.Value N M}
    {header : MpiIo.Header} :
    MpiIo.Header.forWrite alloc view = .ok header ↔
      alloc.Grants ∧ Writable view ∧
        header = describe view (headerImage incompleteMarker (describe view [])) := by
  have hencode : ∀ len, len = headerLenOf (describe view []) →
      MpiIo.Header.encodeInto (describe view (List.replicate len 0))
        = .ok (describe view (headerImage incompleteMarker (describe view []))) := by
    rintro _ rfl
    exact encodeInto_eq rfl (List.length_ofFn) (List.length_ofFn)
  have hglobal : leadingProd (List.ofFn view.pencil.globalShape) < usizeLimit := by
    rw [leadingProd_globalShape]
    exact (checkedProduct_eq_ok.mp view.pencil.globalLen_ok).2
  unfold MpiIo.Header.forWrite tryU64Values
  constructor
  · intro h
    obtain ⟨_, hspatial, h⟩ := bind_eq_ok.mp h
    obtain ⟨_, hextra, h⟩ := bind_eq_ok.mp h
    obtain ⟨rfl, _⟩ := elementCount_eq_ok.mp (mapError_eq_ok.mp hspatial)
    obtain ⟨rfl, hextraFits⟩ := elementCount_eq_ok.mp (mapError_eq_ok.mp hextra)
    obtain ⟨_, helements, h⟩ := bind_eq_ok.mp h
    obtain ⟨helementsFit, rfl⟩ := checkedMul_eq_some.mp (okOr_eq_ok.mp helements)
    obtain ⟨_, hpayload, h⟩ := bind_eq_ok.mp h
    obtain ⟨hpayloadFits, rfl⟩ := checkedMul_eq_some.mp (okOr_eq_ok.mp hpayload)
    obtain ⟨_, hcount, h⟩ := bind_eq_ok.mp h
    obtain ⟨_, hcount₁, hcount⟩ := Option.bind_eq_some_iff.mp (okOr_eq_ok.mp hcount)
    obtain ⟨_, hcount₂, hcount⟩ := Option.bind_eq_some_iff.mp hcount
    obtain ⟨_, rfl⟩ := checkedAdd_eq_some.mp hcount₁
    obtain ⟨_, rfl⟩ := checkedAdd_eq_some.mp hcount₂
    obtain ⟨_, rfl⟩ := checkedAdd_eq_some.mp hcount
    obtain ⟨_, hbytes, h⟩ := bind_eq_ok.mp h
    obtain ⟨_, rfl⟩ := checkedMul_eq_some.mp (okOr_eq_ok.mp hbytes)
    obtain ⟨_, hlen, h⟩ := bind_eq_ok.mp h
    obtain ⟨_, rfl⟩ := checkedAdd_eq_some.mp (okOr_eq_ok.mp hlen)
    obtain ⟨_, hmax, h⟩ := bind_eq_ok.mp h
    obtain ⟨_, hfile, h⟩ := bind_eq_ok.mp h
    obtain ⟨hfileFits, rfl⟩ := checkedAdd_eq_some.mp (okOr_eq_ok.mp hfile)
    obtain ⟨_, hextraValues, h⟩ := bind_eq_ok.mp h
    obtain ⟨_, hextraGrant, hextraValues⟩ := bind_eq_ok.mp hextraValues
    obtain ⟨_, hglobalValues, h⟩ := bind_eq_ok.mp h
    obtain ⟨_, hglobalGrant, hglobalValues⟩ := bind_eq_ok.mp hglobalValues
    obtain ⟨_, hgridValues, h⟩ := bind_eq_ok.mp h
    obtain ⟨_, hgridGrant, hgridValues⟩ := bind_eq_ok.mp hgridValues
    obtain ⟨_, hpermutationValues, h⟩ := bind_eq_ok.mp h
    obtain ⟨_, hpermutationGrant, hpermutationValues⟩ := bind_eq_ok.mp hpermutationValues
    obtain ⟨_, hbytesGrant, h⟩ := bind_eq_ok.mp h
    cases hextraValues
    cases hglobalValues
    cases hgridValues
    cases hpermutationValues
    refine ⟨⟨ensure_eq_ok.mp hglobalGrant, ensure_eq_ok.mp hextraGrant, ensure_eq_ok.mp hgridGrant,
      ensure_eq_ok.mp hpermutationGrant, ensure_eq_ok.mp hbytesGrant⟩,
      ⟨hextraFits, hpayloadFits, helementsFit, of_decide_eq_true (ensure_eq_ok.mp hmax), hfileFits⟩, ?_⟩
    exact (Except.ok.inj ((hencode _ (headerLenOf_describe view []).symm).symm.trans h)).symm
  · rintro ⟨⟨hglobalGrant, hextraGrant, hgridGrant, hpermutationGrant, hbytesGrant⟩, hwritable, rfl⟩
    have hmax := hwritable.length_le
    have hfile := hwritable.file_lt
    have hlimit : maxHeaderBytes < usizeLimit := by decide
    have hlen : (describe view []).payloadOffset
        = headerPrefixBytes + (N + view.extraShape.dimensions.length + M + N) * 8 := rfl
    have hspatial : Model.elementCount (List.ofFn view.pencil.globalShape) = .ok _ :=
      elementCount_eq_ok.mpr ⟨rfl, hglobal⟩
    have hextra : Model.elementCount view.extraShape.dimensions = .ok _ :=
      elementCount_eq_ok.mpr ⟨rfl, hwritable.extra_fits⟩
    have hcount : (do
        let count ← checkedAdd N view.extraShape.dimensions.length
        let count ← checkedAdd count M
        checkedAdd count N) = some (N + view.extraShape.dimensions.length + M + N) := by
      refine Option.bind_eq_some_iff.mpr ⟨_, checkedAdd_eq_some.mpr ⟨by omega, rfl⟩,
        Option.bind_eq_some_iff.mpr ⟨_, checkedAdd_eq_some.mpr ⟨by omega, rfl⟩,
        checkedAdd_eq_some.mpr ⟨by omega, rfl⟩⟩⟩
    have hvalues : ∀ (values : List ℕ), (do
        ensure true (.error (.allocationFailed (values.length * 8)))
        return values : Except (Stop IoError) (List ℕ)) = .ok values := fun _ => rfl
    rw [hextraGrant, hglobalGrant, hgridGrant, hpermutationGrant, hbytesGrant]
    refine bind_eq_ok.mpr ⟨_, mapError_eq_ok.mpr hspatial, bind_eq_ok.mpr ⟨_,
      mapError_eq_ok.mpr hextra, bind_eq_ok.mpr ⟨_, okOr_eq_ok.mpr (checkedMul_eq_some.mpr
        ⟨hwritable.elements_lt, rfl⟩), bind_eq_ok.mpr ⟨_, okOr_eq_ok.mpr (checkedMul_eq_some.mpr
        ⟨hwritable.payload_lt, rfl⟩), bind_eq_ok.mpr ⟨_, okOr_eq_ok.mpr hcount, bind_eq_ok.mpr ⟨_,
        okOr_eq_ok.mpr (checkedMul_eq_some.mpr ⟨by omega, rfl⟩), bind_eq_ok.mpr ⟨_,
        okOr_eq_ok.mpr (checkedAdd_eq_some.mpr ⟨by omega, rfl⟩), bind_eq_ok.mpr ⟨(),
        ensure_eq_ok.mpr (decide_eq_true hmax), bind_eq_ok.mpr ⟨_,
        okOr_eq_ok.mpr (checkedAdd_eq_some.mpr ⟨hfile, rfl⟩), bind_eq_ok.mpr ⟨_, hvalues _,
        bind_eq_ok.mpr ⟨_, hvalues _, bind_eq_ok.mpr ⟨_, hvalues _, bind_eq_ok.mpr ⟨_, hvalues _,
        bind_eq_ok.mpr ⟨(), rfl, ?_⟩⟩⟩⟩⟩⟩⟩⟩⟩⟩⟩⟩⟩⟩
    exact hencode _ (headerLenOf_describe view []).symm

end PencilRs.Analysis
