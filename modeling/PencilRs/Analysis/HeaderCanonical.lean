import PencilRs.Analysis.HeaderWrite
import PencilRs.Model.HeaderAccess

/-!
# Decoding is total and canonical

No access of the reader leaves its array, and every byte of an accepted header is settled by the
fields that are read from it.
-/

set_option autoImplicit false

namespace PencilRs.Analysis

open PencilRs.Computation PencilRs.Model PencilRs.Model.MpiIo

variable {alloc : HeaderAllocator} {bytes front : List Byte} {ε ε' β γ : Type}

/-! ## Every access is inside -/

theorem mapError_bind (result : Except ε β) (next : β → Except ε γ) (f : ε → ε') :
    (result >>= next).mapError f = result.mapError f >>= fun value => (next value).mapError f := by
  cases result <;> rfl

theorem ok_bind (value : β) (next : β → Except ε γ) : (Except.ok value >>= next) = next value := rfl

theorem mapError_mapError {ε'' : Type} (result : Except ε β) (f : ε → ε') (g : ε' → ε'') :
    (result.mapError f).mapError g = result.mapError fun e => g (f e) := by
  cases result <;> rfl

theorem mapError_ensure (check : Bool) (error : ε) (f : ε → ε') :
    (ensure check error).mapError f = ensure check (f error) := by
  cases check <;> rfl

theorem sliceAt_eq {start stop : ℕ} {items : List β} (h : start ≤ stop)
    (hstop : stop ≤ items.length) :
    sliceAt items start stop = (.ok ((items.drop start).take (stop - start)) :
      Except (Stop ε) (List β)) := by
  unfold sliceAt
  rw [slice?_eq h hstop]
  rfl

theorem getU64At_eq {offset : ℕ} (h : offset + 8 ≤ bytes.length)
    (hfit : bytes.length < usizeLimit) :
    getU64At bytes offset = (.ok (getU64 bytes offset) : Except (Stop ε) ℕ) := by
  have hadd : checkedAdd offset 8 = some (offset + 8) := checkedAdd_eq_some.mpr ⟨by omega, rfl⟩
  have hwidth : offset + 8 - offset = 8 := by omega
  have hlen : ((bytes.drop offset).take 8).length = 8 := by
    rw [List.length_take, List.length_drop]
    omega
  unfold getU64At
  rw [hadd]
  refine bind_eq_ok.mpr ⟨_, rfl, bind_eq_ok.mpr ⟨_, sliceAt_eq (by omega) h,
    bind_eq_ok.mpr ⟨(), ?_, ?_⟩⟩⟩
  · rw [ensure_eq_ok, decide_eq_true_eq, hwidth]
    exact hlen
  · rw [hwidth]
    rfl

section Front

variable (hfront : front.length = headerPrefixBytes)

include hfront

theorem getU64At_front {offset : ℕ} (h : offset + 8 ≤ headerPrefixBytes) :
    getU64At front offset = (.ok (getU64 front offset) : Except (Stop ε) ℕ) := by
  refine getU64At_eq (by omega) ?_
  rw [hfront]
  decide

theorem fieldsReadAt_eq :
    V1Fields.readAt front = (.ok (V1Fields.read front) : Except (Stop ε) V1Fields) := by
  have hfield := fun offset (h : offset + 8 ≤ headerPrefixBytes) =>
    @getU64At_front front ε hfront offset h
  unfold V1Fields.readAt
  rw [hfield 16 (by decide), hfield 32 (by decide), hfield 40 (by decide), hfield 48 (by decide),
    hfield 56 (by decide), hfield 64 (by decide), hfield 72 (by decide), hfield 80 (by decide)]
  rfl

theorem checkIdentityAt_eq :
    V1Fields.checkIdentityAt front = (V1Fields.checkIdentity front).mapError .error := by
  have hstart : sliceAt front 0 8
      = (.ok (front.take 8) : Except (Stop V1HeaderDefect) (List Byte)) := by
    refine sliceAt_eq (by omega) ?_
    rw [hfront]
    decide
  unfold V1Fields.checkIdentityAt V1Fields.checkIdentity
  rw [hstart, getU64At_front hfront (by decide), getU64At_front hfront (by decide)]
  simp only [mapError_bind, mapError_ensure, ok_bind]
  split_ifs <;> rfl

theorem checkReservedAt_eq :
    V1Fields.checkReservedAt front = (V1Fields.checkReserved front).mapError .error := by
  unfold V1Fields.checkReservedAt V1Fields.checkReserved
  rw [getU64At_front hfront (by decide), mapError_ensure]
  rfl

theorem parsePrefixAt_eq :
    MpiIo.Header.parsePrefixAt front = (MpiIo.Header.parsePrefix front).mapError .error := by
  unfold MpiIo.Header.parsePrefixAt MpiIo.Header.parsePrefix
  rw [fieldsReadAt_eq hfront, checkIdentityAt_eq hfront]
  simp only [mapError_bind, mapError_ensure, ok_bind, mapError_mapError]
  rfl

end Front

/-- The table of the loop says of each axis whether it was seen. -/
def Seen (n : ℕ) (table : List Bool) (seen : ℕ → Bool) : Prop :=
  table.length = n ∧ ∀ axis < n, table[axis]? = some (seen axis)

theorem foldlM_markSeen_none (n : ℕ) (values : List ℕ) :
    values.foldlM (markSeen n) none = (.ok none : Except (Stop ε) (Option (List Bool))) := by
  induction values with
  | nil => rfl
  | cons value values ih =>
    rw [List.foldlM_cons]
    exact ih

/-- The loop of `is_permutation` is the loop that looks for axes that occur twice. -/
theorem foldlM_markSeen {n : ℕ} (values : List ℕ) {table : List Bool} {seen : ℕ → Bool}
    (h : Seen n table seen) : ∃ result,
      values.foldlM (markSeen n) (some table)
        = (.ok result : Except (Stop ε) (Option (List Bool))) ∧
      result.isSome = (values.foldlM (markAxis n) seen).isOk := by
  induction values generalizing table seen with
  | nil => exact ⟨some table, rfl, rfl⟩
  | cons value values ih =>
    rw [List.foldlM_cons, List.foldlM_cons]
    by_cases hout : value ≥ n
    · refine ⟨none, ?_, ?_⟩
      · simp only [markSeen, if_pos hout]
        exact foldlM_markSeen_none n values
      · simp [markAxis, hout, bind, Except.bind, Except.isOk, Except.toBool]
    · have hmarked := h.2 value (by omega)
      cases hseen : seen value with
      | true =>
        refine ⟨none, ?_, ?_⟩
        · simp only [markSeen, if_neg hout, hmarked, hseen]
          exact foldlM_markSeen_none n values
        · simp [markAxis, hout, hseen, bind, Except.bind, Except.isOk, Except.toBool]
      | false =>
        have hnext : Seen n (table.set value true) (Function.update seen value true) := by
          refine ⟨(List.length_set ..).trans h.1, fun axis haxis => ?_⟩
          by_cases heq : axis = value
          · subst heq
            rw [Function.update_self, List.getElem?_set_self (by rw [h.1]; exact haxis)]
          · rw [Function.update_of_ne heq, List.getElem?_set_ne fun h => heq h.symm,
              h.2 axis haxis]
        obtain ⟨result, hresult, hok⟩ := ih hnext
        refine ⟨result, ?_, ?_⟩
        · simp only [markSeen, if_neg hout, hmarked, hseen]
          exact hresult
        · simp only [markAxis, if_neg hout, hseen]
          exact hok

theorem isPermutationAt_eq (values : List ℕ) (n : ℕ) :
    isPermutationAt values n = (.ok (isPermutation values n) : Except (Stop ε) Bool) := by
  unfold isPermutationAt isPermutation
  by_cases hlen : values.length = n
  · rw [if_neg (not_not.mpr hlen)]
    by_cases hn : n ≤ maxProtocolRank
    · have htable : slice? (List.replicate maxProtocolRank false) 0 n
          = some (List.replicate n false) := by
        rw [slice?_eq (Nat.zero_le n) (by rwa [List.length_replicate]), List.drop_zero,
          Nat.sub_zero, List.take_replicate, Nat.min_eq_left hn]
      have hseen : Seen n (List.replicate n false) fun _ => false := by
        refine ⟨List.length_replicate, fun axis haxis => ?_⟩
        rw [List.getElem?_replicate, if_pos haxis]
      obtain ⟨result, hresult, hok⟩ := @foldlM_markSeen ε n values _ _ hseen
      rw [htable]
      simp only [hresult, ok_bind, hok, hlen, hn]
      rfl
    · have htable : slice? (List.replicate maxProtocolRank false) 0 n = none := by
        unfold slice?
        rw [if_neg (by rw [List.length_replicate]; omega)]
      rw [htable]
      simp [hn]
  · rw [if_pos hlen]
    simp [hlen]

/-- **Decoding is total**: no access leaves its array, and no sum leaves the machine word. -/
theorem headerDecodeAt_eq (alloc : HeaderAllocator) (bytes : List Byte) :
    MpiIo.Header.decodeAt alloc bytes = (MpiIo.Header.decode alloc bytes).mapError .error := by
  unfold MpiIo.Header.decodeAt MpiIo.Header.decode
  by_cases hsize : headerPrefixBytes ≤ bytes.length ∧ bytes.length ≤ maxHeaderBytes
  · have hfront : (bytes.take headerPrefixBytes).length = headerPrefixBytes :=
      List.length_take_of_le hsize.1
    have hslice : sliceAt bytes 0 headerPrefixBytes
        = (.ok (bytes.take headerPrefixBytes) : Except (Stop IoError) (List Byte)) :=
      sliceAt_eq (Nat.zero_le _) hsize.1
    have hrest : sliceAt bytes headerPrefixBytes bytes.length
        = (.ok (bytes.drop headerPrefixBytes) : Except (Stop IoError) (List Byte)) := by
      rw [sliceAt_eq hsize.1 le_rfl, List.take_of_length_le (List.length_drop).le]
    rw [hslice, hrest]
    simp only [ok_bind, parsePrefixAt_eq hfront, checkReservedAt_eq hfront, isPermutationAt_eq,
      mapError_bind, mapError_ensure, mapError_mapError, hfront, decide_true]
    rfl
  · have hcheck : (decide (headerPrefixBytes ≤ bytes.length)
        && decide (bytes.length ≤ maxHeaderBytes)) = false := by
      rw [Bool.and_eq_false_iff, decide_eq_false_iff_not, decide_eq_false_iff_not]
      exact not_and_or.mp hsize
    rw [hcheck]
    rfl

/-! ## Every byte is settled -/

/-- What is read from a header, its bytes apart. -/
def SameFields (header header' : MpiIo.Header) : Prop :=
  { header with bytes := header'.bytes } = header'

/-- The numbers of a list that passes the scan are those of a permutation. -/
theorem exists_perm_of_isPermutation {values : List ℕ} {n : ℕ} (h : isPermutation values n = true) :
    ∃ σ : Equiv.Perm (Fin n), values = List.ofFn fun position => (σ position : ℕ) := by
  unfold isPermutation at h
  rw [Bool.and_eq_true, Bool.and_eq_true, decide_eq_true_eq, decide_eq_true_eq] at h
  obtain ⟨⟨hlen, _⟩, hdistinct⟩ := h
  subst hlen
  cases hscan : checkDistinct values.length values with
  | error e =>
    rw [hscan] at hdistinct
    contradiction
  | ok seen =>
    obtain ⟨hlt, hnodup⟩ := checkDistinct_ok hscan
    let image : Fin values.length → Fin values.length := fun position =>
      ⟨values.get position, hlt _ (List.get_mem ..)⟩
    have hinjective : Function.Injective image := by
      intro a b hab
      exact List.nodup_iff_injective_get.mp hnodup (congrArg Fin.val hab)
    refine ⟨Equiv.ofBijective image (Finite.injective_iff_bijective.mp hinjective), ?_⟩
    exact (List.ofFn_get values).symm

/-- An accepted header is encoded to its bytes again. -/
theorem decoded_encodes_again {header : MpiIo.Header}
    (h : MpiIo.Header.decode alloc bytes = .ok header) {buffer : List Byte}
    (hbuffer : buffer.length = bytes.length) : ∃ encoded,
      MpiIo.Header.encodeInto { header with bytes := buffer } = .ok encoded ∧
        commit encoded.bytes = bytes := by
  obtain ⟨_, _, hvalid, himage⟩ := decode_eq_ok.mp h
  have hlen : buffer.length = headerLenOf header := by
    rw [hbuffer, himage, length_headerImage hvalid]
  refine ⟨_, encodeInto_over hlen hvalid.global_length hvalid.permutation_length, ?_⟩
  rw [himage]
  exact commit_headerImage header

/-- **Decoding is total and canonical.** -/
theorem header_decoding_canonical :
    (∀ (alloc : HeaderAllocator) (bytes : List Byte),
      MpiIo.Header.decodeAt alloc bytes = (MpiIo.Header.decode alloc bytes).mapError .error) ∧
    (∀ (alloc : HeaderAllocator) (bytes : List Byte) (header : MpiIo.Header),
      MpiIo.Header.decode alloc bytes = .ok header →
        (∀ buffer : List Byte, buffer.length = bytes.length → ∃ encoded,
          MpiIo.Header.encodeInto { header with bytes := buffer } = .ok encoded ∧
            commit encoded.bytes = bytes) ∧
        ∃ σ : Equiv.Perm (Fin header.n),
          header.writerPermutation = List.ofFn fun position => (σ position : ℕ)) ∧
    (∀ (alloc alloc' : HeaderAllocator) (bytes bytes' : List Byte) (header header' : MpiIo.Header),
      MpiIo.Header.decode alloc bytes = .ok header →
      MpiIo.Header.decode alloc' bytes' = .ok header' → SameFields header header' →
        bytes = bytes') := by
  refine ⟨headerDecodeAt_eq, ?_, ?_⟩
  · intro alloc bytes header h
    have hvalid := (decode_eq_ok.mp h).2.2.1
    exact ⟨fun buffer hbuffer => decoded_encodes_again h hbuffer,
      exists_perm_of_isPermutation hvalid.permutation⟩
  · intro alloc alloc' bytes bytes' header header' h h' hsame
    obtain ⟨_, _, _, himage⟩ := decode_eq_ok.mp h
    obtain ⟨_, _, _, himage'⟩ := decode_eq_ok.mp h'
    unfold SameFields at hsame
    rw [himage, himage', ← hsame]
    rfl

end PencilRs.Analysis
