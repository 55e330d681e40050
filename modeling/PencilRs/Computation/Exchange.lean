import PencilRs.Computation.Buffer
import PencilRs.Computation.Tiling

/-!
# The exchange of segments

Each of `n` parties cuts a send buffer and a receive buffer into one segment per party.
The exchange stores segment `j` of party `i` in the slot party `j` reserved for `i`; it
fails where a segment leaves its buffer or does not have the length of its slot.
-/

set_option autoImplicit false

namespace PencilRs.Computation

/-- A buffer with the count and displacement of its segment for each party. -/
structure Partition (α : Type) where
  buffer : List α
  counts : List ℕ
  displacements : List ℕ

namespace Partition

variable {α : Type}

/-- The segment for party `k`. -/
def segment (p : Partition α) (k : ℕ) : Option (List α) := do
  let count ← p.counts[k]?
  let displacement ← p.displacements[k]?
  slice? p.buffer displacement (displacement + count)

/-- Party `k`'s segment is `length` elements from `offset` on. -/
structure HasSegment (p : Partition α) (k offset length : ℕ) : Prop where
  count : p.counts[k]? = some length
  displacement : p.displacements[k]? = some offset
  fits : offset + length ≤ p.buffer.length

theorem HasSegment.segment_eq {p : Partition α} {k offset length : ℕ}
    (h : p.HasSegment k offset length) :
    p.segment k = some ((p.buffer.drop offset).take (offset + length - offset)) := by
  unfold segment
  rw [h.count, h.displacement]
  exact slice?_eq (Nat.le_add_right _ _) h.fits

end Partition

variable {α : Type} {n : ℕ}

/-- What party `me` finds in its receive buffer after the exchange. -/
def exchange (senders : Fin n → Partition α) (receiver : Partition α) (me : ℕ) :
    Option (Buf α) :=
  (List.finRange n).foldlM (fun buf (i : Fin n) => do
    let count ← receiver.counts[(i : ℕ)]?
    let displacement ← receiver.displacements[(i : ℕ)]?
    let segment ← (senders i).segment me
    if segment.length ≠ count then none
    buf.copyFromSlice displacement (displacement + count) 0 segment) (Buf.fresh receiver.buffer)

/-- Moves of the exchange: to a position of the receive buffer, from a position of a
party's send buffer. -/
def exchangeMoves (sendOffset receiveOffset length : Fin n → ℕ) : List (ℕ × Fin n × ℕ) :=
  (List.finRange n).flatMap fun i =>
    (List.range (length i)).map fun t => (receiveOffset i + t, i, sendOffset i + t)

section Matching

variable {senders : Fin n → Partition α} {receiver : Partition α} {me : ℕ}
  {sendOffset receiveOffset length : Fin n → ℕ}

theorem exchange_eq (hsend : ∀ i, (senders i).HasSegment me (sendOffset i) (length i))
    (hreceive : ∀ i : Fin n, receiver.HasSegment i (receiveOffset i) (length i)) :
    exchange senders receiver me
      = Buf.moveAll (fun m : Fin n × ℕ => (senders m.1).buffer[m.2]?) (Buf.fresh receiver.buffer)
          (exchangeMoves sendOffset receiveOffset length) := by
  unfold exchange exchangeMoves
  refine Buf.foldlM_moveAll (n := receiver.buffer.length) _ _ _ ?_ _ rfl
  intro i _ b hb
  have hfit := (hreceive i).fits
  have hlen : (((senders i).buffer.drop (sendOffset i)).take
      (sendOffset i + length i - sendOffset i)).length = length i :=
    length_take_drop (hsend i).fits
  simp only [(hreceive i).count, (hreceive i).displacement, (hsend i).segment_eq,
    Option.bind_eq_bind, Option.bind_some]
  rw [if_neg (by rw [hlen]; simp), Buf.copyFromSlice_eq (by rw [hlen]; omega) (by omega),
    Buf.moveAll_map_place (g := fun m : Fin n × ℕ => (senders m.1).buffer[m.2]?)
      (fun t => (i, sendOffset i + t)), hlen, List.map_map]
  · simp only [Function.comp_def, Nat.add_zero]
  · intro m hm
    obtain ⟨t, ht, rfl⟩ := List.mem_map.mp hm
    have hlt : t < length i := by
      rw [← hlen]
      exact List.mem_range.mp ht
    simp only
    rw [List.getElem?_take_of_lt (by omega), List.getElem?_drop]

theorem map_fst_exchangeMoves :
    (exchangeMoves sendOffset receiveOffset length).map Prod.fst
      = ((List.finRange n).map fun i => (receiveOffset i, length i)).flatMap
          segmentPositions := by
  rw [exchangeMoves, List.map_flatMap, List.flatMap_map]
  simp only [segmentPositions, List.map_map]
  rfl

theorem exchange_isSome (hsend : ∀ i, (senders i).HasSegment me (sendOffset i) (length i))
    (hreceive : ∀ i : Fin n, receiver.HasSegment i (receiveOffset i) (length i)) :
    ∃ b, exchange senders receiver me = some b := by
  rw [exchange_eq hsend hreceive]
  apply Buf.moveAll_isSome
  intro m hm
  obtain ⟨i, _, hm⟩ := List.mem_flatMap.mp hm
  obtain ⟨t, ht, rfl⟩ := List.mem_map.mp hm
  have hlt := List.mem_range.mp ht
  have hfit := (hsend i).fits
  simp only
  rw [List.getElem?_eq_getElem (by omega)]
  rfl

/-- **What arrives.**  Where the slots tile, each slot holds the segment sent to it. -/
theorem exchange_cells {stop : ℕ} {b : Buf α}
    (hsend : ∀ i, (senders i).HasSegment me (sendOffset i) (length i))
    (hreceive : ∀ i : Fin n, receiver.HasSegment i (receiveOffset i) (length i))
    (htiles : Tiles 0 ((List.finRange n).map fun i => (receiveOffset i, length i)) stop)
    (h : exchange senders receiver me = some b) :
    b.cells.length = receiver.buffer.length ∧
      ∀ (i : Fin n), ∀ t < length i,
        b.cells[receiveOffset i + t]? = (senders i).buffer[sendOffset i + t]? := by
  rw [exchange_eq hsend hreceive] at h
  refine ⟨Buf.length_moveAll h, ?_⟩
  intro i t ht
  have hnodup : ((exchangeMoves sendOffset receiveOffset length).map Prod.fst).Nodup := by
    rw [map_fst_exchangeMoves, htiles.positions, segmentPositions]
    exact List.nodup_range.map fun a b hab => Nat.add_left_cancel hab
  have hfit := (hreceive i).fits
  refine Buf.cells_moveAll_of_mem (r := (i, sendOffset i + t)) h hnodup
    (by simp only [Buf.fresh]; omega) ?_
  refine List.mem_flatMap.mpr ⟨i, List.mem_finRange i, ?_⟩
  exact List.mem_map.mpr ⟨t, List.mem_range.mpr ht, rfl⟩

end Matching

end PencilRs.Computation
