import PencilRs.Analysis.ContainerAppend

/-!
# Records put one behind another

A container that was only ever appended to is its header and the bytes of its records.  The scan
lists them in the order they were written, each with the place of its payload.
-/

set_option autoImplicit false

namespace PencilRs.Analysis

open PencilRs.Computation PencilRs.Model NamedMpi

/-- What is in a record. -/
structure LogEntry where
  subject : Subject
  payload : List Byte

/-- The records of these entries, where the first of them starts at `offset`. -/
def recordsAt (offset : ℕ) : List LogEntry → List Rec
  | [] => []
  | entry :: rest => recordOf entry.subject offset ::
      recordsAt (offset + recordLen (recordOf entry.subject offset) entry.payload.length) rest

/-- An image that was made by appending these entries. -/
inductive Log : List LogEntry → List Byte → Prop
  | empty : Log [] containerHeader
  | append {entries : List LogEntry} {image : List Byte} {entry : LogEntry} {alloc : HeadAllocator}
      {head : List Byte} {stop : ℕ} (before : Log entries image)
      (made : record alloc entry.subject image.length = .ok (head, stop))
      (whole : (written head entry.payload).length = stop - image.length)
      (new : entry.subject.name ∉ entries.map fun entry => entry.subject.name) :
      Log (entries ++ [entry]) (image ++ written head entry.payload)

section Records

variable {entries : List LogEntry} {entry : LogEntry} {offset : ℕ}

/-- Where the records of these entries end. -/
def endOf (offset : ℕ) : List LogEntry → ℕ
  | [] => offset
  | entry :: rest =>
      endOf (offset + recordLen (recordOf entry.subject offset) entry.payload.length) rest

theorem recordsAt_append (entries : List LogEntry) (entry : LogEntry) (offset : ℕ) :
    recordsAt offset (entries ++ [entry])
      = recordsAt offset entries ++ [recordOf entry.subject (endOf offset entries)] := by
  induction entries generalizing offset with
  | nil => rfl
  | cons first rest ih =>
    rw [List.cons_append, recordsAt, ih, recordsAt, List.cons_append, endOf]

theorem endOf_append (entries : List LogEntry) (entry : LogEntry) (offset : ℕ) :
    endOf offset (entries ++ [entry]) = endOf offset entries
      + recordLen (recordOf entry.subject (endOf offset entries)) entry.payload.length := by
  induction entries generalizing offset with
  | nil => rfl
  | cons first rest ih => rw [List.cons_append, endOf, ih, endOf]

theorem names_recordsAt (entries : List LogEntry) (offset : ℕ) :
    (recordsAt offset entries).map Rec.name = entries.map fun entry => entry.subject.name := by
  induction entries generalizing offset with
  | nil => rfl
  | cons first rest ih =>
    rw [recordsAt, List.map_cons, ih, List.map_cons]
    rfl

end Records

section Log

variable {entries : List LogEntry} {image : List Byte}

/-- The header of the next record, with its payload. -/
theorem headOf_of_record {subject : Subject} {payload head : List Byte} {alloc : HeadAllocator}
    {stop : ℕ} (made : record alloc subject image.length = .ok (head, stop))
    (whole : (written head payload).length = stop - image.length) :
    HeadOf subject image.length payload.length head stop := by
  obtain ⟨count, _, hhead⟩ := record_eq_ok made
  have hlen : head.length = recordHeaderBytes + subject.name.length
      + (16 + 8 * (subject.global ++ subject.extra).length) := by
    rw [hhead.head_eq, length_headBytes]
    rfl
  have hstop := hhead.stop_eq
  rw [recordLen_recordOf] at hstop
  unfold written at whole
  rw [List.length_append, List.length_append, length_leBytes] at whole
  obtain rfl : payload.length = count := by omega
  exact hhead

theorem Log.length_eq (h : Log entries image) : image.length = endOf containerBytes entries := by
  induction h with
  | empty => rfl
  | append before made whole new ih =>
    have hhead := headOf_of_record made whole
    rw [List.length_append, hhead.length_written, hhead.stop_eq, endOf_append, ih]

theorem Log.header_le (h : Log entries image) : containerBytes ≤ image.length := by
  induction h with
  | empty => exact length_containerHeader.ge
  | append before made whole new ih =>
    rw [List.length_append]
    omega

/-- Every payload stands where its record says. -/
theorem Log.payload_at (h : Log entries image) :
    ∀ (k : ℕ) (record : Rec) (entry : LogEntry),
      (recordsAt containerBytes entries)[k]? = some record →
      entries[k]? = some entry → ∃ before after, image = before ++ entry.payload ++ after ∧
        before.length = record.payloadOffset := by
  induction h with
  | empty => nofun
  | @append entries image last alloc head stop before made whole new ih =>
    intro k record entry hrecord hentry
    have hcount : (recordsAt containerBytes entries).length = entries.length := by
      rw [← List.length_map Rec.name, names_recordsAt, List.length_map]
    rw [recordsAt_append] at hrecord
    rcases Nat.lt_or_ge k entries.length with hlt | hge
    · rw [List.getElem?_append_left (by omega)] at hrecord
      rw [List.getElem?_append_left hlt] at hentry
      obtain ⟨front, back, rfl, hfront⟩ := ih k record entry hrecord hentry
      exact ⟨front, back ++ written head last.payload, by rw [List.append_assoc], hfront⟩
    · have hk : k = entries.length := by
        have := (List.getElem?_eq_some_iff.mp hentry).1
        rw [List.length_append, List.length_singleton] at this
        omega
      subst hk
      rw [List.getElem?_append_right (by omega), hcount, Nat.sub_self] at hrecord
      rw [List.getElem?_append_right (by omega), Nat.sub_self] at hentry
      obtain rfl := Option.some.inj hrecord
      obtain rfl := Option.some.inj hentry
      refine ⟨image ++ head, leBytes 8 commitMarker, ?_, ?_⟩
      · rw [written, List.append_assoc, List.append_assoc, List.append_assoc]
      · have hhead := headOf_of_record made whole
        rw [List.length_append, hhead.head_eq, length_headBytes, ← before.length_eq]
        simp only [recordOf, recordDims]
        omega

/-- **The scan lists the log**: every record in the order it was written, with its name, its type,
its extents and the place of its payload. -/
theorem Log.holds (h : Log entries image) (hscan : ∀ entry ∈ entries, Scannable entry.subject) :
    Holds image (recordsAt containerBytes entries) image.length := by
  induction h with
  | empty =>
    refine ⟨rfl, rfl, List.nodup_nil, fun record stop hrecord => ?_⟩
    have hlt := hrecord.inFile.start_lt
    have hle := hrecord.inFile.stop_le
    rw [length_containerHeader] at hle hlt
    omega
  | append before made whole new ih =>
    have hheld := ih fun entry hentry => hscan entry (List.mem_append_left _ hentry)
    rw [recordsAt_append, ← before.length_eq]
    refine hheld.append (headOf_of_record made whole) (hscan _ (by simp)) ?_
    rwa [names_recordsAt]

/-- What is left of a record that was cut is not a whole record. -/
theorem unfinished_written {head payload : List Byte} {total n : ℕ}
    (h : ((written head payload).take n).length < total) :
    Unfinished head total ((written head payload).take n) := by
  refine ⟨h, ?_⟩
  rw [List.take_take, written, List.append_assoc]
  calc (head ++ (payload ++ leBytes 8 commitMarker)).take (min head.length n)
      <+: (head ++ (payload ++ leBytes 8 commitMarker)).take head.length :=
        List.take_prefix_take_left (Nat.min_le_left _ _)
    _ = head := List.take_left

/-- **A log that was cut** holds the records that are still whole. -/
theorem Log.holds_take (h : Log entries image) (hsize : image.length < usizeLimit)
    (hscan : ∀ entry ∈ entries, Scannable entry.subject) :
    ∀ n, containerBytes ≤ n → n ≤ image.length → ∃ k ≤ entries.length,
      (∀ j ≤ entries.length, endOf containerBytes (entries.take j) ≤ n ↔ j ≤ k) ∧
      Holds (image.take n) (recordsAt containerBytes (entries.take k))
        (endOf containerBytes (entries.take k)) := by
  induction h with
  | empty =>
    intro n hheader hn
    have hheld := Log.empty.holds hscan
    rw [length_containerHeader] at hn
    refine ⟨0, le_rfl, fun j hj => ?_, ?_⟩
    · obtain rfl : j = 0 := Nat.le_zero.mp hj
      exact ⟨fun _ => le_rfl, fun _ => hheader⟩
    · rwa [List.take_of_length_le (by rw [length_containerHeader]; omega)]
  | @append entries image last alloc head stop before made whole new ih =>
    intro n hheader hn
    have hbefore : ∀ entry ∈ entries, Scannable entry.subject := fun entry hentry =>
      hscan entry (List.mem_append_left _ hentry)
    have hhead := headOf_of_record made whole
    have hlength := hhead.length_written
    have hheld := before.holds hbefore
    have hall := before.append made whole new
    have hends := hall.length_eq
    rw [List.length_append] at hsize hn hends
    have ih := ih (by omega) hbefore
    have hshort : ∀ j ≤ entries.length, (entries ++ [last]).take j = entries.take j := fun j hj =>
      List.take_append_of_le_length hj
    have hinside : ∀ j ≤ entries.length, endOf containerBytes (entries.take j) ≤ image.length := by
      obtain ⟨k, _, hends, _⟩ := ih image.length before.header_le le_rfl
      have hk := (hends entries.length le_rfl).mp (by rw [List.take_length, before.length_eq])
      exact fun j hj => (hends j hj).mpr (hj.trans hk)
    have hwhole : (entries ++ [last]).take (entries.length + 1) = entries ++ [last] :=
      List.take_of_length_le (by rw [List.length_append, List.length_singleton])
    have hlast : ∀ j ≤ (entries ++ [last]).length, j ≤ entries.length ∨ j = entries.length + 1 := by
      intro j hj
      rw [List.length_append, List.length_singleton] at hj
      omega
    rcases Nat.lt_or_ge image.length n with hlong | hcut
    · rcases Nat.lt_or_ge n (image.length + (written head last.payload).length) with htorn | hfull
      · -- The cut is in the last record.
        refine ⟨entries.length, by rw [List.length_append]; omega, fun j hj => ?_, ?_⟩
        · rcases hlast j hj with hle | rfl
          · rw [hshort j hle]
            exact ⟨fun _ => hle, fun _ => (hinside j hle).trans hlong.le⟩
          · rw [hwhole, ← hends]
            omega
        · rw [hshort _ le_rfl, List.take_length, List.take_append, List.take_of_length_le hlong.le,
            ← before.length_eq]
          refine hheld.unfinished hhead (unfinished_written ?_) ?_
          · rw [List.length_take]
            omega
          · rw [List.length_append, List.length_take]
            omega
      · -- Nothing was cut.
        refine ⟨entries.length + 1, by rw [List.length_append, List.length_singleton], ?_, ?_⟩
        · intro j hj
          rcases hlast j hj with hle | rfl
          · rw [hshort j hle]
            exact ⟨fun _ => hle.trans (Nat.le_succ _), fun _ => (hinside j hle).trans hlong.le⟩
          · rw [hwhole, ← hends]
            exact ⟨fun _ => le_rfl, fun _ => hfull⟩
        · rw [hwhole, List.take_of_length_le (by rwa [List.length_append]), ← hall.length_eq]
          exact hall.holds hscan
    · obtain ⟨k, hk, hcount, hheld⟩ := ih n hheader hcut
      have hgrown : 0 < (written head last.payload).length := by
        rw [written, List.length_append, length_leBytes]
        omega
      refine ⟨k, hk.trans (by rw [List.length_append]; omega), fun j hj => ?_, ?_⟩
      · rcases hlast j hj with hle | rfl
        · rw [hshort j hle]
          exact hcount j hle
        · rw [hwhole, ← hends]
          omega
      · rw [hshort k hk, List.take_append_of_le_length hcut]
        exact hheld

end Log

/-! ## What the scan lists -/

/-- One record: two numbers under the name "a". -/
def smallSubject : Subject where
  name := [97]
  global := [2]
  extra := []
  scalar := .f32
  name_utf8 := by decide
  dims_lt := by decide

def smallEntry : LogEntry := ⟨smallSubject, [0, 0, 128, 63, 0, 0, 0, 64]⟩

def smallHead : List Byte :=
  match record ⟨true, true⟩ smallSubject containerBytes with
  | .ok (head, _) => head
  | .error _ => []

theorem record_smallSubject : record ⟨true, true⟩ smallSubject containerBytes
    = .ok (smallHead, 145) := by
  decide

theorem length_smallHead : smallHead.length = 97 := by
  decide

theorem length_written_small : (written smallHead smallEntry.payload).length = 113 := by
  rw [written, List.length_append, List.length_append, length_smallHead, length_leBytes]
  rfl

theorem log_small : Log [smallEntry] (containerHeader ++ written smallHead smallEntry.payload) := by
  refine @Log.append [] containerHeader smallEntry _ _ _ .empty record_smallSubject ?_ ?_
  · rw [length_written_small, length_containerHeader]
    rfl
  · exact List.not_mem_nil

end PencilRs.Analysis
