import PencilRs.Analysis.Container

/-!
# The record limit of a scan

The limit is tested before the record after it is looked at.  A bounded scan therefore takes the
same steps as an unbounded one until it has as many records as the limit allows, and then stops
with an error if the file goes on at all.
-/

set_option autoImplicit false

namespace PencilRs.Analysis

open PencilRs.Computation PencilRs.Model NamedMpi Update

/-- The limit of a scan that has none: `usize::MAX`. -/
def unbounded : ℕ := usizeLimit - 1

/-- The file goes on after `limit` committed records, whatever follows them. -/
def ExceedsLimit (limit size : ℕ) (records : List Rec) (tail : ℕ) : Prop :=
  limit < records.length ∨ records.length = limit ∧ tail < size

section Compare

variable {file : NativeFile} {alloc : ℕ → RecordAllocator} {size limit : ℕ}

/-! ## One round -/

section Round

variable {maxRecords fuel p : ℕ} {out : List Rec} {reads : Reads}

theorem runOn_scanLoop_end (h : ¬ p < size) :
    (scanLoop file alloc size maxRecords (fuel + 1) p out).runOn reads
      = some (.ok (out, p), reads) := by
  unfold scanLoop
  rw [if_neg h]
  rfl

theorem runOn_scanLoop_limit (h : p < size) (hlimit : out.length = maxRecords) :
    (scanLoop file alloc size maxRecords (fuel + 1) p out).runOn reads
      = some (.error .recordLimit, reads) := by
  unfold scanLoop
  rw [if_pos h, runOn_checked_bind, decide_eq_false (not_not.mpr hlimit)]
  rfl

theorem runOn_scanLoop_round (h : p < size) (hlimit : out.length ≠ maxRecords) :
    (scanLoop file alloc size maxRecords (fuel + 1) p out).runOn reads
      = ((untilStop (scanRecord file (alloc out.length) size p out)).runOn reads).bind
          fun q => match q.1 with
            | .error status => some (.error status, q.2)
            | .ok none => some (.ok (out, p), q.2)
            | .ok (some (record, stop)) =>
              (scanLoop file alloc size maxRecords fuel stop (out ++ [record])).runOn q.2 := by
  rw [scanLoop, if_pos h, runOn_checked_bind, decide_eq_true hlimit, ensure_true]
  simp only
  rw [runOn_bind]
  congr 1
  funext q
  obtain ⟨r, reads'⟩ := q
  cases r with
  | error status => rfl
  | ok found => cases found <;> rfl

/-- The rounds of a scan that ends without an error. -/
theorem scanLoop_ok_cases {records : List Rec} {tail : ℕ} {reads' : Reads}
    (h : (scanLoop file alloc size maxRecords (fuel + 1) p out).runOn reads
      = some (.ok (records, tail), reads')) :
    (records = out ∧ tail = p) ∨ p < size ∧ ∃ record stop reads'',
      (untilStop (scanRecord file (alloc out.length) size p out)).runOn reads
        = some (.ok (some (record, stop)), reads'') ∧
      (scanLoop file alloc size maxRecords fuel stop (out ++ [record])).runOn reads''
        = some (.ok (records, tail), reads') := by
  by_cases hmore : p < size
  · by_cases hlimit : out.length = maxRecords
    · rw [runOn_scanLoop_limit hmore hlimit] at h
      cases h
    · rw [runOn_scanLoop_round hmore hlimit] at h
      obtain ⟨⟨r, reads''⟩, hrun, h⟩ := Option.bind_eq_some_iff.mp h
      cases r with
      | error status => cases h
      | ok found =>
        cases found with
        | none =>
          cases h
          exact Or.inl ⟨rfl, rfl⟩
        | some q => exact Or.inr ⟨hmore, q.1, q.2, reads'', hrun, h⟩
  · rw [runOn_scanLoop_end hmore] at h
    cases h
    exact Or.inl ⟨rfl, rfl⟩

end Round

/-! ## Two limits -/

/-- What a scan gathers extends what it began with. -/
theorem scanLoop_length_le {maxRecords fuel p : ℕ} {out : List Rec} {reads reads' : Reads}
    {records : List Rec} {tail : ℕ}
    (h : (scanLoop file alloc size maxRecords fuel p out).runOn reads
      = some (.ok (records, tail), reads')) : out.length ≤ records.length := by
  induction fuel generalizing p out reads with
  | zero => cases h
  | succ fuel ih =>
    rcases scanLoop_ok_cases h with ⟨rfl, _⟩ | ⟨_, record, stop, reads'', _, hrest⟩
    · exact le_rfl
    · have := ih hrest
      rw [List.length_append] at this
      exact (Nat.le_add_right _ _).trans this

/-- At the limit a scan fails just where an unbounded one would have more, or the file goes on. -/
theorem exceedsLimit_of_reached {maxRecords fuel p : ℕ} {out : List Rec} {reads reads' : Reads}
    {records : List Rec} {tail : ℕ} (hmore : p < size) (hreached : out.length = limit)
    (h : (scanLoop file alloc size maxRecords (fuel + 1) p out).runOn reads
      = some (.ok (records, tail), reads')) : ExceedsLimit limit size records tail := by
  rcases scanLoop_ok_cases h with ⟨rfl, rfl⟩ | ⟨_, record, stop, reads'', _, hrest⟩
  · exact Or.inr ⟨hreached, hmore⟩
  · have hlen := scanLoop_length_le hrest
    rw [List.length_append, List.length_singleton] at hlen
    exact Or.inl (by omega)

/-- **The loops side by side**, from a state both have reached. -/
theorem scanLoop_bounded {fuel p : ℕ} {out : List Rec} {reads reads' : Reads}
    {records : List Rec} {tail : ℕ} (hout : out.length ≤ limit) (hlimit : limit ≤ unbounded)
    (h : (scanLoop file alloc size unbounded fuel p out).runOn reads
      = some (.ok (records, tail), reads')) :
    (ExceedsLimit limit size records tail →
      ∃ reads'', (scanLoop file alloc size limit fuel p out).runOn reads
        = some (.error .recordLimit, reads'')) ∧
    (¬ ExceedsLimit limit size records tail →
      (scanLoop file alloc size limit fuel p out).runOn reads
        = some (.ok (records, tail), reads')) := by
  induction fuel generalizing p out reads with
  | zero => cases h
  | succ fuel ih =>
    by_cases hmore : p < size
    · by_cases hreached : out.length = limit
      · rw [runOn_scanLoop_limit hmore hreached]
        exact ⟨fun _ => ⟨reads, rfl⟩,
          fun hnot => absurd (exceedsLimit_of_reached hmore hreached h) hnot⟩
      · have hbelow : out.length ≠ unbounded := by omega
        rw [runOn_scanLoop_round hmore hreached]
        rw [runOn_scanLoop_round hmore hbelow] at h
        obtain ⟨⟨r, reads''⟩, hrun, h⟩ := Option.bind_eq_some_iff.mp h
        rw [hrun]
        cases r with
        | error status => cases h
        | ok found =>
          cases found with
          | none =>
            cases h
            refine ⟨fun hexceeds => ?_, fun _ => rfl⟩
            rcases hexceeds with hlt | ⟨heq, _⟩
            · omega
            · exact absurd heq hreached
          | some q =>
            apply ih _ h
            rw [List.length_append, List.length_singleton]
            omega
    · rw [runOn_scanLoop_end hmore] at h ⊢
      cases h
      refine ⟨fun hexceeds => ?_, fun _ => rfl⟩
      rcases hexceeds with hlt | ⟨_, hlt⟩
      · omega
      · exact absurd hlt hmore

/-- **The scans side by side.** -/
theorem scanRoot_bounded {fuel : ℕ} {records : List Rec} {tail : ℕ} {reads : Reads}
    (hlimit : limit ≤ unbounded)
    (h : (scanRoot fuel file alloc size unbounded).runOn [] = some (.ok (records, tail), reads)) :
    (ExceedsLimit limit size records tail →
      ∃ reads', (scanRoot fuel file alloc size limit).runOn []
        = some (.error .recordLimit, reads')) ∧
    (¬ ExceedsLimit limit size records tail →
      (scanRoot fuel file alloc size limit).runOn [] = some (.ok (records, tail), reads)) := by
  unfold scanRoot at h ⊢
  rw [runOn_bind] at h
  simp only [runOn_bind]
  obtain ⟨⟨r, reads'⟩, hrun, h⟩ := Option.bind_eq_some_iff.mp h
  rw [hrun]
  cases r with
  | error status => cases h
  | ok u => exact scanLoop_bounded (Nat.zero_le _) hlimit h

end Compare

/-! ## File images -/

/-- The scan of a file with these bytes. -/
def scanImage (image : List Byte) (limit : ℕ) : Option (Except ScanStatus (List Rec × ℕ) × Reads) :=
  (scanRoot image.length (imageFile image) grantRecords image.length limit).runOn []

theorem imageFile_reads (image : List Byte) (bad : Prop) :
    ReadsOrFails (imageFile image) image.length bad := by
  intro offset len hinside _ hnone
  unfold imageFile at hnone
  have hlen : ((image.drop offset).take len).length = len := by
    rw [List.length_take, List.length_drop]
    omega
  rw [dif_pos hlen] at hnone
  contradiction

/-- Without failing reads and allocations only the limit can stop the loop. -/
theorem failsIn_image {image : List Byte} (hsize : image.length < usizeLimit) :
    FailsIn (imageFile image) grantRecords image.length unbounded fun _ => False where
  limit h := by
    unfold unbounded at h
    omega
  record k := {
    stop := trivial
    read := imageFile_reads image _
    body := nofun
    dimensions := nofun
    index := nofun }

/-- The unbounded scan of an image refuses its header or returns its committed prefix. -/
theorem scanImage_cases {image : List Byte} (hsize : image.length < usizeLimit) :
    (∃ reads, ∀ limit, scanImage image limit = some (.error .containerHeader, reads)) ∨
      ∃ records tail reads, scanImage image unbounded = some (.ok (records, tail), reads) := by
  have hheader : Keeps (ReadsInside image.length) (fun status => status = .containerHeader)
      (fun _ => containerBytes ≤ image.length) (scanHeader (imageFile image) image.length) :=
    keeps_scanHeader rfl (imageFile_reads image _)
  obtain ⟨r, reads, hrun, hinside, hpost, hbad⟩ := hheader [] nofun
  cases r with
  | error status =>
    refine Or.inl ⟨reads, fun limit => ?_⟩
    unfold scanImage scanRoot
    rw [runOn_bind, hrun, hbad status rfl]
    rfl
  | ok u =>
    have hstart : Chained image.length containerBytes [] containerBytes := rfl
    obtain ⟨result, reads', hloop, _, _, hnever⟩ := keeps_scanLoop hsize (failsIn_image hsize)
      (size_lt_of_fuel le_rfl) (hpost u rfl) (by decide) hstart (Nat.zero_le _) reads hinside
    cases result with
    | error status => exact (hnever status rfl).elim
    | ok q =>
      refine Or.inr ⟨q.1, q.2, reads', ?_⟩
      unfold scanImage scanRoot
      rw [runOn_bind, hrun]
      exact hloop

/-- **The record limit.**  The bounded scan of a file reports that the limit is exceeded just
where the committed prefix has more records than that, or as many and the file goes on after
them, with whatever bytes.  Otherwise it returns what the unbounded scan returns. -/
theorem record_limit_exceeded_iff (image : List Byte) (limit : ℕ)
    (hsize : image.length < usizeLimit) (hlimit : limit < usizeLimit) :
    ((∃ reads, scanImage image limit = some (.error .recordLimit, reads)) ↔
      ∃ records tail reads, scanImage image unbounded = some (.ok (records, tail), reads) ∧
        ExceedsLimit limit image.length records tail) ∧
    ((¬ ∃ reads, scanImage image limit = some (.error .recordLimit, reads)) →
      scanImage image limit = scanImage image unbounded) := by
  have hle : limit ≤ unbounded := Nat.le_sub_one_of_lt hlimit
  rcases scanImage_cases hsize with ⟨reads, hheader⟩ | ⟨records, tail, reads, hrun⟩
  · rw [hheader limit, hheader unbounded]
    refine ⟨⟨?_, ?_⟩, fun _ => rfl⟩
    · rintro ⟨reads', h⟩
      cases h
    · rintro ⟨records, tail, reads', h, _⟩
      cases h
  · have hboth := scanRoot_bounded hle hrun
    refine ⟨⟨fun hreport => ?_, ?_⟩, fun hsilent => ?_⟩
    · obtain ⟨reads', hreport⟩ := hreport
      refine ⟨records, tail, reads, hrun, ?_⟩
      by_contra hnot
      have hsame : scanImage image limit = some (.ok (records, tail), reads) := hboth.2 hnot
      rw [hreport] at hsame
      cases hsame
    · rintro ⟨records', tail', reads', hrun', hexceeds⟩
      rw [hrun] at hrun'
      cases hrun'
      exact hboth.1 hexceeds
    · have hnot : ¬ ExceedsLimit limit image.length records tail := fun h => hsilent (hboth.1 h)
      exact (hboth.2 hnot).trans hrun.symm

/-- A container without records and one byte more. -/
def emptyWithJunk : List Byte := magic ++ leString 8 [version, containerBytes, 0] ++ [0]

theorem record_limit_exceeded_empty :
    (∃ reads, scanImage emptyWithJunk 0 = some (.error .recordLimit, reads)) ↔
      ∃ records tail reads, scanImage emptyWithJunk unbounded = some (.ok (records, tail), reads) ∧
        ExceedsLimit 0 emptyWithJunk.length records tail :=
  (record_limit_exceeded_iff emptyWithJunk 0 (by decide) (by decide)).1

/-- The committed prefix has no record, so not more than none, and the bounded scan reports its
limit. -/
theorem record_limit_before_junk :
    scanImage emptyWithJunk 0 = some (.error .recordLimit, [(0, 32)]) ∧
      scanImage emptyWithJunk unbounded = some (.ok ([], 32), [(0, 32)]) := by
  constructor <;> rfl

end PencilRs.Analysis
