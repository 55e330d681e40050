import PencilRs.Analysis.StoreAppend

/-!
# The history of a container

One job after the other appends to a container, each on its own ranks.  Calls fail, jobs die, and
what was not flushed reaches the disk in part and in any order.  Whatever happens, the container
lists the records that were in it before and some of those that were tried, in their order; what
all ranks were told is written is among them.
-/

set_option autoImplicit false

namespace PencilRs.Analysis

open PencilRs.Computation PencilRs.Model PencilRs.Model.MpiIo NamedMpi FileProgram
open Semantics.Ensures

/-! ## One job -/

/-- Ranks that append an array. -/
structure AppendJob (ι : Type) [DecidableEq ι] where
  job : NativeJob ι
  N : ℕ
  M : ℕ
  scalar : ScalarType
  rank : ι → StoreRank
  target : ι → NamedView scalar N M
  inject : Bool
  optionsAgreed : Bool
  store : StoreJob job rank
  modes : optionsAgreed = true → ∃ kind, ∀ i, transferMode (rank i).options = kind

namespace AppendJob

variable {ι : Type} [DecidableEq ι] (a : AppendJob ι)

/-- What the job appends. -/
def subject : Subject := (a.target a.job.root).subject

/-- The ranks before their first call, with `base` in the file. -/
def start (base : List Byte) (view : ι → NativeView) :
    Config (fileInterface mpiInterface) ι (NativeState ι) (Except (Stop NamedIoError) Unit) :=
  ⟨⟨some base, [], view⟩, fun i =>
    (writeNamed (a.rank i) (a.target i) .append a.inject a.optionsAgreed).run⟩

/-- What is in the file when the job is over, and whether the ranks returned without an error. -/
inductive Found (base : List Byte) : Bool → Option (List Byte) → Prop
  | acknowledged {view : ι → NativeView}
      {c : Config (fileInterface mpiInterface) ι (NativeState ι) (Except (Stop NamedIoError) Unit)}
      {image : Option (List Byte)} (run : a.job.calls.Reaches (a.start base view) c)
      (returned : c.Returned fun _ => .ok ()) (disk : c.world.OnDisk image) : Found base true image
  | failed {view : ι → NativeView}
      {c : Config (fileInterface mpiInterface) ι (NativeState ι) (Except (Stop NamedIoError) Unit)}
      {image : Option (List Byte)} {r : ι → Except (Stop NamedIoError) Unit}
      (run : a.job.calls.Reaches (a.start base view) c) (returned : c.Returned r)
      (disk : c.world.OnDisk image) : Found base false image
  | died {view : ι → NativeView}
      {c : Config (fileInterface mpiInterface) ι (NativeState ι) (Except (Stop NamedIoError) Unit)}
      {image : Option (List Byte)} {w : NativeState ι}
      (run : a.job.calls.Reaches (a.start base view) c)
      (left : a.job.calls.LeavesBehind c w) (disk : w.OnDisk image) : Found base false image

variable {a} {base image : List Byte} {records : List Rec} {tail : ℕ} {acknowledged : Bool}

/-- Where a job returns without an error, the new record is listed. -/
theorem correct [Finite ι] [Nonempty ι] (hfile : Honest (a.rank a.job.root).scanner.file base)
    (hheld : Holds base records tail) (view : ι → NativeView) :
    a.job.Correct (fun image => Lists records image ∨
        Lists (records ++ [recordOf a.subject base.length]) image)
      (fun _ w' => w'.pending = [] ∧ (Scannable a.subject →
        Lists (records ++ [recordOf a.subject base.length]) w'.image))
      (fun _ _ => True) ⟨some base, [], view⟩
      fun i => writeNamed (a.rank i) (a.target i) .append a.inject a.optionsAgreed := by
  refine run_correct (run_mono (run_writeNamed_append a.store a.modes rfl rfl hfile hheld) ?_
    fun _ _ _ => trivial)
  rintro _ w' ⟨hpending, image, himage, happended⟩
  exact ⟨hpending, fun hscan => ⟨image, _, himage, happended.holds hscan⟩⟩

/-- **What a job leaves**: the records of before, or these and the new one; the new one where the
ranks returned without an error. -/
theorem found_lists [Finite ι] [Nonempty ι]
    (hfile : Honest (a.rank a.job.root).scanner.file base) (hheld : Holds base records tail)
    {found : Option (List Byte)} (hfound : a.Found base acknowledged found) :
    (Lists records found ∨ Lists (records ++ [recordOf a.subject base.length]) found) ∧
      (acknowledged = true → Scannable a.subject →
        Lists (records ++ [recordOf a.subject base.length]) found) := by
  cases hfound with
  | acknowledged run returned disk =>
    have hcorrect := correct hfile hheld
    refine ⟨(hcorrect _).stopped _ _ run (.inl rfl) _ disk, fun _ hscan => ?_⟩
    obtain ⟨_, _, hpending, hlists⟩ | ⟨e, herror, _⟩ := (hcorrect _).returned _ _ run returned
    · obtain ⟨writes, hlanded, rfl⟩ := disk
      rw [hpending] at hlanded
      obtain rfl := landed_nil_iff.mp hlanded
      obtain ⟨cells, tail, himage, hholds⟩ := hlists hscan
      rw [himage]
      exact ⟨cells, tail, rfl, hholds⟩
    · have hroot := congrFun herror a.job.root
      cases hroot
  | failed run returned disk =>
    exact ⟨(correct hfile hheld _).stopped _ _ run (.inl rfl) _ disk, nofun⟩
  | died run left disk =>
    exact ⟨(correct hfile hheld _).stopped _ _ run left _ disk, nofun⟩

end AppendJob

/-! ## Job after job -/

/-- What was tried, and whether all ranks were told that it is written. -/
structure Attempt where
  subject : Subject
  acknowledged : Bool

/-- The scan can find what the ranks were told is written. -/
def Attempt.lasting (attempt : Attempt) : Bool :=
  attempt.acknowledged &&
    decide (leadingProd (attempt.subject.global ++ attempt.subject.extra) < usizeLimit)

/-- The images of a file that jobs append to, one after the other. -/
inductive History (first : List Byte) : List Attempt → List Byte → Prop
  | start : History first [] first
  | append {ι : Type} [Finite ι] [Nonempty ι] [DecidableEq ι] {attempts : List Attempt}
      {base image : List Byte} {acknowledged : Bool} (before : History first attempts base)
      (a : AppendJob ι) (honest : Honest (a.rank a.job.root).scanner.file base)
      (found : a.Found base acknowledged (some image)) :
      History first (attempts ++ [⟨a.subject, acknowledged⟩]) image

/-- The two ranks append their rows. -/
def byteAppend : AppendJob (Coords twoRanks.processGrid) where
  job := byteJob
  N := 2
  M := 1
  scalar := .u8
  rank := byteRank containerHeader
  target := byteTarget
  inject := false
  optionsAgreed := false
  store := byteJob_store _
  modes := nofun

/-- They return, and the file is in the history of the empty container. -/
theorem history_byteAppend :
    ∃ image, History containerHeader [⟨byteAppend.subject, true⟩] image := by
  have : Nonempty (Coords twoRanks.processGrid) := ⟨twoRanks.here⟩
  obtain ⟨c, r, hrun, hreturned, ⟨_, rfl, hpending, image, himage, _⟩ | ⟨_, _, _, _, hnot, _⟩⟩ :=
    (run_correct (run_writeNamed_append (w := ⟨some containerHeader, [], fun _ => byteView⟩)
      byteAppend.store byteAppend.modes rfl rfl (honest_imageFile _)
      holds_containerHeader)).exists_returned
  · have hdisk : c.world.OnDisk (some image) :=
      ⟨[], by rw [hpending]; exact landed_nil_iff.mpr rfl, by rw [himage]; rfl⟩
    exact ⟨image, .append .start byteAppend (honest_imageFile _)
      (.acknowledged hrun hreturned hdisk)⟩
  · exact absurd append_ready hnot

end PencilRs.Analysis
