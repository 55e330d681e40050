import PencilRs.Analysis.FileBytes
import PencilRs.Analysis.StorePhases

/-!
# Steps of a writer

A step of the writer adds writes that are not flushed, or flushes them, or moves the views.  Each
of them fails on all ranks alike, and then says what may have been written.
-/

set_option autoImplicit false

namespace PencilRs.Analysis

open PencilRs.Computation PencilRs.Model PencilRs.Model.MpiIo NamedMpi FileProgram
open Semantics.Ensures

variable {ι : Type} {J : NativeJob ι} {safe : Option (List Byte) → Prop} {w : NativeState ι}

section Steps

variable [Finite ι] [Nonempty ι] [DecidableEq ι] {good : (ι → Unit) → NativeState ι → Prop}
  {bad : (ι → NamedIoError) → NativeState ι → Prop}

omit [Finite ι] [Nonempty ι] [DecidableEq ι] in
theorem writes_byteView (start : ℕ) (bytes : List Byte) :
    byteView.writes start bytes = writesFrom start bytes := by
  unfold NativeView.writes writesFrom byteView NativeView.place
  simp only [Nat.zero_add]

omit [Finite ι] [Nonempty ι] in
/-- Only rank zero has bytes. -/
theorem writes_own {isRoot : ι → Bool} (hroot : ∀ i, isRoot i = true ↔ i = J.root)
    (hview : ∀ i, w.view i = byteView) (offset : ℕ) (bytes : List Byte) (count : ι → ℕ) :
    (fun i => (w.view i).writes offset ((if isRoot i then bytes else []).take (count i)))
      = onlyFrom J.root offset (bytes.take (count J.root)) := by
  funext i
  unfold onlyFrom
  rw [hview, writes_byteView]
  by_cases hi : i = J.root
  · rw [if_pos ((hroot i).mpr hi), if_pos hi, hi]
  · rw [if_neg (mt (hroot i).mp hi), if_neg hi, List.take_nil]
    rfl

/-- **`write_metadata`.** -/
theorem run_writeMetadata {isRoot : ι → Bool} (hroot : ∀ i, isRoot i = true ↔ i = J.root)
    (hview : ∀ i, w.view i = byteView) {offset : ℕ} {bytes : List Byte} (hinv : Guards safe w)
    (hwrite : Guards safe (w.write (onlyFrom J.root offset bytes)))
    (hgood : good (fun _ => ()) (w.write (onlyFrom J.root offset bytes)))
    (hbad : J.mayFail → ∀ count e, bad e (w.write (onlyFrom J.root offset (bytes.take count)))) :
    J.Run safe good bad w fun i => writeMetadata (isRoot i) offset bytes := by
  have hwhole : (fun i => (w.view i).writes offset (if isRoot i then bytes else []))
      = onlyFrom J.root offset bytes := by
    have := writes_own hroot hview offset bytes fun _ => bytes.length
    rw [List.take_length] at this
    rw [← this]
    funext i
    split
    · rw [List.take_length]
    · rw [List.take_nil]
  unfold writeMetadata
  refine run_bind (run_writeAtAll hinv (by rwa [hwhole])) ?_
  rintro replies w' ⟨count, hle, hcount, hsucceeds, rfl⟩ hinv'
  rw [writes_own hroot hview] at hinv' ⊢
  refine run_agreed hinv' (fun hall => ?_) fun ⟨i, hi⟩ => hbad ?_ _
  · have hlast : count J.root = bytes.length := by
      have hok := of_decide_eq_true (hall J.root)
      rw [if_pos ((hroot J.root).mpr rfl)] at hok
      cases hreply : replies J.root with
      | ok n =>
        rw [hreply] at hok
        rw [← hcount J.root n hreply]
        exact Option.some.inj hok
      | error status =>
        rw [hreply] at hok
        cases hok
    rwa [hlast, List.take_length]
  · refine hsucceeds.resolve_right fun hall => of_decide_eq_false hi ?_
    rw [hall i]
    rfl

omit [DecidableEq ι] in
/-- **A flush.** -/
theorem run_flush {phase : String} (hinv : Guards safe w)
    (hgood : ∀ writes, AllLanded w.pending writes → good (fun _ => ()) { w with
      image := w.image.map fun cells => pokeAll 0 cells writes, pending := [] })
    (hbad : J.mayFail → ∀ e, bad e w) : J.Run safe good bad w fun _ => flush phase := by
  unfold flush
  refine run_bind (run_fileSync hinv) ?_
  rintro replies w' ⟨hsucceeds, ⟨hall, writes, hwrites, rfl⟩ | ⟨⟨i, hi⟩, rfl⟩⟩ hinv'
  · refine run_agreed hinv' (fun _ => hgood writes hwrites) fun ⟨i, hi⟩ => ?_
    rw [hall i] at hi
    cases hi
  · refine run_agreed hinv' (fun hall => ?_) fun _ => hbad (mayFail_of hsucceeds hi)
    rw [hall i] at hi
    cases hi

omit [DecidableEq ι] in
/-- **A view.** -/
theorem run_viewAt {disp : ℕ} {filetype : ι → Option MpiLayout} {phase : String}
    (hinv : Guards safe w)
    (hgood : good (fun _ => ()) { w with view := fun i => ⟨disp, filetype i, 0⟩ })
    (hbad : J.mayFail → ∀ view e, bad e { w with view }) :
    J.Run safe good bad w fun i => viewAt disp (filetype i) phase := by
  unfold viewAt
  refine run_bind (run_setView hinv) ?_
  rintro replies w' ⟨hsucceeds, view, hview, rfl⟩ hinv'
  refine run_agreed hinv' (fun hall => ?_) fun ⟨i, hi⟩ => hbad (mayFail_of hsucceeds hi) view
  have hviews : view = fun i => ⟨disp, filetype i, 0⟩ := by
    funext i
    refine hview i ?_
    have hi := hall i
    cases hreply : replies i with
    | ok u => rfl
    | error status =>
      rw [hreply] at hi
      cases hi
  rwa [hviews]

omit [Finite ι] [DecidableEq ι] [Nonempty ι] in
/-- **The payload.**  All of it is written, or of every rank's bytes a front part. -/
theorem run_payload {ε : Type} {bad : (ι → ε) → NativeState ι → Prop} {mode : ι → MpiIoMode}
    {kind : MpiIoMode} (hmode : ∀ i, mode i = kind) {bytes : ι → List Byte}
    (hpointer : ∀ i, (w.view i).pointer = 0) (hinv : Guards safe w)
    (hwrite : Guards safe (w.write fun i => (w.view i).writes 0 (bytes i))) :
    J.Run safe (fun replies w' =>
        ((∀ i, (replies i).toOption = some (bytes i).length) ∧ ∃ view,
          w' = { w.write (fun i => (w.view i).writes 0 (bytes i)) with view }) ∨
        J.mayFail ∧ (∃ i, (replies i).toOption ≠ some (bytes i).length) ∧
          ∃ (count : ι → ℕ) (view : ι → NativeView), w' = { w.write
            (fun i => ((w.view i).writes 0 (bytes i)).take (count i)) with view }) bad w
      fun i => (writePayload (mode i) (bytes i) : MpiProgram ε _) := by
  refine run_mono (run_writePayload hmode hinv (by simpa only [hpointer])) ?_ fun _ _ h => h
  rintro replies w' ⟨count, w₁, ⟨hle, hcount, hsucceeds, rfl⟩, rfl⟩
  simp only [hpointer, take_writes]
  by_cases hall : ∀ i, (replies i).toOption = some (bytes i).length
  · have hlast : ∀ i, count i = (bytes i).length := by
      intro i
      have hok := hall i
      cases hreply : replies i with
      | ok n =>
        rw [hreply] at hok
        rw [← hcount i n hreply]
        exact Option.some.inj hok
      | error status =>
        rw [hreply] at hok
        cases hok
    refine .inl ⟨hall, (advance w count).view, ?_⟩
    simp only [← take_writes, hlast, List.take_length]
    rfl
  · refine .inr ⟨hsucceeds.resolve_right fun hok => hall fun i => ?_, not_forall.mp hall, count, _,
      rfl⟩
    rw [hok i]
    rfl

end Steps

end PencilRs.Analysis
