import PencilRs.Analysis.Hdf5Leaf
import PencilRs.Analysis.StoreSteps

/-!
# Writing a record

A writer that dies leaves the container as it was, or with one more record; never anything else.
The parts of a record in front of its commit word are on the disk before the commit word is
written, so that the record is whole as soon as its last byte is there.
-/

set_option autoImplicit false

namespace PencilRs.Analysis

open PencilRs.Computation PencilRs.Model PencilRs.Model.MpiIo NamedMpi FileProgram
open Semantics.Ensures

/-! ## What may be on the disk -/

/-- Parts of a record behind `base` are as safe as `before`; the whole record is as safe as
`after`, and so is what was safe before. -/
structure Publishes (base head : List Byte) (payload : ℕ)
    (before after : Option (List Byte) → Prop) : Prop where
  part : ∀ rest, Unfinished head (head.length + payload + 8) rest → before (some (base ++ rest))
  whole : ∀ bytes, bytes.length = payload → after (some (base ++ written head bytes))
  later : ∀ image, before image → after image

section Disk

variable {ι : Type} {w : NativeState ι} {base head rest : List Byte} {payload : ℕ}
  {before after : Option (List Byte) → Prop}

theorem length_commitMarker : (leBytes 8 commitMarker).length = 8 := length_leBytes 8 commitMarker

theorem marker_ne_nil : leBytes 8 commitMarker ≠ [] := by
  intro h
  have := congrArg List.length h
  rw [length_commitMarker] at this
  contradiction

/-- What one call may leave in a flushed file. -/
theorem guards_write {safe : Option (List Byte) → Prop} {cells : List Byte}
    {call : WriteCall ι Byte} (himage : w.image = some cells) (hflushed : w.pending = [])
    (h : ∀ writes, Landed [call] writes → safe (some (pokeAll 0 cells writes))) :
    Guards safe (w.write call) := by
  rintro image ⟨writes, hlanded, rfl⟩
  have hpending : (w.write call).pending = [call] := by
    show w.pending ++ [call] = _
    rw [hflushed, List.nil_append]
  rw [hpending] at hlanded
  show safe (w.image.map _)
  rw [himage]
  exact h writes hlanded

/-- What a flush makes of one call. -/
theorem flushed_write {cells : List Byte} {call : WriteCall ι Byte} (himage : w.image = some cells)
    (hflushed : w.pending = []) {writes : List (ℕ × Byte)}
    (hwrites : AllLanded (w.write call).pending writes) :
    AllLanded [call] writes ∧
      (w.write call).image.map (fun cells => pokeAll 0 cells writes)
        = some (pokeAll 0 cells writes) := by
  have hpending : (w.write call).pending = [call] := by
    show w.pending ++ [call] = _
    rw [hflushed, List.nil_append]
  rw [hpending] at hwrites
  refine ⟨hwrites, ?_⟩
  show w.image.map _ = _
  rw [himage]
  rfl

variable [DecidableEq ι] {root : ι}

theorem Publishes.guards_head (h : Publishes base head payload before after)
    (himage : w.image = some base) (hflushed : w.pending = []) (count : ℕ) :
    Guards before (w.write (onlyFrom root base.length (head.take count))) := by
  refine guards_write himage hflushed fun writes hlanded => ?_
  obtain ⟨k, hwrites⟩ := landed_onlyFrom hlanded
  rw [pokeAll_append hwrites, List.take_take]
  refine h.part _ (unfinished_take head ?_)
  rw [List.length_take]
  omega

omit [DecidableEq ι] in
/-- Writes inside the payload. -/
theorem Publishes.guards_payload (h : Publishes base head payload before after)
    (himage : w.image = some (base ++ head)) (hflushed : w.pending = []) {call : WriteCall ι Byte}
    (hinside : ∀ i, ∀ x ∈ call i, (base ++ head).length ≤ x.1 ∧
      x.1 < (base ++ head).length + payload) : Guards before (w.write call) := by
  refine guards_write himage hflushed fun writes hlanded => ?_
  obtain ⟨rest, hrest, hlen⟩ := @pokeAll_behind _ (0 : Byte) _ _ payload fun x hx => by
    obtain ⟨call', hcall, i, hx⟩ := hlanded.mem hx
    obtain rfl := List.mem_singleton.mp hcall
    exact hinside i x hx
  rw [hrest, List.append_assoc]
  exact h.part _ (unfinished_append head (by omega))

theorem Publishes.guards_marker (h : Publishes base head payload before after)
    (himage : w.image = some (base ++ (head ++ rest))) (hlen : rest.length ≤ payload)
    (hflushed : w.pending = []) (count : ℕ) :
    Guards after (w.write (onlyFrom root ((base ++ head).length + payload)
      ((leBytes 8 commitMarker).take count))) := by
  refine guards_write himage hflushed fun writes hlanded => ?_
  obtain ⟨k, hwrites⟩ := landed_onlyFrom hlanded
  rw [List.take_take] at hwrites
  generalize hmarker : (leBytes 8 commitMarker).take (min k count) = marker at hwrites
  by_cases hnone : marker = []
  · subst hnone
    obtain rfl : writes = [] := List.eq_nil_iff_forall_not_mem.mpr fun x hx =>
      List.not_mem_nil ((hwrites x).mp hx)
    exact h.later _ (h.part _ (unfinished_append head (by omega)))
  · have hbehind : (base ++ (head ++ rest)).length ≤ (base ++ head).length + payload := by
      simp only [List.length_append]
      omega
    rw [pokeAll_behind_gap hnone hwrites hbehind]
    have hgap : (base ++ (head ++ rest)).length + (payload - rest.length)
        = (base ++ head).length + payload := by
      simp only [List.length_append]
      omega
    have hzeros : (base ++ head).length + payload - (base ++ (head ++ rest)).length
        = payload - rest.length := by omega
    rw [hzeros, List.append_assoc, List.append_assoc, List.append_assoc]
    by_cases hshort : min k count < 8
    · refine h.later _ (h.part _ (unfinished_append head ?_))
      rw [← hmarker]
      simp only [List.length_append, List.length_replicate, List.length_take, length_commitMarker]
      omega
    · rw [List.take_of_length_le (by rw [length_commitMarker]; omega)] at hmarker
      subst hmarker
      have hwhole := h.whole (rest ++ List.replicate (payload - rest.length) 0)
        (by rw [List.length_append, List.length_replicate]; omega)
      simpa only [written, List.append_assoc] using hwhole

/-- After the last flush the record is whole. -/
theorem pokeAll_marker {writes : List (ℕ × Byte)} (hlen : rest.length ≤ payload)
    (hwrites : ∀ x, x ∈ writes ↔
      x ∈ writesFrom ((base ++ head).length + payload) (leBytes 8 commitMarker)) :
    pokeAll 0 (base ++ (head ++ rest)) writes
      = base ++ written head (rest ++ List.replicate (payload - rest.length) 0) := by
  have hbehind : (base ++ (head ++ rest)).length ≤ (base ++ head).length + payload := by
    simp only [List.length_append]
    omega
  have hzeros : (base ++ head).length + payload - (base ++ (head ++ rest)).length
      = payload - rest.length := by
    simp only [List.length_append]
    omega
  rw [pokeAll_behind_gap marker_ne_nil hwrites hbehind, hzeros]
  simp only [written, List.append_assoc]

end Disk

/-! ## Parts of the closure -/

section Parts

/-- The closure of `write_named` up to the header of the record. -/
def startRecord (rank : StoreRank) (name : List Byte) (operation : StoreOperation)
    (layout : MpiLayout) (head : List Byte) (recordLen : ℕ) :
    MpiProgram (NamedIoError × Progress) (ℕ × ℕ × Bool) := do
  let fileSet ← status .fileErrorsReturn true
  during ⟨false, false⟩ (agreed fileSet.isOk "named file error-handler setup")
  let offset ← during ⟨false, false⟩ (recordOffset rank name operation)
  let stop ← during ⟨false, false⟩ (ofResult
    (okOr ((checkedAdd offset recordLen).filter fun n => n ≤ i64Max)
      (.io (.sizeLimit "named container"))))
  let native ← createDatatype layout
  let datatype := native.isOk && !layout.empty
  during ⟨datatype, false⟩ (agreed native.isOk "named datatype")
  during ⟨datatype, false⟩ (writeContainerHeader rank operation)
  during ⟨datatype, false⟩ (writeMetadata rank.member.isRoot offset head)
  return (offset, stop, datatype)

/-- The flush of the header, the payload and its flush. -/
def storePayload (rank : StoreRank) (layout : MpiLayout) (packed : List Byte) (place : ℕ)
    (datatype : Bool) : MpiProgram (NamedIoError × Progress) Unit := do
  during ⟨datatype, false⟩ (flush "named header flush")
  during ⟨datatype, false⟩ (viewAt place (payloadType layout) "named payload view")
  let written ← writePayload (transferMode rank.options) packed
  during ⟨datatype, false⟩
    (agreed (written.toOption = some packed.length) "named payload write")
  during ⟨datatype, false⟩ (flush "named payload flush")
  during ⟨datatype, false⟩ (viewAt 0 none "named marker view")

/-- The commit word and its flush. -/
def storeMarker (rank : StoreRank) (place : ℕ) (datatype : Bool) :
    MpiProgram (NamedIoError × Progress) Progress := do
  during ⟨datatype, true⟩ (writeMetadata rank.member.isRoot place (leBytes 8 commitMarker))
  during ⟨datatype, true⟩ (flush "named marker flush")
  return ⟨datatype, true⟩

theorem writeRecord_eq (rank : StoreRank) (name : List Byte) (operation : StoreOperation)
    (layout : MpiLayout) (packed head : List Byte) (recordLen : ℕ) :
    writeRecord rank name operation layout packed head recordLen
      = startRecord rank name operation layout head recordLen >>= fun (offset, stop, datatype) =>
        storePayload rank layout packed (offset + head.length) datatype >>= fun _ =>
        storeMarker rank (stop - 8) datatype := by
  unfold writeRecord startRecord storePayload storeMarker
  simp only [bind_assoc, pure_bind]

end Parts

section Publish

variable {ι : Type} [Finite ι] [Nonempty ι] [DecidableEq ι] {J : NativeJob ι} {N M : ℕ}
  {scalar : ScalarType} {rank : ι → StoreRank} {target : ι → NamedView scalar N M}
  {w : NativeState ι} {base head : List Byte} {payload : ℕ}
  {before after : Option (List Byte) → Prop} {layout : ι → MpiLayout} {packed : ι → List Byte}
  {datatype : ι → Bool}

/-- The ranks have packed what they write, and they transfer it alike. -/
structure Packed (rank : ι → StoreRank) (target : ι → NamedView scalar N M)
    (layout : ι → MpiLayout) (packed : ι → List Byte) (payload : ℕ) : Prop where
  layout : ∀ i, payloadLayout (rank i).alloc.layout (target i).view = .ok (layout i)
  length : ∀ i, (packed i).length
    = boxSize (byteAxes (target i).view.pencil (target i).view.extraShape scalar.width)
  payload : ∀ i, arraySize (byteAxes (target i).view.pencil (target i).view.extraShape scalar.width)
    = payload
  mode : ∃ kind, ∀ i, transferMode (rank i).options = kind

/-- What the ranks write to the payload at `place`. -/
def PayloadWrites (layout : ι → MpiLayout) (packed : ι → List Byte) (place : ℕ)
    (writes : List (ℕ × Byte)) : Prop :=
  ∀ x, x ∈ writes ↔ ∃ i, x ∈ NativeView.writes ⟨place, payloadType (layout i), 0⟩ 0 (packed i)

omit [DecidableEq ι] in
/-- **The payload** is in the file before the commit word is written. -/
theorem run_storePayload (hpacked : Packed rank target layout packed payload)
    (hpub : Publishes base head payload before after) {place : ℕ}
    (hplace : place = (base ++ head).length) (hinv : Guards before w)
    (hflush : ∀ writes, AllLanded w.pending writes →
      w.image.map (fun cells => pokeAll 0 cells writes) = some (base ++ head)) :
    J.Run before (fun _ w' => w'.pending = [] ∧ (∀ i, w'.view i = byteView) ∧
        ∃ writes rest, PayloadWrites layout packed place writes ∧ rest.length ≤ payload ∧
          pokeAll 0 (base ++ head) writes = base ++ head ++ rest ∧
          w'.image = some (base ++ (head ++ rest)))
      (fun e w' => J.mayFail ∧ (∀ i, (e i).2.markerAttempted = false) ∧ Guards before w') w
      fun i => storePayload (rank i) (layout i) (packed i) place (datatype i) := by
  subst hplace
  unfold storePayload
  have hheader : J.Run before (fun _ w' => w'.image = some (base ++ head) ∧ w'.pending = [])
      (fun _ w' => J.mayFail ∧ (∀ _ : ι, false = false) ∧ Guards before w') w
      fun _ => flush "named header flush" :=
    run_flush hinv (fun writes h => ⟨hflush writes h, rfl⟩) fun hfail _ =>
      ⟨hfail, fun _ => rfl, hinv⟩
  refine run_bind (run_during hheader) ?_
  rintro _ w ⟨himage, hpending⟩ hinv
  have hview : J.Run before (fun _ w' => w'.image = some (base ++ head) ∧ w'.pending = [] ∧
      w'.view = fun i => ⟨(base ++ head).length, payloadType (layout i), 0⟩)
      (fun _ w' => J.mayFail ∧ (∀ _ : ι, false = false) ∧ Guards before w') w
      fun i => viewAt (base ++ head).length (payloadType (layout i)) "named payload view" :=
    run_viewAt hinv ⟨himage, hpending, rfl⟩ fun hfail view _ =>
      ⟨hfail, fun _ => rfl, hinv.of_same rfl rfl⟩
  refine run_bind (run_during hview) ?_
  rintro _ w ⟨himage, hpending, hview⟩ hinv
  have hinside : ∀ i, ∀ x ∈ (w.view i).writes 0 (packed i),
      (base ++ head).length ≤ x.1 ∧ x.1 < (base ++ head).length + payload := by
    intro i x hx
    rw [hview] at hx
    rw [← hpacked.payload i]
    exact payloadWrites_inside (hpacked.layout i) (hpacked.length i).le hx
  have hwritten : ∀ call : WriteCall ι Byte,
      (∀ i, ∀ x ∈ call i, x ∈ (w.view i).writes 0 (packed i)) →
      Guards before (w.write call) := fun call hcall =>
    hpub.guards_payload himage hpending fun i x hx => hinside i x (hcall i x hx)
  obtain ⟨kind, hmode⟩ := hpacked.mode
  refine run_bind (run_payload hmode (fun i => by rw [hview]) hinv (hwritten _ fun _ _ h => h)) ?_
  rintro replies w' (⟨hall, view, rfl⟩ | ⟨hfail, ⟨i, hi⟩, count, view, rfl⟩) hinv'
  swap
  · have hstop : J.Run before (fun _ _ => False)
        (fun _ w' => J.mayFail ∧ (∀ _ : ι, false = false) ∧ Guards before w')
        { w.write (fun i => ((w.view i).writes 0 (packed i)).take (count i)) with view }
        fun i => agreed ((replies i).toOption = some (packed i).length) "named payload write" :=
      run_agreed hinv' (fun hall => hi (of_decide_eq_true (hall i))) fun _ _ =>
        ⟨hfail, fun _ => rfl, hinv'⟩
    exact run_bind (run_during hstop) fun _ _ h _ => h.elim
  have hagreed : J.Run before (fun _ w'' => w'' = { w.write
      (fun i => (w.view i).writes 0 (packed i)) with view })
      (fun _ w' => J.mayFail ∧ (∀ _ : ι, false = false) ∧ Guards before w')
      { w.write (fun i => (w.view i).writes 0 (packed i)) with view }
      fun i => agreed ((replies i).toOption = some (packed i).length) "named payload write" :=
    run_agreed hinv' (fun _ => rfl) fun ⟨i, hi⟩ => absurd (hall i) (of_decide_eq_false hi)
  refine run_bind (run_during hagreed) ?_
  rintro _ _ rfl hinv'
  have hflushed : J.Run before (fun _ w' => w'.pending = [] ∧
      ∃ writes rest, PayloadWrites layout packed (base ++ head).length writes ∧
        rest.length ≤ payload ∧ pokeAll 0 (base ++ head) writes = base ++ head ++ rest ∧
        w'.image = some (base ++ (head ++ rest)))
      (fun _ w' => J.mayFail ∧ (∀ _ : ι, false = false) ∧ Guards before w')
      { w.write (fun i => (w.view i).writes 0 (packed i)) with view }
      fun _ => flush "named payload flush" := by
    refine run_flush hinv' (fun writes hwrites => ⟨rfl, writes, ?_⟩) fun hfail _ =>
      ⟨hfail, fun _ => rfl, hinv'⟩
    obtain ⟨hlanded, hmade⟩ := flushed_write himage hpending hwrites
    have hmem : ∀ x, x ∈ writes ↔ ∃ i, x ∈ (w.view i).writes 0 (packed i) := by
      intro x
      rw [hlanded x]
      constructor
      · rintro ⟨call, hcall, i, hx⟩
        obtain rfl := List.mem_singleton.mp hcall
        exact ⟨i, hx⟩
      · exact fun ⟨i, hx⟩ => ⟨_, List.mem_singleton_self _, i, hx⟩
    obtain ⟨rest, hrest, hlen⟩ := @pokeAll_behind _ (0 : Byte) (base ++ head) writes payload
      fun x hx => by
        obtain ⟨i, hx⟩ := (hmem x).mp hx
        exact hinside i x hx
    refine ⟨rest, fun x => ?_, hlen, hrest, ?_⟩
    · rw [hmem x, hview]
    · rw [← List.append_assoc, ← hrest]
      exact hmade
  refine run_bind (run_during hflushed) ?_
  rintro _ w'' ⟨hpending, writes, rest, hwrites, hlen, hrest, himage⟩ hinv
  refine run_during (run_viewAt hinv ⟨hpending, fun _ => rfl, writes, rest, hwrites, hlen, hrest,
    himage⟩ fun hfail view _ => ⟨hfail, fun _ => rfl, hinv.of_same rfl rfl⟩)

/-- **The commit word** makes the record whole. -/
theorem run_storeMarker (hjob : StoreJob J rank) (hpub : Publishes base head payload before after)
    {rest : List Byte} (hlen : rest.length ≤ payload) {place : ℕ}
    (hplace : place = (base ++ head).length + payload)
    (himage : w.image = some (base ++ (head ++ rest))) (hpending : w.pending = [])
    (hview : ∀ i, w.view i = byteView) :
    J.Run after (fun x w' => (∀ i, (x i).markerAttempted = true) ∧ w'.pending = [] ∧
        w'.image = some (base ++ written head (rest ++ List.replicate (payload - rest.length) 0)))
      (fun e _ => J.mayFail ∧ ∀ i, (e i).2.markerAttempted = true) w
      fun i => storeMarker (rank i) place (datatype i) := by
  subst hplace
  have hroot : ∀ i, (rank i).member.isRoot = true ↔ i = J.root := by
    intro i
    rw [hjob.member i]
    exact decide_eq_true_iff
  have hguards : ∀ count, Guards after (w.write (onlyFrom J.root ((base ++ head).length + payload)
      ((leBytes 8 commitMarker).take count))) := hpub.guards_marker himage hlen hpending
  have hwhole : Guards after (w.write (onlyFrom J.root ((base ++ head).length + payload)
      (leBytes 8 commitMarker))) := by
    have := hguards 8
    rwa [List.take_of_length_le (by rw [length_commitMarker])] at this
  have hstart : Guards after w := guards_of_flushed hpending (by
    rw [himage]
    exact hpub.later _ (hpub.part _ (unfinished_append head (by omega))))
  unfold storeMarker
  have hmarker : J.Run after (fun _ w' => w' = w.write (onlyFrom J.root
      ((base ++ head).length + payload) (leBytes 8 commitMarker)))
      (fun _ _ => J.mayFail ∧ ∀ _ : ι, true = true) w
      fun i => writeMetadata (rank i).member.isRoot ((base ++ head).length + payload)
        (leBytes 8 commitMarker) :=
    run_writeMetadata hroot hview hstart hwhole rfl fun hfail _ _ => ⟨hfail, fun _ => rfl⟩
  refine run_bind (run_during hmarker) ?_
  rintro _ _ rfl hinv
  have hflush : J.Run after (fun _ w' => w'.pending = [] ∧ w'.image
      = some (base ++ written head (rest ++ List.replicate (payload - rest.length) 0)))
      (fun _ _ => J.mayFail ∧ ∀ _ : ι, true = true)
      (w.write (onlyFrom J.root ((base ++ head).length + payload) (leBytes 8 commitMarker)))
      fun _ => flush "named marker flush" := by
    refine run_flush hinv (fun writes hwrites => ⟨rfl, ?_⟩) fun hfail _ => ⟨hfail, fun _ => rfl⟩
    obtain ⟨hlanded, hmade⟩ := flushed_write himage hpending hwrites
    refine hmade.trans (congrArg some (pokeAll_marker hlen (allLanded_onlyFrom hlanded)))
  refine run_bind (run_during hflush) ?_
  rintro _ w' ⟨hpending, himage⟩ hinv
  exact run_pure hinv ⟨fun _ => rfl, hpending, himage⟩

end Publish

section Payload

variable {N M : ℕ} {scalar : ScalarType} {topology : MpiTopology M}
  {pencils : DistributedPencil topology N} {extraShape : ExtraShape}
  {view : DistributedView pencils extraShape scalar.Value} {values : List scalar.Value}
  {rank : Coords topology.processGrid → StoreRank}
  {target : Coords topology.processGrid → NamedView scalar N M}
  {layout : Coords topology.processGrid → MpiLayout}
  {packed : Coords topology.processGrid → List Byte} {payload : ℕ}

/-- **The payload of all ranks** is the global array. -/
theorem payloadWrites_eq (hpacked : Packed rank target layout packed payload)
    (hviews : ∀ c, (target c).view = view.on c) (hvalues : IsGlobalArray view values)
    {blocks : Coords topology.processGrid → List scalar.Value}
    (hblocks : ∀ c, IsPacked (view.on c) (blocks c))
    (hbytes : ∀ c, packed c = (blocks c).flatMap scalar.encodeLe) {front rest : List Byte}
    {writes : List (ℕ × Byte)} (hwrites : PayloadWrites layout packed front.length writes)
    (hrest : pokeAll 0 front writes = front ++ rest) :
    rest = values.flatMap scalar.encodeLe ∧ rest.length = payload := by
  have hmem : ∀ x, x ∈ writes ↔ x ∈ writesFrom front.length (values.flatMap scalar.encodeLe) := by
    intro x
    rw [hwrites x, mem_writesFrom_iff hvalues hblocks]
    refine exists_congr fun c => ?_
    rw [mem_payloadWrites (hpacked.layout c) (hpacked.length c).le, hbytes c, hviews c,
      view.pencil_eq, view.extraShape_eq]
  obtain rfl : rest = values.flatMap scalar.encodeLe :=
    List.append_cancel_left (hrest.symm.trans (pokeAll_append hmem))
  refine ⟨rfl, ?_⟩
  rw [length_flatMap_encodeLe, hvalues.length, ← hpacked.payload topology.here,
    hviews topology.here, view.pencil_eq, view.extraShape_eq, arraySize_byteAxes, arraySize_on]

end Payload

/-! ## Subjects and headers -/

section Subjects

variable {ι : Type} [DecidableEq ι] {J : NativeJob ι} {N M : ℕ} {scalar : ScalarType}
  {rank : ι → StoreRank} {target : ι → NamedView scalar N M} {operation : StoreOperation}
  {optionsAgreed : Bool}

omit [DecidableEq ι] in
/-- The ranks write to one subject. -/
theorem PreflightAgrees.subject_eq (h : PreflightAgrees J rank target operation optionsAgreed)
    (i j : ι) : (target i).subject = (target j).subject := by
  have hrequest := h.descriptor.same i j
  have hname := h.names.same i j
  have hglobal : (target i).view.pencil.globalShape = (target j).view.pencil.globalShape :=
    congrArg Request.global hrequest
  have hextra : (target i).view.extraShape.dimensions = (target j).view.extraShape.dimensions :=
    congrArg Request.extra hrequest
  unfold NamedView.subject
  simp only [hname, hglobal, hextra]

omit [DecidableEq ι] in
/-- The header of a subject does not depend on the allocator. -/
theorem record_unique {alloc alloc' : HeadAllocator} {subject : Subject} {offset : ℕ}
    {made made' : List Byte × ℕ} (h : record alloc subject offset = .ok made)
    (h' : record alloc' subject offset = .ok made') : made = made' := by
  obtain ⟨head, stop⟩ := made
  obtain ⟨head', stop'⟩ := made'
  obtain ⟨payload, hpayload, hhead⟩ := record_eq_ok h
  obtain ⟨payload', hpayload', hhead'⟩ := record_eq_ok h'
  obtain rfl := Except.ok.inj (hpayload.symm.trans hpayload')
  rw [hhead.head_eq, hhead'.head_eq, hhead.stop_eq, hhead'.stop_eq]

theorem okOr_ne_panic {ε σ : Type} {value : Option σ} {e : ε} :
    okOr value (Stop.error e) ≠ .error .panic := by
  cases value <;> exact nofun

/-- A block is packed, or there is an error; packing does not panic. -/
theorem packView_ne_panic (alloc : PackAllocator) {view : PencilArrayView scalar.Value N M} :
    packView alloc view ≠ .error .panic := by
  unfold packView
  refine bind_ne_panic mapError_ne_panic fun dims hdims => ?_
  refine bind_ne_panic mapError_ne_panic fun elements helements => ?_
  refine bind_ne_panic ensure_ne_panic fun _ hsame => ?_
  refine bind_ne_panic okOr_ne_panic fun bytes hbytes => ?_
  refine bind_ne_panic ensure_ne_panic fun _ _ => ?_
  refine bind_ne_panic ensure_ne_panic fun _ _ => ?_
  obtain ⟨_, _, rfl⟩ := canonicalDimsWith_eq_ok.mp (mapError_eq_ok.mp hdims)
  obtain rfl := of_decide_eq_true (ensure_eq_ok.mp hsame)
  obtain ⟨_, rfl⟩ := checkedMul_eq_some.mp (okOr_eq_ok.mp hbytes)
  obtain ⟨values, indices, hloop, hvalues⟩ := foldlM_packElement view
  intro hpanic
  have hloop' : (List.range view.storage.length).foldlM (packElement view
      (view.extraShape.dimensions ++ List.ofFn view.pencil.localShapeLogical)) ([], List.replicate
        (view.extraShape.dimensions ++ List.ofFn view.pencil.localShapeLogical).length 0)
      = .ok (values.flatMap scalar.encodeLe, indices) := hloop
  rw [hloop'] at hpanic
  have hlen : (values.flatMap scalar.encodeLe).length = view.storage.length * scalar.width := by
    rw [length_flatMap_encodeLe, hvalues.length]
  have hsame : ensure ((values.flatMap scalar.encodeLe).length
      = view.storage.length * scalar.width) (Stop.panic : Stop IoError) = .ok () :=
    ensure_eq_ok.mpr (decide_eq_true hlen)
  have hdone : (ensure ((values.flatMap scalar.encodeLe).length
      = view.storage.length * scalar.width) (Stop.panic : Stop IoError) >>= fun _ =>
      pure (values.flatMap scalar.encodeLe)) = .error .panic := hpanic
  rw [hsame] at hdone
  cases hdone

end Subjects

/-! ## Before the file is opened -/

section Preparation

variable {ι : Type} [Finite ι] [Nonempty ι] [DecidableEq ι] {J : NativeJob ι} {N M : ℕ}
  {scalar : ScalarType} {rank : ι → StoreRank} {target : ι → NamedView scalar N M}
  {operation : StoreOperation} {optionsAgreed inject : Bool} {w : NativeState ι}
  {safe : Option (List Byte) → Prop} {layout : ι → MpiLayout} {packed : ι → List Byte}
  {head : List Byte} {recordLen : ℕ}

/-- What a rank has before it opens the file: layout, payload and header. -/
def prepareWrite (rank : StoreRank) (target : NamedView scalar N M) (operation : StoreOperation)
    (optionsAgreed : Bool) :
    NamedProgram (List Byte × MpiLayout × List Byte × List Byte × ℕ) := do
  let path ← NamedMpi.preflight rank target operation optionsAgreed
  let layout ← layoutPhase rank target "named layout preparation"
  let packed ← checkedResult (packView rank.alloc.pack target.view)
  let packed ← prepared packed "named payload packing"
  let record := record rank.alloc.head target.subject 0
  agreed record.isOk "named record preparation"
  let (head, recordLen) ← ofResult record
  return (path, layout, packed, head, recordLen)

theorem writeNamed_eq (rank : StoreRank) (target : NamedView scalar N M)
    (operation : StoreOperation) (inject optionsAgreed : Bool) :
    writeNamed rank target operation inject optionsAgreed
      = prepareWrite rank target operation optionsAgreed
        >>= fun (path, layout, packed, head, recordLen) =>
          openPhase rank target operation.mode path >>= fun _ =>
          captured (writeRecord rank target.name operation layout packed head recordLen)
          >>= fun result => concludeWrite rank inject result := by
  unfold writeNamed prepareWrite
  simp only [bind_assoc, pure_bind]

/-- The ranks are ready to open the file. -/
structure StorePrepared (J : NativeJob ι) (rank : ι → StoreRank) (target : ι → NamedView scalar N M)
    (operation : StoreOperation) (optionsAgreed : Bool) (layout : ι → MpiLayout)
    (packed : ι → List Byte) (head : List Byte) (recordLen : ℕ) : Prop where
  preflight : PreflightAgrees J rank target operation optionsAgreed
  layout : ∀ i, payloadLayout (rank i).alloc.layout (target i).view = .ok (layout i)
  packed : ∀ i, packView (rank i).alloc.pack (target i).view = .ok (packed i)
  head : ∀ i, record (rank i).alloc.head (target i).subject 0 = .ok (head, recordLen)

/-- **Preparing** leaves the file alone. -/
theorem run_prepareWrite (hjob : StoreJob J rank)
    {good : (ι → List Byte × MpiLayout × List Byte × List Byte × ℕ) → NativeState ι → Prop}
    {bad : (ι → NamedIoError) → NativeState ι → Prop} (hinv : Guards safe w)
    (hgood : ∀ layout packed head recordLen,
      StorePrepared J rank target operation optionsAgreed layout packed head recordLen →
      good (fun i => (J.path, layout i, packed i, head, recordLen)) w)
    (hbad : (¬∃ layout packed head recordLen,
        StorePrepared J rank target operation optionsAgreed layout packed head recordLen) →
      ∀ e, bad e w) :
    J.Run safe good bad w
      fun i => prepareWrite (rank i) (target i) operation optionsAgreed := by
  unfold prepareWrite
  have hpreflightRun : J.Run safe (fun x w' => x = (fun _ => J.path) ∧ w' = w ∧
      PreflightAgrees J rank target operation optionsAgreed) bad w
      fun i => NamedMpi.preflight (rank i) (target i) operation optionsAgreed :=
    run_preflight hjob hinv (fun h => ⟨rfl, rfl, h⟩) fun h =>
      hbad fun ⟨_, _, _, _, h'⟩ => h h'.preflight
  refine run_bind hpreflightRun ?_
  rintro _ w ⟨rfl, rfl, hpreflight⟩ _
  have hlayoutRun : J.Run safe (fun x w' => w' = w ∧
      ∀ i, payloadLayout (rank i).alloc.layout (target i).view = .ok (x i)) bad w
      fun i => layoutPhase (rank i) (target i) "named layout preparation" := by
    refine run_layoutPhase hinv (fun x hx => ⟨rfl, hx⟩) fun ⟨i, hi⟩ => hbad ?_
    rintro ⟨_, _, _, _, h⟩
    rw [h.layout i] at hi
    cases hi
  refine run_bind hlayoutRun ?_
  rintro layout w ⟨rfl, hlayout⟩ _
  have hvalue : ∀ i, ∃ value : Except IoError (List Byte),
      packView (rank i).alloc.pack (target i).view = value.mapError .error := by
    intro i
    cases hpack : packView (rank i).alloc.pack (target i).view with
    | ok packed => exact ⟨.ok packed, rfl⟩
    | error stop =>
      cases stop with
      | error e => exact ⟨.error e, rfl⟩
      | panic => exact absurd hpack (packView_ne_panic _)
  choose value hvalue using hvalue
  have hchecked : ∀ i, (checkedResult (packView (rank i).alloc.pack (target i).view) :
      NamedProgram _) = Pure.pure (value i) := by
    intro i
    rw [hvalue i]
    cases value i <;> rfl
  simp only [hchecked]
  have hvalueRun : J.Run safe (fun x w' => x = value ∧ w' = w) bad w
      fun i => (Pure.pure (value i) : NamedProgram _) := run_pure hinv ⟨rfl, rfl⟩
  refine run_bind hvalueRun ?_
  rintro value w ⟨rfl, rfl⟩ _
  have hpackedRun : J.Run safe (fun x w' => w' = w ∧ value = fun i => .ok (x i)) bad w
      fun i => prepared (value i) "named payload packing" := by
    refine run_prepared hinv (fun x hx => ⟨rfl, hx⟩) fun ⟨i, hi⟩ => hbad ?_
    rintro ⟨_, _, _, _, h⟩
    have hi' := (hvalue i).symm.trans (h.packed i)
    obtain ⟨_, hvalue'⟩ : ∃ x, value i = .ok x := ⟨_, mapError_eq_ok.mp hi'⟩
    rw [hvalue'] at hi
    cases hi
  refine run_bind hpackedRun ?_
  rintro packed w ⟨rfl, rfl⟩ _
  have hrecordRun : J.Run safe (fun _ w' => w' = w ∧
      ∀ i, (record (rank i).alloc.head (target i).subject 0).isOk = true) bad w
      fun i => agreed (record (rank i).alloc.head (target i).subject 0).isOk
        "named record preparation" := by
    refine run_agreed hinv (fun h => ⟨rfl, h⟩) fun ⟨i, hi⟩ => hbad ?_
    rintro ⟨_, _, _, _, h⟩
    rw [h.head i] at hi
    cases hi
  refine run_bind hrecordRun ?_
  rintro _ w ⟨rfl, hok⟩ _
  rcases results_cases fun i => record (rank i).alloc.head (target i).subject 0 with
    ⟨made, hmade⟩ | ⟨i, hi⟩
  swap
  · rw [hok i] at hi
    cases hi
  obtain ⟨⟨head, recordLen⟩, hroot⟩ : ∃ x, made J.root = x := ⟨_, rfl⟩
  have hhead : ∀ i, record (rank i).alloc.head (target i).subject 0 = .ok (head, recordLen) := by
    intro i
    have hi := congrFun hmade i
    have hj := congrFun hmade J.root
    beta_reduce at hi hj
    rw [← hpreflight.subject_eq i J.root] at hj
    rw [hi, record_unique hi hj, hroot]
  simp only [hhead]
  exact run_pure hinv (hgood _ _ _ _ ⟨hpreflight, hlayout, hvalue, hhead⟩)

omit [Finite ι] [Nonempty ι] [DecidableEq ι] in
/-- The options of the ranks are there on all of them or on none. -/
theorem PreflightAgrees.options_isSome (h : PreflightAgrees J rank target operation optionsAgreed) :
    (∀ i, (rank i).options.isSome = true) ∨ ∀ i, (rank i).options.isSome = false := by
  rcases options_cases h.descriptor with ⟨options, hoptions⟩ | hnone
  · exact .inl fun i => by rw [hoptions i]; rfl
  · exact .inr fun i => by rw [hnone i]; rfl

omit [Finite ι] [Nonempty ι] [DecidableEq ι] in
theorem PreflightAgrees.mode (h : PreflightAgrees J rank target operation optionsAgreed)
    (hmodes : optionsAgreed = true → ∃ kind, ∀ i, transferMode (rank i).options = kind) :
    ∃ kind, ∀ i, transferMode (rank i).options = kind := by
  cases optionsAgreed with
  | true => exact hmodes rfl
  | false =>
    rcases options_cases h.descriptor with ⟨options, hoptions⟩ | hnone
    · refine ⟨(options J.root).mode, fun i => ?_⟩
      rw [hoptions i]
      exact (h.controls rfl options hoptions).mode_eq i J.root
    · exact ⟨.collective, fun i => by rw [hnone i]; rfl⟩

/-- What is prepared is one header, and blocks that fill its payload. -/
theorem StorePrepared.parts
    (h : StorePrepared J rank target operation optionsAgreed layout packed head recordLen)
    (hmodes : optionsAgreed = true → ∃ kind, ∀ i, transferMode (rank i).options = kind) :
    ∃ payload, HeadOf (target J.root).subject 0 payload head recordLen ∧
      Packed rank target layout packed payload := by
  obtain ⟨payload, _, hhead⟩ := record_eq_ok (h.head J.root)
  refine ⟨payload, hhead, h.layout, fun i => ?_, fun i => ?_, h.preflight.mode hmodes⟩
  · obtain ⟨_, _, values, hvalues, hpacked⟩ := packView_eq_ok.mp (h.packed i)
    rw [hpacked, length_flatMap_encodeLe, hvalues.length, view_storage_length, boxSize_byteAxes,
      boxSize_blockAxes]
  · have hsubject := h.preflight.subject_eq i J.root
    have hglobal : List.ofFn (target i).view.pencil.globalShape = (target J.root).subject.global :=
      congrArg Subject.global hsubject
    have hextra : (target i).view.extraShape.dimensions = (target J.root).subject.extra :=
      congrArg Subject.extra hsubject
    rw [hhead.payload_eq, ← hglobal, ← hextra, arraySize_byteAxes, arraySize_blockAxes,
      elementCount_eq, List.prod_ofFn, Nat.mul_comm (∏ axis, _)]
    rfl

/-! ## After the file is closed -/

omit [DecidableEq ι] in
/-- **After the closure** an error of the ranks stays, unless the commit word may be there. -/
theorem run_concludeWrite_error {e : ι → NamedIoError × Progress}
    {good : (ι → Unit) → NativeState ι → Prop} {bad : (ι → NamedIoError) → NativeState ι → Prop}
    (hinv : Guards safe w)
    (hmarked : (∀ i, (e i).2.markerAttempted = true) →
      bad (fun _ => .io (.commitUncertain "named commit or cleanup")) w)
    (hunmarked : (∀ i, (e i).2.markerAttempted = false) → bad (fun i => (e i).1) w)
    (hsame : (∀ i, (e i).2.markerAttempted = true) ∨ ∀ i, (e i).2.markerAttempted = false) :
    J.Run safe good bad w fun i => concludeWrite (rank i) inject (.error (e i)) := by
  unfold concludeWrite
  refine run_bind (run_finishResources hinv) ?_
  rintro _ w rfl _
  refine run_bind (run_dropInfo hinv) ?_
  rintro _ w rfl _
  refine run_bind (run_aggregateCleanupResult hinv) ?_
  rintro cleanup w ⟨rfl, _, _⟩ _
  rcases hsame with hall | hall
  · simp only [hall]
    exact run_fail hinv (hmarked hall)
  · simp only [hall, Bool.false_and, Bool.false_eq_true, if_false]
    exact run_ofResult_bind hinv (.inr ⟨fun i => (e i).1, rfl, hunmarked hall⟩)

theorem run_concludeWrite_ok (hjob : StoreJob J rank) {x : ι → Progress}
    (hmarked : ∀ i, (x i).markerAttempted = true)
    {good : (ι → Unit) → NativeState ι → Prop} {bad : (ι → NamedIoError) → NativeState ι → Prop}
    (hinv : Guards safe w) (hgood : inject = false → good (fun _ => ()) w)
    (hbad : inject = true → bad (fun _ => .io (.commitUncertain "named commit or cleanup")) w) :
    J.Run safe good bad w fun i => concludeWrite (rank i) inject (.ok (x i)) := by
  unfold concludeWrite
  refine run_bind (run_finishResources hinv) ?_
  rintro _ w rfl _
  refine run_bind (run_dropInfo hinv) ?_
  rintro _ w rfl _
  refine run_bind (run_aggregateCleanupResult hinv) ?_
  rintro cleanup w ⟨rfl, hnone, hsome⟩ _
  cases inject with
  | false =>
    obtain rfl := hnone fun _ => rfl
    simp only [hmarked]
    exact run_ofResult_bind hinv (.inl ⟨fun _ => (), rfl, run_pure hinv (hgood rfl)⟩)
  | true =>
    have hroot : (rank J.root).member.isRoot = true := by
      rw [hjob.member J.root]
      exact decide_eq_true rfl
    have hcleanup : ∀ i, (cleanup i).isSome = true := fun i =>
      Option.isSome_iff_ne_none.mpr (hsome ⟨J.root, by simp [hroot]⟩ i)
    simp only [hmarked, hcleanup, Bool.or_true, Bool.and_true, if_true]
    exact run_fail hinv (hbad rfl)

end Preparation

end PencilRs.Analysis
