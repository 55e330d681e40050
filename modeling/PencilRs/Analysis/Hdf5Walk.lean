import PencilRs.Analysis.FileCollectives
import PencilRs.Analysis.Hdf5Tree

/-!
# The walk over the tree of an HDF5 session

The walk is a fold over the preorder of the links from the root: it goes on exactly as long as the
entries so far are accepted.

The ranks keep sets of different identities, but the sets stand for the same objects, so all ranks
take the same way.  The world is the list of the objects that were opened, which are those seen.
-/

set_option autoImplicit false

namespace PencilRs.Analysis

open PencilRs.Computation PencilRs.Model PencilRs.Model.Hdf5 FileProgram Semantics.Ensures

/-! ## Phases -/

section Phases

variable {ι World : Type} {N : Interface} {natives : Semantics N ι World} {inv : World → Prop}
  {w : World} [Finite ι] [Nonempty ι] {root : ι}

/-- Bytes that are the same on all ranks are agreed. -/
theorem agreeBytes_run {isRoot : ι → Bool} (hroot : ∀ i, isRoot i = true ↔ i = root)
    {bytes : List Byte} (hlen : bytes.length ≤ MpiIo.maxDescriptorBytes) (hinv : inv w) :
    FileRun root natives False inv (fun r w' => Together (fun _ => w' = w) (fun _ => False) r) w
      fun i => agreeBytes (isRoot i) bytes := by
  have hlimit : MpiIo.maxDescriptorBytes < 256 ^ 8 ∧ MpiIo.maxDescriptorBytes ≤ countMax := by
    decide
  refine fileRun_agreePhase hinv (fun _ => ?_) fun ⟨_, hfalse⟩ => ?_
  · refine fileRun_bcastBytes hinv (fun _ => length_leBytes 8 _) (by decide) ?_
    intro ok received hreceived _ hok
    have hvalue : ∀ i, leValue (received i) = bytes.length := fun i => by
      rw [hreceived i (hok.resolve_left id i), leValue_leBytes_of_lt (by omega)]
    simp only [hvalue, if_pos hlen, orPanic_some_bind]
    have hsent : ∀ i, (((if isRoot i then bytes else []) ++ List.replicate
        (MpiIo.maxDescriptorBytes - (if isRoot i then bytes else []).length) (0 : Byte)).take
        bytes.length).length = bytes.length := by
      intro i
      rw [List.length_take, List.length_append, List.length_replicate]
      split
      · omega
      · rw [List.length_nil]
        omega
    refine fileRun_bcastBytes hinv hsent (by omega) ?_
    intro ok received hreceived _ hok
    have hbytes : ∀ i, received i = bytes := fun i => by
      rw [hreceived i (hok.resolve_left id i), if_pos ((hroot root).mpr rfl), List.take_left]
    refine (fileRun_agreed hinv).mono (fun _ => id) fun r w' h => ?_
    refine h.mono (fun _ h => h.2) ?_
    rintro _ ⟨⟨i, hi⟩, _⟩
    exact of_decide_eq_false hi (hbytes i).symm
  · exact absurd hfalse (by rw [decide_eq_true hlen]; decide)

/-- All ranks open the object of a link. -/
theorem open_run {O : Type} {graph : LinkGraph O} {inv : List O → Prop} {opened : List O}
    {group o : O} {name : List Byte} {phase : String} (hopen : graph.openLink group name = .ok o)
    (hinv : inv opened) (hinv' : inv (opened ++ [o])) :
    FileRun root (openCalls ι graph) False inv
      (fun r w => Together (fun x => x = (fun _ => o) ∧ w = opened ++ [o]) (fun _ => False) r)
      opened fun _ => native (N := openInterface O) () (group, name) >>= fun found =>
        collectiveHandlePhase found phase := by
  refine perform_bind trivial hinv (fun _ (h : False) => h.elim) ?_ ?_
  · exact ⟨fun _ => graph.openLink group name, _, group, name, fun _ => rfl, fun _ => rfl, rfl⟩
  · rintro replies w' ⟨group', name', hargs, hreplies, rfl⟩
    obtain ⟨rfl, rfl⟩ := Prod.mk.inj (hargs root)
    have hworld : opened ++ (graph.openLink group name).toOption.toList = opened ++ [o] := by
      rw [hopen]
      rfl
    rw [hworld]
    simp only [hreplies, hopen]
    unfold collectiveHandlePhase collectiveState
    simp only [bind_assoc]
    refine fileRun_allReduceMin hinv' fun least hleast => ?_
    refine fileRun_allReduceMax hinv' fun greatest hgreatest => ?_
    obtain ⟨_, hi⟩ := hleast.1
    obtain ⟨_, hj⟩ := hgreatest.1
    obtain rfl : 1 = least := hi
    obtain rfl : 1 = greatest := hj
    exact .returned (fun _ => .ok o) (fun _ => rfl) hinv' (Or.inl ⟨_, rfl, rfl, rfl⟩)

end Phases

/-! ## The walk -/

section Walk

variable {ι O : Type} {graph : LinkGraph O} {alloc : String → InspectAllocator}
  {ranks : ι → Inspector O}

/-- What holds of the objects opened so far, also when the walk stops. -/
def OpenedOnce (opened : List O) : Prop := opened.Nodup ∧ opened.length ≤ maxObjects

/-- All ranks went over the entries. -/
abbrev Reached (graph : LinkGraph O) (alloc : String → InspectAllocator) (ranks : ι → Inspector O)
    (visited : Visited O) (entries : List (Entry O)) (x : ι → TreeState) (opened : List O) : Prop :=
  Accepts graph alloc visited entries ∧
    (x = fun i => (visited.after graph alloc entries).view (ranks i)) ∧
    opened = (visited.after graph alloc entries).seen

/-- All ranks stop, none of them in a panic. -/
abbrev Refused (graph : LinkGraph O) (alloc : String → InspectAllocator) (visited : Visited O)
    (entries : List (Entry O)) (e : ι → Stop SessionError) : Prop :=
  ¬ Accepts graph alloc visited entries ∧ ∀ i, ∃ error, e i = .error error

abbrev Outcome (graph : LinkGraph O) (alloc : String → InspectAllocator) (ranks : ι → Inspector O)
    (visited : Visited O) (entries : List (Entry O)) (r : ι → Except (Stop SessionError) TreeState)
    (opened : List O) : Prop :=
  Together (fun x => Reached graph alloc ranks visited entries x opened)
    (Refused graph alloc visited entries) r

abbrev WalkRun (root : ι) (graph : LinkGraph O) (alloc : String → InspectAllocator)
    (ranks : ι → Inspector O) (visited : Visited O) (entries : List (Entry O)) (opened : List O)
    (p : ι → SessionProgram O TreeState) : Prop :=
  FileRun root (openCalls ι graph) False OpenedOnce (Outcome graph alloc ranks visited entries)
    opened p

variable {root : ι} {visited : Visited O} {entries : List (Entry O)} {opened : List O} {β : Type}

/-- Going on after entries that were accepted. -/
theorem Outcome.append {later : List (Entry O)} {r : ι → Except (Stop SessionError) TreeState}
    (haccepts : Accepts graph alloc visited entries)
    (h : Outcome graph alloc ranks (visited.after graph alloc entries) later r opened) :
    Outcome graph alloc ranks visited (entries ++ later) r opened := by
  refine h.mono ?_ ?_
  · rintro x ⟨hlater, hx, hopened⟩
    refine ⟨accepts_append.mpr ⟨haccepts, hlater⟩, ?_, ?_⟩
    · rw [after_append]
      exact hx
    · rw [after_append]
      exact hopened
  · rintro e ⟨hnot, herror⟩
    exact ⟨fun h => hnot (accepts_append.mp h).2, herror⟩

theorem card_view (h : visited.seen.Nodup) (rank : Inspector O) :
    (visited.view rank).seen.card = visited.seen.length := by
  unfold Visited.view
  rw [List.toFinset_card_of_nodup (h.map rank.identity_injective), List.length_map]

theorem mem_view {rank : Inspector O} {o : O} :
    rank.identity o ∈ (visited.view rank).seen ↔ o ∈ visited.seen := by
  unfold Visited.view
  rw [List.mem_toFinset, List.mem_map_of_injective rank.identity_injective]

section Steps

theorem walk_fail {e : ι → SessionError} {f : ι → β → SessionProgram O TreeState}
    (hinv : OpenedOnce opened) (h : ¬ Accepts graph alloc visited entries) :
    WalkRun root graph alloc ranks visited entries opened fun i =>
      Fallible.ofExcept (.error (.error (e i))) >>= f i :=
  fileRun_fail_bind hinv (Or.inr ⟨_, rfl, h, fun _ => ⟨_, rfl⟩⟩)

theorem walk_done (h : Accepts graph alloc visited entries) :
    WalkRun root graph alloc ranks visited entries (visited.after graph alloc entries).seen
      fun i => pure ((visited.after graph alloc entries).view (ranks i)) :=
  .returned _ (fun _ => rfl) ⟨h.valid.nodup, h.valid.count⟩ (Or.inl ⟨_, rfl, h, rfl, rfl⟩)

variable [Nonempty ι]

/-- A phase under a change of the error. -/
theorem walk_adapt {p : ι → FileProgram (openInterface O) IoError β}
    {f : ι → β → SessionProgram O TreeState} {adapt : ι → Stop IoError → Stop SessionError}
    {good : (ι → β) → List O → Prop} {bad : (ι → Stop IoError) → Prop}
    (h : FileRun root (openCalls ι graph) False OpenedOnce
      (fun r w => Together (fun x => good x w) bad r) opened p)
    (hbad : ∀ e, bad e → ¬ Accepts graph alloc visited entries ∧
      ∀ i, ∃ error, adapt i (e i) = .error error)
    (hgood : ∀ x w, good x w → OpenedOnce w →
      WalkRun root graph alloc ranks visited entries w fun i => f i (x i)) :
    WalkRun root graph alloc ranks visited entries opened fun i =>
      ExceptT.adapt (adapt i) (p i) >>= f i :=
  together_bind_world (together_adapt_world h hbad) hgood

variable [Finite ι]

theorem walk_agree {ok : ι → Bool} {phase : String} {f : ι → Unit → SessionProgram O TreeState}
    (hinv : OpenedOnce opened)
    (hfalse : (∃ i, ok i = false) → ¬ Accepts graph alloc visited entries)
    (hok : (∀ i, ok i = true) →
      WalkRun root graph alloc ranks visited entries opened fun i => f i ()) :
    WalkRun root graph alloc ranks visited entries opened fun i =>
      liftIo (agreePhase (ok i) phase) >>= f i := by
  refine walk_adapt (fileRun_agreed hinv) ?_ ?_
  · rintro _ ⟨hex, rfl⟩
    exact ⟨hfalse hex, fun _ => ⟨_, rfl⟩⟩
  · rintro _ _ ⟨hall, rfl⟩ _
    exact hok hall

theorem walk_agreeBytes (hroot : ∀ i, (ranks i).isRoot = true ↔ i = root) {bytes : List Byte}
    {f : ι → Unit → SessionProgram O TreeState} (hinv : OpenedOnce opened)
    (hlen : bytes.length ≤ MpiIo.maxDescriptorBytes)
    (hok : WalkRun root graph alloc ranks visited entries opened fun i => f i ()) :
    WalkRun root graph alloc ranks visited entries opened fun i =>
      liftIo (agreeBytes (ranks i).isRoot bytes) >>= f i := by
  refine walk_adapt (agreeBytes_run hroot hlen hinv) (fun _ h => h.elim) ?_
  rintro _ _ rfl _
  exact hok

theorem walk_open {o : O} {name : List Byte} {group : O} {phase : String}
    {f : ι → O → SessionProgram O TreeState} (hopen : graph.openLink group name = .ok o)
    (hinv : OpenedOnce opened) (hinv' : OpenedOnce (opened ++ [o]))
    (hok : WalkRun root graph alloc ranks visited entries (opened ++ [o]) fun i => f i o) :
    WalkRun root graph alloc ranks visited entries opened fun i =>
      liftIo (native (N := openInterface O) () (group, name) >>= fun found =>
        collectiveHandlePhase found phase) >>= f i := by
  refine walk_adapt (open_run hopen hinv hinv') (fun _ h => h.elim) ?_
  rintro _ _ ⟨rfl, rfl⟩ _
  exact hok

/-- The identity of an object that is there. -/
theorem walk_identity {ids : ι → ℕ × ℕ} {f : ι → ℕ × ℕ → SessionProgram O TreeState}
    (hinv : OpenedOnce opened)
    (hok : WalkRun root graph alloc ranks visited entries opened fun i => f i (ids i)) :
    WalkRun root graph alloc ranks visited entries opened fun i =>
      identity (O := O) (.ok (ids i)) >>= f i := by
  unfold identity
  simp only [bind_assoc]
  refine walk_adapt (fileRun_agreed hinv) ?_ ?_
  · rintro _ ⟨⟨_, hfalse⟩, _⟩
    contradiction
  · rintro _ _ ⟨_, rfl⟩ _
    exact hok

theorem ofResult_ok_bind {value : β} {f : β → SessionProgram O TreeState} {ε : Type}
    {lift : ε → SessionError} :
    ofResult (N := openInterface O) ((Except.ok value : Except ε β).mapError lift) >>= f
      = f value := rfl

theorem seen_after {entry : Entry O} {o : O} (ho : entry.2 = some o) :
    (visited.after graph alloc [entry]).seen = visited.seen ++ [o] := by
  show visited.seen ++ [entry].filterMap Prod.snd = _
  rw [List.filterMap_cons_some ho]
  rfl

/-- One more entry. -/
theorem accepts_one {entry : Entry O} {o : O} (hvalid : visited.Valid)
    (hadmits : Admits graph alloc entry) (ho : entry.2 = some o) (hnew : o ∉ visited.seen)
    (hroom : visited.seen.length < maxObjects)
    (hbytes : visited.bytes + entryBytes graph entry ≤ maxTreeBytes) :
    Accepts graph alloc visited [entry] := by
  refine ⟨fun e he => List.mem_singleton.mp he ▸ hadmits, ?_, hroom, ?_⟩
  · have hobjects : [entry].filterMap Prod.snd = [o] := List.filterMap_cons_some ho
    rw [hobjects]
    refine List.nodup_append.mpr ⟨hvalid.nodup, List.nodup_singleton o, fun a ha b hb => ?_⟩
    obtain rfl := List.mem_singleton.mp hb
    exact fun heq => hnew (heq ▸ ha)
  · rw [List.map_singleton, List.sum_singleton]
    exact hbytes

/-- What a rank has after one more entry. -/
theorem view_after {entry : Entry O} {o : O} (ho : entry.2 = some o) (rank : Inspector O) :
    (visited.after graph alloc [entry]).view rank
      = { seen := insert (rank.identity o) (visited.view rank).seen
          bytes := visited.bytes + entryBytes graph entry
          out := visited.out ++ (infoAt graph alloc entry).toList } := by
  have hseen : ((visited.after graph alloc [entry]).view rank).seen
      = insert (rank.identity o) (visited.view rank).seen := by
    show ((visited.after graph alloc [entry]).seen.map rank.identity).toFinset = _
    rw [seen_after ho, List.map_append, List.toFinset_append, Finset.union_comm]
    rfl
  have hout : [entry].filterMap (infoAt graph alloc) = (infoAt graph alloc entry).toList := by
    cases hinfo : infoAt graph alloc entry with
    | none => exact List.filterMap_cons_none hinfo
    | some info => exact List.filterMap_cons_some hinfo
  rw [TreeState.mk.injEq]
  exact ⟨hseen, rfl, congrArg (visited.out ++ ·) hout⟩

theorem accepts_head {entry : Entry O} (h : Accepts graph alloc visited (entry :: entries)) :
    Accepts graph alloc visited [entry] := (accepts_append.mp h).1

theorem openedOnce_snoc {o : O} (h : visited.Valid) (hnew : o ∉ visited.seen)
    (hroom : visited.seen.length < maxObjects) : OpenedOnce (visited.seen ++ [o]) := by
  refine ⟨List.nodup_append.mpr ⟨h.nodup, List.nodup_singleton o, fun a ha b hb => ?_⟩, ?_⟩
  · obtain rfl := List.mem_singleton.mp hb
    exact fun heq => hnew (heq ▸ ha)
  · rw [List.length_append]
    exact hroom

theorem openedOnce_of_valid (h : visited.Valid) : OpenedOnce visited.seen := ⟨h.nodup, h.count⟩

/-- An object that was not seen before. -/
theorem walk_fresh {group o : O} {link : Link O} {labels : List (List Byte)}
    {f : ι → ℕ × ℕ → SessionProgram O TreeState} (hvalid : visited.Valid)
    (hmem : link ∈ graph.links group) (ho : link.target = some o)
    (hok : o ∉ visited.seen → visited.seen.length < maxObjects →
      WalkRun root graph alloc ranks visited ((labels, link.target) :: entries) visited.seen
        fun i => f i ((ranks i).identity o)) :
    WalkRun root graph alloc ranks visited ((labels, link.target) :: entries) visited.seen
      fun i => identity (graph.hardObjectIdentity (ranks i).identity group link.name)
        >>= fun id => liftIo (agreePhase ((visited.view (ranks i)).seen.card < maxObjects
          && id ∉ (visited.view (ranks i)).seen) "session catalog alias or cycle")
        >>= fun _ => f i id := by
  have hinv := openedOnce_of_valid hvalid
  simp only [hardObjectIdentity_eq hmem ho]
  refine walk_identity hinv ?_
  simp only [card_view hvalid.nodup]
  refine walk_agree hinv ?_ fun hfresh => ?_
  · rintro ⟨_, hbad⟩ h
    have hcount := h.count
    have hnodup := h.nodup
    rw [List.length_cons] at hcount
    have hobjects : ((labels, link.target) :: entries).filterMap Prod.snd
        = o :: entries.filterMap Prod.snd := List.filterMap_cons_some ho
    rw [hobjects] at hnodup
    have hnew : o ∉ visited.seen := fun hseen =>
      List.disjoint_of_nodup_append hnodup hseen List.mem_cons_self
    rw [decide_eq_true (show visited.seen.length < maxObjects by omega),
      decide_eq_true (mem_view.not.mpr hnew)] at hbad
    contradiction
  · have hfresh := hfresh (Classical.arbitrary ι)
    rw [Bool.and_eq_true, decide_eq_true_eq, decide_eq_true_eq] at hfresh
    exact hok (mem_view.not.mp hfresh.2) hfresh.1

/-- **One link** and what is below it. -/
theorem walkLink_run (hroot : ∀ i, (ranks i).isRoot = true ↔ i = root)
    (hmemory : ∀ i n, (ranks i).granted n = true) {depth : ℕ}
    {descend : ι → O → String → TreeState → SessionProgram O TreeState}
    {front : List (List Byte)} {pre : String} (hpre : Prefix front pre) {group : O}
    {link : Link O} {index : ℕ} (hlink : (graph.links group)[index]? = some link)
    (hvalid : visited.Valid)
    (hdescend : ∀ o path (visited' : Visited O), (graph.object o).hasType .group = true →
      Prefix (front ++ [link.name]) path → (front ++ [link.name]).length ≤ maxDepth →
      visited'.Valid → WalkRun root graph alloc ranks visited'
        (preorder (treeEdges graph) depth (front ++ [link.name]) (some o)) visited'.seen
        fun i => descend i o path (visited'.view (ranks i))) :
    WalkRun root graph alloc ranks visited
      (branch (treeEdges graph) depth front (link.name, link.target)) visited.seen
      fun i => walkLink graph alloc (ranks i) (descend i) group pre (visited.view (ranks i))
        index := by
  have hinv := openedOnce_of_valid hvalid
  have hmem : link ∈ graph.links group := List.mem_of_getElem? hlink
  have hfound : graph.linkNameByIdx group index = .ok (link.name.length,
      link.name.take maxComponent ++ List.replicate
        (maxComponent + 1 - (link.name.take maxComponent).length) 0) := by
    unfold LinkGraph.linkNameByIdx
    rw [hlink]
    rfl
  have i₀ : ι := Classical.arbitrary ι
  have hadmits : ∀ {visited : Visited O} {rest : List (Entry O)},
      Accepts graph alloc visited ((front ++ [link.name], link.target) :: rest) →
        Admits graph alloc (front ++ [link.name], link.target) :=
    fun h => h.admits _ List.mem_cons_self
  have hpath : ∀ {component : String}, fromUtf8 link.name = some component →
      pathOf (front ++ [link.name]) = some (joinPath pre component) := by
    intro component h
    rw [pathOf_snoc, hpre.path, h]
    rfl
  have hentry : ∀ {component : String}, fromUtf8 link.name = some component →
      entryBytes graph (front ++ [link.name], link.target)
        = (joinPath pre component).utf8ByteSize
          + (link.target.bind graph.dataset).elim 0 datasetBytes := by
    intro component h
    unfold entryBytes
    rw [hpath h]
    rfl
  unfold walkLink
  simp only [hfound]
  refine walk_agree hinv ?_ fun hname => ?_
  · rintro ⟨_, hbad⟩ h
    have hname := (hadmits h).name link.name (List.getLast?_concat ..)
    simp [Except.toOption, hname] at hbad
  have hlen : 0 < link.name.length ∧ link.name.length ≤ maxComponent := by
    have := hname i₀
    simpa [Except.toOption] using this
  have hnameOk : ∀ label ∈ (front ++ [link.name]).getLast?,
      0 < label.length ∧ label.length ≤ maxComponent := by
    intro label hlast
    rw [List.getLast?_concat] at hlast
    exact Option.some.inj hlast ▸ hlen
  simp only [ofResult_ok_bind, take_nameBuffer hlen.2]
  have hcomponent : maxComponent ≤ MpiIo.maxDescriptorBytes := by decide
  refine walk_agreeBytes hroot hinv (hlen.2.trans hcomponent) ?_
  refine walk_agree hinv ?_ fun hutf => ?_
  · rintro ⟨_, hbad⟩ h
    obtain ⟨path, hpath, _⟩ := (hadmits h).path
    have hnone := Option.not_isSome_iff_eq_none.mp (Bool.eq_false_iff.mp hbad)
    rw [pathOf_snoc, hpre.path, hnone] at hpath
    contradiction
  obtain ⟨component, hdecoded⟩ := Option.isSome_iff_exists.mp (hutf i₀)
  have hpath := hpath hdecoded
  have hentry := hentry hdecoded
  simp only [hdecoded, orPanic_some_bind]
  refine walk_agree hinv ?_ fun hvalidPath => ?_
  · rintro ⟨_, hbad⟩ h
    obtain ⟨path, hpath', hvalid⟩ := (hadmits h).path
    rw [hpath] at hpath'
    rw [Option.some.inj hpath', hvalid] at hbad
    contradiction
  have hvalidPath := hvalidPath i₀
  have hsize := (validPath_spec hvalidPath).size_le
  have hbytes : checkedAdd visited.bytes (joinPath pre component).utf8ByteSize
      = some (visited.bytes + (joinPath pre component).utf8ByteSize) := by
    have hlimit : maxTreeBytes + maxPath < usizeLimit := by decide
    have := hvalid.bytes
    exact checkedAdd_eq_some.mpr ⟨by omega, rfl⟩
  show WalkRun root graph alloc ranks visited _ visited.seen fun i =>
    orPanic (checkedAdd visited.bytes (joinPath pre component).utf8ByteSize) >>= _
  simp only [hbytes, orPanic_some_bind]
  refine walk_agree hinv ?_ fun hbytesFit => ?_
  · rintro ⟨_, hbad⟩ h
    have hcount := (accepts_head h).bytes
    rw [List.map_singleton, List.sum_singleton, hentry] at hcount
    exact of_decide_eq_false hbad (by omega)
  have hbytesFit := of_decide_eq_true (hbytesFit i₀)
  simp only [cString_of_join (validPath_spec hvalidPath).zero, utf8Bytes_fromUtf8 hdecoded,
    orPanic_some_bind, linkIsHardAndType_eq hmem]
  refine walk_agree hinv (fun hfail => hfail.elim fun _ hbad => by contradiction) fun _ => ?_
  simp only [ofResult_ok_bind]
  refine walk_agreeBytes hroot hinv (show 1 ≤ MpiIo.maxDescriptorBytes by decide) ?_
  cases hgroup : link.target.any fun o => (graph.object o).hasType .group with
  | false =>
    simp only [Bool.not_false, if_true, checkKind, linkIsHardAndType_eq hmem]
    refine walk_agree hinv ?_ fun hkind => ?_
    · rintro ⟨_, hbad⟩ h
      obtain ⟨o, ho, hobject | ⟨hobject, _⟩⟩ := (hadmits h).object
      · have ho : link.target = some o := ho
        rw [ho, Option.any_some, hobject] at hgroup
        contradiction
      · have ho : link.target = some o := ho
        rw [ho, Option.any_some, hobject] at hbad
        exact of_decide_eq_false hbad rfl
    have hkind : (link.target.any fun o => (graph.object o).hasType .dataset) = true :=
      Option.some.inj (of_decide_eq_true (hkind i₀))
    obtain ⟨o, ho, htype⟩ := (Option.any_eq_true _ _).mp hkind
    obtain ⟨dataset, hobject⟩ := exists_dataset htype
    have hdataset := dataset_of_object hobject
    have hfill : ValuesFill dataset := fun attr stored =>
      graph.values_fill o dataset attr stored hobject
    have hinfo : infoAt graph alloc (front ++ [link.name], link.target)
        = (leaf (alloc (joinPath pre component)) dataset (joinPath pre component)).toOption :=
      infoAt_eq ho hdataset hpath
    have hbelow : preorder (treeEdges graph) depth (front ++ [link.name]) link.target = [] := by
      rw [ho]
      exact preorder_dataset hobject depth _
    have hentry : entryBytes graph (front ++ [link.name], link.target)
        = (joinPath pre component).utf8ByteSize + datasetBytes dataset := by
      rw [hentry, ho, Option.bind_some, hdataset]
      rfl
    simp only [Bool.false_eq_true, if_false]
    refine walk_fresh hvalid hmem ho fun hnew hroom => ?_
    have hinv' := openedOnce_snoc hvalid hnew hroom
    refine walk_open (openLink_eq hmem ho) hinv hinv' ?_
    simp only [hdataset, orPanic_some_bind]
    cases hleaf : leaf (alloc (joinPath pre component)) dataset (joinPath pre component) with
    | error stop =>
      cases stop with
      | panic => exact absurd hleaf (leaf_ne_panic hfill)
      | error e =>
        refine walk_fail hinv' fun h => ?_
        obtain ⟨o', ho', hother | ⟨_, hsome⟩⟩ := (hadmits h).object
        · obtain rfl : o = o' := Option.some.inj (ho.symm.trans ho')
          rw [hobject] at hother
          contradiction
        · rw [hinfo, hleaf] at hsome
          contradiction
    | ok info =>
      rw [hleaf] at hinfo
      have hadmit : Admits graph alloc (front ++ [link.name], link.target) :=
        ⟨hnameOk, ⟨_, hpath, hvalidPath⟩, o, ho, .inr ⟨htype, by rw [hinfo]; rfl⟩⟩
      simp only [Fallible.ofExcept_ok_bind, metadataBytes_eq (leaf_eq_ok hfill hleaf) hbytesFit,
        orPanic_some_bind]
      refine walk_agree hinv' ?_ fun hmetadata => ?_
      · rintro ⟨_, hbad⟩ h
        have hcount := (accepts_head h).bytes
        rw [List.map_singleton, List.sum_singleton, hentry] at hcount
        exact of_decide_eq_false hbad (by omega)
      have hmetadata := of_decide_eq_true (hmetadata i₀)
      refine walk_agree hinv' (fun hfail => hfail.elim fun i hbad => ?_) fun _ => ?_
      · rw [hmemory i] at hbad
        contradiction
      have hone := accepts_one hvalid hadmit ho hnew hroom (by rw [hentry]; omega)
      have hdone : WalkRun root graph alloc ranks visited _ _ _ := walk_done hone
      have hlast : ((front ++ [link.name], link.target) : Entry O).2 = some o := ho
      simp only [view_after hlast, seen_after hlast, hinfo, hentry] at hdone
      rw [hbelow]
      simp only [← Nat.add_assoc] at hdone
      exact hdone
  | true =>
    obtain ⟨o, ho, hgroup⟩ := (Option.any_eq_true _ _).mp hgroup
    simp only [Bool.not_true, Bool.false_eq_true, if_false, if_true]
    refine walk_fresh hvalid hmem ho fun hnew hroom => ?_
    have hdataset : graph.dataset o = none := dataset_eq_none hgroup
    have hentry : entryBytes graph (front ++ [link.name], link.target)
        = (joinPath pre component).utf8ByteSize := by
      rw [hentry, ho]
      simp [hdataset]
    have hadmit : Admits graph alloc (front ++ [link.name], link.target) :=
      ⟨hnameOk, ⟨_, hpath, hvalidPath⟩, o, ho, .inl hgroup⟩
    have hone := accepts_one hvalid hadmit ho hnew hroom (hentry ▸ hbytesFit)
    have hseen : (visited.after graph alloc [(front ++ [link.name], link.target)]).seen
        = visited.seen ++ [o] := seen_after ho
    have hinfo : infoAt graph alloc (front ++ [link.name], link.target) = none :=
      infoAt_eq_none ho hdataset
    refine walk_open (openLink_eq hmem ho) hinv (openedOnce_snoc hvalid hnew hroom) ?_
    have hsnoc := hpre.snoc hdecoded hvalidPath
    have hbelow := hdescend o (joinPath pre component)
      (visited.after graph alloc [(front ++ [link.name], link.target)]) hgroup
      hsnoc (hsnoc.length_le_maxDepth hvalidPath) hone.valid
    have hview : ∀ i,
        (visited.after graph alloc [(front ++ [link.name], link.target)]).view (ranks i)
        = { seen := insert ((ranks i).identity o) (visited.view (ranks i)).seen
            bytes := visited.bytes + (joinPath pre component).utf8ByteSize
            out := visited.out } := by
      intro i
      have hlast : ((front ++ [link.name], link.target) : Entry O).2 = some o := ho
      rw [view_after hlast, hentry, hinfo, Option.toList_none, List.append_nil]
    simp only [hview, hseen] at hbelow
    rw [← ho] at hbelow
    exact hbelow.mono (fun _ => id) fun r w' h => Outcome.append hone h

omit [Nonempty ι] [Finite ι] in
/-- Every link has an entry. -/
theorem length_links_le (depth : ℕ) (front : List (List Byte)) (group : O) :
    (graph.links group).length
      ≤ (preorder (treeEdges graph) (depth + 1) front (some group)).length := by
  rw [preorder_succ, List.length_flatMap]
  have hlength : (treeEdges graph (some group)).length = (graph.links group).length :=
    List.length_map _
  rw [← hlength]
  calc (treeEdges graph (some group)).length
      = ((treeEdges graph (some group)).map fun _ => 1).sum := by
        rw [List.map_const', List.sum_replicate, smul_eq_mul, Nat.mul_one]
    _ ≤ _ := List.sum_le_sum fun edge _ => by
        show 1 ≤ (branch (treeEdges graph) depth front edge).length
        rw [branch, List.length_cons]
        exact Nat.le_add_left _ _

/-- **The walk below a group.** -/
theorem walk_run (hroot : ∀ i, (ranks i).isRoot = true ↔ i = root)
    (hmemory : ∀ i n, (ranks i).granted n = true) {depth : ℕ} {front : List (List Byte)}
    {pre : String} (hpre : Prefix front pre) {group : O}
    (hgroup : (graph.object group).hasType .group = true) (hvalid : visited.Valid)
    (hdepth : front.length + depth = maxDepth + 1) (hfront : front.length ≤ maxDepth) :
    WalkRun root graph alloc ranks visited (preorder (treeEdges graph) depth front (some group))
      visited.seen
      fun i => walk graph alloc (ranks i) depth group pre (visited.view (ranks i)) := by
  induction depth generalizing front pre group visited with
  | zero => omega
  | succ depth ih =>
    have hinv := openedOnce_of_valid hvalid
    have hcount : graph.groupLinkCount group = .ok (graph.links group).length := by
      unfold LinkGraph.groupLinkCount
      rw [if_pos hgroup]
    have hleft : checkedSub maxObjects visited.seen.length
        = some (maxObjects - visited.seen.length) := checkedSub_eq_some.mpr ⟨hvalid.count, rfl⟩
    unfold walk
    simp only [hcount]
    refine walk_agree hinv (fun ⟨_, hbad⟩ => by contradiction) fun _ => ?_
    simp only [ofResult_ok_bind]
    refine walk_agreeBytes hroot hinv ?_ ?_
    · rw [length_leBytes]
      decide
    simp only [card_view hvalid.nodup, hleft, orPanic_some_bind]
    refine walk_agree hinv ?_ fun hbound => ?_
    · rintro ⟨_, hbad⟩ h
      have hentries := h.count
      have hlinks : (graph.links group).length
          ≤ (preorder (treeEdges graph) (depth + 1) front (some group)).length :=
        length_links_le depth front group
      exact of_decide_eq_false hbad (by omega)
    let passed := fun k => ((treeEdges graph (some group)).take k).flatMap
      (branch (treeEdges graph) depth front)
    have hpassed : ∀ k, preorder (treeEdges graph) (depth + 1) front (some group)
        = passed k ++ ((treeEdges graph (some group)).drop k).flatMap
          (branch (treeEdges graph) depth front) := by
      intro k
      rw [preorder_succ, ← List.flatMap_append, List.take_append_drop]
    have hall : passed (List.range (graph.links group).length).length
        = preorder (treeEdges graph) (depth + 1) front (some group) := by
      have hlength : (treeEdges graph (some group)).length = (graph.links group).length :=
        List.length_map _
      show ((treeEdges graph (some group)).take _).flatMap _ = _
      rw [List.length_range, ← hlength, List.take_length, preorder_succ]
    show WalkRun root graph alloc ranks visited _ visited.seen _
    rw [← hall]
    have hloop : FileRun root (openCalls ι graph) False OpenedOnce
        (fun r w => Together (fun x => Reached graph alloc ranks visited
          (passed (List.range (graph.links group).length).length) x w)
          (Refused graph alloc visited
            (preorder (treeEdges graph) (depth + 1) front (some group))) r) visited.seen
        fun i => (List.range (graph.links group).length).foldlM
          (walkLink graph alloc (ranks i) (walk graph alloc (ranks i) depth) group pre)
          (visited.view (ranks i)) := by
      refine together_foldlM_world
        (motive := fun k x w => Reached graph alloc ranks visited (passed k) x w) _ ?_ ?_ hinv
      · intro k index hindex x w hx _
        obtain ⟨haccepts, rfl, rfl⟩ := hx
        obtain ⟨hk, rfl⟩ := List.getElem?_eq_some_iff.mp hindex
        rw [List.length_range] at hk
        simp only [List.getElem_range]
        obtain ⟨link, hlink⟩ : ∃ link, (graph.links group)[k]? = some link :=
          ⟨_, List.getElem?_eq_getElem hk⟩
        have hedge : (treeEdges graph (some group))[k]? = some (link.name, link.target) := by
          show ((graph.links group).map _)[k]? = _
          rw [List.getElem?_map, hlink]
          rfl
        have hsucc : passed (k + 1)
            = passed k ++ branch (treeEdges graph) depth front (link.name, link.target) := by
          show ((treeEdges graph (some group)).take (k + 1)).flatMap _ = _
          rw [List.take_add_one, hedge, List.flatMap_append]
          simp [passed]
        have hlinkRun : WalkRun root graph alloc ranks (visited.after graph alloc (passed k))
            (branch (treeEdges graph) depth front (link.name, link.target))
            (visited.after graph alloc (passed k)).seen
            fun i => walkLink graph alloc (ranks i) (walk graph alloc (ranks i) depth) group pre
              ((visited.after graph alloc (passed k)).view (ranks i)) k := by
          refine walkLink_run hroot hmemory hpre hlink haccepts.valid ?_
          intro o path visited' hgroup' hpre' hlen hvalid'
          refine ih hpre' hgroup' hvalid' ?_ hlen
          rw [List.length_append, List.length_singleton]
          omega
        refine hlinkRun.mono (fun _ => id) fun r w' h => ?_
        have h := Outcome.append haccepts h
        rw [← hsucc] at h
        refine h.mono (fun _ => id) ?_
        rintro e ⟨hnot, herror⟩
        rw [Refused, hpassed (k + 1), accepts_append]
        exact ⟨fun h => hnot h.1, herror⟩
      · show Reached graph alloc ranks visited [] _ _
        rw [Reached, after_nil]
        exact ⟨accepts_nil hvalid, rfl, rfl⟩
    exact hall ▸ hloop

end Steps

end Walk

end PencilRs.Analysis
