import PencilRs.Analysis.Hdf5Walk

/-!
# What the catalog of a session accepts

The catalog accepts the tree of a session exactly if every object below the root is reached by one
path, the names and the paths are valid, the objects are groups and committed datasets, and the
bounds hold.  It lists each dataset once with the path that leads to it, the same on all ranks, and
on no run, whatever the links, an object is opened twice.
-/

set_option autoImplicit false

namespace PencilRs.Analysis

open PencilRs.Computation PencilRs.Model PencilRs.Model.Hdf5 FileProgram Semantics.Ensures

variable {O : Type}

/-- The labels lead from the root of the tree to this. -/
abbrev Leads (graph : LinkGraph O) (labels : List (List Byte)) (v : Option O) : Prop :=
  Route (treeEdges graph) (some graph.root) labels v

/-- A tree of groups and committed datasets within the bounds of a session. -/
structure SessionTree (graph : LinkGraph O) : Prop where
  tree : IsTree (treeEdges graph) (some graph.root)
  names : ∀ labels v, Leads graph labels v → ∀ label ∈ labels,
    0 < label.length ∧ label.length ≤ maxComponent
  paths : ∀ labels v, Leads graph labels v → labels ≠ [] →
    ∃ path, pathOf labels = some path ∧ validPath path = true
  objects : ∀ labels v, Leads graph labels v → ∃ o, v = some o ∧
    ((graph.object o).hasType .group = true ∨ ∃ dataset scalar global extra,
      graph.dataset o = some dataset ∧ IsLeaf dataset scalar global extra)
  bounds : ∃ listing : List (Entry O), listing.Nodup ∧
    (∀ entry, entry ∈ listing ↔ Leads graph entry.1 entry.2) ∧ listing.length ≤ maxObjects ∧
    (listing.map (entryBytes graph)).sum ≤ maxTreeBytes

/-- Each dataset of the tree is listed once, with its path, as the catalog describes it. -/
def IsCatalog (graph : LinkGraph O) (out : List MpiIo.DatasetInfo) : Prop :=
  ∃ listing : List (Entry O), (listing.map Prod.snd).Nodup ∧
    (∀ entry, entry ∈ listing ↔
      Leads graph entry.1 entry.2 ∧ (entry.2.bind graph.dataset).isSome = true) ∧
    List.Forall₂ (fun entry info => ∃ dataset path, entry.2.bind graph.dataset = some dataset ∧
      pathOf entry.1 = some path ∧ Describes dataset path info) listing out

/-! ## Lengths of routes -/

/-- A route whose fronts have valid paths is no longer than a path is deep. -/
theorem exists_prefix {labels : List (List Byte)}
    (h : ∀ front, front <+: labels → front ≠ [] →
      ∃ path, pathOf front = some path ∧ validPath path = true) (hne : labels ≠ []) :
    ∃ path, Prefix labels path ∧ validPath path = true := by
  induction labels using List.reverseRecOn with
  | nil => contradiction
  | append_singleton front label ih =>
    obtain ⟨pre, hpre⟩ : ∃ pre, Prefix front pre := by
      by_cases hnil : front = []
      · exact ⟨"", hnil ▸ Prefix.nil⟩
      · obtain ⟨path, hpath, _⟩ := ih (fun front' hfront hne' =>
          h front' (hfront.trans (List.prefix_append front [label])) hne') hnil
        exact ⟨path, hpath⟩
    obtain ⟨path, hpath, hvalid⟩ := h _ List.prefix_rfl hne
    rw [pathOf_snoc, hpre.path, Option.bind_some, Option.map_eq_some_iff] at hpath
    obtain ⟨component, hlabel, rfl⟩ := hpath
    exact ⟨_, hpre.snoc hlabel hvalid, hvalid⟩

theorem length_le_of_paths {labels : List (List Byte)}
    (h : ∀ front, front <+: labels → front ≠ [] →
      ∃ path, pathOf front = some path ∧ validPath path = true) : labels.length ≤ maxDepth := by
  by_cases hnil : labels = []
  · rw [hnil]
    exact Nat.zero_le _
  · obtain ⟨path, hprefix, hvalid⟩ := exists_prefix h hnil
    exact hprefix.length_le_maxDepth hvalid

/-! ## Accepted trees -/

section Accepted

variable {graph : LinkGraph O} {alloc : String → InspectAllocator}

theorem nodup_labels (graph : LinkGraph O) (v : Option O) :
    ((treeEdges graph v).map Prod.fst).Nodup := by
  cases v with
  | none => exact List.nodup_nil
  | some o =>
    show (((graph.links o).map _).map Prod.fst).Nodup
    rw [List.map_map]
    exact nodup_names graph o

/-- The state before the walk. -/
def atRoot (graph : LinkGraph O) : Visited O := ⟨[graph.root], 0, []⟩

theorem atRoot_valid : (atRoot graph).Valid :=
  ⟨List.nodup_singleton _, show 1 ≤ maxObjects by decide, Nat.zero_le _⟩

/-- What is below the root. -/
def below (graph : LinkGraph O) : List (Entry O) :=
  preorder (treeEdges graph) (maxDepth + 1) [] (some graph.root)

theorem mem_below {labels : List (List Byte)} {v : Option O} : (labels, v) ∈ below graph ↔
    labels ≠ [] ∧ labels.length ≤ maxDepth + 1 ∧ Leads graph labels v := by
  unfold below
  rw [mem_preorder]
  constructor
  · rintro ⟨rest, rfl, hne, hlen, hroute⟩
    exact ⟨hne, hlen, hroute⟩
  · rintro ⟨hne, hlen, hroute⟩
    exact ⟨labels, rfl, hne, hlen, hroute⟩

theorem entryBytes_root : entryBytes graph ([], some graph.root) = 0 := by
  show _ + (graph.dataset graph.root).elim 0 datasetBytes = 0
  rw [dataset_eq_none graph.root_group]
  rfl

theorem map_snd_eq {entries : List (Entry O)} (h : ∀ entry ∈ entries, Admits graph alloc entry) :
    entries.map Prod.snd = (entries.filterMap Prod.snd).map some := by
  induction entries with
  | nil => rfl
  | cons entry entries ih =>
    obtain ⟨o, ho, _⟩ := (h entry List.mem_cons_self).object
    rw [List.filterMap_cons_some ho, List.map_cons, List.map_cons, ho,
      ih fun e he => h e (List.mem_cons_of_mem _ he)]

/-- All routes are short if those below the root are admitted. -/
theorem length_le_of_admits (h : ∀ entry ∈ below graph, Admits graph alloc entry)
    {labels : List (List Byte)} {v : Option O} (hroute : Leads graph labels v) :
    labels.length ≤ maxDepth := by
  refine route_le_of_members (fun entry hentry => ?_) hroute
  obtain ⟨hlen, hentry⟩ := mem_members_iff.mp hentry
  refine length_le_of_paths fun front hfront hne => ?_
  obtain ⟨w, hw⟩ := hentry.take front.length
  rw [← List.prefix_iff_eq_take.mp hfront] at hw
  exact (h (front, w) (mem_below.mpr ⟨hne, hfront.length_le.trans hlen, hw⟩)).path

theorem members_eq : members (treeEdges graph) (maxDepth + 1) (some graph.root)
    = ([], some graph.root) :: below graph := rfl

/-- The objects of admitted entries are distinct, the root among them, exactly in a tree. -/
theorem nodup_objects_iff (h : ∀ entry ∈ below graph, Admits graph alloc entry) :
    ((atRoot graph).seen ++ (below graph).filterMap Prod.snd).Nodup ↔
      IsTree (treeEdges graph) (some graph.root) := by
  rw [← nodup_members_iff (nodup_labels graph) fun labels v hroute =>
    (length_le_of_admits h hroute).trans (Nat.le_succ maxDepth), members_eq, List.map_cons,
    map_snd_eq h]
  show _ ↔ ((graph.root :: (below graph).filterMap Prod.snd).map some).Nodup
  rw [List.nodup_map_iff (Option.some_injective O)]
  rfl

theorem isSome_infoAt (hgrants : ∀ path extraRank, GrantsInspection (alloc path) extraRank)
    {entry : Entry O} {o : O} {dataset : Dataset} {path : String} (ho : entry.2 = some o)
    (hdataset : graph.dataset o = some dataset) (hpath : pathOf entry.1 = some path) :
    (infoAt graph alloc entry).isSome = true ↔
      ∃ scalar global extra, IsLeaf dataset scalar global extra := by
  have hfill : ValuesFill dataset := fun attr stored =>
    graph.values_fill o dataset attr stored (object_of_dataset hdataset)
  rw [← leaf_isOk_iff hfill (hgrants path), infoAt_eq ho hdataset hpath]
  cases leaf (alloc path) dataset path with
  | ok info => exact ⟨fun _ => ⟨info, rfl⟩, fun _ => rfl⟩
  | error e => exact ⟨nofun, fun ⟨_, h⟩ => nomatch h⟩

/-- **The walk goes on over the whole tree** exactly if it is a tree of a session. -/
theorem accepts_below_iff (hgrants : ∀ path extraRank, GrantsInspection (alloc path) extraRank) :
    Accepts graph alloc (atRoot graph) (below graph) ↔ SessionTree graph := by
  constructor
  · intro h
    have hlength : ∀ {labels v}, Leads graph labels v → labels.length ≤ maxDepth + 1 :=
      fun hroute => (length_le_of_admits h.admits hroute).trans (Nat.le_succ _)
    have hentry : ∀ labels v, Leads graph labels v → labels ≠ [] →
        Admits graph alloc (labels, v) := fun labels v hroute hne =>
      h.admits _ (mem_below.mpr ⟨hne, hlength hroute, hroute⟩)
    have hpaths : ∀ labels v, Leads graph labels v → labels ≠ [] →
        ∃ path, pathOf labels = some path ∧ validPath path = true :=
      fun labels v hroute hne => (hentry labels v hroute hne).path
    refine ⟨(nodup_objects_iff h.admits).mp h.nodup, ?_, hpaths, ?_, ?_⟩
    · intro labels v hroute label hlabel
      obtain ⟨front, back, rfl⟩ := List.append_of_mem hlabel
      obtain ⟨w, hw⟩ := hroute.take (front ++ [label]).length
      have hsplit : front ++ label :: back = (front ++ [label]) ++ back :=
        (List.append_assoc front [label] back).symm
      rw [hsplit, List.take_left] at hw
      exact (hentry _ w hw (List.append_ne_nil_of_right_ne_nil _ (List.cons_ne_nil _ _))).name label
        (List.getLast?_concat ..)
    · intro labels v hroute
      by_cases hnil : labels = []
      · subst hnil
        cases hroute
        exact ⟨graph.root, rfl, .inl graph.root_group⟩
      · obtain ⟨o, ho, hgroup | ⟨htype, hinfo⟩⟩ := (hentry labels v hroute hnil).object
        · exact ⟨o, ho, .inl hgroup⟩
        · obtain ⟨path, hpath, _⟩ := hpaths labels v hroute hnil
          obtain ⟨dataset, hobject⟩ := exists_dataset htype
          have hdataset := dataset_of_object hobject
          obtain ⟨scalar, global, extra, hleaf⟩ :=
            (isSome_infoAt hgrants ho hdataset hpath).mp hinfo
          exact ⟨o, ho, .inr ⟨dataset, scalar, global, extra, hdataset, hleaf⟩⟩
    · refine ⟨([], some graph.root) :: below graph,
        (nodup_members (nodup_labels graph) (maxDepth + 1) (some graph.root)).of_map, ?_, ?_, ?_⟩
      · rintro ⟨labels, v⟩
        rw [← members_eq, mem_members_iff]
        exact ⟨And.right, fun hroute => ⟨hlength hroute, hroute⟩⟩
      · have hcount : 1 + (below graph).length ≤ maxObjects := h.count
        rw [List.length_cons]
        omega
      · rw [List.map_cons, List.sum_cons, entryBytes_root]
        exact h.bytes
  · intro h
    have hlength : ∀ {labels v}, Leads graph labels v → labels.length ≤ maxDepth := by
      intro labels v hroute
      refine length_le_of_paths fun front hfront hne => ?_
      obtain ⟨w, hw⟩ := hroute.take front.length
      rw [← List.prefix_iff_eq_take.mp hfront] at hw
      exact h.paths front w hw hne
    have hadmits : ∀ entry ∈ below graph, Admits graph alloc entry := by
      rintro ⟨labels, v⟩ hentry
      obtain ⟨hne, _, hroute⟩ := mem_below.mp hentry
      obtain ⟨path, hpath, hvalid⟩ := h.paths labels v hroute hne
      obtain ⟨o, ho, hobject⟩ := h.objects labels v hroute
      refine ⟨fun label hlast => h.names labels v hroute label (List.mem_of_getLast? hlast),
        ⟨path, hpath, hvalid⟩, o, ho, hobject.imp_right ?_⟩
      rintro ⟨dataset, scalar, global, extra, hdataset, hleaf⟩
      refine ⟨?_, (isSome_infoAt hgrants ho hdataset hpath).mpr ⟨scalar, global, extra, hleaf⟩⟩
      rw [object_of_dataset hdataset]
      rfl
    obtain ⟨listing, hnodup, hlisting, hcount, hbytes⟩ := h.bounds
    have hperm : listing.Perm (([], some graph.root) :: below graph) := by
      refine (List.perm_ext_iff_of_nodup hnodup
        (nodup_members (nodup_labels graph) (maxDepth + 1) (some graph.root)).of_map).mpr ?_
      rintro ⟨labels, v⟩
      rw [hlisting, mem_members_iff]
      exact ⟨fun hroute => ⟨(hlength hroute).trans (Nat.le_succ _), hroute⟩, And.right⟩
    refine ⟨hadmits, (nodup_objects_iff hadmits).mpr h.tree, ?_, ?_⟩
    · have hlen := hperm.length_eq
      rw [List.length_cons] at hlen
      show 1 + (below graph).length ≤ maxObjects
      omega
    · have hsum := (hperm.map (entryBytes graph)).sum_eq
      rw [List.map_cons, List.sum_cons, entryBytes_root] at hsum
      show 0 + _ ≤ maxTreeBytes
      omega

/-- What the walk lists. -/
theorem isCatalog_of_accepts (h : Accepts graph alloc (atRoot graph) (below graph)) :
    IsCatalog graph ((atRoot graph).after graph alloc (below graph)).out := by
  refine ⟨(below graph).filter fun entry => (entry.2.bind graph.dataset).isSome, ?_, ?_, ?_⟩
  · refine List.Nodup.sublist (List.filter_sublist.map Prod.snd) ?_
    rw [map_snd_eq h.admits]
    exact h.nodup.of_append_right.map (Option.some_injective O)
  · rintro ⟨labels, v⟩
    rw [List.mem_filter, mem_below]
    constructor
    · rintro ⟨⟨_, _, hroute⟩, hdataset⟩
      exact ⟨hroute, hdataset⟩
    · rintro ⟨hroute, hdataset⟩
      refine ⟨⟨?_, (length_le_of_admits h.admits hroute).trans (Nat.le_succ _), hroute⟩, hdataset⟩
      rintro rfl
      cases hroute
      have hnone : graph.dataset graph.root = none := dataset_eq_none graph.root_group
      rw [Option.bind_some, hnone] at hdataset
      contradiction
  · have hlisted : ∀ entries : List (Entry O), (∀ entry ∈ entries, Admits graph alloc entry) →
        List.Forall₂ (fun entry info => ∃ dataset path, entry.2.bind graph.dataset = some dataset ∧
          pathOf entry.1 = some path ∧ Describes dataset path info)
          (entries.filter fun entry => (entry.2.bind graph.dataset).isSome)
          (entries.filterMap (infoAt graph alloc)) := by
      intro entries hadmits
      induction entries with
      | nil => exact .nil
      | cons entry entries ih =>
        have ih := ih fun e he => hadmits e (List.mem_cons_of_mem _ he)
        obtain ⟨_, ⟨path, hpath, _⟩, o, ho, hobject⟩ := hadmits entry List.mem_cons_self
        have hbind : entry.2.bind graph.dataset = graph.dataset o := by rw [ho, Option.bind_some]
        cases hdataset : graph.dataset o with
        | none =>
          rw [hdataset] at hbind
          have hinfo : infoAt graph alloc entry = none := infoAt_eq_none ho hdataset
          rw [List.filter_cons_of_neg (by rw [hbind]; decide), List.filterMap_cons_none hinfo]
          exact ih
        | some dataset =>
          rw [hdataset] at hbind
          obtain hgroup | ⟨_, hsome⟩ := hobject
          · rw [dataset_eq_none hgroup] at hdataset
            contradiction
          obtain ⟨info, hinfo⟩ := Option.isSome_iff_exists.mp hsome
          rw [List.filter_cons_of_pos (by rw [hbind]; rfl), List.filterMap_cons_some hinfo]
          have hleaf : leaf (alloc path) dataset path = .ok info := by
            rw [infoAt_eq ho hdataset hpath] at hinfo
            cases hleaf : leaf (alloc path) dataset path with
            | ok found =>
              rw [hleaf] at hinfo
              exact congrArg Except.ok (Option.some.inj hinfo)
            | error _ =>
              rw [hleaf] at hinfo
              contradiction
          have hfill : ValuesFill dataset := fun attr stored =>
            graph.values_fill o dataset attr stored (object_of_dataset hdataset)
          exact .cons ⟨dataset, path, hbind, hpath, leaf_eq_ok hfill hleaf⟩ ih
    exact hlisted _ h.admits

end Accepted

/-! ## The catalog on all ranks -/

section Ranks

variable {ι : Type} [Finite ι] {graph : LinkGraph O} {alloc : String → InspectAllocator}
  {ranks : ι → Inspector O} {root : ι}

theorem inspectTree_run (hroot : ∀ i, (ranks i).isRoot = true ↔ i = root)
    (hmemory : ∀ i n, (ranks i).granted n = true) :
    FileRun root (openCalls ι graph) False OpenedOnce
      (fun r _ => Together (fun out => Accepts graph alloc (atRoot graph) (below graph) ∧
          out = fun _ => ((atRoot graph).after graph alloc (below graph)).out)
        (Refused graph alloc (atRoot graph) (below graph)) r) [graph.root]
      fun i => inspectTree graph alloc (ranks i) := by
  have : Nonempty ι := ⟨root⟩
  have hinspect : ∀ i, inspectTree graph alloc (ranks i)
      = (identity (O := O) (.ok ((ranks i).identity graph.root)) >>= fun id =>
        walk graph alloc (ranks i) (maxDepth + 1) graph.root "" ⟨{id}, 0, []⟩)
        >>= fun s => pure s.out := fun i => (bind_assoc _ _ _).symm
  have hview : ∀ i, (atRoot graph).view (ranks i)
      = ⟨{(ranks i).identity graph.root}, 0, []⟩ := fun i => rfl
  have hwalk : WalkRun root graph alloc ranks (atRoot graph) (below graph) [graph.root]
      fun i => identity (O := O) (.ok ((ranks i).identity graph.root)) >>= fun id =>
        walk graph alloc (ranks i) (maxDepth + 1) graph.root "" ⟨{id}, 0, []⟩ := by
    refine walk_identity (openedOnce_of_valid atRoot_valid) ?_
    simp only [← hview]
    exact walk_run hroot hmemory Prefix.nil graph.root_group atRoot_valid
      (Nat.zero_add (maxDepth + 1)) (Nat.zero_le _)
  simp only [hinspect]
  refine together_bind_world hwalk ?_
  rintro _ w ⟨haccepts, rfl, _⟩ hinv
  exact .returned _ (fun _ => rfl) hinv (Or.inl ⟨_, rfl, haccepts, rfl⟩)

/-- **The walk over a tree.**  On any links the catalog returns on all ranks, without a panic: the
bound on the objects is never exceeded and the counter of bytes never overflows, and no object is
opened twice.  It succeeds exactly on the tree of a session, and then lists its datasets, each once
and with its path, the same on all ranks. -/
theorem inspectTree_correct (hroot : ∀ i, (ranks i).isRoot = true ↔ i = root)
    (hmemory : ∀ i n, (ranks i).granted n = true)
    (hgrants : ∀ path extraRank, GrantsInspection (alloc path) extraRank) :
    (fileCollectives root (openCalls ι graph) False).Correct (fun _ _ _ => True)
      (fun opened => opened.Nodup ∧ opened.length ≤ maxObjects) (fun _ => False)
      (fun r _ => (∃ out, (r = fun _ => .ok out) ∧ SessionTree graph ∧ IsCatalog graph out) ∨
        (∃ error : ι → SessionError, r = fun i => .error (.error (error i))) ∧ ¬ SessionTree graph)
      ⟨[graph.root], fun i => (inspectTree graph alloc (ranks i)).run⟩ := by
  have : Nonempty ι := ⟨root⟩
  refine ((inspectTree_run hroot hmemory).mono (fun _ => id) fun r w h => ?_).correct
  obtain ⟨out, rfl, haccepts, rfl⟩ | ⟨e, rfl, hnot, herror⟩ := h
  · exact .inl ⟨_, rfl, (accepts_below_iff hgrants).mp haccepts, isCatalog_of_accepts haccepts⟩
  · refine .inr ⟨⟨fun i => (herror i).choose, funext fun i => ?_⟩,
      fun h => hnot ((accepts_below_iff hgrants).mpr h)⟩
    rw [← (herror i).choose_spec]

end Ranks

/-! ## A group in itself -/

/-- The root links to itself. -/
def loopGraph : LinkGraph Unit where
  object _ := .group [⟨[97], some ()⟩]
  root := ()
  root_group := rfl
  names_nodup := by
    rintro _ _ h
    cases h
    decide
  values_fill := by
    rintro _ _ _ _ h
    contradiction

/-- Two ranks that see different file numbers. -/
def twoInspectors (i : Fin 2) : Inspector Unit where
  isRoot := i = 0
  identity _ := (i, 96)
  identity_injective := fun _ _ _ => rfl
  granted _ := true

theorem inspectTree_correct_loop :
    (fileCollectives 0 (openCalls (Fin 2) loopGraph) False).Correct (fun _ _ _ => True)
      (fun opened => opened.Nodup ∧ opened.length ≤ maxObjects) (fun _ => False)
      (fun r _ =>
        (∃ out, (r = fun _ => .ok out) ∧ SessionTree loopGraph ∧ IsCatalog loopGraph out) ∨
        (∃ error : Fin 2 → SessionError, r = fun i => .error (.error (error i))) ∧
          ¬ SessionTree loopGraph)
      ⟨[()], fun i =>
        (inspectTree loopGraph (fun _ => ⟨fun _ => true, true, true⟩) (twoInspectors i)).run⟩ :=
  inspectTree_correct (fun _ => decide_eq_true_iff) (fun _ _ => rfl)
    fun _ _ => ⟨fun _ _ => rfl, rfl, rfl⟩

end PencilRs.Analysis
