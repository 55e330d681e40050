import PencilRs.Analysis.Hdf5Leaf
import PencilRs.Computation.Forest
import PencilRs.Model.Hdf5Session

/-!
# The entries of the tree of an HDF5 session

The entries of a tree are the routes from its root with what they lead to.  The catalog goes on
over entries as long as each is admitted (its name and its path are valid, and it leads to a group
or a committed dataset), no object comes twice, and the bounds hold.  A path has a bounded number of
components, so a route with a valid path is not longer than that.
-/

set_option autoImplicit false

namespace PencilRs.Analysis

open PencilRs.Computation PencilRs.Model PencilRs.Model.Hdf5

/-! ## Paths -/

theorem utf8Bytes_fromUtf8 {bytes : List Byte} {text : String} (h : fromUtf8 bytes = some text) :
    utf8Bytes text = bytes := by
  unfold fromUtf8 String.fromUTF8? at h
  split at h
  · obtain rfl := Option.some.inj h
    show (bytes.map UInt8.ofBitVec).toArray.toList.map UInt8.toBitVec = bytes
    rw [List.toList_toArray, List.map_map]
    exact List.map_id _
  · contradiction

theorem utf8Bytes_append (s t : String) : utf8Bytes (s ++ t) = utf8Bytes s ++ utf8Bytes t := by
  unfold utf8Bytes
  rw [String.toByteArray_append, ByteArray.data_append, Array.toList_append, List.map_append]

theorem length_splitOn {α : Type} [BEq α] (a : α) (values : List α) :
    (values.splitOn a).length = values.count a + 1 := by
  induction values with
  | nil => rfl
  | cons value values ih =>
    rw [List.splitOn_cons_eq_if_modifyHead, List.count_cons]
    split
    · rw [List.length_cons, ih]
    · rw [List.length_modifyHead, ih, Nat.add_zero]

theorem length_pathComponents (path : String) :
    (pathComponents path).length = path.toList.count '/' + 1 := length_splitOn _ _

/-- A component of a path without a zero has none. -/
theorem cString_of_join {pre component : String} (h : 0 ∉ utf8Bytes (joinPath pre component)) :
    cString component = some (utf8Bytes component) := by
  unfold cString
  rw [if_neg]
  intro hzero
  apply h
  unfold joinPath
  split
  · exact hzero
  · rw [utf8Bytes_append]
    exact List.mem_append_right _ hzero

/-- The path of a route. -/
def pathOf (labels : List (List Byte)) : Option String :=
  labels.foldlM (fun pre name => (fromUtf8 name).map (joinPath pre)) ""

theorem pathOf_snoc (front : List (List Byte)) (label : List Byte) :
    pathOf (front ++ [label])
      = (pathOf front).bind fun pre => (fromUtf8 label).map (joinPath pre) := by
  unfold pathOf
  rw [List.foldlM_append]
  refine congrArg (Option.bind _) (funext fun pre => ?_)
  rw [List.foldlM_cons]
  cases fromUtf8 label <;> rfl

structure ValidPath (path : String) : Prop where
  ne_empty : path ≠ ""
  size_le : path.utf8ByteSize ≤ maxPath
  zero : 0 ∉ utf8Bytes path
  depth : (pathComponents path).length ≤ maxDepth

theorem validPath_spec {path : String} (h : validPath path = true) : ValidPath path := by
  unfold validPath at h
  simp only [Bool.and_eq_true, decide_eq_true_eq] at h
  obtain ⟨⟨⟨⟨hne, hsize⟩, hzero⟩, hdepth⟩, _⟩ := h
  exact ⟨hne, hsize, hzero, hdepth⟩

/-- A route with a path in front of the links of a group. -/
structure Prefix (front : List (List Byte)) (pre : String) : Prop where
  path : pathOf front = some pre
  length_le : front.length ≤ pre.toList.count '/' + 1
  nil_of_empty : pre = "" → front = []

theorem Prefix.nil : Prefix [] "" := ⟨rfl, Nat.zero_le _, fun _ => rfl⟩

theorem Prefix.snoc {front : List (List Byte)} {pre component : String} {label : List Byte}
    (h : Prefix front pre) (hlabel : fromUtf8 label = some component)
    (hvalid : validPath (joinPath pre component) = true) :
    Prefix (front ++ [label]) (joinPath pre component) := by
  refine ⟨?_, ?_, fun hempty => absurd hempty (validPath_spec hvalid).ne_empty⟩
  · rw [pathOf_snoc, h.path, hlabel]
    rfl
  · rw [List.length_append, List.length_singleton]
    by_cases hempty : pre = ""
    · rw [h.nil_of_empty hempty]
      exact Nat.le_add_left _ _
    · unfold joinPath
      rw [if_neg hempty, String.toList_append, String.toList_append, List.count_append,
        List.count_append]
      have hslash : "/".toList.count '/' = 1 := by decide
      have := h.length_le
      omega

/-- A route with a valid path is no longer than a path is deep. -/
theorem Prefix.length_le_maxDepth {front : List (List Byte)} {path : String}
    (h : Prefix front path) (hvalid : validPath path = true) : front.length ≤ maxDepth := by
  have hdepth := (validPath_spec hvalid).depth
  rw [length_pathComponents] at hdepth
  exact h.length_le.trans hdepth

/-! ## Entries -/

/-- A route and what it leads to. -/
abbrev Entry (O : Type) : Type := List (List Byte) × Option O

section Entries

variable {O : Type} (graph : LinkGraph O) (alloc : String → InspectAllocator)

/-- The links as edges: what a soft link leads to has none. -/
def treeEdges : Option O → List (List Byte × Option O)
  | some o => (graph.links o).map fun link => (link.name, link.target)
  | none => []

/-- The bytes a dataset adds for its shapes and its provenance. -/
def datasetBytes (dataset : Dataset) : ℕ :=
  dataset.dims.length * 8
    + 8 * ((dataset.attributes .writerGrid).elim 0 (fun stored => stored.values.length)
      + (dataset.attributes .writerPermutation).elim 0 fun stored => stored.values.length)

/-- The bytes an entry adds: its path, and what a dataset adds. -/
def entryBytes (entry : Entry O) : ℕ :=
  (pathOf entry.1).elim 0 String.utf8ByteSize
    + (entry.2.bind graph.dataset).elim 0 datasetBytes

/-- The bytes of what the catalog says are those of the dataset, and they are counted without an
overflow. -/
theorem metadataBytes_eq {dataset : Dataset} {path : String} {info : MpiIo.DatasetInfo} {bytes : ℕ}
    (h : Describes dataset path info) (hbytes : bytes ≤ maxTreeBytes) :
    metadataBytes bytes info = some (bytes + datasetBytes dataset) := by
  obtain ⟨grid, permutation, hgrid, hpermutation, hleaf, hinfo⟩ := h
  have hprovenance : info.provenance.length
      = 8 * (grid.values.length + permutation.values.length) := by
    rw [hinfo]
    show ((grid.values ++ permutation.values).flatMap (leBytes 8)).length = _
    rw [List.length_flatMap]
    simp only [length_leBytes, List.map_const', List.sum_replicate, List.length_append, smul_eq_mul]
    omega
  have hdataset : datasetBytes dataset = (info.extraShape.length + info.globalShape.length) * 8
      + 8 * (grid.values.length + permutation.values.length) := by
    unfold datasetBytes
    rw [hleaf.complete.dims, hgrid, hpermutation, List.length_append]
    rfl
  have hlengths : grid.values.length ≤ info.globalShape.length ∧
      permutation.values.length ≤ info.globalShape.length := by
    obtain ⟨writerGrid, writerPerm, ⟨hvalidGrid, hvalidPerm⟩, hattributes⟩ :=
      hleaf.complete.attributes
    obtain ⟨stored, hstored, harray⟩ := hattributes .writerGrid
    obtain ⟨stored', hstored', harray'⟩ := hattributes .writerPermutation
    obtain rfl := Option.some.inj (hgrid.symm.trans hstored)
    obtain rfl := Option.some.inj (hpermutation.symm.trans hstored')
    rw [harray.1, harray'.1]
    exact ⟨length_writerGrid hvalidGrid, (length_permutation hvalidPerm).le⟩
  have hrank := hleaf.rank_le
  have hlimit : maxTreeBytes + 32 * maxProtocolRank < usizeLimit := by decide
  unfold metadataBytes
  rw [checkedAdd_eq_some.mpr ⟨(by omega : _ + _ < usizeLimit), rfl⟩]
  show checkedMul _ 8 >>= _ = _
  rw [checkedMul_eq_some.mpr ⟨(by omega : _ * _ < usizeLimit), rfl⟩]
  show checkedAdd _ _ >>= _ = _
  rw [checkedAdd_eq_some.mpr ⟨(by omega : _ + _ < usizeLimit), rfl⟩]
  show checkedAdd _ _ = _
  rw [hdataset]
  exact checkedAdd_eq_some.mpr ⟨by omega, by omega⟩

/-- What the catalog says of an entry. -/
def infoAt (entry : Entry O) : Option MpiIo.DatasetInfo := do
  let o ← entry.2
  let dataset ← graph.dataset o
  let path ← pathOf entry.1
  (leaf (alloc path) dataset path).toOption

/-- The name and the path of an entry are valid, and it leads to a group or a committed dataset. -/
structure Admits (entry : Entry O) : Prop where
  name : ∀ label ∈ entry.1.getLast?, 0 < label.length ∧ label.length ≤ maxComponent
  path : ∃ path, pathOf entry.1 = some path ∧ validPath path = true
  object : ∃ o, entry.2 = some o ∧ ((graph.object o).hasType .group = true ∨
    (graph.object o).hasType .dataset = true ∧ (infoAt graph alloc entry).isSome = true)

/-- The objects seen so far in their order, the bytes counted, and the list of datasets. -/
structure Visited (O : Type) where
  seen : List O
  bytes : ℕ
  out : List MpiIo.DatasetInfo

/-- What a rank has of it. -/
def Visited.view (visited : Visited O) (rank : Inspector O) : TreeState where
  seen := (visited.seen.map rank.identity).toFinset
  bytes := visited.bytes
  out := visited.out

/-- The bounds hold so far. -/
structure Visited.Valid (visited : Visited O) : Prop where
  nodup : visited.seen.Nodup
  count : visited.seen.length ≤ maxObjects
  bytes : visited.bytes ≤ maxTreeBytes

def Visited.after (visited : Visited O) (entries : List (Entry O)) : Visited O where
  seen := visited.seen ++ entries.filterMap Prod.snd
  bytes := visited.bytes + (entries.map (entryBytes graph)).sum
  out := visited.out ++ entries.filterMap (infoAt graph alloc)

/-- The walk goes on over these entries. -/
structure Accepts (visited : Visited O) (entries : List (Entry O)) : Prop where
  admits : ∀ entry ∈ entries, Admits graph alloc entry
  nodup : (visited.seen ++ entries.filterMap Prod.snd).Nodup
  count : visited.seen.length + entries.length ≤ maxObjects
  bytes : visited.bytes + (entries.map (entryBytes graph)).sum ≤ maxTreeBytes

variable {graph alloc} {visited : Visited O} {entries later : List (Entry O)}

theorem infoAt_eq {entry : Entry O} {o : O} {dataset : Dataset} {path : String}
    (ho : entry.2 = some o) (hdataset : graph.dataset o = some dataset)
    (hpath : pathOf entry.1 = some path) :
    infoAt graph alloc entry = (leaf (alloc path) dataset path).toOption := by
  unfold infoAt
  rw [ho, hpath]
  show graph.dataset o >>= _ = _
  rw [hdataset]
  rfl

theorem infoAt_eq_none {entry : Entry O} {o : O} (ho : entry.2 = some o)
    (hdataset : graph.dataset o = none) : infoAt graph alloc entry = none := by
  unfold infoAt
  rw [ho]
  show graph.dataset o >>= _ = none
  rw [hdataset]
  rfl

theorem after_nil : visited.after graph alloc [] = visited := by
  unfold Visited.after
  simp

theorem after_append : visited.after graph alloc (entries ++ later)
    = (visited.after graph alloc entries).after graph alloc later := by
  unfold Visited.after
  simp only [List.filterMap_append, List.map_append, List.sum_append, List.append_assoc,
    Nat.add_assoc]

/-- An admitted entry leads to an object. -/
theorem length_objects (h : ∀ entry ∈ entries, Admits graph alloc entry) :
    (entries.filterMap Prod.snd).length = entries.length := by
  induction entries with
  | nil => rfl
  | cons entry entries ih =>
    obtain ⟨o, ho, _⟩ := (h entry List.mem_cons_self).object
    rw [List.filterMap_cons_some ho, List.length_cons, List.length_cons,
      ih fun e he => h e (List.mem_cons_of_mem _ he)]

theorem accepts_nil (h : visited.Valid) : Accepts graph alloc visited [] := by
  refine ⟨fun _ h => absurd h List.not_mem_nil, ?_, h.count, h.bytes⟩
  rw [List.filterMap_nil, List.append_nil]
  exact h.nodup

theorem accepts_append : Accepts graph alloc visited (entries ++ later) ↔
    Accepts graph alloc visited entries ∧
      Accepts graph alloc (visited.after graph alloc entries) later := by
  constructor
  · rintro ⟨hadmits, hnodup, hcount, hbytes⟩
    have hfront := fun e he => hadmits e (List.mem_append_left later he)
    have hobjects := length_objects hfront
    rw [List.filterMap_append, ← List.append_assoc] at hnodup
    rw [List.length_append] at hcount
    rw [List.map_append, List.sum_append] at hbytes
    refine ⟨⟨hfront, hnodup.of_append_left, by omega, by omega⟩,
      fun e he => hadmits e (List.mem_append_right entries he), hnodup, ?_, ?_⟩
    · show (visited.seen ++ _).length + later.length ≤ maxObjects
      rw [List.length_append, hobjects]
      omega
    · show visited.bytes + _ + _ ≤ maxTreeBytes
      omega
  · rintro ⟨hfront, hback⟩
    have hobjects := length_objects hfront.admits
    refine ⟨fun e he => (List.mem_append.mp he).elim (hfront.admits e) (hback.admits e), ?_, ?_, ?_⟩
    · rw [List.filterMap_append, ← List.append_assoc]
      exact hback.nodup
    · have hcount : (visited.seen ++ _).length + later.length ≤ maxObjects := hback.count
      rw [List.length_append, hobjects] at hcount
      rw [List.length_append]
      omega
    · have hbytes : visited.bytes + _ + _ ≤ maxTreeBytes := hback.bytes
      rw [List.map_append, List.sum_append]
      omega

theorem Accepts.valid (h : Accepts graph alloc visited entries) :
    (visited.after graph alloc entries).Valid := by
  refine ⟨h.nodup, ?_, h.bytes⟩
  show (visited.seen ++ _).length ≤ maxObjects
  rw [List.length_append, length_objects h.admits]
  exact h.count

end Entries

/-! ## Links -/

section Links

variable {O : Type} {graph : LinkGraph O} {group : O} {link : Link O}

theorem nodup_names (graph : LinkGraph O) (group : O) :
    ((graph.links group).map Link.name).Nodup := by
  unfold LinkGraph.links
  split
  · exact graph.names_nodup group _ ‹_›
  · exact List.nodup_nil

theorem lookup_of_mem (h : link ∈ graph.links group) :
    graph.lookup group link.name = .ok link := by
  have hthere : ((graph.links group).find? fun found => found.name = link.name).isSome = true :=
    List.find?_isSome.mpr ⟨link, h, decide_eq_true rfl⟩
  obtain ⟨found, hfound⟩ := Option.isSome_iff_exists.mp hthere
  have hname : found.name = link.name := by
    have := List.find?_some hfound
    exact of_decide_eq_true this
  have hsame : found = link :=
    List.inj_on_of_nodup_map (nodup_names graph group) (List.mem_of_find?_eq_some hfound) h hname
  rw [← hsame]
  unfold LinkGraph.lookup
  rw [hname, hfound]
  rfl

theorem linkIsHardAndType_eq (h : link ∈ graph.links group) (kind : LinkObjectType) :
    graph.linkIsHardAndType group link.name kind
      = .ok (link.target.any fun o => (graph.object o).hasType kind) := by
  unfold LinkGraph.linkIsHardAndType
  rw [lookup_of_mem h]
  rfl

theorem hardObjectIdentity_eq (h : link ∈ graph.links group) {o : O} (ho : link.target = some o)
    (id : O → ℕ × ℕ) : graph.hardObjectIdentity id group link.name = .ok (id o) := by
  unfold LinkGraph.hardObjectIdentity
  rw [lookup_of_mem h]
  show okOr link.target _ >>= _ = _
  rw [ho]
  rfl

theorem openLink_eq (h : link ∈ graph.links group) {o : O} (ho : link.target = some o) :
    graph.openLink group link.name = .ok o := by
  unfold LinkGraph.openLink
  rw [lookup_of_mem h]
  show okOr link.target _ = _
  rw [ho]
  rfl

theorem dataset_eq_none {o : O} (h : (graph.object o).hasType .group = true) :
    graph.dataset o = none := by
  unfold LinkGraph.dataset
  cases hobject : graph.object o with
  | dataset dataset =>
    rw [hobject] at h
    contradiction
  | group | other => rfl

theorem object_of_dataset {o : O} {dataset : Dataset} (h : graph.dataset o = some dataset) :
    graph.object o = .dataset dataset := by
  unfold LinkGraph.dataset at h
  split at h
  · obtain rfl := Option.some.inj h
    assumption
  · contradiction

theorem dataset_of_object {o : O} {dataset : Dataset} (h : graph.object o = .dataset dataset) :
    graph.dataset o = some dataset := by
  unfold LinkGraph.dataset
  rw [h]

theorem exists_dataset {o : O} (h : (graph.object o).hasType .dataset = true) :
    ∃ dataset, graph.object o = .dataset dataset := by
  cases hobject : graph.object o with
  | dataset dataset => exact ⟨dataset, rfl⟩
  | group | other =>
    rw [hobject] at h
    contradiction

/-- Nothing is below a dataset. -/
theorem preorder_dataset {o : O} {dataset : Dataset} (h : graph.object o = .dataset dataset)
    (depth : ℕ) (labels : List (List Byte)) :
    preorder (treeEdges graph) depth labels (some o) = [] := by
  have hedges : treeEdges graph (some o) = [] := by
    show (graph.links o).map _ = []
    unfold LinkGraph.links
    rw [h]
    rfl
  cases depth with
  | zero => rfl
  | succ depth => rw [preorder_succ, hedges, List.flatMap_nil]

/-- The buffer holds a name that is not too long. -/
theorem take_nameBuffer {name : List Byte} (h : name.length ≤ maxComponent) :
    (name.take maxComponent ++ List.replicate (maxComponent + 1 - (name.take maxComponent).length)
      (0 : Byte)).take name.length = name := by
  rw [List.take_of_length_le h, List.take_left]

end Links

end PencilRs.Analysis
