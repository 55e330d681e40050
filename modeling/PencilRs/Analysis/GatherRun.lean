import PencilRs.Analysis.Gather

/-!
# The gather as the ranks run it

The ranks agree on the root and on the metadata, and then all messages go to the root.
-/

set_option autoImplicit false

namespace PencilRs.Analysis

open PencilRs.Computation PencilRs.Model

variable {N M : ℕ} {α σ : Type} {topology : MpiTopology M} {p : DistributedPencil topology N}
  {extraShape : ExtraShape} {view : DistributedView p extraShape α} {metadata : GatherMetadata N}

/-! ## The messages -/

/-- The first rank with elements. -/
theorem MetadataExact.first_storage (h : MetadataExact view metadata)
    (hcount : globalCount p extraShape ≠ 0) :
    metadata.firstNonempty < topology.size ∧
      ∃ seed rest, storageOf view metadata.firstNonempty = seed :: rest := by
  have hsome : ∃ d, (view.on d).storage.length ≠ 0 := by
    by_contra hnone
    push Not at hnone
    apply hcount
    unfold globalCount
    rw [← sum_localLen p, Finset.mul_sum]
    exact Finset.sum_eq_zero fun c _ => by rw [← storage_length view, hnone c]
  obtain ⟨d, hd⟩ := hsome
  have hle := h.first.2 ⟨d, rfl⟩
  simp only [if_neg hd] at hle
  have hlt := rankOf_lt topology d
  obtain ⟨c, hc⟩ := h.first.1
  simp only at hc
  by_cases hzero : (view.on c).storage.length = 0
  · rw [if_pos hzero] at hc
    omega
  · rw [if_neg hzero] at hc
    refine ⟨by omega, ?_⟩
    rw [← hc, storageOf, coordsAt_rankOf]
    cases hstorage : (view.on c).storage with
    | nil => exact absurd (by rw [hstorage]; rfl) hzero
    | cons seed rest => exact ⟨seed, rest, rfl⟩

section Messages

variable (view metadata) (root : ℕ)

/-- The ranks that send their block to the root. -/
abbrev senders (topology : MpiTopology M) (root : ℕ) : List ℕ :=
  (List.range topology.size).filter (· ≠ root)

/-- What a rank sends. -/
def gatherMail (rank : ℕ) : List (ℕ × List α) :=
  if rank ∈ senders topology root then
    (if seedNeeded metadata (globalCount p extraShape) root ∧ rank = metadata.firstNonempty then
      [(gatherSeedTag, (storageOf view rank).take 1)] else [])
      ++ [(gatherPayloadTag, storageOf view rank)]
  else []

/-- What the root waits for. -/
def gatherOrders : List (Channels.Order ℕ) :=
  (if seedNeeded metadata (globalCount p extraShape) root then
    [(metadata.firstNonempty, gatherSeedTag, 1)] else [])
    ++ (senders topology root).map fun rank =>
      (rank, gatherPayloadTag, (storageOf view rank).length)

/-- What the root receives. -/
def gatherPayloads : List (List α) :=
  (if seedNeeded metadata (globalCount p extraShape) root then
    [(storageOf view metadata.firstNonempty).take 1] else [])
    ++ (senders topology root).map (storageOf view)

variable {view metadata root}

theorem seedNeeded_iff :
    seedNeeded metadata (globalCount p extraShape) root = true ↔
      globalCount p extraShape ≠ 0 ∧ metadata.firstNonempty ≠ root := by
  simp [seedNeeded]

/-- **What each rank does** with the messages. -/
theorem gatherActions_eq (h : MetadataExact view metadata) (c : Coords topology.processGrid) :
    gatherActions metadata (globalCount p extraShape) root (rankOf topology c) topology.size
        (view.on c).storage
      = some (if rankOf topology c = root then
          Channels.receives (gatherOrders view metadata root)
        else Channels.sends root (gatherMail view metadata root (rankOf topology c))) := by
  have hown : (view.on c).storage = storageOf view (rankOf topology c) := by
    rw [storageOf, coordsAt_rankOf]
  have hseed : (if (seedNeeded metadata (globalCount p extraShape) root
        && rankOf topology c = metadata.firstNonempty) = true then
      (view.on c).storage[0]?.map fun seed =>
        [ChannelAction.send root gatherSeedTag [seed]]
      else some [])
      = some (if seedNeeded metadata (globalCount p extraShape) root ∧
          rankOf topology c = metadata.firstNonempty then
        [.send root gatherSeedTag ((storageOf view (rankOf topology c)).take 1)] else []) := by
    simp only [Bool.and_eq_true, decide_eq_true_eq]
    split
    · rename_i hfirst
      obtain ⟨_, seed, rest, hstorage⟩ := h.first_storage (seedNeeded_iff.mp hfirst.1).1
      rw [hown, hfirst.2, hstorage]
      rfl
    · rfl
  unfold gatherActions
  rw [hseed]
  simp only [Option.bind_eq_bind, Option.bind_some]
  by_cases hroot : rankOf topology c = root
  · have hnone : ¬ (seedNeeded metadata (globalCount p extraShape) root = true ∧
        rankOf topology c = metadata.firstNonempty) := by
      rintro ⟨hneeded, hfirst⟩
      exact (seedNeeded_iff.mp hneeded).2 (hfirst.symm.trans hroot)
    have hpayloads : (senders topology root).mapM (fun sourceRank =>
        metadata.blocks[sourceRank]?.map fun block =>
          ChannelAction.receive (α := α) sourceRank gatherPayloadTag block.count)
        = some ((senders topology root).map fun rank =>
          .receive rank gatherPayloadTag (storageOf view rank).length) := by
      refine mapM_eq_some fun rank hmem => ?_
      have hrank := List.mem_range.mp (List.mem_filter.mp hmem).1
      have hblock := h.block (topology.coordsAt rank)
      rw [rankOf_coordsAt topology hrank] at hblock
      rw [hblock, Option.map_some, count_blockOf view]
    rw [if_pos hroot, if_pos hroot, if_neg hnone, hpayloads]
    simp only [Option.bind_some, List.nil_append]
    congr 1
    unfold gatherOrders Channels.receives
    rw [List.map_append, List.map_map]
    congr 1
    split <;> rfl
  · have hmem : rankOf topology c ∈ senders topology root :=
      List.mem_filter.mpr ⟨List.mem_range.mpr (rankOf_lt topology c), by simpa using hroot⟩
    rw [if_neg hroot, if_neg hroot, if_pos (rankOf_lt topology c)]
    unfold gatherMail Channels.sends
    rw [if_pos hmem, List.map_append, hown]
    refine congrArg some (congrArg (· ++ _) ?_)
    split <;> rfl

/-- The root can take what the others send, in its order. -/
theorem gather_collects (h : MetadataExact view metadata) :
    Channels.Collects (gatherOrders view metadata root) (gatherMail view metadata root)
      (gatherPayloads view metadata root) := by
  have hnodup : (senders topology root).Nodup := List.nodup_range.filter _
  unfold gatherOrders gatherPayloads
  by_cases hneeded : seedNeeded metadata (globalCount p extraShape) root = true
  · obtain ⟨hcount, hne⟩ := seedNeeded_iff.mp hneeded
    obtain ⟨hlt, seed, rest, hstorage⟩ := h.first_storage hcount
    have hmem : metadata.firstNonempty ∈ senders topology root :=
      List.mem_filter.mpr ⟨List.mem_range.mpr hlt, by simpa using hne⟩
    rw [if_pos hneeded, if_pos hneeded, List.singleton_append, List.singleton_append]
    have hwaiting : gatherMail view metadata root metadata.firstNonempty
        = [(gatherSeedTag, (storageOf view metadata.firstNonempty).take 1),
          (gatherPayloadTag, storageOf view metadata.firstNonempty)] := by
      unfold gatherMail
      rw [if_pos hmem, if_pos ⟨hneeded, rfl⟩]
      rfl
    refine .next hwaiting ?_ ?_
    · rw [hstorage]
      exact Nat.le_refl 1
    · refine .of_nodup hnodup gatherPayloadTag ?_ (fun _ _ => Nat.le_refl _) ?_
      · intro rank hrank
        by_cases hfirst : rank = metadata.firstNonempty
        · rw [hfirst, Function.update_self]
        · rw [Function.update_of_ne hfirst]
          unfold gatherMail
          rw [if_pos hrank, if_neg fun hboth => hfirst hboth.2]
          rfl
      · intro rank hrank
        have hfirst : rank ≠ metadata.firstNonempty := by
          rintro rfl
          exact hrank hmem
        rw [Function.update_of_ne hfirst]
        unfold gatherMail
        rw [if_neg hrank]
  · rw [if_neg hneeded, if_neg hneeded]
    refine .of_nodup hnodup gatherPayloadTag ?_ (fun _ _ => Nat.le_refl _) ?_
    · intro rank hrank
      unfold gatherMail
      rw [if_pos hrank, if_neg fun hboth => hneeded hboth.1]
      rfl
    · intro rank hrank
      unfold gatherMail
      rw [if_neg hrank]

/-- **The root's array** from what it received. -/
theorem assembleGlobal_eq (h : MetadataExact view metadata)
    (hcount : globalCount p extraShape < usizeLimit) (c : Coords topology.processGrid) :
    ∃ buffer, assembleGlobal (view.on c) metadata (globalCount p extraShape) (rankOf topology c)
        topology.size (gatherPayloads view metadata (rankOf topology c)) = some buffer ∧
      IsGathered view buffer := by
  have hranks : ∀ rank ∈ List.range topology.size, rank < topology.size :=
    fun rank hmem => List.mem_range.mp hmem
  have hunpack : ∀ {cells scratch : List α}, cells.length = globalCount p extraShape →
      scratch.length = metadata.maximumCount →
      ∃ buffer, unpackRanks (view.on c) metadata (rankOf topology c) (List.range topology.size)
          (Buf.fresh cells) scratch ((senders topology (rankOf topology c)).map (storageOf view))
        = some buffer ∧ IsGathered view buffer := by
    intro cells scratch hcells hscratch
    obtain ⟨buffer, hbuffer, hgathered⟩ := isGathered_moveAll view hcount c hcells
    refine ⟨buffer, ?_, hgathered⟩
    rw [← hbuffer]
    exact unpackRanks_eq hcount h c hranks hcells hscratch
  unfold assembleGlobal gatherPayloads
  by_cases hzero : globalCount p extraShape = 0
  · have hnone : ¬ seedNeeded metadata (globalCount p extraShape) (rankOf topology c) = true :=
      fun hneeded => (seedNeeded_iff.mp hneeded).1 hzero
    rw [if_pos hzero, if_neg hnone, List.nil_append]
    refine hunpack hzero.symm ?_
    obtain ⟨d, hd⟩ := h.maximum.1
    have hle : (view.on d).storage.length ≤ globalCount p extraShape := by
      unfold globalCount
      rw [storage_length, ← sum_localLen p]
      exact Nat.mul_le_mul_left _
        (Finset.single_le_sum (f := fun c => (p.on c).localLen) (fun _ _ => Nat.zero_le _)
          (Finset.mem_univ d))
    simp only at hd
    rw [List.length_nil]
    omega
  · obtain ⟨hlt, seed, rest, hstorage⟩ := h.first_storage hzero
    rw [if_neg hzero]
    by_cases hfirst : metadata.firstNonempty = rankOf topology c
    · have hnone : ¬ seedNeeded metadata (globalCount p extraShape) (rankOf topology c) = true :=
        fun hneeded => (seedNeeded_iff.mp hneeded).2 hfirst
      rw [hfirst, storageOf, coordsAt_rankOf] at hstorage
      rw [if_pos hfirst, if_neg hnone, List.nil_append, hstorage]
      exact hunpack (by simp) (by simp)
    · rw [if_neg hfirst, if_pos (seedNeeded_iff.mpr ⟨hzero, hfirst⟩), hstorage]
      exact hunpack (by simp) (by simp)

end Messages

/-! ## The agreements -/

section Agreements

variable (p extraShape) (T : TypeInfo) (alloc : Coords topology.processGrid → CollectiveAllocator)
  (roots : Coords topology.processGrid → Option ℕ)

/-- What a gather needs: the layout can be compared, all ranks name the same rank as the root,
elements have a size, every block has an MPI count and the allocators grant the buffers. -/
structure GatherReady : Prop where
  layout : LayoutReady p extraShape T T unitName alloc
  root : ∃ root < topology.size, ∀ c, roots c = some root
  sized : T.size ≠ 0
  blocks : BlocksFit p extraShape
  metadata : ∀ c, (alloc c).slots = true ∧ (alloc c).blocks = true
  buffers : ∀ c, roots c = some (rankOf topology c) →
    (alloc c).global = true ∧ (alloc c).scratch = true

/-- How the agreements end. -/
inductive GatherPrepared (view : DistributedView p extraShape α) :
    (Coords topology.processGrid → Except (Stop CollectiveError) (ℕ × ℕ × GatherMetadata N)) → Prop
  | ready (h : GatherReady p extraShape T alloc roots) (root : Coords topology.processGrid)
      (hroot : ∀ c, roots c = some (rankOf topology root)) (metadata : GatherMetadata N)
      (hexact : MetadataExact view metadata) :
      GatherPrepared view fun _ =>
        .ok (rankOf topology root, globalCount p extraShape, metadata)
  | refused (e : Coords topology.processGrid → CollectiveError)
      (h : ¬ GatherReady p extraShape T alloc roots) :
      GatherPrepared view fun c => .error (.error (e c))

variable {p extraShape T alloc roots}

/-- Ranks are named by different words. -/
theorem appendWord_inj {rank rank' : ℕ} (hrank : rank ≤ countMax) (hrank' : rank' ≤ countMax)
    (h : appendWord rank = appendWord rank') : rank = rank' := by
  have hlow : BitVec.ofNat 32 rank = BitVec.ofNat 32 rank' := (List.cons.inj h).1
  have := congrArg BitVec.toNat hlow
  unfold countMax at hrank hrank'
  simp only [BitVec.toNat_ofNat] at this
  omega

theorem prepareGather_completes (view : DistributedView p extraShape α) :
    Completes (α := Unit) (GatherPrepared p extraShape T alloc roots view)
      fun c => (prepareGather (alloc c) T (roots c) (view.on c)).run := by
  have : Nonempty (Coords topology.processGrid) := ⟨topology.here⟩
  have hsize : ∀ c, (p.on c).topology.size = topology.size := by
    intro c
    unfold MpiTopology.size
    rw [processGrid_on]
  have hrank : ∀ c, (p.on c).topology.rank = rankOf topology c := by
    intro c
    unfold MpiTopology.rank rankOf
    rw [processGrid_on, localCoords_on]
  unfold prepareGather
  simp only [view.pencil_eq, view.extraShape_eq, hsize, hrank]
  refine Semantics.Ensures.bind_agreed (prepareLayout_completes opGather _)
    (fun _ _ h => h.agreed) ?_ ?_
  · intro count _ hprepared _
    obtain ⟨hlayout, hwords, rfl⟩ := hprepared.of_ok
    have hglobal : extraShape.elementCount * (p.on topology.here).globalLen
        = globalCount p extraShape := by
      rw [globalLen_eq]
      rfl
    have hcount : globalCount p extraShape < usizeLimit := hglobal ▸ hlayout.count
    simp only [hglobal]
    refine agreePreflight_bind ?_ ?_
    · intro rootRank hrootRank
      have hvalid : ∀ c, roots c = some (rootRank c) ∧ rootRank c ≤ countMax ∧
          rootRank c < topology.size := by
        intro c
        have hsome := okOr_eq_ok.mp (hrootRank c)
        rw [Option.filter_eq_some_iff, Option.bind_eq_some_iff] at hsome
        obtain ⟨⟨value, hroot, hfits⟩, hlt⟩ := hsome
        obtain ⟨hle, rfl⟩ := countTryFrom_eq_some.mp hfits
        exact ⟨hroot, hle, by simpa using hlt⟩
      obtain ⟨root, hroot⟩ : ∃ root, ∀ c, rootRank c = rankOf topology root := by
        refine ⟨topology.coordsAt (rootRank topology.here), fun c => ?_⟩
        rw [rankOf_coordsAt topology (hvalid _).2.2]
        have hword := hwords c topology.here
        simp only [(hvalid c).1, (hvalid topology.here).1, Option.getD_some] at hword
        exact appendWord_inj (hvalid c).2.1 (hvalid _).2.1 hword
      have hroots : ∀ c, roots c = some (rankOf topology root) := fun c => by
        rw [(hvalid c).1, hroot]
      simp only [hroot]
      by_cases hsized : T.size = 0
      · simp only [if_pos hsized, bind_assoc]
        refine collectiveValid_bind _ fun verdict hverdict => ?_
        cases verdict with
        | true => exact absurd (hverdict.mp rfl topology.here) (by simp)
        | false =>
          exact .returned (fun _ => .error (.error .zeroSizedTypeUnsupported)) (fun _ => rfl)
            trivial (.refused _ fun h => h.sized hsized)
      · simp only [if_neg hsized, pure_bind]
        obtain ⟨metadata, hexact, hbuild⟩ := buildGatherMetadata_eq view hcount
        have hresult : ∀ c, ∃ result : Except CollectiveError (GatherMetadata N),
            agreeBuilt (M := M) (buildGatherMetadata (alloc c) (view.on c)
              (globalCount p extraShape))
                = agreePreflight result .collectivePreconditionFailed ∧
              ((result = .ok metadata ∧ BlocksFit p extraShape ∧ (alloc c).slots = true ∧
                (alloc c).blocks = true) ∨
              ((∃ e, result = .error e) ∧ ¬ (BlocksFit p extraShape ∧ (alloc c).slots = true ∧
                (alloc c).blocks = true))) := by
          intro c
          by_cases hok : BlocksFit p extraShape ∧ (alloc c).slots = true ∧ (alloc c).blocks = true
          · refine ⟨.ok metadata, ?_, Or.inl ⟨rfl, hok⟩⟩
            unfold globalCount
            rw [(hbuild c (alloc c)).1 hok]
            rfl
          · obtain ⟨e, he⟩ := (hbuild c (alloc c)).2 hok
            refine ⟨.error e, ?_, Or.inr ⟨⟨e, rfl⟩, hok⟩⟩
            unfold globalCount
            rw [he]
            rfl
        choose result hagree hcases using hresult
        simp only [hagree]
        refine agreePreflight_bind ?_ ?_
        · intro built hbuilt
          have hall : ∀ c, built c = metadata ∧ BlocksFit p extraShape ∧ (alloc c).slots = true ∧
              (alloc c).blocks = true := by
            intro c
            obtain ⟨hok, hgrants⟩ | ⟨⟨e, he⟩, _⟩ := hcases c
            · exact ⟨Except.ok.inj ((hbuilt c).symm.trans hok), hgrants⟩
            · have := (hbuilt c).symm.trans he
              contradiction
          have hfit := (hall topology.here).2.1
          have hcounts : ∀ c, countTryFrom (view.on c).storage.length
              = some (view.on c).storage.length := by
            intro c
            rw [countTryFrom_eq_some, ← count_blockOf view]
            exact ⟨hfit c, rfl⟩
          simp only [fun c => (hall c).1, hcounts, okOr_some]
          refine agreePreflight_bind (fun _ _ => ?_)
            (fun _ ⟨_, _, h⟩ _ => absurd h (by simp))
          unfold reduceMaxOf reduceMinOf
          simp only [bind_assoc, pure_bind]
          refine .perform_bind trivial trivial (fun _ h => h.elim) (allReduceMax_live _) ?_
          intro maximum _ hmaximum
          refine .perform_bind trivial trivial (fun _ h => h.elim) (allReduceMin_live _) ?_
          intro first _ hfirst
          have hmatch : ∀ c, ¬ (maximum c 0 ≠ metadata.maximumCount ∨
              first c 0 ≠ metadata.firstNonempty) := by
            intro c
            rw [not_or, not_not, not_not]
            exact ⟨(hmaximum c 0).unique hexact.maximum, (hfirst c 0).unique hexact.first⟩
          simp only [fun c => eq_false (hmatch c), if_false, pure_bind]
          refine agreePreflight_bind ?_ ?_
          · intro _ hgranted
            refine .returned _ (fun _ => rfl) trivial (.ready ⟨hlayout, ?_, hsized, hfit,
              fun c => (hall c).2.2, ?_⟩ root hroots metadata hexact)
            · exact ⟨_, rankOf_lt topology root, hroots⟩
            · intro c hc
              have hc : rankOf topology c = rankOf topology root :=
                Option.some.inj (hc.symm.trans (hroots c))
              have hgranted := hgranted c
              rw [if_pos hc] at hgranted
              obtain ⟨_, hglobalGrant, hscratchGrant⟩ := bind_eq_ok.mp hgranted
              exact ⟨ensure_eq_ok.mp hglobalGrant, ensure_eq_ok.mp hscratchGrant⟩
          · rintro e ⟨c, err, herr⟩ _
            refine .refused _ fun h => ?_
            split at herr
            · rename_i hc
              obtain ⟨hglobalGrant, hscratchGrant⟩ := h.buffers c (by rw [hroots, hc])
              unfold rootAllocation at herr
              rw [hglobalGrant, hscratchGrant] at herr
              contradiction
            · contradiction
        · rintro e ⟨c, err, herr⟩ _
          refine .refused _ fun h => ?_
          obtain ⟨hok, _⟩ | ⟨_, hnot⟩ := hcases c
          · have := hok.symm.trans herr
            contradiction
          · exact hnot ⟨h.blocks, h.metadata c⟩
    · rintro e ⟨c, err, herr⟩ _
      refine .refused _ fun h => ?_
      obtain ⟨root, hlt, hroots⟩ := h.root
      have hle : root ≤ countMax := by
        have := topology.size_le
        unfold MpiTopology.size at hlt
        omega
      have hnone := (okOr_eq_error.mp herr).1
      rw [hroots c, Option.bind_some, countTryFrom_eq_some.mpr ⟨hle, rfl⟩] at hnone
      simp only [Option.filter_some, hlt, decide_true, if_true] at hnone
      contradiction
  · intro e _ hprepared _
    obtain ⟨hnot, err, rfl⟩ := hprepared.of_error
    refine .refused _ fun h => hnot ⟨h.layout, fun c d => ?_⟩
    obtain ⟨root, _, hroots⟩ := h.root
    simp only [hroots]

theorem GatherPrepared.agreed
    {r : Coords topology.processGrid → Except (Stop CollectiveError) (ℕ × ℕ × GatherMetadata N)}
    (h : GatherPrepared p extraShape T alloc roots view r) : Semantics.Ensures.Agreed r := by
  cases h with
  | ready h root hroot metadata hexact => exact Or.inl ⟨_, rfl⟩
  | refused e h => exact Or.inr ⟨_, rfl⟩

/-- All messages go to the root, which receives the same whatever is buffered. -/
theorem messages_bind {args : Coords topology.processGrid → List (ChannelAction ℕ α)}
    {f : Coords topology.processGrid → List (List α) → CollectiveProgram α M σ}
    {post : (Coords topology.processGrid → Except (Stop CollectiveError) σ) → Prop}
    {orders : List (Channels.Order ℕ)} {mail : ℕ → List (ℕ × List α)} {payloads : List (List α)}
    (root : Coords topology.processGrid)
    (hroot : args root = Channels.receives orders)
    (hsenders : ∀ c, c ≠ root → args c = Channels.sends (rankOf topology root)
      (mail (rankOf topology c)))
    (hnone : mail (rankOf topology root) = [])
    (houtside : ∀ rank, topology.size ≤ rank → mail rank = [])
    (hcollects : Channels.Collects orders mail payloads)
    (h : ∀ replies : Coords topology.processGrid → List (List α), replies root = payloads →
      CompletesCollective post fun c => (f c (replies c)).run) :
    CompletesCollective post fun c => (Fallible.perform
      (I := (transport Unit M).beside (gathering α)) (.inr .messages) (args c) >>= f c).run := by
  have htodo : byRank topology args (rankOf topology root) = Channels.receives orders := by
    unfold byRank
    rw [if_pos (rankOf_lt topology root), coordsAt_rankOf, hroot]
  have hothers : ∀ rank, rank ≠ rankOf topology root →
      byRank topology args rank = Channels.sends (rankOf topology root) (mail rank) := by
    intro rank hne
    unfold byRank
    by_cases hlt : rank < topology.size
    · have hback := rankOf_coordsAt topology hlt
      rw [if_pos hlt, hsenders (topology.coordsAt rank) fun heq => hne (by rw [← hback, heq]),
        hback]
    · rw [if_neg hlt, houtside rank (Nat.not_lt.mp hlt)]
      rfl
  obtain ⟨hlive, ⟨final, hreaches, hdone⟩, hsame⟩ :=
    Channels.funnel hothers htodo hnone hcollects
  refine .perform_bind trivial trivial (fun _ h => h.elim)
    ⟨fun c => final.received (rankOf topology c), (), hlive, final, hreaches, hdone,
      fun _ => rfl⟩ ?_
  rintro replies _ ⟨_, final', hreaches', hdone', hreplies⟩
  refine h replies ?_
  rw [hreplies root]
  exact hsame final' hreaches' hdone'

variable (p extraShape T alloc roots) in
/-- **Gathering.**  Where it is ready, the root returns the global array in logical row-major
order, every position written once and every element that of its owner, and the other ranks
return nothing; else all ranks return errors.  The metadata every rank works out have the count
each rank sends, and the maximum and the first rank that the reductions report. -/
theorem gather_reconstructs_global_array (view : DistributedView p extraShape α) :
    (∀ c grants metadata, globalCount p extraShape < usizeLimit →
      buildGatherMetadata grants (view.on c) (globalCount p extraShape) = .ok metadata →
        (∀ d, (metadata.blocks[rankOf topology d]?).map GatherBlock.count
          = some (view.on d).storage.length) ∧
        (∀ maximum first, IsGreatest (Set.range fun d => (view.on d).storage.length) maximum →
          IsLeast (Set.range fun d => if (view.on d).storage.length = 0 then topology.size
            else rankOf topology d) first →
          maximum = metadata.maximumCount ∧ first = metadata.firstNonempty)) ∧
      (cartesian α topology).Correct (CollectiveCalls α topology) (fun _ => True) (fun _ => False)
        (fun r _ =>
          (GatherReady p extraShape T alloc roots → ∃ root buffer,
            (∀ c, roots c = some (rankOf topology root)) ∧ IsGathered view buffer ∧
              r = fun c => .ok (if c = root then some buffer else none)) ∧
          (¬ GatherReady p extraShape T alloc roots → ∀ c, ∃ e, r c = .error (.error e)))
        ⟨(), fun c => (gather (alloc c) T (roots c) (view.on c)).run⟩ := by
  have : Nonempty (Coords topology.processGrid) := ⟨topology.here⟩
  refine ⟨?_, ?_⟩
  · intro c grants metadata hcount hbuilt
    obtain ⟨exact, hexact, hbuild⟩ := buildGatherMetadata_eq view hcount
    obtain rfl : metadata = exact := by
      by_cases hok : BlocksFit p extraShape ∧ grants.slots = true ∧ grants.blocks = true
      · exact Except.ok.inj (hbuilt.symm.trans ((hbuild c grants).1 hok))
      · obtain ⟨e, he⟩ := (hbuild c grants).2 hok
        have := hbuilt.symm.trans he
        contradiction
    refine ⟨fun d => ?_, fun maximum first hmaximum hfirst =>
      ⟨hmaximum.unique hexact.maximum, hfirst.unique hexact.first⟩⟩
    rw [hexact.block d, Option.map_some, count_blockOf view]
  · have hcompletes : CompletesCollective (fun r =>
        (GatherReady p extraShape T alloc roots → ∃ root buffer,
            (∀ c, roots c = some (rankOf topology root)) ∧ IsGathered view buffer ∧
              r = fun c => .ok (if c = root then some buffer else none)) ∧
          (¬ GatherReady p extraShape T alloc roots → ∀ c, ∃ e, r c = .error (.error e)))
        fun c => (gather (alloc c) T (roots c) (view.on c)).run := by
      have hsize : ∀ c, (view.on c).pencil.topology.size = topology.size := by
        intro c
        unfold MpiTopology.size
        rw [view.pencil_eq, processGrid_on]
      have hrank : ∀ c, (view.on c).pencil.topology.rank = rankOf topology c := by
        intro c
        unfold MpiTopology.rank rankOf
        rw [view.pencil_eq, processGrid_on, localCoords_on]
      unfold gather
      simp only [hsize, hrank]
      refine reducing_bind (prepareGather_completes view) (fun _ h => h.agreed) ?_ ?_
      · intro prepared hprepared
        generalize hr : (fun c => Except.ok (prepared c)) = r at hprepared
        cases hprepared with
        | refused e h => exact absurd (congrFun hr topology.here) (by simp)
        | ready h root hroots metadata hexact =>
          obtain rfl : prepared = fun _ =>
              (rankOf topology root, globalCount p extraShape, metadata) :=
            funext fun c => Except.ok.inj (congrFun hr c)
          have hcount : globalCount p extraShape < usizeLimit := by
            have := h.layout.count
            rwa [globalLen_eq] at this
          simp only [gatherActions_eq hexact]
          have hcollects : Channels.Collects (gatherOrders view metadata (rankOf topology root))
              (gatherMail view metadata (rankOf topology root))
              (gatherPayloads view metadata (rankOf topology root)) := gather_collects hexact
          refine messages_bind root ?_ ?_ ?_ ?_ hcollects ?_
          · rw [if_pos rfl]
          · intro c hne
            rw [if_neg fun heq => hne (rankOf_inj topology heq)]
          · unfold gatherMail
            rw [if_neg (by simp)]
          · intro rank hle
            unfold gatherMail
            rw [if_neg]
            intro hmem
            have := List.mem_range.mp (List.mem_filter.mp hmem).1
            omega
          · intro replies hreplies
            obtain ⟨buffer, hbuffer, hgathered⟩ := assembleGlobal_eq hexact hcount root
            refine .returned (fun c => .ok (if c = root then some buffer else none)) ?_ trivial
              ⟨fun _ => ⟨root, buffer, hroots, hgathered, rfl⟩, fun hnot => absurd h hnot⟩
            intro c
            by_cases hc : c = root
            · rw [hc, if_pos rfl, if_pos rfl, hreplies, hbuffer]
              rfl
            · rw [if_neg fun heq => hc (rankOf_inj topology heq), if_neg hc]
              rfl
      · intro e hprepared
        generalize hr : (fun c => Except.error (e c)) = r at hprepared
        cases hprepared with
        | ready h root hroots metadata hexact => exact absurd (congrFun hr topology.here) (by simp)
        | refused err hnot =>
          obtain rfl : e = fun c => .error (err c) :=
            funext fun c => Except.error.inj (congrFun hr c)
          exact ⟨fun h => absurd h hnot, fun _ c => ⟨err c, rfl⟩⟩
    exact hcompletes.correct

end Agreements

end PencilRs.Analysis
