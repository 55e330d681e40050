import PencilRs.Analysis.DescriptorWords
import PencilRs.Analysis.GatherRun
import PencilRs.Model.Chunked

/-!
# The header of a chunked file

The header is a magic word and a string of words.  Its table describes the blocks of the ranks,
which lie behind it in the order of the ranks.  Reading a header computes it again, so what is
accepted is what a writer of the same layout would have written.
-/

set_option autoImplicit false

namespace PencilRs.Analysis

open PencilRs.Computation PencilRs.Model Chunked

variable {N M : ℕ}

/-! ## Words -/

theorem foldl_put (values : List ℕ) (bytes : List Byte) :
    values.foldl put bytes = bytes ++ leString 8 values := by
  induction values generalizing bytes with
  | nil => rw [List.foldl_nil, leString_nil, List.append_nil]
  | cons value values ih => rw [List.foldl_cons, ih, put, leString_cons, List.append_assoc]

/-- The words that every header has, the first being behind the magic. -/
def fixedWords (topology : MpiTopology M) (typ : ScalarType) (layout : Layout) (len stop : ℕ) :
    List ℕ :=
  [version, len, stop, typ.code, typ.width, layout.global.length, layout.extra.length,
    layout.grid.length, topology.size, 1, 0]

/-- The words in front of the table. -/
def frontWords (topology : MpiTopology M) (typ : ScalarType) (layout : Layout) (len stop : ℕ) :
    List ℕ :=
  fixedWords topology typ layout len stop
    ++ layout.global ++ layout.extra ++ layout.grid ++ layout.decomp ++ layout.perm

theorem front_eq (topology : MpiTopology M) (typ : ScalarType) (layout : Layout) (len stop : ℕ) :
    front topology typ layout len stop
      = magic ++ leString 8 (frontWords topology typ layout len stop) := by
  unfold front frontWords fixedWords
  simp only [List.foldl_cons, List.foldl_nil, foldl_put, leString_append, put, leString_cons,
    leString_nil, List.append_assoc, List.append_nil, List.nil_append]

/-- A word is read where it was written. -/
theorem word_append {front back : List Byte} {i value : ℕ} (hfront : front.length = i * 8)
    (hvalue : value < usizeLimit) : word (front ++ leBytes 8 value ++ back) i = .ok value := by
  have hlen : i * 8 + 8 ≤ (front ++ leBytes 8 value ++ back).length := by
    simp only [List.length_append, length_leBytes, hfront]
    omega
  have hread : leValue (((front ++ leBytes 8 value ++ back).drop (i * 8)).take 8) = value := by
    rw [List.append_assoc, ← hfront, List.drop_left, List.take_left' (length_leBytes 8 _)]
    exact leValue_leBytes_of_lt hvalue
  unfold word
  rw [slice?_eq (Nat.le_add_right _ _) hlen, Nat.add_sub_cancel_left]
  exact congrArg Except.ok hread

theorem word_at {bytes rest : List Byte} {words : List ℕ} {i value : ℕ}
    (hbytes : bytes = magic ++ (leString 8 words ++ rest)) (hvalue : value < usizeLimit)
    (h : words[i]? = some value) : word bytes (i + 1) = .ok value := by
  obtain ⟨hi, rfl⟩ := List.getElem?_eq_some_iff.mp h
  have hsplit : leString 8 words = leString 8 (words.take i) ++ leBytes 8 words[i]
      ++ leString 8 (words.drop (i + 1)) := by
    rw [List.append_assoc, ← leString_cons, ← leString_append, ← List.drop_eq_getElem_cons hi,
      List.take_append_drop]
  have hfront : (magic ++ leString 8 (words.take i)).length = (i + 1) * 8 := by
    rw [List.length_append, length_leString, List.length_take, Nat.min_eq_left hi.le]
    show 8 + 8 * i = _
    omega
  have hread : word (magic ++ leString 8 (words.take i) ++ leBytes 8 words[i]
      ++ (leString 8 (words.drop (i + 1)) ++ rest)) (i + 1) = .ok words[i] :=
    word_append hfront hvalue
  rw [hbytes, hsplit]
  simpa only [List.append_assoc] using hread

/-- Several words are read where they were written. -/
theorem take_at {bytes rest : List Byte} {words before values after : List ℕ} {pos : ℕ}
    (hbytes : bytes = magic ++ (leString 8 words ++ rest)) (hwords : ∀ w ∈ words, w < usizeLimit)
    (hsplit : words = before ++ values ++ after) (hpos : pos = before.length + 1) :
    take bytes pos values.length = .ok values := by
  have hmany : ∀ done todo, done ++ todo = values →
      (List.range' (pos + done.length) todo.length).mapM (word bytes) = .ok todo := by
    intro done todo
    induction todo generalizing done with
    | nil => exact fun _ => rfl
    | cons value todo ih =>
      intro hdone
      have hvalue : words[before.length + done.length]? = some value := by
        rw [hsplit, List.append_assoc, List.getElem?_append_right (Nat.le_add_right _ _),
          Nat.add_sub_cancel_left, ← hdone, List.append_assoc,
          List.getElem?_append_right le_rfl, Nat.sub_self]
        rfl
      have hword := word_at hbytes (hwords _ (List.mem_of_getElem? hvalue)) hvalue
      rw [show before.length + done.length + 1 = pos + done.length by omega] at hword
      have hrest := ih (done ++ [value]) (by rw [List.append_assoc]; exact hdone)
      rw [List.length_append, List.length_singleton, ← Nat.add_assoc] at hrest
      rw [List.length_cons, List.range'_succ, List.mapM_cons]
      exact bind_eq_ok.mpr ⟨value, hword, bind_eq_ok.mpr ⟨todo, hrest, rfl⟩⟩
  exact hmany [] values rfl

/-! ## Blocks -/

/-- The ranges a rank owns along the first axes. -/
structure AxisRanges (layout : Layout) (coords : List ℕ) (ranges : List Range) : Prop where
  le : ranges.length ≤ layout.global.length
  range : ∀ axis range, ranges[axis]? = some range →
    ∃ g, layout.global[axis]? = some g ∧ axisRange layout coords axis g = .ok range

/-- The number of elements a rank owns. -/
def BlockCount (topology : MpiTopology M) (layout : Layout) (rank count : ℕ) : Prop :=
  ∃ ranges, ranges.length = layout.global.length ∧
    AxisRanges layout (rankToCoordinates topology rank) ranges ∧
    count = layout.extra.prod * (ranges.map Range.len).prod

theorem product_eq_ok {values : List ℕ} {n : ℕ} (h : product values = .ok n) :
    n = values.prod ∧ n < usizeLimit := by
  have hloop : ∀ (l : List ℕ) (acc : ℕ), acc < usizeLimit →
      l.foldlM (fun a b => okOr (checkedMul a b) invalid) acc = .ok n →
      n = acc * l.prod ∧ n < usizeLimit := by
    intro l
    induction l with
    | nil =>
      intro acc hacc h
      obtain rfl := Except.ok.inj h
      exact ⟨(Nat.mul_one _).symm, hacc⟩
    | cons a l ih =>
      intro acc _ h
      rw [List.foldlM_cons] at h
      obtain ⟨next, hnext, hrest⟩ := bind_eq_ok.mp h
      obtain ⟨hlt, rfl⟩ := checkedMul_eq_some.mp (okOr_eq_ok.mp hnext)
      rw [List.prod_cons, ← Nat.mul_assoc]
      exact ih _ hlt hrest
  have hall := hloop values 1 (by decide) h
  rwa [Nat.one_mul] at hall

/-- **The entry of a rank** in the table. -/
theorem pushAxis_loop {layout : Layout} {coords : List ℕ} {bytes : List Byte} {start : ℕ}
    {state : List Byte × ℕ}
    (h : layout.global.zipIdx.foldlM (pushAxis layout coords) (bytes, start) = .ok state) :
    ∃ ranges, ranges.length = layout.global.length ∧ AxisRanges layout coords ranges ∧
      state.2 = start * (ranges.map Range.len).prod ∧
      state.1 = bytes ++ leString 8 (ranges.flatMap fun r => [r.start, r.stop]) := by
  have hinv := foldlM_ok_inv (I := fun k (state : List Byte × ℕ) => ∃ ranges : List Range,
    ranges.length = k ∧ AxisRanges layout coords ranges ∧
      state.2 = start * (ranges.map Range.len).prod ∧
      state.1 = bytes ++ leString 8 (ranges.flatMap fun r => [r.start, r.stop])) ?_ ?_ h
  · rwa [List.length_zipIdx] at hinv
  · exact ⟨[], rfl, ⟨Nat.zero_le _, nofun⟩, (Nat.mul_one _).symm, (List.append_nil _).symm⟩
  · rintro k ⟨g, axis⟩ hk ⟨written, count⟩ state' ⟨ranges, rfl, hranges, hcount, hwritten⟩ hstep
    rw [List.getElem?_zipIdx] at hk
    obtain ⟨g', hg, hentry⟩ := Option.map_eq_some_iff.mp hk
    obtain ⟨rfl, rfl⟩ := Prod.mk.inj hentry
    rw [Nat.zero_add] at hstep
    obtain ⟨hlt, _⟩ := List.getElem?_eq_some_iff.mp hg
    obtain ⟨range, hrange, hstep⟩ := bind_eq_ok.mp hstep
    obtain ⟨next, hnext, hstep⟩ := bind_eq_ok.mp hstep
    obtain ⟨_, rfl⟩ := checkedMul_eq_some.mp (okOr_eq_ok.mp hnext)
    obtain rfl := Except.ok.inj hstep
    simp only at hcount hwritten
    refine ⟨ranges ++ [range], by rw [List.length_append]; rfl, ⟨?_, ?_⟩, ?_, ?_⟩
    · rw [List.length_append, List.length_singleton]
      exact hlt
    · intro i r hi
      rcases Nat.lt_or_ge i ranges.length with hbefore | hafter
      · rw [List.getElem?_append_left hbefore] at hi
        exact hranges.range i r hi
      · rw [List.getElem?_append_right hafter] at hi
        obtain ⟨hzero, rfl⟩ := List.getElem?_eq_some_iff.mp hi
        rw [List.length_singleton] at hzero
        obtain rfl : i = ranges.length := by omega
        refine ⟨g', hg, ?_⟩
        rw [hrange]
        simp only [Nat.sub_self, List.getElem_cons_zero]
    · rw [hcount, List.map_append, List.prod_append, List.map_singleton, List.prod_singleton,
        Nat.mul_assoc]
    · simp only [hwritten, put, List.flatMap_append, leString_append, List.flatMap_singleton,
        leString_cons, leString_nil, List.append_nil, List.append_assoc]

theorem pushRank_eq_ok {topology : MpiTopology M} {width : ℕ} {layout : Layout}
    {table table' : Table} {rank : ℕ} (h : pushRank topology width layout table rank = .ok table') :
    ∃ count entry, BlockCount topology layout rank count ∧
      table' = ⟨table.bytes ++ leString 8 entry, table.offsets ++ [table.offset],
        table.counts ++ [count], table.offset + count * width⟩ := by
  obtain ⟨_, _, h⟩ := bind_eq_ok.mp h
  obtain ⟨extraCount, hextra, h⟩ := bind_eq_ok.mp h
  obtain ⟨⟨written, count⟩, hloop, h⟩ := bind_eq_ok.mp h
  obtain ⟨size, hsize, h⟩ := bind_eq_ok.mp h
  obtain ⟨offset, hoffset, h⟩ := bind_eq_ok.mp h
  obtain ⟨_, rfl⟩ := checkedMul_eq_some.mp (okOr_eq_ok.mp hsize)
  obtain ⟨_, rfl⟩ := checkedAdd_eq_some.mp (okOr_eq_ok.mp hoffset)
  obtain rfl := Except.ok.inj h
  obtain ⟨ranges, hlength, hranges, hcount, hwritten⟩ := pushAxis_loop hloop
  simp only at hcount hwritten
  refine ⟨count, rankToCoordinates topology rank
    ++ (ranges.flatMap fun r => [r.start, r.stop]) ++ [count, table.offset],
    ⟨ranges, hlength, hranges, ?_⟩, ?_⟩
  · rw [hcount, (product_eq_ok hextra).1]
  · rw [hwritten, foldl_put]
    simp only [put, leString_append, leString_cons, leString_nil, List.append_nil,
      List.append_assoc]

/-! ## Headers -/

/-- What the header of a layout says. -/
structure HeaderOf (topology : MpiTopology M) (typ : ScalarType) (layout : Layout)
    (header : Chunked.Header) : Prop where
  layout_ok : checkLayout topology layout = .ok ()
  globalCount : ∃ n, product layout.global = .ok n
  bytes : ∃ table, header.bytes
    = magic ++ (leString 8 (frontWords topology typ layout header.bytes.length header.stop)
      ++ table)
  offsets : header.offsets.length = topology.size
  counts : header.counts.length = topology.size
  offset : ∀ rank, rank < topology.size → header.offsets[rank]?
    = some (header.bytes.length + (header.counts.take rank).sum * typ.width)
  stop : header.stop = header.bytes.length + header.counts.sum * typ.width
  count : ∀ rank count, header.counts[rank]? = some count → BlockCount topology layout rank count
  stop_le : header.stop ≤ i64Max
  length_le : header.bytes.length ≤ maxHeaderBytes
  info : header.info = ⟨none, typ, layout.global, layout.extra,
    leString 8 (layout.grid ++ layout.perm)⟩

/-- The table after some of the ranks. -/
structure TableOf (topology : MpiTopology M) (width : ℕ) (layout : Layout) (front : List Byte)
    (len k : ℕ) (table : Table) : Prop where
  bytes : ∃ entries, table.bytes = front ++ entries
  offsets : table.offsets.length = k
  counts : table.counts.length = k
  offset : ∀ rank, rank < k →
    table.offsets[rank]? = some (len + (table.counts.take rank).sum * width)
  next : table.offset = len + table.counts.sum * width
  count : ∀ rank count, table.counts[rank]? = some count → BlockCount topology layout rank count

theorem tableOf_loop {topology : MpiTopology M} {width : ℕ} {layout : Layout} {front : List Byte}
    {len : ℕ} {table : Table} (h : (List.range topology.size).foldlM
      (pushRank topology width layout) ⟨front, [], [], len⟩ = .ok table) :
    TableOf topology width layout front len topology.size table := by
  have hinv := foldlM_ok_inv (I := TableOf topology width layout front len) ?_ ?_ h
  · rwa [List.length_range] at hinv
  · refine ⟨⟨[], (List.append_nil _).symm⟩, rfl, rfl, nofun, ?_, nofun⟩
    rw [List.sum_nil, Nat.zero_mul, Nat.add_zero]
  · rintro k rank hk table table' htable hstep
    obtain ⟨hlt, rfl⟩ := List.getElem?_eq_some_iff.mp hk
    rw [List.getElem_range] at hstep
    obtain ⟨count, entry, hcount, rfl⟩ := pushRank_eq_ok hstep
    obtain ⟨⟨entries, hentries⟩, hoffsets, hcounts, hoffset, hnext, hall⟩ := htable
    refine ⟨⟨entries ++ leString 8 entry, ?_⟩, ?_, ?_, ?_, ?_, ?_⟩
    · simp only [hentries, List.append_assoc]
    · rw [List.length_append, hoffsets, List.length_singleton]
    · rw [List.length_append, hcounts, List.length_singleton]
    · intro rank hrank
      rcases Nat.lt_or_ge rank k with hbefore | hafter
      · rw [List.getElem?_append_left (by omega), hoffset rank hbefore,
          List.take_append_of_le_length (by omega)]
      · obtain rfl : rank = k := by omega
        rw [List.getElem?_append_right (by omega), hoffsets, Nat.sub_self,
          List.take_append_of_le_length (by omega), List.take_of_length_le (by omega), hnext]
        rfl
    · simp only [hnext, List.sum_append, List.sum_singleton, Nat.add_mul, Nat.add_assoc]
    · intro rank found hfound
      rcases Nat.lt_or_ge rank table.counts.length with hbefore | hafter
      · rw [List.getElem?_append_left hbefore] at hfound
        exact hall rank found hfound
      · rw [List.getElem?_append_right hafter] at hfound
        obtain ⟨hzero, rfl⟩ := List.getElem?_eq_some_iff.mp hfound
        rw [List.length_singleton] at hzero
        obtain rfl : rank = k := by omega
        simpa only [hcounts, Nat.sub_self, List.getElem_cons_zero] using hcount

/-- **The header** of a layout, where it exists. -/
theorem headerOf_of_eq_ok {alloc : Chunked.Allocator} {topology : MpiTopology M} {typ : ScalarType}
    {layout : Layout} {found : Chunked.Header} (h : header alloc topology typ layout = .ok found) :
    HeaderOf topology typ layout found := by
  obtain ⟨_, hlayout, h⟩ := bind_eq_ok.mp h
  obtain ⟨len, _, h⟩ := bind_eq_ok.mp h
  obtain ⟨_, hlen, h⟩ := bind_eq_ok.mp h
  obtain ⟨globalCount, hglobal, h⟩ := bind_eq_ok.mp h
  obtain ⟨extraCount, _, h⟩ := bind_eq_ok.mp h
  obtain ⟨total, _, h⟩ := bind_eq_ok.mp h
  obtain ⟨stop, _, h⟩ := bind_eq_ok.mp h
  obtain ⟨_, hstop, h⟩ := bind_eq_ok.mp h
  obtain ⟨_, _, h⟩ := bind_eq_ok.mp h
  obtain ⟨_, _, h⟩ := bind_eq_ok.mp h
  obtain ⟨_, _, h⟩ := bind_eq_ok.mp h
  obtain ⟨table, htable, h⟩ := bind_eq_ok.mp h
  obtain ⟨_, hends, h⟩ := bind_eq_ok.mp h
  obtain rfl := Except.ok.inj h
  have hends := ensure_eq_ok.mp hends
  simp only [Bool.and_eq_true, decide_eq_true_eq] at hends
  obtain ⟨rfl, rfl⟩ := hends
  obtain ⟨⟨entries, hentries⟩, hoffsets, hcounts, hoffset, hnext, hall⟩ := tableOf_loop htable
  rw [front_eq, List.append_assoc] at hentries
  refine ⟨hlayout, ⟨_, hglobal⟩, ⟨entries, hentries⟩, hoffsets, hcounts, hoffset, hnext, hall,
    of_decide_eq_true (ensure_eq_ok.mp hstop), of_decide_eq_true (ensure_eq_ok.mp hlen), ?_⟩
  simp only [foldl_put, List.nil_append]

/-- A header is computed with whatever allocator grants its buffers. -/
theorem header_granted {alloc : Chunked.Allocator} {topology : MpiTopology M} {typ : ScalarType}
    {layout : Layout} {found : Chunked.Header} (h : header alloc topology typ layout = .ok found) :
    alloc = ⟨true, true, true⟩ := by
  obtain ⟨_, _, h⟩ := bind_eq_ok.mp h
  obtain ⟨_, _, h⟩ := bind_eq_ok.mp h
  obtain ⟨_, _, h⟩ := bind_eq_ok.mp h
  obtain ⟨_, _, h⟩ := bind_eq_ok.mp h
  obtain ⟨_, _, h⟩ := bind_eq_ok.mp h
  obtain ⟨_, _, h⟩ := bind_eq_ok.mp h
  obtain ⟨_, _, h⟩ := bind_eq_ok.mp h
  obtain ⟨_, _, h⟩ := bind_eq_ok.mp h
  obtain ⟨_, hbuffer, h⟩ := bind_eq_ok.mp h
  obtain ⟨_, hoffsets, h⟩ := bind_eq_ok.mp h
  obtain ⟨_, hcounts, _⟩ := bind_eq_ok.mp h
  obtain ⟨buffer, offsets, counts⟩ := alloc
  simp only [ensure_eq_ok] at hbuffer hoffsets hcounts
  rw [hbuffer, hoffsets, hcounts]

/-- What a layout that passes the check is like. -/
structure LayoutChecked (topology : MpiTopology M) (layout : Layout) : Prop where
  rank_le : layout.global.length + layout.extra.length ≤ maxProtocolRank
  grid_le : layout.grid.length ≤ layout.global.length
  decomp : layout.decomp.length = layout.grid.length
  perm : layout.perm.length = layout.global.length
  global_ne : ∀ d ∈ layout.global, d ≠ 0
  grid : layout.grid = List.ofFn topology.processGrid
  decomp_lt : ∀ axis ∈ layout.decomp, axis < layout.global.length
  perm_lt : ∀ axis ∈ layout.perm, axis < layout.global.length

theorem distinctAxes_lt {n : ℕ} {axes : List ℕ} (h : distinctAxes n axes = true) :
    ∀ axis ∈ axes, axis < n := by
  intro axis haxis
  obtain ⟨i, hi⟩ := List.mem_iff_getElem?.mp haxis
  have hmem : (axis, i) ∈ axes.zipIdx := by
    rw [List.mem_zipIdx_iff_getElem?]
    exact hi
  have hentry := List.all_eq_true.mp h _ hmem
  simp only [Bool.and_eq_true, decide_eq_true_eq] at hentry
  exact hentry.1

theorem layoutChecked {topology : MpiTopology M} {layout : Layout}
    (h : checkLayout topology layout = .ok ()) : LayoutChecked topology layout := by
  obtain ⟨rank, hrank, h⟩ := bind_eq_ok.mp h
  obtain ⟨_, rfl⟩ := checkedAdd_eq_some.mp (okOr_eq_ok.mp hrank)
  obtain ⟨_, hbounds, h⟩ := bind_eq_ok.mp h
  obtain ⟨_, _, h⟩ := bind_eq_ok.mp h
  obtain ⟨_, _, h⟩ := bind_eq_ok.mp h
  obtain ⟨_, hgrid, h⟩ := bind_eq_ok.mp h
  obtain ⟨_, hdecomp, hperm⟩ := bind_eq_ok.mp h
  have hbounds := ensure_eq_ok.mp hbounds
  simp only [Bool.and_eq_true, decide_eq_true_eq, Bool.not_eq_true', List.contains_eq_mem,
    decide_eq_false_iff_not] at hbounds
  obtain ⟨⟨⟨⟨⟨⟨⟨⟨_, _⟩, hle⟩, _⟩, hgridLe⟩, hdecompLen⟩, hpermLen⟩, hglobal⟩, _⟩ := hbounds
  exact ⟨hle, hgridLe, hdecompLen, hpermLen, fun d hd hzero => hglobal (hzero ▸ hd),
    (of_decide_eq_true (ensure_eq_ok.mp hgrid)).symm, distinctAxes_lt (ensure_eq_ok.mp hdecomp),
    distinctAxes_lt (ensure_eq_ok.mp hperm)⟩

/-- The words in front of the table are machine words. -/
theorem frontWords_lt {topology : MpiTopology M} {typ : ScalarType} {layout : Layout}
    {found : Chunked.Header} (h : HeaderOf topology typ layout found)
    (hextra : ∀ d ∈ layout.extra, d < usizeLimit) :
    ∀ w ∈ frontWords topology typ layout found.bytes.length found.stop, w < usizeLimit := by
  have hchecked := layoutChecked h.layout_ok
  have hrank := hchecked.rank_le
  have hgridLe := hchecked.grid_le
  have hlength := h.length_le
  have hstop := h.stop_le
  have hsize : topology.size < usizeLimit := size_lt topology
  have hsmall : maxProtocolRank < usizeLimit := by decide
  have hheader : maxHeaderBytes < usizeLimit := by decide
  have hoffset : i64Max < usizeLimit := by decide
  have hglobal : ∀ d ∈ layout.global, d < usizeLimit := by
    intro d hd
    obtain ⟨n, hn⟩ := h.globalCount
    obtain ⟨rfl, hlt⟩ := product_eq_ok hn
    have hpos : 0 < layout.global.prod :=
      List.prod_pos fun d hd => Nat.pos_of_ne_zero (hchecked.global_ne d hd)
    exact (Nat.le_of_dvd hpos (List.dvd_prod hd)).trans_lt hlt
  have hgrid : ∀ d ∈ layout.grid, d < usizeLimit := by
    intro d hd
    rw [hchecked.grid] at hd
    obtain ⟨i, rfl⟩ := List.mem_ofFn.mp hd
    exact processGrid_lt topology i
  have hcodes : typ.code < usizeLimit ∧ typ.width < usizeLimit := by
    cases typ <;> decide
  intro w hw
  unfold frontWords fixedWords at hw
  simp only [List.mem_append, List.mem_cons, List.not_mem_nil, or_false] at hw
  rcases hw with ((((hw | hw) | hw) | hw) | hw) | hw
  · rcases hw with rfl | rfl | rfl | rfl | rfl | rfl | rfl | rfl | rfl | rfl | rfl
    · decide
    · omega
    · omega
    · exact hcodes.1
    · exact hcodes.2
    · omega
    · omega
    · omega
    · exact hsize
    · decide
    · decide
  · exact hglobal w hw
  · exact hextra w hw
  · exact hgrid w hw
  · have := hchecked.decomp_lt w hw
    omega
  · have := hchecked.perm_lt w hw
    omega

/-! ## Reading a header again -/

theorem magic_length : magic.length = 8 := rfl

theorem length_frontWords (topology : MpiTopology M) (typ : ScalarType) (layout : Layout)
    (len stop : ℕ) : 11 ≤ (frontWords topology typ layout len stop).length := by
  simp only [frontWords, fixedWords, List.length_append, List.length_cons, List.length_nil]
  omega

/-- A header is long enough for the words that every header has. -/
theorem HeaderOf.long {topology : MpiTopology M} {typ : ScalarType} {layout : Layout}
    {found : Chunked.Header} (h : HeaderOf topology typ layout found) :
    prefixBytes ≤ found.bytes.length ∧ found.bytes.take 8 = magic := by
  obtain ⟨table, hbytes⟩ := h.bytes
  have hwords := length_frontWords topology typ layout found.bytes.length found.stop
  constructor
  · have hlength := congrArg List.length hbytes
    rw [List.length_append, List.length_append, length_leString, magic_length] at hlength
    show 96 ≤ _
    omega
  · rw [hbytes]
    exact List.take_left' magic_length

/-- **A header is read as it was written**, by every rank that is granted its buffers. -/
theorem parse_header {alloc : Chunked.Allocator} {topology : MpiTopology M} {typ : ScalarType}
    {layout : Layout} {found : Chunked.Header} (h : header alloc topology typ layout = .ok found)
    (hextra : ∀ d ∈ layout.extra, d < usizeLimit) :
    parse ⟨true, true, true⟩ topology found.bytes found.stop = .ok found := by
  have hof := headerOf_of_eq_ok h
  have hchecked := layoutChecked hof.layout_ok
  obtain ⟨hlong, hmagic⟩ := hof.long
  obtain ⟨table, hbytes⟩ := hof.bytes
  have hlt := frontWords_lt hof hextra
  have hword : ∀ i value, (frontWords topology typ layout found.bytes.length found.stop)[i]?
      = some value → word found.bytes (i + 1) = .ok value :=
    fun i value hi => word_at hbytes (hlt _ (List.mem_of_getElem? hi)) hi
  have hdecode : ScalarType.decode typ.code typ.width = some typ := by
    cases typ <;> rfl
  have hrank := hchecked.rank_le
  have hgridLe := hchecked.grid_le
  have htake : ∀ before values after pos,
      frontWords topology typ layout found.bytes.length found.stop = before ++ values ++ after →
      pos = before.length + 1 → take found.bytes pos values.length = .ok values :=
    fun before values after pos => take_at hbytes hlt
  have hglobal := htake (fixedWords topology typ layout found.bytes.length found.stop)
    layout.global (layout.extra ++ layout.grid ++ layout.decomp ++ layout.perm) 12
    (by simp only [frontWords, List.append_assoc]) rfl
  have hextra := htake (fixedWords topology typ layout found.bytes.length found.stop
    ++ layout.global) layout.extra (layout.grid ++ layout.decomp ++ layout.perm)
    (12 + layout.global.length) (by simp only [frontWords, List.append_assoc])
    (by simp only [List.length_append, fixedWords, List.length_cons, List.length_nil]; omega)
  have hgrid := htake (fixedWords topology typ layout found.bytes.length found.stop
    ++ layout.global ++ layout.extra) layout.grid (layout.decomp ++ layout.perm)
    (12 + layout.global.length + layout.extra.length)
    (by simp only [frontWords, List.append_assoc])
    (by simp only [List.length_append, fixedWords, List.length_cons, List.length_nil]; omega)
  have hdecomp := htake (fixedWords topology typ layout found.bytes.length found.stop
    ++ layout.global ++ layout.extra ++ layout.grid) layout.decomp layout.perm
    (12 + layout.global.length + layout.extra.length + layout.grid.length)
    (by simp only [frontWords, List.append_assoc])
    (by simp only [List.length_append, fixedWords, List.length_cons, List.length_nil]; omega)
  have hperm := htake (fixedWords topology typ layout found.bytes.length found.stop
    ++ layout.global ++ layout.extra ++ layout.grid ++ layout.decomp) layout.perm []
    (12 + layout.global.length + layout.extra.length + layout.grid.length + layout.decomp.length)
    (by simp only [frontWords, List.append_nil])
    (by simp only [List.length_append, fixedWords, List.length_cons, List.length_nil]; omega)
  rw [hchecked.decomp] at hdecomp hperm
  rw [hchecked.perm] at hperm
  unfold parse
  rw [decide_eq_true hlong, hmagic]
  refine bind_eq_ok.mpr ⟨(), ensure_eq_ok.mpr (by simp), ?_⟩
  refine bind_eq_ok.mpr ⟨_, hword 0 _ rfl, bind_eq_ok.mpr ⟨(), ensure_eq_ok.mpr (by simp), ?_⟩⟩
  refine bind_eq_ok.mpr ⟨_, hword 1 _ rfl, bind_eq_ok.mpr ⟨(), ensure_eq_ok.mpr (by simp), ?_⟩⟩
  refine bind_eq_ok.mpr ⟨_, hword 2 _ rfl, bind_eq_ok.mpr ⟨(), ensure_eq_ok.mpr (by simp), ?_⟩⟩
  refine bind_eq_ok.mpr ⟨_, hword 3 _ rfl, bind_eq_ok.mpr ⟨_, hword 4 _ rfl, ?_⟩⟩
  refine bind_eq_ok.mpr ⟨typ, by rw [hdecode]; rfl, ?_⟩
  refine bind_eq_ok.mpr ⟨_, hword 5 _ rfl, bind_eq_ok.mpr ⟨_, hword 6 _ rfl, ?_⟩⟩
  refine bind_eq_ok.mpr ⟨_, hword 7 _ rfl, ?_⟩
  refine bind_eq_ok.mpr ⟨(), ensure_eq_ok.mpr ?_, ?_⟩
  · simp only [Bool.and_eq_true, decide_eq_true_eq]
    omega
  refine bind_eq_ok.mpr ⟨_, hglobal, bind_eq_ok.mpr ⟨_, hextra, bind_eq_ok.mpr ⟨_, hgrid, ?_⟩⟩⟩
  refine bind_eq_ok.mpr ⟨_, hdecomp, bind_eq_ok.mpr ⟨_, hperm, ?_⟩⟩
  have hgranted := header_granted h
  subst hgranted
  exact bind_eq_ok.mpr ⟨found, h, bind_eq_ok.mpr ⟨(), ensure_eq_ok.mpr (by simp), rfl⟩⟩

/-- **What is read is canonical**: a writer of the layout that was read computes the same bytes. -/
theorem parse_canonical {alloc : Chunked.Allocator} {topology : MpiTopology M} {bytes : List Byte}
    {size : ℕ} {found : Chunked.Header} (h : parse alloc topology bytes size = .ok found) :
    found.bytes = bytes ∧ found.stop = size ∧ ∃ typ layout,
      header alloc topology typ layout = .ok found := by
  obtain ⟨_, _, h⟩ := bind_eq_ok.mp h
  obtain ⟨_, _, h⟩ := bind_eq_ok.mp h
  obtain ⟨_, _, h⟩ := bind_eq_ok.mp h
  obtain ⟨_, _, h⟩ := bind_eq_ok.mp h
  obtain ⟨_, _, h⟩ := bind_eq_ok.mp h
  obtain ⟨stop, hstop, h⟩ := bind_eq_ok.mp h
  obtain ⟨_, hsize, h⟩ := bind_eq_ok.mp h
  obtain ⟨_, _, h⟩ := bind_eq_ok.mp h
  obtain ⟨_, _, h⟩ := bind_eq_ok.mp h
  obtain ⟨typ, _, h⟩ := bind_eq_ok.mp h
  obtain ⟨_, _, h⟩ := bind_eq_ok.mp h
  obtain ⟨_, _, h⟩ := bind_eq_ok.mp h
  obtain ⟨_, _, h⟩ := bind_eq_ok.mp h
  obtain ⟨_, _, h⟩ := bind_eq_ok.mp h
  obtain ⟨global, _, h⟩ := bind_eq_ok.mp h
  obtain ⟨extra, _, h⟩ := bind_eq_ok.mp h
  obtain ⟨grid, _, h⟩ := bind_eq_ok.mp h
  obtain ⟨decomp, _, h⟩ := bind_eq_ok.mp h
  obtain ⟨perm, _, h⟩ := bind_eq_ok.mp h
  obtain ⟨found', hheader, h⟩ := bind_eq_ok.mp h
  obtain ⟨_, hsame, h⟩ := bind_eq_ok.mp h
  obtain rfl := Except.ok.inj h
  obtain rfl : found'.bytes = bytes := of_decide_eq_true (ensure_eq_ok.mp hsame)
  have hof := headerOf_of_eq_ok hheader
  obtain ⟨table, hbytes⟩ := hof.bytes
  have hword : word found'.bytes 3 = .ok found'.stop :=
    word_at hbytes (hof.stop_le.trans_lt (by decide)) rfl
  refine ⟨rfl, ?_, typ, _, hheader⟩
  rw [← of_decide_eq_true (ensure_eq_ok.mp hsize)]
  exact Except.ok.inj (hword.symm.trans hstop)

/-- **What is read is committed.** -/
theorem parse_committed {alloc : Chunked.Allocator} {topology : MpiTopology M} {bytes : List Byte}
    {size : ℕ} {found : Chunked.Header} (h : parse alloc topology bytes size = .ok found) :
    word bytes 10 = .ok 1 := by
  obtain ⟨rfl, _, typ, layout, hheader⟩ := parse_canonical h
  obtain ⟨table, hbytes⟩ := (headerOf_of_eq_ok hheader).bytes
  exact word_at hbytes (by decide) rfl

/-- A file whose commit word is not set is refused. -/
theorem parse_uncommitted (alloc : Chunked.Allocator) (topology : MpiTopology M)
    {bytes : List Byte} (size : ℕ) (h : word bytes 10 = .ok 0) :
    ∃ e, parse alloc topology bytes size = .error e := by
  cases hparse : parse alloc topology bytes size with
  | error e => exact ⟨e, rfl⟩
  | ok found =>
    have hone := parse_committed hparse
    rw [h] at hone
    exact absurd (Except.ok.inj hone) Nat.zero_ne_one

/-! ## Writing the commit word -/

/-- Where the commit word is in a header. -/
theorem HeaderOf.commit {topology : MpiTopology M} {typ : ScalarType} {layout : Layout}
    {found : Chunked.Header} (h : HeaderOf topology typ layout found) :
    ∃ front back, found.bytes = front ++ leBytes 8 1 ++ back ∧ front.length = commitOffset := by
  obtain ⟨table, hbytes⟩ := h.bytes
  refine ⟨magic ++ leString 8 [version, found.bytes.length, found.stop, typ.code, typ.width,
    layout.global.length, layout.extra.length, layout.grid.length, topology.size],
    leString 8 (0 :: (layout.global ++ layout.extra ++ layout.grid ++ layout.decomp
      ++ layout.perm)) ++ table, hbytes.trans ?_, ?_⟩
  · simp only [frontWords, fixedWords, List.cons_append, List.nil_append, leString_cons,
      leString_nil, leString_append, List.append_assoc]
  · rw [List.length_append, length_leString]
    rfl

/-- The header as it is first written says that the file is not complete, and writing the commit
word makes it the one that was computed. -/
theorem HeaderOf.uncommitted {topology : MpiTopology M} {typ : ScalarType} {layout : Layout}
    {found : Chunked.Header} (h : HeaderOf topology typ layout found) :
    word (uncommitted found) 10 = .ok 0 ∧
      splice (uncommitted found) commitOffset (leBytes 8 1) = found.bytes := by
  obtain ⟨front, back, hbytes, hfront⟩ := h.commit
  have hsame : ∀ v w, (leBytes 8 v).length = (leBytes 8 w).length := fun v w => by
    rw [length_leBytes, length_leBytes]
  have hfirst : Chunked.uncommitted found = front ++ leBytes 8 0 ++ back := by
    unfold Chunked.uncommitted
    rw [hbytes, ← hfront, splice_append (hsame 0 1)]
  rw [hfirst]
  constructor
  · apply word_append
    · exact hfront
    · decide
  · rw [← hfront, splice_append (hsame 1 0), hbytes]

/-! ## Files -/

/-- The words of a header that are in its front are the words of the whole file. -/
theorem word_of_slice {bytes file : List Byte} {len i : ℕ} (h : slice? file 0 len = some bytes)
    (hi : i * 8 + 8 ≤ len) : word bytes i = word file i := by
  unfold slice? at h
  split at h
  · rename_i hle
    obtain rfl := Option.some.inj h
    have hlen : ((file.drop 0).take (len - 0)).length = len := by
      rw [List.drop_zero, Nat.sub_zero, List.length_take, Nat.min_eq_left hle.2]
    unfold word
    rw [slice?_eq (Nat.le_add_right _ _) (by rw [hlen]; exact hi),
      slice?_eq (Nat.le_add_right _ _) (by omega), List.drop_zero, Nat.sub_zero, List.drop_take,
      List.take_take, Nat.min_eq_left (by omega)]
  · cases h

/-- **A written file is read**: the header in front of blocks of the right length. -/
theorem scan_header {alloc : Chunked.Allocator} {topology : MpiTopology M} {typ : ScalarType}
    {layout : Layout} {found : Chunked.Header} (h : header alloc topology typ layout = .ok found)
    (hextra : ∀ d ∈ layout.extra, d < usizeLimit) {payload : List Byte}
    (hpayload : found.bytes.length + payload.length = found.stop) :
    scan ⟨true, true, true⟩ topology (found.bytes ++ payload) = .ok found := by
  have hof := headerOf_of_eq_ok h
  obtain ⟨hlong, hmagic⟩ := hof.long
  obtain ⟨table, hbytes⟩ := hof.bytes
  have hsize : (found.bytes ++ payload).length = found.stop := by
    rw [List.length_append, hpayload]
  have hwhole : slice? (found.bytes ++ payload) 0 found.bytes.length = some found.bytes := by
    rw [slice?_eq (Nat.zero_le _) (by rw [hsize]; omega), List.drop_zero, Nat.sub_zero,
      List.take_left]
  have hpre : slice? (found.bytes ++ payload) 0 prefixBytes
      = some (found.bytes.take prefixBytes) := by
    rw [slice?_eq (Nat.zero_le _) (by rw [hsize]; omega), List.drop_zero, Nat.sub_zero,
      List.take_append_of_le_length hlong]
  have hword : ∀ i, i * 8 + 8 ≤ prefixBytes →
      word (found.bytes.take prefixBytes) i = word found.bytes i := by
    intro i hi
    rw [word_of_slice hpre hi, word_of_slice hwhole (hi.trans hlong)]
  have hversion : word found.bytes 1 = .ok version := word_at hbytes (by decide) rfl
  have hlen : word found.bytes 2 = .ok found.bytes.length :=
    word_at hbytes (hof.length_le.trans_lt (by decide)) rfl
  have hlength : scanLength (found.bytes.take prefixBytes) found.stop = .ok found.bytes.length := by
    unfold scanLength
    rw [hword 1 (by decide), hword 2 (by decide), hversion, hlen, List.take_take,
      Nat.min_eq_left (by decide), hmagic]
    refine bind_eq_ok.mpr ⟨_, rfl, bind_eq_ok.mpr ⟨(), ensure_eq_ok.mpr (by simp), ?_⟩⟩
    refine bind_eq_ok.mpr ⟨_, rfl, bind_eq_ok.mpr ⟨(), ensure_eq_ok.mpr (by simp), ?_⟩⟩
    refine bind_eq_ok.mpr ⟨(), ensure_eq_ok.mpr ?_, rfl⟩
    simp only [Bool.and_eq_true, decide_eq_true_eq]
    exact ⟨⟨hlong, hof.length_le⟩, by omega⟩
  unfold scan
  rw [hpre, hsize]
  refine bind_eq_ok.mpr ⟨_, rfl, bind_eq_ok.mpr ⟨_, hlength, bind_eq_ok.mpr ⟨found.bytes, ?_, ?_⟩⟩⟩
  · rw [hwhole]
    rfl
  · exact parse_header h hextra

theorem le_scanLength {pre : List Byte} {size len : ℕ} (h : scanLength pre size = .ok len) :
    prefixBytes ≤ len := by
  obtain ⟨n, _, h⟩ := bind_eq_ok.mp h
  obtain ⟨_, _, h⟩ := bind_eq_ok.mp h
  obtain ⟨_, _, h⟩ := bind_eq_ok.mp h
  obtain ⟨_, _, h⟩ := bind_eq_ok.mp h
  obtain ⟨_, hbounds, h⟩ := bind_eq_ok.mp h
  obtain rfl := Except.ok.inj h
  have hbounds := ensure_eq_ok.mp hbounds
  simp only [Bool.and_eq_true, decide_eq_true_eq] at hbounds
  exact hbounds.1.1

theorem scan_eq_ok {alloc : Chunked.Allocator} {topology : MpiTopology M} {file : List Byte}
    {found : Chunked.Header} (h : scan alloc topology file = .ok found) :
    ∃ len bytes, prefixBytes ≤ len ∧ slice? file 0 len = some bytes ∧
      parse alloc topology bytes file.length = .ok found := by
  obtain ⟨pre, _, h⟩ := bind_eq_ok.mp h
  obtain ⟨len, hlen, h⟩ := bind_eq_ok.mp h
  obtain ⟨bytes, hbytes, h⟩ := bind_eq_ok.mp h
  exact ⟨len, bytes, le_scanLength hlen, okOr_eq_ok.mp hbytes, h⟩

/-- **What is accepted is canonical**: the file starts with the header that a writer of its layout
computes, and it ends where that header says. -/
theorem scan_canonical {alloc : Chunked.Allocator} {topology : MpiTopology M} {file : List Byte}
    {found : Chunked.Header} (h : scan alloc topology file = .ok found) :
    (∃ payload, file = found.bytes ++ payload) ∧ found.stop = file.length ∧ ∃ typ layout,
      header alloc topology typ layout = .ok found := by
  obtain ⟨len, bytes, _, hslice, hparse⟩ := scan_eq_ok h
  obtain ⟨rfl, hstop, hheader⟩ := parse_canonical hparse
  refine ⟨⟨file.drop len, ?_⟩, hstop, hheader⟩
  unfold slice? at hslice
  split at hslice
  · obtain hbytes := Option.some.inj hslice
    rw [← hbytes, List.drop_zero, Nat.sub_zero, List.take_append_drop]
  · cases hslice

/-- A file whose commit word is not set is refused. -/
theorem scan_uncommitted (alloc : Chunked.Allocator) (topology : MpiTopology M)
    {file : List Byte} (h : word file 10 = .ok 0) : ∃ e, scan alloc topology file = .error e := by
  cases hscan : scan alloc topology file with
  | error e => exact ⟨e, rfl⟩
  | ok found =>
    obtain ⟨len, bytes, hlen, hslice, hparse⟩ := scan_eq_ok hscan
    have hone := parse_committed hparse
    rw [word_of_slice hslice (le_trans (by decide) hlen), h] at hone
    exact absurd (Except.ok.inj hone) Nat.zero_ne_one

/-! ## Blocks of the ranks -/

/-- Where the blocks of the ranks are in the file, and how long they are. -/
def blocks (found : Chunked.Header) (width : ℕ) : List (ℕ × ℕ) :=
  List.zipWith (fun offset count => (offset, count * width)) found.offsets found.counts

theorem HeaderOf.blocks_eq {topology : MpiTopology M} {typ : ScalarType} {layout : Layout}
    {found : Chunked.Header} (h : HeaderOf topology typ layout found) :
    blocks found typ.width = (List.range topology.size).map fun rank =>
      (found.bytes.length + (found.counts.take rank).sum * typ.width,
        found.counts.getD rank 0 * typ.width) := by
  have hlength : (blocks found typ.width).length = topology.size := by
    rw [blocks, List.length_zipWith, h.offsets, h.counts, Nat.min_self]
  apply List.ext_getElem
  · rw [hlength, List.length_map, List.length_range]
  · intro rank hrank _
    rw [hlength] at hrank
    have hcount : rank < found.counts.length := h.counts.symm ▸ hrank
    obtain ⟨_, hoffset⟩ := List.getElem?_eq_some_iff.mp (h.offset rank hrank)
    simp only [blocks, List.getElem_zipWith, List.getElem_map, List.getElem_range, hoffset,
      List.getD_eq_getElem?_getD, List.getElem?_eq_getElem hcount, Option.getD_some]

/-- **The blocks tile** what is behind the header. -/
theorem HeaderOf.tiles {topology : MpiTopology M} {typ : ScalarType} {layout : Layout}
    {found : Chunked.Header} (h : HeaderOf topology typ layout found) :
    Tiles found.bytes.length (blocks found typ.width) found.stop := by
  have hcuts := tiles_of_cuts
    (fun k => found.bytes.length + (found.counts.take k).sum * typ.width)
    (fun k => (found.bytes.length + (found.counts.take k).sum * typ.width,
      found.counts.getD k 0 * typ.width)) topology.size ?_ ?_
  · rw [h.blocks_eq, h.stop]
    simpa only [List.take_zero, List.sum_nil, Nat.zero_mul, Nat.add_zero,
      List.take_of_length_le h.counts.le] using hcuts
  · intro k hk
    have hcount : k < found.counts.length := h.counts.symm ▸ hk
    rw [List.getD_eq_getElem?_getD, List.take_add_one, List.getElem?_eq_getElem hcount,
      List.sum_append, Option.toList_some, List.sum_singleton, Nat.add_mul, Option.getD_some]
    ext
    · rfl
    · simp only
      omega
  · apply monotone_nat_of_le_succ
    intro k
    rw [List.take_add_one, List.sum_append]
    exact Nat.add_le_add_left (Nat.mul_le_mul_right _ (Nat.le_add_right _ _)) _

/-! ## The pencils of the ranks -/

/-- The range a layout's header gives to a rank is the range of the pencil. -/
theorem axisRange_layoutOf (pencil : Pencil N M) (extra : List ℕ) {coords : Fin M → ℕ}
    (hcoords : ∀ t, coords t < pencil.topology.processGrid t) (axis : Fin N) :
    axisRange (Chunked.layoutOf pencil extra) (List.ofFn coords) axis (pencil.globalShape axis)
      = .ok (ownedRanges pencil.globalShape pencil.topology.processGrid coords
          pencil.decomposition.axes axis) := by
  have hextent : pencil.globalShape axis < usizeLimit :=
    extent_lt pencil.extents_pos (globalShape_fits pencil) axis
  unfold axisRange
  by_cases hdec : ∃ t, pencil.decomposition.axes t = axis
  · obtain ⟨t, rfl⟩ := hdec
    have hfind : (Chunked.layoutOf pencil extra).decomp.findIdx?
        (fun a => a = (pencil.decomposition.axes t : ℕ)) = some (t : ℕ) := by
      rw [List.findIdx?_eq_some_iff_getElem]
      refine ⟨by simp only [Chunked.layoutOf, List.length_ofFn, t.isLt], ?_, ?_⟩
      · simp only [Chunked.layoutOf, List.getElem_ofFn, Fin.eta, decide_true]
      · intro j hj
        simp only [Chunked.layoutOf, List.getElem_ofFn, decide_eq_true_eq]
        intro heq
        have hsame := pencil.decomposition.injective (Fin.ext heq)
        rw [← hsame] at hj
        exact lt_irrefl _ hj
    have hgrid : (Chunked.layoutOf pencil extra).grid.getD t 0 = pencil.topology.processGrid t := by
      simp only [Chunked.layoutOf, List.getD_eq_getElem?_getD, List.getElem?_ofFn, t.isLt,
        dite_true, Fin.eta, Option.getD_some]
    have hcoord : (List.ofFn coords).getD t 0 = coords t := by
      simp only [List.getD_eq_getElem?_getD, List.getElem?_ofFn, t.isLt, dite_true, Fin.eta,
        Option.getD_some]
    rw [hfind]
    simp only [hgrid, hcoord]
    rw [partitionRange_eq hextent (processGrid_lt _ _) (hcoords t),
      ownedRanges_decomposed _ _ _ pencil.decomposition.injective]
    rfl
  · have hne : ∀ t, pencil.decomposition.axes t ≠ axis := fun t ht => hdec ⟨t, ht⟩
    have hfind : (Chunked.layoutOf pencil extra).decomp.findIdx? (fun a => a = (axis : ℕ))
        = none := by
      rw [List.findIdx?_eq_none_iff]
      intro a ha
      obtain ⟨t, rfl⟩ := List.mem_ofFn.mp ha
      exact decide_eq_false fun heq => hne t (Fin.ext heq)
    rw [hfind, ownedRanges_whole _ _ _ hne]

/-- The elements that the header counts for a rank are the elements of its pencil. -/
theorem blockCount_layoutOf {topology : MpiTopology M} (p : DistributedPencil topology N)
    (c d : Coords topology.processGrid) {extra : List ℕ} {count : ℕ}
    (h : BlockCount (p.on c).topology (Chunked.layoutOf (p.on c) extra) (rankOf topology d) count) :
    count = extra.prod * (p.on d).localLen := by
  obtain ⟨ranges, hlength, hranges, rfl⟩ := h
  have hcoords : rankToCoordinates (p.on c).topology (rankOf topology d)
      = List.ofFn fun t => (d t : ℕ) := by
    unfold rankToCoordinates
    rw [p.topology_eq]
    exact congrArg List.ofFn (funext fun t => congrArg (fun x : Coords topology.processGrid =>
      (x t : ℕ)) (coordsAt_rankOf topology d))
  have hlt : ∀ t, (d t : ℕ) < (p.on c).topology.processGrid t := fun t => by
    rw [processGrid_on]
    exact (d t).isLt
  have hall : ranges = List.ofFn (p.on d).localRanges := by
    apply List.ext_getElem
    · rw [hlength, Chunked.layoutOf, List.length_ofFn, List.length_ofFn]
    · intro axis haxis haxis'
      rw [List.length_ofFn] at haxis'
      obtain ⟨g, hg, hrange⟩ := hranges.range axis _ (List.getElem?_eq_getElem haxis)
      obtain ⟨_, rfl⟩ := List.getElem?_eq_some_iff.mp hg
      have hown := axisRange_layoutOf (p.on c) extra hlt ⟨axis, haxis'⟩
      rw [hcoords] at hrange
      simp only [Chunked.layoutOf, List.getElem_ofFn] at hrange
      have hlocal : (p.on d).localRanges ⟨axis, haxis'⟩ = _ :=
        congrFun (localRanges_on p d c) ⟨axis, haxis'⟩
      rw [processGrid_on] at hown
      rw [List.getElem_ofFn, hlocal]
      exact Except.ok.inj (hrange.symm.trans hown)
  rw [hall, localLen_eq, (p.on d).localShapeLogical_eq, List.map_ofFn, List.prod_ofFn]
  rfl

/-! ## What is written is what is read -/

/-- What the writer prepares for the view of a distributed array. -/
structure ChunkedFormat {topology : MpiTopology M} {p : DistributedPencil topology N}
    {extraShape : ExtraShape} {scalar : ScalarType}
    (view : DistributedView p extraShape scalar.Value) (found : Chunked.Header) : Prop where
  /-- The header describes the array. -/
  info : ∀ d, found.info = ⟨none, scalar, List.ofFn (p.on d).globalShape, extraShape.dimensions,
    leString 8 (List.ofFn topology.processGrid
      ++ List.ofFn fun i => ((p.on d).permutation.axesInMemoryOrder i : ℕ))⟩
  /-- All ranks prepare the same header, and the local count is the one it has for the rank. -/
  same : ∀ d n, MpiIo.checkedLocalByteCount (view.on d).storage.length scalar.width = .ok n →
    prepareView ⟨true, true, true⟩ scalar (p.on d) extraShape.dimensions
      (view.on d).storage.length = .ok (found, n)
  /-- The header is read as it was written, by every rank. -/
  parsed : ∀ d, parse ⟨true, true, true⟩ (p.on d).topology found.bytes found.stop = .ok found
  /-- So is a file of the header and the blocks. -/
  scanned : ∀ d (payload : List Byte), found.bytes.length + payload.length = found.stop →
    scan ⟨true, true, true⟩ (p.on d).topology (found.bytes ++ payload) = .ok found
  /-- The blocks tile what is behind the header, in the order of the ranks. -/
  tiles : Tiles found.bytes.length (blocks found scalar.width) found.stop
  ranks : (blocks found scalar.width).length = topology.size
  /-- The block of a rank starts at its offset and is as long as its elements. -/
  block : ∀ d, ∃ offset, found.offsets[rankOf topology d]? = some offset ∧
    (blocks found scalar.width)[rankOf topology d]?
      = some (offset, (view.on d).storage.length * scalar.width)
  /-- What is written first is not complete, and the commit word completes it. -/
  commit : word (uncommitted found) 10 = .ok 0 ∧
    splice (uncommitted found) commitOffset (leBytes 8 1) = found.bytes

section Ranks

variable {topology : MpiTopology M} (p : DistributedPencil topology N)
  (c d : Coords topology.processGrid)

theorem size_on : (p.on c).topology.size = topology.size := by
  unfold MpiTopology.size
  rw [processGrid_on]

theorem rank_on : (p.on c).topology.rank = rankOf topology c := by
  unfold MpiTopology.rank rankOf
  rw [processGrid_on, localCoords_on]

/-- The ranks compute one header. -/
theorem header_on {alloc : Chunked.Allocator} {typ : ScalarType} (extra : List ℕ) :
    header alloc (p.on c).topology typ (Chunked.layoutOf (p.on c) extra)
      = header alloc (p.on d).topology typ (Chunked.layoutOf (p.on d) extra) := by
  have hlayout : Chunked.layoutOf (p.on c) extra = Chunked.layoutOf (p.on d) extra := by
    simp only [Chunked.layoutOf, processGrid_on, p.globalShape_eq c d, p.decomposition_eq c d,
      p.permutation_eq c d]
  rw [hlayout, p.topology_eq c, p.topology_eq d]
  rfl

end Ranks

theorem chunkedFormat {topology : MpiTopology M} {p : DistributedPencil topology N}
    {extraShape : ExtraShape} {scalar : ScalarType}
    (view : DistributedView p extraShape scalar.Value)
    (hextra : ∀ d ∈ extraShape.dimensions, d < usizeLimit) {c : Coords topology.processGrid}
    {alloc : Chunked.Allocator} {found : Chunked.Header} {n : ℕ}
    (h : prepareView alloc scalar (p.on c) extraShape.dimensions (view.on c).storage.length
      = .ok (found, n)) : ChunkedFormat view found := by
  obtain ⟨_, _, h⟩ := bind_eq_ok.mp h
  obtain ⟨found', hheader, h⟩ := bind_eq_ok.mp h
  obtain ⟨_, _, h⟩ := bind_eq_ok.mp h
  obtain ⟨_, _, h⟩ := bind_eq_ok.mp h
  obtain ⟨rfl, _⟩ := Prod.mk.inj (Except.ok.inj h)
  have hheader := mapError_eq_ok.mp hheader
  obtain rfl := header_granted hheader
  have hof := headerOf_of_eq_ok hheader
  have hall := fun d => (header_on p d c extraShape.dimensions).trans hheader
  have hcount : ∀ d, found'.counts[rankOf topology d]? = some (view.on d).storage.length := by
    intro d
    have hlt : rankOf topology d < found'.counts.length := by
      rw [hof.counts, size_on]
      exact rankOf_lt topology d
    have hentry := List.getElem?_eq_getElem hlt
    rw [hentry, blockCount_layoutOf p c d (hof.count _ _ hentry), storage_length view,
      elementCount_eq]
  refine ⟨?_, ?_, ?_, ?_, hof.tiles, ?_, ?_, hof.uncommitted⟩
  · intro d
    rw [hof.info, ← processGrid_on p c]
    simp only [Chunked.layoutOf, p.globalShape_eq d c, p.permutation_eq d c]
  · intro d n hbytes
    have hown : okOr found'.counts[(p.on d).topology.rank]? (Stop.panic : Stop IoError)
        = .ok (view.on d).storage.length := by
      rw [rank_on, hcount]
      rfl
    refine bind_eq_ok.mpr ⟨n, mapError_eq_ok.mpr hbytes, bind_eq_ok.mpr ⟨found',
      mapError_eq_ok.mpr (hall d), bind_eq_ok.mpr ⟨_, hown, bind_eq_ok.mpr ⟨(), ?_, rfl⟩⟩⟩⟩
    exact ensure_eq_ok.mpr (decide_eq_true rfl)
  · exact fun d => parse_header (hall d) hextra
  · exact fun d payload => scan_header (hall d) hextra
  · rw [hof.blocks_eq, List.length_map, List.length_range, size_on]
  · intro d
    have hlt : rankOf topology d < (p.on c).topology.size := by
      rw [size_on]
      exact rankOf_lt topology d
    refine ⟨_, hof.offset _ hlt, ?_⟩
    rw [hof.blocks_eq, List.getElem?_map, List.getElem?_range hlt, Option.map_some,
      List.getD_eq_getElem?_getD, hcount, Option.getD_some]

/-- **Chunked files.**  What the writer prepares is read back, its blocks tile the file behind the
header, what a reader accepts is canonical, and a file whose commit word is not set is refused.
The extents of the extra shape are machine words. -/
theorem chunked_format :
    (∀ {N M : ℕ} {topology : MpiTopology M} {p : DistributedPencil topology N}
      {extraShape : ExtraShape} {scalar : ScalarType}
      (view : DistributedView p extraShape scalar.Value) (c : Coords topology.processGrid)
      (alloc : Chunked.Allocator) (found : Chunked.Header) (n : ℕ),
      (∀ d ∈ extraShape.dimensions, d < usizeLimit) →
      prepareView alloc scalar (p.on c) extraShape.dimensions (view.on c).storage.length
        = .ok (found, n) → ChunkedFormat view found) ∧
    (∀ {M : ℕ} (alloc : Chunked.Allocator) (topology : MpiTopology M) (bytes : List Byte)
      (size : ℕ) (found : Chunked.Header), parse alloc topology bytes size = .ok found →
      found.bytes = bytes ∧ found.stop = size ∧
        ∃ typ layout, header alloc topology typ layout = .ok found) ∧
    (∀ {M : ℕ} (alloc : Chunked.Allocator) (topology : MpiTopology M) (file : List Byte)
      (found : Chunked.Header), scan alloc topology file = .ok found →
      (∃ payload, file = found.bytes ++ payload) ∧ found.stop = file.length ∧
        ∃ typ layout, header alloc topology typ layout = .ok found ∧
          Tiles found.bytes.length (blocks found typ.width) file.length) ∧
    (∀ {M : ℕ} (alloc : Chunked.Allocator) (topology : MpiTopology M) (file : List Byte),
      word file 10 = .ok 0 → ∃ e, scan alloc topology file = .error e) ∧
    (∀ {M : ℕ} (alloc : Chunked.Allocator) (topology : MpiTopology M) (bytes : List Byte)
      (size : ℕ), word bytes 10 = .ok 0 → ∃ e, parse alloc topology bytes size = .error e) := by
  refine ⟨?_, fun alloc topology bytes size found => parse_canonical, ?_,
    fun alloc topology file => scan_uncommitted alloc topology,
    fun alloc topology bytes size => parse_uncommitted alloc topology size⟩
  · intro N M topology p extraShape scalar view c alloc found n hextra h
    exact chunkedFormat view hextra h
  · intro M alloc topology file found h
    obtain ⟨hfile, hstop, typ, layout, hheader⟩ := scan_canonical h
    refine ⟨hfile, hstop, typ, layout, hheader, ?_⟩
    rw [← hstop]
    exact (headerOf_of_eq_ok hheader).tiles

/-- Zeros on two ranks. -/
def zeroRows : DistributedView (threeByTwo 0 AxisPermutation.identity) ExtraShape.scalar
    ScalarType.i32.Value where
  on := fun c => {
    pencil := (threeByTwo 0 AxisPermutation.identity).on c
    extraShape := ExtraShape.scalar
    storage := List.replicate (ExtraShape.scalar.elementCount
      * ((threeByTwo 0 AxisPermutation.identity).on c).localLen) 0
    storageLen_ok := validateStorageLen_of_length List.length_replicate
      (by rw [List.length_replicate]; exact threeByTwo_fits 0 _ c) }
  pencil_eq := fun _ => rfl
  extraShape_eq := fun _ => rfl

theorem chunked_format_two_ranks :
    ∃ found n, prepareView ⟨true, true, true⟩ .i32
      ((threeByTwo 0 AxisPermutation.identity).on twoRanks.here) []
      (zeroRows.on twoRanks.here).storage.length = .ok (found, n) ∧
      ChunkedFormat zeroRows found ∧ n = 8 := by
  have hprepared : (prepareView ⟨true, true, true⟩ .i32
      ((threeByTwo 0 AxisPermutation.identity).on twoRanks.here) []
      (zeroRows.on twoRanks.here).storage.length).toOption.map Prod.snd = some 8 := by
    decide +kernel
  cases hfound : prepareView ⟨true, true, true⟩ .i32
      ((threeByTwo 0 AxisPermutation.identity).on twoRanks.here) []
      (zeroRows.on twoRanks.here).storage.length with
  | error e =>
    rw [hfound] at hprepared
    cases hprepared
  | ok result =>
    obtain ⟨found, n⟩ := result
    rw [hfound] at hprepared
    exact ⟨found, n, rfl, chunked_format.1 zeroRows twoRanks.here ⟨true, true, true⟩ found n
      nofun hfound, Option.some.inj hprepared⟩

end PencilRs.Analysis
