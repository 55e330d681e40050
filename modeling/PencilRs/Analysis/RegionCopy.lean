import PencilRs.Analysis.Walk

/-!
# What the region copies move

Each of the three region copies performs the moves `payload position ↔ storage offset of
the region's q-th index`, for `q` from `0` in order.  The proof goes through the positions
a run walk visits, so the same lemma covers pencil storage and payload on either side.
-/

set_option autoImplicit false

namespace PencilRs.Analysis

open PencilRs.Computation PencilRs.Model

variable {N M : ℕ} {α σ τ : Type}

/-! ## The odometer -/

theorem weighted_update_of_notMem (stride x : Fin N → ℕ) {l : List (Fin N)} {axis : Fin N}
    (v : ℕ) (h : axis ∉ l) :
    weighted stride l (Function.update x axis v) = weighted stride l x :=
  weighted_congr fun _ ha => Function.update_of_ne (ne_of_mem_of_not_mem ha h) _ _

/-- Carrying adds exactly what the next digits weigh more, without leaving `usize`. -/
theorem advanceAxes_eq (walk : RegionWalk N) (base : ℕ) {l : List (Fin N)} (hn : l.Nodup)
    {counter : Fin N → ℕ} (hvalid : ∀ a ∈ l, counter a < walk.extent a)
    (hlast : MixedRadix.value walk.extent counter l + 1 < MixedRadix.size walk.extent l)
    (hfit : ∀ d, (∀ a ∈ l, d a < walk.extent a) →
      base + weighted walk.stride l d < usizeLimit) :
    advanceAxes walk l (counter, base + weighted walk.stride l counter)
      = some (MixedRadix.bump walk.extent l counter,
          base + weighted walk.stride l (MixedRadix.bump walk.extent l counter)) := by
  induction l generalizing counter with
  | nil => simp at hlast
  | cons a l ih =>
    obtain ⟨ha, hn⟩ := List.nodup_cons.mp hn
    have hca : counter a < walk.extent a := hvalid a (by simp)
    have htail : ∀ b ∈ l, counter b < walk.extent b := fun b hb => hvalid b (by simp [hb])
    rw [advanceAxes, MixedRadix.bump]
    split
    case isTrue hroom =>
      have hvalid' : ∀ b ∈ a :: l,
          Function.update counter a (counter a + 1) b < walk.extent b := by
        intro b hb
        by_cases hab : b = a
        · subst hab
          rwa [Function.update_self]
        · rw [Function.update_of_ne hab]
          exact hvalid b hb
      have hnext := hfit _ hvalid'
      have hsum : base + weighted walk.stride (a :: l) counter + walk.stride a
          = base + weighted walk.stride (a :: l)
              (Function.update counter a (counter a + 1)) := by
        rw [weighted_cons, weighted_cons, weighted_update_of_notMem _ _ _ ha,
          Function.update_self]
        ring
      have hadd : checkedAdd (base + weighted walk.stride (a :: l) counter) (walk.stride a)
          = some (base + weighted walk.stride (a :: l)
              (Function.update counter a (counter a + 1))) :=
        checkedAdd_eq_some.mpr ⟨by omega, hsum⟩
      rw [hadd]
      rfl
    case isFalse hfull =>
      have hcarry := hfit counter hvalid
      rw [weighted_cons] at hcarry ⊢
      have hmul : checkedMul (counter a) (walk.stride a) = some (counter a * walk.stride a) :=
        checkedMul_eq_some.mpr ⟨by omega, rfl⟩
      have hsub : checkedSub (base + (counter a * walk.stride a
          + weighted walk.stride l counter)) (counter a * walk.stride a)
          = some (base + weighted walk.stride l counter) :=
        checkedSub_eq_some.mpr ⟨by omega, by omega⟩
      have hkeep : ∀ b ∈ l, Function.update counter a 0 b = counter b := fun b hb =>
        Function.update_of_ne (ne_of_mem_of_not_mem hb ha) _ _
      have hroom : MixedRadix.value walk.extent (Function.update counter a 0) l + 1
          < MixedRadix.size walk.extent l := by
        rw [MixedRadix.value_congr hkeep]
        rw [MixedRadix.value_cons, MixedRadix.size_cons] at hlast
        have hca' : counter a + 1 = walk.extent a := by omega
        have : walk.extent a * (MixedRadix.value walk.extent counter l + 1)
            < walk.extent a * MixedRadix.size walk.extent l := by
          rw [Nat.mul_add]
          omega
        exact Nat.lt_of_mul_lt_mul_left this
      have hfit' : ∀ d, (∀ b ∈ l, d b < walk.extent b) →
          base + weighted walk.stride l d < usizeLimit := by
        intro d hd
        have := hfit (Function.update d a 0) fun b hb => by
          by_cases hab : b = a
          · subst hab
            rw [Function.update_self]
            omega
          · rw [Function.update_of_ne hab]
            exact hd b (List.mem_of_ne_of_mem hab hb)
        rw [weighted_cons, weighted_update_of_notMem _ _ _ ha, Function.update_self] at this
        omega
      have hzeroed : ∀ b ∈ l, Function.update counter a 0 b < walk.extent b := by
        intro b hb
        rw [hkeep b hb]
        exact htail b hb
      have hrun := ih hn hzeroed hroom hfit'
      rw [weighted_congr hkeep] at hrun
      simp only [hmul, hsub, Option.bind_eq_bind, Option.bind_some]
      rw [hrun]
      have hzero : MixedRadix.bump walk.extent l (Function.update counter a 0) a = 0 := by
        rw [MixedRadix.bump_of_notMem _ ha, Function.update_self]
      rw [weighted_cons, hzero, Nat.zero_mul, Nat.zero_add]

/-! ## Positions visited by a run walk -/

/-- The walk reaches `count` runs, the `k`-th one at offset `position k`. -/
def Visits (walk : RunWalk σ) (count : ℕ) (position : ℕ → ℕ) : Prop :=
  ∃ state : ℕ → σ, state 0 = walk.first ∧
    (∀ k, k + 1 < count → walk.next (state k) = some (state (k + 1))) ∧
    ∀ k < count, walk.offset (state k) = position k

theorem visits_payloadRuns {runLen count : ℕ} (hfit : count * runLen < usizeLimit) :
    Visits (payloadRuns runLen) count fun k => k * runLen := by
  refine ⟨fun k => k * runLen, by simp [payloadRuns], ?_, fun k _ => rfl⟩
  intro k hk
  have hle : (k + 1) * runLen ≤ count * runLen := Nat.mul_le_mul_right _ (by omega)
  have hsucc : (k + 1) * runLen = k * runLen + runLen := Nat.succ_mul k runLen
  change checkedAdd (k * runLen) runLen = some ((k + 1) * runLen)
  rw [checkedAdd_eq_some]
  omega

theorem nodup_outerAxes : (outerAxes N).Nodup := (List.nodup_finRange N).filter _

/-- The digits of `k` over the outer axes, last outer axis fastest. -/
def outerDigits (region : Fin N → Range) (k : ℕ) : Fin N → ℕ :=
  MixedRadix.digit (regionExtent region) (outerAxes N).reverse k

theorem visits_regionRuns {p : Pencil N M} {region : Fin N → Range} {walk : RegionWalk N}
    (h : InsideBlock p region) (hw : IsWalk p region walk) :
    Visits (regionRuns walk) walk.outerLen fun k =>
      walk.start + weighted walk.stride (outerAxes N).reverse (outerDigits region k) := by
  refine ⟨fun k => (outerDigits region k,
    walk.start + weighted walk.stride (outerAxes N).reverse (outerDigits region k)), ?_, ?_,
    fun k _ => rfl⟩
  · simp [regionRuns, outerDigits, weighted]
  · intro k hk
    have hsize : MixedRadix.size (regionExtent region) (outerAxes N).reverse = walk.outerLen := by
      rw [MixedRadix.size_reverse, hw.outerLen]
    have hnodup : (outerAxes N).reverse.Nodup := List.nodup_reverse.mpr nodup_outerAxes
    have hpos : ∀ a ∈ (outerAxes N).reverse, 0 < regionExtent region a :=
      fun a _ => h.extent_pos a
    have hvalue : MixedRadix.value (regionExtent region) (outerDigits region k)
        (outerAxes N).reverse = k := MixedRadix.value_digit hnodup (by omega)
    have hdigits : ∀ a ∈ (outerAxes N).reverse, outerDigits region k a < walk.extent a := by
      rw [hw.extent]
      exact MixedRadix.digit_lt k hpos
    have hstep := advanceAxes_eq walk walk.start hnodup hdigits
      (by rw [hw.extent, hvalue, hsize]; exact hk) ?_
    · change advanceRegion walk _ = _
      unfold advanceRegion
      rw [hstep, hw.extent]
      unfold outerDigits
      rw [MixedRadix.bump_digit hnodup (by rw [hsize]; exact hk)]
    · intro d hd
      rw [hw.extent] at hd
      let x : Fin N → ℕ := fun a => if a ∈ outerAxes N then d a else 0
      have hx : ∀ a, x a < regionExtent region a := by
        intro a
        by_cases ha : a ∈ outerAxes N
        · simp only [x, ha, if_true]
          exact hd a (by simpa using ha)
        · simp only [x, ha, if_false]
          exact h.extent_pos a
      have hle : weighted walk.stride (outerAxes N).reverse d ≤ layoutOffset p x := by
        have hcongr : weighted walk.stride (outerAxes N).reverse d
            = weighted walk.stride (outerAxes N) x := by
          rw [weighted_reverse]
          exact weighted_congr fun a ha => by simp [x, ha]
        rw [hcongr, hw.stride]
        unfold weighted outerAxes
        exact (List.filter_sublist.map _).sum_le_sum fun _ _ => Nat.zero_le _
      have hlt := layoutOffset_lt (h.validLocal_add hx)
      have hsum := layoutOffset_add p (regionLead p region) x
      have hlen := localLen_lt p
      have hstart := hw.start
      change layoutOffset p (fun axis => regionLead p region axis + x axis) < p.localLen at hlt
      omega

/-! ## The copy loops -/

/-- The moves of one run. -/
theorem copyRun_eq {source : RunWalk σ} {target : RunWalk τ} {storage : List α}
    {start stop sourceOffset targetOffset : ℕ} {buf : Buf α}
    (hrun : source.runLen = target.runLen) (hpos : 0 < source.runLen)
    (hread : ∀ t < source.runLen, sourceOffset + t * source.stride < storage.length)
    (hwrite : ∀ t < source.runLen, start + (targetOffset + t * target.stride) < stop)
    (hstop : stop ≤ buf.cells.length) :
    copyRun source target storage start stop sourceOffset targetOffset buf
      = Buf.moveAll (fun i => storage[i]?) buf ((List.range source.runLen).map fun t =>
          (start + (targetOffset + t * target.stride), sourceOffset + t * source.stride)) := by
  unfold copyRun
  split
  case isTrue hone =>
    obtain ⟨hs, ht⟩ := hone
    have hr := hread (source.runLen - 1) (by omega)
    have hw := hwrite (source.runLen - 1) (by omega)
    rw [hs, Nat.mul_one] at hr
    rw [ht, Nat.mul_one] at hw
    have hlen : ((storage.drop sourceOffset).take
        (sourceOffset + source.runLen - sourceOffset)).length = source.runLen :=
      length_take_drop (by omega)
    rw [slice?_eq (by omega) (by omega)]
    simp only [Option.bind_eq_bind, Option.bind_some]
    rw [if_neg (by rw [hlen, hrun]; simp)]
    rw [Buf.copyFromSlice_eq (by rw [hlen]; omega) hstop, hlen,
      Buf.moveAll_map_place (g := fun i => storage[i]?) (fun t => sourceOffset + t)]
    · rw [List.map_map]
      congr 1
      apply List.map_congr_left
      intro t _
      simp [hs, ht, Nat.add_assoc]
    · intro m hm
      obtain ⟨t, ht', rfl⟩ := List.mem_map.mp hm
      have hlt : t < source.runLen := List.mem_range.mp ht'
      simp only
      rw [List.getElem?_take_of_lt (by omega), List.getElem?_drop]
  case isFalse =>
    have hstore : ∀ t ∈ List.range source.runLen, ∀ b : Buf α,
        b.cells.length = buf.cells.length →
        (do
          let value ← storage[sourceOffset + t * source.stride]?
          b.store start stop (targetOffset + t * target.stride) value)
          = Buf.moveAll (fun i => storage[i]?) b
              [(start + (targetOffset + t * target.stride),
                sourceOffset + t * source.stride)] := by
      intro t ht b hb
      have hlt : t < source.runLen := List.mem_range.mp ht
      rw [Buf.moveAll_cons]
      cases hget : storage[sourceOffset + t * source.stride]? with
      | none => rfl
      | some v =>
        simp only [Option.bind_eq_bind, Option.bind_some, Buf.moveAll_nil]
        exact Buf.store_eq v (hwrite t hlt) (by omega)
    rw [Buf.foldlM_moveAll _ _ _ hstore buf rfl, ← List.map_eq_flatMap]

/-- The moves of all runs, in payload order. -/
theorem copyRuns_eq {source : RunWalk σ} {target : RunWalk τ} {outerLen : ℕ}
    {storage : List α} {start stop : ℕ} {buf : Buf α} {sourcePos targetPos : ℕ → ℕ}
    (hs : Visits source outerLen sourcePos) (ht : Visits target outerLen targetPos)
    (hrun : source.runLen = target.runLen)
    (hread : ∀ k < outerLen, ∀ t < source.runLen,
      sourcePos k + t * source.stride < storage.length)
    (hwrite : ∀ k < outerLen, ∀ t < source.runLen,
      start + (targetPos k + t * target.stride) < stop)
    (hstop : stop ≤ buf.cells.length) :
    copyRuns source target outerLen storage start stop buf
      = Buf.moveAll (fun i => storage[i]?) buf
          ((List.range (outerLen * source.runLen)).map fun q =>
            (start + (targetPos (q / source.runLen) + q % source.runLen * target.stride),
              sourcePos (q / source.runLen) + q % source.runLen * source.stride)) := by
  unfold copyRuns
  by_cases hzero : source.runLen = 0
  · simp [hzero]
  rw [if_neg hzero]
  obtain ⟨sState, hs0, hsNext, hsPos⟩ := hs
  obtain ⟨tState, ht0, htNext, htPos⟩ := ht
  let moves : ℕ → List (ℕ × ℕ) := fun k => (List.range source.runLen).map fun t =>
    (start + (targetPos k + t * target.stride), sourcePos k + t * source.stride)
  let I : ℕ → Buf α × σ × τ → Prop := fun k state =>
    Buf.moveAll (fun i => storage[i]?) buf ((List.range k).flatMap moves) = some state.1 ∧
      (k < outerLen → state.2.1 = sState k ∧ state.2.2 = tState k)
  have hstep : ∀ k < outerLen, ∀ state, I k state →
      ∃ state', copyRunsStep source target outerLen storage start stop state k = pure state' ∧
        I (k + 1) state' := by
    rintro k hk ⟨b, s, t⟩ ⟨hmoves, hstates⟩
    obtain ⟨rfl, rfl⟩ := hstates hk
    have hblen : b.cells.length = buf.cells.length := Buf.length_moveAll hmoves
    have hreads : ∀ t < source.runLen,
        source.offset (sState k) + t * source.stride < storage.length := by
      rw [hsPos k hk]
      exact hread k hk
    have hwrites : ∀ t < source.runLen,
        start + (target.offset (tState k) + t * target.stride) < stop := by
      rw [htPos k hk]
      exact hwrite k hk
    have hfits : stop ≤ b.cells.length := by omega
    have hone := copyRun_eq hrun (by omega) hreads hwrites hfits
    rw [hsPos k hk, htPos k hk] at hone
    have hreadable : ∀ m ∈ moves k, (storage[m.2]?).isSome := by
      intro m hm
      obtain ⟨t, ht, rfl⟩ := List.mem_map.mp hm
      simpa using hread k hk t (List.mem_range.mp ht)
    obtain ⟨b', hb'⟩ := Buf.moveAll_isSome b hreadable
    have hnext : Buf.moveAll (fun i => storage[i]?) buf ((List.range (k + 1)).flatMap moves)
        = some b' := by
      rw [List.range_succ, List.flatMap_append, Buf.moveAll_append, hmoves]
      simpa using hb'
    have hcopy : copyRun source target storage start stop (source.offset (sState k))
        (target.offset (tState k)) b = some b' := by
      rw [hsPos k hk, htPos k hk, hone]
      exact hb'
    by_cases hlast : k + 1 = outerLen
    · refine ⟨(b', sState k, tState k), ?_, hnext, fun h => absurd h (by omega)⟩
      simp [copyRunsStep, hcopy, hlast]
    · refine ⟨(b', sState (k + 1), tState (k + 1)), ?_, hnext, fun _ => ⟨rfl, rfl⟩⟩
      simp [copyRunsStep, hcopy, hlast, hsNext k (by omega), htNext k (by omega)]
  obtain ⟨⟨b, s, t⟩, hloop, hI, _⟩ := foldlM_range_inv (m := Option)
    (copyRunsStep source target outerLen storage start stop) I outerLen
    (buf, source.first, target.first) ⟨rfl, fun _ => ⟨hs0.symm, ht0.symm⟩⟩ hstep
  rw [hloop]
  change some b = _
  rw [← hI]
  congr 1
  exact flatMap_range_map outerLen source.runLen _

/-! ## Positions of a region's elements -/

theorem axesFastestFirst_eq (hN : 0 < N) :
    axesFastestFirst N = ⟨N - 1, by omega⟩ :: (outerAxes N).reverse := by
  obtain ⟨n, rfl⟩ : ∃ n, N = n + 1 := ⟨N - 1, by omega⟩
  have houter : outerAxes (n + 1) = (List.finRange n).map Fin.castSucc := by
    unfold outerAxes
    rw [List.finRange_succ_last, List.filter_append]
    have hlast : [Fin.last n].filter (fun a : Fin (n + 1) => (a : ℕ) + 1 < n + 1) = [] := by simp
    have hall : ((List.finRange n).map Fin.castSucc).filter
        (fun a : Fin (n + 1) => (a : ℕ) + 1 < n + 1) = (List.finRange n).map Fin.castSucc := by
      rw [List.filter_eq_self]
      intro a ha
      obtain ⟨b, _, rfl⟩ := List.mem_map.mp ha
      simp
    rw [hlast, hall, List.append_nil]
  rw [axesFastestFirst, List.finRange_succ_last, List.reverse_append, houter]
  rfl

theorem spatial_pos (p : Pencil N M) : 0 < N :=
  p.decomposition.positive.trans_le p.decomposition.le_spatial

/-- Offset inside one block of local storage of the region's element at payload position
`q`. -/
def regionPosition (p : Pencil N M) (region : Fin N → Range) (q : ℕ) : ℕ :=
  layoutOffset p (toLocal p (regionIndex region q))

/-- Number of elements of a region. -/
def regionSize (region : Fin N → Range) : ℕ := ∏ axis, regionExtent region axis

section Walked

variable {p : Pencil N M} {region : Fin N → Range} {walk : RegionWalk N}

theorem regionIndex_lt (h : ∀ axis, 0 < regionExtent region axis) (q : ℕ) (axis : Fin N) :
    (region axis).start ≤ regionIndex region q axis ∧
      regionIndex region q axis < (region axis).stop := by
  have hlt := MixedRadix.digit_lt (l := axesFastestFirst N) q (fun a _ => h a) axis
    (mem_axesFastestFirst axis)
  have hext : regionExtent region axis = (region axis).stop - (region axis).start := rfl
  unfold regionIndex
  omega

theorem owns_regionIndex (h : InsideBlock p region) (q : ℕ) :
    Owns p.localRanges (regionIndex region q) := by
  intro axis
  have := regionIndex_lt h.extent_pos q axis
  have := h.lower axis
  have := h.upper axis
  rw [Range.contains_iff]
  omega

theorem regionPosition_lt (h : InsideBlock p region) (q : ℕ) :
    regionPosition p region q < p.localLen :=
  layoutOffset_lt (validLocal_toLocal (owns_regionIndex h q))

theorem outerLen_mul_runLen (hw : IsWalk p region walk) :
    walk.outerLen * walk.runLen = regionSize region := by
  have hN := spatial_pos p
  rw [regionSize, ← size_axesFastestFirst, axesFastestFirst_eq hN, MixedRadix.size_cons,
    MixedRadix.size_reverse, hw.outerLen, (hw.run ⟨N - 1, by omega⟩ (by simp; omega)).1,
    Nat.mul_comm]

/-- The `q`-th element the walk visits is the region's element at payload position `q`. -/
theorem walk_position (h : InsideBlock p region) (hw : IsWalk p region walk) (q : ℕ) :
    walk.start + weighted walk.stride (outerAxes N).reverse
        (outerDigits region (q / walk.runLen)) + q % walk.runLen * walk.runStride
      = regionPosition p region q := by
  have hN := spatial_pos p
  let last : Fin N := ⟨N - 1, by omega⟩
  obtain ⟨hrun, hstride⟩ := hw.run last (by simp only [last]; omega)
  have haxes : axesFastestFirst N = last :: (outerAxes N).reverse := axesFastestFirst_eq hN
  have hnot : last ∉ (outerAxes N).reverse :=
    (List.nodup_cons.mp (haxes ▸ nodup_axesFastestFirst)).1
  let digits : Fin N → ℕ :=
    MixedRadix.digit (regionExtent region) (axesFastestFirst N) q
  have hdigits : digits = Function.update
      (MixedRadix.digit (regionExtent region) (outerAxes N).reverse
        (q / regionExtent region last)) last (q % regionExtent region last) := by
    simp only [digits, haxes, MixedRadix.digit]
  have hlocal : toLocal p (regionIndex region q)
      = fun axis => regionLead p region axis + digits axis := by
    funext axis
    have := h.lower axis
    simp only [toLocal, regionIndex, regionLead, digits]
    omega
  have hsum : layoutOffset p digits
      = weighted walk.stride (outerAxes N).reverse (outerDigits region (q / walk.runLen))
        + q % walk.runLen * walk.runStride := by
    rw [hw.stride, ← weighted_reverse, ← axesFastestFirst, haxes, weighted_cons, hdigits,
      Function.update_self, weighted_update_of_notMem _ _ _ hnot, hrun, hstride]
    exact Nat.add_comm _ _
  rw [regionPosition, hlocal, layoutOffset_add, hsum, hw.start]
  omega

theorem runLen_pos (h : InsideBlock p region) (hw : IsWalk p region walk) :
    0 < walk.runLen := by
  have hN := spatial_pos p
  rw [(hw.run ⟨N - 1, by omega⟩ (by simp; omega)).1]
  exact h.extent_pos _

/-- A position inside a run, as a payload position. -/
theorem run_position (h : InsideBlock p region) (hw : IsWalk p region walk) {k t : ℕ}
    (hk : k < walk.outerLen) (ht : t < walk.runLen) :
    ∃ q < regionSize region, q / walk.runLen = k ∧ q % walk.runLen = t := by
  have hrun := runLen_pos h hw
  refine ⟨k * walk.runLen + t, ?_, ?_, ?_⟩
  · rw [← outerLen_mul_runLen hw]
    calc k * walk.runLen + t < k * walk.runLen + walk.runLen := by omega
      _ = (k + 1) * walk.runLen := (Nat.succ_mul k walk.runLen).symm
      _ ≤ walk.outerLen * walk.runLen := Nat.mul_le_mul_right _ hk
  · rw [Nat.add_comm, Nat.add_mul_div_right _ _ hrun, Nat.div_eq_of_lt ht, Nat.zero_add]
  · rw [Nat.add_comm, Nat.add_mul_mod_self_right, Nat.mod_eq_of_lt ht]

theorem regionSize_le (h : InsideBlock p region) : regionSize region ≤ p.localLen := by
  rw [localLen_eq]
  exact Finset.prod_le_prod' fun axis _ => h.extent_le axis

theorem copyRegionToPayload_eq (h : InsideBlock p region) (hw : IsWalk p region walk)
    {block : List α} {start stop : ℕ} {payload : Buf α} (hblock : p.localLen ≤ block.length)
    (hstop : start + regionSize region ≤ stop) (hlen : stop ≤ payload.cells.length) :
    copyRegionToPayload walk block start stop payload
      = Buf.moveAll (fun i => block[i]?) payload ((List.range (regionSize region)).map fun q =>
          (start + q, regionPosition p region q)) := by
  have hsize := outerLen_mul_runLen hw
  have hfit : walk.outerLen * walk.runLen < usizeLimit := by
    have := regionSize_le h
    have := localLen_lt p
    omega
  unfold copyRegionToPayload
  rw [copyRuns_eq (visits_regionRuns h hw) (visits_payloadRuns hfit) rfl ?_ ?_ hlen]
  · change Buf.moveAll _ _ ((List.range (walk.outerLen * walk.runLen)).map _) = _
    rw [hsize]
    congr 1
    apply List.map_congr_left
    intro q _
    simp only [Prod.mk.injEq]
    refine ⟨?_, walk_position h hw q⟩
    simp only [regionRuns, payloadRuns, Nat.mul_one]
    rw [Nat.mul_comm, Nat.div_add_mod]
  · intro k hk t ht
    obtain ⟨q, _, rfl, rfl⟩ := run_position h hw hk ht
    exact (walk_position h hw q).trans_lt ((regionPosition_lt h q).trans_le hblock)
  · intro k hk t ht
    obtain ⟨q, hq, rfl, rfl⟩ := run_position h hw hk ht
    have : q / walk.runLen * walk.runLen + q % walk.runLen = q := by
      rw [Nat.mul_comm]
      exact Nat.div_add_mod q walk.runLen
    simp only [payloadRuns, Nat.mul_one]
    omega

theorem copyRegionFromPayload_eq (h : InsideBlock p region) (hw : IsWalk p region walk)
    {payload : List α} {start stop : ℕ} {storage : Buf α}
    (hpayload : regionSize region ≤ payload.length) (hstop : start + p.localLen ≤ stop)
    (hlen : stop ≤ storage.cells.length) :
    copyRegionFromPayload walk payload start stop storage
      = Buf.moveAll (fun i => payload[i]?) storage ((List.range (regionSize region)).map fun q =>
          (start + regionPosition p region q, q)) := by
  have hsize := outerLen_mul_runLen hw
  have hfit : walk.outerLen * walk.runLen < usizeLimit := by
    have := regionSize_le h
    have := localLen_lt p
    omega
  unfold copyRegionFromPayload
  rw [copyRuns_eq (visits_payloadRuns hfit) (visits_regionRuns h hw) rfl ?_ ?_ hlen]
  · change Buf.moveAll _ _ ((List.range (walk.outerLen * walk.runLen)).map _) = _
    rw [hsize]
    congr 1
    apply List.map_congr_left
    intro q _
    simp only [Prod.mk.injEq, Nat.add_right_inj]
    refine ⟨walk_position h hw q, ?_⟩
    simp only [payloadRuns, Nat.mul_one]
    rw [Nat.mul_comm, Nat.div_add_mod]
  · intro k hk t ht
    obtain ⟨q, hq, rfl, rfl⟩ := run_position h hw hk ht
    have : q / walk.runLen * walk.runLen + q % walk.runLen = q := by
      rw [Nat.mul_comm]
      exact Nat.div_add_mod q walk.runLen
    simp only [payloadRuns, Nat.mul_one]
    omega
  · intro k hk t ht
    obtain ⟨q, _, rfl, rfl⟩ := run_position h hw hk ht
    have := (walk_position h hw q).trans_lt (regionPosition_lt h q)
    simp only [regionRuns]
    omega

end Walked

theorem copyRegionBetween_eq {M' : ℕ} {p : Pencil N M} {p' : Pencil N M'}
    {region region' : Fin N → Range} {walk walk' : RegionWalk N} (h : InsideBlock p region) (hw : IsWalk p region walk)
    (h' : InsideBlock p' region') (hw' : IsWalk p' region' walk')
    (hextent : regionExtent region' = regionExtent region) {block : List α} {start stop : ℕ}
    {storage : Buf α} (hblock : p.localLen ≤ block.length)
    (hstop : start + p'.localLen ≤ stop) (hlen : stop ≤ storage.cells.length) :
    copyRegionBetween walk walk' block start stop storage
      = Buf.moveAll (fun i => block[i]?) storage ((List.range (regionSize region)).map fun q =>
          (start + regionPosition p' region' q, regionPosition p region q)) := by
  have hN := spatial_pos p
  have hrun : walk.runLen = walk'.runLen := by
    rw [(hw.run ⟨N - 1, by omega⟩ (by simp; omega)).1,
      (hw'.run ⟨N - 1, by omega⟩ (by simp; omega)).1, hextent]
  have houter : walk'.outerLen = walk.outerLen := by rw [hw.outerLen, hw'.outerLen, hextent]
  have hdigits : outerDigits region' = outerDigits region := by
    unfold outerDigits
    rw [hextent]
  have hvisits := visits_regionRuns h' hw'
  rw [houter, hdigits] at hvisits
  have hposition : ∀ q, walk'.start + weighted walk'.stride (outerAxes N).reverse
      (outerDigits region (q / walk.runLen)) + q % walk.runLen * walk'.runStride
        = regionPosition p' region' q := by
    intro q
    rw [hrun, ← hdigits]
    exact walk_position h' hw' q
  unfold copyRegionBetween
  rw [copyRuns_eq (visits_regionRuns h hw) hvisits hrun ?_ ?_ hlen]
  · change Buf.moveAll _ _ ((List.range (walk.outerLen * walk.runLen)).map _) = _
    rw [outerLen_mul_runLen hw]
    congr 1
    apply List.map_congr_left
    intro q _
    simp only [Prod.mk.injEq, Nat.add_right_inj]
    exact ⟨hposition q, walk_position h hw q⟩
  · intro k hk t ht
    obtain ⟨q, _, rfl, rfl⟩ := run_position h hw hk ht
    exact (walk_position h hw q).trans_lt ((regionPosition_lt h q).trans_le hblock)
  · intro k hk t ht
    obtain ⟨q, _, rfl, rfl⟩ := run_position h hw hk ht
    have := (hposition q).trans_lt (regionPosition_lt h' q)
    simp only [regionRuns] at this ⊢
    omega

end PencilRs.Analysis
