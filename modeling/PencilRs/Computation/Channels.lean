import Mathlib.Logic.Function.Basic
import Mathlib.Logic.Relation
import Mathlib.Tactic
import PencilRs.Computation.Literals

/-!
# Blocking messages

Every rank sends and receives in the order of its program.  A send may be buffered, and then
its rank goes on; it need not be, and then it waits for its receive.  Messages between two
ranks do not overtake each other: a receive takes the oldest one with its tag.

The main result is about funnels, where all messages go to one rank: where that rank takes
from each other rank what this one sends, in that order, nothing stalls and every run ends
with the same messages received, buffered or not.
-/

set_option autoImplicit false

namespace PencilRs.Computation

inductive ChannelAction (ι α : Type) where
  | send (target : ι) (tag : ℕ) (payload : List α)
  | receive (source : ι) (tag : ℕ) (capacity : ℕ)

/-- What each rank still does, the buffered messages from each rank to each other one, oldest
first, and what each rank has received. -/
structure Channels (ι α : Type) where
  todo : ι → List (ChannelAction ι α)
  inFlight : ι → ι → List (ℕ × List α)
  received : ι → List (List α)

namespace Channels

variable {ι α : Type} [DecidableEq ι]

def start (todo : ι → List (ChannelAction ι α)) : Channels ι α where
  todo := todo
  inFlight := fun _ _ => []
  received := fun _ => []

/-- A message is received, from the buffer or from the hands of its sender. -/
inductive Transfer : Channels ι α → Channels ι α → Prop where
  | handOver {s : Channels ι α} {i j : ι} {tag capacity : ℕ} {payload : List α}
      {rest rest' : List (ChannelAction ι α)} (hne : i ≠ j)
      (hi : s.todo i = .send j tag payload :: rest)
      (hj : s.todo j = .receive i tag capacity :: rest')
      (hfirst : ∀ m ∈ s.inFlight i j, m.1 ≠ tag) (hfits : payload.length ≤ capacity) :
      Transfer s { s with
        todo := Function.update (Function.update s.todo i rest) j rest'
        received := Function.update s.received j (s.received j ++ [payload]) }
  | take {s : Channels ι α} {i j : ι} {tag capacity : ℕ} {payload : List α}
      {before after : List (ℕ × List α)} {rest : List (ChannelAction ι α)}
      (hj : s.todo j = .receive i tag capacity :: rest)
      (hflight : s.inFlight i j = before ++ (tag, payload) :: after)
      (hfirst : ∀ m ∈ before, m.1 ≠ tag) (hfits : payload.length ≤ capacity) :
      Transfer s { s with
        todo := Function.update s.todo j rest
        inFlight := Function.update s.inFlight i
          (Function.update (s.inFlight i) j (before ++ after))
        received := Function.update s.received j (s.received j ++ [payload]) }

inductive Step : Channels ι α → Channels ι α → Prop where
  | buffer {s : Channels ι α} {i j : ι} {tag : ℕ} {payload : List α}
      {rest : List (ChannelAction ι α)} (hi : s.todo i = .send j tag payload :: rest) :
      Step s { s with
        todo := Function.update s.todo i rest
        inFlight := Function.update s.inFlight i
          (Function.update (s.inFlight i) j (s.inFlight i j ++ [(tag, payload)])) }
  | transfer {s s' : Channels ι α} (h : Transfer s s') : Step s s'

abbrev Reaches : Channels ι α → Channels ι α → Prop := Relation.ReflTransGen Step

/-- Every rank is through and nothing waits to be received. -/
structure Done (s : Channels ι α) : Prop where
  todo : ∀ i, s.todo i = []
  inFlight : ∀ i j, s.inFlight i j = []

/-- Even where no further send is buffered, every run goes on to its end. -/
def NeverStalls (todo : ι → List (ChannelAction ι α)) : Prop :=
  ∀ s, Reaches (start todo) s → Done s ∨ ∃ s', Transfer s s'

/-! ## Funnels -/

/-- An order: the source, the tag and the capacity of a receive. -/
abbrev Order (ι : Type) : Type := ι × ℕ × ℕ

/-- Taking `orders` one after another from what waits at each source leaves nothing and yields
`payloads`. -/
inductive Collects : List (Order ι) → (ι → List (ℕ × List α)) → List (List α) → Prop where
  | done {waiting : ι → List (ℕ × List α)} (h : ∀ i, waiting i = []) : Collects [] waiting []
  | next {source : ι} {tag capacity : ℕ} {orders : List (Order ι)}
      {waiting : ι → List (ℕ × List α)} {payload : List α} {rest : List (ℕ × List α)}
      {payloads : List (List α)} (h : waiting source = (tag, payload) :: rest)
      (hfits : payload.length ≤ capacity)
      (hrest : Collects orders (Function.update waiting source rest) payloads) :
      Collects ((source, tag, capacity) :: orders) waiting (payload :: payloads)

/-- The sends of a rank that only sends to `root`. -/
def sends (root : ι) (mail : List (ℕ × List α)) : List (ChannelAction ι α) :=
  mail.map fun (tag, payload) => .send root tag payload

/-- The receives of a rank that only receives. -/
def receives (orders : List (Order ι)) : List (ChannelAction ι α) :=
  orders.map fun (source, tag, capacity) => .receive source tag capacity

/-- A funnel on its way: what is still to be sent, taken and received. -/
structure Funnel (root : ι) (expected : List (List α)) (s : Channels ι α)
    (orders : List (Order ι)) (mail : ι → List (ℕ × List α)) (payloads : List (List α)) :
    Prop where
  senders : ∀ i, i ≠ root → s.todo i = sends root (mail i)
  sink : s.todo root = receives orders
  noMail : mail root = []
  flights : ∀ i j, j ≠ root → s.inFlight i j = []
  sources : s.inFlight root root = []
  collects : Collects orders (fun i => s.inFlight i root ++ mail i) payloads
  received : s.received root ++ payloads = expected

section Steps

variable {root : ι} {expected : List (List α)} {s s' : Channels ι α} {orders : List (Order ι)}
  {mail : ι → List (ℕ × List α)} {payloads : List (List α)}

theorem Collects.congr {waiting waiting' : ι → List (ℕ × List α)} {orders : List (Order ι)}
    {payloads : List (List α)} (h : Collects orders waiting payloads)
    (heq : ∀ i, waiting i = waiting' i) : Collects orders waiting' payloads := by
  obtain rfl : waiting = waiting' := funext heq
  exact h

/-- One message of one tag is taken from each of several different sources. -/
theorem Collects.of_nodup {sources : List ι} (hnodup : sources.Nodup) (tag : ℕ)
    {capacity : ι → ℕ} {payload : ι → List α} {waiting : ι → List (ℕ × List α)}
    (hwaiting : ∀ i ∈ sources, waiting i = [(tag, payload i)])
    (hfits : ∀ i ∈ sources, (payload i).length ≤ capacity i)
    (hothers : ∀ i, i ∉ sources → waiting i = []) :
    Collects (sources.map fun i => (i, tag, capacity i)) waiting (sources.map payload) := by
  induction sources generalizing waiting with
  | nil => exact .done fun i => hothers i List.not_mem_nil
  | cons i sources ih =>
    obtain ⟨hnotMem, hnodup⟩ := List.nodup_cons.mp hnodup
    refine .next (hwaiting i List.mem_cons_self) (hfits i List.mem_cons_self) ?_
    refine ih hnodup ?_ (fun j hj => hfits j (List.mem_cons_of_mem _ hj)) ?_
    · intro j hj
      rw [Function.update_of_ne (ne_of_mem_of_not_mem hj hnotMem)]
      exact hwaiting j (List.mem_cons_of_mem _ hj)
    · intro j hj
      by_cases hji : j = i
      · rw [hji, Function.update_self]
      · rw [Function.update_of_ne hji]
        exact hothers j fun hmem => (List.mem_cons.mp hmem).elim hji hj

omit [DecidableEq ι] in
theorem sends_eq_cons {j : ι} {tag : ℕ} {payload : List α}
    {mail : List (ℕ × List α)} {rest : List (ChannelAction ι α)}
    (h : sends root mail = .send j tag payload :: rest) :
    ∃ mail', mail = (tag, payload) :: mail' ∧ j = root ∧ rest = sends root mail' := by
  cases mail with
  | nil => contradiction
  | cons m mail' =>
    unfold sends at h
    rw [List.map_cons, List.cons.injEq] at h
    obtain ⟨hhead, htail⟩ := h
    cases hhead
    exact ⟨mail', rfl, rfl, htail.symm⟩

omit [DecidableEq ι] in
theorem receives_eq_cons {i : ι} {tag capacity : ℕ} {orders : List (Order ι)}
    {rest : List (ChannelAction ι α)} (h : receives orders = .receive i tag capacity :: rest) :
    ∃ orders', orders = (i, tag, capacity) :: orders' ∧ rest = receives orders' := by
  cases orders with
  | nil => contradiction
  | cons o orders' =>
    unfold receives at h
    rw [List.map_cons, List.cons.injEq] at h
    obtain ⟨hhead, htail⟩ := h
    cases hhead
    exact ⟨orders', rfl, htail.symm⟩

/-- The next order takes the oldest message of its source. -/
theorem Funnel.next {source : ι} {tag capacity : ℕ}
    (h : Funnel root expected s ((source, tag, capacity) :: orders) mail payloads) :
    ∃ payload rest payloads', s.inFlight source root ++ mail source = (tag, payload) :: rest ∧
      payload.length ≤ capacity ∧ payloads = payload :: payloads' ∧
      Collects orders (Function.update (fun i => s.inFlight i root ++ mail i) source rest)
        payloads' := by
  cases h.collects with
  | next hwaiting hfits hrest => exact ⟨_, _, _, hwaiting, hfits, rfl, hrest⟩

/-- A buffered message still waits at its source. -/
theorem Funnel.buffer {i j : ι} {tag : ℕ} {payload : List α}
    {rest : List (ChannelAction ι α)} (h : Funnel root expected s orders mail payloads)
    (hi : s.todo i = .send j tag payload :: rest) :
    ∃ mail', Funnel root expected { s with
        todo := Function.update s.todo i rest
        inFlight := Function.update s.inFlight i
          (Function.update (s.inFlight i) j (s.inFlight i j ++ [(tag, payload)])) }
      orders mail' payloads := by
  have hne : i ≠ root := by
    rintro rfl
    rw [h.sink] at hi
    cases orders <;> simp [receives] at hi
  rw [h.senders i hne] at hi
  obtain ⟨mail', hmail, rfl, rfl⟩ := sends_eq_cons hi
  refine ⟨Function.update mail i mail', ?_, ?_, ?_, ?_, ?_, ?_, h.received⟩
  · intro k hk
    by_cases hki : k = i
    · subst hki
      simp
    · simp [hki, h.senders k hk]
  · simp [Function.update_of_ne hne.symm, h.sink]
  · rw [Function.update_of_ne hne.symm, h.noMail]
  · intro k l hl
    by_cases hki : k = i
    · subst hki
      simp [hl, h.flights k l hl]
    · simp [hki, h.flights k l hl]
  · simp [Function.update_of_ne hne.symm, h.sources]
  · refine h.collects.congr fun k => ?_
    by_cases hki : k = i
    · subst hki
      simp [hmail]
    · simp [hki]

/-- A received message is the one that was to be collected next. -/
theorem Funnel.transfer (h : Funnel root expected s orders mail payloads) (ht : Transfer s s') :
    ∃ orders' mail' payloads', Funnel root expected s' orders' mail' payloads' := by
  cases ht with
  | @handOver i j tag capacity payload rest rest' hne hi hj hfirst hfits =>
    have hroot : j = root := by
      by_contra hjr
      rw [h.senders j hjr] at hj
      cases hm : mail j <;> simp [sends, hm] at hj
    subst hroot
    rw [h.senders i hne] at hi
    obtain ⟨mail', hmail, _, rfl⟩ := sends_eq_cons hi
    rw [h.sink] at hj
    obtain ⟨orders', rfl, rfl⟩ := receives_eq_cons hj
    obtain ⟨payload', waiting', payloads', hwaiting, _, rfl, hrest⟩ := h.next
    have hflight : s.inFlight i j = [] := by
      cases hf : s.inFlight i j with
      | nil => rfl
      | cons m flight =>
        rw [hf, List.cons_append, List.cons.injEq] at hwaiting
        exact absurd (by rw [hwaiting.1]) (hfirst m (by rw [hf]; exact List.mem_cons_self))
    rw [hflight, hmail, List.nil_append, List.cons.injEq, Prod.mk.injEq] at hwaiting
    obtain ⟨⟨_, rfl⟩, rfl⟩ := hwaiting
    refine ⟨orders', Function.update mail i mail', payloads', ?_, ?_, ?_, h.flights, h.sources,
      hrest.congr fun k => ?_, ?_⟩
    · intro k hk
      by_cases hki : k = i
      · subst hki
        simp [hk]
      · simp [hk, hki, h.senders k hk]
    · simp
    · rw [Function.update_of_ne hne.symm, h.noMail]
    · by_cases hki : k = i
      · subst hki
        simp [hflight]
      · simp [hki]
    · simp [← h.received]
  | @take i j tag capacity payload before after rest hj hflight hfirst hfits =>
    have hroot : j = root := by
      by_contra hjr
      rw [h.flights i j hjr] at hflight
      simp at hflight
    subst hroot
    rw [h.sink] at hj
    obtain ⟨orders', rfl, rfl⟩ := receives_eq_cons hj
    have hne : i ≠ j := by
      rintro rfl
      rw [h.sources] at hflight
      simp at hflight
    obtain ⟨payload', waiting', payloads', hwaiting, _, rfl, hrest⟩ := h.next
    have hbefore : before = [] := by
      cases before with
      | nil => rfl
      | cons m before =>
        rw [hflight, List.cons_append, List.cons_append, List.cons.injEq] at hwaiting
        exact absurd (by rw [hwaiting.1]) (hfirst m List.mem_cons_self)
    subst hbefore
    rw [hflight, List.nil_append, List.cons_append, List.cons.injEq, Prod.mk.injEq] at hwaiting
    obtain ⟨⟨_, rfl⟩, rfl⟩ := hwaiting
    refine ⟨orders', mail, payloads', ?_, ?_, h.noMail, ?_, ?_, hrest.congr fun k => ?_, ?_⟩
    · intro k hk
      simp [hk, h.senders k hk]
    · simp
    · intro k l hl
      by_cases hki : k = i
      · subst hki
        simp [hl, h.flights k l hl]
      · simp [hki, h.flights k l hl]
    · simp [Function.update_of_ne hne.symm, h.sources]
    · by_cases hki : k = i
      · subst hki
        simp
      · simp [hki]
    · simp [← h.received]

theorem Funnel.step (h : Funnel root expected s orders mail payloads) (hs : Step s s') :
    ∃ orders' mail' payloads', Funnel root expected s' orders' mail' payloads' := by
  cases hs with
  | buffer hi =>
    obtain ⟨mail', hfunnel⟩ := h.buffer hi
    exact ⟨orders, mail', payloads, hfunnel⟩
  | transfer ht => exact h.transfer ht

theorem Funnel.reaches (h : Funnel root expected s orders mail payloads) (hs : Reaches s s') :
    ∃ orders' mail' payloads', Funnel root expected s' orders' mail' payloads' := by
  induction hs with
  | refl => exact ⟨orders, mail, payloads, h⟩
  | tail _ hstep ih =>
    obtain ⟨orders', mail', payloads', h'⟩ := ih
    exact h'.step hstep

/-- A funnel without orders is through. -/
theorem Funnel.done (h : Funnel root expected s [] mail payloads) :
    Done s ∧ s.received root = expected := by
  have hempty : ∀ i, s.inFlight i root = [] ∧ mail i = [] := by
    intro i
    cases h.collects with
    | done hwaiting => exact List.append_eq_nil_iff.mp (hwaiting i)
  have hpayloads : payloads = [] := by
    cases h.collects with
    | done hwaiting => rfl
  refine ⟨⟨fun i => ?_, fun i j => ?_⟩, ?_⟩
  · by_cases hi : i = root
    · rw [hi, h.sink]
      rfl
    · rw [h.senders i hi, (hempty i).2]
      rfl
  · by_cases hj : j = root
    · rw [hj, (hempty i).1]
    · exact h.flights i j hj
  · rw [← h.received, hpayloads, List.append_nil]

/-- The next order can be served: from the buffer, or else by the sender itself. -/
theorem Funnel.serve {o : Order ι} (h : Funnel root expected s (o :: orders) mail payloads) :
    ∃ s' mail' payloads', Transfer s s' ∧ Funnel root expected s' orders mail' payloads' := by
  obtain ⟨source, tag, capacity⟩ := o
  obtain ⟨payload, waiting', payloads', hwaiting, hfits, rfl, hrest⟩ := h.next
  have hroot : s.todo root = .receive source tag capacity :: receives orders := h.sink
  have hne : source ≠ root := by
    rintro rfl
    rw [h.sources, h.noMail] at hwaiting
    contradiction
  have hserved : ∀ {s'}, Transfer s s' → s'.todo root = receives orders →
      ∃ s' mail' payloads', Transfer s s' ∧ Funnel root expected s' orders mail' payloads' := by
    intro s' ht htodo
    obtain ⟨orders', mail', payloads'', h'⟩ := h.transfer ht
    have hinj : ∀ l l' : List (Order ι), receives (α := α) l = receives l' → l = l' := by
      intro l l' heq
      refine List.map_injective_iff.mpr ?_ heq
      rintro ⟨_, _, _⟩ ⟨_, _, _⟩ heq
      cases heq
      rfl
    obtain rfl : orders' = orders := hinj _ _ (h'.sink.symm.trans htodo)
    exact ⟨s', mail', payloads'', ht, h'⟩
  cases hflight : s.inFlight source root with
  | nil =>
    rw [hflight, List.nil_append] at hwaiting
    have hsource : s.todo source = .send root tag payload :: sends root waiting' := by
      rw [h.senders source hne, hwaiting]
      rfl
    exact hserved (.handOver hne hsource hroot (by simp [hflight]) hfits) (by simp)
  | cons m flight =>
    rw [hflight, List.cons_append, List.cons.injEq] at hwaiting
    obtain ⟨rfl, _⟩ := hwaiting
    have hflight : s.inFlight source root = [] ++ (tag, payload) :: flight := hflight
    exact hserved (.take hroot hflight (by simp) hfits) (by simp)

theorem Funnel.exists_done (h : Funnel root expected s orders mail payloads) :
    ∃ final, Reaches s final ∧ Done final ∧ final.received root = expected := by
  induction orders generalizing s mail payloads with
  | nil => exact ⟨s, .refl, h.done⟩
  | cons o orders ih =>
    obtain ⟨s', mail', payloads', ht, h'⟩ := h.serve
    obtain ⟨final, hreaches, hdone⟩ := ih h'
    exact ⟨final, .head (.transfer ht) hreaches, hdone⟩

end Steps

/-- **A funnel** never stalls, comes to an end, and every run that has come to an end has
received the same messages. -/
theorem funnel {root : ι} {orders : List (Order ι)} {mail : ι → List (ℕ × List α)}
    {payloads : List (List α)} {todo : ι → List (ChannelAction ι α)}
    (hsenders : ∀ i, i ≠ root → todo i = sends root (mail i))
    (hroot : todo root = receives orders) (hnone : mail root = [])
    (hcollects : Collects orders mail payloads) :
    NeverStalls todo ∧ (∃ final, Reaches (start todo) final ∧ Done final) ∧
      ∀ final, Reaches (start todo) final → Done final → final.received root = payloads := by
  have hstart : Funnel root payloads (start todo) orders mail payloads :=
    ⟨hsenders, hroot, hnone, fun _ _ _ => rfl, rfl, hcollects.congr fun _ => rfl, rfl⟩
  refine ⟨?_, ?_, ?_⟩
  · intro s hs
    obtain ⟨orders', mail', payloads', h⟩ := hstart.reaches hs
    cases orders' with
    | nil => exact Or.inl h.done.1
    | cons o orders' =>
      obtain ⟨s', _, _, ht, _⟩ := h.serve
      exact Or.inr ⟨s', ht⟩
  · obtain ⟨final, hreaches, hdone, _⟩ := hstart.exists_done
    exact ⟨final, hreaches, hdone⟩
  · intro final hreaches hdone
    obtain ⟨orders', mail', payloads', h⟩ := hstart.reaches hreaches
    have hnil : orders' = [] := by
      have := h.sink.symm.trans (hdone.todo root)
      exact List.map_eq_nil_iff.mp this
    subst hnil
    exact h.done.2

end Channels

end PencilRs.Computation
