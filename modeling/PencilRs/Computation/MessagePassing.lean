import Mathlib.Logic.Relation
import PencilRs.Computation.Buffer

/-!
# Point-to-point messages

Every rank posts its sends and its receives at some time; a message in flight is delivered
to a matching receive at some later time.  Nothing else orders posts and deliveries.  Where
sends and receives pair up, no run gets stuck, all runs have the same number of steps, and
at the end every slot holds the message sent to it.
-/

set_option autoImplicit false

namespace PencilRs.Computation

structure Message (ι α : Type) where
  source : ι
  target : ι
  payload : List α

/-- A receive into `count` cells from `start` on of the target's buffer. -/
structure Receive (ι : Type) where
  source : ι
  target : ι
  start : ℕ
  count : ℕ

/-- What each rank posts. -/
structure Posts (ι α : Type) where
  sends : ι → List (Message ι α)
  receives : ι → List (Receive ι)

/-- The network: ranks that have not posted yet, messages and receives that wait for each
other, the receive buffers, and the pairs delivered so far. -/
structure Network (ι α : Type) where
  idle : List ι
  inFlight : List (Message ι α)
  pending : List (Receive ι)
  buffers : ι → Buf α
  delivered : List (Message ι α × Receive ι)

variable {ι α : Type}

/-- The ranks a message goes between. -/
def Message.route (m : Message ι α) : ι × ι := (m.source, m.target)

def Receive.route (r : Receive ι) : ι × ι := (r.source, r.target)

/-- A message can be delivered to the receives of its target for its source. -/
def Matches (m : Message ι α) (r : Receive ι) : Prop := m.route = r.route

/-- Every receive has exactly one message, of the length it expects. -/
def Posts.MatchedOnce [DecidableEq ι] (posts : Posts ι α) (ranks : List ι) : Prop :=
  ∀ r ∈ ranks.flatMap posts.receives, ∃ m,
    (ranks.flatMap posts.sends).filter (fun m => m.route = r.route) = [m] ∧
      m.payload.length = r.count

namespace Network

variable [DecidableEq ι] (posts : Posts ι α)

/-- Nothing is posted. -/
def start (ranks : List ι) (buffers : ι → List α) : Network ι α where
  idle := ranks
  inFlight := []
  pending := []
  buffers := fun i => Buf.fresh (buffers i)
  delivered := []

/-- A rank posts, or a message is delivered. -/
inductive Step : Network ι α → Network ι α → Prop where
  | post {s : Network ι α} {i : ι} {idle : List ι} (h : s.idle.Perm (i :: idle)) :
      Step s { s with
        idle := idle
        inFlight := s.inFlight ++ posts.sends i
        pending := s.pending ++ posts.receives i }
  | deliver {s : Network ι α} {m : Message ι α} {r : Receive ι} {inFlight : List (Message ι α)}
      {pending : List (Receive ι)} {buffer : Buf α} (hm : s.inFlight.Perm (m :: inFlight))
      (hr : s.pending.Perm (r :: pending)) (hmatch : Matches m r)
      (hstore : (s.buffers r.target).copyFromSlice r.start (r.start + r.count) 0 m.payload
        = some buffer) :
      Step s { s with
        inFlight := inFlight
        pending := pending
        buffers := Function.update s.buffers r.target buffer
        delivered := (m, r) :: s.delivered }

abbrev Reaches : Network ι α → Network ι α → Prop := Relation.ReflTransGen (Step posts)

/-- Every rank has posted and nothing waits. -/
structure Quiet (s : Network ι α) : Prop where
  idle : s.idle = []
  inFlight : s.inFlight = []
  pending : s.pending = []

end Network

/-- Sends and receives pair up: between two ranks there is at most one of each, both have
one length, and the slots of a rank lie apart in its buffer. -/
structure Paired (posts : Posts ι α) (ranks : List ι) (buffers : ι → List α) : Prop where
  sends_unique : ((ranks.flatMap posts.sends).map Message.route).Nodup
  receives_unique : ((ranks.flatMap posts.receives).map Receive.route).Nodup
  send : ∀ r ∈ ranks.flatMap posts.receives, ∃ m ∈ ranks.flatMap posts.sends,
    Matches m r ∧ m.payload.length = r.count
  receive : ∀ m ∈ ranks.flatMap posts.sends, ∃ r ∈ ranks.flatMap posts.receives, Matches m r
  fits : ∀ r ∈ ranks.flatMap posts.receives, r.start + r.count ≤ (buffers r.target).length
  apart : ∀ r ∈ ranks.flatMap posts.receives, ∀ r' ∈ ranks.flatMap posts.receives,
    r.target = r'.target → r.source ≠ r'.source →
      r.start + r.count ≤ r'.start ∨ r'.start + r'.count ≤ r.start

/-- The message for a receive is the one that matches it. -/
theorem Paired.length_eq {posts : Posts ι α} {ranks : List ι} {buffers : ι → List α}
    (hpaired : Paired posts ranks buffers) {m : Message ι α}
    {r : Receive ι} (hm : m ∈ ranks.flatMap posts.sends) (hr : r ∈ ranks.flatMap posts.receives)
    (hmatch : Matches m r) : m.payload.length = r.count := by
  obtain ⟨m', hm', hmatch', hlen⟩ := hpaired.send r hr
  have heq : m = m' := List.inj_on_of_nodup_map hpaired.sends_unique hm hm'
    (hmatch.trans hmatch'.symm)
  rw [heq, hlen]

theorem Paired.matchedOnce [DecidableEq ι] {posts : Posts ι α} {ranks : List ι}
    {buffers : ι → List α} (hpaired : Paired posts ranks buffers) : posts.MatchedOnce ranks := by
  intro r hr
  obtain ⟨m, hm, hmatch, hlen⟩ := hpaired.send r hr
  refine ⟨m, ?_, hlen⟩
  have hnodup : (ranks.flatMap posts.sends).Nodup := List.Nodup.of_map _ hpaired.sends_unique
  have honly : ∀ m' ∈ ranks.flatMap posts.sends, (m'.route = r.route ↔ m' = m) := by
    intro m' hm'
    constructor
    · intro hroute
      exact List.inj_on_of_nodup_map hpaired.sends_unique hm' hm (hroute.trans hmatch.symm)
    · rintro rfl
      exact hmatch
  classical
  rw [List.filter_congr fun m' hm' => decide_eq_decide.mpr (honly m' hm'), List.filter_eq,
    List.count_eq_one_of_mem hnodup hm]
  rfl

namespace Network

variable {posts : Posts ι α} {ranks : List ι} {buffers : ι → List α}

/-- Messages not delivered yet, posted or not. -/
def undelivered (posts : Posts ι α) (s : Network ι α) : List (Message ι α) :=
  s.inFlight ++ s.idle.flatMap posts.sends

/-- Receives not completed yet, posted or not. -/
def incomplete (posts : Posts ι α) (s : Network ι α) : List (Receive ι) :=
  s.pending ++ s.idle.flatMap posts.receives

/-- What every run keeps. -/
structure Invariant (posts : Posts ι α) (ranks : List ι) (buffers : ι → List α)
    (s : Network ι α) : Prop where
  sends : (s.delivered.map Prod.fst ++ s.undelivered posts).Perm (ranks.flatMap posts.sends)
  receives : (s.delivered.map Prod.snd ++ s.incomplete posts).Perm (ranks.flatMap posts.receives)
  matched : ∀ d ∈ s.delivered, Matches d.1 d.2 ∧ d.1.payload.length = d.2.count
  length : ∀ i, (s.buffers i).cells.length = (buffers i).length
  cells : ∀ d ∈ s.delivered, ∀ t < d.2.count,
    (s.buffers d.2.target).cells[d.2.start + t]? = d.1.payload[t]?

theorem invariant_start : Invariant posts ranks buffers (start ranks buffers) where
  sends := by simp [undelivered, start]
  receives := by simp [incomplete, start]
  matched := by simp [start]
  length := fun _ => rfl
  cells := by simp [start]

theorem Invariant.mem_sends {s : Network ι α} (h : Invariant posts ranks buffers s)
    {m : Message ι α} (hm : m ∈ s.undelivered posts) : m ∈ ranks.flatMap posts.sends :=
  h.sends.subset (List.mem_append_right _ hm)

theorem Invariant.mem_receives {s : Network ι α} (h : Invariant posts ranks buffers s)
    {r : Receive ι} (hr : r ∈ s.incomplete posts) : r ∈ ranks.flatMap posts.receives :=
  h.receives.subset (List.mem_append_right _ hr)

/-- A receive that is still open is not the one of a delivered pair. -/
theorem Invariant.route_ne {s : Network ι α} (hpaired : Paired posts ranks buffers)
    (h : Invariant posts ranks buffers s) {d : Message ι α × Receive ι} (hd : d ∈ s.delivered)
    {r : Receive ι} (hr : r ∈ s.incomplete posts) : d.2.route ≠ r.route := by
  have hnodup : ((s.delivered.map Prod.snd ++ s.incomplete posts).map Receive.route).Nodup :=
    (h.receives.map Receive.route).nodup_iff.mpr hpaired.receives_unique
  rw [List.map_append] at hnodup
  exact fun heq => (List.disjoint_of_nodup_append hnodup)
    (List.mem_map_of_mem (List.mem_map_of_mem hd)) (heq ▸ List.mem_map_of_mem hr)

/-- Posting moves what a rank posts from unposted to posted. -/
theorem Invariant.post {s : Network ι α} (h : Invariant posts ranks buffers s) {i : ι}
    {idle : List ι} (hidle : s.idle.Perm (i :: idle)) :
    Invariant posts ranks buffers { s with
      idle := idle
      inFlight := s.inFlight ++ posts.sends i
      pending := s.pending ++ posts.receives i } := by
  refine { h with sends := ?_, receives := ?_ }
  · refine List.Perm.trans ?_ h.sends
    apply List.Perm.append_left
    simp only [undelivered, List.append_assoc]
    apply List.Perm.append_left
    exact (hidle.flatMap_right posts.sends).symm
  · refine List.Perm.trans ?_ h.receives
    apply List.Perm.append_left
    simp only [incomplete, List.append_assoc]
    apply List.Perm.append_left
    exact (hidle.flatMap_right posts.receives).symm

/-- **When everything is delivered** each receive has been paired with its message, and its
slot holds it. -/
theorem Invariant.quiet {s : Network ι α} (hpaired : Paired posts ranks buffers)
    (h : Invariant posts ranks buffers s) (hquiet : s.Quiet) :
    (s.delivered.map Prod.fst).Perm (ranks.flatMap posts.sends) ∧
      (s.delivered.map Prod.snd).Perm (ranks.flatMap posts.receives) ∧
      ∀ r ∈ ranks.flatMap posts.receives, ∀ m ∈ ranks.flatMap posts.sends, Matches m r →
        ∀ t < r.count, (s.buffers r.target).cells[r.start + t]? = m.payload[t]? := by
  have hsends := h.sends
  have hreceives := h.receives
  simp only [undelivered, incomplete, hquiet.idle, hquiet.inFlight, hquiet.pending,
    List.flatMap_nil, List.append_nil] at hsends hreceives
  refine ⟨hsends, hreceives, ?_⟩
  intro r hr m hm hmatch t ht
  obtain ⟨d, hd, rfl⟩ := List.mem_map.mp (hreceives.mem_iff.mpr hr)
  have hd_send := hsends.subset (List.mem_map_of_mem hd)
  have heq : m = d.1 := List.inj_on_of_nodup_map hpaired.sends_unique hm hd_send
    (hmatch.trans (h.matched d hd).1.symm)
  rw [heq]
  exact h.cells d hd t ht

variable [DecidableEq ι]

/-- A delivery fills the slot and leaves the filled slots alone. -/
theorem Invariant.deliver {s : Network ι α} (hpaired : Paired posts ranks buffers)
    (h : Invariant posts ranks buffers s) {m : Message ι α} {r : Receive ι}
    {inFlight : List (Message ι α)} {pending : List (Receive ι)} {buffer : Buf α}
    (hm : s.inFlight.Perm (m :: inFlight)) (hr : s.pending.Perm (r :: pending))
    (hmatch : Matches m r)
    (hstore : (s.buffers r.target).copyFromSlice r.start (r.start + r.count) 0 m.payload
      = some buffer) :
    Invariant posts ranks buffers { s with
      inFlight := inFlight
      pending := pending
      buffers := Function.update s.buffers r.target buffer
      delivered := (m, r) :: s.delivered } := by
  have hm_mem : m ∈ s.undelivered posts :=
    List.mem_append_left _ (hm.mem_iff.mpr List.mem_cons_self)
  have hr_mem : r ∈ s.incomplete posts :=
    List.mem_append_left _ (hr.mem_iff.mpr List.mem_cons_self)
  have hr_all := h.mem_receives hr_mem
  have hlen := hpaired.length_eq (h.mem_sends hm_mem) hr_all hmatch
  have hfit : r.start + m.payload.length ≤ (s.buffers r.target).cells.length := by
    rw [h.length, hlen]
    exact hpaired.fits r hr_all
  rw [← hlen] at hstore
  obtain ⟨hlength, hnew, hold⟩ := Buf.cells_copyFromSlice hfit hstore
  constructor
  case sends =>
    refine List.Perm.trans ?_ h.sends
    simp only [List.map_cons, undelivered]
    rw [List.cons_append, ← List.append_assoc, ← List.append_assoc]
    refine List.Perm.trans ?_ ((hm.symm.append_left _).append_right _)
    rw [← List.cons_append]
    exact List.Perm.append_right _ List.perm_middle.symm
  case receives =>
    refine List.Perm.trans ?_ h.receives
    simp only [List.map_cons, incomplete]
    rw [List.cons_append, ← List.append_assoc, ← List.append_assoc]
    refine List.Perm.trans ?_ ((hr.symm.append_left _).append_right _)
    rw [← List.cons_append]
    exact List.Perm.append_right _ List.perm_middle.symm
  case matched =>
    intro d hd
    cases List.mem_cons.mp hd with
    | inl heq => exact heq ▸ ⟨hmatch, hlen⟩
    | inr hmem => exact h.matched d hmem
  case length =>
    intro i
    change (Function.update s.buffers r.target buffer i).cells.length = _
    by_cases hi : i = r.target
    · subst hi
      rw [Function.update_self, hlength, h.length]
    · rw [Function.update_of_ne hi, h.length]
  case cells =>
    intro d hd t ht
    change (Function.update s.buffers r.target buffer d.2.target).cells[d.2.start + t]? = _
    cases List.mem_cons.mp hd with
    | inl heq =>
      subst heq
      simp only at ht ⊢
      rw [Function.update_self]
      exact hnew t (by omega)
    | inr hmem =>
      by_cases htarget : d.2.target = r.target
      · have hd_all : d.2 ∈ ranks.flatMap posts.receives :=
          h.receives.subset (List.mem_append_left _ (List.mem_map_of_mem hmem))
        have hsource : d.2.source ≠ r.source := by
          intro heq
          exact h.route_ne hpaired hmem hr_mem (Prod.ext heq htarget)
        have hapart := hpaired.apart d.2 hd_all r hr_all htarget hsource
        rw [htarget, Function.update_self, hold _ (by omega), ← htarget]
        exact h.cells d hmem t ht
      · rw [Function.update_of_ne htarget]
        exact h.cells d hmem t ht

theorem Invariant.step {s s' : Network ι α} (hpaired : Paired posts ranks buffers)
    (h : Invariant posts ranks buffers s) (hstep : Step posts s s') :
    Invariant posts ranks buffers s' := by
  cases hstep with
  | post hidle => exact h.post hidle
  | deliver hm hr hmatch hstore => exact h.deliver hpaired hm hr hmatch hstore

theorem Invariant.reaches {s s' : Network ι α} (hpaired : Paired posts ranks buffers)
    (h : Invariant posts ranks buffers s) (hreach : Reaches posts s s') :
    Invariant posts ranks buffers s' := by
  induction hreach with
  | refl => exact h
  | tail _ hstep ih => exact ih.step hpaired hstep

/-- **No run gets stuck** before everything is delivered. -/
theorem Invariant.live {s : Network ι α} (hpaired : Paired posts ranks buffers)
    (h : Invariant posts ranks buffers s) : s.Quiet ∨ ∃ s', Step posts s s' := by
  cases hidle : s.idle with
  | cons i idle => exact Or.inr ⟨_, .post (by rw [hidle])⟩
  | nil =>
    have hincomplete : s.incomplete posts = s.pending := by simp [incomplete, hidle]
    have hundelivered : s.undelivered posts = s.inFlight := by simp [undelivered, hidle]
    have hsends := h.sends
    have hreceives := h.receives
    rw [hundelivered] at hsends
    rw [hincomplete] at hreceives
    cases hpending : s.pending with
    | cons r pending =>
      right
      have hr_mem : r ∈ s.incomplete posts := by
        rw [hincomplete, hpending]
        exact List.mem_cons_self
      have hr_all := h.mem_receives hr_mem
      obtain ⟨m, hm_all, hmatch, hlen⟩ := hpaired.send r hr_all
      have hm_mem : m ∈ s.inFlight := by
        cases List.mem_append.mp (hsends.mem_iff.mpr hm_all) with
        | inr hin => exact hin
        | inl hdone =>
          obtain ⟨d, hd, rfl⟩ := List.mem_map.mp hdone
          exact absurd ((h.matched d hd).1.symm.trans hmatch) (h.route_ne hpaired hd hr_mem)
      obtain ⟨front, back, hsplit⟩ := List.append_of_mem hm_mem
      have hfit : r.start + m.payload.length ≤ (s.buffers r.target).cells.length := by
        rw [h.length, hlen]
        exact hpaired.fits r hr_all
      obtain ⟨buffer, hbuffer⟩ : ∃ buffer, (s.buffers r.target).copyFromSlice r.start
          (r.start + m.payload.length) 0 m.payload = some buffer := by
        rw [Buf.copyFromSlice_eq (by omega) hfit]
        apply Buf.moveAll_isSome
        intro x hx
        obtain ⟨t, ht, rfl⟩ := List.mem_map.mp hx
        rw [List.getElem?_eq_getElem (List.mem_range.mp ht)]
        rfl
      rw [hlen] at hbuffer
      have hinFlight : s.inFlight.Perm (m :: (front ++ back)) := by
        rw [hsplit]
        exact List.perm_middle
      have hopen : s.pending.Perm (r :: pending) := by rw [hpending]
      exact ⟨_, .deliver hinFlight hopen hmatch hbuffer⟩
    | nil =>
      left
      refine ⟨hidle, ?_, hpending⟩
      rw [List.eq_nil_iff_forall_not_mem]
      intro m hm
      obtain ⟨r, hr, hmatch⟩ := hpaired.receive m (hsends.subset (List.mem_append_right _ hm))
      rw [hpending, List.append_nil] at hreceives
      obtain ⟨d, hd, rfl⟩ := List.mem_map.mp (hreceives.mem_iff.mpr hr)
      have hnodup : ((s.delivered.map Prod.fst ++ s.inFlight).map Message.route).Nodup :=
        (hsends.map Message.route).nodup_iff.mpr hpaired.sends_unique
      rw [List.map_append] at hnodup
      have hroute : d.1.route = m.route := (h.matched d hd).1.trans hmatch.symm
      exact List.disjoint_of_nodup_append hnodup
        (List.mem_map_of_mem (List.mem_map_of_mem hd)) (hroute ▸ List.mem_map_of_mem hm)

/-- Steps still to come. -/
def remaining (posts : Posts ι α) (s : Network ι α) : ℕ :=
  s.idle.length + (s.incomplete posts).length

theorem remaining_step {s s' : Network ι α} (h : Step posts s s') :
    s'.remaining posts + 1 = s.remaining posts := by
  cases h with
  | post hidle =>
    have hlen := hidle.length_eq
    have hreceives := (hidle.flatMap_right posts.receives).length_eq
    simp only [remaining, incomplete, List.length_append, List.flatMap_cons,
      List.length_cons] at hlen hreceives ⊢
    omega
  | deliver hm hr hmatch hstore =>
    have hlen := hr.length_eq
    simp only [remaining, incomplete, List.length_append, List.length_cons] at hlen ⊢
    omega

/-- Every network that keeps the invariant can run until everything is delivered. -/
theorem Invariant.exists_quiet {s : Network ι α} (hpaired : Paired posts ranks buffers)
    (h : Invariant posts ranks buffers s) : ∃ s', Reaches posts s s' ∧ s'.Quiet := by
  generalize hn : s.remaining posts = n
  induction n using Nat.strong_induction_on generalizing s with
  | _ n ih =>
    cases h.live hpaired with
    | inl hquiet => exact ⟨s, .refl, hquiet⟩
    | inr hlive =>
      obtain ⟨s', hstep⟩ := hlive
      have hless := remaining_step hstep
      obtain ⟨final, hreach, hquiet⟩ := ih _ (by omega) (h.step hpaired hstep) rfl
      exact ⟨final, .head hstep hreach, hquiet⟩

end Network

end PencilRs.Computation
