import Mathlib.Data.List.Nodup
import Mathlib.Data.List.Perm.Basic
import PencilRs.Computation.Literals

/-!
# Labelled graphs as forests

A vertex has labelled edges, no two with the same label, so a route from a start is known by its
labels.  The preorder of a start lists the routes up to some length, each before those that go on
from it.  It lists them all as soon as none is as long as that, and a graph is a tree where the
preorder names no vertex twice.
-/

set_option autoImplicit false

namespace PencilRs.Computation

variable {V L : Type} {edges : V → List (L × V)} {start u v w : V} {labels front back : List L}

/-- The labels lead from one vertex to the other. -/
inductive Route (edges : V → List (L × V)) : V → List L → V → Prop
  | nil (v : V) : Route edges v [] v
  | cons {u w v : V} {label : L} {labels : List L} (edge : (label, w) ∈ edges u)
      (route : Route edges w labels v) : Route edges u (label :: labels) v

/-- The routes of one edge up to `depth`, and after each of them those that go on from it. -/
def preorder (edges : V → List (L × V)) : ℕ → List L → V → List (List L × V)
  | 0, _, _ => []
  | depth + 1, front, u => (edges u).flatMap fun edge =>
      (front ++ [edge.1], edge.2) :: preorder edges depth (front ++ [edge.1]) edge.2

/-- What the preorder lists for one edge. -/
def branch (edges : V → List (L × V)) (depth : ℕ) (front : List L) (edge : L × V) :
    List (List L × V) :=
  (front ++ [edge.1], edge.2) :: preorder edges depth (front ++ [edge.1]) edge.2

theorem preorder_succ (depth : ℕ) :
    preorder edges (depth + 1) front u = (edges u).flatMap (branch edges depth front) := rfl

namespace Route

/-- A route has a vertex after any number of steps. -/
theorem take (h : Route edges u labels v) (k : ℕ) : ∃ w, Route edges u (labels.take k) w := by
  induction h generalizing k with
  | nil u => exact ⟨u, by rw [List.take_nil]; exact .nil u⟩
  | @cons u _ _ _ _ edge _ ih =>
    cases k with
    | zero => exact ⟨u, .nil u⟩
    | succ k =>
      obtain ⟨w, hw⟩ := ih k
      exact ⟨w, .cons edge hw⟩

end Route

/-! ## What the preorder lists -/

theorem mem_preorder {depth : ℕ} : (labels, v) ∈ preorder edges depth front u ↔
    ∃ rest, labels = front ++ rest ∧ rest ≠ [] ∧ rest.length ≤ depth ∧ Route edges u rest v := by
  induction depth generalizing front u with
  | zero =>
    constructor
    · intro h
      exact absurd h List.not_mem_nil
    · rintro ⟨rest, _, hne, hlen, _⟩
      exact absurd (List.length_eq_zero_iff.mp (Nat.le_zero.mp hlen)) hne
  | succ depth ih =>
    simp only [preorder, List.mem_flatMap, List.mem_cons, ih]
    constructor
    · rintro ⟨⟨label, w⟩, hedge, heq | ⟨rest, rfl, _, hlen, hroute⟩⟩
      · obtain ⟨rfl, rfl⟩ := Prod.mk.inj heq
        exact ⟨[label], rfl, List.cons_ne_nil _ _, Nat.succ_le_succ (Nat.zero_le _),
          .cons hedge (.nil _)⟩
      · refine ⟨label :: rest, List.append_assoc _ _ _, List.cons_ne_nil _ _, ?_,
          .cons hedge hroute⟩
        rw [List.length_cons]
        omega
    · rintro ⟨rest, rfl, hne, hlen, hroute⟩
      cases hroute with
      | nil => contradiction
      | @cons _ w _ label rest edge route =>
        refine ⟨(label, w), edge, ?_⟩
        by_cases hnil : rest = []
        · subst hnil
          cases route
          exact .inl rfl
        · refine .inr ⟨rest, by rw [List.append_assoc]; rfl, hnil, ?_, route⟩
          rw [List.length_cons] at hlen
          omega

/-- The routes are listed once each. -/
theorem nodup_preorder (hlabels : ∀ v, ((edges v).map Prod.fst).Nodup) (depth : ℕ)
    (front : List L) (u : V) : ((preorder edges depth front u).map Prod.fst).Nodup := by
  induction depth generalizing front u with
  | zero => exact List.nodup_nil
  | succ depth ih =>
    rw [preorder_succ, List.map_flatMap, List.nodup_flatMap]
    constructor
    · rintro ⟨label, w⟩ _
      rw [branch, List.map_cons, List.nodup_cons]
      refine ⟨fun hmem => ?_, ih _ _⟩
      obtain ⟨⟨labels, v⟩, hlisted, heq⟩ := List.mem_map.mp hmem
      obtain ⟨rest, rfl, hne, _⟩ := mem_preorder.mp hlisted
      exact hne (List.append_right_eq_self.mp heq)
    · have hpairs := List.pairwise_map.mp (hlabels u)
      refine hpairs.imp fun {edge edge'} hne labels hmem hmem' => hne ?_
      have hhead : ∀ edge : L × V, labels ∈ (branch edges depth front edge).map Prod.fst →
          ∃ rest, labels = front ++ edge.1 :: rest := by
        rintro ⟨label, w⟩ hmem
        obtain ⟨⟨listed, v⟩, hlisted, rfl⟩ := List.mem_map.mp hmem
        obtain heq | hlisted := List.mem_cons.mp hlisted
        · exact ⟨[], congrArg Prod.fst heq⟩
        · obtain ⟨rest, rfl, _⟩ := mem_preorder.mp hlisted
          exact ⟨rest, List.append_assoc _ _ _⟩
      obtain ⟨rest, rfl⟩ := hhead edge hmem
      obtain ⟨rest', heq⟩ := hhead edge' hmem'
      exact (List.cons.inj (List.append_cancel_left heq)).1

/-! ## Trees -/

/-- Every vertex that is reached is reached by one route. -/
def IsTree (edges : V → List (L × V)) (root : V) : Prop :=
  ∀ v p q, Route edges root p v → Route edges root q v → p = q

/-- The routes from the root and the vertices they lead to. -/
def members (edges : V → List (L × V)) (depth : ℕ) (root : V) : List (List L × V) :=
  ([], root) :: preorder edges depth [] root

theorem mem_members_iff {depth : ℕ} : (labels, v) ∈ members edges depth start ↔
    labels.length ≤ depth ∧ Route edges start labels v := by
  rw [members, List.mem_cons, mem_preorder]
  constructor
  · rintro (heq | ⟨rest, rfl, _, hlen, hroute⟩)
    · obtain ⟨rfl, rfl⟩ := Prod.mk.inj heq
      exact ⟨Nat.zero_le _, .nil _⟩
    · exact ⟨hlen, hroute⟩
  · rintro ⟨hlen, hroute⟩
    by_cases hnil : labels = []
    · subst hnil
      cases hroute
      exact .inl rfl
    · exact .inr ⟨labels, rfl, hnil, hlen, hroute⟩

theorem nodup_members (hlabels : ∀ v, ((edges v).map Prod.fst).Nodup) (depth : ℕ) (root : V) :
    ((members edges depth root).map Prod.fst).Nodup := by
  rw [members, List.map_cons, List.nodup_cons]
  refine ⟨fun hmem => ?_, nodup_preorder hlabels depth [] root⟩
  obtain ⟨⟨labels, v⟩, hlisted, heq⟩ := List.mem_map.mp hmem
  obtain ⟨rest, rfl, hne, _⟩ := mem_preorder.mp hlisted
  exact hne heq

/-- No route is longer than `depth` if none in the preorder of the next depth is. -/
theorem route_le_of_members {depth : ℕ}
    (h : ∀ entry ∈ members edges (depth + 1) start, entry.1.length ≤ depth)
    (hroute : Route edges start labels v) : labels.length ≤ depth := by
  by_contra hlong
  obtain ⟨w, hw⟩ := hroute.take (depth + 1)
  have hlen : (labels.take (depth + 1)).length = depth + 1 := by
    rw [List.length_take]
    omega
  have hshort : (labels.take (depth + 1)).length ≤ depth :=
    h (labels.take (depth + 1), w) (mem_members_iff.mpr ⟨Nat.le_of_eq hlen, hw⟩)
  omega

/-- **Trees.**  Where no route is longer than `depth`, the graph is a tree if and only if its
members up to there are distinct. -/
theorem nodup_members_iff (hlabels : ∀ v, ((edges v).map Prod.fst).Nodup) {depth : ℕ} {root : V}
    (hdepth : ∀ labels v, Route edges root labels v → labels.length ≤ depth) :
    ((members edges depth root).map Prod.snd).Nodup ↔ IsTree edges root := by
  have hnodup := nodup_members hlabels depth root
  rw [List.nodup_map_iff_inj_on hnodup.of_map]
  constructor
  · intro hinj v p q hp hq
    have heq := hinj (p, v) (mem_members_iff.mpr ⟨hdepth p v hp, hp⟩) (q, v)
      (mem_members_iff.mpr ⟨hdepth q v hq, hq⟩) rfl
    exact (Prod.mk.inj heq).1
  · rintro htree ⟨p, v⟩ hp ⟨q, _⟩ hq rfl
    rw [htree v p q (mem_members_iff.mp hp).2 (mem_members_iff.mp hq).2]

end PencilRs.Computation
