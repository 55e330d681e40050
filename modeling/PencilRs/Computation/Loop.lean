import Mathlib.Tactic
import PencilRs.Computation.Literals

/-!
# Loops that cannot fail

A bounded loop is a monadic fold over `List.range n` or over a list.  When every step
from a state satisfying the loop invariant returns normally into the invariant at the
next index, the whole loop returns normally.  The rules are stated for any lawful monad,
so they serve panics (`Option`) and errors (`Except`) alike.
-/

set_option autoImplicit false

namespace PencilRs.Computation

variable {m : Type → Type} [Monad m] [LawfulMonad m] {σ α : Type}

/-- A counting loop whose steps preserve `I` returns, with `I` at the bound. -/
theorem foldlM_range_inv (f : σ → ℕ → m σ) (I : ℕ → σ → Prop) (n : ℕ) (s : σ)
    (h0 : I 0 s)
    (step : ∀ k < n, ∀ s, I k s → ∃ s', f s k = pure s' ∧ I (k + 1) s') :
    ∃ s', (List.range n).foldlM f s = pure s' ∧ I n s' := by
  induction n with
  | zero => exact ⟨s, by simp, h0⟩
  | succ n ih =>
    obtain ⟨s₁, hrun, hI⟩ := ih fun k hk => step k (by omega)
    obtain ⟨s₂, hlast, hI'⟩ := step n (by omega) s₁ hI
    refine ⟨s₂, ?_, hI'⟩
    rw [List.range_succ, List.foldlM_append, hrun, pure_bind]
    simp [hlast]

/-- A loop over a list whose steps preserve `I` returns; the invariant sees the elements
already visited. -/
theorem foldlM_list_inv (f : σ → α → m σ) (I : List α → σ → Prop) (l : List α) (s : σ)
    (h0 : I [] s)
    (step : ∀ p a, p ++ [a] <+: l → ∀ s, I p s → ∃ s', f s a = pure s' ∧ I (p ++ [a]) s') :
    ∃ s', l.foldlM f s = pure s' ∧ I l s' := by
  induction l using List.reverseRecOn with
  | nil => exact ⟨s, by simp, h0⟩
  | append_singleton l a ih =>
    obtain ⟨s₁, hrun, hI⟩ := ih fun p b hp => step p b (hp.trans (List.prefix_append l [a]))
    obtain ⟨s₂, hlast, hI'⟩ := step l a (List.prefix_refl _) s₁ hI
    refine ⟨s₂, ?_, hI'⟩
    rw [List.foldlM_append, hrun, pure_bind]
    simp [hlast]

/-- A loop that checks every element before using it returns when all pass. -/
theorem foldlM_guarded {σ ι : Type} (cond : ι → Bool) (f : σ → ι → σ) (l : List ι) (s : σ) :
    l.foldlM (fun s x => if cond x then some (f s x) else none) s
      = if l.all cond then some (l.foldl f s) else none := by
  induction l generalizing s with
  | nil => rfl
  | cons x l ih =>
    rw [List.foldlM_cons, List.all_cons, List.foldl_cons]
    cases hx : cond x with
    | true => simpa [hx] using ih (f s x)
    | false => simp

/-! ## Filling a table -/

section Table

variable {ι κ β : Type} [DecidableEq κ]

/-- A loop that assigns one table entry per element leaves the other entries alone. -/
theorem foldl_update_of_notMem (key : ι → κ) (val : ι → β) (l : List ι) (table : κ → β)
    {k : κ} (h : ∀ x ∈ l, key x ≠ k) :
    l.foldl (fun t x => Function.update t (key x) (val x)) table k = table k := by
  induction l generalizing table with
  | nil => rfl
  | cons x l ih =>
    rw [List.foldl_cons, ih _ fun y hy => h y (by simp [hy])]
    exact Function.update_of_ne (Ne.symm (h x (by simp))) _ _

/-- With different keys for different elements, the entry assigned for an element visited
is still there at the end. -/
theorem foldl_update_of_mem {key : ι → κ} (hinj : Function.Injective key) (val : ι → β)
    (l : List ι) (table : κ → β) {x : ι} (hx : x ∈ l) :
    l.foldl (fun t x => Function.update t (key x) (val x)) table (key x) = val x := by
  induction l generalizing table with
  | nil => simp at hx
  | cons y l ih =>
    rw [List.foldl_cons]
    by_cases hmem : x ∈ l
    · exact ih _ hmem
    · have hxy : x = y := by
        cases List.mem_cons.mp hx with
        | inl h => exact h
        | inr h => exact absurd h hmem
      subst hxy
      rw [foldl_update_of_notMem key val l]
      · exact Function.update_self _ _ _
      · intro z hz hkey
        exact hmem (hinj hkey ▸ hz)

/-- A loop that may refuse an entry returns the table with every entry, if it returns. -/
theorem foldlM_fill_eq_ok {ε : Type} {val : κ → Except ε β} {l : List κ} (hn : l.Nodup)
    {table table' : κ → β} :
    l.foldlM (fun t k => (val k).map (Function.update t k)) table = .ok table' ↔
      (∀ k ∈ l, val k = .ok (table' k)) ∧ ∀ k ∉ l, table' k = table k := by
  induction l generalizing table with
  | nil =>
    refine ⟨fun h => ⟨nofun, fun k _ => ?_⟩, fun h => congrArg Except.ok (funext fun k => ?_)⟩
    · rw [Except.ok.inj h]
    · exact (h.2 k List.not_mem_nil).symm
  | cons a l ih =>
    obtain ⟨ha, hn⟩ := List.nodup_cons.mp hn
    rw [List.foldlM_cons]
    cases hval : val a with
    | error e =>
      refine ⟨fun h => by simp [Except.map, bind, Except.bind] at h, fun h => ?_⟩
      have := h.1 a List.mem_cons_self
      rw [hval] at this
      contradiction
    | ok x =>
      refine (ih hn).trans ⟨fun ⟨hin, hout⟩ => ⟨fun k hk => ?_, fun k hk => ?_⟩,
        fun ⟨hin, hout⟩ => ⟨fun k hk => hin k (List.mem_cons_of_mem _ hk), fun k hk => ?_⟩⟩
      · cases List.mem_cons.mp hk with
        | inl heq => rw [heq, hval, hout a ha, Function.update_self]
        | inr hmem => exact hin k hmem
      · rw [List.mem_cons, not_or] at hk
        rw [hout k hk.2, Function.update_of_ne hk.1]
      · by_cases heq : k = a
        · have := hin a List.mem_cons_self
          rw [hval] at this
          rw [heq, Function.update_self, Except.ok.inj this]
        · rw [Function.update_of_ne heq]
          exact hout k (by simp [heq, hk])

end Table

/-- A table of `n` entries of which the first `k` are filled in. -/
def filled {β : Type} (n k : ℕ) (d : β) (val : ℕ → β) : List β :=
  (List.range k).map val ++ List.replicate (n - k) d

theorem filled_zero {β : Type} (n : ℕ) (d : β) (val : ℕ → β) :
    filled n 0 d val = List.replicate n d := by
  simp [filled]

theorem filled_all {β : Type} (n : ℕ) (d : β) (val : ℕ → β) :
    filled n n d val = (List.range n).map val := by
  simp [filled]

theorem filled_set {β : Type} {n k : ℕ} (d : β) (val : ℕ → β) (hk : k < n) :
    (filled n k d val).set k (val k) = filled n (k + 1) d val := by
  unfold filled
  have hrep : List.replicate (n - k) d = d :: List.replicate (n - (k + 1)) d := by
    rw [← List.replicate_succ]
    congr 1
    omega
  rw [hrep, List.set_append_right _ _ (by simp), List.range_succ, List.map_append]
  simp

/-! ## Nested loops -/

/-- Two nested counting loops visit the pairs in the order of one counting loop. -/
theorem flatMap_range_map {β : Type} (a b : ℕ) (f : ℕ → ℕ → β) :
    ((List.range a).flatMap fun k => (List.range b).map fun t => f k t)
      = (List.range (a * b)).map fun q => f (q / b) (q % b) := by
  rcases Nat.eq_zero_or_pos b with rfl | hb
  · simp
  induction a with
  | zero => simp
  | succ a ih =>
    rw [List.range_succ, List.flatMap_append, ih, Nat.succ_mul, List.range_add,
      List.map_append, List.map_map]
    congr 1
    simp only [List.flatMap_cons, List.flatMap_nil, List.append_nil]
    apply List.map_congr_left
    intro t ht
    have hlt : t < b := List.mem_range.mp ht
    have hdiv : (a * b + t) / b = a := by
      rw [Nat.add_comm, Nat.add_mul_div_right _ _ hb, Nat.div_eq_of_lt hlt, Nat.zero_add]
    have hmod : (a * b + t) % b = t := by
      rw [Nat.add_comm, Nat.add_mul_mod_self_right, Nat.mod_eq_of_lt hlt]
    simp [hdiv, hmod]

/-- Two nested loops that push one value a round list the values in the order of one loop. -/
theorem foldlM_push_nested {γ : Type} (a b : ℕ) (element : ℕ → ℕ → Option γ)
    (round : List γ → ℕ → Option (List γ))
    (h : ∀ n < a, ∀ visited, round visited n = (List.range b).foldlM (fun visited k =>
      (element n k).map fun v => visited ++ [v]) visited)
    (hsome : ∀ n < a, ∀ k < b, (element n k).isSome) :
    ∃ visited, (List.range a).foldlM round [] = some visited ∧
      visited.map some = (List.range (a * b)).map fun q => element (q / b) (q % b) := by
  have hinner : ∀ n < a, ∀ visited : List γ, ∃ visited',
      round visited n = some visited' ∧ visited'.map some
        = visited.map some ++ (List.range b).map fun k => element n k := by
    intro n hn visited
    rw [h n hn]
    apply foldlM_range_inv (fun visited k => (element n k).map fun v => visited ++ [v])
      (fun k visited' => visited'.map some
        = visited.map some ++ (List.range k).map fun k => element n k) b visited (by simp)
    intro k hk visited' hvisited'
    obtain ⟨v, hv⟩ := Option.isSome_iff_exists.mp (hsome n hn k hk)
    refine ⟨visited' ++ [v], by rw [hv]; rfl, ?_⟩
    rw [List.map_append, hvisited', List.range_succ, List.map_append, ← List.append_assoc]
    simp [hv]
  have houter : ∃ visited, (List.range a).foldlM round [] = some visited ∧ visited.map some
      = (List.range a).flatMap fun n => (List.range b).map fun k => element n k := by
    apply foldlM_range_inv round (fun n visited => visited.map some
      = (List.range n).flatMap fun n => (List.range b).map fun k => element n k) a [] (by simp)
    intro n hn visited hvisited
    obtain ⟨visited', hrun, hvisited'⟩ := hinner n hn visited
    refine ⟨visited', hrun, ?_⟩
    rw [hvisited', hvisited, List.range_succ, List.flatMap_append]
    simp
  obtain ⟨visited, hrun, hvisited⟩ := houter
  exact ⟨visited, hrun, hvisited.trans (flatMap_range_map a b element)⟩

/-- Two loops run as one. -/
theorem foldlM_both {τ : Type} {f : σ → α → Option σ} {g : τ → α → Option τ} {l : List α}
    {a a' : σ} {b b' : τ} (hf : l.foldlM f a = some a') (hg : l.foldlM g b = some b') :
    l.foldlM (fun (state : σ × τ) x => do
      let a ← f state.1 x
      let b ← g state.2 x
      return (a, b)) (a, b) = some (a', b') := by
  induction l generalizing a b with
  | nil =>
    cases hf
    cases hg
    rfl
  | cons x l ih =>
    rw [List.foldlM_cons] at hf hg ⊢
    obtain ⟨a₁, ha, hf⟩ := Option.bind_eq_some_iff.mp hf
    obtain ⟨b₁, hb, hg⟩ := Option.bind_eq_some_iff.mp hg
    rw [ha, hb]
    exact ih hf hg

/-- A loop over a list whose steps all return collects their values. -/
theorem mapM_eq_pure {β : Type} {f : α → m β} {g : α → β} {l : List α}
    (h : ∀ x ∈ l, f x = pure (g x)) : l.mapM f = pure (l.map g) := by
  induction l with
  | nil => rfl
  | cons x l ih =>
    rw [List.mapM_cons, h x (by simp), ih fun y hy => h y (by simp [hy]), pure_bind, pure_bind]
    rfl

theorem mapM_eq_some {β : Type} {f : α → Option β} {g : α → β} {l : List α}
    (h : ∀ x ∈ l, f x = some (g x)) : l.mapM f = some (l.map g) :=
  mapM_eq_pure h

/-- A loop that reads a list element by element. -/
theorem mapM_range_eq_some {β : Type} {f : ℕ → Option β} {l : List β}
    (h : ∀ k < l.length, f k = l[k]?) : (List.range l.length).mapM f = some l := by
  induction l using List.reverseRecOn with
  | nil => rfl
  | append_singleton l x ih =>
    have hrest : ∀ k < l.length, f k = l[k]? := by
      intro k hk
      rw [h k (by rw [List.length_append]; omega), List.getElem?_append_left hk]
    have hlast : f l.length = some x := by
      rw [h l.length (by simp), List.getElem?_append_right le_rfl]
      simp
    rw [List.length_append, List.length_singleton, List.range_succ, List.mapM_append, ih hrest,
      List.mapM_cons, hlast]
    rfl

theorem map_zipIdx_fst {β : Type} (f : α → β) (l : List α) (k : ℕ) :
    ((l.zipIdx k).map fun entry => f entry.1) = l.map f := by
  show (l.zipIdx k).map (f ∘ Prod.fst) = _
  rw [← List.map_map, List.zipIdx_map_fst]

theorem mapM_congr {β : Type} {f g : α → m β} {l : List α} (h : ∀ x ∈ l, f x = g x) :
    l.mapM f = l.mapM g := by
  induction l with
  | nil => rfl
  | cons x l ih =>
    rw [List.mapM_cons, List.mapM_cons, h x (by simp), ih fun y hy => h y (by simp [hy])]

theorem mapM_isSome {β : Type} {f : α → Option β} {l : List α} (h : ∀ x ∈ l, (f x).isSome) :
    (l.mapM f).isSome := by
  induction l with
  | nil => rfl
  | cons x l ih =>
    obtain ⟨y, hy⟩ := Option.isSome_iff_exists.mp (h x (by simp))
    obtain ⟨ys, hys⟩ := Option.isSome_iff_exists.mp (ih fun z hz => h z (by simp [hz]))
    rw [List.mapM_cons, hy, hys]
    rfl

/-- A loop that succeeds everywhere collects what belongs to the elements. -/
theorem mapM_forall₂ {ε β : Type} {f : α → Except ε β} {R : α → β → Prop} {l : List α}
    (h : ∀ x ∈ l, ∃ y, f x = .ok y ∧ R x y) : ∃ ys, l.mapM f = .ok ys ∧ List.Forall₂ R l ys := by
  induction l with
  | nil => exact ⟨[], rfl, .nil⟩
  | cons x l ih =>
    obtain ⟨y, hy, hxy⟩ := h x List.mem_cons_self
    obtain ⟨ys, hys, hl⟩ := ih fun z hz => h z (List.mem_cons_of_mem _ hz)
    refine ⟨y :: ys, ?_, .cons hxy hl⟩
    rw [List.mapM_cons, hy]
    show (l.mapM f >>= _) = _
    rw [hys]
    rfl

/-- A loop of checks that hold. -/
theorem forM_eq_ok {ε : Type} {check : α → Except ε Unit} {l : List α}
    (h : ∀ x ∈ l, check x = .ok ()) : l.forM check = .ok () := by
  induction l with
  | nil => rfl
  | cons x l ih =>
    rw [List.forM_eq_forM, List.forM_cons, h x List.mem_cons_self]
    exact ih fun y hy => h y (List.mem_cons_of_mem _ hy)

/-- What a loop over a list returned, it collected from its steps. -/
theorem mapM_ok {ε β : Type} {f : α → Except ε β} {g : α → β} {l : List α} {r : List β}
    (h : ∀ x ∈ l, ∀ y, f x = .ok y → y = g x) (hok : l.mapM f = .ok r) : r = l.map g := by
  induction l generalizing r with
  | nil =>
    cases hok
    rfl
  | cons x l ih =>
    rw [List.mapM_cons] at hok
    cases hx : f x with
    | error e =>
      rw [hx] at hok
      contradiction
    | ok y =>
      rw [hx] at hok
      cases hl : l.mapM f with
      | error e =>
        rw [hl] at hok
        contradiction
      | ok ys =>
        rw [hl] at hok
        cases hok
        rw [List.map_cons, h x (by simp) y hx, ih (fun z hz => h z (by simp [hz])) hl]

/-- What a loop that returns has kept; the invariant sees how many elements are done. -/
theorem foldlM_ok_inv {ε : Type} {f : σ → α → Except ε σ} {I : ℕ → σ → Prop} {l : List α}
    {s r : σ} (h0 : I 0 s)
    (step : ∀ k a, l[k]? = some a → ∀ s s', I k s → f s a = .ok s' → I (k + 1) s')
    (h : l.foldlM f s = .ok r) : I l.length r := by
  induction l generalizing s I with
  | nil =>
    obtain rfl := Except.ok.inj h
    exact h0
  | cons a l ih =>
    rw [List.foldlM_cons] at h
    cases hfirst : f s a with
    | error e =>
      rw [hfirst] at h
      contradiction
    | ok s' =>
      rw [hfirst] at h
      exact ih (I := fun k => I (k + 1)) (step 0 a rfl s s' h0 hfirst)
        (fun k b hb => step (k + 1) b hb) h

/-- A loop of checks passes when every check does. -/
theorem foldlM_check_eq_ok {ε : Type} {check : α → Except ε Unit} {l : List α} :
    l.foldlM (fun _ a => check a) () = .ok () ↔ ∀ a ∈ l, check a = .ok () := by
  induction l with
  | nil => exact ⟨fun _ => nofun, fun _ => rfl⟩
  | cons a l ih =>
    rw [List.foldlM_cons, List.forall_mem_cons, ← ih]
    cases check a with
    | error e => exact ⟨fun h => by simp [bind, Except.bind] at h, fun h => by simp at h⟩
    | ok u => exact ⟨fun h => ⟨rfl, h⟩, fun h => h.2⟩

/-- A loop fails only with the errors of its steps. -/
theorem foldlM_ne_error {ε : Type} {f : σ → α → Except ε σ} {l : List α} {e : ε}
    (h : ∀ a ∈ l, ∀ s, f s a ≠ .error e) (s : σ) : l.foldlM f s ≠ .error e := by
  induction l generalizing s with
  | nil => exact nofun
  | cons a l ih =>
    rw [List.foldlM_cons]
    cases hfirst : f s a with
    | error e' =>
      intro heq
      apply h a (List.mem_cons_self ..) s
      rw [hfirst]
      exact heq
    | ok s' => exact ih (fun b hb => h b (List.mem_cons_of_mem _ hb)) s'

end PencilRs.Computation
