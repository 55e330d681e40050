import Mathlib.Tactic
import PencilRs.Computation.Literals

/-!
# Machine integers

`usize` is 64 bits wide and MPI's `Count` is a C `int`.  Both are natural numbers here;
the operations below say where a value leaves its type.  `checkedAdd`, `checkedMul` and
`checkedSub` are `usize::checked_*`; the plain operators `+`, `*`, `-` of the source are
modelled by the same functions, so a result `none` is an arithmetic panic.
-/

set_option autoImplicit false

namespace PencilRs.Model

/-- One more than `usize::MAX`. -/
def usizeLimit : ℕ := 2 ^ 64

/-- One more than `u128::MAX`. -/
def u128Limit : ℕ := 2 ^ 128

/-- `mpi::Count::MAX`, which is also `c_int::MAX`. -/
def countMax : ℕ := 2 ^ 31 - 1

def checkedAdd (a b : ℕ) : Option ℕ := if a + b < usizeLimit then some (a + b) else none

def checkedMul (a b : ℕ) : Option ℕ := if a * b < usizeLimit then some (a * b) else none

def checkedSub (a b : ℕ) : Option ℕ := if b ≤ a then some (a - b) else none

/-- `/`, which panics on zero. -/
def checkedDiv (a b : ℕ) : Option ℕ := if b = 0 then none else some (a / b)

/-- `%`, which panics on zero. -/
def checkedRem (a b : ℕ) : Option ℕ := if b = 0 then none else some (a % b)

/-- `Count::try_from` on a `usize`. -/
def countTryFrom (n : ℕ) : Option ℕ := if n ≤ countMax then some n else none

@[simp] theorem checkedAdd_eq_some {a b r : ℕ} :
    checkedAdd a b = some r ↔ a + b < usizeLimit ∧ a + b = r := by
  unfold checkedAdd
  split <;> simp_all

@[simp] theorem checkedMul_eq_some {a b r : ℕ} :
    checkedMul a b = some r ↔ a * b < usizeLimit ∧ a * b = r := by
  unfold checkedMul
  split <;> simp_all

@[simp] theorem checkedSub_eq_some {a b r : ℕ} :
    checkedSub a b = some r ↔ b ≤ a ∧ a - b = r := by
  unfold checkedSub
  split <;> simp_all

@[simp] theorem countTryFrom_eq_some {n r : ℕ} :
    countTryFrom n = some r ↔ n ≤ countMax ∧ n = r := by
  unfold countTryFrom
  split <;> simp_all

@[simp] theorem checkedAdd_eq_none {a b : ℕ} :
    checkedAdd a b = none ↔ usizeLimit ≤ a + b := by
  simp [checkedAdd]

@[simp] theorem checkedMul_eq_none {a b : ℕ} :
    checkedMul a b = none ↔ usizeLimit ≤ a * b := by
  simp [checkedMul]

@[simp] theorem countTryFrom_eq_none {n : ℕ} : countTryFrom n = none ↔ countMax < n := by
  simp [countTryFrom]

/-- Why a rank stops early. -/
inductive Stop (ε : Type) where
  | error (e : ε)
  | panic
deriving Repr, DecidableEq

/-- Turn an absent value into an error, as `Option::ok_or`. -/
def okOr {ε α : Type} (o : Option α) (e : ε) : Except ε α :=
  match o with
  | some a => .ok a
  | none => .error e

@[simp] theorem okOr_some {ε α : Type} (a : α) (e : ε) : okOr (some a) e = .ok a := rfl

@[simp] theorem okOr_none {ε α : Type} (e : ε) : okOr (none : Option α) e = .error e := rfl

@[simp] theorem okOr_eq_ok {ε α : Type} {o : Option α} {e : ε} {a : α} :
    okOr o e = .ok a ↔ o = some a := by
  cases o <;> simp [okOr]

/-- `if !cond { return Err(e) }` -/
def ensure {ε : Type} (cond : Bool) (e : ε) : Except ε Unit := if cond then .ok () else .error e

@[simp] theorem ensure_true {ε : Type} (e : ε) : ensure true e = .ok () := rfl

@[simp] theorem ensure_false {ε : Type} (e : ε) : ensure false e = .error e := rfl

@[simp] theorem ensure_eq_ok {ε : Type} {cond : Bool} {e : ε} {u : Unit} :
    ensure cond e = .ok u ↔ cond = true := by
  cases cond <;> simp

/-- A computation that returns passed each of its steps. -/
theorem bind_eq_ok {ε α β : Type} {x : Except ε α} {f : α → Except ε β} {b : β} :
    (x >>= f) = .ok b ↔ ∃ a, x = .ok a ∧ f a = .ok b := by
  cases x <;> simp [bind, Except.bind]

/-- A computation that fails failed at its first step or later. -/
theorem bind_eq_error {ε α β : Type} {x : Except ε α} {f : α → Except ε β} {e : ε} :
    (x >>= f) = .error e ↔ x = .error e ∨ ∃ a, x = .ok a ∧ f a = .error e := by
  cases x <;> simp [bind, Except.bind]

@[simp] theorem mapError_eq_ok {ε ε' ρ : Type} {r : Except ε ρ} {f : ε → ε'} {x : ρ} :
    r.mapError f = .ok x ↔ r = .ok x := by
  cases r <;> simp [Except.mapError]

@[simp] theorem okOr_eq_error {ε α : Type} {o : Option α} {e e' : ε} :
    okOr o e = .error e' ↔ o = none ∧ e = e' := by
  cases o <;> simp [okOr]

end PencilRs.Model
