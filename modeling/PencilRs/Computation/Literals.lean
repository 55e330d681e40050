import Mathlib.Data.Nat.Cast.Defs

/-!
# The literals of small finite types

A numeral of `Fin 1`, of `Fin 2` or of a number type from `2` on rests on a fact about
its size.  Each such fact has one name here, so that every definition that writes the
numeral carries the same one.
-/

set_option autoImplicit false

namespace PencilRs.Computation.Literals

/-- `Fin 1` has its numerals. -/
instance oneNeZero : @NeZero ℕ Zero.ofOfNat0 1 := ⟨Nat.one_ne_zero⟩

/-- `Fin 2` has its numerals. -/
instance twoNeZero : @NeZero ℕ Zero.ofOfNat0 2 := ⟨Nat.succ_ne_zero 1⟩

/-- The number types have the numeral `2`. -/
instance twoAtLeastTwo : Nat.AtLeastTwo 2 := ⟨Nat.le_refl 2⟩

end PencilRs.Computation.Literals
