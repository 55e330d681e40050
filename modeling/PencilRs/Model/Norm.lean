import Mathlib.Data.Fin.VecNotation
import Mathlib.Order.Bounds.Basic
import Mathlib.Order.WithBot
import PencilRs.Computation.Lockstep
import PencilRs.Computation.ScaledSquares

/-!
# Scaled norms

The global L2 norm of distributed values.  `NormState` takes one value after another; `norm_values`
first finds the greatest magnitude of all ranks.  Numbers are those of an ordered field, with
infinities and NaN beside them, and the operations on them are exact.  A division by zero is an
error here, so that a result says that none was made.

SOURCE: pencil-array/src/collectives.rs
-/

set_option autoImplicit false

namespace PencilRs.Model

open PencilRs.Computation

namespace Norm

/-! ## Values -/

/-- A floating-point number in exact arithmetic. -/
inductive Number (K : Type) where
  | finite (x : K)
  | infinite (negative : Bool)
  | nan
deriving DecidableEq

/-- The integer and float types are real; the complex types are pairs. -/
inductive Scalar (K : Type) where
  | real (x : Number K)
  | complex (re im : Number K)
deriving DecidableEq

/-- NaN, positive and negative infinity of the real part, then those of the imaginary part. -/
abbrev Flags : Type := Fin 6 → ℕ

section Values

variable {K : Type}

namespace Number

def isNan : Number K → Bool
  | nan => true
  | _ => false

def isInfinite (sign : Bool) : Number K → Bool
  | infinite negative => negative = sign
  | _ => false

end Number

/-- SOURCE: collectives.rs:240-243, 325-334, 2494-2514 -/
def nonfiniteFlags : Scalar K → Flags
  | .real x => ![x.isNan.toNat, (x.isInfinite false).toNat, (x.isInfinite true).toNat, 0, 0, 0]
  | .complex re im => ![re.isNan.toNat, (re.isInfinite false).toNat, (re.isInfinite true).toNat,
      im.isNan.toNat, (im.isInfinite false).toNat, (im.isInfinite true).toNat]

/-- SOURCE: collectives.rs:2463-2468 -/
def mergeFlags (left right : Flags) : Flags := fun index => max (left index) (right index)

/-- SOURCE: collectives.rs:2454-2461 -/
def valuesNonfiniteFlags (values : List (Scalar K)) : Flags :=
  values.foldl (fun flags value => mergeFlags flags (nonfiniteFlags value)) 0

end Values

variable {K : Type} [Field K] [LinearOrder K]

namespace Number

def abs : Number K → Number K
  | finite x => finite (max x (-x))
  | infinite _ => infinite false
  | nan => nan

/-- An infinite part wins over NaN. -/
def hypot (sqrt : K → K) (x y : Number K) : Number K :=
  match x, y with
  | infinite _, _ => infinite false
  | _, infinite _ => infinite false
  | finite x, finite y => finite (sqrt (x * x + y * y))
  | _, _ => nan

end Number

/-- SOURCE: collectives.rs:245-247, 336-338, 433-435, 486-488 -/
def normAbs (sqrt : K → K) : Scalar K → Number K
  | .real x => x.abs
  | .complex re im => re.hypot sqrt im

/-! ## One value after another -/

inductive NormFault where
  | divisionByZero
  | notFinite
deriving Repr, DecidableEq

/-- `x / y` -/
def divide (x y : K) : Except NormFault K :=
  if y = 0 then .error .divisionByZero else .ok (x / y)

/-- The greatest scale is infinity.

SOURCE: collectives.rs:2119-2124 -/
structure NormState (K : Type) where
  scale : WithTop K
  ssq : K
  flags : Flags

/-- `NormState::default()` -/
def NormState.default : NormState K := ⟨(0 : K), 0, 0⟩

/-- SOURCE: collectives.rs:2127-2147 -/
def push (sqrt : K → K) (state : NormState K) (value : Scalar K) :
    Except NormFault (NormState K) :=
  let state := { state with flags := mergeFlags state.flags (nonfiniteFlags value) }
  match normAbs sqrt value with
  | .infinite _ => .ok { state with scale := ⊤ }
  | .nan => .ok state
  | .finite a =>
    match state.scale with
    | ⊤ => .ok state
    | (scale : K) =>
      if a = 0 then .ok state
      else if scale < a then do
        let ratio ← divide scale a
        return { state with scale := a, ssq := 1 + state.ssq * ratio * ratio }
      else do
        let ratio ← divide a scale
        return { state with ssq := state.ssq + ratio * ratio }

/-- All values of a rank, in the order its callback returns them. -/
def pushAll (sqrt : K → K) (values : List (Scalar K)) : Except NormFault (NormState K) :=
  values.foldlM (push sqrt) NormState.default

/-! ## Over all ranks -/

inductive ReductionOp where
  | maxFlags
  | maxScale
  | sum
deriving Repr, DecidableEq

/-- The reductions of the norm. -/
abbrev reductions (K : Type) : Interface where
  Op := ReductionOp
  Arg
    | .maxFlags => Flags
    | .maxScale => WithTop K
    | .sum => K
  Reply
    | .maxFlags => Flags
    | .maxScale => WithTop K
    | .sum => K

/-- A sum is made in some order of the ranks, which need not be the same for every rank. -/
def reducing (K ι : Type) [Field K] [LinearOrder K] : Semantics (reductions K) ι Unit where
  Round := fun _ op args replies _ =>
    match op with
    | .maxFlags => ∀ c j, IsGreatest (Set.range fun d => args d j) (replies c j)
    | .maxScale => ∀ c, IsGreatest (Set.range args) (replies c)
    | .sum => ∀ c, ∃ order : List ι, order.Nodup ∧ (∀ d, d ∈ order) ∧
        replies c = (order.map args).foldl (· + ·) 0
  Torn := fun _ _ _ _ => False

abbrev NormProgram (K : Type) : Type → Type := Fallible (reductions K) NormFault

/-- SOURCE: collectives.rs:2448-2452 -/
def collectiveFlags (flags : Flags) : NormProgram K Flags :=
  Fallible.perform (I := reductions K) .maxFlags flags

def allReduceMax (scale : WithTop K) : NormProgram K (WithTop K) :=
  Fallible.perform (I := reductions K) .maxScale scale

def allReduceSum (value : K) : NormProgram K K :=
  Fallible.perform (I := reductions K) .sum value

/-- SOURCE: collectives.rs:2149-2176 -/
def NormState.finish (sqrt : K → K) (state : NormState K) (globalCount : ℕ) :
    NormProgram K (Number K) := do
  let flags ← collectiveFlags state.flags
  if flags 0 ≠ 0 ∨ flags 3 ≠ 0 then return .nan
  else do
    let globalScale ← allReduceMax state.scale
    match globalScale, state.scale with
    | (globalScale : K), (scale : K) =>
      if flags 1 ≠ 0 ∨ flags 2 ≠ 0 ∨ flags 4 ≠ 0 ∨ flags 5 ≠ 0 then return .infinite false
      else if globalScale = 0 ∨ globalCount = 0 then return .finite 0
      else do
        let ratio ← Fallible.ofExcept (divide scale globalScale)
        let globalSsq ← allReduceSum (state.ssq * ratio * ratio)
        return .finite (globalScale * sqrt globalSsq)
    | _, _ => return .infinite false

/-- The norm of the values a rank's callback returns.

SOURCE: collectives.rs:2067-2083 -/
def mappedNorm (sqrt : K → K) (values : List (Scalar K)) (globalCount : ℕ) :
    NormProgram K (Number K) := do
  let state ← Fallible.ofExcept (pushAll sqrt values)
  state.finish sqrt globalCount

/-- `f64::max` drops NaN. -/
def maxNumber (greatest : WithTop K) : Number K → WithTop K
  | .finite x => max greatest x
  | .infinite negative => if negative then greatest else ⊤
  | .nan => greatest

/-- One value of the second loop of `norm_values`. -/
def addRatio (sqrt : K → K) (globalMax : K) (sum : K) (value : Scalar K) : Except NormFault K :=
  match normAbs sqrt value with
  | .finite a => do
    let ratio ← divide a globalMax
    return sum + ratio * ratio
  | _ => .error .notFinite

/-- SOURCE: collectives.rs:2179-2219 -/
def normValues (sqrt : K → K) (values : List (Scalar K)) (globalCount : ℕ) :
    NormProgram K (Number K) := do
  let flags ← collectiveFlags (valuesNonfiniteFlags values)
  if flags 0 ≠ 0 ∨ flags 3 ≠ 0 then return .nan
  else do
    let localMax := (values.map (normAbs sqrt)).foldl maxNumber (0 : K)
    let globalMax ← allReduceMax localMax
    if flags 1 ≠ 0 ∨ flags 2 ≠ 0 ∨ flags 4 ≠ 0 ∨ flags 5 ≠ 0 then return .infinite false
    else match globalMax with
      | ⊤ => return .infinite false
      | (globalMax : K) =>
        if globalMax = 0 ∨ globalCount = 0 then return .finite 0
        else do
          let localScaled ← Fallible.ofExcept (values.foldlM (addRatio sqrt globalMax) 0)
          let globalScaled ← allReduceSum localScaled
          return .finite (globalMax * sqrt globalScaled)

end Norm

end PencilRs.Model
