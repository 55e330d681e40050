import PencilRs.Model.C2c
import PencilRs.Model.R2r

/-!
# Descriptors of all transform families

Each constructor compares an operation word, the ranks and a descriptor of its request; each call
compares an operation word of its own and the descriptor of its plan, and a call on a collection
the word of its family too.

SOURCE: pencil-fft/src/distributed.rs, distributed/c2r.rs, r2c.rs, r2r.rs, mixed.rs, collections.rs
-/

set_option autoImplicit false

namespace PencilRs.Model

open PencilRs.Computation

variable {N M : ℕ}

/-! ## What is transformed -/

/-- The implementations of `FftReal`.

SOURCE: lib.rs:287-293 -/
inductive FftReal where
  | f32
  | f64
deriving Repr, DecidableEq

/-- `size_of::<R>()` -/
def FftReal.size : FftReal → ℕ
  | .f32 => 4
  | .f64 => 8

/-- `size_of::<Complex<R>>()` -/
def FftReal.complexSize (real : FftReal) : ℕ := 2 * real.size

/-- SOURCE: r2r.rs:53-64 -/
def R2r.R2rKind.descriptorCode : R2r.R2rKind → BitVec 64
  | .dctI => 1
  | .dctII => 2
  | .dctIII => 3
  | .dctIV => 4
  | .dstI => 5
  | .dstII => 6
  | .dstIII => 7
  | .dstIV => 8

/-- SOURCE: r2r.rs:86-97 -/
inductive AxisR2rKind where
  | fftw (kind : R2r.R2rKind)
  | dht
deriving Repr, DecidableEq

/-- SOURCE: r2r.rs:99-107 -/
def AxisR2rKind.descriptorCode : AxisR2rKind → BitVec 64
  | .fftw kind => kind.descriptorCode
  | .dht => 9

/-- SOURCE: mixed.rs:93-102 -/
inductive AxisTransform where
  | none
  | fft
  | rfft
  | r2r (kind : AxisR2rKind)
deriving Repr, DecidableEq

/-- SOURCE: mixed.rs:1600-1607 -/
def AxisTransform.words : AxisTransform → List (BitVec 64)
  | .none => [0, 0]
  | .fft => [1, 0]
  | .rfft => [2, 0]
  | .r2r kind => [3, kind.descriptorCode]

/-- The axes marked as the boundary, one after the other.

SOURCE: mixed.rs:1623-1652 -/
def validateR2cGraph (globalShape : Fin N → ℕ) (transforms : Fin N → AxisTransform) :
    Option (Fin N) :=
  match (List.finRange N).filter fun axis => transforms axis = .rfft with
  | [boundary] =>
    if (List.finRange N).all fun axis => (match transforms axis with
        | .rfft => axis = boundary
        | .fft => axis < boundary
        | .none | .r2r _ => axis ≠ boundary) && globalShape axis ≠ 0
    then some boundary else none
  | _ => none

/-! ## Requests -/

/-- What the constructors of all families are given. -/
structure PlanArgs (N M : ℕ) where
  topology : MpiTopology M
  globalShape : Fin N → ℕ
  extraShape : ExtraShape
  layout : DistributedLayout
  backend : BackendChoice
  real : FftReal

/-- What a constructor plans. -/
inductive PlanRequest (N M : ℕ) where
  | c2c (args : PlanArgs N M) (selection : AxisSelection N) (directions : FourierDirections N)
  | r2c (args : PlanArgs N M) (selection : AxisSelection N)
  | c2r (args : PlanArgs N M) (selection : AxisSelection N) (realLen : ℕ)
  /-- The elements are real or complex numbers. -/
  | r2r (args : PlanArgs N M) (complex : Bool) (kinds : Fin N → Option R2r.R2rKind)
  | dht (args : PlanArgs N M) (complex : Bool) (selection : AxisSelection N)
  | mixedC2c (args : PlanArgs N M) (transforms : Fin N → AxisTransform)
    (directions : FourierDirections N)
  | mixedR2c (args : PlanArgs N M) (transforms : Fin N → AxisTransform)
    (directions : FourierDirections N)

namespace PlanRequest

def args : PlanRequest N M → PlanArgs N M
  | c2c args _ _ | r2c args _ | c2r args _ _ | r2r args _ _ | dht args _ _ | mixedC2c args _ _
  | mixedR2c args _ _ => args

/-- The axis whose lines change their length: the last selected one of a transform of real numbers,
the first selected one of a transform to real numbers.

SOURCE: r2c.rs:1266-1272, mixed.rs:3623 -/
def reductionAxis : PlanRequest N M → Option (Fin N)
  | r2c _ selection => (List.finRange N).reverse.find? fun axis => selection.mask axis
  | c2r _ selection _ => (List.finRange N).find? fun axis => selection.mask axis
  | mixedR2c args transforms _ => validateR2cGraph args.globalShape transforms
  | _ => none

/-- The length of the lines of real numbers. -/
def realLen : PlanRequest N M → Option ℕ
  | c2r _ _ realLen => some realLen
  | request => request.reductionAxis.map request.args.globalShape

/-- `VALUE_KIND_C2C`, `VALUE_KIND_R2C`, `VALUE_KIND_C2R` and `r2r_value_kind`.

SOURCE: distributed.rs:282-283, c2r.rs:16, r2r.rs:148-160, mixed.rs:1575-1579 -/
def valueKind : PlanRequest N M → BitVec 64
  | c2c _ _ _ | mixedC2c _ _ _ => 1
  | r2c _ _ | mixedR2c _ _ _ => 2
  | c2r _ _ _ => 5
  | r2r _ complex _ | dht _ complex _ => if complex then 2 else 1

end PlanRequest

/-! ## The words of a request -/

/-- The words `build_r2r_descriptor` appends.

SOURCE: distributed/r2r.rs:2031-2061 -/
def r2rDescriptorWords (args : PlanArgs N M) (valueKind : BitVec 64)
    (kinds : Fin N → Option AxisR2rKind) : List (BitVec 64) :=
  words64 (List.ofFn args.globalShape) ++ words64 (List.ofFn args.topology.processGrid)
    ++ shapeWords args.extraShape ++ [valueKind, BitVec.ofNat 64 args.real.size]
    ++ List.ofFn (fun axis => (kinds axis).elim 0 AxisR2rKind.descriptorCode)
    ++ [args.layout.transposeMethod.descriptorWord, BitVec.ofNat 64 args.layout.permuteDims.toNat]

/-- SOURCE: mixed.rs:1552-1557 -/
def mixedDescriptorLen (N M : ℕ) (extra : ExtraShape) : Option ℕ := do
  let length ← checkedMul N 4
  let length ← checkedAdd length M
  let length ← checkedAdd length extra.dimensions.length
  checkedAdd length 9

/-- The words `build_mixed_descriptor` appends; an axis is absent where the graph is not valid.

SOURCE: mixed.rs:1559-1598 -/
def mixedDescriptorWords (args : PlanArgs N M) (outputShape : Fin N → ℕ)
    (transforms : Fin N → AxisTransform) (family : BitVec 64) (reductionAxis : Option (Fin N))
    (originalLen : ℕ) : List (BitVec 64) :=
  words64 (List.ofFn args.globalShape) ++ words64 (List.ofFn outputShape)
    ++ words64 (List.ofFn args.topology.processGrid) ++ shapeWords args.extraShape
    ++ [family, if family = 1 then 1 else 2, BitVec.ofNat 64 args.real.size,
      BitVec.ofNat 64 args.real.complexSize,
      BitVec.ofNat 64 (reductionAxis.elim (usizeLimit - 1) Fin.val), BitVec.ofNat 64 originalLen,
      args.layout.transposeMethod.descriptorWord, BitVec.ofNat 64 args.layout.permuteDims.toNat]
    ++ (List.ofFn transforms).flatMap AxisTransform.words

namespace PlanRequest

/-- The descriptor of a request.

SOURCE: distributed.rs:1790-1809, r2c.rs:1216-1238, r2r.rs:1516-1534, mixed.rs:1128-1154,
3637-3663 -/
def words : PlanRequest N M → List (BitVec 64)
  | c2c args selection directions =>
    fftDescriptorWords args.topology args.globalShape args.extraShape selection valueKindC2c
        args.real.size args.layout
      ++ List.ofFn (fun axis => (directions.direction axis).word)
      ++ args.backend.descriptorWords args.real.size
  | r2c args selection =>
    fftDescriptorWords args.topology args.globalShape args.extraShape selection 2 args.real.size
        args.layout ++ args.backend.descriptorWords args.real.size
  | c2r args selection realLen =>
    fftDescriptorWords args.topology args.globalShape args.extraShape selection 5 args.real.size
        args.layout ++ args.backend.descriptorWords args.real.size ++ [BitVec.ofNat 64 realLen]
  | r2r args complex kinds =>
    r2rDescriptorWords args (if complex then 2 else 1) (fun axis => (kinds axis).map .fftw)
      ++ args.backend.descriptorWords args.real.size
  | dht args complex selection =>
    r2rDescriptorWords args (if complex then 2 else 1)
        (fun axis => if selection.mask axis then some .dht else none)
      ++ args.backend.descriptorWords args.real.size
  | mixedC2c args transforms directions =>
    mixedDescriptorWords args args.globalShape transforms 1 none 0
      ++ args.backend.descriptorWords args.real.size
      ++ List.ofFn (fun axis => (directions.direction axis).word)
  | mixedR2c args transforms directions =>
    let localBoundary := validateR2cGraph args.globalShape transforms
    let originalLen := localBoundary.elim 0 args.globalShape
    let reducedShape := localBoundary.elim args.globalShape fun axis =>
      Function.update args.globalShape axis (args.globalShape axis / 2 + 1)
    mixedDescriptorWords args reducedShape transforms 2 localBoundary originalLen
      ++ args.backend.descriptorWords args.real.size
      ++ List.ofFn (fun axis => (directions.direction axis).word)

/-- The length a constructor announces.

SOURCE: distributed.rs:1787-1789, r2c.rs:1213-1215, r2r.rs:1516-1517, mixed.rs:1128-1129,
3637-3638 -/
def expectedLen : PlanRequest N M → Option ℕ
  | c2c args _ _ => (fftDescriptorLen N M args.extraShape).bind fun length =>
    (checkedAdd length N).bind fun length => checkedAdd length 8
  | r2c args _ => (fftDescriptorLen N M args.extraShape).bind fun length => checkedAdd length 8
  | c2r args _ _ => (fftDescriptorLen N M args.extraShape).bind fun length =>
    checkedAdd length (8 + 1)
  | r2r args _ _ | dht args _ _ =>
    (fftDescriptorLen N M args.extraShape).bind fun length => checkedAdd length 8
  | mixedC2c args _ _ | mixedR2c args _ _ =>
    (mixedDescriptorLen N M args.extraShape).bind fun length => checkedAdd length (N + 8)

end PlanRequest

/-! ## Operations -/

inductive Family where
  | c2c
  | r2c
  | c2r
  | r2r
  | dht
  | mixedC2c
  | mixedR2c
deriving Repr, DecidableEq

def PlanRequest.family : PlanRequest N M → Family
  | c2c _ _ _ => .c2c
  | r2c _ _ => .r2c
  | c2r _ _ _ => .c2r
  | r2r _ _ _ => .r2r
  | dht _ _ _ => .dht
  | mixedC2c _ _ _ => .mixedC2c
  | mixedR2c _ _ _ => .mixedR2c

/-- What a rank asks for: a plan of a backend, a call of a plan, or a call on a collection. -/
inductive FftOperation where
  | plan (family : Family) (native : Bool)
  | execute (family : Family) (variant : CallVariant) (direction : Direction)
  | executeMany (inPlace : Bool) (direction : Direction)
deriving Repr, DecidableEq

namespace FftOperation

/-- `OPERATION_*_PLAN` and `OPERATION_NATIVE_*_PLAN`.

SOURCE: distributed.rs:221-255, 261, c2r.rs:17-19, distributed/r2r.rs:26-29, mixed.rs:62-65 -/
def planWord : Family → Bool → BitVec 64
  | .c2c, false => 7
  | .c2c, true => 127
  | .r2c, false => 12
  | .r2c, true => 128
  | .c2r, false => 133
  | .c2r, true => 134
  | .r2r, false => 18
  | .r2r, true => 129
  | .dht, false => 28
  | .dht, true => 130
  | .mixedC2c, false => 35
  | .mixedC2c, true => 131
  | .mixedR2c, false => 42
  | .mixedR2c, true => 132

/-- Three words one after the other. -/
def wordsFrom (forward inverse backward : BitVec 64) : Direction → BitVec 64
  | .forward => forward
  | .inverse => inverse
  | .backward => backward

/-- The words of the calls.  A transform from complex to real numbers has plain calls only.

SOURCE: distributed.rs:222-278, c2r.rs:20-22, r2c.rs:60-68, distributed/r2r.rs:8-25,
mixed.rs:66-84 -/
def executionWord : Family → CallVariant → Option (Direction → BitVec 64)
  | .c2c, variant => some (c2cOperation variant)
  | .r2c, .plain => some (wordsFrom 13 14 17)
  | .r2c, .timed => some (wordsFrom 79 80 81)
  | .r2c, .overlap => some (wordsFrom 73 74 75)
  | .r2c, .inPlace => some (wordsFrom 25 26 27)
  | .r2c, .inPlaceTimed => some (wordsFrom 82 83 84)
  | .c2r, .plain => some (wordsFrom 135 136 137)
  | .c2r, _ => none
  | .r2r, .plain => some (wordsFrom 19 20 21)
  | .r2r, .timed => some (wordsFrom 103 104 105)
  | .r2r, .overlap => some (wordsFrom 61 62 63)
  | .r2r, .inPlace => some (wordsFrom 22 23 24)
  | .r2r, .inPlaceTimed => some (wordsFrom 106 107 108)
  | .dht, .plain => some (wordsFrom 29 30 31)
  | .dht, .timed => some (wordsFrom 109 110 111)
  | .dht, .overlap => some (wordsFrom 64 65 66)
  | .dht, .inPlace => some (wordsFrom 32 33 34)
  | .dht, .inPlaceTimed => some (wordsFrom 112 113 114)
  | .mixedC2c, .plain => some (wordsFrom 36 37 38)
  | .mixedC2c, .timed => some (wordsFrom 91 92 93)
  | .mixedC2c, .overlap => some (wordsFrom 85 86 87)
  | .mixedC2c, .inPlace => some (wordsFrom 39 40 41)
  | .mixedC2c, .inPlaceTimed => some (wordsFrom 94 95 96)
  | .mixedR2c, .plain => some (wordsFrom 43 44 45)
  | .mixedR2c, .timed => some (wordsFrom 115 116 117)
  | .mixedR2c, .overlap => some (wordsFrom 88 89 90)
  | .mixedR2c, .inPlace => some (wordsFrom 46 47 48)
  | .mixedR2c, .inPlaceTimed => some (wordsFrom 118 119 120)

/-- SOURCE: collections.rs:75-77, 225-300 -/
def collectionWord : Bool → Direction → BitVec 64
  | false => wordsFrom 121 122 123
  | true => wordsFrom 124 125 126

/-- The operation word; there is none where there is no such call. -/
def word : FftOperation → Option (BitVec 64)
  | plan family native => some (planWord family native)
  | execute family variant direction => (executionWord family variant).map (· direction)
  | executeMany inPlace direction => some (collectionWord inPlace direction)

end FftOperation

/-- The family word of a collection.

SOURCE: collections.rs:75-77, 314-360 -/
def Family.collectionWord : Family → Option (BitVec 64)
  | .c2c => some 1
  | .r2c => some 2
  | .c2r => none
  | .r2r => some 3
  | .dht => some 4
  | .mixedC2c => some 5
  | .mixedR2c => some 6

/-- A call of the crate on a request or on the plan of a request. -/
inductive PlanCall where
  | construct
  | execute (variant : CallVariant) (direction : Direction)
  | executeMany (inPlace : Bool) (direction : Direction)
deriving Repr, DecidableEq

namespace PlanCall

def operation (call : PlanCall) (request : PlanRequest N M) : FftOperation :=
  match call with
  | construct => .plan request.family (request.args.backend ≠ .rustFft)
  | execute variant direction => .execute request.family variant direction
  | executeMany inPlace direction => .executeMany inPlace direction

/-- The words that ranks compare besides the ranks of the plan and its descriptor: the operation
word, and for a collection the family word in front of it. -/
def headerWords (call : PlanCall) (request : PlanRequest N M) : Option (List (BitVec 64)) :=
  match call with
  | executeMany _ _ => do
    let family ← request.family.collectionWord
    let word ← (call.operation request).word
    return [family, word]
  | _ => (call.operation request).word.map fun word => [word]

end PlanCall

end PencilRs.Model
