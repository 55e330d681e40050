import PencilRs.Model.R2r

/-!
# Local discrete Hartley transforms

A plan computes the Hartley transform of every line from one complex FFT of it: a bin and its
mirror image hold the transforms of the real and the imaginary parts mixed, and the two are
separated again.  The plans are those of RustFFT, and arithmetic is exact.

SOURCE: pencil-fft/src/dht.rs
-/

set_option autoImplicit false

namespace PencilRs.Model

open PencilRs.Computation

namespace R2r

variable {R : Type} {valueKind : ValueKind}

/-- SOURCE: dht.rs:34-43 -/
structure LocalDhtPlan (R : Type) (valueKind : ValueKind) where
  lineLen : ℕ
  embeddingLen : ℕ
  scratchLen : ℕ
  fft : FftKernel (ComplexValue R)

/-- SOURCE: dht.rs:316-323 -/
def validateDhtLengths (realSize : ℕ) (valueKind : ValueKind) (lineLen : ℕ) :
    Except LocalR2rError Unit := do
  ensure (lineLen ≠ 0) .invalidLength
  validateAddressable lineLen (valueKind.size realSize)
  validateAddressable lineLen (ValueKind.complex.size realSize)

/-! ## Recombination -/

section Arithmetic

variable [Field R]

/-- SOURCE: dht.rs:341-356 -/
def scaledParts (real imaginary : R) (normalize : Bool) (lineLen : ℕ) : ComplexValue R :=
  if normalize then ⟨real / lineLen, imaginary / lineLen⟩ else ⟨real, imaginary⟩

/-- SOURCE: dht.rs:333-339 -/
def scaled (value : ComplexValue R) (normalize : Bool) (lineLen : ℕ) : ComplexValue R :=
  if !normalize then value else scaledParts value.re value.im true lineLen

/-- `f64::MAX` -/
def f64Max : R := (2 ^ 53 - 1) * 2 ^ 971

variable [LinearOrder R]

/-- SOURCE: dht.rs:358-364 -/
def halfSum (x y : R) : R :=
  if |x| ≤ f64Max / 2 ∧ |y| ≤ f64Max / 2 then (x + y) * (1 / 2) else x * (1 / 2) + y * (1 / 2)

/-- The value of an output from its bin and the mirror image of the bin.

SOURCE: dht.rs:303-309 -/
def separate (value mirror : ComplexValue R) (normalize : Bool) (lineLen : ℕ) : ComplexValue R :=
  let real := halfSum value.re mirror.re + halfSum mirror.im (-value.im)
  let imaginary := halfSum value.im mirror.im + halfSum value.re (-mirror.re)
  scaledParts real imaginary normalize lineLen

end Arithmetic

/-! ## Plans -/

namespace LocalDhtPlan

/-- SOURCE: dht.rs:62-80 -/
def new (planFftForward : ℕ → FftKernel (ComplexValue R)) (realSize : ℕ) (valueKind : ValueKind)
    (lineLen : ℕ) : Except LocalR2rError (LocalDhtPlan R valueKind) := do
  validateDhtLengths realSize valueKind lineLen
  let fft := planFftForward lineLen
  let scratchLen := fft.inplaceScratchLen
  validateAddressable scratchLen (ValueKind.complex.size realSize)
  return { lineLen, embeddingLen := lineLen, scratchLen, fft }

variable (plan : LocalDhtPlan R valueKind)

def sizes : LineSizes := ⟨plan.lineLen, plan.embeddingLen, plan.scratchLen⟩

variable [Field R] [LinearOrder R]

/-- The embedding line after the line is copied to it and transformed there.

SOURCE: dht.rs:260-281 -/
def fillAndFft (source : List (R2rScalar R valueKind)) (embeddingLine : List (ComplexValue R))
    (scratchLen : ℕ) : Option (List (ComplexValue R)) := do
  guard (plan.embeddingLen ≤ embeddingLine.length ∧ plan.scratchLen ≤ scratchLen)
  let filled := (source.map toComplex).take plan.embeddingLen
    ++ (embeddingLine.take plan.embeddingLen).drop source.length
  return plan.fft.process plan.embeddingLen filled ++ embeddingLine.drop plan.embeddingLen

/-- Output `k`.

SOURCE: dht.rs:299-312 -/
def writeValue (embeddingLine : List (ComplexValue R)) (normalize : Bool) (k : ℕ) :
    Option (R2rScalar R valueKind) := do
  let value ← embeddingLine[k]?
  if k = 0 ∨ (plan.lineLen % 2 = 0 ∧ k = plan.lineLen / 2) then
    return fromComplex (scaled value normalize plan.lineLen)
  else
    let mirror ← embeddingLine[← checkedSub plan.lineLen k]?
    return fromComplex (separate value mirror normalize plan.lineLen)

/-- SOURCE: dht.rs:283-314 -/
def writeLine (destinationLen : ℕ) (embeddingLine : List (ComplexValue R)) (normalize : Bool) :
    Option (List (R2rScalar R valueKind)) :=
  (List.range destinationLen).mapM (plan.writeValue embeddingLine normalize)

/-- SOURCE: dht.rs:232-235, 253-256 -/
def line (normalize : Bool) (scratchLen : ℕ) (source : List (R2rScalar R valueKind))
    (destinationLen : ℕ) (embeddingLine : List (ComplexValue R)) :
    Option (List (R2rScalar R valueKind) × List (ComplexValue R)) := do
  let embeddingLine ← plan.fillAndFft source embeddingLine scratchLen
  let destination ← plan.writeLine destinationLen embeddingLine normalize
  return (destination, embeddingLine)

variable (src dst data : List (R2rScalar R valueKind)) (embeddingLine : List (ComplexValue R))
  (scratchLen : ℕ)

/-- The transform of length one is the identity, so that a batch of such lines is copied.

SOURCE: dht.rs:208-237 -/
def executeOutOfPlace (normalize : Bool) :
    Option (LineResult (R2rScalar R valueKind) (ComplexValue R)) :=
  forEachOutOfPlaceLine plan.sizes src dst embeddingLine scratchLen
    (fun src _ => if plan.lineLen = 1 then some src else none)
    fun sourceLine destinationLine => plan.line normalize scratchLen sourceLine
      destinationLine.length

/-- SOURCE: dht.rs:239-258 -/
def executeInPlace (normalize : Bool) :
    Option (LineResult (R2rScalar R valueKind) (ComplexValue R)) :=
  forEachInPlaceLine plan.sizes data embeddingLine scratchLen
    (fun data => if plan.lineLen = 1 then some data else none)
    fun dataLine => plan.line normalize scratchLen dataLine dataLine.length

/-- SOURCE: dht.rs:141-149 -/
def forward : Option (LineResult (R2rScalar R valueKind) (ComplexValue R)) :=
  plan.executeOutOfPlace src dst embeddingLine scratchLen false

/-- SOURCE: dht.rs:155-163 -/
def backward : Option (LineResult (R2rScalar R valueKind) (ComplexValue R)) :=
  plan.executeOutOfPlace src dst embeddingLine scratchLen false

/-- SOURCE: dht.rs:168-176 -/
def inverse : Option (LineResult (R2rScalar R valueKind) (ComplexValue R)) :=
  plan.executeOutOfPlace src dst embeddingLine scratchLen true

/-- SOURCE: dht.rs:179-186 -/
def forwardInPlace : Option (LineResult (R2rScalar R valueKind) (ComplexValue R)) :=
  plan.executeInPlace data embeddingLine scratchLen false

/-- SOURCE: dht.rs:189-196 -/
def backwardInPlace : Option (LineResult (R2rScalar R valueKind) (ComplexValue R)) :=
  plan.executeInPlace data embeddingLine scratchLen false

/-- SOURCE: dht.rs:199-206 -/
def inverseInPlace : Option (LineResult (R2rScalar R valueKind) (ComplexValue R)) :=
  plan.executeInPlace data embeddingLine scratchLen true

end LocalDhtPlan

end R2r

end PencilRs.Model
