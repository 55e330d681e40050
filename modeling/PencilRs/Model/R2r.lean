import PencilRs.Computation.Lines
import PencilRs.Model.LocalC2c

/-!
# Local real-to-real transforms

A plan computes one of the eight discrete cosine and sine transforms of every line of a buffer.
A line is embedded symmetrically into a longer complex line, whose FFT holds the transform in some
of its bins.  The plans are those of RustFFT; scratch is a length, because what it holds before a
call is not read.

SOURCE: pencil-fft/src/r2r.rs
-/

set_option autoImplicit false

namespace PencilRs.Model

open PencilRs.Computation

variable {R : Type}

namespace R2r

/-- SOURCE: r2r.rs:17-35 -/
inductive R2rKind where
  | dctI
  | dctII
  | dctIII
  | dctIV
  | dstI
  | dstII
  | dstIII
  | dstIV
deriving Repr, DecidableEq

namespace R2rKind

/-- SOURCE: r2r.rs:66-78 -/
def backwardKind : R2rKind → R2rKind
  | dctI => dctI
  | dctII => dctIII
  | dctIII => dctII
  | dctIV => dctIV
  | dstI => dstI
  | dstII => dstIII
  | dstIII => dstII
  | dstIV => dstIV

/-- SOURCE: r2r.rs:80-83 -/
def isDst : R2rKind → Bool
  | dstI | dstII | dstIII | dstIV => true
  | _ => false

end R2rKind

/-! ## Scalars -/

/-- `Complex<R>` -/
structure ComplexValue (R : Type) where
  re : R
  im : R
deriving Repr, DecidableEq

/-- SOURCE: r2r.rs:147-148, 159-160 -/
inductive ValueKind where
  | real
  | complex
deriving Repr, DecidableEq

/-- The types that have the trait `R2rScalar`. -/
def R2rScalar (R : Type) : ValueKind → Type
  | .real => R
  | .complex => ComplexValue R

/-- `size_of::<T>()` -/
def ValueKind.size (realSize : ℕ) : ValueKind → ℕ
  | .real => realSize
  | .complex => 2 * realSize

variable {valueKind : ValueKind}

/-- SOURCE: r2r.rs:150-152, 162-164 -/
def toComplex [Zero R] : {valueKind : ValueKind} → R2rScalar R valueKind → ComplexValue R
  | .real, value => ⟨value, 0⟩
  | .complex, value => value

/-- SOURCE: r2r.rs:154-156, 166-168 -/
def fromComplex : {valueKind : ValueKind} → ComplexValue R → R2rScalar R valueKind
  | .real, value => value.re
  | .complex, value => value

/-! ## Validation -/

/-- SOURCE: r2r.rs:204-231 -/
inductive LocalR2rError where
  | invalidLength
  | lengthOverflow
  | nonIntegralBatch
  | bufferLengthMismatch
  | complexLineTooSmall (required actual : ℕ)
  | scratchTooSmall (required actual : ℕ)
deriving Repr, DecidableEq

/-- SOURCE: r2r.rs:820-829 -/
def validateAddressable (length elementSize : ℕ) : Except LocalR2rError Unit :=
  ensure (isAddressable length elementSize) .lengthOverflow

/-- The length of the embedding and the normalization factor.

SOURCE: r2r.rs:777-814 -/
def derivedLengths (lineLen : ℕ) : R2rKind → Except LocalR2rError (ℕ × ℕ)
  | .dctI => do
    let nMinusOne ← okOr (checkedSub lineLen 1) .lengthOverflow
    let length ← okOr (checkedMul nMinusOne 2) .lengthOverflow
    return (length, length)
  | .dstI => do
    let nPlusOne ← okOr (checkedAdd lineLen 1) .lengthOverflow
    let length ← okOr (checkedMul nPlusOne 2) .lengthOverflow
    return (length, length)
  | .dctII | .dctIII | .dstII | .dstIII => do
    let embeddingLen ← okOr (checkedMul lineLen 4) .lengthOverflow
    let normalizationFactor ← okOr (checkedMul lineLen 2) .lengthOverflow
    return (embeddingLen, normalizationFactor)
  | .dctIV | .dstIV => do
    let embeddingLen ← okOr (checkedMul lineLen 8) .lengthOverflow
    let normalizationFactor ← okOr (checkedMul lineLen 2) .lengthOverflow
    return (embeddingLen, normalizationFactor)

/-- SOURCE: r2r.rs:768-818 -/
def validateLengths (realSize : ℕ) (valueKind : ValueKind) (lineLen : ℕ) (kind : R2rKind) :
    Except LocalR2rError (ℕ × ℕ) := do
  ensure (!(lineLen == 0 || (kind == .dctI && lineLen == 1))) .invalidLength
  validateAddressable lineLen (valueKind.size realSize)
  let (embeddingLen, normalizationFactor) ← derivedLengths lineLen kind
  validateAddressable embeddingLen (ValueKind.complex.size realSize)
  validateAddressable normalizationFactor realSize
  return (embeddingLen, normalizationFactor)

/-- What the line loops need of their buffers.

SOURCE: r2r.rs:894-897, 930-932 -/
structure LineSizes where
  lineLen : ℕ
  embeddingLen : ℕ
  scratchLen : ℕ
deriving Repr, DecidableEq

/-- SOURCE: r2r.rs:853-873 -/
def validateR2rInPlace (sizes : LineSizes) (dataLen embeddingLen scratchLen : ℕ) :
    Except LocalR2rError Unit := do
  ensure (dataLen % sizes.lineLen = 0) .nonIntegralBatch
  ensure (sizes.embeddingLen ≤ embeddingLen) (.complexLineTooSmall sizes.embeddingLen embeddingLen)
  ensure (sizes.scratchLen ≤ scratchLen) (.scratchTooSmall sizes.scratchLen scratchLen)

/-- SOURCE: r2r.rs:831-849 -/
def validateR2rOutOfPlace (sizes : LineSizes)
    (sourceLen destinationLen embeddingLen scratchLen : ℕ) : Except LocalR2rError Unit := do
  ensure (sourceLen = destinationLen) .bufferLengthMismatch
  validateR2rInPlace sizes sourceLen embeddingLen scratchLen

/-! ## Loops over lines -/

section Loops

variable {T C : Type}

/-- What a call leaves: its result, the values and the embedding line. -/
abbrev LineResult (T C : Type) : Type := Except LocalR2rError Unit × List T × List C

/-- A batch out of place: `shortcut` may handle it whole, and `line` gets a line of the source,
the destination's and the embedding line.

SOURCE: r2r.rs:875-916 -/
def forEachOutOfPlaceLine (sizes : LineSizes) (source destination : List T) (embeddingLine : List C)
    (scratchLen : ℕ) (shortcut : List T → List T → Option (List T))
    (line : List T → List T → List C → Option (List T × List C)) :
    Option (LineResult T C) :=
  match validateR2rOutOfPlace sizes source.length destination.length embeddingLine.length
      scratchLen with
  | .error e => some (.error e, destination, embeddingLine)
  | .ok () =>
    if source.isEmpty then some (.ok (), destination, embeddingLine)
    else match shortcut source destination with
      | some destination => some (.ok (), destination, embeddingLine)
      | none => do
        let count := min (source.length / sizes.lineLen) (destination.length / sizes.lineLen)
        let (destination, embeddingLine) ← (List.range count).foldlM (fun s i => do
          let (written, embeddingLine) ←
            line (lineAt sizes.lineLen source i) (lineAt sizes.lineLen s.1 i) s.2
          return (withLine sizes.lineLen s.1 i written, embeddingLine)) (destination, embeddingLine)
        some (.ok (), destination, embeddingLine)

/-- A batch in place.

SOURCE: r2r.rs:918-950 -/
def forEachInPlaceLine (sizes : LineSizes) (data : List T) (embeddingLine : List C)
    (scratchLen : ℕ) (shortcut : List T → Option (List T))
    (line : List T → List C → Option (List T × List C)) :
    Option (LineResult T C) :=
  match validateR2rInPlace sizes data.length embeddingLine.length scratchLen with
  | .error e => some (.error e, data, embeddingLine)
  | .ok () =>
    if data.isEmpty then some (.ok (), data, embeddingLine)
    else match shortcut data with
      | some data => some (.ok (), data, embeddingLine)
      | none => do
        let (data, embeddingLine) ← (List.range (data.length / sizes.lineLen)).foldlM (fun s i => do
          let (written, embeddingLine) ← line (lineAt sizes.lineLen s.1 i) s.2
          return (withLine sizes.lineLen s.1 i written, embeddingLine)) (data, embeddingLine)
        some (.ok (), data, embeddingLine)

end Loops

/-! ## The embedding -/

section Embedding

variable [Field R]

/-- `embedding[p] = value` -/
def put (embedding : Buf (ComplexValue R)) (p : ℕ) (value : ComplexValue R) :
    Option (Buf (ComplexValue R)) :=
  embedding.store 0 embedding.cells.length p value

/-- SOURCE: r2r.rs:750-758 -/
def putPair (embedding : Buf (ComplexValue R)) (p : ℕ) (value : ComplexValue R) (dst : Bool) :
    Option (Buf (ComplexValue R)) := do
  let embedding ← put embedding p value
  let mirror ← checkedSub embedding.cells.length p
  put embedding mirror (if dst then ⟨-value.re, -value.im⟩ else value)

/-- A loop of `put_pair` over values and their numbers. -/
def putPairs (embedding : Buf (ComplexValue R)) (position : ℕ → ℕ) (dst : Bool)
    (values : List (R2rScalar R valueKind × ℕ)) : Option (Buf (ComplexValue R)) :=
  values.foldlM (fun embedding entry =>
    putPair embedding (position entry.2) (toComplex entry.1) dst) embedding

/-- The embedding, which starts out as zeros.

SOURCE: r2r.rs:657-711 -/
def embed (kind : R2rKind) (lineLen embeddingLen : ℕ) (source : List (R2rScalar R valueKind)) :
    Option (Buf (ComplexValue R)) :=
  let embedding := Buf.fresh (List.replicate embeddingLen ⟨0, 0⟩)
  match kind with
  | .dctI => do
    let last ← checkedSub lineLen 1
    let middle ← checkedSub lineLen 2
    let embedding ← put embedding 0 (toComplex (← source[0]?))
    let embedding ← put embedding last (toComplex (← source[last]?))
    putPairs embedding id false ((source.zipIdx.drop 1).take middle)
  | .dctII => putPairs embedding (fun j => 2 * j + 1) false source.zipIdx
  | .dctIII => do
    let embedding ← put embedding 0 (toComplex (← source[0]?))
    putPairs embedding id false (source.zipIdx.drop 1)
  | .dctIV => putPairs embedding (fun j => 2 * j + 1) false source.zipIdx
  | .dstI => putPairs embedding (fun j => j + 1) true source.zipIdx
  | .dstII => putPairs embedding (fun j => 2 * j + 1) true source.zipIdx
  | .dstIII => do
    let last ← checkedSub lineLen 1
    let embedding ← putPairs embedding (fun j => j + 1) true (source.zipIdx.take last)
    put embedding lineLen (toComplex (← source[last]?))
  | .dstIV => putPairs embedding (fun j => 2 * j + 1) true source.zipIdx

/-- SOURCE: r2r.rs:760-766 -/
def outputBin (kind : R2rKind) (k : ℕ) : ℕ :=
  match kind with
  | .dctI | .dctII => k
  | .dctIII | .dctIV | .dstIII | .dstIV => 2 * k + 1
  | .dstI | .dstII => k + 1

/-- SOURCE: r2r.rs:736-744 -/
def outputValue (kind : R2rKind) (scale : Option R) (value : ComplexValue R) : ComplexValue R :=
  let value := if kind.isDst then ⟨-value.im, value.re⟩ else value
  match scale with
  | some scale => ⟨value.re * scale, value.im * scale⟩
  | none => value

/-- What is written to a destination of that length.

SOURCE: r2r.rs:715-747 -/
def writeOutput (kind : R2rKind) (destinationLen : ℕ) (embeddingLine : List (ComplexValue R))
    (scale : Option R) : Option (List (R2rScalar R valueKind)) :=
  (List.range destinationLen).mapM fun k =>
    (embeddingLine[outputBin kind k]?).map fun value => fromComplex (outputValue kind scale value)

end Embedding

/-! ## Plans -/

/-- SOURCE: r2r.rs:287-300 -/
structure LocalR2rPlan (R : Type) (valueKind : ValueKind) where
  lineLen : ℕ
  kind : R2rKind
  embeddingLen : ℕ
  scratchLen : ℕ
  normalizationFactor : ℕ
  fft : FftKernel (ComplexValue R)

namespace LocalR2rPlan

/-- SOURCE: r2r.rs:363-386 -/
def new (planFftForward : ℕ → FftKernel (ComplexValue R)) (realSize : ℕ) (valueKind : ValueKind)
    (lineLen : ℕ) (kind : R2rKind) : Except LocalR2rError (LocalR2rPlan R valueKind) := do
  let (modelLen, normalizationFactor) ← validateLengths realSize valueKind lineLen kind
  let fft := planFftForward modelLen
  let scratchLen := fft.inplaceScratchLen
  validateAddressable scratchLen (ValueKind.complex.size realSize)
  return { lineLen, kind, embeddingLen := modelLen, scratchLen, normalizationFactor, fft }

variable (plan : LocalR2rPlan R valueKind)

def sizes : LineSizes := ⟨plan.lineLen, plan.embeddingLen, plan.scratchLen⟩

variable [Field R]

/-- SOURCE: r2r.rs:657-711 -/
def buildEmbedding (kind : R2rKind) (source : List (R2rScalar R valueKind))
    (embeddingLine : List (ComplexValue R)) : Option (List (ComplexValue R)) := do
  guard (plan.embeddingLen ≤ embeddingLine.length)
  let embedding ← embed kind plan.lineLen plan.embeddingLen source
  return embedding.cells ++ embeddingLine.drop plan.embeddingLen

/-- SOURCE: r2r.rs:631-655 -/
def transformLine (kind : R2rKind) (source : List (R2rScalar R valueKind))
    (embeddingLine : List (ComplexValue R)) (scratchLen : ℕ) : Option (List (ComplexValue R)) := do
  let embeddingLine ← plan.buildEmbedding kind source embeddingLine
  guard (plan.embeddingLen ≤ embeddingLine.length ∧ plan.scratchLen ≤ scratchLen)
  return plan.fft.process plan.embeddingLen (embeddingLine.take plan.embeddingLen)
    ++ embeddingLine.drop plan.embeddingLen

/-- SOURCE: r2r.rs:597-600, 618-621 -/
def line (kind : R2rKind) (scale : Option R) (scratchLen : ℕ)
    (source : List (R2rScalar R valueKind)) (destinationLen : ℕ)
    (embeddingLine : List (ComplexValue R)) :
    Option (List (R2rScalar R valueKind) × List (ComplexValue R)) := do
  let embeddingLine ← plan.transformLine kind source embeddingLine scratchLen
  let destination ← writeOutput kind destinationLen embeddingLine scale
  return (destination, embeddingLine)

/-- SOURCE: r2r.rs:581-602 -/
def executeOutOfPlace (kind : R2rKind) (scale : Option R)
    (src dst : List (R2rScalar R valueKind)) (embeddingLine : List (ComplexValue R))
    (scratchLen : ℕ) : Option (LineResult (R2rScalar R valueKind) (ComplexValue R)) :=
  forEachOutOfPlaceLine plan.sizes src dst embeddingLine scratchLen (fun _ _ => none)
    fun sourceLine destinationLine => plan.line kind scale scratchLen sourceLine
      destinationLine.length

/-- SOURCE: r2r.rs:604-623 -/
def executeInPlace (kind : R2rKind) (scale : Option R) (data : List (R2rScalar R valueKind))
    (embeddingLine : List (ComplexValue R)) (scratchLen : ℕ) :
    Option (LineResult (R2rScalar R valueKind) (ComplexValue R)) :=
  forEachInPlaceLine plan.sizes data embeddingLine scratchLen (fun _ => none)
    fun dataLine => plan.line kind scale scratchLen dataLine dataLine.length

/-- SOURCE: r2r.rs:625-628 -/
def normalizationScale : R := 1 / plan.normalizationFactor

variable (src dst data : List (R2rScalar R valueKind)) (embeddingLine : List (ComplexValue R))
  (scratchLen : ℕ)

/-- SOURCE: r2r.rs:481-489 -/
def forward : Option (LineResult (R2rScalar R valueKind) (ComplexValue R)) :=
  plan.executeOutOfPlace plan.kind none src dst embeddingLine scratchLen

/-- SOURCE: r2r.rs:496-511 -/
def backward : Option (LineResult (R2rScalar R valueKind) (ComplexValue R)) :=
  plan.executeOutOfPlace plan.kind.backwardKind none src dst embeddingLine scratchLen

/-- SOURCE: r2r.rs:518-533 -/
def inverse : Option (LineResult (R2rScalar R valueKind) (ComplexValue R)) :=
  plan.executeOutOfPlace plan.kind.backwardKind (some plan.normalizationScale) src dst embeddingLine
    scratchLen

/-- SOURCE: r2r.rs:541-548 -/
def forwardInPlace : Option (LineResult (R2rScalar R valueKind) (ComplexValue R)) :=
  plan.executeInPlace plan.kind none data embeddingLine scratchLen

/-- SOURCE: r2r.rs:553-560 -/
def backwardInPlace : Option (LineResult (R2rScalar R valueKind) (ComplexValue R)) :=
  plan.executeInPlace plan.kind.backwardKind none data embeddingLine scratchLen

/-- SOURCE: r2r.rs:566-579 -/
def inverseInPlace : Option (LineResult (R2rScalar R valueKind) (ComplexValue R)) :=
  plan.executeInPlace plan.kind.backwardKind (some plan.normalizationScale) data embeddingLine
    scratchLen

end LocalR2rPlan

end R2r

end PencilRs.Model
