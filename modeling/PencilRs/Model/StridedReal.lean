import PencilRs.Model.LocalR2c
import PencilRs.Model.StridedLines

/-!
# Real transforms along an axis

A line of real values becomes a shorter line of complex values, or the other way round, so that
the lines of the source and those of the destination lie in blocks of different lengths.

SOURCE: pencil-fft/src/distributed.rs, distributed/r2c.rs
-/

set_option autoImplicit false

namespace PencilRs.Model

open PencilRs.Computation

variable {N M : ℕ} {K L σ ε : Type}

/-- One line: the destination, the buffer that a line of it is written from, and what else the
transform changes. -/
def differingLineStep (source : List K) (sourceLineLen stride sourceBase destinationBase : ℕ)
    (transform : List K → List L → σ → Except (Stop ε) (List L × σ))
    (s : List L × List L × σ) (inner : ℕ) : Except (Stop ε) (List L × List L × σ) := do
  let line ← okOr (gatherLine source sourceBase sourceLineLen stride inner) .panic
  let (destinationLine, rest) ← transform line s.2.1 s.2.2
  let destination ← okOr (scatterLine s.1 destinationBase stride inner destinationLine) .panic
  return (destination, destinationLine, rest)

/-- SOURCE: distributed.rs:2669-2713 -/
def forEachStridedLineDiffering (lift : FftError → ε) (source : List K) (destination : List L)
    (sourceLineLen : ℕ) (destinationLine : List L) (count stride : ℕ)
    (transform : List K → List L → σ → Except (Stop ε) (List L × σ)) (rest : σ) :
    Except (Stop ε) (List L × List L × σ) := do
  let sourceBlock ← okOr (checkedMul sourceLineLen stride) (.error (lift .preparationFailed))
  let destinationBlock ← okOr (checkedMul destinationLine.length stride)
    (.error (lift .preparationFailed))
  (List.range count).foldlM (fun s outer => do
    let sourceBase ← okOr (checkedMul outer sourceBlock) (.error (lift .preparationFailed))
    let destinationBase ← okOr (checkedMul outer destinationBlock)
      (.error (lift .preparationFailed))
    (List.range stride).foldlM (differingLineStep source sourceLineLen stride sourceBase
      destinationBase transform) s) (destination, destinationLine, rest)

namespace R2c

open R2r (ComplexValue)

variable {R : Type}

/-- The errors of these calls.

SOURCE: distributed.rs:438-460 -/
inductive R2cError where
  | fft (error : FftError)
  | localR2c (error : LocalR2cError)
  | invalidSpectrum
deriving Repr, DecidableEq

/-- `map_err(R2cError::LocalR2c)`, with what a call that returns has borrowed. -/
def completed {τ : Type} : LocalR2cPlan.Outcome τ → Except (Stop R2cError) τ
  | (.ok (), s) => .ok s
  | (.error (.error e), _) => .error (.error (.localR2c e))
  | (.error .panic, _) => .error .panic

/-- A transform of `source` along the axis into lines of another length: `batch` transforms a batch
of lines and also a single one.  The result is the destination, its line buffer and what else the
transform changes. -/
def executeStridedDiffering (kind : String) (pencil : Pencil N M)
    (axis sourceLen destinationLen sourceLineLen : ℕ)
    (batch : List K → List L → σ → Except (Stop R2cError) (List L × σ)) (source : List K)
    (destinationLine destination : List L) (rest : σ) :
    Except (Stop R2cError) (List L × List L × σ) := do
  let stride ← (memoryStride pencil axis).mapError fun e => .error (.fft e)
  if stride ≤ 1 then
    let (destination, rest) ← batch source destination rest
    return (destination, destinationLine, rest)
  else do
    ensure (sourceLen ≤ sourceLineLen && destinationLen ≤ destinationLine.length)
      (.error (.fft (.workspaceTooSmall kind (max sourceLen destinationLen)
        (min sourceLineLen destinationLine.length))))
    let count ← (stridedLineCount source.length sourceLen stride).mapError fun e =>
      .error (.fft e)
    let required ← okOr ((checkedMul count destinationLen).bind (checkedMul · stride))
      (.error (.fft .preparationFailed))
    ensure (destination.length = required) (.error (.fft .preparationFailed))
    let (destination, line, rest) ← forEachStridedLineDiffering R2cError.fft source destination
      sourceLen (destinationLine.take destinationLen) count stride batch rest
    return (destination, line ++ destinationLine.drop destinationLen, rest)

variable (plan : LocalR2cPlan R) (pencil : Pencil N M) (axis : ℕ)

/-- The forward transform of rows, with the real line and the scratch. -/
def forwardBatch (source : List R) (destination : List (ComplexValue R))
    (rest : List R × List (ComplexValue R)) :
    Except (Stop R2cError) (List (ComplexValue R) × List R × List (ComplexValue R)) := do
  let done ← completed (plan.forward source ⟨destination, rest.1, rest.2⟩)
  return (done.dst, done.realLine, done.scratch)

/-- SOURCE: distributed/r2c.rs:1522-1572 -/
def executeStridedRealForward (source : List R) (realSourceLineLen : ℕ)
    (complexLine destination : List (ComplexValue R)) (rest : List R × List (ComplexValue R)) :
    Except (Stop R2cError)
      (List (ComplexValue R) × List (ComplexValue R) × List R × List (ComplexValue R)) :=
  executeStridedDiffering "real/complex line" pencil axis plan.realLen plan.complexLen
    realSourceLineLen (forwardBatch plan) source complexLine destination rest

section Reverse

variable [Field R] [DecidableEq R]

/-- A transform of rows back, with the complex line and the scratch. -/
def reverseBatch (normalize : Bool) (source : List (ComplexValue R)) (destination : List R)
    (rest : List (ComplexValue R) × List (ComplexValue R)) :
    Except (Stop R2cError) (List R × List (ComplexValue R) × List (ComplexValue R)) := do
  let done ← completed (if normalize then plan.inverse source ⟨destination, rest.1, rest.2⟩
    else plan.backward source ⟨destination, rest.1, rest.2⟩)
  return (done.dst, done.complexLine, done.scratch)

/-- SOURCE: distributed/r2c.rs:1574-1632 -/
def executeStridedRealReverse (normalize : Bool) (source : List (ComplexValue R))
    (complexSourceLineLen : ℕ) (realLine destination : List R)
    (rest : List (ComplexValue R) × List (ComplexValue R)) :
    Except (Stop R2cError) (List R × List R × List (ComplexValue R) × List (ComplexValue R)) :=
  executeStridedDiffering "complex/real line" pencil axis plan.complexLen plan.realLen
    complexSourceLineLen (reverseBatch plan normalize) source realLine destination rest

end Reverse

end R2c

end PencilRs.Model
