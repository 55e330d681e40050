import PencilRs.Model.FftRoute

/-!
# Transforms along an axis of the local block

The elements of a line along an axis lie a stride apart in memory.  Where the stride is one, the
block is a batch of lines; elsewhere each line is copied to a line buffer, transformed there and
copied back.  The line buffer is a length here: a line is copied over all of it that is used.

SOURCE: pencil-fft/src/distributed.rs
-/

set_option autoImplicit false

namespace PencilRs.Model

open PencilRs.Computation

variable {N M : ℕ} {K ε : Type}

/-- SOURCE: distributed.rs:2569-2587 -/
def memoryStride (pencil : Pencil N M) (axis : ℕ) : Except FftError ℕ := do
  let position ← okOr ((List.finRange N).find? fun position =>
    (pencil.permutation.axesInMemoryOrder position : ℕ) = axis) .preparationFailed
  let stride ← ((List.ofFn pencil.localShapeMemory).drop (position + 1)).foldlM
    (fun stride extent => okOr (checkedMul stride extent) .preparationFailed) 1
  return if pencil.localLen = 0 then 0 else stride

/-- SOURCE: distributed.rs:2589-2603 -/
def stridedLineCount (dataLen lineLen stride : ℕ) : Except FftError ℕ :=
  if stride = 0 then
    if dataLen = 0 then .ok 0 else .error .preparationFailed
  else do
    let block ← okOr (checkedMul lineLen stride) .preparationFailed
    ensure (dataLen % block = 0) (.localC2c .nonIntegralBatch)
    return dataLen / block

/-! ## One line -/

/-- `line_buffer[k] = source[base + k * stride + inner]` for all `k`. -/
def gatherLine (source : List K) (base lineLen stride inner : ℕ) : Option (List K) :=
  (List.range lineLen).mapM fun k => source[base + k * stride + inner]?

/-- `destination[base + k * stride + inner] = line_buffer[k]` for all `k`. -/
def scatterLine (destination : List K) (base stride inner : ℕ) (line : List K) :
    Option (List K) :=
  line.zipIdx.foldlM (fun destination (value, k) =>
    if base + k * stride + inner < destination.length then
      some (destination.set (base + k * stride + inner) value)
    else none) destination

/-- One line: `read` says where its elements are taken from. -/
def stridedLineStep (read : List K → List K) (lineBufferLen lineLen stride base : ℕ)
    (transform : List K → Except (Stop ε) (List K)) (destination : List K) (inner : ℕ) :
    Except (Stop ε) (List K) := do
  let line ← okOr (gatherLine (read destination) base lineLen stride inner) .panic
  ensure (lineLen ≤ lineBufferLen) .panic
  let line ← transform line
  okOr (scatterLine destination base stride inner line) .panic

/-- The two loops over lines. -/
def stridedLines (lift : FftError → ε) (read : List K → List K) (destination : List K)
    (lineBufferLen count lineLen stride : ℕ)
    (transform : List K → Except (Stop ε) (List K)) : Except (Stop ε) (List K) := do
  let block ← okOr (checkedMul lineLen stride) (.error (lift .preparationFailed))
  (List.range count).foldlM (fun destination outer => do
    let base ← okOr (checkedMul outer block) (.error (lift .preparationFailed))
    (List.range stride).foldlM (stridedLineStep read lineBufferLen lineLen stride base transform)
      destination) destination

/-- SOURCE: distributed.rs:2605-2638 -/
def forEachStridedLine (lift : FftError → ε) (source destination : List K)
    (lineBufferLen count lineLen stride : ℕ)
    (transform : List K → Except (Stop ε) (List K)) : Except (Stop ε) (List K) :=
  stridedLines lift (fun _ => source) destination lineBufferLen count lineLen stride transform

/-- SOURCE: distributed.rs:2640-2667 -/
def forEachStridedLineInPlace (lift : FftError → ε) (data : List K)
    (lineBufferLen count lineLen stride : ℕ)
    (transform : List K → Except (Stop ε) (List K)) : Except (Stop ε) (List K) :=
  stridedLines lift id data lineBufferLen count lineLen stride transform

/-! ## All lines -/

/-- What a transform family reports where the buffers of a strided transform do not fit. -/
structure StridedErrors (ε : Type) where
  lift : FftError → ε
  lineBuffer : String
  lengthMismatch : ε

/-- SOURCE: distributed.rs:2784-2793 -/
def validateStridedLineBuffer (errors : StridedErrors ε) (actual required : ℕ) :
    Except (Stop ε) Unit :=
  ensure (required ≤ actual)
    (.error (errors.lift (.workspaceTooSmall errors.lineBuffer required actual)))

/-- A transform of `source` along the axis, into `destination`: `batch` transforms a batch of
lines and `line` one line in place.  `emptyBatch` says whether an empty block is left to
`batch`. -/
def executeStrided (errors : StridedErrors ε) (emptyBatch : Bool) (pencil : Pencil N M)
    (axis lineLen lineBufferLen : ℕ) (batch : List K → List K → Except (Stop ε) (List K))
    (line : List K → Except (Stop ε) (List K)) (source destination : List K) :
    Except (Stop ε) (List K) := do
  let stride ← (memoryStride pencil axis).mapError fun e => .error (errors.lift e)
  if stride ≤ 1 then batch source destination
  else do
    validateStridedLineBuffer errors lineBufferLen lineLen
    let count ← (stridedLineCount source.length lineLen stride).mapError fun e =>
      .error (errors.lift e)
    ensure (destination.length = source.length) (.error errors.lengthMismatch)
    if emptyBatch && source.isEmpty then batch source destination
    else forEachStridedLine errors.lift source destination lineBufferLen count lineLen stride line

/-- The same in place. -/
def executeStridedInPlace (errors : StridedErrors ε) (emptyBatch : Bool) (pencil : Pencil N M)
    (axis lineLen lineBufferLen : ℕ) (batch line : List K → Except (Stop ε) (List K))
    (data : List K) : Except (Stop ε) (List K) := do
  let stride ← (memoryStride pencil axis).mapError fun e => .error (errors.lift e)
  if stride ≤ 1 then batch data
  else do
    validateStridedLineBuffer errors lineBufferLen lineLen
    let count ← (stridedLineCount data.length lineLen stride).mapError fun e =>
      .error (errors.lift e)
    if emptyBatch && data.isEmpty then batch data
    else forEachStridedLineInPlace errors.lift data lineBufferLen count lineLen stride line

/-! ## Complex lines -/

section Complex

variable [Field K] (plan : LocalC2cPlan K) (pencil : Pencil N M) (axis scratchLen lineLen : ℕ)

/-- `map_err(FftError::LocalC2c)` -/
def ofLocalC2c {β : Type} (result : Except LocalC2cError β) : Except (Stop FftError) β :=
  result.mapError fun e => .error (.localC2c e)

def complexErrors : StridedErrors FftError where
  lift := id
  lineBuffer := "complex line"
  lengthMismatch := .localC2c .bufferLengthMismatch

/-- SOURCE: distributed.rs:2795-2832 -/
def executeStridedComplexForward : List K → List K → Except (Stop FftError) (List K) :=
  executeStrided complexErrors true pencil axis plan.lineLen lineLen
    (fun source destination => ofLocalC2c (plan.forward source destination scratchLen))
    fun line => ofLocalC2c (plan.forwardInPlace line scratchLen)

/-- SOURCE: distributed.rs:2834-2859 -/
def executeStridedComplexForwardInPlace : List K → Except (Stop FftError) (List K) :=
  executeStridedInPlace complexErrors true pencil axis plan.lineLen lineLen
    (fun data => ofLocalC2c (plan.forwardInPlace data scratchLen))
    fun line => ofLocalC2c (plan.forwardInPlace line scratchLen)

/-- SOURCE: distributed.rs:2861-2909 -/
def executeStridedComplexReverse (normalize : Bool) :
    List K → List K → Except (Stop FftError) (List K) :=
  executeStrided complexErrors true pencil axis plan.lineLen lineLen
    (fun source destination => ofLocalC2c (if normalize then
      plan.inverse source destination scratchLen else plan.backward source destination scratchLen))
    fun line => ofLocalC2c (if normalize then
      plan.inverseInPlace line scratchLen else plan.backwardInPlace line scratchLen)

/-- SOURCE: distributed.rs:2911-2947 -/
def executeStridedComplexReverseInPlace (normalize : Bool) :
    List K → Except (Stop FftError) (List K) :=
  executeStridedInPlace complexErrors true pencil axis plan.lineLen lineLen
    (fun data => ofLocalC2c (if normalize then
      plan.inverseInPlace data scratchLen else plan.backwardInPlace data scratchLen))
    fun line => ofLocalC2c (if normalize then
      plan.inverseInPlace line scratchLen else plan.backwardInPlace line scratchLen)

end Complex

end PencilRs.Model
