import PencilRs.Computation.Buffer
import PencilRs.Model.Machine

/-!
# Local batches of one-dimensional transforms

A local plan transforms every line of a buffer of consecutive lines.  The transform of one line
is the work of an FFT library; it is a parameter here, with the scratch lengths the library
asks for.  Scratch is a length: what it holds before a call is not read.

SOURCE: pencil-fft/src/lib.rs, backend.rs, distributed.rs
-/

set_option autoImplicit false

namespace PencilRs.Model

/-- SOURCE: lib.rs:337-360 -/
inductive LocalC2cError where
  | invalidLength
  | lengthOverflow
  | nonIntegralBatch
  | bufferLengthMismatch
  | scratchTooSmall (required actual : ℕ)
deriving Repr, DecidableEq

/-- A planned transform of an FFT library. -/
structure FftKernel (K : Type) where
  transform : List K → List K
  immutableScratchLen : ℕ
  inplaceScratchLen : ℕ
  length_transform : ∀ line, (transform line).length = line.length

inductive FftDirection where
  | forward
  | inverse
deriving Repr, DecidableEq

variable {K : Type}

/-- `process_immutable_with_scratch` and `process_with_scratch`: the buffer is cut into lines and
each is transformed. -/
def FftKernel.process (fft : FftKernel K) (lineLen : ℕ) (data : List K) : List K :=
  (List.range (data.length / lineLen)).flatMap fun line =>
    fft.transform ((data.drop (line * lineLen)).take lineLen)

/-- SOURCE: lib.rs:367-375 -/
structure LocalC2cPlan (K : Type) where
  lineLen : ℕ
  scratchLen : ℕ
  forwardFft : FftKernel K
  backwardFft : FftKernel K

/-- SOURCE: lib.rs:666-670 -/
def isAddressable (length elementSize : ℕ) : Bool :=
  match checkedMul length elementSize with
  | some bytes => bytes < usizeLimit / 2
  | none => false

/-- SOURCE: lib.rs:654-663 -/
def validateLineLen (complexSize lineLen : ℕ) : Except LocalC2cError Unit := do
  ensure (lineLen ≠ 0) .invalidLength
  ensure (isAddressable lineLen complexSize) .lengthOverflow

/-! ## Backends -/

inductive PlanningRigor where
  | estimate
  | measure
  | patient
  | exhaustive
deriving Repr, DecidableEq

/-- SOURCE: pencil-fftw/src/lib.rs:45-51 -/
structure PlanOptions where
  rigor : PlanningRigor
  /-- Seconds and nanoseconds. -/
  timeLimit : Option (ℕ × ℕ)
  threads : ℕ
  wisdomOnly : Bool
  conserveMemory : Bool
deriving Repr, DecidableEq

/-- SOURCE: pencil-fftw/src/lib.rs:137-150 -/
inductive FftwError where
  | load (message : String)
  | symbol (message : String)
  | invalidOptions (message : String)
  | overflow
  | nullPlan
  | allocation
deriving Repr, DecidableEq

/-- SOURCE: distributed.rs:159-164 -/
inductive BackendChoice where
  | rustFft
  | fftw (options : PlanOptions)
deriving Repr, DecidableEq

/-- SOURCE: backend.rs:21-32 -/
inductive BackendInitError (ε : Type) where
  | local (error : ε)
  | native (error : FftwError)
  | peerPreflight
deriving Repr, DecidableEq

/-- The planners of the FFT libraries. -/
structure FftLibraries (K : Type) where
  rustFft : ℕ → FftDirection → FftKernel K
  fftw : PlanOptions → ℕ → FftDirection → Except FftwError (FftKernel K)

namespace LocalC2cPlan

/-- SOURCE: lib.rs:398-425 -/
def fromPlans (lineLen : ℕ) (positiveForward : Bool) (forward inverse : FftKernel K) :
    LocalC2cPlan K :=
  let (forward, backward) := if positiveForward then (inverse, forward) else (forward, inverse)
  { lineLen
    scratchLen := max (max (max forward.immutableScratchLen forward.inplaceScratchLen)
      backward.immutableScratchLen) backward.inplaceScratchLen
    forwardFft := forward
    backwardFft := backward }

/-- SOURCE: lib.rs:427-446 -/
def newWithSign (libraries : FftLibraries K) (complexSize lineLen : ℕ) (positiveForward : Bool) :
    Except LocalC2cError (LocalC2cPlan K) := do
  validateLineLen complexSize lineLen
  return fromPlans lineLen positiveForward (libraries.rustFft lineLen .forward)
    (libraries.rustFft lineLen .inverse)

/-- SOURCE: lib.rs:457-475 -/
def newFftwWithSign (libraries : FftLibraries K) (complexSize lineLen : ℕ)
    (positiveForward : Bool) (options : PlanOptions) :
    Except (BackendInitError LocalC2cError) (LocalC2cPlan K) := do
  (validateLineLen complexSize lineLen).mapError .local
  let forward ← (libraries.fftw options lineLen .forward).mapError .native
  let inverse ← (libraries.fftw options lineLen .inverse).mapError .native
  return fromPlans lineLen positiveForward forward inverse

variable (plan : LocalC2cPlan K)

/-- SOURCE: lib.rs:636-641 -/
def validateBatch (bufferLen : ℕ) : Except LocalC2cError Unit :=
  ensure (bufferLen % plan.lineLen = 0) .nonIntegralBatch

/-- SOURCE: lib.rs:643-651 -/
def validateScratch (actual : ℕ) : Except LocalC2cError Unit :=
  ensure (plan.scratchLen ≤ actual) (.scratchTooSmall plan.scratchLen actual)

/-- SOURCE: lib.rs:618-629 -/
def validateOutOfPlace (srcLen dstLen scratchLen : ℕ) : Except LocalC2cError Unit := do
  ensure (srcLen = dstLen) .bufferLengthMismatch
  plan.validateBatch srcLen
  plan.validateScratch scratchLen

/-- SOURCE: lib.rs:631-634 -/
def validateInPlace (dataLen scratchLen : ℕ) : Except LocalC2cError Unit := do
  plan.validateBatch dataLen
  plan.validateScratch scratchLen

/-- A transform of `src` into `dst`; the result is what `dst` holds afterwards.

SOURCE: lib.rs:506-549 -/
def processOutOfPlace (fft : FftKernel K) (src dst : List K) (scratchLen : ℕ) :
    Except LocalC2cError (List K) := do
  plan.validateOutOfPlace src.length dst.length scratchLen
  return if src.isEmpty then dst else fft.process plan.lineLen src

/-- SOURCE: lib.rs:567-606 -/
def processInPlace (fft : FftKernel K) (data : List K) (scratchLen : ℕ) :
    Except LocalC2cError (List K) := do
  plan.validateInPlace data.length scratchLen
  return if data.isEmpty then data else fft.process plan.lineLen data

/-- SOURCE: lib.rs:506-520 -/
def forward (src dst : List K) (scratchLen : ℕ) : Except LocalC2cError (List K) :=
  plan.processOutOfPlace plan.forwardFft src dst scratchLen

/-- SOURCE: lib.rs:528-542 -/
def backward (src dst : List K) (scratchLen : ℕ) : Except LocalC2cError (List K) :=
  plan.processOutOfPlace plan.backwardFft src dst scratchLen

/-- SOURCE: lib.rs:567-580 -/
def forwardInPlace (data : List K) (scratchLen : ℕ) : Except LocalC2cError (List K) :=
  plan.processInPlace plan.forwardFft data scratchLen

/-- SOURCE: lib.rs:587-600 -/
def backwardInPlace (data : List K) (scratchLen : ℕ) : Except LocalC2cError (List K) :=
  plan.processInPlace plan.backwardFft data scratchLen

variable [Field K]

/-- SOURCE: lib.rs:240-248 -/
def normalizeInverse (values : List K) (lineLen : ℕ) : List K :=
  let scale : K := 1 / lineLen
  values.map fun value => value * scale

/-- SOURCE: lib.rs:551-560 -/
def inverse (src dst : List K) (scratchLen : ℕ) : Except LocalC2cError (List K) := do
  let dst ← plan.backward src dst scratchLen
  return normalizeInverse dst plan.lineLen

/-- SOURCE: lib.rs:608-616 -/
def inverseInPlace (data : List K) (scratchLen : ℕ) : Except LocalC2cError (List K) := do
  let data ← plan.backwardInPlace data scratchLen
  return normalizeInverse data plan.lineLen

end LocalC2cPlan

end PencilRs.Model
