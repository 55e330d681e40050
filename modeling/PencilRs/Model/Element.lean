import PencilRs.Computation.Bytes
import PencilRs.Model.Machine

/-!
# Elements in files

The element types a file can hold, each with a stable code and a width in bytes.  A value is
its bit pattern, and a complex number a pair of them; in a file the bytes are little-endian.

SOURCE: pencil-io/src/format.rs, catalog.rs, lib.rs
-/

set_option autoImplicit false

namespace PencilRs.Model

open PencilRs.Computation

/-- The errors of file operations. -/
inductive IoError where
  | invalidInput (message : String)
  | invalidPath
  | collectiveDescriptorMismatch
  | collectivePrecondition (phase : String)
  | sizeLimit (what : String)
  | allocationFailed (requested : ℕ)
  | mpi (operation : String) (code : ℤ)
  | metadataMismatch (field : String)
  | invalidFile (reason : String)
  | incompleteFile
  | native (operation : String) (code : ℤ)
  | writeIncomplete (stage : String)
  | commitUncertain (stage : String)
deriving Repr, DecidableEq

/-! ## Protocol constants -/

/-- SOURCE: lib.rs:313 -/
def formatVersion : ℕ := 1

/-- SOURCE: lib.rs:321 -/
def commitMarker : ℕ := 0x434f4d4d49545445

/-- SOURCE: lib.rs:325 -/
def incompleteMarker : ℕ := 0x494e434f4d504c45

/-- SOURCE: lib.rs:329 -/
def maxHeaderBytes : ℕ := 1024 * 1024

/-- SOURCE: lib.rs:337 -/
def maxProtocolRank : ℕ := 1024

/-! ## Scalar types -/

/-- SOURCE: catalog.rs:22-47 -/
inductive ScalarType where
  | i8 | u8 | i16 | u16 | i32 | u32 | i64 | u64 | f32 | f64 | complexF32 | complexF64
deriving Repr, DecidableEq

namespace ScalarType

/-- `CODE`

SOURCE: catalog.rs:50-65, format.rs:50-59, 94-96, 111-113 -/
def code : ScalarType → ℕ
  | i8 => 1
  | u8 => 2
  | i16 => 3
  | u16 => 4
  | i32 => 5
  | u32 => 6
  | i64 => 7
  | u64 => 8
  | f32 => 9
  | f64 => 10
  | complexF32 => 11
  | complexF64 => 12

/-- `WIDTH`

SOURCE: catalog.rs:67-76, format.rs:50-59, 94-96, 111-113 -/
def width : ScalarType → ℕ
  | i8 | u8 => 1
  | i16 | u16 => 2
  | i32 | u32 | f32 => 4
  | i64 | u64 | f64 => 8
  | complexF32 => 8
  | complexF64 => 16

/-- SOURCE: catalog.rs:77-94 -/
def decode (c w : ℕ) : Option ScalarType := do
  let x ← (match c with
    | 1 => some i8
    | 2 => some u8
    | 3 => some i16
    | 4 => some u16
    | 5 => some i32
    | 6 => some u32
    | 7 => some i64
    | 8 => some u64
    | 9 => some f32
    | 10 => some f64
    | 11 => some complexF32
    | 12 => some complexF64
    | _ => none)
  if x.width = w then some x else none

theorem decode_eq_some {c w : ℕ} {x : ScalarType} :
    decode c w = some x ↔ c = x.code ∧ w = x.width := by
  constructor
  · intro h
    obtain ⟨y, hy, hw⟩ := Option.bind_eq_some_iff.mp h
    split at hw
    · obtain rfl : y = x := Option.some.inj hw
      subst_vars
      refine ⟨?_, rfl⟩
      split at hy <;> cases hy <;> rfl
    · contradiction
  · rintro ⟨rfl, rfl⟩
    cases x <;> rfl

/-- The bit pattern of an element. -/
abbrev Value : ScalarType → Type
  | i8 | u8 => BitVec 8
  | i16 | u16 => BitVec 16
  | i32 | u32 | f32 => BitVec 32
  | i64 | u64 | f64 => BitVec 64
  | complexF32 => BitVec 32 × BitVec 32
  | complexF64 => BitVec 64 × BitVec 64

/-- `to_le_bytes` -/
def bitsToLe {w : ℕ} (bytes : ℕ) (value : BitVec w) : List Byte := leBytes bytes value.toNat

/-- `from_le_bytes(bytes.try_into().expect(..))` -/
def bitsFromLe (w count : ℕ) (bytes : List Byte) : Option (BitVec w) :=
  if bytes.length = count then some (BitVec.ofNat w (leValue bytes)) else none

/-- A complex number is read from the front of the bytes. -/
def pairFromLe (w count : ℕ) (bytes : List Byte) : Option (BitVec w × BitVec w) :=
  if 2 * count ≤ bytes.length then do
    let re ← bitsFromLe w count (bytes.take count)
    let im ← bitsFromLe w count ((bytes.drop count).take count)
    return (re, im)
  else none

/-- SOURCE: format.rs:39-41, 98-101, 115-118 -/
def encodeLe : (scalar : ScalarType) → scalar.Value → List Byte
  | i8, value => bitsToLe 1 value
  | u8, value => bitsToLe 1 value
  | i16, value => bitsToLe 2 value
  | u16, value => bitsToLe 2 value
  | i32, value => bitsToLe 4 value
  | u32, value => bitsToLe 4 value
  | f32, value => bitsToLe 4 value
  | i64, value => bitsToLe 8 value
  | u64, value => bitsToLe 8 value
  | f64, value => bitsToLe 8 value
  | complexF32, (re, im) => bitsToLe 4 re ++ bitsToLe 4 im
  | complexF64, (re, im) => bitsToLe 8 re ++ bitsToLe 8 im

/-- SOURCE: format.rs:43-45, 103-107, 120-124 -/
def decodeLe : (scalar : ScalarType) → List Byte → Option scalar.Value
  | i8, bytes => bitsFromLe 8 1 bytes
  | u8, bytes => bitsFromLe 8 1 bytes
  | i16, bytes => bitsFromLe 16 2 bytes
  | u16, bytes => bitsFromLe 16 2 bytes
  | i32, bytes => bitsFromLe 32 4 bytes
  | u32, bytes => bitsFromLe 32 4 bytes
  | f32, bytes => bitsFromLe 32 4 bytes
  | i64, bytes => bitsFromLe 64 8 bytes
  | u64, bytes => bitsFromLe 64 8 bytes
  | f64, bytes => bitsFromLe 64 8 bytes
  | complexF32, bytes => pairFromLe 32 4 bytes
  | complexF64, bytes => pairFromLe 64 8 bytes

@[simp] theorem length_encodeLe (scalar : ScalarType) (value : scalar.Value) :
    (encodeLe scalar value).length = scalar.width := by
  cases scalar <;> simp [encodeLe, bitsToLe, width]

theorem bitsFromLe_bitsToLe {w count : ℕ} (hw : 2 ^ w = 256 ^ count) (value : BitVec w) :
    bitsFromLe w count (bitsToLe count value) = some value := by
  have hlt : value.toNat < 256 ^ count := hw ▸ value.isLt
  unfold bitsFromLe bitsToLe
  rw [if_pos (length_leBytes _ _), leValue_leBytes_of_lt hlt, BitVec.ofNat_toNat,
    BitVec.setWidth_eq]

theorem pairFromLe_bitsToLe {w count : ℕ} (hw : 2 ^ w = 256 ^ count) (re im : BitVec w) :
    pairFromLe w count (bitsToLe count re ++ bitsToLe count im) = some (re, im) := by
  have htake : (bitsToLe count re ++ bitsToLe count im).take count = bitsToLe count re :=
    List.take_left' (length_leBytes _ _)
  have hdrop : (bitsToLe count re ++ bitsToLe count im).drop count = bitsToLe count im :=
    List.drop_left' (length_leBytes _ _)
  have hrest : (bitsToLe count im).take count = bitsToLe count im :=
    List.take_of_length_le (length_leBytes _ _).le
  unfold pairFromLe
  rw [if_pos (by simp [bitsToLe, Nat.two_mul]), htake, hdrop, hrest, bitsFromLe_bitsToLe hw,
    bitsFromLe_bitsToLe hw]
  rfl

/-- **An element** is read back as it was written, bit by bit. -/
theorem decodeLe_encodeLe (scalar : ScalarType) (value : scalar.Value) :
    decodeLe scalar (encodeLe scalar value) = some value := by
  cases scalar with
  | complexF32 => exact pairFromLe_bitsToLe rfl value.1 value.2
  | complexF64 => exact pairFromLe_bitsToLe rfl value.1 value.2
  | _ => exact bitsFromLe_bitsToLe rfl _

end ScalarType

end PencilRs.Model
