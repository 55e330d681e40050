import Mathlib.Tactic
import PencilRs.Computation.Literals

/-!
# Little-endian numbers in byte strings

A number of `width` bytes, least significant byte first, and a string of such numbers.  Reading
back what was written gives the number modulo the width, and writing what was read gives the
bytes.  A block of bytes can be overwritten in place; consecutive numbers that overwrite a block
leave the string of these numbers.
-/

set_option autoImplicit false

namespace PencilRs.Computation

abbrev Byte : Type := BitVec 8

/-- The number with these bytes. -/
def leValue : List Byte → ℕ
  | [] => 0
  | b :: bytes => b.toNat + 256 * leValue bytes

/-- The bytes of a number, cut to `width` bytes. -/
def leBytes : ℕ → ℕ → List Byte
  | 0, _ => []
  | width + 1, n => BitVec.ofNat 8 n :: leBytes width (n / 256)

@[simp] theorem length_leBytes (width n : ℕ) : (leBytes width n).length = width := by
  induction width generalizing n with
  | zero => rfl
  | succ width ih => rw [leBytes, List.length_cons, ih]

theorem leValue_lt (bytes : List Byte) : leValue bytes < 256 ^ bytes.length := by
  induction bytes with
  | nil => exact Nat.one_pos
  | cons b bytes ih =>
    have hb : b.toNat < 256 := b.isLt
    rw [leValue, List.length_cons, Nat.pow_succ]
    omega

theorem leValue_leBytes (width n : ℕ) : leValue (leBytes width n) = n % 256 ^ width := by
  induction width generalizing n with
  | zero => simp [leBytes, leValue, Nat.mod_one]
  | succ width ih =>
    have hsplit : n % 256 ^ (width + 1) = n % 256 + 256 * (n / 256 % 256 ^ width) := by
      rw [Nat.pow_succ, Nat.mul_comm (256 ^ width), Nat.mod_mul]
    rw [hsplit, leBytes, leValue, ih, BitVec.toNat_ofNat]

/-- **Reading back** a number that fits. -/
theorem leValue_leBytes_of_lt {width n : ℕ} (h : n < 256 ^ width) :
    leValue (leBytes width n) = n := by
  rw [leValue_leBytes, Nat.mod_eq_of_lt h]

/-- **Writing again** what was read. -/
theorem leBytes_leValue (bytes : List Byte) : leBytes bytes.length (leValue bytes) = bytes := by
  induction bytes with
  | nil => rfl
  | cons b bytes ih =>
    have hb : b.toNat < 256 := b.isLt
    rw [List.length_cons, leBytes, leValue]
    have hlow : BitVec.ofNat 8 (b.toNat + 256 * leValue bytes) = b := by
      apply BitVec.eq_of_toNat_eq
      rw [BitVec.toNat_ofNat]
      omega
    have hhigh : (b.toNat + 256 * leValue bytes) / 256 = leValue bytes := by omega
    rw [hlow, hhigh, ih]

/-! ## Strings of numbers -/

/-- The numbers one after another, `width` bytes each. -/
def leString (width : ℕ) (values : List ℕ) : List Byte := values.flatMap (leBytes width)

/-- `count` numbers of `width` bytes each. -/
def leWords (width : ℕ) : ℕ → List Byte → List ℕ
  | 0, _ => []
  | count + 1, bytes => leValue (bytes.take width) :: leWords width count (bytes.drop width)

@[simp] theorem leString_nil (width : ℕ) : leString width [] = [] := rfl

theorem leString_cons (width value : ℕ) (values : List ℕ) :
    leString width (value :: values) = leBytes width value ++ leString width values := rfl

theorem leString_append (width : ℕ) (values more : List ℕ) :
    leString width (values ++ more) = leString width values ++ leString width more :=
  List.flatMap_append

@[simp] theorem length_leString (width : ℕ) (values : List ℕ) :
    (leString width values).length = width * values.length := by
  induction values with
  | nil => rfl
  | cons value values ih =>
    rw [leString_cons, List.length_append, length_leBytes, ih, List.length_cons, Nat.mul_succ,
      Nat.add_comm]

@[simp] theorem length_leWords (width count : ℕ) (bytes : List Byte) :
    (leWords width count bytes).length = count := by
  induction count generalizing bytes with
  | zero => rfl
  | succ count ih => rw [leWords, List.length_cons, ih]

theorem leWords_lt {width count : ℕ} {bytes : List Byte} :
    ∀ value ∈ leWords width count bytes, value < 256 ^ width := by
  induction count generalizing bytes with
  | zero => exact fun _ h => absurd h List.not_mem_nil
  | succ count ih =>
    intro value hvalue
    rw [leWords] at hvalue
    cases List.mem_cons.mp hvalue with
    | inl h =>
      rw [h]
      exact (leValue_lt _).trans_le (Nat.pow_le_pow_right (by omega) (by simp))
    | inr h => exact ih value h

/-- Numbers are read one part after another. -/
theorem leWords_add (width a b : ℕ) (bytes : List Byte) :
    leWords width (a + b) bytes = leWords width a bytes ++ leWords width b (bytes.drop (width * a)) := by
  induction a generalizing bytes with
  | zero => simp [leWords]
  | succ a ih =>
    rw [show a + 1 + b = (a + b) + 1 by omega, leWords, leWords, ih, List.drop_drop,
      List.cons_append, Nat.mul_succ, Nat.add_comm width]

/-- Bytes after the numbers do not matter. -/
theorem leWords_take {width count n : ℕ} {bytes : List Byte} (h : width * count ≤ n) :
    leWords width count (bytes.take n) = leWords width count bytes := by
  induction count generalizing n bytes with
  | zero => rfl
  | succ count ih =>
    rw [Nat.mul_succ] at h
    rw [leWords, leWords, List.take_take, Nat.min_eq_left (by omega), List.drop_take,
      ih (by omega)]

theorem getElem?_leWords {width count i : ℕ} (bytes : List Byte) (h : i < count) :
    (leWords width count bytes)[i]? = some (leValue ((bytes.drop (width * i)).take width)) := by
  induction i generalizing count bytes with
  | zero =>
    cases count with
    | zero => omega
    | succ count => rfl
  | succ i ih =>
    cases count with
    | zero => omega
    | succ count =>
      rw [leWords, List.getElem?_cons_succ, ih _ (by omega), List.drop_drop, Nat.mul_succ,
        Nat.add_comm width]

/-- **Reading back** a string of numbers that fit, whatever follows it. -/
theorem leWords_leString {width : ℕ} {values : List ℕ} (h : ∀ value ∈ values, value < 256 ^ width)
    (rest : List Byte) : leWords width values.length (leString width values ++ rest) = values := by
  induction values with
  | nil => rfl
  | cons value values ih =>
    rw [List.length_cons, leWords, leString_cons, List.append_assoc]
    have htake : (leBytes width value ++ (leString width values ++ rest)).take width
        = leBytes width value := List.take_left' (length_leBytes width value)
    have hdrop : (leBytes width value ++ (leString width values ++ rest)).drop width
        = leString width values ++ rest := List.drop_left' (length_leBytes width value)
    rw [htake, hdrop, leValue_leBytes_of_lt (h value List.mem_cons_self),
      ih fun v hv => h v (List.mem_cons_of_mem _ hv)]

theorem leString_inj {width : ℕ} {values others : List ℕ} (hlen : values.length = others.length)
    (hvalues : ∀ value ∈ values, value < 256 ^ width)
    (hothers : ∀ value ∈ others, value < 256 ^ width)
    (heq : leString width values = leString width others) : values = others := by
  rw [← leWords_leString hvalues [], heq, hlen, leWords_leString hothers []]

/-- **Writing again** a string that was read. -/
theorem leString_leWords {width count : ℕ} {bytes : List Byte} (h : bytes.length = width * count) :
    leString width (leWords width count bytes) = bytes := by
  induction count generalizing bytes with
  | zero =>
    rw [Nat.mul_zero] at h
    rw [List.eq_nil_of_length_eq_zero h]
    rfl
  | succ count ih =>
    rw [Nat.mul_succ] at h
    have htake : (bytes.take width).length = width := by
      rw [List.length_take]
      omega
    have hdrop : (bytes.drop width).length = width * count := by
      rw [List.length_drop]
      omega
    have hfirst : leBytes width (leValue (bytes.take width)) = bytes.take width := by
      have := leBytes_leValue (bytes.take width)
      rwa [htake] at this
    rw [leWords, leString_cons, ih hdrop, hfirst, List.take_append_drop]

/-! ## Overwriting -/

/-- Overwrite the bytes from `offset` on. -/
def splice (bytes : List Byte) (offset : ℕ) (block : List Byte) : List Byte :=
  bytes.take offset ++ block ++ bytes.drop (offset + block.length)

theorem length_splice {bytes : List Byte} {offset : ℕ} {block : List Byte}
    (h : offset + block.length ≤ bytes.length) : (splice bytes offset block).length = bytes.length := by
  unfold splice
  simp only [List.length_append, List.length_take, List.length_drop]
  omega

/-- Bytes before the block stay. -/
theorem take_splice {bytes : List Byte} {offset : ℕ} (block : List Byte)
    (h : offset ≤ bytes.length) : (splice bytes offset block).take offset = bytes.take offset := by
  unfold splice
  rw [List.append_assoc, List.take_append_of_le_length (by simp [h])]
  simp

/-- A block that is overwritten by another of its length is gone. -/
theorem splice_append {front old block back : List Byte} (h : block.length = old.length) :
    splice (front ++ old ++ back) front.length block = front ++ block ++ back := by
  have htake : (front ++ old ++ back).take front.length = front := by
    rw [List.append_assoc]
    exact List.take_left
  have hdrop : (front ++ old ++ back).drop (front.length + old.length) = back :=
    List.drop_left' (by rw [List.length_append])
  unfold splice
  rw [h, htake, hdrop]

end PencilRs.Computation
