import Mathlib.Data.List.TakeDrop
import Mathlib.Data.List.TakeWhile
import Mathlib.Tactic.Ring

/-!
# Fixed-layout byte records

Little- and big-endian integers, byte blocks of a fixed size, and slices of a byte
string at a fixed offset: what a record format made of concatenated fields
needs to be written and read back.

* `encodeLe n v` and `decodeLe` convert between naturals and their `n` low
  bytes (`decodeLe_encodeLe`, `encodeLe_decodeLe`); `encodeBe` and `decodeBe`
  do so with the most significant byte first.
* `Block n` is a byte string that carries the proof of its size.
* `slice offset n bytes` reads a field; `slice_skip` and `slice_head` move it
  through a concatenation, one field at a time.
-/

namespace Wire

/-- A byte string. -/
abbrev Bytes := List UInt8

/-- Byte strings and texts are compared by their elements. -/
instance lawfulBEq_bytes : LawfulBEq (List UInt8) := List.instLawfulBEq

instance lawfulBEq_chars : LawfulBEq (List Char) := List.instLawfulBEq

/-- The bytes of an ASCII text. -/
def bytesOf (text : String) : Bytes := text.toList.map fun c => UInt8.ofNat c.toNat

/-! ## Little-endian integers -/

/-- The `n` low bytes of `v`, least significant first. -/
def encodeLe : Nat → Nat → Bytes
  | 0, _ => []
  | n + 1, v => UInt8.ofNat v :: encodeLe n (v / 256)

/-- The natural number whose little-endian digits are the given bytes. -/
def decodeLe : Bytes → Nat
  | [] => 0
  | b :: bs => b.toNat + 256 * decodeLe bs

@[simp] theorem length_encodeLe (n v : Nat) : (encodeLe n v).length = n := by
  induction n generalizing v with
  | zero => rfl
  | succ n ih => simp [encodeLe, ih]

theorem decodeLe_encodeLe {n v : Nat} (hv : v < 256 ^ n) :
    decodeLe (encodeLe n v) = v := by
  induction n generalizing v with
  | zero =>
      have : v = 0 := by simpa using hv
      simp [encodeLe, decodeLe, this]
  | succ n ih =>
      have hdiv : v / 256 < 256 ^ n := by
        rw [pow_succ] at hv
        omega
      simp only [encodeLe, decodeLe, ih hdiv, UInt8.toNat_ofNat']
      omega

theorem decodeLe_encodeLe_uint64 (v : UInt64) :
    UInt64.ofNat (decodeLe (encodeLe 8 v.toNat)) = v := by
  rw [decodeLe_encodeLe (by have := v.toNat_lt; omega)]
  exact UInt64.ofNat_toNat

theorem decodeLe_lt (bs : Bytes) : decodeLe bs < 256 ^ bs.length := by
  induction bs with
  | nil => simp [decodeLe]
  | cons b bs ih =>
      have hb := b.toNat_lt
      simp only [decodeLe, List.length_cons, pow_succ]
      omega

/-- Reading is canonical: the bytes are exactly the encoding of the value. -/
theorem encodeLe_decodeLe (bs : Bytes) :
    encodeLe bs.length (decodeLe bs) = bs := by
  induction bs with
  | nil => rfl
  | cons b bs ih =>
      have hb := b.toNat_lt
      have hdiv : (b.toNat + 256 * decodeLe bs) / 256 = decodeLe bs := by omega
      have hlow : UInt8.ofNat (b.toNat + 256 * decodeLe bs) = b := by
        apply UInt8.toNat.inj
        simp only [UInt8.toNat_ofNat']
        omega
      simp [encodeLe, decodeLe, hdiv, hlow, ih]

/-! ## Big-endian integers -/

/-- The `n` low bytes of `v`, most significant first. -/
def encodeBe (n v : Nat) : Bytes := (encodeLe n v).reverse

/-- The natural number whose big-endian digits are the given bytes. -/
def decodeBe (bytes : Bytes) : Nat := decodeLe bytes.reverse

@[simp] theorem length_encodeBe (n v : Nat) : (encodeBe n v).length = n := by
  simp [encodeBe]

theorem decodeBe_encodeBe {n v : Nat} (hv : v < 256 ^ n) : decodeBe (encodeBe n v) = v := by
  rw [decodeBe, encodeBe, List.reverse_reverse, decodeLe_encodeLe hv]

/-! ## Blocks of a fixed size -/

/-- A byte string of exactly `n` bytes. -/
structure Block (n : Nat) where
  bytes : Bytes
  length_bytes : bytes.length = n
deriving DecidableEq

attribute [simp] Block.length_bytes

namespace Block

@[ext] theorem ext {n : Nat} {a b : Block n} (h : a.bytes = b.bytes) : a = b := by
  cases a
  cases b
  simpa using h

/-- The block of `n` zero bytes. -/
def zero (n : Nat) : Block n := ⟨List.replicate n 0, by simp⟩

instance (n : Nat) : Inhabited (Block n) := ⟨zero n⟩

/-- The first `n` bytes of a string, padded with zeros where it is shorter. -/
def ofBytes (n : Nat) (bytes : Bytes) : Block n := ⟨bytes.takeD n 0, by simp⟩

theorem ofBytes_bytes {n : Nat} (b : Block n) : ofBytes n b.bytes = b := by
  apply ext
  simp only [ofBytes]
  rw [List.takeD_eq_take]
  · simp [List.take_of_length_le]
  · simp

end Block

/-! ## Slices -/

/-- The `n` bytes that start at `offset`. -/
def slice (offset n : Nat) (bytes : Bytes) : Bytes := (bytes.drop offset).take n

theorem slice_skip {offset n : Nat} {front rest : Bytes} (h : front.length ≤ offset) :
    slice offset n (front ++ rest) = slice (offset - front.length) n rest := by
  simp [slice, List.drop_append, List.drop_eq_nil_of_le h]

theorem slice_head {n : Nat} {front rest : Bytes} (h : front.length = n) :
    slice 0 n (front ++ rest) = front := by
  simp [slice, ← h]

theorem slice_all {n : Nat} {bytes : Bytes} (h : bytes.length = n) :
    slice 0 n bytes = bytes := by
  simp [slice, ← h]

theorem length_slice {offset n : Nat} {bytes : Bytes} (h : offset + n ≤ bytes.length) :
    (slice offset n bytes).length = n := by
  simp [slice]
  omega

/-- Neighbouring slices put together. -/
theorem slice_append_slice {offset m n next : Nat} (hnext : next = offset + m) (bytes : Bytes) :
    slice offset m bytes ++ slice next n bytes = slice offset (m + n) bytes := by
  rw [hnext, slice, slice, slice, List.take_add, List.drop_drop]

theorem encodeLe_decodeLe_slice {offset n : Nat} {bytes : Bytes}
    (h : offset + n ≤ bytes.length) :
    encodeLe n (decodeLe (slice offset n bytes)) = slice offset n bytes := by
  have hencode := encodeLe_decodeLe (slice offset n bytes)
  rwa [length_slice h] at hencode

theorem Block.bytes_ofBytes {n : Nat} {bytes : Bytes} (h : bytes.length = n) :
    (Block.ofBytes n bytes).bytes = bytes := by
  show bytes.takeD n 0 = bytes
  rw [List.takeD_eq_take _ (by omega), List.take_of_length_le (by omega)]

/-- A slice of one byte. -/
theorem slice_one {offset : Nat} {bytes : Bytes} (h : offset + 1 ≤ bytes.length) :
    [(slice offset 1 bytes).headD 0] = slice offset 1 bytes := by
  obtain ⟨b, hb⟩ := List.length_eq_one_iff.mp (length_slice h)
  rw [hb]
  rfl

end Wire
