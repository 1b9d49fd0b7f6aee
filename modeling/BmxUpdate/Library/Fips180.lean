import Mathlib.Data.BitVec
import Mathlib.Data.Nat.Prime.Basic
import Mathlib.Tactic.Linarith
import Mathlib.Tactic.Ring

/-!
# The secure hash standard

SHA-256 as FIPS 180-4 defines it: on bit strings, with the functions, constants and
equations of the standard.

- Bit strings and words: `valueOf`, `bitsOf`.
- The functions, the constants and the message schedule.
- Padding, the blocks of a padded message and the digest.
-/

namespace Fips180

/-! ## Bit strings -/

/-- A bit string, leftmost bit first. -/
abbrev Bits := List Bool

abbrev Word := BitVec 32

/-- The number a bit string denotes. -/
def valueOf (bits : Bits) : Nat := bits.foldl (fun value bit => 2 * value + bit.toNat) 0

/-- A number as a bit string of a length. -/
def bitsOf (length value : Nat) : Bits :=
  (List.range length).map fun i => value.testBit (length - 1 - i)

@[simp]
theorem length_bitsOf (length value : Nat) : (bitsOf length value).length = length := by
  simp [bitsOf]

theorem foldl_value (bits : Bits) : ∀ start,
    bits.foldl (fun value bit => 2 * value + bit.toNat) start =
      start * 2 ^ bits.length + valueOf bits := by
  induction bits with
  | nil =>
      intro start
      simp [valueOf]
  | cons bit bits ih =>
      intro start
      have hhead := ih (2 * start + bit.toNat)
      have hzero := ih (2 * 0 + bit.toNat)
      unfold valueOf at hhead hzero ⊢
      rw [List.foldl_cons, List.foldl_cons, hhead, hzero, List.length_cons, pow_succ]
      ring

theorem valueOf_append (left right : Bits) :
    valueOf (left ++ right) = valueOf left * 2 ^ right.length + valueOf right := by
  rw [valueOf, List.foldl_append, foldl_value]
  rfl

theorem valueOf_lt (bits : Bits) : valueOf bits < 2 ^ bits.length := by
  induction bits with
  | nil => decide
  | cons bit bits ih =>
      have hsplit := valueOf_append [bit] bits
      have hbit : valueOf [bit] ≤ 1 := by cases bit <;> decide
      rw [List.singleton_append] at hsplit
      rw [hsplit, List.length_cons, pow_succ]
      nlinarith [Nat.two_pow_pos bits.length]

theorem bitsOf_succ (length value : Nat) :
    bitsOf (length + 1) value = value.testBit length :: bitsOf length value := by
  rw [bitsOf, List.range_succ_eq_map, List.map_cons, List.map_map]
  congr 1
  apply List.map_congr_left
  intro i _
  show value.testBit (length + 1 - 1 - (i + 1)) = value.testBit (length - 1 - i)
  congr 1
  omega

theorem valueOf_bitsOf (length value : Nat) :
    valueOf (bitsOf length value) = value % 2 ^ length := by
  induction length with
  | zero => simp [bitsOf, valueOf, Nat.mod_one]
  | succ length ih =>
      have hsplit := valueOf_append [value.testBit length] (bitsOf length value)
      rw [List.singleton_append] at hsplit
      have hbit : valueOf [value.testBit length] = value / 2 ^ length % 2 := by
        rw [Nat.testBit_eq_decide_div_mod_eq]
        rcases Nat.mod_two_eq_zero_or_one (value / 2 ^ length) with h | h <;> simp [h, valueOf]
      rw [bitsOf_succ, hsplit, ih, length_bitsOf, hbit, Nat.mod_pow_succ]
      ring

/-- The bits of a number in two parts. -/
theorem bitsOf_add (high low value : Nat) :
    bitsOf (high + low) value = bitsOf high (value / 2 ^ low) ++ bitsOf low value := by
  induction high with
  | zero => simp [bitsOf]
  | succ high ih =>
      rw [Nat.succ_add, bitsOf_succ, ih, bitsOf_succ, List.cons_append]
      congr 1
      rw [Nat.testBit_div_two_pow, Nat.add_comm]

theorem bitsOf_mod {length value modulus : Nat} (h : length ≤ modulus) :
    bitsOf length (value % 2 ^ modulus) = bitsOf length value := by
  apply List.map_congr_left
  intro i hi
  rw [List.mem_range] at hi
  rw [Nat.testBit_mod_two_pow, decide_eq_true (by omega), Bool.true_and]

/-! ## Functions (section 4.1.2) -/

def Ch (x y z : Word) : Word := (x &&& y) ^^^ (~~~x &&& z)

def Maj (x y z : Word) : Word := (x &&& y) ^^^ (x &&& z) ^^^ (y &&& z)

/-- Σ₀ -/
def bigSigma0 (x : Word) : Word := x.rotateRight 2 ^^^ x.rotateRight 13 ^^^ x.rotateRight 22

/-- Σ₁ -/
def bigSigma1 (x : Word) : Word := x.rotateRight 6 ^^^ x.rotateRight 11 ^^^ x.rotateRight 25

/-- σ₀ -/
def smallSigma0 (x : Word) : Word := x.rotateRight 7 ^^^ x.rotateRight 18 ^^^ x >>> 3

/-- σ₁ -/
def smallSigma1 (x : Word) : Word := x.rotateRight 17 ^^^ x.rotateRight 19 ^^^ x >>> 10

/-! ## Constants (sections 4.2.2 and 5.3.3) -/

/-- The first 64 prime numbers. -/
def primes : List Nat := (List.range 312).filter Nat.Prime

/-- The sieve that finds them: a composite number below 18² has a prime factor below 18. -/
theorem primes_eq_sieve : primes = (List.range 312).filter fun n =>
    2 ≤ n ∧ ∀ p ∈ [2, 3, 5, 7, 11, 13, 17], p ∣ n → p = n := by
  refine List.filter_congr fun n hn => ?_
  have hlt := List.mem_range.mp hn
  rw [decide_eq_decide]
  constructor
  · intro hprime
    refine ⟨hprime.two_le, fun p hp hdvd => ((Nat.dvd_prime hprime).mp hdvd).resolve_left ?_⟩
    rintro rfl
    exact absurd hp (by decide)
  · rintro ⟨htwo, hsieve⟩
    by_contra hcomposite
    have hsquare := Nat.minFac_sq_le_self (by omega) hcomposite
    have hprime := Nat.minFac_prime (n := n) (by omega)
    have hsmall : n.minFac < 18 := by nlinarith
    have hmem : ∀ p < 18, p.Prime → p ∈ [2, 3, 5, 7, 11, 13, 17] := by decide
    rw [hsieve _ (hmem _ hsmall hprime) n.minFac_dvd] at hprime
    exact hcomposite hprime

/-- The first 32 bits of the fractional part of a root of a number. -/
def IsRootFraction (degree number : Nat) (word : Word) : Prop :=
  ∃ whole < number, (whole * 2 ^ 32 + word.toNat) ^ degree ≤ number * 2 ^ (32 * degree) ∧
    number * 2 ^ (32 * degree) < (whole * 2 ^ 32 + word.toNat + 1) ^ degree

instance (degree number : Nat) (word : Word) : Decidable (IsRootFraction degree number word) :=
  inferInstanceAs (Decidable (∃ whole < number, _))

/-- The constants of the rounds. -/
def constants : List Word :=
  [0x428a2f98, 0x71374491, 0xb5c0fbcf, 0xe9b5dba5, 0x3956c25b, 0x59f111f1, 0x923f82a4, 0xab1c5ed5,
    0xd807aa98, 0x12835b01, 0x243185be, 0x550c7dc3, 0x72be5d74, 0x80deb1fe, 0x9bdc06a7, 0xc19bf174,
    0xe49b69c1, 0xefbe4786, 0x0fc19dc6, 0x240ca1cc, 0x2de92c6f, 0x4a7484aa, 0x5cb0a9dc, 0x76f988da,
    0x983e5152, 0xa831c66d, 0xb00327c8, 0xbf597fc7, 0xc6e00bf3, 0xd5a79147, 0x06ca6351, 0x14292967,
    0x27b70a85, 0x2e1b2138, 0x4d2c6dfc, 0x53380d13, 0x650a7354, 0x766a0abb, 0x81c2c92e, 0x92722c85,
    0xa2bfe8a1, 0xa81a664b, 0xc24b8b70, 0xc76c51a3, 0xd192e819, 0xd6990624, 0xf40e3585, 0x106aa070,
    0x19a4c116, 0x1e376c08, 0x2748774c, 0x34b0bcb5, 0x391c0cb3, 0x4ed8aa4a, 0x5b9cca4f, 0x682e6ff3,
    0x748f82ee, 0x78a5636f, 0x84c87814, 0x8cc70208, 0x90befffa, 0xa4506ceb, 0xbef9a3f7, 0xc67178f2]

/-- The working variables, and the hash value after a block. -/
structure Vars where
  a : Word
  b : Word
  c : Word
  d : Word
  e : Word
  f : Word
  g : Word
  h : Word
deriving DecidableEq

def Vars.words (v : Vars) : List Word := [v.a, v.b, v.c, v.d, v.e, v.f, v.g, v.h]

/-- The initial hash value. -/
def initial : Vars :=
  ⟨0x6a09e667, 0xbb67ae85, 0x3c6ef372, 0xa54ff53a, 0x510e527f, 0x9b05688c, 0x1f83d9ab, 0x5be0cd19⟩

/-- The constants come from the cube roots of the first 64 primes, the initial hash value from
the square roots of the first eight. -/
theorem constants_fractions :
    List.Forall₂ (IsRootFraction 3) primes constants ∧
      List.Forall₂ (IsRootFraction 2) (primes.take 8) initial.words := by
  rw [primes_eq_sieve]
  decide +kernel

/-! ## The hash computation (section 6.2.2) -/

/-- The message schedule of a block. -/
def schedule (block : Nat → Word) (t : Nat) : Word :=
  if t < 16 then block t
  else
    smallSigma1 (schedule block (t - 2)) + schedule block (t - 7) +
      smallSigma0 (schedule block (t - 15)) + schedule block (t - 16)
termination_by t

theorem schedule_of_lt {block : Nat → Word} {t : Nat} (h : t < 16) :
    schedule block t = block t := by
  rw [schedule, if_pos h]

theorem schedule_add (block : Nat → Word) (t : Nat) :
    schedule block (t + 16) = smallSigma1 (schedule block (t + 14)) + schedule block (t + 9) +
      smallSigma0 (schedule block (t + 1)) + schedule block t := by
  rw [schedule, if_neg (by omega)]
  rfl

/-- One round. -/
def round (v : Vars) (constant word : Word) : Vars :=
  let t₁ := v.h + bigSigma1 v.e + Ch v.e v.f v.g + constant + word
  let t₂ := bigSigma0 v.a + Maj v.a v.b v.c
  ⟨t₁ + t₂, v.a, v.b, v.c, v.d + t₁, v.e, v.f, v.g⟩

/-- The working variables after `t` rounds. -/
def rounds (block : Nat → Word) (start : Vars) : Nat → Vars
  | 0 => start
  | t + 1 => round (rounds block start t) (constants.getD t 0) (schedule block t)

/-- The hash value after one more block. -/
def compress (hash : Vars) (block : Nat → Word) : Vars :=
  let v := rounds block hash 64
  ⟨v.a + hash.a, v.b + hash.b, v.c + hash.c, v.d + hash.d, v.e + hash.e, v.f + hash.f,
    v.g + hash.g, v.h + hash.h⟩

/-! ## Padding and parsing (sections 5.1.1 and 5.2.1) -/

/-- The number of zero bits after the one bit. -/
def zeros (length : Nat) : Nat := (959 - length % 512) % 512

/-- It is the smallest solution of the equation of the standard. -/
theorem zeros_least (length : Nat) :
    (length + 1 + zeros length) % 512 = 448 ∧
      ∀ k, (length + 1 + k) % 512 = 448 → zeros length ≤ k := by
  unfold zeros
  constructor
  · omega
  · intro k hk
    omega

/-- A message and its padding. -/
def pad (message : Bits) : Bits :=
  message ++ [true] ++ List.replicate (zeros message.length) false ++ bitsOf 64 message.length

/-- The words of the `i`th block of a padded message. -/
def block (padded : Bits) (i j : Nat) : Word :=
  BitVec.ofNat 32 (valueOf ((padded.drop (512 * i + 32 * j)).take 32))

/-- The hash value after `i` blocks. -/
def hashValue (padded : Bits) : Nat → Vars
  | 0 => initial
  | i + 1 => compress (hashValue padded i) (block padded i)

/-- The digest of a message of fewer than 2 ^ 64 bits. -/
def sha256 (message : Bits) : Bits :=
  (hashValue (pad message) ((pad message).length / 512)).words.flatMap fun word =>
    bitsOf 32 word.toNat

end Fips180
