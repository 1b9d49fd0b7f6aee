import BmxUpdate.Library.Wire
import Mathlib.Data.Nat.Bitwise

/-!
# Reflected cyclic redundancy checks

A check of width `w` that takes the bits of each byte from the lowest up.  The
register and the bits it has not read yet are one number: a turn of the bit loop
(`shift`) moves it down one place, and the polynomial is added where the bit that
leaves is set.  So a whole message is `8 * n` turns from the register and the
message added together (`foldl_feed`).

A turn is linear (`shift_xor`) and loses nothing of a register (`shift_ne_zero`),
hence no error confined to `w` consecutive bits is missed (`shifts_burst_ne_zero`).
-/

namespace Crc

open Wire

/-! ## Turns of the bit loop -/

/-- One turn of the bit loop. -/
def shift (poly s : Nat) : Nat := s >>> 1 ^^^ poly * (s &&& 1)

/-- One turn of the byte loop. -/
def feed (poly s : Nat) (byte : UInt8) : Nat := Nat.repeat (shift poly) 8 (s ^^^ byte.toNat)

section Linear

variable (poly : Nat)

theorem shift_xor (a b : Nat) : shift poly (a ^^^ b) = shift poly a ^^^ shift poly b := by
  have hlow : poly * ((a ^^^ b) &&& 1) = poly * (a &&& 1) ^^^ poly * (b &&& 1) := by
    rw [Nat.and_xor_distrib_right]
    have ha : a &&& 1 = 0 ∨ a &&& 1 = 1 := by rw [Nat.and_one_is_mod]; omega
    have hb : b &&& 1 = 0 ∨ b &&& 1 = 1 := by rw [Nat.and_one_is_mod]; omega
    rcases ha with ha | ha <;> rcases hb with hb | hb <;> simp [ha, hb]
  unfold shift
  rw [hlow, Nat.shiftRight_xor_distrib]
  ac_rfl

/-- A bit that is not set leaves the polynomial out. -/
theorem shift_shiftLeft_one (a : Nat) : shift poly (a <<< 1) = a := by
  have hlow : a <<< 1 &&& 1 = 0 := by
    rw [Nat.and_one_is_mod, Nat.shiftLeft_eq]
    omega
  have hhigh : a <<< 1 >>> 1 = a := by
    rw [Nat.shiftLeft_eq, Nat.shiftRight_eq_div_pow]
    omega
  simp [shift, hlow, hhigh]

theorem shifts_xor (n a b : Nat) :
    Nat.repeat (shift poly) n (a ^^^ b) =
      Nat.repeat (shift poly) n a ^^^ Nat.repeat (shift poly) n b := by
  induction n with
  | zero => rfl
  | succ n ih =>
      show shift poly _ = shift poly _ ^^^ shift poly _
      rw [ih, shift_xor]

theorem shifts_add (m n a : Nat) :
    Nat.repeat (shift poly) (m + n) a =
      Nat.repeat (shift poly) n (Nat.repeat (shift poly) m a) := by
  induction n with
  | zero => rfl
  | succ n ih => exact congrArg (shift poly) ih

/-- Bits that are not read yet move down unchanged. -/
theorem shifts_shiftLeft (n a : Nat) : Nat.repeat (shift poly) n (a <<< n) = a := by
  induction n generalizing a with
  | zero => exact Nat.shiftLeft_zero
  | succ n ih =>
      show shift poly (Nat.repeat (shift poly) n (a <<< (n + 1))) = a
      rw [Nat.add_comm n 1, Nat.shiftLeft_add, ih, shift_shiftLeft_one]

end Linear

/-! ## Messages -/

theorem testBit_decodeLe_cons (b : UInt8) (bs : Bytes) (i : Nat) :
    (decodeLe (b :: bs)).testBit i =
      if i < 8 then b.toNat.testBit i else (decodeLe bs).testBit (i - 8) := by
  have hb : b.toNat < 2 ^ 8 := b.toNat_lt
  rw [← Nat.testBit_two_pow_mul_add (decodeLe bs) hb i]
  exact congrArg (Nat.testBit · i) (Nat.add_comm _ _)

theorem decodeLe_cons_eq_xor (b : UInt8) (bs : Bytes) :
    decodeLe (b :: bs) = b.toNat ^^^ decodeLe bs <<< 8 := by
  apply Nat.eq_of_testBit_eq
  intro i
  rw [testBit_decodeLe_cons, Nat.testBit_xor, Nat.testBit_shiftLeft]
  split
  · next h => simp [Nat.not_le.mpr h]
  · next h =>
      have hb : b.toNat.testBit i = false :=
        Nat.testBit_lt_two_pow
          (lt_of_lt_of_le b.toNat_lt (Nat.pow_le_pow_right (by omega) (by omega)))
      simp [hb, Nat.not_lt.mp h]

theorem decodeLe_append_eq_xor (bs cs : Bytes) :
    decodeLe (bs ++ cs) = decodeLe bs ^^^ decodeLe cs <<< (8 * bs.length) := by
  induction bs with
  | nil => simp [decodeLe]
  | cons b bs ih =>
      rw [List.cons_append, decodeLe_cons_eq_xor, ih, decodeLe_cons_eq_xor,
        Nat.shiftLeft_xor_distrib, ← Nat.shiftLeft_add, List.length_cons, Nat.xor_assoc]
      congr 3

/-- The register after a message. -/
theorem foldl_feed (poly : Nat) (bs : Bytes) (s : Nat) :
    bs.foldl (feed poly) s = Nat.repeat (shift poly) (8 * bs.length) (s ^^^ decodeLe bs) := by
  induction bs generalizing s with
  | nil => simp [decodeLe, Nat.repeat]
  | cons b bs ih =>
      calc (b :: bs).foldl (feed poly) s
          = Nat.repeat (shift poly) (8 * bs.length) (feed poly s b ^^^ decodeLe bs) := ih _
        _ = Nat.repeat (shift poly) (8 * bs.length)
              (Nat.repeat (shift poly) 8 (s ^^^ b.toNat ^^^ decodeLe bs <<< 8)) := by
            rw [shifts_xor poly 8, shifts_shiftLeft]
            rfl
        _ = Nat.repeat (shift poly) (8 * (b :: bs).length) (s ^^^ decodeLe (b :: bs)) := by
            rw [← shifts_add, decodeLe_cons_eq_xor, Nat.xor_assoc, List.length_cons]
            congr 1
            omega

/-! ## Errors -/

section Errors

variable {w poly : Nat} (hlow : poly < 2 ^ (w + 1)) (hhigh : poly.testBit w = true)

include hlow in
theorem shift_lt {s : Nat} (h : s < 2 ^ (w + 1)) : shift poly s < 2 ^ (w + 1) := by
  have hbit : s &&& 1 ≤ 1 := Nat.and_le_right
  have hmask : poly * (s &&& 1) < 2 ^ (w + 1) := by
    calc poly * (s &&& 1) ≤ poly * 1 := Nat.mul_le_mul_left _ hbit
      _ < 2 ^ (w + 1) := by rwa [Nat.mul_one]
  have hshift : s >>> 1 < 2 ^ (w + 1) := by
    rw [Nat.shiftRight_eq_div_pow]
    omega
  exact Nat.xor_lt_two_pow hshift hmask

include hhigh in
/-- The bit that leaves the register is the highest bit of the next one. -/
theorem shift_ne_zero {s : Nat} (h : s < 2 ^ (w + 1)) (hs : s ≠ 0) : shift poly s ≠ 0 := by
  intro hzero
  have htop : (s >>> 1).testBit w = false := by
    rw [Nat.testBit_shiftRight]
    exact Nat.testBit_lt_two_pow (by rwa [Nat.add_comm])
  have hbit := congrArg (Nat.testBit · w) hzero
  simp only [shift, Nat.testBit_xor, htop, Bool.false_xor, Nat.zero_testBit] at hbit
  have hone : s &&& 1 = 0 := by
    have hcases : s &&& 1 = 0 ∨ s &&& 1 = 1 := by rw [Nat.and_one_is_mod]; omega
    rcases hcases with hcase | hcase
    · exact hcase
    · rw [hcase, Nat.mul_one, hhigh] at hbit
      cases hbit
  have hhalf : s >>> 1 = 0 := by simpa [shift, hone] using hzero
  rw [Nat.and_one_is_mod] at hone
  rw [Nat.shiftRight_eq_div_pow] at hhalf
  omega

include hlow hhigh in
theorem shifts_ne_zero (n : Nat) {s : Nat} (h : s < 2 ^ (w + 1)) (hs : s ≠ 0) :
    Nat.repeat (shift poly) n s ≠ 0 ∧ Nat.repeat (shift poly) n s < 2 ^ (w + 1) := by
  induction n with
  | zero => exact ⟨hs, h⟩
  | succ n ih => exact ⟨shift_ne_zero hhigh ih.2 ih.1, shift_lt hlow ih.2⟩

include hlow hhigh in
/-- An error of at most `w + 1` consecutive bits leaves the register, wherever it starts. -/
theorem shifts_burst_ne_zero {n start m : Nat} (hm : m < 2 ^ (w + 1)) (hzero : m ≠ 0) :
    Nat.repeat (shift poly) n (m <<< start) ≠ 0 := by
  by_cases hstart : start ≤ n
  · -- the error has gone through the register whole
    obtain ⟨k, rfl⟩ := Nat.exists_eq_add_of_le hstart
    rw [shifts_add, shifts_shiftLeft]
    exact (shifts_ne_zero hlow hhigh k hm hzero).1
  · -- the error has not reached the register yet
    obtain ⟨k, rfl⟩ := Nat.exists_eq_add_of_le (Nat.le_of_not_le hstart)
    rw [Nat.add_comm n k, Nat.shiftLeft_add, shifts_shiftLeft, Nat.shiftLeft_eq]
    exact Nat.mul_ne_zero hzero (Nat.two_pow_pos k).ne'

end Errors

/-! ## Bits of a byte string -/

/-- Bit `i` in the order the check takes them. -/
def bitAt (bytes : Bytes) (i : Nat) : Bool := (bytes.getD (i / 8) 0).toNat.testBit (i % 8)

theorem testBit_decodeLe (bytes : Bytes) (i : Nat) : (decodeLe bytes).testBit i = bitAt bytes i := by
  induction bytes generalizing i with
  | nil => simp [decodeLe, bitAt]
  | cons b bs ih =>
      rw [testBit_decodeLe_cons]
      split
      · next h => simp [bitAt, Nat.div_eq_of_lt h, Nat.mod_eq_of_lt h]
      · next h =>
          obtain ⟨k, rfl⟩ := Nat.exists_eq_add_of_le (Nat.not_lt.mp h)
          rw [Nat.add_sub_cancel_left, ih]
          have hdiv : (8 + k) / 8 = k / 8 + 1 := by omega
          simp [bitAt, hdiv]

/-- Bits are flipped, at least one of them, and all of them among `width` consecutive ones. -/
structure Burst (width start : Nat) (bytes corrupted : Bytes) : Prop where
  length : corrupted.length = bytes.length
  flipped : corrupted ≠ bytes
  confined : ∀ i, bitAt corrupted i ≠ bitAt bytes i → start ≤ i ∧ i < start + width

theorem decodeLe_injective {bs cs : Bytes} (hlength : bs.length = cs.length)
    (h : decodeLe bs = decodeLe cs) : bs = cs := by
  rw [← encodeLe_decodeLe bs, ← encodeLe_decodeLe cs, h, hlength]

theorem Burst.exists_pattern {width start : Nat} {bytes corrupted : Bytes}
    (h : Burst width start bytes corrupted) :
    ∃ m, m ≠ 0 ∧ m < 2 ^ width ∧ decodeLe corrupted ^^^ decodeLe bytes = m <<< start := by
  have hbit : ∀ i, (decodeLe corrupted ^^^ decodeLe bytes).testBit i = true →
      start ≤ i ∧ i < start + width := by
    intro i hi
    rw [Nat.testBit_xor, testBit_decodeLe, testBit_decodeLe] at hi
    exact h.confined i (by simpa using hi)
  have hpattern : decodeLe corrupted ^^^ decodeLe bytes =
      (decodeLe corrupted ^^^ decodeLe bytes) >>> start <<< start := by
    apply Nat.eq_of_testBit_eq
    intro i
    rw [Nat.testBit_shiftLeft, Nat.testBit_shiftRight]
    by_cases hi : start ≤ i
    · simp [hi, Nat.add_sub_cancel' hi]
    · have hfalse := mt (hbit i) fun hboth => hi hboth.1
      simpa [hi] using hfalse
  refine ⟨_, ?_, ?_, hpattern⟩
  · intro hzero
    rw [hzero, Nat.zero_shiftLeft, Nat.xor_eq_zero_iff] at hpattern
    exact h.flipped (decodeLe_injective h.length hpattern)
  · apply Nat.lt_pow_two_of_testBit
    intro i hi
    rw [Nat.testBit_shiftRight]
    by_contra hset
    have := hbit (start + i) (by simpa using hset)
    omega

end Crc
