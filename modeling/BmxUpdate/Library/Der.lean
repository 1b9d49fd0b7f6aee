import BmxUpdate.Library.Wire
import Mathlib.Data.Nat.Digits.Lemmas

/-!
# Integers and signatures in DER

The distinguished encoding of a non-negative INTEGER, of a pair of them, and of
an element whose length takes the short form.  `integer_iff` is the standard's
own description of the contents: a sign bit that is clear, and no leading byte
that could be left out.
-/

namespace Der

open Wire

/-! ## Big-endian digits -/

theorem decodeLe_eq_ofDigits (bytes : Bytes) :
    decodeLe bytes = Nat.ofDigits 256 (bytes.map UInt8.toNat) := by
  induction bytes with
  | nil => rfl
  | cons b bytes ih =>
      rw [decodeLe, List.map_cons, Nat.ofDigits_cons, ih]

/-- The bytes of a number, most significant first; none for zero. -/
def digits (n : Nat) : Bytes := ((Nat.digits 256 n).map UInt8.ofNat).reverse

theorem decodeBe_digits (n : Nat) : decodeBe (digits n) = n := by
  unfold decodeBe digits
  rw [List.reverse_reverse, decodeLe_eq_ofDigits, List.map_map]
  have hbytes : (Nat.digits 256 n).map (UInt8.toNat ∘ UInt8.ofNat) = Nat.digits 256 n := by
    conv_rhs => rw [← List.map_id (Nat.digits 256 n)]
    apply List.map_congr_left
    intro d hd
    have hlt := Nat.digits_lt_base (by decide) hd
    exact Nat.mod_eq_of_lt hlt
  rw [hbytes, Nat.ofDigits_digits]

/-- Bytes that do not begin with zero are the digits of their number. -/
theorem digits_decodeBe {bytes : Bytes} (h : ∀ rest, bytes ≠ 0 :: rest) :
    digits (decodeBe bytes) = bytes := by
  unfold decodeBe digits
  rw [decodeLe_eq_ofDigits, Nat.digits_ofDigits 256 (by decide)]
  · rw [List.map_map]
    have hbytes : bytes.reverse.map (UInt8.ofNat ∘ UInt8.toNat) = bytes.reverse := by
      conv_rhs => rw [← List.map_id bytes.reverse]
      apply List.map_congr_left
      intro b _
      exact UInt8.ofNat_toNat
    rw [hbytes, List.reverse_reverse]
  · intro l hl
    obtain ⟨b, -, rfl⟩ := List.mem_map.mp hl
    exact b.toNat_lt
  · intro hne hlast
    cases bytes with
    | nil => exact hne rfl
    | cons b rest =>
        simp only [List.reverse_cons, List.map_append, List.map_cons, List.map_nil,
          List.getLast_append_singleton] at hlast
        exact h rest (by rw [show b = 0 from UInt8.toNat.inj hlast])

theorem digits_ne_zero_cons (n : Nat) (rest : Bytes) : digits n ≠ 0 :: rest := by
  intro h
  have hreverse : (Nat.digits 256 n).map UInt8.ofNat = rest.reverse ++ [0] := by
    rw [← List.reverse_cons, ← h, digits, List.reverse_reverse]
  have hlast := congrArg List.getLast? hreverse
  rw [List.getLast?_map, List.getLast?_concat] at hlast
  obtain ⟨d, hd, hzero⟩ := Option.map_eq_some_iff.mp hlast
  have hpositive : n ≠ 0 := by
    rintro rfl
    rw [Nat.digits_zero] at hd
    cases hd
  have hne : Nat.digits 256 n ≠ [] := Nat.digits_ne_nil_iff_ne_zero.mpr hpositive
  rw [List.getLast?_eq_some_getLast hne] at hd
  have hdigit := Nat.getLast_digit_ne_zero 256 hpositive
  rw [Option.some.inj hd] at hdigit
  have hlt := Nat.digits_lt_base (b := 256) (by decide) (Option.some.inj hd ▸ List.getLast_mem hne)
  have hbyte := congrArg UInt8.toNat hzero
  rw [UInt8.toNat_ofNat', Nat.mod_eq_of_lt hlt] at hbyte
  exact hdigit hbyte

theorem decodeBe_lt (bytes : Bytes) : decodeBe bytes < 256 ^ bytes.length := by
  rw [decodeBe, ← List.length_reverse]
  exact decodeLe_lt _

theorem decodeBe_cons (b : UInt8) (bytes : Bytes) :
    decodeBe (b :: bytes) = b.toNat * 256 ^ bytes.length + decodeBe bytes := by
  unfold decodeBe
  rw [List.reverse_cons, decodeLe_eq_ofDigits, decodeLe_eq_ofDigits, List.map_append,
    Nat.ofDigits_append]
  simp
  ring

/-- Strings of one length are ordered as their numbers. -/
theorem lt_iff_decodeBe_lt {a b : Bytes} (h : a.length = b.length) :
    a < b ↔ decodeBe a < decodeBe b := by
  induction a generalizing b with
  | nil =>
      obtain rfl := List.length_eq_zero_iff.mp h.symm
      exact ⟨fun h => absurd h (List.lt_irrefl _), fun h => absurd h (Nat.lt_irrefl _)⟩
  | cons x a ih =>
      cases b with
      | nil => cases h
      | cons y b =>
          have hlength : a.length = b.length := Nat.succ.inj h
          have ha := decodeBe_lt a
          have hb := decodeBe_lt b
          rw [List.cons_lt_cons_iff, ih hlength, decodeBe_cons, decodeBe_cons, hlength]
          rw [hlength] at ha
          rw [UInt8.lt_iff_toNat_lt]
          constructor
          · rintro (hlt | ⟨rfl, hlt⟩)
            · have hstep : (x.toNat + 1) * 256 ^ b.length ≤ y.toNat * 256 ^ b.length :=
                Nat.mul_le_mul_right _ hlt
              rw [Nat.add_mul] at hstep
              omega
            · omega
          · intro hlt
            rcases Nat.lt_trichotomy x.toNat y.toNat with hxy | hxy | hxy
            · exact .inl hxy
            · exact .inr ⟨UInt8.toNat.inj hxy, by rw [hxy] at hlt; omega⟩
            · have hstep : (y.toNat + 1) * 256 ^ b.length ≤ x.toNat * 256 ^ b.length :=
                Nat.mul_le_mul_right _ hxy
              rw [Nat.add_mul] at hstep
              omega

theorem length_digits_le {n k : Nat} (h : n < 256 ^ k) : (digits n).length ≤ k := by
  rw [digits, List.length_reverse, List.length_map]
  exact (Nat.digits_length_le_iff (by decide) n).mpr h

theorem digits_eq_nil {n : Nat} : digits n = [] ↔ n = 0 := by
  rw [digits, List.reverse_eq_nil_iff, List.map_eq_nil_iff, Nat.digits_eq_nil_iff_eq_zero]

/-- Leading zeros do not count. -/
theorem decodeBe_dropZeros (bytes : Bytes) :
    decodeBe (bytes.dropWhile (· = 0)) = decodeBe bytes := by
  induction bytes with
  | nil => rfl
  | cons b bytes ih =>
      rw [List.dropWhile_cons]
      split
      · next hzero =>
          rw [of_decide_eq_true hzero, ih, decodeBe_cons]
          simp
      · rfl

/-- The digits of a number are its bytes without leading zeros. -/
theorem dropZeros_eq_digits (bytes : Bytes) :
    bytes.dropWhile (· = 0) = digits (decodeBe bytes) := by
  rw [← decodeBe_dropZeros, digits_decodeBe]
  intro rest h
  have hhead := List.head?_dropWhile_not (· = (0 : UInt8)) bytes
  rw [h] at hhead
  simp at hhead

/-! ## INTEGER -/

/-- The contents of a non-negative INTEGER. -/
def integer (n : Nat) : Bytes :=
  match digits n with
  | [] => [0]
  | b :: rest => if 0x80 ≤ b then 0 :: b :: rest else b :: rest

/-- Contents that are not negative and have no byte to spare. -/
structure Minimal (bytes : Bytes) : Prop where
  nonempty : bytes ≠ []
  sign : ∀ b rest, bytes = b :: rest → b < 0x80
  needed : ∀ b rest, bytes = 0 :: b :: rest → 0x80 ≤ b

theorem integer_minimal (n : Nat) : Minimal (integer n) := by
  unfold integer
  split
  · exact ⟨nofun, by rintro b rest ⟨⟩; decide, nofun⟩
  · next b rest hdigits =>
      split
      · next hb =>
          refine ⟨nofun, ?_, ?_⟩
          · rintro b' rest' ⟨⟩
            decide
          · rintro b' rest' ⟨⟩
            exact hb
      · next hb =>
          refine ⟨nofun, ?_, ?_⟩
          · rintro b' rest' ⟨⟩
            exact UInt8.not_le.mp hb
          · rintro b' rest' ⟨⟩
            exact absurd hdigits (digits_ne_zero_cons n _)

theorem decodeBe_zero_cons (bytes : Bytes) : decodeBe (0 :: bytes) = decodeBe bytes := by
  rw [decodeBe_cons]
  simp

theorem decodeBe_integer (n : Nat) : decodeBe (integer n) = n := by
  have hdigits := decodeBe_digits n
  unfold integer
  split
  · next h =>
      rw [h] at hdigits
      exact hdigits
  · next b rest h =>
      rw [h] at hdigits
      split
      · rw [decodeBe_zero_cons, hdigits]
      · exact hdigits

/-- The contents of an INTEGER are those that are minimal. -/
theorem minimal_iff {bytes : Bytes} : Minimal bytes ↔ bytes = integer (decodeBe bytes) := by
  constructor
  · intro h
    cases bytes with
    | nil => exact absurd rfl h.nonempty
    | cons b rest =>
        by_cases hzero : b = 0
        · subst hzero
          rw [decodeBe_zero_cons]
          cases rest with
          | nil =>
              have hnone : digits (decodeBe []) = [] := digits_eq_nil.mpr rfl
              rw [integer, hnone]
          | cons c rest =>
              have hc := h.needed c rest rfl
              have hne : ∀ rest', c :: rest ≠ 0 :: rest' := by
                rintro rest' ⟨⟩
                exact absurd hc (by decide)
              rw [integer, digits_decodeBe hne]
              dsimp only
              rw [if_pos hc]
        · have hne : ∀ rest', b :: rest ≠ 0 :: rest' := by
            rintro rest' ⟨⟩
            exact hzero rfl
          rw [integer, digits_decodeBe hne]
          dsimp only
          rw [if_neg (UInt8.not_le.mpr (h.sign b rest rfl))]
  · intro h
    rw [h]
    exact integer_minimal _

theorem length_integer_le {n k : Nat} (h : n < 256 ^ k) : (integer n).length ≤ k + 1 := by
  have hlength := length_digits_le h
  unfold integer
  split
  · rw [List.length_singleton]
    omega
  · next b rest hdigits =>
      rw [hdigits] at hlength
      split
      · rw [List.length_cons]
        omega
      · omega

/-- The contents need a byte more than the digits only for the sign. -/
theorem integer_of_length {n k : Nat} (h : n < 256 ^ k) (hlength : (integer n).length = k + 1) :
    ∃ rest, integer n = 0 :: rest := by
  have hdigits := length_digits_le h
  unfold integer at hlength ⊢
  split
  · exact ⟨[], rfl⟩
  · next b rest heq =>
      rw [heq] at hdigits
      split
      · exact ⟨_, rfl⟩
      · next hb =>
          rw [heq] at hlength
          dsimp only at hlength
          rw [if_neg hb] at hlength
          omega

/-! ## Elements -/

/-- An element of less than 128 bytes. -/
def element (tag : UInt8) (contents : Bytes) : Bytes :=
  tag :: UInt8.ofNat contents.length :: contents

/-- The SEQUENCE of two INTEGERs. -/
def signature (r s : Nat) : Bytes :=
  element 0x30 (element 0x02 (integer r) ++ element 0x02 (integer s))

end Der
