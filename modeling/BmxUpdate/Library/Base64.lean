import BmxUpdate.Library.Http

/-!
# Base64

The padded base64 text of a byte string (RFC 4648, section 4), three bytes to
four digits.  `value` reads a digit; `sextets_of_bytes` and `bytes_of_sextets`
take a group apart and put it together.
-/

namespace Base64

open Wire Http

/-- The digit of a six-bit value. -/
def digit (v : Nat) : UInt8 :=
  if v < 26 then UInt8.ofNat (0x41 + v)
  else if v < 52 then UInt8.ofNat (0x61 + (v - 26))
  else if v < 62 then UInt8.ofNat (0x30 + (v - 52))
  else if v = 62 then 0x2b
  else 0x2f

/-- The value of a digit. -/
def value (c : UInt8) : Option Nat :=
  if 0x41 ≤ c ∧ c ≤ 0x5a then some (c.toNat - 0x41)
  else if 0x61 ≤ c ∧ c ≤ 0x7a then some (c.toNat - 0x61 + 26)
  else if 0x30 ≤ c ∧ c ≤ 0x39 then some (c.toNat - 0x30 + 52)
  else if c = 0x2b then some 62
  else if c = 0x2f then some 63
  else none

/-- `=` -/
def pad : UInt8 := 0x3d

theorem value_digit {v : Nat} (hv : v < 64) : value (digit v) = some v := by
  have h : ∀ v < 64, value (digit v) = some v := by decide
  exact h v hv

theorem digit_of_value {c : UInt8} {v : Nat} (h : value c = some v) : v < 64 ∧ digit v = c := by
  have hall : ∀ n < 256, ∀ v ∈ value (UInt8.ofNat n), v < 64 ∧ digit v = UInt8.ofNat n := by
    decide +kernel
  exact forall_byte (P := fun c => ∀ v ∈ value c, v < 64 ∧ digit v = c) hall c v h

theorem value_pad : value pad = none := by decide

theorem digit_ne_pad {v : Nat} (hv : v < 64) : digit v ≠ pad := by
  intro h
  have hvalue := value_digit hv
  rw [h, value_pad] at hvalue
  cases hvalue

/-! ## Groups -/

/-- The values of the four digits of three bytes. -/
def sextets (x y z : UInt8) : Nat × Nat × Nat × Nat :=
  (x.toNat / 4, x.toNat % 4 * 16 + y.toNat / 16, y.toNat % 16 * 4 + z.toNat / 64, z.toNat % 64)

/-- The three bytes of four values. -/
def octets (v₀ v₁ v₂ v₃ : Nat) : UInt8 × UInt8 × UInt8 :=
  (UInt8.ofNat (v₀ * 4 + v₁ / 16), UInt8.ofNat (v₁ % 16 * 16 + v₂ / 4),
    UInt8.ofNat (v₂ % 4 * 64 + v₃))

theorem sextets_lt (x y z : UInt8) :
    (sextets x y z).1 < 64 ∧ (sextets x y z).2.1 < 64 ∧ (sextets x y z).2.2.1 < 64 ∧
      (sextets x y z).2.2.2 < 64 := by
  have hx := x.toNat_lt
  have hy := y.toNat_lt
  have hz := z.toNat_lt
  unfold sextets
  dsimp only
  omega

/-- Four values and three bytes determine each other. -/
theorem octets_eq_iff {v₀ v₁ v₂ v₃ : Nat} (h₀ : v₀ < 64) (h₁ : v₁ < 64) (h₂ : v₂ < 64)
    (h₃ : v₃ < 64) {x y z : UInt8} :
    octets v₀ v₁ v₂ v₃ = (x, y, z) ↔ sextets x y z = (v₀, v₁, v₂, v₃) := by
  have hbyte : ∀ {n : Nat} {c : UInt8}, n < 256 → (UInt8.ofNat n = c ↔ n = c.toNat) := by
    intro n c hn
    rw [← UInt8.toNat_inj, UInt8.toNat_ofNat', Nat.mod_eq_of_lt hn]
  have hx := x.toNat_lt
  have hy := y.toNat_lt
  have hz := z.toNat_lt
  unfold octets sextets
  rw [Prod.mk.injEq, Prod.mk.injEq, hbyte (by omega), hbyte (by omega), hbyte (by omega)]
  simp only [Prod.mk.injEq]
  omega

/-- The digits of three bytes. -/
def group (x y z : UInt8) : Bytes :=
  let s := sextets x y z
  [digit s.1, digit s.2.1, digit s.2.2.1, digit s.2.2.2]

theorem group_iff {c₀ c₁ c₂ c₃ x y z : UInt8} :
    [c₀, c₁, c₂, c₃] = group x y z ↔ ∃ v₀ v₁ v₂ v₃, value c₀ = some v₀ ∧ value c₁ = some v₁ ∧
      value c₂ = some v₂ ∧ value c₃ = some v₃ ∧ octets v₀ v₁ v₂ v₃ = (x, y, z) := by
  constructor
  · intro h
    obtain ⟨h₀, h₁, h₂, h₃⟩ := sextets_lt x y z
    simp only [group, List.cons.injEq, and_true] at h
    obtain ⟨rfl, rfl, rfl, rfl⟩ := h
    exact ⟨_, _, _, _, value_digit h₀, value_digit h₁, value_digit h₂, value_digit h₃,
      (octets_eq_iff h₀ h₁ h₂ h₃).mpr rfl⟩
  · rintro ⟨v₀, v₁, v₂, v₃, h₀, h₁, h₂, h₃, hbytes⟩
    obtain ⟨hv₀, rfl⟩ := digit_of_value h₀
    obtain ⟨hv₁, rfl⟩ := digit_of_value h₁
    obtain ⟨hv₂, rfl⟩ := digit_of_value h₂
    obtain ⟨hv₃, rfl⟩ := digit_of_value h₃
    rw [octets_eq_iff hv₀ hv₁ hv₂ hv₃] at hbytes
    rw [group, hbytes]

/-! ## The text -/

/-- The text of a byte string. -/
def encode : Bytes → Bytes
  | [] => []
  | [x] => (group x 0 0).take 2 ++ [pad, pad]
  | [x, y] => (group x y 0).take 3 ++ [pad]
  | x :: y :: z :: rest => group x y z ++ encode rest

theorem encode_one (x : UInt8) :
    encode [x] = [digit (sextets x 0 0).1, digit (sextets x 0 0).2.1, pad, pad] := rfl

theorem encode_two (x y : UInt8) : encode [x, y] =
    [digit (sextets x y 0).1, digit (sextets x y 0).2.1, digit (sextets x y 0).2.2.1, pad] := rfl

theorem encode_three (x y z : UInt8) : encode [x, y, z] = group x y z := rfl

/-- The last group of one byte. -/
theorem encode_one_iff {c₀ c₁ x : UInt8} :
    [c₀, c₁, pad, pad] = encode [x] ↔ ∃ v₀ v₁, value c₀ = some v₀ ∧ value c₁ = some v₁ ∧
      octets v₀ v₁ 0 0 = (x, 0, 0) := by
  obtain ⟨h₀, h₁, -, -⟩ := sextets_lt x 0 0
  rw [encode_one]
  simp only [List.cons.injEq, and_true]
  constructor
  · rintro ⟨rfl, rfl⟩
    exact ⟨_, _, value_digit h₀, value_digit h₁,
      (octets_eq_iff h₀ h₁ (by decide) (by decide)).mpr rfl⟩
  · rintro ⟨v₀, v₁, hc₀, hc₁, hbytes⟩
    obtain ⟨hv₀, rfl⟩ := digit_of_value hc₀
    obtain ⟨hv₁, rfl⟩ := digit_of_value hc₁
    rw [octets_eq_iff hv₀ hv₁ (by decide) (by decide)] at hbytes
    rw [hbytes]
    exact ⟨rfl, rfl⟩

/-- The last group of two bytes. -/
theorem encode_two_iff {c₀ c₁ c₂ x y : UInt8} :
    [c₀, c₁, c₂, pad] = encode [x, y] ↔ ∃ v₀ v₁ v₂, value c₀ = some v₀ ∧ value c₁ = some v₁ ∧
      value c₂ = some v₂ ∧ octets v₀ v₁ v₂ 0 = (x, y, 0) := by
  obtain ⟨h₀, h₁, h₂, -⟩ := sextets_lt x y 0
  rw [encode_two]
  simp only [List.cons.injEq, and_true]
  constructor
  · rintro ⟨rfl, rfl, rfl⟩
    exact ⟨_, _, _, value_digit h₀, value_digit h₁, value_digit h₂,
      (octets_eq_iff h₀ h₁ h₂ (by decide)).mpr rfl⟩
  · rintro ⟨v₀, v₁, v₂, hc₀, hc₁, hc₂, hbytes⟩
    obtain ⟨hv₀, rfl⟩ := digit_of_value hc₀
    obtain ⟨hv₁, rfl⟩ := digit_of_value hc₁
    obtain ⟨hv₂, rfl⟩ := digit_of_value hc₂
    rw [octets_eq_iff hv₀ hv₁ hv₂ (by decide)] at hbytes
    rw [hbytes]
    exact ⟨rfl, rfl, rfl⟩

theorem length_group (x y z : UInt8) : (group x y z).length = 4 := rfl

theorem length_encode (bytes : Bytes) : (encode bytes).length = (bytes.length + 2) / 3 * 4 := by
  induction bytes using encode.induct with
  | case1 => rfl
  | case2 x => simp [encode, length_group]
  | case3 x y => simp [encode, length_group]
  | case4 x y z rest ih =>
      simp only [encode, List.length_append, List.length_cons, length_group, ih]
      omega

theorem encode_eq_nil {bytes : Bytes} : encode bytes = [] ↔ bytes = [] := by
  rw [← List.length_eq_zero_iff, length_encode, ← List.length_eq_zero_iff]
  omega

theorem mem_group {x y z c : UInt8} (h : c ∈ group x y z) : ∃ v < 64, c = digit v := by
  obtain ⟨h₀, h₁, h₂, h₃⟩ := sextets_lt x y z
  simp only [group, List.mem_cons, List.not_mem_nil, or_false] at h
  rcases h with h | h | h | h
  · exact ⟨_, h₀, h⟩
  · exact ⟨_, h₁, h⟩
  · exact ⟨_, h₂, h⟩
  · exact ⟨_, h₃, h⟩

/-- A character of a text is a digit or padding. -/
theorem mem_encode {bytes : Bytes} {c : UInt8} (h : c ∈ encode bytes) :
    (∃ v < 64, c = digit v) ∨ c = pad := by
  induction bytes using encode.induct with
  | case1 => exact absurd h List.not_mem_nil
  | case2 x =>
      rcases List.mem_append.mp h with h | h
      · exact .inl (mem_group (List.mem_of_mem_take h))
      · simp only [List.mem_cons, List.not_mem_nil, or_false, or_self] at h
        exact .inr h
  | case3 x y =>
      rcases List.mem_append.mp h with h | h
      · exact .inl (mem_group (List.mem_of_mem_take h))
      · exact .inr (List.mem_singleton.mp h)
  | case4 x y z rest ih =>
      rcases List.mem_append.mp h with h | h
      · exact .inl (mem_group h)
      · exact ih h

/-- A text is of graphic ASCII characters. -/
theorem graphic_encode {bytes : Bytes} : ∀ c ∈ encode bytes, 0x21 ≤ c ∧ c ≤ 0x7e := by
  have hdigit : ∀ v < 64, 0x21 ≤ digit v ∧ digit v ≤ 0x7e := by decide
  intro c h
  rcases mem_encode h with ⟨v, hv, rfl⟩ | rfl
  · exact hdigit v hv
  · decide

example : encode [0x66, 0x6f, 0x6f, 0x62] = bytesOf "Zm9vYg==" := by decide

end Base64
