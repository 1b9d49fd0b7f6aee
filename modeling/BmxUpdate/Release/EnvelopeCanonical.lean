import BmxUpdate.Release.SignatureEnvelope
import Mathlib.Data.Nat.Bitwise

/-!
# The canonical form of signature envelopes

The three decoders of `signature_envelope.cpp` against the encodings they read:
the base64 text of a byte string, the DER of a pair of scalars, and the lines of
an envelope.
-/

namespace BmxUpdate

namespace Release

open Wire Http Checks Base64

/-! ## Base64 -/

theorem base64Value_eq (c : UInt8) : base64Value c = value c := rfl

/-- The bits of four values side by side. -/
theorem block_eq {v₀ v₁ v₂ v₃ : Nat} (h₁ : v₁ < 64) (h₂ : v₂ < 64) (h₃ : v₃ < 64) :
    v₀ <<< 18 ||| v₁ <<< 12 ||| v₂ <<< 6 ||| v₃ =
      v₀ * 2 ^ 18 + v₁ * 2 ^ 12 + v₂ * 2 ^ 6 + v₃ := by
  have hfirst : v₀ <<< 18 ||| v₁ <<< 12 = 2 ^ 18 * v₀ + v₁ * 2 ^ 12 := by
    rw [Nat.shiftLeft_eq, Nat.shiftLeft_eq, Nat.mul_comm v₀]
    exact (Nat.two_pow_add_eq_or_of_lt (by omega) v₀).symm
  have hsecond : (v₀ <<< 18 ||| v₁ <<< 12) ||| v₂ <<< 6 = 2 ^ 12 * (v₀ * 64 + v₁) + v₂ * 2 ^ 6 := by
    have hsplit : 2 ^ 18 * v₀ + v₁ * 2 ^ 12 = 2 ^ 12 * (v₀ * 64 + v₁) := by ring
    rw [hfirst, hsplit, Nat.shiftLeft_eq]
    exact (Nat.two_pow_add_eq_or_of_lt (by omega) _).symm
  have hsplit : 2 ^ 12 * (v₀ * 64 + v₁) + v₂ * 2 ^ 6 = 2 ^ 6 * (v₀ * 4096 + v₁ * 64 + v₂) := by
    ring
  rw [hsecond, hsplit, ← Nat.two_pow_add_eq_or_of_lt (by omega)]
  ring

/-- The three bytes of a block. -/
theorem bytes_of_block {v₀ v₁ v₂ v₃ : Nat} (h₁ : v₁ < 64) (h₂ : v₂ < 64) (h₃ : v₃ < 64) :
    (UInt8.ofNat ((v₀ <<< 18 ||| v₁ <<< 12 ||| v₂ <<< 6 ||| v₃) >>> 16),
      UInt8.ofNat ((v₀ <<< 18 ||| v₁ <<< 12 ||| v₂ <<< 6 ||| v₃) >>> 8),
      UInt8.ofNat (v₀ <<< 18 ||| v₁ <<< 12 ||| v₂ <<< 6 ||| v₃)) = octets v₀ v₁ v₂ v₃ := by
  have hbyte : ∀ {m n : Nat}, m % 256 = n % 256 → UInt8.ofNat m = UInt8.ofNat n := by
    intro m n h
    rw [← UInt8.toNat_inj, UInt8.toNat_ofNat', UInt8.toNat_ofNat']
    exact h
  rw [block_eq h₁ h₂ h₃, octets, Nat.shiftRight_eq_div_pow, Nat.shiftRight_eq_div_pow,
    Prod.mk.injEq, Prod.mk.injEq]
  refine ⟨hbyte ?_, hbyte ?_, hbyte ?_⟩
  · omega
  · omega
  · omega

/-- What a turn of the loop stores. -/
def blockOf (decodedSize : Nat) (output : Bytes) (v₀ v₁ v₂ v₃ : Nat) : Bytes :=
  let block := v₀ <<< 18 ||| v₁ <<< 12 ||| v₂ <<< 6 ||| v₃
  putByte decodedSize (putByte decodedSize (putByte decodedSize output (block >>> 16))
    (block >>> 8)) block

variable {c₀ c₁ c₂ c₃ : UInt8} {rest output result encoded : Bytes} {decodedSize padding : Nat}

theorem paddedBase64Value_lt {c : UInt8} {v : Nat} (h : paddedBase64Value c = some v) :
    v < 64 := by
  unfold paddedBase64Value at h
  split at h
  · cases h
    decide
  · exact (digit_of_value h).1

theorem paddedBase64Value_pad : paddedBase64Value pad = some 0 := rfl

theorem paddedBase64Value_of_ne {c : UInt8} (h : c ≠ pad) : paddedBase64Value c = value c :=
  if_neg h

/-- A turn of the loop. -/
theorem decodeGroups_cons :
    decodeGroups decodedSize padding (c₀ :: c₁ :: c₂ :: c₃ :: rest) output = some result ↔
      ∃ v₀ v₁ v₂ v₃, value c₀ = some v₀ ∧ value c₁ = some v₁ ∧ paddedBase64Value c₂ = some v₂ ∧
        paddedBase64Value c₃ = some v₃ ∧ ¬(rest ≠ [] ∧ (c₂ = pad ∨ c₃ = pad)) ∧ ¬(c₂ = pad ∧ c₃ ≠ pad) ∧
        ¬(rest = [] ∧ padding = 1 ∧ v₂ &&& 0x03 ≠ 0) ∧
        ¬(rest = [] ∧ padding = 2 ∧ v₁ &&& 0x0f ≠ 0) ∧
        decodeGroups decodedSize padding rest (blockOf decodedSize output v₀ v₁ v₂ v₃) =
          some result := by
  rw [decodeGroups]
  simp only [Option.bind_eq_bind, Option.bind_eq_some_iff, base64Value_eq]
  constructor
  · rintro ⟨v₀, h₀, v₁, h₁, v₂, h₂, v₃, h₃, h⟩
    split at h
    · cases h
    · next hearly =>
        split at h
        · cases h
        · next hlate =>
            split at h
            · cases h
            · next hone =>
                split at h
                · cases h
                · next htwo => exact ⟨v₀, v₁, v₂, v₃, h₀, h₁, h₂, h₃, hearly, hlate, hone, htwo, h⟩
  · rintro ⟨v₀, v₁, v₂, v₃, h₀, h₁, h₂, h₃, hearly, hlate, hone, htwo, h⟩
    refine ⟨v₀, h₀, v₁, h₁, v₂, h₂, v₃, h₃, ?_⟩
    have hearly' : ¬(¬rest = [] ∧ (c₂ = 0x3d ∨ c₃ = 0x3d)) := hearly
    have hlate' : ¬(c₂ = 0x3d ∧ c₃ ≠ 0x3d) := hlate
    rw [if_neg hearly', if_neg hlate', if_neg hone, if_neg htwo]
    exact h

/-- A turn stores the bytes of its values as far as there is room. -/
theorem blockOf_eq {v₀ v₁ v₂ v₃ : Nat} {x y z : UInt8} (h₁ : v₁ < 64) (h₂ : v₂ < 64)
    (h₃ : v₃ < 64) (hbytes : octets v₀ v₁ v₂ v₃ = (x, y, z))
    (hroom : output.length < decodedSize) :
    blockOf decodedSize output v₀ v₁ v₂ v₃ =
      output ++ [x, y, z].take (decodedSize - output.length) := by
  rw [← bytes_of_block h₁ h₂ h₃, Prod.mk.injEq, Prod.mk.injEq] at hbytes
  obtain ⟨rfl, rfl, rfl⟩ := hbytes
  obtain ⟨more, rfl⟩ : ∃ more, decodedSize = output.length + 1 + more :=
    ⟨decodedSize - (output.length + 1), by omega⟩
  have htake : output.length + 1 + more - output.length = more + 1 := by omega
  rw [htake]
  unfold blockOf
  generalize v₀ <<< 18 ||| v₁ <<< 12 ||| v₂ <<< 6 ||| v₃ = block
  match more with
  | 0 => simp [putByte]
  | 1 => simp [putByte]
  | more + 2 =>
      have hput : ∀ (stored : Bytes) (n : Nat), stored.length < output.length + 1 + (more + 2) →
          putByte (output.length + 1 + (more + 2)) stored n = stored ++ [UInt8.ofNat n] :=
        fun _ _ h => if_pos h
      dsimp only
      rw [hput output _ (by omega), hput (output ++ _) _ (by simp),
        hput (output ++ _ ++ _) _ (by simp; omega)]
      simp

theorem paddingOf_last : paddingOf [c₀, c₁, c₂, c₃] =
    (if c₃ = pad then 1 else 0) + (if c₂ = pad then 1 else 0) := by
  simp [paddingOf, pad]
  rfl

theorem paddingOf_cons (h : 2 ≤ rest.length) :
    paddingOf (c₀ :: c₁ :: c₂ :: c₃ :: rest) = paddingOf rest := by
  obtain ⟨n, hn⟩ : ∃ n, rest.length = n + 2 := ⟨rest.length - 2, by omega⟩
  simp [paddingOf, hn]

theorem paddingOf_le (encoded : Bytes) : paddingOf encoded ≤ 2 := by
  unfold paddingOf
  split <;> split <;> omega

theorem decodeGroups_nil : decodeGroups decodedSize padding [] output = some result ↔
    result = output := by
  rw [decodeGroups, Option.some.injEq, eq_comm]
  nofun

theorem ne_pad_of_value {c : UInt8} {v : Nat} (h : value c = some v) : c ≠ pad := by
  rintro rfl
  rw [value_pad] at h
  cases h

/-- A last group without padding. -/
theorem decodeGroups_three (hc₂ : c₂ ≠ pad) (hc₃ : c₃ ≠ pad)
    (hsize : decodedSize = output.length + 3) :
    decodeGroups decodedSize 0 [c₀, c₁, c₂, c₃] output = some result ↔
      ∃ x y z, [c₀, c₁, c₂, c₃] = encode [x, y, z] ∧ result = output ++ [x, y, z] := by
  have htake : decodedSize - output.length = 3 := by omega
  have hstored : ∀ {v₀ v₁ v₂ v₃ : Nat} {x y z : UInt8}, value c₁ = some v₁ → value c₂ = some v₂ →
      value c₃ = some v₃ → octets v₀ v₁ v₂ v₃ = (x, y, z) →
      blockOf decodedSize output v₀ v₁ v₂ v₃ = output ++ [x, y, z] := by
    intro v₀ v₁ v₂ v₃ x y z h₁ h₂ h₃ hoctets
    rw [blockOf_eq (digit_of_value h₁).1 (digit_of_value h₂).1 (digit_of_value h₃).1 hoctets
      (by omega), htake]
    rfl
  rw [decodeGroups_cons, paddedBase64Value_of_ne hc₂, paddedBase64Value_of_ne hc₃]
  simp only [encode_three, group_iff, decodeGroups_nil]
  constructor
  · rintro ⟨v₀, v₁, v₂, v₃, h₀, h₁, h₂, h₃, -, -, -, -, hresult⟩
    rw [hstored h₁ h₂ h₃ rfl] at hresult
    exact ⟨_, _, _, ⟨v₀, v₁, v₂, v₃, h₀, h₁, h₂, h₃, rfl⟩, hresult⟩
  · rintro ⟨x, y, z, ⟨v₀, v₁, v₂, v₃, h₀, h₁, h₂, h₃, hoctets⟩, rfl⟩
    exact ⟨v₀, v₁, v₂, v₃, h₀, h₁, h₂, h₃, fun h => absurd rfl h.1, fun h => hc₂ h.1, by simp,
      by simp, (hstored h₁ h₂ h₃ hoctets).symm⟩

/-- A last group with one padding character: two bits of it are not stored. -/
theorem decodeGroups_two (hc₂ : c₂ ≠ pad) (hsize : decodedSize = output.length + 2) :
    decodeGroups decodedSize 1 [c₀, c₁, c₂, pad] output = some result ↔
      ∃ x y, [c₀, c₁, c₂, pad] = encode [x, y] ∧ result = output ++ [x, y] := by
  have hmask : ∀ v, v &&& 0x03 = v % 4 := fun v => Nat.and_two_pow_sub_one_eq_mod v 2
  have htake : decodedSize - output.length = 2 := by omega
  have hstored : ∀ {v₀ v₁ v₂ : Nat} {x y : UInt8}, value c₁ = some v₁ → value c₂ = some v₂ →
      octets v₀ v₁ v₂ 0 = (x, y, 0) →
      blockOf decodedSize output v₀ v₁ v₂ 0 = output ++ [x, y] := by
    intro v₀ v₁ v₂ x y h₁ h₂ hoctets
    rw [blockOf_eq (digit_of_value h₁).1 (digit_of_value h₂).1 (by decide) hoctets (by omega),
      htake]
    rfl
  rw [decodeGroups_cons, paddedBase64Value_of_ne hc₂, paddedBase64Value_pad]
  simp only [encode_two_iff, decodeGroups_nil, hmask]
  constructor
  · rintro ⟨v₀, v₁, v₂, v₃, h₀, h₁, h₂, h₃, -, -, hbits, -, hresult⟩
    obtain rfl : 0 = v₃ := Option.some.inj h₃
    have hzero : v₂ % 4 = 0 := by simpa using hbits
    have hoctets : octets v₀ v₁ v₂ 0 = ((octets v₀ v₁ v₂ 0).1, (octets v₀ v₁ v₂ 0).2.1, 0) := by
      simp [octets, hzero]
    rw [hstored h₁ h₂ hoctets] at hresult
    exact ⟨_, _, ⟨v₀, v₁, v₂, h₀, h₁, h₂, hoctets⟩, hresult⟩
  · rintro ⟨x, y, ⟨v₀, v₁, v₂, h₀, h₁, h₂, hoctets⟩, rfl⟩
    have hzero : v₂ % 4 = 0 := by
      have hsextets := (octets_eq_iff (digit_of_value h₀).1 (digit_of_value h₁).1
        (digit_of_value h₂).1 (by decide)).mp hoctets
      have hlast : (0 : UInt8).toNat = 0 := rfl
      simp only [sextets, hlast, Prod.mk.injEq] at hsextets
      omega
    exact ⟨v₀, v₁, v₂, 0, h₀, h₁, h₂, rfl, fun h => absurd rfl h.1, fun h => h.2 rfl,
      fun h => h.2.2 hzero, by simp, (hstored h₁ h₂ hoctets).symm⟩

/-- A last group with two padding characters: four bits of it are not stored. -/
theorem decodeGroups_one (hsize : decodedSize = output.length + 1) :
    decodeGroups decodedSize 2 [c₀, c₁, pad, pad] output = some result ↔
      ∃ x, [c₀, c₁, pad, pad] = encode [x] ∧ result = output ++ [x] := by
  have hmask : ∀ v, v &&& 0x0f = v % 16 := fun v => Nat.and_two_pow_sub_one_eq_mod v 4
  have htake : decodedSize - output.length = 1 := by omega
  have hstored : ∀ {v₀ v₁ : Nat} {x : UInt8}, value c₁ = some v₁ →
      octets v₀ v₁ 0 0 = (x, 0, 0) → blockOf decodedSize output v₀ v₁ 0 0 = output ++ [x] := by
    intro v₀ v₁ x h₁ hoctets
    rw [blockOf_eq (digit_of_value h₁).1 (by decide) (by decide) hoctets (by omega), htake]
    rfl
  rw [decodeGroups_cons, paddedBase64Value_pad]
  simp only [encode_one_iff, decodeGroups_nil, hmask]
  constructor
  · rintro ⟨v₀, v₁, v₂, v₃, h₀, h₁, h₂, h₃, -, -, -, hbits, hresult⟩
    obtain rfl : 0 = v₂ := Option.some.inj h₂
    obtain rfl : 0 = v₃ := Option.some.inj h₃
    have hzero : v₁ % 16 = 0 := by simpa using hbits
    have hoctets : octets v₀ v₁ 0 0 = ((octets v₀ v₁ 0 0).1, 0, 0) := by simp [octets, hzero]
    rw [hstored h₁ hoctets] at hresult
    exact ⟨_, ⟨v₀, v₁, h₀, h₁, hoctets⟩, hresult⟩
  · rintro ⟨x, ⟨v₀, v₁, h₀, h₁, hoctets⟩, rfl⟩
    have hzero : v₁ % 16 = 0 := by
      have hsextets := (octets_eq_iff (digit_of_value h₀).1 (digit_of_value h₁).1 (by decide)
        (by decide)).mp hoctets
      have hlast : (0 : UInt8).toNat = 0 := rfl
      simp only [sextets, hlast, Prod.mk.injEq] at hsextets
      omega
    exact ⟨v₀, v₁, 0, 0, h₀, h₁, rfl, rfl, fun h => absurd rfl h.1, fun h => h.2 rfl, by simp,
      fun h => h.2.2 hzero, (hstored h₁ hoctets).symm⟩

/-- A last group whose padding is not at the end. -/
theorem decodeGroups_misplaced (hc₃ : c₃ ≠ pad) :
    decodeGroups decodedSize padding [c₀, c₁, pad, c₃] output ≠ some result := by
  rw [Ne, decodeGroups_cons]
  rintro ⟨-, -, -, -, -, -, -, -, -, hlate, -⟩
  exact hlate ⟨rfl, hc₃⟩

/-- The texts of one group: of one, two or three bytes, by the padding. -/
theorem encode_eq_group {tail : Bytes} (h : [c₀, c₁, c₂, c₃] = encode tail) :
    (c₂ = pad ∧ c₃ = pad ∧ ∃ x, tail = [x]) ∨ (c₂ ≠ pad ∧ c₃ = pad ∧ ∃ x y, tail = [x, y]) ∨
      (c₂ ≠ pad ∧ c₃ ≠ pad ∧ ∃ x y z, tail = [x, y, z]) := by
  rcases tail with _ | ⟨x, _ | ⟨y, _ | ⟨z, _ | ⟨w, more⟩⟩⟩⟩
  · cases h
  · simp only [encode_one, List.cons.injEq, and_true] at h
    exact Or.inl ⟨h.2.2.1, h.2.2.2, x, rfl⟩
  · simp only [encode_two, List.cons.injEq, and_true] at h
    obtain ⟨-, -, hc₂, hc₃⟩ := h
    refine Or.inr (Or.inl ⟨?_, hc₃, x, y, rfl⟩)
    rw [hc₂]
    exact digit_ne_pad (sextets_lt x y 0).2.2.1
  · rw [encode_three] at h
    obtain ⟨_, _, _, _, -, -, h₂, h₃, -⟩ := group_iff.mp h
    exact Or.inr (Or.inr ⟨ne_pad_of_value h₂, ne_pad_of_value h₃, x, y, z, rfl⟩)
  · -- a longer encoding
    have hlength := congrArg List.length h
    rw [length_encode] at hlength
    simp only [List.length_cons, List.length_nil] at hlength
    omega

/-- The last group. -/
theorem decodeGroups_last
    (hsize : decodedSize + paddingOf [c₀, c₁, c₂, c₃] = output.length + 3) :
    decodeGroups decodedSize (paddingOf [c₀, c₁, c₂, c₃]) [c₀, c₁, c₂, c₃] output = some result ↔
      ∃ tail, [c₀, c₁, c₂, c₃] = encode tail ∧ result = output ++ tail := by
  rw [paddingOf_last] at hsize ⊢
  by_cases hc₂ : c₂ = pad
  · subst hc₂
    by_cases hc₃ : c₃ = pad
    · subst hc₃
      rw [if_pos rfl] at hsize ⊢
      rw [decodeGroups_one (by omega)]
      constructor
      · rintro ⟨x, hencode, hresult⟩
        exact ⟨[x], hencode, hresult⟩
      · rintro ⟨tail, hencode, hresult⟩
        rcases encode_eq_group hencode with ⟨-, -, x, rfl⟩ | ⟨hne, -⟩ | ⟨hne, -⟩
        · exact ⟨x, hencode, hresult⟩
        · exact absurd rfl hne
        · exact absurd rfl hne
    · refine iff_of_false (decodeGroups_misplaced hc₃) ?_
      rintro ⟨tail, hencode, -⟩
      rcases encode_eq_group hencode with ⟨-, h, -⟩ | ⟨hne, -⟩ | ⟨hne, -⟩
      · exact hc₃ h
      · exact absurd rfl hne
      · exact absurd rfl hne
  · rw [if_neg hc₂] at hsize ⊢
    by_cases hc₃ : c₃ = pad
    · subst hc₃
      rw [if_pos rfl] at hsize ⊢
      rw [decodeGroups_two hc₂ (by omega)]
      constructor
      · rintro ⟨x, y, hencode, hresult⟩
        exact ⟨[x, y], hencode, hresult⟩
      · rintro ⟨tail, hencode, hresult⟩
        rcases encode_eq_group hencode with ⟨h, -⟩ | ⟨-, -, x, y, rfl⟩ | ⟨-, hne, -⟩
        · exact absurd h hc₂
        · exact ⟨x, y, hencode, hresult⟩
        · exact absurd rfl hne
    · rw [if_neg hc₃] at hsize ⊢
      rw [decodeGroups_three hc₂ hc₃ (by omega)]
      constructor
      · rintro ⟨x, y, z, hencode, hresult⟩
        exact ⟨[x, y, z], hencode, hresult⟩
      · rintro ⟨tail, hencode, hresult⟩
        rcases encode_eq_group hencode with ⟨h, -⟩ | ⟨-, h, -⟩ | ⟨-, -, x, y, z, rfl⟩
        · exact absurd h hc₂
        · exact absurd h hc₃
        · exact ⟨x, y, z, hencode, hresult⟩

/-- A group before the last. -/
theorem decodeGroups_group (hrest : rest ≠ []) (hroom : output.length + 3 ≤ decodedSize) :
    decodeGroups decodedSize padding (c₀ :: c₁ :: c₂ :: c₃ :: rest) output = some result ↔
      ∃ x y z, [c₀, c₁, c₂, c₃] = group x y z ∧
        decodeGroups decodedSize padding rest (output ++ [x, y, z]) = some result := by
  have htake : ∀ x y z : UInt8, [x, y, z].take (decodedSize - output.length) = [x, y, z] := by
    intro x y z
    exact List.take_of_length_le (by simp; omega)
  rw [decodeGroups_cons]
  constructor
  · rintro ⟨v₀, v₁, v₂, v₃, h₀, h₁, h₂, h₃, hearly, -, -, -, hresult⟩
    have hpad : ¬(c₂ = pad ∨ c₃ = pad) := fun h => hearly ⟨hrest, h⟩
    rw [not_or] at hpad
    rw [paddedBase64Value_of_ne hpad.1] at h₂
    rw [paddedBase64Value_of_ne hpad.2] at h₃
    have hoctets : octets v₀ v₁ v₂ v₃ = ((octets v₀ v₁ v₂ v₃).1, (octets v₀ v₁ v₂ v₃).2.1,
      (octets v₀ v₁ v₂ v₃).2.2) := rfl
    refine ⟨_, _, _, group_iff.mpr ⟨v₀, v₁, v₂, v₃, h₀, h₁, h₂, h₃, hoctets⟩, ?_⟩
    rwa [blockOf_eq (digit_of_value h₁).1 (digit_of_value h₂).1 (digit_of_value h₃).1 hoctets
      (by omega), htake] at hresult
  · rintro ⟨x, y, z, hgroup, hresult⟩
    obtain ⟨v₀, v₁, v₂, v₃, h₀, h₁, h₂, h₃, hoctets⟩ := group_iff.mp hgroup
    have hc₂ : c₂ ≠ pad := by
      rintro rfl
      rw [value_pad] at h₂
      cases h₂
    have hc₃ : c₃ ≠ pad := by
      rintro rfl
      rw [value_pad] at h₃
      cases h₃
    refine ⟨v₀, v₁, v₂, v₃, h₀, h₁, (paddedBase64Value_of_ne hc₂).trans h₂,
      (paddedBase64Value_of_ne hc₃).trans h₃, fun h => h.2.elim hc₂ hc₃, fun h => hc₂ h.1,
      fun h => hrest h.1, fun h => hrest h.1, ?_⟩
    rwa [blockOf_eq (digit_of_value h₁).1 (digit_of_value h₂).1 (digit_of_value h₃).1 hoctets
      (by omega), htake]

/-- The groups are those of the text of what they store. -/
theorem decodeGroups_iff (encoded output : Bytes) (hne : encoded ≠ [])
    (hfour : encoded.length % 4 = 0)
    (hsize : decodedSize + paddingOf encoded = output.length + encoded.length / 4 * 3) :
    decodeGroups decodedSize (paddingOf encoded) encoded output = some result ↔
      ∃ tail, encoded = encode tail ∧ result = output ++ tail := by
  induction hn : encoded.length using Nat.strong_induction_on generalizing encoded output with
  | _ n ih =>
    subst hn
    rcases encoded with _ | ⟨c₀, _ | ⟨c₁, _ | ⟨c₂, _ | ⟨c₃, _ | ⟨c, rest⟩⟩⟩⟩⟩
    · exact absurd rfl hne
    · simp at hfour
    · simp at hfour
    · simp at hfour
    · exact decodeGroups_last (by simpa using hsize)
    · simp only [List.length_cons] at hfour hsize
      have hlength : 4 ≤ (c :: rest).length := by
        rw [List.length_cons]
        omega
      have hpadding : paddingOf (c₀ :: c₁ :: c₂ :: c₃ :: c :: rest) = paddingOf (c :: rest) :=
        paddingOf_cons (by omega)
      have hle := paddingOf_le (c :: rest)
      rw [hpadding] at hsize ⊢
      rw [decodeGroups_group (List.cons_ne_nil c rest) (by omega)]
      have hrest := fun x y z => ih (c :: rest).length (by simp) (c :: rest) (output ++ [x, y, z])
        (List.cons_ne_nil c rest) (by rw [List.length_cons]; omega) (by simp; omega) rfl
      simp only [hrest]
      constructor
      · rintro ⟨x, y, z, hgroup, tail, htail, rfl⟩
        refine ⟨x :: y :: z :: tail, ?_, by simp⟩
        rw [encode, ← hgroup, ← htail]
        rfl
      · rintro ⟨tail, htail, rfl⟩
        rcases tail with _ | ⟨x, _ | ⟨y, _ | ⟨z, tail⟩⟩⟩
        · cases htail
        · cases htail
        · cases htail
        · obtain ⟨hgroup, htail⟩ := List.append_inj (show [c₀, c₁, c₂, c₃] ++ _ = _ from htail) rfl
          exact ⟨x, y, z, hgroup, tail, htail, by simp⟩

/-- The size of a text and its padding give that of the bytes. -/
theorem paddingOf_encode {bytes : Bytes} (h : bytes ≠ []) :
    bytes.length + paddingOf (encode bytes) = (encode bytes).length / 4 * 3 := by
  induction bytes using encode.induct with
  | case1 => exact absurd rfl h
  | case2 x =>
      rw [encode_one, paddingOf_last, if_pos rfl]
      simp
  | case3 x y =>
      have hne : digit (sextets x y 0).2.2.1 ≠ pad := digit_ne_pad (sextets_lt x y 0).2.2.1
      rw [encode_two, paddingOf_last, if_pos rfl, if_neg hne]
      simp
  | case4 x y z rest ih =>
      by_cases hrest : rest = []
      · subst hrest
        have h₂ : digit (sextets x y z).2.2.1 ≠ pad := digit_ne_pad (sextets_lt x y z).2.2.1
        have h₃ : digit (sextets x y z).2.2.2 ≠ pad := digit_ne_pad (sextets_lt x y z).2.2.2
        rw [encode_three, group, paddingOf_last, if_neg h₃, if_neg h₂]
        simp
      · have hlength := length_encode rest
        have hpositive := List.length_pos_iff.mpr hrest
        have hsame : paddingOf (encode (x :: y :: z :: rest)) = paddingOf (encode rest) :=
          paddingOf_cons (show 2 ≤ (encode rest).length by omega)
        have hmore : (encode (x :: y :: z :: rest)).length = (encode rest).length + 4 := by
          rw [encode, List.length_append, length_group]
          omega
        have hih := ih hrest
        rw [hsame, hmore]
        simp only [List.length_cons]
        omega

/-- The decoder reads the base64 of what it gives, and nothing else. -/
theorem decodeCanonicalBase64_iff {encoded decoded : Bytes} {capacity : Nat} :
    decodeCanonicalBase64 encoded capacity = some decoded ↔
      decoded ≠ [] ∧ decoded.length ≤ capacity ∧ encoded = encode decoded := by
  unfold decodeCanonicalBase64
  by_cases hshape : encoded.length = 0 ∨ encoded.length % 4 ≠ 0
  · rw [if_pos hshape]
    refine ⟨nofun, ?_⟩
    rintro ⟨hne, -, rfl⟩
    have hpositive := List.length_pos_iff.mpr hne
    rw [length_encode] at hshape
    omega
  · rw [if_neg hshape]
    rw [not_or, not_not] at hshape
    have hne : encoded ≠ [] := fun h => hshape.1 (List.length_eq_zero_iff.mpr h)
    have hle := paddingOf_le encoded
    dsimp only
    generalize hsize : encoded.length / 4 * 3 - paddingOf encoded = decodedSize
    have hgroups : ∀ result, decodeGroups decodedSize (paddingOf encoded) encoded [] = some result ↔
        ∃ tail, encoded = encode tail ∧ result = [] ++ tail := by
      intro result
      exact decodeGroups_iff encoded [] hne hshape.2 (by rw [List.length_nil]; omega)
    split
    · next hcapacity =>
        refine ⟨nofun, ?_⟩
        rintro ⟨hdecoded, hfits, rfl⟩
        have := paddingOf_encode hdecoded
        omega
    · next hcapacity =>
        rw [Option.bind_eq_bind, Option.bind_eq_some_iff]
        constructor
        · rintro ⟨output, houtput, hlength⟩
          split at hlength
          · next hfull =>
              cases hlength
              obtain ⟨tail, htail, rfl⟩ := (hgroups _).mp houtput
              refine ⟨?_, by omega, htail⟩
              rintro rfl
              exact hne htail
          · cases hlength
        · rintro ⟨hdecoded, hfits, rfl⟩
          have hpadding := paddingOf_encode hdecoded
          exact ⟨decoded, (hgroups decoded).mpr ⟨decoded, rfl, rfl⟩, if_pos (by omega)⟩

/-! ## Signatures -/

/-- The order of the curve. -/
def p256Order : Nat := 0xffffffff00000000ffffffffffffffffbce6faada7179e84f3b9cac2fc632551

theorem decodeBe_kP256Order : decodeBe kP256Order = p256Order := by rfl

theorem highBit_iff (c : UInt8) : c &&& 0x80 = 0 ↔ c < 0x80 := by
  rw [← UInt8.toNat_inj, UInt8.lt_iff_toNat_lt, UInt8.toNat_and]
  have hlt := c.toNat_lt
  show c.toNat &&& 2 ^ 7 = 0 ↔ c.toNat < 2 ^ 7
  rw [Nat.and_two_pow, Nat.mul_eq_zero, Nat.toNat_testBit]
  omega

/-- What the first checks of `ScalarInP256Range` say of the contents. -/
theorem minimal_iff_checks {bytes : Bytes} :
    Der.Minimal bytes ↔ bytes.length ≠ 0 ∧ bytes.getD 0 0 &&& 0x80 = 0 ∧
      ¬(1 < bytes.length ∧ bytes.getD 0 0 = 0 ∧ bytes.getD 1 0 &&& 0x80 = 0) := by
  rw [highBit_iff, highBit_iff]
  constructor
  · intro h
    match bytes with
    | [] => exact absurd rfl h.nonempty
    | [b] => exact ⟨nofun, h.sign b [] rfl, fun hlong => absurd hlong.1 (by simp)⟩
    | b :: c :: rest =>
        refine ⟨nofun, h.sign b _ rfl, ?_⟩
        rintro ⟨-, hzero, hc⟩
        obtain rfl : b = 0 := hzero
        exact absurd (h.needed c rest rfl) (UInt8.not_le.mpr hc)
  · rintro ⟨hlength, hsign, hneeded⟩
    refine ⟨fun h => hlength (List.length_eq_zero_iff.mpr h), ?_, ?_⟩
    · rintro b rest rfl
      exact hsign
    · rintro b rest rfl
      exact UInt8.not_lt.mp fun hb => hneeded ⟨by simp, rfl, hb⟩

/-- The last checks compare the digits with those of the order. -/
theorem digits_inRange {n : Nat} :
    (Der.digits n).length ≠ 0 ∧ ((Der.digits n).length < kP256Order.length ∨
      ¬kP256Order.length < (Der.digits n).length ∧ Der.digits n < kP256Order) ↔
      1 ≤ n ∧ n < p256Order := by
  have hlength : kP256Order.length = 32 := rfl
  have hvalue := Der.decodeBe_digits n
  have hbound := Der.decodeBe_lt (Der.digits n)
  rw [hvalue] at hbound
  have hzero : (Der.digits n).length ≠ 0 ↔ 1 ≤ n := by
    rw [ne_eq, List.length_eq_zero_iff, Der.digits_eq_nil]
    omega
  rw [hzero, hlength]
  refine and_congr_right fun _ => ?_
  rcases Nat.lt_trichotomy (Der.digits n).length 32 with hshort | hequal | hlong
  · have hpow : (256 : Nat) ^ (Der.digits n).length ≤ 256 ^ 31 :=
      Nat.pow_le_pow_right (by decide) (by omega)
    have horder : 256 ^ 31 < p256Order := by decide
    exact ⟨fun _ => by omega, fun _ => .inl hshort⟩
  · have hlt : Der.digits n < kP256Order ↔ n < p256Order := by
      rw [Der.lt_iff_decodeBe_lt (hequal.trans hlength.symm), hvalue, decodeBe_kP256Order]
    rw [hlt]
    constructor
    · rintro (h | h)
      · omega
      · exact h.2
    · intro h
      exact .inr ⟨by omega, h⟩
  · have horder : p256Order < 256 ^ 32 := by decide
    constructor
    · rintro (h | h)
      · omega
      · omega
    · intro h
      have := Der.length_digits_le (h.trans horder)
      omega

/-- A scalar is accepted as the contents of an INTEGER below the order. -/
theorem scalarInP256Range_iff {bytes : Bytes} :
    scalarInP256Range bytes = true ↔ ∃ n, 1 ≤ n ∧ n < p256Order ∧ bytes = Der.integer n := by
  have hmain : scalarInP256Range bytes = true ↔
      Der.Minimal bytes ∧ bytes.length ≤ 33 ∧ (bytes.length = 33 → bytes.getD 0 0 = 0) ∧
        1 ≤ decodeBe bytes ∧ decodeBe bytes < p256Order := by
    rw [← digits_inRange, ← Der.dropZeros_eq_digits, minimal_iff_checks]
    have hstripped : (bytes.length = 33 → bytes.getD 0 0 = 0) →
        (if bytes.length = 33 then bytes.drop 1 else bytes).dropWhile (· = 0) =
          bytes.dropWhile (· = 0) := by
      intro hhead
      split
      · next hlength =>
          cases bytes with
          | nil => rfl
          | cons b rest =>
              obtain rfl : b = 0 := hhead hlength
              rfl
      · rfl
    unfold scalarInP256Range
    by_cases hfirst : bytes.length = 0 ∨ 33 < bytes.length ∨ bytes.getD 0 0 &&& 0x80 ≠ 0
    · rw [if_pos hfirst]
      refine ⟨nofun, ?_⟩
      rintro ⟨⟨hlength, hsign, -⟩, hle, -⟩
      rcases hfirst with h | h | h
      · exact absurd h hlength
      · omega
      · exact absurd hsign h
    rw [if_neg hfirst]
    rw [not_or, not_or, not_not] at hfirst
    obtain ⟨hlength, hle, hsign⟩ := hfirst
    by_cases hspare : 1 < bytes.length ∧ bytes.getD 0 0 = 0 ∧ bytes.getD 1 0 &&& 0x80 = 0
    · rw [if_pos hspare]
      exact ⟨nofun, fun h => absurd hspare h.1.2.2⟩
    rw [if_neg hspare]
    by_cases hlong : bytes.length = 33 ∧ bytes.getD 0 0 ≠ 0
    · rw [if_pos hlong]
      exact ⟨nofun, fun h => absurd (h.2.2.1 hlong.1) hlong.2⟩
    rw [if_neg hlong]
    have hhead : bytes.length = 33 → bytes.getD 0 0 = 0 := by
      intro h
      by_contra hne
      exact hlong ⟨h, hne⟩
    dsimp only
    rw [hstripped hhead]
    constructor
    · intro h
      refine ⟨⟨hlength, hsign, hspare⟩, by omega, hhead, ?_⟩
      split at h
      · cases h
      · next hvalue =>
          refine ⟨hvalue, ?_⟩
          split at h
          · next hshort => exact .inl hshort
          · split at h
            · cases h
            · next hnotLong => exact .inr ⟨hnotLong, of_decide_eq_true h⟩
    · rintro ⟨-, -, -, hvalue, hrange⟩
      rw [if_neg hvalue]
      split
      · rfl
      · next hshort =>
          obtain ⟨hnotLong, hless⟩ := hrange.resolve_left hshort
          rw [if_neg hnotLong]
          exact decide_eq_true hless
  rw [hmain]
  constructor
  · rintro ⟨hminimal, -, -, hpositive, hbelow⟩
    exact ⟨_, hpositive, hbelow, Der.minimal_iff.mp hminimal⟩
  · rintro ⟨n, hpositive, hbelow, rfl⟩
    have hfits : n < 256 ^ 32 := hbelow.trans (by decide)
    rw [Der.decodeBe_integer]
    refine ⟨Der.integer_minimal n, Der.length_integer_le hfits, ?_, hpositive, hbelow⟩
    intro hlength
    obtain ⟨rest, hrest⟩ := Der.integer_of_length hfits hlength
    rw [hrest]
    rfl

/-- A scalar of a signature. -/
def IsScalar (n : Nat) : Prop := 1 ≤ n ∧ n < p256Order

theorem length_scalar {n : Nat} (h : IsScalar n) :
    1 ≤ (Der.integer n).length ∧ (Der.integer n).length ≤ 33 := by
  have hfits : n < 256 ^ 32 := h.2.trans (by decide)
  exact ⟨List.length_pos_iff.mpr (Der.integer_minimal n).nonempty, Der.length_integer_le hfits⟩

theorem skipScalar_iff {signature rest : Bytes} :
    skipScalar signature = some rest ↔
      ∃ n, IsScalar n ∧ signature = Der.element 0x02 (Der.integer n) ++ rest := by
  constructor
  · intro h
    unfold skipScalar at h
    split at h
    · next tag size more =>
        split at h
        · cases h
        · next htag =>
            split at h
            · cases h
            · next hchecks =>
                cases h
                rw [not_not] at htag
                rw [not_or, not_or, not_or, not_not] at hchecks
                obtain ⟨-, -, hroom, hrange⟩ := hchecks
                obtain ⟨n, hpositive, hbelow, htake⟩ := scalarInP256Range_iff.mp hrange
                have hlength : (Der.integer n).length = size.toNat := by
                  rw [← htake, List.length_take]
                  omega
                refine ⟨n, ⟨hpositive, hbelow⟩, ?_⟩
                rw [htag, Der.element, hlength, UInt8.ofNat_toNat, ← htake]
                simp
    · cases h
  · rintro ⟨n, hscalar, rfl⟩
    obtain ⟨hpositive, hle⟩ := length_scalar hscalar
    have hsize : (UInt8.ofNat (Der.integer n).length).toNat = (Der.integer n).length := by
      rw [UInt8.toNat_ofNat']
      omega
    have hne : UInt8.ofNat (Der.integer n).length ≠ 0 := by
      intro hzero
      have := congrArg UInt8.toNat hzero
      rw [hsize] at this
      have hnone : (0 : UInt8).toNat = 0 := rfl
      omega
    have hrange := scalarInP256Range_iff.mpr ⟨n, hscalar.1, hscalar.2, rfl⟩
    unfold Der.element skipScalar
    simp only [List.cons_append, hsize, List.take_left', List.drop_left']
    rw [if_neg (by simp), if_neg]
    rw [not_or, not_or, not_or, not_not]
    refine ⟨hne, by omega, ?_, hrange⟩
    rw [List.length_append]
    omega

/-- The signatures that are accepted are the encodings of two scalars. -/
theorem isValidP256EcdsaDer_iff {signature : Bytes} :
    isValidP256EcdsaDer signature = true ↔
      ∃ r s, IsScalar r ∧ IsScalar s ∧ signature = Der.signature r s := by
  constructor
  · intro h
    unfold isValidP256EcdsaDer at h
    split at h
    · next tag size rest =>
        split at h
        · cases h
        · next hchecks =>
            rw [not_or, not_or, not_or, not_or, not_not, not_not] at hchecks
            obtain ⟨-, -, rfl, -, hsize⟩ := hchecks
            obtain ⟨middle, hfirst, hsecond⟩ := Option.bind_eq_some_iff.mp (of_decide_eq_true h)
            obtain ⟨r, hr, rfl⟩ := skipScalar_iff.mp hfirst
            obtain ⟨s, hs, rfl⟩ := skipScalar_iff.mp hsecond
            refine ⟨r, s, hr, hs, ?_⟩
            rw [List.append_nil] at hsize ⊢
            have hlength : size.toNat =
                (Der.element 0x02 (Der.integer r) ++ Der.element 0x02 (Der.integer s)).length :=
              hsize
            rw [Der.signature]
            conv_rhs => rw [Der.element, ← hlength, UInt8.ofNat_toNat]
    · cases h
  · rintro ⟨r, s, hr, hs, rfl⟩
    obtain ⟨hrpositive, hrle⟩ := length_scalar hr
    obtain ⟨hspositive, hsle⟩ := length_scalar hs
    have hlength : (Der.element 0x02 (Der.integer r) ++ Der.element 0x02 (Der.integer s)).length =
        (Der.integer r).length + (Der.integer s).length + 4 := by
      simp only [Der.element, List.length_append, List.length_cons]
      omega
    generalize hcontents : Der.element 0x02 (Der.integer r) ++ Der.element 0x02 (Der.integer s) =
      contents at hlength
    have hsize : (UInt8.ofNat contents.length).toNat = contents.length := by
      rw [UInt8.toNat_ofNat']
      omega
    have hshort : ¬0x80 ≤ UInt8.ofNat contents.length := by
      rw [UInt8.le_iff_toNat_le, hsize]
      have hlimit : (0x80 : UInt8).toNat = 128 := rfl
      omega
    have hlimit : kMaximumEcdsaDerBytes = 80 := rfl
    have hfirst : skipScalar contents = some (Der.element 0x02 (Der.integer s)) :=
      skipScalar_iff.mpr ⟨r, hr, hcontents.symm⟩
    have hsecond : skipScalar (Der.element 0x02 (Der.integer s)) = some [] :=
      skipScalar_iff.mpr ⟨s, hs, (List.append_nil _).symm⟩
    unfold Der.signature
    rw [hcontents, Der.element]
    unfold isValidP256EcdsaDer
    dsimp only
    rw [if_neg]
    · rw [hfirst, Option.bind_some, hsecond]
      rfl
    · rw [hsize]
      simp only [List.length_cons]
      rintro (h | h | h | h | h)
      · omega
      · omega
      · exact h rfl
      · exact hshort h
      · omega

/-! ## Lines -/

/-- A text and its line feed. -/
def lineOf (text : Bytes) : Bytes := text ++ [0x0a]

theorem nextLine_iff {cursor line rest : Bytes} :
    nextLine cursor = some (line, rest) ↔ (0x0a : UInt8) ∉ line ∧ cursor = lineOf line ++ rest := by
  unfold lineOf
  induction cursor generalizing line with
  | nil =>
      rw [nextLine]
      simp
  | cons c cursor ih =>
      rw [nextLine]
      by_cases hc : c = 0x0a
      · subst hc
        rw [if_pos rfl, Option.some.injEq, Prod.mk.injEq]
        constructor
        · rintro ⟨rfl, rfl⟩
          exact ⟨List.not_mem_nil, rfl⟩
        · rintro ⟨hline, hcursor⟩
          cases line with
          | nil => exact ⟨rfl, (List.cons.inj hcursor).2⟩
          | cons d line =>
              obtain rfl := (List.cons.inj hcursor).1
              exact absurd List.mem_cons_self hline
      · rw [if_neg hc, Option.map_eq_some_iff]
        constructor
        · rintro ⟨⟨line', rest'⟩, hnext, heq⟩
          cases heq
          obtain ⟨hline, rfl⟩ := ih.mp hnext
          refine ⟨?_, rfl⟩
          rw [List.mem_cons, not_or]
          exact ⟨fun h => hc h.symm, hline⟩
        · rintro ⟨hline, hcursor⟩
          cases line with
          | nil => exact absurd (List.cons.inj hcursor).1 hc
          | cons d line =>
              obtain ⟨rfl, hrest⟩ := List.cons.inj hcursor
              rw [List.mem_cons, not_or] at hline
              exact ⟨(line, rest), ih.mpr ⟨hline.2, hrest⟩, rfl⟩

theorem nextLine_lineOf {line rest : Bytes} (h : (0x0a : UInt8) ∉ line) :
    nextLine (lineOf line ++ rest) = some (line, rest) :=
  nextLine_iff.mpr ⟨h, rfl⟩

theorem lineStartsWith_iff {line start value : Bytes} :
    lineStartsWith line start = some value ↔ value ≠ [] ∧ line = start ++ value := by
  unfold lineStartsWith
  constructor
  · intro h
    split at h
    · cases h
    · next hchecks =>
        cases h
        rw [not_or, not_not, List.isPrefixOf_iff_prefix] at hchecks
        obtain ⟨hlength, value, rfl⟩ := hchecks
        rw [List.drop_left]
        refine ⟨?_, rfl⟩
        rintro rfl
        simp at hlength
  · rintro ⟨hne, rfl⟩
    have hpositive := List.length_pos_iff.mpr hne
    rw [if_neg, List.drop_left]
    rw [not_or, not_not, List.isPrefixOf_iff_prefix, List.length_append]
    exact ⟨by omega, List.prefix_append start value⟩

/-! ## Records -/

/-- The bytes of a key id after its first. -/
def IdentifierByte (c : UInt8) : Prop := isAlphaNumeric c = true ∨ c ∈ bytesOf "._-"

/-- A key id that may sign. -/
structure IsKeyId (id : Bytes) : Prop where
  length : id.length ≤ kMaximumSigningKeyIdBytes
  first : ∃ c rest, id = c :: rest ∧ isAlphaNumeric c = true
  bytes : ∀ c ∈ id, IdentifierByte c

theorem identifierByte_iff (c : UInt8) :
    (isAlphaNumeric c || c == 0x2e || c == 0x5f || c == 0x2d) = true ↔ IdentifierByte c := by
  have hbytes : bytesOf "._-" = [0x2e, 0x5f, 0x2d] := by decide
  unfold IdentifierByte
  rw [hbytes]
  simp [or_assoc]

theorem isIdentifier_iff {id : Bytes} : isIdentifier id = true ↔ IsKeyId id := by
  unfold isIdentifier
  cases id with
  | nil => exact ⟨nofun, fun h => by obtain ⟨c, rest, h, -⟩ := h.first; cases h⟩
  | cons c rest =>
      rw [Bool.and_eq_true, Bool.and_eq_true, decide_eq_true_eq, List.all_eq_true]
      constructor
      · rintro ⟨⟨hlength, hfirst⟩, hrest⟩
        refine ⟨hlength, ⟨c, rest, rfl, hfirst⟩, ?_⟩
        intro d hd
        rcases List.mem_cons.mp hd with rfl | hd
        · exact .inl hfirst
        · exact (identifierByte_iff d).mp (hrest d hd)
      · rintro ⟨hlength, ⟨c', rest', heq, hfirst⟩, hbytes⟩
        cases heq
        refine ⟨⟨hlength, hfirst⟩, ?_⟩
        intro d hd
        exact (identifierByte_iff d).mpr (hbytes d (List.mem_cons_of_mem c hd))

/-- A signature of a key. -/
structure SignatureRecord where
  keyId : Bytes
  r : Nat
  s : Nat
  keyId_valid : IsKeyId keyId
  r_scalar : IsScalar r
  s_scalar : IsScalar s

namespace SignatureRecord

/-- What the parser returns of a record. -/
def signature (record : SignatureRecord) : ReleaseSignature :=
  ⟨record.keyId, Der.signature record.r record.s⟩

end SignatureRecord

/-- The three lines of a record. -/
def ReleaseSignature.render (signature : ReleaseSignature) : Bytes :=
  lineOf (kKeyPrefix ++ signature.keyId) ++ lineOf kAlgorithmLine ++
    lineOf (kSignaturePrefix ++ encode signature.der)

/-- The text of an envelope. -/
def renderEnvelope (signatures : List ReleaseSignature) : Bytes :=
  lineOf kEnvelopeHeader ++ (signatures.map ReleaseSignature.render).flatten

/-- One to four records in the order of their keys. -/
structure SignatureEnvelope where
  records : List SignatureRecord
  nonempty : records ≠ []
  count : records.length ≤ kMaximumReleaseSignatures
  ordered : (records.map (·.keyId)).Pairwise (· < ·)

/-- What the parser returns of an envelope. -/
def SignatureEnvelope.signatures (envelope : SignatureEnvelope) : List ReleaseSignature :=
  envelope.records.map (·.signature)

/-- A byte of a line of an envelope. -/
def Printable (c : UInt8) : Prop := 0x20 ≤ c ∧ c ≤ 0x7e

theorem printable_identifier {c : UInt8} (h : IdentifierByte c) : Printable c := by
  rcases h with h | h
  · simp only [isAlphaNumeric, Bool.or_eq_true, Bool.and_eq_true, decide_eq_true_eq] at h
    rcases h with (⟨hlow, hhigh⟩ | ⟨hlow, hhigh⟩) | ⟨hlow, hhigh⟩
    all_goals exact ⟨UInt8.le_trans (by decide) hlow, UInt8.le_trans hhigh (by decide)⟩
  · have hmarks : ∀ c ∈ bytesOf "._-", Printable c := by
      unfold Printable
      simp [bytesOf]
    exact hmarks c h

/-- A rendered line has only printable characters. -/
theorem printable_render (record : SignatureRecord) :
    (∀ c ∈ kKeyPrefix ++ record.signature.keyId, Printable c) ∧
      (∀ c ∈ kAlgorithmLine, Printable c) ∧
      ∀ c ∈ kSignaturePrefix ++ encode record.signature.der, Printable c := by
  have htexts : (∀ c ∈ kKeyPrefix, Printable c) ∧ (∀ c ∈ kAlgorithmLine, Printable c) ∧
      ∀ c ∈ kSignaturePrefix, Printable c := by
    unfold Printable
    simp [kKeyPrefix, kAlgorithmLine, kSignaturePrefix, bytesOf]
  refine ⟨?_, htexts.2.1, ?_⟩
  · intro c hc
    rcases List.mem_append.mp hc with hc | hc
    · exact htexts.1 c hc
    · exact printable_identifier (record.keyId_valid.bytes c hc)
  · intro c hc
    rcases List.mem_append.mp hc with hc | hc
    · exact htexts.2.2 c hc
    · obtain ⟨hlow, hhigh⟩ := graphic_encode c hc
      exact ⟨UInt8.le_trans (by decide) hlow, hhigh⟩

theorem noLineFeed {line : Bytes} (h : ∀ c ∈ line, Printable c) : (0x0a : UInt8) ∉ line :=
  fun hmem => absurd (h 0x0a hmem).1 (by decide)

theorem render_append (signature : ReleaseSignature) (rest : Bytes) :
    signature.render ++ rest =
      lineOf (kKeyPrefix ++ signature.keyId) ++ (lineOf kAlgorithmLine ++
        (lineOf (kSignaturePrefix ++ encode signature.der) ++ rest)) := by
  simp only [ReleaseSignature.render, List.append_assoc]

theorem parseRecord_iff {previousKey : Option Bytes} {cursor rest : Bytes}
    {signature : ReleaseSignature} :
    parseRecord previousKey cursor = .ok (signature, rest) ↔
      ∃ record : SignatureRecord, record.signature = signature ∧
        cursor = signature.render ++ rest ∧ ∀ previous ∈ previousKey, previous < record.keyId := by
  constructor
  · intro h
    unfold parseRecord at h
    cases hkeyLine : nextLine cursor with
    | none => rw [hkeyLine] at h; cases h
    | some result =>
    obtain ⟨keyLine, cursor₁⟩ := result
    rw [hkeyLine] at h
    dsimp only at h
    cases halgorithmLine : nextLine cursor₁ with
    | none => rw [halgorithmLine] at h; cases h
    | some result =>
    obtain ⟨algorithmLine, cursor₂⟩ := result
    rw [halgorithmLine] at h
    dsimp only at h
    cases hsignatureLine : nextLine cursor₂ with
    | none => rw [hsignatureLine] at h; cases h
    | some result =>
    obtain ⟨signatureLine, cursor₃⟩ := result
    rw [hsignatureLine] at h
    dsimp only at h
    cases hkey : lineStartsWith keyLine kKeyPrefix with
    | none => rw [hkey] at h; cases h
    | some key =>
    rw [hkey] at h
    dsimp only at h
    simp only [reject_bind_eq_ok, not_not] at h
    obtain ⟨hidentifier, horder, halgorithm, h⟩ := h
    cases hencoded : lineStartsWith signatureLine kSignaturePrefix with
    | none => rw [hencoded] at h; cases h
    | some encoded =>
    rw [hencoded] at h
    dsimp only at h
    cases hder : decodeCanonicalBase64 encoded kMaximumEcdsaDerBytes with
    | none => rw [hder] at h; cases h
    | some der =>
    rw [hder] at h
    dsimp only at h
    rw [reject_bind_eq_ok, not_not] at h
    obtain ⟨hvalid, h⟩ := h
    cases h
    obtain ⟨-, -, rfl⟩ := decodeCanonicalBase64_iff.mp hder
    obtain ⟨r, s, hr, hs, rfl⟩ := isValidP256EcdsaDer_iff.mp hvalid
    obtain ⟨-, rfl⟩ := lineStartsWith_iff.mp hkey
    obtain ⟨-, rfl⟩ := lineStartsWith_iff.mp hencoded
    obtain ⟨-, rfl⟩ := nextLine_iff.mp hkeyLine
    obtain ⟨-, rfl⟩ := nextLine_iff.mp halgorithmLine
    obtain ⟨-, rfl⟩ := nextLine_iff.mp hsignatureLine
    subst halgorithm
    refine ⟨⟨key, r, s, isIdentifier_iff.mp hidentifier, hr, hs⟩, rfl, ?_, ?_⟩
    · rw [render_append]
    · intro previous hprevious
      by_contra hless
      exact horder ⟨previous, hprevious, hless⟩
  · rintro ⟨record, rfl, rfl, horder⟩
    obtain ⟨hkey, halgorithm, hsignature⟩ := printable_render record
    have hidentifier := isIdentifier_iff.mpr record.keyId_valid
    have hvalid := isValidP256EcdsaDer_iff.mpr
      ⟨record.r, record.s, record.r_scalar, record.s_scalar, rfl⟩
    have hdecode : decodeCanonicalBase64 (encode record.signature.der) kMaximumEcdsaDerBytes =
        some record.signature.der := by
      refine decodeCanonicalBase64_iff.mpr ⟨nofun, ?_, rfl⟩
      have hr := length_scalar record.r_scalar
      have hs := length_scalar record.s_scalar
      show (Der.signature record.r record.s).length ≤ 80
      simp only [Der.signature, Der.element, List.length_append, List.length_cons]
      omega
    have hkeyId : record.signature.keyId ≠ [] := by
      obtain ⟨c, rest, hid, -⟩ := record.keyId_valid.first
      show record.keyId ≠ []
      rw [hid]
      nofun
    have hencoded : encode record.signature.der ≠ [] := fun h => nomatch encode_eq_nil.mp h
    unfold parseRecord
    rw [render_append, nextLine_lineOf (noLineFeed hkey)]
    dsimp only
    rw [nextLine_lineOf (noLineFeed halgorithm)]
    dsimp only
    rw [nextLine_lineOf (noLineFeed hsignature)]
    dsimp only
    rw [lineStartsWith_iff.mpr ⟨hkeyId, rfl⟩]
    dsimp only
    simp only [reject_bind_eq_ok, not_not]
    refine ⟨hidentifier, ?_, trivial, ?_⟩
    · rintro ⟨previous, hprevious, hless⟩
      exact hless (horder previous hprevious)
    · rw [lineStartsWith_iff.mpr ⟨hencoded, rfl⟩]
      dsimp only
      rw [hdecode]
      dsimp only
      rw [reject_bind_eq_ok, not_not]
      exact ⟨hvalid, rfl⟩

theorem render_ne_nil (signature : ReleaseSignature) (rest : Bytes) :
    signature.render ++ rest ≠ [] := by
  rw [render_append, lineOf]
  simp

theorem parseRecords_iff {room : Nat} (previousKey : Option Bytes) {cursor : Bytes}
    {signatures : List ReleaseSignature} :
    parseRecords previousKey cursor room = .ok signatures ↔
      ∃ records : List SignatureRecord, records.map (·.signature) = signatures ∧
        cursor = (signatures.map ReleaseSignature.render).flatten ∧ records.length ≤ room ∧
        (records.map (·.keyId)).IsChain (· < ·) ∧
        ∀ previous ∈ previousKey, ∀ first ∈ (records.map (·.keyId)).head?, previous < first := by
  induction room generalizing previousKey cursor signatures with
  | zero =>
      rw [parseRecords]
      constructor
      · intro h
        split at h
        · next hcursor =>
            cases h
            exact ⟨[], rfl, hcursor, Nat.le_refl 0, .nil, nofun⟩
        · cases h
      · rintro ⟨records, rfl, rfl, hcount, -⟩
        obtain rfl := List.length_eq_zero_iff.mp (Nat.le_zero.mp hcount)
        rfl
  | succ room ih =>
      rw [parseRecords]
      constructor
      · intro h
        split at h
        · next hcursor =>
            cases h
            exact ⟨[], rfl, hcursor, Nat.zero_le _, .nil, nofun⟩
        · obtain ⟨⟨signature, cursor'⟩, hrecord, h⟩ := bind_eq_ok.mp h
          obtain ⟨signatures', hrest, h⟩ := bind_eq_ok.mp h
          cases h
          obtain ⟨record, rfl, rfl, hprevious⟩ := parseRecord_iff.mp hrecord
          obtain ⟨records, rfl, rfl, hcount, hchain, hfirst⟩ := (ih _).mp hrest
          refine ⟨record :: records, rfl, rfl, Nat.succ_le_succ hcount, ?_, ?_⟩
          · rw [List.map_cons, List.isChain_cons]
            exact ⟨hfirst record.keyId rfl, hchain⟩
          · rintro previous hmem first ⟨⟩
            exact hprevious previous hmem
      · rintro ⟨records, rfl, rfl, hcount, hchain, hfirst⟩
        cases records with
        | nil => rfl
        | cons record records =>
            rw [List.map_cons, List.isChain_cons] at hchain
            rw [List.map_cons, List.map_cons, List.flatten_cons, if_neg (render_ne_nil _ _)]
            have hrest : parseRecords (some record.signature.keyId)
                ((records.map (·.signature)).map ReleaseSignature.render).flatten room =
                  .ok (records.map (·.signature)) := by
              refine (ih _).mpr ⟨records, rfl, rfl, Nat.le_of_succ_le_succ hcount, hchain.2, ?_⟩
              rintro previous ⟨⟩
              exact hchain.1
            generalize ((records.map (·.signature)).map ReleaseSignature.render).flatten = cursor
              at hrest ⊢
            have hrecord : parseRecord previousKey (record.signature.render ++ cursor) =
                .ok (record.signature, cursor) := by
              refine parseRecord_iff.mpr ⟨record, rfl, rfl, ?_⟩
              intro previous hprevious
              exact hfirst previous hprevious record.keyId rfl
            exact bind_eq_ok.mpr ⟨_, hrecord, bind_eq_ok.mpr ⟨_, hrest, rfl⟩⟩

/-! ## Envelopes -/

theorem checkBytes_iff {bytes : Bytes} {u : Unit} :
    checkBytes bytes = .ok u ↔ ∀ c ∈ bytes, c ≠ 0x0d ∧ c ≤ 0x7f := by
  induction bytes with
  | nil => exact ⟨fun _ => nofun, fun _ => rfl⟩
  | cons c bytes ih =>
      rw [checkBytes, List.forall_mem_cons, ← ih]
      split
      · next hcr => exact ⟨nofun, fun h => absurd hcr h.1.1⟩
      · next hcr =>
          split
          · next hascii => exact ⟨nofun, fun h => absurd hascii (UInt8.not_lt.mpr h.1.2)⟩
          · next hascii => exact ⟨fun h => ⟨⟨hcr, UInt8.not_lt.mp hascii⟩, h⟩, fun h => h.2⟩

/-- A byte of an envelope. -/
def EnvelopeByte (c : UInt8) : Prop := Printable c ∨ c = 0x0a

theorem envelopeByte_lineOf {text : Bytes} (h : ∀ c ∈ text, Printable c) :
    ∀ c ∈ lineOf text, EnvelopeByte c := by
  intro c hc
  rcases List.mem_append.mp hc with hc | hc
  · exact .inl (h c hc)
  · exact .inr (List.mem_singleton.mp hc)

theorem envelopeByte_render (record : SignatureRecord) :
    ∀ c ∈ record.signature.render, EnvelopeByte c := by
  obtain ⟨hkey, halgorithm, hsignature⟩ := printable_render record
  intro c hc
  rcases List.mem_append.mp hc with hc | hc
  · rcases List.mem_append.mp hc with hc | hc
    · exact envelopeByte_lineOf hkey c hc
    · exact envelopeByte_lineOf halgorithm c hc
  · exact envelopeByte_lineOf hsignature c hc

theorem printable_header : ∀ c ∈ kEnvelopeHeader, Printable c := by
  unfold Printable
  simp [kEnvelopeHeader, bytesOf]

theorem envelopeByte_renderEnvelope (records : List SignatureRecord) :
    ∀ c ∈ renderEnvelope (records.map (·.signature)), EnvelopeByte c := by
  intro c hc
  rcases List.mem_append.mp hc with hc | hc
  · exact envelopeByte_lineOf printable_header c hc
  · obtain ⟨text, htext, hc⟩ := List.mem_flatten.mp hc
    obtain ⟨signature, hsignature, rfl⟩ := List.mem_map.mp htext
    obtain ⟨record, -, rfl⟩ := List.mem_map.mp hsignature
    exact envelopeByte_render record c hc

theorem length_der (record : SignatureRecord) :
    record.signature.der.length ≤ 72 := by
  have hr := length_scalar record.r_scalar
  have hs := length_scalar record.s_scalar
  show (Der.signature record.r record.s).length ≤ 72
  simp only [Der.signature, Der.element, List.length_append, List.length_cons]
  omega

theorem length_render (record : SignatureRecord) : record.signature.render.length ≤ 210 := by
  have hder := length_der record
  have hid : record.signature.keyId.length ≤ 64 := record.keyId_valid.length
  have htexts : kKeyPrefix.length = 8 ∧ kAlgorithmLine.length = 28 ∧
      kSignaturePrefix.length = 11 := by decide
  unfold ReleaseSignature.render lineOf
  simp only [List.length_append, List.length_singleton, length_encode, htexts]
  omega

theorem length_renderEnvelope (envelope : SignatureEnvelope) :
    (renderEnvelope envelope.signatures).length ≤ kMaximumSignatureEnvelopeBytes := by
  have hrecords : ∀ records : List SignatureRecord,
      ((records.map (·.signature)).map ReleaseSignature.render).flatten.length ≤
        210 * records.length := by
    intro records
    induction records with
    | nil => exact Nat.zero_le _
    | cons record records ih =>
        have hrecord := length_render record
        simp only [List.map_cons, List.flatten_cons, List.length_append, List.length_cons]
        omega
  have hheader : (lineOf kEnvelopeHeader).length = 17 := by decide
  have hall := hrecords envelope.records
  have hcount : envelope.records.length ≤ 4 := envelope.count
  rw [renderEnvelope, List.length_append, hheader]
  show 17 + _ ≤ 4096
  unfold SignatureEnvelope.signatures
  omega

theorem getLast?_render (signature : ReleaseSignature) :
    signature.render.getLast? = some 0x0a := by
  rw [ReleaseSignature.render, lineOf, lineOf, lineOf, ← List.append_assoc, List.getLast?_concat]

theorem getLast?_renderEnvelope (signatures : List ReleaseSignature) :
    (renderEnvelope signatures).getLast? = some 0x0a := by
  have hlines : ∀ text : Bytes, text.getLast? = some 0x0a →
      (text ++ (signatures.map ReleaseSignature.render).flatten).getLast? = some 0x0a := by
    induction signatures with
    | nil =>
        intro text htext
        rwa [List.map_nil, List.flatten_nil, List.append_nil]
    | cons signature signatures ih =>
        intro text _
        rw [List.map_cons, List.flatten_cons, ← List.append_assoc]
        apply ih
        rw [List.getLast?_append, getLast?_render, Option.some_or]
  apply hlines
  decide

/-- **Signature envelopes have one canonical form.**  The parser accepts the texts of envelopes
and gives the signatures of the envelope; a text is determined by them, and the size limits leave
no envelope out. -/
theorem parseSignatureEnvelope_canonical {signatureCapacity : Nat}
    (hcapacity : kMaximumReleaseSignatures ≤ signatureCapacity) :
    (∀ bytes signatures, parseSignatureEnvelope bytes signatureCapacity = .ok signatures ↔
      ∃ envelope : SignatureEnvelope, envelope.signatures = signatures ∧
        bytes = renderEnvelope signatures) ∧
    (∀ bytes bytes' signatures, parseSignatureEnvelope bytes signatureCapacity = .ok signatures →
      parseSignatureEnvelope bytes' signatureCapacity = .ok signatures → bytes = bytes') ∧
    ∀ envelope : SignatureEnvelope,
      (renderEnvelope envelope.signatures).length ≤ kMaximumSignatureEnvelopeBytes ∧
        ∀ signature ∈ envelope.signatures, signature.der.length ≤ kMaximumEcdsaDerBytes := by
  have hiff : ∀ bytes signatures, parseSignatureEnvelope bytes signatureCapacity = .ok signatures ↔
      ∃ envelope : SignatureEnvelope, envelope.signatures = signatures ∧
        bytes = renderEnvelope signatures := by
    intro bytes signatures
    have hroom : min kMaximumReleaseSignatures signatureCapacity = 4 := Nat.min_eq_left hcapacity
    unfold parseSignatureEnvelope
    simp only [reject_bind_eq_ok, hroom]
    constructor
    · rintro ⟨-, -, h⟩
      obtain ⟨_, -, h⟩ := bind_eq_ok.mp h
      cases hline : nextLine bytes with
      | none => rw [hline] at h; cases h
      | some result =>
      obtain ⟨line, cursor⟩ := result
      rw [hline] at h
      dsimp only at h
      simp only [reject_bind_eq_ok, not_not] at h
      obtain ⟨rfl, h⟩ := h
      obtain ⟨signatures', hrecords, h⟩ := bind_eq_ok.mp h
      rw [reject_bind_eq_ok] at h
      obtain ⟨hne, h⟩ := h
      cases h
      obtain ⟨records, rfl, rfl, hcount, hchain, -⟩ := (parseRecords_iff none).mp hrecords
      obtain ⟨-, rfl⟩ := nextLine_iff.mp hline
      exact ⟨⟨records, fun h => hne (List.map_eq_nil_iff.mpr h), hcount,
        List.isChain_iff_pairwise.mp hchain⟩, rfl, rfl⟩
    · rintro ⟨envelope, rfl, rfl⟩
      have hlast := getLast?_renderEnvelope envelope.signatures
      have hlength := length_renderEnvelope envelope
      have hbytes : checkBytes (renderEnvelope envelope.signatures) = .ok () := by
        rw [checkBytes_iff]
        intro c hc
        rcases envelopeByte_renderEnvelope envelope.records c hc with ⟨hlow, hhigh⟩ | rfl
        · refine ⟨?_, UInt8.le_trans hhigh (by decide)⟩
          rintro rfl
          exact absurd hlow (by decide)
        · decide
      have hpositive : (renderEnvelope envelope.signatures).length ≠ 0 := by
        intro h
        rw [List.length_eq_zero_iff.mp h] at hlast
        cases hlast
      refine ⟨by omega, not_not.mpr hlast, ?_⟩
      rw [hbytes]
      refine bind_eq_ok.mpr ⟨(), rfl, ?_⟩
      rw [renderEnvelope, nextLine_lineOf (noLineFeed printable_header)]
      dsimp only
      simp only [reject_bind_eq_ok, not_not, true_and]
      have hrecords := (parseRecords_iff none).mpr ⟨envelope.records, rfl, rfl,
        envelope.count, envelope.ordered.isChain, nofun⟩
      refine bind_eq_ok.mpr ⟨_, hrecords, ?_⟩
      rw [reject_bind_eq_ok]
      exact ⟨fun h => envelope.nonempty (List.map_eq_nil_iff.mp h), rfl⟩
  refine ⟨hiff, ?_, ?_⟩
  · intro bytes bytes' signatures h h'
    obtain ⟨-, -, rfl⟩ := (hiff _ _).mp h
    obtain ⟨-, -, rfl⟩ := (hiff _ _).mp h'
    rfl
  · intro envelope
    refine ⟨length_renderEnvelope envelope, ?_⟩
    intro signature hsignature
    obtain ⟨record, -, rfl⟩ := List.mem_map.mp hsignature
    exact (length_der record).trans (by decide)

theorem parseSignatureEnvelope_canonical_four :
    kMaximumReleaseSignatures ≤ 4 ∧
    (∀ bytes signatures, parseSignatureEnvelope bytes 4 = .ok signatures ↔
      ∃ envelope : SignatureEnvelope, envelope.signatures = signatures ∧
        bytes = renderEnvelope signatures) ∧
    (∀ bytes bytes' signatures, parseSignatureEnvelope bytes 4 = .ok signatures →
      parseSignatureEnvelope bytes' 4 = .ok signatures → bytes = bytes') ∧
    ∀ envelope : SignatureEnvelope,
      (renderEnvelope envelope.signatures).length ≤ kMaximumSignatureEnvelopeBytes ∧
        ∀ signature ∈ envelope.signatures, signature.der.length ≤ kMaximumEcdsaDerBytes :=
  ⟨by decide, parseSignatureEnvelope_canonical (by decide)⟩

end Release

end BmxUpdate
