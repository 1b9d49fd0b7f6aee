import BmxUpdate.Json.Access
import BmxUpdate.Json.Strings

/-!
# Copying the strings of an accepted text

`JsonCopyString` decodes a string token again, after `ParseString` has checked
it.  The two agree on every escape but those of NUL: `\u0000` decodes to the
terminator of the copied string, and a backslash before a NUL byte, which
`ParseString` lets through, has no decoding.  Everything else comes out as the
characters the string denotes, in UTF-8 (`jsonCopyString_faithful_iff`).
-/

namespace BmxUpdate

namespace Json

open Wire JsonGrammar

/-- A string token of a text that `ParseJson` accepts. -/
structure StringToken where
  json : Bytes
  capacity : Nat
  maxDepth : Nat
  token : JsonToken
  accepted : (parseJson (some json) capacity maxDepth).1.error = none
  mem : token ∈ (parseJson (some json) capacity maxDepth).2
  string : token.type = .string

namespace StringToken

variable (s : StringToken)

def text : Bytes := s.token.text s.json

/-- What `JsonCopyString` makes of it in a buffer of that size. -/
def copy (size : Nat) : Except JsonError Bytes := jsonCopyString s.json s.token size

theorem denotes (hnul : escapesNul s.text = false) : ∃ chars, Denotes s.text chars := by
  obtain ⟨x, hchars⟩ := parseJson_holdsString s.accepted s.mem s.string
  have hE : ∀ e, Accepted e → e = 0 ∨ EscapeLetter e := fun _ => accepted_iff.mp
  obtain ⟨t, ht, hdenotes⟩ := hchars.denotes hE
  have htext : s.text = t := List.append_cancel_right ht
  rw [htext] at hnul ⊢
  exact hdenotes hnul

end StringToken

/-! ## The loop of the decoder -/

theorem utf8_eq {c : Char} {v : Nat} (hc : c.toNat = v) : utf8 v = String.utf8EncodeChar c := by
  have hval : c.val.toNat = v := hc
  have hsize : v < 0x110000 := by
    have hvalid := c.valid
    simp only [UInt32.isValidChar, Nat.isValidChar] at hvalid
    omega
  unfold utf8 String.utf8EncodeChar
  simp only [hval]
  split
  · rfl
  · split
    · simp only [List.cons.injEq, ← UInt8.toNat_inj, UInt8.toNat_ofNat', and_true]
      omega
    · split
      · simp only [List.cons.injEq, ← UInt8.toNat_inj, UInt8.toNat_ofNat', and_true]
        omega
      · simp only [List.cons.injEq, ← UInt8.toNat_inj, UInt8.toNat_ofNat', and_true]
        omega

theorem decodeNext_letter {e : UInt8} {c : Char} (h : LetterValue e c) (t : Bytes) :
    decodeNext (0x5c :: e :: t) = some (String.utf8EncodeChar c, t) := by
  cases h <;> rfl

theorem decodeNext_unit {c : Char} {t r : Bytes} (h : CodeUnit c.toNat t r) :
    decodeNext (0x5c :: 0x75 :: t) = some (String.utf8EncodeChar c, r) := by
  obtain ⟨hunit, -, hr⟩ := parseHex4_eq_some.mpr h
  have hhigh : ¬ (0xd800 ≤ c.toNat ∧ c.toNat ≤ 0xdbff) := by
    have hvalid := c.valid
    have hval : c.val.toNat = c.toNat := rfl
    simp only [UInt32.isValidChar, Nat.isValidChar] at hvalid
    omega
  have hdecode : decodeUnicode t = some (c.toNat, r) := by
    unfold decodeUnicode
    rw [hunit, ← hr]
    simp only [Option.bind_eq_bind, Option.bind_some]
    rw [if_neg hhigh]
  simp only [decodeNext, ne_eq, not_true, if_false, hdecode, Option.map_some]
  rw [utf8_eq rfl]

theorem decodeNext_pair {c : Char} {v w : Nat} {t u r : Bytes}
    (hv : CodeUnit v t (0x5c :: 0x75 :: u)) (hhigh : HighSurrogate v) (hw : CodeUnit w u r)
    (hlow : LowSurrogate w) (hc : c.toNat = pairValue v w) :
    decodeNext (0x5c :: 0x75 :: t) = some (String.utf8EncodeChar c, r) := by
  obtain ⟨hunit, -, hrest⟩ := parseHex4_eq_some.mpr hv
  obtain ⟨hunit', -, hr⟩ := parseHex4_eq_some.mpr hw
  unfold HighSurrogate at hhigh
  unfold LowSurrogate at hlow
  have hdecode : decodeUnicode t = some (pairValue v w, r) := by
    unfold decodeUnicode
    rw [hunit, hrest]
    simp only [Option.bind_eq_bind, Option.bind_some]
    rw [if_pos hhigh, hunit']
    simp only [Option.bind_some]
    rw [if_pos hlow, hr]
    rfl
  simp only [decodeNext, ne_eq, not_true, if_false, hdecode, Option.map_some]
  rw [utf8_eq hc]

section Loop

variable {size : Nat}

/-- One round that decodes. -/
theorem copyLoop_step {fuel : Nat} {t rest decoded output : Bytes}
    (h : decodeNext t = some (decoded, rest)) :
    copyLoop size (fuel + 1) t output =
      if size ≤ output.length + decoded.length then .error .outputTooSmall
      else copyLoop size fuel rest (output ++ decoded) := by
  cases t with
  | nil => cases h
  | cons c t => rw [copyLoop, h]

/-- Bytes without a backslash are copied one by one. -/
theorem copyLoop_plain {fuel : Nat} {s t output : Bytes} (hs : (0x5c : UInt8) ∉ s)
    (hroom : output.length < size) :
    copyLoop size (fuel + s.length) (s ++ t) output =
      if size ≤ output.length + s.length then .error .outputTooSmall
      else copyLoop size fuel t (output ++ s) := by
  induction s generalizing output with
  | nil =>
      have hfits : ¬ size ≤ output.length := by omega
      simp [hfits]
  | cons c s ih =>
      have hc : c ≠ 0x5c := by
        rintro rfl
        exact hs List.mem_cons_self
      have hs' : (0x5c : UInt8) ∉ s := fun h => hs (List.mem_cons_of_mem c h)
      have hnext : decodeNext (c :: (s ++ t)) = some ([c], s ++ t) := by
        simp [decodeNext, hc]
      have hlength : output.length + (s.length + 1) = (output ++ [c]).length + s.length := by
        simp only [List.length_cons, List.length_append, List.length_nil]
        omega
      rw [List.cons_append, List.length_cons, ← Nat.add_assoc, copyLoop_step hnext, hlength]
      by_cases hfull : size ≤ output.length + [c].length
      · rw [if_pos hfull, if_pos (by simp at hfull ⊢; omega)]
      · rw [if_neg hfull, ih hs' (by simp at hfull ⊢; omega), List.append_assoc,
          List.singleton_append]

/-- The loop writes the characters a string denotes, as far as they fit. -/
theorem copyLoop_denotes {t : Bytes} {chars : List Char} (h : Denotes t chars) {fuel : Nat}
    {output : Bytes} (hfuel : t.length ≤ fuel) (hroom : output.length < size) :
    copyLoop size fuel t output =
      if size ≤ output.length + (encode chars).length then .error .outputTooSmall
      else .ok (output ++ encode chars) := by
  -- One character decoded, the rest by induction.
  have hescape : ∀ {fuel : Nat} {t rest output : Bytes} {c : Char} {chars : List Char},
      decodeNext t = some (String.utf8EncodeChar c, rest) → rest.length < t.length →
      t.length ≤ fuel →
      (∀ {fuel : Nat} {output : Bytes}, rest.length ≤ fuel → output.length < size →
        copyLoop size fuel rest output =
          if size ≤ output.length + (encode chars).length then .error .outputTooSmall
          else .ok (output ++ encode chars)) →
      copyLoop size fuel t output =
        if size ≤ output.length + (encode (c :: chars)).length then .error .outputTooSmall
        else .ok (output ++ encode (c :: chars)) := by
    intro fuel t rest output c chars hnext hshorter hfuel ih
    obtain ⟨fuel, rfl⟩ : ∃ n, fuel = n + 1 := ⟨fuel - 1, by omega⟩
    rw [copyLoop_step hnext, encode_cons, List.length_append]
    by_cases hfull : size ≤ output.length + (String.utf8EncodeChar c).length
    · rw [if_pos hfull, if_pos (by omega)]
    · rw [if_neg hfull, ih (by omega) (by rw [List.length_append]; omega), List.length_append,
        Nat.add_assoc, List.append_assoc]
  induction h generalizing fuel output with
  | nil =>
      have hfits : ¬ size ≤ output.length := by omega
      cases fuel <;> simp [copyLoop, hfits]
  | @char c t chars hlow hquote hslash _ ih =>
      have hbytes : (0x5c : UInt8) ∉ String.utf8EncodeChar c := by
        rcases utf8EncodeChar_cases c with ⟨hc, heq⟩ | ⟨hc, hall⟩
        · rw [heq, List.mem_singleton, ← UInt8.toNat_inj, UInt8.toNat_ofNat']
          have hne : c.toNat ≠ '\\'.toNat := fun heq => hslash (Char.toNat_inj.mp heq)
          have hslash' : '\\'.toNat = 0x5c := rfl
          have hslash'' : (0x5c : UInt8).toNat = 0x5c := rfl
          omega
        · intro hmem
          exact absurd (hall _ hmem) (by decide)
      rw [List.length_append] at hfuel
      obtain ⟨fuel, rfl⟩ : ∃ n, fuel = n + (String.utf8EncodeChar c).length :=
        ⟨fuel - (String.utf8EncodeChar c).length, by omega⟩
      rw [copyLoop_plain hbytes hroom, encode_cons, List.length_append]
      by_cases hfull : size ≤ output.length + (String.utf8EncodeChar c).length
      · rw [if_pos hfull, if_pos (by omega)]
      · rw [if_neg hfull, ih (by omega) (by rw [List.length_append]; omega),
          List.length_append, Nat.add_assoc, List.append_assoc]
  | letter he _ ih =>
      exact hescape (decodeNext_letter he _) (by simp only [List.length_cons]; omega) hfuel ih
  | unit hunit _ ih =>
      have hlength := hunit.length
      exact hescape (decodeNext_unit hunit) (by simp only [List.length_cons]; omega) hfuel ih
  | pair hv hhigh hw hlow hc _ ih =>
      have hlength := hv.length
      have hlength' := hw.length
      simp only [List.length_cons] at hlength
      exact hescape (decodeNext_pair hv hhigh hw hlow hc) (by simp only [List.length_cons]; omega)
        hfuel ih

end Loop

/-! ## Copies -/

theorem takeWhile_encode {chars : List Char} (h : ∀ c ∈ chars, c.toNat ≠ 0) :
    (encode chars).takeWhile (· ≠ 0) = encode chars := by
  rw [List.takeWhile_eq_self_iff]
  intro b hb
  simp only [ne_eq, decide_not, Bool.not_eq_eq_eq_not, Bool.not_true, decide_eq_false_iff_not]
  rintro rfl
  obtain ⟨c, hc, hzero⟩ := List.mem_flatMap.mp hb
  exact h c hc (zero_mem_utf8EncodeChar.mp hzero)

/-- What is copied of a string that denotes something: its characters, up to a NUL. -/
theorem StringToken.copy_denotes (s : StringToken) {chars : List Char}
    (h : Denotes s.text chars) (size : Nat) :
    s.copy size =
      if size = 0 then .error .argument
      else if size ≤ (encode chars).length then .error .outputTooSmall
      else .ok ((encode chars).takeWhile (· ≠ 0)) := by
  unfold StringToken.copy jsonCopyString
  by_cases hsize : size = 0
  · rw [if_pos hsize, if_pos hsize]
  · have hloop := copyLoop_denotes h (le_refl _) (show ([] : Bytes).length < size by simp; omega)
    simp only [List.length_nil, Nat.zero_add, List.nil_append] at hloop
    rw [if_neg hsize, if_neg hsize, if_neg (not_not.mpr s.string)]
    unfold StringToken.text at hloop
    rw [hloop]
    split <;> rfl

/-- The copy of a string is what it denotes, in UTF-8, wherever the terminator fits too. -/
def FaithfulCopy (s : StringToken) : Prop :=
  ∃ chars, Denotes s.text chars ∧ ∀ size, s.copy size =
    if size = 0 then .error .argument
    else if size ≤ (encode chars).length then .error .outputTooSmall
    else .ok (encode chars)

theorem faithfulCopy_iff (s : StringToken) : FaithfulCopy s ↔ escapesNul s.text = false := by
  constructor
  · rintro ⟨chars, hchars, hcopy⟩
    have hsize := hcopy ((encode chars).length + 1)
    rw [s.copy_denotes hchars, if_neg (by omega), if_neg (by omega), if_neg (by omega),
      if_neg (by omega)] at hsize
    have htake := Except.ok.inj hsize
    rw [Bool.eq_false_iff]
    intro hnul
    obtain ⟨c, hc, hzero⟩ := hchars.escapesNul_iff.mp hnul
    have hmem : (0 : UInt8) ∈ encode chars :=
      List.mem_flatMap.mpr ⟨c, hc, zero_mem_utf8EncodeChar.mpr hzero⟩
    rw [List.takeWhile_eq_self_iff] at htake
    exact absurd (htake 0 hmem) (by decide)
  · intro hnul
    obtain ⟨chars, hchars⟩ := s.denotes hnul
    have hnone : ∀ c ∈ chars, c.toNat ≠ 0 := by
      intro c hc hzero
      rw [hchars.escapesNul_iff.mpr ⟨c, hc, hzero⟩] at hnul
      cases hnul
    refine ⟨chars, hchars, ?_⟩
    intro size
    rw [s.copy_denotes hchars, takeWhile_encode hnone]

/-- A string denotes one sequence of characters. -/
theorem StringToken.denotes_unique (s : StringToken) {chars chars' : List Char}
    (h : Denotes s.text chars) (h' : Denotes s.text chars') : chars = chars' := by
  have hfuel : s.text.length ≤ s.text.length := le_refl _
  let size := (encode chars).length + (encode chars').length + 1
  have hroom : ([] : Bytes).length < size := by simp [size]
  have hloop := copyLoop_denotes h hfuel hroom
  rw [copyLoop_denotes h' hfuel hroom, if_neg (by simp only [size, List.length_nil]; omega),
    if_neg (by simp only [size, List.length_nil]; omega)] at hloop
  exact encode_injective (Except.ok.inj hloop).symm

/-- Copies of strings without an escaped NUL tell the strings apart. -/
theorem FaithfulCopy.denotes {s : StringToken} (h : FaithfulCopy s) {size : Nat} {output : Bytes}
    (hcopy : s.copy size = .ok output) {chars : List Char} (hchars : Denotes s.text chars) :
    output = encode chars := by
  obtain ⟨chars', hchars', hcopies⟩ := h
  obtain rfl := s.denotes_unique hchars hchars'
  rw [hcopies] at hcopy
  split at hcopy
  · cases hcopy
  · split at hcopy
    · cases hcopy
    · exact (Except.ok.inj hcopy).symm

/-- `JsonCopyString` gives the text of a string, and tells it from every other string, exactly
when the string does not escape a NUL. -/
theorem jsonCopyString_faithful_iff (s : StringToken) :
    (FaithfulCopy s ↔ escapesNul s.text = false) ∧
      (escapesNul s.text = false →
        ∀ s' : StringToken, escapesNul s'.text = false →
          ∀ size size' output, s.copy size = .ok output → s'.copy size' = .ok output →
            ∀ chars chars', Denotes s.text chars → Denotes s'.text chars' → chars = chars') := by
  refine ⟨faithfulCopy_iff s, ?_⟩
  intro hnul s' hnul' size size' output hcopy hcopy' chars chars' hchars hchars'
  have hfaithful := (faithfulCopy_iff s).mpr hnul
  have hfaithful' := (faithfulCopy_iff s').mpr hnul'
  apply encode_injective
  rw [← hfaithful.denotes hcopy hchars, ← hfaithful'.denotes hcopy' hchars']

/-- The string of a letter. -/
def plainLetter : StringToken :=
  ⟨[0x22, 0x61, 0x22], 1, 1, ⟨.string, 1, 2, -1, 0⟩, by decide, by decide, rfl⟩

/-- The string of the escape of that letter. -/
def escapedLetter : StringToken :=
  ⟨[0x22, 0x5c, 0x75, 0x30, 0x30, 0x36, 0x31, 0x22], 1, 1, ⟨.string, 1, 7, -1, 0⟩, by decide,
    by decide, rfl⟩

/-- They are copied alike, so they are one text. -/
theorem jsonCopyString_faithful_iff_letter : FaithfulCopy plainLetter ∧
    ∀ chars chars', Denotes plainLetter.text chars → Denotes escapedLetter.text chars' →
      chars = chars' := by
  have hplain : escapesNul plainLetter.text = false := by decide
  have hescaped : escapesNul escapedLetter.text = false := by decide
  have hcopy : plainLetter.copy 16 = .ok [0x61] := by decide
  have hcopy' : escapedLetter.copy 16 = .ok [0x61] := by decide
  obtain ⟨hfaithful, hdistinct⟩ := jsonCopyString_faithful_iff plainLetter
  exact ⟨hfaithful.mpr hplain, hdistinct hplain escapedLetter hescaped 16 16 _ hcopy hcopy'⟩

/-- Two different strings are copied as the same C string, and an escape `ParseJson` accepts is
not decoded. -/
theorem jsonCopyString_aliases :
    (∃ s s' : StringToken, ∃ chars chars', Denotes s.text chars ∧ Denotes s'.text chars' ∧
      chars ≠ chars' ∧ s.copy 16 = .ok [0x61] ∧ s'.copy 16 = .ok [0x61]) ∧
    ∃ s : StringToken, s.copy 16 = .error .string := by
  refine ⟨⟨⟨[0x22, 0x61, 0x5c, 0x75, 0x30, 0x30, 0x30, 0x30, 0x62, 0x22], 1, 1,
      ⟨.string, 1, 9, -1, 0⟩, by decide, by decide, rfl⟩,
    ⟨[0x22, 0x61, 0x22], 1, 1, ⟨.string, 1, 2, -1, 0⟩, by decide, by decide, rfl⟩,
    ['a', '\x00', 'b'], ['a'], ?_, ?_, by decide, by decide, by decide⟩, ?_⟩
  · have hb : Denotes (String.utf8EncodeChar 'b' ++ []) ['b'] :=
      .char (by decide) (by decide) (by decide) .nil
    have hzero : CodeUnit '\x00'.toNat
        (0x30 :: 0x30 :: 0x30 :: 0x30 :: (String.utf8EncodeChar 'b' ++ []))
        (String.utf8EncodeChar 'b' ++ []) :=
      parseHex4_eq_some.mp ⟨by decide, by decide, rfl⟩
    have ha : Denotes (String.utf8EncodeChar 'a' ++ _) ['a', '\x00', 'b'] :=
      .char (by decide) (by decide) (by decide) (.unit hzero hb)
    exact ha
  · have ha : Denotes (String.utf8EncodeChar 'a' ++ []) ['a'] :=
      .char (by decide) (by decide) (by decide) .nil
    exact ha
  · exact ⟨⟨[0x22, 0x5c, 0x00, 0x22], 1, 1, ⟨.string, 1, 3, -1, 0⟩, by decide, by decide, rfl⟩,
      by decide⟩

end Json

end BmxUpdate
