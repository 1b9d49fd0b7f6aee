import BmxUpdate.Library.JsonGrammar

/-!
# What a JSON string means

A string of the grammar stands for a sequence of characters (`Denotes`): those
it holds in UTF-8, and those its escapes name.  `encode` is UTF-8 again, with
every escape resolved; it loses nothing (`encode_injective`).  An escape of NUL
is the one way to a zero byte in it (`Denotes.escapesNul_iff`).
-/

namespace JsonGrammar

open Wire

/-! ## Characters in UTF-8 -/

/-- The characters in UTF-8. -/
def encode (chars : List Char) : Bytes := chars.flatMap String.utf8EncodeChar

@[simp] theorem encode_nil : encode [] = [] := rfl

@[simp] theorem encode_cons (c : Char) (chars : List Char) :
    encode (c :: chars) = String.utf8EncodeChar c ++ encode chars :=
  List.flatMap_cons

theorem utf8EncodeChar_append_inj {c d : Char} {t u : Bytes}
    (h : String.utf8EncodeChar c ++ t = String.utf8EncodeChar d ++ u) : c = d ∧ t = u := by
  have hc := ByteArray.utf8DecodeChar?_utf8EncodeChar_append (b := t.toByteArray) (c := c)
  have hd := ByteArray.utf8DecodeChar?_utf8EncodeChar_append (b := u.toByteArray) (c := d)
  rw [← List.toByteArray_append] at hc hd
  rw [h, hd] at hc
  obtain rfl : d = c := Option.some.inj hc
  exact ⟨rfl, List.append_cancel_left h⟩

/-- UTF-8 tells every two texts apart. -/
theorem encode_injective {chars chars' : List Char} (h : encode chars = encode chars') :
    chars = chars' := by
  induction chars generalizing chars' with
  | nil =>
      cases chars' with
      | nil => rfl
      | cons d chars' =>
          rw [encode_nil, encode_cons] at h
          exact absurd (List.append_eq_nil_iff.mp h.symm).1 String.utf8EncodeChar_ne_nil
  | cons c chars ih =>
      cases chars' with
      | nil =>
          rw [encode_nil, encode_cons] at h
          exact absurd (List.append_eq_nil_iff.mp h).1 String.utf8EncodeChar_ne_nil
      | cons d chars' =>
          rw [encode_cons, encode_cons] at h
          obtain ⟨rfl, hrest⟩ := utf8EncodeChar_append_inj h
          rw [ih hrest]

/-- The bytes of a character are its own, or none of them is ASCII. -/
theorem utf8EncodeChar_cases (c : Char) :
    (c.toNat < 0x80 ∧ String.utf8EncodeChar c = [UInt8.ofNat c.toNat]) ∨
      (0x80 ≤ c.toNat ∧ ∀ b ∈ String.utf8EncodeChar c, 0x80 ≤ b.toNat) := by
  have hval : c.val.toNat = c.toNat := rfl
  have hsize : c.toNat < 0x110000 := by
    have := c.valid
    simp only [UInt32.isValidChar, Nat.isValidChar] at this
    omega
  unfold String.utf8EncodeChar
  simp only [hval]
  split
  · exact .inl ⟨by omega, rfl⟩
  · refine .inr ⟨by omega, ?_⟩
    split
    · simp only [List.mem_cons, List.not_mem_nil, or_false]
      rintro b (rfl | rfl) <;> simp only [UInt8.toNat_ofNat'] <;> omega
    · split
      · simp only [List.mem_cons, List.not_mem_nil, or_false]
        rintro b (rfl | rfl | rfl) <;> simp only [UInt8.toNat_ofNat'] <;> omega
      · simp only [List.mem_cons, List.not_mem_nil, or_false]
        rintro b (rfl | rfl | rfl | rfl) <;> simp only [UInt8.toNat_ofNat'] <;> omega

theorem zero_mem_utf8EncodeChar {c : Char} :
    (0 : UInt8) ∈ String.utf8EncodeChar c ↔ c.toNat = 0 := by
  rcases utf8EncodeChar_cases c with ⟨hc, h⟩ | ⟨hc, h⟩
  · rw [h, List.mem_singleton, ← UInt8.toNat_inj, UInt8.toNat_ofNat']
    simp only [UInt8.toNat_zero]
    omega
  · constructor
    · intro hzero
      exact absurd (h 0 hzero) (by decide)
    · omega

/-! ## Escapes -/

/-- The characters the letters after a backslash name. -/
inductive LetterValue : UInt8 → Char → Prop
  | quote : LetterValue 0x22 '"'
  | backslash : LetterValue 0x5c '\\'
  | slash : LetterValue 0x2f '/'
  | backspace : LetterValue 0x62 '\x08'
  | formFeed : LetterValue 0x66 '\x0c'
  | lineFeed : LetterValue 0x6e '\n'
  | carriageReturn : LetterValue 0x72 '\r'
  | tab : LetterValue 0x74 '\t'

/-- The code point of a surrogate pair. -/
def pairValue (high low : Nat) : Nat := 0x10000 + (high - 0xd800) * 1024 + (low - 0xdc00)

/-- The characters a string stands for. -/
inductive Denotes : Bytes → List Char → Prop
  | nil : Denotes [] []
  | char {c : Char} {t : Bytes} {chars : List Char} : 0x20 ≤ c.toNat → c ≠ '"' → c ≠ '\\' →
      Denotes t chars → Denotes (String.utf8EncodeChar c ++ t) (c :: chars)
  | letter {e : UInt8} {c : Char} {t : Bytes} {chars : List Char} : LetterValue e c →
      Denotes t chars → Denotes (0x5c :: e :: t) (c :: chars)
  | unit {c : Char} {t r : Bytes} {chars : List Char} : CodeUnit c.toNat t r →
      Denotes r chars → Denotes (0x5c :: 0x75 :: t) (c :: chars)
  | pair {c : Char} {v w : Nat} {t u r : Bytes} {chars : List Char} :
      CodeUnit v t (0x5c :: 0x75 :: u) → HighSurrogate v → CodeUnit w u r → LowSurrogate w →
      c.toNat = pairValue v w → Denotes r chars → Denotes (0x5c :: 0x75 :: t) (c :: chars)

/-- Some backslash escapes a NUL, as four zero digits or as the byte itself. -/
def escapesNul : Bytes → Bool
  | [] => false
  | c :: t =>
      if c = 0x5c then
        match t with
        | [] => false
        | e :: u =>
            decide (e = 0) || decide (e = 0x75 ∧ u.take 4 = [0x30, 0x30, 0x30, 0x30]) ||
              escapesNul u
      else escapesNul t

@[simp] theorem escapesNul_nil : escapesNul [] = false := rfl

theorem escapesNul_slash (e : UInt8) (t : Bytes) :
    escapesNul (0x5c :: e :: t) =
      (decide (e = 0) || decide (e = 0x75 ∧ t.take 4 = [0x30, 0x30, 0x30, 0x30]) ||
        escapesNul t) := by
  simp [escapesNul]

theorem escapesNul_cons {c : UInt8} (hc : c ≠ 0x5c) (t : Bytes) :
    escapesNul (c :: t) = escapesNul t := by
  rw [escapesNul.eq_def]
  simp only [if_neg hc]

theorem escapesNul_append {s t : Bytes} (h : (0x5c : UInt8) ∉ s) :
    escapesNul (s ++ t) = escapesNul t := by
  induction s with
  | nil => rfl
  | cons c s ih =>
      have hc : c ≠ 0x5c := by
        rintro rfl
        exact h List.mem_cons_self
      have hs : (0x5c : UInt8) ∉ s := fun hs => h (List.mem_cons_of_mem c hs)
      rw [List.cons_append, escapesNul_cons hc, ih hs]

/-! ## Hexadecimal units -/

theorem Hex.zero_iff {c : UInt8} {v : Nat} (h : Hex c v) : v = 0 ↔ c = 0x30 := by
  rw [← UInt8.toNat_inj]
  have hzero : (0x30 : UInt8).toNat = 0x30 := rfl
  cases h <;> omega

theorem Hex.ne_slash {c : UInt8} {v : Nat} (h : Hex c v) : c ≠ 0x5c := by
  rintro rfl
  have hslash : (0x5c : UInt8).toNat = 0x5c := rfl
  cases h <;> omega

/-- A unit reads four bytes, whatever follows them. -/
theorem CodeUnit.split {v : Nat} {t r : Bytes} (h : CodeUnit v t r) :
    ∃ s, t = s ++ r ∧ s.length = 4 ∧ (0x5c : UInt8) ∉ s ∧
      (v = 0 ↔ s = [0x30, 0x30, 0x30, 0x30]) ∧ ∀ r', CodeUnit v (s ++ r') r' := by
  obtain ⟨hw, hx, hy, hz⟩ := h
  refine ⟨[_, _, _, _], rfl, rfl, ?_, ?_, fun r' => .mk hw hx hy hz⟩
  · simp only [List.mem_cons, List.not_mem_nil, or_false, not_or]
    exact ⟨hw.ne_slash.symm, hx.ne_slash.symm, hy.ne_slash.symm, hz.ne_slash.symm⟩
  · simp only [List.cons.injEq, and_true]
    rw [← hw.zero_iff, ← hx.zero_iff, ← hy.zero_iff, ← hz.zero_iff]
    omega

theorem CodeUnit.take {v : Nat} {t r : Bytes} (h : CodeUnit v t r) :
    t.take 4 = [0x30, 0x30, 0x30, 0x30] ↔ v = 0 := by
  obtain ⟨s, rfl, hlength, -, hzero, -⟩ := h.split
  rw [List.take_append_of_le_length (by omega), List.take_of_length_le (by omega), hzero]

theorem CodeUnit.escapesNul {v : Nat} {t r : Bytes} (h : CodeUnit v t r) :
    escapesNul t = escapesNul r := by
  obtain ⟨s, rfl, -, hslash, -, -⟩ := h.split
  exact escapesNul_append hslash

theorem CodeUnit.lt {v : Nat} {t r : Bytes} (h : CodeUnit v t r) : v < 0x10000 := by
  have hdigit : ∀ {c : UInt8} {d : Nat}, Hex c d → d < 16 := by
    intro c d hd
    cases hd <;> omega
  obtain ⟨hw, hx, hy, hz⟩ := h
  have := hdigit hw
  have := hdigit hx
  have := hdigit hy
  have := hdigit hz
  omega

/-! ## Escapes of NUL -/

theorem LetterValue.escapesNul {e : UInt8} {c : Char} (h : LetterValue e c) (t : Bytes) :
    escapesNul (0x5c :: e :: t) = escapesNul t := by
  rw [escapesNul_slash]
  cases h <;> rfl

theorem LetterValue.pos {e : UInt8} {c : Char} (h : LetterValue e c) : c.toNat ≠ 0 := by
  cases h <;> decide

/-- A string has a NUL exactly where it escapes one. -/
theorem Denotes.escapesNul_iff {t : Bytes} {chars : List Char} (h : Denotes t chars) :
    escapesNul t = true ↔ ∃ c ∈ chars, c.toNat = 0 := by
  induction h with
  | nil => simp
  | @char c t chars hlow hquote hslash _ ih =>
      have hbytes : (0x5c : UInt8) ∉ String.utf8EncodeChar c := by
        rcases utf8EncodeChar_cases c with ⟨hc, heq⟩ | ⟨hc, hall⟩
        · rw [heq, List.mem_singleton, ← UInt8.toNat_inj, UInt8.toNat_ofNat']
          have hne : c.toNat ≠ '\\'.toNat := fun heq => hslash (Char.toNat_inj.mp heq)
          have hslash' : '\\'.toNat = 0x5c := rfl
          have hslash'' : (0x5c : UInt8).toNat = 0x5c := rfl
          omega
        · intro hmem
          exact absurd (hall _ hmem) (by decide)
      have hpos : c.toNat ≠ 0 := by omega
      rw [escapesNul_append hbytes, ih]
      simp only [List.mem_cons, exists_eq_or_imp, hpos, false_or]
  | letter he _ ih =>
      rw [he.escapesNul, ih]
      simp only [List.mem_cons, exists_eq_or_imp, he.pos, false_or]
  | unit hunit _ ih =>
      rw [escapesNul_slash, hunit.escapesNul, Bool.or_eq_true, Bool.or_eq_true, ih]
      simp only [List.mem_cons, exists_eq_or_imp, decide_eq_true_eq, true_and, hunit.take]
      simp
  | @pair c v w t u r chars hv hhigh hw hlow hc _ ih =>
      have hvzero : v ≠ 0 := by
        unfold HighSurrogate at hhigh
        omega
      have hczero : c.toNat ≠ 0 := by
        unfold pairValue at hc
        omega
      rw [escapesNul_slash, hv.escapesNul, escapesNul_slash, hw.escapesNul, Bool.or_eq_true,
        Bool.or_eq_true, Bool.or_eq_true, Bool.or_eq_true, ih]
      have hwzero : w ≠ 0 := by
        unfold LowSurrogate at hlow
        omega
      simp [hv.take, hw.take, hvzero, hwzero, hczero]

/-! ## Every string of the grammar -/

theorem exists_char {v : Nat} (h : v < 0xd800 ∨ 0xdfff < v ∧ v < 0x110000) :
    ∃ c : Char, c.toNat = v := by
  have hvalid : v.isValidChar := by
    unfold Nat.isValidChar
    omega
  refine ⟨Char.ofNat v, ?_⟩
  unfold Char.ofNat
  rw [dif_pos hvalid]
  rfl

/-- A longer sequence is one character. -/
theorem Utf8.char {t r : Bytes} (h : Utf8 t r) :
    ∃ c : Char, 0x80 ≤ c.toNat ∧ t = String.utf8EncodeChar c ++ r := by
  have htwo : ∀ {a b : UInt8}, 0xc2 ≤ a.toNat → a.toNat ≤ 0xdf → Tail b →
      ∃ c : Char, 0x80 ≤ c.toNat ∧ a :: b :: r = String.utf8EncodeChar c ++ r := by
    intro a b ha ha' hb
    unfold Tail at hb
    obtain ⟨c, hc⟩ := exists_char (v := a.toNat % 32 * 64 + b.toNat % 64) (by omega)
    have hval : c.val.toNat = a.toNat % 32 * 64 + b.toNat % 64 := hc
    refine ⟨c, by omega, ?_⟩
    unfold String.utf8EncodeChar
    simp only [hval]
    rw [if_neg (by omega), if_pos (by omega)]
    simp only [List.cons_append, List.nil_append, List.cons.injEq, ← UInt8.toNat_inj,
      UInt8.toNat_ofNat', and_true]
    omega
  have hthree : ∀ {a b d : UInt8}, 0xe0 ≤ a.toNat → a.toNat ≤ 0xef → Tail b → Tail d →
      (a.toNat = 0xe0 → 0xa0 ≤ b.toNat) → (a.toNat = 0xed → b.toNat ≤ 0x9f) →
      ∃ c : Char, 0x80 ≤ c.toNat ∧ a :: b :: d :: r = String.utf8EncodeChar c ++ r := by
    intro a b d ha ha' hb hd hfirst hsurrogate
    unfold Tail at hb hd
    obtain ⟨c, hc⟩ := exists_char
      (v := (a.toNat % 16 * 64 + b.toNat % 64) * 64 + d.toNat % 64) (by omega)
    have hval : c.val.toNat = (a.toNat % 16 * 64 + b.toNat % 64) * 64 + d.toNat % 64 := hc
    refine ⟨c, by omega, ?_⟩
    unfold String.utf8EncodeChar
    simp only [hval]
    rw [if_neg (by omega), if_neg (by omega), if_pos (by omega)]
    simp only [List.cons_append, List.nil_append, List.cons.injEq, ← UInt8.toNat_inj,
      UInt8.toNat_ofNat', and_true]
    omega
  have hfour : ∀ {a b d e : UInt8}, 0xf0 ≤ a.toNat → a.toNat ≤ 0xf4 → Tail b → Tail d →
      Tail e → (a.toNat = 0xf0 → 0x90 ≤ b.toNat) → (a.toNat = 0xf4 → b.toNat ≤ 0x8f) →
      ∃ c : Char, 0x80 ≤ c.toNat ∧ a :: b :: d :: e :: r = String.utf8EncodeChar c ++ r := by
    intro a b d e ha ha' hb hd he hfirst hlast
    unfold Tail at hb hd he
    obtain ⟨c, hc⟩ := exists_char
      (v := ((a.toNat % 8 * 64 + b.toNat % 64) * 64 + d.toNat % 64) * 64 + e.toNat % 64)
      (by omega)
    have hval : c.val.toNat =
        ((a.toNat % 8 * 64 + b.toNat % 64) * 64 + d.toNat % 64) * 64 + e.toNat % 64 := hc
    refine ⟨c, by omega, ?_⟩
    unfold String.utf8EncodeChar
    simp only [hval]
    rw [if_neg (by omega), if_neg (by omega), if_neg (by omega)]
    simp only [List.cons_append, List.nil_append, List.cons.injEq, ← UInt8.toNat_inj,
      UInt8.toNat_ofNat', and_true]
    omega
  cases h with
  | two ha ha' hb => exact htwo ha ha' hb
  | threeFirst ha hb' hb hc =>
      exact hthree (by omega) (by omega) hb hc (fun _ => hb') (by omega)
  | three ha ha' hsurrogate hb hc =>
      exact hthree (by omega) ha' hb hc (by omega) fun h => absurd h hsurrogate
  | threeSurrogate ha hb' hb hc =>
      exact hthree (by omega) (by omega) hb hc (by omega) fun _ => hb'
  | fourFirst ha hb' hb hc hd =>
      exact hfour (by omega) (by omega) hb hc hd (fun _ => hb') (by omega)
  | four ha ha' hb hc hd => exact hfour (by omega) (by omega) hb hc hd (by omega) (by omega)
  | fourLast ha hb' hb hc hd =>
      exact hfour (by omega) (by omega) hb hc hd (by omega) fun _ => hb'

theorem Plain.char {c : UInt8} (h : Plain c) :
    ∃ d : Char, 0x20 ≤ d.toNat ∧ d ≠ '"' ∧ d ≠ '\\' ∧ String.utf8EncodeChar d = [c] := by
  obtain ⟨hlow, hhigh, hquote, hslash⟩ := h
  obtain ⟨d, hd⟩ := exists_char (v := c.toNat) (by omega)
  have hval : d.val.toNat = c.toNat := hd
  refine ⟨d, by omega, ?_, ?_, ?_⟩
  · rintro rfl
    exact hquote (UInt8.toNat_inj.mp hd.symm)
  · rintro rfl
    exact hslash (UInt8.toNat_inj.mp hd.symm)
  · unfold String.utf8EncodeChar
    simp only [hval]
    rw [if_pos (by omega), UInt8.ofNat_toNat]

theorem EscapeLetter.value {e : UInt8} (h : EscapeLetter e) : ∃ c, LetterValue e c := by
  simp only [EscapeLetter, List.mem_cons, List.not_mem_nil, or_false] at h
  rcases h with rfl | rfl | rfl | rfl | rfl | rfl | rfl | rfl
  · exact ⟨_, .quote⟩
  · exact ⟨_, .backslash⟩
  · exact ⟨_, .slash⟩
  · exact ⟨_, .backspace⟩
  · exact ⟨_, .formFeed⟩
  · exact ⟨_, .lineFeed⟩
  · exact ⟨_, .carriageReturn⟩
  · exact ⟨_, .tab⟩

section Meaning

variable {E : UInt8 → Prop}

/-- An escape of something but NUL is a character. -/
theorem Escape.denotes (hE : ∀ e, E e → e = 0 ∨ EscapeLetter e) {t r : Bytes}
    (h : Escape E t r) :
    ∃ s, t = s ++ r ∧ (∀ u, escapesNul (s ++ u) = false → escapesNul u = false ∧
      ∃ c, ∀ chars, Denotes u chars → Denotes (s ++ u) (c :: chars)) := by
  cases h with
  | @letter e r he =>
      refine ⟨[0x5c, e], rfl, ?_⟩
      intro u hu
      simp only [List.cons_append, List.nil_append, escapesNul_slash, Bool.or_eq_false_iff,
        decide_eq_false_iff_not] at hu
      obtain ⟨c, hc⟩ := ((hE e he).resolve_left hu.1.1).value
      exact ⟨hu.2, c, fun chars hchars => .letter hc hchars⟩
  | @unit v t r hunit hhigh hlow =>
      have hlt := hunit.lt
      obtain ⟨s, rfl, -, hslash, -, hany⟩ := hunit.split
      refine ⟨0x5c :: 0x75 :: s, rfl, ?_⟩
      intro u hu
      simp only [List.cons_append, escapesNul_slash, Bool.or_eq_false_iff] at hu
      rw [escapesNul_append hslash] at hu
      unfold HighSurrogate at hhigh
      unfold LowSurrogate at hlow
      obtain ⟨c, rfl⟩ := exists_char (v := v) (by omega)
      exact ⟨hu.2, c, fun chars hchars => .unit (hany u) hchars⟩
  | @pair v w t u r hv hhigh hw hlow =>
      obtain ⟨s, rfl, -, hslash, -, hany⟩ := hv.split
      obtain ⟨s', rfl, -, hslash', -, hany'⟩ := hw.split
      refine ⟨0x5c :: 0x75 :: (s ++ 0x5c :: 0x75 :: s'), by simp, ?_⟩
      intro x hx
      simp only [List.cons_append, List.append_assoc, escapesNul_slash,
        Bool.or_eq_false_iff] at hx
      rw [escapesNul_append hslash, escapesNul_slash, Bool.or_eq_false_iff,
        escapesNul_append hslash'] at hx
      obtain ⟨c, hc⟩ := exists_char (v := pairValue v w) (by
        unfold pairValue
        unfold HighSurrogate at hhigh
        unfold LowSurrogate at hlow
        omega)
      refine ⟨hx.2.2, c, fun chars hchars => ?_⟩
      simp only [List.cons_append, List.append_assoc]
      exact .pair (hany _) hhigh (hany' x) hlow hc hchars

/-- A string that escapes no NUL stands for some characters. -/
theorem Chars.denotes (hE : ∀ e, E e → e = 0 ∨ EscapeLetter e) {t r : Bytes}
    (h : Chars E t r) :
    ∃ s, t = s ++ r ∧ (escapesNul s = false → ∃ chars, Denotes s chars) := by
  induction h with
  | done => exact ⟨[], rfl, fun _ => ⟨[], .nil⟩⟩
  | @plain c t r hc _ ih =>
      obtain ⟨s, rfl, hs⟩ := ih
      refine ⟨c :: s, rfl, ?_⟩
      intro hnul
      have hslash : (0x5c : UInt8) ∉ [c] := by
        simpa using hc.2.2.2.symm
      obtain ⟨chars, hchars⟩ := hs (by rw [← hnul]; exact (escapesNul_append hslash).symm)
      obtain ⟨d, hlow, hquote, hback, hd⟩ := hc.char
      have hchar : Denotes (String.utf8EncodeChar d ++ s) (d :: chars) :=
        .char hlow hquote hback hchars
      rw [hd] at hchar
      exact ⟨d :: chars, hchar⟩
  | utf8 hseq _ ih =>
      obtain ⟨s, rfl, hs⟩ := ih
      obtain ⟨d, hd, rfl⟩ := hseq.char
      refine ⟨String.utf8EncodeChar d ++ s, by rw [List.append_assoc], ?_⟩
      intro hnul
      have hslash : (0x5c : UInt8) ∉ String.utf8EncodeChar d := by
        rcases utf8EncodeChar_cases d with ⟨hlow, -⟩ | ⟨-, hall⟩
        · omega
        · exact fun hmem => absurd (hall _ hmem) (by decide)
      rw [escapesNul_append hslash] at hnul
      obtain ⟨chars, hchars⟩ := hs hnul
      refine ⟨d :: chars, .char (by omega) ?_ ?_ hchars⟩
      · rintro rfl
        exact absurd hd (by decide)
      · rintro rfl
        exact absurd hd (by decide)
  | escape hescape _ ih =>
      obtain ⟨s, rfl, hs⟩ := ih
      obtain ⟨s', rfl, hs'⟩ := hescape.denotes hE
      refine ⟨s' ++ s, by rw [List.append_assoc], ?_⟩
      intro hnul
      obtain ⟨hrest, c, hc⟩ := hs' s hnul
      obtain ⟨chars, hchars⟩ := hs hrest
      exact ⟨c :: chars, hc chars hchars⟩

end Meaning

end JsonGrammar
