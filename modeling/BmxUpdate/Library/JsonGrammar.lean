import BmxUpdate.Library.Wire
import Mathlib.Tactic.Common

/-!
# The grammar of JSON texts over bytes

RFC 8259 with UTF-8 text, as relations between the bytes before a production
and the bytes it leaves.  Three things are parameters: the letters that may
follow a backslash (`E`), how deep values may nest (`levels`), and how many
values and keys there are (`n`).

* The productions are built from `Byte`, `Literal`, `Many`, `Opt` and `Seq`.
* `Utf8` is the table of RFC 3629, one constructor for each alternative.
* `Value E levels n` nests a `Layer` of JSON in itself; object keys are
  printable ASCII without escapes, and no object has a key twice.
* `Text.restrict` drops letters from `E` that the text does not use;
  `Text.bytes` says which bytes a text can contain.
-/

namespace JsonGrammar

open Wire

/-- A production: the bytes before it and the bytes it leaves. -/
abbrev Production := Bytes → Bytes → Prop

/-! ## Combinators -/

/-- One byte of a class. -/
def Byte (P : UInt8 → Prop) : Production := fun t r => ∃ c, P c ∧ t = c :: r

/-- Exactly these bytes. -/
def Literal (bs : Bytes) : Production := fun t r => t = bs ++ r

/-- Any number of bytes of a class. -/
def Many (P : UInt8 → Prop) : Production := fun t r => ∃ s, (∀ c ∈ s, P c) ∧ t = s ++ r

/-- One production after the other. -/
def Seq (R S : Production) : Production := fun t r => ∃ u, R t u ∧ S u r

/-- A production or nothing. -/
def Opt (R : Production) : Production := fun t r => t = r ∨ R t r

/-- The next byte, if there is one, is not of the class. -/
def Stops (P : UInt8 → Prop) (r : Bytes) : Prop := ∀ c ∈ r.head?, ¬ P c

@[simp] theorem stops_nil (P : UInt8 → Prop) : Stops P [] := nofun

@[simp] theorem stops_cons {P : UInt8 → Prop} {c : UInt8} {r : Bytes} :
    Stops P (c :: r) ↔ ¬ P c := by
  simp [Stops]

theorem Stops.mono {P Q : UInt8 → Prop} (hpq : ∀ c, P c → Q c) {r : Bytes} (h : Stops Q r) :
    Stops P r :=
  fun c hc hp => h c hc (hpq c hp)

section Classes

variable {P : UInt8 → Prop}

theorem Many.refl (t : Bytes) : Many P t t := ⟨[], by simp, rfl⟩

theorem Many.cons {c : UInt8} {t r : Bytes} (hc : P c) (h : Many P t r) : Many P (c :: t) r := by
  obtain ⟨s, hs, rfl⟩ := h
  exact ⟨c :: s, by simpa [hc] using hs, rfl⟩

theorem Many.append {s t r : Bytes} (hs : ∀ c ∈ s, P c) (h : Many P t r) :
    Many P (s ++ t) r := by
  obtain ⟨s', hs', rfl⟩ := h
  refine ⟨s ++ s', ?_, by simp⟩
  intro c hc
  rcases List.mem_append.mp hc with hc | hc
  · exact hs c hc
  · exact hs' c hc

theorem Many.trans {t u r : Bytes} (h : Many P t u) (h' : Many P u r) : Many P t r := by
  obtain ⟨s, hs, rfl⟩ := h
  exact h'.append hs

theorem Many.mono {Q : UInt8 → Prop} (hpq : ∀ c, P c → Q c) {t r : Bytes} (h : Many P t r) :
    Many Q t r := by
  obtain ⟨s, hs, rfl⟩ := h
  exact ⟨s, fun c hc => hpq c (hs c hc), rfl⟩

theorem Many.suffix {t r : Bytes} (h : Many P t r) : r <:+ t := by
  obtain ⟨s, -, rfl⟩ := h
  exact List.suffix_append s r

variable [DecidablePred P]

/-- Dropping a class reads as many of its bytes as there are. -/
theorem many_dropWhile (t : Bytes) : Many P t (t.dropWhile P) := by
  refine ⟨t.takeWhile P, ?_, (List.takeWhile_append_dropWhile ..).symm⟩
  intro c hc
  simpa using List.mem_takeWhile_imp hc

theorem stops_dropWhile (t : Bytes) : Stops P (t.dropWhile P) := by
  induction t with
  | nil => simp
  | cons c t ih =>
      by_cases hc : P c
      · simpa [List.dropWhile, hc] using ih
      · simp [List.dropWhile, hc]

/-- A run of a class that nothing of the class follows is what dropping it skips. -/
theorem Many.dropWhile_eq {t r : Bytes} (h : Many P t r) (hr : Stops P r) :
    t.dropWhile P = r := by
  obtain ⟨s, hs, rfl⟩ := h
  induction s with
  | nil =>
      cases r with
      | nil => rfl
      | cons c r => simp_all
  | cons c s ih =>
      have hc : P c := hs c List.mem_cons_self
      have hrest : ∀ x ∈ s, P x := fun x hx => hs x (List.mem_cons_of_mem c hx)
      simpa [List.dropWhile, hc] using ih hrest

end Classes

/-! ## Numbers -/

/-- Space, tab, line feed or carriage return. -/
def IsSpace (c : UInt8) : Prop := c = 0x20 ∨ c = 0x09 ∨ c = 0x0a ∨ c = 0x0d

instance : DecidablePred IsSpace :=
  fun c => inferInstanceAs (Decidable (c = 0x20 ∨ c = 0x09 ∨ c = 0x0a ∨ c = 0x0d))

/-- `0` to `9`. -/
def IsDigit (c : UInt8) : Prop := 0x30 ≤ c.toNat ∧ c.toNat ≤ 0x39

instance : DecidablePred IsDigit :=
  fun c => inferInstanceAs (Decidable (0x30 ≤ c.toNat ∧ c.toNat ≤ 0x39))

/-- `ws`. -/
abbrev Ws : Production := Many IsSpace

/-- `1*DIGIT`. -/
def Digits : Production := Seq (Byte IsDigit) (Many IsDigit)

/-- `int`: a zero, or digits that do not start with one. -/
def IntPart : Production := fun t r =>
  Literal [0x30] t r ∨ Seq (Byte fun c => IsDigit c ∧ c ≠ 0x30) (Many IsDigit) t r

/-- `frac`: a point and digits. -/
def FracPart : Production := Seq (Literal [0x2e]) Digits

/-- `exp`: `e` or `E`, a sign or none, and digits. -/
def ExpPart : Production :=
  Seq (Byte fun c => c = 0x65 ∨ c = 0x45) (Seq (Opt (Byte fun c => c = 0x2b ∨ c = 0x2d)) Digits)

/-- `number`. -/
def Number : Production :=
  Seq (Opt (Literal [0x2d])) (Seq IntPart (Seq (Opt FracPart) (Opt ExpPart)))

/-- The bytes a number can go on with. -/
def ContinuesNumber (c : UInt8) : Prop := IsDigit c ∨ c = 0x2e ∨ c = 0x65 ∨ c = 0x45

/-! ## Strings -/

/-- `HEXDIG`, with its value. -/
inductive Hex : UInt8 → Nat → Prop
  | digit {c : UInt8} : 0x30 ≤ c.toNat → c.toNat ≤ 0x39 → Hex c (c.toNat - 0x30)
  | lower {c : UInt8} : 0x61 ≤ c.toNat → c.toNat ≤ 0x66 → Hex c (c.toNat - 0x61 + 10)
  | upper {c : UInt8} : 0x41 ≤ c.toNat → c.toNat ≤ 0x46 → Hex c (c.toNat - 0x41 + 10)

/-- `4HEXDIG`: a UTF-16 unit. -/
inductive CodeUnit : Nat → Production
  | mk {a b c d : UInt8} {w x y z : Nat} {r : Bytes} :
      Hex a w → Hex b x → Hex c y → Hex d z →
      CodeUnit (((w * 16 + x) * 16 + y) * 16 + z) (a :: b :: c :: d :: r) r

/-- The units that stand only as the first half of a pair. -/
def HighSurrogate (v : Nat) : Prop := 0xd800 ≤ v ∧ v ≤ 0xdbff

/-- The units that stand only as the second half. -/
def LowSurrogate (v : Nat) : Prop := 0xdc00 ≤ v ∧ v ≤ 0xdfff

/-- An escape: a letter of `E`, a unit that is no surrogate, or a surrogate pair. -/
inductive Escape (E : UInt8 → Prop) : Production
  | letter {c : UInt8} {r : Bytes} : E c → Escape E (0x5c :: c :: r) r
  | unit {v : Nat} {t r : Bytes} : CodeUnit v t r → ¬ HighSurrogate v → ¬ LowSurrogate v →
      Escape E (0x5c :: 0x75 :: t) r
  | pair {v w : Nat} {t u r : Bytes} : CodeUnit v t (0x5c :: 0x75 :: u) → HighSurrogate v →
      CodeUnit w u r → LowSurrogate w → Escape E (0x5c :: 0x75 :: t) r

/-- `UTF8-tail`. -/
def Tail (c : UInt8) : Prop := 0x80 ≤ c.toNat ∧ c.toNat ≤ 0xbf

/-- `UTF8-2`, `UTF8-3` and `UTF8-4`. -/
inductive Utf8 : Production
  | two {a b : UInt8} {r : Bytes} :
      0xc2 ≤ a.toNat → a.toNat ≤ 0xdf → Tail b → Utf8 (a :: b :: r) r
  | threeFirst {a b c : UInt8} {r : Bytes} :
      a.toNat = 0xe0 → 0xa0 ≤ b.toNat → Tail b → Tail c → Utf8 (a :: b :: c :: r) r
  | three {a b c : UInt8} {r : Bytes} :
      0xe1 ≤ a.toNat → a.toNat ≤ 0xef → a.toNat ≠ 0xed → Tail b → Tail c →
      Utf8 (a :: b :: c :: r) r
  | threeSurrogate {a b c : UInt8} {r : Bytes} :
      a.toNat = 0xed → b.toNat ≤ 0x9f → Tail b → Tail c → Utf8 (a :: b :: c :: r) r
  | fourFirst {a b c d : UInt8} {r : Bytes} :
      a.toNat = 0xf0 → 0x90 ≤ b.toNat → Tail b → Tail c → Tail d →
      Utf8 (a :: b :: c :: d :: r) r
  | four {a b c d : UInt8} {r : Bytes} :
      0xf1 ≤ a.toNat → a.toNat ≤ 0xf3 → Tail b → Tail c → Tail d →
      Utf8 (a :: b :: c :: d :: r) r
  | fourLast {a b c d : UInt8} {r : Bytes} :
      a.toNat = 0xf4 → b.toNat ≤ 0x8f → Tail b → Tail c → Tail d →
      Utf8 (a :: b :: c :: d :: r) r

/-- ASCII that stands for itself in a string: no control byte, quote or backslash. -/
def Plain (c : UInt8) : Prop := 0x20 ≤ c.toNat ∧ c.toNat < 0x80 ∧ c ≠ 0x22 ∧ c ≠ 0x5c

/-- `*char`. -/
inductive Chars (E : UInt8 → Prop) : Production
  | done {t : Bytes} : Chars E t t
  | plain {c : UInt8} {t r : Bytes} : Plain c → Chars E t r → Chars E (c :: t) r
  | utf8 {t u r : Bytes} : Utf8 t u → Chars E u r → Chars E t r
  | escape {t u r : Bytes} : Escape E t u → Chars E u r → Chars E t r

/-- `string`. -/
inductive Str (E : UInt8 → Prop) : Production
  | mk {t r : Bytes} : Chars E t (0x22 :: r) → Str E (0x22 :: t) r

/-- The bytes of a key: printable ASCII but space, quote and backslash. -/
def KeyByte (c : UInt8) : Prop := 0x21 ≤ c.toNat ∧ c.toNat ≤ 0x7e ∧ c ≠ 0x22 ∧ c ≠ 0x5c

/-- A key, with its text. -/
inductive Key (k : Bytes) : Production
  | mk {r : Bytes} : (∀ c ∈ k, KeyByte c) → Key k (0x22 :: (k ++ 0x22 :: r)) r

/-! ## Values -/

/-- A production that counts, with whitespace around it. -/
def Padded (V : Nat → Production) (n : Nat) : Production := Seq Ws (Seq (V n) Ws)

/-- The values of an array: one or more, with commas between them. -/
inductive Elements (V : Nat → Production) : Nat → Production
  | last {n : Nat} {t r : Bytes} : Padded V n t r → Elements V n t r
  | more {n m : Nat} {t u r : Bytes} : Padded V n t (0x2c :: u) → Elements V m u r →
      Elements V (n + m) t r

/-- A member of an object; its key counts. -/
inductive Member (V : Nat → Production) (k : Bytes) : Nat → Production
  | mk {n : Nat} {t u v w r : Bytes} : Ws t u → Key k u v → Ws v (0x3a :: w) →
      Padded V n w r → Member V k (n + 1) t r

/-- The members of an object, with their keys. -/
inductive Members (V : Nat → Production) : List Bytes → Nat → Production
  | last {k : Bytes} {n : Nat} {t r : Bytes} : Member V k n t r → Members V [k] n t r
  | more {k : Bytes} {ks : List Bytes} {n m : Nat} {t u r : Bytes} :
      Member V k n t (0x2c :: u) → Members V ks m u r → Members V (k :: ks) (n + m) t r

/-- `value`, with the values inside it given. -/
inductive Layer (E : UInt8 → Prop) (V : Nat → Production) : Nat → Production
  | true {t r : Bytes} : Literal [0x74, 0x72, 0x75, 0x65] t r → Layer E V 1 t r
  | false {t r : Bytes} : Literal [0x66, 0x61, 0x6c, 0x73, 0x65] t r → Layer E V 1 t r
  | null {t r : Bytes} : Literal [0x6e, 0x75, 0x6c, 0x6c] t r → Layer E V 1 t r
  | number {t r : Bytes} : Number t r → Layer E V 1 t r
  | string {t r : Bytes} : Str E t r → Layer E V 1 t r
  | emptyArray {t r : Bytes} : Ws t (0x5d :: r) → Layer E V 1 (0x5b :: t) r
  | array {n : Nat} {t r : Bytes} : Elements V n t (0x5d :: r) → Layer E V (n + 1) (0x5b :: t) r
  | emptyObject {t r : Bytes} : Ws t (0x7d :: r) → Layer E V 1 (0x7b :: t) r
  | object {ks : List Bytes} {n : Nat} {t r : Bytes} : Members V ks n t (0x7d :: r) →
      ks.Nodup → Layer E V (n + 1) (0x7b :: t) r

/-- A value of `n` values and keys, each inside fewer than `levels` containers. -/
def Value (E : UInt8 → Prop) : Nat → Nat → Production
  | 0 => fun _ _ _ => False
  | levels + 1 => Layer E (Value E levels)

/-- `JSON-text`. -/
def Text (E : UInt8 → Prop) (levels n : Nat) (t : Bytes) : Prop :=
  Padded (Value E levels) n t []

/-- The letters RFC 8259 lets follow a backslash, `u` apart. -/
def EscapeLetter (c : UInt8) : Prop :=
  c ∈ ([0x22, 0x5c, 0x2f, 0x62, 0x66, 0x6e, 0x72, 0x74] : Bytes)

instance : DecidablePred EscapeLetter :=
  fun c => inferInstanceAs
    (Decidable (c ∈ ([0x22, 0x5c, 0x2f, 0x62, 0x66, 0x6e, 0x72, 0x74] : Bytes)))

/-! ## Spaces in front -/

theorem Padded.of_ws {V : Nat → Production} {n : Nat} {t u r : Bytes} (hws : Ws t u)
    (h : Padded V n u r) : Padded V n t r := by
  obtain ⟨v, hv, h⟩ := h
  exact ⟨v, hws.trans hv, h⟩

theorem Elements.of_ws {V : Nat → Production} {n : Nat} {t u r : Bytes} (hws : Ws t u)
    (h : Elements V n u r) : Elements V n t r := by
  cases h with
  | last h => exact .last (h.of_ws hws)
  | more h hrest => exact .more (h.of_ws hws) hrest

theorem Member.of_ws {V : Nat → Production} {k : Bytes} {n : Nat} {t u r : Bytes}
    (hws : Ws t u) (h : Member V k n u r) : Member V k n t r := by
  obtain ⟨hu, hkey, hcolon, hvalue⟩ := h
  exact ⟨hws.trans hu, hkey, hcolon, hvalue⟩

theorem Members.of_ws {V : Nat → Production} {ks : List Bytes} {n : Nat} {t u r : Bytes}
    (hws : Ws t u) (h : Members V ks n u r) : Members V ks n t r := by
  cases h with
  | last h => exact .last (h.of_ws hws)
  | more h hrest => exact .more (h.of_ws hws) hrest

/-! ## First bytes and lengths -/

/-- The first byte of a longer sequence is no ASCII byte. -/
theorem Utf8.head {t r : Bytes} (h : Utf8 t r) : ∃ c u, t = c :: u ∧ 0x80 ≤ c.toNat := by
  cases h <;> exact ⟨_, _, rfl, by omega⟩

theorem Escape.head {E : UInt8 → Prop} {t r : Bytes} (h : Escape E t r) :
    ∃ u, t = 0x5c :: u := by
  cases h <;> exact ⟨_, rfl⟩

theorem Utf8.shorter {t r : Bytes} (h : Utf8 t r) : r.length < t.length := by
  cases h <;> simp only [List.length_cons] <;> omega

theorem CodeUnit.length {v : Nat} {t r : Bytes} (h : CodeUnit v t r) :
    t.length = r.length + 4 := by
  cases h
  rfl

theorem Escape.shorter {E : UInt8 → Prop} {t r : Bytes} (h : Escape E t r) :
    r.length < t.length := by
  cases h with
  | letter _ =>
      simp only [List.length_cons]
      omega
  | unit hv _ _ =>
      have := hv.length
      simp only [List.length_cons]
      omega
  | pair hv _ hw _ =>
      have hhigh := hv.length
      have hlow := hw.length
      simp only [List.length_cons] at hhigh ⊢
      omega

/-! ## The bytes a text can contain -/

/-- The production reads bytes of the class only. -/
def ReadsOnly (Q : UInt8 → Prop) (R : Production) : Prop := ∀ ⦃t r⦄, R t r → Many Q t r

section ReadsOnly

variable {Q : UInt8 → Prop}

theorem ReadsOnly.seq {R S : Production} (hR : ReadsOnly Q R) (hS : ReadsOnly Q S) :
    ReadsOnly Q (Seq R S) := by
  rintro t r ⟨u, hr, hs⟩
  exact (hR hr).trans (hS hs)

theorem ReadsOnly.opt {R : Production} (hR : ReadsOnly Q R) : ReadsOnly Q (Opt R) := by
  rintro t r (rfl | h)
  · exact Many.refl t
  · exact hR h

theorem ReadsOnly.literal {bs : Bytes} (h : ∀ c ∈ bs, Q c) : ReadsOnly Q (Literal bs) := by
  rintro t r rfl
  exact (Many.refl r).append h

theorem ReadsOnly.byte {P : UInt8 → Prop} (h : ∀ c, P c → Q c) : ReadsOnly Q (Byte P) := by
  rintro t r ⟨c, hc, rfl⟩
  exact (Many.refl r).cons (h c hc)

theorem ReadsOnly.many {P : UInt8 → Prop} (h : ∀ c, P c → Q c) : ReadsOnly Q (Many P) :=
  fun _ _ hm => hm.mono h

variable (hQ : ∀ c, c ≠ 0 → Q c)
include hQ

theorem of_isSpace {c : UInt8} (hc : IsSpace c) : Q c := by
  apply hQ
  rcases hc with rfl | rfl | rfl | rfl <;> decide

theorem of_pos {c : UInt8} (hc : 0 < c.toNat) : Q c := by
  apply hQ
  rintro rfl
  exact absurd hc (by decide)

theorem readsOnly_ws : ReadsOnly Q Ws := .many fun _ => of_isSpace hQ

theorem readsOnly_digits : ReadsOnly Q Digits :=
  .seq (.byte fun _ hc => of_pos hQ (by have := hc.1; omega))
    (.many fun _ hc => of_pos hQ (by have := hc.1; omega))

theorem readsOnly_number : ReadsOnly Q Number := by
  have hdigit : ∀ c, IsDigit c → Q c := fun c hc => of_pos hQ (by have := hc.1; omega)
  have hint : ReadsOnly Q IntPart := by
    rintro t r (h | h)
    · exact ReadsOnly.literal (by simp [hQ]) h
    · exact ReadsOnly.seq (.byte fun c hc => hdigit c hc.1) (.many hdigit) h
  have hfrac : ReadsOnly Q FracPart := .seq (.literal (by simp [hQ])) (readsOnly_digits hQ)
  have hexp : ReadsOnly Q ExpPart := by
    refine .seq (.byte ?_) (.seq (.opt (.byte ?_)) (readsOnly_digits hQ))
    · rintro c (rfl | rfl) <;> exact hQ _ (by decide)
    · rintro c (rfl | rfl) <;> exact hQ _ (by decide)
  exact .seq (.opt (.literal (by simp [hQ]))) (.seq hint (.seq (.opt hfrac) (.opt hexp)))

theorem readsOnly_codeUnit (v : Nat) : ReadsOnly Q (CodeUnit v) := by
  have hhex : ∀ {c : UInt8} {w : Nat}, Hex c w → Q c := by
    intro c w h
    cases h <;> exact of_pos hQ (by omega)
  rintro _ r ⟨ha, hb, hc, hd⟩
  exact ((((Many.refl r).cons (hhex hd)).cons (hhex hc)).cons (hhex hb)).cons (hhex ha)

theorem readsOnly_utf8 : ReadsOnly Q Utf8 := by
  have htail : ∀ {c : UInt8}, Tail c → Q c := fun h => of_pos hQ (by have := h.1; omega)
  intro t r h
  cases h with
  | two ha _ hb => exact ((Many.refl r).cons (htail hb)).cons (of_pos hQ (by omega))
  | threeFirst ha _ hb hc =>
      exact (((Many.refl r).cons (htail hc)).cons (htail hb)).cons (of_pos hQ (by omega))
  | three ha _ _ hb hc =>
      exact (((Many.refl r).cons (htail hc)).cons (htail hb)).cons (of_pos hQ (by omega))
  | threeSurrogate ha _ hb hc =>
      exact (((Many.refl r).cons (htail hc)).cons (htail hb)).cons (of_pos hQ (by omega))
  | fourFirst ha _ hb hc hd =>
      exact ((((Many.refl r).cons (htail hd)).cons (htail hc)).cons (htail hb)).cons
        (of_pos hQ (by omega))
  | four ha _ hb hc hd =>
      exact ((((Many.refl r).cons (htail hd)).cons (htail hc)).cons (htail hb)).cons
        (of_pos hQ (by omega))
  | fourLast ha _ hb hc hd =>
      exact ((((Many.refl r).cons (htail hd)).cons (htail hc)).cons (htail hb)).cons
        (of_pos hQ (by omega))

variable {E : UInt8 → Prop} (hE : ∀ c, E c → Q c)
include hE

theorem readsOnly_escape : ReadsOnly Q (Escape E) := by
  have hslash : Q 0x5c := hQ _ (by decide)
  have hu : Q 0x75 := hQ _ (by decide)
  intro t r h
  cases h with
  | letter hc => exact ((Many.refl r).cons (hE _ hc)).cons hslash
  | unit hv => exact ((readsOnly_codeUnit hQ _ hv).cons hu).cons hslash
  | pair hv _ hw =>
      have hlow := ((readsOnly_codeUnit hQ _ hw).cons hu).cons hslash
      exact (((readsOnly_codeUnit hQ _ hv).trans hlow).cons hu).cons hslash

theorem readsOnly_chars : ReadsOnly Q (Chars E) := by
  intro t r h
  induction h with
  | done => exact Many.refl _
  | plain hc _ ih => exact ih.cons (of_pos hQ (by have := hc.1; omega))
  | utf8 hu _ ih => exact (readsOnly_utf8 hQ hu).trans ih
  | escape he _ ih => exact (readsOnly_escape hQ hE he).trans ih

theorem readsOnly_str : ReadsOnly Q (Str E) := by
  rintro _ r ⟨h⟩
  have hquote : Q 0x22 := hQ _ (by decide)
  exact ((readsOnly_chars hQ hE h).trans ((Many.refl r).cons hquote)).cons hquote

omit hE in
theorem readsOnly_key (k : Bytes) : ReadsOnly Q (Key k) := by
  rintro _ r ⟨h⟩
  have hquote : Q 0x22 := hQ _ (by decide)
  have hk : ∀ c ∈ k, Q c := fun c hc => of_pos hQ (by have := (h c hc).1; omega)
  exact (((Many.refl r).cons hquote).append hk).cons hquote

section Containers

variable {V : Nat → Production} (hV : ∀ n, ReadsOnly Q (V n))
include hV

omit hE in
theorem readsOnly_padded (n : Nat) : ReadsOnly Q (Padded V n) :=
  .seq (readsOnly_ws hQ) (.seq (hV n) (readsOnly_ws hQ))

omit hE in
theorem readsOnly_elements (n : Nat) : ReadsOnly Q (Elements V n) := by
  intro t r h
  induction h with
  | last h => exact readsOnly_padded hQ hV _ h
  | more h _ ih => exact (readsOnly_padded hQ hV _ h).trans (ih.cons (hQ _ (by decide)))

omit hE in
theorem readsOnly_member (k : Bytes) (n : Nat) : ReadsOnly Q (Member V k n) := by
  rintro t r ⟨hws, hkey, hws', hv⟩
  have hcolon : Q 0x3a := hQ _ (by decide)
  have hvalue := (readsOnly_padded hQ hV _ hv).cons hcolon
  exact (readsOnly_ws hQ hws).trans
    ((readsOnly_key hQ k hkey).trans ((readsOnly_ws hQ hws').trans hvalue))

omit hE in
theorem readsOnly_members (ks : List Bytes) (n : Nat) : ReadsOnly Q (Members V ks n) := by
  intro t r h
  induction h with
  | last h => exact readsOnly_member hQ hV _ _ h
  | more h _ ih => exact (readsOnly_member hQ hV _ _ h).trans (ih.cons (hQ _ (by decide)))

theorem readsOnly_layer (n : Nat) : ReadsOnly Q (Layer E V n) := by
  intro t r h
  cases h with
  | true h => exact ReadsOnly.literal (by simp [hQ]) h
  | false h => exact ReadsOnly.literal (by simp [hQ]) h
  | null h => exact ReadsOnly.literal (by simp [hQ]) h
  | number h => exact readsOnly_number hQ h
  | string h => exact readsOnly_str hQ hE h
  | emptyArray h =>
      exact ((readsOnly_ws hQ h).trans ((Many.refl r).cons (hQ _ (by decide)))).cons
        (hQ _ (by decide))
  | array h =>
      exact ((readsOnly_elements hQ hV _ h).trans ((Many.refl r).cons (hQ _ (by decide)))).cons
        (hQ _ (by decide))
  | emptyObject h =>
      exact ((readsOnly_ws hQ h).trans ((Many.refl r).cons (hQ _ (by decide)))).cons
        (hQ _ (by decide))
  | object h _ =>
      exact ((readsOnly_members hQ hV _ _ h).trans ((Many.refl r).cons (hQ _ (by decide)))).cons
        (hQ _ (by decide))

end Containers

theorem readsOnly_value (levels n : Nat) : ReadsOnly Q (Value E levels n) := by
  induction levels generalizing n with
  | zero => exact nofun
  | succ levels ih => exact readsOnly_layer hQ hE ih n

/-- A text has bytes of the class only, if its escapes do. -/
theorem Text.bytes {levels n : Nat} {t : Bytes} (h : Text E levels n t) : ∀ c ∈ t, Q c := by
  obtain ⟨s, hs, rfl⟩ := readsOnly_padded hQ (readsOnly_value hQ hE levels) n h
  simpa using hs

end ReadsOnly

section Restrict

variable {E F Q : UInt8 → Prop}

private theorem suffix_of {R : Production} (h : ReadsOnly (fun _ => True) R) {t r : Bytes}
    (hr : R t r) : r <:+ t :=
  (h hr).suffix

section Strings

variable (hF : ∀ c, E c → Q c → F c)
include hF

theorem Escape.restrict {t r : Bytes} (h : Escape E t r) (hQ : ∀ c ∈ t, Q c) :
    Escape F t r := by
  cases h with
  | letter hc => exact .letter (hF _ hc (hQ _ (by simp)))
  | unit hv hhigh hlow => exact .unit hv hhigh hlow
  | pair hv hhigh hw hlow => exact .pair hv hhigh hw hlow

theorem Chars.restrict {t r : Bytes} (h : Chars E t r) (hQ : ∀ c ∈ t, Q c) :
    Chars F t r := by
  induction h with
  | done => exact .done
  | plain hc _ ih => exact .plain hc (ih fun c h => hQ c (List.mem_cons_of_mem _ h))
  | utf8 hu _ ih =>
      have hsuffix := suffix_of (readsOnly_utf8 fun _ _ => trivial) hu
      exact .utf8 hu (ih fun c h => hQ c (hsuffix.mem h))
  | escape he _ ih =>
      have hsuffix := suffix_of (readsOnly_escape (fun _ _ => trivial) fun _ _ => trivial) he
      exact .escape (he.restrict hF hQ) (ih fun c h => hQ c (hsuffix.mem h))

end Strings

section Containers

variable {V W : Nat → Production} (hV : ∀ n, ReadsOnly (fun _ => True) (V n))
  (hW : ∀ n t r, (∀ c ∈ t, Q c) → V n t r → W n t r)
include hW

theorem Padded.restrict {n : Nat} {t r : Bytes} (h : Padded V n t r) (hQ : ∀ c ∈ t, Q c) :
    Padded W n t r := by
  obtain ⟨u, hu, v, hv, hr⟩ := h
  exact ⟨u, hu, v, hW n u v (fun c hc => hQ c (hu.suffix.mem hc)) hv, hr⟩

include hV

theorem Elements.restrict {n : Nat} {t r : Bytes} (h : Elements V n t r)
    (hQ : ∀ c ∈ t, Q c) : Elements W n t r := by
  induction h with
  | last h => exact .last (h.restrict hW hQ)
  | more h _ ih =>
      have hsuffix := suffix_of (readsOnly_padded (fun _ _ => trivial) hV _) h
      exact .more (h.restrict hW hQ)
        (ih fun c hc => hQ c (hsuffix.mem (List.mem_cons_of_mem _ hc)))

omit hV in
theorem Member.restrict {k : Bytes} {n : Nat} {t r : Bytes} (h : Member V k n t r)
    (hQ : ∀ c ∈ t, Q c) : Member W k n t r := by
  obtain ⟨hu, hk, hv, hvalue⟩ := h
  have hkey := suffix_of (readsOnly_key (fun _ _ => trivial) k) hk
  refine ⟨hu, hk, hv, hvalue.restrict hW fun c hc => hQ c ?_⟩
  exact hu.suffix.mem (hkey.mem (hv.suffix.mem (List.mem_cons_of_mem _ hc)))

theorem Members.restrict {ks : List Bytes} {n : Nat} {t r : Bytes} (h : Members V ks n t r)
    (hQ : ∀ c ∈ t, Q c) : Members W ks n t r := by
  induction h with
  | last h => exact .last (h.restrict hW hQ)
  | more h _ ih =>
      have hsuffix := suffix_of (readsOnly_member (fun _ _ => trivial) hV _ _) h
      exact .more (h.restrict hW hQ)
        (ih fun c hc => hQ c (hsuffix.mem (List.mem_cons_of_mem _ hc)))

theorem Layer.restrict (hF : ∀ c, E c → Q c → F c) {n : Nat} {t r : Bytes} (h : Layer E V n t r) (hQ : ∀ c ∈ t, Q c) :
    Layer F W n t r := by
  cases h with
  | true h => exact .true h
  | false h => exact .false h
  | null h => exact .null h
  | number h => exact .number h
  | string h =>
      obtain ⟨h⟩ := h
      exact .string ⟨h.restrict hF fun c hc => hQ c (List.mem_cons_of_mem _ hc)⟩
  | emptyArray h => exact .emptyArray h
  | array h => exact .array (h.restrict hV hW fun c hc => hQ c (List.mem_cons_of_mem _ hc))
  | emptyObject h => exact .emptyObject h
  | object h hkeys =>
      exact .object (h.restrict hV hW fun c hc => hQ c (List.mem_cons_of_mem _ hc)) hkeys

end Containers

theorem Value.restrict (hF : ∀ c, E c → Q c → F c) {levels n : Nat} {t r : Bytes} (h : Value E levels n t r)
    (hQ : ∀ c ∈ t, Q c) : Value F levels n t r := by
  induction levels generalizing n t r with
  | zero => exact h
  | succ levels ih =>
      exact Layer.restrict (readsOnly_value (fun _ _ => trivial) (fun _ _ => trivial) levels)
        (fun _ _ _ hq hv => ih hv hq) hF h hQ

/-- Of the escape letters only those that the text contains matter. -/
theorem Text.restrict (hF : ∀ c, E c → Q c → F c) {levels n : Nat} {t : Bytes} (h : Text E levels n t)
    (hQ : ∀ c ∈ t, Q c) : Text F levels n t :=
  Padded.restrict (fun _ _ _ hq hv => hv.restrict hF hq) h hQ

end Restrict

end JsonGrammar
