import BmxUpdate.Json.Parser
import BmxUpdate.Library.Checks
import Mathlib.Data.List.Basic

/-!
# What the scanners of the JSON parser read

One lemma a scanner: it succeeds exactly on a production of the grammar.  For
numbers, which end where they cannot go on, success implies the production and
the production with a `Stops` after it implies success.  The escape letters are
those `strchr` finds (`Accepted`), which is what `scanString` differs from
RFC 8259 in.
-/

namespace BmxUpdate

namespace Json

open Wire JsonGrammar Checks

/-- The bytes `ParseEscape` takes after a backslash, `u` apart. -/
def Accepted (c : UInt8) : Prop := strchr escapeLetters c = true

instance : DecidablePred Accepted :=
  fun c => inferInstanceAs (Decidable (strchr escapeLetters c = true))

theorem accepted_iff {c : UInt8} : Accepted c ↔ c = 0 ∨ EscapeLetter c := by
  simp [Accepted, strchr, EscapeLetter, escapeLetters]

/-! ## Escapes -/

theorem hexDigit_eq_some {c : UInt8} {v : Nat} : hexDigit c = some v ↔ Hex c v := by
  unfold hexDigit
  constructor
  · intro h
    split at h
    · next hc => cases h; exact .digit hc.1 hc.2
    · split at h
      · next hc => cases h; exact .lower hc.1 hc.2
      · split at h
        · next hc => cases h; exact .upper hc.1 hc.2
        · cases h
  · intro h
    cases h with
    | digit h h' => simp [h, h']
    | lower h h' =>
        rw [if_neg (by omega), if_pos ⟨h, h'⟩]
    | upper h h' =>
        rw [if_neg (by omega), if_neg (by omega), if_pos ⟨h, h'⟩]

theorem parseHex4_eq_some {t r : Bytes} {v : Nat} :
    parseHex4 t = some v ∧ 4 ≤ t.length ∧ t.drop 4 = r ↔ CodeUnit v t r := by
  constructor
  · rintro ⟨h, -, rfl⟩
    unfold parseHex4 at h
    split at h
    · simp only [Option.bind_eq_bind, Option.bind_eq_some_iff, Option.pure_def,
        Option.some.injEq] at h
      obtain ⟨w, hw, x, hx, y, hy, z, hz, rfl⟩ := h
      exact .mk (hexDigit_eq_some.mp hw) (hexDigit_eq_some.mp hx) (hexDigit_eq_some.mp hy)
        (hexDigit_eq_some.mp hz)
    · cases h
  · rintro ⟨hw, hx, hy, hz⟩
    simp [parseHex4, hexDigit_eq_some.mpr hw, hexDigit_eq_some.mpr hx,
      hexDigit_eq_some.mpr hy, hexDigit_eq_some.mpr hz]

theorem parseLowSurrogate_eq_ok {t r : Bytes} :
    parseLowSurrogate t = .ok r ↔
      ∃ w u, t = 0x5c :: 0x75 :: u ∧ CodeUnit w u r ∧ LowSurrogate w := by
  constructor
  · intro h
    unfold parseLowSurrogate at h
    split at h
    · next u =>
        split at h
        · cases h
        · next hlen =>
            split at h
            · cases h
            · next w hw =>
                split at h
                · cases h
                · next hlow =>
                    cases h
                    refine ⟨w, u, rfl, parseHex4_eq_some.mp ⟨hw, by omega, rfl⟩, ?_⟩
                    unfold LowSurrogate
                    omega
    · cases h
  · rintro ⟨w, u, rfl, hu, hlow⟩
    obtain ⟨hw, hlen, hr⟩ := parseHex4_eq_some.mpr hu
    have hrange : ¬ (w < 0xdc00 ∨ 0xdfff < w) := by
      unfold LowSurrogate at hlow
      omega
    simp only [parseLowSurrogate]
    rw [if_neg (by omega), hw]
    simp only [if_neg hrange, hr]
    rfl

theorem parseEscape_eq_ok {t r : Bytes} :
    parseEscape (0x5c :: t) = .ok r ↔ Escape Accepted (0x5c :: t) r := by
  constructor
  · intro h
    unfold parseEscape at h
    split at h
    · next slash escaped u heq =>
        cases heq
        split at h
        · next hletter => cases h; exact .letter hletter
        · split at h
          · cases h
          · next hu =>
              have hu' : escaped = 0x75 := by
                by_contra hne
                exact hu (.inl hne)
              subst hu'
              have hlen : 4 ≤ u.length := by
                by_contra hlt
                exact hu (.inr (by omega))
              split at h
              · cases h
              · next v hv =>
                  have hunit : CodeUnit v u (u.drop 4) := parseHex4_eq_some.mp ⟨hv, hlen, rfl⟩
                  split at h
                  · next hhigh =>
                      obtain ⟨w, x, hx, hw, hlow⟩ := parseLowSurrogate_eq_ok.mp h
                      exact .pair (hx ▸ hunit) hhigh hw hlow
                  · next hhigh =>
                      split at h
                      · cases h
                      · next hlow => cases h; exact .unit hunit hhigh hlow
    · cases h
  · intro h
    have hu : ¬ strchr escapeLetters 0x75 = true := by decide
    cases h with
    | letter hc =>
        unfold Accepted at hc
        unfold parseEscape
        simp only
        rw [if_pos hc]
        rfl
    | unit hv hhigh hlow =>
        obtain ⟨hv, hlen, hr⟩ := parseHex4_eq_some.mpr hv
        unfold HighSurrogate at hhigh
        unfold LowSurrogate at hlow
        unfold parseEscape
        simp only
        rw [if_neg hu, if_neg (by simpa using hlen), hv]
        simp only
        rw [if_neg hhigh, if_neg hlow, hr]
        rfl
    | pair hv hhigh hw hlow =>
        obtain ⟨hv, hlen, hr⟩ := parseHex4_eq_some.mpr hv
        unfold HighSurrogate at hhigh
        unfold parseEscape
        simp only
        rw [if_neg hu, if_neg (by simpa using hlen), hv]
        simp only
        rw [if_pos hhigh, hr]
        exact parseLowSurrogate_eq_ok.mpr ⟨_, _, rfl, hw, hlow⟩

/-! ## UTF-8 -/

theorem continuation_eq_ok {n codepoint v : Nat} {t r : Bytes} :
    continuation n codepoint t = .ok (v, r) ↔
      ∃ s, t = s ++ r ∧ s.length = n ∧ (∀ c ∈ s, Tail c) ∧
        v = s.foldl (fun codepoint c => codepoint * 64 + c.toNat % 64) codepoint := by
  induction n generalizing codepoint t with
  | zero =>
      constructor
      · intro h
        cases h
        exact ⟨[], rfl, rfl, by simp, rfl⟩
      · rintro ⟨s, rfl, hs, -, rfl⟩
        obtain rfl := List.length_eq_zero_iff.mp hs
        rfl
  | succ n ih =>
      cases t with
      | nil =>
          constructor
          · intro h
            cases h
          · rintro ⟨s, hs, hlen, -⟩
            obtain ⟨rfl, -⟩ := List.append_eq_nil_iff.mp hs.symm
            simp at hlen
      | cons c t =>
          have htail : c.toNat / 64 = 2 ↔ Tail c := by
            unfold Tail
            omega
          constructor
          · intro h
            unfold continuation at h
            split at h
            · next hc =>
                obtain ⟨s, rfl, hlen, hs, hv⟩ := ih.mp h
                refine ⟨c :: s, rfl, by simp [hlen], ?_, by simpa using hv⟩
                simpa [htail.mp hc] using hs
            · cases h
          · rintro ⟨s, hs, hlen, htails, hv⟩
            cases s with
            | nil => simp at hlen
            | cons d s =>
                obtain ⟨rfl, rfl⟩ := List.cons.inj hs
                unfold continuation
                rw [if_pos (htail.mpr (htails c (by simp)))]
                refine ih.mpr ⟨s, rfl, by simpa using hlen, ?_, by simpa using hv⟩
                exact fun c hc => htails c (List.mem_cons_of_mem _ hc)

/-- What `ConsumeUtf8` asks of a sequence of `count` bytes. -/
def SoundCodepoint (count codepoint : Nat) : Prop :=
  ¬ ((count = 3 ∧ codepoint < 0x800) ∨ (count = 4 ∧ codepoint < 0x10000) ∨
    (0xd800 ≤ codepoint ∧ codepoint ≤ 0xdfff) ∨ 0x10ffff < codepoint)

theorem consumeUtf8_cons_eq_ok {first : UInt8} {t r : Bytes} :
    consumeUtf8 (first :: t) = .ok r ↔
      ∃ count payload s, utf8Lead first = some (count, payload) ∧ t = s ++ r ∧
        s.length = count - 1 ∧ (∀ c ∈ s, Tail c) ∧
        SoundCodepoint count
          (s.foldl (fun codepoint c => codepoint * 64 + c.toNat % 64) payload) := by
  constructor
  · intro h
    unfold consumeUtf8 at h
    simp only at h
    split at h
    · cases h
    · next count payload hlead =>
        split at h
        · cases h
        · cases hcont : continuation (count - 1) payload t with
          | error e =>
              rw [hcont] at h
              cases h
          | ok p =>
              obtain ⟨codepoint, u⟩ := p
              rw [hcont] at h
              simp only [bind, Except.bind] at h
              split at h
              · cases h
              · next hsound =>
                  cases h
                  obtain ⟨s, rfl, hlen, hs, rfl⟩ := continuation_eq_ok.mp hcont
                  exact ⟨count, payload, s, hlead, rfl, hlen, hs, hsound⟩
  · rintro ⟨count, payload, s, hlead, rfl, hlen, hs, hsound⟩
    have hcont : continuation (count - 1) payload (s ++ r) = .ok (_, r) :=
      continuation_eq_ok.mpr ⟨s, rfl, hlen, hs, rfl⟩
    have hfits : ¬ (first :: (s ++ r)).length < count := by
      simp only [List.length_cons, List.length_append]
      omega
    unfold SoundCodepoint at hsound
    unfold consumeUtf8
    simp only [hlead, hcont, bind, Except.bind]
    rw [if_neg hfits, if_neg hsound]
    rfl

/-- The lead bytes, by the length of their sequence. -/
theorem utf8Lead_eq_some {first : UInt8} {count payload : Nat} :
    utf8Lead first = some (count, payload) ↔
      (0xc2 ≤ first.toNat ∧ first.toNat ≤ 0xdf ∧ count = 2 ∧ payload = first.toNat % 32) ∨
      (0xe0 ≤ first.toNat ∧ first.toNat ≤ 0xef ∧ count = 3 ∧ payload = first.toNat % 16) ∨
      (0xf0 ≤ first.toNat ∧ first.toNat ≤ 0xf4 ∧ count = 4 ∧ payload = first.toNat % 8) := by
  unfold utf8Lead
  split
  · simp only [Option.some.injEq, Prod.mk.injEq]
    omega
  · split
    · simp only [Option.some.injEq, Prod.mk.injEq]
      omega
    · split
      · simp only [Option.some.injEq, Prod.mk.injEq]
        omega
      · simp only [reduceCtorEq, false_iff]
        omega

theorem consumeUtf8_eq_ok {t r : Bytes} : consumeUtf8 t = .ok r ↔ Utf8 t r := by
  constructor
  · intro h
    cases t with
    | nil => cases h
    | cons a t =>
        obtain ⟨count, payload, s, hlead, rfl, hlen, hs, hsound⟩ := consumeUtf8_cons_eq_ok.mp h
        unfold SoundCodepoint at hsound
        rcases utf8Lead_eq_some.mp hlead with
          ⟨ha, ha', rfl, rfl⟩ | ⟨ha, ha', rfl, rfl⟩ | ⟨ha, ha', rfl, rfl⟩
        · obtain ⟨b, rfl⟩ := List.length_eq_one_iff.mp hlen
          exact .two ha ha' (hs b (by simp))
        · obtain ⟨b, c, rfl⟩ := List.length_eq_two.mp hlen
          have hb := hs b (by simp)
          have hc := hs c (by simp)
          simp only [List.foldl_cons, List.foldl_nil, not_or, not_and] at hsound
          have hmin := hsound.1 trivial
          by_cases hfirst : a.toNat = 0xe0
          · exact .threeFirst hfirst (by unfold Tail at hb hc; omega) hb hc
          · by_cases hsurr : a.toNat = 0xed
            · exact .threeSurrogate hsurr (by unfold Tail at hb hc; omega) hb hc
            · exact .three (by omega) ha' hsurr hb hc
        · obtain ⟨b, c, d, rfl⟩ := List.length_eq_three.mp hlen
          have hb := hs b (by simp)
          have hc := hs c (by simp)
          have hd := hs d (by simp)
          simp only [List.foldl_cons, List.foldl_nil, not_or, not_and] at hsound
          have hmin := hsound.2.1 trivial
          by_cases hfirst : a.toNat = 0xf0
          · exact .fourFirst hfirst (by unfold Tail at hb hc hd; omega) hb hc hd
          · by_cases hlast : a.toNat = 0xf4
            · exact .fourLast hlast (by unfold Tail at hb hc hd; omega) hb hc hd
            · exact .four (by omega) (by omega) hb hc hd
  · intro h
    cases h with
    | @two a b _ ha ha' hb =>
        refine consumeUtf8_cons_eq_ok.mpr ⟨2, a.toNat % 32, [b],
          utf8Lead_eq_some.mpr (.inl ⟨ha, ha', rfl, rfl⟩), rfl, rfl, by simpa using hb, ?_⟩
        simp only [List.foldl_cons, List.foldl_nil]
        unfold SoundCodepoint
        unfold Tail at hb
        omega
    | @threeFirst a b c _ ha hb' hb hc =>
        refine consumeUtf8_cons_eq_ok.mpr ⟨3, a.toNat % 16, [b, c],
          utf8Lead_eq_some.mpr (by omega), rfl, rfl, by simp [hb, hc], ?_⟩
        simp only [List.foldl_cons, List.foldl_nil]
        unfold SoundCodepoint
        unfold Tail at hb hc
        omega
    | @three a b c _ ha ha' hsurr hb hc =>
        refine consumeUtf8_cons_eq_ok.mpr ⟨3, a.toNat % 16, [b, c],
          utf8Lead_eq_some.mpr (by omega), rfl, rfl, by simp [hb, hc], ?_⟩
        simp only [List.foldl_cons, List.foldl_nil]
        unfold SoundCodepoint
        unfold Tail at hb hc
        omega
    | @threeSurrogate a b c _ ha hb' hb hc =>
        refine consumeUtf8_cons_eq_ok.mpr ⟨3, a.toNat % 16, [b, c],
          utf8Lead_eq_some.mpr (by omega), rfl, rfl, by simp [hb, hc], ?_⟩
        simp only [List.foldl_cons, List.foldl_nil]
        unfold SoundCodepoint
        unfold Tail at hb hc
        omega
    | @fourFirst a b c d _ ha hb' hb hc hd =>
        refine consumeUtf8_cons_eq_ok.mpr ⟨4, a.toNat % 8, [b, c, d],
          utf8Lead_eq_some.mpr (by omega), rfl, rfl, by simp [hb, hc, hd], ?_⟩
        simp only [List.foldl_cons, List.foldl_nil]
        unfold SoundCodepoint
        unfold Tail at hb hc hd
        omega
    | @four a b c d _ ha ha' hb hc hd =>
        refine consumeUtf8_cons_eq_ok.mpr ⟨4, a.toNat % 8, [b, c, d],
          utf8Lead_eq_some.mpr (by omega), rfl, rfl, by simp [hb, hc, hd], ?_⟩
        simp only [List.foldl_cons, List.foldl_nil]
        unfold SoundCodepoint
        unfold Tail at hb hc hd
        omega
    | @fourLast a b c d _ ha hb' hb hc hd =>
        refine consumeUtf8_cons_eq_ok.mpr ⟨4, a.toNat % 8, [b, c, d],
          utf8Lead_eq_some.mpr (by omega), rfl, rfl, by simp [hb, hc, hd], ?_⟩
        simp only [List.foldl_cons, List.foldl_nil]
        unfold SoundCodepoint
        unfold Tail at hb hc hd
        omega

/-! ## Strings -/

theorem scanString_sound {start t r : Bytes} {fuel : Nat} {escaped : Bool}
    (h : scanString false start fuel escaped t = .ok r) :
    ∃ u, r = 0x22 :: u ∧ Chars Accepted t r := by
  induction fuel generalizing escaped t with
  | zero => cases h
  | succ fuel ih =>
      cases t with
      | nil => cases h
      | cons c t =>
          simp only [scanString, Bool.false_and, Bool.false_eq_true, if_false] at h
          split at h
          · next hquote =>
              cases h
              exact ⟨t, by rw [hquote], .done⟩
          · next hquote =>
              split at h
              · cases h
              · next hcontrol =>
                  split at h
                  · next hslash =>
                      subst hslash
                      cases hescape : parseEscape (0x5c :: t) with
                      | error e => simp [hescape, bind, Except.bind] at h
                      | ok u =>
                          simp only [hescape, bind, Except.bind] at h
                          obtain ⟨v, hv, hchars⟩ := ih h
                          exact ⟨v, hv, .escape (parseEscape_eq_ok.mp hescape) hchars⟩
                  · next hslash =>
                      split at h
                      · cases hutf : consumeUtf8 (c :: t) with
                        | error e => simp [hutf, bind, Except.bind] at h
                        | ok u =>
                            simp only [hutf, bind, Except.bind] at h
                            obtain ⟨v, hv, hchars⟩ := ih h
                            exact ⟨v, hv, .utf8 (consumeUtf8_eq_ok.mp hutf) hchars⟩
                      · next hascii =>
                          obtain ⟨v, hv, hchars⟩ := ih h
                          exact ⟨v, hv, .plain ⟨by omega, by omega, hquote, hslash⟩ hchars⟩

theorem ne_of_toNat_le {c d : UInt8} (hc : 0x80 ≤ c.toNat) (hd : d.toNat < 0x80) : c ≠ d := by
  rintro rfl
  omega

theorem scanString_complete {start t r : Bytes} {fuel : Nat} {escaped : Bool}
    (h : Chars Accepted t (0x22 :: r)) (hfuel : t.length ≤ fuel) :
    scanString false start fuel escaped t = .ok (0x22 :: r) := by
  generalize hu : (0x22 :: r : Bytes) = u at h
  induction h generalizing fuel escaped with
  | done =>
      subst hu
      obtain ⟨fuel, rfl⟩ : ∃ n, fuel = n + 1 := ⟨fuel - 1, by simp at hfuel; omega⟩
      simp only [scanString, Bool.false_and, Bool.false_eq_true, if_false, if_true]
      rfl
  | @plain c t r hc _ ih =>
      obtain ⟨fuel, rfl⟩ : ∃ n, fuel = n + 1 := ⟨fuel - 1, by simp at hfuel; omega⟩
      obtain ⟨hlow, hhigh, hquote, hslash⟩ := hc
      simp only [scanString, Bool.false_and, Bool.false_eq_true, if_false]
      rw [if_neg hquote, if_neg (by omega), if_neg hslash, if_neg (by omega)]
      exact ih (by simpa using hfuel) hu
  | utf8 hseq _ ih =>
      obtain ⟨c, t, rfl, hc⟩ := hseq.head
      obtain ⟨fuel, rfl⟩ : ∃ n, fuel = n + 1 := ⟨fuel - 1, by simp at hfuel; omega⟩
      have hshort := hseq.shorter
      simp only [scanString, Bool.false_and, Bool.false_eq_true, if_false]
      rw [if_neg (ne_of_toNat_le hc (by decide)), if_neg (by omega),
        if_neg (ne_of_toNat_le hc (by decide)), if_pos hc, consumeUtf8_eq_ok.mpr hseq]
      exact ih (by omega) hu
  | escape hesc _ ih =>
      obtain ⟨t, rfl⟩ := hesc.head
      obtain ⟨fuel, rfl⟩ : ∃ n, fuel = n + 1 := ⟨fuel - 1, by simp at hfuel; omega⟩
      have hshort := hesc.shorter
      simp only [scanString]
      rw [if_neg (by decide), if_neg (by decide), if_pos trivial, parseEscape_eq_ok.mpr hesc]
      exact ih (by omega) hu

/-- Keys are scanned without escapes. -/
theorem scanString_key_sound {start t r : Bytes} {fuel : Nat} {escaped : Bool}
    (h : scanString true start fuel escaped t = .ok r) :
    escaped = false ∧ ∃ k u, r = 0x22 :: u ∧ t = k ++ r ∧ ∀ c ∈ k, KeyByte c := by
  induction fuel generalizing escaped t with
  | zero => cases h
  | succ fuel ih =>
      cases t with
      | nil => cases h
      | cons c t =>
          simp only [scanString, Bool.true_and] at h
          split at h
          · next hquote =>
              split at h
              · cases h
              · next hescaped =>
                  cases h
                  exact ⟨by simpa using hescaped, [], t, by rw [hquote], rfl, by simp⟩
          · next hquote =>
              split at h
              · cases h
              · split at h
                · next hslash =>
                    cases hescape : parseEscape (c :: t) with
                    | error e => simp [hescape, bind, Except.bind] at h
                    | ok u =>
                        simp only [hescape, bind, Except.bind] at h
                        exact absurd (ih h).1 (by decide)
                · next hslash =>
                    split at h
                    · cases h
                    · next hprint =>
                        simp only [Bool.or_eq_true, decide_eq_true_eq, not_or] at hprint
                        rw [if_neg (by omega)] at h
                        obtain ⟨hescaped, k, u, hr, rfl, hk⟩ := ih h
                        refine ⟨hescaped, c :: k, u, hr, rfl, ?_⟩
                        intro d hd
                        rcases List.mem_cons.mp hd with rfl | hd
                        · exact ⟨by omega, by omega, hquote, hslash⟩
                        · exact hk d hd

theorem scanString_key_complete {start k r : Bytes} {fuel : Nat} (hk : ∀ c ∈ k, KeyByte c)
    (hfuel : k.length < fuel) :
    scanString true start fuel false (k ++ 0x22 :: r) = .ok (0x22 :: r) := by
  induction k generalizing fuel with
  | nil =>
      obtain ⟨fuel, rfl⟩ : ∃ n, fuel = n + 1 := ⟨fuel - 1, by simp at hfuel; omega⟩
      rfl
  | cons c k ih =>
      obtain ⟨fuel, rfl⟩ : ∃ n, fuel = n + 1 := ⟨fuel - 1, by simp at hfuel; omega⟩
      obtain ⟨hlow, hhigh, hquote, hslash⟩ := hk c (by simp)
      have hprint : ¬ (decide (c.toNat < 0x21) || decide (0x7e < c.toNat)) = true := by
        simp only [Bool.or_eq_true, decide_eq_true_eq]
        omega
      simp only [List.cons_append, scanString, Bool.true_and]
      rw [if_neg hquote, if_neg (by omega), if_neg hslash, if_neg hprint, if_neg (by omega)]
      exact ih (fun d hd => hk d (List.mem_cons_of_mem c hd)) (by simpa using hfuel)

/-! ## Numbers -/

theorem scanDigits_eq_ok {t r : Bytes} :
    scanDigits t = .ok r ↔ Digits t r ∧ Stops IsDigit r := by
  constructor
  · intro h
    cases t with
    | nil => cases h
    | cons c t =>
        simp only [scanDigits] at h
        split at h
        · next hc =>
            cases h
            exact ⟨⟨t, ⟨c, hc, rfl⟩, many_dropWhile t⟩, stops_dropWhile t⟩
        · cases h
  · rintro ⟨⟨u, ⟨c, hc, rfl⟩, hmany⟩, hstops⟩
    simp only [scanDigits]
    rw [if_pos hc, hmany.dropWhile_eq hstops]
    rfl

theorem scanSign_sound {t r : Bytes} (h : scanSign t = .ok r) : Opt (Literal [0x2d]) t r := by
  cases t with
  | nil =>
      cases h
      exact .inl rfl
  | cons c t =>
      simp only [scanSign] at h
      split at h
      · next hc =>
          split at h
          · cases h
          · cases h
            exact .inr (by rw [hc]; rfl)
      · cases h
        exact .inl rfl

/-- An integer starts with a digit. -/
theorem intPart_head {t r : Bytes} (h : IntPart t r) : ∃ c u, t = c :: u ∧ IsDigit c := by
  rcases h with rfl | ⟨u, ⟨c, hc, rfl⟩, -⟩
  · exact ⟨0x30, r, rfl, by decide⟩
  · exact ⟨c, u, rfl, hc.1⟩

theorem scanSign_complete {t u r : Bytes} (h : Opt (Literal [0x2d]) t u) (hint : IntPart u r) :
    scanSign t = .ok u := by
  obtain ⟨c, v, rfl, hc⟩ := intPart_head hint
  rcases h with rfl | rfl
  · have hminus : c ≠ 0x2d := by
      rintro rfl
      exact absurd hc (by decide)
    simp only [scanSign]
    rw [if_neg hminus]
    rfl
  · rfl

theorem scanInteger_eq_ok {t r : Bytes} :
    scanInteger t = .ok r ↔ IntPart t r ∧ Stops IsDigit r := by
  constructor
  · intro h
    cases t with
    | nil => cases h
    | cons c t =>
        simp only [scanInteger] at h
        split at h
        · next hc =>
            split at h
            · cases h
            · next hany =>
                cases h
                refine ⟨.inl (by rw [hc]; rfl), fun d hd hdigit => hany ?_⟩
                simp [Option.mem_def.mp hd, hdigit]
        · next hzero =>
            split at h
            · next hc =>
                cases h
                exact ⟨.inr ⟨t, ⟨c, ⟨hc, hzero⟩, rfl⟩, many_dropWhile t⟩, stops_dropWhile t⟩
            · cases h
  · rintro ⟨rfl | ⟨u, ⟨c, ⟨hc, hzero⟩, rfl⟩, hmany⟩, hstops⟩
    · have hany : ¬ (r.head?.any fun d => decide (IsDigit d)) = true := by
        intro hany
        obtain ⟨d, hd, hdigit⟩ := (Option.any_eq_true _ _).mp hany
        exact hstops d hd (by simpa using hdigit)
      simp only [List.cons_append, List.nil_append, scanInteger, if_true]
      rw [if_neg hany]
      rfl
    · simp only [scanInteger]
      rw [if_neg hzero, if_pos hc, hmany.dropWhile_eq hstops]
      rfl

theorem scanFraction_sound {t r : Bytes} (h : scanFraction t = .ok r) : Opt FracPart t r := by
  cases t with
  | nil =>
      cases h
      exact .inl rfl
  | cons c t =>
      simp only [scanFraction] at h
      split at h
      · next hc =>
          rw [hc]
          exact .inr ⟨t, rfl, (scanDigits_eq_ok.mp h).1⟩
      · cases h
        exact .inl rfl

theorem scanFraction_complete {t r : Bytes} (h : Opt FracPart t r)
    (hr : Stops (fun c => IsDigit c ∨ c = 0x2e) r) : scanFraction t = .ok r := by
  rcases h with rfl | ⟨u, rfl, hdigits⟩
  · cases t with
    | nil => rfl
    | cons c t =>
        have hc : c ≠ 0x2e := fun hc => stops_cons.mp hr (.inr hc)
        simp only [scanFraction]
        rw [if_neg hc]
        rfl
  · exact scanDigits_eq_ok.mpr ⟨hdigits, hr.mono fun _ => .inl⟩

theorem scanExponentSign_eq {t u r : Bytes}
    (h : Opt (Byte fun c => c = 0x2b ∨ c = 0x2d) t u) (hdigits : Digits u r) :
    scanExponentSign t = u := by
  obtain ⟨v, ⟨d, hd, rfl⟩, -⟩ := hdigits
  rcases h with rfl | ⟨c, hc, rfl⟩
  · have hsign : ¬ (d = 0x2b ∨ d = 0x2d) := by
      rintro (rfl | rfl) <;> exact absurd hd (by decide)
    simp only [scanExponentSign]
    rw [if_neg hsign]
  · simp only [scanExponentSign]
    rw [if_pos hc]

theorem scanExponent_sound {t r : Bytes} (h : scanExponent t = .ok r) : Opt ExpPart t r := by
  cases t with
  | nil =>
      cases h
      exact .inl rfl
  | cons c t =>
      simp only [scanExponent] at h
      split at h
      · next hc =>
          refine .inr ⟨t, ⟨c, hc, rfl⟩, scanExponentSign t, ?_, (scanDigits_eq_ok.mp h).1⟩
          cases t with
          | nil => exact .inl rfl
          | cons d t =>
              simp only [scanExponentSign]
              split
              · next hd => exact .inr ⟨d, hd, rfl⟩
              · exact .inl rfl
      · cases h
        exact .inl rfl

theorem scanExponent_complete {t r : Bytes} (h : Opt ExpPart t r) (hr : Stops ContinuesNumber r) :
    scanExponent t = .ok r := by
  rcases h with rfl | ⟨u, ⟨c, hc, rfl⟩, v, hsign, hdigits⟩
  · cases t with
    | nil => rfl
    | cons c t =>
        have hc : ¬ (c = 0x65 ∨ c = 0x45) := fun hc => stops_cons.mp hr (.inr (.inr hc))
        simp only [scanExponent]
        rw [if_neg hc]
        rfl
  · simp only [scanExponent]
    rw [if_pos hc, scanExponentSign_eq hsign hdigits]
    exact scanDigits_eq_ok.mpr ⟨hdigits, hr.mono fun _ => .inl⟩

theorem scanNumber_sound {t r : Bytes} (h : scanNumber t = .ok r) : Number t r := by
  unfold scanNumber at h
  obtain ⟨u, hsign, h⟩ := bind_eq_ok.mp h
  obtain ⟨v, hint, h⟩ := bind_eq_ok.mp h
  obtain ⟨w, hfrac, hexp⟩ := bind_eq_ok.mp h
  exact ⟨u, scanSign_sound hsign, v, (scanInteger_eq_ok.mp hint).1, w,
    scanFraction_sound hfrac, scanExponent_sound hexp⟩

theorem scanNumber_complete {t r : Bytes} (h : Number t r) (hr : Stops ContinuesNumber r) :
    scanNumber t = .ok r := by
  obtain ⟨u, hsign, v, hint, w, hfrac, hexp⟩ := h
  -- Each part ends where the next one starts, or where the number does.
  have hw : Stops (fun c => IsDigit c ∨ c = 0x2e) w := by
    rcases hexp with rfl | ⟨x, ⟨c, rfl | rfl, rfl⟩, -⟩
    · exact hr.mono fun c hc => hc.elim .inl fun hc => .inr (.inl hc)
    · exact stops_cons.mpr (by decide)
    · exact stops_cons.mpr (by decide)
  have hv : Stops IsDigit v := by
    rcases hfrac with rfl | ⟨x, rfl, -⟩
    · exact hw.mono fun _ => .inl
    · exact stops_cons.mpr (by decide)
  unfold scanNumber
  rw [scanSign_complete hsign hint]
  simp only [bind, Except.bind, scanInteger_eq_ok.mpr ⟨hint, hv⟩, scanFraction_complete hfrac hw]
  exact scanExponent_complete hexp hr

/-- A number starts with a minus or a digit. -/
theorem number_head {t r : Bytes} (h : Number t r) :
    ∃ c u, t = c :: u ∧ (c = 0x2d ∨ IsDigit c) := by
  obtain ⟨u, hsign, v, hint, -⟩ := h
  rcases hsign with rfl | rfl
  · obtain ⟨c, u, rfl, hc⟩ := intPart_head hint
    exact ⟨c, u, rfl, .inr hc⟩
  · exact ⟨0x2d, u, rfl, .inl rfl⟩

/-! ## Literals -/

theorem scanLiteral_eq_ok {literal t r : Bytes} :
    scanLiteral literal t = .ok r ↔ Literal literal t r := by
  unfold scanLiteral Literal
  constructor
  · intro h
    split at h
    · next htake =>
        cases h
        conv_lhs => rw [← List.take_append_drop literal.length t, htake]
    · cases h
  · rintro rfl
    simp [pure, Except.pure]

end Json

end BmxUpdate
