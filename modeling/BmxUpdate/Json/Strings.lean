import BmxUpdate.Json.Acceptance
import BmxUpdate.Library.JsonString

/-!
# The string tokens of an accepted text

Every string token of a text that `ParseJson` accepts holds the characters
`ParseString` read between its quotes.  A step keeps that (`Keeps`): it adds
tokens, ends containers and counts children, and none of it moves a string.
-/

namespace BmxUpdate

namespace Json

open Wire JsonGrammar

/-- A token that is a string holds characters. -/
def HoldsString (json : Bytes) (t : JsonToken) : Prop :=
  t.type = .string → ∃ x, Chars Accepted (t.text json ++ x) x

/-- All strings of the table do; child counts are left out. -/
def HoldsStrings (json : Bytes) (tokens : List JsonToken) : Prop :=
  ∀ t ∈ bare tokens, HoldsString json t

/-- The types of the tokens, which never change. -/
def types (tokens : List JsonToken) : List JsonTokenType := (bare tokens).map (·.type)

/-- What every step of the parser keeps. -/
structure Keeps (json : Bytes) (s s' : Parser) : Prop where
  rest : s'.rest <:+ s.rest
  types : types s.tokens <+: types s'.tokens
  strings : s.rest <:+ json → HoldsStrings json s.tokens → HoldsStrings json s'.tokens

namespace Keeps

variable {json : Bytes} {s s' s'' : Parser}

theorem trans (h : Keeps json s s') (h' : Keeps json s' s'') : Keeps json s s'' := by
  refine ⟨h'.rest.trans h.rest, h.types.trans h'.types, ?_⟩
  intro hsuffix hstrings
  exact h'.strings (h.rest.trans hsuffix) (h.strings hsuffix hstrings)

/-- Reading on. -/
theorem read {r : Bytes} (h : r <:+ s.rest) : Keeps json s { s with rest := r } :=
  ⟨h, List.prefix_refl _, fun _ hstrings => hstrings⟩

/-- A new token. -/
theorem push {r : Bytes} {tokens : List JsonToken} {token : JsonToken}
    (hr : r <:+ s.rest) (htokens : bare tokens = bare s.tokens ++ [token])
    (htoken : s.rest <:+ json → HoldsString json token) :
    Keeps json s { rest := r, tokens := tokens } := by
  refine ⟨hr, ?_, ?_⟩
  · unfold Json.types
    rw [htokens, List.map_append]
    exact List.prefix_append _ _
  · intro hsuffix hstrings t ht
    rw [htokens] at ht
    rcases List.mem_append.mp ht with ht | ht
    · exact hstrings t ht
    · rw [List.mem_singleton.mp ht]
      exact htoken hsuffix

/-- The end of a token that is no string. -/
theorem close {i stop : Nat} {type : JsonTokenType} (hi : (Json.types s.tokens)[i]? = some type)
    (htype : type ≠ .string) :
    Keeps json s { s with tokens := s.tokens.modify i fun t => { t with stop } } := by
  have hbare : bare (s.tokens.modify i fun t => { t with stop }) =
      (bare s.tokens).modify i fun t => { t with stop } := bare_modify fun _ => rfl
  have hold : ∀ {j : Nat} {t : JsonToken},
      ((bare s.tokens).modify i fun t => { t with stop })[j]? = some t →
        ∃ old, (bare s.tokens)[j]? = some old ∧
          t = if i = j then { old with stop } else old := by
    intro j t ht
    rw [List.getElem?_modify, Option.map_eq_map, Option.map_eq_some_iff] at ht
    obtain ⟨old, hold, rfl⟩ := ht
    refine ⟨old, hold, ?_⟩
    split <;> rfl
  refine ⟨List.suffix_refl _, ?_, ?_⟩
  · have hsame : Json.types (s.tokens.modify i fun t => { t with stop }) =
        Json.types s.tokens := by
      unfold Json.types
      rw [hbare]
      apply List.ext_getElem?
      intro j
      rw [List.getElem?_map, List.getElem?_map, List.getElem?_modify, Option.map_eq_map,
        Option.map_map]
      congr 1
      funext t
      simp only [Function.comp]
      split <;> rfl
    exact hsame ▸ List.prefix_refl _
  · intro _ hstrings t ht
    rw [hbare] at ht
    obtain ⟨j, hj⟩ := List.mem_iff_getElem?.mp ht
    obtain ⟨old, hold, rfl⟩ := hold hj
    split
    · next hij =>
        subst hij
        unfold Json.types at hi
        rw [List.getElem?_map, hold, Option.map_some, Option.some.injEq] at hi
        intro hstring
        exact absurd (hi.symm.trans hstring) htype
    · exact hstrings old (List.mem_iff_getElem?.mpr ⟨j, hold⟩)

end Keeps

section Steps

variable {json : Bytes} {capacity : Nat} {s s' : Parser} {parent : Int}

theorem skipped_suffix (t : Bytes) : skipped t <:+ t := (ws_skipped t).suffix

/-- A token that is ended where it starts to be read. -/
theorem bare_opened (type : JsonTokenType) (start : Nat) (parent : Int)
    (tokens : List JsonToken) :
    bare (countChild parent tokens ++ [opened type start parent]) =
      bare tokens ++ [opened type start parent] := by
  rw [bare_append, bare_countChild]
  rfl

/-- A scanner whose text becomes a token of another type. -/
theorem keeps_leaf {type : JsonTokenType} {start stop : Nat} {r : Bytes}
    (hr : r <:+ s.rest) (htype : type ≠ .string) :
    Keeps json s
      { rest := r,
        tokens := (countChild parent s.tokens ++ [opened type start parent]).modify
          s.tokens.length fun t => { t with stop } } :=
  Keeps.push hr (bare_leaf ..) fun _ hstring => absurd hstring htype

/-! ## Strings -/

theorem chars_of_keyBytes {k r : Bytes} (hk : ∀ c ∈ k, KeyByte c) :
    Chars Accepted (k ++ r) r := by
  induction k with
  | nil => exact .done
  | cons c k ih =>
      obtain ⟨hlow, hhigh, hquote, hslash⟩ := hk c List.mem_cons_self
      exact .plain ⟨by omega, by omega, hquote, hslash⟩
        (ih fun d hd => hk d (List.mem_cons_of_mem c hd))

/-- What is between the quotes. -/
theorem scanString_chars {objectKey escaped : Bool} {start t r : Bytes} {fuel : Nat}
    (h : scanString objectKey start fuel escaped t = .ok r) :
    ∃ k x, r = 0x22 :: x ∧ t = k ++ r ∧ Chars Accepted (k ++ r) r := by
  cases objectKey with
  | true =>
      obtain ⟨-, k, x, hr, rfl, hk⟩ := scanString_key_sound h
      exact ⟨k, x, hr, rfl, chars_of_keyBytes hk⟩
  | false =>
      obtain ⟨x, hr, hchars⟩ := scanString_sound h
      have hE : ∀ e, Accepted e → e = 0 ∨ EscapeLetter e := fun _ => accepted_iff.mp
      obtain ⟨k, rfl, -⟩ := hchars.denotes hE
      exact ⟨k, x, hr, rfl, hchars⟩

theorem keeps_parseString {objectKey : Bool} {token : Nat}
    (h : Runs (parseString json capacity parent objectKey) s token s') : Keeps json s s' := by
  obtain ⟨r, hscan, -, -, rfl⟩ := runs_parseString.mp h
  obtain ⟨k, x, hr, htail, hchars⟩ := scanString_chars hscan
  have hsuffix : r.tail <:+ s.rest := by
    refine (List.tail_suffix r).trans (List.IsSuffix.trans ?_ (List.tail_suffix s.rest))
    rw [htail]
    exact List.suffix_append k r
  refine Keeps.push hsuffix (bare_leaf ..) ?_
  intro hjson _
  have hread : (k ++ r) <:+ json := htail ▸ (List.tail_suffix s.rest).trans hjson
  have htext : JsonToken.text json
      { opened .string (offset json s.rest.tail) parent with stop := offset json r } = k :=
    text_between hread (by rw [← htail]; rfl) rfl
  rw [htext]
  exact ⟨r, hchars⟩

/-! ## Containers -/

/-- What the runs of the value parser keep. -/
def KeepsValues (json : Bytes) (value : Int → Parse Unit) : Prop :=
  ∀ {parent : Int} {s s' : Parser}, Runs (value parent) s () s' → Keeps json s s'

/-- The type of a token is the same later on. -/
theorem types_of_prefix {before after : List JsonTokenType} {i : Nat} {type : JsonTokenType}
    (h : before <+: after) (hi : before[i]? = some type) : after[i]? = some type := by
  obtain ⟨more, rfl⟩ := h
  rw [List.getElem?_append_left (List.getElem?_eq_some_iff.mp hi).1]
  exact hi

/-- A container whose loop keeps the strings. -/
theorem keeps_container {type : JsonTokenType} {closing : UInt8} {u : Unit}
    {loop : Nat → Nat → Parse Unit} (htype : type ≠ .string)
    (h : Runs (do
        let start := offset json (← get).rest
        advance
        let container ← addToken json capacity type start parent
        skipWhitespace
        if (← get).rest.head? = some closing then do
          advance
          closeToken json container
        else loop container (← get).rest.length) s u s')
    (hloop : ∀ {i n : Nat} {t : Parser}, (types t.tokens)[i]? = some type →
      Runs (loop i n) t u s' → Keeps json t s') : Keeps json s s' := by
  simp only [runs_bind, runs_get, runs_advance, runs_addToken, runs_skipWhitespace, runs_ite,
    runs_closeToken] at h
  obtain ⟨_, _, ⟨rfl, rfl⟩, _, _, rfl, _, _, ⟨-, rfl, rfl⟩, _, _, rfl, _, _, ⟨rfl, rfl⟩, h⟩ := h
  have hopened : Keeps json s
      { rest := skipped s.rest.tail,
        tokens := countChild parent s.tokens ++ [opened type (offset json s.rest) parent] } :=
    Keeps.push ((skipped_suffix _).trans (List.tail_suffix _)) (bare_opened ..)
      fun _ hstring => absurd hstring htype
  have htypes : (types
      (countChild parent s.tokens ++ [opened type (offset json s.rest) parent]))[s.tokens.length]? =
        some type := by
    unfold types
    rw [bare_opened, List.map_append, List.getElem?_append_right (by simp)]
    simp [opened]
  split at h
  · obtain ⟨_, _, rfl, rfl⟩ := h
    exact hopened.trans ((Keeps.read (List.tail_suffix _)).trans (Keeps.close htypes htype))
  · obtain ⟨_, _, ⟨rfl, rfl⟩, h⟩ := h
    exact hopened.trans (hloop htypes h)

section Containers

variable {value : Int → Parse Unit}

theorem keeps_parseElements (hvalue : KeepsValues json value) {array fuel : Nat} {u : Unit}
    (harray : (types s.tokens)[array]? = some .array)
    (h : Runs (parseElements json value array fuel) s u s') : Keeps json s s' := by
  induction fuel generalizing s with
  | zero => exact absurd h not_runs_fail
  | succ fuel ih =>
      unfold parseElements at h
      simp only [runs_bind, runs_get, runs_ite, not_runs_fail] at h
      obtain ⟨_, _, ⟨rfl, rfl⟩, h⟩ := h
      split at h
      · exact h.elim
      · obtain ⟨_, t, hrun, _, _, hskip, _, _, ⟨rfl, rfl⟩, h⟩ := h
        obtain rfl := runs_skipWhitespace.mp hskip
        have hread := (hvalue hrun).trans (Keeps.read (skipped_suffix _))
        have harray' := types_of_prefix hread.types harray
        split at h
        · obtain ⟨_, _, hadv, hclose⟩ := h
          obtain rfl := runs_advance.mp hadv
          obtain rfl := runs_closeToken.mp hclose
          exact hread.trans ((Keeps.read (List.tail_suffix _)).trans
            (Keeps.close harray' (by decide)))
        · obtain ⟨_, _, ⟨rfl, rfl⟩, h⟩ := h
          split at h
          · exact h.elim
          · obtain ⟨_, _, hadv, _, _, hskip', h⟩ := h
            obtain rfl := runs_advance.mp hadv
            obtain rfl := runs_skipWhitespace.mp hskip'
            exact hread.trans ((Keeps.read ((skipped_suffix _).trans (List.tail_suffix _))).trans
              (ih harray' h))

theorem keeps_parseMember (hvalue : KeepsValues json value) {object : Nat} {u : Unit}
    (h : Runs (parseMember json capacity value object) s u s') : Keeps json s s' := by
  unfold parseMember at h
  simp only [runs_bind, runs_get, runs_ite, not_runs_fail, not_runs_throw,
    runs_skipWhitespace, runs_advance] at h
  obtain ⟨_, _, ⟨rfl, rfl⟩, h⟩ := h
  split at h
  · exact h.elim
  · obtain ⟨_, _, hkey, _, _, ⟨rfl, rfl⟩, h⟩ := h
    split at h
    · exact h.elim
    · obtain ⟨_, _, rfl, _, _, ⟨rfl, rfl⟩, h⟩ := h
      split at h
      · exact h.elim
      · obtain ⟨_, _, rfl, hrun⟩ := h
        exact (keeps_parseString hkey).trans ((Keeps.read (skipped_suffix _)).trans
          ((Keeps.read (List.tail_suffix _)).trans (hvalue hrun)))

theorem keeps_parseMembers (hvalue : KeepsValues json value) {object fuel : Nat} {u : Unit}
    (hobject : (types s.tokens)[object]? = some .object)
    (h : Runs (parseMembers json capacity value object fuel) s u s') : Keeps json s s' := by
  induction fuel generalizing s with
  | zero => exact absurd h not_runs_fail
  | succ fuel ih =>
      unfold parseMembers at h
      simp only [runs_bind, runs_get, runs_ite, not_runs_fail] at h
      obtain ⟨_, t, hrun, _, _, hskip, _, _, ⟨rfl, rfl⟩, h⟩ := h
      obtain rfl := runs_skipWhitespace.mp hskip
      have hread := (keeps_parseMember hvalue hrun).trans (Keeps.read (skipped_suffix _))
      have hobject' := types_of_prefix hread.types hobject
      split at h
      · obtain ⟨_, _, hadv, hclose⟩ := h
        obtain rfl := runs_advance.mp hadv
        obtain rfl := runs_closeToken.mp hclose
        exact hread.trans ((Keeps.read (List.tail_suffix _)).trans
          (Keeps.close hobject' (by decide)))
      · obtain ⟨_, _, ⟨rfl, rfl⟩, h⟩ := h
        split at h
        · exact h.elim
        · obtain ⟨_, _, hadv, _, _, hskip', h⟩ := h
          obtain rfl := runs_advance.mp hadv
          obtain rfl := runs_skipWhitespace.mp hskip'
          exact hread.trans ((Keeps.read ((skipped_suffix _).trans (List.tail_suffix _))).trans
            (ih hobject' h))

theorem keeps_parseArray (hvalue : KeepsValues json value) {u : Unit}
    (h : Runs (parseArray json capacity value parent) s u s') : Keeps json s s' :=
  keeps_container (by decide) h fun harray => keeps_parseElements hvalue harray

theorem keeps_parseObject (hvalue : KeepsValues json value) {u : Unit}
    (h : Runs (parseObject json capacity value parent) s u s') : Keeps json s s' :=
  keeps_container (by decide) h fun hobject => keeps_parseMembers hvalue hobject

end Containers

/-! ## Values -/

theorem keeps_parseLiteral {literal : Bytes} {type : JsonTokenType} {u : Unit}
    (htype : type ≠ .string)
    (h : Runs (parseLiteral json capacity parent literal type) s u s') : Keeps json s s' := by
  obtain ⟨r, hscan, -, rfl⟩ := runs_leaf.mp h
  have hr : r <:+ s.rest := by
    rw [scanLiteral_eq_ok.mp hscan]
    exact List.suffix_append literal r
  exact keeps_leaf hr htype

theorem keeps_parseNumber {u : Unit} (h : Runs (parseNumber json capacity parent) s u s') :
    Keeps json s s' := by
  obtain ⟨r, hscan, -, rfl⟩ := runs_leaf.mp h
  have hread := readsOnly_number (Q := fun _ => True) (fun _ _ => trivial)
    (scanNumber_sound hscan)
  obtain ⟨k, -, hk⟩ := hread
  exact keeps_leaf (hk ▸ List.suffix_append k r) (by decide)

/-- A value keeps the strings, those inside it included. -/
theorem keeps_parseValue (levels : Nat) : KeepsValues json (parseValue json capacity levels) := by
  induction levels with
  | zero => exact fun h => absurd h not_runs_fail
  | succ levels ih =>
      intro parent s s' h
      unfold parseValue at h
      simp only [runs_bind, runs_skipWhitespace, runs_get] at h
      obtain ⟨_, _, rfl, _, _, ⟨rfl, rfl⟩, h⟩ := h
      refine (Keeps.read (skipped_suffix s.rest)).trans ?_
      split at h
      · exact absurd h not_runs_fail
      · simp only [runs_ite] at h
        split at h
        · exact keeps_parseObject ih h
        · split at h
          · exact keeps_parseArray ih h
          · split at h
            · obtain ⟨_, _, hstring, hdone⟩ := runs_bind.mp h
              obtain ⟨-, rfl⟩ := runs_pure.mp hdone
              exact keeps_parseString hstring
            · split at h
              · exact keeps_parseLiteral (by decide) h
              · split at h
                · exact keeps_parseLiteral (by decide) h
                · split at h
                  · exact keeps_parseLiteral (by decide) h
                  · split at h
                    · exact keeps_parseNumber h
                    · exact absurd h not_runs_fail

end Steps

/-! ## The whole text -/

/-- The strings of an accepted text hold characters. -/
theorem parseJson_holdsString {json : Bytes} {capacity maxDepth : Nat} {token : JsonToken}
    (haccepted : (parseJson (some json) capacity maxDepth).1.error = none)
    (htoken : token ∈ (parseJson (some json) capacity maxDepth).2) : HoldsString json token := by
  unfold parseJson at haccepted htoken
  simp only at haccepted htoken
  split at htoken
  · cases htoken
  · split at htoken
    · cases htoken
    · split at htoken
      · next s hrun =>
          have hruns : Runs (parseText json capacity maxDepth)
            { rest := json, tokens := [] } () s := hrun
          unfold parseText at hruns
          simp only [runs_bind, runs_skipWhitespace, runs_get, runs_ite, runs_pure] at hruns
          obtain ⟨_, _, rfl, _, t, hvalue, _, _, rfl, _, _, ⟨rfl, rfl⟩, h⟩ := hruns
          split at h
          · exact absurd h not_runs_fail
          · obtain ⟨-, rfl⟩ := h
            have hkeeps := keeps_parseValue maxDepth hvalue
            have hstrings := hkeeps.strings (skipped_suffix json) (by simp [HoldsStrings, bare])
            exact hstrings token.bare (List.mem_map_of_mem htoken)
      · next error s hrun =>
          rw [if_neg (by assumption), if_neg (by assumption)] at haccepted
          rw [hrun] at haccepted
          cases haccepted

end Json

end BmxUpdate
