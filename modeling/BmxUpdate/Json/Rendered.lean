import BmxUpdate.Json.Acceptance
import BmxUpdate.Library.JsonTree

/-!
# The tokens of a rendered tree

What `ParseJson` makes of the shortest text of a tree: one token for each value and key, in
the order of the text, with the place of its container.
-/

namespace BmxUpdate

namespace Json

open Wire JsonGrammar

/-! ## The tokens of a tree -/

mutual

/-- The tokens of a tree whose text starts at `start`, from the place `index` of the table on. -/
def tokensOf (start index : Nat) (parent : Int) : Tree → List JsonToken
  | .string raw => [⟨.string, start + 1, start + 1 + raw.length, parent, 0⟩]
  | .number raw => [⟨.number, start, start + raw.length, parent, 0⟩]
  | .bool value =>
      [⟨if value then .true else .false, start, start + (literal value).length, parent, 0⟩]
  | .array elements =>
      ⟨.array, start, start + (Tree.render (.array elements)).length, parent, elements.length⟩ ::
        elementTokens start (index + 1) index elements
  | .object members =>
      ⟨.object, start, start + (Tree.render (.object members)).length, parent,
        2 * members.length⟩ :: memberTokens start (index + 1) index members

/-- The tokens of the elements, the first one behind the comma at `comma`. -/
def elementTokens (comma next container : Nat) : List Tree → List JsonToken
  | [] => []
  | t :: ts =>
      tokensOf (comma + 1) next container t ++
        elementTokens (comma + 1 + t.render.length) (next + t.size) container ts

def memberTokens (comma next container : Nat) : List (Bytes × Tree) → List JsonToken
  | [] => []
  | (k, t) :: ms =>
      ⟨.string, comma + 2, comma + 2 + k.length, container, 0⟩ ::
        (tokensOf (comma + k.length + 4) (next + 1) container t ++
          memberTokens (comma + k.length + 4 + t.render.length) (next + 1 + t.size) container ms)

end

mutual

theorem length_tokensOf : ∀ (t : Tree) (start index : Nat) (parent : Int),
    (tokensOf start index parent t).length = t.size
  | .string _, _, _, _ => rfl
  | .number _, _, _, _ => rfl
  | .bool _, _, _, _ => rfl
  | .array elements, start, index, parent => by
      simp only [tokensOf, List.length_cons, Tree.size, length_elementTokens elements]
  | .object members, start, index, parent => by
      simp only [tokensOf, List.length_cons, Tree.size, length_memberTokens members]

theorem length_elementTokens : ∀ (ts : List Tree) (comma next container : Nat),
    (elementTokens comma next container ts).length = Tree.sizeElements ts
  | [], _, _, _ => rfl
  | t :: ts, comma, next, container => by
      simp only [elementTokens, List.length_append, Tree.sizeElements, length_tokensOf t,
        length_elementTokens ts]

theorem length_memberTokens : ∀ (ms : List (Bytes × Tree)) (comma next container : Nat),
    (memberTokens comma next container ms).length = Tree.sizeMembers ms
  | [], _, _, _ => rfl
  | (k, t) :: ms, comma, next, container => by
      simp only [memberTokens, List.length_cons, List.length_append, Tree.sizeMembers,
        length_tokensOf t, length_memberTokens ms]
      omega

end

/-! ## Reading a rendered tree -/

theorem offset_append {json rest : Bytes} (front : Bytes) (h : front ++ rest <:+ json) :
    offset json rest = offset json (front ++ rest) + front.length := by
  have hlength := h.length_le
  rw [List.length_append] at hlength
  unfold offset
  rw [List.length_append]
  omega

/-- The container with `n` more children, ended at `stop`. -/
def JsonToken.closed (n stop : Nat) (t : JsonToken) : JsonToken :=
  { t with childCount := t.childCount + n, stop }

theorem modify_append_of_lt {α : Type} {f : α → α} {i : Nat} {xs ys : List α}
    (h : i < xs.length) : (xs ++ ys).modify i f = xs.modify i f ++ ys := by
  induction xs generalizing i with
  | nil => cases h
  | cons x xs ih =>
      cases i with
      | zero => rfl
      | succ i => simp [ih (Nat.lt_of_succ_lt_succ h)]

theorem modify_append_length {α : Type} {f : α → α} (xs : List α) (y : α) (ys : List α) :
    (xs ++ y :: ys).modify xs.length f = xs ++ f y :: ys := by
  induction xs with
  | nil => rfl
  | cons x xs ih => simp [ih]

theorem countChild_append {array : Nat} {tokens more : List JsonToken}
    (h : array < tokens.length) :
    countChild array (tokens ++ more) = countChild array tokens ++ more := by
  unfold countChild
  rw [if_pos (Int.natCast_nonneg _), if_pos (Int.natCast_nonneg _), Int.toNat_natCast]
  exact modify_append_of_lt h

/-- Counting a child and ending the container later. -/
theorem modify_closed_countChild (array n stop : Nat) (tokens : List JsonToken) :
    (countChild array tokens).modify array (JsonToken.closed n stop) =
      tokens.modify array (JsonToken.closed (n + 1) stop) := by
  unfold countChild
  rw [if_pos (Int.natCast_nonneg _), Int.toNat_natCast, List.modify_modify_eq]
  congr 1
  funext t
  simp only [Function.comp, JsonToken.closed, JsonToken.mk.injEq, true_and]
  omega

theorem closed_stop (stop : Nat) :
    (fun t : JsonToken => { t with stop }) = JsonToken.closed 0 stop := rfl

section Reading

variable {json : Bytes} {capacity : Nat}

/-- The text of a well-formed tree starts with no space. -/
theorem skipped_render {t : Tree} {levels : Nat} (h : t.wellFormed levels = true) (r : Bytes) :
    skipped (t.render ++ r) = t.render ++ r :=
  skipped_eq (startsInk_value levels t.size) (Many.refl _)
    (Tree.render_value (E := Accepted) t h r)

/-- The tokens after a new one that is ended at once. -/
theorem modify_new (parent : Int) (tokens : List JsonToken) (t : JsonToken) (stop : Nat) :
    (countChild parent tokens ++ [t]).modify tokens.length (fun t => { t with stop }) =
      countChild parent tokens ++ [{ t with stop }] := by
  have hmodify := modify_append_length (f := fun t => { t with stop })
    (countChild parent tokens) t []
  rwa [length_countChild] at hmodify

/-- `ParseValue` on a text that starts with no space, by its first byte. -/
theorem runs_parseValue {levels : Nat} {parent : Int} {s s' : Parser} {c : UInt8} {t : Bytes}
    (hs : s.rest = c :: t) (hskip : skipped s.rest = s.rest) :
    Runs (parseValue json capacity (levels + 1) parent) s () s' ↔
      Runs (if c = 0x7b then parseObject json capacity (parseValue json capacity levels) parent
        else if c = 0x5b then parseArray json capacity (parseValue json capacity levels) parent
        else if c = 0x22 then do
          let _ ← parseString json capacity parent false
        else if c = 0x74 then parseLiteral json capacity parent [0x74, 0x72, 0x75, 0x65] .true
        else if c = 0x66 then
          parseLiteral json capacity parent [0x66, 0x61, 0x6c, 0x73, 0x65] .false
        else if c = 0x6e then parseLiteral json capacity parent [0x6e, 0x75, 0x6c, 0x6c] .null
        else if c = 0x2d ∨ IsDigit c then parseNumber json capacity parent
        else fail json .syntaxError) s () s' := by
  have hsame : ({ s with rest := skipped s.rest } : Parser) = s := by rw [hskip]
  rw [parseValue]
  simp only [runs_bind, runs_skipWhitespace, runs_get]
  constructor
  · rintro ⟨_, _, rfl, _, _, ⟨rfl, rfl⟩, h⟩
    rw [hsame, hs] at h
    exact h
  · intro h
    refine ⟨(), _, rfl, _, _, ⟨rfl, rfl⟩, ?_⟩
    rw [hsame, hs]
    exact h

/-- A scanned token. -/
theorem leaf_rendered {scanner : Bytes → Scan} {type : JsonTokenType} {parent : Int}
    {s s' : Parser} {raw r : Bytes}
    (h : Runs (do
        let start := offset json (← get).rest
        scan json scanner
        let token ← addToken json capacity type start parent
        closeToken json token) s () s')
    (hs : s.rest = raw ++ r) (hsuffix : s.rest <:+ json) (hscan : scanner s.rest = .ok r) :
    s' = ⟨r, countChild parent s.tokens ++
      [⟨type, offset json s.rest, offset json s.rest + raw.length, parent, 0⟩]⟩ := by
  obtain ⟨r', hscan', -, rfl⟩ := runs_leaf.mp h
  obtain rfl : r = r' := Except.ok.inj (hscan.symm.trans hscan')
  have hoffset : offset json r = offset json s.rest + raw.length := by
    rw [hs] at hsuffix ⊢
    exact offset_append raw hsuffix
  rw [modify_new, hoffset]
  rfl

theorem string_rendered {objectKey : Bool} {parent : Int} {token : Nat} {s s' : Parser}
    {raw r : Bytes} (h : Runs (parseString json capacity parent objectKey) s token s')
    (hs : s.rest = 0x22 :: (raw ++ 0x22 :: r)) (hsuffix : s.rest <:+ json)
    (hscan : scanString objectKey (raw ++ 0x22 :: r) (raw ++ 0x22 :: r).length false
      (raw ++ 0x22 :: r) = .ok (0x22 :: r)) :
    token = s.tokens.length ∧
      s' = ⟨r, countChild parent s.tokens ++
        [⟨.string, offset json s.rest + 1, offset json s.rest + 1 + raw.length, parent, 0⟩]⟩ := by
  obtain ⟨r', hscan', -, rfl, rfl⟩ := runs_parseString.mp h
  have htail : s.rest.tail = raw ++ 0x22 :: r := by rw [hs]; rfl
  rw [htail] at hscan'
  obtain rfl : 0x22 :: r = r' := Except.ok.inj (hscan.symm.trans hscan')
  rw [hs] at hsuffix
  have hstart : offset json (raw ++ 0x22 :: r) = offset json s.rest + 1 := by
    rw [hs]
    exact offset_append [0x22] hsuffix
  have hstop : offset json (0x22 :: r) = offset json s.rest + 1 + raw.length := by
    rw [← hstart]
    exact offset_append raw ((List.suffix_cons _ _).trans hsuffix)
  refine ⟨rfl, ?_⟩
  rw [htail, modify_new, hstart, hstop]
  rfl

/-- A container up to its loop, or its end. -/
theorem open_rendered {type : JsonTokenType} {parent : Int} {close start : UInt8} {s s' : Parser}
    {body r : Bytes} {loop : Nat → Nat → Parse Unit}
    (h : Runs (do
        let start := offset json (← get).rest
        advance
        let container ← addToken json capacity type start parent
        skipWhitespace
        if (← get).rest.head? = some close then do
          advance
          closeToken json container
        else loop container (← get).rest.length) s () s')
    (hs : s.rest = start :: (body ++ close :: r)) (hsuffix : s.rest <:+ json)
    (hbody : skipped (body ++ close :: r) = body ++ close :: r)
    (hhead : body ≠ [] → body.head? ≠ some close) :
    (body = [] ∧ s' = ⟨r, countChild parent s.tokens ++
        [⟨type, offset json s.rest, offset json s.rest + 2, parent, 0⟩]⟩) ∨
      body ≠ [] ∧ ∃ fuel, Runs (loop s.tokens.length fuel)
        ⟨body ++ close :: r,
          countChild parent s.tokens ++ [opened type (offset json s.rest) parent]⟩ () s' := by
  simp only [runs_bind, runs_get, runs_advance, runs_addToken, runs_skipWhitespace, runs_ite,
    runs_closeToken] at h
  obtain ⟨_, _, ⟨rfl, rfl⟩, _, _, rfl, _, _, ⟨-, rfl, rfl⟩, _, _, rfl, _, _, ⟨rfl, rfl⟩, h⟩ := h
  have htail : s.rest.tail = body ++ close :: r := by rw [hs]; rfl
  simp only [htail, hbody] at h
  by_cases hempty : body = []
  · subst hempty
    rw [List.nil_append, if_pos (show (close :: r).head? = some close from rfl)] at h
    obtain ⟨_, _, rfl, rfl⟩ := h
    refine .inl ⟨rfl, ?_⟩
    have hoffset : offset json r = offset json s.rest + 2 := by
      rw [hs] at hsuffix ⊢
      exact offset_append [start, close] hsuffix
    show Parser.mk r _ = _
    rw [List.tail_cons, modify_new, hoffset]
    rfl
  · have hne : (body ++ close :: r).head? ≠ some close := by
      rw [List.head?_append_of_ne_nil _ hempty]
      exact hhead hempty
    rw [if_neg hne] at h
    obtain ⟨_, _, ⟨rfl, rfl⟩, h⟩ := h
    exact .inr ⟨hempty, _, h⟩

/-- A turn of the loop of `ParseArray`. -/
theorem parseElements_turn {value : Int → Parse Unit} {array fuel : Nat} {s s' : Parser} {u : Unit}
    (h : Runs (parseElements json value array fuel) s u s') :
    ∃ t rest, Runs (value array) s () t ∧ rest = skipped t.rest ∧
      ((rest.head? = some 0x5d ∧
          s' = ⟨rest.tail, t.tokens.modify array (JsonToken.closed 0 (offset json rest.tail))⟩) ∨
        (rest.head? ≠ some 0x5d ∧ ∃ fuel,
          Runs (parseElements json value array fuel) ⟨skipped rest.tail, t.tokens⟩ u s')) := by
  cases fuel with
  | zero => exact absurd h not_runs_fail
  | succ fuel =>
      unfold parseElements at h
      simp only [runs_bind, runs_get, runs_ite, not_runs_fail] at h
      obtain ⟨_, _, ⟨rfl, rfl⟩, h⟩ := h
      split at h
      · exact h.elim
      · obtain ⟨_, t, hrun, _, _, hskip, _, _, ⟨rfl, rfl⟩, h⟩ := h
        obtain rfl := runs_skipWhitespace.mp hskip
        refine ⟨t, _, hrun, rfl, ?_⟩
        split at h
        · next hclose =>
            obtain ⟨_, _, hadv, hstop⟩ := h
            obtain rfl := runs_advance.mp hadv
            obtain rfl := runs_closeToken.mp hstop
            exact .inl ⟨hclose, rfl⟩
        · next hclose =>
            obtain ⟨_, _, ⟨rfl, rfl⟩, h⟩ := h
            split at h
            · exact h.elim
            · obtain ⟨_, _, hadv, _, _, hskip', h⟩ := h
              obtain rfl := runs_advance.mp hadv
              obtain rfl := runs_skipWhitespace.mp hskip'
              exact .inr ⟨hclose, fuel, h⟩

/-- A turn of the loop of `ParseObject`. -/
theorem parseMembers_turn {value : Int → Parse Unit} {object fuel : Nat} {s s' : Parser} {u : Unit}
    (h : Runs (parseMembers json capacity value object fuel) s u s') :
    ∃ t rest, Runs (parseMember json capacity value object) s () t ∧ rest = skipped t.rest ∧
      ((rest.head? = some 0x7d ∧
          s' = ⟨rest.tail, t.tokens.modify object (JsonToken.closed 0 (offset json rest.tail))⟩) ∨
        (rest.head? ≠ some 0x7d ∧ ∃ fuel,
          Runs (parseMembers json capacity value object fuel) ⟨skipped rest.tail, t.tokens⟩ u s')) := by
  cases fuel with
  | zero => exact absurd h not_runs_fail
  | succ fuel =>
      unfold parseMembers at h
      simp only [runs_bind, runs_get, runs_ite, not_runs_fail] at h
      obtain ⟨_, t, hrun, _, _, hskip, _, _, ⟨rfl, rfl⟩, h⟩ := h
      obtain rfl := runs_skipWhitespace.mp hskip
      refine ⟨t, _, hrun, rfl, ?_⟩
      split at h
      · next hclose =>
          obtain ⟨_, _, hadv, hstop⟩ := h
          obtain rfl := runs_advance.mp hadv
          obtain rfl := runs_closeToken.mp hstop
          exact .inl ⟨hclose, rfl⟩
      · next hclose =>
          obtain ⟨_, _, ⟨rfl, rfl⟩, h⟩ := h
          split at h
          · exact h.elim
          · obtain ⟨_, _, hadv, _, _, hskip', h⟩ := h
            obtain rfl := runs_advance.mp hadv
            obtain rfl := runs_skipWhitespace.mp hskip'
            exact .inr ⟨hclose, fuel, h⟩

/-- A key without escapes, its colon, and the value behind. -/
theorem parseMember_rendered {value : Int → Parse Unit} {object : Nat} {s s' : Parser} {k r : Bytes}
    (h : Runs (parseMember json capacity value object) s () s') (hkey : Tree.isKey k = true)
    (hs : s.rest = 0x22 :: (k ++ 0x22 :: 0x3a :: r)) (hsuffix : s.rest <:+ json) :
    Runs (value object)
      ⟨r, countChild object s.tokens ++
        [⟨.string, offset json s.rest + 1, offset json s.rest + 1 + k.length, object, 0⟩]⟩ () s' := by
  unfold parseMember at h
  simp only [runs_bind, runs_get, runs_ite, not_runs_fail, not_runs_throw, runs_skipWhitespace,
    runs_advance] at h
  obtain ⟨_, _, ⟨rfl, rfl⟩, h⟩ := h
  have hbytes : ∀ c ∈ k, KeyByte c := by
    simp only [Tree.isKey, List.all_eq_true, decide_eq_true_eq] at hkey
    exact hkey
  split at h
  · exact h.elim
  · obtain ⟨_, _, hstring, _, _, ⟨rfl, rfl⟩, h⟩ := h
    obtain ⟨rfl, rfl⟩ := string_rendered hstring hs hsuffix
      (scanString_key_complete hbytes (by simp))
    split at h
    · exact h.elim
    · obtain ⟨_, _, rfl, _, _, ⟨rfl, rfl⟩, h⟩ := h
      split at h
      · exact h.elim
      · obtain ⟨_, _, rfl, hrun⟩ := h
        have hcolon : skipped (0x3a :: r) = 0x3a :: r := skipped_punctuation (Many.refl _) (by decide)
        simp only [hcolon, List.tail_cons] at hrun
        exact hrun

theorem render_ink {t : Tree} {levels : Nat} (h : t.wellFormed levels = true) :
    ∃ c u, t.render = c :: u ∧ ¬ IsSpace c ∧ c ≠ 0x5d := by
  have hvalue := Tree.render_value (E := Accepted) t h []
  rw [List.append_nil] at hvalue
  exact startsInk_value levels t.size hvalue

/-- A container that is closed behind its children. -/
theorem container_closed {type : JsonTokenType} {parent : Int} {start n stop length : Nat}
    {tokens inside : List JsonToken} {r : Bytes} (hstop : stop = start + length)
    {result : List JsonToken}
    (hresult : result = countChild parent tokens ++ ⟨type, start, start + length, parent, n⟩ :: inside) :
    (⟨r, (countChild parent tokens ++ [opened type start parent]).modify tokens.length
        (JsonToken.closed n stop) ++ inside⟩ : Parser) = ⟨r, result⟩ := by
  have hmodify := modify_append_length (f := JsonToken.closed n stop) (countChild parent tokens)
    (opened type start parent) []
  rw [length_countChild] at hmodify
  rw [hmodify, hresult, hstop, List.append_assoc]
  simp [JsonToken.closed, opened]

/-- What follows a value ends a number. -/
theorem stops_renderElements (ts : List Tree) (r : Bytes) :
    Stops ContinuesNumber (Tree.renderElements ts ++ 0x5d :: r) := by
  cases ts with
  | nil => exact stops_bracket r
  | cons t ts => exact stops_comma _

theorem stops_renderMembers (ms : List (Bytes × Tree)) (r : Bytes) :
    Stops ContinuesNumber (Tree.renderMembers ms ++ 0x7d :: r) := by
  cases ms with
  | nil => exact stops_brace r
  | cons m ms => exact stops_comma _

/-- What a successful `ParseValue` leaves behind the text of a tree. -/
def ReadsTree (json : Bytes) (capacity : Nat) (t : Tree) : Prop :=
  ∀ {levels : Nat} {parent : Int} {s s' : Parser} {r : Bytes},
    t.wellFormed levels = true → Runs (parseValue json capacity levels parent) s () s' →
    s.rest = t.render ++ r → s.rest <:+ json → Stops ContinuesNumber r →
    parent < s.tokens.length →
    s' = ⟨r, countChild parent s.tokens ++
      tokensOf (offset json s.rest) s.tokens.length parent t⟩

theorem exists_levels {levels : Nat} {parent : Int} {s s' : Parser}
    (h : Runs (parseValue json capacity levels parent) s () s') : ∃ n, levels = n + 1 := by
  cases levels with
  | zero => exact absurd h not_runs_fail
  | succ n => exact ⟨n, rfl⟩

theorem readsTree_string (raw : Bytes) : ReadsTree json capacity (.string raw) := by
  intro levels parent s s' r hwf h hs hsuffix hstops hparent
  obtain ⟨levels, rfl⟩ := exists_levels h
  have hskip := skipped_render hwf r
  have hrest : s.rest = 0x22 :: (raw ++ 0x22 :: r) := by simp [hs, Tree.render]
  rw [← hs] at hskip
  rw [runs_parseValue hrest hskip, if_neg (by decide), if_neg (by decide), if_pos rfl] at h
  obtain ⟨_, _, hstring, hdone⟩ := runs_bind.mp h
  obtain ⟨-, rfl⟩ := runs_pure.mp hdone
  simp only [Tree.wellFormed, Bool.and_eq_true] at hwf
  have hscan : scanString false (raw ++ 0x22 :: r) (raw ++ 0x22 :: r).length false
      (raw ++ 0x22 :: r) = .ok (0x22 :: r) :=
    scanString_complete (Tree.chars_of_isText (E := Accepted) hwf.2 (0x22 :: r)) (le_refl _)
  exact (string_rendered hstring hrest hsuffix hscan).2

theorem readsTree_number (raw : Bytes) : ReadsTree json capacity (.number raw) := by
  intro levels parent s s' r hwf h hs hsuffix hstops hparent
  obtain ⟨levels, rfl⟩ := exists_levels h
  have hskip := skipped_render hwf r
  rw [← hs] at hskip
  simp only [Tree.wellFormed, Bool.and_eq_true] at hwf
  have hnumber := Tree.number_of_isNumeral hwf.2 r
  have hrest : s.rest = raw ++ r := hs
  cases raw with
  | nil => exact absurd hwf.2 nofun
  | cons c raw =>
      have hdigit : IsDigit c := by
        simp only [Tree.isNumeral, Bool.and_eq_true, decide_eq_true_eq] at hwf
        exact hwf.2.1.1
      have hne : ∀ d : UInt8, ¬ IsDigit d → c ≠ d := fun d hd heq => hd (heq ▸ hdigit)
      rw [runs_parseValue hrest hskip, if_neg (hne _ (by decide)), if_neg (hne _ (by decide)),
        if_neg (hne _ (by decide)), if_neg (hne _ (by decide)), if_neg (hne _ (by decide)),
        if_neg (hne _ (by decide)), if_pos (.inr hdigit)] at h
      have hscan : scanNumber s.rest = .ok r := by
        rw [hrest]
        exact scanNumber_complete hnumber hstops
      exact leaf_rendered h hrest hsuffix hscan

theorem readsTree_bool (value : Bool) : ReadsTree json capacity (.bool value) := by
  intro levels parent s s' r hwf h hs hsuffix hstops hparent
  obtain ⟨levels, rfl⟩ := exists_levels h
  have hskip := skipped_render hwf r
  rw [← hs] at hskip
  have hrest : s.rest = literal value ++ r := hs
  have hscan : scanLiteral (literal value) s.rest = .ok r := by
    rw [hrest]
    exact scanLiteral_eq_ok.mpr rfl
  cases value with
  | true =>
      rw [runs_parseValue hrest hskip, if_neg (by decide), if_neg (by decide),
        if_neg (by decide), if_pos rfl] at h
      exact leaf_rendered h hrest hsuffix hscan
  | false =>
      rw [runs_parseValue hrest hskip, if_neg (by decide), if_neg (by decide),
        if_neg (by decide), if_neg (by decide), if_pos rfl] at h
      exact leaf_rendered h hrest hsuffix hscan

/-- The first element of an array's loop, and the text `x` behind it. -/
theorem parseElements_first {t : Tree} (hread : ReadsTree json capacity t)
    {levels array fuel comma : Nat} {s s' : Parser} {x : Bytes} (hwf : t.wellFormed levels = true)
    (h : Runs (parseElements json (parseValue json capacity levels) array fuel) s () s')
    (hs : s.rest = t.render ++ x) (hsuffix : s.rest <:+ json) (hstops : Stops ContinuesNumber x)
    (hx : skipped x = x) (harray : array < s.tokens.length)
    (hcomma : offset json s.rest = comma + 1) :
    x <:+ json ∧ offset json x = comma + 1 + t.render.length ∧
      ((x.head? = some 0x5d ∧ s' = ⟨x.tail,
          (countChild array s.tokens ++ tokensOf (comma + 1) s.tokens.length array t).modify array
            (JsonToken.closed 0 (offset json x.tail))⟩) ∨
        (x.head? ≠ some 0x5d ∧ ∃ fuel,
          Runs (parseElements json (parseValue json capacity levels) array fuel)
            ⟨skipped x.tail,
              countChild array s.tokens ++ tokensOf (comma + 1) s.tokens.length array t⟩ () s')) := by
  obtain ⟨v, rest, hrun, hrest, h⟩ := parseElements_turn h
  obtain rfl := hread hwf hrun hs hsuffix hstops (by omega)
  rw [hcomma] at h
  rw [hs] at hsuffix hcomma
  refine ⟨(List.suffix_append _ _).trans hsuffix, by rw [offset_append _ hsuffix, hcomma], ?_⟩
  simp only at hrest
  rw [hx] at hrest
  subst hrest
  exact h

/-- The loop of `ParseArray` over the text of its elements. -/
theorem parseElements_rendered {t : Tree} {ts : List Tree}
    (hreads : ∀ u ∈ t :: ts, ReadsTree json capacity u) {levels array fuel comma : Nat}
    {s s' : Parser} {r : Bytes} (hwf : Tree.wellFormedElements levels (t :: ts) = true)
    (h : Runs (parseElements json (parseValue json capacity levels) array fuel) s () s')
    (hs : s.rest = t.render ++ (Tree.renderElements ts ++ 0x5d :: r)) (hsuffix : s.rest <:+ json)
    (harray : array < s.tokens.length) (hcomma : offset json s.rest = comma + 1) :
    s' = ⟨r, s.tokens.modify array (JsonToken.closed (ts.length + 1) (offset json r)) ++
      elementTokens comma s.tokens.length array (t :: ts)⟩ := by
  induction ts generalizing t fuel comma s with
  | nil =>
      simp only [Tree.wellFormedElements, Bool.and_eq_true] at hwf
      obtain ⟨-, -, h⟩ := parseElements_first (hreads t (by simp)) hwf.1 h hs hsuffix
        (stops_bracket r) (skipped_punctuation (Many.refl _) (by decide)) harray hcomma
      obtain ⟨-, rfl⟩ | ⟨hclose, -⟩ := h
      · simp only [Tree.renderElements, List.nil_append, List.tail_cons, elementTokens,
          List.append_nil, List.length_nil, Parser.mk.injEq, true_and]
        rw [modify_append_of_lt (by simpa using harray), modify_closed_countChild]
      · exact absurd rfl hclose
  | cons u us ih =>
      simp only [Tree.wellFormedElements, Bool.and_eq_true] at hwf
      obtain ⟨hnext, hoffset, h⟩ := parseElements_first (hreads t (by simp)) hwf.1 h hs hsuffix
        (stops_comma _) (skipped_punctuation (Many.refl _) (by decide)) harray hcomma
      obtain ⟨hclose, -⟩ | ⟨-, fuel, h⟩ := h
      · exact absurd hclose (by simp [Tree.renderElements])
      · have hcons : Tree.renderElements (u :: us) ++ 0x5d :: r =
            [0x2c] ++ (u.render ++ (Tree.renderElements us ++ 0x5d :: r)) := by
          simp [Tree.renderElements]
        rw [hcons] at hnext hoffset h
        have hrest := (List.suffix_append [0x2c] _).trans hnext
        have hoffset' : offset json (u.render ++ (Tree.renderElements us ++ 0x5d :: r)) =
            comma + 1 + t.render.length + 1 := by
          rw [offset_append _ hnext, hoffset]
          rfl
        rw [List.singleton_append, List.tail_cons, skipped_render hwf.2.1] at h
        obtain rfl := ih (fun w hw => hreads w (by simp [hw]))
          (by simp only [Tree.wellFormedElements, Bool.and_eq_true]; exact hwf.2) h rfl hrest
          (by simp; omega) hoffset'
        have hlength : (countChild array s.tokens ++
            tokensOf (comma + 1) s.tokens.length array t).length = s.tokens.length + t.size := by
          rw [List.length_append, length_countChild, length_tokensOf]
        simp only [Parser.mk.injEq, true_and]
        rw [modify_append_of_lt (by simpa using harray), modify_closed_countChild, hlength,
          List.append_assoc, List.length_cons]
        rfl

/-- The first member of an object's loop, and the text `x` behind it. -/
theorem parseMembers_first {k : Bytes} {t : Tree} (hread : ReadsTree json capacity t)
    {levels object fuel comma : Nat} {s s' : Parser} {x : Bytes} (hkey : Tree.isKey k = true)
    (hwf : t.wellFormed levels = true)
    (h : Runs (parseMembers json capacity (parseValue json capacity levels) object fuel) s () s')
    (hs : s.rest = 0x22 :: (k ++ 0x22 :: 0x3a :: (t.render ++ x))) (hsuffix : s.rest <:+ json)
    (hstops : Stops ContinuesNumber x) (hx : skipped x = x) (hobject : object < s.tokens.length)
    (hcomma : offset json s.rest = comma + 1) :
    x <:+ json ∧ offset json x = comma + k.length + 4 + t.render.length ∧
      ((x.head? = some 0x7d ∧ s' = ⟨x.tail,
          (countChild object (countChild object s.tokens) ++
            ⟨.string, comma + 2, comma + 2 + k.length, object, 0⟩ ::
              tokensOf (comma + k.length + 4) (s.tokens.length + 1) object t).modify object
            (JsonToken.closed 0 (offset json x.tail))⟩) ∨
        (x.head? ≠ some 0x7d ∧ ∃ fuel,
          Runs (parseMembers json capacity (parseValue json capacity levels) object fuel)
            ⟨skipped x.tail, countChild object (countChild object s.tokens) ++
              ⟨.string, comma + 2, comma + 2 + k.length, object, 0⟩ ::
                tokensOf (comma + k.length + 4) (s.tokens.length + 1) object t⟩ () s')) := by
  obtain ⟨v, rest, hmember, hrest, h⟩ := parseMembers_turn h
  have hrun := parseMember_rendered hmember hkey hs hsuffix
  rw [hcomma] at hrun
  -- The text behind the colon.
  have hfront : s.rest = (0x22 :: (k ++ [0x22, 0x3a])) ++ (t.render ++ x) := by simp [hs]
  rw [hfront] at hsuffix hcomma
  have hvalue := (List.suffix_append _ _).trans hsuffix
  have hstart : offset json (t.render ++ x) = comma + k.length + 4 := by
    rw [offset_append _ hsuffix, hcomma]
    simp
    omega
  obtain rfl := hread hwf hrun rfl hvalue hstops (by simp; omega)
  have hcount : object < (countChild object s.tokens).length := by simpa using hobject
  simp only [List.length_append, length_countChild, List.length_singleton, hstart,
    countChild_append hcount, List.append_assoc, List.singleton_append] at h
  refine ⟨(List.suffix_append _ _).trans hvalue, by rw [offset_append _ hvalue, hstart], ?_⟩
  simp only at hrest
  rw [hx] at hrest
  subst hrest
  exact h

/-- The loop of `ParseObject` over the text of its members. -/
theorem parseMembers_rendered {k : Bytes} {t : Tree} {ms : List (Bytes × Tree)}
    (hreads : ∀ m ∈ (k, t) :: ms, ReadsTree json capacity m.2) {levels object fuel comma : Nat}
    {s s' : Parser} {r : Bytes} (hwf : Tree.wellFormedMembers levels ((k, t) :: ms) = true)
    (h : Runs (parseMembers json capacity (parseValue json capacity levels) object fuel) s () s')
    (hs : s.rest =
      0x22 :: (k ++ 0x22 :: 0x3a :: (t.render ++ (Tree.renderMembers ms ++ 0x7d :: r))))
    (hsuffix : s.rest <:+ json) (hobject : object < s.tokens.length)
    (hcomma : offset json s.rest = comma + 1) :
    s' = ⟨r, s.tokens.modify object (JsonToken.closed (2 * (ms.length + 1)) (offset json r)) ++
      memberTokens comma s.tokens.length object ((k, t) :: ms)⟩ := by
  induction ms generalizing k t fuel comma s with
  | nil =>
      simp only [Tree.wellFormedMembers, Bool.and_eq_true] at hwf
      obtain ⟨-, -, h⟩ := parseMembers_first (hreads (k, t) (by simp)) hwf.1.1 hwf.1.2 h hs hsuffix
        (stops_brace r) (skipped_punctuation (Many.refl _) (by decide)) hobject hcomma
      obtain ⟨-, rfl⟩ | ⟨hclose, -⟩ := h
      · simp only [Tree.renderMembers, List.nil_append, List.tail_cons, memberTokens,
          List.append_nil, List.length_nil, Parser.mk.injEq, true_and]
        rw [modify_append_of_lt (by simpa using hobject), modify_closed_countChild,
          modify_closed_countChild]
      · exact absurd rfl hclose
  | cons m ms ih =>
      obtain ⟨k', u⟩ := m
      simp only [Tree.wellFormedMembers, Bool.and_eq_true] at hwf
      obtain ⟨hnext, hoffset, h⟩ := parseMembers_first (hreads (k, t) (by simp)) hwf.1.1 hwf.1.2 h
        hs hsuffix (stops_comma _) (skipped_punctuation (Many.refl _) (by decide)) hobject hcomma
      obtain ⟨hclose, -⟩ | ⟨-, fuel, h⟩ := h
      · exact absurd hclose (by simp [Tree.renderMembers])
      · have hcons : Tree.renderMembers ((k', u) :: ms) ++ 0x7d :: r = [0x2c] ++
            0x22 :: (k' ++ 0x22 :: 0x3a :: (u.render ++ (Tree.renderMembers ms ++ 0x7d :: r))) := by
          simp [Tree.renderMembers]
        rw [hcons] at hnext hoffset h
        have hrest := (List.suffix_append [0x2c] _).trans hnext
        have hoffset' := offset_append _ hnext
        rw [hoffset] at hoffset'
        rw [List.singleton_append, List.tail_cons,
          skipped_punctuation (Many.refl _) (by decide)] at h
        obtain rfl := ih (fun w hw => hreads w (by simp [hw]))
          (by simp only [Tree.wellFormedMembers, Bool.and_eq_true]; exact hwf.2) h rfl hrest
          (by simp; omega) hoffset'
        have hlength : s.tokens.length + (t.size + 1) = s.tokens.length + 1 + t.size := by omega
        simp only [Parser.mk.injEq, true_and]
        rw [modify_append_of_lt (by simpa using hobject), modify_closed_countChild,
          modify_closed_countChild]
        simp only [List.length_append, length_countChild, length_tokensOf, List.length_cons,
          memberTokens, List.append_assoc, List.cons_append, hlength]
        rfl

theorem readsTree_array {elements : List Tree}
    (hreads : ∀ t ∈ elements, ReadsTree json capacity t) :
    ReadsTree json capacity (.array elements) := by
  intro levels parent s s' r hwf h hs hsuffix hstops hparent
  obtain ⟨levels, rfl⟩ := exists_levels h
  have hskip := skipped_render hwf r
  have hrest : s.rest = 0x5b :: ((Tree.renderElements elements).tail ++ 0x5d :: r) := by
    simp [hs, Tree.render]
  rw [← hs] at hskip
  rw [runs_parseValue hrest hskip, if_neg (by decide), if_pos rfl] at h
  have hstop : offset json r = offset json s.rest + (Tree.render (.array elements)).length := by
    rw [hs] at hsuffix ⊢
    exact offset_append _ hsuffix
  simp only [Tree.wellFormed, Bool.and_eq_true] at hwf
  cases elements with
  | nil =>
      obtain ⟨-, rfl⟩ | ⟨hne, -⟩ := open_rendered h hrest hsuffix
        (skipped_punctuation (Many.refl _) (by decide)) (fun hne => absurd rfl hne)
      · rfl
      · exact absurd rfl hne
  | cons t ts =>
      have helements := hwf.2
      simp only [Tree.wellFormedElements, Bool.and_eq_true] at helements
      have hbody : (Tree.renderElements (t :: ts)).tail ++ 0x5d :: r =
          t.render ++ (Tree.renderElements ts ++ 0x5d :: r) := by
        simp [Tree.renderElements]
      obtain ⟨c, u, htext, -, hc⟩ := render_ink helements.1
      have hhead : (Tree.renderElements (t :: ts)).tail.head? = some c := by
        simp [Tree.renderElements, htext]
      obtain ⟨hempty, -⟩ | ⟨-, fuel, h⟩ := open_rendered h hrest hsuffix
        (by rw [hbody]; exact skipped_render helements.1 _)
        (fun _ => by rw [hhead]; simpa using hc)
      · rw [hempty] at hhead
        cases hhead
      · have hinside : (Tree.renderElements (t :: ts)).tail ++ 0x5d :: r <:+ json := by
          rw [hrest] at hsuffix
          exact (List.suffix_cons _ _).trans hsuffix
        have hcomma : offset json ((Tree.renderElements (t :: ts)).tail ++ 0x5d :: r) =
            offset json s.rest + 1 := by
          rw [hrest] at hsuffix ⊢
          exact offset_append [0x5b] hsuffix
        obtain rfl := parseElements_rendered hreads hwf.2 h hbody hinside (by simp) hcomma
        apply container_closed hstop
        simp only [tokensOf, List.length_append, length_countChild, List.length_cons,
          List.length_nil]

theorem readsTree_object {members : List (Bytes × Tree)}
    (hreads : ∀ m ∈ members, ReadsTree json capacity m.2) :
    ReadsTree json capacity (.object members) := by
  intro levels parent s s' r hwf h hs hsuffix hstops hparent
  obtain ⟨levels, rfl⟩ := exists_levels h
  have hskip := skipped_render hwf r
  have hrest : s.rest = 0x7b :: ((Tree.renderMembers members).tail ++ 0x7d :: r) := by
    simp [hs, Tree.render]
  rw [← hs] at hskip
  rw [runs_parseValue hrest hskip, if_pos rfl] at h
  have hstop : offset json r = offset json s.rest + (Tree.render (.object members)).length := by
    rw [hs] at hsuffix ⊢
    exact offset_append _ hsuffix
  simp only [Tree.wellFormed, Bool.and_eq_true] at hwf
  cases members with
  | nil =>
      obtain ⟨-, rfl⟩ | ⟨hne, -⟩ := open_rendered h hrest hsuffix
        (skipped_punctuation (Many.refl _) (by decide)) (fun hne => absurd rfl hne)
      · rfl
      · exact absurd rfl hne
  | cons m ms =>
      obtain ⟨k, t⟩ := m
      have hquote : ∀ x : Bytes, (Tree.renderMembers ((k, t) :: ms)).tail ++ x =
          0x22 :: (k ++ 0x22 :: 0x3a :: (t.render ++ (Tree.renderMembers ms ++ x))) := by
        intro x
        simp [Tree.renderMembers]
      obtain ⟨hempty, -⟩ | ⟨-, fuel, h⟩ := open_rendered h hrest hsuffix
        (by rw [hquote]; exact skipped_punctuation (Many.refl _) (by decide))
        (fun _ => by simp [Tree.renderMembers])
      · simp [Tree.renderMembers] at hempty
      · have hinside : (Tree.renderMembers ((k, t) :: ms)).tail ++ 0x7d :: r <:+ json := by
          rw [hrest] at hsuffix
          exact (List.suffix_cons _ _).trans hsuffix
        have hcomma : offset json ((Tree.renderMembers ((k, t) :: ms)).tail ++ 0x7d :: r) =
            offset json s.rest + 1 := by
          rw [hrest] at hsuffix ⊢
          exact offset_append [0x7b] hsuffix
        obtain rfl := parseMembers_rendered hreads hwf.1.2 h (hquote _) hinside (by simp) hcomma
        apply container_closed hstop
        simp only [tokensOf, List.length_append, length_countChild, List.length_cons,
          List.length_nil]

theorem parseValue_rendered : ∀ t : Tree, ReadsTree json capacity t
  | .string raw => readsTree_string raw
  | .number raw => readsTree_number raw
  | .bool value => readsTree_bool value
  | .array elements => readsTree_array fun t ht =>
      have hlt : sizeOf t < sizeOf (Tree.array elements) :=
        Nat.lt_of_lt_of_le (List.sizeOf_lt_of_mem ht) (by simp)
      parseValue_rendered t
  | .object members => readsTree_object fun m hm =>
      have hlt : sizeOf m.2 < sizeOf (Tree.object members) := by
        have hmember := List.sizeOf_lt_of_mem hm
        have hpair : sizeOf m = 1 + sizeOf m.1 + sizeOf m.2 := by cases m; rfl
        simp only [Tree.object.sizeOf_spec]
        omega
      parseValue_rendered m.2
termination_by t => sizeOf t
decreasing_by all_goals assumption

end Reading

/-- `ParseJson` reads a rendered tree, with room for its tokens. -/
theorem parseJson_rendered {t : Tree} {capacity maxDepth : Nat}
    (hwf : t.wellFormed maxDepth = true) (hcapacity : t.size ≤ capacity)
    (hsize : (t.render ++ [0x0a]).length ≤ kMaximumJsonBytes) :
    (parseJson (some (t.render ++ [0x0a])) capacity maxDepth).1.error = none ∧
      (parseJson (some (t.render ++ [0x0a])) capacity maxDepth).2 = tokensOf 0 0 (-1) t := by
  have hok : (parseJson (some (t.render ++ [0x0a])) capacity maxDepth).1.error = none :=
    (parseJson_ok_iff hsize).mpr ⟨_, hcapacity, Tree.render_text hwf⟩
  refine ⟨hok, ?_⟩
  unfold parseJson at hok ⊢
  dsimp only at hok ⊢
  split
  · rw [if_pos ‹_›] at hok
    cases hok
  · rw [if_neg ‹_›] at hok
    split
    · rw [if_pos ‹_›] at hok
      cases hok
    · rw [if_neg ‹_›] at hok
      split
      · next s hrun =>
          have hruns : Runs (parseText (t.render ++ [0x0a]) capacity maxDepth)
              { rest := t.render ++ [0x0a], tokens := [] } () s := hrun
          unfold parseText at hruns
          simp only [runs_bind, runs_skipWhitespace, runs_get, runs_ite, runs_pure] at hruns
          obtain ⟨_, _, rfl, _, v, hvalue, _, _, rfl, _, _, ⟨rfl, rfl⟩, hend⟩ := hruns
          have hstops : Stops ContinuesNumber [0x0a] :=
            stops_cons.mpr (by unfold ContinuesNumber IsDigit; decide)
          rw [show List.dropWhile _ _ = _ from skipped_render hwf [0x0a]] at hvalue
          obtain rfl := parseValue_rendered t hwf hvalue rfl (List.suffix_refl _) hstops
            (by simp)
          split at hend
          · exact absurd hend not_runs_fail
          · obtain ⟨-, rfl⟩ := hend
            have hstart : offset (t.render ++ [0x0a]) (t.render ++ [0x0a]) = 0 := by
              unfold offset
              omega
            show countChild (-1) [] ++ tokensOf _ _ _ t = _
            rw [hstart]
            rfl
      · next hrun =>
          rw [hrun] at hok
          cases hok

end Json

end BmxUpdate
