import BmxUpdate.Json.Soundness

/-!
# The JSON parser accepts what is JSON

The other direction: where a value of the grammar stands, in a table with room
for its tokens, `parseValue` succeeds and stops at its end.  Numbers need to know
that nothing they could go on with follows (`Stops ContinuesNumber`), which the comma,
bracket, space or end after a value gives.  The tokens of a value inside an
object are known from `parseValue_reads`.
-/

namespace BmxUpdate

namespace Json

open Wire JsonGrammar

/-! ## What follows a value -/

theorem not_continues_of_isSpace {c : UInt8} (h : IsSpace c) : ¬ ContinuesNumber c := by
  rcases h with rfl | rfl | rfl | rfl <;> unfold ContinuesNumber IsDigit <;> decide

/-- Spaces before something that no number goes on with. -/
theorem stops_of_ws {t r : Bytes} (h : Ws t r) (hr : Stops ContinuesNumber r) : Stops ContinuesNumber t := by
  obtain ⟨s, hs, rfl⟩ := h
  cases s with
  | nil => exact hr
  | cons c s => exact stops_cons.mpr (not_continues_of_isSpace (hs c (by simp)))

theorem stops_comma (t : Bytes) : Stops ContinuesNumber (0x2c :: t) :=
  stops_cons.mpr (by unfold ContinuesNumber IsDigit; decide)

theorem stops_bracket (t : Bytes) : Stops ContinuesNumber (0x5d :: t) :=
  stops_cons.mpr (by unfold ContinuesNumber IsDigit; decide)

theorem stops_brace (t : Bytes) : Stops ContinuesNumber (0x7d :: t) :=
  stops_cons.mpr (by unfold ContinuesNumber IsDigit; decide)

/-- Productions that start with a byte that is no space and no closing bracket. -/
def StartsInk (R : Production) : Prop :=
  ∀ ⦃t r⦄, R t r → ∃ c u, t = c :: u ∧ ¬ IsSpace c ∧ c ≠ 0x5d

theorem skipped_eq {R : Production} (hR : StartsInk R) {t u r : Bytes} (hws : Ws t u)
    (h : R u r) : skipped t = u := by
  obtain ⟨c, v, rfl, hc, -⟩ := hR h
  exact hws.dropWhile_eq (stops_cons.mpr hc)

theorem skipped_punctuation {t r : Bytes} {c : UInt8} (hws : Ws t (c :: r)) (hc : ¬ IsSpace c) :
    skipped t = c :: r :=
  hws.dropWhile_eq (stops_cons.mpr hc)

theorem skipped_skipped (t : Bytes) : skipped (skipped t) = skipped t :=
  (Many.refl _).dropWhile_eq (stops_dropWhile t)

theorem startsInk_key (k : Bytes) : StartsInk (Key k) := by
  rintro _ r ⟨-⟩
  exact ⟨0x22, _, rfl, by decide, by decide⟩

theorem startsInk_layer {E : UInt8 → Prop} {V : Nat → Production} (n : Nat) :
    StartsInk (Layer E V n) := by
  intro t r h
  cases h with
  | true h => exact ⟨0x74, _, h, by decide, by decide⟩
  | false h => exact ⟨0x66, _, h, by decide, by decide⟩
  | null h => exact ⟨0x6e, _, h, by decide, by decide⟩
  | number h =>
      obtain ⟨c, u, rfl, hc⟩ := number_head h
      refine ⟨c, u, rfl, ?_, ?_⟩
      · rintro (rfl | rfl | rfl | rfl) <;> revert hc <;> unfold IsDigit <;> decide
      · rintro rfl
        revert hc
        unfold IsDigit
        decide
  | string h =>
      obtain ⟨-⟩ := h
      exact ⟨0x22, _, rfl, by decide, by decide⟩
  | emptyArray _ => exact ⟨0x5b, _, rfl, by decide, by decide⟩
  | array _ => exact ⟨0x5b, _, rfl, by decide, by decide⟩
  | emptyObject _ => exact ⟨0x7b, _, rfl, by decide, by decide⟩
  | object _ _ => exact ⟨0x7b, _, rfl, by decide, by decide⟩

theorem startsInk_value {E : UInt8 → Prop} (levels n : Nat) : StartsInk (Value E levels n) := by
  cases levels with
  | zero => exact nofun
  | succ levels => exact startsInk_layer n

theorem padded_skipped {V : Nat → Production} (hV : ∀ n, StartsInk (V n)) {n : Nat}
    {t r : Bytes} (h : Padded V n t r) : Padded V n (skipped t) r := by
  obtain ⟨u, hws, v, hv, hr⟩ := h
  rw [skipped_eq (hV n) hws hv]
  exact ⟨u, Many.refl u, v, hv, hr⟩

theorem member_skipped {V : Nat → Production} {k : Bytes} {n : Nat} {t r : Bytes}
    (h : Member V k n t r) : Member V k n (skipped t) r := by
  obtain ⟨hws, hkey, hcolon, hvalue⟩ := h
  rw [skipped_eq (startsInk_key k) hws hkey]
  exact ⟨Many.refl _, hkey, hcolon, hvalue⟩

/-- Keys contain no quote, so the text says which key a member has. -/
theorem member_key_unique {V : Nat → Production} {k k' : Bytes} {n n' : Nat} {t r r' : Bytes}
    (h : Member V k n t r) (h' : Member V k' n' t r') : k = k' := by
  have hquotes : ∀ {k v : Bytes}, (∀ c ∈ k, KeyByte c) →
      (k ++ 0x22 :: v).takeWhile (fun c => decide (c ≠ 0x22)) = k := by
    intro k v hk
    rw [List.takeWhile_append_of_pos]
    · simp
    · intro c hc
      simpa using (hk c hc).2.2.1
  obtain ⟨hws, hkey, -, -⟩ := h
  obtain ⟨hws', hkey', -, -⟩ := h'
  have hu := (skipped_eq (startsInk_key k) hws hkey).symm.trans
    (skipped_eq (startsInk_key k') hws' hkey')
  obtain ⟨hk⟩ := hkey
  obtain ⟨hk'⟩ := hkey'
  rw [← hquotes hk, (List.cons.inj hu).2, hquotes hk']

section Accepting

variable {json : Bytes} {capacity : Nat}

/-- The value parser succeeds wherever a value stands and there is room for its tokens. -/
def AcceptsValues (json : Bytes) (capacity : Nat) (V : Nat → Production)
    (value : Int → Parse Unit) : Prop :=
  ∀ ⦃n : Nat⦄ (parent : Int) ⦃s : Parser⦄ ⦃r : Bytes⦄, V n (skipped s.rest) r →
    Stops ContinuesNumber r → s.rest <:+ json → s.tokens.length + n ≤ capacity →
    ∃ s', Runs (value parent) s () s' ∧ s'.rest = r ∧ s'.tokens.length = s.tokens.length + n

/-- The parser after the opening bracket of a container and the spaces behind it. -/
def afterOpening (json : Bytes) (type : JsonTokenType) (parent : Int) (s : Parser) : Parser :=
  { rest := skipped s.rest.tail,
    tokens := countChild parent s.tokens ++ [opened type (offset json s.rest) parent] }

/-- The parser after the closing bracket of a container. -/
def afterClosing (json : Bytes) (container : Nat) (s : Parser) : Parser :=
  { rest := s.rest.tail,
    tokens := s.tokens.modify container fun t => { t with stop := offset json s.rest.tail } }

/-- A container that is empty, or whose loop runs. -/
theorem runs_open_intro (type : JsonTokenType) (parent : Int) (close : UInt8) {s s' : Parser}
    {loop : Nat → Nat → Parse Unit} (hroom : s.tokens.length < capacity)
    (h : (∃ r, skipped s.rest.tail = close :: r ∧
          s' = afterClosing json s.tokens.length (afterOpening json type parent s)) ∨
        ((skipped s.rest.tail).head? ≠ some close ∧
          Runs (loop s.tokens.length (skipped s.rest.tail).length)
            (afterOpening json type parent s) () s')) :
    Runs (do
        let start := offset json (← get).rest
        advance
        let container ← addToken json capacity type start parent
        skipWhitespace
        if (← get).rest.head? = some close then do
          advance
          closeToken json container
        else loop container (← get).rest.length) s () s' := by
  simp only [runs_bind, runs_get, runs_advance, runs_addToken, runs_skipWhitespace, runs_ite,
    runs_closeToken]
  refine ⟨s, s, ⟨rfl, rfl⟩, (), _, rfl, _, _, ⟨hroom, rfl, rfl⟩, (), _, rfl, _, _, ⟨rfl, rfl⟩, ?_⟩
  rcases h with ⟨r, hclose, rfl⟩ | ⟨hclose, hloop⟩
  · rw [if_pos (by show (skipped s.rest.tail).head? = _; rw [hclose]; rfl)]
    exact ⟨(), _, rfl, rfl⟩
  · rw [if_neg hclose]
    exact ⟨_, _, ⟨rfl, rfl⟩, hloop⟩

section Containers

variable {V : Nat → Production} {value : Int → Parse Unit} (hink : ∀ n, StartsInk (V n))
  (hvalue : AcceptsValues json capacity V value)
include hink hvalue

/-- A value and the spaces around it. -/
theorem accepts_padded {n : Nat} (parent : Int) {s : Parser} {c : UInt8} {r : Bytes}
    (h : Padded V n s.rest (c :: r)) (hc : ¬ IsSpace c) (hstops : Stops ContinuesNumber (c :: r))
    (hsuffix : s.rest <:+ json) (hfits : s.tokens.length + n ≤ capacity) :
    ∃ s' s'', Runs (value parent) s () s' ∧ Runs skipWhitespace s' () s'' ∧
      s''.rest = c :: r ∧ s''.tokens.length = s.tokens.length + n ∧ s.rest ≠ [] := by
  obtain ⟨u, hws, v, hv, hws'⟩ := h
  have hskip := skipped_eq (hink n) hws hv
  obtain ⟨s', hrun, hrest, hlength⟩ :=
    hvalue parent (hskip ▸ hv) (stops_of_ws hws' hstops) hsuffix hfits
  refine ⟨s', _, hrun, runs_skipWhitespace.mpr rfl, ?_, hlength, ?_⟩
  · show skipped s'.rest = c :: r
    rw [hrest]
    exact skipped_punctuation hws' hc
  · intro hnil
    obtain ⟨d, w, hd, -⟩ := hink n hv
    have hempty : skipped s.rest = [] := by rw [hnil]; rfl
    rw [hskip, hd] at hempty
    cases hempty

theorem parseElements_accepts (hV : ∀ n, ReadsOnly (fun _ => True) (V n)) (array fuel : Nat)
    {n : Nat} {s : Parser} {t r : Bytes} (h : Elements V n t (0x5d :: r))
    (ht : s.rest = skipped t) (hfuel : s.rest.length ≤ fuel)
    (hsuffix : s.rest <:+ json) (hfits : s.tokens.length + n ≤ capacity) :
    ∃ s', Runs (parseElements json value array fuel) s () s' ∧ s'.rest = r ∧
      s'.tokens.length = s.tokens.length + n := by
  generalize hend : (0x5d :: r : Bytes) = x at h
  induction h generalizing s fuel with
  | last h =>
      subst hend
      have h := padded_skipped hink h
      rw [← ht] at h
      obtain ⟨s₁, s₂, hrun, hskip, hrest, hlength, hne⟩ := accepts_padded hink hvalue array h
        (by decide) (stops_bracket r) hsuffix hfits
      obtain ⟨fuel, rfl⟩ : ∃ m, fuel = m + 1 := by
        have := List.length_pos_iff.mpr hne
        exact ⟨fuel - 1, by omega⟩
      refine ⟨{ rest := s₂.rest.tail,
                tokens := s₂.tokens.modify array fun t =>
                  { t with stop := offset json s₂.rest.tail } }, ?_, by rw [hrest]; rfl,
        by simpa using hlength⟩
      unfold parseElements
      simp only [runs_bind, runs_get, runs_ite]
      refine ⟨s, s, ⟨rfl, rfl⟩, ?_⟩
      rw [if_neg hne]
      refine ⟨(), s₁, hrun, (), s₂, hskip, s₂, s₂, ⟨rfl, rfl⟩, ?_⟩
      rw [if_pos (by rw [hrest]; rfl)]
      exact ⟨(), _, runs_advance.mpr rfl, runs_closeToken.mpr rfl⟩
  | @more n m t u x h helements ih =>
      have h := padded_skipped hink h
      rw [← ht] at h
      obtain ⟨s₁, s₂, hrun, hskip, hrest, hlength, hne⟩ := accepts_padded hink hvalue array h
        (by decide) (stops_comma u) hsuffix (by omega)
      obtain ⟨fuel, rfl⟩ : ∃ m, fuel = m + 1 := by
        have := List.length_pos_iff.mpr hne
        exact ⟨fuel - 1, by omega⟩
      have hcomma := (readsOnly_padded (fun _ _ => trivial) hV n h).suffix
      have hu : u <:+ json := (List.suffix_cons _ _).trans (hcomma.trans hsuffix)
      have hshort := hcomma.length_le
      have hshort' := (ws_skipped u).suffix.length_le
      simp only [List.length_cons] at hshort
      obtain ⟨s', hloop, hrest', hlength'⟩ := ih fuel
        (s := { rest := skipped u, tokens := s₂.tokens }) rfl (by show (skipped u).length ≤ fuel; omega)
        ((ws_skipped u).suffix.trans hu) (by show s₂.tokens.length + m ≤ capacity; omega) hend
      refine ⟨s', ?_, hrest', by rw [hlength']; show s₂.tokens.length + m = _; omega⟩
      unfold parseElements
      simp only [runs_bind, runs_get, runs_ite]
      refine ⟨s, s, ⟨rfl, rfl⟩, ?_⟩
      rw [if_neg hne]
      refine ⟨(), s₁, hrun, (), s₂, hskip, s₂, s₂, ⟨rfl, rfl⟩, ?_⟩
      rw [if_neg (by rw [hrest]; simp)]
      refine ⟨s₂, s₂, ⟨rfl, rfl⟩, ?_⟩
      rw [if_neg (by rw [hrest]; simp)]
      refine ⟨(), _, runs_advance.mpr rfl, (), _, runs_skipWhitespace.mpr rfl, ?_⟩
      rw [hrest]
      exact hloop

theorem parseArray_accepts (hV : ∀ n, ReadsOnly (fun _ => True) (V n)) {n : Nat} (parent : Int)
    {s : Parser} {t r : Bytes} (ht : s.rest = 0x5b :: t) (h : Elements V n t (0x5d :: r))
    (hsuffix : s.rest <:+ json) (hfits : s.tokens.length + (n + 1) ≤ capacity) :
    ∃ s', Runs (parseArray json capacity value parent) s () s' ∧ s'.rest = r ∧
      s'.tokens.length = s.tokens.length + (n + 1) := by
  have htail : s.rest.tail = t := by rw [ht]; rfl
  have hrest : skipped t <:+ json :=
    (ws_skipped t).suffix.trans ((List.suffix_cons 0x5b t).trans (ht ▸ hsuffix))
  have hlength : (afterOpening json .array parent s).tokens.length = s.tokens.length + 1 := by
    simp [afterOpening]
  obtain ⟨s', hloop, hr, hlength'⟩ := parseElements_accepts hink hvalue hV s.tokens.length
    (skipped t).length (s := afterOpening json .array parent s) h
    (by show skipped s.rest.tail = _; rw [htail])
    (by show (skipped s.rest.tail).length ≤ _; rw [htail])
    (by show skipped s.rest.tail <:+ _; rw [htail]; exact hrest) (by omega)
  refine ⟨s', runs_open_intro .array parent 0x5d (by omega) (.inr ⟨?_, ?_⟩), hr, by omega⟩
  · -- A value does not start with the closing bracket.
    rw [htail]
    obtain ⟨u, x, ⟨v, hws, w, hv, -⟩⟩ : ∃ m x, Padded V m t x := by
      cases h with
      | last h => exact ⟨_, _, h⟩
      | more h _ => exact ⟨_, _, h⟩
    rw [skipped_eq (hink u) hws hv]
    obtain ⟨c, y, rfl, -, hc⟩ := hink u hv
    simpa using hc
  · rw [htail]
    exact hloop

/-- One member of an object that does not have its key yet. -/
theorem parseMember_accepts {parent : Int} {front inside : List JsonToken} {keys : List Bytes}
    {k : Bytes} {n : Nat} {s : Parser} {c : UInt8} {r : Bytes}
    (h : Member V k n s.rest (c :: r)) (hc : ¬ IsSpace c) (hstops : Stops ContinuesNumber (c :: r))
    (hsuffix : s.rest <:+ json) (hfits : s.tokens.length + n ≤ capacity)
    (hhead : skipped s.rest = s.rest) (hinside : Inside parent front inside s.tokens)
    (hkeyed : Keyed json front.length inside keys) (hfresh : k ∉ keys) :
    ∃ s' s'', Runs (parseMember json capacity value front.length) s () s' ∧
      Runs skipWhitespace s' () s'' ∧ s''.rest = c :: r ∧
      s''.tokens.length = s.tokens.length + n := by
  cases h with
  | @mk m _ u v w _ hws hkey hcolon hpadded =>
      have hu : s.rest = u := hhead.symm.trans (skipped_eq (startsInk_key k) hws hkey)
      obtain ⟨hk⟩ := hkey
      have htail : s.rest.tail = k ++ 0x22 :: v := by rw [hu]; rfl
      have hsuffix' : (k ++ 0x22 :: v) <:+ json := by
        rw [← htail]
        exact (List.tail_suffix _).trans hsuffix
      have hv : v <:+ json := (List.suffix_cons _ _).trans ((List.suffix_append k _).trans hsuffix')
      have hw : w <:+ json := (List.suffix_cons 0x3a w).trans (hcolon.suffix.trans hv)
      have hskip : skipped v = 0x3a :: w := skipped_punctuation hcolon (by decide)
      have hscan : scanString true (k ++ 0x22 :: v) (k ++ 0x22 :: v).length false
          (k ++ 0x22 :: v) = .ok (0x22 :: v) := scanString_key_complete hk (by simp)
      -- The parser after the key, and the value from there.
      obtain ⟨tokens, htokens⟩ : ∃ tokens, tokens = (countChild front.length s.tokens ++
          [opened .string (offset json (k ++ 0x22 :: v)) front.length]).modify s.tokens.length
            fun t => { t with stop := offset json (0x22 :: v) } := ⟨_, rfl⟩
      have hcount : tokens.length = s.tokens.length + 1 := by simp [htokens]
      have hnodup : ¬ hasDuplicateObjectKey json tokens front.length s.tokens.length = true := by
        rw [htokens, hkeyed.duplicate_key_iff hinside hsuffix']
        exact hfresh
      obtain ⟨s', s'', hrun, hskip', hrest, hlength, -⟩ := accepts_padded hink hvalue front.length
        (s := { rest := w, tokens }) hpadded hc hstops hw (by show tokens.length + m ≤ _; omega)
      refine ⟨s', s'', ?_, hskip', hrest, by
        rw [hlength]; show tokens.length + m = _; omega⟩
      unfold parseMember
      simp only [runs_bind, runs_get, runs_ite, runs_parseString, runs_skipWhitespace,
        runs_advance]
      refine ⟨s, s, ⟨rfl, rfl⟩, ?_⟩
      rw [if_neg (by rw [hu]; simp)]
      refine ⟨_, _, ⟨0x22 :: v, by rw [htail]; exact hscan, by omega, rfl, rfl⟩, _, _, ⟨rfl, rfl⟩, ?_⟩
      rw [htail, ← htokens]
      rw [if_neg hnodup]
      refine ⟨(), _, rfl, _, _, ⟨rfl, rfl⟩, ?_⟩
      rw [if_neg (by show ¬ (skipped v).head? ≠ _; rw [hskip]; simp)]
      refine ⟨(), _, rfl, ?_⟩
      show Runs _ { rest := (skipped v).tail, tokens } () s'
      rw [hskip]
      exact hrun

theorem parseMembers_accepts (hV : ∀ n, ReadsOnly (fun _ => True) (V n))
    (hreads : ReadsValues json capacity V value) {parent : Int} {front inside : List JsonToken}
    {keys ks : List Bytes} (fuel : Nat) {n : Nat} {s : Parser} {t r : Bytes}
    (h : Members V ks n t (0x7d :: r)) (ht : s.rest = skipped t) (hfuel : s.rest.length ≤ fuel)
    (hsuffix : s.rest <:+ json) (hfits : s.tokens.length + n ≤ capacity)
    (hinside : Inside parent front inside s.tokens) (hkeyed : Keyed json front.length inside keys)
    (hnodup : (keys ++ ks).Nodup) :
    ∃ s', Runs (parseMembers json capacity value front.length fuel) s () s' ∧ s'.rest = r ∧
      s'.tokens.length = s.tokens.length + n := by
  generalize hend : (0x7d :: r : Bytes) = x at h
  induction h generalizing s fuel inside keys with
  | @last k n t x h =>
      subst hend
      have h := member_skipped h
      rw [← ht] at h
      have hfresh : k ∉ keys := by
        intro hmem
        exact (List.nodup_append.mp hnodup).2.2 k hmem k (by simp) rfl
      obtain ⟨s₁, s₂, hrun, hskip, hrest, hlength⟩ := parseMember_accepts hink hvalue h (by decide)
        (stops_brace r) hsuffix hfits (by rw [ht]; exact skipped_skipped t) hinside hkeyed hfresh
      obtain ⟨fuel, rfl⟩ : ∃ m, fuel = m + 1 := by
        have hne : s.rest ≠ [] := by
          obtain ⟨hws, hkey, -, -⟩ := h
          intro hnil
          have := hws.suffix
          rw [hnil, List.suffix_nil] at this
          obtain ⟨c, u, hc, -⟩ := startsInk_key k hkey
          rw [this] at hc
          cases hc
        have := List.length_pos_iff.mpr hne
        exact ⟨fuel - 1, by omega⟩
      refine ⟨afterClosing json front.length s₂, ?_, by
        show s₂.rest.tail = r; rw [hrest]; rfl, by simpa [afterClosing] using hlength⟩
      unfold parseMembers
      simp only [runs_bind, runs_get, runs_ite]
      refine ⟨(), s₁, hrun, (), s₂, hskip, s₂, s₂, ⟨rfl, rfl⟩, ?_⟩
      rw [if_pos (by rw [hrest]; rfl)]
      exact ⟨(), _, runs_advance.mpr rfl, runs_closeToken.mpr rfl⟩
  | @more k ks n m t u x h hmembers ih =>
      have h := member_skipped h
      rw [← ht] at h
      have hfresh : k ∉ keys := by
        intro hmem
        exact (List.nodup_append.mp hnodup).2.2 k hmem k (by simp) rfl
      obtain ⟨s₁, s₂, hrun, hskip, hrest, hlength⟩ := parseMember_accepts hink hvalue h (by decide)
        (stops_comma u) hsuffix (by omega) (by rw [ht]; exact skipped_skipped t) hinside hkeyed hfresh
      -- What the run left inside the object.
      obtain ⟨k', n', inside', hmember, hinside', -, hkeyed', -, -, hrest'⟩ :=
        parseMember_reads hV hreads hrun hskip hsuffix hinside hkeyed
      obtain rfl := member_key_unique h hmember
      have hcomma := (readsOnly_member (fun _ _ => trivial) hV k n h).suffix
      have hshort := hcomma.length_le
      have hshort' := (ws_skipped u).suffix.length_le
      simp only [List.length_cons] at hshort
      obtain ⟨fuel, rfl⟩ : ∃ m, fuel = m + 1 := ⟨fuel - 1, by omega⟩
      have hu : u <:+ json := (List.suffix_cons _ _).trans (hcomma.trans hsuffix)
      obtain ⟨s', hloop, hr, hlength'⟩ := ih fuel
        (s := { rest := skipped u, tokens := s₂.tokens }) rfl (by show (skipped u).length ≤ fuel; omega)
        ((ws_skipped u).suffix.trans hu) (by show s₂.tokens.length + m ≤ capacity; omega)
        hinside' hkeyed' (by simpa using hnodup) hend
      refine ⟨s', ?_, hr, by rw [hlength']; show s₂.tokens.length + m = _; omega⟩
      unfold parseMembers
      simp only [runs_bind, runs_get, runs_ite]
      refine ⟨(), s₁, hrun, (), s₂, hskip, s₂, s₂, ⟨rfl, rfl⟩, ?_⟩
      rw [if_neg (by rw [hrest]; simp)]
      refine ⟨s₂, s₂, ⟨rfl, rfl⟩, ?_⟩
      rw [if_neg (by rw [hrest]; simp)]
      refine ⟨(), _, runs_advance.mpr rfl, (), _, runs_skipWhitespace.mpr rfl, ?_⟩
      rw [hrest]
      exact hloop

theorem parseObject_accepts (hV : ∀ n, ReadsOnly (fun _ => True) (V n))
    (hreads : ReadsValues json capacity V value) {ks : List Bytes} {n : Nat} (parent : Int)
    {s : Parser} {t r : Bytes} (ht : s.rest = 0x7b :: t) (h : Members V ks n t (0x7d :: r))
    (hnodup : ks.Nodup) (hsuffix : s.rest <:+ json)
    (hfits : s.tokens.length + (n + 1) ≤ capacity) :
    ∃ s', Runs (parseObject json capacity value parent) s () s' ∧ s'.rest = r ∧
      s'.tokens.length = s.tokens.length + (n + 1) := by
  have htail : s.rest.tail = t := by rw [ht]; rfl
  have hrest : skipped t <:+ json :=
    (ws_skipped t).suffix.trans ((List.suffix_cons 0x7b t).trans (ht ▸ hsuffix))
  have hlength : (afterOpening json .object parent s).tokens.length = s.tokens.length + 1 := by
    simp [afterOpening]
  have hinside : Inside parent (bare s.tokens) [] (afterOpening json .object parent s).tokens :=
    Inside.opened .object (offset json s.rest) parent s.tokens
  obtain ⟨s', hloop, hr, hlength'⟩ := parseMembers_accepts hink hvalue hV hreads
    (skipped t).length (s := afterOpening json .object parent s) h
    (by show skipped s.rest.tail = _; rw [htail])
    (by show (skipped s.rest.tail).length ≤ _; rw [htail])
    (by show skipped s.rest.tail <:+ _; rw [htail]; exact hrest) (by omega) hinside
    (Keyed.nil json _) (by simpa using hnodup)
  refine ⟨s', runs_open_intro .object parent 0x7d (by omega) (.inr ⟨?_, ?_⟩), hr, by omega⟩
  · -- A member starts with the quote of its key.
    rw [htail]
    obtain ⟨k, m, x, ⟨hws, hkey, -, -⟩⟩ : ∃ k m x, Member V k m t x := by
      cases h with
      | last h => exact ⟨_, _, _, h⟩
      | more h _ => exact ⟨_, _, _, h⟩
    rw [skipped_eq (startsInk_key k) hws hkey]
    obtain ⟨-⟩ := hkey
    simp
  · rw [htail]
    rw [length_bare] at hloop
    exact hloop

end Containers

/-! ## Values -/

variable (json) in
/-- An empty container. -/
theorem runs_empty (type : JsonTokenType) (parent : Int) (close : UInt8)
    (loop : Nat → Nat → Parse Unit) {s : Parser} {t r : Bytes} (ht : s.rest.tail = t) (hws : Ws t (close :: r))
    (hclose : ¬ IsSpace close) (hroom : s.tokens.length + 1 ≤ capacity) :
    ∃ s', Runs (do
        let start := offset json (← get).rest
        advance
        let container ← addToken json capacity type start parent
        skipWhitespace
        if (← get).rest.head? = some close then do
          advance
          closeToken json container
        else loop container (← get).rest.length) s () s' ∧ s'.rest = r ∧
      s'.tokens.length = s.tokens.length + 1 := by
  have hskip : skipped s.rest.tail = close :: r := by
    rw [ht]
    exact skipped_punctuation hws hclose
  refine ⟨_, runs_open_intro type parent close (by omega) (.inl ⟨r, hskip, rfl⟩), ?_, ?_⟩
  · show (skipped s.rest.tail).tail = r
    rw [hskip]
    rfl
  · simp [afterClosing, afterOpening]

variable (json) in
theorem parseLiteral_accepts (literal : Bytes) (type : JsonTokenType) (parent : Int)
    {s : Parser} {r : Bytes} (h : Literal literal s.rest r)
    (hroom : s.tokens.length + 1 ≤ capacity) :
    ∃ s', Runs (parseLiteral json capacity parent literal type) s () s' ∧ s'.rest = r ∧
      s'.tokens.length = s.tokens.length + 1 :=
  ⟨_, runs_leaf.mpr ⟨r, scanLiteral_eq_ok.mpr h, by omega, rfl⟩, rfl, by simp⟩

variable (json) in
theorem parseNumber_accepts (parent : Int) {s : Parser} {r : Bytes} (h : Number s.rest r)
    (hr : Stops ContinuesNumber r) (hroom : s.tokens.length + 1 ≤ capacity) :
    ∃ s', Runs (parseNumber json capacity parent) s () s' ∧ s'.rest = r ∧
      s'.tokens.length = s.tokens.length + 1 :=
  ⟨_, runs_leaf.mpr ⟨r, scanNumber_complete h hr, by omega, rfl⟩, rfl, by simp⟩

variable (json) in
theorem parseString_accepts (parent : Int) {s : Parser} {t r : Bytes} (ht : s.rest.tail = t)
    (h : Chars Accepted t (0x22 :: r)) (hroom : s.tokens.length + 1 ≤ capacity) :
    ∃ token s', Runs (parseString json capacity parent false) s token s' ∧ s'.rest = r ∧
      s'.tokens.length = s.tokens.length + 1 := by
  subst ht
  exact ⟨_, _, runs_parseString.mpr
    ⟨0x22 :: r, scanString_complete h (le_refl _), by omega, rfl, rfl⟩, rfl, by simp⟩

/-- `ParseValue` runs the branch of the first byte. -/
theorem runs_parseValue_intro {levels : Nat} {parent : Int} {s s' : Parser} {c : UInt8}
    {t : Bytes} (hskip : skipped s.rest = c :: t)
    (h : Runs (if c = 0x7b then parseObject json capacity (parseValue json capacity levels) parent
        else if c = 0x5b then parseArray json capacity (parseValue json capacity levels) parent
        else if c = 0x22 then do
          let _ ← parseString json capacity parent false
        else if c = 0x74 then parseLiteral json capacity parent [0x74, 0x72, 0x75, 0x65] .true
        else if c = 0x66 then
          parseLiteral json capacity parent [0x66, 0x61, 0x6c, 0x73, 0x65] .false
        else if c = 0x6e then parseLiteral json capacity parent [0x6e, 0x75, 0x6c, 0x6c] .null
        else if c = 0x2d ∨ IsDigit c then parseNumber json capacity parent
        else fail json .syntaxError) { rest := c :: t, tokens := s.tokens } () s') :
    Runs (parseValue json capacity (levels + 1) parent) s () s' := by
  unfold parseValue
  simp only [runs_bind, runs_skipWhitespace, runs_get]
  refine ⟨(), _, rfl, _, _, ⟨rfl, rfl⟩, ?_⟩
  have hdrop : s.rest.dropWhile (fun c => decide (IsSpace c)) = c :: t := hskip
  dsimp only
  rw [hdrop]
  exact h

theorem startsNumber {c : UInt8} (h : c = 0x2d ∨ IsDigit c) :
    c ≠ 0x7b ∧ c ≠ 0x5b ∧ c ≠ 0x22 ∧ c ≠ 0x74 ∧ c ≠ 0x66 ∧ c ≠ 0x6e := by
  refine ⟨?_, ?_, ?_, ?_, ?_, ?_⟩ <;> rintro rfl <;> revert h <;> decide

/-- `ParseValue` succeeds wherever a value stands. -/
theorem parseValue_accepts (levels : Nat) :
    AcceptsValues json capacity (Value Accepted levels) (parseValue json capacity levels) := by
  induction levels with
  | zero => exact fun _ _ _ _ h => h.elim
  | succ levels ih =>
      intro n parent s r h hstops hsuffix hfits
      have hV := fun n => readsOnly_value (Q := fun _ => True) (E := Accepted) (fun _ _ => trivial)
        (fun _ _ => trivial) levels n
      have hink := fun n => startsInk_value (E := Accepted) levels n
      have hskipped : skipped s.rest <:+ json := (ws_skipped _).suffix.trans hsuffix
      generalize hv : skipped s.rest = v at h
      cases h with
      | true h =>
          obtain ⟨s', hrun, hdone⟩ := parseLiteral_accepts json
            [0x74, 0x72, 0x75, 0x65] .true parent (s := { s with rest := v }) h hfits
          subst h
          exact ⟨s', runs_parseValue_intro hv hrun, hdone⟩
      | false h =>
          obtain ⟨s', hrun, hdone⟩ := parseLiteral_accepts json
            [0x66, 0x61, 0x6c, 0x73, 0x65] .false parent (s := { s with rest := v }) h hfits
          subst h
          exact ⟨s', runs_parseValue_intro hv hrun, hdone⟩
      | null h =>
          obtain ⟨s', hrun, hdone⟩ := parseLiteral_accepts json
            [0x6e, 0x75, 0x6c, 0x6c] .null parent (s := { s with rest := v }) h hfits
          subst h
          exact ⟨s', runs_parseValue_intro hv hrun, hdone⟩
      | number h =>
          obtain ⟨s', hrun, hdone⟩ := parseNumber_accepts json parent
            (s := { s with rest := v }) h hstops hfits
          obtain ⟨c, t, rfl, hc⟩ := number_head h
          obtain ⟨h₁, h₂, h₃, h₄, h₅, h₆⟩ := startsNumber hc
          refine ⟨s', runs_parseValue_intro hv ?_, hdone⟩
          rw [if_neg h₁, if_neg h₂, if_neg h₃, if_neg h₄, if_neg h₅, if_neg h₆, if_pos hc]
          exact hrun
      | string h =>
          obtain ⟨h⟩ := h
          obtain ⟨token, s', hrun, hdone⟩ := parseString_accepts json parent
            (s := { s with rest := skipped s.rest }) (by rw [hv]; rfl) h hfits
          rw [hv] at hrun
          exact ⟨s', runs_parseValue_intro hv
            (runs_bind.mpr ⟨token, s', hrun, runs_pure.mpr ⟨rfl, rfl⟩⟩), hdone⟩
      | @emptyArray t _ h =>
          obtain ⟨s', hrun, hdone⟩ := runs_empty json .array parent 0x5d
            (parseElements json (parseValue json capacity levels))
            (s := { s with rest := 0x5b :: t }) rfl h (by decide) hfits
          exact ⟨s', runs_parseValue_intro hv hrun, hdone⟩
      | @array m t _ h =>
          obtain ⟨s', hrun, hdone⟩ := parseArray_accepts hink ih hV parent
            (s := { s with rest := 0x5b :: t }) rfl h (hv ▸ hskipped) hfits
          exact ⟨s', runs_parseValue_intro hv hrun, hdone⟩
      | @emptyObject t _ h =>
          obtain ⟨s', hrun, hdone⟩ := runs_empty json .object parent 0x7d
            (parseMembers json capacity (parseValue json capacity levels))
            (s := { s with rest := 0x7b :: t }) rfl h (by decide) hfits
          exact ⟨s', runs_parseValue_intro hv hrun, hdone⟩
      | @object ks m t _ h hnodup =>
          obtain ⟨s', hrun, hdone⟩ := parseObject_accepts hink ih hV (parseValue_reads levels)
            parent (s := { s with rest := 0x7b :: t }) rfl h hnodup (hv ▸ hskipped) hfits
          exact ⟨s', runs_parseValue_intro hv hrun, hdone⟩

end Accepting

end Json

end BmxUpdate
