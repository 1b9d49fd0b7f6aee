import BmxUpdate.Json.Scan
import BmxUpdate.Json.Tokens

/-!
# What the JSON parser accepts is JSON

Every run of `parseValue` that succeeds has read a value of the grammar, with
the escapes `strchr` lets through, and has added one token for every value and
key of it.  A container is followed through its loop; what its values do is
a hypothesis (`ReadsValues`), so `parseValue_reads` is the induction on the levels.
-/

namespace BmxUpdate

namespace Json

open Wire JsonGrammar

/-- Dropping the spaces before a token. -/
abbrev skipped (t : Bytes) : Bytes := t.dropWhile fun c => decide (IsSpace c)

theorem ws_skipped (t : Bytes) : Ws t (skipped t) := many_dropWhile t

section Reading

variable {json : Bytes} {capacity : Nat}

/-! ## Strings and literals -/

theorem runs_parseString {objectKey : Bool} {parent : Int} {token : Nat} {s s' : Parser} :
    Runs (parseString json capacity parent objectKey) s token s' ↔
      ∃ r, scanString objectKey s.rest.tail s.rest.tail.length false s.rest.tail = .ok r ∧
        s.tokens.length < capacity ∧ token = s.tokens.length ∧
        s' = { rest := r.tail,
               tokens := (countChild parent s.tokens ++
                   [opened .string (offset json s.rest.tail) parent]).modify s.tokens.length
                 fun t => { t with stop := offset json r } } := by
  unfold parseString setStop
  simp only [runs_bind, runs_get, runs_advance, runs_scan, runs_addToken, runs_modify, runs_pure]
  constructor
  · rintro ⟨_, _, rfl, _, _, ⟨rfl, rfl⟩, _, _, ⟨r, hscan, rfl⟩, _, _, ⟨rfl, rfl⟩, _, _, rfl,
      _, _, ⟨hfits, rfl, rfl⟩, _, _, rfl, rfl, rfl⟩
    exact ⟨r, hscan, hfits, rfl, rfl⟩
  · rintro ⟨r, hscan, hfits, rfl, rfl⟩
    exact ⟨(), _, rfl, _, _, ⟨rfl, rfl⟩, (), _, ⟨r, hscan, rfl⟩, _, _, ⟨rfl, rfl⟩, (), _, rfl,
      _, _, ⟨hfits, rfl, rfl⟩, (), _, rfl, rfl, rfl⟩

/-- A scanner whose text becomes one token. -/
theorem runs_leaf {scanner : Bytes → Scan} {type : JsonTokenType} {parent : Int} {u : Unit}
    {s s' : Parser} :
    Runs (do
        let start := offset json (← get).rest
        scan json scanner
        let token ← addToken json capacity type start parent
        closeToken json token) s u s' ↔
      ∃ r, scanner s.rest = .ok r ∧ s.tokens.length < capacity ∧
        s' = { rest := r,
               tokens := (countChild parent s.tokens ++
                   [opened type (offset json s.rest) parent]).modify s.tokens.length
                 fun t => { t with stop := offset json r } } := by
  simp only [runs_bind, runs_get, runs_scan, runs_addToken, runs_closeToken]
  constructor
  · rintro ⟨_, _, ⟨rfl, rfl⟩, _, _, ⟨r, hscan, rfl⟩, _, _, ⟨hfits, rfl, rfl⟩, rfl⟩
    exact ⟨r, hscan, hfits, rfl⟩
  · rintro ⟨r, hscan, hfits, rfl⟩
    exact ⟨_, _, ⟨rfl, rfl⟩, (), _, ⟨r, hscan, rfl⟩, _, _, ⟨hfits, rfl, rfl⟩, rfl⟩

/-! ## Containers -/

/-- What a run of the value parser has read: a value after spaces, with its tokens. -/
def ReadsValues (json : Bytes) (capacity : Nat) (V : Nat → Production)
    (value : Int → Parse Unit) : Prop :=
  ∀ {parent : Int} {s s' : Parser}, Runs (value parent) s () s' → s.rest <:+ json →
    ∃ n, V n (skipped s.rest) s'.rest ∧ Grown parent n s.tokens s'.tokens ∧
      s'.tokens.length ≤ capacity

theorem eq_cons_of_head {c : UInt8} {t : Bytes} (h : t.head? = some c) : t = c :: t.tail := by
  cases t with
  | nil => cases h
  | cons d t =>
      obtain rfl : d = c := by simpa using h
      rfl

/-- A container up to its first value, or its end. -/
theorem runs_open {type : JsonTokenType} {parent : Int} {close : UInt8} {s s' : Parser} {u : Unit}
    {loop : Nat → Nat → Parse Unit}
    (h : Runs (do
        let start := offset json (← get).rest
        advance
        let container ← addToken json capacity type start parent
        skipWhitespace
        if (← get).rest.head? = some close then do
          advance
          closeToken json container
        else loop container (← get).rest.length) s u s') :
    ∃ t, t.rest = skipped s.rest.tail ∧ Inside parent (bare s.tokens) [] t.tokens ∧
      s.tokens.length < capacity ∧
      ((t.rest = close :: s'.rest ∧ Inside parent (bare s.tokens) [] s'.tokens) ∨
        (t.rest.head? ≠ some close ∧
          Runs (loop (bare s.tokens).length t.rest.length) t u s')) := by
  simp only [runs_bind, runs_get, runs_advance, runs_addToken, runs_skipWhitespace, runs_ite,
    runs_closeToken] at h
  obtain ⟨_, _, ⟨rfl, rfl⟩, _, _, rfl, _, _, ⟨hfits, rfl, rfl⟩, _, _, rfl, _, _, ⟨rfl, rfl⟩, h⟩ := h
  have hopened := Inside.opened type (offset json s.rest) parent s.tokens
  refine ⟨{ rest := skipped s.rest.tail,
            tokens := countChild parent s.tokens ++ [opened type (offset json s.rest) parent] },
    rfl, hopened, hfits, ?_⟩
  split at h
  · next hclose =>
      obtain ⟨_, _, rfl, rfl⟩ := h
      refine .inl ⟨eq_cons_of_head hclose, ?_⟩
      have hclosed := hopened.close (offset json (skipped s.rest.tail).tail)
      rwa [length_bare] at hclosed
  · next hclose =>
      obtain ⟨_, _, ⟨rfl, rfl⟩, h⟩ := h
      refine .inr ⟨hclose, ?_⟩
      rw [length_bare]
      exact h

section Containers

variable {V : Nat → Production} {value : Int → Parse Unit}
  (hV : ∀ n, ReadsOnly (fun _ => True) (V n)) (hvalue : ReadsValues json capacity V value)
include hV hvalue

/-- A value and the spaces around it. -/
theorem reads_padded {parent : Int} {s s' s'' : Parser} {u u' : Unit}
    (h : Runs (value parent) s u s') (hskip : Runs skipWhitespace s' u' s'')
    (hsuffix : s.rest <:+ json) :
    ∃ n, Padded V n s.rest s''.rest ∧ Grown parent n s.tokens s''.tokens ∧
      s''.tokens.length ≤ capacity ∧ s''.rest <:+ json := by
  obtain ⟨n, hread, hgrown, hfits⟩ := hvalue h hsuffix
  obtain rfl := runs_skipWhitespace.mp hskip
  have hpadded : Padded V n s.rest (skipped s'.rest) :=
    ⟨_, ws_skipped s.rest, _, hread, ws_skipped s'.rest⟩
  have hrest := (readsOnly_padded (fun _ _ => trivial) hV n hpadded).suffix
  exact ⟨n, hpadded, hgrown, hfits, hrest.trans hsuffix⟩

theorem parseElements_reads {parent : Int} {front inside : List JsonToken} {fuel : Nat}
    {s s' : Parser} {u : Unit} (h : Runs (parseElements json value front.length fuel) s u s')
    (hsuffix : s.rest <:+ json) (hinside : Inside parent front inside s.tokens) :
    ∃ inside' n, Elements V n s.rest (0x5d :: s'.rest) ∧
      Inside parent front inside' s'.tokens ∧ inside'.length = inside.length + n ∧
      s'.tokens.length ≤ capacity := by
  induction fuel generalizing s inside with
  | zero => exact absurd h not_runs_fail
  | succ fuel ih =>
      unfold parseElements at h
      simp only [runs_bind, runs_get, runs_ite, not_runs_fail] at h
      obtain ⟨_, _, ⟨rfl, rfl⟩, h⟩ := h
      split at h
      · exact h.elim
      · obtain ⟨_, t₁, hrun, _, t₂, hskip, _, _, ⟨rfl, rfl⟩, h⟩ := h
        obtain ⟨n, hpadded, hgrown, hfits, hrest⟩ := reads_padded hV hvalue hrun hskip hsuffix
        obtain ⟨first, more, hnext, -, -, rfl⟩ := hinside.grow hgrown
        split at h
        · next hclose =>
            obtain ⟨_, _, hadv, hstop⟩ := h
            obtain rfl := runs_advance.mp hadv
            obtain rfl := runs_closeToken.mp hstop
            rw [eq_cons_of_head hclose] at hpadded
            exact ⟨_, _, .last hpadded, hnext.close _, by simp, by simpa using hfits⟩
        · obtain ⟨_, _, ⟨rfl, rfl⟩, h⟩ := h
          split at h
          · exact h.elim
          · next hcomma =>
              obtain ⟨_, _, hadv, _, _, hskip', h⟩ := h
              obtain rfl := runs_advance.mp hadv
              obtain rfl := runs_skipWhitespace.mp hskip'
              have hcomma : t₂.rest = 0x2c :: t₂.rest.tail :=
                eq_cons_of_head (not_not.mp hcomma)
              have htail : skipped t₂.rest.tail <:+ json :=
                (ws_skipped _).suffix.trans ((List.tail_suffix _).trans hrest)
              obtain ⟨inside', m, helements, hafter, hlength, hfits⟩ := ih h htail hnext
              rw [hcomma] at hpadded
              refine ⟨inside', _, .more hpadded (helements.of_ws (ws_skipped _)), hafter, ?_,
                hfits⟩
              simp only [List.length_append, List.length_cons] at hlength
              omega

theorem parseArray_reads {E : UInt8 → Prop} {parent : Int} {s s' : Parser} {u : Unit} {t : Bytes}
    (h : Runs (parseArray json capacity value parent) s u s') (ht : s.rest = 0x5b :: t)
    (hsuffix : s.rest <:+ json) :
    ∃ n, Layer E V n s.rest s'.rest ∧ Grown parent n s.tokens s'.tokens ∧
      s'.tokens.length ≤ capacity := by
  obtain ⟨v, hv, hopened, hfits, h⟩ := runs_open h
  rw [ht] at hsuffix hv ⊢
  rcases h with ⟨hclose, hinside⟩ | ⟨-, h⟩
  · have hws : Ws t (0x5d :: s'.rest) := by
      rw [← hclose, hv]
      exact ws_skipped t
    have hlength := hinside.length
    exact ⟨1, .emptyArray hws, hinside.grown, by simp at hlength; omega⟩
  · have hrest : v.rest <:+ json := by
      rw [hv]
      exact (ws_skipped _).suffix.trans ((List.suffix_cons _ _).trans hsuffix)
    obtain ⟨inside, n, helements, hinside, hlength, hfits⟩ :=
      parseElements_reads hV hvalue h hrest hopened
    rw [hv] at helements
    simp only [List.length_nil, Nat.zero_add] at hlength
    exact ⟨n + 1, .array (helements.of_ws (ws_skipped t)), hlength ▸ hinside.grown, hfits⟩

/-- One member, and the spaces after it. -/
theorem parseMember_reads {parent : Int} {front inside : List JsonToken} {keys : List Bytes}
    {s s' s'' : Parser} {u u' : Unit}
    (h : Runs (parseMember json capacity value front.length) s u s')
    (hskip : Runs skipWhitespace s' u' s'') (hsuffix : s.rest <:+ json)
    (hinside : Inside parent front inside s.tokens) (hkeyed : Keyed json front.length inside keys) :
    ∃ k n inside', Member V k n s.rest s''.rest ∧ Inside parent front inside' s''.tokens ∧
      inside'.length = inside.length + n ∧ Keyed json front.length inside' (keys ++ [k]) ∧
      k ∉ keys ∧ s''.tokens.length ≤ capacity ∧ s''.rest <:+ json := by
  unfold parseMember at h
  simp only [runs_bind, runs_get, runs_ite, not_runs_fail, not_runs_throw, runs_parseString,
    runs_skipWhitespace, runs_advance] at h
  obtain ⟨_, _, ⟨rfl, rfl⟩, h⟩ := h
  split at h
  · exact h.elim
  · next hquote =>
      have hquote : s.rest = 0x22 :: s.rest.tail := eq_cons_of_head (not_not.mp hquote)
      obtain ⟨_, _, ⟨r, hscan, hroom, rfl, rfl⟩, _, _, ⟨rfl, rfl⟩, h⟩ := h
      obtain ⟨-, k, x, rfl, hk, hkbytes⟩ := scanString_key_sound hscan
      have htail : (k ++ 0x22 :: x) <:+ json := by
        rw [← hk]
        exact (List.tail_suffix _).trans hsuffix
      split at h
      · exact h.elim
      · next hfresh =>
          obtain ⟨_, _, rfl, _, _, ⟨rfl, rfl⟩, h⟩ := h
          split at h
          · exact h.elim
          · next hcolon =>
              have hcolon : skipped x = 0x3a :: (skipped x).tail :=
                eq_cons_of_head (not_not.mp hcolon)
              obtain ⟨_, _, rfl, hrun⟩ := h
              rw [hk] at hfresh hrun
              have hfresh : k ∉ keys := fun hmem =>
                hfresh ((hkeyed.duplicate_key_iff hinside htail).mpr hmem)
              have hinside := hinside.leaf .string (offset json (k ++ 0x22 :: x))
                (offset json (0x22 :: x))
              have hvaluetail : (skipped x).tail <:+ json :=
                (List.tail_suffix _).trans ((ws_skipped x).suffix.trans
                  ((List.suffix_cons _ x).trans ((List.suffix_append k _).trans htail)))
              obtain ⟨n, hpadded, hgrown, hfits, hrest⟩ :=
                reads_padded hV hvalue hrun hskip hvaluetail
              obtain ⟨first, more, hnext, hfirst, hmore, rfl⟩ := hinside.grow hgrown
              refine ⟨k, more.length + 1 + 1, _, ?_, hnext, by simp, ?_, hfresh, hfits, hrest⟩
              · rw [hquote, hk]
                have hcolon' : Ws x (0x3a :: (skipped x).tail) := by
                  rw [← hcolon]
                  exact ws_skipped x
                exact ⟨Many.refl _, ⟨hkbytes⟩, hcolon', hpadded⟩
              · have hsnoc : Keyed json front.length
                    (inside ++ keyToken json k (0x22 :: x) front.length :: first :: more)
                    (keys ++ [(keyToken json k (0x22 :: x) front.length).text json]) :=
                  hkeyed.snoc rfl rfl hfirst hmore
                rw [keyToken_text htail] at hsnoc
                rw [List.append_assoc]
                exact hsnoc

theorem parseMembers_reads {parent : Int} {front inside : List JsonToken} {keys : List Bytes}
    {fuel : Nat} {s s' : Parser} {u : Unit}
    (h : Runs (parseMembers json capacity value front.length fuel) s u s')
    (hsuffix : s.rest <:+ json) (hinside : Inside parent front inside s.tokens)
    (hkeyed : Keyed json front.length inside keys) (hnodup : keys.Nodup) :
    ∃ ks inside' n, Members V ks n s.rest (0x7d :: s'.rest) ∧
      Inside parent front inside' s'.tokens ∧ inside'.length = inside.length + n ∧
      (keys ++ ks).Nodup ∧ s'.tokens.length ≤ capacity := by
  induction fuel generalizing s inside keys with
  | zero => exact absurd h not_runs_fail
  | succ fuel ih =>
      unfold parseMembers at h
      simp only [runs_bind, runs_get, runs_ite, not_runs_fail] at h
      obtain ⟨_, t₁, hrun, _, t₂, hskip, _, _, ⟨rfl, rfl⟩, h⟩ := h
      obtain ⟨k, n, inside', hmember, hnext, hlength, hkeyed', hfresh, hfits, hrest⟩ :=
        parseMember_reads hV hvalue hrun hskip hsuffix hinside hkeyed
      have hnodup' : (keys ++ [k]).Nodup := by
        rw [List.nodup_append]
        refine ⟨hnodup, by simp, ?_⟩
        intro a ha b hb heq
        rw [List.mem_singleton.mp hb] at heq
        exact hfresh (heq ▸ ha)
      split at h
      · next hclose =>
          obtain ⟨_, _, hadv, hstop⟩ := h
          obtain rfl := runs_advance.mp hadv
          obtain rfl := runs_closeToken.mp hstop
          rw [eq_cons_of_head hclose] at hmember
          exact ⟨[k], _, n, .last hmember, hnext.close _, hlength, hnodup', by simpa using hfits⟩
      · obtain ⟨_, _, ⟨rfl, rfl⟩, h⟩ := h
        split at h
        · exact h.elim
        · next hcomma =>
            obtain ⟨_, _, hadv, _, _, hskip', h⟩ := h
            obtain rfl := runs_advance.mp hadv
            obtain rfl := runs_skipWhitespace.mp hskip'
            have hcomma : t₂.rest = 0x2c :: t₂.rest.tail := eq_cons_of_head (not_not.mp hcomma)
            have htail : skipped t₂.rest.tail <:+ json :=
              (ws_skipped _).suffix.trans ((List.tail_suffix _).trans hrest)
            obtain ⟨ks, inside'', m, hmembers, hafter, hlength', hall, hfits'⟩ :=
              ih h htail hnext hkeyed' hnodup'
            rw [hcomma] at hmember
            refine ⟨k :: ks, inside'', n + m, .more hmember (hmembers.of_ws (ws_skipped _)), hafter,
              by omega, by simpa using hall, hfits'⟩

theorem parseObject_reads {E : UInt8 → Prop} {parent : Int} {s s' : Parser} {u : Unit}
    {t : Bytes} (h : Runs (parseObject json capacity value parent) s u s')
    (ht : s.rest = 0x7b :: t) (hsuffix : s.rest <:+ json) :
    ∃ n, Layer E V n s.rest s'.rest ∧ Grown parent n s.tokens s'.tokens ∧
      s'.tokens.length ≤ capacity := by
  obtain ⟨v, hv, hopened, hfits, h⟩ := runs_open h
  rw [ht] at hsuffix hv ⊢
  rcases h with ⟨hclose, hinside⟩ | ⟨-, h⟩
  · have hws : Ws t (0x7d :: s'.rest) := by
      rw [← hclose, hv]
      exact ws_skipped t
    have hlength := hinside.length
    exact ⟨1, .emptyObject hws, hinside.grown, by simp at hlength; omega⟩
  · have hrest : v.rest <:+ json := by
      rw [hv]
      exact (ws_skipped _).suffix.trans ((List.suffix_cons _ _).trans hsuffix)
    obtain ⟨ks, inside, n, hmembers, hinside, hlength, hnodup, hfits⟩ :=
      parseMembers_reads hV hvalue h hrest hopened (Keyed.nil json _) List.nodup_nil
    rw [hv] at hmembers
    simp only [List.length_nil, Nat.zero_add] at hlength
    exact ⟨n + 1, .object (hmembers.of_ws (ws_skipped t)) (by simpa using hnodup),
      hlength ▸ hinside.grown, hfits⟩

end Containers

/-! ## Values -/

theorem parseLiteral_reads {parent : Int} {literal : Bytes} {type : JsonTokenType}
    {s s' : Parser} {u : Unit}
    (h : Runs (parseLiteral json capacity parent literal type) s u s') :
    Literal literal s.rest s'.rest ∧ Grown parent 1 s.tokens s'.tokens ∧
      s'.tokens.length ≤ capacity := by
  obtain ⟨r, hscan, hfits, rfl⟩ := runs_leaf.mp h
  have hgrown := Grown.leaf type (offset json s.rest) (offset json r) parent s.tokens
  exact ⟨scanLiteral_eq_ok.mp hscan, hgrown, by rw [hgrown.length]; omega⟩

/-- A successful `ParseValue` has read a value. -/
theorem parseValue_reads (levels : Nat) :
    ReadsValues json capacity (Value Accepted levels) (parseValue json capacity levels) := by
  induction levels with
  | zero => exact fun h => absurd h not_runs_fail
  | succ levels ih =>
      intro parent s s' h hsuffix
      have hV := fun n => readsOnly_value (Q := fun _ => True) (E := Accepted) (fun _ _ => trivial)
        (fun _ _ => trivial) levels n
      unfold parseValue at h
      simp only [runs_bind, runs_skipWhitespace, runs_get] at h
      obtain ⟨_, _, rfl, _, _, ⟨rfl, rfl⟩, h⟩ := h
      have hskipped : skipped s.rest <:+ json := (ws_skipped _).suffix.trans hsuffix
      split at h
      · exact absurd h not_runs_fail
      · next c t hrest =>
          have hrest : skipped s.rest = c :: t := hrest
          simp only [runs_ite] at h
          split at h
          · next hc =>
              subst hc
              exact parseObject_reads hV ih h hrest hskipped
          · split at h
            · next hc =>
                subst hc
                exact parseArray_reads hV ih h hrest hskipped
            · split at h
              · next hc =>
                  subst hc
                  obtain ⟨_, _, hstring, hdone⟩ := runs_bind.mp h
                  obtain ⟨-, rfl⟩ := runs_pure.mp hdone
                  obtain ⟨r, hscan, hfits, -, rfl⟩ := runs_parseString.mp hstring
                  obtain ⟨x, rfl, hchars⟩ := scanString_sound hscan
                  have hstr : Str Accepted (skipped s.rest) x := by
                    rw [hrest]
                    have htail : (skipped s.rest).tail = t := by rw [hrest]; rfl
                    exact ⟨htail ▸ hchars⟩
                  have hgrown := Grown.leaf .string (offset json (skipped s.rest).tail)
                    (offset json (0x22 :: x)) parent s.tokens
                  exact ⟨1, .string hstr, hgrown, by rw [hgrown.length]; exact hfits⟩
              · split at h
                · obtain ⟨hread, hgrown, hfits⟩ := parseLiteral_reads h
                  exact ⟨1, .true hread, hgrown, hfits⟩
                · split at h
                  · obtain ⟨hread, hgrown, hfits⟩ := parseLiteral_reads h
                    exact ⟨1, .false hread, hgrown, hfits⟩
                  · split at h
                    · obtain ⟨hread, hgrown, hfits⟩ := parseLiteral_reads h
                      exact ⟨1, .null hread, hgrown, hfits⟩
                    · split at h
                      · obtain ⟨r, hscan, hfits, rfl⟩ := runs_leaf.mp h
                        have hgrown := Grown.leaf .number (offset json (skipped s.rest))
                          (offset json r) parent s.tokens
                        exact ⟨1, .number (scanNumber_sound hscan), hgrown,
                          by rw [hgrown.length]; exact hfits⟩
                      · exact absurd h not_runs_fail

end Reading

end Json

end BmxUpdate
