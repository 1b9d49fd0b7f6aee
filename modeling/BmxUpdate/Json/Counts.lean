import BmxUpdate.Json.Access
import BmxUpdate.Json.Soundness
import Mathlib.Data.List.Perm.Subperm

/-!
# Child counts

The child counts of a parsed text: `ParseJson` leaves with each token the number of tokens
whose parent it is.  An object read by `ExactObject` has then exactly the keys it is
asked for.

- `Counted`: the invariant of the token table,
- `parseJson_counted`: the tokens of a text that was read keep it,
- `exactObject_keys`: the keys of an exact object are its fields in some order.
-/

namespace BmxUpdate

namespace Json

open Wire Http

/-- Each token has a parent before the end of the table, and counts the tokens directly in it. -/
structure Counted (tokens : List JsonToken) : Prop where
  parents : ∀ t ∈ tokens, t.parent < tokens.length
  counts : ∀ (i : Nat) t, tokens[i]? = some t → t.childCount = tokens.countP fun u => u.parent = (i : Int)

/-- A change that leaves the parents alone. -/
theorem parents_modify {g : JsonToken → JsonToken} (hg : ∀ t, (g t).parent = t.parent)
    (tokens : List JsonToken) (i : Nat) :
    (tokens.modify i g).map (·.parent) = tokens.map (·.parent) := by
  induction tokens generalizing i with
  | nil => simp
  | cons t tokens ih =>
      cases i with
      | zero => simp [hg]
      | succ i => simp [ih]

theorem parents_countChild (parent : Int) (tokens : List JsonToken) :
    (countChild parent tokens).map (·.parent) = tokens.map (·.parent) := by
  unfold countChild
  split
  · apply parents_modify
    intro t
    rfl
  · rfl

/-- Tables with the same parents have the same counts. -/
theorem countP_parent {tokens tokens' : List JsonToken}
    (h : tokens'.map (·.parent) = tokens.map (·.parent)) (n : Nat) :
    tokens'.countP (fun u => u.parent = (n : Int)) =
      tokens.countP fun u => u.parent = (n : Int) := by
  have hmap := congrArg (List.countP fun p => decide (p = (n : Int))) h
  rw [List.countP_map, List.countP_map] at hmap
  exact hmap

theorem exists_parent {tokens tokens' : List JsonToken}
    (h : tokens'.map (·.parent) = tokens.map (·.parent)) {t : JsonToken} (ht : t ∈ tokens') :
    ∃ u ∈ tokens, u.parent = t.parent := by
  have hmem : t.parent ∈ tokens.map (·.parent) := by
    rw [← h]
    exact List.mem_map_of_mem ht
  exact List.mem_map.mp hmem

namespace Counted

variable {tokens : List JsonToken} {parent : Int}

protected theorem nil : Counted [] := ⟨by simp, by simp⟩

/-- Changing where a token stops changes no count. -/
theorem stopped (h : Counted tokens) (i stop : Nat) :
    Counted (tokens.modify i fun t => { t with stop }) := by
  have hparents := parents_modify (g := fun t => { t with stop }) (fun _ => rfl) tokens i
  constructor
  · intro t ht
    rw [List.length_modify]
    obtain ⟨u, hu, hparent⟩ := exists_parent hparents ht
    rw [← hparent]
    exact h.parents u hu
  · intro n t ht
    rw [countP_parent hparents]
    rw [List.getElem?_modify] at ht
    obtain ⟨u, hu, rfl⟩ := Option.map_eq_some_iff.mp ht
    have hcounts := h.counts n u hu
    split <;> exact hcounts

/-- A new token in a container counts there. -/
theorem added (h : Counted tokens) (type : JsonTokenType) (start : Nat)
    (hparent : parent < tokens.length) :
    Counted (countChild parent tokens ++ [opened type start parent]) := by
  have hparents := parents_countChild parent tokens
  constructor
  · intro t ht
    rw [List.length_append, length_countChild]
    rcases List.mem_append.mp ht with ht | ht
    · obtain ⟨u, hu, heq⟩ := exists_parent hparents ht
      have hbelow := h.parents u hu
      rw [heq] at hbelow
      simp only [List.length_singleton]
      omega
    · obtain rfl := List.mem_singleton.mp ht
      show parent < _
      simp only [List.length_singleton]
      omega
  · intro n t ht
    rw [List.countP_append, countP_parent hparents]
    by_cases hn : n < tokens.length
    · rw [List.getElem?_append_left (by simpa using hn)] at ht
      have hnew : List.countP (fun u : JsonToken => decide (u.parent = (n : Int)))
          [opened type start parent] = if parent = n then 1 else 0 := by
        simp [opened, List.countP_cons]
      rw [hnew]
      unfold countChild at ht
      split at ht
      · next hpos =>
          rw [List.getElem?_modify] at ht
          obtain ⟨u, hu, rfl⟩ := Option.map_eq_some_iff.mp ht
          have hcounts := h.counts n u hu
          by_cases hsame : parent = n
          · rw [if_pos (by omega), if_pos hsame, ← hcounts]
          · rw [if_neg (by omega), if_neg hsame, ← hcounts]
            rfl
      · next hneg =>
          rw [if_neg (by omega), ← h.counts n t ht]
          rfl
    · rw [List.getElem?_append_right (by simpa using hn), length_countChild] at ht
      have hzero : n - tokens.length = 0 := by
        have := (List.getElem?_eq_some_iff.mp ht).1
        simp only [List.length_singleton] at this
        omega
      rw [hzero] at ht
      obtain rfl : opened type start parent = t := by simpa using ht
      have hnone : tokens.countP (fun u => decide (u.parent = (n : Int))) = 0 := by
        rw [List.countP_eq_zero]
        intro u hu heq
        have := h.parents u hu
        rw [of_decide_eq_true heq] at this
        omega
      rw [hnone]
      have hother : parent ≠ n := by omega
      simp [opened, hother]

end Counted

/-! ## The parser keeps the counts -/

section Keeping

variable {json : Bytes} {capacity : Nat}

/-- What a run leaves of a counted table: it is counted, and no shorter. -/
def StaysCounted (s s' : Parser) : Prop :=
  Counted s.tokens → Counted s'.tokens ∧ s.tokens.length ≤ s'.tokens.length

theorem StaysCounted.trans {s t u : Parser} (h : StaysCounted s t) (h' : StaysCounted t u) :
    StaysCounted s u := by
  intro hs
  obtain ⟨ht, hst⟩ := h hs
  obtain ⟨hu, htu⟩ := h' ht
  exact ⟨hu, hst.trans htu⟩

theorem StaysCounted.close {s : Parser} {rest : Bytes} (i stop : Nat) :
    StaysCounted s
      { rest, tokens := s.tokens.modify i fun t => { t with stop } } := by
  intro hs
  refine ⟨hs.stopped i stop, ?_⟩
  simp

/-- A new token that is closed at once. -/
theorem StaysCounted.leaf {s : Parser} (rest : Bytes) {parent : Int} (type : JsonTokenType)
    (start stop : Nat) (hparent : parent < s.tokens.length) :
    StaysCounted s
      { rest, tokens := (countChild parent s.tokens ++ [opened type start parent]).modify
          s.tokens.length fun t => { t with stop } } := by
  intro hs
  refine ⟨(hs.added type start hparent).stopped _ stop, ?_⟩
  simp

/-- A value parser that keeps the counts in each container. -/
def CountsValues (value : Int → Parse Unit) : Prop :=
  ∀ {parent : Int} {s s' : Parser}, Runs (value parent) s () s' → parent < s.tokens.length →
    StaysCounted s s'

variable {value : Int → Parse Unit} (hvalue : CountsValues value)

include hvalue in
theorem parseElements_counts {array fuel : Nat} {s s' : Parser} {u : Unit}
    (h : Runs (parseElements json value array fuel) s u s') (harray : array < s.tokens.length) :
    StaysCounted s s' := by
  induction fuel generalizing s with
  | zero => exact absurd h not_runs_fail
  | succ fuel ih =>
      unfold parseElements at h
      simp only [runs_bind, runs_get, runs_ite, not_runs_fail] at h
      obtain ⟨_, _, ⟨rfl, rfl⟩, h⟩ := h
      split at h
      · exact h.elim
      · obtain ⟨_, t₁, hrun, _, t₂, hskip, _, _, ⟨rfl, rfl⟩, h⟩ := h
        obtain rfl := runs_skipWhitespace.mp hskip
        have hfirst : StaysCounted s t₁ := hvalue hrun (by omega)
        intro hs
        have hlonger := (hfirst hs).2
        split at h
        · obtain ⟨_, _, hadv, hstop⟩ := h
          obtain rfl := runs_advance.mp hadv
          obtain rfl := runs_closeToken.mp hstop
          exact hfirst.trans (StaysCounted.close _ _) hs
        · obtain ⟨_, _, ⟨rfl, rfl⟩, h⟩ := h
          split at h
          · exact h.elim
          · obtain ⟨_, _, hadv, _, _, hskip', h⟩ := h
            obtain rfl := runs_advance.mp hadv
            obtain rfl := runs_skipWhitespace.mp hskip'
            have hrest := ih h (by simp only; omega)
            exact hfirst.trans (fun ht => hrest ht) hs

include hvalue in
theorem parseMember_counts {object : Nat} {s s' : Parser} {u : Unit}
    (h : Runs (parseMember json capacity value object) s u s') (hobject : object < s.tokens.length) :
    StaysCounted s s' := by
  unfold parseMember at h
  simp only [runs_bind, runs_get, runs_ite, not_runs_fail, not_runs_throw, runs_parseString,
    runs_skipWhitespace, runs_advance] at h
  obtain ⟨_, _, ⟨rfl, rfl⟩, h⟩ := h
  split at h
  · exact h.elim
  · obtain ⟨_, _, ⟨r, -, -, rfl, rfl⟩, _, _, ⟨rfl, rfl⟩, h⟩ := h
    split at h
    · exact h.elim
    · obtain ⟨_, _, rfl, _, _, ⟨rfl, rfl⟩, h⟩ := h
      split at h
      · exact h.elim
      · obtain ⟨_, _, rfl, hrun⟩ := h
        have hobjectAt : (object : Int) < s.tokens.length := by omega
        have hkey := StaysCounted.leaf (s := s) r.tail .string (offset json s.rest.tail)
          (offset json r) hobjectAt
        have hnext := hvalue hrun (by simp; omega)
        exact hkey.trans fun ht => hnext ht

include hvalue in
theorem parseMembers_counts {object fuel : Nat} {s s' : Parser} {u : Unit}
    (h : Runs (parseMembers json capacity value object fuel) s u s')
    (hobject : object < s.tokens.length) : StaysCounted s s' := by
  induction fuel generalizing s with
  | zero => exact absurd h not_runs_fail
  | succ fuel ih =>
      unfold parseMembers at h
      simp only [runs_bind, runs_get, runs_ite, not_runs_fail] at h
      obtain ⟨_, t₁, hrun, _, t₂, hskip, _, _, ⟨rfl, rfl⟩, h⟩ := h
      obtain rfl := runs_skipWhitespace.mp hskip
      have hfirst := parseMember_counts hvalue hrun hobject
      intro hs
      have hlonger := (hfirst hs).2
      split at h
      · obtain ⟨_, _, hadv, hstop⟩ := h
        obtain rfl := runs_advance.mp hadv
        obtain rfl := runs_closeToken.mp hstop
        exact hfirst.trans (StaysCounted.close _ _) hs
      · obtain ⟨_, _, ⟨rfl, rfl⟩, h⟩ := h
        split at h
        · exact h.elim
        · obtain ⟨_, _, hadv, _, _, hskip', h⟩ := h
          obtain rfl := runs_advance.mp hadv
          obtain rfl := runs_skipWhitespace.mp hskip'
          have hrest := ih h (by simp only; omega)
          exact hfirst.trans (fun ht => hrest ht) hs

/-- A container: its opening token, then its loop or its end. -/
theorem open_counts {type : JsonTokenType} {parent : Int} {close : UInt8} {s s' : Parser} {u : Unit}
    {loop : Nat → Nat → Parse Unit}
    (h : Runs (do
        let start := offset json (← get).rest
        advance
        let container ← addToken json capacity type start parent
        skipWhitespace
        if (← get).rest.head? = some close then do
          advance
          closeToken json container
        else loop container (← get).rest.length) s u s')
    (hparent : parent < s.tokens.length)
    (hloop : ∀ {container fuel : Nat} {t t' : Parser}, Runs (loop container fuel) t u t' →
      container < t.tokens.length → StaysCounted t t') : StaysCounted s s' := by
  simp only [runs_bind, runs_get, runs_advance, runs_addToken, runs_skipWhitespace, runs_ite,
    runs_closeToken] at h
  obtain ⟨_, _, ⟨rfl, rfl⟩, _, _, rfl, _, _, ⟨-, rfl, rfl⟩, _, _, rfl, _, _, ⟨rfl, rfl⟩, h⟩ := h
  have hopened : ∀ rest, StaysCounted s
      { rest, tokens := countChild parent s.tokens ++
          [opened type (offset json s.rest) parent] } := by
    intro rest hs
    refine ⟨hs.added type _ hparent, ?_⟩
    simp
  split at h
  · obtain ⟨_, _, rfl, rfl⟩ := h
    exact (hopened _).trans (StaysCounted.close _ _)
  · obtain ⟨_, _, ⟨rfl, rfl⟩, h⟩ := h
    exact (hopened _).trans (hloop h (by simp))

/-- `ParseValue` keeps the counts. -/
theorem parseValue_counts (levels : Nat) : CountsValues (parseValue json capacity levels) := by
  induction levels with
  | zero => exact fun h => absurd h not_runs_fail
  | succ levels ih =>
      intro parent s s' h hparent
      unfold parseValue at h
      simp only [runs_bind, runs_skipWhitespace, runs_get] at h
      obtain ⟨_, _, rfl, _, _, ⟨rfl, rfl⟩, h⟩ := h
      have hleaf : ∀ {type : JsonTokenType} {scanner : Bytes → Scan} {t' : Parser},
          Runs (do
            let start := offset json (← get).rest
            scan json scanner
            let token ← addToken json capacity type start parent
            closeToken json token) { s with rest := skipped s.rest } () t' →
          StaysCounted s t' := by
        intro type scanner t' hrun
        obtain ⟨r, -, -, rfl⟩ := runs_leaf.mp hrun
        exact StaysCounted.leaf (s := s) _ type _ _ hparent
      split at h
      · exact absurd h not_runs_fail
      · simp only [runs_ite] at h
        split at h
        · exact open_counts (s := { s with rest := skipped s.rest }) h hparent
            fun hloop hcontainer => parseMembers_counts ih hloop hcontainer
        · split at h
          · exact open_counts (s := { s with rest := skipped s.rest }) h hparent
              fun hloop hcontainer => parseElements_counts ih hloop hcontainer
          · split at h
            · obtain ⟨_, _, hstring, hdone⟩ := runs_bind.mp h
              obtain ⟨-, rfl⟩ := runs_pure.mp hdone
              obtain ⟨r, -, -, -, rfl⟩ := runs_parseString.mp hstring
              exact StaysCounted.leaf (s := s) _ .string _ _ hparent
            · split at h
              · exact hleaf h
              · split at h
                · exact hleaf h
                · split at h
                  · exact hleaf h
                  · split at h
                    · exact hleaf h
                    · exact absurd h not_runs_fail

end Keeping

/-- The tokens of a text that `ParseJson` has read. -/
theorem parseJson_counted {json : Bytes} {capacity maxDepth : Nat}
    (h : (parseJson (some json) capacity maxDepth).1.error = none) :
    Counted (parseJson (some json) capacity maxDepth).2 := by
  unfold parseJson at h ⊢
  dsimp only at h ⊢
  split
  · exact Counted.nil
  · split
    · exact Counted.nil
    · rw [if_neg ‹_›, if_neg ‹_›] at h
      split
      · next s hrun =>
          have hruns : Runs (parseText json capacity maxDepth) { rest := json, tokens := [] } () s :=
            hrun
          unfold parseText at hruns
          simp only [runs_bind, runs_skipWhitespace, runs_get, runs_ite, runs_pure] at hruns
          obtain ⟨_, _, rfl, _, t, hvalue, _, _, rfl, _, _, ⟨rfl, rfl⟩, hend⟩ := hruns
          split at hend
          · exact absurd hend not_runs_fail
          · obtain ⟨-, rfl⟩ := hend
            exact (parseValue_counts maxDepth hvalue (by simp) Counted.nil).1
      · next hrun =>
          rw [hrun] at h
          cases h

/-! ## Exact objects -/

/-- The texts of the keys of an object, from its direct children. -/
def keyTexts (json : Bytes) : List (JsonToken × Nat) → List Bytes
  | [] => []
  | [(key, _)] => [key.text json]
  | (key, _) :: _ :: rest => key.text json :: keyTexts json rest

theorem keyTexts_length_le (json : Bytes) : ∀ tokens : List (JsonToken × Nat),
    tokens.length % 2 = 0 → 2 * (keyTexts json tokens).length ≤ tokens.length
  | [], _ => by simp [keyTexts]
  | [_], h => by simp at h
  | _ :: _ :: rest, h => by
      have ih := keyTexts_length_le json rest (by simp only [List.length_cons] at h; omega)
      simp only [keyTexts, List.length_cons]
      omega

/-- The direct children of a container are no more than the tokens whose parent it is. -/
theorem length_children_le (tokens : List JsonToken) (container : Nat) :
    (children tokens container).length ≤
      tokens.countP fun u => u.parent = (container : Int) := by
  unfold children
  cases tokens[container]? with
  | none => exact Nat.zero_le _
  | some outer =>
      dsimp only
      have hsub : ((tokens.zipIdx.drop (container + 1)).takeWhile
          fun (x : JsonToken × Nat) => x.1.start < outer.stop).Sublist tokens.zipIdx :=
        (List.takeWhile_sublist _).trans (List.drop_sublist _ _)
      rw [← List.countP_eq_length_filter]
      refine hsub.countP_le.trans (le_of_eq ?_)
      have hfst : tokens.zipIdx.map Prod.fst = tokens := List.zipIdx_map_fst 0 tokens
      conv_rhs => rw [← hfst, List.countP_map]
      rfl

/-- A member that is found has its name among the keys. -/
theorem mem_keyTexts_of_findMember {json name : Bytes} :
    ∀ {tokens : List (JsonToken × Nat)}, (findMember json name tokens).isSome = true →
      name ∈ keyTexts json tokens
  | [], h => by cases h
  | [_], h => by cases h
  | (key, i) :: (value, j) :: rest, h => by
      rw [findMember] at h
      rw [keyTexts]
      split at h
      · cases h
      split at h
      · next hequal =>
          unfold jsonStringEquals at hequal
          simp only [Bool.and_eq_true, decide_eq_true_eq] at hequal
          rw [hequal.2]
          exact List.mem_cons_self
      · exact List.mem_cons_of_mem _ (mem_keyTexts_of_findMember h)

/-- The keys of an exact object are its fields, each once. -/
theorem exactObject_keys {doc : Document} (hcounted : Counted doc.tokens) {object : Nat}
    {fields : List String} (hfields : (fields.map bytesOf).Nodup)
    (h : doc.exactObject (some object) fields = true) :
    (keyTexts doc.json (children doc.tokens object)).Perm (fields.map bytesOf) := by
  unfold Document.exactObject at h
  simp only [Bool.and_eq_true, decide_eq_true_eq, List.all_eq_true] at h
  obtain ⟨⟨⟨⟨-, hcount⟩, hknown⟩, heven⟩, hpresent⟩ := h
  -- Every field is a key.
  have hsub : fields.map bytesOf ⊆ keyTexts doc.json (children doc.tokens object) := by
    intro text htext
    obtain ⟨field, hfield, rfl⟩ := List.mem_map.mp htext
    have hsome := hpresent field hfield
    unfold Document.member jsonFindObjectMember at hsome
    simp only [Option.bind_eq_bind, Option.bind_some] at hsome
    split at hsome
    · exact mem_keyTexts_of_findMember hsome
    · cases hsome
  -- There are no more keys than fields.
  have hlength : (keyTexts doc.json (children doc.tokens object)).length ≤
      (fields.map bytesOf).length := by
    have hkeys := keyTexts_length_le doc.json _ heven
    have hchildren := length_children_le doc.tokens object
    unfold Document.token at hcount
    simp only [Option.bind_eq_bind, Option.bind_some] at hcount
    cases htoken : doc.tokens[object]? with
    | none =>
        rw [htoken] at hcount
        cases hcount
    | some token =>
        rw [htoken] at hcount
        simp only [Option.any_some, decide_eq_true_eq] at hcount
        have hcounts := hcounted.counts object token htoken
        rw [List.length_map]
        omega
  exact ((List.subperm_of_subset hfields hsub).perm_of_length_le hlength).symm

end Json

end BmxUpdate
