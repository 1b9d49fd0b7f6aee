import BmxUpdate.Json.Parser
import Mathlib.Data.List.Basic
import Mathlib.Tactic.Common

/-!
# The token table of the JSON parser

What each step leaves in the table, and what the duplicate key check sees there.

* `Runs m s a s'` says that a step succeeds; `runs_bind` takes a `do` block apart.
* `Grown` is what one value adds: a token directly in its parent and tokens
  deeper than that.  Tokens already there keep all but their child counts (`bare`).
* `Inside` is the invariant of the object loop: keys and values alternate
  directly under the object, so that `hasDuplicateObjectKey`, which tells keys
  from values by their ordinal, compares with the earlier keys
  (`hasDuplicateObjectKey_iff`).
-/

namespace BmxUpdate

namespace Json

open Wire

/-! ## Steps that succeed -/

/-- The step succeeds from `s` with `a` and leaves `s'`. -/
def Runs {α : Type} (m : Parse α) (s : Parser) (a : α) (s' : Parser) : Prop := m s = .ok a s'

section Runs

variable {α β : Type} {s s' : Parser} {a : α} {b : β}

theorem runs_bind {m : Parse α} {k : α → Parse β} :
    Runs (m >>= k) s b s' ↔ ∃ a t, Runs m s a t ∧ Runs (k a) t b s' := by
  unfold Runs
  constructor
  · intro h
    simp only [bind, EStateM.bind] at h
    split at h
    · next a t hm => exact ⟨a, t, hm, h⟩
    · cases h
  · rintro ⟨a, t, hm, hk⟩
    simp only [bind, EStateM.bind, hm, hk]

theorem runs_pure {c : α} : Runs (pure a : Parse α) s c s' ↔ a = c ∧ s = s' := by
  simp [Runs, pure, EStateM.pure]

theorem runs_get {t : Parser} : Runs (get : Parse Parser) s t s' ↔ s = t ∧ s = s' := by
  show EStateM.Result.ok s s = .ok t s' ↔ _
  rw [EStateM.Result.ok.injEq]

theorem runs_set {t : Parser} {u : PUnit} : Runs (set t : Parse PUnit) s u s' ↔ s' = t := by
  show EStateM.Result.ok PUnit.unit t = .ok u s' ↔ _
  rw [EStateM.Result.ok.injEq]
  exact ⟨fun h => h.2.symm, fun h => ⟨rfl, h.symm⟩⟩

theorem runs_modify {f : Parser → Parser} {u : PUnit} :
    Runs (modify f : Parse PUnit) s u s' ↔ s' = f s := by
  show EStateM.Result.ok PUnit.unit (f s) = .ok u s' ↔ _
  rw [EStateM.Result.ok.injEq]
  exact ⟨fun h => h.2.symm, fun h => ⟨rfl, h.symm⟩⟩

@[simp] theorem not_runs_throw {e : JsonError × Nat} : ¬ Runs (throw e : Parse α) s a s' := nofun

@[simp] theorem not_runs_fail {json : Bytes} {e : JsonError} :
    ¬ Runs (fail json e : Parse α) s a s' := nofun

theorem runs_ite {c : Prop} [Decidable c] {m n : Parse α} :
    Runs (if c then m else n) s a s' ↔ if c then Runs m s a s' else Runs n s a s' := by
  split <;> rfl

end Runs

section Steps

variable {json : Bytes} {capacity : Nat} {s s' : Parser}

theorem runs_scan {scanner : Bytes → Scan} {u : Unit} :
    Runs (scan json scanner) s u s' ↔
      ∃ rest, scanner s.rest = .ok rest ∧ s' = { s with rest } := by
  unfold Runs scan
  cases h : scanner s.rest with
  | ok rest => simp [eq_comm]
  | error e => simp

theorem runs_advance {u : Unit} : Runs advance s u s' ↔ s' = { s with rest := s.rest.tail } :=
  runs_modify

theorem runs_skipWhitespace {u : Unit} :
    Runs skipWhitespace s u s' ↔
      s' = { s with rest := s.rest.dropWhile fun c => decide (JsonGrammar.IsSpace c) } :=
  runs_modify

theorem runs_closeToken {token : Nat} {u : Unit} :
    Runs (closeToken json token) s u s' ↔
      s' = { s with
        tokens := s.tokens.modify token fun t => { t with stop := offset json s.rest } } := by
  unfold closeToken setStop
  simp only [runs_bind, runs_get, runs_modify]
  constructor
  · rintro ⟨_, _, ⟨rfl, rfl⟩, h⟩
    exact h
  · intro h
    exact ⟨s, s, ⟨rfl, rfl⟩, h⟩

/-- A token as `AddToken` writes it. -/
def opened (type : JsonTokenType) (start : Nat) (parent : Int) : JsonToken :=
  { type, start, stop := start, parent, childCount := 0 }

theorem runs_addToken {type : JsonTokenType} {start token : Nat} {parent : Int} :
    Runs (addToken json capacity type start parent) s token s' ↔
      s.tokens.length < capacity ∧ token = s.tokens.length ∧
        s' = { s with tokens := countChild parent s.tokens ++ [opened type start parent] } := by
  unfold addToken
  simp only [runs_bind, runs_get, runs_ite, not_runs_fail, runs_set, runs_pure]
  constructor
  · rintro ⟨_, _, ⟨rfl, rfl⟩, h⟩
    split at h
    · exact h.elim
    · next hfits =>
        obtain ⟨_, _, rfl, rfl, rfl⟩ := h
        exact ⟨by omega, rfl, rfl⟩
  · rintro ⟨hfits, rfl, rfl⟩
    refine ⟨s, s, ⟨rfl, rfl⟩, ?_⟩
    rw [if_neg (by omega)]
    exact ⟨⟨⟩, _, rfl, rfl, rfl⟩

end Steps

/-! ## Tokens without their child counts -/

/-- A token without its child count. -/
def JsonToken.bare (t : JsonToken) : JsonToken := { t with childCount := 0 }

@[simp] theorem bare_type (t : JsonToken) : t.bare.type = t.type := rfl

@[simp] theorem bare_parent (t : JsonToken) : t.bare.parent = t.parent := rfl

@[simp] theorem bare_text (json : Bytes) (t : JsonToken) : t.bare.text json = t.text json := rfl

/-- The table without its child counts. -/
def bare (tokens : List JsonToken) : List JsonToken := tokens.map JsonToken.bare

@[simp] theorem length_bare (tokens : List JsonToken) : (bare tokens).length = tokens.length :=
  List.length_map _

@[simp] theorem bare_append (tokens more : List JsonToken) :
    bare (tokens ++ more) = bare tokens ++ bare more :=
  List.map_append

theorem bare_modify {tokens : List JsonToken} {i : Nat} {f g : JsonToken → JsonToken}
    (hf : ∀ t, (f t).bare = g t.bare) :
    bare (tokens.modify i f) = (bare tokens).modify i g := by
  unfold bare
  induction tokens generalizing i with
  | nil => simp
  | cons t tokens ih =>
      cases i with
      | zero => simp [hf]
      | succ i => simp [ih]

@[simp] theorem bare_countChild (parent : Int) (tokens : List JsonToken) :
    bare (countChild parent tokens) = bare tokens := by
  unfold countChild
  split
  · have hbare : ∀ t : JsonToken,
        ({ t with childCount := t.childCount + 1 } : JsonToken).bare = id t.bare := fun _ => rfl
    rw [bare_modify hbare, List.modify_id]
  · rfl

@[simp] theorem length_countChild (parent : Int) (tokens : List JsonToken) :
    (countChild parent tokens).length = tokens.length := by
  rw [← length_bare, bare_countChild, length_bare]

/-- Ending the token after `front` leaves the others. -/
theorem bare_closed {tokens front rest : List JsonToken} {token : JsonToken} (stop : Nat)
    (h : bare tokens = front ++ token :: rest) :
    bare (tokens.modify front.length fun t => { t with stop }) =
      front ++ { token with stop } :: rest := by
  rw [bare_modify (g := fun t : JsonToken => { t with stop }) fun _ => rfl, h]
  clear h
  induction front with
  | nil => rfl
  | cons t front ih => simpa using ih

/-! ## The duplicate key check -/

/-- Counting a class along a list numbers its members in the filtered list. -/
theorem exists_ordinal_iff {α : Type} (p : α → Bool) (Q : Nat → α → Prop) (xs : List α) :
    (∃ i x, xs[i]? = some x ∧ p x = true ∧ Q ((xs.take (i + 1)).countP p) x) ↔
      ∃ i x, (xs.filter p)[i]? = some x ∧ Q (i + 1) x := by
  induction xs generalizing Q with
  | nil => simp
  | cons y xs ih =>
      by_cases hy : p y = true
      · have hrest := ih fun n x => Q (n + 1) x
        constructor
        · rintro ⟨i, x, hx, hp, hq⟩
          cases i with
          | zero => exact ⟨0, x, by simpa [hy] using hx, by simpa [hy] using hq⟩
          | succ i =>
              obtain ⟨j, z, hz, hqz⟩ := hrest.mp ⟨i, x, by simpa using hx, hp, by
                simpa [hy] using hq⟩
              exact ⟨j + 1, z, by simpa [hy] using hz, hqz⟩
        · rintro ⟨i, x, hx, hq⟩
          cases i with
          | zero =>
              obtain rfl : y = x := by simpa [hy] using hx
              exact ⟨0, y, rfl, hy, by simpa [hy] using hq⟩
          | succ i =>
              obtain ⟨j, z, hz, hp, hqz⟩ := hrest.mpr ⟨i, x, by simpa [hy] using hx, hq⟩
              exact ⟨j + 1, z, by simpa using hz, hp, by simpa [hy] using hqz⟩
      · have hrest := ih Q
        rw [List.filter_cons_of_neg hy, ← hrest]
        constructor
        · rintro ⟨i, x, hx, hp, hq⟩
          cases i with
          | zero =>
              obtain rfl : y = x := by simpa using hx
              exact absurd hp hy
          | succ i => exact ⟨i, x, by simpa using hx, hp, by simpa [hy] using hq⟩
        · rintro ⟨i, x, hx, hp, hq⟩
          exact ⟨i + 1, x, by simpa using hx, hp, by simpa [hy] using hq⟩

/-- Keys and values in turn. -/
def alternate (members : List (JsonToken × JsonToken)) : List JsonToken :=
  members.flatMap fun member => [member.1, member.2]

/-- The odd places of the alternating list are its keys. -/
theorem exists_odd_iff {members : List (JsonToken × JsonToken)} {Q : JsonToken → Prop} :
    (∃ i t, (alternate members)[i]? = some t ∧ (i + 1) % 2 = 1 ∧ Q t) ↔
      ∃ member ∈ members, Q member.1 := by
  induction members with
  | nil => simp [alternate]
  | cons member members ih =>
      have hcons : alternate (member :: members) = member.1 :: member.2 :: alternate members := rfl
      rw [hcons]
      constructor
      · rintro ⟨i, t, ht, hodd, hq⟩
        match i with
        | 0 =>
            obtain rfl : member.1 = t := by simpa using ht
            exact ⟨member, by simp, hq⟩
        | 1 => omega
        | i + 2 =>
            obtain ⟨other, hother, hq⟩ := ih.mp ⟨i, t, by simpa using ht, by omega, hq⟩
            exact ⟨other, by simp [hother], hq⟩
      · rintro ⟨other, hother, hq⟩
        rcases List.mem_cons.mp hother with rfl | hother
        · exact ⟨0, other.1, rfl, rfl, hq⟩
        · obtain ⟨i, t, ht, hodd, hq⟩ := ih.mpr ⟨other, hother, hq⟩
          exact ⟨i + 2, t, by simpa using ht, by omega, hq⟩

theorem hasDuplicateObjectKey_bare (json : Bytes) (tokens : List JsonToken) (object key : Nat) :
    hasDuplicateObjectKey json (bare tokens) object key =
      hasDuplicateObjectKey json tokens object key := by
  have hordinal : ∀ i, ordinal (bare tokens) object i = ordinal tokens object i := by
    intro i
    unfold ordinal bare
    rw [← List.map_take, ← List.map_drop, List.countP_map]
    rfl
  have hget : ∀ i, (bare tokens)[i]? = tokens[i]?.map JsonToken.bare := fun i => List.getElem?_map
  unfold hasDuplicateObjectKey
  simp only [hordinal, hget, Option.any_map, bare_type, bare_parent, bare_text]
  rfl

/-- With keys and values alternating under the object, the check compares the newest key with
the keys before it. -/
theorem hasDuplicateObjectKey_iff {json : Bytes} {tokens front inside : List JsonToken}
    {self newest : JsonToken} {members : List (JsonToken × JsonToken)}
    (htokens : bare tokens = front ++ self :: (inside ++ [newest]))
    (hinside : inside.filter (fun t => decide (t.parent = (front.length : Int))) =
      alternate members)
    (hkeys : ∀ member ∈ members, member.1.type = .string) :
    hasDuplicateObjectKey json tokens front.length (front.length + 1 + inside.length) = true ↔
      newest.text json ∈ members.map fun member => member.1.text json := by
  have hnewest : (front ++ self :: (inside ++ [newest]))[front.length + 1 + inside.length]? =
      some newest := by
    rw [List.getElem?_append_right (by omega)]
    have hindex : front.length + 1 + inside.length - front.length = inside.length + 1 := by omega
    simp [hindex]
  have hat : ∀ j < inside.length,
      (front ++ self :: (inside ++ [newest]))[front.length + 1 + j]? = inside[j]? := by
    intro j hj
    rw [List.getElem?_append_right (by omega)]
    have hindex : front.length + 1 + j - front.length = j + 1 := by omega
    rw [hindex, List.getElem?_cons_succ, List.getElem?_append_left hj]
  have hordinal : ∀ j < inside.length,
      ordinal (front ++ self :: (inside ++ [newest])) front.length (front.length + 1 + j) =
        (inside.take (j + 1)).countP fun t => decide (t.parent = (front.length : Int)) := by
    intro j hj
    have hindex : front.length + 1 + j + 1 - (front.length + 1) = j + 1 := by omega
    have hdrop : (front ++ self :: (inside ++ [newest])).drop (front.length + 1) =
        inside ++ [newest] := by
      rw [List.drop_append]
      simp
    unfold ordinal
    rw [List.drop_take, hdrop, hindex, List.take_append_of_le_length (by omega)]
  rw [← hasDuplicateObjectKey_bare, htokens]
  have hcheck : hasDuplicateObjectKey json (front ++ self :: (inside ++ [newest])) front.length
        (front.length + 1 + inside.length) = true ↔
      ∃ j t, inside[j]? = some t ∧ decide (t.parent = (front.length : Int)) = true ∧
        (((inside.take (j + 1)).countP fun t => decide (t.parent = (front.length : Int))) % 2 = 1 ∧
          t.type = .string ∧ t.text json = newest.text json) := by
    unfold hasDuplicateObjectKey
    simp only [hnewest, Option.any_some, List.any_eq_true, List.mem_range, Bool.and_eq_true,
      decide_eq_true_eq, Option.any_eq_true]
    constructor
    · rintro ⟨i, hi, hobject, t, ht, ⟨⟨hparent, htype⟩, hodd⟩, htext⟩
      obtain ⟨j, rfl⟩ : ∃ j, i = front.length + 1 + j := ⟨i - (front.length + 1), by omega⟩
      rw [hat j (by omega)] at ht
      rw [hordinal j (by omega)] at hodd
      exact ⟨j, t, ht, hparent, hodd, htype, htext⟩
    · rintro ⟨j, t, ht, hparent, hodd, htype, htext⟩
      have hj : j < inside.length := (List.getElem?_eq_some_iff.mp ht).1
      refine ⟨front.length + 1 + j, by omega, by omega, t, ?_, ⟨⟨hparent, htype⟩, ?_⟩, htext⟩
      · rw [hat j hj, ht]
      · rw [hordinal j hj]
        exact hodd
  have hnumber := exists_ordinal_iff (fun t => decide (t.parent = (front.length : Int)))
    (fun n t => n % 2 = 1 ∧ t.type = .string ∧ t.text json = newest.text json) inside
  rw [hcheck, hnumber, hinside, exists_odd_iff]
  constructor
  · rintro ⟨member, hmember, -, htext⟩
    exact List.mem_map.mpr ⟨member, hmember, htext⟩
  · intro h
    obtain ⟨member, hmember, htext⟩ := List.mem_map.mp h
    exact ⟨member, hmember, hkeys member hmember, htext⟩

/-! ## What a value adds -/

/-- The table gains a token directly in `parent` and `n - 1` tokens deeper than that. -/
def Grown (parent : Int) (n : Nat) (before after : List JsonToken) : Prop :=
  ∃ first more, bare after = bare before ++ first :: more ∧ first.parent = parent ∧
    (∀ t ∈ more, (before.length : Int) ≤ t.parent) ∧ n = more.length + 1

theorem Grown.length {parent : Int} {n : Nat} {before after : List JsonToken}
    (h : Grown parent n before after) : after.length = before.length + n := by
  obtain ⟨first, more, htokens, -, -, rfl⟩ := h
  have := congrArg List.length htokens
  simpa using this

/-- The table ends in a container and the tokens in it, which are `inside`. -/
def Inside (parent : Int) (front inside tokens : List JsonToken) : Prop :=
  ∃ self, self.parent = parent ∧ bare tokens = front ++ self :: inside ∧
    ∀ t ∈ inside, (front.length : Int) ≤ t.parent

/-- A leaf: one token, ended at once. -/
theorem bare_leaf (type : JsonTokenType) (start stop : Nat) (parent : Int)
    (tokens : List JsonToken) :
    bare ((countChild parent tokens ++ [opened type start parent]).modify tokens.length
        fun t => { t with stop }) =
      bare tokens ++ [{ opened type start parent with stop }] := by
  have hadded : bare (countChild parent tokens ++ [opened type start parent]) =
      bare tokens ++ opened type start parent :: [] := by
    rw [bare_append, bare_countChild]
    rfl
  have := bare_closed stop hadded
  rwa [length_bare] at this

theorem Grown.leaf (type : JsonTokenType) (start stop : Nat) (parent : Int)
    (tokens : List JsonToken) :
    Grown parent 1 tokens
      ((countChild parent tokens ++ [opened type start parent]).modify tokens.length
        fun t => { t with stop }) :=
  ⟨{ opened type start parent with stop }, [], bare_leaf .., rfl, by simp, rfl⟩

/-- A container starts empty. -/
theorem Inside.opened (type : JsonTokenType) (start : Nat) (parent : Int)
    (tokens : List JsonToken) :
    Inside parent (bare tokens) [] (countChild parent tokens ++ [opened type start parent]) :=
  ⟨Json.opened type start parent, rfl, by rw [bare_append, bare_countChild]; rfl, by simp⟩

namespace Inside

variable {parent : Int} {front inside tokens : List JsonToken}

theorem length (h : Inside parent front inside tokens) :
    tokens.length = front.length + 1 + inside.length := by
  obtain ⟨self, -, htokens, -⟩ := h
  have := congrArg List.length htokens
  simp at this
  omega

/-- A value in the container. -/
theorem grow (h : Inside parent front inside tokens) {n : Nat} {after : List JsonToken}
    (hgrown : Grown front.length n tokens after) :
    ∃ first more, Inside parent front (inside ++ first :: more) after ∧
      first.parent = (front.length : Int) ∧ (∀ t ∈ more, (front.length : Int) < t.parent) ∧
      n = more.length + 1 := by
  have hlength := h.length
  obtain ⟨self, hself, htokens, hinside⟩ := h
  obtain ⟨first, more, hafter, hfirst, hmore, rfl⟩ := hgrown
  refine ⟨first, more, ⟨self, hself, ?_, ?_⟩, hfirst, ?_, rfl⟩
  · rw [hafter, htokens]
    simp
  · intro t ht
    rcases List.mem_append.mp ht with ht | ht
    · exact hinside t ht
    · rcases List.mem_cons.mp ht with rfl | ht
      · omega
      · have := hmore t ht
        omega
  · intro t ht
    have := hmore t ht
    omega

/-- A leaf in the container. -/
theorem leaf (h : Inside parent front inside tokens) (type : JsonTokenType)
    (start stop : Nat) :
    Inside parent front (inside ++ [{ Json.opened type start front.length with stop }])
      ((countChild front.length tokens ++ [Json.opened type start front.length]).modify
        tokens.length fun t => { t with stop }) := by
  obtain ⟨self, hself, htokens, hinside⟩ := h
  refine ⟨self, hself, by rw [bare_leaf, htokens]; simp, ?_⟩
  intro t ht
  rcases List.mem_append.mp ht with ht | ht
  · exact hinside t ht
  · rw [List.mem_singleton.mp ht]
    exact le_refl _

/-- The end of the container. -/
theorem close (h : Inside parent front inside tokens) (stop : Nat) :
    Inside parent front inside (tokens.modify front.length fun t => { t with stop }) := by
  obtain ⟨self, hself, htokens, hinside⟩ := h
  exact ⟨{ self with stop }, hself, bare_closed stop htokens, hinside⟩

/-- A container that has ended is a value of its parent. -/
theorem grown {before : List JsonToken} (h : Inside parent (bare before) inside tokens) :
    Grown parent (inside.length + 1) before tokens := by
  obtain ⟨self, hself, htokens, hinside⟩ := h
  exact ⟨self, inside, htokens, hself, by simpa using hinside, rfl⟩

end Inside

/-- The members of an object so far: keys and values in turn, and the texts of the keys. -/
def Keyed (json : Bytes) (object : Nat) (inside : List JsonToken) (keys : List Bytes) : Prop :=
  ∃ members, inside.filter (fun t => decide (t.parent = (object : Int))) = alternate members ∧
    (∀ member ∈ members, member.1.type = .string) ∧
    members.map (fun member => member.1.text json) = keys

theorem Keyed.nil (json : Bytes) (object : Nat) : Keyed json object [] [] :=
  ⟨[], rfl, by simp, rfl⟩

/-- One more member. -/
theorem Keyed.snoc {json : Bytes} {object : Nat} {inside more : List JsonToken}
    {keys : List Bytes} {key first : JsonToken} (h : Keyed json object inside keys)
    (hkey : key.parent = (object : Int)) (htype : key.type = .string)
    (hfirst : first.parent = (object : Int)) (hmore : ∀ t ∈ more, (object : Int) < t.parent) :
    Keyed json object (inside ++ key :: first :: more) (keys ++ [key.text json]) := by
  obtain ⟨members, hmembers, htypes, rfl⟩ := h
  have hdeeper : more.filter (fun t => decide (t.parent = (object : Int))) = [] := by
    apply List.filter_eq_nil_iff.mpr
    intro t ht
    have := hmore t ht
    simp only [decide_eq_true_eq]
    omega
  refine ⟨members ++ [(key, first)], ?_, ?_, by simp⟩
  · simp [List.filter_append, hmembers, hkey, hfirst, hdeeper, alternate]
  · intro member hmember
    rcases List.mem_append.mp hmember with hmember | hmember
    · exact htypes member hmember
    · obtain rfl := List.mem_singleton.mp hmember
      exact htype

/-- The duplicate key check compares with the keys of the members so far. -/
theorem Keyed.duplicate_iff {json : Bytes} {parent : Int} {front inside tokens : List JsonToken}
    {keys : List Bytes} {newest : JsonToken} (h : Keyed json front.length inside keys)
    (htokens : Inside parent front (inside ++ [newest]) tokens) :
    hasDuplicateObjectKey json tokens front.length (tokens.length - 1) = true ↔
      newest.text json ∈ keys := by
  have hlength := htokens.length
  obtain ⟨members, hmembers, htypes, rfl⟩ := h
  obtain ⟨self, -, htokens, -⟩ := htokens
  have hindex : tokens.length - 1 = front.length + 1 + inside.length := by
    simp at hlength
    omega
  rw [hindex]
  exact hasDuplicateObjectKey_iff htokens hmembers htypes

/-- The bytes between two positions. -/
theorem text_between {json k r : Bytes} (h : (k ++ r) <:+ json) {t : JsonToken}
    (hstart : t.start = offset json (k ++ r)) (hstop : t.stop = offset json r) :
    t.text json = k := by
  obtain ⟨p, rfl⟩ := h
  have hfront : offset (p ++ (k ++ r)) (k ++ r) = p.length := by
    simp [offset]
  have hend : offset (p ++ (k ++ r)) r = p.length + k.length := by
    simp [offset]
    omega
  unfold JsonToken.text slice
  rw [hstart, hstop, hfront, hend]
  simp

/-- The token of a key that was read between two positions. -/
def keyToken (json k r : Bytes) (object : Nat) : JsonToken :=
  { opened .string (offset json (k ++ r)) object with stop := offset json r }

theorem keyToken_text {json k r : Bytes} (h : (k ++ r) <:+ json) (object : Nat) :
    (keyToken json k r object).text json = k :=
  text_between h rfl rfl

/-- The check right after a key of the object has been read. -/
theorem Keyed.duplicate_key_iff {json k r : Bytes} {parent : Int}
    {front inside tokens : List JsonToken} {keys : List Bytes}
    (h : Keyed json front.length inside keys) (hinside : Inside parent front inside tokens)
    (hsuffix : (k ++ r) <:+ json) :
    hasDuplicateObjectKey json
        ((countChild front.length tokens ++
            [opened .string (offset json (k ++ r)) front.length]).modify tokens.length
          fun t => { t with stop := offset json r })
        front.length tokens.length = true ↔ k ∈ keys := by
  have hkey := hinside.leaf .string (offset json (k ++ r)) (offset json r)
  have hcheck := h.duplicate_iff hkey
  have htext := keyToken_text hsuffix front.length
  unfold keyToken at htext
  simp only [List.length_modify, List.length_append, length_countChild, List.length_singleton,
    Nat.add_sub_cancel, htext] at hcheck
  exact hcheck

end Json

end BmxUpdate
