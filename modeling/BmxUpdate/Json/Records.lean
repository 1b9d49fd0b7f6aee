import BmxUpdate.Json.Copy
import BmxUpdate.Json.TreeReader

/-!
# Records written as trees

Texts, numbers, lists and records of named fields as trees that the parsers of the signed
documents read back: `quoted` escapes what a string may not hold, `numeral` is the decimal
text of a number, `record` gives each field its value.
-/

namespace BmxUpdate

namespace Json

open Wire Http JsonGrammar JsonGrammar.Tree

/-! ## What is read of a tree -/

theorem copyText_length {raw value : Bytes} {size : Nat} (h : copyText raw size = some value) :
    value.length < size := by
  unfold copyText at h
  split at h
  · cases h
  · next hsize =>
      obtain ⟨output, hcopy, rfl⟩ := Option.map_eq_some_iff.mp h
      have hlength := length_copyLoop (Nat.pos_of_ne_zero hsize) (eq_ok_of_toOption hcopy)
      exact (List.takeWhile_prefix _).length_le.trans_lt hlength

theorem numberText_bounds {raw : Bytes} {minimum maximum value : Nat}
    (h : numberText raw minimum maximum = some value) : minimum ≤ value ∧ value ≤ maximum := by
  unfold numberText at h
  split at h
  · cases h
  · obtain ⟨found, -, h⟩ := Option.bind_eq_some_iff.mp h
    split at h
    · cases h
    · next hbounds =>
        cases h
        omega

theorem treeReader_lawful : treeReader.Lawful where
  copyString := by
    intro i size value h
    match i, h with
    | some (.string raw), h => exact copyText_length h
  uint64 := by
    intro i minimum maximum value h
    match i, h with
    | some (.number raw), h => exact numberText_bounds h

/-! ## Texts -/

/-- ASCII that a text of a signed document may hold. -/
def PlainText (s : Bytes) : Prop := ∀ c ∈ s, 0x20 ≤ c.toNat ∧ c.toNat ≤ 0x7e

/-- A byte as it stands in a string; the quote and the backslash are escaped by their code. -/
def escaped (c : UInt8) : Bytes :=
  if c = 0x22 then [0x5c, 0x75, 0x30, 0x30, 0x32, 0x32]
  else if c = 0x5c then [0x5c, 0x75, 0x30, 0x30, 0x35, 0x63]
  else [c]

def quoted (s : Bytes) : Tree := .string (s.flatMap escaped)

theorem PlainText.cons {c : UInt8} {s : Bytes} (h : PlainText (c :: s)) :
    (0x20 ≤ c.toNat ∧ c.toNat ≤ 0x7e) ∧ PlainText s :=
  ⟨h c List.mem_cons_self, fun d hd => h d (List.mem_cons_of_mem _ hd)⟩

theorem PlainText.append {s t : Bytes} (hs : PlainText s) (ht : PlainText t) :
    PlainText (s ++ t) := fun c hc => (List.mem_append.mp hc).elim (hs c) (ht c)

theorem decodeNext_escaped (c : UInt8) (rest : Bytes) :
    decodeNext (escaped c ++ rest) = some ([c], rest) := by
  unfold escaped
  split
  · next h =>
      subst h
      rfl
  · split
    · next h =>
        subst h
        rfl
    · next h =>
        show decodeNext (c :: rest) = _
        simp [decodeNext, h]

theorem copyLoop_escaped {size : Nat} : ∀ {s : Bytes} {fuel : Nat} {output : Bytes},
    (s.flatMap escaped).length ≤ fuel → output.length + s.length < size →
      copyLoop size fuel (s.flatMap escaped) output = .ok (output ++ s)
  | [], fuel, output, _, _ => by
      rw [List.append_nil]
      cases fuel <;> rfl
  | c :: s, fuel, output, hfuel, hroom => by
      have hpos : 0 < (escaped c).length := by
        unfold escaped
        split <;> [skip; split] <;> simp
      rw [List.flatMap_cons, List.length_append] at hfuel
      rw [List.length_cons] at hroom
      obtain ⟨fuel, rfl⟩ := Nat.exists_eq_add_one_of_ne_zero (show fuel ≠ 0 by omega)
      rw [List.flatMap_cons, copyLoop_step (decodeNext_escaped c _), List.length_singleton,
        if_neg (by omega), copyLoop_escaped (by omega) (by simp; omega), List.append_assoc,
        List.singleton_append]

/-- A printable text that fits is read back. -/
theorem copyString_quoted {s : Bytes} {size : Nat} (hs : PlainText s) (hsize : s.length < size) :
    treeReader.copyString (some (quoted s)) size = some s := by
  show copyText (s.flatMap escaped) size = some s
  unfold copyText
  rw [if_neg (by omega), copyLoop_escaped (Nat.le_refl _) (by simpa using hsize), List.nil_append]
  show some (s.takeWhile (· ≠ 0)) = some s
  rw [List.takeWhile_eq_self_iff.mpr]
  intro c hc
  have hlow := (hs c hc).1
  rw [decide_eq_true_eq]
  intro hzero
  rw [hzero] at hlow
  exact absurd hlow (by decide)

theorem isText_escaped {c : UInt8} (hc : 0x20 ≤ c.toNat ∧ c.toNat ≤ 0x7e) {rest : Bytes}
    (hrest : isText rest = true) : isText (escaped c ++ rest) = true := by
  unfold escaped
  split
  · exact hrest
  · split
    · exact hrest
    · next hquote hslash =>
        show isText (c :: rest) = true
        rw [isText]
        · simp only [Bool.and_eq_true, decide_eq_true_eq]
          exact ⟨⟨hc.1, by omega, hquote, hslash⟩, hrest⟩
        · intro _ _ _ h _
          exact hslash h

theorem isText_quoted {s : Bytes} (hs : PlainText s) : isText (s.flatMap escaped) = true := by
  induction s with
  | nil => rfl
  | cons c s ih =>
      rw [List.flatMap_cons]
      exact isText_escaped hs.cons.1 (ih hs.cons.2)

theorem wellFormed_quoted {s : Bytes} {levels : Nat} (hs : PlainText s) :
    (quoted s).wellFormed (levels + 1) = true := by
  simp [quoted, wellFormed, isText_quoted hs]

/-! ## Numbers -/

def numeral (n : Nat) : Tree := .number (decimal n)

theorem digit_facts {d : Nat} (hd : d < 10) :
    (UInt8.ofNat d.digitChar.toNat).toNat = 0x30 + d ∧
      ¬ (UInt8.ofNat d.digitChar.toNat < 0x30 ∨ 0x39 < UInt8.ofNat d.digitChar.toNat) := by
  have h : ∀ d < 10, (UInt8.ofNat d.digitChar.toNat).toNat = 0x30 + d ∧
      ¬ (UInt8.ofNat d.digitChar.toNat < 0x30 ∨ 0x39 < UInt8.ofNat d.digitChar.toNat) := by decide
  exact h d hd

theorem decimal_of_lt {n : Nat} (hn : n < 10) : decimal n = [UInt8.ofNat n.digitChar.toNat] := by
  unfold decimal
  rw [Nat.toDigits_of_lt_base hn]
  rfl

theorem decimal_of_le {n : Nat} (hn : 10 ≤ n) :
    decimal n = decimal (n / 10) ++ [UInt8.ofNat (n % 10).digitChar.toNat] := by
  unfold decimal
  rw [Nat.toDigits_of_base_le (by decide) hn, List.map_append]
  rfl

/-- The loop over the digits of a number, and on. -/
theorem digitsValue_decimal {n : Nat} (hn : n < 2 ^ 64) (rest : Bytes) :
    digitsValue 0 (decimal n ++ rest) = digitsValue n rest := by
  induction n using Nat.strongRecOn generalizing rest with
  | _ n ih =>
      obtain ⟨hvalue, hdigit⟩ := digit_facts (Nat.mod_lt n (by decide))
      by_cases hsmall : n < 10
      · obtain ⟨hvalue, hdigit⟩ := digit_facts hsmall
        rw [decimal_of_lt hsmall, List.singleton_append, digitsValue, if_neg hdigit, hvalue,
          if_neg (by omega)]
        congr 1
        omega
      · rw [decimal_of_le (Nat.not_lt.mp hsmall), List.append_assoc, List.singleton_append,
          ih (n / 10) (by omega) (by omega), digitsValue, if_neg hdigit, hvalue, if_neg (by omega)]
        congr 1
        omega

/-- A number within its bounds is read back. -/
theorem uint64_numeral {n minimum maximum : Nat} (hn : n < 2 ^ 64) (hlow : minimum ≤ n)
    (hhigh : n ≤ maximum) : treeReader.uint64 (some (numeral n)) minimum maximum = some n := by
  have hdigits := digitsValue_decimal hn []
  rw [List.append_nil] at hdigits
  have hne : decimal n ≠ [] := by
    by_cases hsmall : n < 10
    · rw [decimal_of_lt hsmall]
      simp
    · rw [decimal_of_le (Nat.not_lt.mp hsmall)]
      simp
  show numberText (decimal n) minimum maximum = some n
  unfold numberText
  rw [if_neg hne, hdigits]
  show (if n < minimum ∨ maximum < n then none else some n) = some n
  rw [if_neg (by omega)]

theorem isDigit_ofNat {d : Nat} (hd : d < 10) : IsDigit (UInt8.ofNat d.digitChar.toNat) := by
  obtain ⟨hvalue, -⟩ := digit_facts hd
  unfold IsDigit
  omega

/-- The first digit of a number that is not 0 is not 0. -/
theorem decimal_head {n : Nat} (hn : 0 < n) :
    ∃ c rest, decimal n = c :: rest ∧ c ≠ 0x30 ∧ ∀ d ∈ c :: rest, IsDigit d := by
  induction n using Nat.strongRecOn with
  | _ n ih =>
      by_cases hsmall : n < 10
      · refine ⟨_, [], decimal_of_lt hsmall, ?_, ?_⟩
        · intro hzero
          have hvalue := (digit_facts hsmall).1
          rw [hzero, show (0x30 : UInt8).toNat = 0x30 from rfl] at hvalue
          omega
        · intro d hd
          rw [List.mem_singleton.mp hd]
          exact isDigit_ofNat hsmall
      · obtain ⟨c, rest, hdecimal, hc, hdigits⟩ := ih (n / 10) (by omega) (by omega)
        refine ⟨c, rest ++ [UInt8.ofNat (n % 10).digitChar.toNat], ?_, hc, ?_⟩
        · rw [decimal_of_le (Nat.not_lt.mp hsmall), hdecimal, List.cons_append]
        · intro d hd
          rw [← List.cons_append] at hd
          rcases List.mem_append.mp hd with hd | hd
          · exact hdigits d hd
          · rw [List.mem_singleton.mp hd]
            exact isDigit_ofNat (Nat.mod_lt n (by decide))

theorem isNumeral_decimal (n : Nat) : isNumeral (decimal n) = true := by
  rcases Nat.eq_zero_or_pos n with rfl | hn
  · decide
  · obtain ⟨c, rest, hdecimal, hc, hdigits⟩ := decimal_head hn
    rw [hdecimal]
    simp only [isNumeral, Bool.and_eq_true, Bool.or_eq_true, decide_eq_true_eq, List.all_eq_true]
    exact ⟨⟨hdigits c List.mem_cons_self, .inr hc⟩,
      fun d hd => hdigits d (List.mem_cons_of_mem _ hd)⟩

theorem wellFormed_numeral {n levels : Nat} : (numeral n).wellFormed (levels + 1) = true := by
  simp [numeral, wellFormed, isNumeral_decimal]

/-! ## Lists -/

theorem elements_array (ts : List Tree) : treeReader.elements (some (.array ts)) = ts.map some := by
  show (List.range ts.length).map (fun n => ts[n]?) = ts.map some
  refine List.ext_getElem (by simp) fun n hn _ => ?_
  rw [List.length_map, List.length_range] at hn
  simp [List.getElem?_eq_getElem hn]

theorem wellFormed_array {ts : List Tree} {levels : Nat}
    (h : ∀ t ∈ ts, t.wellFormed levels = true) : (Tree.array ts).wellFormed (levels + 1) = true := by
  have hall : ∀ us : List Tree, (∀ t ∈ us, t.wellFormed levels = true) →
      wellFormedElements levels us = true := by
    intro us
    induction us with
    | nil => intro _; rfl
    | cons u us ih =>
        intro hus
        rw [wellFormedElements, hus u List.mem_cons_self,
          ih fun t ht => hus t (List.mem_cons_of_mem _ ht)]
        rfl
  simp [wellFormed, hall ts h]

/-- What each element of a list is read as, when each is written as `f` says. -/
theorem reads_array {α : Type} {reads : Option Tree → α → Prop} {f : α → Tree} {as : List α}
    (h : ∀ a ∈ as, reads (some (f a)) a) :
    List.Forall₂ reads (treeReader.elements (some (.array (as.map f)))) as := by
  rw [elements_array, List.map_map, List.forall₂_map_left_iff, List.forall₂_same]
  exact h

/-! ## Records -/

/-- An object with a value for each field. -/
def record (fields : List String) (values : List Tree) : Tree :=
  .object ((fields.map bytesOf).zip values)

theorem keys_record {fields : List String} {values : List Tree}
    (hlength : values.length = fields.length) :
    ((fields.map bytesOf).zip values).map Prod.fst = fields.map bytesOf :=
  List.map_fst_zip (by simp [hlength])

/-- Field names that can be written as they stand, each once. -/
def Keys (fields : List String) : Prop :=
  (fields.map bytesOf).Nodup ∧ (fields.all fun field => isKey (bytesOf field)) = true

instance decidableKeys (fields : List String) : Decidable (Keys fields) :=
  inferInstanceAs (Decidable (_ ∧ _))

theorem find_zip {keys : List Bytes} {values : List Tree} {key : Bytes} {i : Nat}
    (hnodup : keys.Nodup) (hkey : keys[i]? = some key) :
    ((keys.zip values).find? fun m => decide (m.1 = key)).map (·.2) = values[i]? := by
  induction keys generalizing values i with
  | nil => cases hkey
  | cons k keys ih =>
      rw [List.nodup_cons] at hnodup
      cases values with
      | nil => rfl
      | cons v values =>
          rw [List.zip_cons_cons, List.find?_cons]
          cases i with
          | zero =>
              obtain rfl : k = key := Option.some.inj hkey
              rw [decide_eq_true rfl]
              rfl
          | succ i =>
              rw [List.getElem?_cons_succ] at hkey
              have hk : k ≠ key := fun h => hnodup.1 (h ▸ List.mem_of_getElem? hkey)
              rw [decide_eq_false hk]
              exact ih hnodup.2 hkey

/-- The value of a field. -/
theorem member_record {fields : List String} {values : List Tree} {name : String} {i : Nat}
    (hkeys : Keys fields) (hname : fields[i]? = some name) :
    treeReader.member (some (record fields values)) name = values[i]? :=
  find_zip hkeys.1 (by rw [List.getElem?_map, hname, Option.map_some])

theorem exactObject_record {fields : List String} {values : List Tree}
    (hlength : values.length = fields.length) :
    treeReader.exactObject (some (record fields values)) fields = true := by
  have hkeys := keys_record hlength
  show (decide (((fields.map bytesOf).zip values).length = fields.length) &&
    (((fields.map bytesOf).zip values).all fun m =>
      fields.any fun field => decide (m.1 = bytesOf field)) &&
    fields.all fun field =>
      (memberNamed ((fields.map bytesOf).zip values) field).isSome) = true
  simp only [Bool.and_eq_true, decide_eq_true_eq, List.all_eq_true, List.any_eq_true]
  refine ⟨⟨by simp [hlength], fun m hm => ?_⟩, fun field hfield => ?_⟩
  · have hkey : m.1 ∈ fields.map bytesOf := hkeys ▸ List.mem_map_of_mem hm
    obtain ⟨field, hfield, heq⟩ := List.mem_map.mp hkey
    exact ⟨field, hfield, heq.symm⟩
  · have hmem : bytesOf field ∈ ((fields.map bytesOf).zip values).map Prod.fst := by
      rw [hkeys]
      exact List.mem_map_of_mem hfield
    obtain ⟨m, hm, hkey⟩ := List.mem_map.mp hmem
    unfold memberNamed
    rw [Option.isSome_map, List.find?_isSome]
    exact ⟨m, hm, decide_eq_true hkey⟩

theorem wellFormed_record {fields : List String} {values : List Tree} {levels : Nat}
    (hkeys : Keys fields) (hlength : values.length = fields.length)
    (hvalues : ∀ t ∈ values, t.wellFormed levels = true) :
    (record fields values).wellFormed (levels + 1) = true := by
  have hall : ∀ ms : List (Bytes × Tree), (∀ m ∈ ms, isKey m.1 = true ∧
      m.2.wellFormed levels = true) → wellFormedMembers levels ms = true := by
    intro ms
    induction ms with
    | nil => intro _; rfl
    | cons m ms ih =>
        intro hms
        obtain ⟨k, t⟩ := m
        have hm := hms (k, t) List.mem_cons_self
        rw [wellFormedMembers, hm.1, hm.2, ih fun m hm => hms m (List.mem_cons_of_mem _ hm)]
        rfl
  have hmembers := hall ((fields.map bytesOf).zip values) fun m hm => by
    obtain ⟨hkey, hvalue⟩ := List.of_mem_zip hm
    obtain ⟨field, hfield, heq⟩ := List.mem_map.mp hkey
    exact ⟨heq ▸ List.all_eq_true.mp hkeys.2 field hfield, hvalues m.2 hvalue⟩
  unfold record wellFormed
  rw [keys_record hlength]
  simp [hmembers, hkeys.1]

end Json

end BmxUpdate
