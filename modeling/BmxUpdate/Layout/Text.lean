import BmxUpdate.FatPathPolicy
import Mathlib.Data.Char
import Mathlib.Data.List.Lex

/-!
# Paths as text

The host tools hold a path as text, a list of characters.  The string operations they
use, and `validate_fat_path` (`sd_layout.py`).  The device holds bytes: `Spells` says
which text a path is, and `fatPathValid_iff` that both apply one grammar.
-/

namespace BmxUpdate

namespace Layout

open Wire FatPath

abbrev Text := List Char

/-! ## Operations on text -/

/-- `text.split(separator, 1)[0]` -/
def headPart (separator : Char) (text : Text) : Text := text.takeWhile (· ≠ separator)

/-- `text.rsplit(separator, 1)[-1]` -/
def lastPart (separator : Char) (text : Text) : Text :=
  (text.reverse.takeWhile (· ≠ separator)).reverse

/-- White space, among the ASCII characters. -/
def isSpace (c : Char) : Bool :=
  (9 ≤ c.toNat && c.toNat ≤ 13) || (28 ≤ c.toNat && c.toNat ≤ 32)

/-- `text.strip()` of ASCII text -/
def strip (text : Text) : Text :=
  ((text.dropWhile isSpace).reverse.dropWhile isSpace).reverse

/-- `text.upper()` of ASCII text -/
def upper (text : Text) : Text := text.map Char.toUpper

/-! ## `validate_fat_path` -/

def fatForbidden : Text := "\"*:<>?\\|".toList

/-- A device name with a number. -/
def numbered (name : String) : List Text :=
  (List.range' 1 9).map fun number => name.toList ++ [number.digitChar]

def fatReserved : List Text :=
  ["CON", "PRN", "AUX", "NUL"].map String.toList ++ numbered "COM" ++ numbered "LPT"

/-- The test of a character in `_fat_path`. -/
def unsafeChar (c : Char) : Bool := c.toNat < 0x20 || 0x7e < c.toNat || c ∈ fatForbidden

/-- The test of a component in `_fat_path`. -/
def unsafeComponent (component : Text) : Bool :=
  component ∈ [[], ['.'], ['.', '.']] || component ≠ strip component ||
    component.getLast? = some '.' || 255 < component.length ||
    upper (headPart '.' component) ∈ fatReserved

/-- Whether `_fat_path` returns the text. -/
def fatPathValid (maximumBytes : Nat) (text : Text) : Bool :=
  if text = [] then false
  else if ¬ text.all (·.toNat < 0x80) then false
  else if maximumBytes < text.length ∨ text.head? = some '/' ∨ text.getLast? = some '/' ∨
      text.any unsafeChar then false
  else !(text.splitOn '/').any unsafeComponent

/-- `validate_fat_path` -/
def validateFatPath (text : Text) : Option Text :=
  if fatPathValid 240 text then some text else none

/-! ## The text of a path -/

def toChar (b : UInt8) : Char := Char.ofNat b.toNat

/-- The text of a path: ASCII bytes are their characters, and other bytes leave some
other character, however they are decoded. -/
structure Spells (path : Bytes) (text : Text) : Prop where
  ascii : (∀ b ∈ path, b.toNat < 0x80) → text = path.map toChar
  other : (∃ b ∈ path, 0x80 ≤ b.toNat) → ∃ c ∈ text, 0x80 ≤ c.toNat

@[simp] theorem toNat_toChar (b : UInt8) : (toChar b).toNat = b.toNat := by
  have hb := b.toNat_lt
  have hvalid : b.toNat.isValidChar := Or.inl (by omega)
  unfold toChar Char.ofNat
  rw [dif_pos hvalid]
  rfl

theorem toChar_inj {a b : UInt8} (h : toChar a = toChar b) : a = b := by
  have hnat := congrArg Char.toNat h
  rw [toNat_toChar, toNat_toChar] at hnat
  exact UInt8.toNat_inj.mp hnat

theorem toChar_injective : Function.Injective toChar := fun _ _ => toChar_inj

/-! ## Splitting -/

section Split

variable {α β : Type} [BEq α] [LawfulBEq α] [BEq β] [LawfulBEq β]

theorem splitOn_map {f : α → β} {a : α} (hf : ∀ x, f x = f a → x = a) (xs : List α) :
    (xs.map f).splitOn (f a) = (xs.splitOn a).map (List.map f) := by
  induction xs with
  | nil => simp
  | cons x xs ih =>
      rw [List.map_cons, List.splitOn_cons_eq_if_modifyHead, List.splitOn_cons_eq_if_modifyHead, ih]
      obtain ⟨part, parts, hparts⟩ := List.exists_cons_of_ne_nil (List.splitOn_ne_nil a xs)
      by_cases hx : x = a
      · simp [hx]
      · have hfx : f x ≠ f a := fun h => hx (hf x h)
        simp [hx, hfx, hparts]

theorem mem_of_mem_splitOn {a x : α} {part : List α} :
    ∀ {xs : List α}, part ∈ xs.splitOn a → x ∈ part → x ∈ xs ∧ x ≠ a := by
  intro xs
  induction xs generalizing part with
  | nil =>
      intro hpart hx
      rw [List.splitOn_nil, List.mem_singleton] at hpart
      rw [hpart] at hx
      cases hx
  | cons y ys ih =>
      intro hpart hx
      rw [List.splitOn_cons_eq_if_modifyHead] at hpart
      split at hpart
      · rcases List.mem_cons.mp hpart with rfl | hpart
        · cases hx
        · exact ⟨List.mem_cons_of_mem _ (ih hpart hx).1, (ih hpart hx).2⟩
      · next hy =>
          obtain ⟨first, parts, hparts⟩ := List.exists_cons_of_ne_nil (List.splitOn_ne_nil a ys)
          rw [hparts, List.modifyHead_cons] at hpart
          rw [hparts] at ih
          rcases List.mem_cons.mp hpart with rfl | hpart
          · rcases List.mem_cons.mp hx with rfl | hx
            · exact ⟨by simp, by simpa using hy⟩
            · have := ih List.mem_cons_self hx
              exact ⟨List.mem_cons_of_mem _ this.1, this.2⟩
          · have := ih (List.mem_cons_of_mem _ hpart) hx
            exact ⟨List.mem_cons_of_mem _ this.1, this.2⟩

end Split

/-- What `strip` leaves alone. -/
theorem eq_strip_iff {text : Text} :
    text = strip text ↔ text.head?.all (!isSpace ·) = true ∧ text.getLast?.all (!isSpace ·) = true := by
  unfold strip
  constructor
  · intro h
    have hdrop : text.dropWhile isSpace = text := by
      have hsuffix := List.dropWhile_suffix isSpace (l := text)
      apply hsuffix.eq_of_length_le
      have hle : ((text.dropWhile isSpace).reverse.dropWhile isSpace).reverse.length ≤
          (text.dropWhile isSpace).length := by
        rw [List.length_reverse]
        simpa using (List.dropWhile_suffix isSpace (l := (text.dropWhile isSpace).reverse)).length_le
      rwa [← h] at hle
    rw [hdrop] at h
    have hdrop' : text.reverse.dropWhile isSpace = text.reverse := by
      rw [← List.reverse_inj, List.reverse_reverse]
      exact h.symm
    constructor
    · cases text with
      | nil => rfl
      | cons c rest =>
          have := List.dropWhile_eq_self_iff.mp hdrop (by simp)
          simpa using this
    · rw [← List.head?_reverse]
      cases hrev : text.reverse with
      | nil => rfl
      | cons c rest =>
          rw [hrev] at hdrop'
          have := List.dropWhile_eq_self_iff.mp hdrop' (by simp)
          simpa using this
  · intro h
    obtain ⟨hhead, hlast⟩ := h
    have hdrop : text.dropWhile isSpace = text := by
      cases text with
      | nil => rfl
      | cons c rest => rw [List.dropWhile_cons_of_neg (by simpa using hhead)]
    rw [← List.head?_reverse] at hlast
    have hdrop' : text.reverse.dropWhile isSpace = text.reverse := by
      cases hrev : text.reverse with
      | nil => rfl
      | cons c rest =>
          rw [hrev] at hlast
          rw [List.dropWhile_cons_of_neg (by simpa using hlast)]
    rw [hdrop, hdrop', List.reverse_reverse]

/-! ## One grammar -/

theorem headPart_map (b : UInt8) (path : Bytes) :
    headPart (toChar b) (path.map toChar) = (path.takeWhile (· ≠ b)).map toChar := by
  unfold headPart
  rw [List.takeWhile_map]
  congr 2
  funext c
  simp [toChar_injective.eq_iff]

theorem lastPart_map (b : UInt8) (path : Bytes) :
    lastPart (toChar b) (path.map toChar) =
      ((path.reverse.takeWhile (· ≠ b)).reverse).map toChar := by
  unfold lastPart
  rw [← List.map_reverse, List.takeWhile_map, ← List.map_reverse]
  congr 3
  funext c
  simp [toChar_injective.eq_iff]

/-- A capital letter or a digit. -/
def PlainByte (e : UInt8) : Prop :=
  (0x30 ≤ e.toNat ∧ e.toNat ≤ 0x39) ∨ (0x41 ≤ e.toNat ∧ e.toNat ≤ 0x5a)

instance (e : UInt8) : Decidable (PlainByte e) :=
  inferInstanceAs (Decidable (_ ∨ _))

theorem toNat_asciiLower (v : UInt8) :
    (asciiLower v).toNat = if 0x41 ≤ v.toNat ∧ v.toNat ≤ 0x5a then v.toNat + 0x20 else v.toNat := by
  unfold asciiLower
  simp only [UInt8.le_iff_toNat_le]
  split
  · next h =>
      have h : 0x41 ≤ v.toNat ∧ v.toNat ≤ 0x5a := h
      rw [if_pos h, UInt8.toNat_add]
      show (v.toNat + 32) % 256 = v.toNat + 32
      omega
  · next h =>
      have h : ¬ (0x41 ≤ v.toNat ∧ v.toNat ≤ 0x5a) := h
      rw [if_neg h]

theorem toNat_toUpper (v : UInt8) :
    (toChar v).toUpper.toNat =
      if 0x61 ≤ v.toNat ∧ v.toNat ≤ 0x7a then v.toNat - 0x20 else v.toNat := by
  have hval : (toChar v).val.toNat = v.toNat := toNat_toChar v
  unfold Char.toUpper
  split
  · next h =>
      rw [UInt32.le_iff_toNat_le, UInt32.le_iff_toNat_le, hval] at h
      have hlow : 97 ≤ v.toNat := h.1
      have hhigh : v.toNat ≤ 122 := h.2
      rw [if_pos ⟨hlow, hhigh⟩]
      show (UInt32.toNat _) = _
      rw [UInt32.toNat_add, hval]
      show (v.toNat + 4294967264) % 4294967296 = _
      omega
  · next h =>
      rw [UInt32.le_iff_toNat_le, UInt32.le_iff_toNat_le, hval] at h
      have h : ¬ (0x61 ≤ v.toNat ∧ v.toNat ≤ 0x7a) := h
      rw [if_neg h, toNat_toChar]

theorem asciiLower_eq_iff {v e : UInt8} (h : PlainByte e) :
    asciiLower v = asciiLower e ↔ (toChar v).toUpper = toChar e := by
  rw [← UInt8.toNat_inj, toNat_asciiLower, toNat_asciiLower, Char.ext_iff, ← UInt32.toNat_inj]
  show _ ↔ (toChar v).toUpper.toNat = (toChar e).toNat
  rw [toNat_toUpper, toNat_toChar]
  unfold PlainByte at h
  split <;> split <;> split <;> omega

theorem equalsAsciiIgnoreCase_iff {stem : Bytes} {name : String} {text : Text}
    (hplain : ∀ e ∈ bytesOf name, PlainByte e) (htext : (bytesOf name).map toChar = text) :
    equalsAsciiIgnoreCase stem (bytesOf name) = true ↔ upper (stem.map toChar) = text := by
  rw [← htext, equalsAsciiIgnoreCase, decide_eq_true_eq, upper, List.map_map]
  generalize bytesOf name = expected at hplain
  induction stem generalizing expected with
  | nil => cases expected <;> simp
  | cons v stem ih =>
      cases expected with
      | nil => simp
      | cons e expected =>
          simp only [List.map_cons, List.cons.injEq, Function.comp_apply]
          rw [asciiLower_eq_iff (hplain e (by simp)),
            ih expected fun other hother => hplain other (List.mem_cons_of_mem _ hother)]

theorem mem_numbered {name : String} {text : Text} :
    text ∈ numbered name ↔ ∃ number, 1 ≤ number ∧ number ≤ 9 ∧
      text = name.toList ++ [number.digitChar] := by
  simp only [numbered, List.mem_map, List.mem_range'_1]
  constructor
  · intro h
    obtain ⟨number, hnumber, rfl⟩ := h
    exact ⟨number, by omega, by omega, rfl⟩
  · intro h
    obtain ⟨number, hlow, hhigh, rfl⟩ := h
    exact ⟨number, by omega, rfl⟩

/-- The character of a digit other than zero. -/
theorem upper_digit_iff {d : UInt8} :
    (∃ number, 1 ≤ number ∧ number ≤ 9 ∧ (toChar d).toUpper = Nat.digitChar number) ↔
      0x31 ≤ d.toNat ∧ d.toNat ≤ 0x39 := by
  have hdigit : ∀ number, number ≤ 9 → (Nat.digitChar number).toNat = 0x30 + number := by
    decide
  have hupper := toNat_toUpper d
  constructor
  · intro h
    obtain ⟨number, hlow, hhigh, heq⟩ := h
    rw [heq, hdigit number hhigh] at hupper
    split at hupper <;> omega
  · intro h
    refine ⟨d.toNat - 0x30, by omega, by omega, ?_⟩
    rw [Char.ext_iff, ← UInt32.toNat_inj]
    show (toChar d).toUpper.toNat = (Nat.digitChar (d.toNat - 0x30)).toNat
    rw [hupper, hdigit _ (by omega), if_neg (by omega)]
    omega

/-- A stem of four characters that is a name with a number. -/
theorem numbered_iff {stem : Bytes} {name : String} (hlength : name.toList.length = 3)
    (hplain : ∀ e ∈ bytesOf name, PlainByte e) (htext : (bytesOf name).map toChar = name.toList) :
    upper (stem.map toChar) ∈ numbered name ↔
      stem.length = 4 ∧ equalsAsciiIgnoreCase (stem.take 3) (bytesOf name) = true ∧
        ∃ d, stem[3]? = some d ∧ 0x31 ≤ d.toNat ∧ d.toNat ≤ 0x39 := by
  rw [mem_numbered, equalsAsciiIgnoreCase_iff hplain htext]
  constructor
  · intro h
    obtain ⟨number, hlow, hhigh, heq⟩ := h
    have hfour : stem.length = 4 := by
      have := congrArg List.length heq
      simpa [upper, hlength] using this
    obtain ⟨a, b, c, d, rfl⟩ : ∃ a b c d, stem = [a, b, c, d] := by
      match stem, hfour with
      | [a, b, c, d], _ => exact ⟨a, b, c, d, rfl⟩
    have hparts : upper ([a, b, c].map toChar) ++ [(toChar d).toUpper] =
        name.toList ++ [number.digitChar] := heq
    obtain ⟨hname, hlast⟩ := List.append_inj hparts (by simp [upper, hlength])
    exact ⟨rfl, hname, d, rfl, upper_digit_iff.mp ⟨number, hlow, hhigh, by simpa using hlast⟩⟩
  · intro h
    obtain ⟨hfour, hname, d', hd', hdigit⟩ := h
    obtain ⟨a, b, c, d, rfl⟩ : ∃ a b c d, stem = [a, b, c, d] := by
      match stem, hfour with
      | [a, b, c, d], _ => exact ⟨a, b, c, d, rfl⟩
    cases hd'
    obtain ⟨number, hlow, hhigh, heq⟩ := upper_digit_iff.mpr hdigit
    refine ⟨number, hlow, hhigh, ?_⟩
    rw [← heq, ← hname]
    rfl

/-- A stem of four characters is the beginning of its name. -/
theorem stem_prefix {component stem : Bytes} (hstem : component.takeWhile (· ≠ 0x2e) = stem)
    (hfour : stem.length = 4) : component.take 3 = stem.take 3 ∧ component[3]? = stem[3]? := by
  obtain ⟨rest, hrest⟩ := List.takeWhile_prefix (l := component) (fun b => decide (b ≠ 0x2e))
  rw [hstem] at hrest
  subst hrest
  constructor
  · rw [List.take_append_of_le_length (by omega)]
  · rw [List.getElem?_append_left (by omega)]

/-- Both sides reserve the same stems. -/
theorem reserved_iff (component : Bytes) :
    upper (headPart '.' (component.map toChar)) ∈ fatReserved ↔
      isReservedStem component = true := by
  have hpoint : headPart '.' (component.map toChar) =
      (component.takeWhile (· ≠ 0x2e)).map toChar := headPart_map 0x2e component
  rw [hpoint]
  unfold isReservedStem fatReserved
  dsimp only
  generalize hstem : component.takeWhile (· ≠ 0x2e) = stem
  simp only [List.mem_append, List.map_cons, List.map_nil, List.mem_cons, List.not_mem_nil,
    or_false, List.any_cons, List.any_nil, Bool.or_false, Bool.or_eq_true, Bool.and_eq_true,
    beq_iff_eq]
  rw [← @equalsAsciiIgnoreCase_iff stem "CON" "CON".toList (by decide +kernel) rfl,
    ← @equalsAsciiIgnoreCase_iff stem "PRN" "PRN".toList (by decide +kernel) rfl,
    ← @equalsAsciiIgnoreCase_iff stem "AUX" "AUX".toList (by decide +kernel) rfl,
    ← @equalsAsciiIgnoreCase_iff stem "NUL" "NUL".toList (by decide +kernel) rfl,
    @numbered_iff stem "COM" rfl (by decide +kernel) rfl,
    @numbered_iff stem "LPT" rfl (by decide +kernel) rfl]
  have hdigit : (component[3]?.any fun c => decide (0x31 ≤ c) && decide (c ≤ 0x39)) = true ↔
      ∃ d, component[3]? = some d ∧ 0x31 ≤ d.toNat ∧ d.toNat ≤ 0x39 := by
    simp [Option.any_eq_true, UInt8.le_iff_toNat_le]
  rw [hdigit]
  have hlogic : ∀ P F C L D : Prop,
      (P ∨ F ∧ C ∧ D) ∨ F ∧ L ∧ D ↔ P ∨ (F ∧ (C ∨ L)) ∧ D := by
    tauto
  by_cases hfour : stem.length = 4
  · obtain ⟨htake, hfourth⟩ := stem_prefix hstem hfour
    rw [htake, hfourth]
    exact hlogic _ _ _ _ _
  · simp only [hfour, false_and, or_false]

theorem isSpace_toChar {v : UInt8} (h : NameByte v) : isSpace (toChar v) = true ↔ v = 0x20 := by
  obtain ⟨hlow, -, -, -⟩ := h
  have hlow : ¬ v.toNat < 0x20 := hlow
  have hnat : v = 0x20 ↔ v.toNat = 0x20 := UInt8.toNat_inj.symm
  rw [hnat, isSpace, toNat_toChar]
  simp only [Bool.or_eq_true, Bool.and_eq_true, decide_eq_true_eq]
  omega

/-- No white space is a space, in an option of name bytes. -/
theorem all_not_isSpace {end? : Option UInt8} (h : ∀ v, end? = some v → NameByte v) :
    (end?.map toChar).all (!isSpace ·) = true ↔ end? ≠ some 0x20 := by
  cases end? with
  | none => simp
  | some v =>
      have := isSpace_toChar (h v rfl)
      simp only [Option.map_some, Option.all_some, Bool.not_eq_true', ne_eq, Option.some.injEq,
        ← this, Bool.not_eq_true]

/-- A component of name bytes is refused by both sides or by neither. -/
theorem unsafeComponent_iff {component : Bytes} (h : ∀ v ∈ component, NameByte v) :
    unsafeComponent (component.map toChar) = false ↔ componentValid component = true := by
  have hmap : ∀ name : Bytes, component.map toChar = name.map toChar ↔ component = name :=
    fun name => (List.map_injective_iff.mpr toChar_injective).eq_iff
  have hpoint : component.map toChar = ['.'] ↔ component = [0x2e] := hmap [0x2e]
  have hpoints : component.map toChar = ['.', '.'] ↔ component = [0x2e, 0x2e] := hmap [0x2e, 0x2e]
  have hstrip : component.map toChar = strip (component.map toChar) ↔
      component.head? ≠ some 0x20 ∧ component.getLast? ≠ some 0x20 := by
    rw [eq_strip_iff, List.head?_map, List.getLast?_map,
      all_not_isSpace fun v hv => h v (List.mem_of_head? hv),
      all_not_isSpace fun v hv => h v (List.mem_of_getLast? hv)]
  have hlast : (component.map toChar).getLast? = some '.' ↔ component.getLast? = some 0x2e := by
    rw [List.getLast?_map]
    have hsome : some '.' = (some (0x2e : UInt8)).map toChar := rfl
    rw [hsome, (Option.map_injective toChar_injective).eq_iff]
  have hreserved := reserved_iff component
  unfold unsafeComponent componentValid
  simp only [Bool.or_eq_false_iff, decide_eq_false_iff_not, List.mem_cons, List.not_mem_nil,
    or_false, Bool.and_eq_true, decide_eq_true_eq, Bool.not_eq_true', ne_eq, not_not,
    List.length_map, hstrip, hlast, hpoint, hpoints, hreserved, Nat.not_lt, Bool.not_eq_true,
    not_or, List.map_eq_nil_iff]
  tauto

theorem forbidden_iff (v : UInt8) : toChar v ∈ fatForbidden ↔ isForbidden v = true := by
  have hlist : fatForbidden = (bytesOf "\"*:<>?\\|").map toChar := rfl
  rw [hlist, List.mem_map_of_injective toChar_injective, isForbidden, decide_eq_true_eq]

theorem splitOn_text (path : Bytes) :
    (path.map toChar).splitOn '/' = (path.splitOn 0x2f).map (List.map toChar) :=
  splitOn_map (a := 0x2f) (fun _ h => toChar_inj h) path

theorem unsafeChar_iff {v : UInt8} (hslash : v ≠ 0x2f) :
    unsafeChar (toChar v) = false ↔ NameByte v := by
  have hforbidden := forbidden_iff v
  unfold unsafeChar NameByte
  simp only [toNat_toChar, Bool.or_eq_false_iff, decide_eq_false_iff_not, hforbidden,
    Bool.not_eq_true, and_assoc, hslash, ne_eq, not_false_eq_true, and_true]
  rfl

theorem components_iff (path : Bytes) :
    ((path.map toChar).any unsafeChar = false ∧
      ((path.map toChar).splitOn '/').any unsafeComponent = false) ↔
      componentsValid [] path = true := by
  rw [componentsValid_iff (by simp), List.nil_append, splitOn_text]
  simp only [List.any_eq_false, List.mem_map, forall_exists_index, and_imp,
    forall_apply_eq_imp_iff₂, Bool.not_eq_true]
  constructor
  · intro h component hcomponent
    have hname : ∀ v ∈ component, NameByte v := by
      intro v hv
      obtain ⟨hin, hslash⟩ := mem_of_mem_splitOn hcomponent hv
      exact (unsafeChar_iff hslash).mp (h.1 v hin)
    exact ⟨(unsafeComponent_iff hname).mp (h.2 component hcomponent), hname⟩
  · intro h
    refine ⟨fun v hv => ?_, fun component hcomponent => ?_⟩
    · by_cases hslash : v = 0x2f
      · subst hslash
        decide
      · obtain ⟨component, hcomponent, hin⟩ := exists_component_of_mem hv hslash
        exact (unsafeChar_iff hslash).mpr ((h component hcomponent).2 v hin)
    · exact (unsafeComponent_iff (h component hcomponent).2).mpr (h component hcomponent).1

theorem fatPathValid_eq_true {n : Nat} {text : Text} :
    fatPathValid n text = true ↔
      text ≠ [] ∧ text.all (·.toNat < 0x80) = true ∧ text.length ≤ n ∧ text.head? ≠ some '/' ∧
        text.getLast? ≠ some '/' ∧ text.any unsafeChar = false ∧
        (text.splitOn '/').any unsafeComponent = false := by
  unfold fatPathValid
  split
  · next h => simp [h]
  · split
    · next h => simp [h]
    · next h =>
        rw [not_not] at h
        split
        · next h' =>
            simp only [Bool.false_eq_true, false_iff]
            rintro ⟨-, -, hlength, hhead, hlast, hchars, -⟩
            rcases h' with h' | h' | h' | h'
            · omega
            · exact hhead h'
            · exact hlast h'
            · rw [hchars] at h'
              cases h'
        · next h' =>
            simp only [not_or, Nat.not_lt, Bool.not_eq_true] at h'
            simp_all

theorem validateFatRelativePathBytes_eq_ok {n : Nat} {path : Bytes} (hn : n ≠ 0) :
    validateFatRelativePathBytes path n = .ok ↔
      path ≠ [] ∧ path.length ≤ n ∧ path.head? ≠ some 0x2f ∧ path.getLast? ≠ some 0x2f ∧
        componentsValid [] path = true := by
  unfold validateFatRelativePathBytes
  rw [if_neg hn]
  split
  · next h => simp [h]
  · split
    · next h =>
        simp only [reduceCtorEq, false_iff]
        intro h'
        omega
    · split
      · next h =>
          simp only [reduceCtorEq, false_iff]
          intro h'
          rcases h with h | h
          · exact h'.2.2.1 h
          · exact h'.2.2.2.1 h
      · next h =>
          rw [not_or] at h
          split
          · next h' => simp_all
          · next h' => simp_all

/-- The two grammars are one. -/
theorem fatPathValid_iff {path : Bytes} {text : Text} (h : Spells path text) {n : Nat}
    (hn : n ≠ 0) :
    fatPathValid n text = true ↔ validateFatRelativePathBytes path n = .ok := by
  rw [fatPathValid_eq_true]
  by_cases hascii : ∀ b ∈ path, b.toNat < 0x80
  · obtain rfl := h.ascii hascii
    have hall : (path.map toChar).all (·.toNat < 0x80) = true := by
      simpa using hascii
    have hslash : some '/' = (some (0x2f : UInt8)).map toChar := rfl
    rw [validateFatRelativePathBytes_eq_ok hn, ← components_iff, List.head?_map, List.getLast?_map,
      hslash, (Option.map_injective toChar_injective).ne_iff,
      (Option.map_injective toChar_injective).ne_iff, List.length_map, ne_eq, List.map_eq_nil_iff]
    simp only [hall, true_and]
  · simp only [not_forall, Nat.not_lt, exists_prop] at hascii
    obtain ⟨c, hc, hbig⟩ := h.other hascii
    obtain ⟨b, hb, hbyte⟩ := hascii
    rw [validateFatRelativePathBytes_ok_iff]
    constructor
    · intro hvalid
      have := List.all_eq_true.mp hvalid.2.1 c hc
      simp only [decide_eq_true_eq] at this
      omega
    · intro hvalid
      have hslash : b ≠ 0x2f := by
        rintro rfl
        revert hbyte
        decide
      obtain ⟨component, hcomponent, hin⟩ := exists_component_of_mem hb hslash
      have hname := ((hvalid.components component hcomponent).2 b hin).2.1
      rw [UInt8.lt_iff_toNat_lt] at hname
      have hname : ¬ 0x7e < b.toNat := hname
      omega

end Layout

end BmxUpdate
