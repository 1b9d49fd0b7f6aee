import BmxUpdate.Library.JsonGrammar

/-!
# JSON values as trees, and their shortest text

A tree holds the text of its strings and numbers as it is written, so that escapes stay
visible.  `render` writes a tree without spaces; a well-formed tree is written as the
grammar says (`render_value`), with `size` values and keys.
-/

namespace JsonGrammar

open Wire

/-- A value; a string and a number are their text, a string without its quotes. -/
inductive Tree where
  | string (raw : Bytes)
  | number (raw : Bytes)
  | bool (value : Bool)
  | array (elements : List Tree)
  | object (members : List (Bytes × Tree))

def literal : Bool → Bytes
  | true => [0x74, 0x72, 0x75, 0x65]
  | false => [0x66, 0x61, 0x6c, 0x73, 0x65]

namespace Tree

mutual

/-- The text of a tree; a container's values have a comma in front, the first one dropped. -/
def render : Tree → Bytes
  | .string raw => 0x22 :: (raw ++ [0x22])
  | .number raw => raw
  | .bool value => literal value
  | .array elements => 0x5b :: ((renderElements elements).tail ++ [0x5d])
  | .object members => 0x7b :: ((renderMembers members).tail ++ [0x7d])

def renderElements : List Tree → Bytes
  | [] => []
  | t :: ts => 0x2c :: (render t ++ renderElements ts)

def renderMembers : List (Bytes × Tree) → Bytes
  | [] => []
  | (k, t) :: ms => 0x2c :: 0x22 :: (k ++ 0x22 :: 0x3a :: (render t ++ renderMembers ms))

end

mutual

/-- How many values and keys a tree has. -/
def size : Tree → Nat
  | .string _ => 1
  | .number _ => 1
  | .bool _ => 1
  | .array elements => sizeElements elements + 1
  | .object members => sizeMembers members + 1

def sizeElements : List Tree → Nat
  | [] => 0
  | t :: ts => size t + sizeElements ts

def sizeMembers : List (Bytes × Tree) → Nat
  | [] => 0
  | (_, t) :: ms => size t + 1 + sizeMembers ms

end

mutual

/-- How many bytes the text of a tree has. -/
def textLength : Tree → Nat
  | .string raw => raw.length + 2
  | .number raw => raw.length
  | .bool value => (literal value).length
  | .array elements => textLengthElements elements - 1 + 2
  | .object members => textLengthMembers members - 1 + 2

def textLengthElements : List Tree → Nat
  | [] => 0
  | t :: ts => textLength t + textLengthElements ts + 1

def textLengthMembers : List (Bytes × Tree) → Nat
  | [] => 0
  | (k, t) :: ms => k.length + textLength t + textLengthMembers ms + 4

end

mutual

theorem length_render (t : Tree) : t.render.length = t.textLength := by
  cases t with
  | string raw => simp only [render, textLength, List.length_cons, List.length_append,
      List.length_nil]
  | number raw => rfl
  | bool value => rfl
  | array elements =>
      simp only [render, textLength, List.length_cons, List.length_append, List.length_nil,
        List.length_tail, length_renderElements elements]
  | object members =>
      simp only [render, textLength, List.length_cons, List.length_append, List.length_nil,
        List.length_tail, length_renderMembers members]

theorem length_renderElements (ts : List Tree) :
    (renderElements ts).length = textLengthElements ts := by
  cases ts with
  | nil => rfl
  | cons t ts =>
      simp only [renderElements, textLengthElements, List.length_cons, List.length_append,
        length_render t, length_renderElements ts]

theorem length_renderMembers (ms : List (Bytes × Tree)) :
    (renderMembers ms).length = textLengthMembers ms := by
  cases ms with
  | nil => rfl
  | cons m ms =>
      simp only [renderMembers, textLengthMembers, List.length_cons, List.length_append,
        length_render m.2, length_renderMembers ms]
      omega

end

theorem size_pos (t : Tree) : 0 < t.size := by
  cases t <;> simp [size]

/-- A hexadecimal digit in lower case. -/
def isHex (c : UInt8) : Bool :=
  (0x30 ≤ c.toNat && c.toNat ≤ 0x39) || (0x61 ≤ c.toNat && c.toNat ≤ 0x66)

/-- ASCII that stands for itself, and escapes of one byte. -/
def isText : Bytes → Bool
  | [] => true
  | 0x5c :: 0x75 :: 0x30 :: 0x30 :: x :: y :: rest => isHex x && isHex y && isText rest
  | c :: rest => decide (0x20 ≤ c.toNat ∧ c.toNat < 0x80 ∧ c ≠ 0x22 ∧ c ≠ 0x5c) && isText rest

/-- A decimal number without sign, fraction and exponent. -/
def isNumeral : Bytes → Bool
  | [] => false
  | c :: rest =>
      decide (IsDigit c) && (rest.isEmpty || c ≠ 0x30) && rest.all fun d => decide (IsDigit d)

/-- A key that needs no escape. -/
def isKey (k : Bytes) : Bool :=
  k.all fun c => decide (0x21 ≤ c.toNat ∧ c.toNat ≤ 0x7e ∧ c ≠ 0x22 ∧ c ≠ 0x5c)

mutual

/-- Nests in fewer than `levels` containers, and can be written as it stands. -/
def wellFormed (levels : Nat) : Tree → Bool
  | .string raw => 0 < levels && isText raw
  | .number raw => 0 < levels && isNumeral raw
  | .bool _ => 0 < levels
  | .array elements => 0 < levels && wellFormedElements (levels - 1) elements
  | .object members =>
      0 < levels && wellFormedMembers (levels - 1) members &&
        decide (members.map (·.1)).Nodup

def wellFormedElements (levels : Nat) : List Tree → Bool
  | [] => true
  | t :: ts => wellFormed levels t && wellFormedElements levels ts

def wellFormedMembers (levels : Nat) : List (Bytes × Tree) → Bool
  | [] => true
  | (k, t) :: ms => isKey k && wellFormed levels t && wellFormedMembers levels ms

end

/-! ## The text of a well-formed tree -/

theorem hex_of_isHex {c : UInt8} (h : isHex c = true) : ∃ v < 16, Hex c v := by
  simp only [isHex, Bool.or_eq_true, Bool.and_eq_true, decide_eq_true_eq] at h
  rcases h with ⟨hlow, hhigh⟩ | ⟨hlow, hhigh⟩
  · exact ⟨_, by omega, .digit hlow hhigh⟩
  · exact ⟨_, by omega, .lower hlow hhigh⟩

theorem chars_of_isText {E : UInt8 → Prop} {raw : Bytes} (h : isText raw = true) (r : Bytes) :
    Chars E (raw ++ r) r := by
  induction raw using isText.induct with
  | case1 => exact .done
  | case2 x y rest ih =>
      simp only [isText, Bool.and_eq_true] at h
      obtain ⟨v, hv, hx⟩ := hex_of_isHex h.1.1
      obtain ⟨w, hw, hy⟩ := hex_of_isHex h.1.2
      have hzero : Hex 0x30 0 := .digit (by decide) (by decide)
      refine .escape (.unit (.mk hzero hzero hx hy) ?_ ?_) (ih h.2)
      · unfold HighSurrogate
        omega
      · unfold LowSurrogate
        omega
  | case3 c rest hescape ih =>
      rw [isText] at h
      · simp only [Bool.and_eq_true, decide_eq_true_eq] at h
        exact .plain h.1 (ih h.2)
      · exact hescape

theorem number_of_isNumeral {raw : Bytes} (h : isNumeral raw = true) (r : Bytes) :
    Number (raw ++ r) r := by
  cases raw with
  | nil => cases h
  | cons c rest =>
      simp only [isNumeral, Bool.and_eq_true, Bool.or_eq_true, List.isEmpty_iff,
        decide_eq_true_eq, List.all_eq_true] at h
      obtain ⟨⟨hdigit, hfirst⟩, hrest⟩ := h
      have hint : IntPart ((c :: rest) ++ r) r := by
        by_cases hzero : c = 0x30
        · subst hzero
          obtain rfl : rest = [] := by simpa using hfirst
          exact .inl rfl
        · exact .inr ⟨_, ⟨c, ⟨hdigit, hzero⟩, rfl⟩, Many.append hrest (Many.refl r)⟩
      exact ⟨_, .inl rfl, _, hint, _, .inl rfl, .inl rfl⟩

theorem key_of_isKey {k : Bytes} (h : isKey k = true) (r : Bytes) :
    Key k (0x22 :: (k ++ 0x22 :: r)) r := by
  simp only [isKey, List.all_eq_true, decide_eq_true_eq] at h
  exact .mk h

theorem padded {V : Nat → Production} {n : Nat} {t r : Bytes} (h : V n t r) : Padded V n t r :=
  ⟨t, Many.refl t, r, h, Many.refl r⟩

mutual

theorem render_value {E : UInt8 → Prop} : ∀ (t : Tree) {levels : Nat},
    t.wellFormed levels = true → ∀ r, Value E levels t.size (t.render ++ r) r
  | .string raw, levels, h, r => by
      simp only [wellFormed, Bool.and_eq_true, decide_eq_true_eq] at h
      obtain ⟨levels, rfl⟩ := Nat.exists_eq_add_one_of_ne_zero (Nat.ne_of_gt h.1)
      have htext := chars_of_isText (E := E) h.2 (0x22 :: r)
      show Layer E _ 1 (0x22 :: (raw ++ [0x22]) ++ r) r
      rw [List.cons_append, List.append_assoc]
      exact .string ⟨htext⟩
  | .number raw, levels, h, r => by
      simp only [wellFormed, Bool.and_eq_true, decide_eq_true_eq] at h
      obtain ⟨levels, rfl⟩ := Nat.exists_eq_add_one_of_ne_zero (Nat.ne_of_gt h.1)
      exact .number (number_of_isNumeral h.2 r)
  | .bool value, levels, h, r => by
      simp only [wellFormed, decide_eq_true_eq] at h
      obtain ⟨levels, rfl⟩ := Nat.exists_eq_add_one_of_ne_zero (Nat.ne_of_gt h)
      cases value with
      | true => exact .true rfl
      | false => exact .false rfl
  | .array elements, levels, h, r => by
      simp only [wellFormed, Bool.and_eq_true, decide_eq_true_eq] at h
      obtain ⟨levels, rfl⟩ := Nat.exists_eq_add_one_of_ne_zero (Nat.ne_of_gt h.1)
      cases elements with
      | nil => exact .emptyArray (Many.refl _)
      | cons t ts =>
          have helements := render_elements (E := E) (t :: ts) (by simp) h.2 (0x5d :: r)
          show Layer E _ _ (0x5b :: ((renderElements (t :: ts)).tail ++ [0x5d]) ++ r) r
          rw [List.cons_append, List.append_assoc, List.singleton_append]
          exact .array helements
  | .object members, levels, h, r => by
      simp only [wellFormed, Bool.and_eq_true, decide_eq_true_eq] at h
      obtain ⟨levels, rfl⟩ := Nat.exists_eq_add_one_of_ne_zero (Nat.ne_of_gt h.1.1)
      cases members with
      | nil => exact .emptyObject (Many.refl _)
      | cons m ms =>
          have hmembers := render_members (E := E) (m :: ms) (by simp) h.1.2 (0x7d :: r)
          show Layer E _ _ (0x7b :: ((renderMembers (m :: ms)).tail ++ [0x7d]) ++ r) r
          rw [List.cons_append, List.append_assoc, List.singleton_append]
          exact .object hmembers h.2

theorem render_elements {E : UInt8 → Prop} : ∀ (ts : List Tree) {levels : Nat}, ts ≠ [] →
    wellFormedElements levels ts = true → ∀ r,
      Elements (Value E levels) (sizeElements ts) ((renderElements ts).tail ++ r) r
  | [], _, hne, _, _ => absurd rfl hne
  | [t], levels, _, h, r => by
      simp only [wellFormedElements, Bool.and_eq_true] at h
      have hvalue := render_value (E := E) t h.1 r
      show Elements _ (size t + 0) (render t ++ [] ++ r) r
      rw [List.append_nil]
      exact .last (padded hvalue)
  | t :: u :: us, levels, _, h, r => by
      simp only [wellFormedElements, Bool.and_eq_true] at h
      have hvalue := render_value (E := E) t h.1 (0x2c :: ((renderElements (u :: us)).tail ++ r))
      have hrest := render_elements (E := E) (u :: us) (by simp)
        (by simp only [wellFormedElements, Bool.and_eq_true]; exact h.2) r
      have htext : (renderElements (t :: u :: us)).tail ++ r =
          render t ++ 0x2c :: ((renderElements (u :: us)).tail ++ r) := by
        simp only [renderElements, List.tail_cons, List.append_assoc, List.cons_append]
      rw [htext, sizeElements]
      exact .more (padded hvalue) hrest

theorem render_members {E : UInt8 → Prop} : ∀ (ms : List (Bytes × Tree)) {levels : Nat},
    ms ≠ [] → wellFormedMembers levels ms = true → ∀ r,
      Members (Value E levels) (ms.map (·.1)) (sizeMembers ms) ((renderMembers ms).tail ++ r) r
  | [], _, hne, _, _ => absurd rfl hne
  | [(k, t)], levels, _, h, r => by
      simp only [wellFormedMembers, Bool.and_eq_true] at h
      have hvalue := render_value (E := E) t h.1.2 r
      have htext : (renderMembers [(k, t)]).tail ++ r =
          0x22 :: (k ++ 0x22 :: 0x3a :: (render t ++ r)) := by
        simp [renderMembers]
      rw [htext]
      exact .last ⟨Many.refl _, key_of_isKey h.1.1 _, Many.refl _, padded hvalue⟩
  | (k, t) :: m :: ms, levels, _, h, r => by
      simp only [wellFormedMembers, Bool.and_eq_true] at h
      have hvalue := render_value (E := E) t h.1.2 (0x2c :: ((renderMembers (m :: ms)).tail ++ r))
      have hrest := render_members (E := E) (m :: ms) (by simp)
        (by rw [wellFormedMembers, Bool.and_eq_true, Bool.and_eq_true]; exact h.2) r
      have htext : (renderMembers ((k, t) :: m :: ms)).tail ++ r =
          0x22 :: (k ++ 0x22 :: 0x3a :: (render t ++
            0x2c :: ((renderMembers (m :: ms)).tail ++ r))) := by
        simp [renderMembers]
      rw [htext, sizeMembers]
      exact .more ⟨Many.refl _, key_of_isKey h.1.1 _, Many.refl _, padded hvalue⟩ hrest

end

/-- A well-formed tree as a text with a line end. -/
theorem render_text {E : UInt8 → Prop} {t : Tree} {levels : Nat} (h : t.wellFormed levels = true) :
    Text E levels t.size (t.render ++ [0x0a]) :=
  ⟨_, Many.refl _, [0x0a], render_value t h _, [0x0a], by simp [IsSpace], rfl⟩

/-! ## The bytes of a well-formed tree -/

theorem bytes_of_isText {raw : Bytes} (h : isText raw = true) : ∀ c ∈ raw, 0x20 ≤ c.toNat := by
  have hhex : ∀ {c : UInt8}, isHex c = true → 0x20 ≤ c.toNat := by
    intro c hc
    simp only [isHex, Bool.or_eq_true, Bool.and_eq_true, decide_eq_true_eq] at hc
    omega
  induction raw using isText.induct with
  | case1 => simp
  | case2 x y rest ih =>
      simp only [isText, Bool.and_eq_true] at h
      simp only [List.forall_mem_cons]
      exact ⟨by decide, by decide, by decide, by decide, hhex h.1.1, hhex h.1.2, ih h.2⟩
  | case3 c rest hescape ih =>
      rw [isText] at h
      · simp only [Bool.and_eq_true, decide_eq_true_eq] at h
        exact List.forall_mem_cons.mpr ⟨h.1.1, ih h.2⟩
      · exact hescape

theorem bytes_of_isNumeral {raw : Bytes} (h : isNumeral raw = true) : ∀ c ∈ raw, 0x20 ≤ c.toNat := by
  cases raw with
  | nil => cases h
  | cons d rest =>
      simp only [isNumeral, Bool.and_eq_true, decide_eq_true_eq, List.all_eq_true] at h
      intro c hc
      have hdigit : IsDigit c := by
        rcases List.mem_cons.mp hc with rfl | hc
        · exact h.1.1
        · exact h.2 c hc
      unfold IsDigit at hdigit
      omega

mutual

/-- No control character stands in the text of a tree. -/
theorem bytes_render : ∀ (t : Tree) {levels : Nat}, t.wellFormed levels = true →
    ∀ c ∈ t.render, 0x20 ≤ c.toNat
  | .string raw, levels, h, c, hc => by
      simp only [wellFormed, Bool.and_eq_true, decide_eq_true_eq] at h
      simp only [render, List.mem_cons, List.mem_append, List.not_mem_nil, or_false] at hc
      rcases hc with rfl | hc | rfl
      · decide
      · exact bytes_of_isText h.2 c hc
      · decide
  | .number raw, levels, h, c, hc => by
      simp only [wellFormed, Bool.and_eq_true, decide_eq_true_eq] at h
      exact bytes_of_isNumeral h.2 c hc
  | .bool true, levels, h, c, hc => by
      simp only [render, literal, List.mem_cons, List.not_mem_nil, or_false] at hc
      rcases hc with rfl | rfl | rfl | rfl <;> decide
  | .bool false, levels, h, c, hc => by
      simp only [render, literal, List.mem_cons, List.not_mem_nil, or_false] at hc
      rcases hc with rfl | rfl | rfl | rfl | rfl <;> decide
  | .array elements, levels, h, c, hc => by
      simp only [wellFormed, Bool.and_eq_true, decide_eq_true_eq] at h
      simp only [render, List.mem_cons, List.mem_append, List.not_mem_nil, or_false] at hc
      rcases hc with rfl | hc | rfl
      · decide
      · exact bytes_elements elements h.2 c (List.mem_of_mem_tail hc)
      · decide
  | .object members, levels, h, c, hc => by
      simp only [wellFormed, Bool.and_eq_true, decide_eq_true_eq] at h
      simp only [render, List.mem_cons, List.mem_append, List.not_mem_nil, or_false] at hc
      rcases hc with rfl | hc | rfl
      · decide
      · exact bytes_members members h.1.2 c (List.mem_of_mem_tail hc)
      · decide

theorem bytes_elements : ∀ (ts : List Tree) {levels : Nat}, wellFormedElements levels ts = true →
    ∀ c ∈ renderElements ts, 0x20 ≤ c.toNat
  | [], _, _, c, hc => by cases hc
  | t :: ts, levels, h, c, hc => by
      simp only [wellFormedElements, Bool.and_eq_true] at h
      simp only [renderElements, List.mem_cons, List.mem_append] at hc
      rcases hc with rfl | hc | hc
      · decide
      · exact bytes_render t h.1 c hc
      · exact bytes_elements ts h.2 c hc

theorem bytes_members : ∀ (ms : List (Bytes × Tree)) {levels : Nat},
    wellFormedMembers levels ms = true → ∀ c ∈ renderMembers ms, 0x20 ≤ c.toNat
  | [], _, _, c, hc => by cases hc
  | (k, t) :: ms, levels, h, c, hc => by
      simp only [wellFormedMembers, Bool.and_eq_true] at h
      simp only [renderMembers, List.mem_cons, List.mem_append] at hc
      rcases hc with rfl | rfl | hc | rfl | rfl | hc | hc
      · decide
      · decide
      · have hkey := h.1.1
        simp only [isKey, List.all_eq_true, decide_eq_true_eq] at hkey
        have hlow := (hkey c hc).1
        omega
      · decide
      · decide
      · exact bytes_render t h.1.2 c hc
      · exact bytes_members ms h.2 c hc

end

end Tree

end JsonGrammar
