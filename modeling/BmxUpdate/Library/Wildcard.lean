import Mathlib.Data.List.Infix

/-!
# Shell wildcards

The patterns of `fnmatch`: `*` stands for any characters, `?` for one character, a bracket
class for one character of a set, and every other character for itself.  A pattern is
compiled into items, and a text is matched against the items.
-/

namespace Wildcard

/-- One item of a pattern. -/
inductive Item where
  | star
  | any
  | literal (c : Char)
  | oneOf (negated : Bool) (ranges : List (Char × Char))
deriving DecidableEq, Repr

/-- Whether one character fits an item that stands for a single character. -/
def Item.admits : Item → Char → Bool
  | .star, _ | .any, _ => true
  | .literal c, d => c = d
  | .oneOf negated ranges, d => (ranges.any fun range => range.1 ≤ d && d ≤ range.2) != negated

/-- The members of a class: `a-z` is a range, any other character a member of its own. -/
def ranges : List Char → List (Char × Char)
  | [] => []
  | low :: '-' :: high :: rest => (low, high) :: ranges rest
  | c :: rest => (c, c) :: ranges rest

/-- The class after an opening bracket, with the number of characters it takes.  A `]` that
comes first is a member; without a closing bracket there is no class. -/
def bracket (text : List Char) : Option (Item × Nat) :=
  let negated := text.head? = some '!'
  let body := if negated then text.drop 1 else text
  let first := body.take (if body.head? = some ']' then 1 else 0)
  let members := (body.drop first.length).takeWhile (· ≠ ']')
  if first.length + members.length < body.length then
    some (.oneOf negated (ranges (first ++ members)),
      (if negated then 1 else 0) + first.length + members.length + 1)
  else none

/-- The items of a pattern; the number counts the characters of a class that are still to be
passed over. -/
def items : Nat → List Char → List Item
  | _, [] => []
  | skip + 1, _ :: rest => items skip rest
  | 0, c :: rest =>
      if c = '*' then .star :: items 0 rest
      else if c = '?' then .any :: items 0 rest
      else if c = '[' then
        match bracket rest with
        | some (item, taken) => item :: items taken rest
        | none => .literal '[' :: items 0 rest
      else .literal c :: items 0 rest

/-- Whether the items match the whole text. -/
def accepts : List Item → List Char → Bool
  | [], text => text.isEmpty
  | .star :: pattern, text => text.tails.any (accepts pattern)
  | _ :: _, [] => false
  | item :: pattern, c :: text => item.admits c && accepts pattern text

/-- Whether a text matches a pattern. -/
def fits (text pattern : List Char) : Bool := accepts (items 0 pattern) text

/-! ## Patterns without wildcards -/

def Literal (pattern : List Char) : Prop := ∀ c ∈ pattern, c ≠ '*' ∧ c ≠ '?' ∧ c ≠ '['

theorem Literal.tail {c : Char} {rest : List Char} (h : Literal (c :: rest)) : Literal rest :=
  fun d hd => h d (List.mem_cons_of_mem c hd)

theorem items_literal {pattern : List Char} (h : Literal pattern) :
    items 0 pattern = pattern.map .literal := by
  induction pattern with
  | nil => rfl
  | cons c rest ih =>
      obtain ⟨hstar, hany, hbracket⟩ := h c List.mem_cons_self
      rw [items, if_neg hstar, if_neg hany, if_neg hbracket, ih h.tail, List.map_cons]

theorem accepts_literals {pattern text : List Char} :
    accepts (pattern.map .literal) text = true ↔ text = pattern := by
  induction pattern generalizing text with
  | nil => simp [accepts, List.isEmpty_iff]
  | cons c rest ih =>
      cases text with
      | nil => simp [accepts]
      | cons d text =>
          rw [List.map_cons, accepts]
          · rw [Bool.and_eq_true, ih, List.cons.injEq]
            show decide (c = d) = true ∧ text = rest ↔ d = c ∧ text = rest
            rw [decide_eq_true_eq]
            exact and_congr_left fun _ => eq_comm
          · nofun

/-- A pattern without wildcards matches itself and nothing else. -/
theorem fits_literal {pattern text : List Char} (h : Literal pattern) :
    fits text pattern = true ↔ text = pattern := by
  rw [fits, items_literal h, accepts_literals]

/-! ## Patterns with one star -/

theorem items_append {start rest : List Char} (h : Literal start) :
    items 0 (start ++ rest) = start.map .literal ++ items 0 rest := by
  induction start with
  | nil => rfl
  | cons c start ih =>
      obtain ⟨hstar, hany, hbracket⟩ := h c List.mem_cons_self
      rw [List.cons_append, items, if_neg hstar, if_neg hany, if_neg hbracket, ih h.tail,
        List.map_cons, List.cons_append]

theorem accepts_around {start rest text : List Char}
    (h : accepts (start.map .literal ++ .star :: rest.map .literal) text = true) :
    start <+: text ∧ rest <:+ text := by
  induction start generalizing text with
  | nil =>
      have h : text.tails.any (accepts (rest.map .literal)) = true := h
      obtain ⟨tail, htail, haccepts⟩ := List.any_eq_true.mp h
      rw [← accepts_literals.mp haccepts]
      exact ⟨List.nil_prefix, (List.mem_tails _ _).mp htail⟩
  | cons c start ih =>
      cases text with
      | nil => exact nomatch h
      | cons d text =>
          have h : (decide (c = d) &&
              accepts (start.map .literal ++ .star :: rest.map .literal) text) = true := h
          rw [Bool.and_eq_true, decide_eq_true_eq] at h
          obtain ⟨rfl, hrest⟩ := h
          obtain ⟨hstart, hend⟩ := ih hrest
          exact ⟨List.cons_prefix_cons.mpr ⟨rfl, hstart⟩, hend.trans (List.suffix_cons _ _)⟩

/-- What matches a pattern with one star begins and ends as the pattern does. -/
theorem fits_star {start rest text : List Char} (hstart : Literal start) (hrest : Literal rest)
    (h : fits text (start ++ '*' :: rest) = true) : start <+: text ∧ rest <:+ text := by
  have hitems : items 0 (start ++ '*' :: rest) =
      start.map .literal ++ .star :: rest.map .literal := by
    rw [items_append hstart, items, if_pos rfl, items_literal hrest]
  rw [fits, hitems] at h
  exact accepts_around h

end Wildcard
