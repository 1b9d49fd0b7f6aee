import Mathlib.Data.List.Basic

/-!
# Texts of lines

A text in which every line ends with a terminator, as a list of lines
(`unlines`), the lines of a text (`lines`), and where a pattern that holds no
terminator can end a line: an occurrence of the pattern with the terminator behind
it lies at the end of one line (`unlines_eq_append`).
-/

namespace Lines

variable {α : Type} [DecidableEq α] {terminator : α}

/-- The text of a list of lines. -/
def unlines (terminator : α) : List (List α) → List α
  | [] => []
  | line :: rest => line ++ terminator :: unlines terminator rest

/-- The lines of a text of which `line` has been read; what follows the last
terminator is left out. -/
def linesFrom (terminator : α) : List α → List α → List (List α)
  | _, [] => []
  | line, a :: rest =>
      if a = terminator then line :: linesFrom terminator [] rest
      else linesFrom terminator (line ++ [a]) rest

/-- The lines of a text. -/
def lines (terminator : α) (text : List α) : List (List α) := linesFrom terminator [] text

omit [DecidableEq α] in
@[simp] theorem unlines_nil : unlines terminator [] = [] := rfl

omit [DecidableEq α] in
theorem unlines_cons (line : List α) (rest : List (List α)) :
    unlines terminator (line :: rest) = line ++ terminator :: unlines terminator rest := rfl

omit [DecidableEq α] in
theorem unlines_append (before after : List (List α)) :
    unlines terminator (before ++ after) = unlines terminator before ++ unlines terminator after := by
  induction before with
  | nil => rfl
  | cons line rest ih => simp [unlines_cons, ih]

theorem linesFrom_append {piece : List α} (hpiece : terminator ∉ piece) (line rest : List α) :
    linesFrom terminator line (piece ++ rest) = linesFrom terminator (line ++ piece) rest := by
  induction piece generalizing line with
  | nil => simp
  | cons a piece ih =>
    rw [List.mem_cons, not_or] at hpiece
    rw [List.cons_append, linesFrom, if_neg fun h => hpiece.1 h.symm, ih hpiece.2]
    simp

theorem lines_unlines {ls : List (List α)} (h : ∀ line ∈ ls, terminator ∉ line) :
    lines terminator (unlines terminator ls) = ls := by
  unfold lines
  induction ls with
  | nil => rfl
  | cons line rest ih =>
    rw [unlines_cons, linesFrom_append (h line List.mem_cons_self), List.nil_append, linesFrom,
      if_pos rfl, ih fun l hl => h l (List.mem_cons_of_mem line hl)]

theorem not_mem_of_mem_linesFrom {text line : List α} (hline : terminator ∉ line) :
    ∀ l ∈ linesFrom terminator line text, terminator ∉ l := by
  induction text generalizing line with
  | nil => exact nofun
  | cons a rest ih =>
    rw [linesFrom]
    split
    · intro l hl
      rcases List.mem_cons.mp hl with rfl | hl
      · exact hline
      · exact ih (by simp) l hl
    · rename_i hne
      exact ih (by simp [hline, Ne.symm hne])

theorem not_mem_of_mem_lines {text : List α} :
    ∀ l ∈ lines terminator text, terminator ∉ l :=
  not_mem_of_mem_linesFrom (by simp)

theorem unlines_linesFrom {text : List α} (line : List α)
    (h : ∀ a, text.getLast? = some a → a = terminator) (hline : text = [] → line = []) :
    unlines terminator (linesFrom terminator line text) = line ++ text := by
  induction text generalizing line with
  | nil =>
    rw [hline rfl]
    rfl
  | cons a rest ih =>
    have hrest : ∀ b, rest.getLast? = some b → b = terminator := by
      intro b hb
      apply h b
      rw [List.getLast?_cons, hb]
      rfl
    rw [linesFrom]
    split
    · rename_i ha
      rw [unlines_cons, ih [] hrest fun _ => rfl, ha]
      simp
    · rename_i ha
      rw [ih (line ++ [a]) hrest fun hnil => absurd (h a (by simp [hnil])) ha]
      simp

/-- A text that ends with a terminator is the text of its lines. -/
theorem unlines_lines {text : List α} (h : ∀ a, text.getLast? = some a → a = terminator) :
    unlines terminator (lines terminator text) = text :=
  unlines_linesFrom [] h fun _ => rfl

omit [DecidableEq α] in
/-- Two texts are split at their first terminator in one way. -/
theorem split_first {left left' right right' : List α} (h : terminator ∉ left)
    (h' : terminator ∉ left')
    (heq : left ++ terminator :: right = left' ++ terminator :: right') :
    left = left' ∧ right = right' := by
  induction left generalizing left' with
  | nil =>
    cases left' with
    | nil => exact ⟨rfl, (List.cons.inj heq).2⟩
    | cons a left' =>
      obtain ⟨rfl, -⟩ := List.cons.inj heq
      simp at h'
  | cons a left ih =>
    cases left' with
    | nil =>
      obtain ⟨rfl, -⟩ := List.cons.inj heq
      simp at h
    | cons b left' =>
      obtain ⟨rfl, htail⟩ := List.cons.inj heq
      obtain ⟨rfl, hright⟩ := ih (fun hmem => h (List.mem_cons_of_mem a hmem))
        (fun hmem => h' (List.mem_cons_of_mem a hmem)) htail
      exact ⟨rfl, hright⟩

/-- A pattern without a terminator that a terminator follows stands at the end of a line. -/
theorem unlines_eq_append {pattern after : List α} (hpattern : terminator ∉ pattern) :
    ∀ {ls : List (List α)} {before : List α}, (∀ line ∈ ls, terminator ∉ line) →
      unlines terminator ls = before ++ (pattern ++ terminator :: after) →
      ∃ earlier line later rest, ls = earlier ++ line :: later ∧ line = rest ++ pattern ∧
        before = unlines terminator earlier ++ rest ∧ after = unlines terminator later := by
  intro ls
  induction ls with
  | nil =>
    intro before _ h
    simp at h
  | cons line ls ih =>
    intro before hls h
    have hline := hls line List.mem_cons_self
    rw [unlines_cons] at h
    by_cases hbefore : terminator ∈ before
    · -- The first terminator is the one before the occurrence.
      obtain ⟨head, tail, hhead, hsplit⟩ := List.eq_append_cons_of_mem hbefore
      have hfirst : line = head ∧ unlines terminator ls = tail ++ (pattern ++ terminator :: after) := by
        rw [hhead, List.append_assoc, List.cons_append] at h
        exact split_first hline hsplit h
      obtain ⟨rfl, hrest⟩ := hfirst
      obtain ⟨earlier, l, later, rest, rfl, hl, hb, ha⟩ :=
        ih (fun l hl => hls l (List.mem_cons_of_mem line hl)) hrest
      refine ⟨line :: earlier, l, later, rest, rfl, hl, ?_, ha⟩
      rw [hhead, hb, unlines_cons]
      simp
    · have hfirst : line = before ++ pattern ∧ unlines terminator ls = after := by
        rw [← List.append_assoc] at h
        exact split_first hline (by rw [List.mem_append, not_or]; exact ⟨hbefore, hpattern⟩) h
      obtain ⟨rfl, hrest⟩ := hfirst
      exact ⟨[], _, ls, before, rfl, rfl, rfl, hrest.symm⟩

/-! ## Occurrences -/

/-- The positions at which the pattern stands in the text. -/
def occurrences (pattern text : List α) : List Nat :=
  (List.range (text.length + 1 - pattern.length)).filter fun index =>
    (text.drop index).take pattern.length = pattern

theorem mem_occurrences {pattern text : List α} {index : Nat} :
    index ∈ occurrences pattern text ↔
      ∃ before after, text = before ++ (pattern ++ after) ∧ before.length = index := by
  rw [occurrences, List.mem_filter, List.mem_range, decide_eq_true_iff]
  constructor
  · rintro ⟨hlt, htake⟩
    refine ⟨text.take index, (text.drop index).drop pattern.length, ?_, ?_⟩
    · nth_rewrite 1 [← List.take_append_drop index text]
      nth_rewrite 1 [← List.take_append_drop pattern.length (text.drop index)]
      rw [htake]
    · rw [List.length_take]
      omega
  · rintro ⟨before, after, rfl, rfl⟩
    simp
    omega

theorem occurrences_nodup (pattern text : List α) : (occurrences pattern text).Nodup :=
  List.nodup_range.filter _

/-- A pattern that stands in one place only. -/
theorem occurrences_eq_singleton {pattern text : List α} {index : Nat} :
    occurrences pattern text = [index] ↔
      index ∈ occurrences pattern text ∧ ∀ other ∈ occurrences pattern text, other = index := by
  constructor
  · intro h
    simp [h]
  · rintro ⟨hmem, hall⟩
    have hnodup := occurrences_nodup pattern text
    generalize occurrences pattern text = found at *
    match found, hmem, hall, hnodup with
    | [a], hmem, _, _ => simp_all
    | a :: b :: rest, _, hall, hnodup =>
      have hab : a = b := (hall a (by simp)).trans (hall b (by simp)).symm
      simp [hab] at hnodup

end Lines
