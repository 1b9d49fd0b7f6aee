import Mathlib.Data.List.Induction
import Mathlib.Data.List.TakeWhile

/-!
# Paths and their ancestors

A path is a sequence of characters in which a separator ends each directory.  The ancestors
of a path are what stands before one of its separators, the nearest first.
-/

namespace Paths

variable {α : Type} [DecidableEq α] {separator : α} {path ancestor other : List α}

/-- What stands before the last separator; nothing if there is none. -/
def parent (separator : α) (path : List α) : List α :=
  path.take (path.length - ((path.reverse.takeWhile (· ≠ separator)).length + 1))

/-- A path and the parents above it, up to the first that is empty. -/
def upwards (separator : α) : Nat → List α → List (List α)
  | 0, _ => []
  | fuel + 1, path =>
      if path = [] then [] else path :: upwards separator fuel (parent separator path)

/-- The directories above a path. -/
def ancestors (separator : α) (path : List α) : List (List α) :=
  upwards separator path.length (parent separator path)

theorem parent_append {before last : List α} (h : separator ∉ last) :
    parent separator (before ++ separator :: last) = before := by
  have htake : ((before ++ separator :: last).reverse.takeWhile (· ≠ separator)).length =
      last.length := by
    rw [List.reverse_append, List.reverse_cons, List.append_assoc, List.takeWhile_append_of_pos]
    · simp
    · intro c hc
      rw [List.mem_reverse] at hc
      have hne : c ≠ separator := fun heq => h (heq ▸ hc)
      simpa using hne
  rw [parent, htake, List.length_append, List.length_cons, Nat.add_sub_cancel, List.take_left]

theorem parent_of_not_mem (h : separator ∉ path) : parent separator path = [] := by
  have hall : path.reverse.takeWhile (· ≠ separator) = path.reverse := by
    rw [List.takeWhile_eq_self_iff]
    intro c hc
    rw [List.mem_reverse] at hc
    have hne : c ≠ separator := fun heq => h (heq ▸ hc)
    simpa using hne
  rw [parent, hall, List.length_reverse, Nat.sub_eq_zero_of_le (Nat.le_succ _), List.take_zero]

/-- A path with a separator is its parent and a last component. -/
theorem exists_parent (h : separator ∈ path) :
    ∃ last, separator ∉ last ∧ path = parent separator path ++ separator :: last := by
  induction path using List.reverseRecOn with
  | nil => cases h
  | append_singleton path c ih =>
      by_cases hc : c = separator
      · refine ⟨[], List.not_mem_nil, ?_⟩
        rw [hc, parent_append List.not_mem_nil]
      · have hin : separator ∈ path := by
          rcases List.mem_append.mp h with hin | hin
          · exact hin
          · exact absurd (List.mem_singleton.mp hin).symm hc
        obtain ⟨last, hlast, hpath⟩ := ih hin
        have hnot : separator ∉ last ++ [c] := by
          rw [List.mem_append, List.mem_singleton]
          exact fun hor => hor.elim hlast fun heq => hc heq.symm
        have hsplit : path ++ [c] = parent separator path ++ separator :: (last ++ [c]) := by
          conv_lhs => rw [hpath]
          rw [List.append_assoc, List.cons_append]
        refine ⟨last ++ [c], hnot, ?_⟩
        rw [hsplit, parent_append hnot]

/-- What a separator of the path follows is the parent or what a separator of the parent
follows. -/
theorem above_iff (hne : ancestor ≠ []) :
    (∃ rest, path = ancestor ++ separator :: rest) ↔
      ancestor = parent separator path ∨
        ∃ rest, parent separator path = ancestor ++ separator :: rest := by
  by_cases hin : separator ∈ path
  · obtain ⟨last, hlast, hpath⟩ := exists_parent hin
    constructor
    · intro h
      obtain ⟨rest, hrest⟩ := h
      by_cases hmore : separator ∈ rest
      · obtain ⟨last', hlast', hparent⟩ := exists_parent hmore
        have hwhole : path =
            (ancestor ++ separator :: parent separator rest) ++ separator :: last' := by
          conv_lhs => rw [hrest, hparent]
          rw [List.append_assoc, List.cons_append]
        refine Or.inr ⟨parent separator rest, ?_⟩
        rw [hwhole, parent_append hlast']
      · left
        rw [hrest, parent_append hmore]
    · intro h
      obtain heq | ⟨rest, hrest⟩ := h
      · exact ⟨last, heq ▸ hpath⟩
      · refine ⟨rest ++ separator :: last, ?_⟩
        rw [← List.cons_append, ← List.append_assoc, ← hrest]
        exact hpath
  · rw [parent_of_not_mem hin]
    constructor
    · intro h
      obtain ⟨rest, hrest⟩ := h
      exact absurd (hrest ▸ List.mem_append_right _ List.mem_cons_self) hin
    · intro h
      obtain heq | ⟨rest, hrest⟩ := h
      · exact absurd heq hne
      · exact absurd hrest.symm (by simp)

theorem length_parent (separator : α) (hne : path ≠ []) : (parent separator path).length < path.length := by
  rw [parent, List.length_take]
  have := List.length_pos_iff.mpr hne
  omega

theorem mem_upwards {fuel : Nat} (hfuel : path.length ≤ fuel) :
    ancestor ∈ upwards separator fuel path ↔
      ancestor ≠ [] ∧ (ancestor = path ∨ ∃ rest, path = ancestor ++ separator :: rest) := by
  induction fuel generalizing path with
  | zero =>
      have hnil : path = [] := List.eq_nil_of_length_eq_zero (by omega)
      subst hnil
      simp [upwards]
  | succ fuel ih =>
      rw [upwards]
      split
      · next hnil =>
          subst hnil
          simp
      · next hne =>
          have hshort := length_parent separator hne
          rw [List.mem_cons, ih (by omega)]
          constructor
          · intro h
            obtain heq | ⟨hne', habove⟩ := h
            · exact ⟨heq ▸ hne, Or.inl heq⟩
            · exact ⟨hne', Or.inr ((above_iff hne').mpr habove)⟩
          · intro h
            obtain ⟨hne', heq | habove⟩ := h
            · exact Or.inl heq
            · exact Or.inr ⟨hne', (above_iff hne').mp habove⟩

/-- The ancestors are the non-empty beginnings that a separator follows. -/
theorem mem_ancestors :
    ancestor ∈ ancestors separator path ↔
      ancestor ≠ [] ∧ ∃ rest, path = ancestor ++ separator :: rest := by
  have hlength : (parent separator path).length ≤ path.length := by
    rw [parent, List.length_take]
    exact Nat.min_le_right _ _
  rw [ancestors, mem_upwards hlength]
  exact and_congr_right fun hne => (above_iff hne).symm

/-- What is above an ancestor is above the path. -/
theorem ancestors_trans (hother : other ∈ ancestors separator ancestor)
    (h : ancestor ∈ ancestors separator path) : other ∈ ancestors separator path := by
  obtain ⟨hne, rest, hrest⟩ := mem_ancestors.mp hother
  obtain ⟨-, rest', hrest'⟩ := mem_ancestors.mp h
  refine mem_ancestors.mpr ⟨hne, rest ++ separator :: rest', ?_⟩
  rw [hrest', hrest, List.append_assoc, List.cons_append]

/-! ## Files and directories on one volume -/

section Volume

variable {β : Type} {key : List α → β} {files directories listed : List α → Prop}

/-- The files, the directories, and everything above them. -/
def Present (separator : α) (files directories : List α → Prop) (path : List α) : Prop :=
  files path ∨ directories path ∨
    ∃ other, (files other ∨ directories other) ∧ path ∈ ancestors separator other

/-- Files and directories that can stand together on a volume which takes two paths with one
key for one: paths that are not the same have different keys, and no file is above another
path. -/
structure Coexist (separator : α) (key : List α → β) (files directories : List α → Prop) :
    Prop where
  distinct : ∀ p q, Present separator files directories p → Present separator files directories q →
    key p = key q → p = q
  separate : ∀ file path ancestor, files file → (files path ∨ directories path) →
    ancestor ∈ ancestors separator path → key file ≠ key ancestor

/-- The directories that are listed, and those above the files. -/
def Needed (separator : α) (files listed : List α → Prop) (path : List α) : Prop :=
  listed path ∨ ∃ file, files file ∧ path ∈ ancestors separator file

/-- Nothing is in the way of the directories above the listed ones. -/
def ClearAbove (separator : α) (key : List α → β) (files listed : List α → Prop) : Prop :=
  ∀ directory, listed directory → ∀ ancestor ∈ ancestors separator directory,
    (∀ file, files file → key file ≠ key ancestor) ∧
      ∀ path, (Needed separator files listed path ∨
          ∃ other, listed other ∧ path ∈ ancestors separator other) →
        key path = key ancestor → path = ancestor

/-- Where the files and the needed directories are told apart, all that is missing is what
stands above the listed directories. -/
theorem coexist_iff (hfiles : ∀ p q, files p → files q → key p = key q → p = q)
    (hdirectories : ∀ p q, Needed separator files listed p → Needed separator files listed q →
      key p = key q → p = q)
    (hseparate : ∀ p q, files p → Needed separator files listed q → key p ≠ key q) :
    Coexist separator key files (Needed separator files listed) ↔
      ClearAbove separator key files listed := by
  constructor
  · intro h directory hlisted ancestor habove
    have hancestor : Present separator files (Needed separator files listed) ancestor :=
      Or.inr (Or.inr ⟨directory, Or.inr (Or.inl hlisted), habove⟩)
    refine ⟨fun file hfile => ?_, fun path hpath hkey => ?_⟩
    · exact h.separate file directory ancestor hfile (Or.inr (Or.inl hlisted)) habove
    · refine h.distinct path ancestor ?_ hancestor hkey
      obtain hneeded | ⟨other, hother, hpath⟩ := hpath
      · exact Or.inr (Or.inl hneeded)
      · exact Or.inr (Or.inr ⟨other, Or.inr (Or.inl hother), hpath⟩)
  · intro h
    -- what is above something is needed, or above a listed directory
    have habove : ∀ path ancestor, files path ∨ Needed separator files listed path →
        ancestor ∈ ancestors separator path → Needed separator files listed ancestor ∨
          ∃ other, listed other ∧ ancestor ∈ ancestors separator other := by
      intro path ancestor hpath hancestor
      obtain hfile | hlisted | ⟨file, hfile, hin⟩ := hpath
      · exact Or.inl (Or.inr ⟨path, hfile, hancestor⟩)
      · exact Or.inr ⟨path, hlisted, hancestor⟩
      · exact Or.inl (Or.inr ⟨file, hfile, ancestors_trans hancestor hin⟩)
    have hcases : ∀ path, Present separator files (Needed separator files listed) path →
        files path ∨ Needed separator files listed path ∨
          ∃ other, listed other ∧ path ∈ ancestors separator other := by
      intro path hpath
      obtain hfile | hneeded | ⟨other, hother, hin⟩ := hpath
      · exact Or.inl hfile
      · exact Or.inr (Or.inl hneeded)
      · exact Or.inr (habove other path hother hin)
    constructor
    · intro p q hp hq hkey
      obtain hp | hp := hcases p hp
      · obtain hq | hq | ⟨other, hother, hq⟩ := hcases q hq
        · exact hfiles p q hp hq hkey
        · exact absurd hkey (hseparate p q hp hq)
        · exact absurd hkey ((h other hother q hq).1 p hp)
      · obtain hq | hq | ⟨other, hother, hq⟩ := hcases q hq
        · obtain hp | ⟨other, hother, hp⟩ := hp
          · exact absurd hkey.symm (hseparate q p hq hp)
          · exact absurd hkey.symm ((h other hother p hp).1 q hq)
        · obtain hp' | ⟨other, hother, hp'⟩ := hp
          · exact hdirectories p q hp' hq hkey
          · exact ((h other hother p hp').2 q (Or.inl hq) hkey.symm).symm
        · exact (h other hother q hq).2 p hp hkey
    · intro file path ancestor hfile hpath hancestor
      obtain hneeded | ⟨other, hother, hin⟩ := habove path ancestor hpath hancestor
      · exact hseparate file ancestor hfile hneeded
      · exact (h other hother ancestor hin).1 file hfile

end Volume

end Paths
