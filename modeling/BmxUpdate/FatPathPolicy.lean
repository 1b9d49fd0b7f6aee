import BmxUpdate.Library.Wire
import Mathlib.Data.List.Basic

/-!
# FAT release paths

`ValidateFatRelativePathBytes` (`fat_path_policy.cpp`): one pass over the bytes of
a path that checks each component where it ends.  `FatRelativePath` says what the
pass establishes, component by component.
-/

namespace BmxUpdate

open Wire

namespace FatPath

inductive FatPathValidationStatus where
  | ok | invalidArgument | pathTooLong | invalidPath
deriving DecidableEq, Repr

/-- `AsciiLower` -/
def asciiLower (value : UInt8) : UInt8 :=
  if 0x41 ≤ value ∧ value ≤ 0x5a then value + 0x20 else value

/-- `EqualsAsciiIgnoreCase` -/
def equalsAsciiIgnoreCase (value expected : Bytes) : Bool :=
  value.map asciiLower = expected.map asciiLower

/-- `IsReservedStem` -/
def isReservedStem (component : Bytes) : Bool :=
  let stem := component.takeWhile (· ≠ 0x2e)
  [bytesOf "CON", bytesOf "PRN", bytesOf "AUX", bytesOf "NUL"].any (equalsAsciiIgnoreCase stem) ||
    (stem.length == 4 &&
      (equalsAsciiIgnoreCase (component.take 3) (bytesOf "COM") ||
        equalsAsciiIgnoreCase (component.take 3) (bytesOf "LPT")) &&
      component[3]?.any fun c => 0x31 ≤ c && c ≤ 0x39)

/-- `IsForbidden` -/
def isForbidden (value : UInt8) : Bool := value ∈ bytesOf "\"*:<>?\\|"

/-- The checks of a component that has ended. -/
def componentValid (component : Bytes) : Bool :=
  component ≠ [] && component.length ≤ 255 && component.head? ≠ some 0x20 &&
    component.getLast? ≠ some 0x20 && component.getLast? ≠ some 0x2e &&
    component ≠ [0x2e] && component ≠ [0x2e, 0x2e] && !isReservedStem component

/-- The loop: the component so far, and the bytes that remain. -/
def componentsValid : Bytes → Bytes → Bool
  | component, [] => componentValid component
  | component, value :: rest =>
      if value ≠ 0x2f then
        !(value < 0x20 || 0x7e < value || isForbidden value) &&
          componentsValid (component ++ [value]) rest
      else componentValid component && componentsValid [] rest

def validateFatRelativePathBytes (path : Bytes) (maximumPathBytes : Nat) :
    FatPathValidationStatus :=
  if maximumPathBytes = 0 then .invalidArgument
  else if path = [] then .invalidPath
  else if maximumPathBytes < path.length then .pathTooLong
  else if path.head? = some 0x2f ∨ path.getLast? = some 0x2f then .invalidPath
  else if componentsValid [] path then .ok else .invalidPath

/-! ## What it establishes -/

/-- A printable byte that FAT allows in a name. -/
def NameByte (value : UInt8) : Prop :=
  ¬ value < 0x20 ∧ ¬ 0x7e < value ∧ isForbidden value = false ∧ value ≠ 0x2f

/-- The release policy: bounded, and every component is a name FAT keeps as it is. -/
structure FatRelativePath (maximumPathBytes : Nat) (path : Bytes) : Prop where
  nonempty : path ≠ []
  bounded : path.length ≤ maximumPathBytes
  components : ∀ component ∈ path.splitOn 0x2f,
    componentValid component = true ∧ ∀ value ∈ component, NameByte value

theorem splitOn_slash {component rest : Bytes} (h : ∀ value ∈ component, NameByte value) :
    (component ++ 0x2f :: rest).splitOn 0x2f = component :: rest.splitOn 0x2f := by
  unfold List.splitOn
  apply List.splitOnP_append_cons_of_forall_mem
  · intro value hvalue
    simpa using (h value hvalue).2.2.2
  · rfl

theorem splitOn_end {component : Bytes} (h : ∀ value ∈ component, NameByte value) :
    component.splitOn 0x2f = [component] := by
  unfold List.splitOn
  apply List.splitOnP_eq_singleton
  intro value hvalue
  simpa using (h value hvalue).2.2.2

theorem exists_component_of_mem {path : Bytes} {value : UInt8} (h : value ∈ path)
    (hslash : value ≠ 0x2f) : ∃ c ∈ path.splitOn 0x2f, value ∈ c := by
  induction path with
  | nil => simp at h
  | cons first path ih =>
      obtain ⟨c, cs, hsplit⟩ := List.exists_cons_of_ne_nil
        (List.splitOnP_ne_nil (fun x => x == 0x2f) path)
      have hpath : path.splitOn 0x2f = c :: cs := hsplit
      unfold List.splitOn
      rw [List.splitOnP_cons_eq_if_modifyHead, hsplit]
      by_cases hfirst : first = 0x2f
      · have hmem : value ∈ path := (List.mem_cons.mp h).resolve_left (hfirst ▸ hslash)
        rw [hpath] at ih
        obtain ⟨d, hd, hvalue⟩ := ih hmem
        exact ⟨d, by simpa [hfirst] using Or.inr (List.mem_cons.mp hd), hvalue⟩
      · simp only [beq_iff_eq, hfirst, if_false, List.modifyHead_cons]
        rcases List.mem_cons.mp h with rfl | hmem
        · exact ⟨value :: c, by simp, by simp⟩
        · rw [hpath] at ih
          obtain ⟨d, hd, hvalue⟩ := ih hmem
          rcases List.mem_cons.mp hd with rfl | hd
          · exact ⟨first :: d, by simp, List.mem_cons_of_mem _ hvalue⟩
          · exact ⟨d, List.mem_cons_of_mem _ hd, hvalue⟩

theorem componentsValid_iff {component rest : Bytes} (h : ∀ value ∈ component, NameByte value) :
    componentsValid component rest = true ↔
      ∀ c ∈ (component ++ rest).splitOn 0x2f,
        componentValid c = true ∧ ∀ value ∈ c, NameByte value := by
  induction rest generalizing component with
  | nil =>
      rw [List.append_nil, splitOn_end h]
      simpa [componentsValid] using fun _ => h
  | cons value rest ih =>
      by_cases hslash : value = 0x2f
      · subst hslash
        have hrest := @ih [] (by simp)
        rw [List.nil_append] at hrest
        rw [splitOn_slash h]
        simp only [componentsValid, ne_eq, not_true, if_false, Bool.and_eq_true, hrest,
          List.mem_cons, forall_eq_or_imp]
        exact and_congr_left fun _ => ⟨fun hc => ⟨hc, h⟩, fun hc => hc.1⟩
      · have hname : (!(value < 0x20 || 0x7e < value || isForbidden value)) = true ↔
            NameByte value := by
          simp [NameByte, hslash, and_assoc]
        simp only [componentsValid, ne_eq, hslash, not_false_eq_true, if_true, Bool.and_eq_true,
          hname]
        by_cases hvalue : NameByte value
        · have hlonger : ∀ v ∈ component ++ [value], NameByte v := by
            intro v hv
            rcases List.mem_append.mp hv with hv | hv
            · exact h v hv
            · exact List.mem_singleton.mp hv ▸ hvalue
          have hrest := ih hlonger
          rw [List.append_assoc, List.singleton_append] at hrest
          simp [hvalue, hrest]
        · -- The byte ends up in some component.
          obtain ⟨c, hc, hmem⟩ := exists_component_of_mem
            (show value ∈ component ++ value :: rest by simp) hslash
          exact ⟨fun hboth => absurd hboth.1 hvalue,
            fun hall => absurd ((hall c hc).2 value hmem) hvalue⟩

theorem validateFatRelativePathBytes_ok_iff {path : Bytes} {maximumPathBytes : Nat} :
    validateFatRelativePathBytes path maximumPathBytes = .ok ↔
      FatRelativePath maximumPathBytes path := by
  have hcomponents := @componentsValid_iff [] path (by simp)
  rw [List.nil_append] at hcomponents
  unfold validateFatRelativePathBytes
  constructor
  · intro h
    split at h
    · cases h
    · split at h
      · cases h
      · next hnonempty =>
          split at h
          · cases h
          · next hbounded =>
              split at h
              · cases h
              · split at h
                · next hvalid => exact ⟨hnonempty, by omega, hcomponents.mp hvalid⟩
                · cases h
  · intro h
    have hempty : componentValid [] = false := rfl
    have hlength : 0 < path.length := List.length_pos_iff.mpr h.nonempty
    have hbounded := h.bounded
    have hends : ¬ (path.head? = some 0x2f ∨ path.getLast? = some 0x2f) := by
      intro hslash
      have hsplit : ([] : Bytes) ∈ path.splitOn 0x2f := by
        unfold List.splitOn
        rcases hslash with hhead | hlast
        · obtain ⟨rest, rfl⟩ : ∃ rest, path = [] ++ 0x2f :: rest := by
            cases path with
            | nil => cases hhead
            | cons c rest => exact ⟨rest, by simpa using hhead⟩
          rw [List.splitOnP_append_cons _ _ rfl]
          simp
        · obtain ⟨front, rfl⟩ : ∃ front, path = front ++ 0x2f :: [] :=
            List.getLast?_eq_some_iff.mp hlast
          rw [List.splitOnP_append_cons _ _ rfl]
          simp
      rw [(h.components [] hsplit).1] at hempty
      cases hempty
    rw [if_neg (by omega), if_neg h.nonempty, if_neg (by omega), if_neg hends,
      if_pos (hcomponents.mpr h.components)]

end FatPath

end BmxUpdate
