import BmxUpdate.Library.Crash
import BmxUpdate.Library.Interaction

/-!
# Components on a disk

Surroundings of a `Program` in which some operations are served by a component
that is known: a `Proc` on a disk, run under a schedule of faults that may be
another one at every operation.  The other operations are answered anything and
change the disk as `others` allows.  The world is the disk and the history of
the run; a served operation that is cut stops the program.
-/

namespace Interaction

open Crash

variable {Op : Type} {Answer : Op → Type} {δ : Type}

/-- The operations a component serves, each with what it runs. -/
abbrev Component (Op : Type) (Answer : Op → Type) (δ : Type) :=
  (op : Op) → Option (Proc Unit Unit δ (Answer op))

/-- Two components, the second for the operations the first does not serve. -/
def Component.beside (first second : Component Op Answer δ) : Component Op Answer δ :=
  fun op => (first op).or (second op)

/-- The fault schedules of a run, one for every operation. -/
abbrev Schedules (Op : Type) (Answer : Op → Type) := History Op Answer → List Fault

/-- A component on a disk, among others. -/
def onDisk (component : Component Op Answer δ) (faults : Schedules Op Answer)
    (others : Op → δ → δ → Prop) : Surroundings Op Answer (δ × History Op Answer) where
  answers := fun w op x w' =>
    w'.2 = ⟨op, x⟩ :: w.2 ∧
      match component op with
      | some m => (m () ⟨w.1, faults w.2⟩).result = some x ∧
          w'.1 = (m () ⟨w.1, faults w.2⟩).disk
      | none => others op w.1 w'.1
  halts := fun w op w' =>
    w'.2 = w.2 ∧
      match component op with
      | some m => (m () ⟨w.1, faults w.2⟩).result = none ∧
          w'.1 = (m () ⟨w.1, faults w.2⟩).disk
      | none => others op w.1 w'.1

/-- The run in which the other components give the answers of `answer` and leave
the disk alone; nothing if the component does not answer. -/
def runOnDisk {α : Type} (component : Component Op Answer δ) (faults : Schedules Op Answer)
    (answer : (op : Op) → Answer op) :
    Program Op Answer α → δ → History Op Answer → Option (α × δ × History Op Answer)
  | .pure a, d, h => some (a, d, h)
  | .call op next, d, h =>
      match component op with
      | some m =>
          match m () ⟨d, faults h⟩ with
          | .done x _ w => runOnDisk component faults answer (next x) w.disk (⟨op, x⟩ :: h)
          | _ => none
      | none => runOnDisk component faults answer (next (answer op)) d (⟨op, answer op⟩ :: h)

variable {component : Component Op Answer δ} {faults : Schedules Op Answer}
  {others : Op → δ → δ → Prop} {guard : δ × History Op Answer → Op → Prop} {α : Type} {op : Op}
  {k : Answer op → Program Op Answer α} {d : δ} {h : History Op Answer}

theorem reaches_runOnDisk {answer : (op : Op) → Answer op} (hothers : ∀ op d, others op d d)
    {p : Program Op Answer α} {a : α} {d' : δ} {h' : History Op Answer}
    (hrun : runOnDisk component faults answer p d h = some (a, d', h')) :
    Reaches (onDisk component faults others) (some p, (d, h)) (some (.pure a), (d', h')) := by
  induction p generalizing d h with
  | pure b =>
      cases hrun
      exact .refl _
  | call op next ih =>
      unfold runOnDisk at hrun
      split at hrun
      · next m hserved =>
        split at hrun
        · next x s w hout =>
          refine (Reaches.answer (.refl _) ?_).trans (ih x hrun)
          refine ⟨rfl, ?_⟩
          rw [hserved]
          dsimp only
          rw [hout]
          exact ⟨rfl, rfl⟩
        · cases hrun
      · next hserved =>
        refine (Reaches.answer (.refl _) ?_).trans (ih (answer op) hrun)
        refine ⟨rfl, ?_⟩
        rw [hserved]
        exact hothers op d

namespace Program

/-- An operation the component serves, then the rest. -/
theorem guarded_served {Q : α → δ × History Op Answer → Prop}
    {m : Proc Unit Unit δ (Answer op)} (hserved : component op = some m)
    (hguard : guard (d, h) op)
    (hk : ∀ x, (m () ⟨d, faults h⟩).result = some x →
      (k x).Guarded (onDisk component faults others) guard Q
        ((m () ⟨d, faults h⟩).disk, ⟨op, x⟩ :: h)) :
    Guarded (onDisk component faults others) guard Q (ask op >>= k) (d, h) := by
  refine guarded_ask hguard ?_
  rintro x ⟨d', h'⟩ ⟨hhistory, hanswer⟩
  rw [hserved] at hanswer
  obtain ⟨hresult, hdisk⟩ := hanswer
  dsimp only at hhistory hresult hdisk
  rw [hhistory, hdisk]
  exact hk x hresult

/-- An operation of another component, then the rest. -/
theorem guarded_unserved {Q : α → δ × History Op Answer → Prop}
    (hserved : component op = none) (hguard : guard (d, h) op)
    (hk : ∀ x d', others op d d' →
      (k x).Guarded (onDisk component faults others) guard Q (d', ⟨op, x⟩ :: h)) :
    Guarded (onDisk component faults others) guard Q (ask op >>= k) (d, h) := by
  refine guarded_ask hguard ?_
  rintro x ⟨d', h'⟩ ⟨hhistory, hanswer⟩
  rw [hserved] at hanswer
  dsimp only at hhistory
  rw [hhistory]
  exact hk x d' hanswer

end Program

end Interaction
