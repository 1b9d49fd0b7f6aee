import BmxUpdate.Library.Interaction

/-!
# Traces of whole runs

`Runs p t a`: a run of the program `p` performs the operations of the trace `t`,
oldest first, is answered as `t` says, and ends in `a`.  The trace of a
sequence of programs is the concatenation of theirs (`runs_bind`), so what a
program does is stated and proved part by part.

The operations of one component in a trace are what its projection keeps
(`List.filterMap`), which also goes part by part.
-/

namespace Interaction

namespace Program

variable {Op : Type} {Answer : Op → Type} {α β : Type}

/-- A run of a program with its trace, oldest event first, and its value. -/
inductive Runs : Program Op Answer α → List (Event Op Answer) → α → Prop
  | pure (a : α) : Runs (.pure a) [] a
  | call {op : Op} {next : Answer op → Program Op Answer α} {x : Answer op}
      {t : List (Event Op Answer)} {a : α} (h : Runs (next x) t a) :
      Runs (.call op next) (⟨op, x⟩ :: t) a

variable {p : Program Op Answer α} {k : α → Program Op Answer β} {t : List (Event Op Answer)}

theorem runs_pure {a b : α} : Runs (Pure.pure a : Program Op Answer α) t b ↔ t = [] ∧ b = a := by
  constructor
  · intro h
    cases h
    exact ⟨rfl, rfl⟩
  · rintro ⟨rfl, rfl⟩
    exact .pure b

theorem runs_bind {b : β} :
    Runs (p >>= k) t b ↔ ∃ t₁ t₂ a, t = t₁ ++ t₂ ∧ Runs p t₁ a ∧ Runs (k a) t₂ b := by
  change Runs (p.bind k) t b ↔ _
  constructor
  · intro h
    induction p generalizing t with
    | pure a => exact ⟨[], t, a, rfl, .pure a, h⟩
    | call op next ih =>
        obtain _ | h := h
        obtain ⟨t₁, t₂, a, rfl, hp, hk⟩ := ih _ h
        exact ⟨_ :: t₁, t₂, a, rfl, .call hp, hk⟩
  · rintro ⟨t₁, t₂, a, rfl, hp, hk⟩
    induction hp with
    | pure a => exact hk
    | call _ ih => exact .call (ih hk)

theorem runs_call {op : Op} {next : Answer op → Program Op Answer β} {b : β} :
    Runs (.call op next) t b ↔ ∃ x t', t = ⟨op, x⟩ :: t' ∧ Runs (next x) t' b := by
  constructor
  · intro h
    obtain _ | h := h
    exact ⟨_, _, rfl, h⟩
  · rintro ⟨x, t', rfl, h⟩
    exact .call h

/-- One operation, then the rest of the program. -/
theorem runs_ask {op : Op} {k : Answer op → Program Op Answer β} {b : β} :
    Runs (ask op >>= k) t b ↔ ∃ x t', t = ⟨op, x⟩ :: t' ∧ Runs (k x) t' b :=
  @runs_call _ _ _ _ op (fun x => k x) b

/-- Apply `f` to what the program returns. -/
def map (f : α → β) : Program Op Answer α → Program Op Answer β
  | .pure a => .pure (f a)
  | .call op next => .call op fun x => (next x).map f

theorem runs_map {f : α → β} {b : β} : Runs (p.map f) t b ↔ ∃ a, b = f a ∧ Runs p t a := by
  constructor
  · intro h
    induction p generalizing t with
    | pure a =>
        cases h
        exact ⟨a, rfl, .pure a⟩
    | call op next ih =>
        obtain _ | h := h
        obtain ⟨a, hb, ha⟩ := ih _ h
        exact ⟨a, hb, .call ha⟩
  · rintro ⟨a, rfl, h⟩
    induction h with
    | pure a => exact .pure (f a)
    | call _ ih => exact .call ih

end Program

/-! ## Programs that may fail -/

namespace Fallible

open Program (Runs runs_map)

variable {Op : Type} {Answer : Op → Type} {ε ε' α β : Type} {t : List (Event Op Answer)}

/-- The same program with its errors renamed. -/
def rename (f : ε → ε') (p : Fallible Op Answer ε α) : Fallible Op Answer ε' α :=
  ExceptT.mk (p.run.map (Except.mapError f))

@[simp] theorem rename_pure {f : ε → ε'} (a : α) :
    rename f (pure a : Fallible Op Answer ε α) = pure a := rfl

theorem rename_bind {f : ε → ε'} (p : Fallible Op Answer ε α) (k : α → Fallible Op Answer ε β) :
    rename f (p >>= k) = rename f p >>= fun a => rename f (k a) := by
  have hprograms : ∀ q : Program Op Answer (Except ε α),
      (rename f ((ExceptT.mk q : Fallible Op Answer ε α) >>= k)).run =
        (rename f (ExceptT.mk q : Fallible Op Answer ε α) >>= fun a => rename f (k a)).run := by
    intro q
    induction q with
    | pure r =>
        cases r with
        | ok a => rfl
        | error e => rfl
    | call op next ih => exact congrArg (Program.call op) (funext ih)
  exact hprograms p.run

theorem runs_rename {f : ε → ε'} {p : Fallible Op Answer ε α} {r : Except ε' α} :
    Runs (rename f p).run t r ↔ ∃ r', r = Except.mapError f r' ∧ Runs p.run t r' :=
  runs_map

/-- A test that holds is passed. -/
theorem check_of {condition : Prop} [Decidable condition] {e : ε} (h : condition) :
    (check condition e : Fallible Op Answer ε PUnit) = pure ⟨⟩ := if_pos h

end Fallible

end Interaction
