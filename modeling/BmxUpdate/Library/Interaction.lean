/-!
# Programs among components they do not know

A `Program Op Answer α` asks the components around it to perform operations and
goes on with what they answer; it has no other effect.  What the components are
is left to `Surroundings`: the worlds an operation can lead to with each answer,
and the worlds in which the program can be stopped inside it.  A program with
deterministic surroundings is a function, and one that may be answered anything
is covered by the same definitions.

`Reaches` is the transition relation of a program in its surroundings.
`Guarded guard Q` is the rule for it: every operation the program performs is
one `guard` permits in the world it is performed in, and the program ends in
`Q`.  It is proved along the program, one step lemma an operation, and
`guarded_of_reaches` carries it to every configuration a run goes through.

`recording` are the surroundings in which components answer anything and the
world is the history of the run, newest event first.  `Since P Q` and `Once Q`
are the past-time operators over such a history.
-/

namespace Interaction

/-- An operation and what it was answered. -/
structure Event (Op : Type) (Answer : Op → Type) where
  op : Op
  answer : Answer op

/-- The events of a run, newest first. -/
abbrev History (Op : Type) (Answer : Op → Type) := List (Event Op Answer)

/-- A program that asks for operations. -/
inductive Program (Op : Type) (Answer : Op → Type) (α : Type) where
  | pure (a : α)
  | call (op : Op) (next : Answer op → Program Op Answer α)

variable {Op : Type} {Answer : Op → Type} {α β W : Type}

namespace Program

/-- Run `p`, then `k` on its value. -/
def bind : Program Op Answer α → (α → Program Op Answer β) → Program Op Answer β
  | .pure a, k => k a
  | .call op next, k => .call op fun x => (next x).bind k

instance : Monad (Program Op Answer) where
  pure := Program.pure
  bind := Program.bind

/-- Perform one operation. -/
def ask (op : Op) : Program Op Answer (Answer op) := .call op .pure

end Program

/-- The operation a program stands before. -/
def Program.next? : Program Op Answer α → Option Op
  | .pure _ => none
  | .call op _ => some op

/-- The value of a program that has ended. -/
def Program.value? : Program Op Answer α → Option α
  | .pure a => some a
  | .call _ _ => none

theorem Program.eq_pure_of_value {p : Program Op Answer α} {a : α} (h : p.value? = some a) :
    p = .pure a := by
  cases p with
  | pure b => rw [Option.some.inj h]
  | call op k => cases h

theorem Program.exists_pure {p : Program Op Answer α} {f : α → Bool}
    (h : p.value?.any f = true) : ∃ a, p = .pure a ∧ f a = true := by
  obtain ⟨a, hvalue, ha⟩ := (Option.any_eq_true _ _).mp h
  exact ⟨a, eq_pure_of_value hvalue, ha⟩

theorem Program.exists_call {p : Program Op Answer α} {f : Op → Bool}
    (h : p.next?.any f = true) : ∃ op k, p = .call op k ∧ f op = true := by
  cases p with
  | pure a => cases h
  | call op k => exact ⟨op, k, rfl, h⟩

/-! ## Surroundings -/

/-- What components can do with an operation: answer it, or stop the program
inside it for good. -/
structure Surroundings (Op : Type) (Answer : Op → Type) (W : Type) where
  answers : W → (op : Op) → Answer op → W → Prop
  halts : W → Op → W → Prop

/-- A program in its surroundings; `none` is a program that was stopped. -/
abbrev Configuration (Op : Type) (Answer : Op → Type) (α W : Type) :=
  Option (Program Op Answer α) × W

/-- The second configuration comes after the first in some run. -/
inductive Reaches (E : Surroundings Op Answer W) :
    Configuration Op Answer α W → Configuration Op Answer α W → Prop
  | refl (c) : Reaches E c c
  | answer {c op next w x w'} (h : Reaches E c (some (.call op next), w))
      (hanswer : E.answers w op x w') : Reaches E c (some (next x), w')
  | halt {c op next w w'} (h : Reaches E c (some (.call op next), w))
      (hhalt : E.halts w op w') : Reaches E c (none, w')

theorem Reaches.trans {E : Surroundings Op Answer W} {a b c : Configuration Op Answer α W}
    (h : Reaches E a b) (h' : Reaches E b c) : Reaches E a c := by
  induction h' with
  | refl => exact h
  | answer _ hanswer ih => exact .answer ih hanswer
  | halt _ hhalt ih => exact .halt ih hhalt

/-- Components that react to an operation in one way only. -/
abbrev Reaction (Op : Type) (Answer : Op → Type) (W : Type) := W → (op : Op) → Answer op × W

/-- The configuration after `n` operations answered by one reaction. -/
def follow (react : Reaction Op Answer W) :
    Nat → Program Op Answer α → W → Program Op Answer α × W
  | 0, p, w => (p, w)
  | _ + 1, .pure a, w => (.pure a, w)
  | n + 1, .call op next, w => follow react n (next (react w op).1) (react w op).2

theorem reaches_follow {E : Surroundings Op Answer W} {react : Reaction Op Answer W}
    (hreact : ∀ w op, E.answers w op (react w op).1 (react w op).2) (n : Nat)
    (p : Program Op Answer α) (w : W) :
    Reaches E (some p, w) (some (follow react n p w).1, (follow react n p w).2) := by
  induction n generalizing p w with
  | zero => exact .refl _
  | succ n ih =>
      cases p with
      | pure a => exact .refl _
      | call op next =>
          exact (Reaches.answer (.refl _) (hreact w op)).trans (ih (next _) _)

/-! ## Guarded programs -/

namespace Program

variable {E : Surroundings Op Answer W} {guard : W → Op → Prop}

/-- Every operation of a program is permitted in the world it is performed in,
and the program ends in `Q`. -/
def Guarded (E : Surroundings Op Answer W) (guard : W → Op → Prop) (Q : α → W → Prop) :
    Program Op Answer α → W → Prop
  | .pure a, w => Q a w
  | .call op next, w =>
      guard w op ∧ ∀ x w', E.answers w op x w' → (next x).Guarded E guard Q w'

theorem guarded_pure {Q : α → W → Prop} {a : α} {w : W} (h : Q a w) :
    Guarded E guard Q (Pure.pure a : Program Op Answer α) w := h

theorem guarded_bind {Q : β → W → Prop} {p : Program Op Answer α}
    {k : α → Program Op Answer β} {w : W}
    (h : p.Guarded E guard (fun a w' => (k a).Guarded E guard Q w') w) :
    Guarded E guard Q (p >>= k) w := by
  change (p.bind k).Guarded E guard Q w
  induction p generalizing w with
  | pure a => exact h
  | call op next ih => exact ⟨h.1, fun x w' hx => ih x (h.2 x w' hx)⟩

/-- One operation, then the rest of the program. -/
theorem guarded_ask {Q : β → W → Prop} {op : Op} {k : Answer op → Program Op Answer β} {w : W}
    (hguard : guard w op)
    (h : ∀ x w', E.answers w op x w' → (k x).Guarded E guard Q w') :
    Guarded E guard Q (ask op >>= k) w :=
  guarded_bind (p := ask op) ⟨hguard, h⟩

theorem guarded_mono {Q R : α → W → Prop} {p : Program Op Answer α} {w : W}
    (h : p.Guarded E guard Q w) (hQ : ∀ a w', Q a w' → R a w') : p.Guarded E guard R w := by
  induction p generalizing w with
  | pure a => exact hQ a w h
  | call op next ih => exact ⟨h.1, fun x w' hx => ih x (h.2 x w' hx)⟩

/-- A guarded program stays guarded along its runs. -/
theorem guarded_of_reaches {Q : α → W → Prop} {p q : Program Op Answer α} {w w' : W}
    (h : p.Guarded E guard Q w) (hreaches : Reaches E (some p, w) (some q, w')) :
    q.Guarded E guard Q w' := by
  generalize hc : (some p, w) = c at hreaches
  generalize hc' : (some q, w') = c' at hreaches
  induction hreaches generalizing q w' with
  | refl =>
      subst hc
      cases hc'
      exact h
  | answer _ hanswer ih =>
      cases hc'
      exact (ih rfl).2 _ _ hanswer
  | halt => cases hc'

end Program

/-! ## Programs that may fail -/

/-- A program that may fail. -/
abbrev Fallible (Op : Type) (Answer : Op → Type) (ε : Type) := ExceptT ε (Program Op Answer)

namespace Fallible

variable {ε : Type} {E : Surroundings Op Answer W} {guard : W → Op → Prop}

/-- Perform one operation. -/
def ask (op : Op) : Fallible Op Answer ε (Answer op) := ExceptT.lift (Program.ask op)

/-- Every operation is permitted where it is performed; the program ends in `Q` or fails
in `R`. -/
def Guarded (E : Surroundings Op Answer W) (guard : W → Op → Prop) (Q : α → W → Prop)
    (R : ε → W → Prop) (p : Fallible Op Answer ε α) (w : W) : Prop :=
  Program.Guarded E guard
    (fun r w' => match r with | .ok a => Q a w' | .error e => R e w') p.run w

variable {Q : α → W → Prop} {R : ε → W → Prop} {w : W}

theorem guarded_pure {a : α} (h : Q a w) :
    Guarded E guard Q R (pure a : Fallible Op Answer ε α) w := h

theorem guarded_throw {e : ε} (h : R e w) :
    Guarded E guard Q R (throw e : Fallible Op Answer ε α) w := h

theorem guarded_bind {Q : β → W → Prop} {p : Fallible Op Answer ε α}
    {k : α → Fallible Op Answer ε β}
    (h : Guarded E guard (fun a w' => Guarded E guard Q R (k a) w') R p w) :
    Guarded E guard Q R (p >>= k) w := by
  apply Program.guarded_bind (p := p.run)
  refine Program.guarded_mono h ?_
  intro r w' hr
  cases r with
  | ok a => exact hr
  | error e => exact hr

/-- One operation, then the rest of the program. -/
theorem guarded_ask {Q : β → W → Prop} {op : Op} {k : Answer op → Fallible Op Answer ε β}
    (hguard : guard w op) (h : ∀ x w', E.answers w op x w' → Guarded E guard Q R (k x) w') :
    Guarded E guard Q R (ask op >>= k) w :=
  guarded_bind ⟨hguard, fun x w' hx => h x w' hx⟩

theorem guarded_mono {Q' : α → W → Prop} {p : Fallible Op Answer ε α}
    (h : Guarded E guard Q R p w) (hQ : ∀ a w', Q a w' → Q' a w') : Guarded E guard Q' R p w := by
  refine Program.guarded_mono h ?_
  intro r w' hr
  cases r with
  | ok a => exact hQ a w' hr
  | error e => exact hr

/-- A program that cannot fail, then the rest. -/
theorem guarded_lift {Q : β → W → Prop} {p : Program Op Answer α}
    {k : α → Fallible Op Answer ε β}
    (h : p.Guarded E guard (fun a w' => Guarded E guard Q R (k a) w') w) :
    Guarded E guard Q R (ExceptT.lift p >>= k) w := by
  apply guarded_bind
  apply Program.guarded_bind (p := p)
  exact Program.guarded_mono h fun a w' ha => ha

/-- A test that fails the program. -/
def check (condition : Prop) [Decidable condition] (e : ε) : Fallible Op Answer ε PUnit :=
  if condition then pure ⟨⟩ else throw e

theorem guarded_check {Q : β → W → Prop} {condition : Prop} [Decidable condition] {e : ε}
    {k : PUnit → Fallible Op Answer ε β} (hfail : ¬condition → R e w)
    (h : condition → Guarded E guard Q R (k ⟨⟩) w) :
    Guarded E guard Q R (check condition e >>= k) w := by
  apply guarded_bind
  unfold check
  split
  · next hc => exact guarded_pure (h hc)
  · next hc => exact guarded_throw (hfail hc)

/-- A computation that performs no operation. -/
def compute (result : Except ε α) : Fallible Op Answer ε α := ExceptT.mk (Program.pure result)

theorem guarded_compute {Q : β → W → Prop} {result : Except ε α}
    {k : α → Fallible Op Answer ε β} (hfail : ∀ e, result = .error e → R e w)
    (h : ∀ a, result = .ok a → Guarded E guard Q R (k a) w) :
    Guarded E guard Q R (compute result >>= k) w := by
  apply guarded_bind
  cases result with
  | ok a => exact h a rfl
  | error e => exact hfail e rfl

end Fallible

/-! ## Histories -/

/-- Components that answer anything; the world is the history of the run. -/
def recording : Surroundings Op Answer (History Op Answer) where
  answers := fun h op x h' => h' = ⟨op, x⟩ :: h
  halts := fun _ _ _ => False

/-- Some event satisfied `Q`, and all events since then satisfy `P`.  `Q` also
sees what came before its event. -/
def Since (P : Event Op Answer → Prop) (Q : Event Op Answer → History Op Answer → Prop) :
    History Op Answer → Prop
  | [] => False
  | e :: h => Q e h ∨ P e ∧ Since P Q h

/-- Some event satisfied `Q`. -/
abbrev Once (Q : Event Op Answer → History Op Answer → Prop) : History Op Answer → Prop :=
  Since (fun _ => True) Q

section Since

variable {S : Op → Prop} {guard : History Op Answer → Op → Prop} {h' : History Op Answer} {P : Event Op Answer → Prop} {Q R : Event Op Answer → History Op Answer → Prop}
  {e : Event Op Answer} {h : History Op Answer}

theorem since_now (hQ : Q e h) : Since P Q (e :: h) := Or.inl hQ

theorem since_later (hP : P e) (hsince : Since P Q h) : Since P Q (e :: h) := Or.inr ⟨hP, hsince⟩

theorem not_once_cons (hQ : ¬Q e h) (hnone : ¬Once Q h) : ¬Once Q (e :: h) :=
  fun hsince => hsince.elim hQ fun hrest => hnone hrest.2

/-- The second history goes on from the first with operations in `S`. -/
def Extends (S : Op → Prop) (h h' : History Op Answer) : Prop :=
  ∃ new : History Op Answer, h' = new ++ h ∧ ∀ e ∈ new, S e.op

theorem Extends.refl (h : History Op Answer) : Extends S h h := ⟨[], rfl, by simp⟩

theorem Extends.cons {op : Op} {x : Answer op} (hop : S op)
    (hrest : Extends S (⟨op, x⟩ :: h) h') : Extends S h h' := by
  obtain ⟨new, rfl, hnew⟩ := hrest
  refine ⟨new ++ [⟨op, x⟩], by simp, ?_⟩
  intro e he
  rcases List.mem_append.mp he with he | he
  · exact hnew e he
  · rw [List.mem_singleton.mp he]
    exact hop

/-- Operations that satisfy `P` do not end a `Since`. -/
theorem Extends.since (hext : Extends S h h') (hP : ∀ e : Event Op Answer, S e.op → P e)
    (hsince : Since P Q h) : Since P Q h' := by
  obtain ⟨new, rfl, hnew⟩ := hext
  induction new with
  | nil => exact hsince
  | cons e new ih =>
      exact since_later (hP e (hnew e List.mem_cons_self))
        (ih fun e' he' => hnew e' (List.mem_cons_of_mem _ he'))

/-- Operations of which none satisfies `Q` leave `Q` out of the history. -/
theorem Extends.not_once (hext : Extends S h h')
    (hQ : ∀ (e : Event Op Answer) (past), S e.op → ¬Q e past) (hnone : ¬Once Q h) :
    ¬Once Q h' := by
  obtain ⟨new, rfl, hnew⟩ := hext
  induction new with
  | nil => exact hnone
  | cons e new ih =>
      exact not_once_cons (hQ e _ (hnew e List.mem_cons_self))
        (ih fun e' he' => hnew e' (List.mem_cons_of_mem _ he'))

/-! ## Programs of some operations only -/

namespace Program

/-- Every operation the program performs is in `S`. -/
def Only (S : Op → Prop) : Program Op Answer α → Prop
  | .pure _ => True
  | .call op next => S op ∧ ∀ x, (next x).Only S

theorem only_pure (a : α) : (Pure.pure a : Program Op Answer α).Only S := trivial

theorem only_ask {op : Op} (hop : S op) : (ask op : Program Op Answer (Answer op)).Only S :=
  ⟨hop, fun _ => trivial⟩

theorem only_bind {p : Program Op Answer α} {k : α → Program Op Answer β} (hp : p.Only S)
    (hk : ∀ a, (k a).Only S) : (p >>= k).Only S := by
  change (p.bind k).Only S
  induction p with
  | pure a => exact hk a
  | call op next ih => exact ⟨hp.1, fun x => ih x (hp.2 x)⟩

theorem only_mono {T : Op → Prop} {p : Program Op Answer α} (hp : p.Only S)
    (h : ∀ op, S op → T op) : p.Only T := by
  induction p with
  | pure a => trivial
  | call op next ih => exact ⟨h op hp.1, fun x => ih x (hp.2 x)⟩

/-- Wherever a run of such a program stands, the next operation is one of them. -/
theorem only_of_reaches {E : Surroundings Op Answer W} {p q : Program Op Answer α} {w w' : W}
    (hp : p.Only S) (hreaches : Reaches E (some p, w) (some q, w')) : q.Only S := by
  generalize hc : (some p, w) = c at hreaches
  generalize hc' : (some q, w') = c' at hreaches
  induction hreaches generalizing q w' with
  | refl =>
      cases hc.trans hc'.symm
      exact hp
  | answer hbefore _ ih =>
      cases hc'
      exact (ih rfl).2 _
  | halt => cases hc'

/-- A program of operations that are always permitted only extends the history
by them. -/
theorem guarded_of_only {Q : α → History Op Answer → Prop} {p : Program Op Answer α}
    (hp : p.Only S) (hguard : ∀ h op, S op → guard h op)
    (hQ : ∀ a h', Extends S h h' → Q a h') : p.Guarded recording guard Q h := by
  induction p generalizing h with
  | pure a => exact hQ a h (.refl h)
  | call op next ih =>
      refine ⟨hguard h op hp.1, ?_⟩
      rintro x _ rfl
      exact ih x (hp.2 x) fun a h' hext => hQ a h' (hext.cons hp.1)

end Program

end Since

end Interaction
