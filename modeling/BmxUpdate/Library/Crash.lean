/-!
# Programs on a disk that can fail or lose power

A `Proc ε σ δ α` is a program over a disk of type `δ`: it carries a private
state of type `σ`, and it returns a value of type `α`, stops with an error of
type `ε`, or is cut by a loss of power.  Every operation on the disk consumes
one `Fault` of the schedule it runs under:

* `ok`: the operation takes effect;
* `fail k`: it reports an error and leaves the disk in its `k`-th torn state;
* `cut k`: power is lost in its `k`-th torn state, and only the disk survives.

A schedule that has run out lets everything succeed, so `[]` is the
uninterrupted run.

`wp allow m post s d` is the weakest precondition over every schedule whose
faults satisfy `allow`.  With `anyFault` it speaks of all runs, and with
`noFault` of the uninterrupted run.
`keeps allow I E m Q s d` is the form most specifications have: `m` ends in `Q`
or, failed or cut, on a disk in `I`, and it fails by itself only as `E` says.
Frame facts are stated with `Preserves R m`: every outcome of `m`, cut ones
included, leaves a disk related to the first by the preorder `R`.
-/

namespace Crash

/-- What happens to one operation on the disk. -/
inductive Fault where
  | ok
  | fail (k : Nat)
  | cut (k : Nat)
deriving DecidableEq, Repr

/-- A disk and the faults of the operations to come. -/
structure World (δ : Type) where
  disk : δ
  faults : List Fault

/-- How a program ends.  A cut leaves nothing but the disk. -/
inductive Outcome (ε σ δ α : Type) where
  | done (a : α) (s : σ) (w : World δ)
  | error (e : ε) (s : σ) (w : World δ)
  | cut (d : δ)

/-- A program over a disk. -/
def Proc (ε σ δ α : Type) := σ → World δ → Outcome ε σ δ α

/-- The effect of one operation: its value, the disk after it, and the disks a
fault inside it can leave. -/
structure Effect (δ α : Type) where
  value : α
  final : δ
  torn : Nat → δ

variable {ε η σ δ α β γ : Type}

/-! ## Programs -/

namespace Proc

/-- Return a value. -/
def pure (a : α) : Proc ε σ δ α := fun s w => .done a s w

/-- Run `m`, then `k` on its value. -/
def bind (m : Proc ε σ δ α) (k : α → Proc ε σ δ β) : Proc ε σ δ β := fun s w =>
  match m s w with
  | .done a s' w' => k a s' w'
  | .error e s' w' => .error e s' w'
  | .cut d => .cut d

instance : Monad (Proc ε σ δ) where
  pure := Proc.pure
  bind := Proc.bind

theorem bind_assoc (m : Proc ε σ δ α) (f : α → Proc ε σ δ β) (g : β → Proc ε σ δ γ) :
    (m >>= f) >>= g = m >>= fun a => f a >>= g := by
  funext s w
  change Proc.bind (Proc.bind m f) g s w = Proc.bind m (fun a => Proc.bind (f a) g) s w
  unfold Proc.bind
  cases m s w <;> rfl

/-- Stop with an error. -/
def throw (e : ε) : Proc ε σ δ α := fun s w => .error e s w

/-- Read the private state. -/
def get : Proc ε σ δ σ := fun s w => .done s s w

/-- Change the private state. -/
def modify (f : σ → σ) : Proc ε σ δ Unit := fun s w => .done () (f s) w

/-- Stop with `e` unless `p` holds. -/
def check (p : Prop) [Decidable p] (e : ε) : Proc ε σ δ Unit :=
  if p then return () else throw e

theorem check_bind {p : Prop} [Decidable p] {e : ε} {k : Unit → Proc ε σ δ α} (hp : p) :
    Proc.check p e >>= k = k () := by
  unfold Proc.check
  rw [if_pos hp]
  rfl

/-- Run `m` if `p` holds, and return `a` otherwise. -/
def whenOr (p : Prop) [Decidable p] (a : α) (m : Proc ε σ δ α) : Proc ε σ δ α :=
  if p then m else return a

/-- Run `m` if `p` holds. -/
def when (p : Prop) [Decidable p] (m : Proc ε σ δ Unit) : Proc ε σ δ Unit := whenOr p () m

/-- Run `m` and return its error as a value.  A cut is not caught. -/
def attempt (m : Proc ε σ δ α) : Proc η σ δ (Except ε α) := fun s w =>
  match m s w with
  | .done a s' w' => .done (.ok a) s' w'
  | .error e s' w' => .done (.error e) s' w'
  | .cut d => .cut d

theorem attempt_bind (m : Proc ε σ δ α) (k : Except ε α → Proc η σ δ β) (s : σ) (w : World δ) :
    (attempt m >>= k) s w =
      match m s w with
      | .done a s' w' => k (.ok a) s' w'
      | .error e s' w' => k (.error e) s' w'
      | .cut d => .cut d := by
  change Proc.bind (attempt m) k s w = _
  unfold Proc.bind attempt
  cases m s w <;> rfl

/-- Run `m` with its errors renamed. -/
def mapError (f : ε → η) (m : Proc ε σ δ α) : Proc η σ δ α := fun s w =>
  match m s w with
  | .done a s' w' => .done a s' w'
  | .error e s' w' => .error (f e) s' w'
  | .cut d => .cut d

/-- Run `m`, replacing whatever error it stops with. -/
def orElse (e : η) (m : Proc ε σ δ α) : Proc η σ δ α := mapError (fun _ => e) m

/-- One operation on the disk; `none` is an operation the disk refuses. -/
def act (f : δ → Option (Effect δ α)) : Proc Unit σ δ α := fun s w =>
  match f w.disk with
  | none => .error () s w
  | some effect =>
      match w.faults with
      | [] => .done effect.value s ⟨effect.final, []⟩
      | .ok :: faults => .done effect.value s ⟨effect.final, faults⟩
      | .fail k :: faults => .error () s ⟨effect.torn k, faults⟩
      | .cut k :: _ => .cut (effect.torn k)

/-- An operation that looks at the disk and changes nothing. -/
def observe (f : δ → Option α) : Proc Unit σ δ α :=
  act fun d => (f d).map fun a => ⟨a, d, fun _ => d⟩

/-- Run `f` on every element of a list with its index, counted from `i`. -/
def forIndexed (f : Nat → α → Proc ε σ δ Unit) : Nat → List α → Proc ε σ δ Unit
  | _, [] => return ()
  | i, a :: rest => do
      f i a
      forIndexed f (i + 1) rest

/-- Run `f` on every element of a list with its index, from the last element to
the first. -/
def forIndexedDown (f : Nat → α → Proc ε σ δ Unit) : Nat → List α → Proc ε σ δ Unit
  | _, [] => return ()
  | i, a :: rest => do
      forIndexedDown f (i + 1) rest
      f i a

/-- Run `f` on every element of a list with its index, counted from `i`, and
collect the results. -/
def mapIndexed (f : Nat → α → Proc ε σ δ β) : Nat → List α → Proc ε σ δ (List β)
  | _, [] => return []
  | i, a :: rest => do
      let b ← f i a
      let bs ← mapIndexed f (i + 1) rest
      return b :: bs

/-- Run both, the second whatever becomes of the first, whose error comes first. -/
def inSpite (first second : Proc ε σ δ Unit) : Proc ε σ δ Unit := do
  let done ← attempt first
  let closed ← attempt second
  match done, closed with
  | .error e, _ => throw e
  | .ok _, .error e => throw e
  | .ok _, .ok _ => return ()

/-- Run a program with a private state of its own, which ends with it. -/
def isolate {τ : Type} (t : τ) (m : Proc ε τ δ α) : Proc ε σ δ α := fun s w =>
  match m t w with
  | .done a _ w' => .done a s w'
  | .error e _ w' => .error e s w'
  | .cut d => .cut d

end Proc

/-! ## Weakest preconditions -/

/-- What a program must establish for each way it can end. -/
structure Post (ε σ δ α : Type) where
  done : α → σ → δ → Prop
  error : ε → σ → δ → Prop
  cut : δ → Prop

/-- An outcome meets a postcondition and leaves only allowed faults. -/
def Outcome.Meets (allow : Fault → Prop) (post : Post ε σ δ α) : Outcome ε σ δ α → Prop
  | .done a s w => post.done a s w.disk ∧ ∀ f ∈ w.faults, allow f
  | .error e s w => post.error e s w.disk ∧ ∀ f ∈ w.faults, allow f
  | .cut d => post.cut d

/-- Every run of `m` from state `s` and disk `d` under allowed faults meets
`post`. -/
def wp (allow : Fault → Prop) (m : Proc ε σ δ α) (post : Post ε σ δ α) (s : σ) (d : δ) :
    Prop :=
  ∀ faults : List Fault, (∀ f ∈ faults, allow f) → (m s ⟨d, faults⟩).Meets allow post

/-- The disk an outcome leaves. -/
def Outcome.disk : Outcome ε σ δ α → δ
  | .done _ _ w => w.disk
  | .error _ _ w => w.disk
  | .cut d => d

/-- What a run that returned has returned. -/
def Outcome.result : Outcome ε σ δ α → Option α
  | .done a _ _ => some a
  | _ => none

/-- What a run has returned, an error included; nothing if it was cut. -/
def Outcome.returned : Outcome ε σ δ α → Option (Except ε α)
  | .done a _ _ => some (.ok a)
  | .error e _ _ => some (.error e)
  | .cut _ => none

/-- Every fault. -/
def anyFault : Fault → Prop := fun _ => True

/-- Nothing goes wrong. -/
def noFault : Fault → Prop
  | .ok => True
  | _ => False

/-- Some operation may report an error of its own. -/
def MayFail (allow : Fault → Prop) : Prop := ∃ k, allow (.fail k)

/-- Power may be lost. -/
def MayCut (allow : Fault → Prop) : Prop := ∃ k, allow (.cut k)

theorem mayFail_anyFault : MayFail anyFault := ⟨0, trivial⟩

theorem not_mayFail_noFault : ¬MayFail noFault := fun ⟨_, h⟩ => h

theorem not_mayCut_noFault : ¬MayCut noFault := fun ⟨_, h⟩ => h

/-- A fault at disk `d` is covered: losing power there, and an injected failure
there with whatever error and private state it is reported with. -/
structure Safe (allow : Fault → Prop) (post : Post ε σ δ α) (d : δ) : Prop where
  cut : MayCut allow → post.cut d
  error : MayFail allow → ∀ e s, post.error e s d

section Rules

variable {allow : Fault → Prop} {post : Post ε σ δ α} {s : σ} {d : δ}

theorem wp_pure {a : α} (h : post.done a s d) : wp allow (pure a : Proc ε σ δ α) post s d :=
  fun _ hfaults => ⟨h, hfaults⟩

theorem wp_throw {e : ε} (h : post.error e s d) :
    wp allow (Proc.throw e : Proc ε σ δ α) post s d :=
  fun _ hfaults => ⟨h, hfaults⟩

theorem wp_get {post : Post ε σ δ σ} (h : post.done s s d) : wp allow Proc.get post s d :=
  fun _ hfaults => ⟨h, hfaults⟩

theorem wp_modify {post : Post ε σ δ Unit} {f : σ → σ} (h : post.done () (f s) d) :
    wp allow (Proc.modify f) post s d :=
  fun _ hfaults => ⟨h, hfaults⟩

theorem wp_check {post : Post ε σ δ Unit} {p : Prop} [Decidable p] {e : ε}
    (hdone : p → post.done () s d) (herror : ¬p → post.error e s d) :
    wp allow (Proc.check p e) post s d := by
  unfold Proc.check
  split
  · exact wp_pure (hdone ‹p›)
  · exact wp_throw (herror ‹¬p›)

theorem wp_whenOr {p : Prop} [Decidable p] {a : α} {m : Proc ε σ δ α}
    (hrun : p → wp allow m post s d) (hskip : ¬p → post.done a s d) :
    wp allow (Proc.whenOr p a m) post s d := by
  unfold Proc.whenOr
  split
  · exact hrun ‹p›
  · exact wp_pure (hskip ‹¬p›)

/-- The postcondition `m` needs before the continuation `k` runs. -/
def Post.before (allow : Fault → Prop) (k : α → Proc ε σ δ β) (post : Post ε σ δ β) :
    Post ε σ δ α where
  done := fun a s d => wp allow (k a) post s d
  error := post.error
  cut := post.cut

theorem wp_bind {m : Proc ε σ δ α} {k : α → Proc ε σ δ β} {post : Post ε σ δ β}
    (h : wp allow m (post.before allow k) s d) : wp allow (m >>= k) post s d := by
  intro faults hfaults
  have hm := h faults hfaults
  change (Proc.bind m k s ⟨d, faults⟩).Meets allow post
  unfold Proc.bind
  cases hout : m s ⟨d, faults⟩ with
  | done a s' w' =>
      rw [hout] at hm
      exact hm.1 w'.faults hm.2
  | error e s' w' =>
      rw [hout] at hm
      exact hm
  | cut d' =>
      rw [hout] at hm
      exact hm

/-- The postcondition of a caught program, in terms of its catcher's. -/
def Post.caught (post : Post η σ δ (Except ε α)) : Post ε σ δ α where
  done := fun a => post.done (.ok a)
  error := fun e => post.done (.error e)
  cut := post.cut

theorem wp_attempt {m : Proc ε σ δ α} {post : Post η σ δ (Except ε α)}
    (h : wp allow m post.caught s d) : wp allow (Proc.attempt m) post s d := by
  intro faults hfaults
  have hm := h faults hfaults
  unfold Proc.attempt
  cases hout : m s ⟨d, faults⟩ with
  | done a s' w' =>
      rw [hout] at hm
      exact hm
  | error e s' w' =>
      rw [hout] at hm
      exact hm
  | cut d' =>
      rw [hout] at hm
      exact hm

/-- The postcondition of a program whose errors are renamed by `f`. -/
def Post.renamed (f : ε → η) (post : Post η σ δ α) : Post ε σ δ α where
  done := post.done
  error := fun e => post.error (f e)
  cut := post.cut

theorem wp_mapError {m : Proc ε σ δ α} {f : ε → η} {post : Post η σ δ α}
    (h : wp allow m (post.renamed f) s d) : wp allow (Proc.mapError f m) post s d := by
  intro faults hfaults
  have hm := h faults hfaults
  unfold Proc.mapError
  cases hout : m s ⟨d, faults⟩ with
  | done a s' w' =>
      rw [hout] at hm
      exact hm
  | error e s' w' =>
      rw [hout] at hm
      exact hm
  | cut d' =>
      rw [hout] at hm
      exact hm

theorem wp_orElse {m : Proc ε σ δ α} {e : η} {post : Post η σ δ α}
    (h : wp allow m (post.renamed fun _ => e) s d) : wp allow (Proc.orElse e m) post s d :=
  wp_mapError h

/-- An operation takes effect, or a fault leaves one of its torn states. -/
theorem wp_act {post : Post Unit σ δ α} {f : δ → Option (Effect δ α)} {effect : Effect δ α}
    (hf : f d = some effect) (hdone : post.done effect.value s effect.final)
    (htorn : ∀ k, Safe allow post (effect.torn k)) : wp allow (Proc.act f) post s d := by
  intro faults hfaults
  unfold Proc.act
  simp only [hf]
  cases faults with
  | nil => exact ⟨hdone, hfaults⟩
  | cons fault faults =>
      have hrest : ∀ f ∈ faults, allow f := fun f hf => hfaults f (List.mem_cons_of_mem _ hf)
      have hfirst : allow fault := hfaults fault List.mem_cons_self
      cases fault with
      | ok => exact ⟨hdone, hrest⟩
      | fail k => exact ⟨(htorn k).error ⟨k, hfirst⟩ () s, hrest⟩
      | cut k => exact (htorn k).cut ⟨k, hfirst⟩

theorem wp_act_refused {post : Post Unit σ δ α} {f : δ → Option (Effect δ α)}
    (hf : f d = none) (herror : post.error () s d) : wp allow (Proc.act f) post s d := by
  intro faults hfaults
  unfold Proc.act
  simp only [hf]
  exact ⟨herror, hfaults⟩

theorem wp_observe {post : Post Unit σ δ α} {f : δ → Option α} {a : α} (hf : f d = some a)
    (hdone : post.done a s d) (hsafe : Safe allow post d) :
    wp allow (Proc.observe f) post s d :=
  wp_act (by rw [hf]; rfl) hdone fun _ => hsafe

theorem wp_observe_refused {post : Post Unit σ δ α} {f : δ → Option α} (hf : f d = none)
    (herror : post.error () s d) : wp allow (Proc.observe f) post s d :=
  wp_act_refused (by rw [hf]; rfl) herror

theorem Outcome.Meets.mono {post' : Post ε σ δ α} {o : Outcome ε σ δ α}
    (h : o.Meets allow post) (hdone : ∀ a s d, post.done a s d → post'.done a s d)
    (herror : ∀ e s d, post.error e s d → post'.error e s d)
    (hcut : ∀ d, post.cut d → post'.cut d) : o.Meets allow post' := by
  cases o with
  | done a s w => exact ⟨hdone a s w.disk h.1, h.2⟩
  | error e s w => exact ⟨herror e s w.disk h.1, h.2⟩
  | cut d => exact hcut d h

theorem wp_mono {m : Proc ε σ δ α} {post' : Post ε σ δ α} (h : wp allow m post s d)
    (hdone : ∀ a s d, post.done a s d → post'.done a s d)
    (herror : ∀ e s d, post.error e s d → post'.error e s d)
    (hcut : ∀ d, post.cut d → post'.cut d) : wp allow m post' s d :=
  fun faults hfaults => (h faults hfaults).mono hdone herror hcut

theorem wp_inSpite {first second : Proc ε σ δ Unit} {post : Post ε σ δ Unit}
    (h : wp allow first ⟨fun _ => wp allow second post,
      fun e => wp allow second ⟨fun _ => post.error e, fun _ => post.error e, post.cut⟩,
      post.cut⟩ s d) : wp allow (Proc.inSpite first second) post s d := by
  refine wp_bind (wp_attempt (wp_mono h ?_ ?_ fun _ h => h))
  · intro a s' d' hsecond
    exact wp_bind (wp_attempt (wp_mono hsecond (fun _ _ _ h => wp_pure h)
      (fun _ _ _ h => wp_throw h) fun _ h => h))
  · intro e s' d' hsecond
    exact wp_bind (wp_attempt (wp_mono hsecond (fun _ _ _ h => wp_throw h)
      (fun _ _ _ h => wp_throw h) fun _ h => h))

/-- Two facts about the same runs hold together. -/
theorem wp_and {m : Proc ε σ δ α} {post' : Post ε σ δ α} (h : wp allow m post s d)
    (h' : wp allow m post' s d) :
    wp allow m ⟨fun a s d => post.done a s d ∧ post'.done a s d,
      fun e s d => post.error e s d ∧ post'.error e s d,
      fun d => post.cut d ∧ post'.cut d⟩ s d := by
  intro faults hfaults
  have hm := h faults hfaults
  have hm' := h' faults hfaults
  cases hout : m s ⟨d, faults⟩ with
  | done a s' w' =>
      rw [hout] at hm hm'
      exact ⟨⟨hm.1, hm'.1⟩, hm.2⟩
  | error e s' w' =>
      rw [hout] at hm hm'
      exact ⟨⟨hm.1, hm'.1⟩, hm.2⟩
  | cut d' =>
      rw [hout] at hm hm'
      exact ⟨hm, hm'⟩

/-! ### Loops -/

/-- A loop over a list keeps an invariant that each of its turns carries from
one index to the next. -/
theorem wp_forIndexed {post : Post ε σ δ Unit} {f : Nat → α → Proc ε σ δ Unit}
    (inv : Nat → σ → δ → Prop) {xs : List α} {i : Nat}
    (hstep : ∀ j a s d, xs[j]? = some a → inv (i + j) s d →
      wp allow (f (i + j) a) ⟨fun _ => inv (i + j + 1), post.error, post.cut⟩ s d)
    (hstart : inv i s d) (hend : ∀ s d, inv (i + xs.length) s d → post.done () s d) :
    wp allow (Proc.forIndexed f i xs) post s d := by
  induction xs generalizing i s d with
  | nil => exact wp_pure (hend s d hstart)
  | cons a rest ih =>
      refine wp_bind (wp_mono (hstep 0 a s d rfl hstart) ?_ (fun _ _ _ h => h) fun _ h => h)
      intro _ s' d' hnext
      refine ih ?_ hnext ?_
      · intro j b s'' d'' hb hinv
        have hshift : i + 1 + j = i + (j + 1) := by omega
        rw [hshift] at hinv ⊢
        exact hstep (j + 1) b s'' d'' (by simpa using hb) hinv
      · intro s'' d'' hinv
        have hshift : i + 1 + rest.length = i + (a :: rest).length := by
          simp only [List.length_cons]
          omega
        rw [hshift] at hinv
        exact hend s'' d'' hinv

/-- The same for a loop that runs from the last element to the first: the
invariant is carried down to the index the list starts at. -/
theorem wp_forIndexedDown {post : Post ε σ δ Unit} {f : Nat → α → Proc ε σ δ Unit}
    (inv : Nat → σ → δ → Prop) {xs : List α} {i : Nat}
    (hstep : ∀ j a s d, xs[j]? = some a → inv (i + j + 1) s d →
      wp allow (f (i + j) a) ⟨fun _ => inv (i + j), post.error, post.cut⟩ s d)
    (hstart : inv (i + xs.length) s d) (hend : ∀ s d, inv i s d → post.done () s d) :
    wp allow (Proc.forIndexedDown f i xs) post s d := by
  induction xs generalizing i post s d with
  | nil => exact wp_pure (hend s d hstart)
  | cons a rest ih =>
      refine wp_bind (ih ?_ ?_ ?_)
      · intro j b s' d' hb hinv
        have hshift : i + 1 + j = i + (j + 1) := by omega
        rw [hshift] at hinv ⊢
        exact hstep (j + 1) b s' d' (by simpa using hb) hinv
      · have hshift : i + 1 + rest.length = i + (a :: rest).length := by
          simp only [List.length_cons]
          omega
        rw [hshift]
        exact hstart
      · intro s' d' hinv
        exact wp_mono (hstep 0 a s' d' rfl hinv) (fun _ => hend) (fun _ _ _ h => h)
          fun _ h => h

/-- Collecting results that are known in advance. -/
theorem wp_mapIndexed {post : Post ε σ δ (List β)} {f : Nat → α → Proc ε σ δ β}
    (inv : σ → δ → Prop) (g : Nat → α → β) {xs : List α} {i : Nat}
    (hstep : ∀ j a s d, xs[j]? = some a → inv s d →
      wp allow (f (i + j) a) ⟨fun b s' d' => b = g (i + j) a ∧ inv s' d',
        post.error, post.cut⟩ s d)
    (hstart : inv s d)
    (hend : ∀ s d, inv s d → post.done (xs.mapIdx fun j => g (i + j)) s d) :
    wp allow (Proc.mapIndexed f i xs) post s d := by
  induction xs generalizing i post s d with
  | nil => exact wp_pure (hend s d hstart)
  | cons a rest ih =>
      refine wp_bind (wp_mono (hstep 0 a s d rfl hstart) ?_ (fun _ _ _ h => h) fun _ h => h)
      rintro b s' d' ⟨rfl, hinv⟩
      refine wp_bind (ih ?_ hinv ?_)
      · intro j b s'' d'' hb hinv'
        have hshift : i + 1 + j = i + (j + 1) := by omega
        rw [hshift]
        exact hstep (j + 1) b s'' d'' (by simpa using hb) hinv'
      · intro s'' d'' hinv'
        refine wp_pure ?_
        have hlist : g (i + 0) a :: rest.mapIdx (fun j => g (i + 1 + j)) =
            (a :: rest).mapIdx fun j => g (i + j) := by
          rw [List.mapIdx_cons]
          congr 1
          refine congrArg (List.mapIdx · rest) (funext fun j => ?_)
          rw [show i + 1 + j = i + (j + 1) by omega]
        rw [hlist]
        exact hend s'' d'' hinv'

/-- The postcondition of an isolated program, in terms of its caller's. -/
def Post.outside (s : σ) (post : Post ε σ δ α) (τ : Type) : Post ε τ δ α where
  done := fun a _ => post.done a s
  error := fun e _ => post.error e s
  cut := post.cut

theorem wp_isolate {τ : Type} {t : τ} {m : Proc ε τ δ α}
    (h : wp allow m (post.outside s τ) t d) : wp allow (Proc.isolate t m) post s d := by
  intro faults hfaults
  have hm := h faults hfaults
  unfold Proc.isolate
  cases hout : m t ⟨d, faults⟩ with
  | done a t' w' =>
      rw [hout] at hm
      exact hm
  | error e t' w' =>
      rw [hout] at hm
      exact hm
  | cut d' =>
      rw [hout] at hm
      exact hm

/-- What holds for every way a program can end holds of the disk it leaves. -/
theorem wp_disk {m : Proc ε σ δ α} {I : δ → Prop}
    (h : wp allow m ⟨fun _ _ => I, fun _ _ => I, I⟩ s d) {faults : List Fault}
    (hfaults : ∀ f ∈ faults, allow f) : I (m s ⟨d, faults⟩).disk := by
  have hm := h faults hfaults
  cases hout : m s ⟨d, faults⟩ with
  | done a s' w' =>
      rw [hout] at hm
      exact hm.1
  | error e s' w' =>
      rw [hout] at hm
      exact hm.1
  | cut d' =>
      rw [hout] at hm
      exact hm

/-- What a run that returned has established. -/
theorem wp_result {m : Proc ε σ δ α} {Q : α → δ → Prop} {E : ε → σ → δ → Prop} {C : δ → Prop}
    (h : wp allow m ⟨fun a _ => Q a, E, C⟩ s d) {faults : List Fault}
    (hfaults : ∀ f ∈ faults, allow f) {a : α} (hrun : (m s ⟨d, faults⟩).result = some a) :
    Q a (m s ⟨d, faults⟩).disk := by
  have hm := h faults hfaults
  cases hout : m s ⟨d, faults⟩ with
  | done b s' w' =>
      rw [hout] at hm hrun
      obtain rfl := Option.some.inj hrun
      exact hm.1
  | error e s' w' =>
      rw [hout] at hrun
      cases hrun
  | cut d' =>
      rw [hout] at hrun
      cases hrun

/-- What the uninterrupted run returns. -/
theorem returned_of_wp {m : Proc ε σ δ α} {r : Except ε α}
    (h : wp noFault m ⟨fun a _ _ => r = .ok a, fun e _ _ => r = .error e, fun _ => False⟩ s d) :
    (m s ⟨d, []⟩).returned = some r := by
  have hm := h [] (by simp)
  cases hout : m s ⟨d, []⟩ with
  | done a s' w' =>
      rw [hout] at hm
      exact congrArg some hm.1.symm
  | error e s' w' =>
      rw [hout] at hm
      exact congrArg some hm.1.symm
  | cut d' =>
      rw [hout] at hm
      exact hm.elim

end Rules

/-! ## Runs that keep a property of the disk -/

/-- What is asked of a program that keeps `I`: to end in `Q` or, failed or cut,
in `I`, and to fail with an error in `E` unless a failure was injected. -/
def Post.keeping (allow : Fault → Prop) (I : δ → Prop) (E : ε → Prop)
    (Q : α → σ → δ → Prop) : Post ε σ δ α where
  done := Q
  error := fun e _ d => I d ∧ (E e ∨ MayFail allow)
  cut := fun d => I d ∧ MayCut allow

/-- Every run of `m` ends in `Q` or, failed or cut, in `I`; it fails by itself
only with an error in `E`. -/
abbrev keeps (allow : Fault → Prop) (I : δ → Prop) (E : ε → Prop) (m : Proc ε σ δ α)
    (Q : α → σ → δ → Prop) (s : σ) (d : δ) : Prop :=
  wp allow m (.keeping allow I E Q) s d

/-- No error at all. -/
def noError : ε → Prop := fun _ => False

/-- Any error. -/
def anyError : ε → Prop := fun _ => True

section Keeps

variable {allow : Fault → Prop} {I : δ → Prop} {E : ε → Prop} {Q : α → σ → δ → Prop} {s : σ}
  {d : δ}

theorem safe_keeping (h : I d) : Safe allow (Post.keeping allow I E Q) d :=
  ⟨fun hcut => ⟨h, hcut⟩, fun hfail _ _ => ⟨h, Or.inr hfail⟩⟩

theorem keeps_pure {a : α} (h : Q a s d) : keeps allow I E (pure a) Q s d := wp_pure h

theorem keeps_throw {e : ε} (hI : I d) (he : E e) : keeps allow I E (Proc.throw e) Q s d :=
  wp_throw ⟨hI, Or.inl he⟩

theorem keeps_get {Q : σ → σ → δ → Prop} (h : Q s s d) : keeps allow I E Proc.get Q s d :=
  wp_get h

theorem keeps_modify {Q : Unit → σ → δ → Prop} {f : σ → σ} (h : Q () (f s) d) :
    keeps allow I E (Proc.modify f) Q s d :=
  wp_modify h

theorem keeps_check {Q : Unit → σ → δ → Prop} {p : Prop} [Decidable p] {e : ε}
    (hfail : ¬p → I d ∧ E e) (h : p → Q () s d) : keeps allow I E (Proc.check p e) Q s d :=
  wp_check h fun hp => ⟨(hfail hp).1, Or.inl (hfail hp).2⟩

theorem keeps_ite {p : Prop} [Decidable p] {m m' : Proc ε σ δ α}
    (hthen : p → keeps allow I E m Q s d) (helse : ¬p → keeps allow I E m' Q s d) :
    keeps allow I E (if p then m else m') Q s d := by
  split
  · exact hthen ‹p›
  · exact helse ‹¬p›

theorem keeps_whenOr {p : Prop} [Decidable p] {a : α} {m : Proc ε σ δ α}
    (hrun : p → keeps allow I E m Q s d) (hskip : ¬p → Q a s d) :
    keeps allow I E (Proc.whenOr p a m) Q s d :=
  wp_whenOr hrun hskip

theorem keeps_when {Q : Unit → σ → δ → Prop} {p : Prop} [Decidable p] {m : Proc ε σ δ Unit}
    (hrun : p → keeps allow I E m Q s d) (hskip : ¬p → Q () s d) :
    keeps allow I E (Proc.when p m) Q s d :=
  wp_whenOr hrun hskip

theorem keeps_bind {Q : β → σ → δ → Prop} {m : Proc ε σ δ α} {k : α → Proc ε σ δ β}
    (h : keeps allow I E m (fun a s d => keeps allow I E (k a) Q s d) s d) :
    keeps allow I E (m >>= k) Q s d :=
  wp_bind (wp_mono h (fun _ _ _ h => h) (fun _ _ _ h => h) fun _ h => h)

theorem keeps_mono {I' : δ → Prop} {E' : ε → Prop} {Q' : α → σ → δ → Prop} {m : Proc ε σ δ α}
    (h : keeps allow I E m Q s d) (hI : ∀ d, I d → I' d) (hE : ∀ e, E e → E' e)
    (hQ : ∀ a s d, Q a s d → Q' a s d) : keeps allow I' E' m Q' s d :=
  wp_mono h hQ (fun e _ d h => ⟨hI d h.1, h.2.imp (hE e) id⟩) fun d h => ⟨hI d h.1, h.2⟩

/-- Errors a failure may be behind are covered where failures may be injected. -/
theorem keeps_mayFail {m : Proc ε σ δ α}
    (h : keeps allow I (fun e => E e ∨ MayFail allow) m Q s d) : keeps allow I E m Q s d :=
  wp_mono h (fun _ _ _ h => h) (fun _ _ _ h => ⟨h.1, h.2.elim id Or.inr⟩) fun _ h => h

/-- A specification of `m`, used for its value and its end alone. -/
theorem keeps_done {Q' : α → σ → δ → Prop} {m : Proc ε σ δ α} (h : keeps allow I E m Q s d)
    (hQ : ∀ a s d, Q a s d → Q' a s d) : keeps allow I E m Q' s d :=
  keeps_mono h (fun _ h => h) (fun _ h => h) hQ

/-- A program that fails only at injected faults returns when there are none. -/
theorem keeps_uninterrupted {m : Proc ε σ δ α} (h : keeps noFault I noError m Q s d) :
    ∃ a s' w, m s ⟨d, []⟩ = .done a s' w ∧ Q a s' w.disk := by
  have hm := h [] (by simp)
  cases hout : m s ⟨d, []⟩ with
  | done a s' w =>
      rw [hout] at hm
      exact ⟨a, s', w, rfl, hm.1⟩
  | error e s' w =>
      rw [hout] at hm
      exact (hm.1.2.elim id not_mayFail_noFault).elim
  | cut d' =>
      rw [hout] at hm
      exact absurd hm.2 not_mayCut_noFault

/-- The disk a program that keeps a property leaves, when it ends on it too. -/
theorem keeps_disk {m : Proc ε σ δ α} (h : keeps allow I E m (fun _ _ => I) s d)
    {faults : List Fault} (hfaults : ∀ f ∈ faults, allow f) : I (m s ⟨d, faults⟩).disk :=
  wp_disk (wp_mono h (fun _ _ _ h => h) (fun _ _ _ h => h.1) fun _ h => h.1) hfaults

theorem keeps_mapError {f : ε → η} {E' : η → Prop} {m : Proc ε σ δ α}
    (h : keeps allow I E m Q s d) (hE : ∀ e, E e → E' (f e)) :
    keeps allow I E' (Proc.mapError f m) Q s d :=
  wp_mapError (wp_mono h (fun _ _ _ h => h) (fun e _ _ h => ⟨h.1, h.2.imp (hE e) id⟩)
    fun _ h => h)

theorem keeps_orElse {e : η} {E' : η → Prop} {m : Proc ε σ δ α}
    (h : keeps allow I E m Q s d) (hE : ∀ e', E e' → E' e) :
    keeps allow I E' (Proc.orElse e m) Q s d :=
  keeps_mapError h hE

theorem keeps_forIndexed {Q : Unit → σ → δ → Prop} {f : Nat → α → Proc ε σ δ Unit}
    (inv : Nat → σ → δ → Prop) {xs : List α} {i : Nat}
    (hstep : ∀ j a s d, xs[j]? = some a → inv (i + j) s d →
      keeps allow I E (f (i + j) a) (fun _ => inv (i + j + 1)) s d)
    (hstart : inv i s d) (hend : ∀ s d, inv (i + xs.length) s d → Q () s d) :
    keeps allow I E (Proc.forIndexed f i xs) Q s d :=
  wp_forIndexed inv hstep hstart hend

theorem keeps_forIndexedDown {Q : Unit → σ → δ → Prop} {f : Nat → α → Proc ε σ δ Unit}
    (inv : Nat → σ → δ → Prop) {xs : List α} {i : Nat}
    (hstep : ∀ j a s d, xs[j]? = some a → inv (i + j + 1) s d →
      keeps allow I E (f (i + j) a) (fun _ => inv (i + j)) s d)
    (hstart : inv (i + xs.length) s d) (hend : ∀ s d, inv i s d → Q () s d) :
    keeps allow I E (Proc.forIndexedDown f i xs) Q s d :=
  wp_forIndexedDown inv hstep hstart hend

theorem keeps_mapIndexed {Q : List β → σ → δ → Prop} {f : Nat → α → Proc ε σ δ β}
    (inv : σ → δ → Prop) (g : Nat → α → β) {xs : List α} {i : Nat}
    (hstep : ∀ j a s d, xs[j]? = some a → inv s d →
      keeps allow I E (f (i + j) a) (fun b s' d' => b = g (i + j) a ∧ inv s' d') s d)
    (hstart : inv s d) (hend : ∀ s d, inv s d → Q (xs.mapIdx fun j => g (i + j)) s d) :
    keeps allow I E (Proc.mapIndexed f i xs) Q s d :=
  wp_mapIndexed inv g hstep hstart hend

end Keeps

/-! ## Frames -/

/-- A relation between the disk before a run and the disk after it that runs
can be chained along. -/
class FrameRel (R : δ → δ → Prop) : Prop where
  refl : ∀ d, R d d
  trans : ∀ {a b c}, R a b → R b c → R a c

/-- Every outcome of `m`, whatever its faults, leaves a disk that `R` relates to
the one it started from. -/
def Preserves (R : δ → δ → Prop) (m : Proc ε σ δ α) : Prop :=
  ∀ allow s d, wp allow m ⟨fun _ _ => R d, fun _ _ => R d, R d⟩ s d

namespace Preserves

variable {R : δ → δ → Prop}

/-- What `m` establishes and what it preserves, together. -/
theorem wp_and {allow : Fault → Prop} {post : Post ε σ δ α} {s : σ} {d : δ}
    {m : Proc ε σ δ α} (hm : Preserves R m) (h : wp allow m post s d) :
    wp allow m ⟨fun a s' d' => post.done a s' d' ∧ R d d',
      fun e s' d' => post.error e s' d' ∧ R d d', fun d' => post.cut d' ∧ R d d'⟩ s d :=
  Crash.wp_and h (hm allow s d)

theorem pure [FrameRel R] (a : α) : Preserves R (Pure.pure a : Proc ε σ δ α) :=
  fun _ _ d => wp_pure (FrameRel.refl d)

theorem throw [FrameRel R] (e : ε) : Preserves R (Proc.throw e : Proc ε σ δ α) :=
  fun _ _ d => wp_throw (FrameRel.refl d)

theorem get [FrameRel R] : Preserves R (Proc.get : Proc ε σ δ σ) :=
  fun _ _ d => wp_get (FrameRel.refl d)

theorem modify [FrameRel R] (f : σ → σ) :
    Preserves R (Proc.modify f : Proc ε σ δ Unit) :=
  fun _ _ d => wp_modify (FrameRel.refl d)

theorem check [FrameRel R] (p : Prop) [Decidable p] (e : ε) :
    Preserves R (Proc.check p e : Proc ε σ δ Unit) :=
  fun _ _ d => wp_check (fun _ => FrameRel.refl d) fun _ => FrameRel.refl d

theorem bind [FrameRel R] {m : Proc ε σ δ α} {k : α → Proc ε σ δ β}
    (hm : Preserves R m) (hk : ∀ a, Preserves R (k a)) : Preserves R (m >>= k) := by
  intro allow s d
  refine wp_bind (wp_mono (hm allow s d) ?_ (fun _ _ _ h => h) fun _ h => h)
  intro a s' d' h
  exact wp_mono (hk a allow s' d') (fun _ _ _ h' => FrameRel.trans h h')
    (fun _ _ _ h' => FrameRel.trans h h') fun _ h' => FrameRel.trans h h'

theorem attempt {m : Proc ε σ δ α} (hm : Preserves R m) :
    Preserves R (Proc.attempt m : Proc η σ δ (Except ε α)) :=
  fun allow s d => wp_attempt (hm allow s d)

theorem mapError {m : Proc ε σ δ α} (f : ε → η) (hm : Preserves R m) :
    Preserves R (Proc.mapError f m) :=
  fun allow s d => wp_mapError (hm allow s d)

theorem act [FrameRel R] {f : δ → Option (Effect δ α)}
    (hf : ∀ d effect, f d = some effect → R d effect.final ∧ ∀ k, R d (effect.torn k)) :
    Preserves R (Proc.act f : Proc Unit σ δ α) := by
  intro allow s d
  cases heffect : f d with
  | none => exact wp_act_refused heffect (FrameRel.refl d)
  | some effect =>
      obtain ⟨hfinal, htorn⟩ := hf d effect heffect
      exact wp_act heffect hfinal fun k => ⟨fun _ => htorn k, fun _ _ _ => htorn k⟩

theorem observe [FrameRel R] (f : δ → Option α) :
    Preserves R (Proc.observe f : Proc Unit σ δ α) := by
  refine act fun d effect heffect => ?_
  obtain ⟨a, -, rfl⟩ := Option.map_eq_some_iff.mp heffect
  exact ⟨FrameRel.refl d, fun _ => FrameRel.refl d⟩

theorem isolate {τ : Type} {t : τ} {m : Proc ε τ δ α} (hm : Preserves R m) :
    Preserves R (Proc.isolate t m : Proc ε σ δ α) :=
  fun allow _ d => wp_isolate (hm allow t d)

end Preserves

/-- Every outcome of `m` that keeps a private state keeps one that `S` relates to
the one it started with. -/
def Steady (allow : Fault → Prop) (S : σ → σ → Prop) (m : Proc ε σ δ α) : Prop :=
  ∀ s d, wp allow m ⟨fun _ s' _ => S s s', fun _ s' _ => S s s', fun _ => True⟩ s d

namespace Steady

variable {allow : Fault → Prop} {S : σ → σ → Prop}

theorem pure [FrameRel S] (a : α) : Steady allow S (Pure.pure a : Proc ε σ δ α) :=
  fun s _ => wp_pure (FrameRel.refl s)

theorem throw [FrameRel S] (e : ε) : Steady allow S (Proc.throw e : Proc ε σ δ α) :=
  fun s _ => wp_throw (FrameRel.refl s)

theorem get [FrameRel S] : Steady allow S (Proc.get : Proc ε σ δ σ) :=
  fun s _ => wp_get (FrameRel.refl s)

theorem modify {f : σ → σ} (hf : ∀ s, S s (f s)) :
    Steady allow S (Proc.modify f : Proc ε σ δ Unit) :=
  fun s _ => wp_modify (hf s)

theorem check [FrameRel S] (p : Prop) [Decidable p] (e : ε) :
    Steady allow S (Proc.check p e : Proc ε σ δ Unit) :=
  fun s _ => wp_check (fun _ => FrameRel.refl s) fun _ => FrameRel.refl s

theorem bind [FrameRel S] {m : Proc ε σ δ α} {k : α → Proc ε σ δ β} (hm : Steady allow S m)
    (hk : ∀ a, Steady allow S (k a)) : Steady allow S (m >>= k) := by
  intro s d
  refine wp_bind (wp_mono (hm s d) ?_ (fun _ _ _ h => h) fun _ h => h)
  intro a s' d' h
  exact wp_mono (hk a s' d') (fun _ _ _ h' => FrameRel.trans h h')
    (fun _ _ _ h' => FrameRel.trans h h') fun _ h' => h'

theorem attempt {m : Proc ε σ δ α} (hm : Steady allow S m) :
    Steady allow S (Proc.attempt m : Proc η σ δ (Except ε α)) :=
  fun s d => wp_attempt (hm s d)

theorem mapError {m : Proc ε σ δ α} (f : ε → η) (hm : Steady allow S m) :
    Steady allow S (Proc.mapError f m) :=
  fun s d => wp_mapError (hm s d)

theorem orElse {m : Proc ε σ δ α} (e : η) (hm : Steady allow S m) :
    Steady allow S (Proc.orElse e m) :=
  hm.mapError _

theorem act [FrameRel S] (f : δ → Option (Effect δ α)) :
    Steady allow S (Proc.act f : Proc Unit σ δ α) := by
  intro s d faults hfaults
  unfold Proc.act
  cases f d with
  | none => exact ⟨FrameRel.refl s, hfaults⟩
  | some effect =>
      have hrest : ∀ {fault rest}, faults = fault :: rest → ∀ f ∈ rest, allow f :=
        fun h f hf => hfaults f (h ▸ List.mem_cons_of_mem _ hf)
      rcases faults with _ | ⟨_ | _ | _, rest⟩
      · exact ⟨FrameRel.refl s, hfaults⟩
      · exact ⟨FrameRel.refl s, hrest rfl⟩
      · exact ⟨FrameRel.refl s, hrest rfl⟩
      · exact trivial

theorem observe [FrameRel S] (f : δ → Option α) :
    Steady allow S (Proc.observe f : Proc Unit σ δ α) := act _

end Steady

/-- A step whose result, error or not, is looked at: what it keeps and what it
leaves of the private state. -/
theorem keeps_attempt {allow : Fault → Prop} {S : σ → σ → Prop} {I J : δ → Prop}
    {E : ε → Prop} {E' : η → Prop} {T : α → σ → δ → Prop} {Q : Except ε α → σ → δ → Prop}
    {m : Proc ε σ δ α} {s : σ} {d : δ} (h : keeps allow J E m T s d)
    (hsteady : Steady allow S m) (hI : ∀ d, J d → I d)
    (hok : ∀ a s' d', S s s' → T a s' d' → Q (.ok a) s' d')
    (herror : ∀ e s' d', S s s' → J d' → E e ∨ MayFail allow → Q (.error e) s' d') :
    keeps allow I E' (Proc.attempt m) Q s d := by
  refine wp_attempt (wp_mono (wp_and h (hsteady s d)) ?_ ?_ fun d' h => ⟨hI d' h.1.1, h.1.2⟩)
  · exact fun a s' d' h => hok a s' d' h.2 h.1
  · exact fun e s' d' h => herror e s' d' h.2 h.1.1 h.1.2

instance : FrameRel (Eq : δ → δ → Prop) := ⟨fun _ => rfl, Eq.trans⟩

instance : FrameRel (fun _ _ : δ => True) := ⟨fun _ => trivial, fun _ _ => trivial⟩

/-- Every outcome of `m` leaves a disk related to the first by `R` and a private
state related to the first by `S`. -/
structure Respects (S : σ → σ → Prop) (R : δ → δ → Prop) (m : Proc ε σ δ α) : Prop where
  preserves : Preserves R m
  steady : ∀ allow, Steady allow S m

namespace Respects

variable {S : σ → σ → Prop} {R : δ → δ → Prop}

/-- What a program respects, as what its runs keep. -/
theorem keeps {m : Proc ε σ δ α} (hm : Respects S R m) (s : σ) (d : δ) :
    keeps anyFault (R d) anyError m (fun _ s' d' => S s s' ∧ R d d') s d :=
  wp_mono (wp_and (hm.preserves anyFault s d) (hm.steady anyFault s d))
    (fun _ _ _ h => ⟨h.2, h.1⟩) (fun _ _ _ h => ⟨h.1, Or.inl trivial⟩)
    fun _ h => ⟨h.1, ⟨0, trivial⟩⟩

theorem mono {R' : δ → δ → Prop} {m : Proc ε σ δ α} (hm : Respects S R m)
    (h : ∀ d d', R d d' → R' d d') : Respects S R' m :=
  ⟨fun allow s d => wp_mono (hm.preserves allow s d) (fun _ _ _ => h d _) (fun _ _ _ => h d _)
    fun _ => h d _, hm.steady⟩

theorem isolate [FrameRel S] {τ : Type} {t : τ} {m : Proc ε τ δ α} (hm : Preserves R m) :
    Respects S R (Proc.isolate t m : Proc ε σ δ α) := by
  refine ⟨hm.isolate, fun allow s d => wp_isolate (wp_mono (hm allow t d) ?_ ?_ ?_)⟩
  · exact fun _ _ _ _ => FrameRel.refl s
  · exact fun _ _ _ _ => FrameRel.refl s
  · exact fun _ _ => trivial

theorem attempt {m : Proc ε σ δ α} (hm : Respects S R m) :
    Respects S R (Proc.attempt m : Proc η σ δ (Except ε α)) :=
  ⟨hm.preserves.attempt, fun allow => (hm.steady allow).attempt⟩

theorem mapError {m : Proc ε σ δ α} (f : ε → η) (hm : Respects S R m) :
    Respects S R (Proc.mapError f m) :=
  ⟨hm.preserves.mapError f, fun allow => (hm.steady allow).mapError f⟩

theorem orElse {m : Proc ε σ δ α} (e : η) (hm : Respects S R m) :
    Respects S R (Proc.orElse e m) :=
  hm.mapError _

theorem modify [FrameRel R] {f : σ → σ} (hf : ∀ s, S s (f s)) :
    Respects S R (Proc.modify f : Proc ε σ δ Unit) :=
  ⟨.modify f, fun _ => .modify hf⟩

variable [FrameRel S] [FrameRel R]

theorem pure (a : α) : Respects S R (Pure.pure a : Proc ε σ δ α) := ⟨.pure a, fun _ => .pure a⟩

theorem throw (e : ε) : Respects S R (Proc.throw e : Proc ε σ δ α) :=
  ⟨.throw e, fun _ => .throw e⟩

theorem get : Respects S R (Proc.get : Proc ε σ δ σ) := ⟨.get, fun _ => .get⟩

theorem check (p : Prop) [Decidable p] (e : ε) :
    Respects S R (Proc.check p e : Proc ε σ δ Unit) :=
  ⟨.check p e, fun _ => .check p e⟩

theorem observe (f : δ → Option α) : Respects S R (Proc.observe f : Proc Unit σ δ α) :=
  ⟨.observe f, fun _ => .observe f⟩

theorem whenOr {p : Prop} [Decidable p] (a : α) {m : Proc ε σ δ α} (hm : Respects S R m) :
    Respects S R (Proc.whenOr p a m) := by
  unfold Proc.whenOr
  split
  · exact hm
  · exact pure a

theorem when {p : Prop} [Decidable p] {m : Proc ε σ δ Unit} (hm : Respects S R m) :
    Respects S R (Proc.when p m) :=
  hm.whenOr ()

theorem bind {m : Proc ε σ δ α} {k : α → Proc ε σ δ β} (hm : Respects S R m)
    (hk : ∀ a, Respects S R (k a)) : Respects S R (m >>= k) :=
  ⟨hm.preserves.bind fun a => (hk a).preserves,
    fun allow => (hm.steady allow).bind fun a => (hk a).steady allow⟩

theorem inSpite {first second : Proc ε σ δ Unit} (hfirst : Respects S R first)
    (hsecond : Respects S R second) : Respects S R (Proc.inSpite first second) := by
  refine bind hfirst.attempt fun done => bind hsecond.attempt fun closed => ?_
  rcases done with e | a <;> rcases closed with e' | b
  · exact throw e
  · exact throw e
  · exact throw e'
  · exact pure ()

theorem forIndexed {f : Nat → α → Proc ε σ δ Unit} {xs : List α} {i : Nat}
    (hf : ∀ j a, xs[j]? = some a → Respects S R (f (i + j) a)) :
    Respects S R (Proc.forIndexed f i xs) := by
  induction xs generalizing i with
  | nil => exact pure ()
  | cons a rest ih =>
      refine bind (hf 0 a rfl) fun _ => ih fun j b hb => ?_
      have hshift : i + 1 + j = i + (j + 1) := by omega
      rw [hshift]
      exact hf (j + 1) b (by simpa using hb)

theorem forIndexedDown {f : Nat → α → Proc ε σ δ Unit} {xs : List α} {i : Nat}
    (hf : ∀ j a, xs[j]? = some a → Respects S R (f (i + j) a)) :
    Respects S R (Proc.forIndexedDown f i xs) := by
  induction xs generalizing i with
  | nil => exact pure ()
  | cons a rest ih =>
      refine bind (ih fun j b hb => ?_) fun _ => hf 0 a rfl
      have hshift : i + 1 + j = i + (j + 1) := by omega
      rw [hshift]
      exact hf (j + 1) b (by simpa using hb)

theorem mapIndexed {f : Nat → α → Proc ε σ δ β} {xs : List α} {i : Nat}
    (hf : ∀ j a, xs[j]? = some a → Respects S R (f (i + j) a)) :
    Respects S R (Proc.mapIndexed f i xs) := by
  induction xs generalizing i with
  | nil => exact pure []
  | cons a rest ih =>
      refine bind (hf 0 a rfl) fun b => bind (ih fun j c hc => ?_) fun _ => pure _
      have hshift : i + 1 + j = i + (j + 1) := by omega
      rw [hshift]
      exact hf (j + 1) c (by simpa using hc)

end Respects

/-- A program that changes nothing on the disk. -/
abbrev ReadOnly (m : Proc ε σ δ α) : Prop := Preserves Eq m

/-! ## The errors of a program -/

/-- Every error of `m`, that of an injected fault included, is in `N`. -/
def Raises (N : ε → Prop) (m : Proc ε σ δ α) : Prop :=
  ∀ allow s d, wp allow m ⟨fun _ _ _ => True, fun e _ _ => N e, fun _ => True⟩ s d

namespace Raises

variable {N : ε → Prop}

theorem pure (a : α) : Raises N (Pure.pure a : Proc ε σ δ α) := fun _ _ _ => wp_pure trivial

theorem bind {m : Proc ε σ δ α} {k : α → Proc ε σ δ β} (hm : Raises N m)
    (hk : ∀ a, Raises N (k a)) : Raises N (m >>= k) := by
  intro allow s d
  refine wp_bind (wp_mono (hm allow s d) ?_ (fun _ _ _ h => h) fun _ h => h)
  exact fun a s' d' _ => hk a allow s' d'

/-- A renamed error has its new name. -/
theorem orElse {R : δ → δ → Prop} {e : ε} {m : Proc η σ δ α} (hm : Preserves R m) (he : N e) :
    Raises N (Proc.orElse e m) :=
  fun allow s d => wp_orElse (wp_mono (hm allow s d) (fun _ _ _ _ => trivial)
    (fun _ _ _ _ => he) fun _ _ => trivial)

end Raises

/-! ## Couplings of the private state with the disk -/

/-- Runs of `m` that start where `J` couples the private state with the disk end
where `K` does, or fail or are cut on a disk that satisfies `I`. -/
def Leads (I : δ → Prop) (J K : σ → δ → Prop) (m : Proc ε σ δ α) : Prop :=
  ∀ s d, J s d → keeps anyFault I anyError m (fun _ => K) s d

namespace Leads

variable {I : δ → Prop} {J K L : σ → δ → Prop}

theorem pure (a : α) : Leads I J J (Pure.pure a : Proc ε σ δ α) := fun _ _ h => keeps_pure h

theorem throw (e : ε) (hJ : ∀ s d, J s d → I d) :
    Leads I J K (Proc.throw e : Proc ε σ δ α) :=
  fun s d h => keeps_throw (hJ s d h) trivial

theorem bind {m : Proc ε σ δ α} {k : α → Proc ε σ δ β} (hm : Leads I J K m)
    (hk : ∀ a, Leads I K L (k a)) : Leads I J L (m >>= k) :=
  fun s d h => keeps_bind (keeps_done (hm s d h) fun a s' d' h' => hk a s' d' h')

/-- What follows a check may rely on it. -/
theorem check {p : Prop} [Decidable p] {e : ε} {k : Unit → Proc ε σ δ β}
    (hJ : ∀ s d, J s d → I d) (hk : p → Leads I J K (k ())) :
    Leads I J K (Proc.check p e >>= k) :=
  fun s d h => keeps_bind (keeps_check (fun _ => ⟨hJ s d h, trivial⟩) fun hp => hk hp s d h)

theorem ite {p : Prop} [Decidable p] {m m' : Proc ε σ δ α} (hm : p → Leads I J K m)
    (hm' : ¬p → Leads I J K m') : Leads I J K (if p then m else m') :=
  fun s d h => keeps_ite (fun hp => hm hp s d h) fun hp => hm' hp s d h

theorem when {p : Prop} [Decidable p] {m : Proc ε σ δ Unit} (hm : p → Leads I J K m)
    (hskip : ¬p → ∀ s d, J s d → K s d) : Leads I J K (Proc.when p m) :=
  fun s d h => keeps_when (fun hp => hm hp s d h) fun hp => hskip hp s d h

theorem forIndexed {f : Nat → α → Proc ε σ δ Unit} {xs : List α} {i : Nat}
    (hf : ∀ j a, xs[j]? = some a → Leads I J J (f (i + j) a)) :
    Leads I J J (Proc.forIndexed f i xs) :=
  fun _ _ h => keeps_forIndexed (fun _ => J) (fun j a s' d' ha h' => hf j a ha s' d' h') h
    fun _ _ h' => h'

theorem weaken {J' K' : σ → δ → Prop} {m : Proc ε σ δ α} (hm : Leads I J K m)
    (hJ : ∀ s d, J' s d → J s d) (hK : ∀ s d, K s d → K' s d) : Leads I J' K' m :=
  fun s d h => keeps_done (hm s d (hJ s d h)) fun _ => hK

/-- A program that respects what the coupling depends on. -/
theorem of_respects {S : σ → σ → Prop} [FrameRel S] {R : δ → δ → Prop} {m : Proc ε σ δ α}
    (hm : Respects S R m) (hJ : ∀ s s' d d', S s s' → R d d' → J s d → J s' d')
    (hI : ∀ s d, J s d → I d) : Leads I J J m := by
  intro s d h
  refine wp_mono (wp_and (hm.preserves anyFault s d) (hm.steady anyFault s d)) ?_ ?_ ?_
  · exact fun _ s' d' hend => hJ s s' d d' hend.2 hend.1 h
  · exact fun e s' d' hend => ⟨hI _ _ (hJ s s' d d' hend.2 hend.1 h), Or.inl trivial⟩
  · exact fun d' hend => ⟨hI _ _ (hJ s s d d' (FrameRel.refl s) hend.1 h), 0, trivial⟩

end Leads

/-! ## One run -/

/-- The disk a run leaves is related to the one it started from. -/
theorem Preserves.disk {R : δ → δ → Prop} {m : Proc ε σ δ α} (hm : Preserves R m) (s : σ)
    (w : World δ) : R w.disk (m s w).disk :=
  wp_disk (hm anyFault s w.disk) fun _ _ => trivial

/-! ## One operation at a time -/

/-- Two outcomes of a program under schedules that agree up to a cut: before
power is lost, and after the `k`-th part of the operation it is lost in. -/
inductive Outcome.InStep (P : δ → δ → Prop) (k : Nat) :
    Outcome ε σ δ α → Outcome ε σ δ α → Prop
  | done (a : α) (s : σ) (d : δ) (faults : List Fault) :
      InStep P k (.done a s ⟨d, faults ++ [.cut 0]⟩) (.done a s ⟨d, faults ++ [.cut k]⟩)
  | error (e : ε) (s : σ) (d : δ) (faults : List Fault) :
      InStep P k (.error e s ⟨d, faults ++ [.cut 0]⟩) (.error e s ⟨d, faults ++ [.cut k]⟩)
  | cut {d d' : δ} (h : P d d') : InStep P k (.cut d) (.cut d')

/-- Every operation of `m` changes the disk as `P` says. -/
def Stepwise (P : δ → δ → Prop) (m : Proc ε σ δ α) : Prop :=
  ∀ k s d faults, Outcome.InStep P k (m s ⟨d, faults ++ [.cut 0]⟩) (m s ⟨d, faults ++ [.cut k]⟩)

namespace Stepwise

variable {P : δ → δ → Prop}

theorem pure (a : α) : Stepwise P (Pure.pure a : Proc ε σ δ α) := fun _ s d faults =>
  .done a s d faults

theorem throw (e : ε) : Stepwise P (Proc.throw e : Proc ε σ δ α) := fun _ s d faults =>
  .error e s d faults

theorem check (p : Prop) [Decidable p] (e : ε) :
    Stepwise P (Proc.check p e : Proc ε σ δ Unit) := by
  unfold Proc.check
  split
  · exact pure ()
  · exact throw e

theorem bind {m : Proc ε σ δ α} {k : α → Proc ε σ δ β} (hm : Stepwise P m)
    (hk : ∀ a, Stepwise P (k a)) : Stepwise P (m >>= k) := by
  intro j s d faults
  change Outcome.InStep P j (Proc.bind m k s _) (Proc.bind m k s _)
  unfold Proc.bind
  have h := hm j s d faults
  generalize m s ⟨d, faults ++ [.cut 0]⟩ = before, m s ⟨d, faults ++ [.cut j]⟩ = after at h ⊢
  cases h with
  | done a s' d' rest => exact hk a j s' d' rest
  | error e s' d' rest => exact .error e s' d' rest
  | cut h => exact .cut h

theorem attempt {m : Proc ε σ δ α} (hm : Stepwise P m) :
    Stepwise P (Proc.attempt m : Proc η σ δ (Except ε α)) := by
  intro j s d faults
  unfold Proc.attempt
  have h := hm j s d faults
  generalize m s ⟨d, faults ++ [.cut 0]⟩ = before, m s ⟨d, faults ++ [.cut j]⟩ = after at h ⊢
  cases h with
  | done a s' d' rest => exact .done (Except.ok a) s' d' rest
  | error e s' d' rest => exact .done (Except.error e) s' d' rest
  | cut h => exact .cut h

theorem mapError {m : Proc ε σ δ α} (f : ε → η) (hm : Stepwise P m) :
    Stepwise P (Proc.mapError f m) := by
  intro j s d faults
  unfold Proc.mapError
  have h := hm j s d faults
  generalize m s ⟨d, faults ++ [.cut 0]⟩ = before, m s ⟨d, faults ++ [.cut j]⟩ = after at h ⊢
  cases h with
  | done a s' d' rest => exact .done a s' d' rest
  | error e s' d' rest => exact .error (f e) s' d' rest
  | cut h => exact .cut h

theorem orElse {m : Proc ε σ δ α} (e : η) (hm : Stepwise P m) :
    Stepwise P (Proc.orElse e m) :=
  hm.mapError _

/-- An operation whose torn states are all within `R` of the disk before it. -/
theorem act_of_preserves [Std.Refl P] {R : δ → δ → Prop} {f : δ → Option (Effect δ α)}
    (h : Preserves R (Proc.act f : Proc Unit σ δ α)) (hP : ∀ d v w, R d v → R d w → P v w) :
    Stepwise P (Proc.act f : Proc Unit σ δ α) := by
  intro j s d faults
  have htorn : ∀ {effect}, f d = some effect → ∀ k, R d (effect.torn k) := by
    intro effect heffect k
    have hcut := h anyFault s d [.cut k] fun _ _ => trivial
    simp only [Proc.act, heffect] at hcut
    exact hcut
  unfold Proc.act
  dsimp only
  cases heffect : f d with
  | none => exact .error () s d faults
  | some effect =>
      rcases faults with _ | ⟨_ | i | i, rest⟩
      · exact .cut (hP d _ _ (htorn heffect 0) (htorn heffect j))
      · exact .done effect.value s effect.final rest
      · exact .error () s (effect.torn i) rest
      · exact .cut (Std.Refl.refl _)

theorem observe [Std.Refl P] (f : δ → Option α) :
    Stepwise P (Proc.observe f : Proc Unit σ δ α) :=
  act_of_preserves (R := Eq) (Preserves.observe f) fun d v w hv hw => by
    subst hv hw
    exact Std.Refl.refl d

theorem forIndexed {f : Nat → α → Proc ε σ δ Unit} {xs : List α} {i : Nat}
    (hf : ∀ j a, Stepwise P (f j a)) : Stepwise P (Proc.forIndexed f i xs) := by
  induction xs generalizing i with
  | nil => exact pure ()
  | cons a rest ih => exact bind (hf i a) fun _ => ih

/-- The disks just before an operation and in the midst of it. -/
theorem disk {m : Proc ε σ δ α} [Std.Refl P] (hm : Stepwise P m) (k : Nat) (s : σ) (d : δ)
    (faults : List Fault) :
    P (m s ⟨d, faults ++ [.cut 0]⟩).disk (m s ⟨d, faults ++ [.cut k]⟩).disk := by
  have h := hm k s d faults
  generalize m s ⟨d, faults ++ [.cut 0]⟩ = before, m s ⟨d, faults ++ [.cut k]⟩ = after at h ⊢
  cases h with
  | done a s' d' rest => exact Std.Refl.refl d'
  | error e s' d' rest => exact Std.Refl.refl d'
  | cut h => exact h

end Stepwise

/-! ## Programs that look, operation by operation -/

/-- How a program ends that makes operations without effect, one for every entry
of `errors`, and returns `a`: it stops with the entry of the first operation that
fails. -/
def observed (s : σ) (d : δ) : List ε → α → List Fault → Outcome ε σ δ α
  | [], a, faults => .done a s ⟨d, faults⟩
  | _ :: errors, a, [] => observed s d errors a []
  | _ :: errors, a, .ok :: faults => observed s d errors a faults
  | e :: _, _, .fail _ :: faults => .error e s ⟨d, faults⟩
  | _ :: _, _, .cut _ :: _ => .cut d

/-- The error of the first operation that fails, and the schedule it leaves. -/
def firstFailure : List ε → List Fault → Option (ε × List Fault)
  | e :: _, .fail _ :: faults => some (e, faults)
  | _ :: errors, .ok :: faults => firstFailure errors faults
  | _, _ => none

theorem mem_of_firstFailure {errors : List ε} {faults rest : List Fault} {e : ε}
    (h : firstFailure errors faults = some (e, rest)) : e ∈ errors := by
  induction errors generalizing faults with
  | nil => cases faults <;> cases h
  | cons e' errors ih =>
      rcases faults with _ | ⟨_ | _ | _, faults⟩
      · cases h
      · exact List.mem_cons_of_mem _ (ih h)
      · cases h
        exact List.mem_cons_self
      · cases h

/-- Under every schedule `m` makes the operations of `errors` and returns `a`. -/
def Observes (m : Proc ε σ δ α) (s : σ) (d : δ) (errors : List ε) (a : α) : Prop :=
  ∀ faults, m s ⟨d, faults⟩ = observed s d errors a faults

namespace Observes

variable {s : σ} {d : δ} {a : α} {b : β} {errors later : List ε} {m : Proc ε σ δ α}

theorem pure (a : α) : Observes (Pure.pure a : Proc ε σ δ α) s d [] a := fun _ => rfl

theorem check {p : Prop} [Decidable p] {e : ε} (hp : p) :
    Observes (Proc.check p e) s d [] () := by
  intro faults
  unfold Proc.check
  rw [if_pos hp]
  rfl

theorem bind {k : α → Proc ε σ δ β} (hm : Observes m s d errors a)
    (hk : Observes (k a) s d later b) : Observes (m >>= k) s d (errors ++ later) b := by
  intro faults
  change Proc.bind m k s ⟨d, faults⟩ = _
  unfold Proc.bind
  rw [hm faults]
  clear hm
  induction errors generalizing faults with
  | nil => exact hk faults
  | cons e errors ih =>
      rcases faults with _ | ⟨_ | _ | _, rest⟩
      · exact ih []
      · exact ih rest
      · rfl
      · rfl

theorem mapError (f : ε → η) (hm : Observes m s d errors a) :
    Observes (Proc.mapError f m) s d (errors.map f) a := by
  intro faults
  unfold Proc.mapError
  rw [hm faults]
  clear hm
  induction errors generalizing faults with
  | nil => rfl
  | cons e errors ih =>
      rcases faults with _ | ⟨_ | _ | _, rest⟩
      · exact ih []
      · exact ih rest
      · rfl
      · rfl

theorem orElse (e : η) (hm : Observes m s d errors a) :
    Observes (Proc.orElse e m) s d (errors.map fun _ => e) a :=
  hm.mapError _

theorem observe {f : δ → Option α} (hf : f d = some a) :
    Observes (Proc.observe f) s d [()] a := by
  intro faults
  unfold Proc.observe Proc.act
  dsimp only
  rw [hf]
  rcases faults with _ | ⟨_ | _ | _, rest⟩ <;> rfl

end Observes

/-- Where no operation fails or is cut, it returns. -/
theorem observed_of_ok {s : σ} {d : δ} {errors : List ε} {a : α} {faults : List Fault}
    (hok : ∀ f ∈ faults.take errors.length, f = .ok) :
    observed s d errors a faults = .done a s ⟨d, faults.drop errors.length⟩ := by
  induction errors generalizing faults with
  | nil => rfl
  | cons e errors ih =>
      cases faults with
      | nil =>
          have hrest := @ih [] fun f hf => by simp at hf
          rwa [List.drop_nil] at hrest ⊢
      | cons f rest =>
          obtain rfl : f = .ok := hok f List.mem_cons_self
          exact ih fun g hg => hok g (List.mem_cons_of_mem _ hg)

/-- A program that looks stops at its first operation that fails, returns, or is
cut, and changes nothing. -/
theorem observed_cases (s : σ) (d : δ) (errors : List ε) (a : α) (faults : List Fault) :
    (∃ e rest, firstFailure errors faults = some (e, rest) ∧
        observed s d errors a faults = .error e s ⟨d, rest⟩) ∨
      firstFailure errors faults = none ∧
        ((∃ rest, observed s d errors a faults = .done a s ⟨d, rest⟩) ∨
          observed s d errors a faults = .cut d) := by
  induction errors generalizing faults with
  | nil => exact Or.inr ⟨by unfold firstFailure; rfl, Or.inl ⟨faults, rfl⟩⟩
  | cons e errors ih =>
      rcases faults with _ | ⟨_ | _ | _, rest⟩
      · refine Or.inr ⟨rfl, ?_⟩
        rcases ih [] with ⟨e', rest, hfirst, -⟩ | ⟨-, hend⟩
        · cases errors <;> cases hfirst
        · exact hend
      · exact ih rest
      · exact Or.inl ⟨e, rest, rfl, rfl⟩
      · exact Or.inr ⟨rfl, Or.inr rfl⟩

/-! ## Programs that need all of their operations -/

/-- `m` makes `n` operations and returns `a` when all of them take effect; when one of
them fails or is cut it returns nothing. -/
structure Demands (m : Proc ε σ δ α) (s : σ) (d : δ) (n : Nat) (a : α) (s' : σ) (d' : δ) :
    Prop where
  succeeds : ∀ faults : List Fault, (∀ f ∈ faults.take n, f = .ok) →
    m s ⟨d, faults⟩ = .done a s' ⟨d', faults.drop n⟩
  stops : ∀ faults : List Fault, ¬(∀ f ∈ faults.take n, f = .ok) →
    (m s ⟨d, faults⟩).result = none

namespace Demands

variable {s s' s'' : σ} {d d' d'' : δ} {a : α} {b : β} {n k : Nat} {m : Proc ε σ δ α}

theorem pure (a : α) : Demands (Pure.pure a : Proc ε σ δ α) s d 0 a s d :=
  ⟨fun _ _ => rfl, fun _ h => absurd (by simp) h⟩

theorem check {p : Prop} [Decidable p] {e : ε} (hp : p) :
    Demands (Proc.check p e) s d 0 () s d := by
  unfold Proc.check
  rw [if_pos hp]
  exact pure ()

theorem bind {f : α → Proc ε σ δ β} (hm : Demands m s d n a s' d')
    (hf : Demands (f a) s' d' k b s'' d'') : Demands (m >>= f) s d (n + k) b s'' d'' := by
  have hrun : ∀ faults, (m >>= f) s ⟨d, faults⟩ = Proc.bind m f s ⟨d, faults⟩ := fun _ => rfl
  have hsplit : ∀ faults : List Fault, (∀ x ∈ faults.take (n + k), x = .ok) ↔
      (∀ x ∈ faults.take n, x = .ok) ∧ ∀ x ∈ (faults.drop n).take k, x = .ok := by
    intro faults
    rw [List.take_add, List.forall_mem_append]
  constructor
  · intro faults hok
    obtain ⟨hfirst, hsecond⟩ := (hsplit faults).mp hok
    rw [hrun, Proc.bind, hm.succeeds faults hfirst]
    dsimp only
    rw [hf.succeeds _ hsecond, List.drop_drop]
  · intro faults hnot
    rw [hsplit, not_and] at hnot
    rw [hrun, Proc.bind]
    by_cases hfirst : ∀ x ∈ faults.take n, x = .ok
    · rw [hm.succeeds faults hfirst]
      exact hf.stops _ (hnot hfirst)
    · have hnone := hm.stops faults hfirst
      cases hout : m s ⟨d, faults⟩ with
      | done a s' w' =>
          rw [hout] at hnone
          cases hnone
      | error e s' w' => rfl
      | cut d => rfl

/-- The same, for a program whose operations are counted. -/
theorem step {f : α → Proc ε σ δ β} {total : Nat} (hm : Demands m s d n a s' d')
    (hcount : k + n = total) (hf : Demands (f a) s' d' k b s'' d'') :
    Demands (m >>= f) s d total b s'' d'' := by
  rw [← hcount, Nat.add_comm]
  exact hm.bind hf

theorem mapError (f : ε → η) (hm : Demands m s d n a s' d') :
    Demands (Proc.mapError f m) s d n a s' d' := by
  constructor
  · intro faults hok
    unfold Proc.mapError
    rw [hm.succeeds faults hok]
  · intro faults hnot
    have hnone := hm.stops faults hnot
    unfold Proc.mapError
    cases hout : m s ⟨d, faults⟩ with
    | done a s' w' =>
        rw [hout] at hnone
        cases hnone
    | error e s' w' => rfl
    | cut d => rfl

theorem orElse (e : η) (hm : Demands m s d n a s' d') :
    Demands (Proc.orElse e m) s d n a s' d' :=
  hm.mapError _

theorem act {f : δ → Option (Effect δ α)} {torn : Nat → δ} (hf : f d = some ⟨a, d', torn⟩) :
    Demands (Proc.act f) s d 1 a s d' := by
  constructor
  · intro faults hok
    unfold Proc.act
    dsimp only
    rw [hf]
    rcases faults with _ | ⟨fault, faults⟩
    · rfl
    · obtain rfl : fault = .ok := hok fault (by simp)
      rfl
  · intro faults hnot
    unfold Proc.act
    dsimp only
    rw [hf]
    rcases faults with _ | ⟨_ | _ | _, faults⟩
    · exact absurd (by simp) hnot
    · exact absurd (by simp) hnot
    · rfl
    · rfl

theorem observe {f : δ → Option α} (hf : f d = some a) :
    Demands (Proc.observe f) s d 1 a s d :=
  @act σ δ α s d d a _ (fun _ => d) (by rw [hf]; rfl)

/-- It returns exactly when its operations take effect. -/
theorem returns_iff (hm : Demands m s d n a s' d') (faults : List Fault) :
    (m s ⟨d, faults⟩).result = some a ↔ ∀ f ∈ faults.take n, f = .ok := by
  by_cases hok : ∀ f ∈ faults.take n, f = .ok
  · rw [hm.succeeds faults hok]
    exact ⟨fun _ => hok, fun _ => rfl⟩
  · rw [hm.stops faults hok]
    exact ⟨nofun, fun h => absurd h hok⟩

/-- A program that failed has failed, whatever is run in spite of it. -/
theorem inSpite {first second : Proc ε σ δ Unit} (hfirst : Demands first s d n () s' d')
    (hsecond : Demands second s' d' k () s'' d'') :
    Demands (Proc.inSpite first second) s d (n + k) () s'' d'' := by
  have hrun : ∀ w, Proc.inSpite first second s w = match first s w with
      | .done _ s' w' => second s' w'
      | .error e s' w' =>
          match second s' w' with
          | .done _ s'' w'' => .error e s'' w''
          | .error _ s'' w'' => .error e s'' w''
          | .cut d => .cut d
      | .cut d => .cut d := by
    intro w
    unfold Proc.inSpite
    rw [Proc.attempt_bind]
    cases first s w with
    | done a s' w' =>
        dsimp only
        rw [Proc.attempt_bind]
        cases second s' w' <;> rfl
    | error e s' w' =>
        dsimp only
        rw [Proc.attempt_bind]
        cases second s' w' <;> rfl
    | cut d => rfl
  have hboth := hfirst.bind (f := fun _ => second) hsecond
  constructor
  · intro faults hok
    rw [hrun]
    have hdone := hboth.succeeds faults hok
    change Proc.bind first (fun _ => second) s ⟨d, faults⟩ = _ at hdone
    unfold Proc.bind at hdone
    cases hout : first s ⟨d, faults⟩ with
    | done a s' w' =>
        rw [hout] at hdone
        exact hdone
    | error e s' w' =>
        rw [hout] at hdone
        cases hdone
    | cut d =>
        rw [hout] at hdone
        cases hdone
  · intro faults hnot
    rw [hrun]
    have hnone := hboth.stops faults hnot
    change (Proc.bind first (fun _ => second) s ⟨d, faults⟩).result = none at hnone
    unfold Proc.bind at hnone
    cases hout : first s ⟨d, faults⟩ with
    | done a s' w' =>
        rw [hout] at hnone
        exact hnone
    | error e s' w' =>
        dsimp only
        cases second s' w' <;> rfl
    | cut d => rfl

end Demands

end Crash
