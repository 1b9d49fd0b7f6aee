import Mathlib.Data.List.Forall2
import Mathlib.Data.List.Induction

/-!
# Checks in a row

A function in `Except` that makes one check after the other, taken apart when it
succeeds: each check that stands for a failure (`reject`) did not hold.
-/

namespace Checks

variable {ε α β : Type}

/-- Fails with `e` if the condition holds. -/
def reject (condition : Prop) [Decidable condition] (e : ε) : Except ε PUnit :=
  if condition then .error e else .ok ⟨⟩

theorem bind_eq_ok {x : Except ε α} {f : α → Except ε β} {b : β} :
    (x >>= f) = .ok b ↔ ∃ a, x = .ok a ∧ f a = .ok b := by
  cases x with
  | error e => simp [bind, Except.bind]
  | ok a => simp [bind, Except.bind]

theorem reject_eq_ok {condition : Prop} [Decidable condition] {e : ε} {u : PUnit} :
    reject condition e = .ok u ↔ ¬condition := by
  unfold reject
  split <;> simp_all

theorem reject_bind {condition : Prop} [Decidable condition] {e : ε} {k : PUnit → Except ε α}
    (h : ¬condition) : (reject condition e >>= k) = k ⟨⟩ := by
  unfold reject
  rw [if_neg h]
  rfl

theorem reject_bind_eq_ok {condition : Prop} [Decidable condition] {e : ε}
    {k : PUnit → Except ε β} {b : β} :
    (reject condition e >>= k) = .ok b ↔ ¬condition ∧ k ⟨⟩ = .ok b := by
  rw [bind_eq_ok]
  constructor
  · rintro ⟨_, hreject, hk⟩
    exact ⟨reject_eq_ok.mp hreject, hk⟩
  · rintro ⟨hcondition, hk⟩
    exact ⟨⟨⟩, reject_eq_ok.mpr hcondition, hk⟩

/-- A condition that must hold. -/
theorem reject_not_bind_eq_ok {condition : Prop} [Decidable condition] {e : ε}
    {k : PUnit → Except ε β} {b : β} :
    (reject (¬condition) e >>= k) = .ok b ↔ condition ∧ k ⟨⟩ = .ok b := by
  rw [reject_bind_eq_ok, Decidable.not_not]

theorem pure_eq_ok {a b : α} : (pure a : Except ε α) = .ok b ↔ b = a :=
  ⟨fun h => (Except.ok.inj h).symm, fun h => by rw [h]; rfl⟩

/-- Two rows of checks with the same failures, step by step. -/
theorem map_reject_bind {γ : Type} {f : α → γ} {p q : Prop} [Decidable p] [Decidable q] {e : ε}
    {k : PUnit → Except ε α} {k' : PUnit → Except ε γ} (h : p ↔ q)
    (hk : ¬q → (k ⟨⟩).map f = k' ⟨⟩) :
    (reject p e >>= k).map f = (reject q e >>= k') := by
  unfold reject
  by_cases hq : q
  · rw [if_pos hq, if_pos (h.mpr hq)]
    rfl
  · rw [if_neg hq, if_neg (mt h.mp hq)]
    exact hk hq

/-! ## Loops that read a list -/

/-- Every element fits what comes before it. -/
def AllFit (fits : List α → α → Prop) (as : List α) : Prop :=
  ∀ before a after, as = before ++ a :: after → fits before a

namespace AllFit

variable {fits fits' : List α → α → Prop} {as : List α}

theorem nil : AllFit fits [] := by
  intro before a after h
  simp at h

theorem concat {a : α} : AllFit fits (as ++ [a]) ↔ AllFit fits as ∧ fits as a := by
  constructor
  · intro h
    refine ⟨fun before b after hsplit => ?_, h as a [] rfl⟩
    exact h before b (after ++ [a]) (by rw [hsplit]; simp)
  · intro h before b after hsplit
    cases after using List.reverseRecOn with
    | nil =>
        have hlast := List.append_inj' (hsplit : as ++ [a] = before ++ [b]) rfl
        obtain ⟨rfl, hab⟩ := hlast
        obtain rfl : a = b := by simpa using hab
        exact h.2
    | append_singleton after c =>
        rw [← List.cons_append, ← List.append_assoc] at hsplit
        exact h.1 before b after (List.append_inj' hsplit rfl).1

theorem and : AllFit (fun front a => fits front a ∧ fits' front a) as ↔
    AllFit fits as ∧ AllFit fits' as :=
  ⟨fun h => ⟨fun b a r hs => (h b a r hs).1, fun b a r hs => (h b a r hs).2⟩,
    fun h b a r hs => ⟨h.1 b a r hs, h.2 b a r hs⟩⟩

/-- What does not ask for the elements before. -/
theorem forall_mem {p : α → Prop} : AllFit (fun _ => p) as ↔ ∀ a ∈ as, p a := by
  induction as using List.reverseRecOn with
  | nil => simp [nil]
  | append_singleton as a ih =>
      rw [concat, ih]
      simp only [List.mem_append, List.mem_singleton, or_imp, forall_and, forall_eq]

/-- A transitive relation to the element before holds of all before. -/
theorem pairwise {γ : Type} {f : α → γ} {r : γ → γ → Prop} [IsTrans γ r] :
    AllFit (fun front a => ∀ b ∈ (front.map f).getLast?, r b (f a)) as ↔ (as.map f).Pairwise r := by
  induction as using List.reverseRecOn with
  | nil => simp [nil]
  | append_singleton as a ih =>
      rw [concat, ih, List.map_append, List.pairwise_append]
      simp only [List.map_cons, List.map_nil, List.pairwise_cons, List.not_mem_nil, false_imp_iff,
        implies_true, List.Pairwise.nil, and_true, true_and, List.mem_singleton, forall_eq]
      refine and_congr_right fun hsorted => ⟨fun hlast b hb => ?_, fun hall b hb => ?_⟩
      · -- The element before `a` is where transitivity goes through.
        obtain ⟨front, c, hsplit⟩ : ∃ front c, as.map f = front ++ [c] :=
          ⟨_, _, (List.dropLast_append_getLast (List.ne_nil_of_mem hb)).symm⟩
        rw [hsplit] at hlast hsorted hb
        have hc : r c (f a) := hlast c (by simp)
        rcases List.mem_append.mp hb with hb | hb
        · exact IsTrans.trans _ _ _ ((List.pairwise_append.mp hsorted).2.2 b hb c (by simp)) hc
        · rw [List.mem_singleton.mp hb]
          exact hc
      · exact hall b (List.mem_of_mem_getLast? hb)

theorem sorted {r : α → α → Prop} [IsTrans α r] :
    AllFit (fun front a => ∀ b ∈ front.getLast?, r b a) as ↔ as.Pairwise r := by
  have h := @pairwise α as α id r _
  simpa only [List.map_id, id_eq] using h

/-- Elements that are new each time are different. -/
theorem nodup {γ : Type} {f : α → γ} :
    AllFit (fun front a => f a ∉ front.map f) as ↔ (as.map f).Nodup := by
  induction as using List.reverseRecOn with
  | nil => simp [nil]
  | append_singleton as a ih =>
      rw [concat, ih, List.map_append, List.map_singleton, List.nodup_append]
      constructor
      · intro h
        refine ⟨h.1, List.pairwise_singleton _ _, fun b hb c hc heq => h.2 ?_⟩
        rwa [← List.mem_singleton.mp hc, ← heq]
      · intro h
        exact ⟨h.1, fun hmem => h.2.2 _ hmem _ (List.mem_singleton_self _) rfl⟩

end AllFit

theorem forall₂_concat_left {r : α → β → Prop} {xs : List α} {i : α} {as : List β} :
    List.Forall₂ r (xs ++ [i]) as → ∃ front a, List.Forall₂ r xs front ∧ r i a ∧ as = front ++ [a] := by
  induction xs generalizing as with
  | nil =>
      intro h
      obtain ⟨a, _, ha, hnil, rfl⟩ := List.forall₂_cons_left_iff.mp h
      rw [List.forall₂_nil_left_iff.mp hnil]
      exact ⟨[], a, .nil, ha, rfl⟩
  | cons x xs ih =>
      intro h
      obtain ⟨b, rest, hb, hrest, rfl⟩ := List.forall₂_cons_left_iff.mp h
      obtain ⟨front, a, hfront, ha, rfl⟩ := ih hrest
      exact ⟨b :: front, a, .cons hb hfront, ha, rfl⟩

/-- A loop whose turns each read one element and keep what they have read: it
succeeds exactly where every element is read and fits those before it. -/
theorem foldlM_eq_ok {σ ι : Type} {step : σ → ι → Except ε σ} (scan : List α → σ)
    {reads : ι → α → Prop} {fits : List α → α → Prop}
    (hstep : ∀ front i s, step (scan front) i = .ok s ↔
      ∃ a, reads i a ∧ fits front a ∧ s = scan (front ++ [a])) {xs : List ι} {s : σ} :
    xs.foldlM step (scan []) = .ok s ↔
      ∃ as, List.Forall₂ reads xs as ∧ AllFit fits as ∧ s = scan as := by
  induction xs using List.reverseRecOn generalizing s with
  | nil =>
      constructor
      · intro h
        exact ⟨[], .nil, .nil, (Except.ok.inj h).symm⟩
      · intro h
        obtain ⟨as, hreads, -, rfl⟩ := h
        obtain rfl := List.forall₂_nil_left_iff.mp hreads
        rfl
  | append_singleton xs i ih =>
      rw [List.foldlM_append, bind_eq_ok]
      constructor
      · intro h
        obtain ⟨s₁, hfront, hlast⟩ := h
        obtain ⟨as, hreads, hfits, rfl⟩ := ih.mp hfront
        rw [List.foldlM_cons, bind_eq_ok] at hlast
        obtain ⟨s₂, hturn, hdone⟩ := hlast
        obtain rfl : s₂ = s := Except.ok.inj hdone
        obtain ⟨a, ha, hfit, rfl⟩ := (hstep as i _).mp hturn
        exact ⟨as ++ [a], List.rel_append hreads (.cons ha .nil), AllFit.concat.mpr ⟨hfits, hfit⟩, rfl⟩
      · intro h
        obtain ⟨as, hreads, hfits, rfl⟩ := h
        obtain ⟨as, a, hfront, ha, rfl⟩ := forall₂_concat_left hreads
        rw [AllFit.concat] at hfits
        refine ⟨scan as, ih.mpr ⟨as, hfront, hfits.1, rfl⟩, ?_⟩
        rw [List.foldlM_cons, bind_eq_ok]
        exact ⟨_, (hstep as i _).mpr ⟨a, ha, hfits.2, rfl⟩, rfl⟩

/-- A loop that appends what it has read. -/
theorem foldlM_append_eq_ok {ι : Type} {step : List α → ι → Except ε (List α)}
    {reads : ι → α → Prop} {fits : List α → α → Prop}
    (hstep : ∀ front i s, step front i = .ok s ↔
      ∃ a, reads i a ∧ fits front a ∧ s = front ++ [a]) {xs : List ι} {s : List α} :
    xs.foldlM step [] = .ok s ↔ List.Forall₂ reads xs s ∧ AllFit fits s := by
  refine (foldlM_eq_ok id hstep).trans ?_
  simp only [id_eq, exists_eq_right_right']

end Checks
