import Mathlib.Data.Fintype.EquivFin
import Mathlib.Data.List.Perm.Subperm

/-!
# Matching two lists by a key

`Matched k k' left right`: the positions of the two lists correspond one to one, and
corresponding elements have one key.  Two lists of one length match as soon as the keys
on the left are distinct and each of them occurs on the right (`matched_of_exists`): a
lookup in one direction and a count are enough.
-/

namespace Matching

variable {α β κ : Type}

/-- A bijection between two lists that preserves the key. -/
def Matched (k : α → κ) (k' : β → κ) (left : List α) (right : List β) : Prop :=
  ∃ e : Fin left.length ≃ Fin right.length, ∀ i, k (left.get i) = k' (right.get (e i))

variable {k : α → κ} {k' : β → κ} {left : List α} {right : List β}

theorem Matched.length_eq (h : Matched k k' left right) : left.length = right.length := by
  obtain ⟨e, -⟩ := h
  simpa using Fintype.card_congr e

/-- Every element has a partner. -/
theorem Matched.exists_right (h : Matched k k' left right) {a : α} (ha : a ∈ left) :
    ∃ b ∈ right, k a = k' b := by
  obtain ⟨e, he⟩ := h
  obtain ⟨i, rfl⟩ := List.mem_iff_get.mp ha
  exact ⟨right.get (e i), List.get_mem _ _, he i⟩

theorem Matched.exists_left (h : Matched k k' left right) {b : β} (hb : b ∈ right) :
    ∃ a ∈ left, k a = k' b := by
  obtain ⟨e, he⟩ := h
  obtain ⟨i, rfl⟩ := List.mem_iff_get.mp hb
  refine ⟨left.get (e.symm i), List.get_mem _ _, ?_⟩
  rw [he, Equiv.apply_symm_apply]

/-- One length, distinct keys on the left and a partner for each of them make a
matching. -/
theorem matched_of_exists (hlength : left.length = right.length) (hdistinct : (left.map k).Nodup)
    (h : ∀ a ∈ left, ∃ b ∈ right, k a = k' b) : Matched k k' left right := by
  have hpartner : ∀ i : Fin left.length, ∃ j : Fin right.length,
      k (left.get i) = k' (right.get j) := by
    intro i
    obtain ⟨b, hb, hkey⟩ := h (left.get i) (List.get_mem _ _)
    obtain ⟨j, rfl⟩ := List.mem_iff_get.mp hb
    exact ⟨j, hkey⟩
  choose partner hkey using hpartner
  have hinjective : Function.Injective partner := by
    intro i j hij
    have hsame : k (left.get i) = k (left.get j) := by rw [hkey i, hkey j, hij]
    have hget : (left.map k).get ⟨i, by simp⟩ = (left.map k).get ⟨j, by simp⟩ := by
      simpa using hsame
    have hindex := (List.nodup_iff_injective_get.mp hdistinct) hget
    exact Fin.ext (by simpa using hindex)
  have hbijective : Function.Bijective partner :=
    (Fintype.bijective_iff_injective_and_card partner).mpr ⟨hinjective, by simpa using hlength⟩
  exact ⟨Equiv.ofBijective partner hbijective, hkey⟩

/-- Distinct elements that fill a list up are its elements. -/
theorem perm_of_subset {xs ys : List α} (hdistinct : xs.Nodup) (hsub : xs ⊆ ys)
    (hlength : ys.length ≤ xs.length) : xs.Perm ys :=
  (List.subperm_of_subset hdistinct hsub).perm_of_length_le hlength

end Matching
