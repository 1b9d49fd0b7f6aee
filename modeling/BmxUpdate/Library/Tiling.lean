import Mathlib.Order.Nat
import Mathlib.Tactic.Common

/-!
# Items laid end to end

A list of items of which each takes up the positions `first x` to `last x` tiles
a range when the first item starts where the range does, each item starts where
the one before it ends, and the last one ends with the range.  Then nothing in
the range is left over (`Tiles.covers`), no two items share a position
(`Tiles.pairwise`), and every item lies in the range (`Tiles.within`).
-/

namespace Tiling

variable {α : Type} (first last : α → Nat)

/-- The items take up the positions `start` to `stop`, one after the other. -/
def Tiles : Nat → List α → Nat → Prop
  | start, [], stop => start = stop
  | start, x :: xs, stop => first x = start ∧ first x ≤ last x ∧ Tiles (last x) xs stop

variable {first last} {start middle stop : Nat} {xs ys : List α} {x : α}

theorem Tiles.append (h : Tiles first last start xs middle) (h' : Tiles first last middle ys stop) :
    Tiles first last start (xs ++ ys) stop := by
  induction xs generalizing start with
  | nil =>
      obtain rfl : start = middle := h
      exact h'
  | cons x xs ih => exact ⟨h.1, h.2.1, ih h.2.2⟩

/-- One more item at the end. -/
theorem Tiles.snoc (h : Tiles first last start xs (first x)) (hx : first x ≤ last x) :
    Tiles first last start (xs ++ [x]) (last x) :=
  h.append ⟨rfl, hx, rfl⟩

/-- Tiling looks at the ends of the items only. -/
theorem tiles_map {β : Type} {f : β → α} {zs : List β} :
    Tiles first last start (zs.map f) stop ↔
      Tiles (fun z => first (f z)) (fun z => last (f z)) start zs stop := by
  induction zs generalizing start with
  | nil => rfl
  | cons z zs ih => simp only [List.map_cons, Tiles, ih]

theorem Tiles.le (h : Tiles first last start xs stop) : start ≤ stop := by
  induction xs generalizing start with
  | nil => exact le_of_eq h
  | cons x xs ih =>
      obtain ⟨rfl, hx, hxs⟩ := h
      exact hx.trans (ih hxs)

/-- Every item lies in the range. -/
theorem Tiles.within (h : Tiles first last start xs stop) (hx : x ∈ xs) :
    start ≤ first x ∧ first x ≤ last x ∧ last x ≤ stop := by
  induction xs generalizing start with
  | nil => simp at hx
  | cons y xs ih =>
      obtain ⟨rfl, hy, hxs⟩ := h
      rcases List.mem_cons.mp hx with rfl | hx
      · exact ⟨le_refl _, hy, hxs.le⟩
      · obtain ⟨hfirst, hboth, hlast⟩ := ih hxs hx
        exact ⟨hy.trans hfirst, hboth, hlast⟩

/-- Every position of the range is in some item. -/
theorem Tiles.covers (h : Tiles first last start xs stop) {p : Nat} (hp : start ≤ p)
    (hp' : p < stop) : ∃ x ∈ xs, first x ≤ p ∧ p < last x := by
  induction xs generalizing start with
  | nil =>
      have : start = stop := h
      omega
  | cons y xs ih =>
      obtain ⟨rfl, hy, hxs⟩ := h
      by_cases hlast : p < last y
      · exact ⟨y, by simp, hp, hlast⟩
      · obtain ⟨x, hx, hin⟩ := ih hxs (by omega)
        exact ⟨x, List.mem_cons_of_mem y hx, hin⟩

/-- An item ends before the items after it start. -/
theorem Tiles.pairwise (h : Tiles first last start xs stop) :
    xs.Pairwise fun x y => last x ≤ first y := by
  induction xs generalizing start with
  | nil => exact .nil
  | cons y xs ih =>
      obtain ⟨rfl, hy, hxs⟩ := h
      exact .cons (fun x hx => (hxs.within hx).1) (ih hxs)

end Tiling
