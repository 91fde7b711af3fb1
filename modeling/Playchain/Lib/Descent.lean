import Mathlib.Logic.Relation
import Mathlib.Tactic

/-!
# Descents

A relation that leads from each point to at most one other, and lowers a height by one: the parents in a forest. What is
reached from a point is determined by its height (`eq_of_height_eq`), and of two points that are reached the lower one is
reached from the higher one (`reach_of_height_le`).
-/

namespace Descent

open Relation

variable {α : Type*} {r : α → α → Prop} {height : α → ℕ} {a b c : α}

theorem height_le (hheight : ∀ a b, r a b → height a = height b + 1) (h : ReflTransGen r a b) :
    height b ≤ height a := by
  induction h with
  | refl => exact le_rfl
  | tail _ hstep ih =>
    have hsucc := hheight _ _ hstep
    omega

theorem eq_of_reach_of_height_le (hheight : ∀ a b, r a b → height a = height b + 1) (h : ReflTransGen r a b)
    (hle : height a ≤ height b) : a = b := by
  rcases h.cases_head with rfl | ⟨c, hstep, hrest⟩
  · rfl
  · have hsucc := hheight _ _ hstep
    have hlow := height_le hheight hrest
    omega

/-- **The lower of two points that are reached is reached from the higher one.** -/
theorem reach_of_height_le (hunique : Relator.RightUnique r) (hheight : ∀ a b, r a b → height a = height b + 1)
    (hb : ReflTransGen r a b) (hc : ReflTransGen r a c) (hle : height c ≤ height b) : ReflTransGen r b c := by
  rcases ReflTransGen.total_of_right_unique hunique hb hc with h | h
  · exact h
  · rw [eq_of_reach_of_height_le hheight h hle]

theorem eq_of_height_eq (hunique : Relator.RightUnique r) (hheight : ∀ a b, r a b → height a = height b + 1)
    (hb : ReflTransGen r a b) (hc : ReflTransGen r a c) (heq : height b = height c) : b = c :=
  eq_of_reach_of_height_le hheight (reach_of_height_le hunique hheight hb hc heq.ge) heq.le

end Descent
