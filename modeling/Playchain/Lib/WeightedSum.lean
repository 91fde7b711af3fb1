import Mathlib.Algebra.BigOperators.Group.List.Lemmas
import Mathlib.Algebra.Order.BigOperators.Group.List
import Mathlib.Tactic

/-!
# The weight of the members that count

`weightIn P w l` is the total weight `w` of the members of a list that satisfy a predicate `P`. The weight grows
with the predicate (`weightIn_mono`) and is bounded by the weight of all members (`weightIn_le_sum`). If the
predicate is the union of an increasing sequence, the weight is reached at one of its stages
(`exists_weightIn_le_stage`): a list has only finitely many members.
-/

variable {α : Type*}

open Classical in
/-- The total weight of the members of a list that satisfy a predicate. -/
noncomputable def weightIn (P : α → Prop) (w : α → ℕ) (l : List α) : ℕ :=
  (l.map fun a ↦ if P a then w a else 0).sum

section WeightIn

variable {P Q : α → Prop} {w : α → ℕ} {a : α} {l : List α}

@[simp] theorem weightIn_nil : weightIn P w [] = 0 := rfl

theorem weightIn_cons_of_pos (h : P a) : weightIn P w (a :: l) = w a + weightIn P w l := by
  rw [weightIn, List.map_cons, List.sum_cons, if_pos h, weightIn]

theorem weightIn_cons_of_neg (h : ¬P a) : weightIn P w (a :: l) = weightIn P w l := by
  rw [weightIn, List.map_cons, List.sum_cons, if_neg h, zero_add, weightIn]

theorem weightIn_cons_le : weightIn P w (a :: l) ≤ w a + weightIn P w l := by
  by_cases h : P a
  · rw [weightIn_cons_of_pos h]
  · rw [weightIn_cons_of_neg h]
    exact Nat.le_add_left _ _

theorem weightIn_le_cons : weightIn P w l ≤ weightIn P w (a :: l) := by
  by_cases h : P a
  · rw [weightIn_cons_of_pos h]
    exact Nat.le_add_left _ _
  · rw [weightIn_cons_of_neg h]

theorem le_weightIn_of_mem (ha : a ∈ l) (h : P a) : w a ≤ weightIn P w l := by
  induction l with
  | nil => cases ha
  | cons b l ih =>
    rcases List.mem_cons.1 ha with rfl | ha
    · rw [weightIn_cons_of_pos h]
      exact Nat.le_add_right _ _
    · exact (ih ha).trans weightIn_le_cons

theorem weightIn_mono (h : ∀ a ∈ l, P a → Q a) : weightIn P w l ≤ weightIn Q w l := by
  induction l with
  | nil => exact le_rfl
  | cons a l ih =>
    have hl := ih fun b hb ↦ h b (List.mem_cons_of_mem _ hb)
    by_cases hP : P a
    · rw [weightIn_cons_of_pos hP, weightIn_cons_of_pos (h a List.mem_cons_self hP)]
      exact Nat.add_le_add_left hl _
    · rw [weightIn_cons_of_neg hP]
      exact hl.trans weightIn_le_cons

theorem weightIn_le_sum : weightIn P w l ≤ (l.map w).sum := by
  induction l with
  | nil => exact le_rfl
  | cons a l ih =>
    rw [List.map_cons, List.sum_cons]
    exact weightIn_cons_le.trans (Nat.add_le_add_left ih _)

/-- **The weight is reached at a stage** of an increasing sequence of predicates. -/
theorem exists_weightIn_le_stage {S : ℕ → α → Prop} (hS : ∀ {m n a}, m ≤ n → S m a → S n a) (w : α → ℕ)
    (l : List α) : ∃ n, weightIn (fun a ↦ ∃ n, S n a) w l ≤ weightIn (S n) w l := by
  induction l with
  | nil => exact ⟨0, le_rfl⟩
  | cons a l ih =>
    obtain ⟨n, hn⟩ := ih
    by_cases h : ∃ m, S m a
    · obtain ⟨m, hm⟩ := h
      refine ⟨max m n, ?_⟩
      rw [weightIn_cons_of_pos ⟨m, hm⟩, weightIn_cons_of_pos (hS (le_max_left m n) hm)]
      exact Nat.add_le_add_left (hn.trans (weightIn_mono fun b _ hb ↦ hS (le_max_right m n) hb)) _
    · refine ⟨n, ?_⟩
      rw [weightIn_cons_of_neg (P := fun a ↦ ∃ m, S m a) h]
      exact hn.trans weightIn_le_cons

end WeightIn
