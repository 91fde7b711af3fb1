import Mathlib.Data.List.Basic
import Mathlib.Tactic

/-!
# Halving the way

The points of a walk from a low number to a high one, each of which leaves half of the way that is left. They are increasing
(`pairwise_points`), the last one is the high end (`getLast?_points`), and their number is logarithmic in the length of the
way (`length_points_le`).
-/

namespace Halving

/-- The next point of a walk. -/
def next (high low : ℕ) : ℕ := low + (high - low + 2) / 2

theorem lt_next (high low : ℕ) : low < next high low := by
  unfold next
  omega

theorem next_le {high low : ℕ} (h : low < high) : next high low ≤ high := by
  unfold next
  omega

theorem high_lt_next {high low : ℕ} (h : high ≤ low) : high < next high low := h.trans_lt (lt_next high low)

/-- The points of a walk, the low end first. -/
def points (high low : ℕ) : List ℕ := low :: if low < high then points high (next high low) else []
termination_by high - low
decreasing_by
  have := lt_next high low
  omega

theorem points_of_lt {high low : ℕ} (h : low < high) : points high low = low :: points high (next high low) := by
  rw [points, if_pos h]

theorem points_of_le {high low : ℕ} (h : high ≤ low) : points high low = [low] := by
  rw [points, if_neg h.not_gt]

/-- **Induction along a walk.** -/
theorem walk_induction (high : ℕ) {motive : ℕ → Prop} (stop : ∀ low, high ≤ low → motive low)
    (step : ∀ low, low < high → motive (next high low) → motive low) (low : ℕ) : motive low := by
  induction hd : high - low using Nat.strong_induction_on generalizing low with
  | _ d ih =>
    by_cases h : low < high
    · have hlt := lt_next high low
      exact step low h (ih (high - next high low) (by omega) _ rfl)
    · exact stop low (not_lt.1 h)

theorem low_le_of_mem {high low k : ℕ} (hk : k ∈ points high low) : low ≤ k := by
  induction low using walk_induction high with
  | stop low h =>
    rw [points_of_le h, List.mem_singleton] at hk
    exact hk.ge
  | step low h ih =>
    rw [points_of_lt h, List.mem_cons] at hk
    obtain rfl | hk := hk
    · exact le_rfl
    · exact (lt_next high low).le.trans (ih hk)

theorem le_high_of_mem {high low k : ℕ} (hle : low ≤ high) (hk : k ∈ points high low) : k ≤ high := by
  induction low using walk_induction high with
  | stop low h =>
    rw [points_of_le h, List.mem_singleton] at hk
    exact hk.le.trans hle
  | step low h ih =>
    rw [points_of_lt h, List.mem_cons] at hk
    obtain rfl | hk := hk
    · exact hle
    · exact ih (next_le h) hk

/-- The points go up. -/
theorem pairwise_points (high low : ℕ) : (points high low).Pairwise (· < ·) := by
  induction low using walk_induction high with
  | stop low h =>
    rw [points_of_le h]
    exact List.pairwise_singleton _ _
  | step low h ih =>
    rw [points_of_lt h]
    exact .cons (fun k hk ↦ (lt_next high low).trans_le (low_le_of_mem hk)) ih

/-- The last point is the high end. -/
theorem getLast?_points {high low : ℕ} (hle : low ≤ high) : (points high low).getLast? = some high := by
  induction low using walk_induction high with
  | stop low h =>
    rw [points_of_le h, List.getLast?_singleton, le_antisymm hle h]
  | step low h ih =>
    have hne : points high (next high low) ≠ [] := by
      rw [points]
      exact List.cons_ne_nil _ _
    rw [points_of_lt h, List.getLast?_cons_of_ne_nil hne, ih (next_le h)]

/-- A walk of a length below `2 ^ k` has at most `k + 1` points. -/
theorem length_points_le {high low k : ℕ} (h : high - low < 2 ^ k) : (points high low).length ≤ k + 1 := by
  induction k generalizing low with
  | zero =>
    rw [points_of_le (by omega), List.length_singleton]
  | succ k ih =>
    by_cases hlt : low < high
    · rw [points_of_lt hlt, List.length_cons]
      have hhalf : high - next high low < 2 ^ k := by
        unfold next
        rw [pow_succ] at h
        omega
      exact Nat.succ_le_succ (ih hhalf)
    · rw [points_of_le (not_lt.1 hlt), List.length_singleton]
      omega

/-- An increasing list is its part up to a bound, followed by its part above it. -/
theorem filter_append_filter {l : List ℕ} (hsorted : l.Pairwise (· < ·)) (bound : ℕ) :
    l.filter (· ≤ bound) ++ l.filter (bound < ·) = l := by
  induction l with
  | nil => rfl
  | cons k l ih =>
    rw [List.pairwise_cons] at hsorted
    by_cases hk : k ≤ bound
    · rw [List.filter_cons_of_pos (by simpa using hk), List.filter_cons_of_neg (by simpa using hk), List.cons_append,
        ih hsorted.2]
    · have hnone : l.filter (· ≤ bound) = [] := by
        refine List.filter_eq_nil_iff.2 fun j hj ↦ ?_
        have hlt := hsorted.1 j hj
        simp only [decide_eq_true_eq]
        omega
      have hall : l.filter (bound < ·) = l := by
        refine List.filter_eq_self.2 fun j hj ↦ ?_
        have hlt := hsorted.1 j hj
        simp only [decide_eq_true_eq]
        omega
      rw [List.filter_cons_of_neg (by simpa using hk), List.filter_cons_of_pos (by simpa using hk), hnone, hall,
        List.nil_append]

end Halving
