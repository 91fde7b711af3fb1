import Mathlib.Data.List.Sort
import Mathlib.Data.Finset.Card

/-!
# Order statistics

The element at a position of a sorted list lies below a bound exactly when more elements than its
position do (`getElem_lt_iff_lt_countP`). So what stands at a position after sorting can be read
off counts of the list as it is: at least a number of elements reach a bound exactly when the
element that leaves that number of places from its position on does.
-/

namespace Playchain

variable {α : Type*} [LinearOrder α]

/-- **The elements below a bound come first** in a sorted list. -/
theorem getElem_lt_iff_lt_countP {l : List α} (hl : l.Pairwise (· ≤ ·)) {k : ℕ} (hk : k < l.length)
    (x : α) :
    l[k] < x ↔ k < l.countP (· < x) := by
  induction l generalizing k with
  | nil => exact absurd hk (Nat.not_lt_zero k)
  | cons a l ih =>
    obtain ⟨ha, hl⟩ := List.pairwise_cons.1 hl
    rcases lt_or_ge a x with hax | hxa
    · rw [List.countP_cons_of_pos (by exact decide_eq_true hax)]
      cases k with
      | zero => exact ⟨fun _ ↦ Nat.succ_pos _, fun _ ↦ hax⟩
      | succ k =>
        rw [List.getElem_cons_succ, ih hl (Nat.lt_of_succ_lt_succ hk)]
        omega
    -- nothing is below the bound
    · have hcount : (a :: l).countP (· < x) = 0 := by
        refine List.countP_eq_zero.2 fun b hb ↦ ?_
        rcases List.mem_cons.1 hb with rfl | hb
        · simpa using hxa
        · simpa using hxa.trans (ha b hb)
      rw [hcount]
      refine ⟨fun hlt ↦ ?_, fun hlt ↦ absurd hlt (Nat.not_lt_zero k)⟩
      rcases List.mem_cons.1 (List.getElem_mem hk) with heq | hmem
      · rw [heq] at hlt
        exact absurd hlt hxa.not_gt
      · exact absurd hlt (hxa.trans (ha _ hmem)).not_gt

/-- The element at a position after sorting lies below a bound exactly when more elements than the
position do. -/
theorem getD_insertionSort_lt_iff (l : List α) {k : ℕ} (hk : k < l.length) (d x : α) :
    (l.insertionSort (· ≤ ·)).getD k d < x ↔ k < l.countP (· < x) := by
  have hlen : k < (l.insertionSort (· ≤ ·)).length := by rwa [List.length_insertionSort]
  rw [← List.getElem_eq_getD (h := hlen), getElem_lt_iff_lt_countP
    (List.pairwise_insertionSort _ l) hlen,
    (List.perm_insertionSort (· ≤ ·) l).countP_eq]

/-- The element at a position after sorting reaches a bound exactly when the elements that reach it
would fill the list from that position on. -/
theorem le_getD_insertionSort_iff (l : List α) {k : ℕ} (hk : k < l.length) (d x : α) :
    x ≤ (l.insertionSort (· ≤ ·)).getD k d ↔ l.length - k ≤ l.countP (x ≤ ·) := by
  have hsplit : l.length = l.countP (· < x) + l.countP (x ≤ ·) := by
    rw [List.length_eq_countP_add_countP (fun a ↦ decide (a < x))]
    congr 1
    exact List.countP_congr fun a _ ↦ by simp
  have hlt := getD_insertionSort_lt_iff l hk d x
  rw [← not_lt, hlt]
  omega

/-- **Two parts of two sets** overlap in what their sizes exceed the union by. -/
theorem card_add_card_le_union_add_inter {ω : Type*} [DecidableEq ω] {S T A B : Finset ω}
    (hS : S ⊆ A)
    (hT : T ⊆ B) : S.card + T.card ≤ (A ∪ B).card + (S ∩ T).card := by
  rw [← Finset.card_union_add_card_inter]
  exact Nat.add_le_add_right (Finset.card_le_card (Finset.union_subset_union hS hT)) _

end Playchain
