import Mathlib.Data.List.Sort
import Mathlib.Order.Lattice

/-!
# Cursors in a sorted list

A list without repetitions, in increasing order, is worked off in batches. The position is kept as a
*cursor*: the batch starts with the first element that is not below it (`fromCursor`). When the last
element of a batch becomes the next cursor, the next batch starts with that element once more: the
rest shrinks by one less than the size of a batch (`fromCursor_getElem`).
-/

variable {α : Type*} [LinearOrder α]

/-- The elements of a sorted list from a cursor on. -/
def fromCursor (l : List α) (c : α) : List α := l.dropWhile fun a ↦ a < c

theorem fromCursor_sublist (l : List α) (c : α) : (fromCursor l c).Sublist l :=
  List.dropWhile_sublist _

theorem mem_fromCursor {l : List α} (hl : l.Pairwise (· < ·)) {a c : α} :
    a ∈ fromCursor l c ↔ a ∈ l ∧ c ≤ a := by
  induction l with
  | nil => simp [fromCursor]
  | cons b l ih =>
    obtain ⟨hb, hl⟩ := List.pairwise_cons.1 hl
    rw [fromCursor, List.dropWhile_cons]
    split_ifs with hbc
    · rw [← fromCursor, ih hl, List.mem_cons]
      refine ⟨fun ⟨ha, hc⟩ ↦ ⟨.inr ha, hc⟩, fun ⟨ha, hc⟩ ↦ ⟨ha.resolve_left fun hab ↦ ?_, hc⟩⟩
      exact absurd (hab ▸ hc) (not_le_of_gt (of_decide_eq_true hbc))
    · have hcb : c ≤ b := not_lt.1 fun h ↦ hbc (decide_eq_true h)
      refine ⟨fun ha ↦ ⟨ha, ?_⟩, And.left⟩
      rcases List.mem_cons.1 ha with rfl | ha
      · exact hcb
      · exact hcb.trans (hb a ha).le

/-- A sorted list is determined by its elements. -/
theorem eq_of_mem_iff {l l' : List α} (hl : l.Pairwise (· < ·)) (hl' : l'.Pairwise (· < ·))
    (h : ∀ a, a ∈ l ↔ a ∈ l') : l = l' :=
  List.Perm.eq_of_pairwise (fun _ _ _ _ hab hba ↦ absurd hab (lt_asymm hba)) hl hl'
    ((List.perm_ext_iff_of_nodup (hl.imp ne_of_lt) (hl'.imp ne_of_lt)).2 h)

theorem fromCursor_eq_filter {l : List α} (hl : l.Pairwise (· < ·)) (c : α) :
    fromCursor l c = l.filter fun a ↦ c ≤ a :=
  eq_of_mem_iff (hl.sublist (fromCursor_sublist l c)) (hl.sublist List.filter_sublist) fun a ↦ by
    rw [mem_fromCursor hl, List.mem_filter, decide_eq_true_iff]

/-- **The next batch.** From an element of the rest on, the elements before it are gone. -/
theorem fromCursor_getElem {l : List α} (hl : l.Pairwise (· < ·)) {c : α} {j : ℕ}
    (hj : j < (fromCursor l c).length) :
    fromCursor l (fromCursor l c)[j] = (fromCursor l c).drop j := by
  have hsorted := hl.sublist (fromCursor_sublist l c)
  refine eq_of_mem_iff (hl.sublist (fromCursor_sublist l _))
    (hsorted.sublist (List.drop_sublist j _)) fun a ↦ ?_
  rw [mem_fromCursor hl]
  constructor
  · rintro ⟨ha, hle⟩
    have hmem : a ∈ fromCursor l c := (mem_fromCursor hl).2
      ⟨ha, ((mem_fromCursor hl).1 (List.getElem_mem hj)).2.trans hle⟩
    obtain ⟨i, hi, rfl⟩ := List.getElem_of_mem hmem
    have hij : j ≤ i := by
      by_contra hlt
      exact absurd hle (not_le_of_gt (List.pairwise_iff_getElem.1 hsorted i j hi hj (by omega)))
    exact List.mem_drop_iff_getElem.2 ⟨i - j, by omega, by simp [Nat.add_sub_cancel' hij]⟩
  · intro ha
    obtain ⟨i, hi, rfl⟩ := List.mem_drop_iff_getElem.1 ha
    refine ⟨((mem_fromCursor hl).1 (List.getElem_mem _)).1, ?_⟩
    rcases Nat.eq_zero_or_pos i with rfl | hpos
    · simp
    · exact (List.pairwise_iff_getElem.1 hsorted j (j + i) hj _ (by omega)).le

/-- What is below an element of a sorted list stands before it. -/
theorem mem_take_of_lt_getElem {l : List α} (hl : l.Pairwise (· < ·)) {a : α} {j n : ℕ}
    (hj : j < l.length) (hn : j ≤ n) (ha : a ∈ l) (hlt : a < l[j]) : a ∈ l.take n := by
  obtain ⟨i, hi, rfl⟩ := List.getElem_of_mem ha
  have hij : i < j := by
    by_contra hle
    rcases Nat.eq_or_lt_of_not_lt hle with heq | hji
    · subst heq
      exact lt_irrefl _ hlt
    · exact lt_asymm hlt (List.pairwise_iff_getElem.1 hl j i hj hi hji)
  exact List.mem_take_iff_getElem.2 ⟨i, by omega, rfl⟩

/-! ### Initial parts

A property that holds below every element it holds for cuts off an initial part of a sorted list. -/

section Initial

variable {p : α → Bool}

theorem countP_drop_of_initial {l : List α} (hl : l.Pairwise (· < ·))
    (hp : ∀ a b, a < b → p b = true → p a = true) (j : ℕ) :
    (l.drop j).countP p = l.countP p - j := by
  induction l generalizing j with
  | nil => simp
  | cons a l ih =>
    obtain ⟨ha, hl⟩ := List.pairwise_cons.1 hl
    cases j with
    | zero => simp
    | succ j =>
      rw [List.drop_succ_cons, ih hl, List.countP_cons]
      by_cases hpa : p a = true
      · rw [if_pos hpa]
        omega
      -- nothing after an element outside the initial part is inside
      · have hzero : l.countP p = 0 := List.countP_eq_zero.2 fun b hb hpb ↦ hpa (hp a b (ha b hb) hpb)
        rw [if_neg hpa, hzero]
        omega

theorem getElem_iff_of_initial {l : List α} (hl : l.Pairwise (· < ·))
    (hp : ∀ a b, a < b → p b = true → p a = true) {j : ℕ} (hj : j < l.length) :
    p l[j] = true ↔ j < l.countP p := by
  have hdrop := countP_drop_of_initial hl hp j
  have hnext := countP_drop_of_initial hl hp (j + 1)
  rw [List.drop_eq_getElem_cons hj, List.countP_cons, hnext] at hdrop
  split_ifs at hdrop with hpj
  · exact iff_of_true hpj (by omega)
  · have hle := List.countP_le_length (p := p) (l := l.drop (j + 1))
    rw [hnext] at hle
    refine iff_of_false hpj fun hlt ↦ ?_
    omega

end Initial
