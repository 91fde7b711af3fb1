import Playchain.Lib.FlatMap

/-!
# Neighbours of a key in a sorted map

`lowerBound` is the first entry whose key is not below a given one, and `predecessor` the last entry
whose key is below it: the iterator that `lower_bound` returns, and the one before it.
-/

namespace FlatMap

variable {K V : Type*} [LinearOrder K] {m : FlatMap K V} {k : K} {p : K × V}

/-- `lower_bound` -/
def lowerBound (m : FlatMap K V) (k : K) : Option (K × V) := m.toList.find? fun p ↦ decide (k ≤ p.1)

/-- The entry before `lower_bound`. -/
def predecessor (m : FlatMap K V) (k : K) : Option (K × V) :=
  m.toList.reverse.find? fun p ↦ decide (p.1 < k)

/-- The first entry of a list that satisfies a predicate is before the others, in any order of the
list. -/
theorem rel_of_find?_eq_some {α : Type*} {r : α → α → Prop} {l : List α} (hl : l.Pairwise r)
    {q : α → Bool} {a b : α} (ha : l.find? q = some a) (hb : b ∈ l) (hq : q b = true) :
    b = a ∨ r a b := by
  induction l with
  | nil => cases hb
  | cons c l ih =>
    obtain ⟨hc, hl⟩ := List.pairwise_cons.1 hl
    rw [List.find?_cons] at ha
    by_cases hqc : q c = true
    · simp only [hqc, Option.some.injEq] at ha
      subst ha
      exact (List.mem_cons.1 hb).imp id (hc b)
    · simp only [hqc] at ha
      rcases List.mem_cons.1 hb with rfl | hb
      · exact absurd hq hqc
      · exact ih hl ha hb

theorem mem_lowerBound (h : m.lowerBound k = some p) : m.find? p.1 = some p.2 ∧ k ≤ p.1 := by
  have hp := List.find?_some (p := fun p : K × V ↦ decide (k ≤ p.1)) h
  exact ⟨find?_eq_some_iff.2 (List.mem_of_find?_eq_some h), of_decide_eq_true hp⟩

/-- It is the least key that is not below. -/
theorem lowerBound_le (h : m.lowerBound k = some p) {j : K} {w : V} (hj : m.find? j = some w)
    (hle : k ≤ j) : p.1 ≤ j := by
  rcases rel_of_find?_eq_some m.sorted h (find?_eq_some_iff.1 hj) (decide_eq_true hle) with rfl | hlt
  · exact le_rfl
  · exact hlt.le

theorem lt_of_lowerBound_eq_none (h : m.lowerBound k = none) {j : K} {w : V} (hj : m.find? j = some w) :
    j < k := by
  by_contra hle
  have := List.find?_eq_none.1 h _ (find?_eq_some_iff.1 hj)
  exact this (decide_eq_true (not_lt.1 hle))

theorem mem_predecessor (h : m.predecessor k = some p) : m.find? p.1 = some p.2 ∧ p.1 < k := by
  have hp := List.find?_some (p := fun p : K × V ↦ decide (p.1 < k)) h
  exact ⟨find?_eq_some_iff.2 (List.mem_reverse.1 (List.mem_of_find?_eq_some h)), of_decide_eq_true hp⟩

/-- It is the greatest key that is below. -/
theorem le_predecessor (h : m.predecessor k = some p) {j : K} {w : V} (hj : m.find? j = some w)
    (hlt : j < k) : j ≤ p.1 := by
  have hsorted : m.toList.reverse.Pairwise fun a b ↦ b.1 < a.1 := List.pairwise_reverse.2 m.sorted
  rcases rel_of_find?_eq_some hsorted h (List.mem_reverse.2 (find?_eq_some_iff.1 hj))
    (decide_eq_true hlt) with rfl | hlt
  · exact le_rfl
  · exact hlt.le

theorem le_of_predecessor_eq_none (h : m.predecessor k = none) {j : K} {w : V}
    (hj : m.find? j = some w) : k ≤ j := by
  by_contra hlt
  have := List.find?_eq_none.1 h _ (List.mem_reverse.2 (find?_eq_some_iff.1 hj))
  exact this (decide_eq_true (not_le.1 hlt))

end FlatMap
