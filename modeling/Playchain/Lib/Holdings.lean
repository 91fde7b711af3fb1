import Mathlib.Data.Finsupp.Weight
import Playchain.Lib.FlatMap

/-!
# Maps as finitely supported functions

A `FlatMap` whose values weigh something in a commutative monoid is a finitely supported function
from keys to weights, zero where there is no entry. Moving weight between keys and maps is addition
of such functions, and the sum over the entries is their degree, which is additive.
-/

namespace FlatMap

variable {K V M : Type*} [LinearOrder K] [AddCommMonoid M]

/-- The weights of a map's entries. -/
noncomputable def holdings (m : FlatMap K V) (f : V → M) : K →₀ M :=
  Finsupp.onFinset m.keys (fun k ↦ (m.find? k).elim 0 f) fun k hk ↦ by
    rcases h : m.find? k with - | v
    · simp [h] at hk
    · exact mem_keys.2 ⟨v, h⟩

theorem holdings_apply (m : FlatMap K V) (f : V → M) (k : K) :
    m.holdings f k = (m.find? k).elim 0 f := rfl

theorem holdings_of_find?_some {m : FlatMap K V} {k : K} {v : V} (h : m.find? k = some v)
    (f : V → M) : m.holdings f k = f v := by
  rw [holdings_apply, h]; rfl

theorem holdings_of_find?_none {m : FlatMap K V} {k : K} (h : m.find? k = none) (f : V → M) :
    m.holdings f k = 0 := by
  rw [holdings_apply, h]; rfl

@[simp] theorem holdings_empty (f : V → M) : (∅ : FlatMap K V).holdings f = 0 := by
  ext k
  rw [holdings_of_find?_none (find?_empty k)]
  rfl

/-- The degree of the holdings is the sum over the entries. -/
theorem degree_holdings (m : FlatMap K V) (f : V → M) :
    (m.holdings f).degree = m.sum fun _ v ↦ f v := by
  rw [Finsupp.degree_apply, sum_eq_finset_sum]
  refine Finset.sum_subset (Finsupp.support_onFinset_subset) fun k _ hk ↦ ?_
  exact Finsupp.notMem_support_iff.1 hk

theorem holdings_insert (m : FlatMap K V) (f : V → M) (k : K) (v : V) :
    (m.insert k v).holdings f = (m.holdings f).update k (f v) := by
  ext j
  rw [holdings_apply, find?_insert, Finsupp.update_apply]
  split_ifs
  · rfl
  · rfl

theorem holdings_erase (m : FlatMap K V) (f : V → M) (k : K) :
    (m.erase k).holdings f = (m.holdings f).update k 0 := by
  ext j
  rw [holdings_apply, find?_erase, Finsupp.update_apply]
  split_ifs
  · rfl
  · rfl

/-- The holdings are the sum of the entries' weights, each at its key. -/
theorem holdings_eq_sum_single (m : FlatMap K V) (f : V → M) :
    m.holdings f = (m.toList.map fun p ↦ Finsupp.single p.1 (f p.2)).sum := by
  ext k
  have happ : (m.toList.map fun p ↦ Finsupp.single p.1 (f p.2)).sum k
      = m.sum fun j v ↦ (Finsupp.single j (f v)) k := by
    rw [sum, ← Finsupp.applyAddHom_apply, map_list_sum, List.map_map]
    rfl
  have hzero : ∀ m' : FlatMap K V, m'.find? k = none →
      m'.sum (fun j v ↦ (Finsupp.single j (f v)) k) = 0 := by
    intro m' h
    rw [sum_congr (g := fun _ _ ↦ 0), sum_zero]
    intro j v hj
    refine Finsupp.single_eq_of_ne ?_
    rintro rfl
    rw [h] at hj
    cases hj
  rw [happ]
  rcases h : m.find? k with - | v
  · rw [holdings_of_find?_none h, hzero m h]
  · rw [holdings_of_find?_some h, sum_eq_add_erase _ h, Finsupp.single_eq_same,
      hzero _ (find?_erase_self m k), add_zero]

end FlatMap
