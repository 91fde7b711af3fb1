import Mathlib.Logic.Function.Basic
import Mathlib.Logic.Relation

/-!
# Graphs with at most one edge out of each point

A partial function `f : ι → Option ι` is a graph in which a point has at most one edge out of it. It is *shallow*
when no path has more than two edges. Shallow graphs have no cycles, and `Shallow.update` says when the edge out
of a point can be replaced.
-/

variable {ι : Type*}

/-- There is an edge from one point to another. -/
def FunctionalGraph.Edge (f : ι → Option ι) (a b : ι) : Prop := f a = some b

/-- No path has more than two edges. -/
def FunctionalGraph.Shallow (f : ι → Option ι) : Prop :=
  ∀ a b c, f a = some b → f b = some c → f c = none

namespace FunctionalGraph

variable {f : ι → Option ι} {a b n : ι}

/-- A point from which a point with an edge can be reached has an edge itself. -/
theorem ne_none_of_reachable (h : Relation.ReflTransGen (Edge f) a b) (hb : f b ≠ none) : f a ≠ none := by
  rcases h.cases_head with rfl | ⟨c, hac, -⟩
  · exact hb
  · rw [show f a = some c from hac]
    exact Option.some_ne_none c

namespace Shallow

/-- **A shallow graph has no cycles.** -/
theorem acyclic (h : Shallow f) (a : ι) : ¬Relation.TransGen (Edge f) a a := by
  intro hcycle
  obtain ⟨b, hab, hba⟩ := Relation.TransGen.head'_iff.mp hcycle
  have ha : f a ≠ none := by
    rw [show f a = some b from hab]
    exact Option.some_ne_none b
  -- the cycle goes on from `b`, and from the point after it
  obtain ⟨c, hbc⟩ := Option.ne_none_iff_exists'.mp (ne_none_of_reachable hba ha)
  have hca : Relation.ReflTransGen (Edge f) c a := by
    rcases hba.cases_head with rfl | ⟨d, hbd, hda⟩
    · obtain rfl : b = c := Option.some.inj ((show f b = some b from hab).symm.trans hbc)
      exact .refl
    · obtain rfl : d = c := Option.some.inj ((show f b = some d from hbd).symm.trans hbc)
      exact hda
  exact ne_none_of_reachable hca ha (h a b c hab hbc)

/-- **A new edge out of a point keeps the graph shallow**: the point has an edge out of it already or none into it,
and if its new neighbour has an edge out of it, that edge leads to an end and the point has no edges into it. -/
theorem update [DecidableEq ι] (h : Shallow f) (hne : n ≠ a) (hin : f a ≠ none ∨ ∀ x, f x ≠ some a)
    (hn : ∀ m, f n = some m → f m = none ∧ ∀ x, f x ≠ some a) :
    Shallow (Function.update f a (some n)) := by
  intro x y z hxy hyz
  by_cases hx : x = a
  · subst hx
    rw [Function.update_self] at hxy
    obtain rfl := Option.some.inj hxy
    rw [Function.update_of_ne hne] at hyz
    obtain ⟨hz, hchild⟩ := hn z hyz
    rw [Function.update_of_ne, hz]
    rintro rfl
    exact hchild n hyz
  rw [Function.update_of_ne hx] at hxy
  by_cases hy : y = a
  · subst hy
    rw [Function.update_self] at hyz
    obtain rfl := Option.some.inj hyz
    rw [Function.update_of_ne hne]
    cases hm : f n with
    | none => rfl
    | some m => exact absurd hxy ((hn m hm).2 x)
  · rw [Function.update_of_ne hy] at hyz
    have hz := h x y z hxy hyz
    rw [Function.update_of_ne, hz]
    rintro rfl
    rcases hin with hin | hin
    · exact hin hz
    · exact hin y hyz

end Shallow

end FunctionalGraph
