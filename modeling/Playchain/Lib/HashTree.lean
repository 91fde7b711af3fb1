import Mathlib.Data.List.Basic
import Mathlib.Tactic.Common

/-!
# Hash trees

Binary trees over a hash of pairs. The digest of a tree determines its leaves, whatever the shapes of the trees that are
compared (`leaves_eq_of_digest_eq`), provided that no leaf is itself the hash of a pair. `pairUp` is one level of the
usual construction: neighbours are joined, and the last tree of an odd number of them stays as it is.
-/

/-- A binary tree with values at its leaves. -/
inductive HashTree (α : Type*) where
  | leaf (a : α)
  | node (l r : HashTree α)

namespace HashTree

variable {α δ : Type*}

/-- The leaves, from left to right. -/
def leaves : HashTree α → List α
  | leaf a => [a]
  | node l r => l.leaves ++ r.leaves

/-- The digest of a tree whose leaves are digests. -/
def digest (hash : δ × δ → δ) : HashTree δ → δ
  | leaf a => a
  | node l r => hash (l.digest hash, r.digest hash)

/-- **A digest commits to the leaves.** -/
theorem leaves_eq_of_digest_eq {hash : δ × δ → δ} (hinj : Function.Injective hash) {t u : HashTree δ}
    (ht : ∀ a ∈ t.leaves, ∀ p, a ≠ hash p) (hu : ∀ a ∈ u.leaves, ∀ p, a ≠ hash p)
    (h : t.digest hash = u.digest hash) : t.leaves = u.leaves := by
  induction t generalizing u with
  | leaf a =>
    cases u with
    | leaf b => rw [leaves, leaves, show a = b from h]
    | node l r => exact absurd h (ht a (List.mem_singleton.2 rfl) _)
  | node l r ihl ihr =>
    cases u with
    | leaf b => exact absurd h.symm (hu b (List.mem_singleton.2 rfl) _)
    | node l' r' =>
      obtain ⟨hl, hr⟩ := Prod.mk.inj (hinj h)
      have hleft := ihl (fun a ha ↦ ht a (List.mem_append_left _ ha)) (fun a ha ↦ hu a (List.mem_append_left _ ha)) hl
      have hright :=
        ihr (fun a ha ↦ ht a (List.mem_append_right _ ha)) (fun a ha ↦ hu a (List.mem_append_right _ ha)) hr
      rw [leaves, leaves, hleft, hright]

/-! ### One level of the construction -/

/-- Neighbours are joined; the last one of an odd number stays. -/
def pairUp (join : α → α → α) : List α → List α
  | a :: b :: as => join a b :: pairUp join as
  | [a] => [a]
  | [] => []

/-- Pairing an even number of values leaves what follows alone. -/
theorem pairUp_append (join : α → α → α) {as : List α} (h : as.length % 2 = 0) (bs : List α) :
    pairUp join (as ++ bs) = pairUp join as ++ pairUp join bs := by
  induction as using pairUp.induct with
  | case1 a b as ih =>
    have heven : as.length % 2 = 0 := by
      rw [List.length_cons, List.length_cons] at h
      omega
    rw [List.cons_append, List.cons_append, pairUp, pairUp, ih heven, List.cons_append]
  | case2 a => simp at h
  | case3 => rfl

/-- Joining trees is hashing their digests. -/
theorem map_digest_pairUp (hash : δ × δ → δ) (ts : List (HashTree δ)) :
    (pairUp node ts).map (digest hash) = pairUp (fun a b ↦ hash (a, b)) (ts.map (digest hash)) := by
  induction ts using pairUp.induct with
  | case1 t u ts ih => rw [pairUp, List.map_cons, ih, List.map_cons, List.map_cons, pairUp, digest]
  | case2 t => rfl
  | case3 => rfl

/-- Joining trees keeps the leaves and their order. -/
theorem flatMap_leaves_pairUp (ts : List (HashTree α)) : (pairUp node ts).flatMap leaves = ts.flatMap leaves := by
  induction ts using pairUp.induct with
  | case1 t u ts ih =>
    rw [pairUp, List.flatMap_cons, ih, leaves, List.append_assoc, List.flatMap_cons, List.flatMap_cons]
  | case2 t => rfl
  | case3 => rfl

theorem flatMap_leaves_map_leaf (as : List α) : (as.map leaf).flatMap leaves = as := by
  induction as with
  | nil => rfl
  | cons a as ih => rw [List.map_cons, List.flatMap_cons, ih, leaves, List.singleton_append]

end HashTree
