import Mathlib.Algebra.BigOperators.Group.List.Lemmas
import Mathlib.Algebra.BigOperators.Group.Finset.Basic
import Mathlib.Data.List.Sort
import Mathlib.Tactic

/-!
# Sorted association lists

A finite map stored as a list of pairs with **strictly increasing keys**, the representation of a
sorted-vector map: iteration is in key order, every key occurs once, and two maps with the same
lookups are equal (`FlatMap.ext_find?`).

The sortedness is a field, so a map with a repeated or misplaced key cannot be built. Everything
below is stated through three observations of a map:

* `find?` — the lookup;
* `keys` — the key set, a `Finset`;
* `sum f` — the total of `f k v` over the entries, in any commutative monoid.

The updates `insert` and `erase` are characterized by what they do to each of the three. The sum
lemmas all come from one permutation fact per update (`toList_insert_perm`, `toList_erase_perm`).
-/

variable {K V M : Type*}

/-- A map as a list of pairs with strictly increasing keys. -/
structure FlatMap (K V : Type*) [LinearOrder K] where
  /-- The entries, in key order. -/
  toList : List (K × V)
  /-- Keys strictly increase along the entries. -/
  sorted : toList.Pairwise fun a b ↦ a.1 < b.1

namespace FlatMap

variable [LinearOrder K]

instance [DecidableEq V] : DecidableEq (FlatMap K V) := fun a b ↦
  decidable_of_iff (a.toList = b.toList) (by
    cases a; cases b; simp)

/-- The map without entries. -/
def empty : FlatMap K V := ⟨[], List.Pairwise.nil⟩

instance : EmptyCollection (FlatMap K V) := ⟨empty⟩

instance : Inhabited (FlatMap K V) := ⟨empty⟩

/-- The lookup of a key. -/
def find? (m : FlatMap K V) (k : K) : Option V :=
  (m.toList.find? fun p ↦ decide (p.1 = k)).map Prod.snd

/-- Whether a key has an entry. -/
def contains (m : FlatMap K V) (k : K) : Bool := (m.find? k).isSome

/-- Whether the map has no entry. -/
def isEmpty (m : FlatMap K V) : Bool := m.toList.isEmpty

/-- The number of entries. -/
def size (m : FlatMap K V) : ℕ := m.toList.length

/-- The key set. -/
def keys (m : FlatMap K V) : Finset K := (m.toList.map Prod.fst).toFinset

/-- The total of `f` over the entries. -/
def sum [AddCommMonoid M] (m : FlatMap K V) (f : K → V → M) : M :=
  (m.toList.map fun p ↦ f p.1 p.2).sum

/-! ### Entries and lookups -/

theorem nodup_fst (m : FlatMap K V) : (m.toList.map Prod.fst).Nodup := by
  rw [List.Nodup, List.pairwise_map]
  exact m.sorted.imp fun h ↦ h.ne

theorem eq_of_mem_of_mem {m : FlatMap K V} {k : K} {v w : V} (hv : (k, v) ∈ m.toList)
    (hw : (k, w) ∈ m.toList) : v = w := by
  have h := List.inj_on_of_nodup_map m.nodup_fst hv hw rfl
  exact (Prod.mk.inj h).2

/-- A lookup succeeds exactly on the entries. -/
theorem find?_eq_some_iff {m : FlatMap K V} {k : K} {v : V} :
    m.find? k = some v ↔ (k, v) ∈ m.toList := by
  constructor
  · intro h
    obtain ⟨p, hp, rfl⟩ := Option.map_eq_some_iff.1 h
    have hk : p.1 = k := by simpa using List.find?_some hp
    exact hk ▸ List.mem_of_find?_eq_some hp
  · intro h
    rcases hp : m.toList.find? fun p ↦ decide (p.1 = k) with - | p
    · have := List.find?_eq_none.1 hp _ h
      simp at this
    · have hk : p.1 = k := by simpa using List.find?_some hp
      have hmem : (k, p.2) ∈ m.toList := hk ▸ List.mem_of_find?_eq_some hp
      rw [find?, hp, Option.map_some, eq_of_mem_of_mem hmem h]

theorem find?_eq_none_iff {m : FlatMap K V} {k : K} :
    m.find? k = none ↔ ∀ v, (k, v) ∉ m.toList := by
  rw [← not_iff_not, ← Ne, Option.ne_none_iff_exists']
  simp [find?_eq_some_iff]

theorem mem_keys {m : FlatMap K V} {k : K} : k ∈ m.keys ↔ ∃ v, m.find? k = some v := by
  simp [keys, find?_eq_some_iff]

theorem mem_keys_of_mem {m : FlatMap K V} {p : K × V} (h : p ∈ m.toList) : p.1 ∈ m.keys :=
  mem_keys.2 ⟨p.2, find?_eq_some_iff.2 h⟩

theorem not_mem_keys {m : FlatMap K V} {k : K} : k ∉ m.keys ↔ m.find? k = none := by
  rw [mem_keys, ← not_iff_not, not_not, ← Ne, Option.ne_none_iff_exists']

theorem contains_iff {m : FlatMap K V} {k : K} : m.contains k = true ↔ k ∈ m.keys := by
  rw [contains, Option.isSome_iff_exists, mem_keys]

theorem contains_eq_false_iff {m : FlatMap K V} {k : K} :
    m.contains k = false ↔ m.find? k = none := by
  simp [contains]

@[simp] theorem find?_empty (k : K) : (∅ : FlatMap K V).find? k = none := rfl

@[simp] theorem keys_empty : (∅ : FlatMap K V).keys = ∅ := rfl

@[simp] theorem toList_empty : (∅ : FlatMap K V).toList = [] := rfl

theorem isEmpty_iff {m : FlatMap K V} : m.isEmpty = true ↔ m = ∅ := by
  rcases m with ⟨l, hl⟩
  simp only [isEmpty, List.isEmpty_iff]
  exact ⟨fun h ↦ by subst h; rfl, fun h ↦ congrArg toList h⟩

theorem isEmpty_iff_find? {m : FlatMap K V} : m.isEmpty = true ↔ ∀ k, m.find? k = none := by
  rw [isEmpty_iff]
  refine ⟨by rintro rfl; simp, fun h ↦ ?_⟩
  rcases m with ⟨_ | ⟨p, l⟩, hl⟩
  · rfl
  · exact absurd (List.mem_cons_self) (find?_eq_none_iff.1 (h p.1) p.2)

theorem isEmpty_eq_false_iff {m : FlatMap K V} :
    m.isEmpty = false ↔ ∃ k v, m.find? k = some v := by
  rw [← Bool.not_eq_true, isEmpty_iff_find?, not_forall]
  simp [Option.ne_none_iff_exists']

/-- The number of keys is the number of entries. -/
theorem card_keys (m : FlatMap K V) : m.keys.card = m.size := by
  rw [keys, List.toFinset_card_of_nodup m.nodup_fst, List.length_map, size]

/-- **Extensionality.** A map is determined by its lookups. -/
theorem ext_find? {m m' : FlatMap K V} (h : ∀ k, m.find? k = m'.find? k) : m = m' := by
  have hmem : ∀ p, p ∈ m.toList ↔ p ∈ m'.toList := fun p ↦ by
    rw [← find?_eq_some_iff (v := p.2), ← find?_eq_some_iff (v := p.2), h]
  have hperm : m.toList.Perm m'.toList :=
    (List.perm_ext_iff_of_nodup m.nodup_fst.of_map m'.nodup_fst.of_map).2 hmem
  have hlist : m.toList = m'.toList :=
    hperm.eq_of_pairwise (fun a b _ _ hab hba ↦ absurd hba hab.asymm) m.sorted m'.sorted
  cases m; cases m'; simpa using hlist

/-- **A walk over the entries**, seen at one key. What the walk does there is done once, by the entry of
that key, if there is one. -/
theorem foldl_at {S X : Type*} (view : S → X) (k : K) {g : S → K × V → S} {h : X → V → X}
    (hself : ∀ s v, view (g s (k, v)) = h (view s) v)
    (hother : ∀ s p, p.1 ≠ k → view (g s p) = view s) (m : FlatMap K V) (s : S) :
    view (m.toList.foldl g s) = (m.find? k).elim (view s) (h (view s)) := by
  have hskip : ∀ (l : List (K × V)) (s : S), k ∉ l.map Prod.fst → view (l.foldl g s) = view s := by
    intro l
    induction l with
    | nil => exact fun _ _ ↦ rfl
    | cons p l ih =>
      intro s hk
      rw [List.map_cons, List.mem_cons, not_or] at hk
      rw [List.foldl_cons, ih _ hk.2, hother s p fun heq ↦ hk.1 heq.symm]
  rcases hm : m.find? k with - | v
  · refine hskip _ s fun hk ↦ ?_
    obtain ⟨p, hp, rfl⟩ := List.mem_map.1 hk
    rw [find?_eq_some_iff.2 hp] at hm
    cases hm
  · obtain ⟨before, after, hsplit⟩ := List.append_of_mem (find?_eq_some_iff.1 hm)
    have hnodup := m.nodup_fst
    rw [hsplit, List.map_append, List.map_cons, List.nodup_append, List.nodup_cons] at hnodup
    obtain ⟨-, ⟨hafter, -⟩, hcross⟩ := hnodup
    rw [hsplit, List.foldl_append, List.foldl_cons, hskip after _ hafter, hself,
      hskip before _ fun hmem ↦ hcross k hmem k List.mem_cons_self rfl]
    rfl

/-! ### Insertion -/

/-- Insertion into a sorted list of pairs; an entry with the same key is replaced. -/
def insertList (k : K) (v : V) : List (K × V) → List (K × V)
  | [] => [(k, v)]
  | p :: l =>
    if k < p.1 then (k, v) :: p :: l
    else if k = p.1 then (k, v) :: l
    else p :: insertList k v l

theorem mem_insertList {k : K} {v : V} {l : List (K × V)} (hl : l.Pairwise fun a b ↦ a.1 < b.1)
    {p : K × V} : p ∈ insertList k v l ↔ p = (k, v) ∨ p ∈ l ∧ p.1 ≠ k := by
  induction l with
  | nil => simp [insertList]
  | cons q l ih =>
    obtain ⟨hq, hl⟩ := List.pairwise_cons.1 hl
    rw [insertList]
    split_ifs with hlt heq
    -- every old key is above `k`
    · have hne : ∀ a ∈ q :: l, a.1 ≠ k := by
        intro a ha
        rcases List.mem_cons.1 ha with rfl | ha
        · exact hlt.ne'
        · exact (hlt.trans (hq a ha)).ne'
      rw [List.mem_cons]
      exact or_congr_right ⟨fun h ↦ ⟨h, hne p h⟩, fun h ↦ h.1⟩
    · subst heq
      have hne : ∀ a ∈ l, a.1 ≠ q.1 := fun a ha ↦ (hq a ha).ne'
      rw [List.mem_cons, List.mem_cons]
      constructor
      · rintro (h | h)
        · exact Or.inl h
        · exact Or.inr ⟨Or.inr h, hne p h⟩
      · rintro (h | ⟨rfl | h, hk⟩)
        · exact Or.inl h
        · exact absurd rfl hk
        · exact Or.inr h
    · rw [List.mem_cons, List.mem_cons, ih hl]
      have hqk : q.1 ≠ k := fun h ↦ heq h.symm
      constructor
      · rintro (rfl | h | h)
        · exact Or.inr ⟨Or.inl rfl, hqk⟩
        · exact Or.inl h
        · exact Or.inr ⟨Or.inr h.1, h.2⟩
      · rintro (h | ⟨h | h, hk⟩)
        · exact Or.inr (Or.inl h)
        · exact Or.inl h
        · exact Or.inr (Or.inr ⟨h, hk⟩)

theorem insertList_sorted {k : K} {v : V} {l : List (K × V)}
    (hl : l.Pairwise fun a b ↦ a.1 < b.1) :
    (insertList k v l).Pairwise fun a b ↦ a.1 < b.1 := by
  induction l with
  | nil => simp [insertList]
  | cons q l ih =>
    obtain ⟨hq, hl'⟩ := List.pairwise_cons.1 hl
    rw [insertList]
    split_ifs with hlt heq
    · refine List.pairwise_cons.2 ⟨fun a ha ↦ ?_, hl⟩
      rcases List.mem_cons.1 ha with rfl | ha
      · exact hlt
      · exact hlt.trans (hq a ha)
    · subst heq
      exact List.pairwise_cons.2 ⟨hq, hl'⟩
    · refine List.pairwise_cons.2 ⟨fun a ha ↦ ?_, ih hl'⟩
      rcases (mem_insertList hl').1 ha with rfl | ⟨ha, -⟩
      · exact lt_of_le_of_ne (not_lt.1 hlt) (Ne.symm heq)
      · exact hq a ha

/-- A key above all others goes to the end. -/
theorem insertList_of_forall_lt {k : K} {l : List (K × V)} (h : ∀ p ∈ l, p.1 < k) (v : V) :
    insertList k v l = l ++ [(k, v)] := by
  induction l with
  | nil => rfl
  | cons p l ih =>
    have hp := h p List.mem_cons_self
    rw [insertList, if_neg hp.not_gt, if_neg hp.ne', ih fun q hq ↦ h q (List.mem_cons_of_mem _ hq),
      List.cons_append]

/-- Set the value of a key. -/
def insert (m : FlatMap K V) (k : K) (v : V) : FlatMap K V :=
  ⟨insertList k v m.toList, insertList_sorted m.sorted⟩

theorem mem_insert {m : FlatMap K V} {k : K} {v : V} {p : K × V} :
    p ∈ (m.insert k v).toList ↔ p = (k, v) ∨ p ∈ m.toList ∧ p.1 ≠ k :=
  mem_insertList m.sorted

theorem find?_insert (m : FlatMap K V) (k : K) (v : V) (j : K) :
    (m.insert k v).find? j = if j = k then some v else m.find? j := by
  split_ifs with hj
  · rw [find?_eq_some_iff, mem_insert]
    exact Or.inl (by rw [hj])
  · refine Option.ext fun w ↦ ?_
    rw [find?_eq_some_iff, find?_eq_some_iff, mem_insert]
    constructor
    · rintro (h | h)
      · exact absurd (Prod.mk.inj h).1 hj
      · exact h.1
    · exact fun h ↦ Or.inr ⟨h, hj⟩

@[simp] theorem find?_insert_self (m : FlatMap K V) (k : K) (v : V) :
    (m.insert k v).find? k = some v := by
  rw [find?_insert, if_pos rfl]

theorem find?_insert_of_ne (m : FlatMap K V) {k j : K} (v : V) (h : j ≠ k) :
    (m.insert k v).find? j = m.find? j := by
  rw [find?_insert, if_neg h]

theorem keys_insert (m : FlatMap K V) (k : K) (v : V) :
    (m.insert k v).keys = Insert.insert k m.keys := by
  ext j
  rw [mem_keys, Finset.mem_insert, mem_keys, find?_insert]
  by_cases hj : j = k <;> simp [hj]

/-! ### Erasure -/

/-- Remove the entry of a key, if there is one. -/
def erase (m : FlatMap K V) (k : K) : FlatMap K V :=
  ⟨m.toList.filter fun p ↦ decide (p.1 ≠ k), m.sorted.sublist List.filter_sublist⟩

theorem mem_erase {m : FlatMap K V} {k : K} {p : K × V} :
    p ∈ (m.erase k).toList ↔ p ∈ m.toList ∧ p.1 ≠ k := by
  simp [erase]

theorem find?_erase (m : FlatMap K V) (k j : K) :
    (m.erase k).find? j = if j = k then none else m.find? j := by
  refine Option.ext fun w ↦ ?_
  rw [find?_eq_some_iff, mem_erase]
  split_ifs with hj
  · simp [hj]
  · rw [find?_eq_some_iff]
    exact and_iff_left hj

@[simp] theorem find?_erase_self (m : FlatMap K V) (k : K) : (m.erase k).find? k = none := by
  rw [find?_erase, if_pos rfl]

theorem find?_erase_of_ne (m : FlatMap K V) {k j : K} (h : j ≠ k) :
    (m.erase k).find? j = m.find? j := by
  rw [find?_erase, if_neg h]

theorem keys_erase (m : FlatMap K V) (k : K) : (m.erase k).keys = m.keys.erase k := by
  ext j
  rw [mem_keys, Finset.mem_erase, mem_keys, find?_erase]
  by_cases hj : j = k <;> simp [hj]

theorem erase_of_find?_none {m : FlatMap K V} {k : K} (h : m.find? k = none) : m.erase k = m :=
  ext_find? fun j ↦ by
    rw [find?_erase]
    split_ifs with hj
    · rw [hj, h]
    · rfl

/-! ### Selection -/

/-- The entries that satisfy a predicate. -/
def filter (m : FlatMap K V) (p : K → V → Bool) : FlatMap K V :=
  ⟨m.toList.filter fun q ↦ p q.1 q.2, m.sorted.filter _⟩

theorem find?_filter {m : FlatMap K V} {p : K → V → Bool} {k : K} {v : V} :
    (m.filter p).find? k = some v ↔ m.find? k = some v ∧ p k v = true := by
  rw [find?_eq_some_iff, find?_eq_some_iff]
  exact List.mem_filter

/-! ### Permutations and sums -/

/-- An insertion puts its pair in front of the other entries, up to order. -/
theorem toList_insert_perm (m : FlatMap K V) (k : K) (v : V) :
    (m.insert k v).toList.Perm ((k, v) :: (m.erase k).toList) := by
  have hnd : ((k, v) :: (m.erase k).toList).Nodup := by
    refine List.nodup_cons.2 ⟨fun h ↦ (mem_erase.1 h).2 rfl, (m.erase k).nodup_fst.of_map⟩
  refine (List.perm_ext_iff_of_nodup (m.insert k v).nodup_fst.of_map hnd).2 fun p ↦ ?_
  rw [mem_insert, List.mem_cons, mem_erase]

/-- An entry in front of the others is the whole map, up to order. -/
theorem toList_erase_perm {m : FlatMap K V} {k : K} {v : V} (h : m.find? k = some v) :
    m.toList.Perm ((k, v) :: (m.erase k).toList) := by
  have hins : m.insert k v = m := ext_find? fun j ↦ by
    rw [find?_insert]
    split_ifs with hj
    · rw [hj, h]
    · rfl
  simpa [hins] using m.toList_insert_perm k v

section Sum

variable [AddCommMonoid M] (f : K → V → M)

@[simp] theorem sum_empty : (∅ : FlatMap K V).sum f = 0 := rfl

/-- What an insertion contributes to a sum. -/
theorem sum_insert (m : FlatMap K V) (k : K) (v : V) :
    (m.insert k v).sum f = f k v + (m.erase k).sum f := by
  rw [sum, ((m.toList_insert_perm k v).map _).sum_eq, List.map_cons, List.sum_cons, sum]

/-- An entry's contribution splits off a sum. -/
theorem sum_eq_add_erase {m : FlatMap K V} {k : K} {v : V} (h : m.find? k = some v) :
    m.sum f = f k v + (m.erase k).sum f := by
  rw [sum, ((toList_erase_perm h).map _).sum_eq, List.map_cons, List.sum_cons, sum]

/-- Inserting a fresh key adds its contribution. -/
theorem sum_insert_of_find?_none {m : FlatMap K V} {k : K} (h : m.find? k = none) (v : V) :
    (m.insert k v).sum f = f k v + m.sum f := by
  rw [sum_insert, erase_of_find?_none h]

/-- Sums agree when the summands agree on the entries. -/
theorem sum_congr {m : FlatMap K V} {f g : K → V → M}
    (h : ∀ k v, m.find? k = some v → f k v = g k v) : m.sum f = m.sum g := by
  rw [sum, sum]
  congr 1
  exact List.map_congr_left fun p hp ↦ h p.1 p.2 (find?_eq_some_iff.2 hp)

theorem sum_add (m : FlatMap K V) (g : K → V → M) :
    m.sum (fun k v ↦ f k v + g k v) = m.sum f + m.sum g := by
  simp only [sum]
  induction m.toList with
  | nil => simp
  | cons p l ih =>
    simp only [List.map_cons, List.sum_cons, ih]
    abel

theorem sum_zero (m : FlatMap K V) : m.sum (fun _ _ ↦ (0 : M)) = 0 := by
  simp [sum]

end Sum

theorem sum_nonneg {m : FlatMap K V} {f : K → V → ℤ} (h : ∀ k v, m.find? k = some v → 0 ≤ f k v) :
    0 ≤ m.sum f := by
  refine List.sum_nonneg fun x hx ↦ ?_
  obtain ⟨p, hp, rfl⟩ := List.mem_map.1 hx
  exact h p.1 p.2 (find?_eq_some_iff.2 hp)

/-- A sum over the entries is a sum over the key set. -/
theorem sum_eq_finset_sum [AddCommMonoid M] (m : FlatMap K V) (f : K → V → M) :
    m.sum f = ∑ k ∈ m.keys, ((m.find? k).elim 0 (f k)) := by
  rw [keys, List.sum_toFinset _ m.nodup_fst, sum, List.map_map]
  congr 1
  refine List.map_congr_left fun p hp ↦ ?_
  rw [Function.comp_apply, find?_eq_some_iff.2 (show (p.1, p.2) ∈ m.toList from hp)]
  rfl

/-! ### The common keys of two maps -/

section Common

variable {W : Type*} {m : FlatMap K V} {c : FlatMap K W}

/-- The entries of `m` under keys of `c`; if there are as many as `c` has keys, they are all. -/
theorem toFinset_common_keys
    (h : (m.toList.filter fun p ↦ c.contains p.1).length = c.size) :
    ((m.toList.filter fun p ↦ c.contains p.1).map Prod.fst).toFinset = c.keys := by
  have hnd : ((m.toList.filter fun p ↦ c.contains p.1).map Prod.fst).Nodup :=
    m.nodup_fst.sublist (List.filter_sublist.map Prod.fst)
  refine Finset.eq_of_subset_of_card_le (fun k hk ↦ ?_) ?_
  · obtain ⟨p, hp, rfl⟩ := List.mem_map.1 (List.mem_toFinset.1 hk)
    exact contains_iff.1 (List.mem_filter.1 hp).2
  · rw [card_keys, List.toFinset_card_of_nodup hnd, List.length_map, h]

theorem mem_keys_of_common (h : (m.toList.filter fun p ↦ c.contains p.1).length = c.size) {k : K}
    (hk : k ∈ c.keys) : k ∈ m.keys := by
  rw [← toFinset_common_keys h] at hk
  obtain ⟨p, hp, rfl⟩ := List.mem_map.1 (List.mem_toFinset.1 hk)
  exact mem_keys_of_mem (List.mem_of_mem_filter hp)

theorem sum_common [AddCommMonoid M]
    (h : (m.toList.filter fun p ↦ c.contains p.1).length = c.size) (φ : K → M) :
    ((m.toList.filter fun p ↦ c.contains p.1).map fun p ↦ φ p.1).sum = c.sum fun k _ ↦ φ k := by
  have hnd : ((m.toList.filter fun p ↦ c.contains p.1).map Prod.fst).Nodup :=
    m.nodup_fst.sublist (List.filter_sublist.map Prod.fst)
  have hc : (c.sum fun k _ ↦ φ k) = ∑ k ∈ c.keys, φ k := by
    rw [keys, List.sum_toFinset _ c.nodup_fst, List.map_map]
    rfl
  rw [hc, ← toFinset_common_keys h, List.sum_toFinset _ hnd, List.map_map]
  rfl

end Common

/-! ### Updating one value -/

/-- Apply a function to the value of a key, if it has one. -/
def modify (m : FlatMap K V) (k : K) (g : V → V) : FlatMap K V :=
  match m.find? k with
  | none => m
  | some v => m.insert k (g v)

theorem find?_modify (m : FlatMap K V) (k : K) (g : V → V) (j : K) :
    (m.modify k g).find? j = if j = k then (m.find? j).map g else m.find? j := by
  rw [modify]
  rcases h : m.find? k with - | v
  · split_ifs with hj
    · rw [hj, h]; simp
    · rfl
  · simp only [find?_insert]
    split_ifs with hj
    · rw [hj, h]; rfl
    · rfl

theorem keys_modify (m : FlatMap K V) (k : K) (g : V → V) : (m.modify k g).keys = m.keys := by
  ext j
  rw [mem_keys, mem_keys, find?_modify]
  by_cases hj : j = k <;> simp [hj]

theorem erase_modify (m : FlatMap K V) (k : K) (g : V → V) : (m.modify k g).erase k = m.erase k :=
  ext_find? fun j ↦ by
    rw [find?_erase, find?_erase, find?_modify]
    split_ifs <;> rfl

/-- What updating one value does to a sum. -/
theorem sum_modify [AddCommMonoid M] (f : K → V → M) {m : FlatMap K V} {k : K} {v : V}
    (h : m.find? k = some v) (g : V → V) :
    (m.modify k g).sum f = f k (g v) + (m.erase k).sum f := by
  rw [modify, h, sum_insert]

end FlatMap

/-- A sorted set: a map that only stores its keys. -/
abbrev FlatSet (K : Type*) [LinearOrder K] := FlatMap K Unit

namespace FlatSet

variable [LinearOrder K]

/-- Add an element. -/
def add (s : FlatSet K) (k : K) : FlatSet K := s.insert k ()

/-- The elements, in order. -/
def elements (s : FlatSet K) : List K := s.toList.map Prod.fst

/-- The set of the elements of a list. -/
def ofList (l : List K) : FlatSet K := l.foldl add ∅

theorem mem_elements {s : FlatSet K} {k : K} : k ∈ s.elements ↔ k ∈ s.keys := by
  rw [FlatMap.keys, List.mem_toFinset]
  rfl

theorem nodup_elements (s : FlatSet K) : s.elements.Nodup := s.nodup_fst

theorem keys_add (s : FlatSet K) (k : K) : (s.add k).keys = Insert.insert k s.keys :=
  FlatMap.keys_insert ..

theorem mem_keys_foldl_add {s : FlatSet K} {l : List K} {k : K} :
    k ∈ (l.foldl add s).keys ↔ k ∈ s.keys ∨ k ∈ l := by
  induction l generalizing s with
  | nil => simp
  | cons a l ih =>
    rw [List.foldl_cons, ih, keys_add, Finset.mem_insert, List.mem_cons]
    tauto

theorem mem_keys_ofList {l : List K} {k : K} : k ∈ (ofList l).keys ↔ k ∈ l := by
  rw [ofList, mem_keys_foldl_add]
  simp

end FlatSet
