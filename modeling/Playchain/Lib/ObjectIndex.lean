import Playchain.Lib.FlatMap

/-!
# Object indices

An index of objects under increasing numeric ids: a sorted map together with the next free id,
which lies **above every id in use**. The bound is a field, so a new object never replaces an old
one (`ObjectIndex.find?_nextId`).

The four mutations `create`, `modify`, `remove` and `set` are described by their lookups and by
their effect on a sum over all objects. Iteration in the order of a secondary key is `orderedBy`, a
sorted list of the entries: it lists exactly the objects of the index (`mem_orderedBy`).
-/

variable {α β M : Type*}

/-- Objects under numeric ids, with the next free id. -/
structure ObjectIndex (α : Type*) where
  /-- The objects by id. -/
  objects : FlatMap ℕ α
  /-- The id the next created object receives. -/
  nextId : ℕ
  /-- Ids in use are below the next one. -/
  lt_nextId : ∀ p ∈ objects.toList, p.1 < nextId

namespace ObjectIndex

/-- The index without objects. -/
def empty : ObjectIndex α := ⟨∅, 0, by simp⟩

instance : EmptyCollection (ObjectIndex α) := ⟨empty⟩

instance [DecidableEq α] : DecidableEq (ObjectIndex α) := fun a b ↦
  decidable_of_iff (a.objects = b.objects ∧ a.nextId = b.nextId) (by
    cases a; cases b; simp)

/-- The entries in id order. -/
def toList (x : ObjectIndex α) : List (ℕ × α) := x.objects.toList

/-- The lookup of an id. -/
def find? (x : ObjectIndex α) (i : ℕ) : Option α := x.objects.find? i

/-- The total of `f` over the objects. -/
def sum [AddCommMonoid M] (x : ObjectIndex α) (f : α → M) : M := x.objects.sum fun _ a ↦ f a

/-- Add an object under the next id. -/
def create (x : ObjectIndex α) (a : α) : ObjectIndex α where
  objects := x.objects.insert x.nextId a
  nextId := x.nextId + 1
  lt_nextId p hp := by
    rcases FlatMap.mem_insert.1 hp with rfl | ⟨hp, -⟩
    · exact Nat.lt_succ_self _
    · exact (x.lt_nextId p hp).trans (Nat.lt_succ_self _)

/-- Apply a function to the object with an id, if there is one. -/
def modify (x : ObjectIndex α) (i : ℕ) (g : α → α) : ObjectIndex α where
  objects := x.objects.modify i g
  nextId := x.nextId
  lt_nextId p hp := by
    have hk : p.1 ∈ x.objects.keys := by
      rw [← x.objects.keys_modify i g]
      exact FlatMap.mem_keys_of_mem hp
    obtain ⟨v, hv⟩ := FlatMap.mem_keys.1 hk
    exact x.lt_nextId (p.1, v) (FlatMap.find?_eq_some_iff.1 hv)

/-- Remove the object with an id, if there is one. -/
def remove (x : ObjectIndex α) (i : ℕ) : ObjectIndex α where
  objects := x.objects.erase i
  nextId := x.nextId
  lt_nextId p hp := x.lt_nextId p (FlatMap.mem_erase.1 hp).1

/-- Replace the object with an id, if there is one. -/
def set (x : ObjectIndex α) (i : ℕ) (a : α) : ObjectIndex α := x.modify i fun _ ↦ a

/-- The entries in the order of a secondary key. -/
def orderedBy (x : ObjectIndex α) (r : ℕ × α → ℕ × α → Prop) [DecidableRel r] : List (ℕ × α) :=
  x.toList.insertionSort r

/-! ### Lookups -/

theorem find?_eq_some_iff {x : ObjectIndex α} {i : ℕ} {a : α} :
    x.find? i = some a ↔ (i, a) ∈ x.toList :=
  FlatMap.find?_eq_some_iff

@[simp] theorem find?_empty (i : ℕ) : (∅ : ObjectIndex α).find? i = none := rfl

@[simp] theorem toList_empty : (∅ : ObjectIndex α).toList = [] := rfl

/-- A new object is the last one. -/
theorem toList_create (x : ObjectIndex α) (a : α) :
    (x.create a).toList = x.toList ++ [(x.nextId, a)] :=
  FlatMap.insertList_of_forall_lt x.lt_nextId a

/-- Removing some objects leaves the others. -/
theorem toList_foldl_remove (x : ObjectIndex α) (l : List (ℕ × β)) :
    (l.foldl (fun x p ↦ x.remove p.1) x).toList = x.toList.filter fun q ↦ q.1 ∉ l.map Prod.fst := by
  induction l generalizing x with
  | nil => simp
  | cons p l ih =>
    have hremove : (x.remove p.1).toList = x.toList.filter fun q ↦ decide (q.1 ≠ p.1) := rfl
    rw [List.foldl_cons, ih, hremove, List.filter_filter]
    refine List.filter_congr fun q _ ↦ ?_
    rw [Bool.eq_iff_iff]
    simp [and_comm]

theorem lt_nextId_of_find? {x : ObjectIndex α} {i : ℕ} {a : α} (h : x.find? i = some a) :
    i < x.nextId :=
  x.lt_nextId (i, a) (find?_eq_some_iff.1 h)

/-- The next id is free. -/
theorem find?_nextId (x : ObjectIndex α) : x.find? x.nextId = none := by
  rcases h : x.find? x.nextId with - | a
  · rfl
  · exact absurd (lt_nextId_of_find? h) (lt_irrefl _)

@[simp] theorem nextId_create (x : ObjectIndex α) (a : α) : (x.create a).nextId = x.nextId + 1 :=
  rfl

@[simp] theorem nextId_modify (x : ObjectIndex α) (i : ℕ) (g : α → α) :
    (x.modify i g).nextId = x.nextId := rfl

@[simp] theorem nextId_remove (x : ObjectIndex α) (i : ℕ) : (x.remove i).nextId = x.nextId := rfl

@[simp] theorem nextId_set (x : ObjectIndex α) (i : ℕ) (a : α) : (x.set i a).nextId = x.nextId :=
  rfl

theorem find?_create (x : ObjectIndex α) (a : α) (j : ℕ) :
    (x.create a).find? j = if j = x.nextId then some a else x.find? j :=
  FlatMap.find?_insert ..

theorem find?_create_of_some {x : ObjectIndex α} {j : ℕ} {b : α} (h : x.find? j = some b) (a : α) :
    (x.create a).find? j = some b := by
  rw [find?_create, if_neg (lt_nextId_of_find? h).ne, h]

theorem find?_modify (x : ObjectIndex α) (i : ℕ) (g : α → α) (j : ℕ) :
    (x.modify i g).find? j = if j = i then (x.find? j).map g else x.find? j :=
  FlatMap.find?_modify ..

theorem find?_modify_of_ne (x : ObjectIndex α) {i j : ℕ} (g : α → α) (h : j ≠ i) :
    (x.modify i g).find? j = x.find? j := by
  rw [find?_modify, if_neg h]

/-- What a modification keeps of an object. -/
theorem map_find?_modify (x : ObjectIndex α) (i : ℕ) {g : α → α} {f : α → β}
    (hg : ∀ a, f (g a) = f a) (j : ℕ) : ((x.modify i g).find? j).map f = (x.find? j).map f := by
  rw [find?_modify]
  split_ifs
  · rw [Option.map_map]
    exact congrArg (Option.map · _) (funext hg)
  · rfl

theorem find?_remove (x : ObjectIndex α) (i j : ℕ) :
    (x.remove i).find? j = if j = i then none else x.find? j :=
  FlatMap.find?_erase ..

theorem find?_remove_of_ne (x : ObjectIndex α) {i j : ℕ} (h : j ≠ i) :
    (x.remove i).find? j = x.find? j := by
  rw [find?_remove, if_neg h]

theorem find?_of_find?_remove {x : ObjectIndex α} {i j : ℕ} {a : α}
    (h : (x.remove i).find? j = some a) : j ≠ i ∧ x.find? j = some a := by
  rw [find?_remove] at h
  split_ifs at h with hj
  exact ⟨hj, h⟩

theorem find?_set (x : ObjectIndex α) (i : ℕ) (a : α) (j : ℕ) :
    (x.set i a).find? j = if j = i then (x.find? j).map fun _ ↦ a else x.find? j :=
  find?_modify ..

theorem find?_set_self {x : ObjectIndex α} {i : ℕ} {b : α} (h : x.find? i = some b) (a : α) :
    (x.set i a).find? i = some a := by
  rw [find?_set, if_pos rfl, h]; rfl

theorem find?_set_of_ne (x : ObjectIndex α) {i j : ℕ} (a : α) (h : j ≠ i) :
    (x.set i a).find? j = x.find? j :=
  find?_modify_of_ne x _ h

/-- **Extensionality.** An index is determined by its lookups and its next id. -/
theorem ext_find? {x y : ObjectIndex α} (h : ∀ i, x.find? i = y.find? i)
    (hn : x.nextId = y.nextId) : x = y := by
  have ho : x.objects = y.objects := FlatMap.ext_find? h
  cases x; cases y
  simp only [mk.injEq]
  exact ⟨ho, hn⟩

/-- A selection only sees the objects it selects. -/
theorem filter_toList_congr {x y : ObjectIndex α} {p : ℕ × α → Bool}
    (h : ∀ i a, p (i, a) = true → (x.find? i = some a ↔ y.find? i = some a)) :
    x.toList.filter p = y.toList.filter p := by
  have hfilter : (x.objects.filter fun i a ↦ p (i, a)) = y.objects.filter fun i a ↦ p (i, a) := by
    refine FlatMap.ext_find? fun i ↦ Option.ext fun a ↦ ?_
    rw [FlatMap.find?_filter, FlatMap.find?_filter]
    exact and_congr_left (h i a)
  exact congrArg FlatMap.toList hfilter

/-- A projection of the entries only sees the projected lookups. -/
theorem map_toList_congr {x y : ObjectIndex α} {f : α → β}
    (h : ∀ i, (x.find? i).map f = (y.find? i).map f) :
    x.toList.map (Prod.map id f) = y.toList.map (Prod.map id f) := by
  have hsorted (x : ObjectIndex α) :
      (x.toList.map (Prod.map id f)).Pairwise fun a b ↦ a.1 < b.1 :=
    List.pairwise_map.2 x.objects.sorted
  have hfind (x : ObjectIndex α) (i : ℕ) (b : β) :
      (⟨_, hsorted x⟩ : FlatMap ℕ β).find? i = some b ↔ (x.find? i).map f = some b := by
    rw [FlatMap.find?_eq_some_iff, Option.map_eq_some_iff]
    refine List.mem_map.trans ⟨?_, ?_⟩
    · rintro ⟨⟨j, a⟩, ha, hb⟩
      obtain ⟨rfl, rfl⟩ := Prod.mk.inj hb
      exact ⟨a, find?_eq_some_iff.2 ha, rfl⟩
    · rintro ⟨a, ha, rfl⟩
      exact ⟨(i, a), find?_eq_some_iff.1 ha, rfl⟩
  have hmap : (⟨_, hsorted x⟩ : FlatMap ℕ β) = ⟨_, hsorted y⟩ := by
    refine FlatMap.ext_find? fun i ↦ Option.ext fun b ↦ ?_
    rw [hfind, hfind, h]
  exact congrArg FlatMap.toList hmap

theorem mem_orderedBy {x : ObjectIndex α} {r : ℕ × α → ℕ × α → Prop} [DecidableRel r]
    {p : ℕ × α} : p ∈ x.orderedBy r ↔ x.find? p.1 = some p.2 := by
  rw [orderedBy, List.mem_insertionSort, find?_eq_some_iff]

theorem nodup_orderedBy (x : ObjectIndex α) (r : ℕ × α → ℕ × α → Prop) [DecidableRel r] :
    ((x.orderedBy r).map Prod.fst).Nodup :=
  ((List.perm_insertionSort r x.toList).map Prod.fst).nodup_iff.2 x.objects.nodup_fst

/-- The order of a numeric key, with the id to break ties. -/
theorem pairwise_orderedBy (x : ObjectIndex α) (f : α → ℕ) :
    (x.orderedBy fun a b ↦ f a.2 < f b.2 ∨ (f a.2 = f b.2 ∧ a.1 ≤ b.1)).Pairwise
      fun a b ↦ f a.2 < f b.2 ∨ (f a.2 = f b.2 ∧ a.1 ≤ b.1) := by
  let r (a b : ℕ × α) : Prop := f a.2 < f b.2 ∨ (f a.2 = f b.2 ∧ a.1 ≤ b.1)
  have htotal : ∀ s t i j : ℕ, (s < t ∨ (s = t ∧ i ≤ j)) ∨ (t < s ∨ (t = s ∧ j ≤ i)) := by omega
  have htrans : ∀ s t u i j k : ℕ, s < t ∨ (s = t ∧ i ≤ j) → t < u ∨ (t = u ∧ j ≤ k) →
      s < u ∨ (s = u ∧ i ≤ k) := by omega
  have : Std.Total r := ⟨fun a b ↦ htotal _ _ _ _⟩
  have : IsTrans (ℕ × α) r := ⟨fun a b c ↦ htrans _ _ _ _ _ _⟩
  exact List.pairwise_insertionSort r x.toList

/-- The order of a key. -/
theorem pairwise_orderedBy_key {K : Type*} [LinearOrder K] (x : ObjectIndex α) (key : ℕ × α → K) :
    (x.orderedBy fun a b ↦ key a ≤ key b).Pairwise fun a b ↦ key a ≤ key b := by
  have : Std.Total fun a b : ℕ × α ↦ key a ≤ key b := ⟨fun a b ↦ le_total (key a) (key b)⟩
  have : IsTrans (ℕ × α) fun a b ↦ key a ≤ key b := ⟨fun a b c ↦ le_trans⟩
  exact List.pairwise_insertionSort _ x.toList

/-! ### Objects that stay -/

/-- There is an object under the id. -/
def Has (x : ObjectIndex α) (i : ℕ) : Prop := ∃ a, x.find? i = some a

/-- Every object of `x` is still in `y`, with the same `f`. -/
def Keeps (f : α → β) (x y : ObjectIndex α) : Prop :=
  ∀ i a, x.find? i = some a → ∃ b, y.find? i = some b ∧ f b = f a

namespace Keeps

variable {f : α → β} {x y z : ObjectIndex α}

theorem refl (f : α → β) (x : ObjectIndex α) : Keeps f x x := fun _ a h ↦ ⟨a, h, rfl⟩

theorem trans (h : Keeps f x y) (h' : Keeps f y z) : Keeps f x z := by
  intro i a ha
  obtain ⟨b, hb, hab⟩ := h i a ha
  obtain ⟨c, hc, hbc⟩ := h' i b hb
  exact ⟨c, hc, hbc.trans hab⟩

theorem create (f : α → β) (x : ObjectIndex α) (a : α) : Keeps f x (x.create a) :=
  fun _ b hb ↦ ⟨b, find?_create_of_some hb a, rfl⟩

theorem modify (x : ObjectIndex α) (i : ℕ) {g : α → α} (hg : ∀ a, f (g a) = f a) :
    Keeps f x (x.modify i g) := by
  intro j b hb
  rw [find?_modify, hb]
  split_ifs
  · exact ⟨g b, rfl, hg b⟩
  · exact ⟨b, rfl, rfl⟩

theorem set {i : ℕ} {a b : α} (ha : x.find? i = some a) (hab : f b = f a) :
    Keeps f x (x.set i b) := by
  intro j c hc
  rw [find?_set, hc]
  split_ifs with hj
  · have hac : a = c := Option.some.inj (by rw [← ha, ← hc, hj])
    exact ⟨b, rfl, hac ▸ hab⟩
  · exact ⟨c, rfl, rfl⟩

theorem has (h : Keeps f x y) {i : ℕ} (hi : x.Has i) : y.Has i := by
  obtain ⟨a, ha⟩ := hi
  obtain ⟨b, hb, -⟩ := h i a ha
  exact ⟨b, hb⟩

end Keeps

/-! ### Sums -/

section Sum

variable [AddCommMonoid M] (f : α → M)

@[simp] theorem sum_empty : (∅ : ObjectIndex α).sum f = 0 := rfl

theorem sum_create (x : ObjectIndex α) (a : α) : (x.create a).sum f = f a + x.sum f :=
  FlatMap.sum_insert_of_find?_none _ x.find?_nextId a

/-- An object's contribution splits off a sum. -/
theorem sum_eq_add_remove {x : ObjectIndex α} {i : ℕ} {a : α} (h : x.find? i = some a) :
    x.sum f = f a + (x.remove i).sum f :=
  FlatMap.sum_eq_add_erase _ h

theorem sum_modify {x : ObjectIndex α} {i : ℕ} {a : α} (h : x.find? i = some a) (g : α → α) :
    (x.modify i g).sum f = f (g a) + (x.remove i).sum f :=
  FlatMap.sum_modify _ h g

theorem sum_set {x : ObjectIndex α} {i : ℕ} {a : α} (h : x.find? i = some a) (b : α) :
    (x.set i b).sum f = f b + (x.remove i).sum f :=
  sum_modify f h _

/-- Sums agree when the summands agree on the objects. -/
theorem sum_congr {x : ObjectIndex α} {f g : α → M} (h : ∀ i a, x.find? i = some a → f a = g a) :
    x.sum f = x.sum g :=
  FlatMap.sum_congr h

/-- Modifying an object without changing its summand keeps the sum. -/
theorem sum_modify_eq {x : ObjectIndex α} {i : ℕ} {g : α → α}
    (h : ∀ a, x.find? i = some a → f (g a) = f a) : (x.modify i g).sum f = x.sum f := by
  rcases hx : x.find? i with - | a
  · have : x.modify i g = x := ext_find? (fun j ↦ by
      rw [find?_modify]
      split_ifs with hj
      · rw [hj, hx]; rfl
      · rfl) rfl
    rw [this]
  · rw [sum_modify f hx, h a hx, ← sum_eq_add_remove f hx]

end Sum

end ObjectIndex
