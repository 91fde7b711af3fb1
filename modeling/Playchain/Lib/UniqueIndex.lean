import Playchain.Lib.ObjectIndex

/-!
# Indices with a unique key

An `ObjectIndex` in which **no two objects share a key**. The uniqueness is a field, so an index
that violates it cannot be built, and every mutation either keeps the key of the object it touches
(`modify`, `remove`) or checks it first (`create?`, `modify?`).

A mutation is described by what it does to the underlying `ObjectIndex`; the lookup and sum lemmas
of that type then apply.
-/

variable {α κ : Type*}

/-- Objects under numeric ids with pairwise different keys. -/
structure UniqueIndex (key : α → κ) extends ObjectIndex α where
  /-- Objects with the same key have the same id. -/
  unique : ∀ {i j : ℕ} {a b : α}, toObjectIndex.find? i = some a →
    toObjectIndex.find? j = some b → key a = key b → i = j

namespace UniqueIndex

variable {key : α → κ}

/-- The index without objects. -/
def empty : UniqueIndex key := ⟨∅, fun h ↦ by simp at h⟩

instance : EmptyCollection (UniqueIndex key) := ⟨empty⟩

@[simp] theorem toObjectIndex_empty : (∅ : UniqueIndex key).toObjectIndex = ∅ := rfl

theorem ext_toObjectIndex {x y : UniqueIndex key} (h : x.toObjectIndex = y.toObjectIndex) :
    x = y := by
  cases x; cases y; simpa using h

/-- Remove the object with an id, if there is one. -/
def remove (x : UniqueIndex key) (i : ℕ) : UniqueIndex key where
  toObjectIndex := x.toObjectIndex.remove i
  unique ha hb h :=
    x.unique (ObjectIndex.find?_of_find?_remove ha).2 (ObjectIndex.find?_of_find?_remove hb).2 h

@[simp] theorem toObjectIndex_remove (x : UniqueIndex key) (i : ℕ) :
    (x.remove i).toObjectIndex = x.toObjectIndex.remove i := rfl

/-- Apply a function that keeps the key to the object with an id. -/
def modify (x : UniqueIndex key) (i : ℕ) (g : α → α)
    (hg : ∀ a, key (g a) = key a := by intro _; rfl) : UniqueIndex key where
  toObjectIndex := x.toObjectIndex.modify i g
  unique {j k a b} ha hb h := by
    -- every object of the new index has the key of the old object under the same id
    have hold : ∀ {n c}, (x.toObjectIndex.modify i g).find? n = some c →
        ∃ c', x.toObjectIndex.find? n = some c' ∧ key c' = key c := by
      intro n c hc
      rw [ObjectIndex.find?_modify] at hc
      split_ifs at hc with hn
      · obtain ⟨c', hc', rfl⟩ := Option.map_eq_some_iff.1 hc
        exact ⟨c', hc', (hg c').symm⟩
      · exact ⟨c, hc, rfl⟩
    obtain ⟨a', ha', hka⟩ := hold ha
    obtain ⟨b', hb', hkb⟩ := hold hb
    exact x.unique ha' hb' (by rw [hka, hkb, h])

@[simp] theorem toObjectIndex_modify (x : UniqueIndex key) (i : ℕ) (g : α → α)
    (hg : ∀ a, key (g a) = key a) :
    (x.modify i g hg).toObjectIndex = x.toObjectIndex.modify i g := rfl

variable [DecidableEq κ]

/-- The entry with a key. -/
def findKey? (x : UniqueIndex key) (k : κ) : Option (ℕ × α) :=
  x.toList.find? fun p ↦ decide (key p.2 = k)

theorem findKey?_eq_some_iff {x : UniqueIndex key} {k : κ} {p : ℕ × α} :
    x.findKey? k = some p ↔ x.find? p.1 = some p.2 ∧ key p.2 = k := by
  constructor
  · intro h
    refine ⟨ObjectIndex.find?_eq_some_iff.2 (List.mem_of_find?_eq_some h), ?_⟩
    simpa using List.find?_some h
  · rintro ⟨hp, hk⟩
    rcases hq : x.findKey? k with - | q
    · have := List.find?_eq_none.1 hq p (ObjectIndex.find?_eq_some_iff.1 hp)
      simp [hk] at this
    · have hqx : x.find? q.1 = some q.2 :=
        ObjectIndex.find?_eq_some_iff.2 (List.mem_of_find?_eq_some hq)
      have hqk : key q.2 = k := by simpa using List.find?_some hq
      have hid : q.1 = p.1 := x.unique hqx hp (hqk.trans hk.symm)
      have hval : q.2 = p.2 := Option.some.inj (by rw [← hqx, ← hp, hid])
      rw [Prod.ext hid hval]

theorem findKey?_eq_none_iff {x : UniqueIndex key} {k : κ} :
    x.findKey? k = none ↔ ∀ i a, x.find? i = some a → key a ≠ k := by
  constructor
  · intro h i a ha hk
    have : x.findKey? k = some (i, a) := findKey?_eq_some_iff.2 ⟨ha, hk⟩
    rw [h] at this
    cases this
  · intro h
    rcases hq : x.findKey? k with - | q
    · rfl
    · obtain ⟨hq', hk⟩ := findKey?_eq_some_iff.1 hq
      exact absurd hk (h q.1 q.2 hq')

/-- Lookups by key only see the underlying objects. -/
theorem findKey?_congr {x y : UniqueIndex key} (h : ∀ i, x.find? i = y.find? i) (k : κ) :
    x.findKey? k = y.findKey? k := by
  refine Option.ext fun p ↦ ?_
  rw [findKey?_eq_some_iff, findKey?_eq_some_iff, h]

/-- The key of a removed object is free. -/
theorem findKey?_remove_self {x : UniqueIndex key} {i : ℕ} {a : α} (h : x.find? i = some a) :
    (x.remove i).findKey? (key a) = none := by
  refine findKey?_eq_none_iff.2 fun j b hb hkey ↦ ?_
  obtain ⟨hne, hb'⟩ := ObjectIndex.find?_of_find?_remove hb
  exact hne (x.unique hb' h hkey)

/-- Objects that stay with their key are still found by it. -/
theorem findKey?_of_keeps {x y : UniqueIndex key}
    (h : ObjectIndex.Keeps key x.toObjectIndex y.toObjectIndex) {k : κ} {p : ℕ × α}
    (hp : x.findKey? k = some p) : ∃ b, y.findKey? k = some (p.1, b) := by
  obtain ⟨hfind, hk⟩ := findKey?_eq_some_iff.1 hp
  obtain ⟨b, hb, hkb⟩ := h _ _ hfind
  exact ⟨b, findKey?_eq_some_iff.2 ⟨hb, hkb.trans hk⟩⟩

/-- A key that is in use stays in use. -/
theorem findKey?_ne_none_of_keeps {x y : UniqueIndex key}
    (h : ObjectIndex.Keeps key x.toObjectIndex y.toObjectIndex) {k : κ} (hk : x.findKey? k ≠ none) :
    y.findKey? k ≠ none := by
  obtain ⟨⟨i, a⟩, ha⟩ := Option.ne_none_iff_exists'.1 hk
  obtain ⟨b, hb⟩ := findKey?_of_keeps h ha
  rw [hb]
  exact Option.some_ne_none _

/-- A new object is found by its key. -/
theorem findKey?_of_create {x y : UniqueIndex key} {a : α}
    (h : y.toObjectIndex = x.toObjectIndex.create a) : y.findKey? (key a) = some (x.nextId, a) := by
  refine findKey?_eq_some_iff.2 ⟨?_, rfl⟩
  rw [h, ObjectIndex.find?_create, if_pos rfl]

/-- An update that keeps keys keeps the ids of the keys. -/
theorem map_fst_findKey?_modify (x : UniqueIndex key) (i : ℕ) {g : α → α}
    (hg : ∀ a, key (g a) = key a) (k : κ) :
    ((x.modify i g hg).findKey? k).map Prod.fst = (x.findKey? k).map Prod.fst := by
  rcases hp : x.findKey? k with - | p
  · have hnone : (x.modify i g hg).findKey? k = none := by
      rw [findKey?_eq_none_iff] at hp ⊢
      intro j a ha
      rw [toObjectIndex_modify, ObjectIndex.find?_modify] at ha
      split_ifs at ha
      · obtain ⟨b, hb, rfl⟩ := Option.map_eq_some_iff.1 ha
        rw [hg]
        exact hp j b hb
      · exact hp j a ha
    rw [hnone]
  · obtain ⟨b, hb⟩ := findKey?_of_keeps (y := x.modify i g hg)
      (ObjectIndex.Keeps.modify x.toObjectIndex i hg) hp
    rw [hb]
    rfl

/-- Add an object under the next id, unless its key is in use. -/
def create? (x : UniqueIndex key) (a : α) : Option (UniqueIndex key) :=
  if h : x.findKey? (key a) = none then
    some
      { toObjectIndex := x.toObjectIndex.create a
        unique := by
          have hfree := findKey?_eq_none_iff.1 h
          intro j k b c hb hc hk
          rw [ObjectIndex.find?_create] at hb hc
          split_ifs at hb hc with hj hk'
          · rw [hj, hk']
          · exact absurd (hk.symm.trans (by rw [← Option.some.inj hb])) (hfree k c hc)
          · exact absurd (hk.trans (by rw [← Option.some.inj hc])) (hfree j b hb)
          · exact x.unique hb hc hk }
  else none

theorem create?_eq_some {x y : UniqueIndex key} {a : α} (h : x.create? a = some y) :
    x.findKey? (key a) = none ∧ y.toObjectIndex = x.toObjectIndex.create a := by
  rw [create?] at h
  split_ifs at h with hk
  exact ⟨hk, by rw [← Option.some.inj h]⟩

theorem exists_create? {x : UniqueIndex key} {a : α} (h : x.findKey? (key a) = none) :
    ∃ y, x.create? a = some y ∧ y.toObjectIndex = x.toObjectIndex.create a :=
  ⟨_, dif_pos h, rfl⟩

/-- Apply a function to the object with an id, unless the new key is in use by another object. -/
def modify? (x : UniqueIndex key) (i : ℕ) (g : α → α) : Option (UniqueIndex key) :=
  if h : ∀ p ∈ x.toList, ∀ q ∈ x.toList, p.1 = i → q.1 ≠ i → key (g p.2) ≠ key q.2 then
    some
      { toObjectIndex := x.toObjectIndex.modify i g
        unique := by
          have hfree : ∀ {a b : α} {j : ℕ}, x.find? i = some a → x.find? j = some b → j ≠ i →
              key (g a) ≠ key b := fun {a b j} ha hb hj ↦
            h (i, a) (ObjectIndex.find?_eq_some_iff.1 ha) (j, b) (ObjectIndex.find?_eq_some_iff.1 hb)
              rfl hj
          intro j k b c hb hc hk
          rw [ObjectIndex.find?_modify] at hb hc
          split_ifs at hb hc with hj hk'
          · rw [hj, hk']
          · obtain ⟨b', hb', rfl⟩ := Option.map_eq_some_iff.1 hb
            exact absurd hk (hfree (hj ▸ hb') hc hk')
          · rename_i hk'
            obtain ⟨c', hc', rfl⟩ := Option.map_eq_some_iff.1 hc
            exact absurd hk.symm (hfree (hk' ▸ hc') hb hj)
          · exact x.unique hb hc hk }
  else none

theorem modify?_eq_some {x y : UniqueIndex key} {i : ℕ} {g : α → α} (h : x.modify? i g = some y) :
    y.toObjectIndex = x.toObjectIndex.modify i g := by
  rw [modify?] at h
  split_ifs at h
  rw [← Option.some.inj h]

end UniqueIndex
