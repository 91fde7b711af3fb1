import Playchain.Db.UndoDatabase
import Playchain.Lib.Control

/-!
# Undoing a session

A record *tracks* what a session does to every object: it is new, updated, deleted or as it was
(`Recorded`). Calls, and the merge of a session into another one, keep this.

Undoing restores the objects of the start of the session, unless an old value collides on the way with
an object that the session has created or modified: the old values are restored one by one, while the
new objects are still there (`undo_completes_iff`).
-/

namespace Playchain

/-! ### The objects -/

section Objects

variable {ι σ α β : Type*} [LinearOrder ι] [UniqueKeys α] {d : ObjectDatabase ι σ α β} {i : ι} {a : α}

theorem admits_iff : d.admits i a = true ↔
    ∀ j b, d.objects.find? j = some b → j ≠ i → UniqueKeys.collide b a = false := by
  rw [ObjectDatabase.admits, List.all_eq_true]
  constructor
  · intro h j b hb hne
    have := h (j, b) (FlatMap.find?_eq_some_iff.1 hb)
    simpa [hne] using this
  · intro h p hp
    by_cases hne : p.1 = i
    · simp [hne]
    · simp [hne, h p.1 p.2 (FlatMap.find?_eq_some_iff.2 hp) hne]

variable [ObjectIds ι σ]

/-- Objects have unique keys, and ids in use are below the next one. -/
structure ObjectDatabase.Valid (d : ObjectDatabase ι σ α β) : Prop where
  unique : ∀ i j a b, d.objects.find? i = some a → d.objects.find? j = some b → i ≠ j →
    UniqueKeys.collide a b = false
  lt_nextId : ∀ s n a, d.objects.find? (ObjectIds.objectId s n) = some a → n < d.nextId s

namespace ObjectDatabase.Valid

/-- An object that is admitted takes its place in the database. -/
theorem insert (hd : d.Valid) (hadmits : d.admits i a = true) {next : σ → ℕ}
    (hle : ∀ s, d.nextId s ≤ next s) (hlt : ∀ s n, ObjectIds.objectId s n = i → n < next s)
    (secondary : β) : Valid ⟨d.objects.insert i a, next, secondary⟩ where
  unique j k b c hb hc hne := by
    rw [FlatMap.find?_insert] at hb hc
    rw [admits_iff] at hadmits
    split_ifs at hb hc with hj hk hk
    · exact absurd (hj.trans hk.symm) hne
    · obtain rfl := Option.some.inj hb
      rw [UniqueKeys.collide_comm]
      exact hadmits k c hc hk
    · obtain rfl := Option.some.inj hc
      exact hadmits j b hb hj
    · exact hd.unique j k b c hb hc hne
  lt_nextId s n b hb := by
    rw [FlatMap.find?_insert] at hb
    split_ifs at hb with hi
    · exact hlt s n hi
    · exact (hd.lt_nextId s n b hb).trans_le (hle s)

theorem erase (hd : d.Valid) (i : ι) (secondary : β) :
    Valid ⟨d.objects.erase i, d.nextId, secondary⟩ where
  unique j k b c hb hc hne := by
    rw [FlatMap.find?_erase] at hb hc
    split_ifs at hb hc
    exact hd.unique j k b c hb hc hne
  lt_nextId s n b hb := by
    rw [FlatMap.find?_erase] at hb
    split_ifs at hb
    exact hd.lt_nextId s n b hb

end ObjectDatabase.Valid

end Objects

/-! ### Entries

What a record holds for one object. The functions on records act on each entry for itself. -/

/-- The entries of a record for one object. -/
structure Entry (α : Type*) where
  /-- The object is new. -/
  new : Bool
  /-- Its old value. -/
  old : Option α
  /-- Its value before it was removed. -/
  removed : Option α

/-- What an entry says about an object with some values before and after: it is created, updated,
deleted, or as it was. -/
inductive Tracked {α : Type*} : Entry α → Option α → Option α → Prop
  | created (b : α) : Tracked ⟨true, none, none⟩ none (some b)
  | updated (a b : α) : Tracked ⟨false, some a, none⟩ (some a) (some b)
  | deleted (a : α) : Tracked ⟨false, none, some a⟩ (some a) none
  | kept (x : Option α) : Tracked ⟨false, none, none⟩ x x

namespace Entry

variable {α : Type*} {e f : Entry α} {x y z : Option α}

/-- The entry after a modification. -/
def onModify (e : Entry α) (a : α) : Entry α :=
  if e.new then e else if e.old.isSome then e else { e with old := some a }

/-- The entry after a removal. -/
def onRemove (e : Entry α) (a : α) : Entry α :=
  if e.new then { e with new := false }
  else
    match e.old with
    | some old => { e with removed := some old, old := none }
    | none => if e.removed.isSome then e else { e with removed := some a }

/-- The entry after the merge of a removal. -/
def mergeRemoved (e : Entry α) (a : α) : Entry α :=
  if e.new then { e with new := false }
  else
    match e.old with
    | some old => { e with removed := some old, old := none }
    | none => { e with removed := some a }

/-- The merge of two entries. -/
def merge (e f : Entry α) : Entry α :=
  let e := f.old.elim e e.onModify
  let e := { e with new := e.new || f.new }
  f.removed.elim e e.mergeRemoved

theorem onRemove_new (e : Entry α) (a : α) : (e.onRemove a).new = false := by
  obtain ⟨new, old, removed⟩ := e
  cases new <;> cases old <;> cases removed <;> rfl

theorem new_of_merge (h : (e.merge f).new = true) : e.new = true ∨ f.new = true := by
  obtain ⟨new, old, removed⟩ := e
  obtain ⟨new', old', removed'⟩ := f
  cases new with
  | true => exact .inl rfl
  | false =>
    cases new' with
    | true => exact .inr rfl
    | false => cases old <;> cases old' <;> cases removed' <;> cases h

theorem tracked_create (h : Tracked e none none) (b : α) :
    Tracked { e with new := true } none (some b) := by
  cases h
  exact .created b

theorem tracked_modify {a : α} (h : Tracked e x (some a)) (b : α) :
    Tracked (e.onModify a) x (some b) := by
  cases h with
  | created => exact .created b
  | updated a₀ => exact .updated a₀ b
  | kept => exact .updated a b

theorem tracked_remove {a : α} (h : Tracked e x (some a)) : Tracked (e.onRemove a) x none := by
  cases h with
  | created => exact .kept none
  | updated a₀ => exact .deleted a₀
  | kept => exact .deleted a

/-- **Merging tracks the composition**: the cases of the second session within each case of the
first. The second session does not create what was there before the first. -/
theorem tracked_merge (h : Tracked e x y) (h' : Tracked f y z) (hfresh : f.new = true → x = none) :
    Tracked (e.merge f) x z := by
  cases h with
  | created b =>
    cases h' with
    | updated _ c => exact .created c
    | deleted => exact .kept none
    | kept => exact .created b
  | updated a b =>
    cases h' with
    | updated _ c => exact .updated a c
    | deleted => exact .deleted a
    | kept => exact .updated a b
  | deleted a =>
    cases h' with
    | created b => cases hfresh rfl
    | kept => exact .deleted a
  | kept =>
    cases h' with
    | created b => exact .created b
    | updated a b => exact .updated a b
    | deleted a => exact .deleted a
    | kept => exact .kept _

end Entry

section Entries

variable {ι σ α : Type*} [LinearOrder ι] [LinearOrder σ] {st prev : UndoState ι σ α} {i j : ι} {a : α}

/-- The entry of a record for an object. -/
def UndoState.entry (st : UndoState ι σ α) (i : ι) : Entry α :=
  ⟨st.newIds.contains i, st.oldValues.find? i, st.removed.find? i⟩

theorem contains_insert {κ γ : Type*} [LinearOrder κ] (m : FlatMap κ γ) (k : κ) (v : γ) (j : κ) :
    (m.insert k v).contains j = if j = k then true else m.contains j := by
  rw [FlatMap.contains, FlatMap.find?_insert]
  split_ifs
  · rfl
  · rfl

theorem contains_erase {κ γ : Type*} [LinearOrder κ] (m : FlatMap κ γ) (k j : κ) :
    (m.erase k).contains j = if j = k then false else m.contains j := by
  rw [FlatMap.contains, FlatMap.find?_erase]
  split_ifs
  · rfl
  · rfl

theorem entry_onCreate [ObjectIds ι σ] (st : UndoState ι σ α) (s : σ) (n : ℕ) (i : ι) :
    (st.onCreate s n).entry i =
      if i = ObjectIds.objectId s n then { st.entry i with new := true } else st.entry i := by
  rw [UndoState.entry, UndoState.onCreate]
  dsimp only
  rw [FlatSet.add, contains_insert]
  split_ifs
  · rfl
  · rfl

theorem entry_onModify (st : UndoState ι σ α) (i : ι) (a : α) (j : ι) :
    (st.onModify i a).entry j = if j = i then (st.entry j).onModify a else st.entry j := by
  rw [UndoState.onModify]
  by_cases hnew : st.newIds.contains i = true
  · rw [if_pos hnew]
    split_ifs with hj
    · rw [Entry.onModify, if_pos (hj ▸ hnew)]
    · rfl
  · rw [if_neg hnew]
    by_cases hold : st.oldValues.contains i = true
    · rw [if_pos hold]
      split_ifs with hj
      · rw [Entry.onModify, if_neg (hj ▸ hnew), if_pos (hj ▸ hold)]
      · rfl
    · rw [if_neg hold, UndoState.entry]
      dsimp only
      rw [FlatMap.find?_insert]
      split_ifs with hj
      · rw [Entry.onModify, if_neg (hj ▸ hnew), if_neg (hj ▸ hold)]
        rfl
      · rfl

/-- The entry of an object that is not new, by its old value. -/
theorem entry_eq (hnew : ¬st.newIds.contains i = true) {old : Option α}
    (hold : st.oldValues.find? i = old) : st.entry i = ⟨false, old, st.removed.find? i⟩ := by
  rw [UndoState.entry, hold, Bool.eq_false_iff.2 hnew]

theorem entry_onRemove (st : UndoState ι σ α) (i : ι) (a : α) (j : ι) :
    (st.onRemove i a).entry j = if j = i then (st.entry j).onRemove a else st.entry j := by
  rw [UndoState.onRemove]
  by_cases hnew : st.newIds.contains i = true
  · rw [if_pos hnew, UndoState.entry]
    dsimp only
    rw [contains_erase]
    split_ifs with hj
    · rw [Entry.onRemove, if_pos (hj ▸ hnew)]
      rfl
    · rfl
  · rw [if_neg hnew]
    rcases hold : st.oldValues.find? i with - | old
    · dsimp only
      by_cases hremoved : st.removed.contains i = true
      · rw [if_pos hremoved]
        split_ifs with hj
        · subst hj
          rw [entry_eq hnew hold]
          exact (if_pos hremoved).symm
        · rfl
      · rw [if_neg hremoved]
        split_ifs with hj
        · subst hj
          rw [entry_eq hnew hold, UndoState.entry]
          dsimp only
          rw [FlatMap.find?_insert_self, hold, Bool.eq_false_iff.2 hnew]
          exact (if_neg hremoved).symm
        · rw [UndoState.entry, FlatMap.find?_insert_of_ne _ _ hj]
          rfl
    · dsimp only
      split_ifs with hj
      · subst hj
        rw [entry_eq hnew hold, UndoState.entry]
        dsimp only
        rw [FlatMap.find?_insert_self, FlatMap.find?_erase_self, Bool.eq_false_iff.2 hnew]
        rfl
      · rw [UndoState.entry, FlatMap.find?_insert_of_ne _ _ hj, FlatMap.find?_erase_of_ne _ hj]
        rfl

theorem entry_mergeRemoved (st : UndoState ι σ α) (p : ι × α) (j : ι) :
    (st.mergeRemoved p).entry j =
      if j = p.1 then (st.entry j).mergeRemoved p.2 else st.entry j := by
  rw [UndoState.mergeRemoved]
  by_cases hnew : st.newIds.contains p.1 = true
  · rw [if_pos hnew, UndoState.entry]
    dsimp only
    rw [contains_erase]
    split_ifs with hj
    · rw [Entry.mergeRemoved, if_pos (hj ▸ hnew)]
      rfl
    · rfl
  · rw [if_neg hnew]
    rcases hold : st.oldValues.find? p.1 with - | old
    · dsimp only
      split_ifs with hj
      · subst hj
        rw [entry_eq hnew hold, UndoState.entry]
        dsimp only
        rw [FlatMap.find?_insert_self, hold, Bool.eq_false_iff.2 hnew]
        rfl
      · rw [UndoState.entry, FlatMap.find?_insert_of_ne _ _ hj]
        rfl
    · dsimp only
      split_ifs with hj
      · subst hj
        rw [entry_eq hnew hold, UndoState.entry]
        dsimp only
        rw [FlatMap.find?_insert_self, FlatMap.find?_erase_self, Bool.eq_false_iff.2 hnew]
        rfl
      · rw [UndoState.entry, FlatMap.find?_insert_of_ne _ _ hj, FlatMap.find?_erase_of_ne _ hj]
        rfl

/-- A walk over the entries of a map, each of which acts on the record's entry for its own key. -/
theorem entry_foldl {g : UndoState ι σ α → ι × α → UndoState ι σ α} {h : Entry α → α → Entry α}
    (hg : ∀ st p j, (g st p).entry j = if j = p.1 then h (st.entry j) p.2 else st.entry j)
    (m : FlatMap ι α) (st : UndoState ι σ α) (j : ι) :
    (m.toList.foldl g st).entry j = (m.find? j).elim (st.entry j) (h (st.entry j)) := by
  refine FlatMap.foldl_at (fun st : UndoState ι σ α ↦ st.entry j) j (fun st a ↦ ?_) (fun st p hp ↦ ?_) m st
  · rw [hg, if_pos rfl]
  · rw [hg, if_neg fun heq ↦ hp heq.symm]

/-- **Merging records merges their entries.** -/
theorem entry_merge (prev st : UndoState ι σ α) (i : ι) :
    (prev.merge st).entry i = (prev.entry i).merge (st.entry i) := by
  have hnext : ∀ (l : List (σ × ℕ)) (st : UndoState ι σ α),
      (l.foldl UndoState.mergeNextId st).entry i = st.entry i := by
    intro l
    induction l with
    | nil => exact fun _ ↦ rfl
    | cons p l ih =>
      intro st
      rw [List.foldl_cons, ih, UndoState.mergeNextId]
      split_ifs
      · rfl
      · rfl
  have hnew : ∀ (s : FlatSet ι), (st.newIds.elements.foldl FlatSet.add s).contains i =
      (s.contains i || st.newIds.contains i) := by
    intro s
    rw [Bool.eq_iff_iff, Bool.or_eq_true, FlatMap.contains_iff, FlatMap.contains_iff,
      FlatMap.contains_iff, FlatSet.mem_keys_foldl_add, FlatSet.mem_elements]
  -- the loop over the modified objects does what a modification does
  have hold : (st.oldValues.toList.foldl UndoState.mergeOldValue prev).entry i =
      (st.oldValues.find? i).elim (prev.entry i) (prev.entry i).onModify :=
    entry_foldl (fun st p j ↦ entry_onModify st p.1 p.2 j) st.oldValues prev i
  have hadded (e : UndoState ι σ α) :
      UndoState.entry { e with newIds := st.newIds.elements.foldl FlatSet.add e.newIds } i =
        { e.entry i with new := (e.entry i).new || st.newIds.contains i } := by
    rw [UndoState.entry, hnew]
    rfl
  rw [UndoState.merge, entry_foldl entry_mergeRemoved, hnext, hadded, hold]
  rfl

/-- The next ids of a merged record are those of the first session that created an object. -/
theorem nextIds_merge (prev st : UndoState ι σ α) (s : σ) :
    (prev.merge st).oldIndexNextIds.find? s =
      (prev.oldIndexNextIds.find? s).or (st.oldIndexNextIds.find? s) := by
  have hold : ∀ (l : List (ι × α)) (e : UndoState ι σ α),
      (l.foldl UndoState.mergeOldValue e).oldIndexNextIds = e.oldIndexNextIds := by
    intro l
    induction l with
    | nil => exact fun _ ↦ rfl
    | cons p l ih =>
      intro e
      rw [List.foldl_cons, ih, UndoState.mergeOldValue]
      split_ifs <;> rfl
  have hremoved : ∀ (l : List (ι × α)) (e : UndoState ι σ α),
      (l.foldl UndoState.mergeRemoved e).oldIndexNextIds = e.oldIndexNextIds := by
    intro l
    induction l with
    | nil => exact fun _ ↦ rfl
    | cons p l ih =>
      intro e
      rw [List.foldl_cons, ih, UndoState.mergeRemoved]
      split_ifs
      · rfl
      · split <;> rfl
  have hnext := FlatMap.foldl_at (fun e : UndoState ι σ α ↦ e.oldIndexNextIds.find? s) s
    (g := UndoState.mergeNextId) (h := fun x n ↦ x.or (some n)) (fun e n ↦ ?_) (fun e p hp ↦ ?_)
    st.oldIndexNextIds
  · rw [UndoState.merge, hremoved, hnext, hold]
    cases st.oldIndexNextIds.find? s with
    | none => exact (Option.or_none).symm
    | some n => rfl
  · rw [UndoState.mergeNextId]
    rcases hfind : e.oldIndexNextIds.find? s with - | m
    · rw [if_neg (Bool.eq_false_iff.1 (FlatMap.contains_eq_false_iff.2 hfind)),
        FlatMap.find?_insert_self]
      rfl
    · rw [if_pos (FlatMap.contains_iff.2 (FlatMap.mem_keys.2 ⟨m, hfind⟩)), hfind]
      rfl
  · rw [UndoState.mergeNextId]
    split_ifs
    · rfl
    · exact FlatMap.find?_insert_of_ne _ _ fun heq ↦ hp heq.symm

end Entries

/-! ### Records -/

section Records

variable {ι σ α β : Type*} [LinearOrder ι] [LinearOrder σ] [UniqueKeys α] [ObjectIds ι σ]
  {d d' d₀ d₁ : ObjectDatabase ι σ α β} {st prev : UndoState ι σ α} {i : ι} {a b : α}

/-- The record tracks every object from the start of a session on. -/
structure Recorded (d₀ d : ObjectDatabase ι σ α β) (st : UndoState ι σ α) : Prop where
  before : d₀.Valid
  after : d.Valid
  tracked : ∀ i, Tracked (st.entry i) (d₀.objects.find? i) (d.objects.find? i)
  /-- New objects have new ids. -/
  fresh : ∀ i, st.newIds.contains i = true → ∃ s n, i = ObjectIds.objectId s n ∧ d₀.nextId s ≤ n
  nextId : ∀ s, d₀.nextId s = (st.oldIndexNextIds.find? s).getD (d.nextId s)
  nextId_le : ∀ s, d₀.nextId s ≤ d.nextId s

namespace Recorded

theorem start (h : d.Valid) : Recorded d d ({} : UndoState ι σ α) where
  before := h
  after := h
  tracked i := .kept (d.objects.find? i)
  fresh _ hnew := by cases hnew
  nextId _ := rfl
  nextId_le _ := le_rfl

/-- **A merged record tracks both sessions.** -/
theorem merge (h : Recorded d₀ d₁ prev) (h' : Recorded d₁ d st) : Recorded d₀ d (prev.merge st) where
  before := h.before
  after := h'.after
  tracked i := by
    rw [entry_merge]
    refine Entry.tracked_merge (h.tracked i) (h'.tracked i) fun hnew ↦ ?_
    obtain ⟨s, n, rfl, hle⟩ := h'.fresh i hnew
    rcases hx : d₀.objects.find? (ObjectIds.objectId s n) with - | x
    · rfl
    · exact absurd (h.before.lt_nextId s n x hx) (not_lt_of_ge ((h.nextId_le s).trans hle))
  fresh i hnew := by
    have hentry : ((prev.merge st).entry i).new = true := hnew
    rw [entry_merge] at hentry
    rcases Entry.new_of_merge hentry with hnew | hnew
    · exact h.fresh i hnew
    · obtain ⟨s, n, rfl, hle⟩ := h'.fresh i hnew
      exact ⟨s, n, rfl, (h.nextId_le s).trans hle⟩
  nextId s := by
    rw [nextIds_merge, h.nextId, h'.nextId]
    cases prev.oldIndexNextIds.find? s <;> rfl
  nextId_le s := (h.nextId_le s).trans (h'.nextId_le s)

variable [SecondaryIndex ι α β]

/-- A new object. -/
theorem create (h : Recorded d₀ d st) {s : σ} (hd' : d.create s a = some d') :
    Recorded d₀ d' (st.onCreate s (d.nextId s)) := by
  rw [ObjectDatabase.create, ObjectDatabase.insert] at hd'
  split_ifs at hd' with hinsert
  · obtain ⟨hfree, hadmits⟩ := hinsert
    obtain rfl := Option.some.inj hd'
    have hnone : d.objects.find? (ObjectIds.objectId s (d.nextId s)) = none :=
      FlatMap.contains_eq_false_iff.1 hfree
    have hbefore : d₀.objects.find? (ObjectIds.objectId s (d.nextId s)) = none := by
      rcases hx : d₀.objects.find? (ObjectIds.objectId s (d.nextId s)) with - | x
      · rfl
      · exact absurd (h.nextId_le s) (not_le_of_gt (h.before.lt_nextId s _ x hx))
    have hle : ∀ s', d.nextId s' ≤ Function.update d.nextId s (d.nextId s + 1) s' := fun s' ↦ by
      rw [Function.update_apply]
      split_ifs with hs
      · rw [hs]
        exact Nat.le_succ _
      · exact le_rfl
    refine ⟨h.before, h.after.insert hadmits hle (fun s' n hid ↦ ?_) _, fun j ↦ ?_, fun j hnew ↦ ?_,
      fun s' ↦ ?_, fun s' ↦ (h.nextId_le s').trans (hle s')⟩
    · obtain ⟨rfl, rfl⟩ := ObjectIds.objectId_inj hid
      rw [Function.update_self]
      exact Nat.lt_succ_self _
    · rw [entry_onCreate, FlatMap.find?_insert]
      split_ifs with hj
      · have htracked := h.tracked j
        rw [hj, hnone, hbefore] at htracked
        rw [hj, hbefore]
        exact Entry.tracked_create htracked a
      · exact h.tracked j
    · rw [UndoState.onCreate, FlatSet.add, contains_insert] at hnew
      split_ifs at hnew with hj
      · exact ⟨s, d.nextId s, hj, h.nextId_le s⟩
      · exact h.fresh j hnew
    · have hnext := h.nextId s'
      dsimp only [UndoState.onCreate]
      by_cases hs : s' = s
      · subst hs
        rcases hfind : st.oldIndexNextIds.find? s' with - | n
        · rw [if_neg (Bool.eq_false_iff.1 (FlatMap.contains_eq_false_iff.2 hfind)),
            FlatMap.find?_insert_self]
          rw [hfind] at hnext
          exact hnext
        · rw [if_pos (FlatMap.contains_iff.2 (FlatMap.mem_keys.2 ⟨n, hfind⟩)), hfind]
          rw [hfind] at hnext
          exact hnext
      · rw [Function.update_of_ne hs]
        split_ifs
        · exact hnext
        · rw [FlatMap.find?_insert_of_ne _ _ hs]
          exact hnext
  · cases hd'

/-- An object changes. -/
theorem modify (h : Recorded d₀ d st) (hi : d.objects.find? i = some a)
    (hd' : d.modify i a b = .ok d') : Recorded d₀ d' (st.onModify i a) := by
  rw [ObjectDatabase.modify] at hd'
  split_ifs at hd' with hadmits
  obtain rfl := Except.ok.inj hd'
  refine ⟨h.before, h.after.insert hadmits (fun _ ↦ le_rfl) (fun s n hid ↦ ?_) _, fun j ↦ ?_,
    fun j hnew ↦ ?_, fun s ↦ ?_, h.nextId_le⟩
  · exact h.after.lt_nextId s n a (hid.symm ▸ hi)
  · rw [entry_onModify, FlatMap.find?_insert]
    split_ifs with hj
    · subst hj
      exact Entry.tracked_modify (hi ▸ h.tracked j) b
    · exact h.tracked j
  · refine h.fresh j ?_
    rw [UndoState.onModify] at hnew
    split_ifs at hnew
    · exact hnew
    · exact hnew
    · exact hnew
  · rw [UndoState.onModify]
    split_ifs
    · exact h.nextId s
    · exact h.nextId s
    · exact h.nextId s

/-- An object goes. -/
theorem remove (h : Recorded d₀ d st) (hi : d.objects.find? i = some a) :
    Recorded d₀ (d.remove i a) (st.onRemove i a) := by
  have hsame : (st.onRemove i a).oldIndexNextIds = st.oldIndexNextIds := by
    rw [UndoState.onRemove]
    split_ifs
    · rfl
    all_goals split <;> rfl
  refine ⟨h.before, h.after.erase i _, fun j ↦ ?_, fun j hnew ↦ ?_, fun s ↦ ?_, h.nextId_le⟩
  · dsimp only [ObjectDatabase.remove]
    rw [entry_onRemove, FlatMap.find?_erase]
    split_ifs with hj
    · subst hj
      exact Entry.tracked_remove (hi ▸ h.tracked j)
    · exact h.tracked j
  · have hentry : ((st.onRemove i a).entry j).new = true := hnew
    rw [entry_onRemove] at hentry
    split_ifs at hentry with hj
    · rw [Entry.onRemove_new] at hentry
      cases hentry
    · exact h.fresh j hentry
  · rw [hsame]
    exact h.nextId s

end Recorded

/-! ### Taking back a record -/

/-- No object that the session has created or modified has a unique key of an old value of another
object. -/
def KeysKept (d : ObjectDatabase ι σ α β) (st : UndoState ι σ α) : Prop :=
  ∀ i a j b, st.oldValues.find? i = some a → d.objects.find? j = some b → j ≠ i →
    st.newIds.contains j = true ∨ st.oldValues.contains j = true → UniqueKeys.collide b a = false

/-- The same objects, and the same next ids. -/
def SameObjects (d d' : ObjectDatabase ι σ α β) : Prop :=
  d'.objects = d.objects ∧ d'.nextId = d.nextId

namespace Recorded

/-- What an entry of the record says about the values before and after. -/
theorem old_eq (h : Recorded d₀ d st) (hold : st.oldValues.find? i = some a) :
    d₀.objects.find? i = some a ∧ ∃ b, d.objects.find? i = some b := by
  have htracked := h.tracked i
  rw [UndoState.entry, hold] at htracked
  generalize st.newIds.contains i = new at htracked
  generalize st.removed.find? i = removed at htracked
  generalize d₀.objects.find? i = x at htracked ⊢
  generalize d.objects.find? i = y at htracked ⊢
  cases htracked with
  | updated a b => exact ⟨rfl, b, rfl⟩

/-- An object that the session has neither created nor modified, and that is still there, is as it
was. -/
theorem kept_eq (h : Recorded d₀ d st) (hnew : st.newIds.contains i = false)
    (hold : st.oldValues.find? i = none) (hfind : d.objects.find? i = some b) :
    d₀.objects.find? i = some b := by
  have htracked := h.tracked i
  rw [UndoState.entry, hold, hnew, hfind] at htracked
  generalize st.removed.find? i = removed at htracked
  generalize d₀.objects.find? i = x at htracked ⊢
  cases htracked with
  | kept => rfl

theorem new_eq (h : Recorded d₀ d st) (hnew : st.newIds.contains i = true) :
    st.oldValues.find? i = none ∧ d₀.objects.find? i = none ∧ st.removed.find? i = none ∧
      ∃ b, d.objects.find? i = some b := by
  have htracked := h.tracked i
  rw [UndoState.entry, hnew] at htracked
  generalize st.oldValues.find? i = old at htracked ⊢
  generalize st.removed.find? i = removed at htracked ⊢
  generalize d₀.objects.find? i = x at htracked ⊢
  generalize d.objects.find? i = y at htracked ⊢
  cases htracked with
  | created b => exact ⟨rfl, rfl, rfl, b, rfl⟩

theorem removed_eq (h : Recorded d₀ d st) (hremoved : st.removed.find? i = some a) :
    st.oldValues.find? i = none ∧ d₀.objects.find? i = some a ∧ d.objects.find? i = none := by
  have htracked := h.tracked i
  rw [UndoState.entry, hremoved] at htracked
  generalize st.newIds.contains i = new at htracked
  generalize st.oldValues.find? i = old at htracked ⊢
  generalize d₀.objects.find? i = x at htracked ⊢
  generalize d.objects.find? i = y at htracked ⊢
  cases htracked with
  | deleted a => exact ⟨rfl, rfl, rfl⟩

/-- An object that has not been removed is, with its old value if it has one, as it was, unless it is
new. -/
theorem before_eq (h : Recorded d₀ d st) (hnew : st.newIds.contains i = false)
    (hremoved : st.removed.find? i = none) :
    (st.oldValues.find? i).or (d.objects.find? i) = d₀.objects.find? i := by
  have htracked := h.tracked i
  rw [UndoState.entry, hnew, hremoved] at htracked
  generalize st.oldValues.find? i = old at htracked ⊢
  generalize d₀.objects.find? i = x at htracked ⊢
  generalize d.objects.find? i = y at htracked ⊢
  cases htracked with
  | updated a b => rfl
  | kept => rfl

/-- **The old values are restored**, or one of them collides. -/
theorem restoreOldValues [SecondaryIndex ι α β] (h : Recorded d₀ d st) {olds : List (ι × α)}
    (hperm : olds.Perm st.oldValues.toList) :
    (olds.foldlM restoreOldValue d).Ensures (fun _ ↦ ¬KeysKept d st) fun e ↦
      e.nextId = d.nextId ∧
        ∀ j, e.objects.find? j = (st.oldValues.find? j).or (d.objects.find? j) := by
  let I (rest : List (ι × α)) (e : ObjectDatabase ι σ α β) : Prop :=
    (rest.map Prod.fst).Nodup ∧ (∀ p ∈ rest, st.oldValues.find? p.1 = some p.2) ∧
      e.nextId = d.nextId ∧ ∀ j, e.objects.find? j =
        if j ∈ rest.map Prod.fst then d.objects.find? j
        else (st.oldValues.find? j).or (d.objects.find? j)
  refine (Except.Ensures.foldlM_suffix I ?_ ⟨?_, fun p hp ↦ ?_, rfl, fun j ↦ ?_⟩).mono ?_
  · rintro p rest e ⟨hnodup, hold, hnext, hfind⟩
    rw [List.map_cons, List.nodup_cons] at hnodup
    have hp := hold p List.mem_cons_self
    obtain ⟨hbefore, b, hb⟩ := h.old_eq hp
    simp only [List.map_cons] at hfind
    have he : e.objects.find? p.1 = some b := by
      rw [hfind, if_pos List.mem_cons_self, hb]
    rw [restoreOldValue, he]
    dsimp only
    rw [ObjectDatabase.modify]
    refine .ite (fun hadmits ↦ .ok ⟨hnodup.2, fun q hq ↦ hold q (List.mem_cons_of_mem _ hq), hnext,
      fun j ↦ ?_⟩) fun hadmits ↦ .error fun hkeys ↦ hadmits (admits_iff.2 fun j c hc hne ↦ ?_)
    · rw [FlatMap.find?_insert]
      split_ifs with hj hrest hrest
      · exact absurd (hj ▸ hrest) hnodup.1
      · rw [hj, hp]
        rfl
      · rw [hfind, if_pos (List.mem_cons_of_mem _ hrest)]
      · rw [hfind, if_neg]
        exact fun hmem ↦ (List.mem_cons.1 hmem).elim hj hrest
    · rw [hfind] at hc
      split_ifs at hc with hrest
      -- an old value that has not been restored yet
      · refine hkeys p.1 p.2 j c hp hc hne (.inr ?_)
        rw [← List.map_cons] at hrest
        obtain ⟨q, hq, rfl⟩ := List.mem_map.1 hrest
        exact FlatMap.contains_iff.2 (FlatMap.mem_keys.2 ⟨q.2, hold q hq⟩)
      · rcases hj : st.oldValues.find? j with - | a
        · rw [hj] at hc
          rcases hnew : st.newIds.contains j with - | -
          · exact h.before.unique j p.1 c p.2 (h.kept_eq hnew hj hc) hbefore hne
          · exact hkeys p.1 p.2 j c hp hc hne (.inl hnew)
        · rw [hj] at hc
          obtain rfl := Option.some.inj hc
          exact h.before.unique j p.1 a p.2 (h.old_eq hj).1 hbefore hne
  · exact (hperm.map Prod.fst).nodup_iff.2 st.oldValues.nodup_fst
  · exact FlatMap.find?_eq_some_iff.2 (hperm.mem_iff.1 hp)
  · split_ifs with hj
    · rfl
    · rcases hold : st.oldValues.find? j with - | a
      · rfl
      · exact absurd (List.mem_map_of_mem (hperm.mem_iff.2 (FlatMap.find?_eq_some_iff.1 hold))) hj
  · rintro e ⟨-, -, hnext, hfind⟩
    exact ⟨hnext, fun j ↦ hfind j⟩

/-- The new objects are removed. -/
theorem removeNewObjects [SecondaryIndex ι α β] (h : Recorded d₀ d st) {news : List ι}
    (hperm : news.Perm st.newIds.elements) {e : ObjectDatabase ι σ α β}
    (he : ∀ j, e.objects.find? j = (st.oldValues.find? j).or (d.objects.find? j)) :
    (news.foldlM removeNewObject e).Ensures (fun _ ↦ False) fun e' ↦ e'.nextId = e.nextId ∧
      ∀ j, e'.objects.find? j = if st.newIds.contains j = true then none
        else (st.oldValues.find? j).or (d.objects.find? j) := by
  have hmem : ∀ j, j ∈ news ↔ st.newIds.contains j = true := fun j ↦ by
    rw [hperm.mem_iff, FlatSet.mem_elements, FlatMap.contains_iff]
  let I (rest : List ι) (e' : ObjectDatabase ι σ α β) : Prop :=
    rest.Nodup ∧ (∀ j ∈ rest, st.newIds.contains j = true) ∧ e'.nextId = e.nextId ∧
      ∀ j, e'.objects.find? j = if st.newIds.contains j = true ∧ j ∉ rest then none
        else (st.oldValues.find? j).or (d.objects.find? j)
  refine (Except.Ensures.foldlM_suffix I ?_ ⟨?_, fun j hj ↦ (hmem j).1 hj, rfl, fun j ↦ ?_⟩).mono ?_
  · rintro i rest e' ⟨hnodup, hnew, hnext, hfind⟩
    rw [List.nodup_cons] at hnodup
    obtain ⟨hold, -, -, b, hb⟩ := h.new_eq (hnew i List.mem_cons_self)
    have hi : e'.objects.find? i = some b := by
      rw [hfind, if_neg fun hn ↦ hn.2 List.mem_cons_self, hold, hb]
      rfl
    rw [removeNewObject, hi]
    refine .ok ⟨hnodup.2, fun j hj ↦ hnew j (List.mem_cons_of_mem _ hj), hnext, fun j ↦ ?_⟩
    dsimp only [ObjectDatabase.remove]
    rw [FlatMap.find?_erase, hfind]
    by_cases hj : j = i
    · rw [if_pos hj, if_pos ⟨hj ▸ hnew i List.mem_cons_self, hj ▸ hnodup.1⟩]
    · have hiff : j ∉ i :: rest ↔ j ∉ rest := by
        rw [List.mem_cons, not_or, and_iff_right hj]
      rw [if_neg hj]
      simp only [hiff]
  · exact hperm.nodup_iff.2 (FlatSet.nodup_elements _)
  · rw [he, if_neg fun hn ↦ hn.2 ((hmem j).2 hn.1)]
  · rintro e' ⟨-, -, hnext, hfind⟩
    refine ⟨hnext, fun j ↦ ?_⟩
    rw [hfind]
    simp only [List.not_mem_nil, not_false_eq_true, and_true]

/-- The removed objects are inserted again. -/
theorem insertRemovedObjects [SecondaryIndex ι α β] (h : Recorded d₀ d st) {removed : List (ι × α)}
    (hperm : removed.Perm st.removed.toList) {e : ObjectDatabase ι σ α β}
    (he : ∀ j, e.objects.find? j = if st.newIds.contains j = true then none
      else (st.oldValues.find? j).or (d.objects.find? j)) :
    (removed.foldlM insertRemovedObject e).Ensures (fun _ ↦ False) fun e' ↦ e'.nextId = e.nextId ∧
      ∀ j, e'.objects.find? j = d₀.objects.find? j := by
  have hmem : ∀ p, p ∈ removed ↔ st.removed.find? p.1 = some p.2 := fun p ↦ by
    rw [hperm.mem_iff, FlatMap.find?_eq_some_iff]
  let I (rest : List (ι × α)) (e' : ObjectDatabase ι σ α β) : Prop :=
    (rest.map Prod.fst).Nodup ∧ (∀ p ∈ rest, st.removed.find? p.1 = some p.2) ∧
      e'.nextId = e.nextId ∧ ∀ j, e'.objects.find? j =
        if j ∈ rest.map Prod.fst then none else d₀.objects.find? j
  refine (Except.Ensures.foldlM_suffix I ?_
    ⟨?_, fun p hp ↦ (hmem p).1 hp, rfl, fun j ↦ ?_⟩).mono ?_
  · rintro p rest e' ⟨hnodup, hremoved, hnext, hfind⟩
    rw [List.map_cons, List.nodup_cons] at hnodup
    obtain ⟨-, hbefore, -⟩ := h.removed_eq (hremoved p List.mem_cons_self)
    simp only [List.map_cons] at hfind
    have hfree : e'.objects.contains p.1 = false := by
      rw [FlatMap.contains_eq_false_iff, hfind, if_pos List.mem_cons_self]
    have hadmits : e'.admits p.1 p.2 = true := by
      refine admits_iff.2 fun j c hc hne ↦ ?_
      rw [hfind] at hc
      split_ifs at hc
      exact h.before.unique j p.1 c p.2 hc hbefore hne
    rw [insertRemovedObject, ObjectDatabase.insert, if_pos ⟨hfree, hadmits⟩]
    refine .ok ⟨hnodup.2, fun q hq ↦ hremoved q (List.mem_cons_of_mem _ hq), hnext, fun j ↦ ?_⟩
    rw [FlatMap.find?_insert, hfind]
    by_cases hj : j = p.1
    · rw [if_pos hj, if_neg (hj ▸ hnodup.1), hj, hbefore]
    · have hiff : j ∈ p.1 :: rest.map Prod.fst ↔ j ∈ rest.map Prod.fst := by
        rw [List.mem_cons, or_iff_right hj]
      rw [if_neg hj]
      simp only [hiff]
  · exact (hperm.map Prod.fst).nodup_iff.2 st.removed.nodup_fst
  · rw [he]
    by_cases hj : j ∈ removed.map Prod.fst
    · obtain ⟨p, hp, rfl⟩ := List.mem_map.1 hj
      obtain ⟨hold, -, hnone⟩ := h.removed_eq ((hmem p).1 hp)
      rw [if_pos hj, hold, hnone]
      exact ite_self _
    · have hremoved : st.removed.find? j = none := by
        rcases hr : st.removed.find? j with - | a
        · rfl
        · exact absurd (List.mem_map_of_mem ((hmem (j, a)).2 hr)) hj
      rw [if_neg hj]
      rcases hnew : st.newIds.contains j with - | -
      · rw [if_neg Bool.false_ne_true]
        exact h.before_eq hnew hremoved
      · rw [if_pos rfl, (h.new_eq hnew).2.1]
  · rintro e' ⟨-, -, hnext, hfind⟩
    exact ⟨hnext, fun j ↦ hfind j⟩

/-- **Taking back a record** restores the objects and the next ids of the start of the session, or it
fails because an old value collides. -/
theorem restore [SecondaryIndex ι α β] (h : Recorded d₀ d st) (order : UndoOrder st) :
    (restore d st order).Ensures (fun _ ↦ ¬KeysKept d st) (SameObjects d₀) := by
  refine (h.restoreOldValues order.oldValues_perm).bind fun d₁ ⟨hnext₁, hfind₁⟩ ↦ ?_
  have htotal {x : Except (ObjectDatabase ι σ α β) (ObjectDatabase ι σ α β)}
      {Q : ObjectDatabase ι σ α β → Prop} (hx : x.Ensures (fun _ ↦ False) Q) :
      x.Ensures (fun _ ↦ ¬KeysKept d st) Q := .of_exists hx.exists_ok
  refine (htotal (h.removeNewObjects order.newIds_perm hfind₁)).bind fun d₂ ⟨hnext₂, hfind₂⟩ ↦ ?_
  obtain ⟨next, hnext⟩ : ∃ next, next = st.oldIndexNextIds.toList.foldl (fun next p ↦
    Function.update next p.1 p.2) d₂.nextId := ⟨_, rfl⟩
  rw [← hnext]
  refine (htotal (h.insertRemovedObjects order.removed_perm (e := { d₂ with nextId := next })
    hfind₂)).mono fun d₃ ⟨hnext₃, hfind₃⟩ ↦ ⟨FlatMap.ext_find? hfind₃, ?_⟩
  rw [hnext₃, hnext]
  funext s
  have hat := FlatMap.foldl_at (fun next : σ → ℕ ↦ next s) s
    (g := fun next p ↦ Function.update next p.1 p.2) (h := fun _ n ↦ n)
    (fun next n ↦ Function.update_self s n next)
    (fun next p hp ↦ Function.update_of_ne hp.symm p.2 next) st.oldIndexNextIds d₂.nextId
  dsimp only at hat ⊢
  rw [hat, hnext₂, hnext₁, h.nextId]
  cases st.oldIndexNextIds.find? s <;> rfl

end Recorded

end Records

end Playchain
