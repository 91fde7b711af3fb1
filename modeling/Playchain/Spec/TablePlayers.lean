import Playchain.Schema.TablePlayersIndex
import Playchain.Spec.Sessions

/-!
# The tables of a player, and the tables

The index of players mirrors the tables (`Mirrors`) as long as tables come and go without players: it
is not told about tables that are loaded, nor about tables that go when the session that has created
them is undone. The invariant of a run is `Mirrors` together with the chain of records below it
(`Stacked`): undoing a session brings back the tables of its start, and restoring an old value is a
modification, which the index follows.
-/

namespace Playchain

/-! ### The index -/

namespace TablesByPlayer

variable {m : TablesByPlayer} {p q : PlayerId} {i t : TableId}

/-- Whether a table is among those of a player. -/
def Has (m : TablesByPlayer) (p : PlayerId) (i : TableId) : Prop := (m.tables p).contains i = true

theorem has_leave : (m.leave t p).Has q i ↔ m.Has q i ∧ ¬(q = p ∧ i = t) := by
  unfold Has leave tables
  rw [FlatMap.find?_insert]
  split_ifs with hq
  · subst hq
    rw [Option.getD_some, FlatMap.contains_iff, FlatMap.contains_iff, FlatMap.keys_erase,
      Finset.mem_erase]
    tauto
  · tauto

theorem has_join : (m.join t p).Has q i ↔ m.Has q i ∨ (q = p ∧ i = t) := by
  unfold Has join tables
  rw [FlatMap.find?_insert]
  split_ifs with hq
  · subst hq
    rw [Option.getD_some, FlatMap.contains_iff, FlatMap.contains_iff, FlatSet.keys_add,
      Finset.mem_insert]
    tauto
  · tauto

theorem has_foldl_leave {l : List PlayerId} :
    (l.foldl (leave t) m).Has q i ↔ m.Has q i ∧ ¬(q ∈ l ∧ i = t) := by
  induction l generalizing m with
  | nil => simp
  | cons p l ih =>
    rw [List.foldl_cons, ih, has_leave, List.mem_cons]
    tauto

theorem has_foldl_join {l : List PlayerId} :
    (l.foldl (join t) m).Has q i ↔ m.Has q i ∨ (q ∈ l ∧ i = t) := by
  induction l generalizing m with
  | nil => simp
  | cons p l ih =>
    rw [List.foldl_cons, ih, has_join, List.mem_cons]
    tauto

/-- **The index follows a table** that it has mirrored before. -/
theorem has_follow {before after : List PlayerId} (h : ∀ q, m.Has q t ↔ q ∈ before) :
    (m.follow t before after).Has q i ↔ if i = t then q ∈ after else m.Has q i := by
  rw [follow, has_foldl_join, has_foldl_leave, List.mem_filter, List.mem_filter, decide_eq_true_eq,
    decide_eq_true_eq]
  split_ifs with hi
  · subst hi
    rw [h]
    tauto
  · tauto

end TablesByPlayer

/-- **The index mirrors the tables.** -/
def Mirrors (d : ObjectDatabase TableId Unit TableObject TablePlayersIndex) : Prop :=
  ∀ part p i, (d.secondary.byPlayer part).Has p i ↔
    ∃ t, d.objects.find? i = some t ∧ p ∈ t.playersOf part

/-- A table without players. -/
def TableObject.HasNoPlayers (t : TableObject) : Prop := ∀ part, t.playersOf part = []

section Steps

variable {d d' d₀ : ObjectDatabase TableId Unit TableObject TablePlayersIndex} {i : TableId}
  {a b : TableObject} {st : UndoState TableId Unit TableObject}

theorem byPlayer_objectModified (x : TablePlayersIndex) (part : TablePart) :
    (SecondaryIndex.objectModified i a b x).byPlayer part =
      (x.byPlayer part).follow i (a.playersOf part) (b.playersOf part) := by
  cases part <;> rfl

namespace Mirrors

/-- The index knows the players of a table. -/
theorem has_iff (h : Mirrors d) (hi : d.objects.find? i = some a) (part : TablePart) (p : PlayerId) :
    (d.secondary.byPlayer part).Has p i ↔ p ∈ a.playersOf part := by
  rw [h part p i, hi]
  simp

/-- **A modification is followed.** -/
theorem modify (h : Mirrors d) (hi : d.objects.find? i = some a) (hd' : d.modify i a b = .ok d') :
    Mirrors d' := by
  rw [ObjectDatabase.modify] at hd'
  split_ifs at hd'
  obtain rfl := Except.ok.inj hd'
  intro part p j
  dsimp only
  rw [byPlayer_objectModified, TablesByPlayer.has_follow (h.has_iff hi part), FlatMap.find?_insert]
  split_ifs with hj
  · simp
  · exact h part p j

/-- A table without players comes. -/
theorem create (h : Mirrors d) (ha : a.HasNoPlayers) (hd' : d.create () a = some d') : Mirrors d' := by
  rw [ObjectDatabase.create, ObjectDatabase.insert] at hd'
  split_ifs at hd' with hinsert
  · obtain rfl := Option.some.inj hd'
    intro part p j
    refine (h part p j).trans ?_
    dsimp only
    rw [FlatMap.find?_insert]
    split_ifs with hj
    · rw [hj, FlatMap.contains_eq_false_iff.1 hinsert.1]
      simp [ha part]
    · rfl
  · cases hd'

/-- A table without players goes. -/
theorem remove (h : Mirrors d) (hi : d.objects.find? i = some a) (ha : a.HasNoPlayers) :
    Mirrors (d.remove i a) := by
  intro part p j
  refine (h part p j).trans ?_
  dsimp only [ObjectDatabase.remove]
  rw [FlatMap.find?_erase]
  split_ifs with hj
  · rw [hj, hi]
    simp [ha part]
  · rfl

/-- **The index follows the undoing of a record**, when the tables that go have no players. -/
theorem restore (h : Mirrors d) (hrec : Recorded d₀ d st) (hremoved : st.removed = ∅)
    (hfree : ∀ i t, st.newIds.contains i = true → d.objects.find? i = some t → t.HasNoPlayers)
    (order : UndoOrder st) : (restore d st order).Ensures (fun _ ↦ True) Mirrors := by
  let Free (e : ObjectDatabase TableId Unit TableObject TablePlayersIndex) : Prop :=
    ∀ i t, st.newIds.contains i = true → e.objects.find? i = some t → t.HasNoPlayers
  have holds : (order.oldValues.foldlM restoreOldValue d).Ensures (fun _ ↦ True)
      fun e ↦ Mirrors e ∧ Free e := by
    refine .foldlM _ (fun p hp e ⟨he, hfreeE⟩ ↦ ?_) ⟨h, hfree⟩
    have hold := FlatMap.find?_eq_some_iff.2 (order.oldValues_perm.mem_iff.1 hp)
    rw [restoreOldValue]
    split
    · trivial
    · rename_i a ha
      refine .of_forall fun e' he' ↦ ⟨he.modify ha he', fun j t hj ht ↦ ?_⟩
      rw [ObjectDatabase.modify] at he'
      split_ifs at he'
      obtain rfl := Except.ok.inj he'
      rw [FlatMap.find?_insert_of_ne] at ht
      · exact hfreeE j t hj ht
      -- a new table has no old value
      · rintro rfl
        rw [(hrec.new_eq hj).1] at hold
        cases hold
  have hnews (e : ObjectDatabase TableId Unit TableObject TablePlayersIndex) (he : Mirrors e ∧ Free e) :
      (order.newIds.foldlM removeNewObject e).Ensures (fun _ ↦ True) fun e ↦ Mirrors e ∧ Free e := by
    refine .foldlM _ (fun i hi e ⟨he, hfreeE⟩ ↦ ?_) he
    have hnew : st.newIds.contains i = true :=
      FlatMap.contains_iff.2 (FlatSet.mem_elements.1 (order.newIds_perm.mem_iff.1 hi))
    rw [removeNewObject]
    split
    · trivial
    · rename_i a ha
      refine .ok ⟨he.remove ha (hfreeE i a hnew ha), fun j t hj ht ↦ ?_⟩
      dsimp only [ObjectDatabase.remove] at ht
      rw [FlatMap.find?_erase] at ht
      split_ifs at ht
      exact hfreeE j t hj ht
  have hnil : order.removed = [] := by
    have hperm := order.removed_perm
    rw [hremoved] at hperm
    exact hperm.eq_nil
  refine holds.bind fun d₁ hd₁ ↦ (hnews d₁ hd₁).bind fun d₂ hd₂ ↦ ?_
  rw [hnil]
  exact .ok hd₂.1

end Mirrors

end Steps

/-! ### Records below each other -/

/-- Each record tracks the tables from those of the record below it on. Tables are never removed. -/
def Stacked (d : ObjectDatabase TableId Unit TableObject TablePlayersIndex) :
    List (UndoState TableId Unit TableObject) → Prop
  | [] => True
  | st :: rest => st.removed = ∅ ∧ ∃ d₀, Recorded d₀ d st ∧ Stacked d₀ rest

section Records

variable {d d' d₀ : ObjectDatabase TableId Unit TableObject TablePlayersIndex}
  {st prev : UndoState TableId Unit TableObject} {stack : List (UndoState TableId Unit TableObject)}

theorem Stacked.take (h : Stacked d stack) (n : ℕ) : Stacked d (stack.take n) := by
  induction stack generalizing d n with
  | nil => rwa [List.take_nil]
  | cons st rest ih =>
    cases n with
    | zero => trivial
    | succ n =>
      obtain ⟨hremoved, d₀, hrec, hrest⟩ := h
      exact ⟨hremoved, d₀, hrec, ih hrest n⟩

theorem Stacked.of_sameObjects (h : Stacked d stack) (hd : SameObjects d d') : Stacked d' stack := by
  cases stack with
  | nil => trivial
  | cons st rest =>
    obtain ⟨hremoved, d₀, hrec, hrest⟩ := h
    exact ⟨hremoved, d₀, hrec.of_sameObjects hd, hrest⟩

theorem removed_merge (hprev : prev.removed = ∅) (hst : st.removed = ∅) :
    (prev.merge st).removed = ∅ := by
  refine FlatMap.ext_find? fun i ↦ ?_
  have hentry : ((prev.entry i).merge (st.entry i)).removed = none := by
    rw [UndoState.entry, UndoState.entry, hprev, hst]
    generalize prev.newIds.contains i = new
    generalize prev.oldValues.find? i = old
    generalize st.oldValues.find? i = old'
    cases new <;> cases old <;> cases old' <;> rfl
  rw [← entry_merge] at hentry
  exact hentry

end Records

/-! ### Runs -/

/-- The invariant of the tables with their records. -/
structure TablesKept (u : TableStore) : Prop where
  valid : u.db.Valid
  mirrors : Mirrors u.db
  stacked : Stacked u.db u.stack

/-- **When the index keeps up**: tables are loaded only without players, and the tables that an undone
session has created have no players. -/
def TableEvent.Allowed (u : TableStore) : TableEvent → Prop
  | undo | popCommit =>
    ∀ i t, u.top.newIds.contains i = true → u.db.objects.find? i = some t → t.HasNoPlayers
  | reload => ∀ i t, u.db.objects.find? i = some t → t.HasNoPlayers
  | _ => True

namespace TablesKept

variable {u v : TableStore}

/-- The record that is written to. -/
theorem top (h : TablesKept u) : u.top.removed = ∅ ∧
    ∃ d₀, Recorded d₀ u.db u.top ∧ Stacked d₀ u.stack.tail := by
  obtain ⟨db, stack, active, size⟩ := u
  cases stack with
  | nil => exact ⟨rfl, db, .start h.valid, trivial⟩
  | cons st rest => exact h.stacked

theorem create (h : TablesKept u) {t : TableObject} (ht : t.HasNoPlayers)
    (hv : u.call (.create () t) = .ok v) : TablesKept v := by
  obtain ⟨hremoved, d₀, hrec, hrest⟩ := h.top
  rw [UndoDatabase.call, Except.bind_eq_ok] at hv
  obtain ⟨⟨d, st⟩, hrun, hv⟩ := hv
  obtain rfl := Except.pure_eq_ok.1 hv
  have hrec' := (hrec.run _).of_ok hrun
  rw [Call.run] at hrun
  split at hrun
  · rename_i d' hd'
    cases hrun
    exact ⟨hrec'.after, h.mirrors.create ht hd', hremoved, d₀, hrec', hrest⟩
  · cases hrun

theorem modify (h : TablesKept u) {i : TableId} {g : TableObject → TableObject}
    (hv : u.call (.modify i g) = .ok v) : TablesKept v := by
  obtain ⟨hremoved, d₀, hrec, hrest⟩ := h.top
  rw [UndoDatabase.call, Except.bind_eq_ok] at hv
  obtain ⟨⟨d, st⟩, hrun, hv⟩ := hv
  obtain rfl := Except.pure_eq_ok.1 hv
  have hrec' := (hrec.run _).of_ok hrun
  rw [Call.run] at hrun
  split at hrun
  · cases hrun
  · rename_i a ha
    split at hrun
    · rename_i d' hd'
      cases hrun
      refine ⟨hrec'.after, h.mirrors.modify ha hd', ?_, d₀, hrec', hrest⟩
      rw [UndoState.onModify]
      split_ifs
      · exact hremoved
      · exact hremoved
      · exact hremoved
    · cases hrun

theorem merge (h : TablesKept u) (hv : u.merge = some v) : TablesKept v := by
  have hstacked := h.stacked
  rw [UndoDatabase.merge] at hv
  by_cases hactive : u.activeSessions = 0
  · rw [if_pos hactive] at hv
    cases hv
  rw [if_neg hactive] at hv
  split at hv
  · split_ifs at hv
    obtain rfl := Option.some.inj hv
    exact ⟨h.valid, h.mirrors, trivial⟩
  · rename_i st prev rest hstack
    obtain rfl := Option.some.inj hv
    rw [hstack] at hstacked
    obtain ⟨hremoved, d₁, hrec, hremoved', d₀, hrec', hrest⟩ := hstacked
    exact ⟨h.valid, h.mirrors, removed_merge hremoved' hremoved, d₀, hrec'.merge hrec, hrest⟩
  · cases hv

/-- Taking back a record that creates no table with players. -/
theorem restore (h : TablesKept u)
    (hfree : ∀ i t, u.top.newIds.contains i = true → u.db.objects.find? i = some t → t.HasNoPlayers)
    (order : UndoOrder u.top) : (Playchain.restore u.db u.top order).Ensures (fun _ ↦ True) fun d ↦
      d.Valid ∧ Mirrors d ∧ Stacked d u.stack.tail := by
  obtain ⟨hremoved, d₀, hrec, hrest⟩ := h.top
  have hmirrors := h.mirrors.restore hrec hremoved hfree order
  have hsame := hrec.restore order
  refine .of_forall fun d hd ↦ ?_
  have hobjects := hsame.of_ok hd
  refine ⟨?_, hmirrors.of_ok hd, hrest.of_sameObjects hobjects⟩
  exact ((Recorded.start hrec.before).of_sameObjects hobjects).after

/-- A new process starts with an empty index: `object_inserted` does nothing. -/
theorem reload_secondary (d : ObjectDatabase TableId Unit TableObject TablePlayersIndex) :
    d.reload.secondary = {} := by
  rw [ObjectDatabase.reload]
  generalize d.objects.toList = l
  induction l with
  | nil => rfl
  | cons p l ih => exact ih

/-- **One step**: the index keeps up with every event that is allowed. -/
theorem step (h : TablesKept u) {event : TableEvent} (hallowed : event.Allowed u)
    (hv : event.Step u v) : TablesKept v := by
  cases event with
  | create t ht => exact h.create ht hv
  | modify table g => exact h.modify hv
  | startSession =>
    obtain rfl := hv
    exact ⟨h.valid, h.mirrors, rfl, u.db, .start h.valid, h.stacked.take u.maxSize⟩
  | merge => exact h.merge hv
  | commit =>
    rw [TableEvent.Step, UndoDatabase.commit] at hv
    split_ifs at hv
    obtain rfl := Option.some.inj hv
    exact ⟨h.valid, h.mirrors, h.stacked⟩
  | undo =>
    obtain ⟨order, hv⟩ := hv
    rw [UndoDatabase.undo] at hv
    split_ifs at hv
    obtain ⟨d, hd, hv⟩ := Except.bind_eq_ok.1 hv
    obtain rfl := Except.pure_eq_ok.1 hv
    obtain ⟨hvalid, hmirrors, hstacked⟩ := (h.restore hallowed order).of_ok hd
    exact ⟨hvalid, hmirrors, hstacked⟩
  | popCommit =>
    obtain ⟨order, hv⟩ := hv
    rw [UndoDatabase.popCommit] at hv
    split_ifs at hv
    obtain ⟨d, hd, hv⟩ := Except.bind_eq_ok.1 hv
    obtain rfl := Except.pure_eq_ok.1 hv
    obtain ⟨hvalid, hmirrors, hstacked⟩ := (h.restore hallowed order).of_ok hd
    exact ⟨hvalid, hmirrors, hstacked⟩
  | setMaxSize n =>
    obtain rfl := hv
    exact ⟨h.valid, h.mirrors, h.stacked⟩
  | reload =>
    obtain rfl := hv
    refine ⟨⟨h.valid.unique, h.valid.lt_nextId⟩, fun part p i ↦ iff_of_false ?_ ?_, trivial⟩
    · rw [reload_secondary]
      cases part <;> exact Bool.false_ne_true
    · rintro ⟨t, ht, hp⟩
      rw [hallowed i t ht part] at hp
      cases hp

end TablesKept

/-- A step that is allowed. -/
def AllowedStep (u v : TableStore) : Prop := ∃ event : TableEvent, event.Allowed u ∧ event.Step u v

/-- The store before the first table. -/
def emptyTables (maxSize : ℕ) : TableStore := { db := ⟨∅, fun _ ↦ 0, {}⟩, maxSize := maxSize }

theorem tablesKept_emptyTables (maxSize : ℕ) : TablesKept (emptyTables maxSize) where
  valid := ⟨fun _ _ _ _ h ↦ (by cases h), fun _ _ _ h ↦ (by cases h)⟩
  mirrors part p i := by
    refine iff_of_false ?_ ?_
    · cases part <;> exact Bool.false_ne_true
    · rintro ⟨t, ht, -⟩
      cases ht
  stacked := trivial

/-- **The index of players mirrors the tables** in every state of a run in which tables come and go
without players. -/
theorem tablePlayersIndex_mirrors {maxSize : ℕ} {u : TableStore}
    (h : Relation.ReflTransGen AllowedStep (emptyTables maxSize) u) : Mirrors u.db := by
  have hkept : TablesKept u := by
    induction h with
    | refl => exact tablesKept_emptyTables maxSize
    | tail _ hstep ih =>
      obtain ⟨event, hallowed, hstep⟩ := hstep
      exact ih.step hallowed hstep
  exact hkept.mirrors

/-- A player sits down. -/
def seatPlayer (t : TableObject) : TableObject := { t with cash := t.cash.insert 7 { amount := 10 } }

theorem freshTable_free (part : TablePart) : TableObject.playersOf { room := 1 } part = [] := by
  cases part <;> rfl

theorem tablePlayersIndex_mirrors_seated : ∃ u : TableStore,
    (u.db.secondary.byPlayer .cash).Has 7 0 ∧ Mirrors u.db := by
  obtain ⟨u, v, hu, hv, hseated⟩ : ∃ u v : TableStore,
      TableEvent.Step (emptyTables 256) (.create { room := 1 } freshTable_free) u ∧
      TableEvent.Step u (.modify 0 seatPlayer) v ∧ (v.db.secondary.byPlayer .cash).Has 7 0 :=
    ⟨_, _, rfl, rfl, rfl⟩
  have hrun : Relation.ReflTransGen AllowedStep (emptyTables 256) v :=
    (Relation.ReflTransGen.single ⟨.create { room := 1 } freshTable_free, trivial, hu⟩).tail
      ⟨.modify 0 seatPlayer, trivial, hv⟩
  exact ⟨v, hseated, tablePlayersIndex_mirrors hrun⟩

/-- **The index misses players**: after a reload of the tables, and after the undoing of a session that
has created a table and seated a player at it. -/
theorem tablePlayersIndex_misses :
    (∃ u v w : TableStore,
      TableEvent.Step (emptyTables 256) (.create { room := 1 } freshTable_free) u ∧
      TableEvent.Step u (.modify 0 seatPlayer) v ∧ TableEvent.Step v .reload w ∧ ¬Mirrors w.db) ∧
    ∃ u v w : TableStore,
      TableEvent.Step (emptyTables 256).startUndoSession (.create { room := 1 } freshTable_free) u ∧
      TableEvent.Step u (.modify 0 seatPlayer) v ∧ TableEvent.Step v .undo w ∧ ¬Mirrors w.db := by
  constructor
  · refine ⟨_, _, _, rfl, rfl, rfl, fun hmirrors ↦ ?_⟩
    cases (hmirrors .cash 7 0).2 ⟨_, rfl, List.mem_singleton.2 rfl⟩
  · refine ⟨_, _, _, rfl, rfl, ⟨UndoOrder.sorted _, rfl⟩, fun hmirrors ↦ ?_⟩
    obtain ⟨t, ht, -⟩ := (hmirrors .cash 7 0).1 rfl
    cases ht

end Playchain
