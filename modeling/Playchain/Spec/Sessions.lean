import Playchain.Spec.Undo

/-!
# Nested sessions

`InSession u₀ u` says that `u` is reached within the session that was started at `u₀`, by any calls and
any sessions nested in it, each of them merged or undone. The record of the session is on top of the
stack of `u₀` and tracks everything since its start (`InSession.recorded`), so that

* undoing the session brings back the state it was started in;
* merging a nested session and undoing then is undoing twice;
* a session that has been committed is taken back by `popCommit`.

Taking back fails exactly when an old value collides with an object that the session has created or
modified (`undo_completes_iff`).
-/

namespace Playchain

variable {ι σ α β : Type*} [LinearOrder ι] [LinearOrder σ] {u u₀ v w : UndoDatabase ι σ α β}

/-- The same objects, next ids and records. -/
structure SameState (u v : UndoDatabase ι σ α β) : Prop where
  objects : SameObjects u.db v.db
  stack : v.stack = u.stack
  activeSessions : v.activeSessions = u.activeSessions
  maxSize : v.maxSize = u.maxSize

theorem SameState.symm (h : SameState u v) : SameState v u :=
  ⟨⟨h.objects.1.symm, h.objects.2.symm⟩, h.stack.symm, h.activeSessions.symm, h.maxSize.symm⟩

theorem SameState.trans (h : SameState u v) (h' : SameState v w) : SameState u w :=
  ⟨⟨h'.objects.1.trans h.objects.1, h'.objects.2.trans h.objects.2⟩, h'.stack.trans h.stack,
    h'.activeSessions.trans h.activeSessions, h'.maxSize.trans h.maxSize⟩

/-- The states within the session that is started at a given state. -/
inductive InSession [UniqueKeys α] [SecondaryIndex ι α β] [ObjectIds ι σ] :
    UndoDatabase ι σ α β → UndoDatabase ι σ α β → Prop
  | start {u₀ : UndoDatabase ι σ α β} (hsize : u₀.stack.length ≤ u₀.maxSize) :
    InSession u₀ u₀.startUndoSession
  | call {u₀ u v : UndoDatabase ι σ α β} {c : Call ι σ α} (h : InSession u₀ u)
    (hv : u.call c = .ok v) : InSession u₀ v
  | merge {u₀ u v w : UndoDatabase ι σ α β} (h : InSession u₀ u) (hv : InSession u v)
    (hw : v.merge = some w) : InSession u₀ w
  | undo {u₀ u v w : UndoDatabase ι σ α β} {order : UndoOrder v.top} (h : InSession u₀ u)
    (hv : InSession u v) (hw : v.undo order = .ok w) : InSession u₀ w

/-- An order that restores a given old value first. -/
theorem exists_undoOrder {st : UndoState ι σ α} {i : ι} {a : α} (h : st.oldValues.find? i = some a) :
    ∃ (order : UndoOrder st) (rest : List (ι × α)), order.oldValues = (i, a) :: rest := by
  obtain ⟨s, t, hst⟩ := List.append_of_mem (FlatMap.find?_eq_some_iff.1 h)
  refine ⟨⟨(i, a) :: (s ++ t), _, _, ?_, .refl _, .refl _⟩, s ++ t, rfl⟩
  rw [hst]
  exact List.perm_middle.symm

variable [UniqueKeys α]

theorem KeysKept.of_sameObjects {d d' : ObjectDatabase ι σ α β} {st : UndoState ι σ α}
    (h : KeysKept d st) (hd : SameObjects d d') : KeysKept d' st := by
  rw [KeysKept, hd.1]
  exact h

variable [ObjectIds ι σ]

/-- What is known within a session. -/
structure SessionRecorded (u₀ u : UndoDatabase ι σ α β) : Prop where
  stack : ∃ st, u.stack = st :: u₀.stack
  activeSessions : u.activeSessions = u₀.activeSessions + 1
  maxSize : u.maxSize = u₀.maxSize
  recorded : Recorded u₀.db u.db u.top

theorem Recorded.of_sameObjects {d₀ d d' : ObjectDatabase ι σ α β} {st : UndoState ι σ α}
    (h : Recorded d₀ d st) (hd : SameObjects d d') : Recorded d₀ d' st := by
  obtain ⟨hobjects, hnext⟩ := hd
  obtain ⟨objects, next, secondary⟩ := d'
  dsimp only at hobjects hnext
  subst hobjects hnext
  exact ⟨h.before, ⟨h.after.unique, h.after.lt_nextId⟩, h.tracked, h.fresh, h.nextId, h.nextId_le⟩

theorem call_eq_ok [SecondaryIndex ι α β] {c : Call ι σ α} {d : ObjectDatabase ι σ α β}
    {st : UndoState ι σ α} (h : c.run u.db u.top = .ok (d, st)) :
    u.call c = .ok { u with db := d, stack := st :: u.stack.tail } := by
  rw [UndoDatabase.call, h]
  rfl

/-- The creation of an object that is admitted. -/
theorem run_create [SecondaryIndex ι α β] {d : ObjectDatabase ι σ α β} {s : σ} {a : α}
    (hnew : d.objects.contains (ObjectIds.objectId s (d.nextId s)) = false)
    (hadmits : d.admits (ObjectIds.objectId s (d.nextId s)) a = true) (st : UndoState ι σ α) :
    (Call.create s a).run d st =
      .ok (⟨d.objects.insert (ObjectIds.objectId s (d.nextId s)) a,
        Function.update d.nextId s (d.nextId s + 1),
        SecondaryIndex.objectInserted (ObjectIds.objectId s (d.nextId s) : ι) a d.secondary⟩,
        st.onCreate s (d.nextId s)) := by
  rw [Call.run, ObjectDatabase.create, ObjectDatabase.insert, if_pos ⟨hnew, hadmits⟩]
  rfl

/-- A call is recorded. -/
theorem Recorded.run [SecondaryIndex ι α β] {d₀ d : ObjectDatabase ι σ α β} {st : UndoState ι σ α}
    (h : Recorded d₀ d st) (c : Call ι σ α) :
    (c.run d st).Ensures (fun _ ↦ True) fun p ↦ Recorded d₀ p.1 p.2 := by
  cases c with
  | create s a =>
    rw [Call.run]
    split
    · rename_i d' hd'
      exact h.create hd'
    · trivial
  | modify i g =>
    rw [Call.run]
    split
    · trivial
    · rename_i a ha
      split
      · rename_i d' hd'
        exact h.modify ha hd'
      · trivial
  | remove i =>
    rw [Call.run]
    split
    · trivial
    · rename_i a ha
      exact h.remove ha

namespace SessionRecorded

theorem start (hvalid : u₀.db.Valid) (hsize : u₀.stack.length ≤ u₀.maxSize) :
    SessionRecorded u₀ u₀.startUndoSession where
  stack := ⟨{}, by rw [UndoDatabase.startUndoSession, List.take_of_length_le hsize]⟩
  activeSessions := rfl
  maxSize := rfl
  recorded := .start hvalid

theorem call [SecondaryIndex ι α β] (h : SessionRecorded u₀ u) {c : Call ι σ α} (hv : u.call c = .ok v) :
    SessionRecorded u₀ v := by
  rw [UndoDatabase.call, Except.bind_eq_ok] at hv
  obtain ⟨⟨d, st⟩, hrun, hv⟩ := hv
  obtain rfl := Except.pure_eq_ok.1 hv
  obtain ⟨top, hstack⟩ := h.stack
  refine ⟨⟨st, ?_⟩, h.activeSessions, h.maxSize, (h.recorded.run c).of_ok hrun⟩
  rw [hstack]
  rfl

/-- The record within a nested session. -/
theorem stack_nested (h : SessionRecorded u₀ u) (hv : SessionRecorded u v) :
    v.stack = v.top :: u.top :: u₀.stack := by
  obtain ⟨st, hst⟩ := h.stack
  obtain ⟨st', hst'⟩ := hv.stack
  rw [UndoDatabase.top, UndoDatabase.top, hst', hst]
  rfl

/-- **A nested session can be merged**, and what it has done is then tracked by the outer one. -/
theorem merge (h : SessionRecorded u₀ u) (hv : SessionRecorded u v) :
    ∃ w, v.merge = some w ∧ w.db = v.db ∧ w.top = u.top.merge v.top ∧ SessionRecorded u₀ w := by
  have hactive : v.activeSessions ≠ 0 := by
    rw [hv.activeSessions]
    exact Nat.succ_ne_zero _
  rw [UndoDatabase.merge, if_neg hactive, h.stack_nested hv]
  refine ⟨_, rfl, rfl, rfl, ⟨⟨_, rfl⟩, ?_, hv.maxSize.trans h.maxSize, h.recorded.merge hv.recorded⟩⟩
  dsimp only
  rw [hv.activeSessions, h.activeSessions]
  rfl

/-- The assertions of `undo` hold. -/
theorem undo_guard (h : SessionRecorded u₀ u) : ¬(u.activeSessions = 0 ∨ u.stack = []) := by
  obtain ⟨st, hst⟩ := h.stack
  rw [h.activeSessions, hst]
  rintro (hzero | hnil)
  · exact Nat.succ_ne_zero _ hzero
  · cases hnil

/-- **Undoing a session** brings back the state it was started in, unless an old value collides. -/
theorem undo [SecondaryIndex ι α β] (h : SessionRecorded u₀ u) (order : UndoOrder u.top) :
    (u.undo order).Ensures (fun _ ↦ ¬KeysKept u.db u.top) (SameState u₀) := by
  obtain ⟨st, hst⟩ := h.stack
  rw [UndoDatabase.undo, if_neg h.undo_guard]
  refine (h.recorded.restore order).bind fun d hd ↦ .ok ⟨hd, ?_, ?_, h.maxSize⟩
  · dsimp only
    rw [hst]
    rfl
  · dsimp only
    rw [h.activeSessions]
    rfl

/-- A committed session: `popCommit` takes back its record. -/
theorem popCommit_eq [SecondaryIndex ι α β] (h : SessionRecorded u₀ u) (hzero : u₀.activeSessions = 0) :
    u.commit = some { u with activeSessions := 0 } ∧ ∀ order : UndoOrder u.top,
      UndoDatabase.popCommit { u with activeSessions := 0 } order = (do
        let d ← restore u.db u.top order
        return { u with db := d, stack := u.stack.tail, activeSessions := 0 }) := by
  have hone : u.activeSessions = 1 := by rw [h.activeSessions, hzero]
  refine ⟨?_, fun order ↦ ?_⟩
  · rw [UndoDatabase.commit, hone]
    rfl
  · have hguard : ¬((0 : ℕ) ≠ 0 ∨ u.stack = []) := by
      rintro (hne | hnil)
      · exact hne rfl
      · exact h.undo_guard (.inr hnil)
    exact if_neg hguard

/-- **A committed session is taken back** by `popCommit`, unless an old value collides. -/
theorem popCommit [SecondaryIndex ι α β] (h : SessionRecorded u₀ u) (hzero : u₀.activeSessions = 0)
    (order : UndoOrder u.top) :
    (UndoDatabase.popCommit { u with activeSessions := 0 } order).Ensures
      (fun _ ↦ ¬KeysKept u.db u.top) (SameState u₀) := by
  obtain ⟨st, hst⟩ := h.stack
  rw [(h.popCommit_eq hzero).2]
  refine (h.recorded.restore order).bind fun d hd ↦ .ok ⟨hd, ?_, hzero.symm, h.maxSize⟩
  dsimp only
  rw [hst]
  rfl

/-- Within a session after one that has been undone. -/
theorem of_sameState (h : SessionRecorded u₀ u) (hw : SameState u w) : SessionRecorded u₀ w where
  stack := hw.stack ▸ h.stack
  activeSessions := hw.activeSessions.trans h.activeSessions
  maxSize := hw.maxSize.trans h.maxSize
  recorded := by
    rw [UndoDatabase.top, hw.stack]
    exact h.recorded.of_sameObjects hw.objects

end SessionRecorded

/-- **The record of a session tracks it**, whatever is nested in it. -/
theorem InSession.recorded [SecondaryIndex ι α β] (h : InSession u₀ u) (hvalid : u₀.db.Valid) :
    SessionRecorded u₀ u := by
  induction h with
  | start hsize => exact .start hvalid hsize
  | call h hv ih => exact (ih hvalid).call hv
  | merge h hv hw ih ihv =>
    have hrec := ih hvalid
    obtain ⟨x, hx, -, -, hrecx⟩ := hrec.merge (ihv hrec.recorded.after)
    obtain rfl := Option.some.inj (hx.symm.trans hw)
    exact hrecx
  | undo h hv hw ih ihv =>
    have hrec := ih hvalid
    exact hrec.of_sameState (((ihv hrec.recorded.after).undo _).of_ok hw)

/-! ### Failures -/

/-- **Restoring fails when an old value collides**: in the order that begins with it. -/
theorem exists_restore_error [SecondaryIndex ι α β] {d₀ d : ObjectDatabase ι σ α β}
    {st : UndoState ι σ α} (h : Recorded d₀ d st) (hcollide : ¬KeysKept d st) :
    ∃ (order : UndoOrder st) (e : ObjectDatabase ι σ α β), restore d st order = .error e := by
  simp only [KeysKept, not_forall] at hcollide
  obtain ⟨i, a, j, b, hold, hb, hne, -, hcollide⟩ := hcollide
  obtain ⟨c, hc⟩ := (h.old_eq hold).2
  obtain ⟨order, rest, horder⟩ := exists_undoOrder hold
  have hadmits : ¬d.admits i a = true := fun hadmits ↦ hcollide (admits_iff.1 hadmits j b hb hne)
  refine ⟨order, { d with objects := d.objects.erase i }, ?_⟩
  rw [restore, horder, List.foldlM_cons, restoreOldValue, hc]
  dsimp only
  rw [ObjectDatabase.modify, if_neg hadmits]
  rfl

namespace SessionRecorded

/-- An old value that collides makes `undo` fail in some order. -/
theorem keysKept_of_undo [SecondaryIndex ι α β] (h : SessionRecorded u₀ u)
    (htotal : ∀ order, ∃ w, u.undo order = .ok w) : KeysKept u.db u.top := by
  by_contra hcollide
  obtain ⟨order, e, he⟩ := exists_restore_error h.recorded hcollide
  obtain ⟨w, hw⟩ := htotal order
  rw [UndoDatabase.undo, if_neg h.undo_guard, he] at hw
  cases hw

/-- An old value that collides makes `popCommit` fail in some order. -/
theorem keysKept_of_popCommit [SecondaryIndex ι α β] (h : SessionRecorded u₀ u)
    (hzero : u₀.activeSessions = 0)
    (htotal : ∀ order : UndoOrder u.top,
      ∃ w, UndoDatabase.popCommit { u with activeSessions := 0 } order = .ok w) :
    KeysKept u.db u.top := by
  by_contra hcollide
  obtain ⟨order, e, he⟩ := exists_restore_error h.recorded hcollide
  obtain ⟨w, hw⟩ := htotal order
  rw [(h.popCommit_eq hzero).2, he] at hw
  cases hw

end SessionRecorded

/-- **When a session can be taken back**: `undo`, and `popCommit` after a commit, complete in every
order exactly when no old value collides. -/
theorem undo_completes_iff [SecondaryIndex ι α β] (hvalid : u₀.db.Valid) (h : InSession u₀ u) :
    ((∀ order, ∃ w, u.undo order = .ok w) ↔ KeysKept u.db u.top) ∧
    (u₀.activeSessions = 0 → ∃ c, u.commit = some c ∧
      ((∀ order, ∃ w, c.popCommit order = .ok w) ↔ KeysKept u.db u.top)) := by
  have hrec := h.recorded hvalid
  refine ⟨⟨hrec.keysKept_of_undo, fun hkeys order ↦ ?_⟩, fun hzero ↦ ?_⟩
  · obtain ⟨w, hw, -⟩ := (hrec.undo order).exists_ok_of fun _ hcollide ↦ hcollide hkeys
    exact ⟨w, hw⟩
  · refine ⟨_, (hrec.popCommit_eq hzero).1, hrec.keysKept_of_popCommit hzero, fun hkeys order ↦ ?_⟩
    obtain ⟨w, hw, -⟩ := (hrec.popCommit hzero order).exists_ok_of
      fun _ hcollide ↦ hcollide hkeys
    exact ⟨w, hw⟩

/-! ### Exactness -/

/-- Undoing a session brings back the state it was started in, in whatever order its record is walked. -/
def UndoneExactly [SecondaryIndex ι α β] (u₀ u : UndoDatabase ι σ α β) : Prop :=
  ∀ order, ∃ w, u.undo order = .ok w ∧ SameState u₀ w

/-- Merging a nested session and undoing then gives the same as undoing both. -/
def MergedExactly [SecondaryIndex ι α β] (v : UndoDatabase ι σ α β) : Prop :=
  ∃ m, v.merge = some m ∧ ∀ order order', ∃ w x, m.undo order = .ok w ∧ v.undo order' = .ok x ∧
    ∀ order'', ∃ y, x.undo order'' = .ok y ∧ SameState w y

/-- `popCommit` takes back a session that has been committed. -/
def TakenBackExactly [SecondaryIndex ι α β] (u₀ u : UndoDatabase ι σ α β) : Prop :=
  ∃ c, u.commit = some c ∧ ∀ order, ∃ w, c.popCommit order = .ok w ∧ SameState u₀ w

theorem SessionRecorded.undoneExactly [SecondaryIndex ι α β] (h : SessionRecorded u₀ u)
    (hkeys : KeysKept u.db u.top) : UndoneExactly u₀ u :=
  fun order ↦ (h.undo order).exists_ok_of fun _ hcollide ↦ hcollide hkeys

theorem SessionRecorded.keysKept_of_merged [SecondaryIndex ι α β] (h : SessionRecorded u₀ u)
    (hv : SessionRecorded u v) (hexact : MergedExactly v) : KeysKept v.db (u.top.merge v.top) := by
  obtain ⟨m, hm, hdb, htop, hrecm⟩ := h.merge hv
  obtain ⟨m', hm', hexact⟩ := hexact
  obtain rfl := Option.some.inj (hm.symm.trans hm')
  rw [← htop, ← hdb]
  refine hrecm.keysKept_of_undo fun order ↦ ?_
  obtain ⟨w, -, hw, -⟩ := hexact order (UndoOrder.sorted _)
  exact ⟨w, hw⟩

/-- **When undo and merge are exact**: undoing a session, and `popCommit` after a commit, bring back the
objects, the next ids and the records of its start exactly when no old value of its record collides; and
merging a nested session and undoing then gives the same as undoing both exactly when no old value of the
three records does. -/
theorem undo_merge_exact_iff [SecondaryIndex ι α β] (hvalid : u₀.db.Valid) (h : InSession u₀ u) :
    (UndoneExactly u₀ u ↔ KeysKept u.db u.top) ∧
    (∀ v, InSession u v → (MergedExactly v ↔
      KeysKept v.db (u.top.merge v.top) ∧ KeysKept v.db v.top ∧ KeysKept u.db u.top)) ∧
    (u₀.activeSessions = 0 → (TakenBackExactly u₀ u ↔ KeysKept u.db u.top)) := by
  have hrec := h.recorded hvalid
  refine ⟨⟨fun hexact ↦ hrec.keysKept_of_undo fun order ↦ ?_, hrec.undoneExactly⟩, fun v hv ↦ ?_,
    fun hzero ↦ ?_⟩
  · exact (hexact order).imp fun _ hw ↦ hw.1
  · have hrecv := hv.recorded hrec.recorded.after
    constructor
    · intro hmerged
      have hkeysm := hrec.keysKept_of_merged hrecv hmerged
      obtain ⟨m, -, hexact⟩ := hmerged
      have hkeysv : KeysKept v.db v.top := by
        refine hrecv.keysKept_of_undo fun order ↦ ?_
        obtain ⟨-, x, -, hx, -⟩ := hexact (UndoOrder.sorted _) order
        exact ⟨x, hx⟩
      -- the nested session is undone to the state in which it was started
      obtain ⟨w, x, -, hx, hrest⟩ := hexact (UndoOrder.sorted _) (UndoOrder.sorted _)
      have hsame : SameState u x := (hrecv.undo _).of_ok hx
      have hkeysx := (hrec.of_sameState hsame).keysKept_of_undo fun order ↦
        (hrest order).imp fun _ hy ↦ hy.1
      rw [UndoDatabase.top, hsame.stack] at hkeysx
      refine ⟨hkeysm, hkeysv, hkeysx.of_sameObjects ?_⟩
      exact ⟨hsame.objects.1.symm, hsame.objects.2.symm⟩
    · rintro ⟨hkeysm, hkeysv, hkeys⟩
      obtain ⟨m, hm, hdb, htop, hrecm⟩ := hrec.merge hrecv
      rw [← htop, ← hdb] at hkeysm
      refine ⟨m, hm, fun order order' ↦ ?_⟩
      obtain ⟨w, hw, hsamew⟩ := hrecm.undoneExactly hkeysm order
      obtain ⟨x, hx, hsamex⟩ := hrecv.undoneExactly hkeysv order'
      have hkeysx : KeysKept x.db x.top := by
        rw [UndoDatabase.top, hsamex.stack]
        exact hkeys.of_sameObjects hsamex.objects
      refine ⟨w, x, hw, hx, fun order'' ↦ ?_⟩
      obtain ⟨y, hy, hsamey⟩ := (hrec.of_sameState hsamex).undoneExactly hkeysx order''
      exact ⟨y, hy, hsamew.symm.trans hsamey⟩
  · obtain ⟨hcommit, -⟩ := hrec.popCommit_eq hzero
    constructor
    · rintro ⟨c, hc, hexact⟩
      obtain rfl := Option.some.inj (hcommit.symm.trans hc)
      exact hrec.keysKept_of_popCommit hzero fun order ↦ (hexact order).imp fun _ hw ↦ hw.1
    · intro hkeys
      exact ⟨_, hcommit, fun order ↦ (hrec.popCommit hzero order).exists_ok_of
        fun _ hcollide ↦ hcollide hkeys⟩

/-! ### Running sessions -/

instance (d : ObjectDatabase ι σ α β) (st : UndoState ι σ α) : Decidable (KeysKept d st) :=
  decidable_of_iff
    (∀ p ∈ st.oldValues.toList, ∀ q ∈ d.objects.toList, q.1 ≠ p.1 →
      st.newIds.contains q.1 = true ∨ st.oldValues.contains q.1 = true →
        UniqueKeys.collide q.2 p.2 = false)
    ⟨fun h i a j b hold hb ↦
      h (i, a) (FlatMap.find?_eq_some_iff.1 hold) (j, b) (FlatMap.find?_eq_some_iff.1 hb),
    fun h p hp q hq ↦
      h p.1 p.2 q.1 q.2 (FlatMap.find?_eq_some_iff.2 hp) (FlatMap.find?_eq_some_iff.2 hq)⟩

/-- The state after a call, and the state before if it fails. -/
def UndoDatabase.after [SecondaryIndex ι α β] (u : UndoDatabase ι σ α β) (c : Call ι σ α) :
    UndoDatabase ι σ α β :=
  match u.call c with
  | .ok v => v
  | .error _ => u

theorem InSession.after [SecondaryIndex ι α β] (h : InSession u₀ u) {c : Call ι σ α}
    (hok : (u.call c).toBool = true) : InSession u₀ (u.after c) := by
  rw [UndoDatabase.after]
  cases hcall : u.call c with
  | ok v => exact h.call hcall
  | error e =>
    rw [hcall] at hok
    cases hok

/-- An over-full stack loses its oldest records before a session is started. -/
def UndoDatabase.trim (u : UndoDatabase ι σ α β) : UndoDatabase ι σ α β :=
  { u with stack := u.stack.take u.maxSize }

/-- **A session over an over-full stack** is a session over the trimmed one. -/
theorem InSession.start_trim [SecondaryIndex ι α β] (u₀ : UndoDatabase ι σ α β) :
    InSession u₀.trim u₀.startUndoSession := by
  have hstart : u₀.trim.startUndoSession = u₀.startUndoSession := by
    rw [UndoDatabase.startUndoSession, UndoDatabase.trim, List.take_take, min_self]
    rfl
  rw [← hstart]
  exact .start (List.length_take_le _ _)

end Playchain
