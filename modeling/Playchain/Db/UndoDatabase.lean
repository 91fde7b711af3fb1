import Playchain.Db.ObjectDatabase

/-!
# The undo database

A session records how to take back what is done to the objects: the ids of the objects it has created,
the old values of those it has modified, and the values of those it has removed. Undoing a session
first restores the old values, then removes the new objects, resets the next ids and inserts the
removed objects again. The containers of a record are unordered: `UndoOrder` is the order in which they
happen to be walked.
-/

namespace Playchain

/-- `undo_state` -/
structure UndoState (ι σ α : Type*) [LinearOrder ι] [LinearOrder σ] where
  oldValues : FlatMap ι α := ∅
  oldIndexNextIds : FlatMap σ ℕ := ∅
  newIds : FlatSet ι := ∅
  removed : FlatMap ι α := ∅

namespace UndoState

variable {ι σ α : Type*} [LinearOrder ι] [LinearOrder σ]

/-- `on_create` of the object with the next id of an index -/
def onCreate [ObjectIds ι σ] (st : UndoState ι σ α) (s : σ) (n : ℕ) : UndoState ι σ α :=
  { st with
    oldIndexNextIds :=
      if st.oldIndexNextIds.contains s then st.oldIndexNextIds else st.oldIndexNextIds.insert s n
    newIds := st.newIds.add (ObjectIds.objectId s n) }

/-- `on_modify` -/
def onModify (st : UndoState ι σ α) (i : ι) (a : α) : UndoState ι σ α :=
  if st.newIds.contains i then st
  else if st.oldValues.contains i then st
  else { st with oldValues := st.oldValues.insert i a }

/-- `on_remove` -/
def onRemove (st : UndoState ι σ α) (i : ι) (a : α) : UndoState ι σ α :=
  if st.newIds.contains i then { st with newIds := st.newIds.erase i }
  else
    match st.oldValues.find? i with
    | some old =>
      { st with removed := st.removed.insert i old, oldValues := st.oldValues.erase i }
    | none =>
      if st.removed.contains i then st else { st with removed := st.removed.insert i a }

/-! ### Merging -/

/-- The loop of `merge` over the modified objects. -/
def mergeOldValue (prev : UndoState ι σ α) (p : ι × α) : UndoState ι σ α :=
  if prev.newIds.contains p.1 then prev
  else if prev.oldValues.contains p.1 then prev
  else { prev with oldValues := prev.oldValues.insert p.1 p.2 }

/-- The loop of `merge` over the next ids. -/
def mergeNextId (prev : UndoState ι σ α) (p : σ × ℕ) : UndoState ι σ α :=
  if prev.oldIndexNextIds.contains p.1 then prev
  else { prev with oldIndexNextIds := prev.oldIndexNextIds.insert p.1 p.2 }

/-- The loop of `merge` over the removed objects. -/
def mergeRemoved (prev : UndoState ι σ α) (p : ι × α) : UndoState ι σ α :=
  if prev.newIds.contains p.1 then { prev with newIds := prev.newIds.erase p.1 }
  else
    match prev.oldValues.find? p.1 with
    | some old =>
      { prev with removed := prev.removed.insert p.1 old, oldValues := prev.oldValues.erase p.1 }
    | none => { prev with removed := prev.removed.insert p.1 p.2 }

/-- `merge` of a session into the one it was started in -/
def merge (prev st : UndoState ι σ α) : UndoState ι σ α :=
  let prev := st.oldValues.toList.foldl mergeOldValue prev
  let prev := { prev with newIds := st.newIds.elements.foldl FlatSet.add prev.newIds }
  let prev := st.oldIndexNextIds.toList.foldl mergeNextId prev
  st.removed.toList.foldl mergeRemoved prev

end UndoState

/-! ### Calls -/

section Calls

variable {ι σ α β : Type*} [LinearOrder ι] [LinearOrder σ] [UniqueKeys α] [SecondaryIndex ι α β]
  [ObjectIds ι σ]

/-- What an evaluator does to the objects. -/
inductive Call (ι σ α : Type*) where
  | create (s : σ) (a : α)
  | modify (i : ι) (g : α → α)
  | remove (i : ι)

/-- A call in a session. A failure carries what it leaves behind. -/
def Call.run (d : ObjectDatabase ι σ α β) (st : UndoState ι σ α) :
    Call ι σ α → Except (ObjectDatabase ι σ α β × UndoState ι σ α)
      (ObjectDatabase ι σ α β × UndoState ι σ α)
  | create s a =>
    match d.create s a with
    | some d' => .ok (d', st.onCreate s (d.nextId s))
    | none => .error (d, st)
  | modify i g =>
    match d.objects.find? i with
    | none => .error (d, st)
    | some a =>
      match d.modify i a (g a) with
      | .ok d' => .ok (d', st.onModify i a)
      | .error d' => .error (d', st.onModify i a)
  | remove i =>
    match d.objects.find? i with
    | none => .error (d, st)
    | some a => .ok (d.remove i a, st.onRemove i a)

/-! ### Undoing -/

/-- An order in which the containers of a record are walked. -/
structure UndoOrder (st : UndoState ι σ α) where
  oldValues : List (ι × α)
  newIds : List ι
  removed : List (ι × α)
  oldValues_perm : oldValues.Perm st.oldValues.toList
  newIds_perm : newIds.Perm st.newIds.elements
  removed_perm : removed.Perm st.removed.toList

/-- The order of the ids. -/
def UndoOrder.sorted (st : UndoState ι σ α) : UndoOrder st :=
  ⟨st.oldValues.toList, st.newIds.elements, st.removed.toList, .refl _, .refl _, .refl _⟩

/-- Restore an old value; `get_object` asserts that the object is there. -/
def restoreOldValue (d : ObjectDatabase ι σ α β) (p : ι × α) :
    Except (ObjectDatabase ι σ α β) (ObjectDatabase ι σ α β) :=
  match d.objects.find? p.1 with
  | none => .error d
  | some a => d.modify p.1 a p.2

/-- Remove a new object; `get_object` asserts that the object is there. -/
def removeNewObject (d : ObjectDatabase ι σ α β) (i : ι) :
    Except (ObjectDatabase ι σ α β) (ObjectDatabase ι σ α β) :=
  match d.objects.find? i with
  | none => .error d
  | some a => .ok (d.remove i a)

/-- Insert a removed object again. -/
def insertRemovedObject (d : ObjectDatabase ι σ α β) (p : ι × α) :
    Except (ObjectDatabase ι σ α β) (ObjectDatabase ι σ α β) :=
  match d.insert p.1 p.2 with
  | some d' => .ok d'
  | none => .error d

/-- The common body of `undo` and `pop_commit`: take back what a record says. While it runs, the undo
database is disabled and nothing is recorded. -/
def restore (d : ObjectDatabase ι σ α β) (st : UndoState ι σ α) (order : UndoOrder st) :
    Except (ObjectDatabase ι σ α β) (ObjectDatabase ι σ α β) := do
  let d ← order.oldValues.foldlM restoreOldValue d
  let d ← order.newIds.foldlM removeNewObject d
  let d := { d with nextId := st.oldIndexNextIds.toList.foldl (fun next p ↦
    Function.update next p.1 p.2) d.nextId }
  order.removed.foldlM insertRemovedObject d

end Calls

/-! ### Sessions -/

/-- `undo_database`, with the objects it watches over. The latest record comes first. -/
structure UndoDatabase (ι σ α β : Type*) [LinearOrder ι] [LinearOrder σ] where
  db : ObjectDatabase ι σ α β
  stack : List (UndoState ι σ α) := []
  activeSessions : ℕ := 0
  maxSize : ℕ := 256

namespace UndoDatabase

variable {ι σ α β : Type*} [LinearOrder ι] [LinearOrder σ]

/-- The record that is written to: `_stack.back()`, which is created when there is none. -/
def top (u : UndoDatabase ι σ α β) : UndoState ι σ α := u.stack.headD {}

/-- `start_undo_session`: the oldest records are given up when there are too many. -/
def startUndoSession (u : UndoDatabase ι σ α β) : UndoDatabase ι σ α β :=
  { u with
    stack := {} :: u.stack.take u.maxSize
    activeSessions := u.activeSessions + 1 }

/-- `merge` into the session below; a session that is not within another one is given up. -/
def merge (u : UndoDatabase ι σ α β) : Option (UndoDatabase ι σ α β) :=
  if u.activeSessions = 0 then none
  else
    match u.stack with
    | [_] =>
      if u.activeSessions = 1 then some { u with stack := [], activeSessions := 0 } else none
    | st :: prev :: rest =>
      some { u with stack := prev.merge st :: rest, activeSessions := u.activeSessions - 1 }
    | [] => none

/-- `commit` -/
def commit (u : UndoDatabase ι σ α β) : Option (UndoDatabase ι σ α β) :=
  if u.activeSessions = 0 then none
  else some { u with activeSessions := u.activeSessions - 1 }

variable [UniqueKeys α] [SecondaryIndex ι α β]

/-- A call of an evaluator; a failure carries what it leaves behind of the objects and the record. -/
def call [ObjectIds ι σ] (u : UndoDatabase ι σ α β) (c : Call ι σ α) :
    Except (ObjectDatabase ι σ α β × UndoState ι σ α) (UndoDatabase ι σ α β) := do
  let (d, st) ← c.run u.db u.top
  return { u with db := d, stack := st :: u.stack.tail }

/-- `undo` of the latest session; a failure carries the objects it leaves behind. -/
def undo (u : UndoDatabase ι σ α β) (order : UndoOrder u.top) :
    Except (ObjectDatabase ι σ α β) (UndoDatabase ι σ α β) :=
  if u.activeSessions = 0 ∨ u.stack = [] then .error u.db
  else do
    let d ← restore u.db u.top order
    return { u with db := d, stack := u.stack.tail, activeSessions := u.activeSessions - 1 }

/-- `pop_commit` -/
def popCommit (u : UndoDatabase ι σ α β) (order : UndoOrder u.top) :
    Except (ObjectDatabase ι σ α β) (UndoDatabase ι σ α β) :=
  if u.activeSessions ≠ 0 ∨ u.stack = [] then .error u.db
  else do
    let d ← restore u.db u.top order
    return { u with db := d, stack := u.stack.tail }

end UndoDatabase

end Playchain
