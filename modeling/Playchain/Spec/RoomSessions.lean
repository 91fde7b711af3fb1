import Playchain.Spec.Runs
import Playchain.Spec.Sessions

/-!
# Rooms in a session

The rooms of the chain as an object database: a room has the unique key (owner, metadata). The creation
of a room checks this key before anything is changed. The update of a room does not: a collision is
met inside `modify`, which erases the room, after its old value has been recorded. The record then
names an object that is not there any more, and cannot be taken back (`roomUpdate_taken_back_iff`).
-/

namespace Playchain

/-- `by_room_owner_and_metadata` -/
instance : UniqueKeys RoomObject where
  collide a b := (a.owner, a.metadata) = (b.owner, b.metadata)
  collide_comm a b := by
    rw [decide_eq_decide]
    exact eq_comm

/-- Rooms have no secondary index. -/
instance : SecondaryIndex RoomId RoomObject Unit where
  empty := ()

/-- An object database of rooms. -/
abbrev RoomDatabase := ObjectDatabase RoomId Unit RoomObject Unit

/-- The rooms of the chain. -/
def Database.roomObjects (d : Database) : RoomDatabase := ⟨d.rooms.objects, fun _ ↦ d.rooms.nextId, ()⟩

theorem valid_roomObjects (d : Database) : d.roomObjects.Valid where
  unique _ _ _ _ ha hb hne := decide_eq_false fun hkey ↦ hne (d.rooms.unique ha hb hkey)
  lt_nextId _ n a ha := d.rooms.lt_nextId (n, a) (FlatMap.find?_eq_some_iff.1 ha)

/-- What `room_update_evaluator` does to the room. The version has been checked before. -/
def RoomUpdate.update (op : RoomUpdate) (room : RoomObject) : RoomObject :=
  { room with
    serverUrl := op.serverUrl
    metadata := op.metadata
    protocolVersion :=
      (VersionExt.fromVariant op.protocolVersion room.protocolVersion).toOption.getD
        room.protocolVersion }

/-- The call of `room_update_evaluator`. -/
def RoomUpdate.call (op : RoomUpdate) : Call RoomId Unit RoomObject := .modify op.room op.update

/-- The call of `room_create_evaluator`. -/
def RoomCreate.call (room : RoomObject) : Call RoomId Unit RoomObject := .create () room

/-- A room update in a session. A failure carries what it leaves behind. -/
def roomUpdateInSession (d : Database) (u : UndoDatabase RoomId Unit RoomObject Unit)
    (op : RoomUpdate) :
    Except (UndoDatabase RoomId Unit RoomObject Unit) (UndoDatabase RoomId Unit RoomObject Unit) :=
  match evaluateRoomUpdate d op with
  | .error _ => .error u
  | .ok _ =>
    match op.call.run u.db u.top with
    | .ok (e, st) => .ok { u with db := e, stack := st :: u.stack.tail }
    | .error (e, st) => .error { u with db := e, stack := st :: u.stack.tail }

/-! ### What is checked -/

section Update

variable {d : Database} {op : RoomUpdate}

/-- Another room of the owner has the metadata of the update. -/
def RoomUpdate.Collides (d : Database) (op : RoomUpdate) : Prop :=
  ∃ j room, d.rooms.find? j = some room ∧ j ≠ op.room ∧ room.owner = op.owner ∧
    room.metadata = op.metadata

/-- Whether a version is accepted does not depend on what it replaces. -/
theorem fromVariant_ok {text : String} {target version : VersionExt} (target' : VersionExt)
    (h : VersionExt.fromVariant text target = .ok version) :
    ∃ version', VersionExt.fromVariant text target' = .ok version' := by
  rw [VersionExt.fromVariant, Except.bind_eq_ok] at h
  obtain ⟨base, hbase, -⟩ := h
  rw [VersionExt.fromVariant, hbase, Except.ok_bind]
  split
  · exact ⟨_, rfl⟩
  · exact ⟨_, rfl⟩

/-- An update that is accepted is of a room of the owner. -/
theorem evaluateRoomUpdate_ok (h : evaluateRoomUpdate d op = .ok ()) :
    ∃ room version, d.rooms.find? op.room = some room ∧ room.owner = op.owner ∧
      VersionExt.fromVariant op.protocolVersion room.protocolVersion = .ok version := by
  rw [evaluateRoomUpdate, Except.bind_eq_ok] at h
  obtain ⟨checked, hversion, h⟩ := h
  rw [Except.bind_eq_ok] at h
  obtain ⟨-, -, h⟩ := h
  rw [Except.bind_eq_ok] at h
  obtain ⟨owned, howned, h⟩ := h
  rw [fcAssert_eq_ok] at h
  rw [isRoomOwnerOf, Except.bind_eq_ok] at howned
  obtain ⟨room, hroom, howned⟩ := howned
  rw [Except.pure_eq_ok] at howned
  obtain ⟨version, hversion⟩ := fromVariant_ok room.protocolVersion hversion
  exact ⟨room, version, orUnableToFind_eq_ok.1 hroom, of_decide_eq_true (howned.trans h), hversion⟩

/-- The updated room is admitted unless another room of the owner has its metadata. -/
theorem admits_update {room : RoomObject} (howner : room.owner = op.owner) :
    d.roomObjects.admits op.room (op.update room) = true ↔ ¬op.Collides d := by
  rw [admits_iff]
  constructor
  · rintro hfree ⟨j, other, hother, hne, ho, hm⟩
    have hcollide := of_decide_eq_false (hfree j other hother hne)
    refine hcollide (Prod.ext ?_ hm)
    exact ho.trans howner.symm
  · intro hfree j other hother hne
    refine decide_eq_false fun hkey ↦ hfree ⟨j, other, hother, hne, ?_, ?_⟩
    · exact (congrArg Prod.fst hkey).trans howner
    · exact congrArg Prod.snd hkey

/-! ### The calls of the evaluators -/

/-- **A room update is its call**, in whatever session. -/
theorem run_roomUpdate {d' : Database} (h : applyRoomUpdate d op = .ok d') :
    ∃ room, d.rooms.find? op.room = some room ∧ ∀ st : UndoState RoomId Unit RoomObject,
      op.call.run d.roomObjects st = .ok (d'.roomObjects, st.onModify op.room room) := by
  rw [applyRoomUpdate, Except.bind_eq_ok] at h
  obtain ⟨room, hroom, h⟩ := h
  have hfind : d.rooms.find? op.room = some room := orUnableToFind_eq_ok.1 hroom
  rw [Except.bind_eq_ok] at h
  obtain ⟨version, hversion, h⟩ := h
  rw [Except.bind_eq_ok] at h
  obtain ⟨rooms, hrooms, h⟩ := h
  obtain rfl := Except.pure_eq_ok.1 h
  have hmodify := UniqueIndex.modify?_eq_some (orNotModified_eq_ok.1 hrooms)
  have hupdate : { room with
      serverUrl := op.serverUrl
      metadata := op.metadata
      protocolVersion := version } = op.update room := by
    rw [RoomUpdate.update, hversion]
    rfl
  -- the new rooms are the old ones with the updated room
  have hobjects : rooms.objects = d.rooms.objects.insert op.room (op.update room) := by
    refine FlatMap.ext_find? fun j ↦ ?_
    have hj := congrArg (fun x ↦ x.find? j) hmodify
    rw [FlatMap.find?_insert]
    refine hj.trans ?_
    rw [ObjectIndex.find?_modify]
    split_ifs with hji
    · rw [hji, hfind, Option.map_some, hupdate]
    · rfl
  have hadmits : d.roomObjects.admits op.room (op.update room) = true := by
    refine admits_iff.2 fun j other hother hne ↦ decide_eq_false fun hkey ↦ hne ?_
    refine rooms.unique (a := other) (b := op.update room) ?_ ?_ hkey
    · rw [ObjectIndex.find?, hobjects, FlatMap.find?_insert_of_ne _ _ hne]
      exact hother
    · rw [ObjectIndex.find?, hobjects, FlatMap.find?_insert_self]
  refine ⟨room, hfind, fun st ↦ ?_⟩
  have hfind' : d.roomObjects.objects.find? op.room = some room := hfind
  rw [RoomUpdate.call, Call.run, hfind']
  dsimp only
  rw [ObjectDatabase.modify, if_pos hadmits]
  dsimp only [Database.roomObjects]
  rw [hobjects, hmodify]
  rfl

/-- A new game witness does not touch the rooms. -/
theorem registerGameWitness_rooms {d' : Database} {account : AccountId}
    (h : registerGameWitness d account = .ok d') : d'.rooms = d.rooms := by
  rw [registerGameWitness] at h
  split at h
  · rw [Except.pure_eq_ok.1 h]
  · obtain ⟨witnesses, -, h⟩ := Except.bind_eq_ok.1 h
    rw [← Except.pure_eq_ok.1 h]
    rfl

/-- **A room creation is its call**, in whatever session. -/
theorem run_roomCreate {op : RoomCreate} {d' : Database} (h : applyRoomCreate d op = .ok d') :
    ∃ room : RoomObject, room.owner = op.owner ∧ room.metadata = op.metadata ∧
      d'.rooms.find? d.rooms.nextId = some room ∧ ∀ st : UndoState RoomId Unit RoomObject, (RoomCreate.call room).run d.roomObjects st =
        .ok (d'.roomObjects, st.onCreate () d.rooms.nextId) := by
  rw [applyRoomCreate, Except.bind_eq_ok] at h
  obtain ⟨-, -, h⟩ := h
  rw [Except.bind_eq_ok] at h
  obtain ⟨-, -, h⟩ := h
  rw [Except.bind_eq_ok] at h
  obtain ⟨d₁, hd₁, h⟩ := h
  have hsame := registerGameWitness_rooms hd₁
  rw [Except.bind_eq_ok] at h
  obtain ⟨version, -, h⟩ := h
  rw [Except.bind_eq_ok] at h
  obtain ⟨rooms, hrooms, h⟩ := h
  obtain rfl := Except.pure_eq_ok.1 h
  obtain ⟨room, hroom⟩ : ∃ room : RoomObject, room = {
      owner := op.owner
      serverUrl := op.serverUrl
      metadata := op.metadata
      protocolVersion := version
      rating := if hardforkPlaychain5Time ≤ d₁.headBlockTime then toInt32 d₁.averageRoomRating
        else 0 } := ⟨_, rfl⟩
  rw [← hroom, hsame] at hrooms
  obtain ⟨hfree, hcreate⟩ := UniqueIndex.create?_eq_some (orViolation_eq_ok.1 hrooms)
  have hobjects : rooms.objects = d.rooms.objects.insert d.rooms.nextId room :=
    congrArg ObjectIndex.objects hcreate
  have hnext : rooms.nextId = d.rooms.nextId + 1 := congrArg ObjectIndex.nextId hcreate
  refine ⟨room, by rw [hroom], by rw [hroom], ?_, fun st ↦ ?_⟩
  · rw [ObjectIndex.find?, hobjects, FlatMap.find?_insert_self]
  have hadmits : d.roomObjects.admits d.rooms.nextId room = true :=
    admits_iff.2 fun j other hother _ ↦
      decide_eq_false (UniqueIndex.findKey?_eq_none_iff.1 hfree j other hother)
  have hnew : d.roomObjects.objects.contains d.rooms.nextId = false :=
    FlatMap.contains_eq_false_iff.2 (ObjectIndex.find?_nextId d.rooms.toObjectIndex)
  refine (run_create (s := ()) hnew hadmits st).trans ?_
  dsimp only [Database.roomObjects]
  rw [hobjects, hnext, Function.update_eq_const_of_subsingleton]
  rfl

/-! ### The update in a session -/

/-- A session leads to valid objects, or it can be taken back. -/
def ValidOrTakenBack (u₀ : UndoDatabase RoomId Unit RoomObject Unit) :
    Except (UndoDatabase RoomId Unit RoomObject Unit) (UndoDatabase RoomId Unit RoomObject Unit) → Prop
  | .ok u => u.db.Valid
  | .error u => ∀ order, ∃ w, u.undo order = .ok w ∧ SameState u₀ w

/-- The record of a modified object, without the object, cannot be taken back. -/
theorem undo_erased {u : UndoDatabase RoomId Unit RoomObject Unit} {i : RoomId} {a : RoomObject}
    (hfind : u.db.objects.find? i = none) (hactive : u.activeSessions ≠ 0)
    (hold : u.top.oldValues = (∅ : FlatMap RoomId RoomObject).insert i a) (order : UndoOrder u.top) :
    u.undo order = .error u.db := by
  have horder : order.oldValues = [(i, a)] := by
    have hperm := order.oldValues_perm
    rw [hold] at hperm
    exact List.perm_singleton.1 hperm
  have hrestore : restore u.db u.top order = .error u.db := by
    rw [restore, horder, List.foldlM_cons, restoreOldValue, hfind]
    rfl
  have hstack : u.stack ≠ [] := by
    intro hnil
    rw [UndoDatabase.top, hnil] at hold
    cases hold
  rw [UndoDatabase.undo, if_neg (not_or.2 ⟨hactive, hstack⟩), hrestore]
  rfl

variable {u₀ : UndoDatabase RoomId Unit RoomObject Unit}

/-- **An update that collides cannot be taken back.** -/
theorem not_takenBack_of_collides (hdb : u₀.db = d.roomObjects)
    (heval : evaluateRoomUpdate d op = .ok ()) (hcollides : op.Collides d) :
    ¬ValidOrTakenBack u₀ (roomUpdateInSession d u₀.startUndoSession op) := by
  obtain ⟨room, -, hroom, howner, -⟩ := evaluateRoomUpdate_ok heval
  have hfind : u₀.startUndoSession.db.objects.find? op.room = some room := by
    rw [UndoDatabase.startUndoSession, hdb]
    exact hroom
  have hadmits := (admits_update (d := d) howner).not.2 (not_not.2 hcollides)
  rw [← hdb] at hadmits
  have hmodify : u₀.startUndoSession.db.modify op.room room (op.update room) = .error _ :=
    if_neg hadmits
  intro htaken
  unfold roomUpdateInSession at htaken
  rw [heval, RoomUpdate.call, Call.run, hfind] at htaken
  dsimp only at htaken
  rw [hmodify] at htaken
  obtain ⟨w, hw, -⟩ := htaken (UndoOrder.sorted _)
  rw [undo_erased (i := op.room) (a := room) (FlatMap.find?_erase_self _ _) (Nat.succ_ne_zero _) rfl]
    at hw
  cases hw

/-- An update that is refused leaves nothing to take back. -/
theorem takenBack_of_refused (hvalid : u₀.db.Valid) (hsize : u₀.stack.length ≤ u₀.maxSize)
    {e : ChainError} (heval : evaluateRoomUpdate d op = .error e) :
    ValidOrTakenBack u₀ (roomUpdateInSession d u₀.startUndoSession op) := by
  have hkept : KeysKept u₀.startUndoSession.db u₀.startUndoSession.top := by
    intro i a j b hold
    cases hold
  unfold roomUpdateInSession
  rw [heval]
  intro order
  exact ((SessionRecorded.start hvalid hsize).undo order).exists_ok_of
    fun _ hcollide ↦ hcollide hkept

/-- An update that does not collide keeps the keys of rooms unique. -/
theorem valid_of_not_collides (hdb : u₀.db = d.roomObjects) (hsize : u₀.stack.length ≤ u₀.maxSize)
    (heval : evaluateRoomUpdate d op = .ok ()) (hcollides : ¬op.Collides d) :
    ValidOrTakenBack u₀ (roomUpdateInSession d u₀.startUndoSession op) := by
  have hvalid : u₀.db.Valid := hdb ▸ valid_roomObjects d
  obtain ⟨room, -, hroom, howner, -⟩ := evaluateRoomUpdate_ok heval
  have hfind : u₀.startUndoSession.db.objects.find? op.room = some room := by
    rw [UndoDatabase.startUndoSession, hdb]
    exact hroom
  have hadmits := (admits_update (d := d) howner).2 hcollides
  rw [← hdb] at hadmits
  have hmodify : u₀.startUndoSession.db.modify op.room room (op.update room) = .ok _ :=
    if_pos hadmits
  unfold roomUpdateInSession
  rw [heval, RoomUpdate.call, Call.run, hfind]
  dsimp only
  rw [hmodify]
  exact ((SessionRecorded.start hvalid hsize).recorded.modify hfind hmodify).after

/-- **When a room update leaves nothing behind**: it is refused, or no other room of the owner has its
metadata. -/
theorem roomUpdate_taken_back_iff (d : Database) (op : RoomUpdate)
    (u₀ : UndoDatabase RoomId Unit RoomObject Unit) (hdb : u₀.db = d.roomObjects)
    (hsize : u₀.stack.length ≤ u₀.maxSize) :
    ValidOrTakenBack u₀ (roomUpdateInSession d u₀.startUndoSession op) ↔
      ¬(evaluateRoomUpdate d op = .ok () ∧ op.Collides d) := by
  have hvalid : u₀.db.Valid := hdb ▸ valid_roomObjects d
  refine ⟨fun htaken h ↦ not_takenBack_of_collides hdb h.1 h.2 htaken, fun hnot ↦ ?_⟩
  generalize heval : evaluateRoomUpdate d op = x at hnot
  rcases x with e | ⟨⟩
  · exact takenBack_of_refused hvalid hsize heval
  · exact valid_of_not_collides hdb hsize heval fun hcollides ↦ hnot ⟨rfl, hcollides⟩

end Update

/-- A room whose owner has another one, with the metadata of the update. -/
theorem exists_room_collides : ∃ d, @Reachable sampleDigest sampleRating hardforkPlaychain11Time d ∧
    RoomUpdate.validate ⟨6, 1, "url", "other", "1.0.0"⟩ = .ok () ∧
    evaluateRoomUpdate d ⟨6, 1, "url", "other", "1.0.0"⟩ = .ok () ∧
    RoomUpdate.Collides d ⟨6, 1, "url", "other", "1.0.0"⟩ := by
  obtain ⟨d, hd, heval, hfind⟩ := @exists_reachable_of_run hardforkPlaychain11Time sampleDigest
    sampleRating 9 sampleClaimed
    [.operation (.roomCreate ⟨6, "url", "room", "1.0.0"⟩),
      .operation (.roomCreate ⟨6, "url", "other", "1.0.0"⟩)]
    (fun d ↦ (evaluateRoomUpdate d ⟨6, 1, "url", "other", "1.0.0"⟩).toBool = true ∧
      (d.rooms.find? 2).any (fun r ↦ r.owner = 6 ∧ r.metadata = "other") = true) _
    (by decide)
  refine ⟨d, hd, by decide, ?_, ?_⟩
  · generalize evaluateRoomUpdate d ⟨6, 1, "url", "other", "1.0.0"⟩ = x at heval
    rcases x with e | ⟨⟩
    · cases heval
    · rfl
  · rw [Option.any_eq_true] at hfind
    obtain ⟨r, hr, hkey⟩ := hfind
    obtain ⟨howner, hmetadata⟩ := of_decide_eq_true hkey
    exact ⟨2, r, hr, by decide, howner, hmetadata⟩

/-- A room update that is accepted, erases the room, and cannot be taken back. -/
theorem roomUpdate_not_taken_back :
    ∃ d, @Reachable sampleDigest sampleRating hardforkPlaychain11Time d ∧
      RoomUpdate.validate ⟨6, 1, "url", "other", "1.0.0"⟩ = .ok () ∧
      ∀ u₀ : UndoDatabase RoomId Unit RoomObject Unit, u₀.db = d.roomObjects →
        ¬ValidOrTakenBack u₀
          (roomUpdateInSession d u₀.startUndoSession ⟨6, 1, "url", "other", "1.0.0"⟩) := by
  obtain ⟨d, hd, hvalidate, heval, hcollides⟩ := exists_room_collides
  exact ⟨d, hd, hvalidate, fun u₀ hdb ↦ not_takenBack_of_collides hdb heval hcollides⟩

theorem roomUpdate_taken_back_collision :
    ∃ d, @Reachable sampleDigest sampleRating hardforkPlaychain11Time d ∧
      (ValidOrTakenBack { db := d.roomObjects }
        (roomUpdateInSession d (UndoDatabase.startUndoSession { db := d.roomObjects })
          ⟨6, 1, "url", "other", "1.0.0"⟩) ↔
        ¬(evaluateRoomUpdate d ⟨6, 1, "url", "other", "1.0.0"⟩ = .ok () ∧
          RoomUpdate.Collides d ⟨6, 1, "url", "other", "1.0.0"⟩)) := by
  obtain ⟨d, hd, -⟩ := exists_room_collides
  exact ⟨d, hd, roomUpdate_taken_back_iff d _ _ rfl (Nat.zero_le _)⟩

/-! ### A key that moves

An update frees the metadata of a room, and a new room of the owner takes it: every step is accepted,
but the old value of the first room cannot be restored while the second one is there. -/

theorem undo_moved_key {d d₁ d₂ : Database} {op : RoomUpdate} {op' : RoomCreate} {room : RoomObject}
    (hupdate : applyRoomUpdate d op = .ok d₁) (hcreate : applyRoomCreate d₁ op' = .ok d₂)
    (hroom : d.rooms.find? op.room = some room) (howner : op'.owner = room.owner)
    (hmetadata : op'.metadata = room.metadata) {u₀ : UndoDatabase RoomId Unit RoomObject Unit}
    (hdb : u₀.db = d.roomObjects) (hsize : u₀.stack.length ≤ u₀.maxSize) :
    ∃ u, InSession u₀ u ∧ u.db = d₂.roomObjects ∧ ∃ order e, u.undo order = .error e := by
  obtain ⟨room', hroom', hrun⟩ := run_roomUpdate hupdate
  obtain rfl := Option.some.inj (hroom.symm.trans hroom')
  obtain ⟨added, haddedOwner, haddedMetadata, hadded, hrun'⟩ := run_roomCreate hcreate
  obtain ⟨u₁, hu₁⟩ : ∃ u₁ : UndoDatabase RoomId Unit RoomObject Unit, u₁ = { u₀.startUndoSession with
      db := d₁.roomObjects
      stack := UndoState.onModify {} op.room room :: u₀.startUndoSession.stack.tail } := ⟨_, rfl⟩
  obtain ⟨u₂, hu₂⟩ : ∃ u₂ : UndoDatabase RoomId Unit RoomObject Unit, u₂ = { u₁ with
      db := d₂.roomObjects
      stack := u₁.top.onCreate () d₁.rooms.nextId :: u₁.stack.tail } := ⟨_, rfl⟩
  have hin₁ : InSession u₀ u₁ := by
    refine (InSession.start hsize).call (c := op.call) ?_
    rw [hu₁]
    refine call_eq_ok ?_
    rw [UndoDatabase.startUndoSession, hdb]
    exact hrun _
  have hin₂ : InSession u₀ u₂ := by
    refine hin₁.call (c := RoomCreate.call added) ?_
    rw [hu₂]
    refine call_eq_ok ?_
    rw [hu₁]
    exact hrun' _
  have hrec := hin₂.recorded (hdb ▸ valid_roomObjects d)
  have hold : u₂.top.oldValues.find? op.room = some room := by
    rw [hu₂, hu₁]
    exact FlatMap.find?_insert_self _ _ _
  have hnew : u₂.top.newIds.contains d₁.rooms.nextId = true := by
    rw [hu₂, hu₁]
    exact (contains_insert _ _ _ _).trans (if_pos rfl)
  have hbefore := (hrec.recorded.new_eq hnew).2.1
  have hb : u₂.db.objects.find? d₁.rooms.nextId = some added := by
    rw [hu₂]
    exact hadded
  have hcollide : ¬KeysKept u₂.db u₂.top := by
    intro hkeys
    have hne : d₁.rooms.nextId ≠ op.room := by
      rintro heq
      rw [heq, hdb] at hbefore
      cases hbefore.symm.trans hroom
    refine of_decide_eq_false (hkeys op.room room d₁.rooms.nextId added hold hb hne (.inl hnew)) ?_
    exact Prod.ext (haddedOwner.trans howner) (haddedMetadata.trans hmetadata)
  obtain ⟨order, e, he⟩ := exists_restore_error hrec.recorded hcollide
  refine ⟨u₂, hin₂, by rw [hu₂], order, e, ?_⟩
  rw [UndoDatabase.undo, if_neg hrec.undo_guard, he]
  rfl

theorem performOperation_of_apply [GameDigest] {d d' : Database} {op : Operation}
    (h : applyOperation d op = .ok d') : performOperation d op = .ok d' := by
  rw [applyOperation, Except.bind_eq_ok] at h
  obtain ⟨-, -, h⟩ := h
  rw [Except.bind_eq_ok] at h
  obtain ⟨-, -, h⟩ := h
  exact h

/-- **A session that cannot be taken back**: both operations are accepted, and undoing them fails. -/
theorem undo_fails_moved_key :
    ∃ d d₁ d₂, @Reachable sampleDigest sampleRating hardforkPlaychain11Time d ∧
      @applyOperation sampleDigest d (.roomUpdate ⟨6, 1, "url", "moved", "1.0.0"⟩) = .ok d₁ ∧
      @applyOperation sampleDigest d₁ (.roomCreate ⟨6, "url", "room", "1.0.0"⟩) = .ok d₂ ∧
      ∃ u, InSession { db := d.roomObjects } u ∧ u.db = d₂.roomObjects ∧
        ∃ order e, u.undo order = .error e := by
  obtain ⟨d, hd, hrun, hfind⟩ := @exists_reachable_of_run hardforkPlaychain11Time sampleDigest
    sampleRating 9 sampleClaimed [.operation (.roomCreate ⟨6, "url", "room", "1.0.0"⟩)]
    (fun d ↦ (do
        let d₁ ← @applyOperation sampleDigest d (.roomUpdate ⟨6, 1, "url", "moved", "1.0.0"⟩)
        @applyOperation sampleDigest d₁ (.roomCreate ⟨6, "url", "room", "1.0.0"⟩)).toBool = true ∧
      (d.rooms.find? 1).any (fun r ↦ r.owner = 6 ∧ r.metadata = "room") = true) _
    (by decide)
  generalize hx : (do
    let d₁ ← @applyOperation sampleDigest d (.roomUpdate ⟨6, 1, "url", "moved", "1.0.0"⟩)
    @applyOperation sampleDigest d₁ (.roomCreate ⟨6, "url", "room", "1.0.0"⟩)) = x at hrun
  rcases x with e | d₂
  · cases hrun
  · rw [Except.bind_eq_ok] at hx
    obtain ⟨d₁, hd₁, hd₂⟩ := hx
    rw [Option.any_eq_true] at hfind
    obtain ⟨room, hroom, hkey⟩ := hfind
    obtain ⟨howner, hmetadata⟩ := of_decide_eq_true hkey
    exact ⟨d, d₁, d₂, hd, hd₁, hd₂, undo_moved_key
      (@performOperation_of_apply sampleDigest _ _ _ hd₁)
      (@performOperation_of_apply sampleDigest _ _ _ hd₂) hroom howner.symm hmetadata.symm rfl
      (Nat.zero_le _)⟩

/-! ### A room in a session -/

/-- The rooms of a new chain. -/
def sampleRooms : UndoDatabase RoomId Unit RoomObject Unit := { db := (nullDatabase 0 9).roomObjects }

/-- A session in which a room is created. -/
theorem exists_session_room : ∃ u, InSession sampleRooms u ∧ sampleRooms.db.objects.find? 1 = none ∧
    u.db.objects.find? 1 = some { owner := 6, metadata := "room" } ∧ u.top.oldValues = ∅ := by
  have hrun := run_create (d := sampleRooms.startUndoSession.db) (s := ())
    (a := { owner := 6, metadata := "room" }) (by decide) (by decide) sampleRooms.startUndoSession.top
  exact ⟨_, (InSession.start (by decide)).call (call_eq_ok hrun), by decide,
    FlatMap.find?_insert_self _ _ _, rfl⟩

/-- A session with new and modified rooms. -/
def sampleSession : UndoDatabase RoomId Unit RoomObject Unit :=
  (sampleRooms.startUndoSession.after (.create () { owner := 6, metadata := "room" })).after
    (.modify 0 fun r ↦ { r with metadata := "null" })

/-- A session nested in it, with a room modified, one created and one removed. -/
def sampleNested : UndoDatabase RoomId Unit RoomObject Unit :=
  ((sampleSession.startUndoSession.after (.modify 1 fun r ↦ { r with rating := 5 })).after
    (.create () { owner := 6, metadata := "other" })).after (.remove 0)

theorem sampleSession_inSession : InSession sampleRooms sampleSession :=
  ((InSession.start (by decide)).after (by decide)).after (by decide)

theorem sampleNested_inSession : InSession sampleSession sampleNested :=
  (((InSession.start (by decide)).after (by decide)).after (by decide)).after (by decide)

/-- Sessions in which rooms are created, modified and removed. -/
theorem undo_merge_exact_rooms :
    UndoneExactly sampleRooms sampleSession ∧ MergedExactly sampleNested ∧
      TakenBackExactly sampleRooms sampleSession := by
  have h := undo_merge_exact_iff (valid_roomObjects _) sampleSession_inSession
  exact ⟨h.1.2 (by decide), (h.2.1 _ sampleNested_inSession).2 (by decide), (h.2.2 rfl).2 (by decide)⟩

/-- The rooms of a chain on which account 6 has one. -/
def ownedRooms : UndoDatabase RoomId Unit RoomObject Unit where
  db := Database.roomObjects { nullDatabase 0 9 with
    rooms := ((nullDatabase 0 9).rooms.create? { owner := 6, metadata := "room" }).getD ∅ }

/-- An update of the room. -/
def updateSession : UndoDatabase RoomId Unit RoomObject Unit :=
  ownedRooms.startUndoSession.after (.modify 1 fun r ↦ { r with metadata := "moved" })

/-- A session nested in it that creates a room with the metadata that has become free. -/
def createNested : UndoDatabase RoomId Unit RoomObject Unit :=
  updateSession.startUndoSession.after (.create () { owner := 6, metadata := "room" })

/-- **Merging is not exact**: undoing the creation and then the update is, and undoing them in one session
fails. -/
theorem undo_merge_moved_key :
    ¬ ∀ u₀ u v : UndoDatabase RoomId Unit RoomObject Unit, u₀.db.Valid → InSession u₀ u →
      InSession u v → UndoneExactly u₀ u → UndoneExactly u v → MergedExactly v := by
  intro h
  have hupdate : InSession ownedRooms updateSession := (InSession.start (by decide)).after (by decide)
  have hcreate : InSession updateSession createNested := (InSession.start (by decide)).after (by decide)
  have hrec := hupdate.recorded (valid_roomObjects _)
  have hrecv := hcreate.recorded hrec.recorded.after
  have hmerged := h _ _ _ (valid_roomObjects _) hupdate hcreate (hrec.undoneExactly (by decide))
    (hrecv.undoneExactly (by decide))
  exact absurd (hrec.keysKept_of_merged hrecv hmerged) (by decide)

theorem undo_completes_room : ∃ u : UndoDatabase RoomId Unit RoomObject Unit,
    sampleRooms.db.objects.find? 1 = none ∧
    u.db.objects.find? 1 = some { owner := 6, metadata := "room" } ∧
    ((∀ order, ∃ w, u.undo order = .ok w) ↔ KeysKept u.db u.top) := by
  obtain ⟨u, hu, hnone, hsome, -⟩ := exists_session_room
  exact ⟨u, hnone, hsome, (undo_completes_iff (valid_roomObjects _) hu).1⟩

end Playchain
