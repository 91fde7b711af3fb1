import Playchain.Spec.BlockTasks

/-!
# Operations

An operation is refused with a failed assertion or a missing object, never with an access to the wrong
alternative of a variant (`Refusals`). An accepted operation keeps the money, the books and the
invariant; only votes add to the votes of a table.
-/

namespace Playchain

variable {mode : Mode} {busy : TableId → Prop} {d d' : Database} {E : ChainError → Prop}

/-! ### Checks -/

section Checks

variable (hE : Refusals E)

include hE

theorem Refusals.isTableOwner (t : TableObject) (a : AccountId) :
    (isTableOwner d t a).Ensures E fun _ ↦ True :=
  ((orUnableToFind_ensures fun _ ↦ hE.assertion).bind fun _ _ ↦ .pure trivial).bind
    (Q := fun _ ↦ True) fun _ _ ↦ .pure trivial

theorem Refusals.isRoomOwnerOf (a : AccountId) (room : RoomId) :
    (isRoomOwnerOf d a room).Ensures E fun _ ↦ True :=
  (orUnableToFind_ensures fun _ ↦ hE.assertion).bind fun _ _ ↦ .pure trivial

/-- A check that succeeds or is refused. -/
theorem Refusals.fcAssert {p : Prop} [Decidable p] (text : String) :
    (fcAssert p text).Ensures E fun _ ↦ p :=
  fcAssert_ensures fun _ ↦ hE.assertion

end Checks

/-! ### Players and rooms -/

/-- A new player owes nothing. -/
theorem createPlayer_ensures (busy : TableId → Prop) (h : WellFormed mode d) (hE : Refusals E)
    (account : AccountId) (inviter : PlayerId) :
    (createPlayer d account inviter).Ensures E fun d' ↦ Transfer mode busy d d' 0 := by
  refine (orUnableToFind_ensures fun _ ↦ hE.assertion).bind fun _ _ ↦ ?_
  refine (create?_ensures fun _ ↦ hE.assertion).bind fun players ⟨_, hplayers⟩ ↦ .pure ?_
  refine h.setPlayers (hplayers ▸ .create _ _ _) fun _ ↦ ?_
  rw [hplayers, ObjectIndex.sum_create]
  exact zero_add _

theorem applyPlayerInvitationCreate_ensures (h : WellFormed mode d) (hE : Refusals E)
    (op : PlayerInvitationCreate) :
    (applyPlayerInvitationCreate d op).Ensures E fun d' ↦ Transfer mode busy d d' 0 :=
  (create?_ensures fun _ ↦ hE.assertion).bind fun _ _ ↦ .pure (h.setInvitations _)

theorem applyPlayerInvitationCancel_ensures (h : WellFormed mode d) (hE : Refusals E)
    (op : PlayerInvitationCancel) :
    (applyPlayerInvitationCancel d op).Ensures E fun d' ↦ Transfer mode busy d d' 0 :=
  (orMissing_ensures fun _ ↦ hE.missingObject).bind fun _ _ ↦ .pure (h.setInvitations _)

theorem applyPlayerInvitationResolve_ensures (h : WellFormed mode d) (hE : Refusals E)
    (op : PlayerInvitationResolve) :
    (applyPlayerInvitationResolve d op).Ensures E fun d' ↦ Transfer mode busy d d' 0 := by
  have haccount : Transfer mode busy d { d with accounts := d.accounts + 1 } 0 :=
    ⟨{ h with }, .of_eq busy rfl rfl rfl rfl rfl rfl rfl, (add_zero _).symm⟩
  refine (createPlayer_ensures busy haccount.wf hE _ _).bind fun d₁ h₁ ↦ ?_
  have hlog := h₁.trans_zero (h₁.wf.log (.playerCreate d.accounts op.inviter))
  refine (orMissing_ensures fun _ ↦ hE.missingObject).bind fun _ _ ↦ .pure ?_
  exact haccount.trans_zero (hlog.trans_zero (hlog.wf.setInvitations _))

theorem registerGameWitness_ensures (busy : TableId → Prop) (h : WellFormed mode d)
    (hE : Refusals E) (account : AccountId) :
    (registerGameWitness d account).Ensures E fun d' ↦ Transfer mode busy d d' 0 := by
  rw [registerGameWitness]
  split
  · exact .pure (.refl h)
  · refine (create?_ensures fun _ ↦ hE.assertion).bind fun witnesses ⟨_, hwitnesses⟩ ↦ .pure ?_
    have hcreate : Transfer mode busy d { d with gameWitnesses := witnesses } 0 :=
      ⟨{ h with }, { Frame.refl busy d with gameWitnesses := hwitnesses ▸ .create _ _ _ },
        (add_zero _).symm⟩
    exact hcreate.trans_zero (hcreate.wf.log _)

/-- A new room has no rake. -/
theorem applyRoomCreate_ensures (h : WellFormed mode d) (hE : Refusals E) (op : RoomCreate) :
    (applyRoomCreate d op).Ensures E fun d' ↦ Transfer mode busy d d' 0 := by
  refine (orUnableToFind_ensures fun _ ↦ hE.assertion).bind fun _ _ ↦ ?_
  refine (orUnableToFind_ensures fun _ ↦ hE.assertion).bind fun _ _ ↦ ?_
  refine (registerGameWitness_ensures busy h hE op.owner).bind fun d₁ h₁ ↦ ?_
  refine (fromVariant_ensures hE _ _).bind fun version _ ↦ ?_
  refine (create?_ensures fun _ ↦ hE.assertion).bind fun rooms ⟨_, hrooms⟩ ↦ .pure ?_
  refine (h₁.trans (h₁.wf.setRooms _ (hrooms ▸ .create _ _ _) ?_ ?_)).congr ?_
  · intro id r hr
    rw [hrooms, ObjectIndex.find?_create] at hr
    by_cases hid : id = d₁.rooms.nextId
    · rw [if_pos hid] at hr
      rw [← Option.some.inj hr]
    · rw [if_neg hid] at hr
      exact h₁.wf.rakes id r hr
  · intro _
    funext room
    change (rooms.find? room).elim 0 _ = (d₁.rooms.find? room).elim 0 _
    rw [hrooms, ObjectIndex.find?_create]
    by_cases hroom : room = d₁.rooms.nextId
    · rw [if_pos hroom, hroom, d₁.rooms.find?_nextId]
      rfl
    · rw [if_neg hroom]
  · rw [hrooms, ObjectIndex.sum_create, add_sub_cancel_right, Asset.value_of_zero rfl, add_zero]

/-- A room keeps its owner and its rake. -/
theorem WellFormed.modifyRoom (h : WellFormed mode d)
    {rooms : UniqueIndex fun r : RoomObject ↦ (r.owner, r.metadata)} {id : RoomId}
    {g : RoomObject → RoomObject} (hrooms : rooms.toObjectIndex = d.rooms.toObjectIndex.modify id g)
    (howner : ∀ r, (g r).owner = r.owner) (hrake : ∀ r, (g r).pendingRake = r.pendingRake) :
    Transfer mode busy d { d with rooms := rooms } 0 := by
  refine (h.setRooms _ (hrooms ▸ .modify _ _ howner) ?_ fun _ ↦ ?_).congr ?_
  · intro j r hr
    rw [hrooms, ObjectIndex.find?_modify] at hr
    split_ifs at hr
    · obtain ⟨r₀, hr₀, rfl⟩ := Option.map_eq_some_iff.1 hr
      rw [hrake]
      exact h.rakes j r₀ hr₀
    · exact h.rakes j r hr
  · funext j
    change (rooms.find? j).elim 0 _ = (d.rooms.find? j).elim 0 _
    rw [hrooms, ObjectIndex.find?_modify]
    split_ifs
    · cases d.rooms.find? j with
      | none => rfl
      | some r => exact congrArg Asset.amount (hrake r)
    · rfl
  · rw [hrooms, ObjectIndex.sum_modify_eq (fun r : RoomObject ↦ r.pendingRake.value)
      fun r _ ↦ congrArg Asset.value (hrake r), sub_self]

theorem applyRoomUpdate_ensures (h : WellFormed mode d) (hE : Refusals E) (op : RoomUpdate) :
    (applyRoomUpdate d op).Ensures E fun d' ↦ Transfer mode busy d d' 0 := by
  refine (orUnableToFind_ensures fun _ ↦ hE.assertion).bind fun room hroom ↦ ?_
  refine (fromVariant_ensures hE _ _).bind fun version _ ↦ ?_
  rcases hmod : d.rooms.modify? op.room fun r ↦ { r with
    serverUrl := op.serverUrl, metadata := op.metadata, protocolVersion := version } with - | rooms
  · exact hE.assertion _
  · exact .pure (h.modifyRoom (UniqueIndex.modify?_eq_some hmod) (fun _ ↦ rfl) fun _ ↦ rfl)

/-! ### Tables -/

/-- A new table has no money and no proposals. -/
theorem WellFormed.createTable (h : WellFormed mode d) {t : TableObject}
    (hok : TableOk d.rooms.toObjectIndex d.players.toObjectIndex t)
    (hnull : d.tables.Has nullTable) (hprop : t.pendingProposals = ∅) (hcash : t.cash = ∅)
    (hplaying : t.playingCash = ∅) (hexp : t.gameExpiration = TimePointSec.maximum) :
    Transfer mode busy d { d with tables := d.tables.create t } 0 := by
  have hkeep : ObjectIndex.Keeps TableObject.room d.tables (d.tables.create t) := .create _ _ _
  have hcases : ∀ j u, (d.tables.create t).find? j = some u →
      (j = d.tables.nextId ∧ u = t) ∨ d.tables.find? j = some u := by
    intro j u hu
    rw [ObjectIndex.find?_create] at hu
    split_ifs at hu with hj
    · exact Or.inl ⟨hj, (Option.some.inj hu).symm⟩
    · exact Or.inr hu
  refine ⟨{ h with
    tables := ?_, nullMetadata := ?_, proposals := ?_, pendingBuyIns := ?_, leaving := ?_,
    clock := ?_, buyIns := ?_, stays := ?_, tableAlives := ?_ },
    { Frame.refl busy d with tables := hkeep, games := ?_ }, ?_⟩
  · intro j u hu
    obtain ⟨-, rfl⟩ | hu := hcases j u hu
    · exact hok
    · exact h.tables j u hu
  · intro u hu
    obtain ⟨hj, -⟩ | hu := hcases _ u hu
    -- the null table exists, so its id is not the new one
    · obtain ⟨t₀, ht₀⟩ := hnull
      exact absurd hj (ObjectIndex.lt_nextId_of_find? ht₀).ne
    · exact h.nullMetadata u hu
  · intro j u p b hu hb
    obtain ⟨-, rfl⟩ | hu := hcases j u hu
    · rw [hprop] at hb
      cases hb
    · exact h.proposals j u p b hu hb
  · intro j b hb
    obtain ⟨h₁, h₂, h₃⟩ := h.pendingBuyIns j b hb
    exact ⟨h₁, fun halloc ↦ hkeep.has (h₂ halloc), h₃⟩
  · intro j b hb hn
    obtain ⟨u, hu, hplay⟩ := h.leaving j b hb hn
    refine ⟨u, ?_, hplay⟩
    rw [ObjectIndex.find?_create, if_neg (ObjectIndex.lt_nextId_of_find? hu).ne]
    exact hu
  · intro j u hu hn
    obtain ⟨-, rfl⟩ | hu := hcases j u hu
    · refine ⟨fun _ ↦ hexp, fun _ hfree ↦ ?_⟩
      rw [TableObject.isFree, hplaying] at hfree
      cases hfree
    · exact h.clock j u hu hn
  · intro j b hb
    obtain ⟨h₁, h₂⟩ := h.buyIns j b hb
    exact ⟨h₁, hkeep.has h₂⟩
  · intro j u p hu hn hp
    obtain ⟨-, rfl⟩ | hu := hcases j u hu
    · rw [TableObject.HasMoney, hcash, hplaying] at hp
      rcases hp with hp | hp <;> cases hp
    · exact h.stays j u p hu hn hp
  · exact fun j a ha ↦ hkeep.has (h.tableAlives j a ha)
  · intro j u u' _ hu hu'
    obtain ⟨hj, -⟩ | hu' := hcases j u' hu'
    · exact absurd hj (ObjectIndex.lt_nextId_of_find? hu).ne
    · rw [Option.some.inj (hu.symm.trans hu')]
  · have hfunds : t.funds = 0 := by
      rw [hok.cashes.funds, hcash, hplaying]
      simp
    simp only [Database.total, ObjectIndex.sum_create, hfunds, zero_add, add_zero]

theorem applyTableCreate_ensures (h : WellFormed mode d) (hE : Refusals E) {op : TableCreate}
    (hroom : d.rooms.Has op.room) :
    (applyTableCreate d op).Ensures E fun d' ↦ Transfer mode busy d d' 0 := by
  refine (orUnableToFind_ensures fun _ ↦ hE.assertion).bind fun t₀ ht₀ ↦ ?_
  obtain ⟨t, ht⟩ : ∃ t : TableObject, t = { room := op.room
                                            metadata := op.metadata
                                            requiredWitnesses := op.requiredWitnesses
                                            minAcceptedProposalAsset := op.minAcceptedProposalAsset
                                            gameCreated := TimePointSec.min
                                            gameExpiration := TimePointSec.maximum } := ⟨_, rfl⟩
  rw [← ht]
  have hcreate : Transfer mode busy d { d with tables := d.tables.create t } 0 := by
    refine h.createTable ?_ ⟨t₀, ht₀⟩ (by rw [ht]) (by rw [ht]) (by rw [ht]) (by rw [ht])
    subst ht
    exact ⟨hroom, ⟨.empty, .empty⟩, fun p hp ↦ (by cases hp), fun p hp ↦ (by cases hp), rfl, rfl⟩
  refine (setWeight_ensures busy hcreate.wf ⟨t, ?_⟩).mono fun _ h' ↦ hcreate.trans_zero h'
  exact (ObjectIndex.find?_create ..).trans (if_pos rfl)

/-- A table is described anew; the null table keeps its description. -/
theorem applyTableUpdate_ensures (h : WellFormed mode d) (hE : Refusals E) {op : TableUpdate}
    (hmeta : op.table = nullTable → op.metadata = "") :
    (applyTableUpdate d op).Ensures E fun d' ↦ Transfer mode busy d d' 0 := by
  refine (orUnableToFind_ensures fun _ ↦ hE.assertion).bind fun t ht ↦ ?_
  refine .pure (h.describeTable ht rfl ?_ hmeta (fun _ _ hb ↦ hb) rfl rfl rfl)
  obtain ⟨h₁, h₂, h₃, h₄, h₅, h₆⟩ := h.tables _ t ht
  exact ⟨h₁, ⟨h₂.cash, h₂.playingCash⟩, h₃, h₄, h₅, h₆⟩

/-- Signs of life for existing tables. -/
theorem applyTablesAlive_ensures (h : WellFormed mode d) {op : TablesAlive}
    (htables : ∀ table ∈ op.tables.elements, d.tables.Has table) :
    (applyTablesAlive d op).Ensures E fun d' ↦ Transfer mode busy d d' 0 := by
  refine Except.Ensures.foldlM (fun d' ↦ Transfer mode busy d d' 0) ?_ (.refl h)
  intro table htable d₁ h₁
  exact (aliveForTable_ensures busy h₁.wf (h₁.frame.tables.has (htables table htable))).mono
    fun _ h₂ ↦ h₁.trans_zero h₂

theorem evaluateTablesAlive_ensures (hE : Refusals E) (op : TablesAlive) :
    (evaluateTablesAlive d op).Ensures E fun _ ↦
      ∀ table ∈ op.tables.elements, d.tables.Has table := by
  refine Except.Ensures.forM fun table _ ↦ ?_
  refine (hE.fcAssert _).bind fun _ hexists ↦ ?_
  obtain ⟨t, ht⟩ := Option.isSome_iff_exists.1 hexists
  rw [tableById_of_find? ht, Except.ok_bind]
  exact (hE.isTableOwner t op.owner).bind fun _ _ ↦ (hE.fcAssert _).mono fun _ _ ↦ ⟨t, ht⟩

/-! ### Games -/

/-- **What an operation that is no vote does.** -/
structure Kept (mode : Mode) (d d' : Database) : Prop where
  transfer : Transfer mode (fun _ ↦ True) d d' 0
  votes : VotesOk idle d'
  books : d'.books = d.books

theorem Kept.of_idle (hv : VotesOk idle d) (h : Transfer mode idle d d' 0) : Kept mode d d' :=
  ⟨h.mono fun _ hf ↦ hf.elim, hv.of_frame h.frame, h.frame.books fun _ hf ↦ hf⟩

/-- A reset ends the game. -/
theorem applyGameReset_ensures (h : WellFormed mode d) (hv : VotesOk idle d) {op : GameReset}
    (htable : d.tables.Has op.table) (hE : ¬mode.core → ∀ text, E (.assertion text)) :
    (applyGameReset d op).Ensures E (Kept mode d) := by
  refine ((rollback_ensures h htable hE op.rollbackTable).and_any
    (rollback_local d op.table op.rollbackTable)).bind ?_
  rintro d₁ ⟨⟨hended, hreleased⟩, hlocal⟩
  have hwf := hended.transfer.wf
  rw [if_neg (not_lt.2 hwf.time)]
  have hvotes := hv.of_released hended.transfer.frame hreleased
  have hhas := hended.transfer.frame.tables.has htable
  refine (aliveForTable_ensures idle hwf hhas).mono fun d₂ h₂ ↦ ?_
  have hrest := Kept.of_idle hvotes h₂
  have hended' : Transfer mode (fun _ ↦ True) d d₁ 0 := hended.transfer.mono fun _ _ ↦ trivial
  exact ⟨hended'.trans_zero hrest.transfer, hrest.votes, hrest.books.trans hlocal.books⟩

/-- What the check of an incoming vote establishes. -/
theorem checkIncomingVote_ensures (h : WellFormed mode d) (hv : VotesOk idle d) (hE : Refusals E)
    {t : TableObject} (vote : VoteOperation) (ht : d.tables.find? vote.table = some t) :
    (checkIncomingVote d vote.table t vote).Ensures E fun _ ↦
      VoteOk d.players t.playingCash vote.data := by
  have hetalon : EtalonOk d.players
      ((d.tableVotings.findKey? vote.table).bind fun v ↦ v.2.etalonVote) := by
    rcases hkey : d.tableVotings.findKey? vote.table with - | ⟨i, v⟩
    · exact fun data hdata ↦ by cases hdata
    · exact (hv.voting i v (UniqueIndex.findKey?_eq_some_iff.1 hkey).1).2
  have hvoter : (isValidVoter d t vote).Ensures E fun _ ↦ True :=
    (hE.fcAssert _).bind fun _ _ ↦ (orMissing_ensures fun _ ↦ hE.missingObject).bind
      fun _ _ ↦ .pure trivial
  have hentitled : (isGameWitness d t vote.voter <||> isTableOwner d t vote.voter <||>
      isValidVoter d t vote).Ensures E fun _ ↦ True := by
    obtain ⟨b, hb⟩ := isGameWitness_total (h.tables _ t ht).room vote.voter
    refine .bind_of_eq hb ?_
    cases b with
    | true => exact .pure trivial
    | false =>
      refine (hE.isTableOwner t vote.voter).bind fun c _ ↦ ?_
      cases c with
      | true => exact .pure trivial
      | false => exact hvoter
  have hcontent : (do
      let entitled ← isGameWitness d t vote.voter <||> isTableOwner d t vote.voter <||>
        isValidVoter d t vote
      fcAssert (entitled = true) "Invalid voter"
      fcAssert ((← validateInvariants d vote.table t vote.data) = true) "Invalid vote data").Ensures E
      fun _ ↦ VoteOk d.players t.playingCash vote.data := by
    refine hentitled.bind fun c _ ↦ (hE.fcAssert _).bind fun _ _ ↦ ?_
    refine (validateInvariants_ensures h hE (h.tables _ t ht).cashes hetalon vote.data).bind
      fun b hb ↦ ?_
    exact (hE.fcAssert _).mono fun _ hvalid ↦ hb hvalid
  rw [checkIncomingVote]
  split
  · exact (hE.fcAssert _).bind fun _ _ ↦ hcontent
  · exact (hE.fcAssert _).bind fun _ _ ↦ hcontent

end Playchain
