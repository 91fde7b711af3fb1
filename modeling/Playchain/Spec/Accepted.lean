import Playchain.Chain
import Playchain.Spec.Operations

/-!
# Accepted operations

`applyOperation_ensures` says what an accepted operation does: a vote is admitted to the votes of its
table (`Voted`), any other operation keeps money, votes and books (`Kept`). A refused operation is
refused with a failed assertion or a missing object.
-/

namespace Playchain

variable {mode : Mode} {d d' : Database} {E : ChainError → Prop}

/-! ### Votes -/

namespace VoteOperation

/-- The vote as an operation. -/
def operation : VoteOperation → Operation
  | start op => .gameStartPlayingCheck op
  | result op => .gameResultCheck op

/-- How long a voting that the vote opens may last. -/
def votingSeconds (d : Database) : VoteOperation → ℕ
  | start _ => d.parameters.votingForPlayingExpirationSeconds
  | result _ => d.parameters.votingForResultsExpirationSeconds

/-- The share of the required voters that witnesses may stand in for. -/
def substitution (d : Database) : VoteOperation → PercentType
  | start _ => d.parameters.percentageOfVoterWitnessSubstitutionWhileVotingForPlaying
  | result _ => d.parameters.percentageOfVoterWitnessSubstitutionWhileVotingForResults

/-- The witnesses that have to vote. -/
def requiredWitnesses (t : TableObject) : VoteOperation → FlatSet GameWitnessId
  | start _ => ∅
  | result _ => t.votedWitnesses

end VoteOperation

/-- A vote has passed its checks. -/
structure Admitted (d : Database) (vote : VoteOperation) (t : TableObject) : Prop where
  table : d.tables.find? vote.table = some t
  kind : vote.isStart = t.isFree
  check : checkIncomingVote d vote.table t vote = .ok ()

/-- **What an admitted vote does.** -/
structure VoteCounted (mode : Mode) (vote : VoteOperation) (t : TableObject)
    (P : Bool → TableVotingObject → Prop) (d d₁ d' : Database) : Prop where
  admitted : Admitted d vote t
  voted : Voted vote t P d d₁
  votes : VotesOk idle d₁
  transfer : Transfer mode idle d₁ d' 0

/-- A vote that is admitted is counted, under either kind of rule. -/
theorem tryVoting_counted (h : WellFormed mode d) (hv : VotesOk idle d) (hE : Refusals E)
    {vote : VoteOperation} {t : TableObject} (hadm : Admitted d vote t)
    {P : Bool → TableVotingObject → Prop}
    (hrule : VoteRule d t vote (vote.votingSeconds d) (vote.substitution d)
      (vote.requiredWitnesses t) P) :
    (tryVoting d (vote.requiredWitnesses t) (vote.votingSeconds d) (vote.substitution d)
      vote).Ensures E fun d' ↦ ∃ d₁, VoteCounted mode vote t P d d₁ d' := by
  have hfits : VoteFits d.players t vote.data := by
    refine ⟨?_, (checkIncomingVote_ensures h hv hE _ hadm.table).of_ok hadm.check⟩
    rw [VoteOperation.isInitialData_data]
    exact hadm.kind
  refine (tryVoting_ensures h hv hE hrule hadm.table hfits).mono ?_
  rintro d' ⟨d₁, hvoted, htr⟩
  exact ⟨d₁, hadm, hvoted, hvoted.votesOk hv hadm.table hadm.kind, htr⟩

/-! ### All operations -/

/-- The operation asks to leave a game with an amount that nothing at the table is compared with, and
that is not in the core asset. -/
def Operation.Foreign (d : Database) : Operation → Prop
  | .buyOutTable op => ForeignBuyOut d op
  | _ => False

instance (d : Database) (op : Operation) : Decidable (op.Foreign d) := by
  cases op with
  | buyOutTable op => exact inferInstanceAs (Decidable (ForeignBuyOut d op))
  | _ => exact inferInstanceAs (Decidable False)

section Operations

variable (hE : Refusals E)

include hE

theorem Refusals.notSpecialAccount (a : AccountId) : (notSpecialAccount a).Ensures E fun _ ↦ True :=
  (hE.fcAssert _).mono fun _ _ ↦ trivial

theorem Refusals.feeNotNegative (fee : Asset) : (feeNotNegative fee).Ensures E fun _ ↦ True :=
  (hE.fcAssert _).mono fun _ _ ↦ trivial

theorem Refusals.notNullTable (table : TableId) :
    (notNullTable table).Ensures E fun _ ↦ table ≠ nullTable :=
  hE.fcAssert _

end Operations

/-! ### The checks of an operation -/

section Checks

variable (h : WellFormed mode d) (hE : Refusals E)

include hE

/-- A version that does not parse is refused. -/
theorem fromVariant_checked {α : Type} {text : String} {rest : Except ChainError α}
    {Q : α → Prop} (hrest : rest.Ensures E Q) :
    (do
      let _ ← VersionExt.fromVariant text {}
      rest).Ensures E Q :=
  (fromVariant_ensures hE text {}).bind fun _ _ ↦ hrest

/-- A table that exists and is owned by the account. -/
theorem tableOwner_checked {α : Type} {table : TableId} {owner : AccountId}
    {rest : TableObject → Except ChainError α} {Q : α → Prop}
    (hrest : ∀ t, d.tables.find? table = some t → (rest t).Ensures E Q) :
    (do
      fcAssert (isTableExists d table = true) "Table does not exist"
      let t ← d.tableById table
      fcAssert ((← isTableOwner d t owner) = true) "Wrong table owner"
      rest t).Ensures E Q :=
  (hE.fcAssert _).bind fun _ _ ↦ (orUnableToFind_ensures fun _ ↦ hE.assertion).bind fun t ht ↦
    (hE.isTableOwner t owner).bind fun _ _ ↦ (hE.fcAssert _).bind fun _ _ ↦ hrest t ht

omit hE in
/-- The checks of a start vote admit it. -/
theorem evaluateGameStartPlayingCheck_ensures (h : WellFormed mode d) (hv : VotesOk idle d)
    (hE : Refusals E) (op : GameStartPlayingCheck) :
    (evaluateGameStartPlayingCheck d op).Ensures E fun _ ↦ ∃ t, Admitted d (.start op) t := by
  refine tableOwner_checked hE fun t ht ↦ ?_
  refine (hE.fcAssert _).bind fun _ _ ↦ (hE.fcAssert _).bind fun _ hfree ↦ ?_
  refine (checkIncomingVote_ensures h hv hE (.start op) ht).with_eq.mono ?_
  rintro ⟨⟩ ⟨hcheck, -⟩
  exact ⟨t, ht, hfree.symm, hcheck⟩

omit hE in
/-- The checks of a result vote admit it. -/
theorem evaluateGameResultCheck_ensures (h : WellFormed mode d) (hv : VotesOk idle d)
    (hE : Refusals E) (op : GameResultCheck) :
    (evaluateGameResultCheck d op).Ensures E fun _ ↦ ∃ t, Admitted d (.result op) t := by
  refine tableOwner_checked hE fun t ht ↦ ?_
  refine (hE.fcAssert _).bind fun _ hfree ↦ ?_
  refine (checkIncomingVote_ensures h hv hE (.result op) ht).with_eq.mono ?_
  rintro ⟨⟩ ⟨hcheck, -⟩
  exact ⟨t, ht, hfree.symm, hcheck⟩

end Checks

/-! ### Acceptance -/

/-- An operation that is no vote is checked and applied. -/
theorem kept_of_checked {validate evaluate : Except ChainError Unit}
    {apply : Except ChainError Database} (hv : VotesOk idle d) {P Q : Prop}
    (hvalidate : validate.Ensures E fun _ ↦ P) (hevaluate : evaluate.Ensures E fun _ ↦ Q)
    (happly : P → Q → apply.Ensures E fun d' ↦ Transfer mode idle d d' 0) :
    (do validate; evaluate; apply).Ensures E (Kept mode d) :=
  hvalidate.bind fun _ hp ↦ hevaluate.bind fun _ hq ↦ (happly hp hq).mono fun _ h' ↦
    .of_idle hv h'

section Acceptance

variable (h : WellFormed mode d) (hv : VotesOk idle d) (hE : Refusals E)

include h hv hE

/-- A player comes in with the owner of a room as inviter. -/
theorem playerCreateByRoomOwner_kept (op : PlayerCreateByRoomOwner) :
    (do op.validate; evaluatePlayerCreateByRoomOwner d op
        applyPlayerCreateByRoomOwner d op).Ensures E (Kept mode d) :=
  kept_of_checked hv (P := True) (Q := True)
    ((hE.notSpecialAccount _).bind fun _ _ ↦ hE.notSpecialAccount _)
    ((hE.fcAssert _).bind fun _ _ ↦ (hE.fcAssert _).bind fun _ _ ↦
      (hE.fcAssert _).mono fun _ _ ↦ trivial)
    fun _ _ ↦ createPlayer_ensures idle h hE op.account nullPlayer

/-- Invitations are not objects of games. -/
theorem playerInvitationCreate_kept (op : PlayerInvitationCreate) :
    (do op.validate; evaluatePlayerInvitationCreate d op
        applyPlayerInvitationCreate d op).Ensures E (Kept mode d) :=
  kept_of_checked hv (P := True) (Q := True)
    ((hE.notSpecialAccount _).bind fun _ _ ↦ (hE.fcAssert _).bind fun _ _ ↦
      (hE.fcAssert _).bind fun _ _ ↦ (hE.fcAssert _).mono fun _ _ ↦ trivial)
    ((hE.fcAssert _).mono fun _ _ ↦ trivial)
    fun _ _ ↦ applyPlayerInvitationCreate_ensures h hE op

/-- A resolved invitation makes a player. -/
theorem playerInvitationResolve_kept (op : PlayerInvitationResolve) :
    (do op.validate; evaluatePlayerInvitationResolve d op
        applyPlayerInvitationResolve d op).Ensures E (Kept mode d) :=
  kept_of_checked hv (P := True) (Q := True)
    ((hE.notSpecialAccount _).bind fun _ _ ↦ (hE.fcAssert _).bind fun _ _ ↦
      (hE.fcAssert _).mono fun _ _ ↦ trivial)
    ((hE.fcAssert _).bind fun _ _ ↦ (hE.fcAssert _).mono fun _ _ ↦ trivial)
    fun _ _ ↦ applyPlayerInvitationResolve_ensures h hE op

theorem playerInvitationCancel_kept (op : PlayerInvitationCancel) :
    (do op.validate; evaluatePlayerInvitationCancel d op
        applyPlayerInvitationCancel d op).Ensures E (Kept mode d) :=
  kept_of_checked hv (P := True) (Q := True)
    ((hE.notSpecialAccount _).bind fun _ _ ↦ (hE.fcAssert _).mono fun _ _ ↦ trivial)
    ((hE.fcAssert _).mono fun _ _ ↦ trivial)
    fun _ _ ↦ applyPlayerInvitationCancel_ensures h hE op

/-- A room comes in without tables. -/
theorem roomCreate_kept (op : RoomCreate) :
    (do op.validate; evaluateRoomCreate d op; applyRoomCreate d op).Ensures E (Kept mode d) :=
  kept_of_checked hv (P := True) (Q := True)
    ((hE.notSpecialAccount _).bind fun _ _ ↦ (hE.fcAssert _).bind fun _ _ ↦
      (hE.fcAssert _).mono fun _ _ ↦ trivial)
    (fromVariant_checked hE ((hE.fcAssert _).mono fun _ _ ↦ trivial))
    fun _ _ ↦ applyRoomCreate_ensures h hE op

/-- A room keeps its owner and its pending rake. -/
theorem roomUpdate_kept (op : RoomUpdate) :
    (do op.validate; evaluateRoomUpdate d op; applyRoomUpdate d op).Ensures E (Kept mode d) :=
  kept_of_checked hv (P := True) (Q := True)
    ((hE.notSpecialAccount _).bind fun _ _ ↦ (hE.fcAssert _).bind fun _ _ ↦
      (hE.fcAssert _).bind fun _ _ ↦ (hE.fcAssert _).mono fun _ _ ↦ trivial)
    (fromVariant_checked hE ((hE.fcAssert _).bind fun _ _ ↦ (hE.isRoomOwnerOf _ _).bind fun _ _ ↦
      (hE.fcAssert _).mono fun _ _ ↦ trivial))
    fun _ _ ↦ applyRoomUpdate_ensures h hE op

/-- A table comes in empty. -/
theorem tableCreate_kept (op : TableCreate) :
    (do op.validate; evaluateTableCreate d op; applyTableCreate d op).Ensures E (Kept mode d) :=
  kept_of_checked hv (P := True) (Q := d.rooms.Has op.room)
    ((hE.notSpecialAccount _).bind fun _ _ ↦ (hE.fcAssert _).bind fun _ _ ↦
      (hE.fcAssert _).mono fun _ _ ↦ trivial)
    ((hE.fcAssert _).bind fun _ hroom ↦ (hE.isRoomOwnerOf _ _).bind fun _ _ ↦
      (hE.fcAssert _).mono fun _ _ ↦ Option.isSome_iff_exists.1 hroom)
    fun _ hroom ↦ applyTableCreate_ensures h hE hroom

/-- A table is updated while it is free only. -/
theorem tableUpdate_kept (op : TableUpdate) :
    (do op.validate; evaluateTableUpdate d op; applyTableUpdate d op).Ensures E (Kept mode d) := by
  refine kept_of_checked hv (P := op.table ≠ nullTable) (Q := True) ?_ ?_ fun hne _ ↦
    applyTableUpdate_ensures h hE fun hnull ↦ absurd hnull hne
  · exact (hE.notSpecialAccount _).bind fun _ _ ↦ (hE.notNullTable _).bind fun _ hne ↦
      (hE.fcAssert _).mono fun _ _ ↦ hne
  · refine tableOwner_checked hE fun t ht ↦ ?_
    refine (hE.fcAssert _).bind fun _ _ ↦ (hE.fcAssert _).bind fun _ _ ↦ ?_
    split_ifs
    · exact (hE.fcAssert _).mono fun _ _ ↦ trivial
    · exact .pure trivial

/-- A sign of life changes deadlines of tables only. -/
theorem tablesAlive_kept (op : TablesAlive) :
    (do op.validate; evaluateTablesAlive d op; applyTablesAlive d op).Ensures E (Kept mode d) :=
  kept_of_checked hv (P := True)
    ((hE.notSpecialAccount _).bind fun _ _ ↦ (hE.fcAssert _).bind fun _ _ ↦
      (hE.fcAssert _).bind fun _ _ ↦
        (Except.Ensures.forM fun _ _ ↦ hE.notNullTable _).mono fun _ _ ↦ trivial)
    (evaluateTablesAlive_ensures hE op) fun _ htables ↦ applyTablesAlive_ensures h htables

/-- A buy-in moves an amount from a balance to a table. -/
theorem buyInTable_kept (op : BuyInTable) :
    (do op.validate; evaluateBuyInTable d op; applyBuyInTable d op).Ensures E (Kept mode d) := by
  refine kept_of_checked hv (P := 0 < op.amount.amount) (Q := True) ?_ ?_ fun hpos _ ↦
    applyBuyInTable_ensures idle h hE hpos
  · exact (hE.feeNotNegative _).bind fun _ _ ↦ (hE.fcAssert _).bind fun _ hpos ↦
      (hE.notSpecialAccount _).bind fun _ _ ↦ (hE.notSpecialAccount _).bind fun _ _ ↦
        (hE.notNullTable _).bind fun _ _ ↦ (hE.fcAssert _).mono fun _ _ ↦ hpos
  · refine (hE.fcAssert _).bind fun _ _ ↦ tableOwner_checked hE fun t ht ↦ ?_
    obtain ⟨owner, howner⟩ := (h.tables _ t ht).tableOwner
    rw [howner, Except.ok_bind]
    exact (hE.fcAssert _).mono fun _ _ ↦ trivial

/-- A buy-out pays at once, or waits for the end of the game. -/
theorem buyOutTable_kept (op : BuyOutTable) (hcore : mode.core → ¬ForeignBuyOut d op) :
    (do op.validate; evaluateBuyOutTable d op; applyBuyOutTable d op).Ensures E (Kept mode d) := by
  refine kept_of_checked hv (P := 0 < op.amount.amount) ?_ (evaluateBuyOutTable_ensures h hE op) ?_
  · exact (hE.feeNotNegative _).bind fun _ _ ↦ (hE.fcAssert _).bind fun _ hpos ↦
      (hE.fcAssert _).bind fun _ _ ↦ (hE.notSpecialAccount _).bind fun _ _ ↦
        (hE.notSpecialAccount _).bind fun _ _ ↦ (hE.notNullTable _).bind fun _ _ ↦
          (hE.fcAssert _).mono fun _ _ ↦ hpos
  · rintro hpos ⟨t, player, ht, hplayer, hwait⟩
    exact applyBuyOutTable_ensures idle h hE hpos hcore ht hplayer hwait

/-- A reservation takes an amount from a balance. -/
theorem buyInReserve_kept (op : BuyInReserve) :
    (do op.validate; evaluateBuyInReserve d op; applyBuyInReserve d op).Ensures E (Kept mode d) := by
  refine kept_of_checked hv (P := 0 < op.amount.amount ∧ op.metadata ≠ "") (Q := True) ?_ ?_
    fun hp _ ↦ applyBuyInReserve_ensures idle h hE hp.1 hp.2
  · exact (hE.feeNotNegative _).bind fun _ _ ↦ (hE.notSpecialAccount _).bind fun _ _ ↦
      (hE.fcAssert _).bind fun _ _ ↦ (hE.fcAssert _).bind fun _ hpos ↦
        (hE.fcAssert _).bind fun _ hmeta ↦ (hE.fcAssert _).mono fun _ _ ↦ ⟨hpos, hmeta⟩
  · exact fromVariant_checked hE ((hE.fcAssert _).bind fun _ _ ↦ (hE.fcAssert _).bind fun _ _ ↦
      (hE.fcAssert _).mono fun _ _ ↦ trivial)

theorem buyInReservingCancel_kept (op : BuyInReservingCancel) :
    (do op.validate; evaluateBuyInReservingCancel d op
        applyBuyInReservingCancel d op).Ensures E (Kept mode d) :=
  kept_of_checked hv (P := True) (Q := True)
    ((hE.feeNotNegative _).bind fun _ _ ↦ (hE.notSpecialAccount _).bind fun _ _ ↦
      (hE.fcAssert _).mono fun _ _ ↦ trivial)
    ((hE.fcAssert _).bind fun _ _ ↦ (hE.fcAssert _).mono fun _ _ ↦ trivial)
    fun _ _ ↦ applyBuyInReservingCancel_ensures idle h hE op

/-- All reservations of a player are paid back. -/
theorem buyInReservingCancelAll_kept (op : BuyInReservingCancelAll) :
    (do op.validate; evaluateBuyInReservingCancelAll d op
        applyBuyInReservingCancelAll d op).Ensures E (Kept mode d) :=
  kept_of_checked hv (P := True) (Q := True)
    ((hE.feeNotNegative _).bind fun _ _ ↦ hE.notSpecialAccount _)
    ((hE.fcAssert _).bind fun _ _ ↦ (hE.fcAssert _).mono fun _ _ ↦ trivial)
    fun _ _ ↦ applyBuyInReservingCancelAll_ensures idle h op

/-- A resolved reservation becomes a buy-in. -/
theorem buyInReservingResolve_kept (op : BuyInReservingResolve) :
    (do op.validate; evaluateBuyInReservingResolve d op
        applyBuyInReservingResolve d op).Ensures E (Kept mode d) := by
  refine kept_of_checked hv (P := True) ?_ (evaluateBuyInReservingResolve_ensures h hE op) ?_
  · exact (hE.fcAssert _).bind fun _ _ ↦ (hE.feeNotNegative _).bind fun _ _ ↦
      (hE.notSpecialAccount _).bind fun _ _ ↦ (hE.notNullTable _).mono fun _ _ ↦ trivial
  · rintro - ⟨t, b, ht, hb, hprop⟩
    exact applyBuyInReservingResolve_ensures idle h hE ht hb hprop

/-- A reset takes a game back to its start. -/
theorem gameReset_kept (op : GameReset) :
    (do op.validate; evaluateGameReset d op; applyGameReset d op).Ensures E (Kept mode d) := by
  have hchecks : (evaluateGameReset d op).Ensures E fun _ ↦ d.tables.Has op.table :=
    (hE.fcAssert _).bind fun _ _ ↦ (orUnableToFind_ensures fun _ ↦ hE.assertion).bind
      fun t ht ↦ (hE.isTableOwner t _).bind fun _ _ ↦ (hE.fcAssert _).mono fun _ _ ↦ ⟨t, ht⟩
  refine ((hE.notSpecialAccount _).bind fun _ _ ↦ hE.notNullTable _).bind fun _ _ ↦ ?_
  exact hchecks.bind fun _ htable ↦ applyGameReset_ensures h hv htable fun _ ↦ hE.assertion

end Acceptance

/-- **What an accepted operation does.** -/
theorem applyOperation_ensures [GameDigest] (h : WellFormed mode d) (hv : VotesOk idle d)
    (hE : Refusals E) (op : Operation) (hcore : mode.core → ¬op.Foreign d)
    {P : VoteOperation → TableObject → Bool → TableVotingObject → Prop}
    (hrule : ∀ vote t, op = vote.operation → Admitted d vote t →
      VoteRule d t vote (vote.votingSeconds d) (vote.substitution d) (vote.requiredWitnesses t)
        (P vote t)) :
    (applyOperation d op).Ensures E fun d' ↦ Kept mode d d' ∨
      ∃ vote t d₁, op = vote.operation ∧ VoteCounted mode vote t (P vote t) d d₁ d' := by
  have hv2 : hardforkPlaychain8Time ≤ d.headBlockTime :=
    (show hardforkPlaychain8Time ≤ hardforkPlaychain10Time by decide).trans h.time
  have hkept : ∀ {x : Except ChainError Database}, x.Ensures E (Kept mode d) →
      x.Ensures E fun d' ↦ Kept mode d d' ∨
        ∃ vote t d₁, op = vote.operation ∧ VoteCounted mode vote t (P vote t) d d₁ d' :=
    fun hx ↦ hx.mono fun _ hk ↦ Or.inl hk
  cases op with
  | playerCreateByRoomOwner op => exact hkept (playerCreateByRoomOwner_kept h hv hE op)
  | playerInvitationCreate op => exact hkept (playerInvitationCreate_kept h hv hE op)
  | playerInvitationResolve op => exact hkept (playerInvitationResolve_kept h hv hE op)
  | playerInvitationCancel op => exact hkept (playerInvitationCancel_kept h hv hE op)
  | roomCreate op => exact hkept (roomCreate_kept h hv hE op)
  | roomUpdate op => exact hkept (roomUpdate_kept h hv hE op)
  | tableCreate op => exact hkept (tableCreate_kept h hv hE op)
  | tableUpdate op => exact hkept (tableUpdate_kept h hv hE op)
  | tablesAlive op => exact hkept (tablesAlive_kept h hv hE op)
  | buyInTable op => exact hkept (buyInTable_kept h hv hE op)
  | buyOutTable op => exact hkept (buyOutTable_kept h hv hE op hcore)
  | buyInReserve op => exact hkept (buyInReserve_kept h hv hE op)
  | buyInReservingCancel op => exact hkept (buyInReservingCancel_kept h hv hE op)
  | buyInReservingCancelAll op => exact hkept (buyInReservingCancelAll_kept h hv hE op)
  | buyInReservingResolve op => exact hkept (buyInReservingResolve_kept h hv hE op)
  | gameReset op => exact hkept (gameReset_kept h hv hE op)
  | gameStartPlayingCheck op =>
    have hvalidate : op.validate.Ensures E fun _ ↦ True :=
      (hE.notSpecialAccount _).bind fun _ _ ↦ (hE.notSpecialAccount _).bind fun _ _ ↦
        (hE.notNullTable _).bind fun _ _ ↦ (hE.fcAssert _).mono fun _ _ ↦ trivial
    refine hvalidate.bind fun _ _ ↦ ?_
    simp only [evaluateOperation, performOperation, if_pos hv2]
    refine (evaluateGameStartPlayingCheck_ensures h hv hE op).bind fun _ ⟨t, hadm⟩ ↦ ?_
    refine (tryVoting_counted h hv hE hadm (hrule (.start op) t rfl hadm)).mono ?_
    rintro d' ⟨d₁, hcounted⟩
    exact Or.inr ⟨_, t, d₁, rfl, hcounted⟩
  | gameResultCheck op =>
    have hvalidate : op.validate.Ensures E fun _ ↦ True :=
      (hE.notSpecialAccount _).bind fun _ _ ↦ (hE.notSpecialAccount _).bind fun _ _ ↦
        (hE.notNullTable _).mono fun _ _ ↦ trivial
    refine hvalidate.bind fun _ _ ↦ ?_
    simp only [evaluateOperation, performOperation, if_pos hv2]
    refine (evaluateGameResultCheck_ensures h hv hE op).bind fun _ ⟨t, hadm⟩ ↦ ?_
    refine .bind_of_eq (show d.tableById op.table = .ok t from tableById_of_find? hadm.table) ?_
    refine (tryVoting_counted h hv hE hadm (hrule (.result op) t rfl hadm)).mono ?_
    rintro d' ⟨d₁, hcounted⟩
    exact Or.inr ⟨_, t, d₁, rfl, hcounted⟩

end Playchain
