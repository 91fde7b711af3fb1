import Playchain.Protocol.GameData

/-!
# Operations

The operations of players, rooms and tables with their stateless checks (`validate`). Every check is
an assertion; where the source gives no text, the text here is the condition.
-/

namespace Playchain

/-- `PLAYCHAIN_MAXIMUM_BUYOUT_REASON_SIZE` -/
def maximumBuyoutReasonSize : ℕ := 255

/-- `PLAYCHAIN_MAX_SIZE_FOR_TABLES_ALIVE_PER_OP` -/
def maxSizeForTablesAlivePerOp : ℕ := 100

/-- `PLAYCHAIN_MINIMAL_INVITATION_EXPIRATION_PERIOD`, five minutes. -/
def minimalInvitationExpirationPeriod : ℕ := 300

/-- `PLAYCHAIN_MAXIMUM_INVITATION_EXPIRATION_PERIOD`, thirty days. -/
def maximumInvitationExpirationPeriod : ℕ := 2592000

/-- The check that an acting account is an ordinary one. -/
def notSpecialAccount (id : AccountId) : Except ChainError Unit :=
  fcAssert (isSpecialAccount id = false) "!account_object::is_special_account(id)"

/-- The check that a table is not the null table. -/
def notNullTable (table : TableId) : Except ChainError Unit :=
  fcAssert (table ≠ nullTable) "table != PLAYCHAIN_NULL_TABLE"

/-- The check that a fee is not negative. -/
def feeNotNegative (fee : Asset) : Except ChainError Unit :=
  fcAssert (0 ≤ fee.amount) "fee.amount >= 0"

/-! ### Players and invitations -/

structure PlayerCreateByRoomOwner where
  account : AccountId
  roomOwner : AccountId

def PlayerCreateByRoomOwner.validate (op : PlayerCreateByRoomOwner) : Except ChainError Unit := do
  notSpecialAccount op.account
  notSpecialAccount op.roomOwner

structure PlayerInvitationCreate where
  inviter : AccountId
  uid : String
  lifetimeInSec : ℕ
  metadata : String

def PlayerInvitationCreate.validate (op : PlayerInvitationCreate) : Except ChainError Unit := do
  notSpecialAccount op.inviter
  fcAssert (op.uid ≠ "") "!uid.empty()"
  fcAssert (minimalInvitationExpirationPeriod ≤ op.lifetimeInSec)
    "delta >= PLAYCHAIN_MINIMAL_INVITATION_EXPIRATION_PERIOD"
  fcAssert (op.lifetimeInSec ≤ maximumInvitationExpirationPeriod)
    "delta <= PLAYCHAIN_MAXIMUM_INVITATION_EXPIRATION_PERIOD"

/-- The mandate and the authorities of the new account are not modelled. -/
structure PlayerInvitationResolve where
  inviter : AccountId
  uid : String
  name : String

def PlayerInvitationResolve.validate (op : PlayerInvitationResolve) : Except ChainError Unit := do
  notSpecialAccount op.inviter
  fcAssert (op.uid ≠ "") "!uid.empty()"
  fcAssert (op.name ≠ "") "!name.empty()"

structure PlayerInvitationCancel where
  inviter : AccountId
  uid : String

def PlayerInvitationCancel.validate (op : PlayerInvitationCancel) : Except ChainError Unit := do
  notSpecialAccount op.inviter
  fcAssert (op.uid ≠ "") "!uid.empty()"

/-! ### Rooms -/

structure RoomCreate where
  owner : AccountId
  serverUrl : String
  metadata : String
  protocolVersion : String

def RoomCreate.validate (op : RoomCreate) : Except ChainError Unit := do
  notSpecialAccount op.owner
  fcAssert (op.serverUrl ≠ "") "!server_url.empty()"
  fcAssert (op.protocolVersion ≠ "") "!protocol_version.empty()"

structure RoomUpdate where
  owner : AccountId
  room : RoomId
  serverUrl : String
  metadata : String
  protocolVersion : String

def RoomUpdate.validate (op : RoomUpdate) : Except ChainError Unit := do
  notSpecialAccount op.owner
  fcAssert (op.room ≠ nullRoom) "room != PLAYCHAIN_NULL_ROOM"
  fcAssert (op.serverUrl ≠ "") "!server_url.empty()"
  fcAssert (op.protocolVersion ≠ "") "!protocol_version.empty()"

/-! ### Tables -/

structure TableCreate where
  owner : AccountId
  room : RoomId
  metadata : String
  requiredWitnesses : ℕ := 0
  minAcceptedProposalAsset : Asset

def TableCreate.validate (op : TableCreate) : Except ChainError Unit := do
  notSpecialAccount op.owner
  fcAssert (op.room ≠ nullRoom) "room != PLAYCHAIN_NULL_ROOM"
  fcAssert (0 < op.minAcceptedProposalAsset.amount) "min_accepted_proposal_asset.amount > 0"

structure TableUpdate where
  owner : AccountId
  table : TableId
  metadata : String
  requiredWitnesses : ℕ := 0
  minAcceptedProposalAsset : Asset

def TableUpdate.validate (op : TableUpdate) : Except ChainError Unit := do
  notSpecialAccount op.owner
  notNullTable op.table
  fcAssert (0 < op.minAcceptedProposalAsset.amount) "min_accepted_proposal_asset.amount > 0"

structure TablesAlive where
  owner : AccountId
  tables : FlatSet TableId

def TablesAlive.validate (op : TablesAlive) : Except ChainError Unit := do
  notSpecialAccount op.owner
  fcAssert (op.tables.isEmpty = false) "!tables.empty()"
  fcAssert (op.tables.size ≤ maxSizeForTablesAlivePerOp)
    "tables.size() <= PLAYCHAIN_MAX_SIZE_FOR_TABLES_ALIVE_PER_OP"
  op.tables.elements.forM notNullTable

/-! ### Buy-in and buy-out -/

structure BuyInTable where
  fee : Asset := {}
  player : AccountId
  table : TableId
  tableOwner : AccountId
  amount : Asset

def BuyInTable.validate (op : BuyInTable) : Except ChainError Unit := do
  feeNotNegative op.fee
  fcAssert (0 < op.amount.amount) "amount.amount > 0"
  notSpecialAccount op.player
  notSpecialAccount op.tableOwner
  notNullTable op.table
  fcAssert (op.player ≠ op.tableOwner) "Table owner can't play at the own table"

structure BuyOutTable where
  fee : Asset := {}
  player : AccountId
  table : TableId
  tableOwner : AccountId
  amount : Asset
  reason : String := ""

def BuyOutTable.validate (op : BuyOutTable) : Except ChainError Unit := do
  feeNotNegative op.fee
  fcAssert (0 < op.amount.amount) "amount.amount > 0"
  fcAssert (op.reason.utf8ByteSize ≤ maximumBuyoutReasonSize)
    "reason.size() <= PLAYCHAIN_MAXIMUM_BUYOUT_REASON_SIZE"
  notSpecialAccount op.player
  notSpecialAccount op.tableOwner
  notNullTable op.table
  fcAssert (op.player ≠ op.tableOwner) "Table owner can't play at the own table"

structure BuyInReserve where
  fee : Asset := {}
  player : AccountId
  uid : String
  amount : Asset
  metadata : String
  protocolVersion : String

def BuyInReserve.validate (op : BuyInReserve) : Except ChainError Unit := do
  feeNotNegative op.fee
  notSpecialAccount op.player
  fcAssert (op.uid ≠ "") "!uid.empty()"
  fcAssert (0 < op.amount.amount) "amount.amount > 0"
  fcAssert (op.metadata ≠ "") "!metadata.empty()"
  fcAssert (op.protocolVersion ≠ "") "!protocol_version.empty()"

structure BuyInReservingCancel where
  fee : Asset := {}
  player : AccountId
  uid : String

def BuyInReservingCancel.validate (op : BuyInReservingCancel) : Except ChainError Unit := do
  feeNotNegative op.fee
  notSpecialAccount op.player
  fcAssert (op.uid ≠ "") "!uid.empty()"

structure BuyInReservingCancelAll where
  fee : Asset := {}
  player : AccountId

def BuyInReservingCancelAll.validate (op : BuyInReservingCancelAll) : Except ChainError Unit := do
  feeNotNegative op.fee
  notSpecialAccount op.player

structure BuyInReservingResolve where
  fee : Asset := {}
  table : TableId
  tableOwner : AccountId
  pendingBuyin : PendingBuyInId

def BuyInReservingResolve.validate (op : BuyInReservingResolve) : Except ChainError Unit := do
  fcAssert (op.pendingBuyin ≠ nullPendingBuyIn) "pending_buyin != PLAYCHAIN_NULL_PENDING_BUYIN"
  feeNotNegative op.fee
  notSpecialAccount op.tableOwner
  notNullTable op.table

/-! ### Games -/

structure GameStartPlayingCheck where
  table : TableId
  tableOwner : AccountId
  voter : AccountId
  initialData : GameInitialData
  deriving DecidableEq

def GameStartPlayingCheck.validate (op : GameStartPlayingCheck) : Except ChainError Unit := do
  notSpecialAccount op.tableOwner
  notSpecialAccount op.voter
  notNullTable op.table
  fcAssert (op.initialData.cash.isEmpty = true ∨ 2 ≤ op.initialData.cash.size)
    "initial_data.cash.empty() || initial_data.cash.size() >= 2u"

structure GameResultCheck where
  table : TableId
  tableOwner : AccountId
  voter : AccountId
  result : GameResult
  deriving DecidableEq

def GameResultCheck.validate (op : GameResultCheck) : Except ChainError Unit := do
  notSpecialAccount op.tableOwner
  notSpecialAccount op.voter
  notNullTable op.table

structure GameReset where
  table : TableId
  tableOwner : AccountId
  rollbackTable : Bool := false

def GameReset.validate (op : GameReset) : Except ChainError Unit := do
  notSpecialAccount op.tableOwner
  notNullTable op.table

/-- The two kinds of votes, with the fields they share. -/
inductive VoteOperation where
  | start (op : GameStartPlayingCheck)
  | result (op : GameResultCheck)
  deriving DecidableEq

namespace VoteOperation

def table : VoteOperation → TableId
  | start op => op.table
  | result op => op.table

def tableOwner : VoteOperation → AccountId
  | start op => op.tableOwner
  | result op => op.tableOwner

def voter : VoteOperation → AccountId
  | start op => op.voter
  | result op => op.voter

/-- `data()`: the content of the vote. -/
def data : VoteOperation → VotingData
  | start op => .gameInitialData op.initialData
  | result op => .gameResult op.result

/-- `which()` of the wrapped operation, as far as votes go. -/
def isStart : VoteOperation → Bool
  | start _ => true
  | result _ => false

@[simp] theorem isInitialData_data (op : VoteOperation) : op.data.isInitialData = op.isStart := by
  cases op <;> rfl

end VoteOperation

/-- The modelled operations. -/
inductive Operation where
  | playerCreateByRoomOwner (op : PlayerCreateByRoomOwner)
  | playerInvitationCreate (op : PlayerInvitationCreate)
  | playerInvitationResolve (op : PlayerInvitationResolve)
  | playerInvitationCancel (op : PlayerInvitationCancel)
  | roomCreate (op : RoomCreate)
  | roomUpdate (op : RoomUpdate)
  | tableCreate (op : TableCreate)
  | tableUpdate (op : TableUpdate)
  | tablesAlive (op : TablesAlive)
  | buyInTable (op : BuyInTable)
  | buyOutTable (op : BuyOutTable)
  | buyInReserve (op : BuyInReserve)
  | buyInReservingCancel (op : BuyInReservingCancel)
  | buyInReservingCancelAll (op : BuyInReservingCancelAll)
  | buyInReservingResolve (op : BuyInReservingResolve)
  | gameStartPlayingCheck (op : GameStartPlayingCheck)
  | gameResultCheck (op : GameResultCheck)
  | gameReset (op : GameReset)

/-- `operation_validate` -/
def Operation.validate : Operation → Except ChainError Unit
  | playerCreateByRoomOwner op => op.validate
  | playerInvitationCreate op => op.validate
  | playerInvitationResolve op => op.validate
  | playerInvitationCancel op => op.validate
  | roomCreate op => op.validate
  | roomUpdate op => op.validate
  | tableCreate op => op.validate
  | tableUpdate op => op.validate
  | tablesAlive op => op.validate
  | buyInTable op => op.validate
  | buyOutTable op => op.validate
  | buyInReserve op => op.validate
  | buyInReservingCancel op => op.validate
  | buyInReservingCancelAll op => op.validate
  | buyInReservingResolve op => op.validate
  | gameStartPlayingCheck op => op.validate
  | gameResultCheck op => op.validate
  | gameReset op => op.validate

end Playchain
