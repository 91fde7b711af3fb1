import Playchain.Schema.Database

/-!
# Queries

The predicates on the database that evaluators and block tasks share.
-/

namespace Playchain

/-- `is_player_exists` for an account -/
def isPlayerExists (d : Database) (account : AccountId) : Bool :=
  (d.players.findKey? account).isSome

/-- `is_account_exists` -/
def isAccountExists (d : Database) (account : AccountId) : Bool := account < d.accounts

/-- `is_table_exists` -/
def isTableExists (d : Database) (table : TableId) : Bool := (d.tables.find? table).isSome

/-- `is_room_exists` -/
def isRoomExists (d : Database) (room : RoomId) : Bool := (d.rooms.find? room).isSome

/-- `is_pending_buy_in_exists` -/
def isPendingBuyInExists (d : Database) (buyIn : PendingBuyInId) : Bool :=
  (d.pendingBuyIns.find? buyIn).isSome

/-- `is_table_voting` -/
def isTableVoting (d : Database) (table : TableId) : Bool :=
  (d.tableVotings.findKey? table).isSome

/-- `is_table_alive` -/
def isTableAlive (d : Database) (table : TableId) : Bool := (d.tableAlives.findKey? table).isSome

/-- `is_table_voting_for_playing` -/
def isTableVotingForPlaying (d : Database) (table : TableId) : Bool :=
  (d.tableVotings.findKey? table).any fun v ↦ v.2.isVotingForPlaying

/-- `is_table_voting_for_results` -/
def isTableVotingForResults (d : Database) (table : TableId) : Bool :=
  (d.tableVotings.findKey? table).any fun v ↦ v.2.isVotingForResults

/-- `is_room_owner` for any room -/
def isRoomOwner (d : Database) (owner : AccountId) : Bool :=
  d.rooms.toList.any fun r ↦ r.2.owner = owner

/-- `is_room_owner` for one room -/
def isRoomOwnerOf (d : Database) (account : AccountId) (room : RoomId) :
    Except ChainError Bool := do
  return (← d.roomById room).owner = account

/-- `is_table_owner` -/
def isTableOwner (d : Database) (t : TableObject) (voter : AccountId) :
    Except ChainError Bool := do
  return (← d.tableOwner t) = voter

/-- `is_game_witness` at a table: a witness account that does not own the table. -/
def isGameWitness (d : Database) (t : TableObject) (voter : AccountId) :
    Except ChainError Bool :=
  match d.gameWitnesses.findKey? voter with
  | none => return false
  | some _ => do return !(← isTableOwner d t voter)

/-- `get_witness_if_exist` -/
def getWitnessIfExist (d : Database) (t : TableObject) (voter : AccountId) :
    Except ChainError (Option GameWitnessId) :=
  match d.gameWitnesses.findKey? voter with
  | none => return none
  | some w => do return if ← isTableOwner d t voter then none else some w.1

/-- `is_valid_voter`: for a start vote the player waits at the table, for a result vote the player
is in the game. -/
def isValidVoter (d : Database) (t : TableObject) (op : VoteOperation) :
    Except ChainError Bool := do
  fcAssert (isPlayerExists d op.voter = true) "Invalid player"
  let player ← d.getPlayer op.voter
  return if op.isStart then t.isWaitingAtTable player.1 else t.isPlaying player.1

end Playchain
