import Playchain.Lib.UniqueIndex
import Playchain.Schema.Objects
import Playchain.Schema.TableObject

/-!
# The database

The state of the chain as far as players, rooms and tables go. Each object type has its index; an
index with a unique secondary key is a `UniqueIndex`, so its uniqueness holds in every state.

Mutations of the source that can fail return an `Except`: creating an object may violate a unique
key, following an identifier or an iterator may find no object.
-/

namespace Playchain

/-- The objects of the chain and the properties the table logic reads. -/
structure Database where
  headBlockTime : TimePointSec
  /-- `block_interval()`, in seconds. -/
  blockInterval : ℕ := 3
  /-- `maintenance_interval` of the chain parameters. -/
  maintenanceInterval : ℕ := 86400
  /-- `cashback_vesting_period_seconds` of the chain parameters. -/
  cashbackVestingPeriodSeconds : ℕ := 31536000
  /-- `average_room_rating` of the dynamic properties. -/
  averageRoomRating : ℤ := 0
  parameters : PlaychainParameters := {}
  /-- Accounts are numbered from zero and never removed. -/
  accounts : ℕ
  balances : FlatMap (AccountId ×ₗ AssetId) ℤ := ∅
  players : UniqueIndex PlayerObject.account := ∅
  gameWitnesses : UniqueIndex GameWitnessObject.account := ∅
  rooms : UniqueIndex (fun r : RoomObject ↦ (r.owner, r.metadata)) := ∅
  tables : ObjectIndex TableObject := ∅
  tableVotings : UniqueIndex TableVotingObject.table := ∅
  pendingTableVotes : UniqueIndex (fun v : PendingTableVoteObject ↦ (v.table, v.voter)) := ∅
  tableAlives : UniqueIndex TableAliveObject.table := ∅
  pendingBuyIns : UniqueIndex (fun b : PendingBuyInObject ↦ (b.player, b.uid)) := ∅
  pendingBuyOuts : UniqueIndex (fun b : PendingBuyOutObject ↦ (b.player, b.table)) := ∅
  buyIns : UniqueIndex (fun b : BuyInObject ↦ (b.table, b.player)) := ∅
  roomRatingMeasurements : UniqueIndex RoomRatingMeasurementObject.associatedBuyin := ∅
  playerInvitations : UniqueIndex (fun i : PlayerInvitationObject ↦ (i.inviter, i.uid)) := ∅
  vestingBalances : ObjectIndex VestingBalanceObject := ∅
  /-- The virtual operations pushed so far, the latest first. -/
  appliedOperations : List VirtualOperation := []

/-- Follow an iterator. -/
def orMissing {α : Type*} : Option α → Except ChainError α
  | some a => .ok a
  | none => .error .missingObject

/-- Follow an identifier. -/
def orUnableToFind {α : Type*} : Option α → Except ChainError α
  | some a => .ok a
  | none => .error (.assertion "Unable to find Object")

/-- Create an object in an index with a unique key. -/
def orViolation {α : Type*} : Option α → Except ChainError α
  | some a => .ok a
  | none => .error
    (.assertion "Could not create object! Most likely a uniqueness constraint is violated.")

/-- Modify an object in an index with a unique key. -/
def orNotModified {α : Type*} : Option α → Except ChainError α
  | some a => .ok a
  | none => .error
    (.assertion "Could not modify object, most likely an index constraint was violated")

section Options

variable {α : Type*} {x : Option α} {a : α}

theorem orMissing_eq_ok : orMissing x = .ok a ↔ x = some a := by
  cases x <;> simp [orMissing]

theorem orUnableToFind_eq_ok : orUnableToFind x = .ok a ↔ x = some a := by
  cases x <;> simp [orUnableToFind]

theorem orViolation_eq_ok : orViolation x = .ok a ↔ x = some a := by
  cases x <;> simp [orViolation]

theorem orNotModified_eq_ok : orNotModified x = .ok a ↔ x = some a := by
  cases x <;> simp [orNotModified]

end Options

namespace Database

/-! ### Access by identifier -/

def playerById (d : Database) (id : PlayerId) : Except ChainError PlayerObject :=
  orUnableToFind (d.players.find? id)

def roomById (d : Database) (id : RoomId) : Except ChainError RoomObject :=
  orUnableToFind (d.rooms.find? id)

def tableById (d : Database) (id : TableId) : Except ChainError TableObject :=
  orUnableToFind (d.tables.find? id)

def gameWitnessById (d : Database) (id : GameWitnessId) : Except ChainError GameWitnessObject :=
  orUnableToFind (d.gameWitnesses.find? id)

def pendingBuyInById (d : Database) (id : PendingBuyInId) :
    Except ChainError PendingBuyInObject :=
  orUnableToFind (d.pendingBuyIns.find? id)

/-- `get_player`: the player of an account, with its id. -/
def getPlayer (d : Database) (account : AccountId) : Except ChainError (PlayerId × PlayerObject) :=
  orMissing (d.players.findKey? account)

/-- `table.room(d).owner` -/
def tableOwner (d : Database) (t : TableObject) : Except ChainError AccountId := do
  return (← d.roomById t.room).owner

/-! ### Mutations -/

/-- `push_applied_operation` -/
def pushAppliedOperation (d : Database) (op : VirtualOperation) : Database :=
  { d with appliedOperations := op :: d.appliedOperations }

/-- `modify` of a table, with a body that may fail. -/
def modifyTable (d : Database) (id : TableId)
    (body : TableObject → Except ChainError TableObject) : Except ChainError Database := do
  let t ← body (← d.tableById id)
  return { d with tables := d.tables.set id t }

/-- The balance of an account. -/
def getBalance (d : Database) (account : AccountId) (asset : AssetId) : ℤ :=
  (d.balances.find? (toLex (account, asset))).getD 0

/-- `adjust_balance` -/
def adjustBalance (d : Database) (account : AccountId) (delta : Asset) :
    Except ChainError Database :=
  if delta.amount = 0 then return d
  else
    match d.balances.find? (toLex (account, delta.assetId)) with
    | none => do
      fcAssert (0 < delta.amount) "Insufficient Balance"
      return { d with balances := d.balances.insert (toLex (account, delta.assetId)) delta.amount }
    | some balance => do
      if delta.amount < 0 then
        fcAssert (-delta.amount ≤ balance) "Insufficient Balance"
      return { d with
        balances := d.balances.insert (toLex (account, delta.assetId)) (balance + delta.amount) }

end Database

end Playchain
