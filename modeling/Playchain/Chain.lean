import Playchain.BlockTasks.PendingBuyIn
import Playchain.Lib.Control
import Playchain.MaintainTasks.DepositPendingFees
import Playchain.MaintainTasks.RoomRating

/-!
# The chain as a transition system

A state of the chain changes by an accepted operation, by the progress of the head block time, by
the block tasks, by the maintenance tasks (the dissemination of the rake, the ratings of rooms, the
weights of tables), and by what the rest of the chain does to the fields modelled here
(`Surroundings`). A run is a sequence of such `Event`s, in any order; a block of the chain is a
particular sequence of them. `Reachable` states are reached from a genesis state.
-/

namespace Playchain

/-! ### Operations -/

section Operations

variable [GameDigest]

/-- The stateful checks of an operation. The two votes are dispatched on the head block time. -/
def evaluateOperation (d : Database) : Operation → Except ChainError Unit
  | .playerCreateByRoomOwner op => evaluatePlayerCreateByRoomOwner d op
  | .playerInvitationCreate op => evaluatePlayerInvitationCreate d op
  | .playerInvitationResolve op => evaluatePlayerInvitationResolve d op
  | .playerInvitationCancel op => evaluatePlayerInvitationCancel d op
  | .roomCreate op => evaluateRoomCreate d op
  | .roomUpdate op => evaluateRoomUpdate d op
  | .tableCreate op => evaluateTableCreate d op
  | .tableUpdate op => evaluateTableUpdate d op
  | .tablesAlive op => evaluateTablesAlive d op
  | .buyInTable op => evaluateBuyInTable d op
  | .buyOutTable op => evaluateBuyOutTable d op
  | .buyInReserve op => evaluateBuyInReserve d op
  | .buyInReservingCancel op => evaluateBuyInReservingCancel d op
  | .buyInReservingCancelAll op => evaluateBuyInReservingCancelAll d op
  | .buyInReservingResolve op => evaluateBuyInReservingResolve d op
  | .gameStartPlayingCheck op =>
    if hardforkPlaychain8Time ≤ d.headBlockTime then evaluateGameStartPlayingCheck d op
    else evaluateGameStartPlayingCheckV1 d op
  | .gameResultCheck op =>
    if hardforkPlaychain8Time ≤ d.headBlockTime then evaluateGameResultCheck d op
    else evaluateGameResultCheckV1 d op
  | .gameReset op => evaluateGameReset d op

/-- The effect of an operation. -/
def performOperation (d : Database) : Operation → Except ChainError Database
  | .playerCreateByRoomOwner op => applyPlayerCreateByRoomOwner d op
  | .playerInvitationCreate op => applyPlayerInvitationCreate d op
  | .playerInvitationResolve op => applyPlayerInvitationResolve d op
  | .playerInvitationCancel op => applyPlayerInvitationCancel d op
  | .roomCreate op => applyRoomCreate d op
  | .roomUpdate op => applyRoomUpdate d op
  | .tableCreate op => applyTableCreate d op
  | .tableUpdate op => applyTableUpdate d op
  | .tablesAlive op => applyTablesAlive d op
  | .buyInTable op => applyBuyInTable d op
  | .buyOutTable op => applyBuyOutTable d op
  | .buyInReserve op => applyBuyInReserve d op
  | .buyInReservingCancel op => applyBuyInReservingCancel d op
  | .buyInReservingCancelAll op => applyBuyInReservingCancelAll d op
  | .buyInReservingResolve op => applyBuyInReservingResolve d op
  | .gameStartPlayingCheck op =>
    if hardforkPlaychain8Time ≤ d.headBlockTime then applyGameStartPlayingCheck d op
    else applyGameStartPlayingCheckV1 d op
  | .gameResultCheck op =>
    if hardforkPlaychain8Time ≤ d.headBlockTime then applyGameResultCheck d op
    else applyGameResultCheckV1 d op
  | .gameReset op => applyGameReset d op

/-- An operation is accepted when it validates and evaluates; fees are not modelled. -/
def applyOperation (d : Database) (op : Operation) : Except ChainError Database := do
  op.validate
  evaluateOperation d op
  performOperation d op

end Operations

/-! ### Genesis -/

/-- The database with the null objects that occupy the first id of each index. -/
def nullDatabase (time : TimePointSec) (accounts : ℕ) : Database :=
  { headBlockTime := time
    accounts := accounts
    players := (UniqueIndex.create? ∅ { account := tempAccount, inviter := nullPlayer }).getD ∅
    gameWitnesses := (UniqueIndex.create? ∅ { account := tempAccount }).getD ∅
    rooms := (UniqueIndex.create? ∅ { owner := tempAccount }).getD ∅
    tables := ObjectIndex.create ∅ { room := nullRoom, gameExpiration := TimePointSec.maximum }
    pendingBuyIns := (UniqueIndex.create? ∅
      { player := nullAccount
        expiration := TimePointSec.maximum
        playerInternal := nullPlayer }).getD ∅ }

/-- Genesis makes ordinary accounts players and pays out their balances. -/
def initGenesis (time : TimePointSec) (accounts : ℕ) (claimed : List (AccountId × Asset)) :
    Except ChainError Database :=
  claimed.foldlM (fun d p ↦ do
    fcAssert (isSpecialAccount p.1 = false) "!account.is_special_account()"
    let players ← orViolation (d.players.create? { account := p.1, inviter := nullPlayer })
    Database.adjustBalance { d with players := players } p.1 p.2) (nullDatabase time accounts)

/-! ### The rest of the chain -/

/-- What is decided outside the modelled code: balances of accounts (transfers and fees), new accounts,
the parameters that the committee chooses, and vesting balances. -/
structure Surroundings where
  blockInterval : ℕ := 3
  maintenanceInterval : ℕ := 86400
  cashbackVestingPeriodSeconds : ℕ := 31536000
  parameters : PlaychainParameters := {}
  accounts : ℕ
  balances : FlatMap (AccountId ×ₗ AssetId) ℤ
  vestingBalances : ObjectIndex VestingBalanceObject := ∅

/-- Blocks take time, parameters validate, and accounts are never removed. -/
def Surroundings.Follows (s : Surroundings) (d : Database) : Prop :=
  0 < s.blockInterval ∧ s.parameters.Valid ∧ d.accounts ≤ s.accounts

instance (s : Surroundings) (d : Database) : Decidable (s.Follows d) :=
  inferInstanceAs (Decidable (_ ∧ _))

/-- The database after the rest of the chain has acted. -/
def Database.surround (d : Database) (s : Surroundings) : Database :=
  { d with
    blockInterval := s.blockInterval
    maintenanceInterval := s.maintenanceInterval
    cashbackVestingPeriodSeconds := s.cashbackVestingPeriodSeconds
    parameters := s.parameters
    accounts := s.accounts
    balances := s.balances
    vestingBalances := s.vestingBalances }

/-! ### Runs -/

/-- What happens to the chain. -/
inductive Event where
  | operation (op : Operation)
  /-- The head block time moves on. -/
  | headBlock (time : TimePointSec)
  | blockTasks (maintenance : Bool)
  | pendingFees
  | roomRating (entropy : ℤ)
  | tableWeight
  | elsewhere (s : Surroundings)

section Runs

variable [GameDigest] [RatingFunctions]

/-- The effect of an event. -/
def Event.run (d : Database) : Event → Except ChainError Database
  | operation op => applyOperation d op
  | headBlock time => do
    fcAssert (d.headBlockTime < time ∧ time < TimePointSec.maximum) "head_block_time() < time"
    return { d with headBlockTime := time }
  | blockTasks maintenance => processBlockTasks d maintenance
  | pendingFees => depositPendingFees d
  | roomRating entropy => updateRoomRating d entropy
  | tableWeight => updateTableWeight d
  | elsewhere s => do
    fcAssert (s.Follows d) "validate"
    return d.surround s

/-- One step of the chain, by an event that meets a condition on the state before it. -/
def StepIf (allowed : Database → Event → Prop) (d d' : Database) : Prop :=
  ∃ event, allowed d event ∧ event.run d = .ok d'

/-- One step of the chain. -/
abbrev Step : Database → Database → Prop := StepIf fun _ _ ↦ True

/-- The states of a chain that starts at `time`, in runs whose steps all meet a condition. -/
def ReachableIf (allowed : Database → Event → Prop) (time : TimePointSec) (d : Database) : Prop :=
  ∃ accounts claimed d₀, initGenesis time accounts claimed = .ok d₀ ∧
    Relation.ReflTransGen (StepIf allowed) d₀ d

/-- The states of a chain that starts at `time`. -/
abbrev Reachable : TimePointSec → Database → Prop := ReachableIf fun _ _ ↦ True

end Runs

end Playchain
