import Mathlib.Data.String.Basic
import Playchain.Protocol.Version
import Playchain.Protocol.Operations

/-!
# Players, rooms and reservations

The remaining objects the table logic reads and writes.
-/

namespace Playchain

/-- The order of `deposit_statistic`: by asset, then getter, then metadata. -/
abbrev DepositKey := AssetId ×ₗ AccountId ×ₗ String

/-- `player_pending_fee_data`: rake that a player has paid and that is not disseminated yet. -/
structure PlayerPendingFeeData where
  getter : AccountId
  metadata : String
  amount : ℤ
  assetId : AssetId
  room : RoomId
  witnesses : FlatSet GameWitnessId

/-- `player_object` -/
structure PlayerObject where
  account : AccountId
  inviter : PlayerId
  pendingFees : List PlayerPendingFeeData := []
  /-- What is left to the inviters above the depth limit, by room; a set of deposit statistics is
  stored as a map from their order key to their amount. -/
  pendingParentInvitationFees : FlatMap RoomId (FlatMap DepositKey ℤ) := ∅
  balance : Option VestingBalanceId := none

/-- `is_not_pending` -/
def PlayerObject.isNotPending (p : PlayerObject) : Bool :=
  p.pendingFees.isEmpty && p.pendingParentInvitationFees.isEmpty

/-- `game_witness_object` -/
structure GameWitnessObject where
  account : AccountId
  balance : Option VestingBalanceId := none

/-- `room_object` -/
structure RoomObject where
  owner : AccountId
  serverUrl : String := ""
  metadata : String := ""
  protocolVersion : VersionExt := {}
  rating : ℤ := 0
  lastRatingUpdate : TimePointSec := TimePointSec.min
  /-- The rating before the last recalculation; equal to the rating once the weights of the room's
  tables are up to date. -/
  prevRating : ℤ := 0
  /-- Where an unfinished update of table weights has stopped, or the null table. -/
  lastUpdatedTable : TableId := nullTable
  weightSumByTimeFactor : ℕ := 1
  measurementSumByTimeFactor : ℕ := 1
  measurementQuantity : ℕ := 1
  /-- Rake that is not disseminated yet. -/
  pendingRake : Asset := {}
  balance : Option VestingBalanceId := none

/-- The rake is no part of the key of a room. -/
theorem RoomObject.key_setPendingRake (rake : Asset) (r : RoomObject) :
    (({ r with pendingRake := rake } : RoomObject).owner, ({ r with pendingRake := rake } : RoomObject).metadata) =
      (r.owner, r.metadata) := rfl

/-- `is_not_changed_rating` -/
def RoomObject.isNotChangedRating (r : RoomObject) : Bool := r.rating = r.prevRating

/-- `is_special_room` -/
def isSpecialRoom (id : RoomId) : Bool := id = nullRoom

/-- `pending_buy_in_object`: a reservation. -/
structure PendingBuyInObject where
  player : AccountId
  uid : String := ""
  amount : Asset := {}
  metadata : String := ""
  protocolVersion : VersionExt := {}
  created : TimePointSec := 0
  expiration : TimePointSec
  /-- The table it is allocated to, or the null table. -/
  table : TableId := nullTable
  playerInternal : PlayerId := nullPlayer

/-- `is_allocated` -/
def PendingBuyInObject.isAllocated (b : PendingBuyInObject) : Bool := b.table ≠ 0

/-- `buy_in_object`: a player's stay at a table. -/
structure BuyInObject where
  player : PlayerId
  table : TableId
  created : TimePointSec
  updated : TimePointSec
  expiration : TimePointSec

/-- `pending_buy_out_object`: a request to leave with an amount when the game ends. -/
structure PendingBuyOutObject where
  player : PlayerId
  table : TableId
  amount : Asset

/-- `room_rating_measurement_object` -/
structure RoomRatingMeasurementObject where
  created : TimePointSec
  expiration : TimePointSec
  room : RoomId
  table : TableId
  associatedBuyin : PendingBuyInId
  weight : ℕ
  waitingResolve : Bool

/-- `player_invitation_object` -/
structure PlayerInvitationObject where
  inviter : AccountId
  uid : String
  created : TimePointSec
  expiration : TimePointSec
  metadata : String

/-- `vesting_balance_object` with a coin-days policy, as far as deposits go. -/
structure VestingBalanceObject where
  owner : AccountId
  balance : ℤ
  vestingSeconds : ℕ

/-- `playchain_parameters`, with the defaults of the production configuration. -/
structure PlaychainParameters where
  playerReferrerPercentOfFee : PercentType := 7500
  playerReferrerParentPercentOfFee : PercentType := 667
  playerReferrerBalanceMinThreshold : ℤ := 1000000
  playerReferrerBalanceMaxThreshold : ℤ := 10000000
  gameWitnessPercentOfFee : PercentType := 1000
  takeIntoAccountGrapheneBalances : Bool := false
  votingForPlayingExpirationSeconds : ℕ := 9
  votingForResultsExpirationSeconds : ℕ := 9
  votingForPlayingRequiedPercent : PercentType := 6000
  votingForResultsRequiedPercent : PercentType := 6000
  gameLifetimeLimitInSeconds : ℕ := 86400
  pendingBuyinProposalLifetimeLimitInSeconds : ℕ := 15
  amountReservingPlacesPerUser : ℕ := 1
  pendingBuyInAllocatePerBlock : ℕ := 300
  roomsRatingRecalculationsPerMaintenance : ℕ := 1000
  tablesWeightRecalculationsPerMaintenance : ℕ := 1000
  minAllowedTableWeightToBeAllocated : ℤ := 0
  minimumDesiredNumberOfPlayersForTablesAllocation : ℕ := 1
  maximumDesiredNumberOfPlayersForTablesAllocation : ℕ := 5
  buyInExpirationSeconds : ℕ := 180
  percentageOfVoterWitnessSubstitutionWhileVotingForPlaying : PercentType := 0
  percentageOfVoterWitnessSubstitutionWhileVotingForResults : PercentType := 5000
  minVotesForResults : ℕ := 1
  tableAliveExpirationSeconds : ℕ := 600
  roomRatingMeasurementsAlivePeriods : ℕ := 10
  minVotesForPlaying : ℕ := 2
  deriving DecidableEq

/-- `playchain_parameters::validate` -/
def PlaychainParameters.Valid (p : PlaychainParameters) : Prop :=
  p.playerReferrerPercentOfFee ≤ hundredPercent ∧
  p.playerReferrerParentPercentOfFee ≤ hundredPercent ∧
  p.gameWitnessPercentOfFee ≤ hundredPercent ∧
  p.votingForPlayingRequiedPercent ≤ hundredPercent ∧
  p.votingForResultsRequiedPercent ≤ hundredPercent ∧
  p.percentageOfVoterWitnessSubstitutionWhileVotingForPlaying ≤ hundredPercent ∧
  p.percentageOfVoterWitnessSubstitutionWhileVotingForResults ≤ hundredPercent ∧
  p.minimumDesiredNumberOfPlayersForTablesAllocation <
    p.maximumDesiredNumberOfPlayersForTablesAllocation

instance (p : PlaychainParameters) : Decidable p.Valid :=
  inferInstanceAs (Decidable (_ ∧ _))

example : ({} : PlaychainParameters).Valid := by decide

end Playchain
