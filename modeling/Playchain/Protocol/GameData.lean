import Playchain.Protocol.Types

/-!
# Game data

What players, room owners and game witnesses vote on, and the virtual operations by which the chain
reports what it decided.
-/

namespace Playchain

/-- The cash each account brings to a new game. -/
structure GameInitialData where
  /-- Cash by account. -/
  cash : FlatMap AccountId Asset := ∅
  /-- Free text of the room. -/
  info : String := ""
  deriving DecidableEq

/-- What a player leaves a game with. -/
structure GamerCashResult where
  /-- Funds at the end of the game. -/
  cash : Asset := {}
  /-- Payment for the game. -/
  rake : Asset := {}
  deriving DecidableEq

/-- The outcome of a game; no entry at all asks to cancel the game. -/
structure GameResult where
  /-- Outcome by account. -/
  cash : FlatMap AccountId GamerCashResult := ∅
  /-- Free text of the room. -/
  log : String := ""
  deriving DecidableEq

/-- `voting_data_type`: the content of a vote. -/
inductive VotingData where
  | gameInitialData (data : GameInitialData)
  | gameResult (data : GameResult)
  deriving DecidableEq

namespace VotingData

/-- Whether the content is a proposal to start a game. -/
def isInitialData : VotingData → Bool
  | gameInitialData _ => true
  | gameResult _ => false

/-- `get<game_initial_data>()` -/
def getInitialData : VotingData → Except ChainError GameInitialData
  | gameInitialData data => .ok data
  | gameResult _ => .error .badVariant

/-- `get<game_result>()` -/
def getGameResult : VotingData → Except ChainError GameResult
  | gameInitialData _ => .error .badVariant
  | gameResult data => .ok data

end VotingData

/-- The digest by which the tally groups votes of equal content: an encoding of the cash and the
text, hashed. The hash is a parameter of the development. -/
class GameDigest where
  /-- The digest of a vote's content; `0` is the default-constructed digest. -/
  digest : VotingData → ℕ

/-- `game_event_type` -/
inductive GameEvent where
  | gameStartPlayingValidated (initialData : GameInitialData)
  | gameResultValidated (result : GameResult)
  | gameRollback
  | failConsensusGameStartPlaying
  | failConsensusGameResult
  | failExpireGameStartPlaying
  | failExpireGameResult
  | failExpireGameLifetime
  | fraudGameStartPlayingCheck (witness : AccountId) (failInfo actualInfo : String)
  | fraudGameResultCheck (witness : AccountId) (failLog actualLog : String)
  | buyOutAllowed (player : AccountId) (amount : Asset)
  | buyInReturn (player : AccountId) (amount : Asset)
  | gameCashReturn (player : AccountId) (amount : Asset)
  | fraudBuyOut (player : AccountId) (failAmount allowedAmount : Asset)
  | failVote (voter : AccountId) (vote : VotingData)
  deriving DecidableEq

/-- `playchain_deposit_type` -/
inductive PlaychainDepositType where
  | unknown
  | inviter
  | witness
  | room
  deriving DecidableEq

/-- The virtual operations the modelled code pushes. -/
inductive VirtualOperation where
  | gameEvent (table : TableId) (tableOwner : AccountId) (event : GameEvent)
  | gameWitnessCreate (account : AccountId)
  | playerCreate (account inviter : AccountId)
  | playerInvitationExpire (inviter : AccountId) (uid : String)
  | buyInReservingAllocatedTable (player : AccountId) (uid : String) (amount : Asset)
      (metadata : String) (table : TableId) (tableOwner : AccountId) (tableWeight roomRating : ℤ)
  | buyInReservingExpire (player : AccountId) (uid : String) (amount : Asset) (metadata : String)
      (expireByReplacement : Bool) (table : TableId) (tableOwner : AccountId)
  | buyInExpire (player : AccountId) (table : TableId) (tableOwner : AccountId) (amount : Asset)
  | playchainDepositCashback (type : PlaychainDepositType) (getter owner : AccountId)
      (amount : Asset) (metadata : String)
  deriving DecidableEq

end Playchain
