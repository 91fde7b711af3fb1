import Playchain.Protocol.Operations

/-!
# Tables

A table holds its players' money in two maps: `cash` waits at the table, `playingCash` is at stake in
the running game. A player may be in both, and may besides hold a reservation (`pendingProposals`);
`occupiedPlaces` counts the players that are in at least one of the three.

The two adjustments `adjustCash` and `adjustPlayingCash` run the same code on the two maps
(`adjustEntry`). An adjustment that leaves less than one share **erases** the entry, also when the
result is negative: `overdrawn` accumulates the negative amounts erased so far. It is a history
variable of the development and has no counterpart in the source.
-/

namespace Playchain

/-- `++` on an unsigned 32-bit counter. -/
def incUInt32 (n : ℕ) : ℕ := (n + 1) % 2 ^ 32

/-- `--` on an unsigned 32-bit counter. -/
def decUInt32 (n : ℕ) : ℕ := (n + (2 ^ 32 - 1)) % 2 ^ 32

/-- `table_object` -/
structure TableObject where
  room : RoomId
  metadata : String := ""
  requiredWitnesses : ℕ := 0
  minAcceptedProposalAsset : Asset := {}
  /-- Reservations that have just been allocated to the table. -/
  pendingProposals : FlatMap PlayerId PendingBuyInId := ∅
  /-- Cash that waits at the table. -/
  cash : FlatMap PlayerId Asset := ∅
  /-- Cash elected to start playing. -/
  playingCash : FlatMap PlayerId Asset := ∅
  gameCreated : TimePointSec := TimePointSec.min
  gameExpiration : TimePointSec := TimePointSec.maximum
  /-- Witnesses that voted for the running game. -/
  votedWitnesses : FlatSet GameWitnessId := ∅
  weight : ℤ := 0
  occupiedPlaces : ℕ := 0
  /-- History: the sum of the negative amounts that adjustments have erased. -/
  overdrawn : ℤ := 0

/-- What an adjustment does to the set of players of one map. -/
inductive SeatChange where
  | opened
  | closed
  | unchanged
  deriving DecidableEq

/-- The outcome of an adjustment of one cash map. -/
structure Adjusted where
  /-- The map afterwards. -/
  cash : FlatMap PlayerId Asset
  /-- Whether the player entered or left it. -/
  seat : SeatChange
  /-- The negative amount that was erased, if any. -/
  overdrawn : ℤ

/-- The common body of `adjust_cash` and `adjust_playing_cash`, on one of the two maps. -/
def adjustEntry (cash : FlatMap PlayerId Asset) (player : PlayerId) (delta : Asset) :
    Except ChainError Adjusted :=
  match cash.find? player with
  | none =>
    if 0 < delta.amount then do
      let value ← ({} : Asset).add delta
      return ⟨cash.insert player value, .opened, 0⟩
    else
      return ⟨cash, .unchanged, 0⟩
  | some old => do
    let value ← old.add delta
    if value.amount < 1 then
      return ⟨cash.erase player, .closed, min 0 value.amount⟩
    else
      return ⟨cash.insert player value, .unchanged, 0⟩

/-- The seat counter after a change of one map, for a player who is `seated` through the others. -/
def SeatChange.count (seat : SeatChange) (seated : Bool) (places : ℕ) : ℕ :=
  match seat with
  | opened => if seated then places else incUInt32 places
  | closed => if seated then places else decUInt32 places
  | unchanged => places

namespace TableObject

/-- `is_free` -/
def isFree (t : TableObject) : Bool := t.playingCash.isEmpty

/-- `is_playing(id)` -/
def isPlaying (t : TableObject) (player : PlayerId) : Bool := t.playingCash.contains player

/-- `is_waiting_at_table` -/
def isWaitingAtTable (t : TableObject) (player : PlayerId) : Bool := t.cash.contains player

/-- `adjust_cash` -/
def adjustCash (t : TableObject) (player : PlayerId) (delta : Asset) :
    Except ChainError TableObject := do
  let r ← adjustEntry t.cash player delta
  let seated := t.playingCash.contains player || t.pendingProposals.contains player
  return { t with
    cash := r.cash
    occupiedPlaces := r.seat.count seated t.occupiedPlaces
    overdrawn := t.overdrawn + r.overdrawn }

/-- `adjust_playing_cash` -/
def adjustPlayingCash (t : TableObject) (player : PlayerId) (delta : Asset) :
    Except ChainError TableObject := do
  let r ← adjustEntry t.playingCash player delta
  let seated := t.cash.contains player || t.pendingProposals.contains player
  return { t with
    playingCash := r.cash
    occupiedPlaces := r.seat.count seated t.occupiedPlaces
    overdrawn := t.overdrawn + r.overdrawn }

/-- `clear_cash` -/
def clearCash (t : TableObject) : TableObject :=
  { t with
    occupiedPlaces := t.cash.toList.foldl (fun places p ↦
      SeatChange.closed.count (t.playingCash.contains p.1 || t.pendingProposals.contains p.1)
        places) t.occupiedPlaces
    cash := ∅ }

/-- `clear_playing_cash` -/
def clearPlayingCash (t : TableObject) : TableObject :=
  { t with
    occupiedPlaces := t.playingCash.toList.foldl (fun places p ↦
      SeatChange.closed.count (t.cash.contains p.1 || t.pendingProposals.contains p.1)
        places) t.occupiedPlaces
    playingCash := ∅ }

/-- `add_pending_proposal`: the reservation it replaces, or the null reservation. -/
def addPendingProposal (t : TableObject) (player : PlayerId) (pending : PendingBuyInId) :
    PendingBuyInId × TableObject :=
  match t.pendingProposals.find? player with
  | none =>
    (nullPendingBuyIn,
      { t with
        pendingProposals := t.pendingProposals.insert player pending
        occupiedPlaces := SeatChange.opened.count
          (t.cash.contains player || t.playingCash.contains player) t.occupiedPlaces })
  | some old =>
    (if old ≠ pending then old else nullPendingBuyIn,
      { t with pendingProposals := t.pendingProposals.insert player pending })

/-- `remove_pending_proposal` -/
def removePendingProposal (t : TableObject) (player : PlayerId) : TableObject :=
  match t.pendingProposals.find? player with
  | none => t
  | some _ =>
    { t with
      pendingProposals := t.pendingProposals.erase player
      occupiedPlaces := SeatChange.closed.count
        (t.cash.contains player || t.playingCash.contains player) t.occupiedPlaces }

/-- `get_cash_balance` -/
def getCashBalance (t : TableObject) (player : PlayerId) : Asset :=
  (t.cash.find? player).getD {}

end TableObject

/-- `table_voting_object` -/
structure TableVotingObject where
  table : TableId
  created : TimePointSec
  expiration : TimePointSec
  scheduledVoting : TimePointSec
  votes : FlatMap AccountId VotingData := ∅
  witnessesAllowedForSubstitution : ℕ := 0
  requiredPlayerVoters : FlatSet AccountId := ∅
  requiredWitnessVoters : FlatSet GameWitnessId := ∅
  votedWitnesses : FlatSet GameWitnessId := ∅
  etalonVote : Option VotingData := none
  /-- History: the required players when the voting was opened. -/
  openingVoters : FlatSet AccountId := ∅
  /-- History: every account whose vote has been recorded, also if it was discarded later. -/
  castVoters : FlatSet AccountId := ∅

namespace TableVotingObject

/-- The kind of a voting is the kind of its first vote. -/
def isVotingForPlaying (v : TableVotingObject) : Bool :=
  match v.votes.toList with
  | [] => false
  | p :: _ => p.2.isInitialData

/-- `is_voting_for_results` -/
def isVotingForResults (v : TableVotingObject) : Bool :=
  match v.votes.toList with
  | [] => false
  | p :: _ => !p.2.isInitialData

end TableVotingObject

/-- `pending_table_vote_object` -/
structure PendingTableVoteObject where
  table : TableId
  voter : AccountId
  vote : VoteOperation

/-- `table_alive_object` -/
structure TableAliveObject where
  table : TableId
  created : TimePointSec
  expiration : TimePointSec

end Playchain
