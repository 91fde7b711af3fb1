import Playchain.Evaluators.Voting

/-!
# Games

What a decided vote does to a table: `applyStartPlaying` moves cash into the game,
`applyGameResult` moves it back according to the result and books the rake, `rollback` undoes a game
or clears a table. Pending buy-outs are served when a game ends, first from the result, then from
the cash at the table, then from the cash in the game.

The handlers `expireVoting…` and `scheduledVoting…` are what the block tasks call.
-/

namespace Playchain

/-- Push a game event of a table. -/
def Database.pushGameEvent (d : Database) (table : TableId) (owner : AccountId) (e : GameEvent) :
    Database :=
  d.pushAppliedOperation (.gameEvent table owner e)

/-! ### Pending buy-outs -/

/-- The part of a pending buy-out that the game result pays: what is left to pay, and the result
with the player's cash reduced. -/
def resolveFromResult (account : AccountId) (rest : Asset) (result : GameResult) :
    Except ChainError (Asset × GameResult) :=
  match result.cash.find? account with
  | none => return (rest, result)
  | some r => do
    let cash ← r.cash.min rest
    let rest ← rest.sub cash
    let left ← r.cash.sub cash
    return (rest, { result with cash := result.cash.insert account { r with cash := left } })

/-- The part that the cash at the table pays. -/
def resolveFromCash (d : Database) (table : TableId) (player : PlayerId) (rest : Asset) :
    Except ChainError (Asset × Database) := do
  let t ← d.tableById table
  match t.cash.find? player with
  | none => return (rest, d)
  | some available =>
    if 0 < rest.amount then
      let cash ← available.min rest
      let rest ← rest.sub cash
      let d ← d.modifyTable table fun t ↦ t.adjustCash player (-cash)
      return (rest, d)
    else return (rest, d)

/-- The part that the cash in the game pays, for a player the result does not mention. -/
def resolveFromPlayingCash (d : Database) (table : TableId) (player : PlayerId) (rest : Asset)
    (inResult : Bool) : Except ChainError (Asset × Database) := do
  let t ← d.tableById table
  match t.playingCash.find? player with
  | none => return (rest, d)
  | some available =>
    if 0 < rest.amount ∧ inResult = false then
      let cash ← available.min rest
      let rest ← rest.sub cash
      let d ← d.modifyTable table fun t ↦ t.adjustPlayingCash player (-cash)
      return (rest, d)
    else return (rest, d)

/-- One turn of `pending_buyouts_resolve`. -/
def resolvePendingBuyOut (table : TableId) (owner : AccountId) (s : Database × GameResult)
    (p : ℕ × PendingBuyOutObject) : Except ChainError (Database × GameResult) := do
  let account := (← s.1.playerById p.2.player).account
  let (rest, result) ← resolveFromResult account p.2.amount s.2
  let (rest, d) ← resolveFromCash s.1 table p.2.player rest
  let (rest, d) ← resolveFromPlayingCash d table p.2.player rest (result.cash.contains account)
  let allowed ← p.2.amount.sub rest
  let d ← (
    if 0 < allowed.amount then do
      let d ← d.adjustBalance account allowed
      pure (d.pushGameEvent table owner (.buyOutAllowed account allowed))
    else pure d)
  let d :=
    if 0 < rest.amount then d.pushGameEvent table owner (.fraudBuyOut account rest allowed) else d
  return ({ d with pendingBuyOuts := d.pendingBuyOuts.remove p.1 }, result)

/-- `pending_buyouts_resolve` -/
def pendingBuyoutsResolve (d : Database) (table : TableId) (owner : AccountId)
    (result : GameResult) : Except ChainError (Database × GameResult) :=
  (d.pendingBuyOuts.toList.filter fun b ↦ b.2.table = table).foldlM
    (resolvePendingBuyOut table owner) (d, result)

/-- `with_registration_buy_in`: players of the game that have cash at the table afterwards stay
registered. -/
def withRegistrationBuyIn (d : Database) (table : TableId)
    (callback : Database → Except ChainError Database) : Except ChainError Database := do
  let players := (← d.tableById table).playingCash
  let d ← callback d
  let withCash := (← d.tableById table).cash
  (players.toList.filter fun p ↦ withCash.contains p.1).foldlM
    (fun d p ↦ registerBuyIn d p.1 table) d

/-- `obsolete_buyins_resolve` -/
def obsoleteBuyinsResolve (d : Database) (table : TableId) (clear : Bool) :
    Except ChainError Database := do
  let t ← d.tableById table
  return (d.buyIns.toList.filter fun b ↦ b.2.table = table).foldl (fun d b ↦
    if clear = true ∨ t.cash.contains b.2.player = false then
      { d with buyIns := d.buyIns.remove b.1 }
    else if d.headBlockTime < hardforkPlaychain7Time then prolongLifeForByIn d b.1
    else d) d

/-! ### Votes that are dropped -/

/-- `cleanup_pending_votes` -/
def cleanupPendingVotes (d : Database) (table : TableId) : Database :=
  if hardforkPlaychain1Time ≤ d.headBlockTime then
    (d.pendingTableVotes.toList.filter fun v ↦ v.2.table = table).foldl (fun d v ↦
      { pushFailVoteOperation d v.2.vote with
        pendingTableVotes := d.pendingTableVotes.remove v.1 }) d
  else d

/-- `cleanup_voting` -/
def cleanupVoting (d : Database) (table : TableId) : Database :=
  match d.tableVotings.findKey? table with
  | some v => { d with tableVotings := d.tableVotings.remove v.1 }
  | none => d

/-! ### Rollback -/

/-- The cash of a table by player, in the game and waiting. -/
def rollingCash (t : TableObject) : Except ChainError (FlatMap PlayerId Asset) :=
  t.cash.toList.foldlM (fun cash p ↦ do
    let sum ← ((cash.find? p.1).getD {}).add p.2
    return cash.insert p.1 sum) t.playingCash

/-- The announcement of a rollback to the players, with the payment of a cleared table. -/
def returnCash (d : Database) (table : TableId) (owner : AccountId) (t : TableObject)
    (fullClear : Bool) : Except ChainError Database :=
  if fullClear then do
    (← rollingCash t).toList.foldlM (fun d p ↦ do
      let account := (← d.playerById p.1).account
      (d.pushGameEvent table owner (.buyInReturn account p.2)).adjustBalance account p.2) d
  else
    t.playingCash.toList.foldlM (fun d p ↦ do
      let account := (← d.playerById p.1).account
      return d.pushGameEvent table owner (.gameCashReturn account p.2)) d

/-- The table after a rollback. -/
def rolledBack (fullClear : Bool) (t : TableObject) : Except ChainError TableObject :=
  let t := { t with gameCreated := TimePointSec.min, gameExpiration := TimePointSec.maximum }
  if fullClear then return t.clearPlayingCash.clearCash
  else do
    let t ← t.playingCash.toList.foldlM (fun t p ↦ t.adjustCash p.1 p.2) t
    return t.clearPlayingCash

/-- The body of `rollback`, without the registration of buy-ins. -/
def rollbackImpl (d : Database) (table : TableId) (fullClear : Bool) :
    Except ChainError Database := do
  let owner ← d.tableOwner (← d.tableById table)
  let d := d.pushGameEvent table owner .gameRollback
  let (d, _) ← pendingBuyoutsResolve d table owner {}
  let t ← d.tableById table
  let d ← returnCash d table owner t fullClear
  let d ← d.modifyTable table (rolledBack fullClear)
  return cleanupPendingVotes d table

/-- `rollback` -/
def rollback (d : Database) (table : TableId) (fullClear : Bool) : Except ChainError Database :=
  if hardforkPlaychain10Time ≤ d.headBlockTime then do
    let d ← (
      if !fullClear then withRegistrationBuyIn d table fun d ↦ rollbackImpl d table fullClear
      else do return cleanupBuyIns (← rollbackImpl d table fullClear) table)
    return cleanupVoting d table
  else do
    obsoleteBuyinsResolve (← rollbackImpl d table fullClear) table fullClear

/-! ### Starting a game -/

/-- The move of one player's cash into the game. -/
def startPlayer (t : TableObject) (p : PlayerId × Asset) : Except ChainError TableObject := do
  let t ← t.adjustPlayingCash p.1 p.2
  t.adjustCash p.1 (-p.2)

/-- The move of cash into the game, on the table. -/
def startPlaying (cashPlaying : FlatMap PlayerId Asset) (t : TableObject) :
    Except ChainError TableObject :=
  cashPlaying.toList.foldlM startPlayer t

/-- `apply_start_playing_with_consensus` -/
def applyStartPlayingWithConsensus (d : Database) (table : TableId) (c : Consensus) :
    Except ChainError Database := do
  let initialData ← c.validVote.getInitialData
  let owner ← d.tableOwner (← d.tableById table)
  let cashPlaying ← initialData.cash.toList.foldlM (fun (cash : FlatMap PlayerId Asset) p ↦ do
    return cash.insert (← d.getPlayer p.1).1 p.2) ∅
  let d ← d.modifyTable table fun t ↦ do
    let t ← startPlaying cashPlaying t
    return { t with
      gameCreated := d.headBlockTime
      gameExpiration :=
        TimePointSec.addSeconds d.headBlockTime d.parameters.gameLifetimeLimitInSeconds
      votedWitnesses := c.requiredWitnesses }
  let d := d.pushGameEvent table owner (.gameStartPlayingValidated initialData)
  c.accountsWithInvalidVote.toList.foldlM (fun d p ↦ do
    let failInfo := (← p.2.getInitialData).info
    return d.pushGameEvent table owner
      (.fraudGameStartPlayingCheck p.1 failInfo initialData.info)) d

/-! ### Ending a game -/

/-- The booking of the rake: each payer's pending fees, and the sum for the room. -/
def bookRakes (d : Database) (t : TableObject) (requiredWitnesses : FlatSet GameWitnessId)
    (result : GameResult) : Except ChainError (Database × Asset × FlatMap PlayerId Asset) :=
  result.cash.toList.foldlM (fun (s : Database × Asset × FlatMap PlayerId Asset) p ↦ do
    let player ← s.1.getPlayer p.1
    if 0 < p.2.rake.amount then
      let d := { s.1 with players := s.1.players.modify player.1 fun obj ↦ { obj with
        pendingFees := obj.pendingFees ++
          [⟨p.1, t.metadata, p.2.rake.amount, p.2.rake.assetId, t.room, requiredWitnesses⟩] } }
      let roomRake ← s.2.1.add p.2.rake
      return (d, roomRake, s.2.2.insert player.1 p.2.cash)
    else
      return (s.1, s.2.1, s.2.2.insert player.1 p.2.cash)) (d, {}, ∅)

/-- A player of the result gets the new amount and gives up what was in the game. -/
def settlePlayer (t : TableObject) (p : PlayerId × Asset) : Except ChainError TableObject := do
  let t ← (if 0 < p.2.amount then t.adjustCash p.1 p.2 else pure t)
  -- `operator[]` of the source enters an empty amount for a player who is not in the game
  let old := (t.playingCash.find? p.1).getD {}
  let t := if t.playingCash.contains p.1 then t
    else { t with playingCash := t.playingCash.insert p.1 {} }
  t.adjustPlayingCash p.1 (-old)

/-- A player who is not in the result gets back what was in the game. -/
def returnPlayer (t : TableObject) (p : PlayerId × Asset) : Except ChainError TableObject := do
  let t ← t.adjustPlayingCash p.1 (-p.2)
  t.adjustCash p.1 p.2

/-- The move of cash out of the game, on the table. -/
def settlePlaying (cashResult : FlatMap PlayerId Asset) (t : TableObject) :
    Except ChainError TableObject := do
  let t ← cashResult.toList.foldlM settlePlayer t
  t.playingCash.toList.foldlM returnPlayer t

/-- The body of `apply_game_result_with_consensus` for a result that is not a cancellation. -/
def applyGameResultImpl (d : Database) (table : TableId) (owner : AccountId)
    (requiredWitnesses : FlatSet GameWitnessId) (result : GameResult) :
    Except ChainError Database := do
  let (d, result) ← pendingBuyoutsResolve d table owner result
  let t ← d.tableById table
  let (d, roomRake, cashResult) ← bookRakes d t requiredWitnesses result
  let room ← d.roomById t.room
  let pendingRake ← room.pendingRake.add roomRake
  let d := { d with
    rooms := d.rooms.modify t.room (fun r ↦ { r with pendingRake := pendingRake })
      (RoomObject.key_setPendingRake pendingRake) }
  let d ← d.modifyTable table fun t ↦ do
    let t ← settlePlaying cashResult t
    return { t with
      gameCreated := TimePointSec.min
      gameExpiration := TimePointSec.maximum
      votedWitnesses := ∅ }
  return d.pushGameEvent table owner (.gameResultValidated result)

/-- `apply_game_result_with_consensus` -/
def applyGameResultWithConsensus (d : Database) (table : TableId) (c : Consensus) :
    Except ChainError Database := do
  let result ← c.validVote.getGameResult
  let owner ← d.tableOwner (← d.tableById table)
  let d ← (
    if result.cash.isEmpty then rollback d table false
    else if hardforkPlaychain10Time ≤ d.headBlockTime then
      withRegistrationBuyIn d table fun d ↦
        applyGameResultImpl d table owner c.requiredWitnesses result
    else do
      obsoleteBuyinsResolve (← applyGameResultImpl d table owner c.requiredWitnesses result)
        table false)
  c.accountsWithInvalidVote.toList.foldlM (fun d p ↦ do
    let failLog := (← p.2.getGameResult).log
    return d.pushGameEvent table owner (.fraudGameResultCheck p.1 failLog result.log)) d

/-! ### Handlers of the block tasks -/

/-- `expire_voting_for_playing` -/
def expireVotingForPlaying (d : Database) (id : ℕ) (v : TableVotingObject) :
    Except ChainError Database := do
  let owner ← d.tableOwner (← d.tableById v.table)
  let d := d.pushGameEvent v.table owner .failExpireGameStartPlaying
  let d := { d with tableVotings := d.tableVotings.remove id }
  return cleanupPendingVotes d v.table

/-- The votes of a start voting whose content is still valid; the others are reported as failed. -/
def discardInvalidVotes (d : Database) (v : TableVotingObject) (t : TableObject) :
    Except ChainError (Database × FlatMap AccountId VotingData) :=
  v.votes.toList.foldlM (fun (s : Database × FlatMap AccountId VotingData) p ↦ do
    let data ← p.2.getInitialData
    if ← validateInitialData s.1 v.table t data then
      return (s.1, s.2.insert p.1 p.2)
    else
      let owner ← s.1.tableOwner t
      return (pushFailVoteOperation s.1 (.start ⟨v.table, owner, p.1, data⟩), s.2)) (d, ∅)

section Handlers

variable [GameDigest]

/-- The tally of a start voting; without the minimum of votes there is none, and the voting stays. -/
def tallyForPlaying (d : Database) (id : ℕ) (v : TableVotingObject) (t : TableObject) :
    Except ChainError Database := do
  let owner ← d.tableOwner t
  if d.parameters.minVotesForPlaying ≤ v.votes.size then
    match ← voting d id v t d.parameters.votingForPlayingRequiedPercent with
    | (d, some c) => applyStartPlayingWithConsensus d v.table c
    | (d, none) => return d.pushGameEvent v.table owner .failConsensusGameStartPlaying
  else return d.pushGameEvent v.table owner .failConsensusGameStartPlaying

/-- `scheduled_voting_for_playing` -/
def scheduledVotingForPlaying (d : Database) (id : ℕ) (v : TableVotingObject) :
    Except ChainError Database := do
  let t ← d.tableById v.table
  let d ← (
    if hardforkPlaychain9Time ≤ d.headBlockTime then do
      let (d, validVotes) ← discardInvalidVotes d v t
      tallyForPlaying { d with tableVotings := d.tableVotings.modify id fun w ↦
        { w with votes := validVotes } } id { v with votes := validVotes } t
    else tallyForPlaying d id v t)
  return cleanupPendingVotes d v.table

/-- The tally of a result voting; without a consensus the game is rolled back. -/
def tallyForResults (d : Database) (id : ℕ) (v : TableVotingObject) (t : TableObject) :
    Except ChainError Database := do
  match ← voting d id v t d.parameters.votingForResultsRequiedPercent with
  | (d, some c) => applyGameResultWithConsensus d v.table c
  | (d, none) =>
    let owner ← d.tableOwner t
    rollback (d.pushGameEvent v.table owner .failConsensusGameResult) v.table false

/-- `scheduled_voting_for_results` -/
def scheduledVotingForResults (d : Database) (id : ℕ) (v : TableVotingObject) :
    Except ChainError Database := do
  let t ← d.tableById v.table
  let d ← tallyForResults d id v t
  return cleanupPendingVotes d v.table

/-- `expire_voting_for_results`. Only a debug build stops at `assert(table.is_playing())`, which a voting
left behind by a game before the tenth hard fork does not meet. -/
def expireVotingForResults (d : Database) (id : ℕ) (v : TableVotingObject) :
    Except ChainError Database := do
  let t ← d.tableById v.table
  -- a tally without all voters is allowed when enough of them have voted
  if v.requiredPlayerVoters.size ≤ t.playingCash.size ∧
      d.parameters.minVotesForResults ≤ t.playingCash.size - v.requiredPlayerVoters.size then
    scheduledVotingForResults d id v
  else
    let owner ← d.tableOwner t
    let d := { d with tableVotings := d.tableVotings.remove id }
    rollback (d.pushGameEvent v.table owner .failExpireGameResult) v.table false

end Handlers

/-! ### Evaluators -/

/-- `game_start_playing_check_evaluator_impl_v2::do_evaluate` -/
def evaluateGameStartPlayingCheck (d : Database) (op : GameStartPlayingCheck) :
    Except ChainError Unit := do
  fcAssert (isTableExists d op.table = true) "Table does not exist"
  let t ← d.tableById op.table
  fcAssert ((← isTableOwner d t op.tableOwner) = true) "Wrong table owner"
  fcAssert (2 ≤ op.initialData.cash.size) "Invalid data to vote. At least two players required"
  fcAssert (t.isFree = true) "Wrong type of voting. There is game on table"
  checkIncomingVote d op.table t (.start op)

/-- `game_start_playing_check_evaluator_impl_v2::do_apply` -/
def applyGameStartPlayingCheck (d : Database) (op : GameStartPlayingCheck) :
    Except ChainError Database :=
  tryVoting d ∅ d.parameters.votingForPlayingExpirationSeconds
    d.parameters.percentageOfVoterWitnessSubstitutionWhileVotingForPlaying (.start op)

/-- `game_result_check_evaluator_impl_v2::do_evaluate` -/
def evaluateGameResultCheck (d : Database) (op : GameResultCheck) : Except ChainError Unit := do
  fcAssert (isTableExists d op.table = true) "Table does not exist"
  let t ← d.tableById op.table
  fcAssert ((← isTableOwner d t op.tableOwner) = true) "Wrong table owner"
  fcAssert (t.isFree = false) "Wrong type of voting. There is no game on table"
  checkIncomingVote d op.table t (.result op)

/-- `game_result_check_evaluator_impl_v2::do_apply` -/
def applyGameResultCheck (d : Database) (op : GameResultCheck) : Except ChainError Database := do
  let t ← d.tableById op.table
  tryVoting d t.votedWitnesses d.parameters.votingForResultsExpirationSeconds
    d.parameters.percentageOfVoterWitnessSubstitutionWhileVotingForResults (.result op)

/-- `game_reset_evaluator` -/
def evaluateGameReset (d : Database) (op : GameReset) : Except ChainError Unit := do
  fcAssert (isTableExists d op.table = true) "Table does not exist"
  let t ← d.tableById op.table
  fcAssert ((← isTableOwner d t op.tableOwner) = true) "Wrong table owner"

def applyGameReset (d : Database) (op : GameReset) : Except ChainError Database := do
  let d ← rollback d op.table op.rollbackTable
  let d :=
    if d.headBlockTime < hardforkPlaychain10Time then cleanupVoting d op.table else d
  aliveForTable d op.table

end Playchain
