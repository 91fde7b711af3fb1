import Playchain.Evaluators.Games

/-!
# The voting algorithm before the eighth hard fork

Kept by the chain to replay old blocks. Votes are tallied as soon as the required voters have voted,
within the operation of the last of them.
-/

namespace Playchain

/-- `check_voter` -/
def checkVoter (d : Database) (table : TableId) (t : TableObject) (voter : AccountId) :
    Except ChainError Unit := do
  match d.tableVotings.findKey? table with
  | some v =>
    fcAssert (v.2.votes.contains voter = false) "Voter has already voted"
    let entitled ← pure (v.2.requiredPlayerVoters.contains voter) <||>
      isGameWitness d t voter <||> isTableOwner d t voter
    fcAssert (entitled = true) "Invalid voter"
  | none =>
    fcAssert (d.pendingTableVotes.findKey? (table, voter) = none) "Voter has already voted"

section Obsolete

variable [GameDigest]

/-- `apply_start_playing_check_voting`: whether to wait for the next vote. -/
def applyStartPlayingCheckVoting (d : Database) (op : GameStartPlayingCheck) :
    Except ChainError (Database × Bool) := do
  let s ← collectVotes d op.table op.voter (.gameInitialData op.initialData)
    d.parameters.votingForPlayingExpirationSeconds
    d.parameters.percentageOfVoterWitnessSubstitutionWhileVotingForPlaying ∅ false
  if s.2 then
    let t ← s.1.tableById op.table
    let v ← orMissing (s.1.tableVotings.findKey? op.table)
    match ← voting s.1 v.1 v.2 t d.parameters.votingForPlayingRequiedPercent with
    | (d, some c) => return (← applyStartPlayingWithConsensus d op.table c, false)
    | (d, none) =>
      let owner ← d.tableOwner t
      return (d.pushGameEvent op.table owner .failConsensusGameStartPlaying, false)
  else return (s.1, true)

/-- `apply_game_result_check_voting`: whether to wait for the next vote. -/
def applyGameResultCheckVoting (d : Database) (op : GameResultCheck) :
    Except ChainError (Database × Bool) := do
  let t ← d.tableById op.table
  let s ← collectVotes d op.table op.voter (.gameResult op.result)
    d.parameters.votingForResultsExpirationSeconds
    d.parameters.percentageOfVoterWitnessSubstitutionWhileVotingForResults t.votedWitnesses false
  if s.2 then
    let v ← orMissing (s.1.tableVotings.findKey? op.table)
    return (← tallyForResults s.1 v.1 v.2 t, false)
  else return (s.1, true)

/-- Apply a vote of either kind. -/
def applyCheckVoting (d : Database) : VoteOperation → Except ChainError (Database × Bool)
  | .start op => applyStartPlayingCheckVoting d op
  | .result op => applyGameResultCheckVoting d op

/-- One turn of the loop over the waiting votes: `vote.op.get<operation_type>()` fails on a vote of
another kind. -/
def drainPendingVoteV1 (table : TableId) (isStart : Bool) (s : Database × Bool)
    (p : ℕ × PendingTableVoteObject) : Except ChainError (Database × Bool) := do
  let s ← (
    if s.2 then
      if p.2.vote.isStart ≠ isStart then .error .badVariant
      else if s.1.headBlockTime < hardforkPlaychain1Time then applyCheckVoting s.1 p.2.vote
      else do
        let t ← s.1.tableById table
        if ← validateInvariants s.1 table t p.2.vote.data then applyCheckVoting s.1 p.2.vote
        else pure (pushFailVoteOperation s.1 p.2.vote, true)
    else pure s)
  return ({ s.1 with pendingTableVotes := s.1.pendingTableVotes.remove p.1 }, s.2)

/-- The common end of the two `do_apply` of the first version. -/
def applyVoteV1 (d : Database) (opens : Bool) (op : VoteOperation) : Except ChainError Database := do
  if isTableVoting d op.table = false ∧ opens = false then
    let votes ← orViolation (d.pendingTableVotes.create?
      { table := op.table, voter := op.voter, vote := op })
    return { d with pendingTableVotes := votes }
  else
    let s ← applyCheckVoting d op
    let s ← (s.1.pendingTableVotes.toList.filter fun v ↦ v.2.table = op.table).foldlM
      (drainPendingVoteV1 op.table op.isStart) s
    aliveForTable s.1 op.table

/-- `game_start_playing_check_evaluator_impl_v1::do_evaluate` -/
def evaluateGameStartPlayingCheckV1 (d : Database) (op : GameStartPlayingCheck) :
    Except ChainError Unit := do
  fcAssert (isTableExists d op.table = true) "Table does not exist"
  let t ← d.tableById op.table
  fcAssert ((← isTableOwner d t op.tableOwner) = true) "Wrong table owner"
  fcAssert (t.isFree = true) "Wrong type of voting. There is game on table"
  fcAssert (2 ≤ op.initialData.cash.size) "Invalid data to vote. At least two players required"
  fcAssert (isTableVotingForResults d op.table = false) "Wrong type of voting"
  checkVoter d op.table t op.voter
  fcAssert ((← validateInitialData d op.table t op.initialData) = true) "Invalid initial data"

/-- `game_start_playing_check_evaluator_impl_v1::do_apply`: only the table owner opens a voting. -/
def applyGameStartPlayingCheckV1 (d : Database) (op : GameStartPlayingCheck) :
    Except ChainError Database := do
  let t ← d.tableById op.table
  applyVoteV1 d (← isTableOwner d t op.voter) (.start op)

/-- `game_result_check_evaluator_impl_v1::do_evaluate` -/
def evaluateGameResultCheckV1 (d : Database) (op : GameResultCheck) : Except ChainError Unit := do
  fcAssert (isTableExists d op.table = true) "Table does not exist"
  let t ← d.tableById op.table
  fcAssert ((← isTableOwner d t op.tableOwner) = true) "Wrong table owner"
  fcAssert (t.isFree = false) "Wrong type of voting. There is no game on table"
  fcAssert (isTableVotingForPlaying d op.table = false) "Wrong type of voting"
  checkVoter d op.table t op.voter
  fcAssert ((← validateGameResult d t op.result) = true) "Invalid result"

/-- `game_result_check_evaluator_impl_v1::do_apply` -/
def applyGameResultCheckV1 (d : Database) (op : GameResultCheck) : Except ChainError Database := do
  let t ← d.tableById op.table
  let opens ← isGameWitness d t op.voter <||> isTableOwner d t op.voter
  applyVoteV1 d opens (.result op)

end Obsolete

end Playchain
