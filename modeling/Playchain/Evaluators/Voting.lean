import Playchain.Evaluators.BuyInBuyOut

/-!
# Votes and their tally

Room owner, players and game witnesses vote on the start and on the result of a game. A vote that
arrives before anyone entitled to open a voting has done so waits as a `PendingTableVoteObject`; the
opening vote fixes the required voters and drains the waiting votes. When the required voters have
voted, the tally is scheduled for the next block.

This module has the admission of votes (`checkIncomingVote`, `checkPendingVote`), their collection
(`tryVoting`) and the tally itself (`votingImpl`, `voting`).
-/

namespace Playchain

/-! ### Validity of a vote's content -/

/-- The cash of a start proposal by player; `none` if an amount is not positive, an account is not
a player's or a player does not wait at the table. -/
def initialCash (d : Database) (t : TableObject) (data : GameInitialData) :
    Option (FlatMap PlayerId Asset) :=
  data.cash.toList.foldlM (fun cash p ↦
    if p.2.amount ≤ 0 then none
    else do
      let player ← d.players.findKey? p.1
      if t.cash.contains player.1 then some (cash.insert player.1 p.2) else none) ∅

/-- Whether the players of a proposal are the players of the voting's etalon vote, if it has one. -/
def matchesEtalon (d : Database) (table : TableId) (cashInitial : FlatMap PlayerId Asset) :
    Except ChainError Bool :=
  match (d.tableVotings.findKey? table).bind fun v ↦ v.2.etalonVote with
  | some (.gameInitialData etalon) =>
    if cashInitial.size ≠ etalon.cash.size then return false
    else do
      let etalonCash ← etalon.cash.toList.foldlM (fun (cash : FlatMap PlayerId Asset) p ↦ do
        return cash.insert (← d.getPlayer p.1).1 p.2) ∅
      return etalonCash.toList.all fun p ↦ cashInitial.contains p.1
  | _ => return true

/-- `validate_ivariants` for the start of a game -/
def validateInitialData (d : Database) (table : TableId) (t : TableObject)
    (data : GameInitialData) : Except ChainError Bool :=
  if data.cash.isEmpty then return d.headBlockTime < hardforkPlaychain6Time
  else
    match initialCash d t data with
    | none => return false
    | some cashInitial => do
      let matched := t.cash.toList.filter fun p ↦ cashInitial.contains p.1
      -- a proposal may not use more than what waits at the table
      let enough ← matched.allM fun p ↦ do
        return !(← p.2.lt ((cashInitial.find? p.1).getD {}))
      if !enough then return false
      else if hardforkPlaychain1Time ≤ d.headBlockTime then
        matchesEtalon d table cashInitial
      else return true

/-- The cash of a result by player; `none` if an amount is negative or an account is not a
player's. -/
def resultCash (d : Database) (result : GameResult) : Option (FlatMap PlayerId Asset) :=
  result.cash.toList.foldlM (fun cash p ↦
    if p.2.cash.amount < 0 ∨ p.2.rake.amount < 0 then none
    else do
      let player ← d.players.findKey? p.1
      some (cash.insert player.1 p.2.cash)) ∅

/-- `validate_ivariants` for the result of a game: its players are in the game, and cash and rake
add up to what they brought. -/
def validateGameResult (d : Database) (t : TableObject) (result : GameResult) :
    Except ChainError Bool :=
  if result.cash.isEmpty then return true
  else
    match resultCash d result with
    | none => return false
    | some cashResult => do
      let matched := t.playingCash.toList.filter fun p ↦ cashResult.contains p.1
      if matched.length ≠ cashResult.size then return false
      else
        let (inBalance, outBalance) ← matched.foldlM (fun (s : Asset × Asset) p ↦ do
          let inBalance ← s.1.add p.2
          let account := (← d.playerById p.1).account
          let player ← orMissing (result.cash.find? account)
          let outBalance ← s.2.add player.cash
          let outBalance ← outBalance.add player.rake
          return (inBalance, outBalance)) ({}, {})
        return inBalance = outBalance

/-- `validate_ivariants` -/
def validateInvariants (d : Database) (table : TableId) (t : TableObject) :
    VotingData → Except ChainError Bool
  | .gameInitialData data => validateInitialData d table t data
  | .gameResult result => validateGameResult d t result

/-! ### Admission -/

/-- `check_incoming_vote` -/
def checkIncomingVote (d : Database) (table : TableId) (t : TableObject) (op : VoteOperation) :
    Except ChainError Unit := do
  match d.tableVotings.findKey? table with
  | some v => fcAssert (v.2.votes.contains op.voter = false) "Voter has already voted"
  | none =>
    fcAssert (d.pendingTableVotes.findKey? (table, op.voter) = none) "Voter has already voted"
  let entitled ← isGameWitness d t op.voter <||> isTableOwner d t op.voter <||> isValidVoter d t op
  fcAssert (entitled = true) "Invalid voter"
  fcAssert ((← validateInvariants d table t op.data) = true) "Invalid vote data"

/-- `check_pending_vote` -/
def checkPendingVote (d : Database) (table : TableId) (t : TableObject) (v : TableVotingObject)
    (op : VoteOperation) : Except ChainError Unit := do
  let entitled ← pure (v.requiredPlayerVoters.contains op.voter) <||>
    isGameWitness d t op.voter <||> isTableOwner d t op.voter
  fcAssert (entitled = true) "Invalid voter"
  fcAssert ((← validateInvariants d table t op.data) = true) "Invalid vote data"

/-! ### Collection -/

/-- `calculate_witnesses_allowed_for_substitution` -/
def calculateWitnessesAllowedForSubstitution (requiredVoters percent : ℕ) : ℕ :=
  requiredVoters * percent / hundredPercent

/-- `set_required_voters`, with the history variable of the opening. -/
def setRequiredVoters (d : Database) (t : TableObject) (v : TableVotingObject) (voter : AccountId)
    (pvWitnessSubstitution : PercentType) :
    VotingData → Except ChainError TableVotingObject
  | .gameInitialData data => do
    let owner ← d.tableOwner t
    if d.headBlockTime < hardforkPlaychain11Time ∧ voter ≠ owner then return v
    else
      let players := FlatSet.ofList (data.cash.toList.map Prod.fst)
      let required :=
        if hardforkPlaychain11Time ≤ d.headBlockTime then players.add owner else players
      return { v with
        requiredPlayerVoters := required
        etalonVote :=
          if d.headBlockTime < hardforkPlaychain11Time then some (.gameInitialData data)
          else v.etalonVote
        witnessesAllowedForSubstitution :=
          calculateWitnessesAllowedForSubstitution required.size pvWitnessSubstitution
        openingVoters := required }
  | .gameResult _ => do
    let accounts ← t.playingCash.toList.mapM fun p ↦ do
      return (← d.playerById p.1).account
    let required := FlatSet.ofList accounts
    return { v with
      requiredPlayerVoters := required
      witnessesAllowedForSubstitution :=
        calculateWitnessesAllowedForSubstitution required.size pvWitnessSubstitution
      openingVoters := required }

/-- Strike a voter off the required ones, or note a witness. -/
def markVoter (d : Database) (t : TableObject) (v : TableVotingObject) (voter : AccountId)
    (data : VotingData) : Except ChainError TableVotingObject := do
  if v.requiredPlayerVoters.contains voter then
    return { v with requiredPlayerVoters := v.requiredPlayerVoters.erase voter }
  else
    match ← getWitnessIfExist d t voter with
    | none => return v
    | some witness =>
      return { v with
        votedWitnesses := v.votedWitnesses.add witness
        requiredWitnessVoters :=
          if data.isInitialData then v.requiredWitnessVoters.add witness
          else v.requiredWitnessVoters.erase witness }

/-- `set_voter` -/
def setVoter (d : Database) (t : TableObject) (v : TableVotingObject) (voter : AccountId)
    (data : VotingData) : Except ChainError TableVotingObject := do
  let v ← markVoter d t v voter data
  return { v with votes := v.votes.insert voter data, castVoters := v.castVoters.add voter }

/-- `is_required_players_with_substitution_of_witnesses` -/
def isRequiredPlayersWithSubstitutionOfWitnesses (v : TableVotingObject) : Bool :=
  !v.votedWitnesses.isEmpty &&
    (v.witnessesAllowedForSubstitution ≤ v.votedWitnesses.size &&
      v.requiredPlayerVoters.size ≤ v.witnessesAllowedForSubstitution)

/-- `is_the_required_number_of_voters` -/
def isTheRequiredNumberOfVoters (t : TableObject) (v : TableVotingObject) (data : VotingData) :
    Bool :=
  if data.isInitialData then
    if v.votedWitnesses.size < t.requiredWitnesses then false
    else v.requiredPlayerVoters.isEmpty || isRequiredPlayersWithSubstitutionOfWitnesses v
  else
    if !v.requiredWitnessVoters.isEmpty then false
    else v.requiredPlayerVoters.isEmpty || isRequiredPlayersWithSubstitutionOfWitnesses v

/-- `collect_votes_impl`: the flag is left as it was by a vote that opens the voting. -/
def collectVotes (d : Database) (table : TableId) (voter : AccountId) (data : VotingData)
    (votingSeconds : ℕ) (pvWitnessSubstitution : PercentType)
    (requiredWitnesses : FlatSet GameWitnessId) (votersCollected : Bool) :
    Except ChainError (Database × Bool) := do
  let t ← d.tableById table
  match d.tableVotings.findKey? table with
  | none =>
    let v : TableVotingObject :=
      { table := table
        created := d.headBlockTime
        expiration := TimePointSec.addSeconds d.headBlockTime votingSeconds
        scheduledVoting := TimePointSec.maximum
        requiredWitnessVoters := requiredWitnesses }
    let v ← setRequiredVoters d t v voter pvWitnessSubstitution data
    let v ← setVoter d t v voter data
    let votings ← orViolation (d.tableVotings.create? v)
    return ({ d with tableVotings := votings }, votersCollected)
  | some v =>
    let v' ← setVoter d t v.2 voter data
    -- the table of a voting is its key and stays
    let votings := d.tableVotings.modify v.1 fun w ↦ { v' with table := w.table }
    return ({ d with tableVotings := votings }, isTheRequiredNumberOfVoters t v' data)

/-- `push_fail_vote_operation` for a vote operation -/
def pushFailVoteOperation (d : Database) (op : VoteOperation) : Database :=
  d.pushAppliedOperation (.gameEvent op.table op.tableOwner (.failVote op.voter op.data))

/-- The waiting votes a new voting drains: those of its table, and before the eleventh hard fork all
of them in the order of the index by table. -/
def pendingVotesToDrain (d : Database) (table : TableId) : List (ℕ × PendingTableVoteObject) :=
  if d.headBlockTime < hardforkPlaychain11Time then
    d.pendingTableVotes.orderedBy fun a b ↦ a.2.table < b.2.table ∨
      (a.2.table = b.2.table ∧ a.1 ≤ b.1)
  else d.pendingTableVotes.toList.filter fun v ↦ v.2.table = table

/-- Check a waiting vote and collect it. -/
def attemptPendingVote (table : TableId) (votingSeconds : ℕ) (pvWitnessSubstitution : PercentType)
    (requiredWitnesses : FlatSet GameWitnessId) (s : Database × Bool) (op : VoteOperation) :
    Except ChainError (Database × Bool) := do
  let t ← s.1.tableById table
  let v ← orMissing (s.1.tableVotings.findKey? table)
  checkPendingVote s.1 table t v.2 op
  collectVotes s.1 table op.voter op.data votingSeconds pvWitnessSubstitution requiredWitnesses s.2

/-- One turn of the loop over the waiting votes: a vote of another kind or a vote that is no longer
admissible (a failed assertion is caught) is reported as failed; either way it is removed. -/
def drainPendingVote (table : TableId) (isStart : Bool) (votingSeconds : ℕ)
    (pvWitnessSubstitution : PercentType) (requiredWitnesses : FlatSet GameWitnessId)
    (s : Database × Bool) (p : ℕ × PendingTableVoteObject) :
    Except ChainError (Database × Bool) := do
  let s ← (
    if p.2.vote.isStart ≠ isStart then pure (pushFailVoteOperation s.1 p.2.vote, s.2)
    else
      match attemptPendingVote table votingSeconds pvWitnessSubstitution requiredWitnesses s
          p.2.vote with
      | .ok s' => pure s'
      | .error (.assertion _) => pure (pushFailVoteOperation s.1 p.2.vote, s.2)
      | .error e => .error e)
  return ({ s.1 with pendingTableVotes := s.1.pendingTableVotes.remove p.1 }, s.2)

/-- Schedule the tally of a voting for the next block, and keep it from expiring before. -/
def scheduleVoting (d : Database) (table : TableId) : Except ChainError Database := do
  let v ← orMissing (d.tableVotings.findKey? table)
  if v.2.scheduledVoting = TimePointSec.maximum then
    return { d with tableVotings := d.tableVotings.modify v.1 fun v ↦
      let scheduled := TimePointSec.addSeconds d.headBlockTime d.blockInterval
      { v with
        scheduledVoting := scheduled
        expiration :=
          if v.expiration ≤ scheduled then TimePointSec.addSeconds scheduled d.blockInterval
          else v.expiration } }
  else return d

/-- `try_voting` -/
def tryVoting (d : Database) (requiredWitnesses : FlatSet GameWitnessId) (votingSeconds : ℕ)
    (pvWitnessSubstitution : PercentType) (op : VoteOperation) : Except ChainError Database := do
  let t ← d.tableById op.table
  let opens ← pure (isTableVoting d op.table) <||>
    isGameWitness d t op.voter <||> isTableOwner d t op.voter
  if !opens then
    let votes ← orViolation (d.pendingTableVotes.create?
      { table := op.table, voter := op.voter, vote := op })
    return { d with pendingTableVotes := votes }
  else
    let s ← collectVotes d op.table op.voter op.data votingSeconds pvWitnessSubstitution
      requiredWitnesses false
    let s ← (pendingVotesToDrain s.1 op.table).foldlM
      (drainPendingVote op.table op.isStart votingSeconds pvWitnessSubstitution
        requiredWitnesses) s
    let d ← (if s.2 then scheduleVoting s.1 op.table else pure s.1)
    aliveForTable d op.table

/-! ### The tally -/

/-- `boost::merge` of the voters of a content with the votes collected so far, through an inserter into
the latter. An insertion invalidates the iterators that the merge still reads: with elements in both
ranges it has no defined outcome (`none`). -/
def mergeInto (collected voters : FlatMap AccountId VotingData) :
    Option (FlatMap AccountId VotingData) :=
  if collected.isEmpty then
    some (voters.toList.foldl (fun acc p ↦ acc.insert p.1 p.2) collected)
  else if voters.isEmpty then some collected
  else none

/-- The loop over the contents that are not accepted. -/
def mergeGroups : List (ℕ × FlatMap AccountId VotingData) → FlatMap AccountId VotingData →
    Option (FlatMap AccountId VotingData)
  | [], collected => some collected
  | group :: groups, collected => (mergeInto collected group.2).bind (mergeGroups groups)

section Tally

variable [GameDigest]

/-- The votes grouped by the digest of their content. -/
def votesByContent (votes : FlatMap AccountId VotingData) :
    FlatMap ℕ (FlatMap AccountId VotingData) :=
  votes.toList.foldl (fun groups p ↦
    let digest := GameDigest.digest p.2
    groups.insert digest (((groups.find? digest).getD ∅).insert p.1 p.2)) ∅

/-- The comparison of the tally: by number of voters, then by digest. -/
def contentLt (a b : ℕ × FlatMap AccountId VotingData) : Bool :=
  if a.2.size = b.2.size then a.1 < b.1 else a.2.size < b.2.size

/-- The largest element of a list of groups. -/
def maxContent : List (ℕ × FlatMap AccountId VotingData) →
    Option (ℕ × FlatMap AccountId VotingData)
  | [] => none
  | p :: l => some (l.foldl (fun best q ↦ if contentLt best q then q else best) p)

/-- `voting_impl`: the accepted content and, as far as they are defined, the votes for another content;
or `none` without a consensus. -/
def votingImpl (votes : FlatMap AccountId VotingData) (requied : PercentType) :
    Option (VotingData × Option (FlatMap AccountId VotingData)) := do
  let groups := votesByContent votes
  let best ← maxContent groups.toList
  let missVotesPercent := (groups.size - 1) * hundredPercent / votes.size
  if ((missVotesPercent % 2 ^ 16 : ℕ) : ℤ) ≤ (hundredPercent : ℤ) - requied ∧ best.1 ≠ 0 then
    let validVote ← best.2.toList.head?
    return (validVote.2, mergeGroups (groups.erase best.1).toList ∅)
  else none

/-- The outcome of a tally with consensus. -/
structure Consensus where
  validVote : VotingData
  requiredWitnesses : FlatSet GameWitnessId
  accountsWithInvalidVote : FlatMap AccountId VotingData

/-- The voted witnesses without those whose vote is not the accepted one. -/
def honestWitnesses (d : Database) (t : TableObject) (votedWitnesses : FlatSet GameWitnessId)
    (invalid : FlatMap AccountId VotingData) : Except ChainError (FlatSet GameWitnessId) :=
  invalid.toList.foldlM (fun s p ↦ do
    match ← getWitnessIfExist d t p.1 with
    | none => return s
    | some witness => return s.erase witness) votedWitnesses

/-- `voting`: tally the votes and remove the voting. -/
def voting (d : Database) (id : ℕ) (v : TableVotingObject) (t : TableObject)
    (votingRequiedPercent : PercentType) : Except ChainError (Database × Option Consensus) := do
  let removed := { d with tableVotings := d.tableVotings.remove id }
  match votingImpl v.votes votingRequiedPercent with
  | none => return (removed, none)
  | some (_, none) => .error .undefinedBehaviour
  | some (validVote, some invalid) =>
    let requiredWitnesses ← honestWitnesses d t v.votedWitnesses invalid
    return (removed, some ⟨validVote, requiredWitnesses, invalid⟩)

end Tally

end Playchain
