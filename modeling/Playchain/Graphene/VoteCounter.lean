import Playchain.Protocol.Types
import Playchain.Lib.FlatMap

/-!
# Authorities made from votes

`vote_counter`, which makes an authority of accounts from their votes, and the three places that feed it: the active
witnesses, the members of the two committees, and the top holders of an asset. The assertions of the source are left out,
as they are in a release build.
-/

namespace Playchain

/-- `authority`. Nothing is asked of the weights. -/
structure VotedAuthority (κ δ : Type) [LinearOrder κ] [LinearOrder δ] where
  weightThreshold : UInt32 := 0
  accountAuths : FlatMap AccountId UInt16 := ∅
  keyAuths : FlatMap κ UInt16 := ∅
  addressAuths : FlatMap δ UInt16 := ∅

/-- `vote_counter` -/
structure VoteCounter (κ δ : Type) [LinearOrder κ] [LinearOrder δ] where
  lastVotes : UInt64 := 18446744073709551615
  totalVotes : UInt64 := 0
  bitshift : ℤ := -1
  auth : VotedAuthority κ δ := {}

namespace VoteCounter

variable {κ δ : Type} [LinearOrder κ] [LinearOrder δ]

/-- `vote_counter::add`, for an account. The first votes decide how far all votes are shifted. -/
def add (c : VoteCounter κ δ) (who : AccountId) (votes : UInt64) : VoteCounter κ δ :=
  if votes = 0 then c
  else
    let bitshift := if c.bitshift = -1 then max ((votes.toNat.log2 : ℤ) - 15) 0 else c.bitshift
    let scaledVotes := max (votes >>> UInt64.ofNat bitshift.toNat) 1
    { lastVotes := votes
      totalVotes := c.totalVotes + scaledVotes
      bitshift := bitshift
      auth := { c.auth with accountAuths := c.auth.accountAuths.insert who scaledVotes.toUInt16 } }

/-- `vote_counter::finish` -/
def finish (c : VoteCounter κ δ) (outAuth : VotedAuthority κ δ) : VotedAuthority κ δ :=
  if c.totalVotes = 0 then outAuth
  else { c.auth with weightThreshold := (c.totalVotes.toUInt32 >>> 1) + 1 }

/-- Votes are added one after the other. -/
def addAll (c : VoteCounter κ δ) (votes : List (AccountId × UInt64)) : VoteCounter κ δ :=
  votes.foldl (fun c v ↦ c.add v.1 v.2) c

/-- What all callers do: an authority is made of the votes, and replaces another one. -/
def count (votes : List (AccountId × UInt64)) (outAuth : VotedAuthority κ δ) : VotedAuthority κ δ :=
  (addAll {} votes).finish outAuth

end VoteCounter

/-! ### Whose votes are counted -/

/-- The order of `sort_votable_objects`: more votes come first, and among equals the least vote. Votes are compared as
signed numbers. -/
def votedBefore {α : Type} (voteTally : ℕ → UInt64) (voteId : α → ℕ) (a b : α) : Bool :=
  let votes : α → ℤ := fun a ↦ (voteTally (voteId a)).toInt64.toInt
  votes b < votes a ∨ votes a = votes b ∧ voteId a ≤ voteId b

/-- `sort_votable_objects` -/
def sortVotableObjects {α : Type} (voteTally : ℕ → UInt64) (voteId : α → ℕ) (allObjects : List α) (count : ℕ) :
    List α :=
  (allObjects.mergeSort (votedBefore voteTally voteId)).take (min count allObjects.length)

/-- The loop that finds out how many members the voters want: half of them, by the stake behind each number. -/
def wantedCount (stakeTarget : ℕ) : List UInt64 → ℕ → ℕ
  | [], _ => 0
  | stake :: histogram, stakeTally =>
    if stakeTally ≤ stakeTarget then 1 + wantedCount stakeTarget histogram (stakeTally + stake.toNat) else 0

/-- How many witnesses or committee members there shall be. -/
def memberCount (totalVotingStake : UInt64) (histogram : List UInt64) (minCount : UInt16) : ℕ :=
  let stakeTarget := (totalVotingStake - histogram.headD 0).toNat / 2
  let count := if 0 < stakeTarget then wantedCount stakeTarget histogram.tail 0 else 0
  max (count * 2 + 1) minCount.toNat

/-- The authority of the active witnesses or committee members. -/
def votedAuthority {α κ δ : Type} [LinearOrder κ] [LinearOrder δ] (voteTally : ℕ → UInt64) (voteId : α → ℕ)
    (account : α → AccountId) (allObjects : List α) (count : ℕ) (active : VotedAuthority κ δ) : VotedAuthority κ δ :=
  VoteCounter.count
    ((sortVotableObjects voteTally voteId allObjects count).map fun a ↦ (account a, voteTally (voteId a))) active

/-- The loop of `update_top_n_authorities` over the balances of an asset, in the order of `by_asset_balance`. The number
of holders that are still needed is not zero. -/
def topHolders (acct : AccountId) : ℕ → List (AccountId × UInt64) → List (AccountId × UInt64)
  | _, [] => []
  | numNeeded, bal :: balances =>
    if bal.1 = acct then topHolders acct numNeeded balances
    else if numNeeded - 1 = 0 then [bal]
    else bal :: topHolders acct (numNeeded - 1) balances

/-- The authority of the top holders of an asset. -/
def topHoldersAuthority {κ δ : Type} [LinearOrder κ] [LinearOrder δ] (acct : AccountId) (numTopHolders : UInt8)
    (balances : List (AccountId × UInt64)) (authority : VotedAuthority κ δ) : VotedAuthority κ δ :=
  if numTopHolders = 0 then authority
  else VoteCounter.count (topHolders acct numTopHolders.toNat balances) authority

end Playchain
