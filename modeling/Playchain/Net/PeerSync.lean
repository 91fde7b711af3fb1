import Playchain.Blocks.Synopsis
import Playchain.Protocol.Types

/-!
# Fetching the ids of blocks from a peer

How a node learns which blocks a peer has (`node_impl`): it sends the peer a synopsis, the peer answers with ids, and this is
repeated until the peer has no more of them. The ids wait in `ids_of_items_to_get` until their blocks are fetched.

One connection is modelled, in the phase in which ids are fetched: no block is fetched from the peer or from another one in
the meantime. An answer that is not expected is ignored, and one that is not a possible answer to the request ends the
connection. So does a request that cannot be made because the last block that the peer is known to have is on an old fork.
-/

namespace Playchain

/-- `GRAPHENE_MIN_BLOCK_INTERVAL` -/
def minBlockInterval : ℕ := 1

/-- `GRAPHENE_NET_FUTURE_SYNC_BLOCKS_GRACE_PERIOD_SEC` -/
def futureSyncBlocksGracePeriodSec : ℕ := 60 * 60

/-- `GRAPHENE_NET_MIN_BLOCK_IDS_TO_PREFETCH` -/
def minBlockIdsToPrefetch : ℕ := 10000

/-- `peer_connection`, as far as ids are fetched. -/
structure PeerConnection (ι : Type) where
  idsOfItemsToGet : List ι := []
  numberOfUnfetchedItemIds : ℕ := 0
  weNeedSyncItemsFromPeer : Bool := true
  lastBlockDelegateHasSeen : ι
  lastBlockTimeDelegateHasSeen : TimePointSec
  /-- The synopsis of a request that is not answered yet. -/
  itemIdsRequestedFromPeer : Option (List ι) := none
  deriving DecidableEq

/-- Why a peer is disconnected. -/
inductive SyncDisconnect where
  /-- The list of blocks is not sequential. -/
  | notSequential
  /-- Blocks from the beginning of the chain were asked for. -/
  | notFromBeginning
  /-- The list does not start with a block of the synopsis. -/
  | notInSynopsis
  /-- More sync blocks are offered than could possibly exist. -/
  | tooManyBlocks
  /-- You are on a fork I'm unable to switch to. -/
  | unableToSwitch
  deriving DecidableEq

/-- What is done after an answer. -/
inductive InventoryOutcome (ι : Type) where
  /-- The node did not ask for anything. -/
  | ignored
  | disconnected (reason : SyncDisconnect)
  /-- The peer has nothing that the node does not know. -/
  | upToDate (peer : PeerConnection ι)
  /-- `trigger_fetch_sync_items_loop` -/
  | fetchSyncItems (peer : PeerConnection ι)
  /-- `fetch_next_batch_of_item_ids_from_peer` -/
  | fetchNextBatch (peer : PeerConnection ι)
  deriving DecidableEq

/-- The connection goes on. -/
def InventoryOutcome.next? {ι : Type} : InventoryOutcome ι → Option (PeerConnection ι)
  | fetchSyncItems peer => some peer
  | fetchNextBatch peer => some peer
  | _ => none

section Sync

variable {σ β ι τ : Type} [DecidableEq ι] [Blocks β ι τ] [ChainRules σ β ι τ]

/-! ### The request -/

/-- What the loop of `create_blockchain_synopsis_for_peer` takes at a number from the ids that are known of the peer. -/
def knownItem (ids : List ι) (first low : ℕ) : Except SyncError (List ι) :=
  if first ≤ low then (ids[low - first]?).elim (.error .undefined) fun id ↦ .ok [id] else .ok []

/-- The loop of `create_blockchain_synopsis_for_peer`. -/
def appendLoop (ids : List ι) (first trueHigh : ℕ) : ℕ → ℕ → Except SyncError (List ι)
  | 0, _ => .error .undefined
  | fuel + 1, low => do
    let items ← knownItem ids first low
    if nextLowBlockNum trueHigh low ≤ trueHigh then
      let rest ← appendLoop ids first trueHigh fuel (nextLowBlockNum trueHigh low)
      return items ++ rest
    else return items

namespace PeerConnection

/-- `start_synchronizing_with_peer` -/
def start (β : Type) [Blocks β ι τ] (genesisTime : TimePointSec) : PeerConnection ι :=
  { lastBlockDelegateHasSeen := Blocks.noBlock β, lastBlockTimeDelegateHasSeen := genesisTime }

/-- `create_blockchain_synopsis_for_peer` -/
def createBlockchainSynopsis (n : Node σ β ι τ) (peer : PeerConnection ι) : Except SyncError (List ι) := do
  let synopsis ← n.getBlockchainSynopsis peer.lastBlockDelegateHasSeen (peer.idsOfItemsToGet.length % 2 ^ 32)
  match peer.idsOfItemsToGet with
  | [] => return synopsis
  | firstId :: _ =>
    let first := Blocks.numFromId β firstId
    let trueHigh := (first + peer.idsOfItemsToGet.length - 1) % 2 ^ 32
    let low := (synopsis.head?.map (Blocks.numFromId β)).getD 1
    let more ← appendLoop peer.idsOfItemsToGet first trueHigh (trueHigh + 1) low
    return synopsis ++ more

/-! ### The answer -/

/-- The numbers of the ids go up by one. -/
def isSequential (β : Type) [Blocks β ι τ] : ℕ → List ι → Bool
  | _, [] => true
  | expected, id :: ids => Blocks.numFromId β id = expected % 2 ^ 32 && isSequential β (expected + 1) ids

/-- What is wrong with an answer, if anything is. -/
def checkAnswer (β : Type) [Blocks β ι τ] (synopsis hashes : List ι) : Option SyncDisconnect :=
  match hashes with
  | [] => none
  | first :: rest =>
    if isSequential β (Blocks.numFromId β first + 1) rest = false then some .notSequential
    else if synopsis = [] then
      if Blocks.numFromId β first ≠ 1 then some .notFromBeginning else none
    else if first ∉ synopsis then some .notInSynopsis
    else none

/-- The ids at the front that the node has blocks for. -/
def popSeen (n : Node σ β ι τ) (blockTime : ι → TimePointSec) :
    List ι → PeerConnection ι → List ι × PeerConnection ι
  | [], peer => ([], peer)
  | id :: hashes, peer =>
    if n.isKnownBlock id then
      popSeen n blockTime hashes
        { peer with lastBlockDelegateHasSeen := id, lastBlockTimeDelegateHasSeen := blockTime id }
    else (id :: hashes, peer)

/-- The existing list is cut back to the first id of the new one. -/
def joinLists (blockTime : ι → TimePointSec) (first : ι) (hashes : List ι) (peer : PeerConnection ι) :
    List ι × PeerConnection ι :=
  match (peer.idsOfItemsToGet.reverse.dropWhile (· ≠ first)).reverse with
  | [] =>
    (hashes.tail, { peer with
      idsOfItemsToGet := []
      lastBlockDelegateHasSeen := first
      lastBlockTimeDelegateHasSeen := blockTime first })
  | id :: ids => (hashes, { peer with idsOfItemsToGet := (id :: ids).dropLast })

/-- The ids that are new, and the connection they are appended to. -/
def takeNew (n : Node σ β ι τ) (blockTime : ι → TimePointSec) (hashes : List ι) (peer : PeerConnection ι) :
    List ι × PeerConnection ι :=
  match hashes with
  | [] => ([], peer)
  | first :: _ =>
    if peer.idsOfItemsToGet = [] then popSeen n blockTime hashes peer else joinLists blockTime first hashes peer

/-- `on_blockchain_item_ids_inventory_message` -/
def onInventory (n : Node σ β ι τ) (blockTime : ι → TimePointSec) (now : TimePointSec) (hashes : List ι)
    (remaining : ℕ) (peer : PeerConnection ι) : InventoryOutcome ι :=
  match peer.itemIdsRequestedFromPeer with
  | none => .ignored
  | some synopsis =>
    match checkAnswer β synopsis hashes with
    | some reason => .disconnected reason
    | none =>
      let peer := { peer with itemIdsRequestedFromPeer := none }
      if remaining = 0 ∧ (hashes = [] ∨ (hashes.length = 1 ∧ hashes.all n.isKnownBlock = true)) ∧
          peer.idsOfItemsToGet = [] ∧ peer.numberOfUnfetchedItemIds = 0 then
        .upToDate { peer with weNeedSyncItemsFromPeer := false }
      else
        let (new, peer) := takeNew n blockTime hashes { peer with numberOfUnfetchedItemIds := remaining }
        if TimePointSec.addSeconds now futureSyncBlocksGracePeriodSec <
            TimePointSec.addSeconds peer.lastBlockTimeDelegateHasSeen
              (peer.numberOfUnfetchedItemIds * minBlockInterval % 2 ^ 32) then
          .disconnected .tooManyBlocks
        else
          let peer := { peer with idsOfItemsToGet := peer.idsOfItemsToGet ++ new }
          if remaining ≠ 0 then
            if minBlockIdsToPrefetch < peer.idsOfItemsToGet.length then .fetchSyncItems peer else .fetchNextBatch peer
          else if peer.idsOfItemsToGet ≠ [] then .fetchSyncItems peer
          else .fetchNextBatch peer

end PeerConnection

/-! ### A round -/

/-- `on_fetch_blockchain_item_ids_message`: a node that cannot answer answers with an empty list. -/
def Node.answer (m : Node σ β ι τ) (synopsis : List ι) (limit : ℕ) : Except SyncError (List ι × ℕ) :=
  match m.getBlockIds synopsis limit with
  | .error e => if e = .unreachableFork then .ok ([], 0) else .error e
  | .ok result => .ok result

/-- `fetch_next_batch_of_item_ids_from_peer`: the synopsis that is sent, or why the peer is disconnected. Only
`block_older_than_undo_history` is caught. -/
def PeerConnection.fetchNextBatch (n : Node σ β ι τ) (peer : PeerConnection ι) :
    Except SyncError (Except SyncDisconnect (List ι)) :=
  match peer.createBlockchainSynopsis n with
  | .error e => if e = .tooOld then .ok (.error .unableToSwitch) else .error e
  | .ok synopsis => .ok (.ok synopsis)

/-- A request, the answer of the peer, and what is done with it. -/
def syncRound (n m : Node σ β ι τ) (blockTime : ι → TimePointSec) (now : TimePointSec) (limit : ℕ)
    (peer : PeerConnection ι) : Except SyncError (InventoryOutcome ι) := do
  match ← peer.fetchNextBatch n with
  | .error reason => return .disconnected reason
  | .ok synopsis =>
    let (hashes, remaining) ← m.answer synopsis limit
    return { peer with itemIdsRequestedFromPeer := some synopsis }.onInventory n blockTime now hashes remaining

/-- The connection after a number of rounds. -/
inductive Syncing (n m : Node σ β ι τ) (blockTime : ι → TimePointSec) (limit : ℕ) : ℕ → PeerConnection ι → Prop
  | start : Syncing n m blockTime limit 0 (.start β (blockTime (Blocks.noBlock β)))
  | round {k : ℕ} {peer peer' : PeerConnection ι} {now : TimePointSec} {outcome : InventoryOutcome ι}
      (h : Syncing n m blockTime limit k peer) (hround : syncRound n m blockTime now limit peer = .ok outcome)
      (hnext : outcome.next? = some peer') : Syncing n m blockTime limit (k + 1) peer'

end Sync

end Playchain
