import Playchain.Blocks.Node

/-!
# Synopses of a chain

What the chain tells the network layer when blocks are synchronised (`application_impl`). A node that asks for blocks sends
a **synopsis**: the ids of some of its blocks, the later ones closer together. The node that is asked finds the latest of them
that is on its own chain, and answers with the ids from there on.

Block numbers have 32 bits. An assertion of the source that is only compiled in debug builds is left out.
-/

namespace Playchain

/-- The exceptions of these functions. -/
inductive SyncError where
  /-- `key_not_found_exception` of the block log. -/
  | keyNotFound
  /-- `fetch_branch_from` fails. -/
  | branch
  /-- `block_older_than_undo_history` -/
  | tooOld
  /-- `peer_is_on_an_unreachable_fork` -/
  | unreachableFork
  /-- No exception of the source: an index is out of range, or the bound on the rounds of a loop is reached. -/
  | undefined
  deriving DecidableEq

/-- `low_block_num += (true_high_block_num - low_block_num + 2) / 2` -/
def nextLowBlockNum (trueHigh low : ℕ) : ℕ :=
  (low + (trueHigh + 2 ^ 32 - low + 2) % 2 ^ 32 / 2) % 2 ^ 32

section Node

variable {σ β ι τ : Type} [DecidableEq ι] [Blocks β ι τ] [ChainRules σ β ι τ]

namespace Node

/-- `last_non_undoable_block_num`: a pending session does not count. -/
def lastNonUndoableBlockNum (n : Node σ β ι τ) : ℕ :=
  (n.headNum + 2 ^ 32 - (n.undoStack.length - if n.pendingSession then 1 else 0) % 2 ^ 32) % 2 ^ 32

/-- `get_block_id_for_num` -/
def getBlockIdForNum (n : Node σ β ι τ) (num : ℕ) : Except SyncError ι :=
  match n.blockIds num with
  | none => .error .keyNotFound
  | some id => .ok id

/-- `is_known_block` -/
def isKnownBlock (n : Node σ β ι τ) (id : ι) : Bool :=
  (n.fork.fetchBlock id).isSome || (id ≠ Blocks.noBlock β && n.blockIds (Blocks.numFromId β id) = some id)

/-- `is_included_block` -/
def isIncludedBlock (n : Node σ β ι τ) (id : ι) : Except SyncError Bool := do
  let idInPreferredChain ← n.getBlockIdForNum (Blocks.numFromId β id)
  return id = idInPreferredChain

/-- `get_block_ids_on_fork`: the ids of a branch, the latest one first, and at the end the common block. -/
def getBlockIdsOnFork (n : Node σ β ι τ) (headOfFork : ι) : Except SyncError (List ι × ι) :=
  match n.fork.fetchBranchFrom n.headId headOfFork with
  | none => .error .branch
  | some (first, second) => .ok (second.map ForkItem.id, branchRoot first)

/-! ### The synopsis -/

/-- The loop of `get_blockchain_synopsis`, from `low_block_num` on. The block number goes up in each round, which bounds the
fuel. -/
def synopsisLoop (pick : ℕ → Except SyncError ι) (high trueHigh : ℕ) : ℕ → ℕ → Except SyncError (List ι)
  | 0, _ => .error .undefined
  | fuel + 1, low => do
    let id ← pick low
    if nextLowBlockNum trueHigh low ≤ high then
      let ids ← synopsisLoop pick high trueHigh fuel (nextLowBlockNum trueHigh low)
      return id :: ids
    else return [id]

/-- The last part of `get_blockchain_synopsis`: ids up to `nonForkHigh` are those of the preferred chain, the later ones are in
`forkHistory`. -/
def synopsisBetween (n : Node σ β ι τ) (low nonForkHigh high : ℕ) (forkHistory : List ι) (after : ℕ) :
    Except SyncError (List ι) :=
  let pick (num : ℕ) : Except SyncError ι :=
    if num ≤ nonForkHigh then n.getBlockIdForNum num
    else (forkHistory[num - nonForkHigh - 1]?).elim (.error .undefined) .ok
  synopsisLoop pick high ((high + after) % 2 ^ 32) (high + 1) (if low = 0 then 1 else low)

/-- `get_blockchain_synopsis`: the chain up to a block, or the whole chain if no block is given. -/
def getBlockchainSynopsis (n : Node σ β ι τ) (referencePoint : ι) (numberOfBlocksAfter : ℕ) :
    Except SyncError (List ι) :=
  if referencePoint ≠ Blocks.noBlock β then do
    if ← n.isIncludedBlock referencePoint then
      let high := Blocks.numFromId β referencePoint
      n.synopsisBetween (min high n.lastNonUndoableBlockNum) high high [] numberOfBlocksAfter
    else
      let (ids, lastNonForkBlock) ← n.getBlockIdsOnFork referencePoint
      let nonForkHigh := Blocks.numFromId β lastNonForkBlock
      if nonForkHigh < n.lastNonUndoableBlockNum then .error .tooOld
      else
        n.synopsisBetween n.lastNonUndoableBlockNum nonForkHigh (nonForkHigh + ids.length) ids.reverse
          numberOfBlocksAfter
  else if n.headNum = 0 then return []
  else n.synopsisBetween n.lastNonUndoableBlockNum n.headNum n.headNum [] numberOfBlocksAfter

/-! ### The answer -/

/-- The loop of `get_block_ids` over the ids of a synopsis, the latest one first. -/
def lastKnownBlockId (n : Node σ β ι τ) : List ι → Except SyncError ι
  | [] => .error .unreachableFork
  | id :: ids =>
    if id = Blocks.noBlock β then return id
    else if n.isKnownBlock id then do
      if ← n.isIncludedBlock id then return id
      else n.lastKnownBlockId ids
    else n.lastKnownBlockId ids

/-- The loop of `get_block_ids` over numbers; the first argument counts those that are left. -/
def collectBlockIds (n : Node σ β ι τ) : ℕ → ℕ → ℕ → Except SyncError (List ι)
  | 0, _, _ => return []
  | left + 1, num, limit =>
    if limit = 0 then return []
    else if num = 0 then n.collectBlockIds left 1 limit
    else do
      let id ← n.getBlockIdForNum num
      let ids ← n.collectBlockIds left (num + 1) (limit - 1)
      return id :: ids

/-- The block that an answer starts with; an empty synopsis comes from a peer that has no blocks. -/
def answerStart (n : Node σ β ι τ) (blockchainSynopsis : List ι) : Except SyncError ι :=
  if blockchainSynopsis = [] ∨ blockchainSynopsis = [Blocks.noBlock β] then .ok (Blocks.noBlock β)
  else n.lastKnownBlockId blockchainSynopsis.reverse

/-- `get_block_ids`: ids, and how many more follow them. -/
def getBlockIds (n : Node σ β ι τ) (blockchainSynopsis : List ι) (limit : ℕ) : Except SyncError (List ι × ℕ) :=
  if n.headNum = 0 then return ([], 0)
  else do
    let lastKnown ← n.answerStart blockchainSynopsis
    let num := Blocks.numFromId β lastKnown
    let result ← n.collectBlockIds (n.headNum + 1 - num) num limit
    let last := (result.getLast?.map (Blocks.numFromId β)).getD n.headNum
    return (result, n.headNum - last)

end Node

end Node

end Playchain
