import Playchain.Chain

/-!
# Pushing blocks live and replaying them

A block as it acts on the object state: its transactions, the maintenance tasks if they are due, the
block tasks. Before the fifth hard fork the maintenance draws pseudo-random numbers, and the entropy for
them is taken from what the node at hand stores: a block, found in the fork database or in the block
log, the transactions in the deduplication index, and **a buffer on the stack that is not initialised**.
All of this is `LocalData` of the node, and not data of the chain.

Signatures, sizes and references of transactions are checked by a live node only, and these checks are
not modelled: a block that has been pushed passes them.
-/

namespace Playchain.Replay

/-! ### Hashes and blocks -/

/-- The bytes of `fc::ripemd160`. -/
abbrev BlockId := Vector UInt8 20

/-- `compact_signature` -/
abbrev Signature := Vector UInt8 65

/-- `fc::ripemd160::hash` -/
class Ripemd160 where
  hash : List UInt8 → BlockId

/-- `_hash[i]`: a word of four bytes, the lowest one first. -/
def BlockId.word (h : BlockId) (i : ℕ) : ℕ :=
  ((h.toList.drop (4 * i)).take 4).foldr (fun byte n ↦ byte.toNat + 2 ^ 8 * n) 0

/-- `num_from_id`: the first word of the id of a block is its number, the highest byte first. -/
def BlockId.num (h : BlockId) : ℕ := (h.toList.take 4).foldl (fun n byte ↦ 2 ^ 8 * n + byte.toNat) 0

/-- What a transaction does: its operations, with what the rest of the chain does for them. -/
inductive TransactionStep where
  | operation (op : Operation)
  | elsewhere (s : Surroundings)

/-- The step as an event of the chain. -/
def TransactionStep.event : TransactionStep → Event
  | operation op => .operation op
  | elsewhere s => .elsewhere s

/-- `signed_transaction` -/
structure SignedTransaction where
  /-- `id()` -/
  id : ℕ
  signatures : List Signature
  expiration : TimePointSec
  steps : List TransactionStep

/-- `signed_block`, with what the rest of the chain makes of it. -/
structure SignedBlock where
  /-- `id()` -/
  id : BlockId
  timestamp : TimePointSec
  transactions : List SignedTransaction := []
  /-- `last_irreversible_block_num` after the block. -/
  lastIrreversible : ℕ := 0
  /-- `maint_needed` -/
  maintenance : Bool := false
  /-- What the rest of the chain does before the tasks of the maintenance. -/
  beforeMaintenance : List Surroundings := []
  /-- What the rest of the chain does after the tasks of the maintenance. -/
  afterMaintenance : List Surroundings := []

/-! ### Entropy -/

/-- What only the node knows while it applies a block. -/
structure LocalData where
  /-- `_fork_db.fetch_block_by_number`: the blocks of all branches with a number. -/
  forkBlocks : ℕ → List BlockId := fun _ ↦ []
  /-- `_block_id_to_block.fetch_by_number` -/
  loggedBlock : ℕ → Option BlockId := fun _ ↦ none
  /-- What is on the stack in the place of the buffer of `get_database_entropy`. -/
  buff : Vector UInt8 6 := Vector.replicate 6 0

/-- `fetch_block_by_number` -/
def LocalData.fetchBlockByNumber (l : LocalData) (num : ℕ) : Option BlockId :=
  match l.forkBlocks num with
  | [id] => some id
  | _ => l.loggedBlock num

/-- The bytes of a hash that are not zero go to the buffer, one after the other; `ci` counts them. -/
def copyNonzero : List UInt8 → ℕ → Vector UInt8 6 → ℕ × Vector UInt8 6
  | [], ci, buff => (ci, buff)
  | byte :: bytes, ci, buff =>
    if byte = 0 then copyNonzero bytes ci buff
    else copyNonzero bytes (ci + 1) (buff.setIfInBounds ci byte)

/-- Each signature of a transaction changes one more byte of the buffer. -/
def mixSignatures : List Signature → ℕ → Vector UInt8 6 → ℕ × Vector UInt8 6
  | [], ci, buff => (ci, buff)
  | sig :: sigs, ci, buff =>
    let buff := buff.setIfInBounds ci (buff.getD ci 0 ^^^ sig.getD (ci % 65) 0 % 0xff)
    if 6 ≤ ci + 1 then (ci + 1, buff) else mixSignatures sigs (ci + 1) buff

/-- The transactions of the deduplication index fill the rest of the buffer. -/
def mixTransactions : List SignedTransaction → ℕ → Vector UInt8 6 → Vector UInt8 6
  | [], _, buff => buff
  | trx :: trxs, ci, buff =>
    if ci < 6 then
      let mixed := mixSignatures trx.signatures ci buff
      mixTransactions trxs mixed.1 mixed.2
    else buff

section Entropy

variable [Ripemd160]

/-- The hash that the entropy starts from: the id of the last irreversible block, of the head block if
there is none, or the hash of the chain's id. -/
def entropyHash (chainId : List UInt8) (l : LocalData) (b : SignedBlock) : BlockId :=
  let blockNum := if b.lastIrreversible < 1 then b.id.num else b.lastIrreversible
  (l.fetchBlockByNumber blockNum).getD (Ripemd160.hash chainId)

/-- `get_database_entropy` -/
def getDatabaseEntropy (chainId : List UInt8) (l : LocalData) (b : SignedBlock)
    (index : FlatMap ℕ SignedTransaction) : ℤ :=
  let (ci, buff) := copyNonzero ((entropyHash chainId l b).toList.take 6) 0 l.buff
  let buff := mixTransactions (index.toList.map Prod.snd) ci buff
  let h := Ripemd160.hash buff.toList
  toInt64 (h.word 0 * 2 ^ 32 + h.word 1)

end Entropy

/-! ### Blocks -/

/-- The state that a node has built from the chain. -/
structure ChainState where
  db : Database
  /-- `transaction_index`, in the order of `by_trx_id`. -/
  index : FlatMap ℕ SignedTransaction := ∅
  /-- The entropies drawn so far, a history that nothing reads. -/
  draws : List ℤ := []

/-- The rules before the fifth hard fork need entropy as soon as there is a room besides the special
one. -/
def DrawsEntropy (d : Database) : Prop :=
  d.headBlockTime < hardforkPlaychain5Time ∧ (roomsByLastUpdate d).length ≠ 1

instance (d : Database) : Decidable (DrawsEntropy d) := inferInstanceAs (Decidable (_ ∧ _))

section Apply

variable [GameDigest] [RatingFunctions] [Ripemd160]

/-- `_apply_transaction`. With `skip_transaction_dupe_check` a transaction is neither looked up in the
deduplication index nor stored there. -/
def applyTransaction (skip : Bool) (s : ChainState) (trx : SignedTransaction) :
    Except ChainError ChainState := do
  fcAssert (skip = true ∨ s.index.find? trx.id = none)
    "trx_idx.indices().get<by_trx_id>().find(trx.id()) == trx_idx.indices().get<by_trx_id>().end()"
  let index := if skip then s.index else s.index.insert trx.id trx
  let db ← trx.steps.foldlM (fun d step ↦ step.event.run d) s.db
  return { s with db := db, index := index }

/-- The rest of the chain acts. -/
def runElsewhere (elsewhere : List Surroundings) (s : ChainState) : Except ChainError ChainState := do
  let db ← elsewhere.foldlM (fun d s ↦ Event.run d (.elsewhere s)) s.db
  return { s with db := db }

/-- The block up to its maintenance. -/
def beginBlock (skip : Bool) (s : ChainState) (b : SignedBlock) : Except ChainError ChainState := do
  let s ← b.transactions.foldlM (applyTransaction skip) s
  let db ← Event.run s.db (.headBlock b.timestamp)
  runElsewhere b.beforeMaintenance { s with db := db }

/-- The ratings and weights of `process_maintain_tasks`. -/
def rateRooms (chainId : List UInt8) (l : LocalData) (b : SignedBlock) (s : ChainState) :
    Except ChainError ChainState := do
  let entropy := getDatabaseEntropy chainId l b s.index
  let db ← updateRoomRating s.db entropy
  let db ← updateTableWeight db
  return { s with db := db, draws := if DrawsEntropy s.db then s.draws ++ [entropy] else s.draws }

/-- `deposit_pending_fees`, the first of the maintenance tasks. -/
def depositFees (s : ChainState) : Except ChainError ChainState := do
  let db ← depositPendingFees s.db
  return { s with db := db }

/-- The maintenance of a block, if it is due. -/
def maintainBlock (chainId : List UInt8) (l : LocalData) (b : SignedBlock) (s : ChainState) :
    Except ChainError ChainState :=
  if b.maintenance then do
    let s ← depositFees s
    rateRooms chainId l b s
  else return s

/-- `clear_expired_transactions` -/
def clearExpiredTransactions (s : ChainState) : ChainState :=
  { s with index := s.index.filter fun _ trx ↦ !(trx.expiration < s.db.headBlockTime) }

/-- The block after its maintenance. -/
def endBlock (b : SignedBlock) (s : ChainState) : Except ChainError ChainState := do
  let s ← runElsewhere b.afterMaintenance s
  let s := clearExpiredTransactions s
  let db ← processBlockTasks s.db b.maintenance
  return { s with db := db }

/-- `_apply_block` -/
def applyBlock (chainId : List UInt8) (skip : Bool) (l : LocalData) (s : ChainState)
    (b : SignedBlock) : Except ChainError ChainState := do
  let s ← beginBlock skip s b
  let s ← maintainBlock chainId l b s
  endBlock b s

end Apply

end Playchain.Replay
