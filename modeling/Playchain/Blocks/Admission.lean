import Playchain.Blocks.ForkDatabase
import Playchain.Lib.FlatMap
import Playchain.Protocol.Types

/-!
# Admitting transactions

What `_apply_transaction` checks of a transaction besides its operations: that its id is not in the deduplication index, that
the block it refers to is on the chain, and that it has not expired. A block that has been applied is entered into the ring
of block summaries, and the transactions that have expired are removed from the index.

Replaying skips some of these checks. The flag for duplicates is cleared while blocks are read, as soon as they are young
enough (`ReadAhead`), and up to the last checkpoint everything is skipped that can be.
-/

namespace Playchain

/-- `GRAPHENE_BLOCKID_POOL_SIZE` -/
def blockidPoolSize : ℕ := 0xffff

def hardforkCore1573Time : TimePointSec := 1556960400

/-- `operator-` of a time and a number of seconds. -/
def TimePointSec.subSeconds (t : TimePointSec) (s : ℕ) : TimePointSec := (t + 2 ^ 32 - s % 2 ^ 32) % 2 ^ 32

/-- `validation_steps` -/
structure SkipFlags where
  witnessSignature : Bool := false
  transactionSignatures : Bool := false
  transactionDupeCheck : Bool := false
  blockSizeCheck : Bool := false
  taposCheck : Bool := false
  merkleCheck : Bool := false
  assertEvaluation : Bool := false
  undoHistoryCheck : Bool := false
  witnessScheduleCheck : Bool := false
  deriving DecidableEq

/-- `~0` -/
def SkipFlags.all : SkipFlags := ⟨true, true, true, true, true, true, true, true, true⟩

/-- The object state. -/
structure AdmissionState (σ ι τ κ : Type) [LinearOrder κ] where
  /-- What else there is. -/
  objects : σ
  headBlockId : ι
  headBlockNum : ℕ := 0
  headBlockTime : TimePointSec
  /-- `transaction_index`, in the order of `by_trx_id` -/
  transactionIndex : FlatMap κ τ := ∅
  /-- `block_summary_object` -/
  blockSummaries : ℕ → ι

/-- The rest of the chain. -/
class AdmissionRules (σ : Type) (β ι τ κ : outParam Type) [LinearOrder κ] [Blocks β ι τ] where
  /-- `id()` of a transaction -/
  txId : τ → κ
  expiration : τ → TimePointSec
  refBlockNum : τ → UInt16
  refBlockPrefix : τ → UInt32
  packedSize : τ → ℕ
  /-- `validate` -/
  validate : τ → Bool
  /-- `_hash[1]` of the id of a block -/
  idPrefix : ι → UInt32
  timestamp : β → TimePointSec
  maximumTimeUntilExpiration : σ → ℕ
  maximumTransactionSize : σ → ℕ
  /-- `verify_authority` -/
  verifyAuthority : AdmissionState σ ι τ κ → τ → Bool
  /-- The operations of a transaction are applied. -/
  applyOperations : SkipFlags → AdmissionState σ ι τ κ → τ → Except ChainError σ
  /-- Parameters of the chain are installed at a maintenance only. -/
  window_applyOperations : ∀ {skip : SkipFlags} {s : AdmissionState σ ι τ κ} {t : τ} {objects : σ},
    applyOperations skip s t = .ok objects → maximumTimeUntilExpiration objects = maximumTimeUntilExpiration s.objects
  /-- The size of a block, its merkle root, its witness and its slot, as far as they are checked. -/
  validHeader : SkipFlags → AdmissionState σ ι τ κ → β → Bool
  /-- What is done after the transactions, up to the maintenance. -/
  afterTransactions : SkipFlags → AdmissionState σ ι τ κ → β → Except ChainError σ
  /-- What is done after the block has been entered into the ring and expired transactions have been removed. -/
  endBlock : SkipFlags → AdmissionState σ ι τ κ → β → Except ChainError σ

section Admission

variable {σ β ι τ κ : Type} [DecidableEq ι] [LinearOrder κ] [Blocks β ι τ] [AdmissionRules σ β ι τ κ]

/-- `set_reference_block`: the low half of the number of the block, and its second word. -/
def setReferenceBlock (β : Type) [Blocks β ι τ] (idPrefix : ι → UInt32) (referenceBlock : ι) : UInt16 × UInt32 :=
  (UInt16.ofNat (Blocks.numFromId β referenceBlock), idPrefix referenceBlock)

namespace AdmissionState

/-! ### Transactions -/

/-- The reference of a transaction names the block in its place of the ring. -/
def referenceMatches (s : AdmissionState σ ι τ κ) (t : τ) : Prop :=
  AdmissionRules.refBlockPrefix σ t =
    AdmissionRules.idPrefix σ (s.blockSummaries ((AdmissionRules.refBlockNum σ t).toNat &&& blockidPoolSize))

instance (s : AdmissionState σ ι τ κ) (t : τ) : Decidable (s.referenceMatches t) := inferInstanceAs (Decidable (_ = _))

/-- The checks that are left out for the first block. -/
def checkTime (skip : SkipFlags) (s : AdmissionState σ ι τ κ) (t : τ) : Except ChainError Unit := do
  let now := s.headBlockTime
  fcAssert (skip.taposCheck = true ∨ s.referenceMatches t) "trx.ref_block_prefix == tapos_block_summary.block_id._hash[1]"
  fcAssert (AdmissionRules.expiration σ t ≤ now.addSeconds (AdmissionRules.maximumTimeUntilExpiration s.objects))
    "trx.expiration <= now + chain_parameters.maximum_time_until_expiration"
  fcAssert (now ≤ AdmissionRules.expiration σ t) "now <= trx.expiration"
  fcAssert (skip.blockSizeCheck = true ∨ now ≤ hardforkCore1573Time ∨
      AdmissionRules.packedSize σ t ≤ AdmissionRules.maximumTransactionSize s.objects)
    "Transaction size exceeds maximum transaction size."

/-- The checks of `_apply_transaction`, in its order. -/
def checkTransaction (skip : SkipFlags) (s : AdmissionState σ ι τ κ) (t : τ) : Except ChainError Unit := do
  fcAssert (AdmissionRules.validate σ t = true) "validate"
  fcAssert (skip.transactionDupeCheck = true ∨ s.transactionIndex.find? (AdmissionRules.txId σ t) = none)
    "trx_idx.indices().get<by_trx_id>().find(trx.id()) == trx_idx.indices().get<by_trx_id>().end()"
  fcAssert (skip.transactionSignatures = true ∨ AdmissionRules.verifyAuthority s t = true) "verify_authority"
  if 0 < s.headBlockNum then s.checkTime skip t else return ()

/-- A transaction is entered into the deduplication index. -/
def enterTransaction (skip : SkipFlags) (s : AdmissionState σ ι τ κ) (t : τ) : AdmissionState σ ι τ κ :=
  if skip.transactionDupeCheck then s
  else { s with transactionIndex := s.transactionIndex.insert (AdmissionRules.txId σ t) t }

/-- `_apply_transaction` -/
def applyTransaction (skip : SkipFlags) (s : AdmissionState σ ι τ κ) (t : τ) :
    Except ChainError (AdmissionState σ ι τ κ) := do
  s.checkTransaction skip t
  let s := s.enterTransaction skip t
  let objects ← AdmissionRules.applyOperations skip s t
  return { s with objects := objects }

/-! ### Blocks -/

/-- `validate_block_header`, with the checks before it -/
def checkHeader (skip : SkipFlags) (s : AdmissionState σ ι τ κ) (b : β) : Except ChainError Unit := do
  fcAssert (s.headBlockId = Blocks.previous b) "head_block_id() == next_block.previous"
  fcAssert (s.headBlockTime < AdmissionRules.timestamp σ b) "head_block_time() < next_block.timestamp"
  fcAssert (AdmissionRules.validHeader skip s b = true) "validate_block_header"

/-- `update_global_dynamic_data`: the block becomes the head. -/
def setHead (s : AdmissionState σ ι τ κ) (b : β) : AdmissionState σ ι τ κ :=
  { s with
    headBlockId := Blocks.id b
    headBlockNum := blockNum b
    headBlockTime := AdmissionRules.timestamp σ b }

/-- `create_block_summary` -/
def createBlockSummary (s : AdmissionState σ ι τ κ) (b : β) : AdmissionState σ ι τ κ :=
  { s with blockSummaries := Function.update s.blockSummaries (blockNum b &&& blockidPoolSize) (Blocks.id b) }

/-- `clear_expired_transactions` -/
def clearExpiredTransactions (s : AdmissionState σ ι τ κ) : AdmissionState σ ι τ κ :=
  { s with
    transactionIndex := s.transactionIndex.filter fun _ t ↦ !decide (AdmissionRules.expiration σ t < s.headBlockTime) }

/-- `_apply_block` -/
def applyBlock (skip : SkipFlags) (s : AdmissionState σ ι τ κ) (b : β) :
    Except ChainError (AdmissionState σ ι τ κ) := do
  s.checkHeader skip b
  let s ← (Blocks.transactions b).foldlM (applyTransaction skip) s
  let s := s.setHead b
  let objects ← AdmissionRules.afterTransactions skip s b
  let s := ({ s with objects := objects }.createBlockSummary b).clearExpiredTransactions
  let objects ← AdmissionRules.endBlock skip s b
  return { s with objects := objects }

/-- The last checkpoint, unless it is that of no block. -/
def lastCheckpoint? (β : Type) [Blocks β ι τ] (checkpoints : FlatMap ℕ ι) : Option ℕ :=
  match checkpoints.toList.getLast? with
  | none => none
  | some (last, id) => if id = Blocks.noBlock β then none else some last

/-- The block is not above the last checkpoint. -/
def UpToCheckpoint (checkpoints : FlatMap ℕ ι) (b : β) : Prop :=
  ∃ last ∈ lastCheckpoint? β checkpoints, blockNum b ≤ last

instance (checkpoints : FlatMap ℕ ι) (b : β) : Decidable (UpToCheckpoint checkpoints b) :=
  inferInstanceAs (Decidable (∃ last ∈ lastCheckpoint? β checkpoints, blockNum b ≤ last))

/-- `apply_block`: up to the last checkpoint almost everything is skipped. -/
def applyCheckpointed (checkpoints : FlatMap ℕ ι) (skip : SkipFlags) (s : AdmissionState σ ι τ κ) (b : β) :
    Except ChainError (AdmissionState σ ι τ κ) := do
  if (lastCheckpoint? β checkpoints).isSome then
    fcAssert (∀ id ∈ checkpoints.find? (blockNum b), Blocks.id b = id) "Block did not match checkpoint"
  s.applyBlock (if UpToCheckpoint checkpoints b then .all else skip) b

/-- `init_genesis` -/
def genesis (β : Type) [Blocks β ι τ] (objects : σ) (genesisTime : TimePointSec) : AdmissionState σ ι τ κ :=
  { objects := objects
    headBlockId := Blocks.noBlock β
    headBlockTime := genesisTime
    blockSummaries := fun _ ↦ Blocks.noBlock β }

end AdmissionState

/-! ### Chains -/

/-- The state after the blocks of a chain, each of which is applied with flags of its own. -/
inductive AppliedChain (σ : Type) [AdmissionRules σ β ι τ κ] (flags : ℕ → SkipFlags) :
    List β → AdmissionState σ ι τ κ → Prop
  | genesis (objects : σ) (genesisTime : TimePointSec) : AppliedChain σ flags [] (.genesis β objects genesisTime)
  | block {chain : List β} {s s' : AdmissionState σ ι τ κ} {b : β} (h : AppliedChain σ flags chain s)
      (hb : s.applyBlock (flags chain.length) b = .ok s') : AppliedChain σ flags (chain ++ [b]) s'

/-- The transactions on a chain. -/
def chainTransactions (chain : List β) : List τ := chain.flatMap Blocks.transactions

/-- What `reindex` does to the flags when it reads a block: duplicates are looked for as soon as a block is young enough. -/
def readBlock (σ : Type) [AdmissionRules σ β ι τ κ] (lastTimestamp : TimePointSec) (maximumTimeUntilExpiration : ℕ)
    (skip : SkipFlags) (b : β) : SkipFlags :=
  if lastTimestamp.subSeconds maximumTimeUntilExpiration ≤ AdmissionRules.timestamp σ b then
    { skip with transactionDupeCheck := false }
  else skip

/-- `reindex` from genesis: blocks of the log are read as long as fewer than twenty of them wait to be applied; the flags
that a block is applied with are those after the last block read. -/
inductive ReadAhead (σ : Type) [AdmissionRules σ β ι τ κ] (log : List β) (checkpoints : FlatMap ℕ ι)
    (lastTimestamp : TimePointSec) (skip : SkipFlags) (objects : σ) (genesisTime : TimePointSec) :
    (read applied : ℕ) → SkipFlags → AdmissionState σ ι τ κ → Prop
  | start : ReadAhead σ log checkpoints lastTimestamp skip objects genesisTime 0 0 skip (.genesis β objects genesisTime)
  | read {read applied : ℕ} {flags : SkipFlags} {s : AdmissionState σ ι τ κ} {b : β}
      (h : ReadAhead σ log checkpoints lastTimestamp skip objects genesisTime read applied flags s)
      (hqueue : read < applied + 20) (hb : log[read]? = some b) :
      ReadAhead σ log checkpoints lastTimestamp skip objects genesisTime (read + 1) applied
        (readBlock σ lastTimestamp (AdmissionRules.maximumTimeUntilExpiration s.objects) flags b) s
  | apply {read applied : ℕ} {flags : SkipFlags} {s s' : AdmissionState σ ι τ κ} {b : β}
      (h : ReadAhead σ log checkpoints lastTimestamp skip objects genesisTime read applied flags s)
      (hqueue : read = log.length ∨ read = applied + 20) (hlt : applied < read) (hb : log[applied]? = some b)
      (happly : s.applyCheckpointed checkpoints flags b = .ok s') :
      ReadAhead σ log checkpoints lastTimestamp skip objects genesisTime read (applied + 1) flags s'

end Admission

end Playchain
