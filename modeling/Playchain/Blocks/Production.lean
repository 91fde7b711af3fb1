import Playchain.Blocks.Pool

/-!
# Making and checking a block

The header of a block, its size, its merkle root and its slot, as `_generate_block` fills them in and as
`_apply_block` checks them. The fields of the object state that decide about slots and sizes are kept
apart (`ChainProperties`): transactions read them, but only the processing of a block writes them.
-/

namespace Playchain

/-- The instance of a witness id. -/
abbrev WitnessId := Fin (2 ^ 48)

instance neZero_witnessIds : NeZero (2 ^ 48) := ⟨by decide⟩

/-- The fields of the dynamic and the global properties and of the witness schedule that the slot and the
size of a block depend on. -/
structure ChainProperties (ι : Type*) where
  headBlockId : ι
  headBlockNum : ℕ
  headBlockTime : ℕ
  currentAslot : ℕ
  maintenanceFlag : Bool
  blockInterval : ℕ
  maintenanceSkipSlots : ℕ
  maximumBlockSize : ℕ
  currentShuffledWitnesses : List WitnessId

/-- The object state of a chain. -/
structure ChainState (ι σ : Type*) where
  properties : ChainProperties ι
  objects : σ

/-- How transactions act on the objects. -/
class ObjectRules (ι σ : Type*) (τ ρ κ : outParam Type*) where
  txId : τ → κ
  isKnown : σ → κ → Bool
  applyTransaction : ChainProperties ι → σ → τ → Option (σ × ρ)
  signedSize : τ → ℕ
  packSize : ProcessedTransaction τ ρ → ℕ

/-! ### Slots -/

namespace ChainProperties

variable {ι : Type*}

/-- `get_slot_time`, without the width of times: it is the time of the source where that fits in 32 bits. -/
def getSlotTime (p : ChainProperties ι) (slotNum : ℕ) : ℕ :=
  if slotNum = 0 then 0
  else if p.headBlockNum = 0 then p.headBlockTime + slotNum * p.blockInterval
  else
    p.headBlockTime / p.blockInterval * p.blockInterval +
      (if p.maintenanceFlag then slotNum + p.maintenanceSkipSlots else slotNum) * p.blockInterval

/-- `get_slot_at_time` -/
def getSlotAtTime (p : ChainProperties ι) (time : ℕ) : ℕ :=
  if time < p.getSlotTime 1 then 0 else (time - p.getSlotTime 1) / p.blockInterval + 1

/-- `get_scheduled_witness` -/
def getScheduledWitness (p : ChainProperties ι) (slotNum : ℕ) : WitnessId :=
  p.currentShuffledWitnesses.getD ((p.currentAslot + slotNum) % p.currentShuffledWitnesses.length) 0

end ChainProperties

/-! ### Sizes -/

/-- The number of bytes with seven bits each, at most a given number of them. -/
def sevenBitBytes : ℕ → ℕ → ℕ
  | 0, _ => 0
  | fuel + 1, n => if n < 128 then 1 else sevenBitBytes fuel (n / 128) + 1

/-- The packed size of an `unsigned_int`; ten bytes are enough for 64 bits. -/
def unsignedIntSize (n : ℕ) : ℕ := sevenBitBytes 10 n

/-- The packed size of a `signed_block_header`: the previous id, the time, the witness, the merkle root,
no extensions, and the signature. -/
def signedBlockHeaderSize (witness : WitnessId) : ℕ := 20 + 4 + unsignedIntSize witness + 20 + 1 + 65

/-- `max_block_header_size`, with room for the number of transactions -/
def maxBlockHeaderSize (witness : WitnessId) : ℕ :=
  signedBlockHeaderSize 0 - unsignedIntSize (0 : WitnessId) + 3 + unsignedIntSize witness

/-- `GRAPHENE_MIN_BLOCK_SIZE_LIMIT` -/
def minBlockSizeLimit : ℕ := 1024 * 5

/-! ### Merkle roots -/

/-- The hashes of a merkle root. -/
class MerkleHash (α : Type*) (δ : outParam Type*) where
  /-- `merkle_digest` -/
  merkleDigest : α → δ
  /-- The hash of a pair. -/
  pair : δ → δ → δ
  /-- The hash of the last digest. -/
  checksum : δ → δ
  /-- `checksum_type()` -/
  empty : δ

/-- One level of the tree: the digests are hashed in pairs, and an odd one is taken over. -/
def merkleLevel {δ : Type*} (pair : δ → δ → δ) : List δ → List δ
  | a :: b :: rest => pair a b :: merkleLevel pair rest
  | ids => ids

/-- Level by level down to one digest; each level halves the number of digests, which bounds the fuel. -/
def merkleLoop {δ : Type*} (pair : δ → δ → δ) : ℕ → List δ → List δ
  | 0, ids => ids
  | fuel + 1, ids => if 1 < ids.length then merkleLoop pair fuel (merkleLevel pair ids) else ids

/-- `calculate_merkle_root` -/
def calculateMerkleRoot {α δ : Type*} [MerkleHash α δ] (txs : List α) : δ :=
  match merkleLoop (MerkleHash.pair α) txs.length (txs.map MerkleHash.merkleDigest) with
  | [] => MerkleHash.empty α
  | id :: _ => MerkleHash.checksum α id

/-! ### Blocks -/

/-- `signed_block` -/
structure SignedBlock (ι δ γ τ ρ : Type*) where
  previous : ι
  timestamp : ℕ
  witness : WitnessId
  transactionMerkleRoot : δ
  witnessSignature : γ
  transactions : List (ProcessedTransaction τ ρ)

section ChainState

variable {ι σ τ ρ κ δ γ : Type*} [ObjectRules ι σ τ ρ κ]

instance ChainState.transactionRules : TransactionRules (ChainState ι σ) τ ρ κ where
  txId := ObjectRules.txId ι σ
  isKnown s := ObjectRules.isKnown ι s.objects
  applyTransaction s t :=
    (ObjectRules.applyTransaction s.properties s.objects t).map fun (objects, r) ↦
      ({ s with objects := objects }, r)
  signedSize := ObjectRules.signedSize ι σ
  packSize := ObjectRules.packSize ι σ

/-- `fc::raw::pack_size` of a block -/
def SignedBlock.packSize (σ : Type*) [ObjectRules ι σ τ ρ κ] (b : SignedBlock ι δ γ τ ρ) : ℕ :=
  signedBlockHeaderSize b.witness + unsignedIntSize b.transactions.length +
    (b.transactions.map (ObjectRules.packSize ι σ)).sum

/-- A call of `_generate_block`: whether the key is the one of the witness, and how it signs a header, are
parameters. -/
def generation [MerkleHash (ProcessedTransaction τ ρ) δ] (time : ℕ) (witness : WitnessId)
    (signs : ChainState ι σ → Bool) (sign : ι → ℕ → WitnessId → δ → γ) :
    Node.Generation (ChainState ι σ) (SignedBlock ι δ γ τ ρ) τ ρ where
  scheduled s :=
    decide (0 < s.properties.getSlotAtTime time) &&
      decide (s.properties.getScheduledWitness (s.properties.getSlotAtTime time) = witness)
  signs := signs
  maxBlockHeaderSize := maxBlockHeaderSize witness
  maximumBlockSize s := s.properties.maximumBlockSize
  block s txs :=
    { previous := s.properties.headBlockId
      timestamp := time
      witness := witness
      transactionMerkleRoot := calculateMerkleRoot txs
      witnessSignature := sign s.properties.headBlockId time witness (calculateMerkleRoot txs)
      transactions := txs }

/-- The slot check of `validate_block_header` -/
def slotCheck (p : ChainProperties ι) (b : SignedBlock ι δ γ τ ρ) : Prop :=
  0 < p.getSlotAtTime b.timestamp ∧ b.witness = p.getScheduledWitness (p.getSlotAtTime b.timestamp)

/-- The loop of `_apply_block` over the transactions, without sessions; the results are returned too. -/
def applyTransactions : ChainState ι σ → List (ProcessedTransaction τ ρ) →
    Option (ChainState ι σ × List (ProcessedTransaction τ ρ))
  | s, [] => some (s, [])
  | s, tx :: rest =>
    match TransactionRules.applyTransaction s tx.trx with
    | none => none
    | some (s, r) => (applyTransactions s rest).map fun (s, results) ↦ (s, ⟨tx.trx, r⟩ :: results)

end ChainState

end Playchain
