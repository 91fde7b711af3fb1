import Playchain.Blocks.Production
import Playchain.Spec.Pool

/-!
# The node accepts its own blocks

A block that `_generate_block` assembles passes the checks of `_apply_block` over the state of the head
block: the bound that is kept during the assembly covers the packed size, and the transactions that were
chosen one by one in sessions apply one after the other with the same results.
-/

namespace Playchain

/-! ### Sizes -/

theorem sevenBitBytes_le {fuel n k : ℕ} (h : n < 128 ^ (k + 1)) : sevenBitBytes fuel n ≤ k + 1 := by
  induction fuel generalizing n k with
  | zero => exact Nat.zero_le _
  | succ fuel ih =>
    rw [sevenBitBytes]
    split_ifs with hsmall
    · exact Nat.le_add_left _ _
    · cases k with
      | zero => exact absurd (by simpa using h) hsmall
      | succ k =>
        refine Nat.succ_le_succ (ih ?_)
        rw [Nat.div_lt_iff_lt_mul (by decide)]
        exact h

/-- The instance of an id has at most seven bytes. -/
theorem unsignedIntSize_witness (witness : WitnessId) : unsignedIntSize witness ≤ 7 := by
  refine sevenBitBytes_le (k := 6) (witness.isLt.trans_le ?_)
  decide

theorem maxBlockHeaderSize_eq (witness : WitnessId) :
    maxBlockHeaderSize witness = signedBlockHeaderSize witness + 3 := by
  rw [maxBlockHeaderSize, signedBlockHeaderSize, signedBlockHeaderSize]
  omega

/-- The header alone stays below the smallest limit. -/
theorem maxBlockHeaderSize_le (witness : WitnessId) : maxBlockHeaderSize witness ≤ minBlockSizeLimit := by
  have hwitness := unsignedIntSize_witness witness
  rw [maxBlockHeaderSize_eq, signedBlockHeaderSize, minBlockSizeLimit]
  omega

/-! ### Slots -/

/-- A future slot lies after the head block. -/
theorem ChainProperties.headBlockTime_lt {ι : Type*} {p : ChainProperties ι} {time : ℕ}
    (hinterval : 0 < p.blockInterval) (h : 0 < p.getSlotAtTime time) : p.headBlockTime < time := by
  rw [getSlotAtTime] at h
  split_ifs at h with hlt
  · exact absurd h (lt_irrefl 0)
  refine lt_of_lt_of_le ?_ (Nat.le_of_not_lt hlt)
  rw [getSlotTime, if_neg one_ne_zero]
  split_ifs with hgenesis hmaintenance
  · omega
  · have hdiv := Nat.lt_div_mul_add (a := p.headBlockTime) hinterval
    have hskip : p.blockInterval ≤ (1 + p.maintenanceSkipSlots) * p.blockInterval :=
      Nat.le_mul_of_pos_left _ (Nat.add_pos_left Nat.one_pos _)
    omega
  · have hdiv := Nat.lt_div_mul_add (a := p.headBlockTime) hinterval
    omega

/-! ### Transactions -/

section ChainState

variable {ι σ τ ρ κ δ γ : Type*} [ObjectRules ι σ τ ρ κ]

/-- Transactions do not write the chain properties. -/
theorem Applies.properties {s s' : ChainState ι σ} {txs : List (ProcessedTransaction τ ρ)}
    (h : Applies s txs s') : s'.properties = s.properties := by
  induction txs generalizing s with
  | nil =>
    obtain rfl : s' = s := h
    rfl
  | cons tx txs ih =>
    obtain ⟨s₁, happly, h⟩ := h
    obtain ⟨⟨objects, r⟩, -, hpair⟩ := Option.map_eq_some_iff.1 happly
    rw [ih h, ← (Prod.mk.inj hpair).1]

/-- The transactions that were chosen apply without sessions, with the same results. -/
theorem Applies.applyTransactions {s s' : ChainState ι σ} {txs : List (ProcessedTransaction τ ρ)}
    (h : Applies s txs s') : applyTransactions s txs = some (s', txs) := by
  induction txs generalizing s with
  | nil =>
    obtain rfl : s' = s := h
    rfl
  | cons tx txs ih =>
    obtain ⟨s₁, happly, h⟩ := h
    rw [Playchain.applyTransactions, happly]
    dsimp only
    rw [ih h]
    rfl

variable [MerkleHash (ProcessedTransaction τ ρ) δ]
  {n m : Node (ChainState ι σ) (SignedBlock ι δ γ τ ρ) ι (ProcessedTransaction τ ρ)}
  {b : SignedBlock ι δ γ τ ρ}

/-- **A node accepts the transactions of its own block**: whatever the list of pending transactions is and
however transactions act on the objects, the block that is assembled passes the checks of its size, of its merkle
root and of its slot over the head block (a time after that of the head block, as long as times of slots fit
in 32 bits), and its transactions apply to the state of the head block with the results that were recorded,
and lead to the state that was reached during the assembly. -/
theorem makeBlock_accepted {time : ℕ} {witness : WitnessId} {signs : ChainState ι σ → Bool}
    {sign : ι → ℕ → WitnessId → δ → γ} (hsize : 1 ≤ n.undoMaxSize)
    (hpool : ∃ txs, Applies n.headState txs n.state)
    (hlimit : minBlockSizeLimit ≤ n.headState.properties.maximumBlockSize)
    (hmake : n.makeBlock (generation time witness signs sign) = some (b, m))
    (hcount : b.transactions.length < 2 ^ 21) :
    b.packSize σ ≤ n.headState.properties.maximumBlockSize ∧
      b.transactionMerkleRoot = calculateMerkleRoot b.transactions ∧
      b.previous = n.headState.properties.headBlockId ∧ slotCheck n.headState.properties b ∧
      (0 < n.headState.properties.blockInterval → n.headState.properties.getSlotTime 1 < 2 ^ 32 →
        n.headState.properties.headBlockTime < b.timestamp) ∧
      b.transactions = (n.resetPendingSession.assembled (generation time witness signs sign)).1 ∧
      applyTransactions n.headState b.transactions =
        some ((n.resetPendingSession.assembled (generation time witness signs sign)).2.state,
          b.transactions) := by
  obtain ⟨-, hproperties⟩ : ∃ txs, n.state.properties = n.headState.properties :=
    hpool.imp fun _ happlies ↦ happlies.properties
  obtain ⟨hscheduled, hb, -⟩ := Node.makeBlock_spec hsize hmake
  obtain ⟨hclear, -, hsame⟩ := Node.resetPendingSession_pool n
  obtain ⟨-, -, -, happlies, hsum⟩ :=
    Node.assembled_spec (hsame.undoMaxSize ▸ hsize) (generation time witness signs sign) rfl
  have hstate : n.headState = n.resetPendingSession.state := by rw [Node.headState, hclear]
  rw [← hstate] at happlies hsum
  obtain ⟨txs, htxs⟩ :
      ∃ txs, txs = (n.resetPendingSession.assembled (generation time witness signs sign)).1 := ⟨_, rfl⟩
  rw [← htxs] at happlies hsum hb ⊢
  obtain ⟨hslot, hwitness⟩ : 0 < n.headState.properties.getSlotAtTime time ∧
      n.headState.properties.getScheduledWitness (n.headState.properties.getSlotAtTime time) = witness := by
    rw [← hproperties]
    simpa [generation] using hscheduled
  rw [hb] at hcount ⊢
  refine ⟨?_, rfl, rfl, ⟨hslot, hwitness.symm⟩, fun hinterval _ ↦ ?_, rfl, happlies.applyTransactions⟩
  -- three bytes are enough for the number of transactions
  · have hbytes : unsignedIntSize txs.length ≤ 3 := sevenBitBytes_le (k := 2) hcount
    have hheader := maxBlockHeaderSize_le witness
    change maxBlockHeaderSize witness + (txs.map (ObjectRules.packSize ι σ)).sum ≤
      max (maxBlockHeaderSize witness) n.headState.properties.maximumBlockSize at hsum
    rw [max_eq_right (hheader.trans hlimit), maxBlockHeaderSize_eq] at hsum
    rw [SignedBlock.packSize]
    change signedBlockHeaderSize witness + unsignedIntSize txs.length +
      (txs.map (ObjectRules.packSize ι σ)).sum ≤ _
    omega
  · exact ChainProperties.headBlockTime_lt hinterval hslot

end ChainState

/-! ### A block of two transactions -/

namespace Ledger

/-- Transactions are amounts that are taken from a balance; the result is what is left. -/
instance : ObjectRules ℕ ℕ ℕ ℕ ℕ where
  txId t := t
  isKnown _ _ := false
  applyTransaction _ balance t := if t ≤ balance then some (balance - t, balance - t) else none
  signedSize _ := 100
  packSize _ := 2000

instance : MerkleHash (ProcessedTransaction ℕ ℕ) ℕ where
  merkleDigest tx := tx.trx
  pair a b := 31 * a + b
  checksum a := a + 1
  empty := 0

/-- Four transactions are pending; the second one has become invalid, and the last one is too much for
the block. -/
def node : Node (ChainState ℕ ℕ) (SignedBlock ℕ ℕ ℕ ℕ ℕ) ℕ (ProcessedTransaction ℕ ℕ) where
  state := ⟨⟨10, 3, 30, 3, false, 5, 0, 5120, [4, 6]⟩, 50⟩
  pendingTx := [⟨20, 80⟩, ⟨60, 20⟩, ⟨30, 0⟩, ⟨1, 0⟩]

/-- The call for the slot of witness 4. -/
def call : Node.Generation (ChainState ℕ ℕ) (SignedBlock ℕ ℕ ℕ ℕ ℕ) ℕ ℕ :=
  generation 35 4 (fun _ ↦ true) fun _ _ _ _ ↦ 0

/-- The second and the fourth transaction are left out of the block. -/
theorem makeBlock_accepted_call :
    ∃ b m, node.makeBlock call = some (b, m) ∧ b.packSize ℕ ≤ 5120 ∧
      b.transactions = [⟨20, 30⟩, ⟨30, 0⟩] ∧ slotCheck node.headState.properties b ∧
      (applyTransactions node.headState b.transactions).map Prod.snd = some b.transactions := by
  have htxs : (node.makeBlock call).map (fun p ↦ p.1.transactions) = some [⟨20, 30⟩, ⟨30, 0⟩] := by
    decide
  obtain ⟨⟨b, m⟩, hmake, hb⟩ := Option.map_eq_some_iff.1 htxs
  have hcount : b.transactions.length < 2 ^ 21 := by
    rw [hb]
    decide
  have hpool : ∃ txs, Applies node.headState txs node.state := ⟨[], rfl⟩
  obtain ⟨hsize, -, -, hslot, -, -, happly⟩ :=
    makeBlock_accepted (Nat.le_add_left 1 255) hpool (le_refl 5120) hmake hcount
  exact ⟨b, m, hmake, hsize, hb, hslot, by rw [happly]; rfl⟩

end Ledger

end Playchain
