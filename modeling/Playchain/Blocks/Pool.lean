import Playchain.Blocks.Node

/-!
# The pool of pending transactions

Transactions that are not in a block yet are applied on top of the state of the head block, in a session
of their own (`_pending_tx_session`). When a block arrives, this session is undone, and the transactions
are pushed again after the block: first those of the blocks that were popped, then those that were
pending. Making a block goes the same way.

How a transaction is applied to the object state is a parameter (`TransactionRules`).
-/

namespace Playchain

/-- `processed_transaction` -/
structure ProcessedTransaction (τ ρ : Type*) where
  trx : τ
  operationResults : ρ
  deriving DecidableEq

/-- How transactions act on the object state. -/
class TransactionRules (σ : Type*) (τ ρ κ : outParam Type*) where
  /-- The id of a transaction, which does not depend on the results. -/
  txId : τ → κ
  /-- `is_known_transaction` -/
  isKnown : σ → κ → Bool
  /-- `_apply_transaction` -/
  applyTransaction : σ → τ → Option (σ × ρ)
  /-- `fc::raw::pack_size` of a signed transaction -/
  signedSize : τ → ℕ
  /-- `fc::raw::pack_size` of a processed transaction -/
  packSize : ProcessedTransaction τ ρ → ℕ

/-- The check for duplicates is made. -/
class RejectsKnown (σ : Type*) {τ ρ κ : Type*} [TransactionRules σ τ ρ κ] : Prop where
  applyTransaction_of_isKnown : ∀ {s : σ} {t : τ},
    TransactionRules.isKnown s (TransactionRules.txId σ t) = true →
      TransactionRules.applyTransaction s t = none
  /-- The id is entered into the index of known transactions. -/
  isKnown_of_applyTransaction : ∀ {s s' : σ} {t : τ} {r : ρ},
    TransactionRules.applyTransaction s t = some (s', r) →
      TransactionRules.isKnown s' (TransactionRules.txId σ t) = true
  /-- No operation removes an entry of this index. -/
  isKnown_mono : ∀ {s s' : σ} {t : τ} {r : ρ} {k : κ},
    TransactionRules.applyTransaction s t = some (s', r) → TransactionRules.isKnown s k = true →
      TransactionRules.isKnown s' k = true

namespace Node

variable {σ β ι τ ρ κ : Type*} [TransactionRules σ τ ρ κ]

/-! ### Transactions -/

/-- `session::merge` -/
def mergeSession (n : Node σ β ι (ProcessedTransaction τ ρ)) : Node σ β ι (ProcessedTransaction τ ρ) :=
  { n with undoStack := n.undoStack.tail }

/-- The session of the pending transactions is started with the first of them. -/
def openPendingSession (n : Node σ β ι (ProcessedTransaction τ ρ)) :
    Node σ β ι (ProcessedTransaction τ ρ) :=
  if n.pendingSession then n else { n.startSession with pendingSession := true }

/-- `_push_transaction` -/
def pushTransactionImpl (n : Node σ β ι (ProcessedTransaction τ ρ)) (t : τ) :
    Except (Node σ β ι (ProcessedTransaction τ ρ)) (Node σ β ι (ProcessedTransaction τ ρ)) :=
  let n := n.openPendingSession.startSession
  match TransactionRules.applyTransaction n.state t with
  | none => .error n.undoSession
  | some (s, r) =>
    .ok { n.mergeSession with state := s, pendingTx := n.pendingTx ++ [⟨t, r⟩] }

/-- `push_transaction` -/
def pushTransaction (n : Node σ β ι (ProcessedTransaction τ ρ)) (t : τ) :
    Except (Node σ β ι (ProcessedTransaction τ ρ)) (Node σ β ι (ProcessedTransaction τ ρ)) :=
  if TransactionRules.signedSize σ t < 1024 * 1024 then n.pushTransactionImpl t else .error n

/-! ### Blocks -/

/-- `clear_pending` -/
def clearPending (n : Node σ β ι (ProcessedTransaction τ ρ)) : Node σ β ι (ProcessedTransaction τ ρ) :=
  { n with pendingTx := [] }.resetPendingSession

/-- Push transactions again; those that are known or fail are left out. -/
def requeue (n : Node σ β ι (ProcessedTransaction τ ρ)) (txs : List (ProcessedTransaction τ ρ)) :
    Node σ β ι (ProcessedTransaction τ ρ) :=
  txs.foldl (fun n tx ↦
    if TransactionRules.isKnown n.state (TransactionRules.txId σ tx.trx) then n
    else
      match n.pushTransactionImpl tx.trx with
      | .ok n => n
      | .error n => n) n

/-- The destructor of `pending_transactions_restorer` -/
def restorePending (n : Node σ β ι (ProcessedTransaction τ ρ))
    (pending : List (ProcessedTransaction τ ρ)) : Node σ β ι (ProcessedTransaction τ ρ) :=
  { n.requeue n.poppedTx with poppedTx := [] }.requeue pending

section PushBlock

variable [DecidableEq ι] [Blocks β ι (ProcessedTransaction τ ρ)]
  [ChainRules σ β ι (ProcessedTransaction τ ρ)]

/-- `push_block` -/
def pushBlock (n : Node σ β ι (ProcessedTransaction τ ρ)) (b : β) :
    Except (PushFailure ι × Node σ β ι (ProcessedTransaction τ ρ))
      (Node σ β ι (ProcessedTransaction τ ρ)) :=
  match n.clearPending.pushBlockImpl b with
  | .ok m => .ok (m.restorePending n.pendingTx)
  | .error (e, m) => .error (e, m.restorePending n.pendingTx)

end PushBlock

/-! ### Making a block -/

/-- What a call of `_generate_block` reads besides the pool: the parts of the header that come from its
arguments and from the state of the head block. -/
structure Generation (σ β τ ρ : Type*) where
  /-- The slot is a future one, and the witness is the scheduled one. -/
  scheduled : σ → Bool
  /-- The key is the signing key of the witness. -/
  signs : σ → Bool
  /-- `max_block_header_size` -/
  maxBlockHeaderSize : ℕ
  /-- `maximum_block_size` -/
  maximumBlockSize : σ → ℕ
  /-- The block over the head block with given transactions. -/
  block : σ → List (ProcessedTransaction τ ρ) → β

/-- The loop over the pending transactions: those that would make the block too big are postponed, and
those that fail are left out. The total size and the transactions of the block are passed along. -/
def assemble (maximum : ℕ) : List (ProcessedTransaction τ ρ) → ℕ → List (ProcessedTransaction τ ρ) →
    Node σ β ι (ProcessedTransaction τ ρ) →
    List (ProcessedTransaction τ ρ) × Node σ β ι (ProcessedTransaction τ ρ)
  | [], _, included, n => (included, n)
  | tx :: rest, total, included, n =>
    if maximum < total + TransactionRules.packSize σ tx then assemble maximum rest total included n
    else
      let temp := n.startSession
      match TransactionRules.applyTransaction temp.state tx.trx with
      | none => assemble maximum rest total included temp.undoSession
      | some (s, r) =>
        -- the results may have made the transaction bigger
        if maximum < total + TransactionRules.packSize σ (⟨tx.trx, r⟩ : ProcessedTransaction τ ρ) then
          assemble maximum rest total included temp.undoSession
        else
          assemble maximum rest
            (total + TransactionRules.packSize σ (⟨tx.trx, r⟩ : ProcessedTransaction τ ρ))
            (included ++ [⟨tx.trx, r⟩]) { temp.mergeSession with state := s }

/-- The pending transactions are applied again over the head block; those that are chosen for the block,
and the node with their session. -/
def assembled (n : Node σ β ι (ProcessedTransaction τ ρ)) (g : Generation σ β τ ρ) :
    List (ProcessedTransaction τ ρ) × Node σ β ι (ProcessedTransaction τ ρ) :=
  assemble (g.maximumBlockSize n.state) n.pendingTx g.maxBlockHeaderSize []
    { n.startSession with pendingSession := true }

/-- The block that `_generate_block` makes, and the node before it is pushed. -/
def makeBlock (n : Node σ β ι (ProcessedTransaction τ ρ)) (g : Generation σ β τ ρ) :
    Option (β × Node σ β ι (ProcessedTransaction τ ρ)) :=
  if g.scheduled n.state then
    let n := n.resetPendingSession
    if g.signs n.state then
      let m := (n.assembled g).2.resetPendingSession
      some (g.block m.state (n.assembled g).1, m)
    else none
  else none

section GenerateBlock

variable [DecidableEq ι] [Blocks β ι (ProcessedTransaction τ ρ)]
  [ChainRules σ β ι (ProcessedTransaction τ ρ)]

/-- `_generate_block`, when it succeeds -/
def generateBlock (n : Node σ β ι (ProcessedTransaction τ ρ)) (g : Generation σ β τ ρ) :
    Option (β × Node σ β ι (ProcessedTransaction τ ρ)) :=
  match n.makeBlock g with
  | none => none
  | some (b, m) =>
    match m.pushBlock b with
    | .ok m => some (b, m)
    | .error _ => none

end GenerateBlock

end Node

end Playchain
