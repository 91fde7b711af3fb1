import Mathlib.Data.List.Sort
import Playchain.Blocks.Pool

/-!
# A chain of witnesses

Rules for the block level that are small enough to be run: the object state has the chain of the head
block, the block that each active witness confirmed last, and the known transactions. An id is the chain
itself. The last irreversible block follows from the confirmations as in the code.
-/

namespace Playchain

/-- The choice of `update_last_irreversible_block`: the blocks that the active witnesses confirmed last
are ordered by number, and the one below which there are at most thirty percent of them is taken. -/
def irreversibleBlockNum (lastConfirmed : List ℕ) : ℕ :=
  (lastConfirmed.insertionSort (· ≤ ·)).getD ((10000 - 7000) * lastConfirmed.length / 10000) 0

/-- `update_last_irreversible_block` -/
def updateLastIrreversibleBlock (lastConfirmed : List ℕ) (lastIrreversible : ℕ) : ℕ :=
  if lastIrreversible < irreversibleBlockNum lastConfirmed then irreversibleBlockNum lastConfirmed
  else lastIrreversible

theorem le_updateLastIrreversibleBlock (lastConfirmed : List ℕ) (lastIrreversible : ℕ) :
    lastIrreversible ≤ updateLastIrreversibleBlock lastConfirmed lastIrreversible := by
  rw [updateLastIrreversibleBlock]
  split_ifs with h
  · exact h.le
  · exact le_rfl

namespace WitnessChain

/-- The content of a block. A block with `valid` unset has an operation that fails. -/
structure Entry where
  tag : ℕ
  witness : ℕ := 0
  valid : Bool := true
  transactions : List (ProcessedTransaction ℕ Unit) := []
  deriving DecidableEq

/-- A block over a chain. -/
structure Block where
  entry : Entry
  previous : List Entry
  deriving DecidableEq

/-- The object state. -/
structure State where
  head : List Entry := []
  lastConfirmed : List ℕ := [0]
  lastIrreversible : ℕ := 0
  known : List ℕ := []
  deriving DecidableEq

instance : Blocks Block (List Entry) (ProcessedTransaction ℕ Unit) where
  id b := b.entry :: b.previous
  previous b := b.previous
  transactions b := b.entry.transactions
  numFromId := List.length
  noBlock := []
  id_inj := by
    rintro ⟨entry, previous⟩ ⟨entry', previous'⟩ h
    obtain ⟨rfl, rfl⟩ := List.cons.inj h
    rfl
  numFromId_id _ := rfl
  numFromId_noBlock := rfl

/-- A transaction is only entered into the index of known transactions. -/
instance : TransactionRules State ℕ Unit ℕ where
  txId t := t
  isKnown s t := decide (t ∈ s.known)
  applyTransaction s t := if t ∈ s.known then none else some ({ s with known := t :: s.known }, ())
  signedSize _ := 100
  packSize _ := 100

instance : RejectsKnown State where
  applyTransaction_of_isKnown h := if_pos (of_decide_eq_true h)
  isKnown_of_applyTransaction := by
    intro s s' t r h
    dsimp only [TransactionRules.applyTransaction] at h
    split_ifs at h
    cases h
    exact decide_eq_true List.mem_cons_self
  isKnown_mono := by
    intro s s' t r k h hk
    dsimp only [TransactionRules.applyTransaction] at h
    split_ifs at h
    cases h
    exact decide_eq_true (List.mem_cons_of_mem _ (of_decide_eq_true hk))

/-- The transactions of a block are applied without sessions. -/
def applyTransactions : State → List (ProcessedTransaction ℕ Unit) → Option State
  | s, [] => some s
  | s, tx :: rest =>
    match TransactionRules.applyTransaction s tx.trx with
    | none => none
    | some (s', _) => applyTransactions s' rest

/-- `apply_block` -/
def applyBlock (s : State) (b : Block) : Except Bool State :=
  if b.previous = s.head ∧ b.entry.valid = true then
    match applyTransactions s b.entry.transactions with
    | none => .error false
    | some s' => .ok
      { s' with
        head := b.entry :: b.previous
        lastConfirmed := s.lastConfirmed.set b.entry.witness (blockNum b)
        lastIrreversible := updateLastIrreversibleBlock
          (s.lastConfirmed.set b.entry.witness (blockNum b)) s.lastIrreversible }
  else .error false

theorem applyBlock_ok {s s' : State} {b : Block} (h : applyBlock s b = .ok s') :
    b.previous = s.head ∧ s'.head = b.entry :: b.previous ∧
      s'.lastIrreversible = updateLastIrreversibleBlock
        (s.lastConfirmed.set b.entry.witness (blockNum b)) s.lastIrreversible := by
  rw [applyBlock] at h
  split_ifs at h with hvalid
  split at h
  · cases h
  · cases h
    exact ⟨hvalid.1, rfl, rfl⟩

instance : ChainRules State Block (List Entry) (ProcessedTransaction ℕ Unit) where
  headId := State.head
  lastIrreversible := State.lastIrreversible
  applyBlock := applyBlock
  previous_of_applyBlock h := (applyBlock_ok h).1
  headId_of_applyBlock h := (applyBlock_ok h).2.1
  lastIrreversible_of_applyBlock h := by
    rw [(applyBlock_ok h).2.2]
    exact le_updateLastIrreversibleBlock _ _

/-- The nodes of this chain. -/
abbrev Node := Playchain.Node State Block (List Entry) (ProcessedTransaction ℕ Unit)

/-- The node of the genesis state with a number of active witnesses. -/
def genesis (witnesses : ℕ) : Node := { state := { lastConfirmed := List.replicate witnesses 0 } }

end WitnessChain

end Playchain
