import Playchain.Blocks.WitnessChain

/-!
# Confirmations

A witness confirms a block when it signs a block that is the same or comes later on the chain. The
objects keep the number of the last block of each witness, and the end of `_apply_block` reads from
them which block has become irreversible. The set of the active witnesses is the one from before the
maintenance: a maintenance of the same block comes later and may elect another set.
-/

namespace Playchain

/-- What `update_signing_witness` and `update_last_irreversible_block` read and write. -/
structure Confirmations (ω : Type*) where
  /-- `active_witnesses`, a set -/
  activeWitnesses : List ω
  nodup : activeWitnesses.Nodup
  ne_nil : activeWitnesses ≠ []
  lastConfirmedBlockNum : ω → ℕ
  lastIrreversibleBlockNum : ℕ

namespace Confirmations

variable {ω : Type*} [DecidableEq ω]

/-- `update_signing_witness`, without the pay and the slot of the witness -/
def updateSigningWitness (c : Confirmations ω) (witness : ω) (num : ℕ) : Confirmations ω :=
  { c with lastConfirmedBlockNum := Function.update c.lastConfirmedBlockNum witness num }

/-- `update_last_irreversible_block` -/
def updateLastIrreversible (c : Confirmations ω) : Confirmations ω :=
  { c with
    lastIrreversibleBlockNum := updateLastIrreversibleBlock
      (c.activeWitnesses.map c.lastConfirmedBlockNum) c.lastIrreversibleBlockNum }

/-- `update_active_witnesses`, with the set that is elected -/
def elect (c : Confirmations ω) (elected : List ω) (hnodup : elected.Nodup) (hne : elected ≠ []) :
    Confirmations ω :=
  { c with
    activeWitnesses := elected
    nodup := hnodup
    ne_nil := hne }

end Confirmations

/-- Blocks are signed by witnesses, and a block that is applied confirms the chain before it. -/
class WitnessRules (σ : Type*) (β ι τ ω : outParam Type*) [DecidableEq ω] [Blocks β ι τ] extends
    ChainRules σ β ι τ where
  witness : β → ω
  confirmations : σ → Confirmations ω
  lastIrreversible_eq : ∀ s, lastIrreversible s = (confirmations s).lastIrreversibleBlockNum
  /-- The end of `_apply_block` -/
  confirmations_of_applyBlock : ∀ {s b s'}, applyBlock s b = .ok s' → ∃ elected hnodup hne,
    confirmations s' =
      (((confirmations s).updateSigningWitness (witness b)
        (blockNum b)).updateLastIrreversible).elect
        elected hnodup hne

/-! ### A chain with elections -/

namespace ElectionChain

/-- The content of a block: its witness, and the witnesses that are elected when it is applied. -/
structure Entry where
  witness : ℕ
  elected : List ℕ
  nodup : elected.Nodup
  ne_nil : elected ≠ []
  deriving DecidableEq

/-- A block over a chain. -/
structure Block where
  entry : Entry
  previous : List Entry
  deriving DecidableEq

instance : Blocks Block (List Entry) (ProcessedTransaction ℕ Unit) where
  id b := b.entry :: b.previous
  previous b := b.previous
  transactions _ := []
  numFromId := List.length
  noBlock := []
  id_inj := by
    rintro ⟨entry, previous⟩ ⟨entry', previous'⟩ h
    obtain ⟨rfl, rfl⟩ := List.cons.inj h
    rfl
  numFromId_id _ := rfl
  numFromId_noBlock := rfl

/-- The object state. -/
structure State where
  head : List Entry
  confirmations : Confirmations ℕ

/-- `apply_block` -/
def applyBlock (s : State) (b : Block) : Except Bool State :=
  if b.previous = s.head then
    .ok
      { head := b.entry :: b.previous
        confirmations :=
          ((s.confirmations.updateSigningWitness b.entry.witness
            (blockNum b)).updateLastIrreversible).elect
            b.entry.elected b.entry.nodup b.entry.ne_nil }
  else .error false

theorem applyBlock_ok {s s' : State} {b : Block} (h : applyBlock s b = .ok s') :
    b.previous = s.head ∧ s'.head = b.entry :: b.previous ∧ s'.confirmations =
      ((s.confirmations.updateSigningWitness b.entry.witness
        (blockNum b)).updateLastIrreversible).elect
        b.entry.elected b.entry.nodup b.entry.ne_nil := by
  rw [applyBlock] at h
  split_ifs at h with hprevious
  cases h
  exact ⟨hprevious, rfl, rfl⟩

instance : WitnessRules State Block (List Entry) (ProcessedTransaction ℕ Unit) ℕ where
  headId := State.head
  lastIrreversible s := s.confirmations.lastIrreversibleBlockNum
  applyBlock := applyBlock
  previous_of_applyBlock h := (applyBlock_ok h).1
  headId_of_applyBlock h := (applyBlock_ok h).2.1
  lastIrreversible_of_applyBlock h := by
    rw [(applyBlock_ok h).2.2]
    exact le_updateLastIrreversibleBlock _ _
  witness b := b.entry.witness
  confirmations := State.confirmations
  lastIrreversible_eq _ := rfl
  confirmations_of_applyBlock h := ⟨_, _, _, (applyBlock_ok h).2.2⟩

/-- No transaction is ever applied on this chain. -/
instance : TransactionRules State ℕ Unit ℕ where
  txId t := t
  isKnown _ _ := false
  applyTransaction _ _ := none
  signedSize _ := 100
  packSize _ := 100

instance : RejectsKnown State where
  applyTransaction_of_isKnown h := absurd h Bool.false_ne_true
  isKnown_of_applyTransaction h := by cases h
  isKnown_mono h := by cases h

/-- The nodes of this chain. -/
abbrev Node := Playchain.Node State Block (List Entry) (ProcessedTransaction ℕ Unit)

end ElectionChain

end Playchain
