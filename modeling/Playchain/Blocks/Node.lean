import Playchain.Blocks.ForkDatabase

/-!
# Pushing blocks

The block level of the chain database: the object state with its undo records, the fork database, and
the pool of pending transactions. How a block is applied to the object state is a parameter
(`ChainRules`). A record of the undo database is the state before it: that undoing a record restores
this state is shown for the undo database itself.

Exceptions leave the node as it is at that moment, so a failure carries a node.
-/

namespace Playchain

/-- How blocks act on the object state. A failure to apply a block says whether the sizes of the undo
stack and of the fork database had been set before. -/
class ChainRules (σ : Type*) (β ι τ : outParam Type*) [Blocks β ι τ] where
  /-- `head_block_id` -/
  headId : σ → ι
  /-- `last_irreversible_block_num` -/
  lastIrreversible : σ → ℕ
  /-- `apply_block` -/
  applyBlock : σ → β → Except Bool σ
  /-- `validate_block_header` -/
  previous_of_applyBlock : ∀ {s b s'}, applyBlock s b = .ok s' → Blocks.previous b = headId s
  /-- `update_global_dynamic_data` -/
  headId_of_applyBlock : ∀ {s b s'}, applyBlock s b = .ok s' → headId s' = Blocks.id b
  /-- `update_last_irreversible_block` -/
  lastIrreversible_of_applyBlock : ∀ {s b s'}, applyBlock s b = .ok s' →
    lastIrreversible s ≤ lastIrreversible s'

/-- The block level of `database` -/
structure Node (σ β ι τ : Type*) where
  state : σ
  /-- The states before the sessions, the latest one first. -/
  undoStack : List σ := []
  undoMaxSize : ℕ := 256
  fork : ForkDatabase β := {}
  /-- `_block_id_to_block`: the id that is stored for a number. -/
  blockIds : ℕ → Option ι := fun _ ↦ none
  pendingTx : List τ := []
  /-- `_pending_tx_session` is valid. -/
  pendingSession : Bool := false
  poppedTx : List τ := []

/-- Why a block is not pushed. -/
inductive PushFailure (ι : Type*) where
  | fork (e : ForkError)
  /-- `fetch_branch_from` fails. -/
  | branch
  /-- `pop_block` fails. -/
  | pop
  /-- The block with an id fails to apply. -/
  | apply (id : ι)

section Node

variable {σ β ι τ : Type*} [DecidableEq ι] [Blocks β ι τ] [ChainRules σ β ι τ]

namespace Node

/-- `head_block_id` -/
def headId (n : Node σ β ι τ) : ι := ChainRules.headId n.state

/-- `head_block_num` -/
def headNum (n : Node σ β ι τ) : ℕ := Blocks.numFromId β n.headId

/-! ### Sessions -/

/-- `start_undo_session` -/
def startSession (n : Node σ β ι τ) : Node σ β ι τ :=
  { n with undoStack := n.state :: n.undoStack.take n.undoMaxSize }

/-- Undo the latest record. -/
def popUndo (n : Node σ β ι τ) : Option (Node σ β ι τ) :=
  match n.undoStack with
  | [] => none
  | s :: rest => some { n with state := s, undoStack := rest }

/-- The destructor of a session that is neither committed nor merged. -/
def undoSession (n : Node σ β ι τ) : Node σ β ι τ := n.popUndo.getD n

/-- `_pending_tx_session.reset()` -/
def resetPendingSession (n : Node σ β ι τ) : Node σ β ι τ :=
  if n.pendingSession then { n.undoSession with pendingSession := false } else n

/-! ### Blocks -/

/-- The end of `update_global_dynamic_data`: the sizes of the undo stack and of the fork database follow
from the last irreversible block **before** the block that is applied. -/
def setWindows (n : Node σ β ι τ) (b : β) : Node σ β ι τ :=
  { n with
    undoMaxSize := blockNum b - ChainRules.lastIrreversible n.state + 1
    fork := n.fork.setMaxSize (blockNum b - ChainRules.lastIrreversible n.state + 1) }

/-- `apply_block` -/
def applyBlock (n : Node σ β ι τ) (b : β) : Except (Node σ β ι τ) (Node σ β ι τ) :=
  match ChainRules.applyBlock n.state b with
  | .ok s => .ok { n.setWindows b with state := s }
  | .error sized => .error (if sized then n.setWindows b else n)

/-- Apply a block in a session of its own, store it and commit. -/
def applyInSession (n : Node σ β ι τ) (b : β) : Except (Node σ β ι τ) (Node σ β ι τ) :=
  match n.startSession.applyBlock b with
  | .ok m => .ok { m with blockIds := Function.update m.blockIds (blockNum b) (some (Blocks.id b)) }
  | .error m => .error m.undoSession

/-- `pop_block` -/
def popBlock (n : Node σ β ι τ) : Except (Node σ β ι τ) (Node σ β ι τ) :=
  let n := n.resetPendingSession
  match n.fork.head with
  | none => .error n
  | some h =>
    match if h.id = n.headId then n.fork.popBlock.map fun f ↦ (f, h)
      else (n.fork.fetchBlock n.headId).map fun it ↦ (n.fork, it) with
    | none => .error n
    | some (fork, it) =>
      match ({ n with fork := fork } : Node σ β ι τ).popUndo with
      | none => .error { n with fork := fork }
      | some n => .ok { n with poppedTx := Blocks.transactions it.data ++ n.poppedTx }

/-- Pop blocks until a given one is the head. Each block takes a record from the undo stack, which
bounds the fuel. -/
def popUntil (root : ι) : ℕ → Node σ β ι τ → Except (Node σ β ι τ) (Node σ β ι τ)
  | 0, n => .error n
  | fuel + 1, n =>
    if n.headId = root then .ok n
    else
      match n.popBlock with
      | .error n => .error n
      | .ok n => popUntil root fuel n

/-- Pop the blocks above a given one. -/
def popTo (n : Node σ β ι τ) (root : ι) : Except (Node σ β ι τ) (Node σ β ι τ) :=
  popUntil root (n.undoStack.length + 1) n

/-! ### Switching forks -/

/-- The block that a branch starts from. -/
def branchRoot (branch : List (ForkItem β)) : ι :=
  ((branch.getLast?).map ForkItem.previousId).getD (Blocks.noBlock β)

/-- Apply the blocks of the good fork again. -/
def restoreBranch : List (ForkItem β) → Node σ β ι τ → Except (Node σ β ι τ) (Node σ β ι τ)
  | [], n => .ok n
  | it :: rest, n => do
    let n ← n.applyInSession it.data
    restoreBranch rest n

/-- What is done after a block of the new fork has failed: the rest of the fork is removed, its other
blocks are popped, and the blocks of the old fork are applied again. -/
def switchBack (n : Node σ β ι τ) (failed second : List (ForkItem β)) :
    Except (Node σ β ι τ) (Node σ β ι τ) := do
  let n := { n with fork := (n.fork.removeAll failed).setHead second.head? }
  let n ← n.popTo (branchRoot second)
  restoreBranch second.reverse n

/-- Push all blocks on the new fork. -/
def pushBranch (second : List (ForkItem β)) : List (ForkItem β) → Node σ β ι τ →
    Except (PushFailure ι × Node σ β ι τ) (Node σ β ι τ)
  | [], n => .ok n
  | it :: rest, n =>
    match n.applyInSession it.data with
    | .ok n => pushBranch second rest n
    | .error n =>
      match n.switchBack (it :: rest) second with
      | .ok n => .error (.apply it.id, n)
      | .error n => .error (.pop, n)

/-- Switch to the branch of a new head. -/
def switchForks (n : Node σ β ι τ) (newHead : ForkItem β) :
    Except (PushFailure ι × Node σ β ι τ) (Node σ β ι τ) :=
  match n.fork.fetchBranchFrom newHead.id n.headId with
  | none => .error (.branch, n)
  | some (first, second) =>
    match n.popTo (branchRoot second) with
    | .error n => .error (.pop, n)
    | .ok n => pushBranch second first.reverse n

/-- `_push_block` -/
def pushBlockImpl (n : Node σ β ι τ) (b : β) :
    Except (PushFailure ι × Node σ β ι τ) (Node σ β ι τ) :=
  match n.fork.pushBlock b with
  | .error e => .error (.fork e, n)
  | .ok fork =>
    let n := { n with fork := fork }
    match fork.head with
    | none => .ok n
    | some newHead =>
      if newHead.previousId ≠ n.headId then
        if n.headNum < newHead.num then n.switchForks newHead else .ok n
      else
        match n.applyInSession b with
        | .ok n => .ok n
        | .error n => .error (.apply (Blocks.id b), { n with fork := n.fork.remove (Blocks.id b) })

end Node

end Node

end Playchain
