import Playchain.Blocks.Node
import Playchain.Lib.FlatMap
import Playchain.Lib.Loop

/-!
# Reindexing

`database::reindex`: when a chain is opened, the blocks that are in the block log above the head are applied again. Reading
runs up to twenty blocks ahead of applying, `next_block_num` is the reader's counter and `i` the one of the applier. Blocks
that are close to the end of the log are pushed, which stores them in the log; those before `undo_point` are only applied.

The block log is taken as what its files stand for, a map from numbers to blocks. Flags that leave out checks, and the
disabled undo database, do not change which blocks are applied and stored and are left out.
-/

namespace Playchain

/-! ### The block log -/

namespace LogMap

variable {β ι τ : Type*} [Blocks β ι τ]

/-- `last` -/
def last (m : FlatMap ℕ β) : Option β := m.toList.getLast?.map Prod.snd

/-- `last_id` -/
def lastId (m : FlatMap ℕ β) : Option ι := (last m).map Blocks.id

/-- `store` -/
def store (m : FlatMap ℕ β) (b : β) : FlatMap ℕ β := m.insert (blockNum b) b

/-- `remove` -/
def remove [DecidableEq ι] (m : FlatMap ℕ β) (id : ι) : FlatMap ℕ β :=
  if (m.find? (Blocks.numFromId β id)).map Blocks.id = some id then m.erase (Blocks.numFromId β id) else m

/-- The loop of `reindex` that removes the last blocks of the log down to a number. Each round removes a block, which
bounds the fuel. -/
def dropAbove [DecidableEq ι] (i : ℕ) : ℕ → FlatMap ℕ β → FlatMap ℕ β
  | 0, m => m
  | fuel + 1, m =>
    match lastId m with
    | none => m
    | some lastId => if Blocks.numFromId β lastId ≤ i then m else dropAbove i fuel (remove m lastId)

end LogMap

/-! ### Pushing -/

/-- The block level of `database` with the blocks of its log. -/
structure LoggedNode (σ β ι τ : Type*) where
  node : Node σ β ι τ
  /-- `_block_id_to_block` -/
  log : FlatMap ℕ β

section LoggedNode

variable {σ β ι τ : Type*} [DecidableEq ι] [Blocks β ι τ] [ChainRules σ β ι τ]

/-- `start_block` -/
def ForkDatabase.startBlock (f : ForkDatabase β) (b : β) : ForkDatabase β :=
  { f with
    index := if (f.fetchBlock (Blocks.id b)).isSome then f.index else { ref := f.nextRef, data := b } :: f.index
    head := some { ref := f.nextRef, data := b }
    nextRef := f.nextRef + 1 }

namespace LoggedNode

/-- `head_block_num` -/
def headNum (n : LoggedNode σ β ι τ) : ℕ := n.node.headNum

/-- Apply a block in a session of its own, store it and commit. -/
def applyInSession (n : LoggedNode σ β ι τ) (b : β) : Except (LoggedNode σ β ι τ) (LoggedNode σ β ι τ) :=
  match n.node.applyInSession b with
  | .ok m => .ok ⟨m, LogMap.store n.log b⟩
  | .error m => .error { n with node := m }

/-- Apply the blocks of the good fork again. -/
def restoreBranch : List (ForkItem β) → LoggedNode σ β ι τ → Except (LoggedNode σ β ι τ) (LoggedNode σ β ι τ)
  | [], n => .ok n
  | it :: rest, n => do
    let n ← n.applyInSession it.data
    restoreBranch rest n

/-- Pop blocks until a given one is the head; they stay in the log. -/
def popTo (n : LoggedNode σ β ι τ) (root : ι) : Except (LoggedNode σ β ι τ) (LoggedNode σ β ι τ) :=
  match n.node.popTo root with
  | .ok m => .ok { n with node := m }
  | .error m => .error { n with node := m }

/-- What is done after a block of the new fork has failed. -/
def switchBack (n : LoggedNode σ β ι τ) (failed second : List (ForkItem β)) :
    Except (LoggedNode σ β ι τ) (LoggedNode σ β ι τ) := do
  let n := { n with node := { n.node with fork := (n.node.fork.removeAll failed).setHead second.head? } }
  let n ← n.popTo (Node.branchRoot second)
  restoreBranch second.reverse n

/-- Push all blocks on the new fork. -/
def pushBranch (second : List (ForkItem β)) : List (ForkItem β) → LoggedNode σ β ι τ →
    Except (PushFailure ι × LoggedNode σ β ι τ) (LoggedNode σ β ι τ)
  | [], n => .ok n
  | it :: rest, n =>
    match n.applyInSession it.data with
    | .ok n => pushBranch second rest n
    | .error n =>
      match n.switchBack (it :: rest) second with
      | .ok n => .error (.apply it.id, n)
      | .error n => .error (.pop, n)

/-- Switch to the branch of a new head. -/
def switchForks (n : LoggedNode σ β ι τ) (newHead : ForkItem β) :
    Except (PushFailure ι × LoggedNode σ β ι τ) (LoggedNode σ β ι τ) :=
  match n.node.fork.fetchBranchFrom newHead.id n.node.headId with
  | none => .error (.branch, n)
  | some (first, second) =>
    match n.popTo (Node.branchRoot second) with
    | .error n => .error (.pop, n)
    | .ok n => pushBranch second first.reverse n

/-- `push_block`; no transactions are pending while a chain is opened. -/
def pushBlock (n : LoggedNode σ β ι τ) (b : β) :
    Except (PushFailure ι × LoggedNode σ β ι τ) (LoggedNode σ β ι τ) :=
  match n.node.fork.pushBlock b with
  | .error e => .error (.fork e, n)
  | .ok fork =>
    let n := { n with node := { n.node with fork := fork } }
    match fork.head with
    | none => .ok n
    | some newHead =>
      if newHead.previousId ≠ n.node.headId then
        if n.headNum < newHead.num then n.switchForks newHead else .ok n
      else
        match n.applyInSession b with
        | .ok n => .ok n
        | .error n =>
          .error (.apply (Blocks.id b), { n with node := { n.node with fork := n.node.fork.remove (Blocks.id b) } })

/-- `apply_block`, outside of any session and without storing the block. -/
def applyBlock (n : LoggedNode σ β ι τ) (b : β) : Except (LoggedNode σ β ι τ) (LoggedNode σ β ι τ) :=
  match n.node.applyBlock b with
  | .ok m => .ok { n with node := m }
  | .error m => .error { n with node := m }

/-- `fetch_block_by_number` -/
def fetchBlockByNumber (n : LoggedNode σ β ι τ) (num : ℕ) : Option β :=
  match n.node.fork.index.filter fun it ↦ it.num = num with
  | [it] => some it.data
  | _ => n.log.find? num

end LoggedNode

/-! ### The loop -/

/-- Why reindexing fails. -/
inductive ReindexFailure (ι : Type*) where
  /-- The head block is not found. -/
  | headBlock
  /-- `apply_block` throws. -/
  | apply
  /-- `push_block` throws. -/
  | push (e : PushFailure ι)

/-- The variables of the loop. -/
structure Reindexing (σ β ι τ : Type*) where
  chain : LoggedNode σ β ι τ
  /-- The blocks that have been read and not yet applied. -/
  blocks : List β := []
  nextBlockNum : ℕ
  i : ℕ

namespace Reindexing

/-- The next block is read. -/
def read (lastBlockNum : ℕ) (r : Reindexing σ β ι τ) : Reindexing σ β ι τ :=
  match r.chain.log.find? r.nextBlockNum with
  | some block => { r with blocks := r.blocks ++ [block], nextBlockNum := r.nextBlockNum + 1 }
  | none =>
    -- a gap: the blocks after it are dropped, and no more blocks are loaded
    { r with
      chain := { r.chain with log := LogMap.dropAbove r.i (r.chain.log.size + 1) r.chain.log }
      nextBlockNum := lastBlockNum + 1 }

/-- The block at the front of the queue is applied. -/
def apply (undoPoint : ℕ) (r : Reindexing σ β ι τ) (block : β) (rest : List β) :
    Except (ReindexFailure ι) (Reindexing σ β ι τ) :=
  if r.i < undoPoint then
    match r.chain.applyBlock block with
    | .ok chain => .ok { r with chain := chain, blocks := rest, i := r.i + 1 }
    | .error _ => .error .apply
  else
    match r.chain.pushBlock block with
    | .ok chain => .ok { r with chain := chain, blocks := rest, i := r.i + 1 }
    | .error (e, _) => .error (.push e)

/-- One round of the loop. -/
def round (lastBlockNum undoPoint : ℕ) (r : Reindexing σ β ι τ) :
    Option (Except (ReindexFailure ι) (Reindexing σ β ι τ ⊕ LoggedNode σ β ι τ)) :=
  if r.nextBlockNum ≤ lastBlockNum ∧ r.blocks.length < 20 then some (.ok (.inl (r.read lastBlockNum)))
  else
    match r.blocks with
    | [] => some (.ok (.inr r.chain))
    | block :: rest => some ((r.apply undoPoint block rest).map Sum.inl)

end Reindexing

namespace LoggedNode

/-- `undo_point` -/
def undoPoint (lastBlockNum : ℕ) : ℕ := if lastBlockNum < 50 then 0 else lastBlockNum - 50

/-- What comes before the loop: the fork database starts from the head block if all blocks are pushed. -/
def startReindex (n : LoggedNode σ β ι τ) (lastBlockNum : ℕ) : Except (ReindexFailure ι) (LoggedNode σ β ι τ) :=
  if undoPoint lastBlockNum ≤ n.headNum ∧ 0 < n.headNum then
    match n.fetchBlockByNumber n.headNum with
    | some b => .ok { n with node := { n.node with fork := n.node.fork.startBlock b } }
    | none => .error .headBlock
  else .ok n

/-- `reindex`. Each block is read once and applied once, which bounds the rounds. -/
def reindex (n : LoggedNode σ β ι τ) : Option (Except (ReindexFailure ι) (LoggedNode σ β ι τ)) :=
  match LogMap.last n.log with
  | none => some (.ok n)
  | some lastBlock =>
    let lastBlockNum := blockNum lastBlock
    if lastBlockNum ≤ n.headNum then some (.ok n)
    else
      match n.startReindex lastBlockNum with
      | .error e => some (.error e)
      | .ok chain =>
        Loop.iterate (Reindexing.round lastBlockNum (undoPoint lastBlockNum)) (2 * (lastBlockNum - n.headNum) + 1)
          { chain := chain, nextBlockNum := n.headNum + 1, i := n.headNum + 1 }

end LoggedNode

end LoggedNode

end Playchain
