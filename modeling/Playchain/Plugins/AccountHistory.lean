import Playchain.Db.UndoDatabase

/-!
# The account history plugin

For every applied operation the plugin keeps an `operation_history_object`, and for every account that
the operation applies to a record in the list of this account. The records of an account are linked by
`next` from the most recent one on; **the id zero ends a list**, and it is also the id of the first
record of all. When an account has too many records, its earliest one is removed, and with partial
operations the operation goes with the last record that refers to it.

An operation takes up one id, whether it is stored or not. Undoing a block has to take the ids back, and
the undo database learns about them only from an object that is created: this is why `skip_oho_id`
creates an object and removes it again when it comes first in a block.

An exception stops the plugin in the middle of a block and is dropped (`GRAPHENE_TRY_NOTIFY`).
-/

namespace Playchain.AccountHistory

/-! ### Objects -/

/-- The indices: operations, records of accounts, statistics of accounts. -/
inductive HistoryIndex where
  | operation
  | record
  | statistics

/-- The order of the indices. -/
def HistoryIndex.toNat : HistoryIndex → ℕ
  | operation => 0
  | record => 1
  | statistics => 2

instance : LinearOrder HistoryIndex := LinearOrder.lift' HistoryIndex.toNat (by
  intro x y h
  cases x <;> cases y <;> first | rfl | cases h)

/-- The id of an object: its index, and its instance in the index. -/
abbrev ObjectId := HistoryIndex ×ₗ ℕ

instance : ObjectIds ObjectId HistoryIndex where
  objectId s n := toLex (s, n)
  objectId_inj h := by simpa using h

/-- `account_transaction_history_object` -/
structure AccountRecord where
  account : ℕ
  operationId : ℕ
  sequence : ℕ
  next : ℕ
  deriving DecidableEq

/-- `account_statistics_object`, as far as it is about the history. -/
structure AccountStatistics where
  mostRecentOp : ℕ := 0
  totalOps : ℕ := 0
  removedOps : ℕ := 0
  deriving DecidableEq

/-- The objects. An operation is stored with what is known about it (`τ`); the object that is created only
to take up an id has nothing. The statistics of an account have the number of the account. -/
inductive HistoryObject (τ : Type) where
  | operation (content : Option τ)
  | record (r : AccountRecord)
  | statistics (s : AccountStatistics)
  deriving DecidableEq

/-- The unique keys of records: `by_seq` and `by_op`. -/
def AccountRecord.collide (r r' : AccountRecord) : Bool :=
  r.account = r'.account && (r.sequence = r'.sequence || r.operationId = r'.operationId)

instance (τ : Type) : UniqueKeys (HistoryObject τ) where
  collide
    | .record r, .record r' => r.collide r'
    | _, _ => false
  collide_comm a b := by
    cases a <;> cases b <;> simp only [AccountRecord.collide, eq_comm]

instance (τ : Type) : SecondaryIndex ObjectId (HistoryObject τ) Unit where
  empty := ()

/-- The objects of the plugin. -/
abbrev HistoryDatabase (τ : Type) := ObjectDatabase ObjectId HistoryIndex (HistoryObject τ) Unit

/-- What a block has done so far. -/
abbrev HistoryUndo (τ : Type) := UndoState ObjectId HistoryIndex (HistoryObject τ)

section Lookups

variable {τ : Type}

/-- The operation with an id. -/
def operation? (d : HistoryDatabase τ) (n : ℕ) : Option (Option τ) :=
  match d.objects.find? (toLex (.operation, n)) with
  | some (.operation content) => some content
  | _ => none

/-- The record with an id. -/
def record? (d : HistoryDatabase τ) (n : ℕ) : Option AccountRecord :=
  match d.objects.find? (toLex (.record, n)) with
  | some (.record r) => some r
  | _ => none

/-- `account_id(db).statistics(db)` -/
def statistics? (d : HistoryDatabase τ) (account : ℕ) : Option AccountStatistics :=
  match d.objects.find? (toLex (.statistics, account)) with
  | some (.statistics s) => some s
  | _ => none

/-- All records with their ids. -/
def records (d : HistoryDatabase τ) : List (ℕ × AccountRecord) :=
  d.objects.toList.filterMap fun p ↦
    match ofLex p.1, p.2 with
    | (.record, n), .record r => some (n, r)
    | _, _ => none

/-- The records of an account in the order of `by_seq`. -/
def bySeq (d : HistoryDatabase τ) (account : ℕ) : List (ℕ × AccountRecord) :=
  ((records d).filter fun p ↦ p.2.account = account).insertionSort
    fun p q ↦ p.2.sequence ≤ q.2.sequence

/-- Whether a record refers to an operation: `by_opid`. -/
def hasReference (d : HistoryDatabase τ) (operationId : ℕ) : Bool :=
  (records d).any fun p ↦ p.2.operationId = operationId

end Lookups

/-! ### The plugin -/

/-- The options of the plugin. -/
structure Config where
  /-- `track-account`; all accounts are tracked if there is none. -/
  trackedAccounts : FlatSet ℕ := ∅
  /-- `partial-operations` -/
  partialOperations : Bool := false
  /-- `max-ops-per-account` -/
  maxOpsPerAccount : ℕ := 2 ^ 64 - 1

/-- An applied operation: what is stored about it, and the accounts it applies to. -/
structure AppliedOperation (τ : Type) where
  content : τ
  impacted : FlatSet ℕ

/-- The state of the plugin in a block. -/
structure Session (τ : Type) where
  db : HistoryDatabase τ
  undo : HistoryUndo τ
  /-- Nothing has been created for an operation of the block. -/
  isFirst : Bool := true
  /-- The object created for the operation at hand. -/
  oho : Option ℕ := none

section Plugin

variable {τ : Type}

namespace Session

/-- A change of the objects. A failure carries what it leaves behind. -/
def call (s : Session τ) (c : Call ObjectId HistoryIndex (HistoryObject τ)) :
    Except (Session τ) (Session τ) :=
  match c.run s.db s.undo with
  | .ok (d, u) => .ok { s with db := d, undo := u }
  | .error (d, u) => .error { s with db := d, undo := u }

/-- `use_next_id` of the index of operations -/
def useNextId (s : Session τ) : Session τ :=
  { s with db := { s.db with
    nextId := Function.update s.db.nextId .operation (s.db.nextId .operation + 1) } }

/-- `skip_oho_id`. The undo database is told about the first id of a block only. -/
def skipOhoId (enabled : Bool) (s : Session τ) : Except (Session τ) (Session τ) :=
  if s.isFirst ∧ enabled then do
    let id := s.db.nextId .operation
    let s ← s.call (.create .operation (.operation none))
    let s ← s.call (.remove (toLex (.operation, id)))
    return { s with isFirst := false }
  else return s.useNextId

/-- `create_oho` -/
def createOho (s : Session τ) (op : AppliedOperation τ) : Except (Session τ) (Session τ) := do
  let id := s.db.nextId .operation
  let s := { s with isFirst := false }
  let s ← s.call (.create .operation (.operation (some op.content)))
  return { s with oho := some id }

/-- `create_oho` unless it has been done. -/
def ensureOho (s : Session τ) (op : AppliedOperation τ) : Except (Session τ) (Session τ) :=
  if s.oho.isSome then return s else s.createOho op

/-- Add a record at the front of the list of an account. -/
def appendRecord (s : Session τ) (account operationId : ℕ) : Except (Session τ) (Session τ) :=
  match statistics? s.db account with
  | none => .error s
  | some stats => do
    let id := s.db.nextId .record
    let s ← s.call (.create .record (.record
      { account := account
        operationId := operationId
        sequence := stats.totalOps + 1
        next := stats.mostRecentOp }))
    s.call (.modify (toLex (.statistics, account)) fun _ ↦ .statistics
      { stats with mostRecentOp := id, totalOps := stats.totalOps + 1 })

/-- The next pointer of a record is reset. -/
def clearNext (s : Session τ) (p : ℕ × AccountRecord) : Except (Session τ) (Session τ) :=
  s.call (.modify (toLex (.record, p.1)) fun _ ↦ .record { p.2 with next := 0 })

/-- An operation is removed if it is configured so and no reference is left. -/
def dropOperation (cfg : Config) (s : Session τ) (operationId : ℕ) :
    Except (Session τ) (Session τ) :=
  if cfg.partialOperations ∧ hasReference s.db operationId = false then
    s.call (.remove (toLex (.operation, operationId)))
  else return s

/-- Remove the earliest record of an account; `latest` is the one just added. -/
def removeEarliest (cfg : Config) (s : Session τ) (account latest : ℕ) (stats : AccountStatistics) :
    Except (Session τ) (Session τ) :=
  match bySeq s.db account with
  | [] => return s
  | first :: rest =>
    if first.1 ≠ latest then do
      let s ← s.call (.remove (toLex (.record, first.1)))
      let s ← s.call (.modify (toLex (.statistics, account)) fun _ ↦ .statistics
        { stats with removedOps := stats.removedOps + 1 })
      let s ← match rest with
        | [] => pure s
        | second :: _ => s.clearNext second
      s.dropOperation cfg first.2.operationId
    else return s

/-- `add_account_history` -/
def addAccountHistory (cfg : Config) (s : Session τ) (account operationId : ℕ) :
    Except (Session τ) (Session τ) := do
  let latest := s.db.nextId .record
  let s ← s.appendRecord account operationId
  match statistics? s.db account with
  | none => .error s
  | some stats =>
    if cfg.maxOpsPerAccount < stats.totalOps - stats.removedOps then
      s.removeEarliest cfg account latest stats
    else return s

/-- The object of the operation is created for the first tracked account that it applies to. -/
def addTracked (cfg : Config) (op : AppliedOperation τ) (s : Session τ) (account : ℕ) :
    Except (Session τ) (Session τ) :=
  if op.impacted.contains account then do
    let s ← s.ensureOho op
    s.addAccountHistory cfg account (s.oho.getD 0)
  else return s

/-- The records of an operation. -/
def addRecords (cfg : Config) (op : AppliedOperation τ) (s : Session τ) :
    Except (Session τ) (Session τ) :=
  if cfg.trackedAccounts.isEmpty then do
    let s ← if op.impacted.isEmpty then pure s else s.ensureOho op
    if 0 < cfg.maxOpsPerAccount then
      op.impacted.elements.foldlM (fun s account ↦
        s.addAccountHistory cfg account (s.oho.getD 0)) s
    else return s
  else if 0 < cfg.maxOpsPerAccount then
    cfg.trackedAccounts.elements.foldlM (addTracked cfg op) s
  else return s

/-- One turn of the loop of `update_account_histories`. -/
def indexOperation (cfg : Config) (enabled : Bool) (s : Session τ) :
    Option (AppliedOperation τ) → Except (Session τ) (Session τ)
  | none => s.skipOhoId enabled
  | some op => do
    let s := { s with oho := none }
    if cfg.maxOpsPerAccount = 0 ∧ cfg.partialOperations then s.skipOhoId enabled
    else
      let s ← if cfg.partialOperations then pure s else s.createOho op
      let s ← s.addRecords cfg op
      if cfg.partialOperations ∧ s.oho = none then s.skipOhoId enabled else return s

/-- `update_account_histories`, as it is notified: an exception ends it. -/
def updateAccountHistories (cfg : Config) (enabled : Bool) (s : Session τ)
    (hist : List (Option (AppliedOperation τ))) : Session τ :=
  match hist.foldlM (indexOperation cfg enabled) s with
  | .ok s => s
  | .error s => s

end Session

/-! ### Blocks -/

/-- A block: the number of accounts it creates, and the applied operations; an operation of a proposal
that has failed is taken away and leaves its place. -/
structure Block (τ : Type) where
  newAccounts : ℕ := 0
  hist : List (Option (AppliedOperation τ)) := []

/-- The statistics of a new account. -/
def createAccount (s : Session τ) : Session τ :=
  match s.call (.create .statistics (.statistics {})) with
  | .ok s => s
  | .error s => s

/-- The block, with its accounts created first. -/
def runBlock (cfg : Config) (enabled : Bool) (d : HistoryDatabase τ) (undo : HistoryUndo τ)
    (b : Block τ) : Session τ :=
  (createAccount^[b.newAccounts] { db := d, undo := undo }).updateAccountHistories cfg enabled b.hist

/-- The plugin's objects with their undo records. -/
abbrev HistoryStore (τ : Type) := UndoDatabase ObjectId HistoryIndex (HistoryObject τ) Unit

/-- The block in a session of the undo database. -/
def openBlock (cfg : Config) (u : HistoryStore τ) (b : Block τ) : HistoryStore τ :=
  let u := u.startUndoSession
  let s := runBlock cfg true u.db u.top b
  { u with db := s.db, stack := s.undo :: u.stack.tail }

/-- `push_block`: the session is committed. -/
def pushBlock (cfg : Config) (u : HistoryStore τ) (b : Block τ) : HistoryStore τ :=
  ((openBlock cfg u b).commit).getD (openBlock cfg u b)

/-- `reindex`: the undo database is disabled, and nothing is recorded. -/
def replayBlock (cfg : Config) (u : HistoryStore τ) (b : Block τ) : HistoryStore τ :=
  { u with db := (runBlock cfg false u.db {} b).db }

/-- What a failed call leaves behind. -/
def settle (u : HistoryStore τ) : Except (HistoryDatabase τ) (HistoryStore τ) → HistoryStore τ
  | .ok u' => u'
  | .error d => { u with db := d }

/-- The store at genesis. -/
def genesis (accounts : ℕ) : HistoryStore τ where
  db := (createAccount^[accounts]
    { db := { objects := ∅, nextId := fun _ ↦ 0, secondary := () }, undo := {} }).db

/-- **Runs.** The store after a sequence of blocks that are pushed, replayed at the start, undone because
they fail later, or popped, and the blocks of the chain, the latest one first. The condition is about the
store before a block and the block. -/
inductive Reached (cfg : Config) (allowed : HistoryStore τ → Block τ → Prop) :
    HistoryStore τ → List (Block τ) → Prop
  | genesis (accounts : ℕ) : Reached cfg allowed (genesis accounts) []
  | replay {u chain} (b : Block τ) (hstack : u.stack = []) (hallowed : allowed u b) :
    Reached cfg allowed u chain → Reached cfg allowed (replayBlock cfg u b) (b :: chain)
  | push {u chain} (b : Block τ) (hallowed : allowed u b) :
    Reached cfg allowed u chain → Reached cfg allowed (pushBlock cfg u b) (b :: chain)
  | fail {u chain} (b : Block τ) (hallowed : allowed u b) (order : UndoOrder (openBlock cfg u b).top) :
    Reached cfg allowed u chain →
      Reached cfg allowed (settle (openBlock cfg u b) ((openBlock cfg u b).undo order)) chain
  | pop {u chain} (b : Block τ) (order : UndoOrder u.top) (hstack : u.stack ≠ []) :
    Reached cfg allowed u (b :: chain) → Reached cfg allowed (settle u (u.popCommit order)) chain

end Plugin

end Playchain.AccountHistory
