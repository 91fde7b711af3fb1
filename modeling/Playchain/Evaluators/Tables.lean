import Playchain.Evaluators.Validators

/-!
# Table evaluators

Creating and updating tables, and the sign of life that keeps a table available for reservations.
-/

namespace Playchain

/-- `table_object::set_weight` -/
def setWeight (d : Database) (table : TableId) : Except ChainError Database := do
  let t ← d.tableById table
  if hardforkPlaychain2Time ≤ d.headBlockTime then
    let newWeight := (← d.roomById t.room).rating
    if isTableAlive d table then
      return { d with tables := d.tables.set table { t with weight := newWeight } }
    else
      let newWeight := if newWeight ≤ 0 then int32Min else newWeight
      return { d with tables := d.tables.set table { t with weight := int32Neg newWeight } }
  else
    return { d with tables := d.tables.set table { t with weight := 0 } }

/-- `alive_for_table` -/
def aliveForTable (d : Database) (table : TableId) : Except ChainError Database := do
  let _ ← d.tableById table
  let expiration :=
    TimePointSec.addSeconds d.headBlockTime d.parameters.tableAliveExpirationSeconds
  match d.tableAlives.findKey? table with
  | some alive =>
    setWeight { d with
      tableAlives := d.tableAlives.modify alive.1 fun a ↦ { a with expiration := expiration } } table
  | none =>
    let alives ← orViolation (d.tableAlives.create?
      { table := table, created := d.headBlockTime, expiration := expiration })
    setWeight { d with tableAlives := alives } table

/-- `table_create_evaluator` -/
def evaluateTableCreate (d : Database) (op : TableCreate) : Except ChainError Unit := do
  fcAssert (isRoomExists d op.room = true) "Room does not exist"
  fcAssert ((← isRoomOwnerOf d op.owner op.room) = true) "Wrong room owner"

def applyTableCreate (d : Database) (op : TableCreate) : Except ChainError Database := do
  let _ ← d.tableById nullTable
  setWeight { d with
    tables := d.tables.create
      { room := op.room
        metadata := op.metadata
        requiredWitnesses := op.requiredWitnesses
        minAcceptedProposalAsset := op.minAcceptedProposalAsset
        gameCreated := TimePointSec.min
        gameExpiration := TimePointSec.maximum } } d.tables.nextId

/-- `table_update_evaluator` -/
def evaluateTableUpdate (d : Database) (op : TableUpdate) : Except ChainError Unit := do
  fcAssert (isTableExists d op.table = true) "Table does not exist"
  let t ← d.tableById op.table
  fcAssert ((← isTableOwner d t op.owner) = true) "Wrong table owner"
  fcAssert (t.isFree = true) "Can't update table while playing"
  fcAssert (isTableVoting d op.table = false) "Can't update table while voting"
  if hardforkPlaychain3Time ≤ d.headBlockTime ∧ t.metadata ≠ op.metadata then
    fcAssert (isTableAlive d op.table = false) "Can't update table metadata while table alive"

def applyTableUpdate (d : Database) (op : TableUpdate) : Except ChainError Database :=
  d.modifyTable op.table fun t ↦ return { t with
    metadata := op.metadata
    requiredWitnesses := op.requiredWitnesses
    minAcceptedProposalAsset := op.minAcceptedProposalAsset }

/-- `table_alive_evaluator` -/
def evaluateTablesAlive (d : Database) (op : TablesAlive) : Except ChainError Unit :=
  op.tables.elements.forM fun table ↦ do
    fcAssert (isTableExists d table = true) "Table does not exist"
    fcAssert ((← isTableOwner d (← d.tableById table) op.owner) = true) "Wrong table owner"

def applyTablesAlive (d : Database) (op : TablesAlive) : Except ChainError Database :=
  op.tables.elements.foldlM aliveForTable d

end Playchain
