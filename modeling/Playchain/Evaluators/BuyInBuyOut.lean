import Playchain.Evaluators.Tables

/-!
# Buy-in and buy-out evaluators

Money enters a table directly (`buyInTable`) or through a reservation that the block tasks allocate
to a table and the table owner resolves (`buyInReserve`, `buyInReservingResolve`). It leaves by
`buyOutTable`, at once if the player is not in a game or has enough waiting at the table, and as a
`PendingBuyOutObject` otherwise.
-/

namespace Playchain

/-! ### The stay of a player at a table -/

/-- `prolong_life_for_by_in` -/
def prolongLifeForByIn (d : Database) (buyIn : ℕ) : Database :=
  { d with
    buyIns := d.buyIns.modify buyIn fun b ↦ { b with
      updated := d.headBlockTime
      expiration := TimePointSec.addSeconds d.headBlockTime d.parameters.buyInExpirationSeconds } }

/-- `register_buy_in` -/
def registerBuyIn (d : Database) (player : PlayerId) (table : TableId) :
    Except ChainError Database :=
  match d.buyIns.findKey? (table, player) with
  | some buyIn => return prolongLifeForByIn d buyIn.1
  | none => do
    let buyIns ← orViolation (d.buyIns.create?
      { player := player
        table := table
        created := d.headBlockTime
        updated := d.headBlockTime
        expiration := TimePointSec.addSeconds d.headBlockTime d.parameters.buyInExpirationSeconds })
    return { d with buyIns := buyIns }

/-- `register_buy_in_alive` -/
def registerBuyInAlive (d : Database) (player : PlayerId) (table : TableId) :
    Except ChainError Database := do
  aliveForTable (← registerBuyIn d player table) table

/-- `cleanup_buy_ins` -/
def cleanupBuyIns (d : Database) (table : TableId) : Database :=
  let buyIns := d.buyIns.toList.filter fun b ↦ b.2.table = table
  buyIns.foldl (fun d b ↦ { d with buyIns := d.buyIns.remove b.1 }) d

/-! ### Buying out -/

/-- `buy_out_table` -/
def buyOutTable (d : Database) (player : PlayerId) (table : TableId) (amount : Asset) :
    Except ChainError Database := do
  let t ← d.tableById table
  let account := (← d.playerById player).account
  let allowBuyOut ← (
    if t.isPlaying player then
      match t.cash.find? player with
      | some cash => amount.le cash
      | none => pure false
    else pure true)
  let pending := d.pendingBuyOuts.findKey? (player, table)
  if allowBuyOut then
    let d ← d.adjustBalance account amount
    let d ← d.modifyTable table fun t ↦ t.adjustCash player (-amount)
    match pending with
    | some p => return { d with pendingBuyOuts := d.pendingBuyOuts.remove p.1 }
    | none => return d
  else if 0 < amount.amount then
    match pending with
    | none =>
      let pendingBuyOuts ← orViolation (d.pendingBuyOuts.create?
        { player := player, table := table, amount := amount })
      return { d with pendingBuyOuts := pendingBuyOuts }
    | some p =>
      return { d with
        pendingBuyOuts := d.pendingBuyOuts.modify p.1 fun b ↦ { b with amount := amount } }
  else
    match pending with
    | some p => return { d with pendingBuyOuts := d.pendingBuyOuts.remove p.1 }
    | none => return d

/-- `expire_buy_in` -/
def expireBuyIn (d : Database) (buyIn : ℕ) (player : PlayerId) (table : TableId) :
    Except ChainError Database := do
  let account := (← d.playerById player).account
  let amount := (← d.tableById table).getCashBalance player
  let d ← (if 0 < amount.amount then buyOutTable d player table amount else pure d)
  let t ← d.tableById table
  if (t.getCashBalance player).amount < 1 then
    let d ← (
      if 0 < amount.amount then do
        let owner ← d.tableOwner t
        pure (d.pushAppliedOperation (.buyInExpire account table owner amount))
      else pure d)
    return { d with buyIns := d.buyIns.remove buyIn }
  else
    return prolongLifeForByIn d buyIn

/-! ### Direct buy-in and buy-out -/

/-- `buy_in_table_evaluator` -/
def evaluateBuyInTable (d : Database) (op : BuyInTable) : Except ChainError Unit := do
  fcAssert (isPlayerExists d op.player = true) "Only player can participate game"
  fcAssert (isTableExists d op.table = true) "Table does not exist"
  let t ← d.tableById op.table
  fcAssert ((← isTableOwner d t op.tableOwner) = true) "Wrong table owner"
  fcAssert ((← d.tableOwner t) ≠ op.player) "Can't buyin to own table"

def applyBuyInTable (d : Database) (op : BuyInTable) : Except ChainError Database := do
  let player ← d.getPlayer op.player
  let d ← d.adjustBalance op.player (-op.amount)
  let d ← d.modifyTable op.table fun t ↦ t.adjustCash player.1 op.amount
  registerBuyInAlive d player.1 op.table

/-- `buy_out_table_evaluator` -/
def evaluateBuyOutTable (d : Database) (op : BuyOutTable) : Except ChainError Unit := do
  fcAssert (isPlayerExists d op.player = true) "Only player can out game"
  fcAssert (isTableExists d op.table = true) "Table does not exist"
  let t ← d.tableById op.table
  fcAssert ((← isTableOwner d t op.tableOwner) = true) "Wrong table owner"
  let player ← d.getPlayer op.player
  fcAssert (t.isWaitingAtTable player.1 = true ∨ t.isPlaying player.1 = true)
    "There is no the player at the table"
  if !t.isPlaying player.1 then
    let cash ← orMissing (t.cash.find? player.1)
    fcAssert ((← op.amount.le cash) = true) "Insufficient funds"

def applyBuyOutTable (d : Database) (op : BuyOutTable) : Except ChainError Database := do
  let player ← d.getPlayer op.player
  buyOutTable d player.1 op.table op.amount

/-! ### Reservations -/

/-- `buy_in_reserve_evaluator` -/
def evaluateBuyInReserve (d : Database) (op : BuyInReserve) : Except ChainError Unit := do
  let _ ← VersionExt.fromVariant op.protocolVersion {}
  fcAssert (isPlayerExists d op.player = true) "Only player can reserve place"
  fcAssert (d.pendingBuyIns.findKey? (op.player, op.uid) = none) "Buy-in must not exist"
  fcAssert ((d.pendingBuyIns.toList.filter fun b ↦ b.2.player = op.player).length <
    d.parameters.amountReservingPlacesPerUser) "Limit is exceeded. Client Code = 20180011"

def applyBuyInReserve (d : Database) (op : BuyInReserve) : Except ChainError Database := do
  let _ ← d.pendingBuyInById nullPendingBuyIn
  let player ← d.getPlayer op.player
  let protocolVersion ← VersionExt.fromVariant op.protocolVersion {}
  let d ← d.adjustBalance op.player (-op.amount)
  let pendingBuyIns ← orViolation (d.pendingBuyIns.create?
    { player := op.player
      playerInternal := player.1
      uid := op.uid
      amount := op.amount
      metadata := op.metadata
      protocolVersion := protocolVersion
      created := d.headBlockTime
      expiration := TimePointSec.addSeconds d.headBlockTime
        d.parameters.pendingBuyinProposalLifetimeLimitInSeconds })
  return { d with pendingBuyIns := pendingBuyIns }

/-- `cancel_pending_buyin` -/
def cancelPendingBuyin (d : Database) (id : PendingBuyInId) (buyIn : PendingBuyInObject) :
    Except ChainError Database := do
  let d ← (
    if buyIn.isAllocated then do
      let player ← d.getPlayer buyIn.player
      let d :=
        match d.roomRatingMeasurements.findKey? id with
        | some m => { d with roomRatingMeasurements := d.roomRatingMeasurements.remove m.1 }
        | none => d
      d.modifyTable buyIn.table fun t ↦ return t.removePendingProposal player.1
    else pure d)
  let d ← d.adjustBalance buyIn.player buyIn.amount
  return { d with pendingBuyIns := d.pendingBuyIns.remove id }

/-- `buy_in_cancel_evaluator` -/
def evaluateBuyInReservingCancel (d : Database) (op : BuyInReservingCancel) :
    Except ChainError Unit := do
  fcAssert (isPlayerExists d op.player = true) "Only player can cancel place reserving"
  fcAssert ((d.pendingBuyIns.findKey? (op.player, op.uid)).isSome = true) "Buy-in must exist"

def applyBuyInReservingCancel (d : Database) (op : BuyInReservingCancel) :
    Except ChainError Database := do
  let buyIn ← orMissing (d.pendingBuyIns.findKey? (op.player, op.uid))
  cancelPendingBuyin d buyIn.1 buyIn.2

/-- The reservations of an account, in the order of its index. -/
def pendingBuyInsOf (d : Database) (player : AccountId) : List (PendingBuyInId × PendingBuyInObject) :=
  d.pendingBuyIns.toList.filter fun b ↦ b.2.player = player

/-- `buy_in_reserving_cancel_all_evaluator` -/
def evaluateBuyInReservingCancelAll (d : Database) (op : BuyInReservingCancelAll) :
    Except ChainError Unit := do
  fcAssert (isPlayerExists d op.player = true) "Only player can cancel place reserving"
  fcAssert (pendingBuyInsOf d op.player ≠ []) "There no any pending buyin"

/-- The source looks for the account's first reservation until none is left; a cancellation removes
exactly the reservation it is given, so this visits the reservations in their order. -/
def applyBuyInReservingCancelAll (d : Database) (op : BuyInReservingCancelAll) :
    Except ChainError Database :=
  (pendingBuyInsOf d op.player).foldlM (fun d b ↦ cancelPendingBuyin d b.1 b.2) d

/-- `buy_in_reserving_resolve_evaluator` -/
def evaluateBuyInReservingResolve (d : Database) (op : BuyInReservingResolve) :
    Except ChainError Unit := do
  fcAssert (isTableExists d op.table = true) "Table does not exist"
  let t ← d.tableById op.table
  fcAssert ((← isTableOwner d t op.tableOwner) = true) "Wrong table owner"
  fcAssert (isPendingBuyInExists d op.pendingBuyin = true) "Pending buy-in does not exist"
  let buyIn ← d.pendingBuyInById op.pendingBuyin
  let player ← d.getPlayer buyIn.player
  fcAssert (t.pendingProposals.find? player.1 = some op.pendingBuyin)
    "Pending buy-in does not exist at table"

def applyBuyInReservingResolve (d : Database) (op : BuyInReservingResolve) :
    Except ChainError Database := do
  let buyIn ← d.pendingBuyInById op.pendingBuyin
  let player ← d.getPlayer buyIn.player
  let d :=
    match d.roomRatingMeasurements.findKey? op.pendingBuyin with
    | some m =>
      { d with roomRatingMeasurements := d.roomRatingMeasurements.modify m.1 fun m ↦
          { m with waitingResolve := false, weight := 1 } }
    | none => d
  let d ← d.modifyTable op.table fun t ↦
    (t.removePendingProposal player.1).adjustCash player.1 buyIn.amount
  let d := { d with pendingBuyIns := d.pendingBuyIns.remove op.pendingBuyin }
  registerBuyInAlive d player.1 op.table

end Playchain
