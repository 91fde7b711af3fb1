import Playchain.BlockTasks.TableCheck

/-!
# Block tasks on reservations and stays

`allocationOfVacancies` gives waiting reservations a table: the reservations in the order of their
expiration, the tables with the wanted metadata in the order of the index `by_table_choose_algorithm`
(few occupied places first, then high weight, then low id).
-/

namespace Playchain

/-- The report of an expired or replaced reservation, and its mark in the room's rating. -/
def pushPendingBuyExpireOperation (d : Database) (id : PendingBuyInId) (b : PendingBuyInObject)
    (expireByReplacement : Bool) : Except ChainError Database :=
  if b.table ≠ nullTable then do
    let owner ← d.tableOwner (← d.tableById b.table)
    let d := d.pushAppliedOperation (.buyInReservingExpire b.player b.uid b.amount b.metadata
      expireByReplacement b.table owner)
    match d.roomRatingMeasurements.findKey? id with
    | some m =>
      return { d with roomRatingMeasurements := d.roomRatingMeasurements.modify m.1 fun m ↦
        { m with waitingResolve := false, weight := 0 } }
    | none => return d
  else
    return d.pushAppliedOperation (.buyInReservingExpire b.player b.uid b.amount b.metadata
      expireByReplacement nullTable nullAccount)

/-- One turn of `update_expired_pending_buy_in`. -/
def expirePendingBuyIn (d : Database) (p : PendingBuyInId × PendingBuyInObject) :
    Except ChainError Database := do
  let d ← (
    if p.2.isAllocated then do
      let player ← d.getPlayer p.2.player
      d.modifyTable p.2.table fun t ↦ return t.removePendingProposal player.1
    else pure d)
  let d ← d.adjustBalance p.2.player p.2.amount
  let d ← pushPendingBuyExpireOperation d p.1 p.2 false
  return { d with pendingBuyIns := d.pendingBuyIns.remove p.1 }

/-- `update_expired_pending_buy_in` -/
def updateExpiredPendingBuyIn (d : Database) : Except ChainError Database :=
  (dueBy d.pendingBuyIns.toObjectIndex (·.expiration) d.headBlockTime).foldlM expirePendingBuyIn d

/-- `update_expired_buy_in` -/
def updateExpiredBuyIn (d : Database) : Except ChainError Database :=
  (dueBy d.buyIns.toObjectIndex (·.expiration) d.headBlockTime).foldlM (fun d p ↦ do
    let t ← d.tableById p.2.table
    if t.isPlaying p.2.player then return prolongLifeForByIn d p.1
    else expireBuyIn d p.1 p.2.player p.2.table) d

/-! ### Allocation -/

/-- The tables with some metadata in the order of `by_table_choose_algorithm`. -/
def tablesByChooseAlgorithm (d : Database) (metadata : String) : List (TableId × TableObject) :=
  (d.tables.orderedBy fun a b ↦
    a.2.occupiedPlaces < b.2.occupiedPlaces ∨
    (a.2.occupiedPlaces = b.2.occupiedPlaces ∧
      (b.2.weight < a.2.weight ∨ (b.2.weight = a.2.weight ∧ a.1 ≤ b.1)))).filter
    fun p ↦ p.2.metadata = metadata

/-- `create_range`. Before the fourth hard fork the weight takes part in the bounds (`create_range_v1`), which
compare it upwards although the index has heavier tables first. Of the tables with exactly the minimum of
players, what the search returns then depends on the shape of the tree; here it is what the bounds say. -/
def createRange (d : Database) (metadata : String) (minOccupiedPlaces maxOccupiedPlaces : ℕ) :
    List (TableId × TableObject) :=
  (tablesByChooseAlgorithm d metadata).filter fun p ↦
    if hardforkPlaychain4Time ≤ d.headBlockTime then
      minOccupiedPlaces ≤ p.2.occupiedPlaces ∧ p.2.occupiedPlaces ≤ maxOccupiedPlaces
    else
      (minOccupiedPlaces < p.2.occupiedPlaces ∨
        (minOccupiedPlaces = p.2.occupiedPlaces ∧
          d.parameters.minAllowedTableWeightToBeAllocated ≤ p.2.weight)) ∧
      p.2.occupiedPlaces ≤ maxOccupiedPlaces

/-- The conditions of `find_in_range` on one table. -/
def isEligible (d : Database) (b : PendingBuyInObject) (t : TableObject) :
    Except ChainError Bool := do
  if t.weight < d.parameters.minAllowedTableWeightToBeAllocated then return false
  let room ← d.roomById t.room
  if !room.protocolVersion.compatible b.protocolVersion then return false
  if room.owner = b.player then return false
  if t.minAcceptedProposalAsset.assetId ≠ b.amount.assetId then return false
  if ← b.amount.lt t.minAcceptedProposalAsset then return false
  return !(t.isWaitingAtTable b.playerInternal || t.isPlaying b.playerInternal)

/-- `allocate_table`: the reservation it replaces, or the null reservation. -/
def allocateTable (d : Database) (id : PendingBuyInId) (b : PendingBuyInObject) (table : TableId) :
    Except ChainError (PendingBuyInId × Database) := do
  let player ← d.getPlayer b.player
  let (prevProposal, t) := (← d.tableById table).addPendingProposal player.1 id
  let d := { d with tables := d.tables.set table t }
  let room ← d.roomById t.room
  let d := d.pushAppliedOperation (.buyInReservingAllocatedTable b.player b.uid b.amount b.metadata
    table room.owner t.weight room.rating)
  let d := { d with pendingBuyIns := d.pendingBuyIns.modify id fun b ↦ { b with table := table } }
  let measurements ← orViolation (d.roomRatingMeasurements.create?
    { created := d.headBlockTime
      expiration := TimePointSec.addSeconds d.headBlockTime
        (d.parameters.roomRatingMeasurementsAlivePeriods * d.maintenanceInterval)
      room := t.room
      table := table
      associatedBuyin := id
      weight := 0
      waitingResolve := true })
  return (prevProposal, { d with roomRatingMeasurements := measurements })

/-- `find_in_range`: allocate the first eligible table; `none` if there is none. -/
def findInRange (range : List (TableId × TableObject)) (d : Database) (id : PendingBuyInId)
    (b : PendingBuyInObject) : Except ChainError (Option (PendingBuyInId × Database)) := do
  match ← range.findM? fun p ↦ isEligible d b p.2 with
  | none => return none
  | some p => return some (← allocateTable d id b p.1)

/-- One turn of the loop of `allocation_of_vacancies`: first the tables with at least the desired
minimum of players, then all. The source searches the second range twice when the first is empty and
the second search fails; the repetition finds nothing new. -/
def allocateVacancy (s : Database × FlatSet PendingBuyInId)
    (p : PendingBuyInId × PendingBuyInObject) :
    Except ChainError (Database × FlatSet PendingBuyInId) := do
  if p.1 = nullPendingBuyIn then return s
  let reachableMinimum := s.1.parameters.minimumDesiredNumberOfPlayersForTablesAllocation
  let reachableMaximum := decUInt32 s.1.parameters.maximumDesiredNumberOfPlayersForTablesAllocation
  let first ← findInRange
    (createRange s.1 p.2.metadata reachableMinimum reachableMaximum) s.1 p.1 p.2
  let found ← (
    match first with
    | some r => pure (some r)
    | none => findInRange (createRange s.1 p.2.metadata 0 reachableMaximum) s.1 p.1 p.2)
  match found with
  | none => return s
  | some (prevProposal, d) =>
    return (d, if prevProposal ≠ nullPendingBuyIn then s.2.add prevProposal else s.2)

/-- The reservations that are looked at in a block. -/
def unallocatedPendingBuyIns (d : Database) : List (PendingBuyInId × PendingBuyInObject) :=
  ((d.pendingBuyIns.orderedBy fun a b ↦ a.2.expiration < b.2.expiration ∨
    (a.2.expiration = b.2.expiration ∧ a.1 ≤ b.1)).filter fun p ↦ !p.2.isAllocated).takeWhile
    (fun p ↦ d.headBlockTime < p.2.expiration) |>.take d.parameters.pendingBuyInAllocatePerBlock

/-- The return of a reservation that another one of the same player has replaced at a table. -/
def returnReplacedBuyIn (d : Database) (id : PendingBuyInId) : Except ChainError Database := do
  let b ← d.pendingBuyInById id
  let d ← d.adjustBalance b.player b.amount
  let d ← pushPendingBuyExpireOperation d id b true
  return { d with pendingBuyIns := d.pendingBuyIns.remove id }

/-- `allocation_of_vacancies` -/
def allocationOfVacancies (d : Database) : Except ChainError Database := do
  let (d, prevProposals) ← (unallocatedPendingBuyIns d).foldlM allocateVacancy (d, ∅)
  prevProposals.elements.foldlM returnReplacedBuyIn d

/-! ### All tasks -/

/-- `process_block_tasks` -/
def processBlockTasks [GameDigest] (d : Database) (maintenance : Bool) :
    Except ChainError Database := do
  let d := updateExpiredInvitations d
  let d ← (
    if d.headBlockTime < hardforkPlaychain9Time then do
      let d ← updateExpiredTableVoting d
      let d ← updateExpiredTableGame d maintenance
      let d ← updateExpiredPendingBuyIn d
      let d ← updateExpiredBuyIn d
      let d ← updateExpiredTableAlive d
      updateScheduledVoting d
    else do
      let d ← updateScheduledVoting d
      let d ← updateExpiredTableVoting d
      let d ← updateExpiredTableGame d maintenance
      let d ← updateExpiredPendingBuyIn d
      let d ← updateExpiredBuyIn d
      updateExpiredTableAlive d)
  allocationOfVacancies d

end Playchain
