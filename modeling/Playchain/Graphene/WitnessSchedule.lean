import Mathlib.Data.UInt
import Playchain.Blocks.Production

/-!
# Slots and the witness schedule

`get_slot_time`, `get_slot_at_time`, `get_scheduled_witness` and the part of `_apply_block` that counts
slots, with the widths of the code. A maintenance may change the block interval, the number of slots that are
skipped after it, the active witnesses and the time of the next maintenance; what it changes them to is
given with the block (`MaintenanceOutcome`).
-/

namespace Playchain

/-- The properties and the schedule that the slots depend on, and the missed blocks of the witnesses. -/
structure SlotState where
  headBlockNum : UInt32
  headBlockTime : UInt32
  /-- The number of slots from the genesis to the head block. -/
  currentAslot : UInt64
  maintenanceFlag : Bool
  nextMaintenanceTime : UInt32
  blockInterval : UInt8
  maintenanceSkipSlots : UInt8
  activeWitnesses : List WitnessId
  currentShuffledWitnesses : List WitnessId
  totalMissed : WitnessId → ℕ

/-- What a maintenance decides. -/
structure MaintenanceOutcome where
  nextMaintenanceTime : UInt32
  blockInterval : UInt8
  maintenanceSkipSlots : UInt8
  activeWitnesses : List WitnessId

namespace SlotState

/-- `get_slot_time`, all in 32 bits -/
def getSlotTime (s : SlotState) (slotNum : UInt32) : UInt32 :=
  if slotNum = 0 then 0
  else if s.headBlockNum = 0 then s.headBlockTime + slotNum * s.blockInterval.toUInt32
  else
    s.headBlockTime / s.blockInterval.toUInt32 * s.blockInterval.toUInt32 +
      (if s.maintenanceFlag then slotNum + s.maintenanceSkipSlots.toUInt32 else slotNum) *
        s.blockInterval.toUInt32

/-- `get_slot_at_time` -/
def getSlotAtTime (s : SlotState) (time : UInt32) : UInt32 :=
  if time < s.getSlotTime 1 then 0 else (time - s.getSlotTime 1) / s.blockInterval.toUInt32 + 1

/-- `get_scheduled_witness` -/
def getScheduledWitness (s : SlotState) (slotNum : UInt32) : WitnessId :=
  s.currentShuffledWitnesses.getD
    ((s.currentAslot + slotNum.toUInt64).toNat % s.currentShuffledWitnesses.length) 0

/-- `total_missed++` -/
def addMissed (missed : WitnessId → ℕ) (w : WitnessId) : WitnessId → ℕ :=
  Function.update missed w (missed w + 1)

/-- The loop of `update_witness_missed_blocks` over the slots that were missed; no one is blamed when there
are as many of them as witnesses. -/
def updateWitnessMissedBlocks (s : SlotState) (missedBlocks : UInt32) : WitnessId → ℕ :=
  if missedBlocks.toNat < s.currentShuffledWitnesses.length then
    (List.range missedBlocks.toNat).foldl
      (fun missed i ↦ addMissed missed (s.getScheduledWitness (.ofNat (i + 1)))) s.totalMissed
  else s.totalMissed

/-- The number that decides which witness comes to position `i`. -/
def shuffleKey (nowHi : UInt64) (i : ℕ) : UInt64 :=
  let k := nowHi + .ofNat i * 2685821657736338717
  let k := k ^^^ (k >>> 12)
  let k := k ^^^ (k <<< 25)
  let k := k ^^^ (k >>> 27)
  k * 2685821657736338717

/-- The shuffle of `update_witness_schedule`. -/
def shuffle (headBlockTime : UInt32) (witnesses : List WitnessId) : List WitnessId :=
  ((List.range witnesses.length).foldl
    (fun (ws : Array WitnessId) i ↦ ws.swapIfInBounds i
      (i + (shuffleKey (headBlockTime.toUInt64 <<< 32) i).toNat % (witnesses.length - i)))
    witnesses.toArray).toList

/-- `update_witness_schedule`: the active witnesses are shuffled when all of them have had their turn. -/
def updateWitnessSchedule (s : SlotState) : SlotState :=
  if s.headBlockNum.toNat % s.activeWitnesses.length = 0 then
    { s with currentShuffledWitnesses := shuffle s.headBlockTime s.activeWitnesses }
  else s

/-- `update_global_dynamic_data` -/
def updateGlobalDynamicData (s : SlotState) (timestamp missedBlocks : UInt32) : SlotState :=
  { s with
    headBlockNum := s.headBlockNum + 1
    headBlockTime := timestamp
    currentAslot := s.currentAslot + (missedBlocks + 1).toUInt64 }

/-- What `perform_chain_maintenance` changes. -/
def performMaintenance (s : SlotState) (outcome : MaintenanceOutcome) : SlotState :=
  { s with
    nextMaintenanceTime := outcome.nextMaintenanceTime
    blockInterval := outcome.blockInterval
    maintenanceSkipSlots := outcome.maintenanceSkipSlots
    activeWitnesses := outcome.activeWitnesses }

/-- `validate_block_header`, as far as times and slots go -/
def validateBlockHeader (s : SlotState) (skipWitnessScheduleCheck : Bool) (timestamp : UInt32)
    (witness : WitnessId) : Bool :=
  decide (s.headBlockTime < timestamp) &&
  (skipWitnessScheduleCheck ||
    (decide (0 < s.getSlotAtTime timestamp) &&
      decide (witness = s.getScheduledWitness (s.getSlotAtTime timestamp))))

/-- `_apply_block`. The slots are counted before the head is moved, and the flag of the maintenance is set
after it. -/
def applyBlock (s : SlotState) (skipWitnessScheduleCheck : Bool) (timestamp : UInt32) (witness : WitnessId)
    (outcome : MaintenanceOutcome) : Option SlotState :=
  if s.validateBlockHeader skipWitnessScheduleCheck timestamp witness = false then none
  else if s.getSlotAtTime timestamp = 0 then none
  else
    let maintNeeded := decide (s.nextMaintenanceTime ≤ timestamp)
    let missed := s.getSlotAtTime timestamp - 1
    let s := { s with totalMissed := s.updateWitnessMissedBlocks missed }
    let s := s.updateGlobalDynamicData timestamp missed
    let s := if maintNeeded then s.performMaintenance outcome else s
    let s := { s with maintenanceFlag := maintNeeded }
    some s.updateWitnessSchedule

end SlotState

end Playchain
