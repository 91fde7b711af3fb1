import Playchain.Graphene.WitnessSchedule

/-!
# Participation

What `_apply_block` records about the slots of the blocks, beyond the schedule: the bits of the
recent slots, the slot of the last block of each witness, and a count of missed blocks that goes
down again.
-/

namespace Playchain

/-- The records that follow the slots. -/
structure ParticipationState extends SlotState where
  /-- `recent_slots_filled` -/
  recentSlotsFilled : BitVec 128
  recentlyMissedCount : UInt32
  lastAslot : WitnessId → UInt64

namespace ParticipationState

/-- `GRAPHENE_RECENTLY_MISSED_COUNT_INCREMENT` -/
def recentlyMissedCountIncrement : UInt32 := 4

/-- `GRAPHENE_RECENTLY_MISSED_COUNT_DECREMENT` -/
def recentlyMissedCountDecrement : UInt32 := 3

/-- How `update_global_dynamic_data` counts missed blocks. The count is not kept up to the last
checkpoint. -/
def countMissed (count : UInt32) (lastCheckpoint : Option UInt32) (blockNum missedBlocks : UInt32) :
    UInt32 :=
  if blockNum = 1 then 0
  else if lastCheckpoint.any (blockNum ≤ ·) then 0
  else if missedBlocks ≠ 0 then count + recentlyMissedCountIncrement * missedBlocks
  else if recentlyMissedCountIncrement < count then count - recentlyMissedCountDecrement
  else if 0 < count then count - 1
  else count

/-- The bits of the recent slots, as `update_global_dynamic_data` shifts them. -/
def shiftSlots (filled : BitVec 128) (missedBlocks : UInt32) : BitVec 128 :=
  (filled <<< 1 + 1#128) <<< missedBlocks.toNat

/-- `update_signing_witness`: the slot of the block. The head has been moved to the block before, so
its time is looked up among the slots after it. -/
def newBlockAslot (moved : SlotState) (timestamp : UInt32) : UInt64 :=
  moved.currentAslot + (moved.getSlotAtTime timestamp).toUInt64

/-- `_apply_block` -/
def applyBlock (p : ParticipationState) (skipWitnessScheduleCheck : Bool)
    (lastCheckpoint : Option UInt32)
    (timestamp : UInt32) (witness : WitnessId) (outcome : MaintenanceOutcome) :
    Option ParticipationState :=
  match p.toSlotState.applyBlock skipWitnessScheduleCheck timestamp witness outcome with
  | none => none
  | some s =>
    let missed := p.getSlotAtTime timestamp - 1
    let moved := p.toSlotState.updateGlobalDynamicData timestamp missed
    some
      { s with
        recentSlotsFilled := shiftSlots p.recentSlotsFilled missed
        recentlyMissedCount := countMissed p.recentlyMissedCount lastCheckpoint moved.headBlockNum
          missed
        lastAslot := Function.update p.lastAslot witness (newBlockAslot moved timestamp) }

/-- `witness_participation_rate` -/
def witnessParticipationRate (p : ParticipationState) : ℕ :=
  10000 * p.recentSlotsFilled.cpop.toNat / 128

end ParticipationState

end Playchain
