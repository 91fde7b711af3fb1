import Playchain.Graphene.VoteCounter
import Playchain.Graphene.WitnessSchedule

/-!
# Active witnesses from the genesis on

The part of `init_genesis` that sets up the witnesses, `update_active_witnesses` of the maintenance, and blocks that may
create further witnesses. The votes that a maintenance counts are given with the block, with the parameters it decides on.
-/

namespace Playchain

/-- The part of `genesis_state_type` that the witnesses depend on; of the candidates only their number matters. -/
structure WitnessGenesis where
  initialTimestamp : UInt32
  initialWitnessCandidates : UInt32
  initialActiveWitnesses : UInt64
  minWitnessCount : UInt16
  blockInterval : UInt8
  maintenanceSkipSlots : UInt8

/-- The witnesses, and what the slots depend on. -/
structure WitnessState where
  slots : SlotState
  /-- All witnesses, in the order of their ids. -/
  witnesses : List WitnessId
  minWitnessCount : UInt16

/-- What a maintenance counts and decides. -/
structure WitnessVotes where
  voteTally : ℕ → UInt64
  voteId : WitnessId → ℕ
  totalVotingStake : UInt64
  witnessCountHistogram : List UInt64
  nextMaintenanceTime : UInt32
  blockInterval : UInt8
  maintenanceSkipSlots : UInt8

namespace WitnessState

/-- The ids `1, …, n`: the witness with id 0 is created and removed first. -/
def firstIds (n : ℕ) : List WitnessId := (List.range n).map fun i ↦ Fin.ofNat (2 ^ 48) (i + 1)

/-- `init_genesis`: the assertions about times and witnesses, the candidates, and the first of them as active and
scheduled witnesses. -/
def initGenesis (g : WitnessGenesis) : Option WitnessState :=
  if g.initialTimestamp = 0 then none
  else if g.initialTimestamp % 5 ≠ 0 then none
  else if ¬0 < g.initialWitnessCandidates then none
  else if ¬g.initialActiveWitnesses ≤ g.initialWitnessCandidates.toUInt64 then none
  else if g.minWitnessCount &&& 1 ≠ 1 then none
  else
    let active := (FlatSet.ofList (firstIds g.initialActiveWitnesses.toNat)).elements
    some
      { slots :=
          { headBlockNum := 0
            headBlockTime := g.initialTimestamp
            currentAslot := 0
            maintenanceFlag := false
            nextMaintenanceTime := 0
            blockInterval := g.blockInterval
            maintenanceSkipSlots := g.maintenanceSkipSlots
            activeWitnesses := active
            currentShuffledWitnesses := active
            totalMissed := fun _ ↦ 0 }
        witnesses := firstIds g.initialWitnessCandidates.toNat
        minWitnessCount := g.minWitnessCount }

/-- `update_active_witnesses`: the witnesses with the most votes, as a `flat_set`. -/
def updateActiveWitnesses (s : WitnessState) (v : WitnessVotes) : List WitnessId :=
  (FlatSet.ofList (sortVotableObjects v.voteTally v.voteId s.witnesses
    (memberCount v.totalVotingStake v.witnessCountHistogram s.minWitnessCount))).elements

/-- `_apply_block`, with the witnesses that its transactions create. -/
def applyBlock (s : WitnessState) (created : List WitnessId) (skipWitnessScheduleCheck : Bool) (timestamp : UInt32)
    (witness : WitnessId) (v : WitnessVotes) : Option WitnessState :=
  let s := { s with witnesses := s.witnesses ++ created }
  match s.slots.applyBlock skipWitnessScheduleCheck timestamp witness
      { nextMaintenanceTime := v.nextMaintenanceTime
        blockInterval := v.blockInterval
        maintenanceSkipSlots := v.maintenanceSkipSlots
        activeWitnesses := s.updateActiveWitnesses v } with
  | none => none
  | some slots => some { s with slots := slots }

/-- The states of the chain that starts with a genesis. -/
inductive Reachable (g : WitnessGenesis) : WitnessState → Prop
  | genesis {s : WitnessState} (h : initGenesis g = some s) : Reachable g s
  | block {s s' : WitnessState} (created : List WitnessId) (skip : Bool) (t : UInt32) (w : WitnessId)
      (v : WitnessVotes) (hs : Reachable g s) (h : s.applyBlock created skip t w v = some s') : Reachable g s'

end WitnessState

end Playchain
