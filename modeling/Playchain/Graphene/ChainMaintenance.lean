import Mathlib.Data.Nat.Basic
import Mathlib.Tactic

/-!
# Chain parameters and the maintenance of the chain

What the chain parameters decide at block level: the scaling of the registration fee between two
maintenance intervals, the time of the next maintenance, and the checks that `process_budget` relies on.
The fields have the widths of the code, and what C++ leaves undefined (a division by zero, a shift by the
width or more) or asserts is a fault.
-/

namespace Playchain

/-- What stops the chain. -/
inductive MaintenanceFault where
  | divisionByZero
  /-- A shift of a 64-bit value by 64 bits or more. -/
  | shift
  /-- `time_to_maint > 0` or `block_interval > 0` does not hold. -/
  | assertion
  deriving DecidableEq

/-- The fields of `chain_parameters` that `validate` and the maintenance read; `basicFee` is the one of
`account_create` in the fee schedule. -/
structure ChainParameters where
  basicFee : UInt64
  blockInterval : UInt8
  maintenanceInterval : UInt32
  committeeProposalReviewPeriod : UInt32
  maximumTransactionSize : UInt32
  maximumBlockSize : UInt32
  maximumTimeUntilExpiration : UInt32
  maximumProposalLifetime : UInt32
  reservePercentOfFee : UInt16
  networkPercentOfFee : UInt16
  lifetimeReferrerPercentOfFee : UInt16
  accountsPerFeeScale : UInt16
  accountFeeScaleBitshifts : UInt8
  deriving DecidableEq

/-- `chain_parameters::validate`. The fees are not checked. -/
def ChainParameters.validate (p : ChainParameters) : Bool :=
  decide (p.reservePercentOfFee.toNat ≤ 10000) &&
  decide (p.networkPercentOfFee.toNat ≤ 10000) &&
  decide (p.lifetimeReferrerPercentOfFee.toNat ≤ 10000) &&
  decide (p.networkPercentOfFee.toNat + p.lifetimeReferrerPercentOfFee.toNat ≤ 10000) &&
  decide (1 ≤ p.blockInterval.toNat) &&
  decide (p.blockInterval.toNat ≤ 30) &&
  decide (0 < p.blockInterval.toNat) &&
  decide (p.blockInterval.toNat < p.maintenanceInterval.toNat) &&
  decide (p.maintenanceInterval.toNat % p.blockInterval.toNat = 0) &&
  decide (1024 ≤ p.maximumTransactionSize.toNat) &&
  decide (1024 * 5 ≤ p.maximumBlockSize.toNat) &&
  decide (p.blockInterval.toNat < p.maximumTimeUntilExpiration.toNat) &&
  -- a difference of unsigned values
  decide (p.blockInterval.toNat <
    (p.maximumProposalLifetime - p.committeeProposalReviewPeriod).toNat)

/-! ### Registration fees -/

/-- The counter of registrations, and the fee that is scaled. -/
structure FeeScale where
  basicFee : UInt64
  /-- `accounts_registered_this_interval` -/
  registered : UInt32
  deriving DecidableEq

/-- The end of `account_create_evaluator::do_apply`: the fee is shifted to the left with every
`accounts_per_fee_scale`-th registration. -/
def FeeScale.register (accountsPerFeeScale : UInt16) (bitshifts : UInt8) (f : FeeScale) :
    Except MaintenanceFault FeeScale :=
  if accountsPerFeeScale = 0 then .error .divisionByZero
  else if (f.registered + 1).toNat % accountsPerFeeScale.toNat = 0 ∧ bitshifts ≠ 0 then
    if 64 ≤ bitshifts.toNat then .error .shift
    else .ok ⟨.ofNat (f.basicFee.toNat * 2 ^ bitshifts.toNat), f.registered + 1⟩
  else .ok ⟨f.basicFee, f.registered + 1⟩

/-- The number of bits by which the maintenance shifts the fee back, a product of 32 bits. -/
def FeeScale.shiftBack (accountsPerFeeScale : UInt16) (bitshifts : UInt8) (f : FeeScale) : ℕ :=
  bitshifts.toNat * (f.registered.toNat / accountsPerFeeScale.toNat) % 2 ^ 32

/-- `perform_chain_maintenance` removes the scaling. -/
def FeeScale.removeScaling (accountsPerFeeScale : UInt16) (bitshifts : UInt8) (f : FeeScale) :
    Except MaintenanceFault FeeScale :=
  if accountsPerFeeScale = 0 then .error .divisionByZero
  else if 64 ≤ f.shiftBack accountsPerFeeScale bitshifts then .error .shift
  else .ok ⟨.ofNat (f.basicFee.toNat / 2 ^ f.shiftBack accountsPerFeeScale bitshifts), 0⟩

/-! ### Maintenance -/

/-- The global and the dynamic properties that the maintenance reads. -/
structure MaintenanceState where
  parameters : ChainParameters
  pendingParameters : Option ChainParameters := none
  /-- `accounts_registered_this_interval` -/
  accountsRegistered : UInt32 := 0
  nextMaintenanceTime : UInt32
  headBlockTime : UInt32
  headBlockNum : UInt32
  deriving DecidableEq

namespace MaintenanceState

/-- The fee and the counter of registrations. -/
def feeScale (s : MaintenanceState) : FeeScale := ⟨s.parameters.basicFee, s.accountsRegistered⟩

/-- `account_create` -/
def accountCreate (s : MaintenanceState) : Except MaintenanceFault MaintenanceState :=
  match s.feeScale.register s.parameters.accountsPerFeeScale s.parameters.accountFeeScaleBitshifts with
  | .error e => .error e
  | .ok f => .ok { s with
      parameters := { s.parameters with basicFee := f.basicFee }
      accountsRegistered := f.registered }

/-- `committee_member_update_global_parameters`: parameters that pass the check become pending. -/
def updateGlobalParameters (s : MaintenanceState) (p : ChainParameters) : MaintenanceState :=
  if p.validate then { s with pendingParameters := some p } else s

/-- The time of the next maintenance, in 32 bits. -/
def nextTime (s : MaintenanceState) (interval : UInt32) : UInt32 :=
  if s.nextMaintenanceTime ≤ s.headBlockTime then
    if s.headBlockNum = 1 then (s.headBlockTime / interval + 1) * interval
    else
      s.nextMaintenanceTime + .ofNat
        (((s.headBlockTime.toNat - s.nextMaintenanceTime.toNat) / interval.toNat + 1) * interval.toNat)
  else s.nextMaintenanceTime

/-- The parameters after the maintenance: those that are pending, or else the present ones with a fee. -/
def installed (s : MaintenanceState) (basicFee : UInt64) : ChainParameters :=
  s.pendingParameters.getD { s.parameters with basicFee := basicFee }

/-- The checks of `process_budget`; with them it divides by the block interval. -/
def processBudget (s : MaintenanceState) : Except MaintenanceFault MaintenanceState :=
  if s.headBlockTime.toNat < s.nextMaintenanceTime.toNat ∧ 0 < s.parameters.blockInterval.toNat then .ok s
  else .error .assertion

/-- `perform_chain_maintenance`, with the new block as the head block -/
def performChainMaintenance (s : MaintenanceState) : Except MaintenanceFault MaintenanceState :=
  match s.feeScale.removeScaling s.parameters.accountsPerFeeScale s.parameters.accountFeeScaleBitshifts with
  | .error e => .error e
  | .ok f =>
    if (s.installed f.basicFee).maintenanceInterval = 0 then .error .divisionByZero
    else
      processBudget { s with
        parameters := s.installed f.basicFee
        pendingParameters := none
        accountsRegistered := f.registered
        nextMaintenanceTime := s.nextTime (s.installed f.basicFee).maintenanceInterval }

/-- The new block becomes the head block. -/
def advance (s : MaintenanceState) (timestamp : UInt32) : MaintenanceState :=
  { s with headBlockTime := timestamp, headBlockNum := s.headBlockNum + 1 }

/-- `_apply_block`: the maintenance is due when its time has come. -/
def applyBlock (s : MaintenanceState) (timestamp : UInt32) : Except MaintenanceFault MaintenanceState :=
  if s.nextMaintenanceTime ≤ timestamp then (s.advance timestamp).performChainMaintenance
  else .ok (s.advance timestamp)

end MaintenanceState

end Playchain
