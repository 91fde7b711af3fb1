import Playchain.Graphene.ChainMaintenance
import Playchain.Graphene.VestingBalance
import Playchain.Lib.ObjectIndex

/-!
# The distribution of fees

The fees of an account are collected in its statistics (`pending_fees`, `pending_vested_fees`) and split at maintenance
between the network, the lifetime referrer, the referrer and the registrar (`process_fees`). What the accounts get is
deposited in a vesting balance, which is opened when it is needed (`deposit_lazy_vesting`, `deposit_cashback`); the special
accounts get nothing, and their share leaves the supply. The accumulators of fee-backed assets are split likewise
(`split_fba_balance`).
-/

namespace Playchain

/-- `vesting_balance_type` -/
inductive VestingBalanceType where
  | unspecified
  | cashback
  | worker
  | witness
  | marketFeeSharing
  deriving DecidableEq

/-- `vesting_balance_object` with its owner. -/
structure OwnedVestingBalance where
  owner : AccountId
  balanceType : VestingBalanceType
  vesting : VestingBalance

/-- `account_object`, as far as fees are concerned. -/
structure FeeAccount where
  membershipExpirationDate : UInt32
  registrar : AccountId
  referrer : AccountId
  lifetimeReferrer : AccountId
  networkFeePercentage : UInt16
  lifetimeReferrerFeePercentage : UInt16 := 0
  referrerRewardsPercentage : UInt16 := 0
  cashbackVb : Option VestingBalanceId := none

/-- `is_basic_account` -/
def FeeAccount.isBasicAccount (a : FeeAccount) (now : UInt32) : Bool := a.membershipExpirationDate < now

/-! ### The percentages of an account -/

def hardfork453Time : UInt32 := 1450288800
def hardfork613Time : UInt32 := 1458752400

/-- `account_create_operation`, as far as fees are concerned. -/
structure AccountCreateOperation where
  registrar : AccountId
  referrer : AccountId
  referrerPercent : UInt16

/-- `account_create_operation::validate`, of the percentage -/
def AccountCreateOperation.validate (o : AccountCreateOperation) : Bool := o.referrerPercent.toNat ≤ hundredPercent

/-- The percentage of the referrer; for a time it could be given in whole percents. -/
def AccountCreateOperation.rewardsPercentage (o : AccountCreateOperation) (now : UInt32) : UInt16 :=
  if now ≤ hardfork453Time ∧ o.referrer ≠ o.registrar ∧ o.referrerPercent ≠ 0 ∧ o.referrerPercent ≤ 0x100 then
    if hundredPercent < (o.referrerPercent * 100).toNat then 10000 else o.referrerPercent * 100
  else o.referrerPercent

namespace FeeAccount

/-- The account that `account_create_evaluator` creates. -/
def create (now : UInt32) (params : ChainParameters) (o : AccountCreateOperation) (referrer : FeeAccount) :
    FeeAccount where
  membershipExpirationDate := 0
  registrar := o.registrar
  referrer := o.referrer
  lifetimeReferrer := referrer.lifetimeReferrer
  networkFeePercentage := params.networkPercentOfFee
  lifetimeReferrerFeePercentage := params.lifetimeReferrerPercentOfFee
  referrerRewardsPercentage := o.rewardsPercentage now

/-- `account_upgrade_evaluator`, of the account with an id, after its fees have been processed -/
def upgrade (a : FeeAccount) (id : AccountId) (now : UInt32) (upgradeToLifetimeMember : Bool) :
    Except ChainError FeeAccount := do
  fcAssert (a.membershipExpirationDate ≠ 4294967295) "!account->is_lifetime_member()"
  if upgradeToLifetimeMember then
    return { a with
      membershipExpirationDate := 4294967295
      registrar := id
      referrer := id
      lifetimeReferrer := id
      lifetimeReferrerFeePercentage := 10000 - a.networkFeePercentage }
  else if a.isBasicAccount now then
    fcAssert (now ≤ hardfork613Time) "d.head_block_time() <= HARDFORK_613_TIME"
    return { a with referrer := id, membershipExpirationDate := now + 31536000 }
  else
    fcAssert (now ≤ hardfork613Time) "d.head_block_time() <= HARDFORK_613_TIME"
    fcAssert (a.membershipExpirationDate.toNat - now.toNat < 315360000)
      "May not extend annual membership more than a decade into the future."
    return { a with membershipExpirationDate := a.membershipExpirationDate + 31536000 }

end FeeAccount

/-! ### The state -/

/-- `account_statistics_object` -/
structure FeeStatistics where
  name : String
  totalCoreInOrders : ℤ := 0
  coreInBalance : ℤ := 0
  hasCashbackVb : Bool := false
  isVoting : Bool := false
  lifetimeFeesPaid : ℤ := 0
  pendingFees : ℤ := 0
  pendingVestedFees : ℤ := 0

namespace FeeStatistics

/-- `has_some_core_voting` -/
def hasSomeCoreVoting (a : FeeStatistics) : Bool :=
  a.isVoting ∧ (0 < a.totalCoreInOrders ∨ 0 < a.coreInBalance ∨ a.hasCashbackVb)

/-- `has_pending_fees` -/
def hasPendingFees (a : FeeStatistics) : Bool := 0 < a.pendingFees ∨ 0 < a.pendingVestedFees

/-- `need_maintenance` -/
def needMaintenance (a : FeeStatistics) : Bool := a.hasSomeCoreVoting || a.hasPendingFees

end FeeStatistics

/-- `account_balance_object` of the core asset. -/
structure CoreBalance where
  balance : ℤ
  maintenanceFlag : Bool := false

/-- `fba_accumulator_object`. The designated asset counts only if it is configured (`is_configured`); then there are its
buyback account and its issuer. -/
structure FbaAccumulator where
  accumulatedFbaFees : ℤ := 0
  designated : Option (AccountId × AccountId) := none

/-- Where core is, and who gets fees. -/
structure FeeState where
  headBlockTime : UInt32
  cashbackVestingPeriodSeconds : UInt32
  accounts : FlatMap AccountId FeeAccount := ∅
  statistics : FlatMap AccountId FeeStatistics := ∅
  vestingBalances : ObjectIndex OwnedVestingBalance := ∅
  coreBalances : FlatMap AccountId CoreBalance := ∅
  fbaAccumulators : FlatMap ℕ FbaAccumulator := ∅
  currentSupply : ℤ
  accumulatedFees : ℤ

namespace FeeState

/-- The account with an id, which has to be there. -/
def account (s : FeeState) (id : AccountId) : Except ChainError FeeAccount :=
  match s.accounts.find? id with
  | some a => .ok a
  | none => .error (.assertion "Unable to find Object")

/-- The statistics of an account, which have to be there. -/
def accountStats (s : FeeState) (id : AccountId) : Except ChainError FeeStatistics :=
  match s.statistics.find? id with
  | some a => .ok a
  | none => .error (.assertion "Unable to find Object")

def modifyAccount (s : FeeState) (id : AccountId) (g : FeeAccount → FeeAccount) : FeeState :=
  { s with accounts := s.accounts.modify id g }

def modifyStatistics (s : FeeState) (id : AccountId) (g : FeeStatistics → FeeStatistics) : FeeState :=
  { s with statistics := s.statistics.modify id g }

/-! ### Deposits -/

/-- Whether a balance can be used once more: it has the owner, a coin-days policy and the period that are asked for. -/
def reusable (vbo : OwnedVestingBalance) (reqOwner : AccountId) (reqVestingSeconds : UInt32) : Bool :=
  match vbo.vesting.policy with
  | .cdd p => vbo.owner = reqOwner ∧ p.vestingSeconds = reqVestingSeconds
  | _ => false

/-- The new balance of `deposit_lazy_vesting`. The product is one of signed 64-bit integers. -/
def newVestingBalance (now : UInt32) (amount : ℤ) (reqVestingSeconds : UInt32) (balanceType : VestingBalanceType)
    (reqOwner : AccountId) (requireVesting : Bool) : OwnedVestingBalance where
  owner := reqOwner
  balanceType := balanceType
  vesting :=
    { balance := ⟨amount, coreAsset⟩
      policy := .cdd
        { vestingSeconds := reqVestingSeconds
          coinSecondsEarned :=
            if requireVesting then 0 else toUInt128 ((amount * reqVestingSeconds.toNat).bmod (2 ^ 64))
          startClaim := 0
          coinSecondsEarnedLastUpdate := now } }

/-- A deposit in a balance that is there. -/
def depositIn (s : FeeState) (vbid : VestingBalanceId) (vbo : OwnedVestingBalance) (amount : ℤ)
    (requireVesting : Bool) : Except ChainError FeeState := do
  let vesting ←
    if requireVesting then vbo.vesting.deposit s.headBlockTime ⟨amount, coreAsset⟩
    else vbo.vesting.depositVested s.headBlockTime ⟨amount, coreAsset⟩
  return { s with vestingBalances := s.vestingBalances.modify vbid fun vbo ↦ { vbo with vesting := vesting } }

/-- `deposit_lazy_vesting` -/
def depositLazyVesting (s : FeeState) (ovbid : Option VestingBalanceId) (amount : ℤ) (reqVestingSeconds : UInt32)
    (balanceType : VestingBalanceType) (reqOwner : AccountId) (requireVesting : Bool) :
    Except ChainError (Option VestingBalanceId × FeeState) :=
  let created : Option VestingBalanceId × FeeState :=
    (some s.vestingBalances.nextId,
      { s with
        vestingBalances := s.vestingBalances.create
          (newVestingBalance s.headBlockTime amount reqVestingSeconds balanceType reqOwner requireVesting) })
  if amount = 0 then return (none, s)
  else
    match ovbid with
    | none => return created
    | some vbid =>
      match s.vestingBalances.find? vbid with
      | none => throw (.assertion "Unable to find Object")
      | some vbo =>
        if reusable vbo reqOwner reqVestingSeconds then do
          return (none, ← s.depositIn vbid vbo amount requireVesting)
        else return created

/-- `deposit_cashback` -/
def depositCashback (s : FeeState) (acct : AccountId) (amount : ℤ) (requireVesting : Bool) :
    Except ChainError FeeState := do
  let a ← s.account acct
  if amount = 0 then return s
  if isSpecialAccount acct then return { s with currentSupply := s.currentSupply - amount }
  let r ← s.depositLazyVesting a.cashbackVb amount s.cashbackVestingPeriodSeconds .cashback acct requireVesting
  match r.1 with
  | none => return r.2
  | some vbid =>
    let s := r.2.modifyAccount acct fun a ↦ { a with cashbackVb := some vbid }
    return s.modifyStatistics acct fun aso ↦ { aso with hasCashbackVb := true }

/-! ### The split of the fees -/

/-- `cut_fee` -/
def cutFee (a : ℤ) (p : UInt16) : ℤ :=
  if a = 0 ∨ p = 0 then 0
  else if p.toNat = hundredPercent then a
  else toInt64 (toUInt128 a * p.toNat % 2 ^ 128 / hundredPercent % 2 ^ 64)

/-- The parts of a fee. -/
structure FeeParts where
  network : ℤ
  lifetimeReferrer : ℤ
  referrer : ℤ
  registrar : ℤ

/-- How the fee of an account is split. -/
def feeParts (a : FeeAccount) (coreFeeTotal : ℤ) : FeeParts :=
  let networkCut := cutFee coreFeeTotal a.networkFeePercentage
  let lifetimeCut := cutFee coreFeeTotal a.lifetimeReferrerFeePercentage
  let referral := coreFeeTotal - networkCut - lifetimeCut
  let referrerCut := cutFee referral a.referrerRewardsPercentage
  ⟨networkCut, lifetimeCut, referrerCut, referral - referrerCut⟩

/-- The referrer who is no longer a member is replaced by the lifetime referrer. -/
def checkReferrer (s : FeeState) (account : AccountId) : Except ChainError FeeState := do
  let a ← s.account account
  let referrer ← s.account a.referrer
  return if referrer.isBasicAccount s.headBlockTime then
    s.modifyAccount account fun a ↦ { a with referrer := a.lifetimeReferrer }
  else s

/-- `pay_out_fees` in `process_fees` -/
def payOutFees (s : FeeState) (account : AccountId) (coreFeeTotal : ℤ) (requireVesting : Bool) :
    Except ChainError FeeState := do
  let s ← s.checkReferrer account
  let a ← s.account account
  let parts := feeParts a coreFeeTotal
  let s := { s with accumulatedFees := s.accumulatedFees + parts.network }
  let s ← s.depositCashback a.lifetimeReferrer parts.lifetimeReferrer requireVesting
  let s ← s.depositCashback a.referrer parts.referrer requireVesting
  s.depositCashback a.registrar parts.registrar requireVesting

/-- `process_fees` -/
def processFees (s : FeeState) (account : AccountId) : Except ChainError FeeState := do
  let stats ← s.accountStats account
  if stats.hasPendingFees then
    let s ← s.payOutFees account stats.pendingFees true
    let stats ← s.accountStats account
    let s ← s.payOutFees account stats.pendingVestedFees false
    return s.modifyStatistics account fun aso ↦
      { aso with
        lifetimeFeesPaid := aso.lifetimeFeesPaid + (aso.pendingFees + aso.pendingVestedFees)
        pendingFees := 0
        pendingVestedFees := 0 }
  else return s

/-! ### Fee-backed assets -/

/-- `adjust_balance`, of an amount of core that is not negative -/
def addCore (s : FeeState) (account : AccountId) (amount : ℤ) : FeeState :=
  { s with
    coreBalances := s.coreBalances.insert account
      { balance := ((s.coreBalances.find? account).map CoreBalance.balance).getD 0 + amount, maintenanceFlag := true } }

/-- `split_fba_balance` -/
def splitFbaBalance (s : FeeState) (fbaId : ℕ) (networkPct designatedAssetBuybackPct designatedAssetIssuerPct : UInt16) :
    Except ChainError FeeState := do
  fcAssert (networkPct.toNat + designatedAssetBuybackPct.toNat + designatedAssetIssuerPct.toNat = hundredPercent) ""
  match s.fbaAccumulators.find? fbaId with
  | none => throw (.assertion "Unable to find Object")
  | some fba =>
    if fba.accumulatedFbaFees = 0 then return s
    let cleared := { s with fbaAccumulators := s.fbaAccumulators.modify fbaId fun fba ↦
      { fba with accumulatedFbaFees := 0 } }
    match fba.designated with
    | none => return { cleared with currentSupply := s.currentSupply - fba.accumulatedFbaFees }
    | some designated =>
      let buybackAmount := toInt64 (toUInt128 fba.accumulatedFbaFees * designatedAssetBuybackPct.toNat % 2 ^ 128 /
        hundredPercent % 2 ^ 64)
      let issuerAmount := toInt64 (toUInt128 fba.accumulatedFbaFees * designatedAssetIssuerPct.toNat % 2 ^ 128 /
        hundredPercent % 2 ^ 64)
      fcAssert (buybackAmount + issuerAmount ≤ fba.accumulatedFbaFees) ""
      let networkAmount := fba.accumulatedFbaFees - (buybackAmount + issuerAmount)
      let s := { cleared with currentSupply := s.currentSupply - networkAmount }
      let s := if buybackAmount ≠ 0 then s.addCore designated.1 buybackAmount else s
      return if issuerAmount ≠ 0 then s.addCore designated.2 issuerAmount else s

/-- `distribute_fba_balances` -/
def distributeFbaBalances (s : FeeState) : Except ChainError FeeState := do
  let s ← s.splitFbaBalance 0 2000 6000 2000
  let s ← s.splitFbaBalance 1 2000 6000 2000
  s.splitFbaBalance 2 2000 6000 2000

end FeeState

end Playchain
