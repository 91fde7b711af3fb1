import Mathlib.Data.UInt
import Playchain.Protocol.Types

/-!
# Vesting balances

`vesting_balance_object` and its three policies. Times have 32 bits, coin-seconds 128; share amounts are
unbounded integers. Assertions are errors here, and so is the comparison of amounts of different assets. Two
assertions of a coin-days policy are left to theorems about it: that it is not asked about a time before its
last update, and that no more is available than the balance.
-/

namespace Playchain

/-- `GRAPHENE_MAX_SHARE_SUPPLY` -/
def maxShareSupply : ℤ := 1000000000000000

/-- Conversion to an unsigned 128-bit integer. -/
def toUInt128 (x : ℤ) : ℕ := (x.emod (2 ^ 128)).toNat

/-- `linear_vesting_policy` -/
structure LinearVestingPolicy where
  beginTimestamp : UInt32
  vestingCliffSeconds : UInt32
  vestingDurationSeconds : UInt32
  beginBalance : ℤ
  deriving DecidableEq

/-- `cdd_vesting_policy` -/
structure CddVestingPolicy where
  vestingSeconds : UInt32
  /-- A 128-bit number. -/
  coinSecondsEarned : ℕ
  startClaim : UInt32
  coinSecondsEarnedLastUpdate : UInt32
  deriving DecidableEq

/-- `sum_below_max_shares` -/
def sumBelowMaxShares (a b : Asset) : Bool :=
  decide (a.amount ≤ maxShareSupply) && decide (b.amount ≤ maxShareSupply) &&
    decide (a.amount + b.amount ≤ maxShareSupply)

namespace LinearVestingPolicy

/-- The part of the balance that has vested after a number of seconds. -/
def totalVested (p : LinearVestingPolicy) (elapsedSeconds : ℕ) : ℤ :=
  if elapsedSeconds < p.vestingDurationSeconds.toNat then
    toInt64 (toUInt128 p.beginBalance * elapsedSeconds % 2 ^ 128 / p.vestingDurationSeconds.toNat % 2 ^ 64)
  else p.beginBalance

/-- `get_allowed_withdraw` -/
def getAllowedWithdraw (p : LinearVestingPolicy) (balance : Asset) (now : UInt32) : Except ChainError Asset :=
  if p.beginTimestamp < now ∧ p.vestingCliffSeconds.toNat ≤ now.toNat - p.beginTimestamp.toNat then do
    let totalVested := p.totalVested (now.toNat - p.beginTimestamp.toNat)
    fcAssert (0 ≤ totalVested) "total_vested >= 0"
    let withdrawnAlready := p.beginBalance - balance.amount
    fcAssert (0 ≤ withdrawnAlready) "withdrawn_already >= 0"
    let allowedWithdraw := totalVested - withdrawnAlready
    fcAssert (0 ≤ allowedWithdraw) "allowed_withdraw >= 0"
    return { balance with amount := allowedWithdraw }
  else return { balance with amount := 0 }

end LinearVestingPolicy

namespace CddVestingPolicy

/-- The seconds that one coin needs to vest. -/
def seconds (p : CddVestingPolicy) : ℕ := max p.vestingSeconds.toNat 1

/-- `compute_coin_seconds_earned` -/
def computeCoinSecondsEarned (p : CddVestingPolicy) (balance : Asset) (now : UInt32) : ℕ :=
  min
    ((p.coinSecondsEarned + toUInt128 balance.amount *
      toUInt128 ((now.toNat : ℤ) - p.coinSecondsEarnedLastUpdate.toNat) % 2 ^ 128) % 2 ^ 128)
    (toUInt128 balance.amount * p.seconds % 2 ^ 128)

/-- `update_coin_seconds_earned` -/
def updateCoinSecondsEarned (p : CddVestingPolicy) (balance : Asset) (now : UInt32) : CddVestingPolicy :=
  { p with
    coinSecondsEarned := p.computeCoinSecondsEarned balance now
    coinSecondsEarnedLastUpdate := now }

/-- `on_deposit_vested`. The product is one of signed 64-bit integers. -/
def onDepositVested (p : CddVestingPolicy) (balance : Asset) (now : UInt32) (amount : Asset) : CddVestingPolicy :=
  let p := p.updateCoinSecondsEarned balance now
  { p with
    coinSecondsEarned := (p.coinSecondsEarned + toUInt128 ((amount.amount * p.seconds).bmod (2 ^ 64))) % 2 ^ 128 }

/-- `get_allowed_withdraw` -/
def getAllowedWithdraw (p : CddVestingPolicy) (balance : Asset) (now : UInt32) : Asset :=
  if now ≤ p.startClaim then { balance with amount := 0 }
  else { balance with amount := toInt64 (p.computeCoinSecondsEarned balance now / p.seconds % 2 ^ 64) }

/-- The end of `on_withdraw`, after the update. -/
def spend (p : CddVestingPolicy) (amount : Asset) : Except ChainError CddVestingPolicy :=
  if toUInt128 amount.amount * p.seconds % 2 ^ 128 ≤ p.coinSecondsEarned then
    .ok { p with coinSecondsEarned := p.coinSecondsEarned - toUInt128 amount.amount * p.seconds % 2 ^ 128 }
  else .error (.assertion "coin_seconds_needed <= coin_seconds_earned")

end CddVestingPolicy

/-- `vesting_policy` -/
inductive VestingPolicy where
  | linear (p : LinearVestingPolicy)
  | cdd (p : CddVestingPolicy)
  | instant
  deriving DecidableEq

/-- `vesting_balance_object` -/
structure VestingBalance where
  policy : VestingPolicy
  balance : Asset
  deriving DecidableEq

namespace VestingBalance

/-- `get_allowed_withdraw` -/
def getAllowedWithdraw (v : VestingBalance) (now : UInt32) : Except ChainError Asset :=
  match v.policy with
  | .linear p => p.getAllowedWithdraw v.balance now
  | .cdd p => return p.getAllowedWithdraw v.balance now
  | .instant => return v.balance

/-- `is_deposit_allowed`, the same for all policies -/
def isDepositAllowed (v : VestingBalance) (amount : Asset) : Bool :=
  decide (amount.assetId = v.balance.assetId) && sumBelowMaxShares amount v.balance

/-- `is_withdraw_allowed` of the policies; that of `cdd` does not look at the asset itself. -/
def policyAllows (v : VestingBalance) (now : UInt32) (amount : Asset) : Except ChainError Bool :=
  match v.policy with
  | .cdd _ => do amount.le (← v.getAllowedWithdraw now)
  | _ =>
    if amount.assetId = v.balance.assetId then do amount.le (← v.getAllowedWithdraw now) else .ok false

/-- `is_withdraw_allowed` -/
def isWithdrawAllowed (v : VestingBalance) (now : UInt32) (amount : Asset) : Except ChainError Bool := do
  let result ← v.policyAllows now amount
  if (← amount.le v.balance) || !result then return result
  else throw (.assertion "(amount <= balance) || (!result)")

/-- `deposit` -/
def deposit (v : VestingBalance) (now : UInt32) (amount : Asset) : Except ChainError VestingBalance := do
  let policy := match v.policy with
    | .cdd p => .cdd (p.updateCoinSecondsEarned v.balance now)
    | policy => policy
  return ⟨policy, ← v.balance.add amount⟩

/-- `is_deposit_vested_allowed` -/
def isDepositVestedAllowed (v : VestingBalance) (amount : Asset) : Bool :=
  match v.policy with
  | .cdd _ => v.isDepositAllowed amount
  | _ => false

/-- `deposit_vested` -/
def depositVested (v : VestingBalance) (now : UInt32) (amount : Asset) : Except ChainError VestingBalance := do
  let policy ← match v.policy with
    | .linear _ => throw (.assertion "May not deposit vested into a linear vesting balance.")
    | .cdd p => pure (.cdd (p.onDepositVested v.balance now amount))
    | .instant => pure .instant
  return ⟨policy, ← v.balance.add amount⟩

/-- `on_withdraw` -/
def onWithdraw (v : VestingBalance) (now : UInt32) (amount : Asset) : Except ChainError VestingPolicy :=
  match v.policy with
  | .cdd p =>
    match (p.updateCoinSecondsEarned v.balance now).spend amount with
    | .error e => .error e
    | .ok p => .ok (.cdd p)
  | policy => .ok policy

/-- `withdraw` -/
def withdraw (v : VestingBalance) (now : UInt32) (amount : Asset) : Except ChainError VestingBalance := do
  if ← amount.le v.balance then
    let policy ← v.onWithdraw now amount
    return ⟨policy, ← v.balance.sub amount⟩
  else throw (.assertion "amount <= balance")

end VestingBalance

end Playchain
