import Mathlib.Data.UInt
import Playchain.Schema.Database

/-!
# Withdraw permissions

An account lets another one withdraw up to a limit in each period. The permission remembers the start of
the period of the last claim and what was claimed in it; both are brought up to date when a claim is made.
Points in time and periods have 32 bits and wrap.

A run of the chain is a list of events: blocks, which may change everything around the permissions, and
operations, which have no effect when they are rejected. `trace` lists the claims that were paid.
-/

namespace Playchain

/-- `withdraw_permission_object` -/
structure WithdrawPermissionObject where
  withdrawFromAccount : AccountId
  authorizedAccount : AccountId
  withdrawalLimit : Asset
  withdrawalPeriodSec : UInt32
  periodStartTime : UInt32
  expiration : UInt32
  claimedThisPeriod : ℤ := 0
  deriving DecidableEq

/-- `available_this_period` -/
def WithdrawPermissionObject.availableThisPeriod (p : WithdrawPermissionObject) (currentTime : UInt32) :
    Asset :=
  if p.periodStartTime + p.withdrawalPeriodSec ≤ currentTime then p.withdrawalLimit
  else
    { amount :=
        if p.claimedThisPeriod < p.withdrawalLimit.amount then
          p.withdrawalLimit.amount - p.claimedThisPeriod
        else 0
      assetId := p.withdrawalLimit.assetId }

/-- The terms that `withdraw_permission_create_operation` and `withdraw_permission_update_operation`
set. -/
structure WithdrawTerms where
  withdrawalLimit : Asset
  withdrawalPeriodSec : UInt32
  periodsUntilExpiration : UInt32
  periodStartTime : UInt32
  deriving DecidableEq

/-- The end of the last period, in 32 bits. -/
def WithdrawTerms.expiration (t : WithdrawTerms) : UInt32 :=
  t.periodStartTime + t.periodsUntilExpiration * t.withdrawalPeriodSec

/-- `withdraw_permission_create_operation` -/
structure WithdrawPermissionCreate where
  fee : Asset := {}
  withdrawFromAccount : AccountId
  authorizedAccount : AccountId
  terms : WithdrawTerms

/-- `withdraw_permission_update_operation` -/
structure WithdrawPermissionUpdate where
  fee : Asset := {}
  withdrawFromAccount : AccountId
  authorizedAccount : AccountId
  permissionToUpdate : ℕ
  terms : WithdrawTerms

/-- `withdraw_permission_claim_operation` -/
structure WithdrawPermissionClaim where
  fee : Asset := {}
  withdrawPermission : ℕ
  withdrawFromAccount : AccountId
  withdrawToAccount : AccountId
  amountToWithdraw : Asset

/-- `withdraw_permission_delete_operation` -/
structure WithdrawPermissionDelete where
  fee : Asset := {}
  withdrawFromAccount : AccountId
  authorizedAccount : AccountId
  withdrawalPermission : ℕ

/-- What the evaluators read around the permissions; the balances are also written. -/
structure WithdrawSurroundings where
  headBlockTime : UInt32
  /-- `block_interval` of the chain parameters. -/
  blockInterval : UInt8 := 3
  accountExists : AccountId → Bool
  assetExists : AssetId → Bool
  isTransferRestricted : AssetId → Bool
  issuer : AssetId → AccountId
  isAuthorizedAsset : AccountId → AssetId → Bool
  balances : AccountId → AssetId → ℤ

/-- The chain as far as withdraw permissions go. -/
structure WithdrawState extends WithdrawSurroundings where
  permissions : ObjectIndex WithdrawPermissionObject := ∅

/-- A claim that was paid. -/
structure PaidClaim where
  permission : ℕ
  time : UInt32
  amount : Asset
  deriving DecidableEq

namespace WithdrawState

/-- `adjust_balance`, for an amount that has been checked -/
def adjustBalance (s : WithdrawState) (account : AccountId) (delta : Asset) : WithdrawState :=
  { s with balances := fun a x ↦
      if a = account ∧ x = delta.assetId then s.balances a x + delta.amount else s.balances a x }

/-! ### The evaluators -/

/-- The part of `validate` that `withdraw_permission_create_operation` and
`withdraw_permission_update_operation` share. -/
def validateTerms (fee : Asset) (withdrawFrom authorized : AccountId) (t : WithdrawTerms) :
    Except ChainError Unit := do
  fcAssert (0 ≤ fee.amount) "fee.amount >= 0"
  fcAssert (withdrawFrom ≠ authorized) "withdraw_from_account != authorized_account"
  fcAssert (0 < t.withdrawalLimit.amount) "withdrawal_limit.amount > 0"
  fcAssert (0 < t.withdrawalPeriodSec) "withdrawal_period_sec > 0"
  fcAssert (0 < t.periodsUntilExpiration) "periods_until_expiration > 0"

/-- The checks of the terms that both evaluators end with. -/
def evaluateTerms (s : WithdrawState) (t : WithdrawTerms) : Except ChainError Unit := do
  fcAssert (s.headBlockTime < t.expiration)
    "op.period_start_time + op.periods_until_expiration * op.withdrawal_period_sec > d.head_block_time()"
  fcAssert (s.blockInterval.toNat ≤ t.withdrawalPeriodSec.toNat)
    "op.withdrawal_period_sec >= d.get_global_properties().parameters.block_interval"

/-- `withdraw_permission_create_evaluator` -/
def createPermission (s : WithdrawState) (op : WithdrawPermissionCreate) :
    Except ChainError WithdrawState := do
  validateTerms op.fee op.withdrawFromAccount op.authorizedAccount op.terms
  fcAssert (s.accountExists op.withdrawFromAccount = true) "d.find_object(op.withdraw_from_account)"
  fcAssert (s.accountExists op.authorizedAccount = true) "d.find_object(op.authorized_account)"
  fcAssert (s.assetExists op.terms.withdrawalLimit.assetId = true)
    "d.find_object(op.withdrawal_limit.asset_id)"
  fcAssert (s.headBlockTime < op.terms.periodStartTime) "op.period_start_time > d.head_block_time()"
  evaluateTerms s op.terms
  return { s with permissions := s.permissions.create {
      withdrawFromAccount := op.withdrawFromAccount
      authorizedAccount := op.authorizedAccount
      withdrawalLimit := op.terms.withdrawalLimit
      withdrawalPeriodSec := op.terms.withdrawalPeriodSec
      expiration := op.terms.expiration
      periodStartTime := op.terms.periodStartTime } }

/-- `withdraw_permission_claim_evaluator::do_evaluate` -/
def evaluateClaim (s : WithdrawState) (op : WithdrawPermissionClaim)
    (permit : WithdrawPermissionObject) : Except ChainError Unit := do
  fcAssert (s.headBlockTime < permit.expiration) "permit.expiration > head_block_time"
  fcAssert (permit.authorizedAccount = op.withdrawToAccount)
    "permit.authorized_account == op.withdraw_to_account"
  fcAssert (permit.withdrawFromAccount = op.withdrawFromAccount)
    "permit.withdraw_from_account == op.withdraw_from_account"
  fcAssert (permit.periodStartTime ≤ s.headBlockTime) "permit.period_start_time <= head_block_time"
  fcAssert ((← op.amountToWithdraw.le (permit.availableThisPeriod s.headBlockTime)) = true)
    "op.amount_to_withdraw <= permit.available_this_period( head_block_time )"
  fcAssert (op.amountToWithdraw.amount ≤
      s.balances op.withdrawFromAccount op.amountToWithdraw.assetId)
    "d.get_balance(op.withdraw_from_account, op.amount_to_withdraw.asset_id) >= op.amount_to_withdraw"
  fcAssert (s.isTransferRestricted op.amountToWithdraw.assetId = false ∨
      s.issuer op.amountToWithdraw.assetId = permit.authorizedAccount ∨
      s.issuer op.amountToWithdraw.assetId = permit.withdrawFromAccount)
    "Asset ${a} '${sym}' has transfer_restricted flag enabled"
  fcAssert (s.isAuthorizedAsset permit.authorizedAccount op.amountToWithdraw.assetId = true)
    "Account ${acct} '${name}' is unauthorized to transact asset ${a} '${sym}' due to whitelist / blacklist"
  fcAssert (s.isAuthorizedAsset op.withdrawFromAccount op.amountToWithdraw.assetId = true)
    "Account ${acct} '${name}' is unauthorized to withdraw asset ${a} '${sym}' due to whitelist / blacklist"

/-- The permission after a claim. The difference of the times has 64 bits, and it is not negative for a
claim that was admitted. -/
def recordClaim (headBlockTime : UInt32) (amount : ℤ) (p : WithdrawPermissionObject) :
    WithdrawPermissionObject :=
  let periods := (headBlockTime.toNat - p.periodStartTime.toNat) / p.withdrawalPeriodSec.toNat
  { p with
    periodStartTime := p.periodStartTime + UInt32.ofNat (periods * p.withdrawalPeriodSec.toNat)
    claimedThisPeriod := if periods = 0 then p.claimedThisPeriod + amount else amount }

/-- `withdraw_permission_claim_evaluator` -/
def claimPermission (s : WithdrawState) (op : WithdrawPermissionClaim) :
    Except ChainError WithdrawState := do
  fcAssert (op.withdrawToAccount ≠ op.withdrawFromAccount)
    "withdraw_to_account != withdraw_from_account"
  fcAssert (0 < op.amountToWithdraw.amount) "amount_to_withdraw.amount > 0"
  fcAssert (0 ≤ op.fee.amount) "fee.amount >= 0"
  let permit ← orUnableToFind (s.permissions.find? op.withdrawPermission)
  evaluateClaim s op permit
  let permissions := s.permissions.modify op.withdrawPermission
    (recordClaim s.headBlockTime op.amountToWithdraw.amount)
  let s := { s with permissions := permissions }
  let s := s.adjustBalance op.withdrawFromAccount (-op.amountToWithdraw)
  return s.adjustBalance op.withdrawToAccount op.amountToWithdraw

/-- The permission after an update: what was claimed stays. -/
def applyTerms (t : WithdrawTerms) (p : WithdrawPermissionObject) : WithdrawPermissionObject :=
  { p with
    periodStartTime := t.periodStartTime
    expiration := t.expiration
    withdrawalLimit := t.withdrawalLimit
    withdrawalPeriodSec := t.withdrawalPeriodSec }

/-- `withdraw_permission_update_evaluator` -/
def updatePermission (s : WithdrawState) (op : WithdrawPermissionUpdate) :
    Except ChainError WithdrawState := do
  validateTerms op.fee op.withdrawFromAccount op.authorizedAccount op.terms
  let permit ← orUnableToFind (s.permissions.find? op.permissionToUpdate)
  fcAssert (permit.authorizedAccount = op.authorizedAccount)
    "permit.authorized_account == op.authorized_account"
  fcAssert (permit.withdrawFromAccount = op.withdrawFromAccount)
    "permit.withdraw_from_account == op.withdraw_from_account"
  fcAssert (s.assetExists op.terms.withdrawalLimit.assetId = true)
    "d.find_object(op.withdrawal_limit.asset_id)"
  fcAssert (s.headBlockTime ≤ op.terms.periodStartTime) "op.period_start_time >= d.head_block_time()"
  evaluateTerms s op.terms
  return { s with permissions := s.permissions.modify op.permissionToUpdate (applyTerms op.terms) }

/-- `withdraw_permission_delete_evaluator` -/
def deletePermission (s : WithdrawState) (op : WithdrawPermissionDelete) :
    Except ChainError WithdrawState := do
  fcAssert (0 ≤ op.fee.amount) "fee.amount >= 0"
  fcAssert (op.withdrawFromAccount ≠ op.authorizedAccount)
    "withdraw_from_account != authorized_account"
  let permit ← orUnableToFind (s.permissions.find? op.withdrawalPermission)
  fcAssert (permit.authorizedAccount = op.authorizedAccount)
    "permit.authorized_account == op.authorized_account"
  fcAssert (permit.withdrawFromAccount = op.withdrawFromAccount)
    "permit.withdraw_from_account == op.withdraw_from_account"
  return { s with permissions := s.permissions.remove op.withdrawalPermission }

/-- `update_withdraw_permissions`: the expired permissions are removed at the end of a block. -/
def updateWithdrawPermissions (s : WithdrawState) : WithdrawState :=
  let expired := s.permissions.toList.filter fun p ↦ p.2.expiration ≤ s.headBlockTime
  { s with
    permissions := expired.foldl (fun permissions p ↦ permissions.remove p.1) s.permissions }

/-! ### Runs -/

/-- What happens on the chain. -/
inductive Event where
  /-- A block: everything around the permissions may change, and time does not go back. -/
  | block (surroundings : WithdrawSurroundings)
  | create (op : WithdrawPermissionCreate)
  | claim (op : WithdrawPermissionClaim)
  | update (op : WithdrawPermissionUpdate)
  | delete (op : WithdrawPermissionDelete)

/-- The state after an operation, which is the state before it if the operation is rejected. -/
def orUnchanged (s : WithdrawState) : Except ChainError WithdrawState → WithdrawState
  | .ok s' => s'
  | .error _ => s

/-- The state after an event. -/
def step (s : WithdrawState) : Event → WithdrawState
  | .block surroundings =>
    if s.headBlockTime ≤ surroundings.headBlockTime then
      updateWithdrawPermissions { surroundings with permissions := s.permissions }
    else s
  | .create op => s.orUnchanged (s.createPermission op)
  | .claim op => s.orUnchanged (s.claimPermission op)
  | .update op => s.orUnchanged (s.updatePermission op)
  | .delete op => s.orUnchanged (s.deletePermission op)

/-- The claim that an event has paid. -/
def paid (s : WithdrawState) : Event → List PaidClaim
  | .claim op =>
    match s.claimPermission op with
    | .ok _ => [⟨op.withdrawPermission, s.headBlockTime, op.amountToWithdraw⟩]
    | .error _ => []
  | _ => []

/-- The state after some events. -/
def run (s : WithdrawState) : List Event → WithdrawState
  | [] => s
  | e :: events => (s.step e).run events

/-- The claims that some events have paid, in their order. -/
def trace (s : WithdrawState) : List Event → List PaidClaim
  | [] => []
  | e :: events => s.paid e ++ (s.step e).trace events

end WithdrawState

end Playchain
