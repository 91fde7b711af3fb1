import Mathlib.Data.UInt
import Playchain.Lib.ObjectIndex
import Playchain.Protocol.Types

/-!
# Hash time lock contracts

The evaluators of `htlc_create`, `htlc_redeem` and `htlc_extend` and the refund of expired contracts at the
end of a block. Points in time and periods have 32 bits and wrap. The hashes and the authorization of
accounts for an asset are given from outside.

The state carries the operations that were applied, the virtual ones among them (`AppliedHtlc`), the newest
first.
-/

namespace Playchain

/-- The hashes of preimages. -/
class PreimageHash (η : Type*) where
  /-- `htlc_redeem_visitor`: the data has this hash. -/
  accepts : η → List UInt8 → Bool

/-- `htlc_options` -/
structure HtlcOptions where
  maxTimeoutSecs : UInt32
  maxPreimageSize : UInt32
  deriving DecidableEq

/-- `htlc_object` -/
structure HtlcObject (η : Type*) where
  sender : AccountId
  recipient : AccountId
  amount : ℤ
  assetId : AssetId
  preimageHash : η
  preimageSize : UInt16
  expiration : UInt32
  deriving DecidableEq

/-- `htlc_create_operation` -/
structure HtlcCreateOperation (η : Type*) where
  sender : AccountId
  recipient : AccountId
  amount : ℤ
  assetId : AssetId
  preimageHash : η
  preimageSize : UInt16
  claimPeriodSeconds : UInt32

/-- `htlc_redeem_operation` -/
structure HtlcRedeemOperation where
  htlcId : ℕ
  redeemer : AccountId
  preimage : List UInt8

/-- `htlc_extend_operation` -/
structure HtlcExtendOperation where
  htlcId : ℕ
  updateIssuer : AccountId
  secondsToAdd : UInt32

/-- What has been applied, with the contract and the head block time. -/
inductive AppliedHtlc (η : Type*) where
  | created (id : ℕ) (time : UInt32) (o : HtlcCreateOperation η)
  | extended (id : ℕ) (seconds : UInt32)
  /-- `htlc_redeemed_operation` -/
  | redeemed (id : ℕ) (contract : HtlcObject η) (preimage : List UInt8)
  /-- `htlc_refund_operation` -/
  | refunded (id : ℕ) (contract : HtlcObject η) (time : UInt32)

/-- The part of the chain that contracts read and write. -/
structure HtlcState (η : Type*) where
  headBlockTime : UInt32
  htlcOptions : Option HtlcOptions
  isAuthorizedAsset : AccountId → AssetId → Bool
  balances : AccountId → AssetId → ℤ
  htlcs : ObjectIndex (HtlcObject η)
  applied : List (AppliedHtlc η)

namespace HtlcState

variable {η : Type*}

/-- `adjust_balance`, for an amount that has been checked -/
def adjustBalance (s : HtlcState η) (account : AccountId) (assetId : AssetId) (delta : ℤ) : HtlcState η :=
  { s with balances := fun a x ↦ if a = account ∧ x = assetId then s.balances a x + delta else s.balances a x }

/-- `htlc_create_operation::validate` and `htlc_create_evaluator::do_evaluate` -/
def htlcCreateEvaluate (s : HtlcState η) (o : HtlcCreateOperation η) : Except String Unit :=
  if ¬ 0 < o.amount then .error "HTLC amount should be greater than zero"
  else
    match s.htlcOptions with
    | none => .error "HTLC Committee options are not set."
    | some options =>
      if ¬ o.claimPeriodSeconds ≤ options.maxTimeoutSecs then .error "HTLC Timeout exceeds allowed length"
      else if ¬ o.preimageSize.toNat ≤ options.maxPreimageSize.toNat then
        .error "HTLC preimage length exceeds allowed length"
      else if ¬ o.amount ≤ s.balances o.sender o.assetId then .error "Insufficient funds"
      else if ¬ s.isAuthorizedAsset o.sender o.assetId then
        .error "Asset ${asset} is not authorized for account ${acct}."
      else if ¬ s.isAuthorizedAsset o.recipient o.assetId then
        .error "Asset ${asset} is not authorized for account ${acct}."
      else .ok ()

/-- `htlc_create_evaluator::do_apply` -/
def htlcCreateApply (s : HtlcState η) (o : HtlcCreateOperation η) : HtlcState η :=
  let s' := s.adjustBalance o.sender o.assetId (-o.amount)
  { s' with
    htlcs := s.htlcs.create {
      sender := o.sender
      recipient := o.recipient
      amount := o.amount
      assetId := o.assetId
      preimageHash := o.preimageHash
      preimageSize := o.preimageSize
      expiration := s.headBlockTime + o.claimPeriodSeconds }
    applied := .created s.htlcs.nextId s.headBlockTime o :: s.applied }

/-- `htlc_create` -/
def htlcCreate (s : HtlcState η) (o : HtlcCreateOperation η) : Except String (HtlcState η) :=
  match s.htlcCreateEvaluate o with
  | .error e => .error e
  | .ok _ => .ok (s.htlcCreateApply o)

/-- `htlc_redeem` -/
def htlcRedeem [PreimageHash η] (s : HtlcState η) (o : HtlcRedeemOperation) : Except String (HtlcState η) :=
  match s.htlcs.find? o.htlcId with
  | none => .error "Unable to find Object"
  | some contract =>
    if ¬ o.preimage.length = contract.preimageSize.toNat then .error "Preimage size mismatch."
    else if ¬ PreimageHash.accepts contract.preimageHash o.preimage then
      .error "Provided preimage does not generate correct hash."
    else
      let s' := s.adjustBalance contract.recipient contract.assetId contract.amount
      .ok { s' with
        htlcs := s.htlcs.remove o.htlcId
        applied := .redeemed o.htlcId contract o.preimage :: s.applied }

/-- `htlc_extend`. The sum of the first check has 64 bits, the sums of the second have 32. -/
def htlcExtend (s : HtlcState η) (o : HtlcExtendOperation) : Except String (HtlcState η) :=
  match s.htlcs.find? o.htlcId with
  | none => .error "Unable to find Object"
  | some contract =>
    if ¬ o.updateIssuer = contract.sender then .error "HTLC may only be extended by its creator."
    else if ¬ contract.expiration.toNat + o.secondsToAdd.toNat < 2 ^ 32 - 1 then
      .error "Extension would cause an invalid date"
    else
      match s.htlcOptions with
      | none => .error "HTLC Committee options are not set."
      | some options =>
        if ¬ contract.expiration + o.secondsToAdd ≤ s.headBlockTime + options.maxTimeoutSecs then
          .error "Extension pushes contract too far into the future"
        else .ok { s with
          htlcs := s.htlcs.set o.htlcId { contract with expiration := contract.expiration + o.secondsToAdd }
          applied := .extended o.htlcId o.secondsToAdd :: s.applied }

/-- The order of `by_expiration`. -/
def byExpiration (s : HtlcState η) : List (ℕ × HtlcObject η) :=
  s.htlcs.orderedBy fun a b ↦ a.2.expiration.toNat < b.2.expiration.toNat ∨
    (a.2.expiration.toNat = b.2.expiration.toNat ∧ a.1 ≤ b.1)

/-- One refund of `clear_expired_htlcs`. -/
def refund (s : HtlcState η) (id : ℕ) (contract : HtlcObject η) : HtlcState η :=
  let s' := s.adjustBalance contract.sender contract.assetId contract.amount
  { s' with
    htlcs := s.htlcs.remove id
    applied := .refunded id contract s.headBlockTime :: s.applied }

/-- The loop of `clear_expired_htlcs`: each turn removes a contract, which bounds the fuel. -/
def clearExpiredLoop : ℕ → HtlcState η → HtlcState η
  | 0, s => s
  | fuel + 1, s =>
    match s.byExpiration.head? with
    | none => s
    | some (id, contract) =>
      if contract.expiration ≤ s.headBlockTime then clearExpiredLoop fuel (s.refund id contract) else s

/-- `clear_expired_htlcs` -/
def clearExpiredHtlcs (s : HtlcState η) : HtlcState η := s.clearExpiredLoop s.htlcs.toList.length

/-- A block: a maintenance may change the options, other operations the authorizations. -/
def applyBlock (s : HtlcState η) (timestamp : UInt32) (options : Option HtlcOptions)
    (authorized : AccountId → AssetId → Bool) : HtlcState η :=
  clearExpiredHtlcs { s with
    headBlockTime := timestamp, htlcOptions := options, isAuthorizedAsset := authorized }

end HtlcState

end Playchain
