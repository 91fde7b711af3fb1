import Playchain.Blocks.Production
import Playchain.Graphene.Prices

/-!
# Fees

The fee schedule of `fee_schedule.cpp` with the `calculate_fee` of every operation, the answer of
`get_required_fees` (`database_api.cpp`), and the check of a fee by the evaluator of its operation
(`evaluator.cpp`, `evaluator.hpp`). The fee of an operation can depend on its packed size, which
depends on the asset that the fee is paid in and, for a proposal, on the fees of the proposed
operations.

An operation is what its fee is calculated from: the kind of calculation, the contents that it looks
at, and the packed sizes. The fields of `calculate_fee` have 64 bits: a sum is computed with
`uint64_t` and wraps, or with `share_type` and is checked.
-/

namespace Playchain

/-- `GRAPHENE_BLOCKCHAIN_PRECISION` -/
def blockchainPrecision : UInt64 := 100000

/-- `SECONDS_PER_DAY` -/
def secondsPerDay : ℕ := 60 * 60 * 24

/-! ### What an operation costs -/

/-- `calculate_data_fee` -/
def calculateDataFee (bytes : ℕ) (pricePerKbyte : UInt32) : Except ChainError UInt64 := do
  let result := bytes * pricePerKbyte.toNat / 1024
  fcAssert (result ≤ maxShareSupply.toNat) "result <= GRAPHENE_MAX_SHARE_SUPPLY"
  return .ofNat result

/-- A `uint64_t` as a `share_type` -/
def toShareType (x : UInt64) : ℤ := toInt64 x.toNat

/-- `operator+` of `share_type` -/
def addShares (x y : ℤ) : Except ChainError ℤ := do
  fcAssert (-2 ^ 63 ≤ x + y ∧ x + y < 2 ^ 63) "overflow"
  return x + y

/-- `is_cheap_name` -/
def isCheapName (n : String) : Bool :=
  n.toList.any (fun c ↦ ('0' ≤ c ∧ c ≤ '9') ∨ c = '.' ∨ c = '-' ∨ c = '/') ||
    !n.toList.any fun c ↦ c ∈ ['a', 'e', 'i', 'o', 'u', 'y']

/-- The bodies of `calculate_fee`. -/
inductive FeeKind where
  /-- No fee, and no parameters. -/
  | free
  /-- The one of `base_operation`: `fee`. -/
  | flat
  /-- `assert_operation`: `fee` for each predicate. -/
  | predicates
  /-- `fee` and a data fee for the whole operation. -/
  | wholeSize
  /-- `calculate_fee_with_kbyte`, the same with a checked sum. -/
  | withKbyte
  /-- `fee` and a data fee for the memo, if there is one. -/
  | memo
  /-- `asset_issue_operation`: the memo is charged for even if there is none. -/
  | issueMemo
  /-- `account_update_operation`: the data fee is for new options. -/
  | newOptions
  /-- `fee` and `price_per_output` for each output. -/
  | outputs
  /-- `account_create_operation` -/
  | accountCreate
  /-- `account_upgrade_operation` -/
  | accountUpgrade
  /-- `asset_create_operation` -/
  | assetCreate
  /-- `htlc_create_operation` -/
  | htlcCreate
  /-- `htlc_redeem_operation` -/
  | htlcRedeem
  /-- `htlc_extend_operation` -/
  | htlcExtend
  deriving DecidableEq, Repr

/-- `fee` and `price_per_kbyte` -/
structure PerKbyteFee where
  fee : UInt64
  pricePerKbyte : UInt32

/-- `fee` and `price_per_output` -/
structure PerOutputFee where
  fee : UInt64
  pricePerOutput : UInt32

/-- The parameters of `account_create_operation` -/
structure AccountCreateFee where
  basicFee : UInt64
  premiumFee : UInt64
  pricePerKbyte : UInt32

/-- The parameters of `account_upgrade_operation` -/
structure AccountUpgradeFee where
  membershipAnnualFee : UInt64
  membershipLifetimeFee : UInt64

/-- The parameters of `asset_create_operation` -/
structure AssetCreateFee where
  symbol3 : UInt64
  symbol4 : UInt64
  longSymbol : UInt64
  pricePerKbyte : UInt32

/-- `fee` and `fee_per_day` or `fee_per_kb` -/
structure HtlcFee where
  fee : UInt64
  feePerUnit : UInt64

namespace FeeKind

/-- `fee_parameters_type` -/
def Parameters : FeeKind → Type
  | free => Unit
  | flat | predicates => UInt64
  | wholeSize | withKbyte | memo | issueMemo | newOptions => PerKbyteFee
  | outputs => PerOutputFee
  | accountCreate => AccountCreateFee
  | accountUpgrade => AccountUpgradeFee
  | assetCreate => AssetCreateFee
  | htlcCreate | htlcRedeem | htlcExtend => HtlcFee

/-- What `calculate_fee` reads of the operation: the number of predicates or outputs, the size of
the memo, whether there are new options, the name or the length of the symbol, the lifetime
membership, the seconds or the size of the preimage. -/
def Content : FeeKind → Type
  | free | flat | wholeSize | withKbyte => Unit
  | predicates | outputs | issueMemo | assetCreate | htlcCreate | htlcRedeem | htlcExtend => ℕ
  | memo => Option ℕ
  | newOptions | accountUpgrade => Bool
  | accountCreate => String

/-- The fee of `wholeSize`, and of `issueMemo` for the size of the memo -/
def sizeFee (k : PerKbyteFee) (size : ℕ) : Except ChainError ℤ := do
  return toShareType (k.fee + (← calculateDataFee size k.pricePerKbyte))

/-- `calculate_fee_with_kbyte` -/
def calculateFeeWithKbyte (k : PerKbyteFee) (size : ℕ) : Except ChainError ℤ := do
  addShares (toShareType k.fee) (toShareType (← calculateDataFee size k.pricePerKbyte))

/-- The fee of an operation with an optional memo. -/
def memoFee (k : PerKbyteFee) : Option ℕ → Except ChainError ℤ
  | none => .ok (toShareType k.fee)
  | some size => calculateFeeWithKbyte k size

/-- The fee of `account_update_operation` -/
def updateFee (k : PerKbyteFee) (newOptions : Bool) (size : ℕ) : Except ChainError ℤ :=
  if newOptions then calculateFeeWithKbyte k size else .ok (toShareType k.fee)

/-- The fee of `account_create_operation` -/
def accountCreateFee (k : AccountCreateFee) (name : String) (size : ℕ) : Except ChainError ℤ := do
  let required := if isCheapName name then k.basicFee else k.premiumFee
  return toShareType (required + (← calculateDataFee size k.pricePerKbyte))

/-- The fee of `asset_create_operation` -/
def assetCreateFee (k : AssetCreateFee) (symbolSize size : ℕ) : Except ChainError ℤ := do
  let required := if symbolSize = 3 then k.symbol3
    else if symbolSize = 4 then k.symbol4 else k.longSymbol
  return toShareType (required + (← calculateDataFee size k.pricePerKbyte))

/-- The fee for days or kilobytes, whose product is checked by a division. -/
def unitFee (k : HtlcFee) (units : ℕ) : Except ChainError ℤ := do
  let product := k.feePerUnit * .ofNat units
  fcAssert (units = 0 ∨ product / .ofNat units = k.feePerUnit) "Fee calculation overflow"
  return toShareType (k.fee + product)

/-- The days that are charged for, which are computed with 32 bits. -/
def daysOf (seconds : ℕ) : ℕ := (seconds + (secondsPerDay - 1)) % 2 ^ 32 / secondsPerDay

/-- The `calculate_fee` of an operation with a packed size. -/
def calculateFee (size : ℕ) : (kind : FeeKind) → kind.Parameters → kind.Content →
    Except ChainError ℤ
  | free, _, _ => .ok 0
  | flat, fee, _ => .ok (toShareType fee)
  | predicates, fee, n => .ok (toShareType (UInt64.mul fee (.ofNat n)))
  | wholeSize, k, _ => sizeFee k size
  | withKbyte, k, _ => calculateFeeWithKbyte k size
  | memo, k, size => memoFee k size
  | issueMemo, k, memoSize => sizeFee k memoSize
  | newOptions, k, given => updateFee k given size
  | outputs, k, n => .ok (toShareType
    (PerOutputFee.fee k + .ofNat n * (PerOutputFee.pricePerOutput k).toUInt64))
  | accountCreate, k, name => accountCreateFee k name size
  | accountUpgrade, k, lifetime =>
    .ok (toShareType (cond lifetime (AccountUpgradeFee.membershipLifetimeFee k)
      (AccountUpgradeFee.membershipAnnualFee k)))
  | assetCreate, k, symbolSize => assetCreateFee k symbolSize size
  | htlcCreate, k, seconds | htlcExtend, k, seconds => unitFee k (daysOf seconds)
  | htlcRedeem, k, preimageSize => unitFee k (Nat.add preimageSize 1023 / 1024)

end FeeKind

/-! ### The schedule -/

/-- The operations in the order of `operation`, with the default values of their parameters. -/
def operationFees : List (Σ kind : FeeKind, kind.Parameters) := [
  ⟨.memo, 20 * blockchainPrecision, 1000000⟩, -- `transfer_operation`
  ⟨.flat, 5 * blockchainPrecision⟩, -- `limit_order_create_operation`
  ⟨.flat, (0 : UInt64)⟩, -- `limit_order_cancel_operation`
  ⟨.flat, 20 * blockchainPrecision⟩, -- `call_order_update_operation`
  ⟨.free, ()⟩, -- `fill_order_operation`
  ⟨.accountCreate, 5 * blockchainPrecision, 2000 * blockchainPrecision, 100000⟩,
    -- `account_create_operation`
  ⟨.newOptions, 20 * blockchainPrecision, 100000⟩, -- `account_update_operation`
  ⟨.flat, (300000 : UInt64)⟩, -- `account_whitelist_operation`
  ⟨.accountUpgrade, 2000 * blockchainPrecision, 10000 * blockchainPrecision⟩,
    -- `account_upgrade_operation`
  ⟨.flat, 500 * blockchainPrecision⟩, -- `account_transfer_operation`
  ⟨.assetCreate, 500000 * blockchainPrecision, 300000 * blockchainPrecision,
    5000 * blockchainPrecision,
    10⟩, -- `asset_create_operation`
  ⟨.wholeSize, 500 * blockchainPrecision, 10⟩, -- `asset_update_operation`
  ⟨.flat, 500 * blockchainPrecision⟩, -- `asset_update_bitasset_operation`
  ⟨.flat, 500 * blockchainPrecision⟩, -- `asset_update_feed_producers_operation`
  ⟨.issueMemo, 20 * blockchainPrecision, 100000⟩, -- `asset_issue_operation`
  ⟨.flat, 20 * blockchainPrecision⟩, -- `asset_reserve_operation`
  ⟨.flat, blockchainPrecision⟩, -- `asset_fund_fee_pool_operation`
  ⟨.flat, 100 * blockchainPrecision⟩, -- `asset_settle_operation`
  ⟨.flat, 500 * blockchainPrecision⟩, -- `asset_global_settle_operation`
  ⟨.flat, blockchainPrecision⟩, -- `asset_publish_feed_operation`
  ⟨.flat, 5000 * blockchainPrecision⟩, -- `witness_create_operation`
  ⟨.flat, 20 * blockchainPrecision⟩, -- `witness_update_operation`
  ⟨.wholeSize, 20 * blockchainPrecision, 10⟩, -- `proposal_create_operation`
  ⟨.wholeSize, 20 * blockchainPrecision, 10⟩, -- `proposal_update_operation`
  ⟨.flat, blockchainPrecision⟩, -- `proposal_delete_operation`
  ⟨.flat, blockchainPrecision⟩, -- `withdraw_permission_create_operation`
  ⟨.flat, blockchainPrecision⟩, -- `withdraw_permission_update_operation`
  ⟨.memo, 20 * blockchainPrecision, 10⟩, -- `withdraw_permission_claim_operation`
  ⟨.flat, (0 : UInt64)⟩, -- `withdraw_permission_delete_operation`
  ⟨.flat, 5000 * blockchainPrecision⟩, -- `committee_member_create_operation`
  ⟨.flat, 20 * blockchainPrecision⟩, -- `committee_member_update_operation`
  ⟨.flat, blockchainPrecision⟩, -- `committee_member_update_global_parameters_operation`
  ⟨.flat, blockchainPrecision⟩, -- `vesting_balance_create_operation`
  ⟨.flat, 20 * blockchainPrecision⟩, -- `vesting_balance_withdraw_operation`
  ⟨.flat, 5000 * blockchainPrecision⟩, -- `worker_create_operation`
  ⟨.wholeSize, blockchainPrecision, 10⟩, -- `custom_operation`
  ⟨.predicates, blockchainPrecision⟩, -- `assert_operation`
  ⟨.free, ()⟩, -- `balance_claim_operation`
  ⟨.memo, 20 * blockchainPrecision, 10⟩, -- `override_transfer_operation`
  ⟨.outputs, 5 * blockchainPrecision, 500000⟩, -- `transfer_to_blind_operation`
  ⟨.outputs, 5 * blockchainPrecision, 500000⟩, -- `blind_transfer_operation`
  ⟨.flat, 5 * blockchainPrecision⟩, -- `transfer_from_blind_operation`
  ⟨.free, ()⟩, -- `asset_settle_cancel_operation`
  ⟨.flat, 20 * blockchainPrecision⟩, -- `asset_claim_fees_operation`
  ⟨.free, ()⟩, -- `fba_distribute_operation`
  ⟨.flat, 20 * blockchainPrecision⟩, -- `bid_collateral_operation`
  ⟨.free, ()⟩, -- `execute_bid_operation`
  ⟨.flat, 20 * blockchainPrecision⟩, -- `asset_claim_pool_operation`
  ⟨.flat, 20 * blockchainPrecision⟩, -- `asset_update_issuer_operation`
  ⟨.htlcCreate, blockchainPrecision, blockchainPrecision⟩, -- `htlc_create_operation`
  ⟨.htlcRedeem, blockchainPrecision, blockchainPrecision⟩, -- `htlc_redeem_operation`
  ⟨.free, ()⟩, -- `htlc_redeemed_operation`
  ⟨.htlcExtend, blockchainPrecision, blockchainPrecision⟩, -- `htlc_extend_operation`
  ⟨.free, ()⟩, -- `htlc_refund_operation`
  ⟨.free, ()⟩, -- `bitshares_dump_operation_8`
  ⟨.free, ()⟩, -- `bitshares_dump_operation_9`
  ⟨.withKbyte, 2 * blockchainPrecision, 100000⟩, -- `player_invitation_create_operation`
  ⟨.free, ()⟩, -- `player_invitation_resolve_operation`
  ⟨.withKbyte, blockchainPrecision, 100000⟩, -- `player_invitation_cancel_operation`
  ⟨.free, ()⟩, -- `player_invitation_expire_operation`
  ⟨.free, ()⟩, -- `player_create_operation`
  ⟨.free, ()⟩, -- `game_witness_create_operation`
  ⟨.withKbyte, 1000 * blockchainPrecision, 100000⟩, -- `room_create_operation`
  ⟨.withKbyte, 100 * blockchainPrecision, 100000⟩, -- `room_update_operation`
  ⟨.withKbyte, 100 * blockchainPrecision, 100000⟩, -- `table_create_operation`
  ⟨.withKbyte, 5 * blockchainPrecision, 100000⟩, -- `table_update_operation`
  ⟨.flat, (0 : UInt64)⟩, -- `buy_in_table_operation`
  ⟨.withKbyte, 0, 100000⟩, -- `buy_out_table_operation`
  ⟨.withKbyte, 0, 0⟩, -- `game_start_playing_check_operation`
  ⟨.withKbyte, 0, 0⟩, -- `game_result_check_operation`
  ⟨.free, ()⟩, -- `game_event_operation`
  ⟨.flat, blockchainPrecision⟩, -- `player_create_by_room_owner_operation`
  ⟨.flat, (0 : UInt64)⟩, -- `game_reset_operation`
  ⟨.withKbyte, 0, 100000⟩, -- `buy_in_reserve_operation`
  ⟨.withKbyte, 0, 100000⟩, -- `buy_in_reserving_cancel_operation`
  ⟨.flat, (0 : UInt64)⟩, -- `buy_in_reserving_resolve_operation`
  ⟨.free, ()⟩, -- `buy_in_reserving_allocated_table_operation`
  ⟨.free, ()⟩, -- `buy_in_reserving_expire_operation`
  ⟨.flat, (0 : UInt64)⟩, -- `donate_to_playchain_operation`
  ⟨.flat, (0 : UInt64)⟩, -- `buy_in_reserving_cancel_all_operation`
  ⟨.free, ()⟩, -- `buy_in_expire_operation`
  ⟨.flat, 50 * blockchainPrecision⟩, -- `playchain_committee_member_create_operation`
  ⟨.flat, 10 * blockchainPrecision⟩, -- `playchain_committee_member_update_operation`
  ⟨.flat, (0 : UInt64)⟩, -- `playchain_committee_member_update_parameters_operation`
  ⟨.free, ()⟩, -- `playchain_deposit_cashback_operation`
  ⟨.flat, (0 : UInt64)⟩, -- `tables_alive_operation`
  ⟨.flat, (0 : UInt64)⟩, -- `playchain_committee_member_update_parameters_v2_operation`
  ⟨.flat, (0 : UInt64)⟩] -- `playchain_committee_member_update_parameters_v3_operation`

/-- The kind of an operation and its default parameters. -/
def operationFee (which : ℕ) : Σ kind : FeeKind, kind.Parameters := operationFees.getD which
    ⟨.free, ()⟩

/-- How the fee of an operation is calculated. -/
def feeKind (which : ℕ) : FeeKind := (operationFee which).1

/-- `fee_schedule` -/
structure FeeSchedule where
  /-- The parameters that have been set. -/
  parameters : (which : ℕ) → Option (feeKind which).Parameters
  scale : UInt32 := 10000

namespace FeeSchedule

/-- `get_default` -/
def getDefault : FeeSchedule where
  parameters which := some (operationFee which).2

/-- `zero_all_fees` of the parameters of an operation -/
def zeroFee : (kind : FeeKind) → kind.Parameters
  | .free => ()
  | .flat | .predicates => (0 : UInt64)
  | .wholeSize | .withKbyte | .memo | .issueMemo | .newOptions => (⟨0, 0⟩ : PerKbyteFee)
  | .outputs => (⟨0, 0⟩ : PerOutputFee)
  | .accountCreate => (⟨0, 0, 0⟩ : AccountCreateFee)
  | .accountUpgrade => (⟨0, 0⟩ : AccountUpgradeFee)
  | .assetCreate => (⟨0, 0, 0, 0⟩ : AssetCreateFee)
  | .htlcCreate | .htlcRedeem | .htlcExtend => (⟨0, 0⟩ : HtlcFee)

/-- `zero_all_fees` -/
def zeroAllFees : FeeSchedule where
  parameters which := some (zeroFee (feeKind which))
  scale := 0

/-- `init_fees`: the parameters that are in both schedules are taken over. -/
def initFees (s external : FeeSchedule) : FeeSchedule where
  parameters which := if (s.parameters which).isSome then external.parameters which <|> s.parameters
    which else none
  scale := external.scale

/-- The parameters that a `fee_helper` takes when there are none of its own. -/
def helperParameters (s : FeeSchedule) : (which : ℕ) → Option (feeKind which).Parameters
  -- `bid_collateral_operation` costs what `call_order_update_operation` does.
  | 45 => s.parameters 3
  -- `asset_claim_pool_operation` costs what `asset_fund_fee_pool_operation` does.
  | 47 => s.parameters 16
  -- `asset_update_issuer_operation` costs what `asset_update_operation` does.
  | 48 => (s.parameters 11).map PerKbyteFee.fee
  -- The operations of a hashed time lock have default values.
  | 49 => some (operationFee 49).2
  | 50 => some (operationFee 50).2
  | 52 => some (operationFee 52).2
  | _ => none

/-- `cget` of `fee_helper` -/
def get (s : FeeSchedule) (which : ℕ) : Except ChainError (feeKind which).Parameters :=
  match s.parameters which <|> s.helperParameters which with
  | some k => .ok k
  | none => .error (.assertion "itr != parameters.end()")

/-- `calc_fee_visitor`: after a failed assertion the fee is calculated again, with default
parameters unless there are others. -/
def visit (s : FeeSchedule) (which : ℕ) (content : (feeKind which).Content) (size : ℕ) :
    Except ChainError ℤ :=
  match (s.get which).bind fun k ↦ (feeKind which).calculateFee size k content with
  | .ok required => .ok required
  | .error _ => (feeKind which).calculateFee size
    ((s.parameters which).getD (operationFee which).2) content

/-- The scaled fee. -/
def scaleFee (s : FeeSchedule) (required : ℤ) : Except ChainError ℤ := do
  if s.scale = 10000 then return required
  let scaled := toUInt64 required * s.scale.toNat / 10000
  fcAssert (scaled ≤ maxShareSupply.toNat) "Required fee after scaling would exceed maximum possible
    supply"
  return scaled

end FeeSchedule

/-! ### Operations -/

/-- The `which` of `proposal_create_operation` -/
def proposalCreateWhich : ℕ := 22

/-- An operation with its fee. The size is without the fee and without proposed operations. -/
inductive FeeOperation where
  /-- An operation without operations in it. -/
  | single (which : ℕ) (h : which ≠ proposalCreateWhich) (content : (feeKind which).Content)
    (fee : Asset) (size : ℕ)
  /-- `proposal_create_operation` -/
  | proposalCreate (fee : Asset) (size : ℕ) (proposedOps : List FeeOperation)

namespace FeeOperation

/-- `which` -/
def which : FeeOperation → ℕ
  | single which _ _ _ _ => which
  | proposalCreate _ _ _ => proposalCreateWhich

/-- The content of an operation; that of a proposal is in its size. -/
def content : (op : FeeOperation) → (feeKind op.which).Content
  | single _ _ content _ _ => content
  | proposalCreate _ _ _ => ()

/-- `fee` -/
def fee : FeeOperation → Asset
  | single _ _ _ fee _ => fee
  | proposalCreate fee _ _ => fee

/-- `set_fee_visitor` -/
def withFee (fee : Asset) : FeeOperation → FeeOperation
  | single which h content _ size => single which h content fee size
  | proposalCreate _ size proposedOps => proposalCreate fee size proposedOps

/-- The packed size of an amount: eight bytes, and the number of the asset. -/
def assetSize (a : Asset) : ℕ := 8 + unsignedIntSize a.assetId

mutual

/-- `pack_size` of an operation -/
def packSize : FeeOperation → ℕ
  | single _ _ _ fee size => assetSize fee + size
  | proposalCreate fee size proposedOps =>
    assetSize fee + size + unsignedIntSize proposedOps.length + packSizes proposedOps

/-- `pack_size` of wrapped operations -/
def packSizes : List FeeOperation → ℕ
  | [] => 0
  | op :: ops => unsignedIntSize op.which + packSize op + packSizes ops

end

mutual

/-- The operation, and all operations that it proposes. -/
def nested : FeeOperation → List FeeOperation
  | single which h content fee size => [single which h content fee size]
  | proposalCreate fee size proposedOps => proposalCreate fee size proposedOps :: allNested
    proposedOps

/-- The operations of a list, and all operations that they propose. -/
def allNested : List FeeOperation → List FeeOperation
  | [] => []
  | op :: ops => nested op ++ allNested ops

end

end FeeOperation

namespace FeeSchedule

/-- `calculate_fee` in core -/
def calculateFee (s : FeeSchedule) (op : FeeOperation) : Except ChainError Asset := do
  let required ← s.visit op.which op.content op.packSize
  return ⟨← s.scaleFee required, coreAsset⟩

/-- `calculate_fee` in the asset of an exchange rate -/
def calculateFeeIn (s : FeeSchedule) (coreExchangeRate : Price) (op : FeeOperation) :
    Except ChainError Asset := do
  (← s.calculateFee op).mulRoundUp coreExchangeRate

/-- `MAX_FEE_STABILIZATION_ITERATION` -/
def maxFeeStabilizationIteration : ℕ := 4

/-- The loop of `set_fee`, with the operation and the fee that is returned. -/
def setFeeLoop (s : FeeSchedule) (rate : Price) :
    ℕ → FeeOperation → Asset → Asset → Except ChainError (Asset × FeeOperation)
  | 0, op, _, fMax => .ok (fMax, op)
  | n + 1, op, f, fMax => do
    let f2 ← s.calculateFeeIn rate (op.withFee fMax)
    if f = f2 then return (fMax, op.withFee fMax)
    let larger ← fMax.lt f2
    s.setFeeLoop rate n (op.withFee fMax) f2 (if larger then f2 else fMax)

/-- `set_fee` -/
def setFee (s : FeeSchedule) (rate : Price) (op : FeeOperation) : Except ChainError
    (Asset × FeeOperation) := do
  let f ← s.calculateFeeIn rate op
  s.setFeeLoop rate maxFeeStabilizationIteration op f f

end FeeSchedule

/-! ### The answer of the API -/

/-- The fee of an operation, with the fees of the proposed operations. -/
inductive RequiredFee where
  | single (fee : Asset)
  | proposalCreate (fee : Asset) (proposedFees : List RequiredFee)

/-- `GET_REQUIRED_FEES_MAX_RECURSION` -/
def getRequiredFeesMaxRecursion : ℕ := 4

namespace FeeSchedule

mutual

/-- `set_op_fees`, and `set_proposal_create_op_fees` for a proposal -/
def setOpFees (s : FeeSchedule) (rate : Price) (currentRecursion : ℕ) :
    FeeOperation → Except ChainError (RequiredFee × FeeOperation)
  | .single which h content fee size => do
    let r ← s.setFee rate (.single which h content fee size)
    return (.single r.1, r.2)
  | .proposalCreate fee size proposedOps => do
    let proposed ← setProposedOpFees s rate currentRecursion proposedOps
    let r ← s.setFee rate (.proposalCreate fee size proposed.2)
    return (.proposalCreate r.1 proposed.1, r.2)

/-- The loop over the proposed operations. -/
def setProposedOpFees (s : FeeSchedule) (rate : Price) (currentRecursion : ℕ) :
    List FeeOperation → Except ChainError (List RequiredFee × List FeeOperation)
  | [] => .ok ([], [])
  | op :: ops => do
    fcAssert (currentRecursion < getRequiredFeesMaxRecursion) "current_recursion < max_recursion"
    let r ← setOpFees s rate (currentRecursion + 1) op
    let rest ← setProposedOpFees s rate currentRecursion ops
    return (r.1 :: rest.1, r.2 :: rest.2)

end

/-- `get_required_fees`, with the copies of the operations in which the fees are set -/
def getRequiredFees (s : FeeSchedule) (rate : Price) :
    List FeeOperation → Except ChainError (List RequiredFee × List FeeOperation)
  | [] => .ok ([], [])
  | op :: ops => do
    let r ← s.setOpFees rate 0 op
    let rest ← s.getRequiredFees rate ops
    return (r.1 :: rest.1, r.2 :: rest.2)

end FeeSchedule

/-! ### The evaluator -/

/-- What `prepare_fee` reads of the asset of a fee: its id, its exchange rate, its `fee_pool`, and
whether the payer is authorized to use it. -/
structure FeeAsset where
  id : AssetId
  coreExchangeRate : Price
  feePool : ℤ
  authorized : Bool

/-- `prepare_fee`, with the core that is paid -/
def prepareFee (a : FeeAsset) (fee : Asset) : Except ChainError ℤ := do
  fcAssert (0 ≤ fee.amount) "fee.amount >= 0"
  fcAssert a.authorized "Account attempted to pay fee by using asset which is unauthorized due to
    whitelist / blacklist"
  if fee.assetId = coreAsset then return fee.amount
  let feeFromPool ← fee.mul a.coreExchangeRate
  fcAssert (feeFromPool.assetId = coreAsset) "fee_from_pool.asset_id == asset_id_type()"
  fcAssert (feeFromPool.amount ≤ a.feePool) "Fee pool balance is less than the required to convert"
  return feeFromPool.amount

/-- The text of `insufficient_fee`. -/
def insufficientFee : ChainError := .assertion "Insufficient Fee Paid"

/-- The first part of `evaluate` of every evaluator, with the core that is paid. -/
def FeeSchedule.evaluateFee (s : FeeSchedule) (a : FeeAsset) (skipFeeScheduleCheck : Bool)
    (op : FeeOperation) :
    Except ChainError ℤ := do
  let coreFeePaid ← prepareFee a op.fee
  if skipFeeScheduleCheck then return coreFeePaid
  let requiredFee ← s.calculateFee op
  if requiredFee.amount ≤ coreFeePaid then return coreFeePaid
  .error insufficientFee

end Playchain
