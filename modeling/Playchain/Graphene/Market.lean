import Mathlib.Data.Prod.Lex
import Playchain.Graphene.Prices
import Playchain.Lib.ObjectIndex

/-!
# The market

Limit orders, call orders and orders to settle, and what the market reads and writes besides them: balances, statistics, the
options of assets and their dynamic data. The operations that all matches share are here: `adjust_balance`, the payment of
an order, and market fees with the part of them that is given to registrar and referrer.

What a match does is recorded, as the code does with `fill_order_operation`.
-/

namespace Playchain

/-! ### Hard forks -/

def hardfork555Time : UInt32 := 1456250400
def hardforkCore184Time : UInt32 := 1532008920
def hardforkCore342Time : UInt32 := 1532008920
def hardforkCore604Time : UInt32 := 1532008920

/-! ### Orders -/

/-- `limit_order_object` -/
structure LimitOrderObject where
  seller : AccountId
  forSale : ℤ
  sellPrice : Price
  deferredFee : ℤ := 0
  deferredPaidFee : Asset := {}

namespace LimitOrderObject

/-- `amount_for_sale` -/
def amountForSale (o : LimitOrderObject) : Asset := ⟨o.forSale, o.sellPrice.base.assetId⟩

/-- `amount_to_receive` -/
def amountToReceive (o : LimitOrderObject) : Except ChainError Asset := o.amountForSale.mul o.sellPrice

end LimitOrderObject

/-- `call_order_object` -/
structure CallOrderObject where
  borrower : AccountId
  collateral : ℤ
  debt : ℤ
  callPrice : Price
  targetCollateralRatio : Option UInt16 := none

namespace CallOrderObject

/-- `debt_type` -/
def debtType (c : CallOrderObject) : AssetId := c.callPrice.quote.assetId

/-- `collateral_type` -/
def collateralType (c : CallOrderObject) : AssetId := c.callPrice.base.assetId

/-- `get_debt` -/
def getDebt (c : CallOrderObject) : Asset := ⟨c.debt, c.debtType⟩

/-- `get_collateral` -/
def getCollateral (c : CallOrderObject) : Asset := ⟨c.collateral, c.collateralType⟩

/-- `collateralization` -/
def collateralization (c : CallOrderObject) : Price := ⟨c.getCollateral, c.getDebt⟩

end CallOrderObject

/-- `force_settlement_object` -/
structure ForceSettlementObject where
  owner : AccountId
  balance : Asset
  settlementDate : UInt32

/-- `fill_order_operation` -/
structure FillOrderOperation where
  orderId : ℕ
  account : AccountId
  pays : Asset
  receives : Asset
  fee : Asset
  fillPrice : Price
  isMaker : Bool

/-! ### Assets and accounts -/

/-- The market options of an asset. -/
structure TradedAsset where
  chargesMarketFees : Bool := false
  marketFeePercent : UInt16 := 0
  maxMarketFee : ℤ := maxShareSupply
  rewardPercent : Option UInt16 := none
  whitelistMarketFeeSharing : Option (FlatSet AccountId) := none

/-- `asset_dynamic_data_object` -/
structure AssetDynamicData where
  currentSupply : ℤ := 0
  accumulatedFees : ℤ := 0
  feePool : ℤ := 0

/-- `asset_bitasset_data_object` -/
structure BitassetDataObject where
  shortBackingAsset : AssetId := coreAsset
  forceSettlementOffsetPercent : UInt16 := 0
  maximumForceSettlementVolume : UInt16 := 2000
  currentFeedSettlementPrice : Price := default
  maintenanceCollateralRatio : ℕ := defaultMaintenanceCollateralRatio
  settlementPrice : Price := default
  forceSettledVolume : ℤ := 0

/-- `has_settlement` -/
def BitassetDataObject.hasSettlement (b : BitassetDataObject) : Bool := !b.settlementPrice.isNull

/-- `account_object` -/
structure TradingAccount where
  registrar : AccountId
  referrer : AccountId
  referrerRewardsPercentage : UInt16 := 0

/-- `account_statistics_object` -/
structure TradingStatistics where
  totalCoreInOrders : ℤ := 0
  pendingFees : ℤ := 0
  pendingVestedFees : ℤ := 0

/-- `pay_fee` -/
def TradingStatistics.payFee (x : TradingStatistics) (coreFee cashbackVestingThreshold : ℤ) : TradingStatistics :=
  if cashbackVestingThreshold < coreFee then { x with pendingFees := x.pendingFees + coreFee }
  else { x with pendingVestedFees := x.pendingVestedFees + coreFee }

/-- What the market reads and writes. -/
structure MarketState where
  headBlockTime : UInt32
  nextMaintenanceTime : UInt32
  cashbackVestingThreshold : ℤ := 0
  /-- The fee of `limit_order_cancel_operation`. -/
  limitOrderCancelFee : ℤ := 0
  /-- `is_authorized_asset` -/
  isAuthorizedAsset : AccountId → AssetId → Bool := fun _ _ ↦ true
  accounts : FlatMap AccountId TradingAccount := ∅
  assets : FlatMap AssetId TradedAsset := ∅
  statistics : FlatMap AccountId TradingStatistics := ∅
  balances : FlatMap (AccountId ×ₗ AssetId) ℤ := ∅
  /-- The vesting balances of shared market fees. -/
  marketFeeBalances : FlatMap (AccountId ×ₗ AssetId) ℤ := ∅
  dynamicData : FlatMap AssetId AssetDynamicData := ∅
  bitassets : FlatMap AssetId BitassetDataObject := ∅
  limitOrders : ObjectIndex LimitOrderObject := ∅
  callOrders : ObjectIndex CallOrderObject := ∅
  settlements : ObjectIndex ForceSettlementObject := ∅
  fills : List FillOrderOperation := []

namespace MarketState

/-- An object that has to be there. -/
def require {α : Type} : Option α → Except ChainError α
  | some a => .ok a
  | none => .error (.assertion "Unable to find Object")

/-- `adjust_balance` -/
def adjustBalance (s : MarketState) (account : AccountId) (delta : Asset) : Except ChainError MarketState := do
  if delta.amount = 0 then return s
  match s.balances.find? (toLex (account, delta.assetId)) with
  | none =>
    fcAssert (0 < delta.amount) "Insufficient Balance"
    return { s with balances := s.balances.insert (toLex (account, delta.assetId)) delta.amount }
  | some b =>
    if delta.amount < 0 then fcAssert (-delta.amount ≤ b) "Insufficient Balance"
    return { s with balances := s.balances.insert (toLex (account, delta.assetId)) (b + delta.amount) }

/-- The statistics of an account, which have to be there, are modified. -/
def modifyStatistics (s : MarketState) (account : AccountId) (g : TradingStatistics → TradingStatistics) :
    Except ChainError MarketState := do
  let _ ← require (s.statistics.find? account)
  return { s with statistics := s.statistics.modify account g }

/-- The dynamic data of an asset, which have to be there, are modified. -/
def modifyDynamicData (s : MarketState) (i : AssetId) (g : AssetDynamicData → AssetDynamicData) :
    Except ChainError MarketState := do
  let _ ← require (s.dynamicData.find? i)
  return { s with dynamicData := s.dynamicData.modify i g }

/-- `pay_order` -/
def payOrder (s : MarketState) (receiver : AccountId) (receives pays : Asset) : Except ChainError MarketState := do
  let s ← s.modifyStatistics receiver fun b ↦
    if pays.assetId = coreAsset then { b with totalCoreInOrders := b.totalCoreInOrders - pays.amount } else b
  s.adjustBalance receiver receives

/-! ### Market fees -/

/-- `calculate_percent` -/
def calculatePercent (value : ℤ) (percent : UInt16) : ℤ :=
  toInt64 (toUInt128 value * percent.toNat % 2 ^ 128 / hundredPercent % 2 ^ 64)

/-- `calculate_market_fee` -/
def calculateMarketFee (tradeAsset : TradedAsset) (tradeAmount : ℤ) : ℤ :=
  if !tradeAsset.chargesMarketFees then 0
  else if tradeAsset.marketFeePercent = 0 then 0
  else min (calculatePercent tradeAmount tradeAsset.marketFeePercent) tradeAsset.maxMarketFee

/-- `deposit_market_fee_vesting_balance` -/
def depositMarketFeeVestingBalance (s : MarketState) (account : AccountId) (delta : Asset) :
    Except ChainError MarketState := do
  fcAssert (0 ≤ delta.amount) "Invalid negative value for balance"
  if delta.amount = 0 then return s
  let old := (s.marketFeeBalances.find? (toLex (account, delta.assetId))).getD 0
  return { s with
    marketFeeBalances := s.marketFeeBalances.insert (toLex (account, delta.assetId)) (old + delta.amount) }

/-- `is_rewards_allowed` -/
def rewardsAllowed (recvAsset : TradedAsset) (seller : TradingAccount) : Bool :=
  match recvAsset.whitelistMarketFeeSharing with
  | none => true
  | some whiteList => whiteList.isEmpty || whiteList.contains seller.registrar

/-- The rewards of registrar and referrer, and their sum. -/
def payRewards (s : MarketState) (seller : TradingAccount) (recvAsset : TradedAsset) (issuerFees : Asset) :
    Except ChainError (ℤ × MarketState) := do
  let rewardValue := calculatePercent issuerFees.amount (recvAsset.rewardPercent.getD 0)
  if rewardsAllowed recvAsset seller ∧ recvAsset.rewardPercent.getD 0 ≠ 0 ∧ 0 < rewardValue ∧
      s.isAuthorizedAsset seller.registrar issuerFees.assetId then
    fcAssert (rewardValue < issuerFees.amount) "Market reward should be less than issuer fees"
    let referrerRewardsValue := calculatePercent rewardValue seller.referrerRewardsPercentage
    if 0 < referrerRewardsValue ∧ s.isAuthorizedAsset seller.referrer issuerFees.assetId then
      fcAssert (referrerRewardsValue ≤ rewardValue) "Referrer reward shouldn't be greater than total reward"
      let s ← s.depositMarketFeeVestingBalance seller.referrer ⟨referrerRewardsValue, issuerFees.assetId⟩
      let s ← s.depositMarketFeeVestingBalance seller.registrar
        ⟨rewardValue - referrerRewardsValue, issuerFees.assetId⟩
      return (rewardValue, s)
    else
      let s ← s.depositMarketFeeVestingBalance seller.registrar ⟨rewardValue, issuerFees.assetId⟩
      return (rewardValue, s)
  else return (0, s)

/-- `pay_market_fees`, of the two kinds: with a seller whose registrar and referrer get a part, and without -/
def payMarketFees (s : MarketState) (seller : Option AccountId) (receives : Asset) :
    Except ChainError (Asset × MarketState) := do
  let recvAsset ← require (s.assets.find? receives.assetId)
  let issuerFees : Asset := ⟨calculateMarketFee recvAsset receives.amount, receives.assetId⟩
  fcAssert (issuerFees.amount ≤ receives.amount) "Market fee shouldn't be greater than receives"
  if 0 < issuerFees.amount then
    match seller with
    | none =>
      let s ← s.modifyDynamicData receives.assetId fun obj ↦
        { obj with accumulatedFees := obj.accumulatedFees + issuerFees.amount }
      return (issuerFees, s)
    | some seller =>
      let account ← require (s.accounts.find? seller)
      let r ← s.payRewards account recvAsset issuerFees
      let s ← r.2.modifyDynamicData receives.assetId fun obj ↦
        { obj with accumulatedFees := obj.accumulatedFees + (issuerFees.amount - r.1) }
      return (issuerFees, s)
  else return (issuerFees, s)

end MarketState

end Playchain
