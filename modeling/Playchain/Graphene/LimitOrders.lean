import Playchain.Graphene.Market

/-!
# Limit orders

`match` of two limit orders, with `fill_limit_order`, `maybe_cull_small_order` and `cancel_limit_order`. The amounts are
rounded down in favour of the bigger order, and then the other amount is rounded up at the same price. What remains of an order
is removed if it would get nothing at its own price.
-/

namespace Playchain

namespace MarketState

/-! ### Cancellation -/

/-- The fee for a cancellation out of the deferred fees: what is left of the deferred fee and of the fee that was paid. -/
def chargeCancelFee (s : MarketState) (order : LimitOrderObject) : Except ChainError (ℤ × Asset × MarketState) := do
  let coreCancelFee := min s.limitOrderCancelFee order.deferredFee
  if 0 < coreCancelFee then
    let s ← s.modifyStatistics order.seller fun obj ↦ obj.payFee coreCancelFee s.cashbackVestingThreshold
    if order.deferredPaidFee.amount = 0 then
      return (order.deferredFee - coreCancelFee, order.deferredPaidFee, s)
    else
      let cancelFeeAmount := toInt64
        ((toUInt128 order.deferredPaidFee.amount * toUInt128 coreCancelFee + toUInt128 order.deferredFee - 1) % 2 ^ 128 /
          toUInt128 order.deferredFee % 2 ^ 64)
      let s ← s.modifyDynamicData order.deferredPaidFee.assetId fun addo ↦
        { addo with accumulatedFees := addo.accumulatedFees + cancelFeeAmount }
      return (order.deferredFee - coreCancelFee,
        { order.deferredPaidFee with amount := order.deferredPaidFee.amount - cancelFeeAmount }, s)
  else return (order.deferredFee, order.deferredPaidFee, s)

/-- The funds of an order go back to its seller. -/
def refundOrder (s : MarketState) (order : LimitOrderObject) : Except ChainError MarketState := do
  let s ←
    if order.amountForSale.assetId = coreAsset then
      s.modifyStatistics order.seller fun obj ↦
        { obj with totalCoreInOrders := obj.totalCoreInOrders - order.amountForSale.amount }
    else pure s
  s.adjustBalance order.seller order.amountForSale

/-- `cancel_limit_order`, with a virtual operation -/
def cancelLimitOrder (s : MarketState) (id : ℕ) (order : LimitOrderObject) (skipCancelFee : Bool) :
    Except ChainError MarketState := do
  let r ←
    if skipCancelFee = false ∧ 0 < order.deferredFee then s.chargeCancelFee order
    else pure (order.deferredFee, order.deferredPaidFee, s)
  let s ← r.2.2.refundOrder order
  let s ←
    if order.deferredPaidFee.amount = 0 then s.adjustBalance order.seller ⟨r.1, coreAsset⟩
    else do
      let s ← s.adjustBalance order.seller r.2.1
      s.modifyDynamicData r.2.1.assetId fun addo ↦ { addo with feePool := addo.feePool + r.1 }
  return { s with limitOrders := s.limitOrders.remove id }

/-- `maybe_cull_small_order` -/
def maybeCullSmallOrder (s : MarketState) (id : ℕ) : Except ChainError (Bool × MarketState) := do
  let order ← require (s.limitOrders.find? id)
  let toReceive ← order.amountToReceive
  if toReceive.amount = 0 then
    let skipCancelFee := 0 < order.deferredFee ∧ s.headBlockTime ≤ hardforkCore604Time
    let s ← s.cancelLimitOrder id order skipCancelFee
    return (true, s)
  else return (false, s)

/-! ### Filling -/

/-- The fees that were deferred are paid. -/
def payDeferredFees (s : MarketState) (order : LimitOrderObject) : Except ChainError MarketState := do
  let s ←
    if 0 < order.deferredFee then
      s.modifyStatistics order.seller fun x ↦ x.payFee order.deferredFee s.cashbackVestingThreshold
    else pure s
  if 0 < order.deferredPaidFee.amount then
    s.modifyDynamicData order.deferredPaidFee.assetId fun addo ↦
      { addo with accumulatedFees := addo.accumulatedFees + order.deferredPaidFee.amount }
  else return s

/-- An order after it has paid an amount. -/
def shrinkOrder (order : LimitOrderObject) (pays : ℤ) : LimitOrderObject :=
  { order with
    forSale := order.forSale - pays
    deferredFee := 0
    deferredPaidFee := { order.deferredPaidFee with amount := 0 } }

/-- The seller for whom market fees are shared, after the hard fork. -/
def feeSeller (s : MarketState) (seller : AccountId) : Option AccountId :=
  if s.headBlockTime.toNat < hardfork1268Time then none else some seller

/-- `fill_limit_order` -/
def fillLimitOrder (s : MarketState) (id : ℕ) (pays receives : Asset) (cullIfSmall : Bool) (fillPrice : Price)
    (isMaker : Bool) : Except ChainError (Bool × MarketState) := do
  let order ← require (s.limitOrders.find? id)
  fcAssert (order.amountForSale.assetId = pays.assetId) "order.amount_for_sale().asset_id == pays.asset_id"
  fcAssert (pays.assetId ≠ receives.assetId) "pays.asset_id != receives.asset_id"
  let _ ← require (s.accounts.find? order.seller)
  let r ← s.payMarketFees (s.feeSeller order.seller) receives
  let s ← r.2.payOrder order.seller ⟨receives.amount - r.1.amount, receives.assetId⟩ pays
  let fill : FillOrderOperation := ⟨id, order.seller, pays, receives, r.1, fillPrice, isMaker⟩
  let s := { s with fills := s.fills ++ [fill] }
  let s ← s.payDeferredFees order
  if pays = order.amountForSale then
    return (true, { s with limitOrders := s.limitOrders.remove id })
  else
    let s := { s with limitOrders := s.limitOrders.modify id fun b ↦ shrinkOrder b pays.amount }
    if cullIfSmall ∨ s.headBlockTime < hardfork555Time then s.maybeCullSmallOrder id
    else return (false, s)

/-- The amounts of a match of two limit orders: what the taker and the maker receive, and whether the taker is culled. There is
nothing if the taker would get nothing. -/
def matchAmounts (maintTime : UInt32) (usdForSale coreForSale : Asset) (matchPrice : Price) :
    Except ChainError (Option (Asset × Asset × Bool)) := do
  let before342 := maintTime ≤ hardforkCore342Time
  let coreWorth ← coreForSale.mul matchPrice
  if ← usdForSale.le coreWorth then
    let usdReceives ← usdForSale.mul matchPrice
    if usdReceives.amount = 0 ∧ hardforkCore184Time < maintTime then return none
    if before342 then return some (usdReceives, usdForSale, false)
    else return some (usdReceives, ← usdReceives.mulRoundUp matchPrice, true)
  else
    let coreReceives ← coreForSale.mul matchPrice
    if before342 then return some (coreForSale, coreReceives, false)
    else return some (← coreReceives.mulRoundUp matchPrice, coreReceives, false)

/-- `match` of two limit orders, the first of which is the taker -/
def matchLimitOrders (s : MarketState) (usd core : ℕ) (matchPrice : Price) : Except ChainError (ℕ × MarketState) := do
  let usdOrder ← require (s.limitOrders.find? usd)
  let coreOrder ← require (s.limitOrders.find? core)
  fcAssert (usdOrder.sellPrice.quote.assetId = coreOrder.sellPrice.base.assetId)
    "usd.sell_price.quote.asset_id == core.sell_price.base.asset_id"
  fcAssert (usdOrder.sellPrice.base.assetId = coreOrder.sellPrice.quote.assetId)
    "usd.sell_price.base.asset_id == core.sell_price.quote.asset_id"
  fcAssert (0 < usdOrder.forSale ∧ 0 < coreOrder.forSale) "usd.for_sale > 0 && core.for_sale > 0"
  match ← matchAmounts s.nextMaintenanceTime usdOrder.amountForSale coreOrder.amountForSale matchPrice with
  | none => return (1, s)
  | some (usdReceives, coreReceives, cullTaker) =>
    if s.nextMaintenanceTime ≤ hardforkCore342Time then
      fcAssert (coreReceives = usdOrder.amountForSale ∨ usdReceives = coreOrder.amountForSale)
        "usd_pays == usd.amount_for_sale() || core_pays == core.amount_for_sale()"
    let r ← s.fillLimitOrder usd coreReceives usdReceives cullTaker matchPrice false
    let r' ← r.2.fillLimitOrder core usdReceives coreReceives true matchPrice true
    let result := r.1.toNat + 2 * r'.1.toNat
    fcAssert (result ≠ 0) "result != 0"
    return (result, r'.2)

end MarketState

end Playchain
