import Playchain.Graphene.Market
import Playchain.Lib.Loop

/-!
# Forced settlement

Holders of a market-issued asset ask for collateral at the feed price. What has expired is settled by `clear_expired_orders`
against the call orders with the least collateral, up to a share of the supply for each asset. A settlement is matched with a
call order by `match`, which fills both with `fill_call_order` and `fill_settle_order`, or cancels what is too small.

The two loops are run for a number of rounds that depends on the state (`Loop.iterate`).
-/

namespace Playchain

def hardforkCore343Time : UInt32 := 1532008920
def hardforkCore1270Time : UInt32 := 1556028120

/-- `settlement_asset_id` -/
def ForceSettlementObject.settlementAssetId (o : ForceSettlementObject) : AssetId := o.balance.assetId

/-- `max_force_settlement_volume` -/
def BitassetDataObject.maxForceSettlementVolume (b : BitassetDataObject) (currentSupply : ℤ) : ℤ :=
  if b.maximumForceSettlementVolume = 0 then 0
  else if b.maximumForceSettlementVolume.toNat = hundredPercent then currentSupply + b.forceSettledVolume
  else toInt64 (toUInt128 (currentSupply + b.forceSettledVolume) * b.maximumForceSettlementVolume.toNat % 2 ^ 128 /
    hundredPercent % 2 ^ 64)

/-- `black_swan_exception` -/
def blackSwanException : ChainError := .assertion "black_swan_exception"

namespace MarketState

/-! ### Filling -/

/-- `cancel_settle_order` -/
def cancelSettleOrder (s : MarketState) (id : ℕ) (order : ForceSettlementObject) : Except ChainError MarketState := do
  let s ← s.adjustBalance order.owner order.balance
  return { s with settlements := s.settlements.remove id }

/-- A call order after it has paid, and the collateral that is freed if no debt remains. -/
def coverDebt (maintTime : UInt32) (maintenanceCollateralRatio : ℕ) (order : CallOrderObject) (pays receives : ℤ) :
    Except ChainError (CallOrderObject × Option Asset) := do
  let o := { order with debt := order.debt - receives, collateral := order.collateral - pays }
  if o.debt = 0 then return ({ o with collateral := 0 }, some o.getCollateral)
  else if maintTime ≤ hardforkCore1270Time ∧ hardforkCore343Time < maintTime then
    let callPrice ← Price.callPrice o.getDebt o.getCollateral maintenanceCollateralRatio
    return ({ o with callPrice := callPrice }, none)
  else return (o, none)

/-- The collateral that is freed goes to the borrower. -/
def payFreed (s : MarketState) (borrower : AccountId) (freed : Option Asset) : Except ChainError MarketState :=
  match freed with
  | some freed => s.adjustBalance borrower freed
  | none => .ok s

/-- `fill_call_order` -/
def fillCallOrder (s : MarketState) (id : ℕ) (pays receives : Asset) (fillPrice : Price) (isMaker : Bool) :
    Except ChainError (Bool × MarketState) := do
  let order ← require (s.callOrders.find? id)
  fcAssert (order.debtType = receives.assetId) "order.debt_type() == receives.asset_id"
  fcAssert (order.collateralType = pays.assetId) "order.collateral_type() == pays.asset_id"
  fcAssert (pays.amount ≤ order.collateral) "order.collateral >= pays.amount"
  let _ ← require (s.assets.find? receives.assetId)
  let mia ← require (s.bitassets.find? receives.assetId)
  let r ← coverDebt s.nextMaintenanceTime mia.maintenanceCollateralRatio order pays.amount receives.amount
  let s := { s with callOrders := s.callOrders.set id r.1 }
  let s ← s.modifyDynamicData receives.assetId fun ao ↦ { ao with currentSupply := ao.currentSupply - receives.amount }
  let s ← s.payFreed order.borrower r.2
  let s ←
    if pays.assetId = coreAsset then
      s.modifyStatistics order.borrower fun b ↦
        { b with totalCoreInOrders := b.totalCoreInOrders - pays.amount - r.2.elim 0 (·.amount) }
    else pure s
  let fill : FillOrderOperation := ⟨id, order.borrower, pays, receives, ⟨0, pays.assetId⟩, fillPrice, isMaker⟩
  let s := { s with fills := s.fills ++ [fill] }
  if r.2.isSome then return (true, { s with callOrders := s.callOrders.remove id })
  else return (false, s)

/-- `fill_settle_order` -/
def fillSettleOrder (s : MarketState) (id : ℕ) (pays receives : Asset) (fillPrice : Price) (isMaker : Bool) :
    Except ChainError (Bool × MarketState) := do
  let settle ← require (s.settlements.find? id)
  let r ← s.payMarketFees none receives
  let partly ← pays.lt settle.balance
  let s :=
    if partly then
      { r.2 with settlements := r.2.settlements.modify id fun o ↦
          { o with balance := { o.balance with amount := o.balance.amount - pays.amount } } }
    else r.2
  let s ← s.adjustBalance settle.owner ⟨receives.amount - r.1.amount, receives.assetId⟩
  let fill : FillOrderOperation := ⟨id, settle.owner, pays, receives, r.1, fillPrice, isMaker⟩
  let s := { s with fills := s.fills ++ [fill] }
  if partly then return (false, s)
  else return (true, { s with settlements := s.settlements.remove id })

/-! ### Matching -/

/-- The amounts of a match. -/
inductive SettlementAmounts where
  /-- The call order would pay nothing; the settlement is cancelled if it is the smaller one. -/
  | nothing (cancel : Bool)
  /-- What the call order pays and receives, and whether the rest of the settlement is cancelled. -/
  | trade (callPays callReceives : Asset) (cull : Bool)

/-- The amounts in `match` -/
def settlementAmounts (maintTime : UInt32) (callDebt balance maxSettlement : Asset) (matchPrice : Price) :
    Except ChainError SettlementAmounts := do
  let settleForSale ← balance.min maxSettlement
  let callReceives ← settleForSale.min callDebt
  let callPays ← callReceives.mul matchPrice
  if callPays.amount = 0 then
    if hardforkCore184Time < maintTime then
      if callReceives = callDebt then return .trade { callPays with amount := 1 } callReceives false
      else return .nothing (callReceives = balance)
    else return .trade callPays callReceives false
  else if maintTime ≤ hardforkCore342Time then return .trade callPays callReceives false
  else if callReceives = callDebt then
    let roundedUp ← callReceives.mulRoundUp matchPrice
    return .trade roundedUp callReceives false
  else
    let roundedUp ← callPays.mulRoundUp matchPrice
    return .trade callPays roundedUp (callReceives = balance ∧ roundedUp ≠ balance)

/-- Before the hard fork a settlement that takes all collateral is a black swan. -/
def checkCollateral (maintTime : UInt32) (callPays collateral : Asset) : Except ChainError Unit :=
  if maintTime ≤ hardforkCore342Time then do
    if ← callPays.lt collateral then return ()
    else throw blackSwanException
  else .ok ()

/-- `match` of a call order and a settlement -/
def matchSettlement (s : MarketState) (call settle : ℕ) (matchPrice : Price) (maxSettlement : Asset) (fillPrice : Price) :
    Except ChainError (Asset × MarketState) := do
  let callOrder ← require (s.callOrders.find? call)
  let order ← require (s.settlements.find? settle)
  fcAssert (callOrder.getDebt.assetId = order.balance.assetId) "call.get_debt().asset_id == settle.balance.asset_id"
  fcAssert (0 < callOrder.debt ∧ 0 < callOrder.collateral ∧ 0 < order.balance.amount)
    "call.debt > 0 && call.collateral > 0 && settle.balance.amount > 0"
  match ← settlementAmounts s.nextMaintenanceTime callOrder.getDebt order.balance maxSettlement matchPrice with
  | .nothing cancel =>
    if cancel then
      let s ← s.cancelSettleOrder settle order
      return (⟨0, order.balance.assetId⟩, s)
    else return (⟨0, order.balance.assetId⟩, s)
  | .trade callPays callReceives cull =>
    checkCollateral s.nextMaintenanceTime callPays callOrder.getCollateral
    let r ← s.fillCallOrder call callPays callReceives fillPrice true
    let r' ← r.2.fillSettleOrder settle callReceives callPays fillPrice false
    if cull then
      let rest ← require (r'.2.settlements.find? settle)
      let s ← r'.2.cancelSettleOrder settle rest
      return (callReceives, s)
    else return (callReceives, r'.2)

/-! ### Expired settlements -/

/-- The settlements in the order of `by_expiration` -/
def byExpiration (s : MarketState) : List (ℕ × ForceSettlementObject) :=
  s.settlements.orderedBy fun a b ↦
    toLex (a.2.settlementAssetId, toLex (a.2.settlementDate.toNat, a.1)) ≤
      toLex (b.2.settlementAssetId, toLex (b.2.settlementDate.toNat, b.1))

/-- `lower_bound` of an asset in the settlements -/
def lowerBound (s : MarketState) (i : AssetId) : Option (ℕ × ForceSettlementObject) :=
  s.byExpiration.find? fun o ↦ i ≤ o.2.settlementAssetId

/-- `upper_bound` of an asset in the settlements -/
def upperBound (s : MarketState) (i : AssetId) : Option (ℕ × ForceSettlementObject) :=
  s.byExpiration.find? fun o ↦ i < o.2.settlementAssetId

/-- `lower_bound` of a price in the call orders, in the order of `by_collateral` -/
def leastCollateralized (s : MarketState) (p : Price) : Option (ℕ × CallOrderObject) :=
  (s.callOrders.orderedBy fun a b ↦ a.2.collateralization < b.2.collateralization ∨
    ¬b.2.collateralization < a.2.collateralization ∧ a.1 ≤ b.1).find? fun o ↦ ¬o.2.collateralization < p

/-- What `clear_expired_orders` knows about the asset at which it is. -/
structure SettlementCursor where
  currentAsset : AssetId
  maxSettlementVolume : Asset := {}
  settlementFillPrice : Price := default
  settlementPrice : Price := default
  currentAssetFinished : Bool := false

/-- A round of the inner loop of `clear_expired_orders`: a match with the call order with the least collateral. The loop ends
with what is settled, and whether the asset is finished. -/
def settleRound (order : ℕ) (c : SettlementCursor) (x : MarketState × ℤ) :
    Except ChainError ((MarketState × ℤ) ⊕ (MarketState × ℤ × Bool)) := do
  match x.1.settlements.find? order with
  | none => return .inr (x.1, x.2, false)
  | some obj =>
    if c.maxSettlementVolume.amount ≤ x.2 then return .inr (x.1, x.2, false)
    else
      let mia ← require (x.1.bitassets.find? c.currentAsset)
      let least ← Price.min mia.shortBackingAsset c.currentAsset
      if obj.balance.amount = 0 then
        let s ← x.1.cancelSettleOrder order obj
        return .inr (s, x.2, false)
      else
        let call ← require (x.1.leastCollateralized least)
        let maxSettlement : Asset := ⟨c.maxSettlementVolume.amount - x.2, c.currentAsset⟩
        match x.1.matchSettlement call.1 order c.settlementPrice maxSettlement c.settlementFillPrice with
        | .ok r =>
          if hardforkCore184Time < x.1.nextMaintenanceTime ∧ r.1.amount = 0 then
            return .inr (r.2, x.2, (r.2.settlements.find? order).isSome)
          else return .inl (r.2, x.2 + r.1.amount)
        | .error e =>
          if e = blackSwanException then
            let s ← x.1.cancelSettleOrder order obj
            return .inr (s, x.2, false)
          else throw e

/-- The inner loop of `clear_expired_orders` -/
def settleOrder (s : MarketState) (order : ℕ) (c : SettlementCursor) (settled : ℤ) :
    Option (Except ChainError (MarketState × ℤ × Bool)) :=
  Loop.iterate (fun x ↦ some (settleRound order c x)) ((c.maxSettlementVolume.amount - settled).toNat + 1) (s, settled)

/-- `next_asset`, and the end of the loop if there is none -/
def nextAsset (s : MarketState) (c : SettlementCursor) : (MarketState × SettlementCursor) ⊕ MarketState :=
  match s.upperBound c.currentAsset with
  | none => .inr s
  | some bound => .inl (s, { c with currentAsset := bound.2.settlementAssetId, currentAssetFinished := false })

/-- The volume that may be settled is computed once for an asset. -/
def withVolume (s : MarketState) (c : SettlementCursor) (mia : BitassetDataObject) :
    Except ChainError SettlementCursor :=
  if c.maxSettlementVolume.assetId ≠ c.currentAsset then do
    let d ← require (s.dynamicData.find? c.currentAsset)
    return { c with maxSettlementVolume := ⟨mia.maxForceSettlementVolume d.currentSupply, c.currentAsset⟩ }
  else .ok c

/-- The price of a settlement before the hard fork, from the rounded amount. -/
def priceBefore342 (mia : BitassetDataObject) (order : ForceSettlementObject) : Except ChainError Price := do
  let receives ← order.balance.mul mia.currentFeedSettlementPrice
  let amount := toInt64 (toUInt128 receives.amount *
    toUInt128 (hundredPercent - mia.forceSettlementOffsetPercent.toNat) % 2 ^ 128 / hundredPercent % 2 ^ 64)
  Price.div order.balance { receives with amount := amount }

/-- So are the prices. -/
def withPrices (s : MarketState) (c : SettlementCursor) (mia : BitassetDataObject) (order : ForceSettlementObject) :
    Except ChainError SettlementCursor := do
  let fillPrice ←
    if c.settlementFillPrice.base.assetId ≠ c.currentAsset then
      mia.currentFeedSettlementPrice.divRatio (hundredPercent - mia.forceSettlementOffsetPercent.toNat) hundredPercent
    else pure c.settlementFillPrice
  let price ←
    if s.nextMaintenanceTime ≤ hardforkCore342Time then priceBefore342 mia order
    else if c.settlementPrice.base.assetId ≠ c.currentAsset then pure fillPrice
    else pure c.settlementPrice
  return { c with settlementFillPrice := fillPrice, settlementPrice := price }

/-- What is to be done with an order: it is cancelled, or its asset is left, or it is settled with the prices and the volume of
its asset. -/
def prepareOrder (s : MarketState) (c : SettlementCursor) (id : ℕ) (order : ForceSettlementObject) :
    Except ChainError (((MarketState × SettlementCursor) ⊕ MarketState) ⊕ SettlementCursor) := do
  let c := { c with currentAsset := order.settlementAssetId }
  let _ ← require (s.assets.find? c.currentAsset)
  let mia ← require (s.bitassets.find? c.currentAsset)
  if mia.hasSettlement then
    let s ← s.cancelSettleOrder id order
    return .inl (.inl (s, c))
  else if s.headBlockTime < order.settlementDate then return .inl (s.nextAsset c)
  else if mia.currentFeedSettlementPrice.isNull then
    let s ← s.cancelSettleOrder id order
    return .inl (.inl (s, c))
  else
    let c ← s.withVolume c mia
    if c.maxSettlementVolume.amount ≤ mia.forceSettledVolume ∨ c.currentAssetFinished = true then
      return .inl (s.nextAsset c)
    else
      let c ← s.withPrices c mia order
      return .inr c

/-- What is settled is stored. -/
def storeSettled (c : SettlementCursor) (r : MarketState × ℤ × Bool) : MarketState × SettlementCursor :=
  ({ r.1 with bitassets := r.1.bitassets.modify c.currentAsset fun b ↦ { b with forceSettledVolume := r.2.1 } },
    { c with currentAssetFinished := c.currentAssetFinished || r.2.2 })

/-- A round of the outer loop of `clear_expired_orders` -/
def clearRound (x : MarketState × SettlementCursor) :
    Option (Except ChainError ((MarketState × SettlementCursor) ⊕ MarketState)) :=
  match x.1.lowerBound x.2.currentAsset with
  | none => some (.ok (.inr x.1))
  | some order =>
    match x.1.prepareOrder x.2 order.1 order.2 with
    | .error e => some (.error e)
    | .ok (.inl next) => some (.ok next)
    | .ok (.inr c) =>
      let settled := ((x.1.bitassets.find? order.2.settlementAssetId).map (·.forceSettledVolume)).getD 0
      (x.1.settleOrder order.1 c settled).map (Except.map fun r ↦ .inl (storeSettled c r))

/-- Rounds after which all settlements are handled: each order is seen at most twice. -/
def clearRounds (s : MarketState) : ℕ := 2 * s.settlements.toList.length + 2

/-- The settlements in `clear_expired_orders` -/
def clearExpiredSettlements (s : MarketState) : Option (Except ChainError MarketState) :=
  match s.byExpiration.head? with
  | none => some (.ok s)
  | some first => Loop.iterate clearRound s.clearRounds (s, { currentAsset := first.2.settlementAssetId })

end MarketState

end Playchain
