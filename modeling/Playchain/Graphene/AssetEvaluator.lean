import Mathlib.Data.UInt
import Playchain.Lib.ObjectIndex
import Playchain.Protocol.Types

/-!
# The assets and what backs them

The evaluators of `asset_create`, `asset_update`, `asset_update_bitasset` and `asset_update_issuer`, with the branches
from before the hard forks. The data of a market-issued asset is kept with the asset. What the market keeps about
assets (supplies, fee pools, feeds, settlements and orders) is given from outside (`AssetMarket`); the evaluators read
the supply and the settlement of an asset and tell the market about a change.
-/

namespace Playchain

/-! ### Hard forks -/

def hardfork385Time : TimePointSec := 1445558400
def hardfork572Time : TimePointSec := 1456250400
def hardforkCore199Time : TimePointSec := 1532008920
def hardforkCore922931Time : TimePointSec := 1532008920
def hardfork1268Time : TimePointSec := 1556028120

/-! ### Assets -/

/-- `price` -/
structure Price where
  base : Asset
  quote : Asset
  deriving DecidableEq

/-- `disable_force_settle` -/
def disableForceSettle : UInt16 := 0x10
/-- `global_settle` -/
def globalSettle : UInt16 := 0x20

/-- `asset_options` -/
structure AssetOptions where
  issuerPermissions : UInt16
  flags : UInt16
  coreExchangeRate : Price
  whitelistAuthorities : FlatSet AccountId := ∅
  blacklistAuthorities : FlatSet AccountId := ∅
  /-- `extensions.value.reward_percent` -/
  rewardPercent : Option UInt16 := none
  /-- `extensions.value.whitelist_market_fee_sharing` -/
  whitelistMarketFeeSharing : Option (FlatSet AccountId) := none

/-- `bitasset_options` -/
structure BitassetOptions where
  feedLifetimeSec : UInt32
  minimumFeeds : UInt8 := 1
  forceSettlementDelaySec : UInt32
  shortBackingAsset : AssetId

/-- `asset_bitasset_data_object` -/
structure BitassetData where
  options : BitassetOptions
  isPredictionMarket : Bool := false
  assetCerUpdated : Bool := false

/-- `asset_object` -/
structure AssetObject where
  symbol : String
  precision : UInt8
  issuer : AccountId
  options : AssetOptions
  bitassetData : Option BitassetData := none

namespace AssetObject

/-- `is_market_issued` -/
def isMarketIssued (a : AssetObject) : Bool := a.bitassetData.isSome

/-- `can_force_settle` -/
def canForceSettle (a : AssetObject) : Bool := a.options.flags &&& disableForceSettle = 0

/-- `bitasset_data` -/
def getBitassetData (a : AssetObject) : Except ChainError BitassetData :=
  match a.bitassetData with
  | some data => .ok data
  | none => .error (.assertion "Asset ${a} (${id}) is not a market issued asset.")

/-- `validate`: user-issued assets have neither force settlement nor global settlements. -/
def validate (a : AssetObject) : Except ChainError Unit := do
  if !a.isMarketIssued then
    fcAssert (a.options.flags &&& disableForceSettle = 0 ∧ a.options.flags &&& globalSettle = 0) ""
    fcAssert (a.options.issuerPermissions &&& disableForceSettle = 0 ∧
      a.options.issuerPermissions &&& globalSettle = 0) ""

/-- The asset that backs a market-issued asset. -/
def backing (a : AssetObject) : Option AssetId := a.bitassetData.map fun data ↦ data.options.shortBackingAsset

end AssetObject

/-! ### Operations -/

/-- `asset_create_operation` -/
structure AssetCreateOperation where
  issuer : AccountId
  symbol : String
  precision : UInt8
  commonOptions : AssetOptions
  bitassetOpts : Option BitassetOptions := none
  isPredictionMarket : Bool := false

/-- `asset_update_operation` -/
structure AssetUpdateOperation where
  issuer : AccountId
  assetToUpdate : AssetId
  newIssuer : Option AccountId := none
  newOptions : AssetOptions

/-- `asset_update_bitasset_operation` -/
structure AssetUpdateBitassetOperation where
  issuer : AccountId
  assetToUpdate : AssetId
  newOptions : BitassetOptions

/-- `asset_update_issuer_operation` -/
structure AssetUpdateIssuerOperation where
  issuer : AccountId
  assetToUpdate : AssetId
  newIssuer : AccountId

inductive AssetOperation where
  | create (op : AssetCreateOperation)
  | update (op : AssetUpdateOperation)
  | updateBitasset (op : AssetUpdateBitassetOperation)
  | updateIssuer (op : AssetUpdateIssuerOperation)

/-! ### The state -/

/-- What the market keeps about assets. -/
class AssetMarket (ρ : Type) where
  /-- `current_supply` -/
  currentSupply : ρ → AssetId → ℤ
  /-- `has_settlement` -/
  hasSettlement : ρ → AssetId → Bool
  /-- The dynamic data of a new asset. -/
  assetCreated : ρ → AssetId → ρ
  /-- `cancel_settle_order` of every order to settle the asset -/
  cancelSettleOrders : ρ → AssetId → ρ
  /-- The feeds after a change of the options, and `check_call_orders` if the price has changed. -/
  bitassetUpdated : ρ → AssetId → AssetObject → BitassetOptions → Except ChainError ρ

/-- The assets, and what the evaluators read of the rest of the chain. -/
structure AssetState (ρ : Type) where
  assets : ObjectIndex AssetObject
  accounts : FlatSet AccountId
  market : ρ
  headBlockTime : TimePointSec
  nextMaintenanceTime : TimePointSec
  maximumAssetWhitelistAuthorities : ℕ
  blockInterval : ℕ

namespace AssetState

variable {ρ : Type}

/-- `id(d)`: the asset has to be there. -/
def getAsset (s : AssetState ρ) (i : AssetId) : Except ChainError AssetObject :=
  match s.assets.find? i with
  | some a => .ok a
  | none => .error .missingObject

/-- A lookup in `by_symbol`. -/
def findSymbol (s : AssetState ρ) (symbol : String) : Option AssetObject :=
  (s.assets.toList.find? fun p ↦ p.2.symbol = symbol).map Prod.snd

/-- The authorities exist. -/
def checkAuthorities (s : AssetState ρ) (authorities : FlatSet AccountId) : Except ChainError Unit :=
  if authorities.elements.all s.accounts.contains then .ok () else .error .missingObject

/-- `check_asset_options_hf_1268` -/
def checkAssetOptionsHf1268 (blockTime : TimePointSec) (options : AssetOptions) : Except ChainError Unit := do
  if blockTime < hardfork1268Time then
    fcAssert (options.rewardPercent = none)
      "Asset extension reward percent is only available after HARDFORK_1268_TIME!"
    fcAssert (options.whitelistMarketFeeSharing.isNone)
      "Asset extension whitelist_market_fee_sharing is only available after HARDFORK_1268_TIME!"

/-! ### `asset_create_evaluator` -/

/-- The part of a symbol before its last dot. -/
def symbolPrefix (symbol : String) : Option String :=
  match symbol.toList.reverse.dropWhile (· ≠ '.') with
  | [] => none
  | _ :: rest => some (String.ofList rest.reverse)

/-- The symbol is new, and what stands before its dot is a symbol of the same issuer. -/
def checkSymbol (s : AssetState ρ) (op : AssetCreateOperation) : Except ChainError Unit := do
  fcAssert ((s.findSymbol op.symbol).isNone) ""
  if hardfork385Time < s.headBlockTime then
    match symbolPrefix op.symbol with
    | none => return ()
    | some parent =>
      match s.findSymbol parent with
      | none => throw (.assertion
          "Asset ${s} may only be created by issuer of ${p}, but ${p} has not been registered")
      | some a => fcAssert (a.issuer = op.issuer) "Asset ${s} may only be created by issuer of ${p}, ${i}"

/-- What may back a new asset. -/
def checkBacking (s : AssetState ρ) (issuer : AccountId) (backingId : AssetId) : Except ChainError Unit := do
  let backing ← s.getAsset backingId
  if backing.isMarketIssued then
    let backingBitassetData ← backing.getBitassetData
    let backingBacking ← s.getAsset backingBitassetData.options.shortBackingAsset
    fcAssert (!backingBacking.isMarketIssued) "May not create a bitasset backed by a bitasset backed by a bitasset."
    fcAssert (issuer ≠ committeeAccount ∨ backingBitassetData.options.shortBackingAsset = coreAsset)
      "May not create a blockchain-controlled market asset which is not backed by CORE."
  else
    fcAssert (issuer ≠ committeeAccount ∨ backingId = coreAsset)
      "May not create a blockchain-controlled market asset which is not backed by CORE."

/-- The options of a new market-issued asset. -/
def checkBitassetOpts (s : AssetState ρ) (op : AssetCreateOperation) : Except ChainError Unit :=
  match op.bitassetOpts with
  | none => .ok ()
  | some opts => do
    s.checkBacking op.issuer opts.shortBackingAsset
    fcAssert (s.blockInterval < opts.feedLifetimeSec.toNat ∧ s.blockInterval < opts.forceSettlementDelaySec.toNat) ""

/-- A prediction market has the precision of its backing asset. -/
def checkPredictionMarket (s : AssetState ρ) (op : AssetCreateOperation) : Except ChainError Unit :=
  if op.isPredictionMarket then
    match op.bitassetOpts with
    | none => .error (.assertion "op.bitasset_opts")
    | some opts => do
      let backing ← s.getAsset opts.shortBackingAsset
      fcAssert (op.precision = backing.precision) ""
  else .ok ()

/-- `asset_create_evaluator::do_evaluate` -/
def evaluateAssetCreate (s : AssetState ρ) (op : AssetCreateOperation) : Except ChainError Unit := do
  fcAssert (op.commonOptions.whitelistAuthorities.size ≤ s.maximumAssetWhitelistAuthorities) ""
  fcAssert (op.commonOptions.blacklistAuthorities.size ≤ s.maximumAssetWhitelistAuthorities) ""
  checkAssetOptionsHf1268 s.headBlockTime op.commonOptions
  s.checkAuthorities op.commonOptions.whitelistAuthorities
  s.checkAuthorities op.commonOptions.blacklistAuthorities
  s.checkSymbol op
  s.checkBitassetOpts op
  s.checkPredictionMarket op

/-- The new asset. The side of the exchange rate that is not CORE gets its id. -/
def newAsset (i : AssetId) (op : AssetCreateOperation) : AssetObject :=
  let rate := op.commonOptions.coreExchangeRate
  { symbol := op.symbol
    precision := op.precision
    issuer := op.issuer
    options :=
      { op.commonOptions with
        coreExchangeRate :=
          if rate.base.assetId = coreAsset then { rate with quote := { rate.quote with assetId := i } }
          else { rate with base := { rate.base with assetId := i } } }
    bitassetData := op.bitassetOpts.map fun opts ↦
      { options := opts, isPredictionMarket := op.isPredictionMarket } }

/-- `asset_create_evaluator` -/
def assetCreate [AssetMarket ρ] (s : AssetState ρ) (op : AssetCreateOperation) :
    Except ChainError (AssetState ρ) := do
  s.evaluateAssetCreate op
  return { s with
    assets := s.assets.create (newAsset s.assets.nextId op)
    market := AssetMarket.assetCreated s.market s.assets.nextId }

/-! ### `asset_update_evaluator` and `asset_update_issuer_evaluator` -/

/-- `validate_new_issuer` -/
def validateNewIssuer (s : AssetState ρ) (a : AssetObject) (newIssuer : AccountId) : Except ChainError Unit := do
  fcAssert (s.accounts.contains newIssuer) "d.find_object(new_issuer)"
  if a.isMarketIssued ∧ newIssuer = committeeAccount then
    let data ← a.getBitassetData
    let backing ← s.getAsset data.options.shortBackingAsset
    if backing.isMarketIssued then
      let backingData ← backing.getBitassetData
      let _ ← s.getAsset backingData.options.shortBackingAsset
      fcAssert (backingData.options.shortBackingAsset = coreAsset)
        "May not create a blockchain-controlled market asset which is not backed by CORE."
    else
      fcAssert (data.options.shortBackingAsset = coreAsset)
        "May not create a blockchain-controlled market asset which is not backed by CORE."

/-- Since a hard fork, an update does not change the issuer. -/
def checkNewIssuer (s : AssetState ρ) (a : AssetObject) : Option AccountId → Except ChainError Unit
  | none => .ok ()
  | some newIssuer => do
    fcAssert (s.headBlockTime < hardforkCore199Time)
      "Since Hardfork #199, updating issuer requires the use of asset_update_issuer_operation."
    s.validateNewIssuer a newIssuer

/-- Permissions that were given up do not come back while there are shares. -/
def checkIssuerPermissions [AssetMarket ρ] (s : AssetState ρ) (a : AssetObject) (op : AssetUpdateOperation) :
    Except ChainError Unit :=
  if s.headBlockTime < hardfork572Time ∨ AssetMarket.currentSupply s.market op.assetToUpdate ≠ 0 then
    fcAssert (op.newOptions.issuerPermissions &&& ~~~a.options.issuerPermissions = 0)
      "Cannot reinstate previously revoked issuer permissions on an asset."
  else .ok ()

/-- `asset_update_evaluator::do_evaluate` -/
def evaluateAssetUpdate [AssetMarket ρ] (s : AssetState ρ) (op : AssetUpdateOperation) :
    Except ChainError AssetObject := do
  let a ← s.getAsset op.assetToUpdate
  AssetObject.validate { a with options := op.newOptions }
  s.checkNewIssuer a op.newIssuer
  checkAssetOptionsHf1268 s.headBlockTime op.newOptions
  s.checkIssuerPermissions a op
  fcAssert ((op.newOptions.flags ^^^ a.options.flags) &&& ~~~a.options.issuerPermissions = 0)
    "Flag change is forbidden by issuer permissions"
  fcAssert (op.issuer = a.issuer) "Incorrect issuer for asset! (${o.issuer} != ${a.issuer})"
  fcAssert (op.newOptions.whitelistAuthorities.size ≤ s.maximumAssetWhitelistAuthorities) ""
  s.checkAuthorities op.newOptions.whitelistAuthorities
  fcAssert (op.newOptions.blacklistAuthorities.size ≤ s.maximumAssetWhitelistAuthorities) ""
  s.checkAuthorities op.newOptions.blacklistAuthorities
  return a

/-- The asset after an update. -/
def updatedAsset (op : AssetUpdateOperation) (a : AssetObject) : AssetObject :=
  { a with
    issuer := op.newIssuer.getD a.issuer
    options := op.newOptions
    bitassetData := a.bitassetData.map fun data ↦
      if a.options.coreExchangeRate ≠ op.newOptions.coreExchangeRate then { data with assetCerUpdated := true }
      else data }

/-- `asset_update_evaluator` -/
def assetUpdate [AssetMarket ρ] (s : AssetState ρ) (op : AssetUpdateOperation) :
    Except ChainError (AssetState ρ) := do
  let a ← s.evaluateAssetUpdate op
  return { s with
    assets := s.assets.modify op.assetToUpdate (updatedAsset op)
    market :=
      if op.newOptions.flags &&& disableForceSettle ≠ 0 ∧ a.canForceSettle then
        AssetMarket.cancelSettleOrders s.market op.assetToUpdate
      else s.market }

/-- `asset_update_issuer_evaluator` -/
def assetUpdateIssuer (s : AssetState ρ) (op : AssetUpdateIssuerOperation) :
    Except ChainError (AssetState ρ) := do
  let a ← s.getAsset op.assetToUpdate
  s.validateNewIssuer a op.newIssuer
  fcAssert (op.issuer = a.issuer) "Incorrect issuer for asset! (${o.issuer} != ${a.issuer})"
  return { s with assets := s.assets.modify op.assetToUpdate fun a ↦ { a with issuer := op.newIssuer } }

/-! ### `asset_update_bitasset_evaluator` -/

/-- The assets that an asset backs. -/
def children (s : AssetState ρ) (i : AssetId) : List (AssetId × AssetObject) :=
  s.assets.toList.filter fun p ↦ p.2.backing = some i

/-- The body of the loop of `check_children_of_bitasset`. Before the hard fork it writes to the log only. -/
def checkChild (newBackingId : AssetId) (newBacking : AssetObject) (afterHf922931 : Bool)
    (child : AssetId × AssetObject) : Except ChainError Unit := do
  if afterHf922931 then
    fcAssert (child.1 ≠ newBackingId)
      "A BitAsset would be invalidated by changing this backing asset ('A' backed by 'B' backed by 'A')."
    fcAssert (child.2.issuer ≠ committeeAccount)
      "A blockchain-controlled market asset would be invalidated by changing this backing asset."
    fcAssert (!newBacking.isMarketIssued)
      "A non-blockchain controlled BitAsset would be invalidated by changing this backing asset."

/-- `check_children_of_bitasset` -/
def checkChildrenOfBitasset (s : AssetState ρ) (i newBackingId : AssetId) (newBacking : AssetObject)
    (afterHf922931 : Bool) : Except ChainError Unit :=
  if newBackingId = coreAsset then .ok ()
  else (s.children i).forM (checkChild newBackingId newBacking afterHf922931)

/-- The asset that backs an asset of the committee is CORE or market-issued and backed by CORE. -/
def checkCommitteeBacking (backingId : AssetId) (backing : AssetObject) : Except ChainError Unit :=
  if backing.isMarketIssued then do
    let data ← backing.getBitassetData
    fcAssert (data.options.shortBackingAsset = coreAsset)
      ("May not modify a blockchain-controlled market asset to be backed by an asset which is not " ++
        "backed by CORE.")
  else
    fcAssert (backingId = coreAsset)
      ("May not modify a blockchain-controlled market asset to be backed by an asset which is not " ++
        "market issued asset nor CORE.")

/-- A prediction market keeps the precision of its backing asset. -/
def checkPrecision (a : AssetObject) (data : BitassetData) (newBacking : AssetObject) : Except ChainError Unit :=
  if data.isPredictionMarket then
    fcAssert (a.precision = newBacking.precision) "The precision of the asset and backing asset must be equal."
  else .ok ()

/-- A new backing asset suits the issuer, and the assets that are backed by the asset. -/
def checkIssuerBacking (s : AssetState ρ) (i : AssetId) (a : AssetObject) (newBackingId : AssetId)
    (newBacking : AssetObject) : Except ChainError Unit := do
  if a.issuer = committeeAccount then
    checkCommitteeBacking newBackingId newBacking
    if newBacking.isMarketIssued then s.checkChildrenOfBitasset i newBackingId newBacking true
  else if newBackingId ≠ coreAsset then
    s.checkChildrenOfBitasset i newBackingId newBacking true

/-- A market-issued backing asset is backed by CORE or by an asset that is not market-issued. -/
def checkBackingBacking (s : AssetState ρ) (newBacking : AssetObject) : Except ChainError Unit := do
  if newBacking.isMarketIssued then
    let newData ← newBacking.getBitassetData
    if newData.options.shortBackingAsset ≠ coreAsset then
      let backingBacking ← s.getAsset newData.options.shortBackingAsset
      fcAssert (!backingBacking.isMarketIssued)
        "A BitAsset cannot be backed by a BitAsset that itself is backed by a BitAsset."

/-- The checks of a new backing asset after the hard fork. -/
def checkNewBacking (s : AssetState ρ) (i : AssetId) (a : AssetObject) (data : BitassetData)
    (newBackingId : AssetId) (newBacking : AssetObject) : Except ChainError Unit := do
  fcAssert (newBackingId ≠ i) "Cannot update an asset to be backed by itself."
  checkPrecision a data newBacking
  s.checkIssuerBacking i a newBackingId newBacking
  s.checkBackingBacking newBacking

/-- The checks before the hard fork. They look at the asset that backs a committee asset until now; the rest of the
checks of the new one write to the log only. -/
def checkOldBacking (s : AssetState ρ) (a : AssetObject) (data : BitassetData) : Except ChainError Unit := do
  if a.issuer = committeeAccount then
    let oldBacking ← s.getAsset data.options.shortBackingAsset
    checkCommitteeBacking data.options.shortBackingAsset oldBacking

/-- The checks of a change of the backing asset. -/
def checkBackingChange [AssetMarket ρ] (s : AssetState ρ) (op : AssetUpdateBitassetOperation) (a : AssetObject)
    (data : BitassetData) : Except ChainError Unit := do
  if op.newOptions.shortBackingAsset ≠ data.options.shortBackingAsset then
    fcAssert (AssetMarket.currentSupply s.market op.assetToUpdate = 0)
      "Cannot update a bitasset if there is already a current supply."
    let newBacking ← s.getAsset op.newOptions.shortBackingAsset
    if hardforkCore922931Time < s.nextMaintenanceTime then
      s.checkNewBacking op.assetToUpdate a data op.newOptions.shortBackingAsset newBacking
    else s.checkOldBacking a data

/-- The periods of a feed and of a settlement, after the hard fork. -/
def checkPeriods (s : AssetState ρ) (options : BitassetOptions) : Except ChainError Unit := do
  if hardforkCore922931Time < s.nextMaintenanceTime then
    fcAssert (s.blockInterval < options.feedLifetimeSec.toNat) "Feed lifetime must exceed block interval."
    fcAssert (s.blockInterval < options.forceSettlementDelaySec.toNat)
      "Force settlement delay must exceed block interval."

/-- `asset_update_bitasset_evaluator::do_evaluate` -/
def evaluateAssetUpdateBitasset [AssetMarket ρ] (s : AssetState ρ) (op : AssetUpdateBitassetOperation) :
    Except ChainError AssetObject := do
  let a ← s.getAsset op.assetToUpdate
  fcAssert a.isMarketIssued "Cannot update BitAsset-specific settings on a non-BitAsset."
  fcAssert (op.issuer = a.issuer) "Only asset issuer can update bitasset_data of the asset."
  let data ← a.getBitassetData
  fcAssert (!AssetMarket.hasSettlement s.market op.assetToUpdate)
    "Cannot update a bitasset after a global settlement has executed"
  s.checkBackingChange op a data
  s.checkPeriods op.newOptions
  return a

/-- `asset_update_bitasset_evaluator` -/
def assetUpdateBitasset [AssetMarket ρ] (s : AssetState ρ) (op : AssetUpdateBitassetOperation) :
    Except ChainError (AssetState ρ) := do
  let a ← s.evaluateAssetUpdateBitasset op
  let market ← AssetMarket.bitassetUpdated s.market op.assetToUpdate a op.newOptions
  return { s with
    assets := s.assets.modify op.assetToUpdate fun a ↦
      { a with bitassetData := a.bitassetData.map fun data ↦ { data with options := op.newOptions } }
    market := market }

/-! ### Runs -/

/-- The effect of an operation. -/
def apply [AssetMarket ρ] (s : AssetState ρ) : AssetOperation → Except ChainError (AssetState ρ)
  | .create op => s.assetCreate op
  | .update op => s.assetUpdate op
  | .updateBitasset op => s.assetUpdateBitasset op
  | .updateIssuer op => s.assetUpdateIssuer op

end AssetState

/-- The assets that the genesis names. -/
structure InitialAsset where
  symbol : String
  precision : UInt8
  issuer : AccountId
  options : AssetOptions
  bitassetOptions : Option BitassetOptions := none

/-- The part of `init_genesis` about assets: CORE, ids that are created and removed again, and the initial assets,
which are backed by CORE if they are market-issued. -/
def initAssets (core : AssetObject) (numSpecialAssets : ℕ) (initialAssets : List InitialAsset) :
    ObjectIndex AssetObject :=
  let reserved := (List.range (numSpecialAssets - 1)).foldl
    (fun assets _ ↦ (assets.create core).remove assets.nextId)
    ((∅ : ObjectIndex AssetObject).create { core with bitassetData := none })
  initialAssets.foldl
    (fun assets a ↦ assets.create
      { symbol := a.symbol
        precision := a.precision
        issuer := a.issuer
        options := a.options
        bitassetData := a.bitassetOptions.map fun options ↦
          { options := { options with shortBackingAsset := coreAsset } } })
    reserved

end Playchain
