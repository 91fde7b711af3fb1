import Mathlib.Data.Rat.Defs
import Playchain.Graphene.AssetEvaluator
import Playchain.Graphene.VestingBalance

/-!
# Prices

The arithmetic of `asset.cpp`: products of amounts and prices, products of prices and ratios, and the price feed of a
market-issued asset. Products are computed with 128 bits and have to be a number of shares. A price that is scaled by
a ratio is a reduced fraction, and its terms are halved until both are numbers of shares again.
-/

namespace Playchain

/-- `GRAPHENE_COLLATERAL_RATIO_DENOM` -/
def collateralRatioDenom : ℕ := 1000
/-- `GRAPHENE_MIN_COLLATERAL_RATIO` -/
def minCollateralRatio : ℕ := 1001
/-- `GRAPHENE_MAX_COLLATERAL_RATIO` -/
def maxCollateralRatio : ℕ := 32000
/-- `GRAPHENE_DEFAULT_MAINTENANCE_COLLATERAL_RATIO` -/
def defaultMaintenanceCollateralRatio : ℕ := 1750
/-- `GRAPHENE_DEFAULT_MAX_SHORT_SQUEEZE_RATIO` -/
def defaultMaxShortSqueezeRatio : ℕ := 1500

namespace Price

/-- `price()` -/
instance : Inhabited Price := ⟨⟨{}, {}⟩⟩

/-- `operator~` -/
def inv (p : Price) : Price := ⟨p.quote, p.base⟩

/-- `is_null` -/
def isNull (p : Price) : Bool := p.base.assetId = coreAsset ∧ p.quote.assetId = coreAsset

/-- `operator<`: first the assets, then the ratios -/
instance : LT Price := ⟨fun a b ↦
  a.base.assetId < b.base.assetId ∨ a.base.assetId = b.base.assetId ∧
    (a.quote.assetId < b.quote.assetId ∨ a.quote.assetId = b.quote.assetId ∧
      b.quote.amount * a.base.amount < a.quote.amount * b.base.amount)⟩

theorem lt_def {a b : Price} : a < b ↔ a.base.assetId < b.base.assetId ∨ a.base.assetId = b.base.assetId ∧
    (a.quote.assetId < b.quote.assetId ∨ a.quote.assetId = b.quote.assetId ∧
      b.quote.amount * a.base.amount < a.quote.amount * b.base.amount) := Iff.rfl

instance : DecidableLT Price := fun _ _ ↦ decidable_of_iff _ lt_def.symm

/-- `operator<=` -/
instance : LE Price := ⟨fun a b ↦ ¬ b < a⟩

theorem le_def {a b : Price} : a ≤ b ↔ ¬ b < a := Iff.rfl

instance : DecidableLE Price := fun _ _ ↦ decidable_of_iff _ le_def.symm

/-- `operator==`: the same assets and the same ratio -/
def same (a b : Price) : Bool :=
  (a.base.assetId = b.base.assetId ∧ a.quote.assetId = b.quote.assetId) ∧
    b.quote.amount * a.base.amount = a.quote.amount * b.base.amount

/-- `operator/` of two amounts -/
def div (base quote : Asset) : Except ChainError Price := do
  fcAssert (base.assetId ≠ quote.assetId) "base.asset_id != quote.asset_id"
  return ⟨base, quote⟩

/-- `price::max` -/
def max (base quote : AssetId) : Except ChainError Price := div ⟨maxShareSupply, base⟩ ⟨1, quote⟩

/-- `price::min` -/
def min (base quote : AssetId) : Except ChainError Price := div ⟨1, base⟩ ⟨maxShareSupply, quote⟩

/-- `price::validate` -/
def validate (p : Price) : Except ChainError Unit := do
  fcAssert (0 < p.base.amount) "base.amount > share_type(0)"
  fcAssert (0 < p.quote.amount) "quote.amount > share_type(0)"
  fcAssert (p.base.assetId ≠ p.quote.assetId) "base.asset_id != quote.asset_id"

end Price

namespace Asset

/-- A quotient that has to be a number of shares. The dividend of the source is unsigned: a negative one wraps to a
quotient above the limit. -/
def quotient (dividend divisor : ℤ) (i : AssetId) : Except ChainError Asset := do
  fcAssert (0 < divisor) "amount.value > 0"
  fcAssert (0 ≤ dividend / divisor ∧ dividend / divisor ≤ maxShareSupply) "result <= GRAPHENE_MAX_SHARE_SUPPLY"
  return ⟨dividend / divisor, i⟩

/-- `operator*` of an amount and a price, rounded down -/
def mul (a : Asset) (p : Price) : Except ChainError Asset :=
  if a.assetId = p.base.assetId then quotient (a.amount * p.quote.amount) p.base.amount p.quote.assetId
  else if a.assetId = p.quote.assetId then quotient (a.amount * p.base.amount) p.quote.amount p.base.assetId
  else .error (.assertion "invalid asset * price")

/-- `multiply_and_round_up` -/
def mulRoundUp (a : Asset) (p : Price) : Except ChainError Asset :=
  if a.assetId = p.base.assetId then
    quotient (a.amount * p.quote.amount + p.base.amount - 1) p.base.amount p.quote.assetId
  else if a.assetId = p.quote.assetId then
    quotient (a.amount * p.base.amount + p.quote.amount - 1) p.quote.amount p.base.assetId
  else .error (.assertion "invalid asset::multiply_and_round_up(price)")

end Asset

/-! ### Prices and ratios -/

/-- A `boost::rational`, which has a denominator. -/
def rational (num den : ℤ) : Except ChainError ℚ :=
  if den = 0 then .error .divisionByZero else .ok (mkRat (num * den.sign) den.natAbs)

/-- A term of the fraction is no number of shares. -/
def outOfRange (q : ℚ) : Bool := maxShareSupply < q.num ∨ maxShareSupply < (q.den : ℤ)

/-- Rounds after which the terms of a fraction are small. -/
def halvings (q : ℚ) : ℕ := q.num.natAbs.log2 + q.den.log2 + 2

namespace Price

/-- A fraction, whether its terms were halved and whether it was replaced by a bound. -/
structure Scaled where
  value : ℚ
  shrinked : Bool
  usingMax : Bool

/-- The loop of `operator*` -/
def scaleLoop : ℕ → ℚ → Bool → Scaled
  | 0, cp, shrinked => ⟨cp, shrinked, false⟩
  | n + 1, cp, shrinked =>
    if outOfRange cp then
      if cp.num = 1 then ⟨mkRat 1 maxShareSupply.toNat, shrinked, true⟩
      else if cp.den = 1 then ⟨maxShareSupply, shrinked, true⟩
      else scaleLoop n (mkRat (cp.num / 2) (cp.den / 2)) true
    else ⟨cp, shrinked, false⟩

/-- The nearest of the fractions that have a term one, up to the limit. -/
def unitFraction (ocp : ℚ) : ℚ :=
  if (ocp.den : ℤ) < ocp.num then (if maxShareSupply < ocp.num / ocp.den then maxShareSupply else ocp.num / ocp.den : ℤ)
  else mkRat 1 (if maxShareSupply < ocp.den / ocp.num then maxShareSupply else ocp.den / ocp.num).toNat

/-- After halving, the closer of two approximations. -/
def refineScaled (ocp cp : ℚ) : ℚ :=
  let ncp := unitFraction ocp
  if ncp.num = maxShareSupply ∨ (ncp.den : ℤ) = maxShareSupply then ncp
  else if |ncp - ocp| < |cp - ocp| then ncp else cp

/-- `operator*` of a price and a ratio -/
def scale (p : Price) (r : ℚ) : Except ChainError Price := do
  p.validate
  fcAssert (0 < r.num) "r.numerator() > 0 && r.denominator() > 0"
  if r = 1 then return p
  let ocp := mkRat p.base.amount p.quote.amount.toNat * r
  let res := scaleLoop (halvings ocp) ocp false
  let cp := if res.shrinked then refineScaled ocp res.value else res.value
  let np ← div ⟨cp.num, p.base.assetId⟩ ⟨cp.den, p.quote.assetId⟩
  let np := if (res.shrinked ∨ res.usingMax) ∧ ((1 < r ∧ np < p) ∨ (r < 1 ∧ p < np)) then p else np
  np.validate
  return np

/-- `operator/` of a price and a ratio, whose terms change places -/
def divRatio (p : Price) (num den : ℤ) : Except ChainError Price := do
  p.scale (← rational den num)

/-- The loop of `call_price` -/
def callPriceLoop : ℕ → ℚ → ℚ
  | 0, cp => cp
  | n + 1, cp => if outOfRange cp then callPriceLoop n (mkRat (cp.num / 2 + 1) (cp.den / 2 + 1)) else cp

/-- `price::call_price` -/
def callPrice (debt collateral : Asset) (collateralRatio : ℕ) : Except ChainError Price := do
  let swan ← rational debt.amount collateral.amount
  let ratio ← rational collateralRatio collateralRatioDenom
  let cp := callPriceLoop (halvings (swan * ratio)) (swan * ratio)
  div ⟨cp.den, collateral.assetId⟩ ⟨cp.num, debt.assetId⟩

end Price

/-! ### Price feeds -/

/-- `price_feed` -/
structure PriceFeed where
  settlementPrice : Price := default
  coreExchangeRate : Price := default
  maintenanceCollateralRatio : ℕ := defaultMaintenanceCollateralRatio
  maximumShortSqueezeRatio : ℕ := defaultMaxShortSqueezeRatio
  deriving DecidableEq

namespace PriceFeed

instance : Inhabited PriceFeed := ⟨{}⟩

/-- `operator==`, which does not look at the exchange rate -/
def same (a b : PriceFeed) : Bool :=
  a.settlementPrice.same b.settlementPrice ∧ a.maintenanceCollateralRatio = b.maintenanceCollateralRatio ∧
    a.maximumShortSqueezeRatio = b.maximumShortSqueezeRatio

/-- `price_feed::validate` -/
def validate (f : PriceFeed) : Except ChainError Unit := do
  if !f.settlementPrice.isNull then f.settlementPrice.validate
  fcAssert (minCollateralRatio ≤ f.maximumShortSqueezeRatio) "maximum_short_squeeze_ratio"
  fcAssert (f.maximumShortSqueezeRatio ≤ maxCollateralRatio) "maximum_short_squeeze_ratio"
  fcAssert (minCollateralRatio ≤ f.maintenanceCollateralRatio) "maintenance_collateral_ratio"
  fcAssert (f.maintenanceCollateralRatio ≤ maxCollateralRatio) "maintenance_collateral_ratio"

/-- `is_for` -/
def isFor (f : PriceFeed) (i : AssetId) : Bool :=
  if !f.settlementPrice.isNull then f.settlementPrice.base.assetId = i
  else if !f.coreExchangeRate.isNull then f.coreExchangeRate.base.assetId = i
  else true

/-- The loop of `max_short_squeeze_price_before_hf_1270` -/
def squeezeLoop : ℕ → ℚ → ℚ
  | 0, cp => cp
  | n + 1, cp =>
    if outOfRange cp then squeezeLoop n (mkRat (cp.num / 2 + cp.num % 2) (cp.den / 2 + cp.den % 2)) else cp

/-- `max_short_squeeze_price_before_hf_1270` -/
def maxShortSqueezePriceBeforeHf1270 (f : PriceFeed) : Except ChainError Price := do
  let sp ← rational f.settlementPrice.base.amount f.settlementPrice.quote.amount
  let ratio ← rational collateralRatioDenom f.maximumShortSqueezeRatio
  let cp := squeezeLoop (halvings (sp * ratio)) (sp * ratio)
  Price.div ⟨cp.num, f.settlementPrice.base.assetId⟩ ⟨cp.den, f.settlementPrice.quote.assetId⟩

/-- `max_short_squeeze_price` -/
def maxShortSqueezePrice (f : PriceFeed) : Except ChainError Price := do
  f.settlementPrice.scale (← rational collateralRatioDenom f.maximumShortSqueezeRatio)

/-- `maintenance_collateralization` -/
def maintenanceCollateralization (f : PriceFeed) : Except ChainError Price := do
  if f.settlementPrice.isNull then return default
  f.settlementPrice.inv.scale (← rational f.maintenanceCollateralRatio collateralRatioDenom)

end PriceFeed

end Playchain
