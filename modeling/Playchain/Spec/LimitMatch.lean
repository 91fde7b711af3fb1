import Playchain.Graphene.LimitOrders
import Playchain.Lib.Rounding
import Playchain.Spec.MarketFrame
import Playchain.Spec.PriceOrder

/-!
# Limit orders are matched exactly

Two orders are matched at the price of the one that is there. The amounts are a round trip at that price
(`matchAmounts_spec`): one side is rounded down in favour of the bigger order and the other one up again, so the smaller order
keeps less than what a unit costs, and is removed. The crossing of the prices is what carries this over from the price of the
match to an order's own price.
-/

namespace Playchain

open GroupedOrders Rounding

/-! ### Amounts at a price -/

namespace Asset

variable {p : Price} {x : ℤ}

theorem quotient_eq {dividend divisor : ℤ} (i : AssetId) (hd : 0 < divisor) (h₀ : 0 ≤ dividend / divisor)
    (h : dividend / divisor ≤ maxShareSupply) : quotient dividend divisor i = .ok ⟨dividend / divisor, i⟩ := by
  unfold quotient
  rw [fcAssert_of_true hd, Except.ok_bind, fcAssert_of_true ⟨h₀, h⟩]
  rfl

theorem mul_base (hp : ValidPrice p) (h₀ : 0 ≤ down x p.quote.amount p.base.amount)
    (h : down x p.quote.amount p.base.amount ≤ maxShareSupply) :
    mul ⟨x, p.base.assetId⟩ p = .ok ⟨down x p.quote.amount p.base.amount, p.quote.assetId⟩ :=
  (if_pos rfl).trans (quotient_eq _ hp.base h₀ h)

theorem mul_quote (hp : ValidPrice p) (h₀ : 0 ≤ down x p.base.amount p.quote.amount)
    (h : down x p.base.amount p.quote.amount ≤ maxShareSupply) :
    mul ⟨x, p.quote.assetId⟩ p = .ok ⟨down x p.base.amount p.quote.amount, p.base.assetId⟩ :=
  (if_neg hp.assets.symm).trans ((if_pos rfl).trans (quotient_eq _ hp.quote h₀ h))

theorem mulRoundUp_base (hp : ValidPrice p) (h₀ : 0 ≤ up x p.quote.amount p.base.amount)
    (h : up x p.quote.amount p.base.amount ≤ maxShareSupply) :
    mulRoundUp ⟨x, p.base.assetId⟩ p = .ok ⟨up x p.quote.amount p.base.amount, p.quote.assetId⟩ :=
  (if_pos rfl).trans (quotient_eq _ hp.base h₀ h)

theorem mulRoundUp_quote (hp : ValidPrice p) (h₀ : 0 ≤ up x p.base.amount p.quote.amount)
    (h : up x p.base.amount p.quote.amount ≤ maxShareSupply) :
    mulRoundUp ⟨x, p.quote.assetId⟩ p = .ok ⟨up x p.base.amount p.quote.amount, p.base.assetId⟩ :=
  (if_neg hp.assets.symm).trans ((if_pos rfl).trans (quotient_eq _ hp.quote h₀ h))

theorem le_eq (x y : ℤ) (i : AssetId) : le ⟨x, i⟩ ⟨y, i⟩ = .ok (decide (x ≤ y)) := by
  unfold le lt sameAsset
  rw [fcAssert_of_true rfl]
  simp only [Except.ok_bind, pure, Except.pure]
  by_cases h : x ≤ y
  · simp [h]
  · simp [h, not_le.mp h]

end Asset

namespace MarketState

/-- **The amounts of a match** of `usd` against `core` at a price: what the taker and the maker receive. Either side keeps less
than what a unit costs if it is the smaller one. -/
structure Amounts (usd core : ℤ) (price : Price) (usdReceives coreReceives : ℤ) (cullTaker : Bool) : Prop where
  usdReceives_pos : 1 ≤ usdReceives
  usdReceives_le : usdReceives ≤ core
  coreReceives_pos : 1 ≤ coreReceives
  coreReceives_le : coreReceives ≤ usd
  /-- The taker is the smaller one. -/
  taker : cullTaker = true → usdReceives * price.quote.amount ≤ coreReceives * price.base.amount ∧
    coreReceives * price.base.amount < usdReceives * price.quote.amount + price.base.amount ∧
    usd * price.base.amount < (usdReceives + 1) * price.quote.amount ∧
    (usd - coreReceives) * price.base.amount < price.quote.amount
  /-- The maker is the smaller one. -/
  maker : cullTaker = false → coreReceives * price.base.amount ≤ usdReceives * price.quote.amount ∧
    usdReceives * price.quote.amount < coreReceives * price.base.amount + price.quote.amount ∧
    coreReceives < usd ∧ coreReceives = down core price.quote.amount price.base.amount ∧
    (core - usdReceives) * price.quote.amount < price.base.amount

variable {maintTime : UInt32} {usd core : ℤ} {price : Price}

/-- **The amounts of a match are a round trip at the price.** -/
theorem matchAmounts_spec (hp : ValidPrice price) (h342 : hardforkCore342Time < maintTime) (husd : 0 < usd)
    (husd' : usd ≤ maxShareSupply) (hcore : core ≤ maxShareSupply) (hworth : 1 ≤ down core price.quote.amount price.base.amount)
    (hworth' : down core price.quote.amount price.base.amount ≤ maxShareSupply) :
    (down usd price.base.amount price.quote.amount = 0 ∧
      matchAmounts maintTime ⟨usd, price.quote.assetId⟩ ⟨core, price.base.assetId⟩ price = .ok none) ∨
    ∃ usdReceives coreReceives cullTaker, Amounts usd core price usdReceives coreReceives cullTaker ∧
      matchAmounts maintTime ⟨usd, price.quote.assetId⟩ ⟨core, price.base.assetId⟩ price =
        .ok (some (⟨usdReceives, price.base.assetId⟩, ⟨coreReceives, price.quote.assetId⟩, cullTaker)) := by
  have hbase := hp.base
  have hquote := hp.quote
  have hmul : Asset.mul ⟨core, price.base.assetId⟩ price = _ := Asset.mul_base hp (by omega) hworth'
  have hbefore : ¬maintTime ≤ hardforkCore342Time := UInt32.not_le.mpr h342
  have hafter : hardforkCore184Time < maintTime := h342
  unfold matchAmounts
  rw [hmul, Except.ok_bind, Asset.le_eq, Except.ok_bind]
  generalize hworth_eq : down core price.quote.amount price.base.amount = worth at hworth hworth'
  -- the order whose whole amount is worth less at the price is used up
  by_cases hle : usd ≤ worth
  · rw [if_pos (decide_eq_true hle)]
    have hcross : usd * price.base.amount ≤ core * price.quote.amount := by
      rw [← hworth_eq] at hle
      exact (le_down_iff hbase).mp hle
    have hreceives₀ : 0 ≤ down usd price.base.amount price.quote.amount := down_nonneg husd.le hbase.le hquote
    have hreceives : down usd price.base.amount price.quote.amount ≤ core :=
      le_of_mul_le_mul_right ((down_mul_le hquote).trans hcross) hquote
    rw [Asset.mul_quote hp hreceives₀ (hreceives.trans hcore), Except.ok_bind]
    by_cases hzero : down usd price.base.amount price.quote.amount = 0
    · refine .inl ⟨hzero, ?_⟩
      rw [if_pos ⟨hzero, hafter⟩]
      rfl
    · right
      -- what the taker pays is rounded up from what it receives
      have hpays : up (down usd price.base.amount price.quote.amount) price.quote.amount price.base.amount ≤ usd :=
        up_down_le hbase hquote
      have hpays_pos := up_pos (show 0 < down usd price.base.amount price.quote.amount by omega) hquote hbase
      refine ⟨_, _, true, ⟨by omega, hreceives, hpays_pos, hpays, fun _ ↦ ⟨le_up_mul hbase, up_mul_lt hbase, ?_, ?_⟩,
        fun h ↦ by cases h⟩, ?_⟩
      · rw [add_mul, one_mul]
        exact lt_down_mul hquote
      · exact rest_lt hbase hquote
      · rw [if_neg fun h ↦ hzero h.1, if_neg hbefore, Asset.mulRoundUp_base hp hpays_pos.le (hpays.trans husd'),
          Except.ok_bind]
        rfl
  · rw [if_neg (by simpa using hle)]
    -- here the maker receives all that its amount is worth, and pays for that, rounded up
    have hpays : up worth price.base.amount price.quote.amount ≤ core := by
      rw [← hworth_eq]
      exact up_down_le hquote hbase
    have hpays_pos := up_pos (show 0 < worth by omega) hbase hquote
    right
    refine ⟨up worth price.base.amount price.quote.amount, worth, false, ⟨hpays_pos, hpays, hworth, by omega,
      (fun h ↦ by cases h), fun _ ↦ ⟨le_up_mul hquote, up_mul_lt hquote, by omega, hworth_eq.symm, ?_⟩⟩, ?_⟩
    · rw [← hworth_eq]
      exact rest_lt hquote hbase
    · rw [Except.ok_bind, if_neg hbefore, Asset.mulRoundUp_quote hp hpays_pos.le (hpays.trans hcore),
        Except.ok_bind]
      rfl

/-! ### Filling an order -/

section Fill

variable {s : MarketState} {id : ℕ} {order : LimitOrderObject} {pays receives : Asset} {cullIfSmall isMaker : Bool}

/-- The same times, accounts and assets, and no statistics or dynamic data more or less. -/
structure SameRules (s s' : MarketState) : Prop where
  headBlockTime : s'.headBlockTime = s.headBlockTime
  isAuthorizedAsset : s'.isAuthorizedAsset = s.isAuthorizedAsset
  accounts : s'.accounts = s.accounts
  assets : s'.assets = s.assets
  statistics : s'.statistics.keys = s.statistics.keys
  dynamicData : s'.dynamicData.keys = s.dynamicData.keys

theorem SameRules.trans {s s' s'' : MarketState} (h : SameRules s s') (h' : SameRules s' s'') : SameRules s s'' :=
  ⟨h'.1.trans h.1, h'.2.trans h.2, h'.3.trans h.3, h'.4.trans h.4, h'.5.trans h.5, h'.6.trans h.6⟩

theorem Pays.sameRules {s s' : MarketState} (h : Pays s s') : SameRules s s' :=
  ⟨h.headBlockTime, h.isAuthorizedAsset, h.accounts, h.assets, h.statistics, h.dynamicData⟩

/-- The market fees of the account's orders for an amount of an asset can be paid. -/
def FeesPayable (s : MarketState) (account : AccountId) (i : AssetId) : Prop :=
  ∀ s' amount, SameRules s s' → 0 < amount → amount ≤ maxShareSupply →
    ∃ r, s'.payMarketFees (s'.feeSeller account) ⟨amount, i⟩ = .ok r

/-- The seller of an order has an account with statistics, and the asset of the deferred fee has dynamic data. -/
structure Backed (s : MarketState) (order : LimitOrderObject) : Prop where
  account : order.seller ∈ s.accounts.keys
  statistics : order.seller ∈ s.statistics.keys
  feeAsset : order.deferredPaidFee.assetId ∈ s.dynamicData.keys

theorem toInt64_mod {n : ℕ} (h : n < 2 ^ 63) : toInt64 (n % 2 ^ 64) = n := by
  rw [Nat.mod_eq_of_lt (h.trans (by decide))]
  exact Int.bmod_eq_of_le (by omega) (by omega)

/-- A percentage of a supply does not wrap. -/
theorem calculatePercent_eq {value : ℤ} (h₀ : 0 ≤ value) (h : value ≤ maxShareSupply) {percent : UInt16}
    (hpercent : percent.toNat ≤ hundredPercent) :
    calculatePercent value percent = value * percent.toNat / hundredPercent := by
  obtain ⟨n, rfl⟩ := Int.eq_ofNat_of_zero_le h₀
  have hsupply : (n : ℤ) ≤ 1000000000000000 := h
  have hvalue : toUInt128 n = n := by
    show ((n : ℤ) % 2 ^ 128).toNat = n
    rw [Int.emod_eq_of_lt h₀ (by omega), Int.toNat_natCast]
  have hproduct : n * percent.toNat ≤ n * hundredPercent := Nat.mul_le_mul_left n hpercent
  have hquotient : n * percent.toNat / hundredPercent ≤ n := Nat.div_le_of_le_mul (by rwa [mul_comm hundredPercent])
  have hwide : n * percent.toNat < 2 ^ 128 := hproduct.trans_lt <| by
    rw [show hundredPercent = 10000 from rfl]
    omega
  have hlow : n * percent.toNat / hundredPercent < 2 ^ 63 := hquotient.trans_lt (by omega)
  rw [calculatePercent, hvalue, Nat.mod_eq_of_lt hwide, toInt64_mod hlow, Int.natCast_ediv, Nat.cast_mul]

/-- A part of an amount is no more than the amount. -/
theorem calculatePercent_le {value : ℤ} (h₀ : 0 ≤ value) (h : value ≤ maxShareSupply) {percent : UInt16}
    (hpercent : percent.toNat ≤ hundredPercent) :
    0 ≤ calculatePercent value percent ∧ calculatePercent value percent ≤ value := by
  rw [calculatePercent_eq h₀ h hpercent]
  refine ⟨Int.ediv_nonneg (mul_nonneg h₀ (Int.natCast_nonneg _)) (by decide), ?_⟩
  refine Int.ediv_le_of_le_mul (by decide) ?_
  exact mul_le_mul_of_nonneg_left (Nat.cast_le.2 hpercent) h₀

/-- Less than the whole of an amount is less than the amount. -/
theorem calculatePercent_lt {value : ℤ} (h₀ : 0 < value) (h : value ≤ maxShareSupply) {percent : UInt16}
    (hpercent : percent.toNat < hundredPercent) : calculatePercent value percent < value := by
  rw [calculatePercent_eq h₀.le h hpercent.le]
  exact Int.ediv_lt_of_lt_mul (by decide) (mul_lt_mul_of_pos_left (Nat.cast_lt.2 hpercent) h₀)

/-- Rewards of less than the whole fee can be paid. -/
theorem payRewards_ok {seller : TradingAccount} {a : TradedAsset} {fee : Asset} (hpos : 0 < fee.amount)
    (hle : fee.amount ≤ maxShareSupply) (hreward : (a.rewardPercent.getD 0).toNat < hundredPercent)
    (hreferrer : seller.referrerRewardsPercentage.toNat ≤ hundredPercent) :
    ∃ r, s.payRewards seller a fee = .ok r := by
  obtain ⟨hnonneg, -⟩ := calculatePercent_le hpos.le hle hreward.le
  have hlt := calculatePercent_lt hpos hle hreward
  obtain ⟨hpart, hpart'⟩ := calculatePercent_le hnonneg (hlt.le.trans hle) hreferrer
  have hdeposit (s₁ : MarketState) (account : AccountId) (delta : Asset) (h : 0 ≤ delta.amount) :
      ∃ s₂, s₁.depositMarketFeeVestingBalance account delta = .ok s₂ := by
    unfold depositMarketFeeVestingBalance
    rw [fcAssert_of_true h, Except.ok_bind]
    split_ifs
    · exact ⟨s₁, rfl⟩
    · exact ⟨_, rfl⟩
  unfold payRewards
  dsimp only
  generalize calculatePercent fee.amount _ = reward at hnonneg hlt hpart hpart'
  generalize calculatePercent reward _ = part at hpart hpart'
  split_ifs with hpaid hshared
  · obtain ⟨s₁, h₁⟩ := hdeposit s seller.referrer ⟨_, fee.assetId⟩ hpart
    obtain ⟨s₂, h₂⟩ := hdeposit s₁ seller.registrar ⟨_, fee.assetId⟩ (sub_nonneg.2 hpart')
    rw [fcAssert_of_true hlt, Except.ok_bind, fcAssert_of_true hpart', Except.ok_bind, h₁, Except.ok_bind, h₂]
    exact ⟨_, rfl⟩
  · obtain ⟨s₁, h₁⟩ := hdeposit s seller.registrar ⟨_, fee.assetId⟩ hnonneg
    rw [fcAssert_of_true hlt, Except.ok_bind, h₁]
    exact ⟨_, rfl⟩
  · exact ⟨_, rfl⟩

/-- **Where the fees are payable**: an account can pay the fee for an asset that charges no more than the whole and shares less than
the whole of the fee. -/
theorem FeesPayable.of_rules {account : AccountId} {i : AssetId} {a : TradedAsset} {seller : TradingAccount}
    (hasset : s.assets.find? i = some a) (hpercent : a.marketFeePercent.toNat ≤ hundredPercent)
    (hreward : (a.rewardPercent.getD 0).toNat < hundredPercent) (hdata : i ∈ s.dynamicData.keys)
    (hseller : s.accounts.find? account = some seller)
    (hreferrer : seller.referrerRewardsPercentage.toNat ≤ hundredPercent) : FeesPayable s account i := by
  intro s' amount hrules hpos hle
  have hfee : calculateMarketFee a amount ≤ amount := by
    unfold calculateMarketFee
    split_ifs
    · exact hpos.le
    · exact hpos.le
    · exact (min_le_left _ _).trans (calculatePercent_le hpos.le hle hpercent).2
  have hbook (s₁ : MarketState) (hkeys : s₁.dynamicData.keys = s.dynamicData.keys)
      (g : AssetDynamicData → AssetDynamicData) : ∃ s₂, s₁.modifyDynamicData i g = .ok s₂ :=
    modifyDynamicData_ok (hkeys ▸ hdata)
  unfold payMarketFees
  rw [hrules.assets, require_eq_ok.2 hasset, Except.ok_bind]
  dsimp only
  rw [fcAssert_of_true hfee, Except.ok_bind]
  generalize calculateMarketFee a amount = issuer at hfee
  -- without a fee nothing is read or written
  by_cases hcharged : 0 < issuer
  · rw [if_pos hcharged]
    unfold feeSeller
    split_ifs
    · obtain ⟨s₁, h₁⟩ := hbook s' hrules.dynamicData fun obj ↦
        { obj with accumulatedFees := obj.accumulatedFees + issuer }
      show ∃ r, (s'.modifyDynamicData i _ >>= _) = .ok r
      rw [h₁]
      exact ⟨_, rfl⟩
    · obtain ⟨r, hr⟩ : ∃ r, s'.payRewards _ a ⟨issuer, i⟩ = .ok r :=
        payRewards_ok hcharged (hfee.trans hle) hreward hreferrer
      obtain ⟨s₁, h₁⟩ := hbook r.2 ((pays_of_payRewards hr).dynamicData.trans hrules.dynamicData) fun obj ↦
        { obj with accumulatedFees := obj.accumulatedFees + (issuer - r.1) }
      show ∃ r, (require (s'.accounts.find? account) >>= _) = .ok r
      rw [hrules.accounts, require_eq_ok.2 hseller, Except.ok_bind, hr, Except.ok_bind, h₁]
      exact ⟨_, rfl⟩
  · exact ⟨_, if_neg hcharged⟩

theorem FeesPayable.of_sameRules {s s' : MarketState} {account : AccountId} {i : AssetId} (h : FeesPayable s account i)
    (hrules : SameRules s s') : FeesPayable s' account i :=
  fun s'' amount hrules' ↦ h s'' amount (hrules.trans hrules')

theorem Backed.of_sameRules {s s' : MarketState} (h : Backed s order) (hrules : SameRules s s') : Backed s' order :=
  ⟨hrules.accounts ▸ h.account, hrules.statistics ▸ h.statistics, hrules.dynamicData ▸ h.feeAsset⟩

theorem payDeferredFees_spec (h : Backed s order) : ∃ s', s.payDeferredFees order = .ok s' ∧ Pays s s' := by
  have hpaid (s₁ : MarketState) (hpays₁ : Pays s s₁) :
      ∃ s', (if 0 < order.deferredPaidFee.amount then
        s₁.modifyDynamicData order.deferredPaidFee.assetId fun addo ↦
          { addo with accumulatedFees := addo.accumulatedFees + order.deferredPaidFee.amount }
        else pure s₁) = .ok s' ∧ Pays s s' := by
    by_cases hpos : 0 < order.deferredPaidFee.amount
    · rw [if_pos hpos]
      obtain ⟨s₂, h₂⟩ := modifyDynamicData_ok (hpays₁.dynamicData ▸ h.feeAsset)
      exact ⟨s₂, h₂, hpays₁.trans (pays_of_modifyDynamicData h₂ fun _ ↦ rfl)⟩
    · exact ⟨s₁, if_neg hpos, hpays₁⟩
  unfold payDeferredFees
  dsimp only
  by_cases hfee : 0 < order.deferredFee
  · obtain ⟨s₁, h₁⟩ := modifyStatistics_ok (g := fun x ↦ x.payFee order.deferredFee s.cashbackVestingThreshold)
      h.statistics
    rw [if_pos hfee, h₁, Except.ok_bind]
    exact hpaid s₁ (pays_of_modifyStatistics h₁)
  · rw [if_neg hfee]
    exact hpaid s (.refl s)

theorem refundOrder_spec (h : order.seller ∈ s.statistics.keys) (hnonneg : 0 ≤ order.forSale) :
    ∃ s', s.refundOrder order = .ok s' ∧ Pays s s' := by
  have hrefund (s₁ : MarketState) (hpays₁ : Pays s s₁) :
      ∃ s', s₁.adjustBalance order.seller order.amountForSale = .ok s' ∧ Pays s s' := by
    obtain ⟨s₂, h₂⟩ := adjustBalance_ok (show 0 ≤ order.amountForSale.amount from hnonneg)
    exact ⟨s₂, h₂, hpays₁.trans (pays_of_adjustBalance h₂)⟩
  unfold refundOrder
  dsimp only
  by_cases hcore : order.amountForSale.assetId = coreAsset
  · obtain ⟨s₁, h₁⟩ := modifyStatistics_ok (g := fun obj ↦
      { obj with totalCoreInOrders := obj.totalCoreInOrders - order.amountForSale.amount }) h
    rw [if_pos hcore, h₁, Except.ok_bind]
    exact hrefund s₁ (pays_of_modifyStatistics h₁)
  · rw [if_neg hcore]
    exact hrefund s (.refl s)

/-- An order without deferred fees is cancelled: it is removed and paid back. -/
theorem cancelLimitOrder_spec (h : order.seller ∈ s.statistics.keys) (hnonneg : 0 ≤ order.forSale)
    (hfee : order.deferredFee = 0) (hpaid : order.deferredPaidFee.amount = 0) (skipCancelFee : Bool) :
    ∃ s₁, s.cancelLimitOrder id order skipCancelFee = .ok { s₁ with limitOrders := s₁.limitOrders.remove id } ∧
      Pays s s₁ := by
  obtain ⟨s₁, h₁, hpays₁⟩ := refundOrder_spec h hnonneg
  refine ⟨s₁, ?_, hpays₁⟩
  unfold cancelLimitOrder
  rw [if_neg (fun hc ↦ by omega)]
  show (s.refundOrder order >>= _) = _
  rw [h₁, Except.ok_bind, if_pos hpaid]
  have hzero : s₁.adjustBalance order.seller ⟨order.deferredFee, coreAsset⟩ = .ok s₁ := if_pos hfee
  show (s₁.adjustBalance order.seller ⟨order.deferredFee, coreAsset⟩ >>= _) = _
  rw [hzero]
  rfl

/-- **What remains of an order** is removed if it is worth nothing at its price. -/
theorem maybeCullSmallOrder_spec (hfind : s.limitOrders.find? id = some order) (h : order.seller ∈ s.statistics.keys)
    (hnonneg : 0 ≤ order.forSale) (hfee : order.deferredFee = 0) (hpaid : order.deferredPaidFee.amount = 0)
    {worth : Asset} (hworth : order.amountToReceive = .ok worth) :
    (worth.amount = 0 ∧ ∃ s₁, s.maybeCullSmallOrder id =
      .ok (true, { s₁ with limitOrders := s₁.limitOrders.remove id }) ∧ Pays s s₁) ∨
    (worth.amount ≠ 0 ∧ s.maybeCullSmallOrder id = .ok (false, s)) := by
  unfold maybeCullSmallOrder
  rw [require_eq_ok.2 hfind, Except.ok_bind, hworth, Except.ok_bind]
  by_cases hzero : worth.amount = 0
  · obtain ⟨s₁, h₁, hpays₁⟩ : ∃ s₁, s.cancelLimitOrder id order
        (decide (0 < order.deferredFee ∧ s.headBlockTime ≤ hardforkCore604Time)) =
          .ok { s₁ with limitOrders := s₁.limitOrders.remove id } ∧ Pays s s₁ :=
      cancelLimitOrder_spec h hnonneg hfee hpaid _
    refine .inl ⟨hzero, s₁, ?_, hpays₁⟩
    rw [if_pos hzero]
    dsimp only
    rw [h₁]
    rfl
  · exact .inr ⟨hzero, if_neg hzero⟩

/-- What remains of an order, at its own price. -/
def remainderWorth (order : LimitOrderObject) (pays : ℤ) : ℤ :=
  down (order.forSale - pays) order.sellPrice.quote.amount order.sellPrice.base.amount

/-- **The state after an order was filled**, wholly or in part. -/
structure Fill (s s' : MarketState) (id : ℕ) (order : LimitOrderObject) (pays receives : Asset) (price : Price)
    (isMaker filled : Bool) : Prop where
  rules : SameRules s s'
  fills : ∃ fee, s'.fills = s.fills ++ [⟨id, order.seller, pays, receives, fee, price, isMaker⟩]
  order : s'.limitOrders.find? id = if filled = true then none else some (shrinkOrder order pays.amount)
  others : ∀ j, j ≠ id → s'.limitOrders.find? j = s.limitOrders.find? j

variable (price pays receives cullIfSmall isMaker) in
/-- **An order is filled**, and removed if nothing remains of it or, where small orders are culled, if what remains is worth
nothing. -/
theorem fillLimitOrder_spec (hfind : s.limitOrders.find? id = some order) (hbacked : Backed s order)
    (hprice : ValidPrice order.sellPrice) (hsells : order.sellPrice.base.assetId = pays.assetId)
    (hassets : pays.assetId ≠ receives.assetId) (hfees : FeesPayable s order.seller receives.assetId) (hreceives : 0 < receives.amount)
    (hreceives' : receives.amount ≤ maxShareSupply) (hpays : pays.amount ≤ order.forSale)
    (h555 : hardfork555Time ≤ s.headBlockTime)
    (hworth : cullIfSmall = true → remainderWorth order pays.amount ≤ maxShareSupply) :
    ∃ filled s', s.fillLimitOrder id pays receives cullIfSmall price isMaker = .ok (filled, s') ∧
      Fill s s' id order pays receives price isMaker filled ∧
      (filled = true ↔ pays.amount = order.forSale ∨ cullIfSmall = true ∧ remainderWorth order pays.amount = 0) := by
  obtain ⟨account, -, haccount⟩ := require_of_mem hbacked.account
  obtain ⟨⟨fee, s₁⟩, h₁⟩ := hfees s receives.amount ⟨rfl, rfl, rfl, rfl, rfl, rfl⟩ hreceives hreceives'
  obtain ⟨hpays₁, hfee⟩ := pays_of_payMarketFees h₁
  obtain ⟨s₂, h₂, hpays₂⟩ : ∃ s₂, s₁.payOrder order.seller ⟨receives.amount - fee.amount, receives.assetId⟩ pays = .ok s₂ ∧
      Pays s₁ s₂ := payOrder_spec (hpays₁.statistics ▸ hbacked.statistics) (sub_nonneg.2 hfee)
  let fill : FillOrderOperation := ⟨id, order.seller, pays, receives, fee, price, isMaker⟩
  have hpaid := hpays₁.trans hpays₂
  have hrules₃ : SameRules s { s₂ with fills := s₂.fills ++ [fill] } :=
    ⟨hpaid.headBlockTime, hpaid.isAuthorizedAsset, hpaid.accounts, hpaid.assets, hpaid.statistics, hpaid.dynamicData⟩
  obtain ⟨s₄, h₄, hpays₄⟩ := payDeferredFees_spec (hbacked.of_sameRules hrules₃)
  have hrules₄ := hrules₃.trans hpays₄.sameRules
  have hfills₄ : s₄.fills = s.fills ++ [fill] := by
    rw [hpays₄.fills]
    show s₂.fills ++ [fill] = _
    rw [hpaid.fills]
  have horders₄ : s₄.limitOrders = s.limitOrders := hpays₄.limitOrders.trans hpaid.limitOrders
  unfold fillLimitOrder
  rw [require_eq_ok.2 hfind, Except.ok_bind, fcAssert_of_true (show order.amountForSale.assetId = _ from hsells),
    Except.ok_bind, fcAssert_of_true hassets, Except.ok_bind, haccount, Except.ok_bind, h₁, Except.ok_bind, h₂,
    Except.ok_bind]
  dsimp only
  rw [h₄, Except.ok_bind]
  -- the order is filled as a whole, or it shrinks and may then be culled
  by_cases hwhole : pays.amount = order.forSale
  · refine ⟨true, { s₄ with limitOrders := s₄.limitOrders.remove id }, ?_,
      ⟨⟨hrules₄.1, hrules₄.2, hrules₄.3, hrules₄.4, hrules₄.5, hrules₄.6⟩, ⟨fee, hfills₄⟩, ?_, fun j hj ↦ ?_⟩,
      iff_of_true rfl (.inl hwhole)⟩
    · have hall : pays = order.amountForSale := by
        cases pays
        exact congrArg₂ Asset.mk hwhole hsells.symm
      rw [if_pos hall]
      rfl
    · exact (ObjectIndex.find?_remove _ _ _).trans (if_pos rfl)
    · exact (ObjectIndex.find?_remove_of_ne _ hj).trans (by rw [horders₄])
  · rw [if_neg fun h ↦ hwhole (congrArg Asset.amount h)]
    let s₅ : MarketState := { s₄ with limitOrders := s₄.limitOrders.modify id fun b ↦ shrinkOrder b pays.amount }
    have hrules₅ : SameRules s s₅ := ⟨hrules₄.1, hrules₄.2, hrules₄.3, hrules₄.4, hrules₄.5, hrules₄.6⟩
    have hfind₅ : s₅.limitOrders.find? id = some (shrinkOrder order pays.amount) := by
      show (s₄.limitOrders.modify id _).find? id = _
      rw [ObjectIndex.find?_modify, if_pos rfl, horders₄, hfind]
      rfl
    have hothers₅ (j : ℕ) (hj : j ≠ id) : s₅.limitOrders.find? j = s.limitOrders.find? j := by
      show (s₄.limitOrders.modify id _).find? j = _
      rw [ObjectIndex.find?_modify_of_ne _ _ hj, horders₄]
    have hkept : Fill s s₅ id order pays receives price isMaker false := ⟨hrules₅, ⟨fee, hfills₄⟩, hfind₅, hothers₅⟩
    -- before the hard fork a small order was culled whether or not the flag was set
    have h555' : ¬s₅.headBlockTime < hardfork555Time := by
      rw [hrules₅.headBlockTime]
      exact UInt32.not_lt.mpr h555
    cases cullIfSmall with
    | false =>
      refine ⟨false, s₅, if_neg fun h ↦ h.elim (fun h ↦ by cases h) h555', hkept, ?_⟩
      exact iff_of_false (fun h ↦ by cases h) fun h ↦ h.elim hwhole fun h ↦ by cases h.1
    | true =>
      have hnonneg : 0 ≤ order.forSale - pays.amount := sub_nonneg.2 hpays
      have hreceive : (shrinkOrder order pays.amount).amountToReceive = _ :=
        Asset.mul_base hprice (down_nonneg hnonneg hprice.quote.le hprice.base) (hworth rfl)
      rw [if_pos (.inl rfl)]
      show ∃ filled s', s₅.maybeCullSmallOrder id = .ok (filled, s') ∧ _
      rcases maybeCullSmallOrder_spec hfind₅ (hrules₅.statistics ▸ hbacked.statistics) hnonneg rfl rfl hreceive with
        ⟨hzero, s₆, h₆, hpays₆⟩ | ⟨hzero, h₆⟩
      · have hrules₆ := hrules₅.trans hpays₆.sameRules
        refine ⟨true, _, h₆, ⟨⟨hrules₆.1, hrules₆.2, hrules₆.3, hrules₆.4, hrules₆.5, hrules₆.6⟩,
          ⟨fee, hpays₆.fills.trans hfills₄⟩, ?_, fun j hj ↦ ?_⟩, iff_of_true rfl (.inr ⟨rfl, hzero⟩)⟩
        · exact (ObjectIndex.find?_remove _ _ _).trans (if_pos rfl)
        · refine (ObjectIndex.find?_remove_of_ne _ hj).trans ?_
          rw [hpays₆.limitOrders]
          exact hothers₅ j hj
      · refine ⟨false, s₅, h₆, hkept, ?_⟩
        exact iff_of_false (fun h ↦ by cases h) fun h ↦ h.elim hwhole fun h ↦ hzero h.2

end Fill

/-! ### Two orders that cross -/

/-- **Two orders whose prices cross**, the second of which can be sold for something. -/
structure Crossing (taker maker : LimitOrderObject) : Prop where
  takerPrice : ValidPrice taker.sellPrice
  makerPrice : ValidPrice maker.sellPrice
  receives : taker.sellPrice.quote.assetId = maker.sellPrice.base.assetId
  sells : taker.sellPrice.base.assetId = maker.sellPrice.quote.assetId
  crosses : taker.sellPrice.inv ≤ maker.sellPrice
  taker_pos : 0 < taker.forSale
  taker_le : taker.forSale ≤ maxShareSupply
  maker_pos : 0 < maker.forSale
  maker_le : maker.forSale ≤ maxShareSupply
  makerWorth : ∃ worth, maker.amountToReceive = .ok worth ∧ 1 ≤ worth.amount

/-- **An exact trade** of two orders at the price of the maker: the taker pays `usd` for `core`. -/
structure Exact (taker maker : LimitOrderObject) (usd core : ℤ) : Prop where
  usd_pos : 1 ≤ usd
  usd_le : usd ≤ taker.forSale
  core_pos : 1 ≤ core
  core_le : core ≤ maker.forSale
  /-- The taker receives what its own price gives. -/
  takerPrice : down usd taker.sellPrice.quote.amount taker.sellPrice.base.amount ≤ core
  /-- So does the maker. -/
  makerPrice : down core maker.sellPrice.quote.amount maker.sellPrice.base.amount ≤ usd
  /-- One trades no worse than at the price of the match, the other one pays less than a unit more. -/
  rounding :
    (core * maker.sellPrice.quote.amount ≤ usd * maker.sellPrice.base.amount ∧
      (usd - 1) * maker.sellPrice.base.amount < core * maker.sellPrice.quote.amount) ∨
    (usd * maker.sellPrice.base.amount ≤ core * maker.sellPrice.quote.amount ∧
      (core - 1) * maker.sellPrice.quote.amount < usd * maker.sellPrice.base.amount)

section Crossing

variable {taker maker : LimitOrderObject} {x y : ℤ} {cullTaker : Bool}

/-- The taker asks for no more than the maker gives. -/
theorem Crossing.mul_le (h : Crossing taker maker) :
    taker.sellPrice.quote.amount * maker.sellPrice.quote.amount ≤
      taker.sellPrice.base.amount * maker.sellPrice.base.amount := by
  have hcross := h.crosses
  rw [Price.le_def, Price.lt_def] at hcross
  by_contra hlt
  rw [not_le] at hlt
  refine hcross (.inr ⟨h.receives.symm, .inr ⟨h.sells.symm, ?_⟩⟩)
  rw [mul_comm maker.sellPrice.quote.amount]
  exact hlt

/-- What is worth less than `core` at the price of the match is worth less than that at the price of the taker. -/
theorem Crossing.lt_of_lt (h : Crossing taker maker) {usd core : ℤ} (husd : 0 ≤ usd)
    (hlt : usd * maker.sellPrice.base.amount < core * maker.sellPrice.quote.amount) :
    usd * taker.sellPrice.quote.amount < core * taker.sellPrice.base.amount := by
  have hcross := mul_le_mul_of_nonneg_left h.mul_le husd
  have hlt' := mul_lt_mul_of_pos_right hlt h.takerPrice.base
  refine lt_of_mul_lt_mul_right ?_ h.makerPrice.quote.le
  linarith

theorem Amounts.exact (h : Crossing taker maker)
    (hamounts : Amounts taker.forSale maker.forSale maker.sellPrice x y cullTaker) : Exact taker maker y x := by
  have hbase := h.makerPrice.base
  have hquote := h.makerPrice.quote
  refine ⟨hamounts.coreReceives_pos, hamounts.coreReceives_le, hamounts.usdReceives_pos, hamounts.usdReceives_le, ?_, ?_,
    ?_⟩
  · have hpays : y * maker.sellPrice.base.amount < (x + 1) * maker.sellPrice.quote.amount := by
      cases cullTaker with
      | true =>
        obtain ⟨-, -, hlt, -⟩ := hamounts.taker rfl
        exact (mul_le_mul_of_nonneg_right hamounts.coreReceives_le hbase.le).trans_lt hlt
      | false =>
        obtain ⟨hle, -⟩ := hamounts.maker rfl
        rw [add_mul]
        omega
    have hown := h.lt_of_lt (by have := hamounts.coreReceives_pos; omega) hpays
    exact Int.lt_add_one_iff.1 ((down_lt_iff h.takerPrice.base).2 hown)
  · cases cullTaker with
    | true =>
      obtain ⟨hle, -⟩ := hamounts.taker rfl
      exact Int.le_of_lt_add_one ((down_lt_iff hbase).2 (by rw [add_mul]; omega))
    | false =>
      obtain ⟨-, -, -, hworth, -⟩ := hamounts.maker rfl
      rw [hworth]
      exact down_mono hquote.le hbase hamounts.usdReceives_le
  · cases cullTaker with
    | true =>
      obtain ⟨hle, hlt, -⟩ := hamounts.taker rfl
      refine .inl ⟨hle, ?_⟩
      rw [sub_mul, one_mul]
      omega
    | false =>
      obtain ⟨hle, hlt, -⟩ := hamounts.maker rfl
      refine .inr ⟨hle, ?_⟩
      rw [sub_mul, one_mul]
      omega

/-- What remains of the taker, if it is the smaller one, is worth nothing at its own price. -/
theorem Amounts.taker_remainder (h : Crossing taker maker)
    (hamounts : Amounts taker.forSale maker.forSale maker.sellPrice x y true) : remainderWorth taker y = 0 := by
  obtain ⟨-, -, -, hrest⟩ := hamounts.taker rfl
  have hnonneg : 0 ≤ taker.forSale - y := sub_nonneg.2 hamounts.coreReceives_le
  have hown : (taker.forSale - y) * taker.sellPrice.quote.amount < 1 * taker.sellPrice.base.amount :=
    h.lt_of_lt hnonneg (by rwa [one_mul])
  have hlt : remainderWorth taker y < 1 := (down_lt_iff h.takerPrice.base).2 hown
  have hge : 0 ≤ remainderWorth taker y := down_nonneg hnonneg h.takerPrice.quote.le h.takerPrice.base
  omega

/-- What remains of the maker, if it is the smaller one, is worth nothing. -/
theorem Amounts.maker_remainder (h : Crossing taker maker)
    (hamounts : Amounts taker.forSale maker.forSale maker.sellPrice x y false) : remainderWorth maker x = 0 := by
  obtain ⟨-, -, -, -, hrest⟩ := hamounts.maker rfl
  have hnonneg : 0 ≤ maker.forSale - x := sub_nonneg.2 hamounts.usdReceives_le
  have hlt : remainderWorth maker x < 1 := (down_lt_iff h.makerPrice.base).2 (by rwa [one_mul])
  have hge : 0 ≤ remainderWorth maker x := down_nonneg hnonneg h.makerPrice.quote.le h.makerPrice.base
  omega

theorem Crossing.worth (h : Crossing taker maker) :
    1 ≤ down maker.forSale maker.sellPrice.quote.amount maker.sellPrice.base.amount ∧
      down maker.forSale maker.sellPrice.quote.amount maker.sellPrice.base.amount ≤ maxShareSupply := by
  obtain ⟨worth, hworth, hpos⟩ := h.makerWorth
  replace hworth : Asset.quotient _ _ _ = .ok worth := (if_pos rfl).symm.trans hworth
  obtain ⟨-, -, hworth⟩ := Except.bind_eq_ok.1 hworth
  obtain ⟨_, hle, hworth⟩ := Except.bind_eq_ok.1 hworth
  cases hworth
  exact ⟨hpos, (fcAssert_eq_ok.1 hle).2⟩

end Crossing

/-! ### The match -/

/-- **After a match**: the trade is recorded for either side, and exactly the orders that are reported as filled are gone. -/
structure Matched (s s' : MarketState) (usd core : ℕ) (taker maker : LimitOrderObject) (pays receives : ℤ)
    (takerFilled makerFilled : Bool) : Prop where
  fills : ∃ takerFee makerFee, s'.fills = s.fills ++
    [⟨usd, taker.seller, ⟨pays, taker.sellPrice.base.assetId⟩, ⟨receives, maker.sellPrice.base.assetId⟩, takerFee,
        maker.sellPrice, false⟩,
      ⟨core, maker.seller, ⟨receives, maker.sellPrice.base.assetId⟩, ⟨pays, taker.sellPrice.base.assetId⟩, makerFee,
        maker.sellPrice, true⟩]
  taker : s'.limitOrders.find? usd = if takerFilled = true then none else some (shrinkOrder taker pays)
  maker : s'.limitOrders.find? core = if makerFilled = true then none else some (shrinkOrder maker receives)
  others : ∀ j, j ≠ usd → j ≠ core → s'.limitOrders.find? j = s.limitOrders.find? j

variable {s : MarketState} {takerId makerId : ℕ} {taker maker : LimitOrderObject}

/-- Nothing happens. -/
theorem matchLimitOrders_of_none (htaker : s.limitOrders.find? takerId = some taker)
    (hmaker : s.limitOrders.find? makerId = some maker) (h : Crossing taker maker)
    (hamounts : matchAmounts s.nextMaintenanceTime taker.amountForSale maker.amountForSale maker.sellPrice = .ok none) :
    s.matchLimitOrders takerId makerId maker.sellPrice = .ok (1, s) := by
  unfold matchLimitOrders
  rw [require_eq_ok.2 htaker, Except.ok_bind, require_eq_ok.2 hmaker, Except.ok_bind, fcAssert_of_true h.receives,
    Except.ok_bind, fcAssert_of_true h.sells, Except.ok_bind, fcAssert_of_true ⟨h.taker_pos, h.maker_pos⟩,
    Except.ok_bind, hamounts]
  rfl

/-- Both orders are filled, one after the other. -/
theorem matchLimitOrders_of_some (htaker : s.limitOrders.find? takerId = some taker)
    (hmaker : s.limitOrders.find? makerId = some maker) (h : Crossing taker maker)
    (h342 : hardforkCore342Time < s.nextMaintenanceTime) {usdReceives coreReceives : Asset} {cullTaker : Bool}
    (hamounts : matchAmounts s.nextMaintenanceTime taker.amountForSale maker.amountForSale maker.sellPrice =
      .ok (some (usdReceives, coreReceives, cullTaker)))
    {takerFilled makerFilled : Bool} {s₁ s₂ : MarketState}
    (hfill : s.fillLimitOrder takerId coreReceives usdReceives cullTaker maker.sellPrice false = .ok (takerFilled, s₁))
    (hfill' : s₁.fillLimitOrder makerId usdReceives coreReceives true maker.sellPrice true = .ok (makerFilled, s₂))
    (hfilled : takerFilled = true ∨ makerFilled = true) :
    s.matchLimitOrders takerId makerId maker.sellPrice = .ok (takerFilled.toNat + 2 * makerFilled.toNat, s₂) := by
  have hresult : takerFilled.toNat + 2 * makerFilled.toNat ≠ 0 := by
    rcases hfilled with rfl | rfl
    · rw [Bool.toNat_true]
      omega
    · rw [Bool.toNat_true]
      omega
  unfold matchLimitOrders
  rw [require_eq_ok.2 htaker, Except.ok_bind, require_eq_ok.2 hmaker, Except.ok_bind, fcAssert_of_true h.receives,
    Except.ok_bind, fcAssert_of_true h.sells, Except.ok_bind, fcAssert_of_true ⟨h.taker_pos, h.maker_pos⟩,
    Except.ok_bind, hamounts, Except.ok_bind]
  dsimp only
  rw [if_neg (UInt32.not_le.mpr h342), hfill, Except.ok_bind]
  dsimp only
  rw [hfill', Except.ok_bind, fcAssert_of_true hresult]
  rfl

/-- **Limit orders are matched exactly.** Where fees can be paid, two orders that cross are matched: nothing happens if the taker
would get nothing, and otherwise the trade is exact and at least one of the orders is filled. -/
theorem limit_match_exact (htaker : s.limitOrders.find? takerId = some taker)
    (hmaker : s.limitOrders.find? makerId = some maker) (h : Crossing taker maker)
    (htakerBacked : Backed s taker) (hmakerBacked : Backed s maker)
    (htakerFees : FeesPayable s taker.seller maker.sellPrice.base.assetId)
    (hmakerFees : FeesPayable s maker.seller taker.sellPrice.base.assetId)
    (h342 : hardforkCore342Time < s.nextMaintenanceTime) (h555 : hardfork555Time ≤ s.headBlockTime) :
    (taker.amountForSale.mul maker.sellPrice = .ok ⟨0, maker.sellPrice.base.assetId⟩ ∧
      s.matchLimitOrders takerId makerId maker.sellPrice = .ok (1, s)) ∨
    ∃ pays receives takerFilled makerFilled s',
      s.matchLimitOrders takerId makerId maker.sellPrice =
        .ok (takerFilled.toNat + 2 * makerFilled.toNat, s') ∧
      (takerFilled = true ∨ makerFilled = true) ∧
      Exact taker maker pays receives ∧
      Matched s s' takerId makerId taker maker pays receives takerFilled makerFilled := by
  obtain ⟨hworth, hworth'⟩ := h.worth
  have hne : makerId ≠ takerId := by
    rintro rfl
    rw [htaker] at hmaker
    cases hmaker
    exact h.takerPrice.assets h.receives.symm
  have hsale : taker.amountForSale = ⟨taker.forSale, maker.sellPrice.quote.assetId⟩ := congrArg (Asset.mk _) h.sells
  rcases matchAmounts_spec h.makerPrice h342 h.taker_pos h.taker_le h.maker_le hworth hworth' with
    ⟨hzero, hamounts⟩ | ⟨x, y, cullTaker, hamounts, hcomputed⟩
  · left
    rw [← hsale] at hamounts
    refine ⟨?_, matchLimitOrders_of_none htaker hmaker h hamounts⟩
    rw [hsale, Asset.mul_quote h.makerPrice hzero.ge (hzero.le.trans (by decide)), hzero]
  right
  have hexact := hamounts.exact h
  rw [← hsale, ← h.sells] at hcomputed
  -- the taker is culled only if it is the smaller one
  have htakerWorth : cullTaker = true → remainderWorth taker y ≤ maxShareSupply := by
    rintro rfl
    rw [hamounts.taker_remainder h]
    decide
  obtain ⟨takerFilled, s₁, h₁, hfill₁, htakerFilled⟩ := fillLimitOrder_spec
    maker.sellPrice ⟨y, taker.sellPrice.base.assetId⟩ ⟨x, maker.sellPrice.base.assetId⟩ cullTaker false htaker htakerBacked
    h.takerPrice rfl (fun heq ↦ h.takerPrice.assets (heq.trans h.receives.symm)) htakerFees hexact.core_pos
    (hexact.core_le.trans h.maker_le) hexact.usd_le h555 htakerWorth
  have hmakerWorth : remainderWorth maker x ≤ maxShareSupply :=
    (down_mono h.makerPrice.quote.le h.makerPrice.base (by have := hexact.core_pos; omega)).trans hworth'
  obtain ⟨makerFilled, s₂, h₂, hfill₂, hmakerFilled⟩ := fillLimitOrder_spec
    maker.sellPrice ⟨x, maker.sellPrice.base.assetId⟩ ⟨y, taker.sellPrice.base.assetId⟩ true true
    ((hfill₁.others _ hne).trans hmaker) (hmakerBacked.of_sameRules hfill₁.rules) h.makerPrice rfl (fun heq ↦ h.takerPrice.assets (heq.symm.trans h.receives.symm))
    (hmakerFees.of_sameRules hfill₁.rules) hexact.usd_pos (hexact.usd_le.trans h.taker_le) hexact.core_le
    (hfill₁.rules.headBlockTime ▸ h555) fun _ ↦ hmakerWorth
  have hfilled : takerFilled = true ∨ makerFilled = true := by
    cases cullTaker with
    | true => exact .inl (htakerFilled.2 (.inr ⟨rfl, hamounts.taker_remainder h⟩))
    | false => exact .inr (hmakerFilled.2 (.inr ⟨rfl, hamounts.maker_remainder h⟩))
  refine ⟨y, x, takerFilled, makerFilled, s₂, matchLimitOrders_of_some htaker hmaker h h342 hcomputed h₁ h₂ hfilled, hfilled,
    hexact, ?_, (hfill₂.others _ hne.symm).trans hfill₁.order, hfill₂.order, fun j hj hj' ↦
      (hfill₂.others j hj').trans (hfill₁.others j hj)⟩
  obtain ⟨takerFee, hfills₁⟩ := hfill₁.fills
  obtain ⟨makerFee, hfills₂⟩ := hfill₂.fills
  refine ⟨takerFee, makerFee, ?_⟩
  rw [hfills₂, hfills₁, List.append_assoc]
  rfl

/-- A bid of four units of the second asset for one of the core asset. -/
def bidExample : LimitOrderObject := { seller := 20, forSale := 100, sellPrice := ⟨⟨4, 1⟩, ⟨1, 0⟩⟩, deferredFee := 5 }

/-- An offer of two units of the core asset for seven of the second. -/
def offerExample : LimitOrderObject := { seller := 21, forSale := 25, sellPrice := ⟨⟨2, 0⟩, ⟨7, 1⟩⟩ }

/-- A market in which a bid meets an offer. Both assets charge fees, a part of which the first shares with registrars. -/
def bidMeetsOffer : MarketState where
  headBlockTime := 1600000000
  nextMaintenanceTime := 1600003600
  accounts := ((∅ : FlatMap AccountId TradingAccount).insert 20 ⟨22, 23, 5000⟩).insert 21 ⟨22, 23, 5000⟩
  assets := ((∅ : FlatMap AssetId TradedAsset).insert 0
    { chargesMarketFees := true, marketFeePercent := 1000, rewardPercent := some 2000 }).insert 1
    { chargesMarketFees := true, marketFeePercent := 200 }
  statistics := ((∅ : FlatMap AccountId TradingStatistics).insert 20 {}).insert 21 {}
  dynamicData := ((∅ : FlatMap AssetId AssetDynamicData).insert 0 {}).insert 1 {}
  limitOrders := ((∅ : ObjectIndex LimitOrderObject).create bidExample).create offerExample

/-- The bid gets all that is offered for less than it would pay, and what remains of it stays. -/
theorem limit_match_bid_offer :
    ∃ pays receives takerFilled makerFilled s',
      bidMeetsOffer.matchLimitOrders 0 1 offerExample.sellPrice =
        .ok (takerFilled.toNat + 2 * makerFilled.toNat, s') ∧
      (takerFilled = true ∨ makerFilled = true) ∧ Exact bidExample offerExample pays receives ∧
      Matched bidMeetsOffer s' 0 1 bidExample offerExample pays receives takerFilled makerFilled := by
  have hcrossing : Crossing bidExample offerExample :=
    ⟨⟨by decide, by decide, by decide⟩, ⟨by decide, by decide, by decide⟩, rfl, rfl, by decide, by decide, by decide,
      by decide, by decide, ⟨87, 1⟩, rfl, by decide⟩
  refine (@limit_match_exact bidMeetsOffer 0 1 bidExample offerExample rfl rfl hcrossing
    ⟨by decide, by decide, by decide⟩ ⟨by decide, by decide, by decide⟩
    (.of_rules rfl (by decide) (by decide) (by decide) rfl (by decide))
    (.of_rules rfl (by decide) (by decide) (by decide) rfl (by decide)) (by decide)
    (by decide)).resolve_left fun h ↦ ?_
  cases h.1

end MarketState

end Playchain
