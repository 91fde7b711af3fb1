import Playchain.Graphene.Market
import Playchain.Lib.Control

/-!
# What payments change

Balances, statistics, accumulated fees and the balances of shared fees are all that payments change (`Pays`): the orders, the
rules, the record of fills and the supplies stay. Payments of what is not negative, to an account that has statistics, succeed.
-/

namespace Playchain.MarketState

/-- Only balances, statistics and fees are changed; no statistics and no dynamic data appear or vanish, and no supply changes. -/
structure Pays (s s' : MarketState) : Prop where
  rest : { s with
    balances := s'.balances, statistics := s'.statistics, marketFeeBalances := s'.marketFeeBalances,
    dynamicData := s'.dynamicData } = s'
  statistics : s'.statistics.keys = s.statistics.keys
  supply : ∀ i, (s'.dynamicData.find? i).map (·.currentSupply) = (s.dynamicData.find? i).map (·.currentSupply)

namespace Pays

variable {s s' s'' : MarketState}

theorem refl (s : MarketState) : Pays s s := ⟨rfl, rfl, fun _ ↦ rfl⟩

theorem trans (h : Pays s s') (h' : Pays s' s'') : Pays s s'' := by
  refine ⟨?_, h'.statistics.trans h.statistics, fun i ↦ (h'.supply i).trans (h.supply i)⟩
  rw [← h'.rest, ← h.rest]

theorem headBlockTime (h : Pays s s') : s'.headBlockTime = s.headBlockTime := by rw [← h.rest]

theorem nextMaintenanceTime (h : Pays s s') : s'.nextMaintenanceTime = s.nextMaintenanceTime := by rw [← h.rest]

theorem isAuthorizedAsset (h : Pays s s') : s'.isAuthorizedAsset = s.isAuthorizedAsset := by rw [← h.rest]

theorem accounts (h : Pays s s') : s'.accounts = s.accounts := by rw [← h.rest]

theorem assets (h : Pays s s') : s'.assets = s.assets := by rw [← h.rest]

theorem bitassets (h : Pays s s') : s'.bitassets = s.bitassets := by rw [← h.rest]

theorem limitOrders (h : Pays s s') : s'.limitOrders = s.limitOrders := by rw [← h.rest]

theorem callOrders (h : Pays s s') : s'.callOrders = s.callOrders := by rw [← h.rest]

theorem settlements (h : Pays s s') : s'.settlements = s.settlements := by rw [← h.rest]

theorem fills (h : Pays s s') : s'.fills = s.fills := by rw [← h.rest]

/-- Assets keep their dynamic data, whose amounts may change. -/
theorem dynamicData (h : Pays s s') : s'.dynamicData.keys = s.dynamicData.keys := by
  ext i
  have hi := h.supply i
  rw [← FlatMap.contains_iff, ← FlatMap.contains_iff, FlatMap.contains, FlatMap.contains,
    ← Option.isSome_map (f := (·.currentSupply)), hi, Option.isSome_map]

end Pays

variable {s s' : MarketState} {account : AccountId} {delta : Asset}

/-- What is required is there. -/
theorem require_eq_ok {α : Type} {o : Option α} {a : α} : require o = .ok a ↔ o = some a := by
  cases o with
  | none => exact iff_of_false (fun h ↦ by cases h) fun h ↦ by cases h
  | some b => exact ⟨fun h ↦ congrArg some (Except.ok.inj h), fun h ↦ congrArg Except.ok (Option.some.inj h)⟩

/-- What is there is found. -/
theorem require_of_mem {K V : Type} [LinearOrder K] {m : FlatMap K V} {k : K} (h : k ∈ m.keys) :
    ∃ v, m.find? k = some v ∧ require (m.find? k) = .ok v := by
  obtain ⟨v, hv⟩ := FlatMap.mem_keys.1 h
  exact ⟨v, hv, require_eq_ok.2 hv⟩

/-! ### Balances -/

/-- A balance is adjusted. -/
theorem pays_of_adjustBalance (h : s.adjustBalance account delta = .ok s') : Pays s s' := by
  unfold adjustBalance at h
  by_cases hzero : delta.amount = 0
  · rw [if_pos hzero] at h
    cases h
    exact .refl s
  rw [if_neg hzero] at h
  cases hfind : s.balances.find? (toLex (account, delta.assetId)) with
  | none =>
    rw [hfind] at h
    obtain ⟨-, -, h⟩ := Except.bind_eq_ok.1 h
    cases h
    exact ⟨rfl, rfl, fun _ ↦ rfl⟩
  | some b =>
    rw [hfind] at h
    dsimp only at h
    by_cases hneg : delta.amount < 0
    · rw [if_pos hneg] at h
      obtain ⟨-, -, h⟩ := Except.bind_eq_ok.1 h
      cases h
      exact ⟨rfl, rfl, fun _ ↦ rfl⟩
    · rw [if_neg hneg] at h
      cases h
      exact ⟨rfl, rfl, fun _ ↦ rfl⟩

/-- What is not negative can be paid to an account. -/
theorem adjustBalance_ok (h : 0 ≤ delta.amount) : ∃ s', s.adjustBalance account delta = .ok s' := by
  unfold adjustBalance
  by_cases hzero : delta.amount = 0
  · exact ⟨s, if_pos hzero⟩
  rw [if_neg hzero]
  cases hfind : s.balances.find? (toLex (account, delta.assetId)) with
  | none =>
    refine ⟨{ s with balances := s.balances.insert (toLex (account, delta.assetId)) delta.amount }, ?_⟩
    dsimp only
    rw [fcAssert_of_true (show 0 < delta.amount by omega), Except.ok_bind]
    rfl
  | some b =>
    refine ⟨{ s with balances := s.balances.insert (toLex (account, delta.assetId)) (b + delta.amount) }, ?_⟩
    dsimp only
    rw [if_neg (not_lt.2 h)]
    rfl

/-! ### Statistics and dynamic data -/

/-- The statistics of an account change. -/
theorem pays_of_modifyStatistics {g : TradingStatistics → TradingStatistics} (h : s.modifyStatistics account g = .ok s') :
    Pays s s' := by
  obtain ⟨-, -, h⟩ := Except.bind_eq_ok.1 h
  cases h
  exact ⟨rfl, FlatMap.keys_modify _ _ _, fun _ ↦ rfl⟩

/-- Statistics that are there can be changed. -/
theorem modifyStatistics_ok {g : TradingStatistics → TradingStatistics} (h : account ∈ s.statistics.keys) :
    ∃ s', s.modifyStatistics account g = .ok s' := by
  obtain ⟨v, -, hv⟩ := require_of_mem h
  exact ⟨_, Except.bind_eq_ok.2 ⟨v, hv, rfl⟩⟩

/-- The dynamic data of an asset change in all but the supply. -/
theorem pays_of_modifyDynamicData {i : AssetId} {g : AssetDynamicData → AssetDynamicData}
    (h : s.modifyDynamicData i g = .ok s') (hg : ∀ d, (g d).currentSupply = d.currentSupply) : Pays s s' := by
  obtain ⟨-, -, h⟩ := Except.bind_eq_ok.1 h
  cases h
  refine ⟨rfl, rfl, fun j ↦ ?_⟩
  show ((s.dynamicData.modify i g).find? j).map _ = _
  rw [FlatMap.find?_modify]
  split_ifs with hj
  · rw [hj, Option.map_map]
    exact congrArg (Option.map · _) (funext hg)
  · rfl

/-- Dynamic data that are there can be changed. -/
theorem modifyDynamicData_ok {i : AssetId} {g : AssetDynamicData → AssetDynamicData} (h : i ∈ s.dynamicData.keys) :
    ∃ s', s.modifyDynamicData i g = .ok s' := by
  obtain ⟨v, -, hv⟩ := require_of_mem h
  exact ⟨_, Except.bind_eq_ok.2 ⟨v, hv, rfl⟩⟩

/-- The payment of an order. -/
theorem payOrder_spec {receives pays : Asset} (hstatistics : account ∈ s.statistics.keys) (h : 0 ≤ receives.amount) :
    ∃ s', s.payOrder account receives pays = .ok s' ∧ Pays s s' := by
  obtain ⟨s₁, h₁⟩ := modifyStatistics_ok (s := s) (g := fun b ↦
    if pays.assetId = coreAsset then { b with totalCoreInOrders := b.totalCoreInOrders - pays.amount } else b) hstatistics
  obtain ⟨s₂, h₂⟩ : ∃ s₂, s₁.adjustBalance account receives = .ok s₂ := adjustBalance_ok h
  exact ⟨s₂, Except.bind_eq_ok.2 ⟨s₁, h₁, h₂⟩, (pays_of_modifyStatistics h₁).trans (pays_of_adjustBalance h₂)⟩

/-! ### Market fees -/

/-- A reward is deposited. -/
theorem pays_of_depositMarketFeeVestingBalance (h : s.depositMarketFeeVestingBalance account delta = .ok s') :
    Pays s s' := by
  obtain ⟨-, -, h⟩ := Except.bind_eq_ok.1 h
  by_cases hzero : delta.amount = 0
  · rw [if_pos hzero] at h
    cases h
    exact .refl s
  · rw [if_neg hzero] at h
    cases h
    exact ⟨rfl, rfl, fun _ ↦ rfl⟩

/-- The rewards of a registrar and a referrer. -/
theorem pays_of_payRewards {seller : TradingAccount} {recvAsset : TradedAsset} {issuerFees : Asset} {r : ℤ × MarketState}
    (h : s.payRewards seller recvAsset issuerFees = .ok r) : Pays s r.2 := by
  unfold payRewards at h
  dsimp only at h
  generalize calculatePercent issuerFees.amount _ = rewardValue at h
  generalize calculatePercent rewardValue _ = referrerRewardsValue at h
  split_ifs at h with hallowed hreferrer
  · obtain ⟨-, -, h⟩ := Except.bind_eq_ok.1 h
    obtain ⟨-, -, h⟩ := Except.bind_eq_ok.1 h
    obtain ⟨s₁, h₁, h⟩ := Except.bind_eq_ok.1 h
    obtain ⟨s₂, h₂, h⟩ := Except.bind_eq_ok.1 h
    cases h
    exact (pays_of_depositMarketFeeVestingBalance h₁).trans (pays_of_depositMarketFeeVestingBalance h₂)
  · obtain ⟨-, -, h⟩ := Except.bind_eq_ok.1 h
    obtain ⟨s₁, h₁, h⟩ := Except.bind_eq_ok.1 h
    cases h
    exact pays_of_depositMarketFeeVestingBalance h₁
  · cases h
    exact .refl s

/-- **Market fees are payments** of no more than what is received. -/
theorem pays_of_payMarketFees {seller : Option AccountId} {receives : Asset} {r : Asset × MarketState}
    (h : s.payMarketFees seller receives = .ok r) :
    Pays s r.2 ∧ r.1.amount ≤ receives.amount := by
  obtain ⟨recvAsset, -, h⟩ := Except.bind_eq_ok.1 h
  dsimp only at h
  obtain ⟨_, hle, h⟩ := Except.bind_eq_ok.1 h
  replace hle := fcAssert_eq_ok.1 hle
  generalize calculateMarketFee recvAsset receives.amount = issuerFees at h hle
  split_ifs at h with hpos
  · cases seller with
    | none =>
      obtain ⟨s₁, h₁, h⟩ := Except.bind_eq_ok.1 h
      cases h
      exact ⟨pays_of_modifyDynamicData h₁ fun _ ↦ rfl, hle⟩
    | some seller =>
      obtain ⟨a, -, h⟩ := Except.bind_eq_ok.1 h
      obtain ⟨p, hp, h⟩ := Except.bind_eq_ok.1 h
      obtain ⟨s₁, h₁, h⟩ := Except.bind_eq_ok.1 h
      cases h
      exact ⟨(pays_of_payRewards hp).trans (pays_of_modifyDynamicData h₁ fun _ ↦ rfl), hle⟩
  · cases h
    exact ⟨.refl s, hle⟩

end Playchain.MarketState
