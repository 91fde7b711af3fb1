import Playchain.Graphene.Settlements
import Playchain.Lib.Rounding
import Playchain.Spec.MarketFrame

/-!
# Forced settlement respects its limits

A match of a call order and a settlement moves no more than the settlement has, the volume that is left and the debt of the call
order (`settlementAmounts_bounds`), and the supply decreases by what is returned. In a run of `clear_expired_orders` the volume
that is settled in an asset grows by the amounts of its matches and stays within the share of the supply. The rounds of the outer
loop are bounded: an order is removed, or its asset is left, or it is seen once more and then its asset is left.
-/

namespace Playchain

open Rounding

/-! ### Amounts -/

namespace Asset

variable {a b c : Asset} {p : Price}

theorem of_quotient_eq {dividend divisor : ℤ} {i : AssetId} (h : quotient dividend divisor i = .ok a) :
    0 < divisor ∧ 0 ≤ dividend / divisor ∧ a = ⟨dividend / divisor, i⟩ := by
  obtain ⟨_, hpos, h⟩ := Except.bind_eq_ok.1 h
  obtain ⟨_, hrange, h⟩ := Except.bind_eq_ok.1 h
  exact ⟨fcAssert_eq_ok.1 hpos, (fcAssert_eq_ok.1 hrange).1, (Except.pure_eq_ok.1 h).symm⟩

theorem of_min_eq (h : a.min b = .ok c) :
    b.assetId = a.assetId ∧ c.assetId = a.assetId ∧ c.amount = Min.min a.amount b.amount := by
  obtain ⟨less, hless, h⟩ := Except.bind_eq_ok.1 h
  obtain ⟨_, hsame, hless⟩ := Except.bind_eq_ok.1 hless
  replace hsame : b.assetId = a.assetId := fcAssert_eq_ok.1 hsame
  cases hless
  cases h
  by_cases hlt : b.amount < a.amount
  · rw [if_pos (decide_eq_true hlt)]
    exact ⟨hsame, hsame, (min_eq_right hlt.le).symm⟩
  · rw [if_neg (by simpa using hlt)]
    exact ⟨hsame, rfl, (min_eq_left (not_lt.1 hlt)).symm⟩

/-- Amounts can be converted only at a price of two assets. -/
def Converts (p : Price) : Prop := p.base.assetId = p.quote.assetId → p.base.amount = 0

/-- **A round trip** at a price, down and up again, does not give more. -/
theorem round_trip (hp : Converts p) (hb : a.mul p = .ok b) (hpos : b.amount ≠ 0)
    (hc : b.mulRoundUp p = .ok c) : c.assetId = a.assetId ∧ 0 < c.amount ∧ c.amount ≤ a.amount := by
  unfold mul at hb
  unfold mulRoundUp at hc
  by_cases hbase : a.assetId = p.base.assetId
  · rw [if_pos hbase] at hb
    obtain ⟨hd, hnonneg, rfl⟩ := of_quotient_eq hb
    have hne : ¬p.quote.assetId = p.base.assetId := fun h ↦ hd.ne' (hp h.symm)
    rw [if_neg hne, if_pos rfl] at hc
    obtain ⟨hd', -, rfl⟩ := of_quotient_eq hc
    have hdown : 0 < down a.amount p.quote.amount p.base.amount := lt_of_le_of_ne hnonneg (Ne.symm hpos)
    exact ⟨hbase.symm, up_pos hdown hd hd', up_down_le hd' hd⟩
  · rw [if_neg hbase] at hb
    by_cases hquote : a.assetId = p.quote.assetId
    · rw [if_pos hquote] at hb
      obtain ⟨hd, hnonneg, rfl⟩ := of_quotient_eq hb
      rw [if_pos rfl] at hc
      obtain ⟨hd', -, rfl⟩ := of_quotient_eq hc
      have hdown : 0 < down a.amount p.base.amount p.quote.amount := lt_of_le_of_ne hnonneg (Ne.symm hpos)
      exact ⟨hquote.symm, up_pos hdown hd hd', up_down_le hd' hd⟩
    · rw [if_neg hquote] at hb
      cases hb

end Asset

namespace MarketState

/-- **The amounts of a match** are within the settlement, the volume that is left and the debt. -/
theorem settlementAmounts_bounds {maintTime : UInt32} {callDebt balance maxSettlement callPays callReceives : Asset}
    {price : Price} {cull : Bool} (h342 : hardforkCore342Time < maintTime) (hp : Asset.Converts price)
    (hdebt : 0 < callDebt.amount) (hbalance : 0 < balance.amount) (hmax : 0 < maxSettlement.amount)
    (h : settlementAmounts maintTime callDebt balance maxSettlement price = .ok (.trade callPays callReceives cull)) :
    callReceives.assetId = balance.assetId ∧ 0 < callReceives.amount ∧
      callReceives.amount ≤ min (min balance.amount maxSettlement.amount) callDebt.amount := by
  obtain ⟨settleForSale, hsale, h⟩ := Except.bind_eq_ok.1 h
  obtain ⟨receives, hreceives, h⟩ := Except.bind_eq_ok.1 h
  obtain ⟨pays, hpays, h⟩ := Except.bind_eq_ok.1 h
  obtain ⟨-, hid, hsale⟩ := Asset.of_min_eq hsale
  obtain ⟨-, hid', hreceives⟩ := Asset.of_min_eq hreceives
  rw [hsale] at hreceives
  rw [hid] at hid'
  have hpos : 0 < receives.amount := by
    rw [hreceives]
    exact lt_min (lt_min hbalance hmax) hdebt
  by_cases hzero : pays.amount = 0
  · rw [if_pos hzero, if_pos (show hardforkCore184Time < maintTime from h342)] at h
    by_cases hwhole : receives = callDebt
    · rw [if_pos hwhole] at h
      cases h
      exact ⟨hid', hpos, hreceives.le⟩
    · rw [if_neg hwhole] at h
      cases h
  rw [if_neg hzero, if_neg (UInt32.not_le.mpr h342)] at h
  by_cases hwhole : receives = callDebt
  · rw [if_pos hwhole] at h
    obtain ⟨roundedUp, -, h⟩ := Except.bind_eq_ok.1 h
    cases h
    exact ⟨hid', hpos, hreceives.le⟩
  · rw [if_neg hwhole] at h
    obtain ⟨roundedUp, hup, h⟩ := Except.bind_eq_ok.1 h
    cases h
    obtain ⟨hupId, hupPos, hupLe⟩ := Asset.round_trip hp hpays hzero hup
    exact ⟨hupId.trans hid', hupPos, hupLe.trans hreceives.le⟩

/-! ### Filling -/

section Fill

variable {s s' : MarketState} {id : ℕ} {pays receives : Asset} {price : Price} {isMaker : Bool}

/-- The supply of an asset. -/
def supply (s : MarketState) (i : AssetId) : Option ℤ := (s.dynamicData.find? i).map (·.currentSupply)

theorem Pays.supply_eq (h : Pays s s') (i : AssetId) : s'.supply i = s.supply i := h.supply i

theorem supply_modify (s : MarketState) (i : AssetId) (amount : ℤ) (j : AssetId) :
    ((s.dynamicData.modify i fun ao ↦ { ao with currentSupply := ao.currentSupply - amount }).find? j).map
      (·.currentSupply) = (s.supply j).map fun x ↦ x - if j = i then amount else 0 := by
  rw [FlatMap.find?_modify, supply, Option.map_map]
  split_ifs with hj
  · rw [Option.map_map]
    rfl
  · congr 1
    funext d
    exact (sub_zero _).symm

theorem pays_of_payFreed {borrower : AccountId} {freed : Option Asset} (h : s.payFreed borrower freed = .ok s') :
    Pays s s' := by
  cases freed with
  | none =>
    cases h
    exact .refl s
  | some freed => exact pays_of_adjustBalance h

/-- A settlement is cancelled. -/
theorem cancelSettleOrder_spec {order : ForceSettlementObject} (h : s.cancelSettleOrder id order = .ok s') :
    ∃ s₁, Pays s s₁ ∧ s' = { s₁ with settlements := s.settlements.remove id } := by
  obtain ⟨s₁, h₁, h⟩ := Except.bind_eq_ok.1 h
  have hpays := pays_of_adjustBalance h₁
  cases h
  exact ⟨s₁, hpays, by rw [hpays.settlements]⟩

/-- What remains of a call order: nothing if its debt is covered, and otherwise what has not been paid. -/
theorem coverDebt_spec {maintTime : UInt32} {ratio : ℕ} {order : CallOrderObject} {p r : ℤ}
    {x : CallOrderObject × Option Asset} (h : coverDebt maintTime ratio order p r = .ok x) :
    (x.2.isSome = true ↔ order.debt = r) ∧
      (order.debt ≠ r → x.1.debt = order.debt - r ∧ x.1.collateral = order.collateral - p) := by
  unfold coverDebt at h
  dsimp only at h
  by_cases hzero : order.debt - r = 0
  · rw [if_pos hzero] at h
    cases h
    exact ⟨iff_of_true rfl (sub_eq_zero.1 hzero), fun hne ↦ absurd (sub_eq_zero.1 hzero) hne⟩
  rw [if_neg hzero] at h
  have hne : ¬order.debt = r := fun heq ↦ hzero (sub_eq_zero.2 heq)
  split_ifs at h with hprice
  · obtain ⟨callPrice, -, h⟩ := Except.bind_eq_ok.1 h
    cases h
    exact ⟨iff_of_false Bool.false_ne_true hne, fun _ ↦ ⟨rfl, rfl⟩⟩
  · cases h
    exact ⟨iff_of_false Bool.false_ne_true hne, fun _ ↦ ⟨rfl, rfl⟩⟩

/-- **A call order was filled.** -/
structure CallFill (s s' : MarketState) (id : ℕ) (order : CallOrderObject) (pays receives : Asset) (price : Price)
    (isMaker : Bool) : Prop where
  pays_le : pays.amount ≤ order.collateral
  nextMaintenanceTime : s'.nextMaintenanceTime = s.nextMaintenanceTime
  bitassets : s'.bitassets = s.bitassets
  settlements : s'.settlements = s.settlements
  supply : ∀ i, s'.supply i = (s.supply i).map fun x ↦ x - if i = receives.assetId then receives.amount else 0
  fills : s'.fills = s.fills ++ [⟨id, order.borrower, pays, receives, ⟨0, pays.assetId⟩, price, isMaker⟩]
  covered : order.debt = receives.amount → s'.callOrders.find? id = none
  partly : order.debt ≠ receives.amount → ∃ rest, s'.callOrders.find? id = some rest ∧
    rest.debt = order.debt - receives.amount ∧ rest.collateral = order.collateral - pays.amount
  others : ∀ j, j ≠ id → s'.callOrders.find? j = s.callOrders.find? j

theorem fillCallOrder_spec {order : CallOrderObject} {filled : Bool} (hfind : s.callOrders.find? id = some order)
    (h : s.fillCallOrder id pays receives price isMaker = .ok (filled, s')) :
    CallFill s s' id order pays receives price isMaker := by
  obtain ⟨order', hfind', h⟩ := Except.bind_eq_ok.1 h
  obtain rfl : order = order' := Option.some.inj (hfind.symm.trans (require_eq_ok.1 hfind'))
  obtain ⟨_, -, h⟩ := Except.bind_eq_ok.1 h
  obtain ⟨_, -, h⟩ := Except.bind_eq_ok.1 h
  obtain ⟨_, hcollateral, h⟩ := Except.bind_eq_ok.1 h
  obtain ⟨_, -, h⟩ := Except.bind_eq_ok.1 h
  obtain ⟨mia, -, h⟩ := Except.bind_eq_ok.1 h
  obtain ⟨x, hx, h⟩ := Except.bind_eq_ok.1 h
  obtain ⟨s₁, h₁, h⟩ := Except.bind_eq_ok.1 h
  obtain ⟨s₂, h₂, h⟩ := Except.bind_eq_ok.1 h
  dsimp only at h
  let fill : FillOrderOperation := ⟨id, order.borrower, pays, receives, ⟨0, pays.assetId⟩, price, isMaker⟩
  obtain ⟨s₃, hpays₃, hend⟩ : ∃ s₃, Pays s₂ s₃ ∧
      (if x.2.isSome = true then
        pure (true, { s₃ with fills := s₃.fills ++ [fill], callOrders := s₃.callOrders.remove id })
      else pure (false, { s₃ with fills := s₃.fills ++ [fill] })) = (.ok (filled, s') : Except ChainError _) := by
    by_cases hcore : pays.assetId = coreAsset
    · rw [if_pos hcore] at h
      obtain ⟨s₃, h₃, h⟩ := Except.bind_eq_ok.1 h
      exact ⟨s₃, pays_of_modifyStatistics h₃, h⟩
    · rw [if_neg hcore] at h
      exact ⟨s₂, .refl s₂, h⟩
  obtain ⟨_, -, h₁⟩ := Except.bind_eq_ok.1 h₁
  cases h₁
  have hpaid := (pays_of_payFreed h₂).trans hpays₃
  obtain ⟨hcovered, hpartly⟩ := coverDebt_spec hx
  have hsupply (i : AssetId) :
      s₃.supply i = (s.supply i).map fun x ↦ x - if i = receives.assetId then receives.amount else 0 := by
    rw [hpaid.supply_eq]
    exact supply_modify s receives.assetId receives.amount i
  have hcalls : s₃.callOrders = s.callOrders.set id x.1 := hpaid.callOrders
  have hfills : s₃.fills = s.fills := hpaid.fills
  by_cases hsome : x.2.isSome = true
  · rw [if_pos hsome] at hend
    cases hend
    refine ⟨fcAssert_eq_ok.1 hcollateral, hpaid.nextMaintenanceTime, hpaid.bitassets, hpaid.settlements, hsupply,
      congrArg (· ++ [fill]) hfills, fun _ ↦ (ObjectIndex.find?_remove _ _ _).trans (if_pos rfl),
      fun hne ↦ absurd (hcovered.1 hsome) hne, fun j hj ↦ (ObjectIndex.find?_remove_of_ne _ hj).trans ?_⟩
    rw [hcalls]
    exact ObjectIndex.find?_set_of_ne _ _ hj
  · rw [if_neg hsome] at hend
    cases hend
    refine ⟨fcAssert_eq_ok.1 hcollateral, hpaid.nextMaintenanceTime, hpaid.bitassets, hpaid.settlements, hsupply,
      congrArg (· ++ [fill]) hfills, fun heq ↦ absurd (hcovered.2 heq) hsome, fun hne ↦ ⟨x.1, ?_, hpartly hne⟩,
      fun j hj ↦ ?_⟩
    · show s₃.callOrders.find? id = _
      rw [hcalls]
      exact ObjectIndex.find?_set_self hfind _
    · show s₃.callOrders.find? j = _
      rw [hcalls]
      exact ObjectIndex.find?_set_of_ne _ _ hj

/-- **A settlement was filled.** -/
structure SettleFill (s s' : MarketState) (id : ℕ) (order : ForceSettlementObject) (pays receives : Asset) (price : Price)
    (isMaker : Bool) : Prop where
  nextMaintenanceTime : s'.nextMaintenanceTime = s.nextMaintenanceTime
  bitassets : s'.bitassets = s.bitassets
  callOrders : s'.callOrders = s.callOrders
  supply : ∀ i, s'.supply i = s.supply i
  fills : ∃ fee, s'.fills = s.fills ++ [⟨id, order.owner, pays, receives, fee, price, isMaker⟩]
  order : s'.settlements.find? id = if pays.amount < order.balance.amount then
    some { order with balance := { order.balance with amount := order.balance.amount - pays.amount } } else none
  others : ∀ j, j ≠ id → s'.settlements.find? j = s.settlements.find? j

theorem fillSettleOrder_spec {order : ForceSettlementObject} {filled : Bool} (hfind : s.settlements.find? id = some order)
    (h : s.fillSettleOrder id pays receives price isMaker = .ok (filled, s')) :
    SettleFill s s' id order pays receives price isMaker := by
  obtain ⟨order', hfind', h⟩ := Except.bind_eq_ok.1 h
  obtain rfl : order = order' := Option.some.inj (hfind.symm.trans (require_eq_ok.1 hfind'))
  obtain ⟨⟨fee, s₁⟩, h₁, h⟩ := Except.bind_eq_ok.1 h
  obtain ⟨hpays₁, -⟩ := pays_of_payMarketFees h₁
  obtain ⟨partly, hpartly, h⟩ := Except.bind_eq_ok.1 h
  obtain ⟨_, -, hpartly⟩ := Except.bind_eq_ok.1 hpartly
  obtain rfl := Except.pure_eq_ok.1 hpartly
  obtain ⟨s₂, h₂, h⟩ := Except.bind_eq_ok.1 h
  have hpays₂ := pays_of_adjustBalance h₂
  by_cases hlt : pays.amount < order.balance.amount
  · rw [if_pos (decide_eq_true hlt)] at h hpays₂
    cases h
    refine ⟨hpays₂.nextMaintenanceTime.trans hpays₁.nextMaintenanceTime, hpays₂.bitassets.trans hpays₁.bitassets,
      hpays₂.callOrders.trans hpays₁.callOrders, fun i ↦ (hpays₂.supply_eq i).trans (hpays₁.supply_eq i),
      ⟨fee, congrArg (· ++ _) (hpays₂.fills.trans hpays₁.fills)⟩, ?_, fun j hj ↦ ?_⟩
    · show s₂.settlements.find? id = _
      rw [hpays₂.settlements, if_pos hlt, hpays₁.settlements, ObjectIndex.find?_modify, if_pos rfl, hfind]
      rfl
    · show s₂.settlements.find? j = _
      rw [hpays₂.settlements, hpays₁.settlements]
      exact ObjectIndex.find?_modify_of_ne _ _ hj
  · rw [if_neg (by simpa using hlt)] at h hpays₂
    cases h
    have hpaid := hpays₁.trans hpays₂
    refine ⟨hpaid.nextMaintenanceTime, hpaid.bitassets, hpaid.callOrders, hpaid.supply_eq,
      ⟨fee, congrArg (· ++ _) hpaid.fills⟩, ?_, fun j hj ↦ (ObjectIndex.find?_remove_of_ne _ hj).trans ?_⟩
    · rw [if_neg hlt]
      exact (ObjectIndex.find?_remove _ _ _).trans (if_pos rfl)
    · rw [hpaid.settlements]

end Fill

/-! ### The match -/

/-- What call orders received in an asset, according to the record: a call order is the maker of a settlement. -/
def settledIn (i : AssetId) (l : List FillOrderOperation) : ℤ :=
  ((l.filter fun f ↦ f.isMaker ∧ f.receives.assetId = i).map (·.receives.amount)).sum

@[simp] theorem settledIn_nil (i : AssetId) : settledIn i [] = 0 := rfl

theorem settledIn_append (i : AssetId) (l l' : List FillOrderOperation) :
    settledIn i (l ++ l') = settledIn i l + settledIn i l' := by
  rw [settledIn, List.filter_append, List.map_append, List.sum_append]
  rfl

/-- The record of a match. -/
theorem settledIn_match (i : AssetId) {f f' : FillOrderOperation} (hf : f.isMaker = true) (hf' : f'.isMaker = false) :
    settledIn i [f, f'] = if i = f.receives.assetId then f.receives.amount else 0 := by
  unfold settledIn
  by_cases hi : i = f.receives.assetId
  · rw [if_pos hi, List.filter_cons_of_pos (by simp [hf, hi]), List.filter_cons_of_neg (by simp [hf'])]
    simp
  · rw [if_neg hi, List.filter_cons_of_neg (by simpa [hf] using fun h ↦ hi h.symm),
      List.filter_cons_of_neg (by simp [hf'])]
    rfl

/-- The record of a match in which the call order pays and receives these amounts: nothing, or a fill of either order. -/
def Recorded (call settle : ℕ) (callOrder : CallOrderObject) (order : ForceSettlementObject) (pays amount : ℤ)
    (new : List FillOrderOperation) : Prop :=
  (amount = 0 ∧ pays = 0 ∧ new = []) ∨ ∃ i fee price, new =
    [⟨call, callOrder.borrower, ⟨pays, i⟩, ⟨amount, order.settlementAssetId⟩, ⟨0, i⟩, price, true⟩,
      ⟨settle, order.owner, ⟨amount, order.settlementAssetId⟩, ⟨pays, i⟩, fee, price, false⟩]

theorem Recorded.settledIn_eq {call settle : ℕ} {callOrder : CallOrderObject} {order : ForceSettlementObject}
    {pays amount : ℤ} {new : List FillOrderOperation} (h : Recorded call settle callOrder order pays amount new)
    (i : AssetId) : settledIn i new = if i = order.settlementAssetId then amount else 0 := by
  rcases h with ⟨rfl, -, rfl⟩ | ⟨j, fee, price, rfl⟩
  · exact (ite_self 0).symm
  · exact settledIn_match i rfl rfl

/-- **A match of a call order and a settlement**, in which an amount of the debt asset was returned. -/
structure Settles (s s' : MarketState) (call settle : ℕ) (callOrder : CallOrderObject) (order : ForceSettlementObject)
    (maxSettlement amount : ℤ) : Prop where
  nonneg : 0 ≤ amount
  le : amount ≤ min (min order.balance.amount maxSettlement) callOrder.debt
  supply : ∀ i, s'.supply i = (s.supply i).map fun x ↦ x - if i = order.settlementAssetId then amount else 0
  collateral : ∃ pays new, pays ≤ callOrder.collateral ∧ s'.fills = s.fills ++ new ∧
    Recorded call settle callOrder order pays amount new ∧
    (callOrder.debt = amount → s'.callOrders.find? call = none) ∧
    (callOrder.debt ≠ amount → ∃ rest, s'.callOrders.find? call = some rest ∧
      rest.debt = callOrder.debt - amount ∧ rest.collateral = callOrder.collateral - pays)
  otherCalls : ∀ j, j ≠ call → s'.callOrders.find? j = s.callOrders.find? j
  rest : s'.settlements.find? settle = none ∨ s'.settlements.find? settle =
    some { order with balance := { order.balance with amount := order.balance.amount - amount } }
  others : ∀ j, j ≠ settle → s'.settlements.find? j = s.settlements.find? j
  nextMaintenanceTime : s'.nextMaintenanceTime = s.nextMaintenanceTime
  bitassets : s'.bitassets = s.bitassets

section Match

variable {s s' : MarketState} {call settle : ℕ} {callOrder : CallOrderObject} {order : ForceSettlementObject}
  {matchPrice fillPrice : Price} {maxSettlement returned : Asset}

/-- Nothing is moved, whether or not the settlement is cancelled. -/
theorem Settles.nothing (hfind : s.callOrders.find? call = some callOrder) (horder : s.settlements.find? settle = some order)
    (hdebt : 0 < callOrder.debt) (hcollateral : 0 < callOrder.collateral) (hbalance : 0 < order.balance.amount)
    (hmax : 0 < maxSettlement.amount) {s₁ : MarketState} (hpays : Pays s s₁) {settlements : ObjectIndex ForceSettlementObject}
    (hsettlements : settlements.find? settle = none ∨ settlements.find? settle = s.settlements.find? settle)
    (hothers : ∀ j, j ≠ settle → settlements.find? j = s.settlements.find? j) :
    Settles s { s₁ with settlements := settlements } call settle callOrder order maxSettlement.amount 0 := by
  have hle : 0 ≤ min (min order.balance.amount maxSettlement.amount) callOrder.debt :=
    le_min (le_min hbalance.le hmax.le) hdebt.le
  have hsupply (i : AssetId) :
      s₁.supply i = (s.supply i).map fun x ↦ x - if i = order.settlementAssetId then 0 else 0 := by
    rw [hpays.supply_eq]
    simp
  refine ⟨le_rfl, hle, hsupply, ⟨0, [], hcollateral.le, ?_, .inl ⟨rfl, rfl, rfl⟩,
      fun h ↦ absurd h hdebt.ne', fun _ ↦ ⟨callOrder, ?_, (sub_zero _).symm, (sub_zero _).symm⟩⟩,
    fun j _ ↦ by rw [hpays.callOrders], ?_, hothers, hpays.nextMaintenanceTime, hpays.bitassets⟩
  · rw [List.append_nil]
    exact hpays.fills
  · show s₁.callOrders.find? call = _
    rw [hpays.callOrders, hfind]
  · refine hsettlements.imp_right fun h ↦ ?_
    rw [sub_zero]
    exact h.trans horder

/-- Both orders are filled. -/
theorem Settles.of_fills {s₁ s₂ : MarketState} {callPays callReceives : Asset} {m : ℤ}
    (hcall : CallFill s s₁ call callOrder callPays callReceives fillPrice true)
    (hsettle : SettleFill s₁ s₂ settle order callReceives callPays fillPrice false)
    (hid : callReceives.assetId = order.settlementAssetId) (hnonneg : 0 ≤ callReceives.amount)
    (hle : callReceives.amount ≤ min (min order.balance.amount m) callOrder.debt) :
    Settles s s₂ call settle callOrder order m callReceives.amount := by
  obtain ⟨fee, hfills⟩ := hsettle.fills
  refine ⟨hnonneg, hle, fun i ↦ ?_, ⟨callPays.amount, _, hcall.pays_le, ?_, .inr ⟨callPays.assetId, fee, fillPrice, rfl⟩,
      fun heq ↦ ?_, fun hne ↦ ?_⟩, fun j hj ↦ ?_, ?_, fun j hj ↦ ?_,
    hsettle.nextMaintenanceTime.trans hcall.nextMaintenanceTime, hsettle.bitassets.trans hcall.bitassets⟩
  · rw [hsettle.supply, hcall.supply, hid]
  · rw [hfills, hcall.fills, List.append_assoc, ← hid]
    rfl
  · rw [hsettle.callOrders]
    exact hcall.covered heq
  · rw [hsettle.callOrders]
    exact hcall.partly hne
  · rw [hsettle.callOrders]
    exact hcall.others j hj
  · rw [hsettle.order]
    by_cases hlt : callReceives.amount < order.balance.amount
    · exact .inr (if_pos hlt)
    · exact .inl (if_neg hlt)
  · rw [hsettle.others j hj, hcall.settlements]

/-- What remains of the settlement is cancelled. -/
theorem Settles.cancel {s₂ s₃ : MarketState} {m amount : ℤ} (h : Settles s s₂ call settle callOrder order m amount)
    (hpays : Pays s₂ s₃) :
    Settles s { s₃ with settlements := s₂.settlements.remove settle } call settle callOrder order m amount := by
  obtain ⟨pays, new, hpays_le, hnew, hrecorded, hcovered, hpartly⟩ := h.collateral
  refine ⟨h.nonneg, h.le, fun i ↦ (hpays.supply_eq i).trans (h.supply i),
    ⟨pays, new, hpays_le, hpays.fills.trans hnew, hrecorded, fun heq ↦ ?_, fun hne ↦ ?_⟩, fun j hj ↦ ?_,
    .inl ((ObjectIndex.find?_remove _ _ _).trans (if_pos rfl)), fun j hj ↦ ?_, hpays.nextMaintenanceTime.trans h.nextMaintenanceTime,
    hpays.bitassets.trans h.bitassets⟩
  · show s₃.callOrders.find? call = _
    rw [hpays.callOrders]
    exact hcovered heq
  · show ∃ rest, s₃.callOrders.find? call = some rest ∧ _
    rw [hpays.callOrders]
    exact hpartly hne
  · show s₃.callOrders.find? j = _
    rw [hpays.callOrders]
    exact h.otherCalls j hj
  · exact (ObjectIndex.find?_remove_of_ne _ hj).trans (h.others j hj)

/-- **A match moves no more than it may**, and what it returns is what the supply has decreased by. -/
theorem matchSettlement_spec (hfind : s.callOrders.find? call = some callOrder)
    (horder : s.settlements.find? settle = some order) (h342 : hardforkCore342Time < s.nextMaintenanceTime)
    (hp : Asset.Converts matchPrice) (hmax : 0 < maxSettlement.amount)
    (h : s.matchSettlement call settle matchPrice maxSettlement fillPrice = .ok (returned, s')) :
    returned.assetId = order.settlementAssetId ∧
      Settles s s' call settle callOrder order maxSettlement.amount returned.amount := by
  obtain ⟨callOrder', hfind', h⟩ := Except.bind_eq_ok.1 h
  obtain rfl : callOrder = callOrder' := Option.some.inj (hfind.symm.trans (require_eq_ok.1 hfind'))
  obtain ⟨order', horder', h⟩ := Except.bind_eq_ok.1 h
  obtain rfl : order = order' := Option.some.inj (horder.symm.trans (require_eq_ok.1 horder'))
  obtain ⟨_, hassets, h⟩ := Except.bind_eq_ok.1 h
  obtain ⟨_, hpositive, h⟩ := Except.bind_eq_ok.1 h
  obtain ⟨hdebt, hcollateral, hbalance⟩ := fcAssert_eq_ok.1 hpositive
  obtain ⟨amounts, hamounts, h⟩ := Except.bind_eq_ok.1 h
  cases amounts with
  | nothing cancel =>
    cases cancel with
    | true =>
      obtain ⟨s₁, h₁, h⟩ := Except.bind_eq_ok.1 h
      cases h
      obtain ⟨s₂, hpays, rfl⟩ := cancelSettleOrder_spec h₁
      exact ⟨rfl, .nothing hfind horder hdebt hcollateral hbalance hmax hpays
        (.inl ((ObjectIndex.find?_remove _ _ _).trans (if_pos rfl))) fun j hj ↦ ObjectIndex.find?_remove_of_ne _ hj⟩
    | false =>
      cases h
      exact ⟨rfl, .nothing hfind horder hdebt hcollateral hbalance hmax (.refl s) (.inr rfl) fun _ _ ↦ rfl⟩
  | trade callPays callReceives cull =>
    obtain ⟨_, -, h⟩ := Except.bind_eq_ok.1 h
    obtain ⟨⟨filled, s₁⟩, h₁, h⟩ := Except.bind_eq_ok.1 h
    obtain ⟨⟨filled', s₂⟩, h₂, h⟩ := Except.bind_eq_ok.1 h
    obtain ⟨hid, hpos, hle⟩ := settlementAmounts_bounds h342 hp hdebt hbalance hmax hamounts
    have hcall := fillCallOrder_spec hfind h₁
    have hsettle := fillSettleOrder_spec (by rw [hcall.settlements]; exact horder) h₂
    have hsettles := Settles.of_fills hcall hsettle hid hpos.le hle
    cases cull with
    | true =>
      obtain ⟨rest, hrest, h⟩ := Except.bind_eq_ok.1 h
      obtain ⟨s₃, h₃, h⟩ := Except.bind_eq_ok.1 h
      cases h
      obtain ⟨s₄, hpays, rfl⟩ := cancelSettleOrder_spec h₃
      exact ⟨hid, hsettles.cancel hpays⟩
    | false =>
      cases h
      exact ⟨hid, hsettles⟩

end Match

end MarketState

end Playchain
