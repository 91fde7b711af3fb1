import Playchain.Spec.ForcedSettlement
import Playchain.Spec.PriceOrder

/-!
# Expired settlements are cleared within their limits

The inner loop of `clear_expired_orders` settles one order, in matches that each move something (`settleOrder_spec`). The outer
loop goes through the orders asset by asset. Its invariant (`Run`) compares a state with the one at the start: the record of
matches says by how much the volume that is settled has grown and the supply has decreased.
-/

namespace Playchain

namespace MarketState

open GroupedOrders

/-! ### One order -/

/-- **Matches of one order**: an amount of its asset was settled, and only this order was touched. -/
structure Moves (s s' : MarketState) (order : ℕ) (i : AssetId) (amount : ℤ) : Prop where
  nonneg : 0 ≤ amount
  fills : ∃ new, s'.fills = s.fills ++ new ∧ ∀ j, settledIn j new = if j = i then amount else 0
  supply : ∀ j, s'.supply j = (s.supply j).map fun x ↦ x - if j = i then amount else 0
  rest : ∀ o, s'.settlements.find? order = some o → o.settlementAssetId = i
  others : ∀ j, j ≠ order → s'.settlements.find? j = s.settlements.find? j
  nextMaintenanceTime : s'.nextMaintenanceTime = s.nextMaintenanceTime
  bitassets : s'.bitassets = s.bitassets

namespace Moves

variable {s s' s'' : MarketState} {order : ℕ} {i : AssetId} {amount amount' : ℤ}

theorem refl (h : ∀ o, s.settlements.find? order = some o → o.settlementAssetId = i) : Moves s s order i 0 := by
  refine ⟨le_rfl, ⟨[], (List.append_nil _).symm, fun j ↦ (ite_self 0).symm⟩, fun j ↦ ?_, h, fun _ _ ↦ rfl, rfl, rfl⟩
  simp

theorem trans (h : Moves s s' order i amount) (h' : Moves s' s'' order i amount') :
    Moves s s'' order i (amount + amount') := by
  obtain ⟨new, hnew, hsum⟩ := h.fills
  obtain ⟨new', hnew', hsum'⟩ := h'.fills
  refine ⟨add_nonneg h.nonneg h'.nonneg, ⟨new ++ new', ?_, fun j ↦ ?_⟩, fun j ↦ ?_, h'.rest,
    fun j hj ↦ (h'.others j hj).trans (h.others j hj), h'.nextMaintenanceTime.trans h.nextMaintenanceTime,
    h'.bitassets.trans h.bitassets⟩
  · rw [hnew', hnew, List.append_assoc]
  · rw [settledIn_append, hsum, hsum']
    split_ifs <;> simp
  · rw [h'.supply, h.supply, Option.map_map]
    congr 1
    funext x
    split_ifs <;> simp [sub_sub]

theorem of_settles {call : ℕ} {callOrder : CallOrderObject} {obj : ForceSettlementObject} {m : ℤ}
    (h : Settles s s' call order callOrder obj m amount) (hi : obj.settlementAssetId = i) : Moves s s' order i amount := by
  subst hi
  obtain ⟨pays, new, -, hnew, hrecorded, -⟩ := h.collateral
  refine ⟨h.nonneg, ⟨new, hnew, hrecorded.settledIn_eq⟩, h.supply, fun o ho ↦ ?_, h.others, h.nextMaintenanceTime,
    h.bitassets⟩
  rcases h.rest with hnone | hsome
  · rw [hnone] at ho
    cases ho
  · rw [hsome] at ho
    cases ho
    rfl

theorem of_cancel {obj : ForceSettlementObject} (h : s.cancelSettleOrder order obj = .ok s') :
    Moves s s' order i 0 ∧ s'.settlements.find? order = none := by
  obtain ⟨s₁, hpays, rfl⟩ := cancelSettleOrder_spec h
  have hnone : (s.settlements.remove order).find? order = none := (ObjectIndex.find?_remove _ _ _).trans (if_pos rfl)
  refine ⟨⟨le_rfl, ⟨[], ?_, fun j ↦ (ite_self 0).symm⟩, fun j ↦ ?_, fun o ho ↦ ?_, fun j hj ↦ ?_,
    hpays.nextMaintenanceTime, hpays.bitassets⟩, hnone⟩
  · rw [List.append_nil]
    exact hpays.fills
  · refine (hpays.supply_eq j).trans ?_
    simp
  · cases hnone.symm.trans ho
  · exact ObjectIndex.find?_remove_of_ne _ hj

end Moves

section Round

variable {s s' : MarketState} {order : ℕ} {c : SettlementCursor} {settled settled' : ℤ}

/-- What a round can do: nothing, a cancellation, or a match. -/
theorem settleRound_cases {r : (MarketState × ℤ) ⊕ (MarketState × ℤ × Bool)}
    (h : settleRound order c (s, settled) = .ok r) :
    ((s.settlements.find? order = none ∨ c.maxSettlementVolume.amount ≤ settled) ∧ r = .inr (s, settled, false)) ∨
    (∃ obj s', s.cancelSettleOrder order obj = .ok s' ∧ r = .inr (s', settled, false)) ∨
    ∃ obj call callOrder returned s', s.settlements.find? order = some obj ∧ settled < c.maxSettlementVolume.amount ∧
      s.callOrders.find? call = some callOrder ∧
      s.matchSettlement call order c.settlementPrice ⟨c.maxSettlementVolume.amount - settled, c.currentAsset⟩
        c.settlementFillPrice = .ok (returned, s') ∧
      ((returned.amount = 0 ∧ r = .inr (s', settled, (s'.settlements.find? order).isSome)) ∨
        (¬(hardforkCore184Time < s.nextMaintenanceTime ∧ returned.amount = 0) ∧
          r = .inl (s', settled + returned.amount))) := by
  unfold settleRound at h
  dsimp only at h
  cases hfind : s.settlements.find? order with
  | none =>
    rw [hfind] at h
    exact .inl ⟨.inl rfl, (Except.pure_eq_ok.1 h).symm⟩
  | some obj =>
    rw [hfind] at h
    dsimp only at h
    by_cases hmax : c.maxSettlementVolume.amount ≤ settled
    · rw [if_pos hmax] at h
      exact .inl ⟨.inr hmax, (Except.pure_eq_ok.1 h).symm⟩
    rw [if_neg hmax] at h
    obtain ⟨mia, -, h⟩ := Except.bind_eq_ok.1 h
    obtain ⟨least, -, h⟩ := Except.bind_eq_ok.1 h
    by_cases hzero : obj.balance.amount = 0
    · rw [if_pos hzero] at h
      obtain ⟨s', hcancel, h⟩ := Except.bind_eq_ok.1 h
      exact .inr (.inl ⟨obj, s', hcancel, (Except.pure_eq_ok.1 h).symm⟩)
    rw [if_neg hzero] at h
    obtain ⟨⟨call, callOrder⟩, hcall, h⟩ := Except.bind_eq_ok.1 h
    have hcallOrder : s.callOrders.find? call = some callOrder :=
      ObjectIndex.mem_orderedBy.1 (List.mem_of_find?_eq_some (require_eq_ok.1 hcall))
    dsimp only at h
    rcases hmatch : s.matchSettlement call order c.settlementPrice
      ⟨c.maxSettlementVolume.amount - settled, c.currentAsset⟩ c.settlementFillPrice with e | ⟨returned, s'⟩
    · rw [hmatch] at h
      dsimp only at h
      by_cases hswan : e = blackSwanException
      · rw [if_pos hswan] at h
        obtain ⟨s', hcancel, h⟩ := Except.bind_eq_ok.1 h
        exact .inr (.inl ⟨obj, s', hcancel, (Except.pure_eq_ok.1 h).symm⟩)
      · rw [if_neg hswan] at h
        cases h
    · rw [hmatch] at h
      dsimp only at h
      refine .inr (.inr ⟨obj, call, callOrder, returned, s', rfl, not_le.1 hmax, hcallOrder, hmatch, ?_⟩)
      by_cases hnothing : hardforkCore184Time < s.nextMaintenanceTime ∧ returned.amount = 0
      · rw [if_pos hnothing] at h
        exact .inl ⟨hnothing.2, (Except.pure_eq_ok.1 h).symm⟩
      · rw [if_neg hnothing] at h
        exact .inr ⟨hnothing, (Except.pure_eq_ok.1 h).symm⟩

/-- **A round that goes on** has settled something, within the volume. -/
theorem settleRound_next (h342 : hardforkCore342Time < s.nextMaintenanceTime) (hp : Asset.Converts c.settlementPrice)
    (horder : ∀ o, s.settlements.find? order = some o → o.settlementAssetId = c.currentAsset)
    (h : settleRound order c (s, settled) = .ok (.inl (s', settled'))) :
    settled < settled' ∧ settled' ≤ c.maxSettlementVolume.amount ∧
      Moves s s' order c.currentAsset (settled' - settled) := by
  rcases settleRound_cases h with ⟨-, hr⟩ | ⟨obj, s₁, -, hr⟩ |
    ⟨obj, call, callOrder, returned, s₁, hobj, hlt, hcall, hmatch, ⟨-, hr⟩ | ⟨hsome, hr⟩⟩
  · cases hr
  · cases hr
  · cases hr
  · cases hr
    obtain ⟨-, hsettles⟩ := matchSettlement_spec hcall hobj h342 hp (sub_pos.2 hlt) hmatch
    have hnonneg := hsettles.nonneg
    have hle : returned.amount ≤ c.maxSettlementVolume.amount - settled :=
      hsettles.le.trans ((min_le_left _ _).trans (min_le_right _ _))
    have hne : returned.amount ≠ 0 := fun hzero ↦ hsome ⟨h342, hzero⟩
    refine ⟨by omega, by omega, ?_⟩
    rw [add_sub_cancel_left]
    exact .of_settles hsettles (horder obj hobj)

/-- **A round that ends the loop** settles nothing. The order is gone, or the volume is used up, or the asset is finished. -/
theorem settleRound_end (h342 : hardforkCore342Time < s.nextMaintenanceTime) (hp : Asset.Converts c.settlementPrice)
    (horder : ∀ o, s.settlements.find? order = some o → o.settlementAssetId = c.currentAsset) {finished : Bool}
    (h : settleRound order c (s, settled) = .ok (.inr (s', settled', finished))) :
    settled' = settled ∧ Moves s s' order c.currentAsset 0 ∧
      (s'.settlements.find? order = none ∨ c.maxSettlementVolume.amount ≤ settled ∨ finished = true) := by
  rcases settleRound_cases h with ⟨hdone, hr⟩ | ⟨obj, s₁, hcancel, hr⟩ |
    ⟨obj, call, callOrder, returned, s₁, hobj, hlt, hcall, hmatch, ⟨hzero, hr⟩ | ⟨-, hr⟩⟩
  · cases hr
    exact ⟨rfl, .refl horder, hdone.imp_right .inl⟩
  · cases hr
    obtain ⟨hmoves, hnone⟩ := Moves.of_cancel hcancel
    exact ⟨rfl, hmoves, .inl hnone⟩
  · cases hr
    obtain ⟨-, hsettles⟩ := matchSettlement_spec hcall hobj h342 hp (sub_pos.2 hlt) hmatch
    rw [hzero] at hsettles
    refine ⟨rfl, .of_settles hsettles (horder obj hobj), ?_⟩
    cases hfind : s'.settlements.find? order with
    | none => exact .inl rfl
    | some o => exact .inr (.inr rfl)
  · cases hr

/-- **One order is settled**: the loop has an outcome, and stays within the volume. -/
theorem settleOrder_spec (h342 : hardforkCore342Time < s.nextMaintenanceTime) (hp : Asset.Converts c.settlementPrice)
    (horder : ∀ o, s.settlements.find? order = some o → o.settlementAssetId = c.currentAsset)
    (hle : settled ≤ c.maxSettlementVolume.amount) :
    ∃ r, s.settleOrder order c settled = some r ∧ ∀ s' settled' finished, r = .ok (s', settled', finished) →
      Moves s s' order c.currentAsset (settled' - settled) ∧ settled' ≤ c.maxSettlementVolume.amount ∧
      (s'.settlements.find? order = none ∨ c.maxSettlementVolume.amount ≤ settled' ∨ finished = true) := by
  let I (x : MarketState × ℤ) : Prop :=
    Moves s x.1 order c.currentAsset (x.2 - settled) ∧ x.2 ≤ c.maxSettlementVolume.amount
  let Q (r : MarketState × ℤ × Bool) : Prop :=
    Moves s r.1 order c.currentAsset (r.2.1 - settled) ∧ r.2.1 ≤ c.maxSettlementVolume.amount ∧
      (r.1.settlements.find? order = none ∨ c.maxSettlementVolume.amount ≤ r.2.1 ∨ r.2.2 = true)
  have hinit : I (s, settled) := ⟨by rw [sub_self]; exact .refl horder, hle⟩
  have hmaint (x : MarketState × ℤ) (hx : I x) : hardforkCore342Time < x.1.nextMaintenanceTime := by
    rw [hx.1.nextMaintenanceTime]
    exact h342
  have hnext (x x' : MarketState × ℤ) (hx : I x) (h : some (settleRound order c x) = some (.ok (.inl x'))) :
      I x' ∧ x.2 < x'.2 := by
    obtain ⟨hlt, hle', hmoves⟩ := settleRound_next (hmaint x hx) hp hx.1.rest (Option.some.inj h)
    refine ⟨⟨?_, hle'⟩, hlt⟩
    have htrans := hx.1.trans hmoves
    rwa [sub_add_sub_cancel'] at htrans
  have hend (x : MarketState × ℤ) (r : MarketState × ℤ × Bool) (hx : I x)
      (h : some (settleRound order c x) = some (.ok (.inr r))) : Q r := by
    obtain ⟨heq, hmoves, hdone⟩ := settleRound_end (hmaint x hx) hp hx.1.rest (Option.some.inj h)
    rw [← heq] at hdone
    refine ⟨?_, heq.trans_le hx.2, hdone⟩
    have htrans := hx.1.trans hmoves
    rwa [add_zero, ← heq] at htrans
  obtain ⟨r, hr⟩ := @Loop.exists_iterate_eq _ _ _ (fun x ↦ some (settleRound order c x)) I
    (fun x ↦ (c.maxSettlementVolume.amount - x.2).toNat) (fun x _ ↦ ⟨_, rfl⟩) (fun x x' hx h ↦ by
      obtain ⟨hx', hlt⟩ := hnext x x' hx h
      exact ⟨hx', by have := hx'.2; omega⟩) _ _ hinit (Nat.lt_succ_self _)
  refine ⟨r, hr, fun s' settled' finished heq ↦ ?_⟩
  subst heq
  exact Loop.of_iterate_eq I Q (fun x x' hx h ↦ (hnext x x' hx h).1) hend hinit hr

end Round

/-! ### The cursor -/

section Cursor

variable {s : MarketState} {c c' : SettlementCursor} {mia : BitassetDataObject} {order : ForceSettlementObject}

/-- A price that was scaled is one of two assets. -/
theorem converts_of_scale {p np : Price} {r : ℚ} (h : p.scale r = .ok np) : Asset.Converts np := by
  obtain ⟨_, hvalid, h'⟩ := Except.bind_eq_ok.1 h
  obtain ⟨_, hbase, hvalid⟩ := Except.bind_eq_ok.1 hvalid
  obtain ⟨_, hquote, hvalid⟩ := Except.bind_eq_ok.1 hvalid
  obtain ⟨_, hr, -⟩ := Except.bind_eq_ok.1 h'
  have hp : ValidPrice p := ⟨fcAssert_eq_ok.1 hbase, fcAssert_eq_ok.1 hquote, fcAssert_eq_ok.1 hvalid⟩
  obtain ⟨np', hnp', hvalid', -⟩ := scale_spec hp (Rat.num_pos.1 (fcAssert_eq_ok.1 hr))
  obtain rfl : np = np' := Except.ok.inj (h.symm.trans hnp')
  exact fun heq ↦ absurd heq hvalid'.assets

/-- The volume is that of the asset, and an old one is kept. -/
theorem withVolume_spec (h : s.withVolume c mia = .ok c') :
    ∃ v : Asset, c' = { c with maxSettlementVolume := v } ∧ v.assetId = c.currentAsset ∧
      ((c.maxSettlementVolume.assetId = c.currentAsset ∧ v = c.maxSettlementVolume) ∨
        (c.maxSettlementVolume.assetId ≠ c.currentAsset ∧
          ∃ x, s.supply c.currentAsset = some x ∧ v.amount = mia.maxForceSettlementVolume x)) := by
  unfold withVolume at h
  by_cases hne : c.maxSettlementVolume.assetId ≠ c.currentAsset
  · rw [if_pos hne] at h
    obtain ⟨d, hd, h⟩ := Except.bind_eq_ok.1 h
    refine ⟨⟨mia.maxForceSettlementVolume d.currentSupply, c.currentAsset⟩, (Except.pure_eq_ok.1 h).symm, rfl,
      .inr ⟨hne, d.currentSupply, ?_, rfl⟩⟩
    rw [supply, require_eq_ok.1 hd]
    rfl
  · rw [if_neg hne] at h
    cases h
    exact ⟨c.maxSettlementVolume, rfl, not_not.1 hne, .inl ⟨not_not.1 hne, rfl⟩⟩

/-- The prices are those of two assets. -/
theorem withPrices_spec (h342 : hardforkCore342Time < s.nextMaintenanceTime) (hp : Asset.Converts c.settlementPrice)
    (hfp : Asset.Converts c.settlementFillPrice) (h : s.withPrices c mia order = .ok c') :
    ∃ p fp, c' = { c with settlementPrice := p, settlementFillPrice := fp } ∧ Asset.Converts p ∧ Asset.Converts fp := by
  unfold withPrices at h
  dsimp only at h
  have hprice (fp : Price) (hfp : Asset.Converts fp)
      (h : (if s.nextMaintenanceTime ≤ hardforkCore342Time then do
          let price ← priceBefore342 mia order
          pure { c with settlementFillPrice := fp, settlementPrice := price }
        else if c.settlementPrice.base.assetId ≠ c.currentAsset then do
          let price ← pure fp
          pure { c with settlementFillPrice := fp, settlementPrice := price }
        else do
          let price ← pure c.settlementPrice
          pure { c with settlementFillPrice := fp, settlementPrice := price }) = (.ok c' : Except ChainError _)) :
      ∃ p fp, c' = { c with settlementPrice := p, settlementFillPrice := fp } ∧ Asset.Converts p ∧ Asset.Converts fp := by
    rw [if_neg (UInt32.not_le.mpr h342)] at h
    split_ifs at h with hasset
    · exact ⟨fp, fp, (Except.pure_eq_ok.1 h).symm, hfp, hfp⟩
    · exact ⟨c.settlementPrice, fp, (Except.pure_eq_ok.1 h).symm, hp, hfp⟩
  by_cases hasset : c.settlementFillPrice.base.assetId ≠ c.currentAsset
  · rw [if_pos hasset] at h
    obtain ⟨fp, hscale, h⟩ := Except.bind_eq_ok.1 h
    obtain ⟨r, -, hscale⟩ := Except.bind_eq_ok.1 hscale
    exact hprice fp (converts_of_scale hscale) h
  · rw [if_neg hasset] at h
    exact hprice c.settlementFillPrice hfp h

/-- What can be done with an order. -/
theorem prepareOrder_cases {id : ℕ} {r : ((MarketState × SettlementCursor) ⊕ MarketState) ⊕ SettlementCursor}
    (h : s.prepareOrder c id order = .ok r) :
    (∃ s', s.cancelSettleOrder id order = .ok s' ∧
      r = .inl (.inl (s', { c with currentAsset := order.settlementAssetId }))) ∨
    ∃ mia, s.bitassets.find? order.settlementAssetId = some mia ∧
      (r = .inl (s.nextAsset { c with currentAsset := order.settlementAssetId }) ∨
        ∃ c', s.withVolume { c with currentAsset := order.settlementAssetId } mia = .ok c' ∧
          (r = .inl (s.nextAsset c') ∨
            (mia.forceSettledVolume < c'.maxSettlementVolume.amount ∧ c'.currentAssetFinished = false ∧
              ∃ c'', s.withPrices c' mia order = .ok c'' ∧ r = .inr c''))) := by
  obtain ⟨_, -, h⟩ := Except.bind_eq_ok.1 h
  obtain ⟨mia, hmia, h⟩ := Except.bind_eq_ok.1 h
  replace hmia := require_eq_ok.1 hmia
  by_cases hsettled : mia.hasSettlement = true
  · rw [if_pos hsettled] at h
    obtain ⟨s', hs', h⟩ := Except.bind_eq_ok.1 h
    exact .inl ⟨s', hs', (Except.pure_eq_ok.1 h).symm⟩
  rw [if_neg hsettled] at h
  by_cases hdate : s.headBlockTime < order.settlementDate
  · rw [if_pos hdate] at h
    exact .inr ⟨mia, hmia, .inl (Except.pure_eq_ok.1 h).symm⟩
  rw [if_neg hdate] at h
  by_cases hnull : mia.currentFeedSettlementPrice.isNull = true
  · rw [if_pos hnull] at h
    obtain ⟨s', hs', h⟩ := Except.bind_eq_ok.1 h
    exact .inl ⟨s', hs', (Except.pure_eq_ok.1 h).symm⟩
  rw [if_neg hnull] at h
  obtain ⟨c', hc', h⟩ := Except.bind_eq_ok.1 h
  refine .inr ⟨mia, hmia, .inr ⟨c', hc', ?_⟩⟩
  by_cases hfull : c'.maxSettlementVolume.amount ≤ mia.forceSettledVolume ∨ c'.currentAssetFinished = true
  · rw [if_pos hfull] at h
    exact .inl (Except.pure_eq_ok.1 h).symm
  · rw [if_neg hfull] at h
    obtain ⟨c'', hc'', h⟩ := Except.bind_eq_ok.1 h
    rw [not_or, not_le, Bool.not_eq_true] at hfull
    exact .inr ⟨hfull.1, hfull.2, c'', hc'', (Except.pure_eq_ok.1 h).symm⟩

end Cursor

/-! ### The orders that are waiting -/

section Waiting

variable {s : MarketState} {i : AssetId} {o : ℕ × ForceSettlementObject}

theorem mem_byExpiration {s : MarketState} {o : ℕ × ForceSettlementObject} :
    o ∈ s.byExpiration ↔ s.settlements.find? o.1 = some o.2 := ObjectIndex.mem_orderedBy

theorem pairwise_byExpiration (s : MarketState) :
    s.byExpiration.Pairwise fun a b ↦ a.2.settlementAssetId ≤ b.2.settlementAssetId := by
  refine (ObjectIndex.pairwise_orderedBy_key s.settlements fun a ↦
    toLex (a.2.settlementAssetId, toLex (a.2.settlementDate.toNat, a.1))).imp fun {a b} h ↦ ?_
  rw [Prod.Lex.toLex_le_toLex] at h
  exact h.elim le_of_lt fun h ↦ h.1.le

/-- **The first order** from an asset on. -/
theorem lowerBound_spec (h : s.lowerBound i = some o) :
    s.settlements.find? o.1 = some o.2 ∧ i ≤ o.2.settlementAssetId ∧
      ∀ j obj, s.settlements.find? j = some obj → i ≤ obj.settlementAssetId →
        o.2.settlementAssetId ≤ obj.settlementAssetId := by
  have hle : decide (i ≤ o.2.settlementAssetId) = true :=
    List.find?_some (p := fun o : ℕ × ForceSettlementObject ↦ decide (i ≤ o.2.settlementAssetId)) h
  refine ⟨mem_byExpiration.1 (List.mem_of_find?_eq_some h), of_decide_eq_true hle, fun j obj hobj hi ↦ ?_⟩
  obtain ⟨-, before, after, hsplit, hbefore⟩ := List.find?_eq_some_iff_append.1 h
  have hmem : (j, obj) ∈ s.byExpiration := mem_byExpiration.2 hobj
  have hsorted := s.pairwise_byExpiration
  rw [hsplit] at hmem hsorted
  rcases List.mem_append.1 hmem with hmem | hmem
  · have hnot := hbefore _ hmem
    exact absurd hi (by simpa using hnot)
  · rcases List.mem_cons.1 hmem with rfl | hmem
    · exact le_rfl
    · exact (List.pairwise_cons.1 (List.pairwise_append.1 hsorted).2.1).1 _ hmem

theorem upperBound_spec (h : s.upperBound i = some o) : i < o.2.settlementAssetId :=
  of_decide_eq_true
    (List.find?_some (p := fun o : ℕ × ForceSettlementObject ↦ decide (i < o.2.settlementAssetId)) h)

open Classical in
/-- The orders from an asset on. -/
noncomputable def waiting (s : MarketState) (i : AssetId) : Finset ℕ :=
  s.settlements.objects.keys.filter fun j ↦ ∃ obj, s.settlements.find? j = some obj ∧ i ≤ obj.settlementAssetId

theorem mem_waiting {j : ℕ} :
    j ∈ s.waiting i ↔ ∃ obj, s.settlements.find? j = some obj ∧ i ≤ obj.settlementAssetId := by
  rw [waiting, Finset.mem_filter]
  exact ⟨And.right, fun h ↦ ⟨FlatMap.mem_keys.2 (h.imp fun _ h ↦ h.1), h⟩⟩

theorem card_waiting_le (s : MarketState) (i : AssetId) : (s.waiting i).card ≤ s.settlements.toList.length :=
  (Finset.card_filter_le _ _).trans (FlatMap.card_keys _).le

/-- Fewer orders are waiting if one is left out. -/
theorem card_waiting_lt {s' : MarketState} {i' : AssetId} {j : ℕ} {obj : ForceSettlementObject}
    (hj : s.settlements.find? j = some obj) (hi : i ≤ obj.settlementAssetId) (hj' : j ∉ s'.waiting i')
    (hsub : s'.waiting i' ⊆ s.waiting i) : (s'.waiting i').card < (s.waiting i).card :=
  Finset.card_lt_card (Finset.ssubset_iff_of_subset hsub |>.2 ⟨j, mem_waiting.2 ⟨obj, hj, hi⟩, hj'⟩)

end Waiting

/-! ### A round of the outer loop -/

section Clear

variable {s s' : MarketState} {c c' : SettlementCursor}

/-- The cursor with the volume of the asset of an order. -/
def WithVolume (s : MarketState) (c : SettlementCursor) (order : ForceSettlementObject) (c' : SettlementCursor) : Prop :=
  ∃ mia, s.bitassets.find? order.settlementAssetId = some mia ∧
    s.withVolume { c with currentAsset := order.settlementAssetId } mia = .ok c'

theorem nextAsset_next {x : MarketState × SettlementCursor} (h : s.nextAsset c = .inl x) :
    ∃ i, c.currentAsset < i ∧ x = (s, { c with currentAsset := i, currentAssetFinished := false }) := by
  unfold nextAsset at h
  cases hbound : s.upperBound c.currentAsset with
  | none =>
    rw [hbound] at h
    cases h
  | some o =>
    rw [hbound] at h
    exact ⟨o.2.settlementAssetId, upperBound_spec hbound, (Sum.inl.inj h).symm⟩

theorem nextAsset_end (h : s.nextAsset c = .inr s') : s' = s := by
  unfold nextAsset at h
  cases hbound : s.upperBound c.currentAsset with
  | none =>
    rw [hbound] at h
    exact (Sum.inr.inj h).symm
  | some o =>
    rw [hbound] at h
    cases h

/-- **What a round does** that goes on: an order is cancelled, or its asset is left, or it is settled. -/
theorem clearRound_next {x : MarketState × SettlementCursor} (h : clearRound (s, c) = some (.ok (.inl x))) :
    ∃ id order, s.lowerBound c.currentAsset = some (id, order) ∧
      ((∃ s', s.cancelSettleOrder id order = .ok s' ∧ x = (s', { c with currentAsset := order.settlementAssetId })) ∨
      (∃ c' i, (c' = { c with currentAsset := order.settlementAssetId } ∨ WithVolume s c order c') ∧
        order.settlementAssetId < i ∧ x = (s, { c' with currentAsset := i, currentAssetFinished := false })) ∨
      ∃ mia c' c'' r, s.bitassets.find? order.settlementAssetId = some mia ∧
        s.withVolume { c with currentAsset := order.settlementAssetId } mia = .ok c' ∧
        mia.forceSettledVolume < c'.maxSettlementVolume.amount ∧ c'.currentAssetFinished = false ∧
        s.withPrices c' mia order = .ok c'' ∧
        s.settleOrder id c'' mia.forceSettledVolume = some (.ok r) ∧ x = storeSettled c'' r) := by
  unfold clearRound at h
  dsimp only at h
  cases hbound : s.lowerBound c.currentAsset with
  | none =>
    rw [hbound] at h
    cases h
  | some o =>
    obtain ⟨id, order⟩ := o
    rw [hbound] at h
    dsimp only at h
    refine ⟨id, order, rfl, ?_⟩
    rcases hprepare : s.prepareOrder c id order with e | r
    · rw [hprepare] at h
      cases h
    rw [hprepare] at h
    rcases prepareOrder_cases hprepare with ⟨s', hs', rfl⟩ | ⟨mia, hmia, rfl | ⟨c', hc', rfl | ⟨hlt, hfin, c'', hc'', rfl⟩⟩⟩
    · exact .inl ⟨s', hs', Sum.inl.inj (Except.ok.inj (Option.some.inj h)).symm⟩
    · obtain ⟨i, hi, hx⟩ := nextAsset_next (Except.ok.inj (Option.some.inj h))
      exact .inr (.inl ⟨_, i, .inl rfl, hi, hx⟩)
    · obtain ⟨v, rfl, -⟩ := withVolume_spec hc'
      obtain ⟨i, hi, hx⟩ := nextAsset_next (Except.ok.inj (Option.some.inj h))
      exact .inr (.inl ⟨_, i, .inr ⟨mia, hmia, hc'⟩, hi, hx⟩)
    · dsimp only at h
      rw [hmia] at h
      obtain ⟨r', hr', h⟩ := Option.map_eq_some_iff.1 h
      rcases r' with e | r'
      · cases h
      · exact .inr (.inr ⟨mia, c', c'', r', hmia, hc', hlt, hfin, hc'', hr', Sum.inl.inj (Except.ok.inj h).symm⟩)

end Clear

/-! ### The run -/

/-- **The invariant of a run** from a state on, with the record of what was settled since. Assets behind the cursor, and those
whose volume has not been computed, are untouched. -/
structure Run (s₀ s : MarketState) (c : SettlementCursor) (new : List FillOrderOperation) : Prop where
  fills : s.fills = s₀.fills ++ new
  nonneg : ∀ i, 0 ≤ settledIn i new
  supply : ∀ i, s.supply i = (s₀.supply i).map fun x ↦ x - settledIn i new
  volume : ∀ i, s.bitassets.find? i = (s₀.bitassets.find? i).map fun b ↦
    { b with forceSettledVolume := b.forceSettledVolume + settledIn i new }
  limit : ∀ i b, s₀.bitassets.find? i = some b → settledIn i new = 0 ∨
    ∃ x, s₀.supply i = some x ∧ b.forceSettledVolume + settledIn i new ≤ b.maxForceSettlementVolume x
  untouched : ∀ i, c.currentAsset ≤ i → i ≠ c.maxSettlementVolume.assetId → settledIn i new = 0
  cached : ∀ b, s₀.bitassets.find? c.maxSettlementVolume.assetId = some b →
    ∃ x, s₀.supply c.maxSettlementVolume.assetId = some x ∧ c.maxSettlementVolume.amount = b.maxForceSettlementVolume x
  behind : c.maxSettlementVolume.assetId ≤ c.currentAsset
  nextMaintenanceTime : s.nextMaintenanceTime = s₀.nextMaintenanceTime
  price : Asset.Converts c.settlementPrice
  fillPrice : Asset.Converts c.settlementFillPrice

namespace Run

variable {s₀ s s' : MarketState} {c c' : SettlementCursor} {new : List FillOrderOperation} {order : ℕ} {amount : ℤ}

/-- The cursor moves on. -/
theorem moveTo (h : Run s₀ s c new) {i : AssetId} (hi : c.currentAsset ≤ i) (finished : Bool) :
    Run s₀ s { c with currentAsset := i, currentAssetFinished := finished } new :=
  { h with untouched := fun j hj ↦ h.untouched j (hi.trans hj), behind := h.behind.trans hi }

/-- The volume of an asset is computed from what it was at the start. -/
theorem withVolume (h : Run s₀ s c new) {mia : BitassetDataObject} (hmia : s.bitassets.find? c.currentAsset = some mia)
    (hc' : s.withVolume c mia = .ok c') : Run s₀ s c' new := by
  obtain ⟨v, rfl, hv, ⟨-, rfl⟩ | ⟨hne, x, hx, hamount⟩⟩ := withVolume_spec hc'
  · exact h
  have huntouched : settledIn c.currentAsset new = 0 := h.untouched _ le_rfl hne.symm
  refine { h with untouched := fun i hi hne' ↦ ?_, cached := fun b hb ↦ ⟨x, ?_, ?_⟩, behind := hv.le }
  · refine h.untouched i hi fun hold ↦ hne' ?_
    rw [hv]
    exact le_antisymm (hold.le.trans h.behind) hi
  · rw [h.supply, huntouched] at hx
    rw [hv]
    simpa using hx
  · rw [hv] at hb
    rw [h.volume, hb, huntouched] at hmia
    rw [hamount, ← Option.some.inj hmia]
    simp

/-- The prices are computed. -/
theorem withPrices (h : Run s₀ s c new) {mia : BitassetDataObject} {obj : ForceSettlementObject}
    (h342 : hardforkCore342Time < s₀.nextMaintenanceTime) (hc' : s.withPrices c mia obj = .ok c') : Run s₀ s c' new := by
  obtain ⟨p, fp, rfl, hp, hfp⟩ := withPrices_spec (h.nextMaintenanceTime ▸ h342) h.price h.fillPrice hc'
  exact { h with price := hp, fillPrice := hfp }

/-- A cancellation settles nothing. -/
theorem cancel (h : Run s₀ s c new) {i : AssetId} (hmoves : Moves s s' order i 0) : ∃ new', Run s₀ s' c new' := by
  obtain ⟨added, hadded, hsum⟩ := hmoves.fills
  have hsettled (j : AssetId) : settledIn j (new ++ added) = settledIn j new := by
    rw [settledIn_append, hsum, ite_self, add_zero]
  refine ⟨new ++ added, { h with
    fills := ?_, nonneg := fun j ↦ ?_, supply := fun j ↦ ?_, volume := fun j ↦ ?_, limit := fun j ↦ ?_,
    untouched := fun j ↦ ?_, nextMaintenanceTime := ?_ }⟩
  · rw [hadded, h.fills, List.append_assoc]
  · rw [hsettled]
    exact h.nonneg j
  · rw [hmoves.supply, h.supply, hsettled, Option.map_map]
    congr 1
    funext x
    simp
  · rw [hmoves.bitassets, h.volume, hsettled]
  · rw [hsettled]
    exact h.limit j
  · rw [hsettled]
    exact h.untouched j
  · exact hmoves.nextMaintenanceTime.trans h.nextMaintenanceTime

/-- **An order is settled**, within the volume of its asset. -/
theorem settle (h : Run s₀ s c new) {mia : BitassetDataObject} (hmia : s.bitassets.find? c.currentAsset = some mia)
    (hasset : c.maxSettlementVolume.assetId = c.currentAsset) {settled : ℤ} (hle : settled ≤ c.maxSettlementVolume.amount)
    (finished : Bool) (hmoves : Moves s s' order c.currentAsset (settled - mia.forceSettledVolume)) :
    ∃ new', Run s₀ (storeSettled c (s', settled, finished)).1 (storeSettled c (s', settled, finished)).2 new' := by
  obtain ⟨added, hadded, hsum⟩ := hmoves.fills
  obtain ⟨b, hb, hmiaEq⟩ := Option.map_eq_some_iff.1 ((h.volume c.currentAsset).symm.trans hmia)
  have hvolume : b.forceSettledVolume + settledIn c.currentAsset new = mia.forceSettledVolume :=
    congrArg BitassetDataObject.forceSettledVolume hmiaEq
  have hsettled (j : AssetId) : settledIn j (new ++ added) =
      settledIn j new + if j = c.currentAsset then settled - mia.forceSettledVolume else 0 := by
    rw [settledIn_append, hsum]
  have hcurrent : b.forceSettledVolume + settledIn c.currentAsset (new ++ added) = settled := by
    rw [hsettled, if_pos rfl]
    omega
  have hother (j : AssetId) (hj : j ≠ c.currentAsset) : settledIn j (new ++ added) = settledIn j new := by
    rw [hsettled, if_neg hj, add_zero]
  refine ⟨new ++ added, { h with
    fills := ?_, nonneg := fun j ↦ ?_, supply := fun j ↦ ?_, volume := fun j ↦ ?_, limit := fun j b' hb' ↦ ?_,
    untouched := fun j hj hne ↦ ?_, nextMaintenanceTime := ?_ }⟩
  · show s'.fills = _
    rw [hadded, h.fills, List.append_assoc]
  · rw [hsettled]
    have hnonneg := hmoves.nonneg
    exact add_nonneg (h.nonneg j) (by split_ifs <;> omega)
  · show s'.supply j = _
    rw [hmoves.supply, h.supply, hsettled, Option.map_map]
    congr 1
    funext x
    exact sub_sub _ _ _
  · show (s'.bitassets.modify c.currentAsset _).find? j = _
    rw [hmoves.bitassets, FlatMap.find?_modify]
    by_cases hj : j = c.currentAsset
    · subst hj
      rw [if_pos rfl, hmia, hb, Option.map_some, Option.map_some, hcurrent, ← hmiaEq]
    · rw [if_neg hj, h.volume, hother j hj]
  · by_cases hj : j = c.currentAsset
    · subst hj
      obtain rfl := Option.some.inj (hb.symm.trans hb')
      obtain ⟨x, hx, hamount⟩ := h.cached b (by rw [hasset]; exact hb)
      rw [hasset] at hx
      exact .inr ⟨x, hx, by rw [hcurrent, ← hamount]; exact hle⟩
    · rw [hother j hj]
      exact h.limit j b' hb'
  · rw [hother j fun heq ↦ hne (heq.trans hasset.symm)]
    exact h.untouched j hj hne
  · exact hmoves.nextMaintenanceTime.trans h.nextMaintenanceTime

end Run

theorem clearRound_end {s s' : MarketState} {c : SettlementCursor} (h : clearRound (s, c) = some (.ok (.inr s'))) :
    s' = s := by
  unfold clearRound at h
  dsimp only at h
  cases hbound : s.lowerBound c.currentAsset with
  | none =>
    rw [hbound] at h
    exact (Sum.inr.inj (Except.ok.inj (Option.some.inj h))).symm
  | some o =>
    rw [hbound] at h
    dsimp only at h
    rcases hprepare : s.prepareOrder c o.1 o.2 with e | r
    · rw [hprepare] at h
      cases h
    rw [hprepare] at h
    rcases prepareOrder_cases hprepare with ⟨s', hs', rfl⟩ | ⟨mia, hmia, rfl | ⟨c', hc', rfl | ⟨hlt, hfin, c'', hc'', rfl⟩⟩⟩
    · cases h
    · exact nextAsset_end (Except.ok.inj (Option.some.inj h))
    · exact nextAsset_end (Except.ok.inj (Option.some.inj h))
    · obtain ⟨r', -, h⟩ := Option.map_eq_some_iff.1 h
      rcases r' with e | r'
      · cases h
      · cases h

section Rounds

variable {s₀ s s' : MarketState} {c c' : SettlementCursor} {new : List FillOrderOperation}

/-- The order that is settled, with the prices and the volume of its asset. -/
structure Ready (s₀ s : MarketState) (c : SettlementCursor) (new : List FillOrderOperation) (id : ℕ)
    (mia : BitassetDataObject) (c' : SettlementCursor) : Prop where
  run : Run s₀ s c' new
  found : s.bitassets.find? c'.currentAsset = some mia
  asset : c'.maxSettlementVolume.assetId = c'.currentAsset
  volume : mia.forceSettledVolume < c'.maxSettlementVolume.amount
  order : ∀ o, s.settlements.find? id = some o → o.settlementAssetId = c'.currentAsset
  old : c.maxSettlementVolume.assetId = c'.currentAsset → c.maxSettlementVolume = c'.maxSettlementVolume
  finished : c.currentAssetFinished = false ∧ c'.currentAssetFinished = false

theorem Run.ready (h : Run s₀ s c new) (h342 : hardforkCore342Time < s₀.nextMaintenanceTime) {id : ℕ}
    {order : ForceSettlementObject} {mia : BitassetDataObject} {c'' : SettlementCursor}
    (hbound : s.lowerBound c.currentAsset = some (id, order))
    (hmia : s.bitassets.find? order.settlementAssetId = some mia)
    (hc' : s.withVolume { c with currentAsset := order.settlementAssetId } mia = .ok c')
    (hvolume : mia.forceSettledVolume < c'.maxSettlementVolume.amount) (hfinished : c'.currentAssetFinished = false)
    (hc'' : s.withPrices c' mia order = .ok c'') : Ready s₀ s c new id mia c'' := by
  obtain ⟨hfind, hle, -⟩ := lowerBound_spec hbound
  have hrun := ((h.moveTo hle c.currentAssetFinished).withVolume hmia hc').withPrices h342 hc''
  have hprices := withPrices_spec (h.nextMaintenanceTime ▸ h342)
    ((h.moveTo hle c.currentAssetFinished).withVolume hmia hc').price
    ((h.moveTo hle c.currentAssetFinished).withVolume hmia hc').fillPrice hc''
  obtain ⟨p, fp, rfl, -⟩ := hprices
  obtain ⟨v, rfl, hv, hold⟩ := withVolume_spec hc'
  refine ⟨hrun, hmia, hv, hvolume, fun o ho ↦ ?_, fun hasset ↦ ?_, hfinished, hfinished⟩
  · exact congrArg ForceSettlementObject.settlementAssetId (Option.some.inj (ho.symm.trans hfind))
  · rcases hold with ⟨-, heq⟩ | ⟨hne, -⟩
    · exact heq.symm
    · exact absurd hasset hne

theorem Ready.settleOrder_spec {id : ℕ} {mia : BitassetDataObject} (h : Ready s₀ s c new id mia c')
    (h342 : hardforkCore342Time < s₀.nextMaintenanceTime) :
    ∃ r, s.settleOrder id c' mia.forceSettledVolume = some r ∧ ∀ s' settled finished, r = .ok (s', settled, finished) →
      Moves s s' id c'.currentAsset (settled - mia.forceSettledVolume) ∧ settled ≤ c'.maxSettlementVolume.amount ∧
      (s'.settlements.find? id = none ∨ c'.maxSettlementVolume.amount ≤ settled ∨ finished = true) :=
  MarketState.settleOrder_spec (h.run.nextMaintenanceTime ▸ h342) h.run.price h.order h.volume.le

/-- **A round has an outcome.** -/
theorem exists_clearRound_eq (h : Run s₀ s c new) (h342 : hardforkCore342Time < s₀.nextMaintenanceTime) :
    ∃ r, clearRound (s, c) = some r := by
  unfold clearRound
  dsimp only
  cases hbound : s.lowerBound c.currentAsset with
  | none => exact ⟨_, rfl⟩
  | some o =>
    obtain ⟨id, order⟩ := o
    dsimp only
    rcases hprepare : s.prepareOrder c id order with e | next | c''
    · exact ⟨_, rfl⟩
    · exact ⟨_, rfl⟩
    · rcases prepareOrder_cases hprepare with ⟨s', -, hr⟩ | ⟨mia, hmia, hr | ⟨c', hc', hr | ⟨hlt, hfin, c₁, hc₁, hr⟩⟩⟩
      · cases hr
      · cases hr
      · cases hr
      · cases hr
        obtain ⟨r, hr, -⟩ := (h.ready h342 hbound hmia hc' hlt hfin hc₁).settleOrder_spec h342
        dsimp only
        rw [hmia]
        exact ⟨_, congrArg (Option.map _) hr⟩

/-- **A round keeps the invariant.** -/
theorem Run.next (h : Run s₀ s c new) (h342 : hardforkCore342Time < s₀.nextMaintenanceTime)
    (hround : clearRound (s, c) = some (.ok (.inl (s', c')))) : ∃ new', Run s₀ s' c' new' := by
  obtain ⟨id, order, hbound, ⟨s₁, hcancel, hx⟩ | ⟨c₁, i, hc₁, hi, hx⟩ |
    ⟨mia, c₁, c₂, ⟨s₁, settled, finished⟩, hmia, hc₁, hlt, hfin, hc₂, hsettle, hx⟩⟩ := clearRound_next hround
  · cases hx
    obtain ⟨-, hle, -⟩ := lowerBound_spec hbound
    exact (h.moveTo hle c.currentAssetFinished).cancel (Moves.of_cancel (i := order.settlementAssetId) hcancel).1
  · cases hx
    obtain ⟨-, hle, -⟩ := lowerBound_spec hbound
    rcases hc₁ with rfl | ⟨mia, hmia, hc₁⟩
    · exact ⟨new, h.moveTo (hle.trans hi.le) false⟩
    · have hrun := (h.moveTo hle c.currentAssetFinished).withVolume hmia hc₁
      obtain ⟨v, rfl, -⟩ := withVolume_spec hc₁
      exact ⟨new, hrun.moveTo hi.le false⟩
  · cases hx
    have hready := h.ready h342 hbound hmia hc₁ hlt hfin hc₂
    obtain ⟨r, hr, hspec⟩ := hready.settleOrder_spec h342
    obtain ⟨hmoves, hle, -⟩ := hspec s₁ settled finished (Option.some.inj (hr.symm.trans hsettle))
    exact hready.run.settle hready.found hready.asset hle finished hmoves

/-! ### Termination -/

/-- The asset is left when the next order is looked at: it is finished, or its volume is used up and it still has an order. -/
def Blocked (s : MarketState) (c : SettlementCursor) : Prop :=
  c.currentAssetFinished = true ∨
    ((∃ j o, s.settlements.find? j = some o ∧ o.settlementAssetId = c.currentAsset) ∧
      c.maxSettlementVolume.assetId = c.currentAsset ∧
      ∃ mia, s.bitassets.find? c.currentAsset = some mia ∧ c.maxSettlementVolume.amount ≤ mia.forceSettledVolume)

open Classical in
/-- The measure of the outer loop: two rounds for each order that is waiting, and one less once the asset is blocked. -/
noncomputable def rank (x : MarketState × SettlementCursor) : ℕ :=
  2 * (x.1.waiting x.2.currentAsset).card + if Blocked x.1 x.2 then 0 else 1

theorem rank_lt_of_card_lt (h : (s'.waiting c'.currentAsset).card < (s.waiting c.currentAsset).card) :
    rank (s', c') < rank (s, c) := by
  unfold rank
  dsimp only
  split_ifs <;> omega

theorem rank_lt_of_blocked (h : (s'.waiting c'.currentAsset).card ≤ (s.waiting c.currentAsset).card)
    (hblocked : Blocked s' c') (hnot : ¬Blocked s c) : rank (s', c') < rank (s, c) := by
  unfold rank
  dsimp only
  rw [if_pos hblocked, if_neg hnot]
  omega

/-- Orders that are waiting were waiting before, if only one of them was touched. -/
theorem Moves.waiting_subset {id : ℕ} {i i' : AssetId} {amount : ℤ} {obj : ForceSettlementObject}
    (h : Moves s s' id i' amount) (hobj : s.settlements.find? id = some obj) (hi : i ≤ obj.settlementAssetId)
    (hi' : i ≤ i') : s'.waiting i' ⊆ s.waiting i := by
  intro j hj
  obtain ⟨o, ho, hle⟩ := mem_waiting.1 hj
  by_cases hid : j = id
  · subst hid
    exact mem_waiting.2 ⟨obj, hobj, hi⟩
  · exact mem_waiting.2 ⟨o, (h.others j hid).symm.trans ho, hi'.trans hle⟩

theorem not_mem_waiting {id : ℕ} {i : AssetId} (h : s.settlements.find? id = none) : id ∉ s.waiting i := by
  intro hmem
  obtain ⟨o, ho, -⟩ := mem_waiting.1 hmem
  cases h.symm.trans ho

/-- **A round makes the measure smaller.** -/
theorem Run.rank_lt (h : Run s₀ s c new) (h342 : hardforkCore342Time < s₀.nextMaintenanceTime)
    (hround : clearRound (s, c) = some (.ok (.inl (s', c')))) : rank (s', c') < rank (s, c) := by
  obtain ⟨id, order, hbound, hcases⟩ := clearRound_next hround
  obtain ⟨hfind, hle, hleast⟩ := lowerBound_spec hbound
  rcases hcases with ⟨s₁, hcancel, hx⟩ | ⟨c₁, i, -, hi, hx⟩ |
    ⟨mia, c₁, c₂, ⟨s₁, settled, finished⟩, hmia, hc₁, hlt, hfin, hc₂, hsettle, hx⟩
  · cases hx
    obtain ⟨hmoves, hnone⟩ := Moves.of_cancel (i := order.settlementAssetId) hcancel
    exact rank_lt_of_card_lt (card_waiting_lt hfind hle (not_mem_waiting hnone) (hmoves.waiting_subset hfind hle hle))
  · cases hx
    refine rank_lt_of_card_lt (card_waiting_lt hfind hle (fun hmem ↦ ?_) fun j hj ↦ ?_)
    · obtain ⟨o, ho, hio⟩ := mem_waiting.1 hmem
      cases hfind.symm.trans ho
      exact absurd hi (not_lt.2 hio)
    · obtain ⟨o, ho, hio⟩ := mem_waiting.1 hj
      exact mem_waiting.2 ⟨o, ho, hle.trans (hi.le.trans hio)⟩
  · cases hx
    have hready := h.ready h342 hbound hmia hc₁ hlt hfin hc₂
    have hasset : order.settlementAssetId = c₂.currentAsset := hready.order order hfind
    obtain ⟨r, hr, hspec⟩ := hready.settleOrder_spec h342
    obtain ⟨hmoves, -, hdone⟩ := hspec s₁ settled finished (Option.some.inj (hr.symm.trans hsettle))
    have hsub := hmoves.waiting_subset hfind hle (hasset ▸ hle)
    cases hrest : s₁.settlements.find? id with
    | none => exact rank_lt_of_card_lt (card_waiting_lt hfind hle (not_mem_waiting hrest) hsub)
    | some o =>
      -- the order is still there: the next round leaves the asset
      refine rank_lt_of_blocked (Finset.card_le_card hsub) ?_ ?_
      · rcases hdone with hnone | hfull | hfinished
        · cases hnone.symm.trans hrest
        · refine .inr ⟨⟨id, o, hrest, hmoves.rest o hrest⟩, hready.asset, { mia with forceSettledVolume := settled }, ?_, hfull⟩
          show (s₁.bitassets.modify c₂.currentAsset _).find? c₂.currentAsset = _
          rw [hmoves.bitassets, FlatMap.find?_modify, if_pos rfl, hready.found]
          rfl
        · exact .inl (by rw [hfinished]; exact Bool.or_true _)
      · rintro (hfinished | ⟨⟨j, obj, hobj, hcurrent⟩, hmax, mia', hmia', hfull⟩)
        · exact Bool.false_ne_true (hready.finished.1.symm.trans hfinished)
        · have heq : c₂.currentAsset = c.currentAsset :=
            hasset.symm.trans (le_antisymm ((hleast j obj hobj hcurrent.ge).trans hcurrent.le) hle)
          rw [← heq, hready.found] at hmia'
          cases hmia'
          rw [hready.old (hmax.trans heq.symm)] at hfull
          exact absurd hready.volume (not_lt.2 hfull)

end Rounds

/-! ### Main results -/

theorem Run.init {s : MarketState} (hcore : s.bitassets.find? coreAsset = none) (i : AssetId) :
    Run s s { currentAsset := i } [] := by
  refine ⟨(List.append_nil _).symm, fun _ ↦ le_rfl, fun j ↦ ?_, fun j ↦ ?_, fun _ _ _ ↦ .inl rfl, fun _ _ _ ↦ rfl,
    fun b hb ↦ ?_, Nat.zero_le _, rfl, fun _ ↦ rfl, fun _ ↦ rfl⟩
  · simp
  · simp
  · cases hcore.symm.trans hb

/-- **A run has an outcome**, and keeps the invariant. -/
theorem clearExpiredSettlements_spec {s : MarketState} (h342 : hardforkCore342Time < s.nextMaintenanceTime)
    (hcore : s.bitassets.find? coreAsset = none) :
    ∃ r, s.clearExpiredSettlements = some r ∧ ∀ s', r = .ok s' → ∃ c new, Run s s' c new := by
  unfold clearExpiredSettlements
  cases hfirst : s.byExpiration.head? with
  | none =>
    refine ⟨_, rfl, fun s' heq ↦ ?_⟩
    cases heq
    exact ⟨_, _, Run.init hcore 0⟩
  | some first =>
    dsimp only
    let I (x : MarketState × SettlementCursor) : Prop := ∃ new, Run s x.1 x.2 new
    have hinit : I (s, { currentAsset := first.2.settlementAssetId }) := ⟨[], Run.init hcore _⟩
    have hrounds : rank (s, { currentAsset := first.2.settlementAssetId }) < s.clearRounds := by
      have hcard := s.card_waiting_le first.2.settlementAssetId
      unfold rank clearRounds
      dsimp only
      split_ifs <;> omega
    obtain ⟨r, hr⟩ := Loop.exists_iterate_eq I rank
      (fun x ⟨_, hx⟩ ↦ exists_clearRound_eq hx h342)
      (fun x x' ⟨_, hx⟩ h ↦ ⟨hx.next h342 h, hx.rank_lt h342 h⟩) hinit hrounds
    refine ⟨r, hr, fun s' heq ↦ ?_⟩
    subst heq
    refine Loop.of_iterate_eq I (fun s' ↦ ∃ c new, Run s s' c new) (fun x x' ⟨_, hx⟩ h ↦ hx.next h342 h) ?_ hinit hr
    rintro ⟨s₁, c⟩ s' ⟨new, hx⟩ h
    obtain rfl := clearRound_end h
    exact ⟨c, new, hx⟩

/-- **Forced settlement respects its limits.** A match moves no more than the settlement, the volume that is left and the debt, takes
no more than the collateral and returns what the supply has decreased by. A run has an outcome; the volume that is settled in an asset
grows by what its matches returned, as they are recorded, and not beyond the limit at the start. -/
theorem forced_settlement_limited {s : MarketState} (h342 : hardforkCore342Time < s.nextMaintenanceTime) :
    (∀ call settle callOrder order matchPrice maxSettlement fillPrice returned s',
      s.callOrders.find? call = some callOrder → s.settlements.find? settle = some order → ValidPrice matchPrice →
      0 < maxSettlement.amount →
      s.matchSettlement call settle matchPrice maxSettlement fillPrice = .ok (returned, s') →
      returned.assetId = order.settlementAssetId ∧
        Settles s s' call settle callOrder order maxSettlement.amount returned.amount) ∧
    (s.bitassets.find? coreAsset = none → ∃ r, s.clearExpiredSettlements = some r ∧
      ∀ s', r = .ok s' → ∃ new, s'.fills = s.fills ++ new ∧
        ∀ i b, s.bitassets.find? i = some b → ∃ b', s'.bitassets.find? i = some b' ∧
          0 ≤ settledIn i new ∧ b'.forceSettledVolume = b.forceSettledVolume + settledIn i new ∧
          s'.supply i = (s.supply i).map (fun x ↦ x - settledIn i new) ∧
          (settledIn i new = 0 ∨
            ∃ x, s.supply i = some x ∧ b'.forceSettledVolume ≤ b.maxForceSettlementVolume x)) := by
  constructor
  · intro call settle callOrder order matchPrice maxSettlement fillPrice returned s' hfind horder hp hmax h
    exact matchSettlement_spec hfind horder h342 (fun heq ↦ absurd heq hp.assets) hmax h
  · intro hcore
    obtain ⟨r, hr, hrun⟩ := clearExpiredSettlements_spec h342 hcore
    refine ⟨r, hr, fun s' heq ↦ ?_⟩
    obtain ⟨c, new, h⟩ := hrun s' heq
    refine ⟨new, h.fills, fun i b hb ↦ ?_⟩
    refine ⟨{ b with forceSettledVolume := b.forceSettledVolume + settledIn i new }, ?_, h.nonneg i, rfl, h.supply i,
      h.limit i b hb⟩
    rw [h.volume, hb]
    rfl

/-- A settlement of sixty units of an asset with a supply of hundred, half of which may be settled. -/
def settlementExample : MarketState where
  headBlockTime := 1600000000
  nextMaintenanceTime := 1600003600
  assets := ((∅ : FlatMap AssetId TradedAsset).insert 0 {}).insert 1 {}
  statistics := (∅ : FlatMap AccountId TradingStatistics).insert 20 {}
  dynamicData := ((∅ : FlatMap AssetId AssetDynamicData).insert 0 {}).insert 1 { currentSupply := 100 }
  bitassets := (∅ : FlatMap AssetId BitassetDataObject).insert 1
    { maximumForceSettlementVolume := 5000, currentFeedSettlementPrice := ⟨⟨3, 1⟩, ⟨2, 0⟩⟩ }
  callOrders := (∅ : ObjectIndex CallOrderObject).create ⟨20, 200, 100, ⟨⟨1, 0⟩, ⟨1, 1⟩⟩, none⟩
  settlements := (∅ : ObjectIndex ForceSettlementObject).create ⟨21, ⟨60, 1⟩, 1599999999⟩

/-- Fifty units are settled, for thirty-three units of the collateral. -/
theorem forced_settlement_example : ∃ s' b', settlementExample.clearExpiredSettlements = some (.ok s') ∧
    s'.bitassets.find? 1 = some b' ∧ b'.forceSettledVolume = settledIn 1 s'.fills ∧ b'.forceSettledVolume = 50 := by
  have hok : settlementExample.clearExpiredSettlements.map (Except.map fun s' ↦
      (s'.bitassets.find? 1).map (·.forceSettledVolume)) = some (.ok (some 50)) := by
    decide
  obtain ⟨r, hr, hrun⟩ := (forced_settlement_limited (s := settlementExample) (by decide)).2 rfl
  rw [hr] at hok
  rcases r with e | s'
  · cases hok
  obtain ⟨new, hfills, hassets⟩ := hrun s' rfl
  obtain ⟨b', hb', -, hvolume, -, -⟩ := hassets 1 _ rfl
  refine ⟨s', b', hr, hb', ?_, ?_⟩
  · rw [hfills, hvolume]
    exact zero_add _
  · replace hok : (s'.bitassets.find? 1).map (·.forceSettledVolume) = some 50 := Except.ok.inj (Option.some.inj hok)
    rw [hb'] at hok
    exact Option.some.inj hok

end MarketState

end Playchain
