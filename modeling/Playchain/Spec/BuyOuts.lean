import Playchain.Spec.VoteContent

/-!
# Serving pending buy-outs

At the end of a game each pending buy-out of the table is paid from the result, then from the cash at
the table, then from the cash in the game. What leaves the result, the table and the game arrives on
the account; the rest of the request is dropped. The stakes of the players of the result stay as they
are, so the result still balances, up to what was paid out of it.

A pending buy-out in another asset than the core asset makes the comparison of amounts fail: this is
the only way in which serving buy-outs fails.
-/

namespace Playchain

open Finsupp (single)

variable {mode : Mode} {d : Database} {E : ChainError → Prop}

/-! ### Amounts -/

section Amounts

variable {a b : Asset}

theorem Asset.sub_of_eq (h : a.assetId = b.assetId) :
    a.sub b = .ok ⟨a.amount - b.amount, a.assetId⟩ := by
  rw [Asset.sub, Asset.sameAsset, fcAssert_of_true h]
  rfl

/-- The smaller of two amounts, subtracted from the second: what is taken, and what is left. -/
theorem Asset.min_ensures (h : a.assetId ≠ b.assetId → ∀ text, E (.assertion text)) :
    (a.min b).Ensures E fun c ↦
      a.assetId = b.assetId ∧ c = ⟨Min.min a.amount b.amount, b.assetId⟩ := by
  rw [Asset.min, Asset.lt, Asset.sameAsset]
  refine Except.Ensures.bind (Q := fun r ↦ a.assetId = b.assetId ∧ r = decide (b.amount < a.amount))
    (.bind (fcAssert_ensures fun hne ↦ h fun heq ↦ hne heq.symm) fun _ heq ↦
      .pure ⟨heq.symm, rfl⟩) ?_
  rintro r ⟨heq, rfl⟩
  refine .pure ⟨heq, ?_⟩
  by_cases hlt : b.amount < a.amount
  · simp only [hlt, decide_true, if_true, min_eq_right hlt.le]
  · rw [min_eq_left (not_lt.1 hlt), ← heq]
    simp [hlt]

theorem Asset.value_sub (a b : Asset) (h : a.assetId = b.assetId) :
    (⟨a.amount - b.amount, a.assetId⟩ : Asset).value = a.value - b.value := by
  rw [Asset.value, Asset.value, Asset.value, ← h, Finsupp.single_sub]

end Amounts

/-! ### Results from which cash is paid -/

/-- What a result gives to the players. -/
noncomputable def GameResult.payout (r : GameResult) : AssetId →₀ ℤ :=
  r.cash.sum fun _ g ↦ g.cash.value

/-- The cash of the result is in order. -/
def PayoutOk (r : GameResult) : Prop :=
  ∀ a g, r.cash.find? a = some g → 0 ≤ g.cash.amount ∧ g.cash.assetId = coreAsset

/-- The results differ in the players' cash only. -/
def SameRakes (r r' : GameResult) : Prop :=
  ∀ a, (r'.cash.find? a).map GamerCashResult.rake = (r.cash.find? a).map GamerCashResult.rake

theorem SameRakes.contains {r r' : GameResult} (h : SameRakes r r') (a : AccountId) :
    r'.cash.contains a = r.cash.contains a := by
  have := congrArg Option.isSome (h a)
  simpa [FlatMap.contains] using this

/-- What depends on the accounts of a result and on their rakes only is the same. -/
theorem SameRakes.sum_eq {M : Type} [AddCommMonoid M] {r r' : GameResult} (h : SameRakes r r')
    (f : AccountId → Asset → M) :
    (r'.cash.sum fun a g ↦ f a g.rake) = r.cash.sum fun a g ↦ f a g.rake := by
  have hkeys : r'.cash.keys = r.cash.keys := by
    ext a
    rw [← FlatMap.contains_iff, h.contains, FlatMap.contains_iff]
  rw [FlatMap.sum_eq_finset_sum, FlatMap.sum_eq_finset_sum, hkeys]
  refine Finset.sum_congr rfl fun a _ ↦ ?_
  have hmap : ∀ x : Option GamerCashResult,
      (x.elim 0 fun g ↦ f a g.rake) = (x.map GamerCashResult.rake).elim 0 (f a) := by
    intro x
    cases x <;> rfl
  rw [hmap, hmap, h a]

/-- Part of a pending buy-out is paid: what is left of it, and what was taken. -/
structure Paid (rest rest' : Asset) (taken : AssetId →₀ ℤ) : Prop where
  assetId : rest'.assetId = rest.assetId
  nonneg : 0 ≤ rest'.amount
  le : rest'.amount ≤ rest.amount
  value : rest'.value = rest.value - taken

theorem Paid.refl {rest : Asset} (h : 0 ≤ rest.amount) : Paid rest rest 0 :=
  ⟨rfl, h, le_rfl, (sub_zero _).symm⟩

theorem Paid.trans {rest rest' rest'' : Asset} {x y : AssetId →₀ ℤ} (h : Paid rest rest' x)
    (h' : Paid rest' rest'' y) : Paid rest rest'' (x + y) :=
  ⟨h'.assetId.trans h.assetId, h'.nonneg, h'.le.trans h.le, by rw [h'.value, h.value]; abel⟩

/-- Taking the smaller of what is available and what is left to pay. -/
theorem paid_min {available rest : Asset} (hav : 0 ≤ available.amount) (hrest : 0 ≤ rest.amount) :
    Paid rest ⟨rest.amount - min available.amount rest.amount, rest.assetId⟩
      (⟨min available.amount rest.amount, rest.assetId⟩ : Asset).value := by
  refine ⟨rfl, ?_, ?_, ?_⟩
  · show 0 ≤ rest.amount - min available.amount rest.amount
    have := min_le_right available.amount rest.amount
    omega
  · show rest.amount - min available.amount rest.amount ≤ rest.amount
    have := le_min hav hrest
    omega
  · exact Asset.value_sub rest ⟨min available.amount rest.amount, rest.assetId⟩ rfl

theorem resolveFromResult_ensures {account : AccountId} {rest : Asset} {r : GameResult}
    (hr : PayoutOk r) (hrest : 0 ≤ rest.amount)
    (hE : rest.assetId ≠ coreAsset → ∀ text, E (.assertion text)) :
    (resolveFromResult account rest r).Ensures E fun s ↦
      Paid rest s.1 (r.payout - s.2.payout) ∧ PayoutOk s.2 ∧ SameRakes r s.2 := by
  rw [resolveFromResult]
  rcases hg : r.cash.find? account with - | g
  · exact .pure ⟨by rw [sub_self]; exact .refl hrest, hr, fun _ ↦ rfl⟩
  obtain ⟨hnonneg, hcore⟩ := hr account g hg
  refine (Asset.min_ensures fun hne ↦ hE fun heq ↦ hne (hcore.trans heq.symm)).bind ?_
  rintro cash ⟨heq, rfl⟩
  rw [Asset.sub_of_eq (a := rest) (b := ⟨min g.cash.amount rest.amount, rest.assetId⟩) rfl, Except.ok_bind,
    Asset.sub_of_eq (a := g.cash) (b := ⟨min g.cash.amount rest.amount, rest.assetId⟩) heq, Except.ok_bind]
  have hle : min g.cash.amount rest.amount ≤ g.cash.amount := min_le_left _ _
  refine .pure ⟨?_, fun a g' ha ↦ ?_, fun a ↦ ?_⟩
  · have hpay : ∀ g' : GamerCashResult, (⟨r.cash.insert account g', r.log⟩ : GameResult).payout =
        r.payout - g.cash.value + g'.cash.value := by
      intro g'
      rw [GameResult.payout, GameResult.payout, FlatMap.sum_insert, FlatMap.sum_eq_add_erase _ hg]
      abel
    rw [hpay, Asset.value_sub g.cash ⟨min g.cash.amount rest.amount, rest.assetId⟩ heq]
    convert paid_min hnonneg hrest using 1
    abel
  · simp only [FlatMap.find?_insert] at ha
    split_ifs at ha
    · obtain rfl := Option.some.inj ha
      refine ⟨?_, hcore⟩
      show 0 ≤ g.cash.amount - min g.cash.amount rest.amount
      omega
    · exact hr a g' ha
  · simp only [FlatMap.find?_insert]
    split_ifs with ha
    · rw [ha, hg]
      rfl
    · rfl

/-! ### One pending buy-out -/

theorem resolveFromCash_ensures (h : WellFormed mode d) {table : TableId} {t : TableObject}
    {p : PlayerId} {rest : Asset} (ht : d.tables.find? table = some t) (hp : d.players.Has p)
    (hrest : 0 ≤ rest.amount) (hE : rest.assetId ≠ coreAsset → ∀ text, E (.assertion text)) :
    (resolveFromCash d table p rest).Ensures E fun s ↦
      ∃ x t', Paid rest s.1 x ∧ Transfer mode (· = table) d s.2 (-x) ∧
        s.2 = { d with tables := s.2.tables } ∧ s.2.tables.find? table = some t' ∧
        t'.playingCash = t.playingCash := by
  have hok := h.tables table t ht
  rw [resolveFromCash, tableById_of_find? ht, Except.ok_bind]
  have hnothing : ∃ x t', Paid rest rest x ∧ Transfer mode (· = table) d d (-x) ∧
      d = { d with tables := d.tables } ∧ d.tables.find? table = some t' ∧
      t'.playingCash = t.playingCash :=
    ⟨0, t, .refl hrest, by rw [neg_zero]; exact .refl h, rfl, ht, rfl⟩
  rcases hc : t.cash.find? p with - | available
  · exact .pure hnothing
  obtain ⟨hpos, hcore⟩ := hok.cashes.cash p available hc
  simp only
  split_ifs
  · refine (Asset.min_ensures fun hne ↦ hE fun heq ↦ hne (hcore.trans heq.symm)).bind ?_
    rintro _ ⟨heq, rfl⟩
    let cash : Asset := ⟨min available.amount rest.amount, rest.assetId⟩
    rw [Asset.sub_of_eq (a := rest) (b := cash) rfl, Except.ok_bind]
    have henough : 0 ≤ held t.cash p + (-cash).amount := by
      rw [held_of_find?_some hc, Asset.neg_amount]
      have := min_le_left available.amount rest.amount
      show 0 ≤ available.amount + -min available.amount rest.amount
      omega
    have hout : 0 < (-cash).amount → mode.unregistered table p := by
      rw [Asset.neg_amount]
      have := le_min hpos.le hrest
      show 0 < -min available.amount rest.amount → _
      omega
    refine (h.modifyCash (· = table) ht hp henough hout
      fun hne ↦ absurd (heq.symm.trans hcore) hne).bind ?_
    rintro _ ⟨t', rfl, -, -, hplay, htr⟩
    refine .pure ⟨cash.value, t', paid_min hpos.le hrest, ?_, rfl, ?_, hplay⟩
    · rw [← Asset.value_neg]
      exact htr
    · exact ObjectIndex.find?_set_self ht t'
  · exact .pure hnothing

theorem resolveFromPlayingCash_ensures (h : WellFormed mode d) {table : TableId} {t : TableObject}
    {p : PlayerId} {rest : Asset} (inResult : Bool) (ht : d.tables.find? table = some t)
    (hend : mode.ending table) (hp : d.players.Has p) (hrest : 0 ≤ rest.amount)
    (hE : rest.assetId ≠ coreAsset → ∀ text, E (.assertion text)) :
    (resolveFromPlayingCash d table p rest inResult).Ensures E fun s ↦
      ∃ x t', Paid rest s.1 x ∧ Transfer mode (· = table) d s.2 (-x) ∧
        s.2 = { d with tables := s.2.tables } ∧ s.2.tables.find? table = some t' ∧
        ∀ q, q ≠ p ∨ inResult = true → held t'.playingCash q = held t.playingCash q := by
  have hok := h.tables table t ht
  rw [resolveFromPlayingCash, tableById_of_find? ht, Except.ok_bind]
  have hnothing : ∃ x t', Paid rest rest x ∧ Transfer mode (· = table) d d (-x) ∧
      d = { d with tables := d.tables } ∧ d.tables.find? table = some t' ∧
      ∀ q, q ≠ p ∨ inResult = true → held t'.playingCash q = held t.playingCash q :=
    ⟨0, t, .refl hrest, by rw [neg_zero]; exact .refl h, rfl, ht, fun _ _ ↦ rfl⟩
  rcases hc : t.playingCash.find? p with - | available
  · exact .pure hnothing
  obtain ⟨hpos, hcore⟩ := hok.cashes.playingCash p available hc
  simp only
  split_ifs with hcond
  · refine (Asset.min_ensures fun hne ↦ hE fun heq ↦ hne (hcore.trans heq.symm)).bind ?_
    rintro _ ⟨heq, rfl⟩
    let cash : Asset := ⟨min available.amount rest.amount, rest.assetId⟩
    rw [Asset.sub_of_eq (a := rest) (b := cash) rfl, Except.ok_bind]
    have henough : 0 ≤ held t.playingCash p + (-cash).amount := by
      rw [held_of_find?_some hc, Asset.neg_amount]
      have := min_le_left available.amount rest.amount
      show 0 ≤ available.amount + -min available.amount rest.amount
      omega
    have hout : (-cash).amount ≤ 0 := by
      rw [Asset.neg_amount]
      have := le_min hpos.le hrest
      show -min available.amount rest.amount ≤ 0
      omega
    refine (h.modifyPlayingCash (· = table) ht rfl hend hp henough hout
      fun hne ↦ absurd (heq.symm.trans hcore) hne).bind ?_
    rintro _ ⟨t', rfl, -, hheld, -, htr⟩
    refine .pure ⟨cash.value, t', paid_min hpos.le hrest, ?_, rfl, ?_, ?_⟩
    · rw [← Asset.value_neg]
      exact htr
    · exact ObjectIndex.find?_set_self ht t'
    · intro q hq
      rcases hq with hq | hq
      · rw [hheld, Finsupp.add_apply, Finsupp.single_eq_of_ne hq, add_zero]
      · rw [hq] at hcond
        exact absurd hcond.2 (by decide)
  · exact .pure hnothing

/-- What serving buy-outs has done so far: the money that left the result, the table and the game is
on the accounts, the stakes of the players of the result are unchanged. -/
structure Served (mode : Mode) (table : TableId) (r₀ : GameResult) (d₀ : Database)
    (s : Database × GameResult) : Prop where
  transfer : Transfer mode (· = table) d₀ s.1 (r₀.payout - s.2.payout)
  payout : PayoutOk s.2
  rakes : SameRakes r₀ s.2
  votings : s.1.tableVotings = d₀.tableVotings
  rooms : s.1.rooms = d₀.rooms
  players : s.1.players = d₀.players
  stakes : ∀ t₀, d₀.tables.find? table = some t₀ → ∃ t, s.1.tables.find? table = some t ∧
    ∀ a p obj, r₀.cash.contains a = true → d₀.players.findKey? a = some (p, obj) →
      held t.playingCash p = held t₀.playingCash p

theorem Served.refl {table : TableId} {r : GameResult} (h : WellFormed mode d) (hr : PayoutOk r) :
    Served mode table r d (d, r) where
  transfer := (Transfer.refl h).congr (sub_self _).symm
  payout := hr
  rakes _ := rfl
  votings := rfl
  rooms := rfl
  players := rfl
  stakes t₀ ht₀ := ⟨t₀, ht₀, fun _ _ _ _ _ ↦ rfl⟩

/-- A turn of the loop: money leaves the result `s.2` for the accounts, and the players of the result
keep their stakes. -/
theorem Served.step {table : TableId} {r₀ r' : GameResult} {s : Database × GameResult} {d' : Database}
    {t : TableObject} (t' : TableObject) (hs : Served mode table r₀ d s)
    (htr : Transfer mode (· = table) s.1 d' (s.2.payout - r'.payout)) (hr' : PayoutOk r')
    (hrakes : SameRakes s.2 r') (hvotings : d'.tableVotings = s.1.tableVotings)
    (hrooms : d'.rooms = s.1.rooms) (hplayers : d'.players = s.1.players)
    (ht : s.1.tables.find? table = some t) (ht' : d'.tables.find? table = some t')
    (hstakes : ∀ a p obj, r₀.cash.contains a = true → d.players.findKey? a = some (p, obj) →
      held t'.playingCash p = held t.playingCash p) :
    Served mode table r₀ d (d', r') where
  transfer := (hs.transfer.trans htr).congr (sub_add_sub_cancel _ _ _)
  payout := hr'
  rakes a := (hrakes a).trans (hs.rakes a)
  votings := hvotings.trans hs.votings
  rooms := hrooms.trans hs.rooms
  players := hplayers.trans hs.players
  stakes t₀ ht₀ := by
    obtain ⟨u, hu, hstakes₀⟩ := hs.stakes t₀ ht₀
    obtain rfl := Option.some.inj (hu.symm.trans ht)
    refine ⟨t', ht', fun a p obj ha hp ↦ ?_⟩
    rw [hstakes a p obj ha hp, hstakes₀ a p obj ha hp]

/-- **One pending buy-out is served.** -/
theorem resolvePendingBuyOut_ensures {table : TableId} {owner : AccountId} {r₀ : GameResult}
    {s : Database × GameResult} (hs : Served mode table r₀ d s) (htable : d.tables.Has table)
    (hend : mode.ending table) {p : ℕ × PendingBuyOutObject} (hp : d.pendingBuyOuts.find? p.1 = some p.2)
    (hd : WellFormed mode d) (hE : ¬mode.core → ∀ text, E (.assertion text)) :
    (resolvePendingBuyOut table owner s p).Ensures E fun s' ↦
      Served mode table r₀ d s' ∧ s'.1.pendingBuyOuts = s.1.pendingBuyOuts.remove p.1 := by
  obtain ⟨hpos, ⟨player, hplayer⟩, hcore⟩ := hd.pendingBuyOuts p.1 p.2 hp
  obtain ⟨t₀, ht₀⟩ := htable
  obtain ⟨t, ht, hstakes⟩ := hs.stakes t₀ ht₀
  have hplayer₁ : s.1.players.find? p.2.player = some player := by
    rw [hs.players]
    exact hplayer
  have hasset : p.2.amount.assetId ≠ coreAsset → ∀ text, E (.assertion text) :=
    fun hne ↦ hE fun hsafe ↦ hne (hcore hsafe)
  rw [resolvePendingBuyOut, playerById_of_find? hplayer₁, Except.ok_bind]
  refine (resolveFromResult_ensures hs.payout hpos.le hasset).bind ?_
  rintro ⟨rest₁, r₁⟩ ⟨hpaid₁, hpayout₁, hrakes₁⟩
  dsimp only at hpaid₁ hpayout₁ hrakes₁ ⊢
  rw [← hpaid₁.assetId] at hasset
  refine (resolveFromCash_ensures hs.transfer.wf ht ⟨player, hplayer₁⟩ hpaid₁.nonneg hasset).bind ?_
  rintro ⟨rest₂, d₂⟩ ⟨x₂, t₂, hpaid₂, htr₂, heq₂, ht₂, hplay₂⟩
  dsimp only at hpaid₂ htr₂ heq₂ ht₂ ⊢
  rw [← hpaid₂.assetId] at hasset
  have hplayer₂ : d₂.players.find? p.2.player = some player := by
    rw [heq₂]
    exact hplayer₁
  refine (resolveFromPlayingCash_ensures htr₂.wf _ ht₂ hend ⟨player, hplayer₂⟩ hpaid₂.nonneg
    hasset).bind ?_
  rintro ⟨rest₃, d₃⟩ ⟨x₃, t₃, hpaid₃, htr₃, heq₃, ht₃, hplay₃⟩
  dsimp only at hpaid₃ htr₃ heq₃ ht₃ ⊢
  have hpaid := (hpaid₁.trans hpaid₂).trans hpaid₃
  rw [Asset.sub_of_eq hpaid.assetId.symm, Except.ok_bind]
  have hallowed : (⟨p.2.amount.amount - rest₃.amount, p.2.amount.assetId⟩ : Asset).value =
      s.2.payout - r₁.payout + x₂ + x₃ := by
    rw [Asset.value_sub _ _ hpaid.assetId.symm, hpaid.value]
    abel
  -- what was taken arrives on the account
  refine Except.Ensures.bind (Q := fun d₄ ↦ Transfer mode (· = table) s.1 d₄
    (s.2.payout - r₁.payout) ∧ d₄.tables = d₃.tables ∧ d₄.players = d₃.players ∧
      d₄.rooms = d₃.rooms ∧ d₄.tableVotings = d₃.tableVotings ∧
      d₄.pendingBuyOuts = d₃.pendingBuyOuts) ?_ ?_
  · by_cases hzero : 0 < p.2.amount.amount - rest₃.amount
    · rw [if_pos (show 0 < (⟨p.2.amount.amount - rest₃.amount, p.2.amount.assetId⟩ : Asset).amount
        from hzero)]
      refine (adjustBalance_ensures _ _ _ fun hneg ↦ absurd hneg hzero.le.not_gt).bind ?_
      rintro _ ⟨b, rfl, hb⟩
      refine .pure ⟨?_, rfl, rfl, rfl, rfl, rfl⟩
      have htr₄ : Transfer mode (· = table) _ _ _ := htr₃.wf.setBalances hb
      refine ((htr₂.trans htr₃).trans (htr₄.trans (htr₄.wf.log _))).congr ?_
      rw [hallowed]
      abel
    · rw [if_neg (show ¬0 < (⟨p.2.amount.amount - rest₃.amount, p.2.amount.assetId⟩ : Asset).amount
        from hzero)]
      refine .pure ⟨(htr₂.trans htr₃).congr ?_, rfl, rfl, rfl, rfl, rfl⟩
      have hle := hpaid.le
      rw [Asset.value_of_zero (a := ⟨p.2.amount.amount - rest₃.amount, p.2.amount.assetId⟩)
        (le_antisymm (not_lt.1 hzero) (by show 0 ≤ p.2.amount.amount - rest₃.amount; omega))]
        at hallowed
      rw [eq_comm, ← sub_eq_zero, hallowed]
      abel
  rintro d₄ ⟨htr₄, htables, hplayers, hrooms, hvotings, hbuyOuts⟩
  have hlog : ∀ e : GameEvent, ∃ d₅, d₅ = (if 0 < rest₃.amount then
      d₄.pushGameEvent table owner e else d₄) ∧ d₅.tables = d₄.tables ∧ d₅.players = d₄.players ∧
      d₅.rooms = d₄.rooms ∧ d₅.tableVotings = d₄.tableVotings ∧
      d₅.pendingBuyOuts = d₄.pendingBuyOuts ∧
      Transfer mode (· = table) s.1 d₅ (s.2.payout - r₁.payout) := by
    intro e
    refine ⟨_, rfl, ?_⟩
    split_ifs
    · exact ⟨rfl, rfl, rfl, rfl, rfl, (htr₄.trans (htr₄.wf.log _)).congr (add_zero _)⟩
    · exact ⟨rfl, rfl, rfl, rfl, rfl, htr₄⟩
  obtain ⟨d₅, hd₅, htables₅, hplayers₅, hrooms₅, hvotings₅, hbuyOuts₅, htr₅⟩ := hlog
    (.fraudBuyOut player.account rest₃ ⟨p.2.amount.amount - rest₃.amount, p.2.amount.assetId⟩)
  rw [← hd₅]
  have hbuyOuts' : d₅.pendingBuyOuts = s.1.pendingBuyOuts := by
    rw [hbuyOuts₅, hbuyOuts, heq₃, heq₂]
  refine .pure ⟨hs.step t₃ ((htr₅.trans (htr₅.wf.removePendingBuyOut p.1)).congr (add_zero _)) hpayout₁
    hrakes₁ ?_ ?_ ?_ ht ?_ ?_, by rw [← hbuyOuts']⟩
  · rw [← hvotings.trans (show d₃.tableVotings = s.1.tableVotings by rw [heq₃, heq₂]), ← hvotings₅]
  · rw [← hrooms.trans (show d₃.rooms = s.1.rooms by rw [heq₃, heq₂]), ← hrooms₅]
  · rw [← hplayers.trans (show d₃.players = s.1.players by rw [heq₃, heq₂]), ← hplayers₅]
  · show d₅.tables.find? table = some t₃
    rw [htables₅, htables, ht₃]
  · intro a q obj ha hq
    rw [hplay₃ q ?_, hplay₂]
    by_cases hqp : q = p.2.player
    · refine Or.inr ?_
      obtain ⟨hq', rfl⟩ := UniqueIndex.findKey?_eq_some_iff.1 hq
      change d.players.find? q = some obj at hq'
      rw [hqp, hplayer] at hq'
      obtain rfl := Option.some.inj hq'
      rw [hrakes₁.contains, hs.rakes.contains]
      exact ha
    · exact Or.inl hqp

/-- **Serving the pending buy-outs of a table.** None of them is left. -/
theorem pendingBuyoutsResolve_ensures {table : TableId} (owner : AccountId) {r : GameResult}
    (hd : WellFormed mode d) (htable : d.tables.Has table) (hend : mode.ending table)
    (hr : PayoutOk r) (hE : ¬mode.core → ∀ text, E (.assertion text)) :
    (pendingBuyoutsResolve d table owner r).Ensures E fun s ↦ Served mode table r d s ∧
      ∀ i b, s.1.pendingBuyOuts.find? i = some b → b.table ≠ table := by
  let I (l : List (ℕ × PendingBuyOutObject)) (s : Database × GameResult) : Prop :=
    Served mode table r d s ∧ (∀ p ∈ l, d.pendingBuyOuts.find? p.1 = some p.2) ∧
      ∀ i b, s.1.pendingBuyOuts.find? i = some b → b.table = table → (i, b) ∈ l
  refine (Except.Ensures.foldlM_suffix I ?_ ⟨.refl hd hr, fun p hp ↦ ?_, fun i b hb hbt ↦ ?_⟩).mono ?_
  · rintro p l s ⟨hs, hl, hleft⟩
    refine (resolvePendingBuyOut_ensures hs htable hend (hl p List.mem_cons_self) hd hE).mono ?_
    rintro s' ⟨hs', hbuyOuts⟩
    refine ⟨hs', fun q hq ↦ hl q (List.mem_cons_of_mem _ hq), fun i b hb hbt ↦ ?_⟩
    rw [hbuyOuts] at hb
    obtain ⟨hne, hb⟩ := ObjectIndex.find?_of_find?_remove hb
    rcases List.mem_cons.1 (hleft i b hb hbt) with heq | hmem
    · exact absurd (congrArg Prod.fst heq) hne
    · exact hmem
  · exact ObjectIndex.find?_eq_some_iff.2 (List.mem_filter.1 hp).1
  · exact List.mem_filter.2 ⟨ObjectIndex.find?_eq_some_iff.1 hb, decide_eq_true hbt⟩
  · rintro s ⟨hs, -, hleft⟩
    exact ⟨hs, fun i b hb hbt ↦ absurd (hleft i b hb hbt) (by simp)⟩

end Playchain
