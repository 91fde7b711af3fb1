import Playchain.Spec.Transfer

/-!
# Money entering and leaving a table

The operations on stays, reservations, buy-ins and buy-outs are transfers that change no total: what
leaves an account arrives at a table or in a reservation, and the other way round.
-/

namespace Playchain

open Finsupp (single single_neg)

variable {mode : Mode} (busy : TableId → Prop) {d : Database} {E : ChainError → Prop}

/-! ### Signs of life -/

theorem setWeight_ensures (h : WellFormed mode d) {id : TableId} (hid : d.tables.Has id) :
    (setWeight d id).Ensures E fun d' ↦ Transfer mode busy d d' 0 := by
  obtain ⟨t, ht⟩ := hid
  obtain ⟨r, hr⟩ := (h.tables id t ht).room
  rw [setWeight, tableById_of_find? ht, Except.ok_bind,
    if_pos ((show hardforkPlaychain2Time ≤ hardforkPlaychain10Time by decide).trans h.time),
    roomById_of_find? hr, Except.ok_bind]
  split_ifs
  · exact .pure (h.setWeight ht _)
  · exact .pure (h.setWeight ht _)

theorem aliveForTable_ensures (h : WellFormed mode d) {id : TableId} (hid : d.tables.Has id) :
    (aliveForTable d id).Ensures E fun d' ↦ Transfer mode busy d d' 0 := by
  obtain ⟨t, ht⟩ := hid
  rw [aliveForTable, tableById_of_find? ht, Except.ok_bind]
  rcases ha : d.tableAlives.findKey? id with - | alive
  · refine (create?_ensures fun hn ↦ absurd ha hn).bind fun alives ⟨_, halives⟩ ↦ ?_
    have hstep : Transfer mode busy d { d with tableAlives := alives } 0 := by
      refine h.setTableAlives fun j a hj ↦ ?_
      rw [halives, ObjectIndex.find?_create] at hj
      split_ifs at hj
      · obtain rfl := Option.some.inj hj
        exact ⟨t, ht⟩
      · exact h.tableAlives j a hj
    exact (setWeight_ensures busy hstep.wf ⟨t, ht⟩).mono fun _ h' ↦ hstep.trans_zero h'
  · have hstep : Transfer mode busy d { d with
        tableAlives := d.tableAlives.modify alive.1 fun a ↦ { a with
          expiration := TimePointSec.addSeconds d.headBlockTime
            d.parameters.tableAliveExpirationSeconds } } 0 := by
      refine h.setTableAlives fun j a hj ↦ ?_
      rw [UniqueIndex.toObjectIndex_modify, ObjectIndex.find?_modify] at hj
      split_ifs at hj
      · obtain ⟨b, hb, rfl⟩ := Option.map_eq_some_iff.1 hj
        exact h.tableAlives j b hb
      · exact h.tableAlives j a hj
    exact (setWeight_ensures busy hstep.wf ⟨t, ht⟩).mono fun _ h' ↦ hstep.trans_zero h'

/-! ### Stays -/

/-- Stays keep their table and their player. -/
def SameStays (d d' : Database) : Prop :=
  ∀ i b', d'.buyIns.find? i = some b' →
    ∃ b, d.buyIns.find? i = some b ∧ b.table = b'.table ∧ b.player = b'.player

theorem SameStays.of_eq {d' : Database} (h : d'.buyIns = d.buyIns) : SameStays d d' :=
  fun _ b hb ↦ ⟨b, h ▸ hb, rfl, rfl⟩

theorem SameStays.trans {d' d'' : Database} (h : SameStays d d') (h' : SameStays d' d'') :
    SameStays d d'' := by
  intro i b'' hb''
  obtain ⟨b', hb', ht', hp'⟩ := h' i b'' hb''
  obtain ⟨b, hb, ht, hp⟩ := h i b' hb'
  exact ⟨b, hb, ht.trans ht', hp.trans hp'⟩

theorem SameStays.prolong (d : Database) (id : ℕ) : SameStays d (prolongLifeForByIn d id) := by
  intro i b' hb'
  change (d.buyIns.toObjectIndex.modify id _).find? i = some b' at hb'
  rw [ObjectIndex.find?_modify] at hb'
  split_ifs at hb'
  · obtain ⟨b, hb, rfl⟩ := Option.map_eq_some_iff.1 hb'
    exact ⟨b, hb, rfl, rfl⟩
  · exact ⟨b', hb', rfl, rfl⟩

theorem keeps_prolong (d : Database) (id : ℕ) :
    ObjectIndex.Keeps (fun b : BuyInObject ↦ (b.table, b.player)) d.buyIns.toObjectIndex
      (prolongLifeForByIn d id).buyIns.toObjectIndex := by
  intro i b hb
  change ∃ b', (d.buyIns.toObjectIndex.modify id _).find? i = some b' ∧ _
  rw [ObjectIndex.find?_modify, hb]
  split_ifs
  · exact ⟨_, rfl, rfl⟩
  · exact ⟨b, rfl, rfl⟩

theorem SameStays.remove (d : Database) (id : ℕ) :
    SameStays d { d with buyIns := d.buyIns.remove id } :=
  fun _ b hb ↦ ⟨b, (ObjectIndex.find?_of_find?_remove hb).2, rfl, rfl⟩

theorem WellFormed.prolong {busy : TableId → Prop} (h : WellFormed mode d) (id : ℕ) :
    Transfer mode busy d (prolongLifeForByIn d id) 0 := by
  refine h.setBuyIns (fun j b hj ↦ ?_) fun _ _ _ _ _ ↦
    UniqueIndex.findKey?_ne_none_of_keeps (keeps_prolong d id)
  obtain ⟨b', hb', ht, hp⟩ := SameStays.prolong d id j b hj
  rw [← ht, ← hp]
  exact h.buyIns j b' hb'

/-- Registering a player, whose money may have just arrived. -/
theorem registerBuyIn_ensures {p : PlayerId} {id : TableId}
    (h : WellFormed (mode.withArrival id p) d) (hp : d.players.Has p) (hid : d.tables.Has id) :
    (registerBuyIn d p id).Ensures E fun d' ↦ Transfer mode busy d d' 0 := by
  rw [registerBuyIn]
  rcases hb : d.buyIns.findKey? (id, p) with - | b
  · refine (create?_ensures fun hn ↦ absurd hb hn).bind fun buyIns ⟨_, hbuyIns⟩ ↦ .pure ?_
    have htr : Transfer (mode.withArrival id p) busy d { d with buyIns := buyIns } 0 := by
      refine h.setBuyIns (fun j b' hj ↦ ?_) fun _ _ _ _ _ ↦
        UniqueIndex.findKey?_ne_none_of_keeps (hbuyIns ▸ .create _ _ _)
      rw [hbuyIns, ObjectIndex.find?_create] at hj
      split_ifs at hj
      · obtain rfl := Option.some.inj hj
        exact ⟨hp, hid⟩
      · exact h.buyIns j b' hj
    have hnew : buyIns.findKey? (id, p) ≠ none := by
      rw [UniqueIndex.findKey?_of_create hbuyIns]
      exact Option.some_ne_none _
    exact ⟨htr.wf.arrived hnew, htr.frame, htr.total⟩
  · have htr : Transfer _ busy d _ 0 := h.prolong b.1
    refine .pure ⟨htr.wf.arrived ?_, htr.frame, htr.total⟩
    refine UniqueIndex.findKey?_ne_none_of_keeps (keeps_prolong d b.1) ?_
    rw [hb]
    exact Option.some_ne_none _

theorem registerBuyInAlive_ensures {p : PlayerId} {id : TableId}
    (h : WellFormed (mode.withArrival id p) d) (hp : d.players.Has p) (hid : d.tables.Has id) :
    (registerBuyInAlive d p id).Ensures E fun d' ↦ Transfer mode busy d d' 0 :=
  (registerBuyIn_ensures busy h hp hid).bind fun _ h₁ ↦
    (aliveForTable_ensures busy h₁.wf (h₁.frame.tables.has hid)).mono fun _ h₂ ↦ h₁.trans_zero h₂

/-- The stays at a table without money may be removed. -/
theorem WellFormed.cleanupBuyIns {busy : TableId → Prop} (h : WellFormed mode d) {id : TableId}
    (hempty : ∀ t p, d.tables.find? id = some t → ¬t.HasMoney p) :
    Transfer mode busy d (cleanupBuyIns d id) 0 := by
  let I (d' : Database) : Prop :=
    Transfer mode busy d d' 0 ∧ d'.tables = d.tables ∧ SameStays d d'
  have hloop : I (Playchain.cleanupBuyIns d id) := by
    refine List.foldlRecOn (motive := I) _ _ ⟨.refl h, rfl, .of_eq rfl⟩ ?_
    rintro d₁ ⟨h₁, htables, hstays⟩ ⟨i, b⟩ hb
    obtain ⟨hb, hbt⟩ := List.mem_filter.1 hb
    refine ⟨h₁.trans_zero (h₁.wf.removeBuyIn fun b' t hb' ht ↦ ?_), htables,
      hstays.trans (.remove d₁ i)⟩
    obtain ⟨b₀, hb₀, ht₀, -⟩ := hstays i b' hb'
    rw [ObjectIndex.find?_eq_some_iff.2 hb] at hb₀
    obtain rfl := Option.some.inj hb₀
    rw [← ht₀, of_decide_eq_true hbt, htables] at ht
    exact hempty t _ ht
  exact hloop.1

/-! ### Buying out -/

/-- The part of `buy_out_table` that pays from the cash at the table. -/
theorem payFromTable_ensures (h : WellFormed mode d) {p : PlayerId} {id : TableId}
    {t : TableObject} {amount : Asset} (ht : d.tables.find? id = some t) (hp : d.players.Has p)
    (hpos : 0 ≤ amount.amount) (hle : amount.amount ≤ held t.cash p)
    (hcore : amount.assetId = coreAsset) (account : AccountId) :
    (do
      let d ← d.adjustBalance account amount
      d.modifyTable id fun t ↦ t.adjustCash p (-amount)).Ensures E fun d' ↦
        ∃ t', d'.tables.find? id = some t' ∧ t'.playingCash = t.playingCash ∧
          d'.buyIns = d.buyIns ∧ Transfer mode busy d d' 0 := by
  refine (adjustBalance_ensures d account amount (by omega)).bind ?_
  rintro _ ⟨b, rfl, hb⟩
  have hbal : Transfer mode busy d { d with balances := b } amount.value := h.setBalances hb
  have henough : 0 ≤ held t.cash p + (-amount).amount := by
    rw [Asset.neg_amount]
    omega
  have hout : 0 < (-amount).amount → mode.unregistered id p := by
    rw [Asset.neg_amount]
    omega
  refine (hbal.wf.modifyCash busy ht hp henough hout fun hne ↦ absurd hcore hne).mono ?_
  rintro _ ⟨t', rfl, -, -, hplay, htr⟩
  refine ⟨t', ObjectIndex.find?_set_self ht t', hplay, rfl, (hbal.trans htr).congr ?_⟩
  rw [Asset.value_neg, add_neg_cancel]

/-- `buy_out_table` changes no total. A player who is not in the game has the cash; an amount in
another asset is kept as a pending buy-out only for a player of the game without cash at the
table. -/
theorem buyOutTable_ensures (h : WellFormed mode d) {p : PlayerId} {id : TableId} {t : TableObject}
    {amount : Asset} (ht : d.tables.find? id = some t) (hp : d.players.Has p)
    (hpos : 0 < amount.amount)
    (hwait : t.isPlaying p = false → amount.assetId = coreAsset ∧ amount.amount ≤ held t.cash p)
    (hsafe : mode.core → t.isPlaying p = true → t.cash.find? p = none → amount.assetId = coreAsset)
    (hE : amount.assetId ≠ coreAsset → ∀ text, E (.assertion text)) :
    (buyOutTable d p id amount).Ensures E fun d' ↦
      Transfer mode busy d d' 0 ∧ d'.buyIns = d.buyIns ∧
        ∃ t', d'.tables.find? id = some t' ∧ t'.playingCash = t.playingCash := by
  obtain ⟨obj, hobj⟩ := hp
  have hok := h.tables id t ht
  rw [buyOutTable, tableById_of_find? ht, Except.ok_bind, playerById_of_find? hobj, Except.ok_bind]
  -- an allowed buy-out is covered by the cash, another one may be kept
  refine Except.Ensures.bind (Q := fun allow ↦
      (allow = true → amount.assetId = coreAsset ∧ amount.amount ≤ held t.cash p) ∧
      (allow = false → t.isPlaying p = true ∧ (mode.core → amount.assetId = coreAsset))) ?_ ?_
  · split_ifs with hplaying
    · rcases hc : t.cash.find? p with - | cash
      · exact .pure ⟨fun hf ↦ absurd hf (by decide), fun _ ↦ ⟨hplaying, fun hs ↦ hsafe hs hplaying hc⟩⟩
      · have hcash := hok.cashes.cash p cash hc
        refine (Asset.le_ensures fun hne ↦ hE (hcash.2 ▸ hne)).mono ?_
        rintro r ⟨heq, rfl⟩
        refine ⟨fun hr ↦ ⟨heq.trans hcash.2, ?_⟩, fun _ ↦ ⟨hplaying, fun _ ↦ heq.trans hcash.2⟩⟩
        rw [held_of_find?_some hc]
        exact of_decide_eq_true hr
    · exact .pure ⟨fun _ ↦ hwait (Bool.not_eq_true _ ▸ hplaying), fun hf ↦ absurd hf (by decide)⟩
  rintro allow ⟨hallow, hkeep⟩
  simp only
  split_ifs with ha
  · obtain ⟨hcore, hle⟩ := hallow ha
    rw [← bind_assoc]
    refine (payFromTable_ensures busy h ht ⟨obj, hobj⟩ hpos.le hle hcore obj.account).bind ?_
    rintro d₁ ⟨t', ht', hplay, hbuyIns, htr⟩
    rcases d.pendingBuyOuts.findKey? (p, id) with - | q
    · exact .pure ⟨htr, hbuyIns, t', ht', hplay⟩
    · exact .pure ⟨htr.trans_zero (htr.wf.removePendingBuyOut q.1), hbuyIns, t', ht', hplay⟩
  · obtain ⟨hplaying, hcore⟩ := hkeep (Bool.not_eq_true _ ▸ ha)
    rcases hq : d.pendingBuyOuts.findKey? (p, id) with - | q
    · refine (create?_ensures fun hn ↦ absurd hq hn).bind ?_
      rintro buyOuts ⟨-, hbuyOuts⟩
      refine .pure ⟨?_, rfl, t, ht, rfl⟩
      refine h.setPendingBuyOuts (fun j b hj ↦ ?_) fun j b hj hn ↦ ?_
      all_goals
        rw [hbuyOuts, ObjectIndex.find?_create] at hj
        split_ifs at hj
      · obtain rfl := Option.some.inj hj
        exact ⟨hpos, ⟨obj, hobj⟩, hcore⟩
      · exact h.pendingBuyOuts j b hj
      · obtain rfl := Option.some.inj hj
        exact ⟨t, ht, hplaying⟩
      · exact h.leaving j b hj hn
    · refine .pure ⟨?_, rfl, t, ht, rfl⟩
      refine h.setPendingBuyOuts (fun j b hj ↦ ?_) fun j b hj hn ↦ ?_
      all_goals
        rw [UniqueIndex.toObjectIndex_modify, ObjectIndex.find?_modify] at hj
        split_ifs at hj
      · obtain ⟨b', hb', rfl⟩ := Option.map_eq_some_iff.1 hj
        exact ⟨hpos, (h.pendingBuyOuts j b' hb').2.1, hcore⟩
      · exact h.pendingBuyOuts j b hj
      · obtain ⟨b', hb', rfl⟩ := Option.map_eq_some_iff.1 hj
        exact h.leaving j b' hb' hn
      · exact h.leaving j b hj hn

/-- A stay ends, or is prolonged if there is still cash. -/
theorem expireBuyIn_ensures (h : WellFormed mode d) {buyIn : ℕ} {p : PlayerId} {id : TableId}
    {t : TableObject} (ht : d.tables.find? id = some t) (hp : d.players.Has p)
    (hplaying : t.isPlaying p = false)
    (hbuyIn : ∀ b, d.buyIns.find? buyIn = some b → b.table = id ∧ b.player = p) :
    (expireBuyIn d buyIn p id).Ensures E fun d' ↦ Transfer mode busy d d' 0 ∧ SameStays d d' := by
  obtain ⟨obj, hobj⟩ := hp
  have hok := h.tables id t ht
  rw [expireBuyIn, playerById_of_find? hobj, Except.ok_bind, tableById_of_find? ht, Except.ok_bind]
  have hcash : 0 < (t.getCashBalance p).amount →
      (t.getCashBalance p).assetId = coreAsset ∧ (t.getCashBalance p).amount ≤ held t.cash p := by
    intro hpos
    rw [held_eq_getD]
    rcases hc : t.cash.find? p with - | cash
    · rw [TableObject.getCashBalance, hc] at hpos
      exact absurd hpos (by decide)
    · rw [TableObject.getCashBalance, hc]
      exact ⟨(hok.cashes.cash p cash hc).2, le_rfl⟩
  refine Except.Ensures.bind (Q := fun d₁ ↦ Transfer mode busy d d₁ 0 ∧ d₁.buyIns = d.buyIns ∧
      ∃ t', d₁.tables.find? id = some t' ∧ t'.playingCash = t.playingCash) ?_ ?_
  · split_ifs with hpos
    · exact buyOutTable_ensures busy h ht ⟨obj, hobj⟩ hpos (fun _ ↦ hcash hpos)
        (fun _ hpl ↦ by rw [hplaying] at hpl; cases hpl) fun hne ↦ absurd (hcash hpos).1 hne
    · exact .pure ⟨.refl h, rfl, t, ht, rfl⟩
  rintro d₁ ⟨htr, hbuyIns, t₁, ht₁, hplay⟩
  have hok₁ := htr.wf.tables id t₁ ht₁
  obtain ⟨owner, howner⟩ := hok₁.tableOwner
  rw [tableById_of_find? ht₁, Except.ok_bind]
  -- without cash at the table the player has no money left there
  have hmoney : (t₁.getCashBalance p).amount < 1 → ∀ b u, d₁.buyIns.find? buyIn = some b →
      d₁.tables.find? b.table = some u → ¬u.HasMoney b.player := by
    intro hless b u hb hu
    rw [hbuyIns] at hb
    obtain ⟨rfl, rfl⟩ := hbuyIn b hb
    obtain rfl := Option.some.inj (ht₁.symm.trans hu)
    rintro (hwaits | hplays)
    · rw [← hok₁.cashes.cash.held_pos_iff, held_eq_getD] at hwaits
      rw [TableObject.getCashBalance] at hless
      omega
    · rw [hplay] at hplays
      exact absurd hplays (by rw [TableObject.isPlaying] at hplaying; simp [hplaying])
  split_ifs with h₁ h₂
  · rw [howner, Except.ok_bind]
    have hlog := htr.trans_zero (htr.wf.log (.buyInExpire obj.account id owner (t.getCashBalance p)))
    exact .pure ⟨hlog.trans_zero (hlog.wf.removeBuyIn (hmoney h₁)),
      SameStays.trans (.of_eq hbuyIns) (.remove _ buyIn)⟩
  · exact .pure ⟨htr.trans_zero (htr.wf.removeBuyIn (hmoney h₁)),
      SameStays.trans (.of_eq hbuyIns) (.remove _ buyIn)⟩
  · exact .pure ⟨htr.trans_zero (htr.wf.prolong buyIn),
      SameStays.trans (.of_eq hbuyIns) (.prolong _ buyIn)⟩

/-! ### The operations -/

/-- Buying in moves money from the account to the table. -/
theorem applyBuyInTable_ensures (h : WellFormed mode d) (hE : Refusals E) {op : BuyInTable}
    (hpos : 0 < op.amount.amount) :
    (applyBuyInTable d op).Ensures E fun d' ↦ Transfer mode busy d d' 0 := by
  refine (orMissing_ensures fun _ ↦ hE.missingObject).bind fun player hplayer ↦ ?_
  have hp : d.players.Has player.1 := ⟨_, (UniqueIndex.findKey?_eq_some_iff.1 hplayer).1⟩
  refine (adjustBalance_ensures d op.player (-op.amount) fun _ ↦ hE.assertion).bind ?_
  rintro _ ⟨b, rfl, hb⟩
  have hbal : Transfer mode busy d { d with balances := b } (-op.amount).value := h.setBalances hb
  rcases ht : d.tables.find? op.table with - | t
  · rw [Database.modifyTable, Database.tableById]
    simp only [ht]
    exact hE.assertion _
  · have henough : 0 ≤ held t.cash player.1 + op.amount.amount := by
      have := (h.tables op.table t ht).cashes.cash.held_nonneg player.1
      omega
    refine ((hbal.wf.withArrival op.table player.1).modifyCash busy ht hp henough
      (fun _ ↦ Or.inl ⟨rfl, rfl⟩) fun _ ↦ hE.assertion).bind ?_
    rintro _ ⟨t', rfl, -, -, -, htr⟩
    refine (registerBuyInAlive_ensures busy htr.wf hp (htr.frame.tables.has ⟨t, ht⟩)).mono ?_
    intro d' h'
    refine ((hbal.trans htr).trans h').congr ?_
    rw [Asset.value_neg, neg_add_cancel, add_zero]

/-- What the checks of a buy-out establish. -/
theorem evaluateBuyOutTable_ensures (h : WellFormed mode d) (hE : Refusals E) (op : BuyOutTable) :
    (evaluateBuyOutTable d op).Ensures E fun _ ↦
      ∃ t player, d.tables.find? op.table = some t ∧ d.players.findKey? op.player = some player ∧
        (t.isPlaying player.1 = false →
          op.amount.assetId = coreAsset ∧ op.amount.amount ≤ held t.cash player.1) := by
  refine (fcAssert_ensures fun _ ↦ hE.assertion).bind fun _ _ ↦ ?_
  refine (fcAssert_ensures fun _ ↦ hE.assertion).bind fun _ _ ↦ ?_
  refine (orUnableToFind_ensures fun _ ↦ hE.assertion).bind fun t ht ↦ ?_
  obtain ⟨b, hb⟩ := (h.tables _ t ht).isTableOwner op.tableOwner
  rw [hb, Except.ok_bind]
  refine (fcAssert_ensures fun _ ↦ hE.assertion).bind fun _ _ ↦ ?_
  refine (orMissing_ensures fun _ ↦ hE.missingObject).bind fun player hplayer ↦ ?_
  refine (fcAssert_ensures fun _ ↦ hE.assertion).bind fun _ _ ↦ ?_
  split_ifs with hplaying
  · refine (orMissing_ensures fun _ ↦ hE.missingObject).bind fun cash hcash ↦ ?_
    obtain ⟨-, hcore⟩ := (h.tables _ t ht).cashes.cash _ _ hcash
    refine (Asset.le_ensures fun _ ↦ hE.assertion).bind ?_
    rintro r ⟨heq, rfl⟩
    refine (fcAssert_ensures fun _ ↦ hE.assertion).mono fun _ hle ↦ ?_
    refine ⟨t, player, ht, hplayer, fun _ ↦ ⟨heq.trans hcore, ?_⟩⟩
    rw [held_of_find?_some hcash]
    exact of_decide_eq_true hle
  · refine .pure ⟨t, player, ht, hplayer, fun hf ↦ ?_⟩
    rw [hf] at hplaying
    exact absurd rfl hplaying

/-- **A buy-out in a foreign asset**: the player is in the game and has no cash at the table, so the
amount is compared with nothing and kept for the end of the game. -/
def ForeignBuyOut (d : Database) (op : BuyOutTable) : Prop :=
  ∃ t player, d.tables.find? op.table = some t ∧ d.players.findKey? op.player = some player ∧
    t.isPlaying player.1 = true ∧ t.cash.find? player.1 = none ∧ op.amount.assetId ≠ coreAsset

instance (d : Database) (op : BuyOutTable) : Decidable (ForeignBuyOut d op) :=
  decidable_of_iff ((d.tables.find? op.table).any (fun t ↦ (d.players.findKey? op.player).any
    fun player ↦ t.isPlaying player.1 = true ∧ t.cash.find? player.1 = none ∧
      op.amount.assetId ≠ coreAsset) = true) (by
    simp only [Option.any_eq_true, decide_eq_true_eq, ForeignBuyOut, exists_and_left])

/-- Buying out moves money from the table to the account, or is kept for the end of the game. -/
theorem applyBuyOutTable_ensures (h : WellFormed mode d) (hE : Refusals E) {op : BuyOutTable}
    (hpos : 0 < op.amount.amount) (hsafe : mode.core → ¬ForeignBuyOut d op) {t : TableObject}
    {player : PlayerId × PlayerObject} (ht : d.tables.find? op.table = some t)
    (hplayer : d.players.findKey? op.player = some player)
    (hwait : t.isPlaying player.1 = false →
      op.amount.assetId = coreAsset ∧ op.amount.amount ≤ held t.cash player.1) :
    (applyBuyOutTable d op).Ensures E fun d' ↦ Transfer mode busy d d' 0 := by
  rw [applyBuyOutTable, getPlayer_of_findKey? hplayer, Except.ok_bind]
  refine (buyOutTable_ensures busy h ht ⟨_, (UniqueIndex.findKey?_eq_some_iff.1 hplayer).1⟩ hpos
    hwait (fun hs hplaying hcash ↦ ?_) fun _ ↦ hE.assertion).mono fun _ h' ↦ h'.1
  by_contra hne
  exact hsafe hs ⟨t, player, ht, hplayer, hplaying, hcash, hne⟩

end Playchain
