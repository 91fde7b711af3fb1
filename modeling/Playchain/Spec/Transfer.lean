import Playchain.Spec.Invariant

/-!
# Money and the elementary updates

`Database.total` is the money of the chain as far as the tables are concerned: balances, cash at
tables and in games, reservations and rake that is not disseminated yet, by asset.

`Transfer mode busy d d' Δ` says that a step from `d` to `d'` keeps `WellFormed`, is framed, and
changes the total by `Δ`. Transfers compose (`Transfer.trans`); this module has one lemma for each
elementary update of the database.
-/

namespace Playchain

open Finsupp (single single_neg single_zero single_add singleAddHom_apply)

/-! ### Money -/

/-- An amount as a function of the asset. -/
noncomputable def Asset.value (a : Asset) : AssetId →₀ ℤ := single a.assetId a.amount

@[simp] theorem Asset.value_neg (a : Asset) : (-a).value = -a.value :=
  single_neg _ _

theorem Asset.value_of_core {a : Asset} (h : a.assetId = coreAsset) :
    a.value = single coreAsset a.amount := by
  rw [Asset.value, h]

theorem Asset.value_of_zero {a : Asset} (h : a.amount = 0) : a.value = 0 := by
  rw [Asset.value, h, single_zero]

/-- The money in a cash map. -/
noncomputable def worth (m : FlatMap PlayerId Asset) : AssetId →₀ ℤ := m.sum fun _ v ↦ v.value

/-- The money at a table. -/
noncomputable def TableObject.funds (t : TableObject) : AssetId →₀ ℤ :=
  worth t.cash + worth t.playingCash

/-- The money in accounts. -/
noncomputable def balancesTotal (b : FlatMap (AccountId ×ₗ AssetId) ℤ) : AssetId →₀ ℤ :=
  b.sum fun k v ↦ single (ofLex k).2 v

/-- **The money of the chain**, by asset: in accounts, at tables, reserved, and rake to be
disseminated. -/
noncomputable def Database.total (d : Database) : AssetId →₀ ℤ :=
  balancesTotal d.balances + d.tables.sum TableObject.funds +
    d.pendingBuyIns.sum (fun b ↦ b.amount.value) + d.rooms.sum fun r ↦ r.pendingRake.value

/-- A map in order is worth the sum of what its players hold. -/
theorem CashOk.worth {m : FlatMap PlayerId Asset} (h : CashOk m) :
    worth m = single coreAsset (held m).degree := by
  rw [held, FlatMap.degree_holdings, Playchain.worth, FlatMap.sum, FlatMap.sum,
    ← singleAddHom_apply, map_list_sum, List.map_map]
  congr 1
  refine List.map_congr_left fun p hp ↦ ?_
  exact Asset.value_of_core (h.of_mem hp).2

theorem TableObject.CashesOk.funds {t : TableObject} (h : t.CashesOk) :
    t.funds = single coreAsset ((held t.cash).degree + (held t.playingCash).degree) := by
  rw [TableObject.funds, h.cash.worth, h.playingCash.worth, single_add]

/-! ### Lookups of a well-formed database -/

section Lookups

variable {d : Database}

theorem playerById_of_find? {id : PlayerId} {p : PlayerObject} (h : d.players.find? id = some p) :
    d.playerById id = .ok p :=
  orUnableToFind_eq_ok.2 h

theorem roomById_of_find? {id : RoomId} {r : RoomObject} (h : d.rooms.find? id = some r) :
    d.roomById id = .ok r :=
  orUnableToFind_eq_ok.2 h

theorem tableById_of_find? {id : TableId} {t : TableObject} (h : d.tables.find? id = some t) :
    d.tableById id = .ok t :=
  orUnableToFind_eq_ok.2 h

theorem getPlayer_of_findKey? {account : AccountId} {p : PlayerId × PlayerObject}
    (h : d.players.findKey? account = some p) : d.getPlayer account = .ok p :=
  orMissing_eq_ok.2 h

/-- The owner of a table in order is known. -/
theorem TableOk.tableOwner {t : TableObject} {players : ObjectIndex PlayerObject}
    (h : TableOk d.rooms.toObjectIndex players t) : ∃ owner, d.tableOwner t = .ok owner := by
  obtain ⟨r, hr⟩ := h.room
  exact ⟨r.owner, by rw [Database.tableOwner, roomById_of_find? hr, Except.ok_bind]; rfl⟩

theorem TableOk.isTableOwner {t : TableObject} {players : ObjectIndex PlayerObject}
    (h : TableOk d.rooms.toObjectIndex players t) (voter : AccountId) :
    ∃ b, Playchain.isTableOwner d t voter = .ok b := by
  obtain ⟨owner, ho⟩ := h.tableOwner
  exact ⟨_, by rw [Playchain.isTableOwner, ho, Except.ok_bind]; rfl⟩

end Lookups

/-! ### Checks -/

/-- The errors by which an operation is refused: everything but an access to the wrong alternative
of a variant. -/
structure Refusals (E : ChainError → Prop) : Prop where
  assertion : ∀ text, E (.assertion text)
  missingObject : E .missingObject

section Checks

variable {E : ChainError → Prop} {α : Type} {x : Option α}

theorem fcAssert_ensures {p : Prop} [Decidable p] {text : String}
    (h : ¬p → ∀ text, E (.assertion text)) : (fcAssert p text).Ensures E fun _ ↦ p := by
  by_cases hp : p
  · rw [fcAssert_of_true hp]
    exact hp
  · rw [fcAssert, if_neg hp]
    exact h hp text

theorem orMissing_ensures (h : x = none → E .missingObject) :
    (orMissing x).Ensures E fun a ↦ x = some a := by
  rcases x with - | a
  · exact h rfl
  · exact rfl

theorem orUnableToFind_ensures (h : x = none → ∀ text, E (.assertion text)) :
    (orUnableToFind x).Ensures E fun a ↦ x = some a := by
  rcases x with - | a
  · exact h rfl _
  · exact rfl

/-- Creating an object fails only if its key is in use. -/
theorem create?_ensures {κ : Type} [DecidableEq κ] {key : α → κ} {x : UniqueIndex key} {a : α}
    (h : x.findKey? (key a) ≠ none → ∀ text, E (.assertion text)) :
    (orViolation (x.create? a)).Ensures E fun y ↦
      x.findKey? (key a) = none ∧ y.toObjectIndex = x.toObjectIndex.create a := by
  rcases hc : x.create? a with - | y
  · refine h (fun hn ↦ ?_) _
    obtain ⟨y, hy, -⟩ := UniqueIndex.exists_create? hn
    rw [hc] at hy
    cases hy
  · exact UniqueIndex.create?_eq_some hc

theorem Asset.le_ensures {a b : Asset} (h : a.assetId ≠ b.assetId → ∀ text, E (.assertion text)) :
    (a.le b).Ensures E fun r ↦ a.assetId = b.assetId ∧ r = decide (a.amount ≤ b.amount) := by
  rw [Asset.le, Asset.lt, Asset.sameAsset]
  refine Except.Ensures.bind (Q := fun r ↦ a.assetId = b.assetId ∧ r = decide (b.amount < a.amount))
    (.bind (fcAssert_ensures fun hne ↦ h (Ne.symm hne)) fun _ heq ↦ .pure ⟨heq.symm, rfl⟩) ?_
  rintro r ⟨heq, rfl⟩
  refine .pure ⟨heq, ?_⟩
  by_cases hlt : b.amount < a.amount
  · simp [hlt]
  · simp [hlt, not_lt.1 hlt]

end Checks

/-! ### Transfers -/

/-- **What a function of the chain does**: it keeps the database well formed, is framed, and changes
the total by `Δ`. -/
structure Transfer (mode : Mode) (busy : TableId → Prop) (d d' : Database) (Δ : AssetId →₀ ℤ) :
    Prop where
  wf : WellFormed mode d'
  frame : Frame busy d d'
  total : d'.total = d.total + Δ

namespace Transfer

variable {mode mode' : Mode} {busy busy' : TableId → Prop} {d d' d'' : Database}
  {Δ Δ' : AssetId →₀ ℤ}

theorem refl (h : WellFormed mode d) : Transfer mode busy d d 0 :=
  ⟨h, .refl busy d, (add_zero _).symm⟩

/-- Of two steps, the mode of the second counts. -/
theorem trans (h : Transfer mode' busy d d' Δ) (h' : Transfer mode busy d' d'' Δ') :
    Transfer mode busy d d'' (Δ + Δ') :=
  ⟨h'.wf, h.frame.trans h'.frame, by rw [h'.total, h.total, add_assoc]⟩

theorem mono (h : Transfer mode busy d d' Δ) (hb : ∀ id, busy id → busy' id) :
    Transfer mode busy' d d' Δ :=
  ⟨h.wf, h.frame.mono hb, h.total⟩

theorem congr (h : Transfer mode busy d d' Δ) (hΔ : Δ = Δ') : Transfer mode busy d d' Δ' := hΔ ▸ h

/-- Two steps of which neither changes the total. -/
theorem trans_zero (h : Transfer mode' busy d d' 0) (h' : Transfer mode busy d' d'' 0) :
    Transfer mode busy d d'' 0 :=
  (h.trans h').congr (add_zero 0)

end Transfer

/-! ### Suspension -/

section Modes

variable {mode : Mode} {d : Database} {id : TableId}

namespace WellFormed

/-- Less may be demanded in the middle of a step. -/
theorem withArrival (h : WellFormed mode d) (id : TableId) (p : PlayerId) :
    WellFormed (mode.withArrival id p) d :=
  { h with stays := fun j t q ht hn ↦ h.stays j t q ht fun hu ↦ hn (Or.inr hu) }

/-- The player whose money has arrived is registered. -/
theorem arrived {p : PlayerId} (h : WellFormed (mode.withArrival id p) d)
    (hstay : d.buyIns.findKey? (id, p) ≠ none) : WellFormed mode d :=
  { h with
    stays := by
      intro j t q ht hn hq
      by_cases hjq : j = id ∧ q = p
      · obtain ⟨rfl, rfl⟩ := hjq
        exact hstay
      · exact h.stays j t q ht (fun hu ↦ hu.elim hjq hn) hq }

theorem withEnding (h : WellFormed mode d) (id : TableId) : WellFormed (mode.withEnding id) d :=
  { h with
    leaving := fun i b hb hn ↦ h.leaving i b hb fun he ↦ hn (Or.inr he)
    clock := fun j t ht hn ↦ h.clock j t ht fun he ↦ hn (Or.inr he) }

/-- The game has ended: nobody waits to leave, and the deadline is in order. -/
theorem ended (h : WellFormed (mode.withEnding id) d)
    (hnone : ∀ i b, d.pendingBuyOuts.find? i = some b → b.table ≠ id)
    (hclock : ∀ t, d.tables.find? id = some t → GameClock mode.clock t) : WellFormed mode d :=
  { h with
    leaving := fun i b hb hn ↦ h.leaving i b hb fun he ↦ he.elim (hnone i b hb) hn
    clock := by
      intro j t ht hn
      by_cases hj : j = id
      · exact hclock t (hj ▸ ht)
      · exact h.clock j t ht fun he ↦ he.elim hj hn }

end WellFormed

end Modes

/-! ### Updates that move no money -/

section Updates

variable {mode : Mode} {busy : TableId → Prop} {d : Database}

namespace WellFormed

/-- Pushing a virtual operation changes nothing. -/
theorem log (h : WellFormed mode d) (op : VirtualOperation) :
    Transfer mode busy d (d.pushAppliedOperation op) 0 :=
  ⟨{ h with }, .of_eq busy rfl rfl rfl rfl rfl rfl rfl, (add_zero _).symm⟩

/-- Stays of players that exist, at tables that exist; players with money keep theirs. -/
theorem setBuyIns (h : WellFormed mode d)
    {buyIns : UniqueIndex fun b : BuyInObject ↦ (b.table, b.player)}
    (hb : ∀ id b, buyIns.find? id = some b → d.players.Has b.player ∧ d.tables.Has b.table)
    (hstays : ∀ id t p, d.tables.find? id = some t → t.HasMoney p →
      d.buyIns.findKey? (id, p) ≠ none → buyIns.findKey? (id, p) ≠ none) :
    Transfer mode busy d { d with buyIns := buyIns } 0 :=
  ⟨{ h with
      buyIns := hb
      stays := fun id t p ht hu hp ↦ hstays id t p ht hp (h.stays id t p ht hu hp) },
    .of_eq busy rfl rfl rfl rfl rfl rfl rfl, (add_zero _).symm⟩

theorem setTableAlives (h : WellFormed mode d) {alives : UniqueIndex TableAliveObject.table}
    (ha : ∀ id a, alives.find? id = some a → d.tables.Has a.table) :
    Transfer mode busy d { d with tableAlives := alives } 0 :=
  ⟨{ h with tableAlives := ha }, .of_eq busy rfl rfl rfl rfl rfl rfl rfl, (add_zero _).symm⟩

theorem setPendingBuyOuts (h : WellFormed mode d)
    {buyOuts : UniqueIndex fun b : PendingBuyOutObject ↦ (b.player, b.table)}
    (hb : ∀ id b, buyOuts.find? id = some b →
      0 < b.amount.amount ∧ d.players.Has b.player ∧ (mode.core → b.amount.assetId = coreAsset))
    (hleaving : ∀ id b, buyOuts.find? id = some b → ¬mode.ending b.table →
      ∃ t, d.tables.find? b.table = some t ∧ t.isPlaying b.player = true) :
    Transfer mode busy d { d with pendingBuyOuts := buyOuts } 0 :=
  ⟨{ h with pendingBuyOuts := hb, leaving := hleaving },
    .of_eq busy rfl rfl rfl rfl rfl rfl rfl, (add_zero _).symm⟩

theorem removePendingBuyOut (h : WellFormed mode d) (id : ℕ) :
    Transfer mode busy d { d with pendingBuyOuts := d.pendingBuyOuts.remove id } 0 :=
  h.setPendingBuyOuts (fun _ _ hj ↦ h.pendingBuyOuts _ _ (ObjectIndex.find?_of_find?_remove hj).2)
    fun _ _ hj ↦ h.leaving _ _ (ObjectIndex.find?_of_find?_remove hj).2

/-- A stay may be removed when the player has no money at the table. -/
theorem removeBuyIn (h : WellFormed mode d) {id : ℕ}
    (hid : ∀ b t, d.buyIns.find? id = some b → d.tables.find? b.table = some t →
      ¬t.HasMoney b.player) :
    Transfer mode busy d { d with buyIns := d.buyIns.remove id } 0 := by
  refine h.setBuyIns (fun _ _ hj ↦ h.buyIns _ _ (ObjectIndex.find?_of_find?_remove hj).2) ?_
  intro j t p ht hp hne
  obtain ⟨⟨i, b⟩, hb⟩ := Option.ne_none_iff_exists'.1 hne
  obtain ⟨hi, hkey⟩ := UniqueIndex.findKey?_eq_some_iff.1 hb
  obtain ⟨rfl, rfl⟩ := Prod.mk.inj hkey
  have hne' : i ≠ id := by
    rintro rfl
    exact hid b t hi ht hp
  have hkept : (d.buyIns.remove id).findKey? (b.table, b.player) = some (i, b) :=
    UniqueIndex.findKey?_eq_some_iff.2 ⟨(ObjectIndex.find?_remove_of_ne _ hne').trans hi, rfl⟩
  rw [hkept]
  exact Option.some_ne_none _

theorem setMeasurements (h : WellFormed mode d)
    {ms : UniqueIndex RoomRatingMeasurementObject.associatedBuyin}
    (hm : ∀ id m, ms.find? id = some m → m.associatedBuyin < d.pendingBuyIns.nextId ∧
      ∀ b, d.pendingBuyIns.find? m.associatedBuyin = some b → b.isAllocated = true) :
    Transfer mode busy d { d with roomRatingMeasurements := ms } 0 :=
  ⟨{ h with measurements := hm }, .of_eq busy rfl rfl rfl rfl rfl rfl rfl, (add_zero _).symm⟩

theorem setInvitations (h : WellFormed mode d)
    (invitations : UniqueIndex fun i : PlayerInvitationObject ↦ (i.inviter, i.uid)) :
    Transfer mode busy d { d with playerInvitations := invitations } 0 :=
  ⟨{ h with }, .of_eq busy rfl rfl rfl rfl rfl rfl rfl, (add_zero _).symm⟩

theorem setVestingBalances (h : WellFormed mode d) (vbs : ObjectIndex VestingBalanceObject) :
    Transfer mode busy d { d with vestingBalances := vbs } 0 :=
  ⟨{ h with }, .of_eq busy rfl rfl rfl rfl rfl rfl rfl, (add_zero _).symm⟩

/-- Players stay with their accounts. -/
theorem setPlayers (h : WellFormed mode d) {players : UniqueIndex PlayerObject.account}
    (hk : ObjectIndex.Keeps PlayerObject.account d.players.toObjectIndex players.toObjectIndex)
    (howed : (∀ id, ¬busy id) → players.sum PlayerObject.owed = d.players.sum PlayerObject.owed) :
    Transfer mode busy d { d with players := players } 0 := by
  refine ⟨{ h with tables := ?_, pendingBuyIns := ?_, pendingBuyOuts := ?_, buyIns := ?_ },
    { Frame.refl busy d with
      players := hk
      books := fun hn ↦ congrArg (d.pendingRakes - ·) (howed hn) }, (add_zero _).symm⟩
  · intro id t ht
    obtain ⟨h₁, h₂, h₃, h₄, h₅, h₆⟩ := h.tables id t ht
    exact ⟨h₁, h₂, fun p hp ↦ hk.has (h₃ p hp), fun p hp ↦ hk.has (h₄ p hp), h₅, h₆⟩
  · intro id b hb
    obtain ⟨h₁, h₂, h₃⟩ := h.pendingBuyIns id b hb
    refine ⟨h₁, h₂, h₃.imp_right fun ⟨hmeta, obj, hobj⟩ ↦ ⟨hmeta, ?_⟩⟩
    exact UniqueIndex.findKey?_of_keeps hk hobj
  · intro id b hb
    obtain ⟨h₁, h₂, h₃⟩ := h.pendingBuyOuts id b hb
    exact ⟨h₁, hk.has h₂, h₃⟩
  · intro id b hb
    obtain ⟨h₁, h₂⟩ := h.buyIns id b hb
    exact ⟨hk.has h₁, h₂⟩

/-- Rooms stay with their owners; the money in them is their rake. -/
theorem setRooms (h : WellFormed mode d)
    (rooms : UniqueIndex fun r : RoomObject ↦ (r.owner, r.metadata))
    (hk : ObjectIndex.Keeps RoomObject.owner d.rooms.toObjectIndex rooms.toObjectIndex)
    (hrakes : ∀ id r, rooms.find? id = some r → r.pendingRake.assetId = coreAsset)
    (hpending : (∀ id, ¬busy id) →
      Database.pendingRakes { d with rooms := rooms } = d.pendingRakes) :
    Transfer mode busy d { d with rooms := rooms }
      ((rooms.sum fun r ↦ r.pendingRake.value) - d.rooms.sum fun r ↦ r.pendingRake.value) := by
  refine ⟨{ h with tables := ?_, rakes := hrakes },
    { Frame.refl busy d with
      rooms := hk
      books := fun hn ↦ congrArg (· - d.owed) (hpending hn) }, ?_⟩
  · intro id t ht
    obtain ⟨h₁, h₂, h₃, h₄, h₅, h₆⟩ := h.tables id t ht
    exact ⟨hk.has h₁, h₂, h₃, h₄, h₅, h₆⟩
  · simp only [Database.total]
    abel

/-- Votes are no part of `WellFormed`. -/
theorem removeVoting (h : WellFormed mode d) {id : ℕ} {v : TableVotingObject}
    (hv : d.tableVotings.find? id = some v) (hb : busy v.table) :
    Transfer mode busy d { d with tableVotings := d.tableVotings.remove id } 0 :=
  ⟨{ h with }, .removeVoting busy hv hb, (add_zero _).symm⟩

theorem removePendingVote (h : WellFormed mode d) (id : ℕ) :
    Transfer mode busy d { d with pendingTableVotes := d.pendingTableVotes.remove id } 0 :=
  ⟨{ h with }, .removePendingVote busy d id, (add_zero _).symm⟩

end WellFormed

/-! ### Updates that move money -/

/-- The total after the balances have changed. -/
theorem WellFormed.setBalances (h : WellFormed mode d) {b : FlatMap (AccountId ×ₗ AssetId) ℤ}
    {Δ : AssetId →₀ ℤ} (hb : balancesTotal b = balancesTotal d.balances + Δ) :
    Transfer mode busy d { d with balances := b } Δ := by
  refine ⟨{ h with }, .of_eq busy rfl rfl rfl rfl rfl rfl rfl, ?_⟩
  simp only [Database.total, hb]
  abel

/-- `adjust_balance` adds to the balances; only taking away may fail. -/
theorem adjustBalance_ensures (d : Database) (account : AccountId) (delta : Asset)
    {E : ChainError → Prop} (hE : delta.amount < 0 → ∀ text, E (.assertion text)) :
    (d.adjustBalance account delta).Ensures E fun d' ↦
      ∃ b, d' = { d with balances := b } ∧
        balancesTotal b = balancesTotal d.balances + delta.value := by
  rw [Database.adjustBalance]
  by_cases h0 : delta.amount = 0
  · rw [if_pos h0]
    exact .pure ⟨d.balances, rfl, by rw [Asset.value_of_zero h0, add_zero]⟩
  rw [if_neg h0]
  rcases hf : d.balances.find? (toLex (account, delta.assetId)) with - | old
  · simp only
    by_cases hpos : 0 < delta.amount
    · refine .bind_of_eq (fcAssert_of_true hpos) (.pure ⟨_, rfl, ?_⟩)
      rw [balancesTotal, FlatMap.sum_insert_of_find?_none _ hf, add_comm]
      rfl
    · rw [fcAssert, if_neg hpos]
      exact hE (by omega) _
  · simp only
    have hdone : balancesTotal (d.balances.insert (toLex (account, delta.assetId))
        (old + delta.amount)) = balancesTotal d.balances + delta.value := by
      rw [balancesTotal, FlatMap.sum_insert, balancesTotal, FlatMap.sum_eq_add_erase _ hf,
        Asset.value, ofLex_toLex, single_add]
      abel
    split_ifs with hneg
    · by_cases hle : -delta.amount ≤ old
      · exact .bind_of_eq (fcAssert_of_true hle) (.pure ⟨_, rfl, hdone⟩)
      · rw [fcAssert, if_neg hle]
        exact hE hneg _
    · exact .pure ⟨_, rfl, hdone⟩

/-- The total after a table has changed. -/
theorem total_setTable {id : TableId} {t : TableObject} (ht : d.tables.find? id = some t)
    (t' : TableObject) :
    Database.total { d with tables := d.tables.set id t' } = d.total + (t'.funds - t.funds) := by
  simp only [Database.total, ObjectIndex.sum_set _ ht, ObjectIndex.sum_eq_add_remove _ ht]
  abel

/-- A table is replaced: it keeps its room, has no new proposals and stays in order. -/
theorem WellFormed.setTable (h : WellFormed mode d) {id : TableId} {t : TableObject}
    (t' : TableObject) (ht : d.tables.find? id = some t) (hroom : t'.room = t.room)
    (hok : TableOk d.rooms.toObjectIndex d.players.toObjectIndex t')
    (hmeta : id = nullTable → t'.metadata = "")
    (hprop : ∀ p b, t'.pendingProposals.find? p = some b → t.pendingProposals.find? p = some b)
    (hclock : ¬mode.ending id → GameClock mode.clock t')
    (hleaving : ¬mode.ending id → ∀ i b, d.pendingBuyOuts.find? i = some b → b.table = id →
      t'.isPlaying b.player = true)
    (hstays : ∀ p, ¬mode.unregistered id p → t'.HasMoney p → t.HasMoney p)
    (hplay : ¬busy id → t'.playingCash = t.playingCash) :
    Transfer mode busy d { d with tables := d.tables.set id t' } (t'.funds - t.funds) := by
  have hkeep : ObjectIndex.Keeps TableObject.room d.tables (d.tables.set id t') := .set ht hroom
  have hcases : ∀ j u, (d.tables.set id t').find? j = some u →
      (j = id ∧ u = t') ∨ (j ≠ id ∧ d.tables.find? j = some u) := by
    intro j u hu
    by_cases hj : j = id
    · subst hj
      rw [ObjectIndex.find?_set_self ht] at hu
      exact Or.inl ⟨rfl, (Option.some.inj hu).symm⟩
    · rw [ObjectIndex.find?_set_of_ne _ _ hj] at hu
      exact Or.inr ⟨hj, hu⟩
  -- everything that is said about tables is said of the new one and of the others
  refine ⟨{ h with
    tables := ?_, nullMetadata := ?_, proposals := ?_, pendingBuyIns := ?_, leaving := ?_,
    clock := ?_, buyIns := ?_, stays := ?_, tableAlives := ?_ },
    .setTable busy ht hroom hplay, total_setTable ht t'⟩
  · intro j u hu
    obtain ⟨-, rfl⟩ | ⟨-, hu⟩ := hcases j u hu
    · exact hok
    · exact h.tables j u hu
  · intro u hu
    obtain ⟨hj, rfl⟩ | ⟨-, hu⟩ := hcases _ u hu
    · exact hmeta hj.symm
    · exact h.nullMetadata u hu
  · intro j u p b hu hb
    obtain ⟨rfl, rfl⟩ | ⟨-, hu⟩ := hcases j u hu
    · exact h.proposals j t p b ht (hprop p b hb)
    · exact h.proposals j u p b hu hb
  · intro j b hb
    obtain ⟨h₁, h₂, h₃⟩ := h.pendingBuyIns j b hb
    exact ⟨h₁, fun halloc ↦ hkeep.has (h₂ halloc), h₃⟩
  · intro j b hb hn
    by_cases hj : b.table = id
    · refine ⟨t', ?_, hleaving (hj ▸ hn) j b hb hj⟩
      rw [hj]
      exact ObjectIndex.find?_set_self ht t'
    · obtain ⟨u, hu, hplaying⟩ := h.leaving j b hb hn
      exact ⟨u, (ObjectIndex.find?_set_of_ne _ _ hj).trans hu, hplaying⟩
  · intro j u hu hn
    obtain ⟨rfl, rfl⟩ | ⟨-, hu⟩ := hcases j u hu
    · exact hclock hn
    · exact h.clock j u hu hn
  · intro j b hb
    obtain ⟨h₁, h₂⟩ := h.buyIns j b hb
    exact ⟨h₁, hkeep.has h₂⟩
  · intro j u p hu hn hp
    obtain ⟨rfl, rfl⟩ | ⟨-, hu⟩ := hcases j u hu
    · exact h.stays j t p ht hn (hstays p hn hp)
    · exact h.stays j u p hu hn hp
  · intro j a ha
    exact hkeep.has (h.tableAlives j a ha)

/-- A table is replaced by one with the same money and the same deadline. -/
theorem WellFormed.describeTable (h : WellFormed mode d) {id : TableId} {t t' : TableObject}
    (ht : d.tables.find? id = some t) (hroom : t'.room = t.room)
    (hok : TableOk d.rooms.toObjectIndex d.players.toObjectIndex t')
    (hmeta : id = nullTable → t'.metadata = "")
    (hprop : ∀ p b, t'.pendingProposals.find? p = some b → t.pendingProposals.find? p = some b)
    (hcash : t'.cash = t.cash) (hplay : t'.playingCash = t.playingCash)
    (hexp : t'.gameExpiration = t.gameExpiration) :
    Transfer mode busy d { d with tables := d.tables.set id t' } 0 := by
  have hfunds : t'.funds = t.funds := by rw [TableObject.funds, hcash, hplay, TableObject.funds]
  refine (h.setTable _ ht hroom hok hmeta hprop (fun hn ↦ ?_) (fun hn i b hb hbt ↦ ?_) (fun p _ hp ↦ ?_)
    fun _ ↦ hplay).congr (by rw [hfunds, sub_self])
  · have hclock := h.clock id t ht hn
    rw [GameClock, TableObject.isFree, hplay, hexp]
    exact hclock
  · subst hbt
    obtain ⟨u, hu, hplaying⟩ := h.leaving i b hb hn
    rw [TableObject.isPlaying, hplay, Option.some.inj (ht.symm.trans hu)]
    exact hplaying
  · rw [TableObject.HasMoney, hcash, hplay] at hp
    exact hp

/-- The money of a table is moved, in its maps or to where `Δ` says. -/
theorem WellFormed.moveCash (h : WellFormed mode d) {id : TableId} {t t' : TableObject}
    (ht : d.tables.find? id = some t) (hmove : CashMove t t')
    (hwait : ∀ p, t'.cash.contains p = true → d.players.Has p)
    (hpl : ∀ p, t'.playingCash.contains p = true → d.players.Has p)
    (hstays : ∀ p, ¬mode.unregistered id p → t'.HasMoney p → t.HasMoney p)
    (hgame : ¬mode.ending id → t'.playingCash = t.playingCash)
    (hplay : ¬busy id → t'.playingCash = t.playingCash) :
    Transfer mode busy d { d with tables := d.tables.set id t' } (t'.funds - t.funds) := by
  have hok := h.tables id t ht
  have heq := hmove.eq
  refine h.setTable _ ht (by rw [heq]; rfl) ⟨?_, hmove.ok, hwait, hpl, ?_, hmove.seats hok.seats⟩ ?_ ?_
    (fun hn ↦ ?_) (fun hn i b hb hbt ↦ ?_) hstays hplay
  · rw [heq]
    exact hok.room
  · rw [heq]
    exact hok.overdrawn
  · rintro rfl
    rw [heq]
    exact h.nullMetadata t ht
  · intro p b hb
    rw [heq] at hb
    exact hb
  · have hexp : t'.gameExpiration = t.gameExpiration := by
      rw [heq]
      rfl
    have hclock := h.clock id t ht hn
    rw [GameClock, TableObject.isFree, hgame hn, hexp]
    exact hclock
  · subst hbt
    obtain ⟨u, hu, hplaying⟩ := h.leaving i b hb hn
    rw [TableObject.isPlaying, hgame hn, Option.some.inj (ht.symm.trans hu)]
    exact hplaying

/-- The weight of a table carries no money. -/
theorem WellFormed.setWeight (h : WellFormed mode d) {id : TableId} {t : TableObject}
    (ht : d.tables.find? id = some t) (w : ℤ) :
    Transfer mode busy d { d with tables := d.tables.set id { t with weight := w } } 0 := by
  obtain ⟨h₁, h₂, h₃, h₄, h₅, h₆⟩ := h.tables id t ht
  refine h.describeTable ht rfl ⟨h₁, ⟨h₂.cash, h₂.playingCash⟩, h₃, h₄, h₅, h₆⟩ ?_ (fun _ _ hb ↦ hb)
    rfl rfl rfl
  rintro rfl
  exact h.nullMetadata t ht

/-- No table proposes the reservation. -/
def Unproposed (tables : ObjectIndex TableObject) (id : PendingBuyInId) : Prop :=
  ∀ j t p, tables.find? j = some t → t.pendingProposals.find? p ≠ some id

/-- A reservation that no table proposes is removed. -/
theorem WellFormed.removePendingBuyIn (h : WellFormed mode d) {id : PendingBuyInId}
    {b : PendingBuyInObject} (hb : d.pendingBuyIns.find? id = some b)
    (hfree : Unproposed d.tables id) :
    Transfer mode busy d { d with pendingBuyIns := d.pendingBuyIns.remove id }
      (-b.amount.value) := by
  refine ⟨{ h with proposals := ?_, pendingBuyIns := ?_, measurements := ?_ },
    .of_eq busy rfl rfl rfl rfl rfl rfl rfl, ?_⟩
  · intro j t p b' ht hp
    obtain ⟨buyIn, hbuyIn, hrest⟩ := h.proposals j t p b' ht hp
    have hne : b' ≠ id := by
      rintro rfl
      exact hfree j t p ht hp
    exact ⟨buyIn, (ObjectIndex.find?_remove_of_ne _ hne).trans hbuyIn, hrest⟩
  · intro j b' hb'
    exact h.pendingBuyIns j b' (ObjectIndex.find?_of_find?_remove hb').2
  · intro j m hm
    obtain ⟨h₁, h₂⟩ := h.measurements j m hm
    exact ⟨h₁, fun b' hb' ↦ h₂ b' (ObjectIndex.find?_of_find?_remove hb').2⟩
  · simp only [Database.total, UniqueIndex.toObjectIndex_remove,
      ObjectIndex.sum_eq_add_remove _ hb]
    abel

end Updates

/-- After an addition at a player, everyone else in the map was there before. -/
theorem contains_of_held_add_single {m m' : FlatMap PlayerId Asset} {p : PlayerId} {x : ℤ}
    (hm : CashOk m) (hm' : CashOk m') (hheld : held m' = held m + single p x) {q : PlayerId}
    (hq : m'.contains q = true) : m.contains q = true ∨ (q = p ∧ 0 < x) := by
  rw [← hm'.held_pos_iff, hheld, Finsupp.add_apply] at hq
  rw [← hm.held_pos_iff]
  by_cases hqp : q = p
  · subst hqp
    rw [Finsupp.single_eq_same] at hq
    by_cases hx : 0 < x
    · exact Or.inr ⟨rfl, hx⟩
    · exact Or.inl (by omega)
  · rw [Finsupp.single_eq_of_ne hqp, add_zero] at hq
    exact Or.inl hq

/-- After an addition at a player who exists, everyone in the map exists. -/
theorem has_of_held_add_single {m m' : FlatMap PlayerId Asset} {players : ObjectIndex PlayerObject}
    {p : PlayerId} {x : ℤ} (hm : CashOk m) (hm' : CashOk m')
    (hheld : held m' = held m + single p x) (hp : players.Has p)
    (hall : ∀ q, m.contains q = true → players.Has q) (q : PlayerId)
    (hq : m'.contains q = true) : players.Has q := by
  rcases contains_of_held_add_single hm hm' hheld hq with hq | ⟨rfl, -⟩
  · exact hall q hq
  · exact hp

/-- `modify` of a table: the body runs on the table, the result replaces it. -/
theorem modifyTable_ensures {d : Database} {id : TableId} {t : TableObject}
    {body : TableObject → Except ChainError TableObject} {E : ChainError → Prop}
    {Q : TableObject → Prop} (ht : d.tables.find? id = some t) (hbody : (body t).Ensures E Q) :
    (d.modifyTable id body).Ensures E fun d' ↦
      ∃ t', Q t' ∧ d' = { d with tables := d.tables.set id t' } := by
  rw [Database.modifyTable, tableById_of_find? ht, Except.ok_bind]
  exact hbody.bind fun t' ht' ↦ .pure ⟨t', ht', rfl⟩

/-! ### Adjustments of cash -/

section Adjustments

variable {mode : Mode} {d : Database} {E : ChainError → Prop} {id : TableId} {t : TableObject} {p : PlayerId} {delta : Asset}

/-- **An adjustment that takes no more than there is** changes the money in the map by its delta. In
another asset than the core asset it fails, unless it does nothing. -/
theorem adjustEntry_ensures {m : FlatMap PlayerId Asset} (hm : CashOk m)
    (henough : 0 ≤ held m p + delta.amount)
    (hE : delta.assetId ≠ coreAsset → ∀ text, E (.assertion text)) :
    (adjustEntry m p delta).Ensures E fun r ↦
      CashOk r.cash ∧ held r.cash = held m + single p delta.amount ∧ r.overdrawn = 0 ∧
        worth r.cash = worth m + delta.value := by
  have hspec : ∀ r, delta.assetId = coreAsset ∨ delta.amount = 0 →
      adjustEntry m p delta = .ok r →
      CashOk r.cash ∧ held r.cash = held m + single p delta.amount ∧ r.overdrawn = 0 ∧
        worth r.cash = worth m + delta.value := by
    intro r hcore hr
    obtain ⟨hok, hheld, hover⟩ := adjustEntry_spec hm hr henough
    refine ⟨hok, hheld, hover, ?_⟩
    have hvalue : delta.value = single coreAsset delta.amount := by
      rcases hcore with hcore | hzero
      · exact Asset.value_of_core hcore
      · rw [Asset.value_of_zero hzero, hzero, single_zero]
    rw [hok.worth, hheld, hm.worth, map_add, Finsupp.degree_single, single_add, hvalue]
  by_cases hcore : delta.assetId = coreAsset
  · obtain ⟨r, hr⟩ := adjustEntry_total hm p hcore
    exact .of_exists ⟨r, hr, hspec r (Or.inl hcore) hr⟩
  · rcases hf : m.find? p with - | old
    -- without an entry nothing positive is a change; a positive amount is added to nothing in the core asset
    · by_cases hpos : 0 < delta.amount
      · rw [adjustEntry, hf]
        simp only [if_pos hpos]
        rw [Asset.add, Asset.sameAsset, fcAssert, if_neg (Ne.symm hcore)]
        exact hE hcore _
      · rw [held_of_find?_none hf] at henough
        refine .of_exists ⟨⟨m, .unchanged, 0⟩, ?_, hspec _ (Or.inr (by omega)) ?_⟩
        all_goals
          rw [adjustEntry, hf]
          simp only [if_neg hpos]
          rfl
    · have hne : old.assetId ≠ delta.assetId := by
        rw [(hm p old hf).2]
        exact Ne.symm hcore
      rw [adjustEntry, hf]
      simp only
      rw [Asset.add, Asset.sameAsset, fcAssert, if_neg hne]
      exact hE hcore _

theorem adjustCash_ensures (ht : t.CashesOk) (henough : 0 ≤ held t.cash p + delta.amount)
    (hE : delta.assetId ≠ coreAsset → ∀ text, E (.assertion text)) :
    (t.adjustCash p delta).Ensures E fun t' ↦
      CashMove t t' ∧ held t'.cash = held t.cash + single p delta.amount ∧
        t'.playingCash = t.playingCash ∧ t'.funds = t.funds + delta.value := by
  have hworth : (t.adjustCash p delta).Ensures E fun t' ↦ t'.funds = t.funds + delta.value := by
    refine (adjustEntry_ensures ht.cash henough hE).bind ?_
    rintro r ⟨-, -, -, hworth⟩
    refine .pure ?_
    simp only [TableObject.funds, hworth]
    abel
  refine hworth.with_eq.mono ?_
  rintro t' ⟨heq, hfunds⟩
  obtain ⟨hmove, hheld, hplay⟩ := adjustCash_spec ht heq henough
  exact ⟨hmove, hheld, hplay, hfunds⟩

theorem adjustPlayingCash_ensures (ht : t.CashesOk)
    (henough : 0 ≤ held t.playingCash p + delta.amount)
    (hE : delta.assetId ≠ coreAsset → ∀ text, E (.assertion text)) :
    (t.adjustPlayingCash p delta).Ensures E fun t' ↦
      CashMove t t' ∧ held t'.playingCash = held t.playingCash + single p delta.amount ∧
        t'.cash = t.cash ∧ t'.funds = t.funds + delta.value := by
  have hworth : (t.adjustPlayingCash p delta).Ensures E fun t' ↦
      t'.funds = t.funds + delta.value := by
    refine (adjustEntry_ensures ht.playingCash henough hE).bind ?_
    rintro r ⟨-, -, -, hworth⟩
    refine .pure ?_
    simp only [TableObject.funds, hworth]
    abel
  refine hworth.with_eq.mono ?_
  rintro t' ⟨heq, hfunds⟩
  obtain ⟨hmove, hheld, hcash⟩ := adjustPlayingCash_spec ht heq henough
  exact ⟨hmove, hheld, hcash, hfunds⟩

/-- A player's cash at the table is adjusted; money that arrives is announced. -/
theorem WellFormed.modifyCash (busy : TableId → Prop) (h : WellFormed mode d)
    (ht : d.tables.find? id = some t) (hp : d.players.Has p)
    (henough : 0 ≤ held t.cash p + delta.amount)
    (harrival : 0 < delta.amount → mode.unregistered id p)
    (hE : delta.assetId ≠ coreAsset → ∀ text, E (.assertion text)) :
    (d.modifyTable id fun t ↦ t.adjustCash p delta).Ensures E fun d' ↦
      ∃ t', d' = { d with tables := d.tables.set id t' } ∧ CashMove t t' ∧
        held t'.cash = held t.cash + single p delta.amount ∧ t'.playingCash = t.playingCash ∧
        Transfer mode busy d d' delta.value := by
  have hok := h.tables id t ht
  refine (modifyTable_ensures ht (adjustCash_ensures hok.cashes henough hE)).mono ?_
  rintro d' ⟨t', ⟨hmove, hheld, hplay, hfunds⟩, rfl⟩
  refine ⟨t', rfl, hmove, hheld, hplay, ?_⟩
  refine (h.moveCash ht hmove (has_of_held_add_single hok.cashes.cash hmove.ok.cash hheld hp
    hok.waiting) (by rw [hplay]; exact hok.playing) (fun q hn hq ↦ ?_) (fun _ ↦ hplay)
    fun _ ↦ hplay).congr (by rw [hfunds, add_sub_cancel_left])
  rw [TableObject.HasMoney, hplay] at hq
  rcases hq with hq | hq
  · rcases contains_of_held_add_single hok.cashes.cash hmove.ok.cash hheld hq with hq | ⟨rfl, hpos⟩
    · exact Or.inl hq
    · exact absurd (harrival hpos) hn
  · exact Or.inr hq

/-- A player's cash in the game is taken; the table is busy, and its game is ending. -/
theorem WellFormed.modifyPlayingCash (busy : TableId → Prop) (h : WellFormed mode d)
    (ht : d.tables.find? id = some t) (hb : busy id) (hend : mode.ending id) (hp : d.players.Has p)
    (henough : 0 ≤ held t.playingCash p + delta.amount) (hneg : delta.amount ≤ 0)
    (hE : delta.assetId ≠ coreAsset → ∀ text, E (.assertion text)) :
    (d.modifyTable id fun t ↦ t.adjustPlayingCash p delta).Ensures E fun d' ↦
      ∃ t', d' = { d with tables := d.tables.set id t' } ∧ CashMove t t' ∧
        held t'.playingCash = held t.playingCash + single p delta.amount ∧ t'.cash = t.cash ∧
        Transfer mode busy d d' delta.value := by
  have hok := h.tables id t ht
  refine (modifyTable_ensures ht (adjustPlayingCash_ensures hok.cashes henough hE)).mono ?_
  rintro d' ⟨t', ⟨hmove, hheld, hcash, hfunds⟩, rfl⟩
  refine ⟨t', rfl, hmove, hheld, hcash, ?_⟩
  refine (h.moveCash ht hmove (by rw [hcash]; exact hok.waiting) (has_of_held_add_single
    hok.cashes.playingCash hmove.ok.playingCash hheld hp hok.playing) (fun q _ hq ↦ ?_)
    (fun hn ↦ absurd hend hn) fun hn ↦ absurd hb hn).congr (by rw [hfunds, add_sub_cancel_left])
  rw [TableObject.HasMoney, hcash] at hq
  rcases hq with hq | hq
  · exact Or.inl hq
  · rcases contains_of_held_add_single hok.cashes.playingCash hmove.ok.playingCash hheld hq with
      hq | ⟨-, hpos⟩
    · exact Or.inr hq
    · exact absurd hpos hneg.not_gt

end Adjustments

end Playchain
