import Playchain.BlockTasks.PendingBuyIn
import Playchain.Spec.BuyIns

/-!
# Reservations

A reservation holds money until it is resolved at a table, cancelled, replaced or expired. The tables
propose only reservations that exist and are allocated to them (`WellFormed.proposals`), so a
reservation may be removed once its own proposal has been withdrawn (`unproposed_of_withdrawn`).
-/

namespace Playchain

open Finsupp (single single_neg)

variable {mode : Mode} (busy : TableId → Prop) {d : Database} {E : ChainError → Prop}

/-! ### Proposals -/

theorem removePendingProposal_eq (t : TableObject) (p : PlayerId) :
    ∃ n, t.removePendingProposal p =
      { t with pendingProposals := t.pendingProposals.erase p, occupiedPlaces := n } := by
  rw [TableObject.removePendingProposal]
  rcases hp : t.pendingProposals.find? p with - | b
  · exact ⟨t.occupiedPlaces, by rw [FlatMap.erase_of_find?_none hp]⟩
  · exact ⟨_, rfl⟩

/-- The player of a reservation that is not the null one. -/
theorem ReservationOk.player {players : UniqueIndex PlayerObject.account} {id : PendingBuyInId}
    {b : PendingBuyInObject} (h : ReservationOk players id b)
    (hn : id ≠ nullPendingBuyIn ∨ b.isAllocated = true) :
    ∃ obj, players.findKey? b.player = some (b.playerInternal, obj) := by
  rcases h with ⟨hid, htable⟩ | ⟨-, hobj⟩
  · rcases hn with hn | hn
    · exact absurd hid hn
    · rw [PendingBuyInObject.isAllocated, htable] at hn
      exact absurd hn (by decide)
  · exact hobj

/-- A reservation that is not allocated is not proposed. -/
theorem WellFormed.unproposed_of_not_allocated (h : WellFormed mode d) {id : PendingBuyInId}
    {b : PendingBuyInObject} (hb : d.pendingBuyIns.find? id = some b)
    (halloc : b.isAllocated = false) : Unproposed d.tables id := by
  intro j t p ht hp
  obtain ⟨b', hb', halloc', -⟩ := h.proposals j t p id ht hp
  rw [hb] at hb'
  rw [← Option.some.inj hb', halloc] at halloc'
  cases halloc'

/-- Withdrawing the proposal of a reservation leaves it unproposed. -/
theorem WellFormed.unproposed_of_withdrawn (h : WellFormed mode d) {id : PendingBuyInId}
    {b : PendingBuyInObject} (hb : d.pendingBuyIns.find? id = some b) {t t' : TableObject}
    (ht : d.tables.find? b.table = some t)
    (hprop : t'.pendingProposals = t.pendingProposals.erase b.playerInternal) :
    Unproposed (d.tables.set b.table t') id := by
  intro j u p hu hp
  rw [ObjectIndex.find?_set] at hu
  split_ifs at hu with hj
  · subst hj
    rw [ht] at hu
    obtain rfl := Option.some.inj hu
    -- the erased proposal is the only one of this table that may name the reservation
    rw [hprop, FlatMap.find?_erase] at hp
    split_ifs at hp with hpp
    obtain ⟨b', hb', -, -, hplayer⟩ := h.proposals _ t p id ht hp
    rw [hb] at hb'
    rw [← Option.some.inj hb'] at hplayer
    exact hpp hplayer.symm
  · obtain ⟨b', hb', -, htable, -⟩ := h.proposals j u p id hu hp
    rw [hb] at hb'
    rw [← Option.some.inj hb'] at htable
    exact hj htable.symm

/-- A table without one of its proposals. -/
theorem WellFormed.withdrawProposal (h : WellFormed mode d) {id : TableId} {t : TableObject}
    (ht : d.tables.find? id = some t) (p : PlayerId) :
    Transfer mode busy d { d with tables := d.tables.set id (t.removePendingProposal p) } 0 := by
  have hok := h.tables _ t ht
  obtain ⟨n, hn⟩ := removePendingProposal_eq t p
  rw [hn]
  let t' : TableObject :=
    { t with pendingProposals := t.pendingProposals.erase p, occupiedPlaces := n }
  have hseats : t'.SeatsOk := by
    have hseats := hok.seats.removePendingProposal p
    rw [hn] at hseats
    exact hseats
  have hok' : TableOk d.rooms.toObjectIndex d.players.toObjectIndex t' :=
    ⟨hok.room, ⟨hok.cashes.cash, hok.cashes.playingCash⟩, hok.waiting, hok.playing, hok.overdrawn,
      hseats⟩
  refine h.describeTable ht (show t'.room = t.room from rfl) hok' ?_ ?_ rfl rfl rfl
  · rintro rfl
    exact h.nullMetadata t ht
  · intro q b' hb'
    change (t.pendingProposals.erase p).find? q = some b' at hb'
    rw [FlatMap.find?_erase] at hb'
    split_ifs at hb'
    exact hb'

theorem withdrawProposal_ensures (h : WellFormed mode d) {id : PendingBuyInId}
    {b : PendingBuyInObject} (hb : d.pendingBuyIns.find? id = some b)
    (halloc : b.isAllocated = true) :
    (d.modifyTable b.table fun t ↦ return t.removePendingProposal b.playerInternal).Ensures E
      fun d' ↦ ∃ tables, d' = { d with tables := tables } ∧ Unproposed tables id ∧
        Transfer mode busy d d' 0 := by
  obtain ⟨t, ht⟩ := (h.pendingBuyIns id b hb).2.1 halloc
  have hbody : Except.Ensures
      (pure (t.removePendingProposal b.playerInternal) : Except ChainError TableObject) E
      (· = t.removePendingProposal b.playerInternal) := .pure rfl
  refine (modifyTable_ensures ht hbody).mono ?_
  rintro _ ⟨t', rfl, rfl⟩
  refine ⟨_, rfl, h.unproposed_of_withdrawn hb ht ?_, h.withdrawProposal busy ht _⟩
  obtain ⟨n, hn⟩ := removePendingProposal_eq t b.playerInternal
  rw [hn]

/-! ### Measurements -/

theorem WellFormed.modifyMeasurement (h : WellFormed mode d) (id : ℕ)
    {g : RoomRatingMeasurementObject → RoomRatingMeasurementObject}
    (hg : ∀ m, (g m).associatedBuyin = m.associatedBuyin) :
    Transfer mode busy d
      { d with roomRatingMeasurements := d.roomRatingMeasurements.modify id g hg } 0 := by
  refine h.setMeasurements fun j m hj ↦ ?_
  rw [UniqueIndex.toObjectIndex_modify, ObjectIndex.find?_modify] at hj
  split_ifs at hj
  · obtain ⟨m', hm', rfl⟩ := Option.map_eq_some_iff.1 hj
    rw [hg]
    exact h.measurements j m' hm'
  · exact h.measurements j m hj

theorem WellFormed.removeMeasurement (h : WellFormed mode d) (id : ℕ) :
    Transfer mode busy d
      { d with roomRatingMeasurements := d.roomRatingMeasurements.remove id } 0 :=
  h.setMeasurements fun _ _ hj ↦ h.measurements _ _ (ObjectIndex.find?_of_find?_remove hj).2

/-! ### Giving the money back -/

/-- The money of an unproposed reservation goes back to its account, whatever is reported in
between. -/
theorem returnReservation_ensures (h : WellFormed mode d) {id : PendingBuyInId}
    {b : PendingBuyInObject} (hb : d.pendingBuyIns.find? id = some b)
    (hfree : Unproposed d.tables id) (report : Database → Except ChainError Database)
    (hreport : ∀ d₁, WellFormed mode d₁ → d₁.tables = d.tables →
      d₁.pendingBuyIns = d.pendingBuyIns → (report d₁).Ensures E fun d₂ ↦
        d₂.tables = d₁.tables ∧ d₂.pendingBuyIns = d₁.pendingBuyIns ∧ Transfer mode busy d₁ d₂ 0) :
    (do
      let d ← d.adjustBalance b.player b.amount
      let d ← report d
      return { d with pendingBuyIns := d.pendingBuyIns.remove id }).Ensures E fun d' ↦
        d'.tables = d.tables ∧ d'.pendingBuyIns = d.pendingBuyIns.remove id ∧
          Transfer mode busy d d' 0 := by
  have hnonneg := (h.pendingBuyIns id b hb).1
  refine (adjustBalance_ensures d b.player b.amount (by omega)).bind ?_
  rintro _ ⟨bal, rfl, hbal⟩
  have h₁ : Transfer mode busy d { d with balances := bal } b.amount.value := h.setBalances hbal
  refine (hreport _ h₁.wf rfl rfl).bind ?_
  rintro d₂ ⟨htables, hbuyIns, h₂⟩
  have hb₂ : d₂.pendingBuyIns.find? id = some b := by rw [hbuyIns]; exact hb
  have hfree₂ : Unproposed d₂.tables id := by rw [htables]; exact hfree
  refine .pure ⟨htables, by simp only [hbuyIns], ?_⟩
  refine ((h₁.trans h₂).trans (h₂.wf.removePendingBuyIn hb₂ hfree₂)).congr ?_
  rw [add_zero, add_neg_cancel]

/-- `cancel_pending_buyin` gives the money back and removes the reservation. -/
theorem cancelPendingBuyin_ensures (h : WellFormed mode d) {id : PendingBuyInId}
    {b : PendingBuyInObject} (hb : d.pendingBuyIns.find? id = some b) :
    (cancelPendingBuyin d id b).Ensures E fun d' ↦
      d'.pendingBuyIns = d.pendingBuyIns.remove id ∧ Transfer mode busy d d' 0 := by
  rw [cancelPendingBuyin]
  refine Except.Ensures.bind (Q := fun d₁ ↦ d₁.pendingBuyIns = d.pendingBuyIns ∧
    Unproposed d₁.tables id ∧ Transfer mode busy d d₁ 0) ?_ ?_
  · split_ifs with halloc
    · obtain ⟨obj, hobj⟩ := (h.pendingBuyIns id b hb).2.2.player (Or.inr halloc)
      rw [getPlayer_of_findKey? hobj, Except.ok_bind]
      have hrest : ∀ d₀, d₀.pendingBuyIns = d.pendingBuyIns → Transfer mode busy d d₀ 0 →
          (d₀.modifyTable b.table fun t ↦ return t.removePendingProposal b.playerInternal).Ensures E
            fun d₁ ↦ d₁.pendingBuyIns = d.pendingBuyIns ∧ Unproposed d₁.tables id ∧
              Transfer mode busy d d₁ 0 := by
        intro d₀ hbuyIns h₀
        refine (withdrawProposal_ensures busy h₀.wf (hbuyIns ▸ hb) halloc).mono ?_
        rintro _ ⟨tables, rfl, hfree, h₁⟩
        exact ⟨hbuyIns, hfree, h₀.trans_zero h₁⟩
      rcases d.roomRatingMeasurements.findKey? id with - | m
      · exact hrest d rfl (.refl h)
      · exact hrest _ rfl (h.removeMeasurement busy m.1)
    · exact .pure ⟨rfl, h.unproposed_of_not_allocated hb (Bool.not_eq_true _ ▸ halloc), .refl h⟩
  rintro d₁ ⟨hbuyIns, hfree, h₁⟩
  have hb₁ : d₁.pendingBuyIns.find? id = some b := by rw [hbuyIns]; exact hb
  refine (returnReservation_ensures busy h₁.wf hb₁ hfree pure
    fun d₂ h₂ _ _ ↦ .pure ⟨rfl, rfl, .refl h₂⟩).mono ?_
  rintro d₂ ⟨-, hbuyIns₂, h₂⟩
  exact ⟨by rw [hbuyIns₂, hbuyIns], h₁.trans_zero h₂⟩

/-! ### The operations -/

/-- A new reservation that belongs to a player. -/
theorem WellFormed.createPendingBuyIn (h : WellFormed mode d) {b : PendingBuyInObject}
    {buyIns : UniqueIndex fun b : PendingBuyInObject ↦ (b.player, b.uid)}
    (hbuyIns : buyIns.toObjectIndex = d.pendingBuyIns.toObjectIndex.create b)
    (hnonneg : 0 ≤ b.amount.amount) (halloc : b.isAllocated = false)
    (hok : ∀ id, ReservationOk d.players id b) :
    Transfer mode busy d { d with pendingBuyIns := buyIns } b.amount.value := by
  refine ⟨{ h with proposals := ?_, pendingBuyIns := ?_, measurements := ?_ },
    .of_eq busy rfl rfl rfl rfl rfl rfl rfl, ?_⟩
  · intro j t p b' ht hp
    obtain ⟨buyIn, hbuyIn, hrest⟩ := h.proposals j t p b' ht hp
    refine ⟨buyIn, ?_, hrest⟩
    rw [hbuyIns]
    exact ObjectIndex.find?_create_of_some hbuyIn b
  · intro j b' hj
    rw [hbuyIns, ObjectIndex.find?_create] at hj
    split_ifs at hj
    · obtain rfl := Option.some.inj hj
      exact ⟨hnonneg, fun ha ↦ absurd (halloc.symm.trans ha) (by decide), hok j⟩
    · exact h.pendingBuyIns j b' hj
  · intro j m hm
    obtain ⟨hlt, hm'⟩ := h.measurements j m hm
    rw [hbuyIns]
    refine ⟨hlt.trans (Nat.lt_succ_self _), fun b' hb' ↦ hm' b' ?_⟩
    rwa [ObjectIndex.find?_create, if_neg hlt.ne] at hb'
  · simp only [Database.total, hbuyIns, ObjectIndex.sum_create]
    abel

theorem fromVariant_ensures (hE : Refusals E) (text : String) (target : VersionExt) :
    (VersionExt.fromVariant text target).Ensures E fun _ ↦ True := by
  rw [VersionExt.fromVariant]
  refine Except.Ensures.bind (Q := fun _ ↦ True) ?_ fun base _ ↦ ?_
  · refine (fcAssert_ensures fun _ ↦ hE.assertion).bind fun _ _ ↦ ?_
    refine (fcAssert_ensures fun _ ↦ hE.assertion).bind fun _ _ ↦ ?_
    refine (fcAssert_ensures fun _ ↦ hE.assertion).bind fun _ _ ↦ ?_
    refine (fcAssert_ensures fun _ ↦ hE.assertion).bind fun _ _ ↦ ?_
    exact (fcAssert_ensures fun _ ↦ hE.assertion).bind fun _ _ ↦ .pure trivial
  · split
    · exact .pure trivial
    · exact .pure trivial

/-- Reserving moves money from the account into a reservation. -/
theorem applyBuyInReserve_ensures (h : WellFormed mode d) (hE : Refusals E) {op : BuyInReserve}
    (hpos : 0 < op.amount.amount) (hmeta : op.metadata ≠ "") :
    (applyBuyInReserve d op).Ensures E fun d' ↦ Transfer mode busy d d' 0 := by
  refine (orUnableToFind_ensures fun _ ↦ hE.assertion).bind fun _ _ ↦ ?_
  refine (orMissing_ensures fun _ ↦ hE.missingObject).bind fun player hplayer ↦ ?_
  refine (fromVariant_ensures hE _ _).bind fun version _ ↦ ?_
  refine (adjustBalance_ensures d op.player (-op.amount) fun _ ↦ hE.assertion).bind ?_
  rintro _ ⟨bal, rfl, hbal⟩
  have h₁ : Transfer mode busy d { d with balances := bal } (-op.amount).value := h.setBalances hbal
  refine (create?_ensures fun _ ↦ hE.assertion).bind fun buyIns ⟨_, hbuyIns⟩ ↦ .pure ?_
  refine (h₁.trans (h₁.wf.createPendingBuyIn busy hbuyIns hpos.le rfl
    fun _ ↦ Or.inr ⟨hmeta, player.2, hplayer⟩)).congr ?_
  rw [Asset.value_neg, neg_add_cancel]

theorem applyBuyInReservingCancel_ensures (h : WellFormed mode d) (hE : Refusals E)
    (op : BuyInReservingCancel) :
    (applyBuyInReservingCancel d op).Ensures E fun d' ↦ Transfer mode busy d d' 0 := by
  refine (orMissing_ensures fun _ ↦ hE.missingObject).bind fun b hb ↦ ?_
  exact (cancelPendingBuyin_ensures busy h (UniqueIndex.findKey?_eq_some_iff.1 hb).1).mono
    fun _ h' ↦ h'.2

theorem applyBuyInReservingCancelAll_ensures (h : WellFormed mode d) (op : BuyInReservingCancelAll) :
    (applyBuyInReservingCancelAll d op).Ensures E fun d' ↦ Transfer mode busy d d' 0 := by
  have hnd : ((pendingBuyInsOf d op.player).map Prod.fst).Nodup :=
    d.pendingBuyIns.objects.nodup_fst.sublist ((List.filter_sublist).map Prod.fst)
  refine Except.Ensures.foldlM_each Prod.fst (fun d' ↦ Transfer mode busy d d' 0)
    (fun b d' ↦ d'.pendingBuyIns.find? b.1 = some b.2) ?_ hnd (fun b hb ↦ ?_) (.refl h)
  · intro b d' h' hb
    refine (cancelPendingBuyin_ensures busy h'.wf hb).mono ?_
    rintro d'' ⟨hbuyIns, h''⟩
    refine ⟨h'.trans_zero h'', fun c hne hc ↦ ?_⟩
    rw [hbuyIns]
    exact (ObjectIndex.find?_remove_of_ne _ hne).trans hc
  · exact ObjectIndex.find?_eq_some_iff.2 (List.mem_of_mem_filter hb)

/-- What the checks of a resolution establish: the table proposes the reservation. -/
theorem evaluateBuyInReservingResolve_ensures (h : WellFormed mode d) (hE : Refusals E)
    (op : BuyInReservingResolve) :
    (evaluateBuyInReservingResolve d op).Ensures E fun _ ↦
      ∃ t b, d.tables.find? op.table = some t ∧ d.pendingBuyIns.find? op.pendingBuyin = some b ∧
        t.pendingProposals.find? b.playerInternal = some op.pendingBuyin := by
  refine (fcAssert_ensures fun _ ↦ hE.assertion).bind fun _ _ ↦ ?_
  refine (orUnableToFind_ensures fun _ ↦ hE.assertion).bind fun t ht ↦ ?_
  obtain ⟨r, hr⟩ := (h.tables _ t ht).isTableOwner op.tableOwner
  rw [hr, Except.ok_bind]
  refine (fcAssert_ensures fun _ ↦ hE.assertion).bind fun _ _ ↦ ?_
  refine (fcAssert_ensures fun _ ↦ hE.assertion).bind fun _ _ ↦ ?_
  refine (orUnableToFind_ensures fun _ ↦ hE.assertion).bind fun b hb ↦ ?_
  refine (orMissing_ensures fun _ ↦ hE.missingObject).bind fun player hplayer ↦ ?_
  refine (fcAssert_ensures fun _ ↦ hE.assertion).mono fun _ hprop ↦ ⟨t, b, ht, hb, ?_⟩
  obtain ⟨b', hb', -, -, hinternal⟩ := h.proposals _ t _ _ ht hprop
  rw [hb] at hb'
  rw [Option.some.inj hb', hinternal]
  exact hprop

/-- The money of a reservation arrives at the table that proposes it. -/
theorem resolveAtTable_ensures (h : WellFormed mode d) (hE : Refusals E) {table : TableId}
    {id : PendingBuyInId} {t : TableObject} {b : PendingBuyInObject}
    (ht : d.tables.find? table = some t) (hb : d.pendingBuyIns.find? id = some b)
    (htable : b.table = table) (hp : d.players.Has b.playerInternal) :
    (do
      let d ← d.modifyTable table fun t ↦
        (t.removePendingProposal b.playerInternal).adjustCash b.playerInternal b.amount
      registerBuyInAlive { d with pendingBuyIns := d.pendingBuyIns.remove id }
        b.playerInternal table).Ensures E fun d' ↦ Transfer mode busy d d' 0 := by
  subst htable
  have hok := h.tables _ t ht
  obtain ⟨n, hn⟩ := removePendingProposal_eq t b.playerInternal
  rw [Database.modifyTable, tableById_of_find? ht, Except.ok_bind, hn, bind_assoc]
  let t₁ : TableObject :=
    { t with pendingProposals := t.pendingProposals.erase b.playerInternal, occupiedPlaces := n }
  have hok₁ : t₁.CashesOk := ⟨hok.cashes.cash, hok.cashes.playingCash⟩
  have henough : 0 ≤ held t₁.cash b.playerInternal + b.amount.amount :=
    add_nonneg (hok₁.cash.held_nonneg _) (h.pendingBuyIns id b hb).1
  refine (adjustCash_ensures hok₁ henough fun _ ↦ hE.assertion).bind ?_
  rintro t' ⟨hmove, hheld, hplay, hfunds⟩
  have heq := hmove.eq
  have hprop : t'.pendingProposals = t.pendingProposals.erase b.playerInternal := by rw [heq]; rfl
  have hok' : TableOk d.rooms.toObjectIndex d.players.toObjectIndex t' := by
    refine ⟨?_, hmove.ok, ?_, ?_, ?_, ?_⟩
    · rw [heq]
      exact hok.room
    · exact has_of_held_add_single hok₁.cash hmove.ok.cash hheld hp hok.waiting
    · rw [hplay]
      exact hok.playing
    · rw [heq]
      exact hok.overdrawn
    · have hseats := hok.seats.removePendingProposal b.playerInternal
      rw [hn] at hseats
      exact hmove.seats hseats
  -- between the money and the registration the player may be at the table without a stay
  have harrival := h.withArrival b.table b.playerInternal
  have h₁ : Transfer (mode.withArrival b.table b.playerInternal) busy d
      { d with tables := d.tables.set b.table t' } (t'.funds - t.funds) := by
    refine harrival.setTable _ ht (by rw [heq]; rfl) hok' ?_ ?_ (fun hend ↦ ?_)
      (fun hend i c hc hct ↦ ?_) (fun q hq hmoney ↦ ?_) fun _ ↦ hplay
    · intro hid
      rw [heq]
      exact h.nullMetadata t (hid ▸ ht)
    · intro q c hc
      rw [hprop, FlatMap.find?_erase] at hc
      split_ifs at hc
      exact hc
    · have hexp : t'.gameExpiration = t.gameExpiration := by
        rw [heq]
        rfl
      have hclock := h.clock _ t ht hend
      rw [GameClock, TableObject.isFree, hplay, hexp]
      exact hclock
    · obtain ⟨u, hu, hplaying⟩ := h.leaving i c hc (by rw [hct]; exact hend)
      rw [hct, ht] at hu
      rw [TableObject.isPlaying, hplay, show t₁.playingCash = t.playingCash from rfl,
        Option.some.inj hu]
      exact hplaying
    · rcases hmoney with hwaits | hplays
      · rcases contains_of_held_add_single hok₁.cash hmove.ok.cash hheld hwaits with hw | ⟨rfl, -⟩
        · exact Or.inl hw
        · exact absurd (Or.inl ⟨rfl, rfl⟩) hq
      · rw [hplay] at hplays
        exact Or.inr hplays
  have h₂ := h₁.trans (h₁.wf.removePendingBuyIn hb (h.unproposed_of_withdrawn hb ht hprop))
  refine (registerBuyInAlive_ensures busy h₂.wf hp ⟨t', ObjectIndex.find?_set_self ht t'⟩).mono ?_
  intro d' h'
  refine (h₂.trans h').congr ?_
  rw [hfunds, show t₁.funds = t.funds from rfl]
  abel

/-- Resolving moves the money of a reservation to the table that proposes it. -/
theorem applyBuyInReservingResolve_ensures (h : WellFormed mode d) (hE : Refusals E)
    {op : BuyInReservingResolve} {t : TableObject} {b : PendingBuyInObject}
    (ht : d.tables.find? op.table = some t) (hb : d.pendingBuyIns.find? op.pendingBuyin = some b)
    (hprop : t.pendingProposals.find? b.playerInternal = some op.pendingBuyin) :
    (applyBuyInReservingResolve d op).Ensures E fun d' ↦ Transfer mode busy d d' 0 := by
  obtain ⟨b', hb', halloc, htable, -⟩ := h.proposals _ t _ _ ht hprop
  obtain rfl := Option.some.inj (hb.symm.trans hb')
  obtain ⟨obj, hobj⟩ := (h.pendingBuyIns _ b hb).2.2.player (Or.inr halloc)
  have hp : d.players.Has b.playerInternal := ⟨_, (UniqueIndex.findKey?_eq_some_iff.1 hobj).1⟩
  rw [applyBuyInReservingResolve, Database.pendingBuyInById, orUnableToFind_eq_ok.2 hb,
    Except.ok_bind, getPlayer_of_findKey? hobj, Except.ok_bind]
  rcases d.roomRatingMeasurements.findKey? op.pendingBuyin with - | m
  · exact resolveAtTable_ensures busy h hE ht hb htable hp
  · have h₁ := h.modifyMeasurement busy m.1
      (g := fun m ↦ { m with waitingResolve := false, weight := 1 }) fun _ ↦ rfl
    exact (resolveAtTable_ensures busy h₁.wf hE ht hb htable hp).mono fun _ h' ↦ h₁.trans_zero h'

end Playchain
