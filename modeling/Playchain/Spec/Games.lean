import Playchain.Spec.Rollback
import Playchain.Spec.Tally

/-!
# Decided votes

Starting a game moves the proposed cash from the table into the game; ending one moves the stakes of
the result's players back according to the result, books their rake, and returns the stakes of the
others. Both keep the money, because the accepted content still fits the table when it is applied:
a start is checked at the tally, and what a result must add up to does not change during a game.
-/

namespace Playchain

open Finsupp (single)

variable {mode : Mode} {d d' : Database} {E : ChainError → Prop} {table : TableId} {t : TableObject}

/-! ### Starting a game -/

/-- Reporting votes for another content: only the log changes. -/
theorem reportFrauds_ensures {α : Type} (get : VotingData → Except ChainError α)
    (event : AccountId → α → GameEvent) {owner : AccountId} {invalid : FlatMap AccountId VotingData}
    (hget : ∀ a x, invalid.find? a = some x → ∃ y, get x = .ok y) :
    (invalid.toList.foldlM (fun (d : Database) (p : AccountId × VotingData) ↦ do
      let y ← get p.2
      return d.pushGameEvent table owner (event p.1 y)) d).Ensures E fun d' ↦
        ∃ ops, d' = { d with appliedOperations := ops } := by
  refine Except.Ensures.foldlM (fun e ↦ ∃ ops, e = { d with appliedOperations := ops }) ?_
    (s := d) ⟨d.appliedOperations, rfl⟩
  rintro p hp _ ⟨ops, rfl⟩
  obtain ⟨y, hy⟩ := hget p.1 p.2 (FlatMap.find?_eq_some_iff.2 hp)
  exact .bind_of_eq hy (.pure ⟨_, rfl⟩)

/-- Cash moves at a table, and the data of its game are set. Nobody waits to leave, and nobody gets
money who had none. -/
theorem WellFormed.moveGame (h : WellFormed mode d) (ht : d.tables.find? table = some t)
    {t₁ : TableObject} (hmove : CashMove t t₁)
    (hmoney : ∀ p, t₁.HasMoney p → t.HasMoney p)
    (hnone : ¬mode.ending table → ∀ i b, d.pendingBuyOuts.find? i = some b → b.table ≠ table)
    (created : ℕ) (expiration : ℕ) (witnesses : FlatSet GameWitnessId)
    (hclock : ¬mode.ending table → GameClock mode.clock { t₁ with gameExpiration := expiration }) :
    Transfer mode (· = table) d { d with tables := d.tables.set table { t₁ with
      gameCreated := created, gameExpiration := expiration, votedWitnesses := witnesses } }
      (t₁.funds - t.funds) := by
  have hok := h.tables table t ht
  have heq := hmove.eq
  have hhas : ∀ p, t₁.HasMoney p → d.players.Has p :=
    fun p hp ↦ (hmoney p hp).elim (hok.waiting p) (hok.playing p)
  refine h.setTable { t₁ with
    gameCreated := created, gameExpiration := expiration, votedWitnesses := witnesses } ht ?_
    ⟨?_, ⟨hmove.ok.cash, hmove.ok.playingCash⟩, fun p hp ↦ hhas p (Or.inl hp),
      fun p hp ↦ hhas p (Or.inr hp), ?_, hmove.seats hok.seats⟩ ?_ ?_ hclock
    (fun hn i b hb hbt ↦ absurd hbt (hnone hn i b hb)) (fun p _ ↦ hmoney p) fun hn ↦ absurd rfl hn
  · show t₁.room = t.room
    rw [heq]
    rfl
  · show d.rooms.Has t₁.room
    rw [heq]
    exact hok.room
  · show t₁.overdrawn = 0
    rw [heq]
    exact hok.overdrawn
  · rintro rfl
    show t₁.metadata = ""
    rw [heq]
    exact h.nullMetadata t ht
  · intro p b hb
    change t₁.pendingProposals.find? p = some b at hb
    rw [heq] at hb
    exact hb

/-- Nobody waits to leave a table without game. -/
theorem WellFormed.not_leaving (h : WellFormed mode d) (ht : d.tables.find? table = some t)
    (hfree : t.isFree = true) (hn : ¬mode.ending table) (i : ℕ) (b : PendingBuyOutObject)
    (hb : d.pendingBuyOuts.find? i = some b) : b.table ≠ table := by
  rintro rfl
  obtain ⟨u, hu, hplaying⟩ := h.leaving i b hb hn
  obtain rfl := Option.some.inj (ht.symm.trans hu)
  rw [TableObject.isPlaying, FlatMap.isEmpty_iff.1 hfree] at hplaying
  cases hplaying

/-- The deadline of a game that starts now fits. -/
def Database.DeadlineFits (d : Database) : Prop :=
  d.headBlockTime + d.parameters.gameLifetimeLimitInSeconds < TimePointSec.maximum

theorem Database.DeadlineFits.ne_maximum (h : d.DeadlineFits) :
    TimePointSec.addSeconds d.headBlockTime d.parameters.gameLifetimeLimitInSeconds ≠
      TimePointSec.maximum := by
  rw [DeadlineFits] at h
  rw [TimePointSec.addSeconds, Nat.mod_eq_of_lt (lt_of_lt_of_le h (by decide))]
  exact h.ne

/-- **Starting a game keeps the money.** -/
theorem applyStartPlayingWithConsensus_ensures (h : WellFormed mode d)
    (ht : d.tables.find? table = some t) {c : Consensus} {data : GameInitialData}
    (hvalid : c.validVote = .gameInitialData data) (hfits : StartFits d.players t data)
    (hfree : t.isFree = true) (hclock : mode.clock → d.DeadlineFits)
    (hinvalid : ∀ a x, c.accountsWithInvalidVote.find? a = some x → x.isInitialData = true) :
    (applyStartPlayingWithConsensus d table c).Ensures E fun d' ↦
      Transfer mode (· = table) d d' 0 := by
  have hok := h.tables table t ht
  obtain ⟨owner, howner⟩ := hok.tableOwner
  rw [applyStartPlayingWithConsensus, hvalid,
    show (VotingData.gameInitialData data).getInitialData = .ok data from rfl, Except.ok_bind,
    tableById_of_find? ht, Except.ok_bind, howner, Except.ok_bind, cashPlaying_eq hfits.havePlayers,
    Except.ok_bind]
  obtain ⟨t₁, ht₁, hmove, hcash, hplay⟩ := startPlaying_spec hok.cashes hfits.cash hfits.enough
  -- nobody has money who had none: what is in the game was waiting at the table
  have hmoney : ∀ p, t₁.HasMoney p → t.HasMoney p := by
    have hnonneg := hfits.cash.held_nonneg
    rintro p (hp | hp)
    · refine Or.inl (hok.cashes.cash.held_pos_iff.1 ?_)
      have hpos := hmove.ok.cash.held_pos_iff.2 hp
      rw [hcash, Finsupp.sub_apply] at hpos
      have := hnonneg p
      omega
    · have hpos := hmove.ok.playingCash.held_pos_iff.2 hp
      rw [hplay, Finsupp.add_apply] at hpos
      rcases Int.lt_or_le 0 (held t.playingCash p) with hold | hold
      · exact Or.inr (hok.cashes.playingCash.held_pos_iff.1 hold)
      · refine Or.inl (hok.cashes.cash.held_pos_iff.1 ?_)
        have := hfits.enough p
        omega
  -- a valid start brings somebody's cash, so the table is in a game
  have hbusy : t₁.isFree = false := by
    obtain ⟨p, hp⟩ := hfits.exists_held_pos
    have hpos : 0 < held t₁.playingCash p := by
      rw [hplay, Finsupp.add_apply]
      have := hok.cashes.playingCash.held_nonneg p
      omega
    have hcontains := hmove.ok.playingCash.held_pos_iff.1 hpos
    refine Bool.eq_false_iff.2 fun hfree₁ ↦ ?_
    rw [FlatMap.isEmpty_iff.1 hfree₁] at hcontains
    cases hcontains
  refine (modifyTable_ensures ht (Q := fun t' ↦ t' = { t₁ with
    gameCreated := d.headBlockTime
    gameExpiration :=
      TimePointSec.addSeconds d.headBlockTime d.parameters.gameLifetimeLimitInSeconds
    votedWitnesses := c.requiredWitnesses }) ?_).bind ?_
  · exact .bind_of_eq ht₁ (.pure rfl)
  rintro _ ⟨_, rfl, rfl⟩
  have hmoved := h.moveGame ht hmove hmoney
    (h.not_leaving ht hfree) d.headBlockTime
    (TimePointSec.addSeconds d.headBlockTime d.parameters.gameLifetimeLimitInSeconds)
    c.requiredWitnesses fun _ ↦ ⟨fun hfree₁ ↦ absurd hfree₁ (by
      show ¬t₁.isFree = true
      rw [hbusy]
      exact Bool.false_ne_true), fun hc _ ↦ (hclock hc).ne_maximum⟩
  have htr : Transfer mode (· = table) d _ 0 := hmoved.congr (by
    rw [hmove.ok.funds, hok.cashes.funds, hcash, hplay, sub_eq_zero, map_sub, map_add]
    congr 1
    abel)
  have hlog := htr.trans_zero (htr.wf.log
    (.gameEvent table owner (.gameStartPlayingValidated data)))
  refine (reportFrauds_ensures VotingData.getInitialData
    (fun a y ↦ .fraudGameStartPlayingCheck a y.info data.info) (fun a x hx ↦ ?_)).mono ?_
  · cases x with
    | gameInitialData data' => exact ⟨data', rfl⟩
    | gameResult r => cases hinvalid a _ hx
  · rintro _ ⟨ops, rfl⟩
    exact hlog.trans_zero ⟨{ hlog.wf with }, .of_eq _ rfl rfl rfl rfl rfl rfl rfl, (add_zero _).symm⟩

/-! ### Ending a game -/

/-- The rake of a result. -/
def GameResult.rakes (r : GameResult) : ℤ := r.cash.sum fun _ g ↦ g.rake.amount

/-- **Booking the rake** notes what each player owes and adds it up for the room. -/
theorem bookRakes_ensures {r : GameResult} (hplayers : HavePlayers d.players r.cash)
    (hrake : ∀ a g, r.cash.find? a = some g → 0 ≤ g.rake.amount ∧ g.rake.assetId = coreAsset)
    (witnesses : FlatSet GameWitnessId) :
    (bookRakes d t witnesses r).Ensures E fun s ↦
      (∃ players, s.1 = { d with players := players } ∧
        ObjectIndex.Keeps PlayerObject.account d.players.toObjectIndex players.toObjectIndex) ∧
      s.2.1 = ⟨r.rakes, coreAsset⟩ ∧ s.2.2 = settledCash d.players r := by
  -- what is left of the list is still to be booked
  let I (l : List (AccountId × GamerCashResult))
      (s : Database × Asset × FlatMap PlayerId Asset) : Prop :=
    (∃ players, s.1 = { d with players := players } ∧
      ObjectIndex.Keeps PlayerObject.account d.players.toObjectIndex players.toObjectIndex) ∧
    (∀ p ∈ l, r.cash.find? p.1 = some p.2) ∧
    s.2.1 = ⟨r.rakes - (l.map fun p ↦ p.2.rake.amount).sum, coreAsset⟩ ∧
    l.foldl (fun c p ↦ c.insert (playerIdOf d.players p.1) p.2.cash) s.2.2 =
      settledCash d.players r
  refine (Except.Ensures.foldlM_suffix I ?_ ?_).mono ?_
  · rintro p l ⟨_, rake, c⟩ ⟨⟨players, rfl, hk⟩, hl, hsum, hcash⟩
    have hp := hl p List.mem_cons_self
    obtain ⟨obj, hobj⟩ := hplayers p.1 p.2 hp
    obtain ⟨obj', hobj'⟩ := UniqueIndex.findKey?_of_keeps hk hobj
    obtain ⟨hnonneg, hcore⟩ := hrake p.1 p.2 hp
    have hrest : ∀ q ∈ l, r.cash.find? q.1 = some q.2 := fun q hq ↦ hl q (List.mem_cons_of_mem _ hq)
    dsimp only at hsum hcash
    rw [List.map_cons, List.sum_cons] at hsum
    rw [getPlayer_of_findKey? (d := { d with players := players }) hobj', Except.ok_bind]
    by_cases hpos : 0 < p.2.rake.amount
    · rw [if_pos hpos, Asset.add_eq_ok.2 ⟨by rw [hsum, hcore], rfl⟩, Except.ok_bind]
      refine .pure ⟨⟨_, rfl, hk.trans (.modify _ _ fun _ ↦ rfl)⟩, hrest, ?_, hcash⟩
      show Asset.mk (rake.amount + p.2.rake.amount) rake.assetId = _
      rw [hsum, sub_add_eq_add_sub, add_sub_add_comm, sub_add_sub_cancel]
    · rw [if_neg hpos]
      refine .pure ⟨⟨_, rfl, hk⟩, hrest, ?_, hcash⟩
      rw [hsum, le_antisymm (not_lt.1 hpos) hnonneg, zero_add]
  · refine ⟨⟨_, rfl, .refl _ _⟩, fun p hp ↦ FlatMap.find?_eq_some_iff.2 hp, ?_, rfl⟩
    rw [GameResult.rakes, FlatMap.sum, sub_self]
  · rintro s ⟨hplayers', -, hsum, hcash⟩
    refine ⟨hplayers', ?_, hcash⟩
    rw [hsum, List.map_nil, List.sum_nil, sub_zero]

/-- A result of which part has been paid out: its players, their stakes and their rake are those of
the accepted result. -/
theorem Served.fits {r₀ : GameResult} {s : Database × GameResult} (hs : Served mode table r₀ d s)
    (ht : d.tables.find? table = some t) (hok : t.CashesOk)
    (hfits : ResultFits d.players t.playingCash r₀) :
    ∃ t', s.1.tables.find? table = some t' ∧ HavePlayers s.1.players s.2.cash ∧
      (∀ a g, s.2.cash.find? a = some g → 0 ≤ g.rake.amount ∧ g.rake.assetId = coreAsset) ∧
      (∀ a g, s.2.cash.find? a = some g → 0 < held t'.playingCash (playerIdOf s.1.players a)) ∧
      s.2.rakes = r₀.rakes ∧
      (s.2.cash.sum fun a _ ↦ held t'.playingCash (playerIdOf s.1.players a)) =
        r₀.cash.sum fun _ g ↦ g.cash.amount + g.rake.amount := by
  obtain ⟨t', ht', hstakes⟩ := hs.stakes t ht
  have horigin : ∀ a g, s.2.cash.find? a = some g →
      ∃ g₀, r₀.cash.find? a = some g₀ ∧ g₀.rake = g.rake := by
    intro a g ha
    have hrake := hs.rakes a
    rw [ha] at hrake
    exact Option.map_eq_some_iff.1 hrake.symm
  have hheld : ∀ a g₀, r₀.cash.find? a = some g₀ →
      held t'.playingCash (playerIdOf d.players a) = held t.playingCash (playerIdOf d.players a) := by
    intro a g₀ ha
    obtain ⟨⟨obj, hobj⟩, -⟩ := hfits.player a g₀ ha
    exact hstakes a _ obj (by rw [FlatMap.contains, ha]; rfl) hobj
  rw [hs.players]
  refine ⟨t', ht', fun a g ha ↦ ?_, fun a g ha ↦ ?_, fun a g ha ↦ ?_, ?_, ?_⟩
  · obtain ⟨g₀, hg₀, -⟩ := horigin a g ha
    exact (hfits.player a g₀ hg₀).1
  · obtain ⟨g₀, hg₀, hrake⟩ := horigin a g ha
    rw [← hrake]
    exact hfits.rake a g₀ hg₀
  · obtain ⟨g₀, hg₀, -⟩ := horigin a g ha
    rw [hheld a g₀ hg₀]
    exact hok.playingCash.held_pos_iff.2 (hfits.player a g₀ hg₀).2
  · exact hs.rakes.sum_eq fun _ x ↦ x.amount
  · rw [hfits.balanced, hs.rakes.sum_eq fun a _ ↦ held t'.playingCash (playerIdOf d.players a)]
    exact FlatMap.sum_congr fun a g₀ ha ↦ hheld a g₀ ha

theorem stakes_nonneg {playing : FlatMap PlayerId Asset} (h : CashOk playing)
    (l : List (PlayerId × Asset)) (p : PlayerId) : 0 ≤ stakes playing l p := by
  induction l with
  | nil => exact le_rfl
  | cons q l ih =>
    rw [stakes_cons, Finsupp.add_apply, Finsupp.single_apply]
    have := h.held_nonneg q.1
    split_ifs <;> omega

/-- What settling a result moves out of the game, by amounts. -/
theorem degree_stakes_settledCash {players : UniqueIndex PlayerObject.account} {r : GameResult}
    (hplayers : HavePlayers players r.cash) (playing : FlatMap PlayerId Asset) :
    (stakes playing (settledCash players r).toList).degree =
      r.cash.sum fun a _ ↦ held playing (playerIdOf players a) := by
  rw [← FlatMap.sum_rekey hplayers.injOn fun p _ ↦ held playing p, stakes, map_list_sum,
    List.map_map, FlatMap.sum]
  congr 1
  refine List.map_congr_left fun p _ ↦ ?_
  exact Finsupp.degree_single _ _

theorem degree_held_settledCash {players : UniqueIndex PlayerObject.account} {r : GameResult}
    (hplayers : HavePlayers players r.cash) :
    (held (settledCash players r)).degree = r.cash.sum fun _ g ↦ g.cash.amount := by
  rw [held, FlatMap.degree_holdings, settledCash, FlatMap.sum_rekey hplayers.injOn]

theorem PayoutOk.payout_eq {r : GameResult} (h : PayoutOk r) :
    r.payout = single coreAsset (r.cash.sum fun _ g ↦ g.cash.amount) := by
  rw [GameResult.payout, FlatMap.sum, FlatMap.sum, ← Finsupp.singleAddHom_apply, map_list_sum,
    List.map_map]
  congr 1
  refine List.map_congr_left fun p hp ↦ ?_
  exact Asset.value_of_core (h p.1 p.2 (FlatMap.find?_eq_some_iff.2 hp)).2

/-- **Settling a result** empties the game; the table gains the cash of the result and loses the
stakes of its players. -/
theorem settlePlaying_ensures {rooms : ObjectIndex RoomObject}
    {players : UniqueIndex PlayerObject.account} {r : GameResult}
    (hok : TableOk rooms players.toObjectIndex t) (hr : PayoutOk r)
    (hplayers : HavePlayers players r.cash)
    (hpos : ∀ a g, r.cash.find? a = some g → 0 < held t.playingCash (playerIdOf players a)) :
    (settlePlaying (settledCash players r) t).Ensures E fun t' ↦
      CashMove t t' ∧ t'.playingCash = ∅ ∧ (∀ p, t'.HasMoney p → t.HasMoney p) ∧
      t'.funds - t.funds = r.payout -
        single coreAsset (r.cash.sum fun a _ ↦ held t.playingCash (playerIdOf players a)) := by
  have hentries : ∀ p ∈ (settledCash players r).toList,
      0 ≤ p.2.amount ∧ p.2.assetId = coreAsset ∧ 0 < held t.playingCash p.1 := by
    intro p hp
    obtain ⟨a, g, hg, hpa, hpg⟩ :=
      (FlatMap.find?_rekey hplayers.injOn).1 (FlatMap.find?_eq_some_iff.2 hp)
    obtain ⟨hnonneg, hcore⟩ := hr a g hg
    rw [← hpa, ← hpg]
    exact ⟨hnonneg, hcore, hpos a g hg⟩
  obtain ⟨t', ht', hmove, hempty, hcash⟩ := settlePlaying_spec hok.cashes hentries
  refine .of_exists ⟨t', ht', hmove, hempty, fun p hp ↦ ?_, ?_⟩
  · rw [TableObject.HasMoney, hempty] at hp
    replace hp := hp.resolve_right fun hp ↦ by cases hp
    -- whoever is neither in the result nor in the game has waited at the table before
    rcases hc : (settledCash players r).find? p with - | v
    · have hpos' := hmove.ok.cash.held_pos_iff.2 hp
      rw [hcash, Finsupp.add_apply, Finsupp.add_apply, Finsupp.sub_apply, held_of_find?_none hc]
        at hpos'
      have hstakes := stakes_nonneg hok.cashes.playingCash (settledCash players r).toList p
      rcases Int.lt_or_le 0 (held t.playingCash p) with hplay | hplay
      · exact Or.inr (hok.cashes.playingCash.held_pos_iff.1 hplay)
      · exact Or.inl (hok.cashes.cash.held_pos_iff.1 (by omega))
    · have hentry := hentries (p, v) (FlatMap.find?_eq_some_iff.1 hc)
      exact Or.inr (hok.cashes.playingCash.held_pos_iff.1 hentry.2.2)
  · rw [hmove.ok.funds, hok.cashes.funds, hempty, hcash, hr.payout_eq, held_empty, map_zero, map_add,
      map_add, map_sub, degree_stakes_settledCash hplayers, degree_held_settledCash hplayers,
      ← Finsupp.single_sub, ← Finsupp.single_sub]
    congr 1
    ring

/-- The rake of a room grows. -/
theorem WellFormed.addRake (h : WellFormed mode d) (table : TableId) {id : RoomId} {room : RoomObject}
    (hroom : d.rooms.find? id = some room) (x : ℤ) :
    Transfer mode (· = table) d { d with rooms := d.rooms.modify id fun r ↦ { r with
      pendingRake := ⟨room.pendingRake.amount + x, room.pendingRake.assetId⟩ } }
      (single coreAsset x) := by
  have hcore := h.rakes id room hroom
  have hk : ObjectIndex.Keeps RoomObject.owner d.rooms.toObjectIndex
      (d.rooms.toObjectIndex.modify id fun r ↦ { r with
        pendingRake := ⟨room.pendingRake.amount + x, room.pendingRake.assetId⟩ }) :=
    .modify _ _ fun _ ↦ rfl
  refine Transfer.congr (h.setRooms (d.rooms.modify id fun r ↦ { r with
    pendingRake := ⟨room.pendingRake.amount + x, room.pendingRake.assetId⟩ }) hk ?_
    fun hn ↦ absurd rfl (hn table)) ?_
  · intro j r hr
    rw [UniqueIndex.toObjectIndex_modify, ObjectIndex.find?_modify] at hr
    split_ifs at hr
    · obtain ⟨r₀, -, rfl⟩ := Option.map_eq_some_iff.1 hr
      exact hcore
    · exact h.rakes j r hr
  · rw [UniqueIndex.toObjectIndex_modify, ObjectIndex.sum_modify _ hroom,
      ObjectIndex.sum_eq_add_remove _ hroom, add_sub_add_right_eq_sub, Asset.value, Asset.value,
      ← Finsupp.single_sub, hcore, add_sub_cancel_left]

/-- **Ending a game with a result keeps the money.** -/
theorem applyGameResultImpl_ensures (h : WellFormed mode d) (ht : d.tables.find? table = some t)
    {r : GameResult} (hfits : ResultFits d.players t.playingCash r)
    (hE : ¬mode.core → ∀ text, E (.assertion text)) (owner : AccountId)
    (witnesses : FlatSet GameWitnessId) :
    (applyGameResultImpl d table owner witnesses r).Ensures E fun d' ↦
      GameEnded mode table d d' := by
  have hpay : PayoutOk r := hfits.cash
  refine (pendingBuyoutsResolve_ensures owner (h.withEnding table) ⟨t, ht⟩ (Or.inl rfl) hpay hE).bind
    ?_
  rintro ⟨d₁, r₁⟩ ⟨hserved, hnone⟩
  obtain ⟨t₁, ht₁, hplayers₁, hrake₁, hpos₁, hrakes, hbalanced⟩ :=
    hserved.fits ht (h.tables table t ht).cashes hfits
  dsimp only at ht₁ hplayers₁ hrake₁ hpos₁ hrakes hbalanced hnone ⊢
  rw [tableById_of_find? ht₁, Except.ok_bind]
  refine (bookRakes_ensures hplayers₁ hrake₁ witnesses).bind ?_
  rintro ⟨d₂, rake, cashResult⟩ ⟨⟨players, hd₂, hk⟩, hrake, hcash⟩
  dsimp only at hd₂ hrake hcash ⊢
  have hwf₁ := hserved.transfer.wf
  have htr₂ : Transfer (mode.withEnding table) (· = table) d₁ d₂ 0 := hd₂ ▸ hwf₁.setPlayers hk
    fun hn ↦ absurd rfl (hn table)
  have hok₁ := hwf₁.tables table t₁ ht₁
  obtain ⟨room, hroom⟩ := hok₁.room
  have hroom₂ : d₂.rooms.find? t₁.room = some room := by
    rw [hd₂]
    exact hroom
  rw [roomById_of_find? hroom₂, Except.ok_bind,
    Asset.add_eq_ok.2 ⟨by rw [hrake, hwf₁.rakes _ _ hroom], rfl⟩, Except.ok_bind]
  -- the rakes move from the result to the room
  have htr₃ := htr₂.wf.addRake table hroom₂ rake.amount
  obtain ⟨d₃, hd₃⟩ : ∃ d₃, d₃ = { d₂ with rooms := d₂.rooms.modify t₁.room fun r ↦ { r with
    pendingRake := ⟨room.pendingRake.amount + rake.amount, room.pendingRake.assetId⟩ } } := ⟨_, rfl⟩
  rw [← hd₃] at htr₃ ⊢
  have ht₃ : d₃.tables.find? table = some t₁ := by
    rw [hd₃, hd₂]
    exact ht₁
  have hnone₃ : ∀ i b, d₃.pendingBuyOuts.find? i = some b → b.table ≠ table := by
    rw [hd₃, hd₂]
    exact hnone
  rw [hcash]
  refine (modifyTable_ensures ht₃ (Q := fun t' ↦ ∃ t₂,
    t' = { t₂ with
      gameCreated := TimePointSec.min, gameExpiration := TimePointSec.maximum, votedWitnesses := ∅ } ∧
      CashMove t₁ t₂ ∧
      t₂.playingCash = ∅ ∧ (∀ p, t₂.HasMoney p → t₁.HasMoney p) ∧
      t₂.funds - t₁.funds = r₁.payout - single coreAsset
        (r₁.cash.sum fun a _ ↦ held t₁.playingCash (playerIdOf d₁.players a))) ?_).bind ?_
  · refine (settlePlaying_ensures hok₁ hserved.payout hplayers₁ hpos₁).bind ?_
    rintro t₂ ⟨hmove, hempty, hmoney, hfunds⟩
    exact .pure ⟨t₂, rfl, hmove, hempty, hmoney, hfunds⟩
  rintro _ ⟨_, ⟨t₂, rfl, hmove, hempty, hmoney, hfunds⟩, rfl⟩
  have htr₄ := htr₃.wf.moveGame ht₃ hmove
    hmoney (fun hn ↦ absurd (Or.inl rfl) hn) TimePointSec.min
    TimePointSec.maximum ∅ fun hn ↦ absurd (Or.inl rfl) hn
  have hall : Transfer (mode.withEnding table) (· = table) d _ 0 :=
    (hserved.transfer.trans (htr₂.trans (htr₃.trans htr₄))).congr (by
      rw [hfunds, hbalanced, hrake, hrakes, hpay.payout_eq, FlatMap.sum_add, Finsupp.single_add,
        GameResult.rakes]
      abel)
  have hself : (d₃.tables.set table { t₂ with
      gameCreated := TimePointSec.min, gameExpiration := TimePointSec.maximum, votedWitnesses := ∅ }).find? table = some { t₂ with
      gameCreated := TimePointSec.min, gameExpiration := TimePointSec.maximum, votedWitnesses := ∅ } := ObjectIndex.find?_set_self ht₃ _
  -- with the game cleared, the table is no longer an exception
  have hwf := hall.wf.ended hnone₃ fun u hu ↦ by
    obtain rfl := Option.some.inj (hself.symm.trans hu)
    refine ⟨fun _ ↦ rfl, fun _ hfree ↦ ?_⟩
    rw [TableObject.isFree, hempty] at hfree
    cases hfree
  have hend : Transfer mode (· = table) d _ 0 := ⟨hwf, hall.frame, hall.total⟩
  exact .pure ⟨hend.trans_zero (hend.wf.log _), _, hself, hempty⟩

/-- **A decided result**: the game ends with it, or is rolled back if the result is empty. -/
theorem applyGameResultWithConsensus_ensures (h : WellFormed mode d)
    (ht : d.tables.find? table = some t) {c : Consensus} {r : GameResult}
    (hvalid : c.validVote = .gameResult r) (hfits : ResultFits d.players t.playingCash r)
    (hinvalid : ∀ a x, c.accountsWithInvalidVote.find? a = some x → x.isInitialData = false)
    (hE : ¬mode.core → ∀ text, E (.assertion text)) :
    (applyGameResultWithConsensus d table c).Ensures E fun d' ↦ GameEnded mode table d d' := by
  obtain ⟨owner, howner⟩ := (h.tables table t ht).tableOwner
  rw [applyGameResultWithConsensus, hvalid,
    show (VotingData.gameResult r).getGameResult = .ok r from rfl, Except.ok_bind,
    tableById_of_find? ht, Except.ok_bind, howner, Except.ok_bind]
  refine Except.Ensures.bind (Q := fun d' ↦ GameEnded mode table d d') ?_ ?_
  · by_cases hempty : r.cash.isEmpty = true
    · rw [if_pos hempty]
      exact (rollback_ensures h ⟨t, ht⟩ hE false).mono fun _ h' ↦ h'.1
    · rw [if_neg hempty,
        if_pos h.time]
      have himpl := applyGameResultImpl_ensures h ht hfits hE owner c.requiredWitnesses
      exact (withRegistrationBuyIn_ensures (Q := fun _ ↦ True) h
        (fun d ↦ applyGameResultImpl d table owner c.requiredWitnesses r) ⟨t, ht⟩
        (himpl.mono fun _ h' ↦ ⟨h', trivial⟩) fun _ _ _ _ ↦ trivial).mono fun _ h' ↦ h'.1
  · intro d₁ h₁
    refine (reportFrauds_ensures VotingData.getGameResult
      (fun a y ↦ .fraudGameResultCheck a y.log r.log) fun a x hx ↦ ?_).mono ?_
    · cases x with
      | gameInitialData data => cases hinvalid a _ hx
      | gameResult r' => exact ⟨r', rfl⟩
    · rintro _ ⟨ops, rfl⟩
      exact h₁.trans ⟨{ h₁.transfer.wf with }, .of_eq _ rfl rfl rfl rfl rfl rfl rfl,
        (add_zero _).symm⟩

end Playchain
