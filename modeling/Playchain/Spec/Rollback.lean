import Playchain.Spec.BuyIns
import Playchain.Spec.BuyOuts

/-!
# Rolling back a game

A rollback serves the pending buy-outs, then gives everything in the game back: to the cash at the
table, or — if the table is cleared — together with that cash to the accounts. It leaves the table
free, without a voting and without votes set aside (`Released`).
-/

namespace Playchain

open Finsupp (single)

variable {mode : Mode} {d d' : Database} {E : ChainError → Prop} {table : TableId}

/-! ### Votes that are dropped -/

/-- No vote is set aside for the table. -/
def NoPendingVotes (table : TableId) (d : Database) : Prop :=
  ∀ id w, d.pendingTableVotes.find? id = some w → w.table ≠ table

/-- There is neither a voting nor a vote set aside for the table. -/
structure Released (table : TableId) (d : Database) : Prop where
  voting : d.tableVotings.findKey? table = none
  pending : NoPendingVotes table d

/-- The table exists and no game is played at it. -/
def Free (table : TableId) (d : Database) : Prop :=
  ∃ t, d.tables.find? table = some t ∧ t.playingCash = ∅

section Frames

variable {busy : TableId → Prop}

theorem NoPendingVotes.of_frame (h : NoPendingVotes table d) (hf : Frame busy d d') :
    NoPendingVotes table d' :=
  fun id w hw ↦ h id w (hf.pendingVotes id w hw)

theorem Released.of_frame (h : Released table d) (hf : Frame busy d d') : Released table d' :=
  ⟨hf.no_voting h.voting, h.pending.of_frame hf⟩

theorem Free.of_frame (h : Free table d) (hf : Frame busy d d') (hb : ¬busy table) :
    Free table d' := by
  obtain ⟨t, ht, hfree⟩ := h
  obtain ⟨t', ht', -⟩ := hf.tables table t ht
  exact ⟨t', ht', (hf.games table t t' hb ht ht').trans hfree⟩

/-- **A table that has been released fits again.** -/
theorem VotesOk.of_released (h : VotesOk idle d) (hf : Frame (· = table) d d')
    (hr : Released table d') : VotesOk idle d' :=
  ((h.mono fun _ h ↦ h.elim).of_frame hf).release_of_none hr.voting hr.pending

end Frames

theorem WellFormed.cleanupPendingVotes (h : WellFormed mode d) (busy : TableId → Prop)
    (table : TableId) :
    Transfer mode busy d (cleanupPendingVotes d table) 0 ∧
      NoPendingVotes table (cleanupPendingVotes d table) ∧
      (cleanupPendingVotes d table).tables = d.tables ∧
      (cleanupPendingVotes d table).tableVotings = d.tableVotings := by
  rw [Playchain.cleanupPendingVotes,
    if_pos ((show hardforkPlaychain1Time ≤ hardforkPlaychain10Time by decide).trans h.time)]
  -- the votes still to be removed are those of the rest of the list
  let I (l : List (ℕ × PendingTableVoteObject)) (e : Database) : Prop :=
    Transfer mode busy d e 0 ∧ e.tables = d.tables ∧ e.tableVotings = d.tableVotings ∧
      ∀ id w, e.pendingTableVotes.find? id = some w → w.table = table → (id, w) ∈ l
  have hloop : ∀ l e, I l e → I [] (l.foldl (fun d v ↦
      { pushFailVoteOperation d v.2.vote with
        pendingTableVotes := d.pendingTableVotes.remove v.1 }) e) := by
    intro l
    induction l with
    | nil => exact fun _ he ↦ he
    | cons v l ih =>
      rintro e ⟨htr, htables, hvotings, hrest⟩
      refine ih _ ⟨?_, htables, hvotings, fun id w hw hwt ↦ ?_⟩
      · have hlog : Transfer mode busy e (pushFailVoteOperation e v.2.vote) 0 := htr.wf.log _
        exact htr.trans_zero (hlog.trans_zero (hlog.wf.removePendingVote v.1))
      · obtain ⟨hne, hw'⟩ := ObjectIndex.find?_of_find?_remove hw
        rcases List.mem_cons.1 (hrest id w hw' hwt) with heq | hmem
        · exact absurd (congrArg Prod.fst heq) hne
        · exact hmem
  obtain ⟨htr, htables, hvotings, hnone⟩ :=
    hloop (d.pendingTableVotes.toList.filter fun v ↦ v.2.table = table) d ⟨.refl h, rfl, rfl,
      fun id w hw hwt ↦
        List.mem_filter.2 ⟨ObjectIndex.find?_eq_some_iff.1 hw, decide_eq_true hwt⟩⟩
  refine ⟨htr, fun id w hw hwt ↦ ?_, htables, hvotings⟩
  exact List.not_mem_nil (hnone id w hw hwt)

theorem WellFormed.cleanupVoting (h : WellFormed mode d) (table : TableId) :
    Transfer mode (· = table) d (cleanupVoting d table) 0 ∧
      (cleanupVoting d table).tableVotings.findKey? table = none ∧
      (cleanupVoting d table).tables = d.tables := by
  rw [Playchain.cleanupVoting]
  rcases hv : d.tableVotings.findKey? table with - | v
  · exact ⟨.refl h, hv, rfl⟩
  · obtain ⟨hv', htable⟩ := UniqueIndex.findKey?_eq_some_iff.1 hv
    exact ⟨h.removeVoting hv' htable, htable ▸ UniqueIndex.findKey?_remove_self hv', rfl⟩

/-! ### The cash of a rolled back table -/

/-- Announcing the rollback and paying out a cleared table: only balances and the log change. -/
theorem returnCash_ensures (h : WellFormed mode d) {t : TableObject} (ht : d.tables.find? table = some t)
    (owner : AccountId) (fullClear : Bool) :
    (returnCash d table owner t fullClear).Ensures E fun d' ↦
      ∃ b ops, d' = { d with balances := b, appliedOperations := ops } ∧
        balancesTotal b = balancesTotal d.balances + if fullClear then t.funds else 0 := by
  have hok := h.tables table t ht
  rw [returnCash]
  cases fullClear with
  | false =>
    let I (e : Database) : Prop := ∃ ops, e = { d with appliedOperations := ops }
    refine (Except.Ensures.foldlM I ?_ ⟨_, rfl⟩).mono ?_
    · rintro p hp _ ⟨ops, rfl⟩
      obtain ⟨obj, hobj⟩ := hok.playing p.1 (FlatMap.contains_iff.2 (FlatMap.mem_keys_of_mem hp))
      exact .bind_of_eq (orUnableToFind_eq_ok.2 hobj) (.pure ⟨_, rfl⟩)
    · rintro _ ⟨ops, rfl⟩
      exact ⟨d.balances, ops, rfl, (add_zero _).symm⟩
  | true =>
    obtain ⟨c, hc, hcok, hheld⟩ := rollingCash_spec hok.cashes
    rw [if_pos rfl, hc, Except.ok_bind]
    have hworth : worth c = t.funds := by
      rw [hcok.worth, hheld, hok.cashes.funds, map_add, add_comm]
    have hhas : ∀ p ∈ c.toList, d.players.Has p.1 := by
      intro p hp
      have hpos := hcok.held_pos_iff.2 (FlatMap.contains_iff.2 (FlatMap.mem_keys_of_mem hp))
      rw [hheld, Finsupp.add_apply] at hpos
      rcases Int.lt_or_le 0 (held t.playingCash p.1) with hplay | hplay
      · exact hok.playing _ (hok.cashes.playingCash.held_pos_iff.1 hplay)
      · exact hok.waiting _ (hok.cashes.cash.held_pos_iff.1 (by omega))
    let I (l : List (PlayerId × Asset)) (e : Database) : Prop :=
      (∀ p ∈ l, d.players.Has p.1 ∧ 0 < p.2.amount) ∧
        ∃ b ops, e = { d with balances := b, appliedOperations := ops } ∧
          balancesTotal b + (l.map fun p ↦ p.2.value).sum = balancesTotal d.balances + t.funds
    refine (Except.Ensures.foldlM_suffix I ?_ ⟨fun p hp ↦ ⟨hhas p hp, (hcok.of_mem hp).1⟩,
      d.balances, d.appliedOperations, rfl, ?_⟩).mono ?_
    · rintro p l _ ⟨hl, b, ops, rfl, hb⟩
      obtain ⟨⟨obj, hobj⟩, hpos⟩ := hl p List.mem_cons_self
      refine .bind_of_eq (orUnableToFind_eq_ok.2 hobj) ?_
      refine (adjustBalance_ensures _ _ _ fun hneg ↦ absurd hneg hpos.le.not_gt).mono ?_
      rintro _ ⟨b', rfl, hb'⟩
      refine ⟨fun q hq ↦ hl q (List.mem_cons_of_mem _ hq), b', _, rfl, ?_⟩
      rw [hb', ← hb, List.map_cons, List.sum_cons, add_assoc]
      rfl
    · rw [← hworth]
      rfl
    · rintro _ ⟨-, b, ops, rfl, hb⟩
      exact ⟨b, ops, rfl, by rw [if_pos rfl, ← hb, List.map_nil, List.sum_nil, add_zero]⟩

/-- **The table after a rollback**: it is free, and nobody has got money who had none. -/
structure RolledBack (rooms : ObjectIndex RoomObject) (players : ObjectIndex PlayerObject)
    (fullClear : Bool) (t t' : TableObject) : Prop where
  ok : TableOk rooms players t'
  room : t'.room = t.room
  metadata : t'.metadata = t.metadata
  proposals : t'.pendingProposals = t.pendingProposals
  playingCash : t'.playingCash = ∅
  gameExpiration : t'.gameExpiration = TimePointSec.maximum
  funds : t'.funds = if fullClear then 0 else t.funds
  money : ∀ p, t'.HasMoney p → t.HasMoney p
  cleared : fullClear = true → t'.cash = ∅

theorem RolledBack.clock {rooms : ObjectIndex RoomObject} {players : ObjectIndex PlayerObject}
    {fullClear : Bool} {t t' : TableObject} (h : RolledBack rooms players fullClear t t')
    (fit : Prop) : GameClock fit t' := by
  refine ⟨fun _ ↦ h.gameExpiration, fun _ hfree ↦ ?_⟩
  rw [TableObject.isFree, h.playingCash] at hfree
  cases hfree

theorem rolledBack_ensures {rooms : ObjectIndex RoomObject} {players : ObjectIndex PlayerObject}
    {t : TableObject} (hok : TableOk rooms players t) (fullClear : Bool) :
    (rolledBack fullClear t).Ensures E (RolledBack rooms players fullClear t) := by
  let t₀ : TableObject :=
    { t with gameCreated := TimePointSec.min, gameExpiration := TimePointSec.maximum }
  have hseats₀ : t₀.SeatsOk := hok.seats
  cases fullClear with
  | true =>
    have hnobody : ∀ {players' : ObjectIndex PlayerObject} p,
        (∅ : FlatMap PlayerId Asset).contains p = true → players'.Has p := fun p hp ↦ by cases hp
    exact .pure
      { ok := ⟨hok.room, ⟨.empty, .empty⟩, hnobody, hnobody, hok.overdrawn,
          hseats₀.clearPlayingCash.clearCash⟩
        room := rfl
        metadata := rfl
        proposals := rfl
        playingCash := rfl
        gameExpiration := rfl
        funds := add_zero _
        money := fun p hp ↦ by rcases hp with hp | hp <;> cases hp
        cleared := fun _ ↦ rfl }
  | false =>
    obtain ⟨t₁, ht₁, hmove, hheld, hplay⟩ :=
      returnPlaying_spec (t := t₀) ⟨hok.cashes.cash, hok.cashes.playingCash⟩ hok.cashes.playingCash
    rw [rolledBack]
    simp only [Bool.false_eq_true, if_false]
    refine .bind_of_eq ht₁ (.pure ?_)
    have heq := hmove.eq
    have hmoney : ∀ p, t₁.cash.contains p = true → t.HasMoney p := by
      intro p hp
      have hpos := hmove.ok.cash.held_pos_iff.2 hp
      rw [hheld, Finsupp.add_apply] at hpos
      rcases Int.lt_or_le 0 (held t.playingCash p) with hplay | hplay
      · exact Or.inr (hok.cashes.playingCash.held_pos_iff.1 hplay)
      · refine Or.inl (hok.cashes.cash.held_pos_iff.1 ?_)
        change 0 < held t.cash p + _ at hpos
        omega
    have hcash : ∀ p, t₁.cash.contains p = true → players.Has p :=
      fun p hp ↦ (hmoney p hp).elim (hok.waiting p) (hok.playing p)
    have hworth : worth t₁.cash = t.funds := by
      rw [hmove.ok.cash.worth, hheld, hok.cashes.funds, map_add]
    exact
      { ok := ⟨show rooms.Has t₁.room by rw [heq]; exact hok.room, ⟨hmove.ok.cash, .empty⟩, hcash,
          fun p hp ↦ (by cases hp), show t₁.overdrawn = 0 by rw [heq]; exact hok.overdrawn,
          (hmove.seats hseats₀).clearPlayingCash⟩
        room := show t₁.room = t.room by rw [heq]; rfl
        metadata := show t₁.metadata = t.metadata by rw [heq]; rfl
        proposals := show t₁.pendingProposals = t.pendingProposals by rw [heq]; rfl
        playingCash := rfl
        gameExpiration := show t₁.gameExpiration = TimePointSec.maximum by rw [heq]; rfl
        funds := show worth t₁.cash + worth ∅ = t.funds by rw [hworth]; exact add_zero _
        money := fun p hp ↦ hp.elim (hmoney p) fun hp ↦ (by cases hp)
        cleared := fun hf ↦ (by cases hf) }

/-! ### Rollback -/

/-- What ending a game does to its table: the money is kept, and the table is free. -/
structure GameEnded (mode : Mode) (table : TableId) (d d' : Database) : Prop where
  transfer : Transfer mode (· = table) d d' 0
  free : Free table d'

theorem GameEnded.trans {d'' : Database} (h : GameEnded mode table d d')
    (h' : Transfer mode idle d' d'' 0) : GameEnded mode table d d'' :=
  ⟨h.transfer.trans_zero (h'.mono fun _ h ↦ h.elim), h.free.of_frame h'.frame id⟩

/-- A cleared table has no money. -/
def Cleared (table : TableId) (d : Database) : Prop :=
  ∀ t p, d.tables.find? table = some t → ¬t.HasMoney p

theorem rollbackImpl_ensures (h : WellFormed mode d) (htable : d.tables.Has table)
    (hE : ¬mode.core → ∀ text, E (.assertion text)) (fullClear : Bool) :
    (rollbackImpl d table fullClear).Ensures E fun d' ↦
      GameEnded mode table d d' ∧ NoPendingVotes table d' ∧
        (fullClear = true → Cleared table d') := by
  obtain ⟨t, ht⟩ := htable
  obtain ⟨owner, howner⟩ := (h.tables table t ht).tableOwner
  rw [rollbackImpl, tableById_of_find? ht, Except.ok_bind, howner, Except.ok_bind]
  have hlog : Transfer (mode.withEnding table) (· = table) d
      (d.pushGameEvent table owner .gameRollback) 0 := (h.withEnding table).log _
  have hnothing : PayoutOk {} := fun a g hg ↦ by cases hg
  refine (pendingBuyoutsResolve_ensures owner hlog.wf ⟨t, ht⟩ (Or.inl rfl) hnothing hE).bind ?_
  rintro ⟨d₁, r⟩ ⟨hserved, hnone⟩
  dsimp only at hnone ⊢
  obtain ⟨t₁, ht₁, -⟩ := hserved.stakes t ht
  -- an empty result stays empty, so nothing is taken from it
  have hzero : r.payout = 0 := by
    have hempty : r.cash = ∅ := by
      rw [← FlatMap.isEmpty_iff, FlatMap.isEmpty_iff_find?]
      intro a
      exact FlatMap.contains_eq_false_iff.1 (hserved.rakes.contains a)
    rw [GameResult.payout, hempty, FlatMap.sum_empty]
  have htr₁ := hlog.trans_zero (hserved.transfer.congr (show GameResult.payout {} - r.payout = 0 by
    rw [hzero]
    exact sub_zero _))
  dsimp only at ht₁ htr₁
  rw [tableById_of_find? ht₁, Except.ok_bind]
  have hok₁ := htr₁.wf.tables table t₁ ht₁
  refine (returnCash_ensures htr₁.wf ht₁ owner fullClear).bind ?_
  rintro _ ⟨b, ops, rfl, hb⟩
  refine (modifyTable_ensures (d := { d₁ with balances := b, appliedOperations := ops }) ht₁
    (rolledBack_ensures hok₁ fullClear)).bind ?_
  rintro _ ⟨t₂, hrolled, rfl⟩
  have htr₂ : Transfer (mode.withEnding table) (· = table) d₁
      { d₁ with balances := b, appliedOperations := ops } (if fullClear then t₁.funds else 0) := by
    have hbal : Transfer (mode.withEnding table) (· = table) d₁ { d₁ with balances := b } _ :=
      htr₁.wf.setBalances hb
    exact ⟨{ hbal.wf with }, .of_eq _ rfl rfl rfl rfl rfl rfl rfl, hbal.total⟩
  have htr₃ : Transfer (mode.withEnding table) (· = table) _ _ _ := htr₂.wf.setTable t₂ ht₁
    hrolled.room hrolled.ok
    (fun hnull ↦ by rw [hrolled.metadata]; exact htr₂.wf.nullMetadata t₁ (hnull ▸ ht₁))
    (fun p b hb ↦ by rw [hrolled.proposals] at hb; exact hb) (fun hn ↦ absurd (Or.inl rfl) hn)
    (fun hn ↦ absurd (Or.inl rfl) hn) (fun p _ hp ↦ hrolled.money p hp) fun hn ↦ absurd rfl hn
  have hend := htr₁.trans_zero ((htr₂.trans htr₃).congr (by
    rw [hrolled.funds]
    cases fullClear
    · simp
    · simp))
  have hself : (d₁.tables.set table t₂).find? table = some t₂ := ObjectIndex.find?_set_self ht₁ t₂
  have hwf := hend.wf.ended hnone fun u hu ↦ by
    rw [← Option.some.inj (hself.symm.trans hu)]
    exact hrolled.clock _
  have hend' : Transfer mode (· = table) d _ 0 := ⟨hwf, hend.frame, hend.total⟩
  obtain ⟨htr₄, hpending, htables, -⟩ := hwf.cleanupPendingVotes idle table
  refine .pure ⟨⟨hend'.trans_zero (htr₄.mono fun _ h ↦ h.elim), t₂, ?_, hrolled.playingCash⟩,
    hpending, fun hfull u p hu hp ↦ ?_⟩
  · rw [htables]
    exact hself
  · rw [htables] at hu
    obtain rfl := Option.some.inj (hself.symm.trans hu)
    rw [TableObject.HasMoney, hrolled.cleared hfull, hrolled.playingCash] at hp
    rcases hp with hp | hp <;> cases hp

/-- Whoever was in the game and has cash at the table afterwards is registered. -/
theorem withRegistrationBuyIn_ensures {Q : Database → Prop} (h : WellFormed mode d)
    (callback : Database → Except ChainError Database) (htable : d.tables.Has table)
    (hcall : (callback d).Ensures E fun d' ↦ GameEnded mode table d d' ∧ Q d')
    (hQ : ∀ d₁ d₂, Q d₁ → Frame idle d₁ d₂ → Q d₂) :
    (withRegistrationBuyIn d table callback).Ensures E fun d' ↦
      GameEnded mode table d d' ∧ Q d' := by
  obtain ⟨t, ht⟩ := htable
  rw [withRegistrationBuyIn, tableById_of_find? ht, Except.ok_bind]
  refine hcall.bind fun d₁ ⟨h₁, hQ₁⟩ ↦ ?_
  obtain ⟨t₁, ht₁, -⟩ := h₁.free
  rw [tableById_of_find? ht₁, Except.ok_bind]
  refine Except.Ensures.foldlM (fun e ↦ GameEnded mode table d e ∧ Q e) ?_ ⟨h₁, hQ₁⟩
  rintro p hp e ⟨he, hQe⟩
  have hplayer := (h.tables table t ht).playing p.1
    (FlatMap.contains_iff.2 (FlatMap.mem_keys_of_mem (List.mem_filter.1 hp).1))
  refine (registerBuyIn_ensures idle (he.transfer.wf.withArrival table p.1)
    (he.transfer.frame.players.has hplayer) (he.transfer.frame.tables.has ⟨t, ht⟩)).mono
    fun e' he' ↦ ?_
  exact ⟨he.trans he', hQ e e' hQe he'.frame⟩

/-- **A rollback keeps the money**, frees the table and drops its votes. -/
theorem rollback_ensures (h : WellFormed mode d) (htable : d.tables.Has table)
    (hE : ¬mode.core → ∀ text, E (.assertion text)) (fullClear : Bool) :
    (rollback d table fullClear).Ensures E fun d' ↦
      GameEnded mode table d d' ∧ Released table d' := by
  have himpl := rollbackImpl_ensures h htable hE fullClear
  rw [rollback,
    if_pos h.time]
  refine Except.Ensures.bind (Q := fun d' ↦ GameEnded mode table d d' ∧ NoPendingVotes table d')
    ?_ ?_
  · cases fullClear with
    | false =>
      exact withRegistrationBuyIn_ensures (Q := NoPendingVotes table) h
        (fun d ↦ rollbackImpl d table false) htable
        (himpl.mono fun _ h' ↦ ⟨h'.1, h'.2.1⟩) fun _ _ hn hf ↦ hn.of_frame hf
    | true =>
      refine himpl.bind fun d₁ ⟨h₁, hn₁, hclear⟩ ↦ .pure ?_
      have hclean : Transfer mode idle d₁ (cleanupBuyIns d₁ table) 0 :=
        h₁.transfer.wf.cleanupBuyIns (hclear rfl)
      exact ⟨h₁.trans hclean, hn₁.of_frame hclean.frame⟩
  · rintro d₁ ⟨h₁, hn₁⟩
    obtain ⟨hclean, hnone, htables⟩ := h₁.transfer.wf.cleanupVoting table
    refine .pure ⟨⟨h₁.transfer.trans_zero hclean, ?_⟩, hnone, hn₁.of_frame hclean.frame⟩
    rw [Free, htables]
    exact h₁.free

end Playchain
