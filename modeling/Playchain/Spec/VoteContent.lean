import Playchain.Lib.Rekey
import Playchain.Spec.Transfer

/-!
# The content of votes

A start proposal that passes its check can be carried out: its players wait at the table with at
least the proposed cash (`StartFits`). A result that passes its check balances (`ResultFits`).

The maps by account of the votes become maps by player (`FlatMap.rekey`); different accounts have
different players, so nothing is lost on the way.
-/

namespace Playchain

open Finsupp (single)

variable {mode : Mode} {d : Database} {E : ChainError → Prop}

/-! ### Accounts and players -/

theorem exists_findKey?_playerIdOf {players : UniqueIndex PlayerObject.account} {a : AccountId}
    {p : PlayerId × PlayerObject} (h : players.findKey? a = some p) :
    ∃ obj, players.findKey? a = some (playerIdOf players a, obj) := by
  rw [playerIdOf_of_findKey? h]
  exact ⟨p.2, h⟩

/-- Different accounts have different players. -/
theorem HavePlayers.injOn {α : Type} {players : UniqueIndex PlayerObject.account}
    {m : FlatMap AccountId α} (h : HavePlayers players m) :
    Set.InjOn (playerIdOf players) m.keys := by
  intro a ha b hb hab
  obtain ⟨x, hx⟩ := FlatMap.mem_keys.1 (Finset.mem_coe.1 ha)
  obtain ⟨y, hy⟩ := FlatMap.mem_keys.1 (Finset.mem_coe.1 hb)
  obtain ⟨p, hp⟩ := h a x hx
  obtain ⟨q, hq⟩ := h b y hy
  obtain ⟨hp, hpa⟩ := UniqueIndex.findKey?_eq_some_iff.1 hp
  obtain ⟨hq, hqb⟩ := UniqueIndex.findKey?_eq_some_iff.1 hq
  rw [hab] at hp
  have hpq : p = q := Option.some.inj (hp.symm.trans hq)
  exact hpa.symm.trans ((congrArg PlayerObject.account hpq).trans hqb)

/-! ### Start proposals -/

/-- The cash of a start proposal, by player. -/
def proposedCash (players : UniqueIndex PlayerObject.account) (data : GameInitialData) :
    FlatMap PlayerId Asset :=
  data.cash.rekey (playerIdOf players) id

/-- **A start proposal can be carried out**: every account has a player, and every player has the
proposed cash at the table. -/
structure StartFits (players : UniqueIndex PlayerObject.account) (t : TableObject)
    (data : GameInitialData) : Prop where
  havePlayers : HavePlayers players data.cash
  nonempty : data.cash.isEmpty = false
  cash : CashOk (proposedCash players data)
  enough : ∀ p, held (proposedCash players data) p ≤ held t.cash p

/-- Somebody brings cash. -/
theorem StartFits.exists_held_pos {players : UniqueIndex PlayerObject.account} {t : TableObject}
    {data : GameInitialData} (h : StartFits players t data) :
    ∃ p, 0 < held (proposedCash players data) p := by
  obtain ⟨a, v, ha⟩ := FlatMap.isEmpty_eq_false_iff.1 h.nonempty
  refine ⟨playerIdOf players a, h.cash.held_pos_iff.2 ?_⟩
  rw [FlatMap.contains, proposedCash, FlatMap.find?_rekey_of_find? h.havePlayers.injOn ha]
  rfl

theorem initialCash_eq_some {t : TableObject} {data : GameInitialData} {c : FlatMap PlayerId Asset}
    (h : initialCash d t data = some c) :
    c = proposedCash d.players data ∧ HavePlayers d.players data.cash ∧
      ∀ a v, data.cash.find? a = some v →
        0 < v.amount ∧ t.cash.contains (playerIdOf d.players a) = true := by
  have hloop := FlatMap.foldlM_insert_eq_some (f := playerIdOf d.players) (g := id)
    (Q := fun p ↦ 0 < p.2.amount ∧
      (∃ obj, d.players.findKey? p.1 = some (playerIdOf d.players p.1, obj)) ∧
      t.cash.contains (playerIdOf d.players p.1) = true) ?_ h
  · obtain ⟨hall, rfl⟩ := hloop
    refine ⟨rfl, fun a v ha ↦ ?_, fun a v ha ↦ ?_⟩
    · exact (hall (a, v) (FlatMap.find?_eq_some_iff.1 ha)).2.1
    · have := hall (a, v) (FlatMap.find?_eq_some_iff.1 ha)
      exact ⟨this.1, this.2.2⟩
  · intro c p c' hstep
    split_ifs at hstep with hpos
    rw [Option.bind_eq_bind, Option.bind_eq_some_iff] at hstep
    obtain ⟨player, hplayer, hstep⟩ := hstep
    have hid := playerIdOf_of_findKey? hplayer
    rw [← hid] at hstep
    split_ifs at hstep with hwait
    exact ⟨⟨not_le.1 hpos, exists_findKey?_playerIdOf hplayer, hwait⟩, (Option.some.inj hstep).symm⟩

/-- The cash of a start by player, as it is computed where every account has a player. -/
theorem cashPlaying_eq {data : GameInitialData} (h : HavePlayers d.players data.cash) :
    (data.cash.toList.foldlM (fun (cash : FlatMap PlayerId Asset) p ↦ do
      return cash.insert (← d.getPlayer p.1).1 p.2) ∅ : Except ChainError _) =
      .ok (proposedCash d.players data) := by
  refine FlatMap.foldlM_insert_eq_ok (g := id) fun c p hp ↦ ?_
  obtain ⟨obj, hobj⟩ := h p.1 p.2 (FlatMap.find?_eq_some_iff.2 hp)
  rw [getPlayer_of_findKey? hobj, Except.ok_bind]
  rfl

/-- A proposal can be compared with the etalon vote. -/
theorem matchesEtalon_total {table : TableId}
    (h : EtalonOk d.players ((d.tableVotings.findKey? table).bind fun v ↦ v.2.etalonVote))
    (c : FlatMap PlayerId Asset) : ∃ b, matchesEtalon d table c = .ok b := by
  rw [matchesEtalon]
  split
  case h_1 etalon hsome =>
    split_ifs
    · exact ⟨_, rfl⟩
    · rw [cashPlaying_eq (h etalon hsome), Except.ok_bind]
      exact ⟨_, rfl⟩
  case h_2 => exact ⟨_, rfl⟩

/-- **What the check of a start proposal establishes.** It cannot fail on amounts of the core
asset. -/
theorem validateInitialData_ensures (h : WellFormed mode d) {table : TableId} {t : TableObject}
    (ht : t.CashesOk)
    (hetalon : EtalonOk d.players ((d.tableVotings.findKey? table).bind fun v ↦ v.2.etalonVote))
    {data : GameInitialData}
    (hE : ¬VoteOk d.players t.playingCash (.gameInitialData data) → ∀ text, E (.assertion text)) :
    (validateInitialData d table t data).Ensures E fun b ↦ b = true →
      StartFits d.players t data := by
  rw [validateInitialData]
  by_cases hempty : data.cash.isEmpty = true
  · rw [if_pos hempty]
    refine .pure fun hlt ↦ absurd (of_decide_eq_true hlt) (not_lt.2 ?_)
    exact (show hardforkPlaychain6Time ≤ hardforkPlaychain10Time by decide).trans h.time
  rw [if_neg hempty]
  rcases hc : initialCash d t data with - | c
  · exact .pure fun hf ↦ by cases hf
  obtain ⟨rfl, hplayers, hall⟩ := initialCash_eq_some hc
  simp only
  have hfind : ∀ {p v}, (proposedCash d.players data).find? p = some v →
      ∃ a, data.cash.find? a = some v ∧ playerIdOf d.players a = p := by
    intro p v hp
    obtain ⟨a, w, hw, ha, rfl⟩ := (FlatMap.find?_rekey hplayers.injOn).1 hp
    exact ⟨a, hw, ha⟩
  -- every compared pair: the proposal is in the core asset and covered
  refine Except.Ensures.bind (Q := fun b ↦ b = true → ∀ p v,
    (proposedCash d.players data).find? p = some v →
      v.assetId = coreAsset ∧ v.amount ≤ held t.cash p) ?_ ?_
  · refine (Except.Ensures.allM (Q := fun p ↦ ∀ v,
      (proposedCash d.players data).find? p.1 = some v →
        v.assetId = coreAsset ∧ v.amount ≤ p.2.amount) fun p hp ↦ ?_).mono ?_
    · obtain ⟨hp, hcontains⟩ := List.mem_filter.1 hp
      have hcore := (ht.cash.of_mem hp).2
      obtain ⟨v, hv⟩ := FlatMap.mem_keys.1 (FlatMap.contains_iff.1 hcontains)
      rw [hv, Option.getD_some, Asset.lt, Asset.sameAsset]
      by_cases hsame : p.2.assetId = v.assetId
      · rw [fcAssert_of_true hsame]
        refine .pure fun hlt w hw ↦ ?_
        obtain rfl := Option.some.inj hw
        exact ⟨hsame.symm.trans hcore, by simpa using hlt⟩
      · rw [fcAssert, if_neg hsame]
        obtain ⟨a, ha, -⟩ := hfind hv
        exact hE (fun hok ↦ hsame (hcore.trans (hok.2 a v ha).symm)) _
    · intro b hb htrue p v hv
      obtain ⟨a, ha, rfl⟩ := hfind hv
      obtain ⟨cash, hcash⟩ := FlatMap.mem_keys.1 (FlatMap.contains_iff.1 (hall a v ha).2)
      rw [held_of_find?_some hcash]
      refine hb htrue (_, cash) (List.mem_filter.2 ⟨FlatMap.find?_eq_some_iff.1 hcash, ?_⟩) v hv
      exact FlatMap.contains_iff.2 (FlatMap.mem_keys.2 ⟨v, hv⟩)
  · intro enough henough
    have hfits : enough = true → StartFits d.players t data := by
      intro he
      refine ⟨hplayers, Bool.not_eq_true _ ▸ hempty, fun p v hv ↦ ?_, fun p ↦ ?_⟩
      · obtain ⟨a, ha, -⟩ := hfind hv
        exact ⟨(hall a v ha).1, (henough he p v hv).1⟩
      · rcases hp : (proposedCash d.players data).find? p with - | v
        · rw [held_of_find?_none hp]
          exact ht.cash.held_nonneg p
        · rw [held_of_find?_some hp]
          exact (henough he p v hp).2
    split_ifs with hnot
    · exact .pure fun hf ↦ by cases hf
    · obtain ⟨b, hb⟩ := matchesEtalon_total hetalon (proposedCash d.players data)
      exact .of_exists ⟨b, hb, fun _ ↦ hfits (by simpa using hnot)⟩
    · exact .pure fun _ ↦ hfits (by simpa using hnot)

/-- A proposal that can be carried out is in the core asset. -/
theorem StartFits.voteOk {players : UniqueIndex PlayerObject.account} {t : TableObject}
    {data : GameInitialData} (h : StartFits players t data) (playing : FlatMap PlayerId Asset) :
    VoteOk players playing (.gameInitialData data) := by
  refine ⟨h.havePlayers, fun a v ha ↦ ?_⟩
  exact (h.cash _ _ (FlatMap.find?_rekey_of_find? h.havePlayers.injOn ha)).2

/-! ### Results -/

/-- The cash of a result, by player. -/
def settledCash (players : UniqueIndex PlayerObject.account) (r : GameResult) :
    FlatMap PlayerId Asset :=
  r.cash.rekey (playerIdOf players) GamerCashResult.cash

theorem resultCash_eq_some {r : GameResult} {c : FlatMap PlayerId Asset}
    (h : resultCash d r = some c) :
    c = settledCash d.players r ∧ HavePlayers d.players r.cash ∧
      ∀ a g, r.cash.find? a = some g → 0 ≤ g.cash.amount ∧ 0 ≤ g.rake.amount := by
  have hloop := FlatMap.foldlM_insert_eq_some (f := playerIdOf d.players) (g := GamerCashResult.cash)
    (Q := fun p ↦ (0 ≤ p.2.cash.amount ∧ 0 ≤ p.2.rake.amount) ∧
      ∃ obj, d.players.findKey? p.1 = some (playerIdOf d.players p.1, obj)) ?_ h
  · obtain ⟨hall, rfl⟩ := hloop
    refine ⟨rfl, fun a g ha ↦ ?_, fun a g ha ↦ ?_⟩
    · exact (hall (a, g) (FlatMap.find?_eq_some_iff.1 ha)).2
    · exact (hall (a, g) (FlatMap.find?_eq_some_iff.1 ha)).1
  · intro c p c' hstep
    split_ifs at hstep with hneg
    rw [Option.bind_eq_bind, Option.bind_eq_some_iff] at hstep
    obtain ⟨player, hplayer, hstep⟩ := hstep
    rw [← playerIdOf_of_findKey? hplayer] at hstep
    rw [not_or, not_lt, not_lt] at hneg
    exact ⟨⟨hneg, exists_findKey?_playerIdOf hplayer⟩, (Option.some.inj hstep).symm⟩

/-- What a result gives to a player and takes as rake. -/
def outcomeOf (d : Database) (r : GameResult) (p : PlayerId) : ℤ :=
  ((d.players.find? p).bind fun obj ↦ r.cash.find? obj.account).elim 0 fun g ↦
    g.cash.amount + g.rake.amount

/-- The result's entry for a player is in the core asset. -/
def OutcomeCore (d : Database) (r : GameResult) (p : PlayerId) : Prop :=
  ∃ obj g, d.players.find? p = some obj ∧ r.cash.find? obj.account = some g ∧
    g.cash.assetId = coreAsset ∧ g.rake.assetId = coreAsset

theorem outcomeOf_playerIdOf {r : GameResult} (hplayers : HavePlayers d.players r.cash)
    {a : AccountId} {g : GamerCashResult} (ha : r.cash.find? a = some g) :
    outcomeOf d r (playerIdOf d.players a) = g.cash.amount + g.rake.amount := by
  obtain ⟨obj, hobj⟩ := hplayers a g ha
  obtain ⟨hfind, hkey⟩ := UniqueIndex.findKey?_eq_some_iff.1 hobj
  rw [outcomeOf, hfind, Option.bind_some, hkey, ha]
  rfl

/-- The loop that adds up stakes and outcomes. -/
theorem addBalances_ensures (hE : Refusals E) (r : GameResult) (l : List (PlayerId × Asset))
    {s : Asset × Asset} (hs : s.1.assetId = coreAsset ∧ s.2.assetId = coreAsset) :
    (l.foldlM (fun (s : Asset × Asset) (p : PlayerId × Asset) ↦ do
      let inBalance ← s.1.add p.2
      let account := (← d.playerById p.1).account
      let player ← orMissing (r.cash.find? account)
      let outBalance ← s.2.add player.cash
      let outBalance ← outBalance.add player.rake
      return (inBalance, outBalance)) s).Ensures E fun s' ↦
        s'.1 = Asset.mk (s.1.amount + (l.map fun p : PlayerId × Asset ↦ p.2.amount).sum)
          coreAsset ∧
        s'.2 = Asset.mk (s.2.amount + (l.map fun p : PlayerId × Asset ↦ outcomeOf d r p.1).sum)
          coreAsset ∧
        ∀ p ∈ l, OutcomeCore d r p.1 := by
  have hadd : ∀ a b : Asset, (a.add b).Ensures E fun c ↦
      a.assetId = b.assetId ∧ c = ⟨a.amount + b.amount, a.assetId⟩ := by
    intro a b
    exact (fcAssert_ensures fun _ ↦ hE.assertion).bind fun _ heq ↦ .pure ⟨heq, rfl⟩
  induction l generalizing s with
  | nil =>
    obtain ⟨⟨x, _⟩, ⟨y, _⟩⟩ := s
    obtain ⟨rfl, rfl⟩ := hs
    refine ⟨?_, ?_, by simp⟩
    · simp
    · simp
  | cons p l ih =>
    rw [List.foldlM_cons]
    refine Except.Ensures.bind (Q := fun s' ↦
      s'.1 = ⟨s.1.amount + p.2.amount, coreAsset⟩ ∧
      s'.2 = ⟨s.2.amount + outcomeOf d r p.1, coreAsset⟩ ∧ OutcomeCore d r p.1) ?_ ?_
    · refine (hadd _ _).bind ?_
      rintro _ ⟨-, rfl⟩
      refine (orUnableToFind_ensures fun _ ↦ hE.assertion).bind fun obj hobj ↦ ?_
      refine (orMissing_ensures fun _ ↦ hE.missingObject).bind fun g hg ↦ ?_
      refine (hadd _ _).bind ?_
      rintro _ ⟨hcash, rfl⟩
      refine (hadd _ _).bind ?_
      rintro _ ⟨hrake, rfl⟩
      refine .pure ⟨by rw [hs.1], ?_, obj, g, hobj, hg, hcash.symm.trans hs.2, hrake.symm.trans hs.2⟩
      have hout : outcomeOf d r p.1 = g.cash.amount + g.rake.amount := by
        rw [outcomeOf, hobj, Option.bind_some, hg]
        rfl
      rw [hs.2, hout, add_assoc]
    · rintro s' ⟨h₁, h₂, hp⟩
      refine (ih ⟨by rw [h₁], by rw [h₂]⟩).mono ?_
      rintro s'' ⟨h₁', h₂', hl⟩
      refine ⟨?_, ?_, fun q hq ↦ ?_⟩
      · rw [h₁', h₁, List.map_cons, List.sum_cons, add_assoc]
      · rw [h₂', h₂, List.map_cons, List.sum_cons, add_assoc]
      · rcases List.mem_cons.1 hq with rfl | hq
        · exact hp
        · exact hl q hq

/-- **What the check of a result establishes.** -/
theorem validateGameResult_ensures (hE : Refusals E) {t : TableObject} (r : GameResult) :
    (validateGameResult d t r).Ensures E fun b ↦ b = true →
      ResultFits d.players t.playingCash r := by
  rw [validateGameResult]
  by_cases hempty : r.cash.isEmpty = true
  · rw [if_pos hempty]
    have hnone := FlatMap.isEmpty_iff_find?.1 hempty
    refine .pure fun _ ↦ ⟨fun a g ha ↦ ?_, fun a g ha ↦ ?_, fun a g ha ↦ ?_, ?_⟩
    · rw [hnone a] at ha; cases ha
    · rw [hnone a] at ha; cases ha
    · rw [hnone a] at ha; cases ha
    · rw [FlatMap.isEmpty_iff.1 hempty, FlatMap.sum_empty, FlatMap.sum_empty]
  rw [if_neg hempty]
  rcases hc : resultCash d r with - | c
  · exact .pure fun hf ↦ by cases hf
  obtain ⟨rfl, hplayers, hnonneg⟩ := resultCash_eq_some hc
  simp only
  by_cases hlen : (t.playingCash.toList.filter fun p ↦
      (settledCash d.players r).contains p.1).length = (settledCash d.players r).size
  · rw [if_neg (not_not.2 hlen)]
    refine (addBalances_ensures hE r _ (s := ({}, {})) ⟨rfl, rfl⟩).bind ?_
    rintro ⟨inB, outB⟩ ⟨hin, hout, hcore⟩
    refine .pure fun heq ↦ ?_
    have heq : inB = outB := of_decide_eq_true heq
    -- a player of the result is in the game, and was looked at by the loop
    have hplaying : ∀ a g, r.cash.find? a = some g → ∃ v,
        t.playingCash.find? (playerIdOf d.players a) = some v ∧
        (playerIdOf d.players a, v) ∈ t.playingCash.toList.filter fun p ↦
          (settledCash d.players r).contains p.1 := by
      intro a g ha
      have hkey : playerIdOf d.players a ∈ (settledCash d.players r).keys :=
        FlatMap.mem_keys.2 ⟨_, FlatMap.find?_rekey_of_find? hplayers.injOn ha⟩
      obtain ⟨v, hv⟩ := FlatMap.mem_keys.1 (FlatMap.mem_keys_of_common hlen hkey)
      exact ⟨v, hv, List.mem_filter.2 ⟨FlatMap.find?_eq_some_iff.1 hv, FlatMap.contains_iff.2 hkey⟩⟩
    have hassets : ∀ a g, r.cash.find? a = some g →
        g.cash.assetId = coreAsset ∧ g.rake.assetId = coreAsset := by
      intro a g ha
      obtain ⟨v, -, hmem⟩ := hplaying a g ha
      obtain ⟨obj, g', hobj, hg', hassets⟩ := hcore _ hmem
      obtain ⟨obj', hobj'⟩ := hplayers a g ha
      obtain ⟨hfind, hkey⟩ := UniqueIndex.findKey?_eq_some_iff.1 hobj'
      obtain rfl := Option.some.inj (hobj.symm.trans hfind)
      rw [hkey, ha] at hg'
      rw [Option.some.inj hg']
      exact hassets
    refine ⟨fun a g ha ↦ ⟨(hnonneg a g ha).1, (hassets a g ha).1⟩,
      fun a g ha ↦ ⟨(hnonneg a g ha).2, (hassets a g ha).2⟩, fun a g ha ↦ ⟨hplayers a g ha, ?_⟩, ?_⟩
    · obtain ⟨v, hv, -⟩ := hplaying a g ha
      exact FlatMap.contains_iff.2 (FlatMap.mem_keys.2 ⟨v, hv⟩)
    · have hin' : (t.playingCash.toList.filter fun p ↦
          (settledCash d.players r).contains p.1).map (fun p ↦ p.2.amount) =
          (t.playingCash.toList.filter fun p ↦
            (settledCash d.players r).contains p.1).map fun p ↦ held t.playingCash p.1 := by
        refine List.map_congr_left fun p hp ↦ ?_
        rw [held_of_find?_some (FlatMap.find?_eq_some_iff.2 (List.mem_of_mem_filter hp))]
      have hamount : inB.amount = outB.amount := congrArg Asset.amount heq
      simp only at hin hout
      rw [hin, hout, hin', FlatMap.sum_common hlen, FlatMap.sum_common hlen, settledCash,
        FlatMap.sum_rekey hplayers.injOn, FlatMap.sum_rekey hplayers.injOn] at hamount
      have hsum : (r.cash.sum fun a _ ↦ outcomeOf d r (playerIdOf d.players a)) =
          r.cash.sum fun _ g ↦ g.cash.amount + g.rake.amount :=
        FlatMap.sum_congr fun a g ha ↦ outcomeOf_playerIdOf hplayers ha
      rw [hsum] at hamount
      simpa using hamount.symm
  · rw [if_pos hlen]
    exact .pure fun hf ↦ by cases hf

/-- A vote whose content passes its check is in order. -/
theorem validateInvariants_ensures (h : WellFormed mode d) (hE : Refusals E) {table : TableId}
    {t : TableObject} (ht : t.CashesOk)
    (hetalon : EtalonOk d.players ((d.tableVotings.findKey? table).bind fun v ↦ v.2.etalonVote))
    (x : VotingData) :
    (validateInvariants d table t x).Ensures E fun b ↦ b = true →
      VoteOk d.players t.playingCash x := by
  cases x with
  | gameInitialData data =>
    exact (validateInitialData_ensures h ht hetalon fun _ ↦ hE.assertion).mono
      fun _ hb hb' ↦ (hb hb').voteOk _
  | gameResult r => exact validateGameResult_ensures hE r

end Playchain
