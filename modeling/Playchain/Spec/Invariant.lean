import Playchain.Spec.Cash
import Playchain.Spec.Frame

/-!
# The invariant

* `WellFormed` — references lead to objects, cash maps, seats and game deadlines are in order, players
  with money at a table are registered there, reservations and the proposals of tables agree. A `Mode`
  says what is assumed about the run and which parts are suspended in the middle of a step.
* `VotesOk` — a voting and the votes set aside for a table have the kind that fits the table, and
  result votes still balance. It is stated for the tables that are not `busy`: while a tally is
  applied its table is busy.
* `Database.total` — the money at the tables and in the accounts, by asset.

`Transfer` collects what the lemmas about the chain's functions say: the function keeps `WellFormed`,
is framed, and changes the total by a given amount.
-/

namespace Playchain

/-! ### Well-formedness -/

/-- What is assumed about a run, and what is suspended in the middle of a step. -/
structure Mode where
  /-- Every pending buy-out is in the core asset. -/
  core : Prop
  /-- The deadline of every game is before the end of time. -/
  clock : Prop
  /-- Players whose money has arrived at a table and who are not registered there yet. -/
  unregistered : TableId → PlayerId → Prop := fun _ _ ↦ False
  /-- Tables whose game is about to end: their buy-outs are being served. -/
  ending : TableId → Prop := fun _ ↦ False

/-- The player's money is arriving at the table. -/
def Mode.withArrival (mode : Mode) (id : TableId) (p : PlayerId) : Mode :=
  { mode with unregistered := fun j q ↦ (j = id ∧ q = p) ∨ mode.unregistered j q }

/-- The game at the table is ending. -/
def Mode.withEnding (mode : Mode) (id : TableId) : Mode :=
  { mode with ending := fun j ↦ j = id ∨ mode.ending j }

/-- The table's references and its cash maps are in order. -/
structure TableOk (rooms : ObjectIndex RoomObject) (players : ObjectIndex PlayerObject)
    (t : TableObject) : Prop where
  room : rooms.Has t.room
  cashes : t.CashesOk
  waiting : ∀ p, t.cash.contains p = true → players.Has p
  playing : ∀ p, t.playingCash.contains p = true → players.Has p
  /-- No adjustment has erased a negative amount. -/
  overdrawn : t.overdrawn = 0
  seats : t.SeatsOk

/-- The player has money at the table, waiting or in the game. -/
def TableObject.HasMoney (t : TableObject) (p : PlayerId) : Prop :=
  t.cash.contains p = true ∨ t.playingCash.contains p = true

/-- A table has a deadline when there is a game, as far as deadlines `fit`. -/
def GameClock (fit : Prop) (t : TableObject) : Prop :=
  (t.isFree = true → t.gameExpiration = TimePointSec.maximum) ∧
    (fit → t.isFree = false → t.gameExpiration ≠ TimePointSec.maximum)

/-- A reservation is the null one, or it belongs to a player. -/
def ReservationOk (players : UniqueIndex PlayerObject.account) (id : PendingBuyInId)
    (b : PendingBuyInObject) : Prop :=
  (id = nullPendingBuyIn ∧ b.table = nullTable) ∨
    (b.metadata ≠ "" ∧ ∃ obj, players.findKey? b.player = some (b.playerInternal, obj))

/-- **References and cash are in order.** -/
structure WellFormed (mode : Mode) (d : Database) : Prop where
  time : hardforkPlaychain10Time ≤ d.headBlockTime
  tables : ∀ id t, d.tables.find? id = some t →
    TableOk d.rooms.toObjectIndex d.players.toObjectIndex t
  /-- The null table is never chosen for a reservation. -/
  nullMetadata : ∀ t, d.tables.find? nullTable = some t → t.metadata = ""
  /-- A proposal at a table is the reservation of that player, allocated to that table. -/
  proposals : ∀ id t p b, d.tables.find? id = some t → t.pendingProposals.find? p = some b →
    ∃ buyIn, d.pendingBuyIns.find? b = some buyIn ∧ buyIn.isAllocated = true ∧
      buyIn.table = id ∧ buyIn.playerInternal = p
  pendingBuyIns : ∀ id b, d.pendingBuyIns.find? id = some b →
    0 ≤ b.amount.amount ∧ (b.isAllocated = true → d.tables.Has b.table) ∧
      ReservationOk d.players id b
  /-- Only allocated reservations have been measured. -/
  measurements : ∀ id m, d.roomRatingMeasurements.find? id = some m →
    m.associatedBuyin < d.pendingBuyIns.nextId ∧
      ∀ b, d.pendingBuyIns.find? m.associatedBuyin = some b → b.isAllocated = true
  pendingBuyOuts : ∀ id b, d.pendingBuyOuts.find? id = some b →
    0 < b.amount.amount ∧ d.players.Has b.player ∧ (mode.core → b.amount.assetId = coreAsset)
  /-- Whoever waits to leave is in the game. -/
  leaving : ∀ id b, d.pendingBuyOuts.find? id = some b → ¬mode.ending b.table →
    ∃ t, d.tables.find? b.table = some t ∧ t.isPlaying b.player = true
  clock : ∀ id t, d.tables.find? id = some t → ¬mode.ending id → GameClock mode.clock t
  buyIns : ∀ id b, d.buyIns.find? id = some b → d.players.Has b.player ∧ d.tables.Has b.table
  /-- Whoever has money at a table is registered there. -/
  stays : ∀ id t p, d.tables.find? id = some t → ¬mode.unregistered id p → t.HasMoney p →
    d.buyIns.findKey? (id, p) ≠ none
  tableAlives : ∀ id a, d.tableAlives.find? id = some a → d.tables.Has a.table
  rakes : ∀ id r, d.rooms.find? id = some r → r.pendingRake.assetId = coreAsset

/-! ### Votes -/

/-- The id of an account's player. -/
def playerIdOf (players : UniqueIndex PlayerObject.account) (account : AccountId) : PlayerId :=
  ((players.findKey? account).map Prod.fst).getD nullPlayer

/-- **A result balances.** Its players are in the game, and cash and rake add up to what they brought
to it. -/
structure ResultFits (players : UniqueIndex PlayerObject.account)
    (playing : FlatMap PlayerId Asset) (r : GameResult) : Prop where
  cash : ∀ a g, r.cash.find? a = some g → 0 ≤ g.cash.amount ∧ g.cash.assetId = coreAsset
  rake : ∀ a g, r.cash.find? a = some g → 0 ≤ g.rake.amount ∧ g.rake.assetId = coreAsset
  player : ∀ a g, r.cash.find? a = some g →
    (∃ obj, players.findKey? a = some (playerIdOf players a, obj)) ∧
      playing.contains (playerIdOf players a) = true
  balanced : (r.cash.sum fun _ g ↦ g.cash.amount + g.rake.amount) =
    r.cash.sum fun a _ ↦ held playing (playerIdOf players a)

/-- Every account of the map has a player. -/
def HavePlayers {α : Type} (players : UniqueIndex PlayerObject.account) (m : FlatMap AccountId α) :
    Prop :=
  ∀ a x, m.find? a = some x → ∃ obj, players.findKey? a = some (playerIdOf players a, obj)

/-- What stays true of a vote while it waits for the tally. -/
def VoteOk (players : UniqueIndex PlayerObject.account) (playing : FlatMap PlayerId Asset) :
    VotingData → Prop
  | .gameInitialData data => HavePlayers players data.cash ∧
      ∀ a v, data.cash.find? a = some v → v.assetId = coreAsset
  | .gameResult r => ResultFits players playing r

/-- The vote has the kind that fits the table, and it is in order. -/
def VoteFits (players : UniqueIndex PlayerObject.account) (t : TableObject) (x : VotingData) :
    Prop :=
  x.isInitialData = t.isFree ∧ VoteOk players t.playingCash x

/-- The accounts of an etalon vote have players. Only votings that were opened before the eleventh
hard fork have an etalon vote. -/
def EtalonOk (players : UniqueIndex PlayerObject.account) (etalon : Option VotingData) : Prop :=
  ∀ data, etalon = some (.gameInitialData data) → HavePlayers players data.cash

/-- **Votes fit their tables**, as far as the tables are not busy. -/
structure VotesOk (busy : TableId → Prop) (d : Database) : Prop where
  voting : ∀ id v, d.tableVotings.find? id = some v →
    d.tables.Has v.table ∧ EtalonOk d.players v.etalonVote
  votes : ∀ id v t a x, d.tableVotings.find? id = some v → d.tables.find? v.table = some t →
    ¬busy v.table → v.votes.find? a = some x → VoteFits d.players t x
  pendingVote : ∀ id w, d.pendingTableVotes.find? id = some w →
    d.tables.Has w.table ∧ w.vote.table = w.table ∧ w.vote.voter = w.voter
  pendingKind : ∀ id w t, d.pendingTableVotes.find? id = some w →
    d.tables.find? w.table = some t → ¬busy w.table → w.vote.isStart = t.isFree
  pendingAlone : ∀ id w, d.pendingTableVotes.find? id = some w → ¬busy w.table →
    d.tableVotings.findKey? w.table = none

/-- No table is busy. -/
abbrev idle : TableId → Prop := fun _ ↦ False

theorem playerIdOf_of_findKey? {players : UniqueIndex PlayerObject.account} {a : AccountId}
    {p : PlayerId × PlayerObject} (h : players.findKey? a = some p) : playerIdOf players a = p.1 := by
  rw [playerIdOf, h]
  rfl

/-- Players stay with their accounts. -/
theorem exists_findKey?_of_keeps {players players' : UniqueIndex PlayerObject.account}
    (hk : ObjectIndex.Keeps PlayerObject.account players.toObjectIndex players'.toObjectIndex)
    {a : AccountId} (h : ∃ obj, players.findKey? a = some (playerIdOf players a, obj)) :
    (∃ obj, players'.findKey? a = some (playerIdOf players' a, obj)) ∧
      playerIdOf players' a = playerIdOf players a := by
  obtain ⟨obj, hobj⟩ := h
  obtain ⟨obj', hobj'⟩ := UniqueIndex.findKey?_of_keeps hk hobj
  have hid := playerIdOf_of_findKey? hobj'
  exact ⟨⟨obj', hid.symm ▸ hobj'⟩, hid⟩

theorem HavePlayers.keeps {α : Type} {players players' : UniqueIndex PlayerObject.account}
    {m : FlatMap AccountId α} (h : HavePlayers players m)
    (hk : ObjectIndex.Keeps PlayerObject.account players.toObjectIndex players'.toObjectIndex) :
    HavePlayers players' m :=
  fun a x hx ↦ (exists_findKey?_of_keeps hk (h a x hx)).1

theorem EtalonOk.keeps {players players' : UniqueIndex PlayerObject.account}
    {etalon : Option VotingData} (h : EtalonOk players etalon)
    (hk : ObjectIndex.Keeps PlayerObject.account players.toObjectIndex players'.toObjectIndex) :
    EtalonOk players' etalon :=
  fun data hdata ↦ (h data hdata).keeps hk

theorem ResultFits.keeps {players players' : UniqueIndex PlayerObject.account}
    {playing : FlatMap PlayerId Asset} {r : GameResult} (h : ResultFits players playing r)
    (hk : ObjectIndex.Keeps PlayerObject.account players.toObjectIndex players'.toObjectIndex) :
    ResultFits players' playing r := by
  have hid : ∀ a g, r.cash.find? a = some g →
      (∃ obj, players'.findKey? a = some (playerIdOf players' a, obj)) ∧
        playerIdOf players' a = playerIdOf players a :=
    fun a g hg ↦ exists_findKey?_of_keeps hk (h.player a g hg).1
  refine ⟨h.cash, h.rake, fun a g hg ↦ ?_, ?_⟩
  · obtain ⟨hobj, heq⟩ := hid a g hg
    refine ⟨hobj, ?_⟩
    rw [heq]
    exact (h.player a g hg).2
  · rw [h.balanced]
    refine FlatMap.sum_congr fun a g hg ↦ ?_
    rw [(hid a g hg).2]

theorem VoteOk.keeps {players players' : UniqueIndex PlayerObject.account}
    {playing : FlatMap PlayerId Asset} {x : VotingData} (h : VoteOk players playing x)
    (hk : ObjectIndex.Keeps PlayerObject.account players.toObjectIndex players'.toObjectIndex) :
    VoteOk players' playing x := by
  cases x with
  | gameInitialData data => exact ⟨h.1.keeps hk, h.2⟩
  | gameResult r => exact ResultFits.keeps h hk

theorem VoteFits.keeps {players players' : UniqueIndex PlayerObject.account} {t t' : TableObject}
    {x : VotingData} (h : VoteFits players t x)
    (hk : ObjectIndex.Keeps PlayerObject.account players.toObjectIndex players'.toObjectIndex)
    (hplay : t'.playingCash = t.playingCash) : VoteFits players' t' x := by
  refine ⟨?_, ?_⟩
  · rw [h.1, TableObject.isFree, TableObject.isFree, hplay]
  · rw [hplay]
    exact h.2.keeps hk

namespace VotesOk

variable {busy busy' : TableId → Prop} {d d' : Database}

theorem mono (h : VotesOk busy d) (hb : ∀ id, busy id → busy' id) : VotesOk busy' d where
  voting := h.voting
  votes id v t a x hv ht hn := h.votes id v t a x hv ht fun hb' ↦ hn (hb _ hb')
  pendingVote := h.pendingVote
  pendingKind id w t hw ht hn := h.pendingKind id w t hw ht fun hb' ↦ hn (hb _ hb')
  pendingAlone id w hw hn := h.pendingAlone id w hw fun hb' ↦ hn (hb _ hb')

/-- **Votes are unaffected by framed steps.** -/
theorem of_frame (h : VotesOk busy d) (hf : Frame busy d d') : VotesOk busy d' where
  voting id v' hv' := by
    obtain ⟨v, hv, hs, -⟩ := hf.votings id v' hv'
    obtain ⟨htable, hetalon⟩ := h.voting id v hv
    rw [hs.eq]
    exact ⟨hf.tables.has htable, hetalon.keeps hf.players⟩
  votes id v' t' a x hv' ht' hn hx := by
    obtain ⟨v, hv, hs, he⟩ := hf.votings id v' hv'
    rw [hs.table] at ht' hn
    obtain ⟨t, ht⟩ := (h.voting id v hv).1
    exact (h.votes id v t a x hv ht hn (hs.votes a x hx)).keeps hf.players
      (hf.games _ _ _ hn ht ht')
  pendingVote id w hw := by
    obtain ⟨htable, hrest⟩ := h.pendingVote id w (hf.pendingVotes id w hw)
    exact ⟨hf.tables.has htable, hrest⟩
  pendingKind id w t' hw ht' hn := by
    have hw₀ := hf.pendingVotes id w hw
    obtain ⟨t, ht⟩ := (h.pendingVote id w hw₀).1
    rw [h.pendingKind id w t hw₀ ht hn, TableObject.isFree, TableObject.isFree,
      hf.games _ _ _ hn ht ht']
  pendingAlone id w hw hn := by
    rw [hf.findKey?_voting hn]
    exact h.pendingAlone id w (hf.pendingVotes id w hw) hn

/-- A table whose votes fit, with no vote set aside, is no longer busy. -/
theorem release {table : TableId} (h : VotesOk (· = table) d)
    (hvotes : ∀ id v t a x, d.tableVotings.find? id = some v → v.table = table →
      d.tables.find? table = some t → v.votes.find? a = some x → VoteFits d.players t x)
    (hpending : ∀ id w, d.pendingTableVotes.find? id = some w → w.table ≠ table) :
    VotesOk idle d where
  voting := h.voting
  votes id v t a x hv ht _ hx := by
    by_cases hvt : v.table = table
    · exact hvotes id v t a x hv hvt (hvt ▸ ht) hx
    · exact h.votes id v t a x hv ht hvt hx
  pendingVote := h.pendingVote
  pendingKind id w t hw ht _ := h.pendingKind id w t hw ht (hpending id w hw)
  pendingAlone id w hw _ := h.pendingAlone id w hw (hpending id w hw)

/-- A table without voting and without votes set aside is no longer busy. -/
theorem release_of_none {table : TableId} (h : VotesOk (· = table) d)
    (hvoting : d.tableVotings.findKey? table = none)
    (hpending : ∀ id w, d.pendingTableVotes.find? id = some w → w.table ≠ table) :
    VotesOk idle d :=
  h.release (fun id v _ _ _ hv hvt ↦
    absurd hvt (UniqueIndex.findKey?_eq_none_iff.1 hvoting id v hv)) hpending

end VotesOk

end Playchain
