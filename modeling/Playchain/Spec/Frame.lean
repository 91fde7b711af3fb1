import Playchain.Evaluators.Games
import Playchain.Spec.Books

/-!
# What a step keeps

Most of what the chain does leaves games and votes alone: players, rooms and tables stay, the cash
in a game does not change, votes are not touched. `Frame busy d d'` says so **for every table that
is not `busy`**; the votes of a busy table may be dropped, but nothing is added to them. A step with
no busy table keeps the books of the rooms.

Admitting a vote is the only step of the chain that is not framed in this sense.
-/

namespace Playchain

/-- Votes of a voting are dropped; everything else about it stays. -/
structure TableVotingObject.ShrinksTo (v v' : TableVotingObject) : Prop where
  eq : v' = { v with votes := v'.votes }
  votes : ∀ a x, v'.votes.find? a = some x → v.votes.find? a = some x

namespace TableVotingObject.ShrinksTo

variable {v v' v'' : TableVotingObject}

theorem refl (v : TableVotingObject) : v.ShrinksTo v := ⟨rfl, fun _ _ h ↦ h⟩

theorem trans (h : v.ShrinksTo v') (h' : v'.ShrinksTo v'') : v.ShrinksTo v'' := by
  refine ⟨?_, fun a x hx ↦ h.votes a x (h'.votes a x hx)⟩
  have heq := h'.eq
  rw [h.eq] at heq
  exact heq

theorem table (h : v.ShrinksTo v') : v'.table = v.table := by rw [h.eq]

end TableVotingObject.ShrinksTo

/-- **What is kept outside busy tables.** -/
structure Frame (busy : TableId → Prop) (d d' : Database) : Prop where
  headBlockTime : d'.headBlockTime = d.headBlockTime
  players : ObjectIndex.Keeps PlayerObject.account d.players.toObjectIndex d'.players.toObjectIndex
  gameWitnesses : ObjectIndex.Keeps GameWitnessObject.account d.gameWitnesses.toObjectIndex
    d'.gameWitnesses.toObjectIndex
  rooms : ObjectIndex.Keeps RoomObject.owner d.rooms.toObjectIndex d'.rooms.toObjectIndex
  tables : ObjectIndex.Keeps TableObject.room d.tables d'.tables
  /-- The cash in a game changes at busy tables only. -/
  games : ∀ id t t', ¬busy id → d.tables.find? id = some t → d'.tables.find? id = some t' →
    t'.playingCash = t.playingCash
  /-- No voting is opened and no vote is added. -/
  votings : ∀ id v', d'.tableVotings.find? id = some v' →
    ∃ v, d.tableVotings.find? id = some v ∧ v.ShrinksTo v' ∧ (¬busy v.table → v' = v)
  votings_kept : ∀ id v, d.tableVotings.find? id = some v → ¬busy v.table →
    d'.tableVotings.find? id = some v
  /-- No vote is set aside. -/
  pendingVotes : ∀ id w, d'.pendingTableVotes.find? id = some w →
    d.pendingTableVotes.find? id = some w
  /-- Rake is booked at busy tables only. -/
  books : (∀ id, ¬busy id) → d'.books = d.books

namespace Frame

variable {busy : TableId → Prop} {d d' d'' : Database}

/-- A step that does not touch these indices is framed. -/
theorem of_eq (busy : TableId → Prop) (hn : d'.headBlockTime = d.headBlockTime)
    (hp : d'.players = d.players) (hw : d'.gameWitnesses = d.gameWitnesses)
    (hr : d'.rooms = d.rooms) (ht : d'.tables = d.tables) (hv : d'.tableVotings = d.tableVotings)
    (hw' : d'.pendingTableVotes = d.pendingTableVotes) : Frame busy d d' where
  headBlockTime := hn
  players := hp ▸ .refl _ _
  gameWitnesses := hw ▸ .refl _ _
  rooms := hr ▸ .refl _ _
  tables := ht ▸ .refl _ _
  games id t t' _ h h' := by
    rw [ht, h] at h'
    rw [Option.some.inj h']
  votings id v h := ⟨v, hv ▸ h, .refl v, fun _ ↦ rfl⟩
  votings_kept id v h _ := hv ▸ h
  pendingVotes id w h := hw' ▸ h
  books _ := Database.books_congr hp hr

theorem refl (busy : TableId → Prop) (d : Database) : Frame busy d d :=
  of_eq busy rfl rfl rfl rfl rfl rfl rfl

theorem trans (h : Frame busy d d') (h' : Frame busy d' d'') : Frame busy d d'' where
  headBlockTime := h'.headBlockTime.trans h.headBlockTime
  players := h.players.trans h'.players
  gameWitnesses := h.gameWitnesses.trans h'.gameWitnesses
  rooms := h.rooms.trans h'.rooms
  tables := h.tables.trans h'.tables
  games id t t'' hid ht ht'' := by
    obtain ⟨t', ht', -⟩ := h.tables id t ht
    exact (h'.games id t' t'' hid ht' ht'').trans (h.games id t t' hid ht ht')
  votings id v'' hv'' := by
    obtain ⟨v', hv', hs', he'⟩ := h'.votings id v'' hv''
    obtain ⟨v, hv, hs, he⟩ := h.votings id v' hv'
    refine ⟨v, hv, hs.trans hs', fun hb ↦ ?_⟩
    rw [he' (by rw [hs.table]; exact hb), he hb]
  votings_kept id v hv hb := h'.votings_kept id v (h.votings_kept id v hv hb) hb
  pendingVotes id w hw := h.pendingVotes id w (h'.pendingVotes id w hw)
  books hn := (h'.books hn).trans (h.books hn)

theorem mono {busy' : TableId → Prop} (h : Frame busy d d') (hb : ∀ id, busy id → busy' id) :
    Frame busy' d d' where
  headBlockTime := h.headBlockTime
  players := h.players
  gameWitnesses := h.gameWitnesses
  rooms := h.rooms
  tables := h.tables
  games id t t' hid := h.games id t t' fun hid' ↦ hid (hb id hid')
  votings id v' hv' := by
    obtain ⟨v, hv, hs, he⟩ := h.votings id v' hv'
    exact ⟨v, hv, hs, fun hv' ↦ he fun hb' ↦ hv' (hb _ hb')⟩
  votings_kept id v hv hb' := h.votings_kept id v hv fun hb'' ↦ hb' (hb _ hb'')
  pendingVotes := h.pendingVotes
  books hn := h.books fun id hid ↦ hn id (hb id hid)

/-- The voting of a table that is not busy is the same. -/
theorem findKey?_voting (h : Frame busy d d') {table : TableId} (hb : ¬busy table) :
    d'.tableVotings.findKey? table = d.tableVotings.findKey? table := by
  refine Option.ext fun p ↦ ?_
  rw [UniqueIndex.findKey?_eq_some_iff, UniqueIndex.findKey?_eq_some_iff]
  constructor
  · rintro ⟨hp, ht⟩
    obtain ⟨v, hv, hs, he⟩ := h.votings _ _ hp
    have heq : p.2 = v := he (by rw [← hs.table, ht]; exact hb)
    exact ⟨heq ▸ hv, ht⟩
  · rintro ⟨hp, ht⟩
    exact ⟨h.votings_kept _ _ hp (by rw [ht]; exact hb), ht⟩

/-- A busy table without a voting does not get one. -/
theorem no_voting (h : Frame busy d d') {table : TableId}
    (hn : d.tableVotings.findKey? table = none) : d'.tableVotings.findKey? table = none := by
  rw [UniqueIndex.findKey?_eq_none_iff] at hn ⊢
  intro id v' hv'
  obtain ⟨v, hv, hs, -⟩ := h.votings id v' hv'
  rw [hs.table]
  exact hn id v hv

/-! ### Updates of one index -/

theorem setTable (busy : TableId → Prop) {id : TableId} {t t' : TableObject}
    (ht : d.tables.find? id = some t) (hroom : t'.room = t.room)
    (hplay : ¬busy id → t'.playingCash = t.playingCash) :
    Frame busy d { d with tables := d.tables.set id t' } :=
  { refl busy d with
    tables := .set ht hroom
    games := by
      intro j u u' hj hu hu'
      change (d.tables.set id t').find? j = some u' at hu'
      rw [ObjectIndex.find?_set, hu] at hu'
      split_ifs at hu' with hij
      · subst hij
        obtain rfl := Option.some.inj hu'
        obtain rfl := Option.some.inj (ht.symm.trans hu)
        exact hplay hj
      · rw [Option.some.inj hu'] }

theorem removeVoting (busy : TableId → Prop) {id : ℕ} {v : TableVotingObject}
    (hv : d.tableVotings.find? id = some v) (hb : busy v.table) :
    Frame busy d { d with tableVotings := d.tableVotings.remove id } :=
  { refl busy d with
    votings := fun _ w hw ↦
      ⟨w, (ObjectIndex.find?_of_find?_remove hw).2, .refl w, fun _ ↦ rfl⟩
    votings_kept := by
      intro j w hw hw'
      have hj : j ≠ id := by
        rintro rfl
        rw [hv] at hw
        rw [← Option.some.inj hw] at hw'
        exact hw' hb
      exact (ObjectIndex.find?_remove_of_ne _ hj).trans hw }

theorem removePendingVote (busy : TableId → Prop) (d : Database) (id : ℕ) :
    Frame busy d { d with pendingTableVotes := d.pendingTableVotes.remove id } :=
  { refl busy d with
    pendingVotes := fun _ _ hw ↦ (ObjectIndex.find?_of_find?_remove hw).2 }

end Frame

end Playchain
