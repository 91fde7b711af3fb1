import Playchain.Db.UndoDatabase
import Playchain.Schema.TableObject

/-!
# The tables of a player

`table_players_index` is a secondary index of the tables: for each of the three maps of a table, the
tables at which a player is in it. It is kept by differences between a table before and after a
modification, and **by nothing else**: `object_inserted` and `object_removed` are not overridden.
-/

namespace Playchain

/-- The maps of a table that have players as keys. -/
inductive TablePart where
  | pendingProposals
  | cash
  | playingCash
  deriving DecidableEq

/-- `get_pending_proposals`, `get_cash`, `get_playing_cash` -/
def TableObject.playersOf (t : TableObject) : TablePart → List PlayerId
  | .pendingProposals => t.pendingProposals.toList.map Prod.fst
  | .cash => t.cash.toList.map Prod.fst
  | .playingCash => t.playingCash.toList.map Prod.fst

/-- The tables of each player. -/
abbrev TablesByPlayer := FlatMap PlayerId (FlatSet TableId)

namespace TablesByPlayer

/-- The tables of a player; `operator[]` enters an empty set. -/
def tables (m : TablesByPlayer) (player : PlayerId) : FlatSet TableId := (m.find? player).getD ∅

def leave (table : TableId) (m : TablesByPlayer) (player : PlayerId) : TablesByPlayer :=
  m.insert player ((m.tables player).erase table)

def join (table : TableId) (m : TablesByPlayer) (player : PlayerId) : TablesByPlayer :=
  m.insert player ((m.tables player).add table)

/-- One part of `object_modified`: the players that are gone leave the table, those that are new join
it. -/
def follow (table : TableId) (before after : List PlayerId) (m : TablesByPlayer) : TablesByPlayer :=
  let m := (before.filter fun p ↦ p ∉ after).foldl (leave table) m
  (after.filter fun p ↦ p ∉ before).foldl (join table) m

end TablesByPlayer

/-- `table_players_index` -/
structure TablePlayersIndex where
  tablesWithPendingProposalsByPlayer : TablesByPlayer := ∅
  tablesWithCashByPlayer : TablesByPlayer := ∅
  tablesWithPlayingCashByPlayer : TablesByPlayer := ∅

/-- The map of the index for a part of the tables. -/
def TablePlayersIndex.byPlayer (x : TablePlayersIndex) : TablePart → TablesByPlayer
  | .pendingProposals => x.tablesWithPendingProposalsByPlayer
  | .cash => x.tablesWithCashByPlayer
  | .playingCash => x.tablesWithPlayingCashByPlayer

/-- `about_to_modify` and `object_modified` -/
instance : SecondaryIndex TableId TableObject TablePlayersIndex where
  empty := {}
  objectModified table before after x :=
    { tablesWithPendingProposalsByPlayer := x.tablesWithPendingProposalsByPlayer.follow table
        (before.playersOf .pendingProposals) (after.playersOf .pendingProposals)
      tablesWithCashByPlayer := x.tablesWithCashByPlayer.follow table
        (before.playersOf .cash) (after.playersOf .cash)
      tablesWithPlayingCashByPlayer := x.tablesWithPlayingCashByPlayer.follow table
        (before.playersOf .playingCash) (after.playersOf .playingCash) }

/-- Every unique key of a table includes its id. -/
instance : UniqueKeys TableObject where
  collide _ _ := false
  collide_comm _ _ := rfl

/-- The tables with their undo records. -/
abbrev TableStore := UndoDatabase TableId Unit TableObject TablePlayersIndex

/-! ### Runs -/

/-- What happens to the tables. -/
inductive TableEvent where
  /-- `table_create_evaluator` creates tables without players. -/
  | create (t : TableObject) (hfree : ∀ part, t.playersOf part = [])
  | modify (table : TableId) (g : TableObject → TableObject)
  | startSession
  | merge
  | commit
  | undo
  | popCommit
  | setMaxSize (n : ℕ)
  /-- The objects are saved, and a new process loads them. -/
  | reload

/-- The effect of an event; the records are walked in whatever order. -/
def TableEvent.Step (u : TableStore) : TableEvent → TableStore → Prop
  | create t _, v => u.call (.create () t) = .ok v
  | modify table g, v => u.call (.modify table g) = .ok v
  | startSession, v => v = u.startUndoSession
  | merge, v => u.merge = some v
  | commit, v => u.commit = some v
  | undo, v => ∃ order, u.undo order = .ok v
  | popCommit, v => ∃ order, u.popCommit order = .ok v
  | setMaxSize n, v => v = { u with maxSize := n }
  | reload, v => v = { db := u.db.reload }

end Playchain
