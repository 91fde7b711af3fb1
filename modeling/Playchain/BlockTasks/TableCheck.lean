import Playchain.Evaluators.GamesObsolete
import Playchain.Evaluators.Players

/-!
# Block tasks on tables and invitations

Each task walks an index in the order of a point in time and handles the objects that are due. Where
the source erases objects while it walks, the tasks here walk over the objects that were due at the
start: handling one of them does not make another one due.
-/

namespace Playchain

/-- The entries of an index that are due, ordered by time and id. -/
def dueBy {α : Type*} (x : ObjectIndex α) (time : α → TimePointSec) (now : TimePointSec) :
    List (ℕ × α) :=
  (x.orderedBy fun a b ↦ time a.2 < time b.2 ∨ (time a.2 = time b.2 ∧ a.1 ≤ b.1)).takeWhile
    fun a ↦ time a.2 ≤ now

/-- `update_expired_invitations` -/
def updateExpiredInvitations (d : Database) : Database :=
  (dueBy d.playerInvitations.toObjectIndex (·.expiration) d.headBlockTime).foldl (fun d i ↦
    { d.pushAppliedOperation (.playerInvitationExpire i.2.inviter i.2.uid) with
      playerInvitations := d.playerInvitations.remove i.1 }) d

section Votings

variable [GameDigest]

/-- `update_expired_table_voting` -/
def updateExpiredTableVoting (d : Database) : Except ChainError Database :=
  (dueBy d.tableVotings.toObjectIndex (·.expiration) d.headBlockTime).foldlM (fun d p ↦ do
    let v ← orMissing (d.tableVotings.find? p.1)
    if v.isVotingForPlaying then expireVotingForPlaying d p.1 v
    else if v.isVotingForResults then expireVotingForResults d p.1 v
    else return d) d

/-- `update_scheduled_voting` -/
def updateScheduledVoting (d : Database) : Except ChainError Database :=
  (dueBy d.tableVotings.toObjectIndex (·.scheduledVoting) d.headBlockTime).foldlM (fun d p ↦ do
    let v ← orMissing (d.tableVotings.find? p.1)
    if v.isVotingForPlaying then scheduledVotingForPlaying d p.1 v
    else if v.isVotingForResults then scheduledVotingForResults d p.1 v
    else return d) d

end Votings

/-- `update_expired_table_game`: a long game lifetime is only checked at maintenance. -/
def updateExpiredTableGame (d : Database) (maintenance : Bool) : Except ChainError Database :=
  if d.maintenanceInterval * 10 % 2 ^ 32 < d.parameters.gameLifetimeLimitInSeconds ∧
      maintenance = false then return d
  else
    (dueBy d.tables (·.gameExpiration) d.headBlockTime).foldlM (fun d p ↦ do
      let owner ← d.tableOwner (← d.tableById p.1)
      rollback (d.pushGameEvent p.1 owner .failExpireGameLifetime) p.1 true) d

/-- `update_expired_table_alive` -/
def updateExpiredTableAlive (d : Database) : Except ChainError Database :=
  (dueBy d.tableAlives.toObjectIndex (·.expiration) d.headBlockTime).foldlM (fun d a ↦
    setWeight { d with tableAlives := d.tableAlives.remove a.1 } a.2.table) d

end Playchain
