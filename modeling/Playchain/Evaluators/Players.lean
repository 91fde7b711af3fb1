import Playchain.Evaluators.Validators

/-!
# Player, invitation and room evaluators
-/

namespace Playchain

/-! ### Players -/

/-- `create_player` -/
def createPlayer (d : Database) (account : AccountId) (inviter : PlayerId) :
    Except ChainError Database := do
  let _ ← d.playerById nullPlayer
  let players ← orViolation (d.players.create? { account := account, inviter := inviter })
  return { d with players := players }

/-- `player_create_by_room_owner_evaluator` -/
def evaluatePlayerCreateByRoomOwner (d : Database) (op : PlayerCreateByRoomOwner) :
    Except ChainError Unit := do
  fcAssert (isAccountExists d op.account = true) "Account doesn't exist"
  fcAssert (isRoomOwner d op.roomOwner = true) "Table owner doesn't own table"
  fcAssert (isPlayerExists d op.account = false) "Account is already player"

def applyPlayerCreateByRoomOwner (d : Database) (op : PlayerCreateByRoomOwner) :
    Except ChainError Database :=
  createPlayer d op.account nullPlayer

/-! ### Invitations -/

/-- `player_invitation_create_evaluator`; the membership upgrade of the inviter is not modelled. -/
def evaluatePlayerInvitationCreate (d : Database) (op : PlayerInvitationCreate) :
    Except ChainError Unit :=
  fcAssert (d.playerInvitations.findKey? (op.inviter, op.uid) = none) "Invitation must not exist"

def applyPlayerInvitationCreate (d : Database) (op : PlayerInvitationCreate) :
    Except ChainError Database := do
  let invitations ← orViolation (d.playerInvitations.create?
    { inviter := op.inviter
      uid := op.uid
      created := d.headBlockTime
      expiration := TimePointSec.addSeconds d.headBlockTime op.lifetimeInSec
      metadata := op.metadata })
  return { d with playerInvitations := invitations }

/-- `player_invitation_cancel_evaluator` -/
def evaluatePlayerInvitationCancel (d : Database) (op : PlayerInvitationCancel) :
    Except ChainError Unit :=
  fcAssert ((d.playerInvitations.findKey? (op.inviter, op.uid)).isSome = true)
    "Invitation must exist. Client Code = 20180006"

def applyPlayerInvitationCancel (d : Database) (op : PlayerInvitationCancel) :
    Except ChainError Database := do
  let invitation ← orMissing (d.playerInvitations.findKey? (op.inviter, op.uid))
  return { d with playerInvitations := d.playerInvitations.remove invitation.1 }

/-- `player_invitation_resolve_evaluator`; any mandate and any new account is accepted here. -/
def evaluatePlayerInvitationResolve (d : Database) (op : PlayerInvitationResolve) :
    Except ChainError Unit := do
  fcAssert (isAccountExists d op.inviter = true) "Inviter account does not exist"
  fcAssert ((d.playerInvitations.findKey? (op.inviter, op.uid)).isSome = true)
    "Invitation must exist. Client Code = 20180006"

def applyPlayerInvitationResolve (d : Database) (op : PlayerInvitationResolve) :
    Except ChainError Database := do
  let inviterLikePlayer := ((d.players.findKey? op.inviter).map Prod.fst).getD nullPlayer
  -- the new account takes the next number
  let account := d.accounts
  let d ← createPlayer { d with accounts := d.accounts + 1 } account inviterLikePlayer
  let d := d.pushAppliedOperation (.playerCreate account op.inviter)
  let invitation ← orMissing (d.playerInvitations.findKey? (op.inviter, op.uid))
  return { d with playerInvitations := d.playerInvitations.remove invitation.1 }

/-! ### Rooms -/

/-- `room_create_evaluator` -/
def evaluateRoomCreate (d : Database) (op : RoomCreate) : Except ChainError Unit := do
  let _ ← VersionExt.fromVariant op.protocolVersion {}
  fcAssert (d.rooms.findKey? (op.owner, op.metadata) = none)
    "There is the same room that is owned by account"

/-- A room owner becomes a game witness. -/
def registerGameWitness (d : Database) (account : AccountId) : Except ChainError Database :=
  match d.gameWitnesses.findKey? account with
  | some _ => return d
  | none => do
    let witnesses ← orViolation (d.gameWitnesses.create? { account := account })
    return Database.pushAppliedOperation { d with gameWitnesses := witnesses }
      (.gameWitnessCreate account)

def applyRoomCreate (d : Database) (op : RoomCreate) : Except ChainError Database := do
  let _ ← d.roomById nullRoom
  let _ ← d.gameWitnessById nullGameWitness
  let d ← registerGameWitness d op.owner
  let protocolVersion ← VersionExt.fromVariant op.protocolVersion {}
  let rooms ← orViolation (d.rooms.create?
    { owner := op.owner
      serverUrl := op.serverUrl
      metadata := op.metadata
      protocolVersion := protocolVersion
      rating :=
        if hardforkPlaychain5Time ≤ d.headBlockTime then toInt32 d.averageRoomRating else 0 })
  return { d with rooms := rooms }

/-- `room_update_evaluator` -/
def evaluateRoomUpdate (d : Database) (op : RoomUpdate) : Except ChainError Unit := do
  let _ ← VersionExt.fromVariant op.protocolVersion {}
  fcAssert (isRoomExists d op.room = true) "Room does not exist"
  fcAssert ((← isRoomOwnerOf d op.owner op.room) = true) "Wrong room owner"

def applyRoomUpdate (d : Database) (op : RoomUpdate) : Except ChainError Database := do
  let room ← d.roomById op.room
  let protocolVersion ← VersionExt.fromVariant op.protocolVersion room.protocolVersion
  let rooms ← orNotModified (d.rooms.modify? op.room fun r ↦ { r with
    serverUrl := op.serverUrl
    metadata := op.metadata
    protocolVersion := protocolVersion })
  return { d with rooms := rooms }

end Playchain
