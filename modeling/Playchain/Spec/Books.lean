import Playchain.Schema.Database

/-!
# The books of a room

A room's `pendingRake` is meant to be the sum of what players still owe to it: their pending fees and
the amounts parked with inviters. `Database.books` is the difference of the two, by room; the books
balance when it vanishes.
-/

namespace Playchain

/-- What a player holds for a room: pending fees that name it and amounts parked under it. -/
def PlayerObject.owed (p : PlayerObject) : RoomId → ℤ := fun room ↦
  ((p.pendingFees.filter fun f ↦ f.room = room).map PlayerPendingFeeData.amount).sum +
    (p.pendingParentInvitationFees.find? room).elim 0 fun parked ↦ parked.sum fun _ amount ↦ amount

namespace Database

/-- What all players hold, by room. -/
def owed (d : Database) : RoomId → ℤ := d.players.sum PlayerObject.owed

/-- The rake of the rooms. -/
def pendingRakes (d : Database) : RoomId → ℤ := fun room ↦
  (d.rooms.find? room).elim 0 fun r ↦ r.pendingRake.amount

/-- **The books**: rake that nobody holds. -/
def books (d : Database) : RoomId → ℤ := d.pendingRakes - d.owed

theorem books_congr {d d' : Database} (hp : d'.players = d.players) (hr : d'.rooms = d.rooms) :
    d'.books = d.books := by
  have hrakes : d'.pendingRakes = d.pendingRakes := by
    funext room
    rw [pendingRakes, pendingRakes, hr]
  rw [books, books, hrakes, owed, owed, hp]

end Database

end Playchain
