import Playchain.Evaluators.Tables

/-!
# Room ratings and table weights

At maintenance the ratings of rooms are recalculated from the measurements of their reservations, a
limited number of rooms in each pass, the longest not updated first. A change of the rating is then
carried over to the weights of the room's tables, again a limited number in each pass; a room remembers
where its update has stopped (`lastUpdatedTable`), and its rating is not recalculated meanwhile.
-/

namespace Playchain

/-- The functions of the rating that are not modelled here: the two factors computed in floating point
and the conversion of a 128-bit integer. -/
class RatingFunctions where
  /-- `time_factor` after `TIME_FACTOR_FADE_START`. -/
  fadedTimeFactor : ℕ → ℕ
  /-- `quantity_factor` -/
  quantityFactor : ℕ → ℕ
  /-- `fc::uint128_t::to_integer` -/
  toInteger : ℕ → Except ChainError ℕ

/-- `ROOM_RATING_PRECISION` -/
def roomRatingPrecision : ℕ := 1000

/-- `TIME_FACTOR_FADE_START` -/
def timeFactorFadeStart : ℕ := 30

/-- `stat_correction`, `STAT_CORRECTION_M` with its precision adjusted. -/
def statCorrection : ℕ := roomRatingPrecision * 25

/-! ### The rating before the fifth hard fork -/

/-- `get_pseudo_random` -/
def getPseudoRandom (entropy : ℤ) (pos min max : ℕ) : ℕ :=
  let k := (toUInt64 entropy * 2 ^ 32 + pos * 2685821657736338717) % 2 ^ 64
  let k := k ^^^ (k / 2 ^ 12)
  let k := k ^^^ (k * 2 ^ 25 % 2 ^ 64)
  let k := k ^^^ (k / 2 ^ 27)
  let k := k * 2685821657736338717 % 2 ^ 64
  min + k % max

/-- `recalculate_rating_simple_impl`: the low half of the rating is replaced by a random number. -/
def recalculateRatingSimple (d : Database) (random : ℕ) (room : RoomId) : Database :=
  { d with rooms := d.rooms.modify room fun r ↦ { r with
      prevRating := r.rating
      rating := r.rating - r.rating.emod (2 ^ 16) + random
      lastRatingUpdate := d.headBlockTime } }

/-- The rooms in the order of `by_last_rating_update`. -/
def roomsByLastUpdate (d : Database) : List (RoomId × RoomObject) :=
  d.rooms.orderedBy fun a b ↦ a.2.lastRatingUpdate < b.2.lastRatingUpdate ∨
    (a.2.lastRatingUpdate = b.2.lastRatingUpdate ∧ a.1 ≤ b.1)

/-- The room after another one in the order of `by_last_rating_update`. -/
def nextByLastUpdate (d : Database) (room : RoomId) : Option RoomId :=
  (((roomsByLastUpdate d).dropWhile fun p ↦ p.1 ≠ room).tail.head?).map Prod.fst

/-- The loop of `update_room_rating_simple_impl`. An updated room moves to the end of the order and may
be met once more; no room is met three times. -/
def updateRoomRatingSimple (entropy : ℤ) :
    ℕ → Option RoomId → ℕ → ℕ → Database → Except ChainError Database
  | 0, _, _, _, d => return d
  | _ + 1, none, _, _, d => return d
  | fuel + 1, some id, ci, pos, d => do
    if ci < d.parameters.roomsRatingRecalculationsPerMaintenance then
      let next := nextByLastUpdate d id
      let room ← d.roomById id
      if isSpecialRoom id then updateRoomRatingSimple entropy fuel next (ci + 1) pos d
      else if room.lastUpdatedTable ≠ nullTable then
        updateRoomRatingSimple entropy fuel next ci pos d
      else
        updateRoomRatingSimple entropy fuel next (ci + 1) (pos + 1)
          (recalculateRatingSimple d (getPseudoRandom entropy pos 1 0xfff % 2 ^ 16) id)
    else return d

/-! ### The rating from measurements -/

/-- `remove_expired_room_rating_measurements` -/
def removeExpiredRoomRatingMeasurements (d : Database) : Database :=
  (d.roomRatingMeasurements.toList.filter fun m ↦ m.2.expiration ≤ d.headBlockTime).foldl (fun d m ↦
    { d with roomRatingMeasurements := d.roomRatingMeasurements.remove m.1 }) d

section Rating

variable [RatingFunctions]

/-- `time_factor` -/
def timeFactor (x : ℕ) : ℕ :=
  if x ≤ timeFactorFadeStart then roomRatingPrecision * x else RatingFunctions.fadedTimeFactor x

/-- The sums of `recalculate_room_rating_factors`. -/
structure RatingFactors where
  weightSum : ℕ := 0
  measurementSum : ℕ := 0
  quantity : ℕ := 0

/-- The sums over the resolved measurements of a room. -/
def ratingFactors (d : Database) (room : RoomId) : RatingFactors :=
  (d.roomRatingMeasurements.toList.filter fun m ↦
    m.2.room = room ∧ m.2.waitingResolve = false).foldl (fun s m ↦
      let factor := timeFactor ((d.headBlockTime + 2 ^ 32 - m.2.created) % 2 ^ 32 / 60)
      { weightSum := (s.weightSum + m.2.weight * factor) % 2 ^ 64
        measurementSum := (s.measurementSum + factor) % 2 ^ 64
        quantity := (s.quantity + 1) % 2 ^ 32 }) {}

/-- `recalculate_room_rating_factors` -/
def recalculateRoomRatingFactors (d : Database) (room : RoomId) : Database :=
  let factors := ratingFactors d room
  { d with rooms := d.rooms.modify room fun r ↦ { r with
      weightSumByTimeFactor := factors.weightSum
      measurementSumByTimeFactor := factors.measurementSum
      measurementQuantity := factors.quantity } }

/-- The rooms that a pass recalculates: rooms in the middle of a weight update are passed over, while
the special room uses up one of the places. -/
def roomsToRate (limit : ℕ) : List (RoomId × RoomObject) → ℕ → List RoomId
  | [], _ => []
  | p :: l, ci =>
    if ci < limit then
      if isSpecialRoom p.1 then roomsToRate limit l (ci + 1)
      else if p.2.lastUpdatedTable ≠ nullTable then roomsToRate limit l ci
      else p.1 :: roomsToRate limit l (ci + 1)
    else []

/-- The divisor of the rating: a product of unsigned 64-bit integers. -/
def ratingDivisor (constMeasurementSum : ℕ) (room : RoomObject) : ℕ :=
  max constMeasurementSum 1 * ((room.measurementSumByTimeFactor + statCorrection) % 2 ^ 64) % 2 ^ 64

/-- The dividend of the rating, an unsigned 128-bit integer. -/
def ratingDividend (constWeightSum constMeasurementSum : ℕ) (room : RoomObject) : ℕ :=
  (room.weightSumByTimeFactor * max constMeasurementSum 1 % 2 ^ 128 +
    constWeightSum * statCorrection % 2 ^ 64) % 2 ^ 128 * 25 % 2 ^ 128 *
    RatingFunctions.quantityFactor room.measurementQuantity % 2 ^ 128

/-- `recalculate_room_rating` -/
def recalculateRoomRating (constWeightSum constMeasurementSum : ℕ) (d : Database) (id : RoomId) :
    Except ChainError Database := do
  let room ← d.roomById id
  if ratingDivisor constMeasurementSum room = 0 then .error .divisionByZero
  else
    let newRating ← RatingFunctions.toInteger
      (ratingDividend constWeightSum constMeasurementSum room /
        ratingDivisor constMeasurementSum room)
    return { d with rooms := d.rooms.modify id fun r ↦ { r with
      prevRating := r.rating
      rating := toInt32 newRating
      lastRatingUpdate := d.headBlockTime } }

/-- One turn of the loop over the recalculated rooms. -/
def rateRoom (constWeightSum constMeasurementSum : ℕ) (s : Database × ℕ) (id : RoomId) :
    Except ChainError (Database × ℕ) := do
  let d ← recalculateRoomRating constWeightSum constMeasurementSum s.1 id
  let room ← d.roomById id
  return (d, (s.2 + toUInt64 room.rating) % 2 ^ 64)

/-- `update_room_rating` -/
def updateRoomRating (d : Database) (entropy : ℤ) : Except ChainError Database := do
  let d := removeExpiredRoomRatingMeasurements d
  let rooms := roomsByLastUpdate d
  if d.headBlockTime < hardforkPlaychain5Time then
    if rooms.length = 1 then return d
    else updateRoomRatingSimple entropy (2 * rooms.length) (rooms.head?.map Prod.fst) 0 0 d
  else if rooms.length = 1 then return d
  else
    let updated := roomsToRate d.parameters.roomsRatingRecalculationsPerMaintenance rooms 0
    let factors := updated.map fun room ↦ ratingFactors d room
    let constWeightSum := factors.foldl (fun s f ↦ (s + f.weightSum) % 2 ^ 64) 0
    let constMeasurementSum := factors.foldl (fun s f ↦ (s + f.measurementSum) % 2 ^ 64) 0
    let d := updated.foldl recalculateRoomRatingFactors d
    let (d, sum) ← updated.foldlM (rateRoom constWeightSum constMeasurementSum) (d, 0)
    if updated.length = 0 then .error .divisionByZero
    else return { d with averageRoomRating := toInt64 (sum / updated.length) }

end Rating

/-! ### Table weights -/

/-- The tables in the order of `by_room`. -/
def tablesByRoom (d : Database) : List (TableId × TableObject) :=
  d.tables.orderedBy fun a b ↦ a.2.room < b.2.room ∨ (a.2.room = b.2.room ∧ a.1 ≤ b.1)

/-- `is_special_table` -/
def isSpecialTable (id : TableId) : Bool := id = nullTable

/-- The tables from which an update of a room's weights goes on: the lower bound in the order by room
is inclusive, and the range is open to the end of the whole index. -/
def tablesFrom (d : Database) (room : RoomId) (table : TableId) : List (TableId × TableObject) :=
  (tablesByRoom d).dropWhile fun p ↦ p.2.room < room ∨ (p.2.room = room ∧ p.1 < table)

/-- The loop over the tables, with the counter `ci` and the progress of the room. -/
def updateWeights (limit : ℕ) : List (TableId × TableObject) → ℕ → TableId → Database →
    Except ChainError (ℕ × TableId × Database)
  | [], ci, last, d => return (ci, last, d)
  | p :: l, ci, last, d =>
    if ci < limit then
      if isSpecialTable p.1 then updateWeights limit l (ci + 1) last d
      else do
        let d ← setWeight d p.1
        updateWeights limit l (ci + 1) p.1 d
    else return (ci + 1, last, d)

/-- The update of the weights of one room. -/
def updateRoomWeights (d : Database) (id : RoomId) : Except ChainError Database := do
  let room ← d.roomById id
  let limit := d.parameters.tablesWeightRecalculationsPerMaintenance
  let (ci, last, d) ← updateWeights limit (tablesFrom d id room.lastUpdatedTable) 0
    room.lastUpdatedTable d
  return { d with rooms := d.rooms.modify id fun r ↦ { r with
    lastUpdatedTable := if limit ≤ ci then last else nullTable
    prevRating := if limit ≤ ci then r.prevRating else r.rating } }

/-- `update_table_weight` -/
def updateTableWeight (d : Database) : Except ChainError Database :=
  ((d.rooms.toList.filter fun r ↦ !r.2.isNotChangedRating).map Prod.fst).foldlM updateRoomWeights d

end Playchain
