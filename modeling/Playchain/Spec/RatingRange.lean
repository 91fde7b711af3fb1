import Playchain.Spec.RoomRatings

/-!
# The range of the rating arithmetic

The rating of a room is a quotient of sums over measurements. The dividend is computed with 128 bits,
but the sums, the counter and **the whole divisor** have 64 bits or less, and the result is stored with
32. Here the same quotient is stated over the natural numbers (`exactRating`), and the pass stores it
exactly when the divisor has 64 bits, the quotient 31 and the number of measurements 32.

The one estimate behind this is `weightTotal_le`: weights are at most one, so that the weighted sums
are bounded by the plain ones and the dividend by `25 * q` times the divisor. The bound on the divisor
then covers all other products.
-/

namespace Playchain

variable {d : Database} {id : RoomId}

/-! ### The exact quotient -/

section Rating

variable [RatingFunctions]

/-- The time factors of all rooms of a pass, at least one. -/
def passMeasurementTotal (d : Database) : ℕ := max ((roomsRated d).map (measurementTotal d)).sum 1

/-- The weighted time factors of all rooms of a pass. -/
def passWeightTotal (d : Database) : ℕ := ((roomsRated d).map (weightTotal d)).sum

/-- The quantity factor of the measurements of a room. -/
def exactQuantityFactor (d : Database) (id : RoomId) : ℕ :=
  RatingFunctions.quantityFactor (countedMeasurements d id).length

/-- The divisor of the rating. -/
def exactDivisor (d : Database) (id : RoomId) : ℕ :=
  passMeasurementTotal d * (measurementTotal d id + statCorrection)

/-- The dividend of the rating. -/
def exactDividend (d : Database) (id : RoomId) : ℕ :=
  (weightTotal d id * passMeasurementTotal d + passWeightTotal d * statCorrection) * 25 *
    exactQuantityFactor d id

/-- The rating as a quotient of natural numbers. -/
def exactRating (d : Database) (id : RoomId) : ℕ := exactDividend d id / exactDivisor d id

/-- What a pass over the ratings should leave in a room: the number of its measurements, a divisor
that has not wrapped, and the exact quotient, which is at most `25 * q`. -/
def RatedExactly (d d' : Database) (id : RoomId) : Prop :=
  ∃ r, d'.rooms.find? id = some r ∧ r.measurementQuantity = (countedMeasurements d id).length ∧
    ratingDivisor (passMeasurementSum d) r = exactDivisor d id ∧
    r.rating = exactRating d id ∧ exactRating d id ≤ 25 * exactQuantityFactor d id

/-- The divisor has 64 bits, the rating 31 and the number of measurements 32. -/
def InRatingRange (d : Database) (id : RoomId) : Prop :=
  (countedMeasurements d id).length < 2 ^ 32 ∧ exactDivisor d id < 2 ^ 64 ∧
    exactDividend d id < 2 ^ 31 * exactDivisor d id

/-! ### The factors of the code, and the exact ones -/

theorem passWeightSum_eq (d : Database) : passWeightSum d = passWeightTotal d % 2 ^ 64 := by
  have h := foldl_add_mod RatingFactors.weightSum (2 ^ 64) (passFactors d) 0
  rw [Nat.zero_mod, Nat.zero_add] at h
  rw [passWeightSum, h, passFactors, List.map_map, passWeightTotal]
  simp only [Function.comp_def, ratingFactors_removeExpired]
  exact sum_map_mod _ _ _

/-! ### The estimate -/

/-- Weights are zero or one. -/
def WeightsAtMostOne (d : Database) : Prop := ∀ m ∈ d.roomRatingMeasurements.toList, m.2.weight ≤ 1

theorem weightTotal_le (hd : WeightsAtMostOne d) (id : RoomId) :
    weightTotal d id ≤ measurementTotal d id := by
  refine List.sum_le_sum fun m hm ↦ ?_
  have hweight := hd m (List.mem_of_mem_filter hm)
  exact (Nat.mul_le_mul_right _ hweight).trans_eq (Nat.one_mul _)

theorem passWeightTotal_le (hd : WeightsAtMostOne d) :
    passWeightTotal d ≤ passMeasurementTotal d :=
  (List.sum_le_sum fun id _ ↦ weightTotal_le hd id).trans (le_max_left _ _)

theorem one_le_passMeasurementTotal (d : Database) : 1 ≤ passMeasurementTotal d := le_max_right _ _

theorem passMeasurementTotal_le_exactDivisor (d : Database) (id : RoomId) :
    passMeasurementTotal d ≤ exactDivisor d id :=
  Nat.le_mul_of_pos_right _ (Nat.add_pos_right _ (by decide))

theorem exactDivisor_pos (d : Database) (id : RoomId) : 0 < exactDivisor d id :=
  (one_le_passMeasurementTotal d).trans (passMeasurementTotal_le_exactDivisor d id)

/-- The dividend, before it is scaled, is at most the divisor. -/
theorem unscaled_le_exactDivisor (hd : WeightsAtMostOne d) (id : RoomId) :
    weightTotal d id * passMeasurementTotal d + passWeightTotal d * statCorrection ≤
      exactDivisor d id := by
  calc weightTotal d id * passMeasurementTotal d + passWeightTotal d * statCorrection
      ≤ measurementTotal d id * passMeasurementTotal d + passMeasurementTotal d * statCorrection :=
        Nat.add_le_add (Nat.mul_le_mul_right _ (weightTotal_le hd id))
          (Nat.mul_le_mul_right _ (passWeightTotal_le hd))
    _ = exactDivisor d id := by rw [exactDivisor]; ring

/-- **The rating is at most `25 * q`.** -/
theorem exactRating_le (hd : WeightsAtMostOne d) (id : RoomId) :
    exactRating d id ≤ 25 * exactQuantityFactor d id := by
  refine Nat.div_le_of_le_mul ?_
  rw [exactDividend, Nat.mul_assoc]
  exact Nat.mul_le_mul_right _ (unscaled_le_exactDivisor hd id)

/-- A room with the factors of the pass, as the code computes them. -/
theorem ratingDivisor_withFactors (h : exactDivisor d id < 2 ^ 64) (r : RoomObject) :
    ratingDivisor (passMeasurementSum d)
      (r.withFactors (ratingFactors (removeExpiredRoomRatingMeasurements d) id)) =
      exactDivisor d id := by
  have hone := one_le_passMeasurementTotal d
  have hpass : passMeasurementTotal d < 2 ^ 64 :=
    (passMeasurementTotal_le_exactDivisor d id).trans_lt h
  have hsum : measurementTotal d id + statCorrection < 2 ^ 64 :=
    (Nat.le_mul_of_pos_left _ hone).trans_lt h
  have hmeasurements : measurementTotal d id % 2 ^ 64 = measurementTotal d id :=
    Nat.mod_eq_of_lt ((Nat.le_add_right _ _).trans_lt hsum)
  have hC : max (passMeasurementSum d) 1 = passMeasurementTotal d := by
    rw [passMeasurementSum_eq, Nat.mod_eq_of_lt ((le_max_left _ _).trans_lt hpass),
      passMeasurementTotal]
  rw [ratingDivisor, hC, RoomObject.withFactors, ratingFactors_removeExpired]
  dsimp only
  rw [hmeasurements, Nat.mod_eq_of_lt hsum]
  exact Nat.mod_eq_of_lt h

theorem ratingDividend_withFactors (hd : WeightsAtMostOne d) (h : InRatingRange d id)
    (r : RoomObject) :
    ratingDividend (passWeightSum d) (passMeasurementSum d)
      (r.withFactors (ratingFactors (removeExpiredRoomRatingMeasurements d) id)) =
      exactDividend d id := by
  obtain ⟨hcount, hdivisor, hdividend⟩ := h
  have hpass : passMeasurementTotal d < 2 ^ 64 :=
    (passMeasurementTotal_le_exactDivisor d id).trans_lt hdivisor
  have hunscaled := (unscaled_le_exactDivisor hd id).trans_lt hdivisor
  have hC : max (passMeasurementSum d) 1 = passMeasurementTotal d := by
    rw [passMeasurementSum_eq, Nat.mod_eq_of_lt ((le_max_left _ _).trans_lt hpass),
      passMeasurementTotal]
  have hCw : passWeightSum d = passWeightTotal d := by
    rw [passWeightSum_eq, Nat.mod_eq_of_lt ((passWeightTotal_le hd).trans_lt hpass)]
  have hW : weightTotal d id % 2 ^ 64 = weightTotal d id := by
    refine Nat.mod_eq_of_lt (lt_of_le_of_lt ?_ ((Nat.le_add_right _ _).trans_lt hunscaled))
    exact Nat.le_mul_of_pos_right _ (one_le_passMeasurementTotal d)
  have hfits : exactDividend d id < 2 ^ 128 := by omega
  rw [ratingDividend, hC, hCw, RoomObject.withFactors, ratingFactors_removeExpired]
  dsimp only
  rw [hW, Nat.mod_eq_of_lt hcount, ← exactQuantityFactor]
  generalize hx : weightTotal d id * passMeasurementTotal d = x at hunscaled
  generalize hy : passWeightTotal d * statCorrection = y at hunscaled
  have hexact : exactDividend d id = (x + y) * 25 * exactQuantityFactor d id := by
    rw [exactDividend, hx, hy]
  rw [Nat.mod_eq_of_lt (show x < 2 ^ 128 by omega), Nat.mod_eq_of_lt (show y < 2 ^ 64 by omega),
    Nat.mod_eq_of_lt (show x + y < 2 ^ 128 by omega),
    Nat.mod_eq_of_lt (show (x + y) * 25 < 2 ^ 128 by omega), ← hexact, Nat.mod_eq_of_lt hfits]

/-! ### The ratings after a pass -/

/-- The rating that the loop of a pass stores in a room, if the room has been rated. -/
def StoredRating (d e : Database) (id : RoomId) : Prop :=
  ∃ r n, e.rooms.find? id = some r ∧
    RatingFunctions.toInteger (ratingDividend (passWeightSum d) (passMeasurementSum d) r /
      ratingDivisor (passMeasurementSum d) r) = .ok n ∧
    r.withFactors (ratingFactors (removeExpiredRoomRatingMeasurements d) id) = r ∧
    r.rating = toInt32 n

theorem StoredRating.of_rooms_eq {e e' : Database} (h : StoredRating d e id)
    (hrooms : e'.rooms = e.rooms) : StoredRating d e' id := by
  rw [StoredRating, hrooms]
  exact h

/-- The quotient is computed from the factors of the room. -/
theorem quotient_of_withFactors {w m : ℕ} {r r' : RoomObject} {f : RatingFactors}
    (hr : r.withFactors f = r) (hr' : r'.withFactors f = r') :
    ratingDividend w m r = ratingDividend w m r' ∧ ratingDivisor m r = ratingDivisor m r' := by
  have hweight : r.weightSumByTimeFactor = r'.weightSumByTimeFactor := by rw [← hr, ← hr']; rfl
  have hsum : r.measurementSumByTimeFactor = r'.measurementSumByTimeFactor := by rw [← hr, ← hr']; rfl
  have hquantity : r.measurementQuantity = r'.measurementQuantity := by rw [← hr, ← hr']; rfl
  rw [ratingDividend, ratingDividend, ratingDivisor, ratingDivisor, hweight, hsum, hquantity]
  exact ⟨rfl, rfl⟩

/-- Rating a room stores its rating and keeps the ratings of the others. -/
theorem rateRoom_storedRating {s s' : Database × ℕ} {room : RoomId}
    (hfactors : HasFactors s.1 room (ratingFactors (removeExpiredRoomRatingMeasurements d) room))
    (hs' : rateRoom (passWeightSum d) (passMeasurementSum d) s room = .ok s') :
    StoredRating d s'.1 room ∧ ∀ id, StoredRating d s.1 id → StoredRating d s'.1 id := by
  obtain ⟨d₁, hd₁, hrest⟩ := Except.bind_eq_ok.1 hs'
  obtain ⟨r₁, -, hrest⟩ := Except.bind_eq_ok.1 hrest
  have hs : d₁ = s'.1 := congrArg Prod.fst (Except.pure_eq_ok.1 hrest)
  rw [← hs]
  obtain ⟨r, hr, hd₁⟩ := Except.bind_eq_ok.1 hd₁
  have hr : s.1.rooms.find? room = some r := orUnableToFind_eq_ok.1 hr
  obtain ⟨r', hr', hf⟩ := hfactors
  obtain rfl := Option.some.inj (hr'.symm.trans hr)
  rw [Except.ite_error_eq_ok] at hd₁
  obtain ⟨n, hn, hd₁⟩ := Except.bind_eq_ok.1 hd₁.2
  generalize hrating : toInt32 n = rating at hd₁
  obtain rfl := Except.pure_eq_ok.1 hd₁
  let rated (r : RoomObject) : RoomObject := { r with
    prevRating := r.rating
    rating := rating
    lastRatingUpdate := s.1.headBlockTime }
  have hrated : (rated r').withFactors (ratingFactors (removeExpiredRoomRatingMeasurements d) room) =
      rated r' := by
    rw [← hf]
    rfl
  have hroom : StoredRating d { s.1 with rooms := s.1.rooms.modify room rated } room := by
    refine ⟨rated r', n, ?_, ?_, hrated, hrating.symm⟩
    · rw [UniqueIndex.toObjectIndex_modify, ObjectIndex.find?_modify, if_pos rfl, hr']
      rfl
    · obtain ⟨hdividend, hdivisor⟩ := quotient_of_withFactors (w := passWeightSum d)
        (m := passMeasurementSum d) hrated hf
      rw [hdividend, hdivisor, hn]
  refine ⟨hroom, fun id hid ↦ ?_⟩
  by_cases hne : id = room
  · rw [hne]
    exact hroom
  · obtain ⟨r, n, hr, hrest⟩ := hid
    refine ⟨r, n, ?_, hrest⟩
    rw [UniqueIndex.toObjectIndex_modify, ObjectIndex.find?_modify_of_ne _ _ hne, hr]

/-- All rooms of a pass have their rating after it. -/
theorem foldlM_rateRoom_storedRating {s s' : Database × ℕ} {rooms : List RoomId}
    (hfactors : ∀ id ∈ rooms,
      HasFactors s.1 id (ratingFactors (removeExpiredRoomRatingMeasurements d) id))
    (hs' : rooms.foldlM (rateRoom (passWeightSum d) (passMeasurementSum d)) s = .ok s') :
    (∀ id ∈ rooms, StoredRating d s'.1 id) ∧
      ∀ id, StoredRating d s.1 id → StoredRating d s'.1 id := by
  induction rooms generalizing s with
  | nil =>
    obtain rfl := Except.pure_eq_ok.1 hs'
    exact ⟨fun id hid ↦ (by cases hid), fun id h ↦ h⟩
  | cons room rooms ih =>
    rw [List.foldlM_cons] at hs'
    obtain ⟨s₁, hs₁, hs'⟩ := Except.bind_eq_ok.1 hs'
    obtain ⟨hroom, hkeep⟩ := rateRoom_storedRating (hfactors room List.mem_cons_self) hs₁
    have hfactors₁ : ∀ id ∈ rooms,
        HasFactors s₁.1 id (ratingFactors (removeExpiredRoomRatingMeasurements d) id) :=
      fun id hid ↦ rateRoom_keeps (hfactors id (List.mem_cons_of_mem _ hid)) hs₁
    obtain ⟨hrooms, hkeep'⟩ := ih hfactors₁ hs'
    refine ⟨fun id hid ↦ ?_, fun id h ↦ hkeep' id (hkeep id h)⟩
    rcases List.mem_cons.1 hid with rfl | hid
    · exact hkeep' id hroom
    · exact hrooms id hid

omit [RatingFunctions] in
/-- A room that is rated is an ordinary one. -/
theorem ne_nullRoom_of_mem_roomsRated (h : id ∈ roomsRated d) : id ≠ nullRoom := by
  have hgeneral : ∀ (limit ci : ℕ) (l : List (RoomId × RoomObject)), id ∈ roomsToRate limit l ci →
      isSpecialRoom id = false := by
    intro limit ci l
    induction l generalizing ci with
    | nil => exact fun h ↦ by cases h
    | cons p l ih =>
      intro h
      rw [roomsToRate] at h
      split_ifs at h with hci hspecial hbusy
      · exact ih _ h
      · exact ih _ h
      · rcases List.mem_cons.1 h with rfl | h
        · exact Bool.eq_false_iff.2 hspecial
        · exact ih _ h
      · cases h
  exact of_decide_eq_false (hgeneral _ _ _ h)

/-- What a pass has stored in the rooms it has rated. -/
theorem updateRoomRating_storedRating (htime : hardforkPlaychain5Time ≤ d.headBlockTime)
    (hspecial : d.rooms.Has nullRoom) {d' : Database} {entropy : ℤ}
    (hd' : updateRoomRating d entropy = .ok d') (h : id ∈ roomsRated d) : StoredRating d d' id := by
  rw [updateRoomRating_eq htime hspecial
    ⟨id, ne_nullRoom_of_mem_roomsRated h, has_of_mem_roomsRated h⟩] at hd'
  obtain ⟨s, hs, hd'⟩ := Except.bind_eq_ok.1 hd'
  generalize toInt64 (s.2 / (roomsRated d).length : ℕ) = average at hd'
  rw [if_neg (List.length_pos_of_mem h).ne'] at hd'
  obtain rfl := Except.pure_eq_ok.1 hd'
  have hstored := (foldlM_rateRoom_storedRating (fun id hid ↦ hasFactors_passStart hid) hs).1 id h
  exact hstored.of_rooms_eq rfl

theorem exactRating_lt_iff : exactRating d id < 2 ^ 31 ↔
    exactDividend d id < 2 ^ 31 * exactDivisor d id :=
  Nat.div_lt_iff_lt_mul (exactDivisor_pos d id)

omit [RatingFunctions] in
/-- A stored rating is below `2 ^ 31`. -/
theorem toInt32_lt (x : ℤ) : toInt32 x < 2 ^ 31 := by
  have h := Int.bmod_lt (x := x) (m := 2 ^ 32) (by decide)
  rw [toInt32]
  omega

omit [RatingFunctions] in
theorem toInt32_natCast {n : ℕ} (h : n < 2 ^ 31) : toInt32 n = n := by
  rw [toInt32]
  exact Int.bmod_eq_of_le (by omega) (by omega)

/-- The rating of a room in range can be computed. -/
theorem ratingFits_of_inRatingRange
    (hinteger : ∀ n < 2 ^ 32, RatingFunctions.toInteger n = .ok n) (hd : WeightsAtMostOne d)
    (h : InRatingRange d id) : RatingFits d id := by
  have hlt := exactRating_lt_iff.2 h.2.2
  refine ⟨fun hdvd ↦ ?_, fun r hr ↦ ?_⟩
  · have hpass := (passMeasurementTotal_le_exactDivisor d id).trans_lt h.2.1
    rw [Nat.mod_eq_of_lt ((le_max_left _ _).trans_lt hpass)] at hdvd
    exact absurd (Nat.le_of_dvd (exactDivisor_pos d id) hdvd) (not_le.2 h.2.1)
  · dsimp only
    rw [ratingDividend_withFactors hd h, ratingDivisor_withFactors h.2.1, ← exactRating]
    exact ⟨exactRating d id, hinteger _ (by omega)⟩

/-- What is stored for a room in range is exact. -/
theorem ratedExactly_of_inRatingRange {e : Database}
    (hinteger : ∀ n < 2 ^ 32, RatingFunctions.toInteger n = .ok n) (hd : WeightsAtMostOne d)
    (h : InRatingRange d id) (hstored : StoredRating d e id) : RatedExactly d e id := by
  obtain ⟨r, n, hr, hn, hf, hrating⟩ := hstored
  have hlt := exactRating_lt_iff.2 h.2.2
  have hdividend := ratingDividend_withFactors hd h r
  have hdivisor := ratingDivisor_withFactors h.2.1 r
  rw [hf] at hdividend hdivisor
  have hquantity : r.measurementQuantity = (countedMeasurements d id).length := by
    rw [← hf, RoomObject.withFactors, ratingFactors_removeExpired]
    exact Nat.mod_eq_of_lt h.1
  refine ⟨r, hr, hquantity, hdivisor, ?_, exactRating_le hd id⟩
  rw [hdividend, hdivisor, ← exactRating, hinteger _ (by omega), Except.ok.injEq] at hn
  rw [hrating, ← hn, toInt32_natCast hlt]

/-- A room whose stored values are exact is in range. -/
theorem inRatingRange_of_stored {e : Database} {r : RoomObject} (hstored : StoredRating d e id)
    (hr : e.rooms.find? id = some r)
    (hquantity : r.measurementQuantity = (countedMeasurements d id).length)
    (hdivisor : ratingDivisor (passMeasurementSum d) r = exactDivisor d id)
    (hrating : r.rating = exactRating d id) : InRatingRange d id := by
  obtain ⟨r', n, hr', hn, hf, hrating'⟩ := hstored
  obtain rfl := Option.some.inj (hr'.symm.trans hr)
  refine ⟨?_, ?_, exactRating_lt_iff.1 ?_⟩
  · rw [← hquantity, ← hf, RoomObject.withFactors, ratingFactors_removeExpired]
    exact Nat.mod_lt _ (by decide)
  · rw [← hdivisor]
    exact Nat.mod_lt _ (by decide)
  · have hlt := toInt32_lt n
    rw [← hrating', hrating] at hlt
    exact_mod_cast hlt

/-- **Ratings are exact.** With weights of at most one, a pass leaves the exact rating in every room it
rates if and only if, for every such room, there are fewer than `2 ^ 32` measurements, the divisor is
below `2 ^ 64` and the quotient below `2 ^ 31`. -/
theorem ratedExactly_iff_inRatingRange
    (hinteger : ∀ n < 2 ^ 32, RatingFunctions.toInteger n = .ok n)
    (htime : hardforkPlaychain5Time ≤ d.headBlockTime) (hspecial : d.rooms.Has nullRoom)
    (hd : WeightsAtMostOne d) (entropy : ℤ) :
    (∀ id ∈ roomsRated d, ∃ d', updateRoomRating d entropy = .ok d' ∧ RatedExactly d d' id) ↔
      ∀ id ∈ roomsRated d, InRatingRange d id := by
  constructor
  · intro h id hid
    obtain ⟨d', hd', r, hr, hquantity, hdivisor, hrating, -⟩ := h id hid
    exact inRatingRange_of_stored (updateRoomRating_storedRating htime hspecial hd' hid) hr hquantity
      hdivisor hrating
  · intro h id hid
    have hfits : ∀ id ∈ roomsRated d, RatingFits d id := fun id hid ↦
      ratingFits_of_inRatingRange hinteger hd (h id hid)
    obtain ⟨s, hs⟩ := exists_foldlM_rateRoom_ok_iff.2 hfits
    have heq := updateRoomRating_eq htime hspecial
      ⟨id, ne_nullRoom_of_mem_roomsRated hid, has_of_mem_roomsRated hid⟩ entropy
    rw [hs, Except.ok_bind, if_neg (List.length_pos_of_mem hid).ne'] at heq
    exact ⟨_, heq, ratedExactly_of_inRatingRange hinteger hd (h id hid)
      (updateRoomRating_storedRating htime hspecial heq hid)⟩

end Rating

/-! ### One busy room -/

/-- A resolved measurement of the first ordinary room. -/
def busyMeasurement (i : ℕ) : RoomRatingMeasurementObject where
  created := hardforkPlaychain5Time
  expiration := hardforkPlaychain5Time + 604800
  room := 1
  table := 1
  associatedBuyin := i
  weight := 1
  waitingResolve := false

theorem sorted_busyMeasurements (n : ℕ) :
    ((List.range n).map fun i ↦ (i, busyMeasurement i)).Pairwise fun a b ↦ a.1 < b.1 := by
  rw [List.pairwise_map]
  exact List.pairwise_lt_range

theorem lt_of_mem_busyMeasurements (n : ℕ) :
    ∀ p ∈ (List.range n).map fun i ↦ (i, busyMeasurement i), p.1 < n := by
  intro p hp
  obtain ⟨i, hi, rfl⟩ := List.mem_map.1 hp
  exact List.mem_range.1 hi

/-- Some measurements of the room, under consecutive ids. -/
def busyObjects (n : ℕ) : ObjectIndex RoomRatingMeasurementObject where
  objects := ⟨(List.range n).map fun i ↦ (i, busyMeasurement i), sorted_busyMeasurements n⟩
  nextId := n
  lt_nextId := lt_of_mem_busyMeasurements n

theorem eq_of_find?_busyObjects {n i : ℕ} {m : RoomRatingMeasurementObject}
    (h : (busyObjects n).find? i = some m) : m = busyMeasurement i := by
  obtain ⟨j, -, hj⟩ := List.mem_map.1 (ObjectIndex.find?_eq_some_iff.1 h)
  obtain ⟨rfl, rfl⟩ := Prod.mk.inj hj
  rfl

theorem unique_busyObjects (n : ℕ) {i j : ℕ} {a b : RoomRatingMeasurementObject}
    (ha : (busyObjects n).find? i = some a) (hb : (busyObjects n).find? j = some b)
    (h : a.associatedBuyin = b.associatedBuyin) : i = j := by
  rwa [eq_of_find?_busyObjects ha, eq_of_find?_busyObjects hb] at h

/-- The special room and an ordinary one with `n` measurements, half an hour after all of them. -/
def busyRoom (n : ℕ) : Database where
  headBlockTime := hardforkPlaychain5Time + 1800
  accounts := 2
  rooms := (((∅ : UniqueIndex fun r : RoomObject ↦ (r.owner, r.metadata)).create?
    { owner := 0 }).bind fun rooms ↦ rooms.create? { owner := 1 }).getD ∅
  roomRatingMeasurements := { toObjectIndex := busyObjects n, unique := unique_busyObjects n }

theorem roomsRated_busyRoom (n : ℕ) : roomsRated (busyRoom n) = [1] := by
  have h : roomsRated (busyRoom 0) = [1] := by decide
  exact h

theorem has_nullRoom_busyRoom (n : ℕ) : (busyRoom n).rooms.Has nullRoom :=
  ⟨{ owner := 0 }, rfl⟩

theorem weightsAtMostOne_busyRoom (n : ℕ) : WeightsAtMostOne (busyRoom n) := by
  intro m hm
  obtain ⟨i, -, rfl⟩ := List.mem_map.1 hm
  exact le_rfl

theorem countedMeasurements_busyRoom (n : ℕ) : countedMeasurements (busyRoom n) 1 =
    (List.range n).map fun i ↦ (i, busyMeasurement i) := by
  refine List.filter_eq_self.2 fun m hm ↦ ?_
  obtain ⟨i, -, rfl⟩ := List.mem_map.1 hm
  simp only [busyRoom, busyMeasurement]
  decide

/-- Every measurement is half an hour old. -/
theorem timeFactor_busyRoom [RatingFunctions] (n i : ℕ) :
    timeFactor (minutesTillNow (busyRoom n) (busyMeasurement i)) = 30000 := by
  have h : minutesTillNow (busyRoom n) (busyMeasurement i) = 30 := by
    simp only [minutesTillNow, busyRoom, busyMeasurement]
    decide
  rw [h]
  rfl

theorem measurementTotal_busyRoom [RatingFunctions] (n : ℕ) :
    measurementTotal (busyRoom n) 1 = n * 30000 := by
  simp [measurementTotal, countedMeasurements_busyRoom, Function.comp_def, timeFactor_busyRoom]

theorem weightTotal_busyRoom [RatingFunctions] (n : ℕ) :
    weightTotal (busyRoom n) 1 = n * 30000 := by
  have hweight (i : ℕ) : (busyMeasurement i).weight = 1 := rfl
  simp [weightTotal, countedMeasurements_busyRoom, Function.comp_def, timeFactor_busyRoom, hweight]

section Busy

/-- The quantity factors in the range of the samples, and integers of 32 bits. -/
local instance busyRating : RatingFunctions where
  fadedTimeFactor _ := 0
  quantityFactor n := if n ≤ 100 then 500 + 5 * n else 1363
  toInteger n := do
    fcAssert (n < 2 ^ 32) "lo == lo32"
    return n

theorem toInteger_busyRating (n : ℕ) (h : n < 2 ^ 32) : busyRating.toInteger n = .ok n := by
  show (fcAssert (n < 2 ^ 32) "lo == lo32" >>= fun _ ↦ pure n) = .ok n
  rw [fcAssert_of_true h]
  rfl

theorem passMeasurementTotal_busyRoom {n : ℕ} (hn : 0 < n) :
    passMeasurementTotal (busyRoom n) = n * 30000 := by
  rw [passMeasurementTotal, roomsRated_busyRoom, List.map_singleton, List.sum_singleton,
    measurementTotal_busyRoom]
  omega

theorem exactDivisor_busyRoom {n : ℕ} (hn : 0 < n) :
    exactDivisor (busyRoom n) 1 = n * 30000 * (n * 30000 + 25000) := by
  rw [exactDivisor, passMeasurementTotal_busyRoom hn, measurementTotal_busyRoom]
  rfl

theorem exactDividend_busyRoom {n : ℕ} (hn : 0 < n) :
    exactDividend (busyRoom n) 1 =
      n * 30000 * (n * 30000 + 25000) * 25 * (if n ≤ 100 then 500 + 5 * n else 1363) := by
  have hquantity : exactQuantityFactor (busyRoom n) 1 = if n ≤ 100 then 500 + 5 * n else 1363 := by
    rw [exactQuantityFactor, countedMeasurements_busyRoom, List.length_map, List.length_range]
    rfl
  have hpass : passWeightTotal (busyRoom n) = n * 30000 := by
    rw [passWeightTotal, roomsRated_busyRoom, List.map_singleton, List.sum_singleton,
      weightTotal_busyRoom]
  have hcorrection : statCorrection = 25000 := rfl
  rw [exactDividend, passMeasurementTotal_busyRoom hn, weightTotal_busyRoom, hpass, hquantity,
    hcorrection]
  ring

/-- Two measurements with a factor of `510`. -/
theorem ratedExactly_two : 1 ∈ roomsRated (busyRoom 2) ∧
    ∃ d', updateRoomRating (busyRoom 2) 0 = .ok d' ∧ RatedExactly (busyRoom 2) d' 1 := by
  have hmem : 1 ∈ roomsRated (busyRoom 2) := by
    rw [roomsRated_busyRoom]
    exact List.mem_singleton_self 1
  refine ⟨hmem, (ratedExactly_iff_inRatingRange toInteger_busyRating (d := busyRoom 2) (by decide)
    (has_nullRoom_busyRoom 2) (weightsAtMostOne_busyRoom 2) 0).2 (fun id hid ↦ ?_) 1 hmem⟩
  rw [roomsRated_busyRoom, List.mem_singleton] at hid
  rw [hid, InRatingRange, countedMeasurements_busyRoom, exactDivisor_busyRoom two_pos,
    exactDividend_busyRoom two_pos]
  decide

/-- With 143166 measurements nothing wraps before the divisor does, and the quotient is by what is left
of it. -/
theorem quotient_busyRoom {r : RoomObject} (hr : r.withFactors
      (ratingFactors (removeExpiredRoomRatingMeasurements (busyRoom 143166)) 1) = r) :
    ratingDivisor (passMeasurementSum (busyRoom 143166)) r = 216501190448384 ∧
      ratingDividend (passWeightSum (busyRoom 143166)) (passMeasurementSum (busyRoom 143166)) r /
        ratingDivisor (passMeasurementSum (busyRoom 143166)) r = 2903356698 := by
  have hfactors : ratingFactors (removeExpiredRoomRatingMeasurements (busyRoom 143166)) 1 =
      { weightSum := 4294980000, measurementSum := 4294980000, quantity := 143166 } := by
    rw [ratingFactors_removeExpired, weightTotal_busyRoom, measurementTotal_busyRoom,
      countedMeasurements_busyRoom, List.length_map, List.length_range]
    norm_num
  have hC : passMeasurementSum (busyRoom 143166) = 4294980000 := by
    rw [passMeasurementSum_eq, roomsRated_busyRoom, List.map_singleton, List.sum_singleton,
      measurementTotal_busyRoom]
    norm_num
  have hCw : passWeightSum (busyRoom 143166) = 4294980000 := by
    rw [passWeightSum_eq, passWeightTotal, roomsRated_busyRoom, List.map_singleton,
      List.sum_singleton, weightTotal_busyRoom]
    norm_num
  have hweight : r.weightSumByTimeFactor = 4294980000 := by rw [← hr, hfactors]; rfl
  have hsum : r.measurementSumByTimeFactor = 4294980000 := by rw [← hr, hfactors]; rfl
  have hquantity : r.measurementQuantity = 143166 := by rw [← hr, hfactors]; rfl
  have hdivisor : ratingDivisor (passMeasurementSum (busyRoom 143166)) r = 216501190448384 := by
    rw [hC, ratingDivisor, hsum]
    decide
  refine ⟨hdivisor, ?_⟩
  rw [hdivisor, hC, hCw, ratingDividend, hweight, hquantity]
  decide

/-- With 143166 measurements the divisor wraps, and the stored rating is negative. -/
theorem rating_wraps : WeightsAtMostOne (busyRoom 143166) ∧
    1 ∈ roomsRated (busyRoom 143166) ∧ exactRating (busyRoom 143166) 1 = 34075 ∧
    ∃ d' r, updateRoomRating (busyRoom 143166) 0 = .ok d' ∧ d'.rooms.find? 1 = some r ∧
      r.rating = -1391610598 := by
  have hmem : 1 ∈ roomsRated (busyRoom 143166) := by
    rw [roomsRated_busyRoom]
    exact List.mem_singleton_self 1
  have hexact : exactRating (busyRoom 143166) 1 = 34075 := by
    rw [exactRating, exactDivisor_busyRoom (by decide), exactDividend_busyRoom (by decide)]
    decide
  have hfits : ∀ id ∈ roomsRated (busyRoom 143166), RatingFits (busyRoom 143166) id := by
    intro id hid
    rw [roomsRated_busyRoom, List.mem_singleton] at hid
    subst hid
    have hfactors (r : RoomObject) (f : RatingFactors) : (r.withFactors f).withFactors f = r.withFactors f := rfl
    obtain ⟨r₁, -⟩ := has_of_mem_roomsRated hmem
    refine ⟨fun hdvd ↦ ?_, fun r hr ↦ ?_⟩
    · rw [← ratingDivisor_eq_zero_iff _ _ r₁, (quotient_busyRoom (hfactors r₁ _)).1] at hdvd
      exact absurd hdvd (by decide)
    · dsimp only
      rw [(quotient_busyRoom (hfactors r _)).2]
      exact ⟨_, toInteger_busyRating _ (by decide)⟩
  obtain ⟨s, hs⟩ := exists_foldlM_rateRoom_ok_iff.2 hfits
  have hordinary : ∃ id, id ≠ nullRoom ∧ (busyRoom 143166).rooms.Has id :=
    ⟨1, ne_nullRoom_of_mem_roomsRated hmem, has_of_mem_roomsRated hmem⟩
  have htime : hardforkPlaychain5Time ≤ (busyRoom 143166).headBlockTime :=
    Nat.le_add_right hardforkPlaychain5Time 1800
  have hupdate := updateRoomRating_eq htime (has_nullRoom_busyRoom 143166) hordinary 0
  rw [hs, Except.ok_bind, if_neg (List.length_pos_of_mem hmem).ne'] at hupdate
  obtain ⟨r, n, hr, hn, hf, hrating⟩ :=
    updateRoomRating_storedRating htime (has_nullRoom_busyRoom 143166) hupdate hmem
  refine ⟨weightsAtMostOne_busyRoom _, hmem, hexact, _, r, hupdate, hr, ?_⟩
  rw [(quotient_busyRoom hf).2, toInteger_busyRating _ (by decide), Except.ok.injEq] at hn
  rw [hrating, ← hn]
  decide

end Busy

end Playchain
