import Playchain.Spec.TableWeights

/-!
# The ratings of rooms

A maintenance pass recalculates the ratings of a limited number of rooms and then the average rating
of these rooms. The special room uses up one of the places, and a room whose tables are being updated
is passed over: when no room is left, the average is a quotient by zero.

`updateRoomRating_completes_iff` is the exact condition under which the pass completes.
-/

namespace Playchain

variable {d : Database} {id : RoomId} {r : RoomObject}

/-! ### The rooms of a pass -/

/-- The rooms that a pass recalculates. -/
def roomsRated (d : Database) : List RoomId :=
  roomsToRate d.parameters.roomsRatingRecalculationsPerMaintenance (roomsByLastUpdate d) 0

/-- A room that can be rated: an ordinary one whose tables are not being updated. -/
def RoomIdle (id : RoomId) (r : RoomObject) : Prop :=
  isSpecialRoom id = false ∧ r.lastUpdatedTable = nullTable

/-- A split of a list is at its head or in its tail. -/
theorem exists_append_cons {α : Type*} {q : α} {l : List α} {A : α → Prop} {B : List α → Prop} :
    (∃ before p after, q :: l = before ++ p :: after ∧ A p ∧ B before) ↔ (A q ∧ B []) ∨
      ∃ before p after, l = before ++ p :: after ∧ A p ∧ B (q :: before) := by
  constructor
  · rintro ⟨_ | ⟨q', before⟩, p, after, hl, hA, hB⟩
    · obtain ⟨rfl, -⟩ := List.cons.inj hl
      exact .inl ⟨hA, hB⟩
    · obtain ⟨rfl, htail⟩ := List.cons.inj hl
      exact .inr ⟨before, p, after, htail, hA, hB⟩
  · rintro (⟨hA, hB⟩ | ⟨before, p, after, rfl, hA, hB⟩)
    · exact ⟨[], q, l, rfl, hA, hB⟩
    · exact ⟨q :: before, p, after, rfl, hA, hB⟩

/-- A room is rated when there is an idle room before the places are used up. -/
theorem roomsToRate_ne_nil_iff {limit ci : ℕ} {l : List (RoomId × RoomObject)} :
    roomsToRate limit l ci ≠ [] ↔ ∃ before p after, l = before ++ p :: after ∧ RoomIdle p.1 p.2 ∧
      ci + before.countP (fun q ↦ isSpecialRoom q.1) < limit := by
  induction l generalizing ci with
  | nil => simp [roomsToRate]
  | cons q l ih =>
    have hsplit := exists_append_cons (q := q) (l := l) (A := fun p ↦ RoomIdle p.1 p.2)
      (B := fun before ↦ ci + before.countP (fun q ↦ isSpecialRoom q.1) < limit)
    rw [roomsToRate, hsplit]
    by_cases hci : ci < limit
    · rw [if_pos hci]
      by_cases hspecial : isSpecialRoom q.1 = true
      · have hidle : ¬RoomIdle q.1 q.2 := fun h ↦ by
          rw [h.1] at hspecial
          cases hspecial
        rw [if_pos hspecial, ih, or_iff_right fun h ↦ hidle h.1]
        simp only [List.countP_cons, if_pos hspecial, Nat.add_right_comm ci 1, Nat.add_assoc]
      · have hzero : ∀ before : List (RoomId × RoomObject),
            (q :: before).countP (fun q ↦ isSpecialRoom q.1) =
              before.countP fun q ↦ isSpecialRoom q.1 :=
          fun before ↦ List.countP_cons_of_neg hspecial
        rw [if_neg hspecial]
        by_cases hbusy : q.2.lastUpdatedTable = nullTable
        · rw [if_neg (not_not.2 hbusy)]
          refine iff_of_true (List.cons_ne_nil _ _) (.inl ⟨⟨?_, hbusy⟩, hci⟩)
          exact Bool.eq_false_iff.2 hspecial
        · rw [if_pos hbusy, ih, or_iff_right fun h ↦ hbusy h.1.2]
          simp only [hzero]
    · rw [if_neg hci]
      refine iff_of_false (fun h ↦ h rfl) ?_
      rintro (⟨-, h⟩ | ⟨before, p, after, -, -, h⟩)
      · omega
      · omega

theorem exists_mem_of_mem_roomsToRate {limit ci : ℕ} {l : List (RoomId × RoomObject)}
    (h : id ∈ roomsToRate limit l ci) : ∃ r, (id, r) ∈ l := by
  induction l generalizing ci with
  | nil => cases h
  | cons q l ih =>
    have htail : ∀ ci, id ∈ roomsToRate limit l ci → ∃ r, (id, r) ∈ q :: l := fun ci hmem ↦ by
      obtain ⟨r, hr⟩ := ih hmem
      exact ⟨r, List.mem_cons_of_mem _ hr⟩
    rw [roomsToRate] at h
    split_ifs at h
    · exact htail _ h
    · exact htail _ h
    · rcases List.mem_cons.1 h with rfl | h
      · exact ⟨q.2, List.mem_cons_self⟩
      · exact htail _ h
    · cases h

/-- Some room is idle, and the places of a pass reach it: the special room uses up one of them if it
comes before the idle room in the order of the last updates. -/
def CanRate (d : Database) : Prop :=
  ∃ id r s, d.rooms.find? id = some r ∧ RoomIdle id r ∧ d.rooms.find? nullRoom = some s ∧
    (if s.lastRatingUpdate ≤ r.lastRatingUpdate then 1 else 0) <
      d.parameters.roomsRatingRecalculationsPerMaintenance

theorem roomsRated_ne_nil_iff (hspecial : d.rooms.Has nullRoom) :
    roomsRated d ≠ [] ↔ CanRate d := by
  obtain ⟨s, hs⟩ := hspecial
  let le (a b : RoomId × RoomObject) : Prop := a.2.lastRatingUpdate < b.2.lastRatingUpdate ∨
    (a.2.lastRatingUpdate = b.2.lastRatingUpdate ∧ a.1 ≤ b.1)
  have hsorted : (roomsByLastUpdate d).Pairwise le :=
    d.rooms.pairwise_orderedBy RoomObject.lastRatingUpdate
  have hmem {p : RoomId × RoomObject} : p ∈ roomsByLastUpdate d ↔ d.rooms.find? p.1 = some p.2 :=
    ObjectIndex.mem_orderedBy
  have hnodup := d.rooms.nodup_orderedBy le
  -- the special room is the only one that uses up a place, and it does so before all rooms that have
  -- not been updated before it
  have hplaces : ∀ before p after, roomsByLastUpdate d = before ++ p :: after → RoomIdle p.1 p.2 →
      before.countP (fun q ↦ isSpecialRoom q.1) =
        if s.lastRatingUpdate ≤ p.2.lastRatingUpdate then 1 else 0 := by
    intro before p after hsplit hidle
    have hcount : before.countP (fun q ↦ isSpecialRoom q.1) =
        (before.map Prod.fst).count nullRoom := by
      rw [List.count, List.countP_map]
      rfl
    have hids : (before.map Prod.fst).Nodup := by
      have : ((before ++ p :: after).map Prod.fst).Nodup := hsplit ▸ hnodup
      rw [List.map_append] at this
      exact (List.nodup_append.1 this).1
    have hbefore : nullRoom ∈ before.map Prod.fst ↔ s.lastRatingUpdate ≤ p.2.lastRatingUpdate := by
      rw [hsplit, List.pairwise_append] at hsorted
      obtain ⟨-, hafter, hcross⟩ := hsorted
      constructor
      · intro hnull
        obtain ⟨⟨i, s'⟩, hq, rfl⟩ := List.mem_map.1 hnull
        have hs' : (nullRoom, s') ∈ roomsByLastUpdate d := by
          rw [hsplit]
          exact List.mem_append_left _ hq
        obtain rfl := Option.some.inj (hs.symm.trans (hmem.1 hs'))
        exact (hcross _ hq p List.mem_cons_self).elim le_of_lt fun h ↦ h.1.le
      · intro hle
        have hin : (nullRoom, s) ∈ before ++ p :: after := hsplit ▸ hmem.2 hs
        have hne : p.1 ≠ nullRoom := of_decide_eq_false hidle.1
        rcases List.mem_append.1 hin with hin | hin
        · exact List.mem_map_of_mem hin
        · rcases List.mem_cons.1 hin with rfl | hin
          · exact absurd rfl hne
          · rcases (List.pairwise_cons.1 hafter).1 _ hin with hlt | ⟨-, hid⟩
            · exact absurd hle (not_le_of_gt hlt)
            · exact absurd (Nat.le_zero.1 hid) hne
    rw [hcount]
    split_ifs with hle
    · exact List.count_eq_one_of_mem hids (hbefore.2 hle)
    · exact List.count_eq_zero.2 fun hin ↦ hle (hbefore.1 hin)
  rw [roomsRated, roomsToRate_ne_nil_iff]
  constructor
  · rintro ⟨before, p, after, hsplit, hidle, hlt⟩
    rw [Nat.zero_add, hplaces before p after hsplit hidle] at hlt
    refine ⟨p.1, p.2, s, hmem.1 ?_, hidle, hs, hlt⟩
    rw [hsplit]
    exact List.mem_append_right _ List.mem_cons_self
  · rintro ⟨id, r, s', hr, hidle, hs', hlt⟩
    obtain rfl := Option.some.inj (hs.symm.trans hs')
    have hin : (id, r) ∈ roomsByLastUpdate d := hmem.2 hr
    obtain ⟨before, after, hsplit⟩ := List.append_of_mem hin
    refine ⟨before, (id, r), after, hsplit, hidle, ?_⟩
    rwa [Nat.zero_add, hplaces before (id, r) after hsplit hidle]

/-! ### The factors of a pass -/

section Rating

variable [RatingFunctions]

/-- A room with the factors of a pass. -/
def RoomObject.withFactors (r : RoomObject) (f : RatingFactors) : RoomObject :=
  { r with
    weightSumByTimeFactor := f.weightSum
    measurementSumByTimeFactor := f.measurementSum
    measurementQuantity := f.quantity }

/-- The factors of the rooms that a pass recalculates, from the measurements that have not expired. -/
def passFactors (d : Database) : List RatingFactors :=
  (roomsRated d).map fun room ↦ ratingFactors (removeExpiredRoomRatingMeasurements d) room

/-- The sum of the weights over all rooms of a pass. -/
def passWeightSum (d : Database) : ℕ :=
  (passFactors d).foldl (fun s f ↦ (s + f.weightSum) % 2 ^ 64) 0

/-- The sum of the time factors over all rooms of a pass. -/
def passMeasurementSum (d : Database) : ℕ :=
  (passFactors d).foldl (fun s f ↦ (s + f.measurementSum) % 2 ^ 64) 0

omit [RatingFunctions] in
theorem removeExpiredRoomRatingMeasurements_eq (d : Database) :
    ∃ m, removeExpiredRoomRatingMeasurements d = { d with roomRatingMeasurements := m } := by
  rw [removeExpiredRoomRatingMeasurements]
  refine List.foldlRecOn (motive := fun e : Database ↦ ∃ m, e = { d with roomRatingMeasurements := m }) _ _
    ⟨d.roomRatingMeasurements, rfl⟩ ?_
  rintro _ ⟨m, rfl⟩ p -
  exact ⟨m.remove p.1, rfl⟩

/-! ### The sums behind the factors -/

omit [RatingFunctions] in
/-- A sum that wraps after every step is the exact sum, wrapped once. -/
theorem foldl_add_mod {α : Type*} (f : α → ℕ) (modulus : ℕ) (l : List α) (s : ℕ) :
    l.foldl (fun s a ↦ (s + f a) % modulus) (s % modulus) = (s + (l.map f).sum) % modulus := by
  induction l generalizing s with
  | nil => rw [List.foldl_nil, List.map_nil, List.sum_nil, Nat.add_zero]
  | cons a l ih =>
    rw [List.foldl_cons, Nat.mod_add_mod, ih, List.map_cons, List.sum_cons, Nat.add_assoc]

omit [RatingFunctions] in
/-- Sums that agree up to wrapping have sums that agree up to wrapping. -/
theorem sum_map_mod {α : Type*} (f : α → ℕ) (modulus : ℕ) (l : List α) :
    (l.map fun a ↦ f a % modulus).sum % modulus = (l.map f).sum % modulus := by
  induction l with
  | nil => rfl
  | cons a l ih =>
    rw [List.map_cons, List.sum_cons, List.map_cons, List.sum_cons, Nat.mod_add_mod, Nat.add_mod, ih,
      ← Nat.add_mod]

/-- The measurements of a room that a pass counts: they have not expired and are resolved. -/
def countedMeasurements (d : Database) (id : RoomId) : List (ℕ × RoomRatingMeasurementObject) :=
  d.roomRatingMeasurements.toList.filter fun m ↦
    d.headBlockTime < m.2.expiration ∧ m.2.room = id ∧ m.2.waitingResolve = false

/-- The age of a measurement in minutes. -/
def minutesTillNow (d : Database) (m : RoomRatingMeasurementObject) : ℕ :=
  (d.headBlockTime + 2 ^ 32 - m.created) % 2 ^ 32 / 60

omit [RatingFunctions] in
/-- Expired measurements are removed, and nothing else is. -/
theorem toList_removeExpired (d : Database) :
    (removeExpiredRoomRatingMeasurements d).roomRatingMeasurements.toList =
      d.roomRatingMeasurements.toList.filter fun m ↦ d.headBlockTime < m.2.expiration := by
  have hfold : ∀ (l : List (ℕ × RoomRatingMeasurementObject)) (e : Database),
      (l.foldl (fun d m ↦ { d with roomRatingMeasurements := d.roomRatingMeasurements.remove m.1 })
        e).roomRatingMeasurements.toObjectIndex =
        l.foldl (fun x m ↦ x.remove m.1) e.roomRatingMeasurements.toObjectIndex := by
    intro l
    induction l with
    | nil => exact fun _ ↦ rfl
    | cons p l ih => exact fun e ↦ ih _
  rw [removeExpiredRoomRatingMeasurements, hfold, ObjectIndex.toList_foldl_remove]
  refine List.filter_congr fun m hm ↦ ?_
  rw [decide_eq_decide, List.mem_map, ← not_le, not_iff_not]
  constructor
  · rintro ⟨n, hn, hid⟩
    obtain ⟨hn, hexpired⟩ := List.mem_filter.1 hn
    have hnm : n = m := List.inj_on_of_nodup_map
      (d.roomRatingMeasurements.toObjectIndex.objects.nodup_fst) hn hm hid
    exact hnm ▸ of_decide_eq_true hexpired
  · intro hexpired
    exact ⟨m, List.mem_filter.2 ⟨hm, decide_eq_true hexpired⟩, rfl⟩

/-- The sum of the time factors of a room. -/
def measurementTotal (d : Database) (id : RoomId) : ℕ :=
  ((countedMeasurements d id).map fun m ↦ timeFactor (minutesTillNow d m.2)).sum

/-- The sum of the time factors of a room, each with its weight. -/
def weightTotal (d : Database) (id : RoomId) : ℕ :=
  ((countedMeasurements d id).map fun m ↦ m.2.weight * timeFactor (minutesTillNow d m.2)).sum

/-- The factors of a room are the exact sums, wrapped. -/
theorem ratingFactors_removeExpired (d : Database) (id : RoomId) :
    ratingFactors (removeExpiredRoomRatingMeasurements d) id =
      { weightSum := weightTotal d id % 2 ^ 64
        measurementSum := measurementTotal d id % 2 ^ 64
        quantity := (countedMeasurements d id).length % 2 ^ 32 } := by
  have htime : (removeExpiredRoomRatingMeasurements d).headBlockTime = d.headBlockTime := by
    obtain ⟨m, hm⟩ := removeExpiredRoomRatingMeasurements_eq d
    rw [hm]
  have hcounted : (removeExpiredRoomRatingMeasurements d).roomRatingMeasurements.toList.filter
      (fun m ↦ m.2.room = id ∧ m.2.waitingResolve = false) = countedMeasurements d id := by
    rw [toList_removeExpired, List.filter_filter, countedMeasurements]
    refine List.filter_congr fun m _ ↦ ?_
    rw [Bool.eq_iff_iff]
    simp only [Bool.and_eq_true, decide_eq_true_eq]
    tauto
  have hfold : ∀ (l : List (ℕ × RoomRatingMeasurementObject)) (w s n : ℕ),
      l.foldl (fun s m ↦
        { weightSum := (s.weightSum + m.2.weight * timeFactor (minutesTillNow d m.2)) % 2 ^ 64
          measurementSum := (s.measurementSum + timeFactor (minutesTillNow d m.2)) % 2 ^ 64
          quantity := (s.quantity + 1) % 2 ^ 32 })
        ({ weightSum := w % 2 ^ 64, measurementSum := s % 2 ^ 64,
            quantity := n % 2 ^ 32 } : RatingFactors) =
        { weightSum :=
            (w + (l.map fun m ↦ m.2.weight * timeFactor (minutesTillNow d m.2)).sum) % 2 ^ 64
          measurementSum := (s + (l.map fun m ↦ timeFactor (minutesTillNow d m.2)).sum) % 2 ^ 64
          quantity := (n + l.length) % 2 ^ 32 } := by
    intro l
    induction l with
    | nil => intro w s n; rfl
    | cons m l ih =>
      intro w s n
      rw [List.foldl_cons]
      simp only [Nat.mod_add_mod]
      rw [ih]
      simp only [List.map_cons, List.sum_cons, List.length_cons, Nat.add_assoc, Nat.add_comm 1]
  rw [ratingFactors, hcounted]
  simp only [htime]
  have h := hfold (countedMeasurements d id) 0 0 0
  simp only [Nat.zero_mod, Nat.zero_add] at h
  exact h

theorem passMeasurementSum_eq (d : Database) :
    passMeasurementSum d = ((roomsRated d).map (measurementTotal d)).sum % 2 ^ 64 := by
  have h := foldl_add_mod RatingFactors.measurementSum (2 ^ 64) (passFactors d) 0
  rw [Nat.zero_mod, Nat.zero_add] at h
  rw [passMeasurementSum, h, passFactors, List.map_map]
  simp only [Function.comp_def, ratingFactors_removeExpired]
  exact sum_map_mod _ _ _

/-- **The divisor of a rating in terms of the sums.** It is zero where a product is a multiple of `2 ^ 64`. -/
theorem ratingDivisor_eq_zero_iff (d : Database) (id : RoomId) (r : RoomObject) :
    ratingDivisor (passMeasurementSum d)
        (r.withFactors (ratingFactors (removeExpiredRoomRatingMeasurements d) id)) = 0 ↔
      2 ^ 64 ∣ max (((roomsRated d).map (measurementTotal d)).sum % 2 ^ 64) 1 *
        (measurementTotal d id + statCorrection) := by
  rw [ratingDivisor, passMeasurementSum_eq, RoomObject.withFactors, ratingFactors_removeExpired,
    Nat.dvd_iff_mod_eq_zero]
  dsimp only
  rw [Nat.mod_add_mod, Nat.mul_mod_mod]

/-- The rating of a room can be computed: the product of the time factors of all rooms of the pass with
those of the room is no multiple of `2 ^ 64`, and the quotient is an integer of 32 bits. -/
def RatingFits (d : Database) (id : RoomId) : Prop :=
  ¬2 ^ 64 ∣ max (((roomsRated d).map (measurementTotal d)).sum % 2 ^ 64) 1 *
      (measurementTotal d id + statCorrection) ∧
    ∀ r, d.rooms.find? id = some r →
      let r' := r.withFactors (ratingFactors (removeExpiredRoomRatingMeasurements d) id)
      ∃ n, RatingFunctions.toInteger (ratingDividend (passWeightSum d) (passMeasurementSum d) r' /
        ratingDivisor (passMeasurementSum d) r') = .ok n

/-! ### The rooms of a pass get their factors -/

/-- The room is there, with some factors. -/
def HasFactors (d : Database) (id : RoomId) (f : RatingFactors) : Prop :=
  ∃ r, d.rooms.find? id = some r ∧ r.withFactors f = r

omit [RatingFunctions] in
/-- A room that changes in something else keeps its factors. -/
theorem HasFactors.modify {f : RatingFactors} (h : HasFactors d id f) (room : RoomId)
    {g : RoomObject → RoomObject}
    (hkey : ∀ r, ((g r).owner, (g r).metadata) = (r.owner, r.metadata))
    (hg : room = id → ∀ r, r.withFactors f = r → (g r).withFactors f = g r) :
    HasFactors { d with rooms := d.rooms.modify room g hkey } id f := by
  obtain ⟨r, hr, hf⟩ := h
  rw [HasFactors, UniqueIndex.toObjectIndex_modify]
  by_cases hid : id = room
  · refine ⟨g r, ?_, hg hid.symm r hf⟩
    rw [ObjectIndex.find?_modify, if_pos hid, hr]
    rfl
  · exact ⟨r, by rw [ObjectIndex.find?_modify_of_ne _ _ hid, hr], hf⟩

/-- The factors are computed from the measurements and the time. -/
theorem ratingFactors_congr {e : Database} (hm : e.roomRatingMeasurements = d.roomRatingMeasurements)
    (hn : e.headBlockTime = d.headBlockTime) (room : RoomId) :
    ratingFactors e room = ratingFactors d room := by
  rw [ratingFactors, ratingFactors, hm, hn]

/-- **All rooms of a pass get their factors.** -/
theorem foldl_recalculateRoomRatingFactors {e : Database} (rooms : List RoomId)
    (hm : e.roomRatingMeasurements = d.roomRatingMeasurements)
    (hn : e.headBlockTime = d.headBlockTime) (hrooms : ∀ id ∈ rooms, e.rooms.Has id) :
    (∀ id, HasFactors e id (ratingFactors d id) →
      HasFactors (rooms.foldl recalculateRoomRatingFactors e) id (ratingFactors d id)) ∧
    ∀ id ∈ rooms, HasFactors (rooms.foldl recalculateRoomRatingFactors e) id (ratingFactors d id) := by
  induction rooms generalizing e with
  | nil => exact ⟨fun _ h ↦ h, fun _ h ↦ by cases h⟩
  | cons room rooms ih =>
    have hfactors := ratingFactors_congr hm hn room
    have hkeep : ∀ id, HasFactors e id (ratingFactors d id) →
        HasFactors (recalculateRoomRatingFactors e room) id (ratingFactors d id) := by
      intro id h
      refine h.modify room _ fun heq r _ ↦ ?_
      rw [hfactors, heq]
      rfl
    have hnew : HasFactors (recalculateRoomRatingFactors e room) room (ratingFactors d room) := by
      obtain ⟨r, hr⟩ := hrooms room List.mem_cons_self
      refine ⟨r.withFactors (ratingFactors d room), ?_, rfl⟩
      rw [recalculateRoomRatingFactors, UniqueIndex.toObjectIndex_modify, ObjectIndex.find?_modify,
        if_pos rfl, hr, hfactors]
      rfl
    have hkeeps : ObjectIndex.Keeps RoomObject.owner e.rooms.toObjectIndex
        (recalculateRoomRatingFactors e room).rooms.toObjectIndex :=
      .modify _ _ fun _ ↦ rfl
    have hhas : ∀ id ∈ rooms, (recalculateRoomRatingFactors e room).rooms.Has id := fun id hid ↦
      hkeeps.has (hrooms id (List.mem_cons_of_mem _ hid))
    obtain ⟨hkeep', hnew'⟩ := ih (e := recalculateRoomRatingFactors e room) hm hn hhas
    rw [List.foldl_cons]
    refine ⟨fun id h ↦ hkeep' id (hkeep id h), fun id hid ↦ ?_⟩
    rcases List.mem_cons.1 hid with rfl | hid
    · exact hkeep' id hnew
    · exact hnew' id hid

/-- One turn of the loop over the rooms of a pass. -/
theorem rateRoom_ok_iff {s : Database × ℕ} {f : RatingFactors} (h : HasFactors s.1 id f) (w m : ℕ)
    (r : RoomObject) :
    (∃ s', rateRoom w m s id = .ok s') ↔ ratingDivisor m (r.withFactors f) ≠ 0 ∧
      ∃ n, RatingFunctions.toInteger (ratingDividend w m (r.withFactors f) /
        ratingDivisor m (r.withFactors f)) = .ok n := by
  obtain ⟨r', hr', hf⟩ := h
  have hdivisor : ratingDivisor m r' = ratingDivisor m (r.withFactors f) := by
    rw [← hf]
    rfl
  have hdividend : ratingDividend w m r' = ratingDividend w m (r.withFactors f) := by
    rw [← hf]
    rfl
  have hfind : s.1.roomById id = .ok r' := orUnableToFind_eq_ok.2 hr'
  rw [rateRoom, recalculateRoomRating, hfind, Except.ok_bind, hdivisor, hdividend]
  generalize ratingDivisor m (r.withFactors f) = divisor
  generalize ratingDividend w m (r.withFactors f) / divisor = quotient
  by_cases hzero : divisor = 0
  · rw [if_pos hzero, Except.error_bind]
    refine iff_of_false ?_ fun h ↦ h.1 hzero
    rintro ⟨s', hs'⟩
    cases hs'
  · rw [if_neg hzero]
    rcases hn : RatingFunctions.toInteger quotient with e | n
    · rw [Except.error_bind, Except.error_bind]
      refine iff_of_false ?_ ?_
      · rintro ⟨s', hs'⟩
        cases hs'
      · rintro ⟨-, n, hn'⟩
        cases hn'
    · refine iff_of_true ?_ ⟨hzero, n, rfl⟩
      rw [Except.ok_bind]
      generalize toInt32 n = rating
      have hkeeps : ObjectIndex.Keeps RoomObject.owner s.1.rooms.toObjectIndex
          (s.1.rooms.toObjectIndex.modify id fun r ↦ { r with
            prevRating := r.rating
            rating := rating
            lastRatingUpdate := s.1.headBlockTime }) := .modify _ _ fun _ ↦ rfl
      obtain ⟨r₁, hr₁⟩ := hkeeps.has ⟨r', hr'⟩
      generalize hmodulus : 2 ^ 64 = modulus
      exact ⟨_, Except.bind_eq_ok.2 ⟨_, rfl,
        Except.bind_eq_ok.2 ⟨r₁, orUnableToFind_eq_ok.2 hr₁, rfl⟩⟩⟩

/-- Rating a room keeps the factors of all rooms. -/
theorem rateRoom_keeps {s s' : Database × ℕ} {w m : ℕ} {room : RoomId} {f : RatingFactors}
    (h : HasFactors s.1 id f) (hs' : rateRoom w m s room = .ok s') : HasFactors s'.1 id f := by
  obtain ⟨d₁, hd₁, hrest⟩ := Except.bind_eq_ok.1 hs'
  obtain ⟨r, -, hrest⟩ := Except.bind_eq_ok.1 hrest
  have hs : d₁ = s'.1 := congrArg Prod.fst (Except.pure_eq_ok.1 hrest)
  rw [← hs]
  obtain ⟨r', -, hd₁⟩ := Except.bind_eq_ok.1 hd₁
  generalize ratingDivisor m r' = divisor at hd₁
  rw [Except.ite_error_eq_ok] at hd₁
  obtain ⟨n, -, hd₁⟩ := Except.bind_eq_ok.1 hd₁.2
  generalize toInt32 (n : ℤ) = rating at hd₁
  obtain rfl := Except.pure_eq_ok.1 hd₁
  refine h.modify room _ fun _ r hr ↦ ?_
  rw [← hr]
  rfl

omit [RatingFunctions] in
/-- The rooms of a pass exist. -/
theorem has_of_mem_roomsRated (h : id ∈ roomsRated d) : d.rooms.Has id := by
  obtain ⟨r, hr⟩ := exists_mem_of_mem_roomsToRate h
  exact ⟨r, ObjectIndex.mem_orderedBy.1 hr⟩

/-- The state in which the loop over the ratings starts: all rooms of the pass have their factors. -/
def passStart (d : Database) : Database :=
  (roomsRated d).foldl recalculateRoomRatingFactors (removeExpiredRoomRatingMeasurements d)

theorem hasFactors_passStart (h : id ∈ roomsRated d) :
    HasFactors (passStart d) id (ratingFactors (removeExpiredRoomRatingMeasurements d) id) := by
  obtain ⟨m, hm⟩ := removeExpiredRoomRatingMeasurements_eq d
  have hrooms : ∀ id ∈ roomsRated d, (removeExpiredRoomRatingMeasurements d).rooms.Has id := by
    intro id hid
    rw [hm]
    exact has_of_mem_roomsRated hid
  exact (foldl_recalculateRoomRatingFactors (d := removeExpiredRoomRatingMeasurements d)
    (roomsRated d) rfl rfl hrooms).2 id h

/-- On a chain with an ordinary room the pass is the loop over its rooms, and the average after it. -/
theorem updateRoomRating_eq (htime : hardforkPlaychain5Time ≤ d.headBlockTime)
    (hspecial : d.rooms.Has nullRoom) (hordinary : ∃ id, id ≠ nullRoom ∧ d.rooms.Has id)
    (entropy : ℤ) :
    updateRoomRating d entropy =
      (roomsRated d).foldlM (rateRoom (passWeightSum d) (passMeasurementSum d)) (passStart d, 0) >>=
        fun s ↦ if (roomsRated d).length = 0 then .error .divisionByZero
          else return { s.1 with averageRoomRating := toInt64 (s.2 / (roomsRated d).length : ℕ) } := by
  obtain ⟨m, hm⟩ := removeExpiredRoomRatingMeasurements_eq d
  have hrated : roomsToRate (removeExpiredRoomRatingMeasurements
      d).parameters.roomsRatingRecalculationsPerMaintenance
      (roomsByLastUpdate (removeExpiredRoomRatingMeasurements d)) 0 = roomsRated d := by
    rw [hm]
    rfl
  have hrooms : (roomsByLastUpdate (removeExpiredRoomRatingMeasurements d)).length ≠ 1 := by
    intro hone
    obtain ⟨p, hp⟩ := List.length_eq_one_iff.1 hone
    have hp (id : RoomId) (h : d.rooms.Has id) : p.1 = id := by
      obtain ⟨r, hr⟩ := h
      have hin : (id, r) ∈ roomsByLastUpdate (removeExpiredRoomRatingMeasurements d) := by
        rw [hm]
        exact ObjectIndex.mem_orderedBy.2 hr
      rw [hp, List.mem_singleton] at hin
      rw [← hin]
    obtain ⟨id, hne, hid⟩ := hordinary
    exact hne ((hp id hid).symm.trans (hp nullRoom hspecial))
  have htime' : ¬(removeExpiredRoomRatingMeasurements d).headBlockTime < hardforkPlaychain5Time := by
    rw [hm]
    exact not_lt_of_ge htime
  rw [updateRoomRating]
  dsimp only
  rw [if_neg htime', if_neg hrooms, hrated, ← passFactors, ← passWeightSum, ← passMeasurementSum,
    ← passStart]

/-- The loop over the rooms of a pass keeps their factors and completes when all ratings can be
computed. -/
theorem exists_foldlM_rateRoom_ok_iff :
    (∃ s, (roomsRated d).foldlM (rateRoom (passWeightSum d) (passMeasurementSum d))
      (passStart d, 0) = .ok s) ↔ ∀ id ∈ roomsRated d, RatingFits d id := by
  let I (s : Database × ℕ) : Prop := ∀ id ∈ roomsRated d,
    HasFactors s.1 id (ratingFactors (removeExpiredRoomRatingMeasurements d) id)
  refine Except.exists_foldlM_ok_iff I (RatingFits d) (fun id hid s hs ↦ ?_)
    (fun id _ s s' hs hs' i hi ↦ rateRoom_keeps (hs i hi) hs') fun id hid ↦ hasFactors_passStart hid
  obtain ⟨r, hr⟩ := has_of_mem_roomsRated hid
  rw [rateRoom_ok_iff (hs id hid) _ _ r, Ne, ratingDivisor_eq_zero_iff]
  refine ⟨fun h ↦ ⟨h.1, fun r' hr' ↦ ?_⟩, fun h ↦ ⟨h.1, h.2 r hr⟩⟩
  obtain rfl := Option.some.inj (hr.symm.trans hr')
  exact h.2

/-- **The pass over the ratings completes**, for a chain with an ordinary room, if and only if the
places reach an idle room and the rating of every room of the pass can be computed. -/
theorem updateRoomRating_completes_iff (htime : hardforkPlaychain5Time ≤ d.headBlockTime)
    (hspecial : d.rooms.Has nullRoom) (hordinary : ∃ id, id ≠ nullRoom ∧ d.rooms.Has id)
    (entropy : ℤ) :
    (∃ d', updateRoomRating d entropy = .ok d') ↔
      CanRate d ∧ ∀ id ∈ roomsRated d, RatingFits d id := by
  rw [updateRoomRating_eq htime hspecial hordinary, ← roomsRated_ne_nil_iff hspecial,
    ← exists_foldlM_rateRoom_ok_iff]
  constructor
  · rintro ⟨d', hd'⟩
    obtain ⟨s', hs', hd'⟩ := Except.bind_eq_ok.1 hd'
    refine ⟨fun hnil ↦ ?_, s', hs'⟩
    rw [hnil] at hd'
    cases hd'
  · rintro ⟨hne, s', hs'⟩
    rw [hs', Except.ok_bind]
    rw [if_neg (mt List.length_eq_zero_iff.1 hne)]
    exact ⟨_, rfl⟩

end Rating

/-- There is an ordinary room besides the special one. -/
def HasOrdinaryRoom (d : Database) : Prop :=
  (d.rooms.find? nullRoom).isSome = true ∧ (d.rooms.find? 1).isSome = true

instance : DecidablePred HasOrdinaryRoom := fun _ ↦ inferInstanceAs (Decidable (_ ∧ _))

theorem HasOrdinaryRoom.has (h : HasOrdinaryRoom d) :
    d.rooms.Has nullRoom ∧ ∃ id, id ≠ nullRoom ∧ d.rooms.Has id :=
  ⟨Option.isSome_iff_exists.1 h.1, 1, by decide, Option.isSome_iff_exists.1 h.2⟩

theorem updateRoomRating_completes_table : ∃ d,
    @Reachable sampleDigest sampleRating hardforkPlaychain11Time d ∧ HasOrdinaryRoom d ∧
      CanRate d ∧ ∀ id ∈ roomsRated d, @RatingFits sampleRating d id := by
  obtain ⟨d, hd, hroom, htime, hok⟩ := @exists_reachable_of_run hardforkPlaychain11Time sampleDigest
    sampleRating 9 sampleClaimed sampleTable
    (fun d ↦ HasOrdinaryRoom d ∧ hardforkPlaychain5Time ≤ d.headBlockTime ∧
      (@updateRoomRating sampleRating d 0).toOption.isSome = true) _ (by decide)
  obtain ⟨hspecial, hordinary⟩ := hroom.has
  refine ⟨d, hd, hroom,
    (@updateRoomRating_completes_iff _ sampleRating htime hspecial hordinary 0).1 ?_⟩
  rcases hrun : @updateRoomRating sampleRating d 0 with e | d'
  · rw [hrun] at hok
    cases hok
  · exact ⟨d', rfl⟩

/-- The computation ends in a division by zero. -/
def dividesByZero : Except ChainError Database → Bool
  | .error .divisionByZero => true
  | _ => false

theorem eq_error_of_dividesByZero {x : Except ChainError Database} (h : dividesByZero x = true) :
    x = .error .divisionByZero := by
  rcases x with e | d
  · cases e <;> first | rfl | cases h
  · cases h

/-- The pass divides by zero when a single room may be rated, and when all rooms are in the middle of
an update of their tables. -/
theorem updateRoomRating_divides_by_zero :
    (∃ d, @Reachable sampleDigest sampleRating hardforkPlaychain11Time d ∧ d.parameters.Valid ∧
      HasOrdinaryRoom d ∧ d.parameters.roomsRatingRecalculationsPerMaintenance = 1 ∧
      @updateRoomRating sampleRating d 0 = .error .divisionByZero) ∧
    ∃ d, @Reachable sampleDigest sampleRating hardforkPlaychain11Time d ∧ d.parameters.Valid ∧
      HasOrdinaryRoom d ∧ d.parameters.roomsRatingRecalculationsPerMaintenance = 1000 ∧
      @updateRoomRating sampleRating d 0 = .error .divisionByZero := by
  constructor
  · obtain ⟨d, hd, hvalid, hroom, hlimit, hzero⟩ := @exists_reachable_of_run
      hardforkPlaychain11Time sampleDigest sampleRating 9 sampleClaimed
      (sampleTable ++ [.elsewhere {
        parameters := { roomsRatingRecalculationsPerMaintenance := 1 }
        accounts := 9
        balances := ∅ }])
      (fun d ↦ d.parameters.Valid ∧ HasOrdinaryRoom d ∧
        d.parameters.roomsRatingRecalculationsPerMaintenance = 1 ∧
        dividesByZero (@updateRoomRating sampleRating d 0) = true) _
      (by decide)
    exact ⟨d, hd, hvalid, hroom, hlimit, eq_error_of_dividesByZero hzero⟩
  · obtain ⟨d, hd, hvalid, hroom, hlimit, hzero⟩ := @exists_reachable_of_run
      hardforkPlaychain11Time sampleDigest sampleRating 9 sampleClaimed (ratedRooms 2 ++ [.tableWeight])
      (fun d ↦ d.parameters.Valid ∧ HasOrdinaryRoom d ∧
        d.parameters.roomsRatingRecalculationsPerMaintenance = 1000 ∧
        dividesByZero (@updateRoomRating sampleRating d 0) = true) _
      (by decide)
    exact ⟨d, hd, hvalid, hroom, hlimit, eq_error_of_dividesByZero hzero⟩

end Playchain
