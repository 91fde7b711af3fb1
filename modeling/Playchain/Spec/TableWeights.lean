import Playchain.Lib.Cursor
import Playchain.Spec.Runs

/-!
# The weights of tables

A table's weight is computed from the rating of its room and from its sign of life (`currentWeight`).
After a change of the rating the weights of a room's tables are brought up to date in batches. The
room remembers the last table of a batch; the next batch starts with that table once more.

The range of a batch is open to the end of the whole index. A batch that is not filled by the room's
own tables goes on with the tables of the rooms after it, and the progress of the room may end at a
table of another room. `weights_finished_iff` says for which numbers of tables this does not happen.
-/

namespace Playchain

variable {d d' d'' : Database} {id : TableId} {t t' : TableObject} {room : RoomId} {r : RoomObject}

/-! ### The weight of a table -/

/-- The weight that `set_weight` gives a table. -/
def currentWeight (d : Database) (id : TableId) (t : TableObject) : ℤ :=
  if hardforkPlaychain2Time ≤ d.headBlockTime then
    let rating := ((d.rooms.find? t.room).map RoomObject.rating).getD 0
    if isTableAlive d id then rating
    else int32Neg (if rating ≤ 0 then int32Min else rating)
  else 0

theorem setWeight_eq (ht : d.tables.find? id = some t) (hr : d.rooms.Has t.room) :
    setWeight d id =
      .ok { d with tables := d.tables.set id { t with weight := currentWeight d id t } } := by
  obtain ⟨r, hr⟩ := hr
  rw [setWeight, tableById_of_find? ht, Except.ok_bind, currentWeight, hr]
  have hroom : d.roomById t.room = .ok r := orUnableToFind_eq_ok.2 hr
  split_ifs with htime halive
  · rw [hroom]
    rfl
  · rw [hroom]
    rfl
  · rfl

/-- The weight of the table is up to date. -/
def HasCurrentWeight (d : Database) (id : TableId) : Prop :=
  ∀ t, d.tables.find? id = some t → t.weight = currentWeight d id t

/-- Every table has a room. -/
def Housed (d : Database) : Prop := ∀ id t, d.tables.find? id = some t → d.rooms.Has t.room

/-- What an update of weights does: some tables get their current weight. -/
structure Weighed (d d' : Database) : Prop where
  headBlockTime : d'.headBlockTime = d.headBlockTime
  parameters : d'.parameters = d.parameters
  tableAlives : d'.tableAlives = d.tableAlives
  ratings : ∀ i, (d'.rooms.find? i).map RoomObject.rating = (d.rooms.find? i).map RoomObject.rating
  rooms : ∀ i, (d'.tables.find? i).map TableObject.room = (d.tables.find? i).map TableObject.room
  weights : ∀ i t t', d.tables.find? i = some t → d'.tables.find? i = some t' →
    t'.weight = t.weight ∨ t'.weight = currentWeight d i t

namespace Weighed

theorem refl (d : Database) : Weighed d d where
  headBlockTime := rfl
  parameters := rfl
  tableAlives := rfl
  ratings _ := rfl
  rooms _ := rfl
  weights _ _ _ ht ht' := .inl (congrArg TableObject.weight (Option.some.inj (ht'.symm.trans ht)))

/-- The weight of a table stays the same function of its room. -/
theorem currentWeight_eq (h : Weighed d d') (hroom : t'.room = t.room) :
    currentWeight d' id t' = currentWeight d id t := by
  rw [currentWeight, currentWeight, h.headBlockTime, hroom, h.ratings, isTableAlive, isTableAlive,
    h.tableAlives]

theorem exists_table (h : Weighed d d') (ht' : d'.tables.find? id = some t') :
    ∃ t, d.tables.find? id = some t ∧ t'.room = t.room := by
  have hroom := h.rooms id
  rw [ht'] at hroom
  obtain ⟨t, ht, heq⟩ := Option.map_eq_some_iff.1 hroom.symm
  exact ⟨t, ht, heq.symm⟩

theorem exists_table' (h : Weighed d d') (ht : d.tables.find? id = some t) :
    ∃ t', d'.tables.find? id = some t' ∧ t'.room = t.room := by
  have hroom := h.rooms id
  rw [ht] at hroom
  exact Option.map_eq_some_iff.1 hroom

theorem has_room (h : Weighed d d') (hr : d.rooms.Has room) : d'.rooms.Has room := by
  obtain ⟨r, hr⟩ := hr
  have hrating := h.ratings room
  rw [hr] at hrating
  obtain ⟨r', hr', -⟩ := Option.map_eq_some_iff.1 hrating
  exact ⟨r', hr'⟩

theorem housed (h : Weighed d d') (hd : Housed d) : Housed d' := by
  intro id t' ht'
  obtain ⟨t, ht, hroom⟩ := h.exists_table ht'
  rw [hroom]
  exact h.has_room (hd id t ht)

/-- A weight that is up to date stays so. -/
theorem hasCurrentWeight (h : Weighed d d') (hd : HasCurrentWeight d id) : HasCurrentWeight d' id := by
  intro t' ht'
  obtain ⟨t, ht, hroom⟩ := h.exists_table ht'
  rw [h.currentWeight_eq hroom]
  rcases h.weights id t t' ht ht' with hw | hw
  · rw [hw, hd t ht]
  · exact hw

theorem trans (h : Weighed d d') (h' : Weighed d' d'') : Weighed d d'' where
  headBlockTime := h'.headBlockTime.trans h.headBlockTime
  parameters := h'.parameters.trans h.parameters
  tableAlives := h'.tableAlives.trans h.tableAlives
  ratings i := (h'.ratings i).trans (h.ratings i)
  rooms i := (h'.rooms i).trans (h.rooms i)
  weights i t t'' ht ht'' := by
    obtain ⟨t', ht', hroom⟩ := h.exists_table' ht
    rcases h'.weights i t' t'' ht' ht'' with hw | hw
    · rw [hw]
      exact h.weights i t t' ht ht'
    · rw [hw, h.currentWeight_eq hroom]
      exact .inr rfl

/-- One table gets its current weight. -/
theorem setWeight (ht : d.tables.find? id = some t) :
    Weighed d { d with tables := d.tables.set id { t with weight := currentWeight d id t } } := by
  refine { refl d with rooms := fun i ↦ ?_, weights := fun i u u' hu hu' ↦ ?_ }
  · by_cases hi : i = id
    · rw [hi, ObjectIndex.find?_set_self ht, ht]
      rfl
    · rw [ObjectIndex.find?_set_of_ne _ _ hi]
  · by_cases hi : i = id
    · subst hi
      obtain rfl := Option.some.inj (hu.symm.trans ht)
      obtain rfl := Option.some.inj (hu'.symm.trans (ObjectIndex.find?_set_self ht _))
      exact .inr rfl
    · rw [ObjectIndex.find?_set_of_ne _ _ hi] at hu'
      exact .inl (congrArg TableObject.weight (Option.some.inj (hu'.symm.trans hu)))

/-- A room that keeps its rating. -/
theorem modifyRoom (d : Database) (id : RoomId) {g : RoomObject → RoomObject}
    (hkey : ∀ r, ((g r).owner, (g r).metadata) = (r.owner, r.metadata))
    (hg : ∀ r, (g r).rating = r.rating) :
    Weighed d { d with rooms := d.rooms.modify id g hkey } :=
  { refl d with ratings := fun i ↦ ObjectIndex.map_find?_modify d.rooms.toObjectIndex id hg i }

end Weighed

/-! ### One batch -/

/-- The last table of a batch that is not special. -/
def lastOfBatch (last : TableId) (ids : List TableId) : TableId :=
  ids.foldl (fun last id ↦ if isSpecialTable id then last else id) last

/-- **One batch.** The tables of the batch get their current weights. The counter tells whether the
batch is full, also when nothing is left. -/
theorem updateWeights_ensures {limit ci : ℕ} {l : List (TableId × TableObject)} {last : TableId}
    (hd : Housed d) (hl : ∀ p ∈ l, d.tables.Has p.1) (hci : ci ≤ limit) :
    (updateWeights limit l ci last d).Ensures (fun _ ↦ False) fun s ↦
      (limit ≤ s.1 ↔ limit - ci ≤ l.length) ∧ s.2.1 = lastOfBatch last ((l.take (limit - ci)).map Prod.fst) ∧
      s.2.2.rooms = d.rooms ∧ Weighed d s.2.2 ∧
      ∀ p ∈ l.take (limit - ci), isSpecialTable p.1 = false → HasCurrentWeight s.2.2 p.1 := by
  induction l generalizing ci last d with
  | nil =>
    refine .pure ⟨?_, ?_, rfl, .refl d, ?_⟩
    · simp only [List.length_nil]
      omega
    · rw [List.take_nil]
      rfl
    · rw [List.take_nil]
      intro p hp
      cases hp
  | cons p l ih =>
    rw [updateWeights]
    refine .ite (fun hlt ↦ ?_) fun hge ↦ .pure ?_
    · have hsub : limit - ci = limit - (ci + 1) + 1 := by omega
      have hcount : limit - (ci + 1) ≤ l.length ↔ limit - ci ≤ (p :: l).length := by
        rw [List.length_cons]
        omega
      rw [hsub, List.take_succ_cons, ← hsub]
      refine .ite (fun hspecial ↦ ?_) fun hspecial ↦ ?_
      · refine (ih hd (fun q hq ↦ hl q (List.mem_cons_of_mem _ hq)) (by omega)).mono ?_
        rintro s ⟨hfull, hlast, hrooms, hw, hcurrent⟩
        refine ⟨hfull.trans hcount, ?_, hrooms, hw, fun q hq hns ↦ ?_⟩
        · rw [hlast, lastOfBatch, lastOfBatch, List.map_cons, List.foldl_cons, if_pos hspecial]
        · rcases List.mem_cons.1 hq with rfl | hq
          · rw [hspecial] at hns
            cases hns
          · exact hcurrent q hq hns
      · obtain ⟨t, ht⟩ := hl p List.mem_cons_self
        refine .bind_of_eq (setWeight_eq ht (hd _ t ht)) ?_
        have hset := Weighed.setWeight (d := d) ht
        refine (ih (hset.housed hd) (fun q hq ↦ ?_) (by omega)).mono ?_
        · obtain ⟨u, hu⟩ := hl q (List.mem_cons_of_mem _ hq)
          obtain ⟨u', hu', -⟩ := hset.exists_table' hu
          exact ⟨u', hu'⟩
        · rintro s ⟨hfull, hlast, hrooms, hw, hcurrent⟩
          refine ⟨hfull.trans hcount, ?_, hrooms, hset.trans hw, fun q hq hns ↦ ?_⟩
          · rw [hlast, lastOfBatch, lastOfBatch, List.map_cons, List.foldl_cons, if_neg hspecial]
          · rcases List.mem_cons.1 hq with rfl | hq
            · refine hw.hasCurrentWeight fun u hu ↦ ?_
              obtain rfl := Option.some.inj (hu.symm.trans (ObjectIndex.find?_set_self ht _))
              exact (hset.currentWeight_eq rfl).symm
            · exact hcurrent q hq hns
    · have hzero : limit - ci = 0 := by omega
      rw [hzero, List.take_zero]
      refine ⟨?_, rfl, rfl, .refl d, ?_⟩
      · simp only [Nat.zero_le, iff_true]
        omega
      · intro q hq
        cases hq

/-! ### One pass -/

/-- The tables by room and id. -/
def tableKeys (d : Database) : List (RoomId ×ₗ TableId) :=
  (tablesByRoom d).map fun p ↦ toLex (p.2.room, p.1)

theorem mem_tableKeys {k : RoomId ×ₗ TableId} :
    k ∈ tableKeys d ↔ ∃ t, d.tables.find? (ofLex k).2 = some t ∧ t.room = (ofLex k).1 := by
  rw [tableKeys, List.mem_map]
  constructor
  · rintro ⟨p, hp, rfl⟩
    exact ⟨p.2, ObjectIndex.mem_orderedBy.1 hp, rfl⟩
  · rintro ⟨t, ht, hroom⟩
    exact ⟨((ofLex k).2, t), ObjectIndex.mem_orderedBy.2 ht, congrArg toLex (Prod.ext hroom rfl)⟩

theorem tableKeys_sorted (d : Database) : (tableKeys d).Pairwise (· < ·) := by
  let le (a b : TableId × TableObject) : Prop :=
    a.2.room < b.2.room ∨ (a.2.room = b.2.room ∧ a.1 ≤ b.1)
  have hsorted : (tablesByRoom d).Pairwise le := d.tables.pairwise_orderedBy TableObject.room
  have hnodup := List.pairwise_map.1 (d.tables.nodup_orderedBy le)
  refine List.pairwise_map.2 ((hsorted.and hnodup).imp ?_)
  rintro a b ⟨hlt | ⟨heq, hle⟩, hne⟩
  · exact Prod.Lex.toLex_lt_toLex.2 (.inl hlt)
  · exact Prod.Lex.toLex_lt_toLex.2 (.inr ⟨heq, lt_of_le_of_ne hle hne⟩)

theorem map_tablesFrom (d : Database) (room : RoomId) (table : TableId) :
    (tablesFrom d room table).map (fun p ↦ toLex (p.2.room, p.1)) =
      fromCursor (tableKeys d) (toLex (room, table)) := by
  rw [fromCursor, tableKeys, List.dropWhile_map, tablesFrom]
  congr 2
  funext p
  exact decide_eq_decide.2
    (Prod.Lex.toLex_lt_toLex (x := (p.2.room, p.1)) (y := (room, table))).symm

theorem Weighed.tableKeys_eq (h : Weighed d d') : tableKeys d' = tableKeys d := by
  refine eq_of_mem_iff (tableKeys_sorted d') (tableKeys_sorted d) fun k ↦ ?_
  rw [mem_tableKeys, mem_tableKeys]
  constructor
  · rintro ⟨t', ht', hroom⟩
    obtain ⟨t, ht, heq⟩ := h.exists_table ht'
    exact ⟨t, ht, heq ▸ hroom⟩
  · rintro ⟨t, ht, hroom⟩
    obtain ⟨t', ht', heq⟩ := h.exists_table' ht
    exact ⟨t', ht', heq.trans hroom⟩

/-- The tables that are left of a room's update. -/
def tablesLeft (d : Database) (room : RoomId) (r : RoomObject) : List (RoomId ×ₗ TableId) :=
  fromCursor (tableKeys d) (toLex (room, r.lastUpdatedTable))

/-- A room after a batch: its progress, or the end of the update. -/
def RoomObject.afterBatch (r : RoomObject) (limit : ℕ) (left : List (RoomId ×ₗ TableId)) :
    RoomObject :=
  if limit ≤ left.length then
    { r with lastUpdatedTable :=
        lastOfBatch r.lastUpdatedTable ((left.take limit).map fun k ↦ (ofLex k).2) }
  else { r with lastUpdatedTable := nullTable, prevRating := r.rating }

theorem updateRoomWeights_ensures (hd : Housed d) (hr : d.rooms.find? room = some r) :
    (updateRoomWeights d room).Ensures (fun _ ↦ False) fun d' ↦
      Weighed d d' ∧ (∀ i, i ≠ room → d'.rooms.find? i = d.rooms.find? i) ∧
      d'.rooms.find? room = some (r.afterBatch d.parameters.tablesWeightRecalculationsPerMaintenance
        (tablesLeft d room r)) ∧
      ∀ k ∈ (tablesLeft d room r).take d.parameters.tablesWeightRecalculationsPerMaintenance,
        isSpecialTable (ofLex k).2 = false → HasCurrentWeight d' (ofLex k).2 := by
  refine .bind_of_eq (orUnableToFind_eq_ok.2 hr) ?_
  generalize hlimit : d.parameters.tablesWeightRecalculationsPerMaintenance = limit
  have hleft : tablesLeft d room r =
      (tablesFrom d room r.lastUpdatedTable).map fun p ↦ toLex (p.2.room, p.1) :=
    (map_tablesFrom d room r.lastUpdatedTable).symm
  have hbatch : (updateWeights limit (tablesFrom d room r.lastUpdatedTable) 0 r.lastUpdatedTable
      d).Ensures (fun _ ↦ False) _ :=
    updateWeights_ensures hd (fun p hp ↦ ⟨p.2, ObjectIndex.mem_orderedBy.1
      ((List.dropWhile_sublist _).subset hp)⟩) (Nat.zero_le limit)
  refine hbatch.bind fun ⟨ci, last, d₁⟩ ⟨hfull, hlast, hrooms, hw, hcurrent⟩ ↦ .pure ?_
  rw [Nat.sub_zero] at hfull hlast hcurrent
  dsimp only at hfull hlast hrooms hw hcurrent ⊢
  have hmodify := Weighed.modifyRoom d₁ room (fun _ ↦ rfl)
    (g := fun r ↦ { r with
      lastUpdatedTable := if limit ≤ ci then last else nullTable
      prevRating := if limit ≤ ci then r.prevRating else r.rating }) fun _ ↦ rfl
  refine ⟨hw.trans hmodify, fun i hi ↦ ?_, ?_, fun k hk hns ↦ ?_⟩
  · rw [UniqueIndex.toObjectIndex_modify, ObjectIndex.find?_modify_of_ne _ _ hi, hrooms]
  · rw [UniqueIndex.toObjectIndex_modify, ObjectIndex.find?_modify, if_pos rfl, hrooms, hr,
      Option.map_some, RoomObject.afterBatch, hleft, List.length_map, hlast]
    congr 1
    by_cases hle : limit ≤ ci
    · rw [if_pos hle, if_pos hle, if_pos (hfull.1 hle), ← List.map_take, List.map_map]
      rfl
    · rw [if_neg hle, if_neg hle, if_neg fun h ↦ hle (hfull.2 h)]
  · rw [hleft, ← List.map_take] at hk
    obtain ⟨p, hp, rfl⟩ := List.mem_map.1 hk
    exact hmodify.hasCurrentWeight (hcurrent p hp hns)

/-- The rooms whose tables are not up to date. -/
def changedRooms (d : Database) : List RoomId :=
  (d.rooms.toList.filter fun r ↦ !r.2.isNotChangedRating).map Prod.fst

theorem mem_changedRooms (hr : d.rooms.find? room = some r) :
    room ∈ changedRooms d ↔ r.rating ≠ r.prevRating := by
  rw [changedRooms, List.mem_map]
  constructor
  · rintro ⟨⟨i, r'⟩, hmem, rfl⟩
    obtain ⟨hmem, hchanged⟩ := List.mem_filter.1 hmem
    obtain rfl := Option.some.inj ((ObjectIndex.find?_eq_some_iff.2 hmem).symm.trans hr)
    simpa [RoomObject.isNotChangedRating] using hchanged
  · intro hne
    refine ⟨(room, r), List.mem_filter.2 ⟨ObjectIndex.find?_eq_some_iff.1 hr, ?_⟩, rfl⟩
    simpa [RoomObject.isNotChangedRating] using hne

/-- **One pass.** Every room with a changed rating has had one batch, and the other rooms are as they
were. -/
theorem updateTableWeight_ensures (hd : Housed d) :
    (updateTableWeight d).Ensures (fun _ ↦ False) fun d' ↦ Weighed d d' ∧
      ∀ room r, d.rooms.find? room = some r →
        (r.rating = r.prevRating → d'.rooms.find? room = some r) ∧
        (r.rating ≠ r.prevRating →
          d'.rooms.find? room = some
            (r.afterBatch d.parameters.tablesWeightRecalculationsPerMaintenance
              (tablesLeft d room r)) ∧
          ∀ k ∈ (tablesLeft d room r).take d.parameters.tablesWeightRecalculationsPerMaintenance,
            isSpecialTable (ofLex k).2 = false → HasCurrentWeight d' (ofLex k).2) := by
  let limit := d.parameters.tablesWeightRecalculationsPerMaintenance
  let I (s : Database) : Prop := Weighed d s ∧
    ∀ i, i ∉ changedRooms d → s.rooms.find? i = d.rooms.find? i
  let P (i : RoomId) (s : Database) : Prop := i ∈ changedRooms d ∧
    ∃ r, d.rooms.find? i = some r ∧ s.rooms.find? i = some r
  let R (i : RoomId) (s : Database) : Prop := ∀ r, d.rooms.find? i = some r →
    s.rooms.find? i = some (r.afterBatch limit (tablesLeft d i r)) ∧
    ∀ k ∈ (tablesLeft d i r).take limit, isSpecialTable (ofLex k).2 = false →
      HasCurrentWeight s (ofLex k).2
  have hnodup : ((changedRooms d).map fun i ↦ i).Nodup := by
    rw [List.map_id', changedRooms]
    exact d.rooms.objects.nodup_fst.sublist (List.filter_sublist.map Prod.fst)
  refine (Except.Ensures.foldlM_each_done (fun i ↦ i) I P R ?_ hnodup ?_ ?_).mono ?_
  · rintro i s ⟨hw, hkept⟩ ⟨hmem, r, hr, hrs⟩
    refine (updateRoomWeights_ensures (hw.housed hd) hrs).mono ?_
    rintro s' ⟨hw', hothers, hroom, hcurrent⟩
    rw [tablesLeft, hw.tableKeys_eq, ← tablesLeft, hw.parameters] at hroom hcurrent
    refine ⟨⟨⟨hw.trans hw', fun j hj ↦ ?_⟩, fun r' hr' ↦ ?_⟩, fun j hj ↦ ⟨?_, fun hR r' hr' ↦ ?_⟩⟩
    · rw [hothers j fun hji ↦ hj (hji ▸ hmem)]
      exact hkept j hj
    · obtain rfl := Option.some.inj (hr.symm.trans hr')
      exact ⟨hroom, hcurrent⟩
    · rintro ⟨hjmem, r', hr', hrs'⟩
      exact ⟨hjmem, r', hr', (hothers j hj).trans hrs'⟩
    · obtain ⟨hroom', hcurrent'⟩ := hR r' hr'
      exact ⟨(hothers j hj).trans hroom', fun k hk hns ↦ hw'.hasCurrentWeight (hcurrent' k hk hns)⟩
  · intro i hi
    obtain ⟨⟨j, r⟩, hmem, rfl⟩ := List.mem_map.1 hi
    have hr := ObjectIndex.find?_eq_some_iff.2 (List.mem_filter.1 hmem).1
    exact ⟨hi, r, hr, hr⟩
  · exact ⟨.refl d, fun _ _ ↦ rfl⟩
  · rintro d' ⟨⟨hw, hkept⟩, hdone⟩
    refine ⟨hw, fun room r hr ↦ ⟨fun heq ↦ ?_, fun hne ↦ ?_⟩⟩
    · rw [hkept room fun hmem ↦ (mem_changedRooms hr).1 hmem heq, hr]
    · exact hdone room ((mem_changedRooms hr).2 hne) r hr

/-! ### Counting the tables -/

/-- The number of tables of a room from an id on. -/
def tablesOf (d : Database) (room : RoomId) (first : TableId) : ℕ :=
  d.tables.toList.countP fun p ↦ p.2.room = room ∧ first ≤ p.1

/-- The number of tables in the rooms after a room. -/
def tablesAfter (d : Database) (room : RoomId) : ℕ :=
  d.tables.toList.countP fun p ↦ room < p.2.room

theorem countP_tableKeys (d : Database) (q : RoomId ×ₗ TableId → Bool) :
    (tableKeys d).countP q = d.tables.toList.countP fun p ↦ q (toLex (p.2.room, p.1)) := by
  rw [tableKeys, List.countP_map]
  exact (List.perm_insertionSort _ _).countP_eq _

theorem countP_tablesLeft (d : Database) (room : RoomId) (r : RoomObject) :
    (tablesLeft d room r).countP (fun k ↦ (ofLex k).1 = room) =
      tablesOf d room r.lastUpdatedTable := by
  rw [tablesLeft, fromCursor_eq_filter (tableKeys_sorted d), List.countP_filter, countP_tableKeys,
    tablesOf]
  congr 1
  funext p
  rw [← Bool.decide_and, decide_eq_decide, Prod.Lex.toLex_le_toLex]
  constructor
  · rintro ⟨hroom, hlt | ⟨-, hle⟩⟩
    · exact absurd hlt (hroom ▸ lt_irrefl _)
    · exact ⟨hroom, hle⟩
  · exact fun ⟨hroom, hle⟩ ↦ ⟨hroom, .inr ⟨hroom.symm, hle⟩⟩

theorem length_tablesLeft (d : Database) (room : RoomId) (r : RoomObject) :
    (tablesLeft d room r).length = tablesOf d room r.lastUpdatedTable + tablesAfter d room := by
  rw [List.length_eq_countP_add_countP (p := fun k ↦ decide ((ofLex k).1 = room)),
    countP_tablesLeft]
  congr 1
  rw [tablesLeft, fromCursor_eq_filter (tableKeys_sorted d), List.countP_filter, countP_tableKeys,
    tablesAfter]
  congr 1
  funext p
  have hiff : (¬decide (p.2.room = room) = true ∧ toLex (room, r.lastUpdatedTable) ≤
      toLex (p.2.room, p.1)) ↔ room < p.2.room := by
    rw [Prod.Lex.toLex_le_toLex, decide_eq_true_iff]
    constructor
    · rintro ⟨hne, hlt | ⟨heq, -⟩⟩
      · exact hlt
      · exact absurd heq.symm hne
    · exact fun hlt ↦ ⟨hlt.ne', .inl hlt⟩
  rw [← Bool.decide_and]
  exact decide_eq_decide.2 hiff

theorem tablesLeft_sorted (d : Database) (room : RoomId) (r : RoomObject) :
    (tablesLeft d room r).Pairwise (· < ·) :=
  (tableKeys_sorted d).sublist (fromCursor_sublist _ _)

theorem mem_tablesLeft {k : RoomId ×ₗ TableId} : k ∈ tablesLeft d room r ↔
    (∃ t, d.tables.find? (ofLex k).2 = some t ∧ t.room = (ofLex k).1) ∧
      toLex (room, r.lastUpdatedTable) ≤ k := by
  rw [tablesLeft, mem_fromCursor (tableKeys_sorted d), mem_tableKeys]

theorem fst_le_of_le {a b : RoomId ×ₗ TableId} (h : a ≤ b) : (ofLex a).1 ≤ (ofLex b).1 :=
  (Prod.Lex.le_iff.1 h).elim le_of_lt fun h ↦ h.1.le

theorem Weighed.tablesOf_eq (h : Weighed d d') (room : RoomId) (first : TableId) :
    tablesOf d' room first = tablesOf d room first := by
  have hkeys (e : Database) : tablesOf e room first =
      (tableKeys e).countP fun k ↦ (ofLex k).1 = room ∧ first ≤ (ofLex k).2 := by
    rw [countP_tableKeys]
    rfl
  rw [hkeys, hkeys, h.tableKeys_eq]

theorem Weighed.tablesAfter_eq (h : Weighed d d') (room : RoomId) :
    tablesAfter d' room = tablesAfter d room := by
  have hkeys (e : Database) : tablesAfter e room =
      (tableKeys e).countP fun k ↦ room < (ofLex k).1 := by
    rw [countP_tableKeys]
    rfl
  rw [hkeys, hkeys, h.tableKeys_eq]

/-- The own tables come first. -/
theorem tablesLeft_own_iff {j : ℕ} (hj : j < (tablesLeft d room r).length) :
    (ofLex (tablesLeft d room r)[j]).1 = room ↔ j < tablesOf d room r.lastUpdatedTable := by
  have hle : ∀ k ∈ tablesLeft d room r, ((ofLex k).1 = room ↔ (ofLex k).1 ≤ room) := fun k hk ↦
    (fst_le_of_le (mem_tablesLeft.1 hk).2).ge_iff_eq'.symm
  have hcount : (tablesLeft d room r).countP (fun k ↦ (ofLex k).1 ≤ room) =
      tablesOf d room r.lastUpdatedTable := by
    rw [← countP_tablesLeft]
    refine List.countP_congr fun k hk ↦ ?_
    rw [decide_eq_true_iff, decide_eq_true_iff, hle k hk]
  have hinitial := getElem_iff_of_initial (p := fun k ↦ decide ((ofLex k).1 ≤ room))
    (tablesLeft_sorted d room r) (fun a b hab hb ↦
      decide_eq_true ((fst_le_of_le hab.le).trans (of_decide_eq_true hb))) hj
  rw [hle _ (List.getElem_mem hj), ← hcount, ← hinitial, decide_eq_true_iff]

/-! ### Passes -/

/-- Several passes, one after the other. -/
def weightPasses : ℕ → Database → Except ChainError Database
  | 0, d => return d
  | n + 1, d => do weightPasses n (← updateTableWeight d)

/-- The progress of a room goes on over its own tables, or ends. -/
def AdvancesOwn (d d' : Database) (room : RoomId) : Prop :=
  ∀ r r', d.rooms.find? room = some r → d'.rooms.find? room = some r' → r.rating ≠ r.prevRating →
    r'.lastUpdatedTable = nullTable ∨ (r.lastUpdatedTable ≤ r'.lastUpdatedTable ∧
      ∃ t, d.tables.find? r'.lastUpdatedTable = some t ∧ t.room = room)

/-- The update of a room has come to its end. -/
def WeightsFinished (d : Database) (room : RoomId) : Prop :=
  ∃ r, d.rooms.find? room = some r ∧ r.lastUpdatedTable = nullTable ∧ r.prevRating = r.rating ∧
    ∀ id t, d.tables.find? id = some t → t.room = room → id ≠ nullTable →
      t.weight = currentWeight d id t

/-- An update of a room's weights is going on: the tables before the progress are up to date. -/
structure Updating (d : Database) (room : RoomId) (r : RoomObject) : Prop where
  housed : Housed d
  special : ∀ t, d.tables.find? nullTable = some t → t.room = nullRoom
  found : d.rooms.find? room = some r
  changed : r.rating ≠ r.prevRating
  passed : ∀ id t, d.tables.find? id = some t → t.room = room → id ≠ nullTable →
    id < r.lastUpdatedTable → t.weight = currentWeight d id t

theorem weightPasses_finished {n : ℕ} (hd : Housed d) (h : WeightsFinished d room) :
    (weightPasses n d).Ensures (fun _ ↦ False) fun d' ↦ Housed d' ∧ WeightsFinished d' room := by
  induction n generalizing d with
  | zero => exact .pure ⟨hd, h⟩
  | succ n ih =>
    refine (updateTableWeight_ensures hd).bind fun d' ⟨hw, hrooms⟩ ↦ ih (hw.housed hd) ?_
    obtain ⟨r, hr, hlast, hprev, hweights⟩ := h
    refine ⟨r, (hrooms room r hr).1 hprev.symm, hlast, hprev, fun id t' ht' hroom hid ↦ ?_⟩
    obtain ⟨t, ht, heq⟩ := hw.exists_table ht'
    refine hw.hasCurrentWeight (fun u hu ↦ ?_) t' ht'
    obtain rfl := Option.some.inj (ht.symm.trans hu)
    exact hweights id t ht (heq ▸ hroom) hid

theorem WeightsFinished.advancesOwn (h : WeightsFinished d room) : AdvancesOwn d d' room := by
  obtain ⟨r₀, hr₀, -, hprev, -⟩ := h
  intro r r' hr _ hne
  obtain rfl := Option.some.inj (hr₀.symm.trans hr)
  exact absurd hprev.symm hne

theorem lastOfBatch_take {l : List TableId} {limit : ℕ} (last : TableId) (hpos : 0 < limit)
    (hlen : limit ≤ l.length) (hns : isSpecialTable l[limit - 1] = false) :
    lastOfBatch last (l.take limit) = l[limit - 1] := by
  have htake : l.take limit = l.take (limit - 1) ++ [l[limit - 1]] := by
    rw [List.take_append_getElem, Nat.sub_add_cancel hpos]
  rw [htake, lastOfBatch, List.foldl_append, List.foldl_cons, List.foldl_nil, if_neg]
  rw [hns]
  decide

namespace Updating

variable {limit : ℕ}

/-- The last table of a full batch is not special: the special table comes first of all. -/
theorem not_special (h : Updating d room r) (hlimit : 2 ≤ limit)
    (hlen : limit - 1 < (tablesLeft d room r).length) :
    isSpecialTable (ofLex (tablesLeft d room r)[limit - 1]).2 = false := by
  refine decide_eq_false fun hnull ↦ ?_
  obtain ⟨⟨t, ht, hroom⟩, -⟩ := mem_tablesLeft.1 (List.getElem_mem hlen)
  have hfirst := List.pairwise_iff_getElem.1 (tablesLeft_sorted d room r) 0 (limit - 1) (by omega) hlen
    (by omega)
  rw [hnull] at ht
  rw [h.special t ht] at hroom
  rcases Prod.Lex.lt_iff.1 hfirst with hlt | ⟨-, hlt⟩
  · rw [← hroom] at hlt
    exact absurd hlt (Nat.not_lt_zero _)
  · rw [hnull] at hlt
    exact absurd hlt (Nat.not_lt_zero _)

/-- The progress after a full batch. -/
theorem afterBatch_eq (h : Updating d room r) (hlimit : 2 ≤ limit)
    (hlen : limit ≤ (tablesLeft d room r).length) :
    r.afterBatch limit (tablesLeft d room r) =
      { r with lastUpdatedTable := (ofLex (tablesLeft d room r)[limit - 1]).2 } := by
  have hns := h.not_special hlimit (by omega)
  rw [RoomObject.afterBatch, if_pos hlen, List.map_take, lastOfBatch_take _ (by omega)]
  · rw [List.getElem_map]
  · rwa [List.length_map]
  · rwa [List.getElem_map]

/-- **A pass over a room in the middle of its update.** -/
theorem pass (h : Updating d room r)
    (hlimit : d.parameters.tablesWeightRecalculationsPerMaintenance = limit) :
    (updateTableWeight d).Ensures (fun _ ↦ False) fun d' ↦ Weighed d d' ∧
      d'.rooms.find? room = some (r.afterBatch limit (tablesLeft d room r)) ∧
      ∀ id t', d'.tables.find? id = some t' → t'.room = room → id ≠ nullTable →
        id < r.lastUpdatedTable ∨ toLex (room, id) ∈ (tablesLeft d room r).take limit →
        t'.weight = currentWeight d' id t' := by
  refine (updateTableWeight_ensures h.housed).mono fun d' ⟨hw, hrooms⟩ ↦ ?_
  obtain ⟨hroom, hcurrent⟩ := (hrooms room r h.found).2 h.changed
  rw [hlimit] at hroom hcurrent
  refine ⟨hw, hroom, fun id t' ht' hown hid hwhere ↦ ?_⟩
  rcases hwhere with hlt | hmem
  · obtain ⟨t, ht, heq⟩ := hw.exists_table ht'
    refine hw.hasCurrentWeight (fun u hu ↦ ?_) t' ht'
    obtain rfl := Option.some.inj (ht.symm.trans hu)
    exact h.passed id t ht (heq ▸ hown) hid hlt
  · exact hcurrent _ hmem (decide_eq_false hid) t' ht'

/-- A batch of own tables: the room's progress is the last of them. -/
theorem pass_full (h : Updating d room r) (hlimit : 2 ≤ limit)
    (hparam : d.parameters.tablesWeightRecalculationsPerMaintenance = limit)
    (hfull : limit ≤ tablesOf d room r.lastUpdatedTable) :
    (updateTableWeight d).Ensures (fun _ ↦ False) fun d' ↦ Weighed d d' ∧ AdvancesOwn d d' room ∧
      ∃ r', Updating d' room r' ∧
        tablesOf d' room r'.lastUpdatedTable =
          tablesOf d room r.lastUpdatedTable - (limit - 1) := by
  refine (h.pass hparam).mono fun d' ⟨hw, hroom, hweights⟩ ↦ ⟨hw, ?_⟩
  have hlen : limit ≤ (tablesLeft d room r).length := by
    rw [length_tablesLeft]
    omega
  have hlt : limit - 1 < (tablesLeft d room r).length := by omega
  rw [h.afterBatch_eq hlimit hlen] at hroom
  obtain ⟨⟨t, ht, htroom⟩, hcursor⟩ := mem_tablesLeft.1 (List.getElem_mem hlt)
  have hown : (ofLex (tablesLeft d room r)[limit - 1]).1 = room := (tablesLeft_own_iff hlt).2 (by omega)
  have hkey : toLex (room, (ofLex (tablesLeft d room r)[limit - 1]).2) =
      (tablesLeft d room r)[limit - 1] := congrArg toLex (Prod.ext hown.symm rfl)
  have hle : r.lastUpdatedTable ≤ (ofLex (tablesLeft d room r)[limit - 1]).2 := by
    rw [← hkey] at hcursor
    exact (Prod.Lex.toLex_le_toLex.1 hcursor).elim (fun hlt ↦ absurd hlt (lt_irrefl _)) And.right
  refine ⟨fun r₀ r' hr₀ hr' _ ↦ ?_, _, ⟨hw.housed h.housed, fun u' hu' ↦ ?_, hroom, h.changed,
    fun id t' ht' htown hid hbefore ↦ hweights id t' ht' htown hid ?_⟩, ?_⟩
  · obtain rfl := Option.some.inj (h.found.symm.trans hr₀)
    obtain rfl := Option.some.inj (hroom.symm.trans hr')
    exact .inr ⟨hle, t, ht, htroom.trans hown⟩
  · obtain ⟨u, hu, heq⟩ := hw.exists_table hu'
    exact heq.trans (h.special u hu)
  · rcases Nat.lt_or_ge id r.lastUpdatedTable with hid' | hid'
    · exact .inl hid'
    · obtain ⟨u, hu, heq⟩ := hw.exists_table ht'
      refine .inr (mem_take_of_lt_getElem (tablesLeft_sorted d room r) hlt (by omega)
        (mem_tablesLeft.2 ⟨⟨u, hu, heq ▸ htown⟩, ?_⟩) ?_)
      · exact Prod.Lex.toLex_le_toLex.2 (.inr ⟨rfl, hid'⟩)
      · rw [← hkey]
        exact Prod.Lex.toLex_lt_toLex.2 (.inr ⟨rfl, hbefore⟩)
  · have hrest := fromCursor_getElem (tableKeys_sorted d) hlt
    have hlength := length_tablesLeft d room
      { r with lastUpdatedTable := (ofLex (tablesLeft d room r)[limit - 1]).2 }
    rw [tablesLeft] at hlength
    dsimp only at hlength ⊢
    rw [hkey] at hlength
    rw [hw.tablesOf_eq]
    have hlength' : (fromCursor (tableKeys d) (tablesLeft d room r)[limit - 1]).length = _ :=
      (congrArg List.length hrest).trans List.length_drop
    have := length_tablesLeft d room r
    rw [hlength] at hlength'
    rw [← tablesLeft] at hlength'
    omega

/-- The last batch. -/
theorem pass_last (h : Updating d room r)
    (hparam : d.parameters.tablesWeightRecalculationsPerMaintenance = limit)
    (hlast : tablesOf d room r.lastUpdatedTable + tablesAfter d room < limit) :
    (updateTableWeight d).Ensures (fun _ ↦ False) fun d' ↦ Weighed d d' ∧ AdvancesOwn d d' room ∧
      WeightsFinished d' room := by
  refine (h.pass hparam).mono fun d' ⟨hw, hroom, hweights⟩ ↦ ⟨hw, ?_⟩
  rw [← length_tablesLeft] at hlast
  rw [RoomObject.afterBatch, if_neg (by omega)] at hroom
  refine ⟨fun r₀ r' _ hr' _ ↦ ?_, _, hroom, rfl, rfl, fun id t' ht' htown hid ↦
    hweights id t' ht' htown hid ?_⟩
  · obtain rfl := Option.some.inj (hroom.symm.trans hr')
    exact .inl rfl
  · rcases Nat.lt_or_ge id r.lastUpdatedTable with hid' | hid'
    · exact .inl hid'
    · obtain ⟨u, hu, heq⟩ := hw.exists_table ht'
      rw [List.take_of_length_le hlast.le]
      exact .inr (mem_tablesLeft.2 ⟨⟨u, hu, heq ▸ htown⟩,
        Prod.Lex.toLex_le_toLex.2 (.inr ⟨rfl, hid'⟩)⟩)

/-- A batch that ends at a table of another room. -/
theorem pass_foreign (h : Updating d room r) (hlimit : 2 ≤ limit)
    (hparam : d.parameters.tablesWeightRecalculationsPerMaintenance = limit)
    (hown : tablesOf d room r.lastUpdatedTable < limit)
    (hmore : limit ≤ tablesOf d room r.lastUpdatedTable + tablesAfter d room) :
    (updateTableWeight d).Ensures (fun _ ↦ False) fun d' ↦ ¬AdvancesOwn d d' room := by
  refine (h.pass hparam).mono fun d' ⟨hw, hroom, hweights⟩ hadvances ↦ ?_
  rw [← length_tablesLeft] at hmore
  have hlt : limit - 1 < (tablesLeft d room r).length := by omega
  rw [h.afterBatch_eq hlimit hmore] at hroom
  obtain ⟨⟨t, ht, htroom⟩, -⟩ := mem_tablesLeft.1 (List.getElem_mem hlt)
  rcases hadvances r _ h.found hroom h.changed with hnull | ⟨-, u, hu, huroom⟩
  · have hns := h.not_special hlimit hlt
    rw [isSpecialTable, decide_eq_false_iff_not] at hns
    exact hns hnull
  · obtain rfl := Option.some.inj (ht.symm.trans hu)
    have := (tablesLeft_own_iff hlt).1 (htroom.symm.trans huroom)
    omega

end Updating

/-! ### The end of an update -/

/-- The batches of a room end within its own tables: the last of them has a place left after the
tables of the room and of all rooms after it. -/
def BatchesFit (limit own after : ℕ) : Prop :=
  if own = 0 then after < limit else (own - 1) % (limit - 1) + after < limit - 1

instance (limit own after : ℕ) : Decidable (BatchesFit limit own after) :=
  inferInstanceAs (Decidable (if own = 0 then after < limit else _))

theorem batchesFit_of_lt {limit own after : ℕ} (h : own < limit) :
    BatchesFit limit own after ↔ own + after < limit := by
  rw [BatchesFit]
  split_ifs with hzero
  · rw [hzero, Nat.zero_add]
  · rw [Nat.mod_eq_of_lt (by omega)]
    omega

theorem batchesFit_sub {limit own after : ℕ} (hlimit : 2 ≤ limit) (h : limit ≤ own) :
    BatchesFit limit (own - (limit - 1)) after ↔ BatchesFit limit own after := by
  have hmod : (own - 1) % (limit - 1) = (own - (limit - 1) - 1) % (limit - 1) := by
    rw [Nat.mod_eq_sub_mod (by omega)]
    congr 1
    omega
  rw [BatchesFit, BatchesFit, if_neg (by omega), if_neg (by omega), hmod]

/-- The update of a room advances over its own tables only, and it has come to its end after at most
one pass more than its tables fill batches. -/
def FinishesInTime (d : Database) (room : RoomId) : Prop :=
  (∀ n d₁ d₂, weightPasses n d = .ok d₁ → updateTableWeight d₁ = .ok d₂ → AdvancesOwn d₁ d₂ room) ∧
  ∀ n, (tablesOf d room nullTable + (d.parameters.tablesWeightRecalculationsPerMaintenance - 2)) /
      (d.parameters.tablesWeightRecalculationsPerMaintenance - 1) + 1 ≤ n →
    ∃ d', weightPasses n d = .ok d' ∧ WeightsFinished d' room

namespace Updating

variable {limit : ℕ}

theorem finishes (h : Updating d room r) (hlimit : 2 ≤ limit)
    (hparam : d.parameters.tablesWeightRecalculationsPerMaintenance = limit)
    (hfit : BatchesFit limit (tablesOf d room r.lastUpdatedTable) (tablesAfter d room)) :
    (∀ n d₁ d₂, weightPasses n d = .ok d₁ → updateTableWeight d₁ = .ok d₂ →
      AdvancesOwn d₁ d₂ room) ∧
    ∀ n, (tablesOf d room r.lastUpdatedTable - 1) / (limit - 1) + 1 ≤ n →
      ∃ d', weightPasses n d = .ok d' ∧ WeightsFinished d' room := by
  -- the own tables that are left get fewer in every batch
  induction hown : tablesOf d room r.lastUpdatedTable using Nat.strong_induction_on generalizing d r with
  | _ own ih =>
    rw [hown] at hfit
    by_cases hfull : limit ≤ own
    · obtain ⟨d', hd', hw, hadvances, r', h', hown'⟩ :=
        (h.pass_full hlimit hparam (hown ▸ hfull)).exists_ok
      rw [hown] at hown'
      have hdiv : (own - 1) / (limit - 1) = (own - (limit - 1) - 1) / (limit - 1) + 1 := by
        rw [Nat.div_eq_sub_div (by omega) (by omega)]
        congr 2
        omega
      have hfit' : BatchesFit limit (tablesOf d' room r'.lastUpdatedTable) (tablesAfter d' room) := by
        rwa [hown', hw.tablesAfter_eq, batchesFit_sub hlimit hfull]
      obtain ⟨hadvances', hfinishes⟩ := ih _ (by omega) h' (hw.parameters ▸ hparam) hfit' hown'
      constructor
      · intro n d₁ d₂ hpasses hnext
        cases n with
        | zero =>
          obtain rfl := Except.pure_eq_ok.1 hpasses
          obtain rfl := Except.ok.inj (hd'.symm.trans hnext)
          exact hadvances
        | succ n =>
          rw [weightPasses, hd', Except.ok_bind] at hpasses
          exact hadvances' n d₁ d₂ hpasses hnext
      · intro n hn
        obtain ⟨n, rfl⟩ := Nat.exists_eq_add_of_le' ((Nat.le_add_left 1 _).trans hn)
        rw [weightPasses, hd', Except.ok_bind]
        rw [hdiv] at hn
        exact hfinishes n (Nat.le_of_succ_le_succ hn)
    · have hlast : tablesOf d room r.lastUpdatedTable + tablesAfter d room < limit := by
        rw [hown]
        exact (batchesFit_of_lt (by omega)).1 hfit
      obtain ⟨d', hd', hw, hadvances, hfinished⟩ := (h.pass_last hparam hlast).exists_ok
      have hdone (n : ℕ) := (weightPasses_finished (n := n) (hw.housed h.housed) hfinished).exists_ok
      constructor
      · intro n d₁ d₂ hpasses hnext
        cases n with
        | zero =>
          obtain rfl := Except.pure_eq_ok.1 hpasses
          obtain rfl := Except.ok.inj (hd'.symm.trans hnext)
          exact hadvances
        | succ n =>
          rw [weightPasses, hd', Except.ok_bind] at hpasses
          obtain ⟨e, he, -, hfinished'⟩ := hdone n
          obtain rfl := Except.ok.inj (he.symm.trans hpasses)
          exact hfinished'.advancesOwn
      · intro n hn
        obtain ⟨n, rfl⟩ := Nat.exists_eq_add_of_le' ((Nat.le_add_left 1 _).trans hn)
        rw [weightPasses, hd', Except.ok_bind]
        obtain ⟨e, he, -, hfinished'⟩ := hdone n
        exact ⟨e, he, hfinished'⟩

/-- Otherwise some pass leaves the tables of the room. -/
theorem exists_foreign (h : Updating d room r) (hlimit : 2 ≤ limit)
    (hparam : d.parameters.tablesWeightRecalculationsPerMaintenance = limit)
    (hfit : ¬BatchesFit limit (tablesOf d room r.lastUpdatedTable) (tablesAfter d room)) :
    ∃ n d₁ d₂, weightPasses n d = .ok d₁ ∧ updateTableWeight d₁ = .ok d₂ ∧
      ¬AdvancesOwn d₁ d₂ room := by
  induction hown : tablesOf d room r.lastUpdatedTable using Nat.strong_induction_on generalizing d r with
  | _ own ih =>
    rw [hown] at hfit
    by_cases hfull : limit ≤ own
    · obtain ⟨d', hd', hw, -, r', h', hown'⟩ :=
        (h.pass_full hlimit hparam (hown ▸ hfull)).exists_ok
      rw [hown] at hown'
      have hfit' : ¬BatchesFit limit (tablesOf d' room r'.lastUpdatedTable)
          (tablesAfter d' room) := by
        rwa [hown', hw.tablesAfter_eq, batchesFit_sub hlimit hfull]
      obtain ⟨n, d₁, d₂, hpasses, hnext, hforeign⟩ :=
        ih _ (by omega) h' (hw.parameters ▸ hparam) hfit' hown'
      refine ⟨n + 1, d₁, d₂, ?_, hnext, hforeign⟩
      rw [weightPasses, hd', Except.ok_bind]
      exact hpasses
    · have hmore : limit ≤ tablesOf d room r.lastUpdatedTable + tablesAfter d room := by
        rw [hown]
        exact not_lt.1 fun hlt ↦ hfit ((batchesFit_of_lt (by omega)).2 hlt)
      obtain ⟨d', hd', hforeign⟩ := (h.pass_foreign hlimit hparam (by omega) hmore).exists_ok
      exact ⟨0, d, d', rfl, hd', hforeign⟩

end Updating

/-- The weights of a room are in step with its progress: the tables that its update has passed are up
to date. Of a room whose rating has not changed these are all tables. -/
structure WeightsInStep (d : Database) (room : RoomId) (r : RoomObject) : Prop where
  housed : Housed d
  special : ∀ t, d.tables.find? nullTable = some t → t.room = nullRoom
  idle : r.rating = r.prevRating → r.lastUpdatedTable = nullTable
  passed : ∀ id t, d.tables.find? id = some t → t.room = room → id ≠ nullTable →
    r.rating = r.prevRating ∨ id < r.lastUpdatedTable → t.weight = currentWeight d id t

/-- **The update of a room's weights finishes** in time, and over its own tables only, if and only if
the rating has not changed or the batches of the room end within its own tables. -/
theorem weights_finished_iff (h : WeightsInStep d room r) (hr : d.rooms.find? room = some r)
    (hlimit : 2 ≤ d.parameters.tablesWeightRecalculationsPerMaintenance) :
    FinishesInTime d room ↔ r.rating = r.prevRating ∨
      BatchesFit d.parameters.tablesWeightRecalculationsPerMaintenance
        (tablesOf d room r.lastUpdatedTable) (tablesAfter d room) := by
  by_cases hrating : r.rating = r.prevRating
  · have hfinished : WeightsFinished d room :=
      ⟨r, hr, h.idle hrating, hrating.symm, fun id t ht hroom hid ↦
        h.passed id t ht hroom hid (.inl hrating)⟩
    refine iff_of_true ⟨fun n d₁ d₂ hpasses _ ↦ ?_, fun n _ ↦ ?_⟩ (.inl hrating)
    · exact ((weightPasses_finished h.housed hfinished).of_ok hpasses).2.advancesOwn
    · obtain ⟨d', hd', -, hfinished'⟩ :=
        (weightPasses_finished (n := n) h.housed hfinished).exists_ok
      exact ⟨d', hd', hfinished'⟩
  · have hupdating : Updating d room r := ⟨h.housed, h.special, hr, hrating,
      fun id t ht hroom hid hlt ↦ h.passed id t ht hroom hid (.inr hlt)⟩
    rw [or_iff_right hrating]
    constructor
    · rintro ⟨hadvances, -⟩
      by_contra hfit
      obtain ⟨n, d₁, d₂, hpasses, hnext, hforeign⟩ := hupdating.exists_foreign hlimit rfl hfit
      exact hforeign (hadvances n d₁ d₂ hpasses hnext)
    · intro hfit
      obtain ⟨hadvances, hfinishes⟩ := hupdating.finishes hlimit rfl hfit
      refine ⟨hadvances, fun n hn ↦ hfinishes n (le_trans (Nat.succ_le_succ ?_) hn)⟩
      have hle : tablesOf d room r.lastUpdatedTable ≤ tablesOf d room nullTable :=
        List.countP_mono_left fun p _ hp ↦ by
          rw [decide_eq_true_iff] at hp ⊢
          exact ⟨hp.1, Nat.zero_le _⟩
      exact Nat.div_le_div_right (by omega)

instance (d : Database) (room : RoomId) (r : RoomObject) : Decidable (WeightsInStep d room r) :=
  decidable_of_iff
    ((∀ p ∈ d.tables.toList, (d.rooms.find? p.2.room).isSome = true) ∧
      (∀ p ∈ d.tables.toList, p.1 = nullTable → p.2.room = nullRoom) ∧
      (r.rating = r.prevRating → r.lastUpdatedTable = nullTable) ∧
      ∀ p ∈ d.tables.toList, p.2.room = room → p.1 ≠ nullTable →
        r.rating = r.prevRating ∨ p.1 < r.lastUpdatedTable → p.2.weight = currentWeight d p.1 p.2)
    ⟨fun ⟨hhoused, hspecial, hidle, hpassed⟩ ↦
      ⟨fun id t ht ↦ Option.isSome_iff_exists.1 (hhoused (id, t) (ObjectIndex.find?_eq_some_iff.1 ht)),
        fun t ht ↦ hspecial (nullTable, t) (ObjectIndex.find?_eq_some_iff.1 ht) rfl, hidle,
        fun id t ht ↦ hpassed (id, t) (ObjectIndex.find?_eq_some_iff.1 ht)⟩,
    fun h ↦
      ⟨fun p hp ↦ Option.isSome_iff_exists.2 (h.housed p.1 p.2 (ObjectIndex.find?_eq_some_iff.2 hp)),
        fun p hp hid ↦ h.special p.2 (hid ▸ ObjectIndex.find?_eq_some_iff.2 hp), h.idle,
        fun p hp ↦ h.passed p.1 p.2 (ObjectIndex.find?_eq_some_iff.2 hp)⟩⟩

/-- Two rooms, the first with one table and the second with two. A reservation at the first table is
resolved, and a minute later both rooms are rated. -/
def ratedRooms (limit : ℕ) : List Event :=
  [.operation (.roomCreate ⟨6, "url", "room", "1.0.0"⟩),
    .operation (.roomCreate ⟨6, "url", "other", "1.0.0"⟩),
    .operation (.tableCreate ⟨6, 1, "table", 0, { amount := 1 }⟩),
    .operation (.tableCreate ⟨6, 2, "else", 0, { amount := 1 }⟩),
    .operation (.tableCreate ⟨6, 2, "else", 0, { amount := 1 }⟩),
    .operation (.tablesAlive ⟨6, (∅ : FlatMap TableId Unit).insert 1 ()⟩),
    .elsewhere {
      parameters := { tablesWeightRecalculationsPerMaintenance := limit }
      accounts := 9
      balances := (∅ : FlatMap (AccountId ×ₗ AssetId) ℤ).insert (toLex (7, coreAsset)) 100 },
    .operation (.buyInReserve { player := 7, uid := "1", amount := { amount := 10 },
                                metadata := "table", protocolVersion := "1.0.0" }),
    .headBlock (hardforkPlaychain11Time + 3), .blockTasks false,
    .operation (.buyInReservingResolve { table := 1, tableOwner := 6, pendingBuyin := 1 }),
    .headBlock (hardforkPlaychain11Time + 66), .roomRating 0]

theorem weights_finished_rated : ∃ d r,
    @Reachable sampleDigest sampleRating hardforkPlaychain11Time d ∧ d.rooms.find? 1 = some r ∧
      r.rating ≠ r.prevRating ∧ FinishesInTime d 1 := by
  obtain ⟨d, hd, hcheck⟩ := @exists_reachable_of_run hardforkPlaychain11Time sampleDigest sampleRating 9
    sampleClaimed (ratedRooms 4)
    (fun d ↦ d.parameters.tablesWeightRecalculationsPerMaintenance = 4 ∧
      (d.rooms.find? 1).any (fun r ↦ WeightsInStep d 1 r ∧ r.rating ≠ r.prevRating ∧
        BatchesFit 4 (tablesOf d 1 r.lastUpdatedTable) (tablesAfter d 1)) = true) _
    (by decide)
  obtain ⟨hlimit, hroom⟩ := hcheck
  obtain ⟨r, hr, hcheck⟩ := (Option.any_eq_true _ _).1 hroom
  obtain ⟨hstep, hchanged, hfit⟩ := of_decide_eq_true hcheck
  refine ⟨d, r, hd, hr, hchanged, (weights_finished_iff hstep hr ?_).2 (.inr ?_)⟩
  · rw [hlimit]
    decide
  · rwa [hlimit]

/-- With batches of two tables the update of the first room gets stuck at a table of the second. -/
theorem weights_stuck : ∃ d,
    @Reachable sampleDigest sampleRating hardforkPlaychain11Time d ∧
      d.parameters.tablesWeightRecalculationsPerMaintenance = 2 ∧ ¬FinishesInTime d 1 := by
  obtain ⟨d, hd, hlimit, htables, hcheck⟩ := @exists_reachable_of_run hardforkPlaychain11Time
    sampleDigest sampleRating 9 sampleClaimed (ratedRooms 2)
    (fun d ↦ d.parameters.tablesWeightRecalculationsPerMaintenance = 2 ∧
      tablesOf d 1 nullTable = 1 ∧ (weightPasses 2 d).toOption.any (fun d' ↦
        (d'.rooms.find? 1).any fun r ↦ r.lastUpdatedTable ≠ nullTable) = true) _ (by decide)
  refine ⟨d, hd, hlimit, fun hfinishes ↦ ?_⟩
  obtain ⟨d', hd', r, hr, hlast, -⟩ := hfinishes.2 2 (by rw [hlimit, htables])
  rw [hd'] at hcheck
  have hne : (d'.rooms.find? 1).any (fun r ↦ r.lastUpdatedTable ≠ nullTable) = true := hcheck
  rw [hr] at hne
  exact of_decide_eq_true hne hlast

end Playchain
