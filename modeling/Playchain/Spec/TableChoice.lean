import Mathlib.Data.List.TakeWhile
import Playchain.Spec.Timeouts

/-!
# The table a reservation gets

The allocation is specified without its ranges and its two passes. A table is `Eligible` for a
reservation if it has the wanted metadata, a free place within the desired maximum, enough weight, a
room the player can play in, and the player neither waits nor plays there. `Chosen` is the first
eligible table, in the order `Before`, among those with the desired minimum of players, and among all
if there is none. An `AllocationRun` takes the waiting reservations one after the other and gives each
its chosen table *at that moment*.

The main result is that `allocationOfVacancies` is such a run over the waiting reservations in the
order of expiration and id, as many as a block may allocate, followed by the return of the reservations
that were replaced.
-/

namespace Playchain

/-! ### What the allocation relies on -/

/-- References of tables and reservations, as far as the allocation follows them. -/
structure AllocationOk (d : Database) : Prop where
  room : ∀ id t, d.tables.find? id = some t → d.rooms.Has t.room
  nullMetadata : ∀ t, d.tables.find? nullTable = some t → t.metadata = ""
  proposals : ∀ id t p c, d.tables.find? id = some t → t.pendingProposals.find? p = some c →
    ∃ b, d.pendingBuyIns.find? c = some b ∧ b.isAllocated = true ∧ b.table = id ∧
      b.playerInternal = p
  reservation : ∀ id b, d.pendingBuyIns.find? id = some b →
    0 ≤ b.amount.amount ∧ (b.isAllocated = true → d.tables.Has b.table) ∧
      ReservationOk d.players id b
  unmeasured : ∀ id b, d.pendingBuyIns.find? id = some b → b.isAllocated = false →
    d.roomRatingMeasurements.findKey? id = none

/-- In every state with its references in order the allocation finds what it follows. -/
theorem WellFormed.allocationOk {mode : Mode} {d : Database} (h : WellFormed mode d) :
    AllocationOk d where
  room id t ht := (h.tables id t ht).room
  nullMetadata := h.nullMetadata
  proposals := h.proposals
  reservation := h.pendingBuyIns
  unmeasured id b hb halloc := by
    refine UniqueIndex.findKey?_eq_none_iff.2 fun j m hm hk ↦ ?_
    have hallocated := (h.measurements j m hm).2 b (hk ▸ hb)
    rw [halloc] at hallocated
    cases hallocated

/-! ### Eligible tables and their order -/

/-- The conditions on a table other than its metadata and its places. -/
structure Suits (d : Database) (b : PendingBuyInObject) (t : TableObject) : Prop where
  weight : d.parameters.minAllowedTableWeightToBeAllocated ≤ t.weight
  room : ∃ room, d.rooms.find? t.room = some room ∧
    room.protocolVersion.base.majorV = b.protocolVersion.base.majorV ∧
    room.protocolVersion.base.minorV = b.protocolVersion.base.minorV ∧ room.owner ≠ b.player
  asset : t.minAcceptedProposalAsset.assetId = b.amount.assetId
  amount : t.minAcceptedProposalAsset.amount ≤ b.amount.amount
  waiting : t.isWaitingAtTable b.playerInternal = false
  playing : t.isPlaying b.playerInternal = false

/-- A table can be allocated to a reservation. -/
structure Eligible (d : Database) (b : PendingBuyInObject) (id : TableId) (t : TableObject) :
    Prop where
  find : d.tables.find? id = some t
  metadata : t.metadata = b.metadata
  places : t.occupiedPlaces ≤ d.parameters.maximumDesiredNumberOfPlayersForTablesAllocation - 1
  suits : Suits d b t

/-- Few occupied places first, then a high weight, then a low id. -/
def Before (p q : TableId × TableObject) : Prop :=
  p.2.occupiedPlaces < q.2.occupiedPlaces ∨
  (p.2.occupiedPlaces = q.2.occupiedPlaces ∧
    (q.2.weight < p.2.weight ∨ (q.2.weight = p.2.weight ∧ p.1 ≤ q.1)))

instance : DecidableRel Before := fun _ _ ↦ inferInstanceAs (Decidable (_ ∨ _))

/-- **The specified table**: the first eligible one among those with the desired minimum of players,
or among all if there is none. -/
structure Chosen (d : Database) (b : PendingBuyInObject) (id : TableId) (t : TableObject) :
    Prop where
  eligible : Eligible d b id t
  first : ∀ id' t', Eligible d b id' t' →
    (d.parameters.minimumDesiredNumberOfPlayersForTablesAllocation ≤ t.occupiedPlaces ∧
      (d.parameters.minimumDesiredNumberOfPlayersForTablesAllocation ≤ t'.occupiedPlaces →
        Before (id, t) (id', t'))) ∨
    (t'.occupiedPlaces < d.parameters.minimumDesiredNumberOfPlayersForTablesAllocation ∧
      Before (id, t) (id', t'))

/-- The tests of `find_in_range` are the conditions. -/
theorem isEligible_eq {d : Database} (h : AllocationOk d) (b : PendingBuyInObject) {id : TableId}
    {t : TableObject} (ht : d.tables.find? id = some t) :
    ∃ e, isEligible d b t = .ok e ∧ (e = true ↔ Suits d b t) := by
  obtain ⟨room, hroom⟩ := h.room id t ht
  have hlt (hsame : t.minAcceptedProposalAsset.assetId = b.amount.assetId) :
      b.amount.lt t.minAcceptedProposalAsset =
        .ok (decide (b.amount.amount < t.minAcceptedProposalAsset.amount)) := by
    rw [Asset.lt, Asset.sameAsset, fcAssert_of_true hsame.symm]
    rfl
  refine ⟨decide (d.parameters.minAllowedTableWeightToBeAllocated ≤ t.weight) &&
    room.protocolVersion.compatible b.protocolVersion && decide (room.owner ≠ b.player) &&
    decide (t.minAcceptedProposalAsset.assetId = b.amount.assetId) &&
    decide (t.minAcceptedProposalAsset.amount ≤ b.amount.amount) &&
    !(t.isWaitingAtTable b.playerInternal || t.isPlaying b.playerInternal), ?_, ?_⟩
  · unfold isEligible
    rw [Database.roomById, orUnableToFind_eq_ok.2 hroom, Except.ok_bind]
    by_cases hweight : t.weight < d.parameters.minAllowedTableWeightToBeAllocated
    · rw [if_pos hweight, decide_eq_false (not_le.2 hweight)]
      rfl
    rw [if_neg hweight, decide_eq_true (not_lt.1 hweight), Bool.true_and]
    cases hversion : room.protocolVersion.compatible b.protocolVersion with
    | false => rfl
    | true =>
      by_cases howner : room.owner = b.player
      · simp [howner]
        rfl
      -- amounts are compared only in the same asset
      by_cases hasset : t.minAcceptedProposalAsset.assetId = b.amount.assetId
      · simp only [howner, hasset, hlt hasset, Except.ok_bind]
        by_cases hamount : b.amount.amount < t.minAcceptedProposalAsset.amount
        · simp [hamount, not_le.2 hamount]
          rfl
        · simp [hamount, howner, not_lt.1 hamount]
          rfl
      · simp [howner, hasset]
        rfl
  · simp only [Bool.and_eq_true, decide_eq_true_eq, VersionExt.compatible, Bool.not_eq_true',
      Bool.or_eq_false_iff]
    constructor
    · rintro ⟨⟨⟨⟨⟨hweight, hversion⟩, howner⟩, hasset⟩, hamount⟩, hwaiting, hplaying⟩
      exact ⟨hweight, ⟨room, hroom, hversion.1, hversion.2, howner⟩, hasset, hamount, hwaiting,
        hplaying⟩
    · intro hs
      obtain ⟨r, hr, hmajor, hminor, howner⟩ := hs.room
      obtain rfl := Option.some.inj (hr.symm.trans hroom)
      exact ⟨⟨⟨⟨⟨hs.weight, hmajor, hminor⟩, howner⟩, hs.asset⟩, hs.amount⟩, hs.waiting,
        hs.playing⟩

/-! ### The search -/

section Search

variable {α : Type}

/-- A search whose tests do not fail finds the first element. -/
theorem findM?_eq_find? {l : List α} {f : α → Except ChainError Bool} {g : α → Bool}
    (h : ∀ a ∈ l, f a = .ok (g a)) : l.findM? f = .ok (l.find? g) := by
  induction l with
  | nil => rfl
  | cons a l ih =>
    rw [List.findM?, h a List.mem_cons_self, Except.ok_bind, List.find?_cons]
    cases g a with
    | true => rfl
    | false => exact ih fun b hb ↦ h b (List.mem_cons_of_mem _ hb)

/-- The first element of an ordered list that passes a test is below all that pass it. -/
theorem rel_of_find?_eq_some {r : α → α → Prop} (hrefl : ∀ a, r a a) {l : List α}
    (hl : l.Pairwise r) {g : α → Bool} {a : α} (ha : l.find? g = some a) {b : α} (hb : b ∈ l)
    (hgb : g b = true) : r a b := by
  induction l with
  | nil => cases hb
  | cons c l ih =>
    rw [List.find?_cons] at ha
    obtain ⟨hc, hl⟩ := List.pairwise_cons.1 hl
    rcases List.mem_cons.1 hb with rfl | hb
    · rw [hgb] at ha
      exact Option.some.inj ha ▸ hrefl _
    · cases hgc : g c with
      | true =>
        rw [hgc] at ha
        exact Option.some.inj ha ▸ hc b hb
      | false =>
        rw [hgc] at ha
        exact ih hl ha hb

end Search

theorem Before.refl (p : TableId × TableObject) : Before p p := .inr ⟨rfl, .inr ⟨rfl, le_rfl⟩⟩

theorem pairwise_tablesByChooseAlgorithm (d : Database) (metadata : String) :
    (tablesByChooseAlgorithm d metadata).Pairwise Before := by
  have htotal : ∀ (m n : ℕ) (v w : ℤ) (i j : ℕ),
      (m < n ∨ (m = n ∧ (w < v ∨ (w = v ∧ i ≤ j)))) ∨ n < m ∨ (n = m ∧ (v < w ∨ (v = w ∧ j ≤ i))) := by
    omega
  have htrans : ∀ (m n o : ℕ) (u v w : ℤ) (i j k : ℕ), m < n ∨ (m = n ∧ (v < u ∨ (v = u ∧ i ≤ j))) →
      n < o ∨ (n = o ∧ (w < v ∨ (w = v ∧ j ≤ k))) → m < o ∨ (m = o ∧ (w < u ∨ (w = u ∧ i ≤ k))) := by
    omega
  have : Std.Total Before := ⟨fun _ _ ↦ htotal _ _ _ _ _ _⟩
  have : IsTrans (TableId × TableObject) Before := ⟨fun _ _ _ ↦ htrans _ _ _ _ _ _ _ _ _⟩
  exact (List.pairwise_insertionSort Before d.tables.toList).filter _

/-- The tables with some metadata and a number of places between two bounds. -/
theorem mem_createRange_iff {d : Database} (htime : hardforkPlaychain4Time ≤ d.headBlockTime)
    {metadata : String} {lo hi : ℕ} {p : TableId × TableObject} :
    p ∈ createRange d metadata lo hi ↔ d.tables.find? p.1 = some p.2 ∧ p.2.metadata = metadata ∧
      lo ≤ p.2.occupiedPlaces ∧ p.2.occupiedPlaces ≤ hi := by
  rw [createRange, tablesByChooseAlgorithm, List.mem_filter, List.mem_filter,
    ObjectIndex.mem_orderedBy, if_pos htime]
  simp only [decide_eq_true_eq, and_assoc]

/-- **One search** finds the first suitable table of its range, if there is one. -/
theorem findM?_createRange {d : Database} (h : AllocationOk d) (b : PendingBuyInObject) (lo hi : ℕ) :
    ∃ r, (createRange d b.metadata lo hi).findM? (fun p ↦ isEligible d b p.2) = .ok r ∧
      (r = none → ∀ p ∈ createRange d b.metadata lo hi, ¬Suits d b p.2) ∧
      ∀ p, r = some p → p ∈ createRange d b.metadata lo hi ∧ Suits d b p.2 ∧
        ∀ q ∈ createRange d b.metadata lo hi, Suits d b q.2 → Before p q := by
  classical
  have htest : ∀ p ∈ createRange d b.metadata lo hi,
      isEligible d b p.2 = .ok (decide (Suits d b p.2)) := by
    intro p hp
    obtain ⟨e, he, hiff⟩ := isEligible_eq h b (mem_createRange hp).1
    rw [he, Except.ok.injEq, Bool.eq_iff_iff, hiff, decide_eq_true_eq]
  refine ⟨_, findM?_eq_find? htest, fun hnone p hp hs ↦ ?_, fun p hp ↦ ⟨?_, ?_, ?_⟩⟩
  · exact absurd (decide_eq_true hs) (List.find?_eq_none.1 hnone p hp)
  · exact List.mem_of_find?_eq_some hp
  · exact of_decide_eq_true (List.find?_some (p := fun p : TableId × TableObject ↦
      decide (Suits d b p.2)) hp)
  · intro q hq hs
    have hsorted : (createRange d b.metadata lo hi).Pairwise Before :=
      (pairwise_tablesByChooseAlgorithm d b.metadata).filter _
    exact rel_of_find?_eq_some Before.refl hsorted hp hq (decide_eq_true hs)

/-! ### One allocation -/

/-- What an allocation does: the reservation is at the table, the table proposes it to the player, and
no table is filled beyond the desired maximum. -/
structure Allocates (d d' : Database) (id : PendingBuyInId) (b : PendingBuyInObject)
    (table : TableId) (t : TableObject) : Prop where
  reservation : d'.pendingBuyIns.find? id = some { b with table := table }
  otherReservations : ∀ j, j ≠ id → d'.pendingBuyIns.find? j = d.pendingBuyIns.find? j
  seat : ∃ n ≤ d.parameters.maximumDesiredNumberOfPlayersForTablesAllocation,
    d'.tables.find? table = some { t with
      pendingProposals := t.pendingProposals.insert b.playerInternal id
      occupiedPlaces := n }
  otherTables : ∀ j, j ≠ table → d'.tables.find? j = d.tables.find? j
  measurements : ∀ j, j ≠ id → d.roomRatingMeasurements.findKey? j = none →
    d'.roomRatingMeasurements.findKey? j = none
  rooms : d'.rooms = d.rooms
  players : d'.players = d.players
  balances : d'.balances = d.balances
  parameters : d'.parameters = d.parameters
  time : d'.headBlockTime = d.headBlockTime

theorem allocateTable_allocates {d : Database} (h : AllocationOk d) {id : PendingBuyInId}
    {b : PendingBuyInObject} (hb : d.pendingBuyIns.find? id = some b)
    (halloc : b.isAllocated = false) (hid : id ≠ nullPendingBuyIn) {table : TableId}
    {t : TableObject} (ht : d.tables.find? table = some t)
    (hplaces : t.occupiedPlaces < d.parameters.maximumDesiredNumberOfPlayersForTablesAllocation)
    (hmax : d.parameters.maximumDesiredNumberOfPlayersForTablesAllocation < 2 ^ 32) :
    ∃ d', allocateTable d id b table =
        .ok ((t.pendingProposals.find? b.playerInternal).getD nullPendingBuyIn, d') ∧
      Allocates d d' id b table t := by
  obtain ⟨obj, hobj⟩ : ∃ obj, d.players.findKey? b.player = some (b.playerInternal, obj) := by
    rcases (h.reservation id b hb).2.2 with ⟨hnull, -⟩ | ⟨-, hplayer⟩
    · exact absurd hnull hid
    · exact hplayer
  obtain ⟨room, hroom⟩ := h.room table t ht
  obtain ⟨n, hn, hadd⟩ : ∃ n ≤ d.parameters.maximumDesiredNumberOfPlayersForTablesAllocation,
      t.addPendingProposal b.playerInternal id =
        ((t.pendingProposals.find? b.playerInternal).getD nullPendingBuyIn, { t with
          pendingProposals := t.pendingProposals.insert b.playerInternal id
          occupiedPlaces := n }) := by
    rcases hfind : t.pendingProposals.find? b.playerInternal with - | old
    · refine ⟨_, ?_, by rw [TableObject.addPendingProposal, hfind]; rfl⟩
      rw [SeatChange.count, incUInt32]
      split_ifs
      · exact hplaces.le
      · rw [Nat.mod_eq_of_lt (by omega)]
        exact hplaces
    · refine ⟨t.occupiedPlaces, hplaces.le, ?_⟩
      -- the proposal of an allocated reservation is not the one that waits
      have hne : old ≠ id := by
        rintro rfl
        obtain ⟨c, hc, hallocated, -⟩ := h.proposals table t _ _ ht hfind
        rw [hb, Option.some.injEq] at hc
        rw [← hc, halloc] at hallocated
        cases hallocated
      rw [TableObject.addPendingProposal, hfind]
      simp only [ne_eq, hne, not_false_eq_true, if_true, Option.getD_some]
  unfold allocateTable
  rw [getPlayer_of_findKey? hobj, Except.ok_bind, tableById_of_find? ht, Except.ok_bind]
  simp only [hadd]
  rw [Database.roomById, orUnableToFind_eq_ok.2 hroom, Except.ok_bind]
  obtain ⟨ms, hms, hcreate⟩ := UniqueIndex.exists_create? (x := d.roomRatingMeasurements)
    (a :=
      { created := d.headBlockTime
        expiration := TimePointSec.addSeconds d.headBlockTime
          (d.parameters.roomRatingMeasurementsAlivePeriods * d.maintenanceInterval)
        room := t.room
        table := table
        associatedBuyin := id
        weight := 0
        waitingResolve := true }) (h.unmeasured id b hb halloc)
  refine ⟨_, Except.bind_eq_ok.2 ⟨ms, orViolation_eq_ok.2 hms, rfl⟩, ?_, ?_, ?_, ?_, ?_, rfl, rfl,
    rfl, rfl, rfl⟩
  · refine (ObjectIndex.find?_modify _ _ _ _).trans ?_
    rw [if_pos rfl]
    exact congrArg (Option.map _) hb
  · exact fun j hj ↦ ObjectIndex.find?_modify_of_ne _ _ hj
  · exact ⟨n, hn, ObjectIndex.find?_set_self ht _⟩
  · exact fun j hj ↦ ObjectIndex.find?_set_of_ne _ _ hj
  · intro j hj hnone
    refine UniqueIndex.findKey?_eq_none_iff.2 fun i m hm hk ↦ ?_
    change ms.find? i = some m at hm
    rw [hcreate, ObjectIndex.find?_create] at hm
    split_ifs at hm
    · obtain rfl := Option.some.inj hm
      exact hj hk.symm
    · exact UniqueIndex.findKey?_eq_none_iff.1 hnone i m hm hk

/-- An allocation keeps the references in order. -/
theorem Allocates.ok {d d' : Database} {id : PendingBuyInId} {b : PendingBuyInObject}
    {table : TableId} {t : TableObject} (ha : Allocates d d' id b table t) (h : AllocationOk d)
    (hb : d.pendingBuyIns.find? id = some b) (halloc : b.isAllocated = false)
    (hid : id ≠ nullPendingBuyIn) (ht : d.tables.find? table = some t)
    (htable : table ≠ nullTable) : AllocationOk d' := by
  obtain ⟨n, -, hseat⟩ := ha.seat
  have htables : ∀ j u, d'.tables.find? j = some u → (j = table ∧ u = { t with
      pendingProposals := t.pendingProposals.insert b.playerInternal id
      occupiedPlaces := n }) ∨ d.tables.find? j = some u := by
    intro j u hu
    by_cases hj : j = table
    · rw [hj, hseat] at hu
      exact .inl ⟨hj, (Option.some.inj hu).symm⟩
    · rw [ha.otherTables j hj] at hu
      exact .inr hu
  have hhas : ∀ j, d.tables.Has j → d'.tables.Has j := by
    rintro j ⟨u, hu⟩
    by_cases hj : j = table
    · exact ⟨_, hj ▸ hseat⟩
    · exact ⟨u, (ha.otherTables j hj).trans hu⟩
  have hallocated : ({ b with table := table } : PendingBuyInObject).isAllocated = true :=
    decide_eq_true htable
  constructor
  · intro j u hu
    rw [ha.rooms]
    obtain ⟨-, rfl⟩ | hu := htables j u hu
    · exact h.room table t ht
    · exact h.room j u hu
  · intro u hu
    obtain ⟨hj, -⟩ | hu := htables _ u hu
    · exact absurd hj.symm htable
    · exact h.nullMetadata u hu
  · intro j u p c hu hc
    -- the proposals of before are for other reservations, since this one was not allocated
    have hold : ∀ u', d.tables.find? j = some u' → u'.pendingProposals.find? p = some c →
        ∃ b, d'.pendingBuyIns.find? c = some b ∧ b.isAllocated = true ∧ b.table = j ∧
          b.playerInternal = p := by
      intro u' hu' hc'
      obtain ⟨b', hb', hall, hrest⟩ := h.proposals j u' p c hu' hc'
      have hne : c ≠ id := by
        rintro rfl
        rw [hb, Option.some.injEq] at hb'
        rw [← hb', halloc] at hall
        cases hall
      exact ⟨b', (ha.otherReservations c hne).trans hb', hall, hrest⟩
    obtain ⟨rfl, rfl⟩ | hu := htables j u hu
    · change (t.pendingProposals.insert b.playerInternal id).find? p = some c at hc
      rw [FlatMap.find?_insert] at hc
      split_ifs at hc with hp
      · obtain rfl := Option.some.inj hc
        exact ⟨_, ha.reservation, hallocated, rfl, hp.symm⟩
      · exact hold t ht hc
    · exact hold u hu hc
  · intro j c hc
    rw [ha.players]
    by_cases hj : j = id
    · subst hj
      obtain rfl := Option.some.inj (ha.reservation.symm.trans hc)
      obtain ⟨hamount, -, hres⟩ := h.reservation _ b hb
      refine ⟨hamount, fun _ ↦ hhas table ⟨t, ht⟩, .inr ?_⟩
      rcases hres with ⟨h0, -⟩ | hres
      · exact absurd h0 hid
      · exact hres
    · rw [ha.otherReservations j hj] at hc
      obtain ⟨hamount, htab, hres⟩ := h.reservation j c hc
      exact ⟨hamount, fun hall ↦ hhas _ (htab hall), hres⟩
  · intro j c hc hun
    by_cases hj : j = id
    · subst hj
      obtain rfl := Option.some.inj (ha.reservation.symm.trans hc)
      rw [hallocated] at hun
      cases hun
    · rw [ha.otherReservations j hj] at hc
      exact ha.measurements j hj (h.unmeasured j c hc hun)

/-! ### One reservation -/

/-- **One turn of the allocation**, on a database and the reservations replaced so far: the reservation
gets its chosen table, or there is no eligible one. The null reservation is passed over. -/
inductive AllocationStep (p : PendingBuyInId × PendingBuyInObject) :
    Database × FlatSet PendingBuyInId → Database × FlatSet PendingBuyInId → Prop
  | null (s : Database × FlatSet PendingBuyInId) (hnull : p.1 = nullPendingBuyIn) :
    AllocationStep p s s
  | none (s : Database × FlatSet PendingBuyInId) (hid : p.1 ≠ nullPendingBuyIn)
      (hnone : ∀ table t, ¬Eligible s.1 p.2 table t) : AllocationStep p s s
  | some (s : Database × FlatSet PendingBuyInId) (hid : p.1 ≠ nullPendingBuyIn) {table : TableId}
      {t : TableObject} (hchosen : Chosen s.1 p.2 table t) {d' : Database}
      (hallocates : Allocates s.1 d' p.1 p.2 table t) {old : PendingBuyInId}
      (hold : (t.pendingProposals.find? p.2.playerInternal).getD nullPendingBuyIn = old) :
    AllocationStep p s (d', if old ≠ nullPendingBuyIn then s.2.add old else s.2)

/-- What a turn needs of the state and leaves in order: the references, and the reservations that were
replaced so far. -/
structure AllocationReady (d₀ : Database) (s : Database × FlatSet PendingBuyInId) : Prop where
  ok : AllocationOk s.1
  replaced : ∀ id ∈ s.2.keys, ∃ b, s.1.pendingBuyIns.find? id = some b
  parameters : s.1.parameters = d₀.parameters
  time : s.1.headBlockTime = d₀.headBlockTime

/-- The two searches of a turn: the chosen table, or none. -/
theorem search_chosen {d : Database} (h : AllocationOk d)
    (htime : hardforkPlaychain4Time ≤ d.headBlockTime)
    (hpos : 0 < d.parameters.maximumDesiredNumberOfPlayersForTablesAllocation)
    (hmax : d.parameters.maximumDesiredNumberOfPlayersForTablesAllocation < 2 ^ 32)
    (b : PendingBuyInObject) :
    ∃ first second,
      (createRange d b.metadata d.parameters.minimumDesiredNumberOfPlayersForTablesAllocation
        (decUInt32 d.parameters.maximumDesiredNumberOfPlayersForTablesAllocation)).findM?
          (fun p ↦ isEligible d b p.2) = .ok first ∧
      (createRange d b.metadata 0
        (decUInt32 d.parameters.maximumDesiredNumberOfPlayersForTablesAllocation)).findM?
          (fun p ↦ isEligible d b p.2) = .ok second ∧
      (∀ p, first = some p → Chosen d b p.1 p.2) ∧
      (first = none → ∀ p, second = some p → Chosen d b p.1 p.2) ∧
      (first = none → second = none → ∀ table t, ¬Eligible d b table t) := by
  have hdec : decUInt32 d.parameters.maximumDesiredNumberOfPlayersForTablesAllocation =
      d.parameters.maximumDesiredNumberOfPlayersForTablesAllocation - 1 := by
    unfold decUInt32
    omega
  rw [hdec]
  -- the first search is over tables with the desired number of players, the second over all
  obtain ⟨first, hfirst, hnone₁, hsome₁⟩ := findM?_createRange h b
    d.parameters.minimumDesiredNumberOfPlayersForTablesAllocation
    (d.parameters.maximumDesiredNumberOfPlayersForTablesAllocation - 1)
  obtain ⟨second, hsecond, hnone₂, hsome₂⟩ := findM?_createRange h b 0
    (d.parameters.maximumDesiredNumberOfPlayersForTablesAllocation - 1)
  simp only [mem_createRange_iff htime] at hnone₁ hsome₁ hnone₂ hsome₂
  refine ⟨first, second, hfirst, hsecond, fun p hp ↦ ?_, fun hf p hp ↦ ?_, fun _ hs id t he ↦ ?_⟩
  · obtain ⟨⟨hfind, hmeta, hlo, hhi⟩, hsuits, hleast⟩ := hsome₁ p hp
    refine ⟨⟨hfind, hmeta, hhi, hsuits⟩, fun id' t' he ↦ .inl ⟨hlo, fun hlo' ↦ ?_⟩⟩
    exact hleast (id', t') ⟨he.find, he.metadata, hlo', he.places⟩ he.suits
  · obtain ⟨⟨hfind, hmeta, -, hhi⟩, hsuits, hleast⟩ := hsome₂ p hp
    refine ⟨⟨hfind, hmeta, hhi, hsuits⟩, fun id' t' he ↦ .inr ⟨?_, ?_⟩⟩
    · by_contra hlo
      exact hnone₁ hf (id', t') ⟨he.find, he.metadata, not_lt.1 hlo, he.places⟩ he.suits
    · exact hleast (id', t') ⟨he.find, he.metadata, Nat.zero_le _, he.places⟩ he.suits
  · exact hnone₂ hs (id, t) ⟨he.find, he.metadata, Nat.zero_le _, he.places⟩ he.suits

/-- Finding a table allocates it. -/
theorem findInRange_eq {d : Database} {range : List (TableId × TableObject)} {id : PendingBuyInId}
    {b : PendingBuyInObject} {r : Option (TableId × TableObject)}
    (h : range.findM? (fun p ↦ isEligible d b p.2) = .ok r) :
    findInRange range d id b =
      r.elim (.ok none) fun p ↦ (allocateTable d id b p.1).map some := by
  rw [findInRange, h, Except.ok_bind]
  rcases r with - | p
  · rfl
  · rw [Option.elim_some]
    dsimp only
    cases allocateTable d id b p.1 with
    | error e => rfl
    | ok r => rfl

/-- A turn after its two searches. -/
theorem allocateVacancy_eq {s : Database × FlatSet PendingBuyInId}
    {p : PendingBuyInId × PendingBuyInObject} (hid : p.1 ≠ nullPendingBuyIn)
    {first second : Option (TableId × TableObject)}
    (hfirst : (createRange s.1 p.2.metadata
      s.1.parameters.minimumDesiredNumberOfPlayersForTablesAllocation
      (decUInt32 s.1.parameters.maximumDesiredNumberOfPlayersForTablesAllocation)).findM?
        (fun q ↦ isEligible s.1 p.2 q.2) = .ok first)
    (hsecond : (createRange s.1 p.2.metadata 0
      (decUInt32 s.1.parameters.maximumDesiredNumberOfPlayersForTablesAllocation)).findM?
        (fun q ↦ isEligible s.1 p.2 q.2) = .ok second) :
    allocateVacancy s p = (first.or second).elim (.ok s) fun q ↦
      (allocateTable s.1 p.1 p.2 q.1).map fun r ↦
        (r.2, if r.1 ≠ nullPendingBuyIn then s.2.add r.1 else s.2) := by
  unfold allocateVacancy
  rw [if_neg hid]
  dsimp only
  rw [findInRange_eq hfirst]
  rcases first with - | q
  · rw [Option.elim_none, Except.ok_bind, Option.none_or]
    dsimp only
    rw [findInRange_eq hsecond]
    rcases second with - | q
    · rfl
    · rw [Option.elim_some, Option.elim_some]
      cases allocateTable s.1 p.1 p.2 q.1 with
      | error e => rfl
      | ok r => rfl
  · rw [Option.some_or, Option.elim_some, Option.elim_some]
    cases allocateTable s.1 p.1 p.2 q.1 with
    | error e => rfl
    | ok r => rfl

/-- **Each turn of the loop is a turn of the specification**, and the other waiting reservations go on
waiting. -/
theorem allocateVacancy_step {d₀ : Database} (htime : hardforkPlaychain4Time ≤ d₀.headBlockTime)
    (hpos : 0 < d₀.parameters.maximumDesiredNumberOfPlayersForTablesAllocation)
    (hmax : d₀.parameters.maximumDesiredNumberOfPlayersForTablesAllocation < 2 ^ 32)
    {s : Database × FlatSet PendingBuyInId} (hs : AllocationReady d₀ s)
    {p : PendingBuyInId × PendingBuyInObject} (hp : WaitsForTable p s.1) :
    ∃ s', allocateVacancy s p = .ok s' ∧ AllocationStep p s s' ∧ AllocationReady d₀ s' ∧
      ∀ q : PendingBuyInId × PendingBuyInObject, q.1 ≠ p.1 → WaitsForTable q s.1 →
        WaitsForTable q s'.1 := by
  by_cases hid : p.1 = nullPendingBuyIn
  · refine ⟨s, ?_, .null s hid, hs, fun _ _ hq ↦ hq⟩
    rw [allocateVacancy, if_pos hid]
    rfl
  obtain ⟨first, second, hfirst, hsecond, hchosen₁, hchosen₂, hnone⟩ := search_chosen hs.ok
    (hs.time ▸ htime) (hs.parameters ▸ hpos) (hs.parameters ▸ hmax) p.2
  rw [allocateVacancy_eq hid hfirst hsecond]
  have hchosen : ∀ q, first.or second = some q → Chosen s.1 p.2 q.1 q.2 := by
    intro q hq
    rcases first with - | r
    · exact hchosen₂ rfl q hq
    · exact hchosen₁ q hq
  rcases hfound : first.or second with - | q
  · obtain ⟨hf, hsnd⟩ := Option.or_eq_none_iff.1 hfound
    exact ⟨s, rfl, .none s hid (hnone hf hsnd), hs, fun _ _ hq ↦ hq⟩
  have hq := hchosen q hfound
  have htable : q.1 ≠ nullTable := by
    intro h0
    rcases (hs.ok.reservation p.1 p.2 hp.1).2.2 with ⟨h₁, -⟩ | ⟨h₁, -⟩
    · exact hid h₁
    · exact h₁ (hq.eligible.metadata.symm.trans (hs.ok.nullMetadata q.2 (h0 ▸ hq.eligible.find)))
  have hplaces := hq.eligible.places
  have hpos' := hs.parameters ▸ hpos
  obtain ⟨d', hd', hallocates⟩ := allocateTable_allocates hs.ok hp.1 hp.2 hid hq.eligible.find
    (by omega) (hs.parameters ▸ hmax)
  refine ⟨_, by rw [Option.elim_some, hd']; rfl, .some s hid hq hallocates rfl, ?_, fun r hr hw ↦
    ⟨(hallocates.otherReservations r.1 hr).trans hw.1, hw.2⟩⟩
  refine ⟨hallocates.ok hs.ok hp.1 hp.2 hid hq.eligible.find htable, ?_,
    hallocates.parameters.trans hs.parameters, hallocates.time.trans hs.time⟩
  -- an allocation removes no reservation
  have hstay : ∀ id, (∃ b, s.1.pendingBuyIns.find? id = some b) →
      ∃ b, d'.pendingBuyIns.find? id = some b := by
    rintro id ⟨b, hb⟩
    by_cases hj : id = p.1
    · exact ⟨_, hj ▸ hallocates.reservation⟩
    · exact ⟨b, (hallocates.otherReservations id hj).trans hb⟩
  intro id hmem
  dsimp only at hmem ⊢
  split_ifs at hmem with hold
  · rw [FlatSet.keys_add, Finset.mem_insert] at hmem
    rcases hmem with rfl | hmem
    · rcases hfind : q.2.pendingProposals.find? p.2.playerInternal with - | old
      · rw [hfind] at hold
        exact absurd rfl hold
      · obtain ⟨b, hb, -⟩ := hs.ok.proposals q.1 q.2 _ old hq.eligible.find hfind
        exact hstay _ ⟨b, hb⟩
    · exact hstay id (hs.replaced id hmem)
  · exact hstay id (hs.replaced id hmem)

/-! ### All reservations -/

/-- The turns of a list of reservations, one after the other. -/
inductive AllocationRun : List (PendingBuyInId × PendingBuyInObject) →
    Database × FlatSet PendingBuyInId → Database × FlatSet PendingBuyInId → Prop
  | nil (s : Database × FlatSet PendingBuyInId) : AllocationRun [] s s
  | cons {p : PendingBuyInId × PendingBuyInObject} {l : List (PendingBuyInId × PendingBuyInObject)}
      {s s' s'' : Database × FlatSet PendingBuyInId} (hstep : AllocationStep p s s')
      (hrun : AllocationRun l s' s'') : AllocationRun (p :: l) s s''

theorem foldlM_allocateVacancy {d₀ : Database} (htime : hardforkPlaychain4Time ≤ d₀.headBlockTime)
    (hpos : 0 < d₀.parameters.maximumDesiredNumberOfPlayersForTablesAllocation)
    (hmax : d₀.parameters.maximumDesiredNumberOfPlayersForTablesAllocation < 2 ^ 32)
    {l : List (PendingBuyInId × PendingBuyInObject)} (hnodup : (l.map Prod.fst).Nodup)
    {s : Database × FlatSet PendingBuyInId} (hs : AllocationReady d₀ s)
    (hl : ∀ p ∈ l, WaitsForTable p s.1) :
    ∃ s', l.foldlM allocateVacancy s = .ok s' ∧ AllocationRun l s s' ∧ AllocationReady d₀ s' := by
  induction l generalizing s with
  | nil => exact ⟨s, rfl, .nil s, hs⟩
  | cons p l ih =>
    rw [List.map_cons, List.nodup_cons] at hnodup
    obtain ⟨s', hs', hstep, hready, hwaits⟩ :=
      allocateVacancy_step htime hpos hmax hs (hl p List.mem_cons_self)
    have hl' : ∀ q ∈ l, WaitsForTable q s'.1 := fun q hq ↦
      hwaits q (fun heq ↦ hnodup.1 (heq ▸ List.mem_map_of_mem hq)) (hl q (List.mem_cons_of_mem _ hq))
    obtain ⟨s'', hs'', hrun, hready'⟩ := ih hnodup.2 hready hl'
    exact ⟨s'', by rw [List.foldlM_cons, hs']; exact hs'', .cons hstep hrun, hready'⟩

/-- Reporting a replaced reservation changes neither tables nor reservations. -/
theorem pushPendingBuyExpireOperation_eq {s d : Database} (h : AllocationOk s)
    (htables : d.tables = s.tables) (hrooms : d.rooms = s.rooms) (id : PendingBuyInId)
    {b : PendingBuyInObject} (htable : b.isAllocated = true → s.tables.Has b.table)
    (byReplacement : Bool) :
    ∃ d', pushPendingBuyExpireOperation d id b byReplacement = .ok d' ∧ d'.tables = d.tables ∧
      d'.rooms = d.rooms ∧ d'.pendingBuyIns = d.pendingBuyIns := by
  unfold pushPendingBuyExpireOperation
  by_cases hnull : b.table ≠ nullTable
  · obtain ⟨t, ht⟩ := htable (decide_eq_true hnull)
    obtain ⟨room, hroom⟩ := h.room b.table t ht
    rw [← htables] at ht
    rw [← hrooms] at hroom
    rw [if_pos hnull, tableById_of_find? ht, Except.ok_bind, Database.tableOwner, Database.roomById,
      orUnableToFind_eq_ok.2 hroom]
    simp only [Except.ok_bind, pure_bind]
    split
    · exact ⟨_, rfl, rfl, rfl, rfl⟩
    · exact ⟨_, rfl, rfl, rfl, rfl⟩
  · rw [if_neg hnull]
    exact ⟨_, rfl, rfl, rfl, rfl⟩

theorem returnReplacedBuyIn_eq {s d : Database} (h : AllocationOk s) (htables : d.tables = s.tables)
    (hrooms : d.rooms = s.rooms) {id : PendingBuyInId} {b : PendingBuyInObject}
    (hs : s.pendingBuyIns.find? id = some b) (hb : d.pendingBuyIns.find? id = some b) :
    ∃ d', returnReplacedBuyIn d id = .ok d' ∧ d'.tables = s.tables ∧ d'.rooms = s.rooms ∧
      d'.pendingBuyIns = d.pendingBuyIns.remove id := by
  obtain ⟨hamount, htable, -⟩ := h.reservation id b hs
  have hbalance : (d.adjustBalance b.player b.amount).Ensures (fun _ ↦ False) fun d' ↦
      ∃ bal, d' = { d with balances := bal } := by
    refine (adjustBalance_ensures d b.player b.amount (by omega)).mono ?_
    rintro _ ⟨bal, rfl, -⟩
    exact ⟨bal, rfl⟩
  obtain ⟨d₁, hadjust, bal, hd₁⟩ := hbalance.exists_ok
  obtain ⟨d₂, hd₂, ht₂, hr₂, hp₂⟩ := pushPendingBuyExpireOperation_eq (d := d₁) h
    (by rw [hd₁]; exact htables) (by rw [hd₁]; exact hrooms) id htable true
  unfold returnReplacedBuyIn
  rw [Database.pendingBuyInById, orUnableToFind_eq_ok.2 hb, Except.ok_bind, hadjust, Except.ok_bind,
    hd₂, Except.ok_bind]
  rw [hd₁] at ht₂ hr₂ hp₂
  exact ⟨_, rfl, ht₂.trans htables, hr₂.trans hrooms, by dsimp only; rw [hp₂]⟩

/-- The replaced reservations are returned, and nothing else changes. -/
theorem foldlM_returnReplacedBuyIn {s : Database} (h : AllocationOk s) {l : List PendingBuyInId}
    (hnodup : l.Nodup) (hl : ∀ id ∈ l, ∃ b, s.pendingBuyIns.find? id = some b) {d : Database}
    (htables : d.tables = s.tables) (hrooms : d.rooms = s.rooms)
    (hfind : ∀ id ∈ l, d.pendingBuyIns.find? id = s.pendingBuyIns.find? id) :
    ∃ d', l.foldlM returnReplacedBuyIn d = .ok d' ∧ d'.tables = s.tables ∧
      ∀ id, d'.pendingBuyIns.find? id = if id ∈ l then none else d.pendingBuyIns.find? id := by
  induction l generalizing d with
  | nil => exact ⟨d, rfl, htables, fun id ↦ by simp⟩
  | cons i l ih =>
    obtain ⟨hi, hnodup⟩ := List.nodup_cons.1 hnodup
    obtain ⟨b, hb⟩ := hl i List.mem_cons_self
    obtain ⟨d₁, hd₁, ht₁, hr₁, hp₁⟩ := returnReplacedBuyIn_eq h htables hrooms hb
      ((hfind i List.mem_cons_self).trans hb)
    have hfind₁ : ∀ id, d₁.pendingBuyIns.find? id =
        if id = i then none else d.pendingBuyIns.find? id := by
      intro id
      rw [hp₁]
      exact ObjectIndex.find?_remove _ i id
    have hrest : ∀ id ∈ l, d₁.pendingBuyIns.find? id = s.pendingBuyIns.find? id := by
      intro id hid
      have hne : id ≠ i := fun heq ↦ hi (heq ▸ hid)
      rw [hfind₁, if_neg hne]
      exact hfind id (List.mem_cons_of_mem _ hid)
    obtain ⟨d₂, hd₂, ht₂, hp₂⟩ :=
      ih hnodup (fun id hid ↦ hl id (List.mem_cons_of_mem _ hid)) ht₁ hr₁ hrest
    refine ⟨d₂, by rw [List.foldlM_cons, hd₁]; exact hd₂, ht₂, fun id ↦ ?_⟩
    rw [hp₂, hfind₁]
    by_cases hid : id = i
    · simp [hid]
    · simp [hid]

/-- No reservation that waits has expired. The tasks of a block remove the expired ones before the
allocation. -/
def NothingExpired (d : Database) : Prop :=
  ∀ id b, d.pendingBuyIns.find? id = some b → b.isAllocated = false → d.headBlockTime < b.expiration

/-- An object that is not due has its time ahead. -/
theorem lt_of_not_mem_dueBy {α : Type} {x : ObjectIndex α} {time : α → TimePointSec}
    {now : TimePointSec} {p : ℕ × α} (hp : x.find? p.1 = some p.2) (hdue : p ∉ dueBy x time now) :
    now < time p.2 := by
  have hsorted := x.pairwise_orderedBy time
  have hmem : p ∈ x.orderedBy fun a b ↦ time a.2 < time b.2 ∨ (time a.2 = time b.2 ∧ a.1 ≤ b.1) :=
    ObjectIndex.mem_orderedBy.2 hp
  unfold dueBy at hdue
  generalize (x.orderedBy fun a b ↦ time a.2 < time b.2 ∨ (time a.2 = time b.2 ∧ a.1 ≤ b.1)) = l
    at hsorted hmem hdue
  induction l with
  | nil => cases hmem
  | cons a l ih =>
    obtain ⟨ha, hl⟩ := List.pairwise_cons.1 hsorted
    rw [List.takeWhile_cons] at hdue
    by_cases hnow : time a.2 ≤ now
    · rw [if_pos (decide_eq_true hnow), List.mem_cons, not_or] at hdue
      exact ih hl ((List.mem_cons.1 hmem).resolve_left hdue.1) hdue.2
    · rcases List.mem_cons.1 hmem with rfl | hmem
      · exact not_le.1 hnow
      · rcases ha p hmem with hlt | ⟨heq, -⟩
        · exact (not_le.1 hnow).trans hlt
        · exact heq ▸ not_le.1 hnow

/-- **The allocation meets no expired reservation**: the task before it has removed them. -/
theorem updateExpiredPendingBuyIn_nothingExpired {mode : Mode} {d : Database}
    (h : WellFormed mode d) :
    (updateExpiredPendingBuyIn d).Ensures (fun _ ↦ False) NothingExpired := by
  have hloop : (updateExpiredPendingBuyIn d).Ensures (fun _ ↦ False) fun d' ↦
      d'.headBlockTime = d.headBlockTime ∧ ∀ id b, d'.pendingBuyIns.find? id = some b →
        d.pendingBuyIns.find? id = some b ∧
          (id, b) ∉ dueBy d.pendingBuyIns.toObjectIndex (·.expiration) d.headBlockTime := by
    unfold updateExpiredPendingBuyIn
    have hdue := fun p (hp : p ∈ dueBy d.pendingBuyIns.toObjectIndex (·.expiration)
      d.headBlockTime) ↦ find?_of_mem_dueBy hp
    have hnodup := nodup_dueBy d.pendingBuyIns.toObjectIndex (·.expiration) d.headBlockTime
    generalize dueBy d.pendingBuyIns.toObjectIndex (·.expiration) d.headBlockTime = l at hdue hnodup
    induction l generalizing d with
    | nil => exact .pure ⟨rfl, fun id b hb ↦ ⟨hb, List.not_mem_nil⟩⟩
    | cons p l ih =>
      rw [List.map_cons, List.nodup_cons] at hnodup
      rw [List.foldlM_cons]
      refine (expirePendingBuyIn_ensures (fun _ ↦ True) h (hdue p List.mem_cons_self)).bind ?_
      rintro d₁ ⟨hremove, h₁⟩
      have hfind : ∀ id, d₁.pendingBuyIns.find? id =
          if id = p.1 then none else d.pendingBuyIns.find? id := by
        intro id
        rw [hremove]
        exact ObjectIndex.find?_remove _ p.1 id
      -- the others that are due are still there
      have hrest : ∀ q ∈ l, d₁.pendingBuyIns.find? q.1 = some q.2 := by
        intro q hq
        have hne : q.1 ≠ p.1 := fun heq ↦ hnodup.1 (heq ▸ List.mem_map_of_mem hq)
        rw [hfind, if_neg hne]
        exact hdue q (List.mem_cons_of_mem _ hq)
      refine (ih h₁.wf hrest hnodup.2).mono ?_
      rintro d₂ ⟨htime, hd₂⟩
      refine ⟨htime.trans h₁.frame.headBlockTime, fun id b hb ↦ ?_⟩
      obtain ⟨hold, hnot⟩ := hd₂ id b hb
      rw [hfind] at hold
      split_ifs at hold with hid
      refine ⟨hold, ?_⟩
      rw [List.mem_cons, not_or]
      exact ⟨fun heq ↦ hid (congrArg Prod.fst heq), hnot⟩
  refine hloop.mono ?_
  rintro d' ⟨htime, hd'⟩ id b hb -
  obtain ⟨hold, hnot⟩ := hd' id b hb
  rw [htime]
  exact lt_of_not_mem_dueBy (p := (id, b)) hold hnot

/-- The order in which reservations are served. -/
def ServedBefore (a b : PendingBuyInId × PendingBuyInObject) : Prop :=
  a.2.expiration < b.2.expiration ∨ (a.2.expiration = b.2.expiration ∧ a.1 < b.1)

/-- The waiting reservations are served in the order of expiration and id. -/
theorem unallocatedPendingBuyIns_eq {d : Database} (hfresh : NothingExpired d) :
    ∃ waiting : List (PendingBuyInId × PendingBuyInObject),
      unallocatedPendingBuyIns d = waiting.take d.parameters.pendingBuyInAllocatePerBlock ∧
      waiting.Pairwise ServedBefore ∧
      ∀ p, p ∈ waiting ↔ d.pendingBuyIns.find? p.1 = some p.2 ∧ p.2.isAllocated = false ∧
        d.headBlockTime < p.2.expiration := by
  let all := d.pendingBuyIns.orderedBy fun a b ↦ a.2.expiration < b.2.expiration ∨
    (a.2.expiration = b.2.expiration ∧ a.1 ≤ b.1)
  have hmem : ∀ p, p ∈ all.filter (fun p ↦ !p.2.isAllocated) ↔
      d.pendingBuyIns.find? p.1 = some p.2 ∧ p.2.isAllocated = false := by
    intro p
    rw [List.mem_filter, ObjectIndex.mem_orderedBy, Bool.not_eq_true']
  refine ⟨all.filter fun p ↦ !p.2.isAllocated, ?_, List.Pairwise.filter _ ?_, fun p ↦ ?_⟩
  · rw [unallocatedPendingBuyIns, List.takeWhile_eq_self_iff.2]
    intro p hp
    exact decide_eq_true (hfresh p.1 p.2 ((hmem p).1 hp).1 ((hmem p).1 hp).2)
  · have hle := d.pendingBuyIns.pairwise_orderedBy PendingBuyInObject.expiration
    have hne := List.pairwise_map.1 (d.pendingBuyIns.nodup_orderedBy fun a b ↦
      a.2.expiration < b.2.expiration ∨ (a.2.expiration = b.2.expiration ∧ a.1 ≤ b.1))
    refine (hle.and hne).imp fun {a b} hab ↦ ?_
    exact hab.1.imp_right fun h ↦ ⟨h.1, lt_of_le_of_ne h.2 hab.2⟩
  · rw [hmem]
    exact ⟨fun h ↦ ⟨h.1, h.2, hfresh p.1 p.2 h.1 h.2⟩, fun h ↦ ⟨h.1, h.2.1⟩⟩

/-- The allocation serves the first of the waiting reservations, and returns those that are replaced. -/
theorem exists_allocationRun (d : Database)
    (htime : hardforkPlaychain4Time ≤ d.headBlockTime) (hvalid : d.parameters.Valid)
    (hmax : d.parameters.maximumDesiredNumberOfPlayersForTablesAllocation < 2 ^ 32) (hok : AllocationOk d) :
    ∃ s d', AllocationRun (unallocatedPendingBuyIns d) (d, ∅) s ∧ allocationOfVacancies d = .ok d' ∧
      d'.tables = s.1.tables ∧
      ∀ id, d'.pendingBuyIns.find? id = if id ∈ s.2.keys then none else s.1.pendingBuyIns.find? id := by
  have hpos : 0 < d.parameters.maximumDesiredNumberOfPlayersForTablesAllocation :=
    (Nat.zero_le _).trans_lt hvalid.2.2.2.2.2.2.2
  have hready : AllocationReady d (d, ∅) :=
    ⟨hok, fun id hid ↦ absurd hid (by simp), rfl, rfl⟩
  obtain ⟨s, hs, hrun, hready'⟩ := foldlM_allocateVacancy htime hpos hmax
    (nodup_unallocatedPendingBuyIns d) hready fun p hp ↦ waitsForTable_of_mem hp
  obtain ⟨d', hd', htables, hfind⟩ := foldlM_returnReplacedBuyIn hready'.ok s.2.nodup_elements
    (fun id hid ↦ hready'.replaced id (FlatSet.mem_elements.1 hid)) rfl rfl fun _ _ ↦ rfl
  refine ⟨s, d', hrun, ?_, htables, fun id ↦ ?_⟩
  · rw [allocationOfVacancies, hs, Except.ok_bind]
    exact hd'
  · rw [hfind]
    simp only [FlatSet.mem_elements]

/-- **The allocation picks the specified tables.** It serves the waiting reservations in the order of
expiration and id, as many as a block may allocate; each gets its chosen table, or none if no table is
eligible at that moment. In the end the replaced reservations are returned. -/
theorem allocationOfVacancies_run (d : Database)
    (htime : hardforkPlaychain4Time ≤ d.headBlockTime) (hvalid : d.parameters.Valid)
    (hmax : d.parameters.maximumDesiredNumberOfPlayersForTablesAllocation < 2 ^ 32)
    (hok : AllocationOk d) (hfresh : NothingExpired d) :
    ∃ waiting : List (PendingBuyInId × PendingBuyInObject),
      (∀ p, p ∈ waiting ↔ d.pendingBuyIns.find? p.1 = some p.2 ∧ p.2.isAllocated = false ∧
        d.headBlockTime < p.2.expiration) ∧
      waiting.Pairwise ServedBefore ∧
      ∃ s d', AllocationRun (waiting.take d.parameters.pendingBuyInAllocatePerBlock) (d, ∅) s ∧
        allocationOfVacancies d = .ok d' ∧ d'.tables = s.1.tables ∧
        ∀ id, d'.pendingBuyIns.find? id =
          if id ∈ s.2.keys then none else s.1.pendingBuyIns.find? id := by
  obtain ⟨waiting, hserved, hsorted, hmem⟩ := unallocatedPendingBuyIns_eq hfresh
  obtain ⟨s, d', hrun, hrest⟩ := exists_allocationRun d htime hvalid hmax hok
  exact ⟨waiting, hmem, hsorted, s, d', hserved ▸ hrun, hrest⟩

/-- **The allocation of a block.** The block tasks of a state with the invariant end with such a run: what
is over has been removed before it. -/
theorem processBlockTasks_allocates [GameDigest] {d d' : Database} (hd : Sound anyRun d)
    (hvalid : d.parameters.Valid)
    (hmax : d.parameters.maximumDesiredNumberOfPlayersForTablesAllocation < 2 ^ 32) {maintenance : Bool}
    (htasks : processBlockTasks d maintenance = .ok d') :
    ∃ e s, ∃ waiting : List (PendingBuyInId × PendingBuyInObject),
      e.headBlockTime = d.headBlockTime ∧
      (∀ p, p ∈ waiting ↔ e.pendingBuyIns.find? p.1 = some p.2 ∧ p.2.isAllocated = false) ∧
      waiting.Pairwise ServedBefore ∧
      AllocationRun (waiting.take d.parameters.pendingBuyInAllocatePerBlock) (e, ∅) s ∧
      d'.tables = s.1.tables ∧
      ∀ id, d'.pendingBuyIns.find? id =
        if id ∈ s.2.keys then none else s.1.pendingBuyIns.find? id := by
  obtain ⟨d₁, d₂, d₃, d₄, e, hrun⟩ := (processBlockTasks_ensures (E := anyError) hd.wf hd.votes
    (fun hf ↦ hf.elim) (fun _ _ ↦ trivial) (fun _ _ _ _ ↦ trivial) maintenance).of_ok htasks
  obtain ⟨hpass, hfresh, -⟩ := (updateExpirations_passes d₄).of_ok hrun.expirations_eq
  have hfour : d₄.headBlockTime = d.headBlockTime ∧ d₄.parameters = d.parameters := by
    have hsteady := (hrun.scheduled.steady.trans hrun.expired.steady).trans hrun.games.steady
    obtain ⟨invitations, ops, rfl⟩ := hrun.invitations
    exact ⟨hsteady.headBlockTime, hsteady.parameters⟩
  have hparameters : e.parameters = d.parameters := hpass.parameters.trans hfour.2
  have hwf := hrun.expirations.wf
  rw [← hparameters] at hvalid hmax ⊢
  obtain ⟨waiting, hserved, hsorted, hmem⟩ :=
    unallocatedPendingBuyIns_eq (d := e) fun i b hb _ ↦ hpass.headBlockTime ▸ hfresh i b hb
  obtain ⟨s, d'', hs, hd'', htables, hfind⟩ := exists_allocationRun e
    ((show hardforkPlaychain4Time ≤ hardforkPlaychain10Time by decide).trans hwf.time) hvalid hmax hwf.allocationOk
  rw [hserved] at hs
  obtain rfl := Except.ok.inj (hd''.symm.trans hrun.allocation_eq)
  refine ⟨e, s, waiting, hpass.headBlockTime.trans hfour.1, fun p ↦ ?_, hsorted, hs, htables, hfind⟩
  rw [hmem, and_congr_right_iff]
  exact fun hp ↦ and_iff_left (hpass.headBlockTime ▸ hfresh p.1 p.2 hp)

/-- A room with a table, and a reservation that waits for it. -/
def sampleReservation : List Event :=
  [.operation (.roomCreate ⟨6, "url", "room", "1.0.0"⟩),
    .operation (.tableCreate ⟨6, 1, "table", 0, { amount := 1 }⟩),
    .operation (.buyInReserve
      { player := 7
        uid := "first"
        amount := { amount := 10 }
        metadata := "table"
        protocolVersion := "1.0.0" })]

/-- A reservation waits, and none has expired. -/
def WaitsForFirst (d : Database) : Prop :=
  d.parameters.Valid ∧ d.parameters.maximumDesiredNumberOfPlayersForTablesAllocation < 2 ^ 32 ∧
    (d.pendingBuyIns.find? 1).any (fun b ↦ !b.isAllocated) = true ∧
    hardforkPlaychain10Time ≤ d.headBlockTime ∧
    ∀ p ∈ d.pendingBuyIns.toList, d.headBlockTime < p.2.expiration

instance : DecidablePred WaitsForFirst := fun _ ↦ inferInstanceAs (Decidable (_ ∧ _))

/-- On a chain with a waiting reservation the allocation is such a run. -/
theorem allocationOfVacancies_run_waiting :
    ∃ d, @Reachable sampleDigest sampleRating hardforkPlaychain11Time d ∧ WaitsForFirst d ∧
      ∃ (waiting : List (PendingBuyInId × PendingBuyInObject)) (s : _) (d' : Database),
        AllocationRun (waiting.take d.parameters.pendingBuyInAllocatePerBlock) (d, ∅) s ∧
          allocationOfVacancies d = .ok d' ∧ d'.tables = s.1.tables := by
  obtain ⟨d, hd, hwaits⟩ := @exists_reachableIf_of_run hardforkPlaychain11Time sampleDigest
    sampleRating (fun d event ↦ event.SinceHardfork10 d) _ sampleReservation 9 sampleClaimed WaitsForFirst _
    (by decide)
  have hten : hardforkPlaychain10Time ≤ d.headBlockTime := hwaits.2.2.2.1
  have hwf := (@Sound.of_reachable _ _ sampleDigest sampleRating hd).wf
  rw [Database.atHardfork10_eq hten] at hwf
  have hfresh : NothingExpired d := fun id b hb _ ↦
    hwaits.2.2.2.2 (id, b) (ObjectIndex.find?_eq_some_iff.1 hb)
  obtain ⟨waiting, -, -, s, d', hrun, hd', htables, -⟩ := allocationOfVacancies_run d
    (le_trans (by decide) hten) hwaits.1 hwaits.2.1 hwf.allocationOk hfresh
  exact ⟨d, @ReachableIf.mono _ _ sampleDigest sampleRating _ _ (fun _ _ _ ↦ trivial) hd, hwaits, waiting, s, d',
    hrun, hd', htables⟩

end Playchain
