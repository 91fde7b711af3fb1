import Playchain.Spec.Reservations

/-!
# The block tasks on reservations and stays

The tasks that expire and allocate reservations never fail and move no money out of the total. The
allocation keeps the reservations that were replaced aside; they are allocated, but no table proposes
them any more (`Replaced`), so they can be returned in the end.
-/

namespace Playchain

variable {mode : Mode} (busy : TableId → Prop) {d : Database} {E : ChainError → Prop}

/-! ### Objects that are due -/

section Due

variable {α : Type} {x : ObjectIndex α} {time : α → TimePointSec} {now : TimePointSec}

theorem find?_of_mem_dueBy {p : ℕ × α} (h : p ∈ dueBy x time now) : x.find? p.1 = some p.2 :=
  ObjectIndex.mem_orderedBy.1 ((List.takeWhile_subset _) h)

theorem nodup_dueBy (x : ObjectIndex α) (time : α → TimePointSec) (now : TimePointSec) :
    ((dueBy x time now).map Prod.fst).Nodup :=
  (x.nodup_orderedBy _).sublist ((List.takeWhile_sublist _).map Prod.fst)

end Due

/-! ### Expiration -/

theorem pushPendingBuyExpireOperation_ensures (h : WellFormed mode d) {id : PendingBuyInId}
    {b : PendingBuyInObject} (htable : b.isAllocated = true → d.tables.Has b.table)
    (byReplacement : Bool) :
    (pushPendingBuyExpireOperation d id b byReplacement).Ensures E fun d' ↦
      d'.tables = d.tables ∧ d'.pendingBuyIns = d.pendingBuyIns ∧ Transfer mode busy d d' 0 := by
  rw [pushPendingBuyExpireOperation]
  by_cases hb : b.table ≠ nullTable
  · obtain ⟨t, ht⟩ := htable (decide_eq_true hb)
    obtain ⟨owner, howner⟩ := (h.tables _ t ht).tableOwner
    rw [if_pos hb, tableById_of_find? ht, Except.ok_bind, howner, Except.ok_bind]
    have hlog : Transfer mode busy d _ 0 := h.log (.buyInReservingExpire b.player b.uid b.amount
      b.metadata byReplacement b.table owner)
    simp only
    split
    · exact .pure ⟨rfl, rfl, hlog.trans_zero (hlog.wf.modifyMeasurement busy _ _)⟩
    · exact .pure ⟨rfl, rfl, hlog⟩
  · rw [if_neg hb]
    exact .pure ⟨rfl, rfl, h.log _⟩

/-- An expired reservation gives its money back. -/
theorem expirePendingBuyIn_ensures (h : WellFormed mode d)
    {p : PendingBuyInId × PendingBuyInObject} (hb : d.pendingBuyIns.find? p.1 = some p.2) :
    (expirePendingBuyIn d p).Ensures E fun d' ↦
      d'.pendingBuyIns = d.pendingBuyIns.remove p.1 ∧ Transfer mode busy d d' 0 := by
  obtain ⟨-, htable, hres⟩ := h.pendingBuyIns p.1 p.2 hb
  rw [expirePendingBuyIn]
  refine Except.Ensures.bind (Q := fun d₁ ↦ d₁.pendingBuyIns = d.pendingBuyIns ∧
    Unproposed d₁.tables p.1 ∧ Transfer mode busy d d₁ 0) ?_ ?_
  · split_ifs with halloc
    · obtain ⟨obj, hobj⟩ := hres.player (Or.inr halloc)
      rw [getPlayer_of_findKey? hobj, Except.ok_bind]
      refine (withdrawProposal_ensures busy h hb halloc).mono ?_
      rintro _ ⟨tables, rfl, hfree, h₁⟩
      exact ⟨rfl, hfree, h₁⟩
    · exact .pure ⟨rfl, h.unproposed_of_not_allocated hb (Bool.not_eq_true _ ▸ halloc), .refl h⟩
  rintro d₁ ⟨hbuyIns, hfree, h₁⟩
  have hb₁ : d₁.pendingBuyIns.find? p.1 = some p.2 := by
    rw [hbuyIns]
    exact hb
  refine (returnReservation_ensures busy h₁.wf hb₁ hfree _ fun d₂ h₂ htables _ ↦
    pushPendingBuyExpireOperation_ensures busy h₂ (fun halloc ↦ ?_) false).mono ?_
  · rw [htables]
    exact (h₁.wf.pendingBuyIns p.1 p.2 hb₁).2.1 halloc
  · rintro d₂ ⟨-, hbuyIns₂, h₂⟩
    exact ⟨by rw [hbuyIns₂, hbuyIns], h₁.trans_zero h₂⟩

theorem updateExpiredPendingBuyIn_ensures (h : WellFormed mode d) :
    (updateExpiredPendingBuyIn d).Ensures E fun d' ↦ Transfer mode busy d d' 0 := by
  refine Except.Ensures.foldlM_each Prod.fst (fun d' ↦ Transfer mode busy d d' 0)
    (fun b d' ↦ d'.pendingBuyIns.find? b.1 = some b.2) ?_ (nodup_dueBy _ _ _)
    (fun b hb ↦ find?_of_mem_dueBy hb) (.refl h)
  intro b d' h' hb
  refine (expirePendingBuyIn_ensures busy h'.wf hb).mono ?_
  rintro d'' ⟨hbuyIns, h''⟩
  refine ⟨h'.trans_zero h'', fun c hne hc ↦ ?_⟩
  rw [hbuyIns]
  exact (ObjectIndex.find?_remove_of_ne _ hne).trans hc

theorem updateExpiredBuyIn_ensures (h : WellFormed mode d) :
    (updateExpiredBuyIn d).Ensures E fun d' ↦ Transfer mode busy d d' 0 := by
  have hloop : (updateExpiredBuyIn d).Ensures E fun d' ↦
      Transfer mode busy d d' 0 ∧ SameStays d d' := by
    refine Except.Ensures.foldlM (fun d' ↦ Transfer mode busy d d' 0 ∧ SameStays d d') ?_
      ⟨.refl h, .of_eq rfl⟩
    rintro b hb d' ⟨h', hstays⟩
    have hb := find?_of_mem_dueBy hb
    obtain ⟨hp, htable⟩ := h.buyIns b.1 b.2 hb
    obtain ⟨t, ht⟩ := h'.frame.tables.has htable
    rw [tableById_of_find? ht, Except.ok_bind]
    split_ifs with hplaying
    · exact .pure ⟨h'.trans_zero (h'.wf.prolong b.1), hstays.trans (.prolong d' b.1)⟩
    · refine (expireBuyIn_ensures busy h'.wf ht (h'.frame.players.has hp)
        (Bool.not_eq_true _ ▸ hplaying) fun b' hb' ↦ ?_).mono fun _ h'' ↦
        ⟨h'.trans_zero h''.1, hstays.trans h''.2⟩
      obtain ⟨b₀, hb₀, ht₀, hp₀⟩ := hstays b.1 b' hb'
      obtain rfl := Option.some.inj (hb.symm.trans hb₀)
      exact ⟨ht₀.symm, hp₀.symm⟩
  exact hloop.mono fun _ h' ↦ h'.1

theorem updateExpiredTableAlive_ensures (h : WellFormed mode d) :
    (updateExpiredTableAlive d).Ensures E fun d' ↦ Transfer mode busy d d' 0 := by
  refine Except.Ensures.foldlM (fun d' ↦ Transfer mode busy d d' 0) ?_ (.refl h)
  intro a ha d' h'
  have htable := h'.frame.tables.has (h.tableAlives a.1 a.2 (find?_of_mem_dueBy ha))
  have h₁ : Transfer mode busy d' { d' with tableAlives := d'.tableAlives.remove a.1 } 0 :=
    h'.wf.setTableAlives fun _ _ hj ↦
      h'.wf.tableAlives _ _ (ObjectIndex.find?_of_find?_remove hj).2
  exact (setWeight_ensures busy h₁.wf htable).mono fun _ h'' ↦ h'.trans_zero (h₁.trans_zero h'')

/-! ### Allocation -/

theorem addPendingProposal_eq (t : TableObject) (p : PlayerId) (id : PendingBuyInId) :
    ∃ n, (t.addPendingProposal p id).2 =
      { t with pendingProposals := t.pendingProposals.insert p id, occupiedPlaces := n } := by
  rw [TableObject.addPendingProposal]
  rcases t.pendingProposals.find? p with - | old
  · exact ⟨_, rfl⟩
  · exact ⟨_, rfl⟩

/-- A reservation that is returned by `add_pending_proposal` was proposed for the player before. -/
theorem addPendingProposal_replaces {t : TableObject} {p : PlayerId} {id old : PendingBuyInId}
    (h : (t.addPendingProposal p id).1 = old) (hold : old ≠ nullPendingBuyIn) :
    t.pendingProposals.find? p = some old ∧ old ≠ id := by
  rw [TableObject.addPendingProposal] at h
  rcases hp : t.pendingProposals.find? p with - | b
  · rw [hp] at h
    exact absurd h.symm hold
  · rw [hp] at h
    simp only at h
    split_ifs at h with hb
    · exact ⟨by rw [← h], h ▸ hb⟩
    · exact absurd h.symm hold

/-- A reservation that is allocated, but no longer proposed by its table. -/
def Replaced (d : Database) (id : PendingBuyInId) : Prop :=
  (∃ b, d.pendingBuyIns.find? id = some b ∧ b.isAllocated = true) ∧ Unproposed d.tables id

/-- **Allocation.** The reservation gets a table that proposes it; a reservation it replaces is no
longer proposed. -/
theorem WellFormed.allocate (h : WellFormed mode d) {id : PendingBuyInId} {b : PendingBuyInObject}
    {table : TableId} {t : TableObject} (hb : d.pendingBuyIns.find? id = some b)
    (halloc : b.isAllocated = false) (hid : id ≠ nullPendingBuyIn)
    (ht : d.tables.find? table = some t) (htable : table ≠ nullTable) {n : ℕ}
    (hseats : TableObject.SeatsOk { t with
      pendingProposals := t.pendingProposals.insert b.playerInternal id, occupiedPlaces := n })
    {ms : UniqueIndex RoomRatingMeasurementObject.associatedBuyin}
    {m : RoomRatingMeasurementObject} (hm : m.associatedBuyin = id)
    (hms : ms.toObjectIndex = d.roomRatingMeasurements.toObjectIndex.create m) :
    Transfer mode busy d { d with
      tables := d.tables.set table { t with
        pendingProposals := t.pendingProposals.insert b.playerInternal id, occupiedPlaces := n }
      pendingBuyIns := d.pendingBuyIns.modify id fun b ↦ { b with table := table }
      roomRatingMeasurements := ms } 0 := by
  let t' : TableObject :=
    { t with pendingProposals := t.pendingProposals.insert b.playerInternal id, occupiedPlaces := n }
  have hok := h.tables _ t ht
  have hkeep : ObjectIndex.Keeps TableObject.room d.tables (d.tables.set table t') := .set ht rfl
  -- the tables and reservations afterwards
  have htables : ∀ j u, (d.tables.set table t').find? j = some u →
      (j = table ∧ u = t') ∨ d.tables.find? j = some u := by
    intro j u hu
    rw [ObjectIndex.find?_set] at hu
    split_ifs at hu with hj
    · subst hj
      rw [ht] at hu
      exact Or.inl ⟨rfl, (Option.some.inj hu).symm⟩
    · exact Or.inr hu
  have hself : (d.pendingBuyIns.modify id fun b ↦ { b with table := table }).find? id =
      some { b with table := table } := by
    rw [UniqueIndex.toObjectIndex_modify, ObjectIndex.find?_modify, if_pos rfl, hb]
    rfl
  have hother : ∀ j, j ≠ id → (d.pendingBuyIns.modify id fun b ↦ { b with table := table }).find? j =
      d.pendingBuyIns.find? j := fun j hj ↦ ObjectIndex.find?_modify_of_ne _ _ hj
  have hallocated : ({ b with table := table } : PendingBuyInObject).isAllocated = true :=
    decide_eq_true htable
  have hunmeasured : ∀ j m', d.roomRatingMeasurements.find? j = some m' →
      m'.associatedBuyin ≠ id := by
    rintro j m' hm' rfl
    have := (h.measurements j m' hm').2 b hb
    rw [halloc] at this
    cases this
  refine ⟨⟨h.time, ?_, ?_, ?_, ?_, ?_, h.pendingBuyOuts, ?_, ?_, ?_, ?_, ?_, h.rakes⟩, ?_, ?_⟩
  · intro j u hu
    obtain ⟨-, rfl⟩ | hu := htables j u hu
    · exact ⟨hok.room, ⟨hok.cashes.cash, hok.cashes.playingCash⟩, hok.waiting, hok.playing,
        hok.overdrawn, hseats⟩
    · exact h.tables j u hu
  · intro u hu
    obtain ⟨hj, -⟩ | hu := htables _ u hu
    · exact absurd hj.symm htable
    · exact h.nullMetadata u hu
  · intro j u q c hu hq
    have hold : ∀ u', d.tables.find? j = some u' → u'.pendingProposals.find? q = some c →
        ∃ buyIn, (d.pendingBuyIns.modify id fun b ↦ { b with table := table }).find? c =
          some buyIn ∧ buyIn.isAllocated = true ∧ buyIn.table = j ∧ buyIn.playerInternal = q := by
      intro u' hu' hq'
      obtain ⟨buyIn, hbuyIn, hall, hrest⟩ := h.proposals j u' q c hu' hq'
      have hc : c ≠ id := by
        rintro rfl
        rw [hb] at hbuyIn
        rw [← Option.some.inj hbuyIn, halloc] at hall
        cases hall
      exact ⟨buyIn, (hother c hc).trans hbuyIn, hall, hrest⟩
    obtain ⟨rfl, rfl⟩ | hu := htables j u hu
    · change (t.pendingProposals.insert b.playerInternal id).find? q = some c at hq
      rw [FlatMap.find?_insert] at hq
      split_ifs at hq with hqp
      · obtain rfl := Option.some.inj hq
        exact ⟨_, hself, hallocated, rfl, hqp.symm⟩
      · exact hold t ht hq
    · exact hold u hu hq
  · intro j c hc
    by_cases hj : j = id
    · subst hj
      obtain rfl := Option.some.inj (hself.symm.trans hc)
      obtain ⟨h₁, -, h₃⟩ := h.pendingBuyIns _ b hb
      refine ⟨h₁, fun _ ↦ hkeep.has ⟨t, ht⟩, Or.inr ?_⟩
      rcases h₃ with ⟨h0, -⟩ | h₃
      · exact absurd h0 hid
      · exact h₃
    · obtain ⟨h₁, h₂, h₃⟩ := h.pendingBuyIns j c ((hother j hj).symm.trans hc)
      exact ⟨h₁, fun ha ↦ hkeep.has (h₂ ha), h₃⟩
  · intro j m' hm'
    change ms.find? j = some m' at hm'
    rw [hms, ObjectIndex.find?_create] at hm'
    split_ifs at hm'
    · obtain rfl := Option.some.inj hm'
      rw [hm]
      refine ⟨ObjectIndex.lt_nextId_of_find? hself, fun c hc ↦ ?_⟩
      obtain rfl := Option.some.inj (hself.symm.trans hc)
      exact hallocated
    · obtain ⟨h₁, h₂⟩ := h.measurements j m' hm'
      exact ⟨h₁, fun c hc ↦ h₂ c ((hother _ (hunmeasured j m' hm')).symm.trans hc)⟩
  · intro j c hc hend
    obtain ⟨u, hu, hplaying⟩ := h.leaving j c hc hend
    by_cases hj : c.table = table
    · rw [hj, ht] at hu
      refine ⟨t', ?_, (Option.some.inj hu ▸ hplaying : t.isPlaying c.player = true)⟩
      rw [hj]
      exact ObjectIndex.find?_set_self ht t'
    · exact ⟨u, (ObjectIndex.find?_set_of_ne _ _ hj).trans hu, hplaying⟩
  · intro j u hu hend
    obtain ⟨rfl, rfl⟩ | hu := htables j u hu
    · exact h.clock _ t ht hend
    · exact h.clock j u hu hend
  · intro j c hc
    obtain ⟨h₁, h₂⟩ := h.buyIns j c hc
    exact ⟨h₁, hkeep.has h₂⟩
  · intro j u p hu hn hp
    obtain ⟨rfl, rfl⟩ | hu := htables j u hu
    · exact h.stays _ t p ht hn hp
    · exact h.stays j u p hu hn hp
  · intro j a ha
    exact hkeep.has (h.tableAlives j a ha)
  · exact (Frame.setTable busy ht (show t'.room = t.room from rfl) fun _ ↦ rfl).trans
      (.of_eq busy rfl rfl rfl rfl rfl rfl rfl)
  · have hsum : (d.tables.set table t').sum TableObject.funds = d.tables.sum TableObject.funds :=
      ObjectIndex.sum_modify_eq _ fun a ha ↦ by
        rw [ht] at ha
        rw [← Option.some.inj ha]
        rfl
    have hbuyIns : (d.pendingBuyIns.toObjectIndex.modify id fun b ↦ { b with table := table }).sum
        (fun b ↦ b.amount.value) = d.pendingBuyIns.sum fun b ↦ b.amount.value :=
      ObjectIndex.sum_modify_eq _ fun _ _ ↦ rfl
    rw [add_zero]
    exact congrArg₂ (· + ·) (congrArg₂ (· + ·) (congrArg₂ (· + ·) rfl hsum) hbuyIns) rfl

/-- What allocating one reservation does to the others: allocated ones stay as they are, and are
proposed afterwards only if they were before. -/
structure AllocatesOne (id : PendingBuyInId) (d d' : Database) : Prop where
  others : ∀ j, j ≠ id → d'.pendingBuyIns.find? j = d.pendingBuyIns.find? j
  unproposed : ∀ j, j ≠ id → Unproposed d.tables j → Unproposed d'.tables j

theorem allocateTable_ensures (h : WellFormed mode d) {id : PendingBuyInId}
    {b : PendingBuyInObject} {table : TableId} {t : TableObject}
    (hb : d.pendingBuyIns.find? id = some b) (halloc : b.isAllocated = false)
    (hid : id ≠ nullPendingBuyIn) (ht : d.tables.find? table = some t)
    (htable : table ≠ nullTable) :
    (allocateTable d id b table).Ensures E fun r ↦
      Transfer mode busy d r.2 0 ∧ AllocatesOne id d r.2 ∧
        (r.1 ≠ nullPendingBuyIn → r.1 ≠ id ∧ Replaced r.2 r.1) := by
  obtain ⟨obj, hobj⟩ := (h.pendingBuyIns id b hb).2.2.player (Or.inl hid)
  obtain ⟨n, hn⟩ := addPendingProposal_eq t b.playerInternal id
  obtain ⟨room, hroom⟩ := (h.tables _ t ht).room
  have hunmeasured : d.roomRatingMeasurements.findKey? id = none := by
    refine UniqueIndex.findKey?_eq_none_iff.2 fun j m hm hk ↦ ?_
    have := (h.measurements j m hm).2 b (hk ▸ hb)
    rw [halloc] at this
    cases this
  rw [allocateTable, getPlayer_of_findKey? hobj, Except.ok_bind, tableById_of_find? ht,
    Except.ok_bind]
  rcases hadd : t.addPendingProposal b.playerInternal id with ⟨old, t'⟩
  rw [hadd] at hn
  obtain rfl : t' = _ := hn
  have hseats : TableObject.SeatsOk { t with
      pendingProposals := t.pendingProposals.insert b.playerInternal id
      occupiedPlaces := n } := by
    have hseats := (h.tables _ t ht).seats.addPendingProposal (p := b.playerInternal) id
    rw [hadd] at hseats
    exact hseats
  simp only
  rw [Database.roomById, orUnableToFind_eq_ok.2 hroom, Except.ok_bind]
  refine (create?_ensures fun hne ↦ absurd hunmeasured hne).bind ?_
  rintro ms ⟨-, hms⟩
  refine .pure ?_
  have h₁ := h.allocate busy hb halloc hid ht htable hseats rfl hms
  -- a reservation other than the new one is proposed only where it was before
  have hprop : ∀ j, j ≠ id → ∀ k u q,
      (d.tables.set table { t with
        pendingProposals := t.pendingProposals.insert b.playerInternal id
        occupiedPlaces := n }).find? k = some u → u.pendingProposals.find? q = some j →
      ∃ u₀, d.tables.find? k = some u₀ ∧ u₀.pendingProposals.find? q = some j ∧
        ¬(k = table ∧ q = b.playerInternal) := by
    intro j hj k u q hu hq
    rw [ObjectIndex.find?_set] at hu
    split_ifs at hu with hk
    · subst hk
      rw [ht] at hu
      obtain rfl := Option.some.inj hu
      simp only [FlatMap.find?_insert] at hq
      split_ifs at hq with hqp
      · exact absurd (Option.some.inj hq).symm hj
      · exact ⟨t, ht, hq, fun hkq ↦ hqp hkq.2⟩
    · exact ⟨u, hu, hq, fun hkq ↦ hk hkq.1⟩
  refine ⟨h₁.trans_zero (h₁.wf.log _), ⟨fun j hj ↦ ObjectIndex.find?_modify_of_ne _ _ hj, ?_⟩, ?_⟩
  · intro j hj hfree k u q hu hq
    obtain ⟨u₀, hu₀, hq₀, -⟩ := hprop j hj k u q hu hq
    exact hfree k u₀ q hu₀ hq₀
  · intro hold
    obtain ⟨hprev, hne⟩ := addPendingProposal_replaces (congrArg Prod.fst hadd) hold
    obtain ⟨c, hc, hcalloc, hctable, hcplayer⟩ := h.proposals _ t _ _ ht hprev
    refine ⟨hne, ⟨c, (ObjectIndex.find?_modify_of_ne _ _ hne).trans hc, hcalloc⟩, ?_⟩
    intro k u q hu hq
    obtain ⟨u₀, hu₀, hq₀, hkq⟩ := hprop old hne k u q hu hq
    obtain ⟨c', hc', -, hk, hq'⟩ := h.proposals k u₀ q old hu₀ hq₀
    rw [hc] at hc'
    obtain rfl := Option.some.inj hc'
    exact hkq ⟨hk.symm.trans hctable, hq'.symm.trans hcplayer⟩

/-- The conditions of `find_in_range` can be evaluated. -/
theorem isEligible_ensures (h : WellFormed mode d) (b : PendingBuyInObject) {id : TableId}
    {t : TableObject} (ht : d.tables.find? id = some t) :
    (isEligible d b t).Ensures E fun _ ↦ True := by
  obtain ⟨room, hroom⟩ := (h.tables id t ht).room
  simp only [isEligible, roomById_of_find? hroom, Except.ok_bind]
  by_cases hsame : t.minAcceptedProposalAsset.assetId = b.amount.assetId
  · have hlt : b.amount.lt t.minAcceptedProposalAsset =
        .ok (decide (b.amount.amount < t.minAcceptedProposalAsset.amount)) := by
      rw [Asset.lt, Asset.sameAsset, fcAssert_of_true hsame.symm]
      rfl
    simp only [hlt, Except.ok_bind]
    split_ifs <;> exact .pure trivial
  · simp only [ne_eq, hsame, not_false_eq_true, if_true]
    split_ifs <;> exact .pure trivial

/-- The tables of a range have the wanted metadata. -/
theorem mem_createRange {metadata : String} {lo hi : ℕ} {p : TableId × TableObject}
    (h : p ∈ createRange d metadata lo hi) :
    d.tables.find? p.1 = some p.2 ∧ p.2.metadata = metadata := by
  have h₁ := List.mem_filter.1 (List.mem_filter.1 h).1
  exact ⟨ObjectIndex.mem_orderedBy.1 h₁.1, of_decide_eq_true h₁.2⟩

/-- What looking for a table does: nothing, or an allocation. -/
def Allocated (mode : Mode) (busy : TableId → Prop) (id : PendingBuyInId) (d : Database) :
    Option (PendingBuyInId × Database) → Prop
  | none => True
  | some r => Transfer mode busy d r.2 0 ∧ AllocatesOne id d r.2 ∧
      (r.1 ≠ nullPendingBuyIn → r.1 ≠ id ∧ Replaced r.2 r.1)

theorem findInRange_ensures (h : WellFormed mode d) {id : PendingBuyInId} {b : PendingBuyInObject}
    (hb : d.pendingBuyIns.find? id = some b) (halloc : b.isAllocated = false)
    (hid : id ≠ nullPendingBuyIn) (lo hi : ℕ) :
    (findInRange (createRange d b.metadata lo hi) d id b).Ensures E
      (Allocated mode busy id d) := by
  rw [findInRange]
  refine (Except.Ensures.findM? fun p hp ↦
    isEligible_ensures h b (mem_createRange hp).1).bind fun r hr ↦ ?_
  rcases r with - | p
  · exact .pure trivial
  · obtain ⟨ht, hmeta⟩ := mem_createRange (hr p rfl)
    have htable : p.1 ≠ nullTable := by
      intro h0
      rcases (h.pendingBuyIns id b hb).2.2 with ⟨h₁, -⟩ | ⟨h₁, -⟩
      · exact hid h₁
      · exact h₁ (hmeta.symm.trans (h.nullMetadata p.2 (h0 ▸ ht)))
    exact (allocateTable_ensures busy h hb halloc hid ht htable).bind fun r hr ↦ .pure hr

/-- The invariant of the allocation loop: what has been replaced so far can be returned. -/
def AllocationInv (mode : Mode) (busy : TableId → Prop) (d : Database)
    (s : Database × FlatSet PendingBuyInId) : Prop :=
  Transfer mode busy d s.1 0 ∧ ∀ id ∈ s.2.keys, Replaced s.1 id

/-- A reservation that waits for a table. -/
def WaitsForTable (p : PendingBuyInId × PendingBuyInObject) (d : Database) : Prop :=
  d.pendingBuyIns.find? p.1 = some p.2 ∧ p.2.isAllocated = false

theorem AllocatesOne.waits {id : PendingBuyInId} {d d' : Database} (h : AllocatesOne id d d')
    {p : PendingBuyInId × PendingBuyInObject} (hne : p.1 ≠ id) (hp : WaitsForTable p d) :
    WaitsForTable p d' :=
  ⟨(h.others p.1 hne).trans hp.1, hp.2⟩

theorem AllocatesOne.replaced {p : PendingBuyInId × PendingBuyInObject} {d d' : Database}
    (h : AllocatesOne p.1 d d') (hp : WaitsForTable p d) {id : PendingBuyInId}
    (hid : Replaced d id) : Replaced d' id := by
  obtain ⟨⟨b, hb, halloc⟩, hfree⟩ := hid
  have hne : id ≠ p.1 := by
    rintro rfl
    rw [hp.1] at hb
    rw [← Option.some.inj hb, hp.2] at halloc
    cases halloc
  exact ⟨⟨b, (h.others id hne).trans hb, halloc⟩, h.unproposed id hne hfree⟩

theorem allocateVacancy_ensures {s : Database × FlatSet PendingBuyInId}
    (hs : AllocationInv mode busy d s) {p : PendingBuyInId × PendingBuyInObject}
    (hp : WaitsForTable p s.1) :
    (allocateVacancy s p).Ensures E fun s' ↦ AllocationInv mode busy d s' ∧
      ∀ q : PendingBuyInId × PendingBuyInObject, q.1 ≠ p.1 → WaitsForTable q s.1 →
        WaitsForTable q s'.1 := by
  rw [allocateVacancy]
  by_cases hid : p.1 = nullPendingBuyIn
  · rw [if_pos hid]
    exact .pure ⟨hs, fun _ _ hq ↦ hq⟩
  rw [if_neg hid]
  have hrange := fun lo hi ↦ findInRange_ensures (E := E) busy hs.1.wf hp.1 hp.2 hid lo hi
  refine (hrange _ _).bind fun first hfirst ↦ ?_
  refine Except.Ensures.bind (Q := Allocated mode busy p.1 s.1) ?_ fun found hfound ↦ ?_
  · rcases first with - | r
    · exact hrange _ _
    · exact .pure hfirst
  · rcases found with - | ⟨prev, d'⟩
    · exact .pure ⟨hs, fun _ _ hq ↦ hq⟩
    · obtain ⟨htr, hone, hprev⟩ := hfound
      refine .pure ⟨⟨hs.1.trans_zero htr, fun id hid' ↦ ?_⟩, fun q hq hw ↦ hone.waits hq hw⟩
      simp only at hid'
      split_ifs at hid' with hn
      · rw [FlatSet.keys_add, Finset.mem_insert] at hid'
        rcases hid' with rfl | hid'
        · exact (hprev hn).2
        · exact hone.replaced hp (hs.2 id hid')
      · exact hone.replaced hp (hs.2 id hid')

theorem returnReplacedBuyIn_ensures (h : WellFormed mode d) {id : PendingBuyInId}
    (hid : Replaced d id) :
    (returnReplacedBuyIn d id).Ensures E fun d' ↦
      (∀ j, j ≠ id → Replaced d j → Replaced d' j) ∧ Transfer mode busy d d' 0 := by
  obtain ⟨⟨b, hb, -⟩, hfree⟩ := hid
  rw [returnReplacedBuyIn, Database.pendingBuyInById, orUnableToFind_eq_ok.2 hb, Except.ok_bind]
  refine (returnReservation_ensures busy h hb hfree _ fun d₁ h₁ htables _ ↦
    pushPendingBuyExpireOperation_ensures busy h₁ (fun halloc ↦ ?_) true).mono ?_
  · rw [htables]
    exact (h.pendingBuyIns id b hb).2.1 halloc
  · rintro d' ⟨htables, hbuyIns, h'⟩
    refine ⟨?_, h'⟩
    rintro j hj ⟨⟨c, hc, hcalloc⟩, hcfree⟩
    refine ⟨⟨c, ?_, hcalloc⟩, by rw [htables]; exact hcfree⟩
    rw [hbuyIns]
    exact (ObjectIndex.find?_remove_of_ne _ hj).trans hc

/-- The reservations a block looks at wait for a table. -/
theorem waitsForTable_of_mem {p : PendingBuyInId × PendingBuyInObject}
    (h : p ∈ unallocatedPendingBuyIns d) : WaitsForTable p d := by
  have h₁ := List.mem_filter.1 (List.takeWhile_subset _ (List.take_subset _ _ h))
  exact ⟨ObjectIndex.mem_orderedBy.1 h₁.1, by simpa using h₁.2⟩

theorem nodup_unallocatedPendingBuyIns (d : Database) :
    ((unallocatedPendingBuyIns d).map Prod.fst).Nodup :=
  (d.pendingBuyIns.nodup_orderedBy _).sublist
    ((((List.take_sublist _ _).trans (List.takeWhile_sublist _)).trans
      List.filter_sublist).map Prod.fst)

/-- **The allocation does not fail** and moves no money out of the total. -/
theorem allocationOfVacancies_ensures (h : WellFormed mode d) :
    (allocationOfVacancies d).Ensures E fun d' ↦ Transfer mode busy d d' 0 := by
  rw [allocationOfVacancies]
  have hinit : AllocationInv mode busy d (d, ∅) :=
    ⟨.refl h, fun id hid ↦ absurd hid (by simp)⟩
  refine (Except.Ensures.foldlM_each Prod.fst (AllocationInv mode busy d)
    (fun p s ↦ WaitsForTable p s.1) (fun p s hs hp ↦ allocateVacancy_ensures busy hs hp)
    (nodup_unallocatedPendingBuyIns d) (fun p hp ↦ waitsForTable_of_mem hp) hinit).bind ?_
  rintro ⟨d₁, prev⟩ ⟨h₁, hprev⟩
  refine Except.Ensures.foldlM_each (fun id : PendingBuyInId ↦ id) (fun d' ↦ Transfer mode busy d d' 0)
    (fun id d' ↦ Replaced d' id) ?_ ?_ (fun id hid ↦ hprev id (FlatSet.mem_elements.1 hid)) h₁
  · intro id d' h' hid
    refine (returnReplacedBuyIn_ensures busy h'.wf hid).mono ?_
    rintro d'' ⟨hothers, h''⟩
    exact ⟨h'.trans_zero h'', hothers⟩
  · rw [List.map_id']
    exact prev.nodup_elements

end Playchain
