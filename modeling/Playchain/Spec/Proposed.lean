import Playchain.Spec.Safety

/-!
# Reservations and proposals

A reservation is allocated to a table if and only if that table proposes it for its player
(`reservations_agree`). So no reservation waits for the answer of a table that does not know it, and
no table can resolve a reservation twice.

One direction is part of `WellFormed`. For the other one, every function but the allocation only
withdraws proposals, and only of reservations that it removes (`Loses`); the allocation sets aside
the reservations it replaces and removes them in the end (`Agrees` with what is `stale`).
-/

namespace Playchain

variable {mode : Mode} {d d' d'' : Database} {stale stale' lost lost' : PendingBuyInId → Prop}

/-- Allocated reservations are proposed by their tables, except for stale ones. -/
structure Agrees (stale : PendingBuyInId → Prop) (d : Database) : Prop where
  null : ∀ b, d.pendingBuyIns.find? nullPendingBuyIn = some b → b.isAllocated = false
  proposed : ∀ i b, d.pendingBuyIns.find? i = some b → b.isAllocated = true → ¬stale i →
    ∃ t, d.tables.find? b.table = some t ∧ t.pendingProposals.find? b.playerInternal = some i

/-- Nothing is allocated, and only the proposals of reservations that are lost are withdrawn. -/
structure Loses (lost : PendingBuyInId → Prop) (d d' : Database) : Prop where
  pendingBuyIns : ∀ i b, d'.pendingBuyIns.find? i = some b → b.isAllocated = true →
    d.pendingBuyIns.find? i = some b ∧ ¬lost i
  proposals : ∀ j t p i, d.tables.find? j = some t → t.pendingProposals.find? p = some i → ¬lost i →
    ∃ t', d'.tables.find? j = some t' ∧ t'.pendingProposals.find? p = some i

/-- No reservation is stale or lost. -/
abbrev noReservation : PendingBuyInId → Prop := fun _ ↦ False

theorem Agrees.of_loses (h : Agrees stale d) (hl : Loses lost d d')
    (hstale : ∀ i, stale i → ¬lost i → stale' i) : Agrees stale' d' where
  null b hb := by
    cases hb' : b.isAllocated with
    | false => rfl
    | true => exact hb'.symm.trans (h.null b (hl.pendingBuyIns _ b hb hb').1)
  proposed i b hb halloc hi := by
    obtain ⟨hb₀, hlost⟩ := hl.pendingBuyIns i b hb halloc
    obtain ⟨t, ht, hp⟩ := h.proposed i b hb₀ halloc fun hs ↦ hi (hstale i hs hlost)
    exact hl.proposals _ t _ i ht hp hlost

/-- A step that loses nothing. -/
theorem Agrees.step (h : Agrees stale d) (hl : Loses noReservation d d') : Agrees stale d' :=
  h.of_loses hl fun _ hs _ ↦ hs

/-- A table withdraws the proposal of a reservation, which is stale from then on. -/
theorem Agrees.withdraw (h : Agrees noReservation d) {id : PendingBuyInId} {table : TableId}
    {t t' : TableObject} {p : PlayerId} (ht : d.tables.find? table = some t)
    (hp : t.pendingProposals.find? p = some id)
    (ht' : t'.pendingProposals = t.pendingProposals.erase p) :
    Agrees (· = id) { d with tables := d.tables.set table t' } where
  null := h.null
  proposed i b hb halloc hi := by
    obtain ⟨u, hu, hq⟩ := h.proposed i b hb halloc fun hf ↦ hf
    by_cases hj : b.table = table
    · rw [hj] at hu ⊢
      obtain rfl := Option.some.inj (ht.symm.trans hu)
      refine ⟨t', ObjectIndex.find?_set_self ht t', ?_⟩
      rw [ht', FlatMap.find?_erase, if_neg, hq]
      -- the proposal that is withdrawn is that of `id`
      intro heq
      rw [heq, hp] at hq
      exact hi (Option.some.inj hq).symm
    · exact ⟨u, (ObjectIndex.find?_set_of_ne _ _ hj).trans hu, hq⟩

namespace Loses

theorem trans (h : Loses lost d d') (h' : Loses lost' d' d'') :
    Loses (fun i ↦ lost i ∨ lost' i) d d'' where
  pendingBuyIns i b hb halloc := by
    obtain ⟨hb', hlost'⟩ := h'.pendingBuyIns i b hb halloc
    obtain ⟨hb₀, hlost⟩ := h.pendingBuyIns i b hb' halloc
    exact ⟨hb₀, fun hi ↦ hi.elim hlost hlost'⟩
  proposals j t p i ht hp hi := by
    obtain ⟨t', ht', hp'⟩ := h.proposals j t p i ht hp fun hl ↦ hi (.inl hl)
    exact h'.proposals j t' p i ht' hp' fun hl ↦ hi (.inr hl)

theorem congr (h : Loses lost d d') (hlost : ∀ i, lost i ↔ lost' i) : Loses lost' d d' := by
  obtain rfl : lost = lost' := funext fun i ↦ propext (hlost i)
  exact h

/-- Of two steps one of which loses nothing. -/
theorem then_step (h : Loses lost d d') (h' : Loses noReservation d' d'') : Loses lost d d'' :=
  (h.trans h').congr fun _ ↦ or_iff_left fun hf ↦ hf

theorem of_keeps (hb : d'.pendingBuyIns = d.pendingBuyIns)
    (ht : ObjectIndex.Keeps TableObject.pendingProposals d.tables d'.tables) :
    Loses noReservation d d' where
  pendingBuyIns i b h _ := ⟨hb ▸ h, fun hf ↦ hf⟩
  proposals j t p i hj hp _ := by
    obtain ⟨t', ht', heq⟩ := ht j t hj
    exact ⟨t', ht', heq ▸ hp⟩

theorem of_eq (hb : d'.pendingBuyIns = d.pendingBuyIns) (ht : d'.tables = d.tables) :
    Loses noReservation d d' :=
  of_keeps hb (ht ▸ .refl _ _)

theorem refl (d : Database) : Loses noReservation d d := of_eq rfl rfl

/-- What happened before does not matter to reservations. -/
theorem after (h : Loses lost d' d'') (hb : d'.pendingBuyIns = d.pendingBuyIns)
    (ht : d'.tables = d.tables) : Loses lost d d'' where
  pendingBuyIns i b hi halloc := hb ▸ h.pendingBuyIns i b hi halloc
  proposals j t p i hj := h.proposals j t p i (ht.symm ▸ hj)

theorem setTable {table : TableId} {t t' : TableObject} (ht : d.tables.find? table = some t)
    (heq : t'.pendingProposals = t.pendingProposals) :
    Loses noReservation d { d with tables := d.tables.set table t' } :=
  of_keeps rfl (.set ht heq)

theorem createTable (d : Database) (t : TableObject) :
    Loses noReservation d { d with tables := d.tables.create t } :=
  of_keeps rfl (.create _ d.tables t)

theorem of_steady (h : Steady d d') : Loses noReservation d d' := by
  refine of_keeps h.pendingBuyIns fun j t ht ↦ ?_
  have hlabel := h.labels j
  rw [ht] at hlabel
  obtain ⟨t', ht', heq⟩ := Option.map_eq_some_iff.1 hlabel
  exact ⟨t', ht', congrArg (fun l ↦ l.2.2.2) heq⟩

theorem of_maintained (h : Maintained d d') : Loses noReservation d d' := by
  refine of_keeps h.pendingBuyIns fun j t ht ↦ ?_
  obtain ⟨w, hw⟩ := h.tables j t ht
  exact ⟨_, hw, rfl⟩

/-- Removing reservations. -/
theorem removePendingBuyIn (d : Database) (id : PendingBuyInId) :
    Loses (· = id) d { d with pendingBuyIns := d.pendingBuyIns.remove id } where
  pendingBuyIns _ _ hb _ :=
    ⟨(ObjectIndex.find?_of_find?_remove hb).2, (ObjectIndex.find?_of_find?_remove hb).1⟩
  proposals _ t _ _ ht hp _ := ⟨t, ht, hp⟩

end Loses

/-! ### Functions that leave reservations alone -/

theorem modifyTable_loses (d : Database) (table : TableId)
    {body : TableObject → Except ChainError TableObject}
    (hbody : ∀ t t', body t = .ok t' → t'.pendingProposals = t.pendingProposals) :
    (d.modifyTable table body).Ensures anyError (Loses noReservation d) :=
  (orUnableToFind_ensures fun _ _ ↦ trivial).bind fun t ht ↦
    (Except.Ensures.any _).with_eq.bind fun t' h ↦ .pure (.setTable ht (hbody t t' h.1))

theorem adjustCash_pendingProposals {t t' : TableObject} {p : PlayerId} {delta : Asset}
    (h : t.adjustCash p delta = .ok t') : t'.pendingProposals = t.pendingProposals :=
  congrArg (fun l ↦ l.2.2.2) (adjustCash_label h)

theorem adjustBalance_loses (d : Database) (account : AccountId) (delta : Asset) :
    (d.adjustBalance account delta).Ensures anyError (Loses noReservation d) :=
  (show (d.adjustBalance account delta).Ensures anyError (LocalTo nullTable d) from
    adjustBalance_local d account delta).mono fun _ h ↦ .of_steady h.toSteady

theorem setWeight_loses (d : Database) (table : TableId) :
    (setWeight d table).Ensures anyError (Loses noReservation d) := by
  refine (orUnableToFind_ensures fun _ _ ↦ trivial).bind fun t ht ↦ ?_
  split_ifs
  · exact (Except.Ensures.any _).bind fun room _ ↦ .pure (.setTable ht rfl)
  · exact (Except.Ensures.any _).bind fun room _ ↦ .pure (.setTable ht rfl)
  · exact .pure (.setTable ht rfl)

theorem aliveForTable_loses (d : Database) (table : TableId) :
    (aliveForTable d table).Ensures anyError (Loses noReservation d) := by
  refine (Except.Ensures.any _).bind fun t _ ↦ ?_
  dsimp only
  split
  · exact (setWeight_loses _ table).mono fun _ h ↦ h.after rfl rfl
  · refine (Except.Ensures.any _).bind fun alives _ ↦ ?_
    exact (setWeight_loses _ table).mono fun _ h ↦ h.after rfl rfl

theorem registerBuyInAlive_loses (d : Database) (player : PlayerId) (table : TableId) :
    (registerBuyInAlive d player table).Ensures anyError (Loses noReservation d) :=
  (show (registerBuyIn d player table).Ensures anyError (LocalTo table d) from
    registerBuyIn_local d player table).bind fun d₁ h₁ ↦
    (aliveForTable_loses d₁ table).mono fun _ h ↦ (Loses.of_steady h₁.toSteady).then_step h

theorem buyOutTable_loses (d : Database) (player : PlayerId) (table : TableId) (amount : Asset) :
    (buyOutTable d player table amount).Ensures anyError (Loses noReservation d) := by
  refine (Except.Ensures.any _).bind fun t _ ↦ (Except.Ensures.any _).bind fun obj _ ↦
    (Except.Ensures.any _).bind fun allow _ ↦ ?_
  dsimp only
  split_ifs
  · refine (adjustBalance_loses d _ amount).bind fun d₁ h₁ ↦ ?_
    refine (modifyTable_loses d₁ table fun _ _ ↦ adjustCash_pendingProposals).bind fun d₂ h₂ ↦ ?_
    split
    · exact .pure ((h₁.then_step h₂).then_step (.of_eq rfl rfl))
    · exact .pure (h₁.then_step h₂)
  · split
    · exact (Except.Ensures.any _).bind fun _ _ ↦ .pure (.of_eq rfl rfl)
    · exact .pure (.of_eq rfl rfl)
  · split
    · exact .pure (.of_eq rfl rfl)
    · exact .pure (.refl d)

theorem expireBuyIn_loses (d : Database) (id : ℕ) (player : PlayerId) (table : TableId) :
    (expireBuyIn d id player table).Ensures anyError (Loses noReservation d) := by
  refine (Except.Ensures.any _).bind fun obj _ ↦ (Except.Ensures.any _).bind fun t _ ↦ ?_
  refine Except.Ensures.bind (Q := Loses noReservation d) ?_ fun d₁ h₁ ↦
    (Except.Ensures.any _).bind fun t₁ _ ↦ ?_
  · split_ifs
    · exact buyOutTable_loses d player table _
    · exact .pure (.refl d)
  · split_ifs
    · refine Except.Ensures.bind (Q := Loses noReservation d) ?_ fun d₂ h₂ ↦
        .pure (h₂.then_step (.of_eq rfl rfl))
      exact (Except.Ensures.any _).bind fun owner _ ↦ .pure (h₁.then_step (.of_eq rfl rfl))
    · exact .pure (h₁.then_step (.of_eq rfl rfl))
    · exact .pure (h₁.then_step (.of_eq rfl rfl))

theorem updateExpiredBuyIn_loses (d : Database) :
    (updateExpiredBuyIn d).Ensures anyError (Loses noReservation d) := by
  refine Except.Ensures.foldlM (Loses noReservation d) (fun p _ e he ↦ ?_) (.refl d)
  refine (Except.Ensures.any _).bind fun t _ ↦ ?_
  split_ifs
  · exact .pure (he.then_step (.of_eq rfl rfl))
  · exact (expireBuyIn_loses e p.1 p.2.player p.2.table).mono fun _ h ↦ he.then_step h

theorem updateExpiredTableAlive_loses (d : Database) :
    (updateExpiredTableAlive d).Ensures anyError (Loses noReservation d) := by
  refine Except.Ensures.foldlM (Loses noReservation d) (fun p _ e he ↦ ?_) (.refl d)
  exact (setWeight_loses { e with tableAlives := e.tableAlives.remove p.1 } p.2.table).mono
    fun _ h ↦ he.then_step (h.after rfl rfl)

/-! ### Votes -/

theorem collectVotes_loses (d : Database) (table : TableId) (voter : AccountId) (data : VotingData)
    (seconds : ℕ) (substitution : PercentType) (witnesses : FlatSet GameWitnessId) (flag : Bool) :
    (collectVotes d table voter data seconds substitution witnesses flag).Ensures anyError fun s ↦
      Loses noReservation d s.1 := by
  refine (Except.Ensures.any _).bind fun t _ ↦ ?_
  split
  · exact (Except.Ensures.any _).bind fun v _ ↦ (Except.Ensures.any _).bind fun v' _ ↦
      (Except.Ensures.any _).bind fun votings _ ↦ .pure (.of_eq rfl rfl)
  · exact (Except.Ensures.any _).bind fun v' _ ↦ .pure (.of_eq rfl rfl)

theorem drainPendingVote_loses (table : TableId) (isStart : Bool) (seconds : ℕ)
    (substitution : PercentType) (witnesses : FlatSet GameWitnessId) (s : Database × Bool)
    (p : ℕ × PendingTableVoteObject) :
    (drainPendingVote table isStart seconds substitution witnesses s p).Ensures anyError fun s' ↦
      Loses noReservation s.1 s'.1 := by
  have hattempt : (attemptPendingVote table seconds substitution witnesses s p.2.vote).Ensures
      anyError fun s' ↦ Loses noReservation s.1 s'.1 :=
    (Except.Ensures.any _).bind fun _ _ ↦ (Except.Ensures.any _).bind fun _ _ ↦
      (Except.Ensures.any _).bind fun _ _ ↦ collectVotes_loses s.1 table _ _ _ _ _ _
  refine Except.Ensures.bind (Q := fun s' : Database × Bool ↦ Loses noReservation s.1 s'.1) ?_
    fun s' h ↦ .pure (h.then_step (.of_eq rfl rfl))
  split_ifs
  · exact .pure (.of_eq rfl rfl)
  · split
    · rename_i s' hs'
      exact .pure (hattempt.of_ok hs')
    · exact .pure (.of_eq rfl rfl)
    · exact .error trivial

theorem tryVoting_loses (d : Database) (witnesses : FlatSet GameWitnessId) (seconds : ℕ)
    (substitution : PercentType) (op : VoteOperation) :
    (tryVoting d witnesses seconds substitution op).Ensures anyError (Loses noReservation d) := by
  refine (Except.Ensures.any _).bind fun t _ ↦ (Except.Ensures.any _).bind fun opens _ ↦ ?_
  split_ifs
  · exact (Except.Ensures.any _).bind fun votes _ ↦ .pure (.of_eq rfl rfl)
  · refine (collectVotes_loses d _ _ _ _ _ _ _).bind fun s hs ↦ ?_
    refine Except.Ensures.bind (Q := fun s' : Database × Bool ↦ Loses noReservation d s'.1) ?_
      fun s' hs' ↦ ?_
    · refine Except.Ensures.foldlM (fun s' : Database × Bool ↦ Loses noReservation d s'.1)
        (fun p _ s' hs' ↦ ?_) hs
      exact (drainPendingVote_loses _ _ _ _ _ s' p).mono fun _ h ↦ hs'.then_step h
    · refine Except.Ensures.bind (Q := Loses noReservation d) ?_ fun e he ↦
        (aliveForTable_loses e _).mono fun _ h ↦ he.then_step h
      split_ifs
      · refine (Except.Ensures.any _).bind fun v _ ↦ ?_
        split_ifs
        · exact .pure (hs'.then_step (.of_eq rfl rfl))
        · exact .pure hs'
      · exact .pure hs'

/-! ### Reservations that end -/

/-- The money of a reservation goes back, and the reservation is removed. -/
theorem returnMoney_loses (d : Database) (id : PendingBuyInId) (b : PendingBuyInObject)
    (byReplacement : Bool) :
    (do
      let d ← d.adjustBalance b.player b.amount
      let d ← pushPendingBuyExpireOperation d id b byReplacement
      return { d with pendingBuyIns := d.pendingBuyIns.remove id }).Ensures anyError fun d' ↦
        Loses (· = id) d d' := by
  have hpush (e : Database) : (pushPendingBuyExpireOperation e id b byReplacement).Ensures anyError
      (Loses noReservation e) := by
    rw [pushPendingBuyExpireOperation]
    split_ifs
    · refine (Except.Ensures.any _).bind fun t _ ↦ (Except.Ensures.any _).bind fun owner _ ↦ ?_
      dsimp only
      split
      · exact .pure (.of_eq rfl rfl)
      · exact .pure (.of_eq rfl rfl)
    · exact .pure (.of_eq rfl rfl)
  refine (adjustBalance_loses d _ _).bind fun d₁ h₁ ↦ (hpush d₁).bind fun d₂ h₂ ↦ .pure ?_
  exact ((h₁.then_step h₂).trans (.removePendingBuyIn d₂ id)).congr fun _ ↦ or_iff_right fun hf ↦ hf

theorem removePendingProposal_pendingProposals (t : TableObject) (p : PlayerId) :
    (t.removePendingProposal p).pendingProposals = t.pendingProposals.erase p := by
  obtain ⟨n, hn⟩ := removePendingProposal_eq t p
  rw [hn]

/-- The proposal of an allocated reservation is withdrawn. -/
theorem withdrawProposal_agrees (h : Agrees noReservation d) {id : PendingBuyInId}
    {b : PendingBuyInObject} (hb : d.pendingBuyIns.find? id = some b)
    (halloc : b.isAllocated = true) :
    (d.modifyTable b.table fun t ↦ return t.removePendingProposal b.playerInternal).Ensures anyError
      (Agrees (· = id)) := by
  obtain ⟨t, ht, hp⟩ := h.proposed id b hb halloc fun hf ↦ hf
  rw [Database.modifyTable, tableById_of_find? ht]
  exact .pure (h.withdraw ht hp (removePendingProposal_pendingProposals t _))

/-- A reservation that ends leaves no trace. -/
theorem Agrees.remove {id : PendingBuyInId} (h : Agrees (· = id) d) (hl : Loses (· = id) d d') :
    Agrees noReservation d' :=
  h.of_loses hl fun _ hi hlost ↦ hlost hi

theorem Agrees.stale_of_not_allocated (h : Agrees noReservation d) (id : PendingBuyInId) :
    Agrees (· = id) d :=
  ⟨h.null, fun i b hb halloc _ ↦ h.proposed i b hb halloc fun hf ↦ hf⟩

theorem expirePendingBuyIn_agrees (hwf : WellFormed mode d) (h : Agrees noReservation d)
    {p : PendingBuyInId × PendingBuyInObject} (hb : d.pendingBuyIns.find? p.1 = some p.2) :
    (expirePendingBuyIn d p).Ensures anyError (Agrees noReservation) := by
  refine Except.Ensures.bind (Q := Agrees (· = p.1)) ?_ fun d₁ h₁ ↦
    (returnMoney_loses d₁ p.1 p.2 false).mono fun _ hl ↦ h₁.remove hl
  split_ifs with halloc
  · obtain ⟨obj, hobj⟩ := (hwf.pendingBuyIns p.1 p.2 hb).2.2.player (.inr halloc)
    rw [getPlayer_of_findKey? hobj, Except.ok_bind]
    exact withdrawProposal_agrees h hb halloc
  · exact .pure (h.stale_of_not_allocated p.1)

theorem cancelPendingBuyin_agrees (hwf : WellFormed mode d) (h : Agrees noReservation d)
    {id : PendingBuyInId} {b : PendingBuyInObject} (hb : d.pendingBuyIns.find? id = some b) :
    (cancelPendingBuyin d id b).Ensures anyError (Agrees noReservation) := by
  refine Except.Ensures.bind (Q := Agrees (· = id)) ?_ fun d₁ h₁ ↦
    (adjustBalance_loses d₁ _ _).bind fun d₂ h₂ ↦
      .pure ((h₁.step h₂).remove (.removePendingBuyIn d₂ id))
  split_ifs with halloc
  · obtain ⟨obj, hobj⟩ := (hwf.pendingBuyIns id b hb).2.2.player (.inr halloc)
    rw [getPlayer_of_findKey? hobj, Except.ok_bind]
    dsimp only
    split
    · rename_i m _
      exact withdrawProposal_agrees (d := { d with
        roomRatingMeasurements := d.roomRatingMeasurements.remove m.1 }) ⟨h.null, h.proposed⟩ hb halloc
    · exact withdrawProposal_agrees h hb halloc
  · exact .pure (h.stale_of_not_allocated id)

theorem applyBuyInReservingCancelAll_agrees (hwf : WellFormed mode d) (h : Agrees noReservation d)
    (op : BuyInReservingCancelAll) :
    (applyBuyInReservingCancelAll d op).Ensures anyError (Agrees noReservation) := by
  have hnd : ((pendingBuyInsOf d op.player).map Prod.fst).Nodup :=
    d.pendingBuyIns.objects.nodup_fst.sublist ((List.filter_sublist).map Prod.fst)
  refine (Except.Ensures.foldlM_each Prod.fst (fun e ↦ WellFormed mode e ∧ Agrees noReservation e)
    (fun b e ↦ e.pendingBuyIns.find? b.1 = some b.2) ?_ hnd (fun b hb ↦ ?_) ⟨hwf, h⟩).mono
      fun _ he ↦ he.2
  · intro b e he hb
    refine ((cancelPendingBuyin_agrees he.1 he.2 hb).and
      (cancelPendingBuyin_ensures idle he.1 hb)).mono ?_
    rintro e' ⟨hagrees, hbuyIns, htransfer⟩
    refine ⟨⟨htransfer.wf, hagrees⟩, fun c hne hc ↦ ?_⟩
    rw [hbuyIns]
    exact (ObjectIndex.find?_remove_of_ne _ hne).trans hc
  · exact ObjectIndex.find?_eq_some_iff.2 (List.mem_of_mem_filter hb)

theorem updateExpiredPendingBuyIn_agrees (hwf : WellFormed mode d) (h : Agrees noReservation d) :
    (updateExpiredPendingBuyIn d).Ensures anyError (Agrees noReservation) := by
  refine (Except.Ensures.foldlM_each Prod.fst (fun e ↦ WellFormed mode e ∧ Agrees noReservation e)
    (fun b e ↦ e.pendingBuyIns.find? b.1 = some b.2) ?_ (nodup_dueBy _ _ _)
    (fun b hb ↦ find?_of_mem_dueBy hb) ⟨hwf, h⟩).mono fun _ he ↦ he.2
  intro b e he hb
  refine ((expirePendingBuyIn_agrees he.1 he.2 hb).and
    (expirePendingBuyIn_ensures idle he.1 hb)).mono ?_
  rintro e' ⟨hagrees, hbuyIns, htransfer⟩
  refine ⟨⟨htransfer.wf, hagrees⟩, fun c hne hc ↦ ?_⟩
  rw [hbuyIns]
  exact (ObjectIndex.find?_remove_of_ne _ hne).trans hc

/-- The reservation that is resolved is the one that the table proposes for the player. -/
theorem applyBuyInReservingResolve_agrees (hwf : WellFormed mode d) (h : Agrees noReservation d)
    {op : BuyInReservingResolve} {t : TableObject} {b : PendingBuyInObject}
    (ht : d.tables.find? op.table = some t) (hb : d.pendingBuyIns.find? op.pendingBuyin = some b)
    (hprop : t.pendingProposals.find? b.playerInternal = some op.pendingBuyin) :
    (applyBuyInReservingResolve d op).Ensures anyError (Agrees noReservation) := by
  obtain ⟨b', hb', halloc, -, -⟩ := hwf.proposals _ t _ _ ht hprop
  obtain rfl := Option.some.inj (hb.symm.trans hb')
  obtain ⟨obj, hobj⟩ := (hwf.pendingBuyIns _ b hb).2.2.player (.inr halloc)
  have hrest (e : Database) (he : Agrees noReservation e) (hte : e.tables = d.tables) :
      (do
        let e ← e.modifyTable op.table fun t ↦
          (t.removePendingProposal b.playerInternal).adjustCash b.playerInternal b.amount
        registerBuyInAlive { e with pendingBuyIns := e.pendingBuyIns.remove op.pendingBuyin }
          b.playerInternal op.table).Ensures anyError (Agrees noReservation) := by
    have hte' : e.tables.find? op.table = some t := hte.symm ▸ ht
    refine Except.Ensures.bind (Q := Agrees (· = op.pendingBuyin)) ?_ fun e₁ h₁ ↦ ?_
    · rw [Database.modifyTable, tableById_of_find? hte', Except.ok_bind]
      refine (Except.Ensures.any _).with_eq.bind fun t' ht' ↦ .pure ?_
      refine he.withdraw hte' hprop ((adjustCash_pendingProposals ht'.1).trans ?_)
      exact removePendingProposal_pendingProposals t _
    · exact (registerBuyInAlive_loses _ _ _).mono fun _ h₂ ↦
        (h₁.remove (.removePendingBuyIn e₁ _)).step h₂
  rw [applyBuyInReservingResolve, Database.pendingBuyInById, orUnableToFind_eq_ok.2 hb,
    Except.ok_bind, getPlayer_of_findKey? hobj, Except.ok_bind]
  dsimp only
  split
  · exact hrest _ ⟨h.null, h.proposed⟩ rfl
  · exact hrest d h rfl

/-! ### Allocation -/

theorem addPendingProposal_find?_self (t : TableObject) (p : PlayerId) (id : PendingBuyInId) :
    (t.addPendingProposal p id).2.pendingProposals.find? p = some id := by
  obtain ⟨n, hn⟩ := addPendingProposal_eq t p id
  rw [hn]
  exact (FlatMap.find?_insert _ _ _ _).trans (if_pos rfl)

/-- A proposal is kept or replaced. -/
theorem addPendingProposal_keeps {t : TableObject} {p q : PlayerId} {id i : PendingBuyInId}
    (hi : t.pendingProposals.find? q = some i) (hne : i ≠ id) :
    (t.addPendingProposal p id).2.pendingProposals.find? q = some i ∨
      (t.addPendingProposal p id).1 = i := by
  by_cases hq : q = p
  · rw [hq] at hi
    rw [TableObject.addPendingProposal, hi]
    exact .inr (if_pos hne)
  · obtain ⟨n, hn⟩ := addPendingProposal_eq t p id
    rw [hn]
    exact .inl ((FlatMap.find?_insert _ _ _ _).trans ((if_neg hq).trans hi))

/-- **Allocating a reservation** makes at most the reservation stale that it replaces. -/
theorem allocateTable_agrees (hwf : WellFormed mode d) (h : Agrees stale d) {id : PendingBuyInId}
    {b : PendingBuyInObject} (hb : d.pendingBuyIns.find? id = some b)
    (hid : id ≠ nullPendingBuyIn) (table : TableId) :
    (allocateTable d id b table).Ensures anyError fun r ↦
      Agrees (fun i ↦ stale i ∨ (r.1 ≠ nullPendingBuyIn ∧ i = r.1)) r.2 := by
  obtain ⟨obj, hobj⟩ := (hwf.pendingBuyIns id b hb).2.2.player (.inl hid)
  rw [allocateTable, getPlayer_of_findKey? hobj, Except.ok_bind]
  refine (orUnableToFind_ensures fun _ _ ↦ trivial).bind fun t ht ↦ ?_
  refine (Except.Ensures.any _).bind fun room _ ↦ (Except.Ensures.any _).bind fun ms _ ↦ .pure ?_
  have hmodify (i : PendingBuyInId) :
      (d.pendingBuyIns.toObjectIndex.modify id fun b ↦ { b with table := table }).find? i =
        if i = id then (d.pendingBuyIns.find? i).map fun b ↦ { b with table := table }
        else d.pendingBuyIns.find? i := ObjectIndex.find?_modify _ _ _ _
  refine ⟨fun c hc ↦ ?_, fun i c hc halloc hi ↦ ?_⟩
  · change (d.pendingBuyIns.toObjectIndex.modify id _).find? _ = some c at hc
    rw [hmodify, if_neg (Ne.symm hid)] at hc
    exact h.null c hc
  · change (d.pendingBuyIns.toObjectIndex.modify id _).find? i = some c at hc
    change ∃ u, (d.tables.set table _).find? c.table = some u ∧ _
    rw [hmodify] at hc
    split_ifs at hc with heq
    -- the reservation itself
    · rw [heq, hb] at hc
      obtain rfl := Option.some.inj hc
      refine ⟨_, ObjectIndex.find?_set_self ht _, ?_⟩
      rw [heq]
      exact addPendingProposal_find?_self t _ id
    · obtain ⟨u, hu, hp⟩ := h.proposed i c hc halloc fun hs ↦ hi (.inl hs)
      by_cases hj : c.table = table
      · rw [hj] at hu ⊢
        obtain rfl := Option.some.inj (ht.symm.trans hu)
        refine ⟨_, ObjectIndex.find?_set_self ht _, ?_⟩
        have hnull : i ≠ nullPendingBuyIn := by
          rintro rfl
          exact Bool.false_ne_true ((h.null c hc).symm.trans halloc)
        obtain hkept | hreplaced :=
          addPendingProposal_keeps (p := b.playerInternal) hp heq
        · exact hkept
        · exact absurd (.inr ⟨hreplaced.symm ▸ hnull, hreplaced.symm⟩) hi
      · exact ⟨u, (ObjectIndex.find?_set_of_ne _ _ hj).trans hu, hp⟩

/-- The state of the allocation loop: what has been replaced is kept aside. -/
def AllocationAgrees (s : Database × FlatSet PendingBuyInId) : Prop :=
  Agrees (· ∈ s.2.keys) s.1

/-- What a search for a table leaves. -/
def FoundAgrees (stale : PendingBuyInId → Prop) : Option (PendingBuyInId × Database) → Prop
  | none => True
  | some r => Agrees (fun i ↦ stale i ∨ (r.1 ≠ nullPendingBuyIn ∧ i = r.1)) r.2

theorem findInRange_agrees (hwf : WellFormed mode d) (h : Agrees stale d) {id : PendingBuyInId}
    {b : PendingBuyInObject} (hb : d.pendingBuyIns.find? id = some b)
    (hid : id ≠ nullPendingBuyIn) (range : List (TableId × TableObject)) :
    (findInRange range d id b).Ensures anyError (FoundAgrees stale) := by
  refine (Except.Ensures.any _).bind fun p _ ↦ ?_
  cases p with
  | none => exact .pure trivial
  | some p => exact (allocateTable_agrees hwf h hb hid p.1).bind fun r hr ↦ .pure hr

theorem allocateVacancy_agrees {s : Database × FlatSet PendingBuyInId} (hwf : WellFormed mode s.1)
    (h : AllocationAgrees s) {p : PendingBuyInId × PendingBuyInObject}
    (hb : s.1.pendingBuyIns.find? p.1 = some p.2) :
    (allocateVacancy s p).Ensures anyError AllocationAgrees := by
  rw [allocateVacancy]
  split_ifs with hid
  · exact .pure h
  have hrange := findInRange_agrees hwf h hb hid
  refine (hrange _).bind fun first hfirst ↦ ?_
  refine Except.Ensures.bind (Q := FoundAgrees (· ∈ s.2.keys)) ?_ fun found hfound ↦ ?_
  · cases first with
    | none => exact hrange _
    | some r => exact .pure hfirst
  · cases found with
    | none => exact .pure h
    | some r =>
      refine .pure ⟨hfound.null, fun i b hi halloc hstale ↦ hfound.proposed i b hi halloc ?_⟩
      rintro (hmem | ⟨hnull, rfl⟩)
      · refine hstale ?_
        dsimp only
        split_ifs
        · rw [FlatSet.keys_add]
          exact Finset.mem_insert_of_mem hmem
        · exact hmem
      · refine hstale ?_
        dsimp only
        rw [if_pos hnull, FlatSet.keys_add]
        exact Finset.mem_insert_self _ _

/-- **After the allocation** the reservations that were replaced are gone. -/
theorem allocationOfVacancies_agrees (hwf : WellFormed mode d) (h : Agrees noReservation d) :
    (allocationOfVacancies d).Ensures anyError (Agrees noReservation) := by
  have hinit : AllocationInv mode idle d (d, ∅) ∧ AllocationAgrees (d, ∅) :=
    ⟨⟨.refl hwf, fun id hid ↦ absurd hid (by simp)⟩,
      h.null, fun i b hb halloc _ ↦ h.proposed i b hb halloc fun hf ↦ hf⟩
  refine (Except.Ensures.foldlM_each Prod.fst
    (fun s ↦ AllocationInv mode idle d s ∧ AllocationAgrees s) (fun p s ↦ WaitsForTable p s.1)
    (fun p s hs hp ↦ ((allocateVacancy_ensures idle hs.1 hp).and
      (allocateVacancy_agrees hs.1.1.wf hs.2 hp.1)).mono fun _ h ↦ ⟨⟨h.1.1, h.2⟩, h.1.2⟩)
    (nodup_unallocatedPendingBuyIns d) (fun p hp ↦ waitsForTable_of_mem hp) hinit).bind ?_
  rintro ⟨d₁, prev⟩ ⟨-, h₁⟩
  -- the loop over the set returns one stale reservation after the other
  refine (Except.Ensures.foldlM_suffix
    (fun (l : List PendingBuyInId) e ↦ Agrees (· ∈ l) e) (fun id l e he ↦ ?_)
    (⟨h₁.null, fun i b hb halloc hi ↦ h₁.proposed i b hb halloc fun hmem ↦
      hi (FlatSet.mem_elements.2 hmem)⟩ : Agrees (· ∈ prev.elements) d₁)).mono fun e he ↦ ?_
  · refine (Except.Ensures.any _).bind fun b _ ↦ (returnMoney_loses e id b true).mono fun _ hl ↦ ?_
    refine he.of_loses hl fun i hi hne ↦ ?_
    exact (List.mem_cons.1 hi).resolve_left hne
  · exact ⟨he.null, fun i b hb halloc _ ↦ he.proposed i b hb halloc (List.not_mem_nil)⟩

/-! ### Whole events -/

theorem createPlayer_loses (d : Database) (account : AccountId) (inviter : PlayerId) :
    (createPlayer d account inviter).Ensures anyError (Loses noReservation d) :=
  (Except.Ensures.any _).bind fun _ _ ↦ (Except.Ensures.any _).bind fun _ _ ↦ .pure (.of_eq rfl rfl)

/-- A new reservation is not allocated. -/
theorem applyBuyInReserve_loses (d : Database) (op : BuyInReserve) :
    (applyBuyInReserve d op).Ensures anyError (Loses noReservation d) := by
  refine (Except.Ensures.any _).bind fun _ _ ↦ (Except.Ensures.any _).bind fun player _ ↦
    (Except.Ensures.any _).bind fun version _ ↦ (adjustBalance_loses d _ _).bind fun d₁ h₁ ↦ ?_
  refine (create?_ensures fun _ _ ↦ trivial).bind ?_
  rintro buyIns ⟨-, hbuyIns⟩
  refine .pure (h₁.then_step ?_)
  refine ⟨fun i b hb halloc ↦ ?_, fun j t p i ht hp _ ↦ ⟨t, ht, hp⟩⟩
  change buyIns.find? i = some b at hb
  rw [hbuyIns, ObjectIndex.find?_create] at hb
  split_ifs at hb
  · rw [← Option.some.inj hb] at halloc
    cases halloc
  · exact ⟨hb, fun hf ↦ hf⟩

/-- The operations that are not about reservations. -/
theorem performOperation_loses [GameDigest] (htime : hardforkPlaychain10Time ≤ d.headBlockTime)
    (op : Operation) (hcancel : ∀ o, op ≠ .buyInReservingCancel o)
    (hall : ∀ o, op ≠ .buyInReservingCancelAll o) (hresolve : ∀ o, op ≠ .buyInReservingResolve o) :
    (performOperation d op).Ensures anyError (Loses noReservation d) := by
  have hv2 : hardforkPlaychain8Time ≤ d.headBlockTime :=
    (show hardforkPlaychain8Time ≤ hardforkPlaychain10Time by decide).trans htime
  cases op with
  | playerCreateByRoomOwner op => exact createPlayer_loses d _ _
  | playerInvitationCreate op => exact (Except.Ensures.any _).bind fun _ _ ↦ .pure (.of_eq rfl rfl)
  | playerInvitationCancel op => exact (Except.Ensures.any _).bind fun _ _ ↦ .pure (.of_eq rfl rfl)
  | playerInvitationResolve op =>
    refine (createPlayer_loses { d with accounts := d.accounts + 1 } _ _).bind fun d₁ h₁ ↦ ?_
    exact (Except.Ensures.any _).bind fun _ _ ↦
      .pure ((Loses.after (d := d) h₁ rfl rfl).then_step (.of_eq rfl rfl))
  | roomCreate op =>
    refine (Except.Ensures.any _).bind fun _ _ ↦ (Except.Ensures.any _).bind fun _ _ ↦ ?_
    refine Except.Ensures.bind (Q := Loses noReservation d) ?_ fun d₁ h₁ ↦
      (Except.Ensures.any _).bind fun _ _ ↦ (Except.Ensures.any _).bind fun _ _ ↦
        .pure (h₁.then_step (.of_eq rfl rfl))
    rw [registerGameWitness]
    split
    · exact .pure (.refl d)
    · exact (Except.Ensures.any _).bind fun _ _ ↦ .pure (.of_eq rfl rfl)
  | roomUpdate op =>
    exact (Except.Ensures.any _).bind fun _ _ ↦ (Except.Ensures.any _).bind fun _ _ ↦
      (Except.Ensures.any _).bind fun _ _ ↦ .pure (.of_eq rfl rfl)
  | tableCreate op =>
    refine (Except.Ensures.any _).bind fun _ _ ↦ (setWeight_loses _ _).mono fun _ h ↦ ?_
    exact (Loses.createTable d _).then_step h
  | tableUpdate op =>
    exact modifyTable_loses d _ fun t t' h ↦ by rw [← Except.pure_eq_ok.1 h]
  | tablesAlive op =>
    exact Except.Ensures.foldlM (Loses noReservation d)
      (fun table _ e he ↦ (aliveForTable_loses e table).mono fun _ h ↦ he.then_step h) (.refl d)
  | buyInTable op =>
    refine (Except.Ensures.any _).bind fun player _ ↦ (adjustBalance_loses d _ _).bind fun d₁ h₁ ↦ ?_
    refine (modifyTable_loses d₁ _ fun _ _ ↦ adjustCash_pendingProposals).bind fun d₂ h₂ ↦ ?_
    exact (registerBuyInAlive_loses d₂ _ _).mono fun _ h₃ ↦ (h₁.then_step h₂).then_step h₃
  | buyOutTable op => exact (Except.Ensures.any _).bind fun player _ ↦ buyOutTable_loses d _ _ _
  | buyInReserve op => exact applyBuyInReserve_loses d op
  | buyInReservingCancel op => exact absurd rfl (hcancel op)
  | buyInReservingCancelAll op => exact absurd rfl (hall op)
  | buyInReservingResolve op => exact absurd rfl (hresolve op)
  | gameStartPlayingCheck op =>
    rw [performOperation, if_pos hv2]
    exact tryVoting_loses d _ _ _ _
  | gameResultCheck op =>
    rw [performOperation, if_pos hv2]
    exact (Except.Ensures.any _).bind fun t _ ↦ tryVoting_loses d _ _ _ _
  | gameReset op =>
    refine (rollback_local d op.table op.rollbackTable).bind fun d₁ h₁ ↦ ?_
    have h₁ := Loses.of_steady h₁.toSteady
    dsimp only
    split_ifs
    · have h₂ := Loses.of_steady (cleanupVoting_local d₁ op.table).toSteady
      exact (aliveForTable_loses _ _).mono fun _ h ↦ (h₁.then_step h₂).then_step h
    · exact (aliveForTable_loses _ _).mono fun _ h ↦ h₁.then_step h

theorem applyOperation_agrees [GameDigest] (hwf : WellFormed mode d) (h : Agrees noReservation d)
    (op : Operation) : (applyOperation d op).Ensures anyError (Agrees noReservation) := by
  refine (Except.Ensures.any _).bind fun _ _ ↦ ?_
  cases op with
  | buyInReservingCancel op =>
    refine (Except.Ensures.any _).bind fun _ _ ↦ (orMissing_ensures fun _ ↦ trivial).bind fun b hb ↦ ?_
    exact cancelPendingBuyin_agrees hwf h (UniqueIndex.findKey?_eq_some_iff.1 hb).1
  | buyInReservingCancelAll op =>
    exact (Except.Ensures.any _).bind fun _ _ ↦ applyBuyInReservingCancelAll_agrees hwf h op
  | buyInReservingResolve op =>
    refine (evaluateBuyInReservingResolve_ensures hwf ⟨fun _ ↦ trivial, trivial⟩ op).bind ?_
    rintro _ ⟨t, b, ht, hb, hprop⟩
    exact applyBuyInReservingResolve_agrees hwf h ht hb hprop
  | _ =>
    exact (Except.Ensures.any _).bind fun _ _ ↦
      (performOperation_loses hwf.time _ (by simp) (by simp) (by simp)).mono fun _ hl ↦ h.step hl

theorem updateExpirations_agrees (hwf : WellFormed mode d) (h : Agrees noReservation d) :
    (updateExpirations d).Ensures anyError (Agrees noReservation) := by
  refine ((updateExpiredPendingBuyIn_ensures idle hwf).and
    (updateExpiredPendingBuyIn_agrees hwf h)).bind ?_
  rintro d₁ ⟨h₁, hagrees₁⟩
  refine ((updateExpiredBuyIn_ensures idle h₁.wf).and (updateExpiredBuyIn_loses d₁)).bind ?_
  rintro d₂ ⟨h₂, hl₂⟩
  exact (updateExpiredTableAlive_loses d₂).mono fun _ hl₃ ↦ (hagrees₁.step hl₂).step hl₃

theorem processBlockTasks_agrees [GameDigest] (hd : Sound anyRun d) (h : Agrees noReservation d)
    (maintenance : Bool) :
    (processBlockTasks d maintenance).Ensures anyError (Agrees noReservation) := by
  refine (processBlockTasks_ensures hd.wf hd.votes (fun hf ↦ hf.elim) (fun _ _ ↦ trivial)
    (fun _ _ _ _ ↦ trivial) maintenance).mono ?_
  rintro d' ⟨d₁, d₂, d₃, d₄, d₅, hrun⟩
  have h₁ : Agrees noReservation d₁ := by
    obtain ⟨invitations, ops, rfl⟩ := hrun.invitations
    exact ⟨h.null, h.proposed⟩
  have h₄ := h₁.step (.of_steady
    ((hrun.scheduled.steady.trans hrun.expired.steady).trans hrun.games.steady))
  have h₅ := (updateExpirations_agrees hrun.games.transfer.wf h₄).of_ok hrun.expirations_eq
  exact (allocationOfVacancies_agrees hrun.expirations.wf h₅).of_ok hrun.allocation_eq

section Runs

variable [GameDigest] [RatingFunctions] {time : TimePointSec}

/-- Reservations and proposals agree in every state of a chain under the rules since the tenth hard
fork. -/
theorem Agrees.of_reachable (h : ReachableSince10 time d) : Agrees noReservation d := by
  have hboth : Sound anyRun d.atHardfork10 ∧ Agrees noReservation d := by
    refine h.invariant (I := fun d ↦ Sound anyRun d.atHardfork10 ∧ Agrees noReservation d)
      (fun accounts claimed d₀ hd₀ ↦ ⟨.genesis hd₀, ?_⟩) fun e e' event he hsince hevent ↦ ?_
    · obtain ⟨players, balances, rfl⟩ := initGenesis_eq hd₀
      have hnull (i : PendingBuyInId) (b : PendingBuyInObject)
          (hb : (nullDatabase time accounts).pendingBuyIns.find? i = some b) :
          b.isAllocated = false := by
        rw [(nullDatabase_pendingBuyIn time accounts hb).2]
        rfl
      exact ⟨fun b hb ↦ hnull _ b hb, fun i b hb halloc ↦
        absurd (halloc.symm.trans (hnull i b hb)) (by decide)⟩
    · refine ⟨he.1.run_atHardfork10 hsince (fun hf ↦ hf.elim) (fun hf ↦ hf.elim) hevent, ?_⟩
      have hsound (htime : hardforkPlaychain10Time ≤ e.headBlockTime) : Sound anyRun e :=
        Database.atHardfork10_eq htime ▸ he.1
      cases event with
      | operation op => exact (applyOperation_agrees (hsound hsince).wf he.2 op).of_ok hevent
      | headBlock time =>
        obtain ⟨-, -, rfl⟩ := Event.headBlock_eq_ok hevent
        exact ⟨he.2.null, he.2.proposed⟩
      | blockTasks maintenance =>
        exact (processBlockTasks_agrees (hsound hsince) he.2 maintenance).of_ok hevent
      | _ =>
        exact he.2.step (.of_maintained (Event.maintained hevent (by simp) (by simp) (by simp)))
  exact hboth.2

/-- **Reservations and tables agree.** In every state of a chain under the rules since the tenth hard
fork, what a table proposes for a player is a reservation of this player that is allocated to this table;
every allocated reservation is proposed so; and no player has two reservations at one table. -/
theorem reservations_agree (h : ReachableSince10 time d) :
    (∀ i t p b, d.tables.find? i = some t → t.pendingProposals.find? p = some b →
      ∃ r, d.pendingBuyIns.find? b = some r ∧ r.isAllocated = true ∧ r.table = i ∧
        r.playerInternal = p) ∧
    (∀ b r, d.pendingBuyIns.find? b = some r → r.isAllocated = true →
      ∃ t, d.tables.find? r.table = some t ∧ t.pendingProposals.find? r.playerInternal = some b) ∧
    ∀ b b' r r', d.pendingBuyIns.find? b = some r → d.pendingBuyIns.find? b' = some r' →
      r.isAllocated = true → r.table = r'.table → r.playerInternal = r'.playerInternal → b = b' := by
  have hagrees := Agrees.of_reachable h
  have hproposed : ∀ b r, d.pendingBuyIns.find? b = some r → r.isAllocated = true →
      ∃ t, d.tables.find? r.table = some t ∧
        t.pendingProposals.find? r.playerInternal = some b :=
    fun b r hr halloc ↦ hagrees.proposed b r hr halloc fun hf ↦ hf
  refine ⟨(Sound.of_reachable h).wf.proposals, hproposed, ?_⟩
  intro b b' r r' hr hr' halloc htable hplayer
  have halloc' : r'.isAllocated = true := by
    rw [PendingBuyInObject.isAllocated, ← htable]
    exact halloc
  obtain ⟨t, ht, hb⟩ := hproposed b r hr halloc
  obtain ⟨t', ht', hb'⟩ := hproposed b' r' hr' halloc'
  rw [← htable, ht] at ht'
  rw [← Option.some.inj ht', ← hplayer, hb] at hb'
  exact Option.some.inj hb'

end Runs

/-! ### The state of a table -/

section Runs

variable [GameDigest] [RatingFunctions] {time : TimePointSec}

/-- **What a table holds.** In every state of a chain under the rules since the tenth hard fork that is
reached while deadlines fit, cash is positive and in the core asset, a table has a deadline exactly while
a game is played, whoever waits to leave is in the game, and every player at the table exists. -/
theorem tables_represented
    (h : ReachableIf (fun d event ↦ event.SinceHardfork10 d ∧ d.DeadlineFits) time d) {i : TableId} {t : TableObject}
    (ht : d.tables.find? i = some t) :
    CashOk t.cash ∧ CashOk t.playingCash ∧
      (t.isFree = true ↔ t.gameExpiration = TimePointSec.maximum) ∧
      (∀ id b, d.pendingBuyOuts.find? id = some b → b.table = i →
        t.isPlaying b.player = true ∧ 0 < b.amount.amount) ∧
      (∀ p, t.HasMoney p → ∃ obj, d.players.find? p = some obj) ∧
      ∀ p b, t.pendingProposals.find? p = some b → ∃ obj, d.players.find? p = some obj := by
  have hd : Sound { core := False, clock := True } d.atHardfork10 :=
    .reachable (fun _ _ hallowed ↦ hallowed.1) (fun _ _ _ hf ↦ hf.elim)
      (fun _ _ hallowed _ ↦ hallowed.2) h
  have hok := hd.wf.tables i t ht
  obtain ⟨hfree, hplayed⟩ := hd.wf.clock i t ht fun hf ↦ hf
  refine ⟨hok.cashes.cash, hok.cashes.playingCash, ⟨hfree, fun hmax ↦ ?_⟩, fun id b hb hbt ↦ ?_,
    fun p hp ↦ ?_, fun p b hp ↦ ?_⟩
  · cases hf : t.isFree with
    | true => rfl
    | false => exact absurd hmax (hplayed trivial hf)
  · obtain ⟨u, hu, hplaying⟩ := hd.wf.leaving id b hb fun hf ↦ hf
    rw [hbt] at hu
    exact ⟨Option.some.inj (hu.symm.trans ht) ▸ hplaying, (hd.wf.pendingBuyOuts id b hb).1⟩
  · obtain hwaits | hplays := hp
    · exact hok.waiting p hwaits
    · exact hok.playing p hplays
  · obtain ⟨r, hr, halloc, -, rfl⟩ := hd.wf.proposals i t p b ht hp
    obtain ⟨obj, hobj⟩ := (hd.wf.pendingBuyIns b r hr).2.2.player (.inr halloc)
    exact ⟨obj, (UniqueIndex.findKey?_eq_some_iff.1 hobj).1⟩

end Runs

instance (d : Database) : Decidable d.DeadlineFits := inferInstanceAs (Decidable (_ < _))

theorem tables_represented_game : ∃ d t,
    @ReachableIf sampleDigest sampleRating (fun d event ↦ event.SinceHardfork10 d ∧ d.DeadlineFits)
      hardforkPlaychain9Time d ∧ d.tables.find? 1 = some t ∧ t.isFree = false ∧
      t.gameExpiration ≠ TimePointSec.maximum ∧ CashOk t.playingCash := by
  obtain ⟨d, hd, hplays⟩ := @exists_reachableIf_of_run hardforkPlaychain9Time sampleDigest sampleRating
    (fun d event ↦ event.SinceHardfork10 d ∧ d.DeadlineFits) _ sampleGame 9 sampleClaimed PlaysAtFirst _
    (by decide)
  obtain ⟨t, ht, hfree⟩ := (Option.any_eq_true _ _).1 hplays
  have hplayed : t.isFree = false := of_decide_eq_true hfree
  have h := @tables_represented _ sampleDigest sampleRating _ hd _ _ ht
  refine ⟨d, t, hd, ht, hplayed, fun hmax ↦ ?_, h.2.1⟩
  exact Bool.false_ne_true (hplayed.symm.trans (h.2.2.1.2 hmax))

/-- A room with a table, a reservation for it, and a block that allocates it. -/
def sampleAllocation : List Event :=
  [.headBlock hardforkPlaychain11Time,
    .operation (.roomCreate ⟨6, "url", "room", "1.0.0"⟩),
    .operation (.tableCreate ⟨6, 1, "table", 0, { amount := 1 }⟩),
    .operation (.tablesAlive ⟨6, (∅ : FlatMap TableId Unit).insert 1 ()⟩),
    .operation (.buyInReserve
      { player := 7
        uid := "first"
        amount := { amount := 10 }
        metadata := "table"
        protocolVersion := "1.0.0" }),
    .headBlock (hardforkPlaychain11Time + 3), .blockTasks false]

/-- The first reservation is allocated to the first table. -/
def FirstAllocated (d : Database) : Prop :=
  (d.pendingBuyIns.find? 1).any (fun b ↦ b.table = 1) = true

instance : DecidablePred FirstAllocated := fun _ ↦ inferInstanceAs (Decidable (_ = true))

theorem reservations_agree_allocated : ∃ d,
    @ReachableSince10 sampleDigest sampleRating hardforkPlaychain9Time d ∧ FirstAllocated d ∧
      ∃ t p, d.tables.find? 1 = some t ∧ t.pendingProposals.find? p = some 1 := by
  obtain ⟨d, hd, hfirst⟩ := @exists_reachableIf_of_run hardforkPlaychain9Time sampleDigest
    sampleRating (fun d event ↦ event.SinceHardfork10 d) _ sampleAllocation 9 sampleClaimed FirstAllocated _
    (by decide)
  obtain ⟨r, hr, htable⟩ := (Option.any_eq_true _ _).1 hfirst
  obtain ⟨t, ht, hp⟩ := (@reservations_agree _ sampleDigest sampleRating _ hd).2.1 1 r hr
    (by rw [PendingBuyInObject.isAllocated, of_decide_eq_true htable]; decide)
  exact ⟨d, hd, hfirst, t, _, of_decide_eq_true htable ▸ ht, hp⟩

end Playchain
