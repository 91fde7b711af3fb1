import Playchain.Spec.Handlers

/-!
# The handlers work on one table

Whatever the state they are called in, the handlers of a voting change no table but the one of the
voting, no account's player, no parameter, and they keep the books of the rooms (`LocalTo`). The
statements are about successful computations only; no invariant is needed for them.
-/

namespace Playchain

/-- What games leave alone at a table. -/
def TableObject.label (t : TableObject) : RoomId × String × ℤ × FlatMap PlayerId PendingBuyInId :=
  (t.room, t.metadata, t.weight, t.pendingProposals)

/-- What no handler changes. -/
structure Steady (d d' : Database) : Prop where
  headBlockTime : d'.headBlockTime = d.headBlockTime
  parameters : d'.parameters = d.parameters
  accounts : ∀ a, (d'.players.findKey? a).map Prod.fst = (d.players.findKey? a).map Prod.fst
  books : d'.books = d.books
  pendingBuyIns : d'.pendingBuyIns = d.pendingBuyIns
  tableAlives : d'.tableAlives = d.tableAlives
  labels : ∀ j, (d'.tables.find? j).map TableObject.label = (d.tables.find? j).map TableObject.label
  ratings : ∀ j, (d'.rooms.find? j).map RoomObject.rating = (d.rooms.find? j).map RoomObject.rating

/-- **Only one table changes.** -/
structure LocalTo (table : TableId) (d d' : Database) : Prop extends Steady d d' where
  tables : ∀ j, j ≠ table → d'.tables.find? j = d.tables.find? j
  votings : ∀ i v, v.table ≠ table →
    (d'.tableVotings.find? i = some v ↔ d.tableVotings.find? i = some v)
  /-- No voting is opened; votes may be dropped. -/
  votings_old : ∀ i v', d'.tableVotings.find? i = some v' →
    ∃ v, d.tableVotings.find? i = some v ∧ v' = { v with votes := v'.votes }

/-- Nothing is said about failures. -/
abbrev anyError : ChainError → Prop := fun _ ↦ True

variable {d d' d'' : Database} {table : TableId}

theorem Steady.refl (d : Database) : Steady d d :=
  ⟨rfl, rfl, fun _ ↦ rfl, rfl, rfl, rfl, fun _ ↦ rfl, fun _ ↦ rfl⟩

theorem Steady.trans (h : Steady d d') (h' : Steady d' d'') : Steady d d'' where
  headBlockTime := h'.headBlockTime.trans h.headBlockTime
  parameters := h'.parameters.trans h.parameters
  accounts a := (h'.accounts a).trans (h.accounts a)
  books := h'.books.trans h.books
  pendingBuyIns := h'.pendingBuyIns.trans h.pendingBuyIns
  tableAlives := h'.tableAlives.trans h.tableAlives
  labels j := (h'.labels j).trans (h.labels j)
  ratings j := (h'.ratings j).trans (h.ratings j)

namespace LocalTo

/-- Nothing at the tables, the votings and the measurements changes. -/
theorem of_eq (table : TableId) (hn : d'.headBlockTime = d.headBlockTime)
    (hp : d'.parameters = d.parameters) (ht : d'.tables = d.tables) (hl : d'.players = d.players)
    (hr : d'.rooms = d.rooms) (hv : d'.tableVotings = d.tableVotings)
    (hb : d'.pendingBuyIns = d.pendingBuyIns) (ha : d'.tableAlives = d.tableAlives) :
    LocalTo table d d' where
  headBlockTime := hn
  parameters := hp
  tables j _ := by rw [ht]
  accounts a := by rw [hl]
  books := Database.books_congr hl hr
  pendingBuyIns := hb
  tableAlives := ha
  labels j := by rw [ht]
  ratings j := by rw [hr]
  votings i v _ := by rw [hv]
  votings_old i v h := ⟨v, hv ▸ h, rfl⟩

theorem refl (table : TableId) (d : Database) : LocalTo table d d :=
  of_eq table rfl rfl rfl rfl rfl rfl rfl rfl

theorem trans (h : LocalTo table d d') (h' : LocalTo table d' d'') : LocalTo table d d'' :=
  { h.toSteady.trans h'.toSteady with
    tables := fun j hj ↦ (h'.tables j hj).trans (h.tables j hj)
    votings := fun i v hv ↦ (h'.votings i v hv).trans (h.votings i v hv)
    votings_old := fun i v'' hv'' ↦ by
      obtain ⟨v', hv', heq'⟩ := h'.votings_old i v'' hv''
      obtain ⟨v, hv, heq⟩ := h.votings_old i v' hv'
      rw [heq] at heq'
      exact ⟨v, hv, heq'⟩ }

theorem log (table : TableId) (d : Database) (op : VirtualOperation) :
    LocalTo table d (d.pushAppliedOperation op) :=
  of_eq table rfl rfl rfl rfl rfl rfl rfl rfl

/-- Removing the voting of the table. -/
theorem removeVoting (d : Database) {id : ℕ}
    (hid : ∀ v, d.tableVotings.find? id = some v → v.table = table) :
    LocalTo table d { d with tableVotings := d.tableVotings.remove id } := by
  refine { refl table d with votings := fun i v hv ↦ ?_, votings_old := fun i v hv ↦ ?_ }
  · rw [UniqueIndex.toObjectIndex_remove, ObjectIndex.find?_remove]
    split_ifs with hi
    · exact ⟨fun h ↦ (by cases h), fun h ↦ absurd (hid v (hi ▸ h)) hv⟩
    · exact Iff.rfl
  · exact ⟨v, (ObjectIndex.find?_of_find?_remove hv).2, rfl⟩

/-- Changing the votes of the table's voting. -/
theorem modifyVotes (d : Database) {id : ℕ}
    (hid : ∀ v, d.tableVotings.find? id = some v → v.table = table)
    (votes : FlatMap AccountId VotingData) :
    LocalTo table d { d with tableVotings := d.tableVotings.modify id fun w ↦
      { w with votes := votes } } := by
  refine { refl table d with votings := fun i v hv ↦ ?_, votings_old := fun i v hv ↦ ?_ }
  · rw [UniqueIndex.toObjectIndex_modify, ObjectIndex.find?_modify]
    split_ifs with hi
    · refine ⟨fun h ↦ ?_, fun h ↦ absurd (hid v (hi ▸ h)) hv⟩
      obtain ⟨w, hw, rfl⟩ := Option.map_eq_some_iff.1 h
      exact absurd (hid w (hi ▸ hw)) hv
    · exact Iff.rfl
  · rw [UniqueIndex.toObjectIndex_modify, ObjectIndex.find?_modify] at hv
    split_ifs at hv
    · obtain ⟨w, hw, rfl⟩ := Option.map_eq_some_iff.1 hv
      exact ⟨w, hw, rfl⟩
    · exact ⟨v, hv, rfl⟩

/-- The votings of other tables are the same. -/
theorem find?_voting (h : LocalTo table d d') {i : ℕ}
    (hi : ∀ v, d.tableVotings.find? i = some v → v.table ≠ table) :
    d'.tableVotings.find? i = d.tableVotings.find? i := by
  rcases hv : d.tableVotings.find? i with - | v
  · rcases hv' : d'.tableVotings.find? i with - | v'
    · rfl
    · obtain ⟨w, hw, -⟩ := h.votings_old i v' hv'
      rw [hv] at hw
      cases hw
  · exact (h.votings i v (hi v hv)).2 hv

/-- The table itself changes in all but its label. -/
theorem setTable (d : Database) {t t' : TableObject} (ht : d.tables.find? table = some t)
    (hlabel : t'.label = t.label) :
    LocalTo table d { d with tables := d.tables.set table t' } := by
  refine { refl table d with
    tables := fun _ hj ↦ ObjectIndex.find?_set_of_ne _ _ hj
    labels := fun j ↦ ?_ }
  by_cases hj : j = table
  · rw [hj, ObjectIndex.find?_set_self ht, ht]
    exact congrArg some hlabel
  · rw [ObjectIndex.find?_set_of_ne _ _ hj]

end LocalTo

/-! ### Labels -/

section Labels

variable {t t' : TableObject} {p : PlayerId} {delta : Asset}

/-- Cash is not a part of the label. -/
theorem adjustCash_label (h : t.adjustCash p delta = .ok t') : t'.label = t.label := by
  obtain ⟨r, -, h⟩ := Except.bind_eq_ok.1 h
  obtain rfl := Except.pure_eq_ok.1 h
  rfl

theorem adjustPlayingCash_label (h : t.adjustPlayingCash p delta = .ok t') :
    t'.label = t.label := by
  obtain ⟨r, -, h⟩ := Except.bind_eq_ok.1 h
  obtain rfl := Except.pure_eq_ok.1 h
  rfl

/-- A loop over players that keeps the label in each turn. -/
theorem foldlM_label {l : List (PlayerId × Asset)}
    {f : TableObject → PlayerId × Asset → Except ChainError TableObject}
    (hf : ∀ t p t', f t p = .ok t' → t'.label = t.label) (h : l.foldlM f t = .ok t') :
    t'.label = t.label := by
  have hfold : (l.foldlM f t).Ensures anyError fun u ↦ u.label = t.label :=
    Except.Ensures.foldlM (fun u : TableObject ↦ u.label = t.label)
      (fun p _ u hu ↦ .of_forall fun u' hu' ↦ (hf u p u' hu').trans hu) rfl
  exact hfold.of_ok h

/-- Neither is what is at stake. -/
theorem startPlaying_label {cash : FlatMap PlayerId Asset} (h : startPlaying cash t = .ok t') :
    t'.label = t.label := by
  refine foldlM_label (fun u p u' hu ↦ ?_) h
  obtain ⟨u₁, h₁, h₂⟩ := Except.bind_eq_ok.1 hu
  exact (adjustCash_label h₂).trans (adjustPlayingCash_label h₁)

theorem settlePlayer_label {q : PlayerId × Asset} (h : settlePlayer t q = .ok t') :
    t'.label = t.label := by
  obtain ⟨t₁, h₁, h⟩ := Except.bind_eq_ok.1 h
  have hcash : t₁.label = t.label := by
    split_ifs at h₁
    · exact adjustCash_label h₁
    · rw [Except.pure_eq_ok.1 h₁]
  have hplaying := adjustPlayingCash_label h
  split_ifs at hplaying
  · exact hplaying.trans hcash
  · exact hplaying.trans hcash

/-- The settlement of all players. -/
theorem settlePlaying_label {cash : FlatMap PlayerId Asset} (h : settlePlaying cash t = .ok t') :
    t'.label = t.label := by
  obtain ⟨t₁, h₁, h₂⟩ := Except.bind_eq_ok.1 h
  refine (foldlM_label (fun u p u' hu ↦ ?_) h₂).trans
    (foldlM_label (fun u p u' hu ↦ settlePlayer_label hu) h₁)
  obtain ⟨u₁, hu₁, hu₂⟩ := Except.bind_eq_ok.1 hu
  exact (adjustCash_label hu₂).trans (adjustPlayingCash_label hu₁)

/-- What is left of a game that is rolled back. -/
theorem rolledBack_label {fullClear : Bool} (h : rolledBack fullClear t = .ok t') :
    t'.label = t.label := by
  rw [rolledBack] at h
  split_ifs at h
  · obtain rfl := Except.pure_eq_ok.1 h
    rfl
  · obtain ⟨t₁, h₁, h₂⟩ := Except.bind_eq_ok.1 h
    obtain rfl := Except.pure_eq_ok.1 h₂
    have hfold := foldlM_label (fun u p u' hu ↦ adjustCash_label hu) h₁
    exact hfold

end Labels

/-! ### Elementary updates -/

/-- A change of a table that keeps its label. -/
theorem modifyTable_local (d : Database) (table : TableId)
    {body : TableObject → Except ChainError TableObject}
    (hbody : ∀ t t', body t = .ok t' → t'.label = t.label) :
    (d.modifyTable table body).Ensures anyError (LocalTo table d) :=
  (orUnableToFind_ensures fun _ _ ↦ trivial).bind fun t ht ↦
    (Except.Ensures.any _).with_eq.bind fun t' ⟨ht', _⟩ ↦ .pure (.setTable d ht (hbody t t' ht'))

/-- Balances are not at a table. -/
theorem adjustBalance_local (d : Database) (account : AccountId) (delta : Asset) :
    (d.adjustBalance account delta).Ensures anyError (LocalTo table d) := by
  refine (adjustBalance_ensures d account delta fun _ _ ↦ trivial).mono ?_
  rintro _ ⟨b, rfl, -⟩
  exact .of_eq table rfl rfl rfl rfl rfl rfl rfl rfl

theorem registerBuyIn_local (d : Database) (player : PlayerId) (id : TableId) :
    (registerBuyIn d player id).Ensures anyError (LocalTo table d) := by
  rw [registerBuyIn]
  split
  · exact .pure (.of_eq table rfl rfl rfl rfl rfl rfl rfl rfl)
  · exact (Except.Ensures.any _).bind fun _ _ ↦ .pure (.of_eq table rfl rfl rfl rfl rfl rfl rfl rfl)

theorem cleanupBuyIns_local (d : Database) (id : TableId) :
    LocalTo table d (cleanupBuyIns d id) := by
  refine List.foldlRecOn (motive := LocalTo table d) _ _ (.refl table d) ?_
  exact fun e he b _ ↦ he.trans (.of_eq table rfl rfl rfl rfl rfl rfl rfl rfl)

/-- The votes that wait are those for the table. -/
theorem cleanupPendingVotes_local (d : Database) (id : TableId) :
    LocalTo table d (cleanupPendingVotes d id) := by
  rw [cleanupPendingVotes]
  split_ifs
  · refine List.foldlRecOn (motive := LocalTo table d) _ _ (.refl table d) ?_
    exact fun e he b _ ↦ he.trans (.of_eq table rfl rfl rfl rfl rfl rfl rfl rfl)
  · exact .refl table d

/-- The voting that is removed is the one at the table. -/
theorem cleanupVoting_local (d : Database) (table : TableId) :
    LocalTo table d (cleanupVoting d table) := by
  rw [cleanupVoting]
  split
  · rename_i v hv
    refine .removeVoting d fun w hw ↦ ?_
    obtain ⟨hfind, htable⟩ := UniqueIndex.findKey?_eq_some_iff.1 hv
    obtain rfl := Option.some.inj (hw.symm.trans hfind)
    exact htable
  · exact .refl table d

/-! ### Pending buy-outs -/

/-- The cash of a player is paid out. -/
theorem resolveFromCash_local (d : Database) (table : TableId) (player : PlayerId) (rest : Asset) :
    (resolveFromCash d table player rest).Ensures anyError fun s ↦ LocalTo table d s.2 := by
  refine (Except.Ensures.any _).bind fun t _ ↦ ?_
  split
  · exact .pure (.refl table d)
  · split_ifs
    · exact (Except.Ensures.any _).bind fun _ _ ↦ (Except.Ensures.any _).bind fun _ _ ↦
        (modifyTable_local d table fun _ _ ↦ adjustCash_label).bind fun _ h ↦ .pure h
    · exact .pure (.refl table d)

theorem resolveFromPlayingCash_local (d : Database) (table : TableId) (player : PlayerId)
    (rest : Asset) (inResult : Bool) :
    (resolveFromPlayingCash d table player rest inResult).Ensures anyError fun s ↦
      LocalTo table d s.2 := by
  refine (Except.Ensures.any _).bind fun t _ ↦ ?_
  split
  · exact .pure (.refl table d)
  · split_ifs
    · exact (Except.Ensures.any _).bind fun _ _ ↦ (Except.Ensures.any _).bind fun _ _ ↦
        (modifyTable_local d table fun _ _ ↦ adjustPlayingCash_label).bind fun _ h ↦ .pure h
    · exact .pure (.refl table d)

/-- One buy-out that has waited is paid. -/
theorem resolvePendingBuyOut_local (table : TableId) (owner : AccountId) (s : Database × GameResult)
    (p : ℕ × PendingBuyOutObject) :
    (resolvePendingBuyOut table owner s p).Ensures anyError fun s' ↦ LocalTo table s.1 s'.1 := by
  refine (Except.Ensures.any _).bind fun _ _ ↦ (Except.Ensures.any _).bind fun ⟨rest₁, r₁⟩ _ ↦ ?_
  refine (resolveFromCash_local s.1 table _ rest₁).bind fun ⟨rest₂, d₂⟩ h₂ ↦ ?_
  refine (resolveFromPlayingCash_local d₂ table _ rest₂ _).bind fun ⟨rest₃, d₃⟩ h₃ ↦ ?_
  refine (Except.Ensures.any _).bind fun allowed _ ↦ ?_
  refine Except.Ensures.bind (Q := LocalTo table d₃) ?_ fun d₄ h₄ ↦ .pure ?_
  · split_ifs
    · exact (adjustBalance_local d₃ _ _).bind fun _ h ↦
        .pure (h.trans (.of_eq table rfl rfl rfl rfl rfl rfl rfl rfl))
    · exact .pure (.refl table d₃)
  · refine h₂.trans (h₃.trans (h₄.trans ?_))
    dsimp only
    split_ifs
    · exact .of_eq table rfl rfl rfl rfl rfl rfl rfl rfl
    · exact .of_eq table rfl rfl rfl rfl rfl rfl rfl rfl

/-- All buy-outs that have waited are paid. -/
theorem pendingBuyoutsResolve_local (d : Database) (table : TableId) (owner : AccountId)
    (r : GameResult) :
    (pendingBuyoutsResolve d table owner r).Ensures anyError fun s ↦ LocalTo table d s.1 := by
  refine Except.Ensures.foldlM (fun s : Database × GameResult ↦ LocalTo table d s.1) ?_
    (.refl table d)
  exact fun p _ s hs ↦ (resolvePendingBuyOut_local table owner s p).mono fun _ h ↦ hs.trans h

/-! ### Rollback -/

/-- The cash of all players is paid out. -/
theorem returnCash_local (d : Database) (table : TableId) (owner : AccountId) (t : TableObject)
    (fullClear : Bool) :
    (returnCash d table owner t fullClear).Ensures anyError (LocalTo table d) := by
  rw [returnCash]
  split_ifs
  · refine (Except.Ensures.any _).bind fun c _ ↦
      Except.Ensures.foldlM (LocalTo table d) ?_ (.refl table d)
    intro p _ e he
    refine (Except.Ensures.any _).bind fun obj _ ↦ ?_
    refine ((adjustBalance_local _ _ _ :
      Except.Ensures _ anyError (LocalTo table _))).mono fun _ h ↦ ?_
    exact he.trans ((LocalTo.log table e _).trans h)
  · refine Except.Ensures.foldlM (LocalTo table d) ?_ (.refl table d)
    exact fun p _ e he ↦ (Except.Ensures.any _).bind fun _ _ ↦
      .pure (he.trans (.of_eq table rfl rfl rfl rfl rfl rfl rfl rfl))

/-- The body of a rollback. -/
theorem rollbackImpl_local (d : Database) (table : TableId) (fullClear : Bool) :
    (rollbackImpl d table fullClear).Ensures anyError (LocalTo table d) := by
  refine (Except.Ensures.any _).bind fun _ _ ↦ (Except.Ensures.any _).bind fun owner _ ↦ ?_
  have hlog : LocalTo table d (d.pushGameEvent table owner .gameRollback) :=
    .of_eq table rfl rfl rfl rfl rfl rfl rfl rfl
  refine (pendingBuyoutsResolve_local _ table owner {}).bind fun s h₁ ↦ ?_
  refine (Except.Ensures.any _).bind fun t _ ↦ ?_
  refine (returnCash_local s.1 table owner t fullClear).bind fun d₂ h₂ ↦ ?_
  refine (modifyTable_local d₂ table fun _ _ ↦ rolledBack_label).bind fun d₃ h₃ ↦ .pure ?_
  exact hlog.trans (h₁.trans (h₂.trans (h₃.trans (cleanupPendingVotes_local d₃ table))))

theorem withRegistrationBuyIn_local (callback : Database → Except ChainError Database)
    (hcall : (callback d).Ensures anyError (LocalTo table d)) :
    (withRegistrationBuyIn d table callback).Ensures anyError (LocalTo table d) := by
  refine (Except.Ensures.any _).bind fun _ _ ↦ hcall.bind fun d₁ h₁ ↦ ?_
  refine (Except.Ensures.any _).bind fun _ _ ↦ Except.Ensures.foldlM (LocalTo table d) ?_ h₁
  exact fun p _ e he ↦ (registerBuyIn_local e p.1 table).mono fun _ h ↦ he.trans h

theorem obsoleteBuyinsResolve_local (d : Database) (id : TableId) (clear : Bool) :
    (obsoleteBuyinsResolve d id clear).Ensures anyError (LocalTo table d) := by
  refine (Except.Ensures.any _).bind fun t _ ↦ .pure ?_
  refine List.foldlRecOn (motive := LocalTo table d) _ _ (.refl table d) fun e he b _ ↦ ?_
  split_ifs
  · exact he.trans (.of_eq table rfl rfl rfl rfl rfl rfl rfl rfl)
  · exact he.trans (.of_eq table rfl rfl rfl rfl rfl rfl rfl rfl)
  · exact he

/-- **A rollback** is local to its table. -/
theorem rollback_local (d : Database) (table : TableId) (fullClear : Bool) :
    (rollback d table fullClear).Ensures anyError (LocalTo table d) := by
  have himpl := rollbackImpl_local d table fullClear
  rw [rollback]
  by_cases htime : hardforkPlaychain10Time ≤ d.headBlockTime
  · rw [if_pos htime]
    refine Except.Ensures.bind (Q := LocalTo table d) ?_ fun d₁ h₁ ↦
      .pure (h₁.trans (cleanupVoting_local d₁ table))
    cases fullClear with
    | false => exact withRegistrationBuyIn_local (fun d ↦ rollbackImpl d table false) himpl
    | true => exact himpl.bind fun d₁ h₁ ↦ .pure (h₁.trans (cleanupBuyIns_local d₁ table))
  · rw [if_neg htime]
    exact himpl.bind fun d₁ h₁ ↦ (obsoleteBuyinsResolve_local d₁ table fullClear).mono fun _ h ↦
      h₁.trans h

/-! ### Decided votes -/

/-- Reports of frauds are entries of the log. -/
theorem reportFrauds_local {α : Type} (get : VotingData → Except ChainError α)
    (event : AccountId → α → GameEvent) {owner : AccountId} (h : LocalTo table d d')
    (invalid : FlatMap AccountId VotingData) :
    (invalid.toList.foldlM (fun (d : Database) (p : AccountId × VotingData) ↦ do
      let y ← get p.2
      return d.pushGameEvent table owner (event p.1 y)) d').Ensures anyError (LocalTo table d) := by
  refine Except.Ensures.foldlM (LocalTo table d) ?_ h
  intro p _ e he
  refine (Except.Ensures.any _).bind fun y _ ↦ .pure ?_
  exact he.trans (.of_eq table rfl rfl rfl rfl rfl rfl rfl rfl)

/-- **A start** is local to its table. -/
theorem applyStartPlayingWithConsensus_local (d : Database) (table : TableId) (c : Consensus) :
    (applyStartPlayingWithConsensus d table c).Ensures anyError (LocalTo table d) := by
  refine (Except.Ensures.any _).bind fun data _ ↦ (Except.Ensures.any _).bind fun _ _ ↦ ?_
  refine (Except.Ensures.any _).bind fun owner _ ↦ (Except.Ensures.any _).bind fun _ _ ↦ ?_
  refine (modifyTable_local d table fun t t' ht' ↦ ?_).bind fun d₁ h₁ ↦ ?_
  · obtain ⟨t₁, h₁, h₂⟩ := Except.bind_eq_ok.1 ht'
    obtain rfl := Except.pure_eq_ok.1 h₂
    have hlabel := startPlaying_label h₁
    exact hlabel
  have hlog : LocalTo table d (d₁.pushGameEvent table owner (.gameStartPlayingValidated data)) :=
    h₁.trans (.of_eq table rfl rfl rfl rfl rfl rfl rfl rfl)
  exact reportFrauds_local VotingData.getInitialData
    (fun a y ↦ .fraudGameStartPlayingCheck a y.info data.info) hlog c.accountsWithInvalidVote

/-- A fee more. -/
theorem PlayerObject.owed_append (p : PlayerObject) (fee : PlayerPendingFeeData) :
    PlayerObject.owed { p with pendingFees := p.pendingFees ++ [fee] } =
      Pi.single fee.room fee.amount + p.owed := by
  funext room
  simp only [PlayerObject.owed, List.filter_append, List.map_append, List.sum_append, Pi.add_apply,
    Pi.single_apply]
  by_cases hroom : fee.room = room
  · simp [hroom]
    ring
  · simp [hroom, Ne.symm hroom]

/-- Booking rake: what the players hold for the room of the table grows by the rake. -/
theorem bookRakes_owed (d : Database) (t : TableObject) (witnesses : FlatSet GameWitnessId)
    (r : GameResult) :
    (bookRakes d t witnesses r).Ensures anyError fun s ↦ ∃ players, s.1 = { d with players := players } ∧
      (∀ a, (players.findKey? a).map Prod.fst = (d.players.findKey? a).map Prod.fst) ∧
      players.sum PlayerObject.owed =
        Pi.single t.room s.2.1.amount + d.players.sum PlayerObject.owed := by
  let I (s : Database × Asset × FlatMap PlayerId Asset) : Prop :=
    ∃ players, s.1 = { d with players := players } ∧
      (∀ a, (players.findKey? a).map Prod.fst = (d.players.findKey? a).map Prod.fst) ∧
      players.sum PlayerObject.owed =
        Pi.single t.room s.2.1.amount + d.players.sum PlayerObject.owed
  refine Except.Ensures.foldlM I ?_ ⟨d.players, rfl, fun _ ↦ rfl, ?_⟩
  · rintro p - ⟨_, rake, c⟩ ⟨players, rfl, haccounts, howed⟩
    refine (orMissing_ensures fun _ ↦ trivial).bind fun player hplayer ↦ ?_
    obtain ⟨hfind, -⟩ := UniqueIndex.findKey?_eq_some_iff.1 hplayer
    by_cases hpos : 0 < p.2.rake.amount
    · rw [if_pos hpos]
      refine (Except.Ensures.any _).with_eq.bind fun rake' ⟨hadd, _⟩ ↦ .pure ?_
      obtain ⟨-, rfl⟩ := Asset.add_eq_ok.1 hadd
      refine ⟨_, rfl, fun a ↦ ?_, ?_⟩
      · rw [← haccounts a]
        exact UniqueIndex.map_fst_findKey?_modify players player.1 _ a
      · rw [UniqueIndex.toObjectIndex_modify, ObjectIndex.sum_modify _ hfind, PlayerObject.owed_append,
          add_assoc, ← ObjectIndex.sum_eq_add_remove _ hfind]
        change _ + players.sum PlayerObject.owed = _
        rw [howed, ← add_assoc, ← Pi.single_add, add_comm p.2.rake.amount]
    · rw [if_neg hpos]
      exact .pure ⟨players, rfl, haccounts, howed⟩
  · rw [Pi.single_zero, zero_add]

/-- **A result books as much for the room as its players hold.** -/
theorem applyGameResultImpl_local (d : Database) (table : TableId) (owner : AccountId)
    (witnesses : FlatSet GameWitnessId) (r : GameResult) :
    (applyGameResultImpl d table owner witnesses r).Ensures anyError (LocalTo table d) := by
  refine (pendingBuyoutsResolve_local d table owner r).bind fun ⟨d₁, r₁⟩ h₁ ↦ ?_
  refine (Except.Ensures.any _).bind fun t _ ↦ ?_
  refine (bookRakes_owed d₁ t witnesses r₁).bind ?_
  rintro ⟨_, rake, cashResult⟩ ⟨players, rfl, haccounts, howed⟩
  dsimp only at howed ⊢
  refine (orUnableToFind_ensures fun _ _ ↦ trivial).bind fun room hroom ↦ ?_
  refine (Except.Ensures.any _).with_eq.bind fun pendingRake ⟨hadd, _⟩ ↦ ?_
  obtain ⟨-, rfl⟩ := Asset.add_eq_ok.1 hadd
  have h₂ : LocalTo table d₁ { d₁ with
      players := players
      rooms := d₁.rooms.modify t.room fun r ↦ { r with
        pendingRake := ⟨room.pendingRake.amount + rake.amount, room.pendingRake.assetId⟩ } } := by
    refine { LocalTo.refl table d₁ with
      accounts := haccounts
      books := ?_
      ratings := ObjectIndex.map_find?_modify _ _ fun _ ↦ rfl }
    have hrakes : Database.pendingRakes { d₁ with rooms := d₁.rooms.modify t.room fun r ↦ { r with
        pendingRake := ⟨room.pendingRake.amount + rake.amount, room.pendingRake.assetId⟩ } } =
        Pi.single t.room rake.amount + d₁.pendingRakes := by
      funext j
      change ((d₁.rooms.toObjectIndex.modify t.room _).find? j).elim 0 _ = _
      rw [ObjectIndex.find?_modify, Pi.add_apply, Pi.single_apply]
      change d₁.rooms.find? t.room = some room at hroom
      by_cases hj : j = t.room
      · rw [if_pos hj, if_pos hj, Database.pendingRakes, hj, hroom]
        exact add_comm _ _
      · rw [if_neg hj, if_neg hj, zero_add, Database.pendingRakes]
    change _ - players.sum PlayerObject.owed = _ - d₁.players.sum PlayerObject.owed
    rw [howed]
    refine (congrArg (· - _) hrakes).trans ?_
    exact add_sub_add_left_eq_sub _ _ _
  refine (modifyTable_local _ table fun u u' hu' ↦ ?_).bind fun d₃ h₃ ↦ .pure ?_
  · obtain ⟨u₁, hu₁, hu₂⟩ := Except.bind_eq_ok.1 hu'
    obtain rfl := Except.pure_eq_ok.1 hu₂
    have hlabel := settlePlaying_label hu₁
    exact hlabel
  exact h₁.trans (h₂.trans (LocalTo.trans h₃ (.log table d₃ _)))

/-- **A result** is local to its table. -/
theorem applyGameResultWithConsensus_local (d : Database) (table : TableId) (c : Consensus) :
    (applyGameResultWithConsensus d table c).Ensures anyError (LocalTo table d) := by
  refine (Except.Ensures.any _).bind fun r _ ↦ (Except.Ensures.any _).bind fun _ _ ↦ ?_
  refine (Except.Ensures.any _).bind fun owner _ ↦ ?_
  have himpl := applyGameResultImpl_local d table owner c.requiredWitnesses r
  refine Except.Ensures.bind (Q := LocalTo table d) ?_ fun d₁ h₁ ↦
    reportFrauds_local VotingData.getGameResult
      (fun a y ↦ .fraudGameResultCheck a y.log r.log) h₁ c.accountsWithInvalidVote
  split_ifs
  · exact rollback_local d table false
  · exact withRegistrationBuyIn_local
      (fun d ↦ applyGameResultImpl d table owner c.requiredWitnesses r) himpl
  · exact himpl.bind fun d₁ h₁ ↦ (obsoleteBuyinsResolve_local d₁ table false).mono fun _ h ↦
      h₁.trans h

/-! ### Handlers -/

/-- The id is not that of another table's voting. -/
def OwnVoting (d : Database) (id : ℕ) (table : TableId) : Prop :=
  ∀ v, d.tableVotings.find? id = some v → v.table = table

theorem OwnVoting.of_find? {id : ℕ} {v : TableVotingObject}
    (h : d.tableVotings.find? id = some v) : OwnVoting d id v.table := by
  intro w hw
  rw [Option.some.inj (hw.symm.trans h)]

/-- A decision at the table keeps the voting there. -/
theorem OwnVoting.of_local {id : ℕ} (h : OwnVoting d id table) (hl : LocalTo table d d') :
    OwnVoting d' id table := by
  intro v hv
  by_contra hne
  exact hne (h v ((hl.votings id v hne).1 hv))

/-- The end of a voting for a start. -/
theorem expireVotingForPlaying_local (d : Database) {id : ℕ} {v : TableVotingObject}
    (hid : OwnVoting d id v.table) :
    (expireVotingForPlaying d id v).Ensures anyError (LocalTo v.table d) := by
  refine (Except.Ensures.any _).bind fun _ _ ↦ (Except.Ensures.any _).bind fun owner _ ↦ .pure ?_
  have hremove : LocalTo v.table (d.pushGameEvent v.table owner .failExpireGameStartPlaying)
      { d.pushGameEvent v.table owner .failExpireGameStartPlaying with
        tableVotings := d.tableVotings.remove id } := .removeVoting _ hid
  exact (LocalTo.log v.table d _).trans (hremove.trans (cleanupPendingVotes_local _ v.table))

section Tallies

variable [GameDigest]

/-- The tally removes the voting at the table at most. -/
theorem voting_local {id : ℕ} (hid : OwnVoting d id table) (v : TableVotingObject) (t : TableObject)
    (requied : PercentType) :
    (voting d id v t requied).Ensures anyError fun s ↦ LocalTo table d s.1 := by
  rw [voting]
  split
  · exact .pure (.removeVoting d hid)
  · exact .error trivial
  · exact (Except.Ensures.any _).bind fun _ _ ↦ .pure (.removeVoting d hid)

/-- The tally of a start. -/
theorem tallyForPlaying_local {id : ℕ} {v : TableVotingObject} (hid : OwnVoting d id v.table)
    (t : TableObject) : (tallyForPlaying d id v t).Ensures anyError (LocalTo v.table d) := by
  refine (Except.Ensures.any _).bind fun owner _ ↦ ?_
  split_ifs
  · refine (voting_local hid v t _).bind fun ⟨d₁, c⟩ h₁ ↦ ?_
    cases c with
    | none => exact .pure (h₁.trans (.log v.table d₁ _))
    | some c =>
      exact (applyStartPlayingWithConsensus_local d₁ v.table c).mono fun _ h ↦ h₁.trans h
  · exact .pure (.log v.table d _)

omit [GameDigest] in
/-- Votes that break the limits are reported. -/
theorem discardInvalidVotes_local (d : Database) (v : TableVotingObject) (t : TableObject) :
    (discardInvalidVotes d v t).Ensures anyError fun s ↦ LocalTo v.table d s.1 := by
  refine Except.Ensures.foldlM
    (fun s : Database × FlatMap AccountId VotingData ↦ LocalTo v.table d s.1) ?_ (.refl v.table d)
  intro p _ s hs
  refine (Except.Ensures.any _).bind fun data _ ↦ (Except.Ensures.any _).bind fun b _ ↦ ?_
  split_ifs
  · exact .pure hs
  · exact (Except.Ensures.any _).bind fun _ _ ↦ .pure (hs.trans (.log v.table s.1 _))

/-- A voting for a start that is due. -/
theorem scheduledVotingForPlaying_local {id : ℕ} {v : TableVotingObject}
    (hid : OwnVoting d id v.table) :
    (scheduledVotingForPlaying d id v).Ensures anyError (LocalTo v.table d) := by
  refine (Except.Ensures.any _).bind fun t _ ↦ ?_
  refine Except.Ensures.bind (Q := LocalTo v.table d) ?_ fun d₁ h₁ ↦
    .pure (h₁.trans (cleanupPendingVotes_local d₁ v.table))
  split_ifs
  · refine (discardInvalidVotes_local d v t).bind ?_
    rintro ⟨d₁, m⟩ h₁
    have hmodify := LocalTo.modifyVotes d₁ (hid.of_local h₁) m
    refine (tallyForPlaying_local (v := { v with votes := m })
      ((hid.of_local h₁).of_local hmodify) t).mono fun _ h ↦ ?_
    exact h₁.trans (hmodify.trans h)
  · exact tallyForPlaying_local hid t

/-- A voting for a result that is due. -/
theorem scheduledVotingForResults_local {id : ℕ} {v : TableVotingObject}
    (hid : OwnVoting d id v.table) :
    (scheduledVotingForResults d id v).Ensures anyError (LocalTo v.table d) := by
  refine (Except.Ensures.any _).bind fun t _ ↦ ?_
  refine Except.Ensures.bind (Q := LocalTo v.table d) ?_ fun d₁ h₁ ↦
    .pure (h₁.trans (cleanupPendingVotes_local d₁ v.table))
  refine (voting_local hid v t _).bind fun ⟨d₁, c⟩ h₁ ↦ ?_
  cases c with
  | none =>
    refine (Except.Ensures.any _).bind fun owner _ ↦ ?_
    exact (rollback_local _ v.table false).mono fun _ h ↦ (h₁.trans (.log v.table d₁ _)).trans h
  | some c =>
    exact (applyGameResultWithConsensus_local d₁ v.table c).mono fun _ h ↦ h₁.trans h

/-- The end of a voting for a result. -/
theorem expireVotingForResults_local {id : ℕ} {v : TableVotingObject}
    (hid : OwnVoting d id v.table) :
    (expireVotingForResults d id v).Ensures anyError (LocalTo v.table d) := by
  refine (Except.Ensures.any _).bind fun t _ ↦ ?_
  split_ifs
  · exact scheduledVotingForResults_local hid
  · refine (Except.Ensures.any _).bind fun owner _ ↦ ?_
    exact (rollback_local _ v.table false).mono fun _ h ↦
      (LocalTo.removeVoting d hid).trans ((LocalTo.log v.table _ _).trans h)

end Tallies

end Playchain
