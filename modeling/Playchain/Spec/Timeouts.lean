import Playchain.Spec.Safety

/-!
# Deadlines

After the block tasks of a block, nothing that has a deadline is overdue: reservations whose time is over have been returned,
stays at tables have ended or have been prolonged, signs of life are gone, and at a maintenance games that took too long have
been rolled back (`deadlines_kept`).

The later tasks do not undo the work of the earlier ones: they make no new reservations, stays or signs of life, and change
deadlines only by prolonging stays (`Passes`).
-/

namespace Playchain

variable {mode : Mode} {d d' d'' : Database} {table : TableId}

/-! ### Loops that get something done -/

/-- A loop whose steps are in a relation that keeps what has been done. -/
theorem foldlM_done {σ ε : Type} {ι : Type} {E : ε → Prop} {f : σ → ι → Except ε σ} {s₀ : σ} (R : σ → σ → Prop)
    (D : ι → σ → Prop) (hrefl : R s₀ s₀) (htrans : ∀ s s', R s₀ s → R s s' → R s₀ s') {l : List ι}
    (hstep : ∀ a ∈ l, ∀ s, R s₀ s → (f s a).Ensures E fun s' ↦ R s s' ∧ D a s')
    (hkeep : ∀ a s s', R s₀ s → R s s' → D a s → D a s') :
    (l.foldlM f s₀).Ensures E fun s' ↦ R s₀ s' ∧ ∀ a ∈ l, D a s' := by
  have hloop : ∀ done rest s, l = done ++ rest → R s₀ s → (∀ a ∈ done, D a s) →
      (rest.foldlM f s).Ensures E fun s' ↦ R s₀ s' ∧ ∀ a ∈ l, D a s' := by
    intro done rest
    induction rest generalizing done with
    | nil =>
      rintro s hl hs hdone
      rw [hl, List.append_nil]
      exact .pure ⟨hs, hdone⟩
    | cons a rest ih =>
      intro s hl hs hdone
      rw [List.foldlM_cons]
      refine (hstep a (by rw [hl]; simp) s hs).bind ?_
      rintro s' ⟨hs', ha⟩
      refine ih (done ++ [a]) s' (by rw [hl]; simp) (htrans s s' hs hs') fun b hb ↦ ?_
      obtain hb | hb := List.mem_append.1 hb
      · exact hkeep b s s' hs hs' (hdone b hb)
      · exact List.mem_singleton.1 hb ▸ ha
  exact hloop [] l s₀ rfl hrefl (by simp)

/-! ### How deadlines change -/

/-- Games get no new deadline. -/
structure GamesPass (d d' : Database) : Prop where
  headBlockTime : d'.headBlockTime = d.headBlockTime
  parameters : d'.parameters = d.parameters
  games : ∀ i t', d'.tables.find? i = some t' → ∃ t, d.tables.find? i = some t ∧
    (t'.gameExpiration = t.gameExpiration ∨ t'.gameExpiration = TimePointSec.maximum)

/-- The deadline of a stay that is prolonged. -/
def prolongedStay (d : Database) : TimePointSec :=
  TimePointSec.addSeconds d.headBlockTime d.parameters.buyInExpirationSeconds

/-- **Nothing gets a new deadline, except that stays are prolonged.** -/
structure Passes (d d' : Database) : Prop extends GamesPass d d' where
  reservations : ∀ i b', d'.pendingBuyIns.find? i = some b' →
    ∃ b, d.pendingBuyIns.find? i = some b ∧ b'.expiration = b.expiration
  stays : ∀ i b', d'.buyIns.find? i = some b' →
    ∃ b, d.buyIns.find? i = some b ∧ (b'.expiration = b.expiration ∨ b'.expiration = prolongedStay d)
  alives : ∀ i a, d'.tableAlives.find? i = some a → d.tableAlives.find? i = some a

theorem GamesPass.refl (d : Database) : GamesPass d d := ⟨rfl, rfl, fun _ t h ↦ ⟨t, h, .inl rfl⟩⟩

theorem GamesPass.trans (h : GamesPass d d') (h' : GamesPass d' d'') : GamesPass d d'' where
  headBlockTime := h'.headBlockTime.trans h.headBlockTime
  parameters := h'.parameters.trans h.parameters
  games i t'' ht'' := by
    obtain ⟨t', ht', heq'⟩ := h'.games i t'' ht''
    obtain ⟨t, ht, heq⟩ := h.games i t' ht'
    refine ⟨t, ht, ?_⟩
    obtain heq' | heq' := heq'
    · rw [heq']
      exact heq
    · exact .inr heq'

namespace Passes

theorem of_eq (hn : d'.headBlockTime = d.headBlockTime) (hp : d'.parameters = d.parameters)
    (ht : d'.tables = d.tables) (hr : d'.pendingBuyIns = d.pendingBuyIns) (hb : d'.buyIns = d.buyIns)
    (ha : d'.tableAlives = d.tableAlives) : Passes d d' where
  headBlockTime := hn
  parameters := hp
  games _ t h := ⟨t, ht ▸ h, .inl rfl⟩
  reservations _ b h := ⟨b, hr ▸ h, rfl⟩
  stays _ b h := ⟨b, hb ▸ h, .inl rfl⟩
  alives _ _ h := ha ▸ h

theorem refl (d : Database) : Passes d d := of_eq rfl rfl rfl rfl rfl rfl

theorem prolongedStay_eq (h : GamesPass d d') : prolongedStay d' = prolongedStay d := by
  rw [prolongedStay, prolongedStay, h.headBlockTime, h.parameters]

theorem trans (h : Passes d d') (h' : Passes d' d'') : Passes d d'' where
  toGamesPass := h.toGamesPass.trans h'.toGamesPass
  reservations i b'' hb'' := by
    obtain ⟨b', hb', heq'⟩ := h'.reservations i b'' hb''
    obtain ⟨b, hb, heq⟩ := h.reservations i b' hb'
    exact ⟨b, hb, heq'.trans heq⟩
  stays i b'' hb'' := by
    obtain ⟨b', hb', heq'⟩ := h'.stays i b'' hb''
    obtain ⟨b, hb, heq⟩ := h.stays i b' hb'
    refine ⟨b, hb, ?_⟩
    obtain heq' | heq' := heq'
    · rw [heq']
      exact heq
    · exact .inr (heq'.trans (prolongedStay_eq h.toGamesPass))
  alives i a ha := h.alives i a (h'.alives i a ha)

theorem setTable {t t' : TableObject} (ht : d.tables.find? table = some t) (heq : t'.gameExpiration = t.gameExpiration) :
    Passes d { d with tables := d.tables.set table t' } := by
  refine { refl d with games := fun i u hu ↦ ?_ }
  rw [ObjectIndex.find?_set] at hu
  split_ifs at hu with hi
  · rw [hi, ht] at hu
    obtain rfl := Option.some.inj hu
    exact ⟨t, hi ▸ ht, .inl heq⟩
  · exact ⟨u, hu, .inl rfl⟩

theorem removeReservation (d : Database) (id : PendingBuyInId) :
    Passes d { d with pendingBuyIns := d.pendingBuyIns.remove id } :=
  { refl d with reservations := fun _ b hb ↦ ⟨b, (ObjectIndex.find?_of_find?_remove hb).2, rfl⟩ }

theorem removeStay (d : Database) (id : ℕ) : Passes d { d with buyIns := d.buyIns.remove id } :=
  { refl d with stays := fun _ b hb ↦ ⟨b, (ObjectIndex.find?_of_find?_remove hb).2, .inl rfl⟩ }

theorem removeAlive (d : Database) (id : ℕ) : Passes d { d with tableAlives := d.tableAlives.remove id } :=
  { refl d with alives := fun _ _ ha ↦ (ObjectIndex.find?_of_find?_remove ha).2 }

theorem prolong (d : Database) (id : ℕ) : Passes d (prolongLifeForByIn d id) := by
  refine { refl d with stays := fun i b' hb' ↦ ?_ }
  change (d.buyIns.toObjectIndex.modify id _).find? i = some b' at hb'
  rw [ObjectIndex.find?_modify] at hb'
  split_ifs at hb'
  · obtain ⟨b, hb, rfl⟩ := Option.map_eq_some_iff.1 hb'
    exact ⟨b, hb, .inr rfl⟩
  · exact ⟨b', hb', .inl rfl⟩

end Passes

/-! ### The tasks -/

theorem modifyTable_passes (d : Database) (table : TableId) {body : TableObject → Except ChainError TableObject}
    (hbody : ∀ t t', body t = .ok t' → t'.gameExpiration = t.gameExpiration) :
    (d.modifyTable table body).Ensures anyError fun d' ↦ Passes d d' ∧ d'.buyIns = d.buyIns :=
  (orUnableToFind_ensures fun _ _ ↦ trivial).bind fun t ht ↦
    (Except.Ensures.any _).with_eq.bind fun t' h ↦ .pure ⟨.setTable ht (hbody t t' h.1), rfl⟩

theorem adjustBalance_passes (d : Database) (account : AccountId) (delta : Asset) :
    (d.adjustBalance account delta).Ensures anyError (Passes d) := by
  refine (adjustBalance_ensures d account delta fun _ _ ↦ trivial).mono ?_
  rintro _ ⟨b, rfl, -⟩
  exact .of_eq rfl rfl rfl rfl rfl rfl

theorem adjustCash_gameExpiration {t t' : TableObject} {p : PlayerId} {delta : Asset}
    (h : t.adjustCash p delta = .ok t') : t'.gameExpiration = t.gameExpiration := by
  obtain ⟨r, -, h⟩ := Except.bind_eq_ok.1 h
  obtain rfl := Except.pure_eq_ok.1 h
  rfl

theorem removePendingProposal_gameExpiration (t : TableObject) (p : PlayerId) :
    (t.removePendingProposal p).gameExpiration = t.gameExpiration := by
  rw [TableObject.removePendingProposal]
  split <;> rfl

theorem setWeight_passes (d : Database) (table : TableId) : (setWeight d table).Ensures anyError (Passes d) := by
  refine (orUnableToFind_ensures fun _ _ ↦ trivial).bind fun t ht ↦ ?_
  split_ifs
  · exact (Except.Ensures.any _).bind fun room _ ↦ .pure (.setTable ht rfl)
  · exact (Except.Ensures.any _).bind fun room _ ↦ .pure (.setTable ht rfl)
  · exact .pure (.setTable ht rfl)

theorem buyOutTable_passes (d : Database) (player : PlayerId) (table : TableId) (amount : Asset) :
    (buyOutTable d player table amount).Ensures anyError fun d' ↦ Passes d d' ∧ d'.buyIns = d.buyIns := by
  have hbuyOuts (e : Database) {x : UniqueIndex fun b : PendingBuyOutObject ↦ (b.player, b.table)} :
      Passes e { e with pendingBuyOuts := x } := .of_eq rfl rfl rfl rfl rfl rfl
  refine (Except.Ensures.any _).bind fun t _ ↦ (Except.Ensures.any _).bind fun obj _ ↦
    (Except.Ensures.any _).bind fun allow _ ↦ ?_
  dsimp only
  split_ifs
  · refine (adjustBalance_ensures d _ amount fun _ _ ↦ trivial).bind ?_
    rintro _ ⟨balances, rfl, -⟩
    refine (modifyTable_passes _ table fun _ _ ↦ adjustCash_gameExpiration).bind ?_
    rintro d₁ ⟨h₁, hstays⟩
    have h₀ : Passes d { d with balances := balances } := .of_eq rfl rfl rfl rfl rfl rfl
    have h₁ : Passes d d₁ := h₀.trans h₁
    split
    · exact .pure ⟨h₁.trans (hbuyOuts _), hstays⟩
    · exact .pure ⟨h₁, hstays⟩
  · split
    · exact (Except.Ensures.any _).bind fun _ _ ↦ .pure ⟨hbuyOuts d, rfl⟩
    · exact .pure ⟨hbuyOuts d, rfl⟩
  · split
    · exact .pure ⟨hbuyOuts d, rfl⟩
    · exact .pure ⟨.refl d, rfl⟩

/-- A stay that is handled ends or is prolonged. -/
theorem expireBuyIn_passes (d : Database) (id : ℕ) (player : PlayerId) (table : TableId) :
    (expireBuyIn d id player table).Ensures anyError fun d' ↦
      Passes d d' ∧ ∀ b, d'.buyIns.find? id = some b → b.expiration = prolongedStay d := by
  have hremoved (e : Database) : ∀ b, (e.buyIns.remove id).find? id = some b → b.expiration = prolongedStay d := by
    intro b hb
    exact absurd rfl (ObjectIndex.find?_of_find?_remove hb).1
  refine (Except.Ensures.any _).bind fun obj _ ↦ (Except.Ensures.any _).bind fun t _ ↦ ?_
  refine Except.Ensures.bind (Q := Passes d) ?_ fun d₁ h₁ ↦ (Except.Ensures.any _).bind fun t₁ _ ↦ ?_
  · split_ifs
    · exact (buyOutTable_passes d player table _).mono fun _ h ↦ h.1
    · exact .pure (.refl d)
  · split_ifs
    · refine Except.Ensures.bind (Q := Passes d) ?_ fun d₂ h₂ ↦ .pure ⟨h₂.trans (.removeStay d₂ id), hremoved d₂⟩
      exact (Except.Ensures.any _).bind fun owner _ ↦ .pure (h₁.trans (.of_eq rfl rfl rfl rfl rfl rfl))
    · exact .pure ⟨h₁.trans (.removeStay d₁ id), hremoved d₁⟩
    · refine .pure ⟨h₁.trans (.prolong d₁ id), fun b hb ↦ ?_⟩
      change (d₁.buyIns.toObjectIndex.modify id _).find? id = some b at hb
      rw [ObjectIndex.find?_modify, if_pos rfl] at hb
      obtain ⟨b₀, -, rfl⟩ := Option.map_eq_some_iff.1 hb
      exact Passes.prolongedStay_eq h₁.toGamesPass

theorem pushPendingBuyExpireOperation_passes (d : Database) (id : PendingBuyInId) (b : PendingBuyInObject)
    (byReplacement : Bool) :
    (pushPendingBuyExpireOperation d id b byReplacement).Ensures anyError fun d' ↦
      Passes d d' ∧ d'.pendingBuyIns = d.pendingBuyIns := by
  rw [pushPendingBuyExpireOperation]
  split_ifs
  · refine (Except.Ensures.any _).bind fun t _ ↦ (Except.Ensures.any _).bind fun owner _ ↦ ?_
    dsimp only
    split
    · exact .pure ⟨.of_eq rfl rfl rfl rfl rfl rfl, rfl⟩
    · exact .pure ⟨.of_eq rfl rfl rfl rfl rfl rfl, rfl⟩
  · exact .pure ⟨.of_eq rfl rfl rfl rfl rfl rfl, rfl⟩

/-- The last part of the return of a reservation. -/
theorem returnMoney_passes (d : Database) (id : PendingBuyInId) (b : PendingBuyInObject) (byReplacement : Bool) :
    (do
      let d ← d.adjustBalance b.player b.amount
      let d ← pushPendingBuyExpireOperation d id b byReplacement
      return { d with pendingBuyIns := d.pendingBuyIns.remove id }).Ensures anyError fun d' ↦
        Passes d d' ∧ d'.pendingBuyIns.find? id = none := by
  refine (adjustBalance_passes d _ _).bind fun d₁ h₁ ↦ ?_
  refine (pushPendingBuyExpireOperation_passes d₁ id b byReplacement).bind fun d₂ h₂ ↦ .pure ⟨?_, ?_⟩
  · exact h₁.trans (h₂.1.trans (.removeReservation d₂ id))
  · exact (ObjectIndex.find?_remove _ id id).trans (if_pos rfl)

/-- A reservation that is handled is gone. -/
theorem expirePendingBuyIn_passes (d : Database) (p : PendingBuyInId × PendingBuyInObject) :
    (expirePendingBuyIn d p).Ensures anyError fun d' ↦ Passes d d' ∧ d'.pendingBuyIns.find? p.1 = none := by
  refine Except.Ensures.bind (Q := Passes d) ?_ fun d₁ h₁ ↦
    (returnMoney_passes d₁ p.1 p.2 false).mono fun _ h ↦ ⟨h₁.trans h.1, h.2⟩
  split_ifs
  · refine (Except.Ensures.any _).bind fun player _ ↦ (modifyTable_passes d _ fun t t' h ↦ ?_).mono fun _ h ↦ h.1
    rw [← Except.pure_eq_ok.1 h, removePendingProposal_gameExpiration]
  · exact .pure (.refl d)

/-! ### Allocation -/

theorem addPendingProposal_gameExpiration (t : TableObject) (p : PlayerId) (id : PendingBuyInId) :
    (t.addPendingProposal p id).2.gameExpiration = t.gameExpiration := by
  rw [TableObject.addPendingProposal]
  split <;> rfl

theorem allocateTable_passes (d : Database) (id : PendingBuyInId) (b : PendingBuyInObject) (table : TableId) :
    (allocateTable d id b table).Ensures anyError fun r ↦ Passes d r.2 := by
  refine (Except.Ensures.any _).bind fun player _ ↦ (orUnableToFind_ensures fun _ _ ↦ trivial).bind fun t ht ↦ ?_
  refine (Except.Ensures.any _).bind fun room _ ↦ (Except.Ensures.any _).bind fun measurements _ ↦ .pure ?_
  have h₁ : Passes d { d with tables := d.tables.set table (t.addPendingProposal player.1 id).2 } :=
    .setTable ht (addPendingProposal_gameExpiration t player.1 id)
  refine h₁.trans { Passes.refl _ with reservations := fun i b' hb' ↦ ?_ }
  change (d.pendingBuyIns.toObjectIndex.modify id _).find? i = some b' at hb'
  rw [ObjectIndex.find?_modify] at hb'
  split_ifs at hb'
  · obtain ⟨b₀, hb₀, rfl⟩ := Option.map_eq_some_iff.1 hb'
    exact ⟨b₀, hb₀, rfl⟩
  · exact ⟨b', hb', rfl⟩

theorem findInRange_passes (range : List (TableId × TableObject)) (d : Database) (id : PendingBuyInId)
    (b : PendingBuyInObject) :
    (findInRange range d id b).Ensures anyError fun found ↦ ∀ r, found = some r → Passes d r.2 := by
  refine (Except.Ensures.any _).bind fun p _ ↦ ?_
  cases p with
  | none => exact .pure nofun
  | some p =>
    exact (allocateTable_passes d id b p.1).bind fun r hr ↦ .pure fun r' hr' ↦ Option.some.inj hr' ▸ hr

theorem allocateVacancy_passes (s : Database × FlatSet PendingBuyInId) (p : PendingBuyInId × PendingBuyInObject) :
    (allocateVacancy s p).Ensures anyError fun s' ↦ Passes s.1 s'.1 := by
  rw [allocateVacancy]
  split_ifs
  · exact .pure (.refl s.1)
  refine (findInRange_passes _ s.1 p.1 p.2).bind fun first hfirst ↦ ?_
  refine Except.Ensures.bind (Q := fun found ↦ ∀ r, found = some r → Passes s.1 r.2) ?_ fun found hfound ↦ ?_
  · cases first with
    | none => exact findInRange_passes _ s.1 p.1 p.2
    | some r => exact .pure hfirst
  · cases found with
    | none => exact .pure (.refl s.1)
    | some r => exact .pure (hfound r rfl)

theorem allocationOfVacancies_passes (d : Database) : (allocationOfVacancies d).Ensures anyError (Passes d) := by
  refine Except.Ensures.bind (Q := fun s : Database × FlatSet PendingBuyInId ↦ Passes d s.1) ?_ fun s hs ↦ ?_
  · refine Except.Ensures.foldlM (fun s : Database × FlatSet PendingBuyInId ↦ Passes d s.1) (fun p _ s hs ↦ ?_) (.refl d)
    exact (allocateVacancy_passes s p).mono fun _ h ↦ hs.trans h
  · refine Except.Ensures.foldlM (Passes d) (fun id _ e he ↦ ?_) hs
    exact (Except.Ensures.any _).bind fun b _ ↦ (returnMoney_passes e id b true).mono fun _ h ↦ he.trans h.1

/-! ### Games -/

theorem GamesPass.of_local (h : LocalTo table d d')
    (htable : ∀ t, d'.tables.find? table = some t → t.gameExpiration = TimePointSec.maximum) : GamesPass d d' where
  headBlockTime := h.headBlockTime
  parameters := h.parameters
  games i t' ht' := by
    have hlabel := h.labels i
    rw [ht'] at hlabel
    obtain ⟨t, ht, -⟩ := Option.map_eq_some_iff.1 hlabel.symm
    by_cases hi : i = table
    · exact ⟨t, ht, .inr (htable t' (hi ▸ ht'))⟩
    · rw [h.tables i hi, ht] at ht'
      exact ⟨t, ht, .inl (Option.some.inj ht' ▸ rfl)⟩

theorem rolledBack_gameExpiration {fullClear : Bool} {t t' : TableObject} (h : rolledBack fullClear t = .ok t') :
    t'.gameExpiration = TimePointSec.maximum := by
  rw [rolledBack] at h
  split_ifs at h
  · obtain rfl := Except.pure_eq_ok.1 h
    rfl
  · obtain ⟨u, hu, h⟩ := Except.bind_eq_ok.1 h
    obtain rfl := Except.pure_eq_ok.1 h
    have hloop := Except.Ensures.foldlM (E := anyError) (f := fun (t : TableObject) p ↦ t.adjustCash p.1 p.2)
      (fun u : TableObject ↦ u.gameExpiration = TimePointSec.maximum) (l := t.playingCash.toList)
      (fun p _ u hu ↦ Except.Ensures.of_forall fun u' hu' ↦ (adjustCash_gameExpiration hu').trans hu)
      (s := { t with gameCreated := TimePointSec.min, gameExpiration := TimePointSec.maximum }) rfl
    have hmax : u.gameExpiration = TimePointSec.maximum := hloop.of_ok hu
    exact hmax

/-- The game at a table that is cleared has no deadline any more. -/
theorem rollback_gamesPass (htime : hardforkPlaychain10Time ≤ d.headBlockTime) (table : TableId) :
    (rollback d table true).Ensures anyError fun d' ↦ GamesPass d d' ∧
      ∀ t, d'.tables.find? table = some t → t.gameExpiration = TimePointSec.maximum := by
  have hdone : (rollback d table true).Ensures anyError fun d' ↦
      ∀ t, d'.tables.find? table = some t → t.gameExpiration = TimePointSec.maximum := by
    have hcleanup (e : Database) : (cleanupVoting e table).tables = e.tables := by
      rw [cleanupVoting]
      split <;> rfl
    have hstays (e : Database) : (cleanupBuyIns e table).tables = e.tables :=
      List.foldlRecOn (motive := fun e' : Database ↦ e'.tables = e.tables) _ _ rfl fun _ he _ _ ↦ he
    have hvotes (e : Database) : (cleanupPendingVotes e table).tables = e.tables := by
      rw [cleanupPendingVotes]
      split_ifs
      · exact List.foldlRecOn (motive := fun e' : Database ↦ e'.tables = e.tables) _ _ rfl fun _ he _ _ ↦ he
      · rfl
    rw [rollback, if_pos htime]
    refine Except.Ensures.bind (Q := fun e : Database ↦
      ∀ t, e.tables.find? table = some t → t.gameExpiration = TimePointSec.maximum) ?_ fun e he ↦ .pure ?_
    · refine Except.Ensures.bind (Q := fun e : Database ↦
        ∀ t, e.tables.find? table = some t → t.gameExpiration = TimePointSec.maximum) ?_ fun e he ↦ .pure ?_
      · refine (Except.Ensures.any _).bind fun t _ ↦ (Except.Ensures.any _).bind fun owner _ ↦
          (Except.Ensures.any _).bind fun s _ ↦ (Except.Ensures.any _).bind fun u _ ↦
          (Except.Ensures.any _).bind fun d₁ _ ↦ ?_
        refine Except.Ensures.bind (Q := fun e : Database ↦
          ∀ t, e.tables.find? table = some t → t.gameExpiration = TimePointSec.maximum) ?_ fun e he ↦ .pure ?_
        · refine (orUnableToFind_ensures fun _ _ ↦ trivial).bind fun t ht ↦
            (Except.Ensures.any _).with_eq.bind fun t' ht' ↦ .pure fun u hu ↦ ?_
          rw [ObjectIndex.find?_set_self ht] at hu
          exact Option.some.inj hu ▸ rolledBack_gameExpiration ht'.1
        · rwa [hvotes]
      · rwa [hstays]
    · rwa [hcleanup]
  exact ((rollback_local d table true).and hdone).mono fun _ h ↦ ⟨.of_local h.1 h.2, h.2⟩

/-- After the expiration of games at a maintenance, no game is overdue. -/
theorem updateExpiredTableGame_passes (htime : hardforkPlaychain10Time ≤ d.headBlockTime) (maintenance : Bool) :
    (updateExpiredTableGame d maintenance).Ensures anyError fun d' ↦ GamesPass d d' ∧
      (maintenance = true → d.headBlockTime < TimePointSec.maximum →
        ∀ i t, d'.tables.find? i = some t → d.headBlockTime < t.gameExpiration) := by
  rw [updateExpiredTableGame]
  split_ifs with hskip
  · exact .pure ⟨.refl d, fun hmaintenance ↦ absurd (hskip.2.symm.trans hmaintenance) (by decide)⟩
  refine (foldlM_done GamesPass
    (fun p e ↦ ∀ t, e.tables.find? p.1 = some t → t.gameExpiration = TimePointSec.maximum) (.refl d)
    (fun _ _ h h' ↦ h.trans h') ?_ ?_).mono ?_
  · intro p _ e he
    refine (Except.Ensures.any _).bind fun t _ ↦ (Except.Ensures.any _).bind fun owner _ ↦ ?_
    exact (rollback_gamesPass (d := e.pushGameEvent p.1 owner .failExpireGameLifetime)
      (htime.trans he.headBlockTime.ge) p.1).mono fun _ h ↦ ⟨⟨h.1.headBlockTime, h.1.parameters, h.1.games⟩, h.2⟩
  · intro p e e' _ he hdone t' ht'
    obtain ⟨t, ht, heq | heq⟩ := he.games p.1 t' ht'
    · exact heq.trans (hdone t ht)
    · exact heq
  · rintro d' ⟨hpass, hdone⟩
    refine ⟨hpass, fun _ hmax i t' ht' ↦ ?_⟩
    obtain ⟨t, ht, heq | heq⟩ := hpass.games i t' ht'
    · by_cases hdue : t.gameExpiration ≤ d.headBlockTime
      · rw [hdone (i, t) (mem_dueBy.2 ⟨ht, hdue⟩) t' ht']
        exact hmax
      · rw [heq]
        exact not_le.1 hdue
    · rw [heq]
      exact hmax

/-! ### All tasks -/

/-- Reservations, stays and signs of life that are not overdue. -/
structure Punctual (now : TimePointSec) (d : Database) : Prop where
  reservations : ∀ i b, d.pendingBuyIns.find? i = some b → now < b.expiration
  stays : ∀ i b, d.buyIns.find? i = some b → now < b.expiration
  alives : ∀ i a, d.tableAlives.find? i = some a → now < a.expiration

theorem updateExpiredPendingBuyIn_passes (d : Database) :
    (updateExpiredPendingBuyIn d).Ensures anyError fun e ↦ Passes d e ∧
      ∀ i b, e.pendingBuyIns.find? i = some b → d.headBlockTime < b.expiration := by
  refine (foldlM_done Passes (fun p e ↦ e.pendingBuyIns.find? p.1 = none) (.refl d) (fun _ _ h h' ↦ h.trans h')
    (fun p _ e _ ↦ expirePendingBuyIn_passes e p) fun p e e' _ he hnone ↦ ?_).mono ?_
  · cases hfind : e'.pendingBuyIns.find? p.1 with
    | none => rfl
    | some b' =>
      obtain ⟨b, hb, -⟩ := he.reservations p.1 b' hfind
      rw [hnone] at hb
      cases hb
  · rintro e ⟨hpass, hdone⟩
    refine ⟨hpass, fun i b hb ↦ ?_⟩
    obtain ⟨b₀, hb₀, heq⟩ := hpass.reservations i b hb
    rw [heq]
    by_contra hdue
    rw [hdone (i, b₀) (mem_dueBy.2 ⟨hb₀, not_lt.1 hdue⟩)] at hb
    cases hb

/-- A stay that is over is prolonged or removed; the sum of times must not overflow. -/
theorem updateExpiredBuyIn_passes (d : Database) :
    (updateExpiredBuyIn d).Ensures anyError fun e ↦ Passes d e ∧
      (d.headBlockTime < prolongedStay d →
        ∀ i b, e.buyIns.find? i = some b → d.headBlockTime < b.expiration) := by
  refine (foldlM_done Passes (fun p e ↦ d.headBlockTime < prolongedStay d →
    ∀ b, e.buyIns.find? p.1 = some b → d.headBlockTime < b.expiration)
    (.refl d) (fun _ _ h h' ↦ h.trans h') (fun p _ e₁ he₁ ↦ ?_) fun p e₁ e₂ he₁ he₂ hdone hlong b hb ↦ ?_).mono ?_
  · have hprolonged : prolongedStay e₁ = prolongedStay d := Passes.prolongedStay_eq he₁.toGamesPass
    refine (Except.Ensures.any _).bind fun t _ ↦ ?_
    split_ifs
    · refine .pure ⟨.prolong e₁ p.1, fun hlong b hb ↦ ?_⟩
      change (e₁.buyIns.toObjectIndex.modify p.1 _).find? p.1 = some b at hb
      rw [ObjectIndex.find?_modify, if_pos rfl] at hb
      obtain ⟨b₀, -, rfl⟩ := Option.map_eq_some_iff.1 hb
      exact hlong.trans_eq hprolonged.symm
    · exact (expireBuyIn_passes e₁ p.1 p.2.player p.2.table).mono fun _ h ↦
        ⟨h.1, fun hlong b hb ↦ by rw [h.2 b hb, hprolonged]; exact hlong⟩
  · obtain ⟨b₁, hb₁, heq | heq⟩ := he₂.stays p.1 b hb
    · exact heq ▸ hdone hlong b₁ hb₁
    · rw [heq, Passes.prolongedStay_eq he₁.toGamesPass]
      exact hlong
  · rintro e ⟨hpass, hdone⟩
    refine ⟨hpass, fun hlong i b hb ↦ ?_⟩
    obtain ⟨b₀, hb₀, heq | heq⟩ := hpass.stays i b hb
    · by_cases hdue : b₀.expiration ≤ d.headBlockTime
      · exact hdone (i, b₀) (mem_dueBy.2 ⟨hb₀, hdue⟩) hlong b hb
      · exact heq ▸ not_le.1 hdue
    · exact heq ▸ hlong

theorem updateExpiredTableAlive_passes (d : Database) :
    (updateExpiredTableAlive d).Ensures anyError fun e ↦ Passes d e ∧
      ∀ i a, e.tableAlives.find? i = some a → d.headBlockTime < a.expiration := by
  refine (foldlM_done Passes (fun p e ↦ e.tableAlives.find? p.1 = none) (.refl d) (fun _ _ h h' ↦ h.trans h')
    (fun p _ e₁ _ ↦ ?_) fun p e₁ e₂ _ he₂ hnone ↦ ?_).mono ?_
  · refine (setWeight_passes { e₁ with tableAlives := e₁.tableAlives.remove p.1 } p.2.table).mono fun e₂ h ↦
      ⟨(Passes.removeAlive e₁ p.1).trans h, ?_⟩
    cases hfind : e₂.tableAlives.find? p.1 with
    | none => rfl
    | some a => exact absurd rfl (ObjectIndex.find?_of_find?_remove (h.alives p.1 a hfind)).1
  · cases hfind : e₂.tableAlives.find? p.1 with
    | none => rfl
    | some a =>
      have ha := he₂.alives p.1 a hfind
      rw [hnone] at ha
      cases ha
  · rintro e ⟨hpass, hdone⟩
    refine ⟨hpass, fun i a ha ↦ ?_⟩
    by_contra hdue
    rw [hdone (i, a) (mem_dueBy.2 ⟨hpass.alives i a ha, not_lt.1 hdue⟩)] at ha
    cases ha

/-- What is over is gone when the allocation starts. -/
theorem updateExpirations_passes (d : Database) :
    (updateExpirations d).Ensures anyError fun e ↦ Passes d e ∧
      (∀ i b, e.pendingBuyIns.find? i = some b → d.headBlockTime < b.expiration) ∧
      (d.headBlockTime < prolongedStay d → Punctual d.headBlockTime e) := by
  refine (updateExpiredPendingBuyIn_passes d).bind ?_
  rintro d₁ ⟨h₁, hres⟩
  refine (updateExpiredBuyIn_passes d₁).bind ?_
  rintro d₂ ⟨h₂, hstay⟩
  refine (updateExpiredTableAlive_passes d₂).mono ?_
  rintro e ⟨h₃, halive⟩
  have hres' : ∀ i b, e.pendingBuyIns.find? i = some b → d.headBlockTime < b.expiration := by
    intro i b hb
    obtain ⟨b₀, hb₀, heq⟩ := (h₂.trans h₃).reservations i b hb
    exact heq ▸ hres i b₀ hb₀
  refine ⟨h₁.trans (h₂.trans h₃), hres', fun hlong ↦ ⟨hres', fun i b hb ↦ ?_, fun i a ha ↦ ?_⟩⟩
  · rw [← h₁.headBlockTime, ← Passes.prolongedStay_eq h₁.toGamesPass] at hlong
    obtain ⟨b₀, hb₀, heq | heq⟩ := h₃.stays i b hb
    · exact h₁.headBlockTime ▸ heq ▸ hstay hlong i b₀ hb₀
    · rw [heq, Passes.prolongedStay_eq h₂.toGamesPass, ← h₁.headBlockTime]
      exact hlong
  · rw [← h₁.headBlockTime, ← h₂.headBlockTime]
    exact halive i a ha

/-- The allocation sets no deadline but for stays. -/
theorem Punctual.allocated (h : Punctual d.headBlockTime d) (hlong : d.headBlockTime < prolongedStay d)
    (hpass : Passes d d') : Punctual d.headBlockTime d' := by
  refine ⟨fun i b hb ↦ ?_, fun i b hb ↦ ?_, fun i a ha ↦ h.alives i a (hpass.alives i a ha)⟩
  · obtain ⟨b₀, hb₀, heq⟩ := hpass.reservations i b hb
    exact heq ▸ h.reservations i b₀ hb₀
  · obtain ⟨b₀, hb₀, heq | heq⟩ := hpass.stays i b hb
    · exact heq ▸ h.stays i b₀ hb₀
    · exact heq ▸ hlong

/-- The block tasks of a state with the invariant leave nothing whose time is over. -/
theorem processBlockTasks_punctual [GameDigest] (hd : Sound anyRun d) (hmax : d.headBlockTime < TimePointSec.maximum)
    (hlong : d.headBlockTime < prolongedStay d) {maintenance : Bool} (htasks : processBlockTasks d maintenance = .ok d') :
    Punctual d.headBlockTime d' ∧
      (maintenance = true → ∀ i t, d'.tables.find? i = some t → d.headBlockTime < t.gameExpiration) := by
  obtain ⟨d₁, d₂, d₃, d₄, d₅, hrun⟩ := (processBlockTasks_ensures (E := anyError) hd.wf hd.votes (fun hf ↦ hf.elim)
    (fun _ _ ↦ trivial) (fun _ _ _ _ ↦ trivial) maintenance).of_ok htasks
  -- the votings do not touch what has a deadline
  have hsteady : d₃.headBlockTime = d.headBlockTime ∧ d₃.parameters = d.parameters := by
    obtain ⟨invitations, ops, rfl⟩ := hrun.invitations
    exact ⟨hrun.expired.steady.headBlockTime.trans hrun.scheduled.steady.headBlockTime,
      hrun.expired.steady.parameters.trans hrun.scheduled.steady.parameters⟩
  obtain ⟨h₄, hdone⟩ := (updateExpiredTableGame_passes hrun.expired.transfer.wf.time maintenance).of_ok hrun.games_eq
  obtain ⟨h₅, -, hpunctual⟩ := (updateExpirations_passes d₄).of_ok hrun.expirations_eq
  have h' := (allocationOfVacancies_passes d₅).of_ok hrun.allocation_eq
  have htime₄ : d₄.headBlockTime = d.headBlockTime := h₄.headBlockTime.trans hsteady.1
  have hlong₄ : d₄.headBlockTime < prolongedStay d₄ := by
    rw [prolongedStay, htime₄, h₄.parameters, hsteady.2]
    exact hlong
  have htime₅ : d₅.headBlockTime = d.headBlockTime := h₅.headBlockTime.trans htime₄
  have hlong₅ : d₅.headBlockTime < prolongedStay d₅ := by
    rw [Passes.prolongedStay_eq h₅.toGamesPass, h₅.headBlockTime]
    exact hlong₄
  have hpunctual₅ : Punctual d₅.headBlockTime d₅ := by
    rw [h₅.headBlockTime]
    exact hpunctual hlong₄
  refine ⟨htime₅ ▸ hpunctual₅.allocated hlong₅ h', fun hmaintenance i t' ht' ↦ ?_⟩
  obtain ⟨t, ht, heq | heq⟩ := (h₅.trans h').games i t' ht'
  · rw [heq, ← hsteady.1]
    exact hdone hmaintenance (hsteady.1.symm ▸ hmax) i t ht
  · exact heq ▸ hmax

section Runs

variable [GameDigest] [RatingFunctions] {time : TimePointSec}

/-- **Deadlines are kept.** In every state of a chain under the rules since the tenth hard fork, the tasks of a block leave
no reservation, no stay and no sign of life whose time is over at the time of the block, and at a maintenance no game whose
time is over, as long as the sums of times do not overflow. -/
theorem deadlines_kept (h : ReachableSince10 time d) {now : TimePointSec} (hnow : d.headBlockTime ≤ now)
    (hten : hardforkPlaychain10Time ≤ now) (hmax : now < TimePointSec.maximum)
    (hlong : now < TimePointSec.addSeconds now d.parameters.buyInExpirationSeconds) {maintenance : Bool}
    (htasks : processBlockTasks { d with headBlockTime := now } maintenance = .ok d') :
    Punctual now d' ∧
      (maintenance = true → ∀ i t, d'.tables.find? i = some t → now < t.gameExpiration) :=
  processBlockTasks_punctual ((Sound.of_reachable h).at_time hnow hten) hmax hlong htasks

end Runs

/-- An hour later the tasks of a maintenance run through. -/
def HourPasses (d : Database) : Prop :=
  hardforkPlaychain10Time ≤ d.headBlockTime + 3600 ∧ d.headBlockTime + 3600 < TimePointSec.maximum ∧
    d.headBlockTime + 3600 <
      TimePointSec.addSeconds (d.headBlockTime + 3600) d.parameters.buyInExpirationSeconds ∧
    (@processBlockTasks sampleDigest { d with headBlockTime := d.headBlockTime + 3600 } true).toOption.isSome = true

instance : DecidablePred HourPasses := fun _ ↦ inferInstanceAs (Decidable (_ ∧ _ ∧ _))

theorem deadlines_kept_hour : ∃ d d',
    @ReachableSince10 sampleDigest sampleRating hardforkPlaychain9Time d ∧
      @processBlockTasks sampleDigest { d with headBlockTime := d.headBlockTime + 3600 } true = .ok d' ∧
      Punctual (d.headBlockTime + 3600) d' ∧
      ∀ i t, d'.tables.find? i = some t → d.headBlockTime + 3600 < t.gameExpiration := by
  obtain ⟨d, hd, hten, hmax, hlong, hsome⟩ := @exists_reachableIf_of_run hardforkPlaychain9Time sampleDigest
    sampleRating (fun d event ↦ event.SinceHardfork10 d) _ sampleGame 9 sampleClaimed HourPasses _ (by decide)
  cases htasks : @processBlockTasks sampleDigest { d with headBlockTime := d.headBlockTime + 3600 } true with
  | error e =>
    rw [htasks] at hsome
    cases hsome
  | ok d' =>
    have h := @deadlines_kept _ d' sampleDigest sampleRating _ hd _ (Nat.le_add_right _ _) hten hmax hlong _ htasks
    exact ⟨d, d', hd, htasks, h.1, h.2 rfl⟩

end Playchain
