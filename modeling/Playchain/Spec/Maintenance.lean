import Playchain.Chain
import Playchain.Spec.Local

/-!
# What maintenance keeps

The maintenance tasks and the rest of the chain leave cash, games, votes and reservations alone:
`Maintained d d'` lists what stays. It keeps the invariants `WellFormed` and `VotesOk`.
-/

namespace Playchain

variable {mode : Mode} {d d' d'' : Database}

/-- **What maintenance keeps.** -/
structure Maintained (d d' : Database) : Prop where
  headBlockTime : d'.headBlockTime = d.headBlockTime
  players : ObjectIndex.Keeps PlayerObject.account d.players.toObjectIndex d'.players.toObjectIndex
  gameWitnesses : ObjectIndex.Keeps GameWitnessObject.account d.gameWitnesses.toObjectIndex
    d'.gameWitnesses.toObjectIndex
  rooms : ObjectIndex.Keeps (fun r : RoomObject ↦ (r.owner, r.pendingRake.assetId))
    d.rooms.toObjectIndex d'.rooms.toObjectIndex
  rooms_old : ∀ id, d'.rooms.Has id → d.rooms.Has id
  /-- Tables change their weight only. -/
  tables : ∀ id t, d.tables.find? id = some t →
    ∃ w, d'.tables.find? id = some { t with weight := w }
  tables_old : ∀ id, d'.tables.Has id → d.tables.Has id
  tableVotings : d'.tableVotings = d.tableVotings
  pendingTableVotes : d'.pendingTableVotes = d.pendingTableVotes
  tableAlives : d'.tableAlives = d.tableAlives
  pendingBuyIns : d'.pendingBuyIns = d.pendingBuyIns
  pendingBuyOuts : d'.pendingBuyOuts = d.pendingBuyOuts
  buyIns : d'.buyIns = d.buyIns
  roomRatingMeasurements : ∀ id m, d'.roomRatingMeasurements.find? id = some m →
    d.roomRatingMeasurements.find? id = some m

namespace Maintained

theorem refl (d : Database) : Maintained d d where
  headBlockTime := rfl
  players := .refl _ _
  gameWitnesses := .refl _ _
  rooms := .refl _ _
  rooms_old _ h := h
  tables _ t h := ⟨t.weight, h⟩
  tables_old _ h := h
  tableVotings := rfl
  pendingTableVotes := rfl
  tableAlives := rfl
  pendingBuyIns := rfl
  pendingBuyOuts := rfl
  buyIns := rfl
  roomRatingMeasurements _ _ h := h

theorem trans (h : Maintained d d') (h' : Maintained d' d'') : Maintained d d'' where
  headBlockTime := h'.headBlockTime.trans h.headBlockTime
  players := h.players.trans h'.players
  gameWitnesses := h.gameWitnesses.trans h'.gameWitnesses
  rooms := h.rooms.trans h'.rooms
  rooms_old id hid := h.rooms_old id (h'.rooms_old id hid)
  tables id t ht := by
    obtain ⟨w, hw⟩ := h.tables id t ht
    obtain ⟨w', hw'⟩ := h'.tables id { t with weight := w } hw
    exact ⟨w', hw'⟩
  tables_old id hid := h.tables_old id (h'.tables_old id hid)
  tableVotings := h'.tableVotings.trans h.tableVotings
  pendingTableVotes := h'.pendingTableVotes.trans h.pendingTableVotes
  tableAlives := h'.tableAlives.trans h.tableAlives
  pendingBuyIns := h'.pendingBuyIns.trans h.pendingBuyIns
  pendingBuyOuts := h'.pendingBuyOuts.trans h.pendingBuyOuts
  buyIns := h'.buyIns.trans h.buyIns
  roomRatingMeasurements id m hm := h.roomRatingMeasurements id m (h'.roomRatingMeasurements id m hm)

/-- A table after maintenance is the table before with another weight. -/
theorem exists_table (h : Maintained d d') {id : TableId} {t' : TableObject}
    (ht' : d'.tables.find? id = some t') :
    ∃ t w, d.tables.find? id = some t ∧ t' = { t with weight := w } := by
  obtain ⟨t, ht⟩ := h.tables_old id ⟨t', ht'⟩
  obtain ⟨w, hw⟩ := h.tables id t ht
  exact ⟨t, w, ht, Option.some.inj (ht'.symm.trans hw)⟩

/-! ### Elementary updates -/

/-- The log of applied operations is not looked at. -/
theorem log (d : Database) (op : VirtualOperation) : Maintained d (d.pushAppliedOperation op) :=
  { refl d with }

theorem setVestingBalances (d : Database) (vbs : ObjectIndex VestingBalanceObject) :
    Maintained d { d with vestingBalances := vbs } :=
  { refl d with }

theorem setAverage (d : Database) (x : ℤ) : Maintained d { d with averageRoomRating := x } :=
  { refl d with }

/-- A player may change in all but the account. -/
theorem modifyPlayer (d : Database) (id : PlayerId) {g : PlayerObject → PlayerObject}
    (hg : ∀ p, (g p).account = p.account) :
    Maintained d { d with players := d.players.modify id g hg } :=
  { refl d with players := .modify _ _ hg }

/-- So may a game witness. -/
theorem modifyWitness (d : Database) (id : GameWitnessId) {g : GameWitnessObject → GameWitnessObject}
    (hg : ∀ w, (g w).account = w.account) :
    Maintained d { d with gameWitnesses := d.gameWitnesses.modify id g hg } :=
  { refl d with gameWitnesses := .modify _ _ hg }

/-- A room may change in all but its owner, its name and the asset of its pending rake. -/
theorem modifyRoom (d : Database) (id : RoomId) {g : RoomObject → RoomObject}
    (hg : ∀ r, ((g r).owner, (g r).metadata) = (r.owner, r.metadata))
    (hrake : ∀ r, d.rooms.find? id = some r → (g r).pendingRake.assetId = r.pendingRake.assetId) :
    Maintained d { d with rooms := d.rooms.modify id g hg } := by
  refine { refl d with rooms := ?_, rooms_old := ?_ }
  · intro j r hr
    by_cases hj : j = id
    · subst hj
      refine ⟨g r, ?_, ?_⟩
      · rw [UniqueIndex.toObjectIndex_modify, ObjectIndex.find?_modify, if_pos rfl, hr]
        rfl
      · exact Prod.ext (Prod.mk.inj (hg r)).1 (hrake r hr)
    · exact ⟨r, (ObjectIndex.find?_modify_of_ne _ _ hj).trans hr, rfl⟩
  · rintro j ⟨r, hr⟩
    change (d.rooms.toObjectIndex.modify id g).find? j = some r at hr
    rw [ObjectIndex.find?_modify] at hr
    split_ifs at hr
    · obtain ⟨r₀, hr₀, -⟩ := Option.map_eq_some_iff.1 hr
      exact ⟨r₀, hr₀⟩
    · exact ⟨r, hr⟩

/-- A table may change its weight. -/
theorem setWeight (d : Database) {id : TableId} {t : TableObject} (ht : d.tables.find? id = some t)
    (w : ℤ) : Maintained d { d with tables := d.tables.set id { t with weight := w } } := by
  refine { refl d with tables := ?_, tables_old := ?_ }
  · intro j u hu
    by_cases hj : j = id
    · subst hj
      obtain rfl := Option.some.inj (ht.symm.trans hu)
      exact ⟨w, ObjectIndex.find?_set_self ht _⟩
    · exact ⟨u.weight, (ObjectIndex.find?_set_of_ne _ _ hj).trans hu⟩
  · rintro j ⟨u, hu⟩
    by_cases hj : j = id
    · exact ⟨t, hj ▸ ht⟩
    · exact ⟨u, (ObjectIndex.find?_set_of_ne _ _ hj).symm.trans hu⟩

/-- Measurements may go. -/
theorem removeMeasurement (d : Database) (id : ℕ) :
    Maintained d { d with roomRatingMeasurements := d.roomRatingMeasurements.remove id } :=
  { refl d with
    roomRatingMeasurements := fun _ _ h ↦ (ObjectIndex.find?_of_find?_remove h).2 }

/-- The rest of the chain. -/
theorem surround (d : Database) (s : Surroundings) : Maintained d (d.surround s) :=
  { refl d with }

/-! ### The invariants -/

/-- The invariant of the objects reads only what maintenance keeps. -/
theorem wellFormed (hm : Maintained d d') (h : WellFormed mode d) : WellFormed mode d' where
  time := hm.headBlockTime ▸ h.time
  tables id t' ht' := by
    obtain ⟨t, w, ht, rfl⟩ := hm.exists_table ht'
    obtain ⟨h₁, h₂, h₃, h₄, h₅, h₆⟩ := h.tables id t ht
    exact ⟨hm.rooms.has h₁, ⟨h₂.cash, h₂.playingCash⟩, fun p hp ↦ hm.players.has (h₃ p hp),
      fun p hp ↦ hm.players.has (h₄ p hp), h₅, h₆⟩
  nullMetadata t' ht' := by
    obtain ⟨t, w, ht, rfl⟩ := hm.exists_table ht'
    exact h.nullMetadata t ht
  proposals id t' p b ht' hb := by
    obtain ⟨t, w, ht, rfl⟩ := hm.exists_table ht'
    rw [hm.pendingBuyIns]
    exact h.proposals id t p b ht hb
  pendingBuyIns id b hb := by
    rw [hm.pendingBuyIns] at hb
    obtain ⟨h₁, h₂, h₃⟩ := h.pendingBuyIns id b hb
    refine ⟨h₁, fun halloc ↦ ?_, h₃.imp_right fun ⟨hmeta, obj, hobj⟩ ↦ ⟨hmeta, ?_⟩⟩
    · obtain ⟨t, ht⟩ := h₂ halloc
      obtain ⟨w, hw⟩ := hm.tables _ t ht
      exact ⟨_, hw⟩
    · exact UniqueIndex.findKey?_of_keeps hm.players hobj
  measurements id m hmeas := by
    rw [hm.pendingBuyIns]
    exact h.measurements id m (hm.roomRatingMeasurements id m hmeas)
  pendingBuyOuts id b hb := by
    rw [hm.pendingBuyOuts] at hb
    obtain ⟨h₁, h₂, h₃⟩ := h.pendingBuyOuts id b hb
    exact ⟨h₁, hm.players.has h₂, h₃⟩
  leaving id b hb hn := by
    rw [hm.pendingBuyOuts] at hb
    obtain ⟨t, ht, hplaying⟩ := h.leaving id b hb hn
    obtain ⟨w, hw⟩ := hm.tables _ t ht
    exact ⟨_, hw, hplaying⟩
  clock id t' ht' hn := by
    obtain ⟨t, w, ht, rfl⟩ := hm.exists_table ht'
    exact h.clock id t ht hn
  buyIns id b hb := by
    rw [hm.buyIns] at hb
    obtain ⟨h₁, t, ht⟩ := h.buyIns id b hb
    obtain ⟨w, hw⟩ := hm.tables _ t ht
    exact ⟨hm.players.has h₁, _, hw⟩
  stays id t' p ht' hn hp := by
    obtain ⟨t, w, ht, rfl⟩ := hm.exists_table ht'
    rw [hm.buyIns]
    exact h.stays id t p ht hn hp
  tableAlives id a ha := by
    rw [hm.tableAlives] at ha
    obtain ⟨t, ht⟩ := h.tableAlives id a ha
    obtain ⟨w, hw⟩ := hm.tables _ t ht
    exact ⟨_, hw⟩
  rakes id r' hr' := by
    obtain ⟨r, hr⟩ := hm.rooms_old id ⟨r', hr'⟩
    obtain ⟨r'', hr'', heq⟩ := hm.rooms id r hr
    obtain rfl := Option.some.inj (hr'.symm.trans hr'')
    exact (Prod.mk.inj heq).2.trans (h.rakes id r hr)

/-- So does that of the votes. -/
theorem votesOk {busy : TableId → Prop} (hm : Maintained d d') (h : VotesOk busy d) :
    VotesOk busy d' where
  voting id v hv := by
    rw [hm.tableVotings] at hv
    obtain ⟨⟨t, ht⟩, hetalon⟩ := h.voting id v hv
    obtain ⟨w, hw⟩ := hm.tables _ t ht
    exact ⟨⟨_, hw⟩, hetalon.keeps hm.players⟩
  votes id v t' a x hv ht' hn hx := by
    obtain ⟨t, w, ht, rfl⟩ := hm.exists_table ht'
    rw [hm.tableVotings] at hv
    exact (h.votes id v t a x hv ht hn hx).keeps hm.players rfl
  pendingVote id w hw := by
    rw [hm.pendingTableVotes] at hw
    obtain ⟨⟨t, ht⟩, hrest⟩ := h.pendingVote id w hw
    obtain ⟨w', hw'⟩ := hm.tables _ t ht
    exact ⟨⟨_, hw'⟩, hrest⟩
  pendingKind id w t' hw ht' hn := by
    obtain ⟨t, w', ht, rfl⟩ := hm.exists_table ht'
    rw [hm.pendingTableVotes] at hw
    exact h.pendingKind id w t hw ht hn
  pendingAlone id w hw hn := by
    rw [hm.pendingTableVotes] at hw
    rw [hm.tableVotings]
    exact h.pendingAlone id w hw hn

end Maintained

/-! ### The dissemination of the rake -/

theorem setCashbackBalance_maintained (d : Database) (id : VestingBalanceId)
    (parent : CashbackParent) : Maintained d (d.setCashbackBalance id parent) := by
  cases parent with
  | player p => exact .modifyPlayer d p _
  | room r => exact .modifyRoom d r _ fun _ _ ↦ rfl
  | witness w => exact .modifyWitness d w _

/-- A deposit touches vesting balances only. -/
theorem depositLazyVesting_maintained (d : Database) (balance : Option VestingBalanceId) (amount : ℤ)
    (seconds : ℕ) (owner : AccountId) :
    (d.depositLazyVesting balance amount seconds owner).Ensures anyError fun s ↦
      Maintained d s.2 := by
  refine Except.Ensures.ite (fun _ ↦ .pure (.refl d)) fun _ ↦ ?_
  cases balance with
  | none => exact .pure (.setVestingBalances d _)
  | some id =>
    refine (Except.Ensures.any _).bind fun _ _ ↦ ?_
    exact .ite (fun _ ↦ .pure (.setVestingBalances d _)) fun _ ↦ .pure (.setVestingBalances d _)

/-- A share of a fee goes to a vesting balance, of which the owner may be told. -/
theorem depositCashback_maintained (d : Database) (ctx : DepositContext) (room : RoomId)
    (parent : CashbackParent) (owner : AccountId) (amount : ℤ) :
    (depositCashback d ctx room parent owner amount).Ensures anyError (Maintained d) := by
  rw [depositCashback]
  by_cases hsmall : amount < 1
  · rw [if_pos hsmall]
    exact .pure (.refl d)
  rw [if_neg hsmall]
  refine (orUnableToFind_ensures fun _ _ ↦ trivial).bind fun r hr ↦ ?_
  rw [Asset.sub_of_eq (a := r.pendingRake) (b := ⟨amount, r.pendingRake.assetId⟩) rfl, Except.ok_bind]
  have hlog := Maintained.log d (.playchainDepositCashback ctx.type ctx.getter owner
    ⟨amount, ctx.assetId⟩ ctx.metadata)
  obtain ⟨d₁, hd₁⟩ : ∃ d₁, d₁ = d.pushAppliedOperation (.playchainDepositCashback ctx.type ctx.getter
    owner ⟨amount, ctx.assetId⟩ ctx.metadata) := ⟨_, rfl⟩
  rw [← hd₁] at hlog hr ⊢
  have hrake : Maintained d₁ { d₁ with rooms := d₁.rooms.modify room fun r' ↦ { r' with
      pendingRake := ⟨r.pendingRake.amount - amount, r.pendingRake.assetId⟩ } } :=
    .modifyRoom d₁ room _ fun r' hr' ↦ by rw [Option.some.inj (hr'.symm.trans hr)]
  refine (Except.Ensures.any _).bind fun balance _ ↦ ?_
  refine (depositLazyVesting_maintained _ balance amount _ owner).bind ?_
  rintro ⟨newBalance, d₂⟩ h₂
  have h₃ := hlog.trans (hrake.trans h₂)
  cases newBalance with
  | none => exact .pure h₃
  | some id => exact .pure (h₃.trans (setCashbackBalance_maintained d₂ id parent))

/-- The chain of inviters is walked with a deposit at each player. -/
theorem disseminateForInviters_maintained (ctx : DepositContext) (room : RoomId) (depth : ℕ)
    (d : Database) (inviter : PlayerId) (amount : ℤ) :
    (disseminateForInviters ctx room depth d inviter amount).Ensures anyError fun s ↦
      Maintained d s.1 := by
  induction depth generalizing d inviter amount with
  | zero =>
    rw [disseminateForInviters]
    split_ifs
    · exact .pure (.refl d)
    · exact .pure (.modifyPlayer d inviter _)
  | succ depth ih =>
    rw [disseminateForInviters]
    split_ifs
    · exact .pure (.refl d)
    · refine (Except.Ensures.any _).bind fun obj _ ↦ ?_
      refine Except.Ensures.bind (Q := fun s ↦ Maintained d s.1) ?_ ?_
      · split_ifs
        · refine (Except.Ensures.any _).bind fun balance _ ↦ ?_
          exact (depositCashback_maintained d ctx room _ _ _).bind fun d₁ h₁ ↦ .pure h₁
        · exact .pure (.refl d)
      · rintro ⟨d₁, parentsCut⟩ h₁
        exact (ih d₁ obj.inviter parentsCut).mono fun _ h₂ ↦ h₁.trans h₂

/-- The shares of the room owner and of the inviters. -/
theorem depositParentFee_maintained (player : PlayerId) (room : RoomId) (d : Database)
    (ds : DepositKey × ℤ) : (depositParentFee player room d ds).Ensures anyError (Maintained d) := by
  refine (Except.Ensures.any _).bind fun r _ ↦ ?_
  refine (disseminateForInviters_maintained _ room _ d player ds.2).bind ?_
  rintro ⟨d₁, left⟩ h₁
  exact (depositCashback_maintained d₁ _ room _ _ _).mono fun _ h₂ ↦ h₁.trans h₂

/-- The shares of the witnesses. -/
theorem depositWitnesses_maintained (d : Database) (ctx : DepositContext) (room : RoomId)
    (witnesses : FlatSet GameWitnessId) (witnessCut : ℤ) :
    (depositWitnesses d ctx room witnesses witnessCut).Ensures anyError (Maintained d) := by
  rw [depositWitnesses]
  refine Except.Ensures.bind (Q := fun s ↦ Maintained d s.1) ?_ ?_
  · split_ifs
    · refine Except.Ensures.foldlM (fun s : Database × ℤ ↦ Maintained d s.1) ?_ (.refl d)
      intro id _ s hs
      refine (Except.Ensures.any _).bind fun w _ ↦ ?_
      exact (depositCashback_maintained s.1 ctx room _ _ _).bind fun _ h ↦ .pure (hs.trans h)
    · exact .pure (.refl d)
  · rintro ⟨d₁, cut⟩ h₁
    dsimp only at h₁ ⊢
    split_ifs
    · refine (Except.Ensures.any _).bind fun id _ ↦ (Except.Ensures.any _).bind fun w _ ↦ ?_
      exact (depositCashback_maintained d₁ ctx room _ _ _).mono fun _ h₂ ↦ h₁.trans h₂
    · exact .pure h₁

/-- One entry of the pending fees of a player. -/
theorem depositPendingFee_maintained (inviter : PlayerId) (d : Database)
    (data : PlayerPendingFeeData) :
    (depositPendingFee inviter d data).Ensures anyError (Maintained d) := by
  refine (Except.Ensures.any _).bind fun r _ ↦ ?_
  refine (disseminateForInviters_maintained _ data.room _ d inviter _).bind ?_
  rintro ⟨d₁, left⟩ h₁
  refine Except.Ensures.bind (Q := fun s ↦ Maintained d s.1) ?_ ?_
  · split_ifs
    · exact (depositWitnesses_maintained d₁ _ data.room _ _).bind fun d₂ h₂ ↦ .pure (h₁.trans h₂)
    · exact .pure h₁
  · rintro ⟨d₂, cut⟩ h₂
    exact (depositCashback_maintained d₂ _ data.room _ _ _).mono fun _ h₃ ↦ h₂.trans h₃

theorem depositPlayerFees_maintained (d : Database) (player : PlayerId) :
    (depositPlayerFees d player).Ensures anyError (Maintained d) := by
  refine (Except.Ensures.any _).bind fun obj _ ↦ ?_
  have hparked : (obj.pendingParentInvitationFees.toList.foldlM
      (fun (d : Database) (byRoom : RoomId × FlatMap DepositKey ℤ) ↦
        byRoom.2.toList.foldlM (depositParentFee player byRoom.1) d) d).Ensures anyError
      (Maintained d) := by
    refine Except.Ensures.foldlM (Maintained d) (fun byRoom _ e he ↦ ?_) (.refl d)
    refine Except.Ensures.foldlM (Maintained d) (fun ds _ e he ↦ ?_) he
    exact (depositParentFee_maintained player byRoom.1 e ds).mono fun _ h ↦ he.trans h
  refine hparked.bind fun d₁ h₁ ↦ (Except.Ensures.any _).bind fun obj' _ ↦ ?_
  have h₂ := h₁.trans (.modifyPlayer d₁ player (g := fun p ↦
    { p with pendingParentInvitationFees := ∅ }) fun _ ↦ rfl)
  refine (Except.Ensures.foldlM (Maintained d) (fun data _ e he ↦ ?_) h₂).bind fun d₃ h₃ ↦
    .pure (h₃.trans (.modifyPlayer d₃ player _))
  exact (depositPendingFee_maintained obj'.inviter e data).mono fun _ h ↦ he.trans h

/-- **The distribution of pending fees.** -/
theorem depositPendingFees_maintained (d : Database) :
    (depositPendingFees d).Ensures anyError (Maintained d) :=
  Except.Ensures.foldlM (Maintained d) (fun player _ e he ↦
    (depositPlayerFees_maintained e player).mono fun _ h ↦ he.trans h) (.refl d)

/-! ### Ratings and weights -/

theorem removeExpiredRoomRatingMeasurements_maintained (d : Database) :
    Maintained d (removeExpiredRoomRatingMeasurements d) :=
  List.foldlRecOn (motive := Maintained d) _ _ (.refl d) fun e he m _ ↦
    he.trans (.removeMeasurement e m.1)

/-- The ratings before the fifth hard fork. -/
theorem updateRoomRatingSimple_maintained (entropy : ℤ) (fuel : ℕ) (next : Option RoomId)
    (ci pos : ℕ) (d : Database) :
    (updateRoomRatingSimple entropy fuel next ci pos d).Ensures anyError (Maintained d) := by
  induction fuel generalizing next ci pos d with
  | zero => exact .pure (.refl d)
  | succ fuel ih =>
    cases next with
    | none => exact .pure (.refl d)
    | some id =>
      refine Except.Ensures.ite (fun _ ↦ ?_) fun _ ↦ .pure (.refl d)
      refine (Except.Ensures.any _).bind fun room _ ↦ ?_
      refine .ite (fun _ ↦ ih _ _ _ d) fun _ ↦ .ite (fun _ ↦ ih _ _ _ d) fun _ ↦ ?_
      have hroom : Maintained d (recalculateRatingSimple d
          (getPseudoRandom entropy pos 1 0xfff % 2 ^ 16) id) :=
        .modifyRoom d id _ fun _ _ ↦ rfl
      exact (ih _ _ _ _).mono fun _ h ↦ hroom.trans h

theorem setWeight_maintained (d : Database) (id : TableId) :
    (setWeight d id).Ensures anyError (Maintained d) := by
  refine (orUnableToFind_ensures fun _ _ ↦ trivial).bind fun t ht ↦ ?_
  refine .ite (fun _ ↦ (Except.Ensures.any _).bind fun room _ ↦ ?_) fun _ ↦ .pure (.setWeight d ht _)
  exact .ite (fun _ ↦ .pure (.setWeight d ht _)) fun _ ↦ .pure (.setWeight d ht _)

/-- The loop over the tables stores weights only. -/
theorem updateWeights_maintained (limit : ℕ) (l : List (TableId × TableObject)) (ci : ℕ)
    (last : TableId) (d : Database) :
    (updateWeights limit l ci last d).Ensures anyError fun s ↦ Maintained d s.2.2 := by
  induction l generalizing ci last d with
  | nil => exact .pure (.refl d)
  | cons p l ih =>
    rw [updateWeights]
    split_ifs
    · exact ih _ _ d
    · refine (setWeight_maintained d p.1).bind fun d₁ h₁ ↦ ?_
      exact (ih _ _ d₁).mono fun _ h₂ ↦ h₁.trans h₂
    · exact .pure (.refl d)

/-- **The weights of the tables.** -/
theorem updateTableWeight_maintained (d : Database) :
    (updateTableWeight d).Ensures anyError (Maintained d) := by
  refine Except.Ensures.foldlM (Maintained d) (fun id _ e he ↦ ?_) (.refl d)
  refine (Except.Ensures.any _).bind fun room _ ↦ ?_
  refine (updateWeights_maintained _ _ 0 _ e).bind ?_
  rintro ⟨ci, last, d₁⟩ h₁
  exact .pure (he.trans (h₁.trans (.modifyRoom d₁ id _ fun _ _ ↦ rfl)))

section Rating

variable [RatingFunctions]

/-- One turn of the loop over the rooms stores a rating. -/
theorem rateRoom_maintained (w m : ℕ) (s : Database × ℕ) (id : RoomId) :
    (rateRoom w m s id).Ensures anyError fun s' ↦ Maintained s.1 s'.1 := by
  have hrate : (recalculateRoomRating w m s.1 id).Ensures anyError (Maintained s.1) := by
    refine (Except.Ensures.any _).bind fun room _ ↦ ?_
    generalize ratingDivisor m room = divisor
    refine .ite (fun _ ↦ trivial) fun _ ↦ ?_
    exact (Except.Ensures.any _).bind fun rating _ ↦ .pure (.modifyRoom s.1 id _ fun _ _ ↦ rfl)
  exact hrate.bind fun d₁ h₁ ↦ (Except.Ensures.any _).bind fun room _ ↦ .pure h₁

/-- **The ratings of the rooms.** -/
theorem updateRoomRating_maintained (d : Database) (entropy : ℤ) :
    (updateRoomRating d entropy).Ensures anyError (Maintained d) := by
  have hexpired := removeExpiredRoomRatingMeasurements_maintained d
  have hfactors (rooms : List RoomId) : Maintained d (rooms.foldl recalculateRoomRatingFactors
      (removeExpiredRoomRatingMeasurements d)) :=
    List.foldlRecOn (motive := Maintained d) _ _ hexpired fun e he room _ ↦
      he.trans (.modifyRoom e room _ fun _ _ ↦ rfl)
  refine .ite (fun _ ↦ .ite (fun _ ↦ .pure hexpired) fun _ ↦ ?_)
    fun _ ↦ .ite (fun _ ↦ .pure hexpired) fun _ ↦ ?_
  · exact (updateRoomRatingSimple_maintained entropy _ _ 0 0 _).mono fun _ h ↦ hexpired.trans h
  · refine Except.Ensures.bind (Q := fun s ↦ Maintained d s.1) (Except.Ensures.foldlM
      (fun s : Database × ℕ ↦ Maintained d s.1) (fun id _ s hs ↦ ?_) (hfactors _)) ?_
    · exact (rateRoom_maintained _ _ s id).mono fun _ h ↦ hs.trans h
    · rintro ⟨d₁, sum⟩ h₁
      exact .ite (fun _ ↦ trivial) fun _ ↦ .pure (h₁.trans (.setAverage d₁ _))

end Rating

end Playchain
