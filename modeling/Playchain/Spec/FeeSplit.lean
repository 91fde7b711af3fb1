import Playchain.Spec.InviterShare

/-!
# The split of a fee

A pending fee is cut for the inviters and for the witnesses by two independent percentages of the
whole fee; the owner of the room gets the difference, what the inviters leave over, and the share of
the witnesses if there are none. A difference below one is not deposited. So the split is exact
exactly if what the inviters take and the cut of the witnesses leave a difference that is not
negative: the parameters are checked one by one, and cuts that add up to more than the fee are paid out in
full.
-/

namespace Playchain

/-! ### The witnesses' share -/

/-- A credit goes to one of the witnesses. -/
structure ForWitness (d : Database) (witnesses : List GameWitnessId) (share : CashbackShare) :
    Prop where
  type : share.type = .witness
  pos : 0 < share.amount
  owner : ∃ id ∈ witnesses, d.witnessAccount id = some share.owner

theorem ForWitness.mono {d : Database} {witnesses witnesses' : List GameWitnessId}
    {share : CashbackShare} (h : ForWitness d witnesses share) (hsub : witnesses ⊆ witnesses') :
    ForWitness d witnesses' share := by
  obtain ⟨id, hid, howner⟩ := h.owner
  exact ⟨h.type, h.pos, id, hsub hid, howner⟩

/-- One witness is credited. -/
theorem depositWitness_credited {d : Database} (h : FeeBooks d) {ctx : DepositContext}
    (hctx : ctx.type = .witness) {room : RoomId} (hroom : d.rooms.Has room) {id : GameWitnessId}
    {w : GameWitnessObject} (hw : d.gameWitnesses.find? id = some w) {amount : ℤ}
    (hamount : 0 < amount) :
    (depositCashback d ctx room (.witness id) w.account amount).Ensures (fun _ ↦ False) fun d' ↦
      ∃ share, Credited d d' [share] 0 ∧ ForWitness d [id] share ∧ share.amount = amount := by
  refine (depositCashback_credited h ctx hroom (.witness id) ⟨w, hw⟩ w.account amount).mono
    fun d' hd' ↦ ?_
  rw [shareOf, if_neg (by omega), hctx] at hd'
  refine ⟨_, hd', ⟨rfl, hamount, id, List.mem_singleton_self id, ?_⟩, rfl⟩
  rw [Database.witnessAccount, hw]
  rfl

/-- The loop over the witnesses credits each with one part. -/
theorem depositEachWitness_credited {ctx : DepositContext} (hctx : ctx.type = .witness)
    {room : RoomId} {oneCut : ℤ} (hone : 0 < oneCut) {l : List GameWitnessId} {d : Database}
    (h : FeeBooks d) (hroom : d.rooms.Has room) (hl : ∀ id ∈ l, d.gameWitnesses.Has id) (cut : ℤ) :
    (l.foldlM (fun (s : Database × ℤ) id ↦ do
        let w ← s.1.gameWitnessById id
        let d ← depositCashback s.1 ctx room (.witness id) w.account oneCut
        return (d, s.2 - oneCut)) (d, cut)).Ensures (fun _ ↦ False) fun s ↦
      ∃ shares, Credited d s.1 shares 0 ∧ (∀ share ∈ shares, ForWitness d l share) ∧
        shareTotal shares = l.length * oneCut ∧ s.2 = cut - l.length * oneCut := by
  induction l generalizing d cut with
  | nil =>
    exact .pure ⟨[], .refl h, fun _ hs ↦ absurd hs List.not_mem_nil, by simp, by simp⟩
  | cons id l ih =>
    rw [List.foldlM_cons]
    obtain ⟨w, hw⟩ := hl id List.mem_cons_self
    refine Except.Ensures.bind (Q := fun s : Database × ℤ ↦ ∃ share, Credited d s.1 [share] 0 ∧
      ForWitness d [id] share ∧ share.amount = oneCut ∧ s.2 = cut - oneCut) ?_ ?_
    · refine .bind_of_eq (orUnableToFind_eq_ok.2 hw) ?_
      refine (depositWitness_credited h hctx hroom hw hone).bind ?_
      rintro d₁ ⟨share, hd₁, hshare, hamount⟩
      exact .pure ⟨share, hd₁, hshare, hamount, rfl⟩
    · rintro ⟨d₁, cut₁⟩ ⟨share, hd₁, hshare, hamount, hcut₁⟩
      dsimp only at hd₁ hcut₁
      refine (ih hd₁.books (hd₁.has_room hroom)
        (fun j hj ↦ hd₁.has_witness (hl j (List.mem_cons_of_mem _ hj))) cut₁).mono ?_
      rintro ⟨d₂, cut₂⟩ ⟨shares, hd₂, hshares, htotal, hcut₂⟩
      refine ⟨shares ++ [share], hd₁.trans hd₂, ?_, ?_, ?_⟩
      · intro s hs
        rcases List.mem_append.1 hs with hs | hs
        · obtain ⟨htype, hpos, j, hj, howner⟩ := hshares s hs
          rw [hd₁.witnesses] at howner
          exact ⟨htype, hpos, j, List.mem_cons_of_mem _ hj, howner⟩
        · rw [List.mem_singleton.1 hs]
          exact hshare.mono (List.cons_subset_cons _ (List.nil_subset _))
      · rw [shareTotal_append, shareTotal_singleton, htotal, hamount, List.length_cons]
        push_cast
        ring
      · rw [hcut₂, hcut₁, List.length_cons]
        push_cast
        ring

/-- **The witnesses' share** is credited in full. -/
theorem depositWitnesses_credited {d : Database} (h : FeeBooks d) {ctx : DepositContext}
    (hctx : ctx.type = .witness) {room : RoomId} (hroom : d.rooms.Has room)
    {witnesses : FlatSet GameWitnessId} (hne : 0 < witnesses.size)
    (hhas : ∀ id ∈ witnesses.elements, d.gameWitnesses.Has id) {cut : ℤ} (hcut : 0 ≤ cut) :
    (depositWitnesses d ctx room witnesses cut).Ensures (fun _ ↦ False) fun d' ↦
      ∃ shares, Credited d d' shares 0 ∧ (∀ share ∈ shares, ForWitness d witnesses.elements share) ∧
        shareTotal shares = cut := by
  have hlength : witnesses.elements.length = witnesses.size := List.length_map _
  unfold depositWitnesses
  refine Except.Ensures.bind (Q := fun s : Database × ℤ ↦ ∃ shares, Credited d s.1 shares 0 ∧
    (∀ share ∈ shares, ForWitness d witnesses.elements share) ∧ shareTotal shares + s.2 = cut ∧
      0 ≤ s.2) ?_ ?_
  · by_cases hone : 0 < cut / (witnesses.size : ℤ)
    · rw [if_pos hone]
      refine (depositEachWitness_credited hctx hone h hroom hhas cut).mono ?_
      rintro s ⟨shares, hs, hshares, htotal, hrest⟩
      have hdiv : (witnesses.elements.length : ℤ) * (cut / (witnesses.size : ℤ)) ≤ cut := by
        rw [hlength]
        exact Int.mul_ediv_self_le (by omega)
      exact ⟨shares, hs, hshares, by omega, by omega⟩
    · rw [if_neg hone]
      exact .pure ⟨[], .refl h, fun _ hs ↦ absurd hs List.not_mem_nil, by simp, hcut⟩
  · rintro ⟨d₁, rest⟩ ⟨shares, hd₁, hshares, htotal, hrest⟩
    dsimp only at hd₁ htotal hrest ⊢
    -- the rest of the division goes to the first witness
    by_cases hpos : 0 < rest
    · rw [if_pos hpos]
      obtain ⟨id, l, hid⟩ : ∃ id l, witnesses.elements = id :: l :=
        List.exists_cons_of_length_pos (hlength ▸ hne)
      have hmem : id ∈ witnesses.elements := hid ▸ List.mem_cons_self
      obtain ⟨w, hw⟩ := hd₁.has_witness (hhas id hmem)
      refine .bind_of_eq (orMissing_eq_ok.2 (by rw [hid]; rfl)) ?_
      refine .bind_of_eq (orUnableToFind_eq_ok.2 hw) ?_
      refine (depositWitness_credited hd₁.books hctx (hd₁.has_room hroom) hw hpos).mono ?_
      rintro d₂ ⟨share, hd₂, hshare, hamount⟩
      refine ⟨[share] ++ shares, hd₁.trans hd₂, ?_, ?_⟩
      · intro s hs
        rcases List.mem_append.1 hs with hs | hs
        · obtain ⟨htype, hpos, j, hj, howner⟩ := hshare
          rw [List.mem_singleton.1 hs]
          rw [hd₁.witnesses] at howner
          exact ⟨htype, hpos, j, List.mem_singleton.1 hj ▸ hmem, howner⟩
        · exact hshares s hs
      · rw [shareTotal_append, shareTotal_singleton, hamount]
        omega
    · rw [if_neg hpos]
      exact .pure ⟨shares, hd₁, hshares, by omega⟩

/-! ### The whole fee -/

/-- A pending fee of a player with this inviter: everything it refers to exists. -/
structure FeeInput (d : Database) (inviter : PlayerId) (data : PlayerPendingFeeData) : Prop where
  books : InviterBooks d
  pos : 0 < data.amount
  room : d.rooms.Has data.room
  inviter : inviter ≠ nullPlayer → d.players.Has inviter
  witnesses : ∀ id ∈ data.witnesses.elements, d.gameWitnesses.Has id

/-- A credit goes to an inviter, a witness or the owner of the room. -/
def IsFeeShare (d : Database) (inviter : PlayerId) (data : PlayerPendingFeeData)
    (share : CashbackShare) : Prop :=
  ForInviter d inviter share ∨ ForWitness d data.witnesses.elements share ∨
    (share.type = .room ∧ 0 < share.amount ∧ d.roomOwner data.room = some share.owner)

theorem IsFeeShare.pos {d : Database} {inviter : PlayerId} {data : PlayerPendingFeeData}
    {share : CashbackShare} (h : IsFeeShare d inviter data share) : 0 < share.amount := by
  rcases h with h | h | h
  · exact h.pos
  · exact h.pos
  · exact h.2.1

/-- The inviters never leave less than nothing. -/
theorem FeeInput.invitersLeave_nonneg {d : Database} {inviter : PlayerId}
    {data : PlayerPendingFeeData} (h : FeeInput d inviter data) {amount : ℤ} (hamount : 0 ≤ amount) :
    0 ≤ invitersLeave d maximumInvitersDepth inviter amount := by
  let ctx : DepositContext := ⟨.inviter, data.getter, data.metadata, data.assetId⟩
  have hcredited := @disseminateForInviters_credited ctx rfl data.room maximumInvitersDepth d d h.books
    h.books.toFeeBooks h.room inviter (.refl _ d) h.inviter amount hamount
  obtain ⟨s, -, shares, parked, -, -, -, hleft, -, hleave⟩ := hcredited.exists_ok
  exact hleave ▸ hleft

/-- What the inviters and the witnesses take of a fee. -/
def feeTaken (d : Database) (inviter : PlayerId) (data : PlayerPendingFeeData) : ℤ :=
  let invitersCut := cutFee data.amount d.parameters.playerReferrerPercentOfFee
  invitersCut - invitersLeave d maximumInvitersDepth inviter invitersCut +
    if 0 < data.witnesses.size then cutFee data.amount d.parameters.gameWitnessPercentOfFee else 0

/-- **What is done with a fee.** The inviters and the witnesses get what they take, and the owner gets
the difference if that is positive. -/
theorem depositPendingFee_credited {d : Database} {inviter : PlayerId} {data : PlayerPendingFeeData}
    (h : FeeInput d inviter data) :
    (depositPendingFee inviter d data).Ensures (fun _ ↦ False) fun d' ↦
      ∃ shares parked, Credited d d' shares parked ∧
        (∀ share ∈ shares, IsFeeShare d inviter data share) ∧ 0 ≤ parked ∧
        shareTotal shares + parked = data.amount + max 0 (feeTaken d inviter data - data.amount) := by
  obtain ⟨r, hr⟩ := h.room
  have hinviters := cutFee_nonneg (a := data.amount) d.parameters.playerReferrerPercentOfFee
  have hwitnesses := cutFee_nonneg (a := data.amount) d.parameters.gameWitnessPercentOfFee
  unfold depositPendingFee feeTaken
  refine .bind_of_eq (orUnableToFind_eq_ok.2 hr) ?_
  dsimp only
  generalize cutFee data.amount d.parameters.playerReferrerPercentOfFee = invitersCut at hinviters ⊢
  generalize cutFee data.amount d.parameters.gameWitnessPercentOfFee = witnessCut at hwitnesses ⊢
  refine (disseminateForInviters_credited rfl h.books h.books.toFeeBooks ⟨r, hr⟩ (.refl _ d)
    h.inviter hinviters).bind ?_
  rintro ⟨d₁, left⟩ ⟨shares₁, parked, hd₁, hshares₁, hparked, hleft, htotal₁, hleave⟩
  dsimp only at hd₁ hleft htotal₁ hleave ⊢
  rw [← hleave]
  -- what the owner is left with is the fee less what inviters and witnesses take, and may be negative
  refine Except.Ensures.bind (Q := fun s : Database × ℤ ↦ ∃ shares, Credited d s.1 shares parked ∧
    (∀ share ∈ shares, IsFeeShare d inviter data share) ∧
    shareTotal shares + parked = invitersCut - left +
      (if 0 < data.witnesses.size then witnessCut else 0) ∧
    s.2 = data.amount - (invitersCut - left +
      if 0 < data.witnesses.size then witnessCut else 0)) ?_ ?_
  · by_cases hsize : 0 < data.witnesses.size
    · rw [if_pos hsize, if_pos hsize]
      refine (depositWitnesses_credited hd₁.books rfl (hd₁.has_room ⟨r, hr⟩) hsize
        (fun id hid ↦ hd₁.has_witness (h.witnesses id hid)) hwitnesses).bind ?_
      rintro d₂ ⟨shares₂, hd₂, hshares₂, htotal₂⟩
      have hcredited := hd₁.trans hd₂
      rw [add_zero] at hcredited
      refine .pure ⟨shares₂ ++ shares₁, hcredited, ?_, ?_, ?_⟩
      · intro share hs
        rcases List.mem_append.1 hs with hs | hs
        · obtain ⟨htype, hpos, id, hid, howner⟩ := hshares₂ share hs
          rw [hd₁.witnesses] at howner
          exact .inr (.inl ⟨htype, hpos, id, hid, howner⟩)
        · exact .inl (hshares₁ share hs)
      · rw [shareTotal_append]
        omega
      · dsimp only
        omega
    · rw [if_neg hsize, if_neg hsize]
      refine .pure ⟨shares₁, hd₁, fun share hs ↦ .inl (hshares₁ share hs), by omega, ?_⟩
      dsimp only
      omega
  · rintro ⟨d₂, ownerCut⟩ ⟨shares₂, hd₂, hshares₂, htotal₂, hownerCut⟩
    dsimp only at hd₂ hownerCut
    have hroom₂ := hd₂.has_room ⟨r, hr⟩
    refine (depositCashback_credited hd₂.books _ hroom₂ (.room data.room) hroom₂ r.owner
      ownerCut).mono fun d₃ hd₃ ↦ ?_
    have hcredited := hd₂.trans hd₃
    rw [add_zero] at hcredited
    refine ⟨_, parked, hcredited, ?_, hparked, ?_⟩
    · intro share hs
      rcases List.mem_append.1 hs with hs | hs
      · obtain ⟨rfl, hpos⟩ := mem_shareOf hs
        refine .inr (.inr ⟨rfl, hpos, ?_⟩)
        rw [Database.roomOwner, hr]
        rfl
      · exact hshares₂ share hs
    · rw [shareTotal_append, shareTotal_shareOf]
      omega

/-- **The split of a fee is exact**: positive shares go to inviters, witnesses and the owner of the
room, and with what is parked they are the fee. -/
def SplitsExactly (d : Database) (inviter : PlayerId) (data : PlayerPendingFeeData) : Prop :=
  ∃ d' shares parked, depositPendingFee inviter d data = .ok d' ∧ Credited d d' shares parked ∧
    (∀ share ∈ shares, IsFeeShare d inviter data share) ∧ 0 ≤ parked ∧
    shareTotal shares + parked = data.amount

/-- The split is exact if no more is taken than there is. -/
theorem splitsExactly_iff_feeTaken {d : Database} {inviter : PlayerId} {data : PlayerPendingFeeData}
    (h : FeeInput d inviter data) :
    SplitsExactly d inviter data ↔ feeTaken d inviter data ≤ data.amount := by
  obtain ⟨d', hd', shares, parked, hcredited, hshares, hparked, htotal⟩ :=
    (depositPendingFee_credited h).exists_ok
  constructor
  · rintro ⟨e', shares', parked', he', hcredited', -, -, htotal'⟩
    obtain rfl := Except.ok.inj (hd'.symm.trans he')
    obtain ⟨rfl, rfl⟩ := hcredited.unique hcredited'
    omega
  · intro hle
    exact ⟨d', shares, parked, hd', hcredited, hshares, hparked, by omega⟩

/-- **When a fee is split exactly**: there is no witness, or what the inviters take of their cut and the
cut of the witnesses do not exceed the fee. -/
theorem splitsExactly_iff (d : Database) (inviter : PlayerId) (data : PlayerPendingFeeData)
    (h : FeeInput d inviter data) :
    SplitsExactly d inviter data ↔
      data.witnesses = ∅ ∨
        cutFee data.amount d.parameters.playerReferrerPercentOfFee -
            invitersLeave d maximumInvitersDepth inviter
              (cutFee data.amount d.parameters.playerReferrerPercentOfFee) +
          cutFee data.amount d.parameters.gameWitnessPercentOfFee ≤ data.amount := by
  rw [splitsExactly_iff_feeTaken h, feeTaken]
  by_cases hempty : data.witnesses = ∅
  · have hcut := cutFee_le h.pos.le d.parameters.playerReferrerPercentOfFee
    have hleave := h.invitersLeave_nonneg (cutFee_nonneg (a := data.amount)
      d.parameters.playerReferrerPercentOfFee)
    refine iff_of_true ?_ (.inl hempty)
    have hsize : ¬0 < data.witnesses.size := by
      rw [hempty]
      exact lt_irrefl 0
    rw [if_neg hsize]
    omega
  · have hsize : 0 < data.witnesses.size :=
      List.length_pos_iff.2 fun hnil ↦ hempty (FlatMap.isEmpty_iff.1 (List.isEmpty_iff.2 hnil))
    rw [if_pos hsize]
    exact (or_iff_right hempty).symm

/-! ### A chain of inviters -/

/-- An executable test for `InviterBooks`. -/
def inviterBooksCheck (d : Database) : Bool :=
  let owns (account : AccountId) (balance : Option VestingBalanceId) : Bool :=
    balance.all fun b ↦ (d.vestingBalances.find? b).all fun v ↦ v.owner = account
  feeBooksCheck d &&
    (d.players.toList.all fun p ↦
      (p.2.inviter = nullPlayer || p.2.inviter < p.1) && owns p.2.account p.2.balance) &&
    (d.gameWitnesses.toList.all fun w ↦ owns w.2.account w.2.balance) &&
    d.rooms.toList.all fun r ↦ owns r.2.owner r.2.balance

theorem inviterBooks_of_check {d : Database} (h : inviterBooksCheck d = true) : InviterBooks d := by
  simp only [inviterBooksCheck, Bool.and_eq_true, Bool.or_eq_true, List.all_eq_true,
    Option.all_eq_true, decide_eq_true_eq] at h
  obtain ⟨⟨⟨hbooks, hplayers⟩, hwitnesses⟩, hrooms⟩ := h
  exact
    { toFeeBooks := feeBooks_of_check hbooks
      older := fun id p hp hne ↦
        (hplayers _ (ObjectIndex.find?_eq_some_iff.1 hp)).1.resolve_left hne
      playerOwner := fun id p b v hp hb hv ↦
        (hplayers _ (ObjectIndex.find?_eq_some_iff.1 hp)).2 b hb v hv
      witnessOwner := fun id w b v hw hb hv ↦
        hwitnesses _ (ObjectIndex.find?_eq_some_iff.1 hw) b hb v hv
      roomOwner := fun id r b v hr hb hv ↦
        hrooms _ (ObjectIndex.find?_eq_some_iff.1 hr) b hb v hv }

/-- Eleven players who invited one another, a room and a witness. -/
def sampleInviters (parameters : PlaychainParameters) : Database where
  headBlockTime := hardforkPlaychain11Time
  accounts := 25
  parameters := parameters
  players := samplePlayers ((List.range 11).map fun k ↦ { account := k + 11, inviter := k })
  gameWitnesses := (((∅ : UniqueIndex GameWitnessObject.account).create?
    { account := tempAccount }).bind fun idx ↦ idx.create? { account := 22 }).getD ∅
  rooms := (((∅ : UniqueIndex fun r : RoomObject ↦ (r.owner, r.metadata)).create?
    { owner := tempAccount }).bind fun idx ↦
      idx.create? { owner := 23, metadata := "room" }).getD ∅

/-- A fee of a player whom one of them has invited, or nobody. -/
def sampleFee (amount : ℤ) : PlayerPendingFeeData where
  room := 1
  getter := 24
  metadata := "room"
  assetId := coreAsset
  amount := amount
  witnesses := FlatSet.ofList [1]

theorem sampleInviters_input (parameters : PlaychainParameters) (inviter : PlayerId)
    (hinviter : (sampleInviters parameters).players.Has inviter) (amount : ℤ) (h : 0 < amount) :
    FeeInput (sampleInviters parameters) inviter (sampleFee amount) where
  books := inviterBooks_of_check rfl
  pos := h
  room := ⟨_, rfl⟩
  inviter _ := hinviter
  witnesses id hid := by
    obtain rfl : id = 1 := List.mem_singleton.1 hid
    exact ⟨_, rfl⟩

/-- 75% for the inviters and 50% for the witnesses: **both are admitted, and of a fee of 100 they make
125** if eleven inviters leave nothing over. Without inviters the witness gets 50 and the owner the
rest. -/
theorem splitsExactly_iff_inviters :
    ¬SplitsExactly (sampleInviters { gameWitnessPercentOfFee := 5000 }) 11 (sampleFee 100) ∧
      SplitsExactly (sampleInviters { gameWitnessPercentOfFee := 5000 }) nullPlayer
        (sampleFee 100) := by
  constructor
  · rw [splitsExactly_iff _ _ _ (sampleInviters_input _ 11 ⟨_, rfl⟩ _ (by decide))]
    decide
  · rw [splitsExactly_iff _ _ _ (sampleInviters_input _ nullPlayer ⟨_, rfl⟩ _ (by decide))]
    decide

/-- **A fee is overspent** by admitted parameters. -/
theorem not_splitsExactly_overspent :
    ¬ ∀ (d : Database) (inviter : PlayerId) (data : PlayerPendingFeeData), d.parameters.Valid →
      FeeInput d inviter data → SplitsExactly d inviter data := by
  intro h
  have hinput := sampleInviters_input { gameWitnessPercentOfFee := 5000 } 11 ⟨_, rfl⟩ 100 (by decide)
  have hle := (splitsExactly_iff_feeTaken hinput).1 (h _ 11 _ (by decide) hinput)
  revert hle
  decide

end Playchain
