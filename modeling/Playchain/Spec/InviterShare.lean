import Playchain.Spec.InviterBalance
import Playchain.Spec.BuyOuts

/-!
# The inviters' share of a fee

A share of a fee climbs the chain of inviters. Each of them keeps a part that depends on what the
inviter owns, and hands on the rest; what is left at the depth limit is parked on the next one.

`Credited` says what a stretch of the dissemination has credited, in terms of the operations it has
pushed, of the vesting balances and of the parked fees. It composes (`Credited.trans`), so each function
has one lemma about its shares.

What the inviters leave over (`invitersLeave`) is read off the state before: a deposit for one
inviter leaves the balances of the older ones alone (`UntouchedBelow`).
-/

namespace Playchain

/-! ### Cuts -/

theorem cutFee_nonneg {a : ℤ} (p : PercentType) : 0 ≤ cutFee a p := by
  unfold cutFee
  by_cases hsmall : a < 1 ∨ p < 1
  · rw [if_pos hsmall]
  rw [if_neg hsmall]
  split_ifs
  · omega
  · exact Int.ediv_nonneg (mul_nonneg (by omega) (Int.natCast_nonneg p)) (Int.natCast_nonneg _)

/-- A cut is a part of the amount. -/
theorem cutFee_le {a : ℤ} (ha : 0 ≤ a) (p : PercentType) : cutFee a p ≤ a := by
  unfold cutFee
  split_ifs with hsmall hall
  · exact ha
  · exact le_rfl
  · refine Int.ediv_le_of_le_mul (by decide) ?_
    exact mul_le_mul_of_nonneg_left (by exact_mod_cast (not_le.1 hall).le) ha

/-- An inviter's cut and what goes on add up, and neither is negative. -/
theorem inviterCuts_spec (parameters : PlaychainParameters) {balance amount : ℤ}
    (hbalance : 0 ≤ balance) (hamount : 0 ≤ amount) :
    0 ≤ (inviterCuts parameters balance amount).1 ∧ 0 ≤ (inviterCuts parameters balance amount).2 ∧
      (inviterCuts parameters balance amount).1 + (inviterCuts parameters balance amount).2 =
        amount := by
  have hcut := cutFee_nonneg (a := amount) parameters.playerReferrerParentPercentOfFee
  have hle := cutFee_le hamount parameters.playerReferrerParentPercentOfFee
  unfold inviterCuts
  generalize cutFee amount parameters.playerReferrerParentPercentOfFee = parentsCut at hcut hle
  generalize hmax : parameters.playerReferrerBalanceMaxThreshold = threshold
  dsimp only
  split_ifs with hmin hpart
  · exact ⟨le_rfl, by dsimp only; omega, by dsimp only; omega⟩
  · have hnonneg : 0 ≤ (amount - parentsCut) * balance / threshold :=
      Int.ediv_nonneg (mul_nonneg (by omega) hbalance) (by omega)
    have hpart : (amount - parentsCut) * balance / threshold ≤ amount - parentsCut :=
      Int.ediv_le_of_le_mul (by omega) (mul_le_mul_of_nonneg_left hpart.le (by omega))
    exact ⟨hnonneg, by dsimp only; omega, by dsimp only; omega⟩
  · exact ⟨by dsimp only; omega, hcut, by dsimp only; omega⟩

/-! ### What has been credited -/

/-- A credit of the dissemination. -/
structure CashbackShare where
  type : PlaychainDepositType
  owner : AccountId
  amount : ℤ

/-- The credit a virtual operation reports. -/
def VirtualOperation.cashback? : VirtualOperation → Option CashbackShare
  | .playchainDepositCashback type _ owner amount _ => some ⟨type, owner, amount.amount⟩
  | _ => none

namespace Database

/-- The credits so far, the latest first. -/
def cashbacks (d : Database) : List CashbackShare :=
  d.appliedOperations.filterMap VirtualOperation.cashback?

/-- All that vests. -/
def vestingTotal (d : Database) : ℤ := d.vestingBalances.sum VestingBalanceObject.balance

/-- All that is parked for inviters above the depth limit. -/
def parkedTotal (d : Database) : ℤ :=
  d.players.sum fun p ↦ p.pendingParentInvitationFees.sum fun _ stats ↦ stats.sum fun _ a ↦ a

/-- The account of a player and the inviter. -/
def playerLink (d : Database) (id : PlayerId) : Option (AccountId × PlayerId) :=
  (d.players.find? id).map fun p ↦ (p.account, p.inviter)

/-- The account of a witness. -/
def witnessAccount (d : Database) (id : GameWitnessId) : Option AccountId :=
  (d.gameWitnesses.find? id).map GameWitnessObject.account

/-- The owner of a room. -/
def roomOwner (d : Database) (id : RoomId) : Option AccountId :=
  (d.rooms.find? id).map RoomObject.owner

end Database

/-- The total of some credits. -/
def shareTotal (shares : List CashbackShare) : ℤ := (shares.map CashbackShare.amount).sum

@[simp] theorem shareTotal_append (shares shares' : List CashbackShare) :
    shareTotal (shares ++ shares') = shareTotal shares + shareTotal shares' := by
  rw [shareTotal, List.map_append, List.sum_append, shareTotal, shareTotal]

@[simp] theorem shareTotal_nil : shareTotal [] = 0 := rfl

@[simp] theorem shareTotal_singleton (share : CashbackShare) :
    shareTotal [share] = share.amount := by
  simp [shareTotal]

/-- **What a stretch of the dissemination has done**: it has credited the shares, the latest first,
and parked an amount. -/
structure Credited (d d' : Database) (shares : List CashbackShare) (parked : ℤ) : Prop where
  books : FeeBooks d'
  cashbacks : d'.cashbacks = shares ++ d.cashbacks
  vesting : d'.vestingTotal = d.vestingTotal + shareTotal shares
  parked : d'.parkedTotal = d.parkedTotal + parked
  players : d'.playerLink = d.playerLink
  witnesses : d'.witnessAccount = d.witnessAccount
  rooms : d'.roomOwner = d.roomOwner
  parameters : d'.parameters = d.parameters

namespace Credited

variable {d d' d'' : Database} {shares shares' : List CashbackShare} {parked parked' : ℤ}

theorem refl (h : FeeBooks d) : Credited d d [] 0 where
  books := h
  cashbacks := rfl
  vesting := by simp [shareTotal]
  parked := by simp
  players := rfl
  witnesses := rfl
  rooms := rfl
  parameters := rfl

theorem trans (h : Credited d d' shares parked) (h' : Credited d' d'' shares' parked') :
    Credited d d'' (shares' ++ shares) (parked + parked') where
  books := h'.books
  cashbacks := by rw [h'.cashbacks, h.cashbacks, List.append_assoc]
  vesting := by
    rw [h'.vesting, h.vesting, shareTotal_append]
    ring
  parked := by rw [h'.parked, h.parked, add_assoc]
  players := h'.players.trans h.players
  witnesses := h'.witnesses.trans h.witnesses
  rooms := h'.rooms.trans h.rooms
  parameters := h'.parameters.trans h.parameters

/-- What has been credited and parked is determined by the two databases. -/
theorem unique (h : Credited d d' shares parked) (h' : Credited d d' shares' parked') :
    shares = shares' ∧ parked = parked' := by
  constructor
  · exact List.append_cancel_right (h.cashbacks.symm.trans h'.cashbacks)
  · have hparked := h.parked.symm.trans h'.parked
    omega

end Credited

/-! ### One deposit -/

/-- Vesting balances may come, and change without getting negative. -/
theorem FeeBooks.setVestings {d : Database} (h : FeeBooks d) {v : ObjectIndex VestingBalanceObject}
    (hhas : ∀ id, d.vestingBalances.Has id → v.Has id)
    (hnonneg : ∀ id b, v.find? id = some b → 0 ≤ b.balance) :
    FeeBooks { d with vestingBalances := v } where
  inviter := h.inviter
  player id p b hp hb := hhas b (h.player id p b hp hb)
  witness id w b hw hb := hhas b (h.witness id w b hw hb)
  room id r b hr hb := hhas b (h.room id r b hr hb)
  core := h.core
  vesting := hnonneg

/-- A deposit adds its amount to the vesting balances, and touches nothing else. -/
theorem depositLazyVesting_spec {d : Database} (h : FeeBooks d) {balance : Option VestingBalanceId}
    (hbalance : ∀ id, balance = some id → d.vestingBalances.Has id) {amount : ℤ} (ha : 0 < amount)
    (seconds : ℕ) (owner : AccountId) :
    (d.depositLazyVesting balance amount seconds owner).Ensures (fun _ ↦ False) fun s ↦
      ∃ v, s.2 = { d with vestingBalances := v } ∧ FeeBooks s.2 ∧
        s.2.vestingTotal = d.vestingTotal + amount ∧
        ∀ id, s.1 = some id → v.Has id := by
  have hcreate (vesting : VestingBalanceObject) (hv : vesting.balance = amount) :
      ∃ v, ({ d with vestingBalances := d.vestingBalances.create vesting } : Database) =
          { d with vestingBalances := v } ∧
        FeeBooks { d with vestingBalances := d.vestingBalances.create vesting } ∧
        ({ d with vestingBalances := d.vestingBalances.create vesting } : Database).vestingTotal =
          d.vestingTotal + amount ∧
        ∀ id, some d.vestingBalances.nextId = some id → v.Has id := by
    refine ⟨_, rfl, h.setVestings ?_ ?_, ?_, ?_⟩
    · exact fun id hid ↦ (ObjectIndex.Keeps.create (fun _ ↦ ()) _ vesting).has hid
    · intro id b hb
      rw [ObjectIndex.find?_create] at hb
      split_ifs at hb
      · obtain rfl := Option.some.inj hb
        omega
      · exact h.vesting id b hb
    · rw [Database.vestingTotal, ObjectIndex.sum_create, hv, add_comm]
      rfl
    · intro id hid
      obtain rfl := Option.some.inj hid
      exact ⟨vesting, by rw [ObjectIndex.find?_create, if_pos rfl]⟩
  unfold Database.depositLazyVesting
  dsimp only
  rw [if_neg ha.ne']
  -- a remembered balance that still fits is reused, otherwise one is created
  cases balance with
  | none => exact .pure (hcreate _ rfl)
  | some id =>
    obtain ⟨vbo, hvbo⟩ := hbalance id rfl
    refine .bind_of_eq (orUnableToFind_eq_ok.2 hvbo) ?_
    refine Except.Ensures.ite (fun _ ↦ .pure ?_) fun _ ↦ .pure (hcreate _ rfl)
    refine ⟨_, rfl, h.setVestings ?_ ?_, ?_, fun _ h ↦ by cases h⟩
    · exact fun j hj ↦ (ObjectIndex.Keeps.modify (f := fun _ ↦ ()) _ id fun _ ↦ rfl).has hj
    · intro j b hb
      rw [ObjectIndex.find?_modify] at hb
      split_ifs at hb with hj
      · rw [hj, hvbo] at hb
        obtain rfl := Option.some.inj hb
        have hnonneg := h.vesting id vbo hvbo
        dsimp only
        omega
      · exact h.vesting j b hb
    · rw [Database.vestingTotal, ObjectIndex.sum_modify _ hvbo, Database.vestingTotal,
        ObjectIndex.sum_eq_add_remove _ hvbo]
      ring

/-- The object that remembers the vesting balance exists. -/
def Database.HasParent (d : Database) : CashbackParent → Prop
  | .player id => d.players.Has id
  | .room id => d.rooms.Has id
  | .witness id => d.gameWitnesses.Has id

/-- The balance that a share goes to is there if it is known. -/
theorem cashbackBalance_spec {d : Database} (h : FeeBooks d) {parent : CashbackParent}
    (hparent : d.HasParent parent) :
    (d.cashbackBalance parent).Ensures (fun _ ↦ False) fun balance ↦
      ∀ id, balance = some id → d.vestingBalances.Has id := by
  cases parent with
  | player i =>
    obtain ⟨p, hp⟩ := hparent
    refine .bind_of_eq (orUnableToFind_eq_ok.2 hp) (.pure fun id hid ↦ ?_)
    exact h.player i p id hp hid
  | room i =>
    obtain ⟨r, hr⟩ := hparent
    refine .bind_of_eq (orUnableToFind_eq_ok.2 hr) (.pure fun id hid ↦ ?_)
    exact h.room i r id hr hid
  | witness i =>
    obtain ⟨w, hw⟩ := hparent
    refine .bind_of_eq (orUnableToFind_eq_ok.2 hw) (.pure fun id hid ↦ ?_)
    exact h.witness i w id hw hid

namespace Credited

variable {d : Database}

/-- A player may change in all but the account and the inviter. -/
theorem modifyPlayer (h : FeeBooks d) {id : PlayerId} {p : PlayerObject}
    (hp : d.players.find? id = some p) {g : PlayerObject → PlayerObject}
    (hg : ∀ p, (g p).account = p.account) (hinviter : ∀ p, (g p).inviter = p.inviter)
    (hbalance : ∀ b, (g p).balance = some b → d.vestingBalances.Has b) :
    Credited d { d with players := d.players.modify id g hg } []
      (((g p).pendingParentInvitationFees.sum fun _ stats ↦ stats.sum fun _ a ↦ a) -
        p.pendingParentInvitationFees.sum fun _ stats ↦ stats.sum fun _ a ↦ a) where
  books :=
    { inviter := by
        intro i q hq hne
        dsimp only at hq ⊢
        rw [UniqueIndex.toObjectIndex_modify] at hq ⊢
        have hkeep : ObjectIndex.Keeps (fun _ ↦ ()) d.players.toObjectIndex
          (d.players.toObjectIndex.modify id g) := .modify _ id fun _ ↦ rfl
        rw [ObjectIndex.find?_modify] at hq
        split_ifs at hq with hi
        · rw [hi, hp] at hq
          obtain rfl := Option.some.inj hq
          rw [hinviter] at hne ⊢
          exact hkeep.has (h.inviter id p hp hne)
        · exact hkeep.has (h.inviter i q hq hne)
      player := by
        intro i q b hq hb
        dsimp only at hq
        rw [UniqueIndex.toObjectIndex_modify, ObjectIndex.find?_modify] at hq
        split_ifs at hq with hi
        · rw [hi, hp] at hq
          obtain rfl := Option.some.inj hq
          exact hbalance b hb
        · exact h.player i q b hq hb
      witness := h.witness
      room := h.room
      core := h.core
      vesting := h.vesting }
  cashbacks := rfl
  vesting := by simp [Database.vestingTotal]
  parked := by
    rw [Database.parkedTotal, UniqueIndex.toObjectIndex_modify, ObjectIndex.sum_modify _ hp,
      Database.parkedTotal, ObjectIndex.sum_eq_add_remove _ hp]
    ring
  players := by
    funext i
    rw [Database.playerLink, UniqueIndex.toObjectIndex_modify]
    have hlink (p : PlayerObject) : ((g p).account, (g p).inviter) = (p.account, p.inviter) := by
      rw [hg, hinviter]
    exact ObjectIndex.map_find?_modify _ id hlink i
  witnesses := rfl
  rooms := rfl
  parameters := rfl

/-- A room may change in all but its owner and its name. -/
theorem modifyRoom (h : FeeBooks d) (id : RoomId) {r : RoomObject} (hr : d.rooms.find? id = some r)
    {g : RoomObject → RoomObject}
    (hg : ∀ r, ((g r).owner, (g r).metadata) = (r.owner, r.metadata))
    (hbalance : ∀ b, (g r).balance = some b → d.vestingBalances.Has b) :
    Credited d { d with rooms := d.rooms.modify id g hg } [] 0 where
  books :=
    { inviter := h.inviter
      player := h.player
      witness := h.witness
      room := by
        intro i q b hq hb
        dsimp only at hq
        rw [UniqueIndex.toObjectIndex_modify, ObjectIndex.find?_modify] at hq
        split_ifs at hq with hi
        · rw [hi, hr] at hq
          obtain rfl := Option.some.inj hq
          exact hbalance b hb
        · exact h.room i q b hq hb
      core := h.core
      vesting := h.vesting }
  cashbacks := rfl
  vesting := by simp [Database.vestingTotal]
  parked := by simp [Database.parkedTotal]
  players := rfl
  witnesses := rfl
  rooms := by
    funext i
    rw [Database.roomOwner, UniqueIndex.toObjectIndex_modify]
    have howner (r : RoomObject) : (g r).owner = r.owner := congrArg Prod.fst (hg r)
    exact ObjectIndex.map_find?_modify _ id howner i
  parameters := rfl

/-- A game witness may change in all but the account. -/
theorem modifyWitness (h : FeeBooks d) {id : GameWitnessId} {w : GameWitnessObject}
    (hw : d.gameWitnesses.find? id = some w) {g : GameWitnessObject → GameWitnessObject}
    (hg : ∀ w, (g w).account = w.account)
    (hbalance : ∀ b, (g w).balance = some b → d.vestingBalances.Has b) :
    Credited d { d with gameWitnesses := d.gameWitnesses.modify id g hg } [] 0 where
  books :=
    { inviter := h.inviter
      player := h.player
      witness := by
        intro i q b hq hb
        dsimp only at hq
        rw [UniqueIndex.toObjectIndex_modify, ObjectIndex.find?_modify] at hq
        split_ifs at hq with hi
        · rw [hi, hw] at hq
          obtain rfl := Option.some.inj hq
          exact hbalance b hb
        · exact h.witness i q b hq hb
      room := h.room
      core := h.core
      vesting := h.vesting }
  cashbacks := rfl
  vesting := by simp [Database.vestingTotal]
  parked := by simp [Database.parkedTotal]
  players := rfl
  witnesses := by
    funext i
    rw [Database.witnessAccount, UniqueIndex.toObjectIndex_modify]
    exact ObjectIndex.map_find?_modify _ id hg i
  rooms := rfl
  parameters := rfl

/-- Remembering a new vesting balance credits nothing. -/
theorem setCashbackBalance (h : FeeBooks d) {parent : CashbackParent} (hparent : d.HasParent parent)
    {id : VestingBalanceId} (hid : d.vestingBalances.Has id) :
    Credited d (d.setCashbackBalance id parent) [] 0 := by
  cases parent with
  | player i =>
    obtain ⟨p, hp⟩ := hparent
    have hcredited := modifyPlayer h hp (g := fun obj ↦ { obj with balance := some id }) (fun _ ↦ rfl)
      (fun _ ↦ rfl) fun b hb ↦ Option.some.inj hb ▸ hid
    rwa [sub_self] at hcredited
  | room i =>
    obtain ⟨r, hr⟩ := hparent
    exact modifyRoom h _ hr (g := fun obj ↦ { obj with balance := some id }) (fun _ ↦ rfl)
      fun b hb ↦ Option.some.inj hb ▸ hid
  | witness i =>
    obtain ⟨w, hw⟩ := hparent
    exact modifyWitness h hw (g := fun obj ↦ { obj with balance := some id }) (fun _ ↦ rfl)
      fun b hb ↦ Option.some.inj hb ▸ hid

end Credited

theorem FeeBooks.pushAppliedOperation {d : Database} (h : FeeBooks d) (op : VirtualOperation) :
    FeeBooks (d.pushAppliedOperation op) :=
  ⟨h.inviter, h.player, h.witness, h.room, h.core, h.vesting⟩

/-- The credit of a deposit: none for an amount below one. -/
def shareOf (type : PlaychainDepositType) (owner : AccountId) (amount : ℤ) : List CashbackShare :=
  if amount < 1 then [] else [⟨type, owner, amount⟩]

/-- A share that is not positive is not paid. -/
theorem shareTotal_shareOf (type : PlaychainDepositType) (owner : AccountId) (amount : ℤ) :
    shareTotal (shareOf type owner amount) = max amount 0 := by
  unfold shareOf
  split_ifs
  · rw [shareTotal_nil]
    omega
  · rw [shareTotal_singleton]
    dsimp only
    omega

theorem mem_shareOf {type : PlaychainDepositType} {owner : AccountId} {amount : ℤ}
    {share : CashbackShare} (h : share ∈ shareOf type owner amount) :
    share = ⟨type, owner, amount⟩ ∧ 0 < amount := by
  unfold shareOf at h
  split_ifs at h
  · cases h
  · exact ⟨List.mem_singleton.1 h, by omega⟩

/-- **One deposit** credits its amount, if that is positive. -/
theorem depositCashback_credited {d : Database} (h : FeeBooks d) (ctx : DepositContext) {room : RoomId}
    (hroom : d.rooms.Has room) (parent : CashbackParent) (hparent : d.HasParent parent)
    (owner : AccountId) (amount : ℤ) :
    (depositCashback d ctx room parent owner amount).Ensures (fun _ ↦ False) fun d' ↦
      Credited d d' (shareOf ctx.type owner amount) 0 := by
  unfold depositCashback
  by_cases hsmall : amount < 1
  · rw [if_pos hsmall, shareOf, if_pos hsmall]
    exact .pure (.refl h)
  rw [if_neg hsmall, shareOf, if_neg hsmall]
  obtain ⟨r, hr⟩ := hroom
  dsimp only
  generalize hop : VirtualOperation.playchainDepositCashback ctx.type ctx.getter owner
    ⟨amount, ctx.assetId⟩ ctx.metadata = op
  refine .bind_of_eq (orUnableToFind_eq_ok.2 hr) ?_
  rw [Asset.sub_of_eq (a := r.pendingRake) (b := ⟨amount, r.pendingRake.assetId⟩) rfl,
    Except.ok_bind]
  -- the rake of the room goes down before anything is credited
  have hrake := Credited.modifyRoom (h.pushAppliedOperation op) room (r := r) hr
    (g := fun r' ↦ { r' with
      pendingRake := ⟨r.pendingRake.amount - amount, r.pendingRake.assetId⟩ })
    (fun _ ↦ rfl) fun b hb ↦ h.room room r b hr hb
  have hparent' : Database.HasParent { d.pushAppliedOperation op with
      rooms := (d.pushAppliedOperation op).rooms.modify room fun r' ↦ { r' with
        pendingRake := ⟨r.pendingRake.amount - amount, r.pendingRake.assetId⟩ } } parent := by
    cases parent with
    | player i => exact hparent
    | witness i => exact hparent
    | room i => exact (ObjectIndex.Keeps.modify (f := fun _ ↦ ()) _ room fun _ ↦ rfl).has hparent
  generalize hd₁ : ({ d.pushAppliedOperation op with
      rooms := (d.pushAppliedOperation op).rooms.modify room fun r' ↦ { r' with
        pendingRake := ⟨r.pendingRake.amount - amount, r.pendingRake.assetId⟩ } } : Database) = d₁
    at hrake hparent'
  refine (cashbackBalance_spec hrake.books hparent').bind fun balance hbalance ↦ ?_
  refine (depositLazyVesting_spec hrake.books hbalance (by omega) _ owner).bind ?_
  rintro ⟨newBalance, d₂⟩ ⟨v, hd₂, hbooks₂, htotal, hnew⟩
  dsimp only at hd₂ hbooks₂ htotal hnew
  have hcredited : Credited d d₂ [⟨ctx.type, owner, amount⟩] 0 :=
    { books := hbooks₂
      cashbacks := by
        rw [hd₂]
        have hlog := hrake.cashbacks
        rw [List.nil_append] at hlog
        refine hlog.trans ?_
        rw [← hop]
        rfl
      vesting := by
        rw [htotal, hrake.vesting, shareTotal_nil, shareTotal_singleton, add_zero]
        rfl
      parked := by
        rw [hd₂]
        exact hrake.parked
      players := by
        rw [hd₂]
        exact hrake.players
      witnesses := by
        rw [hd₂]
        exact hrake.witnesses
      rooms := by
        rw [hd₂]
        exact hrake.rooms
      parameters := by
        rw [hd₂]
        exact hrake.parameters }
  -- a new vesting balance is remembered by the one it was made for
  cases newBalance with
  | none => exact .pure hcredited
  | some id =>
    have hparent₂ : d₂.HasParent parent := by
      rw [hd₂]
      cases parent <;> exact hparent'
    have hid : d₂.vestingBalances.Has id := by
      rw [hd₂]
      exact hnew id rfl
    have hset := hcredited.trans (Credited.setCashbackBalance hbooks₂ hparent₂ hid)
    rw [List.nil_append, add_zero] at hset
    exact .pure hset

/-! ### The inviters' share -/

/-- A player is reached from another by following inviters. -/
def InviterChain (d : Database) : PlayerId → PlayerId → Prop :=
  Relation.ReflTransGen fun a b ↦ ∃ account, d.playerLink a = some (account, b)

theorem has_iff_playerLink {d : Database} {id : PlayerId} :
    d.players.Has id ↔ ∃ link, d.playerLink id = some link := by
  simp [ObjectIndex.Has, Database.playerLink]

theorem Credited.has_player {d d' : Database} {shares : List CashbackShare} {parked : ℤ}
    (h : Credited d d' shares parked) {id : PlayerId} (hid : d.players.Has id) :
    d'.players.Has id := by
  rw [has_iff_playerLink] at hid ⊢
  rwa [h.players]

theorem Credited.has_room {d d' : Database} {shares : List CashbackShare} {parked : ℤ}
    (h : Credited d d' shares parked) {id : RoomId} (hid : d.rooms.Has id) : d'.rooms.Has id := by
  obtain ⟨r, hr⟩ := hid
  have howner := congrFun h.rooms id
  rw [Database.roomOwner, Database.roomOwner, hr] at howner
  obtain ⟨r', hr', -⟩ := Option.map_eq_some_iff.1 howner
  exact ⟨r', hr'⟩

theorem Credited.has_witness {d d' : Database} {shares : List CashbackShare} {parked : ℤ}
    (h : Credited d d' shares parked) {id : GameWitnessId} (hid : d.gameWitnesses.Has id) :
    d'.gameWitnesses.Has id := by
  obtain ⟨w, hw⟩ := hid
  have haccount := congrFun h.witnesses id
  rw [Database.witnessAccount, Database.witnessAccount, hw] at haccount
  obtain ⟨w', hw', -⟩ := Option.map_eq_some_iff.1 haccount
  exact ⟨w', hw'⟩

/-- The total of a player is not negative. -/
theorem getTotalBalance_nonneg {d : Database} (h : FeeBooks d) {id : PlayerId}
    {player : PlayerObject} (hplayer : d.players.find? id = some player) :
    (getTotalBalance d player).Ensures (fun _ ↦ False) fun balance ↦ 0 ≤ balance := by
  have hcore := h.core player.account
  rcases le_or_gt (d.getBalance player.account coreAsset)
    d.parameters.playerReferrerBalanceMaxThreshold with hle | hlt
  · exact .of_exists ⟨_, getTotalBalance_of_le hle, hcore⟩
  · obtain ⟨r, hr, hge⟩ := getTotalBalance_of_lt h hplayer hlt
    exact .of_exists ⟨r, hr, hcore.trans hge⟩

/-- What the inviters' share relies on besides: an account owns the vesting balances that its player,
its witness and its rooms remember, and players are older than those they have invited. -/
structure InviterBooks (d : Database) : Prop extends FeeBooks d where
  older : ∀ id p, d.players.find? id = some p → p.inviter ≠ nullPlayer → p.inviter < id
  playerOwner : ∀ id p b v, d.players.find? id = some p → p.balance = some b →
    d.vestingBalances.find? b = some v → v.owner = p.account
  witnessOwner : ∀ id w b v, d.gameWitnesses.find? id = some w → w.balance = some b →
    d.vestingBalances.find? b = some v → v.owner = w.account
  roomOwner : ∀ id r b v, d.rooms.find? id = some r → r.balance = some b →
    d.vestingBalances.find? b = some v → v.owner = r.owner

/-- The balances of a player belong to the account of the player. -/
theorem InviterBooks.owner_of_mem {d : Database} (h : InviterBooks d) {id : PlayerId}
    {player : PlayerObject} (hplayer : d.players.find? id = some player) {b : VestingBalanceId}
    (hb : some b ∈ playchainVestings d player) :
    ∃ v, d.vestingBalances.find? b = some v ∧ v.owner = player.account := by
  obtain ⟨v, hv⟩ := has_of_mem_playchainVestings h.toFeeBooks hplayer hb
  refine ⟨v, hv, ?_⟩
  rw [playchainVestings, List.mem_cons, List.mem_cons, List.mem_map] at hb
  rcases hb with hb | hb | ⟨⟨i, r⟩, hr, hb⟩
  · exact h.playerOwner id player b v hplayer hb.symm hv
  · obtain ⟨⟨i, w⟩, hw, hb⟩ := Option.bind_eq_some_iff.1 hb.symm
    obtain ⟨hw, haccount⟩ := UniqueIndex.findKey?_eq_some_iff.1 hw
    exact (h.witnessOwner i w b v hw hb hv).trans haccount
  · obtain ⟨hr, howner⟩ := List.mem_filter.1 hr
    exact (h.roomOwner i r b v (ObjectIndex.find?_eq_some_iff.2 hr) hb hv).trans
      (of_decide_eq_true howner)

/-! ### What deposits leave alone -/

/-- **Older players are untouched**: what is read about a player below `n` is as it was, and so are the
vesting balances of the player's account. -/
structure UntouchedBelow (n : PlayerId) (d d' : Database) : Prop where
  parameters : d'.parameters = d.parameters
  balances : d'.balances = d.balances
  witnesses : d'.gameWitnesses = d.gameWitnesses
  rooms : ∀ i, (d'.rooms.find? i).map (fun r ↦ (r.owner, r.balance)) =
    (d.rooms.find? i).map fun r ↦ (r.owner, r.balance)
  players : ∀ i < n, d'.players.find? i = d.players.find? i
  vestings : ∀ i < n, ∀ p, d.players.find? i = some p → ∀ b v, v.owner = p.account →
    (d'.vestingBalances.find? b = some v ↔ d.vestingBalances.find? b = some v)

namespace UntouchedBelow

variable {n : PlayerId} {d d' d'' : Database}

theorem refl (n : PlayerId) (d : Database) : UntouchedBelow n d d where
  parameters := rfl
  balances := rfl
  witnesses := rfl
  rooms _ := rfl
  players _ _ := rfl
  vestings _ _ _ _ _ _ _ := Iff.rfl

theorem mono (h : UntouchedBelow n d d') {m : PlayerId} (hm : m ≤ n) : UntouchedBelow m d d' where
  parameters := h.parameters
  balances := h.balances
  witnesses := h.witnesses
  rooms := h.rooms
  players i hi := h.players i (hi.trans_le hm)
  vestings i hi := h.vestings i (hi.trans_le hm)

theorem trans (h : UntouchedBelow n d d') (h' : UntouchedBelow n d' d'') :
    UntouchedBelow n d d'' where
  parameters := h'.parameters.trans h.parameters
  balances := h'.balances.trans h.balances
  witnesses := h'.witnesses.trans h.witnesses
  rooms i := (h'.rooms i).trans (h.rooms i)
  players i hi := (h'.players i hi).trans (h.players i hi)
  vestings i hi p hp b v hv :=
    (h'.vestings i hi p ((h.players i hi).trans hp) b v hv).trans (h.vestings i hi p hp b v hv)

/-- The balances that are looked at first are the same. -/
theorem playchainVestings_eq (h : UntouchedBelow n d d') (player : PlayerObject) :
    playchainVestings d' player = playchainVestings d player := by
  have hrooms (x : ObjectIndex RoomObject) :
      ((x.toList.filter fun r ↦ r.2.owner = player.account).map fun r ↦ r.2.balance) =
        ((x.toList.map (Prod.map id fun r ↦ (r.owner, r.balance))).filter fun r ↦
          r.2.1 = player.account).map fun r ↦ r.2.2 := by
    rw [List.filter_map, List.map_map]
    rfl
  unfold playchainVestings
  rw [hrooms, hrooms, ObjectIndex.map_toList_congr h.rooms, h.witnesses]

/-- The scan of the balances, written out. -/
theorem getTotalBalance_def (d : Database) (player : PlayerObject) :
    getTotalBalance d player =
      if d.getBalance player.account coreAsset ≤ d.parameters.playerReferrerBalanceMaxThreshold then
        .ok (d.getBalance player.account coreAsset)
      else addBalances d d.parameters.playerReferrerBalanceMaxThreshold
        (d.getBalance player.account coreAsset) (playchainVestings d player) >>= fun s ↦
          if s.2 = true then .ok s.1
          else if d.parameters.takeIntoAccountGrapheneBalances = true then
            addBalances d d.parameters.playerReferrerBalanceMaxThreshold s.1
              ((d.vestingBalances.toList.filter fun v ↦
                v.2.owner = player.account ∧ some v.1 ∉ playchainVestings d player).map fun v ↦
                  some v.1) >>= fun s ↦ .ok s.1
          else .ok s.1 := rfl

/-- The scan of an untouched player's balances gives what it gave. -/
theorem getTotalBalance_eq (h : UntouchedBelow n d d') (hbooks : InviterBooks d) {id : PlayerId}
    (hid : id < n) {player : PlayerObject} (hplayer : d.players.find? id = some player) :
    getTotalBalance d' player = getTotalBalance d player := by
  have hscan (threshold result : ℤ) (l : List (Option VestingBalanceId))
      (hl : ∀ b, some b ∈ l → ∃ v, d.vestingBalances.find? b = some v ∧
        v.owner = player.account) :
      addBalances d' threshold result l = addBalances d threshold result l := by
    induction l generalizing result with
    | nil => rfl
    | cons b l ih =>
      have hrest (result : ℤ) := ih result fun b hb ↦ hl b (List.mem_cons_of_mem _ hb)
      cases b with
      | none => rw [addBalances, addBalances, hrest]
      | some b =>
        obtain ⟨v, hv, howner⟩ := hl b List.mem_cons_self
        rw [addBalances, addBalances, (h.vestings id hid player hplayer b v howner).2 hv, hv]
        simp only [orUnableToFind, Except.ok_bind, hrest]
  have hvestings := h.playchainVestings_eq player
  -- the balances outside the game that the owner has are the same
  have hothers : (d'.vestingBalances.toList.filter fun v ↦
      v.2.owner = player.account ∧ some v.1 ∉ playchainVestings d player) =
      d.vestingBalances.toList.filter fun v ↦
        v.2.owner = player.account ∧ some v.1 ∉ playchainVestings d player :=
    ObjectIndex.filter_toList_congr fun b v hv ↦
      h.vestings id hid player hplayer b v (of_decide_eq_true hv).1
  have howner (b : VestingBalanceId) (hb : some b ∈ (d.vestingBalances.toList.filter fun v ↦
      v.2.owner = player.account ∧ some v.1 ∉ playchainVestings d player).map fun v ↦ some v.1) :
      ∃ v, d.vestingBalances.find? b = some v ∧ v.owner = player.account := by
    obtain ⟨⟨i, v⟩, hv, hb⟩ := List.mem_map.1 hb
    obtain rfl := Option.some.inj hb
    obtain ⟨hv, howner⟩ := List.mem_filter.1 hv
    exact ⟨v, ObjectIndex.find?_eq_some_iff.2 hv, (of_decide_eq_true howner).1⟩
  have hcore : d'.getBalance player.account coreAsset = d.getBalance player.account coreAsset := by
    rw [Database.getBalance, h.balances]
    rfl
  rw [getTotalBalance_def, getTotalBalance_def, hcore, h.parameters, hvestings, hothers,
    hscan _ _ _ fun b hb ↦ hbooks.owner_of_mem hplayer hb]
  simp only [hscan _ _ _ howner]

end UntouchedBelow

/-- A deposit changes vesting balances of its owner only. -/
theorem depositLazyVesting_owner (d : Database) (balance : Option VestingBalanceId) (amount : ℤ)
    (seconds : ℕ) (owner : AccountId) :
    (d.depositLazyVesting balance amount seconds owner).Ensures (fun _ ↦ True) fun s ↦
      ∃ v, s.2 = { d with vestingBalances := v } ∧ ∀ b w, w.owner ≠ owner →
        (v.find? b = some w ↔ d.vestingBalances.find? b = some w) := by
  have hcreate (vesting : VestingBalanceObject) (hv : vesting.owner = owner) (b : VestingBalanceId)
      (w : VestingBalanceObject) (hw : w.owner ≠ owner) :
      (d.vestingBalances.create vesting).find? b = some w ↔
        d.vestingBalances.find? b = some w := by
    refine ⟨fun hb ↦ ?_, fun hb ↦ ObjectIndex.find?_create_of_some hb _⟩
    rw [ObjectIndex.find?_create] at hb
    split_ifs at hb
    · exact absurd (Option.some.inj hb ▸ hv) hw
    · exact hb
  unfold Database.depositLazyVesting
  dsimp only
  refine Except.Ensures.ite (fun _ ↦ .pure ⟨_, rfl, fun _ _ _ ↦ Iff.rfl⟩) fun _ ↦ ?_
  cases balance with
  | none => exact .pure ⟨_, rfl, hcreate _ rfl⟩
  | some id =>
    refine (Except.Ensures.any _).with_eq.bind fun vbo ⟨hvbo, _⟩ ↦ ?_
    refine Except.Ensures.ite (fun ⟨howner, _⟩ ↦ .pure ⟨_, rfl, fun b w hw ↦ ?_⟩)
      fun _ ↦ .pure ⟨_, rfl, hcreate _ rfl⟩
    rw [ObjectIndex.find?_modify]
    split_ifs with hb
    · rw [hb, orUnableToFind_eq_ok.1 hvbo]
      constructor
      · intro heq
        exact absurd (Option.some.inj heq ▸ howner) hw
      · intro heq
        exact absurd (Option.some.inj heq ▸ howner) hw
    · rfl

/-- **A deposit for a player leaves the older players alone.** -/
theorem depositCashback_untouched (d : Database) (ctx : DepositContext) (room : RoomId)
    {id : PlayerId} {player : PlayerObject} (hplayer : d.players.find? id = some player)
    (amount : ℤ) :
    (depositCashback d ctx room (.player id) player.account amount).Ensures (fun _ ↦ True) fun d' ↦
      UntouchedBelow id d d' := by
  unfold depositCashback
  refine Except.Ensures.ite (fun _ ↦ .pure (.refl id d)) fun _ ↦ ?_
  refine (Except.Ensures.any _).bind fun r _ ↦ (Except.Ensures.any _).bind fun rake _ ↦ ?_
  dsimp only
  refine (Except.Ensures.any _).bind fun balance _ ↦ ?_
  refine (depositLazyVesting_owner ..).bind ?_
  rintro ⟨newBalance, d'⟩ ⟨v, hd', hv⟩
  dsimp only at hd' ⊢
  have huntouched : UntouchedBelow id d d' := by
    subst hd'
    refine ⟨rfl, rfl, rfl, fun i ↦ ?_, fun _ _ ↦ rfl, fun i hi p hp b w hw ↦ hv b w ?_⟩
    · have hkeep (r : RoomObject) : ({ r with pendingRake := rake }.owner,
          { r with pendingRake := rake }.balance) = (r.owner, r.balance) := rfl
      exact ObjectIndex.map_find?_modify _ room hkeep i
    · intro howner
      exact hi.ne (d.players.unique hp hplayer (hw.symm.trans howner))
  cases newBalance with
  | none => exact .pure huntouched
  | some b =>
    refine .pure (huntouched.trans ⟨rfl, rfl, rfl, fun _ ↦ rfl, fun i hi ↦ ?_,
      fun _ _ _ _ _ _ _ ↦ Iff.rfl⟩)
    exact ObjectIndex.find?_modify_of_ne _ _ hi.ne

/-! ### What the inviters leave over -/

/-- What an inviter hands on of an amount, by the balance the scan finds. -/
def handedOn (d : Database) (inviter : PlayerObject) (amount : ℤ) : ℤ :=
  match getTotalBalance d inviter with
  | .ok balance => (inviterCuts d.parameters balance amount).2
  | .error _ => amount

/-- **What the inviters leave over** of an amount that climbs up to `depth` of them: what the last of
them hands on, and nothing if there is one more to park it on. -/
def invitersLeave (d : Database) : ℕ → PlayerId → ℤ → ℤ
  | depth, inviter, amount =>
    if inviter = nullPlayer ∨ amount < 1 then amount
    else
      match depth with
      | 0 => 0
      | depth + 1 =>
        match d.players.find? inviter with
        | none => 0
        | some obj => invitersLeave d depth obj.inviter (handedOn d obj amount)

/-- What is handed on if nothing can be kept. -/
theorem inviterCuts_of_le (parameters : PlaychainParameters) (balance : ℤ) {amount : ℤ}
    (hamount : 0 ≤ amount)
    (hcut : ¬0 < amount - cutFee amount parameters.playerReferrerParentPercentOfFee) :
    (inviterCuts parameters balance amount).2 =
      cutFee amount parameters.playerReferrerParentPercentOfFee := by
  have hle := cutFee_le hamount parameters.playerReferrerParentPercentOfFee
  have hzero : amount - cutFee amount parameters.playerReferrerParentPercentOfFee = 0 := by omega
  unfold inviterCuts
  dsimp only
  rw [hzero, zero_mul, Int.zero_ediv]
  split_ifs
  · exact add_zero _
  · exact add_zero _
  · rfl

/-- Parking an amount on a player. -/
theorem parkParentFees_credited {d : Database} (h : FeeBooks d) (ctx : DepositContext)
    (room : RoomId) {inviter : PlayerId} (hinviter : d.players.Has inviter) (amount : ℤ) :
    Credited d (parkParentFees d ctx room inviter amount) [] amount := by
  obtain ⟨p, hp⟩ := hinviter
  let key : DepositKey := toLex (ctx.assetId, toLex (ctx.getter, ctx.metadata))
  let stats := (p.pendingParentInvitationFees.find? room).getD ∅
  have hcredited := Credited.modifyPlayer h hp (g := fun obj ↦
    let stats := (obj.pendingParentInvitationFees.find? room).getD ∅
    let stats := stats.insert key ((stats.find? key).getD 0 + amount)
    { obj with pendingParentInvitationFees := obj.pendingParentInvitationFees.insert room stats })
    (fun _ ↦ rfl) (fun _ ↦ rfl) fun b hb ↦ h.player inviter p b hp hb
  have hstats : ((stats.insert key ((stats.find? key).getD 0 + amount)).sum fun _ a ↦ a) =
      (stats.sum fun _ a ↦ a) + amount := by
    rw [FlatMap.sum_insert]
    rcases hk : stats.find? key with - | a
    · rw [FlatMap.erase_of_find?_none hk, Option.getD_none]
      ring
    · rw [FlatMap.sum_eq_add_erase _ hk, Option.getD_some]
      ring
  have hsum : ((p.pendingParentInvitationFees.insert room
      (stats.insert key ((stats.find? key).getD 0 + amount))).sum fun _ stats ↦
        stats.sum fun _ a ↦ a) -
      (p.pendingParentInvitationFees.sum fun _ stats ↦ stats.sum fun _ a ↦ a) = amount := by
    rw [FlatMap.sum_insert, hstats]
    rcases hs : p.pendingParentInvitationFees.find? room with - | old
    · rw [FlatMap.erase_of_find?_none hs, show stats = ∅ by simp only [stats, hs]; rfl,
        FlatMap.sum_empty]
      ring
    · rw [FlatMap.sum_eq_add_erase _ hs, show stats = old by simp only [stats, hs]; rfl]
      ring
  dsimp only at hcredited
  rw [hsum] at hcredited
  exact hcredited

/-- A credit goes to one of the inviters. -/
structure ForInviter (d : Database) (inviter : PlayerId) (share : CashbackShare) : Prop where
  type : share.type = .inviter
  pos : 0 < share.amount
  owner : ∃ id next, InviterChain d inviter id ∧ d.playerLink id = some (share.owner, next)

/-- **The inviters' share**: what is credited, parked and left over adds up, and what is left over is
what the inviters leave by their balances before. The climb has paid younger players only. -/
theorem disseminateForInviters_credited {ctx : DepositContext} (hctx : ctx.type = .inviter)
    {room : RoomId} {depth : ℕ} {d₀ d : Database} (hbooks : InviterBooks d₀) (h : FeeBooks d)
    (hroom : d.rooms.Has room) {inviter : PlayerId} (hd : UntouchedBelow (inviter + 1) d₀ d)
    (hinviter : inviter ≠ nullPlayer → d.players.Has inviter) {amount : ℤ} (hamount : 0 ≤ amount) :
    (disseminateForInviters ctx room depth d inviter amount).Ensures (fun _ ↦ False) fun s ↦
      ∃ shares parked, Credited d s.1 shares parked ∧ (∀ share ∈ shares, ForInviter d inviter share) ∧
        0 ≤ parked ∧ 0 ≤ s.2 ∧ shareTotal shares + parked + s.2 = amount ∧
        s.2 = invitersLeave d₀ depth inviter amount := by
  have hnone {d : Database} {inviter : PlayerId} :
      ∀ share ∈ ([] : List CashbackShare), ForInviter d inviter share :=
    fun _ hs ↦ absurd hs List.not_mem_nil
  induction depth generalizing d inviter amount with
  -- at the limit of the depth the rest is parked, not handed on
  | zero =>
    rw [disseminateForInviters, invitersLeave]
    by_cases hend : inviter = nullPlayer ∨ amount < 1
    · rw [if_pos hend, if_pos hend]
      exact .pure ⟨[], 0, .refl h, hnone, le_rfl, hamount, by simp, rfl⟩
    · rw [if_neg hend, if_neg hend]
      refine .pure ⟨[], amount, parkParentFees_credited h ctx room
        (hinviter fun hn ↦ hend (.inl hn)) amount, hnone, hamount, le_rfl, ?_, rfl⟩
      simp
  | succ depth ih =>
    rw [disseminateForInviters, invitersLeave]
    by_cases hend : inviter = nullPlayer ∨ amount < 1
    · rw [if_pos hend, if_pos hend]
      exact .pure ⟨[], 0, .refl h, hnone, le_rfl, hamount, by simp, rfl⟩
    rw [if_neg hend, if_neg hend]
    obtain ⟨obj, hobj⟩ := hinviter fun hn ↦ hend (.inl hn)
    have hobj₀ : d₀.players.find? inviter = some obj :=
      (hd.players inviter (Nat.lt_succ_self _)).symm.trans hobj
    have hlink : d.playerLink inviter = some (obj.account, obj.inviter) := by
      rw [Database.playerLink, hobj]
      rfl
    dsimp only
    rw [hobj₀]
    refine .bind_of_eq (orUnableToFind_eq_ok.2 hobj) ?_
    -- first the inviter's own cut, then the climb on a database in which only this inviter was paid
    refine Except.Ensures.bind (Q := fun s : Database × ℤ ↦ ∃ shares,
      Credited d s.1 shares 0 ∧ (∀ share ∈ shares, ForInviter d inviter share) ∧ 0 ≤ s.2 ∧
        shareTotal shares + s.2 = amount ∧ s.2 = handedOn d₀ obj amount ∧
        UntouchedBelow inviter d₀ s.1) ?_ ?_
    · obtain ⟨balance, hscan, hbalance⟩ := (getTotalBalance_nonneg h hobj).exists_ok
      have hhanded : handedOn d₀ obj amount = (inviterCuts d.parameters balance amount).2 := by
        rw [hd.getTotalBalance_eq hbooks (Nat.lt_succ_self _) hobj₀] at hscan
        rw [handedOn, hscan, hd.parameters]
      by_cases hcut : 0 < amount - cutFee amount d.parameters.playerReferrerParentPercentOfFee
      · rw [if_pos hcut, hscan, Except.ok_bind]
        obtain ⟨hmy, hparents, hsum⟩ := inviterCuts_spec d.parameters hbalance hamount
        generalize inviterCuts d.parameters balance amount = cuts at hmy hparents hsum hhanded ⊢
        obtain ⟨myCut, parentsCut⟩ := cuts
        refine ((depositCashback_credited h ctx hroom (.player inviter) ⟨obj, hobj⟩
          obj.account _).and_any (depositCashback_untouched d ctx room hobj _)).bind
          fun d₁ ⟨hd₁, huntouched⟩ ↦ .pure ⟨_, hd₁, fun share hs ↦ ?_, hparents, ?_, hhanded.symm,
            (hd.mono (Nat.le_succ _)).trans huntouched⟩
        · obtain ⟨rfl, hpos⟩ := mem_shareOf hs
          exact ⟨hctx, hpos, inviter, obj.inviter, .refl, hlink⟩
        · rw [shareTotal_shareOf, max_eq_left hmy]
          exact hsum
      · rw [if_neg hcut]
        have hle := cutFee_le hamount d.parameters.playerReferrerParentPercentOfFee
        rw [inviterCuts_of_le _ _ hamount hcut] at hhanded
        refine .pure ⟨[], .refl h, hnone, cutFee_nonneg _, ?_, hhanded.symm,
          hd.mono (Nat.le_succ _)⟩
        rw [shareTotal_nil]
        omega
    · rintro ⟨d₁, parentsCut⟩ ⟨shares, hd₁, hshares, hparents, hsum, hhanded, huntouched⟩
      dsimp only at hd₁ hparents hsum hhanded huntouched ⊢
      rw [← hhanded]
      have hnext : obj.inviter ≠ nullPlayer → d₁.players.Has obj.inviter :=
        fun hne ↦ hd₁.has_player (h.inviter inviter obj hobj hne)
      -- the next inviter is older, and so still untouched
      have holder : obj.inviter < inviter := by
        by_cases hnull : obj.inviter = nullPlayer
        · rw [hnull]
          exact Nat.pos_of_ne_zero fun hn ↦ hend (.inl hn)
        · exact hbooks.older inviter obj hobj₀ hnull
      refine (ih hd₁.books (hd₁.has_room hroom) (huntouched.mono holder) hnext hparents).mono ?_
      rintro ⟨d₂, left⟩ ⟨shares₂, parked, hd₂, hshares₂, hparked, hleft, htotal, hleave⟩
      refine ⟨shares₂ ++ shares, 0 + parked, hd₁.trans hd₂, ?_, by omega, hleft, ?_, hleave⟩
      · intro share hs
        rcases List.mem_append.1 hs with hs | hs
        · obtain ⟨htype, hpos, id, next, hchain, hid⟩ := hshares₂ share hs
          rw [InviterChain, hd₁.players] at hchain
          rw [hd₁.players] at hid
          exact ⟨htype, hpos, id, next, .head ⟨obj.account, hlink⟩ hchain, hid⟩
        · exact hshares share hs
      · rw [shareTotal_append]
        dsimp only at htotal ⊢
        omega

end Playchain
