import Playchain.MaintainTasks.DepositPendingFees
import Playchain.Lib.Control

/-!
# The balance of an inviter

How much of a fee an inviter keeps depends on what the inviter owns, up to the threshold
`playerReferrerBalanceMaxThreshold`. `getTotalBalance` adds up the inviter's balances in stages and
returns early from each of them, to save the rest of the scan once the threshold is met. The
comparison is the wrong way round: it returns while the sum is *at most* the threshold. So a core
balance up to the threshold is returned alone, and one above it is never a reason to stop.

`fullBalance` is the sum the stages are about, over the set of the balances that count.
-/

namespace Playchain

/-! ### References and signs -/

/-- What the dissemination of fees relies on: it can follow every reference from a player, a witness
or a room, and nobody owns less than nothing. -/
structure FeeBooks (d : Database) : Prop where
  inviter : ∀ id p, d.players.find? id = some p → p.inviter ≠ nullPlayer → d.players.Has p.inviter
  player : ∀ id p b, d.players.find? id = some p → p.balance = some b → d.vestingBalances.Has b
  witness : ∀ id w b, d.gameWitnesses.find? id = some w → w.balance = some b →
    d.vestingBalances.Has b
  room : ∀ id r b, d.rooms.find? id = some r → r.balance = some b → d.vestingBalances.Has b
  core : ∀ account, 0 ≤ d.getBalance account coreAsset
  vesting : ∀ id v, d.vestingBalances.find? id = some v → 0 ≤ v.balance

/-- The amount of a vesting balance. -/
def Database.vestingAmount (d : Database) (id : VestingBalanceId) : ℤ :=
  ((d.vestingBalances.find? id).map VestingBalanceObject.balance).getD 0

theorem FeeBooks.vestingAmount_nonneg {d : Database} (h : FeeBooks d) (id : VestingBalanceId) :
    0 ≤ d.vestingAmount id := by
  unfold Database.vestingAmount
  rcases hv : d.vestingBalances.find? id with - | v
  · exact le_rfl
  · exact h.vesting id v hv

/-! ### The full sum -/

/-- The vesting balances the player, the witness and the rooms of an account remember. -/
def playchainVestings (d : Database) (player : PlayerObject) : List (Option VestingBalanceId) :=
  player.balance :: ((d.gameWitnesses.findKey? player.account).bind fun w ↦ w.2.balance) ::
    (d.rooms.toList.filter fun r ↦ r.2.owner = player.account).map fun r ↦ r.2.balance

/-- The vesting balances that count for a player. -/
def countedVestings (d : Database) (player : PlayerObject) : Finset VestingBalanceId :=
  ((playchainVestings d player).reduceOption ++
    if d.parameters.takeIntoAccountGrapheneBalances then
      (d.vestingBalances.toList.filter fun v ↦ v.2.owner = player.account).map Prod.fst
    else []).toFinset

/-- The core balance of a player and every vesting balance that counts, once. -/
def fullBalance (d : Database) (player : PlayerObject) : ℤ :=
  d.getBalance player.account coreAsset +
    ∑ id ∈ countedVestings d player, d.vestingAmount id

theorem getBalance_le_fullBalance {d : Database} (h : FeeBooks d) (player : PlayerObject) :
    d.getBalance player.account coreAsset ≤ fullBalance d player :=
  le_add_of_nonneg_right (Finset.sum_nonneg fun id _ ↦ h.vestingAmount_nonneg id)

/-! ### The scan -/

/-- Above the threshold the scan never stops. -/
theorem addBalances_of_lt {d : Database} (h : FeeBooks d) {threshold : ℤ}
    {l : List (Option VestingBalanceId)} (hl : ∀ id, some id ∈ l → d.vestingBalances.Has id)
    (result : ℤ) (hresult : threshold < result) :
    ∃ r, addBalances d threshold result l = .ok (r, false) ∧ result ≤ r := by
  induction l generalizing result with
  | nil => exact ⟨result, rfl, le_rfl⟩
  | cons id l ih =>
    have hrest : ∀ id, some id ∈ l → d.vestingBalances.Has id :=
      fun id hid ↦ hl id (List.mem_cons_of_mem _ hid)
    cases id with
    | none =>
      rw [addBalances]
      exact ih hrest _ hresult
    | some id =>
      obtain ⟨vbo, hvbo⟩ := hl id List.mem_cons_self
      have hnonneg := h.vesting id vbo hvbo
      obtain ⟨r, hr, hle⟩ := ih hrest (result + vbo.balance) (by omega)
      refine ⟨r, ?_, by omega⟩
      rw [addBalances, hvbo, orUnableToFind, Except.ok_bind, if_neg (by omega), hr]

theorem has_of_mem_playchainVestings {d : Database} (h : FeeBooks d) {player : PlayerObject}
    {id : PlayerId} (hplayer : d.players.find? id = some player) {b : VestingBalanceId}
    (hb : some b ∈ playchainVestings d player) : d.vestingBalances.Has b := by
  rw [playchainVestings, List.mem_cons, List.mem_cons, List.mem_map] at hb
  rcases hb with hb | hb | ⟨⟨i, r⟩, hr, hb⟩
  · exact h.player id player b hplayer hb.symm
  · obtain ⟨⟨i, w⟩, hw, hb⟩ := Option.bind_eq_some_iff.1 hb.symm
    exact h.witness i w b (UniqueIndex.findKey?_eq_some_iff.1 hw).1 hb
  · exact h.room i r b (ObjectIndex.find?_eq_some_iff.2 (List.mem_filter.1 hr).1) hb

/-- A core balance up to the threshold ends the scan before it starts. -/
theorem getTotalBalance_of_le {d : Database} {player : PlayerObject}
    (hle : d.getBalance player.account coreAsset ≤ d.parameters.playerReferrerBalanceMaxThreshold) :
    getTotalBalance d player = .ok (d.getBalance player.account coreAsset) := by
  unfold getTotalBalance
  dsimp only
  rw [if_pos hle]
  rfl

/-- A core balance above it is only added to. -/
theorem getTotalBalance_of_lt {d : Database} (h : FeeBooks d) {id : PlayerId}
    {player : PlayerObject} (hplayer : d.players.find? id = some player)
    (hlt : d.parameters.playerReferrerBalanceMaxThreshold <
      d.getBalance player.account coreAsset) :
    ∃ r, getTotalBalance d player = .ok r ∧ d.getBalance player.account coreAsset ≤ r := by
  obtain ⟨r, hr, hle⟩ := addBalances_of_lt h
    (fun b hb ↦ has_of_mem_playchainVestings h hplayer hb) _ hlt
  unfold playchainVestings at hr
  unfold getTotalBalance
  dsimp only
  rw [if_neg (not_le.2 hlt), hr, Except.ok_bind, if_neg Bool.false_ne_true]
  by_cases hothers : d.parameters.takeIntoAccountGrapheneBalances = true
  · rw [if_pos hothers]
    obtain ⟨r', hr', hle'⟩ := addBalances_of_lt h (l := (d.vestingBalances.toList.filter fun v ↦
      v.2.owner = player.account ∧ some v.1 ∉ playchainVestings d player).map fun v ↦ some v.1)
      (fun b hb ↦ by
        obtain ⟨⟨i, v⟩, hv, hb⟩ := List.mem_map.1 hb
        obtain rfl := Option.some.inj hb
        exact ⟨v, ObjectIndex.find?_eq_some_iff.2 (List.mem_filter.1 hv).1⟩)
      _ (hlt.trans_le hle)
    unfold playchainVestings at hr'
    exact ⟨r', by rw [hr']; rfl, hle.trans hle'⟩
  · rw [if_neg hothers]
    exact ⟨r, rfl, hle⟩

/-! ### The early exit -/

theorem inviterCuts_of_threshold_le {parameters : PlaychainParameters} {balance : ℤ}
    (hmin : parameters.playerReferrerBalanceMinThreshold ≤ parameters.playerReferrerBalanceMaxThreshold)
    (hmax : parameters.playerReferrerBalanceMaxThreshold ≤ balance) (amount : ℤ) :
    inviterCuts parameters balance amount =
      (amount - cutFee amount parameters.playerReferrerParentPercentOfFee,
        cutFee amount parameters.playerReferrerParentPercentOfFee) := by
  unfold inviterCuts
  dsimp only
  rw [if_neg (by omega), if_neg (by omega)]

/-- **When the early exit is harmless.** Up to the threshold the scan agrees with the full sum exactly
if the core balance alone meets the threshold or nothing else counts; then the inviter's cut is the
one of the full sum. -/
theorem getTotalBalance_eq_fullBalance_iff (d : Database) (hbooks : FeeBooks d) (id : PlayerId)
    (player : PlayerObject) (hplayer : d.players.find? id = some player) :
    ∃ r, getTotalBalance d player = .ok r ∧
      (min r d.parameters.playerReferrerBalanceMaxThreshold =
          min (fullBalance d player) d.parameters.playerReferrerBalanceMaxThreshold ↔
        d.parameters.playerReferrerBalanceMaxThreshold ≤ d.getBalance player.account coreAsset ∨
        ∀ b ∈ countedVestings d player, d.vestingAmount b = 0) ∧
      (min r d.parameters.playerReferrerBalanceMaxThreshold =
          min (fullBalance d player) d.parameters.playerReferrerBalanceMaxThreshold →
        d.parameters.playerReferrerBalanceMinThreshold ≤
          d.parameters.playerReferrerBalanceMaxThreshold →
        ∀ amount, inviterCuts d.parameters r amount =
          inviterCuts d.parameters (fullBalance d player) amount) := by
  have hfull := getBalance_le_fullBalance hbooks player
  have hzero : (∀ b ∈ countedVestings d player, d.vestingAmount b = 0) ↔
      fullBalance d player = d.getBalance player.account coreAsset := by
    rw [fullBalance, add_eq_left,
      Finset.sum_eq_zero_iff_of_nonneg fun b _ ↦ hbooks.vestingAmount_nonneg b]
  rw [hzero]
  rcases le_or_gt (d.getBalance player.account coreAsset)
    d.parameters.playerReferrerBalanceMaxThreshold with hle | hlt
  · refine ⟨_, getTotalBalance_of_le hle, ?_, ?_⟩
    · constructor
      · intro h
        omega
      · intro h
        omega
    · intro h hmin amount
      rcases hle.lt_or_eq with hlt | heq
      · rw [show fullBalance d player = d.getBalance player.account coreAsset by omega]
      · rw [inviterCuts_of_threshold_le hmin heq.ge,
          inviterCuts_of_threshold_le hmin (heq.ge.trans hfull)]
  · obtain ⟨r, hr, hcore⟩ := getTotalBalance_of_lt hbooks hplayer hlt
    refine ⟨r, hr, ?_, ?_⟩
    · exact iff_of_true (by omega) (.inl hlt.le)
    · intro _ hmin amount
      rw [inviterCuts_of_threshold_le hmin (by omega), inviterCuts_of_threshold_le hmin (by omega)]

/-! ### A concrete player -/

/-- An executable test for `FeeBooks`. -/
def feeBooksCheck (d : Database) : Bool :=
  (d.players.toList.all fun p ↦
    (p.2.inviter = nullPlayer || (d.players.find? p.2.inviter).isSome) &&
      p.2.balance.all fun b ↦ (d.vestingBalances.find? b).isSome) &&
  (d.gameWitnesses.toList.all fun w ↦ w.2.balance.all fun b ↦ (d.vestingBalances.find? b).isSome) &&
  (d.rooms.toList.all fun r ↦ r.2.balance.all fun b ↦ (d.vestingBalances.find? b).isSome) &&
  (d.balances.toList.all fun b ↦ 0 ≤ b.2) &&
  d.vestingBalances.toList.all fun v ↦ 0 ≤ v.2.balance

theorem feeBooks_of_check {d : Database} (h : feeBooksCheck d = true) : FeeBooks d := by
  simp only [feeBooksCheck, Bool.and_eq_true, List.all_eq_true, Bool.or_eq_true,
    decide_eq_true_eq, Option.all_eq_true] at h
  obtain ⟨⟨⟨⟨hplayers, hwitnesses⟩, hrooms⟩, hbalances⟩, hvestings⟩ := h
  refine ⟨?_, ?_, ?_, ?_, ?_, ?_⟩
  · intro id p hp hne
    rcases (hplayers _ (ObjectIndex.find?_eq_some_iff.1 hp)).1 with hnull | hsome
    · exact absurd hnull hne
    · exact Option.isSome_iff_exists.1 hsome
  · intro id p b hp hb
    exact Option.isSome_iff_exists.1 ((hplayers _ (ObjectIndex.find?_eq_some_iff.1 hp)).2 b hb)
  · intro id w b hw hb
    exact Option.isSome_iff_exists.1 (hwitnesses _ (ObjectIndex.find?_eq_some_iff.1 hw) b hb)
  · intro id r b hr hb
    exact Option.isSome_iff_exists.1 (hrooms _ (ObjectIndex.find?_eq_some_iff.1 hr) b hb)
  · intro account
    unfold Database.getBalance
    rcases hb : d.balances.find? (toLex (account, coreAsset)) with - | b
    · exact le_rfl
    · exact hbalances _ (FlatMap.find?_eq_some_iff.1 hb)
  · intro id v hv
    exact hvestings _ (ObjectIndex.find?_eq_some_iff.1 hv)

/-- The players of a list of objects, the null player first. -/
def samplePlayers (l : List PlayerObject) : UniqueIndex PlayerObject.account :=
  l.foldl (fun players p ↦ (players.create? p).getD players)
    (((∅ : UniqueIndex PlayerObject.account).create?
      { account := tempAccount, inviter := nullPlayer }).getD ∅)

/-- A player with a core balance and a vesting balance, and thresholds of 10 and 100. -/
def sampleVestedPlayer (core vested : ℤ) : Database where
  headBlockTime := hardforkPlaychain11Time
  accounts := 8
  parameters :=
    { playerReferrerBalanceMinThreshold := 10, playerReferrerBalanceMaxThreshold := 100 }
  balances := (∅ : FlatMap (AccountId ×ₗ AssetId) ℤ).insert (toLex (7, coreAsset)) core
  players := samplePlayers [{ account := 7, inviter := 0, balance := some 0 }]
  vestingBalances := (∅ : ObjectIndex VestingBalanceObject).create
    { owner := 7, balance := vested, vestingSeconds := 0 }

/-- **A vesting balance is overlooked**: of 50 in vesting and no core balance the scan sees nothing. -/
theorem getTotalBalance_overlooks_vesting :
    ¬ ∀ (d : Database) (id : PlayerId) (player : PlayerObject), FeeBooks d →
      d.players.find? id = some player → ∃ r, getTotalBalance d player = .ok r ∧
        min r d.parameters.playerReferrerBalanceMaxThreshold =
          min (fullBalance d player) d.parameters.playerReferrerBalanceMaxThreshold := by
  intro h
  obtain ⟨r, hr, hmin⟩ := h (sampleVestedPlayer 0 50) 1
    { account := 7, inviter := 0, balance := some 0 } (feeBooks_of_check (by decide)) rfl
  have hscan : getTotalBalance (sampleVestedPlayer 0 50)
      { account := 7, inviter := 0, balance := some 0 } = .ok 0 := by rfl
  obtain rfl := Except.ok.inj (hscan.symm.trans hr)
  exact absurd hmin (by decide)

/-- With a core balance at the threshold the vesting balance does not matter. -/
theorem getTotalBalance_eq_fullBalance_iff_core :
    ∃ r, getTotalBalance (sampleVestedPlayer 100 50)
        { account := 7, inviter := 0, balance := some 0 } = .ok r ∧
      min r 100 = min (fullBalance (sampleVestedPlayer 100 50)
        { account := 7, inviter := 0, balance := some 0 }) 100 := by
  obtain ⟨r, hr, hiff, -⟩ := getTotalBalance_eq_fullBalance_iff (sampleVestedPlayer 100 50)
    (feeBooks_of_check (by decide)) 1 { account := 7, inviter := 0, balance := some 0 } rfl
  exact ⟨r, hr, hiff.2 (.inl (by decide))⟩

end Playchain
