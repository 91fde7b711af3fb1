import Playchain.Spec.VestedDeposits

/-!
# The distribution of fees conserves core

Core that is collected as a fee waits in the statistics of its payer or in an accumulator. `unaccounted` is all core that is
somewhere, less the supply: a distribution leaves it as it is, whatever is paid to whom and whatever balances are opened
(`fees_conserved`).

One lemma says what a deposit of cashback does (`depositCashback_spec`). The distribution of an account's fees is a
sequence of deposits, so it succeeds, and adds up.
-/

namespace Playchain

/-! ### Percentages -/

/-- The percentages of an account are those of `account_create` or `account_upgrade`. -/
inductive FeeAccount.PercentagesSet : FeeAccount → Prop
  | create (now : UInt32) {params : ChainParameters} (hparams : params.validate = true) {o : AccountCreateOperation}
      (ho : o.validate = true) (referrer : FeeAccount) : PercentagesSet (.create now params o referrer)
  | upgrade {a a' : FeeAccount} (h : PercentagesSet a) (id : AccountId) (now : UInt32) (lifetime : Bool)
      (hupgrade : a.upgrade id now lifetime = .ok a') : PercentagesSet a'
  /-- Other changes of the account. -/
  | keep {a : FeeAccount} (h : PercentagesSet a) (registrar referrer lifetimeReferrer : AccountId)
      (cashbackVb : Option VestingBalanceId) : PercentagesSet { a with registrar, referrer, lifetimeReferrer, cashbackVb }

namespace FeeAccount

/-- The percentages leave nothing negative. -/
structure Fair (a : FeeAccount) : Prop where
  sum_le : a.networkFeePercentage.toNat + a.lifetimeReferrerFeePercentage.toNat ≤ hundredPercent
  rewards_le : a.referrerRewardsPercentage.toNat ≤ hundredPercent

theorem rewardsPercentage_le {o : AccountCreateOperation} (h : o.validate = true) (now : UInt32) :
    (o.rewardsPercentage now).toNat ≤ hundredPercent := by
  unfold AccountCreateOperation.rewardsPercentage
  split_ifs with _ hlarge
  · decide
  · exact not_lt.mp hlarge
  · exact of_decide_eq_true h

theorem sum_le_of_validate {params : ChainParameters} (h : params.validate = true) :
    params.networkPercentOfFee.toNat + params.lifetimeReferrerPercentOfFee.toNat ≤ hundredPercent := by
  simp only [ChainParameters.validate, Bool.and_eq_true, decide_eq_true_iff] at h
  exact h.1.1.1.1.1.1.1.1.1.2

theorem Fair.upgrade {a a' : FeeAccount} (h : a.Fair) {id : AccountId} {now : UInt32} {lifetime : Bool}
    (hupgrade : a.upgrade id now lifetime = .ok a') : a'.Fair := by
  have hnetwork : a.networkFeePercentage.toNat ≤ 10000 := (Nat.le_add_right _ _).trans h.sum_le
  unfold FeeAccount.upgrade at hupgrade
  obtain ⟨_, -, hupgrade⟩ := Except.bind_eq_ok.1 hupgrade
  split_ifs at hupgrade
  · obtain rfl := Except.ok.inj hupgrade
    refine ⟨?_, h.rewards_le⟩
    have hsub : ((10000 : UInt16) - a.networkFeePercentage).toNat = 10000 - a.networkFeePercentage.toNat :=
      UInt16.toNat_sub_of_le _ _ hnetwork
    dsimp only
    rw [hsub, hundredPercent]
    omega
  · obtain ⟨_, -, hupgrade⟩ := Except.bind_eq_ok.1 hupgrade
    obtain rfl := Except.ok.inj hupgrade
    exact ⟨h.sum_le, h.rewards_le⟩
  · obtain ⟨_, -, hupgrade⟩ := Except.bind_eq_ok.1 hupgrade
    obtain ⟨_, -, hupgrade⟩ := Except.bind_eq_ok.1 hupgrade
    obtain rfl := Except.ok.inj hupgrade
    exact ⟨h.sum_le, h.rewards_le⟩

theorem PercentagesSet.fair {a : FeeAccount} (h : a.PercentagesSet) : a.Fair := by
  induction h with
  | create now hparams ho referrer => exact ⟨sum_le_of_validate hparams, rewardsPercentage_le ho now⟩
  | upgrade _ id now lifetime hupgrade ih => exact ih.upgrade hupgrade
  | keep _ _ _ _ _ ih => exact ⟨ih.sum_le, ih.rewards_le⟩

end FeeAccount

namespace FeeState

/-! ### The parts of a fee -/

/-- A percentage of an amount, computed in 128 bits. -/
theorem percentage_eq {a : ℤ} (h₀ : 0 ≤ a) (h : a < 2 ^ 63) {p : ℕ} (hp : p ≤ hundredPercent) :
    toInt64 (toUInt128 a * p % 2 ^ 128 / hundredPercent % 2 ^ 64) = a * p / hundredPercent := by
  lift a to ℕ using h₀
  have hbig : toUInt128 (a : ℤ) = a := by
    unfold toUInt128
    rw [show (a : ℤ).emod (2 ^ 128) = a from Int.emod_eq_of_lt (by omega) (by omega), Int.toNat_natCast]
  have hmul : a * p ≤ a * 10000 := Nat.mul_le_mul_left a hp
  have hproduct : a * p % 2 ^ 128 = a * p := Nat.mod_eq_of_lt (by omega)
  rw [hbig, hproduct, hundredPercent, Nat.mod_eq_of_lt (by omega : a * p / 10000 < 2 ^ 64)]
  have hfit : toInt64 (a * p / 10000) = ((a * p / 10000 : ℕ) : ℤ) := Int.bmod_eq_of_le (by omega) (by omega)
  rw [hfit]
  push_cast
  rfl

theorem cutFee_eq {a : ℤ} (h₀ : 0 ≤ a) (h : a < 2 ^ 63) {p : UInt16} (hp : p.toNat ≤ hundredPercent) :
    cutFee a p = a * p.toNat / 10000 := by
  unfold cutFee
  split_ifs with hzero hall
  · rcases hzero with rfl | rfl
    · simp
    · simp
  · rw [hall, hundredPercent]
    omega
  · exact percentage_eq h₀ h hp

/-- **The parts of a fee are not negative and add up to it.** -/
theorem feeParts_exact {a : FeeAccount} (ha : a.Fair) {total : ℤ} (h₀ : 0 ≤ total) (h : total < 2 ^ 63) :
    0 ≤ (feeParts a total).network ∧ 0 ≤ (feeParts a total).lifetimeReferrer ∧ 0 ≤ (feeParts a total).referrer ∧
      0 ≤ (feeParts a total).registrar ∧
      (feeParts a total).network + (feeParts a total).lifetimeReferrer + (feeParts a total).referrer +
        (feeParts a total).registrar = total := by
  have hsum := ha.sum_le
  have hrewards := ha.rewards_le
  rw [hundredPercent] at hsum hrewards
  have hnetwork : cutFee total a.networkFeePercentage = total * a.networkFeePercentage.toNat / 10000 :=
    cutFee_eq h₀ h (by rw [hundredPercent]; omega)
  have hlifetime : cutFee total a.lifetimeReferrerFeePercentage = total * a.lifetimeReferrerFeePercentage.toNat / 10000 :=
    cutFee_eq h₀ h (by rw [hundredPercent]; omega)
  have hnonneg : 0 ≤ total * a.networkFeePercentage.toNat := mul_nonneg h₀ (Int.natCast_nonneg _)
  have hnonneg' : 0 ≤ total * a.lifetimeReferrerFeePercentage.toNat := mul_nonneg h₀ (Int.natCast_nonneg _)
  have hall : total * a.networkFeePercentage.toNat + total * a.lifetimeReferrerFeePercentage.toNat ≤ total * 10000 := by
    rw [← mul_add]
    exact mul_le_mul_of_nonneg_left (by omega) h₀
  have hreferral : cutFee (total - cutFee total a.networkFeePercentage - cutFee total a.lifetimeReferrerFeePercentage)
      a.referrerRewardsPercentage =
      (total - cutFee total a.networkFeePercentage - cutFee total a.lifetimeReferrerFeePercentage) *
        a.referrerRewardsPercentage.toNat / 10000 :=
    cutFee_eq (by omega) (by omega) (by rw [hundredPercent]; omega)
  unfold feeParts
  dsimp only
  rw [hreferral, hnetwork, hlifetime]
  generalize hr : total - total * a.networkFeePercentage.toNat / 10000 -
    total * a.lifetimeReferrerFeePercentage.toNat / 10000 = referral
  have hreferral₀ : 0 ≤ referral := by omega
  have hcut₀ : 0 ≤ referral * a.referrerRewardsPercentage.toNat := mul_nonneg hreferral₀ (Int.natCast_nonneg _)
  have hcut : referral * a.referrerRewardsPercentage.toNat ≤ referral * 10000 :=
    mul_le_mul_of_nonneg_left (by omega) hreferral₀
  refine ⟨by omega, by omega, by omega, by omega, by omega⟩

/-! ### Where core is -/

/-- The core in a vesting balance. -/
def coreVesting (vbo : OwnedVestingBalance) : ℤ :=
  if vbo.vesting.balance.assetId = coreAsset then vbo.vesting.balance.amount else 0

/-- The fees that wait. -/
def pendingTotal (s : FeeState) : ℤ := s.statistics.sum fun _ x ↦ x.pendingFees + x.pendingVestedFees

def fbaTotal (s : FeeState) : ℤ := s.fbaAccumulators.sum fun _ x ↦ x.accumulatedFbaFees

def vestingTotal (s : FeeState) : ℤ := s.vestingBalances.sum coreVesting

def balanceTotal (s : FeeState) : ℤ := s.coreBalances.sum fun _ x ↦ x.balance

/-- **All core that is somewhere, less the supply.** -/
def unaccounted (s : FeeState) : ℤ :=
  s.pendingTotal + s.fbaTotal + s.accumulatedFees + s.vestingTotal + s.balanceTotal - s.currentSupply

/-- What the distribution relies on: the accounts it names and their statistics are there, and the cashback balance of
an account is there and holds core. -/
structure WellFormed (s : FeeState) : Prop where
  accounts : ∀ id a, s.accounts.find? id = some a → a.registrar ∈ s.accounts.keys ∧ a.referrer ∈ s.accounts.keys ∧
    a.lifetimeReferrer ∈ s.accounts.keys
  statistics : ∀ id ∈ s.accounts.keys, id ∈ s.statistics.keys
  cashback : ∀ id a vbid, s.accounts.find? id = some a → a.cashbackVb = some vbid →
    ∃ vbo, s.vestingBalances.find? vbid = some vbo ∧ vbo.vesting.balance.assetId = coreAsset

/-! ### Deposits -/

variable {s s' s'' : FeeState} {amount : ℤ}

/-- A deposit in a coin-days balance of core succeeds. -/
theorem depositIn_eq {vbid : VestingBalanceId} {vbo : OwnedVestingBalance} {p : CddVestingPolicy}
    (hpolicy : vbo.vesting.policy = .cdd p) (hasset : vbo.vesting.balance.assetId = coreAsset) (requireVesting : Bool) :
    ∃ policy, s.depositIn vbid vbo amount requireVesting = .ok { s with
      vestingBalances := s.vestingBalances.modify vbid fun vbo' ↦
        { vbo' with vesting := ⟨policy, ⟨vbo.vesting.balance.amount + amount, coreAsset⟩⟩ } } := by
  have hadd : vbo.vesting.balance.add ⟨amount, coreAsset⟩ = .ok ⟨vbo.vesting.balance.amount + amount, coreAsset⟩ :=
    Asset.add_eq_ok.mpr ⟨hasset, by rw [hasset]⟩
  unfold depositIn
  cases requireVesting with
  | true =>
    rw [if_pos rfl, VestingBalance.deposit, hadd]
    exact ⟨_, rfl⟩
  | false =>
    rw [if_neg Bool.false_ne_true, VestingBalance.depositVested, hadd, hpolicy]
    exact ⟨_, rfl⟩

/-- The vesting balances have grown by an amount of core. -/
structure Grown (amount : ℤ) (x y : ObjectIndex OwnedVestingBalance) : Prop where
  total : y.sum coreVesting = x.sum coreVesting + amount
  keeps : ObjectIndex.Keeps (fun vbo ↦ vbo.vesting.balance.assetId) x y

/-- **A lazy deposit succeeds** and adds its amount; the balance it opens holds core. -/
theorem depositLazyVesting_spec {ovbid : Option VestingBalanceId}
    (hfound : ∀ vbid, ovbid = some vbid →
      ∃ vbo, s.vestingBalances.find? vbid = some vbo ∧ vbo.vesting.balance.assetId = coreAsset)
    (reqVestingSeconds : UInt32) (balanceType : VestingBalanceType) (reqOwner : AccountId) (requireVesting : Bool) :
    ∃ o y, s.depositLazyVesting ovbid amount reqVestingSeconds balanceType reqOwner requireVesting =
        .ok (o, { s with vestingBalances := y }) ∧
      Grown amount s.vestingBalances y ∧
      ∀ vbid, o = some vbid → ∃ vbo, y.find? vbid = some vbo ∧ vbo.vesting.balance.assetId = coreAsset := by
  by_cases hzero : amount = 0
  · refine ⟨none, s.vestingBalances, ?_, ⟨by rw [hzero, Int.add_zero], .refl _ _⟩, fun _ h ↦ by cases h⟩
    unfold depositLazyVesting
    rw [if_pos hzero]
    rfl
  cases hreused : s.reused? ovbid reqOwner reqVestingSeconds with
  | none =>
    refine ⟨_, _, depositLazyVesting_new hzero (fun vbid h ↦ ?_) hreused requireVesting, ⟨?_, .create _ _ _⟩, ?_⟩
    · obtain ⟨vbo, hvbo, -⟩ := hfound vbid h
      exact ⟨vbo, hvbo⟩
    · rw [ObjectIndex.sum_create, Int.add_comm]
      rfl
    · rintro vbid ⟨⟩
      exact ⟨_, by rw [ObjectIndex.find?_create, if_pos rfl], rfl⟩
  | some vbo =>
    obtain ⟨vbid, p, rfl, hvbo, hreusable, -, hpolicy, -⟩ := reused?_eq_some hreused
    obtain ⟨vbo', hvbo', hasset⟩ := hfound vbid rfl
    obtain rfl := Option.some.inj (hvbo.symm.trans hvbo')
    obtain ⟨policy, hdeposit⟩ := @depositIn_eq s amount vbid vbo p hpolicy hasset requireVesting
    have heq := @depositLazyVesting_reused s amount reqVestingSeconds balanceType reqOwner vbid vbo hzero hvbo
      hreusable requireVesting
    rw [hdeposit] at heq
    refine ⟨none, _, heq, ⟨?_, fun j b hb ↦ ?_⟩, fun _ h ↦ by cases h⟩
    · rw [ObjectIndex.sum_modify _ hvbo, ObjectIndex.sum_eq_add_remove _ hvbo, coreVesting, coreVesting, if_pos rfl,
        if_pos hasset]
      dsimp only
      omega
    · rw [ObjectIndex.find?_modify, hb]
      split_ifs with hj
      · refine ⟨_, rfl, ?_⟩
        rw [hj, hvbo] at hb
        obtain rfl := Option.some.inj hb
        exact hasset.symm
      · exact ⟨b, rfl, rfl⟩

/-- What a deposit does: it credits an amount to vesting balances or to the network, or takes it from the supply. Accounts
may get another cashback balance, and statistics may be told so; a referrer may be replaced. -/
structure Deposited (amount : ℤ) (s s' : FeeState) : Prop where
  headBlockTime : s'.headBlockTime = s.headBlockTime
  cashbackVestingPeriodSeconds : s'.cashbackVestingPeriodSeconds = s.cashbackVestingPeriodSeconds
  coreBalances : s'.coreBalances = s.coreBalances
  fbaAccumulators : s'.fbaAccumulators = s.fbaAccumulators
  pendingTotal : s'.pendingTotal = s.pendingTotal
  credited : s'.accumulatedFees + s'.vestingTotal - s'.currentSupply =
    s.accumulatedFees + s.vestingTotal - s.currentSupply + amount
  accountKeys : s'.accounts.keys = s.accounts.keys
  accounts : ∀ id a, s.accounts.find? id = some a →
    ∃ referrer cashbackVb, s'.accounts.find? id = some { a with referrer, cashbackVb }
  statisticsKeys : s'.statistics.keys = s.statistics.keys
  statistics : ∀ id x, s.statistics.find? id = some x →
    ∃ hasCashbackVb, s'.statistics.find? id = some { x with hasCashbackVb } ∧
      (x.hasCashbackVb = true → hasCashbackVb = true)

theorem Deposited.refl (s : FeeState) : Deposited 0 s s where
  headBlockTime := rfl
  cashbackVestingPeriodSeconds := rfl
  coreBalances := rfl
  fbaAccumulators := rfl
  pendingTotal := rfl
  credited := (Int.add_zero _).symm
  accountKeys := rfl
  accounts _ a h := ⟨a.referrer, a.cashbackVb, h⟩
  statisticsKeys := rfl
  statistics _ x h := ⟨x.hasCashbackVb, h, fun hx ↦ hx⟩

theorem Deposited.trans {amount' : ℤ} (h : Deposited amount s s') (h' : Deposited amount' s' s'') :
    Deposited (amount + amount') s s'' where
  headBlockTime := h'.headBlockTime.trans h.headBlockTime
  cashbackVestingPeriodSeconds := h'.cashbackVestingPeriodSeconds.trans h.cashbackVestingPeriodSeconds
  coreBalances := h'.coreBalances.trans h.coreBalances
  fbaAccumulators := h'.fbaAccumulators.trans h.fbaAccumulators
  pendingTotal := h'.pendingTotal.trans h.pendingTotal
  credited := by rw [h'.credited, h.credited, Int.add_assoc]
  accountKeys := h'.accountKeys.trans h.accountKeys
  accounts id a ha := by
    obtain ⟨_, _, ha'⟩ := h.accounts id a ha
    obtain ⟨r, vb, ha''⟩ := h'.accounts id _ ha'
    exact ⟨r, vb, ha''⟩
  statisticsKeys := h'.statisticsKeys.trans h.statisticsKeys
  statistics id x hx := by
    obtain ⟨b, hx', hb⟩ := h.statistics id x hx
    obtain ⟨b', hx'', hb'⟩ := h'.statistics id _ hx'
    exact ⟨b', hx'', fun hold ↦ hb' (hb hold)⟩

/-- The vesting balances of a well-formed state have grown. -/
theorem WellFormed.grow (hs : s.WellFormed) {y : ObjectIndex OwnedVestingBalance}
    (hgrown : Grown amount s.vestingBalances y) : WellFormed { s with vestingBalances := y } where
  accounts := hs.accounts
  statistics := hs.statistics
  cashback id a vbid ha hvb := by
    obtain ⟨vbo, hvbo, hasset⟩ := hs.cashback id a vbid ha hvb
    obtain ⟨vbo', hvbo', hasset'⟩ := hgrown.keeps vbid vbo hvbo
    exact ⟨vbo', hvbo', hasset'.trans hasset⟩

/-- A change of an account that keeps a state well-formed. -/
theorem WellFormed.modifyAccount (hs : s.WellFormed) (id : AccountId) {g : FeeAccount → FeeAccount}
    (hg : ∀ a, s.accounts.find? id = some a → (g a).registrar ∈ s.accounts.keys ∧ (g a).referrer ∈ s.accounts.keys ∧
      (g a).lifetimeReferrer ∈ s.accounts.keys)
    (hvb : ∀ a vbid, s.accounts.find? id = some a → (g a).cashbackVb = some vbid →
      ∃ vbo, s.vestingBalances.find? vbid = some vbo ∧ vbo.vesting.balance.assetId = coreAsset) :
    (s.modifyAccount id g).WellFormed where
  accounts j a ha := by
    change (s.accounts.modify id g).find? j = some a at ha
    change _ ∈ (s.accounts.modify id g).keys ∧ _ ∈ (s.accounts.modify id g).keys ∧ _ ∈ (s.accounts.modify id g).keys
    rw [FlatMap.keys_modify]
    rw [FlatMap.find?_modify] at ha
    split_ifs at ha with hj
    · obtain ⟨b, hb, rfl⟩ := Option.map_eq_some_iff.mp ha
      exact hg b (hj ▸ hb)
    · exact hs.accounts j a ha
  statistics j hj := by
    change j ∈ (s.accounts.modify id g).keys at hj
    rw [FlatMap.keys_modify] at hj
    exact hs.statistics j hj
  cashback j a vbid ha hvbid := by
    change (s.accounts.modify id g).find? j = some a at ha
    rw [FlatMap.find?_modify] at ha
    split_ifs at ha with hj
    · obtain ⟨b, hb, rfl⟩ := Option.map_eq_some_iff.mp ha
      exact hvb b vbid (hj ▸ hb) hvbid
    · exact hs.cashback j a vbid ha hvbid

theorem WellFormed.modifyStatistics (hs : s.WellFormed) (id : AccountId) (g : FeeStatistics → FeeStatistics) :
    (s.modifyStatistics id g).WellFormed where
  accounts := hs.accounts
  statistics j hj := by
    change j ∈ (s.statistics.modify id g).keys
    rw [FlatMap.keys_modify]
    exact hs.statistics j hj
  cashback := hs.cashback

theorem Deposited.of_grown {y : ObjectIndex OwnedVestingBalance} (hgrown : Grown amount s.vestingBalances y) :
    Deposited amount s { s with vestingBalances := y } := by
  have hrefl := Deposited.refl s
  refine { hrefl with credited := ?_ }
  change s.accumulatedFees + y.sum coreVesting - s.currentSupply = _
  rw [hgrown.total]
  change s.accumulatedFees + (s.vestingTotal + amount) - s.currentSupply = _
  omega

/-- An account is told about its new cashback balance. -/
theorem Deposited.of_opened (s : FeeState) (acct : AccountId) (vbid : VestingBalanceId) :
    Deposited 0 s ((s.modifyAccount acct fun a ↦ { a with cashbackVb := some vbid }).modifyStatistics acct fun aso ↦
      { aso with hasCashbackVb := true }) := by
  have hrefl := Deposited.refl s
  refine { hrefl with
    pendingTotal := ?_, accountKeys := FlatMap.keys_modify _ _ _, accounts := fun id a ha ↦ ?_,
    statisticsKeys := FlatMap.keys_modify _ _ _, statistics := fun id x hx ↦ ?_ }
  · change (s.statistics.modify acct _).sum _ = _
    rcases hstat : s.statistics.find? acct with - | x
    · rw [FlatMap.modify, hstat]
      rfl
    · rw [FlatMap.sum_modify _ hstat, FeeState.pendingTotal, FlatMap.sum_eq_add_erase _ hstat]
  · change ∃ r vb, (s.accounts.modify acct _).find? id = some _
    rw [FlatMap.find?_modify, ha]
    split_ifs
    · exact ⟨a.referrer, some vbid, rfl⟩
    · exact ⟨a.referrer, a.cashbackVb, rfl⟩
  · change ∃ b, (s.statistics.modify acct _).find? id = some _ ∧ _
    rw [FlatMap.find?_modify, hx]
    split_ifs
    · exact ⟨true, rfl, fun _ ↦ rfl⟩
    · exact ⟨x.hasCashbackVb, rfl, fun hold ↦ hold⟩

/-- **A deposit of cashback succeeds** and credits its amount. -/
theorem depositCashback_spec (hs : s.WellFormed) {acct : AccountId} (hacct : acct ∈ s.accounts.keys) (amount : ℤ)
    (requireVesting : Bool) :
    ∃ s', s.depositCashback acct amount requireVesting = .ok s' ∧ s'.WellFormed ∧ Deposited amount s s' := by
  obtain ⟨a, ha⟩ := FlatMap.mem_keys.mp hacct
  have haccount : s.account acct = .ok a := by rw [account, ha]
  unfold depositCashback
  rw [haccount, Except.ok_bind]
  by_cases hzero : amount = 0
  · rw [if_pos hzero, hzero]
    exact ⟨s, rfl, hs, .refl s⟩
  rw [if_neg hzero]
  by_cases hspecial : isSpecialAccount acct = true
  · rw [if_pos hspecial]
    refine ⟨_, rfl, ⟨hs.accounts, hs.statistics, hs.cashback⟩, ?_⟩
    have hrefl := Deposited.refl s
    refine { hrefl with credited := ?_ }
    change s.accumulatedFees + s.vestingTotal - (s.currentSupply - amount) = _
    omega
  rw [if_neg hspecial]
  obtain ⟨o, y, hlazy, hgrown, hopened⟩ := depositLazyVesting_spec (fun vbid h ↦ hs.cashback acct a vbid ha h)
    s.cashbackVestingPeriodSeconds .cashback acct requireVesting
  rw [hlazy, Except.ok_bind]
  have hgrow := hs.grow hgrown
  cases o with
  | none => exact ⟨_, rfl, hgrow, .of_grown hgrown⟩
  | some vbid =>
    refine ⟨_, rfl, WellFormed.modifyStatistics ?_ acct _, ?_⟩
    · refine hgrow.modifyAccount acct (fun b hb ↦ hgrow.accounts acct b hb) fun b vbid' _ hvbid ↦ ?_
      obtain rfl := Option.some.inj hvbid
      exact hopened vbid rfl
    · have hboth := (Deposited.of_grown hgrown).trans (.of_opened { s with vestingBalances := y } acct vbid)
      rwa [Int.add_zero] at hboth

/-! ### The fees of an account -/

/-- The referrer of an account is replaced. -/
theorem Deposited.of_referrer (s : FeeState) (account : AccountId) :
    Deposited 0 s (s.modifyAccount account fun a ↦ { a with referrer := a.lifetimeReferrer }) := by
  have hrefl := Deposited.refl s
  refine { hrefl with accountKeys := FlatMap.keys_modify _ _ _, accounts := fun id a ha ↦ ?_ }
  change ∃ r vb, (s.accounts.modify account _).find? id = some _
  rw [FlatMap.find?_modify, ha]
  split_ifs
  · exact ⟨a.lifetimeReferrer, a.cashbackVb, rfl⟩
  · exact ⟨a.referrer, a.cashbackVb, rfl⟩

theorem checkReferrer_spec (hs : s.WellFormed) {account : AccountId} (haccount : account ∈ s.accounts.keys) :
    ∃ s', s.checkReferrer account = .ok s' ∧ s'.WellFormed ∧ Deposited 0 s s' := by
  obtain ⟨a, ha⟩ := FlatMap.mem_keys.mp haccount
  obtain ⟨referrer, hreferrer⟩ := FlatMap.mem_keys.mp (hs.accounts account a ha).2.1
  have haccount : s.account account = .ok a := by rw [FeeState.account, ha]
  have hget : s.account a.referrer = .ok referrer := by rw [FeeState.account, hreferrer]
  unfold checkReferrer
  rw [haccount, Except.ok_bind, hget, Except.ok_bind]
  by_cases hbasic : referrer.isBasicAccount s.headBlockTime = true
  · rw [if_pos hbasic]
    refine ⟨_, rfl, ?_, .of_referrer s account⟩
    refine hs.modifyAccount account (fun b hb ↦ ?_) fun b vbid hb hvb ↦ hs.cashback account b vbid hb hvb
    obtain ⟨hregistrar, -, hlifetime⟩ := hs.accounts account b hb
    exact ⟨hregistrar, hlifetime, hlifetime⟩
  · rw [if_neg hbasic]
    exact ⟨s, rfl, hs, .refl s⟩

/-- The network gets its part. -/
theorem Deposited.of_network (s : FeeState) (amount : ℤ) :
    Deposited amount s { s with accumulatedFees := s.accumulatedFees + amount } := by
  have hrefl := Deposited.refl s
  refine { hrefl with credited := ?_ }
  change s.accumulatedFees + amount + s.vestingTotal - s.currentSupply = _
  omega

/-- **The fees of an account are paid out**, all of them. -/
theorem payOutFees_spec (hs : s.WellFormed) {account : AccountId} {a : FeeAccount}
    (ha : s.accounts.find? account = some a) (hfair : a.Fair) {total : ℤ} (h₀ : 0 ≤ total) (h : total < 2 ^ 63)
    (requireVesting : Bool) :
    ∃ s', s.payOutFees account total requireVesting = .ok s' ∧ s'.WellFormed ∧ Deposited total s s' := by
  obtain ⟨s₁, hcheck, hs₁, hd₁⟩ := checkReferrer_spec hs (FlatMap.mem_keys.mpr ⟨a, ha⟩)
  obtain ⟨referrer, vb, ha₁⟩ := hd₁.accounts account a ha
  have hget : s₁.account account = .ok { a with referrer, cashbackVb := vb } := by rw [FeeState.account, ha₁]
  have hnames := hs₁.accounts account _ ha₁
  obtain ⟨-, -, -, -, hsum⟩ := feeParts_exact (a := { a with referrer, cashbackVb := vb }) ⟨hfair.sum_le, hfair.rewards_le⟩
    h₀ h
  generalize hparts : feeParts { a with referrer, cashbackVb := vb } total = parts at hsum
  have hd₂ := Deposited.of_network s₁ parts.network
  have hs₂ : WellFormed { s₁ with accumulatedFees := s₁.accumulatedFees + parts.network } :=
    ⟨hs₁.accounts, hs₁.statistics, hs₁.cashback⟩
  obtain ⟨s₃, h₃, hs₃, hd₃⟩ := depositCashback_spec hs₂ hnames.2.2 parts.lifetimeReferrer requireVesting
  have hkeys₃ : s₃.accounts.keys = s₁.accounts.keys := hd₃.accountKeys.trans hd₂.accountKeys
  obtain ⟨s₄, h₄, hs₄, hd₄⟩ := depositCashback_spec hs₃ (hkeys₃ ▸ hnames.2.1) parts.referrer requireVesting
  obtain ⟨s₅, h₅, hs₅, hd₅⟩ := depositCashback_spec hs₄ ((hd₄.accountKeys.trans hkeys₃) ▸ hnames.1) parts.registrar
    requireVesting
  refine ⟨s₅, ?_, hs₅, ?_⟩
  · unfold payOutFees
    rw [hcheck, Except.ok_bind, hget, Except.ok_bind]
    dsimp only
    rw [hparts, h₃, Except.ok_bind, h₄, Except.ok_bind, h₅]
  · have hall := (((hd₁.trans hd₂).trans hd₃).trans hd₄).trans hd₅
    rwa [Int.zero_add, hsum] at hall

/-- A deposit adds its amount to the core that is somewhere. -/
theorem Deposited.unaccounted (h : Deposited amount s s') : s'.unaccounted = s.unaccounted + amount := by
  have hcredited := h.credited
  have hpending := h.pendingTotal
  have hfba : s'.fbaTotal = s.fbaTotal := by rw [fbaTotal, fbaTotal, h.fbaAccumulators]
  have hbalance : s'.balanceTotal = s.balanceTotal := by rw [balanceTotal, balanceTotal, h.coreBalances]
  unfold FeeState.unaccounted
  omega

/-- The fees of an account have been processed: nothing of them waits any more, and all of them are somewhere. The
statistics of the others may only be told about a cashback balance. -/
structure FeesProcessed (account : AccountId) (s s' : FeeState) : Prop where
  headBlockTime : s'.headBlockTime = s.headBlockTime
  coreBalances : s'.coreBalances = s.coreBalances
  unaccounted : s'.unaccounted = s.unaccounted
  accountKeys : s'.accounts.keys = s.accounts.keys
  accounts : ∀ id a, s.accounts.find? id = some a →
    ∃ referrer cashbackVb, s'.accounts.find? id = some { a with referrer, cashbackVb }
  statisticsKeys : s'.statistics.keys = s.statistics.keys
  others : ∀ id x, id ≠ account → s.statistics.find? id = some x →
    ∃ hasCashbackVb, s'.statistics.find? id = some { x with hasCashbackVb } ∧
      (x.hasCashbackVb = true → hasCashbackVb = true)
  own : ∀ x, s.statistics.find? account = some x →
    ∃ hasCashbackVb, s'.statistics.find? account = some { x with
      hasCashbackVb
      lifetimeFeesPaid := x.lifetimeFeesPaid + (x.pendingFees + x.pendingVestedFees)
      pendingFees := 0
      pendingVestedFees := 0 } ∧ (x.hasCashbackVb = true → hasCashbackVb = true)

/-- The end of `process_fees`: what was paid out is no longer pending. -/
theorem Deposited.clear {account : AccountId} {x : FeeStatistics} (hx : s.statistics.find? account = some x)
    (h : Deposited (x.pendingFees + x.pendingVestedFees) s s') :
    FeesProcessed account s (s'.modifyStatistics account fun aso ↦
      { aso with
        lifetimeFeesPaid := aso.lifetimeFeesPaid + (aso.pendingFees + aso.pendingVestedFees)
        pendingFees := 0
        pendingVestedFees := 0 }) := by
  obtain ⟨b, hx', hb⟩ := h.statistics account x hx
  refine ⟨h.headBlockTime, h.coreBalances, ?_, h.accountKeys, h.accounts, ?_, fun id y hne hy ↦ ?_, fun y hy ↦ ?_⟩
  · have hsum : FeeState.pendingTotal (s'.modifyStatistics account fun aso ↦ { aso with
        lifetimeFeesPaid := aso.lifetimeFeesPaid + (aso.pendingFees + aso.pendingVestedFees)
        pendingFees := 0
        pendingVestedFees := 0 }) = s'.pendingTotal - (x.pendingFees + x.pendingVestedFees) := by
      change (s'.statistics.modify account _).sum _ = _
      rw [FlatMap.sum_modify _ hx', FeeState.pendingTotal, FlatMap.sum_eq_add_erase _ hx']
      dsimp only
      omega
    have hdeposited := h.unaccounted
    unfold FeeState.unaccounted at hdeposited ⊢
    change FeeState.pendingTotal _ + s'.fbaTotal + s'.accumulatedFees + s'.vestingTotal + s'.balanceTotal -
      s'.currentSupply = _
    rw [hsum]
    omega
  · exact (FlatMap.keys_modify _ _ _).trans h.statisticsKeys
  · obtain ⟨c, hy', hc⟩ := h.statistics id y hy
    refine ⟨c, ?_, hc⟩
    change (s'.statistics.modify account _).find? id = _
    rw [FlatMap.find?_modify, if_neg hne, hy']
  · obtain rfl := Option.some.inj (hx.symm.trans hy)
    refine ⟨b, ?_, hb⟩
    change (s'.statistics.modify account _).find? account = _
    rw [FlatMap.find?_modify, if_pos rfl, hx']
    rfl

/-- Without pending fees nothing happens. -/
theorem FeesProcessed.refl {account : AccountId} {x : FeeStatistics} (hx : s.statistics.find? account = some x)
    (h : x.pendingFees = 0) (h' : x.pendingVestedFees = 0) : FeesProcessed account s s where
  headBlockTime := rfl
  coreBalances := rfl
  unaccounted := rfl
  accountKeys := rfl
  accounts _ a ha := ⟨a.referrer, a.cashbackVb, ha⟩
  statisticsKeys := rfl
  others _ y _ hy := ⟨y.hasCashbackVb, hy, fun hold ↦ hold⟩
  own y hy := by
    obtain rfl := Option.some.inj (hx.symm.trans hy)
    obtain ⟨_, _, _, b, _, _, _, _⟩ := x
    dsimp only at h h'
    subst h h'
    exact ⟨b, by simpa using hx, fun hold ↦ hold⟩

/-- **The fees of an account are processed**, whatever they are. -/
theorem processFees_spec (hs : s.WellFormed) {account : AccountId} {a : FeeAccount}
    (ha : s.accounts.find? account = some a) (hfair : a.Fair) {x : FeeStatistics}
    (hx : s.statistics.find? account = some x) (h₀ : 0 ≤ x.pendingFees) (h : x.pendingFees < 2 ^ 63)
    (h₀' : 0 ≤ x.pendingVestedFees) (h' : x.pendingVestedFees < 2 ^ 63) :
    ∃ s', s.processFees account = .ok s' ∧ s'.WellFormed ∧ FeesProcessed account s s' := by
  have hget : s.accountStats account = .ok x := by rw [accountStats, hx]
  unfold processFees
  rw [hget, Except.ok_bind]
  by_cases hpending : x.hasPendingFees = true
  · rw [if_pos hpending]
    obtain ⟨s₁, h₁, hs₁, hd₁⟩ := payOutFees_spec hs ha hfair h₀ h true
    obtain ⟨b, hx₁, -⟩ := hd₁.statistics account x hx
    obtain ⟨referrer, vb, ha₁⟩ := hd₁.accounts account a ha
    have hget₁ : s₁.accountStats account = .ok { x with hasCashbackVb := b } := by rw [accountStats, hx₁]
    obtain ⟨s₂, h₂, hs₂, hd₂⟩ := payOutFees_spec hs₁ ha₁ ⟨hfair.sum_le, hfair.rewards_le⟩ h₀' h' false
    rw [h₁, Except.ok_bind, hget₁, Except.ok_bind, h₂, Except.ok_bind]
    exact ⟨_, rfl, hs₂.modifyStatistics account _, (hd₁.trans hd₂).clear hx⟩
  · rw [if_neg hpending]
    have hnone : ¬(0 < x.pendingFees ∨ 0 < x.pendingVestedFees) := fun hor ↦ hpending (decide_eq_true hor)
    exact ⟨s, rfl, hs, .refl hx (by omega) (by omega)⟩

/-! ### Fee-backed assets -/

theorem balanceTotal_addCore (s : FeeState) (account : AccountId) (amount : ℤ) :
    (s.addCore account amount).balanceTotal = s.balanceTotal + amount := by
  change (s.coreBalances.insert account _).sum _ = _
  rw [FlatMap.sum_insert, balanceTotal]
  rcases hfind : s.coreBalances.find? account with - | x
  · rw [FlatMap.erase_of_find?_none hfind]
    simp only [Option.map_none, Option.getD_none]
    omega
  · rw [FlatMap.sum_eq_add_erase _ hfind]
    simp only [Option.map_some, Option.getD_some]
    omega

/-- A payment to an account, if there is one. -/
theorem unaccounted_pay (s : FeeState) (account : AccountId) (amount : ℤ) :
    (if amount ≠ 0 then s.addCore account amount else s).unaccounted = s.unaccounted + amount ∧
      (if amount ≠ 0 then s.addCore account amount else s).fbaAccumulators = s.fbaAccumulators := by
  by_cases hzero : amount = 0
  · rw [if_neg (not_not.mpr hzero), hzero, Int.add_zero]
    exact ⟨rfl, rfl⟩
  · rw [if_pos hzero]
    refine ⟨?_, rfl⟩
    unfold unaccounted
    change s.pendingTotal + s.fbaTotal + s.accumulatedFees + s.vestingTotal + FeeState.balanceTotal _ -
      s.currentSupply = _
    rw [balanceTotal_addCore]
    omega

/-- An accumulator is cleared, and an amount leaves the supply. -/
theorem unaccounted_clear {id : ℕ} {fba : FbaAccumulator} (hfba : s.fbaAccumulators.find? id = some fba) (amount : ℤ) :
    unaccounted { s with
      fbaAccumulators := s.fbaAccumulators.modify id fun fba ↦ { fba with accumulatedFbaFees := 0 }
      currentSupply := s.currentSupply - amount } = s.unaccounted - fba.accumulatedFbaFees + amount := by
  have hcleared : (s.fbaAccumulators.modify id fun fba ↦ { fba with accumulatedFbaFees := 0 }).sum
      (fun _ x ↦ x.accumulatedFbaFees) = s.fbaTotal - fba.accumulatedFbaFees := by
    rw [FlatMap.sum_modify _ hfba, fbaTotal, FlatMap.sum_eq_add_erase _ hfba]
    dsimp only
    omega
  unfold unaccounted
  change s.pendingTotal + FlatMap.sum _ _ + s.accumulatedFees + s.vestingTotal + s.balanceTotal -
    (s.currentSupply - amount) = _
  rw [hcleared]
  omega

/-- The three parts of an accumulator. -/
theorem fbaParts_exact {fees : ℤ} (h₀ : 0 ≤ fees) {p q : ℕ} (hpq : p + q ≤ hundredPercent) :
    0 ≤ fees * p / hundredPercent ∧ 0 ≤ fees * q / hundredPercent ∧
      fees * p / hundredPercent + fees * q / hundredPercent ≤ fees := by
  have hp : 0 ≤ fees * p := mul_nonneg h₀ (Int.natCast_nonneg _)
  have hq : 0 ≤ fees * q := mul_nonneg h₀ (Int.natCast_nonneg _)
  have hsum : fees * p + fees * q ≤ fees * 10000 := by
    rw [← mul_add]
    rw [hundredPercent] at hpq
    exact mul_le_mul_of_nonneg_left (by omega) h₀
  rw [hundredPercent]
  omega

/-- **An accumulator is split**, all of it. -/
theorem splitFbaBalance_spec {id : ℕ} {fba : FbaAccumulator} (hfba : s.fbaAccumulators.find? id = some fba)
    (h₀ : 0 ≤ fba.accumulatedFbaFees) (h : fba.accumulatedFbaFees < 2 ^ 63) {network buyback issuer : UInt16}
    (hsum : network.toNat + buyback.toNat + issuer.toNat = hundredPercent) :
    ∃ s', s.splitFbaBalance id network buyback issuer = .ok s' ∧ s'.unaccounted = s.unaccounted ∧
      s'.fbaAccumulators = s.fbaAccumulators.modify id fun fba ↦ { fba with accumulatedFbaFees := 0 } := by
  unfold splitFbaBalance
  rw [fcAssert_of_true hsum, Except.ok_bind, hfba]
  dsimp only
  by_cases hzero : fba.accumulatedFbaFees = 0
  · rw [if_pos hzero]
    refine ⟨s, rfl, rfl, FlatMap.ext_find? fun j ↦ ?_⟩
    rw [FlatMap.find?_modify]
    split_ifs with hj
    · rw [hj, hfba, Option.map_some, ← hzero]
    · rfl
  rw [if_neg hzero]
  have hbuyback : buyback.toNat ≤ hundredPercent := by omega
  have hissuer : issuer.toNat ≤ hundredPercent := by omega
  obtain ⟨-, -, hle⟩ := fbaParts_exact h₀ (show buyback.toNat + issuer.toNat ≤ hundredPercent by omega)
  cases fba.designated with
  | none =>
    refine ⟨_, rfl, ?_, rfl⟩
    rw [unaccounted_clear hfba]
    omega
  | some designated =>
    dsimp only
    rw [percentage_eq h₀ h hbuyback, percentage_eq h₀ h hissuer, fcAssert_of_true hle, Except.ok_bind]
    refine ⟨_, rfl, ?_, ?_⟩
    · rw [(unaccounted_pay _ _ _).1, (unaccounted_pay _ _ _).1, unaccounted_clear hfba]
      omega
    · rw [(unaccounted_pay _ _ _).2, (unaccounted_pay _ _ _).2]

end FeeState

/-- **The distribution of fees conserves core.** The parts of a fee of an account whose percentages were set by
`account_create` or `account_upgrade` are not negative and add up; a deposit of cashback credits its amount; and the
processing of fees and the split of an accumulator succeed, clear what they distribute, and leave no core unaccounted
for. -/
theorem fees_conserved :
    (∀ (a : FeeAccount) (total : ℤ), a.PercentagesSet → 0 ≤ total → total < 2 ^ 63 →
      0 ≤ (FeeState.feeParts a total).network ∧ 0 ≤ (FeeState.feeParts a total).lifetimeReferrer ∧
      0 ≤ (FeeState.feeParts a total).referrer ∧ 0 ≤ (FeeState.feeParts a total).registrar ∧
      (FeeState.feeParts a total).network + (FeeState.feeParts a total).lifetimeReferrer +
        (FeeState.feeParts a total).referrer + (FeeState.feeParts a total).registrar = total) ∧
    (∀ (s : FeeState) (account : AccountId) (a : FeeAccount) (x : FeeStatistics), s.WellFormed →
      s.accounts.find? account = some a → a.PercentagesSet → s.statistics.find? account = some x →
      0 ≤ x.pendingFees → x.pendingFees < 2 ^ 63 → 0 ≤ x.pendingVestedFees → x.pendingVestedFees < 2 ^ 63 →
      ∃ s' x', s.processFees account = .ok s' ∧ s'.unaccounted = s.unaccounted ∧
        s'.statistics.find? account = some x' ∧ x'.pendingFees = 0 ∧ x'.pendingVestedFees = 0) ∧
    (∀ (s : FeeState) (acct : AccountId) (amount : ℤ) (requireVesting : Bool), s.WellFormed → acct ∈ s.accounts.keys →
      ∃ s', s.depositCashback acct amount requireVesting = .ok s' ∧ s'.unaccounted = s.unaccounted + amount) ∧
    ∀ (s : FeeState) (id : ℕ) (fba : FbaAccumulator) (network buyback issuer : UInt16),
      s.fbaAccumulators.find? id = some fba → 0 ≤ fba.accumulatedFbaFees → fba.accumulatedFbaFees < 2 ^ 63 →
      network.toNat + buyback.toNat + issuer.toNat = hundredPercent →
      ∃ s', s.splitFbaBalance id network buyback issuer = .ok s' ∧ s'.unaccounted = s.unaccounted ∧
        s'.fbaAccumulators = s.fbaAccumulators.modify id fun fba ↦ { fba with accumulatedFbaFees := 0 } := by
  refine ⟨fun a total ha h₀ h ↦ FeeState.feeParts_exact ha.fair h₀ h, ?_, ?_, ?_⟩
  · intro s account a x hs ha hset hx h₀ h h₀' h'
    obtain ⟨s', hprocess, -, hprocessed⟩ := FeeState.processFees_spec hs ha hset.fair hx h₀ h h₀' h'
    obtain ⟨b, hx', -⟩ := hprocessed.own x hx
    exact ⟨s', _, hprocess, hprocessed.unaccounted, hx', rfl, rfl⟩
  · intro s acct amount requireVesting hs hacct
    obtain ⟨s', hdeposit, -, hdeposited⟩ := FeeState.depositCashback_spec hs hacct amount requireVesting
    exact ⟨s', hdeposit, hdeposited.unaccounted⟩
  · intro s id fba network buyback issuer hfba h₀ h hsum
    exact FeeState.splitFbaBalance_spec hfba h₀ h hsum

/-- Parameters with which a fifth of a fee goes to the network and three tenths to the lifetime referrer. -/
def feeParameters : ChainParameters where
  basicFee := 0
  blockInterval := 5
  maintenanceInterval := 86400
  committeeProposalReviewPeriod := 1209600
  maximumTransactionSize := 2048
  maximumBlockSize := 2000000
  maximumTimeUntilExpiration := 86400
  maximumProposalLifetime := 2419200
  reservePercentOfFee := 2000
  networkPercentOfFee := 2000
  lifetimeReferrerPercentOfFee := 3000
  accountsPerFeeScale := 1000
  accountFeeScaleBitshifts := 4

/-- A lifetime member. -/
def lifetimeMember : FeeAccount where
  membershipExpirationDate := 4294967295
  registrar := 17
  referrer := 17
  lifetimeReferrer := 17
  networkFeePercentage := 2000
  lifetimeReferrerFeePercentage := 8000

/-- An account that the lifetime member has registered. -/
def registeredAccount : FeeAccount := .create 1600000000 feeParameters ⟨17, 17, 5000⟩ lifetimeMember

/-- A chain with the two accounts; the second one has paid fees. -/
def feeChain : FeeState where
  headBlockTime := 1600000000
  cashbackVestingPeriodSeconds := 31536000
  accounts := ((∅ : FlatMap AccountId FeeAccount).insert 17 lifetimeMember).insert 18 registeredAccount
  statistics := ((∅ : FlatMap AccountId FeeStatistics).insert 17 { name := "lifetime" }).insert 18
    { name := "registered", pendingFees := 1001, pendingVestedFees := 333 }
  fbaAccumulators := (∅ : FlatMap ℕ FbaAccumulator).insert 0 { accumulatedFbaFees := 777, designated := some (17, 18) }
  currentSupply := 1000000
  accumulatedFees := 0

theorem percentagesSet_registeredAccount : registeredAccount.PercentagesSet :=
  .create 1600000000 (by decide) (by decide) lifetimeMember

theorem wellFormed_feeChain : feeChain.WellFormed where
  accounts id a ha := by
    rw [feeChain, FlatMap.find?_insert, FlatMap.find?_insert] at ha
    have hmember : (17 : AccountId) ∈ feeChain.accounts.keys := by decide
    split_ifs at ha
    · obtain rfl := Option.some.inj ha
      exact ⟨hmember, hmember, hmember⟩
    · obtain rfl := Option.some.inj ha
      exact ⟨hmember, hmember, hmember⟩
    · cases ha
  statistics := by decide
  cashback id a vbid ha hvb := by
    rw [feeChain, FlatMap.find?_insert, FlatMap.find?_insert] at ha
    split_ifs at ha
    · obtain rfl := Option.some.inj ha
      cases hvb
    · obtain rfl := Option.some.inj ha
      cases hvb
    · cases ha

/-- Fees of 1001 and 333, and 777 for a fee-backed asset. -/
theorem fees_conserved_example :
    (∃ s' x', feeChain.processFees 18 = .ok s' ∧ s'.unaccounted = feeChain.unaccounted ∧
      s'.statistics.find? 18 = some x' ∧ x'.pendingFees = 0 ∧ x'.pendingVestedFees = 0) ∧
    (∃ s', feeChain.depositCashback 17 5 false = .ok s' ∧ s'.unaccounted = feeChain.unaccounted + 5) ∧
    ∃ s', feeChain.splitFbaBalance 0 2000 6000 2000 = .ok s' ∧ s'.unaccounted = feeChain.unaccounted ∧
      s'.fbaAccumulators = feeChain.fbaAccumulators.modify 0 fun fba ↦ { fba with accumulatedFbaFees := 0 } :=
  ⟨fees_conserved.2.1 feeChain 18 registeredAccount _ wellFormed_feeChain rfl percentagesSet_registeredAccount rfl
      (by decide) (by decide) (by decide) (by decide),
    fees_conserved.2.2.1 feeChain 17 5 false wellFormed_feeChain (by decide),
    fees_conserved.2.2.2 feeChain 0 _ 2000 6000 2000 rfl (by decide) (by decide) (by decide)⟩

end Playchain
