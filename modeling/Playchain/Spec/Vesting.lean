import Playchain.Graphene.VestingBalance
import Playchain.Lib.Control

/-!
# Vesting balances do not underflow

The invariant of a vesting balance depends on its policy (`VestingPolicy.Sound`): what a linear policy has
not released yet is still in the balance, which is at most the one it began with, and a coin-days policy has
not earned more than the balance times the vesting period. Under it, the allowed amount lies between zero and
the balance, and withdrawing takes from it exactly what is withdrawn (`VestingBalance.vesting_sound`).

A linear policy is not meant to get deposits, but admits them. Once one raises the balance above the one it
began with, an assertion of `get_allowed_withdraw` fails (`VestingBalance.vesting_unsound`).
-/

namespace Playchain

/-- Amounts of one asset are compared as numbers. -/
theorem Asset.le_of_same {a b : Asset} (h : a.assetId = b.assetId) :
    a.le b = .ok (decide (a.amount ≤ b.amount)) := by
  have hlt : b.lt a = .ok (decide (b.amount < a.amount)) := by
    unfold Asset.lt Asset.sameAsset
    rw [fcAssert_of_true h.symm]
    rfl
  unfold Asset.le
  rw [hlt]
  show Except.ok (!decide (b.amount < a.amount)) = _
  rw [← decide_not, decide_eq_decide.mpr not_lt]

theorem Asset.le_of_ne {a b : Asset} (h : a.assetId ≠ b.assetId) {r : Bool} : a.le b ≠ .ok r := by
  unfold Asset.le Asset.lt Asset.sameAsset fcAssert
  rw [if_neg (Ne.symm h)]
  exact fun hh ↦ (by cases hh)

/-! ### Machine integers that fit -/

theorem toUInt128_of_nonneg {x : ℤ} (h₀ : 0 ≤ x) (h : x ≤ maxShareSupply) : toUInt128 x = x.toNat := by
  rw [toUInt128, show x.emod (2 ^ 128) = x % 2 ^ 128 from rfl, Int.emod_eq_of_lt h₀]
  rw [maxShareSupply] at h
  omega

theorem toInt64_of_le {n : ℕ} (h : (n : ℤ) ≤ maxShareSupply) : toInt64 (n % 2 ^ 64) = n := by
  rw [maxShareSupply] at h
  have hlt : n % 2 ^ 64 = n := Nat.mod_eq_of_lt (by omega)
  rw [hlt]
  exact Int.bmod_eq_of_le_mul_two (by omega) (by omega)

/-! ### Linear policies -/

namespace LinearVestingPolicy

variable {p : LinearVestingPolicy}

/-- The vested part before it is rounded to machine integers. -/
theorem totalVested_eq (h₀ : 0 ≤ p.beginBalance) (h : p.beginBalance ≤ maxShareSupply) {elapsed : ℕ}
    (he : elapsed < 2 ^ 32) :
    p.totalVested elapsed =
      if elapsed < p.vestingDurationSeconds.toNat then
        ((p.beginBalance.toNat * elapsed / p.vestingDurationSeconds.toNat : ℕ) : ℤ)
      else p.beginBalance := by
  unfold totalVested
  split_ifs with hlt
  · have hle : p.beginBalance.toNat * elapsed / p.vestingDurationSeconds.toNat ≤ p.beginBalance.toNat :=
      Nat.div_le_of_le_mul (by
        rw [Nat.mul_comm p.vestingDurationSeconds.toNat]
        exact Nat.mul_le_mul_left _ hlt.le)
    have hmul : p.beginBalance.toNat * elapsed < 2 ^ 128 := by
      rw [maxShareSupply] at h
      calc p.beginBalance.toNat * elapsed ≤ 1000000000000000 * 2 ^ 32 :=
            Nat.mul_le_mul (by omega) he.le
        _ < 2 ^ 128 := by norm_num
    rw [toUInt128_of_nonneg h₀ h, Nat.mod_eq_of_lt hmul, toInt64_of_le (by omega)]
  · rfl

/-- The vested part lies between zero and the whole, and grows. -/
theorem totalVested_bounds (h₀ : 0 ≤ p.beginBalance) (h : p.beginBalance ≤ maxShareSupply) {elapsed : ℕ}
    (he : elapsed < 2 ^ 32) : 0 ≤ p.totalVested elapsed ∧ p.totalVested elapsed ≤ p.beginBalance := by
  rw [totalVested_eq h₀ h he]
  split_ifs with hlt
  · have hle : p.beginBalance.toNat * elapsed / p.vestingDurationSeconds.toNat ≤ p.beginBalance.toNat :=
      Nat.div_le_of_le_mul (by
        rw [Nat.mul_comm p.vestingDurationSeconds.toNat]
        exact Nat.mul_le_mul_left _ hlt.le)
    generalize p.beginBalance.toNat * elapsed / p.vestingDurationSeconds.toNat = q at hle ⊢
    omega
  · exact ⟨h₀, le_rfl⟩

theorem totalVested_mono (h₀ : 0 ≤ p.beginBalance) (h : p.beginBalance ≤ maxShareSupply) {e e' : ℕ}
    (hle : e ≤ e') (he' : e' < 2 ^ 32) : p.totalVested e ≤ p.totalVested e' := by
  by_cases hlt : e' < p.vestingDurationSeconds.toNat
  · rw [totalVested_eq h₀ h (by omega), totalVested_eq h₀ h he', if_pos (by omega), if_pos hlt]
    exact_mod_cast Nat.div_le_div_right (Nat.mul_le_mul_left _ hle)
  · rw [totalVested_eq h₀ h he', if_neg hlt]
    exact (totalVested_bounds h₀ h (by omega)).2

/-- The cliff has passed. -/
def Claimable (p : LinearVestingPolicy) (now : UInt32) : Prop :=
  p.beginTimestamp < now ∧ p.vestingCliffSeconds.toNat ≤ now.toNat - p.beginTimestamp.toNat

instance (p : LinearVestingPolicy) (now : UInt32) : Decidable (p.Claimable now) :=
  inferInstanceAs (Decidable (_ ∧ _))

theorem Claimable.mono {t now : UInt32} (h : p.Claimable t) (hle : t ≤ now) : p.Claimable now := by
  obtain ⟨hbegin, hcliff⟩ := h
  rw [UInt32.le_iff_toNat_le] at hle
  rw [UInt32.lt_iff_toNat_lt] at hbegin
  exact ⟨by rw [UInt32.lt_iff_toNat_lt]; omega, by omega⟩

/-- The part of the balance that has been released. -/
def released (p : LinearVestingPolicy) (now : UInt32) : ℤ :=
  if p.Claimable now then p.totalVested (now.toNat - p.beginTimestamp.toNat) else 0

theorem elapsed_lt (p : LinearVestingPolicy) (now : UInt32) : now.toNat - p.beginTimestamp.toNat < 2 ^ 32 :=
  (Nat.sub_le _ _).trans_lt now.toNat_lt

theorem released_bounds (h₀ : 0 ≤ p.beginBalance) (h : p.beginBalance ≤ maxShareSupply) (now : UInt32) :
    0 ≤ p.released now ∧ p.released now ≤ p.beginBalance := by
  unfold released
  split_ifs
  · exact totalVested_bounds h₀ h (p.elapsed_lt now)
  · exact ⟨le_rfl, h₀⟩

theorem released_mono (h₀ : 0 ≤ p.beginBalance) (h : p.beginBalance ≤ maxShareSupply) {t now : UInt32}
    (hle : t ≤ now) : p.released t ≤ p.released now := by
  by_cases ht : p.Claimable t
  · rw [released, if_pos ht, released, if_pos (ht.mono hle)]
    refine totalVested_mono h₀ h ?_ (p.elapsed_lt now)
    exact Nat.sub_le_sub_right (UInt32.le_iff_toNat_le.mp hle) _
  · rw [released, if_neg ht]
    exact (released_bounds h₀ h now).1

/-- What can be withdrawn of an amount. -/
def allowed (p : LinearVestingPolicy) (amount : ℤ) (now : UInt32) : ℤ :=
  if p.Claimable now then p.released now - (p.beginBalance - amount) else 0

/-- **The assertions of a linear policy hold** if the balance is at most the one it began with, and what has
not been released is still there. -/
theorem getAllowedWithdraw_eq (h₀ : 0 ≤ p.beginBalance) (h : p.beginBalance ≤ maxShareSupply) {balance : Asset}
    {now : UInt32} (hbegin : balance.amount ≤ p.beginBalance)
    (hreleased : p.beginBalance - p.released now ≤ balance.amount) :
    p.getAllowedWithdraw balance now = .ok ⟨p.allowed balance.amount now, balance.assetId⟩ := by
  unfold allowed
  by_cases hc : p.Claimable now
  · rw [released, if_pos hc] at hreleased
    rw [if_pos hc, released, if_pos hc]
    have hvested := (totalVested_bounds h₀ h (p.elapsed_lt now)).1
    refine (if_pos hc).trans ?_
    dsimp only
    rw [fcAssert_of_true hvested, fcAssert_of_true (by omega), fcAssert_of_true (by omega)]
    rfl
  · rw [if_neg hc]
    exact if_neg hc

end LinearVestingPolicy

/-! ### Coin-days policies -/

namespace CddVestingPolicy

variable {p : CddVestingPolicy} {balance : Asset} {now : UInt32}

theorem seconds_pos (p : CddVestingPolicy) : 0 < p.seconds := Nat.lt_of_lt_of_le Nat.one_pos (le_max_right _ _)

theorem seconds_le (p : CddVestingPolicy) : p.seconds ≤ 2 ^ 32 :=
  max_le p.vestingSeconds.toNat_lt.le (by norm_num)

/-- The coin-seconds are computed without overflow. -/
theorem computeCoinSecondsEarned_eq (h₀ : 0 ≤ balance.amount) (h : balance.amount ≤ maxShareSupply)
    (hearned : p.coinSecondsEarned ≤ balance.amount.toNat * p.seconds)
    (hlast : p.coinSecondsEarnedLastUpdate ≤ now) :
    p.computeCoinSecondsEarned balance now =
      min (p.coinSecondsEarned +
          balance.amount.toNat * (now.toNat - p.coinSecondsEarnedLastUpdate.toNat))
        (balance.amount.toNat * p.seconds) := by
  have hle := UInt32.le_iff_toNat_le.mp hlast
  have hnow := now.toNat_lt
  have hb : balance.amount.toNat ≤ 1000000000000000 := by
    rw [maxShareSupply] at h
    omega
  have hdelta : toUInt128 ((now.toNat : ℤ) - p.coinSecondsEarnedLastUpdate.toNat) =
      now.toNat - p.coinSecondsEarnedLastUpdate.toNat := by
    rw [toUInt128_of_nonneg (by omega) (by rw [maxShareSupply]; omega)]
    omega
  have hcap : balance.amount.toNat * p.seconds ≤ 1000000000000000 * 2 ^ 32 :=
    Nat.mul_le_mul hb p.seconds_le
  have hmul : balance.amount.toNat * (now.toNat - p.coinSecondsEarnedLastUpdate.toNat) ≤
      1000000000000000 * 2 ^ 32 := Nat.mul_le_mul hb (by omega)
  unfold computeCoinSecondsEarned
  rw [hdelta, toUInt128_of_nonneg h₀ h, Nat.mod_eq_of_lt (a := balance.amount.toNat * _) (by omega),
    Nat.mod_eq_of_lt (by omega), Nat.mod_eq_of_lt (by omega)]

theorem computeCoinSecondsEarned_le (h₀ : 0 ≤ balance.amount) (h : balance.amount ≤ maxShareSupply)
    (hearned : p.coinSecondsEarned ≤ balance.amount.toNat * p.seconds)
    (hlast : p.coinSecondsEarnedLastUpdate ≤ now) :
    p.computeCoinSecondsEarned balance now ≤ balance.amount.toNat * p.seconds := by
  rw [computeCoinSecondsEarned_eq h₀ h hearned hlast]
  exact min_le_right _ _

theorem getAllowedWithdraw_eq (h₀ : 0 ≤ balance.amount) (h : balance.amount ≤ maxShareSupply)
    (hearned : p.coinSecondsEarned ≤ balance.amount.toNat * p.seconds)
    (hlast : p.coinSecondsEarnedLastUpdate ≤ now) :
    p.getAllowedWithdraw balance now = ⟨if now ≤ p.startClaim then 0 else
      ((p.computeCoinSecondsEarned balance now / p.seconds : ℕ) : ℤ), balance.assetId⟩ := by
  have hle : p.computeCoinSecondsEarned balance now / p.seconds ≤ balance.amount.toNat :=
    Nat.div_le_of_le_mul (by
      rw [Nat.mul_comm]
      exact computeCoinSecondsEarned_le h₀ h hearned hlast)
  unfold getAllowedWithdraw
  split_ifs
  · rfl
  · rw [toInt64_of_le (by omega)]

/-- The cap of an updated policy does not matter right after the update. -/
theorem computeCoinSecondsEarned_updated (p : CddVestingPolicy) (balance : Asset) (now : UInt32)
    {earned : ℕ} (h₀ : 0 ≤ balance.amount) (h : balance.amount ≤ maxShareSupply) (hearned : earned ≤ balance.amount.toNat * p.seconds) :
    ({ p with coinSecondsEarned := earned, coinSecondsEarnedLastUpdate := now } :
      CddVestingPolicy).computeCoinSecondsEarned balance now = earned := by
  rw [computeCoinSecondsEarned_eq h₀ h hearned (UInt32.le_refl now)]
  dsimp only
  rw [Nat.sub_self, Nat.mul_zero, Nat.add_zero]
  exact min_eq_left hearned

end CddVestingPolicy

/-! ### The invariant -/

/-- What a policy relies on at a time, for an amount in the balance. -/
def VestingPolicy.Sound (t : UInt32) (amount : ℤ) : VestingPolicy → Prop
  | .linear p => 0 ≤ p.beginBalance ∧ p.beginBalance ≤ maxShareSupply ∧
      p.beginBalance - p.released t ≤ amount ∧ amount ≤ p.beginBalance
  | .cdd p => p.coinSecondsEarnedLastUpdate ≤ t ∧ p.coinSecondsEarned ≤ amount.toNat * p.seconds
  | .instant => True

namespace VestingBalance

variable {v v' : VestingBalance} {t now : UInt32} {amount : Asset}

/-- The coin-seconds that have been earned, of a coin-days policy. -/
def coinSecondsEarned (v : VestingBalance) : ℕ :=
  match v.policy with
  | .cdd p => p.coinSecondsEarned
  | _ => 0

/-- `std::max(vesting_seconds, 1u)`, of a coin-days policy. -/
def seconds (v : VestingBalance) : ℕ :=
  match v.policy with
  | .cdd p => p.seconds
  | _ => 1

/-- What `get_allowed_withdraw` returns, and nothing if an assertion fails. -/
def allowed (v : VestingBalance) (now : UInt32) : ℤ :=
  match v.getAllowedWithdraw now with
  | .ok a => a.amount
  | .error _ => 0

theorem allowed_of_eq {a : Asset} (h : v.getAllowedWithdraw now = .ok a) : v.allowed now = a.amount := by
  rw [allowed, h]

/-- The invariant of a vesting balance. -/
structure Sound (t : UInt32) (v : VestingBalance) : Prop where
  nonneg : 0 ≤ v.balance.amount
  le_max : v.balance.amount ≤ maxShareSupply
  policy : v.policy.Sound t v.balance.amount

theorem Sound.mono (h : Sound t v) (hle : t ≤ now) : Sound now v := by
  obtain ⟨h₀, hmax, hpolicy⟩ := h
  refine ⟨h₀, hmax, ?_⟩
  cases hp : v.policy with
  | linear p =>
    rw [hp] at hpolicy
    obtain ⟨hb₀, hb, hreleased, hbegin⟩ := hpolicy
    have hmono := LinearVestingPolicy.released_mono hb₀ hb hle
    exact ⟨hb₀, hb, by omega, hbegin⟩
  | cdd p =>
    rw [hp] at hpolicy
    exact ⟨UInt32.le_trans hpolicy.1 hle, hpolicy.2⟩
  | instant => trivial

/-- **The assertions of `get_allowed_withdraw` hold.** -/
theorem Sound.getAllowedWithdraw (h : Sound now v) :
    v.getAllowedWithdraw now = .ok ⟨v.allowed now, v.balance.assetId⟩ := by
  obtain ⟨policy, balance⟩ := v
  obtain ⟨h₀, hmax, hpolicy⟩ := h
  suffices hex : ∃ amount, VestingBalance.getAllowedWithdraw ⟨policy, balance⟩ now =
      .ok ⟨amount, balance.assetId⟩ by
    obtain ⟨amount, hok⟩ := hex
    rw [hok, allowed_of_eq hok]
  cases policy with
  | linear p =>
    obtain ⟨hb₀, hb, hreleased, hbegin⟩ := hpolicy
    exact ⟨_, LinearVestingPolicy.getAllowedWithdraw_eq hb₀ hb hbegin hreleased⟩
  | cdd p =>
    obtain ⟨hlast, hearned⟩ := hpolicy
    exact ⟨_, congrArg Except.ok (CddVestingPolicy.getAllowedWithdraw_eq h₀ hmax hearned hlast)⟩
  | instant => exact ⟨balance.amount, rfl⟩

/-- The allowed amount of a linear policy. -/
theorem Sound.allowed_linear {p : LinearVestingPolicy} {balance : Asset} (h : Sound now ⟨.linear p, balance⟩) :
    allowed ⟨.linear p, balance⟩ now = p.allowed balance.amount now := by
  obtain ⟨-, -, hb₀, hb, hreleased, hbegin⟩ := h
  have hok : VestingBalance.getAllowedWithdraw ⟨.linear p, balance⟩ now =
      .ok ⟨p.allowed balance.amount now, balance.assetId⟩ :=
    LinearVestingPolicy.getAllowedWithdraw_eq hb₀ hb hbegin hreleased
  exact allowed_of_eq hok

/-- The allowed amount of a coin-days policy. -/
theorem Sound.allowed_cdd {p : CddVestingPolicy} {balance : Asset} (h : Sound now ⟨.cdd p, balance⟩) :
    allowed ⟨.cdd p, balance⟩ now = if now ≤ p.startClaim then 0 else
      ((p.computeCoinSecondsEarned balance now / p.seconds : ℕ) : ℤ) := by
  obtain ⟨h₀, hmax, hlast, hearned⟩ := h
  exact congrArg Asset.amount (CddVestingPolicy.getAllowedWithdraw_eq h₀ hmax hearned hlast)

/-- **The allowed amount lies between zero and the balance.** -/
theorem Sound.allowed (h : Sound now v) : 0 ≤ v.allowed now ∧ v.allowed now ≤ v.balance.amount := by
  obtain ⟨policy, balance⟩ := v
  cases policy with
  | linear p =>
    rw [h.allowed_linear, LinearVestingPolicy.allowed]
    obtain ⟨h₀, -, hb₀, hb, hreleased, -⟩ := h
    have hbounds := LinearVestingPolicy.released_bounds hb₀ hb now
    dsimp only at h₀ hreleased ⊢
    split_ifs
    · omega
    · exact ⟨le_rfl, h₀⟩
  | cdd p =>
    rw [h.allowed_cdd]
    obtain ⟨h₀, hmax, hlast, hearned⟩ := h
    have hle : p.computeCoinSecondsEarned balance now / p.seconds ≤ balance.amount.toNat :=
      Nat.div_le_of_le_mul (by
        rw [Nat.mul_comm]
        exact CddVestingPolicy.computeCoinSecondsEarned_le h₀ hmax hearned hlast)
    dsimp only at h₀ ⊢
    split_ifs
    · exact ⟨le_rfl, h₀⟩
    · generalize p.computeCoinSecondsEarned balance now / p.seconds = q at hle ⊢
      omega
  | instant => exact ⟨h.nonneg, le_rfl⟩

theorem policyAllows_of_same (h : Sound now v) (hasset : amount.assetId = v.balance.assetId) :
    v.policyAllows now amount = .ok (decide (amount.amount ≤ v.allowed now)) := by
  have hle : amount.le ⟨v.allowed now, v.balance.assetId⟩ = .ok (decide (amount.amount ≤ v.allowed now)) :=
    Asset.le_of_same hasset
  unfold policyAllows
  rw [h.getAllowedWithdraw, Except.ok_bind, if_pos hasset, hle]
  cases v.policy <;> rfl

/-- A withdrawal is admitted exactly when it is of the asset and not above the allowed amount. -/
theorem Sound.isWithdrawAllowed_iff (h : Sound now v) :
    v.isWithdrawAllowed now amount = .ok true ↔
      amount.assetId = v.balance.assetId ∧ amount.amount ≤ v.allowed now := by
  by_cases hasset : amount.assetId = v.balance.assetId
  · have hle := h.allowed.2
    unfold isWithdrawAllowed
    rw [policyAllows_of_same h hasset, Asset.le_of_same hasset]
    by_cases hallowed : amount.amount ≤ v.allowed now
    · have hbalance : amount.amount ≤ v.balance.amount := by omega
      simp [hasset, hallowed, hbalance, bind, Except.bind, pure, Except.pure]
    · simp [hallowed, bind, Except.bind, pure, Except.pure]
  · constructor
    · intro hok
      unfold isWithdrawAllowed at hok
      rw [Except.bind_eq_ok] at hok
      obtain ⟨r, -, hok⟩ := hok
      rw [Except.bind_eq_ok] at hok
      obtain ⟨q, hq, -⟩ := hok
      exact absurd hq (Asset.le_of_ne hasset)
    · exact fun hh ↦ absurd hh.1 hasset

/-! ### Withdrawals and deposits -/

theorem withdraw_eq {policy : VestingPolicy} (hasset : amount.assetId = v.balance.assetId)
    (hle : amount.amount ≤ v.balance.amount) (hpolicy : v.onWithdraw now amount = .ok policy) :
    v.withdraw now amount = .ok ⟨policy, ⟨v.balance.amount - amount.amount, v.balance.assetId⟩⟩ := by
  have hsub : v.balance.sub amount = .ok ⟨v.balance.amount - amount.amount, v.balance.assetId⟩ := by
    unfold Asset.sub Asset.sameAsset
    rw [fcAssert_of_true hasset.symm]
    rfl
  unfold withdraw
  rw [Asset.le_of_same hasset, hpolicy, hsub, decide_eq_true hle]
  rfl

/-- The withdrawal leaves a sound balance with the allowed amount less what was withdrawn. -/
structure Withdrawn (now : UInt32) (amount : Asset) (v v' : VestingBalance) : Prop where
  sound : Sound now v'
  balance : v'.balance = ⟨v.balance.amount - amount.amount, v.balance.assetId⟩
  allowed : v'.allowed now = v.allowed now - amount.amount
  earned : v'.coinSecondsEarned ≤ v.balance.amount.toNat * v.seconds

theorem withdraw_linear {p : LinearVestingPolicy} {balance : Asset} (h : Sound now ⟨.linear p, balance⟩)
    (hpos : 0 < amount.amount) (hle : amount.amount ≤ allowed ⟨.linear p, balance⟩ now) :
    Withdrawn now amount ⟨.linear p, balance⟩
      ⟨.linear p, ⟨balance.amount - amount.amount, balance.assetId⟩⟩ := by
  have hallowed := h.allowed
  rw [h.allowed_linear] at hle hallowed
  obtain ⟨h₀, hmax, hb₀, hb, hreleased, hbegin⟩ := h
  dsimp only [LinearVestingPolicy.allowed] at hle hallowed h₀ hmax hreleased hbegin
  -- a positive amount is only allowed after the cliff
  have hc : p.Claimable now := by
    by_contra hc
    rw [if_neg hc] at hle
    omega
  rw [if_pos hc] at hle hallowed
  have hsound : Sound now ⟨.linear p, ⟨balance.amount - amount.amount, balance.assetId⟩⟩ :=
    ⟨by dsimp only; omega, by dsimp only; omega, hb₀, hb, by dsimp only; omega, by dsimp only; omega⟩
  refine ⟨hsound, rfl, ?_, Nat.zero_le _⟩
  have hbefore : Sound now ⟨.linear p, balance⟩ := ⟨h₀, hmax, hb₀, hb, hreleased, hbegin⟩
  rw [hsound.allowed_linear, hbefore.allowed_linear, LinearVestingPolicy.allowed, LinearVestingPolicy.allowed,
    if_pos hc, if_pos hc]
  ring

theorem withdraw_instant {balance : Asset} (h : Sound now ⟨.instant, balance⟩) (hpos : 0 < amount.amount)
    (hle : amount.amount ≤ allowed ⟨.instant, balance⟩ now) :
    Withdrawn now amount ⟨.instant, balance⟩
      ⟨.instant, ⟨balance.amount - amount.amount, balance.assetId⟩⟩ := by
  obtain ⟨h₀, hmax, -⟩ := h
  have hle : amount.amount ≤ balance.amount := hle
  dsimp only at h₀ hmax
  exact ⟨⟨by dsimp only; omega, by dsimp only; omega, trivial⟩, rfl, rfl, Nat.zero_le _⟩

/-- The coin-seconds that a withdrawal needs have been earned. -/
theorem needed_le_earned {p : CddVestingPolicy} {balance : Asset} (h : Sound now ⟨.cdd p, balance⟩)
    (hpos : 0 < amount.amount)
    (hle : amount.amount ≤ allowed ⟨.cdd p, balance⟩ now) :
    ¬ now ≤ p.startClaim ∧
      amount.amount.toNat * p.seconds ≤ p.computeCoinSecondsEarned balance now := by
  rw [h.allowed_cdd] at hle
  split_ifs at hle with hstart
  · omega
  · refine ⟨hstart, (Nat.le_div_iff_mul_le p.seconds_pos).mp ?_⟩
    generalize p.computeCoinSecondsEarned balance now / p.seconds = q at hle ⊢
    omega

/-- A coin-days policy after a withdrawal. -/
def spent (p : CddVestingPolicy) (balance : Asset) (now : UInt32) (amount : Asset) : CddVestingPolicy :=
  { p with
    coinSecondsEarned := p.computeCoinSecondsEarned balance now - amount.amount.toNat * p.seconds
    coinSecondsEarnedLastUpdate := now }

/-- **The assertion of `on_withdraw` holds**, and the policy has spent what was needed. -/
theorem spend_eq {p : CddVestingPolicy} {balance : Asset} (h : Sound now ⟨.cdd p, balance⟩)
    (hpos : 0 < amount.amount)
    (hle : amount.amount ≤ allowed ⟨.cdd p, balance⟩ now) :
    (p.updateCoinSecondsEarned balance now).spend amount = .ok (spent p balance now amount) := by
  have hneeded := (needed_le_earned h hpos hle).2
  have hmax : amount.amount ≤ maxShareSupply := (hle.trans h.allowed.2).trans h.le_max
  have hbound : amount.amount.toNat * p.seconds < 2 ^ 128 := by
    rw [maxShareSupply] at hmax
    calc amount.amount.toNat * p.seconds ≤ 1000000000000000 * 2 ^ 32 :=
          Nat.mul_le_mul (by omega) p.seconds_le
      _ < 2 ^ 128 := by norm_num
  have hneed : toUInt128 amount.amount * (p.updateCoinSecondsEarned balance now).seconds % 2 ^ 128 =
      amount.amount.toNat * p.seconds := by
    rw [toUInt128_of_nonneg hpos.le hmax]
    exact Nat.mod_eq_of_lt hbound
  unfold CddVestingPolicy.spend
  rw [hneed]
  exact if_pos hneeded

theorem withdraw_cdd {p : CddVestingPolicy} {balance : Asset} (h : Sound now ⟨.cdd p, balance⟩)
    (hpos : 0 < amount.amount) (hle : amount.amount ≤ allowed ⟨.cdd p, balance⟩ now) :
    Withdrawn now amount ⟨.cdd p, balance⟩
      ⟨.cdd (spent p balance now amount), ⟨balance.amount - amount.amount, balance.assetId⟩⟩ := by
  obtain ⟨hstart, hneeded⟩ := needed_le_earned h hpos hle
  have hbalance := hle.trans h.allowed.2
  have hbefore := h.allowed_cdd
  obtain ⟨h₀, hmax, hlast, hearned⟩ := h
  dsimp only at hbalance h₀ hmax
  have hcap := CddVestingPolicy.computeCoinSecondsEarned_le h₀ hmax hearned hlast
  have hrest : (spent p balance now amount).coinSecondsEarned ≤
      (balance.amount - amount.amount).toNat * (spent p balance now amount).seconds := by
    have hsub : (balance.amount - amount.amount).toNat = balance.amount.toNat - amount.amount.toNat := by
      omega
    rw [hsub]
    show _ - _ ≤ _ * p.seconds
    rw [Nat.sub_mul]
    exact Nat.sub_le_sub_right hcap _
  have hsound : Sound now
      ⟨.cdd (spent p balance now amount), ⟨balance.amount - amount.amount, balance.assetId⟩⟩ :=
    ⟨by dsimp only; omega, by dsimp only; omega, UInt32.le_refl now, hrest⟩
  refine ⟨hsound, rfl, ?_, (Nat.sub_le _ _).trans hcap⟩
  have hupdated : (spent p balance now amount).computeCoinSecondsEarned
      ⟨balance.amount - amount.amount, balance.assetId⟩ now =
        p.computeCoinSecondsEarned balance now - amount.amount.toNat * p.seconds :=
    CddVestingPolicy.computeCoinSecondsEarned_updated p ⟨balance.amount - amount.amount, balance.assetId⟩ now
      (by dsimp only; omega) (by dsimp only; omega) hrest
  rw [hbefore, hsound.allowed_cdd, if_neg hstart,
    if_neg (show ¬now ≤ (spent p balance now amount).startClaim from hstart), hupdated,
    show (spent p balance now amount).seconds = p.seconds from rfl, Nat.mul_comm, Nat.sub_mul_div]
  have hdiv := (Nat.le_div_iff_mul_le p.seconds_pos).mpr hneeded
  generalize p.computeCoinSecondsEarned balance now / p.seconds = q at hdiv ⊢
  omega

/-- **An admitted withdrawal goes through**, and takes from the allowed amount what it withdraws. -/
theorem Sound.withdraw (h : Sound now v) (hpos : 0 < amount.amount)
    (hadmitted : v.isWithdrawAllowed now amount = .ok true) :
    ∃ v', v.withdraw now amount = .ok v' ∧ Withdrawn now amount v v' := by
  obtain ⟨hasset, hle⟩ := h.isWithdrawAllowed_iff.mp hadmitted
  have hbalance := hle.trans h.allowed.2
  obtain ⟨policy, balance⟩ := v
  cases policy with
  | linear p => exact ⟨_, withdraw_eq hasset hbalance rfl, withdraw_linear h hpos hle⟩
  | cdd p =>
    refine ⟨_, withdraw_eq hasset hbalance ?_, withdraw_cdd h hpos hle⟩
    dsimp only [onWithdraw]
    rw [spend_eq h hpos hle]
  | instant => exact ⟨_, withdraw_eq hasset hbalance rfl, withdraw_instant h hpos hle⟩

/-- A deposit does not raise a linear balance above the one it began with. -/
def WithinBegin (v : VestingBalance) (amount : Asset) : Prop :=
  ∀ p, v.policy = .linear p → v.balance.amount + amount.amount ≤ p.beginBalance

/-- An admitted deposit goes through. -/
theorem Sound.deposit (h : Sound now v) (hpos : 0 < amount.amount)
    (hadmitted : v.isDepositAllowed amount = true) :
    ∃ v', v.deposit now amount = .ok v' ∧ (v.WithinBegin amount → Sound now v') ∧
      v'.coinSecondsEarned ≤ v.balance.amount.toNat * v.seconds := by
  obtain ⟨policy, balance⟩ := v
  simp only [isDepositAllowed, sumBelowMaxShares, Bool.and_eq_true, decide_eq_true_eq] at hadmitted
  obtain ⟨hasset, -, hsum⟩ := hadmitted
  have hadd : balance.add amount = .ok ⟨balance.amount + amount.amount, balance.assetId⟩ :=
    Asset.add_eq_ok.mpr ⟨hasset.symm, rfl⟩
  obtain ⟨h₀, hmax, hpolicy⟩ := h
  dsimp only at h₀ hmax
  cases policy with
  | linear p =>
    obtain ⟨hb₀, hb, hreleased, -⟩ := hpolicy
    refine ⟨⟨.linear p, ⟨balance.amount + amount.amount, balance.assetId⟩⟩, ?_,
      fun hbegin ↦ ⟨by dsimp only; omega, by dsimp only; omega, hb₀, hb, ?_, hbegin p rfl⟩, Nat.zero_le _⟩
    · unfold VestingBalance.deposit
      rw [hadd]
      rfl
    · dsimp only at hreleased ⊢
      omega
  | cdd p =>
    obtain ⟨hlast, hearned⟩ := hpolicy
    have hcap := CddVestingPolicy.computeCoinSecondsEarned_le h₀ hmax hearned hlast
    refine ⟨⟨.cdd (p.updateCoinSecondsEarned balance now),
      ⟨balance.amount + amount.amount, balance.assetId⟩⟩, ?_,
      fun _ ↦ ⟨by dsimp only; omega, by dsimp only; omega, UInt32.le_refl now, ?_⟩, hcap⟩
    · unfold VestingBalance.deposit
      rw [hadd]
      rfl
    · refine hcap.trans (Nat.mul_le_mul_right _ ?_)
      dsimp only
      omega
  | instant =>
    refine ⟨⟨.instant, ⟨balance.amount + amount.amount, balance.assetId⟩⟩, ?_,
      fun _ ↦ ⟨by dsimp only; omega, by dsimp only; omega, trivial⟩, Nat.zero_le _⟩
    unfold VestingBalance.deposit
    rw [hadd]
    rfl

/-! ### Runs -/

/-- A fresh balance at its start: a linear policy begins with it, and a coin-days policy has earned nothing
yet. -/
structure Fresh (t : UInt32) (v : VestingBalance) : Prop where
  nonneg : 0 ≤ v.balance.amount
  le_max : v.balance.amount ≤ maxShareSupply
  linear : ∀ p, v.policy = .linear p → p.beginBalance = v.balance.amount
  cdd : ∀ p, v.policy = .cdd p → p.coinSecondsEarned = 0 ∧ p.coinSecondsEarnedLastUpdate ≤ t

theorem Fresh.sound (h : Fresh t v) : Sound t v := by
  refine ⟨h.nonneg, h.le_max, ?_⟩
  cases hp : v.policy with
  | linear p =>
    have heq := h.linear p hp
    have h₀ := h.nonneg
    have hmax := h.le_max
    have hbounds := LinearVestingPolicy.released_bounds (p := p) (by omega) (by omega) t
    exact ⟨by omega, by omega, by omega, by omega⟩
  | cdd p =>
    obtain ⟨hzero, hlast⟩ := h.cdd p hp
    exact ⟨hlast, by rw [hzero]; exact Nat.zero_le _⟩
  | instant => trivial

/-- The runs of admitted deposits and withdrawals of positive amounts, at times that do not decrease, with a
condition on the deposits. The time is that of the last step. -/
inductive Run (ok : VestingBalance → Asset → Prop) (t₀ : UInt32) (v₀ : VestingBalance) :
    UInt32 → VestingBalance → Prop where
  | start : Run ok t₀ v₀ t₀ v₀
  | deposit {t now : UInt32} {v v' : VestingBalance} {amount : Asset} : Run ok t₀ v₀ t v → t ≤ now →
      0 < amount.amount → v.isDepositAllowed amount = true → ok v amount → v.deposit now amount = .ok v' →
      Run ok t₀ v₀ now v'
  | withdraw {t now : UInt32} {v v' : VestingBalance} {amount : Asset} : Run ok t₀ v₀ t v → t ≤ now →
      0 < amount.amount → v.isWithdrawAllowed now amount = .ok true → v.withdraw now amount = .ok v' →
      Run ok t₀ v₀ now v'

theorem Run.sound {t₀ : UInt32} {v₀ : VestingBalance} (h : Run WithinBegin t₀ v₀ t v) (h₀ : Fresh t₀ v₀) :
    Sound t v := by
  induction h with
  | start => exact h₀.sound
  | deposit _ hle hpos hadmitted hbegin hok ih =>
    obtain ⟨v', hv', hsound, -⟩ := (ih.mono hle).deposit hpos hadmitted
    obtain rfl := Except.ok.inj (hok.symm.trans hv')
    exact hsound hbegin
  | withdraw _ hle hpos hadmitted hok ih =>
    obtain ⟨v', hv', hw⟩ := (ih.mono hle).withdraw hpos hadmitted
    obtain rfl := Except.ok.inj (hok.symm.trans hv')
    exact hw.sound

/-- **A vesting balance does not underflow** at a time: no assertion fails, the allowed amount lies between
zero and the balance, every positive amount up to it may be withdrawn, and an admitted withdrawal leaves a
balance that is not negative and takes from the allowed amount exactly what was withdrawn. After a deposit or a
withdrawal the coin-seconds are at most the balance before it times the vesting period. -/
def NeverUnderflows (now : UInt32) (v : VestingBalance) : Prop :=
  ∃ allowed, v.getAllowedWithdraw now = .ok allowed ∧ 0 ≤ allowed.amount ∧
    allowed.amount ≤ v.balance.amount ∧
    (∀ p, v.policy = .cdd p → p.coinSecondsEarnedLastUpdate ≤ now) ∧
    (∀ amount, amount.assetId = v.balance.assetId → 0 < amount.amount → amount.amount ≤ allowed.amount →
      v.isWithdrawAllowed now amount = .ok true) ∧
    (∀ amount, 0 < amount.amount → v.isWithdrawAllowed now amount = .ok true →
      ∃ v' allowed', v.withdraw now amount = .ok v' ∧ 0 ≤ v'.balance.amount ∧
        v'.balance.amount = v.balance.amount - amount.amount ∧ v'.getAllowedWithdraw now = .ok allowed' ∧
        allowed'.amount = allowed.amount - amount.amount ∧
        v'.coinSecondsEarned ≤ v.balance.amount.toNat * v.seconds) ∧
    (∀ amount, 0 < amount.amount → v.isDepositAllowed amount = true →
      ∃ v', v.deposit now amount = .ok v' ∧ v'.coinSecondsEarned ≤ v.balance.amount.toNat * v.seconds)

/-- **Vesting balances do not underflow** in any run of admitted deposits and withdrawals, at any later time, if
no deposit raises a linear balance above the one it began with. -/
theorem vesting_sound (t₀ t now : UInt32) (v₀ v : VestingBalance) (h₀ : Fresh t₀ v₀)
    (h : Run WithinBegin t₀ v₀ t v) (hle : t ≤ now) : v.NeverUnderflows now := by
  have hsound := (h.sound h₀).mono hle
  refine ⟨_, hsound.getAllowedWithdraw, hsound.allowed.1, hsound.allowed.2, ?_, ?_, ?_, ?_⟩
  · intro p hp
    have hpolicy := hsound.policy
    rw [hp] at hpolicy
    exact hpolicy.1
  · intro amount hasset _ hamount
    exact hsound.isWithdrawAllowed_iff.mpr ⟨hasset, hamount⟩
  · intro amount hpos hadmitted
    obtain ⟨v', hv', hw⟩ := hsound.withdraw hpos hadmitted
    exact ⟨v', _, hv', hw.sound.nonneg, by rw [hw.balance], hw.sound.getAllowedWithdraw, hw.allowed, hw.earned⟩
  · intro amount hpos hadmitted
    obtain ⟨v', hv', -, hearned⟩ := hsound.deposit hpos hadmitted
    exact ⟨v', hv', hearned⟩

/-- A linear balance of a hundred coins that vest in a hundred seconds. -/
def linear (amount : ℤ) : VestingBalance := ⟨.linear ⟨1000, 0, 100, 100⟩, ⟨amount, 0⟩⟩

theorem linear_fresh : Fresh 1000 (linear 100) :=
  ⟨by decide, by decide, fun _ h ↦ by cases h; rfl, fun _ h ↦ by cases h⟩

/-- Forty of the fifty coins that have vested are withdrawn and ten of them put back. -/
theorem vesting_sound_linear : (linear 70).NeverUnderflows 1060 := by
  refine vesting_sound 1000 1055 1060 (linear 100) (linear 70) linear_fresh ?_ (by decide)
  have hwithdrawn : Run WithinBegin 1000 (linear 100) 1050 (linear 60) :=
    @Run.withdraw _ _ _ _ _ _ _ ⟨40, 0⟩ .start (by decide) (by decide) rfl rfl
  refine @Run.deposit _ _ _ _ _ _ _ ⟨10, 0⟩ hwithdrawn (by decide) (by decide) (by decide) ?_ rfl
  intro p hp
  cases hp
  decide

/-- **An assertion fails**: a deposit of 50 into a linear balance that began with 100 is admitted, and then
`withdrawn_already` is negative. -/
theorem vesting_unsound :
    ¬ ∀ (t₀ t now : UInt32) (v₀ v : VestingBalance), Fresh t₀ v₀ → Run (fun _ _ ↦ True) t₀ v₀ t v → t ≤ now →
      v.NeverUnderflows now := by
  intro h
  have hrun : Run (fun _ _ ↦ True) 1000 (linear 100) 1010 (linear 150) :=
    @Run.deposit _ _ _ _ _ _ _ ⟨50, 0⟩ .start (by decide) (by decide) (by decide) trivial rfl
  obtain ⟨allowed, hok, -⟩ := h 1000 1010 1020 _ _ linear_fresh hrun (by decide)
  cases hok

end VestingBalance

end Playchain
