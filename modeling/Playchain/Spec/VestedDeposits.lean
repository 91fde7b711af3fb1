import Playchain.Graphene.FeeDistribution
import Playchain.Spec.Vesting

/-!
# Vested deposits

A vested deposit is to be withdrawable at once. Its coin-seconds are the product of the amount and the period, and the
product is taken in signed 64 bits: it wraps around from `2 ^ 63` on. Then less is withdrawable than was deposited, or all
of the balance is, if the sum becomes negative; the deposit is exact by chance if everything was withdrawable before
(`CddVestingPolicy.VestsAtOnce`). A new balance with the period zero has no coin-seconds at all.
-/

namespace Playchain

/-! ### Coin-seconds -/

theorem toUInt128_of_neg {x : ℤ} (h : x < 0) (hlow : -2 ^ 63 ≤ x) : (toUInt128 x : ℤ) = 2 ^ 128 + x := by
  have hmod : x.emod (2 ^ 128) = 2 ^ 128 + x := by
    rw [← Int.emod_eq_of_lt (a := 2 ^ 128 + x) (b := 2 ^ 128) (by omega) (by omega), Int.add_emod_left]
    rfl
  unfold toUInt128
  rw [hmod]
  omega

/-- What a wrapped product adds to coin-seconds. -/
theorem add_wrapped {earned : ℕ} {x : ℤ} (hearned : earned < 2 ^ 127) (hlow : -2 ^ 63 ≤ x) (hhigh : x < 2 ^ 63) :
    (((earned + toUInt128 x) % 2 ^ 128 : ℕ) : ℤ) =
      if (earned : ℤ) + x < 0 then 2 ^ 128 + (earned + x) else earned + x := by
  by_cases hneg : x < 0
  · have hx := toUInt128_of_neg hneg hlow
    generalize toUInt128 x = y at hx
    split_ifs
    · rw [Nat.mod_eq_of_lt (by omega)]
      push_cast
      omega
    · rw [Nat.mod_eq_sub_mod (by omega), Nat.mod_eq_of_lt (by omega)]
      omega
  · have hx : toUInt128 x = x.toNat := by
      unfold toUInt128
      rw [show x.emod (2 ^ 128) = x from Int.emod_eq_of_lt (by omega) (by omega)]
    rw [hx, if_neg (by omega), Nat.mod_eq_of_lt (by omega)]
    push_cast
    omega

/-- A product that does not fit loses at least `2 ^ 64`. -/
theorem bmod_le_sub {x : ℤ} (h : 2 ^ 63 ≤ x) : x.bmod (2 ^ 64) ≤ x - 2 ^ 64 := by
  have hlt := Int.bmod_lt (x := x) (m := 2 ^ 64) (by norm_num)
  have hsplit := Int.bmod_add_bdiv x (2 ^ 64)
  generalize x.bmod (2 ^ 64) = y at *
  generalize x.bdiv (2 ^ 64) = q at *
  push_cast at hlt hsplit
  omega

theorem bmod_bounds (x : ℤ) : -2 ^ 63 ≤ x.bmod (2 ^ 64) ∧ x.bmod (2 ^ 64) < 2 ^ 63 := by
  have hlt := Int.bmod_lt (x := x) (m := 2 ^ 64) (by norm_num)
  have hle := Int.le_bmod (x := x) (m := 2 ^ 64) (by norm_num)
  generalize x.bmod (2 ^ 64) = y at *
  push_cast at hlt hle
  omega

namespace CddVestingPolicy

/-- **When a vested deposit is withdrawable at once**: its coin-seconds fit, or everything is withdrawable and the sum of
the coin-seconds becomes negative. -/
def VestsAtOnce (seconds : ℕ) (balance allowed amount : ℤ) : Prop :=
  amount * seconds < 2 ^ 63 ∨ allowed = balance ∧ balance * seconds + (amount * seconds).bmod (2 ^ 64) < 0

/-- What can be withdrawn after a vested deposit, in terms of the coin-seconds: `n` are those after the deposit, of which
`x` are added. -/
theorem div_min_eq_iff {seconds balance amount earned n : ℕ} {x : ℤ} (hseconds : 0 < seconds)
    (hsmall : seconds ≤ 2 ^ 32) (hsum : balance + amount ≤ 1000000000000000) (hearned : earned ≤ balance * seconds)
    (hlow : -2 ^ 63 ≤ x) (hfits : amount * seconds < 2 ^ 63 → x = (amount * seconds : ℕ))
    (hlost : 2 ^ 63 ≤ amount * seconds → x ≤ (amount * seconds : ℕ) - 2 ^ 64)
    (hn : (n : ℤ) = if (earned : ℤ) + x < 0 then 2 ^ 128 + (earned + x) else earned + x) :
    min n ((balance + amount) * seconds) / seconds = earned / seconds + amount ↔
      amount * seconds < 2 ^ 63 ∨ earned = balance * seconds ∧ ((balance * seconds : ℕ) : ℤ) + x < 0 := by
  have hbound : (balance + amount) * seconds ≤ 1000000000000000 * 2 ^ 32 := Nat.mul_le_mul hsum hsmall
  have hall : (balance + amount) * seconds / seconds = balance + amount := Nat.mul_div_cancel _ hseconds
  have hexact : (earned + amount * seconds) / seconds = earned / seconds + amount := Nat.add_mul_div_right _ _ hseconds
  have hrest := Nat.lt_div_mul_add (a := earned) hseconds
  have hfull : earned / seconds = balance ↔ earned = balance * seconds := by
    constructor
    · intro heq
      have hle := Nat.div_mul_le_self earned seconds
      rw [heq] at hle
      omega
    · rintro rfl
      exact Nat.mul_div_cancel _ hseconds
  rw [Nat.add_mul] at hbound hall ⊢
  by_cases hfit : amount * seconds < 2 ^ 63
  -- the product fits, and so does its sum with what has been earned
  · have hx := hfits hfit
    rw [if_neg (by omega)] at hn
    rw [min_eq_left (by omega), show n = earned + amount * seconds by omega]
    exact iff_of_true hexact (.inl hfit)
  · have hx := hlost (not_lt.mp hfit)
    by_cases hneg : (earned : ℤ) + x < 0
    -- the sum is negative, and the cap is withdrawable
    · rw [if_pos hneg] at hn
      rw [min_eq_right (by omega), hall, Nat.add_right_cancel_iff, eq_comm, hfull]
      refine ⟨fun heq ↦ .inr ⟨heq, heq ▸ hneg⟩, fun h ↦ ?_⟩
      rcases h with h | h
      · exact absurd h hfit
      · exact h.1
    · rw [if_neg hneg] at hn
      refine iff_of_false (Nat.ne_of_lt ?_) ?_
      · refine Nat.lt_of_le_of_lt (Nat.div_le_div_right (min_le_left _ _)) ?_
        rw [Nat.div_lt_iff_lt_mul hseconds, Nat.add_mul]
        omega
      · rintro (h | ⟨heq, h⟩)
        · exact hfit h
        · exact hneg (heq ▸ h)

variable {p : CddVestingPolicy} {balance : Asset} {now : UInt32} {amount : ℤ}

/-- No more than the balance is ever earned. -/
theorem computeCoinSecondsEarned_le_cap (h₀ : 0 ≤ balance.amount) (h : balance.amount ≤ maxShareSupply) :
    p.computeCoinSecondsEarned balance now ≤ balance.amount.toNat * p.seconds := by
  unfold computeCoinSecondsEarned
  rw [toUInt128_of_nonneg h₀ h]
  have hcap := Nat.mod_le (balance.amount.toNat * p.seconds) (2 ^ 128)
  exact le_trans (Nat.min_le_right _ _) hcap

theorem amount_getAllowedWithdraw (h₀ : 0 ≤ balance.amount) (h : balance.amount ≤ maxShareSupply)
    (hstart : p.startClaim < now) :
    (p.getAllowedWithdraw balance now).amount = ((p.computeCoinSecondsEarned balance now / p.seconds : ℕ) : ℤ) := by
  have hle : p.computeCoinSecondsEarned balance now / p.seconds ≤ balance.amount.toNat :=
    Nat.div_le_of_le_mul (Nat.mul_comm _ _ ▸ computeCoinSecondsEarned_le_cap h₀ h)
  unfold getAllowedWithdraw
  rw [if_neg (UInt32.not_le.mpr hstart), toInt64_of_le (by omega)]

/-- Right after an update only the cap matters. -/
theorem computeCoinSecondsEarned_of_now (h₀ : 0 ≤ balance.amount) (h : balance.amount ≤ maxShareSupply)
    (hnow : p.coinSecondsEarnedLastUpdate = now) (hearned : p.coinSecondsEarned < 2 ^ 128) :
    p.computeCoinSecondsEarned balance now = min p.coinSecondsEarned (balance.amount.toNat * p.seconds) := by
  have hb : balance.amount.toNat ≤ 1000000000000000 := by
    rw [maxShareSupply] at h
    omega
  have hcap : balance.amount.toNat * p.seconds ≤ 1000000000000000 * 2 ^ 32 := Nat.mul_le_mul hb p.seconds_le
  have hdelta : toUInt128 ((now.toNat : ℤ) - now.toNat) = 0 := by
    rw [sub_self]
    rfl
  unfold computeCoinSecondsEarned
  rw [hnow, hdelta, toUInt128_of_nonneg h₀ h, Nat.mul_zero, Nat.zero_mod, Nat.add_zero, Nat.mod_eq_of_lt hearned,
    Nat.mod_eq_of_lt (by omega)]

/-- What is withdrawable from coin-seconds `earned` and the product of an amount and the period. -/
theorem div_min_wrapped_iff {seconds earned : ℕ} (hseconds : 0 < seconds) (hsmall : seconds ≤ 2 ^ 32) {b : ℤ}
    (h₀ : 0 ≤ b) (hamount : 0 ≤ amount) (hsum : b + amount ≤ maxShareSupply)
    (hearned : earned ≤ b.toNat * seconds) :
    ((min ((earned + toUInt128 ((amount * seconds).bmod (2 ^ 64))) % 2 ^ 128) ((b + amount).toNat * seconds) /
        seconds : ℕ) : ℤ) = ((earned / seconds : ℕ) : ℤ) + amount ↔
      VestsAtOnce seconds b ((earned / seconds : ℕ) : ℤ) amount := by
  lift amount to ℕ using hamount
  lift b to ℕ using h₀
  rw [maxShareSupply] at hsum
  rw [Int.toNat_natCast] at hearned
  have hbound : (b + amount) * seconds ≤ 1000000000000000 * 2 ^ 32 := Nat.mul_le_mul (by omega) hsmall
  have hlt : earned < 2 ^ 127 := by
    rw [Nat.add_mul] at hbound
    omega
  have hbounds := bmod_bounds ((amount * seconds : ℕ) : ℤ)
  have hfull : ((earned / seconds : ℕ) : ℤ) = (b : ℤ) ↔ earned = b * seconds := by
    rw [Nat.cast_inj]
    constructor
    · intro heq
      have hle := Nat.div_mul_le_self earned seconds
      rw [heq] at hle
      omega
    · rintro rfl
      exact Nat.mul_div_cancel _ hseconds
  have hcore := div_min_eq_iff hseconds hsmall (by omega) hearned hbounds.1
    (fun hfit ↦ Int.bmod_eq_of_le (by push_cast; omega) (by push_cast; omega))
    (fun hlarge ↦ bmod_le_sub (by exact_mod_cast hlarge)) (add_wrapped hlt hbounds.1 hbounds.2)
  unfold VestsAtOnce
  rw [hfull, ← Nat.cast_add, ← Nat.cast_add, Nat.cast_inj, Int.toNat_natCast]
  rw [← Nat.cast_mul, ← Nat.cast_mul, hcore]
  norm_cast

/-- **A vested deposit is withdrawable at once exactly if its coin-seconds fit**, or by chance. -/
theorem amount_allowed_onDepositVested (h₀ : 0 ≤ balance.amount) (hamount : 0 ≤ amount)
    (hsum : balance.amount + amount ≤ maxShareSupply) (hstart : p.startClaim < now) (asset : AssetId) :
    ((p.onDepositVested balance now ⟨amount, asset⟩).getAllowedWithdraw
        ⟨balance.amount + amount, balance.assetId⟩ now).amount = (p.getAllowedWithdraw balance now).amount + amount ↔
      VestsAtOnce p.seconds balance.amount (p.getAllowedWithdraw balance now).amount amount := by
  have hmax : balance.amount ≤ maxShareSupply := by omega
  have hafter : 0 ≤ (⟨balance.amount + amount, balance.assetId⟩ : Asset).amount := by
    dsimp only
    omega
  have hstart' : (p.onDepositVested balance now ⟨amount, asset⟩).startClaim < now := hstart
  have hnow : (p.onDepositVested balance now ⟨amount, asset⟩).coinSecondsEarnedLastUpdate = now := rfl
  have hearned : (p.onDepositVested balance now ⟨amount, asset⟩).coinSecondsEarned < 2 ^ 128 :=
    Nat.mod_lt _ (by norm_num)
  rw [amount_getAllowedWithdraw h₀ hmax hstart, amount_getAllowedWithdraw hafter hsum hstart',
    computeCoinSecondsEarned_of_now hafter hsum hnow hearned]
  exact div_min_wrapped_iff p.seconds_pos p.seconds_le h₀ hamount hsum (computeCoinSecondsEarned_le_cap h₀ hmax)

end CddVestingPolicy

namespace VestingBalance

open CddVestingPolicy

variable {p : CddVestingPolicy} {balance amount : Asset} {now : UInt32}

/-- A vested deposit that is allowed succeeds. -/
theorem depositVested_cdd (hasset : amount.assetId = balance.assetId) :
    depositVested ⟨.cdd p, balance⟩ now amount =
      .ok ⟨.cdd (p.onDepositVested balance now amount), ⟨balance.amount + amount.amount, balance.assetId⟩⟩ := by
  have hadd : balance.add amount = .ok ⟨balance.amount + amount.amount, balance.assetId⟩ :=
    Asset.add_eq_ok.mpr ⟨hasset.symm, rfl⟩
  unfold depositVested
  rw [hadd]
  rfl

/-- What `is_deposit_vested_allowed` asks for. -/
theorem isDepositVestedAllowed_iff : isDepositVestedAllowed ⟨.cdd p, balance⟩ amount = true ↔
    amount.assetId = balance.assetId ∧ (amount.amount ≤ maxShareSupply ∧ balance.amount ≤ maxShareSupply) ∧
      amount.amount + balance.amount ≤ maxShareSupply := by
  simp only [isDepositVestedAllowed, isDepositAllowed, sumBelowMaxShares, Bool.and_eq_true, decide_eq_true_iff]

/-- A vested deposit increases what can be withdrawn by its amount. -/
def DepositsExactly (v : VestingBalance) (now : UInt32) (amount : Asset) : Prop :=
  ∃ v', v.depositVested now amount = .ok v' ∧
    v'.allowed now = v.allowed now + amount.amount

theorem depositsExactly_iff (hallowed : isDepositVestedAllowed ⟨.cdd p, balance⟩ amount = true)
    (h₀ : 0 ≤ balance.amount) (hamount : 0 ≤ amount.amount) (hstart : p.startClaim < now) :
    DepositsExactly ⟨.cdd p, balance⟩ now amount ↔
      VestsAtOnce p.seconds balance.amount (p.getAllowedWithdraw balance now).amount amount.amount := by
  obtain ⟨hasset, -, hsum⟩ := isDepositVestedAllowed_iff.mp hallowed
  rw [Int.add_comm] at hsum
  unfold DepositsExactly
  rw [depositVested_cdd hasset, ← amount_allowed_onDepositVested h₀ hamount hsum hstart amount.assetId]
  constructor
  · rintro ⟨v', hv', heq⟩
    obtain rfl := Except.ok.inj hv'
    exact heq
  · exact fun heq ↦ ⟨_, rfl, heq⟩

end VestingBalance

/-! ### Lazy vesting -/

namespace FeeState

open CddVestingPolicy

variable {s : FeeState} {ovbid : Option VestingBalanceId} {amount : ℤ} {reqVestingSeconds : UInt32}
  {balanceType : VestingBalanceType} {reqOwner : AccountId}

/-- What an account can withdraw from its vesting balances. -/
def withdrawable (s : FeeState) (owner : AccountId) : ℤ :=
  s.vestingBalances.sum fun vbo ↦
    if vbo.owner = owner then vbo.vesting.allowed s.headBlockTime else 0

/-- The balance that is used once more. -/
def reused? (s : FeeState) (ovbid : Option VestingBalanceId) (reqOwner : AccountId) (reqVestingSeconds : UInt32) :
    Option OwnedVestingBalance :=
  (ovbid.bind s.vestingBalances.find?).filter fun vbo ↦ reusable vbo reqOwner reqVestingSeconds

/-- A vested deposit by `deposit_lazy_vesting` as its callers make it: an amount within the supply, a balance that exists
if one is given, and that takes the deposit if it is used once more. -/
structure LazyDeposit (s : FeeState) (ovbid : Option VestingBalanceId) (amount : ℤ) (reqVestingSeconds : UInt32)
    (reqOwner : AccountId) : Prop where
  time : 0 < s.headBlockTime
  nonneg : 0 ≤ amount
  le_max : amount ≤ maxShareSupply
  found : ∀ vbid, ovbid = some vbid → s.vestingBalances.Has vbid
  admitted : ∀ vbo p, s.reused? ovbid reqOwner reqVestingSeconds = some vbo → vbo.vesting.policy = .cdd p →
    vbo.vesting.isDepositVestedAllowed ⟨amount, coreAsset⟩ = true ∧ 0 ≤ vbo.vesting.balance.amount ∧
      p.startClaim < s.headBlockTime

/-- The deposit makes its amount more withdrawable. -/
def LazyDepositsExactly (s : FeeState) (ovbid : Option VestingBalanceId) (amount : ℤ) (reqVestingSeconds : UInt32)
    (balanceType : VestingBalanceType) (reqOwner : AccountId) : Prop :=
  ∃ r, s.depositLazyVesting ovbid amount reqVestingSeconds balanceType reqOwner false = .ok r ∧
    r.2.withdrawable reqOwner = s.withdrawable reqOwner + amount

/-- **When a lazy deposit is withdrawable at once**: as a deposit in the balance that is used once more; and in a new
balance, if the period is not zero, as a deposit in an empty one. -/
def LazyVestsAtOnce (s : FeeState) (ovbid : Option VestingBalanceId) (amount : ℤ) (reqVestingSeconds : UInt32)
    (reqOwner : AccountId) : Prop :=
  amount = 0 ∨
    (s.reused? ovbid reqOwner reqVestingSeconds).elim
      (reqVestingSeconds ≠ 0 ∧ VestsAtOnce reqVestingSeconds.toNat 0 0 amount)
      fun vbo ↦ VestsAtOnce (max reqVestingSeconds.toNat 1) vbo.vesting.balance.amount
        (vbo.vesting.allowed s.headBlockTime) amount

theorem toUInt128_lt (x : ℤ) : toUInt128 x < 2 ^ 128 := by
  unfold toUInt128
  have h₀ := Int.emod_nonneg x (b := 2 ^ 128) (by norm_num)
  have h := Int.emod_lt_of_pos x (b := 2 ^ 128) (by norm_num)
  change (x % 2 ^ 128).toNat < 2 ^ 128
  omega

/-- What can be withdrawn from a new balance. -/
theorem allowed_newVestingBalance {now : UInt32} (hnow : 0 < now) (h₀ : 0 < amount) (h : amount ≤ maxShareSupply) :
    (newVestingBalance now amount reqVestingSeconds balanceType reqOwner false).vesting.allowed now = amount ↔
      reqVestingSeconds ≠ 0 ∧ VestsAtOnce reqVestingSeconds.toNat 0 0 amount := by
  have hearned := toUInt128_lt ((amount * reqVestingSeconds.toNat).bmod (2 ^ 64))
  change (getAllowedWithdraw ⟨reqVestingSeconds, toUInt128 ((amount * reqVestingSeconds.toNat).bmod (2 ^ 64)), 0, now⟩
    ⟨amount, coreAsset⟩ now).amount = amount ↔ _
  rw [amount_getAllowedWithdraw h₀.le h hnow, computeCoinSecondsEarned_of_now h₀.le h rfl hearned]
  by_cases hzero : reqVestingSeconds = 0
  · subst hzero
    have hnone : toUInt128 ((amount * ((0 : UInt32).toNat : ℤ)).bmod (2 ^ 64)) = 0 := by
      rw [show ((0 : UInt32).toNat : ℤ) = 0 from rfl, Int.mul_zero]
      rfl
    refine iff_of_false ?_ fun hne ↦ hne.1 rfl
    rw [hnone, Nat.zero_min, Nat.zero_div, Nat.cast_zero]
    exact h₀.ne
  · have hpos : 0 < reqVestingSeconds.toNat := Nat.pos_of_ne_zero fun heq ↦ hzero (UInt32.toNat_inj.mp heq)
    have hseconds : seconds ⟨reqVestingSeconds, toUInt128 ((amount * reqVestingSeconds.toNat).bmod (2 ^ 64)), 0, now⟩ =
      reqVestingSeconds.toNat := max_eq_left hpos
    have hiff := div_min_wrapped_iff hpos reqVestingSeconds.toNat_lt.le le_rfl h₀.le (by rwa [Int.zero_add])
      (Nat.zero_le _ : 0 ≤ (0 : ℤ).toNat * reqVestingSeconds.toNat)
    rw [Nat.zero_add, Nat.mod_eq_of_lt hearned, Nat.zero_div, Int.zero_add, Nat.cast_zero, Int.zero_add] at hiff
    rw [hseconds, and_iff_right hzero, ← hiff]

/-- A lazy deposit in a balance that is used once more. -/
theorem depositLazyVesting_reused {vbid : VestingBalanceId} {vbo : OwnedVestingBalance} (hne : amount ≠ 0)
    (hvbo : s.vestingBalances.find? vbid = some vbo) (hreusable : reusable vbo reqOwner reqVestingSeconds = true)
    (requireVesting : Bool) :
    s.depositLazyVesting (some vbid) amount reqVestingSeconds balanceType reqOwner requireVesting =
      (s.depositIn vbid vbo amount requireVesting).map fun s' ↦ (none, s') := by
  unfold depositLazyVesting
  rw [if_neg hne]
  dsimp only
  rw [hvbo]
  dsimp only
  rw [if_pos hreusable]
  cases s.depositIn vbid vbo amount requireVesting <;> rfl

/-- A lazy deposit in a new balance. -/
theorem depositLazyVesting_new (hne : amount ≠ 0) (hfound : ∀ vbid, ovbid = some vbid → s.vestingBalances.Has vbid)
    (hnew : s.reused? ovbid reqOwner reqVestingSeconds = none) (requireVesting : Bool) :
    s.depositLazyVesting ovbid amount reqVestingSeconds balanceType reqOwner requireVesting =
      .ok (some s.vestingBalances.nextId,
        { s with
          vestingBalances := s.vestingBalances.create
            (newVestingBalance s.headBlockTime amount reqVestingSeconds balanceType reqOwner requireVesting) }) := by
  unfold depositLazyVesting
  rw [if_neg hne]
  cases ovbid with
  | none => rfl
  | some vbid =>
    obtain ⟨vbo, hvbo⟩ := hfound vbid rfl
    have hnot : reusable vbo reqOwner reqVestingSeconds ≠ true := by
      intro hreusable
      rw [reused?, Option.bind_some, hvbo, Option.filter_some, if_pos hreusable] at hnew
      cases hnew
    dsimp only
    rw [hvbo]
    dsimp only
    rw [if_neg hnot]
    rfl

/-- A balance that is used once more is there and has a coin-days policy with the period. -/
theorem reused?_eq_some {vbo : OwnedVestingBalance} (h : s.reused? ovbid reqOwner reqVestingSeconds = some vbo) :
    ∃ vbid p, ovbid = some vbid ∧ s.vestingBalances.find? vbid = some vbo ∧
      reusable vbo reqOwner reqVestingSeconds = true ∧ vbo.owner = reqOwner ∧ vbo.vesting.policy = .cdd p ∧
      p.vestingSeconds = reqVestingSeconds := by
  rw [reused?, Option.filter_eq_some_iff] at h
  obtain ⟨hbind, hreusable⟩ := h
  obtain ⟨vbid, rfl, hvbo⟩ := Option.bind_eq_some_iff.mp hbind
  cases hpolicy : vbo.vesting.policy with
  | cdd p =>
    have hboth := hreusable
    rw [reusable, hpolicy] at hboth
    obtain ⟨howner, hseconds⟩ := of_decide_eq_true hboth
    exact ⟨vbid, p, rfl, hvbo, hreusable, howner, rfl, hseconds⟩
  | linear p =>
    rw [reusable, hpolicy] at hreusable
    cases hreusable
  | instant =>
    rw [reusable, hpolicy] at hreusable
    cases hreusable

/-- A lazy deposit in a balance that is used once more is as exact as a vested deposit in it. -/
theorem lazyDepositsExactly_reused {vbo : OwnedVestingBalance} (hne : amount ≠ 0)
    (hreused : s.reused? ovbid reqOwner reqVestingSeconds = some vbo) :
    s.LazyDepositsExactly ovbid amount reqVestingSeconds balanceType reqOwner ↔
      vbo.vesting.DepositsExactly s.headBlockTime ⟨amount, coreAsset⟩ := by
  obtain ⟨vbid, p, rfl, hvbo, hreusable, howner, hpolicy, hseconds⟩ := reused?_eq_some hreused
  unfold LazyDepositsExactly VestingBalance.DepositsExactly
  rw [depositLazyVesting_reused hne hvbo hreusable]
  have hbefore : s.withdrawable reqOwner = vbo.vesting.allowed s.headBlockTime +
      (s.vestingBalances.remove vbid).sum fun vbo ↦
        if vbo.owner = reqOwner then vbo.vesting.allowed s.headBlockTime else 0 := by
    unfold withdrawable
    rw [ObjectIndex.sum_eq_add_remove _ hvbo, if_pos howner]
  have hafter : ∀ v : VestingBalance, withdrawable { s with
      vestingBalances := s.vestingBalances.modify vbid fun vbo ↦ { vbo with vesting := v } } reqOwner =
      v.allowed s.headBlockTime + (s.vestingBalances.remove vbid).sum fun vbo ↦
        if vbo.owner = reqOwner then vbo.vesting.allowed s.headBlockTime else 0 := by
    intro v
    unfold withdrawable
    rw [ObjectIndex.sum_modify _ hvbo, if_pos howner]
  unfold depositIn
  rw [if_neg Bool.false_ne_true]
  cases hdeposit : vbo.vesting.depositVested s.headBlockTime ⟨amount, coreAsset⟩ with
  | error e =>
    refine iff_of_false ?_ ?_
    · rintro ⟨r, hr, -⟩
      cases hr
    · rintro ⟨v, hv, -⟩
      cases hv
  | ok v =>
    constructor
    · rintro ⟨r, hr, heq⟩
      obtain rfl := Except.ok.inj hr
      rw [hafter, hbefore] at heq
      refine ⟨v, rfl, ?_⟩
      dsimp only
      omega
    · rintro ⟨v', hv', heq⟩
      obtain rfl := Except.ok.inj hv'
      refine ⟨_, rfl, ?_⟩
      rw [hafter, hbefore, heq]
      dsimp only
      omega

/-- A lazy deposit in a new balance is exact if all of it is withdrawable. -/
theorem lazyDepositsExactly_new (hne : amount ≠ 0) (hfound : ∀ vbid, ovbid = some vbid → s.vestingBalances.Has vbid)
    (hnew : s.reused? ovbid reqOwner reqVestingSeconds = none) :
    s.LazyDepositsExactly ovbid amount reqVestingSeconds balanceType reqOwner ↔
      (newVestingBalance s.headBlockTime amount reqVestingSeconds balanceType reqOwner
        false).vesting.allowed s.headBlockTime = amount := by
  have hafter : withdrawable { s with
      vestingBalances := s.vestingBalances.create
        (newVestingBalance s.headBlockTime amount reqVestingSeconds balanceType reqOwner false) } reqOwner =
      (newVestingBalance s.headBlockTime amount reqVestingSeconds balanceType reqOwner
        false).vesting.allowed s.headBlockTime + s.withdrawable reqOwner := by
    unfold withdrawable
    rw [ObjectIndex.sum_create]
    exact congrArg (· + _) (if_pos rfl)
  unfold LazyDepositsExactly
  rw [depositLazyVesting_new hne hfound hnew]
  constructor
  · rintro ⟨r, hr, heq⟩
    obtain rfl := Except.ok.inj hr
    rw [hafter] at heq
    omega
  · intro heq
    refine ⟨_, rfl, ?_⟩
    rw [hafter, heq]
    omega

theorem lazyDepositsExactly_iff (h : s.LazyDeposit ovbid amount reqVestingSeconds reqOwner)
    (balanceType : VestingBalanceType) :
    s.LazyDepositsExactly ovbid amount reqVestingSeconds balanceType reqOwner ↔
      s.LazyVestsAtOnce ovbid amount reqVestingSeconds reqOwner := by
  unfold LazyVestsAtOnce
  by_cases hzero : amount = 0
  · refine iff_of_true ⟨(none, s), ?_, ?_⟩ (.inl hzero)
    · unfold depositLazyVesting
      rw [if_pos hzero]
      rfl
    · rw [hzero, Int.add_zero]
  rw [or_iff_right hzero]
  cases hreused : s.reused? ovbid reqOwner reqVestingSeconds with
  | none =>
    rw [lazyDepositsExactly_new hzero h.found hreused, Option.elim_none]
    exact allowed_newVestingBalance h.time (lt_of_le_of_ne h.nonneg (Ne.symm hzero)) h.le_max
  | some vbo =>
    obtain ⟨vbid, p, -, -, -, -, hpolicy, rfl⟩ := reused?_eq_some hreused
    obtain ⟨hallowed, h₀, hstart⟩ := h.admitted vbo p hreused hpolicy
    rw [lazyDepositsExactly_reused hzero hreused, Option.elim_some]
    obtain ⟨owner, type, policy, balance⟩ := vbo
    dsimp only at hpolicy
    subst hpolicy
    exact VestingBalance.depositsExactly_iff hallowed h₀ h.nonneg hstart

end FeeState

/-- **Vested deposits are withdrawable at once exactly if their coin-seconds fit in 64 bits**, or by chance, and a new
balance needs a period: this holds of `deposit_vested` on every coin-days balance, with every amount that is allowed, after
`start_claim`, and of `deposit_lazy_vesting` without vesting. -/
theorem vested_deposits_exact_iff (p : CddVestingPolicy) (balance amount : Asset) (now : UInt32) (s : FeeState)
    (ovbid : Option VestingBalanceId) (deposit : ℤ) (reqVestingSeconds : UInt32) (balanceType : VestingBalanceType)
    (reqOwner : AccountId) :
    (VestingBalance.isDepositVestedAllowed ⟨.cdd p, balance⟩ amount = true → 0 ≤ balance.amount → 0 ≤ amount.amount →
      p.startClaim < now →
      (VestingBalance.DepositsExactly ⟨.cdd p, balance⟩ now amount ↔
        CddVestingPolicy.VestsAtOnce p.seconds balance.amount (p.getAllowedWithdraw balance now).amount amount.amount)) ∧
    (s.LazyDeposit ovbid deposit reqVestingSeconds reqOwner →
      (s.LazyDepositsExactly ovbid deposit reqVestingSeconds balanceType reqOwner ↔
        s.LazyVestsAtOnce ovbid deposit reqVestingSeconds reqOwner)) :=
  ⟨fun hallowed h₀ hamount hstart ↦ VestingBalance.depositsExactly_iff hallowed h₀ hamount hstart,
    fun h ↦ FeeState.lazyDepositsExactly_iff h balanceType⟩

/-- A period of one year, and nothing has been earned. -/
def yearlyPolicy : CddVestingPolicy where
  vestingSeconds := 31536000
  coinSecondsEarned := 0
  startClaim := 0
  coinSecondsEarnedLastUpdate := 1600000000

/-- A chain without vesting balances. -/
def noVesting : FeeState where
  headBlockTime := 1600000000
  cashbackVestingPeriodSeconds := 31536000
  currentSupply := 1000000000000
  accumulatedFees := 0

theorem lazyDeposit_noVesting {amount : ℤ} (h₀ : 0 ≤ amount) (h : amount ≤ maxShareSupply) (seconds : UInt32) :
    noVesting.LazyDeposit none amount seconds 17 where
  time := by decide
  nonneg := h₀
  le_max := h
  found _ hnone := by cases hnone
  admitted _ _ hnone := by cases hnone

/-- A million to the balance of a year, and a new balance of a year. -/
theorem vested_deposits_exact_million :
    VestingBalance.DepositsExactly ⟨.cdd yearlyPolicy, ⟨500, 0⟩⟩ 1600000000 ⟨1000000, 0⟩ ∧
    noVesting.LazyDepositsExactly none 1000000 31536000 .cashback 17 :=
  have h := vested_deposits_exact_iff yearlyPolicy ⟨500, 0⟩ ⟨1000000, 0⟩ 1600000000 noVesting none 1000000 31536000
    .cashback 17
  ⟨(h.1 (by decide) (by decide) (by decide) (by decide)).mpr (.inl (by decide)),
    (h.2 (lazyDeposit_noVesting (by decide) (by decide) 31536000)).mpr (.inr ⟨by decide, .inl (by decide)⟩)⟩

/-- **Vested deposits of which a part is not withdrawable**: of seven millions with five decimals, vested over a year, more
than four fifths stay locked; and nothing can be withdrawn from a new balance with the period zero. -/
theorem vested_deposits_locked :
    VestingBalance.isDepositVestedAllowed ⟨.cdd yearlyPolicy, ⟨500, 0⟩⟩ ⟨700000000000, 0⟩ = true ∧
    ¬VestingBalance.DepositsExactly ⟨.cdd yearlyPolicy, ⟨500, 0⟩⟩ 1600000000 ⟨700000000000, 0⟩ ∧
    noVesting.LazyDeposit none 1000000 0 17 ∧
    ¬noVesting.LazyDepositsExactly none 1000000 0 .cashback 17 := by
  refine ⟨by decide, ?_, lazyDeposit_noVesting (by decide) (by decide) 0, ?_⟩
  · rw [VestingBalance.depositsExactly_iff (by decide) (by decide) (by decide) (by decide)]
    unfold CddVestingPolicy.VestsAtOnce
    decide
  · rw [FeeState.lazyDepositsExactly_iff (lazyDeposit_noVesting (by decide) (by decide) 0)]
    rintro (h | ⟨h, -⟩)
    · exact absurd h (by decide)
    · exact h rfl

end Playchain
