import Mathlib.Data.Nat.Count
import Mathlib.Order.Bounds.Basic
import Playchain.Graphene.ChainMaintenance

/-!
# Chain parameters and what the maintenance does with them

Two laws of the maintenance. The registration fee that `account_create` scales up is scaled back exactly
when the scaled fee fits in 64 bits and no shift is too wide (`MaintenanceState.scaling_undone_iff`).
A maintenance block of a chain whose parameters have been checked goes through, and sets the least next
time after the head block, exactly when the parameters scale by a positive number of accounts, the fee is
shifted back by less than 64 bits and that time fits in 32 bits
(`MaintenanceState.maintenance_goes_through_iff`): none of these is checked by `validate`.
-/

namespace Playchain

namespace MaintenanceState

/-! ### Between two maintenance intervals -/

/-- The number of times that the fee is scaled by `n` registrations: the counter has 32 bits. -/
def scalings (accountsPerFeeScale : UInt16) (n : ℕ) : ℕ :=
  Nat.count (fun i ↦ (i + 1) % 2 ^ 32 % accountsPerFeeScale.toNat = 0) n

/-- The states that are reached from `s₀` with `n` registrations and no maintenance. -/
inductive Interval (s₀ : MaintenanceState) : ℕ → MaintenanceState → Prop where
  | start : Interval s₀ 0 s₀
  | registration {n : ℕ} {s s' : MaintenanceState} :
      Interval s₀ n s → s.accountCreate = .ok s' → Interval s₀ (n + 1) s'
  | block {n : ℕ} {s : MaintenanceState} {timestamp : UInt32} :
      Interval s₀ n s → timestamp < s.nextMaintenanceTime → Interval s₀ n (s.advance timestamp)

variable {s₀ s s' : MaintenanceState} {n : ℕ}

/-- The fee after one more registration. -/
def nextFee (s : MaintenanceState) : UInt64 :=
  if (s.accountsRegistered + 1).toNat % s.parameters.accountsPerFeeScale.toNat = 0 then
    .ofNat (s.parameters.basicFee.toNat * 2 ^ s.parameters.accountFeeScaleBitshifts.toNat)
  else s.parameters.basicFee

/-- A registration is defined unless it shifts too far, and then multiplies the fee. -/
theorem accountCreate_eq (hscale : s.parameters.accountsPerFeeScale ≠ 0) :
    s.accountCreate =
      if (s.accountsRegistered + 1).toNat % s.parameters.accountsPerFeeScale.toNat = 0 ∧
          64 ≤ s.parameters.accountFeeScaleBitshifts.toNat then .error .shift
      else .ok { s with
        parameters := { s.parameters with basicFee := s.nextFee }
        accountsRegistered := s.accountsRegistered + 1 } := by
  unfold accountCreate FeeScale.register feeScale nextFee
  rw [if_neg hscale]
  by_cases hc : (s.accountsRegistered + 1).toNat % s.parameters.accountsPerFeeScale.toNat = 0
  · by_cases hb : s.parameters.accountFeeScaleBitshifts = 0
    · rw [if_neg (fun h ↦ h.2 hb), if_neg (by simp [hb]), if_pos hc, hb]
      simp
    · by_cases h64 : 64 ≤ s.parameters.accountFeeScaleBitshifts.toNat
      · rw [if_pos ⟨hc, hb⟩, if_pos h64, if_pos ⟨hc, h64⟩]
      · rw [if_pos ⟨hc, hb⟩, if_neg h64, if_neg (fun h ↦ h64 h.2), if_pos hc]
  · rw [if_neg (fun h ↦ hc h.1), if_neg (fun h ↦ hc h.1), if_neg hc]

/-- The fee after `n` registrations. -/
def feeAfter (s₀ : MaintenanceState) (n : ℕ) : ℕ :=
  s₀.parameters.basicFee.toNat *
    2 ^ (s₀.parameters.accountFeeScaleBitshifts.toNat * scalings s₀.parameters.accountsPerFeeScale n)

/-- What an interval does to the parameters and the counter. -/
structure Scaled (s₀ : MaintenanceState) (n : ℕ) (s : MaintenanceState) : Prop where
  parameters : s.parameters = { s₀.parameters with basicFee := .ofNat (s₀.feeAfter n) }
  registered : s.accountsRegistered = .ofNat n
  pending : s.pendingParameters = s₀.pendingParameters

theorem toNat_ofNat_succ (n : ℕ) : (UInt32.ofNat n + 1).toNat = (n + 1) % 2 ^ 32 := by
  rw [UInt32.toNat_add, UInt32.toNat_ofNat']
  simp

theorem scalings_succ (k : UInt16) (n : ℕ) :
    scalings k (n + 1) = scalings k n + if (n + 1) % 2 ^ 32 % k.toNat = 0 then 1 else 0 := by
  rw [scalings, Nat.count_succ, scalings]

theorem feeAfter_succ (s₀ : MaintenanceState) (n : ℕ) :
    s₀.feeAfter (n + 1) = s₀.feeAfter n *
      if (n + 1) % 2 ^ 32 % s₀.parameters.accountsPerFeeScale.toNat = 0 then
        2 ^ s₀.parameters.accountFeeScaleBitshifts.toNat else 1 := by
  rw [feeAfter, scalings_succ, feeAfter]
  split_ifs with hc
  · rw [Nat.mul_add, Nat.mul_one, pow_add, mul_assoc]
  · rw [Nat.add_zero, Nat.mul_one]

theorem feeAfter_zero (s₀ : MaintenanceState) : s₀.feeAfter 0 = s₀.parameters.basicFee.toNat := by
  simp [feeAfter, scalings]

theorem Scaled.nextFee_eq (hs : Scaled s₀ n s) : s.nextFee = .ofNat (s₀.feeAfter (n + 1)) := by
  rw [nextFee, hs.registered, toNat_ofNat_succ, hs.parameters, feeAfter_succ]
  dsimp only
  split_ifs with hc
  · apply UInt64.toNat_inj.mp
    rw [UInt64.toNat_ofNat', UInt64.toNat_ofNat', UInt64.toNat_ofNat', Nat.mod_mul_mod]
  · rw [Nat.mul_one]

/-- A registration of an interval is defined unless it shifts too far. -/
theorem Scaled.accountCreate_eq (hs : Scaled s₀ n s) (hscale : s₀.parameters.accountsPerFeeScale ≠ 0) :
    s.accountCreate =
      if (n + 1) % 2 ^ 32 % s₀.parameters.accountsPerFeeScale.toNat = 0 ∧
          64 ≤ s₀.parameters.accountFeeScaleBitshifts.toNat then .error .shift
      else .ok { s with
        parameters := { s₀.parameters with basicFee := .ofNat (s₀.feeAfter (n + 1)) }
        accountsRegistered := .ofNat (n + 1) } := by
  rw [MaintenanceState.accountCreate_eq (by rwa [hs.parameters]), hs.nextFee_eq, hs.registered,
    toNat_ofNat_succ, hs.parameters]
  simp

theorem Scaled.registration (hs : Scaled s₀ n s) (hscale : s₀.parameters.accountsPerFeeScale ≠ 0)
    (h : s.accountCreate = .ok s') : Scaled s₀ (n + 1) s' := by
  rw [hs.accountCreate_eq hscale] at h
  split_ifs at h with hc
  obtain rfl := Except.ok.inj h
  exact ⟨rfl, rfl, hs.pending⟩

theorem Interval.scaled (h : Interval s₀ n s) (h₀ : s₀.accountsRegistered = 0)
    (hscale : s₀.parameters.accountsPerFeeScale ≠ 0) : Scaled s₀ n s := by
  induction h with
  | start =>
    refine ⟨?_, h₀, rfl⟩
    rw [feeAfter_zero, UInt64.ofNat_toNat]
  | registration _ h ih => exact ih.registration hscale h
  | block _ _ ih => exact ⟨ih.parameters, ih.registered, ih.pending⟩

/-! ### Counting the scalings -/

theorem scalings_mono (k : UInt16) : Monotone (scalings k) := Nat.count_monotone _

theorem feeAfter_mono (s₀ : MaintenanceState) : Monotone s₀.feeAfter := fun _ _ h ↦
  Nat.mul_le_mul_left _ (Nat.pow_le_pow_right two_pos (Nat.mul_le_mul_left _ (scalings_mono _ h)))

/-- As long as the counter does not wrap, every `k`-th registration scales the fee. -/
theorem scalings_eq_div (k : UInt16) {n : ℕ} (hn : n < 2 ^ 32) : scalings k n = n / k.toNat := by
  induction n with
  | zero => simp [scalings]
  | succ n ih =>
    rw [scalings_succ, ih (by omega), Nat.mod_eq_of_lt hn, Nat.succ_div]
    simp only [Nat.dvd_iff_mod_eq_zero]

/-- Before the counter wraps, the fee has been scaled more than 64 times. -/
theorem lt_of_scalings_lt {k : UInt16} (hk : k ≠ 0) {n : ℕ} (h : scalings k n < 64) : n < 2 ^ 32 := by
  by_contra hn
  have hpos : 0 < k.toNat := by
    rw [Nat.pos_iff_ne_zero]
    exact fun hz ↦ hk (UInt16.toNat_inj.mp hz)
  have hwrap : scalings k (2 ^ 32 - 1) ≤ scalings k n := scalings_mono k (by omega)
  rw [scalings_eq_div k (by omega)] at hwrap
  have hlow : 64 ≤ (2 ^ 32 - 1) / k.toNat := by
    rw [Nat.le_div_iff_mul_le hpos]
    have := k.toNat_lt
    omega
  omega

/-- The maintenance shifts back by what has been shifted, as long as that is less than the width. -/
theorem shiftBack_eq {k : UInt16} (hk : k ≠ 0) {b n : ℕ} (h : b * scalings k n < 64) :
    b * (n % 2 ^ 32 / k.toNat) % 2 ^ 32 = b * scalings k n := by
  rcases Nat.eq_zero_or_pos b with rfl | hb
  · simp
  · have hn : n < 2 ^ 32 := lt_of_scalings_lt hk (by nlinarith)
    rw [Nat.mod_eq_of_lt hn, ← scalings_eq_div k hn, Nat.mod_eq_of_lt (by omega)]

/-! ### The scaling is undone -/

/-- The bits by which the maintenance shifts the fee back after `n` registrations. -/
def shiftBackAfter (s₀ : MaintenanceState) (n : ℕ) : ℕ :=
  s₀.parameters.accountFeeScaleBitshifts.toNat *
    (n % 2 ^ 32 / s₀.parameters.accountsPerFeeScale.toNat) % 2 ^ 32

theorem Scaled.removeScaling_eq (hs : Scaled s₀ n s) (hscale : s₀.parameters.accountsPerFeeScale ≠ 0) :
    s.feeScale.removeScaling s.parameters.accountsPerFeeScale s.parameters.accountFeeScaleBitshifts =
      if 64 ≤ s₀.shiftBackAfter n then .error .shift
      else .ok ⟨.ofNat (s₀.feeAfter n % 2 ^ 64 / 2 ^ s₀.shiftBackAfter n), 0⟩ := by
  have hback : s.feeScale.shiftBack s.parameters.accountsPerFeeScale
      s.parameters.accountFeeScaleBitshifts = s₀.shiftBackAfter n := by
    rw [FeeScale.shiftBack, feeScale, hs.registered, hs.parameters, UInt32.toNat_ofNat']
    rfl
  have hfee : s.feeScale.basicFee.toNat = s₀.feeAfter n % 2 ^ 64 := by
    rw [feeScale, hs.parameters, UInt64.toNat_ofNat']
  rw [FeeScale.removeScaling, if_neg (by rwa [hs.parameters]), hback, hfee]

/-- **The scaling is undone** over an interval with `n` registrations: each of them is defined and does
not lower the fee, and the maintenance gives the fee of `s₀`. -/
structure ScalingUndone (s₀ : MaintenanceState) (n : ℕ) : Prop where
  registers : ∀ m < n, ∀ s, Interval s₀ m s →
    ∃ s', s.accountCreate = .ok s' ∧ s.parameters.basicFee ≤ s'.parameters.basicFee
  removes : ∀ s, Interval s₀ n s → ∃ f,
    s.feeScale.removeScaling s.parameters.accountsPerFeeScale s.parameters.accountFeeScaleBitshifts =
      .ok f ∧ f.basicFee = s₀.parameters.basicFee
  maintains : ∀ s, Interval s₀ n s → ∀ timestamp s', s.nextMaintenanceTime ≤ timestamp →
    s.applyBlock timestamp = .ok s' → s'.parameters.basicFee = s₀.parameters.basicFee

/-- No shift is by 64 bits or more, and the scaled fee fits in 64 bits. -/
structure ScalingFits (s₀ : MaintenanceState) (n : ℕ) : Prop where
  scales : 64 ≤ s₀.parameters.accountFeeScaleBitshifts.toNat →
    scalings s₀.parameters.accountsPerFeeScale n = 0
  shiftsBack : s₀.shiftBackAfter n < 64
  fits : s₀.feeAfter n < 2 ^ 64

/-- A scaled fee that is not 0 and fits has been shifted by less than the width. -/
theorem shifted_lt (hfee : s₀.parameters.basicFee.toNat ≠ 0) (h : s₀.feeAfter n < 2 ^ 64) :
    s₀.parameters.accountFeeScaleBitshifts.toNat *
      scalings s₀.parameters.accountsPerFeeScale n < 64 := by
  have hle : 2 ^ (s₀.parameters.accountFeeScaleBitshifts.toNat *
      scalings s₀.parameters.accountsPerFeeScale n) ≤ s₀.feeAfter n :=
    Nat.le_mul_of_pos_left _ (Nat.pos_of_ne_zero hfee)
  exact (Nat.pow_lt_pow_iff_right (by omega)).mp (hle.trans_lt h)

theorem feeAfter_div (hscale : s₀.parameters.accountsPerFeeScale ≠ 0) (h : s₀.feeAfter n < 2 ^ 64) :
    s₀.feeAfter n / 2 ^ s₀.shiftBackAfter n = s₀.parameters.basicFee.toNat := by
  by_cases hfee : s₀.parameters.basicFee.toNat = 0
  · rw [feeAfter, hfee, Nat.zero_mul, Nat.zero_div]
  · rw [shiftBackAfter, shiftBack_eq hscale (shifted_lt hfee h), feeAfter,
      Nat.mul_div_cancel _ (by positivity)]

/-- The state that a maintenance leaves when the scaling has been removed. -/
def maintained (s : MaintenanceState) (f : FeeScale) : MaintenanceState :=
  { s with
    parameters := s.installed f.basicFee
    pendingParameters := none
    accountsRegistered := f.registered
    nextMaintenanceTime := s.nextTime (s.installed f.basicFee).maintenanceInterval }

/-- When a maintenance goes through, and what it leaves. -/
theorem performChainMaintenance_eq_ok :
    s.performChainMaintenance = .ok s' ↔ ∃ f,
      s.feeScale.removeScaling s.parameters.accountsPerFeeScale s.parameters.accountFeeScaleBitshifts =
        .ok f ∧
      (s.installed f.basicFee).maintenanceInterval ≠ 0 ∧
      s.headBlockTime.toNat < (s.maintained f).nextMaintenanceTime.toNat ∧
      0 < (s.installed f.basicFee).blockInterval.toNat ∧ s' = s.maintained f := by
  unfold performChainMaintenance
  cases hf : s.feeScale.removeScaling s.parameters.accountsPerFeeScale
      s.parameters.accountFeeScaleBitshifts with
  | error e =>
    constructor
    · intro h
      cases h
    · rintro ⟨f, h, -⟩
      cases h
  | ok f =>
    dsimp only
    constructor
    · intro h
      by_cases hzero : (s.installed f.basicFee).maintenanceInterval = 0
      · rw [if_pos hzero] at h
        cases h
      · rw [if_neg hzero, processBudget] at h
        split_ifs at h with hbudget
        exact ⟨f, rfl, hzero, hbudget.1, hbudget.2, (Except.ok.inj h).symm⟩
    · rintro ⟨g, hg, hzero, hhead, hblock, rfl⟩
      obtain rfl := Except.ok.inj hg
      rw [if_neg hzero, processBudget]
      exact if_pos ⟨hhead, hblock⟩

/-- The maintenance of an interval in which the committee changed nothing installs the fee that
`removeScaling` gives. -/
theorem applyBlock_basicFee {f : FeeScale} {timestamp : UInt32} (hpending : s.pendingParameters = none)
    (hdue : s.nextMaintenanceTime ≤ timestamp) (h : s.applyBlock timestamp = .ok s')
    (hf : s.feeScale.removeScaling s.parameters.accountsPerFeeScale s.parameters.accountFeeScaleBitshifts =
      .ok f) : s'.parameters.basicFee = f.basicFee := by
  rw [applyBlock, if_pos hdue, performChainMaintenance_eq_ok] at h
  obtain ⟨g, hg, -, -, -, rfl⟩ := h
  obtain rfl := Except.ok.inj (hf.symm.trans hg)
  simp [maintained, installed, advance, hpending]

theorem ScalingFits.undone (h₀ : s₀.accountsRegistered = 0) (hpending : s₀.pendingParameters = none)
    (hscale : s₀.parameters.accountsPerFeeScale ≠ 0) (h : ScalingFits s₀ n) : ScalingUndone s₀ n := by
  have hremoves : ∀ s, Interval s₀ n s → ∃ f,
      s.feeScale.removeScaling s.parameters.accountsPerFeeScale s.parameters.accountFeeScaleBitshifts =
        .ok f ∧ f.basicFee = s₀.parameters.basicFee := by
    intro s hs
    rw [(hs.scaled h₀ hscale).removeScaling_eq hscale, if_neg (by have := h.shiftsBack; omega)]
    refine ⟨_, rfl, ?_⟩
    dsimp only
    rw [Nat.mod_eq_of_lt h.fits, feeAfter_div hscale h.fits, UInt64.ofNat_toNat]
  refine ⟨?_, hremoves, ?_⟩
  · intro m hm s hs
    have hscaled := hs.scaled h₀ hscale
    rw [hscaled.accountCreate_eq hscale, if_neg]
    · refine ⟨_, rfl, ?_⟩
      rw [hscaled.parameters, UInt64.le_iff_toNat_le]
      dsimp only
      have hle : s₀.feeAfter (m + 1) ≤ s₀.feeAfter n := feeAfter_mono s₀ (by omega)
      have hstep : s₀.feeAfter m ≤ s₀.feeAfter (m + 1) := feeAfter_mono s₀ (by omega)
      have hfits := h.fits
      rw [UInt64.toNat_ofNat', UInt64.toNat_ofNat', Nat.mod_eq_of_lt (by omega), Nat.mod_eq_of_lt (by omega)]
      exact hstep
    · rintro ⟨hc, h64⟩
      have hzero := h.scales h64
      have hle : scalings s₀.parameters.accountsPerFeeScale (m + 1) ≤
          scalings s₀.parameters.accountsPerFeeScale n := scalings_mono _ (by omega)
      rw [scalings_succ, if_pos hc] at hle
      omega
  · intro s hs timestamp s' hdue hs'
    obtain ⟨f, hf, hfee⟩ := hremoves s hs
    rw [← hfee]
    exact applyBlock_basicFee ((hs.scaled h₀ hscale).pending.trans hpending) hdue hs' hf

/-- The registrations of an interval can be made one after the other. -/
theorem ScalingUndone.exists_interval (h : ScalingUndone s₀ n) {m : ℕ} (hm : m ≤ n) :
    ∃ s, Interval s₀ m s := by
  induction m with
  | zero => exact ⟨s₀, .start⟩
  | succ m ih =>
    obtain ⟨s, hs⟩ := ih (by omega)
    obtain ⟨s', hs', -⟩ := h.registers m (by omega) s hs
    exact ⟨s', hs.registration hs'⟩

theorem ScalingUndone.fits (h₀ : s₀.accountsRegistered = 0)
    (hscale : s₀.parameters.accountsPerFeeScale ≠ 0) (h : ScalingUndone s₀ n) : ScalingFits s₀ n := by
  obtain ⟨s, hs⟩ := h.exists_interval le_rfl
  obtain ⟨f, hf, hfee⟩ := h.removes s hs
  rw [(hs.scaled h₀ hscale).removeScaling_eq hscale] at hf
  split_ifs at hf with h64
  obtain rfl := Except.ok.inj hf
  refine ⟨fun hb ↦ ?_, by omega, ?_⟩
  · by_contra hne
    obtain ⟨m, hm, hc⟩ : ∃ m < n, (m + 1) % 2 ^ 32 % s₀.parameters.accountsPerFeeScale.toNat = 0 := by
      by_contra hnone
      push Not at hnone
      exact hne (Nat.count_iff_forall_not.mpr hnone)
    obtain ⟨u, hu⟩ := h.exists_interval hm.le
    obtain ⟨u', hu', -⟩ := h.registers m hm u hu
    rw [(hu.scaled h₀ hscale).accountCreate_eq hscale, if_pos ⟨hc, hb⟩] at hu'
    cases hu'
  · by_cases hzero : s₀.parameters.basicFee.toNat = 0
    · rw [feeAfter, hzero, Nat.zero_mul]
      omega
    · have hval : s₀.feeAfter n % 2 ^ 64 / 2 ^ s₀.shiftBackAfter n = s₀.parameters.basicFee.toNat := by
        have hlt : s₀.feeAfter n % 2 ^ 64 / 2 ^ s₀.shiftBackAfter n < 2 ^ 64 :=
          (Nat.div_le_self _ _).trans_lt (Nat.mod_lt _ (by omega))
        rw [← hfee, UInt64.toNat_ofNat', Nat.mod_eq_of_lt hlt]
      by_contra hover
      have hshift : s₀.parameters.accountFeeScaleBitshifts.toNat *
          scalings s₀.parameters.accountsPerFeeScale n < 64 := by
        -- otherwise all bits of the fee are lost
        by_contra hwide
        have hdvd : 2 ^ 64 ∣ s₀.feeAfter n := Dvd.dvd.mul_left (pow_dvd_pow 2 (by omega)) _
        rw [Nat.mod_eq_zero_of_dvd hdvd, Nat.zero_div] at hval
        exact hzero hval.symm
      rw [shiftBackAfter, shiftBack_eq hscale hshift] at hval
      have hle : s₀.feeAfter n ≤ s₀.feeAfter n % 2 ^ 64 := by
        have := Nat.div_mul_le_self (s₀.feeAfter n % 2 ^ 64) (2 ^ (s₀.parameters.accountFeeScaleBitshifts.toNat *
          scalings s₀.parameters.accountsPerFeeScale n))
        rwa [hval] at this
      have := Nat.mod_lt (s₀.feeAfter n) (show 2 ^ 64 > 0 by omega)
      omega

/-- **The registration fee is scaled back exactly when the scaled fee fits in 64 bits** and no shift is by
64 bits or more. -/
theorem scaling_undone_iff (s₀ : MaintenanceState) (n : ℕ) (h₀ : s₀.accountsRegistered = 0)
    (hpending : s₀.pendingParameters = none) (hscale : s₀.parameters.accountsPerFeeScale ≠ 0) :
    ScalingUndone s₀ n ↔ ScalingFits s₀ n :=
  ⟨ScalingUndone.fits h₀ hscale, ScalingFits.undone h₀ hpending hscale⟩

/-- Parameters under which a dozen registrations lose bits of the fee. -/
def steepParameters : ChainParameters where
  basicFee := 500000
  blockInterval := 5
  maintenanceInterval := 86400
  committeeProposalReviewPeriod := 1209600
  maximumTransactionSize := 2048
  maximumBlockSize := 2000000
  maximumTimeUntilExpiration := 86400
  maximumProposalLifetime := 2419200
  reservePercentOfFee := 2000
  networkPercentOfFee := 2000
  lifetimeReferrerPercentOfFee := 3000
  accountsPerFeeScale := 1
  accountFeeScaleBitshifts := 4

/-- A chain with these parameters right after a maintenance. -/
def steepState : MaintenanceState where
  parameters := steepParameters
  nextMaintenanceTime := 172800
  headBlockTime := 86400
  headBlockNum := 100

theorem scaling_undone_steep : ScalingUndone steepState 11 ↔ ScalingFits steepState 11 :=
  scaling_undone_iff steepState 11 rfl rfl (by decide)

/-- **Twelve registrations are not undone**: the fee loses its highest bits. -/
theorem scaling_not_undone :
    steepState.parameters.validate = true ∧ steepState.parameters.accountsPerFeeScale = 1 ∧
      ¬ ScalingUndone steepState 12 := by
  refine ⟨by decide, rfl, fun h ↦ ?_⟩
  have hfits := (h.fits rfl (by decide)).fits
  have hcount : scalings steepState.parameters.accountsPerFeeScale 12 = 12 := by decide
  rw [feeAfter, hcount] at hfits
  exact absurd hfits (by decide)

/-! ### The chain stays alive -/

/-- The state of the genesis; the first block is a maintenance block. -/
def genesis (p : ChainParameters) (time : UInt32) : MaintenanceState where
  parameters := p
  nextMaintenanceTime := 0
  headBlockTime := time
  headBlockNum := 0

/-- The runs of registrations, changes of the parameters and blocks. -/
inductive Run (s₀ : MaintenanceState) : MaintenanceState → Prop where
  | start : Run s₀ s₀
  | accountCreate {s s' : MaintenanceState} : Run s₀ s → s.accountCreate = .ok s' → Run s₀ s'
  | updateGlobalParameters {s : MaintenanceState} (p : ChainParameters) :
      Run s₀ s → Run s₀ (s.updateGlobalParameters p)
  | block {s s' : MaintenanceState} (timestamp : UInt32) :
      Run s₀ s → s.headBlockTime < timestamp → s.applyBlock timestamp = .ok s' → Run s₀ s'

theorem accountCreate_inv (h : s.accountCreate = .ok s') :
    ∃ fee registered, s' = { s with
      parameters := { s.parameters with basicFee := fee }, accountsRegistered := registered } := by
  unfold accountCreate at h
  split at h
  · cases h
  · exact ⟨_, _, (Except.ok.inj h).symm⟩

/-- What a block does to the head, and where its parameters come from. -/
theorem applyBlock_inv {timestamp : UInt32} (h : s.applyBlock timestamp = .ok s') :
    s'.headBlockTime = timestamp ∧ s'.headBlockNum = s.headBlockNum + 1 ∧
      (s'.parameters = s.parameters ∧ s'.pendingParameters = s.pendingParameters ∨
        (∃ fee, s'.parameters = s.installed fee) ∧ s'.pendingParameters = none) := by
  rw [applyBlock] at h
  split_ifs at h with hdue
  · obtain ⟨f, -, -, -, -, rfl⟩ := performChainMaintenance_eq_ok.mp h
    exact ⟨rfl, rfl, .inr ⟨⟨f.basicFee, rfl⟩, rfl⟩⟩
  · obtain rfl := Except.ok.inj h
    exact ⟨rfl, rfl, .inl ⟨rfl, rfl⟩⟩

/-- Pending parameters have been checked, and blocks are at least a second apart. -/
structure Sane (s : MaintenanceState) : Prop where
  pending : ∀ p, s.pendingParameters = some p → p.validate = true
  num_le : s.headBlockNum.toNat ≤ s.headBlockTime.toNat

theorem sane_genesis (p : ChainParameters) (time : UInt32) : Sane (genesis p time) :=
  ⟨fun _ h ↦ (by cases h), Nat.zero_le _⟩

theorem succ_num_of_lt {timestamp : UInt32} (hs : Sane s) (h : s.headBlockTime < timestamp) :
    (s.headBlockNum + 1).toNat = s.headBlockNum.toNat + 1 ∧
      s.headBlockNum.toNat + 1 ≤ timestamp.toNat := by
  have hlt := UInt32.lt_iff_toNat_lt.mp h
  have hle := hs.num_le
  have hbound := timestamp.toNat_lt
  refine ⟨?_, by omega⟩
  rw [UInt32.toNat_add]
  exact Nat.mod_eq_of_lt (by simp; omega)

theorem Run.sane (h : Run s₀ s) (h₀ : Sane s₀) : Sane s := by
  induction h with
  | start => exact h₀
  | accountCreate _ h ih =>
    obtain ⟨fee, registered, rfl⟩ := accountCreate_inv h
    exact ⟨ih.pending, ih.num_le⟩
  | updateGlobalParameters p _ ih =>
    unfold MaintenanceState.updateGlobalParameters
    split_ifs with hp
    · exact ⟨fun q hq ↦ by obtain rfl := Option.some.inj hq; exact hp, ih.num_le⟩
    · exact ih
  | block timestamp _ hlt h ih =>
    obtain ⟨htime, hnum, hpar⟩ := applyBlock_inv h
    refine ⟨fun p hp ↦ ?_, ?_⟩
    · rcases hpar with ⟨-, hpend⟩ | ⟨-, hpend⟩
      · exact ih.pending p (hpend ▸ hp)
      · rw [hpend] at hp
        cases hp
    · rw [htime, hnum, (succ_num_of_lt ih hlt).1]
      exact (succ_num_of_lt ih hlt).2

theorem Sane.validate_installed (hs : Sane s) (hp : s.parameters.validate = true) (fee : UInt64) :
    (s.installed fee).validate = true := by
  unfold installed
  cases hpend : s.pendingParameters with
  | none => exact hp
  | some p => exact hs.pending p hpend

/-- Parameters that have been checked stay checked. -/
theorem Run.validated (h : Run s₀ s) (h₀ : Sane s₀) (hp : s₀.parameters.validate = true)
    (hnum : s₀.headBlockNum ≠ 0) : s.parameters.validate = true ∧ s.headBlockNum ≠ 0 := by
  induction h with
  | start => exact ⟨hp, hnum⟩
  | accountCreate _ h ih =>
    obtain ⟨fee, registered, rfl⟩ := accountCreate_inv h
    exact ih
  | updateGlobalParameters p _ ih =>
    unfold MaintenanceState.updateGlobalParameters
    split_ifs
    · exact ih
    · exact ih
  | block timestamp hrun hlt h ih =>
    obtain ⟨-, hnum, hpar⟩ := applyBlock_inv h
    refine ⟨?_, fun hzero ↦ ?_⟩
    · rcases hpar with ⟨hsame, -⟩ | ⟨⟨fee, hinst⟩, -⟩
      · rw [hsame]
        exact ih.1
      · rw [hinst]
        exact (hrun.sane h₀).validate_installed ih.1 fee
    · have hsucc := (succ_num_of_lt (hrun.sane h₀) hlt).1
      rw [← hnum, hzero] at hsucc
      simp at hsucc

/-- The times after the head block at whole intervals from the last maintenance time. -/
def laterTimes (next interval head : ℕ) : Set ℕ := {v | head < v ∧ ∃ k, v = next + k * interval}

theorem isLeast_laterTimes {next interval head : ℕ} (hint : 0 < interval) (hle : next ≤ head) :
    IsLeast (laterTimes next interval head) (next + ((head - next) / interval + 1) * interval) := by
  constructor
  · refine ⟨?_, _, rfl⟩
    have := Nat.lt_mul_div_succ (head - next) hint
    rw [Nat.mul_comm] at this
    omega
  · rintro v ⟨hv, k, rfl⟩
    have hk : (head - next) / interval < k := (Nat.div_lt_iff_lt_mul hint).mpr (by omega)
    exact Nat.add_le_add_left (Nat.mul_le_mul_right _ hk) _

/-- A maintenance block goes through, and the next maintenance is at the least of the later times. -/
def GoesThrough (s : MaintenanceState) (timestamp : UInt32) : Prop :=
  ∃ s', s.applyBlock timestamp = .ok s' ∧
    IsLeast (laterTimes s.nextMaintenanceTime.toNat s'.parameters.maintenanceInterval.toNat
      timestamp.toNat) s'.nextMaintenanceTime.toNat

/-- The parameters that the next maintenance installs, apart from the fee. -/
def upcoming (s : MaintenanceState) : ChainParameters := s.pendingParameters.getD s.parameters

/-- What `validate` leaves open: the fee is scaled by a positive number of accounts, it is shifted back by
less than 64 bits, and a later time at whole intervals fits in 32 bits. -/
structure Maintainable (s : MaintenanceState) (timestamp : UInt32) : Prop where
  scale : s.parameters.accountsPerFeeScale ≠ 0
  shift : s.parameters.accountFeeScaleBitshifts.toNat *
    (s.accountsRegistered.toNat / s.parameters.accountsPerFeeScale.toNat) % 2 ^ 32 < 64
  time : ∃ v ∈ laterTimes s.nextMaintenanceTime.toNat s.upcoming.maintenanceInterval.toNat timestamp.toNat,
    v < 2 ^ 32

theorem removeScaling_eq_ok {f : FeeScale} :
    s.feeScale.removeScaling s.parameters.accountsPerFeeScale s.parameters.accountFeeScaleBitshifts =
        .ok f ↔
      s.parameters.accountsPerFeeScale ≠ 0 ∧
      s.parameters.accountFeeScaleBitshifts.toNat *
        (s.accountsRegistered.toNat / s.parameters.accountsPerFeeScale.toNat) % 2 ^ 32 < 64 ∧
      f = ⟨.ofNat (s.parameters.basicFee.toNat / 2 ^ (s.parameters.accountFeeScaleBitshifts.toNat *
        (s.accountsRegistered.toNat / s.parameters.accountsPerFeeScale.toNat) % 2 ^ 32)), 0⟩ := by
  unfold FeeScale.removeScaling FeeScale.shiftBack feeScale
  by_cases hscale : s.parameters.accountsPerFeeScale = 0
  · rw [if_pos hscale]
    exact ⟨fun h ↦ (by cases h), fun h ↦ absurd hscale h.1⟩
  · rw [if_neg hscale]
    dsimp only
    split_ifs with h64
    · exact ⟨fun h ↦ (by cases h), fun h ↦ absurd h.2.1 (by omega)⟩
    · exact ⟨fun h ↦ ⟨hscale, by omega, (Except.ok.inj h).symm⟩, fun h ↦ by rw [h.2.2]⟩

theorem interval_installed (s : MaintenanceState) (fee : UInt64) :
    (s.installed fee).maintenanceInterval = s.upcoming.maintenanceInterval := by
  unfold installed upcoming
  cases s.pendingParameters with
  | none => rfl
  | some p => rfl

theorem ChainParameters.intervals_of_validate {p : ChainParameters} (h : p.validate = true) :
    0 < p.blockInterval.toNat ∧ 0 < p.maintenanceInterval.toNat := by
  simp only [ChainParameters.validate, Bool.and_eq_true, decide_eq_true_eq] at h
  omega

/-- After the first block, the next time is the least of the later times, in 32 bits. -/
theorem nextTime_toNat (interval : UInt32) (hnum : s.headBlockNum ≠ 1)
    (hdue : s.nextMaintenanceTime ≤ s.headBlockTime) :
    (s.nextTime interval).toNat =
      (s.nextMaintenanceTime.toNat + ((s.headBlockTime.toNat - s.nextMaintenanceTime.toNat) /
        interval.toNat + 1) * interval.toNat) % 2 ^ 32 := by
  rw [nextTime, if_pos hdue, if_neg hnum, UInt32.toNat_add, UInt32.toNat_ofNat', Nat.add_mod_mod]

theorem advance_num_ne_one {timestamp : UInt32} (hs : Sane s) (hnum : s.headBlockNum ≠ 0)
    (hhead : s.headBlockTime < timestamp) : (s.advance timestamp).headBlockNum ≠ 1 := by
  intro hone
  have hsucc := (succ_num_of_lt hs hhead).1
  rw [show s.headBlockNum + 1 = 1 from hone, show (1 : UInt32).toNat = 1 from rfl] at hsucc
  exact hnum (UInt32.toNat_inj.mp (show s.headBlockNum.toNat = 0 by omega))

/-- **A maintenance block goes through exactly when** the fee is scaled by a positive number of accounts
and shifted back by less than 64 bits, and the next maintenance time fits in 32 bits: in every run of a chain
after parameters that pass the check have been installed. -/
theorem maintenance_goes_through_iff (p₀ : ChainParameters) (t₀ : UInt32) (s₀ s : MaintenanceState)
    (timestamp : UInt32) (h₀ : Run (genesis p₀ t₀) s₀) (hp : s₀.parameters.validate = true)
    (hnum : s₀.headBlockNum ≠ 0) (h : Run s₀ s) (hhead : s.headBlockTime < timestamp)
    (hdue : s.nextMaintenanceTime ≤ timestamp) :
    GoesThrough s timestamp ↔ Maintainable s timestamp := by
  have hsane₀ := h₀.sane (sane_genesis p₀ t₀)
  have hsane := h.sane hsane₀
  obtain ⟨hvalid, hnum⟩ := h.validated hsane₀ hp hnum
  have hnum' := advance_num_ne_one hsane hnum hhead
  have hint := fun fee ↦ ChainParameters.intervals_of_validate (hsane.validate_installed hvalid fee)
  have hleast := fun fee ↦ isLeast_laterTimes (hint fee).2 (UInt32.le_iff_toNat_le.mp hdue)
  constructor
  · rintro ⟨s', hs', hmem⟩
    rw [applyBlock, if_pos hdue, performChainMaintenance_eq_ok] at hs'
    obtain ⟨f, hf, -, -, -, rfl⟩ := hs'
    obtain ⟨hscale, hshift, -⟩ := removeScaling_eq_ok.mp hf
    refine ⟨hscale, hshift, ((s.advance timestamp).maintained f).nextMaintenanceTime.toNat, ?_,
      UInt32.toNat_lt _⟩
    rw [← interval_installed s f.basicFee]
    exact hmem.1
  · rintro ⟨hscale, hshift, v, hv, hlt⟩
    obtain ⟨f, hf⟩ : ∃ f, (s.advance timestamp).feeScale.removeScaling
        (s.advance timestamp).parameters.accountsPerFeeScale
        (s.advance timestamp).parameters.accountFeeScaleBitshifts = .ok f :=
      ⟨_, removeScaling_eq_ok.mpr ⟨hscale, hshift, rfl⟩⟩
    rw [← interval_installed s f.basicFee] at hv
    have hle := (hleast f.basicFee).2 hv
    have heq : ((s.advance timestamp).maintained f).nextMaintenanceTime.toNat =
        s.nextMaintenanceTime.toNat + ((timestamp.toNat - s.nextMaintenanceTime.toNat) /
          (s.installed f.basicFee).maintenanceInterval.toNat + 1) *
            (s.installed f.basicFee).maintenanceInterval.toNat := by
      exact (nextTime_toNat _ hnum' hdue).trans (Nat.mod_eq_of_lt (hle.trans_lt hlt))
    refine ⟨(s.advance timestamp).maintained f, ?_, ?_⟩
    · rw [applyBlock, if_pos hdue, performChainMaintenance_eq_ok]
      refine ⟨f, hf, ?_, ?_, (hint _).1, rfl⟩
      · intro hzero
        have hpos := (hint f.basicFee).2
        rw [show (s.installed f.basicFee).maintenanceInterval = 0 from hzero] at hpos
        exact absurd hpos (by decide)
      · rw [heq]
        exact (hleast f.basicFee).1.1
    · rw [heq]
      exact hleast f.basicFee

/-- Parameters that are accepted although the fee can not be scaled with them. -/
def unscaledParameters : ChainParameters := { steepParameters with accountsPerFeeScale := 0 }

theorem run_steep : Run (genesis steepParameters 86400) {
    parameters := steepParameters, nextMaintenanceTime := 172800, headBlockTime := 86405,
    headBlockNum := 1 } :=
  Run.block 86405 .start (by decide) (by decide)

theorem maintenance_goes_through_steep :
    GoesThrough ⟨steepParameters, none, 0, 172800, 86405, 1⟩ 172800 ↔
      Maintainable ⟨steepParameters, none, 0, 172800, 86405, 1⟩ 172800 :=
  maintenance_goes_through_iff steepParameters 86400 _ _ 172800 run_steep (by decide) (by decide) .start
    (by decide) (by decide)

/-- **Parameters without scaling stop the chain.** They pass the check and are installed at a maintenance,
and the next maintenance divides by zero. -/
theorem maintenance_stops :
    ∃ s, unscaledParameters.validate = true ∧ Run (genesis steepParameters 86400) s ∧
      s.parameters = unscaledParameters ∧ s.headBlockTime < 259200 ∧
      s.nextMaintenanceTime ≤ 259200 ∧ s.applyBlock 259200 = .error .divisionByZero := by
  refine ⟨⟨unscaledParameters, none, 0, 259200, 172800, 2⟩, by decide, ?_, rfl, by decide, by decide,
    by decide⟩
  exact .block 172800 (.updateGlobalParameters unscaledParameters run_steep) (by decide)
    (by decide)

end MaintenanceState

end Playchain
