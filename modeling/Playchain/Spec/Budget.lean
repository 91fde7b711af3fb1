import Playchain.Graphene.Budget
import Playchain.Spec.FeeConservation

/-!
# The budget is exact if the pay fits

Nothing bounds the pay that the chain parameters promise to witnesses: `validate` does not look at it. It may be negative,
and its product with a number of blocks may leave 64 bits; then the budget is not what it should be (`budget_unbounded`). The
pay of a worker may leave them too, if the last budget lies decades back.

In a run in which these amounts fit, the budget is exact (`budget_exact_of_fitting`). What carries the proof is that all
core is accounted for (`Sound`): the fees and the rest of the old budget are a part of the supply.
-/

namespace Playchain

/-! ### Machine integers -/

theorem toUInt128_eq {x : ℤ} (h₀ : 0 ≤ x) (h : x < 2 ^ 63) : (toUInt128 x : ℤ) = x := by
  have hfits : x.emod (2 ^ 128) = x := Int.emod_eq_of_lt h₀ (by omega)
  rw [toUInt128, hfits, Int.toNat_of_nonneg h₀]

theorem toInt64_eq {n : ℕ} (h : n < 2 ^ 63) : toInt64 n = n := Int.bmod_eq_of_le (by omega) (by omega)

/-! ### The pay of a worker -/

namespace WorkerType

/-- What leaves the supply when a worker is paid. -/
def refunded (w : WorkerType) (pay : ℤ) : ℤ :=
  match w with
  | .refund _ => pay
  | .vestingBalance _ => 0
  | .burn _ => 0

end WorkerType

/-- What `worker_create` leaves: the pay is an amount, and a vesting balance of core is there. -/
structure Worker.Payable (core : FeeState) (w : Worker) : Prop where
  validate : w.validate = true
  balance : ∀ vbid, w.worker = .vestingBalance vbid →
    ∃ vbo, core.vestingBalances.find? vbid = some vbo ∧ vbo.vesting.balance.assetId = coreAsset

namespace FeeState

variable {s s' s'' : FeeState} {pay : ℤ}

/-- Workers have been paid: an amount has left the supply, and another one is in vesting balances or in the balance of the
null account. -/
structure Paid (refunded credited : ℤ) (s s' : FeeState) : Prop where
  headBlockTime : s'.headBlockTime = s.headBlockTime
  supply : s'.currentSupply = s.currentSupply - refunded
  fees : s'.accumulatedFees = s.accumulatedFees
  waiting : s'.pendingTotal + s'.fbaTotal = s.pendingTotal + s.fbaTotal
  credited : s'.vestingTotal + s'.balanceTotal = s.vestingTotal + s.balanceTotal + credited
  keeps : ObjectIndex.Keeps (fun vbo ↦ vbo.vesting.balance.assetId) s.vestingBalances s'.vestingBalances

theorem Paid.refl (s : FeeState) : Paid 0 0 s s where
  headBlockTime := rfl
  supply := (Int.sub_zero _).symm
  fees := rfl
  waiting := rfl
  credited := (Int.add_zero _).symm
  keeps := .refl _ _

theorem Paid.trans {a b a' b' : ℤ} (h : Paid a b s s') (h' : Paid a' b' s' s'') : Paid (a + a') (b + b') s s'' where
  headBlockTime := h'.headBlockTime.trans h.headBlockTime
  supply := by rw [h'.supply, h.supply, Int.sub_sub]
  fees := h'.fees.trans h.fees
  waiting := h'.waiting.trans h.waiting
  credited := by rw [h'.credited, h.credited, Int.add_assoc]
  keeps := h.keeps.trans h'.keeps

theorem Paid.payable {a b : ℤ} (h : Paid a b s s') {w : Worker} (hw : w.Payable s) : w.Payable s' := by
  refine ⟨hw.validate, fun vbid hvbid ↦ ?_⟩
  obtain ⟨vbo, hvbo, hasset⟩ := hw.balance vbid hvbid
  obtain ⟨vbo', hvbo', hasset'⟩ := h.keeps vbid vbo hvbo
  exact ⟨vbo', hvbo', hasset'.trans hasset⟩

/-- A deposit for a vesting worker. -/
theorem depositIn_paid {vbid : VestingBalanceId} {vbo : OwnedVestingBalance}
    (hvbo : s.vestingBalances.find? vbid = some vbo) (hasset : vbo.vesting.balance.assetId = coreAsset) (pay : ℤ) :
    ∃ s', s.depositIn vbid vbo pay true = .ok s' ∧ Paid 0 pay s s' := by
  have hadd : vbo.vesting.balance.add ⟨pay, coreAsset⟩ = .ok ⟨vbo.vesting.balance.amount + pay, coreAsset⟩ :=
    Asset.add_eq_ok.mpr ⟨hasset, by rw [hasset]⟩
  unfold depositIn
  rw [if_pos rfl, VestingBalance.deposit, hadd]
  refine ⟨_, rfl, rfl, (Int.sub_zero _).symm, rfl, rfl, ?_, fun j b hb ↦ ?_⟩
  · change (s.vestingBalances.modify vbid _).sum coreVesting + s.balanceTotal =
      s.vestingBalances.sum coreVesting + s.balanceTotal + pay
    rw [ObjectIndex.sum_modify _ hvbo, ObjectIndex.sum_eq_add_remove _ hvbo, coreVesting, coreVesting, if_pos rfl,
      if_pos hasset]
    dsimp only
    omega
  · dsimp only
    rw [ObjectIndex.find?_modify, hb]
    split_ifs with hj
    · refine ⟨_, rfl, ?_⟩
      rw [hj, hvbo] at hb
      obtain rfl := Option.some.inj hb
      exact hasset.symm
    · exact ⟨b, rfl, rfl⟩

/-- Core for the null account. -/
theorem adjustCore_paid (s : FeeState) (account : AccountId) (h : 0 ≤ pay) :
    ∃ s', s.adjustCore account pay = .ok s' ∧ Paid 0 pay s s' := by
  unfold adjustCore
  by_cases hzero : pay = 0
  · rw [if_pos hzero, hzero]
    exact ⟨s, rfl, .refl s⟩
  rw [if_neg hzero]
  cases hfind : s.coreBalances.find? account with
  | none =>
    dsimp only
    rw [fcAssert_of_true (lt_of_le_of_ne h (Ne.symm hzero))]
    refine ⟨_, rfl, rfl, (Int.sub_zero _).symm, rfl, rfl, ?_, .refl _ _⟩
    change s.vestingTotal + (s.coreBalances.insert account _).sum _ = s.vestingTotal + s.coreBalances.sum _ + pay
    rw [FlatMap.sum_insert, FlatMap.erase_of_find?_none hfind]
    dsimp only
    omega
  | some b =>
    dsimp only
    rw [if_neg (not_lt.mpr h)]
    refine ⟨_, rfl, rfl, (Int.sub_zero _).symm, rfl, rfl, ?_, .refl _ _⟩
    change s.vestingTotal + (s.coreBalances.insert account _).sum _ = s.vestingTotal + s.coreBalances.sum _ + pay
    rw [FlatMap.sum_insert, FlatMap.sum_eq_add_erase _ hfind]
    dsimp only
    omega

/-- **A worker gets its pay**, whatever its type. -/
theorem payWorker_spec {w : Worker} (hw : w.Payable s) (h : 0 ≤ pay) :
    ∃ t s', s.payWorker w.worker pay = .ok (t, s') ∧ Paid (w.worker.refunded pay) (pay - w.worker.refunded pay) s s' ∧
      ∀ vbid, t = .vestingBalance vbid → w.worker = .vestingBalance vbid := by
  cases hworker : w.worker with
  | refund totalBurned =>
    refine ⟨_, _, rfl, ⟨rfl, rfl, rfl, rfl, ?_, .refl _ _⟩, fun vbid heq ↦ by cases heq⟩
    rw [WorkerType.refunded, Int.sub_self, Int.add_zero]
    rfl
  | vestingBalance vbid =>
    obtain ⟨vbo, hvbo, hasset⟩ := hw.balance vbid hworker
    obtain ⟨s', hdeposit, hpaid⟩ := depositIn_paid hvbo hasset pay
    refine ⟨_, s', ?_, by rw [WorkerType.refunded, Int.sub_zero]; exact hpaid, fun _ heq ↦ heq⟩
    rw [payWorker, hvbo]
    dsimp only
    rw [hdeposit]
    rfl
  | burn totalBurned =>
    obtain ⟨s', hadjust, hpaid⟩ := adjustCore_paid s nullAccount h
    refine ⟨.burn (totalBurned + pay), s', ?_, by rw [WorkerType.refunded, Int.sub_zero]; exact hpaid,
      fun vbid heq ↦ by cases heq⟩
    rw [payWorker, hadjust]
    rfl

end FeeState

namespace Worker

/-- What a worker should ask for. -/
def exactPay (w : Worker) (passedTimeCount : ℤ) : ℤ := w.dailyPay * passedTimeCount / 86400000000

/-- The pay of a worker is exact if it fits. -/
theorem requestedPay_eq {w : Worker} (hw : w.validate = true) {passed : ℤ} (h₀ : 0 ≤ passed)
    (h : passed < 2 ^ 32 * 1000000) (hfits : w.exactPay passed < 2 ^ 63) :
    w.requestedPay passed = .ok (w.exactPay passed) := by
  obtain ⟨-, hpos, hmax⟩ := of_decide_eq_true hw
  rw [maxShareSupply] at hmax
  have hpay := toUInt128_eq hpos.le (by omega)
  have hpassed := toUInt128_eq h₀ (by omega)
  have hexact : w.exactPay passed = ((toUInt128 w.dailyPay * toUInt128 passed / 86400000000 : ℕ) : ℤ) := by
    rw [exactPay]
    push_cast
    rw [hpay, hpassed]
  have hproduct : toUInt128 w.dailyPay * toUInt128 passed < 2 ^ 128 := by
    have hmul := Nat.mul_lt_mul'' (show toUInt128 w.dailyPay < 2 ^ 63 by omega) (show toUInt128 passed < 2 ^ 63 by omega)
    exact hmul.trans (by norm_num)
  rw [hexact] at hfits ⊢
  unfold requestedPay
  rw [Nat.mod_eq_of_lt hproduct]
  generalize toUInt128 w.dailyPay * toUInt128 passed / 86400000000 = pay at hfits ⊢
  have hpay64 : pay < 2 ^ 63 := by omega
  dsimp only
  rw [fcAssert_of_true (by omega : pay < 2 ^ 64), toInt64_eq hpay64]
  rfl

theorem exactPay_nonneg {w : Worker} (hw : w.validate = true) {passed : ℤ} (h₀ : 0 ≤ passed) : 0 ≤ w.exactPay passed := by
  obtain ⟨-, hpos, -⟩ := of_decide_eq_true hw
  exact Int.ediv_nonneg (mul_nonneg hpos.le h₀) (by decide)

end Worker

/-! ### The payroll -/

/-- What the workers get. -/
def totalPay (payments : List Payment) : ℤ := (payments.map Payment.actualPay).sum

/-- What the refund workers give back. -/
def refundedPay (payments : List Payment) : ℤ := (payments.map fun q ↦ q.worker.worker.refunded q.actualPay).sum

/-- What vesting and burn workers get. -/
def creditedPay (payments : List Payment) : ℤ :=
  (payments.map fun q ↦ q.actualPay - q.worker.worker.refunded q.actualPay).sum

theorem totalPay_eq (payments : List Payment) : totalPay payments = refundedPay payments + creditedPay payments := by
  induction payments with
  | nil => rfl
  | cons q payments ih =>
    unfold totalPay refundedPay creditedPay at ih ⊢
    simp only [List.map_cons, List.sum_cons]
    omega

theorem pay_nonneg {payments : List Payment} (h : ∀ q ∈ payments, 0 ≤ q.actualPay) :
    0 ≤ refundedPay payments ∧ 0 ≤ creditedPay payments := by
  have hparts : ∀ q ∈ payments, 0 ≤ q.worker.worker.refunded q.actualPay ∧
      0 ≤ q.actualPay - q.worker.worker.refunded q.actualPay := by
    intro q hq
    have hpay := h q hq
    unfold WorkerType.refunded
    split <;> omega
  constructor
  · refine List.sum_nonneg fun x hx ↦ ?_
    obtain ⟨q, hq, rfl⟩ := List.mem_map.mp hx
    exact (hparts q hq).1
  · refine List.sum_nonneg fun x hx ↦ ?_
    obtain ⟨q, hq, rfl⟩ := List.mem_map.mp hx
    exact (hparts q hq).2

/-- The workers have been paid some payments. -/
structure Payroll.Paid (passedTimeCount : ℤ) (payments : List Payment) (p p' : Payroll) : Prop where
  payments_eq : p'.payments = p.payments ++ payments
  nonneg : ∀ q ∈ payments, 0 ≤ q.actualPay
  exact : ∀ q ∈ payments, q.requestedPay = q.worker.exactPay passedTimeCount
  budget_nonneg : 0 ≤ p'.budget
  budget_eq : p'.budget = p.budget - totalPay payments
  core : FeeState.Paid (refundedPay payments) (creditedPay payments) p.core p'.core
  workers : (∀ id w, p.workers.find? id = some w → w.Payable p.core) →
    ∀ id w, p'.workers.find? id = some w → w.Payable p'.core

namespace Payroll

variable {passed : ℤ} {p : Payroll}

theorem Paid.refl (h : 0 ≤ p.budget) : Paid passed [] p p where
  payments_eq := (List.append_nil _).symm
  nonneg _ hq := absurd hq List.not_mem_nil
  exact _ hq := absurd hq List.not_mem_nil
  budget_nonneg := h
  budget_eq := (Int.sub_zero _).symm
  core := .refl _
  workers h := h

/-- Without a budget nobody is paid. -/
theorem pay_of_budget_eq_zero (activeWorkers : List (WorkerId × Worker)) (h : p.budget = 0) :
    pay passed activeWorkers p = .ok p := by
  cases activeWorkers with
  | nil => rfl
  | cons e activeWorkers => rw [pay, if_neg (by omega)]

/-- **The workers are paid**, one after the other, until the budget is spent. -/
theorem pay_spec (h₀ : 0 ≤ passed) (h : passed < 2 ^ 32 * 1000000) (activeWorkers : List (WorkerId × Worker))
    (p : Payroll) (hbudget : 0 ≤ p.budget) (hpayable : ∀ e ∈ activeWorkers, e.2.Payable p.core)
    (hfits : ∀ e ∈ activeWorkers, e.2.exactPay passed < 2 ^ 63) :
    ∃ p' payments, pay passed activeWorkers p = .ok p' ∧ Paid passed payments p p' := by
  induction activeWorkers generalizing p with
  | nil => exact ⟨p, [], rfl, .refl hbudget⟩
  | cons e activeWorkers ih =>
    obtain ⟨id, w⟩ := e
    by_cases hsome : 0 < p.budget
    · have hw : w.Payable p.core := hpayable _ List.mem_cons_self
      have hrequested := Worker.requestedPay_eq hw.validate h₀ h (hfits _ List.mem_cons_self)
      have hactual : 0 ≤ min p.budget (w.exactPay passed) := le_min hbudget (Worker.exactPay_nonneg hw.validate h₀)
      obtain ⟨t, core, hpay, hpaid, ht⟩ := FeeState.payWorker_spec hw hactual
      rw [pay, if_pos hsome, hrequested, Except.ok_bind]
      dsimp only
      rw [hpay, Except.ok_bind]
      generalize hactualPay : min p.budget (w.exactPay passed) = actual at hactual hpaid ⊢
      -- the others can still be paid: only this worker's balance has grown
      have hrest : ∀ e ∈ activeWorkers, e.2.Payable core := fun e he ↦
        hpaid.payable (hpayable e (List.mem_cons_of_mem _ he))
      obtain ⟨p', payments, hrun, hdone⟩ := ih
        { budget := p.budget - actual
          core := core
          workers := p.workers.modify id fun w ↦ { w with worker := t }
          payments := p.payments ++ [⟨id, w, w.exactPay passed, actual⟩] }
        (by dsimp only; omega) hrest fun e he ↦ hfits e (List.mem_cons_of_mem _ he)
      refine ⟨p', ⟨id, w, w.exactPay passed, actual⟩ :: payments, hrun, ?_⟩
      refine
        { payments_eq := by rw [hdone.payments_eq, List.append_assoc]; rfl
          nonneg := fun q hq ↦ ?_
          exact := fun q hq ↦ ?_
          budget_nonneg := hdone.budget_nonneg
          budget_eq := ?_
          core := hpaid.trans hdone.core
          workers := fun hall ↦ hdone.workers fun j v hv ↦ ?_ }
      · rcases List.mem_cons.mp hq with rfl | hq
        · exact hactual
        · exact hdone.nonneg q hq
      · rcases List.mem_cons.mp hq with rfl | hq
        · rfl
        · exact hdone.exact q hq
      · rw [hdone.budget_eq]
        unfold totalPay
        rw [List.map_cons, List.sum_cons]
        dsimp only
        omega
      · dsimp only at hv
        rw [FlatMap.find?_modify] at hv
        split_ifs at hv with hj
        · obtain ⟨u, hu, rfl⟩ := Option.map_eq_some_iff.mp hv
          have hold := hpaid.payable (hall j u hu)
          refine ⟨hold.validate, fun vbid hvbid ↦ ?_⟩
          exact (hpaid.payable hw).balance vbid (ht vbid hvbid)
        · exact hpaid.payable (hall j v hv)
    · refine ⟨p, [], ?_, .refl hbudget⟩
      rw [pay, if_neg hsome]

end Payroll

/-! ### The budget -/

namespace BudgetState

variable {s s' : BudgetState}

/-- Core that is in circulation. -/
def circulating (s : BudgetState) : ℤ :=
  s.core.pendingTotal + s.core.fbaTotal + s.core.vestingTotal + s.core.balanceTotal + s.elsewhere

/-- **All core is accounted for**, and the workers can be paid. -/
structure Sound (s : BudgetState) : Prop where
  circulating_nonneg : 0 ≤ s.circulating
  fees_nonneg : 0 ≤ s.core.accumulatedFees
  witnessBudget_nonneg : 0 ≤ s.witnessBudget
  supply_eq : s.core.currentSupply = s.circulating + s.core.accumulatedFees + s.witnessBudget
  supply_le : s.core.currentSupply ≤ s.maxSupply
  maxSupply_lt : s.maxSupply < 2 ^ 63
  workers : ∀ id w, s.workers.find? id = some w → w.Payable s.core
  parameters : s.parameters.validate = true
  pendingParameters : ∀ p, s.pendingParameters = some p → p.validate = true

theorem Sound.reserve_bounds (h : s.Sound) : 0 ≤ s.reserve ∧ s.reserve < 2 ^ 63 := by
  have hcirculating := h.circulating_nonneg
  have hfees := h.fees_nonneg
  have hwitness := h.witnessBudget_nonneg
  have hsupply := h.supply_eq
  have hle := h.supply_le
  have hmax := h.maxSupply_lt
  unfold reserve
  omega

/-- What the total should be: a part of the reserve for each second, rounded up, but no more than the reserve. -/
def exactBudget (s : BudgetState) : ℤ :=
  if s.lastBudgetTime = 0 ∨ s.core.headBlockTime ≤ s.lastBudgetTime then 0
  else min ((s.reserve * (s.core.headBlockTime.toNat - s.lastBudgetTime.toNat : ℕ) * 17 + (2 ^ 32 - 1)) / 2 ^ 32) s.reserve

theorem totalBudget_eq (h₀ : 0 ≤ s.reserve) (h : s.reserve < 2 ^ 63) :
    s.initializeBudgetRecord.totalBudget = s.exactBudget := by
  unfold initializeBudgetRecord exactBudget
  dsimp only
  by_cases hfirst : s.lastBudgetTime = 0 ∨ s.core.headBlockTime ≤ s.lastBudgetTime
  · rw [if_pos hfirst, if_pos hfirst]
  rw [if_neg hfirst, if_neg hfirst]
  have hreserve := toUInt128_eq h₀ h
  generalize s.reserve = reserve at h₀ h hreserve ⊢
  generalize toUInt128 reserve = r at hreserve ⊢
  have hdt : s.core.headBlockTime.toNat - s.lastBudgetTime.toNat < 2 ^ 32 :=
    lt_of_le_of_lt (Nat.sub_le _ _) s.core.headBlockTime.toNat_lt
  generalize s.core.headBlockTime.toNat - s.lastBudgetTime.toNat = dt at hdt ⊢
  subst hreserve
  have hr : r < 2 ^ 63 := by omega
  have hmul : r * dt < 2 ^ 63 * 2 ^ 32 := Nat.mul_lt_mul'' hr hdt
  -- nothing wraps
  rw [Nat.mod_eq_of_lt (hmul.trans (by norm_num)), Nat.mod_eq_of_lt (show r * dt * 17 < 2 ^ 128 by omega),
    Nat.mod_eq_of_lt (show r * dt * 17 + (2 ^ 32 - 1) < 2 ^ 128 by omega)]
  have hcast : ((r : ℤ) * dt * 17 + (2 ^ 32 - 1)) / 2 ^ 32 = ((r * dt * 17 + (2 ^ 32 - 1)) / 2 ^ 32 : ℕ) := by
    push_cast
    rfl
  rw [hcast]
  generalize (r * dt * 17 + (2 ^ 32 - 1)) / 2 ^ 32 = budget
  split_ifs with hlt
  · rw [Nat.mod_eq_of_lt (by omega : budget < 2 ^ 64), toInt64_eq (by omega), min_eq_left (by omega)]
  · rw [min_eq_right (by omega)]

theorem record_sources (s : BudgetState) : s.initializeBudgetRecord.fromAccumulatedFees = s.core.accumulatedFees ∧
    s.initializeBudgetRecord.fromUnusedWitnessBudget = s.witnessBudget := by
  unfold initializeBudgetRecord
  dsimp only
  split_ifs <;> exact ⟨rfl, rfl⟩

theorem exactBudget_bounds (h₀ : 0 ≤ s.reserve) : 0 ≤ s.exactBudget ∧ s.exactBudget ≤ s.reserve := by
  unfold exactBudget
  split_ifs
  · exact ⟨le_rfl, h₀⟩
  · refine ⟨le_min (Int.ediv_nonneg ?_ (by norm_num)) h₀, min_le_right _ _⟩
    have hmul : 0 ≤ s.reserve * (s.core.headBlockTime.toNat - s.lastBudgetTime.toNat : ℕ) :=
      mul_nonneg h₀ (Int.natCast_nonneg _)
    omega

/-- The workers' part is a part of what is left, whatever the parameter is. -/
theorem workerBudget_bounds (s : BudgetState) {availableFunds : ℤ} (h₀ : 0 ≤ availableFunds)
    (h : availableFunds < 2 ^ 63) :
    0 ≤ s.workerBudget availableFunds ∧ s.workerBudget availableFunds ≤ availableFunds := by
  have havailable := toUInt128_eq h₀ h
  unfold workerBudget
  dsimp only
  generalize toUInt128 s.parameters.workerBudgetPerDay *
    (s.nextMaintenanceTime.toNat - s.core.headBlockTime.toNat) % 2 ^ 128 / 86400 = budget
  split_ifs with hle
  · exact ⟨h₀, le_rfl⟩
  · rw [Nat.mod_eq_of_lt (by omega : budget < 2 ^ 64), toInt64_eq (by omega)]
    omega

/-- **The pay fits.** The next maintenance lies ahead. The pay of a witness is not negative, and its product with the
number of blocks has 63 bits. So has the pay of each worker that counts, once there has been a budget. -/
structure PayFits (s : BudgetState) : Prop where
  ahead : s.core.headBlockTime.toNat < s.nextMaintenanceTime.toNat
  witnessPay_nonneg : 0 ≤ s.parameters.witnessPayPerBlock
  witnessPay_lt : s.parameters.witnessPayPerBlock * s.blocksToMaint < 2 ^ 63
  workerPay_lt : s.lastBudgetTime ≠ 0 → ∀ id w, s.workers.find? id = some w → w.isActive s.core.headBlockTime = true →
    0 < w.approvingStake → w.exactPay s.passedTimeCount < 2 ^ 63

/-- **The budget is exact**: what is asked for is what should be, no pay is negative, and what is spent comes out of the
reserve. -/
structure BudgetExact (s s' : BudgetState) (record : BudgetRecord) (payments : List Payment) : Prop where
  reserve_fits : 0 ≤ s.reserve ∧ s.reserve < 2 ^ 63
  requested : record.requestedWitnessBudget = s.parameters.witnessPayPerBlock * s.blocksToMaint
  requestedPay : ∀ q ∈ payments, q.requestedPay = q.worker.exactPay s.passedTimeCount
  witnessBudget_nonneg : 0 ≤ record.witnessBudget
  pay_nonneg : ∀ q ∈ payments, 0 ≤ q.actualPay
  totalPay_nonneg : 0 ≤ totalPay payments
  spent_le : record.witnessBudget + totalPay payments ≤ record.totalBudget
  totalBudget_eq : record.totalBudget = s.exactBudget
  totalBudget_le : record.totalBudget ≤ s.reserve
  supply_le : s'.core.currentSupply ≤ s'.maxSupply
  supply_eq : s'.core.currentSupply = s.core.currentSupply + record.witnessBudget + creditedPay payments -
    s.core.accumulatedFees - s.witnessBudget

theorem passedTimeCount_lt (s : BudgetState) : s.passedTimeCount < 2 ^ 32 * 1000000 := by
  have hlt := s.core.headBlockTime.toNat_lt
  unfold passedTimeCount
  omega

/-- The workers are paid out of their budget. -/
theorem Sound.payroll (h : s.Sound) (hfits : s.PayFits) {budget : ℤ} (h₀ : 0 ≤ budget) (hle : budget ≤ s.exactBudget) :
    ∃ p' payments, Payroll.pay s.passedTimeCount s.activeWorkers { budget := budget, core := s.core, workers := s.workers } =
        .ok p' ∧
      Payroll.Paid s.passedTimeCount payments { budget := budget, core := s.core, workers := s.workers } p' := by
  by_cases hfirst : s.lastBudgetTime = 0 ∨ s.core.headBlockTime ≤ s.lastBudgetTime
  -- there is nothing to pay
  · rw [exactBudget, if_pos hfirst] at hle
    exact ⟨_, [], Payroll.pay_of_budget_eq_zero _ (le_antisymm hle h₀), .refl h₀⟩
  · obtain ⟨hstarted, hlater⟩ := not_or.mp hfirst
    have hactive : ∀ e ∈ s.activeWorkers, s.workers.find? e.1 = some e.2 ∧ e.2.isActive s.core.headBlockTime = true ∧
        0 < e.2.approvingStake := by
      intro e he
      obtain ⟨hmem, hcond⟩ := List.mem_filter.mp (List.mem_mergeSort.mp he)
      exact ⟨FlatMap.find?_eq_some_iff.mpr hmem, of_decide_eq_true hcond⟩
    refine Payroll.pay_spec ?_ s.passedTimeCount_lt _ _ h₀ (fun e he ↦ ?_) fun e he ↦ ?_
    · have hlt := UInt32.lt_iff_toNat_lt.mp (UInt32.not_le.mp hlater)
      unfold passedTimeCount
      omega
    · exact h.workers e.1 e.2 (hactive e he).1
    · exact hfits.workerPay_lt hstarted e.1 e.2 (hactive e he).1 (hactive e he).2.1 (hactive e he).2.2

/-- **A budget that fits is exact**, and leaves all core accounted for. -/
theorem Sound.processBudget (h : s.Sound) (hfits : s.PayFits) :
    ∃ s' record payments, s.processBudget = .ok (s', record, payments) ∧ BudgetExact s s' record payments ∧ s'.Sound := by
  obtain ⟨hreserve₀, hreserve⟩ := h.reserve_bounds
  obtain ⟨hexact₀, hexact⟩ := exactBudget_bounds hreserve₀
  have htotal := totalBudget_eq hreserve₀ hreserve
  -- the 64-bit product of the requested witness pay does not wrap
  have hproduct : (s.parameters.witnessPayPerBlock * s.blocksToMaint).bmod (2 ^ 64) =
      s.parameters.witnessPayPerBlock * s.blocksToMaint := by
    have hnonneg : 0 ≤ s.parameters.witnessPayPerBlock * s.blocksToMaint :=
      mul_nonneg hfits.witnessPay_nonneg (Int.natCast_nonneg _)
    have hlt := hfits.witnessPay_lt
    generalize s.parameters.witnessPayPerBlock * s.blocksToMaint = product at hnonneg hlt ⊢
    exact Int.bmod_eq_of_le (by omega) (by omega)
  have hrequested₀ : 0 ≤ s.parameters.witnessPayPerBlock * s.blocksToMaint :=
    mul_nonneg hfits.witnessPay_nonneg (Int.natCast_nonneg _)
  have hinterval : 0 < s.parameters.blockInterval.toNat := by
    have hvalid := h.parameters
    simp only [ChainParameters.validate, Bool.and_eq_true, decide_eq_true_iff] at hvalid
    exact hvalid.1.1.1.1.1.1.2
  unfold BudgetState.processBudget
  rw [fcAssert_of_true hfits.ahead, Except.ok_bind, fcAssert_of_true hinterval, Except.ok_bind]
  dsimp only
  rw [hproduct, htotal]
  generalize hrequested : s.parameters.witnessPayPerBlock * s.blocksToMaint = requested at hrequested₀ ⊢
  have hwitness₀ : 0 ≤ min requested s.exactBudget := le_min hrequested₀ hexact₀
  have hwitness : min requested s.exactBudget ≤ s.exactBudget := min_le_right _ _
  generalize min requested s.exactBudget = witnessBudget at hwitness₀ hwitness ⊢
  obtain ⟨hworker₀, hworker⟩ := s.workerBudget_bounds (show 0 ≤ s.exactBudget - witnessBudget by omega) (by omega)
  generalize s.workerBudget (s.exactBudget - witnessBudget) = workerBudget at hworker₀ hworker ⊢
  obtain ⟨p', payments, hrun, hpaid⟩ := h.payroll hfits hworker₀ (by omega : workerBudget ≤ s.exactBudget)
  rw [hrun, Except.ok_bind]
  have hbudget := hpaid.budget_eq
  have hleft := hpaid.budget_nonneg
  have htotalPay := totalPay_eq payments
  have hsupply := hpaid.core.supply
  obtain ⟨hrefunded₀, hcredited₀⟩ := pay_nonneg hpaid.nonneg
  obtain ⟨hfees, hunused⟩ := s.record_sources
  rw [hfees, hunused]
  dsimp only at hbudget hsupply
  -- what the witnesses and workers get comes out of the reserve
  have hreserve_eq : s.reserve = s.maxSupply - s.core.currentSupply + s.core.accumulatedFees + s.witnessBudget := rfl
  have hsupply_eq := h.supply_eq
  have hcirculating := h.circulating_nonneg
  have hcredited := hpaid.core.credited
  have hwaiting := hpaid.core.waiting
  dsimp only at hcredited hwaiting
  refine ⟨_, _, payments, by rw [hpaid.payments_eq]; rfl, ?_, ?_⟩
  · refine ⟨⟨hreserve₀, hreserve⟩, hrequested.symm, hpaid.exact, hwitness₀, hpaid.nonneg, by omega, ?_, rfl, hexact, ?_, ?_⟩
    · dsimp only
      omega
    · dsimp only
      omega
    · dsimp only
      omega
  · refine
      { circulating_nonneg := ?_
        fees_nonneg := le_rfl
        witnessBudget_nonneg := hwitness₀
        supply_eq := ?_
        supply_le := ?_
        maxSupply_lt := h.maxSupply_lt
        workers := fun id w hw ↦ ⟨(hpaid.workers h.workers id w hw).validate, (hpaid.workers h.workers id w hw).balance⟩
        parameters := h.parameters
        pendingParameters := h.pendingParameters }
    · unfold circulating at hcirculating ⊢
      dsimp only
      change 0 ≤ p'.core.pendingTotal + p'.core.fbaTotal + p'.core.vestingTotal + p'.core.balanceTotal + s.elsewhere
      omega
    · unfold circulating at hsupply_eq ⊢
      dsimp only
      change _ = p'.core.pendingTotal + p'.core.fbaTotal + p'.core.vestingTotal + p'.core.balanceTotal + s.elsewhere + 0 +
        witnessBudget
      omega
    · dsimp only
      omega

/-! ### Runs -/

/-- What happens on the chain, as far as the budget is concerned. -/
inductive Event where
  | elsewhere
  | witnessPay
  | update
  | install
  | budget

/-- Whatever else happens moves core, but does not lose or make any: what comes into circulation or to the fees comes out
of the other or is issued, below the maximum. Workers may come, go, and get votes; time passes. -/
structure Elsewhere (s s' : BudgetState) : Prop where
  parameters : s'.parameters = s.parameters
  pendingParameters : s'.pendingParameters = s.pendingParameters
  maxSupply : s'.maxSupply = s.maxSupply
  nextMaintenanceTime : s'.nextMaintenanceTime = s.nextMaintenanceTime
  lastBudgetTime : s'.lastBudgetTime = s.lastBudgetTime
  witnessBudget : s'.witnessBudget = s.witnessBudget
  circulating_nonneg : 0 ≤ s'.circulating
  fees_nonneg : 0 ≤ s'.core.accumulatedFees
  conserved : s'.circulating + s'.core.accumulatedFees - s'.core.currentSupply =
    s.circulating + s.core.accumulatedFees - s.core.currentSupply
  supply_le : s'.core.currentSupply ≤ s'.maxSupply
  workers : ∀ id w, s'.workers.find? id = some w → w.Payable s'.core

/-- The steps of the chain. -/
inductive Step : BudgetState → Event → BudgetState → Prop
  | elsewhere {s s' : BudgetState} (h : Elsewhere s s') : Step s .elsewhere s'
  | witnessPay {s s' : BudgetState} (payVb : Option VestingBalanceId) (vestingSeconds : UInt32) (witnessAccount : AccountId)
      (hvb : ∀ vbid, payVb = some vbid →
        ∃ vbo, s.core.vestingBalances.find? vbid = some vbo ∧ vbo.vesting.balance.assetId = coreAsset)
      (h : s.updateSigningWitness payVb vestingSeconds witnessAccount = .ok s') : Step s .witnessPay s'
  | update {s s' : BudgetState} (p : BudgetParameters) (h : s.updateGlobalParameters p = .ok s') : Step s .update s'
  | install (s : BudgetState) (headBlockNum : UInt32) : Step s .install (s.install headBlockNum)
  | budget {s s' : BudgetState} (record : BudgetRecord) (payments : List Payment)
      (h : s.processBudget = .ok (s', record, payments)) : Step s .budget s'

/-- A run whose steps meet a condition on the state before them. -/
inductive Run (P : Event → BudgetState → Prop) (s₀ : BudgetState) : BudgetState → Prop
  | start : Run P s₀ s₀
  | step {s s' : BudgetState} (h : Run P s₀ s) (e : Event) (hmeets : P e s) (hstep : Step s e s') : Run P s₀ s'

/-- The pay fits where it is paid: witnesses do not pay for their blocks, and the budget fits. -/
structure Event.Fits (e : Event) (s : BudgetState) : Prop where
  witnessPay : e = .witnessPay → 0 ≤ s.parameters.witnessPayPerBlock
  budget : e = .budget → s.PayFits

/-- The chain at its start. -/
structure Genesis (s : BudgetState) : Prop where
  parameters : s.parameters.validate = true
  pendingParameters : s.pendingParameters = none
  witnessBudget : s.witnessBudget = 0
  lastBudgetTime : s.lastBudgetTime = 0
  fees : s.core.accumulatedFees = 0
  circulating_nonneg : 0 ≤ s.circulating
  supply_eq : s.core.currentSupply = s.circulating
  supply_le : s.core.currentSupply ≤ s.maxSupply
  maxSupply_lt : s.maxSupply < 2 ^ 63
  workers : ∀ id w, s.workers.find? id = some w → w.Payable s.core

theorem Genesis.sound (h : s.Genesis) : s.Sound where
  circulating_nonneg := h.circulating_nonneg
  fees_nonneg := h.fees.ge
  witnessBudget_nonneg := h.witnessBudget.ge
  supply_eq := by rw [h.fees, h.witnessBudget, Int.add_zero, Int.add_zero, h.supply_eq]
  supply_le := h.supply_le
  maxSupply_lt := h.maxSupply_lt
  workers := h.workers
  parameters := h.parameters
  pendingParameters p hp := by
    rw [h.pendingParameters] at hp
    cases hp

theorem Sound.elsewhere (h : s.Sound) (hstep : Elsewhere s s') : s'.Sound where
  circulating_nonneg := hstep.circulating_nonneg
  fees_nonneg := hstep.fees_nonneg
  witnessBudget_nonneg := by
    rw [hstep.witnessBudget]
    exact h.witnessBudget_nonneg
  supply_eq := by
    have hconserved := hstep.conserved
    have hsupply := h.supply_eq
    rw [hstep.witnessBudget]
    omega
  supply_le := hstep.supply_le
  maxSupply_lt := by
    rw [hstep.maxSupply]
    exact h.maxSupply_lt
  workers := hstep.workers
  parameters := by
    rw [hstep.parameters]
    exact h.parameters
  pendingParameters := by
    rw [hstep.pendingParameters]
    exact h.pendingParameters

/-- The pay of a witness comes out of the budget. -/
theorem Sound.updateSigningWitness (h : s.Sound) (hpay : 0 ≤ s.parameters.witnessPayPerBlock)
    {payVb : Option VestingBalanceId} {vestingSeconds : UInt32} {witnessAccount : AccountId}
    (hvb : ∀ vbid, payVb = some vbid →
      ∃ vbo, s.core.vestingBalances.find? vbid = some vbo ∧ vbo.vesting.balance.assetId = coreAsset)
    (hstep : s.updateSigningWitness payVb vestingSeconds witnessAccount = .ok s') : s'.Sound := by
  have hwitness₀ : 0 ≤ min s.parameters.witnessPayPerBlock s.witnessBudget := le_min hpay h.witnessBudget_nonneg
  have hwitness : min s.parameters.witnessPayPerBlock s.witnessBudget ≤ s.witnessBudget := min_le_right _ _
  unfold BudgetState.updateSigningWitness at hstep
  dsimp only at hstep
  generalize min s.parameters.witnessPayPerBlock s.witnessBudget = pay at hwitness₀ hwitness hstep
  obtain ⟨o, y, hdeposit, hgrown, -⟩ := @FeeState.depositLazyVesting_spec s.core pay payVb hvb vestingSeconds .witness
    witnessAccount true
  rw [hdeposit, Except.ok_bind] at hstep
  obtain rfl := Except.ok.inj hstep
  have hcirculating := h.circulating_nonneg
  have hsupply := h.supply_eq
  have hgrown' : y.sum FeeState.coreVesting = s.core.vestingTotal + pay := hgrown.total
  unfold circulating at hcirculating hsupply
  refine
    { circulating_nonneg := ?_
      fees_nonneg := h.fees_nonneg
      witnessBudget_nonneg := by dsimp only; omega
      supply_eq := ?_
      supply_le := h.supply_le
      maxSupply_lt := h.maxSupply_lt
      workers := fun id w hw ↦ ⟨(h.workers id w hw).validate, fun vbid hvbid ↦ ?_⟩
      parameters := h.parameters
      pendingParameters := h.pendingParameters }
  · change 0 ≤ s.core.pendingTotal + s.core.fbaTotal + y.sum FeeState.coreVesting + s.core.balanceTotal + s.elsewhere
    omega
  · change s.core.currentSupply = s.core.pendingTotal + s.core.fbaTotal + y.sum FeeState.coreVesting +
      s.core.balanceTotal + s.elsewhere + s.core.accumulatedFees + (s.witnessBudget - pay)
    omega
  · obtain ⟨vbo, hvbo, hasset⟩ := (h.workers id w hw).balance vbid hvbid
    obtain ⟨vbo', hvbo', hasset'⟩ := hgrown.keeps vbid vbo hvbo
    exact ⟨vbo', hvbo', hasset'.trans hasset⟩

/-- **A step that fits leaves all core accounted for.** -/
theorem Sound.step (h : s.Sound) {e : Event} (hfits : e.Fits s) (hstep : Step s e s') : s'.Sound := by
  cases hstep with
  | elsewhere helsewhere => exact h.elsewhere helsewhere
  | witnessPay payVb vestingSeconds witnessAccount hvb hpaid =>
    exact h.updateSigningWitness (hfits.witnessPay rfl) hvb hpaid
  | update p hupdate =>
    obtain ⟨_, hvalid, hupdate⟩ := Except.bind_eq_ok.1 hupdate
    obtain rfl := Except.ok.inj hupdate
    refine { h with pendingParameters := fun q hq ↦ ?_ }
    obtain rfl := Option.some.inj hq
    exact fcAssert_eq_ok.mp hvalid
  | install headBlockNum =>
    refine { h with parameters := ?_, pendingParameters := fun q hq ↦ by cases hq }
    change (s.pendingParameters.getD s.parameters).validate = true
    cases hpending : s.pendingParameters with
    | none => exact h.parameters
    | some q => exact h.pendingParameters q hpending
  | budget record payments hbudget =>
    obtain ⟨s₁, _, _, hprocess, -, hsound⟩ := h.processBudget (hfits.budget rfl)
    rw [hprocess] at hbudget
    obtain rfl := (Prod.mk.inj (Except.ok.inj hbudget)).1
    exact hsound

theorem Run.sound {s₀ : BudgetState} (h₀ : s₀.Genesis) (h : Run Event.Fits s₀ s) : s.Sound := by
  induction h with
  | start => exact h₀.sound
  | step _ e hmeets hstep ih => exact ih.step hmeets hstep

end BudgetState

/-- **In a run in which the pay fits, every budget is exact.** -/
theorem budget_exact_of_fitting {s₀ s : BudgetState} (h₀ : s₀.Genesis)
    (hrun : BudgetState.Run BudgetState.Event.Fits s₀ s) (hfits : s.PayFits) :
    ∃ s' record payments, s.processBudget = .ok (s', record, payments) ∧
      BudgetState.BudgetExact s s' record payments := by
  obtain ⟨s', record, payments, hprocess, hexact, -⟩ := (BudgetState.Run.sound h₀ hrun).processBudget hfits
  exact ⟨s', record, payments, hprocess, hexact⟩

/-- A chain at its start, with a supply of a million and a worker. -/
def budgetChain : BudgetState where
  parameters := { feeParameters with witnessPayPerBlock := 1000, workerBudgetPerDay := 50000000 }
  maxSupply := 1000000000000000
  nextMaintenanceTime := 1600000000
  workers := (∅ : FlatMap WorkerId Worker).insert 0
    { workBeginDate := 1500000000
      workEndDate := 1700000000
      dailyPay := 10000
      worker := .burn 0
      totalVotesFor := 1000000 }
  core :=
    { headBlockTime := 1600000000
      cashbackVestingPeriodSeconds := 31536000
      coreBalances := (∅ : FlatMap AccountId CoreBalance).insert 17 { balance := 1000000 }
      currentSupply := 1000000
      accumulatedFees := 0 }

theorem genesis_budgetChain : budgetChain.Genesis where
  parameters := by decide
  pendingParameters := rfl
  witnessBudget := rfl
  lastBudgetTime := rfl
  fees := rfl
  circulating_nonneg := by decide
  supply_eq := by decide
  supply_le := by decide
  maxSupply_lt := by decide
  workers id w hw := by
    rw [budgetChain, FlatMap.find?_insert] at hw
    split_ifs at hw
    · obtain rfl := Option.some.inj hw
      exact ⟨by decide, fun vbid hvbid ↦ by cases hvbid⟩
    · cases hw

/-- The only worker that counts is the list of those that can be paid. -/
theorem BudgetState.activeWorkers_eq_singleton {s : BudgetState} {e : WorkerId × Worker}
    (h : (s.workers.toList.filter fun e ↦ e.2.isActive s.core.headBlockTime ∧ 0 < e.2.approvingStake) = [e]) :
    s.activeWorkers = [e] := by
  rw [activeWorkers, h]
  exact List.mergeSort_singleton _

/-- The chain after its first budget, which releases nothing. -/
def afterFirstBudget : BudgetState := { budgetChain.install 2 with lastBudgetTime := 1600000000 }

/-- The chain a day later, where fees have been collected from the account. -/
def nextDay : BudgetState :=
  { afterFirstBudget with
    core := { afterFirstBudget.core with
      headBlockTime := afterFirstBudget.nextMaintenanceTime
      coreBalances := (∅ : FlatMap AccountId CoreBalance).insert 17 { balance := 999500 }
      accumulatedFees := 500 } }

theorem budgetChain_worker {id : WorkerId} {w : Worker} (hw : budgetChain.workers.find? id = some w) :
    w.validate = true ∧ w.dailyPay = 10000 ∧ ∀ balance, w.worker ≠ .vestingBalance balance := by
  rw [budgetChain, FlatMap.find?_insert] at hw
  split_ifs at hw
  · obtain rfl := Option.some.inj hw
    exact ⟨by decide, rfl, fun balance h ↦ by cases h⟩
  · cases hw

/-- The run over the first budget and a day. -/
theorem run_nextDay : BudgetState.Run BudgetState.Event.Fits budgetChain (nextDay.install 17282) := by
  have hinstall : BudgetState.Run BudgetState.Event.Fits budgetChain (budgetChain.install 2) :=
    .step .start .install ⟨(fun h ↦ by cases h), (fun h ↦ by cases h)⟩ (.install _ 2)
  have hactive : (budgetChain.install 2).activeWorkers = budgetChain.workers.toList :=
    BudgetState.activeWorkers_eq_singleton rfl
  have hbudget : ∃ record payments, (budgetChain.install 2).processBudget = .ok (afterFirstBudget, record, payments) := by
    unfold BudgetState.processBudget
    rw [hactive]
    exact ⟨_, _, rfl⟩
  obtain ⟨record, payments, hbudget⟩ := hbudget
  refine .step (.step (.step hinstall .budget ⟨(fun h ↦ by cases h), fun _ ↦ ?_⟩ (.budget record payments hbudget))
    .elsewhere ⟨(fun h ↦ by cases h), (fun h ↦ by cases h)⟩ (.elsewhere ?_))
    .install ⟨(fun h ↦ by cases h), (fun h ↦ by cases h)⟩ (.install nextDay 17282)
  · exact ⟨by decide, by decide, by decide, fun h ↦ absurd rfl h⟩
  · refine ⟨rfl, rfl, rfl, rfl, rfl, rfl, by decide, by decide, by decide, by decide, fun id w hw ↦ ?_⟩
    obtain ⟨hvalid, -, hworker⟩ := budgetChain_worker hw
    exact ⟨hvalid, fun vbid hvbid ↦ absurd hvbid (hworker vbid)⟩

/-- **The second budget**: a part of the reserve is released for the witnesses, and the worker gets the pay of a day. -/
theorem budget_exact_second :
    BudgetState.Run BudgetState.Event.Fits budgetChain (nextDay.install 17282) ∧
      ∃ s' record payment, (nextDay.install 17282).processBudget = .ok (s', record, [payment]) ∧
        BudgetState.BudgetExact (nextDay.install 17282) s' record [payment] ∧
        0 < record.totalBudget ∧ record.witnessBudget = 17280000 ∧ payment.actualPay = 10000 ∧
        s'.core.accumulatedFees = 0 := by
  have hfits : (nextDay.install 17282).PayFits := by
    refine ⟨by decide, by decide, by decide, fun _ id w hw _ _ ↦ ?_⟩
    rw [Worker.exactPay, (budgetChain_worker hw).2.1]
    decide
  obtain ⟨s', record, payments, hprocess, hexact⟩ :=
    budget_exact_of_fitting genesis_budgetChain run_nextDay hfits
  have hactive : (nextDay.install 17282).activeWorkers = budgetChain.workers.toList :=
    BudgetState.activeWorkers_eq_singleton rfl
  obtain ⟨s₁, record₁, payment, hpaid, hrecord⟩ : ∃ s₁ record₁ payment,
      (nextDay.install 17282).processBudget = .ok (s₁, record₁, [payment]) ∧ 0 < record₁.totalBudget ∧
        record₁.witnessBudget = 17280000 ∧ payment.actualPay = 10000 ∧ s₁.core.accumulatedFees = 0 := by
    unfold BudgetState.processBudget
    rw [hactive]
    exact ⟨_, _, _, rfl, by decide, by decide, by decide, rfl⟩
  obtain ⟨rfl, hpair⟩ := Prod.mk.inj (Except.ok.inj (hprocess.symm.trans hpaid))
  obtain ⟨rfl, rfl⟩ := Prod.mk.inj hpair
  exact ⟨run_nextDay, _, _, _, hprocess, hexact, hrecord⟩

/-- Parameters with which a witness pays for its blocks. -/
def negativePay : BudgetParameters := { feeParameters with witnessPayPerBlock := -1, workerBudgetPerDay := 50000000 }

/-- **The parameters are accepted, and the budget of the witnesses is negative**: with no reserve released, the workers get
what the witnesses are to pay. -/
theorem budget_unbounded :
    budgetChain.Genesis ∧ negativePay.validate = true ∧ ∃ s, BudgetState.Run (fun _ _ ↦ True) budgetChain s ∧
      s.parameters = negativePay ∧ ∃ s' record payments, s.processBudget = .ok (s', record, payments) ∧
        record.totalBudget = 0 ∧ record.witnessBudget = -17280 ∧ ¬BudgetState.BudgetExact s s' record payments := by
  refine ⟨genesis_budgetChain, by decide, { budgetChain with pendingParameters := some negativePay }.install 2,
    .step (.step .start .update trivial (.update negativePay (by rfl))) .install trivial (.install _ 2), rfl, ?_⟩
  have hactive : (BudgetState.install { budgetChain with pendingParameters := some negativePay } 2).activeWorkers =
      budgetChain.workers.toList := BudgetState.activeWorkers_eq_singleton rfl
  unfold BudgetState.processBudget
  rw [hactive]
  refine ⟨_, _, _, rfl, rfl, by decide, fun hexact ↦ ?_⟩
  exact absurd hexact.witnessBudget_nonneg (by decide)

end Playchain
