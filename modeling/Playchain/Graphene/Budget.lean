import Playchain.Graphene.FeeDistribution

/-!
# The budget of the chain

`process_budget`: at each maintenance a part of the reserve of core is released, for the witnesses of the next interval and
for the workers. What has been collected as fees and what the witnesses have not used counts as reserve.

Amounts of `share_type` are integers; where the code leaves that type, the products and conversions have the widths of the
code. The payments to workers are recorded (`Payment`).
-/

namespace Playchain

abbrev WorkerId := ℕ

/-- `chain_parameters`, with those of the budget -/
structure BudgetParameters extends ChainParameters where
  witnessPayPerBlock : ℤ
  workerBudgetPerDay : ℤ

/-! ### Workers -/

/-- `worker_type` -/
inductive WorkerType where
  | refund (totalBurned : ℤ)
  | vestingBalance (balance : VestingBalanceId)
  | burn (totalBurned : ℤ)

/-- `worker_object` -/
structure Worker where
  workBeginDate : UInt32
  workEndDate : UInt32
  dailyPay : ℤ
  worker : WorkerType
  totalVotesFor : UInt64 := 0
  totalVotesAgainst : UInt64 := 0

namespace Worker

/-- `worker_create_operation::validate`, of what the budget reads -/
def validate (w : Worker) : Bool :=
  w.workBeginDate < w.workEndDate ∧ 0 < w.dailyPay ∧ w.dailyPay < maxShareSupply

/-- `is_active` -/
def isActive (w : Worker) (now : UInt32) : Bool := w.workBeginDate ≤ now ∧ now ≤ w.workEndDate

/-- `approving_stake`, a difference of signed 64-bit integers -/
def approvingStake (w : Worker) : ℤ :=
  (toInt64 w.totalVotesFor.toNat - toInt64 w.totalVotesAgainst.toNat).bmod (2 ^ 64)

/-- What a worker asks for after some microseconds. The product has 128 bits, and 64 of them have to hold the result. -/
def requestedPay (w : Worker) (passedTimeCount : ℤ) : Except ChainError ℤ := do
  let pay := toUInt128 w.dailyPay * toUInt128 passedTimeCount % 2 ^ 128 / 86400000000
  fcAssert (pay < 2 ^ 64) "hi == 0"
  return toInt64 pay

end Worker

namespace FeeState

/-- `adjust_balance`, of core -/
def adjustCore (s : FeeState) (account : AccountId) (delta : ℤ) : Except ChainError FeeState := do
  if delta = 0 then return s
  match s.coreBalances.find? account with
  | none =>
    fcAssert (0 < delta) "Insufficient Balance"
    return { s with coreBalances := s.coreBalances.insert account { balance := delta, maintenanceFlag := true } }
  | some b =>
    if delta < 0 then fcAssert (-delta ≤ b.balance) "Insufficient Balance"
    return { s with
      coreBalances := s.coreBalances.insert account { balance := b.balance + delta, maintenanceFlag := true } }

/-- `pay_worker`, of the three types -/
def payWorker (s : FeeState) (w : WorkerType) (pay : ℤ) : Except ChainError (WorkerType × FeeState) :=
  match w with
  | .refund totalBurned => return (.refund (totalBurned + pay), { s with currentSupply := s.currentSupply - pay })
  | .vestingBalance balance =>
    match s.vestingBalances.find? balance with
    | none => throw (.assertion "Unable to find Object")
    | some vbo => do return (.vestingBalance balance, ← s.depositIn balance vbo pay true)
  | .burn totalBurned => do return (.burn (totalBurned + pay), ← s.adjustCore nullAccount pay)

end FeeState

/-- A worker is paid. -/
structure Payment where
  id : WorkerId
  worker : Worker
  requestedPay : ℤ
  actualPay : ℤ

/-- The loop variables of `pay_workers`. -/
structure Payroll where
  budget : ℤ
  core : FeeState
  workers : FlatMap WorkerId Worker
  payments : List Payment := []

/-- The loop of `pay_workers` -/
def Payroll.pay (passedTimeCount : ℤ) : List (WorkerId × Worker) → Payroll → Except ChainError Payroll
  | [], p => .ok p
  | (id, w) :: activeWorkers, p =>
    if 0 < p.budget then do
      let requestedPay ← w.requestedPay passedTimeCount
      let actualPay := min p.budget requestedPay
      let r ← p.core.payWorker w.worker actualPay
      Payroll.pay passedTimeCount activeWorkers
        { budget := p.budget - actualPay
          core := r.2
          workers := p.workers.modify id fun w ↦ { w with worker := r.1 }
          payments := p.payments ++ [⟨id, w, requestedPay, actualPay⟩] }
    else .ok p

/-! ### The budget -/

/-- `budget_record` -/
structure BudgetRecord where
  timeSinceLastBudget : ℕ := 0
  fromInitialReserve : ℤ := 0
  fromAccumulatedFees : ℤ := 0
  fromUnusedWitnessBudget : ℤ := 0
  requestedWitnessBudget : ℤ := 0
  totalBudget : ℤ := 0
  witnessBudget : ℤ := 0
  workerBudget : ℤ := 0
  leftoverWorkerFunds : ℤ := 0
  supplyDelta : ℤ := 0

/-- What the budget reads and writes. -/
structure BudgetState where
  parameters : BudgetParameters
  pendingParameters : Option BudgetParameters := none
  maxSupply : ℤ
  nextMaintenanceTime : UInt32
  lastBudgetTime : UInt32 := 0
  witnessBudget : ℤ := 0
  workers : FlatMap WorkerId Worker := ∅
  core : FeeState
  /-- Core that is neither a balance nor a fee, such as core in orders. -/
  elsewhere : ℤ := 0

namespace BudgetState

/-- The reserve, with the fees and what the witnesses have not used. -/
def reserve (s : BudgetState) : ℤ :=
  s.maxSupply - s.core.currentSupply + s.core.accumulatedFees + s.witnessBudget

/-- The sources and the total of `initialize_budget_record`. -/
def initializeBudgetRecord (s : BudgetState) : BudgetRecord :=
  let now := s.core.headBlockTime
  let record : BudgetRecord :=
    { fromInitialReserve := s.maxSupply - s.core.currentSupply
      fromAccumulatedFees := s.core.accumulatedFees
      fromUnusedWitnessBudget := s.witnessBudget }
  if s.lastBudgetTime = 0 ∨ now ≤ s.lastBudgetTime then record
  else
    let dt := now.toNat - s.lastBudgetTime.toNat
    let budget := (toUInt128 s.reserve * dt % 2 ^ 128 * 17 % 2 ^ 128 + (2 ^ 32 - 1)) % 2 ^ 128 / 2 ^ 32
    { record with
      timeSinceLastBudget := dt
      totalBudget := if budget < toUInt128 s.reserve then toInt64 (budget % 2 ^ 64) else s.reserve }

/-- The workers that can be paid, those with more votes first. -/
def activeWorkers (s : BudgetState) : List (WorkerId × Worker) :=
  (s.workers.toList.filter fun e ↦ e.2.isActive s.core.headBlockTime ∧ 0 < e.2.approvingStake).mergeSort fun a b ↦
    b.2.approvingStake < a.2.approvingStake ∨ a.2.approvingStake = b.2.approvingStake ∧ a.1 ≤ b.1

/-- The microseconds since the last budget. -/
def passedTimeCount (s : BudgetState) : ℤ :=
  ((s.core.headBlockTime.toNat : ℤ) - s.lastBudgetTime.toNat) * 1000000

/-- The number of blocks until the next maintenance. -/
def blocksToMaint (s : BudgetState) : ℕ :=
  (s.nextMaintenanceTime.toNat - s.core.headBlockTime.toNat + s.parameters.blockInterval.toNat - 1) /
    s.parameters.blockInterval.toNat

/-- The budget of the workers, of what the witnesses leave. -/
def workerBudget (s : BudgetState) (availableFunds : ℤ) : ℤ :=
  let timeToMaint := s.nextMaintenanceTime.toNat - s.core.headBlockTime.toNat
  let workerBudget := toUInt128 s.parameters.workerBudgetPerDay * timeToMaint % 2 ^ 128 / 86400
  if toUInt128 availableFunds ≤ workerBudget then availableFunds else toInt64 (workerBudget % 2 ^ 64)

/-- `process_budget` -/
def processBudget (s : BudgetState) : Except ChainError (BudgetState × BudgetRecord × List Payment) := do
  fcAssert (s.core.headBlockTime.toNat < s.nextMaintenanceTime.toNat) "time_to_maint > 0"
  fcAssert (0 < s.parameters.blockInterval.toNat) "gpo.parameters.block_interval > 0"
  let record := s.initializeBudgetRecord
  let requested := (s.parameters.witnessPayPerBlock * s.blocksToMaint).bmod (2 ^ 64)
  let witnessBudget := min requested record.totalBudget
  let workerBudget := s.workerBudget (record.totalBudget - witnessBudget)
  let payroll ← Payroll.pay s.passedTimeCount s.activeWorkers
    { budget := workerBudget, core := s.core, workers := s.workers }
  let supplyDelta := witnessBudget + workerBudget - payroll.budget - record.fromAccumulatedFees -
    record.fromUnusedWitnessBudget
  let s' := { s with
    core := { payroll.core with
      currentSupply := payroll.core.currentSupply + supplyDelta
      accumulatedFees := 0 }
    workers := payroll.workers
    witnessBudget := witnessBudget
    lastBudgetTime := s.core.headBlockTime }
  let record := { record with
    requestedWitnessBudget := requested
    witnessBudget := witnessBudget
    workerBudget := workerBudget
    leftoverWorkerFunds := payroll.budget
    supplyDelta := supplyDelta }
  return (s', record, payroll.payments)

/-! ### Between two budgets -/

/-- The pay of `update_signing_witness`, for a witness with an account and perhaps a vesting balance -/
def updateSigningWitness (s : BudgetState) (payVb : Option VestingBalanceId) (witnessPayVestingSeconds : UInt32)
    (witnessAccount : AccountId) : Except ChainError BudgetState := do
  let witnessPay := min s.parameters.witnessPayPerBlock s.witnessBudget
  let r ← s.core.depositLazyVesting payVb witnessPay witnessPayVestingSeconds .witness witnessAccount true
  return { s with core := r.2, witnessBudget := s.witnessBudget - witnessPay }

/-- `committee_member_update_global_parameters` -/
def updateGlobalParameters (s : BudgetState) (p : BudgetParameters) : Except ChainError BudgetState := do
  fcAssert (p.validate = true) "new_parameters.validate()"
  return { s with pendingParameters := some p }

/-- What `perform_chain_maintenance` does before the budget: the pending parameters are installed and the next maintenance
is planned. -/
def install (s : BudgetState) (headBlockNum : UInt32) : BudgetState :=
  let parameters := s.pendingParameters.getD s.parameters
  let plan : MaintenanceState :=
    { parameters := parameters.toChainParameters
      nextMaintenanceTime := s.nextMaintenanceTime
      headBlockTime := s.core.headBlockTime
      headBlockNum := headBlockNum }
  { s with
    parameters := parameters
    pendingParameters := none
    nextMaintenanceTime := plan.nextTime parameters.maintenanceInterval }

end BudgetState

end Playchain
