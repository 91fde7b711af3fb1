import Mathlib.Data.List.MinMax
import Mathlib.Data.Prod.Lex
import Mathlib.Data.String.Basic
import Playchain.Graphene.FeeDistribution

/-!
# The maintenance of accounts

`perform_account_maintenance`. First the core balances that have changed are copied to the statistics of their owners. Then
the statistics that need maintenance are visited in the order of `by_maintenance_seq`, and the votes of each are tallied and
its fees processed. **The order changes while it is followed**: the fees of the account that is visited are gone when the
iterator has left it, and the cashback of others may make them need maintenance.

An iterator is the account it points to. It is moved on before the account is worked on, as in the source. What the votes
are tallied for is recorded (`Tallies`). A loop that has not ended after as many turns as are allowed has no result.
-/

namespace Playchain

/-- The accounts whose votes are tallied, with their statistics at that time. -/
abbrev Tallies := List (AccountId × FeeStatistics)

/-- The key of `by_maintenance_seq`. -/
def FeeStatistics.maintenanceSeq (x : FeeStatistics) : Bool ×ₗ String := toLex (x.needMaintenance, x.name)

namespace FeeState

/-! ### Core balances -/

/-- The order of `by_maintenance_flag` among core balances: its last element. Where there is a balance with the flag, the
last one has it; no balance of another asset ever has it. -/
structure LastBalance where
  last : FlatMap AccountId CoreBalance → Option AccountId
  last_eq_some : ∀ m id, last m = some id → ∃ b, m.find? id = some b
  flag_of_last : ∀ m id b, m.find? id = some b → b.maintenanceFlag = true →
    ∃ j c, last m = some j ∧ m.find? j = some c ∧ c.maintenanceFlag = true

/-- The first loop of `perform_account_maintenance`. -/
def copyBalances (order : LastBalance) : ℕ → FeeState → Option (Except ChainError FeeState)
  | turns, s =>
    match order.last s.coreBalances with
    | none => some (.ok s)
    | some id =>
      match s.coreBalances.find? id with
      | none => some (.error .missingObject)
      | some b =>
        if b.maintenanceFlag then
          match turns with
          | 0 => none
          | turns + 1 =>
            match s.accountStats id with
            | .error e => some (.error e)
            | .ok _ =>
              let s := s.modifyStatistics id fun aso ↦ { aso with coreInBalance := b.balance }
              copyBalances order turns
                { s with coreBalances := s.coreBalances.modify id fun b ↦ { b with maintenanceFlag := false } }
        else some (.ok s)

/-! ### Statistics -/

/-- `stats_idx.lower_bound( true )` -/
def firstInSeq (s : FeeState) : Option AccountId :=
  ((s.statistics.toList.filter fun e ↦ e.2.needMaintenance).argmin fun e ↦ e.2.maintenanceSeq).map Prod.fst

/-- `++stats_itr`, from statistics -/
def nextInSeq (s : FeeState) (x : FeeStatistics) : Option AccountId :=
  ((s.statistics.toList.filter fun e ↦ x.maintenanceSeq < e.2.maintenanceSeq).argmin fun e ↦
    e.2.maintenanceSeq).map Prod.fst

/-- The second loop of `perform_account_maintenance`. -/
def maintainAccounts : ℕ → Option AccountId → FeeState → Tallies → Option (Except ChainError (FeeState × Tallies))
  | _, none, s, tallies => some (.ok (s, tallies))
  | 0, some _, _, _ => none
  | turns + 1, some id, s, tallies =>
    match s.statistics.find? id with
    | none => some (.error .missingObject)
    | some x =>
      match s.account id with
      | .error e => some (.error e)
      | .ok _ =>
        let statsItr := s.nextInSeq x
        let tallies := if x.hasSomeCoreVoting then tallies ++ [(id, x)] else tallies
        if x.hasPendingFees then
          match s.processFees id with
          | .error e => some (.error e)
          | .ok s => maintainAccounts turns statsItr s tallies
        else maintainAccounts turns statsItr s tallies

/-- `perform_account_maintenance` -/
def performAccountMaintenance (order : LastBalance) (turns : ℕ) (s : FeeState) :
    Option (Except ChainError (FeeState × Tallies)) :=
  match copyBalances order turns s with
  | none => none
  | some (.error e) => some (.error e)
  | some (.ok s) => maintainAccounts turns s.firstInSeq s []

end FeeState

end Playchain
