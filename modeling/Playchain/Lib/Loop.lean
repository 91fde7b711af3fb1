import Mathlib.Data.Nat.Notation
import Mathlib.Tactic.Common

/-!
# Loops

A loop is given by one round, which goes on with a state, ends with a result or fails. It is run for a number of rounds
(`iterate`), and there is no outcome if these are used up. What every round keeps, the result of the loop has
(`of_iterate_eq`); if every round makes a measure smaller, there is an outcome (`exists_iterate_eq`).
-/

namespace Loop

variable {ε σ β : Type*}

/-- A loop, for a number of rounds. A round may have no outcome itself. -/
def iterate (step : σ → Option (Except ε (σ ⊕ β))) : ℕ → σ → Option (Except ε β)
  | 0, _ => none
  | n + 1, s =>
    match step s with
    | none => none
    | some (.error e) => some (.error e)
    | some (.ok (.inl s')) => iterate step n s'
    | some (.ok (.inr b)) => some (.ok b)

variable {step : σ → Option (Except ε (σ ⊕ β))}

/-- **Loop invariant.** -/
theorem of_iterate_eq (I : σ → Prop) (Q : β → Prop) (hnext : ∀ s s', I s → step s = some (.ok (.inl s')) → I s')
    (hend : ∀ s b, I s → step s = some (.ok (.inr b)) → Q b) {n : ℕ} {s : σ} {b : β} (hs : I s)
    (h : iterate step n s = some (.ok b)) : Q b := by
  induction n generalizing s with
  | zero => cases h
  | succ n ih =>
    unfold iterate at h
    rcases hstep : step s with _ | _ | s' | b'
    · rw [hstep] at h
      cases h
    · rw [hstep] at h
      cases h
    · rw [hstep] at h
      exact ih (hnext s s' hs hstep) h
    · rw [hstep] at h
      exact hend s b hs (by rw [hstep, Except.ok.inj (Option.some.inj h)])

/-- **Termination.** A loop whose rounds have an outcome and make a measure smaller has an outcome. -/
theorem exists_iterate_eq (I : σ → Prop) (μ : σ → ℕ) (hstep : ∀ s, I s → ∃ r, step s = some r)
    (hnext : ∀ s s', I s → step s = some (.ok (.inl s')) → I s' ∧ μ s' < μ s) {n : ℕ} {s : σ} (hs : I s) (hn : μ s < n) :
    ∃ r, iterate step n s = some r := by
  induction n generalizing s with
  | zero => omega
  | succ n ih =>
    unfold iterate
    obtain ⟨r, hr⟩ := hstep s hs
    rw [hr]
    rcases r with e | s' | b
    · exact ⟨_, rfl⟩
    · obtain ⟨hs', hlt⟩ := hnext s s' hs hr
      exact ih hs' (by omega)
    · exact ⟨_, rfl⟩

/-- **Total correctness.** A loop whose rounds do not fail, and either make a measure smaller or end as wanted, ends as
wanted. -/
theorem exists_iterate_eq_ok (I : σ → Prop) (μ : σ → ℕ) (Q : β → Prop)
    (hstep : ∀ s, I s → (∃ s', step s = some (.ok (.inl s')) ∧ I s' ∧ μ s' < μ s) ∨
      ∃ b, step s = some (.ok (.inr b)) ∧ Q b) {n : ℕ} {s : σ} (hs : I s) (hn : μ s < n) :
    ∃ b, iterate step n s = some (.ok b) ∧ Q b := by
  induction n generalizing s with
  | zero => omega
  | succ n ih =>
    unfold iterate
    rcases hstep s hs with ⟨s', hnext, hs', hlt⟩ | ⟨b, hend, hb⟩
    · rw [hnext]
      exact ih hs' (by omega)
    · rw [hend]
      exact ⟨b, rfl, hb⟩

end Loop
