import Playchain.Spec.VotingTasks

/-!
# The block tasks

The block tasks keep the money and the invariant; they fail only because of a pending buy-out in
another asset than the core asset, or of a tally of three contents, whose outcome is undefined.
-/

namespace Playchain

variable {mode : Mode} {d d' : Database} {E : ChainError → Prop}

/-- Expired invitations concern nothing else. -/
theorem updateExpiredInvitations_eq (d : Database) : ∃ invitations ops,
    updateExpiredInvitations d = { d with
      playerInvitations := invitations, appliedOperations := ops } := by
  refine List.foldlRecOn (motive := fun e : Database ↦ ∃ invitations ops, e = { d with
    playerInvitations := invitations, appliedOperations := ops }) _ _
    ⟨d.playerInvitations, d.appliedOperations, rfl⟩ ?_
  rintro _ ⟨invitations, ops, rfl⟩ p _
  exact ⟨_, _, rfl⟩

/-- The tasks on reservations, stays and signs of life that are over, in order. -/
def updateExpirations (d : Database) : Except ChainError Database := do
  let d ← updateExpiredPendingBuyIn d
  let d ← updateExpiredBuyIn d
  updateExpiredTableAlive d

/-- No table is busy during these tasks. -/
theorem updateExpirations_ensures (h : WellFormed mode d) :
    (updateExpirations d).Ensures E fun d' ↦ Transfer mode idle d d' 0 :=
  (updateExpiredPendingBuyIn_ensures idle h).bind fun _ h₁ ↦
    (updateExpiredBuyIn_ensures idle h₁.wf).bind fun _ h₂ ↦
      (updateExpiredTableAlive_ensures idle h₂.wf).mono fun _ h₃ ↦
        h₁.trans_zero (h₂.trans_zero h₃)

/-- **A run of the block tasks**, stage by stage. -/
structure TasksRun (mode : Mode) (maintenance : Bool) (d d₁ d₂ d₃ d₄ d₅ d' : Database) : Prop where
  invitations : ∃ invitations ops,
    d₁ = { d with playerInvitations := invitations, appliedOperations := ops }
  scheduled : VotingsHandled mode TableVotingObject.scheduledVoting (TallyRemains d₁) d₁ d₂
  expired : VotingsHandled mode TableVotingObject.expiration (ExpiryRemains d₂) d₂ d₃
  games_eq : updateExpiredTableGame d₃ maintenance = .ok d₄
  games : GamesExpired mode d₃ d₄
  expirations_eq : updateExpirations d₄ = .ok d₅
  expirations : Transfer mode idle d₄ d₅ 0
  allocation_eq : allocationOfVacancies d₅ = .ok d'
  allocation : Transfer mode idle d₅ d' 0

/-- **The block tasks** run through their stages. They fail only with an assertion, and only if a
pending buy-out is not in the core asset, or with undefined behaviour, and only if a voting has three
contents. -/
theorem processBlockTasks_ensures [GameDigest] (h : WellFormed mode d) (hv : VotesOk idle d)
    (hclock : mode.clock → d.DeadlineFits) (hE : ¬mode.core → ∀ text, E (.assertion text))
    (hU : MergeFails E d) (maintenance : Bool) :
    (processBlockTasks d maintenance).Ensures E fun d' ↦
      ∃ d₁ d₂ d₃ d₄ d₅, TasksRun mode maintenance d d₁ d₂ d₃ d₄ d₅ d' := by
  obtain ⟨invitations, ops, heq⟩ := updateExpiredInvitations_eq d
  have hafter : ¬d.headBlockTime < hardforkPlaychain9Time := not_lt.2
    ((show hardforkPlaychain9Time ≤ hardforkPlaychain10Time by decide).trans h.time)
  rw [processBlockTasks, heq]
  simp only [if_neg hafter, bind_assoc]
  have h₁ : WellFormed mode { d with playerInvitations := invitations, appliedOperations := ops } :=
    { h with }
  have hv₁ : VotesOk idle { d with playerInvitations := invitations, appliedOperations := ops } :=
    { hv with }
  refine (updateScheduledVoting_ensures h₁ hv₁ hclock hE hU).bind fun d₂ h₂ ↦ ?_
  have hU₂ : MergeFails E d₂ := MergeFails.of_frame
    (d := { d with playerInvitations := invitations, appliedOperations := ops }) hU h₂.transfer.frame
  refine (updateExpiredTableVoting_ensures h₂.transfer.wf h₂.votes hE hU₂).bind fun d₃ h₃ ↦ ?_
  refine (updateExpiredTableGame_ensures h₃.transfer.wf h₃.votes hE maintenance).with_eq.bind
    fun d₄ ⟨heq₄, h₄⟩ ↦ ?_
  have hlast : (updateExpirations d₄ >>= allocationOfVacancies).Ensures E fun d' ↦
      ∃ d₁ d₂ d₃ d₄ d₅, TasksRun mode maintenance d d₁ d₂ d₃ d₄ d₅ d' := by
    refine (updateExpirations_ensures h₄.transfer.wf).with_eq.bind fun d₅ ⟨heq₅, h₅⟩ ↦ ?_
    refine (allocationOfVacancies_ensures idle h₅.wf).with_eq.mono fun d' ⟨heq', h'⟩ ↦ ?_
    exact ⟨_, d₂, d₃, d₄, d₅, ⟨_, _, rfl⟩, h₂, h₃, heq₄, h₄, heq₅, h₅, heq', h'⟩
  simpa only [updateExpirations, bind_assoc] using hlast

section Stages

variable {d₁ d₂ d₃ d₄ d₅ : Database} {maintenance : Bool}

/-- The block tasks keep the money. -/
theorem TasksRun.transfer (h : TasksRun mode maintenance d d₁ d₂ d₃ d₄ d₅ d') (hd : WellFormed mode d) :
    Transfer mode (fun _ ↦ True) d d' 0 := by
  have h₁ : Transfer mode (fun _ ↦ True) d d₁ 0 := by
    obtain ⟨invitations, ops, rfl⟩ := h.invitations
    exact ⟨{ hd with }, .of_eq _ rfl rfl rfl rfl rfl rfl rfl, (add_zero _).symm⟩
  have h₂ : Transfer mode (fun _ ↦ True) d₁ d₂ 0 := h.scheduled.transfer.mono fun _ _ ↦ trivial
  have h₃ : Transfer mode (fun _ ↦ True) d₂ d₃ 0 := h.expired.transfer.mono fun _ _ ↦ trivial
  have h₅ : Transfer mode (fun _ ↦ True) d₄ d' 0 :=
    (h.expirations.trans_zero h.allocation).mono fun _ _ ↦ trivial
  exact h₁.trans_zero (h₂.trans_zero (h₃.trans_zero (h.games.transfer.trans_zero h₅)))

/-- After the block tasks the votes fit their tables. -/
theorem TasksRun.votesOk (h : TasksRun mode maintenance d d₁ d₂ d₃ d₄ d₅ d') : VotesOk idle d' :=
  (h.games.votes.of_frame h.expirations.frame).of_frame h.allocation.frame

/-- The block tasks keep the books. -/
theorem TasksRun.books (h : TasksRun mode maintenance d d₁ d₂ d₃ d₄ d₅ d') : d'.books = d.books := by
  have h₁ : d₁.books = d.books := by
    obtain ⟨invitations, ops, rfl⟩ := h.invitations
    rfl
  rw [h.allocation.frame.books fun _ hf ↦ hf, h.expirations.frame.books fun _ hf ↦ hf, h.games.steady.books, h.expired.steady.books,
    h.scheduled.steady.books, h₁]

end Stages

end Playchain
