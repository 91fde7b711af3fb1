import Playchain.Spec.Proposals

/-!
# The review period of a proposal

A proposal with a review period is executed at its expiration only, and in the review period it gets no approvals of
accounts. Nothing is said of approvals of keys: they are kept from growing only by updates that add no new key
(`ProposalState.reviewPeriod_kept`).
-/

namespace Playchain

namespace ProposalState

variable {ω σ : Type} {s₀ s₁ s₂ : ProposalState ω σ} {i : ProposalId}

/-- No update in its review period gives the proposal a key it does not have. -/
def NoNewKeys (s : ProposalState ω σ) (i : ProposalId) : Prop :=
  ∀ now q o t, .updated i now q o ∈ s.history → q.reviewPeriodTime = some t → t ≤ now →
    ∀ x ∈ o.keyApprovalsToAdd.keys, x ∈ q.availableKeyApprovals.keys

/-- From the review period on, the approvals of a proposal do not grow. -/
theorem approvals_subset (hlater : Later s₁ s₂) (hkeys : s₂.NoNewKeys i) {p p' : ProposalObject ω} {t : UInt32}
    (hp : s₁.proposals.find? i = some p) (ht : p.reviewPeriodTime = some t) (hle : t ≤ s₁.headBlockTime)
    (hp' : s₂.proposals.find? i = some p') (kind : ApprovalKind) :
    (p'.approvals kind).keys ⊆ (p.approvals kind).keys := by
  obtain ⟨h, hhistory, hupdates, haccounted⟩ := hlater.history
  intro x hx
  rcases haccounted i p p' hp hp' kind x hx with hx | ⟨now, q, o, hmem, hadded, hnew⟩
  · exact hx
  -- the update that has added the approval was made in the review period
  obtain ⟨hnow, hsame, hreview⟩ := hupdates i now q o hmem
  obtain ⟨p₁, hp₁, hterms⟩ := hsame (ObjectIndex.lt_nextId_of_find? hp)
  obtain rfl := Option.some.inj (hp.symm.trans hp₁)
  have htq : q.reviewPeriodTime = some t := hterms.reviewPeriodTime.trans ht
  have hin : t ≤ now := UInt32.le_trans hle hnow
  obtain ⟨hactive, howner⟩ := hreview t htq hin
  cases kind with
  | active =>
    rw [show (o.added .active).keys = ∅ from hactive] at hadded
    cases hadded
  | owner =>
    rw [show (o.added .owner).keys = ∅ from howner] at hadded
    cases hadded
  | key =>
    have hmem₂ : .updated i now q o ∈ s₂.history := hhistory ▸ List.mem_append.mpr (.inr hmem)
    exact absurd (hkeys now q o t hmem₂ htq hin x hadded) hnew

/-- **The review period is a veto period**: in every run, a proposal with a review period is not executed before its
expiration; and if no update in the review period gives it a key it does not have, none of its approvals grows from
then on. -/
theorem reviewPeriod_kept [ProposalRules ω σ] (h₀ : s₀.Initial) (h₁ : Relation.ReflTransGen Step s₀ s₁)
    (h₂ : Relation.ReflTransGen Step s₁ s₂) :
    (∀ i now p, .executing i now p ∈ s₂.trace → p.reviewPeriodTime ≠ none → p.expirationTime ≤ now) ∧
    ∀ i, s₂.NoNewKeys i → ∀ p p' t, s₁.proposals.find? i = some p → p.reviewPeriodTime = some t →
      t ≤ s₁.headBlockTime → s₂.proposals.find? i = some p' →
      ∀ kind, (p'.approvals kind).keys ⊆ (p.approvals kind).keys := by
  obtain ⟨hkept₁, -⟩ := h₀.kept.run h₁
  obtain ⟨hkept₂, hlater⟩ := hkept₁.run h₂
  refine ⟨hkept₂.timely, fun i hkeys p p' t hp ht hle hp' kind ↦ ?_⟩
  exact approvals_subset hlater hkeys hp ht hle hp' kind

end ProposalState

/-- A proposal with a review period of half its lifetime. -/
def reviewed : List (ProposedOperation Unit) := [.create 1 [.other ()] 1600000100 (some 50)]

/-- A key approves. -/
def approvalOfKey : List (ProposedOperation Unit) :=
  [.update { feePayingAccount := 1, proposal := 0, keyApprovalsToAdd := FlatSet.ofList [1] }]

/-- The revocation of an approval. -/
def revocation : List (ProposedOperation Unit) :=
  [.update { feePayingAccount := 1, proposal := 0, activeApprovalsToRemove := FlatSet.ofList [1] }]

/-- An approval before the review period, and its revocation in it. -/
theorem reviewPeriod_kept_revoked : ∃ s₁ s₂ : ProposalState Unit ℕ, ∃ p p' : ProposalObject Unit,
    s₁.proposals.find? 0 = some p ∧ p.availableActiveApprovals.contains 1 = true ∧
    s₂.proposals.find? 0 = some p' ∧ p'.availableActiveApprovals.contains 1 = false ∧
    ∀ kind, (p'.approvals kind).keys ⊆ (p.approvals kind).keys := by
  obtain ⟨a, b, s₁, s₂, p, p', ha, hb, hbefore, hs₁, hs₂, hp, hactive, ht, hle, hp', hactive',
      x, t₁, q₁, o₁, t₂, q₂, o₂, hhistory, ho₁, ho₂⟩ :
      ∃ a b s₁ s₂ : ProposalState Unit ℕ, ∃ p p' : ProposalObject Unit,
      noProposals.applyTransaction reviewed = .ok a ∧ a.applyTransaction [approvalOf 0] = .ok b ∧
      b.headBlockTime ≤ 1600000060 ∧ b.finishBlock 1600000060 11 0 = .ok s₁ ∧ s₁.applyTransaction revocation = .ok s₂ ∧
      s₁.proposals.find? 0 = some p ∧ p.availableActiveApprovals.contains 1 = true ∧
      p.reviewPeriodTime = some 1600000050 ∧ (1600000050 : UInt32) ≤ s₁.headBlockTime ∧
      s₂.proposals.find? 0 = some p' ∧ p'.availableActiveApprovals.contains 1 = false ∧
      ∃ x t₁ q₁ o₁ t₂ q₂ o₂, s₂.history = [.created 0 x, .updated 0 t₁ q₁ o₁, .updated 0 t₂ q₂ o₂] ∧
        o₁.keyApprovalsToAdd.keys = ∅ ∧ o₂.keyApprovalsToAdd.keys = ∅ :=
    ⟨_, _, _, _, _, _, rfl, rfl, by decide, rfl, rfl, rfl, rfl, rfl, by decide, rfl, rfl, _, _, _, _, _, _, _, rfl, rfl, rfl⟩
  have hkeys : s₂.NoNewKeys 0 := by
    intro now q o t hmem _ _ y hy
    rw [hhistory] at hmem
    rcases List.mem_cons.mp hmem with hmem | hmem
    · cases hmem
    rcases List.mem_cons.mp hmem with hmem | hmem
    · cases hmem
      rw [ho₁] at hy
      cases hy
    · cases List.mem_singleton.mp hmem
      rw [ho₂] at hy
      cases hy
  have h₁ : Relation.ReflTransGen ProposalState.Step noProposals s₁ :=
    ((Relation.ReflTransGen.single (.transaction reviewed ha)).tail (.transaction [approvalOf 0] hb)).tail
      (.block 1600000060 11 0 hbefore hs₁)
  have h₂ : Relation.ReflTransGen ProposalState.Step s₁ s₂ := .single (.transaction revocation hs₂)
  refine ⟨s₁, s₂, p, p', hp, hactive, hp', hactive', fun kind ↦ ?_⟩
  exact (ProposalState.reviewPeriod_kept initial_noProposals h₁ h₂).2 0 hkeys p p' _ hp ht hle hp' kind

/-- **A key approves in the review period**, and the proposal has one more approval. -/
theorem reviewPeriod_keyAdded : ∃ s₁ s₂ : ProposalState Unit ℕ, ∃ p p' : ProposalObject Unit,
    Relation.ReflTransGen ProposalState.Step noProposals s₁ ∧ ProposalState.Step s₁ s₂ ∧
    s₁.proposals.find? 0 = some p ∧ p.reviewPeriodTime = some 1600000050 ∧
    (1600000050 : UInt32) ≤ s₁.headBlockTime ∧ s₂.proposals.find? 0 = some p' ∧
    p.availableKeyApprovals.contains 1 = false ∧ p'.availableKeyApprovals.contains 1 = true := by
  obtain ⟨a, s₁, s₂, p, p', ha, hbefore, hs₁, hs₂, hfacts⟩ :
      ∃ a s₁ s₂ : ProposalState Unit ℕ, ∃ p p' : ProposalObject Unit,
      noProposals.applyTransaction reviewed = .ok a ∧ a.headBlockTime ≤ 1600000060 ∧
      a.finishBlock 1600000060 11 0 = .ok s₁ ∧ s₁.applyTransaction approvalOfKey = .ok s₂ ∧
      s₁.proposals.find? 0 = some p ∧ p.reviewPeriodTime = some 1600000050 ∧
      (1600000050 : UInt32) ≤ s₁.headBlockTime ∧ s₂.proposals.find? 0 = some p' ∧
      p.availableKeyApprovals.contains 1 = false ∧ p'.availableKeyApprovals.contains 1 = true :=
    ⟨_, _, _, _, _, rfl, by decide, rfl, rfl, rfl, rfl, by decide, rfl, rfl, rfl⟩
  have h₁ : Relation.ReflTransGen ProposalState.Step noProposals s₁ :=
    (Relation.ReflTransGen.single (.transaction reviewed ha)).tail (.block 1600000060 11 0 hbefore hs₁)
  exact ⟨s₁, s₂, p, p', h₁, .transaction approvalOfKey hs₂, hfacts⟩

end Playchain
