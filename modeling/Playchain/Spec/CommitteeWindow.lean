import Playchain.Spec.Proposals
import Playchain.Graphene.ChainMaintenance

/-!
# The window of the committee's proposals

A proposal that needs the committee has a review period of at least `committee_proposal_review_period`, shorter than its
lifetime, and its lifetime is at most `maximum_proposal_lifetime`. So there is room for one exactly if the first
parameter is less than the second one (`ProposalState.exists_evaluateCreate_iff`). `chain_parameters::validate` compares
their difference with the block interval, and the difference is one of unsigned numbers: it is large as well if the
review period is the longer one, and then the committee can propose nothing any more.
-/

namespace Playchain

namespace ProposalState

variable {ω σ : Type} [ProposalRules ω σ] {s : ProposalState ω σ} {ops : List (ProposedOperation ω)}
  {p : ChainParameters}

/-- The chain is governed by the parameters `p`. -/
structure Governed (s : ProposalState ω σ) (p : ChainParameters) : Prop where
  maximumProposalLifetime : ProposalRules.maximumProposalLifetime ω s.rest = p.maximumProposalLifetime
  committeeProposalReviewPeriod :
    ProposalRules.committeeProposalReviewPeriod ω s.rest = p.committeeProposalReviewPeriod

/-- Operations that need the authority of a committee, and to which there is no objection apart from the times of their
proposal. -/
structure CommitteeProposal (s : ProposalState ω σ) (ops : List (ProposedOperation ω)) : Prop where
  admitted : visitAllHardfork s.headBlockTime s.rest false ops = .ok ()
  noUpdates : s.checkNoUpdates ops = .ok ()
  other : (requiredAuthorities σ ops).other = 0
  committee :
    let auths := requiredAuthorities σ ops
    let all := FlatSet.addAll auths.active auths.owner
    all.contains committeeAccount ∨ all.contains relaxedCommitteeAccount
  nonempty : ops.isEmpty = false
  valid : ops.forM (ProposalRules.validate σ) = .ok ()

/-- Of the committee's proposals, a long enough review period is asked. -/
theorem CommitteeProposal.checkReviewPeriod_iff (h : s.CommitteeProposal ops) {review : Option UInt32} :
    s.checkReviewPeriod ops review = .ok () ↔
      ∃ t, review = some t ∧ ProposalRules.committeeProposalReviewPeriod ω s.rest ≤ t := by
  have hother : throwIf ((requiredAuthorities σ ops).other ≠ 0) "other.size() == 0" = .ok () :=
    throwIf_eq_ok.mpr (not_not.mpr h.other)
  unfold checkReviewPeriod
  simp only [hother, Except.ok_bind, if_pos h.committee]
  cases review with
  | none =>
    constructor
    · intro hnone
      cases hnone
    · rintro ⟨t, ht, -⟩
      cases ht
  | some t => simp [throwIf_eq_ok]

/-- What the evaluator asks of the times of the committee's proposals. -/
theorem CommitteeProposal.evaluateCreate_iff (h : s.CommitteeProposal ops) {expiration : UInt32}
    {review : Option UInt32} :
    s.evaluateCreate ops expiration review = .ok () ↔
      s.headBlockTime < expiration ∧
      expiration ≤ s.headBlockTime + ProposalRules.maximumProposalLifetime ω s.rest ∧
      ∃ t, review = some t ∧ ProposalRules.committeeProposalReviewPeriod ω s.rest ≤ t ∧
        t.toNat < expiration.toNat - s.headBlockTime.toNat := by
  have hnonempty : throwIf (ops.isEmpty = true) "A transaction must have at least one operation" = .ok () :=
    throwIf_eq_ok.mpr (by simp [h.nonempty])
  unfold evaluateCreate
  simp only [h.admitted, h.noUpdates, Except.ok_bind, hnonempty, h.valid]
  simp only [Except.bind_eq_ok, throwIf_eq_ok, UInt32.not_le, UInt32.not_lt, exists_const]
  refine and_congr_right fun _ ↦ and_congr_right fun _ ↦ ?_
  constructor
  · rintro ⟨hless, _, hreview, -⟩
    obtain ⟨t, rfl, ht⟩ := h.checkReviewPeriod_iff.mp hreview
    rw [Option.any_some, decide_eq_true_iff, not_le] at hless
    exact ⟨t, rfl, ht, hless⟩
  · rintro ⟨t, rfl, ht, hless⟩
    refine ⟨?_, (), h.checkReviewPeriod_iff.mpr ⟨t, rfl, ht⟩, trivial⟩
    rw [Option.any_some, decide_eq_true_iff, not_le]
    exact hless

/-- **There is room for the committee's proposals exactly if its review period is less than the longest lifetime.** -/
theorem CommitteeProposal.exists_evaluateCreate_iff (h : s.CommitteeProposal ops) (hs : s.Governed p)
    (hfit : s.headBlockTime.toNat + p.maximumProposalLifetime.toNat < 2 ^ 32) :
    (∃ expiration review, s.evaluateCreate ops expiration review = .ok ()) ↔
      p.committeeProposalReviewPeriod < p.maximumProposalLifetime := by
  have hsum : (s.headBlockTime + p.maximumProposalLifetime).toNat =
      s.headBlockTime.toNat + p.maximumProposalLifetime.toNat := by
    rw [UInt32.toNat_add]
    exact Nat.mod_eq_of_lt hfit
  simp only [h.evaluateCreate_iff, hs.maximumProposalLifetime, hs.committeeProposalReviewPeriod]
  constructor
  · rintro ⟨expiration, review, -, hlife, t, -, hreview, hless⟩
    rw [UInt32.le_iff_toNat_le] at hlife hreview
    rw [UInt32.lt_iff_toNat_lt]
    omega
  · intro hlt
    rw [UInt32.lt_iff_toNat_lt] at hlt
    refine ⟨s.headBlockTime + p.maximumProposalLifetime, some p.committeeProposalReviewPeriod, ?_, UInt32.le_refl _,
      _, rfl, UInt32.le_refl _, ?_⟩
    · rw [UInt32.lt_iff_toNat_lt]
      omega
    · omega

end ProposalState

/-- What `validate` asks of the two parameters: their difference, taken without a sign, exceeds the block interval. -/
theorem ChainParameters.window_of_validate {p : ChainParameters} (h : p.validate = true) :
    p.blockInterval.toNat < (p.maximumProposalLifetime - p.committeeProposalReviewPeriod).toNat := by
  unfold validate at h
  rw [Bool.and_eq_true] at h
  exact of_decide_eq_true h.2

/-- **The committee can act if the review period does not exceed the lifetime**, and only then: under parameters that
pass the check and at a time whose sum with the lifetime fits, a proposal that needs the committee is accepted with some
expiration and some review period exactly if the difference that the check takes does not wrap around. -/
theorem committee_can_propose_iff {ω σ : Type} [ProposalRules ω σ] {s : ProposalState ω σ}
    {ops : List (ProposedOperation ω)} {p : ChainParameters} (hp : p.validate = true) (hs : s.Governed p)
    (hops : s.CommitteeProposal ops) (hfit : s.headBlockTime.toNat + p.maximumProposalLifetime.toNat < 2 ^ 32) :
    (∃ expiration review, s.evaluateCreate ops expiration review = .ok ()) ↔
      p.committeeProposalReviewPeriod ≤ p.maximumProposalLifetime := by
  rw [hops.exists_evaluateCreate_iff hs hfit, UInt32.lt_iff_toNat_lt, UInt32.le_iff_toNat_le]
  refine ⟨Nat.le_of_lt, fun hle ↦ lt_of_le_of_ne hle fun heq ↦ ?_⟩
  have hwindow := ChainParameters.window_of_validate hp
  rw [UInt32.toNat_inj.mp heq, UInt32.sub_self] at hwindow
  exact absurd hwindow (Nat.not_lt_zero _)

/-- A chain whose operations all need the committee, and whose rules are the parameters of its state. -/
instance committeeRules : ProposalRules Unit ChainParameters where
  validate _ := .ok ()
  admits _ _ _ := .ok ()
  requiredAuthorities _ := { active := FlatSet.ofList [committeeAccount] }
  payFee rest _ := .ok rest
  deductFee rest _ := .ok rest
  evaluate _ rest _ := .ok rest
  verifyAuthority _ _ _ _ _ _ := false
  maximumProposalLifetime p := p.maximumProposalLifetime
  committeeProposalReviewPeriod p := p.committeeProposalReviewPeriod
  preventApproval := ()

/-- The default parameters, with a review period and a lifetime of one's own choice. -/
def withWindow (reviewPeriod lifetime : UInt32) : ChainParameters where
  basicFee := 0
  blockInterval := 5
  maintenanceInterval := 86400
  committeeProposalReviewPeriod := reviewPeriod
  maximumTransactionSize := 2048
  maximumBlockSize := 2000000
  maximumTimeUntilExpiration := 86400
  maximumProposalLifetime := lifetime
  reservePercentOfFee := 2000
  networkPercentOfFee := 2000
  lifetimeReferrerPercentOfFee := 3000
  accountsPerFeeScale := 1000
  accountFeeScaleBitshifts := 4

/-- A chain without proposals under these parameters. -/
def committeeChain (reviewPeriod lifetime : UInt32) : ProposalState Unit ChainParameters where
  proposals := ∅
  address _ := 0
  nextAddress := 0
  headBlockTime := 1600000000
  activeWitnesses := 11
  rest := withWindow reviewPeriod lifetime

theorem governed_committeeChain (reviewPeriod lifetime : UInt32) :
    (committeeChain reviewPeriod lifetime).Governed (withWindow reviewPeriod lifetime) := ⟨rfl, rfl⟩

theorem committeeProposal_other (reviewPeriod lifetime : UInt32) :
    (committeeChain reviewPeriod lifetime).CommitteeProposal [.other ()] where
  admitted := rfl
  noUpdates := rfl
  other := rfl
  committee := .inl rfl
  nonempty := rfl
  valid := rfl

/-- With two weeks for a review and four weeks to live. -/
theorem committee_can_propose_fortnight :
    (withWindow 1209600 2419200).validate = true ∧
    ∃ expiration review, (committeeChain 1209600 2419200).evaluateCreate [.other ()] expiration review = .ok () :=
  ⟨by decide, (committee_can_propose_iff (by decide) (governed_committeeChain _ _) (committeeProposal_other _ _)
    (by decide)).mpr (by decide)⟩

/-- **The committee locked out**: a review period of four weeks and one second passes the check beside a lifetime of
four weeks, and no proposal that needs the committee is accepted. -/
theorem committee_locked_out :
    (withWindow 2419201 2419200).validate = true ∧
    (committeeChain 2419201 2419200).Governed (withWindow 2419201 2419200) ∧
    (committeeChain 2419201 2419200).CommitteeProposal [.other ()] ∧
    (committeeChain 2419201 2419200).headBlockTime.toNat + 2419200 < 2 ^ 32 ∧
    ¬∃ expiration review, (committeeChain 2419201 2419200).evaluateCreate [.other ()] expiration review = .ok () := by
  refine ⟨by decide, governed_committeeChain _ _, committeeProposal_other _ _, by decide, ?_⟩
  rw [(committeeProposal_other _ _).exists_evaluateCreate_iff (governed_committeeChain _ _) (by decide)]
  decide

end Playchain
