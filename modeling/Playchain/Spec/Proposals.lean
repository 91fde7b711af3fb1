import Playchain.Graphene.Proposals

/-!
# The execution of proposals is well-founded

A proposal updates and deletes only proposals with smaller ids (`ProposalState.Sound`), so whatever happens while it is
executed stays below its id. `ProposalState.Within k` says this of a piece of a run: only proposals below `k` are
modified, removed or moved to another place, the trace is nested, and everything that is new in the approvals of a
proposal has been added by an update in the history.

`push_proposal` is described for any function that is used for nested executions and behaves so (`PushSpec`); the
induction is on how deep executions may nest. That executions end does not depend on the bound of the nesting: with
any bound above the id of the proposal they do the same (`pushProposal_eq`).
-/

namespace Playchain

variable {ω σ : Type}

/-! ### What an operation aims at -/

mutual

/-- The proposals that an operation, or an operation in it, updates or deletes. -/
def targets : ProposedOperation ω → List ProposalId
  | .create _ ops _ _ => targetsAll ops
  | .update o => [o.proposal]
  | .delete o => [o.proposal]
  | .other _ => []

def targetsAll : List (ProposedOperation ω) → List ProposalId
  | [] => []
  | op :: ops => targets op ++ targetsAll ops

end

namespace HardforkVisitor1479

/-- The visitor has met these proposals. -/
def Met (v : HardforkVisitor1479) (l : List ProposalId) : Prop :=
  ∀ i ∈ l, v.nestedUpdateCount ≠ 0 ∧ i ≤ v.maxUpdateInstance

theorem Met.visitProposal {v : HardforkVisitor1479} {l : List ProposalId} (h : v.Met l) (i : ProposalId) :
    (v.visitProposal i).Met (l ++ [i]) := by
  intro j hj
  refine ⟨Nat.succ_ne_zero _, ?_⟩
  unfold HardforkVisitor1479.visitProposal
  dsimp only
  rcases List.mem_append.mp hj with hj | hj
  · obtain ⟨hcount, hle⟩ := h j hj
    split_ifs with hmax
    · exact hle.trans (hmax.resolve_left hcount).le
    · exact hle
  · obtain rfl := List.mem_singleton.mp hj
    split_ifs with hmax
    · exact le_rfl
    · exact not_lt.mp fun hlt ↦ hmax (.inr hlt)

end HardforkVisitor1479

mutual

/-- The visitor meets the proposals that an operation is about. -/
theorem met_visit1479 (op : ProposedOperation ω) {v : HardforkVisitor1479} {l : List ProposalId} (h : v.Met l) :
    (visit1479 v op).Met (l ++ targets op) := by
  cases op with
  | create _ ops _ _ => exact met_visitAll1479 ops h
  | update o => exact h.visitProposal o.proposal
  | delete o => exact h.visitProposal o.proposal
  | other _ =>
    rw [targets, List.append_nil]
    exact h

/-- It meets those of all operations. -/
theorem met_visitAll1479 (ops : List (ProposedOperation ω)) {v : HardforkVisitor1479} {l : List ProposalId}
    (h : v.Met l) : (visitAll1479 v ops).Met (l ++ targetsAll ops) := by
  cases ops with
  | nil =>
    rw [targetsAll, List.append_nil]
    exact h
  | cons op ops =>
    rw [targetsAll, ← List.append_assoc]
    exact met_visitAll1479 ops (met_visit1479 op h)

end

/-- **The check of a new proposal**: its targets have smaller ids. -/
theorem targetsAll_lt {ops : List (ProposedOperation ω)} {n : ℕ}
    (h : (visitAll1479 {} ops).nestedUpdateCount = 0 ∨ (visitAll1479 {} ops).maxUpdateInstance < n) :
    ∀ i ∈ targetsAll ops, i < n := by
  intro i hi
  have hmet : (visitAll1479 {} ops).Met ([] ++ targetsAll ops) :=
    met_visitAll1479 ops fun j hj ↦ (by cases hj)
  obtain ⟨hcount, hle⟩ := hmet i hi
  exact hle.trans_lt (h.resolve_left hcount)

/-! ### Traces -/

/-- **Nested executions**: all that happens is about proposals below `k`, and while a proposal is executed all that
happens is about proposals below it. -/
inductive Nested : ℕ → List (ProposalTrace ω) → Prop
  | nil (k : ℕ) : Nested k []
  | modified {k i : ℕ} {t : List (ProposalTrace ω)} (hi : i < k) (ht : Nested k t) :
      Nested k (.modified i :: t)
  | deleted {k i : ℕ} {t : List (ProposalTrace ω)} (hi : i < k) (ht : Nested k t) : Nested k (.deleted i :: t)
  | executed {k i : ℕ} {t t' : List (ProposalTrace ω)} (now : UInt32) (p : ProposalObject ω) (hi : i < k)
      (ht : Nested i t) (ht' : Nested k t') : Nested k (.executing i now p :: (t ++ .finished i :: t'))

namespace Nested

variable {k k' : ℕ} {t t' : List (ProposalTrace ω)}

theorem mono (h : Nested k t) (hk : k ≤ k') : Nested k' t := by
  induction h with
  | nil => exact .nil k'
  | modified hi _ ih => exact .modified (hi.trans_le hk) (ih hk)
  | deleted hi _ ih => exact .deleted (hi.trans_le hk) (ih hk)
  | executed now p hi ht _ _ ih => exact .executed now p (hi.trans_le hk) ht (ih hk)

theorem append (h : Nested k t) (h' : Nested k t') : Nested k (t ++ t') := by
  induction h with
  | nil => exact h'
  | modified hi _ ih => exact .modified hi (ih h')
  | deleted hi _ ih => exact .deleted hi (ih h')
  | executed now p hi ht _ _ ih =>
    rw [List.cons_append, List.append_assoc, List.cons_append]
    exact .executed now p hi ht (ih h')

end Nested

/-- **The review period is kept**: a proposal with one is executed only when it has expired. -/
def Timely (t : List (ProposalTrace ω)) : Prop :=
  ∀ i now p, .executing i now p ∈ t → p.reviewPeriodTime ≠ none → p.expirationTime ≤ now

/-- Two records one after the other. -/
theorem Timely.append {t t' : List (ProposalTrace ω)} (h : Timely t) (h' : Timely t') : Timely (t ++ t') := by
  intro i now p hmem
  rcases List.mem_append.mp hmem with hmem | hmem
  · exact h i now p hmem
  · exact h' i now p hmem

/-! ### Histories -/

/-- What updates do not change. -/
structure ProposalObject.SameTerms (p q : ProposalObject ω) : Prop where
  expirationTime : q.expirationTime = p.expirationTime
  reviewPeriodTime : q.reviewPeriodTime = p.reviewPeriodTime
  operations : q.operations = p.operations

namespace ProposalObject.SameTerms

variable {p q r : ProposalObject ω}

theorem refl (p : ProposalObject ω) : p.SameTerms p := ⟨rfl, rfl, rfl⟩

theorem trans (h : p.SameTerms q) (h' : q.SameTerms r) : p.SameTerms r :=
  ⟨h'.expirationTime.trans h.expirationTime, h'.reviewPeriodTime.trans h.reviewPeriodTime,
    h'.operations.trans h.operations⟩

end ProposalObject.SameTerms

/-- The three kinds of approvals. -/
inductive ApprovalKind
  | active
  | owner
  | key

/-- The approvals that a proposal has. -/
def ProposalObject.approvals (p : ProposalObject ω) : ApprovalKind → FlatSet ℕ
  | .active => p.availableActiveApprovals
  | .owner => p.availableOwnerApprovals
  | .key => p.availableKeyApprovals

/-- The approvals that an update adds. -/
def ProposalUpdateOperation.added (o : ProposalUpdateOperation) : ApprovalKind → FlatSet ℕ
  | .active => o.activeApprovalsToAdd
  | .owner => o.ownerApprovalsToAdd
  | .key => o.keyApprovalsToAdd

/-- Who approves after an update did so before, or is added by it. -/
theorem mem_approvals_approve {p : ProposalObject ω} {o : ProposalUpdateOperation} {kind : ApprovalKind} {x : ℕ}
    (h : x ∈ ((p.approve o).approvals kind).keys) : x ∈ (p.approvals kind).keys ∨ x ∈ (o.added kind).keys := by
  cases kind with
  | active =>
    have h := FlatSet.mem_keys_addAll.mp (FlatSet.mem_keys_eraseAll.mp h).1
    exact h
  | owner =>
    have h := FlatSet.mem_keys_addAll.mp (FlatSet.mem_keys_eraseAll.mp h).1
    exact h
  | key =>
    have h := FlatSet.mem_keys_addAll.mp (FlatSet.mem_keys_eraseAll.mp h).1
    exact h

/-- An approval is new in `p'` only if an update of the history has added it. -/
def Accounted (h : List (ProposalEvent ω)) (i : ProposalId) (p p' : ProposalObject ω) : Prop :=
  ∀ kind x, x ∈ (p'.approvals kind).keys → x ∈ (p.approvals kind).keys ∨
    ∃ now q o, .updated i now q o ∈ h ∧ x ∈ (o.added kind).keys ∧ x ∉ (q.approvals kind).keys

namespace ProposalState

variable {s s' s'' : ProposalState ω σ} {k k' i : ℕ} {p : ProposalObject ω} {r : ProposalRef}

/-- What is recorded about an update. -/
structure UpdateRecorded (s : ProposalState ω σ) (i : ProposalId) (now : UInt32) (q : ProposalObject ω)
    (o : ProposalUpdateOperation) : Prop where
  time_le : s.headBlockTime ≤ now
  /-- A proposal that was there before has kept its terms. -/
  same : i < s.proposals.nextId → ∃ p, s.proposals.find? i = some p ∧ p.SameTerms q
  /-- In its review period a proposal gets no approvals of accounts. -/
  review : ∀ t, q.reviewPeriodTime = some t → t ≤ now →
    o.activeApprovalsToAdd.keys = ∅ ∧ o.ownerApprovalsToAdd.keys = ∅

/-- **From one state to a later one.** -/
structure Later (s s' : ProposalState ω σ) : Prop where
  time_le : s.headBlockTime ≤ s'.headBlockTime
  next_le : s.proposals.nextId ≤ s'.proposals.nextId
  old : ∀ i p', i < s.proposals.nextId → s'.proposals.find? i = some p' →
    ∃ p, s.proposals.find? i = some p ∧ p.SameTerms p'
  history : ∃ h, s'.history = s.history ++ h ∧
    (∀ i now q o, .updated i now q o ∈ h → s.UpdateRecorded i now q o) ∧
    ∀ i p p', s.proposals.find? i = some p → s'.proposals.find? i = some p' → Accounted h i p p'

/-- **What happens to the proposals below `k`.** -/
structure Within (k : ℕ) (s s' : ProposalState ω σ) : Prop extends Later s s' where
  time_eq : s'.headBlockTime = s.headBlockTime
  witnesses_eq : s'.activeWitnesses = s.activeWitnesses
  kept : ∀ i p, k ≤ i → s.proposals.find? i = some p →
    s'.proposals.find? i = some p ∧ s'.address i = s.address i
  young : ∀ i p', s.proposals.nextId ≤ i → s'.proposals.find? i = some p' → s.headBlockTime < p'.expirationTime
  trace : ∃ t, s'.trace = s.trace ++ t ∧ Nested k t ∧ Timely t

/-- The ids of the proposals that were executed. -/
def executedIds (h : List (ProposalEvent ω)) : List ProposalId :=
  h.filterMap fun
    | .executed i => some i
    | _ => none

/-- **The invariant of proposals.** -/
structure Sound (s : ProposalState ω σ) : Prop where
  time : hardforkCore1479Time < s.headBlockTime
  /-- A proposal updates and deletes only proposals with smaller ids. -/
  ordered : ∀ i p, s.proposals.find? i = some p → ∀ j ∈ targetsAll p.operations, j < i
  executed_once : (executedIds s.history).Nodup
  executed_gone : ∀ i ∈ executedIds s.history, i < s.proposals.nextId ∧ s.proposals.find? i = none

/-- The reference can be used. -/
structure Live (s : ProposalState ω σ) (r : ProposalRef) (p : ProposalObject ω) : Prop where
  found : s.proposals.find? r.id = some p
  address : s.address r.id = r.address

/-- A reference to a proposal that lives can be followed. -/
theorem Live.deref (h : s.Live r p) : s.deref r = .ok p := by
  rw [ProposalState.deref, h.found]
  dsimp only
  rw [if_pos h.address]

theorem Later.refl (s : ProposalState ω σ) : Later s s where
  time_le := UInt32.le_refl _
  next_le := le_rfl
  old i p' _ hp' := ⟨p', hp', .refl p'⟩
  history := by
    refine ⟨[], (List.append_nil _).symm, fun i now q o h ↦ (by cases h), fun i p p' hp hp' kind x hx ↦ ?_⟩
    obtain rfl := Option.some.inj (hp.symm.trans hp')
    exact .inl hx

theorem Later.trans (h : Later s s') (h' : Later s' s'') : Later s s'' where
  time_le := UInt32.le_trans h.time_le h'.time_le
  next_le := h.next_le.trans h'.next_le
  old i p' hi hp' := by
    obtain ⟨q, hq, hqp⟩ := h'.old i p' (hi.trans_le h.next_le) hp'
    obtain ⟨p, hp, hpq⟩ := h.old i q hi hq
    exact ⟨p, hp, hpq.trans hqp⟩
  history := by
    obtain ⟨l, hl, hupdates, hgains⟩ := h.history
    obtain ⟨l', hl', hupdates', hgains'⟩ := h'.history
    refine ⟨l ++ l', by rw [hl', hl, List.append_assoc], fun i now q o hmem ↦ ?_, fun i p p' hp hp' kind x hx ↦ ?_⟩
    · rcases List.mem_append.mp hmem with hmem | hmem
      · exact hupdates i now q o hmem
      · obtain ⟨htime, hsame, hreview⟩ := hupdates' i now q o hmem
        refine ⟨UInt32.le_trans h.time_le htime, fun hi ↦ ?_, hreview⟩
        obtain ⟨q', hq', hq'q⟩ := hsame (hi.trans_le h.next_le)
        obtain ⟨p, hp, hpq'⟩ := h.old i q' hi hq'
        exact ⟨p, hp, hpq'.trans hq'q⟩
    -- the proposal was there in between
    · have hlt : i < s'.proposals.nextId := (ObjectIndex.lt_nextId_of_find? hp).trans_le h.next_le
      obtain ⟨q, hq, -⟩ := h'.old i p' hlt hp'
      rcases hgains' i q p' hq hp' kind x hx with hx | ⟨now, q', o, hmem, hadd⟩
      · rcases hgains i p q hp hq kind x hx with hx | ⟨now, q', o, hmem, hadd⟩
        · exact .inl hx
        · exact .inr ⟨now, q', o, List.mem_append.mpr (.inl hmem), hadd⟩
      · exact .inr ⟨now, q', o, List.mem_append.mpr (.inr hmem), hadd⟩

namespace Within

theorem refl (k : ℕ) (s : ProposalState ω σ) : Within k s s where
  toLater := .refl s
  time_eq := rfl
  witnesses_eq := rfl
  kept _ _ _ hp := ⟨hp, rfl⟩
  young i p' hi hp' := absurd (ObjectIndex.lt_nextId_of_find? hp') (not_lt.mpr hi)
  trace := ⟨[], (List.append_nil _).symm, .nil k, fun _ _ _ h ↦ (by cases h)⟩

theorem mono (h : Within k s s') (hk : k ≤ k') : Within k' s s' where
  toLater := h.toLater
  time_eq := h.time_eq
  witnesses_eq := h.witnesses_eq
  kept i p hi hp := h.kept i p (hk.trans hi) hp
  young := h.young
  trace := by
    obtain ⟨t, ht, hnested, htimely⟩ := h.trace
    exact ⟨t, ht, hnested.mono hk, htimely⟩

theorem trans (h : Within k s s') (h' : Within k s' s'') : Within k s s'' where
  toLater := h.toLater.trans h'.toLater
  time_eq := h'.time_eq.trans h.time_eq
  witnesses_eq := h'.witnesses_eq.trans h.witnesses_eq
  kept i p hi hp := by
    obtain ⟨hp', haddress⟩ := h.kept i p hi hp
    obtain ⟨hp'', haddress'⟩ := h'.kept i p hi hp'
    exact ⟨hp'', haddress'.trans haddress⟩
  young i p' hi hp' := by
    by_cases hlt : i < s'.proposals.nextId
    · obtain ⟨q, hq, hqp⟩ := h'.old i p' hlt hp'
      rw [hqp.expirationTime]
      exact h.young i q hi hq
    · rw [← h.time_eq]
      exact h'.young i p' (not_lt.mp hlt) hp'
  trace := by
    obtain ⟨t, ht, hnested, htimely⟩ := h.trace
    obtain ⟨t', ht', hnested', htimely'⟩ := h'.trace
    exact ⟨t ++ t', by rw [ht', ht, List.append_assoc], hnested.append hnested', htimely.append htimely'⟩

theorem live (h : Within k s s') (hlive : s.Live r p) (hr : k ≤ r.id) : s'.Live r p := by
  obtain ⟨hfind, haddress⟩ := h.kept r.id p hr hlive.found
  exact ⟨hfind, haddress.trans hlive.address⟩

/-- **Undoing** brings back the proposals, and leaves in place those that nothing has happened to. -/
theorem undo (h : Within k s s') : Within k s (s.undo s') where
  time_le := UInt32.le_refl _
  next_le := le_rfl
  old i p' _ hp' := ⟨p', hp', .refl p'⟩
  history := (Later.refl s).history
  time_eq := rfl
  witnesses_eq := rfl
  kept i p hi hp := by
    obtain ⟨hp', haddress⟩ := h.kept i p hi hp
    refine ⟨hp, ?_⟩
    dsimp only [ProposalState.undo]
    rw [hp', Option.isSome_some, if_pos rfl, haddress]
  young i p' hi hp' := absurd (ObjectIndex.lt_nextId_of_find? hp') (not_lt.mpr hi)
  trace := h.trace

end Within

/-- A session that is undone leaves a sound state. -/
theorem Sound.undo (h : s.Sound) (s' : ProposalState ω σ) : (s.undo s').Sound :=
  ⟨h.time, h.ordered, h.executed_once, h.executed_gone⟩

/-! ### Simple changes -/

section Changes

/-- A change of the rest of the chain. -/
theorem within_rest (k : ℕ) (s : ProposalState ω σ) (rest : σ) : Within k s { s with rest := rest } where
  toLater := ⟨UInt32.le_refl _, le_rfl, (Later.refl s).old, (Later.refl s).history⟩
  time_eq := rfl
  witnesses_eq := rfl
  kept _ _ _ hp := ⟨hp, rfl⟩
  young := (Within.refl k s).young
  trace := (Within.refl k s).trace

/-- The rest of the chain does not matter. -/
theorem Sound.rest (h : s.Sound) (rest : σ) : Sound { s with rest := rest } :=
  ⟨h.time, h.ordered, h.executed_once, h.executed_gone⟩

/-- A modification of one proposal that keeps its terms and is accounted for. -/
theorem within_modify {g : ProposalObject ω → ProposalObject ω} {h : List (ProposalEvent ω)}
    (hp : s.proposals.find? i = some p) (hi : i < k) (hterms : p.SameTerms (g p))
    (hupdates : ∀ j now q o, .updated j now q o ∈ h → s.UpdateRecorded j now q o)
    (haccounted : Accounted h i p (g p)) :
    Within k s { s with
      proposals := s.proposals.modify i g
      history := s.history ++ h
      trace := s.trace ++ [.modified i] } where
  time_le := UInt32.le_refl _
  next_le := le_rfl
  old j p' _ hp' := by
    rw [ObjectIndex.find?_modify] at hp'
    split_ifs at hp' with hj
    · subst hj
      rw [hp] at hp'
      obtain rfl := Option.some.inj hp'
      exact ⟨p, hp, hterms⟩
    · exact ⟨p', hp', .refl p'⟩
  history := by
    refine ⟨h, rfl, hupdates, fun j q q' hq hq' ↦ ?_⟩
    rw [ObjectIndex.find?_modify] at hq'
    split_ifs at hq' with hj
    · subst hj
      obtain rfl := Option.some.inj (hp.symm.trans hq)
      rw [hp] at hq'
      obtain rfl := Option.some.inj hq'
      exact haccounted
    · obtain rfl := Option.some.inj (hq.symm.trans hq')
      exact fun kind x hx ↦ .inl hx
  time_eq := rfl
  witnesses_eq := rfl
  kept j q hj hq := by
    refine ⟨?_, rfl⟩
    dsimp only
    rw [ObjectIndex.find?_modify_of_ne _ _ (hi.trans_le hj).ne', hq]
  young j p' hj hp' := by
    rw [ObjectIndex.find?_modify] at hp'
    split_ifs at hp' with hji
    · subst hji
      exact absurd (ObjectIndex.lt_nextId_of_find? hp) (not_lt.mpr hj)
    · exact absurd (ObjectIndex.lt_nextId_of_find? hp') (not_lt.mpr hj)
  trace := by
    refine ⟨[.modified i], rfl, .modified hi (.nil k), fun j now q hmem ↦ ?_⟩
    rcases List.mem_singleton.mp hmem with hmem
    cases hmem

/-- The executed ones of two histories. -/
theorem executedIds_append (h h' : List (ProposalEvent ω)) :
    executedIds (h ++ h') = executedIds h ++ executedIds h' := List.filterMap_append

/-- A proposal changes in its approvals. -/
theorem Sound.modify {g : ProposalObject ω → ProposalObject ω} {h : List (ProposalEvent ω)}
    {t : List (ProposalTrace ω)} (hsound : s.Sound) (hp : s.proposals.find? i = some p) (hterms : p.SameTerms (g p))
    (hexecuted : executedIds h = []) :
    Sound { s with proposals := s.proposals.modify i g, history := s.history ++ h, trace := t } where
  time := hsound.time
  ordered j q hq := by
    rw [ObjectIndex.find?_modify] at hq
    split_ifs at hq with hj
    · subst hj
      rw [hp] at hq
      obtain rfl := Option.some.inj hq
      rw [hterms.operations]
      exact hsound.ordered j p hp
    · exact hsound.ordered j q hq
  executed_once := by
    rw [executedIds_append, hexecuted, List.append_nil]
    exact hsound.executed_once
  executed_gone j hj := by
    rw [executedIds_append, hexecuted, List.append_nil] at hj
    obtain ⟨hlt, hnone⟩ := hsound.executed_gone j hj
    refine ⟨hlt, ?_⟩
    rw [ObjectIndex.find?_modify_of_ne, hnone]
    rintro rfl
    rw [hnone] at hp
    cases hp

theorem Sound.traced (h : s.Sound) (t : List (ProposalTrace ω)) : Sound { s with trace := t } :=
  ⟨h.time, h.ordered, h.executed_once, h.executed_gone⟩

theorem Live.traced (h : s.Live r p) (t : List (ProposalTrace ω)) : Live { s with trace := t } r p :=
  ⟨h.found, h.address⟩

/-- The removal of one proposal, with what is recorded about it. -/
theorem within_remove {h : List (ProposalEvent ω)} {t : List (ProposalTrace ω)} (hi : i < k)
    (hupdates : ∀ j now q o, .updated j now q o ∉ h) (ht : Nested k t) (htimely : Timely t) :
    Within k s { s with
      proposals := s.proposals.remove i
      history := s.history ++ h
      trace := s.trace ++ t } where
  time_le := UInt32.le_refl _
  next_le := le_rfl
  old j p' _ hp' := ⟨p', (ObjectIndex.find?_of_find?_remove hp').2, .refl p'⟩
  history := by
    refine ⟨h, rfl, fun j now q o hmem ↦ absurd hmem (hupdates j now q o), fun j q q' hq hq' ↦ ?_⟩
    obtain rfl := Option.some.inj (hq.symm.trans (ObjectIndex.find?_of_find?_remove hq').2)
    exact fun kind x hx ↦ .inl hx
  time_eq := rfl
  witnesses_eq := rfl
  kept j q hj hq := by
    refine ⟨?_, rfl⟩
    dsimp only
    rw [ObjectIndex.find?_remove_of_ne _ (hi.trans_le hj).ne', hq]
  young j p' hj hp' :=
    absurd (ObjectIndex.lt_nextId_of_find? (ObjectIndex.find?_of_find?_remove hp').2) (not_lt.mpr hj)
  trace := ⟨t, rfl, ht, htimely⟩

/-- A proposal goes, executed or not. -/
theorem Sound.remove {h : List (ProposalEvent ω)} {t : List (ProposalTrace ω)} (hsound : s.Sound)
    (hp : s.proposals.find? i = some p) (hexecuted : executedIds h = [] ∨ executedIds h = [i]) :
    Sound { s with proposals := s.proposals.remove i, history := s.history ++ h, trace := t } where
  time := hsound.time
  ordered j q hq := hsound.ordered j q (ObjectIndex.find?_of_find?_remove hq).2
  executed_once := by
    rw [executedIds_append]
    rcases hexecuted with hexecuted | hexecuted
    · rw [hexecuted, List.append_nil]
      exact hsound.executed_once
    -- the proposal is there, so it was not executed before
    · rw [hexecuted, List.nodup_append]
      refine ⟨hsound.executed_once, List.nodup_singleton i, fun j hj j' hj' ↦ ?_⟩
      obtain rfl := List.mem_singleton.mp hj'
      rintro rfl
      rw [(hsound.executed_gone j hj).2] at hp
      cases hp
  executed_gone j hj := by
    rw [executedIds_append] at hj
    dsimp only
    rw [ObjectIndex.find?_remove, ObjectIndex.nextId_remove]
    by_cases hji : j = i
    · subst hji
      exact ⟨ObjectIndex.lt_nextId_of_find? hp, if_pos rfl⟩
    · rw [if_neg hji]
      refine hsound.executed_gone j ?_
      rcases hexecuted with hexecuted | hexecuted
      · rwa [hexecuted, List.append_nil] at hj
      · rw [hexecuted] at hj
        exact (List.mem_append.mp hj).resolve_right fun h ↦ hji (List.mem_singleton.mp h)

/-- A new proposal. -/
theorem within_insert (k : ℕ) (hexpiration : s.headBlockTime < p.expirationTime) : Within k s (s.insert p) where
  time_le := UInt32.le_refl _
  next_le := Nat.le_succ _
  old i p' hi hp' := by
    dsimp only [insert] at hp'
    rw [ObjectIndex.find?_create, if_neg hi.ne] at hp'
    exact ⟨p', hp', .refl p'⟩
  history := by
    refine ⟨[.created s.proposals.nextId p], rfl, fun i now q o hmem ↦ ?_, fun i q q' hq hq' ↦ ?_⟩
    · cases List.mem_singleton.mp hmem
    · dsimp only [insert] at hq'
      rw [ObjectIndex.find?_create_of_some hq] at hq'
      obtain rfl := Option.some.inj hq'
      exact fun kind x hx ↦ .inl hx
  time_eq := rfl
  witnesses_eq := rfl
  kept i q _ hq := by
    refine ⟨ObjectIndex.find?_create_of_some hq p, ?_⟩
    dsimp only [insert]
    rw [Function.update_of_ne (ObjectIndex.lt_nextId_of_find? hq).ne]
  young i p' hi hp' := by
    dsimp only [insert] at hp'
    rw [ObjectIndex.find?_create] at hp'
    split_ifs at hp'
    · obtain rfl := Option.some.inj hp'
      exact hexpiration
    · exact absurd (ObjectIndex.lt_nextId_of_find? hp') (not_lt.mpr hi)
  trace := ⟨[], (List.append_nil _).symm, .nil k, fun _ _ _ h ↦ (by cases h)⟩

/-- A proposal that is about earlier ones comes in. -/
theorem Sound.insert (hsound : s.Sound) (hordered : ∀ j ∈ targetsAll p.operations, j < s.proposals.nextId) :
    (s.insert p).Sound where
  time := hsound.time
  ordered i q hq := by
    dsimp only [ProposalState.insert] at hq
    rw [ObjectIndex.find?_create] at hq
    split_ifs at hq with hi
    · obtain rfl := Option.some.inj hq
      rw [hi]
      exact hordered
    · exact hsound.ordered i q hq
  executed_once := by
    dsimp only [ProposalState.insert]
    rw [executedIds_append]
    exact (List.append_nil (executedIds s.history)).symm ▸ hsound.executed_once
  executed_gone i hi := by
    dsimp only [ProposalState.insert] at hi ⊢
    rw [executedIds_append] at hi
    have hi' : i ∈ executedIds s.history := (List.mem_append.mp hi).resolve_right fun h ↦ (by cases h)
    obtain ⟨hlt, hnone⟩ := hsound.executed_gone i hi'
    refine ⟨hlt.trans (Nat.lt_succ_self _), ?_⟩
    rw [ObjectIndex.find?_create, if_neg hlt.ne, hnone]

end Changes

/-! ### Operations -/

/-- What an exception leaves behind. -/
def Thrown (k : ℕ) (s : ProposalState ω σ) : ProposalStop ω σ → Prop
  | .exception _ s' => Within k s s' ∧ s'.Sound
  | .dangling => False

/-- A computation that stays below `k`, and ends well or with an exception. -/
def Lands (k : ℕ) (s : ProposalState ω σ) (x : Except (ProposalStop ω σ) (ProposalState ω σ)) : Prop :=
  x.Ensures (Thrown k s) fun s' ↦ Within k s s' ∧ s'.Sound

namespace Lands

variable {x : Except (ProposalStop ω σ) (ProposalState ω σ)}

theorem mono (h : Lands k s x) (hk : k ≤ k') : Lands k' s x := by
  cases x with
  | ok s' => exact ⟨h.1.mono hk, h.2⟩
  | error stop =>
    cases stop with
    | exception text s' => exact ⟨Within.mono h.1 hk, h.2⟩
    | dangling => exact h

/-- A step before a computation. -/
theorem after (h : Within k s s') (hx : Lands k s' x) : Lands k s x := by
  cases x with
  | ok s'' => exact ⟨h.trans hx.1, hx.2⟩
  | error stop =>
    cases stop with
    | exception text s'' => exact ⟨h.trans hx.1, hx.2⟩
    | dangling => exact hx

end Lands

/-- A failed check changes nothing. -/
theorem check_ensures {α : Type} (k : ℕ) (hsound : s.Sound) (x : Except String α) :
    (s.check x).Ensures (Thrown k s) fun a ↦ x = .ok a := by
  cases x with
  | ok a => exact rfl
  | error text => exact ⟨.refl k s, hsound⟩

/-- A proposal that is found lives. -/
theorem getProposal_ensures (k : ℕ) (hsound : s.Sound) (i : ProposalId) :
    (s.getProposal i).Ensures (Thrown k s) fun x ↦ x.1.id = i ∧ s.Live x.1 x.2 := by
  unfold getProposal
  cases hp : s.proposals.find? i with
  | some p => exact ⟨rfl, hp, rfl⟩
  | none => exact ⟨.refl k s, hsound⟩

theorem throwIf_eq_ok {q : Prop} [Decidable q] {text : String} {u : Unit} : throwIf q text = .ok u ↔ ¬q := by
  by_cases hq : q <;> simp [throwIf, hq]

/-- What a change of a proposal that lives leaves. -/
theorem modify_eq (hlive : s.Live r p) (g : ProposalObject ω → ProposalObject ω) : s.modify r g =
    .ok { s with proposals := s.proposals.modify r.id g, trace := s.trace ++ [.modified r.id] } := by
  unfold modify
  rw [hlive.deref]
  rfl

/-- What its removal leaves. -/
theorem remove_eq (hlive : s.Live r p) : s.remove r = .ok { s with proposals := s.proposals.remove r.id } := by
  unfold remove
  rw [hlive.deref]
  rfl

/-- A modification of a proposal that leaves its terms and its approvals alone. -/
theorem lands_modify {g : ProposalObject ω → ProposalObject ω} (hsound : s.Sound) (hlive : s.Live r p) (hr : r.id < k)
    (hterms : p.SameTerms (g p)) (happrovals : ∀ kind, (g p).approvals kind = p.approvals kind) :
    Lands k s (s.modify r g) := by
  rw [modify_eq hlive]
  have hwithin := within_modify (h := []) hlive.found hr hterms (fun j now q o h ↦ (by cases h))
    fun kind x hx ↦ .inl (happrovals kind ▸ hx)
  have hsound' := hsound.modify (h := []) (t := s.trace ++ [.modified r.id]) hlive.found hterms rfl
  rw [List.append_nil] at hwithin hsound'
  exact ⟨hwithin, hsound'⟩

/-- In the review period an update adds no approvals of accounts. -/
theorem evaluateUpdate_review {o : ProposalUpdateOperation} {u : Unit} (h : s.evaluateUpdate p o = .ok u)
    {t : UInt32} (ht : p.reviewPeriodTime = some t) (hle : t ≤ s.headBlockTime) :
    o.activeApprovalsToAdd.keys = ∅ ∧ o.ownerApprovalsToAdd.keys = ∅ := by
  unfold evaluateUpdate at h
  obtain ⟨_, hreview, -⟩ := Except.bind_eq_ok.1 h
  have hnot := throwIf_eq_ok.mp hreview
  have hin : p.reviewPeriodTime.any (· ≤ s.headBlockTime) = true := by
    rw [ht]
    exact decide_eq_true hle
  have hempty := not_not.mp fun hne ↦ hnot ⟨hin, hne⟩
  rw [FlatMap.isEmpty_iff, FlatMap.isEmpty_iff] at hempty
  rw [hempty.1, hempty.2]
  exact ⟨rfl, rfl⟩

/-- The approvals of an update: a modification that is recorded. -/
theorem approve_lands {o : ProposalUpdateOperation} (hsound : s.Sound) (hlive : s.Live r p) (hr : r.id < k)
    (hevaluate : s.evaluateUpdate p o = .ok ()) :
    (s.approve r p o).Ensures (fun _ ↦ False) fun s' ↦
      Within k s s' ∧ s'.Sound ∧ s'.Live r (p.approve o) := by
  unfold approve
  rw [modify_eq hlive]
  have hterms : p.SameTerms (p.approve o) := ⟨rfl, rfl, rfl⟩
  refine ⟨within_modify hlive.found hr hterms (fun j now q o' hmem ↦ ?_) fun kind x hx ↦ ?_,
    hsound.modify hlive.found hterms rfl, ?_, hlive.address⟩
  · cases List.mem_singleton.mp hmem
    refine ⟨UInt32.le_refl _, fun _ ↦ ⟨p, hlive.found, .refl p⟩, fun t ht hle ↦ ?_⟩
    exact evaluateUpdate_review hevaluate ht hle
  · by_cases hmem : x ∈ (p.approvals kind).keys
    · exact .inl hmem
    · exact .inr ⟨s.headBlockTime, p, o, List.mem_singleton.mpr rfl,
        (mem_approvals_approve hx).resolve_left hmem, hmem⟩
  · dsimp only
    rw [ObjectIndex.find?_modify, if_pos rfl, hlive.found]
    rfl

/-- A proposal is deleted. -/
theorem proposalDelete_lands (hsound : s.Sound) (o : ProposalDeleteOperation) (hk : o.proposal < k) :
    Lands k s (s.proposalDelete o) := by
  unfold proposalDelete
  refine (getProposal_ensures k hsound o.proposal).bind fun x ⟨hid, hlive⟩ ↦ ?_
  obtain ⟨r, p⟩ := x
  dsimp only at hid hlive ⊢
  rw [← hid] at hk
  refine (check_ensures k hsound _).bind fun _ _ ↦ ?_
  rw [remove_eq hlive, Except.ok_bind]
  refine ⟨within_remove hk (fun j now q o' hmem ↦ ?_) (.deleted hk (.nil k)) (fun j now q hmem ↦ ?_),
    hsound.remove hlive.found (.inl rfl)⟩
  · cases List.mem_singleton.mp hmem
  · cases List.mem_singleton.mp hmem

variable [ProposalRules ω σ]

/-- What a new proposal has passed. -/
theorem evaluateCreate_eq_ok {ops : List (ProposedOperation ω)} {expirationTime : UInt32}
    {reviewPeriodSeconds : Option UInt32} {u : Unit}
    (h : s.evaluateCreate ops expirationTime reviewPeriodSeconds = .ok u) :
    s.headBlockTime < expirationTime := by
  unfold evaluateCreate at h
  obtain ⟨_, -, h⟩ := Except.bind_eq_ok.1 h
  obtain ⟨_, -, h⟩ := Except.bind_eq_ok.1 h
  obtain ⟨_, hexpiration, -⟩ := Except.bind_eq_ok.1 h
  exact UInt32.not_le.mp (throwIf_eq_ok.mp hexpiration)

/-- A proposal is created. -/
theorem proposalCreate_lands (k : ℕ) (hsound : s.Sound) (feePayingAccount : AccountId)
    (ops : List (ProposedOperation ω)) (expirationTime : UInt32) (reviewPeriodSeconds : Option UInt32) :
    Lands k s (s.proposalCreate feePayingAccount ops expirationTime reviewPeriodSeconds) := by
  unfold proposalCreate
  refine (check_ensures k hsound _).bind fun _ hevaluate ↦ ?_
  have hexpiration := evaluateCreate_eq_ok hevaluate
  dsimp only
  split_ifs with hvisitor htime
  · exact ⟨within_insert k hexpiration, hsound.insert (targetsAll_lt hvisitor)⟩
  · exact ⟨.refl k s, hsound⟩
  · exact absurd hsound.time htime

/-- What an exception in the execution of a proposal leaves behind: the proposal is in its place. -/
def PushThrown (s : ProposalState ω σ) (r : ProposalRef) (p : ProposalObject ω) : ProposalStop ω σ → Prop
  | .exception _ s' => Within (r.id + 1) s s' ∧ s'.Sound ∧ s'.Live r p
  | .dangling => False

/-- **How nested executions behave**: the execution of a proposal below `k` that may be executed now does not touch
proposals above it; it is gone afterwards, unless there is an exception. -/
def PushSpec (k : ℕ) (push : ProposalRef → ProposalState ω σ → Except (ProposalStop ω σ) (ProposalState ω σ)) :
    Prop :=
  ∀ s r p, s.Sound → s.Live r p → r.id < k →
    (p.reviewPeriodTime ≠ none → p.expirationTime ≤ s.headBlockTime) →
    (push r s).Ensures (PushThrown s r p) fun s' ↦
      Within (r.id + 1) s s' ∧ s'.Sound ∧ s'.proposals.find? r.id = none

variable {push : ProposalRef → ProposalState ω σ → Except (ProposalStop ω σ) (ProposalState ω σ)}

/-- A proposal is updated, and executed if that completes its approvals. -/
theorem proposalUpdate_lands (hpush : PushSpec k push) (hsound : s.Sound) (o : ProposalUpdateOperation)
    (hk : o.proposal < k) : Lands k s (proposalUpdate push s o) := by
  unfold proposalUpdate
  refine (getProposal_ensures k hsound o.proposal).bind fun x ⟨hid, hlive⟩ ↦ ?_
  obtain ⟨r, p⟩ := x
  dsimp only at hid hlive ⊢
  rw [← hid] at hk
  refine (check_ensures k hsound _).bind fun _ hevaluate ↦ ?_
  obtain ⟨s₁, hs₁, hwithin, hsound₁, hlive₁⟩ := (approve_lands hsound hlive hk hevaluate).exists_ok
  rw [hs₁, Except.ok_bind, hlive₁.deref, Except.ok_bind]
  refine Lands.after hwithin ?_
  by_cases hreview : (p.approve o).reviewPeriodTime.isSome = true
  · rw [if_pos hreview]
    exact ⟨.refl k s₁, hsound₁⟩
  rw [if_neg hreview]
  split_ifs
  -- without a review period the proposal is executed
  · have hspec := hpush s₁ r (p.approve o) hsound₁ hlive₁ hk fun hne ↦
      absurd (Option.isSome_iff_ne_none.mpr hne) hreview
    split
    · rename_i s₂ hs₂
      obtain ⟨hwithin₂, hsound₂, -⟩ := hspec.of_ok hs₂
      exact ⟨hwithin₂.mono hk, hsound₂⟩
    · rename_i hs₂
      exact (hspec.of_error hs₂).elim
    · rename_i text s₂ hs₂
      obtain ⟨hwithin₂, hsound₂, hlive₂⟩ := hspec.of_error hs₂
      refine Lands.after (hwithin₂.mono hk) ?_
      exact lands_modify hsound₂ hlive₂ hk ⟨rfl, rfl, rfl⟩ fun kind ↦ (by cases kind <;> rfl)
  · exact ⟨.refl k s₁, hsound₁⟩

/-- **One operation.** -/
theorem evaluateOperation_lands (hpush : PushSpec k push) (hsound : s.Sound) (op : ProposedOperation ω)
    (hk : ∀ j ∈ targets op, j < k) : Lands k s (evaluateOperation push s op) := by
  unfold evaluateOperation
  cases op with
  | create feePayingAccount ops expirationTime reviewPeriodSeconds =>
    exact proposalCreate_lands k hsound feePayingAccount ops expirationTime reviewPeriodSeconds
  | update o => exact proposalUpdate_lands hpush hsound o (hk o.proposal (List.mem_singleton.mpr rfl))
  | delete o => exact proposalDelete_lands hsound o (hk o.proposal (List.mem_singleton.mpr rfl))
  | other x =>
    refine (check_ensures k hsound _).bind fun rest _ ↦ ?_
    exact ⟨within_rest k _ rest, hsound.rest rest⟩

theorem applyOperation_lands (hpush : PushSpec k push) (hsound : s.Sound) (op : ProposedOperation ω)
    (hk : ∀ j ∈ targets op, j < k) : Lands k s (applyOperation push s op) := by
  unfold applyOperation
  refine (check_ensures k hsound _).bind fun rest _ ↦ ?_
  refine Lands.after (within_rest k s rest) ?_
  refine Except.Ensures.bind (evaluateOperation_lands hpush (hsound.rest rest) op hk) ?_
  rintro s₁ ⟨hwithin, hsound₁⟩
  refine Lands.after hwithin ((check_ensures k hsound₁ _).bind fun rest₁ _ ↦ ?_)
  exact ⟨within_rest k s₁ rest₁, hsound₁.rest rest₁⟩

/-- The operations of a proposal, which stays in its place. -/
theorem applyOperations_lands (hpush : PushSpec r.id push) (ops : List (ProposedOperation ω))
    (hops : ∀ j ∈ targetsAll ops, j < r.id) (hsound : s.Sound) (hlive : s.Live r p) :
    Lands r.id s (applyOperations push r ops s) := by
  induction ops generalizing s with
  | nil => exact ⟨.refl _ s, hsound⟩
  | cons op ops ih =>
    rw [targetsAll] at hops
    have hop := applyOperation_lands hpush hsound op fun j hj ↦ hops j (List.mem_append.mpr (.inl hj))
    refine Except.Ensures.bind hop fun s₁ ⟨hwithin, hsound₁⟩ ↦ ?_
    have hlive₁ := hwithin.live hlive le_rfl
    rw [hlive₁.deref, Except.ok_bind]
    exact Lands.after hwithin (ih (fun j hj ↦ hops j (List.mem_append.mpr (.inr hj))) hsound₁ hlive₁)

/-! ### `push_proposal` -/

omit [ProposalRules ω σ] in
/-- What happens between the beginning and the end of an execution. -/
theorem within_executing (htime : p.reviewPeriodTime ≠ none → p.expirationTime ≤ s.headBlockTime)
    (h : Within i { s with trace := s.trace ++ [.executing i s.headBlockTime p] } s') :
    Within (i + 1) s { s' with trace := s'.trace ++ [.finished i] } where
  time_le := h.time_le
  next_le := h.next_le
  old := h.old
  history := by
    obtain ⟨l, hl, hupdates, hgains⟩ := h.history
    refine ⟨l, hl, fun j now q o hmem ↦ ?_, hgains⟩
    obtain ⟨htime, hsame, hreview⟩ := hupdates j now q o hmem
    exact ⟨htime, hsame, hreview⟩
  time_eq := h.time_eq
  witnesses_eq := h.witnesses_eq
  kept j q hj hq := h.kept j q ((Nat.le_succ i).trans hj) hq
  young := h.young
  trace := by
    obtain ⟨t, ht, hnested, htimely⟩ := h.trace
    refine ⟨.executing i s.headBlockTime p :: (t ++ [.finished i]), ?_,
      .executed s.headBlockTime p (Nat.lt_succ_self i) hnested (.nil _), fun j now q hmem ↦ ?_⟩
    · dsimp only
      rw [ht, List.append_assoc, List.append_assoc]
      rfl
    · rcases List.mem_cons.mp hmem with hmem | hmem
      · cases hmem
        exact htime
      · rcases List.mem_append.mp hmem with hmem | hmem
        · exact htimely j now q hmem
        · cases List.mem_singleton.mp hmem

omit [ProposalRules ω σ] in
/-- A proposal that lives before and after a session lives when it is undone. -/
theorem Live.undo (h : s.Live r p) (h' : s'.Live r p) : (s.undo s').Live r p := by
  refine ⟨h.found, ?_⟩
  dsimp only [ProposalState.undo]
  rw [h'.found, Option.isSome_some, if_pos rfl, h'.address]

/-- **The execution of a proposal**, however deep executions may nest. -/
theorem pushProposal_spec (depth k : ℕ) :
    PushSpec k (pushProposal depth : ProposalRef → ProposalState ω σ → _) := by
  induction depth generalizing k with
  | zero =>
    intro s r p hsound hlive _ _
    rw [pushProposal, hlive.deref]
    exact ⟨.refl _ s, hsound, hlive⟩
  | succ depth ih =>
    intro s r p hsound hlive _ htime
    rw [pushProposal, hlive.deref, Except.ok_bind]
    have hsound₀ := hsound.traced (s.trace ++ [.executing r.id s.headBlockTime p])
    have hlive₀ := hlive.traced (s.trace ++ [.executing r.id s.headBlockTime p])
    have hrun := applyOperations_lands (ih r.id) p.operations (hsound.ordered r.id p hlive.found) hsound₀ hlive₀
    have hall := hrun.bind (R := fun _ ↦ True) (f := fun s ↦ s.remove r) fun s₁ ⟨hwithin, _⟩ ↦ by
      rw [remove_eq (hwithin.live hlive₀ le_rfl)]
      trivial
    dsimp only
    split
    · rename_i s₂ hs₂
      obtain ⟨s₁, hs₁, hremove⟩ := Except.bind_eq_ok.1 hs₂
      obtain ⟨hwithin, hsound₁⟩ := hrun.of_ok hs₁
      have hlive₁ := hwithin.live hlive₀ le_rfl
      rw [remove_eq hlive₁] at hremove
      obtain rfl := Except.ok.inj hremove
      have hfinished := within_executing htime hwithin
      have hremoved := within_remove (s := { s₁ with trace := s₁.trace ++ [.finished r.id] }) (t := [])
        (h := [.executed r.id]) (Nat.lt_succ_self r.id) (fun j now q o hmem ↦ by cases List.mem_singleton.mp hmem)
        (.nil _) fun j now q hmem ↦ (by cases hmem)
      rw [List.append_nil] at hremoved
      refine ⟨hfinished.trans hremoved, hsound₁.remove hlive₁.found (.inr rfl), ?_⟩
      dsimp only
      rw [ObjectIndex.find?_remove, if_pos rfl]
    · rename_i hs₂
      exact (hall.of_error hs₂).elim
    · rename_i text s₁ hs₁
      obtain ⟨hwithin, -⟩ := hall.of_error hs₁
      have hlive₁ : (s.undo { s₁ with trace := s₁.trace ++ [.finished r.id] }).Live r p := by
        exact hlive.undo ((hwithin.live hlive₀ le_rfl).traced _)
      have hundone := (within_executing htime hwithin).undo
      have hderef := hlive₁.deref
      dsimp only [ProposalState.undo] at hderef hundone ⊢
      rw [hderef]
      exact ⟨hundone, hsound.undo { s₁ with trace := s₁.trace ++ [.finished r.id] }, hlive₁⟩

/-! ### The bound of the nesting -/

/-- Two functions for nested executions do the same below `k`. -/
def Agree (k : ℕ) (push push' : ProposalRef → ProposalState ω σ → Except (ProposalStop ω σ) (ProposalState ω σ)) :
    Prop :=
  ∀ s r p, s.Sound → s.Live r p → r.id < k → push r s = push' r s

variable {push' : ProposalRef → ProposalState ω σ → Except (ProposalStop ω σ) (ProposalState ω σ)}

/-- An update does not depend on the bound. -/
theorem proposalUpdate_agree (hagree : Agree k push push') (hsound : s.Sound) (o : ProposalUpdateOperation)
    (hk : o.proposal < k) : proposalUpdate push s o = proposalUpdate push' s o := by
  unfold proposalUpdate
  refine (getProposal_ensures k hsound o.proposal).bind_congr fun x ⟨hid, hlive⟩ ↦ ?_
  obtain ⟨r, p⟩ := x
  dsimp only at hid hlive ⊢
  rw [← hid] at hk
  refine (check_ensures k hsound _).bind_congr fun _ hevaluate ↦ ?_
  refine (approve_lands hsound hlive hk hevaluate).bind_congr fun s₁ ⟨_, hsound₁, hlive₁⟩ ↦ ?_
  rw [hlive₁.deref, Except.ok_bind, hagree s₁ r (p.approve o) hsound₁ hlive₁ hk]
  rfl

theorem evaluateOperation_agree (hagree : Agree k push push') (hsound : s.Sound) (op : ProposedOperation ω)
    (hk : ∀ j ∈ targets op, j < k) : evaluateOperation push s op = evaluateOperation push' s op := by
  cases op with
  | create => rfl
  | update o => exact proposalUpdate_agree hagree hsound o (hk o.proposal (List.mem_singleton.mpr rfl))
  | delete => rfl
  | other => rfl

theorem applyOperation_agree (hagree : Agree k push push') (hsound : s.Sound) (op : ProposedOperation ω)
    (hk : ∀ j ∈ targets op, j < k) : applyOperation push s op = applyOperation push' s op := by
  unfold applyOperation
  refine (check_ensures k hsound _).bind_congr fun rest _ ↦ ?_
  rw [evaluateOperation_agree hagree (hsound.rest rest) op hk]

/-- Neither do the operations of a proposal. -/
theorem applyOperations_agree (hpush : PushSpec r.id push) (hagree : Agree r.id push push')
    (ops : List (ProposedOperation ω)) (hops : ∀ j ∈ targetsAll ops, j < r.id) (hsound : s.Sound)
    (hlive : s.Live r p) : applyOperations push r ops s = applyOperations push' r ops s := by
  induction ops generalizing s with
  | nil => rfl
  | cons op ops ih =>
    rw [targetsAll] at hops
    have hop : ∀ j ∈ targets op, j < r.id := fun j hj ↦ hops j (List.mem_append.mpr (.inl hj))
    unfold applyOperations
    rw [← applyOperation_agree hagree hsound op hop]
    refine (applyOperation_lands hpush hsound op hop).bind_congr fun s₁ ⟨hwithin, hsound₁⟩ ↦ ?_
    have hlive₁ := hwithin.live hlive le_rfl
    rw [hlive₁.deref, Except.ok_bind, Except.ok_bind]
    exact ih (fun j hj ↦ hops j (List.mem_append.mpr (.inr hj))) hsound₁ hlive₁

/-- **Executions end by themselves**: with any bound of the nesting above the id of a proposal, its execution is the
same. Nested executions are of proposals with smaller ids. -/
theorem pushProposal_eq (n : ℕ) : ∀ depth depth', n < depth → n < depth' →
    ∀ (s : ProposalState ω σ) r p, s.Sound → s.Live r p → r.id = n →
      pushProposal depth r s = pushProposal depth' r s := by
  induction n using Nat.strong_induction_on with
  | _ n ih =>
    intro depth depth' hdepth hdepth' s r p hsound hlive hn
    obtain ⟨d, rfl⟩ := Nat.exists_eq_succ_of_ne_zero (Nat.ne_zero_of_lt hdepth)
    obtain ⟨d', rfl⟩ := Nat.exists_eq_succ_of_ne_zero (Nat.ne_zero_of_lt hdepth')
    have hagree : Agree r.id (pushProposal d) (pushProposal d' : ProposalRef → ProposalState ω σ → _) := by
      intro s₁ r₁ p₁ hsound₁ hlive₁ hlt
      rw [hn] at hlt
      exact ih r₁.id hlt d d' (hlt.trans_le (Nat.lt_succ_iff.mp hdepth)) (hlt.trans_le (Nat.lt_succ_iff.mp hdepth'))
        s₁ r₁ p₁ hsound₁ hlive₁ rfl
    have hops := applyOperations_agree (pushProposal_spec d r.id) hagree p.operations
      (hsound.ordered r.id p hlive.found) (hsound.traced (s.trace ++ [.executing r.id s.headBlockTime p]))
      (hlive.traced _)
    rw [pushProposal, pushProposal, hlive.deref, Except.ok_bind, Except.ok_bind]
    dsimp only
    rw [hops]

/-! ### Transactions and blocks -/

/-- **A transaction** goes through or is undone. -/
theorem applyTransaction_spec (hsound : s.Sound) (ops : List (ProposedOperation ω)) :
    ∃ s', s.applyTransaction ops = .ok s' ∧ s'.Sound ∧ ∃ k, Within k s s' := by
  obtain ⟨k, hk⟩ : ∃ k, ∀ op ∈ ops, ∀ j ∈ targets op, j < k := by
    refine ⟨(ops.flatMap targets).toFinset.sup id + 1, fun op hop j hj ↦ Nat.lt_succ_of_le ?_⟩
    exact Finset.le_sup (f := id) (List.mem_toFinset.mpr (List.mem_flatMap.mpr ⟨op, hop, hj⟩))
  have hrun : Lands k s (ops.foldlM (fun s op ↦ applyOperation (pushProposal s.maxNesting) s op) s) := by
    refine Except.Ensures.foldlM (fun s' ↦ Within k s s' ∧ s'.Sound) (fun op hop s' ⟨hwithin, hsound'⟩ ↦ ?_)
      ⟨.refl k s, hsound⟩
    exact Lands.after hwithin (applyOperation_lands (pushProposal_spec _ k) hsound' op (hk op hop))
  unfold applyTransaction
  split
  · rename_i s' hs'
    obtain ⟨hwithin, hsound'⟩ := hrun.of_ok hs'
    exact ⟨s', rfl, hsound', k, hwithin⟩
  · rename_i hs'
    exact (hrun.of_error hs').elim
  · rename_i text s' hs'
    obtain ⟨hwithin, -⟩ := hrun.of_error hs'
    exact ⟨s.undo s', rfl, hsound.undo s', k, hwithin.undo⟩

omit [ProposalRules ω σ] in
/-- What `clear_expired_proposals` looks at. -/
theorem mem_expired {p : ProposalObject ω} : (i, p) ∈ s.expired ↔
    s.proposals.find? i = some p ∧ p.expirationTime ≤ s.headBlockTime := by
  unfold expired
  rw [List.mem_filter, ObjectIndex.mem_orderedBy, decide_eq_true_eq]

omit [ProposalRules ω σ] in
/-- An expired proposal is executed or removed. -/
theorem expire_spec (hsound : s.Sound) (hlive : s.Live r p) : ∃ s', s.expire r = .ok s' ∧
    Within (r.id + 1) s s' ∧ s'.Sound ∧ s'.proposals.find? r.id = none := by
  unfold expire
  rw [remove_eq hlive]
  have hwithin := within_remove (s := s) (t := []) (h := [.expired r.id]) (Nat.lt_succ_self r.id)
    (fun j now q o hmem ↦ by cases List.mem_singleton.mp hmem) (.nil _) fun j now q hmem ↦ (by cases hmem)
  rw [List.append_nil] at hwithin
  refine ⟨_, rfl, hwithin, hsound.remove hlive.found (.inl rfl), ?_⟩
  dsimp only
  rw [ObjectIndex.find?_remove, if_pos rfl]

/-- **An expired proposal** is executed or not, and is gone. -/
theorem clearProposal_spec (hsound : s.Sound) (hlive : s.Live r p) (hexpired : p.expirationTime ≤ s.headBlockTime) :
    ∃ s', s.clearProposal r = .ok s' ∧ Within (r.id + 1) s s' ∧ s'.Sound ∧ s'.proposals.find? r.id = none := by
  unfold clearProposal
  rw [hlive.deref, Except.ok_bind]
  split_ifs
  · have hspec := pushProposal_spec s.maxNesting (r.id + 1) s r p hsound hlive (Nat.lt_succ_self _) fun _ ↦ hexpired
    split
    · rename_i s' hs'
      exact ⟨s', rfl, hspec.of_ok hs'⟩
    · rename_i hs'
      exact (hspec.of_error hs').elim
    · rename_i text s' hs'
      obtain ⟨hwithin, hsound', hlive'⟩ := hspec.of_error hs'
      obtain ⟨s'', hs'', hwithin', hrest⟩ := expire_spec hsound' hlive'
      exact ⟨s'', hs'', hwithin.trans hwithin', hrest⟩
  · exact expire_spec hsound hlive

omit [ProposalRules ω σ] in
theorem nodup_expired (s : ProposalState ω σ) : (s.expired.map Prod.fst).Nodup :=
  (ObjectIndex.nodup_orderedBy s.proposals _).sublist (List.filter_sublist.map _)

omit [ProposalRules ω σ] in
/-- Nothing expires while expired proposals are cleared. -/
theorem expired_subset (h : Within k s s') {x : ProposalId × ProposalObject ω} (hx : x ∈ s'.expired) :
    x.1 ∈ s.expired.map Prod.fst := by
  obtain ⟨i, p'⟩ := x
  obtain ⟨hp', hle⟩ := mem_expired.mp hx
  rw [h.time_eq] at hle
  by_cases hi : i < s.proposals.nextId
  · obtain ⟨p, hp, hterms⟩ := h.old i p' hi hp'
    rw [hterms.expirationTime] at hle
    exact List.mem_map.mpr ⟨(i, p), mem_expired.mpr ⟨hp, hle⟩, rfl⟩
  · exact absurd hle (UInt32.not_le.mpr (h.young i p' (not_lt.mp hi) hp'))

/-- **The loop** ends with no expired proposal left. -/
theorem clearLoop_spec (n : ℕ) : ∀ s : ProposalState ω σ, s.Sound → s.expired.length ≤ n →
    ∃ s', clearLoop n s = .ok s' ∧ s'.Sound ∧ s'.expired = [] ∧ ∃ k, Within k s s' := by
  induction n with
  | zero => exact fun s hsound hlen ↦ ⟨s, rfl, hsound, List.length_eq_zero_iff.mp (Nat.le_zero.mp hlen), 0, .refl 0 s⟩
  | succ n ih =>
    intro s hsound hlen
    unfold clearLoop
    cases hexpired : s.expired with
    | nil => exact ⟨s, rfl, hsound, hexpired, 0, .refl 0 s⟩
    | cons x l =>
      obtain ⟨i, p⟩ := x
      obtain ⟨hp, hle⟩ := mem_expired.mp (hexpired ▸ List.mem_cons_self : (i, p) ∈ s.expired)
      obtain ⟨s₁, hs₁, hwithin, hsound₁, hgone⟩ :=
        clearProposal_spec (r := ⟨i, s.address i⟩) hsound ⟨hp, rfl⟩ hle
      -- one expired proposal less
      have hsubset : s₁.expired.map Prod.fst ⊆ l.map Prod.fst := by
        intro j hj
        obtain ⟨x, hx, rfl⟩ := List.mem_map.mp hj
        have hmem := expired_subset hwithin hx
        rw [hexpired, List.map_cons] at hmem
        refine (List.mem_cons.mp hmem).resolve_left fun hxi ↦ ?_
        have hfound := (mem_expired.mp hx).1
        rw [hxi] at hfound
        exact Option.some_ne_none x.2 (hfound.symm.trans hgone)
      have hlen₁ : s₁.expired.length ≤ n := by
        have hle := ((nodup_expired s₁).subperm hsubset).length_le
        rw [List.length_map, List.length_map] at hle
        rw [hexpired, List.length_cons] at hlen
        omega
      obtain ⟨s', hs', hsound', hnone, k, hwithin'⟩ := ih s₁ hsound₁ hlen₁
      refine ⟨s', ?_, hsound', hnone, max (i + 1) k, ?_⟩
      · dsimp only
        rw [hs₁, Except.ok_bind, hs']
      · exact (hwithin.mono (le_max_left _ _)).trans (hwithin'.mono (le_max_right _ _))

/-- **A block** leaves no expired proposal. -/
theorem finishBlock_spec (hsound : s.Sound) {now : UInt32} (hnow : s.headBlockTime ≤ now) (activeWitnesses : ℕ)
    (rest : σ) : ∃ s₀ s', s.finishBlock now activeWitnesses rest = .ok s' ∧ s'.Sound ∧ s'.expired = [] ∧
      s₀ = { s with headBlockTime := now, activeWitnesses := activeWitnesses, rest := rest } ∧
      ∃ k, Within k s₀ s' := by
  have hsound₀ :
      Sound { s with headBlockTime := now, activeWitnesses := activeWitnesses, rest := rest } :=
    ⟨UInt32.lt_of_lt_of_le hsound.time hnow, hsound.ordered, hsound.executed_once, hsound.executed_gone⟩
  obtain ⟨s', hs', hsound', hexpired, hwithin⟩ := clearLoop_spec _ _ hsound₀ le_rfl
  exact ⟨_, s', hs', hsound', hexpired, rfl, hwithin⟩

/-! ### Runs -/

/-- The invariant of a run. -/
structure Kept (s : ProposalState ω σ) : Prop where
  sound : s.Sound
  nested : ∃ k, Nested k s.trace
  timely : Timely s.trace

omit [ProposalRules ω σ] in
/-- The invariant holds at the start. -/
theorem Initial.kept (h : s.Initial) : s.Kept where
  sound := by
    refine ⟨h.time, fun i p hp ↦ ?_, ?_, fun i hi ↦ ?_⟩
    · rw [h.proposals] at hp
      cases hp
    · rw [h.history]
      exact List.nodup_nil
    · rw [h.history] at hi
      cases hi
  nested := by
    rw [h.trace]
    exact ⟨0, .nil 0⟩
  timely := by
    rw [h.trace]
    exact fun i now p hmem ↦ (by cases hmem)

omit [ProposalRules ω σ] in
/-- Calls that stay within their bounds keep it. -/
theorem Kept.within (h : s.Kept) (hwithin : Within k s s') (hsound : s'.Sound) : s'.Kept where
  sound := hsound
  nested := by
    obtain ⟨k', hnested⟩ := h.nested
    obtain ⟨t, ht, hnested', -⟩ := hwithin.trace
    rw [ht]
    exact ⟨max k' k, (hnested.mono (le_max_left _ _)).append (hnested'.mono (le_max_right _ _))⟩
  timely := by
    obtain ⟨t, ht, -, htimely⟩ := hwithin.trace
    rw [ht]
    exact h.timely.append htimely

/-- **One step**: the invariant, and what has become of the proposals. -/
theorem Kept.step (h : s.Kept) (hstep : Step s s') : s'.Kept ∧ Later s s' := by
  cases hstep with
  | transaction ops hs' =>
    obtain ⟨s₁, hs₁, hsound, k, hwithin⟩ := applyTransaction_spec h.sound ops
    obtain rfl := Except.ok.inj (hs₁.symm.trans hs')
    exact ⟨h.within hwithin hsound, hwithin.toLater⟩
  | block now activeWitnesses rest hnow hs' =>
    obtain ⟨s₀, s₁, hs₁, hsound, -, rfl, k, hwithin⟩ := finishBlock_spec h.sound hnow activeWitnesses rest
    obtain rfl := Except.ok.inj (hs₁.symm.trans hs')
    have hkept : Kept { s with headBlockTime := now, activeWitnesses := activeWitnesses, rest := rest } :=
      ⟨⟨UInt32.lt_of_lt_of_le h.sound.time hnow, h.sound.ordered, h.sound.executed_once, h.sound.executed_gone⟩,
        h.nested, h.timely⟩
    have hlater : Later s { s with headBlockTime := now, activeWitnesses := activeWitnesses, rest := rest } :=
      ⟨hnow, le_rfl, (Later.refl s).old, (Later.refl s).history⟩
    exact ⟨hkept.within hwithin hsound, hlater.trans hwithin.toLater⟩

/-- So does every run. -/
theorem Kept.run (h : s.Kept) (hrun : Relation.ReflTransGen Step s s') : s'.Kept ∧ Later s s' := by
  induction hrun with
  | refl => exact ⟨h, .refl s⟩
  | tail _ hstep ih =>
    obtain ⟨hkept, hlater⟩ := ih.1.step hstep
    exact ⟨hkept, ih.2.trans hlater⟩

/-- **The execution of proposals is well-founded.** In every state of a run:
while a proposal is executed, all that happens is about proposals with smaller ids; a proposal is executed at most
once, and is gone then; a transaction and a block use no reference to a proposal that is not there, and a block leaves
no expired proposal; and the execution of a proposal does not depend on the bound of the nesting, if that is above its
id. -/
theorem proposals_wellFounded {s₀ : ProposalState ω σ} (h₀ : s₀.Initial) (h : Relation.ReflTransGen Step s₀ s) :
    (∃ k, Nested k s.trace) ∧
    (executedIds s.history).Nodup ∧ (∀ i ∈ executedIds s.history, s.proposals.find? i = none) ∧
    (∀ ops, ∃ s', s.applyTransaction ops = .ok s') ∧
    (∀ now activeWitnesses rest, s.headBlockTime ≤ now →
      ∃ s', s.finishBlock now activeWitnesses rest = .ok s' ∧ s'.expired = []) ∧
    ∀ i p, s.proposals.find? i = some p → ∀ depth, i < depth →
      pushProposal depth ⟨i, s.address i⟩ s = pushProposal (i + 1) ⟨i, s.address i⟩ s := by
  obtain ⟨hsound, hnested, -⟩ := (h₀.kept.run h).1
  refine ⟨hnested, hsound.executed_once, fun i hi ↦ (hsound.executed_gone i hi).2, fun ops ↦ ?_,
    fun now activeWitnesses rest hnow ↦ ?_, fun i p hp depth hdepth ↦ ?_⟩
  · obtain ⟨s', hs', -⟩ := applyTransaction_spec hsound ops
    exact ⟨s', hs'⟩
  · obtain ⟨s₁, s', hs', -, hexpired, -⟩ := finishBlock_spec hsound hnow activeWitnesses rest
    exact ⟨s', hs', hexpired⟩
  · exact pushProposal_eq i depth (i + 1) hdepth (Nat.lt_succ_self i) s ⟨i, s.address i⟩ p hsound ⟨hp, rfl⟩ rfl

end ProposalState

/-! ### A chain of proposals -/

/-- A chain on which account 1 can do everything, and other operations count. -/
instance : ProposalRules Unit ℕ where
  validate _ := .ok ()
  admits _ _ _ := .ok ()
  requiredAuthorities _ := { active := FlatSet.ofList [1] }
  payFee rest _ := .ok rest
  deductFee rest _ := .ok rest
  evaluate _ rest _ := .ok (rest + 1)
  verifyAuthority _ _ _ keys active _ := active.contains 1 || keys.contains 1
  maximumProposalLifetime _ := 1000
  committeeProposalReviewPeriod _ := 100
  preventApproval := ()

/-- The chain before the first proposal. -/
def noProposals : ProposalState Unit ℕ where
  proposals := ∅
  address _ := 0
  nextAddress := 0
  headBlockTime := 1600000000
  activeWitnesses := 11
  rest := 0

theorem initial_noProposals : noProposals.Initial := ⟨rfl, rfl, rfl, by decide⟩

/-- The approval of a proposal by account 1. -/
def approvalOf (i : ProposalId) : ProposedOperation Unit :=
  .update { feePayingAccount := 1, proposal := i, activeApprovalsToAdd := FlatSet.ofList [1] }

/-- A proposal, a proposal of its approval, and the approval of the latter. -/
def approvalChain : List (ProposedOperation Unit) :=
  [.create 1 [.other ()] 1600000100 none, .create 1 [approvalOf 0] 1600000100 none, approvalOf 1]

theorem proposals_wellFounded_nested : ∃ s : ProposalState Unit ℕ,
    ProposalState.executedIds s.history = [0, 1] ∧ s.rest = 1 ∧ ∃ k, Nested k s.trace := by
  obtain ⟨s, hs, hexecuted, hrest⟩ : ∃ s : ProposalState Unit ℕ, noProposals.applyTransaction approvalChain = .ok s ∧
      ProposalState.executedIds s.history = [0, 1] ∧ s.rest = 1 := ⟨_, rfl, rfl, rfl⟩
  have hrun : Relation.ReflTransGen ProposalState.Step noProposals s := .single (.transaction approvalChain hs)
  exact ⟨s, hexecuted, hrest, (ProposalState.proposals_wellFounded initial_noProposals hrun).1⟩

end Playchain
