import Playchain.Graphene.ProposalObject
import Playchain.Lib.ObjectIndex
import Playchain.Lib.Control

/-!
# The life of proposals

The evaluators of `proposal_create`, `proposal_update` and `proposal_delete`, `push_proposal`, which they call and which
calls them, and `clear_expired_proposals`. Operations other than those on proposals, the authorities and the parameters
of the chain are given from outside (`ProposalRules`).

Functions of the source hold references to proposals across calls. A `ProposalRef` names the proposal and the place
where it is stored, and every use of a reference is checked (`ProposalState.deref`): a proposal that was removed is
no longer there, and one that an undone session brings back is stored in a new place.

The state carries two records that the source does not have: the *history* of what has been done to proposals, which
a session that is undone takes back, and the *trace* of all that has happened, undone or not.
-/

namespace Playchain

def hardforkCore214Time : UInt32 := 1532008920
def hardforkCore1479Time : UInt32 := 1545436800

/-- What `operation_get_required_authorities` collects. -/
structure RequiredAuthorities where
  active : FlatSet AccountId := ∅
  owner : FlatSet AccountId := ∅
  /-- The number of other authorities. -/
  other : ℕ := 0

/-- What the rest of the chain does. -/
class ProposalRules (ω σ : Type) where
  /-- `operation_validate` -/
  validate : ProposedOperation ω → Except String Unit
  /-- `proposal_operation_hardfork_visitor` on an operation that is not about proposals -/
  admits : UInt32 → σ → ω → Except String Unit
  /-- `operation_get_required_authorities` -/
  requiredAuthorities : ProposedOperation ω → RequiredAuthorities
  /-- `prepare_fee`, `convert_fee` and `pay_fee` -/
  payFee : σ → ProposedOperation ω → Except String σ
  /-- The fee payer is charged, after the operation. -/
  deductFee : σ → ProposedOperation ω → Except String σ
  /-- The evaluator of an operation that is not about proposals. -/
  evaluate : UInt32 → σ → ω → Except String σ
  /-- `verify_authority`, with the approvals of keys, of active and of owner authorities -/
  verifyAuthority : UInt32 → σ → List (ProposedOperation ω) → FlatSet PublicKey → FlatSet AccountId →
    FlatSet AccountId → Bool
  /-- `maximum_proposal_lifetime` -/
  maximumProposalLifetime : σ → UInt32
  /-- `committee_proposal_review_period` -/
  committeeProposalReviewPeriod : σ → UInt32
  /-- The transfer that is added to a proposal to prevent its approval. -/
  preventApproval : ω

/-- A failed assertion. -/
def throwIf (p : Prop) [Decidable p] (text : String) : Except String Unit :=
  if p then .error text else .ok ()

/-! ### Visitors -/

/-- `hardfork_visitor_1479` -/
structure HardforkVisitor1479 where
  maxUpdateInstance : ℕ := 0
  nestedUpdateCount : ℕ := 0

/-- A visit of an update or of a deletion. -/
def HardforkVisitor1479.visitProposal (v : HardforkVisitor1479) (i : ProposalId) : HardforkVisitor1479 where
  maxUpdateInstance := if v.nestedUpdateCount = 0 ∨ v.maxUpdateInstance < i then i else v.maxUpdateInstance
  nestedUpdateCount := v.nestedUpdateCount + 1

section Visitors

variable {ω σ : Type}

mutual

/-- `hardfork_visitor_1479::operator()` -/
def visit1479 (v : HardforkVisitor1479) : ProposedOperation ω → HardforkVisitor1479
  | .create _ ops _ _ => visitAll1479 v ops
  | .update o => v.visitProposal o.proposal
  | .delete o => v.visitProposal o.proposal
  | .other _ => v

def visitAll1479 (v : HardforkVisitor1479) : List (ProposedOperation ω) → HardforkVisitor1479
  | [] => v
  | op :: ops => visitAll1479 (visit1479 v op) ops

end

variable [ProposalRules ω σ]

mutual

/-- `proposal_operation_hardfork_visitor::operator()` -/
def visitHardfork (now : UInt32) (rest : σ) : ProposedOperation ω → Except String Unit
  | .create _ ops _ _ => visitAllHardfork now rest false ops
  | .update _ => .ok ()
  | .delete _ => .ok ()
  | .other x => ProposalRules.admits now rest x

def visitAllHardfork (now : UInt32) (rest : σ) (alreadyContainsProposalUpdate : Bool) :
    List (ProposedOperation ω) → Except String Unit
  | [] => .ok ()
  | op :: ops => do
    visitHardfork now rest op
    match op with
    | .update _ =>
      if alreadyContainsProposalUpdate then throw "At most one proposal update can be nested in a proposal!"
      else visitAllHardfork now rest true ops
    | _ => visitAllHardfork now rest alreadyContainsProposalUpdate ops

end

end Visitors

/-- `hardfork_visitor_214` -/
def visit214 {ω : Type} (op : ProposedOperation ω) : Except String Unit :=
  match op with
  | .update _ => .error "Not allowed until hardfork 214"
  | _ => .ok ()

/-! ### The state -/

/-- What has been done to proposals. -/
inductive ProposalEvent (ω : Type) where
  | created (i : ProposalId) (p : ProposalObject ω)
  /-- The operation, and the proposal before it. -/
  | updated (i : ProposalId) (now : UInt32) (p : ProposalObject ω) (o : ProposalUpdateOperation)
  | executed (i : ProposalId)
  | deleted (i : ProposalId)
  | expired (i : ProposalId)

/-- What happens while operations are applied. -/
inductive ProposalTrace (ω : Type) where
  | modified (i : ProposalId)
  | deleted (i : ProposalId)
  /-- The operations of a proposal begin. -/
  | executing (i : ProposalId) (now : UInt32) (p : ProposalObject ω)
  /-- The operations of a proposal have ended, for better or worse. -/
  | finished (i : ProposalId)

/-- The proposals, and what the evaluators read of the rest of the chain. -/
structure ProposalState (ω σ : Type) where
  proposals : ObjectIndex (ProposalObject ω)
  /-- Where a proposal is stored. -/
  address : ProposalId → ℕ
  nextAddress : ℕ
  headBlockTime : UInt32
  /-- The number of active witnesses. -/
  activeWitnesses : ℕ
  rest : σ
  history : List (ProposalEvent ω) := []
  trace : List (ProposalTrace ω) := []

/-- A reference to a proposal. -/
structure ProposalRef where
  id : ProposalId
  address : ℕ

/-- Why a computation ends early. -/
inductive ProposalStop (ω σ : Type) where
  /-- An exception, with what it leaves behind. -/
  | exception (text : String) (s : ProposalState ω σ)
  /-- A reference is used to a proposal that is not there. -/
  | dangling

namespace ProposalState

variable {ω σ : Type}

/-- Use a reference. -/
def deref (s : ProposalState ω σ) (r : ProposalRef) : Except (ProposalStop ω σ) (ProposalObject ω) :=
  match s.proposals.find? r.id with
  | some p => if s.address r.id = r.address then .ok p else .error .dangling
  | none => .error .dangling

/-- `id(d)`: a reference to a proposal that has to be there. -/
def getProposal (s : ProposalState ω σ) (i : ProposalId) :
    Except (ProposalStop ω σ) (ProposalRef × ProposalObject ω) :=
  match s.proposals.find? i with
  | some p => .ok (⟨i, s.address i⟩, p)
  | none => .error (.exception "Unable to find Object" s)

/-- A check that fails with an exception. -/
def check {α : Type} (s : ProposalState ω σ) (x : Except String α) : Except (ProposalStop ω σ) α :=
  x.mapError fun text ↦ .exception text s

/-- `modify`, through a reference -/
def modify (s : ProposalState ω σ) (r : ProposalRef) (g : ProposalObject ω → ProposalObject ω) :
    Except (ProposalStop ω σ) (ProposalState ω σ) := do
  let _ ← s.deref r
  return { s with proposals := s.proposals.modify r.id g, trace := s.trace ++ [.modified r.id] }

/-- `remove`, through a reference -/
def remove (s : ProposalState ω σ) (r : ProposalRef) : Except (ProposalStop ω σ) (ProposalState ω σ) := do
  let _ ← s.deref r
  return { s with proposals := s.proposals.remove r.id }

/-- The end of a session that is undone: the proposals are those of its start. One that the session has removed is
stored in a new place, the others stay where they are. -/
def undo (start s : ProposalState ω σ) : ProposalState ω σ :=
  { start with
    address := fun i ↦ if (s.proposals.find? i).isSome then s.address i else s.nextAddress + i
    nextAddress := s.nextAddress + start.proposals.nextId
    trace := s.trace }

variable [ProposalRules ω σ]

/-- `is_authorized_to_execute` -/
def isAuthorizedToExecute (s : ProposalState ω σ) (p : ProposalObject ω) : Bool :=
  ProposalRules.verifyAuthority s.headBlockTime s.rest p.operations p.availableKeyApprovals
    p.availableActiveApprovals p.availableOwnerApprovals

/-! ### `proposal_create_evaluator` -/

/-- The authorities that operations ask for together. -/
def requiredAuthorities (σ : Type) [ProposalRules ω σ] (ops : List (ProposedOperation ω)) : RequiredAuthorities :=
  ops.foldl (fun auths op ↦
    let required := ProposalRules.requiredAuthorities σ op
    { active := FlatSet.addAll auths.active required.active
      owner := FlatSet.addAll auths.owner required.owner
      other := auths.other + required.other }) {}

/-- What the committee's proposals have to meet. -/
def checkReviewPeriod (s : ProposalState ω σ) (ops : List (ProposedOperation ω))
    (reviewPeriodSeconds : Option UInt32) : Except String Unit := do
  let auths := requiredAuthorities σ ops
  throwIf (auths.other ≠ 0) "other.size() == 0"
  let all := FlatSet.addAll auths.active auths.owner
  if all.contains committeeAccount ∨ all.contains relaxedCommitteeAccount then
    match reviewPeriodSeconds with
    | none => throw "Review period not given, but at least ${min} required"
    | some t =>
      throwIf (t < ProposalRules.committeeProposalReviewPeriod ω s.rest)
        "Review period of ${t} specified, but at least ${min} required"

/-- Before a hard fork, a proposal does not update another one. -/
def checkNoUpdates (s : ProposalState ω σ) (ops : List (ProposedOperation ω)) : Except String Unit :=
  if s.headBlockTime < hardforkCore214Time then ops.forM visit214 else .ok ()

/-- `proposal_create_evaluator::do_evaluate` -/
def evaluateCreate (s : ProposalState ω σ) (ops : List (ProposedOperation ω)) (expirationTime : UInt32)
    (reviewPeriodSeconds : Option UInt32) : Except String Unit := do
  visitAllHardfork s.headBlockTime s.rest false ops
  s.checkNoUpdates ops
  throwIf (expirationTime ≤ s.headBlockTime) "Proposal has already expired on creation."
  throwIf (s.headBlockTime + ProposalRules.maximumProposalLifetime ω s.rest < expirationTime)
    "Proposal expiration time is too far in the future."
  throwIf (reviewPeriodSeconds.any fun t ↦ expirationTime.toNat - s.headBlockTime.toNat ≤ t.toNat)
    "Proposal review period must be less than its overall lifetime."
  s.checkReviewPeriod ops reviewPeriodSeconds
  throwIf ops.isEmpty "A transaction must have at least one operation"
  ops.forM (ProposalRules.validate σ)

/-- The new proposal. Whoever gives owner approval need not give active approval. -/
def newProposal (σ : Type) [ProposalRules ω σ] (feePayingAccount : AccountId) (ops : List (ProposedOperation ω))
    (expirationTime : UInt32) (reviewPeriodSeconds : Option UInt32) : ProposalObject ω :=
  let auths := requiredAuthorities σ ops
  { expirationTime := expirationTime
    reviewPeriodTime := reviewPeriodSeconds.map fun t ↦ expirationTime - t
    operations := ops
    requiredActiveApprovals := FlatSet.eraseAll auths.active auths.owner
    requiredOwnerApprovals := auths.owner
    proposer := feePayingAccount }

/-- The insertion of a new proposal. -/
def insert (s : ProposalState ω σ) (p : ProposalObject ω) : ProposalState ω σ :=
  { s with
    proposals := s.proposals.create p
    address := Function.update s.address s.proposals.nextId s.nextAddress
    nextAddress := s.nextAddress + 1
    history := s.history ++ [.created s.proposals.nextId p] }

/-- `proposal_create_evaluator` -/
def proposalCreate (s : ProposalState ω σ) (feePayingAccount : AccountId) (ops : List (ProposedOperation ω))
    (expirationTime : UInt32) (reviewPeriodSeconds : Option UInt32) :
    Except (ProposalStop ω σ) (ProposalState ω σ) := do
  s.check (s.evaluateCreate ops expirationTime reviewPeriodSeconds)
  let visitor := visitAll1479 {} ops
  let p := newProposal σ feePayingAccount ops expirationTime reviewPeriodSeconds
  if visitor.nestedUpdateCount = 0 ∨ visitor.maxUpdateInstance < s.proposals.nextId then
    return s.insert p
  else if hardforkCore1479Time < s.headBlockTime then
    throw (.exception "Cannot update/delete a proposal with a future id!" s)
  else
    return s.insert { p with operations := ops ++ [.other (ProposalRules.preventApproval σ)] }

/-! ### `proposal_update_evaluator` and `proposal_delete_evaluator` -/

/-- `proposal_update_evaluator::do_evaluate` -/
def evaluateUpdate (s : ProposalState ω σ) (p : ProposalObject ω) (o : ProposalUpdateOperation) :
    Except String Unit := do
  throwIf (p.reviewPeriodTime.any (· ≤ s.headBlockTime) ∧
      ¬(o.activeApprovalsToAdd.isEmpty ∧ o.ownerApprovalsToAdd.isEmpty))
    "This proposal is in its review period. No new approvals may be added."
  throwIf (!o.activeApprovalsToRemove.elements.all p.availableActiveApprovals.contains) ""
  throwIf (!o.ownerApprovalsToRemove.elements.all p.availableOwnerApprovals.contains) ""

/-- The approvals of a proposal after an update. -/
def approve (s : ProposalState ω σ) (r : ProposalRef) (p : ProposalObject ω) (o : ProposalUpdateOperation) :
    Except (ProposalStop ω σ) (ProposalState ω σ) := do
  let s ← s.modify r fun p ↦ p.approve o
  return { s with history := s.history ++ [.updated r.id s.headBlockTime p o] }

/-- `proposal_update_evaluator`. A proposal that fails to execute is told why. -/
def proposalUpdate (push : ProposalRef → ProposalState ω σ → Except (ProposalStop ω σ) (ProposalState ω σ))
    (s : ProposalState ω σ) (o : ProposalUpdateOperation) : Except (ProposalStop ω σ) (ProposalState ω σ) := do
  let (r, p) ← s.getProposal o.proposal
  s.check (s.evaluateUpdate p o)
  let s ← s.approve r p o
  let p ← s.deref r
  if p.reviewPeriodTime.isSome then return s
  else if s.isAuthorizedToExecute p then
    match push r s with
    | .ok s => return s
    | .error .dangling => throw .dangling
    | .error (.exception text s) => s.modify r fun p ↦ { p with failReason := text }
  else return s

/-- `proposal_delete_evaluator` -/
def proposalDelete (s : ProposalState ω σ) (o : ProposalDeleteOperation) :
    Except (ProposalStop ω σ) (ProposalState ω σ) := do
  let (r, p) ← s.getProposal o.proposal
  let requiredApprovals := if o.usingOwnerAuthority then p.requiredOwnerApprovals else p.requiredActiveApprovals
  s.check (throwIf (!requiredApprovals.contains o.feePayingAccount)
    "Provided authority is not authoritative for this proposal.")
  let s ← s.remove r
  return { s with history := s.history ++ [.deleted r.id], trace := s.trace ++ [.deleted r.id] }

/-! ### `push_proposal` -/

/-- The evaluators. -/
def evaluateOperation (push : ProposalRef → ProposalState ω σ → Except (ProposalStop ω σ) (ProposalState ω σ))
    (s : ProposalState ω σ) (op : ProposedOperation ω) : Except (ProposalStop ω σ) (ProposalState ω σ) :=
  match op with
  | .create feePayingAccount ops expirationTime reviewPeriodSeconds =>
    s.proposalCreate feePayingAccount ops expirationTime reviewPeriodSeconds
  | .update o => proposalUpdate push s o
  | .delete o => s.proposalDelete o
  | .other x => do
    let rest ← s.check (ProposalRules.evaluate s.headBlockTime s.rest x)
    return { s with rest := rest }

/-- `apply_operation` -/
def applyOperation (push : ProposalRef → ProposalState ω σ → Except (ProposalStop ω σ) (ProposalState ω σ))
    (s : ProposalState ω σ) (op : ProposedOperation ω) : Except (ProposalStop ω σ) (ProposalState ω σ) := do
  let rest ← s.check (ProposalRules.payFee s.rest op)
  let s ← evaluateOperation push { s with rest := rest } op
  let rest ← s.check (ProposalRules.deductFee s.rest op)
  return { s with rest := rest }

/-- The loop of `push_proposal`. It goes on in the operations of the proposal. -/
def applyOperations (push : ProposalRef → ProposalState ω σ → Except (ProposalStop ω σ) (ProposalState ω σ))
    (r : ProposalRef) :
    List (ProposedOperation ω) → ProposalState ω σ → Except (ProposalStop ω σ) (ProposalState ω σ)
  | [], s => .ok s
  | op :: ops, s => do
    let s ← applyOperation push s op
    let _ ← s.deref r
    applyOperations push r ops s

/-- `push_proposal`; the first argument is how much deeper executions may nest. An exception undoes the session, and
goes on with the proposal in its context. -/
def pushProposal : ℕ → ProposalRef → ProposalState ω σ → Except (ProposalStop ω σ) (ProposalState ω σ)
  | 0, r, s => do
    let _ ← s.deref r
    throw (.exception "Max proposal nesting depth exceeded!" s)
  | depth + 1, r, s => do
    let p ← s.deref r
    let executing := { s with trace := s.trace ++ [.executing r.id s.headBlockTime p] }
    match applyOperations (pushProposal depth) r p.operations executing >>= fun s ↦ s.remove r with
    | .ok s => return { s with history := s.history ++ [.executed r.id], trace := s.trace ++ [.finished r.id] }
    | .error .dangling => throw .dangling
    | .error (.exception text s') =>
      let s := s.undo s'
      let s := { s with trace := s.trace ++ [.finished r.id] }
      let _ ← s.deref r
      throw (.exception text s)

/-- How deep executions may nest. -/
def maxNesting (s : ProposalState ω σ) : ℕ := s.activeWitnesses * 2

/-! ### Transactions and blocks -/

/-- A transaction; one that fails is undone. -/
def applyTransaction (s : ProposalState ω σ) (ops : List (ProposedOperation ω)) :
    Except (ProposalStop ω σ) (ProposalState ω σ) :=
  match ops.foldlM (fun s op ↦ applyOperation (pushProposal s.maxNesting) s op) s with
  | .ok s => .ok s
  | .error .dangling => .error .dangling
  | .error (.exception _ s') => .ok (s.undo s')

/-- The expired proposals, in the order of `by_expiration`. -/
def expired (s : ProposalState ω σ) : List (ProposalId × ProposalObject ω) :=
  (s.proposals.orderedBy fun a b ↦ a.2.expirationTime ≤ b.2.expirationTime).filter fun a ↦
    a.2.expirationTime ≤ s.headBlockTime

/-- An expired proposal is removed. -/
def expire (s : ProposalState ω σ) (r : ProposalRef) : Except (ProposalStop ω σ) (ProposalState ω σ) := do
  let s ← s.remove r
  return { s with history := s.history ++ [.expired r.id] }

/-- The body of the loop of `clear_expired_proposals`. -/
def clearProposal (s : ProposalState ω σ) (r : ProposalRef) : Except (ProposalStop ω σ) (ProposalState ω σ) := do
  let p ← s.deref r
  if s.isAuthorizedToExecute p then
    match pushProposal s.maxNesting r s with
    | .ok s => return s
    | .error .dangling => throw .dangling
    | .error (.exception _ s) => s.expire r
  else s.expire r

/-- The loop of `clear_expired_proposals`, as many times at most. -/
def clearLoop : ℕ → ProposalState ω σ → Except (ProposalStop ω σ) (ProposalState ω σ)
  | 0, s => .ok s
  | n + 1, s =>
    match s.expired with
    | [] => .ok s
    | (i, _) :: _ => do
      let s ← s.clearProposal ⟨i, s.address i⟩
      clearLoop n s

/-- `clear_expired_proposals`. Every iteration removes an expired proposal (`expired_clearExpiredProposals`). -/
def clearExpiredProposals (s : ProposalState ω σ) : Except (ProposalStop ω σ) (ProposalState ω σ) :=
  clearLoop s.expired.length s

/-- A block after its transactions: the time goes on, the rest of the chain does what it does, and expired proposals
are cleared. -/
def finishBlock (s : ProposalState ω σ) (now : UInt32) (activeWitnesses : ℕ) (rest : σ) :
    Except (ProposalStop ω σ) (ProposalState ω σ) :=
  clearExpiredProposals { s with headBlockTime := now, activeWitnesses := activeWitnesses, rest := rest }

/-- What happens to the proposals. -/
inductive Step : ProposalState ω σ → ProposalState ω σ → Prop
  | transaction {s s' : ProposalState ω σ} (ops : List (ProposedOperation ω)) (h : s.applyTransaction ops = .ok s') :
      Step s s'
  | block {s s' : ProposalState ω σ} (now : UInt32) (activeWitnesses : ℕ) (rest : σ) (hnow : s.headBlockTime ≤ now)
      (h : s.finishBlock now activeWitnesses rest = .ok s') : Step s s'

/-- The chain before the first proposal, after the hard fork. -/
structure Initial (s : ProposalState ω σ) : Prop where
  proposals : s.proposals = ∅
  history : s.history = []
  trace : s.trace = []
  time : hardforkCore1479Time < s.headBlockTime

end ProposalState

end Playchain
