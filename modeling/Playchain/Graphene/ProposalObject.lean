import Mathlib.Data.UInt
import Playchain.Lib.FlatMap
import Playchain.Protocol.Types

/-!
# Proposals

`proposal_object` and the operations that can be in it. Operations other than those on proposals are of a type
of their own.
-/

namespace Playchain

/-- `public_key_type`, compared by its bytes -/
abbrev PublicKey := ℕ

abbrev ProposalId := ℕ

/-- `proposal_update_operation` -/
structure ProposalUpdateOperation where
  feePayingAccount : AccountId
  proposal : ProposalId
  activeApprovalsToAdd : FlatSet AccountId := ∅
  activeApprovalsToRemove : FlatSet AccountId := ∅
  ownerApprovalsToAdd : FlatSet AccountId := ∅
  ownerApprovalsToRemove : FlatSet AccountId := ∅
  keyApprovalsToAdd : FlatSet PublicKey := ∅
  keyApprovalsToRemove : FlatSet PublicKey := ∅

/-- `proposal_delete_operation` -/
structure ProposalDeleteOperation where
  feePayingAccount : AccountId
  usingOwnerAuthority : Bool := false
  proposal : ProposalId

/-- The operations, with proposals of operations among them. -/
inductive ProposedOperation (ω : Type*) where
  /-- `proposal_create_operation` -/
  | create (feePayingAccount : AccountId) (proposedOps : List (ProposedOperation ω))
      (expirationTime : UInt32) (reviewPeriodSeconds : Option UInt32)
  | update (o : ProposalUpdateOperation)
  | delete (o : ProposalDeleteOperation)
  | other (x : ω)

/-- `proposal_object` -/
structure ProposalObject (ω : Type*) where
  expirationTime : UInt32
  reviewPeriodTime : Option UInt32
  /-- The operations of `proposed_transaction`. -/
  operations : List (ProposedOperation ω)
  requiredActiveApprovals : FlatSet AccountId := ∅
  availableActiveApprovals : FlatSet AccountId := ∅
  requiredOwnerApprovals : FlatSet AccountId := ∅
  availableOwnerApprovals : FlatSet AccountId := ∅
  availableKeyApprovals : FlatSet PublicKey := ∅
  proposer : AccountId
  failReason : String := ""

namespace FlatSet

variable {K : Type*} [LinearOrder K]

/-- `insert` of a range -/
def addAll (s t : FlatSet K) : FlatSet K := t.elements.foldl FlatSet.add s

/-- `erase` of one element after the other -/
def eraseAll (s t : FlatSet K) : FlatSet K := t.elements.foldl FlatMap.erase s

theorem mem_keys_addAll {s t : FlatSet K} {k : K} : k ∈ (addAll s t).keys ↔ k ∈ s.keys ∨ k ∈ t.keys := by
  rw [addAll, FlatSet.mem_keys_foldl_add, FlatSet.mem_elements]

theorem mem_keys_eraseAll {s t : FlatSet K} {k : K} :
    k ∈ (eraseAll s t).keys ↔ k ∈ s.keys ∧ k ∉ t.keys := by
  have hfold : ∀ (l : List K) (s : FlatSet K), k ∈ (l.foldl FlatMap.erase s).keys ↔ k ∈ s.keys ∧ k ∉ l := by
    intro l
    induction l with
    | nil => simp
    | cons j l ih =>
      intro s
      rw [List.foldl_cons, ih, FlatMap.keys_erase, Finset.mem_erase, List.mem_cons]
      tauto
  rw [eraseAll, hfold, FlatSet.mem_elements]

end FlatSet

/-- What `proposal_update_evaluator::do_apply` does to the approvals. -/
def ProposalObject.approve {ω : Type*} (p : ProposalObject ω) (o : ProposalUpdateOperation) :
    ProposalObject ω :=
  { p with
    availableActiveApprovals :=
      FlatSet.eraseAll (FlatSet.addAll p.availableActiveApprovals o.activeApprovalsToAdd)
        o.activeApprovalsToRemove
    availableOwnerApprovals :=
      FlatSet.eraseAll (FlatSet.addAll p.availableOwnerApprovals o.ownerApprovalsToAdd)
        o.ownerApprovalsToRemove
    availableKeyApprovals :=
      FlatSet.eraseAll (FlatSet.addAll p.availableKeyApprovals o.keyApprovalsToAdd) o.keyApprovalsToRemove }

end Playchain
