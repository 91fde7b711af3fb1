import Playchain.Db.UndoDatabase
import Playchain.Graphene.ProposalObject

/-!
# The proposals of an account

`required_approval_index` is a secondary index of the proposals: the proposals that ask for the approval of
an account or have it. The accounts of a new proposal are entered and those of a proposal that goes are taken
out; a modification is followed by the differences of the two sets of available approvals, first the active
ones and then the owner ones.
-/

namespace Playchain

/-- `_account_to_proposals` -/
abbrev AccountToProposals := FlatMap AccountId (FlatSet ProposalId)

namespace AccountToProposals

/-- `_account_to_proposals[a].insert( p )` -/
def enter (p : ProposalId) (m : AccountToProposals) (a : AccountId) : AccountToProposals :=
  m.insert a (((m.find? a).getD ∅).add p)

/-- `remove` -/
def remove (p : ProposalId) (m : AccountToProposals) (a : AccountId) : AccountToProposals :=
  match m.find? a with
  | none => m
  | some ps => if (ps.erase p).isEmpty then m.erase a else m.insert a (ps.erase p)

/-- `insert_or_remove_delta`, over the sorted elements of the two sets -/
def insertOrRemoveDelta (p : ProposalId) :
    List AccountId → List AccountId → AccountToProposals → AccountToProposals
  | [], [], m => m
  | b :: before, [], m => insertOrRemoveDelta p before [] (remove p m b)
  | [], a :: after, m => insertOrRemoveDelta p [] after (enter p m a)
  | b :: before, a :: after, m =>
    if b < a then insertOrRemoveDelta p before (a :: after) (remove p m b)
    else if a < b then insertOrRemoveDelta p (b :: before) after (enter p m a)
    else insertOrRemoveDelta p before after m
  termination_by before after _ => before.length + after.length

end AccountToProposals

variable {ω : Type*}

/-- The accounts of a proposal, in the order of the loops. -/
def ProposalObject.accounts (p : ProposalObject ω) : List AccountId :=
  p.requiredActiveApprovals.elements ++ p.requiredOwnerApprovals.elements ++
    p.availableActiveApprovals.elements ++ p.availableOwnerApprovals.elements

/-- `required_approval_index` -/
instance : SecondaryIndex ProposalId (ProposalObject ω) AccountToProposals where
  empty := ∅
  objectInserted i p m := p.accounts.foldl (AccountToProposals.enter i) m
  objectRemoved i p m := p.accounts.foldl (AccountToProposals.remove i) m
  objectModified i before after m :=
    AccountToProposals.insertOrRemoveDelta i before.availableOwnerApprovals.elements
      after.availableOwnerApprovals.elements
      (AccountToProposals.insertOrRemoveDelta i before.availableActiveApprovals.elements
        after.availableActiveApprovals.elements m)

/-- Every unique key of a proposal includes its id. -/
instance : UniqueKeys (ProposalObject ω) where
  collide _ _ := false
  collide_comm _ _ := rfl

/-- The proposals with their undo records. -/
abbrev ProposalStore (ω : Type*) := UndoDatabase ProposalId Unit (ProposalObject ω) AccountToProposals

/-! ### Runs -/

/-- What happens to the proposals. -/
inductive ProposalStoreEvent (ω : Type*) where
  /-- `proposal_create` -/
  | create (p : ProposalObject ω)
  /-- `proposal_update` -/
  | update (o : ProposalUpdateOperation)
  /-- A proposal that failed to execute is told why. -/
  | fail (proposal : ProposalId) (failReason : String)
  /-- `proposal_delete`, or the end of a proposal that was executed or has expired -/
  | remove (proposal : ProposalId)
  | startSession
  | merge
  | commit
  | undo
  | popCommit
  | setMaxSize (n : ℕ)

/-- The effect of an event; the records are walked in whatever order. -/
def ProposalStoreEvent.Step (u : ProposalStore ω) : ProposalStoreEvent ω → ProposalStore ω → Prop
  | create p, v => u.call (.create () p) = .ok v
  | update o, v => u.call (.modify o.proposal fun p ↦ p.approve o) = .ok v
  | fail i failReason, v => u.call (.modify i fun p ↦ { p with failReason := failReason }) = .ok v
  | remove i, v => u.call (.remove i) = .ok v
  | startSession, v => v = u.startUndoSession
  | merge, v => u.merge = some v
  | commit, v => u.commit = some v
  | undo, v => ∃ order, u.undo order = .ok v
  | popCommit, v => ∃ order, u.popCommit order = .ok v
  | setMaxSize n, v => v = { u with maxSize := n }

end Playchain
