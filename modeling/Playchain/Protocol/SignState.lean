import Playchain.Lib.FlatMap
import Playchain.Protocol.Types

/-!
# Authorities and signatures

An authority is a set of keys, addresses and accounts with weights, and a threshold. `check_authority` adds
up the weights of the keys that have signed and of the accounts that approve, and returns as soon as the
threshold is reached; for an account it looks into the authorities of the account, down to a depth. What it
finds out is kept in the `sign_state`: the signatures that were of use, and **the accounts that approve,
whatever the depth at which they were met**.

`verify_authority` checks a transaction that way, `get_required_signatures` finds out which of the available
keys should sign, and `minimize_required_signatures` leaves out of these as many as possible.

An exception is an `AuthorityError`; so is the end of an iterator that is followed.
-/

namespace Playchain.Authorities

/-- The total of the weights of some members. -/
def weightSum {μ : Type} [LinearOrder μ] (auths : FlatMap μ UInt16) : ℕ := auths.sum fun _ w ↦ w.toNat

/-- `authority`. The weights of its members are 16 bits wide and are added in 32 bits. They fit: an account
has at most as many members as a parameter of 16 bits allows (`verify_authority_accounts`). The owners of
blind inputs come with an operation and are not counted there; they are modelled up to a sum of 32 bits,
which takes more than 65536 members to pass. -/
structure Authority (κ δ : Type) [LinearOrder κ] [LinearOrder δ] where
  weightThreshold : UInt32
  accountAuths : FlatMap AccountId UInt16 := ∅
  keyAuths : FlatMap κ UInt16 := ∅
  addressAuths : FlatMap δ UInt16 := ∅
  weightSum_lt : weightSum keyAuths + weightSum addressAuths + weightSum accountAuths < 2 ^ 32 := by decide

/-- The addresses of a key: `pts_address`, compressed or not and of a version, and `address`. -/
class KeyAddresses (κ : Type) (δ : outParam Type) where
  ptsAddress : κ → Bool → ℕ → δ
  address : κ → δ

/-- What the checks throw, or run into. -/
inductive AuthorityError where
  | invalidCommitteeApproval
  | txMissingOtherAuth
  | txMissingOwnerAuth (id : AccountId)
  | txMissingActiveAuth (id : AccountId)
  | txIrrelevantSig
  /-- The end of a map or a null pointer is dereferenced. -/
  | undefinedBehaviour
  deriving DecidableEq

variable {κ δ : Type} [LinearOrder κ] [LinearOrder δ]

/-- The constant members of `sign_state`. -/
structure SignRules (κ δ : Type) [LinearOrder κ] [LinearOrder δ] where
  getActive : AccountId → Option (Authority κ δ)
  getOwner : AccountId → Option (Authority κ δ)
  allowNonImmediateOwner : Bool
  maxRecursion : ℕ
  availableKeys : FlatSet κ := ∅

/-- The rules when no keys are available. -/
def SignRules.signedOnly (r : SignRules κ δ) : SignRules κ δ := { r with availableKeys := ∅ }

/-- The other members of `sign_state`. -/
structure SignState (κ δ : Type) [LinearOrder κ] [LinearOrder δ] where
  availableAddressSigs : Option (FlatMap δ κ) := none
  providedAddressSigs : Option (FlatMap δ κ) := none
  providedSignatures : FlatMap κ Bool := ∅
  approvedBy : FlatSet AccountId := ∅

namespace SignState

/-- The constructor of `sign_state` -/
def ofKeys (sigs : FlatSet κ) : SignState κ δ where
  providedSignatures := sigs.elements.foldl (fun m k ↦ m.insert k false) ∅
  approvedBy := FlatSet.add ∅ tempAccount

/-- A signature is of use. -/
def mark (s : SignState κ δ) (k : κ) : SignState κ δ :=
  { s with providedSignatures := s.providedSignatures.insert k true }

/-- An account approves. -/
def approve (s : SignState κ δ) (a : AccountId) : SignState κ δ :=
  { s with approvedBy := s.approvedBy.add a }

end SignState

/-- A check: a verdict, and what it leaves in the state. -/
abbrev Check (κ δ : Type) [LinearOrder κ] [LinearOrder δ] :=
  SignState κ δ → Except AuthorityError (Bool × SignState κ δ)

/-- `signed_by` of a key -/
def signedBy (r : SignRules κ δ) (k : κ) : Check κ δ := fun s ↦
  match s.providedSignatures.find? k with
  | some _ => .ok (true, s.mark k)
  | none => if r.availableKeys.contains k then .ok (true, s.mark k) else .ok (false, s)

/-- The addresses of a key lead to it. -/
def addAddresses [KeyAddresses κ δ] (m : FlatMap δ κ) (k : κ) : FlatMap δ κ :=
  ((((m.insert (KeyAddresses.ptsAddress k false 56) k).insert (KeyAddresses.ptsAddress k true 56) k).insert
    (KeyAddresses.ptsAddress k false 0) k).insert (KeyAddresses.ptsAddress k true 0) k).insert
    (KeyAddresses.address k) k

/-- The addresses of keys. A later key takes the place of an earlier one. -/
def addressMap [KeyAddresses κ δ] (keys : List κ) : FlatMap δ κ := keys.foldl addAddresses ∅

/-- The maps of the addresses are built when they are first needed. -/
def buildAddressSigs [KeyAddresses κ δ] (r : SignRules κ δ) (s : SignState κ δ) : SignState κ δ :=
  match s.availableAddressSigs with
  | some _ => s
  | none =>
    { s with
      availableAddressSigs := some (addressMap r.availableKeys.elements)
      providedAddressSigs := some (addressMap (s.providedSignatures.toList.map Prod.fst)) }

/-- `signed_by` of an address. For an address that is in neither map, the end of the map of the provided
signatures is dereferenced. -/
def signedByAddress [KeyAddresses κ δ] (r : SignRules κ δ) (a : δ) : Check κ δ := fun s ↦
  let s := buildAddressSigs r s
  match (s.providedAddressSigs.getD ∅).find? a with
  | some k => .ok (true, s.mark k)
  | none =>
    match (s.availableAddressSigs.getD ∅).find? a with
    | some k => if r.availableKeys.contains k then .ok (true, s.mark k) else .ok (false, s)
    | none => .error .undefinedBehaviour

/-- A loop over members with weights: whether the threshold was reached, and the total weight. -/
def addWeights {μ : Type} (threshold : UInt32) (check : μ → Check κ δ) :
    List (μ × UInt16) → UInt32 → SignState κ δ → Except AuthorityError ((Bool × UInt32) × SignState κ δ)
  | [], total, s => .ok ((false, total), s)
  | (m, w) :: l, total, s => do
    let (counts, s) ← check m s
    if counts then
      let total := total + w.toUInt32
      if threshold ≤ total then return ((true, total), s)
      else addWeights threshold check l total s
    else addWeights threshold check l total s

/-- The body of `check_authority`, with a check of the accounts of the authority. -/
def checkMembers [KeyAddresses κ δ] (r : SignRules κ δ) (account : AccountId → Check κ δ) :
    Option (Authority κ δ) → Check κ δ
  | none, s => .ok (false, s)
  | some auth, s => do
    let ((reached, total), s) ← addWeights auth.weightThreshold (signedBy r) auth.keyAuths.toList 0 s
    if reached then return (true, s)
    let ((reached, total), s) ← addWeights auth.weightThreshold (signedByAddress r) auth.addressAuths.toList total s
    if reached then return (true, s)
    let ((reached, total), s) ← addWeights auth.weightThreshold account auth.accountAuths.toList total s
    if reached then return (true, s)
    return (decide (auth.weightThreshold ≤ total), s)

/-- An account in an authority, with the levels that are left above the greatest depth. -/
def checkAccount [KeyAddresses κ δ] (r : SignRules κ δ) : ℕ → AccountId → Check κ δ
  | 0, a, s => .ok (s.approvedBy.contains a, s)
  | levels + 1, a, s =>
    if s.approvedBy.contains a then .ok (true, s)
    else do
      let (approves, s) ← checkMembers r (checkAccount r levels) (r.getActive a) s
      if approves then return (true, s.approve a)
      else if r.allowNonImmediateOwner then
        let (approves, s) ← checkMembers r (checkAccount r levels) (r.getOwner a) s
        if approves then return (true, s.approve a) else return (false, s)
      else return (false, s)

/-- `check_authority` of an authority, from the depth zero -/
def checkAuthority [KeyAddresses κ δ] (r : SignRules κ δ) (auth : Option (Authority κ δ)) : Check κ δ :=
  checkMembers r (checkAccount r r.maxRecursion) auth

/-- One check, and another one unless it succeeds. -/
def Check.orElse (x y : Check κ δ) : Check κ δ := fun s ↦ do
  let (b, s) ← x s
  if b then return (true, s) else y s

/-- `check_authority` of an account -/
def checkAuthorityOf [KeyAddresses κ δ] (r : SignRules κ δ) (id : AccountId) : Check κ δ := fun s ↦
  if s.approvedBy.contains id then .ok (true, s)
  else if r.allowNonImmediateOwner then
    (checkAuthority r (r.getActive id)).orElse (checkAuthority r (r.getOwner id)) s
  else checkAuthority r (r.getActive id) s

/-- `remove_unused_signatures`: whether there were any, and the state without them. -/
def removeUnusedSignatures (s : SignState κ δ) : Bool × SignState κ δ :=
  (s.providedSignatures.toList.any fun p ↦ !p.2,
    { s with providedSignatures := s.providedSignatures.filter fun _ used ↦ used })

/-! ### Transactions -/

/-- What the operations of a transaction require. -/
structure RequiredAuthorities (κ δ : Type) [LinearOrder κ] [LinearOrder δ] where
  active : FlatSet AccountId := ∅
  owner : FlatSet AccountId := ∅
  other : List (Authority κ δ) := []

/-- `operation_get_required_authorities` -/
class OperationAuthorities (ω κ δ : Type) [LinearOrder κ] [LinearOrder δ] where
  required : ω → RequiredAuthorities κ δ

/-- The authorities that the operations require together. -/
def requiredAuthorities {ω : Type} [OperationAuthorities ω κ δ] (ops : List ω) : RequiredAuthorities κ δ :=
  ops.foldl (fun acc op ↦
    let required : RequiredAuthorities κ δ := OperationAuthorities.required op
    ⟨required.active.elements.foldl FlatSet.add acc.active, required.owner.elements.foldl FlatSet.add acc.owner,
      acc.other ++ required.other⟩) {}

/-- `GRAPHENE_MAX_SIG_CHECK_DEPTH` -/
def maxSigCheckDepth : ℕ := 2

/-- `PLAYCHAIN_COMMITTEE_ACCOUNT` -/
def playchainCommitteeAccount : AccountId := relaxedCommitteeAccount

/-- One of the committee accounts has to act. -/
def RequiredAuthorities.ofCommittee (required : RequiredAuthorities κ δ) : Bool :=
  required.active.contains committeeAccount || required.active.contains playchainCommitteeAccount

section Transactions

variable {ω : Type} [KeyAddresses κ δ] [OperationAuthorities ω κ δ]

/-- Checks that all have to succeed. -/
def requireAll {μ : Type} (check : μ → Check κ δ) (error : μ → AuthorityError) (l : List μ)
    (s : SignState κ δ) : Except AuthorityError (SignState κ δ) :=
  l.foldlM (fun s m ↦ do
    let (b, s) ← check m s
    if b then return s else throw (error m)) s

/-- The message of a failed check shows an authority. -/
def shown (auths : List (Option (Authority κ δ))) (e : AuthorityError) : AuthorityError :=
  if auths.any Option.isNone then .undefinedBehaviour else e

/-- `check_authority` of an account whose owner authority is required -/
def checkOwner (r : SignRules κ δ) (ownerApprovals : FlatSet AccountId) (id : AccountId) : Check κ δ := fun s ↦
  if ownerApprovals.contains id then .ok (true, s) else checkAuthority r (r.getOwner id) s

/-- `check_authority` of an account whose active authority is required -/
def checkActive (r : SignRules κ δ) (id : AccountId) : Check κ δ :=
  (checkAuthorityOf r id).orElse (checkAuthority r (r.getOwner id))

/-- The `sign_state` of `verify_authority` before the checks -/
def verifyStart (sigs : FlatSet κ) (activeApprovals ownerApprovals : FlatSet AccountId) : SignState κ δ :=
  ownerApprovals.elements.foldl SignState.approve
    (activeApprovals.elements.foldl SignState.approve (SignState.ofKeys sigs))

/-- The checks of `verify_authority` for missing authorities, and the state they leave. No keys are available
but those of the signatures. -/
def verifyMissing (r : SignRules κ δ) (ops : List ω) (sigs : FlatSet κ) (allowCommittee : Bool)
    (activeApprovals ownerApprovals : FlatSet AccountId) : Except AuthorityError (SignState κ δ) := do
  let required : RequiredAuthorities κ δ := requiredAuthorities ops
  if !allowCommittee && required.ofCommittee then throw .invalidCommitteeApproval
  let s ← requireAll (fun auth ↦ checkAuthority r.signedOnly (some auth)) (fun _ ↦ .txMissingOtherAuth)
    required.other (verifyStart sigs activeApprovals ownerApprovals)
  let s ← requireAll (checkOwner r.signedOnly ownerApprovals)
    (fun id ↦ shown [r.getOwner id] (.txMissingOwnerAuth id)) required.owner.elements s
  requireAll (checkActive r.signedOnly)
    (fun id ↦ shown [r.getActive id, r.getOwner id] (.txMissingActiveAuth id)) required.active.elements s

/-- `verify_authority` -/
def verifyAuthority (r : SignRules κ δ) (ops : List ω) (sigs : FlatSet κ) (allowCommittee : Bool := false)
    (activeApprovals : FlatSet AccountId := ∅) (ownerApprovals : FlatSet AccountId := ∅) :
    Except AuthorityError Unit := do
  let s ← verifyMissing r ops sigs allowCommittee activeApprovals ownerApprovals
  if (removeUnusedSignatures s).1 then throw .txIrrelevantSig

/-- Checks whatever their verdicts. -/
def checkAll {μ : Type} (check : μ → Check κ δ) (l : List μ) (s : SignState κ δ) :
    Except AuthorityError (SignState κ δ) :=
  l.foldlM (fun s m ↦ do return (← check m s).2) s

/-- The loops of `get_required_signatures`. -/
def requiredChecks (r : SignRules κ δ) (ops : List ω) (signatureKeys : FlatSet κ) :
    Except AuthorityError (SignState κ δ) := do
  let required : RequiredAuthorities κ δ := requiredAuthorities ops
  -- `get_required_authorities` leaves out the accounts whose owner authority is required
  let active := required.owner.elements.foldl FlatMap.erase required.active
  let s ← checkAll (fun auth ↦ checkAuthority r (some auth)) required.other (SignState.ofKeys signatureKeys)
  let s ← checkAll (fun id ↦ checkAuthority r (r.getOwner id)) required.owner.elements s
  checkAll (checkActive r) (FlatSet.elements active) s

/-- `get_required_signatures`, with the keys of the signatures that are there -/
def getRequiredSignatures (r : SignRules κ δ) (ops : List ω) (signatureKeys : FlatSet κ) :
    Except AuthorityError (FlatSet κ) := do
  let s ← requiredChecks r ops signatureKeys
  let provided := (removeUnusedSignatures s).2.providedSignatures
  return FlatSet.ofList ((provided.toList.map Prod.fst).filter fun k ↦
    r.availableKeys.contains k && !signatureKeys.contains k)

/-- `minimize_required_signatures`. The depth is passed to `get_required_signatures` in the place of the
flag, and the depth there is the default. -/
def minimizeRequiredSignatures (r : SignRules κ δ) (ops : List ω) (signatureKeys : FlatSet κ) :
    Except AuthorityError (FlatSet κ) := do
  let s ← getRequiredSignatures
    { r with allowNonImmediateOwner := r.maxRecursion ≠ 0, maxRecursion := maxSigCheckDepth } ops signatureKeys
  s.elements.foldlM (fun result k ↦
    let without := result.erase k
    match verifyAuthority r ops without with
    | .ok () => .ok without
    | .error (.txMissingOwnerAuth _) => .ok (FlatSet.add without k)
    | .error (.txMissingActiveAuth _) => .ok (FlatSet.add without k)
    | .error .txMissingOtherAuth => .ok (FlatSet.add without k)
    | .error e => .error e) s

end Transactions

end Playchain.Authorities
