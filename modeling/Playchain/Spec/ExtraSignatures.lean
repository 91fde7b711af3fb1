import Playchain.Spec.AuthorityChecks

/-!
# More signatures and approvals

An authority that has a derivation has one from more keys and more approvals. But `verify_authority` also accepts
authorities whose derivations are higher than the depth allows, if the accounts at the bottom were found out by an
earlier check, and with another key the earlier check may not look at them. So the extra key can make the
transaction fail (`extra_key_removes_authorization`).

What is required is *derivable* if every derivation that it needs is within the depth. Then it stays granted
(`verifyMissing_of_derivable`).
-/

namespace Playchain.Authorities

variable {κ δ ω : Type} [LinearOrder κ] [LinearOrder δ] [KeyAddresses κ δ] [OperationAuthorities ω κ δ]

/-- The accounts that approve a transaction beforehand. -/
def approvedBefore (activeApprovals ownerApprovals : FlatSet AccountId) : Set AccountId :=
  {a | a = tempAccount ∨ a ∈ activeApprovals.elements ++ ownerApprovals.elements}

/-- An authority has a derivation within the depth. -/
def WithinDepth (r : SignRules κ δ) (keys : Set κ) (pre : Set AccountId) (auth : Option (Authority κ δ)) : Prop :=
  ∃ au, auth = some au ∧ HeldBy keys (approvals r keys pre r.maxRecursion) au

/-- Whatever the operations require has a derivation within the depth. -/
structure Derivable (r : SignRules κ δ) (ops : List ω) (sigs : FlatSet κ)
    (activeApprovals ownerApprovals : FlatSet AccountId) : Prop where
  other : ∀ au ∈ (requiredAuthorities ops : RequiredAuthorities κ δ).other,
    WithinDepth r.signedOnly (r.signedOnly.keysWith sigs) (approvedBefore activeApprovals ownerApprovals) (some au)
  owner : ∀ id ∈ (requiredAuthorities ops : RequiredAuthorities κ δ).owner.elements, id ∈ ownerApprovals.keys ∨
    WithinDepth r.signedOnly (r.signedOnly.keysWith sigs) (approvedBefore activeApprovals ownerApprovals)
      (r.getOwner id)
  active : ∀ id ∈ (requiredAuthorities ops : RequiredAuthorities κ δ).active.elements,
    id ∈ approvals r.signedOnly (r.signedOnly.keysWith sigs) (approvedBefore activeApprovals ownerApprovals)
      (r.maxRecursion + 1) ∨
    WithinDepth r.signedOnly (r.signedOnly.keysWith sigs) (approvedBefore activeApprovals ownerApprovals)
      (r.getOwner id)

section Derivable

variable {r : SignRules κ δ} {ops : List ω} {keys keys' : Set κ} {pre pre' : Set AccountId} {sigs sigs' : FlatSet κ}
  {activeApprovals activeApprovals' ownerApprovals ownerApprovals' : FlatSet AccountId}

theorem WithinDepth.mono {auth : Option (Authority κ δ)} (h : WithinDepth r keys pre auth) (hkeys : keys ⊆ keys')
    (hpre : pre ⊆ pre') : WithinDepth r keys' pre' auth := by
  obtain ⟨au, hau, hheld⟩ := h
  exact ⟨au, hau, hheld.mono hkeys (approvals_subset hkeys hpre _)⟩

theorem approvedBefore_mono (hactive : activeApprovals.keys ⊆ activeApprovals'.keys)
    (howner : ownerApprovals.keys ⊆ ownerApprovals'.keys) :
    approvedBefore activeApprovals ownerApprovals ⊆ approvedBefore activeApprovals' ownerApprovals' := by
  rintro a (ha | ha)
  · exact .inl ha
  · refine .inr (List.mem_append.2 ((List.mem_append.1 ha).imp ?_ ?_))
    · exact fun ha ↦ FlatSet.mem_elements.2 (hactive (FlatSet.mem_elements.1 ha))
    · exact fun ha ↦ FlatSet.mem_elements.2 (howner (FlatSet.mem_elements.1 ha))

/-- With more keys and approvals, the derivations are still there. -/
theorem Derivable.mono (h : Derivable r ops sigs activeApprovals ownerApprovals) (hsigs : sigs.keys ⊆ sigs'.keys)
    (hactive : activeApprovals.keys ⊆ activeApprovals'.keys)
    (howner : ownerApprovals.keys ⊆ ownerApprovals'.keys) :
    Derivable r ops sigs' activeApprovals' ownerApprovals' := by
  have hkeys : r.signedOnly.keysWith sigs ⊆ r.signedOnly.keysWith sigs' := fun k hk ↦ hk.imp_left fun hk ↦ hsigs hk
  have hpre := approvedBefore_mono hactive howner
  constructor
  · exact fun au hau ↦ (h.other au hau).mono hkeys hpre
  · exact fun id hid ↦ (h.owner id hid).imp (fun hid ↦ howner hid) fun hheld ↦ hheld.mono hkeys hpre
  · exact fun id hid ↦ (h.active id hid).imp (fun hid ↦ approvals_subset hkeys hpre _ hid)
      fun hheld ↦ hheld.mono hkeys hpre

omit [KeyAddresses κ δ] in
/-- Checks that are sure all succeed. -/
theorem requireAll_ok {μ : Type} {I : SignState κ δ → Prop} {check : μ → Check κ δ} {error : μ → AuthorityError}
    {good sure : μ → Prop} {l : List μ} (h : ∀ m ∈ l, Decides I (fun _ ↦ False) (check m) (good m) (sure m))
    (hsure : ∀ m ∈ l, sure m) {s : SignState κ δ} (hs : I s) : ∃ s', requireAll check error l s = .ok s' ∧ I s' := by
  refine Except.Ensures.exists_ok (Except.Ensures.foldlM I ?_ hs)
  intro m hm s hs
  refine (h m hm s hs).bind ?_
  rintro ⟨verdict, s⟩ ⟨hs, -, htrue⟩
  dsimp only at hs htrue ⊢
  rw [if_pos (htrue (hsure m hm))]
  exact .pure hs

theorem kept_verifyStart (r : SignRules κ δ) (sigs : FlatSet κ) (activeApprovals ownerApprovals : FlatSet AccountId) :
    Kept r (r.keysWith sigs) (approvedBefore activeApprovals ownerApprovals)
      (verifyStart sigs activeApprovals ownerApprovals) := by
  have h : Kept r (r.keysWith sigs) (approvedBefore activeApprovals ownerApprovals)
      ((activeApprovals.elements ++ ownerApprovals.elements).foldl SignState.approve (SignState.ofKeys sigs)) :=
    kept_foldl_approve _
  rw [List.foldl_append] at h
  exact h

theorem checkOwner_decides {E : AuthorityError → Prop}
    (hE : ∀ a au, r.Through a au → Unkeyed keys au → E .undefinedBehaviour)
    (howner : ∀ id au, r.getOwner id = some au → Unkeyed keys au → E .undefinedBehaviour)
    (ownerApprovals : FlatSet AccountId) (id : AccountId) :
    Decides (Kept r keys pre) E (checkOwner r ownerApprovals id)
      (id ∈ ownerApprovals.keys ∨ ∃ au, r.getOwner id = some au ∧ HeldBy keys (allApprovals r keys pre) au)
      (id ∈ ownerApprovals.keys ∨ WithinDepth r keys pre (r.getOwner id)) := by
  intro s hs
  unfold checkOwner
  by_cases hcontains : ownerApprovals.contains id = true
  · rw [if_pos hcontains]
    exact .ok ⟨hs, fun _ ↦ .inl (FlatMap.contains_iff.1 hcontains), fun _ ↦ rfl⟩
  · rw [if_neg hcontains]
    refine (checkAuthority_decides hE (r.getOwner id) (howner id)).mono .inr ?_ s hs
    exact fun h ↦ h.resolve_left fun hid ↦ hcontains (FlatMap.contains_iff.2 hid)

theorem checkActive_decides {E : AuthorityError → Prop}
    (hE : ∀ a au, r.Through a au → Unkeyed keys au → E .undefinedBehaviour)
    (howner : ∀ id au, r.getOwner id = some au → Unkeyed keys au → E .undefinedBehaviour) (id : AccountId) :
    Decides (Kept r keys pre) E (checkActive r id)
      (id ∈ allApprovals r keys pre ∨ ∃ au, r.getOwner id = some au ∧ HeldBy keys (allApprovals r keys pre) au)
      (id ∈ approvals r keys pre (r.maxRecursion + 1) ∨ WithinDepth r keys pre (r.getOwner id)) :=
  (checkAuthorityOf_decides hE id).orElse (checkAuthority_decides hE (r.getOwner id) (howner id))

/-- **What is derivable is granted**, unless the committee is required. -/
theorem verifyMissing_of_derivable (hr : r.NoAddresses)
    (hother : ∀ au ∈ (requiredAuthorities ops : RequiredAuthorities κ δ).other, au.addressAuths = ∅)
    {allowCommittee : Bool}
    (hcommittee : ¬(!allowCommittee && (requiredAuthorities ops : RequiredAuthorities κ δ).ofCommittee) = true)
    (h : Derivable r ops sigs activeApprovals ownerApprovals) :
    ∃ s, verifyMissing r ops sigs allowCommittee activeApprovals ownerApprovals = .ok s := by
  have hE : ∀ a au, r.signedOnly.Through a au → Unkeyed (r.signedOnly.keysWith sigs) au → False :=
    fun a au hau hun ↦ SignRules.NoAddresses.not_unkeyed (r := r.signedOnly) hr hau hun
  have hownerE : ∀ id au, r.getOwner id = some au → Unkeyed (r.signedOnly.keysWith sigs) au → False :=
    fun id au hau hun ↦ not_unkeyed (hr id au (.inr hau)) hun
  obtain ⟨s₁, hs₁, hkept₁⟩ : ∃ s', requireAll (fun auth ↦ checkAuthority r.signedOnly (some auth))
      (fun _ ↦ .txMissingOtherAuth) (requiredAuthorities ops : RequiredAuthorities κ δ).other
      (verifyStart sigs activeApprovals ownerApprovals) = .ok s' ∧ Kept _ _ _ s' :=
    requireAll_ok (fun au hau ↦ checkAuthority_decides hE (some au) fun au' hau' ↦
      Option.some.inj hau' ▸ not_unkeyed (hother au hau)) h.other (kept_verifyStart r.signedOnly _ _ _)
  obtain ⟨s₂, hs₂, hkept₂⟩ : ∃ s', requireAll (checkOwner r.signedOnly ownerApprovals)
      (fun id ↦ shown [r.getOwner id] (.txMissingOwnerAuth id))
      (requiredAuthorities ops : RequiredAuthorities κ δ).owner.elements s₁ = .ok s' ∧ Kept _ _ _ s' :=
    requireAll_ok (fun id _ ↦ checkOwner_decides hE hownerE ownerApprovals id) h.owner hkept₁
  obtain ⟨s₃, hs₃, -⟩ : ∃ s', requireAll (checkActive r.signedOnly)
      (fun id ↦ shown [r.getActive id, r.getOwner id] (.txMissingActiveAuth id))
      (requiredAuthorities ops : RequiredAuthorities κ δ).active.elements s₂ = .ok s' ∧ Kept _ _ _ s' :=
    requireAll_ok (fun id _ ↦ checkActive_decides hE hownerE id) h.active hkept₂
  unfold verifyMissing
  dsimp only
  rw [if_neg hcommittee, hs₁, Except.ok_bind, hs₂, Except.ok_bind]
  exact ⟨s₃, hs₃⟩

theorem not_ofCommittee {allowCommittee : Bool} {s : SignState κ δ}
    (h : verifyMissing r ops sigs allowCommittee activeApprovals ownerApprovals = .ok s) :
    ¬(!allowCommittee && (requiredAuthorities ops : RequiredAuthorities κ δ).ofCommittee) = true := by
  intro hcommittee
  unfold verifyMissing at h
  dsimp only at h
  rw [if_pos hcommittee] at h
  cases h

/-- **More signatures and approvals keep a transaction authorized** whose authorities have derivations within the
depth: at most a signature can be irrelevant. -/
theorem extra_signatures_keep_authorization (hr : r.NoAddresses)
    (hother : ∀ au ∈ (requiredAuthorities ops : RequiredAuthorities κ δ).other, au.addressAuths = ∅)
    (hsigs : sigs.keys ⊆ sigs'.keys) (hactive : activeApprovals.keys ⊆ activeApprovals'.keys)
    (howner : ownerApprovals.keys ⊆ ownerApprovals'.keys) {allowCommittee : Bool}
    (hpass : ∃ s, verifyMissing r ops sigs allowCommittee activeApprovals ownerApprovals = .ok s)
    (hdepth : Derivable r ops sigs activeApprovals ownerApprovals) :
    (∃ s, verifyMissing r ops sigs' allowCommittee activeApprovals' ownerApprovals' = .ok s) ∧
      (verifyAuthority r ops sigs' allowCommittee activeApprovals' ownerApprovals' = .ok () ∨
        verifyAuthority r ops sigs' allowCommittee activeApprovals' ownerApprovals' = .error .txIrrelevantSig) := by
  obtain ⟨s, hs⟩ := hpass
  obtain ⟨s', hs'⟩ := verifyMissing_of_derivable hr hother (not_ofCommittee hs) (hdepth.mono hsigs hactive howner)
  refine ⟨⟨s', hs'⟩, ?_⟩
  unfold verifyAuthority
  rw [hs', Except.ok_bind]
  by_cases hunused : (removeUnusedSignatures s').1 = true
  · rw [if_pos hunused]
    exact .inr rfl
  · rw [if_neg hunused]
    exact .inl rfl

end Derivable

/-! ### An account that is found out on the way -/

namespace Sample

/-- An operation that requires what it says. -/
scoped instance operationAuthorities : OperationAuthorities (RequiredAuthorities ℕ ℕ) ℕ ℕ where
  required op := op

/-- Account 20 needs the key 1 or account 23, which has the key 2. Account 21 needs account 22, which needs account
24, which needs account 23. -/
def detour : SignRules ℕ ℕ where
  getActive a :=
    if a = 20 then some (anyOf [1] [23]) else if a = 21 then some (anyOf [] [22])
    else if a = 22 then some (anyOf [] [24]) else if a = 24 then some (anyOf [] [23])
    else if a = 23 then some (anyOf [2] []) else none
  getOwner _ := some (anyOf [9] [])
  allowNonImmediateOwner := true
  maxRecursion := maxSigCheckDepth

/-- Accounts 20 and 21 have to act. -/
def bothAct : List (RequiredAuthorities ℕ ℕ) := [{ active := setOf [20] }, { active := setOf [21] }]

theorem detour_noAddresses : detour.NoAddresses := by
  rintro a au (hau | hau)
  · unfold detour at hau
    dsimp only at hau
    split_ifs at hau
    all_goals
      obtain rfl := Option.some.inj hau
      rfl
  · obtain rfl := Option.some.inj hau
    rfl

end Sample

open Sample

/-- **With the key 1 in addition to the key 2, the transaction fails.** Account 20 is satisfied with it, so account
23 is not looked at, and then it is out of the reach of account 21. -/
theorem extra_key_removes_authorization :
    ¬∀ (r : SignRules ℕ ℕ) (ops : List (RequiredAuthorities ℕ ℕ)) (sigs sigs' : FlatSet ℕ)
      (activeApprovals activeApprovals' ownerApprovals ownerApprovals' : FlatSet AccountId), r.NoAddresses →
      (∀ au ∈ (requiredAuthorities ops : RequiredAuthorities ℕ ℕ).other, au.addressAuths = ∅) →
      sigs.keys ⊆ sigs'.keys → activeApprovals.keys ⊆ activeApprovals'.keys →
      ownerApprovals.keys ⊆ ownerApprovals'.keys →
      (∃ s, verifyMissing r ops sigs false activeApprovals ownerApprovals = .ok s) →
        ∃ s, verifyMissing r ops sigs' false activeApprovals' ownerApprovals' = .ok s := by
  intro h
  have hpass : (verifyMissing detour bothAct (setOf [2]) false ∅ ∅).isOk = true := by decide
  have hfail : (verifyMissing detour bothAct (setOf [1, 2]) false ∅ ∅).isOk = false := by decide
  obtain ⟨s, hs⟩ := h detour bothAct (setOf [2]) (setOf [1, 2]) ∅ ∅ ∅ ∅ detour_noAddresses
    (fun _ hau ↦ by cases hau) (by decide) subset_rfl subset_rfl (by
      rcases hs : verifyMissing detour bothAct (setOf [2]) false ∅ ∅ with e | s
      · rw [hs] at hpass
        cases hpass
      · exact ⟨s, rfl⟩)
  rw [hs] at hfail
  cases hfail

/-- Account 20 alone is reached within the depth, so its transaction stays authorized. -/
theorem extra_signatures_keep_authorization_detour :
    ∃ s, verifyMissing detour [({ active := setOf [20] } : RequiredAuthorities ℕ ℕ)] (setOf [1, 2]) false ∅ ∅ =
      .ok s := by
  have hpass : (verifyMissing detour [({ active := setOf [20] } : RequiredAuthorities ℕ ℕ)] (setOf [2]) false ∅
      ∅).isOk = true := by decide
  refine (extra_signatures_keep_authorization detour_noAddresses (fun _ hau ↦ by cases hau)
    (show (setOf [2]).keys ⊆ _ by decide) subset_rfl subset_rfl ?_ ⟨fun _ hau ↦ (by cases hau), fun _ hid ↦ (by cases hid), ?_⟩).1
  · rcases hs : verifyMissing detour [({ active := setOf [20] } : RequiredAuthorities ℕ ℕ)] (setOf [2]) false ∅ ∅
      with e | s
    · rw [hs] at hpass
      cases hpass
    · exact ⟨s, rfl⟩
  · intro id hid
    obtain rfl := List.mem_singleton.1 hid
    refine .inl (.inr ⟨anyOf [1] [23], .inl rfl, .of_account (p := (23, 1)) (by decide) (.inr ?_) (by decide)⟩)
    exact ⟨anyOf [2] [], .inl rfl, .of_key (p := (2, 1)) (by decide) (.inl (by decide)) (by decide)⟩

end Playchain.Authorities
