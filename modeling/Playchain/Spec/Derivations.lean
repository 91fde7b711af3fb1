import Playchain.Lib.Control
import Playchain.Lib.WeightedSum
import Playchain.Protocol.SignState

/-!
# Derivations of authorities

What a set of keys and of approving accounts amounts to, apart from the way it is checked: an authority is *held*
if the weights of its keys, addresses and accounts that count reach the threshold, and an account *approves* with a
derivation of height `n + 1` if it is approved beforehand or one of its authorities is held by the accounts with
derivations of height `n`.

The state of the checks is related to this by `Kept`: the keys stay the same, and every account that is kept as
approved has a derivation of some height. A check that starts there stays there, returns true only if there is a
derivation, and returns true if there is one that the depth allows (`checkMembers_decides`,
`checkAccount_decides`), whatever was checked before.
-/

namespace Playchain.Authorities

variable {κ δ : Type} [LinearOrder κ] [LinearOrder δ] [KeyAddresses κ δ]

/-! ### Derivations -/

/-- The five addresses of a key. -/
def addressForms (k : κ) : List δ :=
  [KeyAddresses.ptsAddress k false 56, KeyAddresses.ptsAddress k true 56, KeyAddresses.ptsAddress k false 0,
    KeyAddresses.ptsAddress k true 0, KeyAddresses.address k]

/-- An address of one of the keys. -/
def HasAddress (keys : Set κ) (a : δ) : Prop := ∃ k ∈ keys, a ∈ addressForms k

/-- The weight of the members of an authority that count. -/
noncomputable def heldWeight (keys : Set κ) (accounts : Set AccountId) (au : Authority κ δ) : ℕ :=
  weightIn (fun p ↦ p.1 ∈ keys) (fun p ↦ p.2.toNat) au.keyAuths.toList +
    weightIn (fun p ↦ HasAddress keys p.1) (fun p ↦ p.2.toNat) au.addressAuths.toList +
    weightIn (fun p ↦ p.1 ∈ accounts) (fun p ↦ p.2.toNat) au.accountAuths.toList

/-- The members that count reach the threshold. -/
def HeldBy (keys : Set κ) (accounts : Set AccountId) (au : Authority κ δ) : Prop :=
  au.weightThreshold.toNat ≤ heldWeight keys accounts au

/-- The authorities through which an account may approve in another authority. -/
def SignRules.Through (r : SignRules κ δ) (a : AccountId) (au : Authority κ δ) : Prop :=
  r.getActive a = some au ∨ r.allowNonImmediateOwner = true ∧ r.getOwner a = some au

/-- The accounts that approve with a derivation of height at most `n`. -/
def approvals (r : SignRules κ δ) (keys : Set κ) (pre : Set AccountId) : ℕ → Set AccountId
  | 0 => pre
  | n + 1 => {a | a ∈ pre ∨ ∃ au, r.Through a au ∧ HeldBy keys (approvals r keys pre n) au}

/-- An authority has an address that no key has. -/
def Unkeyed (keys : Set κ) (au : Authority κ δ) : Prop := ∃ p ∈ au.addressAuths.toList, ¬HasAddress keys p.1

/-- The accounts that approve with a derivation of any height. -/
def allApprovals (r : SignRules κ δ) (keys : Set κ) (pre : Set AccountId) : Set AccountId :=
  {a | ∃ n, a ∈ approvals r keys pre n}

section Derivations

variable {r : SignRules κ δ} {keys keys' : Set κ} {pre pre' accounts accounts' : Set AccountId}
  {au : Authority κ δ} {m n : ℕ}

omit [LinearOrder κ] [LinearOrder δ] in
theorem HasAddress.mono (h : keys ⊆ keys') {a : δ} (ha : HasAddress keys a) : HasAddress keys' a := by
  obtain ⟨k, hk, hform⟩ := ha
  exact ⟨k, h hk, hform⟩

theorem heldWeight_mono (hkeys : keys ⊆ keys') (haccounts : accounts ⊆ accounts') (au : Authority κ δ) :
    heldWeight keys accounts au ≤ heldWeight keys' accounts' au :=
  Nat.add_le_add (Nat.add_le_add (weightIn_mono fun _ _ h ↦ hkeys h) (weightIn_mono fun _ _ h ↦ h.mono hkeys))
    (weightIn_mono fun _ _ h ↦ haccounts h)

theorem HeldBy.mono (h : HeldBy keys accounts au) (hkeys : keys ⊆ keys') (haccounts : accounts ⊆ accounts') :
    HeldBy keys' accounts' au :=
  le_trans h (heldWeight_mono hkeys haccounts au)

/-- A single key can be enough. -/
theorem HeldBy.of_key {p : κ × UInt16} (hp : p ∈ au.keyAuths.toList) (hk : p.1 ∈ keys)
    (hle : au.weightThreshold.toNat ≤ p.2.toNat) : HeldBy keys accounts au := by
  have hweight := le_weightIn_of_mem (P := fun p : κ × UInt16 ↦ p.1 ∈ keys) (w := fun p ↦ p.2.toNat) hp hk
  unfold HeldBy heldWeight
  omega

/-- A single account can be enough. -/
theorem HeldBy.of_account {p : AccountId × UInt16} (hp : p ∈ au.accountAuths.toList) (ha : p.1 ∈ accounts)
    (hle : au.weightThreshold.toNat ≤ p.2.toNat) : HeldBy keys accounts au := by
  have hweight := le_weightIn_of_mem (P := fun p : AccountId × UInt16 ↦ p.1 ∈ accounts) (w := fun p ↦ p.2.toNat)
    hp ha
  unfold HeldBy heldWeight
  omega

theorem pre_subset_approvals (n : ℕ) : pre ⊆ approvals r keys pre n := by
  cases n with
  | zero => exact subset_rfl
  | succ n => exact fun _ ha ↦ .inl ha

/-- More keys and more accounts approved beforehand leave the derivations there are. -/
theorem approvals_subset (hkeys : keys ⊆ keys') (hpre : pre ⊆ pre') (n : ℕ) :
    approvals r keys pre n ⊆ approvals r keys' pre' n := by
  induction n with
  | zero => exact hpre
  | succ n ih =>
    rintro a (ha | ⟨au, hau, hheld⟩)
    · exact .inl (hpre ha)
    · exact .inr ⟨au, hau, hheld.mono hkeys ih⟩

theorem approvals_subset_succ (n : ℕ) : approvals r keys pre n ⊆ approvals r keys pre (n + 1) := by
  induction n with
  | zero => exact pre_subset_approvals 1
  | succ n ih =>
    rintro a (ha | ⟨au, hau, hheld⟩)
    · exact .inl ha
    · exact .inr ⟨au, hau, hheld.mono subset_rfl ih⟩

theorem approvals_mono (h : m ≤ n) : approvals r keys pre m ⊆ approvals r keys pre n :=
  monotone_nat_of_le_succ (f := approvals r keys pre) approvals_subset_succ h

theorem subset_allApprovals (n : ℕ) : approvals r keys pre n ⊆ allApprovals r keys pre := fun _ ha ↦ ⟨n, ha⟩

/-- What is held by the accounts that approve is held by those up to some height. -/
theorem HeldBy.exists_height (h : HeldBy keys (allApprovals r keys pre) au) :
    ∃ n, HeldBy keys (approvals r keys pre n) au := by
  obtain ⟨n, hn⟩ := exists_weightIn_le_stage (S := fun n (p : AccountId × UInt16) ↦ p.1 ∈ approvals r keys pre n)
    (fun hmn ha ↦ approvals_mono hmn ha) (fun p ↦ p.2.toNat) au.accountAuths.toList
  exact ⟨n, le_trans h (Nat.add_le_add_left hn _)⟩

/-- The accounts that approve are closed under derivation. -/
theorem mem_allApprovals_of_held {a : AccountId} (hau : r.Through a au)
    (h : HeldBy keys (allApprovals r keys pre) au) : a ∈ allApprovals r keys pre := by
  obtain ⟨n, hn⟩ := h.exists_height
  exact ⟨n + 1, .inr ⟨au, hau, hn⟩⟩

end Derivations

/-! ### The addresses of keys -/

section Addresses

variable {r : SignRules κ δ} {a : δ}

omit [LinearOrder κ] in
theorem find?_addAddresses (m : FlatMap δ κ) (k : κ) (a : δ) :
    (addAddresses m k).find? a = if a ∈ addressForms k then some k else m.find? a := by
  simp only [addAddresses, FlatMap.find?_insert, addressForms, List.mem_cons, List.not_mem_nil, or_false]
  split_ifs <;> tauto

omit [LinearOrder κ] in
/-- A key that is found under an address has the address. -/
theorem of_find?_addressMap {l : List κ} {k : κ} (h : (addressMap l).find? a = some k) :
    k ∈ l ∧ a ∈ addressForms k := by
  have hfold : ∀ (l : List κ) (m : FlatMap δ κ), (l.foldl addAddresses m).find? a = some k →
      m.find? a = some k ∨ k ∈ l ∧ a ∈ addressForms k := by
    intro l
    induction l with
    | nil => exact fun m hm ↦ .inl hm
    | cons j l ih =>
      intro m hm
      rcases ih _ hm with hm | ⟨hk, ha⟩
      · rw [find?_addAddresses] at hm
        split_ifs at hm with hj
        · obtain rfl := Option.some.inj hm
          exact .inr ⟨List.mem_cons_self, hj⟩
        · exact .inl hm
      · exact .inr ⟨List.mem_cons_of_mem _ hk, ha⟩
  rcases hfold l ∅ h with hnone | hk
  · cases hnone
  · exact hk

omit [LinearOrder κ] in
/-- An address of a key is found. -/
theorem find?_addressMap_ne_none {l : List κ} {k : κ} (hk : k ∈ l) (ha : a ∈ addressForms k) :
    (addressMap l).find? a ≠ none := by
  have hfold : ∀ (l : List κ) (m : FlatMap δ κ), m.find? a ≠ none ∨ k ∈ l → (l.foldl addAddresses m).find? a ≠ none := by
    intro l
    induction l with
    | nil => exact fun m hm ↦ hm.resolve_right List.not_mem_nil
    | cons j l ih =>
      intro m hm
      refine ih _ ?_
      rw [find?_addAddresses]
      rcases hm with hm | hm
      · left
        split_ifs
        · exact Option.some_ne_none _
        · exact hm
      · rcases List.mem_cons.1 hm with rfl | hm
        · left
          rw [if_pos ha]
          exact Option.some_ne_none _
        · exact .inr hm
  exact hfold l ∅ (.inr hk)

end Addresses

/-! ### The state of the checks -/

/-- The maps of the addresses are those of the keys. -/
def AddressesBuilt (r : SignRules κ δ) (keys : Set κ) (s : SignState κ δ) : Prop :=
  ∃ l : List κ, s.availableAddressSigs = some (addressMap r.availableKeys.elements) ∧
    s.providedAddressSigs = some (addressMap l) ∧ ∀ k, k ∈ l ∨ k ∈ r.availableKeys.keys ↔ k ∈ keys

/-- **The invariant of the checks.** The keys are the same all along, and the accounts kept as approved have
derivations. -/
structure Kept (r : SignRules κ δ) (keys : Set κ) (pre : Set AccountId) (s : SignState κ δ) : Prop where
  signatures : ∀ k, k ∈ s.providedSignatures.keys ∨ k ∈ r.availableKeys.keys ↔ k ∈ keys
  approved : ∀ a ∈ pre, a ∈ s.approvedBy.keys
  derived : ∀ a ∈ s.approvedBy.keys, a ∈ allApprovals r keys pre
  addresses : s.availableAddressSigs = none ∨ AddressesBuilt r keys s

/-- From a state with `I` a check returns a state with `I` and a verdict: true only if `good`, and true if
`sure`. -/
def Decides (I : SignState κ δ → Prop) (E : AuthorityError → Prop) (c : Check κ δ) (good sure : Prop) : Prop :=
  ∀ s, I s → (c s).Ensures E fun x ↦ I x.2 ∧ (x.1 = true → good) ∧ (sure → x.1 = true)

section Checks

variable {r : SignRules κ δ} {keys : Set κ} {pre : Set AccountId} {s : SignState κ δ}
  {E : AuthorityError → Prop} {k : κ}

theorem Kept.mark (h : Kept r keys pre s) (hk : k ∈ keys) : Kept r keys pre (s.mark k) where
  signatures j := by
    rw [SignState.mark, FlatMap.keys_insert, Finset.mem_insert, or_assoc, h.signatures]
    exact or_iff_right_of_imp fun hj ↦ hj ▸ hk
  approved := h.approved
  derived := h.derived
  addresses := h.addresses

theorem Kept.approve (h : Kept r keys pre s) {a : AccountId} (ha : a ∈ allApprovals r keys pre) :
    Kept r keys pre (s.approve a) where
  signatures := h.signatures
  approved b hb := by
    rw [SignState.approve, FlatSet.keys_add]
    exact Finset.mem_insert_of_mem (h.approved b hb)
  derived b hb := by
    rw [SignState.approve, FlatSet.keys_add, Finset.mem_insert] at hb
    rcases hb with rfl | hb
    · exact ha
    · exact h.derived b hb
  addresses := h.addresses

theorem signedBy_decides (k : κ) : Decides (Kept r keys pre) E (signedBy r k) (k ∈ keys) (k ∈ keys) := by
  intro s hs
  have hmem := hs.signatures k
  unfold signedBy
  rcases hfind : s.providedSignatures.find? k with - | used
  · dsimp only
    have hnot : k ∉ s.providedSignatures.keys := FlatMap.not_mem_keys.2 hfind
    by_cases havailable : r.availableKeys.contains k = true
    · have hk : k ∈ keys := hmem.1 (.inr (FlatMap.contains_iff.1 havailable))
      rw [if_pos havailable]
      exact .ok ⟨hs.mark hk, fun _ ↦ hk, fun _ ↦ rfl⟩
    · rw [if_neg havailable]
      refine .ok ⟨hs, fun hf ↦ (by cases hf), fun hk ↦ ?_⟩
      rcases hmem.2 hk with hk | hk
      · exact absurd hk hnot
      · exact absurd (FlatMap.contains_iff.2 hk) havailable
  · have hk : k ∈ keys := hmem.1 (.inl (FlatMap.mem_keys.2 ⟨used, hfind⟩))
    exact .ok ⟨hs.mark hk, fun _ ↦ hk, fun _ ↦ rfl⟩

/-- The maps are built of all keys there are. -/
theorem Kept.buildAddressSigs (h : Kept r keys pre s) :
    Kept r keys pre (buildAddressSigs r s) ∧ AddressesBuilt r keys (buildAddressSigs r s) := by
  unfold Authorities.buildAddressSigs
  rcases hnone : s.availableAddressSigs with - | m
  · have hbuilt : AddressesBuilt r keys { s with
        availableAddressSigs := some (addressMap r.availableKeys.elements)
        providedAddressSigs := some (addressMap (s.providedSignatures.toList.map Prod.fst)) } := by
      refine ⟨_, rfl, rfl, fun k ↦ ?_⟩
      rw [← h.signatures k]
      exact or_congr_left (by rw [FlatMap.keys, List.mem_toFinset])
    exact ⟨⟨h.signatures, h.approved, h.derived, .inr hbuilt⟩, hbuilt⟩
  · exact ⟨h, h.addresses.resolve_left (by rw [hnone]; exact Option.some_ne_none _)⟩

/-- **The lookup of an address**: true if a key has it. -/
theorem signedByAddress_true {a : δ} (h : Kept r keys pre s) (ha : HasAddress keys a) :
    ∃ s', signedByAddress r a s = .ok (true, s') ∧ Kept r keys pre s' := by
  obtain ⟨hkept, l, havailable, hprovided, hl⟩ := h.buildAddressSigs
  unfold signedByAddress
  dsimp only
  rw [havailable, hprovided, Option.getD_some, Option.getD_some]
  rcases hfind : (addressMap l).find? a with - | k
  · dsimp only
    rcases hfind' : (addressMap r.availableKeys.elements).find? a with - | k
    · obtain ⟨k, hk, ha⟩ := ha
      rcases (hl k).2 hk with hk | hk
      · exact absurd hfind (find?_addressMap_ne_none hk ha)
      · exact absurd hfind' (find?_addressMap_ne_none (FlatSet.mem_elements.2 hk) ha)
    · have hk := FlatSet.mem_elements.1 (of_find?_addressMap hfind').1
      dsimp only
      rw [if_pos (FlatMap.contains_iff.2 hk)]
      exact ⟨_, rfl, hkept.mark ((hl k).1 (.inr hk))⟩
  · exact ⟨_, rfl, hkept.mark ((hl k).1 (.inl (of_find?_addressMap hfind).1))⟩

/-- If no key has the address, the end of a map is followed. -/
theorem signedByAddress_error {a : δ} (h : Kept r keys pre s) (ha : ¬HasAddress keys a) :
    signedByAddress r a s = .error .undefinedBehaviour := by
  obtain ⟨-, l, havailable, hprovided, hl⟩ := h.buildAddressSigs
  have hnone : ∀ {l' : List κ}, (∀ k ∈ l', k ∈ keys) → (addressMap l').find? a = none := by
    intro l' hl'
    by_contra hsome
    obtain ⟨k, hk⟩ := Option.ne_none_iff_exists'.1 hsome
    obtain ⟨hmem, hform⟩ := of_find?_addressMap hk
    exact ha ⟨k, hl' k hmem, hform⟩
  unfold signedByAddress
  dsimp only
  rw [havailable, hprovided, Option.getD_some, Option.getD_some, hnone fun k hk ↦ (hl k).1 (.inl hk),
    hnone fun k hk ↦ (hl k).1 (.inr (FlatSet.mem_elements.1 hk))]

theorem signedByAddress_decides {a : δ} (hE : ¬HasAddress keys a → E .undefinedBehaviour) :
    Decides (Kept r keys pre) E (signedByAddress r a) (HasAddress keys a) (HasAddress keys a) := by
  intro s hs
  by_cases ha : HasAddress keys a
  · obtain ⟨s', hok, hs'⟩ := signedByAddress_true hs ha
    rw [hok]
    exact .ok ⟨hs', fun _ ↦ ha, fun _ ↦ rfl⟩
  · rw [signedByAddress_error hs ha]
    exact .error (hE ha)

omit [KeyAddresses κ δ] in
/-- **The loop over members**: the weights of the members that are found to count, which are among the good
ones; if the threshold is not reached, the sure ones are among them. -/
theorem addWeights_spec {μ : Type} {I : SignState κ δ → Prop} {check : μ → Check κ δ} {good sure : μ → Prop}
    {threshold : UInt32} {l : List (μ × UInt16)}
    (h : ∀ p ∈ l, Decides I E (check p.1) (good p.1) (sure p.1)) (total : UInt32)
    (hfits : total.toNat + (l.map fun p ↦ p.2.toNat).sum < 2 ^ 32) (hs : I s) :
    (addWeights threshold check l total s).Ensures E fun x ↦ I x.2 ∧
      x.1.2.toNat ≤ total.toNat + weightIn (fun p ↦ good p.1) (fun p ↦ p.2.toNat) l ∧
      (x.1.1 = true → threshold ≤ x.1.2) ∧
      (x.1.1 = false → total.toNat + weightIn (fun p ↦ sure p.1) (fun p ↦ p.2.toNat) l ≤ x.1.2.toNat) := by
  induction l generalizing total s with
  | nil => exact .ok ⟨hs, le_rfl, fun hf ↦ (by cases hf), fun _ ↦ le_rfl⟩
  | cons p l ih =>
    obtain ⟨m, w⟩ := p
    rw [List.map_cons, List.sum_cons] at hfits
    have hrest : ∀ p ∈ l, Decides I E (check p.1) (good p.1) (sure p.1) :=
      fun p hp ↦ h p (List.mem_cons_of_mem _ hp)
    unfold addWeights
    refine (h (m, w) List.mem_cons_self s hs).bind ?_
    rintro ⟨counts, s⟩ ⟨hs, hgood, hsure⟩
    dsimp only at hs hgood hsure ⊢
    cases counts with
    | false =>
      rw [if_neg Bool.false_ne_true]
      refine (ih hrest total (by omega) hs).mono fun x hx ↦ ⟨hx.1, ?_, hx.2.2.1, fun hf ↦ ?_⟩
      · exact hx.2.1.trans (Nat.add_le_add_left weightIn_le_cons _)
      · rw [weightIn_cons_of_neg (P := fun p : μ × UInt16 ↦ sure p.1) fun hm ↦
          absurd (hsure hm) Bool.false_ne_true]
        exact hx.2.2.2 hf
    | true =>
      have hw : (total + w.toUInt32).toNat = total.toNat + w.toNat := by
        rw [UInt32.toNat_add, UInt16.toNat_toUInt32, Nat.mod_eq_of_lt (by dsimp only at hfits; omega)]
      have hbound : (total + w.toUInt32).toNat + weightIn (fun p ↦ good p.1) (fun p ↦ p.2.toNat) l =
          total.toNat + weightIn (fun p : μ × UInt16 ↦ good p.1) (fun p ↦ p.2.toNat) ((m, w) :: l) := by
        rw [weightIn_cons_of_pos (P := fun p : μ × UInt16 ↦ good p.1) (hgood rfl), hw]
        exact Nat.add_assoc _ _ _
      rw [if_pos rfl]
      by_cases hreached : threshold ≤ total + w.toUInt32
      · rw [if_pos hreached]
        refine .pure ⟨hs, ?_, fun _ ↦ hreached, fun hf ↦ (by cases hf)⟩
        exact le_trans (Nat.le_add_right _ _) hbound.le
      · rw [if_neg hreached]
        refine (ih hrest _ (by rw [hw]; dsimp only at hfits; omega) hs).mono
          fun x hx ↦ ⟨hx.1, hx.2.1.trans hbound.le, hx.2.2.1, fun hf ↦ ?_⟩
        refine le_trans (Nat.add_le_add_left weightIn_cons_le _) ?_
        rw [← Nat.add_assoc]
        exact hw ▸ hx.2.2.2 hf

/-- **The body of `check_authority`**, given checks of the accounts. -/
theorem checkMembers_decides {account : AccountId → Check κ δ} {good sure : Set AccountId}
    (haccount : ∀ a, Decides (Kept r keys pre) E (account a) (a ∈ good) (a ∈ sure))
    (auth : Option (Authority κ δ))
    (hE : ∀ au, auth = some au → Unkeyed keys au → E .undefinedBehaviour) :
    Decides (Kept r keys pre) E (checkMembers r account auth) (∃ au, auth = some au ∧ HeldBy keys good au)
      (∃ au, auth = some au ∧ HeldBy keys sure au) := by
  intro s hs
  rcases auth with - | au
  · refine .ok ⟨hs, fun hf ↦ (by cases hf), ?_⟩
    rintro ⟨au, hau, -⟩
    cases hau
  have hfits := au.weightSum_lt
  rw [weightSum, weightSum, weightSum, FlatMap.sum, FlatMap.sum, FlatMap.sum] at hfits
  have hheld : ∀ {total : UInt32}, au.weightThreshold ≤ total → total.toNat ≤ heldWeight keys good au →
      ∃ au', some au = some au' ∧ HeldBy keys good au' :=
    fun hle hheld ↦ ⟨au, rfl, (UInt32.le_iff_toNat_le.1 hle).trans hheld⟩
  unfold heldWeight at hheld
  unfold checkMembers
  -- keys come first, then addresses, then accounts; each loop starts with the weight of the ones before
  refine (addWeights_spec (fun p _ ↦ signedBy_decides p.1) 0 (by rw [UInt32.toNat_zero]; omega) hs).bind ?_
  rintro ⟨⟨reached, total⟩, s⟩ ⟨hs, hle, hreached, hge⟩
  have hsum := weightIn_le_sum (P := fun p : κ × UInt16 ↦ p.1 ∈ keys) (w := fun p ↦ p.2.toNat)
    (l := au.keyAuths.toList)
  dsimp only at hs hle hreached hge ⊢
  rw [UInt32.toNat_zero, zero_add] at hle hge
  cases reached with
  | true =>
    rw [if_pos rfl]
    exact .pure ⟨hs, fun _ ↦ hheld (hreached rfl) (by omega), fun _ ↦ rfl⟩
  | false =>
  rw [if_neg Bool.false_ne_true]
  have hge := hge rfl
  refine (addWeights_spec (fun p hp ↦ signedByAddress_decides fun hnone ↦ hE au rfl ⟨p, hp, hnone⟩) total
    (by omega) hs).bind ?_
  rintro ⟨⟨reached, total'⟩, s⟩ ⟨hs, hle', hreached', hge'⟩
  have hsum' := weightIn_le_sum (P := fun p : δ × UInt16 ↦ HasAddress keys p.1) (w := fun p ↦ p.2.toNat)
    (l := au.addressAuths.toList)
  dsimp only at hs hle' hreached' hge' ⊢
  cases reached with
  | true =>
    rw [if_pos rfl]
    exact .pure ⟨hs, fun _ ↦ hheld (hreached' rfl) (by omega), fun _ ↦ rfl⟩
  | false =>
  rw [if_neg Bool.false_ne_true]
  have hge' := hge' rfl
  refine (addWeights_spec (fun p _ ↦ haccount p.1) total' (by omega) hs).bind ?_
  rintro ⟨⟨reached, total''⟩, s⟩ ⟨hs, hle'', hreached'', hge''⟩
  dsimp only at hs hle'' hreached'' hge'' ⊢
  cases reached with
  | true =>
    rw [if_pos rfl]
    exact .pure ⟨hs, fun _ ↦ hheld (hreached'' rfl) (by omega), fun _ ↦ rfl⟩
  | false =>
  rw [if_neg Bool.false_ne_true]
  have hge'' := hge'' rfl
  refine .pure ⟨hs, fun hreached ↦ hheld (of_decide_eq_true hreached) (by omega), ?_⟩
  rintro ⟨au', hau', hsure⟩
  obtain rfl := Option.some.inj hau'
  unfold HeldBy heldWeight at hsure
  exact decide_eq_true (UInt32.le_iff_toNat_le.2 (by omega))

/-- **An account in an authority.** What is found out within the levels that are left is the same whatever
was checked before; what was found out before is of use beyond them. -/
theorem checkAccount_decides (hE : ∀ a au, r.Through a au → Unkeyed keys au → E .undefinedBehaviour)
    (levels : ℕ) (a : AccountId) :
    Decides (Kept r keys pre) E (checkAccount r levels a) (a ∈ allApprovals r keys pre)
      (a ∈ approvals r keys pre levels) := by
  induction levels generalizing a with
  | zero =>
    intro s hs
    exact .ok ⟨hs, fun ha ↦ hs.derived a (FlatMap.contains_iff.1 ha),
      fun ha ↦ FlatMap.contains_iff.2 (hs.approved a ha)⟩
  | succ levels ih =>
    intro s hs
    unfold checkAccount
    by_cases hcontains : s.approvedBy.contains a = true
    · rw [if_pos hcontains]
      exact .ok ⟨hs, fun _ ↦ hs.derived a (FlatMap.contains_iff.1 hcontains), fun _ ↦ rfl⟩
    rw [if_neg hcontains]
    have hpre : a ∉ pre := fun ha ↦ hcontains (FlatMap.contains_iff.2 (hs.approved a ha))
    refine (checkMembers_decides ih (r.getActive a) (fun au hau ↦ hE a au (.inl hau)) s hs).bind ?_
    rintro ⟨approves, s⟩ ⟨hs, hgood, hsure⟩
    dsimp only at hs hgood hsure ⊢
    cases approves with
    | true =>
      obtain ⟨au, hau, hheld⟩ := hgood rfl
      have ha := mem_allApprovals_of_held (.inl hau) hheld
      rw [if_pos rfl]
      exact .pure ⟨hs.approve ha, fun _ ↦ ha, fun _ ↦ rfl⟩
    | false =>
    rw [if_neg Bool.false_ne_true]
    -- owner authorities count only where non-immediate ones are allowed
    by_cases hallow : r.allowNonImmediateOwner = true
    · rw [if_pos hallow]
      refine (checkMembers_decides ih (r.getOwner a) (fun au hau ↦ hE a au (.inr ⟨hallow, hau⟩)) s hs).bind ?_
      rintro ⟨approves, s⟩ ⟨hs, hgood, hsure'⟩
      dsimp only at hs hgood hsure' ⊢
      cases approves with
      | true =>
        obtain ⟨au, hau, hheld⟩ := hgood rfl
        have ha := mem_allApprovals_of_held (.inr ⟨hallow, hau⟩) hheld
        exact .pure ⟨hs.approve ha, fun _ ↦ ha, fun _ ↦ rfl⟩
      | false =>
        refine .pure ⟨hs, fun hf ↦ (by cases hf), ?_⟩
        rintro (ha | ⟨au, hau | ⟨-, hau⟩, hheld⟩)
        · exact absurd ha hpre
        · exact hsure ⟨au, hau, hheld⟩
        · exact hsure' ⟨au, hau, hheld⟩
    · rw [if_neg hallow]
      refine .pure ⟨hs, fun hf ↦ (by cases hf), ?_⟩
      rintro (ha | ⟨au, hau | ⟨hallowed, -⟩, hheld⟩)
      · exact absurd ha hpre
      · exact hsure ⟨au, hau, hheld⟩
      · exact absurd hallowed hallow

end Checks

end Playchain.Authorities
