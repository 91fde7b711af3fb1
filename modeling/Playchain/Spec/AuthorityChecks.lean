import Playchain.Spec.Derivations

/-!
# The verdicts of the checks

A `sign_state` is set up with signatures and with accounts that are approved beforehand, and then any number of
checks is made on it (`Reached`). In every state reached that way

* a check returns, is true only if the authority has a derivation, and is true if it has one of a height that the
  depth allows (`checkAuthority_sound_and_complete`), as long as no address is looked up;
* the lookup of an address returns if a key has it, and only then (`signedByAddress_returns_iff`): otherwise the end
  of a map is followed.
-/

namespace Playchain.Authorities

variable {κ δ : Type} [LinearOrder κ] [LinearOrder δ]

/-! ### Runs of checks -/

/-- A `sign_state` with signatures and with accounts that approve beforehand. -/
def SignState.start (sigs : FlatSet κ) (approved : FlatSet AccountId) : SignState κ δ :=
  approved.elements.foldl SignState.approve (SignState.ofKeys sigs)

/-- The keys that are there: those of the signatures, and those that are available. -/
def SignRules.keysWith (r : SignRules κ δ) (sigs : FlatSet κ) : Set κ :=
  {k | k ∈ sigs.keys ∨ k ∈ r.availableKeys.keys}

/-- The accounts that approve beforehand. -/
def preApproved (approved : FlatSet AccountId) : Set AccountId := {a | a = tempAccount ∨ a ∈ approved.keys}

/-- A call of a method of `sign_state`. -/
inductive Call (κ δ : Type) [LinearOrder κ] [LinearOrder δ] where
  | signedBy (k : κ)
  | signedByAddress (a : δ)
  | checkAuthority (auth : Option (Authority κ δ))
  | checkAuthorityOf (id : AccountId)

variable [KeyAddresses κ δ]

def Call.run (r : SignRules κ δ) : Call κ δ → Check κ δ
  | signedBy k => Authorities.signedBy r k
  | signedByAddress a => Authorities.signedByAddress r a
  | checkAuthority auth => Authorities.checkAuthority r auth
  | checkAuthorityOf id => Authorities.checkAuthorityOf r id

/-- The states that calls lead to. -/
inductive Reached (r : SignRules κ δ) (s₀ : SignState κ δ) : SignState κ δ → Prop
  | start : Reached r s₀ s₀
  | call {s s' : SignState κ δ} {verdict : Bool} (c : Call κ δ) (h : Reached r s₀ s)
      (hc : c.run r s = .ok (verdict, s')) : Reached r s₀ s'

section Runs

variable {r : SignRules κ δ} {keys : Set κ} {pre : Set AccountId} {s s' : SignState κ δ}
  {E : AuthorityError → Prop} {sigs : FlatSet κ} {approved : FlatSet AccountId}

omit [KeyAddresses κ δ] in
theorem Decides.mono {I : SignState κ δ → Prop} {c : Check κ δ} {good good' sure sure' : Prop}
    (h : Decides I E c good sure) (hgood : good → good') (hsure : sure' → sure) : Decides I E c good' sure' :=
  fun s hs ↦ (h s hs).mono fun _ hx ↦ ⟨hx.1, hgood ∘ hx.2.1, hx.2.2 ∘ hsure⟩

omit [KeyAddresses κ δ] in
theorem Decides.orElse {I : SignState κ δ → Prop} {x y : Check κ δ} {good good' sure sure' : Prop}
    (hx : Decides I E x good sure) (hy : Decides I E y good' sure') :
    Decides I E (x.orElse y) (good ∨ good') (sure ∨ sure') := by
  intro s hs
  refine (hx s hs).bind ?_
  rintro ⟨b, s⟩ ⟨hs, hgood, hsure⟩
  dsimp only at hs hgood hsure ⊢
  cases b with
  | true => exact .pure ⟨hs, fun _ ↦ .inl (hgood rfl), fun _ ↦ rfl⟩
  | false =>
    refine (hy s hs).mono fun x hx ↦ ⟨hx.1, fun hb ↦ .inr (hx.2.1 hb), ?_⟩
    rintro (h | h)
    · exact absurd (hsure h) Bool.false_ne_true
    · exact hx.2.2 h

theorem checkAuthority_decides (hE : ∀ a au, r.Through a au → Unkeyed keys au → E .undefinedBehaviour)
    (auth : Option (Authority κ δ)) (hauth : ∀ au, auth = some au → Unkeyed keys au → E .undefinedBehaviour) :
    Decides (Kept r keys pre) E (checkAuthority r auth)
      (∃ au, auth = some au ∧ HeldBy keys (allApprovals r keys pre) au)
      (∃ au, auth = some au ∧ HeldBy keys (approvals r keys pre r.maxRecursion) au) :=
  checkMembers_decides (checkAccount_decides hE r.maxRecursion) auth hauth

/-- The check of an account goes one level deeper than that of an authority. -/
theorem checkAuthorityOf_decides (hE : ∀ a au, r.Through a au → Unkeyed keys au → E .undefinedBehaviour)
    (id : AccountId) :
    Decides (Kept r keys pre) E (checkAuthorityOf r id) (id ∈ allApprovals r keys pre)
      (id ∈ approvals r keys pre (r.maxRecursion + 1)) := by
  intro s hs
  unfold checkAuthorityOf
  by_cases hcontains : s.approvedBy.contains id = true
  · rw [if_pos hcontains]
    exact .ok ⟨hs, fun _ ↦ hs.derived id (FlatMap.contains_iff.1 hcontains), fun _ ↦ rfl⟩
  rw [if_neg hcontains]
  have hpre : id ∉ pre := fun h ↦ hcontains (FlatMap.contains_iff.2 (hs.approved id h))
  have hactive : Decides (Kept r keys pre) E (checkAuthority r (r.getActive id)) _ _ :=
    checkAuthority_decides hE (r.getActive id) fun au hau ↦ hE id au (.inl hau)
  by_cases hallow : r.allowNonImmediateOwner = true
  · rw [if_pos hallow]
    have howner : Decides (Kept r keys pre) E (checkAuthority r (r.getOwner id)) _ _ :=
      checkAuthority_decides hE (r.getOwner id) fun au hau ↦ hE id au (.inr ⟨hallow, hau⟩)
    refine (hactive.orElse howner).mono ?_ ?_ s hs
    · rintro (⟨au, hau, hheld⟩ | ⟨au, hau, hheld⟩)
      · exact mem_allApprovals_of_held (.inl hau) hheld
      · exact mem_allApprovals_of_held (.inr ⟨hallow, hau⟩) hheld
    · rintro (h | ⟨au, hau | ⟨-, hau⟩, hheld⟩)
      · exact absurd h hpre
      · exact .inl ⟨au, hau, hheld⟩
      · exact .inr ⟨au, hau, hheld⟩
  · rw [if_neg hallow]
    refine hactive.mono ?_ ?_ s hs
    · rintro ⟨au, hau, hheld⟩
      exact mem_allApprovals_of_held (.inl hau) hheld
    · rintro (h | ⟨au, hau | ⟨hallowed, -⟩, hheld⟩)
      · exact absurd h hpre
      · exact ⟨au, hau, hheld⟩
      · exact absurd hallowed hallow

/-- Whatever a call does, it keeps the invariant. -/
theorem Kept.call (h : Kept r keys pre s) (c : Call κ δ) {verdict : Bool} (hc : c.run r s = .ok (verdict, s')) :
    Kept r keys pre s' := by
  have hkept : (c.run r s).Ensures (fun _ ↦ True) fun x ↦ Kept r keys pre x.2 := by
    cases c with
    | signedBy k => exact (signedBy_decides k s h).mono fun _ hx ↦ hx.1
    | signedByAddress a => exact (signedByAddress_decides (fun _ ↦ trivial) s h).mono fun _ hx ↦ hx.1
    | checkAuthority auth =>
      exact (checkAuthority_decides (fun _ _ _ _ ↦ trivial) auth (fun _ _ _ ↦ trivial) s h).mono fun _ hx ↦ hx.1
    | checkAuthorityOf id =>
      exact (checkAuthorityOf_decides (fun _ _ _ _ ↦ trivial) id s h).mono fun _ hx ↦ hx.1
  exact hkept.of_ok hc

omit [KeyAddresses κ δ] in
theorem keys_ofKeys (sigs : FlatSet κ) {k : κ} :
    k ∈ (SignState.ofKeys sigs : SignState κ δ).providedSignatures.keys ↔ k ∈ sigs.keys := by
  have hfold : ∀ (l : List κ) (m : FlatMap κ Bool),
      k ∈ (l.foldl (fun m k ↦ m.insert k false) m).keys ↔ k ∈ m.keys ∨ k ∈ l := by
    intro l
    induction l with
    | nil => simp
    | cons j l ih =>
      intro m
      rw [List.foldl_cons, ih, FlatMap.keys_insert, Finset.mem_insert, List.mem_cons]
      tauto
  rw [SignState.ofKeys, hfold, ← FlatSet.mem_elements]
  simp

omit [KeyAddresses κ δ] in
theorem foldl_approve (l : List AccountId) (s : SignState κ δ) :
    l.foldl SignState.approve s = { s with approvedBy := l.foldl FlatSet.add s.approvedBy } := by
  induction l generalizing s with
  | nil => rfl
  | cons a l ih => rw [List.foldl_cons, ih]; rfl

/-- A state in which nothing has been checked. -/
theorem kept_fresh (hsigs : ∀ k, k ∈ s.providedSignatures.keys ↔ k ∈ sigs.keys)
    (hpre : ∀ a, a ∈ s.approvedBy.keys ↔ a ∈ pre) (hnone : s.availableAddressSigs = none) :
    Kept r (r.keysWith sigs) pre s :=
  ⟨fun k ↦ or_congr_left (hsigs k), fun a ha ↦ (hpre a).2 ha, fun a ha ↦ subset_allApprovals 0 ((hpre a).1 ha),
    .inl hnone⟩

omit [KeyAddresses κ δ] in
/-- The accounts that approve, of a new state to which some are added. -/
theorem mem_approvedBy_foldl (l : List AccountId) {a : AccountId} :
    a ∈ (l.foldl SignState.approve (SignState.ofKeys sigs : SignState κ δ)).approvedBy.keys ↔
      a = tempAccount ∨ a ∈ l := by
  rw [foldl_approve, FlatSet.mem_keys_foldl_add, SignState.ofKeys, FlatSet.keys_add, Finset.mem_insert,
    FlatMap.keys_empty]
  simp

/-- Accounts are added to the keys of a new state. -/
theorem kept_foldl_approve (l : List AccountId) :
    Kept r (r.keysWith sigs) {a | a = tempAccount ∨ a ∈ l} (l.foldl SignState.approve (SignState.ofKeys sigs)) := by
  refine kept_fresh (fun k ↦ ?_) (fun a ↦ mem_approvedBy_foldl l) ?_
  · rw [foldl_approve]
    exact keys_ofKeys (δ := δ) sigs
  · rw [foldl_approve]
    rfl

/-- A new state has the keys and nothing but the accounts that are approved beforehand. -/
theorem kept_start (sigs : FlatSet κ) (approved : FlatSet AccountId) :
    Kept r (r.keysWith sigs) (preApproved approved) (SignState.start sigs approved) := by
  have hpre : preApproved approved = {a | a = tempAccount ∨ a ∈ approved.elements} := by
    ext a
    exact or_congr_right FlatSet.mem_elements.symm
  rw [hpre]
  exact kept_foldl_approve approved.elements

theorem Reached.kept (h : Reached r (SignState.start sigs approved) s) :
    Kept r (r.keysWith sigs) (preApproved approved) s := by
  induction h with
  | start => exact kept_start sigs approved
  | call c _ hc ih => exact ih.call c hc

end Runs

/-! ### Soundness and completeness -/

/-- No authority of an account has addresses. -/
def SignRules.NoAddresses (r : SignRules κ δ) : Prop :=
  ∀ a au, r.getActive a = some au ∨ r.getOwner a = some au → au.addressAuths = ∅

section Verdicts

variable {r : SignRules κ δ} {keys : Set κ} {sigs : FlatSet κ} {approved : FlatSet AccountId}
  {s : SignState κ δ}

theorem not_unkeyed {au : Authority κ δ} (h : au.addressAuths = ∅) : ¬Unkeyed keys au := by
  rintro ⟨p, hp, -⟩
  rw [h] at hp
  cases hp

theorem SignRules.NoAddresses.not_unkeyed (h : r.NoAddresses) {a : AccountId} {au : Authority κ δ}
    (hau : r.Through a au) : ¬Unkeyed keys au :=
  Authorities.not_unkeyed (h a au (hau.imp_right And.right))

/-- **The checks are sound, and complete up to the depth.** In every state that checks lead to, the check of an
authority without addresses returns; it is true only if the authority has a derivation from the signatures and the
accounts approved beforehand, and it is true if there is one of a height that the depth allows. The check of an
account looks one level deeper. -/
theorem checkAuthority_sound_and_complete (hr : r.NoAddresses)
    (hs : Reached r (SignState.start sigs approved) s) :
    (∀ auth : Authority κ δ, auth.addressAuths = ∅ → ∃ verdict s', checkAuthority r (some auth) s = .ok (verdict, s') ∧
      (verdict = true → ∃ n, HeldBy (r.keysWith sigs) (approvals r (r.keysWith sigs) (preApproved approved) n) auth) ∧
      (HeldBy (r.keysWith sigs) (approvals r (r.keysWith sigs) (preApproved approved) r.maxRecursion) auth →
        verdict = true)) ∧
    ∀ id, ∃ verdict s', checkAuthorityOf r id s = .ok (verdict, s') ∧
      (verdict = true → ∃ n, id ∈ approvals r (r.keysWith sigs) (preApproved approved) n) ∧
      (id ∈ approvals r (r.keysWith sigs) (preApproved approved) (r.maxRecursion + 1) → verdict = true) := by
  have hE : ∀ a au, r.Through a au → Unkeyed (r.keysWith sigs) au → False :=
    fun a au hau hun ↦ hr.not_unkeyed hau hun
  constructor
  · intro auth hauth
    obtain ⟨⟨verdict, s'⟩, hcheck, -, hgood, hsure⟩ := (checkAuthority_decides hE (some auth) (fun au hau ↦
      Option.some.inj hau ▸ not_unkeyed hauth) s hs.kept).exists_ok
    refine ⟨verdict, s', hcheck, fun htrue ↦ ?_, fun hheld ↦ hsure ⟨auth, rfl, hheld⟩⟩
    obtain ⟨au, hau, hheld⟩ := hgood htrue
    obtain rfl := Option.some.inj hau
    exact hheld.exists_height
  · intro id
    obtain ⟨⟨verdict, s'⟩, hcheck, -, hgood, hsure⟩ := (checkAuthorityOf_decides hE id s hs.kept).exists_ok
    exact ⟨verdict, s', hcheck, hgood, hsure⟩

/-- **The lookup of an address returns the right verdict exactly if a key has the address.** A check that returns
counts no address that no key has, and a check returns if the addresses of all authorities have keys. -/
theorem signedByAddress_returns_iff (hs : Reached r (SignState.start sigs approved) s) :
    (∀ a : δ, (∃ verdict s', signedByAddress r a s = .ok (verdict, s') ∧
      (verdict = true ↔ HasAddress (r.keysWith sigs) a)) ↔ HasAddress (r.keysWith sigs) a) ∧
    (∀ auth : Authority κ δ, ∀ s', checkAuthority r (some auth) s = .ok (true, s') →
      ∃ n, HeldBy (r.keysWith sigs) (approvals r (r.keysWith sigs) (preApproved approved) n) auth) ∧
    ∀ auth : Authority κ δ, ¬Unkeyed (r.keysWith sigs) auth →
      (∀ a au, r.Through a au → ¬Unkeyed (r.keysWith sigs) au) →
        ∃ verdict s', checkAuthority r (some auth) s = .ok (verdict, s') := by
  refine ⟨fun a ↦ ⟨?_, fun ha ↦ ?_⟩, fun auth s' hcheck ↦ ?_, fun auth hauth hgraph ↦ ?_⟩
  · rintro ⟨verdict, s', hcheck, hverdict⟩
    by_contra hnone
    have herror := signedByAddress_error hs.kept hnone
    rw [hcheck] at herror
    cases herror
  · obtain ⟨⟨verdict, s'⟩, hcheck, -, hgood, hsure⟩ :=
      (signedByAddress_decides (fun hnone ↦ absurd ha hnone) s hs.kept).exists_ok
    exact ⟨verdict, s', hcheck, hgood, hsure⟩
  · obtain ⟨-, hgood, -⟩ := (checkAuthority_decides (E := fun _ ↦ True) (fun _ _ _ _ ↦ trivial) (some auth)
      (fun _ _ _ ↦ trivial) s hs.kept).of_ok hcheck
    obtain ⟨au, hau, hheld⟩ := hgood rfl
    obtain rfl := Option.some.inj hau
    exact hheld.exists_height
  · obtain ⟨⟨verdict, s'⟩, hcheck, -⟩ := (checkAuthority_decides (E := fun _ ↦ False)
      (fun a au hau hun ↦ hgraph a au hau hun) (some auth) (fun au hau ↦ Option.some.inj hau ▸ hauth) s
      hs.kept).exists_ok
    exact ⟨verdict, s', hcheck⟩

end Verdicts

/-! ### Two accounts that approve each other -/

namespace Sample

/-- Keys and addresses are numbers; a key is its own address. -/
scoped instance keyAddresses : KeyAddresses ℕ ℕ where
  ptsAddress k compressed version := 1000 * (k + 1) + 2 * version + if compressed then 1 else 0
  address k := k

/-- A set of keys or accounts. -/
def setOf (l : List ℕ) : FlatSet ℕ := FlatSet.ofList l

/-- Keys and accounts, each with the weight one. -/
def anyOf (keys accounts : List ℕ) (threshold : UInt32 := 1)
    (h : weightSum (keys.foldl (fun m k ↦ m.insert k 1) (∅ : FlatMap ℕ UInt16)) + weightSum (∅ : FlatMap ℕ UInt16) +
      weightSum (accounts.foldl (fun m k ↦ m.insert k 1) (∅ : FlatMap ℕ UInt16)) < 2 ^ 32 := by decide) :
    Authority ℕ ℕ where
  weightThreshold := threshold
  keyAuths := keys.foldl (fun m k ↦ m.insert k 1) ∅
  accountAuths := accounts.foldl (fun m k ↦ m.insert k 1) ∅
  addressAuths := ∅
  weightSum_lt := h

/-- Accounts 10 and 11 may approve for each other; account 10 has the key 1. -/
def circle : SignRules ℕ ℕ where
  getActive a := if a = 10 then some (anyOf [1] [11]) else if a = 11 then some (anyOf [] [10]) else none
  getOwner _ := none
  allowNonImmediateOwner := false
  maxRecursion := 2

theorem circle_noAddresses : circle.NoAddresses := by
  rintro a au (hau | hau)
  · unfold circle at hau
    dsimp only at hau
    split_ifs at hau
    · obtain rfl := Option.some.inj hau
      rfl
    · obtain rfl := Option.some.inj hau
      rfl
  · cases hau

end Sample

open Sample

/-- Account 11 approves through account 10. -/
theorem checkAuthority_sound_and_complete_circle :
    ∃ s', checkAuthority circle (some (anyOf [] [11])) (SignState.start (setOf [1]) ∅) = .ok (true, s') ∧
      ∃ n, HeldBy (circle.keysWith (setOf [1]))
        (approvals circle (circle.keysWith (setOf [1])) (preApproved ∅) n) (anyOf [] [11]) := by
  have hrun : (checkAuthority circle (some (anyOf [] [11])) (SignState.start (setOf [1]) ∅)).map Prod.fst =
      .ok true := by decide
  obtain ⟨verdict, s', hcheck, hgood, -⟩ :=
    (checkAuthority_sound_and_complete circle_noAddresses (.start : Reached _ (SignState.start (setOf [1]) ∅) _)).1
      (anyOf [] [11]) rfl
  rw [hcheck] at hrun
  obtain rfl : verdict = true := Except.ok.inj hrun
  exact ⟨s', hcheck, hgood rfl⟩

/-- Without any key, the lookup of an address follows the end of a map. -/
theorem signedByAddress_follows_end :
    ¬∀ (r : SignRules ℕ ℕ) (sigs : FlatSet ℕ) (approved : FlatSet AccountId) (s : SignState ℕ ℕ),
      Reached r (SignState.start sigs approved) s → ∀ a : ℕ,
        ∃ verdict s', signedByAddress r a s = .ok (verdict, s') ∧
          (verdict = true ↔ HasAddress (r.keysWith sigs) a) := by
  intro h
  obtain ⟨verdict, s', hcheck, -⟩ := h circle ∅ ∅ _ .start 7
  have herror : signedByAddress circle 7 (SignState.start ∅ ∅) = .error .undefinedBehaviour := rfl
  rw [herror] at hcheck
  cases hcheck

/-- The address of a key that has signed is found. -/
theorem signedByAddress_returns_iff_signed :
    ∃ s', signedByAddress circle 1 (SignState.start (setOf [1]) ∅) = .ok (true, s') := by
  have hkey : HasAddress (circle.keysWith (setOf [1])) 1 := ⟨1, .inl (by decide), by decide⟩
  obtain ⟨verdict, s', hcheck, hverdict⟩ := ((signedByAddress_returns_iff (r := circle)
    (.start : Reached _ (SignState.start (setOf [1]) ∅) _)).1 1).2 hkey
  exact ⟨s', hverdict.2 hkey ▸ hcheck⟩

end Playchain.Authorities
