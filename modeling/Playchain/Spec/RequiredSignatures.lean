import Playchain.Spec.ExtraSignatures

/-!
# The signatures that are required

`get_required_signatures` makes the checks of `verify_authority` with all keys at hand, and returns those that were
looked up. Two runs of the checks with different keys are the same as long as the keys that they look up are there
in both or in none, and the keys that a run has found are marked at its end: so the second run may be given *the
marks at the end of the first one* (`Follows`).

That way the run with the returned keys follows the run of `get_required_signatures`, which follows the run with
all keys. The first step needs that the two make the same checks. They do if no account is required both as owner
and as active account (`required_signatures_suffice`): `get_required_signatures` leaves out the active authority of
such an account, and with it the accounts that its check finds out (`required_signatures_too_few`).
-/

namespace Playchain.Authorities

variable {κ δ ω : Type} [LinearOrder κ] [LinearOrder δ]

/-! ### Two runs -/

/-- The key was looked up and found. -/
def Marked (s : SignState κ δ) (k : κ) : Prop := s.providedSignatures.find? k = some true

/-- The keys that are there, in a state. -/
def SignRules.HasKeys (r : SignRules κ δ) (keys : Set κ) (s : SignState κ δ) : Prop :=
  ∀ k, k ∈ s.providedSignatures.keys ∨ k ∈ r.availableKeys.keys ↔ k ∈ keys

/-- Two states with keys of their own in which the same was found out. -/
structure Agree (r₁ r₂ : SignRules κ δ) (keys₁ keys₂ : Set κ) (s₁ s₂ : SignState κ δ) : Prop where
  left : r₁.HasKeys keys₁ s₁
  right : r₂.HasKeys keys₂ s₂
  approved : s₁.approvedBy = s₂.approvedBy
  marked : ∀ k, Marked s₁ k ↔ Marked s₂ k

/-- **A run follows another one**, if the keys that are marked at the end of the first one are there. The first one
keeps its marks. -/
structure Follows {α : Type} (R : SignState κ δ → SignState κ δ → Prop) (keys : Set κ)
    (x₁ x₂ : SignState κ δ → Except AuthorityError (α × SignState κ δ)) : Prop where
  keeps : ∀ {s a s'}, x₁ s = .ok (a, s') → ∀ k, Marked s k → Marked s' k
  run : ∀ {s₁ s₂ a s₁'}, R s₁ s₂ → x₁ s₁ = .ok (a, s₁') → (∀ k, Marked s₁' k → k ∈ keys) →
    ∃ s₂', x₂ s₂ = .ok (a, s₂') ∧ R s₁' s₂'

section Follows

variable {α β : Type} {R : SignState κ δ → SignState κ δ → Prop} {keys : Set κ}

/-- A check that reads nothing is followed. -/
theorem Follows.pure (a : α) : Follows R keys (fun s ↦ .ok (a, s)) (fun s ↦ .ok (a, s)) where
  keeps hrun := by
    obtain ⟨-, rfl⟩ := Prod.mk.inj (Except.ok.inj hrun)
    exact fun _ hk ↦ hk
  run {_ s₂ _ _} hs hrun _ := by
    obtain ⟨rfl, rfl⟩ := Prod.mk.inj (Except.ok.inj hrun)
    exact ⟨s₂, rfl, hs⟩

/-- One check after another. -/
theorem Follows.bind {x y : SignState κ δ → Except AuthorityError (α × SignState κ δ)}
    {f g : α → SignState κ δ → Except AuthorityError (β × SignState κ δ)} (hx : Follows R keys x y)
    (hf : ∀ a, Follows R keys (f a) (g a)) :
    Follows R keys (fun s ↦ x s >>= fun p ↦ f p.1 p.2) (fun s ↦ y s >>= fun p ↦ g p.1 p.2) where
  keeps hrun k hk := by
    obtain ⟨⟨a, s⟩, hx₁, hf₁⟩ := Except.bind_eq_ok.1 hrun
    exact (hf a).keeps hf₁ k (hx.keeps hx₁ k hk)
  run hs hrun hmarks := by
    obtain ⟨⟨a, s⟩, hx₁, hf₁⟩ := Except.bind_eq_ok.1 hrun
    -- what is marked halfway is marked at the end
    obtain ⟨s', hx₂, hs'⟩ := hx.run hs hx₁ fun k hk ↦ hmarks k ((hf a).keeps hf₁ k hk)
    obtain ⟨s'', hf₂, hs''⟩ := (hf a).run hs' hf₁ hmarks
    exact ⟨s'', Except.bind_eq_ok.2 ⟨_, hx₂, hf₂⟩, hs''⟩

/-- A choice that does not read the state. -/
theorem Follows.ite {p : Prop} [Decidable p] {x y x' y' : SignState κ δ → Except AuthorityError (α × SignState κ δ)}
    (hx : Follows R keys x y) (hx' : Follows R keys x' y') :
    Follows R keys (fun s ↦ if p then x s else x' s) (fun s ↦ if p then y s else y' s) := by
  by_cases hp : p
  · simpa only [if_pos hp] using hx
  · simpa only [if_neg hp] using hx'

/-- A case split on what both states agree on. -/
theorem Follows.cases {γ : Type} {v w : SignState κ δ → γ}
    {f g : γ → SignState κ δ → Except AuthorityError (α × SignState κ δ)}
    (hview : ∀ s₁ s₂, R s₁ s₂ → v s₁ = w s₂) (hf : ∀ c, Follows R keys (f c) (g c)) :
    Follows R keys (fun s ↦ f (v s) s) (fun s ↦ g (w s) s) where
  keeps {s _ _} hrun := (hf (v s)).keeps hrun
  run {s₁ s₂ _ _} hs hrun hmarks := by
    rw [← hview s₁ s₂ hs]
    exact (hf (v s₁)).run hs hrun hmarks

end Follows

/-! ### The checks follow each other -/

section Checks

variable {r r₁ r₂ : SignRules κ δ} {keys keys₁ keys₂ : Set κ} {s s₁ s₂ : SignState κ δ} {k : κ}

/-- A key is marked besides those that were. -/
theorem marked_mark {j : κ} : Marked (s.mark k) j ↔ j = k ∨ Marked s j := by
  rw [Marked, SignState.mark, FlatMap.find?_insert]
  split_ifs with hj
  · exact ⟨fun _ ↦ .inl hj, fun _ ↦ rfl⟩
  · exact ⟨.inr, fun h ↦ h.resolve_left hj⟩

/-- To mark one of the keys keeps the keys. -/
theorem SignRules.HasKeys.mark (h : r.HasKeys keys s) (hk : k ∈ keys) : r.HasKeys keys (s.mark k) := by
  intro j
  rw [SignState.mark, FlatMap.keys_insert, Finset.mem_insert, or_assoc, h j]
  exact or_iff_right_of_imp fun hj ↦ hj ▸ hk

theorem SignRules.HasKeys.mem_of_marked (h : r.HasKeys keys s) (hk : Marked s k) : k ∈ keys :=
  (h k).1 (.inl (FlatMap.mem_keys.2 ⟨true, hk⟩))

/-- A key that is there has signed, and is marked. -/
theorem signedBy_of_mem (h : r.HasKeys keys s) (hk : k ∈ keys) : signedBy r k s = .ok (true, s.mark k) := by
  unfold signedBy
  rcases hfind : s.providedSignatures.find? k with - | used
  · have havailable := ((h k).2 hk).resolve_left (FlatMap.not_mem_keys.2 hfind)
    exact if_pos (FlatMap.contains_iff.2 havailable)
  · rfl

/-- A key that is not there has not. -/
theorem signedBy_of_not_mem (h : r.HasKeys keys s) (hk : k ∉ keys) : signedBy r k s = .ok (false, s) := by
  have hnot := not_or.1 fun hmem ↦ hk ((h k).1 hmem)
  unfold signedBy
  rw [FlatMap.not_mem_keys.1 hnot.1]
  exact if_neg fun havailable ↦ hnot.2 (FlatMap.contains_iff.1 havailable)

/-- Marks stay. -/
theorem signedBy_keeps {verdict : Bool} {s' : SignState κ δ} (h : signedBy r k s = .ok (verdict, s')) {j : κ}
    (hj : Marked s j) : Marked s' j := by
  have hkeys : r.HasKeys {k | k ∈ s.providedSignatures.keys ∨ k ∈ r.availableKeys.keys} s := fun _ ↦ Iff.rfl
  by_cases hk : k ∈ {k | k ∈ s.providedSignatures.keys ∨ k ∈ r.availableKeys.keys}
  · rw [signedBy_of_mem hkeys hk] at h
    obtain ⟨-, rfl⟩ := Prod.mk.inj (Except.ok.inj h)
    exact marked_mark.2 (.inr hj)
  · rw [signedBy_of_not_mem hkeys hk] at h
    obtain ⟨-, rfl⟩ := Prod.mk.inj (Except.ok.inj h)
    exact hj

/-- With fewer keys, the lookup of a key that is there goes the same way. -/
theorem signedBy_follows (hsub : keys₂ ⊆ keys₁) (k : κ) :
    Follows (Agree r₁ r₂ keys₁ keys₂) keys₂ (signedBy r₁ k) (signedBy r₂ k) where
  keeps hrun _ hj := signedBy_keeps hrun hj
  run {s₁ s₂ verdict s₁'} hs hrun hmarks := by
    by_cases hk : k ∈ keys₁
    · rw [signedBy_of_mem hs.left hk] at hrun
      obtain ⟨rfl, rfl⟩ := Prod.mk.inj (Except.ok.inj hrun)
      have hk₂ := hmarks k (marked_mark.2 (.inl rfl))
      refine ⟨_, signedBy_of_mem hs.right hk₂, hs.left.mark hk, hs.right.mark hk₂, hs.approved, fun j ↦ ?_⟩
      rw [marked_mark, marked_mark, hs.marked]
    · rw [signedBy_of_not_mem hs.left hk] at hrun
      obtain ⟨rfl, rfl⟩ := Prod.mk.inj (Except.ok.inj hrun)
      exact ⟨s₂, signedBy_of_not_mem hs.right fun hk₂ ↦ hk (hsub hk₂), hs⟩

/-- An account is approved in both. -/
theorem approve_follows (a : AccountId) (verdict : Bool) :
    Follows (Agree r₁ r₂ keys₁ keys₂) keys₂ (fun s ↦ .ok (verdict, s.approve a)) (fun s ↦ .ok (verdict, s.approve a))
    where
  keeps hrun := by
    obtain ⟨-, rfl⟩ := Prod.mk.inj (Except.ok.inj hrun)
    exact fun _ hk ↦ hk
  run {s₁ s₂ _ _} hs hrun _ := by
    obtain ⟨rfl, rfl⟩ := Prod.mk.inj (Except.ok.inj hrun)
    refine ⟨_, rfl, hs.left, hs.right, ?_, hs.marked⟩
    rw [SignState.approve, SignState.approve, hs.approved]

/-- The sum of the weights, when each member is followed. -/
theorem addWeights_follows {μ : Type} {R : SignState κ δ → SignState κ δ → Prop} {check₁ check₂ : μ → Check κ δ}
    {threshold : UInt32} {l : List (μ × UInt16)} (h : ∀ m, Follows R keys (check₁ m) (check₂ m)) (total : UInt32) :
    Follows R keys (addWeights threshold check₁ l total) (addWeights threshold check₂ l total) := by
  induction l generalizing total with
  | nil => exact .pure (false, total)
  | cons p l ih =>
    obtain ⟨m, w⟩ := p
    refine Follows.bind
      (f := fun counts s ↦ if counts = true then
        (if threshold ≤ total + w.toUInt32 then .ok ((true, total + w.toUInt32), s)
          else addWeights threshold check₁ l (total + w.toUInt32) s)
        else addWeights threshold check₁ l total s)
      (g := fun counts s ↦ if counts = true then
        (if threshold ≤ total + w.toUInt32 then .ok ((true, total + w.toUInt32), s)
          else addWeights threshold check₂ l (total + w.toUInt32) s)
        else addWeights threshold check₂ l total s) (h m) fun counts ↦ ?_
    exact .ite (.ite (.pure _) (ih _)) (ih _)

variable [KeyAddresses κ δ]

/-- The end of `check_authority`, after the accounts. -/
def afterAccounts (au : Authority κ δ) (q : Bool × UInt32) : Check κ δ := fun s ↦
  if q.1 = true then .ok (true, s) else .ok (decide (au.weightThreshold ≤ q.2), s)

/-- The rest of `check_authority` after the keys, if there are no addresses. -/
def afterKeys (au : Authority κ δ) (account : AccountId → Check κ δ) (q : Bool × UInt32) : Check κ δ := fun s ↦
  if q.1 = true then .ok (true, s)
  else addWeights au.weightThreshold account au.accountAuths.toList q.2 s >>= fun p ↦ afterAccounts au p.1 p.2

/-- Without addresses, keys are counted first and then accounts. -/
theorem checkMembers_eq {au : Authority κ δ} (hau : au.addressAuths = ∅) (r : SignRules κ δ)
    (account : AccountId → Check κ δ) :
    checkMembers r account (some au) = fun s ↦
      addWeights au.weightThreshold (signedBy r) au.keyAuths.toList 0 s >>= fun p ↦
        afterKeys au account p.1 p.2 := by
  obtain ⟨threshold, accounts, keys, addresses, hlt⟩ := au
  obtain rfl : addresses = ∅ := hau
  rfl

/-- The end of the check of an account, after its owner authority. -/
def afterOwner (a : AccountId) (approves : Bool) : Check κ δ := fun s ↦
  if approves = true then .ok (true, s.approve a) else .ok (false, s)

/-- The rest of the check of an account after its active authority. -/
def afterActive (r : SignRules κ δ) (levels : ℕ) (a : AccountId) (approves : Bool) : Check κ δ := fun s ↦
  if approves = true then .ok (true, s.approve a)
  else if r.allowNonImmediateOwner = true then
    checkMembers r (checkAccount r levels) (r.getOwner a) s >>= fun p ↦ afterOwner a p.1 p.2
  else .ok (false, s)

/-- One level of an account. -/
theorem checkAccount_eq (r : SignRules κ δ) (levels : ℕ) (a : AccountId) :
    checkAccount r (levels + 1) a = fun s ↦
      if s.approvedBy.contains a = true then .ok (true, s)
      else checkMembers r (checkAccount r levels) (r.getActive a) s >>= fun p ↦
        afterActive r levels a p.1 p.2 := by
  rfl

/-- An authority, when its accounts are followed. -/
theorem checkMembers_follows (hsub : keys₂ ⊆ keys₁) {account₁ account₂ : AccountId → Check κ δ}
    (haccount : ∀ a, Follows (Agree r₁ r₂ keys₁ keys₂) keys₂ (account₁ a) (account₂ a))
    (auth : Option (Authority κ δ)) (hauth : ∀ au, auth = some au → au.addressAuths = ∅) :
    Follows (Agree r₁ r₂ keys₁ keys₂) keys₂ (checkMembers r₁ account₁ auth) (checkMembers r₂ account₂ auth) := by
  rcases auth with - | au
  · exact .pure false
  rw [checkMembers_eq (hauth au rfl), checkMembers_eq (hauth au rfl)]
  refine .bind (addWeights_follows (signedBy_follows hsub) 0) fun q ↦ ?_
  refine .ite (.pure true) (.bind (addWeights_follows haccount q.2) fun q' ↦ ?_)
  exact .ite (.pure true) (.pure _)

/-- The same authorities and the same limits. -/
structure SignRules.SameAs (r₁ r₂ : SignRules κ δ) : Prop where
  active : r₁.getActive = r₂.getActive
  owner : r₁.getOwner = r₂.getOwner
  allow : r₁.allowNonImmediateOwner = r₂.allowNonImmediateOwner
  depth : r₁.maxRecursion = r₂.maxRecursion

/-- **An account is followed**, at every depth. -/
theorem checkAccount_follows (hsub : keys₂ ⊆ keys₁) (hr : r₁.NoAddresses) (hsame : r₁.SameAs r₂) (levels : ℕ)
    (a : AccountId) :
    Follows (Agree r₁ r₂ keys₁ keys₂) keys₂ (checkAccount r₁ levels a) (checkAccount r₂ levels a) := by
  induction levels generalizing a with
  | zero =>
    exact .cases (v := fun s ↦ s.approvedBy.contains a) (w := fun s ↦ s.approvedBy.contains a)
      (f := fun b s ↦ .ok (b, s)) (g := fun b s ↦ .ok (b, s)) (fun _ _ hs ↦ by rw [hs.approved]) .pure
  | succ levels ih =>
    rw [checkAccount_eq, checkAccount_eq]
    refine .cases (v := fun s ↦ s.approvedBy.contains a) (w := fun s ↦ s.approvedBy.contains a)
      (f := fun b s ↦ if b = true then .ok (true, s) else
        checkMembers r₁ (checkAccount r₁ levels) (r₁.getActive a) s >>= fun p ↦ afterActive r₁ levels a p.1 p.2)
      (g := fun b s ↦ if b = true then .ok (true, s) else
        checkMembers r₂ (checkAccount r₂ levels) (r₂.getActive a) s >>= fun p ↦ afterActive r₂ levels a p.1 p.2)
      (fun _ _ hs ↦ by rw [hs.approved]) fun b ↦ .ite (.pure true) (.bind ?_ fun approves ↦ ?_)
    · rw [← hsame.active]
      exact checkMembers_follows hsub ih _ fun au hau ↦ hr a au (.inl hau)
    · unfold afterActive
      rw [← hsame.allow, ← hsame.owner]
      refine .ite (approve_follows a true) (.ite (.bind ?_ fun approves ↦ ?_) (.pure false))
      · exact checkMembers_follows hsub ih _ fun au hau ↦ hr a au (.inr hau)
      · exact .ite (approve_follows a true) (.pure false)

/-- **An authority is followed.** -/
theorem checkAuthority_follows (hsub : keys₂ ⊆ keys₁) (hr : r₁.NoAddresses) (hsame : r₁.SameAs r₂)
    (auth : Option (Authority κ δ)) (hauth : ∀ au, auth = some au → au.addressAuths = ∅) :
    Follows (Agree r₁ r₂ keys₁ keys₂) keys₂ (checkAuthority r₁ auth) (checkAuthority r₂ auth) := by
  unfold checkAuthority
  rw [← hsame.depth]
  exact checkMembers_follows hsub (checkAccount_follows hsub hr hsame _) auth hauth

omit [KeyAddresses κ δ] in
/-- The second check after the first has failed. -/
theorem orElse_follows {R : SignState κ δ → SignState κ δ → Prop} {x₁ x₂ y₁ y₂ : Check κ δ}
    (hx : Follows R keys x₁ x₂) (hy : Follows R keys y₁ y₂) : Follows R keys (x₁.orElse y₁) (x₂.orElse y₂) :=
  .bind (f := fun b s ↦ if b = true then .ok (true, s) else y₁ s) (g := fun b s ↦ if b = true then .ok (true, s) else y₂ s)
    hx fun _ ↦ .ite (.pure true) hy

theorem checkOwner_follows (hsub : keys₂ ⊆ keys₁) (hr : r₁.NoAddresses) (hsame : r₁.SameAs r₂)
    (ownerApprovals : FlatSet AccountId) (id : AccountId) :
    Follows (Agree r₁ r₂ keys₁ keys₂) keys₂ (checkOwner r₁ ownerApprovals id) (checkOwner r₂ ownerApprovals id) := by
  unfold checkOwner
  rw [← hsame.owner]
  exact .ite (.pure true) (checkAuthority_follows hsub hr hsame _ fun au hau ↦ hr id au (.inr hau))

theorem checkActive_follows (hsub : keys₂ ⊆ keys₁) (hr : r₁.NoAddresses) (hsame : r₁.SameAs r₂) (id : AccountId) :
    Follows (Agree r₁ r₂ keys₁ keys₂) keys₂ (checkActive r₁ id) (checkActive r₂ id) := by
  have hactive := checkAuthority_follows hsub hr hsame (r₁.getActive id) fun au hau ↦ hr id au (.inl hau)
  have howner := checkAuthority_follows hsub hr hsame (r₁.getOwner id) fun au hau ↦ hr id au (.inr hau)
  unfold checkActive
  rw [← hsame.owner]
  refine orElse_follows ?_ howner
  unfold checkAuthorityOf
  rw [← hsame.active, ← hsame.owner, ← hsame.allow]
  exact .cases (v := fun s ↦ s.approvedBy.contains id) (w := fun s ↦ s.approvedBy.contains id)
    (f := fun b s ↦ if b = true then .ok (true, s) else if r₁.allowNonImmediateOwner = true then
      (checkAuthority r₁ (r₁.getActive id)).orElse (checkAuthority r₁ (r₁.getOwner id)) s
      else checkAuthority r₁ (r₁.getActive id) s)
    (g := fun b s ↦ if b = true then .ok (true, s) else if r₁.allowNonImmediateOwner = true then
      (checkAuthority r₂ (r₁.getActive id)).orElse (checkAuthority r₂ (r₁.getOwner id)) s
      else checkAuthority r₂ (r₁.getActive id) s)
    (fun _ _ hs ↦ by rw [hs.approved]) fun _ ↦ .ite (.pure true) (.ite (orElse_follows hactive howner) hactive)

end Checks

/-! ### Checks that all succeed -/

/-- The checks of a list succeed one after another. -/
inductive Passes {μ : Type} (check : μ → Check κ δ) : List μ → SignState κ δ → SignState κ δ → Prop
  | nil {s : SignState κ δ} : Passes check [] s s
  | cons {m : μ} {l : List μ} {s t s' : SignState κ δ} (h : check m s = .ok (true, t)) (hrest : Passes check l t s') :
      Passes check (m :: l) s s'

section Passes

variable {μ : Type} {check check₁ check₂ : μ → Check κ δ} {l : List μ} {s s' s₁ s₂ s₁' : SignState κ δ}
  {R : SignState κ δ → SignState κ δ → Prop} {keys : Set κ}

/-- A requirement of all is met when each check passes, one after the other. -/
theorem requireAll_eq_ok_iff {error : μ → AuthorityError} :
    requireAll check error l s = .ok s' ↔ Passes check l s s' := by
  induction l generalizing s with
  | nil =>
    constructor
    · intro h
      obtain rfl := Except.pure_eq_ok.1 h
      exact .nil
    · rintro ⟨⟩
      rfl
  | cons m l ih =>
    unfold requireAll at ih ⊢
    rw [List.foldlM_cons, Except.bind_eq_ok]
    constructor
    · rintro ⟨t, ht, hrest⟩
      obtain ⟨⟨verdict, t'⟩, hcheck, hverdict⟩ := Except.bind_eq_ok.1 ht
      cases verdict with
      | true =>
        obtain rfl := Except.pure_eq_ok.1 hverdict
        exact .cons hcheck (ih.1 hrest)
      | false => cases hverdict
    · rintro (- | ⟨hcheck, hrest⟩)
      exact ⟨_, Except.bind_eq_ok.2 ⟨_, hcheck, rfl⟩, ih.2 hrest⟩

theorem Passes.checkAll (h : Passes check l s s') : checkAll check l s = .ok s' := by
  induction h with
  | nil => rfl
  | cons hcheck _ ih =>
    unfold Authorities.checkAll at ih ⊢
    rw [List.foldlM_cons, Except.bind_eq_ok]
    exact ⟨_, Except.bind_eq_ok.2 ⟨_, hcheck, rfl⟩, ih⟩

/-- Marks stay through all checks. -/
theorem Passes.keeps (h : Passes check₁ l s₁ s₁') (hfollows : ∀ m ∈ l, Follows R keys (check₁ m) (check₂ m)) {k : κ}
    (hk : Marked s₁ k) : Marked s₁' k := by
  induction h with
  | nil => exact hk
  | cons hcheck _ ih =>
    exact ih (fun m hm ↦ hfollows m (List.mem_cons_of_mem _ hm))
      ((hfollows _ List.mem_cons_self).keeps hcheck k hk)

/-- An invariant of the checks stays. -/
theorem Passes.invariant {I : SignState κ δ → Prop} {good sure : μ → Prop} (h : Passes check l s s')
    (hcheck : ∀ m ∈ l, Decides I (fun _ ↦ True) (check m) (good m) (sure m)) (hs : I s) : I s' := by
  induction h with
  | nil => exact hs
  | cons hrun _ ih =>
    exact ih (fun m hm ↦ hcheck m (List.mem_cons_of_mem _ hm)) ((hcheck _ List.mem_cons_self _ hs).of_ok hrun).1

/-- A run of checks follows another one. -/
theorem Passes.follow (h : Passes check₁ l s₁ s₁') (hfollows : ∀ m ∈ l, Follows R keys (check₁ m) (check₂ m))
    (hs : R s₁ s₂) (hmarks : ∀ k, Marked s₁' k → k ∈ keys) : ∃ s₂', Passes check₂ l s₂ s₂' ∧ R s₁' s₂' := by
  induction h generalizing s₂ with
  | nil => exact ⟨s₂, .nil, hs⟩
  | cons hcheck hrest ih =>
    have htail : ∀ m ∈ _, Follows R keys (check₁ m) (check₂ m) := fun m hm ↦ hfollows m (List.mem_cons_of_mem _ hm)
    obtain ⟨t, hcheck₂, ht⟩ := (hfollows _ List.mem_cons_self).run hs hcheck fun k hk ↦ hmarks k (hrest.keeps htail hk)
    obtain ⟨s', hrest₂, hs'⟩ := ih htail ht hmarks
    exact ⟨s', .cons hcheck₂ hrest₂, hs'⟩

end Passes

/-! ### Transactions -/

section Transactions

variable [KeyAddresses κ δ] [OperationAuthorities ω κ δ]

/-- All that operations require is granted, one check after another, if no account has approved beforehand. -/
def RequiredRun (r : SignRules κ δ) (required : RequiredAuthorities κ δ) (s s' : SignState κ δ) : Prop :=
  ∃ s₁ s₂, Passes (fun auth ↦ checkAuthority r (some auth)) required.other s s₁ ∧
    Passes (checkOwner r ∅) required.owner.elements s₁ s₂ ∧ Passes (checkActive r) required.active.elements s₂ s'

/-- The elements of two sets. -/
def unionOf (a b : FlatSet κ) : FlatSet κ := b.elements.foldl FlatSet.add a

variable {r r₁ r₂ : SignRules κ δ} {ops : List ω} {keys₁ keys₂ : Set κ} {s s' s₁ s₁' s₂ : SignState κ δ}
  {sigs present : FlatSet κ} {required : RequiredAuthorities κ δ}

omit [LinearOrder δ] [KeyAddresses κ δ] in
theorem mem_keys_unionOf {a b : FlatSet κ} {k : κ} : k ∈ (unionOf a b).keys ↔ k ∈ a.keys ∨ k ∈ b.keys := by
  rw [unionOf, FlatSet.mem_keys_foldl_add, FlatSet.mem_elements]

/-- `verify_authority` without approvals finds nothing missing: the checks succeed, and no committee account has to
act. -/
theorem verifyMissing_eq_ok_iff {allowCommittee : Bool} :
    verifyMissing r ops sigs allowCommittee ∅ ∅ = .ok s' ↔
      ¬(!allowCommittee && (requiredAuthorities ops : RequiredAuthorities κ δ).ofCommittee) = true ∧
        RequiredRun r.signedOnly (requiredAuthorities ops) (SignState.ofKeys sigs) s' := by
  unfold verifyMissing
  dsimp only
  by_cases hcommittee : (!allowCommittee && (requiredAuthorities ops : RequiredAuthorities κ δ).ofCommittee) = true
  · rw [if_pos hcommittee]
    exact ⟨fun h ↦ (by cases h), fun h ↦ absurd hcommittee h.1⟩
  · rw [if_neg hcommittee, Except.bind_eq_ok]
    constructor
    · rintro ⟨s₁, h₁, h⟩
      obtain ⟨s₂, h₂, h₃⟩ := Except.bind_eq_ok.1 h
      exact ⟨hcommittee, s₁, s₂, requireAll_eq_ok_iff.1 h₁, requireAll_eq_ok_iff.1 h₂, requireAll_eq_ok_iff.1 h₃⟩
    · rintro ⟨-, s₁, s₂, h₁, h₂, h₃⟩
      exact ⟨s₁, requireAll_eq_ok_iff.2 h₁, Except.bind_eq_ok.2 ⟨s₂, requireAll_eq_ok_iff.2 h₂,
        requireAll_eq_ok_iff.2 h₃⟩⟩

/-- A run of all checks follows another one. -/
theorem RequiredRun.follow (h : RequiredRun r₁ required s₁ s₁') (hsub : keys₂ ⊆ keys₁) (hr : r₁.NoAddresses)
    (hother : ∀ au ∈ required.other, au.addressAuths = ∅) (hsame : r₁.SameAs r₂)
    (hs : Agree r₁ r₂ keys₁ keys₂ s₁ s₂) (hmarks : ∀ k, Marked s₁' k → k ∈ keys₂) :
    ∃ s₂', RequiredRun r₂ required s₂ s₂' ∧ Agree r₁ r₂ keys₁ keys₂ s₁' s₂' := by
  obtain ⟨t₁, t₂, h₁, h₂, h₃⟩ := h
  have hfollows₁ : ∀ au ∈ required.other, Follows (Agree r₁ r₂ keys₁ keys₂) keys₂ (checkAuthority r₁ (some au))
      (checkAuthority r₂ (some au)) := fun au hau ↦
    checkAuthority_follows hsub hr hsame (some au) fun au' hau' ↦ Option.some.inj hau' ▸ hother au hau
  have hfollows₂ : ∀ id ∈ required.owner.elements, Follows (Agree r₁ r₂ keys₁ keys₂) keys₂ (checkOwner r₁ ∅ id)
      (checkOwner r₂ ∅ id) := fun id _ ↦ checkOwner_follows hsub hr hsame ∅ id
  have hfollows₃ : ∀ id ∈ required.active.elements, Follows (Agree r₁ r₂ keys₁ keys₂) keys₂ (checkActive r₁ id)
      (checkActive r₂ id) := fun id _ ↦ checkActive_follows hsub hr hsame id
  obtain ⟨u₁, hu₁, hagree₁⟩ := h₁.follow hfollows₁ hs fun k hk ↦
    hmarks k (h₃.keeps hfollows₃ (h₂.keeps hfollows₂ hk))
  obtain ⟨u₂, hu₂, hagree₂⟩ := h₂.follow hfollows₂ hagree₁ fun k hk ↦ hmarks k (h₃.keeps hfollows₃ hk)
  obtain ⟨u₃, hu₃, hagree₃⟩ := h₃.follow hfollows₃ hagree₂ hmarks
  exact ⟨u₃, ⟨u₁, u₂, hu₁, hu₂, hu₃⟩, hagree₃⟩

omit [KeyAddresses κ δ] in
/-- At the start no key is marked. -/
theorem not_marked_ofKeys (sigs : FlatSet κ) (k : κ) : ¬Marked (SignState.ofKeys sigs : SignState κ δ) k := by
  have hfold : ∀ (l : List κ) (m : FlatMap κ Bool), m.find? k ≠ some true →
      (l.foldl (fun m k ↦ m.insert k false) m).find? k ≠ some true := by
    intro l
    induction l with
    | nil => exact fun m hm ↦ hm
    | cons j l ih =>
      refine fun m hm ↦ ih _ ?_
      rw [FlatMap.find?_insert]
      split_ifs
      · exact fun h ↦ Bool.false_ne_true (Option.some.inj h)
      · exact hm
  exact hfold sigs.elements ∅ fun h ↦ (by cases h)

omit [KeyAddresses κ δ] in
/-- The states that the two walks start from. -/
theorem agree_ofKeys (r₁ r₂ : SignRules κ δ) (sigs₁ sigs₂ : FlatSet κ) :
    Agree r₁ r₂ (r₁.keysWith sigs₁) (r₂.keysWith sigs₂) (SignState.ofKeys sigs₁) (SignState.ofKeys sigs₂) where
  left _ := or_congr_left (keys_ofKeys (δ := δ) sigs₁)
  right _ := or_congr_left (keys_ofKeys (δ := δ) sigs₂)
  approved := rfl
  marked k := iff_of_false (not_marked_ofKeys sigs₁ k) (not_marked_ofKeys sigs₂ k)

/-- The keys that are marked are there. -/
theorem RequiredRun.mem_of_marked (h : RequiredRun r required (SignState.ofKeys sigs) s') {k : κ}
    (hk : Marked s' k) : k ∈ r.keysWith sigs := by
  obtain ⟨s₁, s₂, h₁, h₂, h₃⟩ := h
  have hE : ∀ a au, r.Through a au → Unkeyed (r.keysWith sigs) au → True := fun _ _ _ _ ↦ trivial
  have hstart : Kept r (r.keysWith sigs) {a | a = tempAccount ∨ a ∈ []} (SignState.ofKeys sigs) :=
    kept_foldl_approve []
  have hkept₁ := h₁.invariant (fun au _ ↦ checkAuthority_decides hE (some au) fun _ _ _ ↦ trivial) hstart
  have hkept₂ := h₂.invariant (fun id _ ↦ checkOwner_decides hE (fun _ _ _ _ ↦ trivial) ∅ id) hkept₁
  have hkept₃ := h₃.invariant (fun id _ ↦ checkActive_decides hE (fun _ _ _ _ ↦ trivial) id) hkept₂
  exact (hkept₃.signatures k).1 (.inl (FlatMap.mem_keys.2 ⟨true, hk⟩))

/-- No account is left out of the active ones if none is required as owner too. -/
theorem foldl_erase_eq {owner active : FlatSet AccountId} (h : ∀ id ∈ owner.keys, id ∉ active.keys) :
    owner.elements.foldl FlatMap.erase active = active := by
  have hfold : ∀ l : List AccountId, (∀ id ∈ l, id ∉ active.keys) → l.foldl FlatMap.erase active = active := by
    intro l
    induction l with
    | nil => exact fun _ ↦ rfl
    | cons a l ih =>
      intro hl
      rw [List.foldl_cons, FlatMap.erase_of_find?_none (FlatMap.not_mem_keys.1 (hl a List.mem_cons_self))]
      exact ih fun id hid ↦ hl id (List.mem_cons_of_mem _ hid)
  exact hfold _ fun id hid ↦ h id (FlatSet.mem_elements.1 hid)

/-- What the walk of `get_required_signatures` has checked. -/
theorem requiredChecks_of_run
    (hdisjoint : ∀ id ∈ (requiredAuthorities ops : RequiredAuthorities κ δ).owner.keys,
      id ∉ (requiredAuthorities ops : RequiredAuthorities κ δ).active.keys)
    (h : RequiredRun r (requiredAuthorities ops) (SignState.ofKeys present) s') :
    requiredChecks r ops present = .ok s' := by
  obtain ⟨s₁, s₂, h₁, h₂, h₃⟩ := h
  unfold requiredChecks
  dsimp only
  rw [foldl_erase_eq hdisjoint, h₁.checkAll, Except.ok_bind]
  have howner : checkAll (fun id ↦ checkAuthority r (r.getOwner id))
      (requiredAuthorities ops : RequiredAuthorities κ δ).owner.elements s₁ = .ok s₂ := h₂.checkAll
  rw [howner, Except.ok_bind]
  exact h₃.checkAll

/-- The keys that `get_required_signatures` returns were found, and have not signed yet. -/
theorem getRequiredSignatures_of_run
    (hdisjoint : ∀ id ∈ (requiredAuthorities ops : RequiredAuthorities κ δ).owner.keys,
      id ∉ (requiredAuthorities ops : RequiredAuthorities κ δ).active.keys)
    (h : RequiredRun r (requiredAuthorities ops) (SignState.ofKeys present) s') :
    ∃ returned, getRequiredSignatures r ops present = .ok returned ∧ ∀ k, k ∈ returned.keys ↔
      Marked s' k ∧ k ∈ r.availableKeys.keys ∧ k ∉ present.keys := by
  unfold getRequiredSignatures
  rw [requiredChecks_of_run hdisjoint h, Except.ok_bind]
  refine ⟨_, rfl, fun k ↦ ?_⟩
  have hmarked : k ∈ (removeUnusedSignatures s').2.providedSignatures.toList.map Prod.fst ↔ Marked s' k := by
    rw [List.mem_map]
    constructor
    · rintro ⟨⟨j, used⟩, hp, rfl⟩
      obtain ⟨hp, hused⟩ := List.mem_filter.1 hp
      obtain rfl : used = true := hused
      exact FlatMap.find?_eq_some_iff.2 hp
    · exact fun hk ↦ ⟨(k, true), List.mem_filter.2 ⟨FlatMap.find?_eq_some_iff.1 hk, rfl⟩, rfl⟩
  rw [FlatSet.mem_keys_ofList, List.mem_filter, hmarked, Bool.and_eq_true, FlatMap.contains_iff, Bool.not_eq_true',
    FlatMap.contains_eq_false_iff, ← FlatMap.not_mem_keys]

/-- **The required signatures suffice**, if no account is required both as owner and as active account: with the
returned keys nothing is missing, and each of them is of use. -/
theorem required_signatures_suffice (hr : r.NoAddresses)
    (hother : ∀ au ∈ (requiredAuthorities ops : RequiredAuthorities κ δ).other, au.addressAuths = ∅)
    (hdisjoint : ∀ id ∈ (requiredAuthorities ops : RequiredAuthorities κ δ).owner.keys,
      id ∉ (requiredAuthorities ops : RequiredAuthorities κ δ).active.keys)
    (hpass : ∃ s, verifyMissing r ops (unionOf present r.availableKeys) false ∅ ∅ = .ok s) :
    ∃ returned, getRequiredSignatures r ops present = .ok returned ∧
      ∃ s, verifyMissing r ops (unionOf present returned) false ∅ ∅ = .ok s ∧ ∀ k ∈ returned.keys, Marked s k := by
  obtain ⟨f, hf⟩ := hpass
  obtain ⟨hcommittee, hrun⟩ := verifyMissing_eq_ok_iff.1 hf
  have hsame : r.signedOnly.SameAs r := ⟨rfl, rfl, rfl, rfl⟩
  have hkeys : r.signedOnly.keysWith (unionOf present r.availableKeys) = r.keysWith present := by
    ext k
    show k ∈ (unionOf present r.availableKeys).keys ∨ k ∈ (∅ : FlatSet κ).keys ↔ _
    rw [mem_keys_unionOf, FlatMap.keys_empty]
    simp only [Finset.notMem_empty, or_false]
    rfl
  -- the checks of `get_required_signatures` follow those with all keys
  have hagree := agree_ofKeys r.signedOnly r (unionOf present r.availableKeys) present
  rw [hkeys] at hagree
  obtain ⟨g, hg, -⟩ := hrun.follow subset_rfl hr hother hsame hagree fun k hk ↦ hkeys ▸ hrun.mem_of_marked hk
  obtain ⟨returned, hreturned, hmem⟩ := getRequiredSignatures_of_run hdisjoint hg
  refine ⟨returned, hreturned, ?_⟩
  -- and those with the returned keys follow these
  have hkeys' : ∀ k, k ∈ r.signedOnly.keysWith (unionOf present returned) ↔ k ∈ present.keys ∨ k ∈ returned.keys := by
    intro k
    show k ∈ (unionOf present returned).keys ∨ k ∈ (∅ : FlatSet κ).keys ↔ _
    rw [mem_keys_unionOf, FlatMap.keys_empty]
    simp only [Finset.notMem_empty, or_false]
  have hsame' : r.SameAs r.signedOnly := ⟨rfl, rfl, rfl, rfl⟩
  have hsub : r.signedOnly.keysWith (unionOf present returned) ⊆ r.keysWith present := fun k hk ↦
    ((hkeys' k).1 hk).imp_right fun hk ↦ ((hmem k).1 hk).2.1
  have hmarks : ∀ k, Marked g k → k ∈ r.signedOnly.keysWith (unionOf present returned) := by
    intro k hk
    by_cases hpresent : k ∈ present.keys
    · exact (hkeys' k).2 (.inl hpresent)
    · have havailable := (hg.mem_of_marked hk).resolve_left hpresent
      exact (hkeys' k).2 (.inr ((hmem k).2 ⟨hk, havailable, hpresent⟩))
  obtain ⟨s, hs, hgs⟩ := hg.follow hsub hr hother hsame'
    (agree_ofKeys r r.signedOnly present (unionOf present returned)) hmarks
  exact ⟨s, verifyMissing_eq_ok_iff.2 ⟨hcommittee, hs⟩, fun k hk ↦ (hgs.marked k).1 ((hmem k).1 hk).1⟩

end Transactions

/-! ### An account that is required twice -/

namespace Sample

/-- Account 30 has the owner key 5, and as active authority account 31, which has the key 6. Account 32 needs account
33, which needs account 34, which needs account 31. -/
def twice : SignRules ℕ ℕ where
  getActive a :=
    if a = 30 then some (anyOf [] [31]) else if a = 31 then some (anyOf [6] [])
    else if a = 32 then some (anyOf [] [33]) else if a = 33 then some (anyOf [] [34])
    else if a = 34 then some (anyOf [] [31]) else none
  getOwner a := if a = 30 then some (anyOf [5] []) else some (anyOf [8] [])
  allowNonImmediateOwner := true
  maxRecursion := maxSigCheckDepth
  availableKeys := setOf [5, 6]

theorem twice_noAddresses : twice.NoAddresses := by
  rintro a au (hau | hau)
  all_goals
    unfold twice at hau
    dsimp only at hau
    split_ifs at hau
  all_goals
    obtain rfl := Option.some.inj hau
    rfl

/-- The owner authority of account 30 is required, and the active authorities of accounts 30 and 32. -/
def ownerAndActive : List (RequiredAuthorities ℕ ℕ) := [{ owner := setOf [30], active := setOf [30, 32] }]

end Sample

open Sample

/-- **The required signatures can be too few.** Of the keys 5 and 6, which are enough, only the key 5 is returned: the
active authority of account 30 is left out, so account 31 is not found out for account 32. -/
theorem required_signatures_too_few :
    ¬∀ (r : SignRules ℕ ℕ) (ops : List (RequiredAuthorities ℕ ℕ)) (present : FlatSet ℕ), r.NoAddresses →
      (∀ au ∈ (requiredAuthorities ops : RequiredAuthorities ℕ ℕ).other, au.addressAuths = ∅) →
      (∃ s, verifyMissing r ops (unionOf present r.availableKeys) false ∅ ∅ = .ok s) →
        ∃ returned, getRequiredSignatures r ops present = .ok returned ∧
          ∃ s, verifyMissing r ops (unionOf present returned) false ∅ ∅ = .ok s ∧
            ∀ k ∈ returned.keys, Marked s k := by
  intro h
  have hpass : (verifyMissing twice ownerAndActive (unionOf ∅ twice.availableKeys) false ∅ ∅).isOk = true := by
    decide
  obtain ⟨returned, hreturned, s, hs, -⟩ := h twice ownerAndActive ∅ twice_noAddresses (fun _ hau ↦ by cases hau) (by
    rcases hs : verifyMissing twice ownerAndActive (unionOf ∅ twice.availableKeys) false ∅ ∅ with e | s
    · rw [hs] at hpass
      cases hpass
    · exact ⟨s, rfl⟩)
  have hreturned' : getRequiredSignatures twice ownerAndActive ∅ = .ok (setOf [5]) := by decide
  obtain rfl := Except.ok.inj (hreturned.symm.trans hreturned')
  have hfail : (verifyMissing twice ownerAndActive (unionOf ∅ (setOf [5])) false ∅ ∅).isOk = false := by decide
  rw [hs] at hfail
  cases hfail

/-- For account 30 alone the key 6 is returned, and is enough. -/
theorem required_signatures_suffice_twice :
    ∃ returned, getRequiredSignatures twice [({ active := setOf [30] } : RequiredAuthorities ℕ ℕ)] ∅ = .ok returned ∧
      ∃ s, verifyMissing twice [({ active := setOf [30] } : RequiredAuthorities ℕ ℕ)] (unionOf ∅ returned) false ∅ ∅ =
        .ok s ∧ ∀ k ∈ returned.keys, Marked s k := by
  have hpass : (verifyMissing twice [({ active := setOf [30] } : RequiredAuthorities ℕ ℕ)]
      (unionOf ∅ twice.availableKeys) false ∅ ∅).isOk = true := by decide
  refine required_signatures_suffice twice_noAddresses (fun _ hau ↦ by cases hau)
    (fun _ hid ↦ absurd hid (Finset.notMem_empty _)) ?_
  rcases hs : verifyMissing twice [({ active := setOf [30] } : RequiredAuthorities ℕ ℕ)]
    (unionOf ∅ twice.availableKeys) false ∅ ∅ with e | s
  · rw [hs] at hpass
    cases hpass
  · exact ⟨s, rfl⟩

end Playchain.Authorities
