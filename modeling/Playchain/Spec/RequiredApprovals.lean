import Playchain.Graphene.RequiredApprovalIndex
import Playchain.Spec.Sessions

/-!
# The proposals of an account, and the proposals

The index of approvals mirrors the proposals (`RequiredApprovals.Mirrors`) as long as no modification takes
an approval away from an account that stays in another of the four sets of the proposal
(`ProposalObject.Followed`): the index takes the account out although it should stay. Undoing a session
restores old values by modifications, which have to meet the same condition.

The invariant of a run is `Mirrors` together with the chain of records below it: what a record holds of a
proposal asks for the same approvals as the proposal does.
-/

namespace Playchain

/-! ### The index -/

namespace AccountToProposals

variable {m : AccountToProposals} {a b : AccountId} {i p : ProposalId}

/-- Whether a proposal is among those of an account. -/
def Has (m : AccountToProposals) (a : AccountId) (i : ProposalId) : Prop :=
  ∃ ps, m.find? a = some ps ∧ i ∈ ps.keys

/-- No account has an empty set of proposals. -/
def NoEmpty (m : AccountToProposals) : Prop := ∀ a ps, m.find? a = some ps → ps.isEmpty = false

theorem has_enter : (m.enter p b).Has a i ↔ m.Has a i ∨ (a = b ∧ i = p) := by
  unfold Has enter
  rw [FlatMap.find?_insert]
  split_ifs with hb
  · subst hb
    constructor
    · rintro ⟨ps, hps, hi⟩
      obtain rfl := Option.some.inj hps
      rw [FlatSet.keys_add, Finset.mem_insert] at hi
      rcases hi with rfl | hi
      · exact .inr ⟨rfl, rfl⟩
      · left
        cases hm : m.find? a with
        | none =>
          rw [hm] at hi
          simp at hi
        | some ps =>
          rw [hm] at hi
          exact ⟨ps, rfl, hi⟩
    · intro h
      refine ⟨_, rfl, ?_⟩
      rw [FlatSet.keys_add, Finset.mem_insert]
      rcases h with ⟨ps, hps, hi⟩ | ⟨-, rfl⟩
      · right
        rw [hps]
        exact hi
      · exact .inl rfl
  · exact ⟨.inl, fun h ↦ h.resolve_right fun h ↦ hb h.1⟩

theorem has_remove : (m.remove p b).Has a i ↔ m.Has a i ∧ ¬(a = b ∧ i = p) := by
  unfold remove
  cases hm : m.find? b with
  | none =>
    dsimp only
    refine ⟨fun h ↦ ⟨h, ?_⟩, fun h ↦ h.1⟩
    rintro ⟨rfl, -⟩
    obtain ⟨ps, hps, -⟩ := h
    rw [hm] at hps
    cases hps
  | some ps =>
    dsimp only
    unfold Has
    split_ifs with hempty
    · rw [FlatMap.find?_erase]
      split_ifs with hb
      · subst hb
        refine ⟨fun ⟨_, h, _⟩ ↦ (by cases h), ?_⟩
        rintro ⟨⟨qs, hqs, hi⟩, hne⟩
        obtain rfl := Option.some.inj (hm.symm.trans hqs)
        -- the proposal that is taken out was the only one
        have hkey : i ∈ (ps.erase p).keys := by
          rw [FlatMap.keys_erase, Finset.mem_erase]
          exact ⟨fun h ↦ hne ⟨rfl, h⟩, hi⟩
        rw [FlatMap.isEmpty_iff.mp hempty] at hkey
        simp at hkey
      · tauto
    · rw [FlatMap.find?_insert]
      split_ifs with hb
      · subst hb
        constructor
        · rintro ⟨qs, hqs, hi⟩
          obtain rfl := Option.some.inj hqs
          rw [FlatMap.keys_erase, Finset.mem_erase] at hi
          exact ⟨⟨ps, hm, hi.2⟩, fun h ↦ hi.1 h.2⟩
        · rintro ⟨⟨qs, hqs, hi⟩, hne⟩
          obtain rfl := Option.some.inj (hm.symm.trans hqs)
          refine ⟨_, rfl, ?_⟩
          rw [FlatMap.keys_erase, Finset.mem_erase]
          exact ⟨fun h ↦ hne ⟨rfl, h⟩, hi⟩
      · tauto

theorem NoEmpty.enter (h : m.NoEmpty) (p : ProposalId) (b : AccountId) : (m.enter p b).NoEmpty := by
  intro a ps hps
  unfold AccountToProposals.enter at hps
  rw [FlatMap.find?_insert] at hps
  split_ifs at hps with hb
  · obtain rfl := Option.some.inj hps
    rw [Bool.eq_false_iff]
    intro hempty
    have hkey : p ∈ (((m.find? b).getD ∅).add p).keys := by
      rw [FlatSet.keys_add]
      exact Finset.mem_insert_self _ _
    rw [FlatMap.isEmpty_iff.mp hempty] at hkey
    simp at hkey
  · exact h a ps hps

theorem NoEmpty.remove (h : m.NoEmpty) (p : ProposalId) (b : AccountId) : (m.remove p b).NoEmpty := by
  unfold AccountToProposals.remove
  split
  · exact h
  · intro a ps hps
    split_ifs at hps with hempty
    · rw [FlatMap.find?_erase] at hps
      split_ifs at hps
      exact h a ps hps
    · rw [FlatMap.find?_insert] at hps
      split_ifs at hps
      · obtain rfl := Option.some.inj hps
        simpa using hempty
      · exact h a ps hps

theorem has_foldl_enter {l : List AccountId} :
    (l.foldl (enter p) m).Has a i ↔ m.Has a i ∨ (a ∈ l ∧ i = p) := by
  induction l generalizing m with
  | nil => simp
  | cons b l ih =>
    rw [List.foldl_cons, ih, has_enter, List.mem_cons]
    tauto

theorem has_foldl_remove {l : List AccountId} :
    (l.foldl (remove p) m).Has a i ↔ m.Has a i ∧ ¬(a ∈ l ∧ i = p) := by
  induction l generalizing m with
  | nil => simp
  | cons b l ih =>
    rw [List.foldl_cons, ih, has_remove, List.mem_cons]
    tauto

theorem NoEmpty.foldl_enter (h : m.NoEmpty) (p : ProposalId) (l : List AccountId) :
    (l.foldl (AccountToProposals.enter p) m).NoEmpty := by
  induction l generalizing m with
  | nil => exact h
  | cons b l ih => exact ih (h.enter p b)

theorem NoEmpty.foldl_remove (h : m.NoEmpty) (p : ProposalId) (l : List AccountId) :
    (l.foldl (AccountToProposals.remove p) m).NoEmpty := by
  induction l generalizing m with
  | nil => exact h
  | cons b l ih => exact ih (h.remove p b)

theorem NoEmpty.delta (h : m.NoEmpty) (p : ProposalId) (before after : List AccountId) :
    (insertOrRemoveDelta p before after m).NoEmpty := by
  induction before, after, m using insertOrRemoveDelta.induct p with
  | case1 m => rwa [insertOrRemoveDelta]
  | case2 b before m ih =>
    rw [insertOrRemoveDelta]
    exact ih (h.remove p b)
  | case3 a after m ih =>
    rw [insertOrRemoveDelta]
    exact ih (h.enter p a)
  | case4 b before a after m hlt ih =>
    rw [insertOrRemoveDelta, if_pos hlt]
    exact ih (h.remove p b)
  | case5 b before a after m hlt hgt ih =>
    rw [insertOrRemoveDelta, if_neg hlt, if_pos hgt]
    exact ih (h.enter p a)
  | case6 b before a after m hlt hgt ih =>
    rw [insertOrRemoveDelta, if_neg hlt, if_neg hgt]
    exact ih h

/-- **What a difference does**: accounts that are gone are taken out, accounts that are new are entered. -/
theorem has_delta {before after : List AccountId} (hbefore : before.Pairwise (· < ·))
    (hafter : after.Pairwise (· < ·)) :
    (insertOrRemoveDelta p before after m).Has a i ↔
      (m.Has a i ∧ ¬(i = p ∧ a ∈ before ∧ a ∉ after)) ∨ (i = p ∧ a ∈ after ∧ a ∉ before) := by
  induction before, after, m using insertOrRemoveDelta.induct p with
  | case1 m =>
    rw [insertOrRemoveDelta]
    simp
  | case2 b before m ih =>
    rw [insertOrRemoveDelta, ih (List.pairwise_cons.mp hbefore).2 hafter, has_remove, List.mem_cons]
    simp only [List.not_mem_nil, false_and, not_false_eq_true, and_true, and_false, or_false]
    tauto
  | case3 c after m ih =>
    rw [insertOrRemoveDelta, ih hbefore (List.pairwise_cons.mp hafter).2, has_enter, List.mem_cons]
    simp only [List.not_mem_nil, false_and, not_false_eq_true, and_true, and_false]
    tauto
  | case4 b before c after m hlt ih =>
    have hb : ∀ x ∈ c :: after, b < x := by
      intro x hx
      rcases List.mem_cons.mp hx with rfl | hx
      · exact hlt
      · exact hlt.trans ((List.pairwise_cons.mp hafter).1 x hx)
    rw [insertOrRemoveDelta, if_pos hlt, ih (List.pairwise_cons.mp hbefore).2 hafter, has_remove,
      List.mem_cons (l := before)]
    have hnot : a = b → a ∉ c :: after := fun hab ha ↦ absurd (hb a ha) (by rw [hab]; exact lt_irrefl _)
    grind
  | case5 b before c after m hlt hgt ih =>
    have hc : ∀ x ∈ b :: before, c < x := by
      intro x hx
      rcases List.mem_cons.mp hx with rfl | hx
      · exact hgt
      · exact hgt.trans ((List.pairwise_cons.mp hbefore).1 x hx)
    rw [insertOrRemoveDelta, if_neg hlt, if_pos hgt, ih hbefore (List.pairwise_cons.mp hafter).2, has_enter,
      List.mem_cons (l := after)]
    have hnot : a = c → a ∉ b :: before := fun hac ha ↦ absurd (hc a ha) (by rw [hac]; exact lt_irrefl _)
    grind
  | case6 b before c after m hlt hgt ih =>
    obtain rfl : b = c := le_antisymm (not_lt.mp hgt) (not_lt.mp hlt)
    rw [insertOrRemoveDelta, if_neg hlt, if_neg hgt, ih (List.pairwise_cons.mp hbefore).2
      (List.pairwise_cons.mp hafter).2, List.mem_cons, List.mem_cons]
    have hnot : a = b → a ∉ before := fun hab ha ↦
      absurd ((List.pairwise_cons.mp hbefore).1 a ha) (by rw [hab]; exact lt_irrefl _)
    have hnot' : a = b → a ∉ after := fun hab ha ↦
      absurd ((List.pairwise_cons.mp hafter).1 a ha) (by rw [hab]; exact lt_irrefl _)
    grind

end AccountToProposals

/-! ### One proposal -/

section Proposals

variable {ω : Type*}

namespace ProposalObject

/-- The account is in one of the four sets. -/
def Involves (p : ProposalObject ω) (a : AccountId) : Prop :=
  a ∈ p.requiredActiveApprovals.keys ∨ a ∈ p.requiredOwnerApprovals.keys ∨
    a ∈ p.availableActiveApprovals.keys ∨ a ∈ p.availableOwnerApprovals.keys

theorem mem_accounts {p : ProposalObject ω} {a : AccountId} : a ∈ p.accounts ↔ p.Involves a := by
  simp only [accounts, List.mem_append, FlatSet.mem_elements, Involves]
  tauto

/-- The same approvals are asked for. -/
structure SameRequired (p q : ProposalObject ω) : Prop where
  active : q.requiredActiveApprovals = p.requiredActiveApprovals
  owner : q.requiredOwnerApprovals = p.requiredOwnerApprovals

/-- **When the index follows a modification**: an account that leaves the active approvals is in none of
the other sets afterwards, unless it enters the owner approvals just then; and one that leaves the owner
approvals is in none of the other sets afterwards. -/
structure Followed (before after : ProposalObject ω) : Prop where
  active : ∀ a ∈ before.availableActiveApprovals.keys, a ∉ after.availableActiveApprovals.keys →
    (a ∉ after.requiredActiveApprovals.keys ∧ a ∉ after.requiredOwnerApprovals.keys ∧
      a ∉ after.availableOwnerApprovals.keys) ∨
    (a ∈ after.availableOwnerApprovals.keys ∧ a ∉ before.availableOwnerApprovals.keys)
  owner : ∀ a ∈ before.availableOwnerApprovals.keys, a ∉ after.availableOwnerApprovals.keys →
    a ∉ after.requiredActiveApprovals.keys ∧ a ∉ after.requiredOwnerApprovals.keys ∧
      a ∉ after.availableActiveApprovals.keys

end ProposalObject

theorem pairwise_elements (s : FlatSet AccountId) : s.elements.Pairwise (· < ·) :=
  List.pairwise_map.mpr s.sorted

/-- What the index has of a proposal that it has mirrored before a modification. -/
theorem has_objectModified {m : AccountToProposals} {before after : ProposalObject ω} {i : ProposalId}
    {a : AccountId} (h : m.Has a i ↔ before.Involves a) :
    AccountToProposals.Has (SecondaryIndex.objectModified i before after m) a i ↔
      (((before.Involves a ∧ ¬(a ∈ before.availableActiveApprovals.keys ∧
          a ∉ after.availableActiveApprovals.keys)) ∨
        (a ∈ after.availableActiveApprovals.keys ∧ a ∉ before.availableActiveApprovals.keys)) ∧
        ¬(a ∈ before.availableOwnerApprovals.keys ∧ a ∉ after.availableOwnerApprovals.keys)) ∨
      (a ∈ after.availableOwnerApprovals.keys ∧ a ∉ before.availableOwnerApprovals.keys) := by
  dsimp only [SecondaryIndex.objectModified]
  rw [AccountToProposals.has_delta (pairwise_elements _) (pairwise_elements _),
    AccountToProposals.has_delta (pairwise_elements _) (pairwise_elements _), h]
  simp only [FlatSet.mem_elements, true_and]

/-- The index does not mix up proposals. -/
theorem has_objectModified_of_ne {m : AccountToProposals} {before after : ProposalObject ω}
    {i j : ProposalId} {a : AccountId} (hj : j ≠ i) :
    AccountToProposals.Has (SecondaryIndex.objectModified i before after m) a j ↔ m.Has a j := by
  dsimp only [SecondaryIndex.objectModified]
  rw [AccountToProposals.has_delta (pairwise_elements _) (pairwise_elements _),
    AccountToProposals.has_delta (pairwise_elements _) (pairwise_elements _)]
  simp only [hj, false_and, not_false_eq_true, and_true, or_false]

/-- **A modification is followed exactly when** it is `Followed`. -/
theorem has_objectModified_iff {m : AccountToProposals} {before after : ProposalObject ω} {i : ProposalId}
    (hrequired : before.SameRequired after) (h : ∀ a, m.Has a i ↔ before.Involves a) :
    (∀ a, AccountToProposals.Has (SecondaryIndex.objectModified i before after m) a i ↔
      after.Involves a) ↔ before.Followed after := by
  have hiff := fun a ↦ @has_objectModified _ m before after i a (h a)
  have hinvolves : ∀ a, after.Involves a ↔ a ∈ before.requiredActiveApprovals.keys ∨
      a ∈ before.requiredOwnerApprovals.keys ∨ a ∈ after.availableActiveApprovals.keys ∨
      a ∈ after.availableOwnerApprovals.keys := by
    intro a
    rw [ProposalObject.Involves, hrequired.active, hrequired.owner]
  constructor
  · intro hall
    constructor
    · intro a ha ha'
      have h' := (hiff a).symm.trans ((hall a).trans (hinvolves a))
      rw [hrequired.active, hrequired.owner]
      unfold ProposalObject.Involves at h'
      grind
    · intro a ha ha'
      have h' := (hiff a).symm.trans ((hall a).trans (hinvolves a))
      rw [hrequired.active, hrequired.owner]
      unfold ProposalObject.Involves at h'
      grind
  · intro hf a
    have hactive := hf.active a
    have howner := hf.owner a
    rw [hrequired.active, hrequired.owner] at hactive howner
    rw [hiff a, hinvolves a]
    unfold ProposalObject.Involves
    grind

/-! ### The proposals of a database -/

namespace RequiredApprovals

variable {d d' d₀ d₁ : ObjectDatabase ProposalId Unit (ProposalObject ω) AccountToProposals}
  {i : ProposalId} {p q : ProposalObject ω} {st : UndoState ProposalId Unit (ProposalObject ω)}

/-- **The index mirrors the proposals**, and has no empty entries. -/
structure Mirrors (d : ObjectDatabase ProposalId Unit (ProposalObject ω) AccountToProposals) : Prop where
  has_iff : ∀ a i, d.secondary.Has a i ↔ ∃ p, d.objects.find? i = some p ∧ p.Involves a
  noEmpty : d.secondary.NoEmpty

namespace Mirrors

theorem has_of_find (h : Mirrors d) (hi : d.objects.find? i = some p) (a : AccountId) :
    d.secondary.Has a i ↔ p.Involves a := by
  rw [h.has_iff, hi]
  simp

theorem modify (h : Mirrors d) (hi : d.objects.find? i = some p) (hrequired : p.SameRequired q)
    (hfollowed : p.Followed q) (hd' : d.modify i p q = .ok d') : Mirrors d' := by
  rw [ObjectDatabase.modify] at hd'
  split_ifs at hd'
  obtain rfl := Except.ok.inj hd'
  refine ⟨fun a j ↦ ?_, (h.noEmpty.delta _ _ _).delta _ _ _⟩
  dsimp only
  rw [FlatMap.find?_insert]
  split_ifs with hj
  · subst hj
    rw [(has_objectModified_iff hrequired (h.has_of_find hi)).mpr hfollowed a]
    simp
  · rw [has_objectModified_of_ne hj]
    exact h.has_iff a j

theorem insert (h : Mirrors d) (hd' : d.insert i p = some d') : Mirrors d' := by
  rw [ObjectDatabase.insert] at hd'
  split_ifs at hd' with hinsert
  obtain rfl := Option.some.inj hd'
  have hnone : d.objects.find? i = none := FlatMap.contains_eq_false_iff.1 hinsert.1
  refine ⟨fun a j ↦ ?_, h.noEmpty.foldl_enter _ _⟩
  dsimp only [SecondaryIndex.objectInserted]
  rw [AccountToProposals.has_foldl_enter, ProposalObject.mem_accounts, FlatMap.find?_insert, h.has_iff]
  split_ifs with hj
  · subst hj
    rw [hnone]
    simp
  · simp [hj]

theorem create (h : Mirrors d) (hd' : d.create () p = some d') : Mirrors d' := by
  rw [ObjectDatabase.create] at hd'
  cases hinsert : d.insert (ObjectIds.objectId () (d.nextId ())) p with
  | none =>
    rw [hinsert] at hd'
    cases hd'
  | some e =>
    rw [hinsert] at hd'
    obtain rfl := Option.some.inj hd'
    have he := h.insert hinsert
    exact ⟨he.has_iff, he.noEmpty⟩

theorem remove (h : Mirrors d) (hi : d.objects.find? i = some p) : Mirrors (d.remove i p) := by
  refine ⟨fun a j ↦ ?_, h.noEmpty.foldl_remove _ _⟩
  dsimp only [ObjectDatabase.remove, SecondaryIndex.objectRemoved]
  rw [AccountToProposals.has_foldl_remove, ProposalObject.mem_accounts, FlatMap.find?_erase]
  split_ifs with hj
  · subst hj
    rw [h.has_of_find hi]
    simp
  · rw [h.has_iff]
    simp [hj]

end Mirrors

/-! ### The proposals of a session -/

/-- From one state to a later one, a proposal keeps what it asks for, and ids are not used again. -/
structure Kin (d₀ d : ObjectDatabase ProposalId Unit (ProposalObject ω) AccountToProposals) : Prop where
  required : ∀ i p q, d₀.objects.find? i = some p → d.objects.find? i = some q → p.SameRequired q
  gone : ∀ i < d₀.nextId (), d₀.objects.find? i = none → d.objects.find? i = none
  next_le : d₀.nextId () ≤ d.nextId ()

namespace Kin

theorem refl (d : ObjectDatabase ProposalId Unit (ProposalObject ω) AccountToProposals) : Kin d d where
  required i p q hp hq := by
    obtain rfl := Option.some.inj (hp.symm.trans hq)
    exact ⟨rfl, rfl⟩
  gone _ _ h := h
  next_le := le_rfl

theorem trans (h : Kin d₀ d₁) (h' : Kin d₁ d) (hvalid : d₀.Valid) : Kin d₀ d where
  required i p q hp hq := by
    have hlt : i < d₁.nextId () := (hvalid.lt_nextId () i p hp).trans_le h.next_le
    cases hr : d₁.objects.find? i with
    | none =>
      rw [h'.gone i hlt hr] at hq
      cases hq
    | some r =>
      have hpr := h.required i p r hp hr
      have hrq := h'.required i r q hr hq
      exact ⟨hrq.active.trans hpr.active, hrq.owner.trans hpr.owner⟩
  gone i hlt hnone := h'.gone i (hlt.trans_le h.next_le) (h.gone i hlt hnone)
  next_le := h.next_le.trans h'.next_le

theorem of_sameObjects (h : Kin d₀ d) (hd : SameObjects d d') : Kin d₀ d' where
  required i p q hp hq := h.required i p q hp (by rwa [hd.1] at hq)
  gone i hlt hnone := by
    rw [hd.1]
    exact h.gone i hlt hnone
  next_le := by
    rw [hd.2]
    exact h.next_le

/-- A modification keeps what a proposal asks for. -/
theorem modify (hi : d.objects.find? i = some p) (hrequired : p.SameRequired q)
    (hd' : d.modify i p q = .ok d') : Kin d d' := by
  rw [ObjectDatabase.modify] at hd'
  split_ifs at hd'
  obtain rfl := Except.ok.inj hd'
  refine ⟨fun j r t hr ht ↦ ?_, fun j _ hnone ↦ ?_, le_rfl⟩
  · dsimp only at ht
    rw [FlatMap.find?_insert] at ht
    split_ifs at ht with hj
    · subst hj
      obtain rfl := Option.some.inj ht
      obtain rfl := Option.some.inj (hi.symm.trans hr)
      exact hrequired
    · exact (refl d).required j r t hr ht
  · dsimp only
    rw [FlatMap.find?_insert]
    split_ifs with hj
    · subst hj
      rw [hi] at hnone
      cases hnone
    · exact hnone

theorem create (hvalid : d.Valid) (hd' : d.create () p = some d') : Kin d d' := by
  rw [ObjectDatabase.create, ObjectDatabase.insert] at hd'
  split_ifs at hd'
  · obtain rfl := Option.some.inj hd'
    refine ⟨fun j r t hr ht ↦ ?_, fun j hlt hnone ↦ ?_, ?_⟩
    · dsimp only at ht
      rw [FlatMap.find?_insert] at ht
      split_ifs at ht with hj
      · have hlt : j < d.nextId () := hvalid.lt_nextId () j r hr
        rw [show j = d.nextId () from hj] at hlt
        exact absurd hlt (lt_irrefl _)
      · exact (refl d).required j r t hr ht
    · dsimp only
      rw [FlatMap.find?_insert, if_neg]
      · exact hnone
      · rintro rfl
        exact lt_irrefl _ hlt
    · dsimp only
      rw [Function.update_self]
      exact Nat.le_succ _
  · cases hd'

theorem remove : Kin d (d.remove i p) := by
  refine ⟨fun j r t hr ht ↦ ?_, fun j _ hnone ↦ ?_, le_rfl⟩
  · dsimp only [ObjectDatabase.remove] at ht
    rw [FlatMap.find?_erase] at ht
    split_ifs at ht
    exact (refl d).required j r t hr ht
  · dsimp only [ObjectDatabase.remove]
    rw [FlatMap.find?_erase]
    split_ifs
    · rfl
    · exact hnone

end Kin

/-- **The index follows the undoing of a record** when every old value that comes back is followed. -/
theorem Mirrors.restore (h : Mirrors d) (hrec : Recorded d₀ d st) (hkin : Kin d₀ d)
    (hfollowed : ∀ i p q, st.oldValues.find? i = some p → d.objects.find? i = some q → q.Followed p)
    (order : UndoOrder st) : (restore d st order).Ensures (fun _ ↦ True) Mirrors := by
  let Ready (x : ProposalId × ProposalObject ω)
      (e : ObjectDatabase ProposalId Unit (ProposalObject ω) AccountToProposals) : Prop :=
    ∃ q, e.objects.find? x.1 = some q ∧ q.SameRequired x.2 ∧ q.Followed x.2
  have holds : (order.oldValues.foldlM restoreOldValue d).Ensures (fun _ ↦ True) Mirrors := by
    refine .foldlM_each Prod.fst Mirrors Ready ?_ ?_ ?_ h
    · rintro x e he ⟨q, hq, hrequired, hx⟩
      rw [restoreOldValue, hq]
      dsimp only
      refine .of_forall fun e' he' ↦ ⟨he.modify hq hrequired hx he', ?_⟩
      rintro y hne ⟨r, hr, hry⟩
      -- the proposals that are still to be restored are as they were
      refine ⟨r, ?_, hry⟩
      rw [ObjectDatabase.modify] at he'
      split_ifs at he'
      obtain rfl := Except.ok.inj he'
      dsimp only
      rw [FlatMap.find?_insert_of_ne _ _ hne]
      exact hr
    · exact (order.oldValues_perm.map Prod.fst).nodup_iff.2 st.oldValues.nodup_fst
    · intro x hx
      have hold := FlatMap.find?_eq_some_iff.2 (order.oldValues_perm.mem_iff.1 hx)
      obtain ⟨hbefore, q, hq⟩ := hrec.old_eq hold
      have hrequired := hkin.required x.1 x.2 q hbefore hq
      exact ⟨q, hq, ⟨hrequired.active.symm, hrequired.owner.symm⟩, hfollowed x.1 x.2 q hold hq⟩
  have hnews (e : ObjectDatabase ProposalId Unit (ProposalObject ω) AccountToProposals) (he : Mirrors e) :
      (order.newIds.foldlM removeNewObject e).Ensures (fun _ ↦ True) Mirrors := by
    refine .foldlM _ (fun i _ e he ↦ ?_) he
    rw [removeNewObject]
    split
    · trivial
    · rename_i q hq
      exact .ok (he.remove hq)
  have hremoved (e : ObjectDatabase ProposalId Unit (ProposalObject ω) AccountToProposals) (he : Mirrors e) :
      (order.removed.foldlM insertRemovedObject e).Ensures (fun _ ↦ True) Mirrors := by
    refine .foldlM _ (fun x _ e he ↦ ?_) he
    rw [insertRemovedObject]
    split
    · rename_i e' he'
      exact .ok (he.insert he')
    · trivial
  refine holds.bind fun d₁ hd₁ ↦ (hnews d₁ hd₁).bind fun d₂ hd₂ ↦ ?_
  exact hremoved _ ⟨hd₂.has_iff, hd₂.noEmpty⟩

/-! ### Records below each other -/

/-- Each record tracks the proposals from those of the record below it on. -/
def Stacked (d : ObjectDatabase ProposalId Unit (ProposalObject ω) AccountToProposals) :
    List (UndoState ProposalId Unit (ProposalObject ω)) → Prop
  | [] => True
  | st :: rest => ∃ d₀, Recorded d₀ d st ∧ Kin d₀ d ∧ Stacked d₀ rest

namespace Stacked

variable {stack : List (UndoState ProposalId Unit (ProposalObject ω))}

theorem take (h : Stacked d stack) (n : ℕ) : Stacked d (stack.take n) := by
  induction stack generalizing d n with
  | nil => rwa [List.take_nil]
  | cons st rest ih =>
    cases n with
    | zero => trivial
    | succ n =>
      obtain ⟨d₀, hrec, hkin, hrest⟩ := h
      exact ⟨d₀, hrec, hkin, ih hrest n⟩

theorem of_sameObjects (h : Stacked d stack) (hd : SameObjects d d') : Stacked d' stack := by
  cases stack with
  | nil => trivial
  | cons st rest =>
    obtain ⟨d₀, hrec, hkin, hrest⟩ := h
    exact ⟨d₀, hrec.of_sameObjects hd, hkin.of_sameObjects hd, hrest⟩

end Stacked

end RequiredApprovals

/-! ### Runs -/

/-- **When the index follows an update**: an active approval is taken away only from an account that is
in no other set, unless it gives its owner approval with the same update; and an owner approval only
from an account that is in no other set. -/
structure ProposalObject.Releases (p : ProposalObject ω) (o : ProposalUpdateOperation) : Prop where
  active : ∀ a ∈ o.activeApprovalsToRemove.keys, a ∈ p.availableActiveApprovals.keys →
    (a ∉ p.requiredActiveApprovals.keys ∧ a ∉ p.requiredOwnerApprovals.keys ∧
      (a ∈ p.availableOwnerApprovals.keys ∨ a ∈ o.ownerApprovalsToAdd.keys →
        a ∈ o.ownerApprovalsToRemove.keys)) ∨
    (a ∈ o.ownerApprovalsToAdd.keys ∧ a ∉ o.ownerApprovalsToRemove.keys ∧
      a ∉ p.availableOwnerApprovals.keys)
  owner : ∀ a ∈ o.ownerApprovalsToRemove.keys, a ∈ p.availableOwnerApprovals.keys →
    a ∉ p.requiredActiveApprovals.keys ∧ a ∉ p.requiredOwnerApprovals.keys ∧
      (a ∈ p.availableActiveApprovals.keys ∨ a ∈ o.activeApprovalsToAdd.keys →
        a ∈ o.activeApprovalsToRemove.keys)

theorem ProposalObject.followed_approve_iff {p : ProposalObject ω} {o : ProposalUpdateOperation} :
    p.Followed (p.approve o) ↔ p.Releases o := by
  constructor
  · rintro ⟨hactive, howner⟩
    simp only [approve, FlatSet.mem_keys_eraseAll, FlatSet.mem_keys_addAll] at hactive howner
    constructor
    · intro a hremove ha
      have h := hactive a ha (fun h ↦ h.2 hremove)
      tauto
    · intro a hremove ha
      have h := howner a ha (fun h ↦ h.2 hremove)
      tauto
  · rintro ⟨hactive, howner⟩
    constructor
    · intro a ha hgone
      simp only [approve, FlatSet.mem_keys_eraseAll, FlatSet.mem_keys_addAll] at hgone ⊢
      have hremove : a ∈ o.activeApprovalsToRemove.keys := by tauto
      have h := hactive a hremove ha
      tauto
    · intro a ha hgone
      simp only [approve, FlatSet.mem_keys_eraseAll, FlatSet.mem_keys_addAll] at hgone ⊢
      have hremove : a ∈ o.ownerApprovalsToRemove.keys := by tauto
      have h := howner a hremove ha
      tauto

/-- **When the index keeps up**: with an update as above, and with the end of a session when each
approval that it has added, and that goes now, is of an account that is in no other set. -/
def ProposalStoreEvent.Allowed (u : ProposalStore ω) : ProposalStoreEvent ω → Prop
  | update o => ∀ p, u.db.objects.find? o.proposal = some p → p.Releases o
  | undo | popCommit =>
    ∀ i p q, u.top.oldValues.find? i = some p → u.db.objects.find? i = some q → q.Followed p
  | _ => True

/-- The invariant of the proposals with their records. -/
structure ProposalsKept (u : ProposalStore ω) : Prop where
  valid : u.db.Valid
  mirrors : RequiredApprovals.Mirrors u.db
  stacked : RequiredApprovals.Stacked u.db u.stack

namespace ProposalsKept

open RequiredApprovals

variable {u v : ProposalStore ω}

/-- The record that is written to. -/
theorem top (h : ProposalsKept u) :
    ∃ d₀, Recorded d₀ u.db u.top ∧ Kin d₀ u.db ∧ Stacked d₀ u.stack.tail := by
  obtain ⟨db, stack, active, size⟩ := u
  cases stack with
  | nil => exact ⟨db, .start h.valid, .refl db, trivial⟩
  | cons st rest => exact h.stacked

/-- A call that the index follows and that keeps what proposals ask for. -/
theorem call (h : ProposalsKept u) {c : Call ProposalId Unit (ProposalObject ω)}
    (hrun : ∀ d st, c.run u.db u.top = .ok (d, st) → Mirrors d ∧ Kin u.db d)
    (hv : u.call c = .ok v) : ProposalsKept v := by
  obtain ⟨d₀, hrec, hkin, hrest⟩ := h.top
  rw [UndoDatabase.call, Except.bind_eq_ok] at hv
  obtain ⟨⟨d, st⟩, hok, hv⟩ := hv
  obtain rfl := Except.pure_eq_ok.1 hv
  have hrec' := (hrec.run _).of_ok hok
  obtain ⟨hmirrors, hkin'⟩ := hrun d st hok
  exact ⟨hrec'.after, hmirrors, d₀, hrec', hkin.trans hkin' hrec.before, hrest⟩

theorem create (h : ProposalsKept u) {p : ProposalObject ω} (hv : u.call (.create () p) = .ok v) :
    ProposalsKept v := by
  refine h.call (fun d st hrun ↦ ?_) hv
  rw [Call.run] at hrun
  split at hrun
  · rename_i d' hd'
    cases hrun
    exact ⟨h.mirrors.create hd', .create h.valid hd'⟩
  · cases hrun

/-- A modification that keeps what the proposal asks for. -/
theorem modify (h : ProposalsKept u) {i : ProposalId} {g : ProposalObject ω → ProposalObject ω}
    (hg : ∀ p, u.db.objects.find? i = some p → p.SameRequired (g p) ∧ p.Followed (g p))
    (hv : u.call (.modify i g) = .ok v) : ProposalsKept v := by
  refine h.call (fun d st hrun ↦ ?_) hv
  rw [Call.run] at hrun
  split at hrun
  · cases hrun
  · rename_i p hp
    obtain ⟨hrequired, hfollowed⟩ := hg p hp
    split at hrun
    · rename_i d' hd'
      cases hrun
      exact ⟨h.mirrors.modify hp hrequired hfollowed hd', .modify hp hrequired hd'⟩
    · cases hrun

theorem remove (h : ProposalsKept u) {i : ProposalId} (hv : u.call (.remove i) = .ok v) :
    ProposalsKept v := by
  refine h.call (fun d st hrun ↦ ?_) hv
  rw [Call.run] at hrun
  split at hrun
  · cases hrun
  · rename_i p hp
    cases hrun
    exact ⟨h.mirrors.remove hp, .remove⟩

theorem merge (h : ProposalsKept u) (hv : u.merge = some v) : ProposalsKept v := by
  have hstacked := h.stacked
  rw [UndoDatabase.merge] at hv
  by_cases hactive : u.activeSessions = 0
  · rw [if_pos hactive] at hv
    cases hv
  rw [if_neg hactive] at hv
  split at hv
  · split_ifs at hv
    obtain rfl := Option.some.inj hv
    exact ⟨h.valid, h.mirrors, trivial⟩
  · rename_i st prev rest hstack
    obtain rfl := Option.some.inj hv
    rw [hstack] at hstacked
    obtain ⟨d₁, hrec, hkin, d₀, hrec', hkin', hrest⟩ := hstacked
    exact ⟨h.valid, h.mirrors, d₀, hrec'.merge hrec, hkin'.trans hkin hrec'.before, hrest⟩
  · cases hv

/-- Taking back a record whose old values are followed. -/
theorem restore (h : ProposalsKept u) (hfollowed : ∀ i p q, u.top.oldValues.find? i = some p →
      u.db.objects.find? i = some q → q.Followed p) (order : UndoOrder u.top) :
    (Playchain.restore u.db u.top order).Ensures (fun _ ↦ True) fun d ↦
      d.Valid ∧ Mirrors d ∧ Stacked d u.stack.tail := by
  obtain ⟨d₀, hrec, hkin, hrest⟩ := h.top
  have hmirrors := h.mirrors.restore hrec hkin hfollowed order
  have hsame := hrec.restore order
  refine .of_forall fun d hd ↦ ?_
  have hobjects := hsame.of_ok hd
  refine ⟨?_, hmirrors.of_ok hd, hrest.of_sameObjects hobjects⟩
  exact ((Recorded.start hrec.before).of_sameObjects hobjects).after

/-- **One step**: the index keeps up with every event that is allowed. -/
theorem step (h : ProposalsKept u) {event : ProposalStoreEvent ω} (hallowed : event.Allowed u)
    (hv : event.Step u v) : ProposalsKept v := by
  cases event with
  | create p => exact h.create hv
  | update o =>
    have hcall : u.call (.modify o.proposal fun p ↦ p.approve o) = .ok v := hv
    refine h.modify ?_ hcall
    intro p hp
    exact ⟨⟨rfl, rfl⟩, ProposalObject.followed_approve_iff.mpr (hallowed p hp)⟩
  | fail i failReason =>
    have hcall : u.call (.modify i fun p ↦ { p with failReason := failReason }) = .ok v := hv
    refine h.modify ?_ hcall
    intro p hp
    refine ⟨⟨rfl, rfl⟩, ?_, ?_⟩
    · exact fun a ha hgone ↦ absurd ha hgone
    · exact fun a ha hgone ↦ absurd ha hgone
  | remove i => exact h.remove hv
  | startSession =>
    obtain rfl := hv
    exact ⟨h.valid, h.mirrors, u.db, .start h.valid, .refl u.db, h.stacked.take u.maxSize⟩
  | merge => exact h.merge hv
  | commit =>
    rw [ProposalStoreEvent.Step, UndoDatabase.commit] at hv
    split_ifs at hv
    obtain rfl := Option.some.inj hv
    exact ⟨h.valid, h.mirrors, h.stacked⟩
  | undo =>
    obtain ⟨order, hv⟩ := hv
    rw [UndoDatabase.undo] at hv
    split_ifs at hv
    obtain ⟨d, hd, hv⟩ := Except.bind_eq_ok.1 hv
    obtain rfl := Except.pure_eq_ok.1 hv
    obtain ⟨hvalid, hmirrors, hstacked⟩ := (h.restore hallowed order).of_ok hd
    exact ⟨hvalid, hmirrors, hstacked⟩
  | popCommit =>
    obtain ⟨order, hv⟩ := hv
    rw [UndoDatabase.popCommit] at hv
    split_ifs at hv
    obtain ⟨d, hd, hv⟩ := Except.bind_eq_ok.1 hv
    obtain rfl := Except.pure_eq_ok.1 hv
    obtain ⟨hvalid, hmirrors, hstacked⟩ := (h.restore hallowed order).of_ok hd
    exact ⟨hvalid, hmirrors, hstacked⟩
  | setMaxSize n =>
    obtain rfl := hv
    exact ⟨h.valid, h.mirrors, h.stacked⟩

/-- **An update is followed exactly when** it releases the accounts that lose an approval. -/
theorem mirrors_update_iff (h : ProposalsKept u) {o : ProposalUpdateOperation} {p : ProposalObject ω}
    (hp : u.db.objects.find? o.proposal = some p) (hv : ProposalStoreEvent.Step u (.update o) v) :
    Mirrors v.db ↔ p.Releases o := by
  constructor
  · intro hmirrors
    have hrequired : p.SameRequired (p.approve o) := ⟨rfl, rfl⟩
    rw [← ProposalObject.followed_approve_iff,
      ← has_objectModified_iff hrequired (h.mirrors.has_of_find hp)]
    rw [ProposalStoreEvent.Step, UndoDatabase.call, Except.bind_eq_ok] at hv
    obtain ⟨⟨d, st⟩, hrun, hv⟩ := hv
    obtain rfl := Except.pure_eq_ok.1 hv
    rw [Call.run, hp] at hrun
    dsimp only at hrun
    split at hrun
    · rename_i d' hd'
      cases hrun
      rw [ObjectDatabase.modify] at hd'
      split_ifs at hd'
      obtain rfl := Except.ok.inj hd'
      exact hmirrors.has_of_find (FlatMap.find?_insert_self _ _ _)
    · cases hrun
  · intro hreleases
    have hallowed : ProposalStoreEvent.Allowed u (.update o) := by
      intro q hq
      obtain rfl := Option.some.inj (hp.symm.trans hq)
      exact hreleases
    exact (h.step hallowed hv).mirrors

end ProposalsKept

/-- The store before the first proposal. -/
def emptyProposals (ω : Type*) (maxSize : ℕ) : ProposalStore ω :=
  { db := ⟨∅, fun _ ↦ 0, (∅ : AccountToProposals)⟩, maxSize := maxSize }

theorem proposalsKept_emptyProposals (maxSize : ℕ) : ProposalsKept (emptyProposals ω maxSize) where
  valid := ⟨fun _ _ _ _ h ↦ (by cases h), fun _ _ _ h ↦ (by cases h)⟩
  mirrors := by
    refine ⟨fun a i ↦ iff_of_false ?_ ?_, fun a ps hps ↦ (by cases hps)⟩
    · rintro ⟨ps, hps, -⟩
      cases hps
    · rintro ⟨p, hp, -⟩
      cases hp
  stacked := trivial

/-- A step that is allowed. -/
def ProposalStoreStep (u v : ProposalStore ω) : Prop :=
  ∃ event : ProposalStoreEvent ω, event.Allowed u ∧ event.Step u v

/-- **The index of approvals mirrors the proposals** in every state of a run in which no account loses an
approval while it is in another set. -/
theorem requiredApprovalIndex_mirrors {maxSize : ℕ} {u : ProposalStore ω}
    (h : Relation.ReflTransGen ProposalStoreStep (emptyProposals ω maxSize) u) :
    RequiredApprovals.Mirrors u.db := by
  have hkept : ProposalsKept u := by
    induction h with
    | refl => exact proposalsKept_emptyProposals maxSize
    | tail _ hstep ih =>
      obtain ⟨event, hallowed, hstep⟩ := hstep
      exact ih.step hallowed hstep
  exact hkept.mirrors

end Proposals

/-- A proposal that asks for the approval of an account. -/
def asksFirst : ProposalObject Unit :=
  { expirationTime := 100, reviewPeriodTime := none, operations := [],
    requiredActiveApprovals := FlatSet.ofList [1], proposer := 5 }

/-- An account approves. -/
def approveBy (a : AccountId) : ProposalUpdateOperation :=
  { feePayingAccount := a, proposal := 0, activeApprovalsToAdd := FlatSet.ofList [a] }

/-- An account takes its approval back. -/
def revokeBy (a : AccountId) : ProposalUpdateOperation :=
  { feePayingAccount := a, proposal := 0, activeApprovalsToRemove := FlatSet.ofList [a] }

theorem approveBy_releases (a : AccountId) (p : ProposalObject Unit) : p.Releases (approveBy a) :=
  ⟨fun _ hb ↦ (by cases hb), fun _ hb ↦ (by cases hb)⟩

theorem requiredApprovalIndex_mirrors_revoked : ∃ u : ProposalStore Unit,
    u.db.objects.find? 0 = some asksFirst ∧ RequiredApprovals.Mirrors u.db := by
  obtain ⟨u, v, w, hu, hv, hw, hfirst, hsecond, hthird⟩ : ∃ u v w : ProposalStore Unit,
      ProposalStoreEvent.Step (emptyProposals Unit 256) (.create asksFirst) u ∧
      ProposalStoreEvent.Step u (.update (approveBy 2)) v ∧
      ProposalStoreEvent.Step v (.update (revokeBy 2)) w ∧
      u.db.objects.find? 0 = some asksFirst ∧
      v.db.objects.find? 0 = some (asksFirst.approve (approveBy 2)) ∧
      w.db.objects.find? 0 = some asksFirst :=
    ⟨_, _, _, rfl, rfl, rfl, rfl, rfl, rfl⟩
  have hreleases : (asksFirst.approve (approveBy 2)).Releases (revokeBy 2) := by
    refine ⟨fun a ha _ ↦ .inl ?_, fun a ha ↦ (by cases ha)⟩
    obtain rfl : a = 2 := List.mem_singleton.mp (FlatSet.mem_keys_ofList.mp ha)
    decide
  have hrun : Relation.ReflTransGen ProposalStoreStep (emptyProposals Unit 256) w := by
    refine ((Relation.ReflTransGen.single ⟨.create asksFirst, trivial, hu⟩).tail
      ⟨.update (approveBy 2), fun p _ ↦ approveBy_releases 2 p, hv⟩).tail
      ⟨.update (revokeBy 2), fun p hp ↦ ?_, hw⟩
    obtain rfl := Option.some.inj (hsecond.symm.trans hp)
    exact hreleases
  exact ⟨w, hthird, requiredApprovalIndex_mirrors hrun⟩

/-- **The index loses an account**: it is asked for its approval, gives it, and takes it back. -/
theorem requiredApprovalIndex_misses : ∃ u v w : ProposalStore Unit,
    ProposalStoreEvent.Step (emptyProposals Unit 256) (.create asksFirst) u ∧
    ProposalStoreEvent.Step u (.update (approveBy 1)) v ∧
    ProposalStoreEvent.Step v (.update (revokeBy 1)) w ∧
    w.db.objects.find? 0 = some asksFirst ∧ asksFirst.Involves 1 ∧ ¬w.db.secondary.Has 1 0 := by
  obtain ⟨u, v, w, hu, hv, hw, hfirst, hsecond, hthird, hindex⟩ : ∃ u v w : ProposalStore Unit,
      ProposalStoreEvent.Step (emptyProposals Unit 256) (.create asksFirst) u ∧
      ProposalStoreEvent.Step u (.update (approveBy 1)) v ∧
      ProposalStoreEvent.Step v (.update (revokeBy 1)) w ∧
      u.db.objects.find? 0 = some asksFirst ∧
      v.db.objects.find? 0 = some (asksFirst.approve (approveBy 1)) ∧
      w.db.objects.find? 0 = some asksFirst ∧
      w.db.secondary = SecondaryIndex.objectModified 0 (asksFirst.approve (approveBy 1)) asksFirst
        v.db.secondary :=
    ⟨_, _, _, rfl, rfl, rfl, rfl, rfl, rfl, rfl⟩
  have hkept : ProposalsKept u :=
    (proposalsKept_emptyProposals 256).create hu
  have hkept' : ProposalsKept v := by
    have hallowed : ProposalStoreEvent.Allowed u (.update (approveBy 1)) :=
      fun p _ ↦ approveBy_releases 1 p
    exact hkept.step hallowed hv
  refine ⟨u, v, w, hu, hv, hw, hthird, .inl (by decide), ?_⟩
  rw [hindex, has_objectModified (hkept'.mirrors.has_of_find hsecond 1)]
  have hgiven : 1 ∈ (asksFirst.approve (approveBy 1)).availableActiveApprovals.keys := by decide
  have hactive : 1 ∉ asksFirst.availableActiveApprovals.keys := by decide
  have howner : 1 ∉ asksFirst.availableOwnerApprovals.keys := by decide
  tauto

end Playchain
