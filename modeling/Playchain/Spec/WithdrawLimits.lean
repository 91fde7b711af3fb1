import Mathlib.Algebra.BigOperators.Group.List.Basic
import Playchain.Graphene.WithdrawPermission
import Playchain.Lib.Control

/-!
# What a withdraw permission pays

The periods of a permission are counted in exact integers from the start its terms give. A permission
keeps its limit if in no period more than the limit is claimed, and nothing outside its periods.

The end of the current period is computed in 32 bits. In the period that reaches beyond `2 ^ 32` it comes
out too early, the permission offers its whole limit again at every claim, and the limit is lost. So the
limit is kept in all runs exactly if the permission has expired, in 32 bits, before that period begins
(`WithdrawTerms.EndsInRange`): in particular if its exact end fits in 32 bits.
-/

namespace Playchain

/-! ### Claims by period -/

namespace WithdrawTerms

variable (t : WithdrawTerms)

/-- A point in time lies in the `k`-th period. -/
def InPeriod (k : ℕ) (time : UInt32) : Prop :=
  t.periodStartTime.toNat + k * t.withdrawalPeriodSec.toNat ≤ time.toNat ∧
    time.toNat < t.periodStartTime.toNat + (k + 1) * t.withdrawalPeriodSec.toNat

instance (k : ℕ) (time : UInt32) : Decidable (t.InPeriod k time) := inferInstanceAs (Decidable (_ ∧ _))

/-- What was claimed in the `k`-th period. -/
def claimedIn (k : ℕ) (claims : List PaidClaim) : ℤ :=
  ((claims.filter fun c ↦ t.InPeriod k c.time).map fun c ↦ c.amount.amount).sum

/-- **The limit is kept**: at most the limit is claimed in each period, in the asset of the limit, and
nothing before the first or after the last period. -/
structure LimitKept (claims : List PaidClaim) : Prop where
  limit : ∀ k, t.claimedIn k claims ≤ t.withdrawalLimit.amount
  asset : ∀ c ∈ claims, c.amount.assetId = t.withdrawalLimit.assetId
  started : ∀ c ∈ claims, t.periodStartTime.toNat ≤ c.time.toNat
  unexpired : ∀ c ∈ claims, c.time.toNat <
    t.periodStartTime.toNat + t.periodsUntilExpiration.toNat * t.withdrawalPeriodSec.toNat

/-- The number of periods that begin and end below `2 ^ 32`. -/
def periodsInRange : ℕ := (2 ^ 32 - 1 - t.periodStartTime.toNat) / t.withdrawalPeriodSec.toNat

/-- The permission has expired, in 32 bits, when the first period begins that does not end below
`2 ^ 32`. -/
def EndsInRange : Prop :=
  t.expiration.toNat ≤
    t.periodStartTime.toNat + t.periodsInRange * t.withdrawalPeriodSec.toNat

instance : Decidable t.EndsInRange := inferInstanceAs (Decidable (_ ≤ _))

/-- Terms whose exact end fits in 32 bits end in range. -/
theorem endsInRange_of_lt (hperiod : 0 < t.withdrawalPeriodSec.toNat)
    (h : t.periodStartTime.toNat + t.periodsUntilExpiration.toNat * t.withdrawalPeriodSec.toNat <
      2 ^ 32) : t.EndsInRange := by
  have hexact : t.expiration.toNat = t.periodStartTime.toNat +
      t.periodsUntilExpiration.toNat * t.withdrawalPeriodSec.toNat := by
    rw [expiration, UInt32.toNat_add, UInt32.toNat_mul, Nat.add_mod_mod, Nat.mod_eq_of_lt h]
  have hcount : t.periodsUntilExpiration.toNat ≤ t.periodsInRange :=
    (Nat.le_div_iff_mul_le hperiod).2 (by omega)
  rw [EndsInRange, hexact]
  exact Nat.add_le_add_left (Nat.mul_le_mul_right _ hcount) _

/-- The end in 32 bits is never after the exact end. -/
theorem expiration_le : t.expiration.toNat ≤ t.periodStartTime.toNat +
    t.periodsUntilExpiration.toNat * t.withdrawalPeriodSec.toNat := by
  rw [expiration, UInt32.toNat_add, UInt32.toNat_mul, Nat.add_mod_mod]
  exact Nat.mod_le _ _

theorem claimedIn_append (k : ℕ) (claims claims' : List PaidClaim) :
    t.claimedIn k (claims ++ claims') = t.claimedIn k claims + t.claimedIn k claims' := by
  rw [claimedIn, List.filter_append, List.map_append, List.sum_append, claimedIn, claimedIn]

theorem claimedIn_singleton (k : ℕ) (c : PaidClaim) :
    t.claimedIn k [c] = if t.InPeriod k c.time then c.amount.amount else 0 := by
  unfold claimedIn
  split_ifs with h
  · rw [List.filter_cons_of_pos (by simpa using h)]
    simp
  · rw [List.filter_cons_of_neg (by simpa using h)]
    simp

variable {t}

/-- The periods do not overlap. -/
theorem InPeriod.unique {k k' : ℕ} {time : UInt32} (h : t.InPeriod k time) (h' : t.InPeriod k' time) :
    k = k' := by
  have hlt : ∀ {a b : ℕ}, t.InPeriod a time → t.InPeriod b time → ¬a < b := by
    intro a b ha hb hab
    have hmul := Nat.mul_le_mul_right t.withdrawalPeriodSec.toNat (Nat.succ_le_of_lt hab)
    have := ha.2
    have := hb.1
    rw [Nat.succ_eq_add_one] at hmul
    omega
  exact le_antisymm (not_lt.1 (hlt h' h)) (not_lt.1 (hlt h h'))

end WithdrawTerms

namespace WithdrawState

variable {s s' : WithdrawState} {id : ℕ}

/-! ### What the operations do to a permission -/

theorem of_fcAssert_bind {α : Type} {p : Prop} [Decidable p] {text : String}
    {x : Unit → Except ChainError α} {a : α} (h : fcAssert p text >>= x = .ok a) : p ∧ x () = .ok a := by
  obtain ⟨u, hu, hx⟩ := Except.bind_eq_ok.1 h
  exact ⟨fcAssert_eq_ok.1 hu, hx⟩

/-- What the evaluator checks before a claim is paid, as far as the permission goes. -/
structure ClaimOk (s : WithdrawState) (op : WithdrawPermissionClaim) (permit : WithdrawPermissionObject) :
    Prop where
  pos : 0 < op.amountToWithdraw.amount
  unexpired : s.headBlockTime < permit.expiration
  started : permit.periodStartTime ≤ s.headBlockTime
  asset : op.amountToWithdraw.assetId = permit.withdrawalLimit.assetId
  available : op.amountToWithdraw.amount ≤ (permit.availableThisPeriod s.headBlockTime).amount

theorem availableThisPeriod_assetId (p : WithdrawPermissionObject) (time : UInt32) :
    (p.availableThisPeriod time).assetId = p.withdrawalLimit.assetId := by
  unfold WithdrawPermissionObject.availableThisPeriod
  split_ifs <;> rfl

/-- **A paid claim** passed the checks, and is recorded at the permission. -/
theorem claimPermission_eq_ok {op : WithdrawPermissionClaim} (h : s.claimPermission op = .ok s') :
    ∃ permit, s.permissions.find? op.withdrawPermission = some permit ∧ ClaimOk s op permit ∧
      s'.permissions = s.permissions.modify op.withdrawPermission
        (recordClaim s.headBlockTime op.amountToWithdraw.amount) := by
  obtain ⟨-, h⟩ := of_fcAssert_bind h
  obtain ⟨hpos, h⟩ := of_fcAssert_bind h
  obtain ⟨-, h⟩ := of_fcAssert_bind h
  obtain ⟨permit, hpermit, h⟩ := Except.bind_eq_ok.1 h
  obtain ⟨_, hevaluate, h⟩ := Except.bind_eq_ok.1 h
  obtain ⟨hunexpired, hevaluate⟩ := of_fcAssert_bind hevaluate
  obtain ⟨-, hevaluate⟩ := of_fcAssert_bind hevaluate
  obtain ⟨-, hevaluate⟩ := of_fcAssert_bind hevaluate
  obtain ⟨hstarted, hevaluate⟩ := of_fcAssert_bind hevaluate
  obtain ⟨le, hle, hevaluate⟩ := Except.bind_eq_ok.1 hevaluate
  obtain ⟨hle', -⟩ := of_fcAssert_bind hevaluate
  obtain ⟨lt, hlt, hle⟩ := Except.bind_eq_ok.1 hle
  obtain ⟨_, hsame, hlt⟩ := Except.bind_eq_ok.1 hlt
  have hasset := fcAssert_eq_ok.1 hsame
  rw [availableThisPeriod_assetId] at hasset
  refine ⟨permit, orUnableToFind_eq_ok.1 hpermit, ⟨hpos, hunexpired, hstarted, hasset.symm, ?_⟩, ?_⟩
  · rw [← Except.ok.inj hle, Bool.not_eq_true', ← Except.ok.inj hlt, decide_eq_false_iff_not] at hle'
    exact not_lt.1 hle'
  · rw [← Except.ok.inj h]
    rfl

/-- What the evaluators check before terms are admitted. -/
structure TermsOk (s : WithdrawState) (t : WithdrawTerms) : Prop where
  limit : 0 < t.withdrawalLimit.amount
  period : 0 < t.withdrawalPeriodSec.toNat
  start : s.headBlockTime.toNat ≤ t.periodStartTime.toNat

theorem createPermission_eq_ok {op : WithdrawPermissionCreate} (h : s.createPermission op = .ok s') :
    TermsOk s op.terms ∧ op.withdrawFromAccount ≠ op.authorizedAccount ∧
      s' = { s with permissions := s.permissions.create {
        withdrawFromAccount := op.withdrawFromAccount
        authorizedAccount := op.authorizedAccount
        withdrawalLimit := op.terms.withdrawalLimit
        withdrawalPeriodSec := op.terms.withdrawalPeriodSec
        expiration := op.terms.expiration
        periodStartTime := op.terms.periodStartTime } } := by
  obtain ⟨_, hvalidate, h⟩ := Except.bind_eq_ok.1 h
  obtain ⟨-, hvalidate⟩ := of_fcAssert_bind hvalidate
  obtain ⟨hne, hvalidate⟩ := of_fcAssert_bind hvalidate
  obtain ⟨hlimit, hvalidate⟩ := of_fcAssert_bind hvalidate
  obtain ⟨hperiod, -⟩ := of_fcAssert_bind hvalidate
  obtain ⟨-, h⟩ := of_fcAssert_bind h
  obtain ⟨-, h⟩ := of_fcAssert_bind h
  obtain ⟨-, h⟩ := of_fcAssert_bind h
  obtain ⟨hstart, h⟩ := of_fcAssert_bind h
  obtain ⟨_, -, h⟩ := Except.bind_eq_ok.1 h
  refine ⟨⟨hlimit, UInt32.lt_iff_toNat_lt.1 hperiod, ?_⟩, hne, (Except.ok.inj h).symm⟩
  exact (UInt32.lt_iff_toNat_lt.1 hstart).le

theorem updatePermission_eq_ok {op : WithdrawPermissionUpdate} (h : s.updatePermission op = .ok s') :
    ∃ permit, s.permissions.find? op.permissionToUpdate = some permit ∧ TermsOk s op.terms ∧
      permit.withdrawFromAccount ≠ permit.authorizedAccount ∧
      s' = { s with
        permissions := s.permissions.modify op.permissionToUpdate (applyTerms op.terms) } := by
  obtain ⟨_, hvalidate, h⟩ := Except.bind_eq_ok.1 h
  obtain ⟨-, hvalidate⟩ := of_fcAssert_bind hvalidate
  obtain ⟨hne, hvalidate⟩ := of_fcAssert_bind hvalidate
  obtain ⟨hlimit, hvalidate⟩ := of_fcAssert_bind hvalidate
  obtain ⟨hperiod, -⟩ := of_fcAssert_bind hvalidate
  obtain ⟨permit, hpermit, h⟩ := Except.bind_eq_ok.1 h
  obtain ⟨hauthorized, h⟩ := of_fcAssert_bind h
  obtain ⟨hfrom, h⟩ := of_fcAssert_bind h
  obtain ⟨-, h⟩ := of_fcAssert_bind h
  obtain ⟨hstart, h⟩ := of_fcAssert_bind h
  obtain ⟨_, -, h⟩ := Except.bind_eq_ok.1 h
  refine ⟨permit, orUnableToFind_eq_ok.1 hpermit,
    ⟨hlimit, UInt32.lt_iff_toNat_lt.1 hperiod, UInt32.le_iff_toNat_le.1 hstart⟩, ?_,
    (Except.ok.inj h).symm⟩
  rw [hfrom, hauthorized]
  exact hne

theorem deletePermission_eq_ok {op : WithdrawPermissionDelete} (h : s.deletePermission op = .ok s') :
    s' = { s with permissions := s.permissions.remove op.withdrawalPermission } := by
  obtain ⟨-, h⟩ := of_fcAssert_bind h
  obtain ⟨-, h⟩ := of_fcAssert_bind h
  obtain ⟨permit, -, h⟩ := Except.bind_eq_ok.1 h
  obtain ⟨-, h⟩ := of_fcAssert_bind h
  obtain ⟨-, h⟩ := of_fcAssert_bind h
  exact (Except.ok.inj h).symm

/-! ### One event -/

/-- The event updates a permission. -/
def Event.Updates (id : ℕ) : Event → Prop
  | .update op => op.permissionToUpdate = id
  | _ => False

/-- The claims on one permission. -/
def claimsOn (id : ℕ) (claims : List PaidClaim) : List PaidClaim :=
  claims.filter fun c ↦ c.permission = id

theorem find?_foldl_remove {α : Type} (l : List (ℕ × α)) (x : ObjectIndex α) (i : ℕ) :
    (l.foldl (fun x p ↦ x.remove p.1) x).find? i =
      if i ∈ l.map Prod.fst then none else x.find? i := by
  induction l generalizing x with
  | nil => rfl
  | cons p l ih =>
    rw [List.foldl_cons, ih, ObjectIndex.find?_remove, List.map_cons]
    by_cases hi : i ∈ l.map Prod.fst
    · rw [if_pos hi, if_pos (List.mem_cons_of_mem _ hi)]
    · by_cases hp : i = p.1
      · rw [if_neg hi, if_pos hp, if_pos (hp ▸ List.mem_cons_self)]
      · rw [if_neg hi, if_neg hp, if_neg fun hmem ↦ (List.mem_cons.1 hmem).elim hp hi]

theorem nextId_foldl_remove {α : Type} (l : List (ℕ × α)) (x : ObjectIndex α) :
    (l.foldl (fun x p ↦ x.remove p.1) x).nextId = x.nextId := by
  induction l generalizing x with
  | nil => rfl
  | cons p l ih => rw [List.foldl_cons, ih, ObjectIndex.nextId_remove]

/-- The end of a block removes exactly the expired permissions. -/
theorem find?_updateWithdrawPermissions (s : WithdrawState) (i : ℕ) :
    s.updateWithdrawPermissions.permissions.find? i =
      (s.permissions.find? i).filter fun p ↦ s.headBlockTime < p.expiration := by
  unfold updateWithdrawPermissions
  rw [find?_foldl_remove]
  have hmem : i ∈ (s.permissions.toList.filter fun p ↦ p.2.expiration ≤ s.headBlockTime).map Prod.fst ↔
      ∃ p, s.permissions.find? i = some p ∧ p.expiration ≤ s.headBlockTime := by
    simp only [List.mem_map, List.mem_filter, decide_eq_true_eq, Prod.exists, exists_and_right,
      exists_eq_right, ObjectIndex.find?_eq_some_iff]
  rcases hfind : s.permissions.find? i with - | p
  · rw [ite_self]
    rfl
  · by_cases hexpired : p.expiration ≤ s.headBlockTime
    · rw [if_pos (hmem.2 ⟨p, hfind, hexpired⟩), Option.filter_some_neg]
      simpa using hexpired
    · rw [if_neg, Option.filter_some_pos]
      · simpa using hexpired
      · intro hi
        obtain ⟨q, hq, hle⟩ := hmem.1 hi
        obtain rfl := Option.some.inj (hfind.symm.trans hq)
        exact hexpired hle

theorem nextId_le_step (s : WithdrawState) (e : Event) :
    s.permissions.nextId ≤ (s.step e).permissions.nextId := by
  cases e with
  | block surroundings =>
    rw [step]
    split_ifs
    · exact (nextId_foldl_remove _ _).ge
    · exact le_rfl
  | create op =>
    rw [step]
    rcases hs : s.createPermission op with e | s'
    · exact le_rfl
    · obtain ⟨-, -, rfl⟩ := createPermission_eq_ok hs
      exact Nat.le_succ _
  | claim op =>
    rw [step]
    rcases hs : s.claimPermission op with e | s'
    · exact le_rfl
    · obtain ⟨permit, -, -, hs'⟩ := claimPermission_eq_ok hs
      rw [orUnchanged, hs', ObjectIndex.nextId_modify]
  | update op =>
    rw [step]
    rcases hs : s.updatePermission op with e | s'
    · exact le_rfl
    · obtain ⟨permit, -, -, -, rfl⟩ := updatePermission_eq_ok hs
      exact le_rfl
  | delete op =>
    rw [step]
    rcases hs : s.deletePermission op with e | s'
    · exact le_rfl
    · obtain rfl := deletePermission_eq_ok hs
      exact le_rfl

/-- **What an event does to a permission** that it does not update: nothing, or the permission goes, or a
claim on it is paid. -/
inductive PermissionStep (s : WithdrawState) (id : ℕ) (p : WithdrawPermissionObject) (e : Event) : Prop
  | kept (hfind : (s.step e).permissions.find? id = some p) (hpaid : claimsOn id (s.paid e) = [])
  | gone (hfind : (s.step e).permissions.find? id = none) (hpaid : claimsOn id (s.paid e) = [])
  | claimed (op : WithdrawPermissionClaim) (hok : ClaimOk s op p)
      (hfind : (s.step e).permissions.find? id =
        some (recordClaim s.headBlockTime op.amountToWithdraw.amount p))
      (hpaid : claimsOn id (s.paid e) = [⟨id, s.headBlockTime, op.amountToWithdraw⟩])

theorem permissionStep {p : WithdrawPermissionObject} (hp : s.permissions.find? id = some p) {e : Event}
    (he : ¬e.Updates id) : PermissionStep s id p e := by
  cases e with
  | block surroundings =>
    have hcases : (s.step (.block surroundings)).permissions.find? id = some p ∨
        (s.step (.block surroundings)).permissions.find? id = none := by
      rw [step]
      split_ifs
      · rw [find?_updateWithdrawPermissions]
        dsimp only
        rw [hp]
        by_cases hexpired : surroundings.headBlockTime < p.expiration
        · exact .inl (Option.filter_some_pos (by simpa using hexpired))
        · exact .inr (Option.filter_some_neg (by simpa using hexpired))
      · exact .inl hp
    rcases hcases with h | h
    · exact .kept h rfl
    · exact .gone h rfl
  | create op =>
    refine .kept ?_ rfl
    rw [step]
    rcases hs : s.createPermission op with e | s'
    · exact hp
    · obtain ⟨-, -, rfl⟩ := createPermission_eq_ok hs
      exact ObjectIndex.find?_create_of_some hp _
  | claim op =>
    -- a claim that is refused pays nothing
    rcases hs : s.claimPermission op with e | s'
    · refine .kept ?_ ?_
      · rw [step, hs]
        exact hp
      · rw [paid, hs]
        rfl
    · obtain ⟨permit, hpermit, hok, hs'⟩ := claimPermission_eq_ok hs
      have hstep : (s.step (.claim op)).permissions = s.permissions.modify op.withdrawPermission
          (recordClaim s.headBlockTime op.amountToWithdraw.amount) := by
        rw [step, hs]
        exact hs'
      by_cases hid : op.withdrawPermission = id
      · subst hid
        obtain rfl := Option.some.inj (hp.symm.trans hpermit)
        refine .claimed op hok ?_ ?_
        · rw [hstep, ObjectIndex.find?_modify, if_pos rfl, hp]
          rfl
        · rw [paid, hs]
          exact List.filter_cons_of_pos (decide_eq_true rfl)
      · refine .kept ?_ ?_
        · rw [hstep, ObjectIndex.find?_modify_of_ne _ _ (Ne.symm hid)]
          exact hp
        · rw [paid, hs]
          exact List.filter_cons_of_neg (by simpa using hid)
  | update op =>
    refine .kept ?_ rfl
    rw [step]
    rcases hs : s.updatePermission op with e | s'
    · exact hp
    · obtain ⟨permit, -, -, -, rfl⟩ := updatePermission_eq_ok hs
      exact (ObjectIndex.find?_modify_of_ne _ _ fun h ↦ he h.symm).trans hp
  | delete op =>
    rcases hs : s.deletePermission op with e | s'
    · refine .kept ?_ rfl
      rw [step, hs]
      exact hp
    · obtain rfl := deletePermission_eq_ok hs
      have hstep : (s.step (.delete op)).permissions = s.permissions.remove op.withdrawalPermission := by
        rw [step, hs]
        rfl
      by_cases hid : id = op.withdrawalPermission
      · refine .gone ?_ rfl
        rw [hstep, ObjectIndex.find?_remove, if_pos hid]
      · refine .kept ?_ rfl
        rw [hstep, ObjectIndex.find?_remove_of_ne _ hid]
        exact hp

/-- A permission that is gone does not come back, unless its id is the next to be used, and pays
nothing. -/
theorem permissionStep_of_none (hp : s.permissions.find? id = none) (e : Event)
    (hid : ∀ op, e = .create op → id ≠ s.permissions.nextId) :
    (s.step e).permissions.find? id = none ∧ claimsOn id (s.paid e) = [] := by
  cases e with
  | block surroundings =>
    refine ⟨?_, rfl⟩
    rw [step]
    split_ifs
    · rw [find?_updateWithdrawPermissions]
      dsimp only
      rw [hp]
      rfl
    · exact hp
  | create op =>
    refine ⟨?_, rfl⟩
    rw [step]
    rcases hs : s.createPermission op with e | s'
    · exact hp
    · obtain ⟨-, -, rfl⟩ := createPermission_eq_ok hs
      exact (ObjectIndex.find?_create _ _ _).trans (by rw [if_neg (hid op rfl), hp])
  | claim op =>
    rcases hs : s.claimPermission op with e | s'
    · rw [step, paid, hs]
      exact ⟨hp, rfl⟩
    · obtain ⟨permit, hpermit, -, hs'⟩ := claimPermission_eq_ok hs
      have hne : id ≠ op.withdrawPermission := by
        rintro rfl
        rw [hp] at hpermit
        cases hpermit
      rw [step, paid, hs]
      refine ⟨?_, List.filter_cons_of_neg (by simpa using hne.symm)⟩
      rw [orUnchanged, hs', ObjectIndex.find?_modify_of_ne _ _ hne]
      exact hp
  | update op =>
    refine ⟨?_, rfl⟩
    rw [step]
    rcases hs : s.updatePermission op with e | s'
    · exact hp
    · obtain ⟨permit, -, -, -, rfl⟩ := updatePermission_eq_ok hs
      refine (ObjectIndex.find?_modify _ _ _ _).trans ?_
      rw [hp, Option.map_none, ite_self]
  | delete op =>
    refine ⟨?_, rfl⟩
    rw [step]
    rcases hs : s.deletePermission op with e | s'
    · exact hp
    · obtain rfl := deletePermission_eq_ok hs
      refine (ObjectIndex.find?_remove _ _ _).trans ?_
      rw [hp, ite_self]

/-! ### The record of the current period -/

/-- **The record of a permission**: it shows the start of a period of the terms, no less than what was
claimed in that period, and nothing was claimed later. -/
structure Records (t : WithdrawTerms) (p : WithdrawPermissionObject) (claims : List PaidClaim) (j : ℕ) :
    Prop where
  limit : p.withdrawalLimit = t.withdrawalLimit
  period : p.withdrawalPeriodSec = t.withdrawalPeriodSec
  expiration : p.expiration = t.expiration
  start : p.periodStartTime.toNat = t.periodStartTime.toNat + j * t.withdrawalPeriodSec.toNat
  nonneg : 0 ≤ p.claimedThisPeriod
  claimed : t.claimedIn j claims ≤ p.claimedThisPeriod
  later : ∀ k, j < k → t.claimedIn k claims = 0

section Record

variable {t : WithdrawTerms} {p : WithdrawPermissionObject} {claims : List PaidClaim} {j : ℕ}
  {op : WithdrawPermissionClaim}

/-- Never more than the limit is available. -/
theorem available_le_limit (h : Records t p claims j) (hlimit : 0 < t.withdrawalLimit.amount)
    (time : UInt32) : (p.availableThisPeriod time).amount ≤ t.withdrawalLimit.amount := by
  have hnonneg := h.nonneg
  unfold WithdrawPermissionObject.availableThisPeriod
  rw [h.limit]
  split_ifs
  · exact le_rfl
  · dsimp only
    omega
  · exact hlimit.le

/-- In a period that ends below `2 ^ 32`, what is left of the limit is available. -/
theorem claimed_add_le_limit (h : Records t p claims j) (hok : ClaimOk s op p)
    (hin : t.InPeriod j s.headBlockTime)
    (hrange : t.periodStartTime.toNat + (j + 1) * t.withdrawalPeriodSec.toNat < 2 ^ 32) :
    p.claimedThisPeriod + op.amountToWithdraw.amount ≤ t.withdrawalLimit.amount := by
  have hend : (p.periodStartTime + p.withdrawalPeriodSec).toNat =
      t.periodStartTime.toNat + (j + 1) * t.withdrawalPeriodSec.toNat := by
    rw [Nat.add_mul, Nat.one_mul] at hrange ⊢
    rw [UInt32.toNat_add, h.start, h.period, Nat.mod_eq_of_lt (by omega), Nat.add_assoc]
  have havailable := hok.available
  have hpos := hok.pos
  have hnot : ¬p.periodStartTime + p.withdrawalPeriodSec ≤ s.headBlockTime := by
    rw [UInt32.le_iff_toNat_le, hend]
    exact not_le.2 hin.2
  unfold WithdrawPermissionObject.availableThisPeriod at havailable
  rw [if_neg hnot, h.limit] at havailable
  dsimp only at havailable
  split_ifs at havailable
  · omega
  · omega

/-- The number of periods since the recorded one, and the period of the claim. -/
theorem inPeriod_of_claimOk (h : Records t p claims j) (hperiod : 0 < t.withdrawalPeriodSec.toNat)
    (hok : ClaimOk s op p) :
    t.InPeriod (j + (s.headBlockTime.toNat - p.periodStartTime.toNat) / p.withdrawalPeriodSec.toNat)
      s.headBlockTime := by
  have hstarted := UInt32.le_iff_toNat_le.1 hok.started
  have hstart := h.start
  rw [h.period]
  have hdiv := Nat.div_add_mod (s.headBlockTime.toNat - p.periodStartTime.toNat)
    t.withdrawalPeriodSec.toNat
  have hmod := Nat.mod_lt (s.headBlockTime.toNat - p.periodStartTime.toNat) hperiod
  generalize (s.headBlockTime.toNat - p.periodStartTime.toNat) / t.withdrawalPeriodSec.toNat = q
    at hdiv ⊢
  rw [Nat.mul_comm] at hdiv
  constructor
  · rw [Nat.add_mul]
    omega
  · rw [Nat.add_mul, Nat.add_mul, Nat.one_mul]
    omega

/-- A claim is recorded at its period. -/
theorem Records.claim (h : Records t p claims j) (id : ℕ) (hperiod : 0 < t.withdrawalPeriodSec.toNat)
    (hok : ClaimOk s op p) :
    ∃ k, t.InPeriod k s.headBlockTime ∧ j ≤ k ∧
      Records t (recordClaim s.headBlockTime op.amountToWithdraw.amount p)
        (claims ++ [⟨id, s.headBlockTime, op.amountToWithdraw⟩]) k := by
  have hin := inPeriod_of_claimOk h hperiod hok
  have hpos := hok.pos
  have hnonneg := h.nonneg
  refine ⟨_, hin, Nat.le_add_right _ _, h.limit, h.period, h.expiration, ?_, ?_, ?_, ?_⟩
  -- the recorded start is that of the period of the claim
  · have hle := Nat.div_mul_le_self (s.headBlockTime.toNat - p.periodStartTime.toNat)
      p.withdrawalPeriodSec.toNat
    have hstarted := UInt32.le_iff_toNat_le.1 hok.started
    have htime := s.headBlockTime.toNat_lt
    have hstart := h.start
    have hsec := h.period
    unfold recordClaim
    dsimp only
    generalize (s.headBlockTime.toNat - p.periodStartTime.toNat) / p.withdrawalPeriodSec.toNat = q
      at hle ⊢
    rw [UInt32.toNat_add, UInt32.toNat_ofNat', Nat.add_mod_mod, Nat.mod_eq_of_lt (by omega), hstart,
      hsec, Nat.add_mul, Nat.add_assoc]
  · unfold recordClaim
    dsimp only
    split_ifs <;> omega
  · rw [t.claimedIn_append, t.claimedIn_singleton, if_pos hin]
    unfold recordClaim
    dsimp only
    -- in a new period the count starts again
    split_ifs with hzero
    · rw [hzero, Nat.add_zero]
      have := h.claimed
      omega
    · rw [h.later _ (Nat.lt_add_of_pos_right (Nat.pos_of_ne_zero hzero)), zero_add]
  · intro k hk
    rw [t.claimedIn_append, t.claimedIn_singleton, h.later k ((Nat.le_add_right _ _).trans_lt hk),
      if_neg, zero_add]
    intro hin'
    exact hk.ne (hin.unique hin')

/-- **A claim keeps the limit**, if the permission expires in range. -/
theorem limitKept_claim (hkept : t.LimitKept claims) (h : Records t p claims j)
    (hlimit : 0 < t.withdrawalLimit.amount) (hperiod : 0 < t.withdrawalPeriodSec.toNat)
    (hrange : t.EndsInRange) (hok : ClaimOk s op p) :
    t.LimitKept (claims ++ [⟨id, s.headBlockTime, op.amountToWithdraw⟩]) := by
  obtain ⟨k, hin, hjk, hrecords⟩ := h.claim id hperiod hok
  have hunexpired := UInt32.lt_iff_toNat_lt.1 hok.unexpired
  rw [h.expiration] at hunexpired
  have hstarted := UInt32.le_iff_toNat_le.1 hok.started
  have hstart := h.start
  constructor
  · intro i
    by_cases hi : i = k
    · subst hi
      rw [t.claimedIn_append, t.claimedIn_singleton, if_pos hin]
      dsimp only
      rcases hjk.eq_or_lt with rfl | hlt
      -- the period ends in range, because a later one begins in range
      · have hlast : (j + 1) * t.withdrawalPeriodSec.toNat ≤
            t.periodsInRange * t.withdrawalPeriodSec.toNat := by
          refine Nat.mul_le_mul_right _ ?_
          by_contra hcon
          have hmul := Nat.mul_le_mul_right t.withdrawalPeriodSec.toNat
            (Nat.le_of_lt_succ (not_le.1 hcon))
          have := hin.1
          have : t.expiration.toNat ≤ _ := hrange
          omega
        have hdiv := Nat.div_mul_le_self (2 ^ 32 - 1 - t.periodStartTime.toNat)
          t.withdrawalPeriodSec.toNat
        have htime := t.periodStartTime.toNat_lt
        have hadd := claimed_add_le_limit h hok hin (by unfold WithdrawTerms.periodsInRange at hlast; omega)
        have := h.claimed
        omega
      · rw [h.later i hlt, zero_add]
        exact hok.available.trans (available_le_limit h hlimit _)
    · rw [t.claimedIn_append, t.claimedIn_singleton, if_neg, add_zero]
      · exact hkept.limit i
      · intro hin'
        exact hi (hin'.unique hin)
  · intro c hc
    rcases List.mem_append.1 hc with hc | hc
    · exact hkept.asset c hc
    · rw [List.mem_singleton.1 hc, ← h.limit]
      exact hok.asset
  · intro c hc
    rcases List.mem_append.1 hc with hc | hc
    · exact hkept.started c hc
    · rw [List.mem_singleton.1 hc]
      dsimp only
      omega
  · intro c hc
    rcases List.mem_append.1 hc with hc | hc
    · exact hkept.unexpired c hc
    · rw [List.mem_singleton.1 hc]
      exact hunexpired.trans_le t.expiration_le

end Record

/-! ### Runs -/

/-- The invariant of a run after the permission was created or updated: the limit has been kept, and the
permission, while it exists, records the current period. -/
structure Kept (t : WithdrawTerms) (id : ℕ) (s : WithdrawState) (claims : List PaidClaim) : Prop where
  used : id < s.permissions.nextId
  kept : t.LimitKept claims
  records : ∀ p, s.permissions.find? id = some p → ∃ j, Records t p claims j

theorem Kept.step {t : WithdrawTerms} {claims : List PaidClaim} (h : Kept t id s claims)
    (hlimit : 0 < t.withdrawalLimit.amount) (hperiod : 0 < t.withdrawalPeriodSec.toNat)
    (hrange : t.EndsInRange) {e : Event} (he : ¬e.Updates id) :
    Kept t id (s.step e) (claims ++ claimsOn id (s.paid e)) := by
  have hused := h.used.trans_le (s.nextId_le_step e)
  rcases hp : s.permissions.find? id with - | p
  · obtain ⟨hfind, hpaid⟩ := permissionStep_of_none hp e fun _ _ ↦ h.used.ne
    rw [hpaid, List.append_nil]
    exact ⟨hused, h.kept, fun p hp ↦ by rw [hfind] at hp; cases hp⟩
  · obtain ⟨j, hrecords⟩ := h.records p hp
    cases permissionStep hp he with
    | kept hfind hpaid =>
      rw [hpaid, List.append_nil]
      refine ⟨hused, h.kept, fun q hq ↦ ⟨j, ?_⟩⟩
      rwa [← Option.some.inj (hfind.symm.trans hq)]
    | gone hfind hpaid =>
      rw [hpaid, List.append_nil]
      exact ⟨hused, h.kept, fun p hp ↦ by rw [hfind] at hp; cases hp⟩
    | claimed op hok hfind hpaid =>
      rw [hpaid]
      refine ⟨hused, limitKept_claim h.kept hrecords hlimit hperiod hrange hok, fun q hq ↦ ?_⟩
      obtain ⟨k, -, -, hrecords'⟩ := hrecords.claim id hperiod hok
      exact ⟨k, Option.some.inj (hfind.symm.trans hq) ▸ hrecords'⟩

theorem Kept.run {t : WithdrawTerms} {claims : List PaidClaim} (h : Kept t id s claims)
    (hlimit : 0 < t.withdrawalLimit.amount) (hperiod : 0 < t.withdrawalPeriodSec.toNat)
    (hrange : t.EndsInRange) {events : List Event} (hevents : ∀ e ∈ events, ¬e.Updates id) :
    Kept t id (s.run events) (claims ++ claimsOn id (s.trace events)) := by
  induction events generalizing s claims with
  | nil => simpa [run, trace, claimsOn] using h
  | cons e events ih =>
    have hstep := h.step hlimit hperiod hrange (hevents e List.mem_cons_self)
    have hrest := ih hstep fun e' he' ↦ hevents e' (List.mem_cons_of_mem _ he')
    rw [List.append_assoc] at hrest
    rwa [trace, claimsOn, List.filter_append]

/-- A permission was created, or updated, with some terms. -/
inductive Admits (s : WithdrawState) : ℕ → WithdrawTerms → WithdrawState → Prop
  | create {op : WithdrawPermissionCreate} {s' : WithdrawState} (h : s.createPermission op = .ok s') :
    Admits s s.permissions.nextId op.terms s'
  | update {op : WithdrawPermissionUpdate} {s' : WithdrawState} (h : s.updatePermission op = .ok s') :
    Admits s op.permissionToUpdate op.terms s'

/-- The states of a chain that starts without permissions. -/
def Reachable (s : WithdrawState) : Prop :=
  ∃ (surroundings : WithdrawSurroundings) (events : List Event),
    s = run { surroundings with permissions := ∅ } events

/-- Nobody has claimed less than nothing. -/
def ClaimedNonneg (s : WithdrawState) : Prop :=
  ∀ id p, s.permissions.find? id = some p → 0 ≤ p.claimedThisPeriod

theorem ClaimedNonneg.step (h : ClaimedNonneg s) (e : Event) : ClaimedNonneg (s.step e) := by
  intro id q hq
  -- all but a creation and an update are the cases of `PermissionStep`
  have hother (hcreate : ∀ op, e ≠ .create op) (hupdate : ¬e.Updates id) : 0 ≤ q.claimedThisPeriod := by
    rcases hp : s.permissions.find? id with - | p
    · rw [(permissionStep_of_none hp e fun op he ↦ absurd he (hcreate op)).1] at hq
      cases hq
    · cases permissionStep hp hupdate with
      | kept hfind _ => exact Option.some.inj (hfind.symm.trans hq) ▸ h id p hp
      | gone hfind _ =>
        rw [hfind] at hq
        cases hq
      | claimed op hok hfind _ =>
        rw [← Option.some.inj (hfind.symm.trans hq)]
        have := h id p hp
        have := hok.pos
        unfold recordClaim
        dsimp only
        split_ifs <;> omega
  cases e with
  | create op =>
    rw [WithdrawState.step] at hq
    rcases hs : s.createPermission op with e | s'
    · rw [hs] at hq
      exact h id q hq
    · obtain ⟨-, -, rfl⟩ := createPermission_eq_ok hs
      rw [hs] at hq
      have hfind := (ObjectIndex.find?_create _ _ _).symm.trans hq
      split_ifs at hfind
      · rw [← Option.some.inj hfind]
      · exact h id q hfind
  | update op =>
    rw [WithdrawState.step] at hq
    rcases hs : s.updatePermission op with e | s'
    · rw [hs] at hq
      exact h id q hq
    · obtain ⟨permit, -, -, -, rfl⟩ := updatePermission_eq_ok hs
      rw [hs] at hq
      have hfind := (ObjectIndex.find?_modify _ _ _ _).symm.trans hq
      split_ifs at hfind
      · obtain ⟨p, hp, rfl⟩ := Option.map_eq_some_iff.1 hfind
        exact h id p hp
      · exact h id q hfind
  | block surroundings => exact hother (fun _ h ↦ by cases h) fun h ↦ h
  | claim op => exact hother (fun _ h ↦ by cases h) fun h ↦ h
  | delete op => exact hother (fun _ h ↦ by cases h) fun h ↦ h

theorem Reachable.claimedNonneg (h : Reachable s) : ClaimedNonneg s := by
  obtain ⟨surroundings, events, rfl⟩ := h
  have hrun : ∀ (events : List Event) (s : WithdrawState), ClaimedNonneg s →
      ClaimedNonneg (s.run events) := by
    intro events
    induction events with
    | nil => exact fun s hs ↦ hs
    | cons e events ih => exact fun s hs ↦ ih _ (hs.step e)
  exact hrun events _ fun id p hp ↦ by cases hp

/-- What is known about a permission right after its terms were admitted. -/
theorem Admits.spec {t : WithdrawTerms} (h : Admits s id t s') (hs : ClaimedNonneg s) :
    TermsOk s t ∧ s'.headBlockTime = s.headBlockTime ∧ id < s'.permissions.nextId ∧
      ∃ p, s'.permissions.find? id = some p ∧ Records t p [] 0 ∧
        p.withdrawFromAccount ≠ p.authorizedAccount := by
  cases h with
  | create h =>
    obtain ⟨hterms, hne, rfl⟩ := createPermission_eq_ok h
    refine ⟨hterms, rfl, Nat.lt_succ_self _, _,
      (ObjectIndex.find?_create _ _ _).trans (if_pos rfl), ?_, hne⟩
    exact ⟨rfl, rfl, rfl, by simp, le_rfl, le_rfl, fun _ _ ↦ rfl⟩
  | @update op _ h =>
    obtain ⟨permit, hpermit, hterms, hne, rfl⟩ := updatePermission_eq_ok h
    refine ⟨hterms, rfl, (ObjectIndex.lt_nextId_of_find? hpermit : _ < s.permissions.nextId),
      applyTerms op.terms permit,
      (ObjectIndex.find?_modify _ _ _ _).trans (by rw [if_pos rfl, hpermit]; rfl), ?_, hne⟩
    exact ⟨rfl, rfl, rfl, by simp [applyTerms], hs _ permit hpermit, hs _ permit hpermit,
      fun _ _ ↦ rfl⟩

/-! ### The period that reaches beyond the range -/

/-- Nothing but the permission stands in the way of a claim of an amount. -/
structure Unrestricted (s : WithdrawState) (p : WithdrawPermissionObject) (amount : Asset) : Prop where
  restricted : s.isTransferRestricted amount.assetId = false
  authorized : s.isAuthorizedAsset p.authorizedAccount amount.assetId = true
  authorizedFrom : s.isAuthorizedAsset p.withdrawFromAccount amount.assetId = true
  balance : amount.amount ≤ s.balances p.withdrawFromAccount amount.assetId

/-- The operation that claims an amount. -/
def claimOperation (id : ℕ) (p : WithdrawPermissionObject) (amount : Asset) : WithdrawPermissionClaim :=
  { withdrawPermission := id
    withdrawFromAccount := p.withdrawFromAccount
    withdrawToAccount := p.authorizedAccount
    amountToWithdraw := amount }

theorem evaluateClaim_of_claimOk {p : WithdrawPermissionObject} {amount : Asset}
    (hok : ClaimOk s (claimOperation id p amount) p) (hopen : Unrestricted s p amount) :
    s.evaluateClaim (claimOperation id p amount) p = .ok () := by
  have hsame : (p.availableThisPeriod s.headBlockTime).assetId = amount.assetId := by
    rw [availableThisPeriod_assetId]
    exact hok.asset.symm
  have hle : amount.le (p.availableThisPeriod s.headBlockTime) = .ok true := by
    have hnot : ¬(p.availableThisPeriod s.headBlockTime).amount < amount.amount :=
      not_lt.2 hok.available
    rw [Asset.le, Asset.lt, Asset.sameAsset, fcAssert_of_true hsame]
    simp only [Except.ok_bind, pure_bind, decide_eq_false hnot, Bool.not_false]
    rfl
  refine Except.bind_eq_ok.2 ⟨(), fcAssert_of_true hok.unexpired, ?_⟩
  refine Except.bind_eq_ok.2 ⟨(), fcAssert_of_true rfl, ?_⟩
  refine Except.bind_eq_ok.2 ⟨(), fcAssert_of_true rfl, ?_⟩
  refine Except.bind_eq_ok.2 ⟨(), fcAssert_of_true hok.started, ?_⟩
  refine Except.bind_eq_ok.2 ⟨true, hle, ?_⟩
  refine Except.bind_eq_ok.2 ⟨(), fcAssert_of_true rfl, ?_⟩
  refine Except.bind_eq_ok.2 ⟨(), fcAssert_of_true hopen.balance, ?_⟩
  refine Except.bind_eq_ok.2 ⟨(), fcAssert_of_true (.inl hopen.restricted), ?_⟩
  refine Except.bind_eq_ok.2 ⟨(), fcAssert_of_true hopen.authorized, ?_⟩
  exact fcAssert_of_true hopen.authorizedFrom

/-- An unrestricted claim that the permission admits is paid. -/
theorem claimPermission_of_claimOk {p : WithdrawPermissionObject} {amount : Asset}
    (hp : s.permissions.find? id = some p) (hne : p.withdrawFromAccount ≠ p.authorizedAccount)
    (hok : ClaimOk s (claimOperation id p amount) p) (hopen : Unrestricted s p amount) :
    ∃ s', s.claimPermission (claimOperation id p amount) = .ok s' ∧
      s'.headBlockTime = s.headBlockTime ∧
      s'.permissions.find? id = some (recordClaim s.headBlockTime amount.amount p) ∧
      (2 * amount.amount ≤ s.balances p.withdrawFromAccount amount.assetId →
        Unrestricted s' p amount) := by
  have hclaim : s.claimPermission (claimOperation id p amount) =
      .ok (({ s with permissions := s.permissions.modify id (recordClaim s.headBlockTime amount.amount) } :
        WithdrawState).adjustBalance p.withdrawFromAccount (-amount)
          |>.adjustBalance p.authorizedAccount amount) := by
    refine Except.bind_eq_ok.2 ⟨(), fcAssert_of_true hne.symm, ?_⟩
    refine Except.bind_eq_ok.2 ⟨(), fcAssert_of_true hok.pos, ?_⟩
    refine Except.bind_eq_ok.2 ⟨(), fcAssert_of_true le_rfl, ?_⟩
    refine Except.bind_eq_ok.2 ⟨p, orUnableToFind_eq_ok.2 hp, ?_⟩
    exact Except.bind_eq_ok.2 ⟨(), evaluateClaim_of_claimOk hok hopen, rfl⟩
  refine ⟨_, hclaim, rfl, ?_, fun hbalance ↦
    ⟨hopen.restricted, hopen.authorized, hopen.authorizedFrom, ?_⟩⟩
  · refine (ObjectIndex.find?_modify _ _ _ _).trans ?_
    rw [if_pos rfl, hp]
    rfl
  · have hassetId : (-amount).assetId = amount.assetId := rfl
    have hneg : (-amount).amount = -amount.amount := rfl
    simp only [adjustBalance, hne, false_and, if_false, hassetId, hneg, and_self, if_true]
    omega

/-- A block in which every account has enough of everything. -/
def openSurroundings (time : UInt32) (balance : ℤ) : WithdrawSurroundings where
  headBlockTime := time
  accountExists _ := true
  assetExists _ := true
  isTransferRestricted _ := false
  issuer _ := 0
  isAuthorizedAsset _ _ := true
  balances _ _ := balance

/-- The start of the last period that begins below `2 ^ 32`. -/
def lastStart (t : WithdrawTerms) : UInt32 :=
  UInt32.ofNat (t.periodStartTime.toNat + t.periodsInRange * t.withdrawalPeriodSec.toNat)

section Last

variable {t : WithdrawTerms} {p : WithdrawPermissionObject} {claims : List PaidClaim} {j : ℕ}

theorem toNat_lastStart (t : WithdrawTerms) : (lastStart t).toNat =
    t.periodStartTime.toNat + t.periodsInRange * t.withdrawalPeriodSec.toNat := by
  have hle := Nat.div_mul_le_self (2 ^ 32 - 1 - t.periodStartTime.toNat) t.withdrawalPeriodSec.toNat
  have htime := t.periodStartTime.toNat_lt
  rw [lastStart, UInt32.toNat_ofNat', Nat.mod_eq_of_lt]
  unfold WithdrawTerms.periodsInRange
  omega

theorem inPeriod_lastStart (hperiod : 0 < t.withdrawalPeriodSec.toNat) :
    t.InPeriod t.periodsInRange (lastStart t) := by
  rw [WithdrawTerms.InPeriod, toNat_lastStart, Nat.add_mul, Nat.one_mul]
  omega

/-- At the start of the last period the whole limit is available, whatever has been claimed in it: the end
of that period wraps. -/
theorem available_lastStart (h : Records t p claims j) (hperiod : 0 < t.withdrawalPeriodSec.toNat)
    (hj : j ≤ t.periodsInRange) :
    (p.availableThisPeriod (lastStart t)).amount = t.withdrawalLimit.amount := by
  have hend : p.periodStartTime + p.withdrawalPeriodSec ≤ lastStart t := by
    have hlt := (lastStart t).toNat_lt
    have hsec := t.withdrawalPeriodSec.toNat_lt
    have hbeyond : 2 ^ 32 ≤ (lastStart t).toNat + t.withdrawalPeriodSec.toNat := by
      have hdiv := Nat.lt_div_mul_add (a := 2 ^ 32 - 1 - t.periodStartTime.toNat) hperiod
      rw [toNat_lastStart]
      unfold WithdrawTerms.periodsInRange
      omega
    rw [UInt32.le_iff_toNat_le, UInt32.toNat_add, h.start, h.period]
    rcases hj.eq_or_lt with rfl | hlt'
    · rw [← toNat_lastStart]
      omega
    · have hmul := Nat.mul_le_mul_right t.withdrawalPeriodSec.toNat (Nat.succ_le_of_lt hlt')
      rw [Nat.succ_eq_add_one, Nat.add_mul, Nat.one_mul] at hmul
      rw [toNat_lastStart] at hlt ⊢
      rw [Nat.mod_eq_of_lt (by omega)]
      omega
  unfold WithdrawPermissionObject.availableThisPeriod
  rw [if_pos hend, h.limit]

/-- A claim of the whole limit in the last period is admitted. -/
theorem claimOk_lastStart (id : ℕ) (h : Records t p claims j) (hlimit : 0 < t.withdrawalLimit.amount)
    (hperiod : 0 < t.withdrawalPeriodSec.toNat) (hrange : ¬t.EndsInRange) (hj : j ≤ t.periodsInRange)
    (htime : s.headBlockTime = lastStart t) :
    ClaimOk s (claimOperation id p t.withdrawalLimit) p := by
  constructor
  · exact hlimit
  · rw [UInt32.lt_iff_toNat_lt, htime, toNat_lastStart, h.expiration]
    exact not_le.1 hrange
  · rw [UInt32.le_iff_toNat_le, htime, toNat_lastStart, h.start]
    exact Nat.add_le_add_left (Nat.mul_le_mul_right _ hj) _
  · rw [h.limit]
    rfl
  · rw [htime, available_lastStart h hperiod hj]
    exact le_rfl

end Last

/-- **The limit is lost** when a permission is alive in the period that reaches beyond the range: two claims
of the whole limit are paid in it. -/
theorem exists_exceeding {t : WithdrawTerms} (h : Admits s id t s') (hs : ClaimedNonneg s)
    (hrange : ¬t.EndsInRange) :
    ∃ events : List Event, (∀ e ∈ events, ¬e.Updates id) ∧
      t.withdrawalLimit.amount < t.claimedIn t.periodsInRange (claimsOn id (s'.trace events)) := by
  obtain ⟨hterms, hhead, -, p, hp, hrecords, hne⟩ := h.spec hs
  have hlimit := hterms.limit
  have hperiod := hterms.period
  let block : Event := .block (openSurroundings (lastStart t) (2 * t.withdrawalLimit.amount))
  let claim : Event := .claim (claimOperation id p t.withdrawalLimit)
  -- the block in which the last period begins
  have hlater : s'.headBlockTime ≤ lastStart t := by
    rw [UInt32.le_iff_toNat_le, hhead, toNat_lastStart]
    exact hterms.start.trans (Nat.le_add_right _ _)
  have hblock : s'.step block = updateWithdrawPermissions
      { openSurroundings (lastStart t) (2 * t.withdrawalLimit.amount) with
        permissions := s'.permissions } := if_pos hlater
  have htime₁ : (s'.step block).headBlockTime = lastStart t := by rw [hblock]; rfl
  have hp₁ : (s'.step block).permissions.find? id = some p := by
    rw [hblock, find?_updateWithdrawPermissions]
    dsimp only
    rw [hp, Option.filter_some_pos]
    refine decide_eq_true ?_
    rw [UInt32.lt_iff_toNat_lt, hrecords.expiration]
    exact (toNat_lastStart t).trans_lt (not_le.1 hrange)
  have hopen₁ : Unrestricted (s'.step block) p t.withdrawalLimit := by
    rw [hblock]
    exact ⟨rfl, rfl, rfl, show t.withdrawalLimit.amount ≤ 2 * t.withdrawalLimit.amount by omega⟩
  -- the first claim of the whole limit
  have hok₁ := claimOk_lastStart id hrecords hlimit hperiod hrange (Nat.zero_le _) htime₁
  obtain ⟨s₂, hs₂, htime₂, hp₂, hopen₂⟩ := claimPermission_of_claimOk hp₁ hne hok₁ hopen₁
  obtain ⟨k, hin, -, hrecords₂⟩ := hrecords.claim id hperiod hok₁
  rw [htime₁] at hin hp₂ hrecords₂ htime₂
  obtain rfl := hin.unique (inPeriod_lastStart hperiod)
  have hopen₂' := hopen₂ (by rw [hblock]; exact le_rfl)
  -- the second one
  have hok₂ := claimOk_lastStart id hrecords₂ hlimit hperiod hrange le_rfl htime₂
  obtain ⟨s₃, hs₃, -⟩ := claimPermission_of_claimOk hp₂ hne hok₂
    ⟨hopen₂'.restricted, hopen₂'.authorized, hopen₂'.authorizedFrom, hopen₂'.balance⟩
  refine ⟨[block, claim, claim], ?_, ?_⟩
  · intro e he
    simp only [List.mem_cons, List.not_mem_nil, or_false] at he
    rcases he with rfl | rfl | rfl <;> exact fun h ↦ h
  · have hpaid₁ : (s'.step block).paid claim = [⟨id, lastStart t, t.withdrawalLimit⟩] := by
      simp only [paid, claim, hs₂, htime₁]
      rfl
    have hstep₂ : (s'.step block).step claim = s₂ := by
      change orUnchanged _ ((s'.step block).claimPermission _) = s₂
      rw [hs₂]
      rfl
    have hpaid₂ : s₂.paid claim = [⟨id, lastStart t, t.withdrawalLimit⟩] := by
      have hs₃' : s₂.claimPermission (claimOperation id p t.withdrawalLimit) = .ok s₃ := hs₃
      simp only [paid, claim, hs₃', htime₂]
      rfl
    have htrace : s'.trace [block, claim, claim] =
        [⟨id, lastStart t, t.withdrawalLimit⟩, ⟨id, lastStart t, t.withdrawalLimit⟩] := by
      simp only [trace, hpaid₁, hstep₂, hpaid₂]
      rfl
    have hin := inPeriod_lastStart hperiod
    rw [htrace]
    simp only [claimsOn, WithdrawTerms.claimedIn, List.filter_cons, decide_true, if_true, hin,
      List.filter_nil, List.map_cons, List.map_nil, List.sum_cons, List.sum_nil]
    omega

/-- **What a withdraw permission pays.** After a permission was created or updated, its limit is kept in every
run up to its next update, exactly if its end in 32 bits is not after the start of the last period that
begins below `2 ^ 32`. -/
theorem limitKept_iff (s : WithdrawState) (hs : Reachable s) (id : ℕ) (t : WithdrawTerms)
    (s' : WithdrawState) (h : Admits s id t s') :
    (∀ events : List Event, (∀ e ∈ events, ¬e.Updates id) →
        t.LimitKept (claimsOn id (s'.trace events))) ↔ t.EndsInRange := by
  constructor
  · intro hkept
    by_contra hrange
    obtain ⟨events, hevents, hlt⟩ := exists_exceeding h hs.claimedNonneg hrange
    exact absurd ((hkept events hevents).limit _) (not_le.2 hlt)
  · intro hrange events hevents
    obtain ⟨hterms, -, hused, p, hp, hrecords, -⟩ := h.spec hs.claimedNonneg
    have hstart : Kept t id s' [] := by
      refine ⟨hused, ⟨fun k ↦ hterms.limit.le, ?_, ?_, ?_⟩, fun q hq ↦ ⟨0, ?_⟩⟩
      · exact fun c hc ↦ absurd hc List.not_mem_nil
      · exact fun c hc ↦ absurd hc List.not_mem_nil
      · exact fun c hc ↦ absurd hc List.not_mem_nil
      · rwa [← Option.some.inj (hp.symm.trans hq)]
    exact (hstart.run hterms.limit hterms.period hrange hevents).kept

/-- A chain before the first permission. -/
def sampleStart : WithdrawState := { openSurroundings 1568883600 1000 with permissions := ∅ }

/-- A permission to withdraw 100 in each of some periods. -/
def samplePermission (period count : UInt32) : WithdrawPermissionCreate where
  withdrawFromAccount := 7
  authorizedAccount := 8
  terms :=
    { withdrawalLimit := { amount := 100 }
      withdrawalPeriodSec := period
      periodsUntilExpiration := count
      periodStartTime := 1600000000 }

theorem sampleStart_reachable : Reachable sampleStart := ⟨_, [], rfl⟩

/-- **A permission that pays without limit**: with two periods of three billion seconds the end of the first
period wraps, and so does the expiration, to a point in the future. -/
theorem limit_exceeded :
    ¬ ∀ (s : WithdrawState) (id : ℕ) (t : WithdrawTerms) (s' : WithdrawState), Reachable s →
      Admits s id t s' → ∀ events : List Event, (∀ e ∈ events, ¬e.Updates id) →
        t.LimitKept (claimsOn id (s'.trace events)) := by
  intro h
  obtain ⟨s', hs'⟩ : ∃ s', sampleStart.createPermission (samplePermission 3000000000 2) = .ok s' :=
    ⟨_, rfl⟩
  obtain ⟨events, hevents, hlt⟩ := exists_exceeding (.create hs')
    sampleStart_reachable.claimedNonneg (by decide)
  exact absurd ((h _ _ _ _ sampleStart_reachable (.create hs') events hevents).limit _) (not_le.2 hlt)

/-- Ten periods of a day keep their limit. -/
theorem limitKept_iff_daily : ∃ s', Admits sampleStart 0 (samplePermission 86400 10).terms s' ∧
    ∀ events : List Event, (∀ e ∈ events, ¬e.Updates 0) →
      (samplePermission 86400 10).terms.LimitKept (claimsOn 0 (s'.trace events)) := by
  obtain ⟨s', hs'⟩ : ∃ s', sampleStart.createPermission (samplePermission 86400 10) = .ok s' :=
    ⟨_, rfl⟩
  exact ⟨s', .create hs', (limitKept_iff sampleStart sampleStart_reachable 0 _ s' (.create hs')).2
    (WithdrawTerms.endsInRange_of_lt _ (by decide) (by decide))⟩

end WithdrawState

end Playchain
