import Mathlib.Algebra.BigOperators.Group.List.Basic
import Playchain.Graphene.Htlc
import Playchain.Lib.Control

/-!
# Contracts are paid once and not early

What happened to a contract is read off the operations that were applied: how it was created, which
extensions were granted and how it was paid. Every contract is in one of three situations
(`HtlcState.Tracked`): its id is not in use yet, it exists and has not been paid, or it is gone and has been
paid once. Balances follow from the applied operations alone.

A refund is never early for a contract whose expiration fits in 32 bits when it is created: extensions check
their sum, the creation does not (`HtlcState.refund_early`).
-/

namespace Playchain

/-- The contract that an applied operation is about. -/
def AppliedHtlc.htlcId {η : Type*} : AppliedHtlc η → ℕ
  | .created id _ _ => id
  | .extended id _ => id
  | .redeemed id _ _ => id
  | .refunded id _ _ => id

namespace HtlcState

variable {η : Type*} {s s' s₀ : HtlcState η} {log : List (AppliedHtlc η)} {id : ℕ}

/-! ### What happened to a contract -/

/-- The creations under an id. -/
def creations (log : List (AppliedHtlc η)) (id : ℕ) : List (UInt32 × HtlcCreateOperation η) :=
  log.filterMap fun
    | .created i time o => if i = id then some (time, o) else none
    | _ => none

/-- The seconds that an applied operation extends a contract by. -/
def grantedBy (id : ℕ) : AppliedHtlc η → ℕ
  | .extended i seconds => if i = id then seconds.toNat else 0
  | _ => 0

/-- The seconds that a contract was extended by. -/
def granted (log : List (AppliedHtlc η)) (id : ℕ) : ℕ := (log.map (grantedBy id)).sum

/-- How a contract was paid. -/
inductive Payout (η : Type*) where
  | redeemed (contract : HtlcObject η) (preimage : List UInt8)
  | refunded (contract : HtlcObject η) (time : UInt32)

/-- The payments of a contract. -/
def payouts (log : List (AppliedHtlc η)) (id : ℕ) : List (Payout η) :=
  log.filterMap fun
    | .redeemed i contract preimage => if i = id then some (.redeemed contract preimage) else none
    | .refunded i contract time => if i = id then some (.refunded contract time) else none
    | _ => none

/-- What an applied operation adds to the balance of an account. -/
def effect (account : AccountId) (assetId : AssetId) : AppliedHtlc η → ℤ
  | .created _ _ o => if account = o.sender ∧ assetId = o.assetId then -o.amount else 0
  | .extended _ _ => 0
  | .redeemed _ contract _ =>
    if account = contract.recipient ∧ assetId = contract.assetId then contract.amount else 0
  | .refunded _ contract _ =>
    if account = contract.sender ∧ assetId = contract.assetId then contract.amount else 0

/-- An operation about another contract does not change the story of this one. -/
theorem creations_cons_of_ne {e : AppliedHtlc η} (h : e.htlcId ≠ id) :
    creations (e :: log) id = creations log id := by
  cases e with
  | created i time o => exact (List.filterMap_cons_none (if_neg h))
  | extended i seconds => rfl
  | redeemed i contract preimage => rfl
  | refunded i contract time => rfl

theorem payouts_cons_of_ne {e : AppliedHtlc η} (h : e.htlcId ≠ id) :
    payouts (e :: log) id = payouts log id := by
  cases e with
  | created i time o => rfl
  | extended i seconds => rfl
  | redeemed i contract preimage => exact (List.filterMap_cons_none (if_neg h))
  | refunded i contract time => exact (List.filterMap_cons_none (if_neg h))

theorem granted_cons (e : AppliedHtlc η) : granted (e :: log) id = grantedBy id e + granted log id :=
  List.sum_cons

theorem granted_cons_of_ne {e : AppliedHtlc η} (h : e.htlcId ≠ id) :
    granted (e :: log) id = granted log id := by
  rw [granted_cons, Nat.add_eq_right]
  cases e with
  | created i time o => rfl
  | extended i seconds => exact if_neg h
  | redeemed i contract preimage => rfl
  | refunded i contract time => rfl

theorem creations_created (time : UInt32) (o : HtlcCreateOperation η) :
    creations (.created id time o :: log) id = (time, o) :: creations log id :=
  List.filterMap_cons_some (if_pos rfl)

theorem payouts_redeemed (contract : HtlcObject η) (preimage : List UInt8) :
    payouts (.redeemed id contract preimage :: log) id = .redeemed contract preimage :: payouts log id :=
  List.filterMap_cons_some (if_pos rfl)

theorem payouts_refunded (contract : HtlcObject η) (time : UInt32) :
    payouts (.refunded id contract time :: log) id = .refunded contract time :: payouts log id :=
  List.filterMap_cons_some (if_pos rfl)

/-! ### The three situations of a contract -/

/-- The contract is the one that was created, apart from its expiration. -/
structure Agrees (contract : HtlcObject η) (o : HtlcCreateOperation η) : Prop where
  sender : contract.sender = o.sender
  recipient : contract.recipient = o.recipient
  amount : contract.amount = o.amount
  assetId : contract.assetId = o.assetId
  preimageHash : contract.preimageHash = o.preimageHash
  preimageSize : contract.preimageSize = o.preimageSize

/-- The expiration of a new contract fits in 32 bits. -/
def Fits (time : UInt32) (o : HtlcCreateOperation η) : Prop :=
  time.toNat + o.claimPeriodSeconds.toNat < 2 ^ 32

/-- A payment is due: the preimage matches, or the contract has expired. -/
def Payout.Due [PreimageHash η] (time : UInt32) (o : HtlcCreateOperation η) (extension : ℕ) :
    Payout η → Prop
  | .redeemed contract preimage =>
    Agrees contract o ∧ preimage.length = o.preimageSize.toNat ∧
      PreimageHash.accepts o.preimageHash preimage = true
  | .refunded contract paidAt =>
    Agrees contract o ∧
      (Fits time o → time.toNat + o.claimPeriodSeconds.toNat + extension ≤ paidAt.toNat)

theorem adjustBalance_apply (s : HtlcState η) (account : AccountId) (assetId : AssetId) (delta : ℤ)
    (a : AccountId) (x : AssetId) : (s.adjustBalance account assetId delta).balances a x =
      s.balances a x + if a = account ∧ x = assetId then delta else 0 := by
  unfold adjustBalance
  dsimp only
  split_ifs
  · rfl
  · rw [add_zero]

theorem find?_of_head? {contract : HtlcObject η} (h : s.byExpiration.head? = some (id, contract)) :
    s.htlcs.find? id = some contract :=
  ObjectIndex.mem_orderedBy.mp (List.mem_of_head? h)

/-- An extension by the sender that fits in 32 bits and in the options is granted. -/
theorem htlcExtend_ok {o : HtlcExtendOperation} {contract : HtlcObject η} {options : HtlcOptions}
    (hfind : s.htlcs.find? o.htlcId = some contract) (hissuer : o.updateIssuer = contract.sender)
    (hdate : contract.expiration.toNat + o.secondsToAdd.toNat < 2 ^ 32 - 1)
    (hoptions : s.htlcOptions = some options)
    (hfar : contract.expiration + o.secondsToAdd ≤ s.headBlockTime + options.maxTimeoutSecs) :
    s.htlcExtend o = .ok { s with
      htlcs := s.htlcs.set o.htlcId { contract with expiration := contract.expiration + o.secondsToAdd }
      applied := .extended o.htlcId o.secondsToAdd :: s.applied } := by
  unfold HtlcState.htlcExtend
  simp only [hfind, hoptions, hissuer, not_true_eq_false, if_false, not_not.2 hdate, not_not.2 hfar]

/-- The loop ends for want of expired contracts, not of fuel. -/
theorem clearExpiredLoop_cleared (fuel : ℕ) (hfuel : s.htlcs.toList.length ≤ fuel) {contract : HtlcObject η}
    (h : (s.clearExpiredLoop fuel).htlcs.find? id = some contract) :
    s.headBlockTime < contract.expiration := by
  induction fuel generalizing s with
  | zero =>
    have hmem := ObjectIndex.find?_eq_some_iff.mp h
    rw [clearExpiredLoop, List.eq_nil_of_length_eq_zero (Nat.le_zero.mp hfuel)] at hmem
    cases hmem
  | succ fuel ih =>
    unfold clearExpiredLoop at h
    split at h
    · rename_i hhead
      have hmem : (id, contract) ∈ s.byExpiration := ObjectIndex.mem_orderedBy.mpr h
      rw [List.head?_eq_none_iff.mp hhead] at hmem
      cases hmem
    · rename_i first c hhead
      split_ifs at h with hexpired
      · refine ih (s := s.refund first c) ?_ h
        have hperm := FlatMap.toList_erase_perm (find?_of_head? hhead)
        have hlength := hperm.length_eq
        rw [List.length_cons] at hlength
        have heq : (s.refund first c).htlcs.toList.length = (s.htlcs.objects.erase first).toList.length := rfl
        have heq' : s.htlcs.toList.length = s.htlcs.objects.toList.length := rfl
        omega
      -- the first contract expires first
      · have hmem : (id, contract) ∈ s.byExpiration := ObjectIndex.mem_orderedBy.mpr h
        have hsorted := s.htlcs.pairwise_orderedBy fun c ↦ c.expiration.toNat
        obtain ⟨rest, hrest⟩ := List.head?_eq_some_iff.mp hhead
        rw [byExpiration] at hmem hrest
        rw [hrest] at hmem hsorted
        rw [UInt32.le_iff_toNat_le] at hexpired
        rw [UInt32.lt_iff_toNat_lt]
        rcases List.mem_cons.mp hmem with heq | hin
        · obtain ⟨-, rfl⟩ := Prod.mk.inj heq
          omega
        · have := (List.pairwise_cons.mp hsorted).1 _ hin
          dsimp only at this
          omega

/-- After a block, no contract has expired. -/
theorem applyBlock_cleared (timestamp : UInt32) (options : Option HtlcOptions)
    (authorized : AccountId → AssetId → Bool) {contract : HtlcObject η}
    (h : (s.applyBlock timestamp options authorized).htlcs.find? id = some contract) :
    timestamp < contract.expiration :=
  clearExpiredLoop_cleared _ le_rfl h

variable [PreimageHash η]

/-- The situation of a contract. -/
inductive Tracked (s : HtlcState η) (id : ℕ) : Prop where
  /-- The id is not in use yet. -/
  | unborn : s.htlcs.nextId ≤ id → creations s.applied id = [] → payouts s.applied id = [] →
      granted s.applied id = 0 → Tracked s id
  /-- The contract exists, has not been paid, and expires when it should. -/
  | live (time : UInt32) (o : HtlcCreateOperation η) (contract : HtlcObject η) :
      s.htlcs.find? id = some contract → creations s.applied id = [(time, o)] →
      payouts s.applied id = [] → Agrees contract o →
      (Fits time o → contract.expiration.toNat =
        time.toNat + o.claimPeriodSeconds.toNat + granted s.applied id) → Tracked s id
  /-- The contract is gone and has been paid. -/
  | paid (time : UInt32) (o : HtlcCreateOperation η) (p : Payout η) :
      id < s.htlcs.nextId → s.htlcs.find? id = none → creations s.applied id = [(time, o)] →
      payouts s.applied id = [p] → p.Due time o (granted s.applied id) → Tracked s id

/-- A step about another contract keeps the situation. -/
theorem Tracked.of_ne (h : Tracked s id) {e : AppliedHtlc η} (he : e.htlcId ≠ id)
    (happlied : s'.applied = e :: s.applied) (hfind : s'.htlcs.find? id = s.htlcs.find? id)
    (hnext : s.htlcs.nextId ≤ s'.htlcs.nextId) (hnext' : s.htlcs.nextId ≤ id → s'.htlcs.nextId ≤ id) :
    Tracked s' id := by
  have hcreations : creations s'.applied id = creations s.applied id := by
    rw [happlied, creations_cons_of_ne he]
  have hpayouts : payouts s'.applied id = payouts s.applied id := by
    rw [happlied, payouts_cons_of_ne he]
  have hgranted : granted s'.applied id = granted s.applied id := by
    rw [happlied, granted_cons_of_ne he]
  cases h with
  | unborn hle hc hp hg =>
    exact .unborn (hnext' hle) (hcreations.trans hc) (hpayouts.trans hp) (hgranted.trans hg)
  | live time o contract hf hc hp hagrees hexp =>
    exact .live time o contract (hfind.trans hf) (hcreations.trans hc) (hpayouts.trans hp) hagrees
      (by rwa [hgranted])
  | paid time o p hlt hf hc hp hdue =>
    exact .paid time o p (by omega) (hfind.trans hf) (hcreations.trans hc) (hpayouts.trans hp)
      (by rwa [hgranted])

/-- A contract that exists is live. -/
theorem Tracked.live_of_find {contract : HtlcObject η} (h : Tracked s id)
    (hfind : s.htlcs.find? id = some contract) :
    ∃ time o, creations s.applied id = [(time, o)] ∧ payouts s.applied id = [] ∧ Agrees contract o ∧
      (Fits time o → contract.expiration.toNat =
        time.toNat + o.claimPeriodSeconds.toNat + granted s.applied id) := by
  cases h with
  | unborn hle _ _ _ => exact absurd (ObjectIndex.lt_nextId_of_find? hfind) (by omega)
  | live time o c hf hc hp hagrees hexp =>
    obtain rfl := Option.some.inj (hf.symm.trans hfind)
    exact ⟨time, o, hc, hp, hagrees, hexp⟩
  | paid _ _ _ _ hf _ _ _ =>
    rw [hfind] at hf
    cases hf

/-! ### One step -/

/-- The invariant: every contract is in one of its situations, and the balances follow from what was
applied. -/
structure Escrowed (balances : AccountId → AssetId → ℤ) (s : HtlcState η) : Prop where
  tracked : ∀ id, Tracked s id
  balances : ∀ a x, s.balances a x = balances a x + (s.applied.map (effect a x)).sum

variable {balances : AccountId → AssetId → ℤ}

/-- What an operation adds to the balances is its effect. -/
theorem Escrowed.balances_cons (hs : Escrowed balances s) {e : AppliedHtlc η}
    (happlied : s'.applied = e :: s.applied)
    (hbalances : ∀ a x, s'.balances a x = s.balances a x + effect a x e) (a : AccountId) (x : AssetId) :
    s'.balances a x = balances a x + (s'.applied.map (effect a x)).sum := by
  rw [hbalances, hs.balances, happlied, List.map_cons, List.sum_cons]
  ring

theorem Escrowed.htlcCreateApply (hs : Escrowed balances s) (o : HtlcCreateOperation η) :
    Escrowed balances (s.htlcCreateApply o) := by
  constructor
  · intro id
    by_cases hid : s.htlcs.nextId = id
    · subst hid
      cases hs.tracked s.htlcs.nextId with
      | unborn _ hc hp hg =>
        refine .live s.headBlockTime o _ (by rw [HtlcState.htlcCreateApply, ObjectIndex.find?_create, if_pos rfl])
          ?_ ?_ ⟨rfl, rfl, rfl, rfl, rfl, rfl⟩ ?_
        · exact (creations_created _ _).trans (by rw [hc])
        · exact hp
        · intro hfits
          have hgranted : granted (s.htlcCreateApply o).applied s.htlcs.nextId = 0 :=
            (granted_cons _).trans ((Nat.zero_add _).trans hg)
          rw [hgranted, UInt32.toNat_add, Nat.mod_eq_of_lt hfits, Nat.add_zero]
      | live _ _ _ hf _ _ _ _ =>
        rw [ObjectIndex.find?_nextId] at hf
        cases hf
      | paid _ _ _ hlt _ _ _ _ => exact absurd hlt (lt_irrefl _)
    · refine (hs.tracked id).of_ne (e := .created s.htlcs.nextId s.headBlockTime o) hid rfl ?_ ?_ ?_
      · rw [HtlcState.htlcCreateApply, ObjectIndex.find?_create, if_neg (Ne.symm hid)]
      · exact Nat.le_succ _
      · intro hle
        exact Nat.lt_of_le_of_ne hle hid
  · exact hs.balances_cons rfl fun a x ↦ adjustBalance_apply ..

/-- A payment that is due keeps the invariant. -/
theorem Escrowed.pay (hs : Escrowed balances s) {contract : HtlcObject η} {p : Payout η}
    {e : AppliedHtlc η} (hfind : s.htlcs.find? id = some contract) (he : e.htlcId = id)
    (hcreations : creations (e :: s.applied) id = creations s.applied id)
    (hpayouts : payouts (e :: s.applied) id = p :: payouts s.applied id)
    (hgranted : granted (e :: s.applied) id = granted s.applied id)
    (hdue : ∀ time o, Agrees contract o → (Fits time o → contract.expiration.toNat =
      time.toNat + o.claimPeriodSeconds.toNat + granted s.applied id) → p.Due time o (granted s.applied id))
    (happlied : s'.applied = e :: s.applied) (hhtlcs : s'.htlcs = s.htlcs.remove id)
    (hbalances : ∀ a x, s'.balances a x = s.balances a x + effect a x e) : Escrowed balances s' := by
  constructor
  · intro j
    by_cases hj : j = id
    · subst hj
      obtain ⟨time, o, hc, hp, hagrees, hexp⟩ := (hs.tracked j).live_of_find hfind
      refine .paid time o p ?_ ?_ ?_ ?_ ?_
      · rw [hhtlcs, ObjectIndex.nextId_remove]
        exact ObjectIndex.lt_nextId_of_find? hfind
      · rw [hhtlcs, ObjectIndex.find?_remove, if_pos rfl]
      · rw [happlied, hcreations, hc]
      · rw [happlied, hpayouts, hp]
      · rw [happlied, hgranted]
        exact hdue time o hagrees hexp
    · refine (hs.tracked j).of_ne (e := e) (fun h ↦ hj (h.symm.trans he)) happlied ?_ ?_ ?_
      · rw [hhtlcs, ObjectIndex.find?_remove_of_ne _ hj]
      · rw [hhtlcs]
        rfl
      · rw [hhtlcs]
        exact fun h ↦ h
  · exact hs.balances_cons happlied hbalances

theorem Escrowed.htlcRedeem (hs : Escrowed balances s) {o : HtlcRedeemOperation}
    (h : s.htlcRedeem o = .ok s') : Escrowed balances s' := by
  unfold HtlcState.htlcRedeem at h
  split at h
  · cases h
  · rename_i contract hfind
    split_ifs at h with hlength haccepts
    obtain rfl := Except.ok.inj h
    refine hs.pay hfind (e := .redeemed o.htlcId contract o.preimage) rfl rfl (payouts_redeemed _ _)
      ((granted_cons _).trans (Nat.zero_add _)) ?_ rfl rfl fun a x ↦ adjustBalance_apply ..
    intro time c hagrees _
    refine ⟨hagrees, ?_, ?_⟩
    · rw [← hagrees.preimageSize]
      exact hlength
    · rw [← hagrees.preimageHash]
      exact haccepts

theorem Escrowed.htlcExtend (hs : Escrowed balances s) {o : HtlcExtendOperation}
    (h : s.htlcExtend o = .ok s') : Escrowed balances s' := by
  unfold HtlcState.htlcExtend at h
  split at h
  · cases h
  · rename_i contract hfind
    split_ifs at h with hissuer hdate
    split at h
    · cases h
    · split_ifs at h
      obtain rfl := Except.ok.inj h
      constructor
      · intro id
        by_cases hid : o.htlcId = id
        · subst hid
          obtain ⟨time, c, hc, hp, hagrees, hexp⟩ := (hs.tracked o.htlcId).live_of_find hfind
          refine .live time c _ (ObjectIndex.find?_set_self hfind _) hc hp
            ⟨hagrees.sender, hagrees.recipient, hagrees.amount, hagrees.assetId, hagrees.preimageHash,
              hagrees.preimageSize⟩ ?_
          intro hfits
          dsimp only
          rw [granted_cons, grantedBy, if_pos rfl, UInt32.toNat_add, Nat.mod_eq_of_lt (by omega), hexp hfits]
          omega
        · exact (hs.tracked id).of_ne (e := .extended o.htlcId o.secondsToAdd) hid rfl
            (ObjectIndex.find?_set_of_ne _ _ (Ne.symm hid)) le_rfl fun h ↦ h
      · exact hs.balances_cons (e := .extended o.htlcId o.secondsToAdd) rfl fun a x ↦ (add_zero _).symm

theorem Escrowed.refund (hs : Escrowed balances s) {contract : HtlcObject η}
    (hfind : s.htlcs.find? id = some contract) (hexpired : contract.expiration ≤ s.headBlockTime) :
    Escrowed balances (s.refund id contract) := by
  refine hs.pay hfind (e := .refunded id contract s.headBlockTime) rfl rfl (payouts_refunded _ _)
    ((granted_cons _).trans (Nat.zero_add _)) ?_ rfl rfl fun a x ↦ adjustBalance_apply ..
  intro time o hagrees hexp
  refine ⟨hagrees, fun hfits ↦ ?_⟩
  rw [← hexp hfits]
  exact UInt32.le_iff_toNat_le.mp hexpired

theorem Escrowed.clearExpiredLoop (fuel : ℕ) (hs : Escrowed balances s) :
    Escrowed balances (s.clearExpiredLoop fuel) := by
  induction fuel generalizing s with
  | zero => exact hs
  | succ fuel ih =>
    unfold HtlcState.clearExpiredLoop
    split
    · exact hs
    · rename_i id contract hhead
      split_ifs with hexpired
      · exact ih (hs.refund (find?_of_head? hhead) hexpired)
      · exact hs

/-! ### Runs -/

/-- The steps of contracts: operations that pass their checks, and blocks. -/
inductive Step : HtlcState η → HtlcState η → Prop where
  | create {s s' : HtlcState η} (o : HtlcCreateOperation η) : s.htlcCreate o = .ok s' → Step s s'
  | redeem {s s' : HtlcState η} (o : HtlcRedeemOperation) : s.htlcRedeem o = .ok s' → Step s s'
  | extend {s s' : HtlcState η} (o : HtlcExtendOperation) : s.htlcExtend o = .ok s' → Step s s'
  | block {s : HtlcState η} (timestamp : UInt32) (options : Option HtlcOptions)
      (authorized : AccountId → AssetId → Bool) :
      s.headBlockTime < timestamp → Step s (s.applyBlock timestamp options authorized)

theorem Escrowed.step (hs : Escrowed balances s) (h : Step s s') : Escrowed balances s' := by
  cases h with
  | create o h =>
    unfold htlcCreate at h
    split at h
    · cases h
    · obtain rfl := Except.ok.inj h
      exact hs.htlcCreateApply o
  | redeem o h => exact hs.htlcRedeem h
  | extend o h => exact hs.htlcExtend h
  | block timestamp options authorized _ =>
    refine Escrowed.clearExpiredLoop _ ⟨fun id ↦ ?_, hs.balances⟩
    cases hs.tracked id with
    | unborn hle hc hp hg => exact .unborn hle hc hp hg
    | live time o contract hf hc hp hagrees hexp => exact .live time o contract hf hc hp hagrees hexp
    | paid time o p hlt hf hc hp hdue => exact .paid time o p hlt hf hc hp hdue

/-- A chain before its first contract. -/
structure Fresh (s : HtlcState η) : Prop where
  htlcs : s.htlcs = ∅
  applied : s.applied = []

theorem Fresh.escrowed (h : Fresh s) : Escrowed s.balances s := by
  constructor
  · intro id
    refine .unborn ?_ ?_ ?_ ?_
    · rw [h.htlcs]
      exact Nat.zero_le _
    · rw [h.applied]
      rfl
    · rw [h.applied]
      rfl
    · rw [h.applied]
      rfl
  · intro a x
    rw [h.applied, List.map_nil, List.sum_nil, add_zero]

/-- What holds of every contract: it is paid at most once, exactly when it is gone, to whom it is due, and
not before its time. -/
structure PaidOnce (s : HtlcState η) (id : ℕ) : Prop where
  once : (payouts s.applied id).length ≤ 1
  /-- The amount is locked exactly while the contract exists. -/
  locked : (∃ contract, s.htlcs.find? id = some contract) ↔
    creations s.applied id ≠ [] ∧ payouts s.applied id = []
  due : ∀ p ∈ payouts s.applied id, ∃ time o, creations s.applied id = [(time, o)] ∧
    p.Due time o (granted s.applied id)

theorem Tracked.paidOnce (h : Tracked s id) : PaidOnce s id := by
  cases h with
  | unborn hle hc hp hg =>
    refine ⟨by rw [hp]; exact Nat.zero_le 1, ?_, by rw [hp]; exact fun _ h ↦ (by cases h)⟩
    constructor
    · rintro ⟨contract, hf⟩
      exact absurd (ObjectIndex.lt_nextId_of_find? hf) (by omega)
    · exact fun hh ↦ absurd hc hh.1
  | live time o contract hf hc hp hagrees hexp =>
    refine ⟨by rw [hp]; exact Nat.zero_le 1, ?_, by rw [hp]; exact fun _ h ↦ (by cases h)⟩
    exact ⟨fun _ ↦ ⟨by rw [hc]; exact List.cons_ne_nil _ _, hp⟩, fun _ ↦ ⟨contract, hf⟩⟩
  | paid time o p hlt hf hc hp hdue =>
    refine ⟨by rw [hp]; exact le_rfl, ?_, ?_⟩
    · constructor
      · rintro ⟨contract, hf'⟩
        rw [hf] at hf'
        cases hf'
      · rintro ⟨-, hnil⟩
        rw [hp] at hnil
        cases hnil
    · rw [hp]
      intro q hq
      obtain rfl := List.mem_singleton.mp hq
      exact ⟨time, o, hc, hdue⟩

/-- **A contract is paid once, to whom it is due, and not before its time**: in every run of operations and
blocks, the balances are those before the first contract with what was applied, every contract is paid at
most once and exists exactly until then, a refund of a contract whose expiration fits in 32 bits at its
creation is not earlier than the creation with the claim period and all extensions, and a further block
leaves no expired contract. -/
theorem escrow_sound (s₀ s : HtlcState η) (h₀ : Fresh s₀) (h : Relation.ReflTransGen Step s₀ s) :
    (∀ a x, s.balances a x = s₀.balances a x + (s.applied.map (effect a x)).sum) ∧
      (∀ id, PaidOnce s id) ∧
      ∀ timestamp options authorized id contract,
        (s.applyBlock timestamp options authorized).htlcs.find? id = some contract →
          timestamp < contract.expiration := by
  have hs : Escrowed s₀.balances s :=
    Relation.ReflTransGen.invariant (Escrowed s₀.balances) (fun _ _ hs hstep ↦ hs.step hstep) h₀.escrowed h
  exact ⟨hs.balances, fun id ↦ (hs.tracked id).paidOnce,
    fun _ options authorized _ _ hfind ↦ applyBlock_cleared _ options authorized hfind⟩

/-! ### A contract that is extended and refunded -/

/-- Hashes that are their preimages, to run contracts with. -/
instance : PreimageHash (List UInt8) where
  accepts hash preimage := decide (preimage = hash)

/-- A chain whose committee has set no bound on the time of a contract. -/
def unboundedChain : HtlcState (List UInt8) where
  headBlockTime := 1600000000
  htlcOptions := some ⟨4294967295, 1024⟩
  isAuthorizedAsset _ _ := true
  balances a _ := if a = 17 then 1000 else 0
  htlcs := ∅
  applied := []

/-- A contract with the longest claim period. -/
def longContract : HtlcCreateOperation (List UInt8) where
  sender := 17
  recipient := 18
  amount := 600
  assetId := 0
  preimageHash := [1, 2, 3]
  preimageSize := 3
  claimPeriodSeconds := 4294967295

/-- A committee that bounds contracts to a day. -/
def dayOptions : Option HtlcOptions := some ⟨86400, 1024⟩

/-- A contract of ten minutes. -/
def shortContract : HtlcCreateOperation (List UInt8) := { longContract with claimPeriodSeconds := 600 }

/-- The chain after the contract is created and extended by 100 seconds. -/
def extendedChain : HtlcState (List UInt8) :=
  let s := { unboundedChain with htlcOptions := dayOptions }.htlcCreateApply shortContract
  { s with
    htlcs := s.htlcs.modify 0 fun contract ↦ { contract with expiration := contract.expiration + 100 }
    applied := .extended 0 100 :: s.applied }

/-- The run that creates and extends the contract and makes a block at its first expiration. -/
theorem run_shortContract : Relation.ReflTransGen Step { unboundedChain with htlcOptions := dayOptions }
    (extendedChain.applyBlock 1600000600 dayOptions fun _ _ ↦ true) :=
  .tail (.tail (.single (.create shortContract rfl)) (.extend ⟨0, 17, 100⟩
    (htlcExtend_ok rfl rfl (by decide) rfl (by decide)))) (.block 1600000600 dayOptions (fun _ _ ↦ true) (by decide))

/-- The contract of ten minutes is extended by 100 seconds: a block at its first expiration leaves it, a
block at the extended one refunds it. -/
theorem escrow_sound_extended : ∃ s₁ s : HtlcState (List UInt8),
    Relation.ReflTransGen Step { unboundedChain with htlcOptions := dayOptions } s₁ ∧
      s₁.headBlockTime = 1600000600 ∧ (∃ contract, s₁.htlcs.find? 0 = some contract) ∧ PaidOnce s₁ 0 ∧
      Step s₁ s ∧ Fits 1600000000 shortContract ∧
      creations s.applied 0 = [(1600000000, shortContract)] ∧ granted s.applied 0 = 100 ∧
      (∃ contract, payouts s.applied 0 = [.refunded contract 1600000700]) ∧ PaidOnce s 0 ∧
      (∀ a x, s.balances a x = unboundedChain.balances a x + (s.applied.map (effect a x)).sum) ∧
      s.balances 17 0 = 1000 := by
  have hblock := Step.block (s := extendedChain.applyBlock 1600000600 dayOptions fun _ _ ↦ true)
    1600000700 dayOptions (fun _ _ ↦ true) (by decide)
  have h := escrow_sound _ _ ⟨rfl, rfl⟩ (run_shortContract.tail hblock)
  have h₁ := escrow_sound _ _ ⟨rfl, rfl⟩ run_shortContract
  exact ⟨_, _, run_shortContract, rfl, ⟨_, rfl⟩, h₁.2.1 0, hblock, Nat.lt_of_sub_pos (by decide), rfl,
    rfl, ⟨_, rfl⟩, h.2.1 0, h.1, rfl⟩

/-! ### A refund that is early -/

/-- The run that creates the contract and makes one block. -/
theorem run_longContract : Relation.ReflTransGen Step unboundedChain
    ((unboundedChain.htlcCreateApply longContract).applyBlock 1600000005 none fun _ _ ↦ true) :=
  .tail (.single (.create longContract rfl)) (.block 1600000005 none (fun _ _ ↦ true) (by decide))

/-- **A refund can be early**: the contract with the longest claim period is refunded by the next block. -/
theorem refund_early : ∃ s : HtlcState (List UInt8), Relation.ReflTransGen Step unboundedChain s ∧
    ∃ contract, creations s.applied 0 = [(1600000000, longContract)] ∧
      payouts s.applied 0 = [.refunded contract 1600000005] ∧ granted s.applied 0 = 0 ∧
      (1600000005 : UInt32).toNat < (1600000000 : UInt32).toNat + longContract.claimPeriodSeconds.toNat :=
  ⟨_, run_longContract, _, rfl, rfl, rfl, by decide⟩

end HtlcState

end Playchain
