import Playchain.Graphene.Fees
import Playchain.Lib.Rounding
import Playchain.Spec.ForcedSettlement
import Playchain.Spec.LimitMatch

/-!
# The fees that the API requires are the fees that the evaluators accept

`get_required_fees` sets the fee of every operation, from the proposed operations outwards, because
the size of an operation depends on the asset of its fee. The loop of `set_fee` settles after the
second calculation: from then on the fee is in the asset of the answer, and its amount does not
count (`setFee_spec`). A fee in that asset is enough exactly if it is no less than the calculated
one, since rounding up to the asset is adjoint to rounding down to core (`evaluateFee_eq`).
-/

namespace Playchain

open Rounding

/-! ### Exchange rates -/

/-- A rate between core and an asset, in either direction. -/
structure CoreRate (rate : Price) (a : AssetId) : Prop where
  base : 0 < rate.base.amount
  quote : 0 < rate.quote.amount
  assets : rate.base.assetId = coreAsset ∧ rate.quote.assetId = a ∨
    rate.quote.assetId = coreAsset ∧ rate.base.assetId = a
  /-- Core itself is exchanged for as much core. -/
  unit : a = coreAsset → rate.base.amount = rate.quote.amount

/-- The terms of a rate: so much of the asset for so much core. -/
structure CoreTerms (rate : Price) (a : AssetId) (n d : ℤ) : Prop where
  pos : 0 < n
  pos' : 0 < d
  mulRoundUp (r : ℤ) : (⟨r, coreAsset⟩ : Asset).mulRoundUp rate = Asset.quotient (r * n + d - 1) d a
  mul (ha : a ≠ coreAsset) (x : ℤ) : (⟨x, a⟩ : Asset).mul rate = Asset.quotient (x * d) n coreAsset
  unit : a = coreAsset → n = d

theorem CoreRate.exists_terms {rate : Price} {a : AssetId} (h : CoreRate rate a) : ∃ n d,
    CoreTerms rate a n d := by
  obtain ⟨hbase, hquote⟩ | ⟨hquote, hbase⟩ := h.assets
  · refine ⟨rate.quote.amount, rate.base.amount, h.quote, h.base, fun r ↦ ?_, fun ha x ↦ ?_,
      fun ha ↦ (h.unit ha).symm⟩
    · rw [Asset.mulRoundUp, if_pos hbase.symm, hquote]
    · rw [Asset.mul, if_neg (by rw [hbase]; exact ha), if_pos hquote.symm, hbase]
  · refine ⟨rate.base.amount, rate.quote.amount, h.base, h.quote, fun r ↦ ?_, fun ha x ↦ ?_,
      fun ha ↦ h.unit ha⟩
    · by_cases ha : a = coreAsset
      · rw [Asset.mulRoundUp, if_pos (by rw [hbase, ha]), h.unit ha, hquote, ha]
      · rw [Asset.mulRoundUp, if_neg (by rw [hbase]; exact Ne.symm ha), if_pos hquote.symm, hbase]
    · rw [Asset.mul, if_pos hbase.symm, hquote]

namespace FeeOperation

/-! ### Only the asset of a fee counts for the size -/

variable {op : FeeOperation} {f : Asset}

@[simp] theorem fee_withFee (f : Asset) (op : FeeOperation) : (op.withFee f).fee = f :=
    by cases op <;> rfl

@[simp] theorem withFee_withFee (f g : Asset) (op : FeeOperation) : (op.withFee f).withFee g =
    op.withFee g := by
  cases op <;> rfl

theorem packSize_withFee (h : unsignedIntSize f.assetId = unsignedIntSize op.fee.assetId) :
    (op.withFee f).packSize = op.packSize := by
  cases op with
  | single which hwhich content fee size =>
    change unsignedIntSize f.assetId = unsignedIntSize fee.assetId at h
    simp only [withFee, packSize, assetSize, h]
  | proposalCreate fee size proposedOps =>
    change unsignedIntSize f.assetId = unsignedIntSize fee.assetId at h
    simp only [withFee, packSize, assetSize, h]

end FeeOperation

namespace FeeSchedule

variable {s : FeeSchedule} {rate : Price} {a : AssetId} {op op' : FeeOperation} {f g : Asset}

theorem calculateFee_withFee (h : unsignedIntSize f.assetId = unsignedIntSize op.fee.assetId) :
    s.calculateFee (op.withFee f) = s.calculateFee op := by
  have hsize := FeeOperation.packSize_withFee h
  unfold calculateFee
  rw [hsize]
  cases op <;> rfl

theorem calculateFee_assetId (h : s.calculateFee op = .ok f) : f.assetId = coreAsset := by
  obtain ⟨_, -, h⟩ := Except.bind_eq_ok.1 h
  obtain ⟨_, -, h⟩ := Except.bind_eq_ok.1 h
  cases h
  rfl

/-! ### The loop of `set_fee` -/

/-- The fee that is calculated in an asset is the fee in core, rounded up. -/
theorem calculateFeeIn_eq_ok {n d : ℤ} (ht : CoreTerms rate a n d)
    (h : s.calculateFeeIn rate op = .ok f) :
    ∃ r, s.calculateFee op = .ok ⟨r, coreAsset⟩ ∧ f = ⟨up r n d, a⟩ ∧ 0 ≤ up r n d := by
  obtain ⟨required, hrequired, h⟩ := Except.bind_eq_ok.1 h
  have hcore := calculateFee_assetId hrequired
  obtain ⟨r, i⟩ := required
  obtain rfl : i = coreAsset := hcore
  rw [ht.mulRoundUp] at h
  obtain ⟨-, hnonneg, rfl⟩ := Asset.of_quotient_eq h
  exact ⟨r, hrequired, rfl, hnonneg⟩

/-- **`set_fee` settles**: the operation has the fee that is returned, in the asset of the rate. It
is the greater one of two, calculated before and after the asset is known. -/
theorem setFee_spec {n d : ℤ} (ht : CoreTerms rate a n d) (h : s.setFee rate op = .ok (f, op')) :
    ∃ r₁ r₂, s.calculateFee op = .ok ⟨r₁, coreAsset⟩ ∧ s.calculateFee op' = .ok ⟨r₂, coreAsset⟩ ∧
      f = ⟨max (up r₁ n d) (up r₂ n d), a⟩ ∧ 0 ≤ f.amount ∧ op' = op.withFee f := by
  obtain ⟨f₁, hf₁, h⟩ := Except.bind_eq_ok.1 h
  obtain ⟨r₁, hr₁, rfl, hnonneg⟩ := calculateFeeIn_eq_ok ht hf₁
  -- The first round: the size may change with the asset.
  obtain ⟨f₂, hf₂, h⟩ := Except.bind_eq_ok.1 h
  obtain ⟨r₂, hr₂, rfl, -⟩ := calculateFeeIn_eq_ok ht hf₂
  have hsettled (x : ℤ) : s.calculateFee (op.withFee ⟨x, a⟩) = .ok ⟨r₂, coreAsset⟩ := by
    rw [← hr₂, ← FeeOperation.withFee_withFee ⟨up r₁ n d, a⟩ ⟨x, a⟩, calculateFee_withFee]
    rw [FeeOperation.fee_withFee]
  by_cases heq : (⟨up r₁ n d, a⟩ : Asset) = ⟨up r₂ n d, a⟩
  · rw [if_pos heq] at h
    cases h
    refine ⟨r₁, r₂, hr₁, hr₂, ?_, hnonneg, rfl⟩
    rw [← Asset.mk.inj heq |>.1, max_self]
  rw [if_neg heq] at h
  have hmax : (⟨up r₁ n d, a⟩ : Asset).lt ⟨up r₂ n d, a⟩ = .ok (decide (up r₁ n d < up r₂ n d)) :=
    by
    unfold Asset.lt Asset.sameAsset
    rw [fcAssert_of_true rfl]
    rfl
  rw [hmax, Except.ok_bind] at h
  have hlarger : (if decide (up r₁ n d < up r₂ n d) = true then (⟨up r₂ n d, a⟩ : Asset) else
    ⟨up r₁ n d, a⟩) =
      ⟨max (up r₁ n d) (up r₂ n d), a⟩ := by
    by_cases hlt : up r₁ n d < up r₂ n d
    · rw [if_pos (decide_eq_true hlt), max_eq_right hlt.le]
    · rw [if_neg (by simpa using hlt), max_eq_left (not_lt.mp hlt)]
  rw [hlarger] at h
  -- The second round calculates the same fee again.
  obtain ⟨f₃, hf₃, h⟩ := Except.bind_eq_ok.1 h
  obtain ⟨r₃, hr₃, rfl, -⟩ := calculateFeeIn_eq_ok ht hf₃
  rw [FeeOperation.withFee_withFee, hsettled] at hr₃
  obtain rfl : r₂ = r₃ := (Asset.mk.inj (Except.ok.inj hr₃)).1
  rw [if_pos rfl, FeeOperation.withFee_withFee] at h
  cases h
  exact ⟨r₁, r₂, hr₁, hsettled _, rfl, hnonneg.trans (le_max_left _ _), rfl⟩

/-! ### The check of the evaluator -/

/-- What `prepare_fee` takes for a fee in the asset of the rate. -/
theorem prepareFee_eq_ok {n d : ℤ} (ht : CoreTerms rate a n d) {A : FeeAsset}
    (hA : A.coreExchangeRate = rate)
    {x paid : ℤ} :
    prepareFee A ⟨x, a⟩ = .ok paid ↔
      0 ≤ x ∧ A.authorized = true ∧ paid = down x d n ∧
        (a ≠ coreAsset → paid ≤ maxShareSupply ∧ paid ≤ A.feePool) := by
  have hdown (hx : 0 ≤ x) : 0 ≤ down x d n := down_nonneg hx ht.pos'.le ht.pos
  constructor
  · intro h
    obtain ⟨_, hx, h⟩ := Except.bind_eq_ok.1 h
    obtain ⟨_, hauthorized, h⟩ := Except.bind_eq_ok.1 h
    refine ⟨fcAssert_eq_ok.1 hx, fcAssert_eq_ok.1 hauthorized, ?_⟩
    by_cases ha : a = coreAsset
    · rw [if_pos (show (⟨x, a⟩ : Asset).assetId = coreAsset from ha)] at h
      cases h
      refine ⟨?_, fun hne ↦ absurd ha hne⟩
      rw [down, ht.unit ha, Int.mul_ediv_cancel _ ht.pos'.ne']
    · rw [if_neg (show ¬(⟨x, a⟩ : Asset).assetId = coreAsset from ha), hA, ht.mul ha] at h
      obtain ⟨feeFromPool, hpool, h⟩ := Except.bind_eq_ok.1 h
      obtain ⟨_, -, hpool⟩ := Except.bind_eq_ok.1 hpool
      obtain ⟨_, hrange, hpool⟩ := Except.bind_eq_ok.1 hpool
      cases hpool
      obtain ⟨_, -, h⟩ := Except.bind_eq_ok.1 h
      obtain ⟨_, hle, h⟩ := Except.bind_eq_ok.1 h
      cases h
      exact ⟨rfl, fun _ ↦ ⟨(fcAssert_eq_ok.1 hrange).2, fcAssert_eq_ok.1 hle⟩⟩
  · rintro ⟨hx, hauthorized, rfl, hlimits⟩
    unfold prepareFee
    rw [fcAssert_of_true hx, Except.ok_bind, fcAssert_of_true hauthorized, Except.ok_bind]
    by_cases ha : a = coreAsset
    · rw [if_pos (show (⟨x, a⟩ : Asset).assetId = coreAsset from ha), down, ht.unit ha,
        Int.mul_ediv_cancel _ ht.pos'.ne']
      rfl
    · obtain ⟨hmax, hpool⟩ := hlimits ha
      rw [if_neg (show ¬(⟨x, a⟩ : Asset).assetId = coreAsset from ha), hA, ht.mul ha,
        Asset.quotient_eq coreAsset ht.pos (hdown hx) hmax, Except.ok_bind, fcAssert_of_true rfl,
          Except.ok_bind]
      show (do fcAssert (down x d n ≤ A.feePool) _; pure (down x d n)) = _
      rw [fcAssert_of_true hpool]
      rfl

/-- **A fee passes the check exactly if it is no less than the calculated one.** -/
theorem evaluateFee_eq {n d : ℤ} (ht : CoreTerms rate a n d) {A : FeeAsset}
    (hA : A.coreExchangeRate = rate)
    {r paid : ℤ} (hr : s.calculateFee op = .ok ⟨r, coreAsset⟩) (hfee : op.fee.assetId = a)
    (hpaid : prepareFee A op.fee = .ok paid) :
    s.evaluateFee A false op = if up r n d ≤
      op.fee.amount then .ok paid else .error insufficientFee := by
  have hdown : paid = down op.fee.amount d n := by
    subst hfee
    exact ((prepareFee_eq_ok ht hA).1 hpaid).2.2.1
  have hadjoint : up r n d ≤ op.fee.amount ↔ r ≤ paid := by
    rw [hdown]
    exact up_le_iff_le_down ht.pos ht.pos'
  unfold evaluateFee
  rw [hpaid, Except.ok_bind, if_neg Bool.false_ne_true, hr, Except.ok_bind]
  by_cases hle : r ≤ paid
  · rw [if_pos hle, if_pos (hadjoint.2 hle)]
    rfl
  · rw [if_neg hle, if_neg fun h ↦ hle (hadjoint.1 h)]

/-- Less of the asset can be prepared whenever more can. -/
theorem prepareFee_of_le {n d : ℤ} (ht : CoreTerms rate a n d) {A : FeeAsset}
    (hA : A.coreExchangeRate = rate)
    {x y paid : ℤ} (hpaid : prepareFee A ⟨x, a⟩ = .ok paid) (hy : 0 ≤ y) (hle : y ≤ x) :
    prepareFee A ⟨y, a⟩ = .ok (down y d n) := by
  obtain ⟨-, hauthorized, rfl, hlimits⟩ := (prepareFee_eq_ok ht hA).1 hpaid
  have hmono : down y d n ≤ down x d n := down_mono ht.pos'.le ht.pos hle
  refine (prepareFee_eq_ok ht hA).2 ⟨hy, hauthorized, rfl, fun ha ↦ ?_⟩
  exact ⟨hmono.trans (hlimits ha).1, hmono.trans (hlimits ha).2⟩

/-! ### Operations with their fees -/

/-- The schedule does not refuse the fee of an operation, whatever there is in the pool. -/
structure Passes (s : FeeSchedule) (rate : Price) (a : AssetId) (op : FeeOperation) : Prop where
  asset : op.fee.assetId = a
  nonneg : 0 ≤ op.fee.amount
  passes (A : FeeAsset) (paid : ℤ) (hA : A.coreExchangeRate = rate)
    (hpaid : prepareFee A op.fee = .ok paid) :
    s.evaluateFee A false op = .ok paid

/-- A smaller fee in the same asset is refused. -/
def Least (s : FeeSchedule) (rate : Price) (op : FeeOperation) : Prop :=
  ∀ (A : FeeAsset) (paid y : ℤ), A.coreExchangeRate = rate → prepareFee A op.fee = .ok paid → 0 ≤
    y → y < op.fee.amount →
    s.evaluateFee A false (op.withFee ⟨y, op.fee.assetId⟩) = .error insufficientFee

theorem setFee_passes (hrate : CoreRate rate a) (h : s.setFee rate op = .ok (f, op')) :
    s.Passes rate a op' := by
  obtain ⟨n, d, ht⟩ := hrate.exists_terms
  obtain ⟨r₁, r₂, -, hr₂, rfl, hnonneg, rfl⟩ := setFee_spec ht h
  refine ⟨by simp, by simpa using hnonneg, fun A paid hA hpaid ↦ ?_⟩
  rw [evaluateFee_eq ht hA hr₂ (by simp) hpaid, if_pos (by simp)]

theorem setFee_least (hrate : CoreRate rate a) (h : s.setFee rate op = .ok (f, op'))
    (hsize : unsignedIntSize op.fee.assetId = unsignedIntSize a) : s.Least rate op' := by
  obtain ⟨n, d, ht⟩ := hrate.exists_terms
  obtain ⟨r₁, r₂, hr₁, hr₂, rfl, hnonneg, rfl⟩ := setFee_spec ht h
  have hsame : r₁ = r₂ := by
    rw [calculateFee_withFee hsize.symm, hr₁] at hr₂
    exact (Asset.mk.inj (Except.ok.inj hr₂)).1
  subst hsame
  intro A paid y hA hpaid hy hlt
  rw [FeeOperation.fee_withFee] at hpaid hlt ⊢
  rw [max_self] at hpaid hlt
  rw [FeeOperation.withFee_withFee]
  have hr : s.calculateFee (op.withFee ⟨y, a⟩) = .ok ⟨r₁, coreAsset⟩ := by
    rw [calculateFee_withFee hsize.symm, hr₁]
  have hprepared : prepareFee A (op.withFee ⟨y, a⟩).fee = .ok (down y d n) := by
    rw [FeeOperation.fee_withFee]
    exact prepareFee_of_le ht hA hpaid hy hlt.le
  rw [evaluateFee_eq ht hA hr (by simp) hprepared, FeeOperation.fee_withFee, if_neg
    (not_le.mpr hlt)]

end FeeSchedule

namespace FeeOperation

mutual

/-- The fees of an operation, as the API lists them. -/
def requiredFee : FeeOperation → RequiredFee
  | single _ _ _ fee _ => .single fee
  | proposalCreate fee _ proposedOps => .proposalCreate fee (requiredFees proposedOps)

/-- The fees of a list of operations. -/
def requiredFees : List FeeOperation → List RequiredFee
  | [] => []
  | op :: ops => requiredFee op :: requiredFees ops

end

mutual

/-- An operation without its fees. -/
def withoutFees : FeeOperation → FeeOperation
  | single which h content _ size => single which h content {} size
  | proposalCreate _ size proposedOps => proposalCreate {} size (allWithoutFees proposedOps)

/-- The operations of a list without their fees. -/
def allWithoutFees : List FeeOperation → List FeeOperation
  | [] => []
  | op :: ops => withoutFees op :: allWithoutFees ops

end

end FeeOperation

namespace FeeSchedule

open FeeOperation

variable {s : FeeSchedule} {rate : Price} {a : AssetId}

/-- What the API does with operations: the answer lists the fees that are set, nothing but the fees
changes, and no fee is refused. Fees that were asked for in an asset of the same size are least. -/
structure Answered (s : FeeSchedule) (rate : Price) (a : AssetId) (ops : List FeeOperation)
    (fees : List RequiredFee)
    (ops' : List FeeOperation) : Prop where
  fees : fees = requiredFees ops'
  rest : allWithoutFees ops' = allWithoutFees ops
  passes : ∀ op ∈ allNested ops', s.Passes rate a op
  least : (∀ op ∈ allNested ops, unsignedIntSize op.fee.assetId = unsignedIntSize a) →
    ∀ op ∈ allNested ops', s.Least rate op

theorem Answered.nil : Answered s rate a [] [] [] where
  fees := by simp [requiredFees]
  rest := rfl
  passes := by simp [allNested]
  least := by simp [allNested]

theorem Answered.cons {op op' : FeeOperation} {ops ops' : List FeeOperation} {fee : RequiredFee}
    {fees : List RequiredFee}
    (h : Answered s rate a [op] [fee] [op']) (hs : Answered s rate a ops fees ops') :
    Answered s rate a (op :: ops) (fee :: fees) (op' :: ops') := by
  have hfee := h.fees
  have hrest := h.rest
  have hpasses := h.passes
  have hleast := h.least
  simp only [requiredFees, allWithoutFees, allNested, List.append_nil, List.cons.injEq,
    and_true] at hfee hrest hpasses hleast
  constructor
  · simp only [requiredFees, ← hfee, ← hs.fees]
  · simp only [allWithoutFees, hrest, hs.rest]
  · intro x hx
    simp only [allNested, List.mem_append] at hx
    exact hx.elim (hpasses x) (hs.passes x)
  · intro hsize x hx
    simp only [allNested, List.mem_append] at hx hsize
    exact hx.elim (hleast (fun y hy ↦ hsize y (.inl hy)) x)
      (hs.least (fun y hy ↦ hsize y (.inr hy)) x)

mutual

theorem setOpFees_spec (hrate : CoreRate rate a) {depth : ℕ} :
    ∀ (op : FeeOperation) {fee : RequiredFee} {op' : FeeOperation}, s.setOpFees rate depth op = .ok
      (fee, op') →
      Answered s rate a [op] [fee] [op']
  | .single which hwhich content fee size, answer, op', h => by
    rw [setOpFees] at h
    obtain ⟨⟨f, op''⟩, hset, h⟩ := Except.bind_eq_ok.1 h
    cases h
    obtain ⟨n, d, ht⟩ := hrate.exists_terms
    obtain ⟨-, -, -, -, -, -, rfl⟩ := setFee_spec ht hset
    have hpasses := setFee_passes hrate hset
    have hleast := setFee_least hrate hset
    simp only [withFee] at hpasses hleast ⊢
    constructor
    · simp only [requiredFees, requiredFee]
    · simp only [allWithoutFees, withoutFees]
    · simpa only [allNested, nested, List.append_nil, List.mem_singleton, forall_eq] using hpasses
    · simpa only [allNested, nested, List.append_nil, List.mem_singleton, forall_eq] using hleast
  | .proposalCreate fee size proposedOps, answer, op', h => by
    rw [setOpFees] at h
    obtain ⟨⟨fees, ops'⟩, hproposed, h⟩ := Except.bind_eq_ok.1 h
    obtain ⟨⟨f, op''⟩, hset, h⟩ := Except.bind_eq_ok.1 h
    cases h
    have hs := setProposedOpFees_spec hrate proposedOps hproposed
    obtain ⟨n, d, ht⟩ := hrate.exists_terms
    obtain ⟨-, -, -, -, -, -, rfl⟩ := setFee_spec ht hset
    have hpasses := setFee_passes hrate hset
    have hleast := setFee_least hrate hset
    simp only [withFee] at hpasses hleast ⊢
    constructor
    · simp only [requiredFees, requiredFee, hs.fees]
    · simp only [allWithoutFees, withoutFees, hs.rest]
    · simp only [allNested, nested, List.append_nil, List.mem_cons, forall_eq_or_imp]
      exact ⟨hpasses, hs.passes⟩
    · simp only [allNested, nested, List.append_nil, List.mem_cons, forall_eq_or_imp]
      exact fun hsize ↦ ⟨hleast hsize.1, hs.least hsize.2⟩

theorem setProposedOpFees_spec (hrate : CoreRate rate a) {depth : ℕ} :
    ∀ (ops : List FeeOperation) {fees : List RequiredFee} {ops' : List FeeOperation},
      s.setProposedOpFees rate depth ops = .ok (fees, ops') → Answered s rate a ops fees ops'
  | [], fees, ops', h => by
    rw [setProposedOpFees] at h
    cases h
    exact .nil
  | op :: ops, fees, ops', h => by
    rw [setProposedOpFees] at h
    obtain ⟨_, -, h⟩ := Except.bind_eq_ok.1 h
    obtain ⟨⟨fee, op'⟩, hop, h⟩ := Except.bind_eq_ok.1 h
    obtain ⟨⟨fees', ops''⟩, hops, h⟩ := Except.bind_eq_ok.1 h
    cases h
    exact .cons (setOpFees_spec hrate op hop) (setProposedOpFees_spec hrate ops hops)

end

/-- **Required fees are accepted.** The answer for any operations, proposals in proposals included,
lists the fees of operations that no evaluator refuses for their fees, and a smaller fee in that
asset is refused. -/
theorem required_fees_accepted (s : FeeSchedule) {rate : Price} {a : AssetId}
    (hrate : CoreRate rate a)
    {ops : List FeeOperation} {fees : List RequiredFee} {ops' : List FeeOperation}
    (h : s.getRequiredFees rate ops = .ok (fees, ops')) : Answered s rate a ops fees ops' := by
  induction ops generalizing fees ops' with
  | nil =>
    cases h
    exact .nil
  | cons op ops ih =>
    obtain ⟨⟨fee, op'⟩, hop, h⟩ := Except.bind_eq_ok.1 h
    obtain ⟨⟨fees', ops''⟩, hops, h⟩ := Except.bind_eq_ok.1 h
    cases h
    exact .cons (setOpFees_spec hrate op hop) (ih hops)

/-- Three units of an asset for two of core. -/
def sampleRate : Price := ⟨⟨2, coreAsset⟩, ⟨3, 300⟩⟩

/-- A proposal of a transfer with a memo, and a limit order. -/
def sampleOperations : List FeeOperation := [
  .proposalCreate {} 12 [.single 0 (by decide) (some 40 : Option ℕ) {} 60],
  .single 1 (by decide) () {} 30]

theorem required_fees_accepted_sample : ∃ fees ops',
    getDefault.getRequiredFees sampleRate sampleOperations = .ok (fees, ops') ∧
      Answered getDefault sampleRate 300 sampleOperations fees ops' := by
  have hrate : CoreRate sampleRate 300 := ⟨by decide, by decide, .inl ⟨rfl, rfl⟩, by decide⟩
  have hok : (getDefault.getRequiredFees sampleRate sampleOperations).isOk = true :=
    by decide
  cases h : getDefault.getRequiredFees sampleRate sampleOperations with
  | error e =>
    rw [h] at hok
    cases hok
  | ok r => exact ⟨r.1, r.2, rfl, required_fees_accepted getDefault hrate h⟩

end FeeSchedule

end Playchain
