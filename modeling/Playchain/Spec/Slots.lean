import Mathlib.Data.Set.Card
import Mathlib.Data.List.Nodup
import Playchain.Graphene.WitnessSchedule

/-!
# Slots are counted consistently

The slots after a head block are at equal distances from an origin (`SlotState.origin`), as long as their
times fit in 32 bits, so that the slot at a time is the number of slots up to it. A block in slot `n` moves
the origin by `n` slots and the absolute slot by the same number, so that slot `k` after the block is slot
`n + k` before it, with the same witness; and the witnesses of the slots before it are those that missed a
block (`SlotState.slots_consistent`).
-/

namespace Playchain

namespace SlotState

variable {s s' : SlotState}

/-! ### Slot times without a width -/

/-- The properties of the slots without widths. -/
def exact (s : SlotState) : ChainProperties Unit where
  headBlockId := ()
  headBlockNum := s.headBlockNum.toNat
  headBlockTime := s.headBlockTime.toNat
  currentAslot := s.currentAslot.toNat
  maintenanceFlag := s.maintenanceFlag
  blockInterval := s.blockInterval.toNat
  maintenanceSkipSlots := s.maintenanceSkipSlots.toNat
  maximumBlockSize := 0
  currentShuffledWitnesses := s.currentShuffledWitnesses

/-- The time from which the slots after the head block are counted. -/
def origin (s : SlotState) : ℕ :=
  (s.headBlockTime.toNat / s.blockInterval.toNat +
    if s.maintenanceFlag then s.maintenanceSkipSlots.toNat else 0) * s.blockInterval.toNat

theorem dvd_origin (s : SlotState) : s.blockInterval.toNat ∣ s.origin := Dvd.intro_left _ rfl

theorem exact_getSlotTime (hnum : s.headBlockNum ≠ 0) {n : ℕ} (hn : n ≠ 0) :
    s.exact.getSlotTime n = s.origin + n * s.blockInterval.toNat := by
  have hnum' : s.exact.headBlockNum ≠ 0 := fun h ↦ hnum (UInt32.toNat_inj.mp h)
  rw [ChainProperties.getSlotTime, if_neg hn, if_neg hnum', origin]
  by_cases hflag : s.maintenanceFlag = true
  · rw [if_pos hflag, if_pos (show s.exact.maintenanceFlag = true from hflag)]
    dsimp only [exact]
    ring
  · rw [if_neg hflag, if_neg (show ¬ s.exact.maintenanceFlag = true from hflag)]
    dsimp only [exact]
    ring

/-- A slot time that fits is computed exactly. -/
theorem getSlotTime_toNat {n : UInt32} (hfit : s.exact.getSlotTime n.toNat < 2 ^ 32) :
    (s.getSlotTime n).toNat = s.exact.getSlotTime n.toNat := by
  have hn : n = 0 ↔ n.toNat = 0 := UInt32.toNat_inj.symm
  have hnum : s.headBlockNum = 0 ↔ s.exact.headBlockNum = 0 := UInt32.toNat_inj.symm
  unfold getSlotTime
  unfold ChainProperties.getSlotTime at hfit ⊢
  by_cases h₀ : n = 0
  · rw [if_pos h₀, if_pos (hn.mp h₀)]
    rfl
  · rw [if_neg (fun h ↦ h₀ (hn.mpr h))] at hfit
    rw [if_neg h₀, if_neg (fun h ↦ h₀ (hn.mpr h))]
    by_cases h₁ : s.headBlockNum = 0
    · rw [if_pos (hnum.mp h₁)] at hfit
      rw [if_pos h₁, if_pos (hnum.mp h₁), UInt32.toNat_add, UInt32.toNat_mul, UInt8.toNat_toUInt32,
        Nat.add_mod_mod]
      exact Nat.mod_eq_of_lt hfit
    · rw [if_neg (fun h ↦ h₁ (hnum.mpr h))] at hfit
      rw [if_neg h₁, if_neg (fun h ↦ h₁ (hnum.mpr h)), UInt32.toNat_add, UInt32.toNat_mul, UInt32.toNat_mul,
        UInt32.toNat_div, UInt8.toNat_toUInt32, Nat.add_mod_mod, Nat.mod_add_mod]
      by_cases hflag : s.maintenanceFlag = true
      · have hflag' : s.exact.maintenanceFlag = true := hflag
        rw [if_pos hflag'] at hfit
        rw [if_pos hflag, if_pos hflag', UInt32.toNat_add, UInt8.toNat_toUInt32, Nat.add_mod, Nat.mod_mul_mod,
          ← Nat.add_mod]
        exact Nat.mod_eq_of_lt hfit
      · have hflag' : ¬ s.exact.maintenanceFlag = true := hflag
        rw [if_neg hflag'] at hfit
        rw [if_neg hflag, if_neg hflag']
        exact Nat.mod_eq_of_lt hfit

/-! ### The slot at a time -/

/-- What the code maintains: intervals are positive, blocks are at least a second apart, no block counts as
many slots as there are 32-bit numbers, and no witness is scheduled twice. -/
structure WellFormed (s : SlotState) : Prop where
  interval_pos : 0 < s.blockInterval.toNat
  num_le : s.headBlockNum.toNat ≤ s.headBlockTime.toNat
  aslot_le : s.currentAslot.toNat ≤ s.headBlockNum.toNat * (2 ^ 32 - 1)
  active_nodup : s.activeWitnesses.Nodup
  shuffled_nodup : s.currentShuffledWitnesses.Nodup

theorem getSlotAtTime_toNat (hs : s.WellFormed) (hnum : s.headBlockNum ≠ 0)
    (hfirst : s.exact.getSlotTime 1 < 2 ^ 32) (t : UInt32) :
    (s.getSlotAtTime t).toNat = (t.toNat - s.origin) / s.blockInterval.toNat := by
  have hpos := hs.interval_pos
  have htime : (s.getSlotTime 1).toNat = s.origin + s.blockInterval.toNat := by
    rw [getSlotTime_toNat (n := 1) hfirst]
    exact (exact_getSlotTime hnum one_ne_zero).trans (by rw [Nat.one_mul])
  have ht := t.toNat_lt
  unfold getSlotAtTime
  split_ifs with hlt
  · rw [UInt32.lt_iff_toNat_lt, htime] at hlt
    exact (Nat.div_eq_of_lt (by omega)).symm
  · rw [UInt32.lt_iff_toNat_lt, htime] at hlt
    have hle : s.getSlotTime 1 ≤ t := by
      rw [UInt32.le_iff_toNat_le, htime]
      omega
    have hsucc : (t.toNat - s.origin) / s.blockInterval.toNat =
        (t.toNat - (s.origin + s.blockInterval.toNat)) / s.blockInterval.toNat + 1 := by
      rw [← Nat.add_div_right _ hpos]
      congr 1
      omega
    have hdiv : (t.toNat - (s.origin + s.blockInterval.toNat)) / s.blockInterval.toNat ≤
        t.toNat - (s.origin + s.blockInterval.toNat) := Nat.div_le_self _ _
    rw [UInt32.toNat_add, UInt32.toNat_div, UInt32.toNat_sub_of_le _ _ hle, UInt8.toNat_toUInt32, htime, hsucc]
    exact Nat.mod_eq_of_lt (by simp only [UInt32.toNat_one]; omega)

/-- A slot is not later than a time exactly when it is among the slots that are counted for it. -/
theorem exact_le_iff (hs : s.WellFormed) (hnum : s.headBlockNum ≠ 0) {n : ℕ} (hn : n ≠ 0) (t : ℕ) :
    s.exact.getSlotTime n ≤ t ↔ n ≤ (t - s.origin) / s.blockInterval.toNat := by
  have hpos := hs.interval_pos
  rw [exact_getSlotTime hnum hn, Nat.le_div_iff_mul_le hpos]
  have : 0 < n * s.blockInterval.toNat := Nat.mul_pos (Nat.pos_of_ne_zero hn) hpos
  omega

/-- The slots whose times are not later than `t`. -/
def slotsUpTo (s : SlotState) (t : UInt32) : Set UInt32 :=
  {n | 0 < n ∧ s.exact.getSlotTime n.toNat < 2 ^ 32 ∧ s.getSlotTime n ≤ t}

theorem mem_slotsUpTo (hs : s.WellFormed) (hnum : s.headBlockNum ≠ 0)
    (hfirst : s.exact.getSlotTime 1 < 2 ^ 32) {t n : UInt32} :
    n ∈ s.slotsUpTo t ↔ 0 < n.toNat ∧ n.toNat ≤ (s.getSlotAtTime t).toNat := by
  rw [getSlotAtTime_toNat hs hnum hfirst, slotsUpTo, Set.mem_ofPred_eq, UInt32.lt_iff_toNat_lt]
  constructor
  · rintro ⟨hn, hfit, hle⟩
    rw [UInt32.le_iff_toNat_le, getSlotTime_toNat hfit] at hle
    exact ⟨hn, (exact_le_iff hs hnum (by simpa using hn.ne') _).mp hle⟩
  · rintro ⟨hn, hle⟩
    have hle' := (exact_le_iff hs hnum hn.ne' _).mpr hle
    have hfit := hle'.trans_lt t.toNat_lt
    refine ⟨hn, hfit, ?_⟩
    rw [UInt32.le_iff_toNat_le, getSlotTime_toNat hfit]
    exact hle'

theorem ncard_slotsUpTo (hs : s.WellFormed) (hnum : s.headBlockNum ≠ 0)
    (hfirst : s.exact.getSlotTime 1 < 2 ^ 32) (t : UInt32) :
    (s.slotsUpTo t).ncard = (s.getSlotAtTime t).toNat := by
  have himage : UInt32.toNat '' s.slotsUpTo t = Finset.Icc 1 (s.getSlotAtTime t).toNat := by
    ext n
    rw [Set.mem_image, Finset.coe_Icc, Set.mem_Icc]
    constructor
    · rintro ⟨m, hm, rfl⟩
      exact (mem_slotsUpTo hs hnum hfirst).mp hm
    · intro hn
      have hlt : n < 2 ^ 32 := hn.2.trans_lt (UInt32.toNat_lt _)
      have heq : (UInt32.ofNat n).toNat = n := by rw [UInt32.toNat_ofNat', Nat.mod_eq_of_lt hlt]
      exact ⟨.ofNat n, (mem_slotsUpTo hs hnum hfirst).mpr (by rwa [heq]), heq⟩
  rw [← Set.ncard_image_of_injective _ (fun _ _ h ↦ UInt32.toNat_inj.mp h), himage, Set.ncard_coe_finset,
    Nat.card_Icc, Nat.add_sub_cancel]

/-! ### Missed blocks -/

theorem foldl_addMissed (ws : List WitnessId) (missed : WitnessId → ℕ) (w : WitnessId) :
    ws.foldl addMissed missed w = missed w + ws.count w := by
  induction ws generalizing missed with
  | nil => rfl
  | cons v ws ih =>
    rw [List.foldl_cons, ih, addMissed, List.count_cons]
    by_cases hw : v = w
    · subst hw
      rw [Function.update_self, beq_self_eq_true, if_pos rfl]
      omega
    · rw [Function.update_of_ne (Ne.symm hw), if_neg (by simpa using hw)]
      omega

/-- The witnesses of the first slots after the head block. -/
def scheduledWitnesses (s : SlotState) (n : ℕ) : List WitnessId :=
  (List.range n).map fun i ↦ s.getScheduledWitness (.ofNat (i + 1))

/-- Fewer slots than there are witnesses have different witnesses. -/
theorem scheduledWitnesses_nodup (hs : s.WellFormed) {n : ℕ} (hn : n < s.currentShuffledWitnesses.length)
    (hslots : n < 2 ^ 32) (haslot : s.currentAslot.toNat + n < 2 ^ 64) : (s.scheduledWitnesses n).Nodup := by
  refine List.Nodup.map_on ?_ List.nodup_range
  intro i hi j hj heq
  rw [List.mem_range] at hi hj
  have hslot : ∀ k < n, (s.currentAslot + (UInt32.ofNat (k + 1)).toUInt64).toNat =
      s.currentAslot.toNat + (k + 1) := by
    intro k hk
    rw [UInt64.toNat_add, UInt32.toNat_toUInt64, UInt32.toNat_ofNat', Nat.mod_eq_of_lt (show k + 1 < 2 ^ 32 by omega),
      Nat.mod_eq_of_lt (by omega)]
  have hlen : 0 < s.currentShuffledWitnesses.length := by omega
  unfold getScheduledWitness at heq
  rw [hslot i hi, hslot j hj,
    List.getD_inj (Nat.mod_lt _ hlen) (Nat.mod_lt _ hlen) hs.shuffled_nodup] at heq
  have hmod : (i + 1) % s.currentShuffledWitnesses.length = (j + 1) % s.currentShuffledWitnesses.length :=
    Nat.ModEq.add_left_cancel' _ heq
  rw [Nat.mod_eq_of_lt (by omega), Nat.mod_eq_of_lt (by omega)] at hmod
  omega

/-- The witness has one of the slots between the head block and a slot. -/
def ScheduledBefore (s : SlotState) (slot : UInt32) (w : WitnessId) : Prop :=
  ∃ i, 0 < i ∧ i < slot ∧ s.getScheduledWitness i = w

theorem mem_scheduledWitnesses {slot : UInt32} (hslot : slot ≠ 0) {w : WitnessId} :
    w ∈ s.scheduledWitnesses (slot.toNat - 1) ↔ s.ScheduledBefore slot w := by
  have hlt := slot.toNat_lt
  have hpos : slot.toNat ≠ 0 := fun h ↦ hslot (UInt32.toNat_inj.mp h)
  simp only [scheduledWitnesses, List.mem_map, List.mem_range, ScheduledBefore, UInt32.lt_iff_toNat_lt]
  constructor
  · rintro ⟨i, hi, rfl⟩
    have heq : (UInt32.ofNat (i + 1)).toNat = i + 1 := by
      rw [UInt32.toNat_ofNat', Nat.mod_eq_of_lt (by omega)]
    exact ⟨_, by rw [heq]; simp, by omega, rfl⟩
  · rintro ⟨i, hi, hi', rfl⟩
    rw [UInt32.toNat_zero] at hi
    refine ⟨i.toNat - 1, by omega, ?_⟩
    rw [show i.toNat - 1 + 1 = i.toNat by omega, UInt32.ofNat_toNat]

/-- Exactly the witnesses of the missed slots are blamed, once. -/
theorem updateWitnessMissedBlocks_apply (hs : s.WellFormed) {slot : UInt32} (hslot : slot ≠ 0)
    (hn : slot.toNat - 1 < s.currentShuffledWitnesses.length)
    (haslot : s.currentAslot.toNat + slot.toNat < 2 ^ 64) (w : WitnessId) :
    (s.ScheduledBefore slot w → s.updateWitnessMissedBlocks (slot - 1) w = s.totalMissed w + 1) ∧
      (¬ s.ScheduledBefore slot w → s.updateWitnessMissedBlocks (slot - 1) w = s.totalMissed w) := by
  have hpos : slot.toNat ≠ 0 := fun h ↦ hslot (UInt32.toNat_inj.mp h)
  have hlt := slot.toNat_lt
  have hpred : (slot - 1).toNat = slot.toNat - 1 := by
    rw [UInt32.toNat_sub_of_le _ _ (by rw [UInt32.le_iff_toNat_le, UInt32.toNat_one]; omega), UInt32.toNat_one]
  have hcount : s.updateWitnessMissedBlocks (slot - 1) w =
      s.totalMissed w + (s.scheduledWitnesses (slot.toNat - 1)).count w := by
    rw [updateWitnessMissedBlocks, hpred, if_pos hn, ← foldl_addMissed, scheduledWitnesses, List.foldl_map]
  have hnodup := scheduledWitnesses_nodup hs hn (by omega) (by omega)
  rw [hcount, ← mem_scheduledWitnesses hslot]
  constructor
  · intro hw
    rw [List.count_eq_one_of_mem hnodup hw]
  · intro hw
    rw [List.count_eq_zero_of_not_mem hw, Nat.add_zero]

/-! ### Blocks -/

/-- A maintenance decides on a positive interval and on different witnesses. -/
structure MaintenanceOutcome.Valid (outcome : MaintenanceOutcome) : Prop where
  interval_pos : 0 < outcome.blockInterval.toNat
  active_ne : outcome.activeWitnesses ≠ []
  active_nodup : outcome.activeWitnesses.Nodup

theorem shuffle_perm (time : UInt32) (ws : List WitnessId) : (shuffle time ws).Perm ws := by
  have hfold : ∀ (is : List ℕ) (f : ℕ → ℕ) (a : Array WitnessId), a.toList.Perm ws →
      (is.foldl (fun (a : Array WitnessId) i ↦ a.swapIfInBounds i (f i)) a).toList.Perm ws := by
    intro is f
    induction is with
    | nil => exact fun _ h ↦ h
    | cons i is ih =>
      intro a ha
      refine ih _ ?_
      dsimp only
      unfold Array.swapIfInBounds
      split_ifs
      · exact (Array.swap_perm _ _).toList.trans ha
      · exact ha
      · exact ha
  exact hfold _ _ _ (List.Perm.refl _)

/-- What a block leaves: everything but the schedule is fixed by its slot. -/
theorem applyBlock_inv {skip : Bool} {t : UInt32} {w : WitnessId} {outcome : MaintenanceOutcome}
    (h : s.applyBlock skip t w outcome = some s') :
    s.headBlockTime < t ∧ s.getSlotAtTime t ≠ 0 ∧
    s'.headBlockNum = s.headBlockNum + 1 ∧ s'.headBlockTime = t ∧
    s'.currentAslot = s.currentAslot + (s.getSlotAtTime t).toUInt64 ∧
    s'.totalMissed = s.updateWitnessMissedBlocks (s.getSlotAtTime t - 1) ∧
    s'.maintenanceFlag = decide (s.nextMaintenanceTime ≤ t) ∧
    s'.blockInterval = (if s.nextMaintenanceTime ≤ t then outcome.blockInterval else s.blockInterval) ∧
    s'.activeWitnesses = (if s.nextMaintenanceTime ≤ t then outcome.activeWitnesses else s.activeWitnesses) ∧
    (s'.currentShuffledWitnesses = s.currentShuffledWitnesses ∨
      s'.currentShuffledWitnesses = shuffle t s'.activeWitnesses) := by
  unfold applyBlock at h
  split_ifs at h with hheader hslot
  have hlt : s.headBlockTime < t := by
    rw [Bool.not_eq_false, validateBlockHeader, Bool.and_eq_true, decide_eq_true_eq] at hheader
    exact hheader.1
  have hslot' : s.getSlotAtTime t - 1 + 1 = s.getSlotAtTime t := by
    rw [UInt32.sub_add_cancel]
  obtain rfl := Option.some.inj h
  unfold updateWitnessSchedule updateGlobalDynamicData performMaintenance
  by_cases hdue : s.nextMaintenanceTime ≤ t
  · simp only [hdue, decide_true, if_true, hslot']
    split_ifs
    · exact ⟨hlt, hslot, rfl, rfl, rfl, rfl, rfl, rfl, rfl, .inr rfl⟩
    · exact ⟨hlt, hslot, rfl, rfl, rfl, rfl, rfl, rfl, rfl, .inl rfl⟩
  · simp only [hdue, decide_false, Bool.false_eq_true, if_false, hslot']
    split_ifs
    · exact ⟨hlt, hslot, rfl, rfl, rfl, rfl, rfl, rfl, rfl, .inr rfl⟩
    · exact ⟨hlt, hslot, rfl, rfl, rfl, rfl, rfl, rfl, rfl, .inl rfl⟩

theorem succ_num_of_lt (hle : s.headBlockNum.toNat ≤ s.headBlockTime.toNat) {t : UInt32} (h : s.headBlockTime < t) :
    (s.headBlockNum + 1).toNat = s.headBlockNum.toNat + 1 ∧ s.headBlockNum.toNat + 1 ≤ t.toNat := by
  have hlt := UInt32.lt_iff_toNat_lt.mp h
  have hbound := t.toNat_lt
  refine ⟨?_, by omega⟩
  rw [UInt32.toNat_add, UInt32.toNat_one]
  exact Nat.mod_eq_of_lt (by omega)

/-- The absolute slot does not wrap. -/
theorem aslot_add_lt (hnum : s.headBlockNum.toNat ≤ s.headBlockTime.toNat)
    (hle : s.currentAslot.toNat ≤ s.headBlockNum.toNat * (2 ^ 32 - 1)) (slot : UInt32) :
    s.currentAslot.toNat + slot.toNat ≤ (s.headBlockNum.toNat + 1) * (2 ^ 32 - 1) ∧
      s.currentAslot.toNat + slot.toNat < 2 ^ 64 := by
  have hslot := slot.toNat_lt
  have hbound := s.headBlockTime.toNat_lt
  have hsum : s.currentAslot.toNat + slot.toNat ≤ (s.headBlockNum.toNat + 1) * (2 ^ 32 - 1) := by
    rw [Nat.add_mul, Nat.one_mul]
    omega
  refine ⟨hsum, hsum.trans_lt ?_⟩
  calc (s.headBlockNum.toNat + 1) * (2 ^ 32 - 1)
      ≤ 2 ^ 32 * (2 ^ 32 - 1) := Nat.mul_le_mul_right _ (by omega)
    _ < 2 ^ 64 := by norm_num

theorem WellFormed.applyBlock (hs : s.WellFormed) {skip : Bool} {t : UInt32} {w : WitnessId}
    {outcome : MaintenanceOutcome} (hvalid : MaintenanceOutcome.Valid outcome)
    (h : s.applyBlock skip t w outcome = some s') : s'.WellFormed := by
  obtain ⟨hlt, -, hnum, htime, haslot, -, -, hinterval, hactive, hshuffled⟩ := applyBlock_inv h
  have hsucc := succ_num_of_lt hs.num_le hlt
  have hsum := aslot_add_lt hs.num_le hs.aslot_le (s.getSlotAtTime t)
  have hnodup : s'.activeWitnesses.Nodup := by
    rw [hactive]
    split_ifs
    · exact hvalid.active_nodup
    · exact hs.active_nodup
  refine ⟨?_, ?_, ?_, hnodup, ?_⟩
  · rw [hinterval]
    split_ifs
    · exact hvalid.interval_pos
    · exact hs.interval_pos
  · rw [hnum, htime, hsucc.1]
    exact hsucc.2
  · rw [hnum, haslot, hsucc.1, UInt64.toNat_add, UInt32.toNat_toUInt64, Nat.mod_eq_of_lt hsum.2]
    exact hsum.1
  · rcases hshuffled with heq | heq
    · rw [heq]
      exact hs.shuffled_nodup
    · rw [heq, (shuffle_perm _ _).nodup_iff]
      exact hnodup

/-- The state of the genesis: the witnesses are scheduled in their order. -/
def genesis (time nextMaintenanceTime : UInt32) (blockInterval maintenanceSkipSlots : UInt8)
    (witnesses : List WitnessId) : SlotState where
  headBlockNum := 0
  headBlockTime := time
  currentAslot := 0
  maintenanceFlag := false
  nextMaintenanceTime := nextMaintenanceTime
  blockInterval := blockInterval
  maintenanceSkipSlots := maintenanceSkipSlots
  activeWitnesses := witnesses
  currentShuffledWitnesses := witnesses
  totalMissed := fun _ ↦ 0

/-- The states of a chain. -/
inductive Reachable : SlotState → Prop where
  | genesis (time nextMaintenanceTime : UInt32) (blockInterval maintenanceSkipSlots : UInt8)
      (witnesses : List WitnessId) : 0 < blockInterval.toNat → witnesses ≠ [] → witnesses.Nodup →
      Reachable (genesis time nextMaintenanceTime blockInterval maintenanceSkipSlots witnesses)
  | block {s s' : SlotState} (skip : Bool) (t : UInt32) (w : WitnessId) (outcome : MaintenanceOutcome) :
      Reachable s → MaintenanceOutcome.Valid outcome → s.applyBlock skip t w outcome = some s' → Reachable s'

theorem Reachable.wellFormed (h : Reachable s) : s.WellFormed := by
  induction h with
  | genesis _ _ _ _ _ hpos _ hnodup => exact ⟨hpos, Nat.zero_le _, Nat.zero_le _, hnodup, hnodup⟩
  | block _ _ _ _ _ hvalid h ih => exact ih.applyBlock hvalid h

/-- A block that is not a maintenance block moves the origin to its slot. -/
theorem origin_applyBlock (hs : s.WellFormed) (hnum : s.headBlockNum ≠ 0)
    (hfirst : s.exact.getSlotTime 1 < 2 ^ 32) {skip : Bool} {t : UInt32} {w : WitnessId}
    {outcome : MaintenanceOutcome} (h : s.applyBlock skip t w outcome = some s')
    (hnot : t < s.nextMaintenanceTime) :
    s'.blockInterval = s.blockInterval ∧
      s'.origin = s.origin + (s.getSlotAtTime t).toNat * s.blockInterval.toNat := by
  obtain ⟨-, hslot, -, htime, -, -, hflag, hinterval, -, -⟩ := applyBlock_inv h
  have hdue : ¬ s.nextMaintenanceTime ≤ t := by simpa using hnot
  rw [if_neg hdue] at hinterval
  refine ⟨hinterval, ?_⟩
  have hpos := hs.interval_pos
  have hdiv := getSlotAtTime_toNat hs hnum hfirst t
  have hne : (s.getSlotAtTime t).toNat ≠ 0 := fun hz ↦ hslot (UInt32.toNat_inj.mp hz)
  have hle : s.origin ≤ t.toNat := by
    by_contra hlt
    rw [Nat.sub_eq_zero_of_le (by omega), Nat.zero_div] at hdiv
    exact hne hdiv
  -- the origin is a multiple of the interval, and the time lies in the slot after it
  have hquot : t.toNat / s.blockInterval.toNat = s.origin / s.blockInterval.toNat +
      (s.getSlotAtTime t).toNat := by
    rw [hdiv, ← Nat.add_div_of_dvd_right s.dvd_origin, Nat.add_sub_cancel' hle]
  have horigin : s.origin / s.blockInterval.toNat * s.blockInterval.toNat = s.origin :=
    Nat.div_mul_cancel s.dvd_origin
  rw [origin, hflag, decide_eq_false hdue, htime, hinterval, if_neg Bool.false_ne_true, Nat.add_zero, hquot,
    Nat.add_mul, horigin]

/-- **Slot `k` after a block is slot `n + k` before it**, when the block is in slot `n`. -/
theorem getSlotTime_applyBlock (hs : s.WellFormed) (hnum : s.headBlockNum ≠ 0)
    (hfirst : s.exact.getSlotTime 1 < 2 ^ 32) {skip : Bool} {t : UInt32} {w : WitnessId}
    {outcome : MaintenanceOutcome} (h : s.applyBlock skip t w outcome = some s')
    (hnot : t < s.nextMaintenanceTime) {k : UInt32} (hk : 0 < k)
    (hfit : s.exact.getSlotTime ((s.getSlotAtTime t).toNat + k.toNat) < 2 ^ 32) :
    (s.getSlotAtTime t + k).toNat = (s.getSlotAtTime t).toNat + k.toNat ∧
      s'.getSlotTime k = s.getSlotTime (s.getSlotAtTime t + k) := by
  obtain ⟨hinterval, horigin⟩ := origin_applyBlock hs hnum hfirst h hnot
  obtain ⟨hlt, -, hnum', -⟩ := applyBlock_inv h
  have hk' : k.toNat ≠ 0 := by
    rw [UInt32.lt_iff_toNat_lt, UInt32.toNat_zero] at hk
    omega
  have hpos := hs.interval_pos
  have hexact := exact_getSlotTime hnum (show (s.getSlotAtTime t).toNat + k.toNat ≠ 0 by omega)
  have hsum : (s.getSlotAtTime t + k).toNat = (s.getSlotAtTime t).toNat + k.toNat := by
    rw [UInt32.toNat_add]
    refine Nat.mod_eq_of_lt ?_
    have := Nat.le_mul_of_pos_right ((s.getSlotAtTime t).toNat + k.toNat) hpos
    omega
  have hnum'' : s'.headBlockNum ≠ 0 := by
    intro hz
    have hsucc := (succ_num_of_lt hs.num_le hlt).1
    rw [← hnum', hz, UInt32.toNat_zero] at hsucc
    omega
  have hexact' : s'.exact.getSlotTime k.toNat = s.exact.getSlotTime (s.getSlotAtTime t + k).toNat := by
    rw [exact_getSlotTime hnum'' hk', hsum, hexact, horigin, hinterval]
    ring
  refine ⟨hsum, UInt32.toNat_inj.mp ?_⟩
  rw [getSlotTime_toNat (by rw [hexact', hsum]; exact hfit), hexact',
    getSlotTime_toNat (by rw [hsum]; exact hfit)]

/-- **Slots are counted consistently**, as long as their times fit in 32 bits. The slot at a time is the
number of slots up to it. After a block in slot `n` that is not a maintenance block and keeps the schedule,
slot `k` has the time and the witness that slot `n + k` had before; and when fewer slots were missed than
there are witnesses, exactly the witnesses of the missed slots have missed one more block. -/
theorem slots_consistent (s : SlotState) (h : Reachable s) (hnum : s.headBlockNum ≠ 0)
    (hfirst : s.exact.getSlotTime 1 < 2 ^ 32) :
    (∀ t, (s.getSlotAtTime t).toNat = (s.slotsUpTo t).ncard) ∧
    ∀ skip t w outcome s', s.applyBlock skip t w outcome = some s' → t < s.nextMaintenanceTime →
      s'.currentShuffledWitnesses = s.currentShuffledWitnesses →
      (∀ k, 0 < k → s.exact.getSlotTime ((s.getSlotAtTime t).toNat + k.toNat) < 2 ^ 32 →
        s'.getSlotTime k = s.getSlotTime (s.getSlotAtTime t + k) ∧
        s'.getScheduledWitness k = s.getScheduledWitness (s.getSlotAtTime t + k)) ∧
      ((s.getSlotAtTime t).toNat - 1 < s.currentShuffledWitnesses.length → ∀ v,
        (s.ScheduledBefore (s.getSlotAtTime t) v → s'.totalMissed v = s.totalMissed v + 1) ∧
        (¬ s.ScheduledBefore (s.getSlotAtTime t) v → s'.totalMissed v = s.totalMissed v)) := by
  have hs := h.wellFormed
  refine ⟨fun t ↦ (ncard_slotsUpTo hs hnum hfirst t).symm, ?_⟩
  intro skip t w outcome s' hs' hnot hschedule
  obtain ⟨hlt, hslot, -, -, haslot, hmissed, -⟩ := applyBlock_inv hs'
  constructor
  · intro k hk hfit
    obtain ⟨hsum, htime⟩ := getSlotTime_applyBlock hs hnum hfirst hs' hnot hk hfit
    refine ⟨htime, ?_⟩
    have haslot' : s'.currentAslot + k.toUInt64 = s.currentAslot + (s.getSlotAtTime t + k).toUInt64 := by
      rw [haslot, UInt64.add_assoc]
      congr 1
      apply UInt64.toNat_inj.mp
      have := (s.getSlotAtTime t + k).toNat_lt
      rw [UInt64.toNat_add, UInt32.toNat_toUInt64, UInt32.toNat_toUInt64, UInt32.toNat_toUInt64, hsum]
      exact Nat.mod_eq_of_lt (by omega)
    rw [getScheduledWitness, getScheduledWitness, hschedule, haslot']
  · intro hn v
    rw [hmissed]
    exact updateWitnessMissedBlocks_apply hs hslot hn (aslot_add_lt hs.num_le hs.aslot_le _).2 v

/-- The first block of a chain of three witnesses. -/
def firstBlock : SlotState where
  headBlockNum := 1
  headBlockTime := 105
  currentAslot := 1
  maintenanceFlag := false
  nextMaintenanceTime := 1000
  blockInterval := 5
  maintenanceSkipSlots := 3
  activeWitnesses := [1, 2, 3]
  currentShuffledWitnesses := [1, 2, 3]
  totalMissed := fun _ ↦ 0

theorem reachable_firstBlock : Reachable firstBlock :=
  .block false 105 2 ⟨2000, 5, 3, [1, 2, 3]⟩
    (.genesis 100 1000 5 3 [1, 2, 3] (by decide) (by decide) (by decide))
    ⟨by decide, by decide, by decide⟩ rfl

/-- The hypotheses can be met: a block at time 120, in slot 3, is accepted after the first block. -/
theorem slots_consistent_firstBlock :
    firstBlock.getSlotAtTime 120 = 3 ∧
      (firstBlock.applyBlock false 120 2 ⟨2000, 5, 3, [1, 2, 3]⟩).isSome = true ∧
      (firstBlock.slotsUpTo 120).ncard = 3 := by
  refine ⟨by decide, by decide, ?_⟩
  rw [← (slots_consistent firstBlock reachable_firstBlock (by decide) (by decide)).1]
  rfl

end SlotState

end Playchain
