import Playchain.Graphene.Participation
import Playchain.Spec.Slots

/-!
# The bits of the recent slots

A block in slot `n` after the head shifts the bits by `n` and sets the one of the slot right after
the old head, not its own one. So the bits are late by one slot: they say which of the 128 slots
**before** the slot of the head block were filled (`slots_recorded`). The slots before the genesis
count as filled.
-/

namespace Playchain

/-- The bits that are set are counted. -/
theorem toNat_cpop {w : ℕ} (x : BitVec w) :
    x.cpop.toNat = ((Finset.range w).filter (x.getLsbD ·)).card := by
  have hrec : ∀ n, x.cpopNatRec n 0 = ((Finset.range n).filter (x.getLsbD ·)).card := by
    intro n
    induction n with
    | zero => rfl
    | succ n ih =>
      rw [BitVec.cpopNatRec_succ, Nat.zero_add, BitVec.cpopNatRec_eq, ih, Finset.range_add_one,
        Finset.filter_insert]
      rcases x.getLsbD n with - | -
      · simp
      · simp [Nat.add_comm]
  have hlt : x.cpopNatRec w 0 < 2 ^ w :=
    (BitVec.cpopNatRec_zero_le x w).trans_lt Nat.lt_two_pow_self
  rw [BitVec.cpop, BitVec.toNat_ofNat, Nat.mod_eq_of_lt hlt, hrec]

namespace ParticipationState

/-- The bits after a block: none for the missed slots but the first, one for the first slot after
the old head, and the old ones. -/
theorem getLsbD_shiftSlots (filled : BitVec 128) (missed : UInt32) {i : ℕ} (hi : i < 128) :
    (shiftSlots filled missed).getLsbD i =
      if i < missed.toNat then false
      else if i = missed.toNat then true
      else filled.getLsbD (i - missed.toNat - 1) := by
  have hadd : filled <<< 1 + 1#128 = filled <<< 1 ||| 1#128 := by
    refine BitVec.add_eq_or_of_and_eq_zero _ _ (BitVec.eq_of_getLsbD_eq fun j hj ↦ ?_)
    rw [BitVec.getLsbD_and, BitVec.getLsbD_shiftLeft, BitVec.getLsbD_one]
    rcases j with - | j <;> simp
  rw [shiftSlots, hadd, BitVec.getLsbD_shiftLeft, BitVec.getLsbD_or, BitVec.getLsbD_shiftLeft,
    BitVec.getLsbD_one]
  split_ifs with hlt heq
  · simp [hlt]
  · rw [heq] at hi
    simp [heq, hi]
  · have hlow : ¬ i - missed.toNat < 1 := by omega
    have hone : ¬ i - missed.toNat = 0 := by omega
    have hsub : i - missed.toNat < 128 := by omega
    simp only [hi, hlt, hlow, hone, hsub, decide_true, decide_false, Bool.not_false, Bool.true_and,
      Bool.and_false, Bool.or_false]

/-! ### One block -/

variable {p p' : ParticipationState} {skip : Bool} {lastCheckpoint : Option UInt32} {t : UInt32}
  {w : WitnessId} {outcome : MaintenanceOutcome}

theorem applyBlock_inv (h : p.applyBlock skip lastCheckpoint t w outcome = some p') :
    p.toSlotState.applyBlock skip t w outcome = some p'.toSlotState ∧
      p'.recentSlotsFilled = shiftSlots p.recentSlotsFilled (p.getSlotAtTime t - 1) ∧
      p'.recentlyMissedCount = countMissed p.recentlyMissedCount lastCheckpoint (p.headBlockNum + 1)
        (p.getSlotAtTime t - 1) ∧
      p'.lastAslot = Function.update p.lastAslot w
        (newBlockAslot (p.toSlotState.updateGlobalDynamicData t (p.getSlotAtTime t - 1)) t) := by
  rw [applyBlock] at h
  split at h
  · cases h
  · next s hs =>
    obtain rfl := Option.some.inj h
    exact ⟨hs, rfl, rfl, rfl⟩

/-- Missed blocks raise the count by four each, at most, and it goes down otherwise. -/
theorem countMissed_le (count : UInt32) (lastCheckpoint : Option UInt32)
    (blockNum missed : UInt32) :
    (countMissed count lastCheckpoint blockNum missed).toNat ≤ count.toNat + 4 * missed.toNat := by
  rw [countMissed]
  split_ifs with h₁ h₂ h₃ h₄ h₅
  · exact Nat.zero_le _
  · exact Nat.zero_le _
  · rw [UInt32.toNat_add, UInt32.toNat_mul, Nat.add_mod_mod]
    exact Nat.mod_le _ _
  · have hle : recentlyMissedCountDecrement ≤ count := by
      rw [UInt32.lt_iff_toNat_lt] at h₄
      rw [UInt32.le_iff_toNat_le]
      exact (by decide : recentlyMissedCountDecrement.toNat ≤
        recentlyMissedCountIncrement.toNat).trans
        h₄.le
    rw [UInt32.toNat_sub_of_le _ _ hle]
    omega
  · have hle : 1 ≤ count := by
      rw [UInt32.lt_iff_toNat_lt] at h₅
      rw [UInt32.le_iff_toNat_le]
      exact h₅
    rw [UInt32.toNat_sub_of_le _ _ hle]
    omega
  · exact Nat.le_add_right _ _

/-- After the head has moved to a block, the time of the block lies before the next slot, so the
slot that is kept for its witness is its own. -/
theorem newBlockAslot_eq (hpos : 0 < p.blockInterval.toNat) (missed : UInt32)
    (hnum : (p.toSlotState.updateGlobalDynamicData t missed).headBlockNum ≠ 0)
    (hfit : t.toNat + 2 ^ 16 ≤ 2 ^ 32) :
    newBlockAslot (p.toSlotState.updateGlobalDynamicData t missed) t =
      (p.toSlotState.updateGlobalDynamicData t missed).currentAslot := by
  obtain ⟨m, hm⟩ : ∃ m, p.toSlotState.updateGlobalDynamicData t missed = m := ⟨_, rfl⟩
  have htime : m.headBlockTime = t := hm ▸ rfl
  have hinterval : m.blockInterval = p.blockInterval := hm ▸ rfl
  rw [hm] at hnum ⊢
  have hexact := SlotState.exact_getSlotTime hnum one_ne_zero
  obtain ⟨k, hk⟩ : ∃ k, k = if m.maintenanceFlag then m.maintenanceSkipSlots.toNat else 0 :=
    ⟨_, rfl⟩
  have hle : k ≤ 255 := by
    have hskip := m.maintenanceSkipSlots.toNat_lt
    rw [hk]
    split_ifs <;> omega
  have hsmall : p.blockInterval.toNat ≤ 255 := by
    have := p.blockInterval.toNat_lt
    omega
  have horigin : m.exact.getSlotTime 1 =
      t.toNat / p.blockInterval.toNat * p.blockInterval.toNat + (k + 1) * p.blockInterval.toNat :=
        by
    rw [hexact, SlotState.origin, ← hk, htime, hinterval]
    ring
  have hdiv := Nat.div_add_mod' t.toNat p.blockInterval.toNat
  have hmod := Nat.mod_lt t.toNat hpos
  have hskipped : (k + 1) * p.blockInterval.toNat ≤ 256 * 255 :=
    Nat.mul_le_mul (Nat.succ_le_succ hle) hsmall
  have hone : p.blockInterval.toNat ≤ (k + 1) * p.blockInterval.toNat :=
    Nat.le_mul_of_pos_left _ (Nat.succ_pos k)
  have hlt : t < m.getSlotTime 1 := by
    rw [UInt32.lt_iff_toNat_lt, SlotState.getSlotTime_toNat (n := 1)]
    · rw [UInt32.toNat_one, horigin]
      omega
    · rw [UInt32.toNat_one, horigin]
      omega
  rw [newBlockAslot, SlotState.getSlotAtTime, if_pos hlt]
  exact UInt64.add_zero _

/-! ### Runs -/

/-- A block of the chain: its slot since the genesis, and its witness. -/
structure SlotEntry where
  slot : ℕ
  witness : WitnessId
  deriving DecidableEq

/-- The slot has a block. The genesis and what is before it count as filled. -/
def Filled (history : List SlotEntry) (slot : ℤ) : Prop :=
  slot ≤ 0 ∨ ∃ e ∈ history, (e.slot : ℤ) = slot

instance (history : List SlotEntry) (slot : ℤ) : Decidable (Filled history slot) :=
  inferInstanceAs (Decidable (slot ≤ 0 ∨ ∃ e ∈ history, (e.slot : ℤ) = slot))

/-- The slot of the last block of a witness. -/
def lastSlot (history : List SlotEntry) (w : WitnessId) : ℕ :=
  ((history.find? fun e ↦ e.witness = w).map SlotEntry.slot).getD 0

/-- The state of the genesis: all bits are set. -/
def genesis (time nextMaintenanceTime : UInt32) (blockInterval maintenanceSkipSlots : UInt8)
    (witnesses : List WitnessId) : ParticipationState where
  toSlotState := SlotState.genesis time nextMaintenanceTime blockInterval maintenanceSkipSlots
    witnesses
  recentSlotsFilled := BitVec.allOnes 128
  recentlyMissedCount := 0
  lastAslot _ := 0

/-- The states of a chain, with its blocks, the latest first. -/
inductive Run : ParticipationState → List SlotEntry → Prop
  | genesis (time nextMaintenanceTime : UInt32) (blockInterval maintenanceSkipSlots : UInt8)
    (witnesses : List WitnessId) (hpos : 0 < blockInterval.toNat) (hne : witnesses ≠ [])
    (hnodup : witnesses.Nodup) :
    Run (genesis time nextMaintenanceTime blockInterval maintenanceSkipSlots witnesses) []
  | block {p p' : ParticipationState} {history : List SlotEntry} {skip : Bool}
    {lastCheckpoint : Option UInt32} {t : UInt32} {w : WitnessId} {outcome : MaintenanceOutcome}
    (hrun : Run p history) (hvalid : SlotState.MaintenanceOutcome.Valid outcome)
    (h : p.applyBlock skip lastCheckpoint t w outcome = some p') :
    Run p' (⟨p'.currentAslot.toNat, w⟩ :: history)

/-- What the records say about the blocks of the chain. -/
structure Recorded (p : ParticipationState) (history : List SlotEntry) : Prop where
  wellFormed : p.toSlotState.WellFormed
  length : history.length = p.headBlockNum.toNat
  /-- The absolute slot is the one of the head block. -/
  head : (history.head?.map SlotEntry.slot).getD 0 = p.currentAslot.toNat
  decreasing : (history.map SlotEntry.slot).Pairwise (· > ·)
  bounds : ∀ e ∈ history, 0 < e.slot ∧ e.slot ≤ p.currentAslot.toNat
  bits : ∀ i < 128, p.recentSlotsFilled.getLsbD i = true ↔
    Filled history ((p.currentAslot.toNat : ℤ) - 1 - i)
  missed : p.recentlyMissedCount.toNat + 4 * p.headBlockNum.toNat ≤ 4 * p.currentAslot.toNat
  lastAslot : p.headBlockTime.toNat + 2 ^ 16 ≤ 2 ^ 32 → ∀ w, (p.lastAslot w).toNat =
    lastSlot history w

/-- What a block does to the numbers of the blocks and slots. -/
theorem slots_of_applyBlock (hp : p.toSlotState.WellFormed)
    (h : p.applyBlock skip lastCheckpoint t w outcome = some p') :
    ∃ missed : ℕ, (p.getSlotAtTime t - 1).toNat = missed ∧
      p'.currentAslot.toNat = p.currentAslot.toNat + missed + 1 ∧
      p'.headBlockNum.toNat = p.headBlockNum.toNat + 1 ∧ p.headBlockTime.toNat < t.toNat := by
  obtain ⟨hslots, -⟩ := applyBlock_inv h
  obtain ⟨hlt, hslot, hnum, -, haslot, -⟩ := SlotState.applyBlock_inv hslots
  have hone : 1 ≤ p.getSlotAtTime t := by
    rw [UInt32.le_iff_toNat_le, UInt32.toNat_one]
    exact Nat.one_le_iff_ne_zero.2 fun hz ↦ hslot (UInt32.toNat_inj.1 hz)
  have hbound := (SlotState.aslot_add_lt hp.num_le hp.aslot_le (p.getSlotAtTime t)).2
  have hpos : 1 ≤ (p.getSlotAtTime t).toNat := UInt32.le_iff_toNat_le.1 hone
  refine ⟨_, rfl, ?_, ?_, UInt32.lt_iff_toNat_lt.1 hlt⟩
  · rw [haslot, UInt64.toNat_add, UInt32.toNat_toUInt64, Nat.mod_eq_of_lt hbound,
      UInt32.toNat_sub_of_le _ _ hone, UInt32.toNat_one]
    omega
  · rw [hnum, (SlotState.succ_num_of_lt hp.num_le hlt).1]

/-- A slot of the chain before a block: it is filled as it was, and the missed slots are not. -/
theorem filled_cons_iff {history : List SlotEntry} {e : SlotEntry} {slot : ℤ}
    (hslot : slot < e.slot) :
    Filled (e :: history) slot ↔ Filled history slot := by
  rw [Filled, Filled, List.exists_mem_cons_iff]
  have hne : ¬(e.slot : ℤ) = slot := by omega
  simp only [hne, false_or]

theorem Recorded.applyBlock {history : List SlotEntry} (hp : Recorded p history)
    (hvalid : SlotState.MaintenanceOutcome.Valid outcome)
    (h : p.applyBlock skip lastCheckpoint t w outcome = some p') :
    Recorded p' (⟨p'.currentAslot.toNat, w⟩ :: history) := by
  obtain ⟨hslots, hbits, hcount, hlast⟩ := applyBlock_inv h
  obtain ⟨missed, hmissed, haslot, hnum, htime⟩ := slots_of_applyBlock hp.wellFormed h
  obtain ⟨-, -, hnum', htime', haslot', -⟩ := SlotState.applyBlock_inv hslots
  have hbounds : ∀ e ∈ history, e.slot < p'.currentAslot.toNat := by
    intro e he
    have := (hp.bounds e he).2
    omega
  refine ⟨hp.wellFormed.applyBlock hvalid hslots, ?_, rfl, ?_, ?_, fun i hi ↦ ?_, ?_,
    fun hfit v ↦ ?_⟩
  · rw [List.length_cons, hp.length, hnum]
  · rw [List.map_cons, List.pairwise_cons]
    refine ⟨fun slot hslot ↦ ?_, hp.decreasing⟩
    obtain ⟨e, he, rfl⟩ := List.mem_map.1 hslot
    exact hbounds e he
  · intro e he
    rcases List.mem_cons.1 he with rfl | he
    · exact ⟨by dsimp only; omega, le_rfl⟩
    · exact ⟨(hp.bounds e he).1, (hbounds e he).le⟩
  · rw [filled_cons_iff (by dsimp only; omega), hbits, getLsbD_shiftSlots _ _ hi, hmissed]
    split_ifs with hlt heq
    -- the slot was missed
    · refine ⟨False.elim, ?_⟩
      rintro (hle | ⟨e, he, heq⟩)
      · omega
      · have := (hp.bounds e he).2
        omega
    -- the slot of the old head
    · refine ⟨fun _ ↦ ?_, fun _ ↦ rfl⟩
      have hslot : (p'.currentAslot.toNat : ℤ) - 1 - i = p.currentAslot.toNat := by omega
      rw [hslot, ← hp.head]
      rcases history with - | ⟨e, history⟩
      · exact .inl le_rfl
      · exact .inr ⟨e, List.mem_cons_self, rfl⟩
    · rw [hp.bits _ (by omega)]
      have hslot : (p.currentAslot.toNat : ℤ) - 1 - (i - missed - 1 : ℕ) =
          (p'.currentAslot.toNat : ℤ) - 1 - i := by omega
      rw [hslot]
  · have hle := countMissed_le p.recentlyMissedCount lastCheckpoint (p.headBlockNum + 1)
      (p.getSlotAtTime t - 1)
    have hmissed' := hp.missed
    rw [← hcount, hmissed] at hle
    omega
  · rw [htime'] at hfit
    rw [hlast, Function.update_apply, lastSlot]
    have hold := hp.lastAslot (by omega) v
    split_ifs with hv
    · have hown :
          newBlockAslot (p.toSlotState.updateGlobalDynamicData t (p.getSlotAtTime t - 1)) t =
            p'.currentAslot := by
        rw [newBlockAslot_eq hp.wellFormed.interval_pos _ _ hfit, haslot']
        · change p.currentAslot + (p.getSlotAtTime t - 1 + 1).toUInt64 = _
          rw [UInt32.sub_add_cancel]
        · intro hzero
          have hzero' : p'.headBlockNum = 0 := hnum'.trans hzero
          rw [hzero', UInt32.toNat_zero] at hnum
          omega
      rw [hown, List.find?_cons_of_pos (by simp [hv])]
      rfl
    · rw [List.find?_cons_of_neg (by simp [Ne.symm hv]), hold]
      rfl

theorem Run.recorded {history : List SlotEntry} (h : Run p history) : Recorded p history := by
  induction h with
  | genesis time nextMaintenanceTime blockInterval maintenanceSkipSlots witnesses hpos hne hnodup =>
    refine ⟨(SlotState.Reachable.genesis time nextMaintenanceTime blockInterval maintenanceSkipSlots
      witnesses hpos hne hnodup).wellFormed, rfl, rfl, List.Pairwise.nil, ?_, fun i hi ↦ ?_, le_rfl,
      fun _ _ ↦ rfl⟩
    · exact fun e he ↦ absurd he List.not_mem_nil
    · rw [ParticipationState.genesis, BitVec.getLsbD_allOnes, decide_eq_true_iff]
      exact ⟨fun _ ↦ .inl (by dsimp only [SlotState.genesis]; rw [UInt64.toNat_zero]; omega),
        fun _ ↦ hi⟩
  | block _ hvalid h ih => exact ih.applyBlock hvalid h

/-- **What is recorded about the slots**: after every run of blocks, the absolute slot is the slot
of the head block, and the number of missed slots and blocks together; bit `i` of the recent slots
is set exactly when the slot `i + 1` slots before the head block's is filled, so the participation
rate is the share of the filled ones among the 128 slots before the head block; the recently missed
blocks are at most the missed slots, counted four times each; and, while the times after the head
fit in 32 bits, each witness has the slot of its last block. -/
theorem slots_recorded {history : List SlotEntry} (h : Run p history) :
    history.length = p.headBlockNum.toNat ∧
      (history.head?.map SlotEntry.slot).getD 0 = p.currentAslot.toNat ∧
      (history.map SlotEntry.slot).Pairwise (· > ·) ∧
      (∀ i < 128, p.recentSlotsFilled.getLsbD i = true ↔
        Filled history ((p.currentAslot.toNat : ℤ) - 1 - i)) ∧
      p.witnessParticipationRate = 10000 * ((Finset.range 128).filter fun i : ℕ ↦
        Filled history ((p.currentAslot.toNat : ℤ) - 1 - i)).card / 128 ∧
      p.recentlyMissedCount.toNat ≤ 4 * (p.currentAslot.toNat - p.headBlockNum.toNat) ∧
      (p.headBlockTime.toNat + 2 ^ 16 ≤ 2 ^ 32 →
        ∀ w, (p.lastAslot w).toNat = lastSlot history w) := by
  have hp := h.recorded
  refine ⟨hp.length, hp.head, hp.decreasing, hp.bits, ?_, ?_, hp.lastAslot⟩
  · rw [witnessParticipationRate, toNat_cpop, Finset.filter_congr fun i hi ↦
      hp.bits i (Finset.mem_range.1 hi)]
  · have := hp.missed
    omega

/-- A maintenance that keeps everything. -/
def keep : MaintenanceOutcome where
  nextMaintenanceTime := 1000
  blockInterval := 5
  maintenanceSkipSlots := 3
  activeWitnesses := [4, 6]

/-- Two blocks after the genesis; one slot between them is missed. -/
def twoBlocks : Option ParticipationState :=
  ((genesis 100 1000 5 3 [4, 6]).applyBlock true none 105 4 keep).bind
    fun p ↦ p.applyBlock true none 115 6 keep

theorem slots_recorded_twoBlocks : ∃ p, twoBlocks = some p ∧ p.currentAslot = 3 ∧
    p.recentSlotsFilled.getLsbD 0 = false ∧ p.recentSlotsFilled.getLsbD 1 = true ∧
    p.witnessParticipationRate = 10000 * 127 / 128 ∧ (p.lastAslot 6).toNat = 3 := by
  have hvalid : SlotState.MaintenanceOutcome.Valid keep := ⟨by decide, by decide, by decide⟩
  obtain ⟨p₁, h₁⟩ : ∃ p₁, (genesis 100 1000 5 3 [4, 6]).applyBlock true none 105 4 keep = some p₁ :=
    Option.isSome_iff_exists.1 (by decide)
  obtain ⟨p₂, h₂⟩ : ∃ p₂, twoBlocks = some p₂ := Option.isSome_iff_exists.1 (by decide)
  have h₂' : p₁.applyBlock true none 115 6 keep = some p₂ := by
    rw [twoBlocks, h₁] at h₂
    exact h₂
  have haslot₁ : p₁.currentAslot = 1 := by
    have haslot : (((genesis 100 1000 5 3 [4, 6]).applyBlock true none 105 4 keep).map
      (·.currentAslot)) = some 1 := by decide
    rw [h₁] at haslot
    exact Option.some.inj haslot
  have haslot₂ : p₂.currentAslot = 3 ∧ p₂.headBlockTime = 115 := by
    have haslot : (twoBlocks.map fun p ↦ (p.currentAslot, p.headBlockTime)) = some (3, 115) := by
      decide
    rw [h₂] at haslot
    exact Prod.mk.inj (Option.some.inj haslot)
  have hrun : Run p₂ _ := .block
    (.block (.genesis 100 1000 5 3 [4, 6] (by decide) (by decide) (by decide))
    hvalid h₁) hvalid h₂'
  obtain ⟨-, -, -, hbits, hrate, -, hlast⟩ := slots_recorded hrun
  rw [haslot₁, haslot₂.1] at hbits hrate hlast
  refine ⟨p₂, h₂, haslot₂.1, ?_, (hbits 1 (by decide)).2 (by decide), ?_, ?_⟩
  · rw [Bool.eq_false_iff]
    exact fun hset ↦ absurd ((hbits 0 (by decide)).1 hset) (by decide)
  · rw [hrate]
    decide +kernel
  · rw [hlast (by rw [haslot₂.2]; decide)]
    decide

end ParticipationState

end Playchain
