import Playchain.Graphene.ActiveWitnesses
import Playchain.Spec.Slots

/-!
# The witness schedule

At a round boundary the schedule becomes a permutation of the active witnesses (`shuffle_perm`), and otherwise it stays.
The active witnesses are chosen among all witnesses, of which there is at least one, and the schedule is never empty as
long as the genesis has an active witness; the assertions about the genesis do not ask for one. The witness of a slot is
found by its absolute number, so that any window of as many slots as there are scheduled witnesses gives each of them
one slot, also when the slots are looked up in different states with the same schedule.
-/

namespace Playchain

/-- A window of `n` numbers meets every residue once. -/
theorem existsUnique_add_mod {n j : ℕ} (a : ℕ) (hj : j < n) : ∃! i, i < n ∧ (a + i) % n = j := by
  have hn : 0 < n := by omega
  have ha : a % n < n := Nat.mod_lt a hn
  have hfirst : (a + (j + (n - a % n)) % n) % n = j := by
    have hsum : a % n + (j + (n - a % n)) = j + n := by omega
    rw [Nat.add_mod_mod, ← Nat.mod_add_mod, hsum, Nat.add_mod_right, Nat.mod_eq_of_lt hj]
  refine ⟨(j + (n - a % n)) % n, ⟨Nat.mod_lt _ hn, hfirst⟩, ?_⟩
  rintro i ⟨hi, hmod⟩
  have hcongr : i % n = (j + (n - a % n)) % n % n := Nat.ModEq.add_left_cancel' a (hmod.trans hfirst.symm)
  rw [Nat.mod_eq_of_lt hi, Nat.mod_mod] at hcongr
  exact hcongr

namespace SlotState

variable {s : SlotState}

/-- The absolute numbers of slots do not wrap. -/
structure Counted (s : SlotState) : Prop where
  num_le : s.headBlockNum.toNat ≤ s.headBlockTime.toNat
  aslot_le : s.currentAslot.toNat ≤ s.headBlockNum.toNat * (2 ^ 32 - 1)

theorem getScheduledWitness_eq (hs : s.Counted) (k : UInt32) :
    s.getScheduledWitness k = s.currentShuffledWitnesses.getD
      ((s.currentAslot.toNat + k.toNat) % s.currentShuffledWitnesses.length) 0 := by
  have hlt := (aslot_add_lt hs.num_le hs.aslot_le k).2
  unfold getScheduledWitness
  rw [UInt64.toNat_add, UInt32.toNat_toUInt64, Nat.mod_eq_of_lt hlt]

/-- Each scheduled witness has one of any `n` consecutive slots, `n` being the number of scheduled witnesses: the slot
with absolute number `a + i` is slot `k i` of a state `t i` that has the schedule of `s`. -/
def OneSlotEach (R : SlotState → Prop) (s : SlotState) : Prop :=
  ∀ (a : ℕ) (t : ℕ → SlotState) (k : ℕ → UInt32),
    (∀ i < s.currentShuffledWitnesses.length, R (t i) ∧
      (t i).currentShuffledWitnesses = s.currentShuffledWitnesses ∧
      (t i).currentAslot.toNat + (k i).toNat = a + i) →
    ∀ w ∈ s.currentShuffledWitnesses,
      ∃! i, i < s.currentShuffledWitnesses.length ∧ (t i).getScheduledWitness (k i) = w

theorem oneSlotEach {R : SlotState → Prop} (hR : ∀ t, R t → t.Counted) (hnodup : s.currentShuffledWitnesses.Nodup) :
    s.OneSlotEach R := by
  intro a t k ht w hw
  obtain ⟨j, hj, hget⟩ := List.getElem_of_mem hw
  have hscheduled (i : ℕ) (hi : i < s.currentShuffledWitnesses.length) :
      (t i).getScheduledWitness (k i) = w ↔ (a + i) % s.currentShuffledWitnesses.length = j := by
    obtain ⟨hreach, hsame, habs⟩ := ht i hi
    have hmod : (a + i) % s.currentShuffledWitnesses.length < s.currentShuffledWitnesses.length :=
      Nat.mod_lt _ (by omega)
    rw [getScheduledWitness_eq (hR _ hreach), hsame, habs, List.getD_eq_getElem?_getD, List.getElem?_eq_getElem hmod,
      Option.getD_some, ← hget]
    exact hnodup.getElem_inj_iff
  obtain ⟨i, ⟨hi, hmod⟩, hunique⟩ := existsUnique_add_mod a hj
  refine ⟨i, ⟨hi, (hscheduled i hi).2 hmod⟩, ?_⟩
  rintro i' ⟨hi', hw'⟩
  exact hunique i' ⟨hi', (hscheduled i' hi').1 hw'⟩

/-- **At a round boundary** the schedule becomes a permutation of the active witnesses. -/
theorem updateWitnessSchedule_perm (h : s.headBlockNum.toNat % s.activeWitnesses.length = 0) :
    s.updateWitnessSchedule.currentShuffledWitnesses.Perm s.updateWitnessSchedule.activeWitnesses := by
  unfold updateWitnessSchedule
  rw [if_pos h]
  exact shuffle_perm _ _

end SlotState

namespace WitnessState

/-! ### Reachable states -/

theorem mem_ofList_elements {ws : List WitnessId} {w : WitnessId} : w ∈ (FlatSet.ofList ws).elements ↔ w ∈ ws := by
  rw [FlatSet.mem_elements, FlatSet.mem_keys_ofList]

theorem ofList_elements_ne_nil {ws : List WitnessId} (h : ws ≠ []) : (FlatSet.ofList ws).elements ≠ [] := by
  obtain ⟨w, hw⟩ := List.exists_mem_of_ne_nil ws h
  exact List.ne_nil_of_mem (mem_ofList_elements.2 hw)

/-- At least one witness is chosen. -/
theorem updateActiveWitnesses_ne_nil {s : WitnessState} (h : s.witnesses ≠ []) (v : WitnessVotes) :
    s.updateActiveWitnesses v ≠ [] := by
  refine ofList_elements_ne_nil fun hnil ↦ h ?_
  have hcount : 1 ≤ memberCount v.totalVotingStake v.witnessCountHistogram s.minWitnessCount := by
    unfold memberCount
    dsimp only
    omega
  have hlen := congrArg List.length hnil
  rw [sortVotableObjects, List.length_take, List.length_mergeSort, List.length_nil] at hlen
  exact List.length_eq_zero_iff.1 (by omega)

/-- There are witnesses, and the active and the scheduled ones are different and not none. -/
structure Scheduled (s : WitnessState) : Prop where
  counted : s.slots.Counted
  witnesses_ne : s.witnesses ≠ []
  active_ne : s.slots.activeWitnesses ≠ []
  active_nodup : s.slots.activeWitnesses.Nodup
  shuffled_ne : s.slots.currentShuffledWitnesses ≠ []
  shuffled_nodup : s.slots.currentShuffledWitnesses.Nodup

variable {g : WitnessGenesis} {s s' : WitnessState}

/-- What the genesis leaves, and the assertions about the witnesses. -/
theorem initGenesis_inv (h : initGenesis g = some s) :
    0 < g.initialWitnessCandidates ∧ s.witnesses = firstIds g.initialWitnessCandidates.toNat ∧
      s.slots.headBlockNum = 0 ∧ s.slots.currentAslot = 0 ∧
      s.slots.activeWitnesses = (FlatSet.ofList (firstIds g.initialActiveWitnesses.toNat)).elements ∧
      s.slots.currentShuffledWitnesses = s.slots.activeWitnesses := by
  unfold initGenesis at h
  split_ifs at h with h₁ h₂ h₃ h₄ h₅
  obtain rfl := Option.some.inj h
  exact ⟨h₃, rfl, rfl, rfl, rfl, rfl⟩

theorem firstIds_ne_nil {n : ℕ} (h : n ≠ 0) : firstIds n ≠ [] := by
  unfold firstIds
  rw [Ne, List.map_eq_nil_iff, List.range_eq_nil]
  exact h

theorem scheduled_genesis (h : initGenesis g = some s) (hactive : g.initialActiveWitnesses ≠ 0) : s.Scheduled := by
  obtain ⟨hcandidates, hwitnesses, hnum, haslot, hact, hshuffled⟩ := initGenesis_inv h
  have hne : s.slots.activeWitnesses ≠ [] := by
    rw [hact]
    exact ofList_elements_ne_nil (firstIds_ne_nil fun hz ↦ hactive (UInt64.toNat_inj.1 hz))
  have hnodup : s.slots.activeWitnesses.Nodup := by
    rw [hact]
    exact FlatSet.nodup_elements _
  refine ⟨⟨?_, ?_⟩, ?_, hne, hnodup, by rwa [hshuffled], by rwa [hshuffled]⟩
  · rw [hnum]
    exact Nat.zero_le _
  · rw [haslot]
    exact Nat.zero_le _
  · rw [hwitnesses]
    refine firstIds_ne_nil fun hz ↦ ?_
    rw [UInt32.lt_iff_toNat_lt, hz] at hcandidates
    exact absurd hcandidates (by decide)

/-- **A block keeps the schedule in shape**, whatever the maintenance counts. -/
theorem Scheduled.applyBlock (hs : s.Scheduled) {created : List WitnessId} {skip : Bool} {t : UInt32} {w : WitnessId}
    {v : WitnessVotes} (h : s.applyBlock created skip t w v = some s') : s'.Scheduled := by
  unfold WitnessState.applyBlock at h
  dsimp only at h
  split at h
  case h_1 => cases h
  case h_2 slots hslots =>
    obtain rfl := Option.some.inj h
    obtain ⟨hlt, -, hnum, htime, haslot, -, -, -, hactive, hshuffled⟩ := SlotState.applyBlock_inv hslots
    have hwitnesses : s.witnesses ++ created ≠ [] := List.append_ne_nil_of_left_ne_nil hs.witnesses_ne created
    have hsucc := SlotState.succ_num_of_lt hs.counted.num_le hlt
    have hsum := SlotState.aslot_add_lt hs.counted.num_le hs.counted.aslot_le (s.slots.getSlotAtTime t)
    have hchosen := updateActiveWitnesses_ne_nil (s := { s with witnesses := s.witnesses ++ created }) hwitnesses v
    have hne : slots.activeWitnesses ≠ [] := by
      rw [hactive]
      split_ifs
      · exact hchosen
      · exact hs.active_ne
    have hnodup : slots.activeWitnesses.Nodup := by
      rw [hactive]
      split_ifs
      · exact FlatSet.nodup_elements _
      · exact hs.active_nodup
    refine ⟨⟨?_, ?_⟩, hwitnesses, hne, hnodup, ?_, ?_⟩
    · dsimp only
      rw [hnum, htime, hsucc.1]
      exact hsucc.2
    · dsimp only
      rw [hnum, haslot, hsucc.1, UInt64.toNat_add, UInt32.toNat_toUInt64, Nat.mod_eq_of_lt hsum.2]
      exact hsum.1
    · dsimp only
      rcases hshuffled with heq | heq
      · rw [heq]
        exact hs.shuffled_ne
      · rw [heq]
        intro hnil
        have hperm := (SlotState.shuffle_perm t slots.activeWitnesses).symm
        rw [hnil] at hperm
        exact hne hperm.eq_nil
    · dsimp only
      rcases hshuffled with heq | heq
      · rw [heq]
        exact hs.shuffled_nodup
      · rw [heq, (SlotState.shuffle_perm _ _).nodup_iff]
        exact hnodup

theorem Reachable.scheduled (hactive : g.initialActiveWitnesses ≠ 0) (h : Reachable g s) : s.Scheduled := by
  induction h with
  | genesis h => exact scheduled_genesis h hactive
  | block _ _ _ _ _ _ h ih => exact ih.applyBlock h

/-- What is wanted of the schedule of a chain: at a round boundary it becomes a permutation of the active witnesses, if
there are any; it is never empty and names no witness twice; and each scheduled witness has one slot of a round. -/
def KeepsSchedule (g : WitnessGenesis) : Prop :=
  (∀ s : SlotState, s.activeWitnesses ≠ [] → s.headBlockNum.toNat % s.activeWitnesses.length = 0 →
    s.updateWitnessSchedule.currentShuffledWitnesses.Perm s.updateWitnessSchedule.activeWitnesses) ∧
  ∀ s, Reachable g s → s.slots.currentShuffledWitnesses ≠ [] ∧ s.slots.currentShuffledWitnesses.Nodup ∧
    s.slots.OneSlotEach fun t ↦ ∃ s', Reachable g s' ∧ s'.slots = t

/-- **The shuffle keeps the schedule** of the chain of a genesis that passes the assertions exactly when the genesis has an
active witness. -/
theorem keepsSchedule_iff (h : initGenesis g = some s) : KeepsSchedule g ↔ g.initialActiveWitnesses ≠ 0 := by
  constructor
  · rintro ⟨-, hkeeps⟩ hzero
    obtain ⟨-, -, -, -, hactive, hshuffled⟩ := initGenesis_inv h
    refine (hkeeps s (.genesis h)).1 ?_
    rw [hshuffled, hactive, hzero]
    rfl
  · intro hactive
    refine ⟨fun s _ hboundary ↦ SlotState.updateWitnessSchedule_perm hboundary, fun s hs ↦ ?_⟩
    have hscheduled := hs.scheduled hactive
    refine ⟨hscheduled.shuffled_ne, hscheduled.shuffled_nodup, ?_⟩
    refine SlotState.oneSlotEach ?_ hscheduled.shuffled_nodup
    rintro t ⟨s', hs', rfl⟩
    exact (hs'.scheduled hactive).counted

/-- A genesis with three candidates and the given number of active witnesses. -/
def threeCandidates (initialActiveWitnesses : UInt64) : WitnessGenesis where
  initialTimestamp := 1000
  initialWitnessCandidates := 3
  initialActiveWitnesses := initialActiveWitnesses
  minWitnessCount := 11
  blockInterval := 5
  maintenanceSkipSlots := 3

/-- With three active witnesses the schedule is kept. -/
theorem keepsSchedule_three : KeepsSchedule (threeCandidates 3) :=
  (keepsSchedule_iff (show initGenesis (threeCandidates 3) = some _ from rfl)).2 (by decide)

/-- **A genesis without active witnesses is accepted**, and its schedule is empty. -/
theorem not_keepsSchedule_of_none_active :
    (∃ s, initGenesis (threeCandidates 0) = some s ∧ Reachable (threeCandidates 0) s ∧
      s.slots.currentShuffledWitnesses = []) ∧ ¬KeepsSchedule (threeCandidates 0) := by
  refine ⟨⟨_, rfl, .genesis rfl, rfl⟩, ?_⟩
  rintro ⟨-, hkeeps⟩
  exact (hkeeps _ (.genesis rfl)).1 rfl

end WitnessState

end Playchain
