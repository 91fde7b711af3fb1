import Playchain.Graphene.VoteCounter
import Playchain.Protocol.SignState

/-!
# The weights of voted authorities

An authority made from votes is a sound majority: its members are the accounts with votes, the weights follow the votes,
and the threshold is more than half of the weight and at most all of it. The votes are scaled such that the largest weight
has 16 bits, but the threshold is taken from the lower 32 bits of the total weight. So the majority is sound exactly if
the total weight has 32 bits (`VoteCounter.count_sound`). With more than 65537 members it need not have, but there are
never so many: their number comes from parameters of 16 bits (`VoteCounter.votedAuthority_sound`).
-/

namespace Playchain

namespace VoteCounter

/-- The weight of votes that are shifted as far as `shift`. -/
def scaledVotes (shift : ℕ) (votes : UInt64) : ℕ := max (votes.toNat >>> shift) 1

/-- How far the votes are shifted: the first ones are the largest, and 16 bits of them are kept. -/
def shiftOf : List (AccountId × UInt64) → ℕ
  | [] => 0
  | v :: _ => v.2.toNat.log2 - 15

/-- The weight of those with votes. -/
def weightOf (shift : ℕ) (votes : List (AccountId × UInt64)) : ℕ :=
  ((votes.filter fun v ↦ v.2 ≠ 0).map fun v ↦ scaledVotes shift v.2).sum

/-- The weight of all votes. -/
def totalWeight (votes : List (AccountId × UInt64)) : ℕ := weightOf (shiftOf votes) votes

theorem one_le_scaledVotes (shift : ℕ) (votes : UInt64) : 1 ≤ scaledVotes shift votes := le_max_right _ _

theorem scaledVotes_mono (shift : ℕ) {v w : UInt64} (h : v ≤ w) : scaledVotes shift v ≤ scaledVotes shift w := by
  refine max_le_max ?_ le_rfl
  rw [Nat.shiftRight_eq_div_pow, Nat.shiftRight_eq_div_pow]
  exact Nat.div_le_div_right (UInt64.le_iff_toNat_le.mp h)

/-- Votes that are at most the first ones keep 16 bits. -/
theorem scaledVotes_lt {v w : UInt64} (h : v ≤ w) : scaledVotes (w.toNat.log2 - 15) v < 2 ^ 16 := by
  refine max_lt ?_ (by norm_num)
  rw [Nat.shiftRight_eq_div_pow]
  refine Nat.div_lt_of_lt_mul ?_
  calc v.toNat ≤ w.toNat := UInt64.le_iff_toNat_le.mp h
    _ < 2 ^ (w.toNat.log2 + 1) := Nat.lt_log2_self
    _ ≤ 2 ^ (w.toNat.log2 - 15 + 16) := Nat.pow_le_pow_right (by norm_num) (by omega)
    _ = 2 ^ (w.toNat.log2 - 15) * 2 ^ 16 := pow_add _ _ _

theorem shift_lt (v : UInt64) : v.toNat.log2 - 15 < 64 := by
  have hlog : v.toNat.log2 ≤ 63 := by
    by_cases h0 : v.toNat = 0
    · simp [h0]
    · exact Nat.lt_succ_iff.mp ((Nat.log2_lt h0).mpr v.toNat_lt)
  omega

@[simp] theorem weightOf_nil (shift : ℕ) : weightOf shift [] = 0 := rfl

theorem weightOf_cons_zero (shift : ℕ) (who : AccountId) (votes : List (AccountId × UInt64)) :
    weightOf shift ((who, 0) :: votes) = weightOf shift votes := by
  simp [weightOf]

theorem weightOf_cons {shift : ℕ} {who : AccountId} {v : UInt64} (hv : v ≠ 0) (votes : List (AccountId × UInt64)) :
    weightOf shift ((who, v) :: votes) = scaledVotes shift v + weightOf shift votes := by
  simp [weightOf, hv]

theorem weightOf_le (shift : ℕ) {votes : List (AccountId × UInt64)} {b : ℕ}
    (h : ∀ v ∈ votes, scaledVotes shift v.2 ≤ b) : weightOf shift votes ≤ votes.length * b := by
  have hle := List.sum_le_card_nsmul ((votes.filter fun v ↦ v.2 ≠ 0).map fun v ↦ scaledVotes shift v.2) b (by
    intro x hx
    obtain ⟨v, hv, rfl⟩ := List.mem_map.mp hx
    exact h v (List.mem_of_mem_filter hv))
  rw [smul_eq_mul, List.length_map] at hle
  exact hle.trans (Nat.mul_le_mul_right b (List.length_filter_le _ _))

theorem weightOf_eq_zero_iff {shift : ℕ} {votes : List (AccountId × UInt64)} :
    weightOf shift votes = 0 ↔ ∀ v ∈ votes, v.2 = 0 := by
  induction votes with
  | nil => simp
  | cons v votes ih =>
    obtain ⟨who, v⟩ := v
    by_cases hv : v = 0
    · subst hv
      rw [weightOf_cons_zero, ih]
      simp
    · rw [weightOf_cons hv]
      have h1 := one_le_scaledVotes shift v
      refine ⟨fun h ↦ by omega, fun h ↦ absurd (h _ List.mem_cons_self) hv⟩

/-! ### One account -/

variable {κ δ : Type} [LinearOrder κ] [LinearOrder δ] {c c' c'' : VoteCounter κ δ} {shift : ℕ} {who : AccountId}
  {v : UInt64} {votes : List (AccountId × UInt64)}

theorem add_zero (c : VoteCounter κ δ) (who : AccountId) : c.add who 0 = c := rfl

theorem toNat_scaled (hshift : shift < 64) (v : UInt64) :
    (max (v >>> UInt64.ofNat shift) 1).toNat = scaledVotes shift v := by
  have hto : (UInt64.ofNat shift).toNat % 64 = shift := by
    rw [UInt64.toNat_ofNat', Nat.mod_eq_of_lt (by omega : shift < 2 ^ 64), Nat.mod_eq_of_lt hshift]
  have hright : (v >>> UInt64.ofNat shift).toNat = v.toNat >>> shift := by
    rw [UInt64.toNat_shiftRight, hto]
  unfold scaledVotes
  rw [← hright, max_def]
  change (if v >>> UInt64.ofNat shift ≤ 1 then 1 else v >>> UInt64.ofNat shift).toNat = _
  rw [apply_ite UInt64.toNat]
  simp only [UInt64.le_iff_toNat_le]
  rfl

/-- An account with votes is added. The counter has its shift already, or the votes decide it. -/
theorem add_of_ne_zero (hshift : shift < 64) (hv : v ≠ 0)
    (hc : c.bitshift = shift ∨ c.bitshift = -1 ∧ shift = v.toNat.log2 - 15) :
    c.add who v =
      { lastVotes := v
        totalVotes := c.totalVotes + max (v >>> UInt64.ofNat shift) 1
        bitshift := shift
        auth := { c.auth with
          accountAuths := c.auth.accountAuths.insert who (max (v >>> UInt64.ofNat shift) 1).toUInt16 } } := by
  have hbitshift : (if c.bitshift = -1 then max ((v.toNat.log2 : ℤ) - 15) 0 else c.bitshift) = shift := by
    rcases hc with hc | ⟨hc, rfl⟩
    · rw [hc, if_neg (by omega)]
    · rw [if_pos hc]
      omega
  unfold add
  simp only [if_neg hv, hbitshift, Int.toNat_natCast]

/-- The other accounts keep their weights. -/
theorem find?_add_of_ne (c : VoteCounter κ δ) (v : UInt64) {a : AccountId} (h : a ≠ who) :
    (c.add who v).auth.accountAuths.find? a = c.auth.accountAuths.find? a := by
  unfold add
  by_cases hv : v = 0
  · rw [if_pos hv]
  · rw [if_neg hv]
    exact FlatMap.find?_insert_of_ne _ _ h

/-! ### All accounts -/

/-- What the counter has after votes that are scaled by `shift`. -/
structure Added (shift : ℕ) (c : VoteCounter κ δ) (votes : List (AccountId × UInt64)) (c' : VoteCounter κ δ) :
    Prop where
  totalVotes : c'.totalVotes.toNat = (c.totalVotes.toNat + weightOf shift votes) % 2 ^ 64
  weightSum : Authorities.weightSum c'.auth.accountAuths = Authorities.weightSum c.auth.accountAuths + weightOf shift votes
  keyAuths : c'.auth.keyAuths = c.auth.keyAuths
  addressAuths : c'.auth.addressAuths = c.auth.addressAuths
  accountAuths : ∀ a w, c'.auth.accountAuths.find? a = some w ↔
    c.auth.accountAuths.find? a = some w ∨ ∃ v, (a, v) ∈ votes ∧ v ≠ 0 ∧ w.toNat = scaledVotes shift v

theorem Added.nil (shift : ℕ) (c : VoteCounter κ δ) : Added shift c [] c where
  totalVotes := (Nat.mod_eq_of_lt c.totalVotes.toNat_lt).symm
  weightSum := rfl
  keyAuths := rfl
  addressAuths := rfl
  accountAuths _ _ := by simp

theorem Added.cons_zero (h : Added shift c votes c') (who : AccountId) : Added shift c ((who, 0) :: votes) c' where
  totalVotes := by rw [weightOf_cons_zero, h.totalVotes]
  weightSum := by rw [weightOf_cons_zero, h.weightSum]
  keyAuths := h.keyAuths
  addressAuths := h.addressAuths
  accountAuths a w := by
    rw [h.accountAuths]
    refine or_congr_right ⟨fun ⟨v, hv, hne, hw⟩ ↦ ⟨v, List.mem_cons_of_mem _ hv, hne, hw⟩, ?_⟩
    rintro ⟨v, hv, hne, hw⟩
    rcases List.mem_cons.mp hv with heq | hv
    · exact absurd (Prod.mk.inj heq).2 hne
    · exact ⟨v, hv, hne, hw⟩

/-- An account that was not there, and then the others. -/
theorem Added.cons (hshift : shift < 64) (hv : v ≠ 0) (hlt : scaledVotes shift v < 2 ^ 16)
    (hnew : c.auth.accountAuths.find? who = none)
    (hc : c.bitshift = shift ∨ c.bitshift = -1 ∧ shift = v.toNat.log2 - 15)
    (h : Added shift (c.add who v) votes c') : Added shift c ((who, v) :: votes) c' := by
  obtain ⟨htotal, hsum, hkey, haddress, haccount⟩ := h
  rw [add_of_ne_zero hshift hv hc] at htotal hsum hkey haddress haccount
  have hscaled := toNat_scaled hshift v
  generalize max (v >>> UInt64.ofNat shift) 1 = scaled at htotal hsum haccount hscaled
  have hweight : scaled.toUInt16.toNat = scaledVotes shift v := by
    rw [UInt64.toNat_toUInt16, hscaled, Nat.mod_eq_of_lt hlt]
  refine ⟨?_, ?_, hkey, haddress, fun a w ↦ ?_⟩
  · rw [htotal, UInt64.toNat_add, hscaled, weightOf_cons hv, Nat.mod_add_mod, Nat.add_assoc]
  · have hinsert := FlatMap.sum_insert_of_find?_none (fun _ (w : UInt16) ↦ w.toNat) hnew scaled.toUInt16
    rw [hsum, weightOf_cons hv, ← Nat.add_assoc, Nat.add_right_cancel_iff]
    exact hinsert.trans (by rw [hweight, Nat.add_comm, Authorities.weightSum])
  · rw [haccount, FlatMap.find?_insert]
    constructor
    · rintro (hw | ⟨u, hu, hne, hw⟩)
      · split_ifs at hw with ha
        · obtain rfl := Option.some.inj hw
          exact .inr ⟨v, by rw [ha]; exact List.mem_cons_self, hv, hweight⟩
        · exact .inl hw
      · exact .inr ⟨u, List.mem_cons_of_mem _ hu, hne, hw⟩
    · rintro (hw | ⟨u, hu, hne, hw⟩)
      · have ha : a ≠ who := by
          rintro rfl
          rw [hnew] at hw
          cases hw
        exact .inl (by rw [if_neg ha]; exact hw)
      · rcases List.mem_cons.mp hu with heq | hu
        · obtain ⟨rfl, rfl⟩ := Prod.mk.inj heq
          refine .inl ?_
          rw [if_pos rfl, UInt16.toNat_inj.mp (hweight.trans hw.symm)]
        · exact .inr ⟨u, hu, hne, hw⟩

/-- Votes of different accounts that are all scaled by the same shift. -/
theorem added_addAll (hshift : shift < 64) (votes : List (AccountId × UInt64)) (c : VoteCounter κ δ)
    (hnodup : (votes.map Prod.fst).Nodup) (hnew : ∀ v ∈ votes, c.auth.accountAuths.find? v.1 = none)
    (hlt : ∀ v ∈ votes, scaledVotes shift v.2 < 2 ^ 16) (hc : c.bitshift = shift) :
    Added shift c votes (c.addAll votes) := by
  induction votes generalizing c with
  | nil => exact .nil shift c
  | cons v votes ih =>
    obtain ⟨who, v⟩ := v
    rw [List.map_cons, List.nodup_cons] at hnodup
    have hlt' : ∀ v ∈ votes, scaledVotes shift v.2 < 2 ^ 16 := fun v hv ↦ hlt v (List.mem_cons_of_mem _ hv)
    have hnew' : ∀ v ∈ votes, c.auth.accountAuths.find? v.1 = none := fun v hv ↦ hnew v (List.mem_cons_of_mem _ hv)
    show Added shift c ((who, v) :: votes) ((c.add who v).addAll votes)
    by_cases hv : v = 0
    · subst hv
      exact (ih c hnodup.2 hnew' hlt' hc).cons_zero who
    · refine Added.cons hshift hv (hlt _ List.mem_cons_self) (hnew _ List.mem_cons_self) (.inl hc)
        (ih _ hnodup.2 (fun u hu ↦ ?_) hlt' (by rw [add_of_ne_zero hshift hv (.inl hc)]))
      have hne : u.1 ≠ who := fun heq ↦ hnodup.1 (List.mem_map.mpr ⟨u, hu, heq⟩)
      exact (find?_add_of_ne c v hne).trans (hnew' u hu)

/-- Accounts without votes are passed over. -/
theorem addAll_of_forall_zero (c : VoteCounter κ δ) (h : ∀ v ∈ votes, v.2 = 0) :
    c.addAll votes = c ∧ Added shift c votes c := by
  induction votes with
  | nil => exact ⟨rfl, .nil shift c⟩
  | cons v votes ih =>
    obtain ⟨who, v⟩ := v
    obtain rfl : v = 0 := h _ List.mem_cons_self
    obtain ⟨heq, hadded⟩ := ih fun v hv ↦ h v (List.mem_cons_of_mem _ hv)
    exact ⟨heq, hadded.cons_zero who⟩

/-- The votes as they are counted: each account once, and the largest ones first. Accounts are numbered with 48 bits. -/
structure Ranked (votes : List (AccountId × UInt64)) : Prop where
  instances : ∀ v ∈ votes, v.1 < 2 ^ 48
  nodup : (votes.map Prod.fst).Nodup
  sorted : votes.Pairwise fun a b ↦ b.2 ≤ a.2

theorem Ranked.scaledVotes_lt (h : Ranked votes) : ∀ v ∈ votes, scaledVotes (shiftOf votes) v.2 < 2 ^ 16 := by
  intro v hv
  cases votes with
  | nil => cases hv
  | cons w votes =>
    rcases List.mem_cons.mp hv with rfl | hv
    · exact VoteCounter.scaledVotes_lt (UInt64.le_refl _)
    · exact VoteCounter.scaledVotes_lt ((List.pairwise_cons.mp h.sorted).1 v hv)

/-- There are not so many accounts that the total weight does not fit in 64 bits. -/
theorem Ranked.totalWeight_lt (h : Ranked votes) : totalWeight votes < 2 ^ 64 := by
  have hlength : votes.length ≤ 2 ^ 48 := by
    rw [← List.length_map (f := Prod.fst), ← List.toFinset_card_of_nodup h.nodup]
    refine (Finset.card_le_card (t := Finset.range (2 ^ 48)) fun a ha ↦ ?_).trans (Finset.card_range _).le
    obtain ⟨v, hv, rfl⟩ := List.mem_map.mp (List.mem_toFinset.mp ha)
    exact Finset.mem_range.mpr (h.instances v hv)
  have hweight : totalWeight votes ≤ votes.length * 65535 :=
    weightOf_le _ fun v hv ↦ Nat.le_of_lt_succ (h.scaledVotes_lt v hv)
  omega

/-- What the counter has after all votes. -/
theorem Ranked.added (h : Ranked votes) : Added (shiftOf votes) ({} : VoteCounter κ δ) votes (addAll {} votes) := by
  cases votes with
  | nil => exact .nil _ _
  | cons v votes =>
    have hlt := h.scaledVotes_lt
    obtain ⟨who, v⟩ := v
    have hnodup := h.nodup
    rw [List.map_cons, List.nodup_cons] at hnodup
    have hsorted := List.pairwise_cons.mp h.sorted
    by_cases hv : v = 0
    · subst hv
      have hzero : ∀ v ∈ (who, 0) :: votes, v.2 = 0 := by
        intro v hv
        rcases List.mem_cons.mp hv with rfl | hv
        · rfl
        · exact UInt64.le_zero_iff.mp (hsorted.1 v hv)
      obtain ⟨heq, hadded⟩ := addAll_of_forall_zero ({} : VoteCounter κ δ) hzero
      rw [heq]
      exact hadded
    · have hshift := shift_lt v
      refine Added.cons hshift hv (hlt _ List.mem_cons_self) rfl (.inr ⟨rfl, rfl⟩)
        (added_addAll hshift votes _ hnodup.2 (fun u hu ↦ ?_) (fun u hu ↦ hlt u (List.mem_cons_of_mem _ hu))
          (by rw [add_of_ne_zero hshift hv (.inr ⟨rfl, rfl⟩)]))
      exact find?_add_of_ne _ v fun heq ↦ hnodup.1 (List.mem_map.mpr ⟨u, hu, heq⟩)

/-! ### The majority -/

/-- The weight is that of the votes, and the threshold half of its lower 32 bits and one more. -/
theorem Ranked.count_eq (h : Ranked votes) (outAuth : VotedAuthority κ δ) (hvotes : ∃ v ∈ votes, v.2 ≠ 0) :
    (count votes outAuth).weightThreshold.toNat = totalWeight votes % 2 ^ 32 / 2 + 1 ∧
    count votes outAuth = { (addAll {} votes : VoteCounter κ δ).auth with
      weightThreshold := (count votes outAuth).weightThreshold } := by
  have hadded : Added (shiftOf votes) ({} : VoteCounter κ δ) votes (addAll {} votes) := h.added
  have htotal : (addAll {} votes : VoteCounter κ δ).totalVotes.toNat = totalWeight votes := by
    rw [hadded.totalVotes]
    exact (congrArg (· % 2 ^ 64) (Nat.zero_add _)).trans (Nat.mod_eq_of_lt h.totalWeight_lt)
  have hne : (addAll {} votes : VoteCounter κ δ).totalVotes ≠ 0 := by
    intro hzero
    rw [hzero] at htotal
    obtain ⟨v, hv, hv0⟩ := hvotes
    exact hv0 (weightOf_eq_zero_iff.mp htotal.symm v hv)
  unfold count finish
  rw [if_neg hne]
  refine ⟨?_, rfl⟩
  have hweight : (addAll {} votes : VoteCounter κ δ).totalVotes.toUInt32.toNat = totalWeight votes % 2 ^ 32 := by
    rw [UInt64.toNat_toUInt32, htotal]
  have hlt := (addAll {} votes : VoteCounter κ δ).totalVotes.toUInt32.toNat_lt
  rw [UInt32.toNat_add, UInt32.toNat_shiftRight, ← hweight, Nat.shiftRight_eq_div_pow]
  refine Nat.mod_eq_of_lt ?_
  simp only [UInt32.reduceToNat, Nat.reduceMod, pow_one]
  omega

/-- A sound majority of votes: the members are those with votes, no weight is zero (none has more than 16 bits by its
type), more votes do not weigh less, and the threshold is more than half of the weight and within reach. -/
structure SoundMajority (votes : List (AccountId × UInt64)) (auth : VotedAuthority κ δ) : Prop where
  members : ∀ a, a ∈ auth.accountAuths.keys ↔ ∃ v, (a, v) ∈ votes ∧ v ≠ 0
  keyAuths : auth.keyAuths = ∅
  addressAuths : auth.addressAuths = ∅
  weights : ∀ a w, auth.accountAuths.find? a = some w → 1 ≤ w.toNat ∧ w.toNat ≤ 65535
  monotone : ∀ a v w b u x, (a, v) ∈ votes → (b, u) ∈ votes → v ≤ u →
    auth.accountAuths.find? a = some w → auth.accountAuths.find? b = some x → w ≤ x
  majority : Authorities.weightSum auth.accountAuths < 2 * auth.weightThreshold.toNat
  attainable : auth.weightThreshold.toNat ≤ Authorities.weightSum auth.accountAuths

/-- What is expected of an authority `auth` that is made of votes in place of `outAuth`. -/
def CountsSoundly (votes : List (AccountId × UInt64)) (outAuth auth : VotedAuthority κ δ) : Prop :=
  ((∃ v ∈ votes, v.2 ≠ 0) → SoundMajority votes auth) ∧ ((∀ v ∈ votes, v.2 = 0) → auth = outAuth)

/-- The weight of the new authority. -/
theorem Ranked.weightSum_count (h : Ranked votes) (outAuth : VotedAuthority κ δ) (hvotes : ∃ v ∈ votes, v.2 ≠ 0) :
    Authorities.weightSum (count votes outAuth).accountAuths = totalWeight votes := by
  have hadded : Added (shiftOf votes) ({} : VoteCounter κ δ) votes (addAll {} votes) := h.added
  rw [(h.count_eq outAuth hvotes).2]
  exact hadded.weightSum.trans (Nat.zero_add _)

theorem Ranked.find?_count (h : Ranked votes) (outAuth : VotedAuthority κ δ) (hvotes : ∃ v ∈ votes, v.2 ≠ 0)
    {a : AccountId} {w : UInt16} : (count votes outAuth).accountAuths.find? a = some w ↔
      ∃ v, (a, v) ∈ votes ∧ v ≠ 0 ∧ w.toNat = scaledVotes (shiftOf votes) v := by
  have hadded : Added (shiftOf votes) ({} : VoteCounter κ δ) votes (addAll {} votes) := h.added
  rw [(h.count_eq outAuth hvotes).2]
  refine (hadded.accountAuths a w).trans (or_iff_right ?_)
  intro hnone
  cases hnone

/-- If the total weight has 32 bits, the majority is sound. -/
theorem Ranked.soundMajority (h : Ranked votes) (outAuth : VotedAuthority κ δ) (hvotes : ∃ v ∈ votes, v.2 ≠ 0)
    (hfit : totalWeight votes < 2 ^ 32) : SoundMajority votes (count votes outAuth) := by
  have hadded : Added (shiftOf votes) ({} : VoteCounter κ δ) votes (addAll {} votes) := h.added
  obtain ⟨hthreshold, heq⟩ := h.count_eq outAuth hvotes
  have hsum := h.weightSum_count outAuth hvotes
  rw [Nat.mod_eq_of_lt hfit] at hthreshold
  have hpos : 0 < totalWeight votes := by
    refine Nat.pos_of_ne_zero fun hzero ↦ ?_
    obtain ⟨v, hv, hv0⟩ := hvotes
    exact hv0 (weightOf_eq_zero_iff.mp hzero v hv)
  refine ⟨fun a ↦ ?_, heq ▸ hadded.keyAuths, heq ▸ hadded.addressAuths, fun a w hw ↦ ?_, ?_, by omega, by omega⟩
  · rw [FlatMap.mem_keys]
    constructor
    · rintro ⟨w, hw⟩
      obtain ⟨v, hv, hne, -⟩ := (h.find?_count outAuth hvotes).mp hw
      exact ⟨v, hv, hne⟩
    · rintro ⟨v, hv, hne⟩
      refine ⟨UInt16.ofNat (scaledVotes (shiftOf votes) v), (h.find?_count outAuth hvotes).mpr ⟨v, hv, hne, ?_⟩⟩
      rw [UInt16.toNat_ofNat', Nat.mod_eq_of_lt (h.scaledVotes_lt _ hv)]
  · obtain ⟨v, hv, hne, hweight⟩ := (h.find?_count outAuth hvotes).mp hw
    rw [hweight]
    exact ⟨one_le_scaledVotes _ v, Nat.le_of_lt_succ (h.scaledVotes_lt _ hv)⟩
  · intro a v w b u x hav hbu hle hw hx
    obtain ⟨v', hv', -, hweight⟩ := (h.find?_count outAuth hvotes).mp hw
    obtain ⟨u', hu', -, hweight'⟩ := (h.find?_count outAuth hvotes).mp hx
    -- an account has its votes once
    obtain rfl := (Prod.mk.inj (List.inj_on_of_nodup_map h.nodup hav hv' rfl)).2
    obtain rfl := (Prod.mk.inj (List.inj_on_of_nodup_map h.nodup hbu hu' rfl)).2
    rw [UInt16.le_iff_toNat_le, hweight, hweight']
    exact scaledVotes_mono _ hle

theorem Ranked.countsSoundly (h : Ranked votes) (outAuth : VotedAuthority κ δ) (hfit : totalWeight votes < 2 ^ 32) :
    CountsSoundly votes outAuth (count votes outAuth) := by
  refine ⟨fun hvotes ↦ h.soundMajority outAuth hvotes hfit, fun hzero ↦ ?_⟩
  unfold count
  rw [(@addAll_of_forall_zero κ δ _ _ 0 votes {} hzero).1]
  rfl

/-- At most 65537 accounts do not weigh too much. -/
theorem Ranked.totalWeight_lt_of_length (h : Ranked votes) (hlength : votes.length ≤ 65537) :
    totalWeight votes < 2 ^ 32 := by
  have hweight : totalWeight votes ≤ votes.length * 65535 :=
    weightOf_le _ fun v hv ↦ Nat.le_of_lt_succ (h.scaledVotes_lt v hv)
  omega

/-- **The majority is sound exactly if the total weight has 32 bits**; so it is with at most 65537 accounts. -/
theorem count_sound (h : Ranked votes) (outAuth : VotedAuthority κ δ) :
    (CountsSoundly votes outAuth (count votes outAuth) ↔ totalWeight votes < 2 ^ 32) ∧
    (votes.length ≤ 65537 → CountsSoundly votes outAuth (count votes outAuth)) := by
  refine ⟨⟨fun hsound ↦ ?_, h.countsSoundly outAuth⟩,
    fun hlength ↦ h.countsSoundly outAuth (h.totalWeight_lt_of_length hlength)⟩
  by_cases hvotes : ∃ v ∈ votes, v.2 ≠ 0
  · have hmajority := (hsound.1 hvotes).majority
    rw [h.weightSum_count outAuth hvotes, (h.count_eq outAuth hvotes).1] at hmajority
    omega
  · have hweight : totalWeight votes = 0 :=
      weightOf_eq_zero_iff.mpr fun v hv ↦ not_not.mp fun hne ↦ hvotes ⟨v, hv, hne⟩
    omega

/-- Three witnesses with votes and one without. -/
theorem count_sound_four :
    CountsSoundly [(6, 1000000), (9, 70000), (7, 5), (8, 0)] ({} : VotedAuthority ℕ ℕ)
      (count [(6, 1000000), (9, 70000), (7, 5), (8, 0)] {}) := by
  have hranked : Ranked [(6, 1000000), (9, 70000), (7, 5), (8, 0)] := by
    refine ⟨?_, by decide, by decide⟩
    simp
  exact (count_sound hranked {}).2 (by decide)

/-- As many accounts as `n`, with 65535 votes each. -/
def equalVotes (n : ℕ) : List (AccountId × UInt64) := (List.range n).map fun a ↦ (a, 65535)

theorem ranked_equalVotes {n : ℕ} (hn : n ≤ 2 ^ 48) : Ranked (equalVotes n) where
  instances v hv := by
    obtain ⟨a, ha, rfl⟩ := List.mem_map.mp hv
    exact (List.mem_range.mp ha).trans_le hn
  nodup := by
    rw [equalVotes, List.map_map]
    exact (List.map_id (List.range n)).symm ▸ List.nodup_range
  sorted := by
    rw [equalVotes, List.pairwise_map]
    exact List.pairwise_of_forall fun _ _ ↦ UInt64.le_refl _

theorem totalWeight_equalVotes (n : ℕ) : totalWeight (equalVotes n) = n * 65535 := by
  cases n with
  | zero => rfl
  | succ n =>
    have hshift : shiftOf (equalVotes (n + 1)) = 0 := by
      rw [equalVotes, List.range_succ_eq_map]
      rfl
    have hfilter : (equalVotes (n + 1)).filter (fun v ↦ v.2 ≠ 0) = equalVotes (n + 1) := by
      refine List.filter_eq_self.mpr fun v hv ↦ ?_
      obtain ⟨a, -, rfl⟩ := List.mem_map.mp hv
      rfl
    have hweight : ((fun v : AccountId × UInt64 ↦ scaledVotes 0 v.2) ∘ fun a ↦ (a, 65535)) = fun _ ↦ 65535 := rfl
    rw [totalWeight, hshift, weightOf, hfilter, equalVotes, List.map_map, hweight]
    simp

/-- **A threshold far below half**: 65538 accounts of the same votes weigh more than 32 bits can tell. -/
theorem count_unsound : Ranked (equalVotes 65538) ∧
    ¬CountsSoundly (equalVotes 65538) ({} : VotedAuthority ℕ ℕ) (count (equalVotes 65538) {}) := by
  have hranked : Ranked (equalVotes 65538) := ranked_equalVotes (by norm_num)
  have hvotes : ∃ v ∈ equalVotes 65538, v.2 ≠ 0 :=
    ⟨(0, 65535), List.mem_map.mpr ⟨0, List.mem_range.mpr (by norm_num), rfl⟩, by decide⟩
  refine ⟨hranked, fun hsound ↦ ?_⟩
  have hmajority := (hsound.1 hvotes).majority
  rw [hranked.weightSum_count {} hvotes, (hranked.count_eq {} hvotes).1, totalWeight_equalVotes] at hmajority
  omega

/-! ### Those who vote -/

theorem Ranked.sublist {votes' : List (AccountId × UInt64)} (h : Ranked votes) (hsub : votes'.Sublist votes) :
    Ranked votes' where
  instances v hv := h.instances v (hsub.subset hv)
  nodup := h.nodup.sublist (hsub.map Prod.fst)
  sorted := h.sorted.sublist hsub

theorem topHolders_sublist (acct : AccountId) (n : ℕ) (balances : List (AccountId × UInt64)) :
    (topHolders acct n balances).Sublist balances := by
  induction balances generalizing n with
  | nil => exact .slnil
  | cons bal balances ih =>
    unfold topHolders
    split_ifs
    · exact (ih n).cons bal
    · exact (List.nil_sublist _).cons_cons bal
    · exact (ih (n - 1)).cons_cons bal

theorem length_topHolders_le (acct : AccountId) {n : ℕ} (hn : 0 < n) (balances : List (AccountId × UInt64)) :
    (topHolders acct n balances).length ≤ n := by
  induction balances generalizing n with
  | nil => exact Nat.zero_le _
  | cons bal balances ih =>
    unfold topHolders
    split_ifs with _ hlast
    · exact ih hn
    · exact hn
    · have hle := ih (Nat.pos_of_ne_zero hlast)
      rw [List.length_cons]
      omega

/-- **The authorities of top holders are sound majorities**: there are at most 255 of them. -/
theorem topHoldersAuthority_sound (h : Ranked votes) (acct : AccountId) {n : UInt8} (hn : n ≠ 0)
    (authority : VotedAuthority κ δ) :
    CountsSoundly (topHolders acct n.toNat votes) authority (topHoldersAuthority acct n votes authority) := by
  have hpos : 0 < n.toNat := Nat.pos_of_ne_zero fun hzero ↦ hn (UInt8.toNat_inj.mp hzero)
  have hranked := h.sublist (topHolders_sublist acct n.toNat votes)
  have hlength := length_topHolders_le acct hpos votes
  have hbound := n.toNat_lt
  unfold topHoldersAuthority
  rw [if_neg hn]
  exact hranked.countsSoundly authority (hranked.totalWeight_lt_of_length (by omega))

section Votable

variable {α : Type} {voteTally : ℕ → UInt64} {voteId : α → ℕ} {account : α → AccountId} {allObjects : List α}

theorem votedBefore_iff {a b : α} : votedBefore voteTally voteId a b = true ↔
    (voteTally (voteId b)).toInt64.toInt < (voteTally (voteId a)).toInt64.toInt ∨
      (voteTally (voteId a)).toInt64.toInt = (voteTally (voteId b)).toInt64.toInt ∧ voteId a ≤ voteId b :=
  decide_eq_true_iff

theorem votedBefore_trans (voteTally : ℕ → UInt64) (voteId : α → ℕ) (a b c : α)
    (hab : votedBefore voteTally voteId a b = true) (hbc : votedBefore voteTally voteId b c = true) :
    votedBefore voteTally voteId a c = true := by
  rw [votedBefore_iff] at hab hbc ⊢
  omega

theorem votedBefore_total (voteTally : ℕ → UInt64) (voteId : α → ℕ) (a b : α) :
    (votedBefore voteTally voteId a b || votedBefore voteTally voteId b a) = true := by
  rw [Bool.or_eq_true, votedBefore_iff, votedBefore_iff]
  omega

theorem votes_le_of_votedBefore {a b : α} (ha : (voteTally (voteId a)).toNat < 2 ^ 63)
    (hb : (voteTally (voteId b)).toNat < 2 ^ 63) (h : votedBefore voteTally voteId a b = true) :
    voteTally (voteId b) ≤ voteTally (voteId a) := by
  have hsigned : ∀ v : UInt64, v.toNat < 2 ^ 63 → v.toInt64.toInt = v.toNat := by
    intro v hv
    exact BitVec.toInt_eq_toNat_of_lt (by change 2 * v.toNat < 2 ^ 64; omega)
  rw [votedBefore_iff, hsigned _ ha, hsigned _ hb] at h
  rw [UInt64.le_iff_toNat_le]
  omega

/-- The objects with the most votes come first, if no votes are taken for a negative number. -/
theorem ranked_sortVotableObjects (hnodup : (allObjects.map account).Nodup)
    (hinstances : ∀ a ∈ allObjects, account a < 2 ^ 48)
    (htally : ∀ a ∈ allObjects, (voteTally (voteId a)).toNat < 2 ^ 63) (count : ℕ) :
    Ranked ((sortVotableObjects voteTally voteId allObjects count).map fun a ↦
      (account a, voteTally (voteId a))) := by
  have hsub : (sortVotableObjects voteTally voteId allObjects count).Sublist
      (allObjects.mergeSort (votedBefore voteTally voteId)) := List.take_sublist _ _
  have hperm := List.mergeSort_perm allObjects (votedBefore voteTally voteId)
  have hmem : ∀ a ∈ sortVotableObjects voteTally voteId allObjects count, a ∈ allObjects :=
    fun a ha ↦ hperm.mem_iff.mp (hsub.subset ha)
  have hsorted := (List.pairwise_mergeSort (votedBefore_trans voteTally voteId)
    (votedBefore_total voteTally voteId) allObjects).sublist hsub
  refine ⟨fun v hv ↦ ?_, ?_, ?_⟩
  · obtain ⟨a, ha, rfl⟩ := List.mem_map.mp hv
    exact hinstances a (hmem a ha)
  · rw [List.map_map]
    exact ((hperm.map account).nodup_iff.mpr hnodup).sublist (hsub.map account)
  · rw [List.pairwise_map]
    refine hsorted.imp_of_mem fun {a b} ha hb hab ↦ ?_
    exact votes_le_of_votedBefore (htally a (hmem a ha)) (htally b (hmem b hb)) hab

theorem wantedCount_le (stakeTarget : ℕ) (histogram : List UInt64) (stakeTally : ℕ) :
    wantedCount stakeTarget histogram stakeTally ≤ histogram.length := by
  induction histogram generalizing stakeTally with
  | nil => exact le_rfl
  | cons stake histogram ih =>
    unfold wantedCount
    split_ifs
    · have hle := ih (stakeTally + stake.toNat)
      rw [List.length_cons]
      omega
    · exact Nat.zero_le _

/-- The histogram has as many entries as a parameter of 16 bits allows. -/
theorem memberCount_le (totalVotingStake : UInt64) {histogram : List UInt64} {maximumCount : UInt16}
    (h : histogram.length = maximumCount.toNat / 2 + 1) (minCount : UInt16) :
    memberCount totalVotingStake histogram minCount ≤ 65535 := by
  have hmaximum := maximumCount.toNat_lt
  have hmin := minCount.toNat_lt
  have hwanted := wantedCount_le ((totalVotingStake - histogram.headD 0).toNat / 2) histogram.tail 0
  rw [List.length_tail] at hwanted
  unfold memberCount
  dsimp only
  split_ifs <;> omega

/-- **The authorities of witnesses and committee members are sound majorities.** -/
theorem votedAuthority_sound (hnodup : (allObjects.map account).Nodup)
    (hinstances : ∀ a ∈ allObjects, account a < 2 ^ 48)
    (htally : ∀ a ∈ allObjects, (voteTally (voteId a)).toNat < 2 ^ 63) (totalVotingStake : UInt64)
    {histogram : List UInt64} {maximumCount : UInt16} (hhistogram : histogram.length = maximumCount.toNat / 2 + 1)
    (minCount : UInt16) (active : VotedAuthority κ δ) :
    let count := memberCount totalVotingStake histogram minCount
    CountsSoundly ((sortVotableObjects voteTally voteId allObjects count).map fun a ↦ (account a, voteTally (voteId a)))
      active (votedAuthority voteTally voteId account allObjects count active) := by
  intro count
  have hcount : count ≤ 65535 := memberCount_le totalVotingStake hhistogram minCount
  have hranked := ranked_sortVotableObjects hnodup hinstances htally count
  refine hranked.countsSoundly active (hranked.totalWeight_lt_of_length ?_)
  rw [List.length_map, sortVotableObjects, List.length_take]
  omega

end Votable

end VoteCounter

end Playchain
