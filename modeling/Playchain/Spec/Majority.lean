import Playchain.Spec.Tally
import Playchain.Spec.Runs

/-!
# The majority behind a consensus

The tally compares the number of *contents* beyond the first with the number of votes: it calls
`(contents - 1) * 100% / votes` the percentage of missed votes. That is the percentage of votes that
miss only if each dissenting content has a single voter; a few contents with many voters each pass
it without any of them having the required percentage behind it.

The groups of the tally have the sizes that `voices` counts, and the group it accepts is a largest one
(`IsWinner`), so what the tally guarantees can be read off the voices, the number of contents and the
required percentage.
-/

namespace Playchain

section Majority

variable [GameDigest] {votes : FlatMap AccountId VotingData}

/-! ### The accepted group -/

omit [GameDigest] in
theorem contentLt_iff {a b : ℕ × FlatMap AccountId VotingData} :
    contentLt a b = true ↔ a.2.size < b.2.size ∨ (a.2.size = b.2.size ∧ a.1 < b.1) := by
  unfold contentLt
  split_ifs with h
  · simp [h]
  · simp [h]

omit [GameDigest] in
/-- No element of a list of groups is above the largest. -/
theorem not_contentLt_maxContent {l : List (ℕ × FlatMap AccountId VotingData)}
    {best : ℕ × FlatMap AccountId VotingData} (h : maxContent l = some best) :
    ∀ p ∈ l, contentLt best p = false := by
  cases l with
  | nil => cases h
  | cons p l =>
    rw [maxContent] at h
    obtain rfl := Option.some.inj h
    clear h
    induction l using List.reverseRecOn with
    | nil =>
      intro q hq
      rw [List.mem_singleton.1 hq]
      simp [← Bool.not_eq_true, contentLt_iff]
    | append_singleton l q ih =>
      rw [List.foldl_append, List.foldl_cons, List.foldl_nil]
      intro g hg
      rw [← List.cons_append, List.mem_append, List.mem_singleton] at hg
      split_ifs with hlt
      · rcases hg with hg | rfl
        · have hg' := ih g hg
          rw [← Bool.not_eq_true, contentLt_iff] at hg' ⊢
          rw [contentLt_iff] at hlt
          omega
        · simp [← Bool.not_eq_true, contentLt_iff]
      · rcases hg with hg | rfl
        · exact ih g hg
        · simpa using hlt

/-- The content the tally accepts if it accepts one: a content with the most voices, and the greatest
digest among those. -/
structure IsWinner (votes : FlatMap AccountId VotingData) (winner : ℕ) : Prop where
  mem : winner ∈ contents votes
  voices_le : ∀ c ∈ contents votes, voices votes c < voices votes winner ∨
    (voices votes c = voices votes winner ∧ c ≤ winner)

theorem maxContent_isWinner {best : ℕ × FlatMap AccountId VotingData}
    (h : maxContent (votesByContent votes).toList = some best) : IsWinner votes best.1 := by
  have hbest := FlatMap.find?_eq_some_iff.2 (maxContent_mem h)
  refine ⟨?_, fun c hc ↦ ?_⟩
  · rw [← keys_votesByContent]
    exact FlatMap.mem_keys.2 ⟨_, hbest⟩
  · rw [← keys_votesByContent] at hc
    obtain ⟨group, hgroup⟩ := FlatMap.mem_keys.1 hc
    have hle := not_contentLt_maxContent h _ (FlatMap.find?_eq_some_iff.1 hgroup)
    rw [← Bool.not_eq_true, contentLt_iff, size_group hbest, size_group hgroup] at hle
    omega

theorem IsWinner.eq {a b : ℕ} (ha : IsWinner votes a) (hb : IsWinner votes b) : a = b := by
  have hab := ha.voices_le b hb.mem
  have hba := hb.voices_le a ha.mem
  omega

/-- The zero digest wins only with strictly more voices than every other content. -/
theorem isWinner_zero_iff (hne : (contents votes).Nonempty) :
    IsWinner votes 0 ↔ ∀ c ∈ contents votes, c ≠ 0 → voices votes c < voices votes 0 := by
  constructor
  · intro h c hc hc0
    have hle := h.voices_le c hc
    omega
  · intro h
    have hzero : 0 ∈ contents votes := by
      by_contra hzero
      obtain ⟨c, hc⟩ := hne
      have hlt := h c hc fun hc0 ↦ hzero (hc0 ▸ hc)
      exact hzero (voices_pos_iff.1 (by omega))
    refine ⟨hzero, fun c hc ↦ ?_⟩
    by_cases hc0 : c = 0
    · exact .inr (by simp [hc0])
    · exact .inl (h c hc hc0)

/-- The percentage of missed votes fits its sixteen bits. -/
theorem missVotesPercent_lt (hne : (contents votes).Nonempty) :
    ((contents votes).card - 1) * hundredPercent / votes.size < 2 ^ 16 := by
  have hcard : (contents votes).card ≤ votes.size := card_contents_le
  have hpos := hne.card_pos
  have hlt : ((contents votes).card - 1) * hundredPercent < votes.size * hundredPercent :=
    Nat.mul_lt_mul_of_pos_right (by omega) (by decide)
  have hdiv := Nat.div_lt_of_lt_mul hlt
  exact hdiv.trans (by decide)

/-- The comparison the tally makes, without its rounding. -/
theorem missVotesPercent_le_iff (hne : (contents votes).Nonempty) {requied : PercentType}
    (hrequied : requied ≤ hundredPercent) :
    (((((votesByContent votes).size - 1) * hundredPercent / votes.size % 2 ^ 16 : ℕ) : ℤ) ≤
        (hundredPercent : ℤ) - requied) ↔
      ((contents votes).card - 1) * hundredPercent <
        (hundredPercent + 1 - requied) * votes.size := by
  have hsize : 0 < votes.size := hne.card_pos.trans_le card_contents_le
  rw [size_votesByContent, Nat.mod_eq_of_lt (missVotesPercent_lt hne), ← Nat.cast_sub hrequied,
    Nat.cast_le, ← Nat.lt_succ_iff, Nat.div_lt_iff_lt_mul hsize, Nat.succ_eq_add_one,
    ← Nat.sub_add_comm hrequied]

/-- **When the tally finds a consensus.** A content is accepted only if the contents are few enough
for the number of votes, and it is the content of the winner. -/
theorem digest_of_votingImpl (hne : (contents votes).Nonempty) {requied : PercentType}
    (hrequied : requied ≤ hundredPercent) {x : VotingData}
    {invalid : Option (FlatMap AccountId VotingData)}
    (h : votingImpl votes requied = some (x, invalid)) :
    IsWinner votes (GameDigest.digest x) ∧ GameDigest.digest x ≠ 0 ∧
      ((contents votes).card - 1) * hundredPercent <
        (hundredPercent + 1 - requied) * votes.size := by
  obtain ⟨best, hbest, h⟩ := Option.bind_eq_some_iff.1 h
  have hgroup := FlatMap.find?_eq_some_iff.2 (maxContent_mem hbest)
  dsimp only at h
  split_ifs at h with hfew
  obtain ⟨p, hp, h⟩ := Option.bind_eq_some_iff.1 h
  obtain ⟨rfl, -⟩ := Prod.mk.inj (Option.some.inj h)
  rw [digest_of_group hgroup (List.mem_of_mem_head? (Option.mem_def.2 hp))]
  exact ⟨maxContent_isWinner hbest, hfew.2, (missVotesPercent_le_iff hne hrequied).1 hfew.1⟩

/-- Conversely, few contents and a winner that is not the zero digest are enough. -/
theorem exists_votingImpl (hne : (contents votes).Nonempty) {requied : PercentType}
    (hrequied : requied ≤ hundredPercent) (hzero : ¬ IsWinner votes 0)
    (hfew : ((contents votes).card - 1) * hundredPercent <
      (hundredPercent + 1 - requied) * votes.size) :
    ∃ x invalid, votingImpl votes requied = some (x, invalid) := by
  obtain ⟨best, hbest⟩ : ∃ best, maxContent (votesByContent votes).toList = some best := by
    rcases hl : (votesByContent votes).toList with - | ⟨p, l⟩
    · rw [← keys_votesByContent, FlatMap.keys, hl] at hne
      exact absurd hne (by simp)
    · exact ⟨_, rfl⟩
  have hwinner := maxContent_isWinner hbest
  have hgroup := FlatMap.find?_eq_some_iff.2 (maxContent_mem hbest)
  obtain ⟨p, hp⟩ : ∃ p, best.2.toList.head? = some p := by
    have hpos := (size_group hgroup).symm ▸ voices_pos_iff.2 hwinner.mem
    exact ⟨_, List.head?_eq_some_head (List.length_pos_iff.1 hpos)⟩
  have hbest0 : best.1 ≠ 0 := fun h0 ↦ hzero (h0 ▸ hwinner)
  unfold votingImpl
  dsimp only
  rw [hbest, Option.bind_eq_bind, Option.bind_some,
    if_pos ⟨(missVotesPercent_le_iff hne hrequied).2 hfew, hbest0⟩, hp]
  exact ⟨_, _, rfl⟩

/-! ### The guarantee -/

/-- **What a consensus guarantees.** The tally accepts only contents with the required percentage of
the votes behind them exactly if some content has it, or the contents are too many for the tally, or
the zero digest has the most voices. -/
theorem votingImpl_qualifiedMajority_iff (votes : FlatMap AccountId VotingData)
    (hne : votes ≠ ∅) (requied : PercentType) (hrequied : requied ≤ hundredPercent) :
    (∀ x invalid, votingImpl votes requied = some (x, invalid) →
        requied * votes.size ≤ voices votes (GameDigest.digest x) * hundredPercent) ↔
      (∃ c ∈ contents votes, requied * votes.size ≤ voices votes c * hundredPercent) ∨
      (hundredPercent + 1 - requied) * votes.size ≤
        ((contents votes).card - 1) * hundredPercent ∨
      (∀ c ∈ contents votes, c ≠ 0 → voices votes c < voices votes 0) := by
  have hcontents : (contents votes).Nonempty := by
    have hempty : votes.isEmpty = false := by
      rw [← Bool.not_eq_true, FlatMap.isEmpty_iff]
      exact hne
    obtain ⟨a, x, hx⟩ := FlatMap.isEmpty_eq_false_iff.1 hempty
    refine ⟨GameDigest.digest x, List.mem_toFinset.2 (List.mem_map.2 ⟨(a, x), ?_, rfl⟩)⟩
    exact FlatMap.find?_eq_some_iff.1 hx
  rw [← isWinner_zero_iff hcontents]
  constructor
  · intro h
    by_contra hcon
    push Not at hcon
    obtain ⟨hnone, hfew, hzero⟩ := hcon
    obtain ⟨x, invalid, hx⟩ := exists_votingImpl hcontents hrequied hzero hfew
    have hwinner := (digest_of_votingImpl hcontents hrequied hx).1
    exact absurd (h x invalid hx) (not_le.2 (hnone _ hwinner.mem))
  · intro h x invalid hx
    obtain ⟨hwinner, hx0, hfew⟩ := digest_of_votingImpl hcontents hrequied hx
    rcases h with ⟨c, hc, hmajority⟩ | hmany | hzero
    · have hle : voices votes c ≤ voices votes (GameDigest.digest x) := by
        have := hwinner.voices_le c hc
        omega
      exact hmajority.trans (Nat.mul_le_mul_right _ hle)
    · exact absurd hfew (not_lt.2 hmany)
    · exact absurd (hwinner.eq hzero) hx0

end Majority

/-- A result in which one player has everything. -/
def sampleWin (winner : AccountId) : VotingData :=
  .gameResult ⟨(∅ : FlatMap AccountId GamerCashResult).insert winner ⟨{ amount := 20 }, {}⟩, ""⟩

/-- Two accounts vote for one result and two for the other. -/
def sampleEvenVotes : FlatMap AccountId VotingData :=
  ((((∅ : FlatMap AccountId VotingData).insert 6 (sampleWin 7)).insert 7 (sampleWin 7)).insert 8
    (sampleWin 8)).insert 9 (sampleWin 8)

/-- **Half of the votes are enough where 60% are required**: two contents for four votes count as a
quarter of missed votes. -/
theorem votingImpl_accepts_half :
    ¬ ∀ (_ : GameDigest) (votes : FlatMap AccountId VotingData) (requied : PercentType),
      votes ≠ ∅ → requied ≤ hundredPercent →
        ∀ x invalid, votingImpl votes requied = some (x, invalid) →
          requied * votes.size ≤ voices votes (GameDigest.digest x) * hundredPercent := by
  intro h
  have hsome : (@votingImpl sampleDigest sampleEvenVotes 6000).isSome = true := by decide
  obtain ⟨⟨x, invalid⟩, hx⟩ := Option.isSome_iff_exists.1 hsome
  have hvoices : (@votingImpl sampleDigest sampleEvenVotes 6000).map
      (fun r ↦ @voices sampleDigest sampleEvenVotes (@GameDigest.digest sampleDigest r.1)) =
        some 2 := by decide
  have hle := h sampleDigest sampleEvenVotes 6000 (by decide) (by decide) x invalid hx
  rw [hx, Option.map_some, Option.some.injEq] at hvoices
  rw [hvoices] at hle
  exact absurd hle (by decide)

/-- Three votes of four are a qualified majority, and the tally accepts their content. -/
theorem votingImpl_qualifiedMajority_iff_threeOfFour :
    ∃ x invalid, @votingImpl sampleDigest (sampleEvenVotes.insert 8 (sampleWin 7)) 6000 =
      some (x, invalid) ∧
        6000 * (sampleEvenVotes.insert 8 (sampleWin 7)).size ≤
          @voices sampleDigest (sampleEvenVotes.insert 8 (sampleWin 7))
            (@GameDigest.digest sampleDigest x) * hundredPercent := by
  have hsome : (@votingImpl sampleDigest (sampleEvenVotes.insert 8 (sampleWin 7)) 6000).isSome = true := by
    decide
  obtain ⟨⟨x, invalid⟩, hx⟩ := Option.isSome_iff_exists.1 hsome
  refine ⟨x, invalid, hx, ?_⟩
  refine (@votingImpl_qualifiedMajority_iff sampleDigest _ (by decide) 6000
    (by decide)).2 (.inl ?_) x invalid hx
  exact ⟨@GameDigest.digest sampleDigest (sampleWin 7), by decide, by decide⟩

end Playchain
