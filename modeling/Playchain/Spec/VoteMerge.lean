import Playchain.Spec.Majority

/-!
# The tally partitions the voters

With at most one dissenting content the merge has an outcome, and the tally splits the voters into those of the winning
content and the others (`voting_partitions_iff`). With two dissenting contents the merge reads the container that it inserts
into.
-/

namespace Playchain

namespace VoteMerge

/-! ### The groups that dissent -/

variable [GameDigest] {votes : FlatMap AccountId VotingData}

/-- The group of a content has exactly its votes. -/
theorem find?_group {digest : ℕ} {group : FlatMap AccountId VotingData}
    (h : (votesByContent votes).find? digest = some group) (a : AccountId) (x : VotingData) :
    group.find? a = some x ↔ votes.find? a = some x ∧ GameDigest.digest x = digest := by
  constructor
  · intro ha
    exact ⟨votesByContent_among h a x ha, digest_of_group h (FlatMap.find?_eq_some_iff.1 ha)⟩
  · rintro ⟨ha, hdigest⟩
    have hkey : a ∈ group.keys := by
      rw [keys_group h]
      exact List.mem_toFinset.2 (List.mem_map.2 ⟨(a, x),
        List.mem_filter.2 ⟨FlatMap.find?_eq_some_iff.1 ha, decide_eq_true hdigest⟩, rfl⟩)
    obtain ⟨y, hy⟩ := FlatMap.mem_keys.1 hkey
    rw [hy, ← votesByContent_among h a y hy, ha]

theorem exists_group {a : AccountId} {x : VotingData} (h : votes.find? a = some x) :
    ∃ group, (votesByContent votes).find? (GameDigest.digest x) = some group := by
  rw [← FlatMap.mem_keys, keys_votesByContent, contents, List.mem_toFinset, List.mem_map]
  exact ⟨(a, x), FlatMap.find?_eq_some_iff.1 h, rfl⟩

/-- The votes for another content than the winner's, if there is one other content at most. -/
theorem find?_dissenting {winner : ℕ} {invalid : FlatMap AccountId VotingData}
    (h : soleGroup ((votesByContent votes).erase winner).toList = some invalid) (a : AccountId) (x : VotingData) :
    invalid.find? a = some x ↔ votes.find? a = some x ∧ GameDigest.digest x ≠ winner := by
  have hother {y : VotingData} {b : AccountId} (hb : votes.find? b = some y) (hy : GameDigest.digest y ≠ winner) :
      ∃ group, (GameDigest.digest y, group) ∈ ((votesByContent votes).erase winner).toList := by
    obtain ⟨group, hgroup⟩ := exists_group hb
    exact ⟨group, FlatMap.mem_erase.2 ⟨FlatMap.find?_eq_some_iff.1 hgroup, hy⟩⟩
  rcases hlist : ((votesByContent votes).erase winner).toList with _ | ⟨group, _ | ⟨second, rest⟩⟩
  · rw [hlist] at h
    obtain rfl := Option.some.inj h
    rw [FlatMap.find?_empty]
    refine ⟨nofun, fun ⟨ha, hx⟩ ↦ ?_⟩
    obtain ⟨group, hgroup⟩ := hother ha hx
    rw [hlist] at hgroup
    cases hgroup
  · rw [hlist] at h
    obtain rfl := Option.some.inj h
    have hmem : group ∈ ((votesByContent votes).erase winner).toList := by
      rw [hlist]
      exact List.mem_cons_self
    obtain ⟨hgroup, hne⟩ := FlatMap.mem_erase.1 hmem
    rw [find?_group (FlatMap.find?_eq_some_iff.2 hgroup)]
    refine and_congr_right fun ha ↦ ⟨fun hx ↦ by rwa [hx], fun hx ↦ ?_⟩
    obtain ⟨other, hother⟩ := hother ha hx
    rw [hlist, List.mem_singleton] at hother
    exact congrArg Prod.fst hother
  · rw [hlist] at h
    cases h

omit [GameDigest] in
/-- The witnesses that stay are those that no dissenting account is. -/
theorem mem_honestWitnesses {d : Database} {t : TableObject} {voted witnesses : FlatSet GameWitnessId}
    {invalid : FlatMap AccountId VotingData} (h : honestWitnesses d t voted invalid = .ok witnesses) (w : GameWitnessId) :
    w ∈ witnesses.keys ↔
      w ∈ voted.keys ∧ ∀ a ∈ invalid.keys, getWitnessIfExist d t a ≠ .ok (some w) := by
  -- what one round takes away
  have hloop : ∀ (step : FlatSet GameWitnessId → AccountId × VotingData → Except ChainError (FlatSet GameWitnessId)),
      (∀ s p s', step s p = .ok s' → ∃ found, getWitnessIfExist d t p.1 = .ok found ∧
        s' = found.elim s s.erase) → ∀ (l : List (AccountId × VotingData)) (voted : FlatSet GameWitnessId),
      l.foldlM step voted = .ok witnesses →
      (w ∈ witnesses.keys ↔ w ∈ voted.keys ∧ ∀ p ∈ l, getWitnessIfExist d t p.1 ≠ .ok (some w)) := by
    intro step hstep l
    induction l with
    | nil =>
      intro voted h
      rw [← Except.pure_eq_ok.1 h]
      simp
    | cons p l ih =>
      intro voted h
      rw [List.foldlM_cons] at h
      obtain ⟨s, hs, hrest⟩ := Except.bind_eq_ok.1 h
      obtain ⟨found, hfound, rfl⟩ := hstep voted p s hs
      rw [ih _ hrest, List.forall_mem_cons, hfound]
      cases found with
      | none => simp
      | some witness =>
        rw [Option.elim_some, FlatMap.keys_erase, Finset.mem_erase]
        simp only [ne_eq, Except.ok.injEq, Option.some.injEq, eq_comm, and_left_comm, and_assoc]
  have hstep := hloop _ (fun s p s' hs ↦ by
    obtain ⟨found, hfound, hs⟩ := Except.bind_eq_ok.1 hs
    refine ⟨found, hfound, ?_⟩
    cases found with
    | none => exact (Except.pure_eq_ok.1 hs).symm
    | some witness => exact (Except.pure_eq_ok.1 hs).symm) invalid.toList voted h
  rw [hstep]
  refine and_congr_right fun _ ↦ ⟨fun hall a ha ↦ ?_, fun hall p hp ↦ hall p.1 (FlatMap.mem_keys_of_mem hp)⟩
  obtain ⟨x, hx⟩ := FlatMap.mem_keys.1 ha
  exact hall (a, x) (FlatMap.find?_eq_some_iff.1 hx)

/-! ### The guarantee -/

/-- The outcome splits the voters of a voting: the accepted content is the winner, the invalid votes are those for another
content, and of the witnesses that have voted those remain that are not among the voters of another content. -/
structure Partitions (d : Database) (t : TableObject) (v : TableVotingObject) (c : Consensus) : Prop where
  accepted : ∃ a, v.votes.find? a = some c.validVote
  winner : IsWinner v.votes (GameDigest.digest c.validVote)
  invalid : ∀ a x, c.accountsWithInvalidVote.find? a = some x ↔
    v.votes.find? a = some x ∧ GameDigest.digest x ≠ GameDigest.digest c.validVote
  witnesses : ∀ w, w ∈ c.requiredWitnesses.keys ↔
    w ∈ v.votedWitnesses.keys ∧ ∀ a ∈ c.accountsWithInvalidVote.keys, getWitnessIfExist d t a ≠ .ok (some w)

/-- **The tally partitions the voters exactly if there is one dissenting content at most**; otherwise its outcome is
undefined. -/
theorem voting_partitions_iff {d : Database} {t : TableObject} (hroom : d.rooms.Has t.room) (id : ℕ)
    (v : TableVotingObject) {requied : PercentType} (h : votingImpl v.votes requied ≠ none) :
    (∃ c, voting d id v t requied = .ok ({ d with tableVotings := d.tableVotings.remove id }, some c) ∧
      Partitions d t v c) ↔ (contents v.votes).card ≤ 2 := by
  obtain ⟨⟨x, merged⟩, hv⟩ := Option.ne_none_iff_exists'.1 h
  rw [← merged_isSome_iff hv]
  obtain ⟨⟨best, hbest, hdigest⟩, haccepted, heq⟩ := votingImpl_eq hv
  have hwinner : IsWinner v.votes (GameDigest.digest x) := hdigest ▸ maxContent_isWinner hbest
  unfold voting
  rw [hv]
  rcases merged with - | invalid
  · exact ⟨fun ⟨_, hc, _⟩ ↦ (by cases hc), nofun⟩
  · obtain ⟨witnesses, hw⟩ := honestWitnesses_total hroom v.votedWitnesses invalid
    refine ⟨fun _ ↦ rfl, fun _ ↦ ⟨⟨x, witnesses, invalid⟩, ?_,
      haccepted, hwinner, find?_dissenting heq.symm, mem_honestWitnesses hw⟩⟩
    simp only [hw, Except.ok_bind]
    rfl

end VoteMerge

/-! ### Two and three contents -/

namespace VoteMerge

/-- A chain with one room. -/
def oneRoom : Database where
  headBlockTime := hardforkPlaychain5Time
  accounts := 2
  rooms := ((∅ : UniqueIndex fun r : RoomObject ↦ (r.owner, r.metadata)).create? { owner := 0 }).getD ∅

/-- A voting with votes. -/
def votingOf (votes : FlatMap AccountId VotingData) : TableVotingObject where
  table := 0
  created := 0
  expiration := 0
  scheduledVoting := 0
  votes := votes

theorem voting_partitions_iff_even :
    ∃ c, @voting sampleDigest oneRoom 0 (votingOf sampleEvenVotes) { room := 0 } 6000 =
        .ok ({ oneRoom with tableVotings := oneRoom.tableVotings.remove 0 }, some c) ∧
      @Partitions sampleDigest oneRoom { room := 0 } (votingOf sampleEvenVotes) c :=
  (@voting_partitions_iff sampleDigest oneRoom { room := 0 } ⟨{ owner := 0 }, rfl⟩ 0 (votingOf sampleEvenVotes) 6000
    (by decide)).2 (by decide)

/-- Five votes: three for one result, and one for each of two others. -/
def threeContents : FlatMap AccountId VotingData :=
  ((sampleEvenVotes.insert 8 (sampleWin 7)).insert 9 (sampleWin 8)).insert 10 (sampleWin 9)

/-- **Three contents**: 60% of the voters agree, but what is merged for the others is undefined. -/
theorem voting_undefined_threeContents :
    @voices sampleDigest threeContents (@GameDigest.digest sampleDigest (sampleWin 7)) = 3 ∧ threeContents.size = 5 ∧
      @votingImpl sampleDigest threeContents 6000 ≠ none ∧
      @voting sampleDigest oneRoom 0 (votingOf threeContents) { room := 0 } 6000 = .error .undefinedBehaviour ∧
      ¬∃ c, @voting sampleDigest oneRoom 0 (votingOf threeContents) { room := 0 } 6000 =
        .ok ({ oneRoom with tableVotings := oneRoom.tableVotings.remove 0 }, some c) := by
  have hmerged : (@votingImpl sampleDigest threeContents 6000).map (fun r ↦ r.2.isSome) = some false := by
    decide
  obtain ⟨⟨x, merged⟩, hv, hnone⟩ := Option.map_eq_some_iff.1 hmerged
  obtain rfl := Option.isSome_eq_false_iff.1 hnone |> Option.isNone_iff_eq_none.1
  have herror : @voting sampleDigest oneRoom 0 (votingOf threeContents) { room := 0 } 6000 =
      .error .undefinedBehaviour := by
    unfold voting
    rw [show (votingOf threeContents).votes = threeContents from rfl, hv]
  refine ⟨by decide, by decide, by rw [hv]; exact Option.some_ne_none _, herror, ?_⟩
  rintro ⟨c, hc⟩
  rw [herror] at hc
  cases hc

end VoteMerge

end Playchain
