import Playchain.Spec.Votes

/-!
# The tally

The tally accepts one of the votes and reports others as invalid: it never invents a content. Given
that the owner of the table is known it fails only where the merge of the dissenting votes is
undefined, which takes three contents (`voting_ensures`), and it removes the voting either way.

The votes behind a content are counted by `voices`, over the votes alone. The groups of the tally
are these (`size_group`).
-/

namespace Playchain

variable [GameDigest] {votes : FlatMap AccountId VotingData}

/-! ### Contents -/

/-- The number of votes of one content. -/
def voices (votes : FlatMap AccountId VotingData) (digest : ℕ) : ℕ :=
  votes.toList.countP fun p ↦ GameDigest.digest p.2 = digest

/-- The contents that were voted for. -/
def contents (votes : FlatMap AccountId VotingData) : Finset ℕ :=
  (votes.toList.map fun p ↦ GameDigest.digest p.2).toFinset

theorem card_contents_le : (contents votes).card ≤ votes.size :=
  (List.toFinset_card_le _).trans (List.length_map _).le

theorem voices_pos_iff {digest : ℕ} : 0 < voices votes digest ↔ digest ∈ contents votes := by
  simp [voices, contents, List.countP_pos_iff]

/-! ### Groups of votes -/

/-- All entries of `m` are among the votes. -/
def AmongVotes (votes m : FlatMap AccountId VotingData) : Prop :=
  ∀ a x, m.find? a = some x → votes.find? a = some x

omit [GameDigest] in
theorem AmongVotes.insert {m : FlatMap AccountId VotingData} (h : AmongVotes votes m)
    {p : AccountId × VotingData} (hp : votes.find? p.1 = some p.2) :
    AmongVotes votes (m.insert p.1 p.2) := by
  intro a x hx
  rw [FlatMap.find?_insert] at hx
  split_ifs at hx with ha
  · rw [ha, hp, Option.some.inj hx]
  · exact h a x hx

/-- Every group consists of votes. -/
theorem votesByContent_among {digest : ℕ} {m : FlatMap AccountId VotingData}
    (h : (votesByContent votes).find? digest = some m) : AmongVotes votes m := by
  revert digest m
  refine List.foldlRecOn votes.toList _ (motive := fun groups : FlatMap ℕ _ ↦
    ∀ {digest : ℕ} {m : FlatMap AccountId VotingData}, groups.find? digest = some m →
      AmongVotes votes m) (fun h ↦ by simp at h) ?_
  intro groups hgroups p hp digest m hm
  have hp' := FlatMap.find?_eq_some_iff.2 hp
  rw [FlatMap.find?_insert] at hm
  split_ifs at hm with hd
  · obtain rfl := Option.some.inj hm
    refine AmongVotes.insert ?_ hp'
    rcases hg : groups.find? (GameDigest.digest p.2) with - | g
    · exact fun a x hx ↦ by simp at hx
    · exact hgroups hg
  · exact hgroups hm

/-- One vote is put into the group of its content. -/
private def addVoice (groups : FlatMap ℕ (FlatMap AccountId VotingData))
    (p : AccountId × VotingData) : FlatMap ℕ (FlatMap AccountId VotingData) :=
  groups.insert (GameDigest.digest p.2)
    (((groups.find? (GameDigest.digest p.2)).getD ∅).insert p.1 p.2)

private theorem keys_foldl_addVoice (l : List (AccountId × VotingData)) :
    (l.foldl addVoice ∅).keys = (l.map fun p ↦ GameDigest.digest p.2).toFinset := by
  induction l using List.reverseRecOn with
  | nil => rfl
  | append_singleton l p ih =>
    rw [List.foldl_append, List.foldl_cons, List.foldl_nil, addVoice, FlatMap.keys_insert, ih]
    ext digest
    simp [eq_comm]

private theorem keys_group_foldl (l : List (AccountId × VotingData)) (digest : ℕ) :
    (((l.foldl addVoice ∅).find? digest).getD ∅).keys =
      ((l.filter fun p ↦ GameDigest.digest p.2 = digest).map Prod.fst).toFinset := by
  induction l using List.reverseRecOn with
  | nil => rfl
  | append_singleton l p ih =>
    rw [List.foldl_append, List.foldl_cons, List.foldl_nil, addVoice, FlatMap.find?_insert]
    by_cases hp : digest = GameDigest.digest p.2
    · rw [if_pos hp, Option.getD_some, FlatMap.keys_insert, ← hp, ih]
      ext a
      simp [List.filter_append, hp]
    · rw [if_neg hp, ih]
      simp [List.filter_append, Ne.symm hp]

theorem keys_votesByContent : (votesByContent votes).keys = contents votes :=
  keys_foldl_addVoice votes.toList

theorem size_votesByContent : (votesByContent votes).size = (contents votes).card := by
  rw [← FlatMap.card_keys, keys_votesByContent]

/-- The voters of a group are those of its content. -/
theorem keys_group {digest : ℕ} {group : FlatMap AccountId VotingData}
    (h : (votesByContent votes).find? digest = some group) :
    group.keys = ((votes.toList.filter fun p ↦ GameDigest.digest p.2 = digest).map Prod.fst).toFinset := by
  have hkeys := keys_group_foldl votes.toList digest
  rwa [show votes.toList.foldl addVoice ∅ = votesByContent votes from rfl, h,
    Option.getD_some] at hkeys

/-- A group of the tally has the size of the support of its content. -/
theorem size_group {digest : ℕ} {group : FlatMap AccountId VotingData}
    (h : (votesByContent votes).find? digest = some group) : group.size = voices votes digest := by
  rw [← FlatMap.card_keys, keys_group h, List.toFinset_card_of_nodup, List.length_map, voices,
    List.countP_eq_length_filter]
  exact votes.nodup_fst.sublist (List.filter_sublist.map _)

/-- Every vote of a group has the group's content. -/
theorem digest_of_group {digest : ℕ} {group : FlatMap AccountId VotingData}
    (h : (votesByContent votes).find? digest = some group) {p : AccountId × VotingData}
    (hp : p ∈ group.toList) : GameDigest.digest p.2 = digest := by
  have hmem := FlatMap.mem_keys_of_mem hp
  rw [keys_group h, List.mem_toFinset, List.mem_map] at hmem
  obtain ⟨q, hq, hqp⟩ := hmem
  obtain ⟨hq, hdigest⟩ := List.mem_filter.1 hq
  have hvote := votesByContent_among h p.1 p.2 (FlatMap.find?_eq_some_iff.2 hp)
  rw [← hqp, FlatMap.find?_eq_some_iff.2 hq, Option.some.injEq] at hvote
  rw [← hvote]
  exact of_decide_eq_true hdigest

/-! ### The winner -/

omit [GameDigest] in
theorem maxContent_mem {l : List (ℕ × FlatMap AccountId VotingData)}
    {best : ℕ × FlatMap AccountId VotingData} (h : maxContent l = some best) : best ∈ l := by
  cases l with
  | nil => cases h
  | cons p l =>
    rw [maxContent] at h
    obtain rfl := Option.some.inj h
    refine List.foldlRecOn l _ (motive := fun b ↦ b ∈ p :: l) List.mem_cons_self ?_
    intro b hb q hq
    split_ifs
    · exact List.mem_cons_of_mem _ hq
    · exact hb

/-! ### Merging -/

omit [GameDigest] in
theorem mergeInto_empty (voters : FlatMap AccountId VotingData) :
    mergeInto ∅ voters = some voters := by
  have hempty : (∅ : FlatMap AccountId VotingData).isEmpty = true := rfl
  rw [mergeInto, if_pos hempty]
  exact congrArg some (FlatMap.rekey_id voters)

/-- The voters of one group at most. -/
def soleGroup : List (ℕ × FlatMap AccountId VotingData) → Option (FlatMap AccountId VotingData)
  | [] => some ∅
  | [group] => some group.2
  | _ => none

omit [GameDigest] in
/-- **The merge of several groups** has an outcome for one group at most. -/
theorem mergeGroups_empty {groups : List (ℕ × FlatMap AccountId VotingData)}
    (hne : ∀ group ∈ groups, group.2.isEmpty = false) :
    mergeGroups groups ∅ = soleGroup groups := by
  rcases groups with _ | ⟨first, _ | ⟨second, rest⟩⟩
  · rfl
  · rw [mergeGroups, mergeInto_empty]
    rfl
  · have hfirst := hne first List.mem_cons_self
    have hsecond := hne second (List.mem_cons_of_mem _ List.mem_cons_self)
    rw [mergeGroups, mergeInto_empty, Option.bind_some, mergeGroups, mergeInto, hfirst, hsecond]
    rfl

/-- No group is empty, so the merge is about the number of groups. -/
theorem mergeGroups_dissenting (winner : ℕ) :
    mergeGroups ((votesByContent votes).erase winner).toList ∅ =
      soleGroup ((votesByContent votes).erase winner).toList := by
  refine mergeGroups_empty fun group hgroup ↦ ?_
  have hfind := FlatMap.find?_eq_some_iff.2 (FlatMap.mem_erase.1 hgroup).1
  have hpos : 0 < voices votes group.1 := by
    rw [voices_pos_iff, ← keys_votesByContent]
    exact FlatMap.mem_keys.2 ⟨_, hfind⟩
  rw [← size_group hfind] at hpos
  rw [FlatMap.isEmpty, List.isEmpty_eq_false_iff]
  exact List.length_pos_iff.1 hpos

/-- There is one other content at most if there are two contents. -/
theorem isSome_soleGroup_iff {winner : ℕ} (h : winner ∈ contents votes) :
    (soleGroup ((votesByContent votes).erase winner).toList).isSome = true ↔
      (contents votes).card ≤ 2 := by
  have hcard : ((votesByContent votes).erase winner).toList.length = (contents votes).card - 1 := by
    rw [← keys_votesByContent] at h ⊢
    rw [← Finset.card_erase_of_mem h, ← FlatMap.keys_erase, FlatMap.card_keys, FlatMap.size]
  have hlen : ∀ l : List (ℕ × FlatMap AccountId VotingData),
      (soleGroup l).isSome = true ↔ l.length ≤ 1 := by
    rintro (_ | ⟨first, _ | ⟨second, rest⟩⟩) <;> simp [soleGroup]
  rw [hlen, hcard]
  omega

/-! ### The outcome -/

/-- What the tally accepts, and what it merges for the other voters. -/
theorem votingImpl_eq {requied : PercentType} {x : VotingData}
    {merged : Option (FlatMap AccountId VotingData)}
    (h : votingImpl votes requied = some (x, merged)) :
    (∃ best, maxContent (votesByContent votes).toList = some best ∧
      best.1 = GameDigest.digest x) ∧
    (∃ a, votes.find? a = some x) ∧
    merged = soleGroup ((votesByContent votes).erase (GameDigest.digest x)).toList := by
  obtain ⟨best, hbest, h⟩ := Option.bind_eq_some_iff.1 h
  have hgroup := FlatMap.find?_eq_some_iff.2 (maxContent_mem hbest)
  dsimp only at h
  split_ifs at h
  obtain ⟨p, hp, h⟩ := Option.bind_eq_some_iff.1 h
  obtain ⟨rfl, rfl⟩ := Prod.mk.inj (Option.some.inj h)
  have hmem := List.mem_of_mem_head? (Option.mem_def.2 hp)
  have hdigest := digest_of_group hgroup hmem
  refine ⟨⟨best, hbest, hdigest.symm⟩, ⟨p.1, ?_⟩, ?_⟩
  · exact votesByContent_among hgroup _ _ (FlatMap.find?_eq_some_iff.2 hmem)
  · rw [hdigest]
    exact mergeGroups_dissenting best.1

/-- **The tally chooses among the votes.** The accepted content is the content of a vote, and the
votes reported as invalid are votes. -/
theorem votingImpl_among {requied : PercentType} {x : VotingData}
    {merged : Option (FlatMap AccountId VotingData)}
    (h : votingImpl votes requied = some (x, merged)) :
    (∃ a, votes.find? a = some x) ∧
      ∀ invalid, merged = some invalid → AmongVotes votes invalid := by
  obtain ⟨-, hvote, rfl⟩ := votingImpl_eq h
  refine ⟨hvote, fun invalid hinvalid ↦ ?_⟩
  rcases hl : ((votesByContent votes).erase (GameDigest.digest x)).toList with
    _ | ⟨group, _ | ⟨second, rest⟩⟩
  · rw [hl] at hinvalid
    obtain rfl := Option.some.inj hinvalid
    exact fun a y hy ↦ by simp at hy
  · rw [hl] at hinvalid
    obtain rfl := Option.some.inj hinvalid
    have hmem : group ∈ ((votesByContent votes).erase (GameDigest.digest x)).toList := by
      rw [hl]
      exact List.mem_cons_self
    exact votesByContent_among (FlatMap.find?_eq_some_iff.2 (FlatMap.mem_erase.1 hmem).1)
  · rw [hl] at hinvalid
    cases hinvalid

/-- The merge of the votes for other contents has an outcome if there are two contents at most. -/
theorem merged_isSome_iff {requied : PercentType} {x : VotingData}
    {merged : Option (FlatMap AccountId VotingData)}
    (h : votingImpl votes requied = some (x, merged)) :
    merged.isSome = true ↔ (contents votes).card ≤ 2 := by
  obtain ⟨⟨best, hbest, hdigest⟩, -, rfl⟩ := votingImpl_eq h
  refine isSome_soleGroup_iff ?_
  rw [← hdigest, ← keys_votesByContent]
  exact FlatMap.mem_keys.2 ⟨_, FlatMap.find?_eq_some_iff.2 (maxContent_mem hbest)⟩

/-- The contents of some of the votes. -/
theorem AmongVotes.contents_subset {m : FlatMap AccountId VotingData} (h : AmongVotes votes m) :
    contents m ⊆ contents votes := by
  intro c hc
  rw [contents, List.mem_toFinset, List.mem_map] at hc ⊢
  obtain ⟨p, hp, rfl⟩ := hc
  exact ⟨p, FlatMap.find?_eq_some_iff.1 (h p.1 p.2 (FlatMap.find?_eq_some_iff.2 hp)), rfl⟩

omit [GameDigest] in
theorem honestWitnesses_total {d : Database} {t : TableObject} (hroom : d.rooms.Has t.room)
    (voted : FlatSet GameWitnessId) (invalid : FlatMap AccountId VotingData) :
    ∃ witnesses, honestWitnesses d t voted invalid = .ok witnesses := by
  have hloop : (honestWitnesses d t voted invalid).Ensures (fun _ ↦ False) fun _ ↦ True := by
    refine Except.Ensures.foldlM (fun _ ↦ True) (fun p _ s _ ↦ ?_) trivial
    obtain ⟨w, hw⟩ := getWitnessIfExist_total hroom p.1
    refine .bind_of_eq hw ?_
    cases w with
    | none => exact .pure trivial
    | some w => exact .pure trivial
  obtain ⟨witnesses, hw, -⟩ := hloop.exists_ok
  exact ⟨witnesses, hw⟩

/-- **The tally fails only where its merge is undefined.** It removes the voting, and a consensus is
about the votes. -/
theorem voting_ensures {E : ChainError → Prop} {d : Database} {t : TableObject}
    (hroom : d.rooms.Has t.room) (id : ℕ) (v : TableVotingObject) (requied : PercentType)
    (hU : 2 < (contents v.votes).card → E .undefinedBehaviour) :
    (voting d id v t requied).Ensures E fun s ↦
      s.1 = { d with tableVotings := d.tableVotings.remove id } ∧
      ∀ consensus, s.2 = some consensus → (∃ a, v.votes.find? a = some consensus.validVote) ∧
        AmongVotes v.votes consensus.accountsWithInvalidVote := by
  rw [voting]
  rcases hv : votingImpl v.votes requied with - | ⟨x, - | invalid⟩
  · exact .pure ⟨rfl, fun _ hc ↦ by cases hc⟩
  · refine .error (hU (lt_of_not_ge fun hle ↦ ?_))
    cases (merged_isSome_iff hv).2 hle
  · obtain ⟨witnesses, hw⟩ := honestWitnesses_total hroom v.votedWitnesses invalid
    refine .bind_of_eq hw (.pure ⟨rfl, fun _ hc ↦ ?_⟩)
    obtain rfl := Option.some.inj hc
    exact ⟨(votingImpl_among hv).1, (votingImpl_among hv).2 invalid rfl⟩

/-! ### Votings with three contents -/

/-- The tally may be undefined for a voting of the database. -/
def MergeFails (E : ChainError → Prop) (d : Database) : Prop :=
  ∀ i v, d.tableVotings.find? i = some v → 2 < (contents v.votes).card → E .undefinedBehaviour

/-- Votings are at most dropped, and of their votes some are. -/
theorem MergeFails.of_frame {E : ChainError → Prop} {busy : TableId → Prop} {d d' : Database}
    (h : MergeFails E d) (hf : Frame busy d d') : MergeFails E d' := by
  intro i v hv hmany
  obtain ⟨w, hw, hs, -⟩ := hf.votings i v hv
  exact h i w hw (hmany.trans_le (Finset.card_le_card (AmongVotes.contents_subset hs.votes)))

end Playchain
