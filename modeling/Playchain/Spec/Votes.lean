import Playchain.Spec.BuyIns
import Playchain.Spec.VoteContent

/-!
# Admitting votes

A vote is set aside, opens a voting or joins one; opening a voting drains the votes set aside for its
table. Only the votes change (`Voted`), and the voting of the table keeps every property that the
three ways of recording a vote keep (`VoteRule`). The property every such voting has, `VotingOk`, is
that its votes fit the table.
-/

namespace Playchain

variable {mode : Mode} {d : Database} {E : ChainError → Prop}

/-! ### Recording one vote -/

/-- The account may vote although it is not among the required voters: it is a game witness or the
owner of the table. -/
def Official (d : Database) (t : TableObject) (voter : AccountId) : Prop :=
  isGameWitness d t voter = .ok true ∨ isTableOwner d t voter = .ok true

/-- What `mark_voter` does, case by case. -/
theorem markVoter_cases {t : TableObject} {v v' : TableVotingObject} {voter : AccountId}
    {data : VotingData} (h : markVoter d t v voter data = .ok v') :
    (v.requiredPlayerVoters.contains voter = true ∧
      v' = { v with requiredPlayerVoters := v.requiredPlayerVoters.erase voter }) ∨
    (v.requiredPlayerVoters.contains voter = false ∧ ∃ voted required,
      v' = { v with votedWitnesses := voted, requiredWitnessVoters := required }) := by
  rw [markVoter] at h
  by_cases hc : v.requiredPlayerVoters.contains voter = true
  · rw [if_pos hc] at h
    exact Or.inl ⟨hc, (Except.pure_eq_ok.1 h).symm⟩
  · rw [if_neg hc] at h
    obtain ⟨w, -, h⟩ := Except.bind_eq_ok.1 h
    refine Or.inr ⟨Bool.not_eq_true _ ▸ hc, ?_⟩
    rcases w with - | w
    · exact ⟨v.votedWitnesses, v.requiredWitnessVoters, (Except.pure_eq_ok.1 h).symm⟩
    · exact ⟨_, _, (Except.pure_eq_ok.1 h).symm⟩

/-- What recording a vote does: the voter is struck off the required ones, the vote and the voter
are entered, and the witnesses may be noted. -/
theorem setVoter_eq {t : TableObject} {v v' : TableVotingObject} {voter : AccountId}
    {data : VotingData} (h : setVoter d t v voter data = .ok v') :
    ∃ voted required, v' = { v with
      requiredPlayerVoters := v.requiredPlayerVoters.erase voter
      votes := v.votes.insert voter data
      castVoters := v.castVoters.add voter
      votedWitnesses := voted
      requiredWitnessVoters := required } := by
  obtain ⟨v₁, h₁, h⟩ := Except.bind_eq_ok.1 h
  obtain rfl := Except.pure_eq_ok.1 h
  obtain ⟨-, rfl⟩ | ⟨hc, voted, required, rfl⟩ := markVoter_cases h₁
  · exact ⟨v.votedWitnesses, v.requiredWitnessVoters, rfl⟩
  · refine ⟨voted, required, ?_⟩
    rw [FlatMap.erase_of_find?_none (FlatMap.contains_eq_false_iff.1 hc)]

/-- The voting that an opening vote starts from. -/
def freshVoting (d : Database) (table : TableId) (votingSeconds : ℕ)
    (requiredWitnesses : FlatSet GameWitnessId) : TableVotingObject :=
  { table := table
    created := d.headBlockTime
    expiration := TimePointSec.addSeconds d.headBlockTime votingSeconds
    scheduledVoting := TimePointSec.maximum
    requiredWitnessVoters := requiredWitnesses }

/-- Under the earlier rules there may be an etalon vote: the content of the opening vote. -/
theorem setRequiredVoters_cases {t : TableObject} {v v' : TableVotingObject} {voter : AccountId}
    {pv : PercentType} {data : VotingData} (h : setRequiredVoters d t v voter pv data = .ok v') :
    ∃ required etalon allowed opening, v' = { v with
        requiredPlayerVoters := required
        etalonVote := etalon
        witnessesAllowedForSubstitution := allowed
        openingVoters := opening } ∧ (etalon = v.etalonVote ∨ etalon = some data) := by
  cases data with
  | gameInitialData start =>
    obtain ⟨owner, -, h⟩ := Except.bind_eq_ok.1 h
    by_cases hvoter : d.headBlockTime < hardforkPlaychain11Time ∧ voter ≠ owner
    · rw [if_pos hvoter] at h
      exact ⟨_, _, _, _, (Except.pure_eq_ok.1 h).symm, Or.inl rfl⟩
    · rw [if_neg hvoter] at h
      refine ⟨_, _, _, _, (Except.pure_eq_ok.1 h).symm, ?_⟩
      by_cases htime : d.headBlockTime < hardforkPlaychain11Time
      · rw [if_pos htime]
        exact Or.inr rfl
      · rw [if_neg htime]
        exact Or.inl rfl
  | gameResult r =>
    obtain ⟨accounts, -, h⟩ := Except.bind_eq_ok.1 h
    exact ⟨_, _, _, _, (Except.pure_eq_ok.1 h).symm, Or.inl rfl⟩

theorem setRequiredVoters_ensures (h : WellFormed mode d) {id : TableId} {t : TableObject}
    (ht : d.tables.find? id = some t) (v : TableVotingObject) (voter : AccountId) (pv : PercentType)
    (data : VotingData) : (setRequiredVoters d t v voter pv data).Ensures E fun _ ↦ True := by
  have hok := h.tables id t ht
  cases data with
  | gameInitialData start =>
    obtain ⟨owner, howner⟩ := hok.tableOwner
    rw [setRequiredVoters, howner, Except.ok_bind]
    split_ifs <;> exact .pure trivial
  | gameResult r =>
    refine (Except.Ensures.mapM fun p hp ↦ ?_).bind fun _ _ ↦ .pure trivial
    obtain ⟨obj, hobj⟩ := hok.playing p.1 (FlatMap.contains_iff.2 (FlatMap.mem_keys_of_mem hp))
    rw [playerById_of_find? hobj]
    exact .pure trivial

/-! ### Properties of the voting of a table -/

/-- The votes of the voting fit the table. -/
def VotingOk (players : UniqueIndex PlayerObject.account) (t : TableObject) (v : TableVotingObject) :
    Prop :=
  EtalonOk players v.etalonVote ∧ ∀ a x, v.votes.find? a = some x → VoteFits players t x

theorem VotingOk.setVoter {t : TableObject} {v v' : TableVotingObject} {voter : AccountId}
    {data : VotingData} (h : VotingOk d.players t v) (hfits : VoteFits d.players t data)
    (hset : setVoter d t v voter data = .ok v') : VotingOk d.players t v' := by
  obtain ⟨voted, required, rfl⟩ := setVoter_eq hset
  refine ⟨h.1, fun a x hx ↦ ?_⟩
  simp only [FlatMap.find?_insert] at hx
  split_ifs at hx
  · exact Option.some.inj hx ▸ hfits
  · exact h.2 a x hx

/-- **A property that admitting votes keeps.** The flag says whether the last recorded vote
completed the required voters. -/
structure VoteRule (d : Database) (t : TableObject) (op : VoteOperation) (votingSeconds : ℕ)
    (pv : PercentType) (requiredWitnesses : FlatSet GameWitnessId)
    (P : Bool → TableVotingObject → Prop) : Prop where
  /-- The vote opens the voting. -/
  opening : ∀ v v', d.tableVotings.findKey? op.table = none → Official d t op.voter →
    setRequiredVoters d t (freshVoting d op.table votingSeconds requiredWitnesses) op.voter pv
      op.data = .ok v → setVoter d t v op.voter op.data = .ok v' → P false v'
  /-- The vote joins the voting. -/
  joining : ∀ i v v', d.tableVotings.find? i = some v → v.table = op.table →
    setVoter d t v op.voter op.data = .ok v' → P (isTheRequiredNumberOfVoters t v' op.data) v'
  /-- A vote that was set aside is drained into the voting. -/
  draining : ∀ b v v' i w, P b v → d.pendingTableVotes.find? i = some w →
    (hardforkPlaychain11Time ≤ d.headBlockTime → w.table = op.table) →
    w.vote.isStart = op.isStart →
    v.requiredPlayerVoters.contains w.vote.voter = true ∨ Official d t w.vote.voter →
    setVoter d t v w.vote.voter w.vote.data = .ok v' →
    P (isTheRequiredNumberOfVoters t v' w.vote.data) v'
  /-- The tally is scheduled. -/
  scheduling : ∀ v scheduled expiration, P true v →
    P true { v with scheduledVoting := scheduled, expiration := expiration }

/-- Only votes change. -/
def OnlyVotes (d d' : Database) : Prop :=
  ∃ votings pending ops, d' = { d with
    tableVotings := votings, pendingTableVotes := pending, appliedOperations := ops }

/-- The state while votes are recorded for a table. -/
structure Collecting (table : TableId) (t : TableObject) (P : Bool → TableVotingObject → Prop)
    (d : Database) (s : Database × Bool) : Prop where
  onlyVotes : OnlyVotes d s.1
  others : ∀ i v, v.table ≠ table →
    (s.1.tableVotings.find? i = some v ↔ d.tableVotings.find? i = some v)
  voting : ∃ i v, s.1.tableVotings.find? i = some v ∧ v.table = table ∧ VotingOk d.players t v ∧
    P s.2 v
  pending : ∀ i w, s.1.pendingTableVotes.find? i = some w → d.pendingTableVotes.find? i = some w

/-- Replacing the voting of the table. -/
theorem Collecting.modify {table : TableId} {t : TableObject}
    {P P' : Bool → TableVotingObject → Prop} {s : Database × Bool} (h : Collecting table t P' d s) {i : ℕ} {v v' : TableVotingObject} {b : Bool}
    (hv : s.1.tableVotings.find? i = some v) (htable : v.table = table) (htable' : v'.table = table)
    (hok : VotingOk d.players t v') (hP : P b v') {g : TableVotingObject → TableVotingObject}
    (hg : ∀ w, (g w).table = w.table) (hgv : g v = v') :
    Collecting table t P d ({ s.1 with tableVotings := s.1.tableVotings.modify i g hg }, b) := by
  refine ⟨?_, fun j w hw ↦ ?_, ⟨i, v', ?_, htable', hok, hP⟩, h.pending⟩
  · obtain ⟨x, y, z, hs⟩ := h.onlyVotes
    exact ⟨_, y, z, by rw [hs]⟩
  · rw [← h.others j w hw]
    show (s.1.tableVotings.toObjectIndex.modify i g).find? j = some w ↔ _
    rw [ObjectIndex.find?_modify]
    split_ifs with hj
    · subst hj
      rw [hv, Option.map_some]
      constructor
      · intro heq
        rw [hgv] at heq
        exact absurd (Option.some.inj heq ▸ htable') hw
      · intro heq
        exact absurd (Option.some.inj heq ▸ htable) hw
    · rfl
  · show (s.1.tableVotings.toObjectIndex.modify i g).find? i = some v'
    rw [ObjectIndex.find?_modify, if_pos rfl, hv, Option.map_some, hgv]

theorem getWitnessIfExist_total {t : TableObject} (hroom : d.rooms.Has t.room) (voter : AccountId) :
    ∃ w, getWitnessIfExist d t voter = .ok w := by
  obtain ⟨r, hr⟩ := hroom
  rw [getWitnessIfExist]
  rcases d.gameWitnesses.findKey? voter with - | w
  · exact ⟨none, rfl⟩
  · refine ⟨if r.owner = voter then none else some w.1, ?_⟩
    rw [isTableOwner, Database.tableOwner, roomById_of_find? hr]
    simp only [Except.ok_bind]
    by_cases ho : r.owner = voter
    · simp [ho]
      rfl
    · simp [ho]
      rfl

theorem setVoter_total {t : TableObject} (hroom : d.rooms.Has t.room) (v : TableVotingObject)
    (voter : AccountId) (data : VotingData) : ∃ v', setVoter d t v voter data = .ok v' := by
  obtain ⟨w, hw⟩ := getWitnessIfExist_total hroom voter
  have hmark : ∃ v₁, markVoter d t v voter data = .ok v₁ := by
    rw [markVoter]
    by_cases hc : v.requiredPlayerVoters.contains voter = true
    · rw [if_pos hc]
      exact ⟨_, rfl⟩
    · rw [if_neg hc, hw, Except.ok_bind]
      rcases w with - | w
      · exact ⟨_, rfl⟩
      · exact ⟨_, rfl⟩
  obtain ⟨v₁, hv₁⟩ := hmark
  exact ⟨_, by rw [setVoter, hv₁, Except.ok_bind]; rfl⟩

/-- A vote joins the voting of the table. -/
theorem collectVotes_ensures (h : WellFormed mode d) {table : TableId} {t : TableObject}
    {P P' : Bool → TableVotingObject → Prop} {s : Database × Bool} (hs : Collecting table t P' d s)
    (ht : d.tables.find? table = some t) {i : ℕ} {v : TableVotingObject}
    (hv : s.1.tableVotings.find? i = some v) (htable : v.table = table)
    (hok : VotingOk d.players t v) {voter : AccountId} {data : VotingData}
    (hfits : VoteFits d.players t data)
    (hP : ∀ v', setVoter d t v voter data = .ok v' → P (isTheRequiredNumberOfVoters t v' data) v')
    (votingSeconds : ℕ) (pv : PercentType) (requiredWitnesses : FlatSet GameWitnessId) (b : Bool) :
    (collectVotes s.1 table voter data votingSeconds pv requiredWitnesses b).Ensures E fun s' ↦
      Collecting table t P d s' ∧ s'.1.pendingTableVotes = s.1.pendingTableVotes := by
  obtain ⟨x, y, z, hs₁⟩ := hs.onlyVotes
  have ht₁ : s.1.tables.find? table = some t := by rw [hs₁]; exact ht
  have hkey : s.1.tableVotings.findKey? table = some (i, v) :=
    UniqueIndex.findKey?_eq_some_iff.2 ⟨hv, htable⟩
  have hsame : setVoter s.1 t v voter data = setVoter d t v voter data := by rw [hs₁]; rfl
  rw [collectVotes, tableById_of_find? ht₁, Except.ok_bind, hkey]
  simp only [hsame]
  obtain ⟨v', hset⟩ := setVoter_total (h.tables table t ht).room v voter data
  rw [hset, Except.ok_bind]
  refine .pure ⟨?_, rfl⟩
  have htable' : v'.table = v.table := by
    obtain ⟨voted, required, rfl⟩ := setVoter_eq hset
    rfl
  refine hs.modify hv htable (htable'.trans htable) (hok.setVoter hfits hset) (hP v' hset) _ ?_
  rw [← htable']

/-! ### Who may vote -/

/-- A disjunction whose right side is only evaluated if the left side is false. -/
theorem orM_total {x y : Except ChainError Bool} {b : Bool} (hx : x = .ok b)
    (hy : b = false → ∃ c, y = .ok c) :
    ∃ c, (x <||> y) = .ok c ∧ (c = true → b = true ∨ y = .ok true) ∧ (c = false → b = false) := by
  subst hx
  cases b with
  | true => exact ⟨true, rfl, fun _ ↦ Or.inl rfl, fun h ↦ by cases h⟩
  | false =>
    obtain ⟨c, hc⟩ := hy rfl
    exact ⟨c, hc, fun h ↦ Or.inr (h ▸ hc), fun _ ↦ rfl⟩

theorem isGameWitness_total {t : TableObject} (hroom : d.rooms.Has t.room) (voter : AccountId) :
    ∃ b, isGameWitness d t voter = .ok b := by
  obtain ⟨r, hr⟩ := hroom
  rw [isGameWitness]
  rcases d.gameWitnesses.findKey? voter with - | w
  · exact ⟨false, rfl⟩
  · rw [isTableOwner, Database.tableOwner, roomById_of_find? hr]
    exact ⟨_, rfl⟩

/-- Whether a voter is a witness or the owner can be decided. -/
theorem isOfficial_total (h : WellFormed mode d) {id : TableId} {t : TableObject}
    (ht : d.tables.find? id = some t) (voter : AccountId) :
    ∃ b, (isGameWitness d t voter <||> isTableOwner d t voter) = .ok b ∧
      (b = true → Official d t voter) := by
  obtain ⟨b, hb⟩ := isGameWitness_total (h.tables id t ht).room voter
  obtain ⟨c, hc, htrue, -⟩ := orM_total hb fun _ ↦ (h.tables id t ht).isTableOwner voter
  refine ⟨c, hc, fun hct ↦ ?_⟩
  rcases htrue hct with rfl | ho
  · exact Or.inl hb
  · exact Or.inr ho

/-- What the check of a drained vote establishes. -/
theorem checkPendingVote_ensures (h : WellFormed mode d) (hE : Refusals E) {table : TableId}
    {t : TableObject} (ht : d.tables.find? table = some t)
    (hetalon : EtalonOk d.players ((d.tableVotings.findKey? table).bind fun v ↦ v.2.etalonVote))
    (v : TableVotingObject) (op : VoteOperation) :
    (checkPendingVote d table t v op).Ensures E fun _ ↦
      (v.requiredPlayerVoters.contains op.voter = true ∨ Official d t op.voter) ∧
        VoteOk d.players t.playingCash op.data := by
  obtain ⟨b, hb, hofficial⟩ := isOfficial_total h ht op.voter
  obtain ⟨c, hc, htrue, -⟩ := orM_total
    (x := pure (v.requiredPlayerVoters.contains op.voter)) rfl fun _ ↦ ⟨b, hb⟩
  rw [checkPendingVote, hc, Except.ok_bind]
  refine (fcAssert_ensures fun _ ↦ hE.assertion).bind fun _ hentitled ↦ ?_
  refine (validateInvariants_ensures h hE (h.tables table t ht).cashes hetalon op.data).bind
    fun r hr ↦ ?_
  refine (fcAssert_ensures fun _ ↦ hE.assertion).mono fun _ hvalid ↦ ⟨?_, hr hvalid⟩
  rcases htrue hentitled with hreq | hoff
  · exact Or.inl hreq
  · exact Or.inr (hofficial (Except.ok.inj (hb.symm.trans hoff)))

/-! ### Draining -/

theorem OnlyVotes.wf {d' : Database} (h : WellFormed mode d) (hd : OnlyVotes d d') :
    WellFormed mode d' := by
  obtain ⟨x, y, z, rfl⟩ := hd
  exact { h with }

theorem OnlyVotes.total {d' : Database} (hd : OnlyVotes d d') : d'.total = d.total := by
  obtain ⟨x, y, z, rfl⟩ := hd
  rfl

section Drain

variable {t : TableObject} {op : VoteOperation} {votingSeconds : ℕ} {pv : PercentType}
  {requiredWitnesses : FlatSet GameWitnessId} {P : Bool → TableVotingObject → Prop}

/-- A vote that is dropped changes nothing but the log. -/
theorem Collecting.log {table : TableId} {s : Database × Bool} (hs : Collecting table t P d s)
    (vote : VoteOperation) : Collecting table t P d (pushFailVoteOperation s.1 vote, s.2) := by
  refine ⟨?_, hs.others, hs.voting, hs.pending⟩
  obtain ⟨x, y, z, hs₁⟩ := hs.onlyVotes
  exact ⟨x, y, _, by rw [hs₁]; rfl⟩

theorem Collecting.removePending {table : TableId} {s : Database × Bool}
    (hs : Collecting table t P d s) (i : ℕ) :
    Collecting table t P d
      ({ s.1 with pendingTableVotes := s.1.pendingTableVotes.remove i }, s.2) := by
  refine ⟨?_, hs.others, hs.voting, fun j w hw ↦ ?_⟩
  · obtain ⟨x, y, z, hs₁⟩ := hs.onlyVotes
    exact ⟨x, _, z, by rw [hs₁]⟩
  · exact hs.pending j w (ObjectIndex.find?_of_find?_remove hw).2

/-- One drained vote: it is recorded if it is still admissible, and removed either way. -/
theorem drainPendingVote_ensures (h : WellFormed mode d) (hE : Refusals E)
    (hrule : VoteRule d t op votingSeconds pv requiredWitnesses P)
    (ht : d.tables.find? op.table = some t) (hkind : op.isStart = t.isFree)
    {s : Database × Bool} (hs : Collecting op.table t P d s) {p : ℕ × PendingTableVoteObject}
    (hp : d.pendingTableVotes.find? p.1 = some p.2)
    (hptable : hardforkPlaychain11Time ≤ d.headBlockTime → p.2.table = op.table) :
    (drainPendingVote op.table op.isStart votingSeconds pv requiredWitnesses s p).Ensures E fun s' ↦
      Collecting op.table t P d s' ∧ ∀ j w, s'.1.pendingTableVotes.find? j = some w →
        j ≠ p.1 ∧ s.1.pendingTableVotes.find? j = some w := by
  have hlog := hs.log p.2.vote
  rw [drainPendingVote]
  refine Except.Ensures.bind (Q := fun s' ↦ Collecting op.table t P d s' ∧
    s'.1.pendingTableVotes = s.1.pendingTableVotes) ?_ ?_
  -- a vote of the other kind is dropped
  · by_cases hstart : p.2.vote.isStart ≠ op.isStart
    · rw [if_pos hstart]
      exact .pure ⟨hlog, rfl⟩
    rw [if_neg hstart]
    have hattempt : (attemptPendingVote op.table votingSeconds pv requiredWitnesses s
        p.2.vote).Ensures (fun e ↦ E e ∨ ∃ text, e = .assertion text)
        fun s' ↦ Collecting op.table t P d s' ∧
          s'.1.pendingTableVotes = s.1.pendingTableVotes := by
      have hE' : Refusals fun e ↦ E e ∨ ∃ text, e = ChainError.assertion text :=
        ⟨fun text ↦ Or.inl (hE.assertion text), Or.inl hE.missingObject⟩
      obtain ⟨x, y, z, hs₁⟩ := hs.onlyVotes
      obtain ⟨i, v, hvi, hvtable, hvok, hP⟩ := hs.voting
      have ht₁ : s.1.tables.find? op.table = some t := by rw [hs₁]; exact ht
      have hkey : s.1.tableVotings.findKey? op.table = some (i, v) :=
        UniqueIndex.findKey?_eq_some_iff.2 ⟨hvi, hvtable⟩
      have hplayers : s.1.players = d.players := by rw [hs₁]
      have hetalon : EtalonOk s.1.players
          ((s.1.tableVotings.findKey? op.table).bind fun v ↦ v.2.etalonVote) := by
        rw [hkey, hplayers]
        exact hvok.1
      rw [attemptPendingVote, tableById_of_find? ht₁, Except.ok_bind, hkey]
      simp only [orMissing, Except.ok_bind]
      refine (checkPendingVote_ensures (hs.onlyVotes.wf h) hE' ht₁ hetalon v p.2.vote).bind ?_
      rintro _ ⟨hentitled, hvote⟩
      rw [hplayers] at hvote
      have hofficial : Official s.1 t p.2.vote.voter → Official d t p.2.vote.voter := by
        rw [hs₁]
        exact fun ho ↦ ho
      have hfits : VoteFits d.players t p.2.vote.data := by
        refine ⟨?_, hvote⟩
        rw [VoteOperation.isInitialData_data, not_not.1 hstart, hkind]
      exact collectVotes_ensures h hs ht hvi hvtable hvok hfits (fun v' hset ↦
        hrule.draining s.2 v v' p.1 p.2 hP hp hptable (not_not.1 hstart)
          (hentitled.imp_right hofficial) hset) _ _ _ _
    -- an assertion that fails is caught, and the vote is dropped; other errors are not
    rcases ha : attemptPendingVote op.table votingSeconds pv requiredWitnesses s p.2.vote with e | s'
    · cases e with
      | assertion text => exact .pure ⟨hlog, rfl⟩
      | badVariant | missingObject | divisionByZero | undefinedBehaviour =>
        rcases hattempt.of_error ha with he | ⟨text, he⟩
        · exact he
        · cases he
    · exact .pure (hattempt.of_ok ha)
  · rintro s' ⟨hs', hpending⟩
    refine .pure ⟨hs'.removePending p.1, fun j w hw ↦ ?_⟩
    obtain ⟨hj, hw⟩ := ObjectIndex.find?_of_find?_remove hw
    exact ⟨hj, hpending ▸ hw⟩

/-- The first vote of a tally round, or one that joins it, is recorded. -/
theorem collectFirst_ensures (h : WellFormed mode d) (hv : VotesOk idle d) (hE : Refusals E)
    (hrule : VoteRule d t op votingSeconds pv requiredWitnesses P)
    (ht : d.tables.find? op.table = some t) (hfits : VoteFits d.players t op.data)
    (hopens : d.tableVotings.findKey? op.table = none → Official d t op.voter) :
    (collectVotes d op.table op.voter op.data votingSeconds pv requiredWitnesses false).Ensures E
      fun s ↦ Collecting op.table t P d s ∧ s.1.pendingTableVotes = d.pendingTableVotes := by
  rcases hkey : d.tableVotings.findKey? op.table with - | ⟨i, v⟩
  · rw [collectVotes, tableById_of_find? ht, Except.ok_bind, hkey]
    simp only
    have hrequired : (setRequiredVoters d t
        (freshVoting d op.table votingSeconds requiredWitnesses) op.voter pv op.data).Ensures E
        fun v ↦ setRequiredVoters d t (freshVoting d op.table votingSeconds requiredWitnesses)
          op.voter pv op.data = .ok v :=
      (setRequiredVoters_ensures h ht _ _ _ _).with_eq.mono fun _ hv ↦ hv.1
    refine hrequired.bind fun v hreq ↦ ?_
    obtain ⟨v', hset⟩ := setVoter_total (h.tables op.table t ht).room v op.voter op.data
    rw [hset, Except.ok_bind]
    obtain ⟨required, etalon, allowed, opening, rfl, hetalon⟩ := setRequiredVoters_cases hreq
    have hok : VotingOk d.players t v' := by
      refine VotingOk.setVoter ⟨fun data hdata ↦ ?_, fun a x hx ↦ ?_⟩ hfits hset
      · rcases hetalon with rfl | rfl
        · cases hdata
        · have hvote := hfits.2
          rw [Option.some.inj hdata] at hvote
          exact hvote.1
      · simp [freshVoting] at hx
    -- the voting is a new one, for a table that had none
    have htable' : v'.table = op.table := by
      obtain ⟨voted, required', rfl⟩ := setVoter_eq hset
      rfl
    refine (create?_ensures fun _ ↦ hE.assertion).bind fun votings ⟨_, hvotings⟩ ↦ .pure ⟨?_, rfl⟩
    have hfind : ∀ j, votings.find? j =
        if j = d.tableVotings.nextId then some v' else d.tableVotings.find? j := by
      intro j
      rw [hvotings, ObjectIndex.find?_create]
    refine ⟨⟨votings, d.pendingTableVotes, d.appliedOperations, rfl⟩, fun j w hw ↦ ?_,
      ⟨d.tableVotings.nextId, v', ?_, htable', hok, hrule.opening _ v' hkey (hopens hkey) hreq hset⟩,
      fun _ _ hw ↦ hw⟩
    · show votings.find? j = some w ↔ _
      rw [hfind]
      split_ifs with hj
      · subst hj
        rw [ObjectIndex.find?_nextId]
        constructor
        · intro heq
          exact absurd (Option.some.inj heq ▸ htable') hw
        · intro heq
          cases heq
      · rfl
    · show votings.find? _ = some v'
      rw [hfind, if_pos rfl]
  · obtain ⟨hvi, hvtable⟩ := UniqueIndex.findKey?_eq_some_iff.1 hkey
    have hok : VotingOk d.players t v :=
      ⟨(hv.voting i v hvi).2, fun a x hx ↦ hv.votes i v t a x hvi (hvtable ▸ ht) id hx⟩
    have hstart : Collecting op.table t (fun _ _ ↦ True) d (d, false) :=
      ⟨⟨_, _, _, rfl⟩, fun _ _ _ ↦ Iff.rfl, ⟨i, v, hvi, hvtable, hok, trivial⟩, fun _ _ hw ↦ hw⟩
    exact collectVotes_ensures h hstart ht hvi hvtable hok hfits
      (fun v' hset ↦ hrule.joining i v v' hvi hvtable hset) _ _ _ _

/-! ### Admission as a whole -/

/-- **What admitting a vote does.** The voting of its table has the property `P`, with no vote left
aside; or the vote is set aside. Votes of other tables are untouched. -/
structure Voted (op : VoteOperation) (t : TableObject) (P : Bool → TableVotingObject → Prop)
    (d d' : Database) : Prop where
  onlyVotes : OnlyVotes d d'
  others : ∀ i v, v.table ≠ op.table →
    (d'.tableVotings.find? i = some v ↔ d.tableVotings.find? i = some v)
  voting : ∀ i v, d'.tableVotings.find? i = some v → v.table = op.table →
    VotingOk d.players t v ∧ (∃ b, P b v) ∧
      ∀ j w, d'.pendingTableVotes.find? j = some w → w.table ≠ op.table
  pending : ∀ i w, d'.pendingTableVotes.find? i = some w →
    d.pendingTableVotes.find? i = some w ∨
      (w = ⟨op.table, op.voter, op⟩ ∧ d'.tableVotings.findKey? op.table = none)

/-- Scheduling the tally of the voting that has just been collected. -/
theorem scheduleVoting_ensures (hrule : VoteRule d t op votingSeconds pv requiredWitnesses P)
    {s : Database} (hs : Collecting op.table t P d (s, true)) :
    (scheduleVoting s op.table).Ensures E fun d' ↦
      Collecting op.table t P d (d', true) ∧ d'.pendingTableVotes = s.pendingTableVotes := by
  obtain ⟨i, v, hvi, hvtable, hok, hP⟩ := hs.voting
  have hkey : s.tableVotings.findKey? op.table = some (i, v) :=
    UniqueIndex.findKey?_eq_some_iff.2 ⟨hvi, hvtable⟩
  rw [scheduleVoting, hkey]
  simp only [orMissing, Except.ok_bind]
  split_ifs with hmax
  · let scheduled := TimePointSec.addSeconds s.headBlockTime s.blockInterval
    let v' : TableVotingObject := { v with
      scheduledVoting := scheduled
      expiration := if v.expiration ≤ scheduled then
        TimePointSec.addSeconds scheduled s.blockInterval else v.expiration }
    exact .pure ⟨hs.modify hvi hvtable (show v'.table = op.table from hvtable) hok
      (hrule.scheduling v _ _ hP) _ rfl, rfl⟩
  · exact .pure ⟨hs, rfl⟩

/-- **Admitting a vote.** -/
theorem tryVoting_ensures (h : WellFormed mode d) (hv : VotesOk idle d) (hE : Refusals E)
    (hrule : VoteRule d t op votingSeconds pv requiredWitnesses P)
    (ht : d.tables.find? op.table = some t) (hfits : VoteFits d.players t op.data) :
    (tryVoting d requiredWitnesses votingSeconds pv op).Ensures E fun d' ↦
      ∃ d₁, Voted op t P d d₁ ∧ Transfer mode idle d₁ d' 0 := by
  obtain ⟨b, hb, hofficial⟩ := isOfficial_total h ht op.voter
  obtain ⟨opens, hopens, htrue, hfalse⟩ := orM_total
    (x := pure (isTableVoting d op.table)) rfl fun _ ↦ ⟨b, hb⟩
  have hkind : op.isStart = t.isFree := by
    rw [← VoteOperation.isInitialData_data]
    exact hfits.1
  rw [tryVoting, tableById_of_find? ht, Except.ok_bind, hopens, Except.ok_bind]
  cases opens with
  | false =>
    have hnone : d.tableVotings.findKey? op.table = none :=
      Option.isNone_iff_eq_none.1 (by simpa [isTableVoting] using hfalse rfl)
    refine (create?_ensures fun _ ↦ hE.assertion).bind ?_
    rintro pending ⟨-, hpending⟩
    refine .pure ?_
    have hvotes : OnlyVotes d { d with pendingTableVotes := pending } :=
      ⟨d.tableVotings, pending, d.appliedOperations, rfl⟩
    refine ⟨_, ⟨hvotes, fun _ _ _ ↦ Iff.rfl, fun i v hvi hvt ↦ ?_, fun i w hw ↦ ?_⟩,
      .refl (hvotes.wf h)⟩
    · exact absurd hvt (UniqueIndex.findKey?_eq_none_iff.1 hnone i v hvi)
    · change pending.find? i = some w at hw
      rw [hpending, ObjectIndex.find?_create] at hw
      split_ifs at hw
      · exact Or.inr ⟨(Option.some.inj hw).symm, hnone⟩
      · exact Or.inl hw
  | true =>
    have hofficial' : d.tableVotings.findKey? op.table = none → Official d t op.voter := by
      intro hnone
      rcases htrue rfl with hvoting | hoff
      · rw [isTableVoting, hnone] at hvoting
        cases hvoting
      · exact hofficial (Except.ok.inj (hb.symm.trans hoff))
    refine (collectFirst_ensures h hv hE hrule ht hfits hofficial').bind ?_
    rintro s ⟨hs, hspending⟩
    have htime : s.1.headBlockTime = d.headBlockTime := by
      obtain ⟨x, y, z, hs₁⟩ := hs.onlyVotes
      rw [hs₁]
    -- all votes set aside for the table are still to be drained
    let I (l : List (ℕ × PendingTableVoteObject)) (s : Database × Bool) : Prop :=
      Collecting op.table t P d s ∧
        (∀ p ∈ l, d.pendingTableVotes.find? p.1 = some p.2 ∧
          (hardforkPlaychain11Time ≤ d.headBlockTime → p.2.table = op.table)) ∧
        ∀ j w, s.1.pendingTableVotes.find? j = some w → w.table = op.table → (j, w) ∈ l
    have hI : I (pendingVotesToDrain s.1 op.table) s := by
      rw [pendingVotesToDrain, htime]
      by_cases hlater : d.headBlockTime < hardforkPlaychain11Time
      · rw [if_pos hlater]
        refine ⟨hs, fun p hp ↦ ⟨hs.pending p.1 p.2 (ObjectIndex.mem_orderedBy.1 hp), fun hle ↦ ?_⟩,
          fun j w hw _ ↦ ObjectIndex.mem_orderedBy.2 hw⟩
        exact absurd hle (not_le.2 hlater)
      · rw [if_neg hlater]
        refine ⟨hs, fun p hp ↦ ?_, fun j w hw hwt ↦ ?_⟩
        · obtain ⟨hp, hpt⟩ := List.mem_filter.1 hp
          exact ⟨hs.pending p.1 p.2 (ObjectIndex.find?_eq_some_iff.2 hp),
            fun _ ↦ of_decide_eq_true hpt⟩
        · exact List.mem_filter.2 ⟨ObjectIndex.find?_eq_some_iff.1 hw, decide_eq_true hwt⟩
    refine (Except.Ensures.foldlM_suffix I ?_ hI).bind ?_
    · rintro p l s ⟨hs, hl, hleft⟩
      obtain ⟨hp, hpt⟩ := hl p List.mem_cons_self
      refine (drainPendingVote_ensures h hE hrule ht hkind hs hp hpt).mono ?_
      rintro s' ⟨hs', hpending⟩
      refine ⟨hs', fun q hq ↦ hl q (List.mem_cons_of_mem _ hq), fun j w hw hwt ↦ ?_⟩
      obtain ⟨hj, hw⟩ := hpending j w hw
      rcases List.mem_cons.1 (hleft j w hw hwt) with heq | hmem
      · exact absurd (congrArg Prod.fst heq) hj
      · exact hmem
    · rintro ⟨d₁, flag⟩ ⟨hs, -, hleft⟩
      have hfinal : (if flag = true then scheduleVoting d₁ op.table else pure d₁).Ensures E
          fun d' ↦ Collecting op.table t P d (d', flag) ∧
            d'.pendingTableVotes = d₁.pendingTableVotes := by
        split_ifs with hflag
        · subst hflag
          exact scheduleVoting_ensures hrule hs
        · exact .pure ⟨hs, rfl⟩
      refine hfinal.bind ?_
      rintro d₂ ⟨hs₂, hpending₂⟩
      have hvoted : Voted op t P d d₂ := by
        obtain ⟨i, v, hvi, hvt, hok, hP⟩ := hs₂.voting
        refine ⟨hs₂.onlyVotes, hs₂.others, fun j w hw hwt ↦ ?_, fun j w hw ↦ ?_⟩
        · obtain rfl : j = i := d₂.tableVotings.unique hw hvi (hwt.trans hvt.symm)
          obtain rfl := Option.some.inj (hvi.symm.trans hw)
          refine ⟨hok, ⟨_, hP⟩, fun k u hu hut ↦ ?_⟩
          rw [hpending₂] at hu
          exact absurd (hleft k u hu hut) (by simp)
        · exact Or.inl (hs₂.pending j w hw)
      have htable : d₂.tables.Has op.table := by
        obtain ⟨x, y, z, rfl⟩ := hvoted.onlyVotes
        exact ⟨t, ht⟩
      exact (aliveForTable_ensures idle (hs₂.onlyVotes.wf h) htable).mono fun d' h' ↦
        ⟨d₂, hvoted, h'⟩

end Drain

/-- Votes fit their tables after a vote has been admitted. -/
theorem Voted.votesOk {op : VoteOperation} {t : TableObject} {P : Bool → TableVotingObject → Prop}
    {d' : Database} (h : Voted op t P d d') (hv : VotesOk idle d)
    (ht : d.tables.find? op.table = some t) (hkind : op.isStart = t.isFree) : VotesOk idle d' := by
  obtain ⟨x, y, z, hd'⟩ := h.onlyVotes
  have htables : d'.tables = d.tables := by rw [hd']
  have hplayers : d'.players = d.players := by rw [hd']
  refine ⟨fun i v hvi ↦ ?_, fun i v u a x hvi hu _ hx ↦ ?_, fun i w hw ↦ ?_,
    fun i w u hw hu _ ↦ ?_, fun i w hw _ ↦ ?_⟩
  · rw [htables, hplayers]
    by_cases hvt : v.table = op.table
    · exact ⟨hvt ▸ ⟨t, ht⟩, (h.voting i v hvi hvt).1.1⟩
    · exact hv.voting i v ((h.others i v hvt).1 hvi)
  · rw [htables] at hu
    rw [hplayers]
    by_cases hvt : v.table = op.table
    · obtain rfl := Option.some.inj (ht.symm.trans (hvt ▸ hu))
      exact (h.voting i v hvi hvt).1.2 a x hx
    · exact hv.votes i v u a x ((h.others i v hvt).1 hvi) hu id hx
  · rw [htables]
    rcases h.pending i w hw with hw | ⟨rfl, -⟩
    · exact hv.pendingVote i w hw
    · exact ⟨⟨t, ht⟩, rfl, rfl⟩
  · rw [htables] at hu
    rcases h.pending i w hw with hw | ⟨rfl, -⟩
    · exact hv.pendingKind i w u hw hu id
    · obtain rfl := Option.some.inj (ht.symm.trans hu)
      exact hkind
  · rcases h.pending i w hw with hw' | ⟨rfl, hnone⟩
    · refine UniqueIndex.findKey?_eq_none_iff.2 fun j v hvj hvt ↦ ?_
      by_cases hop : v.table = op.table
      · exact (h.voting j v hvj hop).2.2 i w hw (hvt.symm.trans hop)
      · have hnone := hv.pendingAlone i w hw' id
        exact UniqueIndex.findKey?_eq_none_iff.1 hnone j v ((h.others j v hop).1 hvj) hvt
    · exact hnone

end Playchain
