import Playchain.Spec.Games

/-!
# The handlers of due votings

Each handler keeps the money and leaves votes that fit their tables (`Handled`). All of them remove
the voting they handle, with one exception: a start voting with too few votes whose content is still
valid **stays**, with only these votes left (`validVotes`).
-/

namespace Playchain

variable {mode : Mode} {d d' : Database} {E : ChainError → Prop} {id : ℕ} {v : TableVotingObject}
  {t : TableObject}

/-- What the handler of a voting does. -/
structure Handled (mode : Mode) (table : TableId) (d d' : Database) : Prop where
  transfer : Transfer mode (· = table) d d' 0
  votes : VotesOk idle d'

theorem Handled.of_released {table : TableId} (hv : VotesOk idle d)
    (h : Transfer mode (· = table) d d' 0) (hr : Released table d') : Handled mode table d d' :=
  ⟨h, hv.of_released h.frame hr⟩

/-- Removing a voting. -/
theorem WellFormed.dropVoting (h : WellFormed mode d) (hv : d.tableVotings.find? id = some v) :
    Transfer mode (· = v.table) d { d with tableVotings := d.tableVotings.remove id } 0 ∧
      (d.tableVotings.remove id).findKey? v.table = none :=
  ⟨h.removeVoting hv rfl, UniqueIndex.findKey?_remove_self hv⟩

/-! ### Expiration of a start voting -/

theorem expireVotingForPlaying_ensures (h : WellFormed mode d) (hvotes : VotesOk idle d)
    (hv : d.tableVotings.find? id = some v) :
    (expireVotingForPlaying d id v).Ensures E fun d' ↦
      Handled mode v.table d d' ∧ Released v.table d' ∧ d'.tables = d.tables := by
  obtain ⟨t, ht⟩ := (hvotes.voting id v hv).1
  obtain ⟨owner, howner⟩ := (h.tables v.table t ht).tableOwner
  rw [expireVotingForPlaying, tableById_of_find? ht, Except.ok_bind, howner, Except.ok_bind]
  have hlog : Transfer mode (· = v.table) d
    (d.pushGameEvent v.table owner .failExpireGameStartPlaying) 0 := h.log _
  obtain ⟨hdrop, hnone⟩ := hlog.wf.dropVoting hv
  obtain ⟨hclean, hpending, htables, hvotings⟩ :=
    hdrop.wf.cleanupPendingVotes (· = v.table) v.table
  have hreleased : Released v.table (cleanupPendingVotes _ v.table) :=
    ⟨by rw [hvotings]; exact hnone, hpending⟩
  exact .pure ⟨.of_released hvotes (hlog.trans_zero (hdrop.trans_zero hclean)) hreleased, hreleased,
    htables⟩

/-! ### The tally of a start voting -/

/-- Whether a vote is a start that could be carried out now. -/
def isValidStart (d : Database) (table : TableId) (t : TableObject) : VotingData → Bool
  | .gameInitialData data =>
    match validateInitialData d table t data with
    | .ok b => b
    | .error _ => false
  | .gameResult _ => false

/-- The votes of a start voting that its tally counts. -/
def validVotes (d : Database) (v : TableVotingObject) (t : TableObject) :
    FlatMap AccountId VotingData :=
  v.votes.filter fun _ ↦ isValidStart d v.table t

/-- Discarding votes: only the log changes, and exactly the valid votes are left. -/
theorem discardInvalidVotes_eq (d : Database) (v : TableVotingObject) (t : TableObject) :
    (discardInvalidVotes d v t).Ensures (fun _ ↦ True) fun s ↦
      (∃ ops, s.1 = { d with appliedOperations := ops }) ∧ s.2 = validVotes d v t := by
  let I (l : List (AccountId × VotingData)) (s : Database × FlatMap AccountId VotingData) : Prop :=
    (∃ ops, s.1 = { d with appliedOperations := ops }) ∧ (l.map Prod.fst).Nodup ∧
      (∀ p ∈ l, v.votes.find? p.1 = some p.2) ∧
      ∀ a x, s.2.find? a = some x ↔ (validVotes d v t).find? a = some x ∧ a ∉ l.map Prod.fst
  have hstart : I v.votes.toList (d, ∅) := by
    refine ⟨⟨_, rfl⟩, v.votes.nodup_fst, fun p hp ↦ FlatMap.find?_eq_some_iff.2 hp, fun a x ↦ ?_⟩
    refine ⟨fun hx ↦ by simp at hx, fun ⟨hx, hnot⟩ ↦ absurd ?_ hnot⟩
    exact List.mem_map_of_mem (f := Prod.fst)
      (FlatMap.find?_eq_some_iff.1 (FlatMap.find?_filter.1 hx).1)
  refine (Except.Ensures.foldlM_suffix I ?_ hstart).mono ?_
  · rintro p l ⟨_, m⟩ ⟨⟨ops, rfl⟩, hnd, hl, hiff⟩
    have hp := hl p List.mem_cons_self
    rw [List.map_cons, List.nodup_cons] at hnd
    have hrest : ∀ q ∈ l, v.votes.find? q.1 = some q.2 := fun q hq ↦ hl q (List.mem_cons_of_mem _ hq)
    refine (Except.Ensures.any _).with_eq.bind fun data ⟨hdata, _⟩ ↦ ?_
    refine (Except.Ensures.any _).with_eq.bind fun b ⟨hb, _⟩ ↦ ?_
    have hvalid : isValidStart d v.table t p.2 = b := by
      change validateInitialData d v.table t data = .ok b at hb
      rcases hp₂ : p.2 with data' | r
      · rw [hp₂] at hdata
        obtain rfl : data' = data := Except.ok.inj hdata
        rw [isValidStart, hb]
      · rw [hp₂] at hdata
        cases hdata
    cases b with
    | true =>
      refine .pure ⟨⟨_, rfl⟩, hnd.2, hrest, fun a x ↦ ?_⟩
      rw [FlatMap.find?_insert]
      by_cases ha : a = p.1
      · rw [if_pos ha, ha, validVotes, FlatMap.find?_filter, hp]
        constructor
        · intro hx
          rw [← Option.some.inj hx]
          exact ⟨⟨rfl, hvalid⟩, hnd.1⟩
        · exact fun hx ↦ hx.1.1
      · rw [if_neg ha, hiff, List.map_cons, List.mem_cons, not_or]
        exact ⟨fun hx ↦ ⟨hx.1, hx.2.2⟩, fun hx ↦ ⟨hx.1, ha, hx.2⟩⟩
    | false =>
      refine (Except.Ensures.any _).bind fun owner _ ↦ .pure ⟨⟨_, rfl⟩, hnd.2, hrest, fun a x ↦ ?_⟩
      rw [hiff, List.map_cons, List.mem_cons, not_or]
      refine ⟨fun hx ↦ ⟨hx.1, hx.2.2⟩, fun hx ↦ ⟨hx.1, fun ha ↦ ?_, hx.2⟩⟩
      obtain ⟨hx', hxv⟩ := FlatMap.find?_filter.1 hx.1
      rw [ha, hp] at hx'
      rw [← Option.some.inj hx', hvalid] at hxv
      cases hxv
  · rintro s ⟨hops, -, -, hiff⟩
    refine ⟨hops, FlatMap.ext_find? fun a ↦ Option.ext fun x ↦ ?_⟩
    rw [hiff]
    simp

/-- Discarding votes does not fail, and the votes that are left can be carried out. -/
theorem discardInvalidVotes_ensures (h : WellFormed mode d) (hvotes : VotesOk idle d)
    (hv : d.tableVotings.find? id = some v) (ht : d.tables.find? v.table = some t)
    (hfree : t.isFree = true) :
    (discardInvalidVotes d v t).Ensures E fun s ↦
      (∃ ops, s.1 = { d with appliedOperations := ops }) ∧ s.2 = validVotes d v t ∧
        ∀ a x, s.2.find? a = some x → ∃ data, x = .gameInitialData data ∧
          StartFits d.players t data := by
  have hok := h.tables v.table t ht
  obtain ⟨owner, howner⟩ := hok.tableOwner
  have hkey : d.tableVotings.findKey? v.table = some (id, v) :=
    UniqueIndex.findKey?_eq_some_iff.2 ⟨hv, rfl⟩
  have hetalon : EtalonOk d.players ((d.tableVotings.findKey? v.table).bind fun w ↦
      w.2.etalonVote) := by
    rw [hkey]
    exact (hvotes.voting id v hv).2
  have hvalidate : ∀ a x, v.votes.find? a = some x → ∃ data b, x = .gameInitialData data ∧
      validateInitialData d v.table t data = .ok b ∧ (b = true → StartFits d.players t data) := by
    intro a x hx
    obtain ⟨hkind, hvote⟩ := hvotes.votes id v t a x hv ht (fun hf ↦ hf) hx
    rw [hfree] at hkind
    rcases x with data | r
    · obtain ⟨b, hb, hfits⟩ := (validateInitialData_ensures (E := fun _ ↦ False) h hok.cashes
        hetalon fun hn ↦ absurd hvote hn).exists_ok
      exact ⟨data, b, rfl, hb, hfits⟩
    · cases hkind
  have htotal : (discardInvalidVotes d v t).Ensures E fun _ ↦ True := by
    refine (Except.Ensures.foldlM (fun s : Database × FlatMap AccountId VotingData ↦
      ∃ ops, s.1 = { d with appliedOperations := ops }) ?_ ⟨d.appliedOperations, rfl⟩).mono
      fun _ _ ↦ trivial
    rintro p hp ⟨_, m⟩ ⟨ops, rfl⟩
    obtain ⟨data, b, hdata, hb, -⟩ := hvalidate p.1 p.2 (FlatMap.find?_eq_some_iff.2 hp)
    rw [hdata, show (VotingData.gameInitialData data).getInitialData = .ok data from rfl,
      Except.ok_bind]
    refine .bind_of_eq (show validateInitialData { d with appliedOperations := ops } v.table t data =
      .ok b from hb) ?_
    cases b with
    | true => exact .pure ⟨_, rfl⟩
    | false =>
      exact .bind_of_eq (show Database.tableOwner { d with appliedOperations := ops } t = .ok owner
        from howner) (.pure ⟨_, rfl⟩)
  refine (htotal.and_any (discardInvalidVotes_eq d v t)).mono ?_
  rintro s ⟨-, hops, hs⟩
  refine ⟨hops, hs, fun a x hx ↦ ?_⟩
  rw [hs, validVotes, FlatMap.find?_filter] at hx
  obtain ⟨data, b, rfl, hb, hfits⟩ := hvalidate a x hx.1
  have hvalid := hx.2
  rw [isValidStart, hb] at hvalid
  exact ⟨data, rfl, hfits hvalid⟩

/-- Votes of a voting are dropped. -/
theorem WellFormed.shrinkVoting (h : WellFormed mode d) (busy : TableId → Prop)
    (hv : d.tableVotings.find? id = some v) (hb : busy v.table) {m : FlatMap AccountId VotingData}
    (hm : AmongVotes v.votes m) :
    Transfer mode busy d { d with tableVotings := d.tableVotings.modify id fun w ↦
      { w with votes := m } } 0 ∧
    (d.tableVotings.modify id fun w ↦ { w with votes := m }).find? id =
      some { v with votes := m } := by
  have hself : (d.tableVotings.modify id fun w ↦ { w with votes := m }).find? id =
      some { v with votes := m } := by
    rw [UniqueIndex.toObjectIndex_modify, ObjectIndex.find?_modify, if_pos rfl, hv]
    rfl
  refine ⟨⟨{ h with }, { Frame.refl busy d with votings := ?_, votings_kept := ?_ },
    (add_zero _).symm⟩, hself⟩
  · intro j w hw
    by_cases hj : j = id
    · rw [hj] at hw ⊢
      obtain rfl := Option.some.inj (hself.symm.trans hw)
      exact ⟨v, hv, ⟨rfl, hm⟩, fun hn ↦ absurd hb hn⟩
    · change (d.tableVotings.toObjectIndex.modify id _).find? j = some w at hw
      rw [ObjectIndex.find?_modify_of_ne _ _ hj] at hw
      exact ⟨w, hw, .refl w, fun _ ↦ rfl⟩
  · intro j w hw hn
    have hj : j ≠ id := by
      rintro rfl
      obtain rfl := Option.some.inj (hv.symm.trans hw)
      exact hn hb
    exact (ObjectIndex.find?_modify_of_ne _ _ hj).trans hw

/-- A voting of which only votes have been dropped, at a table whose game has not changed, still
fits. -/
theorem VotesOk.of_shrunk {table : TableId} (h : VotesOk idle d)
    (hf : Frame (· = table) d d') (hpending : NoPendingVotes table d')
    (hgame : ∀ t t', d.tables.find? table = some t → d'.tables.find? table = some t' →
      t'.playingCash = t.playingCash) : VotesOk idle d' := by
  refine ((h.mono fun _ h ↦ h.elim).of_frame hf).release ?_ hpending
  intro i w t' a x hw hwt ht' hx
  obtain ⟨w₀, hw₀, hs, -⟩ := hf.votings i w hw
  obtain ⟨t, ht⟩ := (h.voting i w₀ hw₀).1
  have htable : w₀.table = table := hs.table.symm.trans hwt
  exact (h.votes i w₀ t a x hw₀ ht (fun hf ↦ hf) (hs.votes a x hx)).keeps hf.players
    (hgame t t' (htable ▸ ht) ht')

section Tallies

variable [GameDigest]

/-- **The tally of a start voting** whose votes can all be carried out. With the minimum of votes the
voting is removed and its start, if there is a consensus, applied; without it nothing but the log
changes. -/
theorem tallyForPlaying_ensures (h : WellFormed mode d) (hv : d.tableVotings.find? id = some v)
    (ht : d.tables.find? v.table = some t) (hfree : t.isFree = true)
    (hclock : mode.clock → d.DeadlineFits)
    (hU : 2 < (contents v.votes).card → E .undefinedBehaviour)
    (hfits : ∀ a x, v.votes.find? a = some x → ∃ data, x = .gameInitialData data ∧
      StartFits d.players t data) :
    (tallyForPlaying d id v t).Ensures E fun d' ↦ Transfer mode (· = v.table) d d' 0 ∧
      (d.parameters.minVotesForPlaying ≤ v.votes.size → d'.tableVotings.findKey? v.table = none) ∧
      (v.votes.size < d.parameters.minVotesForPlaying →
        ∃ ops, d' = { d with appliedOperations := ops }) := by
  have hok := h.tables v.table t ht
  obtain ⟨owner, howner⟩ := hok.tableOwner
  rw [tallyForPlaying, howner, Except.ok_bind]
  split_ifs with hmin
  · refine (voting_ensures hok.room id v _ hU).bind ?_
    rintro ⟨_, c⟩ ⟨rfl, hconsensus⟩
    obtain ⟨hdrop, hnone⟩ := h.dropVoting hv
    have hlater : ¬v.votes.size < d.parameters.minVotesForPlaying := not_lt.2 hmin
    cases c with
    | none =>
      exact .pure ⟨hdrop.trans_zero (hdrop.wf.log _), fun _ ↦ hnone, fun hlt ↦ absurd hlt hlater⟩
    | some c =>
      obtain ⟨⟨a, ha⟩, hinvalid⟩ := hconsensus c rfl
      obtain ⟨data, hdata, hstart⟩ := hfits a _ ha
      refine (applyStartPlayingWithConsensus_ensures (d := { d with tableVotings := _ }) hdrop.wf ht
        hdata hstart hfree hclock fun b x hx ↦ ?_).mono fun d' hd' ↦ ?_
      · obtain ⟨data', rfl, -⟩ := hfits b x (hinvalid b x hx)
        rfl
      · exact ⟨hdrop.trans_zero hd', fun _ ↦ hd'.frame.no_voting hnone, fun hlt ↦ absurd hlt hlater⟩
  · exact .pure ⟨h.log _, fun hle ↦ absurd hle hmin, fun _ ↦ ⟨_, rfl⟩⟩

/-- **The handler of a scheduled start voting.** With enough valid votes the voting is removed,
otherwise it stays with the valid votes. -/
theorem scheduledVotingForPlaying_ensures (h : WellFormed mode d) (hvotes : VotesOk idle d)
    (hv : d.tableVotings.find? id = some v) (ht : d.tables.find? v.table = some t)
    (hfree : t.isFree = true) (hclock : mode.clock → d.DeadlineFits)
    (hU : 2 < (contents v.votes).card → E .undefinedBehaviour) :
    (scheduledVotingForPlaying d id v).Ensures E fun d' ↦ Handled mode v.table d d' ∧
      (d.parameters.minVotesForPlaying ≤ (validVotes d v t).size → Released v.table d') ∧
      ((validVotes d v t).size < d.parameters.minVotesForPlaying →
        d'.tableVotings.find? id = some { v with votes := validVotes d v t } ∧
          d'.tables = d.tables) := by
  rw [scheduledVotingForPlaying, tableById_of_find? ht, Except.ok_bind,
    if_pos ((show hardforkPlaychain9Time ≤ hardforkPlaychain10Time by decide).trans h.time)]
  refine Except.Ensures.bind (Q := fun d₁ ↦ Transfer mode (· = v.table) d d₁ 0 ∧
    (d.parameters.minVotesForPlaying ≤ (validVotes d v t).size →
      d₁.tableVotings.findKey? v.table = none) ∧
    ((validVotes d v t).size < d.parameters.minVotesForPlaying →
      d₁.tableVotings.find? id = some { v with votes := validVotes d v t } ∧
        d₁.tables = d.tables)) ?_ ?_
  · refine (discardInvalidVotes_ensures h hvotes hv ht hfree).bind ?_
    rintro ⟨_, _⟩ ⟨⟨ops, rfl⟩, rfl, hfits⟩
    have hlog : Transfer mode (· = v.table) d { d with appliedOperations := ops } 0 :=
      ⟨{ h with }, .of_eq _ rfl rfl rfl rfl rfl rfl rfl, (add_zero _).symm⟩
    have hamong : AmongVotes v.votes (validVotes d v t) :=
      fun a x hx ↦ (FlatMap.find?_filter.1 hx).1
    obtain ⟨hshrink, hfind⟩ := hlog.wf.shrinkVoting (· = v.table) hv rfl hamong
    have hcontents := Finset.card_le_card hamong.contents_subset
    refine (tallyForPlaying_ensures hshrink.wf hfind ht hfree hclock
      (fun hmany ↦ hU (hmany.trans_le hcontents)) hfits).mono ?_
    rintro d₁ ⟨htr, hremoved, hkept⟩
    refine ⟨hlog.trans_zero (hshrink.trans_zero htr), hremoved, fun hlt ↦ ?_⟩
    obtain ⟨ops', rfl⟩ := hkept hlt
    exact ⟨hfind, rfl⟩
  · rintro d₁ ⟨htr, hremoved, hkept⟩
    obtain ⟨hclean, hpending, htables, hvotings⟩ :=
      htr.wf.cleanupPendingVotes (· = v.table) v.table
    have hend := htr.trans_zero hclean
    have hreleased : d.parameters.minVotesForPlaying ≤ (validVotes d v t).size →
        Released v.table (cleanupPendingVotes d₁ v.table) :=
      fun hle ↦ ⟨by rw [hvotings]; exact hremoved hle, hpending⟩
    refine .pure ⟨?_, hreleased, fun hlt ↦ ?_⟩
    · by_cases hle : d.parameters.minVotesForPlaying ≤ (validVotes d v t).size
      · exact .of_released hvotes hend (hreleased hle)
      · refine ⟨hend, hvotes.of_shrunk hend.frame hpending fun u u' hu hu' ↦ ?_⟩
        rw [htables, (hkept (not_le.1 hle)).2, hu] at hu'
        rw [Option.some.inj hu']
    · rw [hvotings, htables]
      exact hkept hlt

/-! ### The tally of a result voting -/

/-- The tally of a result voting ends the game. -/
theorem tallyForResults_ensures (h : WellFormed mode d) (hvotes : VotesOk idle d)
    (hv : d.tableVotings.find? id = some v) (ht : d.tables.find? v.table = some t)
    (hplaying : t.isFree = false) (hE : ¬mode.core → ∀ text, E (.assertion text))
    (hU : 2 < (contents v.votes).card → E .undefinedBehaviour) :
    (tallyForResults d id v t).Ensures E fun d' ↦
      GameEnded mode v.table d d' ∧ d'.tableVotings.findKey? v.table = none := by
  have hok := h.tables v.table t ht
  obtain ⟨owner, howner⟩ := hok.tableOwner
  refine (voting_ensures hok.room id v _ hU).bind ?_
  rintro ⟨_, c⟩ ⟨rfl, hconsensus⟩
  obtain ⟨hdrop, hnone⟩ := h.dropVoting hv
  have hresult : ∀ a x, v.votes.find? a = some x →
      ∃ r, x = .gameResult r ∧ ResultFits d.players t.playingCash r := by
    intro a x hx
    obtain ⟨hkind, hok⟩ := hvotes.votes id v t a x hv ht (fun hf ↦ hf) hx
    cases x with
    | gameInitialData data =>
      rw [hplaying] at hkind
      cases hkind
    | gameResult r => exact ⟨r, rfl, hok⟩
  cases c with
  | none =>
    refine .bind_of_eq (show Database.tableOwner { d with tableVotings := _ } t = .ok owner from
      howner) ?_
    have hlog := hdrop.trans_zero (hdrop.wf.log
      (.gameEvent v.table owner .failConsensusGameResult))
    refine (rollback_ensures hlog.wf ⟨t, ht⟩ hE false).mono fun d' hd' ↦ ?_
    exact ⟨⟨hlog.trans_zero hd'.1.transfer, hd'.1.free⟩, hd'.2.voting⟩
  | some c =>
    obtain ⟨⟨a, ha⟩, hinvalid⟩ := hconsensus c rfl
    obtain ⟨r, hr, hfits⟩ := hresult a _ ha
    refine (applyGameResultWithConsensus_ensures (d := { d with tableVotings := _ }) hdrop.wf ht hr
      hfits (fun b x hx ↦ ?_) hE).mono fun d' hd' ↦ ?_
    · obtain ⟨r', rfl, -⟩ := hresult b x (hinvalid b x hx)
      rfl
    · exact ⟨⟨hdrop.trans_zero hd'.transfer, hd'.free⟩, hd'.transfer.frame.no_voting hnone⟩

/-- **The handler of a scheduled result voting** ends the game and removes the voting. -/
theorem scheduledVotingForResults_ensures (h : WellFormed mode d) (hvotes : VotesOk idle d)
    (hv : d.tableVotings.find? id = some v) (ht : d.tables.find? v.table = some t)
    (hplaying : t.isFree = false) (hE : ¬mode.core → ∀ text, E (.assertion text))
    (hU : 2 < (contents v.votes).card → E .undefinedBehaviour) :
    (scheduledVotingForResults d id v).Ensures E fun d' ↦
      Handled mode v.table d d' ∧ Released v.table d' ∧ Free v.table d' := by
  rw [scheduledVotingForResults, tableById_of_find? ht, Except.ok_bind]
  refine (tallyForResults_ensures h hvotes hv ht hplaying hE hU).bind fun d₁ ⟨hend, hnone⟩ ↦ .pure ?_
  obtain ⟨hclean, hpending, htables, hvotings⟩ :=
    hend.transfer.wf.cleanupPendingVotes (· = v.table) v.table
  have hreleased : Released v.table (cleanupPendingVotes d₁ v.table) :=
    ⟨by rw [hvotings]; exact hnone, hpending⟩
  refine ⟨.of_released hvotes (hend.transfer.trans_zero hclean) hreleased, hreleased, ?_⟩
  rw [Free, htables]
  exact hend.free

/-- **The handler of an expired result voting** ends the game and removes the voting. -/
theorem expireVotingForResults_ensures (h : WellFormed mode d) (hvotes : VotesOk idle d)
    (hv : d.tableVotings.find? id = some v) (ht : d.tables.find? v.table = some t)
    (hplaying : t.isFree = false) (hE : ¬mode.core → ∀ text, E (.assertion text))
    (hU : 2 < (contents v.votes).card → E .undefinedBehaviour) :
    (expireVotingForResults d id v).Ensures E fun d' ↦
      Handled mode v.table d d' ∧ Released v.table d' ∧ Free v.table d' := by
  obtain ⟨owner, howner⟩ := (h.tables v.table t ht).tableOwner
  rw [expireVotingForResults, tableById_of_find? ht, Except.ok_bind]
  split_ifs
  · exact scheduledVotingForResults_ensures h hvotes hv ht hplaying hE hU
  · rw [howner, Except.ok_bind]
    obtain ⟨hdrop, -⟩ := h.dropVoting hv
    have hlog := hdrop.trans_zero (hdrop.wf.log
      (.gameEvent v.table owner .failExpireGameResult))
    refine (rollback_ensures hlog.wf ⟨t, ht⟩ hE false).mono fun d' hd' ↦ ?_
    exact ⟨.of_released hvotes (hlog.trans_zero hd'.1.transfer) hd'.2, hd'.2, hd'.1.free⟩

end Tallies

end Playchain
