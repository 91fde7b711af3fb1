import Mathlib.Data.List.TakeWhile
import Playchain.Spec.Allocation
import Playchain.Spec.Local

/-!
# The block tasks on votings and games

The tasks call a handler for every voting that is due. Handlers of different tables do not disturb
each other, so each due voting is handled in the state its table had at the start of the task, and
what the handler leaves of it is there at the end (`votingTask_ensures`).
-/

namespace Playchain

variable {mode : Mode} {d d' : Database} {E : ChainError → Prop}

/-! ### What is due -/

section Due

variable {α : Type} {x : ObjectIndex α} {time : α → TimePointSec} {now : TimePointSec}

/-- In a list ordered by a relation, what a downward closed predicate holds of comes first. -/
theorem mem_takeWhile_of_pairwise {β : Type} {r : β → β → Prop} {q : β → Bool} {l : List β}
    (hl : l.Pairwise r) (hq : ∀ a b, r a b → q b = true → q a = true) {b : β} (hb : b ∈ l)
    (hqb : q b = true) : b ∈ l.takeWhile q := by
  induction l with
  | nil => cases hb
  | cons a l ih =>
    rw [List.pairwise_cons] at hl
    rcases List.mem_cons.1 hb with rfl | hb'
    · rw [List.takeWhile_cons, if_pos hqb]
      exact List.mem_cons_self
    · rw [List.takeWhile_cons, if_pos (hq a b (hl.1 b hb') hqb)]
      exact List.mem_cons_of_mem _ (ih hl.2 hb')

/-- The due objects are those whose time has come. -/
theorem mem_dueBy {p : ℕ × α} :
    p ∈ dueBy x time now ↔ x.find? p.1 = some p.2 ∧ time p.2 ≤ now := by
  constructor
  · intro hp
    exact ⟨find?_of_mem_dueBy hp, by simpa using List.mem_takeWhile_imp hp⟩
  · rintro ⟨hp, hle⟩
    have hpair := x.pairwise_orderedBy time
    refine mem_takeWhile_of_pairwise hpair (fun a b hab hb ↦ ?_) (ObjectIndex.mem_orderedBy.2 hp)
      (decide_eq_true hle)
    refine decide_eq_true (le_trans ?_ (of_decide_eq_true hb))
    exact hab.elim le_of_lt fun h ↦ h.1.le

end Due

/-! ### The kind of a voting -/

/-- A voting for playing has a start vote. -/
theorem exists_vote_of_isVotingForPlaying {v : TableVotingObject}
    (h : v.isVotingForPlaying = true) : ∃ a x, v.votes.find? a = some x ∧ x.isInitialData = true := by
  rw [TableVotingObject.isVotingForPlaying] at h
  split at h
  · cases h
  · rename_i p l hl
    exact ⟨p.1, p.2, FlatMap.find?_eq_some_iff.2 (by rw [hl]; exact List.mem_cons_self), h⟩

theorem exists_vote_of_isVotingForResults {v : TableVotingObject}
    (h : v.isVotingForResults = true) :
    ∃ a x, v.votes.find? a = some x ∧ x.isInitialData = false := by
  rw [TableVotingObject.isVotingForResults] at h
  split at h
  · cases h
  · rename_i p l hl
    exact ⟨p.1, p.2, FlatMap.find?_eq_some_iff.2 (by rw [hl]; exact List.mem_cons_self),
      by simpa using h⟩

/-- A voting that is of neither kind has no votes. -/
theorem votes_isEmpty_of_not {v : TableVotingObject} (hp : v.isVotingForPlaying = false)
    (hr : v.isVotingForResults = false) : v.votes.isEmpty = true := by
  rw [TableVotingObject.isVotingForPlaying] at hp
  rw [TableVotingObject.isVotingForResults] at hr
  rw [FlatMap.isEmpty]
  rcases hl : v.votes.toList with - | ⟨p, l⟩
  · rfl
  · rw [hl] at hp hr
    simp only at hp hr
    rw [hp] at hr
    cases hr

/-- The kind of a voting that fits its table is that of the table. -/
theorem VotesOk.isFree_of_playing (h : VotesOk idle d) {id : ℕ} {v : TableVotingObject}
    {t : TableObject} (hv : d.tableVotings.find? id = some v) (ht : d.tables.find? v.table = some t)
    (hkind : v.isVotingForPlaying = true) : t.isFree = true := by
  obtain ⟨a, x, hx, hinit⟩ := exists_vote_of_isVotingForPlaying hkind
  rw [← (h.votes id v t a x hv ht (fun hf ↦ hf) hx).1, hinit]

theorem VotesOk.isFree_of_results (h : VotesOk idle d) {id : ℕ} {v : TableVotingObject}
    {t : TableObject} (hv : d.tableVotings.find? id = some v) (ht : d.tables.find? v.table = some t)
    (hkind : v.isVotingForResults = true) : t.isFree = false := by
  obtain ⟨a, x, hx, hinit⟩ := exists_vote_of_isVotingForResults hkind
  rw [← (h.votes id v t a x hv ht (fun hf ↦ hf) hx).1, hinit]

/-! ### Handling every due voting -/

/-- The table has a due voting. -/
def DueTable (time : TableVotingObject → TimePointSec) (d : Database) (table : TableId) : Prop :=
  ∃ i v, d.tableVotings.find? i = some v ∧ time v ≤ d.headBlockTime ∧ v.table = table

/-- What a voting task does. `R` says what the handler leaves of a voting and of its table. -/
structure VotingsHandled (mode : Mode) (time : TableVotingObject → TimePointSec)
    (R : ℕ × TableVotingObject → Option TableVotingObject → Option TableObject → Prop)
    (d d' : Database) : Prop where
  transfer : Transfer mode (DueTable time d) d d' 0
  votes : VotesOk idle d'
  steady : Steady d d'
  tables : ∀ table, ¬DueTable time d table → d'.tables.find? table = d.tables.find? table
  remains : ∀ i v, d.tableVotings.find? i = some v → time v ≤ d.headBlockTime →
    R (i, v) (d'.tableVotings.find? i) (d'.tables.find? v.table)

/-- A handler of another table does not touch a voting. -/
theorem Frame.find?_voting {table : TableId} (hf : Frame (· = table) d d') {i : ℕ}
    (hother : ∀ v, d.tableVotings.find? i = some v → v.table ≠ table) :
    d'.tableVotings.find? i = d.tableVotings.find? i := by
  rcases hv : d.tableVotings.find? i with - | v
  · rcases hv' : d'.tableVotings.find? i with - | v'
    · rfl
    · obtain ⟨w, hw, -⟩ := hf.votings i v' hv'
      rw [hv] at hw
      cases hw
  · exact hf.votings_kept i v hv (hother v hv)

/-- **Every due voting is handled once**, in the state its table had at the start. -/
theorem votingTask_ensures {time : TableVotingObject → TimePointSec}
    (handler : Database → ℕ → TableVotingObject → Except ChainError Database)
    {R : ℕ × TableVotingObject → Option TableVotingObject → Option TableObject → Prop}
    (hd : WellFormed mode d) (hv : VotesOk idle d)
    (hhandler : ∀ e i v, WellFormed mode e → VotesOk idle e → Steady d e →
      d.tableVotings.find? i = some v → e.tableVotings.find? i = some v →
      e.tables.find? v.table = d.tables.find? v.table →
      (handler e i v).Ensures E fun e' ↦ Handled mode v.table e e' ∧
        R (i, v) (e'.tableVotings.find? i) (e'.tables.find? v.table))
    (hlocal : ∀ e i v, OwnVoting e i v.table →
      (handler e i v).Ensures anyError (LocalTo v.table e)) :
    ((dueBy d.tableVotings.toObjectIndex time d.headBlockTime).foldlM
      (fun (d : Database) (p : ℕ × TableVotingObject) ↦ do
        let v ← orMissing (d.tableVotings.find? p.1)
        handler d p.1 v) d).Ensures E (VotingsHandled mode time R d) := by
  let I (e : Database) : Prop := Transfer mode (DueTable time d) d e 0 ∧ VotesOk idle e ∧
    Steady d e ∧ ∀ table, ¬DueTable time d table → e.tables.find? table = d.tables.find? table
  let due (p : ℕ × TableVotingObject) : Prop :=
    d.tableVotings.find? p.1 = some p.2 ∧ time p.2 ≤ d.headBlockTime
  let Ready (p : ℕ × TableVotingObject) (e : Database) : Prop := due p ∧
    e.tableVotings.find? p.1 = some p.2 ∧ e.tables.find? p.2.table = d.tables.find? p.2.table
  let Done (p : ℕ × TableVotingObject) (e : Database) : Prop := due p ∧
    R p (e.tableVotings.find? p.1) (e.tables.find? p.2.table)
  -- each table has one voting, so a handler meets its voting as it was at the start
  have hnodup : ((dueBy d.tableVotings.toObjectIndex time d.headBlockTime).map
      fun p ↦ p.2.table).Nodup := by
    refine List.Nodup.map_on (fun p hp q hq hpq ↦ ?_) ((nodup_dueBy _ time _).of_map Prod.fst)
    have hp' := find?_of_mem_dueBy hp
    have hq' := find?_of_mem_dueBy hq
    have hid : p.1 = q.1 := d.tableVotings.unique hp' hq' hpq
    rw [hid] at hp'
    exact Prod.ext hid (Option.some.inj (hp'.symm.trans hq'))
  refine (Except.Ensures.foldlM_each_done (fun p : ℕ × TableVotingObject ↦ p.2.table) I Ready Done
    ?_ hnodup (fun p hp ↦ ⟨mem_dueBy.1 hp, find?_of_mem_dueBy hp, rfl⟩)
    ⟨.refl hd, hv, .refl d, fun _ _ ↦ rfl⟩).mono ?_
  · rintro p e ⟨htr, hvotes, hsteady, htables⟩ ⟨hdue, hfind, htable⟩
    refine .bind_of_eq (orMissing_eq_ok.2 hfind) ?_
    refine ((hhandler e p.1 p.2 htr.wf hvotes hsteady hdue.1 hfind htable).and_any
      (hlocal e p.1 p.2 (.of_find? hfind))).mono ?_
    rintro e' ⟨⟨hhandled, hR⟩, hloc⟩
    have hbusy : DueTable time d p.2.table := ⟨p.1, p.2, hdue.1, hdue.2, rfl⟩
    have hstep : Transfer mode (DueTable time d) e e' 0 := hhandled.transfer.mono fun id hid ↦ by
      rw [hid]
      exact hbusy
    refine ⟨⟨⟨htr.trans_zero hstep, hhandled.votes, hsteady.trans hloc.toSteady, fun table hn ↦ ?_⟩,
      hdue, hR⟩, fun q hq ↦ ?_⟩
    · rw [hloc.tables table fun heq ↦ hn (heq ▸ hbusy), htables table hn]
    · have hsame : due q → e'.tableVotings.find? q.1 = e.tableVotings.find? q.1 := by
        intro hdueq
        refine hhandled.transfer.frame.find?_voting fun v hv ↦ ?_
        obtain ⟨w, hw, hs, -⟩ := htr.frame.votings q.1 v hv
        obtain rfl := Option.some.inj (hdueq.1.symm.trans hw)
        rw [hs.table]
        exact hq
      have htab := hloc.tables q.2.table hq
      refine ⟨?_, ?_⟩
      · rintro ⟨hdueq, hfindq, htableq⟩
        exact ⟨hdueq, (hsame hdueq).trans hfindq, htab.trans htableq⟩
      · rintro ⟨hdueq, hRq⟩
        refine ⟨hdueq, ?_⟩
        rw [hsame hdueq, htab]
        exact hRq
  · rintro d' ⟨⟨htr, hvotes, hsteady, htables⟩, hdone⟩
    exact ⟨htr, hvotes, hsteady, htables, fun i v hi hle ↦ (hdone (i, v) (mem_dueBy.2 ⟨hi, hle⟩)).2⟩

/-! ### The validity of start votes between handlers -/

theorem initialCash_congr {e : Database} (h : Steady d e) (t : TableObject) (data : GameInitialData) :
    initialCash e t data = initialCash d t data := by
  have hplayer : ∀ (a : AccountId) (f : PlayerId → Option (FlatMap PlayerId Asset)),
      ((e.players.findKey? a).bind fun p ↦ f p.1) = (d.players.findKey? a).bind fun p ↦ f p.1 := by
    intro a f
    have hmap : ∀ x : Option (PlayerId × PlayerObject),
        (x.bind fun p ↦ f p.1) = (x.map Prod.fst).bind f := by
      intro x
      cases x <;> rfl
    rw [hmap, hmap, h.accounts a]
  rw [initialCash, initialCash]
  congr 1
  funext cash p
  split_ifs
  · rfl
  · exact hplayer p.1 fun player ↦
      if t.cash.contains player = true then some (cash.insert player p.2) else none

theorem matchesEtalon_congr {e : Database} (h : Steady d e) {table : TableId}
    (he : (e.tableVotings.findKey? table).bind (fun v ↦ v.2.etalonVote) =
      (d.tableVotings.findKey? table).bind fun v ↦ v.2.etalonVote)
    (cash : FlatMap PlayerId Asset) : matchesEtalon e table cash = matchesEtalon d table cash := by
  have hplayer : ∀ (a : AccountId) (f : PlayerId → FlatMap PlayerId Asset),
      (do return f (← e.getPlayer a).1 : Except ChainError _) = do return f (← d.getPlayer a).1 := by
    intro a f
    have hmap : ∀ x : Option (PlayerId × PlayerObject),
        (do return f (← orMissing x).1 : Except ChainError _) =
          do return f (← orMissing (x.map Prod.fst)) := by
      intro x
      cases x <;> rfl
    rw [Database.getPlayer, Database.getPlayer, hmap, hmap, h.accounts a]
  have hfold : (fun (c : FlatMap PlayerId Asset) (p : AccountId × Asset) ↦
      (do return c.insert (← e.getPlayer p.1).1 p.2 : Except ChainError _)) =
      fun c p ↦ do return c.insert (← d.getPlayer p.1).1 p.2 := by
    funext c p
    exact hplayer p.1 fun player ↦ c.insert player p.2
  rw [matchesEtalon, matchesEtalon, he, hfold]

/-- The validity of a start depends on the players, the time, the etalon vote and the cash at the
table. -/
theorem isValidStart_congr {e : Database} (h : Steady d e) {table : TableId} (t : TableObject)
    (he : (e.tableVotings.findKey? table).bind (fun v ↦ v.2.etalonVote) =
      (d.tableVotings.findKey? table).bind fun v ↦ v.2.etalonVote) (x : VotingData) :
    isValidStart e table t x = isValidStart d table t x := by
  cases x with
  | gameResult r => rfl
  | gameInitialData data =>
    have hvalid : validateInitialData e table t data = validateInitialData d table t data := by
      rw [validateInitialData, validateInitialData, initialCash_congr h, h.headBlockTime]
      simp only [matchesEtalon_congr h he]
    rw [isValidStart, isValidStart, hvalid]

/-- The valid votes of a voting do not depend on what happens at other tables. -/
theorem validVotes_congr {e : Database} (h : Steady d e) {i : ℕ} {v : TableVotingObject}
    (hv : d.tableVotings.find? i = some v) (hv' : e.tableVotings.find? i = some v)
    (t : TableObject) : validVotes e v t = validVotes d v t := by
  have hkey : ∀ {d : Database}, d.tableVotings.find? i = some v →
      d.tableVotings.findKey? v.table = some (i, v) :=
    fun hv ↦ UniqueIndex.findKey?_eq_some_iff.2 ⟨hv, rfl⟩
  rw [validVotes, validVotes]
  congr 1
  funext _ x
  exact isValidStart_congr h t (by rw [hkey hv, hkey hv']) x

/-! ### Scheduled votings -/

/-- What a tally leaves of a voting: nothing, unless there are no votes to decide its kind, or too few
valid start votes. A result ends the game. -/
structure TallyRemains (d : Database) (p : ℕ × TableVotingObject) (voting : Option TableVotingObject)
    (table : Option TableObject) : Prop where
  playing : p.2.isVotingForPlaying = true → ∃ t, d.tables.find? p.2.table = some t ∧
    t.playingCash = ∅ ∧ (d.parameters.minVotesForPlaying ≤ (validVotes d p.2 t).size → voting = none) ∧
    ((validVotes d p.2 t).size < d.parameters.minVotesForPlaying →
      voting = some { p.2 with votes := validVotes d p.2 t } ∧ table = some t)
  results : p.2.isVotingForResults = true → voting = none ∧ ∃ t, table = some t ∧ t.playingCash = ∅
  empty : p.2.isVotingForPlaying = false → p.2.isVotingForResults = false →
    voting = some p.2 ∧ table = d.tables.find? p.2.table

theorem Frame.find?_eq_none_of_released {busy : TableId → Prop} (hf : Frame busy d d') {i : ℕ}
    {v : TableVotingObject} (hv : d.tableVotings.find? i = some v)
    (hnone : d'.tableVotings.findKey? v.table = none) : d'.tableVotings.find? i = none := by
  rcases hv' : d'.tableVotings.find? i with - | v'
  · rfl
  · obtain ⟨w, hw, hs, -⟩ := hf.votings i v' hv'
    obtain rfl := Option.some.inj (hv.symm.trans hw)
    exact absurd hs.table (UniqueIndex.findKey?_eq_none_iff.1 hnone i v' hv')

section Tallies

variable [GameDigest]

theorem updateScheduledVoting_ensures (h : WellFormed mode d) (hv : VotesOk idle d)
    (hclock : mode.clock → d.DeadlineFits) (hE : ¬mode.core → ∀ text, E (.assertion text))
    (hU : MergeFails E d) :
    (updateScheduledVoting d).Ensures E
      (VotingsHandled mode TableVotingObject.scheduledVoting (TallyRemains d) d) := by
  refine votingTask_ensures (fun d i v ↦
    if v.isVotingForPlaying then scheduledVotingForPlaying d i v
    else if v.isVotingForResults then scheduledVotingForResults d i v else return d) h hv ?_ ?_
  · intro e i v hwf hvotes hsteady hid hie htable
    obtain ⟨t, ht⟩ := (hvotes.voting i v hie).1
    have htd : d.tables.find? v.table = some t := htable ▸ ht
    -- a voting for playing is at a free table, one for results at a busy one
    by_cases hplaying : v.isVotingForPlaying = true
    · have hfree := hvotes.isFree_of_playing hie ht hplaying
      have hvalid := validVotes_congr hsteady hid hie t
      rw [if_pos hplaying]
      have hfits : mode.clock → e.DeadlineFits := by
        rw [Database.DeadlineFits, hsteady.headBlockTime, hsteady.parameters]
        exact hclock
      refine (scheduledVotingForPlaying_ensures hwf hvotes hie ht hfree hfits (hU i v hid)).mono ?_
      rintro e' ⟨hhandled, hremoved, hkept⟩
      rw [hvalid, hsteady.parameters] at hremoved hkept
      refine ⟨hhandled, fun _ ↦ ⟨t, htd, FlatMap.isEmpty_iff.1 hfree, fun hle ↦ ?_, fun hlt ↦ ?_⟩,
        fun hr ↦ ?_, fun hp ↦ absurd hplaying (by rw [hp]; decide)⟩
      · exact hhandled.transfer.frame.find?_eq_none_of_released hie (hremoved hle).voting
      · obtain ⟨hfind, htables⟩ := hkept hlt
        exact ⟨hfind, htables ▸ ht⟩
      · rw [hvotes.isFree_of_results hie ht hr] at hfree
        cases hfree
    · rw [if_neg hplaying]
      by_cases hresults : v.isVotingForResults = true
      · have hbusy := hvotes.isFree_of_results hie ht hresults
        rw [if_pos hresults]
        refine (scheduledVotingForResults_ensures hwf hvotes hie ht hbusy hE (hU i v hid)).mono ?_
        rintro e' ⟨hhandled, hreleased, hfree⟩
        refine ⟨hhandled, fun hp ↦ absurd hp hplaying, fun _ ↦ ⟨?_, hfree⟩,
          fun _ hr ↦ absurd hresults (by rw [hr]; decide)⟩
        exact hhandled.transfer.frame.find?_eq_none_of_released hie hreleased.voting
      · rw [if_neg hresults]
        exact .pure ⟨⟨.refl hwf, hvotes⟩, fun hp ↦ absurd hp hplaying,
          fun hr ↦ absurd hr hresults, fun _ _ ↦ ⟨hie, htable⟩⟩
  · intro e i v hid
    split_ifs
    · exact scheduledVotingForPlaying_local hid
    · exact scheduledVotingForResults_local hid
    · exact .pure (.refl v.table e)

/-! ### Expired votings -/

/-- What an expiration leaves of a voting: nothing, unless there are no votes to decide its kind. No
game starts. -/
structure ExpiryRemains (d : Database) (p : ℕ × TableVotingObject)
    (voting : Option TableVotingObject) (table : Option TableObject) : Prop where
  voting : p.2.votes.isEmpty = false → voting = none
  free : ∀ t, d.tables.find? p.2.table = some t → t.playingCash = ∅ →
    ∃ t', table = some t' ∧ t'.playingCash = ∅

theorem updateExpiredTableVoting_ensures (h : WellFormed mode d) (hv : VotesOk idle d)
    (hE : ¬mode.core → ∀ text, E (.assertion text)) (hU : MergeFails E d) :
    (updateExpiredTableVoting d).Ensures E
      (VotingsHandled mode TableVotingObject.expiration (ExpiryRemains d) d) := by
  refine votingTask_ensures (fun d i v ↦
    if v.isVotingForPlaying then expireVotingForPlaying d i v
    else if v.isVotingForResults then expireVotingForResults d i v else return d) h hv ?_ ?_
  · intro e i v hwf hvotes hsteady hid hie htable
    obtain ⟨t, ht⟩ := (hvotes.voting i v hie).1
    by_cases hplaying : v.isVotingForPlaying = true
    · rw [if_pos hplaying]
      refine (expireVotingForPlaying_ensures hwf hvotes hie).mono ?_
      rintro e' ⟨hhandled, hreleased, htables⟩
      refine ⟨hhandled, fun _ ↦ ?_, fun u hu hempty ↦ ⟨u, ?_, hempty⟩⟩
      · exact hhandled.transfer.frame.find?_eq_none_of_released hie hreleased.voting
      · rw [htables, htable]
        exact hu
    · rw [if_neg hplaying]
      by_cases hresults : v.isVotingForResults = true
      · have hbusy := hvotes.isFree_of_results hie ht hresults
        rw [if_pos hresults]
        refine (expireVotingForResults_ensures hwf hvotes hie ht hbusy hE (hU i v hid)).mono ?_
        rintro e' ⟨hhandled, hreleased, hfree⟩
        refine ⟨hhandled, fun _ ↦ ?_, fun _ _ _ ↦ hfree⟩
        exact hhandled.transfer.frame.find?_eq_none_of_released hie hreleased.voting
      · rw [if_neg hresults]
        refine .pure ⟨⟨.refl hwf, hvotes⟩, fun hnonempty ↦ ?_, fun u hu hempty ↦ ⟨u, ?_, hempty⟩⟩
        · rw [votes_isEmpty_of_not (Bool.not_eq_true _ ▸ hplaying) (Bool.not_eq_true _ ▸ hresults)]
            at hnonempty
          cases hnonempty
        · rw [htable]
          exact hu
  · intro e i v hid
    split_ifs
    · exact expireVotingForPlaying_local e hid
    · exact expireVotingForResults_local hid
    · exact .pure (.refl v.table e)

end Tallies

/-! ### Expired games -/

/-- What the expiration of games does: at the tables it handles, the game ends. -/
structure GamesExpired (mode : Mode) (d d' : Database) : Prop where
  transfer : Transfer mode (fun _ ↦ True) d d' 0
  votes : VotesOk idle d'
  steady : Steady d d'
  free : ∀ table t, d.tables.find? table = some t → t.playingCash = ∅ → Free table d'

theorem GamesExpired.refl (h : WellFormed mode d) (hv : VotesOk idle d) : GamesExpired mode d d where
  transfer := .refl h
  votes := hv
  steady := .refl d
  free _ t ht hempty := ⟨t, ht, hempty⟩

theorem updateExpiredTableGame_ensures (h : WellFormed mode d) (hv : VotesOk idle d)
    (hE : ¬mode.core → ∀ text, E (.assertion text)) (maintenance : Bool) :
    (updateExpiredTableGame d maintenance).Ensures E (GamesExpired mode d) := by
  rw [updateExpiredTableGame]
  by_cases hskip : d.maintenanceInterval * 10 % 2 ^ 32 < d.parameters.gameLifetimeLimitInSeconds ∧
      maintenance = false
  · rw [if_pos hskip]
    exact .pure (.refl h hv)
  rw [if_neg hskip]
  refine Except.Ensures.foldlM (GamesExpired mode d) ?_ (.refl h hv)
  intro p hp e he
  have hhas : e.tables.Has p.1 := he.transfer.frame.tables.has ⟨p.2, find?_of_mem_dueBy hp⟩
  obtain ⟨t, ht⟩ := hhas
  obtain ⟨owner, howner⟩ := (he.transfer.wf.tables p.1 t ht).tableOwner
  rw [tableById_of_find? ht, Except.ok_bind, howner, Except.ok_bind]
  have hlog : Transfer mode (· = p.1) e (e.pushGameEvent p.1 owner .failExpireGameLifetime) 0 :=
    he.transfer.wf.log _
  refine ((rollback_ensures hlog.wf ⟨t, ht⟩ hE true).and_any (rollback_local _ p.1 true)).mono ?_
  rintro e' ⟨⟨hended, hreleased⟩, hloc⟩
  have hlocal := (LocalTo.log p.1 e _).trans hloc
  have hstep := hlog.trans_zero hended.transfer
  refine ⟨he.transfer.trans_zero (hstep.mono fun _ _ ↦ trivial),
    he.votes.of_released hstep.frame hreleased, he.steady.trans hlocal.toSteady,
    fun table u hu hempty ↦ ?_⟩
  by_cases heq : table = p.1
  · rw [heq]
    exact hended.free
  · obtain ⟨u', hu', hempty'⟩ := he.free table u hu hempty
    exact ⟨u', (hlocal.tables table heq).trans hu', hempty'⟩

end Playchain
