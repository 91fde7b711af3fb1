import Playchain.Spec.Runs

/-!
# Safety of the tables

What holds in every state of a chain whose operations and block tasks happen under the rules since the
tenth hard fork: money is conserved, votes fit their tables, whoever has money at a table is registered
there, seats are counted. Before that hard fork a game that ends at its lifetime limit may leave a
voting on its result behind (`keptVoting`), and a chain that has done so can lose all of this later.

The block tasks never fail unless a player in a game has asked to leave with an amount in another
asset than the core asset, or three contents are voted for.
-/

namespace Playchain

variable {d : Database} {time : TimePointSec}

/-- Nothing is assumed about the run. -/
abbrev anyRun : Mode := { core := False, clock := False }

section Runs

variable [GameDigest] [RatingFunctions]

theorem Sound.of_reachable (h : ReachableSince10 time d) : Sound anyRun d.atHardfork10 :=
  .reachable (fun _ _ hsince ↦ hsince) (fun _ _ _ hf ↦ hf.elim) (fun _ _ _ hf ↦ hf.elim) h

/-! ### Money -/

/-- **Conservation of money.** In every state of a chain under the rules since the tenth hard fork,
operations and block tasks keep the money of the chain, by asset, and no adjustment of a table has ever
erased a negative amount. -/
theorem total_conserved (h : ReachableSince10 time d) :
    (∀ op d', hardforkPlaychain10Time ≤ d.headBlockTime → applyOperation d op = .ok d' →
      d'.total = d.total) ∧
    (∀ now maintenance d', d.headBlockTime ≤ now → hardforkPlaychain10Time ≤ now →
      processBlockTasks { d with headBlockTime := now } maintenance = .ok d' →
      d'.total = d.total) ∧
    ∀ id t, d.tables.find? id = some t → t.overdrawn = 0 := by
  have hd := Sound.of_reachable h
  refine ⟨fun op d' htime hop ↦ ?_, fun now maintenance d' hnow htime htasks ↦ ?_,
    fun id t ht ↦ ?_⟩
  · rw [Database.atHardfork10_eq htime] at hd
    have hdone := (applyOperation_ensures hd.wf hd.votes refusals_refused op (fun hf ↦ hf.elim)
      fun _ _ _ _ ↦ VoteRule.trivial).of_ok hop
    rcases hdone with hkept | ⟨vote, t, d₁, -, hcounted⟩
    · rw [hkept.transfer.total, add_zero]
    · obtain ⟨votings, pending, ops, rfl⟩ := hcounted.voted.onlyVotes
      rw [hcounted.transfer.total, add_zero]
      rfl
  · have hd' := hd.at_time hnow htime
    obtain ⟨d₁, d₂, d₃, d₄, d₅, hrun⟩ := (processBlockTasks_ensures (E := fun _ ↦ True) hd'.wf
      hd'.votes (fun hf ↦ hf.elim) (fun _ _ ↦ trivial) (fun _ _ _ _ ↦ trivial)
      maintenance).of_ok htasks
    rw [(hrun.transfer hd'.wf).total, add_zero]
    rfl
  · exact (hd.wf.tables id t ht).overdrawn

end Runs

theorem total_conserved_game : ∃ d,
    @ReachableSince10 sampleDigest sampleRating hardforkPlaychain9Time d ∧ PlaysAtFirst d ∧
      (∀ op d', @applyOperation sampleDigest d op = .ok d' → d'.total = d.total) ∧
      ∀ now maintenance d', d.headBlockTime ≤ now →
        @processBlockTasks sampleDigest { d with headBlockTime := now } maintenance = .ok d' →
          d'.total = d.total := by
  obtain ⟨d, hd, hplays, htime⟩ := exists_reachable_game
  have hten : hardforkPlaychain10Time ≤ d.headBlockTime := le_trans (by decide) htime
  obtain ⟨hop, htasks, -⟩ := @total_conserved _ _ sampleDigest sampleRating hd
  exact ⟨d, hd, hplays, fun op d' ↦ hop op d' hten,
    fun now maintenance d' hnow ↦ htasks now maintenance d' hnow (hten.trans hnow)⟩

/-! ### A kept voting -/

/-- The winner takes all. -/
def sampleResult : GameResult where
  cash := ((∅ : FlatMap AccountId GamerCashResult).insert 7 { cash := { amount := 20 } }).insert 8 {}

/-- A result vote at the first table. -/
def sampleResultVote (voter : AccountId) : Event :=
  .operation (.gameResultCheck ⟨1, 6, voter, sampleResult⟩)

/-- Under the rules of the ninth hard fork: a game in which a game witness has voted ends at its
lifetime limit while the witness has not voted for the result yet. The voting is kept. -/
def keptVoting : List Event :=
  [.operation (.roomCreate ⟨9, "url", "witness", "1.0.0"⟩),
    .operation (.roomCreate ⟨6, "url", "room", "1.0.0"⟩),
    .operation (.tableCreate ⟨6, 2, "table", 0, { amount := 1 }⟩),
    .elsewhere {
      parameters := { gameLifetimeLimitInSeconds := 6, minVotesForResults := 0 }
      accounts := 10
      balances := ((∅ : FlatMap (AccountId ×ₗ AssetId) ℤ).insert (toLex (7, coreAsset)) 100).insert
        (toLex (8, coreAsset)) 100 },
    .operation (.buyInTable { player := 7, table := 1, tableOwner := 6, amount := { amount := 10 } }),
    .operation (.buyInTable { player := 8, table := 1, tableOwner := 6, amount := { amount := 10 } }),
    sampleStartVote 6, sampleStartVote 7, sampleStartVote 8, sampleStartVote 9,
    .headBlock (hardforkPlaychain9Time + 3), .blockTasks false,
    sampleResultVote 6, sampleResultVote 7, sampleResultVote 8,
    .headBlock (hardforkPlaychain9Time + 9), .blockTasks false]

/-- An amount of an asset, and 0 of another one. -/
def Asset.amountOf (asset : AssetId) (a : Asset) : ℤ := if a.assetId = asset then a.amount else 0

/-- The money of an asset, computed. -/
def Database.totalOf (d : Database) (asset : AssetId) : ℤ :=
  (d.balances.sum fun k v ↦ if (ofLex k).2 = asset then v else 0) +
    (d.tables.sum fun t ↦ (t.cash.sum fun _ v ↦ v.amountOf asset) +
      t.playingCash.sum fun _ v ↦ v.amountOf asset) +
    (d.pendingBuyIns.sum fun b ↦ b.amount.amountOf asset) +
    d.rooms.sum fun r ↦ r.pendingRake.amountOf asset

theorem Database.total_apply (d : Database) (asset : AssetId) : d.total asset = d.totalOf asset := by
  have hvalue (a : Asset) : a.value asset = a.amountOf asset := Finsupp.single_apply
  have hsum {K V : Type} [LinearOrder K] (m : FlatMap K V) (f : K → V → AssetId →₀ ℤ) :
      m.sum f asset = m.sum fun k v ↦ f k v asset := by
    rw [FlatMap.sum, FlatMap.sum, ← Finsupp.applyAddHom_apply, map_list_sum, List.map_map]
    rfl
  simp only [Database.total, Database.totalOf, balancesTotal, ObjectIndex.sum, TableObject.funds,
    worth, Finsupp.add_apply, hsum, hvalue, Finsupp.single_apply]

/-- **A kept voting mints money.** Its result is applied after the eleventh hard fork, at a table
without a game: the winner gets the stakes of the game once more. -/
theorem total_minted : ∃ d d', @Reachable sampleDigest sampleRating hardforkPlaychain9Time d ∧
    hardforkPlaychain11Time ≤ d.headBlockTime ∧ @processBlockTasks sampleDigest d false = .ok d' ∧
      d'.total coreAsset = d.total coreAsset + 20 := by
  obtain ⟨d, hd, htime, hminted⟩ := @exists_reachable_of_run hardforkPlaychain9Time sampleDigest
    sampleRating 10 (sampleClaimed ++ [(9, { amount := 1000 })])
    (keptVoting ++ [.headBlock hardforkPlaychain11Time])
    (fun d ↦ hardforkPlaychain11Time ≤ d.headBlockTime ∧
      (@processBlockTasks sampleDigest d false).toOption.any (fun d' ↦
        d'.totalOf coreAsset = d.totalOf coreAsset + 20) = true) _ (by decide)
  rcases htasks : @processBlockTasks sampleDigest d false with e | d'
  · rw [htasks] at hminted
    cases hminted
  · rw [htasks] at hminted
    refine ⟨d, d', hd, htime, htasks, ?_⟩
    rw [Database.total_apply, Database.total_apply]
    exact of_decide_eq_true hminted

/-! ### Votes -/

section Runs

variable [GameDigest] [RatingFunctions]

/-- **Votes fit their tables.** In every state of a chain under the rules since the tenth hard fork a
table has at most one voting, the kind of its votes fits the state of the table, and votes are set aside,
one by voter, only while there is no voting. No operation meets a vote of the wrong kind, and no block
task does: it fails with an assertion, or where a tally of three contents is undefined. -/
theorem votes_well_typed (h : ReachableSince10 time d) :
    (∀ i j v w, d.tableVotings.find? i = some v → d.tableVotings.find? j = some w →
      v.table = w.table → i = j) ∧
    (∀ i v, d.tableVotings.find? i = some v → ∃ t, d.tables.find? v.table = some t ∧
      ∀ a x, v.votes.find? a = some x → x.isInitialData = t.isFree) ∧
    (∀ i w, d.pendingTableVotes.find? i = some w →
      (∀ j v, d.tableVotings.find? j = some v → v.table ≠ w.table) ∧
      ∃ t, d.tables.find? w.table = some t ∧ w.vote.isStart = t.isFree) ∧
    (∀ i j w w', d.pendingTableVotes.find? i = some w → d.pendingTableVotes.find? j = some w' →
      w.table = w'.table → w.voter = w'.voter → i = j) ∧
    (hardforkPlaychain10Time ≤ d.headBlockTime → ∀ op, applyOperation d op ≠ .error .badVariant) ∧
    ∀ now maintenance e, d.headBlockTime ≤ now → hardforkPlaychain10Time ≤ now →
      processBlockTasks { d with headBlockTime := now } maintenance = .error e →
      (∃ text, e = .assertion text) ∨
      e = .undefinedBehaviour ∧ ∃ i v, d.tableVotings.find? i = some v ∧ 2 < (contents v.votes).card := by
  have hd := Sound.of_reachable h
  refine ⟨fun i j v w hv hw htable ↦ d.tableVotings.unique hv hw htable, fun i v hv ↦ ?_,
    fun i w hw ↦ ⟨fun j v hv htable ↦ ?_, ?_⟩,
    fun i j w w' hw hw' htable hvoter ↦ d.pendingTableVotes.unique hw hw' (Prod.ext htable hvoter),
    fun htime op herror ↦ ?_, fun now maintenance e hnow htime herror ↦ ?_⟩
  · obtain ⟨t, ht⟩ := (hd.votes.voting i v hv).1
    exact ⟨t, ht, fun a x hx ↦ (hd.votes.votes i v t a x hv ht (fun hf ↦ hf) hx).1⟩
  · exact UniqueIndex.findKey?_eq_none_iff.1 (hd.votes.pendingAlone i w hw fun hf ↦ hf) j v hv htable
  · obtain ⟨t, ht⟩ := (hd.votes.pendingVote i w hw).1
    exact ⟨t, ht, hd.votes.pendingKind i w t hw ht fun hf ↦ hf⟩
  · rw [Database.atHardfork10_eq htime] at hd
    exact (applyOperation_ensures hd.wf hd.votes refusals_refused op (fun hf ↦ hf.elim)
      fun _ _ _ _ ↦ VoteRule.trivial).of_error herror
  · have hd' := hd.at_time hnow htime
    exact (processBlockTasks_ensures (E := fun e ↦ (∃ text, e = .assertion text) ∨
      e = .undefinedBehaviour ∧ ∃ i v, d.tableVotings.find? i = some v ∧ 2 < (contents v.votes).card)
      hd'.wf hd'.votes (fun hf ↦ hf.elim) (fun _ text ↦ .inl ⟨text, rfl⟩)
      (fun i v hv hmany ↦ .inr ⟨rfl, i, v, hv, hmany⟩) maintenance).of_error herror

end Runs

theorem votes_well_typed_game : ∃ d,
    @ReachableSince10 sampleDigest sampleRating hardforkPlaychain9Time d ∧ PlaysAtFirst d ∧
      ∀ op, @applyOperation sampleDigest d op ≠ .error .badVariant := by
  obtain ⟨d, hd, hplays, htime⟩ := exists_reachable_game
  have h := @votes_well_typed _ _ sampleDigest sampleRating hd
  exact ⟨d, hd, hplays, h.2.2.2.2.1 (le_trans (by decide) htime)⟩

/-- The kept voting, after the eleventh hard fork: a free table has votes for a result. -/
theorem votes_mistyped : ∃ d, @Reachable sampleDigest sampleRating hardforkPlaychain9Time d ∧
    hardforkPlaychain11Time ≤ d.headBlockTime ∧ ∃ v t a x, d.tableVotings.find? 1 = some v ∧
      d.tables.find? v.table = some t ∧ v.votes.find? a = some x ∧ x.isInitialData ≠ t.isFree := by
  obtain ⟨d, hd, htime, hmistyped⟩ := @exists_reachable_of_run hardforkPlaychain9Time sampleDigest
    sampleRating 10 (sampleClaimed ++ [(9, { amount := 1000 })])
    (keptVoting ++ [.headBlock hardforkPlaychain11Time])
    (fun d ↦ hardforkPlaychain11Time ≤ d.headBlockTime ∧
      (d.tableVotings.find? 1).any (fun v ↦ (d.tables.find? v.table).any fun t ↦
        (v.votes.find? 6).any fun x ↦ x.isInitialData != t.isFree) = true) _ (by decide)
  obtain ⟨v, hv, h⟩ := (Option.any_eq_true _ _).1 hmistyped
  obtain ⟨t, ht, h⟩ := (Option.any_eq_true _ _).1 h
  obtain ⟨x, hx, h⟩ := (Option.any_eq_true _ _).1 h
  exact ⟨d, hd, htime, v, t, 6, x, hv, ht, hx, bne_iff_ne.1 h⟩

/-! ### Stays -/

section Runs

variable [GameDigest] [RatingFunctions]

/-- Every player with money at a table is registered there exactly once. -/
def Registered (d : Database) : Prop :=
  ∀ id t p, d.tables.find? id = some t → t.HasMoney p →
    ∃! i, ∃ b, d.buyIns.find? i = some b ∧ b.table = id ∧ b.player = p

omit [GameDigest] [RatingFunctions] in
theorem WellFormed.registered (mode : Mode) (h : WellFormed mode d)
    (hmode : ∀ id p, ¬mode.unregistered id p) : Registered d := by
  intro id t p ht hp
  obtain ⟨⟨i, b⟩, hb⟩ := Option.ne_none_iff_exists'.1 (h.stays id t p ht (hmode id p) hp)
  obtain ⟨hfind, hkey⟩ := UniqueIndex.findKey?_eq_some_iff.1 hb
  obtain ⟨htable, hplayer⟩ := Prod.mk.inj hkey
  refine ⟨i, ⟨b, hfind, htable, hplayer⟩, ?_⟩
  rintro j ⟨c, hc, rfl, rfl⟩
  exact d.buyIns.unique hc hfind (Prod.ext htable.symm hplayer.symm)

/-- **No stranded cash.** Whoever has money at a table is registered there, in every state of a chain
under the rules since the tenth hard fork, and in every state that is reached from a sound one. -/
theorem no_stranded_cash :
    (∀ time d, ReachableSince10 time d → Registered d) ∧
    ∀ d₀ d, Sound anyRun d₀ → Relation.ReflTransGen Step d₀ d → Registered d := by
  refine ⟨fun time d h ↦ ?_, fun d₀ d h₀ hrun ↦ ?_⟩
  · exact WellFormed.registered (d := d.atHardfork10) _ (Sound.of_reachable h).wf fun _ _ hf ↦ hf
  · refine WellFormed.registered anyRun (Sound.wf ?_) fun _ _ hf ↦ hf
    refine Relation.ReflTransGen.invariant (Sound anyRun) ?_ h₀ hrun
    rintro s s' hs ⟨event, -, hevent⟩
    exact hs.run (fun hf ↦ hf.elim) (fun hf ↦ hf.elim) hevent

end Runs

theorem no_stranded_cash_game : ∃ d,
    @ReachableSince10 sampleDigest sampleRating hardforkPlaychain9Time d ∧ PlaysAtFirst d ∧
      Registered d := by
  obtain ⟨d, hd, hplays, -⟩ := exists_reachable_game
  exact ⟨d, hd, hplays, (@no_stranded_cash sampleDigest sampleRating).1 _ d hd⟩

/-- **To be registered is not enough to stay so**: nobody has money at the table of the kept voting, and
the block tasks that apply its result leave the winner there without a registration. -/
theorem stranded_cash : ∃ d d', hardforkPlaychain10Time ≤ d.headBlockTime ∧ Registered d ∧
    @Step sampleDigest sampleRating d d' ∧ ¬Registered d' := by
  obtain ⟨d, -, htime, hmoney, hstranded⟩ := @exists_reachable_of_run hardforkPlaychain9Time sampleDigest
    sampleRating 10 (sampleClaimed ++ [(9, { amount := 1000 })])
    (keptVoting ++ [.headBlock hardforkPlaychain11Time])
    (fun d ↦ hardforkPlaychain10Time ≤ d.headBlockTime ∧
      (∀ p ∈ d.tables.toList, p.2.cash.isEmpty = true ∧ p.2.playingCash.isEmpty = true) ∧
      (@processBlockTasks sampleDigest d false).toOption.any (fun d' ↦
        d'.buyIns.toList.isEmpty && (d'.tables.find? 1).any fun t ↦ t.isWaitingAtTable 2) = true) _
    (by decide)
  rcases htasks : @processBlockTasks sampleDigest d false with e | d'
  · rw [htasks] at hstranded
    cases hstranded
  rw [htasks] at hstranded
  obtain ⟨hnone, hwaits⟩ := (Bool.and_eq_true _ _).mp hstranded
  obtain ⟨t, ht, hwaits⟩ := (Option.any_eq_true _ _).1 hwaits
  refine ⟨d, d', htime, fun id t p ht hp ↦ ?_, ⟨.blockTasks false, trivial, htasks⟩, fun h ↦ ?_⟩
  · obtain ⟨hcash, hplaying⟩ := hmoney (id, t) (ObjectIndex.find?_eq_some_iff.1 ht)
    rw [FlatMap.isEmpty_iff] at hcash hplaying
    rcases hp with hp | hp
    · rw [hcash] at hp
      cases hp
    · rw [hplaying] at hp
      cases hp
  · obtain ⟨i, ⟨b, hb, -⟩, -⟩ := h 1 t 2 ht (.inl hwaits)
    have hmem := ObjectIndex.find?_eq_some_iff.1 hb
    rw [List.isEmpty_iff.1 hnone] at hmem
    cases hmem

/-! ### Seats -/

section Runs

variable [GameDigest] [RatingFunctions]

/-- **Seats are counted.** In every state of a chain under the rules since the tenth hard fork the counter
of occupied places is the number of players that have a reservation, cash or cash in the game, as an
unsigned 32-bit integer.
The six methods that change the three maps of a table keep it, for every player and every amount. -/
theorem seats_counted (h : ReachableSince10 time d) :
    (∀ id t, d.tables.find? id = some t → t.occupiedPlaces = t.seated.card % 2 ^ 32) ∧
    ∀ t : TableObject, t.occupiedPlaces = t.seated.card % 2 ^ 32 →
      (∀ p delta t', t.adjustCash p delta = .ok t' →
        t'.occupiedPlaces = t'.seated.card % 2 ^ 32) ∧
      (∀ p delta t', t.adjustPlayingCash p delta = .ok t' →
        t'.occupiedPlaces = t'.seated.card % 2 ^ 32) ∧
      t.clearCash.occupiedPlaces = t.clearCash.seated.card % 2 ^ 32 ∧
      t.clearPlayingCash.occupiedPlaces = t.clearPlayingCash.seated.card % 2 ^ 32 ∧
      (∀ p pending, (t.addPendingProposal p pending).2.occupiedPlaces =
        (t.addPendingProposal p pending).2.seated.card % 2 ^ 32) ∧
      ∀ p, (t.removePendingProposal p).occupiedPlaces =
        (t.removePendingProposal p).seated.card % 2 ^ 32 := by
  have hd := Sound.of_reachable h
  refine ⟨fun id t ht ↦ (hd.wf.tables id t ht).seats, fun t ht ↦ ?_⟩
  have hseats : t.SeatsOk := ht
  exact ⟨fun _ _ _ ha ↦ hseats.adjustCash ha, fun _ _ _ ha ↦ hseats.adjustPlayingCash ha,
    hseats.clearCash, hseats.clearPlayingCash, fun _ pending ↦ hseats.addPendingProposal pending,
    fun p ↦ hseats.removePendingProposal p⟩

end Runs

theorem seats_counted_game : ∃ d,
    @ReachableSince10 sampleDigest sampleRating hardforkPlaychain9Time d ∧ PlaysAtFirst d ∧
      ∀ id t, d.tables.find? id = some t → t.occupiedPlaces = t.seated.card % 2 ^ 32 := by
  obtain ⟨d, hd, hplays, -⟩ := exists_reachable_game
  exact ⟨d, hd, hplays, (@seats_counted _ _ sampleDigest sampleRating hd).1⟩

/-- The kept voting is applied to a table without a game, and the counter loses a place. -/
theorem seats_miscounted : ∃ d, @Reachable sampleDigest sampleRating hardforkPlaychain9Time d ∧
    (d.tables.find? 1).any (fun t ↦ t.occupiedPlaces ≠ t.seated.card % 2 ^ 32) = true :=
  @exists_reachable_of_run _ sampleDigest sampleRating 10 (sampleClaimed ++ [(9, { amount := 1000 })])
    (keptVoting ++ [.headBlock (hardforkPlaychain9Time + 12), .blockTasks false]) _ _
    (by decide)

/-! ### The block tasks -/

section Runs

variable [GameDigest] [RatingFunctions]

/-- **The block tasks never fail** on a chain under the rules since the tenth hard fork, as long as no
player in a game has asked for an amount in another asset than the core asset and no voting has votes
for three contents. -/
theorem processBlockTasks_total
    (h : ReachableIf (fun d event ↦ event.SinceHardfork10 d ∧ ¬event.Foreign d) time d)
    (hcontents : ∀ i v, d.tableVotings.find? i = some v → (contents v.votes).card ≤ 2)
    {now : TimePointSec} (hnow : d.headBlockTime ≤ now) (htime : hardforkPlaychain10Time ≤ now)
    (maintenance : Bool) :
    ∃ d', processBlockTasks { d with headBlockTime := now } maintenance = .ok d' := by
  have hd : Sound { core := True, clock := False } d.atHardfork10 :=
    .reachable (fun _ _ hallowed ↦ hallowed.1) (fun _ _ hallowed _ ↦ hallowed.2)
      (fun _ _ _ hf ↦ hf.elim) h
  have hd' := hd.at_time hnow htime
  obtain ⟨d', hd', -⟩ := (processBlockTasks_ensures (E := fun _ ↦ False) hd'.wf hd'.votes
    (fun hf ↦ hf.elim) (fun hcore ↦ absurd trivial hcore)
    (fun i v hv hmany ↦ absurd (hcontents i v hv) (not_le.2 hmany)) maintenance).exists_ok
  exact ⟨d', hd'⟩

end Runs

/-- The owner and the first player vote for the result, the second player to cancel the game. -/
def disputedGame : List Event :=
  sampleGame ++ [sampleResultVote 6, sampleResultVote 7,
    .operation (.gameResultCheck ⟨1, 6, 8, {}⟩)]

/-- A voting has two contents, and none has more. -/
def Disputed (d : Database) : Prop :=
  (d.tableVotings.toList.any fun p ↦ (@contents sampleDigest p.2.votes).card = 2) = true ∧
    ∀ p ∈ d.tableVotings.toList, (@contents sampleDigest p.2.votes).card ≤ 2

instance : DecidablePred Disputed := fun _ ↦ inferInstanceAs (Decidable (_ ∧ _))

theorem processBlockTasks_total_game : ∃ d,
    @ReachableIf sampleDigest sampleRating (fun d event ↦ event.SinceHardfork10 d ∧ ¬event.Foreign d)
      hardforkPlaychain9Time d ∧ PlaysAtFirst d ∧ Disputed d ∧
      ∃ d', @processBlockTasks sampleDigest { d with headBlockTime := d.headBlockTime + 3 } false =
        .ok d' := by
  obtain ⟨d, hd, hplays, hdisputed, htime⟩ := @exists_reachableIf_of_run hardforkPlaychain9Time sampleDigest
    sampleRating (fun d event ↦ event.SinceHardfork10 d ∧ ¬event.Foreign d) _ disputedGame 9 sampleClaimed
    (fun d ↦ PlaysAtFirst d ∧ Disputed d ∧ hardforkPlaychain10Time ≤ d.headBlockTime) _ (by decide)
  exact ⟨d, hd, hplays, hdisputed, @processBlockTasks_total _ _ sampleDigest sampleRating hd
    (fun i v hv ↦ hdisputed.2 (i, v) (ObjectIndex.find?_eq_some_iff.1 hv)) _ (Nat.le_add_right _ 3)
    (htime.trans (Nat.le_add_right _ 3)) false⟩

/-- A player in the game asks for an amount in another asset, then the game ends. -/
def foreignBuyOut : List Event :=
  sampleGame ++ [
    .operation (.buyOutTable { player := 7, table := 1, tableOwner := 6, amount := ⟨10, 5⟩ }),
    sampleResultVote 6, sampleResultVote 7, sampleResultVote 8,
    .headBlock (hardforkPlaychain11Time + 6)]

/-- The tasks of a reachable state fail: after an accepted buy-out in another asset, under the rules since
the tenth hard fork; and without one under the rules of the ninth, when a kept voting is joined by a start
vote. -/
theorem processBlockTasks_fails :
    (∃ d, @ReachableSince10 sampleDigest sampleRating hardforkPlaychain9Time d ∧
      (@processBlockTasks sampleDigest d false).toOption.isNone = true) ∧
    ∃ d, @ReachableIf sampleDigest sampleRating (fun d event ↦ ¬event.Foreign d)
      hardforkPlaychain9Time d ∧ (@processBlockTasks sampleDigest d false).toOption.isNone = true :=
  ⟨@exists_reachableIf_of_run _ sampleDigest sampleRating _ _ foreignBuyOut 9 sampleClaimed
      (fun d ↦ (@processBlockTasks sampleDigest d false).toOption.isNone = true) _ (by decide),
    @exists_reachableIf_of_run _ sampleDigest sampleRating (fun d event ↦ ¬event.Foreign d) _
      (keptVoting ++ [
        .operation (.buyInTable { player := 7, table := 1, tableOwner := 6, amount := ⟨10, 0⟩ }),
        .operation (.buyInTable { player := 8, table := 1, tableOwner := 6, amount := ⟨10, 0⟩ }),
        sampleStartVote 9, .headBlock (hardforkPlaychain9Time + 12)]) 10
      (sampleClaimed ++ [(9, { amount := 1000 })])
      (fun d ↦ (@processBlockTasks sampleDigest d false).toOption.isNone = true) _ (by decide)⟩

end Playchain
