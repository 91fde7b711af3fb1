import Playchain.Spec.Accepted
import Playchain.Spec.BlockTasks
import Playchain.Spec.Maintenance

/-!
# Runs of the chain

Under the rules since the tenth hard fork every event keeps the invariant (`Sound.run`). A chain may
start earlier: as long as there are no operations and no block tasks before the hard fork, its states
have the invariant but for their time, from genesis on (`Sound.genesis`, `Sound.reachable`).

Two parts of the invariant hold only in runs that avoid something: pending buy-outs are in the core
asset when no accepted operation asks for another one (`mode.core`), and every game has a deadline when
deadlines fit (`mode.clock`).
-/

namespace Playchain

variable {mode : Mode} {d d' : Database} {time : TimePointSec}

/-! ### One event -/

/-- The invariant of a run. -/
structure Sound (mode : Mode) (d : Database) : Prop where
  wf : WellFormed mode d
  votes : VotesOk idle d

theorem Sound.maintained (h : Sound mode d) (hm : Maintained d d') : Sound mode d' :=
  ⟨hm.wellFormed h.wf, hm.votesOk h.votes⟩

/-- The time of the head block matters to nothing but the rules. -/
theorem Sound.setTime (h : Sound mode d) (hle : d.headBlockTime ≤ time) :
    Sound mode { d with headBlockTime := time } :=
  ⟨{ h.wf with time := h.wf.time.trans hle }, { h.votes with }⟩

/-- The event asks for an amount that is not in the core asset. -/
def Event.Foreign (d : Database) : Event → Prop
  | operation op => op.Foreign d
  | _ => False

instance (d : Database) (event : Event) : Decidable (event.Foreign d) :=
  match event with
  | .operation op => inferInstanceAs (Decidable (op.Foreign d))
  | .headBlock _ | .blockTasks _ | .pendingFees | .roomRating _ | .tableWeight | .elsewhere _ =>
    inferInstanceAs (Decidable False)

/-- Nothing is said about the votings of a table. -/
theorem VoteRule.trivial {t : TableObject} {op : VoteOperation} {votingSeconds : ℕ}
    {pv : PercentType} {requiredWitnesses : FlatSet GameWitnessId} :
    VoteRule d t op votingSeconds pv requiredWitnesses fun _ _ ↦ True :=
  ⟨fun _ _ _ _ _ _ ↦ True.intro, fun _ _ _ _ _ _ ↦ True.intro,
    fun _ _ _ _ _ _ _ _ _ _ _ ↦ True.intro, fun _ _ _ _ ↦ True.intro⟩

/-- The errors an operation may be refused with. -/
def refused : ChainError → Prop
  | .assertion _ => True
  | .missingObject => True
  | _ => False

theorem refusals_refused : Refusals refused := ⟨fun _ ↦ trivial, trivial⟩

section Runs

variable [GameDigest] [RatingFunctions]

theorem Event.headBlock_eq_ok (h : (Event.headBlock time).run d = .ok d') :
    d.headBlockTime < time ∧ time < TimePointSec.maximum ∧
      d' = { d with headBlockTime := time } := by
  obtain ⟨_, hassert, h⟩ := Except.bind_eq_ok.1 h
  obtain ⟨hlt, hmax⟩ := fcAssert_eq_ok.1 hassert
  exact ⟨hlt, hmax, (Except.pure_eq_ok.1 h).symm⟩

theorem Event.elsewhere_eq_ok {s : Surroundings} (h : (Event.elsewhere s).run d = .ok d') :
    s.Follows d ∧ d' = d.surround s := by
  obtain ⟨_, hassert, h⟩ := Except.bind_eq_ok.1 h
  exact ⟨fcAssert_eq_ok.1 hassert, (Except.pure_eq_ok.1 h).symm⟩

/-- An event of maintenance, or of the rest of the chain. -/
theorem Event.maintained {event : Event} (h : event.run d = .ok d')
    (hop : ∀ op, event ≠ .operation op) (htime : ∀ time, event ≠ .headBlock time)
    (htasks : ∀ maintenance, event ≠ .blockTasks maintenance) : Maintained d d' := by
  cases event with
  | operation op => exact absurd rfl (hop op)
  | headBlock time => exact absurd rfl (htime time)
  | blockTasks maintenance => exact absurd rfl (htasks maintenance)
  | pendingFees => exact (depositPendingFees_maintained d).of_ok h
  | roomRating entropy => exact (updateRoomRating_maintained d entropy).of_ok h
  | tableWeight => exact (updateTableWeight_maintained d).of_ok h
  | elsewhere s =>
    rw [(Event.elsewhere_eq_ok h).2]
    exact .surround d s

/-- **Every event keeps the invariant.** -/
theorem Sound.run (h : Sound mode d) {event : Event} (hcore : mode.core → ¬event.Foreign d)
    (hclock : mode.clock → d.DeadlineFits) (he : event.run d = .ok d') : Sound mode d' := by
  cases event with
  | operation op =>
    have hop := (applyOperation_ensures h.wf h.votes refusals_refused op hcore
      fun _ _ _ _ ↦ VoteRule.trivial).of_ok he
    rcases hop with hkept | ⟨vote, t, d₁, -, hcounted⟩
    · exact ⟨hkept.transfer.wf, hkept.votes⟩
    · exact ⟨hcounted.transfer.wf, hcounted.votes.of_frame hcounted.transfer.frame⟩
  | headBlock time =>
    obtain ⟨hlt, -, rfl⟩ := Event.headBlock_eq_ok he
    exact h.setTime hlt.le
  | blockTasks maintenance =>
    obtain ⟨d₁, d₂, d₃, d₄, d₅, htasks⟩ := (processBlockTasks_ensures (E := fun _ ↦ True) h.wf h.votes
      hclock (fun _ _ ↦ trivial) (fun _ _ _ _ ↦ trivial) maintenance).of_ok he
    exact ⟨(htasks.transfer h.wf).wf, htasks.votesOk⟩
  | pendingFees => exact h.maintained (Event.maintained he (by simp) (by simp) (by simp))
  | roomRating entropy => exact h.maintained (Event.maintained he (by simp) (by simp) (by simp))
  | tableWeight => exact h.maintained (Event.maintained he (by simp) (by simp) (by simp))
  | elsewhere s => exact h.maintained (Event.maintained he (by simp) (by simp) (by simp))

end Runs

/-! ### The tenth hard fork -/

/-- The event happens under the rules since the tenth hard fork, or is none that they are about. -/
def Event.SinceHardfork10 (d : Database) : Event → Prop
  | operation _ => hardforkPlaychain10Time ≤ d.headBlockTime
  | blockTasks _ => hardforkPlaychain10Time ≤ d.headBlockTime
  | _ => True

instance (d : Database) (event : Event) : Decidable (event.SinceHardfork10 d) :=
  match event with
  | .operation _ | .blockTasks _ =>
    inferInstanceAs (Decidable (hardforkPlaychain10Time ≤ d.headBlockTime))
  | .headBlock _ | .pendingFees | .roomRating _ | .tableWeight | .elsewhere _ =>
    inferInstanceAs (Decidable True)

/-- The database, but not before the tenth hard fork. -/
def Database.atHardfork10 (d : Database) : Database :=
  { d with headBlockTime := max d.headBlockTime hardforkPlaychain10Time }

theorem Database.atHardfork10_eq (h : hardforkPlaychain10Time ≤ d.headBlockTime) :
    d.atHardfork10 = d := by
  rw [Database.atHardfork10, max_eq_left h]

theorem Sound.at_time (h : Sound mode d.atHardfork10) (hle : d.headBlockTime ≤ time)
    (htime : hardforkPlaychain10Time ≤ time) : Sound mode { d with headBlockTime := time } :=
  h.setTime (max_le hle htime)

theorem Sound.atHardfork10 (h : Sound mode d) : Sound mode d.atHardfork10 :=
  (Database.atHardfork10_eq h.wf.time).symm ▸ h

/-- **Every event since the tenth hard fork keeps the invariant**, and those before it that are neither
operations nor block tasks. -/
theorem Sound.run_atHardfork10 [GameDigest] [RatingFunctions] (h : Sound mode d.atHardfork10)
    {event : Event} (hsince : event.SinceHardfork10 d) (hcore : mode.core → ¬event.Foreign d)
    (hclock : mode.clock → d.DeadlineFits) (he : event.run d = .ok d') :
    Sound mode d'.atHardfork10 := by
  -- the rest of the chain does not look at the time
  have hmaintained (hm : Maintained d d') : Sound mode d'.atHardfork10 :=
    h.maintained { hm with headBlockTime := congrArg (max · hardforkPlaychain10Time) hm.headBlockTime }
  have hlater (htime : hardforkPlaychain10Time ≤ d.headBlockTime) : Sound mode d'.atHardfork10 :=
    ((Database.atHardfork10_eq htime ▸ h).run hcore hclock he).atHardfork10
  cases event with
  | operation op => exact hlater hsince
  | headBlock time =>
    obtain ⟨hlt, -, rfl⟩ := Event.headBlock_eq_ok he
    exact h.at_time (hlt.le.trans (le_max_left _ _)) (le_max_right _ _)
  | blockTasks maintenance => exact hlater hsince
  | _ => exact hmaintained (Event.maintained he (by simp) (by simp) (by simp))

/-! ### Genesis -/

/-- Genesis creates players and balances only. -/
theorem initGenesis_eq {accounts : ℕ} {claimed : List (AccountId × Asset)}
    (h : initGenesis time accounts claimed = .ok d) :
    ∃ players balances, d = { nullDatabase time accounts with
      players := players, balances := balances } := by
  have hfold : (initGenesis time accounts claimed).Ensures (fun _ ↦ True) fun d ↦
      ∃ players balances, d = { nullDatabase time accounts with
        players := players, balances := balances } := by
    refine Except.Ensures.foldlM (fun d : Database ↦ ∃ players balances, d =
      { nullDatabase time accounts with players := players, balances := balances }) ?_
      ⟨(nullDatabase time accounts).players, ∅, rfl⟩
    rintro p - _ ⟨players, balances, rfl⟩
    refine (Except.Ensures.any _).bind fun _ _ ↦ (Except.Ensures.any _).bind fun players' _ ↦ ?_
    refine (adjustBalance_ensures _ p.1 p.2 fun _ _ ↦ trivial).mono ?_
    rintro d' ⟨b, rfl, -⟩
    exact ⟨players', b, rfl⟩
  exact hfold.of_ok h

section Genesis

variable (time : TimePointSec) (accounts : ℕ)

/-- The null table. -/
theorem nullDatabase_table {id : TableId} {t : TableObject}
    (h : (nullDatabase time accounts).tables.find? id = some t) :
    id = nullTable ∧ t = { room := nullRoom, gameExpiration := TimePointSec.maximum } := by
  rw [nullDatabase, ObjectIndex.find?_create] at h
  split_ifs at h with hid
  · exact ⟨hid, (Option.some.inj h).symm⟩
  · simp at h

/-- The null room. -/
theorem nullDatabase_room {id : RoomId} {r : RoomObject} :
    (nullDatabase time accounts).rooms.find? id = some r ↔
      id = nullRoom ∧ r = { owner := tempAccount } := by
  have heq : (nullDatabase time accounts).rooms.toObjectIndex =
    ObjectIndex.create ∅ { owner := tempAccount } := rfl
  rw [heq, ObjectIndex.find?_create]
  split_ifs with hid
  · exact ⟨fun h ↦ ⟨hid, (Option.some.inj h).symm⟩, fun h ↦ h.2 ▸ rfl⟩
  · exact ⟨fun h ↦ by simp at h, fun h ↦ absurd h.1 hid⟩

/-- The null reservation. -/
theorem nullDatabase_pendingBuyIn {id : PendingBuyInId} {b : PendingBuyInObject}
    (h : (nullDatabase time accounts).pendingBuyIns.find? id = some b) :
    id = nullPendingBuyIn ∧ b = {
      player := nullAccount
      expiration := TimePointSec.maximum
      playerInternal := nullPlayer } := by
  have heq : (nullDatabase time accounts).pendingBuyIns.toObjectIndex =
    ObjectIndex.create ∅ {
      player := nullAccount
      expiration := TimePointSec.maximum
      playerInternal := nullPlayer } := rfl
  rw [heq, ObjectIndex.find?_create] at h
  split_ifs at h with hid
  · exact ⟨hid, (Option.some.inj h).symm⟩
  · simp at h

end Genesis

/-- A table at which nobody has ever been is in order. -/
theorem TableOk.of_new {rooms : ObjectIndex RoomObject} {players : ObjectIndex PlayerObject}
    {t : TableObject} (hroom : rooms.Has t.room) (hcash : t.cash = ∅) (hplaying : t.playingCash = ∅)
    (hproposals : t.pendingProposals = ∅) (hplaces : t.occupiedPlaces = 0)
    (hoverdrawn : t.overdrawn = 0) : TableOk rooms players t where
  room := hroom
  cashes := ⟨hcash ▸ .empty, hplaying ▸ .empty⟩
  waiting p hp := by
    rw [hcash] at hp
    cases hp
  playing p hp := by
    rw [hplaying] at hp
    cases hp
  overdrawn := hoverdrawn
  seats := by
    rw [TableObject.SeatsOk, TableObject.seated, hcash, hplaying, hproposals, hplaces]
    rfl

/-- **The invariant at genesis.** -/
theorem Sound.genesis {accounts : ℕ} {claimed : List (AccountId × Asset)}
    (h : initGenesis time accounts claimed = .ok d) : Sound mode d.atHardfork10 := by
  obtain ⟨players, balances, rfl⟩ := initGenesis_eq h
  refine ⟨⟨le_max_right _ _, ?_, ?_, ?_, ?_, ?_, ?_, ?_, ?_, ?_, ?_, ?_, ?_⟩, ⟨?_, ?_, ?_, ?_, ?_⟩⟩
  · intro id t ht
    obtain ⟨-, rfl⟩ := nullDatabase_table time accounts ht
    exact .of_new ⟨_, (nullDatabase_room time accounts).2 ⟨rfl, rfl⟩⟩ rfl rfl rfl rfl rfl
  · intro t ht
    obtain ⟨-, rfl⟩ := nullDatabase_table time accounts ht
    rfl
  · intro id t p b ht hb
    obtain ⟨-, rfl⟩ := nullDatabase_table time accounts ht
    simp at hb
  · intro id b hb
    obtain ⟨rfl, rfl⟩ := nullDatabase_pendingBuyIn time accounts hb
    exact ⟨le_rfl, fun halloc ↦ by simp [PendingBuyInObject.isAllocated, nullTable] at halloc,
      Or.inl ⟨rfl, rfl⟩⟩
  · intro id m hm
    cases hm
  · intro id b hb
    cases hb
  · intro id b hb
    cases hb
  · intro id t ht _
    obtain ⟨-, rfl⟩ := nullDatabase_table time accounts ht
    exact ⟨fun _ ↦ rfl, fun _ hfree ↦ absurd hfree (by decide)⟩
  · intro id b hb
    cases hb
  · intro id t p ht _ hp
    obtain ⟨-, rfl⟩ := nullDatabase_table time accounts ht
    rcases hp with hp | hp
    · cases hp
    · cases hp
  · intro id a ha
    cases ha
  · intro id r hr
    obtain ⟨-, rfl⟩ := (nullDatabase_room time accounts).1 hr
    rfl
  · intro id v hv
    cases hv
  · intro id v t a x hv
    cases hv
  · intro id w hw
    cases hw
  · intro id w t hw
    cases hw
  · intro id w hw
    cases hw

/-! ### Reachable states -/

section Runs

variable [GameDigest] [RatingFunctions] {allowed : Database → Event → Prop}

/-- **Invariants of a chain.** What holds at genesis and is kept by every allowed event holds in every
state that is reached. -/
theorem ReachableIf.invariant {I : Database → Prop}
    (hgenesis : ∀ accounts claimed d, initGenesis time accounts claimed = .ok d → I d)
    (hrun : ∀ d d' event, I d → allowed d event → event.run d = .ok d' → I d')
    (h : ReachableIf allowed time d) : I d := by
  obtain ⟨accounts, claimed, d₀, hd₀, hsteps⟩ := h
  refine Relation.ReflTransGen.invariant I ?_ (hgenesis accounts claimed d₀ hd₀) hsteps
  rintro s s' hs ⟨event, hallowed, hevent⟩
  exact hrun s s' event hs hallowed hevent

/-- The states of a chain whose operations and block tasks all happen under the rules since the tenth
hard fork. -/
abbrev ReachableSince10 : TimePointSec → Database → Prop :=
  ReachableIf fun d event ↦ event.SinceHardfork10 d

/-- **The invariant holds in every reachable state**, under the rules since the tenth hard fork. -/
theorem Sound.reachable (hsince : ∀ d event, allowed d event → event.SinceHardfork10 d)
    (hcore : ∀ d event, allowed d event → mode.core → ¬event.Foreign d)
    (hclock : ∀ d event, allowed d event → mode.clock → d.DeadlineFits)
    (h : ReachableIf allowed time d) : Sound mode d.atHardfork10 :=
  h.invariant (I := fun d ↦ Sound mode d.atHardfork10) (fun _ _ _ hd ↦ .genesis hd) fun d _ event hd hallowed hevent ↦
    hd.run_atHardfork10 (hsince d event hallowed) (hcore d event hallowed) (hclock d event hallowed)
      hevent

theorem ReachableIf.mono {allowed' : Database → Event → Prop}
    (hallowed : ∀ d event, allowed d event → allowed' d event) (h : ReachableIf allowed time d) :
    ReachableIf allowed' time d := by
  obtain ⟨accounts, claimed, d₀, hd₀, hsteps⟩ := h
  refine ⟨accounts, claimed, d₀, hd₀, Relation.ReflTransGen.mono ?_ _ _ hsteps⟩
  rintro s s' ⟨event, ha, hevent⟩
  exact ⟨event, hallowed s event ha, hevent⟩

/-! ### Concrete runs -/

/-- A run of events that are allowed in the states in which they happen. -/
def runAllowed (allowed : Database → Event → Prop) [∀ d event, Decidable (allowed d event)]
    (d : Database) (events : List Event) : Except ChainError Database :=
  events.foldlM (fun d event ↦ do
    fcAssert (allowed d event) "allowed"
    event.run d) d

/-- The outcome of a list of allowed events from genesis. -/
def runFromGenesis (allowed : Database → Event → Prop) [∀ d event, Decidable (allowed d event)]
    (time : TimePointSec) (accounts : ℕ) (claimed : List (AccountId × Asset)) (events : List Event) :
    Except ChainError Database := do
  runAllowed allowed (← initGenesis time accounts claimed) events

section Concrete

variable [∀ d event, Decidable (allowed d event)] {events : List Event}

theorem reflTransGen_of_runAllowed (h : runAllowed allowed d events = .ok d') :
    Relation.ReflTransGen (StepIf allowed) d d' := by
  induction events generalizing d with
  | nil =>
    obtain rfl := Except.pure_eq_ok.1 h
    exact .refl
  | cons event events ih =>
    rw [runAllowed, List.foldlM_cons] at h
    obtain ⟨d₁, hevent, hrest⟩ := Except.bind_eq_ok.1 h
    obtain ⟨_, hassert, hevent⟩ := Except.bind_eq_ok.1 hevent
    exact .head ⟨event, fcAssert_eq_ok.1 hassert, hevent⟩ (ih hrest)

/-- A property of the outcome of a concrete run is a property of a reachable state. -/
theorem exists_reachableIf_of_run {accounts : ℕ} {claimed : List (AccountId × Asset)}
    {P : Database → Prop} [DecidablePred P]
    (h : (runFromGenesis allowed time accounts claimed events).toOption.any
      (fun d ↦ decide (P d)) = true) : ∃ d, ReachableIf allowed time d ∧ P d := by
  rcases hrun : runFromGenesis allowed time accounts claimed events with e | d
  · rw [hrun] at h
    cases h
  · rw [hrun] at h
    obtain ⟨d₀, hd₀, hevents⟩ := Except.bind_eq_ok.1 hrun
    exact ⟨d, ⟨accounts, claimed, d₀, hd₀, reflTransGen_of_runAllowed hevents⟩, of_decide_eq_true h⟩

end Concrete

theorem exists_reachable_of_run {accounts : ℕ} {claimed : List (AccountId × Asset)}
    {events : List Event} {P : Database → Prop} [DecidablePred P]
    (h : (runFromGenesis (fun _ _ ↦ True) time accounts claimed events).toOption.any
      (fun d ↦ decide (P d)) = true) : ∃ d, Reachable time d ∧ P d :=
  exists_reachableIf_of_run h

end Runs

/-- A digest that tells apart the contents of the concrete runs of this development. -/
@[reducible] def sampleDigest : GameDigest where
  digest
    | .gameInitialData data =>
      2 * data.cash.toList.foldl (fun n p ↦ (n * 2 ^ 16 + p.1) * 2 ^ 16 + p.2.amount.toNat) 1
    | .gameResult data =>
      2 * data.cash.toList.foldl (fun n p ↦
        ((n * 2 ^ 16 + p.1) * 2 ^ 16 + p.2.cash.amount.toNat) * 2 ^ 16 + p.2.rake.amount.toNat) 1 + 1

/-- Rating functions for the concrete runs: a room without measurements keeps its quantity factor, and
a quotient has to fit in 32 bits. -/
@[reducible] def sampleRating : RatingFunctions where
  fadedTimeFactor _ := 0
  quantityFactor _ := roomRatingPrecision
  toInteger n := do
    fcAssert (n < 2 ^ 32) "lo == lo32"
    return n

/-- Three accounts with money: a room owner and two players. -/
def sampleClaimed : List (AccountId × Asset) :=
  [(6, { amount := 1000 }), (7, { amount := 1000 }), (8, { amount := 1000 })]

/-- Both players bring the same amount to the game. -/
def sampleInitialData : GameInitialData where
  cash := ((∅ : FlatMap AccountId Asset).insert 7 { amount := 10 }).insert 8 { amount := 10 }

/-- A start vote at the first table. -/
def sampleStartVote (voter : AccountId) : Event :=
  .operation (.gameStartPlayingCheck ⟨1, 6, voter, sampleInitialData⟩)

/-- The owner opens a room with one table, and both players buy in. -/
def sampleTable : List Event :=
  [.operation (.roomCreate ⟨6, "url", "room", "1.0.0"⟩),
    .operation (.tableCreate ⟨6, 1, "table", 0, { amount := 1 }⟩),
    .operation (.buyInTable { player := 7, table := 1, tableOwner := 6, amount := { amount := 10 } }),
    .operation (.buyInTable { player := 8, table := 1, tableOwner := 6, amount := { amount := 10 } })]

/-- The owner and both players vote, and the next block starts the game. -/
def sampleGame : List Event :=
  .headBlock hardforkPlaychain11Time :: sampleTable ++ [sampleStartVote 6, sampleStartVote 7, sampleStartVote 8,
    .headBlock (hardforkPlaychain11Time + 3), .blockTasks false]

/-- There is a game at the first table. -/
def PlaysAtFirst (d : Database) : Prop :=
  (d.tables.find? 1).any (fun t ↦ t.isFree = false) = true

instance : DecidablePred PlaysAtFirst := fun _ ↦ inferInstanceAs (Decidable (_ = true))

/-- A chain on which a game is played. It starts under the rules of the ninth hard fork. -/
theorem exists_reachable_game : ∃ d, @ReachableSince10 sampleDigest sampleRating hardforkPlaychain9Time d ∧
    PlaysAtFirst d ∧ hardforkPlaychain11Time ≤ d.headBlockTime :=
  @exists_reachableIf_of_run _ sampleDigest sampleRating _ _ sampleGame 9 sampleClaimed
    (fun d ↦ PlaysAtFirst d ∧ hardforkPlaychain11Time ≤ d.headBlockTime) _ (by decide)

end Playchain
