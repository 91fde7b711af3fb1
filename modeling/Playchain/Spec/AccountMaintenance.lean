import Playchain.Graphene.AccountMaintenance
import Playchain.Spec.FeeConservation

/-!
# Each voting account is tallied once

The loop of `perform_account_maintenance` follows an order that its own turns change. It is right nevertheless
(`account_maintenance_exact`), because names do not change, and an account that needs maintenance and has not been visited
keeps needing it: its fees are only processed in its own turn, and cashback only adds to what lets it vote. So the iterator
goes up through the names, and every account that it passes without a visit had nothing to do.
-/

namespace Playchain

namespace FeeState

variable {s s' s₀ : FeeState}

/-! ### Core balances -/

/-- What the statistics of an account get as its balance of core. -/
def copiedBalance (s : FeeState) (id : AccountId) (x : FeeStatistics) : ℤ :=
  (s.coreBalances.find? id).elim x.coreInBalance fun b ↦ if b.maintenanceFlag then b.balance else x.coreInBalance

/-- The balances that have changed are copied. -/
structure Copied (s s' : FeeState) : Prop where
  rest : s' = { s with statistics := s'.statistics, coreBalances := s'.coreBalances }
  statisticsKeys : s'.statistics.keys = s.statistics.keys
  statistics : ∀ id x, s.statistics.find? id = some x →
    s'.statistics.find? id = some { x with coreInBalance := s.copiedBalance id x }
  balances : ∀ id, s'.coreBalances.find? id =
    (s.coreBalances.find? id).map fun b ↦ { b with maintenanceFlag := false }

/-- The number of balances that have changed. -/
def changedBalances (s : FeeState) : ℕ := s.coreBalances.sum fun _ b ↦ if b.maintenanceFlag then 1 else 0

theorem Copied.refl (h : ∀ id b, s.coreBalances.find? id = some b → b.maintenanceFlag = false) : Copied s s where
  rest := rfl
  statisticsKeys := rfl
  statistics id x hx := by
    have hcopied : s.copiedBalance id x = x.coreInBalance := by
      unfold copiedBalance
      cases hb : s.coreBalances.find? id with
      | none => rfl
      | some b => rw [Option.elim_some, if_neg (by rw [h id b hb]; exact Bool.false_ne_true)]
    rw [hcopied]
    exact hx
  balances id := by
    cases hb : s.coreBalances.find? id with
    | none => rfl
    | some b =>
      have hflag := h id b hb
      obtain ⟨_, flag⟩ := b
      dsimp only at hflag
      rw [Option.map_some, hflag]

/-- One balance is copied, and then the others. -/
theorem Copied.step {id : AccountId} {b : CoreBalance} (hb : s.coreBalances.find? id = some b)
    (hflag : b.maintenanceFlag = true)
    (h : Copied { s.modifyStatistics id (fun aso ↦ { aso with coreInBalance := b.balance }) with
      coreBalances := s.coreBalances.modify id fun b ↦ { b with maintenanceFlag := false } } s') : Copied s s' where
  rest := h.rest
  statisticsKeys := h.statisticsKeys.trans (FlatMap.keys_modify _ _ _)
  statistics j x hx := by
    by_cases hj : j = id
    · subst hj
      rw [h.statistics j { x with coreInBalance := b.balance } (by
        change (s.statistics.modify j _).find? j = _
        rw [FlatMap.find?_modify, if_pos rfl, hx]
        rfl)]
      have hcopied : s.copiedBalance j x = b.balance := by
        rw [copiedBalance, hb, Option.elim_some, if_pos hflag]
      rw [hcopied, copiedBalance]
      dsimp only
      rw [FlatMap.find?_modify, if_pos rfl, hb]
      rfl
    · rw [h.statistics j x (by
        change (s.statistics.modify id _).find? j = _
        rw [FlatMap.find?_modify, if_neg hj, hx])]
      unfold copiedBalance
      dsimp only
      rw [FlatMap.find?_modify, if_neg hj]
  balances j := by
    rw [h.balances j]
    dsimp only
    rw [FlatMap.find?_modify]
    split_ifs
    · rw [Option.map_map]
      rfl
    · rfl

theorem copyBalances_unchanged (order : LastBalance) (turns : ℕ)
    (h : ∀ id b, s.coreBalances.find? id = some b → b.maintenanceFlag = false) :
    copyBalances order turns s = some (.ok s) := by
  unfold copyBalances
  cases hlast : order.last s.coreBalances with
  | none => rfl
  | some id =>
    obtain ⟨b, hb⟩ := order.last_eq_some _ _ hlast
    dsimp only
    rw [hb]
    dsimp only
    rw [if_neg (by rw [h id b hb]; exact Bool.false_ne_true)]

/-- A turn of the first loop. -/
theorem copyBalances_succ (order : LastBalance) (turns : ℕ) {id : AccountId} {b : CoreBalance} {x : FeeStatistics}
    (hlast : order.last s.coreBalances = some id) (hb : s.coreBalances.find? id = some b)
    (hflag : b.maintenanceFlag = true) (hx : s.statistics.find? id = some x) :
    copyBalances order (turns + 1) s = copyBalances order turns
      { s.modifyStatistics id (fun aso ↦ { aso with coreInBalance := b.balance }) with
        coreBalances := s.coreBalances.modify id fun b ↦ { b with maintenanceFlag := false } } := by
  have hget : s.accountStats id = .ok x := by rw [accountStats, hx]
  conv_lhs => unfold copyBalances
  rw [hlast]
  dsimp only
  rw [hb]
  dsimp only
  rw [if_pos hflag, hget]
  rfl

/-- Either no balance has changed, or the last one has. -/
theorem unchanged_or_last (order : LastBalance) (s : FeeState) :
    (∀ id b, s.coreBalances.find? id = some b → b.maintenanceFlag = false) ∨
      ∃ id b, order.last s.coreBalances = some id ∧ s.coreBalances.find? id = some b ∧ b.maintenanceFlag = true := by
  refine or_iff_not_imp_left.mpr fun hnone ↦ ?_
  push Not at hnone
  obtain ⟨_, _, hchanged, hflag⟩ := hnone
  exact order.flag_of_last _ _ _ hchanged (Bool.eq_true_of_not_eq_false hflag)

/-- **The first loop ends**, and has copied what has changed. -/
theorem copyBalances_spec (order : LastBalance) (turns : ℕ) (s : FeeState) (hturns : s.changedBalances ≤ turns)
    (hstats : ∀ id b, s.coreBalances.find? id = some b → b.maintenanceFlag = true → id ∈ s.statistics.keys) :
    ∃ s', copyBalances order turns s = some (.ok s') ∧ Copied s s' := by
  induction turns generalizing s with
  | zero =>
    rcases unchanged_or_last order s with hnone | ⟨id, b, -, hb, hflag⟩
    · exact ⟨s, copyBalances_unchanged order 0 hnone, .refl hnone⟩
    · rw [changedBalances, FlatMap.sum_eq_add_erase _ hb, if_pos hflag] at hturns
      omega
  | succ turns ih =>
    rcases unchanged_or_last order s with hnone | ⟨id, b, hlast, hb, hflag⟩
    · exact ⟨s, copyBalances_unchanged order _ hnone, .refl hnone⟩
    obtain ⟨x, hx⟩ := FlatMap.mem_keys.mp (hstats id b hb hflag)
    rw [copyBalances_succ order turns hlast hb hflag hx]
    -- one balance less has changed
    have hfewer : changedBalances { s.modifyStatistics id (fun aso ↦ { aso with coreInBalance := b.balance }) with
        coreBalances := s.coreBalances.modify id fun b ↦ { b with maintenanceFlag := false } } ≤ turns := by
      rw [changedBalances, FlatMap.sum_eq_add_erase _ hb, if_pos hflag] at hturns
      unfold changedBalances
      dsimp only
      rw [FlatMap.sum_modify _ hb, if_neg Bool.false_ne_true]
      omega
    obtain ⟨s', hrun, hcopied⟩ := ih _ hfewer fun j c hc hflagc ↦ by
      dsimp only at hc
      rw [FlatMap.find?_modify] at hc
      change j ∈ (s.statistics.modify id _).keys
      rw [FlatMap.keys_modify]
      split_ifs at hc with hj
      · exact hj ▸ FlatMap.mem_keys.mpr ⟨x, hx⟩
      · exact hstats j c hc hflagc
    exact ⟨s', hrun, .step hb hflag hcopied⟩

/-! ### The order of the statistics -/

/-- The least of some statistics. -/
theorem argmin_spec (s : FeeState) (p : FeeStatistics → Bool) :
    (∀ id, ((s.statistics.toList.filter fun e ↦ p e.2).argmin fun e ↦ e.2.maintenanceSeq).map Prod.fst = some id →
      ∃ x, s.statistics.find? id = some x ∧ p x = true ∧
        ∀ j y, s.statistics.find? j = some y → p y = true → x.maintenanceSeq ≤ y.maintenanceSeq) ∧
    (((s.statistics.toList.filter fun e ↦ p e.2).argmin fun e ↦ e.2.maintenanceSeq).map Prod.fst = none →
      ∀ j y, s.statistics.find? j = some y → p y = false) := by
  have hmem : ∀ j y, s.statistics.find? j = some y → p y = true → (j, y) ∈ s.statistics.toList.filter fun e ↦ p e.2 :=
    fun j y hy hp ↦ List.mem_filter.mpr ⟨FlatMap.find?_eq_some_iff.mp hy, hp⟩
  constructor
  · intro id hid
    obtain ⟨e, he, rfl⟩ := Option.map_eq_some_iff.mp hid
    have hin := List.mem_filter.mp (List.argmin_mem he)
    refine ⟨e.2, FlatMap.find?_eq_some_iff.mpr hin.1, hin.2, fun j y hy hp ↦ ?_⟩
    exact List.le_of_mem_argmin (f := fun e : AccountId × FeeStatistics ↦ e.2.maintenanceSeq) (hmem j y hy hp) he
  · intro hnone j y hy
    have hempty := List.argmin_eq_none.mp (Option.map_eq_none_iff.mp hnone)
    by_contra hp
    have hin := hmem j y hy (Bool.eq_true_of_not_eq_false hp)
    rw [hempty] at hin
    cases hin

/-- The first one that needs maintenance. -/
theorem firstInSeq_spec (s : FeeState) :
    (∀ id, s.firstInSeq = some id → ∃ x, s.statistics.find? id = some x ∧ x.needMaintenance = true ∧
      ∀ j y, s.statistics.find? j = some y → y.needMaintenance = true → x.name ≤ y.name) ∧
    (s.firstInSeq = none → ∀ j y, s.statistics.find? j = some y → y.needMaintenance = false) := by
  obtain ⟨hsome, hnone⟩ := s.argmin_spec FeeStatistics.needMaintenance
  refine ⟨fun id hid ↦ ?_, hnone⟩
  obtain ⟨x, hx, hneed, hleast⟩ := hsome id hid
  refine ⟨x, hx, hneed, fun j y hy hneed' ↦ ?_⟩
  have hle := hleast j y hy hneed'
  rw [FeeStatistics.maintenanceSeq, FeeStatistics.maintenanceSeq, Prod.Lex.toLex_le_toLex, hneed, hneed'] at hle
  rcases hle with hlt | ⟨-, hle⟩
  · exact absurd hlt (lt_irrefl _)
  · exact hle

/-- The next one that needs maintenance, from one that does. -/
theorem nextInSeq_spec (s : FeeState) {x : FeeStatistics} (hneed : x.needMaintenance = true) :
    (∀ id, s.nextInSeq x = some id → ∃ y, s.statistics.find? id = some y ∧ y.needMaintenance = true ∧ x.name < y.name ∧
      ∀ j z, s.statistics.find? j = some z → z.needMaintenance = true → x.name < z.name → y.name ≤ z.name) ∧
    (s.nextInSeq x = none → ∀ j z, s.statistics.find? j = some z → x.name < z.name → z.needMaintenance = false) := by
  have hlt : ∀ y : FeeStatistics, x.maintenanceSeq < y.maintenanceSeq ↔ y.needMaintenance = true ∧ x.name < y.name := by
    intro y
    rw [FeeStatistics.maintenanceSeq, FeeStatistics.maintenanceSeq, Prod.Lex.toLex_lt_toLex, hneed]
    cases y.needMaintenance <;> simp
  obtain ⟨hsome, hnone⟩ := s.argmin_spec fun y ↦ x.maintenanceSeq < y.maintenanceSeq
  constructor
  · intro id hid
    obtain ⟨y, hy, hxy, hleast⟩ := hsome id hid
    obtain ⟨hneedy, hname⟩ := (hlt y).mp (of_decide_eq_true hxy)
    refine ⟨y, hy, hneedy, hname, fun j z hz hneedz hnamez ↦ ?_⟩
    have hle := hleast j z hz (decide_eq_true ((hlt z).mpr ⟨hneedz, hnamez⟩))
    rw [FeeStatistics.maintenanceSeq, FeeStatistics.maintenanceSeq, Prod.Lex.toLex_le_toLex, hneedy, hneedz] at hle
    rcases hle with hless | ⟨-, hle⟩
    · exact absurd hless (lt_irrefl _)
    · exact hle
  · intro hid j z hz hname
    by_contra hneedz
    have hnot := of_decide_eq_false (hnone hid j z hz)
    exact hnot ((hlt z).mpr ⟨Bool.eq_true_of_not_eq_false hneedz, hname⟩)

/-! ### The loop -/

end FeeState

/-- What maintenance does to statistics, fees apart. -/
structure FeeStatistics.Evolved (x y : FeeStatistics) : Prop where
  name : y.name = x.name
  isVoting : y.isVoting = x.isVoting
  totalCoreInOrders : y.totalCoreInOrders = x.totalCoreInOrders
  coreInBalance : y.coreInBalance = x.coreInBalance
  hasCashbackVb : x.hasCashbackVb = true → y.hasCashbackVb = true

namespace FeeStatistics

variable {x y : FeeStatistics}

/-- Who can vote can still vote. -/
theorem Evolved.hasSomeCoreVoting (h : Evolved x y) (hx : x.hasSomeCoreVoting = true) : y.hasSomeCoreVoting = true := by
  have hvotes := of_decide_eq_true hx
  refine decide_eq_true ⟨h.isVoting.trans hvotes.1, ?_⟩
  rw [h.totalCoreInOrders, h.coreInBalance]
  exact hvotes.2.imp_right fun hcore ↦ hcore.imp_right h.hasCashbackVb

theorem Evolved.needMaintenance (h : Evolved x y) (hfees : y.pendingFees = x.pendingFees)
    (hvested : y.pendingVestedFees = x.pendingVestedFees) (hx : x.needMaintenance = true) : y.needMaintenance = true := by
  have hpending : y.hasPendingFees = x.hasPendingFees := by
    rw [FeeStatistics.hasPendingFees, FeeStatistics.hasPendingFees, hfees, hvested]
  rw [FeeStatistics.needMaintenance, Bool.or_eq_true] at hx ⊢
  rw [hpending]
  exact hx.imp_left h.hasSomeCoreVoting

theorem hasSomeCoreVoting_eq_false (h : x.needMaintenance = false) : x.hasSomeCoreVoting = false :=
  (Bool.or_eq_false_iff.mp h).1

/-- Who does not need maintenance has no fees. -/
theorem pending_eq_zero (h : x.needMaintenance = false) (h₀ : 0 ≤ x.pendingFees) (h₀' : 0 ≤ x.pendingVestedFees) :
    x.pendingFees = 0 ∧ x.pendingVestedFees = 0 := by
  have hnone := of_decide_eq_false (Bool.or_eq_false_iff.mp h).2
  omega

end FeeStatistics

namespace FeeState

/-- What maintenance relies on: accounts and statistics belong together, names are unique, and fees are amounts. -/
structure Maintainable (s : FeeState) : Prop where
  wellFormed : s.WellFormed
  fair : ∀ id a, s.accounts.find? id = some a → a.Fair
  owners : ∀ id ∈ s.statistics.keys, id ∈ s.accounts.keys
  names : ∀ i j x y, s.statistics.find? i = some x → s.statistics.find? j = some y → x.name = y.name → i = j
  pendingFees : ∀ id x, s.statistics.find? id = some x → 0 ≤ x.pendingFees ∧ x.pendingFees < 2 ^ 63
  pendingVestedFees : ∀ id x, s.statistics.find? id = some x → 0 ≤ x.pendingVestedFees ∧ x.pendingVestedFees < 2 ^ 63
  balances : ∀ id b, s.coreBalances.find? id = some b → b.maintenanceFlag = true → id ∈ s.statistics.keys

/-- A name is behind the iterator. -/
def Behind (s₀ : FeeState) (itr : Option AccountId) (name : String) : Prop :=
  ∀ j x, itr = some j → s₀.statistics.find? j = some x → name < x.name

/-- **The invariant of the second loop**, which started in `s₀`. The accounts behind the iterator are done: their fees are
gone, and they have been tallied if they could vote at the start. The others have kept their fees. -/
structure Visiting (s₀ s : FeeState) (itr : Option AccountId) (tallies : Tallies) : Prop where
  wellFormed : s.WellFormed
  accountKeys : s.accounts.keys = s₀.accounts.keys
  fair : ∀ id a, s.accounts.find? id = some a → a.Fair
  evolved : ∀ id x, s₀.statistics.find? id = some x → ∃ y, s.statistics.find? id = some y ∧ x.Evolved y ∧
    (Behind s₀ itr x.name → y.pendingFees = 0 ∧ y.pendingVestedFees = 0) ∧
    (¬Behind s₀ itr x.name → y.pendingFees = x.pendingFees ∧ y.pendingVestedFees = x.pendingVestedFees)
  keys : s.statistics.keys = s₀.statistics.keys
  next : ∀ id, itr = some id → ∃ y, s.statistics.find? id = some y ∧ y.needMaintenance = true
  nodup : (tallies.map Prod.fst).Nodup
  behind : ∀ e ∈ tallies, ∃ x, s₀.statistics.find? e.1 = some x ∧ Behind s₀ itr x.name
  tallied : ∀ id x, s₀.statistics.find? id = some x → x.hasSomeCoreVoting = true → Behind s₀ itr x.name →
    id ∈ tallies.map Prod.fst

variable {itr : Option AccountId} {id : AccountId} {x : FeeStatistics} {tallies : Tallies}

/-- The statistics of an account, now and at the start. -/
theorem Visiting.start (h : Visiting s₀ s itr tallies) (hx : s.statistics.find? id = some x) :
    ∃ x₀, s₀.statistics.find? id = some x₀ ∧ x₀.Evolved x := by
  have hid : id ∈ s₀.statistics.keys := h.keys ▸ FlatMap.mem_keys.mpr ⟨x, hx⟩
  obtain ⟨x₀, hx₀⟩ := FlatMap.mem_keys.mp hid
  obtain ⟨y, hy, hevolved, -⟩ := h.evolved id x₀ hx₀
  obtain rfl := Option.some.inj (hx.symm.trans hy)
  exact ⟨x₀, hx₀, hevolved⟩

theorem Visiting.behind_iff (h : Visiting s₀ s (some id) tallies) (hx : s.statistics.find? id = some x) (name : String) :
    Behind s₀ (some id) name ↔ name < x.name := by
  obtain ⟨x₀, hx₀, hevolved⟩ := h.start hx
  rw [hevolved.name]
  constructor
  · intro hbehind
    exact hbehind id x₀ rfl hx₀
  · rintro hlt _ _ ⟨⟩ hy
    obtain rfl := Option.some.inj (hx₀.symm.trans hy)
    exact hlt

/-- What the iterator has reached is behind it when it has moved on. -/
theorem Visiting.behind_next (h : Visiting s₀ s (some id) tallies) (hneed : x.needMaintenance = true) {name : String}
    (hle : name ≤ x.name) : Behind s₀ (s.nextInSeq x) name := by
  intro j y₀ hj hy₀
  obtain ⟨y, hy, -, hlt, -⟩ := (s.nextInSeq_spec hneed).1 j hj
  obtain ⟨z, hz, hevolved, -⟩ := h.evolved j y₀ hy₀
  obtain rfl := Option.some.inj (hy.symm.trans hz)
  rw [← hevolved.name]
  exact lt_of_le_of_lt hle hlt

/-- **What the iterator passes over does not need maintenance.** -/
theorem Visiting.passed (h : Visiting s₀ s (some id) tallies) (hneed : x.needMaintenance = true) {j : AccountId}
    {y : FeeStatistics} (hy : s.statistics.find? j = some y) (hlt : x.name < y.name)
    (hbehind : Behind s₀ (s.nextInSeq x) y.name) : y.needMaintenance = false := by
  cases hnext : s.nextInSeq x with
  | none => exact (s.nextInSeq_spec hneed).2 hnext j y hy hlt
  | some k =>
    obtain ⟨z, hz, -, -, hleast⟩ := (s.nextInSeq_spec hneed).1 k hnext
    obtain ⟨z₀, hz₀, hevolved⟩ := h.start hz
    have hless := hbehind k z₀ hnext hz₀
    rw [← hevolved.name] at hless
    by_contra hneedy
    exact absurd (hleast j y hy (Bool.eq_true_of_not_eq_false hneedy) hlt) (not_le.mpr hless)

/-- What becomes of the statistics of another account. -/
theorem Visiting.other (h : Visiting s₀ s (some id) tallies) (h₀ : s₀.Maintainable)
    (hx : s.statistics.find? id = some x) (hneed : x.needMaintenance = true) {j : AccountId} (hne : j ≠ id)
    {y₀ y : FeeStatistics} (hy₀ : s₀.statistics.find? j = some y₀) (hy : s.statistics.find? j = some y)
    (hbehind : Behind s₀ (s.nextInSeq x) y₀.name) :
    (y.pendingFees = 0 ∧ y.pendingVestedFees = 0) ∧ (y₀.hasSomeCoreVoting = true → j ∈ tallies.map Prod.fst) := by
  obtain ⟨z, hz, hevolved, hdone, hkept⟩ := h.evolved j y₀ hy₀
  obtain rfl := Option.some.inj (hy.symm.trans hz)
  rcases lt_trichotomy y₀.name x.name with hlt | heq | hgt
  · have hvisited := (h.behind_iff hx _).mpr hlt
    exact ⟨hdone hvisited, fun hvotes ↦ h.tallied j y₀ hy₀ hvotes hvisited⟩
  · obtain ⟨x₀, hx₀, hevolvedx⟩ := h.start hx
    exact absurd (h₀.names j id y₀ x₀ hy₀ hx₀ (heq.trans hevolvedx.name)) hne
  · have hpassed : y.needMaintenance = false :=
      h.passed hneed hy (by rw [hevolved.name]; exact hgt) (by rw [hevolved.name]; exact hbehind)
    obtain ⟨hfees, hvested⟩ := hkept fun hvisited ↦ lt_asymm hgt ((h.behind_iff hx _).mp hvisited)
    refine ⟨FeeStatistics.pending_eq_zero hpassed (hfees ▸ (h₀.pendingFees j y₀ hy₀).1)
      (hvested ▸ (h₀.pendingVestedFees j y₀ hy₀).1), fun hvotes ↦ ?_⟩
    exact absurd (hevolved.hasSomeCoreVoting hvotes) (by
      rw [FeeStatistics.hasSomeCoreVoting_eq_false hpassed]
      exact Bool.false_ne_true)

/-- **A turn of the second loop keeps its invariant.** -/
theorem Visiting.step (h : Visiting s₀ s (some id) tallies) (h₀ : s₀.Maintainable)
    (hx : s.statistics.find? id = some x) (hneed : x.needMaintenance = true) (hs' : s'.WellFormed)
    (hprocessed : FeesProcessed id s s') :
    Visiting s₀ s' (s.nextInSeq x) (if x.hasSomeCoreVoting then tallies ++ [(id, x)] else tallies) := by
  obtain ⟨x₀, hx₀, hevolvedx⟩ := h.start hx
  have hreached : Behind s₀ (s.nextInSeq x) x₀.name := h.behind_next hneed hevolvedx.name.ge
  have hmem : ∀ j, j ∈ tallies.map Prod.fst →
      j ∈ (if x.hasSomeCoreVoting then tallies ++ [(id, x)] else tallies).map Prod.fst := by
    intro j hj
    split_ifs
    · rw [List.map_append]
      exact List.mem_append_left _ hj
    · exact hj
  -- the account of this turn has not been tallied before
  have hnew : id ∉ tallies.map Prod.fst := by
    intro hid
    obtain ⟨e, he, rfl⟩ := List.mem_map.mp hid
    obtain ⟨y₀, hy₀, hbehind⟩ := h.behind e he
    obtain rfl := Option.some.inj (hx₀.symm.trans hy₀)
    have hlt := (h.behind_iff hx _).mp hbehind
    rw [hevolvedx.name] at hlt
    exact lt_irrefl _ hlt
  refine
    { wellFormed := hs'
      accountKeys := hprocessed.accountKeys.trans h.accountKeys
      fair := fun j a ha ↦ ?_
      evolved := fun j y₀ hy₀ ↦ ?_
      keys := hprocessed.statisticsKeys.trans h.keys
      next := fun j hj ↦ ?_
      nodup := ?_
      behind := fun e he ↦ ?_
      tallied := fun j y₀ hy₀ hvotes hbehind ↦ ?_ }
  · have hj : j ∈ s.accounts.keys := hprocessed.accountKeys ▸ FlatMap.mem_keys.mpr ⟨a, ha⟩
    obtain ⟨b, hb⟩ := FlatMap.mem_keys.mp hj
    obtain ⟨_, _, ha'⟩ := hprocessed.accounts j b hb
    obtain rfl := Option.some.inj (ha'.symm.trans ha)
    exact ⟨(h.fair j b hb).sum_le, (h.fair j b hb).rewards_le⟩
  · by_cases hj : j = id
    · subst hj
      obtain rfl := Option.some.inj (hx₀.symm.trans hy₀)
      obtain ⟨c, hx', hc⟩ := hprocessed.own x hx
      refine ⟨_, hx', ⟨hevolvedx.name, hevolvedx.isVoting, hevolvedx.totalCoreInOrders, hevolvedx.coreInBalance, ?_⟩,
        fun _ ↦ ⟨rfl, rfl⟩, fun hnot ↦ absurd hreached hnot⟩
      exact fun hold ↦ hc (hevolvedx.hasCashbackVb hold)
    · obtain ⟨y, hy, hevolved, -, hkept⟩ := h.evolved j y₀ hy₀
      obtain ⟨c, hy', hc⟩ := hprocessed.others j y hj hy
      refine ⟨_, hy', ⟨hevolved.name, hevolved.isVoting, hevolved.totalCoreInOrders, hevolved.coreInBalance, ?_⟩,
        fun hbehind ↦ (h.other h₀ hx hneed hj hy₀ hy hbehind).1, fun hnot ↦ hkept fun hvisited ↦ hnot ?_⟩
      · exact fun hold ↦ hc (hevolved.hasCashbackVb hold)
      · exact h.behind_next hneed ((h.behind_iff hx _).mp hvisited).le
  · obtain ⟨y, hy, hneedy, hlt, -⟩ := (s.nextInSeq_spec hneed).1 j hj
    have hne : j ≠ id := by
      rintro rfl
      obtain rfl := Option.some.inj (hx.symm.trans hy)
      exact lt_irrefl _ hlt
    obtain ⟨c, hy', hc⟩ := hprocessed.others j y hne hy
    have hevolved : y.Evolved { y with hasCashbackVb := c } := ⟨rfl, rfl, rfl, rfl, hc⟩
    exact ⟨_, hy', hevolved.needMaintenance rfl rfl hneedy⟩
  · split_ifs
    · rw [List.map_append, List.map_singleton]
      refine List.nodup_append.mpr ⟨h.nodup, List.nodup_singleton _, fun j hj k hk heq ↦ ?_⟩
      rw [heq, List.mem_singleton.mp hk] at hj
      exact hnew hj
    · exact h.nodup
  · have hcases : e ∈ tallies ∨ e = (id, x) := by
      split_ifs at he
      · exact (List.mem_append.mp he).imp_right List.mem_singleton.mp
      · exact .inl he
    rcases hcases with hold | rfl
    · obtain ⟨y₀, hy₀, hbehind⟩ := h.behind e hold
      exact ⟨y₀, hy₀, h.behind_next hneed ((h.behind_iff hx _).mp hbehind).le⟩
    · exact ⟨x₀, hx₀, hreached⟩
  · by_cases hj : j = id
    · subst hj
      obtain rfl := Option.some.inj (hx₀.symm.trans hy₀)
      rw [if_pos (hevolvedx.hasSomeCoreVoting hvotes), List.map_append]
      exact List.mem_append_right _ (List.mem_singleton_self _)
    · obtain ⟨y, hy, -⟩ := h.evolved j y₀ hy₀
      exact hmem j ((h.other h₀ hx hneed hj hy₀ hy hbehind).2 hvotes)

/-- A turn of the second loop. -/
theorem maintainAccounts_succ (turns : ℕ) (h : Visiting s₀ s (some id) tallies) (h₀ : s₀.Maintainable)
    (hx : s.statistics.find? id = some x) :
    ∃ s', maintainAccounts (turns + 1) (some id) s tallies = maintainAccounts turns (s.nextInSeq x) s'
        (if x.hasSomeCoreVoting then tallies ++ [(id, x)] else tallies) ∧
      s'.WellFormed ∧ FeesProcessed id s s' := by
  obtain ⟨x₀, hx₀, hevolved⟩ := h.start hx
  have hid : id ∈ s.accounts.keys := h.accountKeys ▸ h₀.owners id (FlatMap.mem_keys.mpr ⟨x₀, hx₀⟩)
  obtain ⟨a, ha⟩ := FlatMap.mem_keys.mp hid
  have hget : s.account id = .ok a := by rw [account, ha]
  obtain ⟨y, hy, -, -, hkept⟩ := h.evolved id x₀ hx₀
  obtain rfl := Option.some.inj (hx.symm.trans hy)
  -- the fees of this account are still those of the start
  obtain ⟨hfees, hvested⟩ := hkept fun hbehind ↦ lt_irrefl _ (hbehind id x₀ rfl hx₀)
  have hrange := h₀.pendingFees id x₀ hx₀
  have hrange' := h₀.pendingVestedFees id x₀ hx₀
  rw [← hfees] at hrange
  rw [← hvested] at hrange'
  by_cases hpending : x.hasPendingFees = true
  · obtain ⟨s', hprocess, hs', hprocessed⟩ := processFees_spec h.wellFormed ha (h.fair id a ha) hx hrange.1 hrange.2
      hrange'.1 hrange'.2
    refine ⟨s', ?_, hs', hprocessed⟩
    rw [maintainAccounts, hx]
    dsimp only
    rw [hget]
    dsimp only
    rw [if_pos hpending, hprocess]
  · have hnone : ¬(0 < x.pendingFees ∨ 0 < x.pendingVestedFees) := fun hor ↦ hpending (decide_eq_true hor)
    refine ⟨s, ?_, h.wellFormed, .refl hx (by omega) (by omega)⟩
    rw [maintainAccounts, hx]
    dsimp only
    rw [hget]
    dsimp only
    rw [if_neg hpending]

/-- The accounts that are not behind the iterator. -/
noncomputable def ahead (s₀ : FeeState) (itr : Option AccountId) : Finset AccountId :=
  open Classical in s₀.statistics.keys.filter fun j ↦ ∃ y, s₀.statistics.find? j = some y ∧ ¬Behind s₀ itr y.name

theorem mem_ahead {j : AccountId} :
    j ∈ s₀.ahead itr ↔ ∃ y, s₀.statistics.find? j = some y ∧ ¬Behind s₀ itr y.name := by
  classical
  rw [ahead, Finset.mem_filter, and_iff_right_iff_imp]
  rintro ⟨y, hy, -⟩
  exact FlatMap.mem_keys.mpr ⟨y, hy⟩

/-- The iterator goes forward. -/
theorem Visiting.ahead_ssubset (h : Visiting s₀ s (some id) tallies) (hx : s.statistics.find? id = some x)
    (hneed : x.needMaintenance = true) : s₀.ahead (s.nextInSeq x) ⊂ s₀.ahead (some id) := by
  obtain ⟨x₀, hx₀, hevolved⟩ := h.start hx
  refine Finset.ssubset_iff_of_subset (fun j hj ↦ ?_) |>.mpr ⟨id, ?_, fun hid ↦ ?_⟩
  · obtain ⟨y, hy, hnot⟩ := mem_ahead.mp hj
    refine mem_ahead.mpr ⟨y, hy, fun hbehind ↦ hnot ?_⟩
    exact h.behind_next hneed ((h.behind_iff hx _).mp hbehind).le
  · exact mem_ahead.mpr ⟨x₀, hx₀, fun hbehind ↦ lt_irrefl _ (hbehind id x₀ rfl hx₀)⟩
  · obtain ⟨y, hy, hnot⟩ := mem_ahead.mp hid
    obtain rfl := Option.some.inj (hx₀.symm.trans hy)
    exact hnot (h.behind_next hneed hevolved.name.ge)

/-- **The second loop ends**, and keeps its invariant to the end. -/
theorem maintainAccounts_spec (h₀ : s₀.Maintainable) (turns : ℕ) (itr : Option AccountId) (s : FeeState)
    (tallies : Tallies) (hturns : (s₀.ahead itr).card ≤ turns) (h : Visiting s₀ s itr tallies) :
    ∃ s' tallies', maintainAccounts turns itr s tallies = some (.ok (s', tallies')) ∧ Visiting s₀ s' none tallies' := by
  induction turns generalizing itr s tallies with
  | zero =>
    cases itr with
    | none => exact ⟨s, tallies, rfl, h⟩
    | some id =>
      obtain ⟨x, hx, hneed⟩ := h.next id rfl
      have hfewer := Finset.card_lt_card (h.ahead_ssubset hx hneed)
      omega
  | succ turns ih =>
    cases itr with
    | none => exact ⟨s, tallies, rfl, h⟩
    | some id =>
      obtain ⟨x, hx, hneed⟩ := h.next id rfl
      obtain ⟨s', hturn, hs', hprocessed⟩ := maintainAccounts_succ turns h h₀ hx
      have hfewer := Finset.card_lt_card (h.ahead_ssubset hx hneed)
      rw [hturn]
      exact ih _ _ _ (by omega) (h.step h₀ hx hneed hs' hprocessed)

/-- The invariant holds at the start. -/
theorem Visiting.init (h₀ : s₀.Maintainable) : Visiting s₀ s₀ s₀.firstInSeq [] := by
  have hfirst : ∀ j y, s₀.statistics.find? j = some y → Behind s₀ s₀.firstInSeq y.name → y.needMaintenance = false := by
    intro j y hy hbehind
    cases hitr : s₀.firstInSeq with
    | none => exact s₀.firstInSeq_spec.2 hitr j y hy
    | some id =>
      obtain ⟨x, hx, -, hleast⟩ := s₀.firstInSeq_spec.1 id hitr
      by_contra hneed
      exact absurd (hleast j y hy (Bool.eq_true_of_not_eq_false hneed)) (not_le.mpr (hbehind id x hitr hx))
  refine
    { wellFormed := h₀.wellFormed
      accountKeys := rfl
      fair := h₀.fair
      evolved := fun j y hy ↦ ⟨y, hy, ⟨rfl, rfl, rfl, rfl, fun hold ↦ hold⟩, fun hbehind ↦ ?_, fun _ ↦ ⟨rfl, rfl⟩⟩
      keys := rfl
      next := fun id hid ↦ ?_
      nodup := List.nodup_nil
      behind := fun e he ↦ absurd he List.not_mem_nil
      tallied := fun j y hy hvotes hbehind ↦ ?_ }
  · exact FeeStatistics.pending_eq_zero (hfirst j y hy hbehind) (h₀.pendingFees j y hy).1 (h₀.pendingVestedFees j y hy).1
  · obtain ⟨x, hx, hneed, -⟩ := s₀.firstInSeq_spec.1 id hid
    exact ⟨x, hx, hneed⟩
  · rw [FeeStatistics.hasSomeCoreVoting_eq_false (hfirst j y hy hbehind)] at hvotes
    cases hvotes

/-- The copying of balances leaves what maintenance relies on. -/
theorem Copied.maintainable (h : Copied s s') (hs : s.Maintainable) : s'.Maintainable := by
  have hback : ∀ id x', s'.statistics.find? id = some x' → ∃ x, s.statistics.find? id = some x ∧
      x' = { x with coreInBalance := s.copiedBalance id x } := by
    intro id x' hx'
    have hid : id ∈ s.statistics.keys := h.statisticsKeys ▸ FlatMap.mem_keys.mpr ⟨x', hx'⟩
    obtain ⟨x, hx⟩ := FlatMap.mem_keys.mp hid
    exact ⟨x, hx, Option.some.inj (hx'.symm.trans (h.statistics id x hx))⟩
  have haccounts : s'.accounts = s.accounts := by rw [h.rest]
  have hvesting : s'.vestingBalances = s.vestingBalances := by rw [h.rest]
  refine ⟨⟨?_, ?_, ?_⟩, ?_, ?_, ?_, ?_, ?_, ?_⟩
  · rw [haccounts]
    exact hs.wellFormed.accounts
  · rw [haccounts, h.statisticsKeys]
    exact hs.wellFormed.statistics
  · rw [haccounts, hvesting]
    exact hs.wellFormed.cashback
  · rw [haccounts]
    exact hs.fair
  · rw [haccounts, h.statisticsKeys]
    exact hs.owners
  · intro i j x y hx hy hname
    obtain ⟨x₀, hx₀, rfl⟩ := hback i x hx
    obtain ⟨y₀, hy₀, rfl⟩ := hback j y hy
    exact hs.names i j x₀ y₀ hx₀ hy₀ hname
  · intro id x hx
    obtain ⟨x₀, hx₀, rfl⟩ := hback id x hx
    exact hs.pendingFees id x₀ hx₀
  · intro id x hx
    obtain ⟨x₀, hx₀, rfl⟩ := hback id x hx
    exact hs.pendingVestedFees id x₀ hx₀
  · intro id b hb hflag
    rw [h.balances id] at hb
    obtain ⟨c, -, rfl⟩ := Option.map_eq_some_iff.mp hb
    cases hflag

end FeeState

/-- **Each voting account is tallied once.** Whatever order the core balances have, the maintenance of accounts ends. The
balances that have changed are copied. Every account that can vote then is tallied, and no account twice. All pending fees
are processed. -/
theorem account_maintenance_exact (order : FeeState.LastBalance) (s : FeeState) (hs : s.Maintainable) :
    ∃ enough, ∀ turns ≥ enough, ∃ s₁ s₂ tallies, FeeState.copyBalances order turns s = some (.ok s₁) ∧
      FeeState.performAccountMaintenance order turns s = some (.ok (s₂, tallies)) ∧
      (∀ id x b, s.statistics.find? id = some x → s.coreBalances.find? id = some b → b.maintenanceFlag = true →
        s₁.statistics.find? id = some { x with coreInBalance := b.balance } ∧
        ∃ y, s₂.statistics.find? id = some y ∧ y.coreInBalance = b.balance) ∧
      (∀ id x, s₁.statistics.find? id = some x → x.hasSomeCoreVoting = true → (tallies.map Prod.fst).count id = 1) ∧
      (∀ id, (tallies.map Prod.fst).count id ≤ 1) ∧
      ∀ id x, s.statistics.find? id = some x → ∃ y, s₂.statistics.find? id = some y ∧ y.pendingFees = 0 ∧
        y.pendingVestedFees = 0 := by
  refine ⟨s.changedBalances + s.statistics.size, fun turns hturns ↦ ?_⟩
  obtain ⟨s₁, hcopy, hcopied⟩ := FeeState.copyBalances_spec order turns s (by omega) hs.balances
  have hs₁ := hcopied.maintainable hs
  have hahead : (s₁.ahead s₁.firstInSeq).card ≤ turns := by
    have hsubset : s₁.ahead s₁.firstInSeq ⊆ s₁.statistics.keys := by
      intro j hj
      obtain ⟨y, hy, -⟩ := FeeState.mem_ahead.mp hj
      exact FlatMap.mem_keys.mpr ⟨y, hy⟩
    have hle := Finset.card_le_card hsubset
    rw [hcopied.statisticsKeys, FlatMap.card_keys] at hle
    omega
  obtain ⟨s₂, tallies, hrun, hend⟩ := FeeState.maintainAccounts_spec hs₁ turns _ s₁ [] hahead (.init hs₁)
  have hall : ∀ name, FeeState.Behind s₁ none name := fun _ _ _ hnone ↦ by cases hnone
  refine ⟨s₁, s₂, tallies, hcopy, ?_, fun id x b hx hb hflag ↦ ?_, fun id x hx hvotes ↦ ?_,
    List.nodup_iff_count_le_one.mp hend.nodup, fun id x hx ↦ ?_⟩
  · rw [FeeState.performAccountMaintenance, hcopy]
    exact hrun
  · have hcopiedx := hcopied.statistics id x hx
    rw [FeeState.copiedBalance, hb, Option.elim_some, if_pos hflag] at hcopiedx
    obtain ⟨y, hy, hevolved, -⟩ := hend.evolved id _ hcopiedx
    exact ⟨hcopiedx, y, hy, hevolved.coreInBalance⟩
  · exact List.count_eq_one_of_mem hend.nodup (hend.tallied id x hx hvotes (hall _))
  · obtain ⟨y, hy, -, hdone, -⟩ := hend.evolved id _ (hcopied.statistics id x hx)
    exact ⟨y, hy, hdone (hall _)⟩

/-- An order of balances in which those with the flag come last, and otherwise the owners count. -/
def ownerOrder : FeeState.LastBalance where
  last m := ((m.toList.filter fun e ↦ e.2.maintenanceFlag).getLast?.or m.toList.getLast?).map Prod.fst
  last_eq_some m id h := by
    obtain ⟨e, he, rfl⟩ := Option.map_eq_some_iff.mp h
    refine ⟨e.2, FlatMap.find?_eq_some_iff.mpr ?_⟩
    rcases Option.or_eq_some_iff.mp he with hflag | ⟨-, hlast⟩
    · exact (List.mem_filter.mp (List.mem_of_getLast? hflag)).1
    · exact List.mem_of_getLast? hlast
  flag_of_last m id b hb hflag := by
    have hmem : (id, b) ∈ m.toList.filter fun e ↦ e.2.maintenanceFlag :=
      List.mem_filter.mpr ⟨FlatMap.find?_eq_some_iff.mp hb, hflag⟩
    have hlast := List.getLast?_eq_some_getLast (List.ne_nil_of_mem hmem)
    have hin := List.mem_filter.mp (List.mem_of_getLast? hlast)
    exact ⟨_, _, by rw [hlast, Option.some_or, Option.map_some], FlatMap.find?_eq_some_iff.mpr hin.1, hin.2⟩

/-- Both accounts vote, and the core balance of the one with fees has changed. The other one has no core until it gets
cashback. -/
def votingChain : FeeState :=
  { feeChain with
    statistics := ((∅ : FlatMap AccountId FeeStatistics).insert 17 { name := "lifetime", isVoting := true }).insert 18
      { name := "registered", isVoting := true, pendingFees := 1001, pendingVestedFees := 333 }
    coreBalances := (∅ : FlatMap AccountId CoreBalance).insert 18 { balance := 5000, maintenanceFlag := true } }

theorem maintainable_votingChain : votingChain.Maintainable where
  wellFormed := ⟨wellFormed_feeChain.accounts, by decide, wellFormed_feeChain.cashback⟩
  fair id a ha := by
    change feeChain.accounts.find? id = some a at ha
    rw [feeChain, FlatMap.find?_insert, FlatMap.find?_insert] at ha
    split_ifs at ha
    · obtain rfl := Option.some.inj ha
      exact percentagesSet_registeredAccount.fair
    · obtain rfl := Option.some.inj ha
      exact ⟨by decide, by decide⟩
    · cases ha
  owners := by decide
  names i j x y hx hy hname := by
    have hcases : ∀ i x, votingChain.statistics.find? i = some x →
        i = 18 ∧ x.name = "registered" ∨ i = 17 ∧ x.name = "lifetime" := by
      intro i x hx
      rw [votingChain, FlatMap.find?_insert, FlatMap.find?_insert] at hx
      split_ifs at hx with h h
      · cases hx
        exact .inl ⟨h, rfl⟩
      · cases hx
        exact .inr ⟨h, rfl⟩
      · cases hx
    rcases hcases i x hx with ⟨rfl, hi⟩ | ⟨rfl, hi⟩ <;> rcases hcases j y hy with ⟨rfl, hj⟩ | ⟨rfl, hj⟩
    · rfl
    · exact absurd (hi.symm.trans (hname.trans hj)) (by decide)
    · exact absurd (hi.symm.trans (hname.trans hj)) (by decide)
    · rfl
  pendingFees id x hx := by
    rw [votingChain, FlatMap.find?_insert, FlatMap.find?_insert] at hx
    split_ifs at hx
    all_goals cases hx
    all_goals decide
  pendingVestedFees id x hx := by
    rw [votingChain, FlatMap.find?_insert, FlatMap.find?_insert] at hx
    split_ifs at hx
    all_goals cases hx
    all_goals decide
  balances id b hb hflag := by
    rw [votingChain, FlatMap.find?_insert] at hb
    split_ifs at hb with hid
    · rw [hid]
      decide
    · cases hb

/-- The account with the changed balance is tallied once, and its fees are processed. -/
theorem account_maintenance_example :
    ∃ turns s₂ tallies, FeeState.performAccountMaintenance ownerOrder turns votingChain = some (.ok (s₂, tallies)) ∧
      (tallies.map Prod.fst).count 18 = 1 ∧ (tallies.map Prod.fst).count 17 ≤ 1 ∧
      ∃ y, s₂.statistics.find? 18 = some y ∧ y.pendingFees = 0 ∧ y.pendingVestedFees = 0 := by
  obtain ⟨enough, h⟩ := account_maintenance_exact ownerOrder votingChain maintainable_votingChain
  obtain ⟨s₁, s₂, tallies, -, hrun, hcopied, hvoting, honce, hfees⟩ := h enough le_rfl
  have hx₁ := (hcopied 18 _ _ rfl rfl rfl).1
  exact ⟨enough, s₂, tallies, hrun, hvoting 18 _ hx₁ (by decide), honce 17, hfees 18 _ rfl⟩

end Playchain
