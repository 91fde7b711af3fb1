import Playchain.Plugins.MarketHistory

/-!
# The volumes of the tickers

The volume of a market should be the sum of the maker's fills of the last day. The plugin keeps it by
adding and subtracting, and what it has added and not yet subtracted is the sum over the records that
the cursor has not passed (`unpassed`). Two things break this.

* A record that is removed before the cursor has passed it is never subtracted.
* A record under the cursor that is the newest of all is subtracted, but the cursor stays where it is,
  and in the next block the record is subtracted once more.

In a run without these (`Sound`), the records before the cursor are exactly those that are more than a
day old, and the volumes are exact (`ticker_volumes_exact`).
-/

namespace Playchain.MarketHistory

variable {options : Options} {s : State} {now lastDay : TimePointSec} {o : FillOrder}

/-! ### Volumes and sums -/

/-- One of the two assets of a market. -/
inductive Side where
  | base
  | quote

/-- The amount of one of the assets that a fill has moved. -/
def FillOrder.amount (o : FillOrder) : Side → ℤ
  | .base => o.tradePrice.base.amount
  | .quote => o.tradePrice.quote.amount

theorem FillOrder.amount_nonneg (o : FillOrder) (side : Side) : 0 ≤ o.amount side := by
  have hpays := o.paysShares.1
  have hreceives := o.receivesShares.1
  cases side <;> rw [amount, tradePrice] <;> split_ifs <;> assumption

theorem FillOrder.amount_lt (o : FillOrder) (side : Side) : o.amount side < 2 ^ 63 := by
  have hpays := o.paysShares.2
  have hreceives := o.receivesShares.2
  cases side <;> rw [amount, tradePrice] <;> split_ifs <;> assumption

/-- The volume of one of the assets. -/
def MarketTicker.volume (t : MarketTicker) : Side → ℕ
  | .base => t.baseVolume
  | .quote => t.quoteVolume

/-- The volume of a market, zero without a ticker. -/
def volumeOf (tickers : FlatMap Market MarketTicker) (side : Side) (m : Market) : ℕ :=
  ((tickers.find? m).map fun t ↦ t.volume side).getD 0

/-- What a maker's fill adds to the volume of a market. -/
def contribution (side : Side) (m : Market) (o : FillOrder) : ℤ :=
  if o.market = m then o.amount side else 0

theorem toUInt128_cast (x : ℤ) : (toUInt128 x : ℤ) = x.emod (2 ^ 128) :=
  Int.toNat_of_nonneg (Int.emod_nonneg _ (by decide))

/-- Sums that wrap after each step are the exact sum, wrapped once. -/
theorem toUInt128_add (x y : ℤ) : toUInt128 (toUInt128 x + y) = toUInt128 (x + y) := by
  rw [toUInt128, toUInt128_cast, toUInt128]
  exact congrArg Int.toNat (Int.emod_add_emod x (2 ^ 128) y)

theorem toUInt128_of_lt {x : ℤ} (h0 : 0 ≤ x) (h : x < 2 ^ 128) : (toUInt128 x : ℤ) = x := by
  rw [toUInt128_cast]
  exact Int.emod_eq_of_lt h0 h

theorem volumeOf_insert (tickers : FlatMap Market MarketTicker) (m m' : Market) (t : MarketTicker)
    (side : Side) :
    volumeOf (tickers.insert m' t) side m = if m = m' then t.volume side else volumeOf tickers side m := by
  rw [volumeOf, FlatMap.find?_insert]
  split_ifs
  · rfl
  · rfl

theorem volumeOf_addVolume {tickers : FlatMap Market MarketTicker} {side : Side} {m : Market} {x : ℤ}
    (h : volumeOf tickers side m = toUInt128 x) (o : FillOrder) :
    volumeOf (addVolume tickers o) side m = toUInt128 (x + contribution side m o) := by
  by_cases hm : m = o.market
  · subst hm
    rw [contribution, if_pos rfl, ← toUInt128_add, ← h, addVolume]
    rcases hfind : tickers.find? o.market with - | t
    · rw [volumeOf_insert, if_pos rfl, volumeOf, hfind]
      cases side <;> simp [MarketTicker.volume, FillOrder.amount]
    · rw [volumeOf_insert, if_pos rfl, volumeOf, hfind]
      cases side <;> rfl
  · rw [contribution, if_neg (Ne.symm hm), add_zero, ← h, addVolume]
    rcases tickers.find? o.market with - | t
    · rw [volumeOf_insert, if_neg hm]
    · rw [volumeOf_insert, if_neg hm]

theorem volumeOf_subtractVolume {tickers : FlatMap Market MarketTicker} {side : Side} {m : Market}
    {x : ℤ} (h : volumeOf tickers side m = toUInt128 x) {o : FillOrder}
    (ho : (tickers.find? o.market).isSome = true) :
    volumeOf (subtractVolume tickers o) side m = toUInt128 (x - contribution side m o) := by
  obtain ⟨t, hfind⟩ := Option.isSome_iff_exists.1 ho
  by_cases hm : m = o.market
  · subst hm
    rw [contribution, if_pos rfl, sub_eq_add_neg, ← toUInt128_add, ← h, subtractVolume, hfind]
    rw [volumeOf_insert, if_pos rfl, volumeOf, hfind]
    cases side <;> rfl
  · rw [contribution, if_neg (Ne.symm hm), sub_zero, ← h, subtractVolume, hfind]
    rw [volumeOf_insert, if_neg hm]

/-- Tickers are never removed. -/
theorem isSome_find?_addVolume {tickers : FlatMap Market MarketTicker} {m : Market} {o : FillOrder}
    (h : (tickers.find? m).isSome = true ∨ m = o.market) :
    ((addVolume tickers o).find? m).isSome = true := by
  rw [addVolume]
  rcases tickers.find? o.market with - | t
  all_goals
    rw [FlatMap.find?_insert]
    split_ifs with hm
    · rfl
    · exact h.resolve_right hm

theorem isSome_find?_subtractVolume {tickers : FlatMap Market MarketTicker} {m : Market}
    (h : (tickers.find? m).isSome = true) (o : FillOrder) :
    ((subtractVolume tickers o).find? m).isSome = true := by
  rw [subtractVolume]
  rcases tickers.find? o.market with - | t
  · exact h
  · rw [FlatMap.find?_insert]
    split_ifs
    · rfl
    · exact h

/-! ### Records and the cursor -/

/-- The cursor has passed a record. -/
def passed (cursor : Option MarketTickerMeta) (id : ℕ) : Bool :=
  match cursor with
  | none => false
  | some c => id < c.rollingMinOrderHisId ∨ (id = c.rollingMinOrderHisId ∧ c.skipMinOrderHisId = true)

theorem passed_some {c : MarketTickerMeta} {id : ℕ} : passed (some c) id = true ↔
    id < c.rollingMinOrderHisId ∨ (id = c.rollingMinOrderHisId ∧ c.skipMinOrderHisId = true) :=
  decide_eq_true_iff

/-- The maker's fills that are part of the volumes: their records are not passed yet. -/
def unpassed (s : State) : List (ℕ × OrderHistoryObject) :=
  s.orderHistory.toList.filter fun r ↦ r.2.op.isMaker ∧ passed s.tickerMeta r.1 = false

/-- The time and the operation of a record. -/
def entry (r : ℕ × OrderHistoryObject) : TimePointSec × FillOrder := (r.2.time, r.2.op)

/-- The maker's fills from a time on. -/
def fillsFrom (lastDay : TimePointSec) (log : List (TimePointSec × FillOrder)) :
    List (TimePointSec × FillOrder) :=
  log.filter fun f ↦ f.2.isMaker ∧ lastDay ≤ f.1

/-- What has been filled so far is `log`, and the volumes are those of the fills since `lastDay`. -/
structure Exact (now lastDay : TimePointSec) (log : List (TimePointSec × FillOrder)) (s : State) :
    Prop where
  cursor : ∀ c, s.tickerMeta = some c → c.rollingMinOrderHisId < s.orderHistory.nextId
  fresh : s.tickerMeta = none → s.orderHistory.toList = []
  times : s.orderHistory.toList.Pairwise fun a b ↦ a.2.time ≤ b.2.time
  past : ∀ r ∈ s.orderHistory.toList, r.2.time ≤ now
  entries : ((unpassed s).map entry).Perm (fillsFrom lastDay log)
  volumes : ∀ side m, volumeOf s.tickers side m =
    toUInt128 ((unpassed s).map fun r ↦ contribution side m r.2.op).sum
  tickers : ∀ r ∈ s.orderHistory.toList, r.2.op.isMaker = true →
    (s.tickers.find? r.2.op.market).isSome = true

/-- Before the first block. -/
theorem exact_empty : Exact 0 0 [] {} where
  cursor c h := by cases h
  fresh _ := rfl
  times := List.Pairwise.nil
  past r h := by cases h
  entries := List.Perm.refl _
  volumes side m := rfl
  tickers r h := by cases h

/-- The removals for a new fill spare the maker's records that the cursor has not passed. -/
def SparesUnpassed (options : Options) (now : TimePointSec) (s : State) (o : FillOrder) : Prop :=
  ∀ r ∈ oldRecords options now (record now s.orderHistory o) o.market
      (nextSequence s.orderHistory o.market),
    r.2.op.isMaker = true → passed (processFillOrder options now s o).tickerMeta r.1 = true

/-! ### A filled order -/

/-- Only records of the history are removed. -/
theorem mem_of_mem_oldRecords {history : ObjectIndex OrderHistoryObject} {m : Market} {sequence : ℤ}
    {r : ℕ × OrderHistoryObject} (h : r ∈ oldRecords options now history m sequence) :
    r ∈ history.toList := by
  have hkey : r ∈ byKey history m → r ∈ history.toList := fun h ↦
    List.mem_of_mem_filter ((List.perm_insertionSort _ _).mem_iff.1 h)
  have htime : r ∈ byMarketTime history m → r ∈ history.toList := fun h ↦
    List.mem_of_mem_filter ((List.perm_insertionSort _ _).mem_iff.1 h)
  rw [oldRecords] at h
  dsimp only at h
  split at h
  · cases h
  · split at h
    · cases h
    · split at h
      · exact hkey ((List.dropWhile_sublist _).subset h)
      · exact htime ((List.dropWhile_sublist _).subset h)

/-- The records after a fill. -/
theorem toList_processFillOrder (options : Options) (now : TimePointSec) (s : State) (o : FillOrder) :
    (processFillOrder options now s o).orderHistory.toList =
      (record now s.orderHistory o).toList.filter fun r ↦
        r.1 ∉ (oldRecords options now (record now s.orderHistory o) o.market
          (nextSequence s.orderHistory o.market)).map Prod.fst :=
  ObjectIndex.toList_foldl_remove _ _

theorem nextId_foldl_remove (x : ObjectIndex OrderHistoryObject)
    (l : List (ℕ × OrderHistoryObject)) :
    (l.foldl (fun x r ↦ x.remove r.1) x).nextId = x.nextId := by
  induction l generalizing x with
  | nil => rfl
  | cons r l ih => exact ih _

theorem nextId_processFillOrder (options : Options) (now : TimePointSec) (s : State) (o : FillOrder) :
    (processFillOrder options now s o).orderHistory.nextId = s.orderHistory.nextId + 1 :=
  nextId_foldl_remove _ _

/-- The new record. -/
def newRecord (now : TimePointSec) (s : State) (o : FillOrder) : ℕ × OrderHistoryObject :=
  (s.orderHistory.nextId,
    { key := ⟨o.market, nextSequence s.orderHistory o.market⟩, time := now, op := o })

theorem toList_record (now : TimePointSec) (s : State) (o : FillOrder) :
    (record now s.orderHistory o).toList = s.orderHistory.toList ++ [newRecord now s o] :=
  ObjectIndex.toList_create _ _

theorem mem_processFillOrder {r : ℕ × OrderHistoryObject}
    (h : r ∈ (processFillOrder options now s o).orderHistory.toList) :
    r ∈ s.orderHistory.toList ∨ r = newRecord now s o := by
  rw [toList_processFillOrder] at h
  have hr := List.mem_of_mem_filter h
  rwa [toList_record, List.mem_append, List.mem_singleton] at hr

/-- A fill is not passed when it is recorded, and nothing else changes about the others. -/
theorem unpassed_processFillOrder {log : List (TimePointSec × FillOrder)} {before : TimePointSec}
    (h : Exact before lastDay log s) (hspare : SparesUnpassed options now s o) :
    unpassed (processFillOrder options now s o) =
      unpassed s ++ if o.isMaker then [newRecord now s o] else [] := by
  have hold : ∀ r ∈ s.orderHistory.toList,
      passed (processFillOrder options now s o).tickerMeta r.1 = passed s.tickerMeta r.1 := by
    intro r hr
    rcases hmeta : s.tickerMeta with - | c
    · rw [h.fresh hmeta] at hr
      cases hr
    · simp only [processFillOrder, hmeta, Option.getD_some]
  have hnew : passed (processFillOrder options now s o).tickerMeta s.orderHistory.nextId = false := by
    rw [Bool.eq_false_iff, processFillOrder, Ne, passed_some]
    rcases hmeta : s.tickerMeta with - | c
    · simp
    · have hc := h.cursor c hmeta
      rw [Option.getD_some]
      omega
  rw [unpassed, toList_processFillOrder, List.filter_filter]
  have hfilter : ∀ r ∈ (record now s.orderHistory o).toList,
      (decide (r.2.op.isMaker = true ∧
          passed (processFillOrder options now s o).tickerMeta r.1 = false) &&
        decide (r.1 ∉ (oldRecords options now (record now s.orderHistory o) o.market
          (nextSequence s.orderHistory o.market)).map Prod.fst)) =
      decide (r.2.op.isMaker = true ∧
        passed (processFillOrder options now s o).tickerMeta r.1 = false) := by
    intro r hr
    rw [← Bool.decide_and, decide_eq_decide, and_iff_left_iff_imp]
    rintro ⟨hmaker, hpassed⟩ hmem
    obtain ⟨q, hq, hid⟩ := List.mem_map.1 hmem
    have hqr : q = r := List.inj_on_of_nodup_map (record now s.orderHistory o).objects.nodup_fst
      (mem_of_mem_oldRecords hq) hr hid
    have hq' := hspare q hq (by rw [hqr]; exact hmaker)
    rw [hqr, hpassed] at hq'
    cases hq'
  rw [List.filter_congr hfilter, toList_record, List.filter_append, unpassed]
  congr 1
  · refine List.filter_congr fun r hr ↦ ?_
    rw [hold r hr]
  · rw [List.filter_singleton]
    have hid : (newRecord now s o).1 = s.orderHistory.nextId := rfl
    have hop : (newRecord now s o).2.op = o := rfl
    rw [hid, hnew, hop]
    cases o.isMaker <;> rfl

/-- **A fill is added to the volumes.** -/
theorem Exact.fill {log : List (TimePointSec × FillOrder)} {before : TimePointSec}
    (h : Exact before lastDay log s) (hbefore : before ≤ now) (hday : lastDay ≤ now)
    (hspare : SparesUnpassed options now s o) :
    Exact now lastDay (log ++ [(now, o)]) (processFillOrder options now s o) where
  cursor c hc := by
    rw [nextId_processFillOrder]
    obtain rfl := Option.some.inj hc
    rcases hmeta : s.tickerMeta with - | c
    · exact Nat.lt_succ_self _
    · exact (h.cursor c hmeta).trans (Nat.lt_succ_self _)
  fresh hc := by cases hc
  times := by
    rw [toList_processFillOrder, toList_record]
    refine List.Pairwise.filter _ (List.pairwise_append.2 ⟨h.times, List.pairwise_singleton _ _, ?_⟩)
    intro a ha b hb
    rw [List.mem_singleton.1 hb]
    exact (h.past a ha).trans hbefore
  past r hr := by
    rcases mem_processFillOrder hr with hr | rfl
    · exact (h.past r hr).trans hbefore
    · exact le_rfl
  entries := by
    rw [unpassed_processFillOrder h hspare, List.map_append, fillsFrom, List.filter_append,
      ← fillsFrom]
    refine h.entries.append (List.Perm.of_eq ?_)
    rw [List.filter_singleton]
    cases hmaker : o.isMaker
    · simp
    · simp [hday, entry, newRecord]
  volumes side m := by
    rw [unpassed_processFillOrder h hspare, List.map_append, List.sum_append]
    have hop : (newRecord now s o).2.op = o := rfl
    rw [processFillOrder]
    dsimp only
    split_ifs
    · rw [volumeOf_addVolume (h.volumes side m), List.map_singleton, List.sum_singleton, hop]
    · rw [h.volumes, List.map_nil, List.sum_nil, add_zero]
  tickers r hr hmaker := by
    rw [processFillOrder]
    dsimp only
    rcases mem_processFillOrder hr with hr | rfl
    · split_ifs
      · exact isSome_find?_addVolume (.inl (h.tickers r hr hmaker))
      · exact h.tickers r hr hmaker
    · have hop : (newRecord now s o).2.op = o := rfl
      rw [hop] at hmaker ⊢
      rw [if_pos hmaker]
      exact isSome_find?_addVolume (.inr rfl)

/-! ### Rolling out -/

/-- In a list in which a property holds up to some place, the elements up to there are those with the
property. -/
theorem takeWhile_eq_filter {α : Type*} {P : α → Bool} {l : List α}
    (h : l.Pairwise fun a b ↦ P b = true → P a = true) :
    l.takeWhile P = l.filter P ∧ l.dropWhile P = l.filter fun a ↦ !P a := by
  induction l with
  | nil => exact ⟨rfl, rfl⟩
  | cons a l ih =>
    obtain ⟨ha, hl⟩ := List.pairwise_cons.1 h
    obtain ⟨htake, hdrop⟩ := ih hl
    cases hP : P a with
    | true => simp [hP, htake, hdrop]
    | false =>
      have hnone : ∀ b ∈ l, P b = false := fun b hb ↦ by
        rw [Bool.eq_false_iff]
        intro hPb
        rw [ha b hb hPb] at hP
        cases hP
      have hfilter : l.filter P = [] := List.filter_eq_nil_iff.2 fun b hb ↦ by simp [hnone b hb]
      have hfilter' : l.filter (fun a ↦ !P a) = l :=
        List.filter_eq_self.2 fun b hb ↦ by simp [hnone b hb]
      simp [hP, hfilter, hfilter']

/-- What the loop computes: it passes the records that are more than a day old and subtracts the maker's
fills among them, except the one it has to skip. -/
theorem rollLoop_eq (rolling : ℕ) (lastDay : TimePointSec) {l : List (ℕ × OrderHistoryObject)}
    (hl : (l.map Prod.fst).Nodup) (skip : Bool) (last : ℕ) (tickers : FlatMap Market MarketTicker) :
    rollLoop rolling lastDay l skip last tickers =
      (((l.dropWhile fun r ↦ r.2.time < lastDay).head?).map Prod.fst,
        (((l.takeWhile fun r ↦ r.2.time < lastDay).getLast?).map Prod.fst).getD last,
        ((l.takeWhile fun r ↦ r.2.time < lastDay).filter fun r ↦ r.2.op.isMaker ∧
          ¬(skip ∧ r.1 = rolling)).foldl (fun tickers r ↦ subtractVolume tickers r.2.op) tickers) := by
  induction l generalizing skip last tickers with
  | nil => rfl
  | cons r l ih =>
    obtain ⟨hr, hl⟩ := List.nodup_cons.1 hl
    rw [rollLoop]
    by_cases htime : r.2.time < lastDay
    · rw [if_pos htime, List.dropWhile_cons_of_pos (by simpa using htime),
        List.takeWhile_cons_of_pos (by simpa using htime)]
      have hlast : (((r :: l.takeWhile fun r ↦ decide (r.2.time < lastDay)).getLast?).map
          Prod.fst).getD last = (((l.takeWhile fun r ↦ decide (r.2.time < lastDay)).getLast?).map
          Prod.fst).getD r.1 := by
        rw [List.getLast?_cons]
        generalize (l.takeWhile fun r ↦ decide (r.2.time < lastDay)).getLast? = q
        cases q <;> rfl
      rw [hlast]
      by_cases hskip : skip = true ∧ r.1 = rolling
      -- the skipped record does not come up again
      · rw [if_pos hskip, ih hl, List.filter_cons_of_neg (by simp [hskip])]
        congr 3
        refine List.filter_congr fun q hq ↦ ?_
        have hne : q.1 ≠ rolling := by
          rintro heq
          have hq' := (List.takeWhile_sublist _).subset hq
          exact hr (List.mem_map.2 ⟨q, hq', heq.trans hskip.2.symm⟩)
        simp [hne]
      · rw [if_neg hskip, ih hl]
        cases hmaker : r.2.op.isMaker
        · rw [List.filter_cons_of_neg (by simp [hmaker])]
          simp
        · have hpos : decide (r.2.op.isMaker = true ∧ ¬(skip = true ∧ r.1 = rolling)) = true :=
            decide_eq_true ⟨hmaker, hskip⟩
          rw [List.filter_cons, if_pos hpos, List.foldl_cons]
          simp
    · rw [if_neg htime, List.dropWhile_cons_of_neg (by simpa using htime),
        List.takeWhile_cons_of_neg (by simpa using htime)]
      rfl

/-- Subtracting some maker's fills. -/
theorem volumeOf_foldl_subtractVolume {l : List (ℕ × OrderHistoryObject)} {side : Side} {m : Market}
    {x : ℤ} {tickers : FlatMap Market MarketTicker}
    (hl : ∀ r ∈ l, (tickers.find? r.2.op.market).isSome = true)
    (h : volumeOf tickers side m = toUInt128 x) :
    volumeOf (l.foldl (fun tickers r ↦ subtractVolume tickers r.2.op) tickers) side m =
      toUInt128 (x - (l.map fun r ↦ contribution side m r.2.op).sum) := by
  induction l generalizing x tickers with
  | nil => simpa using h
  | cons r l ih =>
    rw [List.foldl_cons, ih (fun q hq ↦ isSome_find?_subtractVolume
      (hl q (List.mem_cons_of_mem _ hq)) _) (volumeOf_subtractVolume h (hl r List.mem_cons_self)),
      List.map_cons, List.sum_cons, sub_sub]

theorem isSome_find?_foldl_subtractVolume {l : List (ℕ × OrderHistoryObject)} {m : Market}
    {tickers : FlatMap Market MarketTicker} (h : (tickers.find? m).isSome = true) :
    ((l.foldl (fun tickers r ↦ subtractVolume tickers r.2.op) tickers).find? m).isSome = true := by
  induction l generalizing tickers with
  | nil => exact h
  | cons r l ih => exact ih (isSome_find?_subtractVolume h _)

/-- The record under the cursor is the newest one of all, and it is about to be subtracted. -/
def stuck (lastDay : TimePointSec) (s : State) : Bool :=
  match s.tickerMeta, s.orderHistory.toList.getLast? with
  | some c, some r => c.skipMinOrderHisId = false ∧ r.1 = c.rollingMinOrderHisId ∧
      r.2.op.isMaker = true ∧ r.2.time < lastDay
  | _, _ => false

/-- The last entry of a list with increasing ids has the greatest id. -/
theorem le_getLast {l : List (ℕ × OrderHistoryObject)} (hl : l.Pairwise fun a b ↦ a.1 < b.1)
    {q r : ℕ × OrderHistoryObject} (hq : l.getLast? = some q) (hr : r ∈ l) : r.1 ≤ q.1 := by
  obtain ⟨before, rfl⟩ := List.getLast?_eq_some_iff.1 hq
  rcases List.mem_append.1 hr with hr | hr
  · exact ((List.pairwise_append.1 hl).2.2 r hr q (List.mem_singleton_self q)).le
  · rw [List.mem_singleton.1 hr]

/-- The last entry of a list is the last one of what is left after dropping some, if anything is. -/
theorem getLast?_dropWhile {α : Type*} {P : α → Bool} {l : List α} (h : l.dropWhile P ≠ []) :
    l.getLast? = (l.dropWhile P).getLast? := by
  have hl := List.takeWhile_append_dropWhile (p := P) (l := l)
  nth_rewrite 1 [← hl]
  exact List.getLast?_append_of_ne_nil _ h

/-- Entries that increase in two ways increase in both. -/
theorem le_of_lt_of_pairwise {l : List (ℕ × OrderHistoryObject)}
    (hl : l.Pairwise fun a b ↦ a.1 < b.1 ∧ a.2.time ≤ b.2.time) {q r : ℕ × OrderHistoryObject}
    (hq : q ∈ l) (hr : r ∈ l) (hlt : q.1 < r.1) : q.2.time ≤ r.2.time := by
  obtain ⟨before, after, rfl⟩ := List.append_of_mem hq
  obtain ⟨-, hafter, hcross⟩ := List.pairwise_append.1 hl
  rcases List.mem_append.1 hr with hr | hr
  · exact absurd (hcross r hr q List.mem_cons_self).1 hlt.asymm
  · rcases List.mem_cons.1 hr with rfl | hr
    · exact le_rfl
    · exact ((List.pairwise_cons.1 hafter).1 r hr).2

/-- The records from an id on. -/
theorem dropWhile_lt_eq_filter (x : ObjectIndex OrderHistoryObject) (rolling : ℕ) :
    (x.toList.dropWhile fun r ↦ r.1 < rolling) = x.toList.filter fun r ↦ !decide (r.1 < rolling) :=
  (takeWhile_eq_filter (x.objects.sorted.imp fun hab hb ↦ by
    rw [decide_eq_true_eq] at hb ⊢
    exact hab.trans hb)).2

/-- The records before a time, and from it on. -/
theorem takeWhile_time_eq_filter {l : List (ℕ × OrderHistoryObject)}
    (h : l.Pairwise fun a b ↦ a.2.time ≤ b.2.time) (lastDay : TimePointSec) :
    (l.takeWhile fun r ↦ r.2.time < lastDay) = l.filter (fun r ↦ r.2.time < lastDay) ∧
      (l.dropWhile fun r ↦ r.2.time < lastDay) = l.filter fun r ↦ !decide (r.2.time < lastDay) :=
  takeWhile_eq_filter (h.imp fun hab hb ↦ by
    rw [decide_eq_true_eq] at hb ⊢
    exact hab.trans_lt hb)

/-- **The cursor passes exactly what is more than a day old**, among the maker's fills, unless it is
stuck. -/
theorem passed_nextMeta (s : State) {c : MarketTickerMeta} (hc : s.tickerMeta = some c)
    (htimes : s.orderHistory.toList.Pairwise fun a b ↦ a.2.time ≤ b.2.time)
    (hstuck : stuck lastDay s = false) {r : ℕ × OrderHistoryObject} (hr : r ∈ s.orderHistory.toList)
    (hmaker : r.2.op.isMaker = true) :
    let records := s.orderHistory.toList.dropWhile fun r ↦ r.1 < c.rollingMinOrderHisId
    passed (some (nextMeta c (((records.dropWhile fun r ↦ r.2.time < lastDay).head?).map Prod.fst)
      ((((records.takeWhile fun r ↦ r.2.time < lastDay).getLast?).map Prod.fst).getD
        c.rollingMinOrderHisId))) r.1 = true ↔ passed (some c) r.1 = true ∨ r.2.time < lastDay := by
  intro records
  have hids : s.orderHistory.toList.Pairwise fun a b ↦ a.1 < b.1 := s.orderHistory.objects.sorted
  have hrecords : records = s.orderHistory.toList.filter fun r ↦ !decide
      (r.1 < c.rollingMinOrderHisId) := dropWhile_lt_eq_filter _ _
  have hsub : records.Sublist s.orderHistory.toList := List.dropWhile_sublist _
  have hsplit := takeWhile_time_eq_filter (htimes.sublist hsub) lastDay
  have hmem {q : ℕ × OrderHistoryObject} :
      q ∈ records ↔ q ∈ s.orderHistory.toList ∧ c.rollingMinOrderHisId ≤ q.1 := by
    rw [hrecords, List.mem_filter]
    simp
  -- records with greater ids are not older
  have hlater {q : ℕ × OrderHistoryObject} (hq : q ∈ s.orderHistory.toList) (hle : q.1 ≤ r.1) :
      q.2.time ≤ r.2.time := by
    rcases hle.eq_or_lt with heq | hlt
    · exact (List.inj_on_of_nodup_map s.orderHistory.objects.nodup_fst hq hr heq) ▸ le_rfl
    · have hboth := hids.and htimes
      exact le_of_lt_of_pairwise hboth hq hr hlt
  rcases hrest : records.dropWhile (fun r ↦ decide (r.2.time < lastDay)) with - | ⟨q, rest⟩
  -- the loop has reached the end
  · have hdue : records.takeWhile (fun r ↦ decide (r.2.time < lastDay)) = records := by
      have h := List.takeWhile_append_dropWhile (p := fun r : ℕ × OrderHistoryObject ↦
        decide (r.2.time < lastDay)) (l := records)
      rwa [hrest, List.append_nil] at h
    have hall {q : ℕ × OrderHistoryObject} (hq : q ∈ records) : q.2.time < lastDay := by
      rw [← hdue, hsplit.1] at hq
      exact of_decide_eq_true (List.mem_filter.1 hq).2
    have hright : passed (some c) r.1 = true ∨ r.2.time < lastDay := by
      rcases lt_or_ge r.1 c.rollingMinOrderHisId with hlt | hge
      · exact .inl (passed_some.2 (.inl hlt))
      · exact .inr (hall (hmem.2 ⟨hr, hge⟩))
    rw [hdue, hrest, List.head?_nil, Option.map_none, nextMeta]
    refine iff_of_true ?_ hright
    rcases hlast : records.getLast? with - | z
    · rw [Option.map_none, Option.getD_none, if_neg (not_not.2 rfl), passed_some]
      rw [List.getLast?_eq_none_iff] at hlast
      refine .inl (not_le.1 fun hge ↦ ?_)
      have hin := hmem.2 ⟨hr, hge⟩
      rw [hlast] at hin
      cases hin
    have hz := hmem.1 (List.mem_of_getLast? hlast)
    have hle (hge : c.rollingMinOrderHisId ≤ r.1) : r.1 ≤ z.1 :=
      le_getLast (hids.sublist hsub) hlast (hmem.2 ⟨hr, hge⟩)
    rw [Option.map_some, Option.getD_some]
    split_ifs with hne
    · rw [passed_some]
      rcases lt_or_ge r.1 c.rollingMinOrderHisId with hlt | hge
      · exact .inl (hlt.trans_le hz.2)
      · rcases (hle hge).lt_or_eq with hlt | heq
        · exact .inl hlt
        · exact .inr ⟨heq, rfl⟩
    · rw [not_not] at hne
      by_contra hnot
      rw [passed_some, not_or, not_lt, not_and] at hnot
      have hid : r.1 = c.rollingMinOrderHisId := le_antisymm ((hle hnot.1).trans_eq hne) hnot.1
      have hrz : z = r := List.inj_on_of_nodup_map s.orderHistory.objects.nodup_fst hz.1 hr
        (hne.trans hid.symm)
      have hlastAll : s.orderHistory.toList.getLast? = some r := by
        rw [← hrz, ← hlast]
        exact getLast?_dropWhile (List.ne_nil_of_mem (List.mem_of_getLast? hlast))
      have hskip := Bool.eq_false_iff.2 (hnot.2 hid)
      have hold := hall (hmem.2 ⟨hr, hnot.1⟩)
      simp [stuck, hc, hlastAll, hskip, hid, hmaker, hold] at hstuck
  -- the loop has stopped at `q`
  · have hq : q ∈ records ∧ ¬q.2.time < lastDay := by
      have hin : q ∈ records.dropWhile fun r ↦ decide (r.2.time < lastDay) := by
        rw [hrest]
        exact List.mem_cons_self
      rw [hsplit.2, List.mem_filter] at hin
      exact ⟨hin.1, by simpa using hin.2⟩
    have hqL := hmem.1 hq.1
    have hfirst (hge : c.rollingMinOrderHisId ≤ r.1) (htime : ¬r.2.time < lastDay) : q.1 ≤ r.1 := by
      have hin : r ∈ q :: rest := by
        rw [← hrest, hsplit.2, List.mem_filter]
        exact ⟨hmem.2 ⟨hr, hge⟩, by simpa using htime⟩
      have hpair := (hids.sublist hsub).sublist (List.dropWhile_sublist
        fun r : ℕ × OrderHistoryObject ↦ decide (r.2.time < lastDay))
      rw [hrest] at hpair
      rcases List.mem_cons.1 hin with rfl | hin
      · exact le_rfl
      · exact ((List.pairwise_cons.1 hpair).1 r hin).le
    have hyoung (hle : q.1 ≤ r.1) : ¬r.2.time < lastDay := fun hlt ↦
      hq.2 ((hlater hqL.1 hle).trans_lt hlt)
    rw [hrest, List.head?_cons, Option.map_some, nextMeta]
    rw [passed_some]
    split_ifs with hne
    · rw [passed_some]
      have := hqL.2
      constructor
      · rintro (hlt | ⟨-, hskip⟩)
        · dsimp only at hlt
          by_contra hnot
          rw [not_or, not_or, not_lt] at hnot
          exact absurd (hfirst hnot.1.1 hnot.2) (not_le.2 hlt)
        · cases hskip
      · rintro ((hlt | ⟨heq, -⟩) | hlt)
        · exact .inl (by dsimp only; omega)
        · exact .inl (by dsimp only; omega)
        · exact .inl (not_le.1 fun hle ↦ hyoung hle hlt)
    · rw [not_not] at hne
      rw [passed_some]
      refine ⟨.inl, ?_⟩
      rintro (h | hlt)
      · exact h
      · exact .inl (not_le.1 fun hle ↦ hyoung (hne.trans_le hle) hlt)

/-- The cursor stays below the next id. -/
theorem rolling_nextMeta_lt {c : MarketTickerMeta} {stop : Option ℕ} {last bound : ℕ}
    (hc : c.rollingMinOrderHisId < bound) (hstop : ∀ i, stop = some i → i < bound)
    (hlast : last < bound) : (nextMeta c stop last).rollingMinOrderHisId < bound := by
  unfold nextMeta
  rcases stop with - | i
  · dsimp only
    split_ifs
    · exact hlast
    · exact hc
  · dsimp only
    split_ifs
    · exact hstop i rfl
    · exact hc

/-- **Rolling out keeps the volumes exact**, unless the cursor is stuck. -/
theorem Exact.roll {log : List (TimePointSec × FillOrder)} {lastDay timestamp day : ℕ}
    (h : Exact now lastDay log s) (hday : (timestamp + 2 ^ 32 - 86400) % 2 ^ 32 = day)
    (hmono : lastDay ≤ day) (hstuck : stuck day s = false) :
    Exact now day log (rollOut timestamp s) := by
  rcases hc : s.tickerMeta with - | c
  · have hroll : rollOut timestamp s = s := by rw [rollOut, hc]
    have hnil := h.fresh hc
    have hentries := h.entries
    rw [unpassed, hnil, List.filter_nil, List.map_nil] at hentries
    rw [hroll]
    refine ⟨h.cursor, h.fresh, h.times, h.past, ?_, h.volumes, h.tickers⟩
    rw [unpassed, hnil, List.filter_nil, List.map_nil]
    have hempty := List.nil_perm.1 hentries
    refine List.Perm.of_eq (Eq.symm (List.filter_eq_nil_iff.2 fun f hf ↦ ?_))
    have hnot := List.filter_eq_nil_iff.1 hempty f hf
    rw [decide_eq_true_eq] at hnot ⊢
    exact fun hpair ↦ hnot ⟨hpair.1, hmono.trans hpair.2⟩
  · let records := s.orderHistory.toList.dropWhile fun r ↦ r.1 < c.rollingMinOrderHisId
    have hsub : records.Sublist s.orderHistory.toList := List.dropWhile_sublist _
    have hnodup : (records.map Prod.fst).Nodup :=
      s.orderHistory.objects.nodup_fst.sublist (hsub.map Prod.fst)
    have hpassed : ∀ r, passed s.tickerMeta r = true ↔ r < c.rollingMinOrderHisId ∨
        (r = c.rollingMinOrderHisId ∧ c.skipMinOrderHisId = true) := by
      intro r
      rw [hc]
      exact passed_some
    -- what the loop subtracts
    have hdue : ((records.takeWhile fun r ↦ r.2.time < day).filter fun r ↦
        r.2.op.isMaker ∧ ¬(c.skipMinOrderHisId ∧ r.1 = c.rollingMinOrderHisId)) =
        (unpassed s).filter fun r ↦ r.2.time < day := by
      rw [(takeWhile_time_eq_filter (h.times.sublist hsub) _).1, List.filter_filter,
        show records = _ from dropWhile_lt_eq_filter _ _, List.filter_filter, unpassed,
        List.filter_filter]
      refine List.filter_congr fun r _ ↦ ?_
      rw [Bool.eq_iff_iff]
      simp only [Bool.and_eq_true, decide_eq_true_eq, Bool.not_eq_true', ← Bool.not_eq_true, hpassed]
      clear hday
      tauto
    have hroll : rollOut timestamp s = { s with
        tickers := ((unpassed s).filter fun r ↦ r.2.time < day).foldl
          (fun tickers r ↦ subtractVolume tickers r.2.op) s.tickers
        tickerMeta := some (nextMeta c
          (((records.dropWhile fun r ↦ r.2.time < day).head?).map Prod.fst)
          ((((records.takeWhile fun r ↦ r.2.time < day).getLast?).map Prod.fst).getD
            c.rollingMinOrderHisId)) } := by
      rw [rollOut, hc]
      dsimp only
      rw [hday, rollLoop_eq _ _ hnodup, hdue]
    -- what is left of the volumes
    have hleft : unpassed (rollOut timestamp s) =
        (unpassed s).filter fun r ↦ !decide (r.2.time < day) := by
      rw [unpassed, hroll]
      dsimp only
      rw [unpassed]
      refine (List.filter_congr fun r hr ↦ ?_).trans List.filter_filter.symm
      cases hmaker : r.2.op.isMaker with
      | false => simp
      | true =>
        have hiff := passed_nextMeta s hc h.times hstuck hr hmaker
        dsimp only at hiff ⊢
        rw [Bool.eq_iff_iff]
        simp only [← Bool.not_eq_true, hc, Bool.and_eq_true, decide_eq_true_eq, Bool.not_eq_true']
        clear hday
        tauto
    have hmember : ∀ r ∈ unpassed s, r ∈ s.orderHistory.toList ∧ r.2.op.isMaker = true := by
      intro r hr
      obtain ⟨hr, hmaker⟩ := List.mem_filter.1 hr
      exact ⟨hr, (of_decide_eq_true hmaker).1⟩
    have hhistory : (rollOut timestamp s).orderHistory = s.orderHistory := by rw [hroll]
    refine ⟨fun c' hc' ↦ ?_, fun hc' ↦ ?_, by rw [hhistory]; exact h.times,
      by rw [hhistory]; exact h.past, ?_, fun side m ↦ ?_, fun r hr hmaker ↦ ?_⟩
    · rw [hroll, Option.some.injEq] at hc'
      rw [hhistory, ← hc']
      have hbound : ∀ q ∈ records, q.1 < s.orderHistory.nextId := fun q hq ↦
        s.orderHistory.lt_nextId q (hsub.subset hq)
      exact rolling_nextMeta_lt (h.cursor c hc)
        (fun i hi ↦ by
          obtain ⟨q, hq, rfl⟩ := Option.map_eq_some_iff.1 hi
          exact hbound q ((List.dropWhile_sublist _).subset (List.mem_of_mem_head? hq)))
        (by
          generalize hlast : (records.takeWhile fun r ↦ decide (r.2.time < day)).getLast? = last
          cases last with
          | none => exact h.cursor c hc
          | some q => exact hbound q ((List.takeWhile_sublist _).subset (List.mem_of_getLast? hlast)))
    · rw [hroll] at hc'
      cases hc'
    · rw [hleft]
      have hperm := (h.entries.filter fun f ↦ !decide (f.1 < day))
      rw [List.filter_map] at hperm
      refine hperm.trans (List.Perm.of_eq ?_)
      rw [fillsFrom, fillsFrom, List.filter_filter]
      refine List.filter_congr fun f _ ↦ ?_
      rw [Bool.eq_iff_iff]
      simp only [Bool.and_eq_true, decide_eq_true_eq, Bool.not_eq_true', decide_eq_false_iff_not,
        not_lt]
      exact ⟨fun hf ↦ ⟨hf.2.1, hf.1⟩, fun hf ↦ ⟨hf.2, hf.1, hmono.trans hf.2⟩⟩
    · rw [hleft, hroll]
      dsimp only
      rw [volumeOf_foldl_subtractVolume (fun r hr ↦ ?_) (h.volumes side m)]
      · have hperm := (List.filter_append_perm (fun r : ℕ × OrderHistoryObject ↦
          decide (r.2.time < day)) (unpassed s)).map fun r ↦ contribution side m r.2.op
        have hsum := hperm.sum_eq
        rw [List.map_append, List.sum_append] at hsum
        rw [← hsum, add_sub_cancel_left]
      · obtain ⟨hr, hmaker⟩ := hmember r (List.mem_of_mem_filter hr)
        exact h.tickers r hr hmaker
    · rw [hhistory] at hr
      rw [hroll]
      exact isSome_find?_foldl_subtractVolume (h.tickers r hr hmaker)

/-! ### Runs -/

/-- The filled orders of some blocks, with their times. -/
def fillsOf (blocks : List Block) : List (TimePointSec × FillOrder) :=
  blocks.flatMap fun b ↦ b.fills.map fun o ↦ (b.timestamp, o)

/-- A block that does not reach the two defects from the state `s`: no removal takes away a maker's
record that the cursor has not passed, and the cursor is not left under the newest record. -/
structure Sound (options : Options) (s : State) (b : Block) : Prop where
  spares : ∀ before o after, b.fills = before ++ o :: after → SparesUnpassed options b.timestamp
    (before.foldl (processFillOrder options b.timestamp) s) o
  moves : stuck (b.timestamp - 86400) (b.fills.foldl (processFillOrder options b.timestamp) s) = false

theorem Exact.fills {log : List (TimePointSec × FillOrder)} {before : TimePointSec}
    {fills : List FillOrder} (h : Exact before lastDay log s) (hbefore : before ≤ now)
    (hday : lastDay ≤ now)
    (hspare : ∀ done o after, fills = done ++ o :: after →
      SparesUnpassed options now (done.foldl (processFillOrder options now) s) o) :
    Exact now lastDay (log ++ fills.map fun o ↦ (now, o))
      (fills.foldl (processFillOrder options now) s) := by
  induction fills generalizing s log before with
  | nil =>
    rw [List.map_nil, List.append_nil]
    exact ⟨h.cursor, h.fresh, h.times, fun r hr ↦ (h.past r hr).trans hbefore, h.entries, h.volumes,
      h.tickers⟩
  | cons o fills ih =>
    have hfirst := h.fill hbefore hday (hspare [] o fills rfl)
    have hrest := ih hfirst le_rfl fun done o' after heq ↦ by
      have := hspare (o :: done) o' after (by rw [heq, List.cons_append])
      exact this
    rw [List.append_assoc] at hrest
    exact hrest

theorem shift_lastDay {timestamp : ℕ} (hday : 86400 ≤ timestamp) (hlt : timestamp < 2 ^ 32) :
    (timestamp + 2 ^ 32 - 86400) % 2 ^ 32 = timestamp - 86400 := by
  omega

/-- What a chain promises of the times of its blocks: they increase, are 32-bit numbers and lie after
the first day. -/
structure Timely (blocks : List Block) : Prop where
  increasing : blocks.Pairwise fun a b ↦ a.timestamp < b.timestamp
  range : ∀ b ∈ blocks, 86400 ≤ b.timestamp ∧ b.timestamp < 2 ^ 32

/-- The time of the last block. -/
def lastTime (blocks : List Block) : TimePointSec := (blocks.getLast?.map Block.timestamp).getD 0

theorem fillsOf_append (blocks : List Block) (b : Block) :
    fillsOf (blocks ++ [b]) = fillsOf blocks ++ b.fills.map fun o ↦ (b.timestamp, o) := by
  rw [fillsOf, List.flatMap_append, List.flatMap_singleton, ← fillsOf]

/-- **Every state of a sound run is exact.** -/
theorem exact_run {blocks : List Block} (htimely : Timely blocks)
    (hsound : ∀ before b after, blocks = before ++ b :: after → Sound options (run options before) b) :
    Exact (lastTime blocks) (lastTime blocks - 86400) (fillsOf blocks) (run options blocks) := by
  induction blocks using List.reverseRecOn with
  | nil => exact exact_empty
  | append_singleton blocks b ih =>
    have hincreasing := List.pairwise_append.1 htimely.increasing
    have hbefore : Timely blocks := ⟨hincreasing.1, fun c hc ↦
      htimely.range c (List.mem_append_left _ hc)⟩
    have hexact := ih hbefore fun before c after heq ↦
      hsound before c (after ++ [b]) (by rw [heq, List.append_assoc, List.cons_append])
    obtain ⟨hday, hlt⟩ := htimely.range b (List.mem_append_right _ (List.mem_singleton_self b))
    have hlast : lastTime blocks ≤ b.timestamp := by
      rw [lastTime]
      rcases hblocks : blocks.getLast? with - | c
      · exact Nat.zero_le _
      · exact (hincreasing.2.2 c (List.mem_of_getLast? hblocks) b (List.mem_singleton_self b)).le
    have hstep := hsound blocks b [] rfl
    have hlastb : lastTime (blocks ++ [b]) = b.timestamp := by
      rw [lastTime, List.getLast?_append]
      rfl
    rw [hlastb, fillsOf_append, run, List.foldl_append, ← run]
    have hfills := hexact.fills hlast ((Nat.sub_le _ _).trans hlast) hstep.spares
    exact hfills.roll (shift_lastDay hday hlt) (Nat.sub_le_sub_right hlast _) hstep.moves

/-- The volume of a market since a time. -/
def volumeSince (side : Side) (m : Market) (day : TimePointSec)
    (log : List (TimePointSec × FillOrder)) : ℤ :=
  ((fillsFrom day log).map fun f ↦ contribution side m f.2).sum

theorem contribution_nonneg (side : Side) (m : Market) (o : FillOrder) : 0 ≤ contribution side m o := by
  rw [contribution]
  split_ifs
  · exact o.amount_nonneg side
  · exact le_rfl

theorem contribution_lt (side : Side) (m : Market) (o : FillOrder) : contribution side m o < 2 ^ 63 := by
  rw [contribution]
  split_ifs
  · exact o.amount_lt side
  · decide

/-- Numbers of shares, as many as there are object ids, add up to less than 128 bits. -/
theorem volumeSince_range (side : Side) (m : Market) (day : TimePointSec)
    {log : List (TimePointSec × FillOrder)} (h : log.length ≤ 2 ^ 48) :
    0 ≤ volumeSince side m day log ∧ volumeSince side m day log < 2 ^ 128 := by
  have hbound : ∀ l : List (TimePointSec × FillOrder),
      0 ≤ (l.map fun f ↦ contribution side m f.2).sum ∧
        (l.map fun f ↦ contribution side m f.2).sum ≤ l.length * 2 ^ 63 := by
    intro l
    induction l with
    | nil => exact ⟨le_rfl, le_rfl⟩
    | cons f l ih =>
      have hnonneg := contribution_nonneg side m f.2
      have hlt := contribution_lt side m f.2
      rw [List.map_cons, List.sum_cons, List.length_cons]
      push_cast
      omega
  obtain ⟨hnonneg, hle⟩ := hbound (fillsFrom day log)
  have hlength : (fillsFrom day log).length ≤ 2 ^ 48 := (List.length_filter_le _ _).trans h
  refine ⟨hnonneg, hle.trans_lt ?_⟩
  have hcast : ((fillsFrom day log).length : ℤ) ≤ 2 ^ 48 := by exact_mod_cast hlength
  omega

/-- **The volumes of the tickers are exact** after every block of a run whose blocks are all sound: they
are the sums over the maker's fills of the last day. -/
theorem ticker_volumes_exact {blocks : List Block} {b : Block} (htimely : Timely (blocks ++ [b]))
    (hcount : (fillsOf (blocks ++ [b])).length ≤ 2 ^ 48)
    (hsound : ∀ before c after, blocks ++ [b] = before ++ c :: after →
      Sound options (run options before) c)
    {m : Market} {ticker : MarketTicker}
    (hticker : (run options (blocks ++ [b])).tickers.find? m = some ticker) (side : Side) :
    (ticker.volume side : ℤ) =
      volumeSince side m (b.timestamp - 86400) (fillsOf (blocks ++ [b])) := by
  have hexact := exact_run htimely hsound
  have hlast : lastTime (blocks ++ [b]) = b.timestamp := by
    rw [lastTime, List.getLast?_append]
    rfl
  rw [hlast] at hexact
  have hvolume := hexact.volumes side m
  rw [volumeOf, hticker, Option.map_some, Option.getD_some] at hvolume
  have hsum : ((unpassed (run options (blocks ++ [b]))).map fun r ↦ contribution side m r.2.op).sum =
      volumeSince side m (b.timestamp - 86400) (fillsOf (blocks ++ [b])) := by
    have hperm := (hexact.entries.map fun f ↦ contribution side m f.2).sum_eq
    rw [List.map_map] at hperm
    exact hperm
  obtain ⟨hnonneg, hlt⟩ := volumeSince_range side m (b.timestamp - 86400) hcount
  rw [hvolume, hsum, toUInt128_of_lt hnonneg hlt]

/-! ### Small markets -/

theorem shares_of_fin (n : Fin 1000) : 0 ≤ (n.val : ℤ) ∧ (n.val : ℤ) < 2 ^ 63 := by
  have := n.isLt
  omega

/-- One side of a trade of the assets 0 and 1. -/
def sampleFill (isMaker : Bool) (n : Fin 1000) : FillOrder where
  pays := ⟨n.val, 0⟩
  receives := ⟨n.val, 1⟩
  fillPrice := ⟨⟨n.val, 0⟩, ⟨n.val, 1⟩⟩
  isMaker := isMaker
  distinct := Nat.zero_ne_one
  paysShares := shares_of_fin n
  receivesShares := shares_of_fin n

/-- Both sides of a trade. -/
def sampleTrade (n : Fin 1000) : List FillOrder := [sampleFill false n, sampleFill true n]

/-- The market of the samples. -/
def sampleMarket : Market := toLex (0, 1)

/-- A property of all places of a list, by the place of its first element. -/
theorem forall_place_cons {α : Type*} {P : List α → α → Prop} {a : α} {l : List α} (ha : P [] a)
    (hl : ∀ before c after, l = before ++ c :: after → P (a :: before) c) :
    ∀ before c after, a :: l = before ++ c :: after → P before c := by
  rintro (- | ⟨a', before⟩) c after heq
  · obtain ⟨rfl, -⟩ := List.cons.inj heq
    exact ha
  · obtain ⟨rfl, htail⟩ := List.cons.inj heq
    exact hl before c after htail

theorem forall_place_nil {α : Type*} {P : List α → α → Prop} :
    ∀ before c after, ([] : List α) = before ++ c :: after → P before c := by
  intro before c after heq
  exact absurd heq.symm (by simp)

/-- Two trades, more than a day apart. -/
def sampleBlocks : List Block := [⟨100000, sampleTrade 10⟩, ⟨200000, sampleTrade 5⟩]

theorem ticker_volumes_exact_two : ∃ ticker,
    (run {} sampleBlocks).tickers.find? sampleMarket = some ticker ∧
      ∀ side, (ticker.volume side : ℤ) =
        volumeSince side sampleMarket (200000 - 86400) (fillsOf sampleBlocks) := by
  have hfind : ((run {} sampleBlocks).tickers.find? sampleMarket).isSome = true := by decide
  obtain ⟨ticker, hticker⟩ := Option.isSome_iff_exists.1 hfind
  have htimely : Timely sampleBlocks := ⟨by decide, by decide⟩
  have hsound : ∀ before c after, sampleBlocks = before ++ c :: after →
      Sound {} (run {} before) c := by
    refine forall_place_cons ⟨forall_place_cons ?_ (forall_place_cons ?_ forall_place_nil), ?_⟩
      (forall_place_cons ⟨forall_place_cons ?_ (forall_place_cons ?_ forall_place_nil), ?_⟩
        forall_place_nil)
    · unfold SparesUnpassed
      decide
    · unfold SparesUnpassed
      decide
    · decide
    · unfold SparesUnpassed
      decide
    · unfold SparesUnpassed
      decide
    · decide
  exact ⟨ticker, hticker, @ticker_volumes_exact {} [⟨100000, sampleTrade 10⟩] ⟨200000, sampleTrade 5⟩
    htimely (by decide) hsound _ _ hticker⟩

/-- Records that are removed too early stay in the volume for ever; and a single record of a maker is
subtracted twice, so that the volume wraps below zero. -/
theorem ticker_volumes_wrong :
    (((run { maxOrderHisRecordsPerMarket := 1, maxOrderHisSecondsPerMarket := 3600 }
        [⟨100000, sampleTrade 10⟩, ⟨107200, sampleTrade 5⟩, ⟨300000, []⟩]).tickers.find?
          sampleMarket).map MarketTicker.baseVolume = some 10 ∧
      volumeSince .base sampleMarket (300000 - 86400)
        (fillsOf [⟨100000, sampleTrade 10⟩, ⟨107200, sampleTrade 5⟩, ⟨300000, []⟩]) = 0) ∧
    ((run {} [⟨100000, [sampleFill true 10]⟩, ⟨200000, []⟩, ⟨200003, []⟩]).tickers.find?
        sampleMarket).map MarketTicker.baseVolume = some (2 ^ 128 - 10) ∧
      volumeSince .base sampleMarket (200003 - 86400)
        (fillsOf [⟨100000, [sampleFill true 10]⟩, ⟨200000, []⟩, ⟨200003, []⟩]) = 0 := by
  decide

end Playchain.MarketHistory
