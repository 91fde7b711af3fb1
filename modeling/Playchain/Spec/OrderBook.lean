import Playchain.Spec.OrderGroups
import Playchain.Spec.Sessions

/-!
# The order groups mirror the order book

In every state of a run the groups of each tracked percentage are disjoint, cover the orders and have the
sums of what their orders have for sale (`orderGroups_mirror`). Undoing a session is a sequence of
modifications, removals and insertions of orders whose prices are those of the start of the session, so
that the invariant is the one of the groups (`BookMirrored`) together with the prices in the records below
(`BookStacked`).
-/

namespace Playchain.GroupedOrders

/-- The limit orders with their groups. -/
abbrev OrderDatabase := ObjectDatabase ℕ Unit LimitOrder OrderGroupIndex

/-- **The groups cover the orders**, for every tracked percentage. -/
structure BookMirrored (tracked : FlatSet ℕ) (d : OrderDatabase) : Prop where
  threw : d.secondary.threw = false
  trackedGroups : d.secondary.trackedGroups = tracked
  valid : ∀ i o, d.objects.find? i = some o → o.Valid
  covers : ∀ g ∈ tracked.elements, (groupShape g).Covers d.objects ∅ (d.secondary.ogData.groups g)

theorem LimitOrder.Valid.price {o : LimitOrder} (h : o.Valid) : ValidPrice o.sellPrice :=
  ⟨h.base, h.quote, h.assets⟩

namespace BookMirrored

variable {tracked : FlatSet ℕ} {d : OrderDatabase} {i : ℕ} {a b : LimitOrder}

theorem forSale (h : BookMirrored tracked d) (i : ℕ) (o : LimitOrder) (ho : d.objects.find? i = some o) :
    0 < o.forSale := (h.valid i o ho).forSale

/-- An order comes. -/
theorem insert (h : BookMirrored tracked d) (hi : d.objects.find? i = none) (hb : b.Valid)
    (next : Unit → ℕ) :
    BookMirrored tracked ⟨d.objects.insert i b, next, d.secondary.objectInserted b⟩ := by
  obtain ⟨m, hm, hcovers, -⟩ := OrderGroups.foldlM_insertOrder tracked.nodup_elements h.covers h.forSale hi hb
    fun _ hx ↦ hx.elim
  have hinserted : d.secondary.objectInserted b = ⟨tracked, m, d.secondary.threw⟩ := by
    rw [OrderGroupIndex.objectInserted, h.trackedGroups, hm]
  rw [hinserted]
  refine ⟨h.threw, rfl, fun j o ho ↦ ?_, hcovers⟩
  rw [FlatMap.find?_insert] at ho
  split_ifs at ho
  · exact Option.some.inj ho ▸ hb
  · exact h.valid j o ho

/-- An order goes. -/
theorem erase (h : BookMirrored tracked d) (hi : d.objects.find? i = some a) (next : Unit → ℕ) :
    BookMirrored tracked ⟨d.objects.erase i, next, d.secondary.removeOrder a true⟩ := by
  have hcovers := (OrderGroups.foldl_removeOrder tracked.nodup_elements h.covers h.forSale
    (h.valid i a hi).price hi true).1
  have hexempt : OrderGroups.exemptAfter a true = ∅ := Set.eq_empty_of_forall_notMem fun _ hx ↦ (by cases hx.1)
  rw [OrderGroupIndex.removeOrder, h.trackedGroups]
  refine ⟨h.threw, rfl, fun j o ho ↦ ?_, hexempt ▸ hcovers⟩
  rw [FlatMap.find?_erase] at ho
  split_ifs at ho
  exact h.valid j o ho

/-- **An order is modified** at its price: it is taken out and put in again. -/
theorem update (h : BookMirrored tracked d) (hi : d.objects.find? i = some a) (hb : b.Valid)
    (hprice : b.sellPrice = a.sellPrice) (next : Unit → ℕ) :
    BookMirrored tracked
      ⟨d.objects.insert i b, next, (d.secondary.removeOrder a false).objectInserted b⟩ := by
  have hcovers := (OrderGroups.foldl_removeOrder tracked.nodup_elements h.covers h.forSale
    (h.valid i a hi).price hi false).1
  have hforSale (j : ℕ) (o : LimitOrder) (ho : (d.objects.erase i).find? j = some o) : 0 < o.forSale := by
    rw [FlatMap.find?_erase] at ho
    split_ifs at ho
    exact h.forSale j o ho
  obtain ⟨m, hm, hcovers', -⟩ := OrderGroups.foldlM_insertOrder tracked.nodup_elements hcovers hforSale
    (FlatMap.find?_erase_self _ _) hb fun x hx ↦ hprice ▸ hx.2
  have hinserted : (d.secondary.removeOrder a false).objectInserted b =
      ⟨tracked, m, d.secondary.threw⟩ := by
    rw [OrderGroupIndex.objectInserted, OrderGroupIndex.removeOrder, h.trackedGroups, hm]
  have hobjects : (d.objects.erase i).insert i b = d.objects.insert i b := by
    refine FlatMap.ext_find? fun j ↦ ?_
    rw [FlatMap.find?_insert, FlatMap.find?_insert, FlatMap.find?_erase]
    split_ifs
    · rfl
    · rfl
  rw [hinserted]
  refine ⟨h.threw, rfl, fun j o ho ↦ ?_, hobjects ▸ hcovers'⟩
  rw [FlatMap.find?_insert] at ho
  split_ifs at ho
  · exact Option.some.inj ho ▸ hb
  · exact h.valid j o ho

end BookMirrored

/-! ### Undoing -/

/-- Orders that are in both books have the same price. -/
def SamePrices (d₀ d : OrderDatabase) : Prop :=
  ∀ i a b, d₀.objects.find? i = some a → d.objects.find? i = some b → a.sellPrice = b.sellPrice

/-- Each record tracks the orders from those of the record below it on; prices have stayed. -/
def BookStacked (d : OrderDatabase) : List (UndoState ℕ Unit LimitOrder) → Prop
  | [] => True
  | st :: rest => ∃ d₀, Recorded d₀ d st ∧ SamePrices d₀ d ∧
      (∀ i o, d₀.objects.find? i = some o → o.Valid) ∧ BookStacked d₀ rest

section Records

variable {tracked : FlatSet ℕ} {d d' d₀ d₁ : OrderDatabase} {st prev : UndoState ℕ Unit LimitOrder}
  {stack : List (UndoState ℕ Unit LimitOrder)} {i : ℕ} {a b : LimitOrder}

theorem BookStacked.take (h : BookStacked d stack) (n : ℕ) : BookStacked d (stack.take n) := by
  induction stack generalizing d n with
  | nil => rwa [List.take_nil]
  | cons st rest ih =>
    cases n with
    | zero => trivial
    | succ n =>
      obtain ⟨d₀, hrec, hprices, hvalid, hrest⟩ := h
      exact ⟨d₀, hrec, hprices, hvalid, ih hrest n⟩

theorem BookStacked.of_sameObjects (h : BookStacked d stack) (hd : SameObjects d d') :
    BookStacked d' stack := by
  cases stack with
  | nil => trivial
  | cons st rest =>
    obtain ⟨d₀, hrec, hprices, hvalid, hrest⟩ := h
    refine ⟨d₀, hrec.of_sameObjects hd, fun i a b ha hb ↦ hprices i a b ha ?_, hvalid, hrest⟩
    rwa [hd.1] at hb

/-- An order that is there after both sessions was there in between. -/
theorem SamePrices.trans (hrec : Recorded d₀ d₁ prev) (hrec' : Recorded d₁ d st) (h : SamePrices d₀ d₁)
    (h' : SamePrices d₁ d) : SamePrices d₀ d := by
  intro i a b ha hb
  rcases hc : d₁.objects.find? i with - | c
  · have htracked := hrec'.tracked i
    rw [hc, hb] at htracked
    have hnew : st.newIds.contains i = true := by
      generalize hentry : st.entry i = e at htracked
      cases htracked with
      | created b => exact congrArg Entry.new hentry
    obtain ⟨s, n, hi, hle⟩ := hrec'.fresh i hnew
    rw [hi] at ha
    have hlt := hrec.before.lt_nextId s n a ha
    exact absurd ((hrec.nextId_le s).trans hle) (not_le.2 hlt)
  · exact (h i a c ha hc).trans (h' i c b hc hb)

/-- **The groups follow the undoing of a record.** -/
theorem BookMirrored.restore (h : BookMirrored tracked d) (hrec : Recorded d₀ d st)
    (hprices : SamePrices d₀ d) (hvalid : ∀ i o, d₀.objects.find? i = some o → o.Valid)
    (order : UndoOrder st) :
    (Playchain.restore d st order).Ensures (fun _ ↦ True) (BookMirrored tracked) := by
  have holds : (order.oldValues.foldlM restoreOldValue d).Ensures (fun _ ↦ True)
      fun e ↦ BookMirrored tracked e ∧ SamePrices d₀ e := by
    refine .foldlM _ (fun p hp e ⟨he, hpricesE⟩ ↦ ?_) ⟨h, hprices⟩
    have hold := FlatMap.find?_eq_some_iff.2 (order.oldValues_perm.mem_iff.1 hp)
    have hbefore := (hrec.old_eq hold).1
    rw [restoreOldValue]
    split
    · trivial
    · rename_i a ha
      refine .of_forall fun e' he' ↦ ?_
      rw [ObjectDatabase.modify] at he'
      split_ifs at he'
      obtain rfl := Except.ok.inj he'
      refine ⟨he.update ha (hvalid p.1 p.2 hbefore) (hpricesE p.1 p.2 a hbefore ha) e.nextId,
        fun j b c hb hc ↦ ?_⟩
      rw [FlatMap.find?_insert] at hc
      split_ifs at hc with hj
      · obtain rfl := Option.some.inj hc
        subst hj
        rw [Option.some.inj (hb.symm.trans hbefore)]
      · exact hpricesE j b c hb hc
  have hnews (e : OrderDatabase) (he : BookMirrored tracked e) :
      (order.newIds.foldlM removeNewObject e).Ensures (fun _ ↦ True) (BookMirrored tracked) := by
    refine .foldlM _ (fun i _ e he ↦ ?_) he
    rw [removeNewObject]
    split
    · trivial
    · rename_i a ha
      exact .ok (he.erase ha e.nextId)
  have hremoved (e : OrderDatabase) (he : BookMirrored tracked e) :
      (order.removed.foldlM insertRemovedObject e).Ensures (fun _ ↦ True) (BookMirrored tracked) := by
    refine .foldlM _ (fun p hp e he ↦ ?_) he
    have hgone := FlatMap.find?_eq_some_iff.2 (order.removed_perm.mem_iff.1 hp)
    rw [insertRemovedObject, ObjectDatabase.insert]
    by_cases hfree : e.objects.contains p.1 = false ∧ e.admits p.1 p.2 = true
    · rw [if_pos hfree]
      exact .ok (he.insert (FlatMap.contains_eq_false_iff.1 hfree.1)
        (hvalid p.1 p.2 (hrec.removed_eq hgone).2.1) e.nextId)
    · rw [if_neg hfree]
      trivial
  refine holds.bind fun d₁ hd₁ ↦ (hnews d₁ hd₁.1).bind fun d₂ hd₂ ↦ hremoved _ ?_
  exact ⟨hd₂.threw, hd₂.trackedGroups, hd₂.valid, hd₂.covers⟩

/-- No two orders have a unique key in common. -/
theorem keysKept (d : OrderDatabase) (st : UndoState ℕ Unit LimitOrder) : KeysKept d st :=
  fun _ _ _ _ _ _ _ _ ↦ rfl

end Records

/-! ### Runs -/

/-- The invariant of the orders with their records. -/
structure BookKept (tracked : FlatSet ℕ) (u : OrderStore) : Prop where
  valid : u.db.Valid
  mirrored : BookMirrored tracked u.db
  stacked : BookStacked u.db u.stack

namespace BookKept

variable {tracked : FlatSet ℕ} {u v : OrderStore}

/-- The record that is written to. -/
theorem top (h : BookKept tracked u) : ∃ d₀, Recorded d₀ u.db u.top ∧ SamePrices d₀ u.db ∧
    (∀ i o, d₀.objects.find? i = some o → o.Valid) ∧ BookStacked d₀ u.stack.tail := by
  obtain ⟨db, stack, active, size⟩ := u
  cases stack with
  | nil =>
    refine ⟨db, .start h.valid, fun i a b ha hb ↦ ?_, h.mirrored.valid, trivial⟩
    rw [Option.some.inj (ha.symm.trans hb)]
  | cons st rest => exact h.stacked

/-- **A call that the groups follow** and that leaves prices as they are. -/
theorem call (h : BookKept tracked u) {c : Call ℕ Unit LimitOrder} (hv : u.call c = .ok v)
    (hstep : ∀ d st, c.run u.db u.top = .ok (d, st) → BookMirrored tracked d ∧
      ∀ d₀, Recorded d₀ u.db u.top → SamePrices d₀ u.db → SamePrices d₀ d) : BookKept tracked v := by
  obtain ⟨d₀, hrec, hprices, hvalid, hrest⟩ := h.top
  rw [UndoDatabase.call, Except.bind_eq_ok] at hv
  obtain ⟨⟨d, st⟩, hrun, hv⟩ := hv
  obtain rfl := Except.pure_eq_ok.1 hv
  have hrec' := (hrec.run c).of_ok hrun
  obtain ⟨hmirrored, hkept⟩ := hstep d st hrun
  exact ⟨hrec'.after, hmirrored, d₀, hrec', hkept d₀ hrec hprices, hvalid, hrest⟩

theorem create (h : BookKept tracked u) {o : LimitOrder} (ho : o.Valid)
    (hv : u.call (.create () o) = .ok v) : BookKept tracked v := by
  refine h.call hv fun d st hrun ↦ ?_
  rw [Call.run] at hrun
  split at hrun
  · rename_i d' hd'
    cases hrun
    rw [ObjectDatabase.create, ObjectDatabase.insert] at hd'
    split_ifs at hd' with hfree
    · obtain rfl := Option.some.inj hd'
      have hnone := FlatMap.contains_eq_false_iff.1 hfree.1
      refine ⟨h.mirrored.insert hnone ho _, fun d₀ hrec hprices i a b ha hb ↦ ?_⟩
      dsimp only at hb
      rw [FlatMap.find?_insert] at hb
      split_ifs at hb with hi
      -- the new order has an id that was not in use before the session
      · subst hi
        have hlt := hrec.before.lt_nextId () (u.db.nextId ()) a ha
        exact absurd (hrec.nextId_le ()) (not_le.2 hlt)
      · exact hprices i a b ha hb
    · cases hd'
  · cases hrun

theorem modify (h : BookKept tracked u) {i : ℕ} {forSale : ℤ} (hpos : 0 < forSale)
    (hv : u.call (.modify i fun o ↦ { o with forSale := forSale }) = .ok v) : BookKept tracked v := by
  refine h.call hv fun d st hrun ↦ ?_
  rw [Call.run] at hrun
  split at hrun
  · cases hrun
  · rename_i a ha
    split at hrun
    · rename_i d' hd'
      cases hrun
      rw [ObjectDatabase.modify] at hd'
      split_ifs at hd'
      obtain rfl := Except.ok.inj hd'
      have hvalid := h.mirrored.valid i a ha
      have hvalid' : LimitOrder.Valid { a with forSale := forSale } :=
        ⟨hvalid.base, hvalid.quote, hvalid.assets, hpos, hvalid.min, hvalid.max⟩
      refine ⟨h.mirrored.update ha hvalid' rfl _, fun d₀ _ hprices j b c hb hc ↦ ?_⟩
      dsimp only at hc
      rw [FlatMap.find?_insert] at hc
      split_ifs at hc with hj
      · obtain rfl := Option.some.inj hc
        subst hj
        exact hprices j b a hb ha
      · exact hprices j b c hb hc
    · cases hrun

theorem remove (h : BookKept tracked u) {i : ℕ} (hv : u.call (.remove i) = .ok v) :
    BookKept tracked v := by
  refine h.call hv fun d st hrun ↦ ?_
  rw [Call.run] at hrun
  split at hrun
  · cases hrun
  · rename_i a ha
    cases hrun
    refine ⟨h.mirrored.erase ha _, fun d₀ _ hprices j b c hb hc ↦ ?_⟩
    dsimp only [ObjectDatabase.remove] at hc
    rw [FlatMap.find?_erase] at hc
    split_ifs at hc
    exact hprices j b c hb hc

theorem merge (h : BookKept tracked u) (hv : u.merge = some v) : BookKept tracked v := by
  have hstacked := h.stacked
  rw [UndoDatabase.merge] at hv
  by_cases hactive : u.activeSessions = 0
  · rw [if_pos hactive] at hv
    cases hv
  rw [if_neg hactive] at hv
  split at hv
  · split_ifs at hv
    obtain rfl := Option.some.inj hv
    exact ⟨h.valid, h.mirrored, trivial⟩
  · rename_i st prev rest hstack
    obtain rfl := Option.some.inj hv
    rw [hstack] at hstacked
    obtain ⟨d₁, hrec, hprices, -, d₀, hrec', hprices', hvalid, hrest⟩ := hstacked
    exact ⟨h.valid, h.mirrored, d₀, hrec'.merge hrec, .trans hrec' hrec hprices' hprices, hvalid, hrest⟩
  · cases hv

/-- **Taking back a record succeeds**, and the groups follow. -/
theorem restore (h : BookKept tracked u) (order : UndoOrder u.top) :
    ∃ d, Playchain.restore u.db u.top order = .ok d ∧ d.Valid ∧ BookMirrored tracked d ∧
      BookStacked d u.stack.tail := by
  obtain ⟨d₀, hrec, hprices, hvalid, hrest⟩ := h.top
  obtain ⟨d, hd, hsame⟩ := (hrec.restore order).exists_ok_of fun _ hcollide ↦
    hcollide (keysKept u.db u.top)
  refine ⟨d, hd, ?_, (h.mirrored.restore hrec hprices hvalid order).of_ok hd,
    hrest.of_sameObjects hsame⟩
  exact ((Recorded.start hrec.before).of_sameObjects hsame).after

/-- **One step**: the groups follow every event. -/
theorem step (h : BookKept tracked u) {event : OrderEvent} (hv : event.Step u v) :
    BookKept tracked v := by
  cases event with
  | create o ho => exact h.create ho hv
  | modify i forSale hpos => exact h.modify hpos hv
  | remove i => exact h.remove hv
  | startSession =>
    obtain rfl := hv
    refine ⟨h.valid, h.mirrored, u.db, .start h.valid, fun i a b ha hb ↦ ?_, h.mirrored.valid,
      h.stacked.take u.maxSize⟩
    rw [Option.some.inj (ha.symm.trans hb)]
  | merge => exact h.merge hv
  | commit =>
    rw [OrderEvent.Step, UndoDatabase.commit] at hv
    split_ifs at hv
    obtain rfl := Option.some.inj hv
    exact ⟨h.valid, h.mirrored, h.stacked⟩
  | undo =>
    obtain ⟨order, hv⟩ := hv
    obtain ⟨d, hd, hvalid, hmirrored, hstacked⟩ := h.restore order
    rw [UndoDatabase.undo] at hv
    split_ifs at hv
    · rcases hv with hv | ⟨e, he, rfl⟩
      · cases hv
      · obtain rfl := Except.error.inj he
        exact h
    · rw [hd] at hv
      rcases hv with hv | ⟨e, he, -⟩
      · obtain rfl := Except.ok.inj hv
        exact ⟨hvalid, hmirrored, hstacked⟩
      · cases he
  | popCommit =>
    obtain ⟨order, hv⟩ := hv
    obtain ⟨d, hd, hvalid, hmirrored, hstacked⟩ := h.restore order
    rw [UndoDatabase.popCommit] at hv
    split_ifs at hv
    · rcases hv with hv | ⟨e, he, rfl⟩
      · cases hv
      · obtain rfl := Except.error.inj he
        exact h
    · rw [hd] at hv
      rcases hv with hv | ⟨e, he, -⟩
      · obtain rfl := Except.ok.inj hv
        exact ⟨hvalid, hmirrored, hstacked⟩
      · cases he
  | setMaxSize n =>
    obtain rfl := hv
    exact ⟨h.valid, h.mirrored, h.stacked⟩

end BookKept

theorem bookKept_emptyBook (tracked : FlatSet ℕ) (maxSize : ℕ) :
    BookKept tracked (emptyBook tracked maxSize) where
  valid := ⟨fun _ _ _ _ h ↦ (by cases h), fun _ _ _ h ↦ (by cases h)⟩
  mirrored := ⟨rfl, rfl, fun _ _ h ↦ (by cases h), fun g _ ↦ ⟨fun h ↦ (by cases h), fun h ↦ (by cases h),
    fun h ↦ (by cases h), fun h ↦ (by cases h), fun h ↦ (by cases h), fun h ↦ (by cases h),
    fun h ↦ (by cases h)⟩⟩
  stacked := trivial

/-- **The groups of a percentage mirror the order book.** -/
structure MirrorsOrders (g : ℕ) (orders : FlatMap ℕ LimitOrder) (m : OrderGroups) : Prop where
  /-- A group is kept under its lower price. -/
  key : ∀ k r, m.find? k = some r → (ofLex k).1 = g → k = groupKey g r.minPrice
  disjoint : ∀ k k' r r', m.find? k = some r → m.find? k' = some r' → (ofLex k).1 = g →
    (ofLex k').1 = g → k ≠ k' → r.maxPrice < r'.minPrice ∨ r'.maxPrice < r.minPrice
  covered : ∀ i o, orders.find? i = some o → ∃! k, (ofLex k).1 = g ∧ ∃ r, m.find? k = some r ∧
    r.minPrice ≤ o.sellPrice ∧ o.sellPrice ≤ r.maxPrice
  total : ∀ k r, m.find? k = some r → (ofLex k).1 = g → r.totalForSale =
    orders.sum fun _ o ↦ if r.minPrice ≤ o.sellPrice ∧ o.sellPrice ≤ r.maxPrice then o.forSale else 0
  positive : ∀ k r, m.find? k = some r → (ofLex k).1 = g → 0 < r.totalForSale
  percentage : ∀ k r, m.find? k = some r → (ofLex k).1 = g → WithinPercentage g r

/-- Intervals that cover the orders mirror the order book. -/
theorem mirrorsOrders_of_covers {g : ℕ} {orders : FlatMap ℕ LimitOrder} {m : OrderGroups}
    (h : (groupShape g).Covers orders ∅ (m.groups g))
    (hvalid : ∀ i o, orders.find? i = some o → o.Valid) : MirrorsOrders g orders m := by
  have hgroups {k : GroupKey} {r : OrderGroup} (hr : m.find? k = some r) (hk : (ofLex k).1 = g) :
      m.groups g (OrderDual.ofDual (ofLex k).2) = some r := by
    subst hk
    exact hr
  have hkey {k : GroupKey} {r : OrderGroup} (hr : m.find? k = some r) (hk : (ofLex k).1 = g) :
      k = groupKey g r.minPrice := by
    have hlo : priceKey r.minPrice = _ := h.key (hgroups hr hk)
    rw [groupKey, hlo, ← hk]
    rfl
  have hwithin {x : PriceKey} {r : OrderGroup} (hr : m.groups g x = some r) {i : ℕ} {o : LimitOrder}
      (ho : orders.find? i = some o) : (r.minPrice ≤ o.sellPrice ∧ o.sellPrice ≤ r.maxPrice) ↔
        (groupShape g).Within r (priceKey o.sellPrice) := by
    obtain ⟨hmin, hmax, -, -⟩ := h.good hr
    have hprice := (hvalid i o ho).price
    exact and_congr (not_lt_iff_priceKey_le hprice hmin) (not_lt_iff_priceKey_le hmax hprice)
  refine ⟨fun k r hr hk ↦ hkey hr hk, fun k k' r r' hr hr' hk hk' hne ↦ ?_, fun i o ho ↦ ?_,
    fun k r hr hk ↦ ?_, fun k r hr hk ↦ ?_, fun k r hr hk ↦ (h.good (hgroups hr hk)).2.2.2⟩
  · have hr₁ := hgroups hr hk
    have hr₂ := hgroups hr' hk'
    obtain ⟨hmin, hmax, -, -⟩ := h.good hr₁
    obtain ⟨hmin', hmax', -, -⟩ := h.good hr₂
    have hne' : OrderDual.ofDual (ofLex k).2 ≠ OrderDual.ofDual (ofLex k').2 := by
      intro heq
      refine hne ?_
      rw [hkey hr hk, hkey hr' hk', groupKey, groupKey]
      rw [show priceKey r.minPrice = _ from h.key hr₁, show priceKey r'.minPrice = _ from h.key hr₂, heq]
    exact (h.clear hr₁ hr₂ hne').imp (lt_iff_priceKey_lt hmax hmin').2 (lt_iff_priceKey_lt hmax' hmin).2
  · obtain ⟨x, r, hr, hin⟩ := h.covered ho
    refine ⟨toLex (g, OrderDual.toDual x), ⟨rfl, r, hr, (hwithin hr ho).2 hin⟩, ?_⟩
    rintro k ⟨hk, r', hr', hin'⟩
    have hr₂ := hgroups hr' hk
    have heq := h.eq_of_within hr hr₂ hin ((hwithin hr₂ ho).1 hin')
    rw [heq, ← hk]
    rfl
  · have hr₁ := hgroups hr hk
    refine (h.total hr₁).trans (FlatMap.sum_congr fun i o ho ↦ ?_)
    exact if_congr (hwithin hr₁ ho).symm rfl rfl
  · exact (h.positive (hgroups hr hk)).resolve_right fun hx ↦ hx.choose_spec.1

/-- **The order groups mirror the order book** in every state of a run: no method throws, and for each
tracked percentage the groups are disjoint intervals of prices, each order is in exactly one of them, and
a group has the sum of what its orders have for sale, which is positive, and is no wider than the
percentage. -/
theorem orderGroups_mirror {tracked : FlatSet ℕ} {maxSize : ℕ} {u : OrderStore}
    (h : Relation.ReflTransGen (fun u v ↦ ∃ event : OrderEvent, event.Step u v)
      (emptyBook tracked maxSize) u) :
    u.db.secondary.threw = false ∧ u.db.secondary.trackedGroups = tracked ∧
      ∀ g ∈ tracked.elements, MirrorsOrders g u.db.objects u.db.secondary.ogData := by
  have hkept : BookKept tracked u := by
    induction h with
    | refl => exact bookKept_emptyBook tracked maxSize
    | tail _ hstep ih =>
      obtain ⟨event, hstep⟩ := hstep
      exact ih.step hstep
  exact ⟨hkept.mirrored.threw, hkept.mirrored.trackedGroups, fun g hg ↦
    mirrorsOrders_of_covers (hkept.mirrored.covers g hg) hkept.mirrored.valid⟩

/-- An order for ten units of the core asset. -/
def cheapOrder : LimitOrder := ⟨⟨⟨100, 1⟩, ⟨10, 0⟩⟩, 100⟩

/-- An order one percent above. -/
def dearOrder : LimitOrder := ⟨⟨⟨101, 1⟩, ⟨10, 0⟩⟩, 101⟩

theorem cheapOrder_valid : cheapOrder.Valid where
  base := by decide
  quote := by decide
  assets := by decide
  forSale := by decide
  min min hmin := by
    obtain rfl := Except.ok.inj hmin
    decide
  max max hmax := by
    obtain rfl := Except.ok.inj hmax
    decide

theorem dearOrder_valid : dearOrder.Valid where
  base := by decide
  quote := by decide
  assets := by decide
  forSale := by decide
  min min hmin := by
    obtain rfl := Except.ok.inj hmin
    decide
  max max hmax := by
    obtain rfl := Except.ok.inj hmax
    decide

/-- Two orders in one group; the second one is created and modified in a session. -/
theorem orderGroups_mirror_joined : ∃ u : OrderStore, u.db.secondary.ogData.toList.map Prod.snd =
      [⟨cheapOrder.sellPrice, dearOrder.sellPrice, 150⟩] ∧ u.db.secondary.threw = false ∧
    ∀ g ∈ (FlatSet.add ∅ 100).elements, MirrorsOrders g u.db.objects u.db.secondary.ogData := by
  obtain ⟨u, hu⟩ : ∃ u, (emptyBook (FlatSet.add ∅ 100) 256).call (.create () cheapOrder) = .ok u := ⟨_, rfl⟩
  obtain ⟨v, hv⟩ : ∃ v, u.startUndoSession.call (.create () dearOrder) = .ok v := by
    cases hu
    exact ⟨_, rfl⟩
  obtain ⟨w, hw⟩ : ∃ w, v.call (.modify 1 fun o ↦ { o with forSale := 50 }) = .ok w := by
    cases hu
    cases hv
    exact ⟨_, rfl⟩
  have hgroups : w.db.secondary.ogData.toList.map Prod.snd =
      [⟨cheapOrder.sellPrice, dearOrder.sellPrice, 150⟩] := by
    cases hu
    cases hv
    cases hw
    decide +kernel
  have hrun : Relation.ReflTransGen (fun u v ↦ ∃ event : OrderEvent, event.Step u v)
      (emptyBook (FlatSet.add ∅ 100) 256) w :=
    (((Relation.ReflTransGen.single ⟨.create cheapOrder cheapOrder_valid, hu⟩).tail
      ⟨.startSession, rfl⟩).tail ⟨.create dearOrder dearOrder_valid, hv⟩).tail
      ⟨.modify 1 50 (by decide), hw⟩
  obtain ⟨hthrew, -, hmirror⟩ := orderGroups_mirror hrun
  exact ⟨w, hgroups, hthrew, hmirror⟩

end Playchain.GroupedOrders
