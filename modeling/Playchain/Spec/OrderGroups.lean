import Playchain.Lib.IntervalCover
import Playchain.Spec.PriceOrder

/-!
# The order groups follow the orders

For each tracked percentage the groups are disjoint intervals of prices that cover the orders
(`IntervalShape.Covers`). The neighbours that an insertion looks at are the group at or
below the price of the order (`below_cases`) and the nearest group above it (`above_cases`); whichever it
joins, all other groups are clear of the result. The removal that is part of a modification may leave a
group without orders; the insertion that follows finds it again.
-/

namespace Playchain.GroupedOrders

open OrderDual

/-- The upper price is at most the lower one increased by the percentage, or the lower price is at least
the upper one decreased by it, as rounded. -/
def WithinPercentage (g : ℕ) (r : OrderGroup) : Prop :=
  (∃ p, (rational (hundredPercent + g) hundredPercent).bind r.minPrice.scale = .ok p ∧ r.maxPrice ≤ p) ∨
    ∃ p, r.maxPrice.divRatio (hundredPercent + g) hundredPercent = .ok p ∧ p ≤ r.minPrice

/-- Groups as intervals of prices. -/
def groupShape (g : ℕ) : IntervalShape PriceKey OrderGroup LimitOrder where
  lo r := priceKey r.minPrice
  hi r := priceKey r.maxPrice
  total := OrderGroup.totalForSale
  pos o := priceKey o.sellPrice
  weight := LimitOrder.forSale
  Good r := ValidPrice r.minPrice ∧ ValidPrice r.maxPrice ∧ SameMarket r.minPrice r.maxPrice ∧
    WithinPercentage g r

namespace OrderGroups

/-- The groups of a percentage. -/
def groups (m : OrderGroups) (g : ℕ) (x : PriceKey) : Option OrderGroup := m.find? (toLex (g, toDual x))

section Keys

variable {m : OrderGroups} {g g' : ℕ} {x y : PriceKey} {p : Price} {r : OrderGroup}

theorem toLex_le_iff : (toLex (g, toDual x) : GroupKey) ≤ toLex (g', toDual y) ↔
    g < g' ∨ g = g' ∧ y ≤ x := by
  rw [Prod.Lex.toLex_le_toLex, toDual_le_toDual]

theorem toLex_lt_iff : (toLex (g, toDual x) : GroupKey) < toLex (g', toDual y) ↔
    g < g' ∨ g = g' ∧ y < x := by
  rw [Prod.Lex.toLex_lt_toLex, toDual_lt_toDual]

theorem toLex_eq_groupKey_iff : (toLex (g', toDual x) : GroupKey) = groupKey g p ↔
    g' = g ∧ x = priceKey p := by
  rw [groupKey, toLex_inj, Prod.mk.injEq, toDual_inj]

theorem groups_insert : OrderGroups.groups (m.insert (groupKey g p) r) g' x =
    if g' = g ∧ x = priceKey p then some r else m.groups g' x := by
  rw [groups, FlatMap.find?_insert]
  exact if_congr toLex_eq_groupKey_iff rfl rfl

theorem groups_erase : OrderGroups.groups (m.erase (groupKey g p)) g' x =
    if g' = g ∧ x = priceKey p then none else m.groups g' x := by
  rw [groups, FlatMap.find?_erase]
  exact if_congr toLex_eq_groupKey_iff rfl rfl

end Keys

/-! ### The neighbours of a price -/

section Neighbours

variable {m : OrderGroups} {g : ℕ} {orders : FlatMap ℕ LimitOrder} {exempt : Set PriceKey}
  {o : LimitOrder}

theorem sameMarket_groupKey {r : OrderGroup} :
    sameMarket g o (groupKey g r.minPrice, r) = true ↔ SameMarket r.minPrice o.sellPrice := by
  rw [sameMarket, decide_eq_true_eq]
  exact and_iff_right rfl

/-- **The group at or below the price of an order** is what `lower_bound` finds, or else all groups below
end below the price. -/
theorem below_cases (h : (groupShape g).Covers orders exempt (m.groups g)) :
    (∃ r, m.lowerBound (groupKey g o.sellPrice) = some (groupKey g r.minPrice, r) ∧
      SameMarket r.minPrice o.sellPrice ∧ m.groups g (priceKey r.minPrice) = some r ∧
      priceKey r.minPrice ≤ priceKey o.sellPrice ∧
      ∀ y r', m.groups g y = some r' → y ≤ priceKey o.sellPrice → y ≤ priceKey r.minPrice) ∨
    ((∀ entry, m.lowerBound (groupKey g o.sellPrice) = some entry → sameMarket g o entry = false) ∧
      ∀ y r, m.groups g y = some r → y ≤ priceKey o.sellPrice →
        priceKey r.maxPrice < priceKey o.sellPrice) := by
  rcases hlower : m.lowerBound (groupKey g o.sellPrice) with - | ⟨k, r⟩
  · refine .inr ⟨fun _ hentry ↦ (by cases hentry), fun y r hr hy ↦ ?_⟩
    have hlt := FlatMap.lt_of_lowerBound_eq_none hlower hr
    rcases toLex_lt_iff.1 hlt with hlt | ⟨-, hlt⟩
    · exact absurd hlt (lt_irrefl _)
    · exact absurd hlt (not_lt.2 hy)
  obtain ⟨g', x, rfl⟩ : ∃ g' x, k = toLex (g', toDual x) := ⟨(ofLex k).1, ofDual (ofLex k).2, rfl⟩
  obtain ⟨hfind, hle⟩ := FlatMap.mem_lowerBound hlower
  have hleast {y : PriceKey} {r' : OrderGroup} (hr' : m.groups g y = some r')
      (hy : y ≤ priceKey o.sellPrice) : g' < g ∨ g' = g ∧ y ≤ x :=
    toLex_le_iff.1 (FlatMap.lowerBound_le hlower hr' (toLex_le_iff.2 (.inr ⟨rfl, hy⟩)))
  by_cases hg : g' = g
  · subst hg
    have hx : x ≤ priceKey o.sellPrice := by
      rcases toLex_le_iff.1 hle with hlt | ⟨-, hx⟩
      · exact absurd hlt (lt_irrefl _)
      · exact hx
    obtain rfl : priceKey r.minPrice = x := h.key hfind
    by_cases hmarket : SameMarket r.minPrice o.sellPrice
    · refine .inl ⟨r, rfl, hmarket, hfind, hx, fun y r' hr' hy ↦ ?_⟩
      exact ((hleast hr' hy).resolve_left (lt_irrefl _)).2
    · refine .inr ⟨fun entry hentry ↦ ?_, fun y r' hr' hy ↦ ?_⟩
      · obtain rfl := Option.some.inj hentry
        exact Bool.eq_false_iff.2 fun hsame ↦ hmarket (sameMarket_groupKey.1 hsame)
      -- a group of the market of the order would have the found group between it and the order
      · have hyx := ((hleast hr' hy).resolve_left (lt_irrefl _)).2
        obtain rfl : priceKey r'.minPrice = y := h.key hr'
        refine priceKey_lt_of_not_sameMarket (h.good hr').2.2.1 (fun hsame ↦ hmarket ?_) hy
        have hbetween := hsame.of_between hyx hx
        exact ⟨hbetween.1.symm.trans hsame.1, hbetween.2.symm.trans hsame.2⟩
  · refine .inr ⟨fun entry hentry ↦ ?_, fun y r' hr' hy ↦ ?_⟩
    · obtain rfl := Option.some.inj hentry
      exact decide_eq_false fun hsame ↦ hg hsame.1
    · rcases toLex_le_iff.1 hle with hlt | ⟨heq, -⟩
      · exact ((hleast hr' hy).elim hlt.asymm fun heq ↦ hg heq.1).elim
      · exact absurd heq.symm hg

/-- **The nearest group above the price of an order** is what stands before `lower_bound`, if it is of the
market of the order. -/
theorem above_cases (h : (groupShape g).Covers orders exempt (m.groups g)) :
    (∃ r, m.predecessor (groupKey g o.sellPrice) = some (groupKey g r.minPrice, r) ∧
      SameMarket r.minPrice o.sellPrice ∧ m.groups g (priceKey r.minPrice) = some r ∧
      priceKey o.sellPrice < priceKey r.minPrice ∧
      ∀ y r', m.groups g y = some r' → priceKey o.sellPrice < y → priceKey r.minPrice ≤ y) ∨
    ∀ entry, m.predecessor (groupKey g o.sellPrice) = some entry → sameMarket g o entry = false := by
  rcases hbefore : m.predecessor (groupKey g o.sellPrice) with - | ⟨k, r⟩
  · exact .inr fun _ hentry ↦ (by cases hentry)
  obtain ⟨g', x, rfl⟩ : ∃ g' x, k = toLex (g', toDual x) := ⟨(ofLex k).1, ofDual (ofLex k).2, rfl⟩
  obtain ⟨hfind, hlt⟩ := FlatMap.mem_predecessor hbefore
  by_cases hg : g' = g
  · subst hg
    have hx : priceKey o.sellPrice < x := by
      rcases toLex_lt_iff.1 hlt with hlt | ⟨-, hx⟩
      · exact absurd hlt (lt_irrefl _)
      · exact hx
    obtain rfl : priceKey r.minPrice = x := h.key hfind
    by_cases hmarket : SameMarket r.minPrice o.sellPrice
    · refine .inl ⟨r, rfl, hmarket, hfind, hx, fun y r' hr' hy ↦ ?_⟩
      have hle := FlatMap.le_predecessor hbefore hr' (toLex_lt_iff.2 (.inr ⟨rfl, hy⟩))
      exact ((toLex_le_iff.1 hle).resolve_left (lt_irrefl _)).2
    · refine .inr fun entry hentry ↦ ?_
      obtain rfl := Option.some.inj hentry
      exact Bool.eq_false_iff.2 fun hsame ↦ hmarket (sameMarket_groupKey.1 hsame)
  · refine .inr fun entry hentry ↦ ?_
    obtain rfl := Option.some.inj hentry
    exact decide_eq_false fun hsame ↦ hg hsame.1

end Neighbours

/-! ### Insertion -/

/-- The groups of one percentage have come to cover the orders; the other groups are as they were. -/
structure Follows (g : ℕ) (orders : FlatMap ℕ LimitOrder) (exempt : Set PriceKey) (m m' : OrderGroups) :
    Prop where
  covers : (groupShape g).Covers orders exempt (m'.groups g)
  others : ∀ g', g' ≠ g → m'.groups g' = m.groups g'

section Insertion

variable {m : OrderGroups} {g i : ℕ} {orders : FlatMap ℕ LimitOrder} {exempt : Set PriceKey}
  {o : LimitOrder}

theorem others_insert {p : Price} {r : OrderGroup} (g' : ℕ) (hg : g' ≠ g) :
    OrderGroups.groups (m.insert (groupKey g p) r) g' = m.groups g' := by
  funext x
  rw [groups_insert, if_neg fun h ↦ hg h.1]

theorem others_erase {p : Price} (g' : ℕ) (hg : g' ≠ g) :
    OrderGroups.groups (m.erase (groupKey g p)) g' = m.groups g' := by
  funext x
  rw [groups_erase, if_neg fun h ↦ hg h.1]

/-- A price within the limits is not capped. -/
theorem capPrice_eq (ho : o.Valid) : capPrice o.sellPrice = .ok ⟨o.sellPrice, false, false⟩ := by
  obtain ⟨max, hmax⟩ : ∃ max, Price.max o.sellPrice.base.assetId o.sellPrice.quote.assetId = .ok max :=
    ⟨_, Except.bind_eq_ok.2 ⟨(), fcAssert_of_true ho.assets, rfl⟩⟩
  obtain ⟨min, hmin⟩ : ∃ min, Price.min o.sellPrice.base.assetId o.sellPrice.quote.assetId = .ok min :=
    ⟨_, Except.bind_eq_ok.2 ⟨(), fcAssert_of_true ho.assets, rfl⟩⟩
  refine Except.bind_eq_ok.2 ⟨max, hmax, Except.bind_eq_ok.2 ⟨min, hmin, ?_⟩⟩
  rw [if_neg (ho.max max hmax), if_neg (ho.min min hmin)]
  rfl

/-- The ratio by which a group may grow. -/
theorem rational_percentage (g : ℕ) :
    ∃ q, rational (hundredPercent + g) hundredPercent = .ok q ∧ 1 ≤ q := by
  refine ⟨_, if_neg (by decide), ?_⟩
  rw [Rat.mkRat_eq_div, le_div_iff₀ (by norm_num [hundredPercent]),
    show (hundredPercent : ℤ).sign = 1 from rfl]
  norm_num [hundredPercent]

theorem rational_percentage_inv (g : ℕ) :
    ∃ q, rational hundredPercent (hundredPercent + g) = .ok q ∧ 0 < q := by
  have hpos : (0 : ℤ) < hundredPercent + g := by
    have : (0 : ℤ) < hundredPercent := by decide
    omega
  refine ⟨_, if_neg hpos.ne', ?_⟩
  rw [Int.sign_eq_one_of_pos hpos, Rat.mkRat_eq_div]
  refine div_pos (by norm_num [hundredPercent]) ?_
  exact_mod_cast Int.natAbs_pos.2 hpos.ne'

theorem assign_eq {p q : Price} {total : ℤ} (h : m.groups g (priceKey p) = none) :
    m.assign g p q total = m.insert (groupKey g p) ⟨p, q, total⟩ := by
  have hfind : m.find? (groupKey g p) = none := h
  rw [assign, hfind]
  rfl

variable (h : (groupShape g).Covers orders exempt (m.groups g))
  (hvalid : ∀ i o, orders.find? i = some o → 0 < o.forSale) (hi : orders.find? i = none) (ho : o.Valid)
  (hexempt : ∀ x ∈ exempt, x = priceKey o.sellPrice)
include h hvalid hi ho hexempt

/-- A group of its own, when no group reaches the price. -/
theorem createOgo_follows (hbelow : ∀ y r, m.groups g y = some r → y ≤ priceKey o.sellPrice →
    priceKey r.maxPrice < priceKey o.sellPrice) :
    Follows g (orders.insert i o) ∅ m (m.createOgo g o) := by
  have hprice : ValidPrice o.sellPrice := ⟨ho.base, ho.quote, ho.assets⟩
  have hnone : m.groups g (priceKey o.sellPrice) = none := by
    refine Option.eq_none_iff_forall_ne_some.2 fun r hr ↦ ?_
    have hle : priceKey r.minPrice ≤ priceKey r.maxPrice := h.le hr
    rw [show priceKey r.minPrice = _ from h.key hr] at hle
    exact absurd (hbelow _ r hr le_rfl) (not_lt.2 hle)
  have hwithin : WithinPercentage g ⟨o.sellPrice, o.sellPrice, o.forSale⟩ := by
    obtain ⟨q, hq, hone⟩ := rational_percentage g
    obtain ⟨np, hnp, hnpValid, -, hle⟩ := scale_spec hprice (zero_lt_one.trans_le hone)
    refine .inl ⟨np, ?_, (not_lt_iff_priceKey_le hnpValid hprice).2 (hle hone)⟩
    rw [hq]
    exact hnp
  rw [createOgo, assign_eq hnone]
  refine ⟨h.add ⟨o.sellPrice, o.sellPrice, o.forSale⟩ none hvalid hi ho.forSale ⟨le_rfl, le_rfl⟩
    ⟨hprice, hprice, ⟨rfl, rfl⟩, hwithin⟩ (fun _ hr ↦ (by cases hr)) (fun x r hr ↦ ?_) (add_zero _).symm
    (fun x ↦ ?_) fun x hx ↦ ?_, others_insert⟩
  · rcases le_or_gt x (priceKey o.sellPrice) with hx | hx
    · exact .inr (.inl (hbelow x r hr hx))
    · exact .inr (.inr ((h.key hr).symm ▸ hx))
  · rw [groups_insert]
    exact if_congr (and_iff_right rfl) rfl rfl
  · rw [hexempt x hx]
    exact ⟨le_rfl, le_rfl⟩

/-- A group above takes in the order as its lower price. -/
theorem moveMin_follows (hbelow : ∀ y r, m.groups g y = some r → y ≤ priceKey o.sellPrice →
      priceKey r.maxPrice < priceKey o.sellPrice) {r : OrderGroup}
    (hr : m.groups g (priceKey r.minPrice) = some r) (hmarket : SameMarket r.minPrice o.sellPrice)
    (habove : priceKey o.sellPrice < priceKey r.minPrice)
    (hnearest : ∀ y r', m.groups g y = some r' → priceKey o.sellPrice < y → priceKey r.minPrice ≤ y)
    {p : Price} (hp : r.maxPrice.divRatio (hundredPercent + g) hundredPercent = .ok p)
    (hle : ¬o.sellPrice < p) :
    Follows g (orders.insert i o) ∅ m (m.moveMin g o (groupKey g r.minPrice, r)) := by
  have hprice : ValidPrice o.sellPrice := ⟨ho.base, ho.quote, ho.assets⟩
  obtain ⟨hminValid, hmaxValid, hmarket', -⟩ := h.good hr
  have hrange : priceKey r.minPrice ≤ priceKey r.maxPrice := h.le hr
  have hnone : groups (m.erase (groupKey g r.minPrice)) g (priceKey o.sellPrice) = none := by
    rw [groups_erase]
    split_ifs
    · rfl
    · refine Option.eq_none_iff_forall_ne_some.2 fun r' hr' ↦ ?_
      have hle' : priceKey r'.minPrice ≤ priceKey r'.maxPrice := h.le hr'
      rw [show priceKey r'.minPrice = _ from h.key hr'] at hle'
      exact absurd (hbelow _ r' hr' le_rfl) (not_lt.2 hle')
  rw [moveMin, assign_eq hnone]
  refine ⟨h.add ⟨o.sellPrice, r.maxPrice, o.forSale + r.totalForSale⟩ (some r) hvalid hi ho.forSale
    ⟨le_rfl, (habove.trans_le hrange).le⟩
    ⟨hprice, hmaxValid, ⟨hmarket.1.symm.trans hmarket'.1, hmarket.2.symm.trans hmarket'.2⟩,
      .inr ⟨p, hp, hle⟩⟩
    (fun r' hr' ↦ ?_) (fun x r' hr' ↦ ?_) rfl (fun x ↦ ?_) fun x hx ↦ ?_, fun g' hg ↦ ?_⟩
  · obtain rfl := Option.some.inj hr'
    exact ⟨hr, habove.le, le_rfl⟩
  · rcases le_or_gt x (priceKey o.sellPrice) with hx | hx
    · exact .inr (.inl (hbelow x r' hr' hx))
    · by_cases heq : priceKey r.minPrice = x
      · subst heq
        exact .inl (hr.symm.trans hr')
      · have hlt := lt_of_le_of_ne (hnearest x r' hr' hx) heq
        have hkey : (groupShape g).lo r' = x := h.key hr'
        exact .inr (.inr (hkey ▸ (h.disjoint hr hr' hlt :)))
  · rw [groups_insert, groups_erase]
    refine if_congr (and_iff_right rfl) rfl (if_congr ?_ rfl rfl)
    rw [Option.map_some, Option.some_inj]
    exact ⟨fun h ↦ h.2.symm, fun h ↦ ⟨rfl, h.symm⟩⟩
  · rw [hexempt x hx]
    exact ⟨le_rfl, (habove.trans_le hrange).le⟩
  · rw [others_insert g' hg, others_erase g' hg]

/-- The group at or below the price takes in the order. -/
theorem insert_follows {r : OrderGroup} (hr : m.groups g (priceKey r.minPrice) = some r)
    (hmarket : SameMarket r.minPrice o.sellPrice)
    (hbelow : priceKey r.minPrice ≤ priceKey o.sellPrice)
    (hnearest : ∀ y r', m.groups g y = some r' → y ≤ priceKey o.sellPrice → y ≤ priceKey r.minPrice)
    {q : Price} (hq : (q = r.maxPrice ∧ priceKey o.sellPrice ≤ priceKey q) ∨
      (q = o.sellPrice ∧ priceKey r.maxPrice ≤ priceKey q ∧
        WithinPercentage g ⟨r.minPrice, q, r.totalForSale + o.forSale⟩)) :
    Follows g (orders.insert i o) ∅ m (m.insert (groupKey g r.minPrice)
      ⟨r.minPrice, q, r.totalForSale + o.forSale⟩) := by
  have hprice : ValidPrice o.sellPrice := ⟨ho.base, ho.quote, ho.assets⟩
  obtain ⟨hminValid, hmaxValid, hmarket', hpercent⟩ := h.good hr
  have hgood : (groupShape g).Good ⟨r.minPrice, q, r.totalForSale + o.forSale⟩ := by
    rcases hq with ⟨rfl, -⟩ | ⟨rfl, -, hpercent'⟩
    · exact ⟨hminValid, hmaxValid, hmarket', hpercent⟩
    · exact ⟨hminValid, hprice, hmarket, hpercent'⟩
  have hreach : priceKey o.sellPrice ≤ priceKey q ∧ priceKey r.maxPrice ≤ priceKey q := by
    rcases hq with ⟨rfl, hle⟩ | ⟨rfl, hle, -⟩
    · exact ⟨hle, le_rfl⟩
    · exact ⟨le_rfl, hle⟩
  refine ⟨h.add ⟨r.minPrice, q, r.totalForSale + o.forSale⟩ (some r) hvalid hi ho.forSale
    ⟨hbelow, hreach.1⟩ hgood (fun r' hr' ↦ ?_) (fun x r' hr' ↦ ?_) (add_comm _ _)
    (fun x ↦ ?_) fun x hx ↦ ?_, others_insert⟩
  · obtain rfl := Option.some.inj hr'
    exact ⟨hr, le_rfl, hreach.2⟩
  · rcases lt_trichotomy x (priceKey r.minPrice) with hx | rfl | hx
    · exact .inr (.inl (h.disjoint hr' hr hx))
    · exact .inl (hr.symm.trans hr')
    -- a group that starts above the group found starts above the price
    · have hlt : priceKey o.sellPrice < x :=
        not_le.1 fun hle ↦ absurd (hnearest x r' hr' hle) (not_le.2 hx)
      have hkey : (groupShape g).lo r' = x := h.key hr'
      refine .inr (.inr ?_)
      rw [hkey]
      rcases hq with ⟨rfl, -⟩ | ⟨rfl, -⟩
      · exact (h.disjoint hr hr' hx :)
      · exact hlt
  · rw [groups_insert]
    by_cases hx : x = priceKey r.minPrice
    · exact (if_pos ⟨rfl, hx⟩).trans (if_pos hx).symm
    · refine (if_neg fun heq ↦ hx heq.2).trans ?_
      exact (if_neg hx).trans (if_neg fun heq ↦ hx (Option.some.inj heq).symm) |>.symm
  · rw [hexempt x hx]
    exact ⟨hbelow, hreach.1⟩

/-- The group above, or a group of its own. -/
theorem joinAbove_ok (hbelow : ∀ y r, m.groups g y = some r → y ≤ priceKey o.sellPrice →
    priceKey r.maxPrice < priceKey o.sellPrice) :
    ∃ m', m.joinAbove g o ⟨o.sellPrice, false, false⟩ = .ok m' ∧ Follows g (orders.insert i o) ∅ m m' := by
  have hcreate := createOgo_follows h hvalid hi ho hexempt hbelow
  unfold joinAbove
  rcases above_cases (o := o) h with ⟨r, hbefore, hmarket, hr, habove, hnearest⟩ | hnone
  · obtain ⟨q, hq, hpos⟩ := rational_percentage_inv g
    obtain ⟨p, hp, -⟩ := scale_spec (h.good hr).2.1 hpos
    have hdiv : r.maxPrice.divRatio (hundredPercent + g) hundredPercent = .ok p :=
      Except.bind_eq_ok.2 ⟨q, hq, hp⟩
    rw [hbefore]
    dsimp only
    rw [if_pos (sameMarket_groupKey.2 hmarket), hdiv]
    by_cases hlt : o.sellPrice < p
    · exact ⟨_, if_pos hlt, hcreate⟩
    · refine ⟨_, (if_neg hlt).trans (if_neg fun hcapped ↦ Bool.false_ne_true hcapped.1), ?_⟩
      exact moveMin_follows h hvalid hi ho hexempt hbelow hr hmarket habove hnearest hdiv hlt
  · rcases hbefore : m.predecessor (groupKey g o.sellPrice) with - | entry
    · exact ⟨_, rfl, hcreate⟩
    · dsimp only
      rw [hnone entry hbefore]
      exact ⟨_, rfl, hcreate⟩

/-- **An order is inserted**: the groups of the percentage follow. -/
theorem insertOrder_ok :
    ∃ m', m.insertOrder o g = .ok m' ∧ Follows g (orders.insert i o) ∅ m m' := by
  have hprice : ValidPrice o.sellPrice := ⟨ho.base, ho.quote, ho.assets⟩
  unfold insertOrder
  by_cases hempty : m.isEmpty = true
  · rw [if_pos hempty]
    refine ⟨_, rfl, createOgo_follows h hvalid hi ho hexempt fun y r hr ↦ ?_⟩
    have hnone := FlatMap.isEmpty_iff_find?.1 hempty (toLex (g, toDual y))
    cases hnone.symm.trans hr
  rw [if_neg hempty, capPrice_eq ho]
  rw [Except.ok_bind]
  rcases below_cases (o := o) h with ⟨r, hlower, hmarket, hr, hbelow, hnearest⟩ | ⟨hnone, hbelow⟩
  · obtain ⟨hminValid, hmaxValid, -, -⟩ := h.good hr
    rw [hlower]
    dsimp only
    rw [if_pos (sameMarket_groupKey.2 hmarket)]
    by_cases hmax : r.maxPrice < o.sellPrice
    · obtain ⟨q, hq, hone⟩ := rational_percentage g
      obtain ⟨p, hp, -⟩ := scale_spec hminValid (zero_lt_one.trans_le hone)
      have hmax' := (lt_iff_priceKey_lt hmaxValid hprice).1 hmax
      rw [if_pos hmax, hq]
      show ∃ m', (r.minPrice.scale q).bind _ = Except.ok m' ∧ _
      rw [hp]
      show ∃ m', (if p < o.sellPrice then _ else _) = Except.ok m' ∧ _
      by_cases hlt : p < o.sellPrice
      · rw [if_pos hlt]
        refine joinAbove_ok h hvalid hi ho hexempt fun y r' hr' hy ↦ ?_
        rcases (hnearest y r' hr' hy).lt_or_eq with hlt | rfl
        · exact (h.disjoint hr' hr hlt :).trans_le hbelow
        · obtain rfl := Option.some.inj (hr.symm.trans hr')
          exact hmax'
      · refine ⟨_, if_neg hlt, insert_follows h hvalid hi ho hexempt hr hmarket hbelow hnearest
          (.inr ⟨rfl, hmax'.le, .inl ⟨p, ?_, hlt⟩⟩)⟩
        rw [hq]
        exact hp
    · rw [if_neg hmax]
      exact ⟨_, rfl, insert_follows h hvalid hi ho hexempt hr hmarket hbelow hnearest
        (.inl ⟨rfl, (not_lt_iff_priceKey_le hmaxValid hprice).1 hmax⟩)⟩
  · have habove := joinAbove_ok h hvalid hi ho hexempt hbelow
    rcases hlower : m.lowerBound (groupKey g o.sellPrice) with - | entry
    · exact habove
    · dsimp only
      rw [hnone entry hlower]
      exact habove

end Insertion

/-! ### Removal -/

section Removal

variable {m : OrderGroups} {g i : ℕ} {orders : FlatMap ℕ LimitOrder} {o : LimitOrder}

/-- The positions at which a group may be empty after a removal. -/
def exemptAfter (o : LimitOrder) (removeEmpty : Bool) : Set PriceKey :=
  {x | removeEmpty = false ∧ x = priceKey o.sellPrice}

/-- **An order is removed**: the groups of the percentage follow. -/
theorem removeOrder_follows (h : (groupShape g).Covers orders ∅ (m.groups g))
    (hvalid : ∀ i o, orders.find? i = some o → 0 < o.forSale) (hprice : ValidPrice o.sellPrice)
    (hi : orders.find? i = some o) (removeEmpty : Bool) :
    Follows g (orders.erase i) (exemptAfter o removeEmpty) m (m.removeOrder o removeEmpty g) := by
  obtain ⟨x, r', hr', hin⟩ := h.covered hi
  rcases below_cases (o := o) h with ⟨r, hlower, hmarket, hr, hbelow, hnearest⟩ | ⟨-, hbelow⟩
  -- the group found is the one that has the order
  · obtain rfl : priceKey r'.minPrice = x := h.key hr'
    have heq : priceKey r'.minPrice = priceKey r.minPrice := by
      refine (hnearest _ r' hr' hin.1).eq_of_not_lt fun hlt ↦ ?_
      exact absurd (hin.2.trans_lt (h.disjoint hr' hr hlt)) (not_lt.2 hbelow)
    rw [heq] at hr'
    obtain rfl := Option.some.inj (hr.symm.trans hr')
    obtain ⟨hminValid, hmaxValid, hmarket', hpercent⟩ := h.good hr
    have hmax : ¬r.maxPrice < o.sellPrice := (not_lt_iff_priceKey_le hmaxValid hprice).2 hin.2
    have hrest : r.totalForSale = o.forSale + (groupShape g).weightWithin (orders.erase i) r := by
      have htotal := h.total hr
      rw [IntervalShape.weightWithin_eq_add_erase hi, if_pos hin] at htotal
      exact htotal
    have hnonneg : 0 ≤ (groupShape g).weightWithin (orders.erase i) r := by
      refine IntervalShape.weightWithin_nonneg fun j q hq ↦ ?_
      rw [FlatMap.find?_erase] at hq
      split_ifs at hq
      exact hvalid j q hq
    unfold removeOrder
    rw [hlower]
    dsimp only
    rw [if_pos ⟨sameMarket_groupKey.2 hmarket, hmax⟩, if_neg (by omega)]
    by_cases hkeep : removeEmpty = false ∨ o.forSale < r.totalForSale
    · rw [if_pos hkeep]
      refine ⟨h.takeOut ⟨r.minPrice, r.maxPrice, r.totalForSale - o.forSale⟩ hi hr hin rfl rfl
        ⟨hminValid, hmaxValid, hmarket', hpercent⟩ rfl (fun y ↦ ?_) ?_, others_insert⟩
      · rw [groups_insert]
        exact if_congr (and_iff_right rfl) rfl rfl
      · refine hkeep.symm.imp (fun hlt ↦ ?_) fun hfalse ↦ ⟨hfalse, rfl⟩
        show 0 < r.totalForSale - o.forSale
        omega
    · rw [if_neg hkeep]
      rw [not_or, not_lt] at hkeep
      refine ⟨h.drop hvalid hi hr hin ?_ fun y ↦ ?_, others_erase⟩
      · show r.totalForSale = o.forSale
        omega
      · rw [groups_erase]
        exact if_congr (and_iff_right rfl) rfl rfl
  · obtain rfl : (groupShape g).lo r' = x := h.key hr'
    exact absurd (hbelow _ r' hr' hin.1) (not_lt.2 hin.2)

end Removal

/-! ### All percentages -/

section Percentages

variable {m : OrderGroups} {i : ℕ} {orders : FlatMap ℕ LimitOrder} {exempt : Set PriceKey}
  {o : LimitOrder} {l : List ℕ}

theorem foldlM_insertOrder (hnodup : l.Nodup)
    (h : ∀ g ∈ l, (groupShape g).Covers orders exempt (m.groups g))
    (hvalid : ∀ i o, orders.find? i = some o → 0 < o.forSale) (hi : orders.find? i = none)
    (ho : o.Valid) (hexempt : ∀ x ∈ exempt, x = priceKey o.sellPrice) :
    ∃ m', l.foldlM (insertOrder o) m = .ok m' ∧
      (∀ g ∈ l, (groupShape g).Covers (orders.insert i o) ∅ (m'.groups g)) ∧
      ∀ g ∉ l, m'.groups g = m.groups g := by
  induction l generalizing m with
  | nil => exact ⟨m, rfl, fun _ hg ↦ (by cases hg), fun _ _ ↦ rfl⟩
  | cons g l ih =>
    obtain ⟨hg, hnodup⟩ := List.nodup_cons.1 hnodup
    obtain ⟨m₁, hm₁, hcovers, hothers⟩ :=
      insertOrder_ok (h g List.mem_cons_self) hvalid hi ho hexempt
    have hrest (g' : ℕ) (hg' : g' ∈ l) : (groupShape g').Covers orders exempt (m₁.groups g') := by
      rw [hothers g' fun heq ↦ hg (heq ▸ hg')]
      exact h g' (List.mem_cons_of_mem _ hg')
    obtain ⟨m₂, hm₂, hcovers', hothers'⟩ := ih hnodup hrest
    refine ⟨m₂, ?_, fun g' hg' ↦ ?_, fun g' hg' ↦ ?_⟩
    · rw [List.foldlM_cons, hm₁]
      exact hm₂
    · rcases List.mem_cons.1 hg' with rfl | hg'
      · rw [hothers' g' hg]
        exact hcovers
      · exact hcovers' g' hg'
    · rw [List.mem_cons, not_or] at hg'
      rw [hothers' g' hg'.2, hothers g' hg'.1]

theorem foldl_removeOrder (hnodup : l.Nodup) (h : ∀ g ∈ l, (groupShape g).Covers orders ∅ (m.groups g))
    (hvalid : ∀ i o, orders.find? i = some o → 0 < o.forSale) (hprice : ValidPrice o.sellPrice)
    (hi : orders.find? i = some o) (removeEmpty : Bool) :
    (∀ g ∈ l, (groupShape g).Covers (orders.erase i) (exemptAfter o removeEmpty)
      (groups (l.foldl (removeOrder o removeEmpty) m) g)) ∧
      ∀ g ∉ l, groups (l.foldl (removeOrder o removeEmpty) m) g = m.groups g := by
  induction l generalizing m with
  | nil => exact ⟨fun _ hg ↦ (by cases hg), fun _ _ ↦ rfl⟩
  | cons g l ih =>
    obtain ⟨hg, hnodup⟩ := List.nodup_cons.1 hnodup
    obtain ⟨hcovers, hothers⟩ := removeOrder_follows (h g List.mem_cons_self) hvalid hprice hi removeEmpty
    have hrest (g' : ℕ) (hg' : g' ∈ l) :
        (groupShape g').Covers orders ∅ ((m.removeOrder o removeEmpty g).groups g') := by
      rw [hothers g' fun heq ↦ hg (heq ▸ hg')]
      exact h g' (List.mem_cons_of_mem _ hg')
    obtain ⟨hcovers', hothers'⟩ := ih hnodup hrest
    refine ⟨fun g' hg' ↦ ?_, fun g' hg' ↦ ?_⟩
    · rcases List.mem_cons.1 hg' with rfl | hg'
      · rw [List.foldl_cons, hothers' g' hg]
        exact hcovers
      · exact hcovers' g' hg'
    · rw [List.mem_cons, not_or] at hg'
      rw [List.foldl_cons, hothers' g' hg'.2, hothers g' hg'.1]

end Percentages

end OrderGroups

end Playchain.GroupedOrders
