import Playchain.Spec.BuyOuts

/-!
# What a pending buy-out pays

Serving the pending buy-outs of a table touches three books of a player: the cash of the result, the
cash at the table and the cash in the game. `PlayerMoney.pay` says what one request does to them, and
the loop over all pending buy-outs applies it once to each player who has asked to leave, with the
amount asked for, and to nobody else (`pendingBuyoutsResolve_pays`).

The turns of the loop do not disturb each other: a pending buy-out is unique for its player and table,
and a player is unique for its account.
-/

namespace Playchain

variable {d : Database} {table : TableId} {t : TableObject} {p : PlayerId} {a : AccountId} {n : ℤ}

/-! ### The money of one player -/

/-- The money of a player in the books that a pending buy-out is paid from, and on the account. -/
@[ext]
structure PlayerMoney where
  /-- The cash at the table. -/
  cash : ℤ
  /-- The cash in the game. -/
  playing : ℤ
  /-- The cash of the result, if the player is in it. -/
  result : Option ℤ
  /-- The balance of the account. -/
  balance : ℤ

namespace PlayerMoney

/-- What can be paid: the cash of the result or the cash in the game, and the cash at the table. -/
def available (m : PlayerMoney) : ℤ := m.result.getD m.playing + m.cash

/-- Pay `n` from the result, then from the table, and from the game for players who are not in the
result. -/
def pay (m : PlayerMoney) (n : ℤ) : PlayerMoney :=
  let fromResult := min (m.result.getD 0) n
  let fromCash := min m.cash (n - fromResult)
  let fromPlaying := if m.result.isSome then 0 else min m.playing (n - fromResult - fromCash)
  { cash := m.cash - fromCash
    playing := m.playing - fromPlaying
    result := m.result.map (· - fromResult)
    balance := m.balance + (fromResult + fromCash + fromPlaying) }

/-- No amount is negative. -/
structure Nonneg (m : PlayerMoney) : Prop where
  cash : 0 ≤ m.cash
  playing : 0 ≤ m.playing
  result : 0 ≤ m.result.getD 0

/-- The request `n` turns the money `m` of a player into `m'`: the balance grows by what is available,
at most `n`, and what is available shrinks by the same sum; no book grows or becomes negative, and a
player of the result keeps the cash in the game. -/
structure Pays (m m' : PlayerMoney) (n : ℤ) : Prop where
  balance : m'.balance = m.balance + min n m.available
  available : m'.available = m.available - min n m.available
  cash : 0 ≤ m'.cash ∧ m'.cash ≤ m.cash
  playing : 0 ≤ m'.playing ∧ m'.playing ≤ m.playing
  result : 0 ≤ m'.result.getD 0 ∧ m'.result.getD 0 ≤ m.result.getD 0
  inResult : m'.result.isSome = m.result.isSome ∧ (m.result.isSome = true → m'.playing = m.playing)

theorem pays_pay {m : PlayerMoney} (hm : m.Nonneg) (hn : 0 ≤ n) : m.Pays (m.pay n) n := by
  obtain ⟨cash, playing, result, balance⟩ := m
  obtain ⟨hcash, hplaying, hresult⟩ := hm
  rcases result with - | x
  · dsimp only at hcash hplaying
    constructor
    all_goals
      simp only [pay, PlayerMoney.available, Option.getD_none, Option.isSome_none, Option.map_none,
        Bool.false_eq_true, if_false, false_implies, and_true, le_refl]
    all_goals omega
  · simp only [Option.getD_some] at hcash hplaying hresult
    constructor
    all_goals
      simp only [pay, PlayerMoney.available, Option.getD_some, Option.isSome_some, Option.map_some,
        if_true, sub_zero, implies_true, and_true]
    all_goals omega

theorem pay_zero {m : PlayerMoney} (hm : m.Nonneg) : m.pay 0 = m := by
  obtain ⟨cash, playing, result, balance⟩ := m
  obtain ⟨hcash, hplaying, hresult⟩ := hm
  rcases result with - | x
  · dsimp only at hcash hplaying
    simp only [pay, Option.getD_none, Option.isSome_none, Option.map_none, Bool.false_eq_true,
      if_false, PlayerMoney.mk.injEq, true_and]
    omega
  · simp only [Option.getD_some] at hcash hplaying hresult
    simp only [pay, Option.getD_some, Option.isSome_some, Option.map_some, if_true,
      PlayerMoney.mk.injEq, Option.some.injEq]
    omega

end PlayerMoney

/-- The money of a player with account `a`. -/
noncomputable def moneyOf (d : Database) (t : TableObject) (r : GameResult) (p : PlayerId)
    (a : AccountId) : PlayerMoney where
  cash := held t.cash p
  playing := held t.playingCash p
  result := (r.cash.find? a).map fun g ↦ g.cash.amount
  balance := d.getBalance a coreAsset

theorem held_nonneg {m : FlatMap PlayerId Asset} (h : CashOk m) (p : PlayerId) : 0 ≤ held m p := by
  rcases hfind : m.find? p with - | v
  · rw [held_of_find?_none hfind]
  · rw [held_of_find?_some hfind]
    exact (h p v hfind).1.le

theorem nonneg_moneyOf {r : GameResult} (hcash : CashOk t.cash) (hplaying : CashOk t.playingCash)
    (hr : PayoutOk r) : (moneyOf d t r p a).Nonneg := by
  refine ⟨held_nonneg hcash p, held_nonneg hplaying p, ?_⟩
  rcases hfind : r.cash.find? a with - | g
  · simp [moneyOf, hfind]
  · simpa [moneyOf, hfind] using (hr a g hfind).1

/-! ### Taking from one book -/

/-- The entry of one player is reduced. -/
structure Reduced (m m' : FlatMap PlayerId Asset) (p : PlayerId) (n : ℤ) : Prop where
  ok : CashOk m'
  held : held m' p = Playchain.held m p - n
  others : ∀ q, q ≠ p → m'.find? q = m.find? q

theorem Reduced.refl {m : FlatMap PlayerId Asset} (h : CashOk m) (p : PlayerId) : Reduced m m p 0 :=
  ⟨h, (sub_zero _).symm, fun _ _ ↦ rfl⟩

theorem Asset.min_of_core (x y : ℤ) :
    (⟨x, coreAsset⟩ : Asset).min ⟨y, coreAsset⟩ = .ok ⟨Min.min x y, coreAsset⟩ := by
  by_cases h : y < x
  · simp [Asset.min, Asset.lt, Asset.sameAsset, h, min_eq_right h.le]
  · simp [Asset.min, Asset.lt, Asset.sameAsset, h, min_eq_left (not_lt.1 h)]

theorem Asset.sub_of_core (x y : ℤ) :
    (⟨x, coreAsset⟩ : Asset).sub ⟨y, coreAsset⟩ = .ok ⟨x - y, coreAsset⟩ :=
  Asset.sub_of_eq rfl

/-- A withdrawal that is covered. -/
theorem adjustEntry_withdraw {m : FlatMap PlayerId Asset} (hm : CashOk m) {v : Asset}
    (hv : m.find? p = some v) (hn : n ≤ v.amount) :
    ∃ s, adjustEntry m p (-⟨n, coreAsset⟩) = .ok s ∧ Reduced m s.cash p n := by
  have hcore := (hm p v hv).2
  have hadd : v.add (-⟨n, coreAsset⟩) = .ok ⟨v.amount - n, coreAsset⟩ := by
    rw [Asset.add_eq_ok]
    exact ⟨hcore, by rw [Asset.neg_amount, hcore, ← sub_eq_add_neg]⟩
  rw [adjustEntry, hv]
  dsimp only
  rw [hadd, Except.ok_bind]
  dsimp only
  split_ifs with hclosed
  · refine ⟨_, rfl, fun q w hw ↦ ?_, ?_, fun q hq ↦ ?_⟩
    · rw [FlatMap.find?_erase] at hw
      split_ifs at hw
      exact hm q w hw
    · rw [held_of_find?_none (by rw [FlatMap.find?_erase, if_pos rfl]), held_of_find?_some hv]
      omega
    · rw [FlatMap.find?_erase, if_neg hq]
  · refine ⟨_, rfl, fun q w hw ↦ ?_, ?_, fun q hq ↦ ?_⟩
    · rw [FlatMap.find?_insert] at hw
      split_ifs at hw with hq
      · obtain rfl := Option.some.inj hw
        exact ⟨by show 0 < v.amount - n; omega, rfl⟩
      · exact hm q w hw
    · rw [held_of_find?_some (by rw [FlatMap.find?_insert, if_pos rfl]), held_of_find?_some hv]
    · rw [FlatMap.find?_insert, if_neg hq]

/-- Only one table has changed, and nothing else. -/
structure OnTable (d d' : Database) (table : TableId) (t' : TableObject) : Prop where
  eq : d' = { d with tables := d'.tables }
  find : d'.tables.find? table = some t'
  others : ∀ i, i ≠ table → d'.tables.find? i = d.tables.find? i

theorem OnTable.refl (ht : d.tables.find? table = some t) : OnTable d d table t :=
  ⟨rfl, ht, fun _ _ ↦ rfl⟩

theorem OnTable.set (ht : d.tables.find? table = some t) (t' : TableObject) :
    OnTable d { d with tables := d.tables.set table t' } table t' :=
  ⟨rfl, ObjectIndex.find?_set_self ht t', fun _ hi ↦ ObjectIndex.find?_modify_of_ne _ _ hi⟩

/-- The part that the result pays. -/
theorem resolveFromResult_eq {r : GameResult} (hr : PayoutOk r) (a : AccountId) (hn : 0 ≤ n) :
    ∃ r', resolveFromResult a ⟨n, coreAsset⟩ r =
        .ok (⟨n - min (((r.cash.find? a).map fun g ↦ g.cash.amount).getD 0) n, coreAsset⟩, r') ∧
      PayoutOk r' ∧ SameRakes r r' ∧ (∀ b, b ≠ a → r'.cash.find? b = r.cash.find? b) ∧
      ((r'.cash.find? a).map fun g ↦ g.cash.amount) = ((r.cash.find? a).map fun g ↦ g.cash.amount).map
        (· - min (((r.cash.find? a).map fun g ↦ g.cash.amount).getD 0) n) := by
  rw [resolveFromResult]
  rcases hg : r.cash.find? a with - | g
  · refine ⟨r, ?_, hr, fun _ ↦ rfl, fun _ _ ↦ rfl, by rw [hg]; rfl⟩
    simp only [Option.map_none, Option.getD_none, min_eq_left hn, sub_zero]
    rfl
  obtain ⟨hnonneg, hcore⟩ := hr a g hg
  have hcash : g.cash = ⟨g.cash.amount, coreAsset⟩ := by rw [← hcore]
  have hleft : 0 ≤ g.cash.amount - min g.cash.amount n := by omega
  let g' : GamerCashResult := { g with cash := ⟨g.cash.amount - min g.cash.amount n, coreAsset⟩ }
  refine ⟨{ r with cash := r.cash.insert a g' }, ?_, fun b h hb ↦ ?_, fun b ↦ ?_, fun b hb ↦ ?_, ?_⟩
  · dsimp only
    rw [hcash, Asset.min_of_core, Except.ok_bind, Asset.sub_of_core, Except.ok_bind,
      Asset.sub_of_core, Except.ok_bind]
    rfl
  · rw [FlatMap.find?_insert] at hb
    split_ifs at hb
    · obtain rfl := Option.some.inj hb
      exact ⟨hleft, rfl⟩
    · exact hr b h hb
  · rw [FlatMap.find?_insert]
    split_ifs with hb
    · rw [hb, hg]
      rfl
    · rfl
  · rw [FlatMap.find?_insert, if_neg hb]
  · rw [FlatMap.find?_insert, if_pos rfl]
    rfl

/-- The part that the cash at the table pays. -/
theorem resolveFromCash_eq (ht : d.tables.find? table = some t) (hcash : CashOk t.cash)
    (p : PlayerId) (hn : 0 ≤ n) :
    ∃ d' t', resolveFromCash d table p ⟨n, coreAsset⟩ =
        .ok (⟨n - min (held t.cash p) n, coreAsset⟩, d') ∧
      OnTable d d' table t' ∧
      Reduced t.cash t'.cash p (min (held t.cash p) n) ∧ t'.playingCash = t.playingCash := by
  rw [resolveFromCash, tableById_of_find? ht, Except.ok_bind]
  rcases hc : t.cash.find? p with - | v
  · refine ⟨d, t, ?_, .refl ht, ?_, rfl⟩
    · rw [held_of_find?_none hc, min_eq_left hn, sub_zero]
      rfl
    · rw [held_of_find?_none hc, min_eq_left hn]
      exact .refl hcash p
  obtain ⟨hpos, hcore⟩ := hcash p v hc
  have hv : v = ⟨v.amount, coreAsset⟩ := by rw [← hcore]
  rw [held_of_find?_some hc]
  dsimp only
  by_cases hrest : 0 < n
  · obtain ⟨s, hs, hreduced⟩ := adjustEntry_withdraw hcash hc (min_le_left v.amount n)
    rw [if_pos hrest, hv, Asset.min_of_core, Except.ok_bind, Asset.sub_of_core, Except.ok_bind,
      Database.modifyTable, tableById_of_find? ht, Except.ok_bind, TableObject.adjustCash, hs]
    exact ⟨_, _, rfl, .set ht _, hreduced, rfl⟩
  · have hzero : n = 0 := le_antisymm (not_lt.1 hrest) hn
    rw [if_neg hrest]
    refine ⟨d, t, ?_, .refl ht, ?_, rfl⟩
    · rw [hzero, min_eq_right hpos.le, sub_zero]
      rfl
    · rw [hzero, min_eq_right hpos.le]
      exact .refl hcash p

/-- The part that the cash in the game pays. -/
theorem resolveFromPlayingCash_eq (ht : d.tables.find? table = some t)
    (hplaying : CashOk t.playingCash) (p : PlayerId) (hn : 0 ≤ n) (inResult : Bool) :
    ∃ d' t', resolveFromPlayingCash d table p ⟨n, coreAsset⟩ inResult =
        .ok (⟨n - if inResult then 0 else min (held t.playingCash p) n, coreAsset⟩, d') ∧
      OnTable d d' table t' ∧
      Reduced t.playingCash t'.playingCash p
        (if inResult then 0 else min (held t.playingCash p) n) ∧ t'.cash = t.cash := by
  rw [resolveFromPlayingCash, tableById_of_find? ht, Except.ok_bind]
  -- the branches that leave everything in the game
  have hnothing : (if inResult then 0 else min (held t.playingCash p) n) = 0 →
      ∃ d' t', (.ok (⟨n, coreAsset⟩, d) : Except ChainError (Asset × Database)) =
        .ok (⟨n - if inResult then 0 else min (held t.playingCash p) n, coreAsset⟩, d') ∧
      OnTable d d' table t' ∧
      Reduced t.playingCash t'.playingCash p
        (if inResult then 0 else min (held t.playingCash p) n) ∧ t'.cash = t.cash := by
    intro hzero
    rw [hzero, sub_zero]
    exact ⟨d, t, rfl, .refl ht, .refl hplaying p, rfl⟩
  rcases hc : t.playingCash.find? p with - | v
  · refine hnothing ?_
    rw [held_of_find?_none hc, min_eq_left hn, ite_self]
  obtain ⟨hpos, hcore⟩ := hplaying p v hc
  have hv : v = ⟨v.amount, coreAsset⟩ := by rw [← hcore]
  dsimp only
  by_cases hcond : 0 < n ∧ inResult = false
  · obtain ⟨s, hs, hreduced⟩ := adjustEntry_withdraw hplaying hc (min_le_left v.amount n)
    rw [if_pos hcond, hcond.2, held_of_find?_some hc, if_neg Bool.false_ne_true, hv,
      Asset.min_of_core, Except.ok_bind, Asset.sub_of_core, Except.ok_bind, Database.modifyTable,
      tableById_of_find? ht, Except.ok_bind, TableObject.adjustPlayingCash, hs]
    exact ⟨_, _, rfl, .set ht _, hreduced, rfl⟩
  · rw [if_neg hcond]
    refine hnothing ?_
    rw [held_of_find?_some hc]
    cases inResult with
    | true => rfl
    | false =>
      have hzero : n = 0 := le_antisymm (not_lt.1 fun h ↦ hcond ⟨h, rfl⟩) hn
      rw [if_neg Bool.false_ne_true, hzero, min_eq_right hpos.le]

/-! ### One pending buy-out -/

/-- A deposit in the core asset. -/
theorem adjustBalance_deposit (d : Database) (a : AccountId) (hn : 0 < n) :
    ∃ b, d.adjustBalance a ⟨n, coreAsset⟩ = .ok { d with balances := b } ∧
      (b.find? (toLex (a, coreAsset))).getD 0 = d.getBalance a coreAsset + n ∧
      ∀ k, k ≠ toLex (a, coreAsset) → b.find? k = d.balances.find? k := by
  rw [Database.adjustBalance, if_neg (show ¬n = 0 from hn.ne'), Database.getBalance]
  rcases hfind : d.balances.find? (toLex (a, coreAsset)) with - | old
  · dsimp only
    rw [fcAssert_of_true hn, Except.ok_bind]
    refine ⟨_, rfl, ?_, fun k hk ↦ by rw [FlatMap.find?_insert, if_neg hk]⟩
    rw [FlatMap.find?_insert, if_pos rfl]
    simp
  · dsimp only
    rw [if_neg hn.le.not_gt]
    refine ⟨_, rfl, ?_, fun k hk ↦ by rw [FlatMap.find?_insert, if_neg hk]⟩
    rw [FlatMap.find?_insert, if_pos rfl]
    rfl

/-- What serving the request `n` of a player does: the money of the player is paid, and everything
else that the loop works on is as before. -/
structure Turn (table : TableId) (s s' : Database × GameResult) (t t' : TableObject) (p : PlayerId)
    (a : AccountId) (n : ℤ) : Prop where
  found : s'.1.tables.find? table = some t'
  otherTables : ∀ i, i ≠ table → s'.1.tables.find? i = s.1.tables.find? i
  cash : CashOk t'.cash
  playingCash : CashOk t'.playingCash
  payout : PayoutOk s'.2
  rakes : SameRakes s.2 s'.2
  money : moneyOf s'.1 t' s'.2 p a = (moneyOf s.1 t s.2 p a).pay n
  otherPlayers : ∀ q, q ≠ p →
    t'.cash.find? q = t.cash.find? q ∧ t'.playingCash.find? q = t.playingCash.find? q
  otherResults : ∀ b, b ≠ a → s'.2.cash.find? b = s.2.cash.find? b
  otherBalances : ∀ k, k ≠ toLex (a, coreAsset) → s'.1.balances.find? k = s.1.balances.find? k
  players : s'.1.players = s.1.players

/-- **A turn of the loop.** -/
theorem resolvePendingBuyOut_turn {s : Database × GameResult} {i : ℕ} {b : PendingBuyOutObject}
    {obj : PlayerObject} (owner : AccountId) (ht : s.1.tables.find? table = some t)
    (hcash : CashOk t.cash) (hplaying : CashOk t.playingCash) (hr : PayoutOk s.2)
    (hobj : s.1.players.find? b.player = some obj) (hb : b.amount.assetId = coreAsset)
    (hn : 0 ≤ b.amount.amount) :
    ∃ s' t', resolvePendingBuyOut table owner s (i, b) = .ok s' ∧
      Turn table s s' t t' b.player obj.account b.amount.amount ∧
      s'.1.pendingBuyOuts = s.1.pendingBuyOuts.remove i := by
  have hamount : b.amount = ⟨b.amount.amount, coreAsset⟩ := by rw [← hb]
  generalize hreq : b.amount.amount = n at hn hamount
  obtain ⟨r₁, hr₁, hpayout₁, hrakes₁, hothers₁, hresult₁⟩ := resolveFromResult_eq hr obj.account hn
  generalize hx : ((s.2.cash.find? obj.account).map fun g ↦ g.cash.amount) = result at hr₁ hresult₁
  have hx0 : 0 ≤ n - min (result.getD 0) n := by omega
  obtain ⟨d₂, t₂, hd₂, hon₂, hreduced₂, hplay₂⟩ := resolveFromCash_eq ht hcash b.player hx0
  have hy0 : 0 ≤ n - min (result.getD 0) n -
      min (held t.cash b.player) (n - min (result.getD 0) n) := by omega
  have hcontains : r₁.cash.contains obj.account = result.isSome := by
    rw [hrakes₁.contains, FlatMap.contains, ← hx, Option.isSome_map]
  obtain ⟨d₃, t₃, hd₃, hon₃, hreduced₃, hcash₃⟩ := resolveFromPlayingCash_eq hon₂.find
    (by rw [hplay₂]; exact hplaying) b.player hy0 result.isSome
  rw [hplay₂] at hd₃ hreduced₃
  -- what was taken, and what is left
  generalize hX : min (result.getD 0) n = x at hr₁ hresult₁ hx0 hd₂ hreduced₂ hy0 hd₃ hreduced₃
  generalize hY : min (held t.cash b.player) (n - x) = y at hd₂ hreduced₂ hy0 hd₃ hreduced₃
  generalize hZ : (if result.isSome = true then 0 else min (held t.playingCash b.player) (n - x - y)) =
    z at hd₃ hreduced₃
  have hpay : (moneyOf s.1 t s.2 b.player obj.account).pay n =
      { cash := held t.cash b.player - y
        playing := held t.playingCash b.player - z
        result := result.map (· - x)
        balance := s.1.getBalance obj.account coreAsset + (x + y + z) } := by
    simp only [PlayerMoney.pay, moneyOf, hx, hX, hY, hZ]
  have hnonneg := nonneg_moneyOf (d := s.1) (p := b.player) (a := obj.account) hcash hplaying hr
  have hcredit : 0 ≤ x + y + z := by
    have hresult : 0 ≤ result.getD 0 := hx ▸ hnonneg.result
    have hheld : 0 ≤ held t.cash b.player := hnonneg.cash
    have hheld' : 0 ≤ held t.playingCash b.player := hnonneg.playing
    have hz : 0 ≤ z := by
      rw [← hZ]
      split_ifs <;> omega
    omega
  have hallowed : (⟨n, coreAsset⟩ : Asset).sub ⟨n - x - y - z, coreAsset⟩ =
      .ok ⟨x + y + z, coreAsset⟩ := by
    rw [Asset.sub_of_core]
    congr 2
    omega
  -- the deposit, which is left out when nothing was taken
  obtain ⟨balances, hdeposit, hbalance, hothers⟩ : ∃ balances,
      (if 0 < x + y + z then do
        let d ← d₃.adjustBalance obj.account ⟨x + y + z, coreAsset⟩
        pure (d.pushGameEvent table owner (.buyOutAllowed obj.account ⟨x + y + z, coreAsset⟩))
      else pure d₃) = .ok { d₃ with
        balances := balances
        appliedOperations := if 0 < x + y + z then
          .gameEvent table owner (.buyOutAllowed obj.account ⟨x + y + z, coreAsset⟩) ::
            d₃.appliedOperations else d₃.appliedOperations } ∧
      (balances.find? (toLex (obj.account, coreAsset))).getD 0 =
        d₃.getBalance obj.account coreAsset + (x + y + z) ∧
      ∀ k, k ≠ toLex (obj.account, coreAsset) → balances.find? k = d₃.balances.find? k := by
    by_cases hpos : 0 < x + y + z
    · obtain ⟨balances, hadjust, hbalance, hothers⟩ := adjustBalance_deposit d₃ obj.account hpos
      refine ⟨balances, ?_, hbalance, hothers⟩
      rw [if_pos hpos, if_pos hpos, hadjust]
      rfl
    · refine ⟨d₃.balances, ?_, ?_, fun _ _ ↦ rfl⟩
      · rw [if_neg hpos, if_neg hpos]
        rfl
      · rw [le_antisymm (not_lt.1 hpos) hcredit, add_zero, Database.getBalance]
  have hfields : d₃.balances = s.1.balances ∧ d₃.players = s.1.players ∧
      d₃.pendingBuyOuts = s.1.pendingBuyOuts := by
    rw [hon₃.eq, hon₂.eq]
    exact ⟨rfl, rfl, rfl⟩
  have hrun : ∃ log, resolvePendingBuyOut table owner s (i, b) = .ok ({ d₃ with
      balances := balances
      appliedOperations := log
      pendingBuyOuts := d₃.pendingBuyOuts.remove i }, r₁) := by
    rw [resolvePendingBuyOut, playerById_of_find? hobj, Except.ok_bind]
    dsimp only
    rw [hamount, hr₁, Except.ok_bind]
    dsimp only
    rw [hd₂, Except.ok_bind]
    dsimp only
    rw [hcontains, hd₃, Except.ok_bind]
    dsimp only
    rw [hallowed, Except.ok_bind, hdeposit, Except.ok_bind]
    split_ifs <;> exact ⟨_, rfl⟩
  obtain ⟨log, hrun⟩ := hrun
  refine ⟨_, t₃, hrun, ⟨hon₃.find, fun j hj ↦ (hon₃.others j hj).trans (hon₂.others j hj),
    by rw [hcash₃]; exact hreduced₂.ok, hreduced₃.ok, hpayout₁, hrakes₁, ?_, fun q hq ↦ ?_, hothers₁,
    fun k hk ↦ (hothers k hk).trans (by rw [hfields.1]), hfields.2.1⟩, by rw [← hfields.2.2]⟩
  · rw [hpay]
    ext1
    · show held t₃.cash b.player = _
      rw [hcash₃, hreduced₂.held]
    · exact hreduced₃.held
    · exact hresult₁
    · show (balances.find? _).getD 0 = _
      rw [hbalance, Database.getBalance, Database.getBalance, hfields.1]
  · rw [hcash₃]
    exact ⟨hreduced₂.others q hq, hreduced₃.others q hq⟩

/-! ### All pending buy-outs of a table -/

/-- What a player asks for in a list of pending buy-outs. -/
def requestIn (l : List (ℕ × PendingBuyOutObject)) (p : PlayerId) : ℤ :=
  ((l.find? fun b ↦ b.2.player = p).map fun b ↦ b.2.amount.amount).getD 0

theorem requestIn_cons_self (b : ℕ × PendingBuyOutObject) (l : List (ℕ × PendingBuyOutObject)) :
    requestIn (b :: l) b.2.player = b.2.amount.amount := by
  rw [requestIn, List.find?_cons_of_pos (by simp)]
  rfl

theorem requestIn_cons_of_ne {b : ℕ × PendingBuyOutObject} (h : b.2.player ≠ p)
    (l : List (ℕ × PendingBuyOutObject)) : requestIn (b :: l) p = requestIn l p := by
  rw [requestIn, List.find?_cons_of_neg (by simpa using h)]
  rfl

theorem requestIn_eq_zero {l : List (ℕ × PendingBuyOutObject)} (h : ∀ b ∈ l, b.2.player ≠ p) :
    requestIn l p = 0 := by
  rw [requestIn, List.find?_eq_none.2 fun b hb ↦ by simpa using h b hb]
  rfl

/-- Pending buy-outs that can be served: in the core asset, of players that exist, one for each
player. -/
structure Servable (players : UniqueIndex PlayerObject.account) (l : List (ℕ × PendingBuyOutObject)) :
    Prop where
  core : ∀ b ∈ l, b.2.amount.assetId = coreAsset
  nonneg : ∀ b ∈ l, 0 ≤ b.2.amount.amount
  player : ∀ b ∈ l, players.Has b.2.player
  distinct : (l.map fun b ↦ b.2.player).Nodup

/-- What serving a list of pending buy-outs does. -/
structure Settled (table : TableId) (l : List (ℕ × PendingBuyOutObject)) (s s' : Database × GameResult)
    (t t' : TableObject) : Prop where
  found : s'.1.tables.find? table = some t'
  otherTables : ∀ i, i ≠ table → s'.1.tables.find? i = s.1.tables.find? i
  rakes : SameRakes s.2 s'.2
  money : ∀ p obj, s.1.players.find? p = some obj →
    moneyOf s'.1 t' s'.2 p obj.account = (moneyOf s.1 t s.2 p obj.account).pay (requestIn l p)
  otherPlayers : ∀ q, (∀ b ∈ l, b.2.player ≠ q) →
    t'.cash.find? q = t.cash.find? q ∧ t'.playingCash.find? q = t.playingCash.find? q
  otherAccounts : ∀ a, (∀ b ∈ l, ∀ obj, s.1.players.find? b.2.player = some obj → obj.account ≠ a) →
    s'.2.cash.find? a = s.2.cash.find? a ∧
      ∀ asset, s'.1.balances.find? (toLex (a, asset)) = s.1.balances.find? (toLex (a, asset))
  otherAssets : ∀ a asset, asset ≠ coreAsset →
    s'.1.balances.find? (toLex (a, asset)) = s.1.balances.find? (toLex (a, asset))
  pendingBuyOuts : ∀ i b, s'.1.pendingBuyOuts.find? i = some b ↔
    s.1.pendingBuyOuts.find? i = some b ∧ ∀ q ∈ l, q.1 ≠ i

/-- **Serving a list of pending buy-outs.** The induction is on the list: the first turn pays one
player, whom the later turns do not touch again. -/
theorem foldlM_resolvePendingBuyOut {s : Database × GameResult} {l : List (ℕ × PendingBuyOutObject)}
    (owner : AccountId) (ht : s.1.tables.find? table = some t) (hcash : CashOk t.cash)
    (hplaying : CashOk t.playingCash) (hr : PayoutOk s.2) (hl : Servable s.1.players l) :
    ∃ s' t', l.foldlM (resolvePendingBuyOut table owner) s = .ok s' ∧ Settled table l s s' t t' := by
  induction l generalizing s t with
  | nil =>
    refine ⟨s, t, rfl, ht, fun _ _ ↦ rfl, fun _ ↦ rfl, fun p obj _ ↦ ?_, fun _ _ ↦ ⟨rfl, rfl⟩,
      fun _ _ ↦ ⟨rfl, fun _ ↦ rfl⟩, fun _ _ _ ↦ rfl, fun i b ↦ by simp⟩
    exact (PlayerMoney.pay_zero (nonneg_moneyOf hcash hplaying hr)).symm
  | cons b l ih =>
    obtain ⟨obj, hobj⟩ := hl.player b List.mem_cons_self
    obtain ⟨s₁, t₁, hs₁, hturn, hremoved⟩ := resolvePendingBuyOut_turn (i := b.1) owner ht hcash
      hplaying hr hobj (hl.core b List.mem_cons_self) (hl.nonneg b List.mem_cons_self)
    obtain ⟨hnotin, hdistinct⟩ := List.nodup_cons.1 hl.distinct
    have hl₁ : Servable s₁.1.players l := by
      rw [hturn.players]
      exact ⟨fun q hq ↦ hl.core q (List.mem_cons_of_mem _ hq),
        fun q hq ↦ hl.nonneg q (List.mem_cons_of_mem _ hq),
        fun q hq ↦ hl.player q (List.mem_cons_of_mem _ hq), hdistinct⟩
    obtain ⟨s', t', hs', hrest⟩ := ih hturn.found hturn.cash hturn.playingCash hturn.payout hl₁
    -- a player has one pending buy-out at a table
    have hnew : ∀ q ∈ l, q.2.player ≠ b.2.player := fun q hq heq ↦
      hnotin (List.mem_map.2 ⟨q, hq, heq⟩)
    refine ⟨s', t', ?_, hrest.found, fun i hi ↦ (hrest.otherTables i hi).trans (hturn.otherTables i hi),
      fun a ↦ (hrest.rakes a).trans (hturn.rakes a), fun p obj' hp ↦ ?_, fun q hq ↦ ?_, fun a ha ↦ ?_,
      fun a asset hasset ↦ ?_, fun i c ↦ ?_⟩
    · rw [List.foldlM_cons, hs₁, Except.ok_bind, hs']
    · have hp₁ : s₁.1.players.find? p = some obj' := by rw [hturn.players]; exact hp
      rw [hrest.money p obj' hp₁]
      by_cases hpb : p = b.2.player
      · subst hpb
        obtain rfl := Option.some.inj (hobj.symm.trans hp)
        rw [requestIn_eq_zero hnew, PlayerMoney.pay_zero
          (nonneg_moneyOf hturn.cash hturn.playingCash hturn.payout), hturn.money, requestIn_cons_self]
      · have haccount : obj'.account ≠ obj.account := fun heq ↦ hpb (s.1.players.unique hp hobj heq)
        have hsame : moneyOf s₁.1 t₁ s₁.2 p obj'.account = moneyOf s.1 t s.2 p obj'.account := by
          obtain ⟨hc, hpl⟩ := hturn.otherPlayers p hpb
          have hbalance : s₁.1.balances.find? (toLex (obj'.account, coreAsset)) =
              s.1.balances.find? (toLex (obj'.account, coreAsset)) :=
            hturn.otherBalances _ fun heq ↦ haccount (congrArg Prod.fst (toLex.injective heq))
          rw [moneyOf, moneyOf, held_eq_getD, held_eq_getD, held_eq_getD, held_eq_getD, hc, hpl,
            hturn.otherResults _ haccount, Database.getBalance, Database.getBalance, hbalance]
        rw [hsame, requestIn_cons_of_ne (Ne.symm hpb)]
    · obtain ⟨hc, hpl⟩ := hrest.otherPlayers q fun c hc ↦ hq c (List.mem_cons_of_mem _ hc)
      obtain ⟨hc₁, hpl₁⟩ := hturn.otherPlayers q (Ne.symm (hq b List.mem_cons_self))
      exact ⟨hc.trans hc₁, hpl.trans hpl₁⟩
    · have hne : a ≠ obj.account := Ne.symm (ha b List.mem_cons_self obj hobj)
      have ha₁ : ∀ c ∈ l, ∀ o, s₁.1.players.find? c.2.player = some o → o.account ≠ a := by
        rw [hturn.players]
        exact fun c hc ↦ ha c (List.mem_cons_of_mem _ hc)
      obtain ⟨hresult, hbalances⟩ := hrest.otherAccounts a ha₁
      refine ⟨hresult.trans (hturn.otherResults a hne), fun asset ↦ ?_⟩
      refine (hbalances asset).trans (hturn.otherBalances _ fun heq ↦ ?_)
      exact hne (congrArg Prod.fst (toLex.injective heq))
    · refine (hrest.otherAssets a asset hasset).trans (hturn.otherBalances _ fun heq ↦ ?_)
      exact hasset (congrArg Prod.snd (toLex.injective heq))
    · rw [hrest.pendingBuyOuts, hremoved, List.forall_mem_cons]
      rw [show (s.1.pendingBuyOuts.remove b.1).toObjectIndex = s.1.pendingBuyOuts.toObjectIndex.remove b.1
        from rfl, ObjectIndex.find?_remove]
      by_cases hi : i = b.1
      · simp [hi]
      · simp [hi, Ne.symm hi]

/-- What a player has asked for at a table: the amount of the pending buy-out, or nothing. -/
def requestedAt (d : Database) (table : TableId) (p : PlayerId) : ℤ :=
  ((d.pendingBuyOuts.findKey? (p, table)).map fun b ↦ b.2.amount.amount).getD 0

theorem requestIn_pending (d : Database) (table : TableId) (p : PlayerId) :
    requestIn (d.pendingBuyOuts.toList.filter fun b ↦ b.2.table = table) p =
      requestedAt d table p := by
  rw [requestIn, requestedAt, UniqueIndex.findKey?, List.find?_filter]
  congr 3
  funext b
  rw [Bool.eq_iff_iff]
  simp [and_comm]

/-- A player has at most one pending buy-out at a table. -/
theorem nodup_players_pending (d : Database) (table : TableId) :
    ((d.pendingBuyOuts.toList.filter fun b ↦ b.2.table = table).map fun b ↦ b.2.player).Nodup := by
  rw [List.Nodup, List.pairwise_map]
  refine List.Pairwise.imp_of_mem ?_
    (d.pendingBuyOuts.objects.sorted.sublist
      (List.filter_sublist (p := fun b : ℕ × PendingBuyOutObject ↦ b.2.table = table)))
  intro b c hb hc hlt heq
  have hfind {b : ℕ × PendingBuyOutObject}
      (hb : b ∈ d.pendingBuyOuts.toList.filter fun b ↦ b.2.table = table) :
      d.pendingBuyOuts.find? b.1 = some b.2 ∧ b.2.table = table := by
    rwa [List.mem_filter, decide_eq_true_eq, ← ObjectIndex.find?_eq_some_iff] at hb
  obtain ⟨hb, hbt⟩ := hfind hb
  obtain ⟨hc, hct⟩ := hfind hc
  exact hlt.ne (d.pendingBuyOuts.unique hb hc (Prod.ext heq (hbt.trans hct.symm)))

/-- The pending buy-outs of a table have been paid: every player has received what was asked for, as far
as it was available; players who have not asked for anything, other accounts, assets and tables are as
before; and the pending buy-outs of this table are gone. -/
structure BuyOutsPaid (table : TableId) (d d' : Database) (t t' : TableObject) (r r' : GameResult) :
    Prop where
  found : d'.tables.find? table = some t'
  pays : ∀ p obj, d.players.find? p = some obj →
    (moneyOf d t r p obj.account).Pays (moneyOf d' t' r' p obj.account) (requestedAt d table p)
  rakes : SameRakes r r'
  otherPlayers : ∀ q, d.pendingBuyOuts.findKey? (q, table) = none →
    t'.cash.find? q = t.cash.find? q ∧ t'.playingCash.find? q = t.playingCash.find? q
  otherAccounts : ∀ a, (∀ q obj, d.players.find? q = some obj → obj.account = a →
      d.pendingBuyOuts.findKey? (q, table) = none) →
    r'.cash.find? a = r.cash.find? a ∧ ∀ asset, d'.getBalance a asset = d.getBalance a asset
  otherAssets : ∀ a asset, asset ≠ coreAsset → d'.getBalance a asset = d.getBalance a asset
  otherTables : ∀ i, i ≠ table → d'.tables.find? i = d.tables.find? i
  pendingBuyOuts : ∀ i b, d'.pendingBuyOuts.find? i = some b ↔
    d.pendingBuyOuts.find? i = some b ∧ b.table ≠ table

/-- **Pending buy-outs pay exactly what is available**, for every table, its pending buy-outs and a
result that has passed its check, in whatever state that was. -/
theorem pendingBuyoutsResolve_pays {d₀ : Database} {t₀ : TableObject} {r : GameResult}
    (owner : AccountId) (ht : d.tables.find? table = some t) (hcash : CashOk t.cash)
    (hplaying : CashOk t.playingCash)
    (hpending : ∀ i b, d.pendingBuyOuts.find? i = some b → b.table = table →
      b.amount.assetId = coreAsset ∧ 0 ≤ b.amount.amount ∧ d.players.Has b.player)
    (hr : validateGameResult d₀ t₀ r = .ok true) :
    ∃ d' r' t', pendingBuyoutsResolve d table owner r = .ok (d', r') ∧
      BuyOutsPaid table d d' t t' r r' := by
  have hpayout : PayoutOk r := ((validateGameResult_ensures (E := fun _ ↦ True) ⟨fun _ ↦ trivial,
    trivial⟩ r).of_ok hr rfl).cash
  let pending := d.pendingBuyOuts.toList.filter fun b ↦ b.2.table = table
  have hmem {b : ℕ × PendingBuyOutObject} :
      b ∈ pending ↔ d.pendingBuyOuts.find? b.1 = some b.2 ∧ b.2.table = table := by
    rw [List.mem_filter, decide_eq_true_eq, ObjectIndex.find?_eq_some_iff]
  have hservable : Servable d.players pending := by
    refine ⟨fun b hb ↦ ?_, fun b hb ↦ ?_, fun b hb ↦ ?_, ?_⟩
    · exact (hpending b.1 b.2 (hmem.1 hb).1 (hmem.1 hb).2).1
    · exact (hpending b.1 b.2 (hmem.1 hb).1 (hmem.1 hb).2).2.1
    · exact (hpending b.1 b.2 (hmem.1 hb).1 (hmem.1 hb).2).2.2
    · exact nodup_players_pending d table
  obtain ⟨s', t', hs', hsettled⟩ := foldlM_resolvePendingBuyOut (s := (d, r)) owner ht hcash hplaying
    hpayout hservable
  -- who has no pending buy-out here is not in the list
  have hnone : ∀ q, d.pendingBuyOuts.findKey? (q, table) = none → ∀ b ∈ pending, b.2.player ≠ q := by
    intro q hq b hb heq
    obtain ⟨hfind, htable⟩ := hmem.1 hb
    exact UniqueIndex.findKey?_eq_none_iff.1 hq b.1 b.2 hfind (Prod.ext heq htable)
  refine ⟨s'.1, s'.2, t', hs', hsettled.found, fun p obj hp ↦ ?_, hsettled.rakes,
    fun q hq ↦ hsettled.otherPlayers q (hnone q hq), fun a ha ↦ ?_, fun a asset hasset ↦ ?_,
    hsettled.otherTables, fun i b ↦ ?_⟩
  · rw [hsettled.money p obj hp, requestIn_pending]
    refine PlayerMoney.pays_pay (nonneg_moneyOf hcash hplaying hpayout) ?_
    rcases hfind : d.pendingBuyOuts.findKey? (p, table) with - | b
    · simp [requestedAt, hfind]
    · obtain ⟨hb, hkey⟩ := UniqueIndex.findKey?_eq_some_iff.1 hfind
      simpa [requestedAt, hfind] using (hpending b.1 b.2 hb (congrArg Prod.snd hkey)).2.1
  · have haccount : ∀ b ∈ pending, ∀ obj, d.players.find? b.2.player = some obj →
        obj.account ≠ a := by
      intro b hb obj hobj heq
      exact hnone b.2.player (ha b.2.player obj hobj heq) b hb rfl
    obtain ⟨hresult, hbalances⟩ := hsettled.otherAccounts a haccount
    refine ⟨hresult, fun asset ↦ ?_⟩
    rw [Database.getBalance, Database.getBalance, hbalances asset]
  · rw [Database.getBalance, Database.getBalance, hsettled.otherAssets a asset hasset]
  · rw [hsettled.pendingBuyOuts]
    refine and_congr_right fun hb ↦ ⟨fun h htable ↦ ?_, fun h q hq heq ↦ ?_⟩
    · exact h (i, b) (hmem.2 ⟨hb, htable⟩) rfl
    · obtain ⟨hq, htable⟩ := hmem.1 hq
      rw [heq] at hq
      obtain rfl := Option.some.inj (hb.symm.trans hq)
      exact h htable

/-- In every well-formed state the pending buy-outs of a table can be paid, as long as they are in the
core asset. -/
theorem WellFormed.payable {mode : Mode} (h : WellFormed mode d) (hcore : mode.core)
    (ht : d.tables.find? table = some t) :
    CashOk t.cash ∧ CashOk t.playingCash ∧
      ∀ i b, d.pendingBuyOuts.find? i = some b → b.table = table →
        b.amount.assetId = coreAsset ∧ 0 ≤ b.amount.amount ∧ d.players.Has b.player := by
  have hok := (h.tables table t ht).cashes
  refine ⟨hok.cash, hok.playingCash, fun i b hb _ ↦ ?_⟩
  obtain ⟨hpos, hplayer, hasset⟩ := h.pendingBuyOuts i b hb
  exact ⟨hasset hcore, hpos.le, hplayer⟩

/-! ### Two players who leave -/

/-- A table with two players in the game, one of whom has cash at the table as well. -/
def leavingTable : TableObject where
  room := 1
  cash := (∅ : FlatMap PlayerId Asset).insert 0 ⟨10, coreAsset⟩
  playingCash := ((∅ : FlatMap PlayerId Asset).insert 0 ⟨20, coreAsset⟩).insert 1 ⟨30, coreAsset⟩

/-- Both players have asked to leave. -/
def leavingPlayers : Database where
  headBlockTime := hardforkPlaychain11Time
  accounts := 9
  players := (((∅ : UniqueIndex PlayerObject.account).create? { account := 5, inviter := 0 }).bind
    fun players ↦ players.create? { account := 6, inviter := 0 }).getD ∅
  tables := ((∅ : ObjectIndex TableObject).create { room := 0 }).create leavingTable
  pendingBuyOuts := (((∅ : UniqueIndex fun b : PendingBuyOutObject ↦ (b.player, b.table)).create?
    { player := 0, table := 1, amount := ⟨25, coreAsset⟩ }).bind fun pending ↦
      pending.create? { player := 1, table := 1, amount := ⟨40, coreAsset⟩ }).getD ∅

/-- The result of the second player. -/
def leavingResult : GameResult where
  cash := (∅ : FlatMap AccountId GamerCashResult).insert 6
    { cash := ⟨25, coreAsset⟩, rake := ⟨5, coreAsset⟩ }

theorem pendingBuyoutsResolve_pays_both : ∃ d' r' t',
    pendingBuyoutsResolve leavingPlayers 1 0 leavingResult = .ok (d', r') ∧
      BuyOutsPaid 1 leavingPlayers d' leavingTable t' leavingResult r' := by
  have hok (m : FlatMap PlayerId Asset)
      (hm : ∀ q ∈ m.toList, 0 < q.2.amount ∧ q.2.assetId = coreAsset) : CashOk m :=
    fun p v h ↦ hm (p, v) (FlatMap.find?_eq_some_iff.1 h)
  have hall : ∀ b ∈ leavingPlayers.pendingBuyOuts.toList, b.2.amount.assetId = coreAsset ∧
      0 ≤ b.2.amount.amount ∧ (leavingPlayers.players.find? b.2.player).isSome = true := by
    decide
  have hchecked : validateGameResult leavingPlayers leavingTable leavingResult = .ok true := rfl
  refine pendingBuyoutsResolve_pays 0 rfl (hok _ (by decide)) (hok _ (by decide)) (fun i b hb _ ↦ ?_)
    hchecked
  obtain ⟨hcore, hnonneg, hplayer⟩ := hall (i, b) (ObjectIndex.find?_eq_some_iff.1 hb)
  exact ⟨hcore, hnonneg, Option.isSome_iff_exists.1 hplayer⟩

end Playchain
