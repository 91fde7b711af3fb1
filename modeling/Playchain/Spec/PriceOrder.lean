import Playchain.Lib.Control
import Playchain.Plugins.GroupedOrders

/-!
# The order of prices, and prices that are scaled

Prices with positive amounts are ordered as their keys, the assets and the ratio. Scaling a price by a
positive ratio succeeds and stays in its market, and a ratio above one does not make it smaller, in spite
of the rounding.
-/

namespace Playchain.GroupedOrders

/-- Positive amounts of two assets. -/
structure ValidPrice (p : Price) : Prop where
  base : 0 < p.base.amount
  quote : 0 < p.quote.amount
  assets : p.base.assetId ≠ p.quote.assetId

/-- Two prices of one market, in the same direction. -/
def SameMarket (p q : Price) : Prop :=
  p.base.assetId = q.base.assetId ∧ p.quote.assetId = q.quote.assetId

section Keys

variable {p q r : Price}

theorem lt_iff_priceKey_lt (hp : ValidPrice p) (hq : ValidPrice q) : p < q ↔ priceKey p < priceKey q := by
  have hp' : (0 : ℚ) < p.quote.amount := by exact_mod_cast hp.quote
  have hq' : (0 : ℚ) < q.quote.amount := by exact_mod_cast hq.quote
  rw [Price.lt_def, priceKey, priceKey, Prod.Lex.toLex_lt_toLex, Prod.Lex.toLex_lt_toLex,
    div_lt_div_iff₀ hp' hq']
  have hcast : q.quote.amount * p.base.amount < p.quote.amount * q.base.amount ↔
      (p.base.amount : ℚ) * q.quote.amount < q.base.amount * p.quote.amount := by
    rw [← Int.cast_mul, ← Int.cast_mul, Int.cast_lt, mul_comm q.quote.amount, mul_comm p.quote.amount]
  rw [hcast]

theorem not_lt_iff_priceKey_le (hp : ValidPrice p) (hq : ValidPrice q) :
    ¬p < q ↔ priceKey q ≤ priceKey p := by
  rw [lt_iff_priceKey_lt hp hq, not_lt]

/-- What is between two prices of a market is in the market. -/
theorem SameMarket.of_between (h : SameMarket p q) (hle : priceKey p ≤ priceKey r)
    (hle' : priceKey r ≤ priceKey q) : SameMarket p r := by
  obtain ⟨hbase, hquote⟩ := h
  simp only [priceKey, Prod.Lex.toLex_le_toLex] at hle hle'
  constructor
  · rcases hle with hlt | ⟨heq, -⟩
    · rcases hle' with hlt' | ⟨heq', -⟩
      · exact absurd (hbase ▸ hlt.trans hlt') (lt_irrefl _)
      · exact hbase.trans heq'.symm
    · exact heq
  · rcases hle with hlt | ⟨heq, hlt | ⟨heq', -⟩⟩
    · rcases hle' with hlt' | ⟨heq', -⟩
      · exact absurd (hbase ▸ hlt.trans hlt') (lt_irrefl _)
      · exact absurd (hbase.trans heq'.symm) hlt.ne
    · rcases hle' with hlt' | ⟨-, hlt' | ⟨heq'', -⟩⟩
      · exact absurd (hbase.symm.trans heq) hlt'.ne'
      · exact absurd (hquote ▸ hlt.trans hlt') (lt_irrefl _)
      · exact hquote.trans heq''.symm
    · exact heq'

/-- A price of another market is above or below all prices of a market. -/
theorem priceKey_lt_of_not_sameMarket (h : SameMarket p q) (hne : ¬SameMarket p r)
    (hle : priceKey p ≤ priceKey r) : priceKey q < priceKey r := by
  by_contra hle'
  exact hne (h.of_between hle (not_lt.1 hle'))

end Keys

/-! ### Scaling -/

section Scaling

/-- Halving keeps a fraction positive. -/
theorem scaleLoop_pos {n : ℕ} {q : ℚ} {shrinked : Bool} (hq : 0 < q) :
    0 < (Price.scaleLoop n q shrinked).value := by
  induction n generalizing q shrinked with
  | zero => exact hq
  | succ n ih =>
    unfold Price.scaleLoop
    by_cases hrange : outOfRange q = true
    · rw [if_pos hrange]
      by_cases hnum : q.num = 1
      · rw [if_pos hnum]
        show 0 < mkRat 1 maxShareSupply.toNat
        decide
      · rw [if_neg hnum]
        by_cases hden : q.den = 1
        · rw [if_pos hden]
          show (0 : ℚ) < (maxShareSupply : ℚ)
          exact_mod_cast (by decide : (0 : ℤ) < maxShareSupply)
        · rw [if_neg hden]
          refine ih ?_
          have hpos := Rat.num_pos.2 hq
          have hden' := q.den_pos
          rw [Rat.mkRat_eq_div]
          have h₁ : (0 : ℤ) < q.num / 2 := by omega
          have h₂ : 0 < q.den / 2 := by omega
          exact div_pos (by exact_mod_cast h₁) (by exact_mod_cast h₂)
    · rw [if_neg hrange]
      exact hq

/-- A fraction whose terms were neither halved nor replaced is as it was. -/
theorem scaleLoop_exact {n : ℕ} {q : ℚ} {shrinked : Bool}
    (hshrinked : (Price.scaleLoop n q shrinked).shrinked = false)
    (husingMax : (Price.scaleLoop n q shrinked).usingMax = false) :
    (Price.scaleLoop n q shrinked).value = q ∧ shrinked = false := by
  induction n generalizing q shrinked with
  | zero => exact ⟨rfl, hshrinked⟩
  | succ n ih =>
    unfold Price.scaleLoop at hshrinked husingMax ⊢
    by_cases hrange : outOfRange q = true
    · rw [if_pos hrange] at hshrinked husingMax ⊢
      by_cases hnum : q.num = 1
      · rw [if_pos hnum] at husingMax
        cases husingMax
      · rw [if_neg hnum] at hshrinked husingMax ⊢
        by_cases hden : q.den = 1
        · rw [if_pos hden] at husingMax
          cases husingMax
        · rw [if_neg hden] at hshrinked husingMax
          exact absurd (ih hshrinked husingMax).2 (by decide)
    · rw [if_neg hrange] at hshrinked ⊢
      exact ⟨rfl, hshrinked⟩

theorem unitFraction_pos {q : ℚ} (hq : 0 < q) : 0 < Price.unitFraction q := by
  have hnum := Rat.num_pos.2 hq
  have hden := q.den_pos
  have hmax : (0 : ℤ) < maxShareSupply := by decide
  unfold Price.unitFraction
  by_cases hlt : (q.den : ℤ) < q.num
  · rw [if_pos hlt]
    have hquot : 0 < q.num / (q.den : ℤ) :=
      (Int.le_ediv_iff_mul_le (by exact_mod_cast hden)).2 (by omega)
    split_ifs
    · exact_mod_cast hmax
    · exact_mod_cast hquot
  · rw [if_neg hlt, Rat.mkRat_eq_div]
    have hquot : 0 < (q.den : ℤ) / q.num := (Int.le_ediv_iff_mul_le hnum).2 (by omega)
    refine div_pos (by norm_num) ?_
    split_ifs
    · exact_mod_cast Int.lt_toNat.2 hmax
    · exact_mod_cast Int.lt_toNat.2 hquot

theorem refineScaled_pos {ocp cp : ℚ} (hocp : 0 < ocp) (hcp : 0 < cp) :
    0 < Price.refineScaled ocp cp := by
  unfold Price.refineScaled
  dsimp only
  split_ifs
  · exact unitFraction_pos hocp
  · exact unitFraction_pos hocp
  · exact hcp

/-- The ratio of a price. -/
theorem priceKey_le_iff {p q : Price} (h : SameMarket p q) : priceKey p ≤ priceKey q ↔
    (p.base.amount : ℚ) / p.quote.amount ≤ (q.base.amount : ℚ) / q.quote.amount := by
  rw [priceKey, priceKey, Prod.Lex.toLex_le_toLex, Prod.Lex.toLex_le_toLex]
  simp only [h.1, h.2, lt_irrefl, false_or, true_and]

theorem ValidPrice.validate {p : Price} (hp : ValidPrice p) : p.validate = .ok () :=
  Except.bind_eq_ok.2 ⟨(), fcAssert_of_true hp.base, Except.bind_eq_ok.2 ⟨(), fcAssert_of_true hp.quote,
    fcAssert_of_true hp.assets⟩⟩

/-- The ratio of a price, as a fraction. -/
theorem ValidPrice.mkRat_eq {p : Price} (hp : ValidPrice p) :
    mkRat p.base.amount p.quote.amount.toNat = (p.base.amount : ℚ) / p.quote.amount := by
  rw [Rat.mkRat_eq_div]
  congr 1
  exact_mod_cast Int.toNat_of_nonneg hp.quote.le

theorem ValidPrice.ratio_pos {p : Price} (hp : ValidPrice p) : (0 : ℚ) < (p.base.amount : ℚ) / p.quote.amount :=
  div_pos (by exact_mod_cast hp.base) (by exact_mod_cast hp.quote)

/-- A price in the market of another one, with a fraction as its ratio. -/
def withRatio (p : Price) (q : ℚ) : Price := ⟨⟨q.num, p.base.assetId⟩, ⟨q.den, p.quote.assetId⟩⟩

theorem ValidPrice.withRatio {p : Price} (hp : ValidPrice p) {q : ℚ} (hq : 0 < q) : ValidPrice (withRatio p q) :=
  ⟨Rat.num_pos.2 hq, Int.natCast_pos.2 q.den_pos, hp.assets⟩

theorem ratio_withRatio (p : Price) (q : ℚ) :
    ((withRatio p q).base.amount : ℚ) / (withRatio p q).quote.amount = q := by
  show (q.num : ℚ) / ((q.den : ℤ) : ℚ) = q
  rw [Int.cast_natCast, Rat.num_div_den]

/-- The fraction that approximates an exact product. -/
def rounded (ocp : ℚ) : ℚ :=
  if (Price.scaleLoop (halvings ocp) ocp false).shrinked then
    Price.refineScaled ocp (Price.scaleLoop (halvings ocp) ocp false).value
  else (Price.scaleLoop (halvings ocp) ocp false).value

theorem rounded_pos {ocp : ℚ} (h : 0 < ocp) : 0 < rounded ocp := by
  unfold rounded
  split_ifs
  · exact refineScaled_pos h (scaleLoop_pos h)
  · exact scaleLoop_pos h

/-- What a rounded price must not be: on the wrong side of the price that is scaled. -/
def WrongSide (p : Price) (r : ℚ) (np : Price) : Prop := 1 < r ∧ np < p ∨ r < 1 ∧ p < np

instance (p : Price) (r : ℚ) (np : Price) : Decidable (WrongSide p r np) :=
  inferInstanceAs (Decidable (1 < r ∧ np < p ∨ r < 1 ∧ p < np))

/-- What scaling gives: the rounded product, or the price itself. -/
def scaled (p : Price) (r : ℚ) : Price :=
  let ocp := (p.base.amount : ℚ) / p.quote.amount * r
  let res := Price.scaleLoop (halvings ocp) ocp false
  if (res.shrinked ∨ res.usingMax) ∧ WrongSide p r (withRatio p (rounded ocp)) then p else withRatio p (rounded ocp)

theorem ValidPrice.scaled {p : Price} (hp : ValidPrice p) {r : ℚ} (hr : 0 < r) : ValidPrice (scaled p r) := by
  unfold GroupedOrders.scaled
  dsimp only
  split_ifs
  · exact hp
  · exact hp.withRatio (rounded_pos (mul_pos hp.ratio_pos hr))

/-- **Scaling succeeds.** -/
theorem scale_eq {p : Price} (hp : ValidPrice p) {r : ℚ} (hr : 0 < r) (hone : r ≠ 1) :
    p.scale r = .ok (scaled p r) := by
  unfold Price.scale
  refine Except.bind_eq_ok.2 ⟨(), hp.validate, Except.bind_eq_ok.2 ⟨(), fcAssert_of_true (Rat.num_pos.2 hr), ?_⟩⟩
  rw [if_neg hone, hp.mkRat_eq]
  refine Except.bind_eq_ok.2 ⟨withRatio p (rounded _), Except.bind_eq_ok.2 ⟨(), fcAssert_of_true hp.assets, rfl⟩, ?_⟩
  exact Except.bind_eq_ok.2 ⟨(), (hp.scaled hr).validate, rfl⟩

theorem scale_one {p : Price} (hp : ValidPrice p) : p.scale 1 = .ok p := by
  unfold Price.scale
  refine Except.bind_eq_ok.2 ⟨(), hp.validate, Except.bind_eq_ok.2 ⟨(), fcAssert_of_true (by decide), ?_⟩⟩
  rw [if_pos rfl]
  rfl

theorem sameMarket_scaled (p : Price) (r : ℚ) : SameMarket p (scaled p r) := by
  unfold scaled
  dsimp only
  split_ifs
  · exact ⟨rfl, rfl⟩
  · exact ⟨rfl, rfl⟩

/-- **The scaled price is not on the wrong side.** -/
theorem scaled_side {p : Price} (hp : ValidPrice p) {r : ℚ} (hr : 0 < r) : ¬WrongSide p r (scaled p r) := by
  unfold scaled
  dsimp only
  split_ifs with hwrong
  · rintro (⟨-, hlt⟩ | ⟨-, hlt⟩)
    · exact lt_irrefl _ ((lt_iff_priceKey_lt hp hp).1 hlt)
    · exact lt_irrefl _ ((lt_iff_priceKey_lt hp hp).1 hlt)
  · generalize hocp : (p.base.amount : ℚ) / p.quote.amount * r = ocp at hwrong ⊢
    have hpos : 0 < ocp := hocp ▸ mul_pos hp.ratio_pos hr
    by_cases hexact : (Price.scaleLoop (halvings ocp) ocp false).shrinked = true ∨
        (Price.scaleLoop (halvings ocp) ocp false).usingMax = true
    · exact fun hside ↦ hwrong ⟨hexact, hside⟩
    -- an exact product is on the right side
    · rw [not_or, Bool.not_eq_true, Bool.not_eq_true] at hexact
      have hsame : rounded ocp = ocp := by
        rw [rounded, hexact.1, if_neg Bool.false_ne_true]
        exact (scaleLoop_exact hexact.1 hexact.2).1
      have hnp := hp.withRatio hpos
      have hle := @priceKey_le_iff p (withRatio p ocp) ⟨rfl, rfl⟩
      have hge := @priceKey_le_iff (withRatio p ocp) p ⟨rfl, rfl⟩
      rw [ratio_withRatio, ← hocp] at hle hge
      rw [hsame]
      rintro (⟨hgt, hlt⟩ | ⟨hlt', hlt⟩)
      · refine absurd ((lt_iff_priceKey_lt hnp hp).1 hlt) (not_lt.2 ?_)
        rw [← hocp]
        exact hle.2 (le_mul_of_one_le_right hp.ratio_pos.le hgt.le)
      · refine absurd ((lt_iff_priceKey_lt hp hnp).1 hlt) (not_lt.2 ?_)
        rw [← hocp]
        exact hge.2 (mul_le_of_le_one_right hp.ratio_pos.le hlt'.le)

/-- **Scaling a price** by a positive ratio stays in its market; a ratio of at least one does not make the
price smaller. -/
theorem scale_spec {p : Price} (hp : ValidPrice p) {r : ℚ} (hr : 0 < r) :
    ∃ np, p.scale r = .ok np ∧ ValidPrice np ∧ SameMarket p np ∧
      (1 ≤ r → priceKey p ≤ priceKey np) := by
  by_cases hone : r = 1
  · subst hone
    exact ⟨p, scale_one hp, hp, ⟨rfl, rfl⟩, fun _ ↦ le_rfl⟩
  refine ⟨scaled p r, scale_eq hp hr hone, hp.scaled hr, sameMarket_scaled p r, fun hge ↦ ?_⟩
  have hnot : ¬scaled p r < p := fun hlt ↦ scaled_side hp hr (.inl ⟨lt_of_le_of_ne hge (Ne.symm hone), hlt⟩)
  exact (not_lt_iff_priceKey_le (hp.scaled hr) hp).1 hnot

end Scaling

end Playchain.GroupedOrders
