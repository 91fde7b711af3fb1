import Playchain.Graphene.WidePrices
import Playchain.Spec.PriceOrder

/-!
# Scaled prices in wide integers

The product of a price and a ratio is a fraction whose terms have up to 79 bits. What is wrong with it is not the product and
not the halving of its terms, but the comparison of the two approximations: their differences from the exact product have a
common denominator that can have 129 bits (`scaling_overflow`). Where these differences fit, the scaled price is what it
should be, and only there (`scaling_exact_iff`). They fit if the denominator of the exact product is not too large
(`differencesFit_of_den_lt`), as for the ratios of feeds, target ratios and settlement offsets (`scaling_exact`).
-/

namespace Playchain

open GroupedOrders

/-! ### Halving -/

/-- The repeatedly halved fraction. -/
def halved (q : ℚ) : ℚ := (Price.scaleLoop (halvings q) q false).value

/-- The integer approximation is at an edge of the range. -/
def AtEdge (q : ℚ) : Prop :=
  (Price.unitFraction q).num = maxShareSupply ∨ ((Price.unitFraction q).den : ℤ) = maxShareSupply

instance (q : ℚ) : Decidable (AtEdge q) :=
  inferInstanceAs (Decidable ((Price.unitFraction q).num = maxShareSupply ∨
    ((Price.unitFraction q).den : ℤ) = maxShareSupply))

/-- The terms of a reduced fraction. -/
theorem mkRat_terms_le {a : ℤ} {b : ℕ} (ha : 0 < a) (hb : 0 < b) : (mkRat a b).num ≤ a ∧ (mkRat a b).den ≤ b := by
  rw [← Rat.divInt_ofNat]
  constructor
  · exact Int.le_of_dvd ha (Rat.num_dvd a (by exact_mod_cast hb.ne'))
  · exact_mod_cast Int.le_of_dvd (by exact_mod_cast hb) (Rat.den_dvd a b)

theorem not_outOfRange_iff {q : ℚ} : outOfRange q = false ↔ q.num ≤ maxShareSupply ∧ (q.den : ℤ) ≤ maxShareSupply := by
  unfold outOfRange
  rw [decide_eq_false_iff_not, not_or, not_lt, not_lt]

theorem not_outOfRange_mkRat {a : ℤ} {b : ℕ} (ha : 0 < a) (hb : 0 < b) (ha' : a ≤ maxShareSupply)
    (hb' : (b : ℤ) ≤ maxShareSupply) : outOfRange (mkRat a b) = false := by
  obtain ⟨hnum, hden⟩ := mkRat_terms_le ha hb
  exact not_outOfRange_iff.mpr ⟨hnum.trans ha', by omega⟩

theorem not_outOfRange_maxShareSupply : outOfRange (maxShareSupply : ℚ) = false :=
  not_outOfRange_iff.mpr ⟨by rw [Rat.num_intCast], by rw [Rat.den_intCast]; decide⟩

/-- **Halving ends in the range.** -/
theorem scaleLoop_inRange {n i j : ℕ} {q : ℚ} {shrinked : Bool} (hq : 0 < q) (hnum : q.num < 2 ^ i)
    (hden : q.den < 2 ^ j) (hn : i + j ≤ n) : outOfRange (Price.scaleLoop n q shrinked).value = false := by
  induction n generalizing i j q shrinked with
  | zero =>
    have hpos := Rat.num_pos.2 hq
    obtain rfl : i = 0 := by omega
    rw [pow_zero] at hnum
    omega
  | succ n ih =>
    unfold Price.scaleLoop
    by_cases hrange : outOfRange q = true
    · rw [if_pos hrange]
      by_cases hnum₁ : q.num = 1
      · rw [if_pos hnum₁]
        exact not_outOfRange_mkRat (by decide) (by decide) (by decide) (by decide)
      rw [if_neg hnum₁]
      by_cases hden₁ : q.den = 1
      · rw [if_pos hden₁]
        exact not_outOfRange_maxShareSupply
      rw [if_neg hden₁]
      have hpos := Rat.num_pos.2 hq
      have hdenpos := q.den_pos
      have hnum₂ : 0 < q.num / 2 := by omega
      have hden₂ : 0 < q.den / 2 := by omega
      obtain ⟨hle, hle'⟩ := mkRat_terms_le hnum₂ hden₂
      -- each turn takes a bit from both terms
      cases i with
      | zero =>
        rw [pow_zero] at hnum
        omega
      | succ i =>
        cases j with
        | zero =>
          rw [pow_zero] at hden
          omega
        | succ j =>
          rw [pow_succ] at hnum hden
          refine ih (i := i) (j := j) ?_ (by omega) (by omega) (by omega)
          rw [Rat.mkRat_eq_div]
          exact div_pos (by exact_mod_cast hnum₂) (by exact_mod_cast hden₂)
    · rw [if_neg hrange]
      exact Bool.eq_false_of_not_eq_true hrange

theorem halved_inRange {q : ℚ} (hq : 0 < q) : outOfRange (halved q) = false := by
  have hpos := Rat.num_pos.2 hq
  have hnum := Nat.lt_log2_self (n := q.num.natAbs)
  have hden := Nat.lt_log2_self (n := q.den)
  refine scaleLoop_inRange (i := q.num.natAbs.log2 + 1) (j := q.den.log2 + 1) hq ?_ hden ?_
  · have hcast : ((q.num.natAbs : ℕ) : ℤ) = q.num := Int.natAbs_of_nonneg hpos.le
    rw [← hcast]
    exact_mod_cast hnum
  · rw [halvings]
    omega

theorem scaleLoop_shrinked (n : ℕ) (q : ℚ) : (Price.scaleLoop n q true).shrinked = true := by
  induction n generalizing q with
  | zero => rfl
  | succ n ih =>
    unfold Price.scaleLoop
    split_ifs
    · rfl
    · rfl
    · exact ih _
    · rfl

/-- A product in the range is left as it is. -/
theorem scaleLoop_of_inRange {q : ℚ} (h : outOfRange q = false) :
    Price.scaleLoop (halvings q) q false = ⟨q, false, false⟩ := by
  have hpos : halvings q = (q.num.natAbs.log2 + q.den.log2 + 1) + 1 := rfl
  rw [hpos, Price.scaleLoop, if_neg (by rw [h]; exact Bool.false_ne_true)]

/-- A product out of the range is halved, unless its integer approximation is at an edge. -/
theorem shrinked_or_atEdge {q : ℚ} (hq : 0 < q) (h : outOfRange q = true) :
    (Price.scaleLoop (halvings q) q false).shrinked = true ∨ AtEdge q := by
  have hfuel : halvings q = (q.num.natAbs.log2 + q.den.log2 + 1) + 1 := rfl
  have hrange := of_decide_eq_true h
  have hpos := Rat.num_pos.2 hq
  have hdenpos := q.den_pos
  rw [hfuel, Price.scaleLoop, if_pos h]
  by_cases hnum : q.num = 1
  · refine .inr (.inr ?_)
    rw [hnum] at hrange
    have hlt : maxShareSupply < (q.den : ℤ) := hrange.resolve_left (by decide)
    have hden₁ : ¬(q.den : ℤ) < 1 := by omega
    rw [Price.unitFraction, hnum, if_neg hden₁, Int.ediv_one, if_pos hlt]
    decide
  rw [if_neg hnum]
  by_cases hden : q.den = 1
  · refine .inr (.inl ?_)
    rw [hden] at hrange
    have hlt : maxShareSupply < q.num := hrange.resolve_right (by decide)
    have hnum₁ : ((1 : ℕ) : ℤ) < q.num := by
      have hmax : (1 : ℤ) ≤ maxShareSupply := by decide
      omega
    rw [Price.unitFraction, hden, if_pos hnum₁, Nat.cast_one, Int.ediv_one, if_pos hlt, Rat.num_intCast]
  · rw [if_neg hden]
    exact .inl (scaleLoop_shrinked _ _)

/-! ### The two approximations -/

theorem unitFraction_inRange {q : ℚ} (hq : 0 < q) : outOfRange (Price.unitFraction q) = false := by
  have hnum := Rat.num_pos.2 hq
  have hden := q.den_pos
  unfold Price.unitFraction
  split_ifs with hlt hmax hmax
  · exact not_outOfRange_maxShareSupply
  · exact not_outOfRange_iff.mpr ⟨by rw [Rat.num_intCast]; omega, by rw [Rat.den_intCast]; decide⟩
  · exact not_outOfRange_mkRat (by decide) (by decide) (by decide) (by decide)
  · have hquot : 0 < (q.den : ℤ) / q.num := (Int.le_ediv_iff_mul_le hnum).2 (by omega)
    exact not_outOfRange_mkRat (by decide) (by omega) (by decide) (by omega)

theorem rounded_of_inRange {q : ℚ} (h : outOfRange q = false) : rounded q = q := by
  rw [rounded, scaleLoop_of_inRange h]
  rfl

theorem rounded_inRange {q : ℚ} (hq : 0 < q) : outOfRange (rounded q) = false := by
  have hhalved := halved_inRange hq
  unfold rounded
  split_ifs
  · unfold Price.refineScaled
    dsimp only
    split_ifs
    · exact unitFraction_inRange hq
    · exact unitFraction_inRange hq
    · exact hhalved
  · exact hhalved

/-- **The closer approximation is taken**, except at the edges. -/
theorem rounded_closest {q : ℚ} (hq : 0 < q) (hedge : ¬AtEdge q) :
    |rounded q - q| ≤ |halved q - q| ∧ |rounded q - q| ≤ |Price.unitFraction q - q| := by
  by_cases hrange : outOfRange q = true
  · have hshrinked := (shrinked_or_atEdge hq hrange).resolve_right hedge
    have hrefine : Price.refineScaled q (halved q) =
        if |Price.unitFraction q - q| < |halved q - q| then Price.unitFraction q else halved q := if_neg hedge
    have hrounded : rounded q = Price.refineScaled q (halved q) := if_pos hshrinked
    rw [hrounded, hrefine]
    split_ifs with hcloser
    · exact ⟨hcloser.le, le_rfl⟩
    · exact ⟨le_rfl, not_lt.mp hcloser⟩
  · rw [rounded_of_inRange (Bool.eq_false_of_not_eq_true hrange), sub_self, abs_zero]
    exact ⟨abs_nonneg _, abs_nonneg _⟩

/-! ### What scaling should do -/

/-- The ratio of a price. -/
def Price.ratio (p : Price) : ℚ := (p.base.amount : ℚ) / p.quote.amount

/-- **A price is scaled well**: the new price is valid, has amounts in the range unless it is the old one, is the exact
product if that is in the range, is on the right side of the old one, and otherwise no further from the product than both
approximations, except at the edges. -/
structure ScaledWell (p : Price) (r : ℚ) (np : Price) : Prop where
  valid : ValidPrice np
  market : SameMarket p np
  range : np = p ∨ np.base.amount ≤ maxShareSupply ∧ np.quote.amount ≤ maxShareSupply
  exact : outOfRange (p.ratio * r) = false → np.ratio = p.ratio * r
  above : 1 < r → p ≤ np
  below : r < 1 → np ≤ p
  closest : ¬AtEdge (p.ratio * r) → |np.ratio - p.ratio * r| ≤ |halved (p.ratio * r) - p.ratio * r| ∧
    |np.ratio - p.ratio * r| ≤ |Price.unitFraction (p.ratio * r) - p.ratio * r|

variable {p : Price} {r : ℚ}

/-- A ratio of one changes nothing. -/
theorem ScaledWell.one (hp : ValidPrice p) : ScaledWell p 1 p where
  valid := hp
  market := ⟨rfl, rfl⟩
  range := .inl rfl
  exact _ := (mul_one _).symm
  above h := absurd h (lt_irrefl _)
  below h := absurd h (lt_irrefl _)
  closest _ := by
    rw [mul_one, sub_self, abs_zero]
    exact ⟨abs_nonneg _, abs_nonneg _⟩

/-- The price itself is closer to the product than a price on its wrong side. -/
theorem WrongSide.closer (hp : ValidPrice p) {q : ℚ} (hq : 0 < q) (h : WrongSide p r (withRatio p q)) :
    |p.ratio - p.ratio * r| ≤ |q - p.ratio * r| := by
  have hratio : 0 < p.ratio := hp.ratio_pos
  have hnp := hp.withRatio hq
  rcases h with ⟨hr, hlt⟩ | ⟨hr, hlt⟩
  · have hle : q ≤ p.ratio := by
      have hkey := (lt_iff_priceKey_lt hnp hp).1 hlt
      have hiff := @priceKey_le_iff (withRatio p q) p ⟨rfl, rfl⟩
      rw [ratio_withRatio] at hiff
      exact hiff.1 hkey.le
    have hproduct : p.ratio ≤ p.ratio * r := le_mul_of_one_le_right hratio.le hr.le
    rw [abs_of_nonpos (by linarith), abs_of_nonpos (by linarith)]
    linarith
  · have hle : p.ratio ≤ q := by
      have hkey := (lt_iff_priceKey_lt hp hnp).1 hlt
      have hiff := @priceKey_le_iff p (withRatio p q) ⟨rfl, rfl⟩
      rw [ratio_withRatio] at hiff
      exact hiff.1 hkey.le
    have hproduct : p.ratio * r ≤ p.ratio := mul_le_of_le_one_right hratio.le hr.le
    rw [abs_of_nonneg (by linarith), abs_of_nonneg (by linarith)]
    linarith

/-- **With numbers of any size, scaling is right.** -/
theorem scaledWell_scaled (hp : ValidPrice p) (hr : 0 < r) : ScaledWell p r (scaled p r) := by
  have hpos : 0 < p.ratio * r := mul_pos hp.ratio_pos hr
  have hside := scaled_side hp hr
  have hcases : (scaled p r = p ∧ (outOfRange (p.ratio * r) = true ∧ WrongSide p r (withRatio p (rounded (p.ratio * r))))) ∨
      scaled p r = withRatio p (rounded (p.ratio * r)) := by
    by_cases hwrong : ((Price.scaleLoop (halvings (p.ratio * r)) (p.ratio * r) false).shrinked = true ∨
        (Price.scaleLoop (halvings (p.ratio * r)) (p.ratio * r) false).usingMax = true) ∧
        WrongSide p r (withRatio p (rounded (p.ratio * r)))
    · refine .inl ⟨if_pos hwrong, ?_, hwrong.2⟩
      by_contra hrange
      have hexact := scaleLoop_of_inRange (Bool.eq_false_of_not_eq_true hrange)
      rw [hexact] at hwrong
      rcases hwrong.1 with hfalse | hfalse
      · cases hfalse
      · cases hfalse
    · exact .inr (if_neg hwrong)
  refine
    { valid := hp.scaled hr
      market := sameMarket_scaled p r
      range := ?_
      exact := fun hrange ↦ ?_
      above := fun hgt hlt ↦ hside (.inl ⟨hgt, hlt⟩)
      below := fun hlt hgt ↦ hside (.inr ⟨hlt, hgt⟩)
      closest := fun hedge ↦ ?_ }
  · rcases hcases with ⟨heq, -⟩ | heq
    · exact .inl heq
    · rw [heq]
      exact .inr (not_outOfRange_iff.mp (rounded_inRange hpos))
  · rcases hcases with ⟨-, hout, -⟩ | heq
    · rw [hrange] at hout
      cases hout
    · rw [heq, rounded_of_inRange hrange]
      exact ratio_withRatio p _
  · have hclosest := rounded_closest hpos hedge
    rcases hcases with ⟨heq, -, hwrong⟩ | heq
    · have hcloser := WrongSide.closer hp (rounded_pos hpos) hwrong
      rw [heq]
      exact ⟨hcloser.trans hclosest.1, hcloser.trans hclosest.2⟩
    · have hratio : (withRatio p (rounded (p.ratio * r))).ratio = rounded (p.ratio * r) := ratio_withRatio p _
      rw [heq, hratio]
      exact hclosest

/-! ### Overflows -/

/-- **The differences fit**: if the product has to be rounded, and not to an edge, then the numbers computed for the
differences between the two approximations and the product have the bits of the type. -/
def DifferencesFit (bits : ℕ) (q : ℚ) : Prop :=
  outOfRange q = true → ¬AtEdge q → (Wide.subTerms (Price.unitFraction q) q).all (Wide.fits bits) = true ∧
    (Wide.subTerms (halved q) q).all (Wide.fits bits) = true

variable {bits : ℕ}

theorem check_of_fits {numbers : List ℤ} (h : numbers.all (Wide.fits bits) = true) : Wide.check bits numbers = .ok () :=
  if_pos h

theorem check_of_not_fits {numbers : List ℤ} (h : ¬numbers.all (Wide.fits bits) = true) :
    Wide.check bits numbers = .error none :=
  if_neg h

/-- The terms of the exact product. -/
theorem product_terms_le (hp : ValidPrice p) (hr : 0 < r) :
    (p.ratio * r).num ≤ p.base.amount * r.num ∧ ((p.ratio * r).den : ℤ) ≤ p.quote.amount * r.den := by
  obtain ⟨quote, hquote⟩ := Int.eq_ofNat_of_zero_le hp.quote.le
  have hquotepos : 0 < quote := by
    have := hp.quote
    omega
  have heq : p.ratio * r = mkRat (p.base.amount * r.num) (quote * r.den) := by
    rw [Rat.mkRat_eq_div, Price.ratio, hquote]
    conv_lhs => rw [← Rat.num_div_den r]
    push_cast
    rw [div_mul_div_comm]
  obtain ⟨hle, hle'⟩ := mkRat_terms_le (mul_pos hp.base (Rat.num_pos.2 hr)) (Nat.mul_pos hquotepos r.den_pos)
  rw [heq, hquote]
  exact ⟨hle, by exact_mod_cast hle'⟩

/-- They have 79 bits. -/
theorem product_terms_lt (hp : ValidPrice p) (hbase : p.base.amount < 2 ^ 63) (hquote : p.quote.amount < 2 ^ 63)
    (hr : 0 < r) (hnum : r.num < 2 ^ 16) (hden : r.den < 2 ^ 16) :
    (p.ratio * r).num < 2 ^ 79 ∧ (p.ratio * r).den < 2 ^ 79 := by
  obtain ⟨hle, hle'⟩ := product_terms_le hp hr
  have hbound : p.base.amount * r.num < 2 ^ 63 * 2 ^ 16 := mul_lt_mul'' hbase hnum hp.base.le (Rat.num_pos.2 hr).le
  have hbound' : p.quote.amount * r.den < 2 ^ 63 * 2 ^ 16 :=
    mul_lt_mul'' hquote (by exact_mod_cast hden) hp.quote.le (Int.natCast_nonneg _)
  constructor
  · omega
  · omega

/-- The product itself does not overflow. -/
theorem mul_eq (hbits : 127 ≤ bits) {x y : ℚ} (h : 0 < x * y) (hnum : (x * y).num < 2 ^ 79) (hden : (x * y).den < 2 ^ 79) :
    Wide.mul bits x y = .ok (x * y) := by
  have hpos := Rat.num_pos.2 h
  have hpow : 2 ^ 79 ≤ 2 ^ bits := Nat.pow_le_pow_right (by decide) (by omega)
  have hfits : [(x * y).num, ((x * y).den : ℤ)].all (Wide.fits bits) = true := by
    rw [List.all_cons, List.all_cons, List.all_nil, Bool.and_true, Bool.and_eq_true]
    exact ⟨decide_eq_true (by omega), decide_eq_true (by rw [Int.natAbs_natCast]; omega)⟩
  rw [Wide.mul, check_of_fits hfits]
  rfl

/-- The comparison of the approximations, where it fits. -/
theorem refineWide_eq {q : ℚ} (hrange : outOfRange q = true) (h : DifferencesFit bits q) :
    Price.refineWide bits q (halved q) = .ok (Price.refineScaled q (halved q)) := by
  unfold Price.refineWide
  by_cases hedge : AtEdge q
  · have hrefine : Price.refineScaled q (halved q) = Price.unitFraction q := if_pos hedge
    rw [hrefine]
    exact if_pos hedge
  · have hrefine : Price.refineScaled q (halved q) =
        if |Price.unitFraction q - q| < |halved q - q| then Price.unitFraction q else halved q := if_neg hedge
    obtain ⟨hunit, hhalved⟩ := h hrange hedge
    rw [hrefine]
    refine (if_neg hedge).trans ?_
    rw [Wide.sub, check_of_fits hunit, Wide.sub, check_of_fits hhalved]
    rfl

/-- And where it does not. -/
theorem refineWide_overflow {q : ℚ} (hedge : ¬AtEdge q)
    (h : ¬((Wide.subTerms (Price.unitFraction q) q).all (Wide.fits bits) = true ∧
      (Wide.subTerms (halved q) q).all (Wide.fits bits) = true)) :
    Price.refineWide bits q (halved q) = .error none := by
  unfold Price.refineWide
  refine (if_neg hedge).trans ?_
  by_cases hunit : (Wide.subTerms (Price.unitFraction q) q).all (Wide.fits bits) = true
  · have hhalved := not_and.mp h hunit
    rw [Wide.sub, check_of_fits hunit, Wide.sub, check_of_not_fits hhalved]
    rfl
  · rw [Wide.sub, check_of_not_fits hunit]
    rfl

/-- The numbers of a difference, for a fraction in the range. -/
theorem subTerms_fit {x q : ℚ} (hx : 0 < x) (hq : 0 < q) (hrange : outOfRange x = false)
    (hnum : q.num * x.den < 2 ^ bits) (hden : maxShareSupply * q.den < 2 ^ bits) :
    (Wide.subTerms x q).all (Wide.fits bits) = true := by
  obtain ⟨hxnum, hxden⟩ := not_outOfRange_iff.mp hrange
  have hxpos := Rat.num_pos.2 hx
  have hqpos := Rat.num_pos.2 hq
  have hbound : ∀ z : ℤ, 0 ≤ z → z < 2 ^ bits → Wide.fits bits z = true := by
    intro z h₀ hlt
    lift z to ℕ using h₀
    exact decide_eq_true (by rw [Int.natAbs_natCast]; exact_mod_cast hlt)
  have hleft₀ : 0 ≤ x.num * (q.den / Nat.gcd x.den q.den : ℕ) := mul_nonneg hxpos.le (Int.natCast_nonneg _)
  have hright₀ : 0 ≤ q.num * (x.den / Nat.gcd x.den q.den : ℕ) := mul_nonneg hqpos.le (Int.natCast_nonneg _)
  have hleft : x.num * (q.den / Nat.gcd x.den q.den : ℕ) < 2 ^ bits := by
    refine lt_of_le_of_lt ?_ hden
    exact mul_le_mul hxnum (by exact_mod_cast Nat.div_le_self _ _) (Int.natCast_nonneg _) (by decide)
  have hright : q.num * (x.den / Nat.gcd x.den q.den : ℕ) < 2 ^ bits := by
    refine lt_of_le_of_lt (mul_le_mul_of_nonneg_left ?_ hqpos.le) hnum
    exact_mod_cast Nat.div_le_self _ _
  unfold Wide.subTerms
  dsimp only
  rw [List.all_cons, List.all_cons, List.all_cons, List.all_cons, List.all_nil, Bool.and_true, Bool.and_eq_true,
    Bool.and_eq_true, Bool.and_eq_true]
  refine ⟨hbound _ hleft₀ hleft, hbound _ hright₀ hright, ?_, hbound _ (Int.natCast_nonneg _) ?_⟩
  · generalize x.num * (q.den / Nat.gcd x.den q.den : ℕ) = left at hleft₀ hleft ⊢
    generalize q.num * (x.den / Nat.gcd x.den q.den : ℕ) = right at hright₀ hright ⊢
    refine decide_eq_true ?_
    have hcast : ((2 ^ bits : ℕ) : ℤ) = 2 ^ bits := by push_cast; rfl
    rw [← hcast] at hleft hright
    omega
  · refine lt_of_le_of_lt ?_ hden
    push_cast
    refine mul_le_mul (le_trans ?_ hxden) ?_ (by positivity) (by decide)
    · exact_mod_cast Nat.div_le_self _ _
    · exact_mod_cast Nat.div_le_self _ _

/-- Halving rounds both terms down, but never by more than a unit of the numerator. -/
theorem scaleLoop_terms_le {n : ℕ} {cp : ℚ} {shrinked : Bool} {num den : ℤ} (hnum : 0 < num) (hden : 0 < den) (hcp : 0 < cp)
    (h : num * cp.den ≤ den * (cp.num + 1)) :
    num * (Price.scaleLoop n cp shrinked).value.den ≤ den * ((Price.scaleLoop n cp shrinked).value.num + 1) ∨
      (Price.scaleLoop n cp shrinked).value.den = 1 := by
  induction n generalizing cp shrinked with
  | zero => exact .inl h
  | succ n ih =>
    have hpos := Rat.num_pos.2 hcp
    have hdenpos := cp.den_pos
    unfold Price.scaleLoop
    by_cases hrange : outOfRange cp = true
    · rw [if_pos hrange]
      by_cases hnum₁ : cp.num = 1
      · rw [if_pos hnum₁]
        -- the denominator is cut down to the limit
        have hout : maxShareSupply < (cp.den : ℤ) := (of_decide_eq_true hrange).resolve_left (by rw [hnum₁]; decide)
        have hle : ((mkRat 1 maxShareSupply.toNat).den : ℤ) ≤ cp.den := by
          have hterm := (mkRat_terms_le (a := 1) (b := maxShareSupply.toNat) (by decide) (by decide)).2
          have hmax : (maxShareSupply.toNat : ℤ) = maxShareSupply := by decide
          omega
        have hone : 0 < (mkRat 1 maxShareSupply.toNat).num := by decide
        refine .inl ((mul_le_mul_of_nonneg_left hle hnum.le).trans (h.trans ?_))
        rw [hnum₁]
        exact mul_le_mul_of_nonneg_left (Int.add_le_add_right hone 1) hden.le
      rw [if_neg hnum₁]
      by_cases hden₁ : cp.den = 1
      · rw [if_pos hden₁]
        exact .inr (Rat.den_intCast _)
      rw [if_neg hden₁]
      have hnum₂ : 0 < cp.num / 2 := by omega
      have hden₂ : 0 < cp.den / 2 := by omega
      have hhalf : 0 < mkRat (cp.num / 2) (cp.den / 2) := by
        rw [Rat.mkRat_eq_div]
        exact div_pos (by exact_mod_cast hnum₂) (by exact_mod_cast hden₂)
      refine ih hhalf ?_
      -- the halved terms have a common divisor `c`
      obtain ⟨c, hc, hc'⟩ := Rat.num_den_mk (d := ((cp.den / 2 : ℕ) : ℤ)) (by exact_mod_cast hden₂.ne')
        (Rat.divInt_ofNat (cp.num / 2) (cp.den / 2)).symm
      generalize mkRat (cp.num / 2) (cp.den / 2) = half at hhalf hc hc' ⊢
      have hhalfnum := Rat.num_pos.2 hhalf
      have hcpos : 0 < c := (mul_pos_iff_of_pos_right hhalfnum).1 (hc ▸ hnum₂)
      refine le_of_mul_le_mul_left ?_ (show 0 < 2 * c by omega)
      calc 2 * c * (num * half.den) = num * (2 * (c * half.den)) := by ring
        _ ≤ num * cp.den := mul_le_mul_of_nonneg_left (by rw [← hc']; omega) hnum.le
        _ ≤ den * (cp.num + 1) := h
        _ ≤ den * (2 * (c * half.num) + 2 * c) := mul_le_mul_of_nonneg_left (by rw [← hc]; omega) hden.le
        _ = 2 * c * (den * (half.num + 1)) := by ring
    · rw [if_neg hrange]
      exact .inl h

/-- **The differences fit if the denominator of the product is not too large.** -/
theorem differencesFit_of_den_lt {q : ℚ} (hq : 0 < q) (hnum : q.num < 2 ^ bits)
    (hden : (maxShareSupply + 1) * q.den < 2 ^ bits) : DifferencesFit bits q := by
  have hqpos := Rat.num_pos.2 hq
  have hqden : (0 : ℤ) < q.den := by exact_mod_cast q.den_pos
  have hmax : maxShareSupply * (q.den : ℤ) < 2 ^ bits := lt_of_le_of_lt (by rw [add_mul]; omega) hden
  refine fun _ _ ↦ ⟨subTerms_fit (unitFraction_pos hq) hq (unitFraction_inRange hq) ?_ hmax,
    subTerms_fit (scaleLoop_pos hq) hq (halved_inRange hq) ?_ hmax⟩
  · unfold Price.unitFraction
    by_cases hlt : (q.den : ℤ) < q.num
    · rw [if_pos hlt, Rat.den_intCast, Nat.cast_one, mul_one]
      exact hnum
    · rw [if_neg hlt]
      have hquot : 0 < (q.den : ℤ) / q.num := (Int.le_ediv_iff_mul_le hqpos).2 (by omega)
      generalize hk : (if maxShareSupply < (q.den : ℤ) / q.num then maxShareSupply else (q.den : ℤ) / q.num) = k
      have hkpos : 0 < k := by
        rw [← hk]
        split_ifs
        · decide
        · exact hquot
      have hkle : k ≤ (q.den : ℤ) / q.num := by
        rw [← hk]
        split_ifs with h
        · exact h.le
        · exact le_rfl
      have hterm := (mkRat_terms_le (a := 1) (b := k.toNat) (by decide) (by omega)).2
      have hone : (1 : ℤ) ≤ maxShareSupply := by decide
      calc q.num * ((mkRat 1 k.toNat).den : ℤ) ≤ q.num * ((q.den : ℤ) / q.num) :=
            mul_le_mul_of_nonneg_left (by omega) hqpos.le
        _ ≤ q.den := Int.mul_ediv_self_le hqpos.ne'
        _ ≤ maxShareSupply * q.den := le_mul_of_one_le_left hqden.le hone
        _ < 2 ^ bits := hmax
  · have hrange := (not_outOfRange_iff.mp (halved_inRange hq)).1
    have hterms : q.num * (q.den : ℤ) ≤ q.den * (q.num + 1) := by
      rw [mul_add, mul_comm]
      omega
    rcases scaleLoop_terms_le (n := halvings q) hqpos hqden hq hterms with hle | hone
    · refine hle.trans_lt (lt_of_le_of_lt ?_ hden)
      rw [mul_comm]
      exact mul_le_mul_of_nonneg_right (by unfold halved at hrange; omega) hqden.le
    · unfold halved
      rw [hone, Nat.cast_one, mul_one]
      exact hnum

section Scale

variable (hp : ValidPrice p) (hr : 0 < r)

include hp hr

/-- Scaling in wide integers, up to the rounding. -/
theorem scaleWide_eq (hbits : 127 ≤ bits) (hbase : p.base.amount < 2 ^ 63) (hquote : p.quote.amount < 2 ^ 63)
    (hnum : r.num < 2 ^ 16) (hden : r.den < 2 ^ 16) (hone : r ≠ 1) {cp : Wide ℚ}
    (hcp : (if (Price.scaleLoop (halvings (p.ratio * r)) (p.ratio * r) false).shrinked then
        Price.refineWide bits (p.ratio * r) (halved (p.ratio * r)) else pure (halved (p.ratio * r))) = cp) :
    p.scaleWide bits r = cp >>= fun cp ↦ do
      let np ← Wide.lift (Price.div ⟨cp.num, p.base.assetId⟩ ⟨cp.den, p.quote.assetId⟩)
      let res := Price.scaleLoop (halvings (p.ratio * r)) (p.ratio * r) false
      let np := if (res.shrinked ∨ res.usingMax) ∧ ((1 < r ∧ np < p) ∨ (r < 1 ∧ p < np)) then p else np
      Wide.lift np.validate
      return np := by
  obtain ⟨hnum', hden'⟩ := product_terms_lt hp hbase hquote hr hnum hden
  have hmul : Wide.mul bits p.ratio r = .ok (p.ratio * r) := mul_eq hbits (mul_pos hp.ratio_pos hr) hnum' hden'
  have hratio : mkRat p.base.amount p.quote.amount.toNat = p.ratio := hp.mkRat_eq
  have hassert : fcAssert (0 < r.num) "r.numerator() > 0 && r.denominator() > 0" = .ok () :=
    fcAssert_of_true (Rat.num_pos.2 hr)
  rw [← hcp]
  unfold Price.scaleWide
  rw [hp.validate, hassert, hratio, hmul, if_neg hone]
  by_cases hshrinked : (Price.scaleLoop (halvings (p.ratio * r)) (p.ratio * r) false).shrinked = true
  · rw [if_pos hshrinked]
    exact if_pos hshrinked
  · rw [if_neg hshrinked]
    exact if_neg hshrinked

theorem scaleWide_of_fit (hbits : 127 ≤ bits) (hbase : p.base.amount < 2 ^ 63) (hquote : p.quote.amount < 2 ^ 63)
    (hnum : r.num < 2 ^ 16) (hden : r.den < 2 ^ 16) (hone : r ≠ 1) (hfits : DifferencesFit bits (p.ratio * r)) :
    p.scaleWide bits r = .ok (scaled p r) := by
  have hpos : 0 < p.ratio * r := mul_pos hp.ratio_pos hr
  have hcp : (if (Price.scaleLoop (halvings (p.ratio * r)) (p.ratio * r) false).shrinked then
      Price.refineWide bits (p.ratio * r) (halved (p.ratio * r)) else pure (halved (p.ratio * r))) =
      Except.ok (rounded (p.ratio * r)) := by
    unfold rounded
    by_cases hshrinked : (Price.scaleLoop (halvings (p.ratio * r)) (p.ratio * r) false).shrinked = true
    · rw [if_pos hshrinked, if_pos hshrinked]
      refine refineWide_eq ?_ hfits
      by_contra hrange
      rw [scaleLoop_of_inRange (Bool.eq_false_of_not_eq_true hrange)] at hshrinked
      cases hshrinked
    · rw [if_neg hshrinked, if_neg hshrinked]
      rfl
  have hdiv : Price.div ⟨(rounded (p.ratio * r)).num, p.base.assetId⟩ ⟨(rounded (p.ratio * r)).den, p.quote.assetId⟩ =
      .ok (withRatio p (rounded (p.ratio * r))) :=
    Except.bind_eq_ok.2 ⟨(), fcAssert_of_true hp.assets, rfl⟩
  rw [scaleWide_eq hp hr hbits hbase hquote hnum hden hone hcp, Except.ok_bind, hdiv]
  have hvalid := (hp.scaled hr).validate
  change (Wide.lift (scaled p r).validate >>= fun _ ↦ pure (scaled p r)) = _
  rw [hvalid]
  rfl

theorem scaleWide_overflow (hbits : 127 ≤ bits) (hbase : p.base.amount < 2 ^ 63) (hquote : p.quote.amount < 2 ^ 63)
    (hnum : r.num < 2 ^ 16) (hden : r.den < 2 ^ 16) (hone : r ≠ 1) (hfits : ¬DifferencesFit bits (p.ratio * r)) :
    p.scaleWide bits r = .error none := by
  have hpos : 0 < p.ratio * r := mul_pos hp.ratio_pos hr
  unfold DifferencesFit at hfits
  push Not at hfits
  obtain ⟨hrange, hedge, hnot⟩ := hfits
  have hshrinked := (shrinked_or_atEdge hpos hrange).resolve_right hedge
  have hcp : (if (Price.scaleLoop (halvings (p.ratio * r)) (p.ratio * r) false).shrinked then
      Price.refineWide bits (p.ratio * r) (halved (p.ratio * r)) else pure (halved (p.ratio * r))) = .error none := by
    rw [if_pos hshrinked]
    exact refineWide_overflow hedge fun hboth ↦ hnot hboth.1 hboth.2
  rw [scaleWide_eq hp hr hbits hbase hquote hnum hden hone hcp]
  rfl

end Scale

theorem scaleWide_one (hp : ValidPrice p) : p.scaleWide bits 1 = .ok p := by
  unfold Price.scaleWide
  rw [hp.validate, fcAssert_of_true (by decide : 0 < (1 : ℚ).num)]
  rfl

/-- **A price is scaled well, and without overflow, exactly if the differences fit.** -/
theorem scaling_exact_iff {bits : ℕ} (hbits : 127 ≤ bits) {p : Price} (hp : ValidPrice p) (hbase : p.base.amount < 2 ^ 63)
    (hquote : p.quote.amount < 2 ^ 63) {r : ℚ} (hr : 0 < r) (hnum : r.num < 2 ^ 16) (hden : r.den < 2 ^ 16) :
    (∃ np, p.scaleWide bits r = .ok np ∧ ScaledWell p r np) ↔ r = 1 ∨ DifferencesFit bits (p.ratio * r) := by
  by_cases hone : r = 1
  · subst hone
    exact iff_of_true ⟨p, scaleWide_one hp, .one hp⟩ (.inl rfl)
  constructor
  · rintro ⟨np, hscale, -⟩
    by_contra hnot
    rw [not_or] at hnot
    rw [scaleWide_overflow hp hr hbits hbase hquote hnum hden hone hnot.2] at hscale
    cases hscale
  · intro hfits
    exact ⟨scaled p r, scaleWide_of_fit hp hr hbits hbase hquote hnum hden hone (hfits.resolve_left hone),
      scaledWell_scaled hp hr⟩

/-- **A price is scaled well, and without overflow**, by a ratio with a numerator of 16 bits and a denominator of 15 bits in numbers
of 128 bits, or of 14 bits in numbers of 127 bits. -/
theorem scaling_exact {bits : ℕ} (hbits : 127 ≤ bits) {p : Price} (hp : ValidPrice p) (hbase : p.base.amount < 2 ^ 63)
    (hquote : p.quote.amount < 2 ^ 63) {r : ℚ} (hr : 0 < r) (hnum : r.num < 2 ^ 16) (hden : r.den < 2 ^ 16)
    (hnarrow : r.den * 2 ^ 113 ≤ 2 ^ bits) : ∃ np, p.scaleWide bits r = .ok np ∧ ScaledWell p r np := by
  by_cases hone : r = 1
  · subst hone
    exact ⟨p, scaleWide_one hp, .one hp⟩
  have hq : 0 < p.ratio * r := mul_pos hp.ratio_pos hr
  have hpow : (2 : ℤ) ^ 79 ≤ 2 ^ bits := pow_le_pow_right₀ (by decide) (by omega)
  have hdenpos : (0 : ℤ) < r.den := by exact_mod_cast r.den_pos
  have hproduct : (maxShareSupply + 1) * ((p.ratio * r).den : ℤ) < 2 ^ bits := by
    have hmax : maxShareSupply + 1 ≤ 2 ^ 50 := by decide
    have hquote' : p.quote.amount * (r.den : ℤ) < 2 ^ 63 * r.den := mul_lt_mul_of_pos_right hquote hdenpos
    have hden' := (product_terms_le hp hr).2
    have hnarrow' : (r.den : ℤ) * 2 ^ 113 ≤ 2 ^ bits := by exact_mod_cast hnarrow
    calc (maxShareSupply + 1) * ((p.ratio * r).den : ℤ) ≤ 2 ^ 50 * ((p.ratio * r).den : ℤ) :=
          mul_le_mul_of_nonneg_right hmax (Int.natCast_nonneg _)
      _ < 2 ^ 50 * (2 ^ 63 * r.den) := mul_lt_mul_of_pos_left (hden'.trans_lt hquote') (by decide)
      _ = r.den * 2 ^ 113 := by ring
      _ ≤ 2 ^ bits := hnarrow'
  have hfits : DifferencesFit bits (p.ratio * r) :=
    differencesFit_of_den_lt hq ((product_terms_lt hp hbase hquote hr hnum hden).1.trans_le hpow) hproduct
  exact ⟨scaled p r, scaleWide_of_fit hp hr hbits hbase hquote hnum hden hone hfits, scaledWell_scaled hp hr⟩

/-- A price that is scaled by the largest ratio of a feed, with a product that has to be rounded. -/
theorem scaling_exact_rounded :
    ∃ np, Price.scaleWide 128 ⟨⟨9223372036854775807, 1⟩, ⟨9223372036854775783, 0⟩⟩ (1000 / 31999) = .ok np ∧
      ScaledWell ⟨⟨9223372036854775807, 1⟩, ⟨9223372036854775783, 0⟩⟩ (1000 / 31999) np :=
  scaling_exact (by decide) ⟨by decide, by decide, by decide⟩ (by decide) (by decide) (by norm_num) (by decide +kernel)
    (by decide +kernel) (by decide +kernel)

/-- **The comparison of the approximations overflows**: the common denominator of the halved fraction
480689743034859 / 629252824229606 and the exact product has more than 128 bits. -/
theorem scaling_overflow :
    ValidPrice ⟨⟨6656430743848401084, 1⟩, ⟨8650486143730706575, 0⟩⟩ ∧ (6656430743848401084 : ℤ) < 2 ^ 63 ∧
      (8650486143730706575 : ℤ) < 2 ^ 63 ∧ (64061 / 64529 : ℚ).num < 2 ^ 16 ∧ (64061 / 64529 : ℚ).den < 2 ^ 16 ∧
      Price.scaleWide 128 ⟨⟨6656430743848401084, 1⟩, ⟨8650486143730706575, 0⟩⟩ (64061 / 64529) = .error none := by
  have hp : ValidPrice ⟨⟨6656430743848401084, 1⟩, ⟨8650486143730706575, 0⟩⟩ := ⟨by decide, by decide, by decide⟩
  have hr : (0 : ℚ) < 64061 / 64529 := by norm_num
  refine ⟨hp, by decide, by decide, by decide +kernel, by decide +kernel, ?_⟩
  refine scaleWide_overflow hp hr (by decide) (by decide) (by decide) (by decide +kernel) (by decide +kernel)
    (by norm_num) fun hfits ↦ ?_
  exact absurd (hfits (by decide +kernel) (by decide +kernel)).2 (by decide +kernel)

end Playchain
