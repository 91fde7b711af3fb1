import Playchain.Graphene.Prices

/-!
# Prices and ratios in wide integers

`operator*` of a price and a ratio computes with `boost::rational<int128_t>`. `Price.scale` is that product with numbers of
any size; here a number that does not have the bits of the type is an overflow. How many bits the type has besides its sign
depends on the version of the library, and is a parameter.
-/

namespace Playchain

/-- A computation with wide integers. It may be abandoned by an exception, or have no result because of an overflow. -/
abbrev Wide (α : Type) := Except (Option ChainError) α

namespace Wide

/-- What does not compute with wide integers. -/
def lift {α : Type} (x : Except ChainError α) : Wide α := x.mapError some

/-- A number has the bits of the type. -/
def fits (bits : ℕ) (z : ℤ) : Bool := z.natAbs < 2 ^ bits

/-- Numbers have to fit. -/
def check (bits : ℕ) (numbers : List ℤ) : Wide Unit := if numbers.all (fits bits) then .ok () else .error none

/-- `operator*=`, which computes the terms of the reduced product -/
def mul (bits : ℕ) (x y : ℚ) : Wide ℚ := do
  check bits [(x * y).num, (x * y).den]
  return x * y

/-- The numbers that `operator-=` computes: the products of the numerators and the denominators without their greatest
common divisor, their difference, and the denominator of the result. -/
def subTerms (x y : ℚ) : List ℤ :=
  let g := Nat.gcd x.den y.den
  let left := x.num * (y.den / g : ℕ)
  let right := y.num * (x.den / g : ℕ)
  [left, right, left - right, (x.den / g * (y.den / Int.gcd (left - right) g) : ℕ)]

/-- `operator-=` -/
def sub (bits : ℕ) (x y : ℚ) : Wide ℚ := do
  check bits (subTerms x y)
  return x - y

end Wide

namespace Price

/-- After halving, the closer of two approximations. -/
def refineWide (bits : ℕ) (ocp cp : ℚ) : Wide ℚ := do
  let ncp := unitFraction ocp
  if ncp.num = maxShareSupply ∨ (ncp.den : ℤ) = maxShareSupply then return ncp
  else
    let diff1 ← Wide.sub bits ncp ocp
    let diff2 ← Wide.sub bits cp ocp
    return if |diff1| < |diff2| then ncp else cp

/-- `operator*` of a price and a ratio -/
def scaleWide (bits : ℕ) (p : Price) (r : ℚ) : Wide Price := do
  Wide.lift p.validate
  Wide.lift (fcAssert (0 < r.num) "r.numerator() > 0 && r.denominator() > 0")
  if r = 1 then return p
  let ocp ← Wide.mul bits (mkRat p.base.amount p.quote.amount.toNat) r
  -- the halved terms are smaller than those of the product
  let res := scaleLoop (halvings ocp) ocp false
  let cp ← if res.shrinked then refineWide bits ocp res.value else pure res.value
  let np ← Wide.lift (div ⟨cp.num, p.base.assetId⟩ ⟨cp.den, p.quote.assetId⟩)
  let np := if (res.shrinked ∨ res.usingMax) ∧ ((1 < r ∧ np < p) ∨ (r < 1 ∧ p < np)) then p else np
  Wide.lift np.validate
  return np

end Price

end Playchain
