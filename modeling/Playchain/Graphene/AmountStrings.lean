import Playchain.Graphene.VestingBalance
import Playchain.Protocol.Version

/-!
# Amounts as text

`asset_object::amount_from_string` and `amount_to_string`, for an asset with a precision. A text is scanned for the
characters it may have, a sign and a point anywhere among the digits; it is then cut in two by positions, and both pieces
are read by `std::stoll`, which takes white space and a sign in front of the digits and ignores what follows them.
-/

namespace Playchain

inductive AmountError where
  /-- A character that is not a digit, or a second sign or point. -/
  | badCharacter
  /-- `FC_ASSERT( precision < 19 )` -/
  | badPrecision
  /-- `std::invalid_argument`: there is no number. -/
  | invalidArgument
  /-- `std::out_of_range`: the number does not fit in 64 bits. -/
  | outOfRange
  /-- A result of `fc::safe` does not fit in 64 bits. -/
  | overflow
  /-- `FC_ASSERT( rhs.size() <= max_rhs_size )` -/
  | tooManyDecimals
  /-- `FC_ASSERT( satoshis <= GRAPHENE_MAX_SHARE_SUPPLY )` -/
  | tooLarge
  deriving DecidableEq, Repr

namespace AmountString

/-- `std::stoll` -/
def stoll (s : List Char) : Except AmountError ℤ :=
  let body := s.dropWhile TextStream.isSpace
  let unsigned := if body.head? = some '-' ∨ body.head? = some '+' then body.tail else body
  let digits := unsigned.takeWhile Char.isDigit
  if digits.isEmpty then .error .invalidArgument
  else
    let n : ℤ := Nat.ofDigitChars 10 digits 0
    let n := if body.head? = some '-' then -n else n
    if -2 ^ 63 ≤ n ∧ n < 2 ^ 63 then .ok n else .error .outOfRange

/-- A result of `fc::safe<int64_t>` -/
def checked (n : ℤ) : Except AmountError ℤ := if -2 ^ 63 ≤ n ∧ n < 2 ^ 63 then .ok n else .error .overflow

/-- `asset::scaled_precision` -/
def scaledPrecision (precision : ℕ) : Except AmountError ℕ :=
  if precision < 19 then .ok (10 ^ precision) else .error .badPrecision

/-- `string::substr`; without a length up to the end. -/
def substr (s : List Char) (pos : ℕ) (len : Option ℕ) : List Char :=
  match len with
  | some n => (s.drop pos).take n
  | none => s.drop pos

/-- The scan: whether there is a sign, and whether there is a point. -/
def scan : List Char → Bool → Bool → Except AmountError (Bool × Bool)
  | [], negativeFound, decimalFound => .ok (negativeFound, decimalFound)
  | c :: cs, negativeFound, decimalFound =>
    if c.isDigit then scan cs negativeFound decimalFound
    else if c = '-' ∧ negativeFound = false then scan cs true decimalFound
    else if c = '.' ∧ decimalFound = false then scan cs negativeFound true
    else .error .badCharacter

/-- What the piece before the point adds. -/
def wholePart (scaledPrecision : ℕ) (amountString : List Char) (negativeFound : Bool) : Except AmountError ℤ :=
  let lhs := substr amountString (if negativeFound then 1 else 0) (amountString.findIdx? (· = '.'))
  if lhs.isEmpty then .ok 0
  else do
    let n ← stoll lhs
    checked (n * scaledPrecision)

/-- What the piece after the point adds. -/
def decimalPart (scaledPrecision : ℕ) (amountString : List Char) (decimalFound : Bool) : Except AmountError ℤ :=
  match amountString.findIdx? (· = '.') with
  | none => .ok 0
  | some decimalPos =>
    if decimalFound then
      let maxRhsSize := (Nat.toDigits 10 scaledPrecision).tail.length
      let rhs := amountString.drop (decimalPos + 1)
      if maxRhsSize < rhs.length then .error .tooManyDecimals
      else
        let rhs := rhs ++ List.replicate (maxRhsSize - rhs.length) '0'
        if rhs.isEmpty then .ok 0 else stoll rhs
    else .ok 0

/-- `asset_object::amount_from_string` -/
def amountFromString (precision : ℕ) (amountString : List Char) : Except AmountError ℤ := do
  let found ← scan amountString false false
  let scaled ← scaledPrecision precision
  let whole ← wholePart scaled amountString found.1
  let decimals ← decimalPart scaled amountString found.2
  let satoshis ← checked (whole + decimals)
  if maxShareSupply < satoshis then .error .tooLarge
  else if found.1 then checked (satoshis * -1)
  else .ok satoshis

/-- `fc::to_string` -/
def toText (n : ℤ) : List Char := if n < 0 then '-' :: Nat.toDigits 10 n.natAbs else Nat.toDigits 10 n.natAbs

/-- `asset_object::amount_to_string`; division is towards zero. -/
def amountToString (precision : ℕ) (amount : ℤ) : Except AmountError (List Char) := do
  let scaled ← scaledPrecision precision
  let result := toText (amount.tdiv scaled)
  let decimals := (amount.tmod scaled).natAbs
  if decimals = 0 then .ok result
  else
    let result := if amount < 0 ∧ result = ['0'] then ['-', '0'] else result
    .ok (result ++ '.' :: (Nat.toDigits 10 (scaled + decimals)).tail)

end AmountString

end Playchain
