import Playchain.Lib.FlatMap

/-!
# Protocol types

Identifiers, points in time, amounts and errors of the chain.

Identifiers are the instance numbers of the objects they name. A point in time is a number of
seconds that fits in 32 bits: sums wrap (`TimePointSec.addSeconds`), and the largest value stands
for "never".

An amount carries the asset it is denominated in, and the operators of `Asset` **fail on mixed
assets** the way the assertions of the source do. Share amounts are unbounded integers here; the
total supply of an asset keeps them inside 64 bits on the chain.
-/

namespace Playchain

abbrev AccountId := ℕ
abbrev AssetId := ℕ
abbrev PlayerId := ℕ
abbrev RoomId := ℕ
abbrev TableId := ℕ
abbrev GameWitnessId := ℕ
abbrev PendingBuyInId := ℕ
abbrev VestingBalanceId := ℕ
abbrev PercentType := ℕ

/-! ### Special identifiers -/

/-- `GRAPHENE_COMMITTEE_ACCOUNT` -/
def committeeAccount : AccountId := 0
/-- `GRAPHENE_WITNESS_ACCOUNT` -/
def witnessAccount : AccountId := 1
/-- `GRAPHENE_RELAXED_COMMITTEE_ACCOUNT` -/
def relaxedCommitteeAccount : AccountId := 2
/-- `GRAPHENE_NULL_ACCOUNT` -/
def nullAccount : AccountId := 3
/-- `GRAPHENE_TEMP_ACCOUNT` -/
def tempAccount : AccountId := 4
/-- `GRAPHENE_PROXY_TO_SELF_ACCOUNT` -/
def proxyToSelfAccount : AccountId := 5

/-- Accounts that no operation may name as an actor. -/
def isSpecialAccount (id : AccountId) : Bool :=
  id = committeeAccount ∨ id = witnessAccount ∨ id = relaxedCommitteeAccount ∨
    id = nullAccount ∨ id = tempAccount ∨ id = proxyToSelfAccount

/-- `PLAYCHAIN_NULL_PLAYER` -/
def nullPlayer : PlayerId := 0
/-- `PLAYCHAIN_NULL_GAME_WITNESS` -/
def nullGameWitness : GameWitnessId := 0
/-- `PLAYCHAIN_NULL_ROOM` -/
def nullRoom : RoomId := 0
/-- `PLAYCHAIN_NULL_TABLE` -/
def nullTable : TableId := 0
/-- `PLAYCHAIN_NULL_PENDING_BUYIN` -/
def nullPendingBuyIn : PendingBuyInId := 0

/-- The core asset, `asset_id_type()`. -/
def coreAsset : AssetId := 0

/-- `GRAPHENE_100_PERCENT` -/
def hundredPercent : ℕ := 10000

/-! ### Errors -/

/-- Why a computation of the chain is abandoned. -/
inductive ChainError where
  /-- A failed `FC_ASSERT`, with its text. -/
  | assertion (text : String)
  /-- An access to the wrong alternative of a variant. -/
  | badVariant
  /-- The end iterator of an index is dereferenced, or a map is asked for a key it does not have. -/
  | missingObject
  /-- A division by zero. -/
  | divisionByZero
  /-- The language does not say what happens. -/
  | undefinedBehaviour
  deriving DecidableEq, Repr

/-- `FC_ASSERT` -/
def fcAssert (p : Prop) [Decidable p] (text : String) : Except ChainError Unit :=
  if p then .ok () else .error (.assertion text)

theorem fcAssert_eq_ok {p : Prop} [Decidable p] {text : String} {u : Unit} :
    fcAssert p text = .ok u ↔ p := by
  by_cases h : p <;> simp [fcAssert, h]

@[simp] theorem fcAssert_of_true {p : Prop} [Decidable p] {text : String} (h : p) :
    fcAssert p text = .ok () := if_pos h

/-! ### Machine integers -/

/-- `std::numeric_limits<int32_t>::min()` -/
def int32Min : ℤ := -2 ^ 31

/-- Negation of a 32-bit integer in two's complement: the least one is its own negation. -/
def int32Neg (x : ℤ) : ℤ := if x = int32Min then int32Min else -x

/-- Conversion to a signed 32-bit integer. -/
def toInt32 (x : ℤ) : ℤ := x.bmod (2 ^ 32)

/-- Conversion to an unsigned 64-bit integer. -/
def toUInt64 (x : ℤ) : ℕ := (x.emod (2 ^ 64)).toNat

/-- Conversion of an unsigned 64-bit integer to a signed one. -/
def toInt64 (x : ℕ) : ℤ := (x : ℤ).bmod (2 ^ 64)

/-! ### Points in time -/

/-- Seconds since the epoch, below `2 ^ 32`. -/
abbrev TimePointSec := ℕ

namespace TimePointSec

/-- `time_point_sec::min()` -/
def min : TimePointSec := 0

/-- `time_point_sec::maximum()` -/
def maximum : TimePointSec := 2 ^ 32 - 1

/-- Adding seconds wraps at 32 bits. -/
def addSeconds (t : TimePointSec) (s : ℕ) : TimePointSec := (t + s) % 2 ^ 32

end TimePointSec

/-! ### Hard forks of the main network -/

def hardforkPlaychain1Time : TimePointSec := 1556096400
def hardforkPlaychain2Time : TimePointSec := 1561964400
def hardforkPlaychain3Time : TimePointSec := 1561971600
def hardforkPlaychain4Time : TimePointSec := 1561971600
def hardforkPlaychain5Time : TimePointSec := 1561982400
def hardforkPlaychain6Time : TimePointSec := 1568624400
def hardforkPlaychain7Time : TimePointSec := 1568624460
def hardforkPlaychain8Time : TimePointSec := 1568624520
def hardforkPlaychain9Time : TimePointSec := 1568624580
def hardforkPlaychain10Time : TimePointSec := 1568625600
def hardforkPlaychain11Time : TimePointSec := 1568883600

/-! ### Amounts -/

/-- An amount of an asset. -/
structure Asset where
  /-- The number of shares. -/
  amount : ℤ := 0
  /-- The asset they are shares of. -/
  assetId : AssetId := coreAsset
  deriving DecidableEq, Repr

namespace Asset

instance : Inhabited Asset := ⟨{}⟩

instance : Neg Asset := ⟨fun a ↦ { a with amount := -a.amount }⟩

@[simp] theorem neg_amount (a : Asset) : (-a).amount = -a.amount := rfl

@[simp] theorem neg_assetId (a : Asset) : (-a).assetId = a.assetId := rfl

/-- The text of the assertion that guards every binary operator of `asset`. -/
def sameAsset (a b : Asset) : Except ChainError Unit :=
  fcAssert (a.assetId = b.assetId) "asset_id == o.asset_id"

/-- `operator+` -/
def add (a b : Asset) : Except ChainError Asset := do
  sameAsset a b
  return { a with amount := a.amount + b.amount }

/-- `operator-` -/
def sub (a b : Asset) : Except ChainError Asset := do
  sameAsset a b
  return { a with amount := a.amount - b.amount }

/-- `operator<` -/
def lt (a b : Asset) : Except ChainError Bool := do
  sameAsset a b
  return a.amount < b.amount

/-- `operator<=` is the negation of the flipped `operator<`. -/
def le (a b : Asset) : Except ChainError Bool := do
  return !(← lt b a)

/-- `std::min` -/
def min (a b : Asset) : Except ChainError Asset := do
  return if ← lt b a then b else a

theorem add_eq_ok {a b c : Asset} :
    a.add b = .ok c ↔ a.assetId = b.assetId ∧ c = ⟨a.amount + b.amount, a.assetId⟩ := by
  by_cases h : a.assetId = b.assetId <;> simp [add, sameAsset, fcAssert, h, eq_comm]

end Asset

end Playchain
