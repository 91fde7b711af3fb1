import Playchain.Db.UndoDatabase
import Playchain.Graphene.Prices
import Playchain.Lib.Neighbours

/-!
# The grouped orders plugin

For every tracked percentage the limit orders of a market are grouped by price. A group is an interval
of prices with the sum of what its orders have for sale; it is kept under its lower price, in
**descending** order. A new order joins the group at or below its price, which may grow upwards by the
percentage, or else the group above it, which may grow downwards and is then kept under a new price, or
else it gets a group of its own. Groups do not shrink.

A modification of an order removes it and inserts it again; meanwhile its group may be empty.
-/

namespace Playchain.GroupedOrders

/-- `limit_order_object`, as far as the plugin reads it. -/
structure LimitOrder where
  sellPrice : Price
  forSale : ℤ
  deriving DecidableEq

/-- Prices are compared by their assets, then by their ratio: prices with the same ratio are the same key
of a map. -/
abbrev PriceKey := AssetId ×ₗ AssetId ×ₗ ℚ

/-- The place of a price in the order of prices. -/
def priceKey (p : Price) : PriceKey :=
  toLex (p.base.assetId, toLex (p.quote.assetId, (p.base.amount : ℚ) / (p.quote.amount : ℚ)))

/-- `limit_order_group_key`: ascending percentages, descending prices -/
abbrev GroupKey := ℕ ×ₗ PriceKeyᵒᵈ

/-- The key of a percentage and a price. -/
def groupKey (group : ℕ) (p : Price) : GroupKey := toLex (group, OrderDual.toDual (priceKey p))

/-- An entry of the map: the price of the key, and `limit_order_group_data`. -/
structure OrderGroup where
  minPrice : Price
  maxPrice : Price
  totalForSale : ℤ
  deriving DecidableEq

/-- `_og_data` -/
abbrev OrderGroups := FlatMap GroupKey OrderGroup

/-- `GRAPHENE_100_PERCENT` -/
def hundredPercent : ℕ := 10000

/-- Whether an entry has the percentage and the market of an order. -/
def sameMarket (group : ℕ) (o : LimitOrder) (entry : GroupKey × OrderGroup) : Bool :=
  (ofLex entry.1).1 = group ∧ entry.2.minPrice.base.assetId = o.sellPrice.base.assetId ∧
    entry.2.minPrice.quote.assetId = o.sellPrice.quote.assetId

namespace OrderGroups

/-- `idx[key] = data`, which keeps the key that is there. -/
def assign (idx : OrderGroups) (group : ℕ) (minPrice maxPrice : Price) (totalForSale : ℤ) :
    OrderGroups :=
  let kept := ((idx.find? (groupKey group minPrice)).map OrderGroup.minPrice).getD minPrice
  idx.insert (groupKey group minPrice) ⟨kept, maxPrice, totalForSale⟩

/-- `create_ogo` -/
def createOgo (idx : OrderGroups) (group : ℕ) (o : LimitOrder) : OrderGroups :=
  assign idx group o.sellPrice o.sellPrice o.forSale

/-- A group is kept under a lower price. -/
def moveMin (idx : OrderGroups) (group : ℕ) (o : LimitOrder) (entry : GroupKey × OrderGroup) :
    OrderGroups :=
  assign (idx.erase entry.1) group o.sellPrice entry.2.maxPrice (o.forSale + entry.2.totalForSale)

/-- The price of an order within the limits of prices, and which of them it passes. -/
structure CappedPrice where
  price : Price
  cappedMax : Bool
  cappedMin : Bool

/-- The price of an order within the limits of prices. -/
def capPrice (p : Price) : Except ChainError CappedPrice := do
  let max ← Price.max p.base.assetId p.quote.assetId
  let min ← Price.min p.base.assetId p.quote.assetId
  return if max < p then ⟨max, true, false⟩ else if p < min then ⟨min, false, true⟩ else ⟨p, false, false⟩

/-- The order is within the range of the group at or below its price. -/
def joinBelow (idx : OrderGroups) (group : ℕ) (o : LimitOrder) (capped : CappedPrice)
    (entry : GroupKey × OrderGroup) (updateMax : Bool) : OrderGroups :=
  if capped.cappedMin ∧ o.sellPrice < entry.2.minPrice then moveMin idx group o entry
  else
    let maxPrice := if updateMax ∨ (capped.cappedMax ∧ entry.2.maxPrice < o.sellPrice) then o.sellPrice
      else entry.2.maxPrice
    idx.insert entry.1 { entry.2 with
      maxPrice := maxPrice
      totalForSale := entry.2.totalForSale + o.forSale }

/-- The group above the price of the order, if there is one in range, or else a new group. -/
def joinAbove (idx : OrderGroups) (group : ℕ) (o : LimitOrder) (capped : CappedPrice) :
    Except ChainError OrderGroups :=
  match idx.predecessor (groupKey group capped.price) with
  | none => return createOgo idx group o
  | some entry =>
    if sameMarket group o entry then do
      let minPrice ← entry.2.maxPrice.divRatio (hundredPercent + group) hundredPercent
      if capped.price < minPrice then return createOgo idx group o
      else if capped.cappedMax ∧ entry.2.minPrice ≤ o.sellPrice then
        let maxPrice := if entry.2.maxPrice < o.sellPrice then o.sellPrice else entry.2.maxPrice
        return idx.insert entry.1 { entry.2 with
          maxPrice := maxPrice
          totalForSale := entry.2.totalForSale + o.forSale }
      else return moveMin idx group o entry
    else return createOgo idx group o

/-- One turn of the loop of `object_inserted`. -/
def insertOrder (o : LimitOrder) (idx : OrderGroups) (group : ℕ) : Except ChainError OrderGroups :=
  if idx.isEmpty then return createOgo idx group o
  else do
    let capped ← capPrice o.sellPrice
    match idx.lowerBound (groupKey group capped.price) with
    | none => joinAbove idx group o capped
    | some entry =>
      if sameMarket group o entry then
        if entry.2.maxPrice < capped.price then do
          let ratio ← rational (hundredPercent + group) hundredPercent
          let maxPrice ← entry.2.minPrice.scale ratio
          if maxPrice < capped.price then joinAbove idx group o capped
          else return joinBelow idx group o capped entry true
        else return joinBelow idx group o capped entry false
      else joinAbove idx group o capped

/-- One turn of the loop of `remove_order`. -/
def removeOrder (o : LimitOrder) (removeEmpty : Bool) (idx : OrderGroups) (group : ℕ) : OrderGroups :=
  match idx.lowerBound (groupKey group o.sellPrice) with
  | none => idx
  | some entry =>
    if sameMarket group o entry ∧ ¬entry.2.maxPrice < o.sellPrice then
      if entry.2.totalForSale < o.forSale then idx
      else if removeEmpty = false ∨ o.forSale < entry.2.totalForSale then
        idx.insert entry.1 { entry.2 with totalForSale := entry.2.totalForSale - o.forSale }
      else idx.erase entry.1
    else idx

end OrderGroups

/-- `limit_order_group_index` -/
structure OrderGroupIndex where
  trackedGroups : FlatSet ℕ := ∅
  ogData : OrderGroups := ∅
  /-- A method has thrown an exception. -/
  threw : Bool := false

namespace OrderGroupIndex

/-- `object_inserted` -/
def objectInserted (x : OrderGroupIndex) (o : LimitOrder) : OrderGroupIndex :=
  match x.trackedGroups.elements.foldlM (OrderGroups.insertOrder o) x.ogData with
  | .ok idx => { x with ogData := idx }
  | .error _ => { x with threw := true }

/-- `remove_order` -/
def removeOrder (x : OrderGroupIndex) (o : LimitOrder) (removeEmpty : Bool) : OrderGroupIndex :=
  { x with ogData := x.trackedGroups.elements.foldl (OrderGroups.removeOrder o removeEmpty) x.ogData }

end OrderGroupIndex

instance : SecondaryIndex ℕ LimitOrder OrderGroupIndex where
  empty := {}
  objectInserted _ o x := x.objectInserted o
  objectRemoved _ o x := x.removeOrder o true
  objectModified _ before after x := (x.removeOrder before false).objectInserted after

/-- Every unique key of a limit order includes its id. -/
instance : UniqueKeys LimitOrder where
  collide _ _ := false
  collide_comm _ _ := rfl

/-- The limit orders with their undo records. -/
abbrev OrderStore := UndoDatabase ℕ Unit LimitOrder OrderGroupIndex

/-- The order book at the start. -/
def emptyBook (trackedGroups : FlatSet ℕ) (maxSize : ℕ) : OrderStore :=
  { db := ⟨∅, fun _ ↦ 0, { trackedGroups := trackedGroups }⟩, maxSize := maxSize }

/-- A limit order as it is created: positive amounts of two assets, and a price between `price::min` and
`price::max`. -/
structure LimitOrder.Valid (o : LimitOrder) : Prop where
  base : 0 < o.sellPrice.base.amount
  quote : 0 < o.sellPrice.quote.amount
  assets : o.sellPrice.base.assetId ≠ o.sellPrice.quote.assetId
  forSale : 0 < o.forSale
  min : ∀ min, Price.min o.sellPrice.base.assetId o.sellPrice.quote.assetId = .ok min →
    ¬o.sellPrice < min
  max : ∀ max, Price.max o.sellPrice.base.assetId o.sellPrice.quote.assetId = .ok max →
    ¬max < o.sellPrice

/-- What happens to the limit orders. -/
inductive OrderEvent where
  | create (o : LimitOrder) (hvalid : o.Valid)
  /-- A modification leaves the price as it is. -/
  | modify (id : ℕ) (forSale : ℤ) (hpos : 0 < forSale)
  | remove (id : ℕ)
  | startSession
  | merge
  | commit
  | undo
  | popCommit
  | setMaxSize (n : ℕ)

/-- The effect of an event; the records are walked in whatever order. A failed undoing leaves behind what
it has done. -/
def OrderEvent.Step (u : OrderStore) : OrderEvent → OrderStore → Prop
  | create o _, v => u.call (.create () o) = .ok v
  | modify id forSale _, v => u.call (.modify id fun o ↦ { o with forSale := forSale }) = .ok v
  | remove id, v => u.call (.remove id) = .ok v
  | startSession, v => v = u.startUndoSession
  | merge, v => u.merge = some v
  | commit, v => u.commit = some v
  | undo, v => ∃ order, u.undo order = .ok v ∨ ∃ d, u.undo order = .error d ∧ v = { u with db := d }
  | popCommit, v =>
    ∃ order, u.popCommit order = .ok v ∨ ∃ d, u.popCommit order = .error d ∧ v = { u with db := d }
  | setMaxSize n, v => v = { u with maxSize := n }

end Playchain.GroupedOrders
