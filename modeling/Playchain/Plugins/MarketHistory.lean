import Playchain.Graphene.Prices
import Playchain.Lib.ObjectIndex

/-!
# The market history plugin

After every block the plugin records the filled orders of the block and keeps a ticker for every market
with the volume of the last day. A maker's fill is added to the volume when it is recorded and taken
off again when its record is more than a day old. A cursor into the records remembers how far they have
been taken off: it is the id of the first record that is left, or, with the skip flag, of the last one
that is gone.

Old records are removed from a market by another rule, which looks at their number and their age and
not at the cursor.

Volumes are unsigned 128-bit numbers. The buckets, which the same visitor keeps for charts, are not
modelled here.
-/

namespace Playchain.MarketHistory

/-- `fill_order_operation`, as far as the plugin reads it: the two amounts are numbers of shares of
different assets. -/
structure FillOrder where
  pays : Asset
  receives : Asset
  fillPrice : Price
  isMaker : Bool
  distinct : pays.assetId ≠ receives.assetId
  paysShares : 0 ≤ pays.amount ∧ pays.amount < 2 ^ 63
  receivesShares : 0 ≤ receives.amount ∧ receives.amount < 2 ^ 63

/-- A market: the asset with the smaller id is its base. -/
abbrev Market := AssetId ×ₗ AssetId

/-- The market of a filled order. -/
def FillOrder.market (o : FillOrder) : Market :=
  if o.receives.assetId < o.pays.assetId then toLex (o.receives.assetId, o.pays.assetId)
  else toLex (o.pays.assetId, o.receives.assetId)

/-- `trade_price`, turned to the market. -/
def FillOrder.tradePrice (o : FillOrder) : Price :=
  if o.receives.assetId < o.pays.assetId then Price.inv ⟨o.pays, o.receives⟩
  else ⟨o.pays, o.receives⟩

/-- `fill_price`, turned to the market. -/
def FillOrder.marketFillPrice (o : FillOrder) : Price :=
  if o.fillPrice.quote.assetId < o.fillPrice.base.assetId then o.fillPrice.inv else o.fillPrice

/-- `history_key` -/
structure HistoryKey where
  market : Market
  /-- Later records have smaller numbers. -/
  sequence : ℤ

/-- `order_history_object` -/
structure OrderHistoryObject where
  key : HistoryKey
  time : TimePointSec
  op : FillOrder

/-- `market_ticker_object`, under its market. -/
structure MarketTicker where
  lastDayBase : ℤ
  lastDayQuote : ℤ
  latestBase : ℤ
  latestQuote : ℤ
  baseVolume : ℕ
  quoteVolume : ℕ

/-- `market_ticker_meta_object` -/
structure MarketTickerMeta where
  rollingMinOrderHisId : ℕ
  skipMinOrderHisId : Bool

/-- The options of the plugin. -/
structure Options where
  maxOrderHisRecordsPerMarket : ℕ := 1000
  maxOrderHisSecondsPerMarket : ℕ := 259200

/-- The objects of the plugin. -/
structure State where
  orderHistory : ObjectIndex OrderHistoryObject := ∅
  tickers : FlatMap Market MarketTicker := ∅
  tickerMeta : Option MarketTickerMeta := none

/-- An unsigned 128-bit number. -/
def toUInt128 (x : ℤ) : ℕ := (x.emod (2 ^ 128)).toNat

/-! ### Records -/

/-- The records of a market in the order of `by_key`. -/
def byKey (history : ObjectIndex OrderHistoryObject) (m : Market) : List (ℕ × OrderHistoryObject) :=
  (history.toList.filter fun r ↦ r.2.key.market = m).insertionSort fun a b ↦
    a.2.key.sequence ≤ b.2.key.sequence

/-- The records of a market in the order of `by_market_time`: the latest first. -/
def byMarketTime (history : ObjectIndex OrderHistoryObject) (m : Market) :
    List (ℕ × OrderHistoryObject) :=
  (history.toList.filter fun r ↦ r.2.key.market = m).insertionSort fun a b ↦
    b.2.time < a.2.time ∨ (a.2.time = b.2.time ∧ a.2.key.sequence ≤ b.2.key.sequence)

/-- The number of a new record: one less than the smallest one of its market. -/
def nextSequence (history : ObjectIndex OrderHistoryObject) (m : Market) : ℤ :=
  match byKey history m with
  | [] => 0
  | r :: _ => r.2.key.sequence - 1

/-- The records to remove after the record `sequence` has been added: those beyond the greatest number
of records, from the first one on that is old enough. -/
def oldRecords (options : Options) (now : TimePointSec) (history : ObjectIndex OrderHistoryObject)
    (m : Market) (sequence : ℤ) : List (ℕ × OrderHistoryObject) :=
  let itr := (byKey history m).dropWhile fun r ↦
    r.2.key.sequence < sequence + options.maxOrderHisRecordsPerMarket
  match itr with
  | [] => []
  | first :: _ =>
    let minTime := if options.maxOrderHisSecondsPerMarket < now then
      now - options.maxOrderHisSecondsPerMarket else TimePointSec.min
    let timeItr := (byMarketTime history m).dropWhile fun r ↦ minTime < r.2.time
    match timeItr with
    | [] => []
    | old :: _ => if old.2.key.sequence ≤ first.2.key.sequence then itr else timeItr

/-! ### Filled orders -/

/-- The history with a new record. -/
def record (now : TimePointSec) (history : ObjectIndex OrderHistoryObject) (o : FillOrder) :
    ObjectIndex OrderHistoryObject :=
  history.create { key := ⟨o.market, nextSequence history o.market⟩, time := now, op := o }

/-- The history without the records that are removed for a new one. -/
def removeOld (options : Options) (now : TimePointSec) (history : ObjectIndex OrderHistoryObject)
    (m : Market) (sequence : ℤ) : ObjectIndex OrderHistoryObject :=
  (oldRecords options now history m sequence).foldl (fun history r ↦ history.remove r.1) history

/-- The tickers with a maker's fill added. -/
def addVolume (tickers : FlatMap Market MarketTicker) (o : FillOrder) :
    FlatMap Market MarketTicker :=
  match tickers.find? o.market with
  | none => tickers.insert o.market {
      lastDayBase := 0
      lastDayQuote := 0
      latestBase := o.marketFillPrice.base.amount
      latestQuote := o.marketFillPrice.quote.amount
      baseVolume := toUInt128 o.tradePrice.base.amount
      quoteVolume := toUInt128 o.tradePrice.quote.amount }
  | some ticker => tickers.insert o.market { ticker with
      latestBase := o.marketFillPrice.base.amount
      latestQuote := o.marketFillPrice.quote.amount
      baseVolume := toUInt128 (ticker.baseVolume + o.tradePrice.base.amount)
      quoteVolume := toUInt128 (ticker.quoteVolume + o.tradePrice.quote.amount) }

/-- `operation_process_fill_order` -/
def processFillOrder (options : Options) (now : TimePointSec) (s : State) (o : FillOrder) : State where
  orderHistory := removeOld options now (record now s.orderHistory o) o.market
    (nextSequence s.orderHistory o.market)
  tickers := if o.isMaker then addVolume s.tickers o else s.tickers
  tickerMeta := some (s.tickerMeta.getD ⟨s.orderHistory.nextId, false⟩)

/-! ### Rolling out -/

/-- The tickers with a maker's fill taken off. -/
def subtractVolume (tickers : FlatMap Market MarketTicker) (o : FillOrder) :
    FlatMap Market MarketTicker :=
  match tickers.find? o.market with
  | none => tickers
  | some ticker => tickers.insert o.market { ticker with
      lastDayBase := o.marketFillPrice.base.amount
      lastDayQuote := o.marketFillPrice.quote.amount
      baseVolume := toUInt128 (ticker.baseVolume - o.tradePrice.base.amount)
      quoteVolume := toUInt128 (ticker.quoteVolume - o.tradePrice.quote.amount) }

/-- The loop over the records from the cursor on: the id at which it stops, if it does not reach the
end, the last id it has passed, and the tickers. -/
def rollLoop (rolling : ℕ) (lastDay : TimePointSec) : List (ℕ × OrderHistoryObject) → Bool → ℕ →
    FlatMap Market MarketTicker → Option ℕ × ℕ × FlatMap Market MarketTicker
  | [], _, last, tickers => (none, last, tickers)
  | r :: l, skip, last, tickers =>
    if r.2.time < lastDay then
      if skip ∧ r.1 = rolling then rollLoop rolling lastDay l false r.1 tickers
      else rollLoop rolling lastDay l skip r.1
        (if r.2.op.isMaker then subtractVolume tickers r.2.op else tickers)
    else (some r.1, last, tickers)

/-- The cursor after the loop. -/
def nextMeta (cursor : MarketTickerMeta) (stop : Option ℕ) (last : ℕ) : MarketTickerMeta :=
  match stop with
  | some id => if id ≠ cursor.rollingMinOrderHisId then ⟨id, false⟩ else cursor
  | none => if last ≠ cursor.rollingMinOrderHisId then ⟨last, true⟩ else cursor

/-- Rolling out at the end of a block. -/
def rollOut (timestamp : TimePointSec) (s : State) : State :=
  match s.tickerMeta with
  | none => s
  | some cursor =>
    let lastDay := (timestamp + 2 ^ 32 - 86400) % 2 ^ 32
    let records := s.orderHistory.toList.dropWhile fun r ↦ r.1 < cursor.rollingMinOrderHisId
    let (stop, last, tickers) := rollLoop cursor.rollingMinOrderHisId lastDay records
      cursor.skipMinOrderHisId cursor.rollingMinOrderHisId s.tickers
    { s with tickers := tickers, tickerMeta := some (nextMeta cursor stop last) }

/-- A block: its time, and the orders filled in it. -/
structure Block where
  timestamp : TimePointSec
  fills : List FillOrder

/-- `update_market_histories` -/
def updateMarketHistories (options : Options) (s : State) (b : Block) : State :=
  rollOut b.timestamp (b.fills.foldl (processFillOrder options b.timestamp) s)

/-- The state after some blocks, from an empty database. -/
def run (options : Options) (blocks : List Block) : State :=
  blocks.foldl (updateMarketHistories options) {}

end Playchain.MarketHistory
