import SpotRelay.Model.Doubles

/-!
# The size of an entry in doubles

The entry branch of `OrderManager::execute_spot_relay_entry` (order_manager.cpp:458-668) once more,
in the `double` arithmetic of the source: the size of the next split, the gate it has to pass, the
lots that the foreign client makes of it, and the guard that rolls back a short below the Korean
minimum.

* **the ledger** is here what the size depends on, `total_foreign_value`.
* **the rest of an iteration** is arbitrary: the quotes that it reads, and the foreign value after
  an iteration that books something, come with the iteration.
-/

set_option autoImplicit false

namespace SpotRelay.Model

open SpotRelay.Library.BinaryFloat.BinaryFormat

namespace Doubles

/-- The quotes that an entry is sized and priced with. -/
structure EntryQuotes where
  foreignBid : Binary64
  foreignBidQty : Binary64
  koreanAsk : Binary64
  koreanAskQty : Binary64
  usdtRate : Binary64
deriving DecidableEq

/-! ## The gate -/

/-- The two results of `calculate_relay_metrics` that the gate reads. -/
structure RelayMetrics where
  netProfitKrw : Binary64 := 0
  netEdgePct : Binary64 := 0
deriving DecidableEq

/-- `PremiumCalculator::calculate_relay_metrics` at its default fees (arbitrage_engine.hpp:786-839),
where the transfer costs nothing. -/
def calculateRelayMetrics (q : EntryQuotes) : RelayMetrics :=
  if q.koreanAsk ≤ 0 ∨ q.koreanAskQty ≤ 0 ∨ q.foreignBid ≤ 0 ∨ q.foreignBidQty ≤ 0 ∨
      q.usdtRate ≤ 0 then {}
  else
    let matchQty := min q.koreanAskQty q.foreignBidQty
    let targetCoinQty := literal TradingConfig.targetEntryUsdt / q.foreignBid
    let effectiveEntryQty := min matchQty targetCoinQty
    let matchBuyKrw := q.koreanAsk * effectiveEntryQty
    let matchSellUsdt := q.foreignBid * effectiveEntryQty
    let matchSellKrw := matchSellUsdt * q.usdtRate
    let koreanFeePerTradeKrw := matchBuyKrw * literal TradingConfig.bithumbFeeRate
    let foreignFeePerTradeKrw := matchSellKrw * literal TradingConfig.bybitFeeRate
    let bithumbTotalFeeKrw := koreanFeePerTradeKrw * literal TradingConfig.koreanFeeEvents
    let bybitTotalFeeKrw := foreignFeePerTradeKrw * literal TradingConfig.foreignFeeEvents
    let withdrawFeeKrw := 0 * q.koreanAsk
    let totalFeeKrw := bithumbTotalFeeKrw + bybitTotalFeeKrw + withdrawFeeKrw
    let netProfitKrw := matchSellKrw - matchBuyKrw - totalFeeKrw
    let netBasisKrw := matchBuyKrw + totalFeeKrw
    { netProfitKrw := netProfitKrw
      netEdgePct := if 0 < netBasisKrw then netProfitKrw / netBasisKrw * literal 100 else 0 }

/-- `min_executable_usd` (order_manager.cpp:458-466). -/
def minExecutableUsd (foreignBid koreanAsk : Binary64) : Binary64 :=
  if foreignBid ≤ 0 ∨ koreanAsk ≤ 0 then max (minOrderKrw / literal 1500) (literal 1)
  else max (minOrderKrw * (foreignBid / koreanAsk)) (literal 1)

/-- `next_order_usd` (order_manager.cpp:567-569). -/
def nextOrderUsd (positionSizeUsd totalForeignValue : Binary64) : Binary64 :=
  min orderSizeUsd (max 0 (positionSizeUsd - totalForeignValue))

/-- `next_order_coin_amount` where the entry branch is taken (order_manager.cpp:567-611). -/
def entryCoinAmount (positionSizeUsd totalForeignValue : Binary64) (q : EntryQuotes) :
    Option Binary64 :=
  let nextOrderUsd := nextOrderUsd positionSizeUsd totalForeignValue
  let koreanTopUsdt := if 0 < q.usdtRate then q.koreanAsk * q.koreanAskQty / q.usdtRate else 0
  let foreignTopUsdt := q.foreignBid * q.foreignBidQty
  let metrics := calculateRelayMetrics q
  if literal TradingConfig.minNetEdgePct < metrics.netEdgePct ∧
      literal TradingConfig.minEntryNetProfitKrw ≤ metrics.netProfitKrw ∧
      (0 < nextOrderUsd ∧ nextOrderUsd ≤ koreanTopUsdt) ∧
      (0 < nextOrderUsd ∧ nextOrderUsd ≤ foreignTopUsdt) ∧
      minExecutableUsd q.foreignBid q.koreanAsk ≤ nextOrderUsd then
    some (if 0 < q.foreignBid then nextOrderUsd / q.foreignBid else 0)
  else none

/-! ## The foreign client -/

/-- Lot-size filter of a symbol (`lot_size_cache_`). -/
structure LotSize where
  qtyStep : Binary64
  minQty : Binary64
  minNotional : Binary64
deriving DecidableEq

/-- The cached ticker prices that serve as price hints. -/
structure CachedTicker where
  bid : Binary64
  ask : Binary64
  last : Binary64
deriving DecidableEq

/-- The price that the minimum notional is checked with. -/
def orderPriceHint (ticker : Option CachedTicker) (isOpen : Bool) : Binary64 :=
  match ticker with
  | none => 0
  | some t =>
    if isOpen then (if 0 < t.bid then t.bid else t.last) else (if 0 < t.ask then t.ask else t.last)

/-- The whole lots of a quantity, `std::floor(qty / step + 1e-9) * step`. -/
def floorLots (l : LotSize) (qty : Binary64) : Binary64 :=
  if 0 < l.qtyStep then
    literal ⌊(qty / l.qtyStep + literal (1 / 1000000000)).val⌋ * l.qtyStep
  else qty

/-- `normalize_order_qty` of both foreign clients (bybit.cpp:586-627, okx.cpp:669-710). -/
def normalizeOrderQty (lot : Option LotSize) (ticker : Option CachedTicker) (qty : Binary64)
    (isOpen : Bool) : Binary64 :=
  if qty ≤ 0 then 0
  else
    match lot with
    | none => qty
    | some l =>
      let qty := floorLots l qty
      if qty < l.minQty then 0
      else
        let priceHint := orderPriceHint ticker isOpen
        if 0 < l.minNotional ∧ 0 < priceHint ∧ qty * priceHint < l.minNotional then 0 else qty

/-- How the foreign venue answers a short. -/
structure ShortReply where
  lot : Option LotSize := none
  ticker : Option CachedTicker := none
  marginReady : Bool := true
  /-- The order is acknowledged, and so assumed `Filled`. -/
  acknowledged : Bool := true
deriving DecidableEq

/-- `open_short` of the Bybit and OKX clients (bybit.cpp:446-511, okx.cpp:526-590). -/
def openShort (r : ShortReply) (quantity : Binary64) : Order :=
  let adjQty := normalizeOrderQty r.lot r.ticker quantity true
  if adjQty ≤ 0 then {}
  else if !r.marginReady then { quantity := adjQty }
  else { filled := r.acknowledged, quantity := adjQty }

/-! ## Iterations -/

/-- What an iteration of the entry loop depends on at its head. -/
structure EntryHead where
  totalForeignValue : Binary64
  running : Bool := true
deriving DecidableEq

/-- One iteration: the quotes when there are any, the answers to the short and to its rollback, and
`total_foreign_value` after whatever else the iteration books. -/
structure EntryRound where
  quotes : Option EntryQuotes
  reply : ShortReply := {}
  rollbackFilled : Bool := true
  bookedValue : Binary64 := 0
deriving DecidableEq

/-- A short that the entry branch submits, with the quotes it is priced at. -/
structure SizedShort where
  quotes : EntryQuotes
  coinAmount : Binary64
deriving DecidableEq

/-- The short of an iteration that takes the entry branch. -/
def submittedShort (positionSizeUsd : Binary64) (s : EntryHead) (x : EntryRound) :
    Option SizedShort :=
  if s.running then
    x.quotes.bind fun q =>
      (entryCoinAmount positionSizeUsd s.totalForeignValue q).map fun amount => ⟨q, amount⟩
  else none

/-- `krw_amount < MIN_ORDER_KRW` (order_manager.cpp:632-636). -/
def belowMinimum (short : Order) (q : EntryQuotes) : Bool :=
  decide (short.quantity * q.koreanAsk < minOrderKrw)

/-- The short that the guard rolls back. -/
def guardRollback (positionSizeUsd : Binary64) (s : EntryHead) (x : EntryRound) : Option Order :=
  (submittedShort positionSizeUsd s x).bind fun short =>
    let order := openShort x.reply short.coinAmount
    if order.filled && belowMinimum order short.quotes then some order else none

/-- The body of the loop: a rollback changes nothing unless it fails, and stops the bot then; a
short that is not `Filled` changes nothing either. -/
def entryStep (positionSizeUsd : Binary64) (s : EntryHead) (x : EntryRound) : EntryHead :=
  if s.running = false then s
  else
    match submittedShort positionSizeUsd s x with
    | none => { s with totalForeignValue := x.bookedValue }
    | some short =>
      let order := openShort x.reply short.coinAmount
      if order.filled = false then s
      else if belowMinimum order short.quotes then { s with running := x.rollbackFilled }
      else { s with totalForeignValue := x.bookedValue }

end Doubles

end SpotRelay.Model
