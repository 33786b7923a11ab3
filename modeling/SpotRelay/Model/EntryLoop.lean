import SpotRelay.Model.PositionTracker
import SpotRelay.Model.PriceCache
import SpotRelay.Model.Split

/-!
# The entry loop

`OrderManager::execute_spot_relay_entry` (order_manager.cpp:370-1258): the lifecycle loop of
one coin.  It opens splits while the net edge is positive, closes splits when the exit
premium clears the dynamic threshold, and starts over after a full exit.

The loop state carries the totals of the source together with what the call has done to the
outside: the orders it sent, the engine's tracker, and the callbacks it fired.
-/

set_option autoImplicit false

namespace SpotRelay.Model

/-- What one call of the entry loop is configured with. -/
structure Call where
  signal : ArbitrageSignal
  positionSizeUsd : ℚ := TradingConfig.positionSizeUsd
  /-- `engine_` is set: prices come from its cache and its tracker is kept up to date. -/
  engine : Bool := true
  /-- `on_position_update_` and `on_trade_complete_` are set. -/
  hasPositionCallback : Bool := true
  hasTradeCallback : Bool := true
deriving DecidableEq

def Call.venues (c : Call) : Venues := ⟨c.signal.koreanExchange, c.signal.foreignExchange⟩

/-- What the loop reads from the engine's price cache at the head of an iteration. -/
structure MarketView where
  nowMs : UInt64 := 0
  foreign : PriceData := {}
  korean : PriceData := {}
  bithumbUsdt : ℚ := 0
deriving DecidableEq

/-- The reads at the head of an iteration (order_manager.cpp:512-513, 542). -/
def Call.marketView (c : Call) (cache : PriceCache) (nowMs : UInt64) : MarketView where
  nowMs := nowMs
  foreign := cache.getPrice c.signal.foreignExchange c.signal.symbol.foreign
  korean := cache.getPrice c.signal.koreanExchange c.signal.symbol
  bithumbUsdt := cache.getUsdtKrw .bithumb

/-- Everything one iteration receives from the outside. -/
structure IterationInput where
  market : MarketView := {}
  /-- The wall clock at a full exit. -/
  now : Timestamp := 0
  replies : SplitReplies := {}

/-! ## Ledger -/

/-- The running totals of the loop. -/
structure Ledger where
  heldAmount : ℚ := 0
  totalKoreanCost : ℚ := 0
  totalForeignValue : ℚ := 0
  realizedPnlKrw : ℚ := 0
deriving DecidableEq, Repr

namespace Ledger

/-- `avg_korean_entry`, 0 when nothing is held. -/
def avgKoreanEntry (l : Ledger) : ℚ :=
  if 0 < l.heldAmount then l.totalKoreanCost / l.heldAmount else 0

/-- `avg_foreign_entry`, 0 when nothing is held. -/
def avgForeignEntry (l : Ledger) : ℚ :=
  if 0 < l.heldAmount then l.totalForeignValue / l.heldAmount else 0

/-- The totals at loop entry (order_manager.cpp:422-428). -/
def ofInitial : Option Position → Ledger
  | none => {}
  | some p =>
    { heldAmount := p.koreanAmount
      totalKoreanCost := p.koreanEntryPrice * p.koreanAmount
      totalForeignValue := p.foreignEntryPrice * p.foreignAmount
      realizedPnlKrw := p.realizedPnlKrw }

/-- `calculate_effective_entry_pm`. -/
def effectiveEntryPm (l : Ledger) (fallback usdtRate : ℚ) : ℚ :=
  if l.heldAmount ≤ 0 ∨ l.totalForeignValue ≤ 0 ∨ usdtRate ≤ 0 then fallback
  else
    let avgForeignEntry := l.totalForeignValue / l.heldAmount
    if avgForeignEntry * usdtRate ≤ 0 then fallback
    else premiumPct (l.totalKoreanCost / l.heldAmount) avgForeignEntry usdtRate

/-- Booking of a matched entry split (order_manager.cpp:821-829). -/
def addSplit (l : Ledger) (legs : LegFills) (adjustmentPnlKrw : ℚ) : Ledger :=
  let actualFilled := min legs.foreignQty legs.koreanQty
  { heldAmount := l.heldAmount + actualFilled
    totalKoreanCost := l.totalKoreanCost + actualFilled * legs.koreanPrice
    totalForeignValue := l.totalForeignValue + actualFilled * legs.foreignPrice
    realizedPnlKrw := l.realizedPnlKrw + adjustmentPnlKrw }

/-- Booking of a closed quantity: the costs shrink in proportion
(order_manager.cpp:1084-1092, 1186-1192). -/
def closeSplit (l : Ledger) (actualCovered splitPnlKrw : ℚ) : Ledger :=
  let exitRatio := if 0 < l.heldAmount then actualCovered / l.heldAmount else 1
  { heldAmount := l.heldAmount - actualCovered
    totalKoreanCost := l.totalKoreanCost * (1 - exitRatio)
    totalForeignValue := l.totalForeignValue * (1 - exitRatio)
    realizedPnlKrw := l.realizedPnlKrw + splitPnlKrw }

/-- The reset after a full exit; `held_amount` stays as it is (order_manager.cpp:1155-1158). -/
def resetCycle (l : Ledger) : Ledger :=
  { l with totalKoreanCost := 0, totalForeignValue := 0, realizedPnlKrw := 0 }

end Ledger

/-! ## Split P&L -/

/-- `entry_adjustment_pnl_krw`: a correction of an opening split is booked against the
split's own prices (order_manager.cpp:745, 782). -/
def entryAdjustmentPnlKrw (legs : LegFills) (usdtRate : ℚ) : Option Correction → ℚ
  | none => 0
  | some ⟨.foreign, qty, price⟩ => (legs.foreignPrice - price) * qty * usdtRate
  | some ⟨.korean, qty, price⟩ => (price - legs.koreanPrice) * qty

/-- `split_pnl_krw` of two closed legs (order_manager.cpp:989-991). -/
def splitPnlKrw (l : Ledger) (legs : LegFills) (usdtRate : ℚ) : ℚ :=
  (legs.koreanPrice - l.avgKoreanEntry) * legs.koreanQty
    + (l.avgForeignEntry - legs.foreignPrice) * legs.foreignQty * usdtRate

/-- What a correction of a closing split adds to `split_pnl_krw`
(order_manager.cpp:1023, 1049). -/
def exitAdjustmentPnlKrw (l : Ledger) (usdtRate : ℚ) : Option Correction → ℚ
  | none => 0
  | some ⟨.korean, qty, price⟩ => (price - l.avgKoreanEntry) * qty
  | some ⟨.foreign, qty, price⟩ => (l.avgForeignEntry - price) * qty * usdtRate

/-! ## State -/

/-- The reasons of a critical stop. -/
inductive StopReason
  | minOrderRollback
  | entryCoverExcess
  | entrySellExcess
  | entryMismatch
  | buyRollback
  | exitSellExcess
  | exitCoverExcess
  | exitMismatch
  | sellRetries
deriving DecidableEq, Repr

/-- The error messages of the critical stops. -/
def StopReason.message : StopReason → String
  | .minOrderRollback =>
    "[RELAY-ENTRY] Bybit rollback failed after min-order guard (manual intervention required)"
  | .entryCoverExcess =>
    "[RELAY-ENTRY] Failed to cover excess foreign short after Korean underfill"
  | .entrySellExcess =>
    "[RELAY-ENTRY] Failed to sell excess Korean spot after foreign underfill"
  | .entryMismatch => "[RELAY-ENTRY] Entry legs remain mismatched after delta hedge"
  | .buyRollback =>
    "[RELAY-ENTRY] Bybit rollback failed after Korean BUY rejection (manual intervention required)"
  | .exitSellExcess =>
    "[ADAPTIVE-EXIT] Failed to liquidate excess Korean spot after foreign over-cover"
  | .exitCoverExcess =>
    "[ADAPTIVE-EXIT] Failed to cover excess foreign short after Korean over-sell"
  | .exitMismatch => "[ADAPTIVE-EXIT] Exit legs remain mismatched after delta hedge"
  | .sellRetries =>
    "[ADAPTIVE-EXIT] Korean SELL failed after successful Bybit spot-margin cover; " ++
      "bot stopped for manual recovery"

/-- `ExecutionResult` (order_manager.hpp:24-31). -/
structure ExecutionResult where
  success : Bool := false
  positionManaged : Bool := false
  position : Position
  errorMessage : String := ""
  koreanFilledAmount : ℚ := 0
  foreignFilledAmount : ℚ := 0
deriving DecidableEq

/-- What the loop does to the outside. -/
inductive Event
  /-- The orders of one split (ghost). -/
  | orders (fills : List Fill)
  /-- `on_position_update_`, called with a position or `nullptr`. -/
  | positionUpdate (position : Option Position)
  /-- `on_trade_complete_`. -/
  | tradeComplete (position : Position) (realizedPnlKrw usdtRate : ℚ)
  /-- The totals were reset for the next cycle (ghost). -/
  | cycleReset
deriving DecidableEq

/-- The state of a call between two iterations. -/
structure LoopState where
  ledger : Ledger
  lastUsdtRate : ℚ
  /-- `result.position.entry_time` and `result.position.entry_premium`. -/
  entryTime : Timestamp
  entryPremium : ℚ
  koreanFilledAmount : ℚ := 0
  foreignFilledAmount : ℚ := 0
  /-- The engine's position tracker. -/
  tracker : PositionTracker
  /-- `running_`. -/
  running : Bool := true
  entrySuppressed : Bool := false
  events : List Event := []
  /-- The result of a call that returned from inside the loop. -/
  result : Option ExecutionResult := none
deriving DecidableEq

/-- Append to the trace. -/
def LoopState.emit (s : LoopState) (es : List Event) : LoopState :=
  { s with events := s.events ++ es }

/-! ## Quotes and branch -/

/-- `usdt_rate` of an iteration: Bithumb's USDT price, else the signal's rate. -/
def iterationRate (c : Call) (m : MarketView) : ℚ :=
  if c.engine = true ∧ 0 < m.bithumbUsdt then m.bithumbUsdt else c.signal.usdtKrwRate

/-- The quotes of an iteration, `none` when `quote_pair_ok` stays false
(order_manager.cpp:502-541).  While coins are held any priced pair will do. -/
def iterationQuotes (c : Call) (m : MarketView) (heldAmount : ℚ) : Option Quotes :=
  let rate := iterationRate c m
  if c.engine = false then
    some ⟨c.signal.foreignBid, 0, c.signal.foreignBidQty, c.signal.koreanAsk, 0,
      c.signal.koreanAskQty, rate⟩
  else
    let hasPrices := 0 < m.foreign.bid ∧ 0 < m.korean.ask
    let cached : Quotes :=
      ⟨m.foreign.bid, m.foreign.ask, m.foreign.bidQty, m.korean.ask, m.korean.bid,
        m.korean.askQty, rate⟩
    if 0 < heldAmount then (if hasPrices then some cached else none)
    else if hasPrices ∧ quotePairIsUsable m.nowMs m.korean m.foreign false = true then some cached
    else none

/-- `min_executable_usd`. -/
def minExecutableUsd (foreignBid koreanAsk : ℚ) : ℚ :=
  if foreignBid ≤ 0 ∨ koreanAsk ≤ 0 then max (TradingConfig.minOrderKrw / 1500) 1
  else max (TradingConfig.minOrderKrw * (foreignBid / koreanAsk)) 1

/-- `exit_premium`: sell Korean (bid), cover foreign (ask). -/
def exitPremium (q : Quotes) : ℚ :=
  if 0 < q.foreignAsk ∧ 0 < q.usdtRate ∧ 0 < q.koreanBid then
    premiumPct q.koreanBid q.foreignAsk q.usdtRate
  else 0

/-- `dynamic_exit_threshold` over the floor `EXIT_PREMIUM_THRESHOLD`. -/
def dynamicExitThreshold (l : Ledger) (fallback usdtRate : ℚ) : ℚ :=
  if 0 < l.heldAmount ∧ 0 < l.totalForeignValue ∧ 0 < usdtRate then
    max (l.effectiveEntryPm fallback usdtRate + TradingConfig.dynamicExitSpread)
      TradingConfig.exitPremiumThreshold
  else TradingConfig.exitPremiumThreshold

/-- `exit_coin_amount`: everything below 50 USD, else one order size
(order_manager.cpp:905-913). -/
def exitCoinAmount (heldAmount foreignAsk : ℚ) : ℚ :=
  if heldAmount * foreignAsk < 50 then heldAmount
  else min (TradingConfig.orderSizeUsd / foreignAsk) heldAmount

/-- What an iteration with usable quotes does. -/
inductive Branch
  | entry (coinAmount : ℚ)
  | exit (coinAmount : ℚ)
  | wait
deriving DecidableEq, Repr

/-- The branch conditions of the loop (order_manager.cpp:553-611, 902). -/
def branch (c : Call) (q : Quotes) (l : Ledger) : Branch :=
  let nextOrderUsd :=
    min TradingConfig.orderSizeUsd (max 0 (c.positionSizeUsd - l.totalForeignValue))
  let koreanTopUsdt := if 0 < q.usdtRate then q.koreanAsk * q.koreanAskQty / q.usdtRate else 0
  let foreignTopUsdt := q.foreignBid * q.foreignBidQty
  let metrics :=
    calculateRelayMetrics q.koreanAsk q.koreanAskQty q.foreignBid q.foreignBidQty q.usdtRate
  if TradingConfig.minNetEdgePct < metrics.netEdgePct ∧
      TradingConfig.minEntryNetProfitKrw ≤ metrics.netProfitKrw ∧
      (0 < nextOrderUsd ∧ nextOrderUsd ≤ koreanTopUsdt) ∧
      (0 < nextOrderUsd ∧ nextOrderUsd ≤ foreignTopUsdt) ∧
      minExecutableUsd q.foreignBid q.koreanAsk ≤ nextOrderUsd then
    .entry (if 0 < q.foreignBid then nextOrderUsd / q.foreignBid else 0)
  else if dynamicExitThreshold l c.signal.premium q.usdtRate ≤ exitPremium q ∧
      0 < l.heldAmount then
    .exit (exitCoinAmount l.heldAmount q.foreignAsk)
  else .wait

/-! ## Snapshots -/

/-- The fields every snapshot of the loop shares. -/
def snapshotBase (c : Call) (s : LoopState) : Position where
  symbol := c.signal.symbol
  koreanExchange := c.signal.koreanExchange
  foreignExchange := c.signal.foreignExchange
  entryTime := s.entryTime
  entryPremium := s.entryPremium
  positionSizeUsd := c.positionSizeUsd

/-- `is_active = korean_amount > 0 || foreign_amount > 0`. -/
def Position.flagActive (p : Position) : Position :=
  { p with isActive := decide (0 < p.koreanAmount ∨ 0 < p.foreignAmount) }

/-- The snapshot of a held position (order_manager.cpp:852-865, 1108-1122). -/
def heldSnapshot (c : Call) (s : LoopState) (usdtRate : ℚ) : Position :=
  { snapshotBase c s with
    entryPremium := s.ledger.effectiveEntryPm c.signal.premium usdtRate
    koreanAmount := s.ledger.heldAmount
    foreignAmount := s.ledger.heldAmount
    koreanEntryPrice := s.ledger.avgKoreanEntry
    foreignEntryPrice := s.ledger.avgForeignEntry
    realizedPnlKrw := s.ledger.realizedPnlKrw
    isActive := true }

/-- The snapshot of a short that could not be rolled back (order_manager.cpp:640-657, 872-889). -/
def rollbackMismatch (c : Call) (s : LoopState) (actualFilled shortPrice : ℚ) : Position :=
  let l := s.ledger
  let foreignAmount := l.heldAmount + actualFilled
  let foreignValue := l.totalForeignValue + actualFilled * shortPrice
  Position.flagActive
    { snapshotBase c s with
      koreanAmount := l.heldAmount
      foreignAmount := foreignAmount
      koreanEntryPrice := l.avgKoreanEntry
      foreignEntryPrice := if 0 < foreignAmount then foreignValue / foreignAmount else 0
      realizedPnlKrw := l.realizedPnlKrw }

/-- The snapshot of unequal entry legs (order_manager.cpp:722-739, 756-773, 788-805). -/
def entryMismatch (c : Call) (s : LoopState) (legs : LegFills) (realizedPnlKrw : ℚ) : Position :=
  let l := s.ledger
  let koreanAmount := l.heldAmount + legs.koreanQty
  let foreignAmount := l.heldAmount + legs.foreignQty
  Position.flagActive
    { snapshotBase c s with
      koreanAmount := koreanAmount
      foreignAmount := foreignAmount
      koreanEntryPrice :=
        if 0 < koreanAmount then
          (l.totalKoreanCost + legs.koreanQty * legs.koreanPrice) / koreanAmount
        else 0
      foreignEntryPrice :=
        if 0 < foreignAmount then
          (l.totalForeignValue + legs.foreignQty * legs.foreignPrice) / foreignAmount
        else 0
      realizedPnlKrw := realizedPnlKrw }

/-- The snapshot of unequal exit legs (order_manager.cpp:998-1011, 1029-1042, 1055-1068). -/
def exitMismatch (c : Call) (s : LoopState) (legs : LegFills) (realizedPnlKrw : ℚ) : Position :=
  let l := s.ledger
  Position.flagActive
    { snapshotBase c s with
      koreanAmount := max 0 (l.heldAmount - legs.koreanQty)
      foreignAmount := max 0 (l.heldAmount - legs.foreignQty)
      koreanEntryPrice := l.avgKoreanEntry
      foreignEntryPrice := l.avgForeignEntry
      realizedPnlKrw := realizedPnlKrw }

/-- The snapshot of a sale that failed five times (order_manager.cpp:1203-1216). -/
def retriesMismatch (c : Call) (s : LoopState) (actualCovered : ℚ) : Position :=
  let l := s.ledger
  Position.flagActive
    { snapshotBase c s with
      koreanAmount := l.heldAmount
      foreignAmount := max 0 (l.heldAmount - actualCovered)
      koreanEntryPrice := l.avgKoreanEntry
      foreignEntryPrice := l.avgForeignEntry
      realizedPnlKrw := l.realizedPnlKrw }

/-- A call of `on_position_update_`, when it is set. -/
def reportPosition (c : Call) (position : Option Position) : List Event :=
  if c.hasPositionCallback then [.positionUpdate position] else []

/-- `persist_snapshot` (order_manager.cpp:468-485). -/
def persistSnapshot (c : Call) (snap : Position) (s : LoopState) : LoopState :=
  let closed := s.tracker.closePosition snap.symbol
  let tracker :=
    if c.engine then (if snap.isActive then closed.openPosition snap else closed) else s.tracker
  let report := reportPosition c (if snap.isActive then some snap else none)
  { s with tracker := tracker, events := s.events ++ report }

/-- `trigger_critical_stop` (order_manager.cpp:487-498). -/
def triggerCriticalStop (c : Call) (reason : StopReason) (snap : Position) (s : LoopState) :
    LoopState :=
  let s := { s with running := false, entrySuppressed := c.engine || s.entrySuppressed }
  let s := persistSnapshot c snap s
  { s with
    result := some
      { position := snap
        success := false
        positionManaged := true
        errorMessage := reason.message
        koreanFilledAmount := s.koreanFilledAmount
        foreignFilledAmount := s.foreignFilledAmount } }

/-! ## The two trading branches -/

/-- The bookkeeping of an entry split that ended with matched legs
(order_manager.cpp:820-865). -/
def bookEntry (c : Call) (q : Quotes) (legs : LegFills) (correction : Option Correction)
    (s : LoopState) : LoopState :=
  let adjustment := entryAdjustmentPnlKrw legs q.usdtRate correction
  let s :=
    { s with
      ledger := s.ledger.addSplit legs adjustment
      koreanFilledAmount := min legs.foreignQty legs.koreanQty
      foreignFilledAmount := min legs.foreignQty legs.koreanQty }
  persistSnapshot c (heldSnapshot c s q.usdtRate) s

/-- The entry branch after its orders (order_manager.cpp:611-899). -/
def afterOpen (c : Call) (q : Quotes) (outcome : OpenSplit) (s : LoopState) : LoopState :=
  match outcome with
  | .shortFailed | .minOrderRolledBack _ _ | .buyRolledBack _ _ => s
  | .minOrderRollbackFailed short =>
    triggerCriticalStop c .minOrderRollback
      (rollbackMismatch c s short.order.quantity (resolvedFillPrice short.order q.foreignBid)) s
  | .buyRollbackFailed short =>
    triggerCriticalStop c .buyRollback
      (rollbackMismatch c s (resolvedFillQuantity short.order)
        (resolvedFillPrice short.order q.foreignBid)) s
  | .correctionFailed .foreign legs =>
    triggerCriticalStop c .entryCoverExcess (entryMismatch c s legs s.ledger.realizedPnlKrw) s
  | .correctionFailed .korean legs =>
    triggerCriticalStop c .entrySellExcess (entryMismatch c s legs s.ledger.realizedPnlKrw) s
  | .mismatched legs correction =>
    let adjustment := entryAdjustmentPnlKrw legs q.usdtRate correction
    triggerCriticalStop c .entryMismatch
      (entryMismatch c s legs (s.ledger.realizedPnlKrw + adjustment)) s
  | .matched legs correction => bookEntry c q legs correction s

/-- The end of a cycle: tracker, `on_trade_complete_`, reset (order_manager.cpp:1128-1161). -/
def completeCycle (c : Call) (x : IterationInput) (q : Quotes) (s : LoopState) : LoopState :=
  let completed : Position :=
    { symbol := c.signal.symbol
      koreanExchange := c.signal.koreanExchange
      foreignExchange := c.signal.foreignExchange
      entryTime := s.entryTime
      exitTime := x.now
      entryPremium := s.entryPremium
      exitPremium := exitPremium q
      positionSizeUsd := c.positionSizeUsd
      realizedPnlKrw := s.ledger.realizedPnlKrw
      isActive := false }
  let complete : List Event :=
    if c.hasTradeCallback then
      [.tradeComplete completed s.ledger.realizedPnlKrw q.usdtRate]
    else []
  { s with
    tracker := if c.engine then s.tracker.closePosition c.signal.symbol else s.tracker
    ledger := s.ledger.resetCycle
    entryTime := x.now
    entryPremium := 0
    events := s.events ++ (complete ++ [.cycleReset]) }

/-- The bookkeeping of an exit split that ended with matched legs
(order_manager.cpp:1083-1161).  The tracker is only touched by a full exit. -/
def bookExit (c : Call) (x : IterationInput) (q : Quotes) (legs : LegFills) (splitPnl : ℚ)
    (s : LoopState) : LoopState :=
  let s := { s with ledger := s.ledger.closeSplit (min legs.foreignQty legs.koreanQty) splitPnl }
  if 0 < s.ledger.heldAmount then
    s.emit (reportPosition c (some (heldSnapshot c s q.usdtRate)))
  else completeCycle c x q (s.emit (reportPosition c none))

/-- The exit branch when the first sale was reported `Filled` (order_manager.cpp:973-1161). -/
def afterSale (c : Call) (x : IterationInput) (q : Quotes) (legs : LegFills) (hedge : Hedge)
    (s : LoopState) : LoopState :=
  let splitPnl := splitPnlKrw s.ledger legs q.usdtRate
  match hedge with
  | .failed .korean =>
    triggerCriticalStop c .exitSellExcess (exitMismatch c s legs s.ledger.realizedPnlKrw) s
  | .failed .foreign =>
    triggerCriticalStop c .exitCoverExcess (exitMismatch c s legs s.ledger.realizedPnlKrw) s
  | .done hedged correction =>
    let splitPnl := splitPnl + exitAdjustmentPnlKrw s.ledger q.usdtRate correction
    if quantitiesMatch hedged.foreignQty hedged.koreanQty then bookExit c x q hedged splitPnl s
    else
      triggerCriticalStop c .exitMismatch
        (exitMismatch c s hedged (s.ledger.realizedPnlKrw + splitPnl)) s

/-- The bookkeeping of a retried sale: the covered quantity is booked on both legs, and
neither the tracker nor a callback is told (order_manager.cpp:1176-1222). -/
def afterRetry (c : Call) (q : Quotes) (cover sale : Order) (s : LoopState) : LoopState :=
  let actualCovered := resolvedFillQuantity cover
  let legs : LegFills :=
    { koreanQty := actualCovered
      foreignQty := actualCovered
      koreanPrice := resolvedFillPrice sale q.koreanBid
      foreignPrice := resolvedFillPrice cover q.foreignAsk }
  let s :=
    { s with
      ledger := s.ledger.closeSplit actualCovered (splitPnlKrw s.ledger legs q.usdtRate) }
  -- the retry's own fill query may have taken the status away from `Filled`
  if sale.status ≠ .filled then
    triggerCriticalStop c .sellRetries (retriesMismatch c s actualCovered) s
  else s

/-- The exit branch, for the legs it sent and every order behind them
(order_manager.cpp:902-1222). -/
def afterClose (c : Call) (x : IterationInput) (q : Quotes) (legs : CloseLegs × List Fill)
    (s : LoopState) : LoopState :=
  match legs.1 with
  | .coverFailed => s.emit [.orders legs.2]
  | .sold cover sale =>
    let closed := closeFills q cover.order sale.order
    let hedge := hedgeClose c.venues x.replies q closed
    afterSale c x q closed hedge.1 (s.emit [.orders (legs.2 ++ hedge.2)])
  | .retrySold cover sale => afterRetry c q cover.order sale.order (s.emit [.orders legs.2])
  | .retriesFailed cover =>
    let s := s.emit [.orders legs.2]
    triggerCriticalStop c .sellRetries (retriesMismatch c s (resolvedFillQuantity cover.order)) s

/-- One iteration after its quotes were read. -/
def trade (c : Call) (x : IterationInput) (q : Quotes) (s : LoopState) : LoopState :=
  match branch c q s.ledger with
  | .entry coinAmount =>
    let split := openSplit c.venues x.replies q coinAmount
    afterOpen c q split.1 (s.emit [.orders split.2])
  | .exit coinAmount => afterClose c x q (closeLegs c.venues x.replies coinAmount) s
  | .wait => s

/-- The body of the loop. -/
def iterate (c : Call) (s : LoopState) (x : IterationInput) : LoopState :=
  let s := { s with lastUsdtRate := iterationRate c x.market }
  match iterationQuotes c x.market s.ledger.heldAmount with
  | none => s
  | some q => trade c x q s

/-- The loop head: `running_` is read before every iteration. -/
def loopStep (c : Call) (s : LoopState) (x : IterationInput) : LoopState :=
  if s.running then iterate c s x else s

/-- A run of the loop over the iterations it gets to make. -/
def entryLoop (c : Call) (s : LoopState) (xs : List IterationInput) : LoopState :=
  xs.foldl (loopStep c) s

/-! ## Loop entry and exit -/

/-- The state at the first loop head (order_manager.cpp:373-382, 422-429). -/
def initialState (c : Call) (initial : Option Position) (now : Timestamp)
    (tracker : PositionTracker) : LoopState where
  ledger := Ledger.ofInitial initial
  lastUsdtRate := c.signal.usdtKrwRate
  entryTime := (initial.map Position.entryTime).getD now
  entryPremium := (initial.map Position.entryPremium).getD c.signal.premium
  tracker := tracker

/-- A position whose two amounts agree within the hedge tolerance. -/
def Position.matched (p : Position) : Bool := quantitiesMatch p.koreanAmount p.foreignAmount

/-- The early returns before the loop (order_manager.cpp:388-437). -/
def enterLoop (c : Call) (exchangesAvailable safeToTrade : Bool) (initial : Option Position)
    (now : Timestamp) (tracker : PositionTracker) : Except ExecutionResult LoopState :=
  let s := initialState c initial now tracker
  let refuse (message : String) : ExecutionResult :=
    { position := snapshotBase c s, errorMessage := message }
  if !exchangesAvailable then .error (refuse "Exchange not available")
  else if !safeToTrade then
    .error (refuse "Existing position detected - skipping to prevent hedge break")
  else if initial.any fun p => !p.matched then
    .error (refuse "Initial position is already mismatched; manual recovery required")
  else .ok s

/-- The result of the call: what a critical stop returned, or the shutdown epilogue
(order_manager.cpp:1238-1257). -/
def finish (c : Call) (s : LoopState) : ExecutionResult :=
  match s.result with
  | some result => result
  | none =>
    let base := snapshotBase c s
    if 0 < s.ledger.heldAmount then
      { success := true
        positionManaged := true
        position := heldSnapshot c s s.lastUsdtRate
        koreanFilledAmount := s.koreanFilledAmount
        foreignFilledAmount := s.foreignFilledAmount }
    else
      { success := false
        positionManaged := true
        position := { base with isActive := false }
        koreanFilledAmount := s.koreanFilledAmount
        foreignFilledAmount := s.foreignFilledAmount }

end SpotRelay.Model
