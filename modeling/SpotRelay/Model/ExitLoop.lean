import SpotRelay.Model.EntryLoop

/-!
# The exit loop

`OrderManager::execute_spot_relay_exit` (order_manager.cpp:1260-1898): closes a given position
in splits while the exit premium clears the dynamic threshold, and buys closed coins back
while the entry premium is not positive.  It is a second implementation of the splits of the
entry loop: the legs are the same, the exit branch books the cover on both of them.
-/

set_option autoImplicit false

namespace SpotRelay.Model

/-- What one call of the exit loop is configured with. -/
structure ExitCall where
  signal : ExitSignal
  position : Position
  engine : Bool := true
  hasPositionCallback : Bool := true
deriving DecidableEq

def ExitCall.venues (c : ExitCall) : Venues := ⟨c.signal.koreanExchange, c.signal.foreignExchange⟩

/-- The reasons of a critical stop of the exit loop. -/
inductive ExitStopReason
  | sellRetries
  | minOrderRollback
  | reentryCoverExcess
  | reentrySellExcess
  | reentryMismatch
  | buyRollback
deriving DecidableEq, Repr

def ExitStopReason.message : ExitStopReason → String
  | .sellRetries =>
    "[EXIT] Korean SELL failed after successful Bybit spot-margin cover; " ++
      "bot stopped for manual recovery"
  | .minOrderRollback =>
    "[ADAPTIVE-REENTRY] Bybit rollback failed after min-order guard (manual intervention required)"
  | .reentryCoverExcess =>
    "[ADAPTIVE-REENTRY] Failed to cover excess foreign short after Korean underfill"
  | .reentrySellExcess =>
    "[ADAPTIVE-REENTRY] Failed to sell excess Korean spot after foreign underfill"
  | .reentryMismatch => "[ADAPTIVE-REENTRY] Re-entry legs remain mismatched after delta hedge"
  | .buyRollback =>
    "[ADAPTIVE-REENTRY] Bybit rollback failed after Korean BUY rejection " ++
      "(manual intervention required)"

/-- The state of a call between two iterations; `remaining_amount` is the held amount of the
ledger. -/
structure ExitState where
  ledger : Ledger
  totalKoreanProceeds : ℚ := 0
  totalForeignCost : ℚ := 0
  totalExitedAmount : ℚ := 0
  lastUsdtRate : ℚ
  tracker : PositionTracker
  running : Bool := true
  entrySuppressed : Bool := false
  events : List Event := []
  result : Option ExecutionResult := none
deriving DecidableEq

/-- Append to the trace. -/
def ExitState.emit (s : ExitState) (es : List Event) : ExitState :=
  { s with events := s.events ++ es }

/-! ## Quotes and branch -/

/-- `usdt_rate` of an iteration. -/
def exitIterationRate (c : ExitCall) (m : MarketView) : ℚ :=
  if c.engine = true ∧ 0 < m.bithumbUsdt then m.bithumbUsdt else c.signal.usdtKrwRate

/-- The quotes of an iteration: the cached pair under the exit limits, or the signal's prices
when there is no engine (order_manager.cpp:1352-1374). -/
def exitQuotes (c : ExitCall) (m : MarketView) : Option Quotes :=
  let rate := exitIterationRate c m
  if c.engine = false then some ⟨0, c.signal.foreignAsk, 0, 0, c.signal.koreanBid, 0, rate⟩
  else if quotePairIsUsable m.nowMs m.korean m.foreign true = true then
    some ⟨m.foreign.bid, m.foreign.ask, m.foreign.bidQty, m.korean.ask, m.korean.bid,
      m.korean.askQty, rate⟩
  else none

/-- `entry_premium`: buy Korean (ask), short foreign (bid). -/
def reentryPremium (q : Quotes) : ℚ :=
  if 0 < q.foreignBid ∧ 0 < q.usdtRate ∧ 0 < q.koreanAsk then
    premiumPct q.koreanAsk q.foreignBid q.usdtRate
  else 0

/-- The coins of a re-entry split (order_manager.cpp:1612-1614).  Without an engine the bid is
0 and the source submits the quotient 0 / 0; no venue executes such an order, nor the empty
one that stands for it here. -/
def reentryCoinAmount (q : Quotes) (originalAmount remainingAmount : ℚ) : ℚ :=
  let maxReentryCoins := originalAmount - remainingAmount
  let reentryUsd := min TradingConfig.orderSizeUsd (maxReentryCoins * q.foreignBid)
  reentryUsd / q.foreignBid

/-- What an iteration with usable quotes does. -/
inductive ExitBranch
  | exit (coinAmount : ℚ)
  | reentry (coinAmount : ℚ)
  | wait
deriving DecidableEq, Repr

/-- The branch conditions of the loop (order_manager.cpp:1414, 1609). -/
def exitBranch (c : ExitCall) (q : Quotes) (l : Ledger) : ExitBranch :=
  if dynamicExitThreshold l c.position.entryPremium q.usdtRate ≤ exitPremium q then
    .exit (exitCoinAmount l.heldAmount q.foreignAsk)
  else if reentryPremium q ≤ TradingConfig.entryPremiumThreshold ∧
      l.heldAmount < c.position.foreignAmount then
    .reentry (reentryCoinAmount q c.position.foreignAmount l.heldAmount)
  else .wait

/-! ## Snapshots -/

/-- Every snapshot is the position of the call with new amounts, prices and P&L. -/
def exitSnapshot (c : ExitCall) (l : Ledger) (usdtRate : ℚ) : Position :=
  { c.position with
    entryPremium := l.effectiveEntryPm c.position.entryPremium usdtRate
    realizedPnlKrw := l.realizedPnlKrw }

/-- The snapshot of the remaining position; its activity flag is the one of the call's
position (order_manager.cpp:1538-1544, 1801-1808). -/
def remainingSnapshot (c : ExitCall) (l : Ledger) (usdtRate : ℚ) : Position :=
  { exitSnapshot c l usdtRate with
    koreanAmount := l.heldAmount
    foreignAmount := l.heldAmount
    koreanEntryPrice := l.totalKoreanCost / l.heldAmount
    foreignEntryPrice := l.totalForeignValue / l.heldAmount }

/-- The snapshot of a sale that failed five times (order_manager.cpp:1590-1598). -/
def exitRetriesMismatch (c : ExitCall) (l : Ledger) (usdtRate actualCovered : ℚ) : Position :=
  Position.flagActive
    { exitSnapshot c l usdtRate with
      koreanAmount := l.heldAmount
      foreignAmount := max 0 (l.heldAmount - actualCovered)
      koreanEntryPrice := l.avgKoreanEntry
      foreignEntryPrice := l.avgForeignEntry }

/-- The snapshot of a short that could not be rolled back (order_manager.cpp:1639-1648,
1821-1830). -/
def reentryRollbackMismatch (c : ExitCall) (l : Ledger) (usdtRate actualFilled shortPrice : ℚ) :
    Position :=
  let foreignAmount := l.heldAmount + actualFilled
  let foreignValue := l.totalForeignValue + actualFilled * shortPrice
  Position.flagActive
    { exitSnapshot c l usdtRate with
      koreanAmount := l.heldAmount
      foreignAmount := foreignAmount
      koreanEntryPrice := l.avgKoreanEntry
      foreignEntryPrice := if 0 < foreignAmount then foreignValue / foreignAmount else 0 }

/-- The snapshot of unequal re-entry legs (order_manager.cpp:1706-1718, 1733-1745,
1758-1770). -/
def reentryMismatch (c : ExitCall) (l : Ledger) (usdtRate : ℚ) (legs : LegFills)
    (realizedPnlKrw : ℚ) : Position :=
  let koreanAmount := l.heldAmount + legs.koreanQty
  let foreignAmount := l.heldAmount + legs.foreignQty
  Position.flagActive
    { exitSnapshot c l usdtRate with
      koreanAmount := koreanAmount
      foreignAmount := foreignAmount
      koreanEntryPrice :=
        if 0 < koreanAmount then
          (l.totalKoreanCost + legs.koreanQty * legs.koreanPrice) / koreanAmount
        else 0
      foreignEntryPrice :=
        if 0 < foreignAmount then
          (l.totalForeignValue + legs.foreignQty * legs.foreignPrice) / foreignAmount
        else 0
      realizedPnlKrw := realizedPnlKrw }

/-- A call of `on_position_update_`, when it is set. -/
def ExitState.report (c : ExitCall) (position : Option Position) (s : ExitState) : ExitState :=
  if c.hasPositionCallback then s.emit [.positionUpdate position] else s

/-- `trigger_critical_stop` with its `persist_snapshot` (order_manager.cpp:1318-1347). -/
def exitCriticalStop (c : ExitCall) (reason : ExitStopReason) (snap : Position) (s : ExitState) :
    ExitState :=
  let closed := s.tracker.closePosition snap.symbol
  let tracker :=
    if c.engine then (if snap.isActive then closed.openPosition snap else closed) else s.tracker
  let s :=
    { s with
      running := false
      entrySuppressed := c.engine || s.entrySuppressed
      tracker := tracker
      result := some
        { success := false
          positionManaged := true
          position := snap
          errorMessage := reason.message } }
  s.report c (if snap.isActive then some snap else none)

/-! ## The two trading branches -/

/-- The bookkeeping of a closed quantity (order_manager.cpp:1500-1519, 1560-1575). -/
def bookClosed (q : Quotes) (actualCovered : ℚ) (cover sale : Order) (s : ExitState) : ExitState :=
  let legs : LegFills :=
    { koreanQty := actualCovered
      foreignQty := actualCovered
      koreanPrice := resolvedFillPrice sale q.koreanBid
      foreignPrice := resolvedFillPrice cover q.foreignAsk }
  { s with
    ledger := s.ledger.closeSplit actualCovered (splitPnlKrw s.ledger legs q.usdtRate)
    totalKoreanProceeds := s.totalKoreanProceeds + actualCovered * legs.koreanPrice
    totalForeignCost := s.totalForeignCost + actualCovered * legs.foreignPrice
    totalExitedAmount := s.totalExitedAmount + actualCovered }

/-- The exit branch when the first sale was reported `Filled`.  The covered quantity is booked
on both legs; what the sale executed is not read (order_manager.cpp:1484-1549). -/
def afterExitSale (c : ExitCall) (q : Quotes) (cover sale : Order) (s : ExitState) : ExitState :=
  let actualCovered := if 0 < cover.filledQuantity then cover.filledQuantity else cover.quantity
  let s := bookClosed q actualCovered cover sale s
  if 0 < s.ledger.heldAmount then s.report c (some (remainingSnapshot c s.ledger q.usdtRate))
  else s.report c none

/-- The bookkeeping of a retried sale (order_manager.cpp:1550-1605). -/
def afterExitRetry (c : ExitCall) (q : Quotes) (cover sale : Order) (s : ExitState) : ExitState :=
  let actualCovered := resolvedFillQuantity cover
  let s := bookClosed q actualCovered cover sale s
  -- the retry's own fill query may have taken the status away from `Filled`
  if sale.status ≠ .filled then
    exitCriticalStop c .sellRetries (exitRetriesMismatch c s.ledger q.usdtRate actualCovered) s
  else s

/-- The exit branch after its orders (order_manager.cpp:1415-1607). -/
def afterExitClose (c : ExitCall) (q : Quotes) (legs : CloseLegs) (s : ExitState) : ExitState :=
  match legs with
  | .coverFailed => s
  | .sold cover sale => afterExitSale c q cover.order sale.order s
  | .retrySold cover sale => afterExitRetry c q cover.order sale.order s
  | .retriesFailed cover =>
    exitCriticalStop c .sellRetries
      (exitRetriesMismatch c s.ledger q.usdtRate (resolvedFillQuantity cover.order)) s

/-- The re-entry branch after its orders (order_manager.cpp:1609-1838). -/
def afterReentry (c : ExitCall) (q : Quotes) (outcome : OpenSplit) (s : ExitState) : ExitState :=
  let l := s.ledger
  match outcome with
  | .shortFailed | .minOrderRolledBack _ _ | .buyRolledBack _ _ => s
  | .minOrderRollbackFailed short =>
    exitCriticalStop c .minOrderRollback
      (reentryRollbackMismatch c l q.usdtRate short.order.quantity
        (resolvedFillPrice short.order q.foreignBid)) s
  | .buyRollbackFailed short =>
    exitCriticalStop c .buyRollback
      (reentryRollbackMismatch c l q.usdtRate (resolvedFillQuantity short.order)
        (resolvedFillPrice short.order q.foreignBid)) s
  | .correctionFailed .foreign legs =>
    exitCriticalStop c .reentryCoverExcess (reentryMismatch c l q.usdtRate legs l.realizedPnlKrw) s
  | .correctionFailed .korean legs =>
    exitCriticalStop c .reentrySellExcess (reentryMismatch c l q.usdtRate legs l.realizedPnlKrw) s
  | .mismatched legs correction =>
    let adjustment := entryAdjustmentPnlKrw legs q.usdtRate correction
    exitCriticalStop c .reentryMismatch
      (reentryMismatch c l q.usdtRate legs (l.realizedPnlKrw + adjustment)) s
  | .matched legs correction =>
    let ledger := l.addSplit legs (entryAdjustmentPnlKrw legs q.usdtRate correction)
    { s with ledger := ledger }.report c (some (remainingSnapshot c ledger q.usdtRate))

/-- One iteration after its quotes were read. -/
def exitTrade (c : ExitCall) (x : IterationInput) (q : Quotes) (s : ExitState) : ExitState :=
  match exitBranch c q s.ledger with
  | .exit coinAmount =>
    let legs := closeLegs c.venues x.replies coinAmount
    afterExitClose c q legs.1 (s.emit [.orders legs.2])
  | .reentry coinAmount =>
    let split := openSplit c.venues x.replies q coinAmount
    afterReentry c q split.1 (s.emit [.orders split.2])
  | .wait => s

/-- The body of the loop. -/
def exitIterate (c : ExitCall) (s : ExitState) (x : IterationInput) : ExitState :=
  let s := { s with lastUsdtRate := exitIterationRate c x.market }
  match exitQuotes c x.market with
  | none => s
  | some q => exitTrade c x q s

/-- The loop head: coins remain and `running_` is set. -/
def exitStep (c : ExitCall) (s : ExitState) (x : IterationInput) : ExitState :=
  if 0 < s.ledger.heldAmount ∧ s.running = true then exitIterate c s x else s

/-- A run of the loop over the iterations it gets to make. -/
def exitLoop (c : ExitCall) (s : ExitState) (xs : List IterationInput) : ExitState :=
  xs.foldl (exitStep c) s

/-! ## Loop entry and exit -/

/-- The state at the first loop head (order_manager.cpp:1302-1311). -/
def initialExitState (c : ExitCall) (tracker : PositionTracker) : ExitState where
  ledger :=
    { heldAmount := c.position.foreignAmount
      totalKoreanCost := c.position.koreanEntryPrice * c.position.koreanAmount
      totalForeignValue := c.position.foreignEntryPrice * c.position.foreignAmount
      realizedPnlKrw := 0 }
  lastUsdtRate := c.signal.usdtKrwRate
  tracker := tracker

/-- The early returns before the loop (order_manager.cpp:1260-1278). -/
def enterExitLoop (c : ExitCall) (exchangesAvailable : Bool) (tracker : PositionTracker) :
    Except ExecutionResult ExitState :=
  let refuse (message : String) : ExecutionResult :=
    { position := c.position, errorMessage := message }
  if !exchangesAvailable then .error (refuse "Exchange not available")
  else if !c.position.matched then
    .error (refuse "Position is mismatched; manual recovery required before exit")
  else .ok (initialExitState c tracker)

/-- The result of the call: what a critical stop returned, the remaining position after a
shutdown, or the exited position (order_manager.cpp:1868-1898). -/
def finishExit (c : ExitCall) (now : Timestamp) (s : ExitState) : ExecutionResult :=
  match s.result with
  | some result => result
  | none =>
    if 0 < s.ledger.heldAmount then
      { success := false
        position := { remainingSnapshot c s.ledger s.lastUsdtRate with isActive := true } }
    else
      { success := true
        position :=
          { c.position with
            exitTime := now
            exitPremium := c.signal.premium
            isActive := false
            realizedPnlKrw := s.ledger.realizedPnlKrw
            koreanExitPrice :=
              if 0 < s.totalExitedAmount then s.totalKoreanProceeds / s.totalExitedAmount
              else c.position.koreanExitPrice
            foreignExitPrice :=
              if 0 < s.totalExitedAmount then s.totalForeignCost / s.totalExitedAmount
              else c.position.foreignExitPrice } }

end SpotRelay.Model
