import SpotRelay.Model.Doubles
import SpotRelay.Model.ExitLoop

/-!
# The exit loop in doubles

`OrderManager::execute_spot_relay_exit` (order_manager.cpp:1260-1898) once more, in the `double`
arithmetic of the source: every operation rounds its result, and every `/` of the body is a
division that fails on a zero divisor.  A path that divides by zero has no result here, where the
functions of the exit loop follow it with the quotient 0.

* **numbers** are those of the `binary64` format.  Infinities are left out, as are the values they
  come from.
* **the clients** are arbitrary: what they return for an order of a given size comes with the
  iteration, and so does what a fill query writes into it.
* **the engine** is what the loop reads of it: two cache entries, which may be anything in every
  iteration, and the Bithumb rate, which `on_usdt_update` writes.

The texts of the critical stops are those of `ExitStopReason`; the tracker, the log files and the
latency records have no part in the arithmetic.
-/

set_option autoImplicit false

namespace SpotRelay.Model

open SpotRelay.Library.BinaryFloat.BinaryFormat

namespace Doubles

/-! ## Data -/

/-- The doubles of a position (types.hpp:212-236). -/
structure Position where
  koreanAmount : Binary64 := 0
  foreignAmount : Binary64 := 0
  koreanEntryPrice : Binary64 := 0
  foreignEntryPrice : Binary64 := 0
  entryPremium : Binary64 := 0
  koreanExitPrice : Binary64 := 0
  foreignExitPrice : Binary64 := 0
  exitPremium : Binary64 := 0
  realizedPnlKrw : Binary64 := 0
  isActive : Bool := false
deriving DecidableEq

/-- `is_active` of a snapshot of two legs. -/
def Position.flagActive (p : Position) : Position :=
  { p with isActive := decide (0 < p.koreanAmount) || decide (0 < p.foreignAmount) }

/-- The doubles of an exit signal. -/
structure ExitSignal where
  foreignAsk : Binary64
  koreanBid : Binary64
  usdtKrwRate : Binary64
  premium : Binary64 := 0
deriving DecidableEq

/-- The quotes of one iteration, `current_*` and `usdt_rate` in the source. -/
structure Quotes where
  foreignBid : Binary64
  foreignAsk : Binary64
  koreanAsk : Binary64
  koreanBid : Binary64
  usdtRate : Binary64
deriving DecidableEq

/-- One entry of the price cache, as far as the loop reads it. -/
structure PriceData where
  bid : Binary64 := 0
  ask : Binary64 := 0
  timestamp : UInt64 := 0
  valid : Bool := false
deriving DecidableEq

/-- The ledger of the loop; `heldAmount` is its `remaining_amount`. -/
structure Ledger where
  heldAmount : Binary64
  totalKoreanCost : Binary64
  totalForeignValue : Binary64
  realizedPnlKrw : Binary64 := 0
deriving DecidableEq

/-- What the fill query of a foreign order leaves in it. -/
structure FillReport where
  filledQuantity : Binary64 := 0
  averagePrice : Binary64 := 0
deriving DecidableEq

/-- An order after its fill query. -/
def Order.queried (order : Order) (report : FillReport) : Order :=
  { order with filledQuantity := report.filledQuantity, averagePrice := report.averagePrice }

/-- A retried sale: whether its submission was accepted, and the order after its fill query. -/
structure Retry where
  accepted : Bool := false
  order : Order := {}

/-- What the clients return in one iteration, for an order of a given size.  A correction is
`none` where its `flatten_*` function returns `false`. -/
structure Replies where
  cover : Binary64 → Order := fun _ => {}
  coverReport : FillReport := {}
  sale : Binary64 → Order := fun _ => {}
  retries : Fin 5 → Binary64 → Retry := fun _ _ => {}
  short : Binary64 → Order := fun _ => {}
  shortReport : FillReport := {}
  rollback : Binary64 → Order := fun _ => {}
  buy : Binary64 → Order := fun _ => {}
  coverDelta : Binary64 → Option Order := fun _ => none
  sellDelta : Binary64 → Option Order := fun _ => none

/-- What one call of the exit loop is configured with. -/
structure ExitCall where
  signal : ExitSignal
  position : Position
  engine : Bool := true
  hasPositionCallback : Bool := true
deriving DecidableEq

/-- One iteration: the USDT prices that the engine was given for Bithumb before it, the two cache
entries and the clock at its quote check, and what the clients return. -/
structure ExitRound where
  usdtTicks : List Binary64 := []
  nowMs : UInt64 := 0
  foreign : PriceData := {}
  korean : PriceData := {}
  replies : Replies := {}

/-- The result of a call. -/
structure ExecutionResult where
  success : Bool := false
  positionManaged : Bool := false
  position : Position
  errorMessage : String := ""
deriving DecidableEq

/-- The state of a call between two iterations. -/
structure ExitState where
  ledger : Ledger
  totalKoreanProceeds : Binary64 := 0
  totalForeignCost : Binary64 := 0
  totalExitedAmount : Binary64 := 0
  lastUsdtRate : Binary64
  running : Bool := true
  /-- The calls of `on_position_update_`. -/
  updates : List (Option Position) := []
  result : Option ExecutionResult := none
deriving DecidableEq

/-! ## What the engine and the clients answer with -/

/-- `on_usdt_update` on the stored rate (arbitrage_engine.cpp:345-372). -/
def onUsdtUpdate (prev price : Binary64) : Binary64 :=
  if price ≤ 0 then prev
  else if 0 < prev ∧
      literal TradingConfig.maxUsdtJumpPct < (price - prev).abs / prev * literal 100 then prev
  else price

/-- `spread_pct`; `none` is the infinity the source returns for a crossed or empty book. -/
def spreadPct (bid ask : Binary64) : Option Binary64 :=
  if bid ≤ 0 ∨ ask ≤ 0 ∨ ask < bid then none
  else
    let mid := (bid + ask) * literal (1 / 2)
    if mid ≤ 0 then none else some ((ask - bid) / mid * literal 100)

/-- `spread_pct(bid, ask) > limit`, infinity being above every limit. -/
def spreadExceeds (bid ask limit : Binary64) : Bool :=
  match spreadPct bid ask with
  | none => true
  | some s => decide (limit < s)

/-- `quote_pair_is_usable` under the limits of an exit (order_manager.cpp:298-318). -/
def quotePairIsUsable (nowMs : UInt64) (korean foreign : PriceData) : Bool :=
  if !korean.valid || korean.timestamp = 0 || !foreign.valid || foreign.timestamp = 0 then false
  else if nowMs - korean.timestamp > TradingConfig.maxQuoteAgeMsExit ||
      nowMs - foreign.timestamp > TradingConfig.maxQuoteAgeMsExit then false
  else
    let tsDiff :=
      if korean.timestamp ≥ foreign.timestamp then korean.timestamp - foreign.timestamp
      else foreign.timestamp - korean.timestamp
    if tsDiff > TradingConfig.maxQuoteDesyncMsExit then false
    else if spreadExceeds korean.bid korean.ask (literal TradingConfig.maxKoreanSpreadPctExit) then
      false
    else !spreadExceeds foreign.bid foreign.ask (literal TradingConfig.maxForeignSpreadPctExit)

/-- `resolved_fill_quantity` (order_manager.cpp:259-264). -/
def resolvedFillQuantity (order : Order) : Binary64 :=
  if 0 < order.filledQuantity then order.filledQuantity
  else if 0 < order.quantity then order.quantity else 0

/-- `resolved_fill_price` (order_manager.cpp:266-268). -/
def resolvedFillPrice (order : Order) (fallback : Binary64) : Binary64 :=
  if 0 < order.averagePrice then order.averagePrice else fallback

/-- `quantities_match` (order_manager.cpp:270-276). -/
def quantitiesMatch (lhs rhs : Binary64) : Bool :=
  let scale := max lhs.abs rhs.abs
  if scale ≤ 0 then true
  else decide ((lhs - rhs).abs / scale ≤ literal TradingConfig.hedgeQuantityToleranceRatio)

/-! ## Quotes and branch -/

/-- `usdt_rate` of an iteration. -/
def iterationRate (c : ExitCall) (bithumbUsdt : Binary64) : Binary64 :=
  if c.engine = true ∧ 0 < bithumbUsdt then bithumbUsdt else c.signal.usdtKrwRate

/-- The quotes of an iteration: the cached pair under the exit limits, or the signal's prices when
there is no engine (order_manager.cpp:1352-1374). -/
def exitQuotes (c : ExitCall) (bithumbUsdt : Binary64) (x : ExitRound) : Option Quotes :=
  let rate := iterationRate c bithumbUsdt
  if c.engine = false then some ⟨0, c.signal.foreignAsk, 0, c.signal.koreanBid, rate⟩
  else if quotePairIsUsable x.nowMs x.korean x.foreign = true then
    some ⟨x.foreign.bid, x.foreign.ask, x.korean.ask, x.korean.bid, rate⟩
  else none

/-- The premium of a Korean price over a foreign one, `((korean - krw) / krw) * 100.0`. -/
def premiumPct (korean foreign rate : Binary64) : Option Binary64 := do
  let foreignKrw := foreign * rate
  let ratio ← checkedDiv (korean - foreignKrw) foreignKrw
  return ratio * literal 100

/-- `calculate_effective_entry_pm` (order_manager.cpp:1312-1323). -/
def effectiveEntryPm (l : Ledger) (fallback usdtRate : Binary64) : Option Binary64 :=
  if l.heldAmount ≤ 0 ∨ l.totalForeignValue ≤ 0 ∨ usdtRate ≤ 0 then some fallback
  else do
    let avgForeignEntry ← checkedDiv l.totalForeignValue l.heldAmount
    let avgKoreanEntry ← checkedDiv l.totalKoreanCost l.heldAmount
    if avgForeignEntry * usdtRate ≤ 0 then return fallback
    else premiumPct avgKoreanEntry avgForeignEntry usdtRate

/-- `exit_premium` (order_manager.cpp:1387-1391). -/
def exitPremium (q : Quotes) : Option Binary64 :=
  if 0 < q.foreignAsk ∧ 0 < q.usdtRate ∧ 0 < q.koreanBid then
    premiumPct q.koreanBid q.foreignAsk q.usdtRate
  else some 0

/-- `entry_premium` (order_manager.cpp:1394-1398). -/
def reentryPremium (q : Quotes) : Option Binary64 :=
  if 0 < q.foreignBid ∧ 0 < q.usdtRate ∧ 0 < q.koreanAsk then
    premiumPct q.koreanAsk q.foreignBid q.usdtRate
  else some 0

/-- `dynamic_exit_threshold` (order_manager.cpp:1401-1407). -/
def dynamicExitThreshold (l : Ledger) (fallback usdtRate : Binary64) : Option Binary64 :=
  if 0 < l.heldAmount ∧ 0 < l.totalForeignValue ∧ 0 < usdtRate then do
    let effectiveEntryPm ← effectiveEntryPm l fallback usdtRate
    return max (effectiveEntryPm + dynamicExitSpread) exitPremiumThreshold
  else some exitPremiumThreshold

/-- `exit_coin_amount` (order_manager.cpp:1414-1426). -/
def exitCoinAmount (heldAmount foreignAsk : Binary64) : Option Binary64 :=
  if heldAmount * foreignAsk < literal 50 then some heldAmount
  else do
    let coins ← checkedDiv orderSizeUsd foreignAsk
    return min coins heldAmount

/-- The coins of a re-entry split (order_manager.cpp:1612-1614). -/
def reentryCoinAmount (q : Quotes) (originalAmount remainingAmount : Binary64) : Option Binary64 :=
  let maxReentryCoins := originalAmount - remainingAmount
  let reentryUsd := min orderSizeUsd (maxReentryCoins * q.foreignBid)
  checkedDiv reentryUsd q.foreignBid

/-- What an iteration with usable quotes does. -/
inductive ExitBranch
  | exit (coinAmount : Binary64)
  | reentry (coinAmount : Binary64)
  | wait
deriving DecidableEq

/-- The branch conditions; both premiums are computed before either is read. -/
def exitBranch (c : ExitCall) (q : Quotes) (l : Ledger) : Option ExitBranch := do
  let exitPm ← exitPremium q
  let entryPm ← reentryPremium q
  let threshold ← dynamicExitThreshold l c.position.entryPremium q.usdtRate
  if threshold ≤ exitPm then
    let coinAmount ← exitCoinAmount l.heldAmount q.foreignAsk
    return .exit coinAmount
  else if entryPm ≤ entryPremiumThreshold ∧ l.heldAmount < c.position.foreignAmount then
    let coinAmount ← reentryCoinAmount q c.position.foreignAmount l.heldAmount
    return .reentry coinAmount
  else return .wait

/-! ## Snapshots -/

/-- `amount > 0 ? total / amount : 0.0`. -/
def guardedAverage (total amount : Binary64) : Option Binary64 :=
  if 0 < amount then checkedDiv total amount else some 0

/-- The fields that every snapshot recomputes. -/
def exitSnapshot (c : ExitCall) (l : Ledger) (usdtRate : Binary64) : Option Position := do
  let entryPremium ← effectiveEntryPm l c.position.entryPremium usdtRate
  return { c.position with entryPremium := entryPremium, realizedPnlKrw := l.realizedPnlKrw }

/-- The snapshot of the remaining position, whose two averages are not guarded
(order_manager.cpp:1538-1544, 1801-1808). -/
def remainingSnapshot (c : ExitCall) (l : Ledger) (usdtRate : Binary64) : Option Position := do
  let snap ← exitSnapshot c l usdtRate
  let koreanEntryPrice ← checkedDiv l.totalKoreanCost l.heldAmount
  let foreignEntryPrice ← checkedDiv l.totalForeignValue l.heldAmount
  return { snap with
    koreanAmount := l.heldAmount
    foreignAmount := l.heldAmount
    koreanEntryPrice := koreanEntryPrice
    foreignEntryPrice := foreignEntryPrice }

/-- A mismatch snapshot: the amounts of the two legs, each average over its own amount. -/
def mismatchSnapshot (c : ExitCall) (l : Ledger) (usdtRate koreanAmount foreignAmount : Binary64)
    (koreanAverage foreignAverage : Option Binary64) (realizedPnlKrw : Binary64) :
    Option Position := do
  let snap ← exitSnapshot c l usdtRate
  let koreanEntryPrice ← koreanAverage
  let foreignEntryPrice ← foreignAverage
  return Position.flagActive
    { snap with
      koreanAmount := koreanAmount
      foreignAmount := foreignAmount
      koreanEntryPrice := koreanEntryPrice
      foreignEntryPrice := foreignEntryPrice
      realizedPnlKrw := realizedPnlKrw }

/-- The snapshot of a sale that failed five times (order_manager.cpp:1590-1598). -/
def exitRetriesMismatch (c : ExitCall) (l : Ledger) (usdtRate actualCovered : Binary64) :
    Option Position :=
  mismatchSnapshot c l usdtRate l.heldAmount (max 0 (l.heldAmount - actualCovered))
    (guardedAverage l.totalKoreanCost l.heldAmount)
    (guardedAverage l.totalForeignValue l.heldAmount) l.realizedPnlKrw

/-- The snapshot of a short that could not be rolled back (order_manager.cpp:1639-1648,
1821-1830). -/
def reentryRollbackMismatch (c : ExitCall) (l : Ledger)
    (usdtRate actualFilled shortPrice : Binary64) : Option Position :=
  let foreignAmount := l.heldAmount + actualFilled
  let foreignValue := l.totalForeignValue + actualFilled * shortPrice
  mismatchSnapshot c l usdtRate l.heldAmount foreignAmount
    (guardedAverage l.totalKoreanCost l.heldAmount)
    (guardedAverage foreignValue foreignAmount) l.realizedPnlKrw

/-- The resolved quantities and prices of the two legs of a split. -/
structure LegFills where
  koreanQty : Binary64
  foreignQty : Binary64
  koreanPrice : Binary64
  foreignPrice : Binary64
deriving DecidableEq

/-- The snapshot of unequal re-entry legs (order_manager.cpp:1706-1718, 1733-1745,
1758-1770). -/
def reentryMismatch (c : ExitCall) (l : Ledger) (usdtRate : Binary64) (legs : LegFills)
    (realizedPnlKrw : Binary64) : Option Position :=
  let koreanAmount := l.heldAmount + legs.koreanQty
  let foreignAmount := l.heldAmount + legs.foreignQty
  mismatchSnapshot c l usdtRate koreanAmount foreignAmount
    (guardedAverage (l.totalKoreanCost + legs.koreanQty * legs.koreanPrice) koreanAmount)
    (guardedAverage (l.totalForeignValue + legs.foreignQty * legs.foreignPrice) foreignAmount)
    realizedPnlKrw

/-- A call of `on_position_update_`, when it is set. -/
def ExitState.report (c : ExitCall) (position : Option Position) (s : ExitState) : ExitState :=
  if c.hasPositionCallback then { s with updates := s.updates ++ [position] } else s

/-- The position file is updated when there is a callback, and only then is the snapshot of the
remaining position computed. -/
def reportRemaining (c : ExitCall) (usdtRate : Binary64) (s : ExitState) : Option ExitState :=
  if c.hasPositionCallback then do
    let snap ← remainingSnapshot c s.ledger usdtRate
    return s.report c (some snap)
  else some s

/-- `trigger_critical_stop` with the snapshot it is given (order_manager.cpp:1318-1347). -/
def exitCriticalStop (c : ExitCall) (reason : ExitStopReason) (snap : Option Position)
    (s : ExitState) : Option ExitState := do
  let snap ← snap
  let s : ExitState :=
    { s with
      running := false
      result := some
        { success := false
          positionManaged := true
          position := snap
          errorMessage := reason.message } }
  return s.report c (if snap.isActive then some snap else none)

/-! ## The exit branch -/

/-- The bookkeeping of a closed quantity: two averages and `exit_ratio`, none of them guarded
(order_manager.cpp:1500-1519, 1560-1575). -/
def bookClosed (q : Quotes) (actualCovered : Binary64) (cover sale : Order) (s : ExitState) :
    Option ExitState := do
  let sellPrice := resolvedFillPrice sale q.koreanBid
  let coverPrice := resolvedFillPrice cover q.foreignAsk
  let avgKoreanEntry ← checkedDiv s.ledger.totalKoreanCost s.ledger.heldAmount
  let avgForeignEntry ← checkedDiv s.ledger.totalForeignValue s.ledger.heldAmount
  let koreanPnlKrw := (sellPrice - avgKoreanEntry) * actualCovered
  let foreignPnlKrw := (avgForeignEntry - coverPrice) * actualCovered * q.usdtRate
  let exitRatio ← checkedDiv actualCovered s.ledger.heldAmount
  return { s with
    ledger :=
      { heldAmount := s.ledger.heldAmount - actualCovered
        totalKoreanCost := s.ledger.totalKoreanCost * (literal 1 - exitRatio)
        totalForeignValue := s.ledger.totalForeignValue * (literal 1 - exitRatio)
        realizedPnlKrw := s.ledger.realizedPnlKrw + (koreanPnlKrw + foreignPnlKrw) }
    totalKoreanProceeds := s.totalKoreanProceeds + actualCovered * sellPrice
    totalForeignCost := s.totalForeignCost + actualCovered * coverPrice
    totalExitedAmount := s.totalExitedAmount + actualCovered }

/-- The exit branch when the first sale was reported `Filled` (order_manager.cpp:1484-1549). -/
def afterExitSale (c : ExitCall) (q : Quotes) (cover sale : Order) (s : ExitState) :
    Option ExitState := do
  let actualCovered := if 0 < cover.filledQuantity then cover.filledQuantity else cover.quantity
  let s ← bookClosed q actualCovered cover sale s
  if 0 < s.ledger.heldAmount then reportRemaining c q.usdtRate s
  else return s.report c none

/-- The exit branch when it was not: five retries, of which the first accepted one is booked
(order_manager.cpp:1550-1605). -/
def afterExitRetries (c : ExitCall) (q : Quotes) (r : Replies) (cover : Order) (s : ExitState) :
    Option ExitState :=
  let actualCovered := resolvedFillQuantity cover
  match (List.ofFn fun i => r.retries i actualCovered).find? (·.accepted) with
  | none =>
    exitCriticalStop c .sellRetries (exitRetriesMismatch c s.ledger q.usdtRate actualCovered) s
  | some retry => do
    let s ← bookClosed q actualCovered cover retry.order s
    -- the retry's own fill query may have taken the status away from `Filled`
    if retry.order.filled = false then
      exitCriticalStop c .sellRetries (exitRetriesMismatch c s.ledger q.usdtRate actualCovered) s
    else return s

/-- The exit branch (order_manager.cpp:1415-1607). -/
def closeSplit (c : ExitCall) (q : Quotes) (r : Replies) (coinAmount : Binary64) (s : ExitState) :
    Option ExitState :=
  let cover := r.cover coinAmount
  if cover.filled = false then some s
  else
    let sale := r.sale cover.quantity
    let cover := cover.queried r.coverReport
    if sale.filled then afterExitSale c q cover sale s else afterExitRetries c q r cover s

/-! ## The re-entry branch -/

/-- The bookkeeping of re-entry legs after their correction (order_manager.cpp:1754-1809). -/
def bookReentry (c : ExitCall) (q : Quotes) (legs : LegFills) (adjustmentPnlKrw : Binary64)
    (s : ExitState) : Option ExitState :=
  let l := s.ledger
  if quantitiesMatch legs.foreignQty legs.koreanQty = false then
    exitCriticalStop c .reentryMismatch
      (reentryMismatch c l q.usdtRate legs (l.realizedPnlKrw + adjustmentPnlKrw)) s
  else
    let actualFilled := min legs.foreignQty legs.koreanQty
    reportRemaining c q.usdtRate { s with
      ledger :=
        { heldAmount := l.heldAmount + actualFilled
          totalKoreanCost := l.totalKoreanCost + actualFilled * legs.koreanPrice
          totalForeignValue := l.totalForeignValue + actualFilled * legs.foreignPrice
          realizedPnlKrw := l.realizedPnlKrw + adjustmentPnlKrw } }

/-- The re-entry legs, of which the larger one is corrected first (order_manager.cpp:1683-1752). -/
def correctReentry (c : ExitCall) (q : Quotes) (r : Replies) (legs : LegFills) (s : ExitState) :
    Option ExitState :=
  let l := s.ledger
  if quantitiesMatch legs.foreignQty legs.koreanQty then bookReentry c q legs 0 s
  else if legs.koreanQty < legs.foreignQty then
    match r.coverDelta (legs.foreignQty - legs.koreanQty) with
    | none =>
      exitCriticalStop c .reentryCoverExcess
        (reentryMismatch c l q.usdtRate legs l.realizedPnlKrw) s
    | some correction =>
      let qty := resolvedFillQuantity correction
      let price := resolvedFillPrice correction q.foreignAsk
      bookReentry c q { legs with foreignQty := legs.foreignQty - qty }
        ((legs.foreignPrice - price) * qty * q.usdtRate) s
  else
    match r.sellDelta (legs.koreanQty - legs.foreignQty) with
    | none =>
      exitCriticalStop c .reentrySellExcess
        (reentryMismatch c l q.usdtRate legs l.realizedPnlKrw) s
    | some correction =>
      let qty := resolvedFillQuantity correction
      let price := resolvedFillPrice correction q.koreanBid
      bookReentry c q { legs with koreanQty := legs.koreanQty - qty }
        ((price - legs.koreanPrice) * qty) s

/-- The re-entry branch (order_manager.cpp:1609-1838). -/
def openSplit (c : ExitCall) (q : Quotes) (r : Replies) (coinAmount : Binary64) (s : ExitState) :
    Option ExitState :=
  let l := s.ledger
  let short := r.short coinAmount
  if short.filled = false then some s
  else if short.quantity * q.koreanAsk < minOrderKrw then
    if (r.rollback short.quantity).filled then some s
    else
      exitCriticalStop c .minOrderRollback
        (reentryRollbackMismatch c l q.usdtRate short.quantity
          (resolvedFillPrice short q.foreignBid)) s
  else
    let buy := r.buy (short.quantity * q.koreanAsk)
    let short := short.queried r.shortReport
    let shortQty := resolvedFillQuantity short
    let shortPrice := resolvedFillPrice short q.foreignBid
    if buy.filled then
      correctReentry c q r
        { koreanQty := resolvedFillQuantity buy
          foreignQty := shortQty
          koreanPrice := resolvedFillPrice buy q.koreanAsk
          foreignPrice := shortPrice } s
    else if (r.rollback shortQty).filled then some s
    else
      exitCriticalStop c .buyRollback
        (reentryRollbackMismatch c l q.usdtRate shortQty shortPrice) s

/-! ## The loop -/

/-- One iteration after its quotes were read. -/
def exitTrade (c : ExitCall) (r : Replies) (q : Quotes) (s : ExitState) : Option ExitState := do
  match ← exitBranch c q s.ledger with
  | .exit coinAmount => closeSplit c q r coinAmount s
  | .reentry coinAmount => openSplit c q r coinAmount s
  | .wait => return s

/-- The body of the loop, at the Bithumb rate that it reads. -/
def exitIterate (c : ExitCall) (bithumbUsdt : Binary64) (s : ExitState) (x : ExitRound) :
    Option ExitState :=
  let s := { s with lastUsdtRate := iterationRate c bithumbUsdt }
  match exitQuotes c bithumbUsdt x with
  | none => some s
  | some q => exitTrade c x.replies q s

/-- The loop head: coins remain and `running_` is set. -/
def exitStep (c : ExitCall) (bithumbUsdt : Binary64) (s : ExitState) (x : ExitRound) :
    Option ExitState :=
  if 0 < s.ledger.heldAmount ∧ s.running = true then exitIterate c bithumbUsdt s x else some s

/-- A call next to the engine's stored Bithumb rate. -/
structure ExitSystem where
  bithumbUsdt : Binary64
  state : ExitState

/-- The stored rate after the ticks before an iteration. -/
def ExitSystem.rateAt (t : ExitSystem) (x : ExitRound) : Binary64 :=
  x.usdtTicks.foldl onUsdtUpdate t.bithumbUsdt

/-- The engine handles its ticks and the call makes its iteration; a call that divides by zero
goes no further. -/
def ExitSystem.step (c : ExitCall) (t : ExitSystem) (x : ExitRound) : ExitSystem where
  bithumbUsdt := t.rateAt x
  state := (exitStep c (t.rateAt x) t.state x).getD t.state

/-! ## Loop entry and exit -/

/-- The state at the first loop head (order_manager.cpp:1302-1311). -/
def initialExitState (c : ExitCall) : ExitState where
  ledger :=
    { heldAmount := c.position.foreignAmount
      totalKoreanCost := c.position.koreanEntryPrice * c.position.koreanAmount
      totalForeignValue := c.position.foreignEntryPrice * c.position.foreignAmount }
  lastUsdtRate := c.signal.usdtKrwRate

/-- The early returns before the loop (order_manager.cpp:1260-1278). -/
def enterExitLoop (c : ExitCall) (exchangesAvailable : Bool) : Except ExecutionResult ExitState :=
  let refuse (message : String) : ExecutionResult :=
    { position := c.position, errorMessage := message }
  if !exchangesAvailable then .error (refuse "Exchange not available")
  else if quantitiesMatch c.position.koreanAmount c.position.foreignAmount = false then
    .error (refuse "Position is mismatched; manual recovery required before exit")
  else .ok (initialExitState c)

/-- The result of the call (order_manager.cpp:1868-1898). -/
def finishExit (c : ExitCall) (s : ExitState) : Option ExecutionResult :=
  match s.result with
  | some result => some result
  | none =>
    if 0 < s.ledger.heldAmount then do
      let snap ← remainingSnapshot c s.ledger s.lastUsdtRate
      return { success := false, position := { snap with isActive := true } }
    else
      let exited : Position :=
        { c.position with
          exitPremium := c.signal.premium
          isActive := false
          realizedPnlKrw := s.ledger.realizedPnlKrw }
      if 0 < s.totalExitedAmount then do
        let koreanExitPrice ← checkedDiv s.totalKoreanProceeds s.totalExitedAmount
        let foreignExitPrice ← checkedDiv s.totalForeignCost s.totalExitedAmount
        return {
          success := true
          position :=
            { exited with
              koreanExitPrice := koreanExitPrice
              foreignExitPrice := foreignExitPrice } }
      else return { success := true, position := exited }

end Doubles

end SpotRelay.Model
