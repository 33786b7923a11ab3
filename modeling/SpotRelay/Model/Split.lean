import SpotRelay.Model.Clients
import SpotRelay.Model.Quotes

/-!
# The legs of one split

An entry or re-entry split shorts on the foreign venue, buys on the Korean one and hedges
the difference of the two fills; an exit split covers, sells and, when the sale is not
reported `Filled`, retries it.  `execute_spot_relay_entry` and `execute_spot_relay_exit`
both run these legs; what each of them books afterwards is left to their own modules.
-/

set_option autoImplicit false

namespace SpotRelay.Model

/-- The two venues a call trades on. -/
structure Venues where
  korean : Exchange
  foreign : Exchange
deriving DecidableEq, Repr

/-- The quotes of one iteration, `current_*` and `usdt_rate` in the source. -/
structure Quotes where
  foreignBid : ℚ
  foreignAsk : ℚ
  foreignBidQty : ℚ
  koreanAsk : ℚ
  koreanBid : ℚ
  koreanAskQty : ℚ
  usdtRate : ℚ
deriving DecidableEq, Repr

/-- How the venues answer the orders of one iteration, in the order they can be sent. -/
structure SplitReplies where
  foreign : ForeignReply := {}
  korean : KoreanReply := {}
  rollback : ForeignReply := {}
  coverDelta : ForeignReply := {}
  sellDelta : KoreanReply := {}
  retries : Fin 5 → KoreanReply := fun _ => {}

/-- An order as the order manager last sees it, whether it takes the order as done, and what
the venue executed for it. -/
structure Fill where
  order : Order
  done : Bool
  trades : List Trade
deriving DecidableEq, Repr

/-- A leg is taken as done when its last known status is `Filled`. -/
def Placed.toFill (p : Placed) : Fill := ⟨p.order, decide (p.order.status = .filled), p.trades⟩

/-- The resolved quantities and prices of the two legs of a split. -/
structure LegFills where
  koreanQty : ℚ
  foreignQty : ℚ
  koreanPrice : ℚ
  foreignPrice : ℚ
deriving DecidableEq, Repr

/-- A correction order that was reported done. -/
structure Correction where
  leg : Leg
  qty : ℚ
  price : ℚ
deriving DecidableEq, Repr

/-- The delta hedge of a split: the legs after it, or the leg whose excess stays open. -/
inductive Hedge
  | failed (excess : Leg)
  | done (legs : LegFills) (correction : Option Correction)
deriving DecidableEq, Repr

variable (v : Venues) (r : SplitReplies) (q : Quotes)

/-! ## Opening -/

/-- The short of an opening split (order_manager.cpp:619-621). -/
def openShortLeg (coinAmount : ℚ) : Placed := executeForeignShort v.foreign r.foreign coinAmount

/-- The short with its fill query. -/
def openShortFill (coinAmount : ℚ) : Fill :=
  let placed := openShortLeg v r coinAmount
  Placed.toFill ⟨queryForeignFill v.foreign r.foreign placed.order, placed.trades⟩

/-- The Korean market buy for the KRW value of the short, with its fill query
(order_manager.cpp:685-707). -/
def openBuyFill (krwAmount : ℚ) : Fill :=
  let placed := executeKoreanBuy v.korean r.korean krwAmount
  Placed.toFill ⟨queryKoreanFill v.korean r.korean placed.order, placed.trades⟩

/-- A foreign cover whose fill is never queried (order_manager.cpp:638, 870). -/
def rollbackFill (quantity : ℚ) : Fill :=
  (executeForeignCover v.foreign r.rollback quantity).toFill

/-- The correction cover; it is done when `flatten_extra_foreign_short` returns success. -/
def coverDelta (quantity : ℚ) : Fill :=
  let flattened := flattenExtraForeignShort v.foreign r.coverDelta quantity
  ⟨flattened.2.order, flattened.1, flattened.2.trades⟩

/-- The correction sale; it is done when `flatten_extra_korean_long` returns success. -/
def sellDelta (quantity : ℚ) : Fill :=
  let flattened := flattenExtraKoreanLong v.korean r.sellDelta quantity
  ⟨flattened.2.order, flattened.1, flattened.2.trades⟩

/-- The correction of an opening split takes the excess off the larger leg
(order_manager.cpp:717-785). -/
def hedgeOpen (legs : LegFills) : Hedge × List Fill :=
  if quantitiesMatch legs.foreignQty legs.koreanQty then (.done legs none, [])
  else if legs.koreanQty < legs.foreignQty then
    let cover := coverDelta v r (legs.foreignQty - legs.koreanQty)
    if cover.done then
      let correctionQty := resolvedFillQuantity cover.order
      let correctionPrice := resolvedFillPrice cover.order q.foreignAsk
      (.done { legs with foreignQty := legs.foreignQty - correctionQty }
        (some ⟨.foreign, correctionQty, correctionPrice⟩), [cover])
    else (.failed .foreign, [cover])
  else
    let sale := sellDelta v r (legs.koreanQty - legs.foreignQty)
    if sale.done then
      let correctionQty := resolvedFillQuantity sale.order
      let correctionPrice := resolvedFillPrice sale.order q.koreanBid
      (.done { legs with koreanQty := legs.koreanQty - correctionQty }
        (some ⟨.korean, correctionQty, correctionPrice⟩), [sale])
    else (.failed .korean, [sale])

/-- How an entry or re-entry split ends. -/
inductive OpenSplit
  | shortFailed
  | minOrderRolledBack (short rollback : Fill)
  | minOrderRollbackFailed (short : Fill)
  | buyRolledBack (short rollback : Fill)
  | buyRollbackFailed (short : Fill)
  | correctionFailed (excess : Leg) (legs : LegFills)
  | mismatched (legs : LegFills) (correction : Option Correction)
  | matched (legs : LegFills) (correction : Option Correction)
deriving DecidableEq, Repr

/-- The legs of an opening split as they are resolved before the delta hedge. -/
def openLegs (short buy : Order) : LegFills where
  koreanQty := resolvedFillQuantity buy
  foreignQty := resolvedFillQuantity short
  koreanPrice := resolvedFillPrice buy q.koreanAsk
  foreignPrice := resolvedFillPrice short q.foreignBid

/-- The part of an opening split after both legs were reported `Filled`
(order_manager.cpp:704-811). -/
def openHedged (short buy : Fill) : OpenSplit × List Fill :=
  let legs := openLegs q short.order buy.order
  match hedgeOpen v r q legs with
  | (.failed excess, fills) => (.correctionFailed excess legs, short :: buy :: fills)
  | (.done hedged correction, fills) =>
    if quantitiesMatch hedged.foreignQty hedged.koreanQty then
      (.matched hedged correction, short :: buy :: fills)
    else (.mismatched hedged correction, short :: buy :: fills)

/-- The rollback when the order is below the Korean minimum; the short's fill is not queried
(order_manager.cpp:636-667). -/
def openBelowMinimum (short : Fill) : OpenSplit × List Fill :=
  let actualFilled := short.order.quantity
  let rollback := rollbackFill v r actualFilled
  if rollback.done = false then (.minOrderRollbackFailed short, [short, rollback])
  else (.minOrderRolledBack short rollback, [short, rollback])

/-- The rollback when the buy was not reported `Filled` (order_manager.cpp:866-899). -/
def openBuyFailed (short buy : Fill) : OpenSplit × List Fill :=
  let actualFilled := resolvedFillQuantity short.order
  let rollback := rollbackFill v r actualFilled
  if rollback.done = false then (.buyRollbackFailed short, [short, buy, rollback])
  else (.buyRolledBack short rollback, [short, buy, rollback])

/-- The legs of an entry split (order_manager.cpp:611-899) and of a re-entry split
(order_manager.cpp:1609-1838), with every order that was sent. -/
def openSplit (coinAmount : ℚ) : OpenSplit × List Fill :=
  let placed := openShortLeg v r coinAmount
  if placed.order.status ≠ .filled then (.shortFailed, [placed.toFill])
  else
    -- the lot-size normalised quantity, known before the fill query
    let krwAmount := placed.order.quantity * q.koreanAsk
    if krwAmount < TradingConfig.minOrderKrw then
      openBelowMinimum v r placed.toFill
    else
      let short := openShortFill v r coinAmount
      let buy := openBuyFill v r krwAmount
      if buy.done then openHedged v r q short buy
      else openBuyFailed v r short buy

/-! ## Closing -/

/-- The cover of a closing split (order_manager.cpp:919-921). -/
def closeCoverLeg (coinAmount : ℚ) : Placed := executeForeignCover v.foreign r.foreign coinAmount

/-- The cover with its fill query. -/
def closeCoverFill (coinAmount : ℚ) : Fill :=
  let placed := closeCoverLeg v r coinAmount
  Placed.toFill ⟨queryForeignFill v.foreign r.foreign placed.order, placed.trades⟩

/-- A Korean market sell of which the fill query is skipped unless it was accepted. -/
def closeSellFill (reply : KoreanReply) (quantity : ℚ) : Fill :=
  let placed := executeKoreanSell v.korean reply quantity
  Placed.toFill ⟨queryKoreanFill v.korean reply placed.order, placed.trades⟩

/-- The retry loop after a sale that was not reported `Filled`: sells `quantity` again until
a submission is accepted, and queries that order's fill (order_manager.cpp:1170-1199). -/
def sellRetries (quantity : ℚ) : List KoreanReply → Option Fill × List Fill
  | [] => (none, [])
  | reply :: rest =>
    let placed := executeKoreanSell v.korean reply quantity
    if placed.order.status = .filled then
      let sale := closeSellFill v reply quantity
      (some sale, [sale])
    else
      let tail := sellRetries quantity rest
      (tail.1, placed.toFill :: tail.2)

/-- The cover and sale of a closing split, before anything is booked. -/
inductive CloseLegs
  | coverFailed
  | sold (cover sale : Fill)
  | retrySold (cover sale : Fill)
  | retriesFailed (cover : Fill)
deriving DecidableEq, Repr

/-- The legs of an exit split (order_manager.cpp:918-973, 1162-1200), with every order that
was sent. -/
def closeLegs (coinAmount : ℚ) : CloseLegs × List Fill :=
  let placed := closeCoverLeg v r coinAmount
  if placed.order.status ≠ .filled then (.coverFailed, [placed.toFill])
  else
    let cover := closeCoverFill v r coinAmount
    let sale := closeSellFill v r.korean placed.order.quantity
    if sale.done then (.sold cover sale, [cover, sale])
    else
      match sellRetries v (resolvedFillQuantity cover.order) (List.ofFn r.retries) with
      | (none, fills) => (.retriesFailed cover, cover :: sale :: fills)
      | (some retried, fills) => (.retrySold cover retried, cover :: sale :: fills)

/-- The legs of a closing split as they are resolved before the delta hedge. -/
def closeFills (cover sale : Order) : LegFills where
  koreanQty := resolvedFillQuantity sale
  foreignQty := resolvedFillQuantity cover
  koreanPrice := resolvedFillPrice sale q.koreanBid
  foreignPrice := resolvedFillPrice cover q.foreignAsk

/-- The correction of a closing split brings the smaller leg up to the larger one
(order_manager.cpp:988-1052). -/
def hedgeClose (legs : LegFills) : Hedge × List Fill :=
  if quantitiesMatch legs.foreignQty legs.koreanQty then (.done legs none, [])
  else if legs.koreanQty < legs.foreignQty then
    let sale := sellDelta v r (legs.foreignQty - legs.koreanQty)
    if sale.done then
      let correctionQty := resolvedFillQuantity sale.order
      let correctionPrice := resolvedFillPrice sale.order q.koreanBid
      (.done { legs with koreanQty := legs.koreanQty + correctionQty }
        (some ⟨.korean, correctionQty, correctionPrice⟩), [sale])
    else (.failed .korean, [sale])
  else
    let cover := coverDelta v r (legs.koreanQty - legs.foreignQty)
    if cover.done then
      let correctionQty := resolvedFillQuantity cover.order
      let correctionPrice := resolvedFillPrice cover.order q.foreignAsk
      (.done { legs with foreignQty := legs.foreignQty + correctionQty }
        (some ⟨.foreign, correctionQty, correctionPrice⟩), [cover])
    else (.failed .foreign, [cover])

end SpotRelay.Model
