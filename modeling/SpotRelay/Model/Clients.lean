import SpotRelay.Model.Types

/-!
# The exchange clients: placing orders and querying fills

`open_short`/`close_short` of the Bybit and OKX clients, `place_market_order`/
`place_market_buy_cost` of the Bithumb and Upbit clients, and the fill queries that the
order manager defers (`query_order_fill`, `query_order_detail`).

Everything a venue does with one submitted order is a *reply*: how the submission is
answered, what each later fill query returns, and, as ghost fields that no client reads,
how many coins the venue really executed and at which average price.
-/

set_option autoImplicit false

namespace SpotRelay.Model

/-- The two legs of a hedged position. -/
inductive Leg
  | korean
  | foreign
deriving DecidableEq, Repr

/-- Coins that a venue executed for one submitted order (ghost). -/
structure Trade where
  leg : Leg
  side : Side
  quantity : ℚ
  price : ℚ
deriving DecidableEq, Repr

/-- An order as its client returns it, with what the venue executed for it. -/
structure Placed where
  order : Order
  trades : List Trade
deriving DecidableEq, Repr

/-! ## Foreign venues -/

/-- Lot-size filter of a symbol (`lot_size_cache_`). -/
structure LotSize where
  qtyStep : ℚ
  minQty : ℚ
  minNotional : ℚ
deriving DecidableEq, Repr

/-- The cached ticker prices that serve as price hints. -/
structure CachedTicker where
  bid : ℚ
  ask : ℚ
  last : ℚ
deriving DecidableEq, Repr

/-- The answer to a submission over the trade WebSocket or REST: an order id, a
success without order data (OKX only), or anything that ends as `Rejected`. -/
inductive ForeignAck
  | accepted (orderId : String)
  | noData
  | rejected
deriving DecidableEq, Repr

/-- Average price and cumulative quantity of a fill report. -/
structure ForeignFill where
  avgPrice : ℚ
  cumExecQty : ℚ
deriving DecidableEq, Repr

/-- What happens to one foreign order. -/
structure ForeignReply where
  lot : Option LotSize := none
  ticker : Option CachedTicker := none
  /-- `ensure_spot_margin_mode` / `ensure_margin_mode` succeeds. -/
  marginReady : Bool := true
  ack : ForeignAck := .rejected
  /-- The private-WebSocket fill event, when it arrives within the 200 ms wait. -/
  cachedFill : Option ForeignFill := none
  /-- The REST fill queries in order; `none` is a failed or empty answer. -/
  polls : List (Option ForeignFill) := []
  /-- Ghost: coins executed and their average price. -/
  executed : ℚ := 0
  price : ℚ := 0
deriving DecidableEq, Repr

/-- `normalize_order_qty` of both foreign clients (bybit.cpp:586-627, okx.cpp:669-710). -/
def normalizeOrderQty (lot : Option LotSize) (ticker : Option CachedTicker) (qty : ℚ)
    (isOpen : Bool) : ℚ :=
  if qty ≤ 0 then 0
  else
    match lot with
    | none => qty
    | some l =>
      let qty := if 0 < l.qtyStep then ⌊qty / l.qtyStep + 1 / 1000000000⌋ * l.qtyStep else qty
      if qty < l.minQty then 0
      else
        let priceHint :=
          match ticker with
          | none => 0
          | some t =>
            if isOpen then (if 0 < t.bid then t.bid else t.last)
            else (if 0 < t.ask then t.ask else t.last)
        if 0 < l.minNotional ∧ 0 < priceHint ∧ qty * priceHint < l.minNotional then 0 else qty

/-- `BybitExchange::normalize_close_qty`: rounds up, at least one minimum (bybit.cpp:629-652). -/
def normalizeCloseQty (lot : Option LotSize) (qty : ℚ) : ℚ :=
  if qty ≤ 0 then 0
  else
    match lot with
    | none => qty
    | some l =>
      let qty := if 0 < l.qtyStep then ⌈qty / l.qtyStep - 1 / 1000000000⌉ * l.qtyStep else qty
      if qty < l.minQty then l.minQty else qty

/-- `OrderManager::get_foreign_exchange`: OKX, or Bybit by default (order_manager.cpp:365-368). -/
def getForeignExchange (ex : Exchange) : Exchange :=
  match ex with
  | .okx => .okx
  | _ => .bybit

/-- Submission of a foreign market order of normalised quantity `adjQty`; a market order
that is acknowledged is assumed `Filled` (bybit.cpp:463-510, okx.cpp:546-589). -/
def submitForeign (ex : Exchange) (side : Side) (adjQty : ℚ) (r : ForeignReply) : Placed :=
  let order : Order := { exchange := ex, side := side, quantity := adjQty }
  let trades := [⟨.foreign, side, r.executed, r.price⟩]
  match r.ack with
  | .accepted orderId => ⟨{ order with status := .filled, orderIdStr := orderId }, trades⟩
  | .noData => ⟨order, trades⟩
  | .rejected => ⟨{ order with status := .rejected }, trades⟩

/-- `open_short` of the Bybit and OKX clients (bybit.cpp:446-511, okx.cpp:526-590). -/
def openShort (ex : Exchange) (r : ForeignReply) (quantity : ℚ) : Placed :=
  let adjQty := normalizeOrderQty r.lot r.ticker quantity true
  if adjQty ≤ 0 then ⟨{ exchange := ex, side := .sell, status := .rejected }, []⟩
  else if !r.marginReady then
    ⟨{ exchange := ex, side := .sell, quantity := adjQty, status := .rejected }, []⟩
  else submitForeign ex .sell adjQty r

/-- `BybitExchange::close_short` (bybit.cpp:513-584). -/
def bybitCloseShort (r : ForeignReply) (quantity : ℚ) : Placed :=
  let adjQty := normalizeCloseQty r.lot quantity
  if adjQty ≤ 0 then ⟨{ exchange := .bybit, side := .buy, status := .rejected }, []⟩
  else if !r.marginReady then
    ⟨{ exchange := .bybit, side := .buy, quantity := adjQty, status := .rejected }, []⟩
  else submitForeign .bybit .buy adjQty r

/-- `OkxExchange::close_short`: a market buy sized in quote currency, which needs a price
(okx.cpp:592-667). -/
def okxCloseShort (r : ForeignReply) (quantity : ℚ) : Placed :=
  let adjQty := normalizeOrderQty r.lot r.ticker quantity false
  let rejected : Order :=
    { exchange := .okx, side := .buy, quantity := adjQty, status := .rejected }
  if adjQty ≤ 0 then ⟨{ exchange := .okx, side := .buy, status := .rejected }, []⟩
  else if !r.marginReady then ⟨rejected, []⟩
  else
    let priceHint :=
      match r.ticker with
      | none => 0
      | some t => if 0 < t.ask then t.ask else t.last
    if priceHint ≤ 0 then ⟨rejected, []⟩
    else
      let minNotional := match r.lot with | none => 0 | some l => l.minNotional
      let closeNotional := adjQty * priceHint * (1 + TradingConfig.okxFeeRate)
      let closeNotional :=
        if 0 < minNotional ∧ closeNotional < minNotional then minNotional else closeNotional
      if closeNotional ≤ 0 then ⟨rejected, []⟩ else submitForeign .okx .buy adjQty r

/-- `OrderManager::execute_foreign_short` (order_manager.cpp:1995-2004). -/
def executeForeignShort (ex : Exchange) (r : ForeignReply) (quantity : ℚ) : Placed :=
  openShort (getForeignExchange ex) r quantity

/-- `OrderManager::execute_foreign_cover` (order_manager.cpp:2017-2026). -/
def executeForeignCover (ex : Exchange) (r : ForeignReply) (quantity : ℚ) : Placed :=
  match getForeignExchange ex with
  | .okx => okxCloseShort r quantity
  | _ => bybitCloseShort r quantity

/-- One usable fill report overwrites only what it reports as positive
(bybit.cpp:1229-1240, okx.cpp:1340-1351). -/
def Order.applyForeignFill (order : Order) (f : ForeignFill) : Order :=
  { order with
    averagePrice := if 0 < f.avgPrice then f.avgPrice else order.averagePrice
    filledQuantity := if 0 < f.cumExecQty then f.cumExecQty else order.filledQuantity }

/-- The REST part of `query_order_fill`: queries until price and quantity are both known. -/
def pollForeignFill (order : Order) : List (Option ForeignFill) → Order
  | [] => order
  | none :: rest => pollForeignFill order rest
  | some f :: rest =>
    let order := order.applyForeignFill f
    if 0 < order.averagePrice ∧ 0 < order.filledQuantity then order
    else pollForeignFill order rest

/-- `query_order_fill`: the cached fill event, else at most five REST queries
(bybit.cpp:1165-1258, okx.cpp:1275-1372). -/
def queryOrderFill (r : ForeignReply) (order : Order) : Order :=
  match r.cachedFill with
  | some f => { order with averagePrice := f.avgPrice, filledQuantity := f.cumExecQty }
  | none => pollForeignFill order (r.polls.take 5)

/-- `OrderManager::query_foreign_fill` (order_manager.cpp:2052-2059). -/
def queryForeignFill (ex : Exchange) (r : ForeignReply) (order : Order) : Order :=
  if order.orderIdStr.isEmpty || order.status ≠ .filled then order
  else
    match ex with
    | .bybit => queryOrderFill r order
    | .okx => queryOrderFill r order
    | _ => order

/-! ## Korean venues -/

/-- The `state` field of a Korean order body. -/
inductive BodyState
  | wait
  | watch
  | done
  | cancel
  | other
  | absent
deriving DecidableEq, Repr

/-- The order body of the `/v1/orders` and `/v1/order` endpoints. -/
structure OrderBody where
  uuid : String
  state : BodyState
  executedVolume : ℚ
  remainingVolume : ℚ
  /-- Volume and funds of each listed trade. -/
  trades : List (ℚ × ℚ)
  side : Option Side
  price : ℚ
  volume : ℚ
deriving DecidableEq, Repr

/-- What happens to one Korean order. -/
structure KoreanReply where
  credentialsSet : Bool := true
  /-- The submission's answer; `none` when it failed or could not be parsed. -/
  response : Option OrderBody := none
  /-- Bithumb's private-WebSocket fill event: executed volume and funds. -/
  cachedFill : Option (ℚ × ℚ) := none
  /-- The REST order queries in order; `none` is a failed or unparsable answer. -/
  polls : List (Option OrderBody) := []
  /-- Ghost: coins executed and their average price. -/
  executed : ℚ := 0
  price : ℚ := 0
deriving DecidableEq, Repr

/-- Total volume and funds of the trades that report both. -/
def tradeTotals : List (ℚ × ℚ) → ℚ × ℚ
  | [] => (0, 0)
  | (volume, funds) :: rest =>
    let total := tradeTotals rest
    if 0 < volume ∧ 0 < funds then (volume + total.1, funds + total.2) else total

/-- `parse_upbit_order_status` (upbit.cpp:116-132). -/
def parseUpbitOrderStatus (state : BodyState) (executedVolume remainingVolume : ℚ) : OrderStatus :=
  match state with
  | .done => .filled
  | .cancel => if 0 < executedVolume then .partiallyFilled else .cancelled
  | .wait | .watch =>
    if 0 < executedVolume ∧ 0 < remainingVolume then .partiallyFilled else .new
  | .other | .absent => .rejected

/-- `populate_upbit_order_from_body` (upbit.cpp:134-200); `none` when it returns `false`. -/
def populateUpbitOrderFromBody (body : Option OrderBody) (order : Order) : Option Order :=
  match body with
  | none => none
  | some b =>
    if b.uuid.isEmpty then none
    else
      let total := tradeTotals b.trades
      some { order with
        exchange := .upbit
        orderIdStr := b.uuid
        filledQuantity := if 0 < b.executedVolume then b.executedVolume else total.1
        averagePrice := if 0 < total.1 ∧ 0 < total.2 then total.2 / total.1 else order.averagePrice
        status := parseUpbitOrderStatus b.state b.executedVolume b.remainingVolume
        side := b.side.getD order.side
        price := if 0 < b.price then b.price else order.price
        quantity := if 0 < b.volume then b.volume else order.quantity }

/-- The common end of both Upbit submissions: an order that the response does not show as
dead is treated as fill-pending (upbit.cpp:722-734, 780-792). -/
def finishUpbitSubmission (r : KoreanReply) (order : Order) : Order :=
  match populateUpbitOrderFromBody r.response order with
  | none => { order with status := .rejected }
  | some updated =>
    match updated.status with
    | .cancelled | .rejected | .expired => updated
    | _ => { updated with status := .filled }

/-- `UpbitExchange::place_market_order`, sells only (upbit.cpp:671-735). -/
def upbitPlaceMarketSell (r : KoreanReply) (quantity : ℚ) : Placed :=
  if quantity ≤ 0 ∨ r.credentialsSet = false then
    ⟨{ exchange := .upbit, status := .rejected }, []⟩
  else
    ⟨finishUpbitSubmission r { exchange := .upbit, side := .sell, quantity := quantity },
      [⟨.korean, .sell, r.executed, r.price⟩]⟩

/-- `UpbitExchange::place_market_buy_cost`: the KRW cost goes into `price`, `quantity` stays
unset (upbit.cpp:737-793). -/
def upbitPlaceMarketBuyCost (r : KoreanReply) (cost : ℚ) : Placed :=
  let normalizedCost : ℚ := ⌊cost⌋
  if normalizedCost < TradingConfig.minOrderKrw ∨ r.credentialsSet = false then
    ⟨{ exchange := .upbit, status := .rejected }, []⟩
  else
    ⟨finishUpbitSubmission r { exchange := .upbit, side := .buy, price := normalizedCost },
      [⟨.korean, .buy, r.executed, r.price⟩]⟩

/-- `BithumbExchange::place_market_order`; for a buy `quantity` is the KRW cost
(bithumb.cpp:710-789). -/
def bithumbPlaceMarketOrder (r : KoreanReply) (side : Side) (quantity : ℚ) : Placed :=
  let order : Order := { exchange := .bithumb, side := side, quantity := quantity }
  let order : Order :=
    match r.response with
    | none => { order with status := .rejected }
    | some b =>
      { order with
        orderIdStr := b.uuid
        status :=
          match b.state with
          | .wait | .watch | .done | .absent => .filled
          | .cancel => .cancelled
          | .other => .rejected }
  ⟨order, [⟨.korean, side, r.executed, r.price⟩]⟩

/-- `BithumbExchange::place_market_buy_cost` (bithumb.cpp:791-801). -/
def bithumbPlaceMarketBuyCost (r : KoreanReply) (cost : ℚ) : Placed :=
  if cost < TradingConfig.minOrderKrw then ⟨{ status := .rejected }, []⟩
  else bithumbPlaceMarketOrder r .buy cost

/-- `OrderManager::execute_korean_buy` (order_manager.cpp:1984-1993). -/
def executeKoreanBuy (ex : Exchange) (r : KoreanReply) (krwAmount : ℚ) : Placed :=
  match ex with
  | .bithumb => bithumbPlaceMarketBuyCost r krwAmount
  | .upbit => upbitPlaceMarketBuyCost r krwAmount
  | _ => ⟨{ status := .rejected }, []⟩

/-- `OrderManager::execute_korean_sell` (order_manager.cpp:2006-2015). -/
def executeKoreanSell (ex : Exchange) (r : KoreanReply) (quantity : ℚ) : Placed :=
  match ex with
  | .bithumb => bithumbPlaceMarketOrder r .sell quantity
  | .upbit => upbitPlaceMarketSell r quantity
  | _ => ⟨{ status := .rejected }, []⟩

/-- One successful answer of `query_order_detail_v1` (bithumb.cpp:1385-1446). -/
def queryOrderDetailV1 (body : Option OrderBody) (order : Order) : Option Order :=
  match body with
  | none => none
  | some b =>
    if b.executedVolume ≤ 0 then none
    else
      let total := tradeTotals b.trades
      some { order with
        filledQuantity := if 0 < total.1 then total.1 else b.executedVolume
        averagePrice := if 0 < total.1 ∧ 0 < total.2 then total.2 / total.1 else 0 }

/-- The retry loop of `query_order_detail` over `query_order_detail_v1`. -/
def pollBithumbDetail (order : Order) : List (Option OrderBody) → Order
  | [] => order
  | body :: rest =>
    match queryOrderDetailV1 body order with
    | some updated => updated
    | none => pollBithumbDetail order rest

/-- `BithumbExchange::query_order_detail`: the cached fill event, else seven REST attempts
(bithumb.cpp:1346-1383, 1448-1466). -/
def bithumbQueryOrderDetail (r : KoreanReply) (order : Order) : Order :=
  match r.cachedFill with
  | some (volume, funds) =>
    { order with averagePrice := funds / volume, filledQuantity := volume }
  | none => pollBithumbDetail order (r.polls.take 7)

/-- The polling loop of `UpbitExchange::query_order_detail`: the order is overwritten by
each answer, and only a final status or a failed query ends the loop (upbit.cpp:889-924). -/
def pollUpbitDetail (order : Order) : List (Option OrderBody) → Order
  | [] => order
  | body :: rest =>
    match populateUpbitOrderFromBody body order with
    | none => order
    | some updated =>
      match updated.status with
      | .filled | .cancelled | .rejected | .expired => updated
      | _ => pollUpbitDetail updated rest

/-- `UpbitExchange::query_order_detail` (upbit.cpp:880-925). -/
def upbitQueryOrderDetail (r : KoreanReply) (order : Order) : Order :=
  if order.orderIdStr.isEmpty ∨ r.credentialsSet = false then order
  else pollUpbitDetail order (r.polls.take 20)

/-- `OrderManager::query_korean_fill` (order_manager.cpp:2061-2072). -/
def queryKoreanFill (ex : Exchange) (r : KoreanReply) (order : Order) : Order :=
  if order.orderIdStr.isEmpty || order.status ≠ .filled then order
  else
    match ex with
    | .bithumb => bithumbQueryOrderDetail r order
    | .upbit => upbitQueryOrderDetail r order
    | _ => order

/-! ## What the order manager reads from a queried order -/

/-- `resolved_fill_quantity` (order_manager.cpp:259-264). -/
def resolvedFillQuantity (order : Order) : ℚ :=
  if 0 < order.filledQuantity then order.filledQuantity
  else if 0 < order.quantity then order.quantity else 0

/-- `resolved_fill_price` (order_manager.cpp:266-268). -/
def resolvedFillPrice (order : Order) (fallback : ℚ) : ℚ :=
  if 0 < order.averagePrice then order.averagePrice else fallback

/-- `quantities_match` (order_manager.cpp:270-276). -/
def quantitiesMatch (lhs rhs : ℚ) : Bool :=
  let scale := max |lhs| |rhs|
  if scale ≤ 0 then true
  else decide (|lhs - rhs| / scale ≤ TradingConfig.hedgeQuantityToleranceRatio)

/-- `flatten_extra_korean_long`: the market sell and its fill query; the flag is the
returned success (order_manager.cpp:2028-2038). -/
def flattenExtraKoreanLong (ex : Exchange) (r : KoreanReply) (quantity : ℚ) : Bool × Placed :=
  let placed := executeKoreanSell ex r quantity
  if placed.order.status ≠ .filled then (false, placed)
  else
    let order := queryKoreanFill ex r placed.order
    (decide (0 < resolvedFillQuantity order), ⟨order, placed.trades⟩)

/-- `flatten_extra_foreign_short` (order_manager.cpp:2040-2050). -/
def flattenExtraForeignShort (ex : Exchange) (r : ForeignReply) (quantity : ℚ) : Bool × Placed :=
  let placed := executeForeignCover ex r quantity
  if placed.order.status ≠ .filled then (false, placed)
  else
    let order := queryForeignFill ex r placed.order
    (decide (0 < resolvedFillQuantity order), ⟨order, placed.trades⟩)

end SpotRelay.Model
