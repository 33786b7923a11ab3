import SpotRelay.Model.RestClient

/-!
# An order over the trade socket

`open_short` and `close_short` of the Bybit client and `open_short` of the OKX client try the
trade WebSocket first and fall back to REST when its order comes back `Rejected`
(bybit.cpp:446-584, okx.cpp:526-590).  `place_order_sync` registers a promise, sends the
request and waits for its acknowledgement (bybit_trade_ws.cpp:77-154, okx_trade_ws.cpp:84-175).

One call is a transition system: the caller's thread, the socket callbacks and the venue take
steps in any order.
-/

set_option autoImplicit false

namespace SpotRelay.Model

/-- The calls that have a socket path. -/
inductive MarginCall
  | bybitOpenShort
  | bybitCloseShort
  | okxOpenShort
deriving DecidableEq, Repr

/-- What a call submits. -/
structure Submission where
  exchange : Exchange
  side : Side
  adjQty : ℚ
deriving DecidableEq, Repr

/-- The normalised order of a call. -/
def MarginCall.submission (call : MarginCall) (r : ForeignReply) (quantity : ℚ) : Submission :=
  match call with
  | .bybitOpenShort => ⟨.bybit, .sell, normalizeOrderQty r.lot r.ticker quantity true⟩
  | .bybitCloseShort => ⟨.bybit, .buy, normalizeCloseQty r.lot quantity⟩
  | .okxOpenShort => ⟨.okx, .sell, normalizeOrderQty r.lot r.ticker quantity true⟩

/-- `PlaceOrderResult` (bybit_trade_ws.hpp:25-30). -/
structure PlaceOrderResult where
  success : Bool := false
  orderId : String := ""
  errorMsg : String := ""
  retCode : ℤ := -1
deriving DecidableEq, Repr

/-- What the socket does with the request of a call. -/
inductive SocketState
  /-- There is no trade socket, or it is not connected and authenticated. -/
  | unavailable
  /-- The connection was lost or the write queue is full, so `send` drops the message. -/
  | dropped
  | sent
deriving DecidableEq, Repr

/-- Where the calling thread is. -/
inductive CallPhase
  /-- In `future.wait_for`. -/
  | waiting
  /-- In `do_request` of the REST fallback, before the given attempt. -/
  | rest (attempt : ℕ)
  | returned (order : Order)
deriving DecidableEq, Repr

/-- The state of one call. -/
structure CallState where
  phase : CallPhase
  /-- The request has an entry in `pending_orders_`. -/
  pending : Bool := false
  /-- The value of the promise, once it is set. -/
  promise : Option PlaceOrderResult := none
  /-- The request is under way to the venue. -/
  inFlight : Bool := false
  /-- The venue's answer is under way to the socket. -/
  ack : Option PlaceOrderResult := none
  /-- Ghost: the market orders that the venue executed for this call. -/
  executions : ℕ := 0
deriving DecidableEq, Repr

/-- The steps of the parties. -/
inductive CallEvent
  /-- The venue accepts and executes the request of the socket. -/
  | venueExecutes (orderId : String)
  | venueRefuses (retCode : ℤ) (retMsg : String)
  | ackDelivered
  | ackLost
  /-- `ORDER_TIMEOUT_MS` expires in `wait_for`. -/
  | timeout
  | disconnect
  /-- The caller finds the future ready. -/
  | wake
  /-- One attempt of the REST fallback; the flag says whether the venue executed an order for
  it, which it does only for a request that it processed. -/
  | restAttempt (a : Attempt) (executed : Bool)
deriving DecidableEq, Repr

/-- The order of a call whose submission is answered with `ack`. -/
def Submission.order (sub : Submission) (ack : ForeignAck) : Order :=
  (submitForeign sub.exchange sub.side sub.adjQty { ack := ack }).order

/-- `resolve_pending`: an answer without a pending entry is dropped. -/
def CallState.resolvePending (s : CallState) (result : PlaceOrderResult) : CallState :=
  if s.pending then { s with promise := some result, pending := false } else s

variable (parse : String → ForeignAck) (sub : Submission)

/-- The answer of the REST fallback: `parse_order_response` of a successful response. -/
def restAck (response : HttpResponse) : ForeignAck :=
  if response.success then parse response.body else .rejected

/-- One pass of `do_request`, and the return of the call after the last one. -/
def restStep (attempt : ℕ) (a : Attempt) : CallPhase :=
  let tried := tryRequest attempt a
  if tried.2 = true ∨ maxRetries ≤ attempt + 1 then .returned (sub.order (restAck parse tried.1))
  else .rest (attempt + 1)

/-- One step of a call. -/
def callStep (s : CallState) (e : CallEvent) : CallState :=
  match e with
  | .venueExecutes orderId =>
    if s.inFlight then
      { s with
        inFlight := false
        ack := some { success := true, orderId := orderId, retCode := 0 }
        executions := s.executions + 1 }
    else s
  | .venueRefuses retCode retMsg =>
    if s.inFlight then
      { s with
        inFlight := false
        ack := some { success := false, errorMsg := retMsg, retCode := retCode } }
    else s
  | .ackDelivered =>
    match s.ack with
    | none => s
    | some result => { s with ack := none }.resolvePending result
  | .ackLost => { s with ack := none }
  | .timeout =>
    match s.phase, s.promise with
    | .waiting, none => { s with pending := false, phase := .rest 0 }
    | _, _ => s
  | .disconnect => s.resolvePending { success := false, errorMsg := "WebSocket disconnected" }
  | .wake =>
    match s.phase, s.promise with
    | .waiting, some result =>
      if result.success then { s with phase := .returned (sub.order (.accepted result.orderId)) }
      else { s with phase := .rest 0 }
    | _, _ => s
  | .restAttempt a executed =>
    match s.phase with
    | .rest attempt =>
      { s with
        phase := restStep parse sub attempt a
        executions := s.executions + if executed && a.processed then 1 else 0 }
    | _ => s

/-- The start of a call, up to its first wait. -/
def beginCall (call : MarginCall) (r : ForeignReply) (quantity : ℚ) (socket : SocketState) :
    CallState :=
  let sub := call.submission r quantity
  if sub.adjQty ≤ 0 then
    { phase := .returned { exchange := sub.exchange, side := sub.side, status := .rejected } }
  else if !r.marginReady then { phase := .returned (sub.order .rejected) }
  else
    match socket with
    | .unavailable => { phase := .rest 0 }
    | .dropped => { phase := .waiting, pending := true }
    | .sent => { phase := .waiting, pending := true, inFlight := true }

/-- A run of a call. -/
def runCall (call : MarginCall) (r : ForeignReply) (quantity : ℚ) (socket : SocketState)
    (es : List CallEvent) : CallState :=
  es.foldl (callStep parse (call.submission r quantity)) (beginCall call r quantity socket)

/-- The client function of a call, as the order manager sees it. -/
def MarginCall.place (call : MarginCall) (r : ForeignReply) (quantity : ℚ) : Placed :=
  match call with
  | .bybitOpenShort => openShort .bybit r quantity
  | .bybitCloseShort => SpotRelay.Model.bybitCloseShort r quantity
  | .okxOpenShort => openShort .okx r quantity

end SpotRelay.Model
