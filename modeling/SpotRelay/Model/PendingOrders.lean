import Mathlib.Data.List.AList
import SpotRelay.Model.TradeSocket

/-!
# The pending orders of the Bybit trade socket

Any number of `place_order_sync` calls beside the socket's handlers (bybit_trade_ws.cpp:29-43,
77-219, 241-248).  A call is a number and its request id is what `generate_uuid` gave it.  Each
block under `pending_mutex_` is one step, and so is each access outside of one.
-/

set_option autoImplicit false

namespace SpotRelay.Model

/-! ## Messages -/

/-- What simdjson says to a look-up by name followed by a typed read. -/
inductive MessageField (α : Type)
  /-- The look-up ends with an error. -/
  | absent
  /-- The read throws. -/
  | mistyped
  | value (a : α)
deriving DecidableEq, Repr

/-- A read that keeps its default where the look-up fails; `none` is an exception. -/
def MessageField.getOr {α : Type} (default : α) : MessageField α → Option α
  | .absent => some default
  | .mistyped => none
  | .value a => some a

/-- The fields of a message of the trade socket that its handler asks for. -/
structure TradeMessage where
  op : MessageField String := .absent
  success : MessageField Bool := .absent
  reqId : MessageField String := .absent
  retCode : MessageField ℤ := .absent
  /-- `data.orderId`. -/
  orderId : MessageField String := .absent
  retMsg : MessageField String := .absent
deriving DecidableEq, Repr

/-- The result in an answer to `order.create`; the return code is cut to an `int`. -/
def TradeMessage.placeOrderResult (m : TradeMessage) : Option PlaceOrderResult := do
  let retCode := (← m.retCode.getOr (-1)).bmod (2 ^ 32)
  if retCode = 0 then
    let orderId ← m.orderId.getOr ""
    return { success := true, orderId := orderId, retCode := retCode }
  else
    let errorMsg ← m.retMsg.getOr ""
    return { success := false, errorMsg := errorMsg, retCode := retCode }

/-! ## Calls -/

/-- The arguments of `place_order_sync`. -/
structure OrderRequest where
  symbol : String
  side : Side
  qty : ℚ
  isLeverage : Bool
deriving DecidableEq, Repr

/-- `%.8f`: the nearest multiple of the last place, to even in the middle. -/
def formatQty (qty : ℚ) : String :=
  let scaled : ℚ := |qty| * 10 ^ 8
  let below := ⌊scaled⌋.toNat
  let rest := scaled - below
  let units := if rest < 1 / 2 ∨ rest = 1 / 2 ∧ below % 2 = 0 then below else below + 1
  let decimals := toString (units % 10 ^ 8)
  (if qty < 0 then "-" else "") ++ toString (units / 10 ^ 8) ++ "." ++
    String.ofList (List.replicate (8 - decimals.length) '0') ++ decimals

/-- The request text of `place_order_sync`. -/
def OrderRequest.text (r : OrderRequest) (reqId : String) (timestampMs : ℤ) : String :=
  "\x7b\"reqId\":\"" ++ reqId ++ "\",\"header\":\x7b\"X-BAPI-TIMESTAMP\":\"" ++
    toString timestampMs ++ "\"\x7d,\"op\":\"order.create\"," ++
    "\"args\":[\x7b\"category\":\"spot\",\"symbol\":\"" ++ r.symbol ++ "\",\"side\":\"" ++
    (if r.side = .buy then "Buy" else "Sell") ++
    "\",\"orderType\":\"Market\",\"qty\":\"" ++ formatQty r.qty ++ "\"," ++
    (if r.isLeverage then "\"isLeverage\":1," else "") ++
    "\"orderFilter\":\"Order\",\"marketUnit\":\"baseCoin\"\x7d]\x7d"

/-- The size of the buffer that the request is printed into. -/
def requestBufferSize : ℕ := 512

/-- The order of a call before its outcome is known. -/
def OrderRequest.order (r : OrderRequest) : Order :=
  { exchange := .bybit, side := r.side, quantity := r.qty }

def OrderRequest.rejected (r : OrderRequest) : Order := { r.order with status := .rejected }

/-- The order of a call that found its future ready. -/
def OrderRequest.answered (r : OrderRequest) (result : PlaceOrderResult) : Order :=
  if result.success then { r.order with status := .filled, orderIdStr := result.orderId }
  else r.rejected

/-- Where a call of `place_order_sync` is. -/
inductive OrderCallPhase
  | idle
  /-- It found `connected_` set. -/
  | connected (r : OrderRequest)
  /-- It found `authenticated_` set too. -/
  | registering (r : OrderRequest)
  /-- Its promise was offered to `pending_orders_`. -/
  | formatting (r : OrderRequest)
  /-- The request did not fit its buffer. -/
  | overflowed (r : OrderRequest)
  /-- In `future.wait_for`. -/
  | waiting (r : OrderRequest)
  /-- `wait_for` ended with a timeout. -/
  | timedOut (r : OrderRequest)
  | returned (order : Order)
deriving DecidableEq, Repr

/-- A call of `set_value` on a promise. -/
structure Delivery where
  /-- The `reqId` of the message that brought the result; the disconnect callback has none. -/
  answerTo : Option String
  result : PlaceOrderResult
deriving DecidableEq, Repr

structure OrderCall where
  phase : OrderCallPhase := .idle
  /-- The `set_value` calls on the promise so far. -/
  promise : List Delivery := []
deriving DecidableEq, Repr

def OrderCall.enter (c : OrderCall) (phase : OrderCallPhase) : OrderCall := { c with phase := phase }

def OrderCall.setValue (c : OrderCall) (d : Delivery) : OrderCall :=
  { c with promise := c.promise ++ [d] }

/-! ## The socket -/

/-- `pending_orders_`: the call whose promise is kept under a request id. -/
abbrev PendingOrders := AList fun _ : String => ℕ

/-- `emplace`: an entry that is there stays. -/
def PendingOrders.emplace (pending : PendingOrders) (reqId : String) (call : ℕ) : PendingOrders :=
  if reqId ∈ pending then pending else AList.insert reqId call pending

structure OrderSocket where
  connected : Bool := false
  authenticated : Bool := false
  pendingOrders : PendingOrders := ∅
  calls : ℕ → OrderCall := fun _ => {}
  /-- The requests given to `send`. -/
  sent : List String := []

/-- What the thread of a call does next. -/
inductive OrderCallEvent
  | start (r : OrderRequest)
  /-- Its next access, at the time the clock shows. -/
  | proceed (timestampMs : ℤ)
  /-- `ORDER_TIMEOUT_MS` expires in `wait_for`. -/
  | timeout
deriving DecidableEq, Repr

inductive OrderSocketEvent
  /-- The connect callback, on success. -/
  | connected
  /-- The stores at the start of the disconnect callback, and those of `disconnect`. -/
  | flagsCleared
  /-- The locked block of the disconnect callback. -/
  | pendingCancelled
  | message (m : TradeMessage)
  | call (call : ℕ) (e : OrderCallEvent)
deriving DecidableEq, Repr

namespace OrderSocket

def goTo (s : OrderSocket) (call : ℕ) (phase : OrderCallPhase) : OrderSocket :=
  { s with calls := Function.update s.calls call ((s.calls call).enter phase) }

/-- `resolve_pending`. -/
def resolvePending (s : OrderSocket) (reqId : String) (result : PlaceOrderResult) : OrderSocket :=
  match s.pendingOrders.lookup reqId with
  | none => s
  | some call =>
    { s with
      pendingOrders := s.pendingOrders.erase reqId
      calls := Function.update s.calls call ((s.calls call).setValue ⟨some reqId, result⟩) }

/-- What the disconnect callback sets a promise to. -/
def cancelled : Delivery :=
  { answerTo := none, result := { success := false, errorMsg := "WebSocket disconnected" } }

/-- The loop of the disconnect callback over the pending promises. -/
def cancelAll (calls : ℕ → OrderCall) (pending : List (Sigma fun _ : String => ℕ)) :
    ℕ → OrderCall :=
  pending.foldl (fun calls entry =>
    Function.update calls entry.2 ((calls entry.2).setValue cancelled)) calls

/-- The locked block of the disconnect callback. -/
def cancelPending (s : OrderSocket) : OrderSocket :=
  { s with
    pendingOrders := ∅
    calls := cancelAll s.calls s.pendingOrders.entries }

/-- `on_message`; a read that throws leaves the rest of the handler undone. -/
def onMessage (s : OrderSocket) (m : TradeMessage) : OrderSocket :=
  match m.op with
  | .value "auth" => if m.success = .value true then { s with authenticated := true } else s
  | .value "order.create" =>
    match m.reqId, m.placeOrderResult with
    | .value reqId, some result => s.resolvePending reqId result
    | _, _ => s
  | _ => s

variable (generateUuid : ℕ → String)

/-- One step of `place_order_sync`. -/
def placeOrderSync (s : OrderSocket) (call : ℕ) (e : OrderCallEvent) : OrderSocket :=
  match (s.calls call).phase, e with
  | .idle, .start r => s.goTo call (if s.connected then .connected r else .returned r.rejected)
  | .connected r, .proceed _ =>
    s.goTo call (if s.authenticated then .registering r else .returned r.rejected)
  | .registering r, .proceed _ =>
    { s.goTo call (.formatting r) with
      pendingOrders := s.pendingOrders.emplace (generateUuid call) call }
  | .formatting r, .proceed timestampMs =>
    let text := r.text (generateUuid call) timestampMs
    if requestBufferSize ≤ text.utf8ByteSize then s.goTo call (.overflowed r)
    else { s.goTo call (.waiting r) with sent := s.sent ++ [text] }
  | .waiting r, .proceed _ =>
    match (s.calls call).promise with
    | [] => s
    | d :: _ => s.goTo call (.returned (r.answered d.result))
  | .waiting r, .timeout => if (s.calls call).promise = [] then s.goTo call (.timedOut r) else s
  | .overflowed r, .proceed _ | .timedOut r, .proceed _ =>
    { s.goTo call (.returned r.rejected) with
      pendingOrders := s.pendingOrders.erase (generateUuid call) }
  | _, _ => s

def step (s : OrderSocket) : OrderSocketEvent → OrderSocket
  | .connected => { s with connected := true }
  | .flagsCleared => { s with connected := false, authenticated := false }
  | .pendingCancelled => s.cancelPending
  | .message m => s.onMessage m
  | .call call e => s.placeOrderSync generateUuid call e

end OrderSocket

/-- A run of the socket and its callers. -/
def runOrderSocket (generateUuid : ℕ → String) (events : List OrderSocketEvent) : OrderSocket :=
  events.foldl (OrderSocket.step generateUuid) {}

end SpotRelay.Model
