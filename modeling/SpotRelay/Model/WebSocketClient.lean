import SpotRelay.Model.TradeSocket

/-!
# The connection of a WebSocket client and the trade socket on top

The handlers of `WebSocketClient` that change its state (websocket_client.cpp:57-103, 229-287,
334-449) and the callbacks of the trade sockets that they call (bybit_trade_ws.cpp:6-60,
okx_trade_ws.cpp:7-61).  One handler is one step.  What an operation of Boost.Beast ends with,
and whether the stream counts as open, comes with the event.
-/

set_option autoImplicit false

namespace SpotRelay.Model

/-- `ConnectionState`. -/
inductive ConnectionState
  | disconnected
  | connecting
  | connected
  | reconnecting
  | failed
deriving DecidableEq, Repr

/-- The error codes that the handlers tell apart. -/
inductive IoError
  /-- `websocket::error::closed`. -/
  | closed
  /-- `net::error::operation_aborted`. -/
  | aborted
  | other
deriving DecidableEq, Repr

/-- A call of `on_connect_` or `on_disconnect_`. -/
inductive SocketCallback
  | onConnect (success : Bool)
  | onDisconnect (reason : String)
deriving DecidableEq, Repr

structure WebSocketClient where
  state : ConnectionState := .disconnected
  shouldReconnect : Bool := true
  reconnectAttempts : ℕ := 0
  /-- The connection attempts between `do_resolve` and `on_handshake`. -/
  opening : ℕ := 0
  /-- The waits on `reconnect_timer_` that have not ended. -/
  waits : ℕ := 0
  /-- The streams with an `async_read` outstanding. -/
  reads : ℕ := 0
  /-- The `async_close` calls outstanding. -/
  closes : ℕ := 0
deriving DecidableEq, Repr

/-- What a handler of the client, or a call of its user, is about. -/
inductive ConnectionEvent
  | connect (validUrl : Bool)
  /-- A resolution, a connection or a handshake fails. -/
  | connectError (ec : IoError)
  | handshake
  | readError (ec : IoError)
  | writeError
  | disconnect (isOpen : Bool)
  | close
  | reconnectTimer (cancelled : Bool)
deriving DecidableEq, Repr

namespace WebSocketClient

/-! ## Handlers -/

/-- `connect`. -/
def connect (c : WebSocketClient) (validUrl : Bool) : WebSocketClient × List SocketCallback :=
  if c.state = .connected ∨ c.state = .connecting then (c, [])
  else if !validUrl then (c, [.onConnect false])
  else
    ({ c with
        state := .connecting
        reconnectAttempts := 0
        shouldReconnect := true
        opening := c.opening + 1 }, [])

/-- `schedule_reconnect`. -/
def scheduleReconnect (c : WebSocketClient) : WebSocketClient :=
  if !c.shouldReconnect then { c with state := .failed }
  else { c with reconnectAttempts := c.reconnectAttempts + 1, waits := c.waits + 1 }

/-- `reconnect`. -/
def reconnect (c : WebSocketClient) : WebSocketClient :=
  if !c.shouldReconnect then c else { c with state := .reconnecting }.scheduleReconnect

/-- `disconnect`; `isOpen` is what `ws_->is_open()` says.  A wait that it cancels still ends. -/
def disconnect (c : WebSocketClient) (isOpen : Bool) : WebSocketClient :=
  let c := { c with shouldReconnect := false }
  if c.state = .disconnected then c
  else if isOpen then { c with state := .disconnected, closes := c.closes + 1 }
  else { c with state := .disconnected }

/-- `handle_error` of an operation other than a write. -/
def handleError (c : WebSocketClient) (ec : IoError) : WebSocketClient :=
  if ec = .aborted then c else c.reconnect

/-- `on_handshake` without an error; the earlier handlers of a connection only pass on. -/
def onHandshake (c : WebSocketClient) : WebSocketClient × List SocketCallback :=
  ({ c with
      state := .connected
      reconnectAttempts := 0
      opening := c.opening - 1
      reads := c.reads + 1 }, [.onConnect true])

/-- `on_read` with an error. -/
def onReadError (c : WebSocketClient) (ec : IoError) : WebSocketClient × List SocketCallback :=
  let c := { c with reads := c.reads - 1 }
  if ec = .closed then (c.reconnect, [.onDisconnect "Server closed connection"])
  else (c.handleError ec, [])

/-- `on_write` with an error: `handle_error` does not reconnect for a write, the handler does. -/
def onWriteError (c : WebSocketClient) : WebSocketClient := c.reconnect

/-- `on_close`. -/
def onClose (c : WebSocketClient) : WebSocketClient × List SocketCallback :=
  ({ c with closes := c.closes - 1 }, [.onDisconnect "Connection closed"])

/-- `on_reconnect_timer`. -/
def onReconnectTimer (c : WebSocketClient) (cancelled : Bool) : WebSocketClient :=
  let c := { c with waits := c.waits - 1 }
  if cancelled then c else { c with state := .connecting, opening := c.opening + 1 }

/-- A handler runs only for an operation that is outstanding; the writes are not counted here. -/
def handle (c : WebSocketClient) : ConnectionEvent → WebSocketClient × List SocketCallback
  | .connect validUrl => c.connect validUrl
  | .connectError ec =>
    if 0 < c.opening then ({ c with opening := c.opening - 1 }.handleError ec, []) else (c, [])
  | .handshake => if 0 < c.opening then c.onHandshake else (c, [])
  | .readError ec => if 0 < c.reads then c.onReadError ec else (c, [])
  | .writeError => (c.onWriteError, [])
  | .disconnect isOpen => (c.disconnect isOpen, [])
  | .close => if 0 < c.closes then c.onClose else (c, [])
  | .reconnectTimer cancelled => if 0 < c.waits then (c.onReconnectTimer cancelled, []) else (c, [])

/-- The event says that the stream of the session has ended: its read or its write has failed.  A
read that is aborted while another one is outstanding is that of an earlier stream. -/
def streamEnds (c : WebSocketClient) : ConnectionEvent → Bool
  | .readError .aborted => decide (c.reads = 1)
  | .readError _ => decide (0 < c.reads)
  | .writeError => true
  | _ => false

end WebSocketClient

/-! ## The trade socket -/

/-- An entry of `pending_orders_`. -/
structure PendingOrder where
  reqId : String
  /-- The session that the order was placed in (ghost). -/
  session : ℕ
deriving DecidableEq, Repr

structure TradeWs where
  connected : Bool := false
  authenticated : Bool := false
  pendingOrders : List PendingOrder := []
  /-- The promises that have been set (ghost). -/
  resolved : List (String × PlaceOrderResult) := []
  /-- The sessions so far, that is the calls of `on_connect_(true)` (ghost). -/
  session : ℕ := 0
  /-- The session of the last successful answer to an authentication (ghost). -/
  authSession : ℕ := 0
  /-- The calls of `on_disconnect_` so far (ghost). -/
  disconnectCalls : ℕ := 0
  /-- The calls there were before the handler in which the session was lost, that is its stream
  ended or the state left `Connected`, until the next session begins (ghost). -/
  leftAt : Option ℕ := none
  /-- For each session that was lost before the next one began, the calls of `on_disconnect_`
  since then (ghost). -/
  lossCalls : List ℕ := []
deriving DecidableEq, Repr

namespace TradeWs

/-- `is_connected`. -/
def isConnected (t : TradeWs) : Bool := t.connected && t.authenticated

/-- The connect callback; the ghost fields close the account of the session before. -/
def onConnect (t : TradeWs) (success : Bool) : TradeWs :=
  if success then
    { t with
      connected := true
      session := t.session + 1
      leftAt := none
      lossCalls := t.lossCalls ++ (t.leftAt.map fun before => t.disconnectCalls - before).toList }
  else t

/-- What a pending order is failed with. -/
def disconnectedResult : PlaceOrderResult := { success := false, errorMsg := "WebSocket disconnected" }

/-- The disconnect callback. -/
def onDisconnect (t : TradeWs) : TradeWs :=
  { t with
    connected := false
    authenticated := false
    pendingOrders := []
    resolved := t.resolved ++ t.pendingOrders.map fun order => (order.reqId, disconnectedResult)
    disconnectCalls := t.disconnectCalls + 1 }

def callback (t : TradeWs) : SocketCallback → TradeWs
  | .onConnect success => t.onConnect success
  | .onDisconnect _ => t.onDisconnect

/-- The answer to the authentication request. -/
def onAuth (t : TradeWs) (success : Bool) : TradeWs :=
  if success then { t with authenticated := true, authSession := t.session } else t

/-- `resolve_pending`. -/
def resolvePending (t : TradeWs) (reqId : String) (result : PlaceOrderResult) : TradeWs :=
  if t.pendingOrders.any fun order => order.reqId = reqId then
    { t with
      pendingOrders := t.pendingOrders.filter fun order => order.reqId ≠ reqId
      resolved := t.resolved ++ [(reqId, result)] }
  else t

/-- `place_order_sync` up to its wait; the request itself is not followed here. -/
def placeOrder (t : TradeWs) (reqId : String) : TradeWs :=
  if t.isConnected then { t with pendingOrders := t.pendingOrders ++ [⟨reqId, t.session⟩] } else t

/-- The wait of `place_order_sync` ends without an answer. -/
def orderTimeout (t : TradeWs) (reqId : String) : TradeWs :=
  { t with pendingOrders := t.pendingOrders.filter fun order => order.reqId ≠ reqId }

end TradeWs

/-! ## Runs -/

structure TradeSession where
  client : WebSocketClient := {}
  trade : TradeWs := {}
deriving DecidableEq, Repr

inductive SocketEvent
  | connection (e : ConnectionEvent)
  /-- `disconnect` of the trade socket. -/
  | disconnect (isOpen : Bool)
  | authResponse (success : Bool)
  | orderResponse (reqId : String) (result : PlaceOrderResult)
  | placeOrder (reqId : String)
  | orderTimeout (reqId : String)
deriving DecidableEq, Repr

namespace TradeSession

/-- The connection is up, and its stream has not ended. -/
def InSession (s : TradeSession) : Prop :=
  s.client.state = .connected ∧ s.trade.leftAt = none

instance (s : TradeSession) : Decidable s.InSession := inferInstanceAs (Decidable (_ ∧ _))

/-- The callbacks of a handler that takes the client to `c`, and the account of the session that is
lost with it. -/
def handled (s : TradeSession) (ended : Bool) (c : WebSocketClient)
    (callbacks : List SocketCallback) : TradeSession :=
  let trade := callbacks.foldl TradeWs.callback s.trade
  { client := c
    trade :=
      if s.InSession ∧ (ended = true ∨ c.state ≠ .connected) then
        { trade with leftAt := some s.trade.disconnectCalls }
      else trade }

def handle (s : TradeSession) (e : ConnectionEvent) : TradeSession :=
  let result := s.client.handle e
  s.handled (s.client.streamEnds e) result.1 result.2

/-- One handler of the client, or one message or call of the trade socket. -/
def step (s : TradeSession) : SocketEvent → TradeSession
  | .connection e => s.handle e
  | .disconnect isOpen =>
    let s := s.handle (.disconnect isOpen)
    { s with trade := { s.trade with connected := false, authenticated := false } }
  | .authResponse success =>
    if 0 < s.client.reads then { s with trade := s.trade.onAuth success } else s
  | .orderResponse reqId result =>
    if 0 < s.client.reads then { s with trade := s.trade.resolvePending reqId result } else s
  | .placeOrder reqId => { s with trade := s.trade.placeOrder reqId }
  | .orderTimeout reqId => { s with trade := s.trade.orderTimeout reqId }

end TradeSession

def runTradeSession (events : List SocketEvent) : TradeSession :=
  events.foldl TradeSession.step {}

end SpotRelay.Model
