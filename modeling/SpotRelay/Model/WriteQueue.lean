import Mathlib.Logic.Function.Basic
import SpotRelay.Model.WebSocketClient

/-!
# The write queue of a WebSocket client

`send`, `do_write`, `on_write` and the connection handlers of `WebSocketClient`
(websocket_client.cpp:57-130, 229-332, 370-449), one operation on an atomic or on the queue a
step.  A task is a call of `send` together with the `do_write` chain that it dispatches, or a call
of `connect`, `disconnect` or `reconnect`; tasks take their steps in any order.  What a handler does
between two such operations, as `async_write` after the pop, belongs to the first.
-/

set_option autoImplicit false

namespace SpotRelay.Model

/-- A message in `write_queue_`, with the session it was pushed in (ghost). -/
structure QueuedMessage where
  text : String
  session : ℕ
deriving DecidableEq, Repr

/-- The operation that a task does next. -/
inductive TaskPhase
  | idle
  /-- `send`, after it found the state `Connected`: `try_push`. -/
  | pushing (text : String)
  /-- `send`: the exchange of `is_writing_`. -/
  | claiming
  /-- `do_write` is dispatched, or goes round its loop: `try_pop`. -/
  | popping
  /-- `do_write` found the queue empty: the store to `is_writing_`. -/
  | clearing
  /-- `do_write`: `empty`. -/
  | rechecking
  /-- `do_write`: the exchange of `is_writing_`. -/
  | reclaiming
  /-- An `async_write` is outstanding. -/
  | writing
  /-- `on_write` with an error: the store to `is_writing_`. -/
  | releasing
  /-- `reconnect`: the load of `should_reconnect_`. -/
  | reconnecting
  /-- `reconnect`: the store to `state_`. -/
  | leaving
  /-- `schedule_reconnect`: the load of `should_reconnect_`. -/
  | scheduling
  /-- `schedule_reconnect` may not: the store to `state_`. -/
  | givingUp
  /-- `connect`: the second load of `state_`. -/
  | connecting
  /-- `connect`: the store to `state_`. -/
  | starting
  /-- `connect`: the store to `should_reconnect_`, and `do_resolve`. -/
  | resolving
  /-- `disconnect`: the load of `state_`. -/
  | disconnecting
  /-- `disconnect`: the store to `state_`. -/
  | dropping
deriving DecidableEq, Repr

/-- A message given to `async_write`, with the session of the stream (ghost). -/
structure Transmission where
  message : QueuedMessage
  session : ℕ
deriving DecidableEq, Repr

structure WriteState where
  client : WebSocketClient := {}
  writeQueue : List QueuedMessage := []
  isWriting : Bool := false
  phase : ℕ → TaskPhase := fun _ => .idle
  /-- The sessions so far (ghost). -/
  session : ℕ := 0
  transmitted : List Transmission := []

/-- What starts a task, ends an operation of the stream, or lets a task go on. -/
inductive WriteEvent
  /-- `send`: the load of `state_`. -/
  | send (task : ℕ) (text : String)
  /-- `connect` of a valid URL: the first load of `state_`. -/
  | connect (task : ℕ)
  /-- `disconnect`: the store to `should_reconnect_`. -/
  | disconnect (task : ℕ)
  /-- A resolution, a connection or a handshake fails. -/
  | connectFailed (task : ℕ)
  | readFailed (task : ℕ)
  | handshake
  | reconnectTimer (cancelled : Bool)
  | written (task : ℕ)
  | writeFailed (task : ℕ)
  /-- The task does its next operation. -/
  | run (task : ℕ)
deriving DecidableEq, Repr

/-- The capacity of `write_queue_`. -/
def writeQueueCapacity : ℕ := 256

namespace WriteState

def goTo (s : WriteState) (task : ℕ) (phase : TaskPhase) : WriteState :=
  { s with phase := Function.update s.phase task phase }

/-- The next operation of a task. -/
def run (s : WriteState) (task : ℕ) : WriteState :=
  match s.phase task with
  | .idle | .writing => s
  | .pushing text =>
    if s.writeQueue.length < writeQueueCapacity then
      { s with writeQueue := s.writeQueue ++ [QueuedMessage.mk text s.session] }.goTo task .claiming
    else s.goTo task .idle
  | .claiming =>
    if s.isWriting then s.goTo task .idle else { s with isWriting := true }.goTo task .popping
  | .popping =>
    match s.writeQueue with
    | [] => s.goTo task .clearing
    | message :: rest =>
      { s with
        writeQueue := rest
        transmitted := s.transmitted ++ [Transmission.mk message s.session] }.goTo task .writing
  | .clearing => { s with isWriting := false }.goTo task .rechecking
  | .rechecking =>
    if s.writeQueue.isEmpty then s.goTo task .idle else s.goTo task .reclaiming
  | .reclaiming =>
    if s.isWriting then s.goTo task .idle else { s with isWriting := true }.goTo task .popping
  | .releasing => { s with isWriting := false }.goTo task .reconnecting
  | .reconnecting =>
    if s.client.shouldReconnect then s.goTo task .leaving else s.goTo task .idle
  | .leaving => { s with client := { s.client with state := .reconnecting } }.goTo task .scheduling
  | .scheduling =>
    if s.client.shouldReconnect then
      { s with client := s.client.scheduleReconnect }.goTo task .idle
    else s.goTo task .givingUp
  | .givingUp => { s with client := { s.client with state := .failed } }.goTo task .idle
  | .connecting =>
    if s.client.state = .connecting then s.goTo task .idle else s.goTo task .starting
  | .starting => { s with client := { s.client with state := .connecting } }.goTo task .resolving
  | .resolving =>
    { s with
      client :=
        { s.client with
          reconnectAttempts := 0
          shouldReconnect := true
          opening := s.client.opening + 1 } }.goTo task .idle
  | .disconnecting =>
    if s.client.state = .disconnected then s.goTo task .idle else s.goTo task .dropping
  | .dropping => { s with client := { s.client with state := .disconnected } }.goTo task .idle

def step (s : WriteState) : WriteEvent → WriteState
  | .send task text =>
    if s.phase task = .idle ∧ s.client.state = .connected then s.goTo task (.pushing text) else s
  | .connect task =>
    if s.phase task = .idle ∧ s.client.state ≠ .connected then s.goTo task .connecting else s
  | .disconnect task =>
    if s.phase task = .idle then
      { s with client := { s.client with shouldReconnect := false } }.goTo task .disconnecting
    else s
  | .connectFailed task =>
    if s.phase task = .idle ∧ 0 < s.client.opening then
      { s with client := { s.client with opening := s.client.opening - 1 } }.goTo task .reconnecting
    else s
  | .readFailed task =>
    if s.phase task = .idle ∧ 0 < s.client.reads then
      { s with client := { s.client with reads := s.client.reads - 1 } }.goTo task .reconnecting
    else s
  | .handshake =>
    if 0 < s.client.opening then
      { s with client := s.client.onHandshake.1, session := s.session + 1 }
    else s
  | .reconnectTimer cancelled =>
    if 0 < s.client.waits then { s with client := s.client.onReconnectTimer cancelled } else s
  | .written task => if s.phase task = .writing then s.goTo task .popping else s
  | .writeFailed task => if s.phase task = .writing then s.goTo task .releasing else s
  | .run task => s.run task

end WriteState

def runWrites (events : List WriteEvent) : WriteState :=
  events.foldl WriteState.step {}

end SpotRelay.Model
