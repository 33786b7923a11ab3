import Mathlib.Logic.Function.Basic
import SpotRelay.Model.Types

/-!
# The subscriptions of the feeds

`subscribe_ticker`, `subscribe_orderbook` and `on_ws_connected` of the four venues
(bithumb.cpp:344-432, 904-955, bybit.cpp:201-281, 941-966, okx.cpp:233-308, 1001-1026,
upbit.cpp:274-302, 494-545) beside `WebSocketClient::send` and its connections.  Any number of
threads subscribe; `on_ws_connected` and `on_ws_disconnected` run on the strand of the client.  A
step is an access of what the threads share: the stored lists, the state of the client, `connected_`
or the write queue.
-/

set_option autoImplicit false

namespace SpotRelay.Model

/-- What a feed subscribes to. -/
inductive Channel
  | ticker
  | orderbook
deriving DecidableEq

/-- What the clients of the venues do differently. -/
structure FeedRules where
  /-- `BATCH_SIZE`, if the symbols are sent in batches. -/
  batchSize : Option ℕ
  /-- A subscription looks at `connected_` instead of the client's state. -/
  checksFlag : Bool
  /-- The order books are asked for again by a thread of their own. -/
  detachesOrderbooks : Bool
  /-- The tickers are asked for again only where there are no order books. -/
  orderbooksFirst : Bool

/-- The rules of each venue. -/
def feedRules : Exchange → FeedRules
  | .bithumb => ⟨some 30, false, true, false⟩
  | .bybit => ⟨some 10, false, false, false⟩
  | .okx => ⟨some 25, false, false, false⟩
  | .upbit => ⟨none, true, false, true⟩

/-- A call of `subscribe_ticker` or `subscribe_orderbook`. -/
inductive SubscribePhase
  | idle
  /-- The detached thread of Bithumb fetches its snapshots. -/
  | fetching (channel : Channel) (symbols : List SymbolId)
  | storing (channel : Channel) (symbols : List SymbolId)
  | checking (channel : Channel) (symbols : List SymbolId)
  /-- `send` is still to look at the state for the next message. -/
  | sending (channel : Channel) (symbols : List SymbolId)
  /-- The message is not pushed yet; the rest of the list follows. -/
  | pushing (channel : Channel) (message rest : List SymbolId)
deriving DecidableEq

/-- `on_ws_connected`. -/
inductive ConnectedPhase
  | idle
  /-- `connected_` is not set yet. -/
  | marking
  /-- The stored lists are not copied yet. -/
  | copying
  /-- The call under way, and those that are still to be made. -/
  | calling (call : SubscribePhase) (todo : List (Channel × List SymbolId))
deriving DecidableEq

/-- A message that `send` pushes. -/
structure SubscribeMessage where
  session : ℕ
  channel : Channel
  symbols : List SymbolId
deriving DecidableEq

structure FeedClient where
  /-- The number of handshakes (ghost). -/
  session : ℕ := 0
  /-- The client's state is `Connected`. -/
  connected : Bool := false
  /-- `connected_`. -/
  flag : Bool := false
  /-- `on_read` has announced the close of the server and is about to reconnect. -/
  closing : Bool := false
  /-- `subscribed_tickers_` and `subscribed_orderbooks_`. -/
  stored : Channel → List SymbolId := fun _ => []
  handler : ConnectedPhase := .idle
  calls : ℕ → SubscribePhase := fun _ => .idle
  /-- The channels and lists of the calls that threads have made (ghost). -/
  taken : List (Channel × List SymbolId) := []
  /-- What the write queue took, and what it had no room for (ghost). -/
  sent : List SubscribeMessage := []
  refused : List SubscribeMessage := []

inductive FeedClientEvent
  /-- A thread calls `subscribe_ticker` or `subscribe_orderbook`. -/
  | subscribe (thread : ℕ) (channel : Channel) (symbols : List SymbolId)
  /-- The next access of a call; `room` says whether the write queue takes a message. -/
  | proceed (thread : ℕ) (room : Bool)
  /-- The next access of `on_ws_connected`, which may detach `thread`. -/
  | handler (room : Bool) (thread : ℕ)
  | handshake
  /-- `on_ws_disconnected`, which `on_read` calls before the client leaves `Connected` and
  `on_close` after it. -/
  | announced
  /-- The client leaves `Connected`. -/
  | lost

namespace FeedClient

/-- The `try_push` of `WebSocketClient::send`. -/
def push (s : FeedClient) (channel : Channel) (symbols : List SymbolId) (room : Bool) :
    FeedClient :=
  let message : SubscribeMessage := ⟨s.session, channel, symbols⟩
  if room then { s with sent := s.sent ++ [message] }
  else { s with refused := s.refused ++ [message] }

/-- The next access of a call, and where it goes on. -/
def callStep (rules : FeedRules) (s : FeedClient) (room : Bool) :
    SubscribePhase → FeedClient × SubscribePhase
  | .idle => (s, .idle)
  | .fetching channel symbols => (s, if s.flag then .storing channel symbols else .idle)
  | .storing channel symbols =>
    ({ s with stored := Function.update s.stored channel symbols }, .checking channel symbols)
  | .checking channel symbols =>
    (s, if (if rules.checksFlag then s.flag else s.connected) then .sending channel symbols
      else .idle)
  | .sending channel symbols =>
    match rules.batchSize with
    | none => (s, if s.connected then .pushing channel symbols [] else .idle)
    | some batch =>
      match symbols with
      | [] => (s, .idle)
      | _ :: _ =>
        (s, if s.connected then .pushing channel (symbols.take batch) (symbols.drop batch)
          else .sending channel (symbols.drop batch))
  | .pushing channel message rest =>
    (s.push channel message room, if rest = [] then .idle else .sending channel rest)

/-- The calls that `on_ws_connected` makes of the lists it has copied. -/
def resubscriptions (rules : FeedRules) (stored : Channel → List SymbolId) :
    List (Channel × List SymbolId) :=
  let tickers := if stored .ticker = [] then [] else [(Channel.ticker, stored .ticker)]
  let orderbooks := if stored .orderbook = [] then [] else [(Channel.orderbook, stored .orderbook)]
  if rules.orderbooksFirst then
    if stored .orderbook = [] then tickers else orderbooks
  else tickers ++ orderbooks

/-- The next access of `on_ws_connected`. -/
def handlerStep (rules : FeedRules) (s : FeedClient) (room : Bool) (thread : ℕ) : FeedClient :=
  match s.handler with
  | .idle => s
  | .marking => { s with flag := true, handler := .copying }
  | .copying => { s with handler := .calling .idle (resubscriptions rules s.stored) }
  | .calling .idle [] => { s with handler := .idle }
  | .calling .idle ((channel, symbols) :: todo) =>
    if rules.detachesOrderbooks = true ∧ channel = .orderbook then
      match s.calls thread with
      | .idle =>
        { s with
          handler := .calling .idle todo
          calls := Function.update s.calls thread (.fetching channel symbols) }
      | _ => s
    else { s with handler := .calling (.storing channel symbols) todo }
  | .calling call todo =>
    let (after, next) := s.callStep rules room call
    { after with handler := .calling next todo }

def step (rules : FeedRules) (s : FeedClient) : FeedClientEvent → FeedClient
  | .subscribe thread channel symbols =>
    match s.calls thread with
    | .idle =>
      { s with
        calls := Function.update s.calls thread (.storing channel symbols)
        taken := s.taken ++ [(channel, symbols)] }
    | _ => s
  | .proceed thread room =>
    let (after, next) := s.callStep rules room (s.calls thread)
    { after with calls := Function.update after.calls thread next }
  | .handler room thread => s.handlerStep rules room thread
  | .handshake =>
    if s.connected = false ∧ s.handler = .idle then
      { s with session := s.session + 1, connected := true, handler := .marking }
    else s
  | .announced =>
    if s.handler = .idle then { s with flag := false, closing := s.connected } else s
  | .lost => { s with connected := false, closing := false }

/-- The state after a run. -/
def run (rules : FeedRules) (events : List FeedClientEvent) : FeedClient :=
  events.foldl (step rules) {}

end FeedClient

end SpotRelay.Model
