import SpotRelay.Library.OrderedMap
import SpotRelay.Model.BithumbMessages

/-!
# The Bithumb order books and the quotes made of them

`BithumbExchange` between its WebSocket and the ticker callback (bithumb.hpp:43-75, bithumb.cpp:
383-432, 579-683, 860-954, 1120-1344): the books, the best bid and ask kept beside them for the
ticker path, and the flag that says whether these may be laid over a ticker.  A handler is one
step; the books change under one lock.
-/

set_option autoImplicit false

namespace SpotRelay.Model

open SpotRelay.Library

inductive BookSide
  | bid
  | ask
deriving DecidableEq, Repr

/-- Bid levels, price to quantity, the highest price first. -/
abbrev Bids := OrderedMap (fun a b : ℚ => a > b) ℚ

/-- Ask levels, the lowest price first. -/
abbrev Asks := OrderedMap (fun a b : ℚ => a < b) ℚ

/-- The best prices and their sizes, 0 for an empty side. -/
structure BestLevels where
  bestBid : ℚ := 0
  bestAsk : ℚ := 0
  bestBidQty : ℚ := 0
  bestAskQty : ℚ := 0
deriving DecidableEq

/-! ## One book -/

/-- `OrderbookState`. -/
structure OrderbookState where
  bids : Bids := .empty
  asks : Asks := .empty
  initialized : Bool := false
  /-- The connection under which the book was last seeded (ghost). -/
  seededIn : ℕ := 0
  /-- The symbol had a BBO entry when the book was last seeded (ghost). -/
  seededBbo : Bool := false
  /-- The levels go back to all of a snapshot (ghost). -/
  whole : Bool := true

namespace OrderbookState

/-- One level update: no quantity takes the level away. -/
def applyLevel (state : OrderbookState) (side : BookSide) (price quantity : ℚ) : OrderbookState :=
  match side with
  | .bid =>
    if quantity ≤ 0 then { state with bids := state.bids.erase price }
    else { state with bids := state.bids.insert price quantity }
  | .ask =>
    if quantity ≤ 0 then { state with asks := state.asks.erase price }
    else { state with asks := state.asks.insert price quantity }

/-- The levels of a snapshot that are taken over. -/
def usableLevels (levels : List (ℚ × ℚ)) : List (ℚ × ℚ) :=
  levels.filter fun level => 0 < level.1 ∧ 0 < level.2

/-- Both sides are cleared and filled with levels of a snapshot. -/
def replaceLevels (state : OrderbookState) (bids asks : List (ℚ × ℚ)) : OrderbookState :=
  { state with
    bids := (usableLevels bids).foldl (fun m level => m.insert level.1 level.2) .empty
    asks := (usableLevels asks).foldl (fun m level => m.insert level.1 level.2) .empty
    whole := false }

/-- What `on_ws_connected` leaves of a book. -/
def invalidate (state : OrderbookState) : OrderbookState :=
  { state with bids := .empty, asks := .empty, initialized := false, whole := false }

/-- The first levels of the two maps. -/
def bestLevels (state : OrderbookState) : BestLevels where
  bestBid := (state.bids.first.map Prod.fst).getD 0
  bestAsk := (state.asks.first.map Prod.fst).getD 0
  bestBidQty := (state.bids.first.map Prod.snd).getD 0
  bestAskQty := (state.asks.first.map Prod.snd).getD 0

end OrderbookState

/-- `BBO`: the best levels and the last price of a symbol. -/
structure Bbo extends BestLevels where
  lastPrice : ℚ := 0
  /-- The connection under which the book behind the stored levels was seeded (ghost). -/
  seededIn : ℕ := 0
  /-- The disconnects before the levels were stored (ghost). -/
  storedIn : ℕ := 0
deriving DecidableEq

/-- A ticker given to the callback, with what its quotes are of (ghost). -/
structure DispatchedTicker where
  ticker : Ticker
  /-- The BBO laid over it. -/
  source : Option Bbo
  connects : ℕ
  disconnects : ℕ
deriving DecidableEq

/-! ## State -/

structure OrderbookFeed where
  connected : Bool := false
  orderbookState : SymbolId → Option OrderbookState := fun _ => none
  orderbookBbo : SymbolId → Option Bbo := fun _ => none
  orderbookReady : Bool := false
  usdtKrwPrice : ℚ := 0
  /-- The tickers dispatched so far (ghost). -/
  dispatched : List DispatchedTicker := []
  /-- The connections so far (ghost). -/
  connects : ℕ := 0
  /-- The disconnections so far (ghost). -/
  disconnects : ℕ := 0

namespace OrderbookFeed

def setBook (s : OrderbookFeed) (symbol : SymbolId) (state : OrderbookState) : OrderbookFeed :=
  { s with orderbookState := Function.update s.orderbookState symbol (some state) }

def setBbo (s : OrderbookFeed) (symbol : SymbolId) (bbo : Bbo) : OrderbookFeed :=
  { s with orderbookBbo := Function.update s.orderbookBbo symbol (some bbo) }

/-- The symbol has a book that a snapshot has seeded. -/
def isInitialized (s : OrderbookFeed) (symbol : SymbolId) : Bool :=
  match s.orderbookState symbol with
  | some state => state.initialized
  | none => false

/-- `update_bbo` (bithumb.cpp:1319-1344). -/
def updateBbo (s : OrderbookFeed) (symbol : SymbolId) : OrderbookFeed :=
  match s.orderbookState symbol, s.orderbookBbo symbol with
  | some state, some bbo =>
    if state.initialized then
      s.setBbo symbol
        { bbo with
          toBestLevels := state.bestLevels
          seededIn := state.seededIn
          storedIn := s.disconnects }
    else s
  | _, _ => s

/-! ## Dispatch -/

def dispatchTicker (s : OrderbookFeed) (ticker : Ticker) (source : Option Bbo) : OrderbookFeed :=
  { s with
    usdtKrwPrice := if ticker.symbol.baseIsUsdt then ticker.last else s.usdtKrwPrice
    dispatched := s.dispatched ++ [⟨ticker, source, s.connects, s.disconnects⟩] }

/-- `make_bbo_ticker` of an entry: none without a price on both sides. -/
def makeBboTicker (symbol : SymbolId) (bbo : Bbo) (nowMs : UInt64) : Option Ticker :=
  if bbo.bestBid ≤ 0 ∨ bbo.bestAsk ≤ 0 then none
  else
    some
      { exchange := .bithumb
        symbol := symbol
        timestamp := nowMs
        bid := bbo.bestBid
        ask := bbo.bestAsk
        last := if bbo.lastPrice ≤ 0 then (bbo.bestBid + bbo.bestAsk) * (1 / 2) else bbo.lastPrice
        bidQty := bbo.bestBidQty
        askQty := bbo.bestAskQty }

/-- A ticker made of the BBO of a symbol, if there is one to be made. -/
def dispatchBbo (s : OrderbookFeed) (symbol : SymbolId) (nowMs : UInt64) : OrderbookFeed :=
  match s.orderbookBbo symbol with
  | none => s
  | some bbo =>
    match makeBboTicker symbol bbo nowMs with
    | none => s
    | some ticker => s.dispatchTicker ticker (some bbo)

/-- The same for every symbol of a list. -/
def dispatchBbos (s : OrderbookFeed) (symbols : List SymbolId) (nowMs : UInt64) : OrderbookFeed :=
  symbols.foldl (fun s symbol => s.dispatchBbo symbol nowMs) s

end OrderbookFeed

/-! ## Depth messages -/

/-- A level update; an order type that is neither side changes no level. -/
structure DepthUpdate where
  symbol : SymbolId
  side : Option BookSide
  price : ℚ
  quantity : ℚ
deriving DecidableEq

def FastBithumbDepthUpdate.toDepthUpdate (update : FastBithumbDepthUpdate) : DepthUpdate :=
  ⟨update.symbol, some (if update.isBid then .bid else .ask), update.price, update.quantity⟩

def DepthUpdate.applyTo (update : DepthUpdate) (state : OrderbookState) : OrderbookState :=
  match update.side with
  | some side => state.applyLevel side update.price update.quantity
  | none => state

/-- The simdjson loop up to the first access that throws: the updates it applies and whether it
gets through.  Items of symbols without a seeded book are passed over before their other fields
are read. -/
def readDepthItems (initialized : SymbolId → Bool) : List DepthItem → List DepthUpdate × Bool
  | [] => ([], true)
  | item :: rest =>
    match item.symbol with
    | none => ([], false)
    | some symbolSv =>
      if initialized (.fromBithumbFormat symbolSv) then
        match item.orderType, item.price, item.quantity with
        | some orderType, some priceStr, some qtyStr =>
          let update : DepthUpdate :=
            { symbol := .fromBithumbFormat symbolSv
              side :=
                if orderType = "bid".toList then some .bid
                else if orderType = "ask".toList then some .ask
                else none
              price := fastStod priceStr
              quantity := fastStod qtyStr }
          let (updates, complete) := readDepthItems initialized rest
          (update :: updates, complete)
        | _, _, _ => ([], false)
      else readDepthItems initialized rest

/-- The loop over the updates of a message: the BBO of a symbol is refreshed when the next symbol
comes up. -/
structure DepthBatch where
  feed : OrderbookFeed
  lastUpdatedSymbol : Option SymbolId := none
  updatedSymbols : List SymbolId := []

namespace DepthBatch

/-- The symbol that was being updated is done with. -/
def flush (b : DepthBatch) : DepthBatch :=
  match b.lastUpdatedSymbol with
  | some last =>
    { feed := b.feed.updateBbo last
      lastUpdatedSymbol := none
      updatedSymbols := b.updatedSymbols ++ [last] }
  | none => b

/-- An update of a symbol with a seeded book. -/
def apply (b : DepthBatch) (update : DepthUpdate) : DepthBatch :=
  match b.feed.orderbookState update.symbol with
  | none => b
  | some state =>
    let applied := { b with feed := b.feed.setBook update.symbol (update.applyTo state) }
    if b.lastUpdatedSymbol = some update.symbol then applied
    else { applied.flush with lastUpdatedSymbol := some update.symbol }

end DepthBatch

namespace OrderbookFeed

/-- The updates of a message that reach a book, and whether the loop gets to its end.  No step of
the loop seeds a book, so what is passed over is settled before it. -/
def depthUpdates (simdjson : Simdjson) (s : OrderbookFeed) (message : List Char) :
    List DepthUpdate × Bool :=
  match parseOrderbookdepthFast message with
  | some updates =>
    ((updates.map FastBithumbDepthUpdate.toDepthUpdate).filter fun u => s.isInitialized u.symbol,
      true)
  | none =>
    match (simdjson.depth message).type with
    | none => ([], false)
    | some type =>
      if type = "orderbookdepth".toList then
        let read := readDepthItems s.isInitialized (simdjson.depth message).list.items
        (read.1, read.2 && (simdjson.depth message).list.complete)
      else ([], true)

/-- The loop over the updates and what follows it: when it is broken off, the last symbol is not
flushed. -/
def applyDepthUpdates (s : OrderbookFeed) (updates : List DepthUpdate) (complete : Bool) :
    OrderbookFeed × List SymbolId :=
  let batch := updates.foldl DepthBatch.apply { feed := s }
  if complete then (batch.flush.feed, batch.flush.updatedSymbols)
  else (batch.feed, batch.updatedSymbols)

/-- `parse_orderbookdepth_message` (bithumb.cpp:1202-1317). -/
def parseOrderbookdepthMessage (simdjson : Simdjson) (s : OrderbookFeed) (message : List Char) :
    OrderbookFeed × List SymbolId :=
  s.applyDepthUpdates (s.depthUpdates simdjson message).1 (s.depthUpdates simdjson message).2

/-- The first half of `on_ws_message`: the updated symbols are announced once the feed is
ready. -/
def announceUpdated (parsed : OrderbookFeed × List SymbolId) (nowMs : UInt64) : OrderbookFeed :=
  if parsed.1.orderbookReady then parsed.1.dispatchBbos parsed.2 nowMs else parsed.1

/-! ## Tickers -/

/-- The two ways in which `parse_ticker_message` reads a ticker. -/
def readTicker (simdjson : Simdjson) (message : List Char) : Option ParsedTicker :=
  match parseTickerFast message with
  | some parsed => some parsed
  | none =>
    let doc := simdjson.ticker message
    match doc.type with
    | none => none
    | some type =>
      if type = "ticker".toList then
        match doc.symbol, doc.closePrice with
        | some symbolStr, some closeStr =>
          some ⟨.fromBithumbFormat symbolStr, fastStod closeStr⟩
        | _, _ => none
      else none

/-- `parse_ticker_message`: the last price is kept with the BBO (bithumb.cpp:1120-1168). -/
def storeLastPrice (s : OrderbookFeed) (parsed : ParsedTicker) : OrderbookFeed :=
  match s.orderbookBbo parsed.symbol with
  | some bbo => s.setBbo parsed.symbol { bbo with lastPrice := parsed.last }
  | none => s

/-- The ticker of a message, with no quotes yet. -/
def bareTicker (parsed : ParsedTicker) (nowMs : UInt64) : Ticker :=
  { exchange := .bithumb, symbol := parsed.symbol, timestamp := nowMs, last := parsed.last }

/-- The positive values of the BBO replace those of the ticker. -/
def overlay (bbo : Bbo) (ticker : Ticker) : Ticker :=
  { ticker with
    bid := if 0 < bbo.bestBid then bbo.bestBid else ticker.bid
    ask := if 0 < bbo.bestAsk then bbo.bestAsk else ticker.ask
    bidQty := if 0 < bbo.bestBidQty then bbo.bestBidQty else ticker.bidQty
    askQty := if 0 < bbo.bestAskQty then bbo.bestAskQty else ticker.askQty }

/-- The second half of `on_ws_message`. -/
def onTicker (s : OrderbookFeed) (parsed : ParsedTicker) (nowMs : UInt64) : OrderbookFeed :=
  let s := s.storeLastPrice parsed
  let ticker := bareTicker parsed nowMs
  if s.orderbookReady then
    match s.orderbookBbo parsed.symbol with
    | some bbo => s.dispatchTicker (overlay bbo ticker) (some bbo)
    | none => s.dispatchTicker ticker none
  else s.dispatchTicker ticker none

/-- `on_ws_message` (bithumb.cpp:860-902). -/
def onWsMessage (simdjson : Simdjson) (s : OrderbookFeed) (message : List Char)
    (nowMs : UInt64) : OrderbookFeed :=
  match findAfter "orderbookdepth".toList message with
  | some _ =>
    announceUpdated (s.parseOrderbookdepthMessage simdjson message) nowMs
  | none =>
    match readTicker simdjson message with
    | some parsed => s.onTicker parsed nowMs
    | none => s

end OrderbookFeed

/-! ## Snapshots -/

/-- The levels read before an access throws, and whether the side is read to its end. -/
def readSnapshotLevels : List SnapshotLevel → List (ℚ × ℚ) × Bool
  | [] => ([], true)
  | level :: rest =>
    match level.price, level.quantity with
    | some priceStr, some qtyStr =>
      let (levels, complete) := readSnapshotLevels rest
      ((fastStod priceStr, fastStod qtyStr) :: levels, complete)
    | _, _ => ([], false)

namespace SnapshotSide

/-- A side that is not found has no levels and throws nothing. -/
def read : SnapshotSide → List (ℚ × ℚ) × Bool
  | absent => ([], true)
  | damaged => ([], true)
  | levels array =>
    ((readSnapshotLevels array.items).1, (readSnapshotLevels array.items).2 && array.complete)

def isDamaged : SnapshotSide → Bool
  | damaged => true
  | _ => false

end SnapshotSide

namespace SnapshotItem

/-- The bids and asks read; no ask is read where the bids throw. -/
def bidLevels (item : SnapshotItem) : List (ℚ × ℚ) := item.bids.read.1

def askLevels (item : SnapshotItem) : List (ℚ × ℚ) :=
  if item.bids.read.2 then item.asks.read.1 else []

/-- No access to the levels throws. -/
def isRead (item : SnapshotItem) : Bool := item.bids.read.2 && item.asks.read.2

/-- Neither side is passed over in a damaged item. -/
def isSound (item : SnapshotItem) : Bool := !item.bids.isDamaged && !item.asks.isDamaged

end SnapshotItem

namespace OrderbookFeed

/-- The book of a symbol, made if there is none. -/
def book (s : OrderbookFeed) (symbol : SymbolId) : OrderbookState :=
  (s.orderbookState symbol).getD {}

/-- The book that a snapshot leaves. -/
def seededBook (s : OrderbookFeed) (symbol : SymbolId) (bids asks : List (ℚ × ℚ)) (whole : Bool) :
    OrderbookState :=
  { (s.book symbol).replaceLevels bids asks with
    initialized := true
    seededIn := s.connects
    seededBbo := (s.orderbookBbo symbol).isSome
    whole := whole }

/-- A book is rebuilt from all levels of a snapshot and its BBO refreshed. -/
def seedBook (s : OrderbookFeed) (symbol : SymbolId) (bids asks : List (ℚ × ℚ)) (whole : Bool) :
    OrderbookFeed :=
  (s.setBook symbol (s.seededBook symbol bids asks whole)).updateBbo symbol

/-- One book of a snapshot.  Where its levels throw, it keeps what was read of them. -/
def loadItem (s : OrderbookFeed) (symbol : SymbolId) (item : SnapshotItem) : OrderbookFeed :=
  if item.isRead then s.seedBook symbol item.bidLevels item.askLevels item.isSound
  else s.setBook symbol ((s.book symbol).replaceLevels item.bidLevels item.askLevels)

/-- The symbol that a key of the snapshot names, if it is one that is asked for. -/
def requestedSymbol (symbols : List SymbolId) (key : List Char) : Option SymbolId :=
  if key = "timestamp".toList ∨ key = "payment_currency".toList then none
  else if symbols ≠ [] ∧ SymbolId.ofChars key "KRW".toList ∉ symbols then none
  else some (.ofChars key "KRW".toList)

/-- The loop over the books of a snapshot: the symbols seeded, and whether it gets to its end. -/
def seedBooks (symbols : List SymbolId) (s : OrderbookFeed) :
    List SnapshotItem → OrderbookFeed × List SymbolId × Bool
  | [] => (s, [], true)
  | item :: rest =>
    match item.key with
    | none => (s, [], false)
    | some key =>
      match requestedSymbol symbols key with
      | none => seedBooks symbols s rest
      | some sym =>
        let s := s.loadItem sym item
        if item.isRead then
          let (s, seeded, complete) := seedBooks symbols s rest
          (s, sym :: seeded, complete)
        else (s, [], false)

/-- A snapshot that is read to its end makes the feed ready. -/
def announceBooks (s : OrderbookFeed) (seeded : List SymbolId) (nowMs : UInt64) : OrderbookFeed :=
  { s with orderbookReady := true }.dispatchBbos seeded nowMs

/-- `fetch_all_orderbook_snapshots` (bithumb.cpp:579-683); there is no response where the request
failed. -/
def fetchAllOrderbookSnapshots (simdjson : Simdjson) (s : OrderbookFeed) (symbols : List SymbolId)
    (response : Option (List Char)) (nowMs : UInt64) : OrderbookFeed :=
  match response with
  | none => s
  | some body =>
    let doc := simdjson.snapshots body
    if doc.status = some "0000".toList then
      let (s, seeded, complete) := seedBooks symbols s doc.data.items
      if complete && doc.data.complete then s.announceBooks seeded nowMs else s
    else s

/-- The depth that is asked for. -/
def requestedDepth (depthCount : ℕ) : ℕ := if depthCount = 0 then 1 else depthCount

/-- `ORDERBOOK_BBO_DEPTH`, the depth that the resync loop asks for. -/
def orderbookBboDepth : ℕ := 1

/-! ## Connection -/

/-- `on_ws_connected`: every book is cleared, no BBO is (bithumb.cpp:904-948). -/
def onWsConnected (s : OrderbookFeed) : OrderbookFeed :=
  { s with
    connected := true
    orderbookState := fun symbol => (s.orderbookState symbol).map OrderbookState.invalidate
    orderbookReady := false
    connects := s.connects + 1 }

/-- `on_ws_disconnected`. -/
def onWsDisconnected (s : OrderbookFeed) : OrderbookFeed :=
  { s with connected := false, orderbookReady := false, disconnects := s.disconnects + 1 }

/-- `subscribe_orderbook`: with the socket up, every symbol gets a BBO entry
(bithumb.cpp:383-432). -/
def subscribeOrderbook (s : OrderbookFeed) (symbols : List SymbolId) (wsConnected : Bool) :
    OrderbookFeed :=
  if wsConnected then
    { s with
      orderbookBbo := fun symbol =>
        if symbol ∈ symbols then some ((s.orderbookBbo symbol).getD {}) else s.orderbookBbo symbol }
  else s

end OrderbookFeed

inductive FeedEvent
  | wsConnected
  | wsDisconnected
  | subscribeOrderbook (symbols : List SymbolId) (wsConnected : Bool)
  | snapshots (symbols : List SymbolId) (response : Option (List Char)) (nowMs : UInt64)
  | message (text : List Char) (nowMs : UInt64)

def feedStep (simdjson : Simdjson) (s : OrderbookFeed) : FeedEvent → OrderbookFeed
  | .wsConnected => s.onWsConnected
  | .wsDisconnected => s.onWsDisconnected
  | .subscribeOrderbook symbols wsConnected => s.subscribeOrderbook symbols wsConnected
  | .snapshots symbols response nowMs =>
    s.fetchAllOrderbookSnapshots simdjson symbols response nowMs
  | .message text nowMs => s.onWsMessage simdjson text nowMs

def runFeed (simdjson : Simdjson) (events : List FeedEvent) : OrderbookFeed :=
  events.foldl (feedStep simdjson) {}

end SpotRelay.Model
