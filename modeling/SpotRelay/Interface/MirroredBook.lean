import SpotRelay.Model.BithumbFeed

/-!
# The order book of the exchange beside its copy

The exchange changes its book level by level and sends every change as a depth message; between
messages the feed asks for a snapshot of the first levels of each side.  `KnownLevels` are the
prices of which the feed has been told: those of the last snapshot, and every one that a message
has changed since.
-/

set_option autoImplicit false

namespace SpotRelay.Interface

open SpotRelay.Model SpotRelay.Library

/-- A change of one level: its new quantity, none when the level is gone. -/
structure LevelUpdate where
  side : BookSide
  price : ℚ
  quantity : ℚ
  price_pos : 0 < price

def LevelUpdate.toDepthUpdate (symbol : SymbolId) (u : LevelUpdate) : DepthUpdate :=
  ⟨symbol, some u.side, u.price, u.quantity⟩

/-- A book with positive prices and quantities. -/
structure ExchangeBook where
  bids : Bids
  asks : Asks
  bids_pos : ∀ e ∈ bids.entries, 0 < e.1 ∧ 0 < e.2
  asks_pos : ∀ e ∈ asks.entries, 0 < e.1 ∧ 0 < e.2

namespace ExchangeBook

def empty : ExchangeBook := ⟨.empty, .empty, by simp, by simp⟩

/-- One change of the book. -/
def update (book : ExchangeBook) (u : LevelUpdate) : ExchangeBook :=
  match u.side with
  | .bid =>
    if hgone : u.quantity ≤ 0 then
      { book with
        bids := book.bids.erase u.price
        bids_pos := fun e he => book.bids_pos e (OrderedMap.mem_erase.mp he).2 }
    else
      { book with
        bids := book.bids.insert u.price u.quantity
        bids_pos := by
          intro e he
          rcases OrderedMap.mem_insert.mp he with rfl | ⟨-, he⟩
          · exact ⟨u.price_pos, not_le.mp hgone⟩
          · exact book.bids_pos e he }
  | .ask =>
    if hgone : u.quantity ≤ 0 then
      { book with
        asks := book.asks.erase u.price
        asks_pos := fun e he => book.asks_pos e (OrderedMap.mem_erase.mp he).2 }
    else
      { book with
        asks := book.asks.insert u.price u.quantity
        asks_pos := by
          intro e he
          rcases OrderedMap.mem_insert.mp he with rfl | ⟨-, he⟩
          · exact ⟨u.price_pos, not_le.mp hgone⟩
          · exact book.asks_pos e he }

/-- The best prices and their sizes, 0 for an empty side. -/
def bestLevels (book : ExchangeBook) : BestLevels where
  bestBid := (book.bids.first.map Prod.fst).getD 0
  bestAsk := (book.asks.first.map Prod.fst).getD 0
  bestBidQty := (book.bids.first.map Prod.snd).getD 0
  bestAskQty := (book.asks.first.map Prod.snd).getD 0

end ExchangeBook

/-- The prices of which the feed knows whether they have a level, and which. -/
structure KnownLevels where
  bids : Set ℚ
  asks : Set ℚ

namespace KnownLevels

/-- A snapshot tells of its own levels. -/
def ofSnapshot (book : ExchangeBook) (depth : ℕ) : KnownLevels where
  bids := {price | ∃ quantity, (price, quantity) ∈ (book.bids.take depth).entries}
  asks := {price | ∃ quantity, (price, quantity) ∈ (book.asks.take depth).entries}

/-- A message tells of the level that it changes. -/
def touch (known : KnownLevels) (u : LevelUpdate) : KnownLevels :=
  match u.side with
  | .bid => { known with bids := Set.insert u.price known.bids }
  | .ask => { known with asks := Set.insert u.price known.asks }

end KnownLevels

/-! ## Both sides -/

structure MirroredBook where
  exchange : ExchangeBook
  feed : OrderbookFeed
  /-- There is none before the first snapshot. -/
  known : Option KnownLevels := none

inductive BookEvent
  /-- The exchange changes levels and sends them in one message. -/
  | delta (updates : List LevelUpdate) (nowMs : UInt64)
  /-- The feed fetches a snapshot. -/
  | snapshot (depthCount : ℕ) (nowMs : UInt64)

namespace MirroredBook

/-- A feed that is subscribed to the symbol, with no snapshot yet. -/
def start (symbol : SymbolId) (exchange : ExchangeBook) : MirroredBook where
  exchange := exchange
  feed := ({} : OrderbookFeed).subscribeOrderbook [symbol] true

def step (symbol : SymbolId) (m : MirroredBook) : BookEvent → MirroredBook
  | .delta updates nowMs =>
    { exchange := updates.foldl ExchangeBook.update m.exchange
      feed :=
        OrderbookFeed.announceUpdated
          (m.feed.applyDepthUpdates
            ((updates.map (LevelUpdate.toDepthUpdate symbol)).filter
              fun u => m.feed.isInitialized u.symbol) true)
          nowMs
      known := m.known.map fun known => updates.foldl KnownLevels.touch known }
  | .snapshot depthCount nowMs =>
    let depth := OrderbookFeed.requestedDepth depthCount
    { exchange := m.exchange
      feed :=
        (m.feed.seedBook symbol (m.exchange.bids.take depth).entries
          (m.exchange.asks.take depth).entries true).announceBooks [symbol] nowMs
      known := some (.ofSnapshot m.exchange depth) }

def run (symbol : SymbolId) (exchange : ExchangeBook) (events : List BookEvent) : MirroredBook :=
  events.foldl (step symbol) (start symbol exchange)

/-- The feed has been told of the best level of each side. -/
def BestKnown (m : MirroredBook) : Prop :=
  ∀ known, m.known = some known →
    (∀ e, m.exchange.bids.first = some e → e.1 ∈ known.bids) ∧
      ∀ e, m.exchange.asks.first = some e → e.1 ∈ known.asks

/-- After a snapshot, the BBO of the feed is that of the exchange. -/
def Agrees (symbol : SymbolId) (m : MirroredBook) : Prop :=
  m.known.isSome = true →
    (m.feed.orderbookBbo symbol).map Bbo.toBestLevels = some m.exchange.bestLevels

end MirroredBook

end SpotRelay.Interface
