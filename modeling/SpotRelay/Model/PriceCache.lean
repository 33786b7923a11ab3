import SpotRelay.Model.Quotes

/-!
# The price cache

`PriceCache` of arbitrage_engine.hpp:31-490 between its updates: the latest quote of every
venue and symbol, the USDT/KRW rates of the two Korean venues, and the published snapshot of
transfer routes and withdrawal fees.
-/

set_option autoImplicit false

namespace SpotRelay.Model

/-- `PriceCache::PriceEntry`. -/
structure PriceEntry where
  bid : ℚ := 0
  ask : ℚ := 0
  bidQty : ℚ := 0
  askQty : ℚ := 0
  last : ℚ := 0
  timestamp : UInt64 := 0
deriving DecidableEq

/-- `PriceCache::TransferRoute` (arbitrage_engine.hpp:38-45). -/
structure TransferRoute where
  available : Bool := false
  withdrawOpen : Bool := false
  depositOpen : Bool := false
  feeCoins : ℚ := 0
  network : String := ""
  refreshedAtMs : UInt64 := 0
deriving DecidableEq

/-- `PriceCache::TransferSnapshot`; the keys are the triples that `make_fee_key` prints. -/
structure TransferSnapshot where
  fees : List (Route × ℚ) := []
  routes : List (Route × TransferRoute) := []
  refreshedAtMs : UInt64 := 0
deriving DecidableEq

structure PriceCache where
  prices : Exchange → SymbolId → Option PriceEntry
  usdtKrwBithumb : ℚ := 0
  usdtKrwUpbit : ℚ := 0
  transferSnapshot : TransferSnapshot := {}

namespace PriceCache

/-- A cache that has seen nothing. -/
def empty : PriceCache := { prices := fun _ _ => none }

/-- `update` of an entry that exists: an empty size keeps the old one; a new entry takes every
value (arbitrage_engine.hpp:195-239). -/
def updatedEntry (old : Option PriceEntry) (ticker : Ticker) (nowMs : UInt64) : PriceEntry :=
  let ts := if ticker.timestamp ≠ 0 then ticker.timestamp else nowMs
  match old with
  | some entry =>
    { bid := ticker.bid
      ask := ticker.ask
      bidQty := if 0 < ticker.bidQty then ticker.bidQty else entry.bidQty
      askQty := if 0 < ticker.askQty then ticker.askQty else entry.askQty
      last := ticker.last
      timestamp := ts }
  | none =>
    { bid := ticker.bid
      ask := ticker.ask
      bidQty := ticker.bidQty
      askQty := ticker.askQty
      last := ticker.last
      timestamp := ts }

/-- `update`. -/
def update (c : PriceCache) (ticker : Ticker) (nowMs : UInt64) : PriceCache :=
  { c with
    prices := fun ex symbol =>
      if ex = ticker.exchange ∧ symbol = ticker.symbol then
        some (updatedEntry (c.prices ex symbol) ticker nowMs)
      else c.prices ex symbol }

/-- `update_usdt_krw`. -/
def updateUsdtKrw (c : PriceCache) (ex : Exchange) (price : ℚ) : PriceCache :=
  match ex with
  | .bithumb => { c with usdtKrwBithumb := price }
  | .upbit => { c with usdtKrwUpbit := price }
  | _ => c

/-- `get_price` (arbitrage_engine.hpp:249-273). -/
def getPrice (c : PriceCache) (ex : Exchange) (symbol : SymbolId) : PriceData :=
  match c.prices ex symbol with
  | none => {}
  | some entry =>
    { bid := entry.bid
      ask := entry.ask
      bidQty := entry.bidQty
      askQty := entry.askQty
      last := entry.last
      timestamp := entry.timestamp
      valid := true }

/-- `get_usdt_krw`. -/
def getUsdtKrw (c : PriceCache) : Exchange → ℚ
  | .bithumb => c.usdtKrwBithumb
  | .upbit => c.usdtKrwUpbit
  | _ => 0

/-- `get_withdraw_fee` (arbitrage_engine.hpp:328-335). -/
def getWithdrawFee (c : PriceCache) (route : Route) : ℚ :=
  (c.transferSnapshot.fees.lookup route).getD 0

/-- `is_transfer_route_available` (arbitrage_engine.hpp:337-343). -/
def isTransferRouteAvailable (c : PriceCache) (route : Route) : Bool :=
  match c.transferSnapshot.routes.lookup route with
  | none => false
  | some r => r.available

/-- The routes of a snapshot that are available. -/
def openRoutes (snapshot : TransferSnapshot) : List Route :=
  (snapshot.routes.map Prod.fst).filter fun route =>
    match snapshot.routes.lookup route with
    | none => false
    | some r => r.available

end PriceCache

end SpotRelay.Model
