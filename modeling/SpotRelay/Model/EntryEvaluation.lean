import Mathlib.Logic.Function.Basic
import SpotRelay.Model.Engine
import SpotRelay.Model.TransferRoutes

/-!
# The reads of one evaluation

`update_symbol_entry` (arbitrage_engine.cpp:532-654) look-up by look-up, in any number of threads,
between publications of transfer snapshots and tickers.  Every look-up in the price cache is one
step, so a snapshot can be replaced between the check of a route and the two look-ups of its fee.
-/

set_option autoImplicit false

namespace SpotRelay.Model

/-- The variables of the loop over the pairs. -/
structure PairLoop where
  idx : ℕ
  symbol : SymbolId
  /-- The pairs that are left. -/
  pairs : List ExchangePairConfig
  best : Option Engine.PairQuote
deriving DecidableEq

/-- What a call of `update_symbol_entry` does next. -/
inductive EvaluationPhase
  | idle
  /-- The head of the loop. -/
  | nextPair (l : PairLoop)
  /-- `is_transfer_route_available`. -/
  | route (l : PairLoop) (pair : ExchangePairConfig)
  | koreanPrice (l : PairLoop) (pair : ExchangePairConfig)
  | foreignPrice (l : PairLoop) (pair : ExchangePairConfig) (koreanPrice : PriceData)
  /-- `get_usdt_krw`. -/
  | usdtKrw (l : PairLoop) (pair : ExchangePairConfig) (koreanPrice foreignPrice : PriceData)
  /-- `get_withdraw_fee` in the loop. -/
  | withdrawFee (l : PairLoop) (pair : ExchangePairConfig) (koreanPrice foreignPrice : PriceData)
    (rate : ℚ)
  /-- `get_withdraw_fee` for the best pair. -/
  | finalFee (idx : ℕ) (symbol : SymbolId) (best : Engine.PairQuote)
  /-- The stores, with the metrics at the fee that was found in the snapshot. -/
  | store (idx : ℕ) (symbol : SymbolId) (best : Engine.PairQuote) (snapshot : TransferSnapshot)
deriving DecidableEq

namespace Engine

/-- The route of a pair's coin. -/
def PairQuote.route (symbol : SymbolId) (quote : PairQuote) : Route :=
  (quote.korean, quote.foreign, symbol.base)

/-- The pair with its metrics at the given fee. -/
def PairQuote.withFee (quote : PairQuote) (fee : ℚ) : PairQuote :=
  { quote with
    metrics :=
      calculateRelayMetrics quote.koreanPrice.ask quote.koreanPrice.askQty quote.foreignPrice.bid
        quote.foreignPrice.bidQty quote.usdtRate (TradingConfig.getKoreanFeeRate quote.korean)
        (TradingConfig.getForeignFeeRate quote.foreign) fee }

/-- One step of `update_symbol_entry`. -/
def updateSymbolEntryStep (e : Engine) (nowMs : UInt64) :
    EvaluationPhase → Engine × EvaluationPhase
  | .idle => (e, .idle)
  | .nextPair l =>
    match l.pairs, l.best with
    | [], none => (e.clearState l.idx, .idle)
    | [], some best => (e, .finalFee l.idx l.symbol best)
    | pair :: pairs, _ =>
      if pair.entryEnabled = false then (e, .nextPair { l with pairs := pairs })
      else (e, .route { l with pairs := pairs } pair)
  | .route l pair =>
    if e.priceCache.isTransferRouteAvailable (pair.korean, pair.foreign, l.symbol.base) = false then
      (e, .nextPair l)
    else (e, .koreanPrice l pair)
  | .koreanPrice l pair =>
    let koreanPrice := e.priceCache.getPrice pair.korean l.symbol
    if koreanPrice.valid = false ∨ koreanPrice.ask ≤ 0 then (e, .nextPair l)
    else (e, .foreignPrice l pair koreanPrice)
  | .foreignPrice l pair koreanPrice =>
    let foreignPrice := e.priceCache.getPrice pair.foreign l.symbol.foreign
    if foreignPrice.valid = false ∨ foreignPrice.bid ≤ 0 then (e, .nextPair l)
    else if quotePairIsUsable nowMs koreanPrice foreignPrice = false then (e, .nextPair l)
    else (e, .usdtKrw l pair koreanPrice foreignPrice)
  | .usdtKrw l pair koreanPrice foreignPrice =>
    let rate := e.priceCache.getUsdtKrw pair.korean
    if rate ≤ 0 then (e, .nextPair l)
    else (e, .withdrawFee l pair koreanPrice foreignPrice rate)
  | .withdrawFee l pair koreanPrice foreignPrice rate =>
    let quote : PairQuote :=
      { korean := pair.korean
        foreign := pair.foreign
        koreanPrice := koreanPrice
        foreignPrice := foreignPrice
        usdtRate := rate
        metrics :=
          calculateRelayMetrics koreanPrice.ask koreanPrice.askQty foreignPrice.bid
            foreignPrice.bidQty rate (TradingConfig.getKoreanFeeRate pair.korean)
            (TradingConfig.getForeignFeeRate pair.foreign)
            (e.priceCache.getWithdrawFee (pair.korean, pair.foreign, l.symbol.base)) }
    (e, .nextPair { l with best := betterPair l.best quote })
  | .finalFee idx symbol best =>
    (e, .store idx symbol (best.withFee (e.priceCache.getWithdrawFee (best.route symbol)))
      e.priceCache.transferSnapshot)
  | .store idx _ best _ => (e.storeQualification idx best, .idle)

/-- `update_symbol_entry` up to its first look-up. -/
def callUpdateSymbolEntry (e : Engine) (idx : ℕ) : Engine × EvaluationPhase :=
  match e.symbols.symbols[idx]? with
  | none => (e, .idle)
  | some symbol =>
    if e.exchangePairs = [] then (e.clearState idx, .idle)
    else (e, .nextPair ⟨idx, symbol, e.exchangePairs, none⟩)

end Engine

structure EntryThreads where
  engine : Engine
  /-- The calls of `update_symbol_entry`. -/
  calls : ℕ → EvaluationPhase := fun _ => .idle

inductive EntryEvent
  /-- `finalize_withdraw_fees` publishes the tables as they are then. -/
  | publish (tables : TransferTables) (nowMs : UInt64)
  | ticker (ticker : Ticker) (nowMs : UInt64)
  /-- A thread calls `update_symbol_entry`. -/
  | call (id idx : ℕ)
  /-- The next look-up of a call, or its stores. -/
  | proceed (id : ℕ) (nowMs : UInt64)

namespace EntryThreads

/-- A call has come to where it left the engine. -/
def goTo (s : EntryThreads) (id : ℕ) (r : Engine × EvaluationPhase) : EntryThreads :=
  { engine := r.1, calls := Function.update s.calls id r.2 }

def step (s : EntryThreads) : EntryEvent → EntryThreads
  | .publish tables nowMs =>
    { s with
      engine := { s.engine with priceCache := s.engine.priceCache.publishTransfers tables nowMs } }
  | .ticker ticker nowMs =>
    { s with engine := { s.engine with priceCache := s.engine.priceCache.update ticker nowMs } }
  | .call id idx =>
    match s.calls id with
    | .idle => s.goTo id (s.engine.callUpdateSymbolEntry idx)
    | _ => s
  | .proceed id nowMs => s.goTo id (s.engine.updateSymbolEntryStep nowMs (s.calls id))

/-- No call is under way, and the given tables are published. -/
def start (e : Engine) (tables : TransferTables) (publishedMs : UInt64) : EntryThreads :=
  { engine := { e with priceCache := e.priceCache.publishTransfers tables publishedMs } }

end EntryThreads

end SpotRelay.Model
