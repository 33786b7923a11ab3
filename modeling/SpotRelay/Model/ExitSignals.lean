import SpotRelay.Model.Monitor

/-!
# The exit side of the engine

`check_exit_conditions`, `check_symbol_exit` and their calls (arbitrage_engine.cpp:266-343, 505-514,
752-855).  The signals are those passed to `on_exit_signal_` and pushed to `exit_signals_`; they
change nothing in the engine.
-/

set_option autoImplicit false

namespace SpotRelay.Model

namespace Engine

/-- The engine's own `quote_pair_is_usable`, at its exit limits (arbitrage_engine.cpp:43-81). -/
def quotePairIsUsableExit (nowMs : UInt64) (korean foreign : PriceData) : Bool :=
  if !quoteIsFreshWithLimit korean nowMs TradingConfig.maxQuoteAgeMsExit ||
      !quoteIsFreshWithLimit foreign nowMs TradingConfig.maxQuoteAgeMsExit then false
  else if timestampDiff korean foreign > TradingConfig.maxQuoteDesyncMsExit then false
  else if spreadExceeds korean.bid korean.ask TradingConfig.maxKoreanSpreadPctExit then false
  else !spreadExceeds foreign.bid foreign.ask TradingConfig.maxForeignSpreadPctExit

/-- What the two checks have in common (arbitrage_engine.cpp:769-806, 821-854). -/
def exitSignal (e : Engine) (nowMs : UInt64) (pos : Position)
    (koreanSymbol foreignSymbol : SymbolId) : Option ExitSignal :=
  let koreanPrice := e.priceCache.getPrice pos.koreanExchange koreanSymbol
  if koreanPrice.valid = false ∨ koreanPrice.bid ≤ 0 then none
  else
    let foreignPrice := e.priceCache.getPrice pos.foreignExchange foreignSymbol
    if foreignPrice.valid = false ∨ foreignPrice.ask ≤ 0 then none
    else if quotePairIsUsableExit nowMs koreanPrice foreignPrice = false then none
    else
      let usdtRate := e.priceCache.getUsdtKrw pos.koreanExchange
      if usdtRate ≤ 0 then none
      else
        let premium := calculateExitPremium koreanPrice.bid foreignPrice.ask usdtRate
        let dynamicExit :=
          max (pos.entryPremium + TradingConfig.dynamicExitSpread)
            TradingConfig.exitPremiumThreshold
        if premium < dynamicExit then none
        else
          some
            { symbol := koreanSymbol
              koreanExchange := pos.koreanExchange
              foreignExchange := pos.foreignExchange
              premium := premium
              koreanBid := koreanPrice.bid
              foreignAsk := foreignPrice.ask
              usdtKrwRate := usdtRate }

/-- `foreign_symbols_` of a monitored symbol, else the fallback. -/
def foreignSymbolOf (e : Engine) (symbol : SymbolId) : SymbolId :=
  match (e.symbols.koreanIndex symbol).bind (e.symbols.symbols[·]?) with
  | some monitored => monitored.foreign
  | none => symbol.foreign

/-- `get_position` of every active slot, in order. -/
def activePositions (e : Engine) : List Position := e.tracker.slots.filterMap id

/-- `check_exit_conditions`: every position. -/
def checkExitConditions (e : Engine) (nowMs : UInt64) : List ExitSignal :=
  if e.activePositions = [] then []
  else
    e.activePositions.filterMap fun pos =>
      e.exitSignal nowMs pos pos.symbol (e.foreignSymbolOf pos.symbol)

/-- `check_symbol_exit`: the position of one monitored symbol. -/
def checkSymbolExit (e : Engine) (nowMs : UInt64) (idx : ℕ) : List ExitSignal :=
  match e.symbols.symbols[idx]? with
  | none => []
  | some symbol =>
    match e.tracker.getPosition symbol with
    | none => []
    | some pos => (e.exitSignal nowMs pos symbol symbol.foreign).toList

/-- The exit checks of `on_ticker_update`, which come last. -/
def exitsOfTicker (e : Engine) (nowMs : UInt64) (ticker : Ticker) : List ExitSignal :=
  if ticker.symbol.isUsdtKrw then e.checkExitConditions nowMs
  else
    match e.tickerIndex ticker with
    | none => []
    | some idx =>
      match e.symbols.symbols[idx]? with
      | none => []
      | some symbol =>
        if (e.tracker.getPosition symbol).isSome then e.checkSymbolExit nowMs idx else []

end Engine

/-- The engine with the exit signals it has emitted. -/
structure ExitWatch where
  engine : Engine := .initial
  signals : List ExitSignal := []
  /-- The clock at the last event (ghost). -/
  nowMs : UInt64 := 0

inductive ExitEvent
  /-- An operation; the clock is that of its exit check, if it has one. -/
  | op (op : Engine.Op) (nowMs : UInt64)
  /-- The backup check of `monitor_loop`. -/
  | backup (nowMs : UInt64)

namespace ExitWatch

variable (std : StdSort) (maxPositions : MaxPositions)

def step (w : ExitWatch) : ExitEvent → ExitWatch
  | .op op nowMs =>
    let engine := (w.engine.step std maxPositions op).1
    let exits :=
      match op with
      | .tickerUpdate _ ticker => engine.exitsOfTicker nowMs ticker
      | _ => []
    { engine := engine, signals := w.signals ++ exits, nowMs := nowMs }
  | .backup nowMs =>
    { w with signals := w.signals ++ w.engine.checkExitConditions nowMs, nowMs := nowMs }

/-- The state after a run. -/
def run (w : ExitWatch) (events : List ExitEvent) : ExitWatch :=
  events.foldl (step std maxPositions) w

end ExitWatch

end SpotRelay.Model
