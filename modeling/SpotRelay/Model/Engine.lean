import SpotRelay.Model.EntrySelection
import SpotRelay.Model.PositionTracker
import SpotRelay.Model.PriceCache

/-!
# The entry side of the engine

`ArbitrageEngine` (arbitrage_engine.cpp:196-343, 345-372, 473-477, 521-750) as far as it
decides which entry signals are emitted: every ticker recomputes the cached entry of its
symbol, and a scan of the cache fires the qualified ones.  Exit signals are not modelled; they
change nothing here.

One operation is one step.  It reads the clock when it checks quotes and again when it scans.
-/

set_option autoImplicit false

namespace SpotRelay.Model

/-- `MAX_CACHED_SYMBOLS`. -/
def maxCachedSymbols : ℕ := 1024

/-! ## Symbols -/

/-- `monitored_symbols_` with its indexes: a symbol is added once, and no more than fit into
the entry cache. -/
structure SymbolTable where
  symbols : List SymbolId
  nodup : symbols.Nodup
  length_le : symbols.length ≤ maxCachedSymbols

namespace SymbolTable

def empty : SymbolTable := ⟨[], List.nodup_nil, Nat.zero_le _⟩

/-- `add_symbol` (arbitrage_engine.cpp:196-227). -/
def add (t : SymbolTable) (symbol : SymbolId) : SymbolTable :=
  if hmem : symbol ∈ t.symbols then t
  else if hfull : maxCachedSymbols ≤ t.symbols.length then t
  else
    { symbols := t.symbols ++ [symbol]
      nodup := by
        refine List.nodup_append.mpr ⟨t.nodup, by simp, ?_⟩
        intro a ha b hb
        rw [List.mem_singleton] at hb
        rintro rfl
        exact hmem (hb ▸ ha)
      length_le := by
        simp only [List.length_append, List.length_singleton]
        omega }

/-- `korean_symbol_index_`. -/
def koreanIndex (t : SymbolTable) (symbol : SymbolId) : Option ℕ := t.symbols.idxOf? symbol

/-- `foreign_symbol_index_`: a later symbol of the same coin replaces an earlier one. -/
def foreignIndex (t : SymbolTable) (symbol : SymbolId) : Option ℕ :=
  (t.symbols.zipIdx.reverse.find? fun p => p.1.foreign = symbol).map Prod.snd

end SymbolTable

/-! ## State -/

/-- `ExchangePairConfig`. -/
structure ExchangePairConfig where
  korean : Exchange
  foreign : Exchange
  entryEnabled : Bool := true
deriving DecidableEq

/-- `CachedEntryPremium` (arbitrage_engine.hpp:1003-1021). -/
structure CachedEntryPremium where
  entryPremium : ℚ := 100
  koreanAsk : ℚ := 0
  koreanAskQty : ℚ := 0
  foreignBid : ℚ := 0
  foreignBidQty : ℚ := 0
  matchQty : ℚ := 0
  targetCoinQty : ℚ := 0
  maxTradableUsdtAtBest : ℚ := 0
  grossEdgePct : ℚ := 0
  netEdgePct : ℚ := 0
  netProfitKrw : ℚ := 0
  usdtRate : ℚ := 0
  bothCanFillTarget : Bool := false
  bestKoreanExchange : Exchange := .bithumb
  bestForeignExchange : Exchange := .bithumb
  qualified : Bool := false
  signalFired : Bool := false
  /-- The two quotes the entry was computed from (ghost). -/
  koreanQuote : PriceData := {}
  foreignQuote : PriceData := {}
deriving DecidableEq

structure Engine where
  symbols : SymbolTable
  exchangePairs : List ExchangePairConfig := []
  priceCache : PriceCache := .empty
  /-- `position_tracker_`. -/
  tracker : PositionTracker := .empty
  /-- `entry_cache_`. -/
  entryCache : ℕ → CachedEntryPremium := fun _ => {}
  /-- `entry_candidate_bits_` and `entry_signal_fired_bits_`. -/
  candidateBits : AtomicBitset maxCachedSymbols := .empty _
  signalFiredBits : AtomicBitset maxCachedSymbols := .empty _
  entrySuppressed : Bool := false
  nextEntryScanMs : UInt64 := 0
  nextUsdtScanMs : UInt64 := 0

namespace Engine

/-- The engine as it is constructed. -/
def initial : Engine := { symbols := .empty }

/-- The clock readings of one operation. -/
structure Clock where
  quotesMs : UInt64
  scanMs : UInt64
deriving DecidableEq

/-- A signal passed to `on_entry_signal_`, with the cached entry it was read from and the time
of the call. -/
structure Emission where
  signal : ArbitrageSignal
  entry : CachedEntryPremium
  emittedMs : UInt64
deriving DecidableEq

/-! ## Quote checks -/

/-- `quote_is_fresh_with_limit` (arbitrage_engine.cpp:36-41). -/
def quoteIsFreshWithLimit (price : PriceData) (nowMs maxAgeMs : UInt64) : Bool :=
  if !price.valid || price.timestamp = 0 then false
  else if nowMs < price.timestamp then false
  else decide (nowMs - price.timestamp ≤ maxAgeMs)

/-- `|korean.timestamp - foreign.timestamp|`. -/
def timestampDiff (korean foreign : PriceData) : UInt64 :=
  if korean.timestamp ≥ foreign.timestamp then korean.timestamp - foreign.timestamp
  else foreign.timestamp - korean.timestamp

/-- The engine's own `quote_pair_is_usable`, at its entry limits
(arbitrage_engine.cpp:43-81). -/
def quotePairIsUsable (nowMs : UInt64) (korean foreign : PriceData) : Bool :=
  if !quoteIsFreshWithLimit korean nowMs TradingConfig.maxQuoteAgeMs ||
      !quoteIsFreshWithLimit foreign nowMs TradingConfig.maxQuoteAgeMs then false
  else if timestampDiff korean foreign > TradingConfig.maxQuoteDesyncMs then false
  else if spreadExceeds korean.bid korean.ask TradingConfig.maxKoreanSpreadPct then false
  else !spreadExceeds foreign.bid foreign.ask TradingConfig.maxForeignSpreadPct

/-! ## The cached entry of a symbol -/

/-- `sync_entry_state_bits` (arbitrage_engine.cpp:526-530). -/
def syncEntryStateBits (e : Engine) (idx : ℕ) (qualifies signalFired : Bool) : Engine :=
  if maxCachedSymbols ≤ idx then e
  else
    { e with
      candidateBits := e.candidateBits.set idx (qualifies && !signalFired)
      signalFiredBits := e.signalFiredBits.set idx signalFired }

def setEntry (e : Engine) (idx : ℕ) (entry : CachedEntryPremium) : Engine :=
  { e with entryCache := fun i => if i = idx then entry else e.entryCache i }

/-- `clear_state` of `update_symbol_entry`. -/
def clearState (e : Engine) (idx : ℕ) : Engine :=
  let cache := e.entryCache idx
  let cleared :=
    if cache.qualified || cache.signalFired then
      e.setEntry idx { cache with qualified := false, signalFired := false }
    else e
  cleared.syncEntryStateBits idx false false

/-- The quotes, the rate and the metrics of a pair, `none` where the loop of
`update_symbol_entry` continues with the next pair (arbitrage_engine.cpp:563-588). -/
structure PairQuote where
  korean : Exchange
  foreign : Exchange
  koreanPrice : PriceData
  foreignPrice : PriceData
  usdtRate : ℚ
  metrics : RelayMetrics
deriving DecidableEq

def pairQuote (e : Engine) (nowMs : UInt64) (symbol : SymbolId) (pair : ExchangePairConfig) :
    Option PairQuote :=
  let route : Route := (pair.korean, pair.foreign, symbol.base)
  if pair.entryEnabled = false then none
  else if e.priceCache.isTransferRouteAvailable route = false then none
  else
    let koreanPrice := e.priceCache.getPrice pair.korean symbol
    if koreanPrice.valid = false ∨ koreanPrice.ask ≤ 0 then none
    else
      let foreignPrice := e.priceCache.getPrice pair.foreign symbol.foreign
      if foreignPrice.valid = false ∨ foreignPrice.bid ≤ 0 then none
      else if quotePairIsUsable nowMs koreanPrice foreignPrice = false then none
      else
        let rate := e.priceCache.getUsdtKrw pair.korean
        if rate ≤ 0 then none
        else
          some
            { korean := pair.korean
              foreign := pair.foreign
              koreanPrice := koreanPrice
              foreignPrice := foreignPrice
              usdtRate := rate
              metrics :=
                calculateRelayMetrics koreanPrice.ask koreanPrice.askQty foreignPrice.bid
                  foreignPrice.bidQty rate (TradingConfig.getKoreanFeeRate pair.korean)
                  (TradingConfig.getForeignFeeRate pair.foreign)
                  (e.priceCache.getWithdrawFee route) }

/-- `best_net_profit` and `best_net_edge` so far; both start at -1e18. -/
def bestSoFar (best : Option PairQuote) : ℚ × ℚ :=
  match best with
  | none => (-10 ^ 18, -10 ^ 18)
  | some b => (b.metrics.netProfitKrw, b.metrics.netEdgePct)

/-- One round of the pair loop (arbitrage_engine.cpp:589-600). -/
def betterPair (best : Option PairQuote) (quote : PairQuote) : Option PairQuote :=
  let (bestNetProfit, bestNetEdge) := bestSoFar best
  if bestNetProfit < quote.metrics.netProfitKrw ∨
      quote.metrics.netProfitKrw = bestNetProfit ∧ bestNetEdge < quote.metrics.netEdgePct then
    some quote
  else best

/-- The pair with the best projected net profit, `none` where `best_usdt_rate` stays 0. -/
def bestPair (e : Engine) (nowMs : UInt64) (symbol : SymbolId) : Option PairQuote :=
  (e.exchangePairs.filterMap (e.pairQuote nowMs symbol)).foldl betterPair none

/-- `PremiumCalculator::calculate_entry_premium` (arbitrage_engine.hpp:763-769). -/
def calculateEntryPremium (koreanAsk foreignBid usdtKrwRate : ℚ) : ℚ :=
  if foreignBid ≤ 0 ∨ usdtKrwRate ≤ 0 then 0 else premiumPct koreanAsk foreignBid usdtKrwRate

/-- The values that `update_symbol_entry` stores for its best pair; the flags stay as they
are (arbitrage_engine.cpp:607-642).  The metrics are computed a second time in the source,
from the same arguments. -/
def storedEntry (cache : CachedEntryPremium) (best : PairQuote) : CachedEntryPremium :=
  { cache with
    entryPremium :=
      calculateEntryPremium best.koreanPrice.ask best.foreignPrice.bid best.usdtRate
    koreanAsk := best.koreanPrice.ask
    koreanAskQty := best.koreanPrice.askQty
    foreignBid := best.foreignPrice.bid
    foreignBidQty := best.foreignPrice.bidQty
    bestKoreanExchange := best.korean
    bestForeignExchange := best.foreign
    matchQty := best.metrics.matchQty
    targetCoinQty := best.metrics.targetCoinQty
    maxTradableUsdtAtBest := best.metrics.maxTradableUsdtAtBest
    grossEdgePct := best.metrics.grossEdgePct
    netEdgePct := best.metrics.netEdgePct
    netProfitKrw := best.metrics.netProfitKrw
    bothCanFillTarget := best.metrics.bothCanFillTarget
    usdtRate := best.usdtRate
    koreanQuote := best.koreanPrice
    foreignQuote := best.foreignPrice }

/-- The entry gate of a pair. -/
def PairQuote.qualifies (best : PairQuote) : Bool :=
  TradingConfig.entryGatePasses best.metrics.bothCanFillTarget best.metrics.matchQty
    best.metrics.netEdgePct best.metrics.netProfitKrw

/-- The end of `update_symbol_entry`: the flags of the stored entry, and `signal_fired` is
reset when the qualification changes (arbitrage_engine.cpp:644-653). -/
def storeQualification (e : Engine) (idx : ℕ) (best : PairQuote) : Engine :=
  let cache := e.entryCache idx
  let qualifies := best.qualifies
  let signalFired := if cache.qualified ≠ qualifies then false else cache.signalFired
  let stored := { storedEntry cache best with qualified := qualifies, signalFired := signalFired }
  (e.setEntry idx stored).syncEntryStateBits idx qualifies signalFired

/-- `update_symbol_entry` (arbitrage_engine.cpp:532-654). -/
def updateSymbolEntry (e : Engine) (nowMs : UInt64) (idx : ℕ) : Engine :=
  match e.symbols.symbols[idx]? with
  | none => e
  | some symbol =>
    if e.exchangePairs = [] then e.clearState idx
    else
      match e.bestPair nowMs symbol with
      | none => e.clearState idx
      | some best => e.storeQualification idx best

/-- `update_all_entries`. -/
def updateAllEntries (e : Engine) (nowMs : UInt64) : Engine :=
  (List.range e.symbols.symbols.length).foldl (fun e idx => e.updateSymbolEntry nowMs idx) e

/-! ## The scan -/

/-- 2 for a position below 95 % of its size, else 1. -/
def stateOfPosition (pos : Position) : PositionState :=
  if pos.foreignAmount * pos.foreignEntryPrice < pos.positionSizeUsd * (95 / 100) then
    .partialPosition
  else .fullPosition

/-- `position_state` of `fire_entry_from_cache`: a later position of a symbol replaces an
earlier one (arbitrage_engine.cpp:669-681). -/
def positionState (e : Engine) : ℕ → PositionState :=
  (e.tracker.slots.filterMap id).foldl
    (fun state pos =>
      match e.symbols.koreanIndex pos.symbol with
      | none => state
      | some idx => fun i => if i = idx then stateOfPosition pos else state i)
    fun _ => .noPosition

/-- `emit_signal`. -/
def emitSignal (e : Engine) (scanMs : UInt64) (symbol : SymbolId) (idx : ℕ) : Emission :=
  let c := e.entryCache idx
  { signal :=
      { symbol := symbol
        koreanExchange := c.bestKoreanExchange
        foreignExchange := c.bestForeignExchange
        premium := c.entryPremium
        koreanAsk := c.koreanAsk
        koreanAskQty := c.koreanAskQty
        foreignBid := c.foreignBid
        foreignBidQty := c.foreignBidQty
        usdtKrwRate := c.usdtRate }
    entry := c
    emittedMs := scanMs }

/-- `signal_fired.store(true)` and the bits. -/
def markFired (e : Engine) (idx : ℕ) : Engine :=
  (e.setEntry idx { e.entryCache idx with signalFired := true }).syncEntryStateBits idx true true

/-- One round of the last loop of `fire_entry_from_cache` (arbitrage_engine.cpp:736-749). -/
def fireCandidate (positionState : ℕ → PositionState) (scanMs : UInt64)
    (r : Engine × List Emission) (idx : ℕ) : Engine × List Emission :=
  let e := r.1
  match e.symbols.symbols[idx]? with
  | none => r
  | some symbol =>
    let isPartial := positionState idx = .partialPosition
    if (e.entryCache idx).qualified = false then r
    else if ¬isPartial ∧ (e.entryCache idx).signalFired = true then r
    else
      let e := if isPartial then e else e.markFired idx
      (e, r.2 ++ [e.emitSignal scanMs symbol idx])

/-- The selection of a scan. -/
def selection (std : StdSort) (maxPositions : MaxPositions) (e : Engine) :
    EntrySelectionResult :=
  selectEntryCandidates std e.symbols.symbols.length maxPositions.val e.candidateBits
    e.signalFiredBits e.positionState (fun idx => -(e.entryCache idx).netEdgePct)
    fun idx => (e.entryCache idx).qualified

/-- `fire_entry_from_cache` (arbitrage_engine.cpp:662-750): the new state and the signals it
emits. -/
def fireEntryFromCache (std : StdSort) (maxPositions : MaxPositions) (e : Engine)
    (scanMs : UInt64) : Engine × List Emission :=
  if e.exchangePairs = [] then (e, [])
  else if e.entrySuppressed then (e, [])
  else if e.symbols.symbols.length = 0 then (e, [])
  else
    (selection std maxPositions e).indices.foldl (fireCandidate e.positionState scanMs) (e, [])

/-! ## Operations -/

/-- `on_usdt_update` (arbitrage_engine.cpp:345-372). -/
def onUsdtUpdate (e : Engine) (ex : Exchange) (price : ℚ) : Engine :=
  if price ≤ 0 then e
  else
    let prev := e.priceCache.getUsdtKrw ex
    if 0 < prev ∧ TradingConfig.maxUsdtJumpPct < |price - prev| / prev * 100 then e
    else { e with priceCache := e.priceCache.updateUsdtKrw ex price }

/-- The executable mid, else the last trade. -/
def usdtPrice (ticker : Ticker) : ℚ :=
  if 0 < ticker.bid ∧ 0 < ticker.ask ∧ ticker.bid ≤ ticker.ask then
    (ticker.bid + ticker.ask) * (1 / 2)
  else ticker.last

/-- The USDT/KRW branch of `on_ticker_update` (arbitrage_engine.cpp:275-297). -/
def onUsdtTicker (std : StdSort) (maxPositions : MaxPositions) (e : Engine) (clock : Clock)
    (ticker : Ticker) : Engine × List Emission :=
  let e := (e.onUsdtUpdate ticker.exchange (usdtPrice ticker)).updateAllEntries clock.quotesMs
  if e.nextUsdtScanMs ≤ clock.scanMs then
    fireEntryFromCache std maxPositions
      { e with nextUsdtScanMs := clock.scanMs + TradingConfig.usdtFullScanDebounceMs } clock.scanMs
  else (e, [])

/-- The index of the symbol a ticker is for. -/
def tickerIndex (e : Engine) (ticker : Ticker) : Option ℕ :=
  if ticker.exchange.isKorean then e.symbols.koreanIndex ticker.symbol
  else e.symbols.foreignIndex ticker.symbol

/-- The incremental branch of `on_ticker_update`: a qualified entry that has not fired skips
the cooldown (arbitrage_engine.cpp:299-334). -/
def onSymbolTicker (std : StdSort) (maxPositions : MaxPositions) (e : Engine) (clock : Clock)
    (idx : ℕ) : Engine × List Emission :=
  let e := e.updateSymbolEntry clock.quotesMs idx
  if (e.entryCache idx).qualified && !(e.entryCache idx).signalFired then
    fireEntryFromCache std maxPositions e clock.scanMs
  else if e.nextEntryScanMs ≤ clock.scanMs then
    fireEntryFromCache std maxPositions
      { e with nextEntryScanMs := clock.scanMs + TradingConfig.entryFastScanCooldownMs }
      clock.scanMs
  else (e, [])

/-- `on_ticker_update`. -/
def onTickerUpdate (std : StdSort) (maxPositions : MaxPositions) (e : Engine) (clock : Clock)
    (ticker : Ticker) : Engine × List Emission :=
  let e := { e with priceCache := e.priceCache.update ticker clock.quotesMs }
  if ticker.symbol.isUsdtKrw then onUsdtTicker std maxPositions e clock ticker
  else
    match e.tickerIndex ticker with
    | none => (e, [])
    | some idx => onSymbolTicker std maxPositions e clock idx

inductive Op
  | addSymbol (symbol : SymbolId)
  | addExchangePair (korean foreign : Exchange)
  | setExchangePairEntryEnabled (korean foreign : Exchange) (enabled : Bool)
  | tickerUpdate (clock : Clock) (ticker : Ticker)
  | usdtUpdate (ex : Exchange) (price : ℚ)
  /-- `finalize_withdraw_fees` publishes a snapshot. -/
  | publishTransfers (snapshot : TransferSnapshot)
  | refreshEntryFilters (nowMs : UInt64)
  /-- Loops open and close positions in the tracker. -/
  | positionsChange (tracker : PositionTracker)
  | setEntrySuppressed (suppressed : Bool)

/-- `set_exchange_pair_entry_enabled`. -/
def setPairEnabled (korean foreign : Exchange) (enabled : Bool) (pair : ExchangePairConfig) :
    ExchangePairConfig :=
  if pair.korean = korean ∧ pair.foreign = foreign then { pair with entryEnabled := enabled }
  else pair

/-- One operation: the new state and the signals it emits. -/
def step (std : StdSort) (maxPositions : MaxPositions) (e : Engine) : Op → Engine × List Emission
  | .addSymbol symbol => ({ e with symbols := e.symbols.add symbol }, [])
  | .addExchangePair korean foreign =>
    ({ e with exchangePairs := e.exchangePairs ++ [⟨korean, foreign, true⟩] }, [])
  | .setExchangePairEntryEnabled korean foreign enabled =>
    ({ e with exchangePairs := e.exchangePairs.map (setPairEnabled korean foreign enabled) }, [])
  | .tickerUpdate clock ticker => onTickerUpdate std maxPositions e clock ticker
  | .usdtUpdate ex price => (e.onUsdtUpdate ex price, [])
  | .publishTransfers snapshot =>
    ({ e with priceCache := { e.priceCache with transferSnapshot := snapshot } }, [])
  | .refreshEntryFilters nowMs => (e.updateAllEntries nowMs, [])
  | .positionsChange tracker => ({ e with tracker := tracker }, [])
  | .setEntrySuppressed suppressed => ({ e with entrySuppressed := suppressed }, [])

/-- A run, without the signals. -/
def run (std : StdSort) (maxPositions : MaxPositions) (e : Engine) (ops : List Op) : Engine :=
  ops.foldl (fun e op => (e.step std maxPositions op).1) e

end Engine

end SpotRelay.Model
