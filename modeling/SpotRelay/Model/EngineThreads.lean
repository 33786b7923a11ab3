import SpotRelay.Model.EntryEvaluation
import SpotRelay.Model.System

/-!
# Ticker updates in several threads

`on_ticker_update` (arbitrage_engine.cpp:266-343) in any number of io threads at once, with
`update_symbol_entry` (532-654), `fire_entry_from_cache` (662-750) and the entry callback that the
scan calls (main.cpp:928-1042), between the steps of the loops and of start-up, which are those of
`System`.

One access of a flag, of a bit set or of a debounce time is one step: the loads and stores of
`qualified` and `signal_fired`, the bits, the check of the suppression flag, the two checks of the
callback and the claim behind them.  The look-ups of an evaluation are those of `EntryEvaluation`.
The values of an entry are stored in one step and read in one step, and so is a price.

The selection of a scan reads the tracker, the bit sets and the entries one after the other while
others write them.  What its loads yield comes with the event, so each may be from a moment of its
own.  The clock readings come with the events too, and a thread whose callback has opened the prompt
may go on before the answer.
-/

set_option autoImplicit false

namespace SpotRelay.Model

/-! ## Accesses of an entry -/

/-- The accesses with which `update_symbol_entry` ends. -/
inductive FlagPhase
  /-- `clear_state`: the loads of `qualified` and of `signal_fired`, and their stores. -/
  | wasQualified
  | wasFired (wasQualified : Bool)
  | unqualify
  | unfire
  /-- The values of the best pair. -/
  | values (best : Engine.PairQuote)
  /-- The load of `qualified` behind them, and its store. -/
  | loadQualified (qualifies : Bool)
  | storeQualified (wasQualified qualifies : Bool)
  /-- The load of `signal_fired`, and its reset when the qualification changes. -/
  | loadFired (wasQualified qualifies : Bool)
  | resetFired (qualifies : Bool)
  /-- `sync_entry_state_bits`. -/
  | candidateBit (qualifies signalFired : Bool)
  | firedBit (signalFired : Bool)
deriving DecidableEq

namespace Engine

def setCandidateBit (e : Engine) (idx : ℕ) (qualifies signalFired : Bool) : Engine :=
  if maxCachedSymbols ≤ idx then e
  else { e with candidateBits := e.candidateBits.set idx (qualifies && !signalFired) }

def setFiredBit (e : Engine) (idx : ℕ) (signalFired : Bool) : Engine :=
  if maxCachedSymbols ≤ idx then e
  else { e with signalFiredBits := e.signalFiredBits.set idx signalFired }

def storeQualified (e : Engine) (idx : ℕ) (qualifies : Bool) : Engine :=
  e.setEntry idx { e.entryCache idx with qualified := qualifies }

def storeFired (e : Engine) (idx : ℕ) (signalFired : Bool) : Engine :=
  e.setEntry idx { e.entryCache idx with signalFired := signalFired }

/-- One access of the flags; `none` behind the last one. -/
def flagStep (e : Engine) (idx : ℕ) : FlagPhase → Engine × Option FlagPhase
  | .wasQualified => (e, some (.wasFired (e.entryCache idx).qualified))
  | .wasFired wasQualified =>
    if wasQualified || (e.entryCache idx).signalFired then (e, some .unqualify)
    else (e, some (.candidateBit false false))
  | .unqualify => (e.storeQualified idx false, some .unfire)
  | .unfire => (e.storeFired idx false, some (.candidateBit false false))
  | .values best =>
    (e.setEntry idx (storedEntry (e.entryCache idx) best), some (.loadQualified best.qualifies))
  | .loadQualified qualifies =>
    (e, some (.storeQualified (e.entryCache idx).qualified qualifies))
  | .storeQualified wasQualified qualifies =>
    (e.storeQualified idx qualifies, some (.loadFired wasQualified qualifies))
  | .loadFired wasQualified qualifies =>
    if wasQualified ≠ qualifies then (e, some (.resetFired qualifies))
    else (e, some (.candidateBit qualifies (e.entryCache idx).signalFired))
  | .resetFired qualifies => (e.storeFired idx false, some (.candidateBit qualifies false))
  | .candidateBit qualifies signalFired =>
    (e.setCandidateBit idx qualifies signalFired, some (.firedBit signalFired))
  | .firedBit signalFired => (e.setFiredBit idx signalFired, none)

end Engine

/-! ## Scans -/

/-- What the loads of a selection yield. -/
structure ScanReads where
  candidateBits : AtomicBitset maxCachedSymbols := .empty _
  signalFiredBits : AtomicBitset maxCachedSymbols := .empty _
  positionState : ℕ → PositionState := fun _ => .noPosition
  netEdgePct : ℕ → ℚ := fun _ => 0
  qualified : ℕ → Bool := fun _ => false

/-- `select_entry_candidates` on these loads. -/
def ScanReads.selection (std : StdSort) (maxPositions : MaxPositions) (symbolCount : ℕ)
    (reads : ScanReads) : List ℕ :=
  (selectEntryCandidates std symbolCount maxPositions.val reads.candidateBits reads.signalFiredBits
    reads.positionState (fun idx => -reads.netEdgePct idx) reads.qualified).indices

/-- A candidate of the last loop of `fire_entry_from_cache`, with those behind it. -/
structure Candidate where
  idx : ℕ
  symbol : SymbolId
  /-- It has a position below its size. -/
  topUp : Bool
  rest : List ℕ
  positionState : ℕ → PositionState

/-- The accesses for a candidate, and those of the entry callback that its signal is passed to. -/
inductive FirePhase
  | loadQualified
  | loadFired
  | storeFired
  | candidateBit
  | firedBit
  /-- `emit_signal`. -/
  | emit
  /-- `get_position` in the callback. -/
  | checkPosition (signal : ArbitrageSignal)
  /-- `manual_trade_pending`. -/
  | checkPending (signal : ArbitrageSignal)
  /-- The prompt, or the claim of a slot. -/
  | takeUp (signal : ArbitrageSignal)
deriving DecidableEq

/-! ## Ticker updates -/

/-- What follows a call of `update_symbol_entry`. -/
inductive AfterEntry
  /-- The next round of `update_all_entries`. -/
  | nextEntry (idx : ℕ) (usdt : Bool)
  /-- The question whether to scan. -/
  | askScan (idx : ℕ)
deriving DecidableEq

/-- What a thread does next. -/
inductive TickPhase
  | idle
  /-- `price_cache_.update`. -/
  | cachePrice (ticker : Ticker)
  /-- `on_usdt_update`. -/
  | usdtUpdate (ticker : Ticker)
  /-- The head of the loop of `update_all_entries`; a USDT/KRW ticker scans behind it. -/
  | nextEntry (idx : ℕ) (usdt : Bool)
  | evaluate (phase : EvaluationPhase) (after : AfterEntry)
  | flags (idx : ℕ) (phase : FlagPhase) (after : AfterEntry)
  /-- `should_scan`: a qualified entry that has not fired skips the cooldown. -/
  | askQualified (idx : ℕ)
  | askFired (idx : ℕ)
  /-- `next_usdt_scan_ms_` or `next_entry_scan_ms_`: the load and the exchange. -/
  | loadDue (usdt : Bool)
  | exchangeDue (usdt : Bool) (due target : UInt64)
  /-- `entry_suppressed_`. -/
  | loadSuppressed
  | select
  | nextCandidate (indices : List ℕ) (positionState : ℕ → PositionState)
  | fire (c : Candidate) (phase : FirePhase)

namespace TickPhase

/-- Where a call of `update_symbol_entry` returns to. -/
def ofAfter : AfterEntry → TickPhase
  | .nextEntry idx usdt => .nextEntry idx usdt
  | .askScan idx => .askQualified idx

/-- A call of `update_symbol_entry` up to its first access. -/
def callEntry (e : Engine) (idx : ℕ) (after : AfterEntry) : TickPhase :=
  match e.symbols.symbols[idx]? with
  | none => ofAfter after
  | some symbol =>
    if e.exchangePairs = [] then .flags idx .wasQualified after
    else .evaluate (.nextPair ⟨idx, symbol, e.exchangePairs, none⟩) after

/-- A look-up of the evaluation; what it ends with is stored access by access. -/
def evaluateStep (e : Engine) (nowMs : UInt64) (after : AfterEntry) :
    EvaluationPhase → TickPhase
  | .idle => ofAfter after
  | .store idx _ best _ => .flags idx (.values best) after
  | .nextPair ⟨idx, _, [], none⟩ => .flags idx .wasQualified after
  | phase => .evaluate (e.updateSymbolEntryStep nowMs phase).2 after

/-- The next candidate of a scan. -/
def ofCandidates (symbols : SymbolTable) (positionState : ℕ → PositionState) :
    List ℕ → TickPhase
  | [] => .idle
  | idx :: rest =>
    match symbols.symbols[idx]? with
    | none => .nextCandidate rest positionState
    | some symbol =>
      .fire ⟨idx, symbol, decide (positionState idx = .partialPosition), rest, positionState⟩
        .loadQualified

end TickPhase

/-- The loop goes on behind a candidate. -/
def Candidate.next (c : Candidate) : TickPhase := .nextCandidate c.rest c.positionState

namespace System

/-- The entry callback behind its checks (main.cpp:939-1030). -/
def takeUp (s : System) (signal : ArbitrageSignal) : System :=
  if s.manualConfirmOnce then
    if s.manualPrompt.isSome then s
    else { s with manualPrompt := some signal }.setEntrySuppressed true
  else s.claim ⟨signal, none⟩

/-- One access for a candidate of a scan. -/
def fireStep (s : System) (nowMs : UInt64) (c : Candidate) : FirePhase → System × TickPhase
  | .loadQualified =>
    if (s.engine.entryCache c.idx).qualified = false then (s, c.next)
    else (s, .fire c (if c.topUp then .emit else .loadFired))
  | .loadFired =>
    if (s.engine.entryCache c.idx).signalFired then (s, c.next) else (s, .fire c .storeFired)
  | .storeFired => ({ s with engine := s.engine.storeFired c.idx true }, .fire c .candidateBit)
  | .candidateBit =>
    ({ s with engine := s.engine.setCandidateBit c.idx true true }, .fire c .firedBit)
  | .firedBit => ({ s with engine := s.engine.setFiredBit c.idx true }, .fire c .emit)
  | .emit =>
    let em := s.engine.emitSignal nowMs c.symbol c.idx
    ({ s with emitted := s.emitted ++ [em] }, .fire c (.checkPosition em.signal))
  | .checkPosition signal =>
    if (s.bot.tracker.getPosition signal.symbol).isSome then (s, c.next)
    else (s, .fire c (if s.manualConfirmOnce then .checkPending signal else .takeUp signal))
  | .checkPending signal =>
    if s.manualTradePending then (s, c.next) else (s, .fire c (.takeUp signal))
  | .takeUp signal => (s.takeUp signal, c.next)

/-- `next_usdt_scan_ms_` or `next_entry_scan_ms_`. -/
def nextDue (e : Engine) (usdt : Bool) : UInt64 :=
  if usdt then e.nextUsdtScanMs else e.nextEntryScanMs

def storeDue (e : Engine) (usdt : Bool) (target : UInt64) : Engine :=
  if usdt then { e with nextUsdtScanMs := target } else { e with nextEntryScanMs := target }

/-- The cooldown that is added to the time of a scan. -/
def cooldown (usdt : Bool) : UInt64 :=
  if usdt then TradingConfig.usdtFullScanDebounceMs else TradingConfig.entryFastScanCooldownMs

/-- One access of a thread. -/
def tickStep (s : System) (nowMs : UInt64) : TickPhase → System × TickPhase
  | .idle => (s, .idle)
  | .cachePrice ticker =>
    ({ s with engine := { s.engine with priceCache := s.engine.priceCache.update ticker nowMs } },
      if ticker.symbol.isUsdtKrw then .usdtUpdate ticker
      else
        match s.engine.tickerIndex ticker with
        | none => .idle
        | some idx => .callEntry s.engine idx (.askScan idx))
  | .usdtUpdate ticker =>
    ({ s with engine := s.engine.onUsdtUpdate ticker.exchange (Engine.usdtPrice ticker) },
      .nextEntry 0 true)
  | .nextEntry idx usdt =>
    if idx < s.engine.symbols.symbols.length then
      (s, .callEntry s.engine idx (.nextEntry (idx + 1) usdt))
    else (s, if usdt then .loadDue true else .idle)
  | .evaluate phase after => (s, TickPhase.evaluateStep s.engine nowMs after phase)
  | .flags idx phase after =>
    let r := s.engine.flagStep idx phase
    ({ s with engine := r.1 },
      match r.2 with
      | none => .ofAfter after
      | some phase => .flags idx phase after)
  | .askQualified idx =>
    (s, if (s.engine.entryCache idx).qualified then .askFired idx else .loadDue false)
  | .askFired idx =>
    (s, if (s.engine.entryCache idx).signalFired then .loadDue false else .loadSuppressed)
  | .loadDue usdt =>
    (s,
      if nextDue s.engine usdt ≤ nowMs then
        .exchangeDue usdt (nextDue s.engine usdt) (nowMs + cooldown usdt)
      else .idle)
  | .exchangeDue usdt due target =>
    if nextDue s.engine usdt = due then
      ({ s with engine := storeDue s.engine usdt target }, .loadSuppressed)
    else (s, .idle)
  | .loadSuppressed =>
    (s,
      if s.engine.exchangePairs = [] ∨ s.engine.entrySuppressed = true ∨
          s.engine.symbols.symbols.length = 0 then .idle
      else .select)
  | .select => (s, .select)
  | .nextCandidate indices positionState =>
    (s, .ofCandidates s.engine.symbols positionState indices)
  | .fire c phase => s.fireStep nowMs c phase

end System

/-! ## The threads -/

/-- The steps of a system that no thread of the engine makes. -/
def SystemEvent.ofLoops : SystemEvent → Bool
  | .tickerUpdate .. | .refreshEntryFilters _ | .callback _ => false
  | _ => true

abbrev LoopEvent : Type := { event : SystemEvent // event.ofLoops = true }

structure ThreadedSystem where
  system : System
  threads : List TickPhase

inductive ThreadEvent
  /-- A step of the loops, of start-up or of shut-down. -/
  | other (event : LoopEvent)
  /-- A thread is given a ticker. -/
  | tick (thread : ℕ) (ticker : Ticker)
  /-- A thread calls `refresh_entry_filters`. -/
  | refresh (thread : ℕ)
  /-- The next access of a thread. -/
  | proceed (thread : ℕ) (nowMs : UInt64)
  /-- A thread has made the loads of its selection. -/
  | select (thread : ℕ) (reads : ScanReads)

namespace ThreadedSystem

/-- A thread that is idle begins a call. -/
def beginCall (t : ThreadedSystem) (thread : ℕ) (phase : TickPhase) : ThreadedSystem :=
  match t.threads[thread]? with
  | some .idle => { t with threads := t.threads.set thread phase }
  | _ => t

def proceed (t : ThreadedSystem) (thread : ℕ) (nowMs : UInt64) : ThreadedSystem :=
  match t.threads[thread]? with
  | none => t
  | some phase =>
    let r := t.system.tickStep nowMs phase
    { system := r.1, threads := t.threads.set thread r.2 }

def selectAt (std : StdSort) (t : ThreadedSystem) (thread : ℕ) (reads : ScanReads) :
    ThreadedSystem :=
  match t.threads[thread]? with
  | some .select =>
    { t with
      threads := t.threads.set thread
        (.nextCandidate
          (reads.selection std t.system.bot.maxPositions t.system.engine.symbols.symbols.length)
          reads.positionState) }
  | _ => t

def step (std : StdSort) (t : ThreadedSystem) : ThreadEvent → ThreadedSystem
  | .other event => { t with system := systemStep std t.system event.val }
  | .tick thread ticker => t.beginCall thread (.cachePrice ticker)
  | .refresh thread => t.beginCall thread (.nextEntry 0 false)
  | .proceed thread nowMs => t.proceed thread nowMs
  | .select thread reads => t.selectAt std thread reads

/-- The system when its engine has been configured, with its threads. -/
def start (threads : ℕ) (maxPositions : MaxPositions) (blacklist : List SymbolId)
    (recovered : Option Position) (symbols : SymbolTable) (pairs : List ExchangePairConfig)
    (manualConfirmOnce : Bool) : ThreadedSystem where
  system := startSystem maxPositions blacklist recovered symbols pairs manualConfirmOnce
  threads := List.replicate threads .idle

def run (std : StdSort) (t : ThreadedSystem) (events : List ThreadEvent) : ThreadedSystem :=
  events.foldl (step std) t

end ThreadedSystem

end SpotRelay.Model
