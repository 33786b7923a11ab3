import SpotRelay.Model.Bot
import SpotRelay.Model.Engine

/-!
# Engine, callback and loops together

The bot of main.cpp with its engine: ticker updates emit entry signals, the entry callback
turns a signal into a lifecycle loop, and the loops change the tracker and the suppression flag
that the engine reads (lines 61-76, 842-1042, 1895-1998).

Threads interleave between the steps.  An update with its scan is one step, and so is each
callback it makes.  A thread that has changed `g_active_loops` writes the suppression flag in a
later step; a claimed slot is enqueued after that write.
-/

set_option autoImplicit false

namespace SpotRelay.Model

/-- A signal whose entry callback has not run yet. -/
structure PendingSignal where
  signal : ArbitrageSignal
  /-- The scan emitted it for a symbol with a position. -/
  topUp : Bool
deriving DecidableEq

/-- A write of the suppression flag that follows a change of `g_active_loops`. -/
inductive FlagStore
  /-- The last slot was claimed: suppress, then enqueue the task. -/
  | claimed (task : LifecycleTask)
  /-- A slot was released: lift the suppression. -/
  | released
deriving DecidableEq

structure System where
  bot : BotState
  engine : Engine
  /-- `LifecycleExecutor::running_`. -/
  executorRunning : Bool := false
  signals : List PendingSignal := []
  /-- The writes still to be made, oldest change of the counter first. -/
  flagStores : List FlagStore := []
  manualConfirmOnce : Bool := false
  manualTradePending : Bool := false
  /-- The candidate of the open prompt; `manual_prompt_active` while there is one. -/
  manualPrompt : Option ArbitrageSignal := none
  /-- Every signal emitted so far (ghost). -/
  emitted : List Engine.Emission := []

namespace System

/-- The engine over the tracker that the loops share with it. -/
def engineNow (s : System) : Engine := { s.engine with tracker := s.bot.tracker }

/-- `set_entry_suppressed`. -/
def setEntrySuppressed (s : System) (suppressed : Bool) : System :=
  { s with engine := { s.engine with entrySuppressed := suppressed } }

/-- An approved candidate that gets no loop: the next one may be offered
(main.cpp:1008-1013, 1019-1023). -/
def manualReset (s : System) : System :=
  if s.manualConfirmOnce then
    { s with manualTradePending := false, manualPrompt := none }.setEntrySuppressed false
  else s

/-- The same for a task whose entry was refused (main.cpp:870-875). -/
def manualEntryFailed (s : System) : System :=
  if s.manualConfirmOnce then
    { s with manualTradePending := false }.setEntrySuppressed false
  else s

/-- `release_claimed_lifecycle_slot` and the destructor of `LoopGuard` up to their write of the
flag (main.cpp:69-75, 895-900). -/
def release (s : System) : System :=
  { s with bot := s.bot.releaseSlot, flagStores := s.flagStores ++ [.released] }

/-- A task for a claimed slot is enqueued; when that fails the slot is released, and a manual
candidate is given up (main.cpp:1017-1026, 1981-1983). -/
def enqueue (s : System) (task : LifecycleTask) : System :=
  if s.executorRunning ∧ s.bot.queue.length < queueCapacity then
    { s with bot := { s.bot with queue := s.bot.queue ++ [task] } }
  else
    let s := s.release
    if task.initialPosition.isNone then s.manualReset else s

/-- A slot is claimed for the task.  The claim of the last slot suppresses entry before the
task is enqueued (main.cpp:881-893, 1007-1017). -/
def claim (s : System) (task : LifecycleTask) : System :=
  match s.bot.tryClaimSlot with
  | none => if task.initialPosition.isNone then s.manualReset else s
  | some bot =>
    if bot.maxPositions.val ≤ bot.activeLoops then
      { s with bot := bot, flagStores := s.flagStores ++ [.claimed task] }
    else { s with bot := bot }.enqueue task

/-- The entry callback.  In manual mode it suppresses entry and opens a prompt
(main.cpp:928-1005). -/
def entryCallback (s : System) (signal : ArbitrageSignal) : System :=
  if (s.bot.tracker.getPosition signal.symbol).isSome then s
  else if s.manualConfirmOnce then
    if s.manualTradePending || s.manualPrompt.isSome then s
    else { s with manualPrompt := some signal }.setEntrySuppressed true
  else s.claim ⟨signal, none⟩

/-- The callback of the `i`-th pending signal. -/
def callbackAt (s : System) (i : ℕ) : System :=
  match s.signals[i]? with
  | none => s
  | some p => { s with signals := s.signals.eraseIdx i }.entryCallback p.signal

/-- The answer to the prompt (main.cpp:994-1015). -/
def answerPrompt (s : System) (approved : Bool) : System :=
  match s.manualPrompt with
  | none => s
  | some signal =>
    let s := { s with manualPrompt := none }
    if approved then { s with manualTradePending := true }.claim ⟨signal, none⟩
    else s.setEntrySuppressed false

/-- The `i`-th outstanding write of the flag is made. -/
def storeFlag (s : System) (i : ℕ) : System :=
  match s.flagStores[i]? with
  | none => s
  | some store =>
    let s := { s with flagStores := s.flagStores.eraseIdx i }
    match store with
    | .released => s.setEntrySuppressed false
    | .claimed task => (s.setEntrySuppressed true).enqueue task

/-- A ticker update with its scan. -/
def tickerUpdate (std : StdSort) (s : System) (clock : Engine.Clock) (ticker : Ticker) : System :=
  let (engine, emissions) :=
    Engine.onTickerUpdate std s.bot.maxPositions s.engineNow clock ticker
  let pending := emissions.map fun em =>
    { signal := em.signal
      topUp := (s.bot.tracker.getPosition em.signal.symbol).isSome : PendingSignal }
  { s with
    engine := engine
    signals := s.signals ++ pending
    emitted := s.emitted ++ emissions }

/-- `finalize_withdraw_fees`. -/
def publishTransfers (s : System) (snapshot : TransferSnapshot) : System :=
  { s with
    bot := { s.bot with openRoutes := PriceCache.openRoutes snapshot }
    engine :=
      { s.engine with priceCache := { s.engine.priceCache with transferSnapshot := snapshot } } }

/-- The first task is refused by the entry checks of `execute_spot_relay_entry`. -/
def pickUpRefused (s : System) (positionSizeUsd : ℚ) (now : Timestamp) : Bool :=
  match s.bot.queue with
  | [] => false
  | task :: _ =>
    decide (s.bot.loops.length < s.bot.maxPositions.val) &&
      match enterLoop { signal := task.signal, positionSizeUsd := positionSizeUsd }
        (exchangesAvailable task.signal) (s.bot.isSafeToTrade task.signal)
        task.initialPosition now s.bot.tracker with
      | .error _ => true
      | .ok _ => false

/-- A worker takes the first task.  A refused task ends its handler: a manual candidate is
given up, and the guard has released the slot (main.cpp:842-879). -/
def pickUp (s : System) (positionSizeUsd : ℚ) (now : Timestamp) : System :=
  let after := { s with bot := s.bot.pickUp positionSizeUsd now }
  if s.pickUpRefused positionSizeUsd now then
    { after.manualEntryFailed with flagStores := s.flagStores ++ [.released] }
  else after

/-- The loop with number `i` makes an iteration at the engine's prices.  Only
`trigger_critical_stop` clears `running_` there, and it suppresses entry. -/
def iterateAt (s : System) (i : ℕ) (nowMs : UInt64) (now : Timestamp) (replies : SplitReplies) :
    System :=
  match s.bot.loops[i]? with
  | none => s
  | some loop =>
    let x : IterationInput := ⟨loop.call.marketView s.engine.priceCache nowMs, now, replies⟩
    let after := { s with bot := s.bot.iterateAt i x }
    if s.bot.running && !after.bot.running then after.setEntrySuppressed true else after

/-- The loop with number `i` returns and its guard releases the slot.  A loop that was entered
reports its position as managed, so no manual candidate is given up. -/
def returnAt (s : System) (i : ℕ) : System :=
  if s.bot.running = false ∧ i < s.bot.loops.length then
    { s with bot := s.bot.returnAt i, flagStores := s.flagStores ++ [.released] }
  else s

/-- The launch of the recovered position (main.cpp:1959-1998). -/
def launchRecovered (s : System) (usdtKrwRate : ℚ) : System :=
  match s.bot.pendingRecovery with
  | none => s
  | some pos =>
    { s with bot := { s.bot with pendingRecovery := none } }.claim
      ⟨recoverySignal pos usdtKrwRate, some pos⟩

end System

inductive SystemEvent
  | tickerUpdate (clock : Engine.Clock) (ticker : Ticker)
  | publishTransfers (snapshot : TransferSnapshot)
  | refreshEntryFilters (nowMs : UInt64)
  | callback (i : ℕ)
  | answerPrompt (approved : Bool)
  | storeFlag (i : ℕ)
  | startExecutor
  | stopExecutor
  | launchRecovered (usdtKrwRate : ℚ)
  | pickUp (positionSizeUsd : ℚ) (now : Timestamp)
  | iterate (i : ℕ) (nowMs : UInt64) (now : Timestamp) (replies : SplitReplies)
  | loopReturns (i : ℕ)
  | shutdown

def systemStep (std : StdSort) (s : System) : SystemEvent → System
  | .tickerUpdate clock ticker => s.tickerUpdate std clock ticker
  | .publishTransfers snapshot => s.publishTransfers snapshot
  | .refreshEntryFilters nowMs => { s with engine := s.engine.updateAllEntries nowMs }
  | .callback i => s.callbackAt i
  | .answerPrompt approved => s.answerPrompt approved
  | .storeFlag i => s.storeFlag i
  | .startExecutor => { s with executorRunning := true }
  | .stopExecutor => { s with executorRunning := false }
  | .launchRecovered usdtKrwRate => s.launchRecovered usdtKrwRate
  | .pickUp positionSizeUsd now => s.pickUp positionSizeUsd now
  | .iterate i nowMs now replies => s.iterateAt i nowMs now replies
  | .loopReturns i => s.returnAt i
  | .shutdown => { s with bot := { s.bot with running := false } }

/-- The system when its engine has been configured. -/
def startSystem (maxPositions : MaxPositions) (blacklist : List SymbolId)
    (recovered : Option Position) (symbols : SymbolTable) (pairs : List ExchangePairConfig)
    (manualConfirmOnce : Bool) : System where
  bot := startBot maxPositions blacklist [] recovered
  engine := { symbols := symbols, exchangePairs := pairs }
  manualConfirmOnce := manualConfirmOnce

/-- A run of the system. -/
def runSystem (std : StdSort) (s : System) (events : List SystemEvent) : System :=
  events.foldl (systemStep std) s

end SpotRelay.Model
