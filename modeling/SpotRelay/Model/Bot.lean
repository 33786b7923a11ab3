import SpotRelay.Model.EntryLoop

/-!
# The running bot

The parts of main.cpp that decide which loops run (lines 61-76, 842-1042, 1959-1998): the
lifecycle slots, the task queue of the executor and its workers, the entry callback, and the
launch of a position that was recovered at start-up.  All loops share the engine's tracker
and `running_`.  The engine may fire any signal at any time.
-/

set_option autoImplicit false

namespace SpotRelay.Model

/-- `LifecycleTask` (main.cpp:79-82). -/
structure LifecycleTask where
  signal : ArbitrageSignal
  initialPosition : Option Position
deriving DecidableEq

/-- A worker inside the loop of `execute_spot_relay_entry`. -/
structure RunningLoop where
  call : Call
  state : LoopState
deriving DecidableEq

structure BotState where
  maxPositions : MaxPositions
  /-- `external_position_blacklist_`, built once at start-up. -/
  blacklist : List SymbolId
  /-- The routes that `is_transfer_route_available` finds open. -/
  openRoutes : List Route
  /-- The engine's tracker. -/
  tracker : PositionTracker
  /-- `OrderManager::running_`. -/
  running : Bool := true
  /-- `g_active_loops`. -/
  activeLoops : ℕ := 0
  queue : List LifecycleTask := []
  loops : List RunningLoop := []
  /-- `recovered_position`, until start-up has launched its loop. -/
  pendingRecovery : Option Position := none
deriving DecidableEq

/-- The capacity of the executor's queue (lifecycle_executor.hpp:26). -/
def queueCapacity : ℕ := 64

/-- The venues whose clients the order manager was given: `get_korean_exchange` has Bithumb and
Upbit, `get_foreign_exchange` falls back to Bybit (order_manager.cpp:347-368). -/
def exchangesAvailable (signal : ArbitrageSignal) : Bool := signal.koreanExchange.isKorean

namespace BotState

/-- `try_claim_lifecycle_slot` (main.cpp:881-893). -/
def tryClaimSlot (s : BotState) : Option BotState :=
  if s.activeLoops < s.maxPositions.val then some { s with activeLoops := s.activeLoops + 1 }
  else none

/-- `release_claimed_lifecycle_slot` and the destructor of `LoopGuard`. -/
def releaseSlot (s : BotState) : BotState := { s with activeLoops := s.activeLoops - 1 }

/-- A slot is claimed for the task, which is enqueued; if the queue is full the slot is given
back. -/
def launch (s : BotState) (task : LifecycleTask) : BotState :=
  match s.tryClaimSlot with
  | none => s
  | some s =>
    if s.queue.length < queueCapacity then { s with queue := s.queue ++ [task] }
    else s.releaseSlot

/-- The entry callback (main.cpp:928-1042). -/
def entrySignal (s : BotState) (signal : ArbitrageSignal) : BotState :=
  if (s.tracker.getPosition signal.symbol).isSome then s else s.launch ⟨signal, none⟩

/-- `is_safe_to_trade` (order_manager.cpp:2234-2252). -/
def isSafeToTrade (s : BotState) (signal : ArbitrageSignal) : Bool :=
  if signal.symbol ∈ s.blacklist then false
  else decide ((signal.koreanExchange, signal.foreignExchange, signal.symbol.base) ∈ s.openRoutes)

/-- A worker takes the first task and calls `execute_spot_relay_entry` (main.cpp:842-879). -/
def pickUp (s : BotState) (positionSizeUsd : ℚ) (now : Timestamp) : BotState :=
  match s.queue with
  | [] => s
  | task :: rest =>
    if s.loops.length < s.maxPositions.val then
      let call : Call := { signal := task.signal, positionSizeUsd := positionSizeUsd }
      match enterLoop call (exchangesAvailable task.signal) (s.isSafeToTrade task.signal)
        task.initialPosition now s.tracker with
      | .error _ => { s with queue := rest }.releaseSlot
      | .ok state => { s with queue := rest, loops := s.loops ++ [⟨call, state⟩] }
    else s

/-- One iteration of a loop, over the tracker and the flag that all loops share. -/
def iterateLoop (s : BotState) (loop : RunningLoop) (x : IterationInput) : LoopState :=
  loopStep loop.call { loop.state with tracker := s.tracker, running := s.running } x

/-- The loop with number `i` makes an iteration. -/
def iterateAt (s : BotState) (i : ℕ) (x : IterationInput) : BotState :=
  match s.loops[i]? with
  | none => s
  | some loop =>
    let after := s.iterateLoop loop x
    { s with
      tracker := after.tracker
      running := after.running
      loops := s.loops.set i { loop with state := after } }

/-- The loop with number `i` returns at its head, which it does once `running_` is cleared. -/
def returnAt (s : BotState) (i : ℕ) : BotState :=
  if s.running = false ∧ i < s.loops.length then
    { s with loops := s.loops.eraseIdx i }.releaseSlot
  else s

end BotState

/-- The signal of a recovered position (main.cpp:1970-1979). -/
def recoverySignal (pos : Position) (usdtKrwRate : ℚ) : ArbitrageSignal where
  symbol := pos.symbol
  koreanExchange := pos.koreanExchange
  foreignExchange := pos.foreignExchange
  premium := pos.entryPremium
  koreanAsk := pos.koreanEntryPrice
  foreignBid := pos.foreignEntryPrice
  usdtKrwRate := usdtKrwRate

/-- The launch of the recovered position (main.cpp:1959-1998). -/
def BotState.launchRecovered (s : BotState) (usdtKrwRate : ℚ) : BotState :=
  match s.pendingRecovery with
  | none => s
  | some pos =>
    { s with pendingRecovery := none }.launch ⟨recoverySignal pos usdtKrwRate, some pos⟩

inductive BotEvent
  | routesRefreshed (openRoutes : List Route)
  | entrySignal (signal : ArbitrageSignal)
  | launchRecovered (usdtKrwRate : ℚ)
  | pickUp (positionSizeUsd : ℚ) (now : Timestamp)
  | iterate (loop : ℕ) (x : IterationInput)
  | loopReturns (loop : ℕ)
  | shutdown

def botStep (s : BotState) : BotEvent → BotState
  | .routesRefreshed openRoutes => { s with openRoutes := openRoutes }
  | .entrySignal signal => s.entrySignal signal
  | .launchRecovered usdtKrwRate => s.launchRecovered usdtKrwRate
  | .pickUp positionSizeUsd now => s.pickUp positionSizeUsd now
  | .iterate loop x => s.iterateAt loop x
  | .loopReturns loop => s.returnAt loop
  | .shutdown => { s with running := false }

/-- The bot when the engine starts: a recovered position is in the tracker
(main.cpp:1821-1826). -/
def startBot (maxPositions : MaxPositions) (blacklist : List SymbolId) (openRoutes : List Route)
    (recovered : Option Position) : BotState where
  maxPositions := maxPositions
  blacklist := blacklist
  openRoutes := openRoutes
  tracker :=
    match recovered with
    | none => .empty
    | some pos => PositionTracker.empty.openPosition pos
  pendingRecovery := recovered

end SpotRelay.Model
