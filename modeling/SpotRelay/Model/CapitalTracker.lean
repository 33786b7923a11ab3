import Mathlib.Algebra.Order.Field.Rat
import Mathlib.Logic.Function.Basic

/-!
# The capital tracker

`CapitalTracker::add_realized_pnl` (arbitrage_engine.hpp:626-719) and the trade complete callback
that calls it (main.cpp:911-927), one access of an atomic or of the locked history a step.  A call
of the callback is a number; the loops of several symbols make theirs at the same time.

* **profits and capital** are exact numbers: the rounding of the source's doubles is left out, so
  what is proved of them is proved up to that rounding.
* **the counters** `total_trades_` and `winning_trades_` are `std::atomic<int>` in the source and
  naturals here: what is proved of them is about runs of fewer than `2 ^ 31` trades.
-/

set_option autoImplicit false

namespace SpotRelay.Model

/-- What a call has computed so far. -/
structure TradeCall where
  pnlUsd : ℚ
  capitalBefore : ℚ
deriving DecidableEq

/-- The access that a call does next. -/
inductive TradePhase
  | idle
  /-- `add_realized_pnl`: the load of `realized_pnl_usd_`. -/
  | loading (t : TradeCall)
  /-- `compare_exchange_weak`. -/
  | adding (t : TradeCall) (current : ℚ)
  /-- `total_trades_.fetch_add`. -/
  | counting (t : TradeCall)
  /-- `winning_trades_.fetch_add`. -/
  | winning (t : TradeCall)
  /-- The push to `pnl_history_`. -/
  | recording (t : TradeCall)
  /-- `capital_after`. -/
  | rereading (t : TradeCall)
  | returned
deriving DecidableEq

/-- A line of `append_trade_log`, as far as it is about the capital. -/
structure TradeRow where
  call : ℕ
  pnlUsd : ℚ
  capitalBefore : ℚ
  capitalAfter : ℚ
deriving DecidableEq

structure CapitalTracker where
  initialCapital : ℚ
  realizedPnlUsd : ℚ := 0
  totalTrades : ℕ := 0
  winningTrades : ℕ := 0
  pnlHistory : List ℚ := []
  tradeLog : List TradeRow := []
  calls : ℕ → TradePhase := fun _ => .idle
  /-- The calls behind each of their accesses, in order (ghost). -/
  committed : List (ℕ × ℚ) := []
  counted : List (ℕ × ℚ) := []
  won : List (ℕ × ℚ) := []
  recorded : List (ℕ × ℚ) := []

inductive TradeEvent
  /-- A loop completes a trade: `capital_before`. -/
  | complete (call : ℕ) (pnlKrw usdtRate : ℚ)
  /-- The next access of a call; a weak exchange may fail for no reason. -/
  | proceed (call : ℕ) (spurious : Bool)
deriving DecidableEq

namespace CapitalTracker

/-- `get_current_capital`. -/
def getCurrentCapital (s : CapitalTracker) : ℚ := s.initialCapital + s.realizedPnlUsd

def goTo (s : CapitalTracker) (call : ℕ) (phase : TradePhase) : CapitalTracker :=
  { s with calls := Function.update s.calls call phase }

def proceed (s : CapitalTracker) (call : ℕ) (spurious : Bool) : CapitalTracker :=
  match s.calls call with
  | .idle | .returned => s
  | .loading t => s.goTo call (.adding t s.realizedPnlUsd)
  | .adding t current =>
    if s.realizedPnlUsd = current ∧ spurious = false then
      { s.goTo call (.counting t) with
        realizedPnlUsd := current + t.pnlUsd
        committed := s.committed ++ [(call, t.pnlUsd)] }
    else s.goTo call (.adding t s.realizedPnlUsd)
  | .counting t =>
    { s.goTo call (if 0 < t.pnlUsd then .winning t else .recording t) with
      totalTrades := s.totalTrades + 1
      counted := s.counted ++ [(call, t.pnlUsd)] }
  | .winning t =>
    { s.goTo call (.recording t) with
      winningTrades := s.winningTrades + 1
      won := s.won ++ [(call, t.pnlUsd)] }
  | .recording t =>
    { s.goTo call (.rereading t) with
      pnlHistory := s.pnlHistory ++ [t.pnlUsd]
      recorded := s.recorded ++ [(call, t.pnlUsd)] }
  | .rereading t =>
    { s.goTo call .returned with
      tradeLog := s.tradeLog ++ [⟨call, t.pnlUsd, t.capitalBefore, s.getCurrentCapital⟩] }

def step (s : CapitalTracker) : TradeEvent → CapitalTracker
  | .complete call pnlKrw usdtRate =>
    match s.calls call with
    | .idle =>
      let pnlUsd := if 0 < usdtRate then pnlKrw / usdtRate else 0
      s.goTo call (.loading ⟨pnlUsd, s.getCurrentCapital⟩)
    | _ => s
  | .proceed call spurious => s.proceed call spurious

/-- The state after a run. -/
def run (initialCapital : ℚ) (events : List TradeEvent) : CapitalTracker :=
  events.foldl step { initialCapital := initialCapital }

end CapitalTracker

end SpotRelay.Model
