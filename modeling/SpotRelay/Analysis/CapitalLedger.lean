import Mathlib.Algebra.BigOperators.Group.List.Basic
import Mathlib.Algebra.Order.Field.Rat
import SpotRelay.Library.KeyedList
import SpotRelay.Model.CapitalTracker

/-!
# The ledger of the capital

The exchange that adds a profit succeeds only on the value it was computed from, so no profit is
lost, however the callbacks of the loops take turns.  The counters and the history come later, one
by one, and agree with the sum once no callback is under way.  What a callback logs before and after
its own profit may hold profits of others.

* **one access** of a callback moves one row of the ledger on and leaves the others (`proceed_rows`,
  `step_ledgerSound`).
* **a run** keeps the ledger sound from the start (`ledgerSound_start`, `run_ledgerSound`); what a
  later access of a callback has behind it, its earlier ones have too (`ledgers_within`).
-/

set_option autoImplicit false

namespace SpotRelay.Analysis

open SpotRelay.Model SpotRelay.Library

/-! ## The accesses of a call -/

/-- How many of its accesses a call has behind it. -/
def tradeStage : TradePhase → ℕ
  | .idle => 0
  | .loading _ => 1
  | .adding _ _ => 2
  | .counting _ => 3
  | .winning _ => 4
  | .recording _ => 5
  | .rereading _ => 6
  | .returned => 7

/-- What a call under way has computed. -/
def tradeCall : TradePhase → Option TradeCall
  | .loading t | .adding t _ | .counting t | .winning t | .recording t | .rereading t => some t
  | .idle | .returned => none

/-- The sum of the profits in a ledger. -/
def profits (ledger : List (ℕ × ℚ)) : ℚ := (ledger.map Prod.snd).sum

/-- The capital was read behind the first profits of the ledger. -/
def ReadAt (s : CapitalTracker) (capital : ℚ) (first : ℕ) : Prop :=
  first ≤ s.committed.length ∧ capital = s.initialCapital + profits (s.committed.take first)

/-- A call with the profit `pnl`: where the lists have it. -/
structure TradeCallSound (s : CapitalTracker) (call : ℕ) (pnl : ℚ) : Prop where
  own : ∀ t, tradeCall (s.calls call) = some t → t.pnlUsd = pnl
  committed : valuesAt call s.committed = if 3 ≤ tradeStage (s.calls call) then [pnl] else []
  counted : valuesAt call s.counted = if 4 ≤ tradeStage (s.calls call) then [pnl] else []
  won : valuesAt call s.won =
    if 5 ≤ tradeStage (s.calls call) ∧ 0 < pnl then [pnl] else []
  recorded : valuesAt call s.recorded = if 6 ≤ tradeStage (s.calls call) then [pnl] else []
  winner : tradeStage (s.calls call) = 4 → 0 < pnl
  before : ∀ t, tradeCall (s.calls call) = some t → ∃ first, ReadAt s t.capitalBefore first ∧
    (3 ≤ tradeStage (s.calls call) → ∃ own, first ≤ own ∧ s.committed[own]? = some (call, pnl))

/-- The capital before a call and after it, in the profits that all calls have added. -/
def TradeRowSound (s : CapitalTracker) (row : TradeRow) : Prop :=
  ∃ first own last, first ≤ own ∧ own < last ∧ s.committed[own]? = some (row.call, row.pnlUsd) ∧
    ReadAt s row.capitalBefore first ∧ ReadAt s row.capitalAfter last

/-- What holds in every state. -/
structure LedgerSound (s : CapitalTracker) : Prop where
  realized : s.realizedPnlUsd = profits s.committed
  trades : s.totalTrades = s.counted.length
  wins : s.winningTrades = s.won.length
  history : s.pnlHistory = s.recorded.map Prod.snd
  calls : ∀ call, ∃ pnl, TradeCallSound s call pnl
  rows : ∀ row ∈ s.tradeLog, TradeRowSound s row

variable {s s' : CapitalTracker} {call : ℕ} {pnl : ℚ}

/-- One more profit is added to the sum. -/
theorem profits_concat (ledger : List (ℕ × ℚ)) (entry : ℕ × ℚ) :
    profits (ledger ++ [entry]) = profits ledger + entry.2 := by
  simp [profits]

/-- The capital is the initial one and all profits that were added. -/
theorem readAt_now (h : LedgerSound s) : ReadAt s s.getCurrentCapital s.committed.length := by
  refine ⟨le_rfl, ?_⟩
  rw [List.take_length, CapitalTracker.getCurrentCapital, h.realized]

/-- The ledger only grows. -/
structure LedgerExtends (s s' : CapitalTracker) : Prop where
  initial : s'.initialCapital = s.initialCapital
  ledger : s.committed <+: s'.committed

/-- What was read stays what it was when more profits are added. -/
theorem ReadAt.extend {capital : ℚ} {first : ℕ} (h : ReadAt s capital first)
    (hextends : LedgerExtends s s') : ReadAt s' capital first := by
  obtain ⟨more, hmore⟩ := hextends.ledger
  refine ⟨?_, ?_⟩
  · rw [← hmore, List.length_append]
    exact Nat.le_add_right_of_le h.1
  · rw [hextends.initial, ← hmore, List.take_append_of_le_length h.1]
    exact h.2

/-- A profit keeps its place in the ledger. -/
theorem entry_extend {own : ℕ} {entry : ℕ × ℚ} (h : s.committed[own]? = some entry)
    (hextends : LedgerExtends s s') : s'.committed[own]? = some entry := by
  obtain ⟨more, hmore⟩ := hextends.ledger
  obtain ⟨hlt, -⟩ := List.getElem?_eq_some_iff.mp h
  rw [← hmore, List.getElem?_append_left hlt]
  exact h

/-- A row of the log stays sound when more profits are added. -/
theorem TradeRowSound.extend {row : TradeRow} (h : TradeRowSound s row)
    (hextends : LedgerExtends s s') : TradeRowSound s' row := by
  obtain ⟨first, own, last, hfirst, hlast, hown, hbefore, hafter⟩ := h
  exact ⟨first, own, last, hfirst, hlast, entry_extend hown hextends, hbefore.extend hextends,
    hafter.extend hextends⟩

/-- The step of another call. -/
theorem TradeCallSound.frame (h : TradeCallSound s call pnl) (hextends : LedgerExtends s s')
    (hphase : s'.calls call = s.calls call)
    (hcommitted : valuesAt call s'.committed = valuesAt call s.committed)
    (hcounted : valuesAt call s'.counted = valuesAt call s.counted)
    (hwon : valuesAt call s'.won = valuesAt call s.won)
    (hrecorded : valuesAt call s'.recorded = valuesAt call s.recorded) :
    TradeCallSound s' call pnl where
  own := by
    rw [hphase]
    exact h.own
  committed := by rw [hcommitted, hphase, h.committed]
  counted := by rw [hcounted, hphase, h.counted]
  won := by rw [hwon, hphase, h.won]
  recorded := by rw [hrecorded, hphase, h.recorded]
  winner := by
    rw [hphase]
    exact h.winner
  before := by
    rw [hphase]
    intro t ht
    obtain ⟨first, hread, hadded⟩ := h.before t ht
    refine ⟨first, hread.extend hextends, ?_⟩
    intro hstage
    obtain ⟨own, hle, hown⟩ := hadded hstage
    exact ⟨own, hle, entry_extend hown hextends⟩

/-! ## The steps -/

/-- An access adds to the ledger of the profits or leaves it alone: only an exchange that succeeds
adds. -/
theorem extends_proceed (s : CapitalTracker) (call : ℕ) (spurious : Bool) :
    LedgerExtends s (s.proceed call spurious) := by
  have hsame : ∀ phase, LedgerExtends s (s.goTo call phase) := fun _ => ⟨rfl, List.prefix_rfl⟩
  unfold CapitalTracker.proceed
  cases s.calls call with
  | idle => exact ⟨rfl, List.prefix_rfl⟩
  | loading t => exact hsame _
  | adding t current =>
    dsimp only
    by_cases hexchange : s.realizedPnlUsd = current ∧ spurious = false
    · rw [if_pos hexchange]
      exact ⟨rfl, List.prefix_append _ _⟩
    · rw [if_neg hexchange]
      exact hsame _
  | counting t => exact ⟨rfl, List.prefix_rfl⟩
  | winning t => exact ⟨rfl, List.prefix_rfl⟩
  | recording t => exact ⟨rfl, List.prefix_rfl⟩
  | rereading t => exact ⟨rfl, List.prefix_rfl⟩
  | returned => exact ⟨rfl, List.prefix_rfl⟩

/-- An access of one call leaves what another one has in the lists: what it appends is its own. -/
theorem tradeProceed_others {other : ℕ} (hne : call ≠ other) (spurious : Bool)
    (h : TradeCallSound s other pnl) : TradeCallSound (s.proceed call spurious) other pnl := by
  have hextends := extends_proceed s call spurious
  have hkept : ∀ phase, (s.goTo call phase).calls other = s.calls other :=
    fun _ => Function.update_of_ne (Ne.symm hne) ..
  unfold CapitalTracker.proceed at hextends ⊢
  cases hphase : s.calls call with
  | idle => exact h
  | loading t =>
    rw [hphase] at hextends
    exact h.frame hextends (hkept _) rfl rfl rfl rfl
  | adding t current =>
    rw [hphase] at hextends
    dsimp only at hextends ⊢
    by_cases hexchange : s.realizedPnlUsd = current ∧ spurious = false
    · rw [if_pos hexchange] at hextends ⊢
      exact h.frame hextends (hkept _) (valuesAt_concat_of_ne hne) rfl rfl rfl
    · rw [if_neg hexchange] at hextends ⊢
      exact h.frame hextends (hkept _) rfl rfl rfl rfl
  | counting t =>
    rw [hphase] at hextends
    exact h.frame hextends (hkept _) rfl (valuesAt_concat_of_ne hne) rfl rfl
  | winning t =>
    rw [hphase] at hextends
    exact h.frame hextends (hkept _) rfl rfl (valuesAt_concat_of_ne hne) rfl
  | recording t =>
    rw [hphase] at hextends
    exact h.frame hextends (hkept _) rfl rfl rfl (valuesAt_concat_of_ne hne)
  | rereading t =>
    rw [hphase] at hextends
    exact h.frame hextends (hkept _) rfl rfl rfl rfl
  | returned => exact h

/-- The exchange succeeds. -/
theorem tradeAdd_sound (h : TradeCallSound s call pnl) {t : TradeCall} {current : ℚ}
    (hphase : s.calls call = .adding t current) :
    TradeCallSound
      { s.goTo call (.counting t) with
        realizedPnlUsd := current + t.pnlUsd
        committed := s.committed ++ [(call, t.pnlUsd)] } call pnl := by
  have hown : t.pnlUsd = pnl := h.own t (by rw [hphase]; rfl)
  obtain ⟨first, hread, -⟩ := h.before t (by rw [hphase]; rfl)
  have hcommitted := h.committed
  have hcounted := h.counted
  have hwon := h.won
  have hrecorded := h.recorded
  simp only [hphase, tradeStage] at hcommitted hcounted hwon hrecorded
  constructor
  · simp [CapitalTracker.goTo, tradeCall, hown]
  · simp [CapitalTracker.goTo, tradeStage, valuesAt_concat_self, hcommitted, hown]
  · simpa [CapitalTracker.goTo, tradeStage] using hcounted
  · simpa [CapitalTracker.goTo, tradeStage] using hwon
  · simpa [CapitalTracker.goTo, tradeStage] using hrecorded
  · simp [CapitalTracker.goTo, tradeStage]
  · intro t' ht'
    simp only [CapitalTracker.goTo, Function.update_self, tradeCall, Option.some.injEq] at ht'
    subst ht'
    refine ⟨first, hread.extend ⟨rfl, List.prefix_append _ _⟩, fun _ => ?_⟩
    refine ⟨s.committed.length, hread.1, ?_⟩
    simp [hown]

/-- An access of a call behind its exchange. -/
theorem TradeCallSound.goOn (h : TradeCallSound s call pnl) (hextends : LedgerExtends s s')
    (hbehind : 3 ≤ tradeStage (s.calls call)) (hstage : 3 ≤ tradeStage (s'.calls call))
    (hcall : ∀ t, tradeCall (s'.calls call) = some t → tradeCall (s.calls call) = some t)
    (hcommitted : s'.committed = s.committed)
    (hcounted : valuesAt call s'.counted = if 4 ≤ tradeStage (s'.calls call) then [pnl] else [])
    (hwon : valuesAt call s'.won =
      if 5 ≤ tradeStage (s'.calls call) ∧ 0 < pnl then [pnl] else [])
    (hrecorded : valuesAt call s'.recorded = if 6 ≤ tradeStage (s'.calls call) then [pnl] else [])
    (hwinner : tradeStage (s'.calls call) = 4 → 0 < pnl) : TradeCallSound s' call pnl where
  own := fun t ht => h.own t (hcall t ht)
  committed := by rw [hcommitted, h.committed, if_pos hbehind, if_pos hstage]
  counted := hcounted
  won := hwon
  recorded := hrecorded
  winner := hwinner
  before := by
    intro t ht
    obtain ⟨first, hread, hadded⟩ := h.before t (hcall t ht)
    refine ⟨first, hread.extend hextends, fun _ => ?_⟩
    rw [hcommitted]
    exact hadded hbehind

/-- A load before the exchange, the first one or after a failure. -/
theorem tradeLoad_sound (h : TradeCallSound s call pnl) {t : TradeCall}
    (htrade : tradeCall (s.calls call) = some t) (hstage : tradeStage (s.calls call) < 3)
    (current : ℚ) : TradeCallSound (s.goTo call (.adding t current)) call pnl := by
  obtain ⟨first, hread, -⟩ := h.before t htrade
  have hcommitted := h.committed
  have hcounted := h.counted
  have hwon := h.won
  have hrecorded := h.recorded
  rw [if_neg (by omega)] at hcommitted hcounted hrecorded
  rw [if_neg (by omega)] at hwon
  constructor
  · simp [CapitalTracker.goTo, tradeCall, h.own t htrade]
  · simpa [CapitalTracker.goTo, tradeStage] using hcommitted
  · simpa [CapitalTracker.goTo, tradeStage] using hcounted
  · simpa [CapitalTracker.goTo, tradeStage] using hwon
  · simpa [CapitalTracker.goTo, tradeStage] using hrecorded
  · simp [CapitalTracker.goTo, tradeStage]
  · intro t' ht'
    simp only [CapitalTracker.goTo, Function.update_self, tradeCall, Option.some.injEq] at ht'
    subst ht'
    refine ⟨first, hread.extend ⟨rfl, List.prefix_rfl⟩, ?_⟩
    simp [CapitalTracker.goTo, tradeStage]

/-- Every access leaves its own call sound, whatever phase it is in. -/
theorem tradeProceed_own (hcall : TradeCallSound s call pnl) (spurious : Bool) :
    TradeCallSound (s.proceed call spurious) call pnl := by
  have hextends := extends_proceed s call spurious
  have hown := hcall.own
  have hcounted := hcall.counted
  have hwon := hcall.won
  have hrecorded := hcall.recorded
  have hwinner := hcall.winner
  cases hphase : s.calls call with
  | idle =>
    simp only [CapitalTracker.proceed, hphase]
    exact hcall
  | returned =>
    simp only [CapitalTracker.proceed, hphase]
    exact hcall
  | loading t =>
    simp only [CapitalTracker.proceed, hphase]
    exact tradeLoad_sound hcall (by rw [hphase]; rfl) (by simp [hphase, tradeStage]) _
  | adding t current =>
    simp only [CapitalTracker.proceed, hphase]
    split
    · exact tradeAdd_sound hcall hphase
    · exact tradeLoad_sound hcall (by rw [hphase]; rfl) (by simp [hphase, tradeStage]) _
  | counting t =>
    have hpnl : t.pnlUsd = pnl := hown t (by rw [hphase]; rfl)
    simp only [CapitalTracker.proceed, hphase] at hextends ⊢
    simp only [hphase, tradeStage] at hcounted hwon hrecorded
    by_cases hwins : 0 < t.pnlUsd
    · rw [if_pos hwins] at hextends ⊢
      apply hcall.goOn hextends
      · simp [hphase, tradeStage]
      · simp [CapitalTracker.goTo, tradeStage]
      · simp [CapitalTracker.goTo, tradeCall, hphase]
      · rfl
      · simp [CapitalTracker.goTo, tradeStage, valuesAt_concat_self, hcounted, hpnl]
      · simpa [CapitalTracker.goTo, tradeStage] using hwon
      · simpa [CapitalTracker.goTo, tradeStage] using hrecorded
      · exact fun _ => hpnl ▸ hwins
    · rw [if_neg hwins] at hextends ⊢
      apply hcall.goOn hextends
      · simp [hphase, tradeStage]
      · simp [CapitalTracker.goTo, tradeStage]
      · simp [CapitalTracker.goTo, tradeCall, hphase]
      · rfl
      · simp [CapitalTracker.goTo, tradeStage, valuesAt_concat_self, hcounted, hpnl]
      · simpa [CapitalTracker.goTo, tradeStage, hpnl ▸ hwins] using hwon
      · simpa [CapitalTracker.goTo, tradeStage] using hrecorded
      · simp [CapitalTracker.goTo, tradeStage]
  | winning t =>
    have hpnl : t.pnlUsd = pnl := hown t (by rw [hphase]; rfl)
    have hwins : 0 < pnl := hwinner (by rw [hphase]; rfl)
    simp only [CapitalTracker.proceed, hphase] at hextends ⊢
    simp only [hphase, tradeStage] at hcounted hwon hrecorded
    apply hcall.goOn hextends
    · simp [hphase, tradeStage]
    · simp [CapitalTracker.goTo, tradeStage]
    · simp [CapitalTracker.goTo, tradeCall, hphase]
    · rfl
    · simpa [CapitalTracker.goTo, tradeStage] using hcounted
    · simpa [CapitalTracker.goTo, tradeStage, valuesAt_concat_self, hpnl, hwins] using hwon
    · simpa [CapitalTracker.goTo, tradeStage] using hrecorded
    · simp [CapitalTracker.goTo, tradeStage]
  | recording t =>
    have hpnl : t.pnlUsd = pnl := hown t (by rw [hphase]; rfl)
    simp only [CapitalTracker.proceed, hphase] at hextends ⊢
    simp only [hphase, tradeStage] at hcounted hwon hrecorded
    apply hcall.goOn hextends
    · simp [hphase, tradeStage]
    · simp [CapitalTracker.goTo, tradeStage]
    · simp [CapitalTracker.goTo, tradeCall, hphase]
    · rfl
    · simpa [CapitalTracker.goTo, tradeStage] using hcounted
    · simpa [CapitalTracker.goTo, tradeStage] using hwon
    · simpa [CapitalTracker.goTo, tradeStage, valuesAt_concat_self, hpnl] using hrecorded
    · simp [CapitalTracker.goTo, tradeStage]
  | rereading t =>
    simp only [CapitalTracker.proceed, hphase] at hextends ⊢
    simp only [hphase, tradeStage] at hcounted hwon hrecorded
    apply hcall.goOn hextends
    · simp [hphase, tradeStage]
    · simp [CapitalTracker.goTo, tradeStage]
    · simp [CapitalTracker.goTo, tradeCall]
    · rfl
    · simpa [CapitalTracker.goTo, tradeStage] using hcounted
    · simpa [CapitalTracker.goTo, tradeStage] using hwon
    · simpa [CapitalTracker.goTo, tradeStage] using hrecorded
    · simp [CapitalTracker.goTo, tradeStage]

/-- The callback begins, and reads the capital. -/
theorem tradeComplete_sound (h : LedgerSound s) (hidle : s.calls call = .idle) (pnlUsd : ℚ) :
    TradeCallSound (s.goTo call (.loading ⟨pnlUsd, s.getCurrentCapital⟩)) call pnlUsd := by
  obtain ⟨pnl, hcall⟩ := h.calls call
  have hcommitted := hcall.committed
  have hcounted := hcall.counted
  have hwon := hcall.won
  have hrecorded := hcall.recorded
  simp only [hidle, tradeStage] at hcommitted hcounted hwon hrecorded
  constructor
  · simp [CapitalTracker.goTo, tradeCall]
  · simpa [CapitalTracker.goTo, tradeStage] using hcommitted
  · simpa [CapitalTracker.goTo, tradeStage] using hcounted
  · simpa [CapitalTracker.goTo, tradeStage] using hwon
  · simpa [CapitalTracker.goTo, tradeStage] using hrecorded
  · simp [CapitalTracker.goTo, tradeStage]
  · intro t ht
    simp only [CapitalTracker.goTo, Function.update_self, tradeCall, Option.some.injEq] at ht
    subst ht
    refine ⟨s.committed.length, (readAt_now h).extend ⟨rfl, List.prefix_rfl⟩, ?_⟩
    simp [CapitalTracker.goTo, tradeStage]

/-- The row that a call logs. -/
theorem tradeRow_sound (h : LedgerSound s) {t : TradeCall} (hphase : s.calls call = .rereading t) :
    TradeRowSound s ⟨call, t.pnlUsd, t.capitalBefore, s.getCurrentCapital⟩ := by
  obtain ⟨pnl, hcall⟩ := h.calls call
  obtain ⟨first, hread, hadded⟩ := hcall.before t (by rw [hphase]; rfl)
  obtain ⟨own, hle, hown⟩ := hadded (by simp [hphase, tradeStage])
  obtain ⟨hlt, -⟩ := List.getElem?_eq_some_iff.mp hown
  rw [← hcall.own t (by rw [hphase]; rfl)] at hown
  exact ⟨first, own, s.committed.length, hle, hlt, hown, hread, readAt_now h⟩

/-- The counters and the history go with their ledgers. -/
theorem proceed_totals (h : LedgerSound s) (call : ℕ) (spurious : Bool) :
    (s.proceed call spurious).realizedPnlUsd = profits (s.proceed call spurious).committed ∧
      (s.proceed call spurious).totalTrades = (s.proceed call spurious).counted.length ∧
      (s.proceed call spurious).winningTrades = (s.proceed call spurious).won.length ∧
      (s.proceed call spurious).pnlHistory =
        (s.proceed call spurious).recorded.map Prod.snd := by
  unfold CapitalTracker.proceed
  cases s.calls call with
  | idle => exact ⟨h.realized, h.trades, h.wins, h.history⟩
  | loading t => exact ⟨h.realized, h.trades, h.wins, h.history⟩
  | adding t current =>
    by_cases hexchange : s.realizedPnlUsd = current ∧ spurious = false
    · simp only [if_pos hexchange]
      refine ⟨?_, h.trades, h.wins, h.history⟩
      rw [profits_concat, ← h.realized, hexchange.1]
    · simp only [if_neg hexchange]
      exact ⟨h.realized, h.trades, h.wins, h.history⟩
  | counting t => exact ⟨h.realized, by simp [h.trades], h.wins, h.history⟩
  | winning t => exact ⟨h.realized, h.trades, by simp [h.wins], h.history⟩
  | recording t => exact ⟨h.realized, h.trades, h.wins, by simp [h.history]⟩
  | rereading t => exact ⟨h.realized, h.trades, h.wins, h.history⟩
  | returned => exact ⟨h.realized, h.trades, h.wins, h.history⟩

/-- Every access leaves the rows of the log sound, the one that it may add included. -/
theorem proceed_rows (h : LedgerSound s) (spurious : Bool) :
    ∀ row ∈ (s.proceed call spurious).tradeLog, TradeRowSound (s.proceed call spurious) row := by
  have hextends := extends_proceed s call spurious
  have hold : ∀ row ∈ s.tradeLog, TradeRowSound (s.proceed call spurious) row :=
    fun row hrow => (h.rows row hrow).extend hextends
  intro row hrow
  cases hphase : s.calls call with
  | rereading t =>
    have hlog : (s.proceed call spurious).tradeLog =
        s.tradeLog ++ [⟨call, t.pnlUsd, t.capitalBefore, s.getCurrentCapital⟩] := by
      simp only [CapitalTracker.proceed, hphase]
    rw [hlog] at hrow
    rcases List.mem_append.mp hrow with hrow | hrow
    · exact hold row hrow
    · rw [List.mem_singleton.mp hrow]
      exact (tradeRow_sound h hphase).extend hextends
  | adding t current =>
    apply hold row
    simp only [CapitalTracker.proceed, hphase] at hrow
    split at hrow <;> exact hrow
  | _ =>
    apply hold row
    simp only [CapitalTracker.proceed, hphase] at hrow
    exact hrow

/-- Every event keeps the invariant. -/
theorem step_ledgerSound (h : LedgerSound s) (event : TradeEvent) : LedgerSound (s.step event) := by
  cases event with
  | proceed call spurious =>
    obtain ⟨hrealized, htrades, hwins, hhistory⟩ := proceed_totals h call spurious
    refine ⟨hrealized, htrades, hwins, hhistory, ?_, proceed_rows h spurious⟩
    intro other
    obtain ⟨pnl, hother⟩ := h.calls other
    refine ⟨pnl, ?_⟩
    by_cases heq : call = other
    · subst heq
      exact tradeProceed_own hother spurious
    · exact tradeProceed_others heq spurious hother
  | complete call pnlKrw usdtRate =>
    simp only [CapitalTracker.step]
    split
    · next hidle =>
      refine ⟨h.realized, h.trades, h.wins, h.history, ?_, ?_⟩
      · intro other
        by_cases heq : other = call
        · subst heq
          exact ⟨_, tradeComplete_sound h hidle _⟩
        · obtain ⟨pnl, hother⟩ := h.calls other
          refine ⟨pnl, hother.frame ⟨rfl, List.prefix_rfl⟩ ?_ rfl rfl rfl rfl⟩
          exact Function.update_of_ne heq ..
      · exact fun row hrow => (h.rows row hrow).extend ⟨rfl, List.prefix_rfl⟩
    · exact h

/-- The ledgers are empty at the start. -/
theorem ledgerSound_start (initialCapital : ℚ) :
    LedgerSound { initialCapital := initialCapital } where
  realized := rfl
  trades := rfl
  wins := rfl
  history := rfl
  calls := by
    intro call
    refine ⟨0, ?_, rfl, rfl, rfl, rfl, ?_, ?_⟩
    · exact fun t ht => by cases ht
    · exact fun hstage => by cases hstage
    · exact fun t ht => by cases ht
  rows := fun row hrow => absurd hrow List.not_mem_nil

/-- The invariant holds in every state of a run. -/
theorem run_ledgerSound (initialCapital : ℚ) (events : List TradeEvent) :
    LedgerSound (CapitalTracker.run initialCapital events) := by
  unfold CapitalTracker.run
  apply List.foldlRecOn
  · exact ledgerSound_start initialCapital
  · exact fun _ hs event _ => step_ledgerSound hs event

/-! ## The result -/

/-- What a later access has behind it, the earlier ones have too. -/
theorem ledgers_within (h : LedgerSound s) :
    s.won.Subperm s.counted ∧ s.recorded.Subperm s.counted ∧ s.counted.Subperm s.committed := by
  refine ⟨?_, ?_, ?_⟩
  all_goals
    apply subperm_of_valuesAt
    intro call
    obtain ⟨pnl, hcall⟩ := h.calls call
  · rw [hcall.won, hcall.counted]
    split
    · rw [if_pos (by omega)]
    · exact List.nil_subperm
  · rw [hcall.recorded, hcall.counted]
    split
    · rw [if_pos (by omega)]
    · exact List.nil_subperm
  · rw [hcall.counted, hcall.committed]
    split
    · rw [if_pos (by omega)]
    · exact List.nil_subperm

/-- Where no call is under way, the ledgers hold the same. -/
theorem ledgers_agree (h : LedgerSound s)
    (hquiet : ∀ call, s.calls call = .idle ∨ s.calls call = .returned) :
    s.counted.Perm s.committed ∧ s.recorded.Perm s.committed ∧
      s.won.Perm (s.committed.filter fun entry => 0 < entry.2) := by
  have hstage : ∀ call, tradeStage (s.calls call) = 0 ∨ tradeStage (s.calls call) = 7 := by
    intro call
    rcases hquiet call with hphase | hphase
    · exact .inl (by rw [hphase]; rfl)
    · exact .inr (by rw [hphase]; rfl)
  refine ⟨?_, ?_, ?_⟩
  all_goals
    rw [List.perm_iff_count]
    rintro ⟨call, value⟩
    obtain ⟨pnl, hcall⟩ := h.calls call
  · rw [← count_valuesAt, ← count_valuesAt, hcall.counted, hcall.committed]
    rcases hstage call with hphase | hphase <;> simp [hphase]
  · rw [← count_valuesAt, ← count_valuesAt, hcall.recorded, hcall.committed]
    rcases hstage call with hphase | hphase <;> simp [hphase]
  · have hfilter : (s.committed.filter fun entry => 0 < entry.2).count (call, value) =
        if 0 < value then s.committed.count (call, value) else 0 := by
      split
      · next hwins => exact List.count_filter (by simpa using hwins)
      · next hloses =>
        apply List.count_eq_zero.mpr
        intro hmem
        exact hloses (by simpa using (List.mem_filter.mp hmem).2)
    rw [hfilter, ← count_valuesAt, ← count_valuesAt, hcall.won, hcall.committed]
    rcases hstage call with hphase | hphase
    · simp [hphase]
    · by_cases hvalue : pnl = value
      · subst hvalue
        by_cases hwins : 0 < pnl <;> simp [hphase, hwins]
      · by_cases hwins : 0 < pnl <;> simp [hphase, hwins, hvalue]

/-- The initial capital stays what it was. -/
theorem run_initialCapital (initialCapital : ℚ) (events : List TradeEvent) :
    (CapitalTracker.run initialCapital events).initialCapital = initialCapital := by
  unfold CapitalTracker.run
  refine List.foldlRecOn (motive := fun s : CapitalTracker => s.initialCapital = initialCapital)
    _ _ rfl ?_
  intro s hs event _
  cases event with
  | proceed call spurious => exact (extends_proceed s call spurious).initial.trans hs
  | complete call pnlKrw usdtRate =>
    simp only [CapitalTracker.step]
    split <;> exact hs

/-- However the callbacks of the loops take turns: the capital is the initial one and the profit of
each call whose exchange succeeded, once.  Every row of the trade log has the capital behind some
first profits and behind more of them, with its own between.  No more trades are counted than were
added, and no more won than counted; and where no callback is under way the counters and the history
agree with the profits. -/
theorem capital_is_ledger (initialCapital : ℚ) (events : List TradeEvent) :
    let s := CapitalTracker.run initialCapital events
    s.getCurrentCapital = initialCapital + profits s.committed ∧
      (∀ call, (valuesAt call s.committed).length ≤ 1) ∧
      (∀ row ∈ s.tradeLog, ∃ first own last, first ≤ own ∧ own < last ∧
        s.committed[own]? = some (row.call, row.pnlUsd) ∧
        row.capitalBefore = initialCapital + profits (s.committed.take first) ∧
        row.capitalAfter = initialCapital + profits (s.committed.take last)) ∧
      s.winningTrades ≤ s.totalTrades ∧ s.totalTrades ≤ s.committed.length ∧
      ((∀ call, s.calls call = .idle ∨ s.calls call = .returned) →
        s.totalTrades = s.committed.length ∧
        s.winningTrades = s.committed.countP (fun entry => 0 < entry.2) ∧
        s.pnlHistory.Perm (s.committed.map Prod.snd)) := by
  intro s
  have hsound : LedgerSound s := run_ledgerSound initialCapital events
  have hinitial : s.initialCapital = initialCapital := run_initialCapital initialCapital events
  obtain ⟨hwon, -, hcounted⟩ := ledgers_within hsound
  refine ⟨?_, ?_, ?_, ?_, ?_, ?_⟩
  · rw [CapitalTracker.getCurrentCapital, hsound.realized, hinitial]
  · intro call
    obtain ⟨pnl, hcall⟩ := hsound.calls call
    rw [hcall.committed]
    split <;> simp
  · intro row hrow
    obtain ⟨first, own, last, hfirst, hlast, hown, hbefore, hafter⟩ := hsound.rows row hrow
    rw [← hinitial]
    exact ⟨first, own, last, hfirst, hlast, hown, hbefore.2, hafter.2⟩
  · rw [hsound.wins, hsound.trades]
    exact hwon.length_le
  · rw [hsound.trades]
    exact hcounted.length_le
  · intro hquiet
    obtain ⟨hall, hrecorded, hwins⟩ := ledgers_agree hsound hquiet
    refine ⟨?_, ?_, ?_⟩
    · rw [hsound.trades, hall.length_eq]
    · rw [hsound.wins, hwins.length_eq, List.countP_eq_length_filter]
    · rw [hsound.history]
      exact hrecorded.map Prod.snd

end SpotRelay.Analysis
