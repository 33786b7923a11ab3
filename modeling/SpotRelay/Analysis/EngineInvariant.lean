import SpotRelay.Library.Run
import SpotRelay.Model.Engine

/-!
# Invariants of the engine

What each operation of the engine may touch, and the rule by which a property of the cached
entries is carried over a whole run: it has to survive the recomputation of one symbol and the
scan.

* **frames**: what a recomputation, a rate update and a scan leave as they are (`OnlyCache`,
  `SameSetup`).
* **the rule**: a property that survives the recomputation of one symbol and a scan survives a step
  (`step_invariant`) and a run (`run_invariant`).
-/

set_option autoImplicit false

namespace SpotRelay.Analysis

open SpotRelay.Model SpotRelay.Library

variable (e : Engine) (idx : ℕ)

/-! ## What the writes touch -/

/-- At most the cached entries and the bits differ. -/
structure OnlyCache (e e' : Engine) : Prop where
  symbols : e'.symbols = e.symbols
  exchangePairs : e'.exchangePairs = e.exchangePairs
  priceCache : e'.priceCache = e.priceCache
  tracker : e'.tracker = e.tracker
  entrySuppressed : e'.entrySuppressed = e.entrySuppressed

/-- What is left alone changes the entry cache at most. -/
theorem onlyCache_refl : OnlyCache e e := ⟨rfl, rfl, rfl, rfl, rfl⟩

/-- Two steps on the entry cache are one. -/
theorem OnlyCache.trans {e e' e'' : Engine} (h : OnlyCache e e') (h' : OnlyCache e' e'') :
    OnlyCache e e'' where
  symbols := h'.symbols.trans h.symbols
  exchangePairs := h'.exchangePairs.trans h.exchangePairs
  priceCache := h'.priceCache.trans h.priceCache
  tracker := h'.tracker.trans h.tracker
  entrySuppressed := h'.entrySuppressed.trans h.entrySuppressed

/-- The bits of an entry are not part of the set-up. -/
theorem onlyCache_sync (qualifies signalFired : Bool) :
    OnlyCache e (e.syncEntryStateBits idx qualifies signalFired) := by
  unfold Engine.syncEntryStateBits
  split_ifs
  · exact onlyCache_refl e
  · exact ⟨rfl, rfl, rfl, rfl, rfl⟩

/-- A stored entry changes the entry cache only. -/
theorem onlyCache_setEntry (entry : CachedEntryPremium) : OnlyCache e (e.setEntry idx entry) :=
  ⟨rfl, rfl, rfl, rfl, rfl⟩

/-- Clearing an entry changes its flags and bits only. -/
theorem onlyCache_clearState : OnlyCache e (e.clearState idx) := by
  simp only [Engine.clearState]
  split_ifs
  · exact (onlyCache_setEntry e idx _).trans (onlyCache_sync _ idx _ _)
  · exact onlyCache_sync e idx _ _

/-- The recomputation of an entry changes the entry cache only. -/
theorem onlyCache_updateSymbolEntry (nowMs : UInt64) :
    OnlyCache e (e.updateSymbolEntry nowMs idx) := by
  unfold Engine.updateSymbolEntry
  split
  · exact onlyCache_refl e
  · split_ifs
    · exact onlyCache_clearState e idx
    · split
      · exact onlyCache_clearState e idx
      · exact (onlyCache_setEntry e idx _).trans (onlyCache_sync _ idx _ _)

/-- A fired mark changes the entry cache only. -/
theorem onlyCache_markFired : OnlyCache e (e.markFired idx) :=
  (onlyCache_setEntry e idx _).trans (onlyCache_sync _ idx _ _)

/-- A candidate that fires changes the entry cache only. -/
theorem onlyCache_fireCandidate (positionState : ℕ → PositionState) (scanMs : UInt64)
    (r : Engine × List Engine.Emission) :
    OnlyCache r.1 (Engine.fireCandidate positionState scanMs r idx).1 := by
  simp only [Engine.fireCandidate]
  split
  · exact onlyCache_refl r.1
  · split_ifs
    · exact onlyCache_refl r.1
    · exact onlyCache_refl r.1
    · exact onlyCache_refl r.1
    · exact onlyCache_markFired r.1 idx

/-- The cached entries and the bits are the same. -/
structure SameCache (e e' : Engine) : Prop where
  entryCache : e'.entryCache = e.entryCache
  candidateBits : e'.candidateBits = e.candidateBits
  signalFiredBits : e'.signalFiredBits = e.signalFiredBits

/-- A rate update leaves the entry cache. -/
theorem sameCache_onUsdtUpdate (ex : Exchange) (price : ℚ) :
    SameCache e (e.onUsdtUpdate ex price) := by
  simp only [Engine.onUsdtUpdate]
  split_ifs
  · exact ⟨rfl, rfl, rfl⟩
  · exact ⟨rfl, rfl, rfl⟩
  · exact ⟨rfl, rfl, rfl⟩

variable (std : StdSort) (maxPositions : MaxPositions)

/-! ## A ticker update is a recomputation and a scan -/

/-- The state that a ticker update hands to its scan, and whether it scans at all. -/
def beforeScan (clock : Engine.Clock) (ticker : Ticker) (e : Engine) : Engine × Bool :=
  let e := { e with priceCache := e.priceCache.update ticker clock.quotesMs }
  if ticker.symbol.isUsdtKrw then
    let e := (e.onUsdtUpdate ticker.exchange (Engine.usdtPrice ticker)).updateAllEntries
      clock.quotesMs
    if e.nextUsdtScanMs ≤ clock.scanMs then
      ({ e with nextUsdtScanMs := clock.scanMs + TradingConfig.usdtFullScanDebounceMs }, true)
    else (e, false)
  else
    match e.tickerIndex ticker with
    | none => (e, false)
    | some idx =>
      let e := e.updateSymbolEntry clock.quotesMs idx
      if (e.entryCache idx).qualified && !(e.entryCache idx).signalFired then (e, true)
      else if e.nextEntryScanMs ≤ clock.scanMs then
        ({ e with nextEntryScanMs := clock.scanMs + TradingConfig.entryFastScanCooldownMs }, true)
      else (e, false)

/-- A ticker update is what precedes its scan, and the scan where there is one. -/
theorem onTickerUpdate_eq (clock : Engine.Clock) (ticker : Ticker) :
    Engine.onTickerUpdate std maxPositions e clock ticker =
      if (beforeScan clock ticker e).2 then
        Engine.fireEntryFromCache std maxPositions (beforeScan clock ticker e).1 clock.scanMs
      else ((beforeScan clock ticker e).1, []) := by
  simp only [Engine.onTickerUpdate, beforeScan, Engine.onUsdtTicker, Engine.onSymbolTicker]
  generalize { e with priceCache := e.priceCache.update ticker clock.quotesMs } = e
  by_cases husdt : ticker.symbol.isUsdtKrw = true
  · rw [if_pos husdt, if_pos husdt]
    generalize (e.onUsdtUpdate ticker.exchange (Engine.usdtPrice ticker)).updateAllEntries
      clock.quotesMs = e
    by_cases hdue : e.nextUsdtScanMs ≤ clock.scanMs
    · simp [hdue]
    · simp [hdue]
  · rw [if_neg husdt, if_neg husdt]
    cases e.tickerIndex ticker with
    | none => simp
    | some idx =>
      simp only
      generalize e.updateSymbolEntry clock.quotesMs idx = e
      by_cases hfresh : ((e.entryCache idx).qualified && !(e.entryCache idx).signalFired) = true
      · simp [hfresh]
      · by_cases hdue : e.nextEntryScanMs ≤ clock.scanMs
        · simp [hfresh, hdue]
        · simp [hfresh, hdue]

/-- The recomputation of all entries changes the entry cache only. -/
theorem onlyCache_updateAllEntries (nowMs : UInt64) : OnlyCache e (e.updateAllEntries nowMs) := by
  unfold Engine.updateAllEntries
  generalize List.range e.symbols.symbols.length = idxs
  induction idxs generalizing e with
  | nil => exact onlyCache_refl e
  | cons idx idxs ih => exact (onlyCache_updateSymbolEntry e idx nowMs).trans (ih _)

/-- The symbols, the positions and the gate are the same. -/
structure SameSetup (e e' : Engine) : Prop where
  symbols : e'.symbols = e.symbols
  tracker : e'.tracker = e.tracker
  entrySuppressed : e'.entrySuppressed = e.entrySuppressed

/-- Two steps that leave the set-up do so together. -/
theorem SameSetup.trans {e e' e'' : Engine} (h : SameSetup e e') (h' : SameSetup e' e'') :
    SameSetup e e'' where
  symbols := h'.symbols.trans h.symbols
  tracker := h'.tracker.trans h.tracker
  entrySuppressed := h'.entrySuppressed.trans h.entrySuppressed

/-- A step on the entry cache leaves the set-up. -/
theorem OnlyCache.setup {e e' : Engine} (h : OnlyCache e e') : SameSetup e e' :=
  ⟨h.symbols, h.tracker, h.entrySuppressed⟩

/-- A rate update leaves the set-up. -/
theorem setup_onUsdtUpdate (ex : Exchange) (price : ℚ) : SameSetup e (e.onUsdtUpdate ex price) := by
  simp only [Engine.onUsdtUpdate]
  split_ifs
  · exact ⟨rfl, rfl, rfl⟩
  · exact ⟨rfl, rfl, rfl⟩
  · exact ⟨rfl, rfl, rfl⟩

/-- What precedes a scan leaves the set-up. -/
theorem setup_beforeScan (clock : Engine.Clock) (ticker : Ticker) :
    SameSetup e (beforeScan clock ticker e).1 := by
  have hprice : SameSetup e { e with priceCache := e.priceCache.update ticker clock.quotesMs } :=
    ⟨rfl, rfl, rfl⟩
  refine hprice.trans ?_
  simp only [beforeScan]
  generalize { e with priceCache := e.priceCache.update ticker clock.quotesMs } = e
  have hall := (setup_onUsdtUpdate e ticker.exchange (Engine.usdtPrice ticker)).trans
    (onlyCache_updateAllEntries _ clock.quotesMs).setup
  split_ifs
  · refine hall.trans ?_
    exact ⟨rfl, rfl, rfl⟩
  · exact hall
  · cases e.tickerIndex ticker with
    | none => exact ⟨rfl, rfl, rfl⟩
    | some idx =>
      have hone := (onlyCache_updateSymbolEntry e idx clock.quotesMs).setup
      simp only
      split_ifs
      · exact hone
      · refine hone.trans ?_
        exact ⟨rfl, rfl, rfl⟩
      · exact hone

/-! ## The invariant rule -/

section Invariant

variable {I : Engine → Prop} (hsame : ∀ e e', SameCache e e' → I e → I e')
  (hupdate : ∀ e nowMs idx, I e → I (e.updateSymbolEntry nowMs idx))

include hupdate in
/-- What each recomputation keeps, the recomputation of all entries keeps. -/
theorem updateAllEntries_invariant (nowMs : UInt64) (h : I e) : I (e.updateAllEntries nowMs) := by
  unfold Engine.updateAllEntries
  generalize List.range e.symbols.symbols.length = idxs
  induction idxs generalizing e with
  | nil => exact h
  | cons idx idxs ih => exact ih _ (hupdate e nowMs idx h)

include hsame hupdate in
/-- What a rate update and a recomputation keep, everything before a scan keeps. -/
theorem beforeScan_invariant (clock : Engine.Clock) (ticker : Ticker) (h : I e) :
    I (beforeScan clock ticker e).1 := by
  have hprice : I { e with priceCache := e.priceCache.update ticker clock.quotesMs } :=
    hsame e _ ⟨rfl, rfl, rfl⟩ h
  simp only [beforeScan]
  generalize { e with priceCache := e.priceCache.update ticker clock.quotesMs } = e at hprice ⊢
  have hall := updateAllEntries_invariant _ hupdate clock.quotesMs
    (hsame _ _ (sameCache_onUsdtUpdate e ticker.exchange (Engine.usdtPrice ticker)) hprice)
  split_ifs
  · apply hsame _ _ _ hall
    exact ⟨rfl, rfl, rfl⟩
  · exact hall
  · cases e.tickerIndex ticker with
    | none => exact hprice
    | some idx =>
      have hone := hupdate e clock.quotesMs idx hprice
      simp only
      split_ifs
      · exact hone
      · apply hsame _ _ _ hone
        exact ⟨rfl, rfl, rfl⟩
      · exact hone

variable (hfire : ∀ e scanMs, I e → I (Engine.fireEntryFromCache std maxPositions e scanMs).1)

include hsame hupdate hfire

/-- Every operation keeps what recomputations and scans keep. -/
theorem step_invariant (op : Engine.Op) (h : I e) : I (e.step std maxPositions op).1 := by
  cases op with
  | addSymbol symbol => exact hsame e _ ⟨rfl, rfl, rfl⟩ h
  | addExchangePair korean foreign => exact hsame e _ ⟨rfl, rfl, rfl⟩ h
  | setExchangePairEntryEnabled korean foreign enabled => exact hsame e _ ⟨rfl, rfl, rfl⟩ h
  | tickerUpdate clock ticker =>
    have hbefore := beforeScan_invariant e hsame hupdate clock ticker h
    simp only [Engine.step, onTickerUpdate_eq]
    split_ifs
    · exact hfire _ clock.scanMs hbefore
    · exact hbefore
  | usdtUpdate ex price => exact hsame e _ (sameCache_onUsdtUpdate e ex price) h
  | publishTransfers snapshot => exact hsame e _ ⟨rfl, rfl, rfl⟩ h
  | refreshEntryFilters nowMs => exact updateAllEntries_invariant e hupdate nowMs h
  | positionsChange tracker => exact hsame e _ ⟨rfl, rfl, rfl⟩ h
  | setEntrySuppressed suppressed => exact hsame e _ ⟨rfl, rfl, rfl⟩ h

/-- A property that recomputations and scans keep holds in every state of a run. -/
theorem run_invariant (ops : List Engine.Op) (h : I e) : I (Engine.run std maxPositions e ops) := by
  induction ops generalizing e with
  | nil => exact h
  | cons op ops ih =>
    exact ih _ (step_invariant e std maxPositions hsame hupdate hfire op h)

end Invariant

/-! ## Runs with the signals they emit -/

/-- One operation, over the signals emitted so far. -/
def traceStep (r : Engine × List Engine.Emission) (op : Engine.Op) :
    Engine × List Engine.Emission :=
  ((r.1.step std maxPositions op).1, r.2 ++ (r.1.step std maxPositions op).2)

/-- A run from the constructed engine: the last state and all signals. -/
def runTrace (ops : List Engine.Op) : Engine × List Engine.Emission :=
  ops.foldl (traceStep std maxPositions) (.initial, [])

end SpotRelay.Analysis
