import SpotRelay.Analysis.SignalEpisodes

/-!
# How many new signals one scan emits

A scan fills the slots that it sees free.  It sees a position through the index of its symbol,
so a position of a symbol that is not monitored takes no slot, and the scan may signal one symbol
too many for it.

* **the slots** that a scan sees free are counted over the monitored symbols
  (`pendingNewSignals_eq`, `monitoredPositions_le`).
* **the new signals** are as many as the candidates and these slots allow (`freshSignals_eq`).
-/

set_option autoImplicit false

namespace SpotRelay.Analysis

open SpotRelay.Model SpotRelay.Library

/-! ## Positions, marks and candidates -/

/-- All positions in the tracker. -/
def trackedPositions (e : Engine) : ℕ := (e.tracker.slots.filterMap id).length

/-- The monitored symbols with a position. -/
def monitoredPositions (e : Engine) : ℕ :=
  e.symbols.symbols.countP fun symbol => (e.tracker.getPosition symbol).isSome

/-- The monitored symbols with a fired signal and no position. -/
def firedUnpositioned (e : Engine) : ℕ :=
  e.symbols.symbols.zipIdx.countP fun p =>
    (e.tracker.getPosition p.1).isNone && (e.entryCache p.2).signalFired

/-- The monitored symbols that qualify, have not fired and have no position. -/
def freshCandidates (e : Engine) : ℕ :=
  e.symbols.symbols.zipIdx.countP fun p =>
    (e.tracker.getPosition p.1).isNone &&
      ((e.entryCache p.2).qualified && !(e.entryCache p.2).signalFired)

/-- The scan selects nothing at all. -/
def entryClosed (e : Engine) : Bool := e.exchangePairs.isEmpty || e.entrySuppressed

/-- The number of signals of a scan for symbols without a position. -/
def freshSignals (std : StdSort) (maxPositions : MaxPositions) (e : Engine) (scanMs : UInt64) :
    ℕ :=
  (Engine.fireEntryFromCache std maxPositions e scanMs).2.countP fun em =>
    (e.tracker.getPosition em.signal.symbol).isNone

/-- The slots that no position of the tracker and no fired signal takes. -/
def slotsLeft (maxPositions : MaxPositions) (e : Engine) : ℕ :=
  maxPositions.val - (trackedPositions e + firedUnpositioned e)

variable (e : Engine)

/-- Counting indices is counting symbols with their index. -/
theorem countP_range_eq {symbols : List SymbolId} {p : ℕ → Bool} {q : SymbolId × ℕ → Bool}
    (h : ∀ i symbol, symbols[i]? = some symbol → p i = q (symbol, i)) :
    (List.range symbols.length).countP p = symbols.zipIdx.countP q := by
  have hrange : List.range symbols.length = symbols.zipIdx.map Prod.snd := by
    rw [List.zipIdx_map_snd, List.range_eq_range']
  rw [hrange, List.countP_map]
  refine List.countP_congr ?_
  rintro ⟨symbol, i⟩ hmem
  have hget := List.mem_zipIdx_iff_getElem?.mp hmem
  simp only [Function.comp_apply, h i symbol hget]

/-- A position state of `noPosition` as a test. -/
theorem decide_noPosition {i : ℕ} {symbol : SymbolId}
    (hget : e.symbols.symbols[i]? = some symbol) :
    decide (e.positionState i = .noPosition) = (e.tracker.getPosition symbol).isNone := by
  rw [Bool.eq_iff_iff, decide_eq_true_eq, positionState_eq_noPosition_iff e hget,
    Option.isNone_iff_eq_none, ← Option.not_isSome_iff_eq_none, Bool.not_eq_true]

/-- The pending signals are the fired symbols without a position. -/
theorem pendingNewSignals_eq (hflags : ∀ i, FlagsAgree e i) :
    pendingNewSignals e.symbols.symbols.length e.signalFiredBits e.positionState =
      firedUnpositioned e := by
  unfold firedUnpositioned
  rw [pendingNewSignals_eq_countP e.symbols.length_le]
  refine countP_range_eq ?_
  intro i symbol hget
  rw [decide_noPosition e hget, (hflags i).fired]

/-- No two monitored symbols share a position. -/
theorem monitoredPositions_le : monitoredPositions e ≤ trackedPositions e := by
  unfold monitoredPositions trackedPositions
  rw [List.countP_eq_length_filter, ← List.length_map (f := Position.symbol)]
  refine (List.subperm_of_subset (e.symbols.nodup.filter _) ?_).length_le
  intro symbol hsymbol
  rw [List.mem_filter, PositionTracker.getPosition_isSome_iff] at hsymbol
  obtain ⟨pos, hpos, heq⟩ := hsymbol.2
  exact List.mem_map.mpr ⟨pos, hpos, heq⟩

/-! ## The number of new signals -/

variable (std : StdSort) (maxPositions : MaxPositions)

/-- The new signals of a scan are those of the selected indices without a position. -/
theorem freshSignals_eq_countP (scanMs : UInt64) (hflags : ∀ i, FlagsAgree e i) :
    freshSignals std maxPositions e scanMs =
      (scanIndices std maxPositions e).countP fun i => e.positionState i = .noPosition := by
  unfold freshSignals
  rw [(fireEntryFromCache_spec std maxPositions e scanMs hflags).2.2, List.countP_filterMap]
  refine List.countP_congr ?_
  intro i hi
  have hlt := (fires_of_mem_scanIndices std maxPositions e hflags hi).monitored
  have hget := List.getElem?_eq_getElem hlt
  rw [decide_noPosition e hget]
  simp [scanEmission, hget, Engine.emitSignal]

/-- A scan signals as many candidates as it sees free slots for. -/
theorem freshSignals_eq (scanMs : UInt64) (hflags : ∀ i, FlagsAgree e i) :
    freshSignals std maxPositions e scanMs =
      if entryClosed e then 0
      else
        min (maxPositions.val - (monitoredPositions e + firedUnpositioned e))
          (freshCandidates e) := by
  rw [freshSignals_eq_countP e std maxPositions scanMs hflags]
  have hselected : (Engine.selection std maxPositions e).indices.countP
      (fun i => e.positionState i = .noPosition) =
        min (maxPositions.val - (monitoredPositions e + firedUnpositioned e))
          (freshCandidates e) := by
    unfold Engine.selection
    rw [countP_selectEntryCandidates _ _ _ _ _ _ _ _ e.symbols.length_le, freeSlots,
      activePositions_eq, pendingNewSignals_eq e hflags]
    congr 1
    refine countP_range_eq ?_
    intro i symbol hget
    rw [decide_noPosition e hget, (hflags i).candidate]
  unfold scanIndices entryClosed
  by_cases hclosed : e.exchangePairs = [] ∨ e.entrySuppressed = true
  · have hshut : (e.exchangePairs.isEmpty || e.entrySuppressed) = true := by
      simpa using hclosed
    rw [if_pos hshut, if_pos (by tauto), List.countP_nil]
  · have hopen : ¬ (e.exchangePairs.isEmpty || e.entrySuppressed) = true := by
      simpa using hclosed
    rw [if_neg hopen]
    by_cases hnone : e.symbols.symbols.length = 0
    · rw [if_pos (by tauto), List.countP_nil, freshCandidates, List.length_eq_zero_iff.mp hnone]
      simp
    · rw [if_neg (by tauto)]
      exact hselected

/-- A position of CCC, which the engine does not monitor. -/
def trackerOfCCC : PositionTracker :=
  PositionTracker.empty.openPosition
    { symbol := .of "CCC" "KRW"
      koreanExchange := .bithumb
      foreignExchange := .bybit
      positionSizeUsd := 3000
      koreanAmount := 1500
      foreignAmount := 1500
      foreignEntryPrice := 2
      isActive := true }

/-- CCC holds the only slot, and AAA qualifies while entry is suppressed. -/
def unmonitoredPosition : List Engine.Op :=
  .positionsChange trackerOfCCC ::
    (twoCoinSetup ++
      [.setEntrySuppressed true, .tickerUpdate ⟨1100, 1100⟩ (foreignTicker "AAA" 1100),
        quoteOfAAA 1950 1100, .setEntrySuppressed false])

end SpotRelay.Analysis
