import SpotRelay.Analysis.SignalFreshness

/-!
# One signal for an uninterrupted qualification

A recomputation of a symbol stores whether its best usable pair passes the entry gate, and keeps
the fired mark exactly as long as it does.  A scan takes up an untracked symbol only without the
mark and leaves it marked, so two such signals have a failed recomputation between them.

* **a mark** is lost only where the symbol fails the gate (`signalFired_step`).
* **an operation** signals no symbol twice (`count_emitted_le_one`), and an untracked one only
  without its mark (`marks_of_emitsFresh`).
-/

set_option autoImplicit false

namespace SpotRelay.Analysis

open SpotRelay.Model SpotRelay.Library

/-! ## What a recomputation decides -/

/-- The symbol has a usable pair, and the best one passes the entry gate. -/
def gatePasses (e : Engine) (nowMs : UInt64) (symbol : SymbolId) : Bool :=
  (e.bestPair nowMs symbol).any Engine.PairQuote.qualifies

/-- The indices that a ticker recomputes: all of them for the exchange rate, else its own. -/
def recomputed (e : Engine) (ticker : Ticker) : List ℕ :=
  if ticker.symbol.isUsdtKrw then List.range e.symbols.symbols.length
  else (e.tickerIndex ticker).toList

/-- The engine with the quotes and the rate that the recomputations of a ticker read. -/
def quoted (e : Engine) (clock : Engine.Clock) (ticker : Ticker) : Engine :=
  let e := { e with priceCache := e.priceCache.update ticker clock.quotesMs }
  if ticker.symbol.isUsdtKrw then e.onUsdtUpdate ticker.exchange (Engine.usdtPrice ticker) else e

/-- The operation recomputes the symbol, which has no usable pair or fails the entry gate. -/
def FailsGate (symbol : SymbolId) (e : Engine) : Engine.Op → Prop
  | .tickerUpdate clock ticker =>
    (∃ idx ∈ recomputed e ticker, e.symbols.symbols[idx]? = some symbol) ∧
      gatePasses (quoted e clock ticker) clock.quotesMs symbol = false
  | .refreshEntryFilters nowMs =>
    symbol ∈ e.symbols.symbols ∧ gatePasses e nowMs symbol = false
  | _ => False

/-- The operation signals the symbol, which has no tracked position. -/
def EmitsFresh (std : StdSort) (maxPositions : MaxPositions) (symbol : SymbolId) (e : Engine)
    (op : Engine.Op) : Prop :=
  e.tracker.getPosition symbol = none ∧
    symbol ∈ (e.step std maxPositions op).2.map fun em => em.signal.symbol

variable (e : Engine)

/-- The best pair is chosen from the pairs and the prices alone. -/
theorem bestPair_congr {e e' : Engine} (hpairs : e'.exchangePairs = e.exchangePairs)
    (hprices : e'.priceCache = e.priceCache) (nowMs : UInt64) (symbol : SymbolId) :
    e'.bestPair nowMs symbol = e.bestPair nowMs symbol := by
  have hquote : e'.pairQuote nowMs symbol = e.pairQuote nowMs symbol := by
    funext pair
    simp only [Engine.pairQuote, hprices]
  simp only [Engine.bestPair, hpairs, hquote]

/-- The gate reads the pairs and the prices and nothing else of the engine. -/
theorem gatePasses_congr {e e' : Engine} (hpairs : e'.exchangePairs = e.exchangePairs)
    (hprices : e'.priceCache = e.priceCache) (nowMs : UInt64) (symbol : SymbolId) :
    gatePasses e' nowMs symbol = gatePasses e nowMs symbol := by
  rw [gatePasses, bestPair_congr hpairs hprices, gatePasses]

/-- The flags of an entry after a recomputation with the given outcome. -/
structure Recomputed (passes : Bool) (old new : CachedEntryPremium) : Prop where
  qualified : new.qualified = passes
  signalFired : new.signalFired = (passes && old.signalFired)

/-- A cleared entry counts as recomputed and not qualified. -/
theorem recomputed_clearState (idx : ℕ) :
    Recomputed false (e.entryCache idx) ((e.clearState idx).entryCache idx) := by
  simp only [Engine.clearState, entryCache_sync]
  split_ifs with hset
  · constructor <;> simp [Engine.setEntry]
  · simp only [Bool.or_eq_true, not_or, Bool.not_eq_true] at hset
    exact ⟨hset.1, by simpa using hset.2⟩

/-- A mark is kept only by an entry that passed before and passes again. -/
theorem recomputed_updateSymbolEntry (nowMs : UInt64) {idx : ℕ} {symbol : SymbolId}
    (hget : e.symbols.symbols[idx]? = some symbol) (hflags : FlagsAgree e idx) :
    Recomputed (gatePasses e nowMs symbol) (e.entryCache idx)
      ((e.updateSymbolEntry nowMs idx).entryCache idx) := by
  simp only [Engine.updateSymbolEntry, hget]
  by_cases hpairs : e.exchangePairs = []
  · have hnone : gatePasses e nowMs symbol = false := by
      simp [gatePasses, Engine.bestPair, hpairs]
    rw [if_pos hpairs, hnone]
    exact recomputed_clearState e idx
  · rw [if_neg hpairs, gatePasses]
    cases e.bestPair nowMs symbol with
    | none => exact recomputed_clearState e idx
    | some best =>
      simp only [Engine.storeQualification, Option.any_some, entryCache_sync]
      constructor
      · simp [Engine.setEntry]
      · have hfired := hflags.qualified_of_fired
        simp only [Engine.setEntry, if_true]
        split_ifs with hchanged
        · cases hq : best.qualifies with
          | false => rfl
          | true =>
            rw [hq] at hchanged
            cases hmark : (e.entryCache idx).signalFired with
            | false => rfl
            | true => exact absurd (hfired hmark) hchanged
        · rw [not_not] at hchanged
          cases hmark : (e.entryCache idx).signalFired with
          | false => simp
          | true => simp [← hchanged, hfired hmark]

/-- Recomputing several symbols recomputes each of them at the same prices. -/
theorem foldl_updateSymbolEntry (nowMs : UInt64) (idxs : List ℕ) (hflags : ∀ i, FlagsAgree e i)
    {i : ℕ} {symbol : SymbolId} (hget : e.symbols.symbols[i]? = some symbol) :
    let e' := idxs.foldl (fun e idx => e.updateSymbolEntry nowMs idx) e
    (i ∈ idxs → Recomputed (gatePasses e nowMs symbol) (e.entryCache i) (e'.entryCache i)) ∧
      (i ∉ idxs → e'.entryCache i = e.entryCache i) := by
  induction idxs generalizing e with
  | nil => simp
  | cons idx idxs ih =>
    have hframe := onlyCache_updateSymbolEntry e idx nowMs
    obtain ⟨hmem, hnot⟩ := ih (e.updateSymbolEntry nowMs idx)
      (flagsAgree_updateSymbolEntry e idx nowMs hflags) (by rw [hframe.symbols]; exact hget)
    rw [gatePasses_congr hframe.exchangePairs hframe.priceCache] at hmem
    by_cases hi : i = idx
    · subst hi
      have hfirst := recomputed_updateSymbolEntry e nowMs hget (hflags i)
      refine ⟨fun _ => ?_, fun hout => absurd List.mem_cons_self hout⟩
      by_cases hagain : i ∈ idxs
      · have hsecond := hmem hagain
        refine ⟨hsecond.qualified, ?_⟩
        rw [List.foldl_cons, hsecond.signalFired, hfirst.signalFired, Bool.and_self_left]
      · rw [List.foldl_cons, hnot hagain]
        exact hfirst
    · rw [entryCache_updateSymbolEntry_of_ne e nowMs hi] at hmem hnot
      simpa [hi] using And.intro hmem hnot

/-- Storing a quote leaves the entry cache and the symbols alone. -/
theorem sameCache_quoted (clock : Engine.Clock) (ticker : Ticker) :
    SameCache e (quoted e clock ticker) ∧ (quoted e clock ticker).symbols = e.symbols := by
  simp only [quoted]
  split_ifs
  · have hrate := sameCache_onUsdtUpdate
      { e with priceCache := e.priceCache.update ticker clock.quotesMs } ticker.exchange
      (Engine.usdtPrice ticker)
    have hsetup := setup_onUsdtUpdate
      { e with priceCache := e.priceCache.update ticker clock.quotesMs } ticker.exchange
      (Engine.usdtPrice ticker)
    exact ⟨⟨hrate.entryCache, hrate.candidateBits, hrate.signalFiredBits⟩, hsetup.symbols⟩
  · exact ⟨⟨rfl, rfl, rfl⟩, rfl⟩

/-- The entries that a ticker hands to its scan are those of its recomputations. -/
theorem entryCache_beforeScan (clock : Engine.Clock) (ticker : Ticker) :
    (beforeScan clock ticker e).1.entryCache =
      ((recomputed e ticker).foldl (fun e idx => e.updateSymbolEntry clock.quotesMs idx)
        (quoted e clock ticker)).entryCache := by
  have hsame : recomputed e ticker =
    recomputed { e with priceCache := e.priceCache.update ticker clock.quotesMs } ticker := rfl
  rw [hsame]
  simp only [quoted, beforeScan]
  generalize ({ e with priceCache := e.priceCache.update ticker clock.quotesMs } : Engine) = e'
  by_cases husdt : ticker.symbol.isUsdtKrw = true
  · simp only [recomputed, husdt, if_true]
    rw [← (setup_onUsdtUpdate e' ticker.exchange (Engine.usdtPrice ticker)).symbols]
    split_ifs <;> rfl
  · simp only [recomputed, husdt, if_false, Bool.false_eq_true]
    cases e'.tickerIndex ticker with
    | none => rfl
    | some idx =>
      simp only
      split_ifs <;> rfl

/-- The flags that a ticker hands to its scan. -/
theorem recomputed_beforeScan (clock : Engine.Clock) (ticker : Ticker)
    (hflags : ∀ i, FlagsAgree e i) {i : ℕ} {symbol : SymbolId}
    (hget : e.symbols.symbols[i]? = some symbol) :
    (i ∈ recomputed e ticker →
        Recomputed (gatePasses (quoted e clock ticker) clock.quotesMs symbol) (e.entryCache i)
          ((beforeScan clock ticker e).1.entryCache i)) ∧
      (i ∉ recomputed e ticker →
        (beforeScan clock ticker e).1.entryCache i = e.entryCache i) := by
  obtain ⟨hcache, hsymbols⟩ := sameCache_quoted e clock ticker
  rw [entryCache_beforeScan, ← hcache.entryCache]
  exact foldl_updateSymbolEntry (quoted e clock ticker) clock.quotesMs (recomputed e ticker)
    (fun j => (hflags j).congr hcache) (by rw [hsymbols]; exact hget)

/-! ## Marks along a run -/

/-- A scan selects an untracked symbol only without a mark, and an unqualified one never. -/
theorem scanIndices_fresh (std : StdSort) (maxPositions : MaxPositions)
    (hflags : ∀ i, FlagsAgree e i) {idx : ℕ} {symbol : SymbolId}
    (hget : e.symbols.symbols[idx]? = some symbol)
    (huntracked : e.tracker.getPosition symbol = none)
    (h : idx ∈ scanIndices std maxPositions e) :
    (e.entryCache idx).qualified = true ∧ (e.entryCache idx).signalFired = false := by
  have hfires := fires_of_mem_scanIndices std maxPositions e hflags h
  have hstate : e.positionState idx = .noPosition := by
    rw [positionState_eq_noPosition_iff e hget, huntracked]
    rfl
  exact ⟨hfires.qualified, hfires.eligible.resolve_left (by rw [hstate]; simp)⟩

/-- A scan clears no mark. -/
theorem signalFired_fireEntryFromCache (std : StdSort) (maxPositions : MaxPositions)
    (scanMs : UInt64) (hflags : ∀ i, FlagsAgree e i) {i : ℕ}
    (h : (e.entryCache i).signalFired = true) :
    ((Engine.fireEntryFromCache std maxPositions e scanMs).1.entryCache i).signalFired = true := by
  rw [(fireEntryFromCache_spec std maxPositions e scanMs hflags).2.1 i]
  simp only [firedEntry]
  split_ifs
  · exact h
  · rfl
  · exact h

/-- What comes before the scan keeps flags and bits in agreement. -/
theorem flagsAgree_beforeScan (clock : Engine.Clock) (ticker : Ticker)
    (hflags : ∀ i, FlagsAgree e i) : ∀ i, FlagsAgree (beforeScan clock ticker e).1 i :=
  beforeScan_invariant (I := fun e => ∀ i, FlagsAgree e i) e
    (fun _ _ hsame h i => (h i).congr hsame)
    (fun e nowMs idx h => flagsAgree_updateSymbolEntry e idx nowMs h) clock ticker hflags

variable (std : StdSort) (maxPositions : MaxPositions) (op : Engine.Op)

/-- Every operation keeps flags and bits in agreement. -/
theorem flagsAgree_step (hflags : ∀ i, FlagsAgree e i) :
    ∀ i, FlagsAgree (e.step std maxPositions op).1 i :=
  step_invariant (I := fun e => ∀ i, FlagsAgree e i) e std maxPositions
    (fun _ _ hsame h i => (h i).congr hsame)
    (fun e nowMs idx h => flagsAgree_updateSymbolEntry e idx nowMs h)
    (fun e scanMs h => flagsAgree_fireEntryFromCache e std maxPositions scanMs h) op hflags

/-- A symbol keeps its index. -/
theorem getElem?_step {i : ℕ} {symbol : SymbolId} (hflags : ∀ i, FlagsAgree e i)
    (hget : e.symbols.symbols[i]? = some symbol) :
    (e.step std maxPositions op).1.symbols.symbols[i]? = some symbol := by
  cases op with
  | addSymbol added =>
    simp only [Engine.step, SymbolTable.add]
    split_ifs
    · exact hget
    · exact hget
    · rw [List.getElem?_append_left (List.getElem?_eq_some_iff.mp hget).1]
      exact hget
  | tickerUpdate clock ticker =>
    have hbefore := flagsAgree_beforeScan e clock ticker hflags
    have hsymbols := (setup_beforeScan e clock ticker).symbols
    simp only [Engine.step, onTickerUpdate_eq]
    split_ifs
    · rw [(fireEntryFromCache_spec std maxPositions _ clock.scanMs hbefore).1.symbols, hsymbols]
      exact hget
    · rw [hsymbols]
      exact hget
  | usdtUpdate ex price =>
    simp only [Engine.step, (setup_onUsdtUpdate e ex price).symbols]
    exact hget
  | refreshEntryFilters nowMs =>
    simp only [Engine.step, (onlyCache_updateAllEntries e nowMs).symbols]
    exact hget
  | addExchangePair korean foreign => exact hget
  | setExchangePairEntryEnabled korean foreign enabled => exact hget
  | publishTransfers snapshot => exact hget
  | positionsChange tracker => exact hget
  | setEntrySuppressed suppressed => exact hget

/-- A mark is lost only where the symbol fails the gate. -/
theorem signalFired_step {i : ℕ} {symbol : SymbolId} (hflags : ∀ i, FlagsAgree e i)
    (hget : e.symbols.symbols[i]? = some symbol)
    (hfired : (e.entryCache i).signalFired = true) (hpasses : ¬ FailsGate symbol e op) :
    ((e.step std maxPositions op).1.entryCache i).signalFired = true := by
  cases op with
  | tickerUpdate clock ticker =>
    have hbefore := flagsAgree_beforeScan e clock ticker hflags
    obtain ⟨hin, hout⟩ := recomputed_beforeScan e clock ticker hflags hget
    have hmark : ((beforeScan clock ticker e).1.entryCache i).signalFired = true := by
      by_cases hi : i ∈ recomputed e ticker
      · have hgate : gatePasses (quoted e clock ticker) clock.quotesMs symbol = true := by
          by_contra hfails
          exact hpasses ⟨⟨i, hi, hget⟩, by simpa using hfails⟩
        rw [(hin hi).signalFired, hgate, hfired]
        rfl
      · rw [hout hi]
        exact hfired
    simp only [Engine.step, onTickerUpdate_eq]
    split_ifs
    · exact signalFired_fireEntryFromCache _ std maxPositions clock.scanMs hbefore hmark
    · exact hmark
  | refreshEntryFilters nowMs =>
    have hlt : i ∈ List.range e.symbols.symbols.length :=
      List.mem_range.mpr (List.getElem?_eq_some_iff.mp hget).1
    have hgate : gatePasses e nowMs symbol = true := by
      by_contra hfails
      exact hpasses ⟨List.mem_of_getElem? hget, by simpa using hfails⟩
    have hall := (foldl_updateSymbolEntry e nowMs _ hflags hget).1 hlt
    simp only [Engine.step, Engine.updateAllEntries, hall.signalFired, hgate, hfired]
    rfl
  | usdtUpdate ex price =>
    simp only [Engine.step, (sameCache_onUsdtUpdate e ex price).entryCache]
    exact hfired
  | addSymbol added => exact hfired
  | addExchangePair korean foreign => exact hfired
  | setExchangePairEntryEnabled korean foreign enabled => exact hfired
  | publishTransfers snapshot => exact hfired
  | positionsChange tracker => exact hfired
  | setEntrySuppressed suppressed => exact hfired

/-- A new signal finds its symbol unmarked and leaves it marked. -/
theorem marks_of_emitsFresh {symbol : SymbolId} (hflags : ∀ i, FlagsAgree e i)
    (h : EmitsFresh std maxPositions symbol e op) :
    ∃ i, e.symbols.symbols[i]? = some symbol ∧
      (e.entryCache i).signalFired = false ∧
      ((e.step std maxPositions op).1.entryCache i).signalFired = true := by
  obtain ⟨huntracked, hemits⟩ := h
  cases op with
  | tickerUpdate clock ticker =>
    have hbefore := flagsAgree_beforeScan e clock ticker hflags
    have hsetup := setup_beforeScan e clock ticker
    simp only [Engine.step, onTickerUpdate_eq] at hemits ⊢
    split_ifs at hemits ⊢ with hscan
    · obtain ⟨em, hem, rfl⟩ := List.mem_map.mp hemits
      obtain ⟨i, hi, hget⟩ := mem_emitted std maxPositions _ hbefore hem
      have hfresh := scanIndices_fresh _ std maxPositions hbefore hget
        (by rw [hsetup.tracker]; exact huntracked) hi
      rw [hsetup.symbols] at hget
      refine ⟨i, hget, ?_, ?_⟩
      · obtain ⟨hin, hout⟩ := recomputed_beforeScan e clock ticker hflags hget
        by_cases hrecomputed : i ∈ recomputed e ticker
        · have hnew := hin hrecomputed
          have hmark := hnew.signalFired
          rwa [← hnew.qualified, hfresh.1, hfresh.2, Bool.true_and, eq_comm] at hmark
        · rw [← hout hrecomputed]
          exact hfresh.2
      · have hspec := fireEntryFromCache_spec std maxPositions
          (beforeScan clock ticker e).1 clock.scanMs hbefore
        rw [hspec.2.1 i, if_pos hi, firedEntry, if_neg]
        intro hpartial
        have hstate := (positionState_eq_noPosition_iff (beforeScan clock ticker e).1
          (by rw [hsetup.symbols]; exact hget)).mpr (by rw [hsetup.tracker, huntracked]; rfl)
        rw [hstate] at hpartial
        cases hpartial
    · cases hemits
  | _ => cases hemits

/-! ## Episodes -/

/-- An operation signals no symbol twice. -/
theorem count_emitted_le_one (hflags : ∀ i, FlagsAgree e i) (symbol : SymbolId) :
    ((e.step std maxPositions op).2.map fun em => em.signal.symbol).count symbol ≤ 1 := by
  refine List.nodup_iff_count_le_one.mp ?_ symbol
  cases op with
  | tickerUpdate clock ticker =>
    have hbefore := flagsAgree_beforeScan e clock ticker hflags
    simp only [Engine.step, onTickerUpdate_eq]
    split_ifs
    · exact nodup_emitted std maxPositions _ clock.scanMs hbefore
    · exact List.nodup_nil
  | _ => exact List.nodup_nil

/-- In every run an operation signals a symbol at most once, and between two operations that
signal it as untracked there is one that recomputes it and finds no usable pair or a failed
gate. -/
theorem oneSignalPerEpisode (before : List Engine.Op) (first : Engine.Op) (symbol : SymbolId) :
    let e := Engine.run std maxPositions .initial before
    ((e.step std maxPositions first).2.map fun em => em.signal.symbol).count symbol ≤ 1 ∧
      ∀ (between : List Engine.Op) (second : Engine.Op),
        EmitsFresh std maxPositions symbol e first →
        EmitsFresh std maxPositions symbol
          (Engine.run std maxPositions .initial (before ++ first :: between)) second →
        ∃ done op rest, between = done ++ op :: rest ∧
          FailsGate symbol
            (Engine.run std maxPositions .initial (before ++ first :: done)) op := by
  intro e
  have hflags : ∀ i, FlagsAgree e i := flagsAgree_run std maxPositions before
  refine ⟨count_emitted_le_one e std maxPositions first hflags symbol, ?_⟩
  intro between second hfirst hsecond
  obtain ⟨i, hget, -, hfired⟩ := marks_of_emitsFresh e std maxPositions first hflags hfirst
  have hrun : ∀ ops, Engine.run std maxPositions .initial (before ++ first :: ops) =
      ops.foldl (fun e op => (e.step std maxPositions op).1) (e.step std maxPositions first).1 := by
    intro ops
    simp [e, Engine.run]
  obtain ⟨j, hget', hunfired, -⟩ := marks_of_emitsFresh _ std maxPositions second
    (flagsAgree_run std maxPositions _) hsecond
  simp only [hrun] at hget' hunfired ⊢
  -- the mark of the first signal is gone before the second
  refine Run.exists_of_lost
    (fun e => (∀ i, FlagsAgree e i) ∧ e.symbols.symbols[i]? = some symbol ∧
      (e.entryCache i).signalFired = true) ?_ between _ ⟨?_, ?_, hfired⟩ ?_
  · rintro e op ⟨hflags, hget, hfired⟩ hpasses
    exact ⟨flagsAgree_step e std maxPositions op hflags,
      getElem?_step e std maxPositions op hflags hget,
      signalFired_step e std maxPositions op hflags hget hfired hpasses⟩
  · exact flagsAgree_step e std maxPositions first hflags
  · exact getElem?_step e std maxPositions first hflags hget
  · rintro ⟨-, hgetLast, hlast⟩
    have hij : i = j := by
      have hlt := (List.getElem?_eq_some_iff.mp hgetLast).1
      exact (List.getElem?_inj hlt (SymbolTable.nodup _)).mp (hgetLast.trans hget'.symm)
    rw [hij, hunfired] at hlast
    cases hlast

/-- AAA waits for its Bithumb quote. -/
def waitingForAAA : List Engine.Op :=
  twoCoinSetup ++ [.tickerUpdate ⟨1100, 1100⟩ (foreignTicker "AAA" 1100)]

def quoteOfAAA (ask : ℚ) (timestamp : UInt64) : Engine.Op :=
  .tickerUpdate ⟨timestamp, timestamp⟩ (koreanTicker "AAA" ask timestamp)

/-- AAA is signalled at 1950, fails the gate at 1990 and is signalled again at 1950. -/
theorem oneSignalPerEpisode_requalified :
    ∃ done op rest, [quoteOfAAA 1990 1200] = done ++ op :: rest ∧
      FailsGate (.of "AAA" "KRW")
        (Engine.run .insertion .initial .initial
          (waitingForAAA ++ quoteOfAAA 1950 1100 :: done)) op := by
  have hfirst : EmitsFresh .insertion .initial (.of "AAA" "KRW")
      (Engine.run .insertion .initial .initial waitingForAAA) (quoteOfAAA 1950 1100) := by
    unfold EmitsFresh
    decide +kernel
  have hsecond : EmitsFresh .insertion .initial (.of "AAA" "KRW")
      (Engine.run .insertion .initial .initial
        (waitingForAAA ++ quoteOfAAA 1950 1100 :: [quoteOfAAA 1990 1200]))
      (quoteOfAAA 1950 1210) := by
    unfold EmitsFresh
    decide +kernel
  exact (oneSignalPerEpisode .insertion .initial waitingForAAA (quoteOfAAA 1950 1100)
    (.of "AAA" "KRW")).2 [quoteOfAAA 1990 1200] (quoteOfAAA 1950 1210) hfirst hsecond

end SpotRelay.Analysis
