import SpotRelay.Analysis.EntryScan

/-!
# How fresh the quotes of a signal are

The age of the two quotes is checked when an entry is recomputed, and the signal is emitted by
a later scan that does not look at the clock.  What survives from the check to the emission is
what does not age: both quotes were seen, lie within the desync limit and have narrow spreads.

* **an entry** in the cache was computed from quotes that passed the checks (`CacheInvariant`).
* **a scan** emits fresh signals only, exactly when every entry it selects has young quotes
  (`scan_fresh_iff`).
-/

set_option autoImplicit false

namespace SpotRelay.Analysis

open SpotRelay.Model SpotRelay.Library

variable (std : StdSort) (maxPositions : MaxPositions)

/-! ## What the pair loop knows of a pair -/

/-- A pair that the loop compares. -/
structure Eligible (e : Engine) (nowMs : UInt64) (symbol : SymbolId) (pair : ExchangePairConfig) :
    Prop where
  enabled : pair.entryEnabled = true
  route : e.priceCache.isTransferRouteAvailable (pair.korean, pair.foreign, symbol.base) = true
  ask : 0 < (e.priceCache.getPrice pair.korean symbol).ask
  bid : 0 < (e.priceCache.getPrice pair.foreign symbol.foreign).bid
  usable : Engine.quotePairIsUsable nowMs (e.priceCache.getPrice pair.korean symbol)
    (e.priceCache.getPrice pair.foreign symbol.foreign) = true
  rate : 0 < e.priceCache.getUsdtKrw pair.korean

/-- The metrics of a pair, at its fees. -/
def metricsOfPair (e : Engine) (symbol : SymbolId) (pair : ExchangePairConfig) : RelayMetrics :=
  let koreanPrice := e.priceCache.getPrice pair.korean symbol
  let foreignPrice := e.priceCache.getPrice pair.foreign symbol.foreign
  calculateRelayMetrics koreanPrice.ask koreanPrice.askQty foreignPrice.bid foreignPrice.bidQty
    (e.priceCache.getUsdtKrw pair.korean) (TradingConfig.getKoreanFeeRate pair.korean)
    (TradingConfig.getForeignFeeRate pair.foreign)
    (e.priceCache.getWithdrawFee (pair.korean, pair.foreign, symbol.base))

/-- What the loop knows of an eligible pair. -/
def quoteOf (e : Engine) (symbol : SymbolId) (pair : ExchangePairConfig) : Engine.PairQuote where
  korean := pair.korean
  foreign := pair.foreign
  koreanPrice := e.priceCache.getPrice pair.korean symbol
  foreignPrice := e.priceCache.getPrice pair.foreign symbol.foreign
  usdtRate := e.priceCache.getUsdtKrw pair.korean
  metrics := metricsOfPair e symbol pair

/-- Usable quotes are valid. -/
theorem valid_of_quotePairIsUsable {nowMs : UInt64} {korean foreign : PriceData}
    (h : Engine.quotePairIsUsable nowMs korean foreign = true) :
    korean.valid = true ∧ foreign.valid = true := by
  have hfresh : ∀ price : PriceData,
      Engine.quoteIsFreshWithLimit price nowMs TradingConfig.maxQuoteAgeMs = true →
        price.valid = true := by
    intro price hprice
    by_contra hinvalid
    simp [Engine.quoteIsFreshWithLimit, hinvalid] at hprice
  unfold Engine.quotePairIsUsable at h
  split_ifs at h with hstale
  simp only [Bool.or_eq_true, Bool.not_eq_true', not_or, Bool.not_eq_false] at hstale
  exact ⟨hfresh korean hstale.1, hfresh foreign hstale.2⟩

/-- `pairQuote` in one statement: it answers for the eligible pairs, with what `quoteOf` says. -/
theorem pairQuote_eq_some_iff {e : Engine} {nowMs : UInt64} {symbol : SymbolId}
    {pair : ExchangePairConfig} {quote : Engine.PairQuote} :
    e.pairQuote nowMs symbol pair = some quote ↔
      Eligible e nowMs symbol pair ∧ quoteOf e symbol pair = quote := by
  constructor
  · intro h
    simp only [Engine.pairQuote] at h
    split_ifs at h with henabled hroute hkorean hforeign husable hrate
    simp only [not_or, not_le, Bool.not_eq_false] at henabled hroute hkorean hforeign husable hrate
    exact ⟨⟨henabled, hroute, hkorean.2, hforeign.2, husable, hrate⟩, Option.some.inj h⟩
  · rintro ⟨h, rfl⟩
    obtain ⟨hkorean, hforeign⟩ := valid_of_quotePairIsUsable h.usable
    simp only [Engine.pairQuote, h.enabled, h.route, hkorean, hforeign, h.usable, not_le.mpr h.ask,
      not_le.mpr h.bid, not_le.mpr h.rate, Bool.true_eq_false, or_self, if_false]
    rfl

/-! ## The pair of a recomputed entry -/

/-- The best of a list is one of it, or the one that the search began with. -/
theorem mem_of_foldl_betterPair {quotes : List Engine.PairQuote} {best : Option Engine.PairQuote}
    {q : Engine.PairQuote} (h : quotes.foldl Engine.betterPair best = some q) :
    q ∈ quotes ∨ best = some q := by
  induction quotes generalizing best with
  | nil => exact Or.inr h
  | cons quote quotes ih =>
    rcases ih h with hmem | hbest
    · exact Or.inl (List.mem_cons_of_mem _ hmem)
    · simp only [Engine.betterPair] at hbest
      split_ifs at hbest
      · rw [Option.some.injEq] at hbest
        exact Or.inl (hbest ▸ List.mem_cons_self)
      · exact Or.inr hbest

/-- The best pair is one that the loop did not pass over. -/
theorem exists_pairQuote_of_bestPair {e : Engine} {nowMs : UInt64} {symbol : SymbolId}
    {best : Engine.PairQuote} (h : e.bestPair nowMs symbol = some best) :
    ∃ pair ∈ e.exchangePairs, e.pairQuote nowMs symbol pair = some best := by
  rcases mem_of_foldl_betterPair h with hmem | hnone
  · exact List.mem_filterMap.mp hmem
  · cases hnone

/-- The quotes of a pair that is not passed over are usable at the time of the check. -/
theorem usable_of_pairQuote {e : Engine} {nowMs : UInt64} {symbol : SymbolId}
    {pair : ExchangePairConfig} {q : Engine.PairQuote}
    (h : e.pairQuote nowMs symbol pair = some q) :
    Engine.quotePairIsUsable nowMs q.koreanPrice q.foreignPrice = true := by
  obtain ⟨heligible, rfl⟩ := pairQuote_eq_some_iff.mp h
  exact heligible.usable

/-! ## Checked entries -/

/-- A qualified entry was computed from two quotes that were usable at some time. -/
def QuotesChecked (entry : CachedEntryPremium) : Prop :=
  entry.qualified = true →
    ∃ checkedMs, Engine.quotePairIsUsable checkedMs entry.koreanQuote entry.foreignQuote = true

/-- The prices and sizes of an entry are those of its two quotes. -/
structure BuiltFrom (entry : CachedEntryPremium) : Prop where
  koreanAsk : entry.koreanAsk = entry.koreanQuote.ask
  koreanAskQty : entry.koreanAskQty = entry.koreanQuote.askQty
  foreignBid : entry.foreignBid = entry.foreignQuote.bid
  foreignBidQty : entry.foreignBidQty = entry.foreignQuote.bidQty

/-- What every cached entry satisfies. -/
def SoundEntry (entry : CachedEntryPremium) : Prop := QuotesChecked entry ∧ BuiltFrom entry

/-- An entry without its flags has nothing to show. -/
theorem soundEntry_unqualified {entry : CachedEntryPremium} (h : SoundEntry entry) :
    SoundEntry { entry with qualified := false, signalFired := false } := by
  refine ⟨?_, ⟨h.2.1, h.2.2, h.2.3, h.2.4⟩⟩
  intro hqualified
  cases hqualified

/-- Marking an entry as fired leaves its quotes alone. -/
theorem soundEntry_fired {entry : CachedEntryPremium} (h : SoundEntry entry) :
    SoundEntry { entry with signalFired := true } :=
  ⟨h.1, ⟨h.2.1, h.2.2, h.2.3, h.2.4⟩⟩

variable (e : Engine) (idx : ℕ)

/-- Writing a sound entry keeps every entry sound. -/
theorem soundEntry_setEntry_sync {entry : CachedEntryPremium} {qualifies signalFired : Bool}
    (hentry : SoundEntry entry) (h : ∀ i, SoundEntry (e.entryCache i)) (i : ℕ) :
    SoundEntry
      (((e.setEntry idx entry).syncEntryStateBits idx qualifies signalFired).entryCache i) := by
  have hcache : ((e.setEntry idx entry).syncEntryStateBits idx qualifies signalFired).entryCache =
      (e.setEntry idx entry).entryCache := by
    unfold Engine.syncEntryStateBits
    split_ifs <;> rfl
  rw [hcache]
  simp only [Engine.setEntry]
  split_ifs
  · exact hentry
  · exact h i

/-- A cleared entry stays sound. -/
theorem soundEntry_clearState (h : ∀ i, SoundEntry (e.entryCache i)) (i : ℕ) :
    SoundEntry ((e.clearState idx).entryCache i) := by
  simp only [Engine.clearState]
  split_ifs
  · exact soundEntry_setEntry_sync e idx (soundEntry_unqualified (h idx)) h i
  · unfold Engine.syncEntryStateBits
    split_ifs <;> exact h i

/-- A recomputed entry comes from quotes that were just checked. -/
theorem soundEntry_updateSymbolEntry (nowMs : UInt64) (h : ∀ i, SoundEntry (e.entryCache i)) :
    ∀ i, SoundEntry ((e.updateSymbolEntry nowMs idx).entryCache i) := by
  intro i
  unfold Engine.updateSymbolEntry
  split
  · exact h i
  · rename_i symbol _
    split_ifs
    · exact soundEntry_clearState e idx h i
    · split
      · exact soundEntry_clearState e idx h i
      · rename_i best hbest
        obtain ⟨pair, -, hquote⟩ := exists_pairQuote_of_bestPair hbest
        refine soundEntry_setEntry_sync e idx ⟨fun _ => ⟨nowMs, ?_⟩, ?_⟩ h i
        · exact usable_of_pairQuote hquote
        · exact ⟨rfl, rfl, rfl, rfl⟩

/-- A scan leaves every entry sound. -/
theorem soundEntry_fireEntryFromCache (scanMs : UInt64) (hflags : ∀ i, FlagsAgree e i)
    (h : ∀ i, SoundEntry (e.entryCache i)) (i : ℕ) :
    SoundEntry ((Engine.fireEntryFromCache std maxPositions e scanMs).1.entryCache i) := by
  rw [(fireEntryFromCache_spec std maxPositions e scanMs hflags).2.1 i]
  simp only [firedEntry]
  split_ifs
  · exact h i
  · exact soundEntry_fired (h i)
  · exact h i

/-- Flags, bits and entries as every run has them. -/
structure CacheInvariant (e : Engine) : Prop where
  flags : ∀ i, FlagsAgree e i
  entries : ∀ i, SoundEntry (e.entryCache i)

/-- The cache is empty at the start. -/
theorem cacheInvariant_initial : CacheInvariant .initial where
  flags := flagsAgree_initial
  entries := by
    intro i
    refine ⟨?_, ⟨rfl, rfl, rfl, rfl⟩⟩
    intro hqualified
    cases hqualified

/-- The invariant is about the cache only. -/
theorem CacheInvariant.congr {e e' : Engine} (h : CacheInvariant e) (hsame : SameCache e e') :
    CacheInvariant e' where
  flags := fun i => (h.flags i).congr hsame
  entries := fun i => by
    rw [hsame.entryCache]
    exact h.entries i

/-- The recomputation of an entry keeps the invariant. -/
theorem cacheInvariant_updateSymbolEntry (nowMs : UInt64) (h : CacheInvariant e) :
    CacheInvariant (e.updateSymbolEntry nowMs idx) where
  flags := flagsAgree_updateSymbolEntry e idx nowMs h.flags
  entries := soundEntry_updateSymbolEntry e idx nowMs h.entries

/-- A scan keeps the invariant. -/
theorem cacheInvariant_fireEntryFromCache (scanMs : UInt64) (h : CacheInvariant e) :
    CacheInvariant (Engine.fireEntryFromCache std maxPositions e scanMs).1 where
  flags := flagsAgree_fireEntryFromCache e std maxPositions scanMs h.flags
  entries := soundEntry_fireEntryFromCache std maxPositions e scanMs h.flags h.entries

/-- What precedes a scan keeps the invariant. -/
theorem cacheInvariant_beforeScan (clock : Engine.Clock) (ticker : Ticker)
    (h : CacheInvariant e) : CacheInvariant (beforeScan clock ticker e).1 :=
  beforeScan_invariant e (fun _ _ hsame he => he.congr hsame)
    (fun e nowMs idx he => cacheInvariant_updateSymbolEntry e idx nowMs he) clock ticker h

/-- Every engine operation keeps the invariant. -/
theorem cacheInvariant_step (op : Engine.Op) (h : CacheInvariant e) :
    CacheInvariant (e.step std maxPositions op).1 :=
  step_invariant e std maxPositions (fun _ _ hsame he => he.congr hsame)
    (fun e nowMs idx he => cacheInvariant_updateSymbolEntry e idx nowMs he)
    (fun e scanMs he => cacheInvariant_fireEntryFromCache std maxPositions e scanMs he) op h

/-! ## Emissions -/

/-- Both quotes of an entry are at most `MAX_QUOTE_AGE_MS` old. -/
def youngQuotes (entry : CachedEntryPremium) (nowMs : UInt64) : Bool :=
  Engine.quoteIsFreshWithLimit entry.koreanQuote nowMs TradingConfig.maxQuoteAgeMs &&
    Engine.quoteIsFreshWithLimit entry.foreignQuote nowMs TradingConfig.maxQuoteAgeMs

/-- The signal carries the prices of two quotes that are fresh and in step when it is
emitted. -/
structure EmittedFresh (em : Engine.Emission) : Prop where
  koreanAsk : em.signal.koreanAsk = em.entry.koreanQuote.ask
  koreanAskQty : em.signal.koreanAskQty = em.entry.koreanQuote.askQty
  foreignBid : em.signal.foreignBid = em.entry.foreignQuote.bid
  foreignBidQty : em.signal.foreignBidQty = em.entry.foreignQuote.bidQty
  age : youngQuotes em.entry em.emittedMs = true
  desync : Engine.timestampDiff em.entry.koreanQuote em.entry.foreignQuote ≤
    TradingConfig.maxQuoteDesyncMs

/-- An entry that a scan can signal: qualified, and not fired or with a partial position. -/
def eligible (e : Engine) (idx : ℕ) : Bool :=
  (e.entryCache idx).qualified &&
    (!(e.entryCache idx).signalFired || decide (e.positionState idx = .partialPosition))

/-- When a ticker update scans, no entry that the scan can signal has quotes that have gone
stale since the entry was recomputed. -/
def ScansInTime (r : Engine × List Engine.Emission) : Engine.Op → Prop
  | .tickerUpdate clock ticker =>
    (beforeScan clock ticker r.1).2 = true →
      (beforeScan clock ticker r.1).1.entrySuppressed = false →
      ∀ idx < (beforeScan clock ticker r.1).1.symbols.symbols.length,
        eligible (beforeScan clock ticker r.1).1 idx = true →
        youngQuotes ((beforeScan clock ticker r.1).1.entryCache idx) clock.scanMs = true
  | _ => True

/-- The timestamps of usable quotes are in step. -/
theorem desync_of_usable {nowMs : UInt64} {korean foreign : PriceData}
    (h : Engine.quotePairIsUsable nowMs korean foreign = true) :
    Engine.timestampDiff korean foreign ≤ TradingConfig.maxQuoteDesyncMs := by
  simp only [Engine.quotePairIsUsable] at h
  split_ifs at h with _ hdesync
  all_goals exact UInt64.not_lt.mp hdesync

/-- The signal of a selected entry is fresh exactly when the quotes of the entry have stayed
young. -/
theorem emittedFresh_iff {idx : ℕ} {scanMs : UInt64} {em : Engine.Emission}
    (h : CacheInvariant e) (hqualified : (e.entryCache idx).qualified = true)
    (hemit : scanEmission e.positionState scanMs e idx = some em) :
    EmittedFresh em ↔ youngQuotes (e.entryCache idx) scanMs = true := by
  obtain ⟨hchecked, hbuilt⟩ := h.entries idx
  obtain ⟨checkedMs, husable⟩ := hchecked hqualified
  obtain ⟨symbol, -, rfl⟩ := Option.map_eq_some_iff.mp hemit
  have hkorean : (firedEntry e.positionState e idx).koreanQuote =
      (e.entryCache idx).koreanQuote := by
    unfold firedEntry
    split_ifs <;> rfl
  have hforeign : (firedEntry e.positionState e idx).foreignQuote =
      (e.entryCache idx).foreignQuote := by
    unfold firedEntry
    split_ifs <;> rfl
  constructor
  · intro hfresh
    simpa [Engine.emitSignal, youngQuotes, hkorean, hforeign] using hfresh.age
  · intro hyoung
    constructor
    · simpa [Engine.emitSignal, hkorean] using hbuilt.koreanAsk
    · simpa [Engine.emitSignal, hkorean] using hbuilt.koreanAskQty
    · simpa [Engine.emitSignal, hforeign] using hbuilt.foreignBid
    · simpa [Engine.emitSignal, hforeign] using hbuilt.foreignBidQty
    · simpa [Engine.emitSignal, youngQuotes, hkorean, hforeign] using hyoung
    · simpa [Engine.emitSignal, hkorean, hforeign] using desync_of_usable husable

/-- A scan emits fresh signals only, exactly when every entry it selects has young quotes. -/
theorem scan_fresh_iff (scanMs : UInt64) (h : CacheInvariant e) :
    (∀ em ∈ (Engine.fireEntryFromCache std maxPositions e scanMs).2, EmittedFresh em) ↔
      ∀ idx ∈ scanIndices std maxPositions e, youngQuotes (e.entryCache idx) scanMs = true := by
  rw [(fireEntryFromCache_spec std maxPositions e scanMs h.flags).2.2]
  constructor
  · intro hfresh idx hidx
    have hfires := fires_of_mem_scanIndices std maxPositions e h.flags hidx
    obtain ⟨em, hemit⟩ : ∃ em, scanEmission e.positionState scanMs e idx = some em := by
      simp [scanEmission, hfires.monitored]
    exact (emittedFresh_iff e h hfires.qualified hemit).mp
      (hfresh em (List.mem_filterMap.mpr ⟨idx, hidx, hemit⟩))
  · intro hyoung em hem
    obtain ⟨idx, hidx, hemit⟩ := List.mem_filterMap.mp hem
    have hfires := fires_of_mem_scanIndices std maxPositions e h.flags hidx
    exact (emittedFresh_iff e h hfires.qualified hemit).mpr (hyoung idx hidx)

/-- A selected entry is one the scan can signal, and selecting needs an open gate. -/
theorem eligible_of_mem_scanIndices (h : CacheInvariant e) {idx : ℕ}
    (hidx : idx ∈ scanIndices std maxPositions e) :
    e.entrySuppressed = false ∧ idx < e.symbols.symbols.length ∧ eligible e idx = true := by
  have hfires := fires_of_mem_scanIndices std maxPositions e h.flags hidx
  refine ⟨?_, hfires.monitored, ?_⟩
  · by_contra hsuppressed
    rw [scanIndices, if_pos (Or.inr (Or.inl (by simpa using hsuppressed)))] at hidx
    cases hidx
  · simp only [eligible, hfires.qualified, Bool.true_and, Bool.or_eq_true, Bool.not_eq_true',
      decide_eq_true_eq]
    exact hfires.eligible.symm

/-- One operation: it emits fresh signals only if its scan is in time. -/
theorem emittedFresh_step (op : Engine.Op) (h : CacheInvariant e)
    (hintime : ScansInTime (e, []) op) :
    ∀ em ∈ (e.step std maxPositions op).2, EmittedFresh em := by
  cases op with
  | tickerUpdate clock ticker =>
    simp only [Engine.step, onTickerUpdate_eq]
    split_ifs with hscan
    · have hbefore := cacheInvariant_beforeScan e clock ticker h
      refine (scan_fresh_iff std maxPositions _ clock.scanMs hbefore).mpr ?_
      intro idx hidx
      obtain ⟨hactive, hlt, heligible⟩ :=
        eligible_of_mem_scanIndices std maxPositions _ hbefore hidx
      exact hintime hscan hactive idx hlt heligible
    · intro em hem
      cases hem
  | _ =>
    intro em hem
    cases hem

/-- In a run whose scans are in time, every signal is built from quotes that are fresh and in
step at the time of its emission. -/
theorem emissions_fresh (ops : List Engine.Op)
    (hrun : Run.Along ScansInTime (traceStep std maxPositions) (.initial, []) ops) :
    ∀ em ∈ (runTrace std maxPositions ops).2, EmittedFresh em := by
  have hinv := Run.invariant
    (fun r : Engine × List Engine.Emission =>
      CacheInvariant r.1 ∧ ∀ em ∈ r.2, EmittedFresh em)
    (fun r op hr hintime => by
      refine ⟨cacheInvariant_step std maxPositions r.1 op hr.1, ?_⟩
      intro em hem
      rcases List.mem_append.mp hem with hold | hnew
      · exact hr.2 em hold
      · refine emittedFresh_step std maxPositions r.1 op hr.1 ?_ em hnew
        cases op <;> exact hintime)
    ops (.initial, []) ⟨cacheInvariant_initial, by simp⟩ hrun
  exact hinv.2

/-! ## A signal in time and a stale one -/

/-- A Bithumb quote of a coin that Bybit bids 2 USDT for. -/
def koreanTicker (base : String) (ask : ℚ) (timestamp : UInt64) : Ticker where
  exchange := .bithumb
  symbol := .of base "KRW"
  timestamp := timestamp
  bid := ask - 5
  ask := ask
  last := ask
  bidQty := 80
  askQty := 80

def foreignTicker (base : String) (timestamp : UInt64) : Ticker where
  exchange := .bybit
  symbol := .of base "USDT"
  timestamp := timestamp
  bid := 2
  ask := 2005 / 1000
  last := 2
  bidQty := 80
  askQty := 80

def usdtTicker (timestamp : UInt64) : Ticker where
  exchange := .bithumb
  symbol := .of "USDT" "KRW"
  timestamp := timestamp
  bid := 1000
  ask := 1000
  last := 1000

/-- Free Bithumb-Bybit routes for the given coins. -/
def freeRoutes (bases : List String) : TransferSnapshot where
  fees := bases.map fun base => ((.bithumb, .bybit, base.toList), 0)
  routes := bases.map fun base => ((.bithumb, .bybit, base.toList), { available := true })

/-- An engine for two coins with the pair, the routes and the USDT/KRW rate. -/
def twoCoinSetup : List Engine.Op :=
  [.addExchangePair .bithumb .bybit, .addSymbol (.of "AAA" "KRW"), .addSymbol (.of "BBB" "KRW"),
    .publishTransfers (freeRoutes ["AAA", "BBB"]), .tickerUpdate ⟨1000, 1000⟩ (usdtTicker 1000)]

/-- AAA qualifies and is signalled at once. -/
def timelyScan : List Engine.Op :=
  twoCoinSetup ++
    [.tickerUpdate ⟨1100, 1100⟩ (foreignTicker "AAA" 1100),
      .tickerUpdate ⟨1100, 1101⟩ (koreanTicker "AAA" 1950 1100)]

/-- The general result for a run with one timely scan. -/
theorem emissions_fresh_timelyScan :
    (runTrace .insertion .initial timelyScan).2.length = 1 ∧
      ∀ em ∈ (runTrace .insertion .initial timelyScan).2, EmittedFresh em := by
  refine ⟨by decide +kernel, emissions_fresh .insertion .initial timelyScan ?_⟩
  refine ⟨trivial, trivial, trivial, trivial, ?_, ?_, ?_, trivial⟩ <;>
    (simp only [ScansInTime]; decide +kernel)

/-- AAA qualifies while entry is suppressed; ten seconds after the suppression ends a tick of
BBB starts a scan. -/
def staleScan : List Engine.Op :=
  twoCoinSetup ++
    [.setEntrySuppressed true, .tickerUpdate ⟨1100, 1100⟩ (foreignTicker "AAA" 1100),
      .tickerUpdate ⟨1100, 1100⟩ (koreanTicker "AAA" 1950 1100), .setEntrySuppressed false,
      .tickerUpdate ⟨11100, 11100⟩ (koreanTicker "BBB" 1950 11100)]

/-- The signal of AAA is emitted from quotes ten seconds old. -/
theorem emission_of_stale_quotes :
    ¬ ∀ (std : StdSort) (maxPositions : MaxPositions) (ops : List Engine.Op),
      ∀ em ∈ (runTrace std maxPositions ops).2, EmittedFresh em := by
  intro h
  have hall : (runTrace .insertion .initial staleScan).2.all
      (fun em => youngQuotes em.entry em.emittedMs) = true :=
    List.all_eq_true.mpr fun em hem => (h .insertion .initial staleScan em hem).age
  have hstale : (runTrace .insertion .initial staleScan).2.all
      (fun em => youngQuotes em.entry em.emittedMs) = false := by decide +kernel
  rw [hstale] at hall
  cases hall

end SpotRelay.Analysis
