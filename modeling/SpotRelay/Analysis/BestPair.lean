import SpotRelay.Analysis.EntryFees
import SpotRelay.Analysis.MonitorAgreement

/-!
# The pair an entry is computed from

`update_symbol_entry` keeps the venues, the two prices and the rate of the best pair so far, asks for
its fee once more after the loop and stores fifteen fields.  All of them belong to one pair, the
first of the most profitable ones.

* **the search** finds the first of the eligible pairs of the highest rank, or none where no pair is
  eligible (`firstBest_of_bestPair`, `bestPair_eq_none_iff`).
* **the stores** of an entry are those of the pair that was found (`storesPair_storeQualification`),
  and a symbol without a pair is cleared (`cleared_clearState`).
-/

set_option autoImplicit false

namespace SpotRelay.Analysis

open SpotRelay.Model

open Engine (PairQuote)

/-! ## Pairs -/

/-- Net profit first, net edge second. -/
def pairRank (e : Engine) (symbol : SymbolId) (pair : ExchangePairConfig) : ℚ ×ₗ ℚ :=
  toLex ((metricsOfPair e symbol pair).netProfitKrw, (metricsOfPair e symbol pair).netEdgePct)

/-- The first of the eligible pairs that no other one outranks. -/
structure FirstBest (e : Engine) (nowMs : UInt64) (symbol : SymbolId) (pair : ExchangePairConfig) :
    Prop where
  eligible : Eligible e nowMs symbol pair
  first : ∃ before after, e.exchangePairs = before ++ pair :: after ∧
    (∀ other ∈ before, Eligible e nowMs symbol other →
      pairRank e symbol other < pairRank e symbol pair) ∧
    ∀ other ∈ after, Eligible e nowMs symbol other →
      pairRank e symbol other ≤ pairRank e symbol pair

/-- Every stored field belongs to the pair. -/
structure StoresPair (e : Engine) (symbol : SymbolId) (pair : ExchangePairConfig)
    (entry : CachedEntryPremium) : Prop where
  korean : entry.bestKoreanExchange = pair.korean
  foreign : entry.bestForeignExchange = pair.foreign
  premium : entry.entryPremium = Engine.calculateEntryPremium
    (e.priceCache.getPrice pair.korean symbol).ask
    (e.priceCache.getPrice pair.foreign symbol.foreign).bid (e.priceCache.getUsdtKrw pair.korean)
  koreanAsk : entry.koreanAsk = (e.priceCache.getPrice pair.korean symbol).ask
  koreanAskQty : entry.koreanAskQty = (e.priceCache.getPrice pair.korean symbol).askQty
  foreignBid : entry.foreignBid = (e.priceCache.getPrice pair.foreign symbol.foreign).bid
  foreignBidQty : entry.foreignBidQty = (e.priceCache.getPrice pair.foreign symbol.foreign).bidQty
  usdtRate : entry.usdtRate = e.priceCache.getUsdtKrw pair.korean
  matchQty : entry.matchQty = (metricsOfPair e symbol pair).matchQty
  targetCoinQty : entry.targetCoinQty = (metricsOfPair e symbol pair).targetCoinQty
  maxTradable : entry.maxTradableUsdtAtBest = (metricsOfPair e symbol pair).maxTradableUsdtAtBest
  grossEdge : entry.grossEdgePct = (metricsOfPair e symbol pair).grossEdgePct
  netEdge : entry.netEdgePct = (metricsOfPair e symbol pair).netEdgePct
  netProfit : entry.netProfitKrw = (metricsOfPair e symbol pair).netProfitKrw
  bothCanFill : entry.bothCanFillTarget = (metricsOfPair e symbol pair).bothCanFillTarget

/-- The gate on a pair. -/
def pairPassesGate (e : Engine) (symbol : SymbolId) (pair : ExchangePairConfig) : Bool :=
  TradingConfig.entryGatePasses (metricsOfPair e symbol pair).bothCanFillTarget
    (metricsOfPair e symbol pair).matchQty (metricsOfPair e symbol pair).netEdgePct
    (metricsOfPair e symbol pair).netProfitKrw

/-- The state of a symbol is cleared: both flags and both bits are off, and what was stored stays.
-/
structure Cleared (e e' : Engine) (idx : ℕ) : Prop where
  entry : e'.entryCache idx = { e.entryCache idx with qualified := false, signalFired := false }
  candidate : e'.candidateBits.test idx = false
  fired : e'.signalFiredBits.test idx = false

/-! ## Quotes of eligible pairs -/

/-- The rank of a pair's quote is the pair's rank. -/
@[simp] theorem rank_quoteOf (e : Engine) (symbol : SymbolId) (pair : ExchangePairConfig) :
    rank (quoteOf e symbol pair) = pairRank e symbol pair :=
  rfl

variable {e : Engine} {nowMs : UInt64} {symbol : SymbolId}

/-- Nothing is quoted exactly where no pair is eligible. -/
theorem pairQuotes_eq_nil_iff :
    e.exchangePairs.filterMap (e.pairQuote nowMs symbol) = [] ↔
      ∀ pair ∈ e.exchangePairs, ¬ Eligible e nowMs symbol pair := by
  rw [List.filterMap_eq_nil_iff]
  refine forall₂_congr fun pair _ => ?_
  rw [Option.eq_none_iff_forall_ne_some]
  constructor
  · intro h heligible
    exact h _ (pairQuote_eq_some_iff.mpr ⟨heligible, rfl⟩)
  · intro h quote hquote
    exact h (pairQuote_eq_some_iff.mp hquote).1

/-! ## The first of the best -/

/-- What `argmax` finds is ahead of what it leaves behind, and not behind what follows. -/
theorem exists_split_of_mem_argmax {α β : Type} [LinearOrder β] [DecidableEq α] {f : α → β}
    {xs : List α} {best : α} (h : best ∈ xs.argmax f) :
    ∃ before after, xs = before ++ best :: after ∧ (∀ x ∈ before, f x < f best) ∧
      ∀ x ∈ after, f x ≤ f best := by
  obtain ⟨hmem, hmax, hfirst⟩ := List.mem_argmax_iff.mp h
  obtain ⟨before, after, rfl, hfresh⟩ := List.eq_append_cons_of_mem hmem
  refine ⟨before, after, rfl, ?_, ?_⟩
  · intro x hx
    by_contra hle
    have hidx := hfirst x (by simp [hx]) (not_lt.mp hle)
    rw [List.idxOf_append_of_notMem hfresh, List.idxOf_append_of_mem hx, List.idxOf_cons_self]
      at hidx
    have hlt := List.idxOf_lt_length_of_mem hx
    omega
  · intro x hx
    exact hmax x (by simp [hx])

/-- The profits and the edges of eligible pairs are above what the loop starts from. -/
def AboveSentinel (e : Engine) (nowMs : UInt64) (symbol : SymbolId) : Prop :=
  ∀ pair ∈ e.exchangePairs, Eligible e nowMs symbol pair →
    -10 ^ 18 < (metricsOfPair e symbol pair).netProfitKrw ∧
      -10 ^ 18 < (metricsOfPair e symbol pair).netEdgePct

/-- Then the loop takes the first of the best pairs. -/
theorem bestPair_eq_argmax (habove : AboveSentinel e nowMs symbol) :
    e.bestPair nowMs symbol = (e.exchangePairs.filterMap (e.pairQuote nowMs symbol)).argmax rank := by
  rw [Engine.bestPair, foldl_betterPair, mostProfitable, List.filter_eq_self.mpr]
  intro quote hquote
  obtain ⟨pair, hpair, hsome⟩ := List.mem_filterMap.mp hquote
  obtain ⟨heligible, rfl⟩ := pairQuote_eq_some_iff.mp hsome
  rw [decide_eq_true_eq, lowestRank, lt_rank_iff]
  exact Or.inl (habove pair hpair heligible).1

/-- No best pair is found exactly where no pair is eligible. -/
theorem bestPair_eq_none_iff (habove : AboveSentinel e nowMs symbol) :
    e.bestPair nowMs symbol = none ↔ ∀ pair ∈ e.exchangePairs, ¬ Eligible e nowMs symbol pair := by
  rw [bestPair_eq_argmax habove, List.argmax_eq_none, pairQuotes_eq_nil_iff]

/-- The best pair found is the first of the eligible pairs with the highest rank. -/
theorem firstBest_of_bestPair (habove : AboveSentinel e nowMs symbol) {best : PairQuote}
    (h : best ∈ e.bestPair nowMs symbol) :
    ∃ pair, FirstBest e nowMs symbol pair ∧ best = quoteOf e symbol pair := by
  rw [bestPair_eq_argmax habove] at h
  obtain ⟨before, after, hsplit, hbefore, hafter⟩ := exists_split_of_mem_argmax h
  -- the pairs behind the three parts of the list of quotes
  obtain ⟨pairs, rest, hpairs, hleft, hright⟩ := List.filterMap_eq_append_iff.mp hsplit
  obtain ⟨skipped, pair, others, hrest, hskipped, hquote, hothers⟩ :=
    List.filterMap_eq_cons_iff.mp hright
  obtain ⟨heligible, rfl⟩ := pairQuote_eq_some_iff.mp hquote
  refine ⟨pair, ⟨heligible, pairs ++ skipped, others, ?_, ?_, ?_⟩, rfl⟩
  · rw [hpairs, hrest, List.append_assoc]
  · intro other hother hquoted
    have hsome := pairQuote_eq_some_iff.mpr ⟨hquoted, rfl⟩
    rcases List.mem_append.mp hother with hmem | hmem
    · apply hbefore (quoteOf e symbol other)
      rw [← hleft]
      exact List.mem_filterMap.mpr ⟨other, hmem, hsome⟩
    · rw [hskipped other hmem] at hsome
      cases hsome
  · intro other hother hquoted
    apply hafter (quoteOf e symbol other)
    rw [← hothers]
    exact List.mem_filterMap.mpr ⟨other, hother, pairQuote_eq_some_iff.mpr ⟨hquoted, rfl⟩⟩

/-- No eligible pair outranks it. -/
theorem FirstBest.rank_le {pair : ExchangePairConfig} (h : FirstBest e nowMs symbol pair)
    {other : ExchangePairConfig} (hother : other ∈ e.exchangePairs)
    (heligible : Eligible e nowMs symbol other) :
    pairRank e symbol other ≤ pairRank e symbol pair := by
  obtain ⟨before, after, hpairs, hbefore, hafter⟩ := h.first
  rw [hpairs, List.mem_append, List.mem_cons] at hother
  rcases hother with hmem | rfl | hmem
  · exact (hbefore other hmem heligible).le
  · exact le_rfl
  · exact hafter other hmem heligible

/-- Where the best pair misses the profit floor, every eligible pair does. -/
theorem FirstBest.belowFloor {pair : ExchangePairConfig} (h : FirstBest e nowMs symbol pair)
    (hfloor : TradingConfig.meetsEntryProfitFloor (metricsOfPair e symbol pair).netProfitKrw = false)
    {other : ExchangePairConfig} (hother : other ∈ e.exchangePairs)
    (heligible : Eligible e nowMs symbol other) :
    TradingConfig.meetsEntryProfitFloor (metricsOfPair e symbol other).netProfitKrw = false := by
  have hrank : (metricsOfPair e symbol other).netProfitKrw ≤
      (metricsOfPair e symbol pair).netProfitKrw :=
    (Prod.Lex.monotone_fst_ofLex (h.rank_le hother heligible))
  simp only [TradingConfig.meetsEntryProfitFloor, decide_eq_false_iff_not, not_le] at hfloor ⊢
  exact hrank.trans_lt hfloor

/-! ## The stores -/

/-- `clear_state` clears the state of a cached index. -/
theorem cleared_clearState {idx : ℕ} (hidx : idx < maxCachedSymbols) :
    Cleared e (e.clearState idx) idx := by
  have hlt : ¬ maxCachedSymbols ≤ idx := Nat.not_le_of_lt hidx
  refine ⟨?_, ?_, ?_⟩
  · simp only [Engine.clearState, entryCache_sync]
    split_ifs with hset
    · simp [Engine.setEntry]
    · simp only [Bool.or_eq_true, not_or, Bool.not_eq_true] at hset
      generalize e.entryCache idx = entry at hset
      obtain ⟨hqualified, hfired⟩ := hset
      cases entry
      cases hqualified
      cases hfired
      rfl
  · simp only [Engine.clearState, Engine.syncEntryStateBits, hlt, if_false]
    rw [AtomicBitset.test_set _ _ _ _ hidx, if_pos rfl]
    rfl
  · simp only [Engine.clearState, Engine.syncEntryStateBits, hlt, if_false]
    rw [AtomicBitset.test_set _ _ _ _ hidx, if_pos rfl]

/-- A stored qualification holds the pair's own quotes and metrics. -/
theorem storesPair_storeQualification (idx : ℕ) (pair : ExchangePairConfig) :
    StoresPair e symbol pair
      ((e.storeQualification idx (quoteOf e symbol pair)).entryCache idx) := by
  simp only [Engine.storeQualification, entryCache_sync, Engine.setEntry, if_pos]
  constructor <;> rfl

/-- A stored qualification is qualified exactly where the pair passes the gate. -/
theorem qualified_storeQualification (idx : ℕ) (pair : ExchangePairConfig) :
    ((e.storeQualification idx (quoteOf e symbol pair)).entryCache idx).qualified =
      pairPassesGate e symbol pair := by
  simp only [Engine.storeQualification, entryCache_sync, Engine.setEntry, if_pos]
  rfl

/-- An evaluation that nobody interferes with clears the symbol where no pair is eligible.
Otherwise it stores the fields of the first of the best eligible pairs and the verdict of the gate
on it; and where that pair misses the profit floor, every eligible pair does. -/
theorem entry_of_first_best (e : Engine) (nowMs : UInt64) (idx : ℕ) (symbol : SymbolId)
    (hget : e.symbols.symbols[idx]? = some symbol) (habove : AboveSentinel e nowMs symbol) :
    Relation.ReflTransGen (Proceeds nowMs) (e.callUpdateSymbolEntry idx)
      (e.updateSymbolEntry nowMs idx, .idle) ∧
    ((∀ pair ∈ e.exchangePairs, ¬ Eligible e nowMs symbol pair) ∧
        Cleared e (e.updateSymbolEntry nowMs idx) idx ∨
      ∃ pair, FirstBest e nowMs symbol pair ∧
        StoresPair e symbol pair ((e.updateSymbolEntry nowMs idx).entryCache idx) ∧
        ((e.updateSymbolEntry nowMs idx).entryCache idx).qualified = pairPassesGate e symbol pair ∧
        (TradingConfig.meetsEntryProfitFloor (metricsOfPair e symbol pair).netProfitKrw = false →
          ∀ other ∈ e.exchangePairs, Eligible e nowMs symbol other →
            TradingConfig.meetsEntryProfitFloor (metricsOfPair e symbol other).netProfitKrw = false)) := by
  refine ⟨proceeds_updateSymbolEntry idx, ?_⟩
  have hidx : idx < maxCachedSymbols := lt_maxCachedSymbols e hget
  simp only [Engine.updateSymbolEntry, hget]
  split_ifs with hpairs
  · left
    refine ⟨?_, cleared_clearState hidx⟩
    simp [hpairs]
  · cases hbest : e.bestPair nowMs symbol with
    | none => exact Or.inl ⟨(bestPair_eq_none_iff habove).mp hbest, cleared_clearState hidx⟩
    | some best =>
      right
      obtain ⟨pair, hfirst, rfl⟩ := firstBest_of_bestPair habove hbest
      refine ⟨pair, hfirst, storesPair_storeQualification idx pair,
        qualified_storeQualification idx pair, ?_⟩
      intro hfloor other hother heligible
      exact hfirst.belowFloor hfloor hother heligible

/-- Two Korean venues quote AAA, and Upbit asks less. -/
def twoPairs : Engine :=
  Engine.run .insertion .initial .initial
    [.addExchangePair .bithumb .bybit, .addExchangePair .upbit .bybit,
      .addSymbol (.of "AAA" "KRW"),
      .publishTransfers
        { fees := [((.bithumb, .bybit, "AAA".toList), 0), ((.upbit, .bybit, "AAA".toList), 0)]
          routes := [((.bithumb, .bybit, "AAA".toList), { available := true }),
            ((.upbit, .bybit, "AAA".toList), { available := true })] },
      .usdtUpdate .bithumb 1000, .usdtUpdate .upbit 1000,
      .tickerUpdate ⟨1100, 1100⟩ (foreignTicker "AAA" 1100),
      .tickerUpdate ⟨1100, 1100⟩ (koreanTicker "AAA" 1950 1100),
      .tickerUpdate ⟨1100, 1100⟩ { koreanTicker "AAA" 1940 1100 with exchange := .upbit }]

/-- Of two eligible pairs the entry stores the cheaper Korean ask's. -/
theorem entry_of_first_best_twoPairs :
    ((twoPairs.updateSymbolEntry 1100 0).entryCache 0).bestKoreanExchange = .upbit ∧
      ((twoPairs.updateSymbolEntry 1100 0).entryCache 0).koreanAsk = 1940 ∧
      ∃ pair, FirstBest twoPairs 1100 (.of "AAA" "KRW") pair ∧
        StoresPair twoPairs (.of "AAA" "KRW") pair
          ((twoPairs.updateSymbolEntry 1100 0).entryCache 0) := by
  refine ⟨by decide +kernel, by decide +kernel, ?_⟩
  have habove : AboveSentinel twoPairs 1100 (.of "AAA" "KRW") := by
    have hprofits : ∀ pair ∈ twoPairs.exchangePairs,
        -10 ^ 18 < (metricsOfPair twoPairs (.of "AAA" "KRW") pair).netProfitKrw ∧
          -10 ^ 18 < (metricsOfPair twoPairs (.of "AAA" "KRW") pair).netEdgePct := by
      decide +kernel
    exact fun pair hpair _ => hprofits pair hpair
  have hupbit : Eligible twoPairs 1100 (.of "AAA" "KRW") ⟨.upbit, .bybit, true⟩ := by
    constructor <;> decide +kernel
  obtain ⟨-, ⟨hnone, -⟩ | ⟨pair, hfirst, hstores, -⟩⟩ :=
    entry_of_first_best twoPairs 1100 0 (.of "AAA" "KRW") (by decide +kernel) habove
  · exact absurd hupbit (hnone _ (by decide +kernel))
  · exact ⟨pair, hfirst, hstores⟩

end SpotRelay.Analysis
