import Mathlib.Data.List.MinMax
import Mathlib.Data.Prod.Lex
import SpotRelay.Analysis.BatchPremiums
import SpotRelay.Analysis.SignalEpisodes

/-!
# The monitor and the trader

Both take the most profitable pair of a symbol, but the trader leaves out the disabled pairs and the
stale quotes before it compares, and the monitor checks the quotes of its winner only and never asks
whether a pair is enabled.

* **one winner**: where one pair is the most profitable of all pairs and of the open ones, the
  monitor says what the trader decides (`monitorAgrees_of_sameWinner`).
* **and only there**: an agreement on a signal makes the winners one (`signalled_row`).
-/

set_option autoImplicit false

namespace SpotRelay.Analysis

open SpotRelay.Model

open SimdPremiumCalculator (Target calculateScalar)

/-! ## The most profitable pair -/

/-- Net profit first, net edge second. -/
def rank (quote : Engine.PairQuote) : ℚ ×ₗ ℚ :=
  toLex (quote.metrics.netProfitKrw, quote.metrics.netEdgePct)

/-- What `best_net_profit` and `best_net_edge` start from. -/
def lowestRank : ℚ ×ₗ ℚ := toLex (-10 ^ 18, -10 ^ 18)

/-- The first of the most profitable quotes; one below the starting values is never taken. -/
def mostProfitable (quotes : List Engine.PairQuote) : Option Engine.PairQuote :=
  (quotes.filter fun quote => lowestRank < rank quote).argmax rank

/-- The comparison of the loop, with the best values so far. -/
theorem lt_rank_iff (profit edge : ℚ) (quote : Engine.PairQuote) :
    toLex (profit, edge) < rank quote ↔ profit < quote.metrics.netProfitKrw ∨
      quote.metrics.netProfitKrw = profit ∧ edge < quote.metrics.netEdgePct := by
  rw [rank, Prod.Lex.toLex_lt_toLex, eq_comm]

/-- The first pair is kept if it ranks above the start of the search. -/
theorem betterPair_none (quote : Engine.PairQuote) :
    Engine.betterPair none quote = if lowestRank < rank quote then some quote else none := by
  simp only [lowestRank, lt_rank_iff]
  rfl

/-- A later pair is kept if it ranks above the best so far. -/
theorem betterPair_some (best quote : Engine.PairQuote) :
    Engine.betterPair (some best) quote =
      if rank best < rank quote then some quote else some best := by
  rw [rank]
  simp only [lt_rank_iff]
  rfl

/-- The most profitable pair ranks above the start of the search. -/
theorem lowestRank_lt {quotes : List Engine.PairQuote} {best : Engine.PairQuote}
    (h : best ∈ mostProfitable quotes) : lowestRank < rank best := by
  simpa using (List.mem_filter.mp (List.argmax_mem h)).2

/-- The loop over the pairs finds it. -/
theorem foldl_betterPair (quotes : List Engine.PairQuote) :
    quotes.foldl Engine.betterPair none = mostProfitable quotes := by
  induction quotes using List.reverseRecOn with
  | nil => rfl
  | append_singleton quotes quote ih =>
    rw [List.foldl_append, ih, List.foldl_cons, List.foldl_nil]
    by_cases hlow : lowestRank < rank quote
    · have hsplit : mostProfitable (quotes ++ [quote]) =
          Option.casesOn (mostProfitable quotes) (some quote) fun best =>
            if rank best < rank quote then some quote else some best := by
        rw [mostProfitable, List.filter_append, List.filter_singleton, decide_eq_true hlow,
          cond_true, List.argmax_concat]
        rfl
      rw [hsplit]
      cases mostProfitable quotes with
      | none => rw [betterPair_none, if_pos hlow]
      | some best => rw [betterPair_some]
    · have hsame : mostProfitable (quotes ++ [quote]) = mostProfitable quotes := by
        rw [mostProfitable, List.filter_append, List.filter_singleton, decide_eq_false hlow,
          cond_false, List.append_nil]
        rfl
      rw [hsame]
      cases hbest : mostProfitable quotes with
      | none => rw [betterPair_none, if_neg hlow]
      | some best =>
        rw [betterPair_some, if_neg]
        exact fun hlt => hlow ((lowestRank_lt hbest).trans hlt)

/-- Where some quotes have a most profitable one, more quotes do too. -/
theorem exists_mostProfitable_of_subset {few many : List Engine.PairQuote}
    (hsub : few ⊆ many) {best : Engine.PairQuote} (h : best ∈ mostProfitable few) :
    ∃ best', best' ∈ mostProfitable many := by
  cases hmany : mostProfitable many with
  | some best' => exact ⟨best', rfl⟩
  | none =>
    obtain ⟨hmem, hlow⟩ := List.mem_filter.mp (List.argmax_mem h)
    have hempty := List.argmax_eq_none.mp hmany
    exact absurd (hempty ▸ List.mem_filter.mpr ⟨hsub hmem, hlow⟩) List.not_mem_nil

/-! ## The quotes of both -/

variable (e : Engine) (nowMs : UInt64) (symbol : SymbolId)

/-- The pairs of a symbol with an open route, both quotes and a rate. -/
def pricedQuotes : List Engine.PairQuote := e.exchangePairs.filterMap (e.premiumQuote symbol)

/-- Those of an enabled pair whose quotes are usable now. -/
def openQuotes : List Engine.PairQuote :=
  ((e.exchangePairs.filter fun pair => pair.entryEnabled).filterMap (e.premiumQuote symbol)).filter
    fun quote => Engine.quotePairIsUsable nowMs quote.koreanPrice quote.foreignPrice

/-- The monitor shows the most profitable of the priced pairs. -/
theorem bestPremiumPair_eq : e.bestPremiumPair symbol = mostProfitable (pricedQuotes e symbol) :=
  foldl_betterPair _

/-- The trader reads what the monitor reads and asks two questions more. -/
theorem pairQuote_eq (pair : ExchangePairConfig) :
    e.pairQuote nowMs symbol pair =
      if pair.entryEnabled then
        (e.premiumQuote symbol pair).filter fun quote =>
          Engine.quotePairIsUsable nowMs quote.koreanPrice quote.foreignPrice
      else none := by
  simp only [Engine.pairQuote, Engine.premiumQuote]
  cases pair.entryEnabled with
  | false => rfl
  | true =>
    simp only [Bool.true_eq_false, if_false, if_true]
    by_cases hroute : e.priceCache.isTransferRouteAvailable (pair.korean, pair.foreign, symbol.base)
      = false
    · rw [if_pos hroute, if_pos hroute, Option.filter_none]
    rw [if_neg hroute, if_neg hroute]
    by_cases hkorean : (e.priceCache.getPrice pair.korean symbol).valid = false ∨
      (e.priceCache.getPrice pair.korean symbol).ask ≤ 0
    · rw [if_pos hkorean, if_pos hkorean, Option.filter_none]
    rw [if_neg hkorean, if_neg hkorean]
    by_cases hforeign : (e.priceCache.getPrice pair.foreign symbol.foreign).valid = false ∨
      (e.priceCache.getPrice pair.foreign symbol.foreign).bid ≤ 0
    · rw [if_pos hforeign, if_pos hforeign, Option.filter_none]
    rw [if_neg hforeign, if_neg hforeign]
    by_cases hrate : e.priceCache.getUsdtKrw pair.korean ≤ 0
    · rw [if_pos hrate, Option.filter_none, ite_self]
    rw [if_neg hrate, Option.filter_some]
    cases Engine.quotePairIsUsable nowMs (e.priceCache.getPrice pair.korean symbol)
      (e.priceCache.getPrice pair.foreign symbol.foreign) <;> rfl

/-- The engine stores the most profitable of the open pairs. -/
theorem bestPair_eq : e.bestPair nowMs symbol = mostProfitable (openQuotes e nowMs symbol) := by
  rw [Engine.bestPair, foldl_betterPair, openQuotes]
  congr 1
  induction e.exchangePairs with
  | nil => rfl
  | cons pair pairs ih =>
    rw [List.filterMap_cons, pairQuote_eq, ih, List.filter_cons]
    by_cases henabled : pair.entryEnabled = true
    · rw [if_pos henabled, if_pos henabled, List.filterMap_cons]
      cases e.premiumQuote symbol pair with
      | none => rfl
      | some quote =>
        rw [Option.filter_some, List.filter_cons]
        split_ifs <;> rfl
    · rw [if_neg henabled, if_neg henabled]

/-- An open pair is priced. -/
theorem openQuotes_subset : openQuotes e nowMs symbol ⊆ pricedQuotes e symbol := by
  intro quote hquote
  obtain ⟨hmem, -⟩ := List.mem_filter.mp hquote
  obtain ⟨pair, hpair, hsome⟩ := List.mem_filterMap.mp hmem
  exact List.mem_filterMap.mpr ⟨pair, (List.mem_filter.mp hpair).1, hsome⟩

/-- The two venues of a pair. -/
def venues (quote : Engine.PairQuote) : Exchange × Exchange := (quote.korean, quote.foreign)

variable {e symbol}

/-- The venues say which quotes, which rate and which metrics. -/
theorem premiumQuote_congr {pair pair' : ExchangePairConfig} {quote quote' : Engine.PairQuote}
    (h : e.premiumQuote symbol pair = some quote) (h' : e.premiumQuote symbol pair' = some quote')
    (hvenues : venues quote = venues quote') : quote = quote' := by
  obtain ⟨-, -, -, rfl⟩ := premiumQuote_eq_some h
  obtain ⟨-, -, -, rfl⟩ := premiumQuote_eq_some h'
  obtain ⟨hkorean, hforeign⟩ : pair.korean = pair'.korean ∧ pair.foreign = pair'.foreign :=
    Prod.mk.inj hvenues
  rw [quoteOf, quoteOf, metricsOfPair, metricsOfPair, hkorean, hforeign]

/-- Priced pairs with the same venues are the same. -/
theorem eq_of_venues {quote quote' : Engine.PairQuote} (h : quote ∈ pricedQuotes e symbol)
    (h' : quote' ∈ pricedQuotes e symbol) (hvenues : venues quote = venues quote') :
    quote = quote' := by
  obtain ⟨pair, -, hquote⟩ := List.mem_filterMap.mp h
  obtain ⟨pair', -, hquote'⟩ := List.mem_filterMap.mp h'
  exact premiumQuote_congr hquote hquote' hvenues

/-- The most profitable pair is one of them. -/
theorem mem_of_mostProfitable {quotes : List Engine.PairQuote} {best : Engine.PairQuote}
    (h : best ∈ mostProfitable quotes) : best ∈ quotes :=
  (List.mem_filter.mp (List.argmax_mem h)).1

/-! ## What the trader stores -/

/-- The entry holds the verdict on the best pair, and its venues, profit and edge. -/
structure Decided (best : Option Engine.PairQuote) (entry : CachedEntryPremium) : Prop where
  qualified : entry.qualified = best.any Engine.PairQuote.qualifies
  venues : ∀ quote ∈ best, (entry.bestKoreanExchange, entry.bestForeignExchange) = venues quote
  netProfitKrw : ∀ quote ∈ best, entry.netProfitKrw = quote.metrics.netProfitKrw
  netEdgePct : ∀ quote ∈ best, entry.netEdgePct = quote.metrics.netEdgePct

variable (e)

/-- A cleared entry has decided on no pair. -/
theorem decided_clearState (idx : ℕ) : Decided none ((e.clearState idx).entryCache idx) := by
  refine ⟨?_, by simp, by simp, by simp⟩
  simp only [Engine.clearState, entryCache_sync]
  split_ifs with hset
  · simp [Engine.setEntry]
  · simp only [Bool.or_eq_true, not_or, Bool.not_eq_true] at hset
    exact hset.1

/-- A stored entry has decided on its pair. -/
theorem decided_storeQualification (idx : ℕ) (best : Engine.PairQuote) :
    Decided (some best) ((e.storeQualification idx best).entryCache idx) := by
  simp only [Engine.storeQualification, entryCache_sync, Engine.setEntry, if_pos]
  constructor
  · rfl
  all_goals
    rintro quote ⟨⟩
    rfl

/-- A recomputed entry has decided on the best pair. -/
theorem decided_updateSymbolEntry {idx : ℕ} (hget : e.symbols.symbols[idx]? = some symbol) :
    Decided (e.bestPair nowMs symbol) ((e.updateSymbolEntry nowMs idx).entryCache idx) := by
  simp only [Engine.updateSymbolEntry, hget]
  split_ifs with hpairs
  · have hnone : e.bestPair nowMs symbol = none := by
      rw [Engine.bestPair, hpairs]
      rfl
    rw [hnone]
    exact decided_clearState e idx
  · cases e.bestPair nowMs symbol with
    | none => exact decided_clearState e idx
    | some best => exact decided_storeQualification e idx best

/-- Recomputing several symbols decides each of them. -/
theorem decided_foldl (idxs : List ℕ) {i : ℕ} (hget : e.symbols.symbols[i]? = some symbol)
    (h : i ∈ idxs ∨ Decided (e.bestPair nowMs symbol) (e.entryCache i)) :
    Decided (e.bestPair nowMs symbol)
      ((idxs.foldl (fun e idx => e.updateSymbolEntry nowMs idx) e).entryCache i) := by
  induction idxs generalizing e with
  | nil => exact h.resolve_left List.not_mem_nil
  | cons idx idxs ih =>
    have hframe := onlyCache_updateSymbolEntry e idx nowMs
    rw [← bestPair_congr hframe.exchangePairs hframe.priceCache]
    refine ih (e.updateSymbolEntry nowMs idx) (by rw [hframe.symbols]; exact hget) ?_
    rw [bestPair_congr hframe.exchangePairs hframe.priceCache]
    by_cases hi : i = idx
    · subst hi
      exact .inr (decided_updateSymbolEntry e nowMs hget)
    · rw [entryCache_updateSymbolEntry_of_ne e nowMs hi]
      refine h.imp_left fun hmem => ?_
      exact (List.mem_cons.mp hmem).resolve_left hi

/-- All recomputed entries have decided on their most profitable open pair. -/
theorem decided_updateAllEntries {idx : ℕ} (hget : e.symbols.symbols[idx]? = some symbol) :
    Decided (mostProfitable (openQuotes e nowMs symbol))
      ((e.updateAllEntries nowMs).entryCache idx) := by
  rw [← bestPair_eq]
  refine decided_foldl e nowMs _ hget (.inl ?_)
  exact List.mem_range.mpr (List.getElem?_eq_some_iff.mp hget).1

/-! ## Agreement -/

/-- The quotes of the pair are usable and it passes the entry gate. -/
def signalled (quote : Engine.PairQuote) : Bool :=
  Engine.quotePairIsUsable nowMs quote.koreanPrice quote.foreignPrice && quote.qualifies

/-- The row names the venues, the profit and the edge of the cached entry. -/
structure SameChoice (info : PremiumInfo) (entry : CachedEntryPremium) : Prop where
  korean : info.bestKoreanExchange = entry.bestKoreanExchange
  foreign : info.bestForeignExchange = entry.bestForeignExchange
  netProfitKrw : info.netProfitKrw = entry.netProfitKrw
  netEdgePct : info.netEdgePct = entry.netEdgePct

variable (target : Target) (symbol)

/-- After a recomputation of every symbol the monitor signals this one exactly if its cached entry
is qualified, and then for the cached pair. -/
structure MonitorAgrees (idx : ℕ) : Prop where
  signal : (∃ info ∈ (e.updateAllEntries nowMs).getAllPremiums target nowMs,
      info.symbol = symbol ∧ info.entrySignal = true) ↔
    ((e.updateAllEntries nowMs).entryCache idx).qualified = true
  choice : ∀ info ∈ (e.updateAllEntries nowMs).getAllPremiums target nowMs,
    info.symbol = symbol → info.entrySignal = true →
      SameChoice info ((e.updateAllEntries nowMs).entryCache idx)

/-- The most profitable pair of all is on the venues of the most profitable enabled pair with usable
quotes, or neither of the two would be signalled. -/
def SameWinner (best : Engine.PairQuote) : Prop :=
  (∃ quote ∈ mostProfitable (openQuotes e nowMs symbol), venues quote = venues best) ∨
    signalled nowMs best = false ∧
      ∀ quote ∈ mostProfitable (openQuotes e nowMs symbol), quote.qualifies = false

variable {symbol}

/-- The rows of a symbol after the recomputation. -/
theorem mem_premiums_symbol {info : PremiumInfo} (hsymbol : symbol ∈ e.symbols.symbols) :
    info ∈ (e.updateAllEntries nowMs).getAllPremiums target nowMs ∧ info.symbol = symbol ↔
      ∃ row ∈ mostProfitable (pricedQuotes e symbol),
        info = Engine.premiumInfo nowMs symbol row (calculateScalar row.entryRow)
          (calculateScalar row.exitRow) := by
  have hframe := onlyCache_updateAllEntries e nowMs
  have hbest : ∀ symbol, (e.updateAllEntries nowMs).bestPremiumPair symbol =
      mostProfitable (pricedQuotes e symbol) := by
    intro symbol
    have hquote : (e.updateAllEntries nowMs).premiumQuote symbol = e.premiumQuote symbol := by
      funext pair
      simp only [Engine.premiumQuote, hframe.priceCache]
    rw [bestPremiumPair_eq, pricedQuotes, hframe.exchangePairs, hquote, pricedQuotes]
  rw [mem_getAllPremiums]
  constructor
  · rintro ⟨⟨symbol', -, row, hrow, rfl⟩, rfl⟩
    exact ⟨row, (hbest symbol').symm.trans hrow, rfl⟩
  · rintro ⟨row, hrow, rfl⟩
    refine ⟨⟨symbol, ?_, row, (hbest symbol).trans hrow, rfl⟩, rfl⟩
    rw [hframe.symbols]
    exact hsymbol

/-- The quote put together again is as fresh as a valid one. -/
theorem quoteIsFresh_rowQuote {price : PriceData} (hvalid : price.valid = true)
    (maxAgeMs : UInt64) :
    Engine.quoteIsFreshWithLimit (Engine.rowQuote price) nowMs maxAgeMs =
      Engine.quoteIsFreshWithLimit price nowMs maxAgeMs := by
  simp only [Engine.quoteIsFreshWithLimit, Engine.rowQuote, hvalid]
  rfl

/-- The monitor's row of the most profitable pair shows a signal exactly where the pair is
signalled. -/
theorem entrySignal_premiumInfo {row : Engine.PairQuote} (entry exit : Double)
    (hrow : row ∈ mostProfitable (pricedQuotes e symbol)) :
    (Engine.premiumInfo nowMs symbol row entry exit).entrySignal = signalled nowMs row := by
  obtain ⟨pair, -, hquote⟩ := List.mem_filterMap.mp (mem_of_mostProfitable hrow)
  obtain ⟨⟨hkorean, hforeign⟩, -⟩ := premiumQuote_eq_some hquote
  have husable : Engine.quotePairIsUsable nowMs (Engine.rowQuote row.koreanPrice)
      (Engine.rowQuote row.foreignPrice) =
        Engine.quotePairIsUsable nowMs row.koreanPrice row.foreignPrice := by
    simp only [Engine.quotePairIsUsable, quoteIsFresh_rowQuote nowMs hkorean,
      quoteIsFresh_rowQuote nowMs hforeign]
    rfl
  simp only [Engine.premiumInfo, husable, signalled, Engine.PairQuote.qualifies,
    TradingConfig.entryGatePasses, Bool.and_assoc]

/-- Where monitor and trader agree, a signalled winner is on the trader's venues, and the trader
qualifies nothing else. -/
theorem sameWinner_of_monitorAgrees {idx : ℕ} (hget : e.symbols.symbols[idx]? = some symbol)
    (hagrees : MonitorAgrees e nowMs symbol target idx) {best : Engine.PairQuote}
    (hbest : best ∈ mostProfitable (pricedQuotes e symbol)) : SameWinner e nowMs symbol best := by
  have hsymbol : symbol ∈ e.symbols.symbols := List.mem_of_getElem? hget
  have hdecided := decided_updateAllEntries e nowMs hget
  obtain ⟨hmem, hname⟩ := (mem_premiums_symbol e nowMs target hsymbol).mpr ⟨best, hbest, rfl⟩
  have hentry := entrySignal_premiumInfo e nowMs (calculateScalar best.entryRow)
    (calculateScalar best.exitRow) hbest
  cases hshown : signalled nowMs best with
  | true =>
    left
    have hqualified := hagrees.signal.mp ⟨_, hmem, hname, hentry.trans hshown⟩
    rw [hdecided.qualified, Option.any_eq_true] at hqualified
    obtain ⟨quote, hquote, -⟩ := hqualified
    have hsame := hagrees.choice _ hmem hname (hentry.trans hshown)
    refine ⟨quote, hquote, ?_⟩
    rw [← hdecided.venues quote hquote, ← hsame.korean, ← hsame.foreign]
    rfl
  | false =>
    refine .inr ⟨hshown, fun quote hquote => ?_⟩
    by_contra hpasses
    rw [Bool.not_eq_false] at hpasses
    have hqualified := hdecided.qualified
    rw [hquote, Option.any_some, hpasses] at hqualified
    obtain ⟨info, hinfo, hinfoName, hinfoSignal⟩ := hagrees.signal.mpr hqualified
    obtain ⟨row, hrow, rfl⟩ := (mem_premiums_symbol e nowMs target hsymbol).mp ⟨hinfo, hinfoName⟩
    obtain rfl := Option.mem_unique hrow hbest
    rw [hentry, hshown] at hinfoSignal
    cases hinfoSignal

variable {best : Engine.PairQuote}

/-- On the venues of the trader's winner, the winner of the monitor is the same pair. -/
theorem mem_openQuotes_of_venues {quote : Engine.PairQuote}
    (hquote : quote ∈ mostProfitable (openQuotes e nowMs symbol))
    (hbest : best ∈ mostProfitable (pricedQuotes e symbol)) (hvenues : venues quote = venues best) :
    best ∈ mostProfitable (openQuotes e nowMs symbol) := by
  obtain rfl := eq_of_venues (openQuotes_subset e nowMs symbol (mem_of_mostProfitable hquote))
    (mem_of_mostProfitable hbest) hvenues
  exact hquote

/-- A row that is signalled shows the trader's winner. -/
theorem signalled_row (hsymbol : symbol ∈ e.symbols.symbols)
    (hwinner : ∀ best ∈ mostProfitable (pricedQuotes e symbol), SameWinner e nowMs symbol best)
    {info : PremiumInfo} (hinfo : info ∈ (e.updateAllEntries nowMs).getAllPremiums target nowMs)
    (hname : info.symbol = symbol) (hsignal : info.entrySignal = true) :
    ∃ best ∈ mostProfitable (openQuotes e nowMs symbol), best.qualifies = true ∧
      info = Engine.premiumInfo nowMs symbol best (calculateScalar best.entryRow)
        (calculateScalar best.exitRow) := by
  obtain ⟨best, hbest, rfl⟩ := (mem_premiums_symbol e nowMs target hsymbol).mp ⟨hinfo, hname⟩
  rw [entrySignal_premiumInfo e nowMs _ _ hbest] at hsignal
  rcases hwinner best hbest with ⟨quote, hquote, hvenues⟩ | ⟨hno, -⟩
  · have hopen := mem_openQuotes_of_venues e nowMs hquote hbest hvenues
    exact ⟨best, hopen, ((Bool.and_eq_true _ _).mp hsignal).2, rfl⟩
  · rw [hno] at hsignal
    cases hsignal

/-- The monitor agrees with the engine where one pair is the most profitable of both. -/
theorem monitorAgrees_of_sameWinner {idx : ℕ} (hget : e.symbols.symbols[idx]? = some symbol)
    (hwinner : ∀ best ∈ mostProfitable (pricedQuotes e symbol), SameWinner e nowMs symbol best) :
    MonitorAgrees e nowMs symbol target idx := by
  have hsymbol : symbol ∈ e.symbols.symbols := List.mem_of_getElem? hget
  have hdecided := decided_updateAllEntries e nowMs hget
  refine ⟨⟨?_, ?_⟩, ?_⟩
  · rintro ⟨info, hinfo, hname, hsignal⟩
    obtain ⟨best, hbest, hpasses, -⟩ :=
      signalled_row e nowMs target hsymbol hwinner hinfo hname hsignal
    rw [hdecided.qualified, hbest, Option.any_some, hpasses]
  · intro hqualified
    rw [hdecided.qualified, Option.any_eq_true] at hqualified
    obtain ⟨quote, hquote, hpasses⟩ := hqualified
    obtain ⟨best, hbest⟩ :=
      exists_mostProfitable_of_subset (openQuotes_subset e nowMs symbol) hquote
    rcases hwinner best hbest with ⟨quote', hquote', hvenues⟩ | ⟨-, hno⟩
    · have hopen := mem_openQuotes_of_venues e nowMs hquote' hbest hvenues
      obtain rfl := Option.mem_unique hopen hquote
      obtain ⟨hmem, hname⟩ :=
        (mem_premiums_symbol e nowMs target hsymbol).mpr ⟨best, hbest, rfl⟩
      refine ⟨_, hmem, hname, ?_⟩
      rw [entrySignal_premiumInfo e nowMs _ _ hbest, signalled, hpasses, Bool.and_true]
      exact (List.mem_filter.mp (mem_of_mostProfitable hopen)).2
    · rw [hno quote hquote] at hpasses
      cases hpasses
  · intro info hinfo hname hsignal
    obtain ⟨best, hbest, -, rfl⟩ :=
      signalled_row e nowMs target hsymbol hwinner hinfo hname hsignal
    have hvenues := Prod.mk.inj (hdecided.venues best hbest)
    exact ⟨hvenues.1.symm, hvenues.2.symm, (hdecided.netProfitKrw best hbest).symm,
      (hdecided.netEdgePct best hbest).symm⟩

/-- For every engine and clock value, the monitor and the trader agree on every symbol exactly if
for every symbol the most profitable pair of all is the trader's, or neither is signalled. -/
theorem monitor_agrees_iff (target : Target) (e : Engine) (nowMs : UInt64) :
    (∀ idx symbol, e.symbols.symbols[idx]? = some symbol →
        MonitorAgrees e nowMs symbol target idx) ↔
      ∀ symbol ∈ e.symbols.symbols, ∀ best ∈ mostProfitable (pricedQuotes e symbol),
        SameWinner e nowMs symbol best := by
  constructor
  · intro hagree symbol hsymbol best hbest
    obtain ⟨idx, hget⟩ := List.mem_iff_getElem?.mp hsymbol
    exact sameWinner_of_monitorAgrees e nowMs target hget (hagree idx symbol hget) hbest
  · intro hwinner idx symbol hget
    exact monitorAgrees_of_sameWinner e nowMs target hget
      (hwinner symbol (List.mem_of_getElem? hget))

/-- The only pair is disabled. -/
def disabledPair : Engine :=
  Engine.run .insertion .initial .initial
    (.addExchangePair .bithumb .bybit :: .setExchangePairEntryEnabled .bithumb .bybit false ::
      timelyScan.tail)

/-- The monitor signals AAA, and its entry is not qualified. -/
theorem monitor_signals_disabledPair :
    ¬ ∀ (target : Target) (e : Engine) (nowMs : UInt64) (idx : ℕ) (symbol : SymbolId),
      e.symbols.symbols[idx]? = some symbol → MonitorAgrees e nowMs symbol target idx := by
  intro h
  have hagree := (h .avx2 disabledPair 1100 0 (.of "AAA" "KRW") (by decide +kernel)).signal
  have hshown : ∃ info ∈ (disabledPair.updateAllEntries 1100).getAllPremiums .avx2 1100,
      info.symbol = .of "AAA" "KRW" ∧ info.entrySignal = true := by
    decide +kernel
  have hqualified := hagree.mp hshown
  have hunqualified : ((disabledPair.updateAllEntries 1100).entryCache 0).qualified = false := by
    decide +kernel
  rw [hunqualified] at hqualified
  cases hqualified

end SpotRelay.Analysis
