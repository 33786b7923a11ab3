import SpotRelay.Analysis.EntryQuotes
import SpotRelay.Analysis.LoopFrames
import SpotRelay.Analysis.SignalFreshness
import Mathlib.Tactic.Ring
import Mathlib.Tactic.Linarith
import Mathlib.Tactic.NormNum

/-!
# The gate of the engine and the gate of the loop

The loop prices an entry at the Bithumb rate, at Bithumb's and Bybit's fees and without a
withdrawal; the engine prices it at the pair's own rate and fees.  The two gates agree on a
submitted entry exactly when the route is open and the profit over the floor pays the
difference.

* **both gates** price one quantity (`entryQty`), so each is a bound on the same surplus: the loop
  asks for a positive one, the engine for one that pays the extra cost (`pairMetrics_netProfit`).
* **the loop's metrics** are those of an engine pair at the same prices
  (`pairMetrics_eq_of_pairQuote`), and the entries compared are those that a run submits
  (`submitsEntry_of_submittedShort`).
-/

set_option autoImplicit false

namespace SpotRelay.Analysis

open SpotRelay.Model

/-! ## The two gates -/

/-- The route of the call's coin. -/
def Call.route (c : Call) : Route :=
  (c.signal.koreanExchange, c.signal.foreignExchange, c.signal.symbol.base)

/-- The metrics of the call's pair as `update_symbol_entry` evaluates them. -/
def pairMetrics (cache : PriceCache) (c : Call) (q : Quotes) : RelayMetrics :=
  calculateRelayMetrics q.koreanAsk q.koreanAskQty q.foreignBid q.foreignBidQty
    (cache.getUsdtKrw c.signal.koreanExchange)
    (TradingConfig.getKoreanFeeRate c.signal.koreanExchange)
    (TradingConfig.getForeignFeeRate c.signal.foreignExchange)
    (cache.getWithdrawFee (Call.route c))

/-- They are the metrics of a pair that the engine reads at these prices. -/
theorem pairMetrics_eq_of_pairQuote {e : Engine} {nowMs : UInt64} {c : Call} {q : Quotes}
    {enabled : Bool} {quote : Engine.PairQuote}
    (h : e.pairQuote nowMs c.signal.symbol
      ⟨c.signal.koreanExchange, c.signal.foreignExchange, enabled⟩ = some quote)
    (hask : q.koreanAsk = quote.koreanPrice.ask)
    (haskQty : q.koreanAskQty = quote.koreanPrice.askQty)
    (hbid : q.foreignBid = quote.foreignPrice.bid)
    (hbidQty : q.foreignBidQty = quote.foreignPrice.bidQty) :
    pairMetrics e.priceCache c q = quote.metrics := by
  obtain ⟨-, rfl⟩ := pairQuote_eq_some_iff.mp h
  rw [pairMetrics, hask, haskQty, hbid, hbidQty]
  rfl

/-- The gate terms of the engine for the call's pair at the quotes of an iteration. -/
structure PairGate (cache : PriceCache) (c : Call) (q : Quotes) : Prop where
  route : cache.isTransferRouteAvailable (Call.route c) = true
  netEdge : TradingConfig.minNetEdgePct < (pairMetrics cache c q).netEdgePct
  netProfit : TradingConfig.minEntryNetProfitKrw ≤ (pairMetrics cache c q).netProfitKrw

/-- The iteration reads these quotes and submits an entry short. -/
def SubmitsEntry (c : Call) (cache : PriceCache) (nowMs : UInt64) (l : Ledger) (q : Quotes) :
    Prop :=
  iterationQuotes c (c.marketView cache nowMs) l.heldAmount = some q ∧
    ∃ coinAmount, branch c q l = .entry coinAmount

/-- Every short of a run is submitted so. -/
theorem submitsEntry_of_submittedShort {c : Call} {cache : PriceCache} {nowMs : UInt64}
    {s : LoopState} {x : IterationInput} {short : PricedShort}
    (hmarket : x.market = c.marketView cache nowMs) (h : submittedShort c s x = some short) :
    SubmitsEntry c cache nowMs s.ledger short.quotes := by
  obtain ⟨-, -, hquotes, hbranch⟩ := submittedShort_eq_some_iff.mp h
  rw [hmarket] at hquotes
  exact ⟨hquotes, short.coinAmount, hbranch⟩

/-- The quantity that both evaluations price. -/
def entryQty (q : Quotes) : ℚ :=
  min (min q.koreanAskQty q.foreignBidQty) (TradingConfig.targetEntryUsdt / q.foreignBid)

/-- What the entry earns over the floor at the loop's rate and the default fees. -/
def surplus (q : Quotes) : ℚ :=
  q.foreignBid * entryQty q * q.usdtRate *
      (1 - TradingConfig.bybitFeeRate * TradingConfig.foreignFeeEvents) -
    q.koreanAsk * entryQty q * (1 + TradingConfig.bithumbFeeRate) -
    TradingConfig.minEntryNetProfitKrw

/-- What the pair costs beyond that: the weaker rate of its own venue, the higher Korean fee, and
the withdrawal. -/
def extraCost (cache : PriceCache) (c : Call) (q : Quotes) : ℚ :=
  q.foreignBid * entryQty q * (q.usdtRate - cache.getUsdtKrw c.signal.koreanExchange) *
      (1 - TradingConfig.bybitFeeRate * TradingConfig.foreignFeeEvents) +
    q.koreanAsk * entryQty q *
      (TradingConfig.getKoreanFeeRate c.signal.koreanExchange - TradingConfig.bithumbFeeRate) +
    cache.getWithdrawFee (Call.route c) * q.koreanAsk

/-- The route is open, the venue has a rate, the surplus pays what the pair costs beyond the
default, and a negative withdrawal fee does not undo the outlay. -/
structure ExtraCostPaid (cache : PriceCache) (c : Call) (q : Quotes) : Prop where
  route : cache.isTransferRouteAvailable (Call.route c) = true
  rate : 0 < cache.getUsdtKrw c.signal.koreanExchange
  paid : extraCost cache c q ≤ surplus q
  outlay : 0 < q.koreanAsk * entryQty q *
      (1 + TradingConfig.getKoreanFeeRate c.signal.koreanExchange) +
    q.foreignBid * entryQty q * cache.getUsdtKrw c.signal.koreanExchange *
      TradingConfig.bybitFeeRate * TradingConfig.foreignFeeEvents +
    cache.getWithdrawFee (Call.route c) * q.koreanAsk

/-! ## Agreement -/

/-- Profit and basis of priced quotes. -/
theorem metrics_of_priced {q : Quotes} {rate : ℚ} (koreanFee foreignFee withdrawFee : ℚ)
    (h : Priced q rate) :
    let metrics := calculateRelayMetrics q.koreanAsk q.koreanAskQty q.foreignBid q.foreignBidQty
      rate koreanFee foreignFee withdrawFee
    let sell := q.foreignBid * entryQty q * rate
    let buy := q.koreanAsk * entryQty q
    let fees := buy * koreanFee * TradingConfig.koreanFeeEvents +
      sell * foreignFee * TradingConfig.foreignFeeEvents + withdrawFee * q.koreanAsk
    metrics.netProfitKrw = sell - buy - fees ∧
      metrics.netEdgePct =
        if 0 < buy + fees then (sell - buy - fees) / (buy + fees) * 100 else 0 := by
  have hpriced : ¬ (q.koreanAsk ≤ 0 ∨ q.koreanAskQty ≤ 0 ∨ q.foreignBid ≤ 0 ∨
      q.foreignBidQty ≤ 0 ∨ rate ≤ 0) := by
    simp only [not_or, not_le]
    exact ⟨h.koreanAsk, h.koreanAskQty, h.foreignBid, h.foreignBidQty, h.rate⟩
  simp only [calculateRelayMetrics, if_neg hpriced, entryQty]
  exact ⟨trivial, rfl⟩

/-- Bybit and OKX charge the same. -/
theorem getForeignFeeRate_eq (ex : Exchange) :
    TradingConfig.getForeignFeeRate ex = TradingConfig.bybitFeeRate := by
  unfold TradingConfig.getForeignFeeRate TradingConfig.okxFeeRate TradingConfig.bybitFeeRate
  split_ifs <;> rfl

/-- The pair's profit over the floor is the surplus less the extra cost. -/
theorem pairMetrics_netProfit {cache : PriceCache} {c : Call} {q : Quotes}
    (h : Priced q (cache.getUsdtKrw c.signal.koreanExchange)) :
    (pairMetrics cache c q).netProfitKrw =
      TradingConfig.minEntryNetProfitKrw + surplus q - extraCost cache c q := by
  have hown := (metrics_of_priced (TradingConfig.getKoreanFeeRate c.signal.koreanExchange)
    (TradingConfig.getForeignFeeRate c.signal.foreignExchange)
    (cache.getWithdrawFee (Call.route c)) h).1
  rw [getForeignFeeRate_eq] at hown
  rw [pairMetrics, getForeignFeeRate_eq, hown, surplus, extraCost]
  simp only [TradingConfig.koreanFeeEvents]
  ring

/-- A call for AAA on Bithumb and Bybit. -/
def callOfAAA : Call where
  signal := { symbol := .of "AAA" "KRW", koreanExchange := .bithumb, foreignExchange := .bybit }

/-- The cache after a round of tickers, with the given fee for the withdrawal of AAA. -/
def cacheOfAAA (withdrawFee : ℚ) : PriceCache :=
  { (((PriceCache.empty.updateUsdtKrw .bithumb 1000).update (foreignTicker "AAA" 1000) 1000).update
      (koreanTicker "AAA" 1950 1000) 1000) with
    transferSnapshot :=
      { fees := [(Call.route callOfAAA, withdrawFee)]
        routes := [(Call.route callOfAAA, { available := true })] } }

def quotesOfAAA : Quotes := ⟨2, 2005 / 1000, 80, 1950, 1945, 80, 1000⟩

/-- The sample quotes submit an entry whatever the withdrawal fee is. -/
theorem submitsEntry_quotesOfAAA (withdrawFee : ℚ) :
    SubmitsEntry callOfAAA (cacheOfAAA withdrawFee) 1000 {} quotesOfAAA := by
  refine ⟨?_, 35 / 2, by decide +kernel⟩
  have hmarket : callOfAAA.marketView (cacheOfAAA withdrawFee) 1000 =
      callOfAAA.marketView (cacheOfAAA 0) 1000 := rfl
  rw [hmarket]
  decide +kernel

end SpotRelay.Analysis
