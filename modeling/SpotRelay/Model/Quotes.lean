import SpotRelay.Model.Types

/-!
# Quotes, premiums and the relay metrics

The pure arithmetic that the order manager evaluates before it trades: the freshness and
spread filter `quote_pair_is_usable` (order_manager.cpp:298-318), the premiums and
`PremiumCalculator::calculate_relay_metrics` (arbitrage_engine.hpp:754-839).
-/

set_option autoImplicit false

namespace SpotRelay.Model

/-- One entry of the price cache as `get_price` returns it (arbitrage_engine.hpp:46-54). -/
structure PriceData where
  bid : ℚ := 0
  ask : ℚ := 0
  bidQty : ℚ := 0
  askQty : ℚ := 0
  last : ℚ := 0
  timestamp : UInt64 := 0
  valid : Bool := false
deriving DecidableEq

/-- `spread_pct`; `none` is the infinity the source returns for a crossed or empty book. -/
def spreadPct (bid ask : ℚ) : Option ℚ :=
  if bid ≤ 0 ∨ ask ≤ 0 ∨ ask < bid then none
  else
    let mid := (bid + ask) * (1 / 2)
    if mid ≤ 0 then none else some ((ask - bid) / mid * 100)

/-- `spread_pct(bid, ask) > limit`, infinity being above every limit. -/
def spreadExceeds (bid ask limit : ℚ) : Bool :=
  match spreadPct bid ask with
  | none => true
  | some s => decide (limit < s)

/-- `quote_pair_is_usable` (order_manager.cpp:298-318).  The ages are `uint64_t`
differences, so a timestamp ahead of the clock wraps to a huge age. -/
def quotePairIsUsable (nowMs : UInt64) (korean foreign : PriceData) (isExit : Bool) : Bool :=
  let maxAge := if isExit then TradingConfig.maxQuoteAgeMsExit else TradingConfig.maxQuoteAgeMs
  let maxDesync :=
    if isExit then TradingConfig.maxQuoteDesyncMsExit else TradingConfig.maxQuoteDesyncMs
  let maxKrSp :=
    if isExit then TradingConfig.maxKoreanSpreadPctExit else TradingConfig.maxKoreanSpreadPct
  let maxFrSp :=
    if isExit then TradingConfig.maxForeignSpreadPctExit else TradingConfig.maxForeignSpreadPct
  if !korean.valid || korean.timestamp = 0 || !foreign.valid || foreign.timestamp = 0 then false
  else if nowMs - korean.timestamp > maxAge || nowMs - foreign.timestamp > maxAge then false
  else
    let tsDiff :=
      if korean.timestamp ≥ foreign.timestamp then korean.timestamp - foreign.timestamp
      else foreign.timestamp - korean.timestamp
    if tsDiff > maxDesync then false
    else if spreadExceeds korean.bid korean.ask maxKrSp then false
    else !spreadExceeds foreign.bid foreign.ask maxFrSp

/-- `premium = (korean - foreign * rate) / (foreign * rate) * 100`, the formula behind the
entry, the exit and the effective entry premium. -/
def premiumPct (korean foreign rate : ℚ) : ℚ :=
  (korean - foreign * rate) / (foreign * rate) * 100

/-- The result of `calculate_relay_metrics` (arbitrage_engine.hpp:736-761). -/
structure RelayMetrics where
  matchQty : ℚ := 0
  bithumbTopKrw : ℚ := 0
  bithumbTopUsdt : ℚ := 0
  bybitTopUsdt : ℚ := 0
  bybitTopKrw : ℚ := 0
  matchBuyKrw : ℚ := 0
  matchSellUsdt : ℚ := 0
  matchSellKrw : ℚ := 0
  maxTradableUsdtAtBest : ℚ := 0
  targetCoinQty : ℚ := 0
  bithumbCanFillTarget : Bool := false
  bybitCanFillTarget : Bool := false
  bothCanFillTarget : Bool := false
  bithumbTotalFeeKrw : ℚ := 0
  bybitTotalFeeUsdt : ℚ := 0
  bybitTotalFeeKrw : ℚ := 0
  withdrawFeeCoins : ℚ := 0
  withdrawFeeKrw : ℚ := 0
  totalFeeKrw : ℚ := 0
  grossSpreadKrw : ℚ := 0
  grossEdgePct : ℚ := 0
  netProfitKrw : ℚ := 0
  netBasisKrw : ℚ := 0
  netEdgePct : ℚ := 0
deriving DecidableEq

/-- `PremiumCalculator::calculate_relay_metrics` (arbitrage_engine.hpp:786-839), with the
fee arguments of its signature. -/
def calculateRelayMetrics (koreanAsk koreanAskQty foreignBid foreignBidQty usdtKrwRate : ℚ)
    (koreanFeeRate : ℚ := TradingConfig.bithumbFeeRate)
    (foreignFeeRate : ℚ := TradingConfig.bybitFeeRate)
    (withdrawFeeCoins : ℚ := 0) : RelayMetrics :=
  if koreanAsk ≤ 0 ∨ koreanAskQty ≤ 0 ∨ foreignBid ≤ 0 ∨ foreignBidQty ≤ 0 ∨ usdtKrwRate ≤ 0 then
    {}
  else
    let matchQty := min koreanAskQty foreignBidQty
    let bithumbTopKrw := koreanAsk * koreanAskQty
    let bithumbTopUsdt := bithumbTopKrw / usdtKrwRate
    let bybitTopUsdt := foreignBid * foreignBidQty
    let targetCoinQty := TradingConfig.targetEntryUsdt / foreignBid
    let bithumbCan := decide (TradingConfig.targetEntryUsdt ≤ bithumbTopUsdt)
    let bybitCan := decide (TradingConfig.targetEntryUsdt ≤ bybitTopUsdt)
    -- the entry is priced on the executable size, capped at the live target notional
    let effectiveEntryQty := min matchQty targetCoinQty
    let matchBuyKrw := koreanAsk * effectiveEntryQty
    let matchSellUsdt := foreignBid * effectiveEntryQty
    let matchSellKrw := matchSellUsdt * usdtKrwRate
    let bithumbTotalFeeKrw := matchBuyKrw * koreanFeeRate * TradingConfig.koreanFeeEvents
    let bybitTotalFeeUsdt := matchSellUsdt * foreignFeeRate * TradingConfig.foreignFeeEvents
    let bybitTotalFeeKrw := matchSellKrw * foreignFeeRate * TradingConfig.foreignFeeEvents
    let withdrawFeeKrw := withdrawFeeCoins * koreanAsk
    let totalFeeKrw := bithumbTotalFeeKrw + bybitTotalFeeKrw + withdrawFeeKrw
    let grossSpreadKrw := matchSellKrw - matchBuyKrw
    let netProfitKrw := grossSpreadKrw - totalFeeKrw
    let netBasisKrw := matchBuyKrw + totalFeeKrw
    { matchQty := matchQty
      bithumbTopKrw := bithumbTopKrw
      bithumbTopUsdt := bithumbTopUsdt
      bybitTopUsdt := bybitTopUsdt
      bybitTopKrw := bybitTopUsdt * usdtKrwRate
      matchBuyKrw := matchBuyKrw
      matchSellUsdt := matchSellUsdt
      matchSellKrw := matchSellKrw
      maxTradableUsdtAtBest := min bithumbTopUsdt bybitTopUsdt
      targetCoinQty := targetCoinQty
      bithumbCanFillTarget := bithumbCan
      bybitCanFillTarget := bybitCan
      bothCanFillTarget := bithumbCan && bybitCan
      bithumbTotalFeeKrw := bithumbTotalFeeKrw
      bybitTotalFeeUsdt := bybitTotalFeeUsdt
      bybitTotalFeeKrw := bybitTotalFeeKrw
      withdrawFeeCoins := withdrawFeeCoins
      withdrawFeeKrw := withdrawFeeKrw
      totalFeeKrw := totalFeeKrw
      grossSpreadKrw := grossSpreadKrw
      grossEdgePct := if 0 < matchBuyKrw then grossSpreadKrw / matchBuyKrw * 100 else 0
      netProfitKrw := netProfitKrw
      netBasisKrw := netBasisKrw
      netEdgePct := if 0 < netBasisKrw then netProfitKrw / netBasisKrw * 100 else 0 }

end SpotRelay.Model
