import SpotRelay.Model.Quotes

/-!
# The relay metrics of the dashboard scripts

`calculateRelayMetrics` and `normalizeFeeEvents` of scripts/lib/spot-relay-math.mjs, over exact
numbers.
-/

set_option autoImplicit false

namespace SpotRelay.Model

namespace SpotRelayMath

/-- A value that the scripts turn into a number. -/
inductive JsValue
  | undefined
  /-- `NaN` or an infinity. -/
  | notFinite
  | finite (value : ℚ)
deriving DecidableEq

structure FeeEvents where
  bithumb : ℚ
  bybit : ℚ
deriving DecidableEq

/-- `DEFAULT_FEE_EVENTS`. -/
def defaultFeeEvents : FeeEvents := ⟨1, 3⟩

/-- `normalizePositiveInteger`; a number below one becomes zero. -/
def normalizePositiveInteger (value : JsValue) (fallback : ℚ) : ℚ :=
  match value with
  | .finite parsed => if parsed ≤ 0 then fallback else ⌊parsed⌋
  | .undefined | .notFinite => fallback

/-- `normalizeFeeEvents`: an absent count is the default, which is then normalised too. -/
def normalizeFeeEvents (bithumb bybit : JsValue) : FeeEvents :=
  { bithumb := normalizePositiveInteger bithumb defaultFeeEvents.bithumb
    bybit := normalizePositiveInteger bybit defaultFeeEvents.bybit }

/-- The arguments of `calculateRelayMetrics`. -/
structure RelayInput where
  bithumbAsk : ℚ
  bithumbAskQty : ℚ
  bybitBid : ℚ
  bybitBidQty : ℚ
  usdtBid : ℚ
  targetUsdt : ℚ
  bithumbFeeRate : ℚ
  bybitTakerFeeRate : ℚ
  bithumbFeeEvents : JsValue := .finite 1
  bybitFeeEvents : JsValue := .finite 3
deriving DecidableEq

/-- The result of `calculateRelayMetrics`. -/
structure RelayResult where
  feeEvents : FeeEvents
  matchQty : ℚ
  bithumbTopKrw : ℚ
  bithumbTopUsdt : ℚ
  bybitTopUsdt : ℚ
  bybitTopKrw : ℚ
  matchBuyKrw : ℚ
  matchSellUsdt : ℚ
  matchSellKrw : ℚ
  maxTradableUsdtAtBest : ℚ
  targetCoinQty : ℚ
  bithumbCanFillTarget : Bool
  bybitCanFillTarget : Bool
  bothCanFillTarget : Bool
  bithumbFeePerTradeKrw : ℚ
  bybitFeePerTradeUsdt : ℚ
  bybitFeePerTradeKrw : ℚ
  bithumbTotalFeeKrw : ℚ
  bybitTotalFeeUsdt : ℚ
  bybitTotalFeeKrw : ℚ
  totalFeeKrw : ℚ
  grossSpreadKrw : ℚ
  grossEdgePct : ℚ
  netProfitKrw : ℚ
  netBasisKrw : ℚ
  netEdgePct : ℚ
deriving DecidableEq

/-- `calculateRelayMetrics`: everything is priced on the whole matched quantity. -/
def calculateRelayMetrics (i : RelayInput) : RelayResult :=
  let feeEvents := normalizeFeeEvents i.bithumbFeeEvents i.bybitFeeEvents
  let matchQty := min i.bithumbAskQty i.bybitBidQty
  let bithumbTopKrw := i.bithumbAsk * i.bithumbAskQty
  let bybitTopUsdt := i.bybitBid * i.bybitBidQty
  let matchBuyKrw := i.bithumbAsk * matchQty
  let matchSellUsdt := i.bybitBid * matchQty
  let matchSellKrw := matchSellUsdt * i.usdtBid
  let targetCoinQty := if 0 < i.bybitBid then i.targetUsdt / i.bybitBid else 0
  let bithumbCan := decide (targetCoinQty ≤ i.bithumbAskQty)
  let bybitCan := decide (targetCoinQty ≤ i.bybitBidQty)
  let bithumbFeePerTradeKrw := matchBuyKrw * i.bithumbFeeRate
  let bybitFeePerTradeUsdt := matchSellUsdt * i.bybitTakerFeeRate
  let bybitFeePerTradeKrw := matchSellKrw * i.bybitTakerFeeRate
  let bithumbTotalFeeKrw := bithumbFeePerTradeKrw * feeEvents.bithumb
  let bybitTotalFeeKrw := bybitFeePerTradeKrw * feeEvents.bybit
  let totalFeeKrw := bithumbTotalFeeKrw + bybitTotalFeeKrw
  let grossSpreadKrw := matchSellKrw - matchBuyKrw
  let netProfitKrw := grossSpreadKrw - totalFeeKrw
  let netBasisKrw := matchBuyKrw + totalFeeKrw
  { feeEvents := feeEvents
    matchQty := matchQty
    bithumbTopKrw := bithumbTopKrw
    bithumbTopUsdt := if 0 < i.usdtBid then bithumbTopKrw / i.usdtBid else 0
    bybitTopUsdt := bybitTopUsdt
    bybitTopKrw := bybitTopUsdt * i.usdtBid
    matchBuyKrw := matchBuyKrw
    matchSellUsdt := matchSellUsdt
    matchSellKrw := matchSellKrw
    maxTradableUsdtAtBest := i.bybitBid * matchQty
    targetCoinQty := targetCoinQty
    bithumbCanFillTarget := bithumbCan
    bybitCanFillTarget := bybitCan
    bothCanFillTarget := bithumbCan && bybitCan
    bithumbFeePerTradeKrw := bithumbFeePerTradeKrw
    bybitFeePerTradeUsdt := bybitFeePerTradeUsdt
    bybitFeePerTradeKrw := bybitFeePerTradeKrw
    bithumbTotalFeeKrw := bithumbTotalFeeKrw
    bybitTotalFeeUsdt := bybitFeePerTradeUsdt * feeEvents.bybit
    bybitTotalFeeKrw := bybitTotalFeeKrw
    totalFeeKrw := totalFeeKrw
    grossSpreadKrw := grossSpreadKrw
    grossEdgePct := if 0 < matchBuyKrw then grossSpreadKrw / matchBuyKrw * 100 else 0
    netProfitKrw := netProfitKrw
    netBasisKrw := netBasisKrw
    netEdgePct := if 0 < netBasisKrw then netProfitKrw / netBasisKrw * 100 else 0 }

end SpotRelayMath

end SpotRelay.Model
