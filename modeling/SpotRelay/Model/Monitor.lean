import SpotRelay.Model.Engine

/-!
# The premiums that the engine shows

`get_all_premiums` (arbitrage_engine.cpp:857-1073) and the batch calculation behind it
(simd_premium.hpp:59-210).  The premiums are doubles that are exact where they are finite; what a
division by zero gives is kept.
-/

set_option autoImplicit false

namespace SpotRelay.Model

/-! ## Doubles -/

/-- A double without rounding. -/
inductive Double
  | finite (value : ℚ)
  | posInf
  | negInf
  | nan
deriving DecidableEq

namespace Double

/-- The quotient of two finite doubles; a zero divisor is the positive zero. -/
def div (a b : ℚ) : Double :=
  if b ≠ 0 then .finite (a / b) else if 0 < a then .posInf else if a < 0 then .negInf else .nan

/-- The product with a positive constant. -/
def scale (c : ℚ) : Double → Double
  | .finite value => .finite (value * c)
  | x => x

/-- The sum with a finite double. -/
def shift (c : ℚ) : Double → Double
  | .finite value => .finite (value + c)
  | x => x

/-- The difference of two doubles. -/
def sub : Double → Double → Double
  | .finite a, .finite b => .finite (a - b)
  | .nan, _ | _, .nan | .posInf, .posInf | .negInf, .negInf => .nan
  | .posInf, _ | _, .negInf => .posInf
  | .negInf, _ | _, .posInf => .negInf

/-- `x >= limit`. -/
def atLeast (x : Double) (limit : ℚ) : Bool :=
  match x with
  | .finite value => decide (limit ≤ value)
  | .posInf => true
  | .negInf | .nan => false

end Double

/-! ## The batch calculation -/

namespace SimdPremiumCalculator

/-- The arguments of one row. -/
structure Row where
  korean : ℚ
  foreign : ℚ
  usdt : ℚ
deriving DecidableEq

/-- What the program is compiled for. -/
inductive Target
  | avx2
  | neon
  | scalar
deriving DecidableEq

/-- `calculate_scalar`, and the remainder loops. -/
def calculateScalar (r : Row) : Double :=
  let foreignKrw := r.foreign * r.usdt
  (Double.div (r.korean - foreignKrw) foreignKrw).scale 100

/-- A lane of `calculate_batch_avx2`. -/
def laneAvx2 (r : Row) : Double :=
  let foreignKrw := r.foreign * r.usdt
  let diff := r.korean - foreignKrw
  (Double.div diff foreignKrw).scale 100

/-- A lane of `calculate_batch_neon`. -/
def laneNeon (r : Row) : Double :=
  let foreignKrw := r.foreign * r.usdt
  let ratio := Double.div r.korean foreignKrw
  (ratio.scale 100).shift (-100)

/-- Four rows at a time. -/
def calculateBatchAvx2 : List Row → List Double
  | a :: b :: c :: d :: rest =>
    laneAvx2 a :: laneAvx2 b :: laneAvx2 c :: laneAvx2 d :: calculateBatchAvx2 rest
  | rest => rest.map calculateScalar

/-- Two rows at a time. -/
def calculateBatchNeon : List Row → List Double
  | a :: b :: rest => laneNeon a :: laneNeon b :: calculateBatchNeon rest
  | rest => rest.map calculateScalar

/-- `calculate_batch`. -/
def calculateBatch (target : Target) (rows : List Row) : List Double :=
  match target with
  | .avx2 => calculateBatchAvx2 rows
  | .neon => calculateBatchNeon rows
  | .scalar => rows.map calculateScalar

end SimdPremiumCalculator

open SimdPremiumCalculator (Target calculateBatch)

/-! ## The rows of the monitor -/

/-- `PremiumInfo` (arbitrage_engine.hpp:849-889). -/
structure PremiumInfo where
  symbol : SymbolId
  koreanBid : ℚ
  koreanAsk : ℚ
  koreanBidQty : ℚ
  koreanAskQty : ℚ
  foreignBid : ℚ
  foreignAsk : ℚ
  foreignBidQty : ℚ
  foreignAskQty : ℚ
  koreanPrice : ℚ
  foreignPrice : ℚ
  usdtRate : ℚ
  entryPremium : Double
  exitPremium : Double
  /-- Entry less exit. -/
  premiumSpread : Double
  premium : Double
  matchQty : ℚ
  targetCoinQty : ℚ
  maxTradableUsdtAtBest : ℚ
  bithumbTopKrw : ℚ
  bithumbTopUsdt : ℚ
  bybitTopUsdt : ℚ
  bybitTopKrw : ℚ
  grossEdgePct : ℚ
  netEdgePct : ℚ
  bithumbTotalFeeKrw : ℚ
  bybitTotalFeeUsdt : ℚ
  bybitTotalFeeKrw : ℚ
  withdrawFeeCoins : ℚ
  withdrawFeeKrw : ℚ
  totalFeeKrw : ℚ
  netProfitKrw : ℚ
  bothCanFillTarget : Bool
  ageMs : UInt64
  quoteUsable : Bool
  entrySignal : Bool
  exitSignal : Bool
  bestKoreanExchange : Exchange
  bestForeignExchange : Exchange
deriving DecidableEq

/-- `PremiumCalculator::calculate_exit_premium` (arbitrage_engine.hpp:770-776). -/
def calculateExitPremium (koreanBid foreignAsk usdtKrwRate : ℚ) : ℚ :=
  if foreignAsk ≤ 0 ∨ usdtKrwRate ≤ 0 then 0 else premiumPct koreanBid foreignAsk usdtKrwRate

namespace Engine

/-- The pair loop of `get_all_premiums`; it asks neither whether a pair is enabled nor whether its
quotes are usable (arbitrage_engine.cpp:917-938). -/
def premiumQuote (e : Engine) (symbol : SymbolId) (pair : ExchangePairConfig) : Option PairQuote :=
  let route : Route := (pair.korean, pair.foreign, symbol.base)
  if e.priceCache.isTransferRouteAvailable route = false then none
  else
    let koreanPrice := e.priceCache.getPrice pair.korean symbol
    if koreanPrice.valid = false ∨ koreanPrice.ask ≤ 0 then none
    else
      let foreignPrice := e.priceCache.getPrice pair.foreign symbol.foreign
      if foreignPrice.valid = false ∨ foreignPrice.bid ≤ 0 then none
      else
        let rate := e.priceCache.getUsdtKrw pair.korean
        if rate ≤ 0 then none
        else
          some
            { korean := pair.korean
              foreign := pair.foreign
              koreanPrice := koreanPrice
              foreignPrice := foreignPrice
              usdtRate := rate
              metrics :=
                calculateRelayMetrics koreanPrice.ask koreanPrice.askQty foreignPrice.bid
                  foreignPrice.bidQty rate (TradingConfig.getKoreanFeeRate pair.korean)
                  (TradingConfig.getForeignFeeRate pair.foreign)
                  (e.priceCache.getWithdrawFee route) }

/-- The pair of a symbol's row. -/
def bestPremiumPair (e : Engine) (symbol : SymbolId) : Option PairQuote :=
  (e.exchangePairs.filterMap (e.premiumQuote symbol)).foldl betterPair none

/-- The quote of a row as it is put together again for the check: without the last trade. -/
def rowQuote (price : PriceData) : PriceData := { price with last := 0, valid := true }

/-- The end of `get_all_premiums` for one row.  The metrics are computed a second time in the
source, from the same arguments. -/
def premiumInfo (nowMs : UInt64) (symbol : SymbolId) (row : PairQuote)
    (entryPremium exitPremium : Double) : PremiumInfo :=
  let korean := row.koreanPrice
  let foreign := row.foreignPrice
  let newestTs := max korean.timestamp foreign.timestamp
  let quoteUsable := quotePairIsUsable nowMs (rowQuote korean) (rowQuote foreign)
  { symbol := symbol
    koreanBid := korean.bid
    koreanAsk := korean.ask
    koreanBidQty := korean.bidQty
    koreanAskQty := korean.askQty
    foreignBid := foreign.bid
    foreignAsk := foreign.ask
    foreignBidQty := foreign.bidQty
    foreignAskQty := foreign.askQty
    koreanPrice := korean.ask
    foreignPrice := foreign.bid
    usdtRate := row.usdtRate
    entryPremium := entryPremium
    exitPremium := exitPremium
    premiumSpread := entryPremium.sub exitPremium
    premium := entryPremium
    matchQty := row.metrics.matchQty
    targetCoinQty := row.metrics.targetCoinQty
    maxTradableUsdtAtBest := row.metrics.maxTradableUsdtAtBest
    bithumbTopKrw := row.metrics.bithumbTopKrw
    bithumbTopUsdt := row.metrics.bithumbTopUsdt
    bybitTopUsdt := row.metrics.bybitTopUsdt
    bybitTopKrw := row.metrics.bybitTopKrw
    grossEdgePct := row.metrics.grossEdgePct
    netEdgePct := row.metrics.netEdgePct
    bithumbTotalFeeKrw := row.metrics.bithumbTotalFeeKrw
    bybitTotalFeeUsdt := row.metrics.bybitTotalFeeUsdt
    bybitTotalFeeKrw := row.metrics.bybitTotalFeeKrw
    withdrawFeeCoins := row.metrics.withdrawFeeCoins
    withdrawFeeKrw := row.metrics.withdrawFeeKrw
    totalFeeKrw := row.metrics.totalFeeKrw
    netProfitKrw := row.metrics.netProfitKrw
    bothCanFillTarget := row.metrics.bothCanFillTarget
    ageMs := if 0 < newestTs ∧ newestTs < nowMs then nowMs - newestTs else 0
    quoteUsable := quoteUsable
    entrySignal :=
      TradingConfig.entryGatePasses (quoteUsable && row.metrics.bothCanFillTarget)
        row.metrics.matchQty row.metrics.netEdgePct row.metrics.netProfitKrw
    exitSignal := exitPremium.atLeast TradingConfig.exitPremiumThreshold
    bestKoreanExchange := row.korean
    bestForeignExchange := row.foreign }

/-- The rows of `get_all_premiums`, in the order of the symbols. -/
def premiumRows (e : Engine) : List (SymbolId × PairQuote) :=
  e.symbols.symbols.filterMap fun symbol => (e.bestPremiumPair symbol).map fun row => (symbol, row)

/-- The arguments of the entry batch. -/
def PairQuote.entryRow (row : PairQuote) : SimdPremiumCalculator.Row :=
  ⟨row.koreanPrice.ask, row.foreignPrice.bid, row.usdtRate⟩

/-- The arguments of the exit batch. -/
def PairQuote.exitRow (row : PairQuote) : SimdPremiumCalculator.Row :=
  ⟨row.koreanPrice.bid, row.foreignPrice.ask, row.usdtRate⟩

/-- `get_all_premiums`. -/
def getAllPremiums (target : Target) (e : Engine) (nowMs : UInt64) : List PremiumInfo :=
  let rows := e.premiumRows
  let entryPremiums := calculateBatch target (rows.map fun row => row.2.entryRow)
  let exitPremiums := calculateBatch target (rows.map fun row => row.2.exitRow)
  (rows.zip (entryPremiums.zip exitPremiums)).map fun (row, premiums) =>
    premiumInfo nowMs row.1 row.2 premiums.1 premiums.2

end Engine

end SpotRelay.Model
