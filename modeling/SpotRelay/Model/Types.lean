import Mathlib.Algebra.Order.Field.Rat
import Mathlib.Data.Rat.Floor

/-!
# The data model of the bot

The records of `core/types.hpp` that the order path reads and writes: venues, symbols,
orders, positions, the entry signal and the trading constants.  Prices, sizes and rates are
`double` in the source and exact rationals here; a `double` that is set to infinity or left
unset keeps its own case where the code tests for it.
-/

set_option autoImplicit false

namespace SpotRelay.Model

/-- The four venues (types.hpp:22-28). -/
inductive Exchange
  | bithumb
  | bybit
  | okx
  | upbit
deriving DecidableEq, Repr

/-- `is_korean_exchange` (types.hpp:40-42). -/
def Exchange.isKorean : Exchange → Bool
  | .bithumb => true
  | .upbit => true
  | _ => false

/-- Order side (types.hpp:55-58). -/
inductive Side
  | buy
  | sell
deriving DecidableEq, Repr

/-- Order status; `new` is the value of a default-constructed order (types.hpp:71-78). -/
inductive OrderStatus
  | new
  | partiallyFilled
  | filled
  | cancelled
  | rejected
  | expired
deriving DecidableEq, Repr

/-- Symbol identifier: two fixed character arrays, of which the last character stays NUL
(types.hpp:81-101). -/
structure SymbolId where
  base : List Char
  quote : List Char
  base_length_le : base.length ≤ 11
  quote_length_le : quote.length ≤ 7
deriving DecidableEq

/-- `SymbolId(b, q)`: over-long parts are cut, as `set_base` and `set_quote` do. -/
def SymbolId.of (b q : String) : SymbolId where
  base := b.toList.take 11
  quote := q.toList.take 7
  base_length_le := by simp
  quote_length_le := by simp

/-- `SymbolId(symbol.get_base(), "USDT")`, the foreign counterpart of a Korean symbol. -/
def SymbolId.foreign (s : SymbolId) : SymbolId where
  base := s.base
  quote := "USDT".toList
  base_length_le := s.base_length_le
  quote_length_le := by decide

/-- `is_usdt_krw`: only the first characters are compared (types.hpp:176-181). -/
def SymbolId.isUsdtKrw (s : SymbolId) : Bool :=
  s.base.take 4 == "USDT".toList && s.quote.take 3 == "KRW".toList

/-- A transfer route: Korean venue, foreign venue and coin. -/
abbrev Route := Exchange × Exchange × List Char

/-- Wall-clock milliseconds of the recorded entry and exit times. -/
abbrev Timestamp := ℕ

/-- An order as the exchange clients return it (types.hpp:239-262). -/
structure Order where
  exchange : Exchange := .bithumb
  side : Side := .buy
  status : OrderStatus := .new
  price : ℚ := 0
  quantity : ℚ := 0
  filledQuantity : ℚ := 0
  averagePrice : ℚ := 0
  /-- Exchange-native id; the fill query is skipped when it is empty. -/
  orderIdStr : String := ""
deriving DecidableEq, Repr

/-- The best bid and ask of one symbol on one venue; `timestamp` in steady-clock
milliseconds. -/
structure Ticker where
  exchange : Exchange
  symbol : SymbolId
  timestamp : UInt64 := 0
  bid : ℚ := 0
  ask : ℚ := 0
  last : ℚ := 0
  bidQty : ℚ := 0
  askQty : ℚ := 0
deriving DecidableEq

/-- A hedged position (types.hpp:212-236). -/
structure Position where
  symbol : SymbolId
  koreanExchange : Exchange
  foreignExchange : Exchange
  entryTime : Timestamp := 0
  entryPremium : ℚ := 0
  koreanEntryPrice : ℚ := 0
  foreignEntryPrice : ℚ := 0
  positionSizeUsd : ℚ := 0
  koreanAmount : ℚ := 0
  foreignAmount : ℚ := 0
  isActive : Bool := false
  exitTime : Timestamp := 0
  exitPremium : ℚ := 0
  koreanExitPrice : ℚ := 0
  foreignExitPrice : ℚ := 0
  realizedPnlKrw : ℚ := 0
deriving DecidableEq

/-- The fields of an entry signal that the order manager reads (types.hpp:265-290). -/
structure ArbitrageSignal where
  symbol : SymbolId
  koreanExchange : Exchange
  foreignExchange : Exchange
  premium : ℚ := 0
  koreanAsk : ℚ := 0
  koreanAskQty : ℚ := 0
  foreignBid : ℚ := 0
  foreignBidQty : ℚ := 0
  usdtKrwRate : ℚ := 0
deriving DecidableEq

/-- The fields of an exit signal that the order manager reads (types.hpp:293-307). -/
structure ExitSignal where
  symbol : SymbolId
  koreanExchange : Exchange
  foreignExchange : Exchange
  premium : ℚ := 0
  koreanBid : ℚ := 0
  foreignAsk : ℚ := 0
  usdtKrwRate : ℚ := 0
deriving DecidableEq

/-! ## Trading constants (types.hpp:310-426) -/

namespace TradingConfig

def targetEntryUsdt : ℚ := 35
def positionSizeUsd : ℚ := 3000
def orderSizeUsd : ℚ := targetEntryUsdt
def entryPremiumThreshold : ℚ := 0
def minNetEdgePct : ℚ := 0
def minEntryNetProfitKrw : ℚ := 600
def koreanFeeEvents : ℚ := 1
def foreignFeeEvents : ℚ := 3
def bithumbFeeRate : ℚ := 4 / 10000
def upbitFeeRate : ℚ := 5 / 10000
def bybitFeeRate : ℚ := 10 / 10000
def okxFeeRate : ℚ := 10 / 10000

def getKoreanFeeRate (ex : Exchange) : ℚ := if ex = .upbit then upbitFeeRate else bithumbFeeRate
def getForeignFeeRate (ex : Exchange) : ℚ := if ex = .okx then okxFeeRate else bybitFeeRate

/-- 0.34 %: one Korean and three foreign fees. -/
def entryTotalFeePct : ℚ :=
  bithumbFeeRate * 100 * koreanFeeEvents + bybitFeeRate * 100 * foreignFeeEvents

def minNetProfitPct : ℚ := 0
def dynamicExitSpread : ℚ := entryTotalFeePct + minNetProfitPct
def exitPremiumThreshold : ℚ := 1 / 4
def minOrderKrw : ℚ := 5000
def hedgeQuantityToleranceRatio : ℚ := 5 / 100000
def maxQuoteAgeMs : UInt64 := 700
def maxQuoteDesyncMs : UInt64 := 350
def maxKoreanSpreadPct : ℚ := 12 / 10
def maxForeignSpreadPct : ℚ := 4 / 10
def maxQuoteAgeMsExit : UInt64 := 8000
def maxQuoteDesyncMsExit : UInt64 := 5000
def maxKoreanSpreadPctExit : ℚ := 35 / 10
def maxForeignSpreadPctExit : ℚ := 15 / 10
def maxUsdtJumpPct : ℚ := 15 / 10
def usdtFullScanDebounceMs : UInt64 := 40
def entryFastScanCooldownMs : UInt64 := 20

/-- `meets_entry_profit_floor`. -/
def meetsEntryProfitFloor (netProfitKrw : ℚ) : Bool := decide (minEntryNetProfitKrw ≤ netProfitKrw)

/-- `entry_gate_passes` (types.hpp:389-397). -/
def entryGatePasses (bothCanFillTarget : Bool) (matchQty netEdgePct netProfitKrw : ℚ) : Bool :=
  bothCanFillTarget && decide (0 < matchQty) && decide (minNetEdgePct < netEdgePct) &&
    meetsEntryProfitFloor netProfitKrw

end TradingConfig

/-- The number of loops that may run at once, `TradingConfig::MAX_POSITIONS`. -/
structure MaxPositions where
  val : ℕ
  one_le : 1 ≤ val
  le_four : val ≤ 4
deriving DecidableEq

/-- The value before the prompt (types.hpp:350). -/
def MaxPositions.initial : MaxPositions := ⟨1, le_rfl, by omega⟩

/-- The answer to the start-up prompt: a number from 1 to 4 is taken over, anything else keeps
the current value (main.cpp:1858-1876). -/
def MaxPositions.configure (current : MaxPositions) (answer : Option ℤ) : MaxPositions :=
  match answer with
  | some val => if h : 1 ≤ val ∧ val ≤ 4 then ⟨val.toNat, by omega, by omega⟩ else current
  | none => current

end SpotRelay.Model
