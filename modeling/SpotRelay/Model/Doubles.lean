import SpotRelay.Library.BinaryFloat
import SpotRelay.Model.Types

/-!
# The arithmetic of the source

A `double` is a number of the `binary64` format, and every operation on doubles rounds its result.
Infinities and NaN are left out, as are the values they come from; the two zeros are one number.
The order manager's decisions that turn on the last bit of a result are modelled with these numbers
(the exit loop in `ExitDoubles`, the size of an entry in `EntryDoubles`); elsewhere the rationals
stand for the doubles.
-/

set_option autoImplicit false

namespace SpotRelay.Model

open SpotRelay.Library.BinaryFloat
open SpotRelay.Library.BinaryFloat.BinaryFormat

/-- The source's `double`. -/
abbrev Binary64 : Type := binary64.Number

namespace Doubles

/-- A literal of the source. -/
def literal (x : ℚ) : Binary64 := Number.ofRat x

/-- `a / b`, which fails on a zero divisor. -/
def checkedDiv (a b : Binary64) : Option Binary64 := if b = 0 then none else some (a / b)

/-! ## Constants -/

/-- `ENTRY_TOTAL_FEE_PCT` (types.hpp:381-384). -/
def entryTotalFeePct : Binary64 :=
  literal TradingConfig.bithumbFeeRate * literal 100 * literal TradingConfig.koreanFeeEvents +
    literal TradingConfig.bybitFeeRate * literal 100 * literal TradingConfig.foreignFeeEvents

/-- `DYNAMIC_EXIT_SPREAD`. -/
def dynamicExitSpread : Binary64 := entryTotalFeePct + literal TradingConfig.minNetProfitPct

/-- `EXIT_PREMIUM_THRESHOLD`. -/
def exitPremiumThreshold : Binary64 := literal TradingConfig.exitPremiumThreshold

/-- `ENTRY_PREMIUM_THRESHOLD`. -/
def entryPremiumThreshold : Binary64 := literal TradingConfig.entryPremiumThreshold

/-- `ORDER_SIZE_USD`. -/
def orderSizeUsd : Binary64 := literal TradingConfig.orderSizeUsd

/-- `MIN_ORDER_KRW`. -/
def minOrderKrw : Binary64 := literal TradingConfig.minOrderKrw

/-! ## Orders -/

/-- An order as a client returns it, `filled` for the status `Filled`. -/
structure Order where
  filled : Bool := false
  quantity : Binary64 := 0
  filledQuantity : Binary64 := 0
  averagePrice : Binary64 := 0
deriving DecidableEq

end Doubles

end SpotRelay.Model
