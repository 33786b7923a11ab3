import SpotRelay.Library.DecimalText
import SpotRelay.Model.BithumbMessages
import SpotRelay.Model.Clients

/-!
# The texts of the Upbit orders

`format_upbit_number` and the two requests of `UpbitExchange` that carry an amount: the query
that is signed and the JSON body that is posted.
-/

set_option autoImplicit false

namespace SpotRelay.Model

open SpotRelay.Library.DecimalText

/-- `format_upbit_number`: the fixed decimals of a stream, without trailing zeros and without a
point at the end (upbit.cpp:53-67). -/
def formatUpbitNumber (value : ℚ) (precision : ℕ := 16) : List Char :=
  let out := (if value < 0 then ['-'] else []) ++ fixedText precision |value|
  let out := trimZeros out
  let out := if out.getLast? = some '.' then out.dropLast else out
  if out = [] then ['0'] else out

/-- `symbol_to_upbit` (upbit.hpp:94-96). -/
def symbolToUpbit (symbol : SymbolId) : List Char := symbol.quote ++ '-' :: symbol.base

/-- The query that an order is signed with, and the body that is posted. -/
structure UpbitOrderTexts where
  query : List Char
  body : List Char
deriving DecidableEq, Repr

/-- The texts of a market sale of `volume` (upbit.cpp:703-708). -/
def marketSellTexts (symbol : SymbolId) (volume : List Char) : UpbitOrderTexts where
  query := "market=".toList ++ symbolToUpbit symbol ++
    "&side=ask&ord_type=market&volume=".toList ++ volume
  body := "\x7b\"market\":\"".toList ++ symbolToUpbit symbol ++
    "\",\"side\":\"ask\",\"ord_type\":\"market\",\"volume\":\"".toList ++ volume ++ "\"\x7d".toList

/-- The texts of a market buy for `price` (upbit.cpp:764-769). -/
def marketBuyCostTexts (symbol : SymbolId) (price : List Char) : UpbitOrderTexts where
  query := "market=".toList ++ symbolToUpbit symbol ++
    "&side=bid&ord_type=price&price=".toList ++ price
  body := "\x7b\"market\":\"".toList ++ symbolToUpbit symbol ++
    "\",\"side\":\"bid\",\"ord_type\":\"price\",\"price\":\"".toList ++ price ++ "\"\x7d".toList

/-- What `place_market_order` sends for a sale, `none` when it refuses (upbit.cpp:671-708). -/
def upbitMarketSell (credentialsSet : Bool) (symbol : SymbolId) (quantity : ℚ) :
    Option UpbitOrderTexts :=
  if quantity ≤ 0 ∨ credentialsSet = false then none
  else some (marketSellTexts symbol (formatUpbitNumber quantity))

/-- What `place_market_buy_cost` sends, `none` when it refuses (upbit.cpp:737-769). -/
def upbitMarketBuyCost (credentialsSet : Bool) (symbol : SymbolId) (cost : ℚ) :
    Option UpbitOrderTexts :=
  let normalizedCost : ℚ := ⌊cost⌋
  if normalizedCost < TradingConfig.minOrderKrw ∨ credentialsSet = false then none
  else some (marketBuyCostTexts symbol (formatUpbitNumber normalizedCost 0))

/-- A sale is sent exactly when its texts are. -/
theorem upbitPlaceMarketSell_sent (r : KoreanReply) (symbol : SymbolId) (quantity : ℚ) :
    (upbitPlaceMarketSell r quantity).trades ≠ [] ↔
      (upbitMarketSell r.credentialsSet symbol quantity).isSome = true := by
  unfold upbitPlaceMarketSell upbitMarketSell
  split_ifs <;> simp

/-- A buy is sent exactly when its texts are. -/
theorem upbitPlaceMarketBuyCost_sent (r : KoreanReply) (symbol : SymbolId) (cost : ℚ) :
    (upbitPlaceMarketBuyCost r cost).trades ≠ [] ↔
      (upbitMarketBuyCost r.credentialsSet symbol cost).isSome = true := by
  unfold upbitPlaceMarketBuyCost upbitMarketBuyCost
  dsimp only
  split_ifs <;> simp

end SpotRelay.Model
