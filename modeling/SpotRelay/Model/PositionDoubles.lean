import SpotRelay.Library.FlatJson
import SpotRelay.Model.PositionFile

/-!
# The position file in doubles

`save_active_position` and `load_active_position` (main.cpp:222-322) once more, with the numbers as
the source has them.  A `double` has two zeros and is printed with its sign, so a small loss shows
as `-0.00`; the entry time is a time point in nanoseconds of which milliseconds are stored.  `fmt`
and `simdjson` are parameters; `simdjson` gives the fields of the file's one object.
-/

set_option autoImplicit false

namespace SpotRelay.Model

open SpotRelay.Library

/-- A finite `double`. -/
structure FiniteDouble where
  negative : Bool
  magnitude : ℚ
  nonneg : 0 ≤ magnitude
deriving DecidableEq

namespace FiniteDouble

/-- The number, the same for both zeros. -/
def value (x : FiniteDouble) : ℚ := if x.negative then -x.magnitude else x.magnitude

/-- The double of a number; of the two zeros it is the positive one. -/
def ofRat (x : ℚ) : FiniteDouble := ⟨decide (x < 0), |x|, abs_nonneg x⟩

end FiniteDouble

/-- How `fmt` prints doubles and integers: `{:.nf}` and `{}`. -/
structure DoubleFormat where
  fixed : ℕ → FiniteDouble → List Char
  integer : ℤ → List Char

/-- The same printing of numbers with one zero. -/
def DoubleFormat.unsigned (fmt : DoubleFormat) : NumberFormat where
  fixed places x := fmt.fixed places (.ofRat x)
  integer := fmt.integer

/-- The trimming of `format_decimal_trimmed` (price_format.hpp:20-31). -/
def trimDecimal (text : List Char) : List Char :=
  let out := text.reverse.dropWhile (· = '0')
  let out := if out.head? = some '.' then out.tail.reverse else out.reverse
  if out = [] ∨ out = "-0".toList then "0".toList else out

namespace Signed

/-- The fields of a position that are stored. -/
structure Position where
  symbol : SymbolId
  koreanExchange : Exchange
  foreignExchange : Exchange
  /-- Nanoseconds since the epoch. -/
  entryTime : ℤ
  entryPremium : FiniteDouble
  positionSizeUsd : FiniteDouble
  koreanAmount : FiniteDouble
  foreignAmount : FiniteDouble
  koreanEntryPrice : FiniteDouble
  foreignEntryPrice : FiniteDouble
  realizedPnlKrw : FiniteDouble
  isActive : Bool
deriving DecidableEq

/-- The stored fields of a position whose numbers have one zero. -/
def Position.ofPosition (pos : Model.Position) : Position where
  symbol := pos.symbol
  koreanExchange := pos.koreanExchange
  foreignExchange := pos.foreignExchange
  entryTime := (pos.entryTime : ℤ) * 1000000
  entryPremium := .ofRat pos.entryPremium
  positionSizeUsd := .ofRat pos.positionSizeUsd
  koreanAmount := .ofRat pos.koreanAmount
  foreignAmount := .ofRat pos.foreignAmount
  koreanEntryPrice := .ofRat pos.koreanEntryPrice
  foreignEntryPrice := .ofRat pos.foreignEntryPrice
  realizedPnlKrw := .ofRat pos.realizedPnlKrw
  isActive := pos.isActive

/-- `duration_cast<milliseconds>`: the cast truncates. -/
def Position.entryMs (pos : Position) : ℤ := pos.entryTime.tdiv 1000000

/-- The text of `save_active_position` (main.cpp:229-256). -/
def positionText (fmt : DoubleFormat) (pos : Position) : List Char :=
  "\x7b\n  \"symbol_base\": \"".toList ++ pos.symbol.base ++
  "\",\n  \"symbol_quote\": \"".toList ++ pos.symbol.quote ++
  "\",\n  \"korean_exchange\": ".toList ++ fmt.integer pos.koreanExchange.code ++
  ",\n  \"foreign_exchange\": ".toList ++ fmt.integer pos.foreignExchange.code ++
  ",\n  \"entry_time_ms\": ".toList ++ fmt.integer pos.entryMs ++
  ",\n  \"entry_premium\": ".toList ++ fmt.fixed 6 pos.entryPremium ++
  ",\n  \"position_size_usd\": ".toList ++ fmt.fixed 2 pos.positionSizeUsd ++
  ",\n  \"korean_amount\": ".toList ++ fmt.fixed 8 pos.koreanAmount ++
  ",\n  \"foreign_amount\": ".toList ++ fmt.fixed 8 pos.foreignAmount ++
  ",\n  \"korean_entry_price\": ".toList ++ trimDecimal (fmt.fixed 8 pos.koreanEntryPrice) ++
  ",\n  \"foreign_entry_price\": ".toList ++ fmt.fixed 8 pos.foreignEntryPrice ++
  ",\n  \"realized_pnl_krw\": ".toList ++ fmt.fixed 2 pos.realizedPnlKrw ++
  ",\n  \"is_active\": true\n\x7d".toList

/-- `std::string_view(element)`. -/
def asString : FlatJson.Scalar → Option (List Char)
  | .string chars => some chars
  | _ => none

/-- `int64_t(element)`: only what is written without a fraction is an integer. -/
def asInteger : FlatJson.Scalar → Option ℤ
  | .number n => if n.fraction = [] then some n.integer else none
  | _ => none

/-- The magnitude of a numeral is not negative. -/
theorem magnitude_nonneg (n : FlatJson.Numeral) : 0 ≤ n.magnitude :=
  add_nonneg (Nat.cast_nonneg _) (div_nonneg (Nat.cast_nonneg _) (pow_nonneg (by decide) _))

/-- `double(element)`: a number with a fraction keeps the sign of a zero, an integer has none. -/
def asDouble : FlatJson.Scalar → Option FiniteDouble
  | .number n =>
    if n.fraction = [] then some (.ofRat n.integer)
    else some ⟨n.negative, n.magnitude, magnitude_nonneg n⟩
  | _ => none

/-- `doc[key]`. -/
def field (doc : FlatJson.Object) (key : String) : Option FlatJson.Scalar := doc.lookup key.toList

/-- The fields of `load_active_position` (main.cpp:286-317). -/
def readPosition (doc : FlatJson.Object) : Option Position := do
  let base ← (field doc "symbol_base").bind asString
  let quote ← (field doc "symbol_quote").bind asString
  let korean ← ((field doc "korean_exchange").bind asInteger).bind Exchange.ofCode
  let foreign ← ((field doc "foreign_exchange").bind asInteger).bind Exchange.ofCode
  let entryMs ← (field doc "entry_time_ms").bind asInteger
  let entryPremium ← (field doc "entry_premium").bind asDouble
  let positionSizeUsd ← (field doc "position_size_usd").bind asDouble
  let koreanAmount ← (field doc "korean_amount").bind asDouble
  let foreignAmount ← (field doc "foreign_amount").bind asDouble
  let koreanEntryPrice ← (field doc "korean_entry_price").bind asDouble
  let foreignEntryPrice ← (field doc "foreign_entry_price").bind asDouble
  let realizedPnlKrw ← match field doc "realized_pnl_krw" with
    | some pnl => asDouble pnl
    | none => some (.ofRat 0)
  return {
    symbol := SymbolId.of (String.ofList base) (String.ofList quote)
    koreanExchange := korean
    foreignExchange := foreign
    entryTime := entryMs * 1000000
    entryPremium := entryPremium
    positionSizeUsd := positionSizeUsd
    koreanAmount := koreanAmount
    foreignAmount := foreignAmount
    koreanEntryPrice := koreanEntryPrice
    foreignEntryPrice := foreignEntryPrice
    realizedPnlKrw := realizedPnlKrw
    isActive := true }

/-- A save whose file operations all succeed: the temporary file is written and renamed. -/
def saveActivePosition (fmt : DoubleFormat) (pos : Position) (disk : Disk) : Disk :=
  let opened := disk.openTrunc .tmp
  (opened.1.write opened.2 (positionText fmt pos)).rename .tmp .activePosition

/-- `load_active_position`; `parse` is `simdjson`'s parser. -/
def loadActivePosition (parse : List Char → Option FlatJson.Object) (disk : Disk) :
    Option Position :=
  ((disk.read .activePosition).bind parse).bind readPosition

end Signed

end SpotRelay.Model
