import SpotRelay.Library.CharArray
import SpotRelay.Model.BithumbMessages

/-!
# Symbols and their market codes

`SymbolId` with the arrays that it is made of, and the market codes of the two Korean venues
(types.hpp:81-154).
-/

set_option autoImplicit false

namespace SpotRelay.Model

open SpotRelay.Library

/-- `SymbolId`: `std::array<char, 12>` and `std::array<char, 8>`. -/
structure SymbolArrays where
  base : CharArray 11 := default
  quote : CharArray 7 := default
deriving DecidableEq

namespace SymbolArrays

/-- `set_base`. -/
def setBase (id : SymbolArrays) (b : List Char) : SymbolArrays := { id with base := .copy 11 b }

/-- `set_quote`. -/
def setQuote (id : SymbolArrays) (q : List Char) : SymbolArrays := { id with quote := .copy 7 q }

/-- `get_base`. -/
def getBase (id : SymbolArrays) : List Char := id.base.text

/-- `get_quote`. -/
def getQuote (id : SymbolArrays) : List Char := id.quote.text

/-- `to_bithumb_format`. -/
def toBithumbFormat (id : SymbolArrays) : List Char := id.getBase ++ '_' :: id.getQuote

/-- `from_bithumb_format`. -/
def fromBithumbFormat (sv : List Char) : SymbolArrays :=
  match splitAtFirst '_' sv with
  | some (base, quote) => (setBase {} base).setQuote quote
  | none => {}

/-- `to_upbit_format`. -/
def toUpbitFormat (id : SymbolArrays) : List Char := id.getQuote ++ '-' :: id.getBase

/-- `from_upbit_format`. -/
def fromUpbitFormat (sv : List Char) : SymbolArrays :=
  match splitAtFirst '-' sv with
  | some (quote, base) => (setQuote {} quote).setBase base
  | none => {}

/-- The symbol without its padding. -/
def toSymbolId (id : SymbolArrays) : SymbolId where
  base := id.getBase
  quote := id.getQuote
  base_length_le := id.base.length_text_le
  quote_length_le := id.quote.length_text_le

end SymbolArrays

end SpotRelay.Model
