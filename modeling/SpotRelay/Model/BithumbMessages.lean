import SpotRelay.Model.Types
import Mathlib.Data.List.Basic

/-!
# The messages of the Bithumb feed

The two textual scanners of bithumb.cpp (`parse_ticker_fast`, `parse_orderbookdepth_fast`) and
what simdjson reads where they give up.  Simdjson is a parameter: a document is the list of what
each access of the code finds, `none` where the access throws.
-/

set_option autoImplicit false

namespace SpotRelay.Model

/-! ## Numbers and symbols -/

/-- The value of a run of decimal digits. -/
def decimalDigits (digits : List Char) : ℕ :=
  digits.foldl (fun n c => 10 * n + (c.toNat - '0'.toNat)) 0

/-- The exponent part of a number, 0 where there is none. -/
def decimalExponent (sv : List Char) : ℤ :=
  match sv with
  | c :: rest =>
    if c = 'e' ∨ c = 'E' then
      match rest with
      | '-' :: digits => -(decimalDigits (digits.takeWhile Char.isDigit) : ℤ)
      | '+' :: digits => decimalDigits (digits.takeWhile Char.isDigit)
      | digits => decimalDigits (digits.takeWhile Char.isDigit)
    else 0
  | [] => 0

/-- A number without its sign; 0 where no digit is found. -/
def unsignedDecimal (sv : List Char) : ℚ :=
  let whole := sv.takeWhile Char.isDigit
  let afterWhole := sv.dropWhile Char.isDigit
  let fraction :=
    match afterWhole with
    | '.' :: rest => rest.takeWhile Char.isDigit
    | _ => []
  let afterFraction :=
    match afterWhole with
    | '.' :: rest => rest.dropWhile Char.isDigit
    | _ => afterWhole
  if whole ++ fraction = [] then 0
  else
    (decimalDigits (whole ++ fraction) : ℚ) *
      (10 : ℚ) ^ (decimalExponent afterFraction - (fraction.length : ℤ))

/-- `fast_stod` (optimization.hpp:164-182): `std::from_chars` with the default 0.  Numbers out of
the range of a `double`, infinities and NaN are not modelled. -/
def fastStod : List Char → ℚ
  | '-' :: sv => -unsignedDecimal sv
  | sv => unsignedDecimal sv

/-- `SymbolId(b, q)` of two pieces of text. -/
def SymbolId.ofChars (b q : List Char) : SymbolId where
  base := b.take 11
  quote := q.take 7
  base_length_le := by simp
  quote_length_le := by simp

/-- `SymbolId::from_bithumb_format`: without a separator the symbol stays empty
(types.hpp:121-129). -/
def SymbolId.fromBithumbFormat (sv : List Char) : SymbolId :=
  match sv.dropWhile (· ≠ '_') with
  | _ :: quote => .ofChars (sv.takeWhile (· ≠ '_')) quote
  | [] => .ofChars [] []

/-- `get_base() == "USDT"`. -/
def SymbolId.baseIsUsdt (s : SymbolId) : Bool := s.base == "USDT".toList

/-! ## Textual scanners (bithumb.cpp:24-44, 82-182) -/

/-- The text after the first occurrence of `marker`. -/
def findAfter (marker : List Char) : List Char → Option (List Char)
  | [] => none
  | c :: cs =>
    if marker.isPrefixOf (c :: cs) then some ((c :: cs).drop marker.length)
    else findAfter marker cs

/-- `extract_quoted_value`: the value after the marker and the text from its closing quote on. -/
def extractQuotedValue (source marker : List Char) : Option (List Char × List Char) :=
  match findAfter marker source with
  | none => none
  | some content =>
    match content.dropWhile (· ≠ '"') with
    | [] => none
    | rest => some (content.takeWhile (· ≠ '"'), rest)

/-- What a ticker message says. -/
structure ParsedTicker where
  symbol : SymbolId
  last : ℚ
deriving DecidableEq

def parseTickerFast (message : List Char) : Option ParsedTicker :=
  match findAfter "\"type\":\"ticker\"".toList message with
  | none => none
  | some _ =>
    match extractQuotedValue message "\"symbol\":\"".toList with
    | none => none
    | some (symbolSv, afterSymbol) =>
      match extractQuotedValue afterSymbol "\"closePrice\":\"".toList with
      | none => none
      | some (closeSv, _) =>
        let ticker : ParsedTicker := ⟨.fromBithumbFormat symbolSv, fastStod closeSv⟩
        if '_' ∈ symbolSv ∧ 0 < ticker.last then some ticker else none

structure FastBithumbDepthUpdate where
  symbol : SymbolId
  isBid : Bool
  price : ℚ
  quantity : ℚ
deriving DecidableEq

/-- The objects of a list, each from its brace to the next closing one, and whether the last one
is closed; `opened` is the object that the scan is in. -/
def scanObjects : Option (List Char) → List Char → List (List Char) × Bool
  | none, [] => ([], true)
  | some _, [] => ([], false)
  | none, c :: cs => if c = '{' then scanObjects (some [c]) cs else scanObjects none cs
  | some opened, c :: cs =>
    if c = '}' then
      let (objects, closed) := scanObjects none cs
      ((opened ++ [c]) :: objects, closed)
    else scanObjects (some (opened ++ [c])) cs

/-- One object of the list: `some none` where it is skipped for want of a symbol, `none` where
the whole message is given up. -/
def parseDepthObject (item : List Char) : Option (Option FastBithumbDepthUpdate) :=
  match extractQuotedValue item "\"symbol\":\"".toList with
  | none => some none
  | some (symbolSv, afterSymbol) => do
    let (orderTypeSv, afterType) ← extractQuotedValue afterSymbol "\"orderType\":\"".toList
    let (priceSv, afterPrice) ← extractQuotedValue afterType "\"price\":\"".toList
    let (quantitySv, _) ← extractQuotedValue afterPrice "\"quantity\":\"".toList
    return some
      { symbol := .fromBithumbFormat symbolSv
        isBid := orderTypeSv == "bid".toList
        price := fastStod priceSv
        quantity := fastStod quantitySv }

/-- `parse_orderbookdepth_fast`; `none` is the answer `false`. -/
def parseOrderbookdepthFast (message : List Char) : Option (List FastBithumbDepthUpdate) :=
  match findAfter "\"type\":\"orderbookdepth\"".toList message,
      findAfter "\"list\":[".toList message with
  | some _, some list =>
    let (objects, closed) := scanObjects none list
    match objects.mapM parseDepthObject with
    | some updates => if closed ∧ updates.reduceOption ≠ [] then some updates.reduceOption else none
    | none => none
  | _, _ => none

/-! ## What simdjson reads -/

/-- The elements of an array or object; an incomplete one throws after the last of them. -/
structure Elements (α : Type) where
  items : List α
  complete : Bool
deriving DecidableEq

/-- An element of the `list` of a depth message. -/
structure DepthItem where
  symbol : Option (List Char)
  orderType : Option (List Char)
  price : Option (List Char)
  quantity : Option (List Char)
deriving DecidableEq

structure DepthDocument where
  type : Option (List Char)
  list : Elements DepthItem
deriving DecidableEq

structure TickerDocument where
  type : Option (List Char)
  symbol : Option (List Char)
  closePrice : Option (List Char)
deriving DecidableEq

/-- A level of a snapshot. -/
structure SnapshotLevel where
  price : Option (List Char)
  quantity : Option (List Char)
deriving DecidableEq

/-- One side of a snapshot: the code passes over a side that the lookup does not find, be it
absent from a sound item or out of reach in a damaged one. -/
inductive SnapshotSide
  | absent
  | damaged
  | levels (array : Elements SnapshotLevel)
deriving DecidableEq

/-- A field of the `data` of a snapshot. -/
structure SnapshotItem where
  key : Option (List Char)
  bids : SnapshotSide
  asks : SnapshotSide
deriving DecidableEq

structure SnapshotDocument where
  status : Option (List Char)
  data : Elements SnapshotItem

/-- What simdjson reads from the three kinds of text. -/
structure Simdjson where
  depth : List Char → DepthDocument
  ticker : List Char → TickerDocument
  snapshots : List Char → SnapshotDocument

end SpotRelay.Model
