import SpotRelay.Library.JsonString
import SpotRelay.Model.BybitTicker

/-!
# The order book messages of Bybit

The compact serialisation in which the venue sends the best bid and ask of a symbol, and the
document that it stands for.  The symbols are any strings, escaped as JSON asks for.
-/

set_option autoImplicit false

namespace SpotRelay.Interface

open SpotRelay.Library.MarkerSearch (keyMarker)
open SpotRelay.Library.JsonString
open SpotRelay.Model

/-! ## Messages -/

/-- The text of a price or size. -/
structure NumberText where
  chars : List Char
  plain : ∀ c ∈ chars, PlainChar c
deriving DecidableEq

/-- A row of one side of the book. -/
structure BookRow where
  price : NumberText
  size : NumberText
deriving DecidableEq

/-- An `orderbook.1` message. -/
structure OrderbookMessage where
  /-- The symbol in the topic. -/
  topicSymbol : List Char
  type : List Char
  ts : ℕ
  /-- The time stamp stands before the type. -/
  tsFirst : Bool
  symbol : List Char
  bids : List BookRow
  asks : List BookRow
  u : ℕ
  seq : ℕ
  /-- The time of the matching engine, where the venue gives it. -/
  cts : Option ℕ
deriving DecidableEq

namespace BookRow

/-- `["price","size"]` and what follows it. -/
def text (row : BookRow) (rest : List Char) : List Char :=
  '[' :: quoted row.price.chars (',' :: quoted row.size.chars (']' :: rest))

def json (row : BookRow) : Json := .array [.string row.price.chars, .string row.size.chars]

end BookRow

/-- The rows after the first one. -/
def moreRows : List BookRow → List Char → List Char
  | [], rest => ']' :: rest
  | row :: rows, rest => ',' :: row.text (moreRows rows rest)

/-- A list of rows and what follows it. -/
def rowsText : List BookRow → List Char → List Char
  | [], rest => '[' :: ']' :: rest
  | row :: rows, rest => '[' :: row.text (moreRows rows rest)

namespace OrderbookMessage

/-- The topic of the order books. -/
def topicName : List Char := "orderbook.1.".toList

/-- A number and what follows it. -/
def number (n : ℕ) (rest : List Char) : List Char := Nat.toDigits 10 n ++ rest

/-- Type and time stamp, in either order. -/
def headerText (m : OrderbookMessage) (rest : List Char) : List Char :=
  if m.tsFirst then
    keyMarker "ts".toList (number m.ts
      (',' :: keyMarker "type".toList (quoted m.type rest)))
  else
    keyMarker "type".toList (quoted m.type
      (',' :: keyMarker "ts".toList (number m.ts rest)))

/-- The rest of the message behind its data. -/
def endText (m : OrderbookMessage) : List Char :=
  match m.cts with
  | some cts => ',' :: keyMarker "cts".toList (number cts ['}'])
  | none => ['}']

/-- The data behind their symbol. -/
def bookText (m : OrderbookMessage) : List Char :=
  ',' :: keyMarker "b".toList (rowsText m.bids
    (',' :: keyMarker "a".toList (rowsText m.asks
      (',' :: keyMarker "u".toList (number m.u
        (',' :: keyMarker "seq".toList (number m.seq ('}' :: m.endText))))))))

/-- The message behind its topic. -/
def dataText (m : OrderbookMessage) : List Char :=
  ',' :: m.headerText
    (',' :: keyMarker "data".toList ('{' :: keyMarker "s".toList (quoted m.symbol m.bookText)))

def text (m : OrderbookMessage) : List Char :=
  '{' :: keyMarker "topic".toList (quoted (topicName ++ m.topicSymbol) m.dataText)

def dataJson (m : OrderbookMessage) : Json :=
  .object [("s".toList, .string m.symbol),
    ("b".toList, .array (m.bids.map BookRow.json)),
    ("a".toList, .array (m.asks.map BookRow.json)),
    ("u".toList, .number m.u), ("seq".toList, .number m.seq)]

/-- What the text says. -/
def json (m : OrderbookMessage) : Json :=
  let type := ("type".toList, Json.string m.type)
  let ts := ("ts".toList, Json.number m.ts)
  .object ([("topic".toList, Json.string (topicName ++ m.topicSymbol))] ++
    (if m.tsFirst then [ts, type] else [type, ts]) ++
    [("data".toList, m.dataJson)] ++
    (m.cts.map fun cts => ("cts".toList, Json.number cts)).toList)

end OrderbookMessage

end SpotRelay.Interface
