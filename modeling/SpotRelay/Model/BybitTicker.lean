import SpotRelay.Model.BithumbMessages

/-!
# The tickers of the Bybit feed

`parse_orderbook_fast` of bybit.cpp, which looks for markers in the text of an order book message,
and `parse_ticker_message`, which reads the document where the scanner gives up.  Simdjson is a
parameter: the document of a text, `none` where it does not parse.  A character is a byte of the
text.
-/

set_option autoImplicit false

namespace SpotRelay.Model

/-! ## Documents -/

/-- An element of a simdjson document. -/
inductive Json
  | null
  | boolean (value : Bool)
  | number (value : ℚ)
  | string (chars : List Char)
  | array (elements : List Json)
  | object (fields : List (List Char × Json))

namespace Json

/-- `element["key"]`: the first field of that name. -/
def field (key : String) : Json → Option Json
  | object fields => (fields.find? fun f => f.1 == key.toList).map Prod.snd
  | _ => none

/-- `get_c_str`, read up to its first NUL. -/
def cStr : Json → Option (List Char)
  | string chars => some (chars.takeWhile (· ≠ '\x00'))
  | _ => none

def getArray : Json → Option (List Json)
  | array elements => some elements
  | _ => none

end Json

namespace Bybit

/-! ## Parsers of a ticker -/

/-- A parser that fills in a ticker; where it fails, what it has written stays. -/
abbrev TickerParser := OptionT (StateM Ticker)

/-- What an access of the code finds; it throws or gives up on `none`. -/
def found {α : Type} (value : Option α) : TickerParser α := OptionT.mk (pure value)

/-- What a parser makes of a ticker: `none` where it answers `false`. -/
def TickerParser.ticker (parser : TickerParser Unit) (before : Ticker) : Option Ticker :=
  match StateT.run (OptionT.run parser) before with
  | (some _, after) => some after
  | (none, _) => none

namespace TickerParser

variable {α : Type} (before : Ticker)

/-- A missing field ends the parse, a present one is passed on. -/
@[simp] theorem ticker_found_bind (value : Option α) (next : α → TickerParser Unit) :
    (found value >>= next).ticker before = value.bind fun a => (next a).ticker before := by
  cases value <;> rfl

/-- A stored field is there for the rest of the parse. -/
@[simp] theorem ticker_modify_bind (f : Ticker → Ticker) (next : PUnit → TickerParser Unit) :
    ((modify f : TickerParser PUnit) >>= next).ticker before = (next ⟨⟩).ticker (f before) := rfl

/-- The ticker read so far is passed on. -/
@[simp] theorem ticker_get_bind (next : Ticker → TickerParser Unit) :
    ((get : TickerParser Ticker) >>= next).ticker before = (next before).ticker before := rfl

/-- A guard ends the parse where it fails. -/
@[simp] theorem ticker_guard (p : Prop) [Decidable p] :
    (guard p : TickerParser Unit).ticker before = if p then some before else none := by
  by_cases h : p
  · rw [guard, if_pos h, if_pos h]
    rfl
  · rw [guard, if_neg h, if_neg h]
    rfl

/-- Behind a guard the parse goes on only where it holds. -/
@[simp] theorem ticker_guard_bind (p : Prop) [Decidable p] (next : Unit → TickerParser Unit) :
    ((guard p : TickerParser Unit) >>= next).ticker before =
      if p then (next ()).ticker before else none := by
  by_cases h : p
  · rw [guard, if_pos h, if_pos h]
    rfl
  · rw [guard, if_neg h, if_neg h]
    rfl

/-- A parser and a change of its ticker. -/
theorem ticker_bind_modify (parser : TickerParser Unit) (f : Ticker → Ticker) :
    (do parser; modify f : TickerParser Unit).ticker before = (parser.ticker before).map f := by
  simp only [ticker, OptionT.run_bind, Option.elimM, StateT.run_bind]
  rcases parser.run.run before with ⟨_ | a, after⟩ <;> rfl

/-- A second parser goes on with what the first one has written. -/
theorem ticker_orElse (first second : TickerParser Unit) :
    (first <|> second).ticker before =
      (first.ticker before).or (second.ticker (first.run.run before).2) := by
  simp only [ticker, OptionT.run_orElse, Option.elimM, StateT.run_bind]
  rcases first.run.run before with ⟨_ | a, after⟩ <;> rfl

end TickerParser

/-! ## The scanner (bybit.cpp:18-99) -/

def parseQuotedDoublePair (message marker : List Char) : Option (ℚ × ℚ) := do
  let (first, fromFirstEnd) ← extractQuotedValue message marker
  let (second, _) ← extractQuotedValue fromFirstEnd "\",\"".toList
  return (fastStod first, fastStod second)

/-- The topic's symbol, where the message is of an order book in USDT whose data do not name
another symbol. -/
def topicSymbol (message : List Char) : Option (List Char) := do
  let (topicSymbol, fromSymbolEnd) ←
    extractQuotedValue message "\"topic\":\"orderbook.1.".toList
  guard (4 < topicSymbol.length ∧ "USDT".toList <:+ topicSymbol)
  if (findAfter "\"s\":\"".toList fromSymbolEnd).isSome then
    let (dataSymbol, _) ← extractQuotedValue fromSymbolEnd "\"s\":\"".toList
    guard (dataSymbol = topicSymbol)
  return topicSymbol

/-- `SymbolId(symbol.substr(0, symbol.size() - 4), "USDT")`. -/
def usdtSymbol (symbol : List Char) : SymbolId :=
  .ofChars (symbol.take (symbol.length - 4)) "USDT".toList

def parseOrderbookFast (now : UInt64) (message : List Char) : TickerParser Unit := do
  let topicSymbol ← found (topicSymbol message)
  let (bid, bidQty) ← found (parseQuotedDoublePair message "\"b\":[[\"".toList)
  let (ask, askQty) ← found (parseQuotedDoublePair message "\"a\":[[\"".toList)
  modify fun ticker =>
    { ticker with
      exchange := .bybit
      timestamp := now
      symbol := usdtSymbol topicSymbol
      bid, bidQty, ask, askQty }
  guard (0 < bid ∧ 0 < ask)

/-! ## The document (bybit.cpp:1035-1130) -/

/-- `ticker.last`: the cached last price, or else the middle of the quotes. -/
def withLast (cached : SymbolId → Option Ticker) (ticker : Ticker) : Ticker :=
  { ticker with
    last :=
      match cached ticker.symbol with
      | some known => if 0 < known.last then known.last else (ticker.bid + ticker.ask) * (1 / 2)
      | none => (ticker.bid + ticker.ask) * (1 / 2) }

/-- A message of a `tickers.` topic. -/
def readTicker (data : Json) : TickerParser Unit := do
  let symbolStr ← found ((data.field "symbol").bind Json.cStr)
  if 4 < symbolStr.length then
    modify fun ticker => { ticker with symbol := usdtSymbol symbolStr }
  let last ← found ((data.field "lastPrice").bind Json.cStr)
  modify fun ticker => { ticker with last := fastStod last }
  let bid ← found ((data.field "bid1Price").bind Json.cStr)
  modify fun ticker => { ticker with bid := fastStod bid }
  if let some bidQty := data.field "bid1Size" then
    let bidQty ← found bidQty.cStr
    modify fun ticker => { ticker with bidQty := fastStod bidQty }
  let ask ← found ((data.field "ask1Price").bind Json.cStr)
  modify fun ticker => { ticker with ask := fastStod ask }
  if let some askQty := data.field "ask1Size" then
    let askQty ← found askQty.cStr
    modify fun ticker => { ticker with askQty := fastStod askQty }
  let ticker ← get
  guard (0 < ticker.last ∧ 0 < ticker.bid ∧ 0 < ticker.ask)

/-- A message of an `orderbook.1.` topic. -/
def readOrderbook (cached : SymbolId → Option Ticker) (data : Json) : TickerParser Unit := do
  let symbolStr ← found ((data.field "s").bind Json.cStr)
  guard (4 < symbolStr.length)
  modify fun ticker => { ticker with symbol := usdtSymbol symbolStr }
  let bids ← found (data.field "b")
  let asks ← found (data.field "a")
  let bidRows ← found bids.getArray
  let askRows ← found asks.getArray
  let bidRow ← found bidRows.head?
  let askRow ← found askRows.head?
  let bidVals ← found bidRow.getArray
  let askVals ← found askRow.getArray
  guard (2 ≤ bidVals.length ∧ 2 ≤ askVals.length)
  let bid ← found (bidVals[0]?.bind Json.cStr)
  modify fun ticker => { ticker with bid := fastStod bid }
  let bidQty ← found (bidVals[1]?.bind Json.cStr)
  modify fun ticker => { ticker with bidQty := fastStod bidQty }
  let ask ← found (askVals[0]?.bind Json.cStr)
  modify fun ticker => { ticker with ask := fastStod ask }
  let askQty ← found (askVals[1]?.bind Json.cStr)
  modify fun ticker => { ticker with askQty := fastStod askQty }
  modify (withLast cached)
  let ticker ← get
  guard (0 < ticker.bid ∧ 0 < ticker.ask)

/-- The part of `parse_ticker_message` behind the scanner. -/
def readDocument (cached : SymbolId → Option Ticker) (now : UInt64) (doc : Json) :
    TickerParser Unit := do
  let topic ← found ((doc.field "topic").bind Json.cStr)
  let data ← found (doc.field "data")
  modify fun ticker => { ticker with exchange := .bybit, timestamp := now }
  if topic.take 8 = "tickers.".toList then readTicker data
  else
    guard (topic.take 12 = "orderbook.1.".toList)
    readOrderbook cached data

/-- The DOM path of `parse_ticker_message`. -/
def parseTickerDom (parse : List Char → Option Json) (cached : SymbolId → Option Ticker)
    (now : UInt64) (message : List Char) : TickerParser Unit := do
  let doc ← found (parse message)
  readDocument cached now doc

/-- `parse_ticker_message`. -/
def parseTickerMessage (parse : List Char → Option Json) (cached : SymbolId → Option Ticker)
    (now : UInt64) (message : List Char) : TickerParser Unit :=
  if (findAfter "\"topic\":\"orderbook.1.".toList message).isSome then
    (do parseOrderbookFast now message; modify (withLast cached)) <|>
      parseTickerDom parse cached now message
  else parseTickerDom parse cached now message

end Bybit

end SpotRelay.Model
