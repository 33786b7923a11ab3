import SpotRelay.Library.Directory
import SpotRelay.Model.Types

/-!
# The position file

`save_active_position`, `load_active_position` and `delete_active_position` (main.cpp:220-333)
and the update callback that all loops share (main.cpp:830-837).  A save writes the text to
`active_position.json.tmp` and renames it; loops run these steps in any order, and each may
fail.  `fmt` and `simdjson` are parameters.
-/

set_option autoImplicit false

namespace SpotRelay.Model

open SpotRelay.Library

/-! ## The text -/

/-- How `fmt` prints numbers: `{:.nf}` and `{}` of an integer. -/
structure NumberFormat where
  fixed : ℕ → ℚ → List Char
  integer : ℤ → List Char

/-- `format_decimal_trimmed` (price_format.hpp:11-32). -/
def formatDecimalTrimmed (fmt : NumberFormat) (value : ℚ) : List Char :=
  let out := (fmt.fixed 8 value).reverse.dropWhile (· = '0')
  let out := if out.head? = some '.' then out.tail.reverse else out.reverse
  if out = [] ∨ out = "-0".toList then "0".toList else out

/-- The integer values of the venues (types.hpp:22-28). -/
def Exchange.code : Exchange → ℤ
  | .bithumb => 0
  | .bybit => 1
  | .okx => 2
  | .upbit => 3

/-- The text of `save_active_position` (main.cpp:229-256). -/
def positionText (fmt : NumberFormat) (pos : Position) : List Char :=
  "\x7b\n  \"symbol_base\": \"".toList ++ pos.symbol.base ++
  "\",\n  \"symbol_quote\": \"".toList ++ pos.symbol.quote ++
  "\",\n  \"korean_exchange\": ".toList ++ fmt.integer pos.koreanExchange.code ++
  ",\n  \"foreign_exchange\": ".toList ++ fmt.integer pos.foreignExchange.code ++
  ",\n  \"entry_time_ms\": ".toList ++ fmt.integer pos.entryTime ++
  ",\n  \"entry_premium\": ".toList ++ fmt.fixed 6 pos.entryPremium ++
  ",\n  \"position_size_usd\": ".toList ++ fmt.fixed 2 pos.positionSizeUsd ++
  ",\n  \"korean_amount\": ".toList ++ fmt.fixed 8 pos.koreanAmount ++
  ",\n  \"foreign_amount\": ".toList ++ fmt.fixed 8 pos.foreignAmount ++
  ",\n  \"korean_entry_price\": ".toList ++ formatDecimalTrimmed fmt pos.koreanEntryPrice ++
  ",\n  \"foreign_entry_price\": ".toList ++ fmt.fixed 8 pos.foreignEntryPrice ++
  ",\n  \"realized_pnl_krw\": ".toList ++ fmt.fixed 2 pos.realizedPnlKrw ++
  ",\n  \"is_active\": true\n\x7d".toList

/-- A value of the parsed document. -/
inductive JsonValue
  | string (text : String)
  | integer (val : ℤ)
  | number (val : ℚ)
  | boolean (val : Bool)
deriving DecidableEq

/-- `doc[key]`. -/
abbrev Document := String → Option JsonValue

/-- `std::string_view(element)`. -/
def JsonValue.asString : JsonValue → Option String
  | .string text => some text
  | _ => none

/-- `int64_t(element)`. -/
def JsonValue.asInteger : JsonValue → Option ℤ
  | .integer val => some val
  | _ => none

/-- `double(element)`: an integer is converted. -/
def JsonValue.asDouble : JsonValue → Option ℚ
  | .integer val => some val
  | .number val => some val
  | _ => none

/-- `static_cast<Exchange>` of a stored value; the codes of no venue, which no save writes, have
no counterpart. -/
def Exchange.ofCode : ℤ → Option Exchange
  | 0 => some .bithumb
  | 1 => some .bybit
  | 2 => some .okx
  | 3 => some .upbit
  | _ => none

/-- The fields of `load_active_position`; a missing field or one of another type throws, except
that `realized_pnl_krw` may be missing (main.cpp:294-317). -/
def readPosition (doc : Document) : Option Position := do
  let base ← (doc "symbol_base").bind JsonValue.asString
  let quote ← (doc "symbol_quote").bind JsonValue.asString
  let korean ← ((doc "korean_exchange").bind JsonValue.asInteger).bind Exchange.ofCode
  let foreign ← ((doc "foreign_exchange").bind JsonValue.asInteger).bind Exchange.ofCode
  let entryMs ← (doc "entry_time_ms").bind JsonValue.asInteger
  let entryPremium ← (doc "entry_premium").bind JsonValue.asDouble
  let positionSizeUsd ← (doc "position_size_usd").bind JsonValue.asDouble
  let koreanAmount ← (doc "korean_amount").bind JsonValue.asDouble
  let foreignAmount ← (doc "foreign_amount").bind JsonValue.asDouble
  let koreanEntryPrice ← (doc "korean_entry_price").bind JsonValue.asDouble
  let foreignEntryPrice ← (doc "foreign_entry_price").bind JsonValue.asDouble
  let realizedPnlKrw ← match doc "realized_pnl_krw" with
    | some field => field.asDouble
    | none => some 0
  return {
    symbol := SymbolId.of base quote
    koreanExchange := korean
    foreignExchange := foreign
    entryTime := entryMs.toNat
    entryPremium := entryPremium
    positionSizeUsd := positionSizeUsd
    koreanAmount := koreanAmount
    foreignAmount := foreignAmount
    koreanEntryPrice := koreanEntryPrice
    foreignEntryPrice := foreignEntryPrice
    realizedPnlKrw := realizedPnlKrw
    isActive := true }

/-- What a file with the text `text` is loaded as; `parse` is `simdjson`'s parser. -/
def readText (parse : List Char → Option Document) (text : List Char) : Option Position :=
  (parse text).bind readPosition

/-! ## The files and the loops that write them -/

/-- `ACTIVE_POSITION_PATH` and its temporary file. -/
inductive FileName
  | activePosition
  | tmp
deriving DecidableEq

abbrev Disk := Directory FileName Char

/-- `load_active_position`. -/
def loadActivePosition (parse : List Char → Option Document) (disk : Disk) : Option Position :=
  (disk.read .activePosition).bind (readText parse)

/-- A save under way: the handle of the open temporary file, or none once it is written. -/
structure Save where
  pos : Position
  handle : Option ℕ
deriving DecidableEq

/-- The files, the running loops and the updates they issued. -/
structure PersistState where
  disk : Disk
  running : List SymbolId := []
  saves : List Save := []
  /-- The positions of the symbols whose last completed update was an active position. -/
  active : List Position := []

/-- What may happen next: a loop starts or ends, or a file operation of an update succeeds or
fails.  The save of a recovered position at start-up counts as its loop's first update. -/
inductive PersistEvent
  | loopStarts (symbol : SymbolId)
  | loopEnds (symbol : SymbolId)
  | openTmp (pos : Position) (ok : Bool)
  | writeTmp (symbol : SymbolId) (ok : Bool)
  | renameTmp (symbol : SymbolId) (ok : Bool)
  | removeActive (symbol : SymbolId) (ok : Bool)
deriving DecidableEq

/-- The save that the loop of `symbol` is in. -/
def PersistState.saveOf (s : PersistState) (symbol : SymbolId) : Option Save :=
  s.saves.find? fun save => save.pos.symbol = symbol

/-- The update of `symbol` returns: `some pos` for a save, `none` for a delete. -/
def PersistState.complete (s : PersistState) (symbol : SymbolId) (update : Option Position) :
    PersistState :=
  { s with
    saves := s.saves.filter fun save => save.pos.symbol ≠ symbol
    active := (s.active.filter fun pos => pos.symbol ≠ symbol) ++ update.toList }

/-- One step of a loop, under at most `maxPositions` of them. -/
def persistStep (fmt : NumberFormat) (maxPositions : MaxPositions) (s : PersistState) :
    PersistEvent → PersistState
  | .loopStarts symbol =>
    if s.running.length < maxPositions.val ∧ symbol ∉ s.running then
      { s with running := symbol :: s.running }
    else s
  | .loopEnds symbol =>
    if s.saveOf symbol = none then { s with running := s.running.erase symbol } else s
  | .openTmp pos ok =>
    if pos.symbol ∈ s.running ∧ s.saveOf pos.symbol = none then
      if ok then
        let opened := s.disk.openTrunc .tmp
        { s with disk := opened.1, saves := ⟨pos, some opened.2⟩ :: s.saves }
      else s.complete pos.symbol (some pos)
    else s
  | .writeTmp symbol ok =>
    match s.saveOf symbol with
    | some ⟨pos, some handle⟩ =>
      if ok then
        { s with
          disk := s.disk.write handle (positionText fmt pos)
          saves := ⟨pos, none⟩ :: s.saves.filter fun save => save.pos.symbol ≠ symbol }
      else s.complete symbol (some pos)
    | _ => s
  | .renameTmp symbol ok =>
    match s.saveOf symbol with
    | some ⟨pos, none⟩ =>
      let disk := if ok then s.disk.rename .tmp .activePosition else s.disk
      { s with disk := disk }.complete symbol (some pos)
    | _ => s
  | .removeActive symbol ok =>
    if symbol ∈ s.running ∧ s.saveOf symbol = none then
      let disk := if ok then s.disk.remove .activePosition else s.disk
      { s with disk := disk }.complete symbol none
    else s

/-- Any run of the loops over the files found at start-up. -/
def runPersist (fmt : NumberFormat) (maxPositions : MaxPositions) (disk : Disk)
    (es : List PersistEvent) : PersistState :=
  es.foldl (persistStep fmt maxPositions) { disk := disk }

end SpotRelay.Model
