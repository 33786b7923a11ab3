import Mathlib.Data.Rat.Defs
import Mathlib.Algebra.Order.Ring.Rat
import SpotRelay.Library.InsertionMap

/-!
# The Bithumb books of `spot-relay-live.mjs`

The script seeds a book for every coin from a snapshot and applies the rows of `orderbookdepth`
messages to it (spot-relay-live.mjs:287-385, 460-486).  A book keeps its best bid and its best ask
beside the levels.

`Number` and `String` are parameters: the rows of a message are any values of `JSON.parse`.
-/

set_option autoImplicit false

namespace SpotRelay.Model.SpotRelayLive

open SpotRelay.Library

/-! ## Values -/

/-- A number; the two zeros are one. -/
inductive JsNumber
  | nan
  | negInfinity
  | finite (value : ℚ)
  | infinity
deriving DecidableEq

namespace JsNumber

instance : Zero JsNumber := ⟨finite 0⟩

/-- `<`, which holds of nothing beside a `NaN`. -/
protected def Lt : JsNumber → JsNumber → Prop
  | finite a, finite b => a < b
  | negInfinity, finite _ | negInfinity, infinity | finite _, infinity => True
  | _, _ => False

instance : LT JsNumber := ⟨JsNumber.Lt⟩

instance decidableLt : ∀ a b : JsNumber, Decidable (a < b)
  | finite a, finite b => inferInstanceAs (Decidable (a < b))
  | negInfinity, finite _ | negInfinity, infinity | finite _, infinity => isTrue trivial
  | nan, _ | infinity, _ | negInfinity, nan | negInfinity, negInfinity | finite _, nan
  | finite _, negInfinity => isFalse id

/-- `<=`. -/
protected def Le (a b : JsNumber) : Prop := a < b ∨ a = b ∧ a ≠ nan

instance : LE JsNumber := ⟨JsNumber.Le⟩

instance (a b : JsNumber) : Decidable (a ≤ b) := inferInstanceAs (Decidable (_ ∨ _))

/-- `Number.isFinite`. -/
def isFinite : JsNumber → Bool
  | finite _ => true
  | _ => false

end JsNumber

/-- A value of `JSON.parse`, or what an absent property reads as. -/
inductive JsValue
  | undefined
  | null
  | bool (value : Bool)
  | number (value : JsNumber)
  | string (value : String)
  | array (elements : List JsValue)
  | object (fields : List (String × JsValue))

namespace JsValue

/-- `value.name`; `none` where it throws. -/
def property (value : JsValue) (name : String) : Option JsValue :=
  match value with
  | undefined | null => none
  | object fields => some ((fields.lookup name).getD undefined)
  | _ => some undefined

/-- `value?.name`. -/
def optionalProperty (value : JsValue) (name : String) : Option JsValue :=
  match value with
  | undefined | null => some undefined
  | value => value.property name

/-- `value || ''`. -/
def orEmpty (value : JsValue) : JsValue :=
  match value with
  | undefined | null | bool false => string ""
  | number x => if x = .nan ∨ x = 0 then string "" else number x
  | value => value

/-- The elements of `for (const x of value ?? [])`; `none` where it throws. -/
def elementsOrNone (value : JsValue) : Option (List JsValue) :=
  match value with
  | undefined | null => some []
  | array elements => some elements
  | string text => some (text.toList.map fun c => string (String.singleton c))
  | _ => none

/-- `value === text`. -/
def isText (value : JsValue) (text : String) : Bool :=
  match value with
  | string s => s = text
  | _ => false

end JsValue

/-! ## Books -/

/-- The levels of one side with their best price: `bids`, `bestBid` and `bestBidQty`, or `asks`,
`bestAsk` and `bestAskQty`. -/
structure BookSide where
  levels : InsertionMap JsNumber JsNumber := .empty
  best : JsNumber := 0
  bestQty : JsNumber := 0

structure Book where
  bids : BookSide := {}
  asks : BookSide := {}
  ts : ℕ

/-- `bithumbBooks`. -/
abbrev Books := InsertionMap String Book

/-- A bid level replaces the best one so far. -/
def bidTakes (price best : JsNumber) : Bool := best < price

/-- An ask level does. -/
def askTakes (price best : JsNumber) : Bool := best = 0 ∨ price < best

/-- The same in a write, which tests for an empty side itself. -/
def askBeats (price best : JsNumber) : Bool := price < best

/-- One round of a recomputation: the best price and its size so far. -/
def recomputeStep (takes : JsNumber → JsNumber → Bool) (best level : JsNumber × JsNumber) :
    JsNumber × JsNumber :=
  if level.2 ≤ 0 then best else if takes level.1 best.1 then level else best

def BookSide.recompute (takes : JsNumber → JsNumber → Bool) (side : BookSide) : BookSide :=
  let best := side.levels.entries.foldl (recomputeStep takes) (0, 0)
  { side with best := best.1, bestQty := best.2 }

/-- `recomputeBestBid` (spot-relay-live.mjs:460-472). -/
def recomputeBestBid (book : Book) : Book := { book with bids := book.bids.recompute bidTakes }

/-- `recomputeBestAsk` (spot-relay-live.mjs:474-486). -/
def recomputeBestAsk (book : Book) : Book := { book with asks := book.asks.recompute askTakes }

/-! ## The snapshot -/

section Coercions

variable (number : JsValue → Option JsNumber) (text : JsValue → Option String)

/-- The levels of one side of a snapshot; `none` where an entry throws. -/
def seedLevels (levels : InsertionMap JsNumber JsNumber) :
    List JsValue → Option (InsertionMap JsNumber JsNumber)
  | [] => some levels
  | entry :: entries => do
    let price ← number (← entry.property "price")
    let qty ← number (← entry.property "quantity")
    seedLevels (if 0 < price ∧ 0 < qty then levels.set price qty else levels) entries

/-- The book of one coin. -/
def seedBook (value : JsValue) (now : ℕ) : Option Book := do
  let bids ← seedLevels number .empty (← (← value.property "bids").elementsOrNone)
  let asks ← seedLevels number .empty (← (← value.property "asks").elementsOrNone)
  let book : Book := { bids := { levels := bids }, asks := { levels := asks }, ts := now }
  some (recomputeBestAsk (recomputeBestBid book))

/-- `seedBithumbBooks`, for the entries of `data` with the time at each
(spot-relay-live.mjs:287-320); `none` ends the script. -/
def seedBithumbBooks (books : Books) : List ((String × JsValue) × ℕ) → Option Books
  | [] => some books
  | ((base, value), now) :: entries =>
    if base = "timestamp" ∨ base = "payment_currency" then seedBithumbBooks books entries
    else do
      let book ← seedBook number value now
      seedBithumbBooks (books.set base book) entries

/-! ## Messages -/

/-- A level is gone: the best price is looked for again where it was this one. -/
def BookSide.remove (takes : JsNumber → JsNumber → Bool) (side : BookSide) (price : JsNumber) :
    BookSide :=
  let side := { side with levels := side.levels.delete price }
  if side.best = price then side.recompute takes else side

/-- A level is written: a better price, or the first one, becomes the best. -/
def BookSide.write (beats : JsNumber → JsNumber → Bool) (side : BookSide) (price qty : JsNumber) :
    BookSide :=
  let side := { side with levels := side.levels.set price qty }
  if beats price side.best ∨ side.best = 0 then { side with best := price, bestQty := qty }
  else if price = side.best then { side with bestQty := qty }
  else side

/-- A row of positive price for a book (spot-relay-live.mjs:341-371). -/
def applyRow (book : Book) (isBid : Bool) (price qty : JsNumber) (now : ℕ) : Book :=
  let book :=
    if qty.isFinite = false ∨ qty ≤ 0 then
      if isBid then { book with bids := book.bids.remove bidTakes price }
      else { book with asks := book.asks.remove askTakes price }
    else if isBid then
      { book with bids := book.bids.write bidTakes price qty }
    else { book with asks := book.asks.write askBeats price qty }
  { book with ts := now }

/-- `String(row.symbol || '').split('_')`, its first part. -/
def symbolBase (row : JsValue) : Option String := do
  let symbol ← text (← row.property "symbol").orEmpty
  some (String.ofList (symbol.toList.takeWhile (· ≠ '_')))

/-- One row of a message, with the coin it touches; `none` where it throws. -/
def handleRow (books : Books) (row : JsValue) (now : ℕ) : Option (Books × Option String) := do
  let base ← symbolBase text row
  if base = "" then return (books, none)
  match books.get? base with
  | none => return (books, none)
  | some book =>
    let isBid := (← row.property "orderType").isText "bid"
    let price ← number (← row.property "price")
    let qty ← number (← row.property "quantity")
    if price.isFinite = false ∨ price ≤ 0 then return (books, none)
    return (books.set base (applyRow book isBid price qty now), some base)

/-- The rows of a message in order, with the time at each.  A row that throws ends the loop, and the
coins touched so far are given up. -/
def handleRows (books : Books) (touched : List String) :
    List (JsValue × ℕ) → Books × List String
  | [] => (books, touched)
  | (row, now) :: rows =>
    match handleRow number text books row now with
    | none => (books, [])
    | some (books, none) => handleRows books touched rows
    | some (books, some base) =>
      handleRows books (if base ∈ touched then touched else touched ++ [base]) rows

/-- The second look at a touched book (spot-relay-live.mjs:376-381). -/
def recheck (books : Books) (base : String) : Books :=
  match books.get? base with
  | none => books
  | some book =>
    let book := if book.bids.bestQty = 0 ∧ 0 < book.bids.best then recomputeBestBid book else book
    let book := if book.asks.bestQty = 0 ∧ 0 < book.asks.best then recomputeBestAsk book else book
    books.set base book

/-- The rows of an `orderbookdepth` message; `none` where the handler returns or throws before the
first of them. -/
def messageRows (msg : JsValue) : Option (List JsValue) := do
  if (← msg.property "type").isText "orderbookdepth" then
    (← (← msg.property "content").optionalProperty "list").elementsOrNone
  else none

/-- The `message` listener of `connectBithumb`; `none` is a text that `JSON.parse` refuses. -/
def onBithumbMessage (books : Books) (msg : Option JsValue) (clock : ℕ → ℕ) : Books :=
  match msg.bind messageRows with
  | none => books
  | some rows =>
    let handled := handleRows number text books [] (rows.zipIdx.map fun row => (row.1, clock row.2))
    handled.2.foldl recheck handled.1

/-- The script after a number of messages. -/
def runMessages (books : Books) (messages : List (Option JsValue × (ℕ → ℕ))) : Books :=
  messages.foldl (fun books m => onBithumbMessage number text books m.1 m.2) books

end Coercions

end SpotRelay.Model.SpotRelayLive
