import SpotRelay.Model.Types

/-!
# The position tracker, one atomic access at a time

`PositionTracker` (arbitrage_engine.hpp:505-592) as several loops use it at once: a load of
`active`, a load of `symbol_hash`, a compare-exchange and a block under the mutex of a slot are
one step each.  An `open_position` claims its slot before it writes the slot, so the slot shows
its old symbol in between.
-/

set_option autoImplicit false

namespace SpotRelay.Model

/-! ## Hashes -/

/-- The bytes of a name, as a fixed array holds them. -/
def nameByte (name : List Char) (i : ℕ) : UInt64 :=
  match name[i]? with
  | none => 0
  | some c => UInt64.ofNat (c.toNat % 256)

/-- `memcpy` of `len` bytes into an integer, on a little-endian machine. -/
def loadBytes (name : List Char) (start len : ℕ) : UInt64 :=
  (List.range len).foldr (fun i acc => acc * 256 + nameByte name (start + i)) 0

/-- `SymbolId::hash` (types.hpp:160-174). -/
def SymbolId.hash (s : SymbolId) : UInt64 :=
  let h1 := loadBytes s.base 0 8
  let h3 := loadBytes s.base 8 4
  let h2 := loadBytes s.quote 0 8
  let h1 := h1 ^^^ (h3 * 0x9E3779B97F4A7C15)
  let h1 := h1 ^^^ (h2 * 0xBF58476D1CE4E5B9)
  let h1 := h1 ^^^ (h1 >>> 31)
  let h1 := h1 * 0xBF58476D1CE4E5B9
  h1 ^^^ (h1 >>> 27)

/-! ## State -/

/-- `PositionSlot`.  A closed slot keeps its symbol and its position. -/
structure PositionSlot where
  active : Bool := false
  symbolHash : UInt64 := 0
  position : Position :=
    { symbol := .of "" "", koreanExchange := .bithumb, foreignExchange := .bithumb }
deriving DecidableEq

/-- The number of slots, `PositionTracker::MAX_POSITIONS`. -/
def slotCount : ℕ := 16

/-- A call of the tracker, named by its next step at slot `i`. -/
inductive TrackerCall
  | openSlot (pos : Position) (i : ℕ)
  /-- The slot is claimed and still to be written. -/
  | openWrite (pos : Position) (i : ℕ)
  | closeLoad (symbol : SymbolId) (i : ℕ)
  | closeHash (symbol : SymbolId) (i : ℕ)
  | closeLock (symbol : SymbolId) (i : ℕ)
  | getLoad (symbol : SymbolId) (i : ℕ)
  | getHash (symbol : SymbolId) (i : ℕ)
  | getLock (symbol : SymbolId) (i : ℕ)
deriving DecidableEq

namespace TrackerCall

def symbol : TrackerCall → SymbolId
  | openSlot pos _ | openWrite pos _ => pos.symbol
  | closeLoad symbol _ | closeHash symbol _ | closeLock symbol _ => symbol
  | getLoad symbol _ | getHash symbol _ | getLock symbol _ => symbol

end TrackerCall

structure SharedTracker where
  slots : ℕ → PositionSlot := fun _ => {}
  /-- `position_count_`. -/
  positionCount : ℤ := 0
  /-- The calls that have not returned. -/
  calls : List TrackerCall := []
  /-- The positions whose `open_position` returned true, without those of symbols closed since
  (ghost). -/
  opened : List Position := []
  /-- What the `get_position` calls returned (ghost). -/
  found : List (SymbolId × Option Position) := []

namespace SharedTracker

/-! ## Steps -/

def setSlot (s : SharedTracker) (i : ℕ) (slot : PositionSlot) : SharedTracker :=
  { s with slots := fun j => if j = i then slot else s.slots j }

/-- The call of the loop of that symbol goes on with `call`. -/
def goOn (s : SharedTracker) (call : TrackerCall) : SharedTracker :=
  { s with calls := s.calls.map fun c => if c.symbol = call.symbol then call else c }

/-- The call of the loop of that symbol returns. -/
def finish (s : SharedTracker) (symbol : SymbolId) : SharedTracker :=
  { s with calls := s.calls.filter fun c => c.symbol ≠ symbol }

/-- The compare-exchange of `open_position`. -/
def openSlot (s : SharedTracker) (pos : Position) (i : ℕ) : SharedTracker :=
  if slotCount ≤ i then s.finish pos.symbol
  else if (s.slots i).active then s.goOn (.openSlot pos (i + 1))
  else (s.setSlot i { s.slots i with active := true }).goOn (.openWrite pos i)

/-- The locked block of `open_position`. -/
def openWrite (s : SharedTracker) (pos : Position) (i : ℕ) : SharedTracker :=
  { (s.setSlot i { s.slots i with symbolHash := pos.symbol.hash, position := pos }).finish
      pos.symbol with
    positionCount := s.positionCount + 1
    opened := s.opened ++ [pos] }

/-- The loads of `close_position` and its locked block. -/
def closeLoad (s : SharedTracker) (symbol : SymbolId) (i : ℕ) : SharedTracker :=
  if slotCount ≤ i then s.finish symbol
  else if (s.slots i).active then s.goOn (.closeHash symbol i)
  else s.goOn (.closeLoad symbol (i + 1))

def closeHash (s : SharedTracker) (symbol : SymbolId) (i : ℕ) : SharedTracker :=
  if (s.slots i).symbolHash = symbol.hash then s.goOn (.closeLock symbol i)
  else s.goOn (.closeLoad symbol (i + 1))

def closeLock (s : SharedTracker) (symbol : SymbolId) (i : ℕ) : SharedTracker :=
  if (s.slots i).active = false ∨ (s.slots i).position.symbol ≠ symbol then
    s.goOn (.closeLoad symbol (i + 1))
  else
    { (s.setSlot i { s.slots i with active := false }).finish symbol with
      positionCount := s.positionCount - 1 }

/-- A `get_position` returns. -/
def returnFound (s : SharedTracker) (symbol : SymbolId) (result : Option Position) :
    SharedTracker :=
  { s.finish symbol with found := s.found ++ [(symbol, result)] }

def getLoad (s : SharedTracker) (symbol : SymbolId) (i : ℕ) : SharedTracker :=
  if slotCount ≤ i then s.returnFound symbol none
  else if (s.slots i).active then s.goOn (.getHash symbol i)
  else s.goOn (.getLoad symbol (i + 1))

def getHash (s : SharedTracker) (symbol : SymbolId) (i : ℕ) : SharedTracker :=
  if (s.slots i).symbolHash = symbol.hash then s.goOn (.getLock symbol i)
  else s.goOn (.getLoad symbol (i + 1))

def getLock (s : SharedTracker) (symbol : SymbolId) (i : ℕ) : SharedTracker :=
  if (s.slots i).active = true ∧ (s.slots i).position.symbol = symbol then
    s.returnFound symbol (some (s.slots i).position)
  else s.goOn (.getLoad symbol (i + 1))

/-- The next step of a call. -/
def advanceCall (s : SharedTracker) : TrackerCall → SharedTracker
  | .openSlot pos i => s.openSlot pos i
  | .openWrite pos i => s.openWrite pos i
  | .closeLoad symbol i => s.closeLoad symbol i
  | .closeHash symbol i => s.closeHash symbol i
  | .closeLock symbol i => s.closeLock symbol i
  | .getLoad symbol i => s.getLoad symbol i
  | .getHash symbol i => s.getHash symbol i
  | .getLock symbol i => s.getLock symbol i

/-- The call that the loop of a symbol is inside. -/
def callOf (s : SharedTracker) (symbol : SymbolId) : Option TrackerCall :=
  s.calls.find? fun call => decide (call.symbol = symbol)

/-- The symbol has been opened and not been closed since. -/
def isOpened (s : SharedTracker) (symbol : SymbolId) : Bool :=
  s.opened.any fun pos => decide (pos.symbol = symbol)

end SharedTracker

inductive TrackerEvent
  | openPosition (pos : Position)
  | closePosition (symbol : SymbolId)
  | getPosition (symbol : SymbolId)
  | advance (symbol : SymbolId)

/-- The loop of a symbol makes one call at a time, and it closes its symbol before it opens it
again (`persist_snapshot`, order_manager.cpp:468-476). -/
def trackerStep (s : SharedTracker) : TrackerEvent → SharedTracker
  | .openPosition pos =>
    if (s.callOf pos.symbol).isSome || s.isOpened pos.symbol then s
    else { s with calls := s.calls ++ [.openSlot pos 0] }
  | .closePosition symbol =>
    if (s.callOf symbol).isSome then s
    else
      { s with
        calls := s.calls ++ [.closeLoad symbol 0]
        opened := s.opened.filter fun pos => pos.symbol ≠ symbol }
  | .getPosition symbol =>
    if (s.callOf symbol).isSome then s else { s with calls := s.calls ++ [.getLoad symbol 0] }
  | .advance symbol =>
    match s.callOf symbol with
    | none => s
    | some call => s.advanceCall call

def runTracker (events : List TrackerEvent) : SharedTracker := events.foldl trackerStep {}

end SpotRelay.Model
