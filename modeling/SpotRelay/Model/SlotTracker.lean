import Mathlib.Data.Finmap
import SpotRelay.Model.PositionTracker
import SpotRelay.Model.TrackerThreads

/-!
# The position tracker, slot by slot

`PositionTracker` (arbitrage_engine.hpp:505-620) as one thread uses it.  A slot that is closed
keeps its hash and its position, and every look-up compares the hash before it compares the
symbol.  The second half is what the tracker is for: a finite map of at most sixteen positions.
-/

set_option autoImplicit false

namespace SpotRelay.Model

/-! ## The slots -/

namespace PositionSlot

/-- What a look-up asks of a slot: `active` and the hash without the lock, `active` again and
the symbol under it. -/
def isOf (slot : PositionSlot) (symbol : SymbolId) : Bool :=
  slot.active && decide (slot.symbolHash = symbol.hash) &&
    (slot.active && decide (slot.position.symbol = symbol))

/-- The position of an active slot. -/
def value (slot : PositionSlot) : Option Position :=
  if slot.active then some slot.position else none

/-- The first slot that is not active takes the position. -/
def openFirst (pos : Position) : List PositionSlot → Option (List PositionSlot)
  | [] => none
  | slot :: rest =>
    if slot.active then (openFirst pos rest).map (slot :: ·)
    else some ({ active := true, symbolHash := pos.symbol.hash, position := pos } :: rest)

/-- The first slot of the symbol is marked free; nothing else of it changes. -/
def closeFirst (symbol : SymbolId) : List PositionSlot → Option (Position × List PositionSlot)
  | [] => none
  | slot :: rest =>
    if slot.isOf symbol then some (slot.position, { slot with active := false } :: rest)
    else (closeFirst symbol rest).map fun r => (r.1, slot :: r.2)

/-- Opening a position adds no slot. -/
theorem length_openFirst {pos : Position} {slots slots' : List PositionSlot}
    (h : openFirst pos slots = some slots') : slots'.length = slots.length := by
  induction slots generalizing slots' with
  | nil => simp [openFirst] at h
  | cons slot rest ih =>
    simp only [openFirst] at h
    split at h
    · simp only [Option.map_eq_some_iff] at h
      obtain ⟨rest', hrest, rfl⟩ := h
      simp [ih hrest]
    · simp only [Option.some.injEq] at h
      simp [← h]

/-- Closing a position removes no slot. -/
theorem length_closeFirst {symbol : SymbolId} {pos : Position} {slots slots' : List PositionSlot}
    (h : closeFirst symbol slots = some (pos, slots')) : slots'.length = slots.length := by
  induction slots generalizing slots' with
  | nil => simp [closeFirst] at h
  | cons slot rest ih =>
    simp only [closeFirst] at h
    split at h
    · simp only [Option.some.injEq, Prod.mk.injEq] at h
      simp [← h.2]
    · simp only [Option.map_eq_some_iff, Prod.mk.injEq] at h
      obtain ⟨⟨found, rest'⟩, hrest, rfl, rfl⟩ := h
      simp [ih hrest]

end PositionSlot

/-! ## The tracker -/

/-- `PositionTracker`, used by one thread at a time. -/
structure SlotTracker where
  positions : List PositionSlot := List.replicate slotCount {}
  length_eq : positions.length = slotCount := by simp
  /-- `position_count_`. -/
  positionCount : ℤ := 0
deriving DecidableEq

/-- A call of the tracker; `updatePosition` is the engine's. -/
inductive TrackerOp
  | openPosition (pos : Position)
  | closePosition (symbol : SymbolId)
  | updatePosition (pos : Position)
  | getPosition (symbol : SymbolId)
  | hasPosition (symbol : SymbolId)
  | forEachActivePosition
deriving DecidableEq

/-- What a call returns; `visited` are the positions the callback is run on. -/
inductive TrackerResult
  | flag (b : Bool)
  /-- A returned position, or the `closed` of a `close_position`. -/
  | position (pos : Option Position)
  | visited (found : List Position)
deriving DecidableEq

namespace SlotTracker

/-- `has_position`. -/
def hasPosition (t : SlotTracker) (symbol : SymbolId) : Bool :=
  t.positions.any fun slot => slot.isOf symbol

/-- `get_position`. -/
def getPosition (t : SlotTracker) (symbol : SymbolId) : Option Position :=
  (t.positions.find? fun slot => slot.isOf symbol).map fun slot => slot.position

/-- `open_position`. -/
def openPosition (t : SlotTracker) (pos : Position) : Bool × SlotTracker :=
  match h : PositionSlot.openFirst pos t.positions with
  | none => (false, t)
  | some slots =>
    (true, ⟨slots, (PositionSlot.length_openFirst h).trans t.length_eq, t.positionCount + 1⟩)

/-- `close_position`; no position means that it returned false. -/
def closePosition (t : SlotTracker) (symbol : SymbolId) : Option Position × SlotTracker :=
  match h : PositionSlot.closeFirst symbol t.positions with
  | none => (none, t)
  | some (closed, slots) =>
    (some closed,
      ⟨slots, (PositionSlot.length_closeFirst h).trans t.length_eq, t.positionCount - 1⟩)

/-- `ArbitrageEngine::update_position` (arbitrage_engine.hpp:922-928). -/
def updatePosition (t : SlotTracker) (pos : Position) : Bool × SlotTracker :=
  match t.closePosition pos.symbol with
  | (some _, t') => t'.openPosition pos
  | (none, t') => (false, t')

/-- An update of a position that is there closes and opens it. -/
theorem updatePosition_of_some {t : SlotTracker} {pos old : Position}
    (h : (t.closePosition pos.symbol).1 = some old) :
    t.updatePosition pos = (t.closePosition pos.symbol).2.openPosition pos := by
  unfold updatePosition
  split
  · rename_i heq
    rw [heq]
  · rename_i heq
    rw [heq] at h
    cases h

/-- An update of a position that is not there fails. -/
theorem updatePosition_of_none {t : SlotTracker} {pos : Position}
    (h : (t.closePosition pos.symbol).1 = none) :
    t.updatePosition pos = (false, (t.closePosition pos.symbol).2) := by
  unfold updatePosition
  split
  · rename_i heq
    rw [heq] at h
    cases h
  · rename_i heq
    rw [heq]

/-- `for_each_active_position`, and what `get_active_positions` returns. -/
def forEachActivePosition (t : SlotTracker) : List Position :=
  (t.positions.filter fun slot => slot.active).map fun slot => slot.position

/-- The number of slots whose `active` is set. -/
def activeSlots (t : SlotTracker) : ℕ := t.positions.countP fun slot => slot.active

/-- The number of active slots of a symbol. -/
def slotsOf (t : SlotTracker) (symbol : SymbolId) : ℕ :=
  t.positions.countP fun slot => slot.active && decide (slot.position.symbol = symbol)

def call (t : SlotTracker) : TrackerOp → TrackerResult × SlotTracker
  | .openPosition pos => (.flag (t.openPosition pos).1, (t.openPosition pos).2)
  | .closePosition symbol => (.position (t.closePosition symbol).1, (t.closePosition symbol).2)
  | .updatePosition pos => (.flag (t.updatePosition pos).1, (t.updatePosition pos).2)
  | .getPosition symbol => (.position (t.getPosition symbol), t)
  | .hasPosition symbol => (.flag (t.hasPosition symbol), t)
  | .forEachActivePosition => (.visited t.forEachActivePosition, t)

/-- The tracker after a sequence of calls. -/
def after (ops : List TrackerOp) : SlotTracker := ops.foldl (fun t op => (t.call op).2) {}

end SlotTracker

/-! ## The map it stands for -/

/-- At most sixteen positions, one for a symbol and under its symbol. -/
structure PositionMap where
  entries : Finmap fun _ : SymbolId => Position
  keyed : ∀ symbol pos, entries.lookup symbol = some pos → pos.symbol = symbol
  card_le : entries.keys.card ≤ slotCount

namespace PositionMap

def empty : PositionMap where
  entries := ∅
  keyed := by simp
  card_le := by simp

def lookup (m : PositionMap) (symbol : SymbolId) : Option Position := m.entries.lookup symbol

def size (m : PositionMap) : ℕ := m.entries.keys.card

/-- A position is put under its own symbol. -/
theorem keys_insert (entries : Finmap fun _ : SymbolId => Position) (pos : Position) :
    (entries.insert pos.symbol pos).keys = insert pos.symbol entries.keys := by
  ext symbol
  simp only [Finmap.mem_keys, Finmap.mem_insert, Finset.mem_insert]

/-- The position under its symbol, in place of the one that was there. -/
def put (m : PositionMap) (pos : Position)
    (hroom : (insert pos.symbol m.entries.keys).card ≤ slotCount) : PositionMap where
  entries := m.entries.insert pos.symbol pos
  keyed := by
    intro symbol found hfound
    by_cases hsymbol : symbol = pos.symbol
    · subst hsymbol
      rw [Finmap.lookup_insert, Option.some.injEq] at hfound
      rw [← hfound]
    · rw [Finmap.lookup_insert_of_ne _ hsymbol] at hfound
      exact m.keyed symbol found hfound
  card_le := by rwa [keys_insert]

def erase (m : PositionMap) (symbol : SymbolId) : PositionMap where
  entries := m.entries.erase symbol
  keyed := by
    intro other found hfound
    by_cases hother : other = symbol
    · subst hother
      simp at hfound
    · rw [Finmap.lookup_erase_ne hother] at hfound
      exact m.keyed other found hfound
  card_le := by
    rw [Finmap.keys_erase]
    exact (Finset.card_erase_le).trans m.card_le

/-- The map after a call: a full map opens nothing, and an update is of an open position. -/
def step (m : PositionMap) : TrackerOp → PositionMap
  | .openPosition pos =>
    if h : m.size < slotCount then m.put pos ((Finset.card_insert_le _ _).trans h) else m
  | .closePosition symbol => m.erase symbol
  | .updatePosition pos =>
    if h : pos.symbol ∈ m.entries.keys then
      m.put pos ((Finset.insert_eq_self.mpr h).symm ▸ m.card_le)
    else m
  | .getPosition _ | .hasPosition _ | .forEachActivePosition => m

/-- What a call on the map returns. -/
def Answers (m : PositionMap) : TrackerOp → TrackerResult → Prop
  | .openPosition _, result => result = .flag (decide (m.size < slotCount))
  | .closePosition symbol, result => result = .position (m.lookup symbol)
  | .updatePosition pos, result => result = .flag (m.lookup pos.symbol).isSome
  | .getPosition symbol, result => result = .position (m.lookup symbol)
  | .hasPosition symbol, result => result = .flag (m.lookup symbol).isSome
  | .forEachActivePosition, result =>
    ∃ found, result = .visited found ∧ found.Nodup ∧
      ∀ pos, pos ∈ found ↔ m.lookup pos.symbol = some pos

/-- An `open_position` is of a symbol that is not open. -/
def Opens (m : PositionMap) : TrackerOp → Prop
  | .openPosition pos => m.lookup pos.symbol = none
  | _ => True

/-- A symbol is a key where a position is found under it. -/
theorem mem_keys (m : PositionMap) (symbol : SymbolId) :
    symbol ∈ m.entries.keys ↔ (m.lookup symbol).isSome = true := by
  rw [Finmap.mem_keys, lookup, Finmap.lookup_isSome]

/-- A look-up after a position was put. -/
theorem lookup_put (m : PositionMap) (pos : Position)
    (hroom : (insert pos.symbol m.entries.keys).card ≤ slotCount) (symbol : SymbolId) :
    (m.put pos hroom).lookup symbol =
      if symbol = pos.symbol then some pos else m.lookup symbol := by
  split_ifs with hsymbol
  · subst hsymbol
    exact Finmap.lookup_insert m.entries
  · exact Finmap.lookup_insert_of_ne m.entries hsymbol

/-- A look-up after a symbol was erased. -/
theorem lookup_erase (m : PositionMap) (symbol other : SymbolId) :
    (m.erase symbol).lookup other = if other = symbol then none else m.lookup other := by
  split_ifs with hother
  · subst hother
    exact Finmap.lookup_erase other m.entries
  · exact Finmap.lookup_erase_ne hother

/-- A new symbol makes the map larger by one. -/
theorem size_put_of_none (m : PositionMap) (pos : Position)
    (hroom : (insert pos.symbol m.entries.keys).card ≤ slotCount)
    (habsent : m.lookup pos.symbol = none) : (m.put pos hroom).size = m.size + 1 := by
  have hnot : pos.symbol ∉ m.entries.keys := by simp [mem_keys, habsent]
  change (m.entries.insert pos.symbol pos).keys.card = m.entries.keys.card + 1
  rw [keys_insert, Finset.card_insert_of_notMem hnot]

/-- A symbol that was there makes it smaller by one. -/
theorem size_erase (m : PositionMap) (symbol : SymbolId) :
    (m.erase symbol).size = m.size - if m.lookup symbol = none then 0 else 1 := by
  change (m.entries.erase symbol).keys.card = m.entries.keys.card - _
  rw [Finmap.keys_erase]
  split_ifs with hnone
  · rw [Finset.erase_eq_of_notMem (by simp [mem_keys, hnone])]
    rfl
  · have hmem : symbol ∈ m.entries.keys := by
      rw [mem_keys, Option.isSome_iff_ne_none]
      exact hnone
    rw [Finset.card_erase_of_mem hmem]

/-- A symbol that is not there leaves the map. -/
theorem erase_of_none (m : PositionMap) (symbol : SymbolId) (hnone : m.lookup symbol = none) :
    m.erase symbol = m := by
  cases m with
  | mk entries keyed card_le =>
    simp only [erase, mk.injEq]
    apply Finmap.ext_lookup
    intro other
    by_cases hother : other = symbol
    · subst hother
      rw [Finmap.lookup_erase]
      exact hnone.symm
    · rw [Finmap.lookup_erase_ne hother]

/-- A position is replaced as if it were taken out first. -/
theorem put_erase (m : PositionMap) (pos : Position)
    (hroom : (insert pos.symbol m.entries.keys).card ≤ slotCount)
    (hroom' : (insert pos.symbol (m.erase pos.symbol).entries.keys).card ≤ slotCount) :
    (m.erase pos.symbol).put pos hroom' = m.put pos hroom := by
  simp only [put, erase, mk.injEq]
  apply Finmap.ext_lookup
  intro symbol
  by_cases hsymbol : symbol = pos.symbol
  · subst hsymbol
    rw [Finmap.lookup_insert, Finmap.lookup_insert]
  · rw [Finmap.lookup_insert_of_ne _ hsymbol, Finmap.lookup_insert_of_ne _ hsymbol,
      Finmap.lookup_erase_ne hsymbol]

/-- The map after a sequence of calls. -/
def after (ops : List TrackerOp) : PositionMap := ops.foldl step empty

end PositionMap

end SpotRelay.Model
