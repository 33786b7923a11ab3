import SpotRelay.Library.SlotTable
import SpotRelay.Model.Types

/-!
# The engine's position tracker, one call at a time

`PositionTracker` of arbitrage_engine.hpp:505-620 as its calls behave when they do not
overlap: sixteen slots, the first free slot is taken, the first slot of a symbol is closed.
-/

set_option autoImplicit false

namespace SpotRelay.Model

open SpotRelay.Library

/-- `PositionTracker`: `MAX_POSITIONS = 16` slots, active ones holding a position. -/
structure PositionTracker where
  slots : List (Option Position)
  length_eq : slots.length = 16
deriving DecidableEq

namespace PositionTracker

/-- The tracker of a fresh engine. -/
def empty : PositionTracker := ⟨List.replicate 16 none, by simp⟩

/-- The slots of a symbol. -/
def ofSymbol (symbol : SymbolId) (pos : Position) : Bool := decide (pos.symbol = symbol)

/-- `get_position` (arbitrage_engine.hpp:545-557). -/
def getPosition (t : PositionTracker) (symbol : SymbolId) : Option Position :=
  SlotTable.find (ofSymbol symbol) t.slots

/-- `open_position`; the tracker is unchanged when every slot is active
(arbitrage_engine.hpp:559-572). -/
def openPosition (t : PositionTracker) (pos : Position) : PositionTracker :=
  match h : SlotTable.put pos t.slots with
  | none => t
  | some slots => ⟨slots, (SlotTable.put_length h).trans t.length_eq⟩

/-- `close_position` (arbitrage_engine.hpp:574-592). -/
def closePosition (t : PositionTracker) (symbol : SymbolId) : PositionTracker :=
  match h : SlotTable.take (ofSymbol symbol) t.slots with
  | none => t
  | some (_, slots) => ⟨slots, (SlotTable.take_length h).trans t.length_eq⟩

/-- The number of slots that hold a position of the symbol. -/
def count (t : PositionTracker) (symbol : SymbolId) : ℕ :=
  SlotTable.occurrences (ofSymbol symbol) t.slots

/-- The number of inactive slots. -/
def freeSlots (t : PositionTracker) : ℕ := SlotTable.free t.slots

/-- An empty tracker holds no symbol. -/
theorem count_empty (symbol : SymbolId) : empty.count symbol = 0 := by
  simp [empty, count, SlotTable.occurrences]

/-- An empty tracker has sixteen free slots. -/
theorem freeSlots_empty : empty.freeSlots = 16 := by
  simp [empty, freeSlots, SlotTable.free]

/-- Nothing is found of a symbol exactly where it has no slot. -/
theorem getPosition_eq_none_iff (t : PositionTracker) (symbol : SymbolId) :
    t.getPosition symbol = none ↔ t.count symbol = 0 :=
  SlotTable.find_eq_none_iff _ _

/-- A tracker is its slots. -/
theorem eq_of_slots {t t' : PositionTracker} (h : t.slots = t'.slots) : t = t' := by
  cases t
  cases t'
  cases h
  rfl

/-- The slots behind `open_position`: the first free one is taken, if there is one. -/
theorem slots_openPosition (t : PositionTracker) (pos : Position) :
    (t.openPosition pos).slots = (SlotTable.put pos t.slots).getD t.slots := by
  unfold openPosition
  split
  · rename_i h
    rw [h, Option.getD_none]
  · rename_i h
    simp only [h, Option.getD_some]

/-- The slots behind `close_position`: the first one of the symbol is freed, if there is one. -/
theorem slots_closePosition (t : PositionTracker) (symbol : SymbolId) :
    (t.closePosition symbol).slots =
      ((SlotTable.take (ofSymbol symbol) t.slots).map fun r => r.2).getD t.slots := by
  unfold closePosition
  split
  · rename_i h
    rw [h, Option.map_none, Option.getD_none]
  · rename_i h
    simp only [h, Option.map_some, Option.getD_some]

/-- Opening into a tracker with a free slot takes one. -/
theorem freeSlots_openPosition (t : PositionTracker) (pos : Position) (hfree : 0 < t.freeSlots) :
    (t.openPosition pos).freeSlots + 1 = t.freeSlots := by
  unfold openPosition freeSlots
  split
  · rename_i h
    have := (SlotTable.put_isSome_iff pos t.slots).mpr hfree
    simp [h] at this
  · rename_i h
    exact SlotTable.free_put h

/-- Closing a symbol removes one of its slots, if it has any. -/
theorem count_closePosition (t : PositionTracker) (symbol : SymbolId) :
    (t.closePosition symbol).count symbol = t.count symbol - 1 := by
  unfold closePosition count
  split
  · rename_i h
    have := (SlotTable.take_eq_none_iff _ _).mp h
    omega
  · rename_i h
    have := (SlotTable.occurrences_take h).1
    simp only
    omega

/-- Closing a tracked symbol frees a slot; closing an untracked one changes nothing. -/
theorem freeSlots_closePosition (t : PositionTracker) (symbol : SymbolId) :
    (t.closePosition symbol).freeSlots =
      if t.count symbol = 0 then t.freeSlots else t.freeSlots + 1 := by
  unfold closePosition count freeSlots
  split
  · rename_i h
    simp [(SlotTable.take_eq_none_iff _ _).mp h]
  · rename_i h
    have := SlotTable.occurrences_take h
    rw [if_neg (by omega)]
    exact this.2

/-- Opening into a tracker with a free slot adds the position's symbol once. -/
theorem count_openPosition (t : PositionTracker) (pos : Position) (hfree : 0 < t.freeSlots) :
    (t.openPosition pos).count pos.symbol = t.count pos.symbol + 1 := by
  unfold openPosition count
  split
  · rename_i h
    have := (SlotTable.put_isSome_iff pos t.slots).mpr hfree
    simp [h] at this
  · rename_i h
    simp [SlotTable.occurrences_put _ h, ofSymbol]

/-- A full tracker ignores the position. -/
theorem openPosition_of_full (t : PositionTracker) (pos : Position) (hfull : t.freeSlots = 0) :
    t.openPosition pos = t := by
  unfold openPosition
  split
  · rfl
  · rename_i h
    have := (SlotTable.put_isSome_iff pos t.slots).mp (by simp [h])
    exact absurd hfull this.ne'

/-- A position that is opened for an untracked symbol is the one found for it. -/
theorem getPosition_openPosition (t : PositionTracker) (pos : Position)
    (hfree : 0 < t.freeSlots) (habsent : t.count pos.symbol = 0) :
    (t.openPosition pos).getPosition pos.symbol = some pos := by
  unfold openPosition getPosition
  split
  · rename_i h
    have := (SlotTable.put_isSome_iff pos t.slots).mpr hfree
    simp [h] at this
  · rename_i h
    exact SlotTable.find_put habsent (by simp [ofSymbol]) h

/-- Closing and reopening a symbol that is tracked at most once leaves the new position, if
the tracker has a slot for it. -/
theorem reopen_spec (t : PositionTracker) (snap : Position) (hone : t.count snap.symbol ≤ 1) :
    (((t.closePosition snap.symbol).openPosition snap).count snap.symbol ≤ 1) ∧
      ((t.closePosition snap.symbol).openPosition snap).getPosition snap.symbol =
        if 0 < t.freeSlots + t.count snap.symbol then some snap else none := by
  have hcount := t.count_closePosition snap.symbol
  have hfree := t.freeSlots_closePosition snap.symbol
  have habsent : (t.closePosition snap.symbol).count snap.symbol = 0 := by omega
  by_cases hslot : 0 < t.freeSlots + t.count snap.symbol
  · have hroom : 0 < (t.closePosition snap.symbol).freeSlots := by
      rw [hfree]
      split_ifs <;> omega
    rw [if_pos hslot]
    constructor
    · rw [count_openPosition _ _ hroom, habsent]
    · exact getPosition_openPosition _ _ hroom habsent
  · have hfull : (t.closePosition snap.symbol).freeSlots = 0 := by
      rw [hfree, if_pos (by omega)]
      omega
    rw [if_neg hslot, openPosition_of_full _ _ hfull]
    constructor
    · omega
    · exact (getPosition_eq_none_iff _ _).mpr habsent

/-- A symbol has a position exactly when some slot holds one of it. -/
theorem getPosition_isSome_iff (t : PositionTracker) (symbol : SymbolId) :
    (t.getPosition symbol).isSome = true ↔
      ∃ pos ∈ t.slots.filterMap id, pos.symbol = symbol := by
  rw [getPosition, SlotTable.find_eq_find?, List.find?_isSome]
  simp only [ofSymbol, decide_eq_true_eq]

/-! ## Other symbols -/

/-- What is found under a symbol is of that symbol. -/
theorem symbol_of_getPosition {t : PositionTracker} {symbol : SymbolId} {pos : Position}
    (h : t.getPosition symbol = some pos) : pos.symbol = symbol := by
  simpa [ofSymbol] using SlotTable.find_some h

/-- Both trackers have the same positions but for one symbol. -/
structure AgreeOff (symbol : SymbolId) (t t' : PositionTracker) : Prop where
  get : ∀ other, other ≠ symbol → t'.getPosition other = t.getPosition other
  count : ∀ other, other ≠ symbol → t'.count other = t.count other

/-- A tracker agrees with itself off any symbol. -/
theorem agreeOff_refl (symbol : SymbolId) (t : PositionTracker) : AgreeOff symbol t t :=
  ⟨fun _ _ => rfl, fun _ _ => rfl⟩

/-- Two steps that agree off a symbol do so together. -/
theorem AgreeOff.trans {symbol : SymbolId} {t t' t'' : PositionTracker}
    (h : AgreeOff symbol t t') (h' : AgreeOff symbol t' t'') : AgreeOff symbol t t'' where
  get := fun other hne => (h'.get other hne).trans (h.get other hne)
  count := fun other hne => (h'.count other hne).trans (h.count other hne)

/-- Closing a symbol touches no other. -/
theorem agreeOff_closePosition (t : PositionTracker) (symbol : SymbolId) :
    AgreeOff symbol t (t.closePosition symbol) := by
  unfold closePosition
  split
  · exact agreeOff_refl symbol t
  · rename_i h
    have hfind := fun (other : SymbolId) (hne : other ≠ symbol) =>
      SlotTable.find_take_of_disjoint (r := ofSymbol other) (fun pos hpos => by
        simp only [ofSymbol, decide_eq_true_eq] at hpos
        simp [ofSymbol, hpos, Ne.symm hne]) h
    exact ⟨fun other hne => (hfind other hne).1, fun other hne => (hfind other hne).2⟩

/-- Opening a position touches no other symbol. -/
theorem agreeOff_openPosition (t : PositionTracker) (pos : Position) :
    AgreeOff pos.symbol t (t.openPosition pos) := by
  unfold openPosition
  split
  · exact agreeOff_refl pos.symbol t
  · rename_i h
    constructor
    · intro other hne
      refine SlotTable.find_put_of_not ?_ h
      simp [ofSymbol, Ne.symm hne]
    · intro other hne
      unfold count
      rw [SlotTable.occurrences_put _ h]
      simp [ofSymbol, Ne.symm hne]

end PositionTracker

end SpotRelay.Model
