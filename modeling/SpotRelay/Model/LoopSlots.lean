import SpotRelay.Model.Types

/-!
# The lifecycle slots, one atomic access at a time

`g_active_loops` and the suppression flag as `try_claim_lifecycle_slot`,
`release_claimed_lifecycle_slot` and the destructor of `LoopGuard` use them
(main.cpp:61-76, 881-900).  Any number of threads claim and release; a load, a compare-exchange,
a `fetch_sub` and a store of the flag are one step each.  There is no critical stop and no manual
mode here, so nobody else writes the flag.
-/

set_option autoImplicit false

namespace SpotRelay.Model

structure LoopSlots where
  maxPositions : MaxPositions
  /-- `g_active_loops`. -/
  activeLoops : ℤ := 0
  /-- `entry_suppressed_`. -/
  entrySuppressed : Bool := false
  /-- `current` of every thread inside `try_claim_lifecycle_slot`. -/
  loaded : List ℤ := []
  /-- Slots whose claim has returned and that have not been released. -/
  held : ℕ := 0
  /-- The `set_entry_suppressed` calls still to be made, for the oldest change of the counter
  first. -/
  stores : List Bool := []
deriving DecidableEq

namespace LoopSlots

/-- A thread enters `try_claim_lifecycle_slot` and loads the counter. -/
def load (s : LoopSlots) : LoopSlots := { s with loaded := s.loaded ++ [s.activeLoops] }

/-- One round of the loop of `try_claim_lifecycle_slot`, for the `i`-th thread in it.  The weak
compare-exchange may fail for no reason; a failure reloads `current`.  The claim of the last slot
returns after its store. -/
def compareExchange (s : LoopSlots) (i : ℕ) (spurious : Bool) : LoopSlots :=
  match s.loaded[i]? with
  | none => s
  | some current =>
    if (s.maxPositions.val : ℤ) ≤ current then { s with loaded := s.loaded.eraseIdx i }
    else if spurious ∨ s.activeLoops ≠ current then
      { s with loaded := s.loaded.set i s.activeLoops }
    else
      let s := { s with activeLoops := current + 1, loaded := s.loaded.eraseIdx i }
      if (s.maxPositions.val : ℤ) ≤ current + 1 then { s with stores := s.stores ++ [true] }
      else { s with held := s.held + 1 }

/-- `fetch_sub` of `release_claimed_lifecycle_slot` or of `~LoopGuard`, by the owner of a
slot. -/
def release (s : LoopSlots) : LoopSlots :=
  match s.held with
  | 0 => s
  | held + 1 =>
    let remaining := s.activeLoops - 1
    let s := { s with activeLoops := remaining, held := held }
    if remaining < s.maxPositions.val then { s with stores := s.stores ++ [false] } else s

/-- The `i`-th outstanding `set_entry_suppressed`. -/
def store (s : LoopSlots) (i : ℕ) : LoopSlots :=
  match s.stores[i]? with
  | none => s
  | some value =>
    { s with
      entrySuppressed := value
      held := if value then s.held + 1 else s.held
      stores := s.stores.eraseIdx i }

end LoopSlots

inductive SlotEvent
  | load
  | compareExchange (i : ℕ) (spurious : Bool)
  | release
  | store (i : ℕ)
deriving DecidableEq

def slotStep (s : LoopSlots) : SlotEvent → LoopSlots
  | .load => s.load
  | .compareExchange i spurious => s.compareExchange i spurious
  | .release => s.release
  | .store i => s.store i

/-- The slots over a run from the start of the process. -/
def runSlots (maxPositions : MaxPositions) (events : List SlotEvent) : LoopSlots :=
  events.foldl slotStep { maxPositions := maxPositions }

end SpotRelay.Model
