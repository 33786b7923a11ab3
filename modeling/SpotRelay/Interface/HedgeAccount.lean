import SpotRelay.Model.EntryLoop
import SpotRelay.Library.RunningTotal

/-!
# The hedge account

What the position is about, independent of how the loop keeps its books: the coins the
Korean venue holds for the bot, the coins it owes the foreign venue, everything that was
moved, and the money that changed hands.  All four are tallies over the executed trades.
-/

set_option autoImplicit false

namespace SpotRelay.Interface

open SpotRelay.Model SpotRelay.Library.RunningTotal

/-- Coins bought, negative for coins sold. -/
def signedQty (t : Trade) : ℚ :=
  match t.side with
  | .buy => t.quantity
  | .sell => -t.quantity

/-- What a trade adds to the Korean long. -/
def koreanLong (t : Trade) : ℚ :=
  match t.leg with
  | .korean => signedQty t
  | .foreign => 0

/-- What a trade adds to the foreign short. -/
def foreignShort (t : Trade) : ℚ :=
  match t.leg with
  | .korean => 0
  | .foreign => -signedQty t

/-- The quantity a trade moves. -/
def moved (t : Trade) : ℚ := |t.quantity|

/-- The cash a trade brings in, in KRW at the rate `r`. -/
def cash (r : ℚ) (t : Trade) : ℚ :=
  match t.leg with
  | .korean => -(signedQty t * t.price)
  | .foreign => -(signedQty t * t.price) * r

/-! ## Tallies -/

/-- The sum of an observable over the trades of some orders. -/
def tally (g : Trade → ℚ) (fills : List Fill) : ℚ :=
  (fills.map fun f => (f.trades.map g).sum).sum

/-- Without fills nothing is counted. -/
@[simp] theorem tally_nil (g : Trade → ℚ) : tally g [] = 0 := rfl

/-- The trades of the first fill are counted before the rest. -/
@[simp] theorem tally_cons (g : Trade → ℚ) (f : Fill) (fills : List Fill) :
    tally g (f :: fills) = (f.trades.map g).sum + tally g fills := by
  simp [tally]

/-- Two batches of fills are counted one after the other. -/
@[simp] theorem tally_append (g : Trade → ℚ) (fs fs' : List Fill) :
    tally g (fs ++ fs') = tally g fs + tally g fs' := by
  simp [tally]

/-- What an event contributes to an observable. -/
def eventTally (g : Trade → ℚ) : Event → ℚ
  | .orders fills => tally g fills
  | _ => 0

/-- The sum of an observable over a trace. -/
def traceTally (g : Trade → ℚ) (events : List Event) : ℚ := (events.map (eventTally g)).sum

/-- An empty trace counts nothing. -/
@[simp] theorem traceTally_nil (g : Trade → ℚ) : traceTally g [] = 0 := rfl

/-- Two parts of a trace are counted one after the other. -/
@[simp] theorem traceTally_append (g : Trade → ℚ) (es es' : List Event) :
    traceTally g (es ++ es') = traceTally g es + traceTally g es' := by
  simp [traceTally]

/-- A cycle ends where the loop resets its totals. -/
def endsCycle : Event → Bool
  | .cycleReset => true
  | _ => false

/-- The net cash flow since the last full exit, or since `opening` when there was none. -/
def cycleCash (r opening : ℚ) (events : List Event) : ℚ :=
  runningTotal endsCycle (eventTally (cash r)) opening events

/-! ## What an order tells the order manager -/

/-- The coins the venue executed for an order. -/
def executed (f : Fill) : ℚ := (f.trades.map Trade.quantity).sum

/-- The order was never submitted, or what it executed is one trade on the given side. -/
def OnSide (leg : Leg) (side : Side) (trades : List Trade) : Prop :=
  trades = [] ∨ ∃ quantity price, trades = [⟨leg, side, quantity, price⟩]

/-- The order manager takes an order as done exactly when coins were executed for it. -/
def Decisive (f : Fill) : Prop := f.done = true ↔ 0 < executed f

/-- The order manager's view of an order is the truth: an order it takes as done executed
the resolved quantity at the reported price, and any other order executed nothing. -/
structure Sound (f : Fill) : Prop where
  done : f.done = true → ∃ t, f.trades = [t] ∧ t.quantity = resolvedFillQuantity f.order ∧
    t.price = f.order.averagePrice ∧ 0 < t.price
  notDone : f.done = false → ∀ t ∈ f.trades, t.quantity = 0

/-- A fill is sound when a finished order was executed as reported and an unfinished one not at all.
-/
theorem sound_iff (f : Fill) :
    Sound f ↔ (f.done = true → f.trades.length = 1 ∧ ∀ t ∈ f.trades,
        t.quantity = resolvedFillQuantity f.order ∧ t.price = f.order.averagePrice ∧ 0 < t.price) ∧
      (f.done = false → ∀ t ∈ f.trades, t.quantity = 0) := by
  constructor
  · intro h
    refine ⟨?_, h.notDone⟩
    intro hd
    obtain ⟨t, hone, ht⟩ := h.done hd
    rw [hone]
    simpa using ht
  · intro h
    refine ⟨?_, h.2⟩
    intro hd
    obtain ⟨hlength, ht⟩ := h.1 hd
    obtain ⟨t, hone⟩ := List.length_eq_one_iff.mp hlength
    exact ⟨t, hone, ht t (by simp [hone])⟩

instance (f : Fill) : Decidable (Sound f) := decidable_of_iff _ (sound_iff f).symm

end SpotRelay.Interface
