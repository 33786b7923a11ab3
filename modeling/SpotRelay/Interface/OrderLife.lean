import SpotRelay.Model.FillCache
import Mathlib.Algebra.Order.BigOperators.Group.List

/-!
# One order of the exchange, execution by execution

An order is executed in parts.  After each part the exchange sends a `trade` message with what
has been executed so far, and at the end a `done` or `cancel` message with the final totals.
Messages arrive in order, and may be lost while the private WebSocket is down.
-/

set_option autoImplicit false

namespace SpotRelay.Interface

open SpotRelay.Model

/-- The executions of an order, volume and funds, and how it ends. -/
structure OrderLife where
  orderId : List Char
  executions : List (ℚ × ℚ)
  cancelled : Bool
  orderId_ne : orderId ≠ []
  executions_pos : ∀ e ∈ executions, 0 < e.1 ∧ 0 < e.2

namespace OrderLife

variable (life : OrderLife)

/-- The volume and the funds of the first `k` executions. -/
def volume (k : ℕ) : ℚ := ((life.executions.take k).map Prod.fst).sum

def funds (k : ℕ) : ℚ := ((life.executions.take k).map Prod.snd).sum

/-- The totals of the final state. -/
def finalVolume : ℚ := life.volume life.executions.length

def finalFunds : ℚ := life.funds life.executions.length

/-- The state that message `i` reports; the one after the executions is the last. -/
def messageState (i : ℕ) : List Char :=
  if i < life.executions.length then "trade".toList
  else if life.cancelled then "cancel".toList
  else "done".toList

/-- The part of the text that the handler looks for. -/
def messageText : List Char := "\"type\":\"myOrder\"".toList

/-- Message `i`, with the totals after execution `i`. -/
def message (i : ℕ) : PrivateMessage where
  text := messageText
  object :=
    { items :=
        [("type".toList, .text "myOrder".toList), ("uid".toList, .text life.orderId),
          ("s".toList, .text (life.messageState i)), ("ev".toList, .number (life.volume (i + 1))),
          ("ef".toList, .number (life.funds (i + 1)))]
      complete := true }

/-- An order as it finally is. -/
def IsFinal (order : Order) : Prop :=
  order.filledQuantity = life.finalVolume ∧ order.averagePrice = life.finalFunds / life.finalVolume

end OrderLife

/-! ## The order and the client -/

structure QueriedOrder where
  client : FillClient := {}
  /-- The number of the next message. -/
  next : ℕ := 0
  /-- The message that the client handled last. -/
  handled : Option ℕ := none

inductive OrderEvent
  /-- The next message arrives. -/
  | deliver
  /-- The next message is lost. -/
  | lose
  /-- A step of the client, or a message of another order. -/
  | client (event : FillEvent)

def orderStep (life : OrderLife) (s : QueriedOrder) : OrderEvent → QueriedOrder
  | .deliver =>
    if s.next ≤ life.executions.length then
      { client := fillStep life.orderId s.client (.message (life.message s.next))
        next := s.next + 1
        handled := some s.next }
    else s
  | .lose => if s.next ≤ life.executions.length then { s with next := s.next + 1 } else s
  | .client event =>
    if event.isMessageOf life.orderId then s
    else { s with client := fillStep life.orderId s.client event }

def runOrder (life : OrderLife) (events : List OrderEvent) : QueriedOrder :=
  events.foldl (orderStep life) {}

end SpotRelay.Interface
