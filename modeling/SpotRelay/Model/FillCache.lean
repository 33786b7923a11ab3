import SpotRelay.Model.BithumbMessages
import SpotRelay.Model.Clients

/-!
# The fill query of Bithumb, one wait at a time

`BithumbExchange::query_order_detail` (bithumb.cpp:1346-1472) beside the private WebSocket: the
message handler stores the last fill of each order in a cache, and the query takes it from there,
or waits for it, or asks the REST interface.  The cache is read and written under one lock, so
that a message falls between two steps of the query.
-/

set_option autoImplicit false

namespace SpotRelay.Model

/-! ## Messages -/

/-- A field of a private message, as far as the handler tells values apart. -/
inductive MessageValue
  | text (sv : List Char)
  | number (value : ℚ)
  | other
deriving DecidableEq

/-- `parse_number`. -/
def MessageValue.parseNumber : MessageValue → ℚ
  | text sv => fastStod sv
  | number value => value
  | other => 0

/-- A message of the private WebSocket, with the fields that simdjson reads from it. -/
structure PrivateMessage where
  text : List Char
  object : Elements (List Char × MessageValue)
deriving DecidableEq

/-- The fields that `on_private_ws_message` collects. -/
inductive MyOrderField
  | type
  | orderId
  | state
  | executedVolume
  | executedFunds
deriving DecidableEq, Repr

/-- The field of a key, which has a short and a long name. -/
def myOrderField (key : List Char) : Option MyOrderField :=
  if key = "ty".toList ∨ key = "type".toList then some .type
  else if key = "uid".toList ∨ key = "uuid".toList then some .orderId
  else if key = "s".toList ∨ key = "state".toList then some .state
  else if key = "ev".toList ∨ key = "executed_volume".toList then some .executedVolume
  else if key = "ef".toList ∨ key = "executed_funds".toList then some .executedFunds
  else none

structure MyOrderFields where
  type : List Char := []
  orderId : List Char := []
  state : List Char := []
  executedVolume : ℚ := 0
  executedFunds : ℚ := 0
deriving DecidableEq

namespace MyOrderFields

/-- A text is taken from a text value only. -/
def set (fields : MyOrderFields) (field : MyOrderField) (value : MessageValue) : MyOrderFields :=
  match field, value with
  | .type, .text sv => { fields with type := sv }
  | .orderId, .text sv => { fields with orderId := sv }
  | .state, .text sv => { fields with state := sv }
  | .executedVolume, value => { fields with executedVolume := value.parseNumber }
  | .executedFunds, value => { fields with executedFunds := value.parseNumber }
  | _, _ => fields

/-- One field of the object. -/
def collect (fields : MyOrderFields) (field : List Char × MessageValue) : MyOrderFields :=
  match myOrderField field.1 with
  | some name => fields.set name field.2
  | none => fields

/-- The fields of a fill: an order that has executed, in one of three states. -/
def isFill (fields : MyOrderFields) : Bool :=
  fields.type = "myOrder".toList ∧ fields.orderId ≠ [] ∧ fields.state ≠ [] ∧
    ¬ (fields.executedVolume ≤ 0 ∨ fields.executedFunds ≤ 0) ∧
      (fields.state = "trade".toList ∨ fields.state = "done".toList ∨
        fields.state = "cancel".toList)

end MyOrderFields

/-- What the handler makes of the object. -/
def PrivateMessage.fields (message : PrivateMessage) : MyOrderFields :=
  message.object.items.foldl MyOrderFields.collect {}

/-- `FillInfo`. -/
structure FillInfo where
  avgPrice : ℚ
  filledQty : ℚ
deriving DecidableEq

/-! ## State -/

/-- Where a call of `query_order_detail` is. -/
inductive QueryPhase
  | idle
  /-- In `wait_for` on the condition variable. -/
  | waiting
  /-- Before the REST attempt of this number. -/
  | polling (attempt : ℕ)
deriving DecidableEq, Repr

/-- What a call returned, and the order that it filled in. -/
structure QueryResult where
  found : Bool
  order : Order
deriving DecidableEq

structure FillClient where
  fillCache : List Char → Option FillInfo := fun _ => none
  privateWsAuthenticated : Bool := false
  query : QueryPhase := .idle
  order : Order := {}
  /-- The calls that have returned (ghost). -/
  returned : List QueryResult := []

namespace FillClient

/-- `on_private_ws_message` (bithumb.cpp:956-1032); an exception leaves the cache as it is. -/
def onPrivateWsMessage (s : FillClient) (message : PrivateMessage) : FillClient :=
  match findAfter "myOrder".toList message.text with
  | none => s
  | some _ =>
    if message.object.complete && message.fields.isFill then
      { s with
        fillCache := Function.update s.fillCache message.fields.orderId
          (some
            { filledQty := message.fields.executedVolume
              avgPrice := message.fields.executedFunds / message.fields.executedVolume }) }
    else s

/-! ## The query -/

def finish (s : FillClient) (found : Bool) (order : Order) : FillClient :=
  { s with query := .idle, order := order, returned := s.returned ++ [⟨found, order⟩] }

/-- `apply_fill`: the cached fill is used up, and the call returns. -/
def applyFill (s : FillClient) (orderId : List Char) (fill : FillInfo) : FillClient :=
  { s with fillCache := Function.update s.fillCache orderId none }.finish true
    { s.order with averagePrice := fill.avgPrice, filledQuantity := fill.filledQty }

/-- The call of `query_order_detail`, up to the wait. -/
def queryOrderDetail (s : FillClient) (orderId : List Char) : FillClient :=
  match s.fillCache orderId with
  | some fill => s.applyFill orderId fill
  | none => { s with query := if s.privateWsAuthenticated then .waiting else .polling 0 }

/-- The waiting call wakes, and sleeps on if there is nothing for it. -/
def wake (s : FillClient) (orderId : List Char) : FillClient :=
  match s.fillCache orderId with
  | some fill => s.applyFill orderId fill
  | none => s

/-- The wait ends after its time, with a last look at the cache. -/
def timeout (s : FillClient) (orderId : List Char) : FillClient :=
  match s.fillCache orderId with
  | some fill => s.applyFill orderId fill
  | none => { s with query := .polling 0 }

/-- The number of delays in `v1_fast_delays_ms`. -/
def restAttempts : ℕ := 7

/-- A REST attempt and what `query_order_detail_v1` makes of its answer. -/
def restAnswer (s : FillClient) (attempt : ℕ) (body : Option OrderBody) : FillClient :=
  match queryOrderDetailV1 body s.order with
  | some order => s.finish true order
  | none =>
    if attempt + 1 < restAttempts then { s with query := .polling (attempt + 1) }
    else s.finish false s.order

/-! ## Connection -/

/-- The two callbacks of the private WebSocket. -/
def privateConnected (s : FillClient) : FillClient := { s with privateWsAuthenticated := true }

def privateDisconnected (s : FillClient) : FillClient := { s with privateWsAuthenticated := false }

/-- `BithumbExchange::disconnect`, as far as the fills go (bithumb.cpp:320-342). -/
def disconnect (s : FillClient) : FillClient :=
  { s with privateWsAuthenticated := false, fillCache := fun _ => none }

end FillClient

/-- What happens to a client that queries the order `orderId`. -/
inductive FillEvent
  | message (message : PrivateMessage)
  | privateConnected
  | privateDisconnected
  | disconnect
  | query
  | wake
  | timeout
  | restAnswer (body : Option OrderBody)

/-- The event is a message of the order. -/
def FillEvent.isMessageOf (orderId : List Char) : FillEvent → Bool
  | .message m => m.fields.orderId = orderId
  | _ => false

/-- A step of the query is taken in its own phase only. -/
def fillStep (orderId : List Char) (s : FillClient) : FillEvent → FillClient
  | .message message => s.onPrivateWsMessage message
  | .privateConnected => s.privateConnected
  | .privateDisconnected => s.privateDisconnected
  | .disconnect => s.disconnect
  | .query => if s.query = .idle then s.queryOrderDetail orderId else s
  | .wake => if s.query = .waiting then s.wake orderId else s
  | .timeout => if s.query = .waiting then s.timeout orderId else s
  | .restAnswer body =>
    match s.query with
    | .polling attempt => s.restAnswer attempt body
    | _ => s

end SpotRelay.Model
