import SpotRelay.Model.PriceCache

/-!
# One price entry, one atomic access at a time

`PriceCache::update` and `get_price` (arbitrage_engine.hpp:195-273) as several threads call them
for one key: the lookup under the lock, every relaxed store and every load are one step each.
The fast path of `update` holds the lock shared, so two updates and a read may overlap; only the
creation of the entry is exclusive.
-/

set_option autoImplicit false

namespace SpotRelay.Model

/-- The fields of a `PriceEntry`, in the order in which `update` stores them. -/
inductive PriceField
  | bid
  | ask
  | bidQty
  | askQty
  | last
  | timestamp
deriving DecidableEq, Repr

/-- A price, a size or a time. -/
inductive FieldValue
  | amount (value : ℚ)
  | time (value : UInt64)
deriving DecidableEq

def PriceEntry.field (entry : PriceEntry) : PriceField → FieldValue
  | .bid => .amount entry.bid
  | .ask => .amount entry.ask
  | .bidQty => .amount entry.bidQty
  | .askQty => .amount entry.askQty
  | .last => .amount entry.last
  | .timestamp => .time entry.timestamp

def PriceData.field (data : PriceData) : PriceField → FieldValue
  | .bid => .amount data.bid
  | .ask => .amount data.ask
  | .bidQty => .amount data.bidQty
  | .askQty => .amount data.askQty
  | .last => .amount data.last
  | .timestamp => .time data.timestamp

/-- The `PriceData` that `get_price` makes of an entry. -/
def PriceEntry.priceData (entry : PriceEntry) : PriceData :=
  { bid := entry.bid
    ask := entry.ask
    bidQty := entry.bidQty
    askQty := entry.askQty
    last := entry.last
    timestamp := entry.timestamp
    valid := true }

/-- One call of `update`: its number and its values, the timestamp resolved. -/
structure PriceUpdate where
  id : ℕ
  values : PriceEntry
deriving DecidableEq

/-- The call stores the field: an empty size is not stored over an old one. -/
def PriceUpdate.brings (u : PriceUpdate) : PriceField → Bool
  | .bidQty => decide (0 < u.values.bidQty)
  | .askQty => decide (0 < u.values.askQty)
  | _ => true

namespace PriceField

/-- The store after this one, `none` after the timestamp. -/
def nextStore : PriceField → Option PriceField
  | bid => some ask
  | ask => some bidQty
  | bidQty => some askQty
  | askQty => some last
  | last => some timestamp
  | timestamp => none

/-- The load after this one: `get_price` loads the timestamp first. -/
def nextLoad : PriceField → Option PriceField
  | timestamp => some bid
  | bid => some ask
  | ask => some bidQty
  | bidQty => some askQty
  | askQty => some last
  | last => none

end PriceField

/-- A relaxed store of one field. -/
def PriceEntry.store (entry values : PriceEntry) : PriceField → PriceEntry
  | .bid => { entry with bid := values.bid }
  | .ask => { entry with ask := values.ask }
  | .bidQty => { entry with bidQty := values.bidQty }
  | .askQty => { entry with askQty := values.askQty }
  | .last => { entry with last := values.last }
  | .timestamp => { entry with timestamp := values.timestamp }

/-- A load of one field. -/
def PriceData.load (seen : PriceData) (entry : PriceEntry) : PriceField → PriceData
  | .bid => { seen with bid := entry.bid }
  | .ask => { seen with ask := entry.ask }
  | .bidQty => { seen with bidQty := entry.bidQty }
  | .askQty => { seen with askQty := entry.askQty }
  | .last => { seen with last := entry.last }
  | .timestamp => { seen with timestamp := entry.timestamp }

/-! ## State -/

/-- What a `get_price` returned, and the updates that its fields are of (ghost). -/
structure ReturnedPrice where
  data : PriceData
  source : PriceField → PriceUpdate

/-- A call in progress, named by its next step. -/
inductive PriceCall
  | updateLookup (u : PriceUpdate)
  /-- Under the shared lock. -/
  | updateStore (u : PriceUpdate) (f : PriceField)
  /-- Waiting for the exclusive lock. -/
  | updateCreate (u : PriceUpdate)
  | getLookup
  /-- Under the shared lock. -/
  | getLoad (f : PriceField) (seen : ReturnedPrice)

namespace PriceCall

def isStoring : PriceCall → Bool
  | updateStore _ _ => true
  | _ => false

/-- The call holds the lock shared. -/
def holdsLock : PriceCall → Bool
  | updateStore _ _ | getLoad _ _ => true
  | _ => false

end PriceCall

structure SharedPrice where
  /-- The entry of the key in its shard. -/
  entry : Option PriceEntry := none
  calls : List PriceCall := []
  /-- The calls of `update` so far (ghost). -/
  updates : List PriceUpdate := []
  /-- The calls that stored a field, newest first (ghost). -/
  stores : PriceField → List PriceUpdate := fun _ => []
  /-- The calls that took the slow path (ghost). -/
  created : List PriceUpdate := []
  /-- What the `get_price` calls returned (ghost). -/
  returned : List ReturnedPrice := []

/-- Before anything is loaded. -/
def ReturnedPrice.unread : ReturnedPrice := ⟨{ valid := true }, fun _ => ⟨0, {}⟩⟩

namespace SharedPrice

/-! ## Steps -/

/-- Call `i` goes on with `call`, or returns. -/
def goOn (s : SharedPrice) (i : ℕ) (call : PriceCall) : SharedPrice :=
  { s with calls := s.calls.set i call }

def finish (s : SharedPrice) (i : ℕ) : SharedPrice := { s with calls := s.calls.eraseIdx i }

/-- The first of the two lookups of `update`. -/
def updateLookup (s : SharedPrice) (i : ℕ) (u : PriceUpdate) : SharedPrice :=
  match s.entry with
  | some _ => s.goOn i (.updateStore u .bid)
  | none => s.goOn i (.updateCreate u)

/-- The effect of one store of the fast path. -/
def stored (s : SharedPrice) (u : PriceUpdate) (f : PriceField) : SharedPrice :=
  if u.brings f then
    { s with
      entry := s.entry.map fun entry => entry.store u.values f
      stores := fun g => if g = f then u :: s.stores g else s.stores g }
  else s

def updateStore (s : SharedPrice) (i : ℕ) (u : PriceUpdate) (f : PriceField) : SharedPrice :=
  match f.nextStore with
  | some g => (s.stored u f).goOn i (.updateStore u g)
  | none => (s.stored u f).finish i

/-- The slow path: the exclusive lock is not given while another call holds it shared, and
every field is stored, an empty size too. -/
def updateCreate (s : SharedPrice) (i : ℕ) (u : PriceUpdate) : SharedPrice :=
  if s.calls.any PriceCall.holdsLock then s
  else
    { s.finish i with
      entry := some u.values
      stores := fun f => u :: s.stores f
      created := u :: s.created }

def getLookup (s : SharedPrice) (i : ℕ) : SharedPrice :=
  match s.entry with
  | some _ => s.goOn i (.getLoad .timestamp .unread)
  | none => { s.finish i with returned := s.returned ++ [⟨{}, fun _ => ⟨0, {}⟩⟩] }

/-- One load, with the update that the value is of. -/
def loaded (s : SharedPrice) (seen : ReturnedPrice) (f : PriceField) : ReturnedPrice :=
  match s.entry, s.stores f with
  | some entry, u :: _ => ⟨seen.data.load entry f, fun g => if g = f then u else seen.source g⟩
  | _, _ => seen

def getLoad (s : SharedPrice) (i : ℕ) (f : PriceField) (seen : ReturnedPrice) : SharedPrice :=
  match f.nextLoad with
  | some g => s.goOn i (.getLoad g (s.loaded seen f))
  | none => { s.finish i with returned := s.returned ++ [s.loaded seen f] }

/-- The next step of a call. -/
def advanceCall (s : SharedPrice) (i : ℕ) : PriceCall → SharedPrice
  | .updateLookup u => s.updateLookup i u
  | .updateStore u f => s.updateStore i u f
  | .updateCreate u => s.updateCreate i u
  | .getLookup => s.getLookup i
  | .getLoad f seen => s.getLoad i f seen

end SharedPrice

inductive PriceEvent
  /-- A thread calls `update` with these values. -/
  | update (values : PriceEntry)
  | getPrice
  /-- Call `i` takes its next step. -/
  | advance (i : ℕ)
deriving DecidableEq

def priceStep (s : SharedPrice) : PriceEvent → SharedPrice
  | .update values =>
    let u : PriceUpdate := ⟨s.updates.length, values⟩
    { s with calls := s.calls ++ [.updateLookup u], updates := s.updates ++ [u] }
  | .getPrice => { s with calls := s.calls ++ [.getLookup] }
  | .advance i =>
    match s.calls[i]? with
    | none => s
    | some call => s.advanceCall i call

def runPrices (events : List PriceEvent) : SharedPrice := events.foldl priceStep {}

/-! ## One call alone -/

/-- An `update` that no other call overlaps. -/
def updateAlone (values : PriceEntry) : List PriceEvent :=
  .update values :: List.replicate 7 (.advance 0)

/-- It leaves the entry that `PriceCache.update` leaves. -/
theorem entry_updateAlone (s : SharedPrice) (hidle : s.calls = []) (ticker : Ticker)
    (nowMs : UInt64) :
    ((updateAlone (PriceCache.updatedEntry none ticker nowMs)).foldl priceStep s).entry =
      some (PriceCache.updatedEntry s.entry ticker nowMs) := by
  obtain ⟨entry, calls, updates, stores, created, returned⟩ := s
  subst hidle
  cases entry with
  | none => rfl
  | some entry =>
    by_cases hbid : 0 < ticker.bidQty <;> by_cases hask : 0 < ticker.askQty <;>
      simp [updateAlone, priceStep, SharedPrice.advanceCall, SharedPrice.updateLookup,
        SharedPrice.updateStore, SharedPrice.stored, SharedPrice.goOn, SharedPrice.finish,
        PriceUpdate.brings, PriceField.nextStore, PriceEntry.store, PriceCache.updatedEntry,
        hbid, hask]

end SpotRelay.Model
