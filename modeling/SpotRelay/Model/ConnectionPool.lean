import Mathlib.Data.Finset.Basic
import Mathlib.Logic.Function.Basic

/-!
# The pool of connections

`ConnectionPool` (connection_pool.hpp:128-440) in any number of threads, without `shutdown`.  A
block under `pool_mutex_` is one step where it makes no compare-exchange and no connection; a scan
for a free connection is a step for each compare-exchange, `create_connection` is a step that
may fail, and the stores of `release` and `mark_failed` are steps outside the mutex.  A connection
is its address, which the allocator may hand out again once the connection is destroyed.
-/

set_option autoImplicit false

namespace SpotRelay.Model

/-- `PooledConnection*`. -/
abbrev Address := ℕ

/-- `PooledConnection::State`. -/
inductive PooledConnection.State
  | disconnected
  | connecting
  | connected
  | inUse
  | failed
deriving DecidableEq, Repr

/-- The limits of `ConnectionPoolConfig` with their defaults, which `RestClient` sets as well. -/
structure ConnectionPoolConfig where
  poolSize : ℕ := 4
  maxPoolSize : ℕ := 8
deriving DecidableEq, Repr

/-- What a `PooledConnectionGuard` does next. -/
inductive GuardPhase
  /-- There is no guard, or `acquire` returned `nullptr`. -/
  | idle
  /-- The first loop of `acquire`, under the mutex, at connection `i`. -/
  | scanning (i : ℕ)
  /-- In `create_connection`, the mutex unlocked. -/
  | creating
  /-- `lock.lock()` after `create_connection`. -/
  | created (conn : Option Address)
  /-- `while (now < deadline)`, under the mutex. -/
  | deadline
  /-- In `pool_cv_.wait_until`. -/
  | waiting
  /-- The loop after a wait, under the mutex, at connection `i`. -/
  | rescanning (i : ℕ)
  /-- `acquire` returned the connection. -/
  | holding (conn : Address)
  /-- `mark_failed` has stored the state; `replace_connection` waits for the mutex. -/
  | failing (conn : Address)
  /-- In `create_connection` of `replace_connection`, under the mutex. -/
  | replacing (conn : Address)
deriving DecidableEq, Repr

namespace GuardPhase

/-- `conn_` of a guard that has one. -/
def conn : GuardPhase → Option Address
  | holding conn | failing conn | replacing conn => some conn
  | _ => none

/-- A connection that has been made and is in no pool yet. -/
def newConn : GuardPhase → Option Address
  | created conn => conn
  | _ => none

/-- Between the look at the size in `acquire` and the block that pushes. -/
def connects : GuardPhase → Bool
  | creating | created _ => true
  | _ => false

/-- A guard that is not connecting has no new connection in hand. -/
theorem newConn_of_connects {phase : GuardPhase} (h : phase.connects = false) :
    phase.newConn = none := by
  cases phase with
  | created => cases h
  | idle | scanning | creating | deadline | waiting | rescanning | holding | failing
  | replacing => rfl

/-- The phases under `pool_mutex_`. -/
def locked : GuardPhase → Bool
  | scanning _ | deadline | rescanning _ | replacing _ => true
  | _ => false

end GuardPhase

structure ConnectionPool where
  maxPoolSize : ℕ
  connections : List Address := []
  state : Address → PooledConnection.State := fun _ => .disconnected
  /-- The connections that exist. -/
  live : Finset Address := ∅
  /-- The guard that has `pool_mutex_`. -/
  mutex : Option ℕ := none
  guards : ℕ → GuardPhase := fun _ => .idle

inductive PoolEvent
  /-- A guard is constructed: `acquire` locks the mutex. -/
  | construct (guard : ℕ)
  /-- The next compare-exchange, end of a scan or locked block of a guard. -/
  | proceed (guard : ℕ)
  /-- `create_connection` returns. -/
  | create (guard : ℕ) (conn : Option Address)
  /-- The clock is read at the head of the wait loop. -/
  | readClock (guard : ℕ) (passed : Bool)
  /-- `wait_until` returns, with the mutex. -/
  | wake (guard : ℕ)
  /-- A guard is destructed, after `mark_failed()` or not. -/
  | destruct (guard : ℕ) (failed : Bool)
deriving DecidableEq, Repr

/-- The guard that makes the step. -/
def PoolEvent.guard : PoolEvent → ℕ
  | construct guard | proceed guard | create guard _ | readClock guard _ | wake guard
  | destruct guard _ => guard

namespace ConnectionPool

/-! ## Initial connections -/

/-- A connection that `create_connection` has made; nothing is made where something is. -/
def allocate (s : ConnectionPool) (conn : Address) : ConnectionPool :=
  { s with
    live := insert conn s.live
    state := Function.update s.state conn .connected }

/-- One round of the loop of `initialize`. -/
def preEstablish (s : ConnectionPool) (conn : Option Address) : ConnectionPool :=
  match conn with
  | none => s
  | some a =>
    if a ∈ s.live then s
    else { s.allocate a with connections := s.connections ++ [a] }

/-- `initialize` (connection_pool.hpp:219-239), with what its calls of `create_connection`
return. -/
def initialized (config : ConnectionPoolConfig) (made : ℕ → Option Address) : ConnectionPool :=
  (List.range config.poolSize).foldl (fun s i => s.preEstablish (made i))
    { maxPoolSize := config.maxPoolSize }

/-! ## The steps of a guard -/

def goTo (s : ConnectionPool) (guard : ℕ) (phase : GuardPhase) : ConnectionPool :=
  { s with guards := Function.update s.guards guard phase }

/-- The guard goes on under the mutex. -/
def lockAs (s : ConnectionPool) (guard : ℕ) (phase : GuardPhase) : ConnectionPool :=
  { s.goTo guard phase with mutex := some guard }

/-- The guard goes on without the mutex, which it had. -/
def unlockAs (s : ConnectionPool) (guard : ℕ) (phase : GuardPhase) : ConnectionPool :=
  { s.goTo guard phase with mutex := none }

/-- `try_acquire` and the `return` after it. -/
def claim (s : ConnectionPool) (guard : ℕ) (conn : Address) : ConnectionPool :=
  { s.unlockAs guard (.holding conn) with state := Function.update s.state conn .inUse }

/-- The compare-exchange of a scan at connection `i`: `next` while there is one and it is not
free, `done` past the last one. -/
def scan (s : ConnectionPool) (guard i : ℕ) (next done : ConnectionPool) : ConnectionPool :=
  match s.connections[i]? with
  | none => done
  | some conn => if s.state conn = .connected then s.claim guard conn else next

/-- The block after `create_connection` in `acquire`. -/
def pushNew (s : ConnectionPool) (guard : ℕ) (conn : Address) : ConnectionPool :=
  { s.goTo guard (.holding conn) with
    state := Function.update s.state conn .inUse
    connections := s.connections ++ [conn] }

def proceed (s : ConnectionPool) (guard : ℕ) : ConnectionPool :=
  match s.guards guard with
  | .scanning i =>
    s.scan guard i (s.goTo guard (.scanning (i + 1)))
      (if s.connections.length < s.maxPoolSize then s.unlockAs guard .creating
        else s.goTo guard .deadline)
  | .created conn =>
    if s.mutex.isSome then s
    else
      match conn with
      | some conn => s.pushNew guard conn
      | none => s.lockAs guard .deadline
  | .rescanning i =>
    s.scan guard i (s.goTo guard (.rescanning (i + 1))) (s.goTo guard .deadline)
  | .failing conn =>
    if s.mutex.isSome then s
    else if conn ∈ s.connections then s.lockAs guard (.replacing conn)
    else s.goTo guard .idle
  | _ => s

/-- `*it = std::move(new_conn)`. -/
def replaceWith (s : ConnectionPool) (guard : ℕ) (old new : Address) : ConnectionPool :=
  let s := s.allocate new
  { s.unlockAs guard .idle with
    connections := s.connections.replace old new
    live := s.live.erase old }

/-- `connections_.erase(it)`. -/
def eraseFailed (s : ConnectionPool) (guard : ℕ) (old : Address) : ConnectionPool :=
  { s.unlockAs guard .idle with
    connections := s.connections.erase old
    live := s.live.erase old }

/-- `create_connection` returns; a new connection has the address of no other one. -/
def create (s : ConnectionPool) (guard : ℕ) (conn : Option Address) : ConnectionPool :=
  match s.guards guard, conn with
  | .creating, none => s.goTo guard (.created none)
  | .creating, some a =>
    if a ∈ s.live then s else (s.allocate a).goTo guard (.created (some a))
  | .replacing old, none => s.eraseFailed guard old
  | .replacing old, some a => if a ∈ s.live then s else s.replaceWith guard old a
  | _, _ => s

/-- `~PooledConnectionGuard` up to its store: `release`, or `mark_failed` of the pool. -/
def destruct (s : ConnectionPool) (guard : ℕ) (failed : Bool) : ConnectionPool :=
  match s.guards guard with
  | .holding conn =>
    if failed then
      { s.goTo guard (.failing conn) with state := Function.update s.state conn .failed }
    else { s.goTo guard .idle with state := Function.update s.state conn .connected }
  | _ => s

def step (s : ConnectionPool) : PoolEvent → ConnectionPool
  | .construct guard =>
    if s.guards guard = .idle ∧ s.mutex = none then s.lockAs guard (.scanning 0) else s
  | .proceed guard => s.proceed guard
  | .create guard conn => s.create guard conn
  | .readClock guard passed =>
    if s.guards guard = .deadline then
      s.unlockAs guard (if passed then .idle else .waiting)
    else s
  | .wake guard =>
    if s.guards guard = .waiting ∧ s.mutex = none then s.lockAs guard (.rescanning 0) else s
  | .destruct guard failed => s.destruct guard failed

/-- The pool after `initialize` and any number of steps of any number of guards. -/
def after (config : ConnectionPoolConfig) (made : ℕ → Option Address) (events : List PoolEvent) :
    ConnectionPool :=
  events.foldl step (initialized config made)

/-- The connection that a guard has. -/
def held (s : ConnectionPool) (guard : ℕ) : Option Address := (s.guards guard).conn

/-- The guard is about to push a new connection onto a pool that has its maximum already. -/
def PushesPastMax (s : ConnectionPool) : PoolEvent → Prop
  | .proceed guard =>
    ((s.guards guard).newConn).isSome = true ∧ s.mutex = none ∧
      s.maxPoolSize ≤ s.connections.length
  | _ => False

instance (s : ConnectionPool) : ∀ event, Decidable (s.PushesPastMax event)
  | .proceed _ => inferInstanceAs (Decidable (_ ∧ _ ∧ _))
  | .construct _ | .create _ _ | .readClock _ _ | .wake _ | .destruct _ _ => isFalse id

end ConnectionPool

end SpotRelay.Model
