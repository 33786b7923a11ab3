import Mathlib.Logic.Function.Basic
import Mathlib.Tactic.Common

/-!
# The lifecycle executor

`LifecycleExecutor` between `start` and the end of `stop` (lifecycle_executor.hpp:59-163).  Each
access of an atomic, each operation of the queue and each call of the handler is one step.  A call
of `enqueue` is a number, so that equal tasks of different calls are told apart.
-/

set_option autoImplicit false

namespace SpotRelay.Model

/-- `LifecycleExecutorOptions` as `start` leaves them, and the capacity of the queue. -/
structure ExecutorOptions where
  workerCount : ℕ := 1
  pushSpinCount : ℕ := 256
  emptySpinCount : ℕ := 2048
  capacity : ℕ := 64
deriving DecidableEq, Repr

/-- `start` runs one worker where none is asked for. -/
def ExecutorOptions.workers (o : ExecutorOptions) : ℕ :=
  if o.workerCount = 0 then 1 else o.workerCount

variable {Task : Type}

structure QueuedTask (Task : Type) where
  call : ℕ
  task : Task
deriving DecidableEq, Repr

/-- Where a call of `enqueue` is. -/
inductive EnqueuePhase (Task : Type)
  | idle
  /-- Before the push of the given turn; the last turn is the one after the loop. -/
  | pushing (task : Task) (turn : ℕ)
  /-- Pushed, before `pending_.fetch_add`. -/
  | counting
  | notifying
  | returned (accepted : Bool)
deriving DecidableEq, Repr

/-- The places in `worker_loop` that call `drain_one`. -/
inductive DrainSite
  | top
  | spin (turn : ℕ)
deriving DecidableEq, Repr

/-- The places in `worker_loop` that leave it if the executor is stopped and the queue empty. -/
inductive CheckSite
  | beforeSpin
  | spin (turn : ℕ)
  | beforeWait
deriving DecidableEq, Repr

/-- What a worker does next. -/
inductive WorkerPhase (Task : Type)
  /-- `try_pop` of `drain_one`. -/
  | draining (site : DrainSite)
  /-- `pending_.fetch_sub`. -/
  | uncounting (t : QueuedTask Task) (site : DrainSite)
  | handling (t : QueuedTask Task) (site : DrainSite)
  /-- The load of `running_`. -/
  | checkRunning (site : CheckSite)
  /-- `queue_.empty()`, after `running_` was found clear. -/
  | checkEmpty (site : CheckSite)
  /-- `queue_.empty()` after the spin loop. -/
  | afterSpin
  /-- In `wake_cv_.wait_for`. -/
  | waiting
  | exited
deriving DecidableEq, Repr

/-- The head of the spin loop. -/
def ExecutorOptions.spin (o : ExecutorOptions) (turn : ℕ) : WorkerPhase Task :=
  if turn < o.emptySpinCount then .draining (.spin turn) else .afterSpin

/-- Where a worker goes on after a `drain_one` that found a task. -/
def DrainSite.drained : DrainSite → WorkerPhase Task
  | .top => .draining .top
  | .spin _ => .afterSpin

/-- Where a worker goes on after a `drain_one` that found none. -/
def DrainSite.check : DrainSite → CheckSite
  | .top => .beforeSpin
  | .spin turn => .spin turn

/-- Where a worker goes on after a check that does not end it. -/
def CheckSite.goOn (o : ExecutorOptions) : CheckSite → WorkerPhase Task
  | .beforeSpin => o.spin 0
  | .spin turn => o.spin (turn + 1)
  | .beforeWait => .waiting

/-- Where the call of `stop` is. -/
inductive StopPhase
  | idle
  | notifying
  | joining (worker : ℕ)
  /-- Before `pending_.store`. -/
  | clearing
  | returned
deriving DecidableEq, Repr

structure LifecycleExecutor (Task : Type) where
  running : Bool := true
  queue : List (QueuedTask Task) := []
  pending : UInt64 := 0
  enqueues : ℕ → EnqueuePhase Task := fun _ => .idle
  workers : ℕ → WorkerPhase Task := fun _ => .draining .top
  stopPhase : StopPhase := .idle
  /-- The calls of the handler, each with the worker that made it. -/
  handled : List (QueuedTask Task × ℕ) := []

inductive ExecutorEvent (Task : Type)
  /-- A thread calls `enqueue`. -/
  | enqueue (call : ℕ) (task : Task)
  /-- The next access of a call of `enqueue`. -/
  | proceed (call : ℕ)
  /-- The next access of a worker. -/
  | work (worker : ℕ)
  /-- The next access of the thread in `stop`, which first calls it. -/
  | stop
deriving DecidableEq, Repr

namespace LifecycleExecutor

def enqueueGoTo (s : LifecycleExecutor Task) (call : ℕ) (phase : EnqueuePhase Task) :
    LifecycleExecutor Task :=
  { s with enqueues := Function.update s.enqueues call phase }

def workerGoTo (s : LifecycleExecutor Task) (worker : ℕ) (phase : WorkerPhase Task) :
    LifecycleExecutor Task :=
  { s with workers := Function.update s.workers worker phase }

variable (o : ExecutorOptions)

/-- The steps of `enqueue_impl` after its load of `running_`. -/
def enqueueImpl (s : LifecycleExecutor Task) (call : ℕ) : LifecycleExecutor Task :=
  match s.enqueues call with
  | .pushing task turn =>
    if s.queue.length < o.capacity then
      { s.enqueueGoTo call .counting with queue := s.queue ++ [⟨call, task⟩] }
    else if turn < o.pushSpinCount then s.enqueueGoTo call (.pushing task (turn + 1))
    else s.enqueueGoTo call (.returned false)
  | .counting => { s.enqueueGoTo call .notifying with pending := s.pending + 1 }
  | .notifying => s.enqueueGoTo call (.returned true)
  | .idle | .returned _ => s

/-- One step of `worker_loop`. -/
def workerLoop (s : LifecycleExecutor Task) (worker : ℕ) : LifecycleExecutor Task :=
  match s.workers worker with
  | .draining site =>
    match s.queue with
    | [] => s.workerGoTo worker (.checkRunning site.check)
    | t :: rest => { s.workerGoTo worker (.uncounting t site) with queue := rest }
  | .uncounting t site =>
    { s.workerGoTo worker (.handling t site) with pending := s.pending - 1 }
  | .handling t site =>
    { s.workerGoTo worker site.drained with handled := s.handled ++ [(t, worker)] }
  | .checkRunning site =>
    s.workerGoTo worker (if s.running then site.goOn o else .checkEmpty site)
  | .checkEmpty site =>
    s.workerGoTo worker (if s.queue.isEmpty then .exited else site.goOn o)
  | .afterSpin =>
    s.workerGoTo worker (if s.queue.isEmpty then .checkRunning .beforeWait else .draining .top)
  -- a timeout, a notification or a spurious wake-up: what the predicate saw decides nothing
  | .waiting => s.workerGoTo worker (.draining .top)
  | .exited => s

/-- One step of `stop`. -/
def stop (s : LifecycleExecutor Task) : LifecycleExecutor Task :=
  match s.stopPhase with
  | .idle => { s with running := false, stopPhase := .notifying }
  | .notifying => { s with stopPhase := .joining 0 }
  | .joining worker =>
    if worker < o.workers then
      match s.workers worker with
      | .exited => { s with stopPhase := .joining (worker + 1) }
      | _ => s
    else { s with stopPhase := .clearing }
  | .clearing => { s with pending := 0, stopPhase := .returned }
  | .returned => s

def step (s : LifecycleExecutor Task) : ExecutorEvent Task → LifecycleExecutor Task
  | .enqueue call task =>
    match s.enqueues call with
    | .idle => s.enqueueGoTo call (if s.running then .pushing task 0 else .returned false)
    | _ => s
  | .proceed call => s.enqueueImpl o call
  | .work worker => if worker < o.workers then s.workerLoop o worker else s
  | .stop => s.stop o

end LifecycleExecutor

/-- A run of the executor from where `start` leaves it. -/
def runExecutor (o : ExecutorOptions) (events : List (ExecutorEvent Task)) :
    LifecycleExecutor Task :=
  events.foldl (LifecycleExecutor.step o) {}

end SpotRelay.Model
