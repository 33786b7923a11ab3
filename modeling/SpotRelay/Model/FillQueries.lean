import SpotRelay.Model.LifecycleExecutor
import SpotRelay.Model.Split

/-!
# The fill queries of a split

`dispatch_fill_query`, `handle_fill_query` and the latch of a split (order_manager.cpp:664-700,
934-970, 1447-1483, 1658-1694, 2100-2163): the queries of the two legs go to the workers of a
`LifecycleExecutor`, or are made by the thread of the split where the executor does not take them,
and the thread reads the orders when the latch is open.  Any number of splits share the executor.
-/

set_option autoImplicit false

namespace SpotRelay.Model

/-- `FillQueryTask::Kind`. -/
inductive FillKind
  | foreign
  | korean
deriving DecidableEq, Repr

/-- `FillQueryTask`; `order` and `done` point to an order and to the latch of the split. -/
structure FillQueryTask where
  kind : FillKind
  ex : Exchange
  split : ℕ
deriving DecidableEq, Repr

/-- `LifecycleExecutorOptions` of `ensure_fill_query_executor_started`, and `Capacity`. -/
def fillQueryOptions : ExecutorOptions where
  workerCount := 2
  pushSpinCount := 128
  emptySpinCount := 1024
  capacity := 64

/-- What a split sends and how the venues answer it. -/
structure SplitOrders where
  venues : Venues
  /-- The orders as the submissions return them. -/
  foreignOrder : Order
  koreanOrder : Order
  foreignReply : ForeignReply := {}
  koreanReply : KoreanReply := {}

namespace SplitOrders

def submitted (s : SplitOrders) : FillKind → Order
  | .foreign => s.foreignOrder
  | .korean => s.koreanOrder

/-- The query of a task: `query_foreign_fill` or `query_korean_fill`. -/
def query (s : SplitOrders) (task : FillQueryTask) (order : Order) : Order :=
  match task.kind with
  | .foreign => queryForeignFill task.ex s.foreignReply order
  | .korean => queryKoreanFill task.ex s.koreanReply order

/-- The task of a leg. -/
def task (s : SplitOrders) (split : ℕ) : FillKind → FillQueryTask
  | .foreign => ⟨.foreign, s.venues.foreign, split⟩
  | .korean => ⟨.korean, s.venues.korean, split⟩

/-- A query's task names its split. -/
@[simp] theorem task_split (s : SplitOrders) (split : ℕ) (kind : FillKind) :
    (s.task split kind).split = split := by
  cases kind <;> rfl

/-- A query's task names its kind. -/
@[simp] theorem task_kind (s : SplitOrders) (split : ℕ) (kind : FillKind) :
    (s.task split kind).kind = kind := by
  cases kind <;> rfl

end SplitOrders

/-- The call of `enqueue` with the task of a leg. -/
def fillCall (split : ℕ) : FillKind → ℕ
  | .foreign => 2 * split
  | .korean => 2 * split + 1

/-- Where the thread of a split is. -/
inductive SplitPhase
  /-- Before the latch is made. -/
  | idle
  /-- In `enqueue` of a leg's task. -/
  | enqueueing (kind : FillKind)
  /-- In `handle_fill_query`, which it calls itself. -/
  | inline (kind : FillKind)
  /-- In the Korean submission. -/
  | submitting
  /-- In `fill_done.wait()`. -/
  | waiting
  /-- Behind the wait. -/
  | done
deriving DecidableEq, Repr

/-- Where the thread goes on after a dispatch. -/
def FillKind.dispatched : FillKind → SplitPhase
  | .foreign => .submitting
  | .korean => .waiting

structure FillQueries where
  executor : LifecycleExecutor FillQueryTask := {}
  /-- The orders of the splits, and their latches. -/
  orders : ℕ → FillKind → Order := fun _ _ => {}
  latches : ℕ → ℕ := fun _ => 0
  phases : ℕ → SplitPhase := fun _ => .idle

inductive FillQueryEvent
  /-- The next step of the thread of a split. -/
  | proceed (split : ℕ)
  /-- The next access of a worker. -/
  | work (worker : ℕ)
  /-- The next access of the thread in `stop`. -/
  | stop
deriving DecidableEq, Repr

namespace FillQueries

variable (o : ExecutorOptions) (splits : ℕ → SplitOrders)

def goTo (s : FillQueries) (split : ℕ) (phase : SplitPhase) : FillQueries :=
  { s with phases := Function.update s.phases split phase }

def writeOrder (s : FillQueries) (split : ℕ) (kind : FillKind) (order : Order) : FillQueries :=
  { s with orders := Function.update s.orders split (Function.update (s.orders split) kind order) }

/-- `handle_fill_query`: the order is queried and the latch counted down. -/
def handleFillQuery (s : FillQueries) (task : FillQueryTask) : FillQueries :=
  let order := (splits task.split).query task (s.orders task.split task.kind)
  { s.writeOrder task.split task.kind order with
    latches := Function.update s.latches task.split (s.latches task.split - 1) }

/-- One step of the thread of a split. -/
def proceed (s : FillQueries) (split : ℕ) : FillQueries :=
  match s.phases split with
  | .idle =>
    { (s.writeOrder split .foreign (splits split).foreignOrder).goTo split
        (.enqueueing .foreign) with
      latches := Function.update s.latches split 2 }
  | .enqueueing kind =>
    match s.executor.enqueues (fillCall split kind) with
    | .idle =>
      { s with
        executor := s.executor.step o
          (.enqueue (fillCall split kind) ((splits split).task split kind)) }
    | .returned accepted =>
      s.goTo split (if accepted then kind.dispatched else .inline kind)
    | _ => { s with executor := s.executor.step o (.proceed (fillCall split kind)) }
  | .inline kind =>
    (s.handleFillQuery splits ((splits split).task split kind)).goTo split kind.dispatched
  | .submitting =>
    (s.writeOrder split .korean (splits split).koreanOrder).goTo split (.enqueueing .korean)
  | .waiting => if s.latches split = 0 then s.goTo split .done else s
  | .done => s

/-- One step of a worker; a call of the handler makes the query. -/
def work (s : FillQueries) (worker : ℕ) : FillQueries :=
  let next := { s with executor := s.executor.step o (.work worker) }
  if worker < o.workers then
    match s.executor.workers worker with
    | .handling t _ => next.handleFillQuery splits t.task
    | _ => next
  else next

def step (s : FillQueries) : FillQueryEvent → FillQueries
  | .proceed split => s.proceed o splits split
  | .work worker => s.work o splits worker
  | .stop => { s with executor := s.executor.step o .stop }

/-- The state after a run. -/
def run (s : FillQueries) (events : List FillQueryEvent) : FillQueries :=
  events.foldl (fun s event => s.step o splits event) s

end FillQueries

end SpotRelay.Model
