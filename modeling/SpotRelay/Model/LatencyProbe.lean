import SpotRelay.Library.CharArray
import SpotRelay.Model.SpscRingBuffer
import SpotRelay.Model.Types

/-!
# The latency probe

`LatencyProbe` (latency_probe.hpp:25-280, latency_probe.cpp) between the end of `start` and the join
of its exporter in `stop`.  Each access of an atomic, of the registration mutex and of the two kinds
of queue is one step, in any number of recording threads and in the exporter; what a thread does
with its locals and its thread-local cache goes with the access before it.
-/

set_option autoImplicit false

namespace SpotRelay.Model

open SpotRelay.Library

/-! ## Events -/

/-- `LatencyStage`. -/
inductive LatencyStage
  | signalDetected | lifecycleEnqueued | lifecyclePickedUp
  | entryLoopStart | entryForeignSubmitStart | entryForeignSubmitAck | entryForeignFillQueryStart
  | entryForeignFillWorkerStart | entryForeignFillDone | entryKoreanSubmitStart
  | entryKoreanSubmitAck | entryKoreanFillQueryStart | entryKoreanFillWorkerStart
  | entryKoreanFillDone | entryCompleted
  | exitLoopStart | exitForeignSubmitStart | exitForeignSubmitAck | exitForeignFillQueryStart
  | exitForeignFillWorkerStart | exitForeignFillDone | exitKoreanSubmitStart
  | exitKoreanSubmitAck | exitKoreanFillQueryStart | exitKoreanFillWorkerStart
  | exitKoreanFillDone | exitCompleted
  | reentryLoopStart | reentryForeignSubmitStart | reentryForeignSubmitAck
  | reentryForeignFillQueryStart | reentryForeignFillWorkerStart | reentryForeignFillDone
  | reentryKoreanSubmitStart | reentryKoreanSubmitAck | reentryKoreanFillQueryStart
  | reentryKoreanFillWorkerStart | reentryKoreanFillDone | reentryCompleted
  | error
deriving DecidableEq, Repr, Inhabited

/-- `is_terminal_stage`. -/
def isTerminalStage : LatencyStage → Bool
  | .entryCompleted | .exitCompleted | .reentryCompleted | .error => true
  | _ => false

/-- `LatencySymbol`: `std::array<char, 24>`. -/
abbrev LatencySymbol := CharArray 23

structure LatencyEvent where
  runId : UInt64 := 0
  traceId : UInt64 := 0
  monotonicNs : UInt64 := 0
  deltaNs : UInt64 := 0
  stage : LatencyStage := .signalDetected
  aux0 : Int64 := 0
  aux1 : Int64 := 0
  value0 : ℚ := 0
  value1 : ℚ := 0
  symbol : LatencySymbol := default
deriving DecidableEq, Inhabited

/-- The arguments of `record_at_ns`; `record` passes the clock as `now_ns`. -/
structure RecordCall where
  traceId : UInt64
  symbol : LatencySymbol
  stage : LatencyStage
  traceStartNs : UInt64
  nowNs : UInt64
  aux0 : Int64 := 0
  aux1 : Int64 := 0
  value0 : ℚ := 0
  value1 : ℚ := 0
deriving DecidableEq

/-- The event that `record_at_ns` publishes. -/
def RecordCall.event (call : RecordCall) (runId : UInt64) : LatencyEvent where
  runId := runId
  traceId := call.traceId
  monotonicNs := call.nowNs
  deltaNs :=
    if 0 < call.traceStartNs ∧ call.traceStartNs ≤ call.nowNs then call.nowNs - call.traceStartNs
    else 0
  stage := call.stage
  aux0 := call.aux0
  aux1 := call.aux1
  value0 := call.value0
  value1 := call.value1
  symbol := call.symbol

/-! ## State -/

/-- `producer_queues_.size()`. -/
def producerSlots : ℕ := 16

/-- The capacity of a `ProducerQueueSlot::queue`. -/
def slotCapacity : RingCapacity := ⟨14, by decide, by decide⟩

/-- The capacity of `overflow_queue_`. -/
def overflowCapacity : RingCapacity := ⟨15, by decide, by decide⟩

/-- The most events that the exporter takes before it writes them. -/
def batchSize : ℕ := 256

/-- `ProducerSlotCache`; no slot is its `-1`. -/
structure ProducerSlotCache where
  generation : ℕ := 0
  slot : Option ℕ := none
deriving DecidableEq, Repr

/-- What a thread does next in `record_at_ns`, `publish_event` and
`acquire_producer_queue_slot`. -/
inductive RecordPhase
  | idle
  | loadEnabled (call : RecordCall)
  | loadRunId (call : RecordCall)
  | loadGeneration (event : LatencyEvent)
  | lockRegistration (event : LatencyEvent) (generation : ℕ)
  /-- The compare-exchange of slot `i`, under the mutex. -/
  | claimSlot (event : LatencyEvent) (generation i : ℕ)
  | loadCount (event : LatencyEvent) (generation i : ℕ)
  | storeCount (event : LatencyEvent) (generation i : ℕ)
  | unlockRegistration (event : LatencyEvent) (slot : Option ℕ)
  /-- In `try_push` of the thread's own queue. -/
  | pushSlot (event : LatencyEvent) (slot : ℕ)
  /-- In `try_push` of the overflow queue. -/
  | pushOverflow (event : LatencyEvent)
  | countDropped (event : LatencyEvent)
  /-- Pushed, before `pending_events_.fetch_add`. -/
  | countPending
deriving DecidableEq

/-- What the exporter does next. -/
inductive ExporterPhase
  | loadRunning
  | loadPending
  /-- The load of `producer_queue_count_` in `try_pop_event`. -/
  | loadCount
  | loadClaimed (producerCount offset : ℕ)
  /-- In `try_pop` of the queue of slot `idx`. -/
  | popSlot (producerCount offset idx : ℕ)
  /-- In `try_pop` of the overflow queue. -/
  | popOverflow
  /-- In `wake_cv_.wait_for`. -/
  | waiting
  | subtractPending
  /-- The rest of the batch is written. -/
  | writing
  | ended
deriving DecidableEq, Repr

/-- The two stores of `stop` before the join. -/
inductive ProbeStopPhase
  | idle
  | clearRunning
  | joining
deriving DecidableEq, Repr

/-- A queue of the probe: that of a slot, or the overflow queue. -/
abbrev ProbeQueue := Option ℕ

/-- What became of an event of a thread: the queue that took it, or none. -/
structure Published where
  thread : ℕ
  destination : Option ProbeQueue
  event : LatencyEvent
deriving DecidableEq

structure LatencyProbe where
  runId : UInt64
  runGeneration : ℕ
  enabled : Bool := true
  running : Bool := true
  pendingEvents : UInt64 := 0
  droppedEvents : UInt64 := 0
  /-- `producer_queues_[i].queue` and `producer_queues_[i].claimed`. -/
  queues : ℕ → SpscRingBuffer LatencyEvent := fun _ => .empty
  claimed : ℕ → Bool := fun _ => false
  /-- The thread that has `producer_registration_mutex_`. -/
  registration : Option ℕ := none
  producerQueueCount : ℕ := 0
  overflowQueue : MpmcRingBuffer LatencyEvent := .empty
  /-- `g_producer_slot_cache` of each thread. -/
  caches : ℕ → ProducerSlotCache
  records : ℕ → RecordPhase := fun _ => .idle
  stopPhase : ProbeStopPhase := .idle
  exporter : ExporterPhase := .loadRunning
  batch : List LatencyEvent := []
  producerCursor : ℕ := 0
  /-- The calls of `write_event_row`. -/
  exported : List LatencyEvent := []
  /-- The events for which `publish_event` was called, each with its thread (ghost). -/
  recorded : List (ℕ × LatencyEvent) := []
  /-- What became of them (ghost). -/
  published : List Published := []
  /-- What the exporter took out of the queues (ghost). -/
  taken : List (ProbeQueue × LatencyEvent) := []

inductive ProbeEvent
  /-- A thread calls `record_at_ns`. -/
  | record (thread : ℕ) (call : RecordCall)
  /-- Its next access; a weak compare-exchange of the overflow queue may fail for no reason. -/
  | proceed (thread : ℕ) (spurious : Bool)
  /-- The next access of the exporter. -/
  | exportNext (spurious : Bool)
  /-- The next store of `stop`. -/
  | stop
deriving DecidableEq

namespace LatencyProbe

/-- The thread of the overflow queue that a recording thread is, and the one the exporter is. -/
def overflowThread (thread : ℕ) : ℕ := thread + 1

def overflowExporter : ℕ := 0

/-! ## Recording threads -/

def goTo (s : LatencyProbe) (thread : ℕ) (phase : RecordPhase) : LatencyProbe :=
  { s with records := Function.update s.records thread phase }

/-- A thread moved to a phase is in it. -/
@[simp] theorem goTo_records_self (s : LatencyProbe) (thread : ℕ) (phase : RecordPhase) :
    (s.goTo thread phase).records thread = phase := by
  simp only [goTo, Function.update_self]

def cacheSlot (s : LatencyProbe) (thread generation : ℕ) (slot : Option ℕ) : LatencyProbe :=
  { s with caches := Function.update s.caches thread ⟨generation, slot⟩ }

def setQueue (s : LatencyProbe) (slot : ℕ) (queue : SpscRingBuffer LatencyEvent) : LatencyProbe :=
  { s with queues := Function.update s.queues slot queue }

/-- A queue took the event, or none did. -/
def publish (s : LatencyProbe) (thread : ℕ) (destination : Option ProbeQueue)
    (event : LatencyEvent) : LatencyProbe :=
  { s with published := s.published ++ [⟨thread, destination, event⟩] }

/-- The call of `overflow_queue_.try_push`. -/
def startOverflow (s : LatencyProbe) (thread : ℕ) (event : LatencyEvent) : LatencyProbe :=
  { s.goTo thread (.pushOverflow event) with
    overflowQueue :=
      s.overflowQueue.step overflowCapacity id (.tryPush (overflowThread thread) event) }

/-- The first `try_push` of `publish_event`, on the slot that the thread was given. -/
def startPush (s : LatencyProbe) (thread : ℕ) (event : LatencyEvent) (slot : Option ℕ) :
    LatencyProbe :=
  match slot with
  | some i =>
    (s.goTo thread (.pushSlot event i)).setQueue i
      ((s.queues i).step slotCapacity id (.tryPush .move event))
  | none => s.startOverflow thread event

/-- One access of a thread in `record_at_ns`. -/
def proceed (s : LatencyProbe) (thread : ℕ) (spurious : Bool) : LatencyProbe :=
  match s.records thread with
  | .idle => s
  | .loadEnabled call => s.goTo thread (if s.enabled then .loadRunId call else .idle)
  | .loadRunId call =>
    { s.goTo thread (.loadGeneration (call.event s.runId)) with
      recorded := s.recorded ++ [(thread, call.event s.runId)] }
  | .loadGeneration event =>
    if (s.caches thread).generation = s.runGeneration then
      s.startPush thread event (s.caches thread).slot
    else s.goTo thread (.lockRegistration event s.runGeneration)
  | .lockRegistration event generation =>
    match s.registration with
    | some _ => s
    | none =>
      { s.goTo thread
          (if (s.caches thread).generation = generation then
            .unlockRegistration event (s.caches thread).slot
          else .claimSlot event generation 0) with
        registration := some thread }
  | .claimSlot event generation i =>
    if i < producerSlots then
      if s.claimed i then s.goTo thread (.claimSlot event generation (i + 1))
      else
        { s.goTo thread (.loadCount event generation i) with
          claimed := Function.update s.claimed i true }
    else (s.cacheSlot thread generation none).goTo thread (.unlockRegistration event none)
  | .loadCount event generation i =>
    if s.producerQueueCount < i + 1 then s.goTo thread (.storeCount event generation i)
    else
      (s.cacheSlot thread generation (some i)).goTo thread (.unlockRegistration event (some i))
  | .storeCount event generation i =>
    { (s.cacheSlot thread generation (some i)).goTo thread (.unlockRegistration event (some i)) with
      producerQueueCount := i + 1 }
  | .unlockRegistration event slot => { s.startPush thread event slot with registration := none }
  | .pushSlot event slot =>
    let queue := (s.queues slot).step slotCapacity id .produce
    let s := s.setQueue slot queue
    match queue.producer with
    | .pushReturned true _ =>
      (s.publish thread (some (some slot)) event).goTo thread .countPending
    -- a push that fails leaves the event as it is
    | .pushReturned false _ => s.startOverflow thread event
    | _ => s
  | .pushOverflow event =>
    let overflow :=
      s.overflowQueue.step overflowCapacity id (.proceed (overflowThread thread) spurious)
    let s := { s with overflowQueue := overflow }
    match overflow.threads (overflowThread thread) with
    | .pushReturned true => (s.publish thread (some none) event).goTo thread .countPending
    | .pushReturned false => s.goTo thread (.countDropped event)
    | _ => s
  | .countDropped event =>
    { (s.publish thread none event).goTo thread .idle with droppedEvents := s.droppedEvents + 1 }
  | .countPending => { s.goTo thread .idle with pendingEvents := s.pendingEvents + 1 }

/-! ## The exporter -/

/-- The head of the loop of `try_pop_event` over the slots; after it the overflow queue is
tried. -/
def scanFrom (s : LatencyProbe) (producerCount offset : ℕ) : LatencyProbe :=
  if offset < producerCount then { s with exporter := .loadClaimed producerCount offset }
  else
    { s with
      exporter := .popOverflow
      overflowQueue := s.overflowQueue.step overflowCapacity id (.tryPop overflowExporter) }

/-- The batch is full, or nothing was found for it. -/
def endBatch (s : LatencyProbe) : LatencyProbe :=
  { s with exporter := if s.batch.isEmpty then .waiting else .subtractPending }

/-- `try_pop_event` found an event. -/
def takeEvent (s : LatencyProbe) (queue : ProbeQueue) (event : LatencyEvent) : LatencyProbe :=
  let s := { s with batch := s.batch ++ [event], taken := s.taken ++ [(queue, event)] }
  if s.batch.length < batchSize then { s with exporter := .loadCount } else s.endBatch

/-- One access of `exporter_loop`. -/
def exportNext (s : LatencyProbe) (spurious : Bool) : LatencyProbe :=
  match s.exporter with
  | .loadRunning => { s with exporter := if s.running then .loadCount else .loadPending }
  | .loadPending => { s with exporter := if 0 < s.pendingEvents then .loadCount else .ended }
  | .loadCount => s.scanFrom s.producerQueueCount 0
  | .loadClaimed producerCount offset =>
    let idx := (s.producerCursor + offset) % producerCount
    if s.claimed idx then
      { s.setQueue idx ((s.queues idx).step slotCapacity id (.tryPop .value)) with
        exporter := .popSlot producerCount offset idx }
    else s.scanFrom producerCount (offset + 1)
  | .popSlot producerCount offset idx =>
    let queue := (s.queues idx).step slotCapacity id .consume
    let s := s.setQueue idx queue
    match queue.consumer with
    | .popReturned (some event) =>
      { s.takeEvent (some idx) event with producerCursor := (idx + 1) % producerCount }
    | .popReturned none => s.scanFrom producerCount (offset + 1)
    | _ => s
  | .popOverflow =>
    let overflow := s.overflowQueue.step overflowCapacity id (.proceed overflowExporter spurious)
    let s := { s with overflowQueue := overflow }
    match overflow.threads overflowExporter with
    | .popReturned (some event) => s.takeEvent none event
    | .popReturned none => s.endBatch
    | _ => s
  | .waiting => { s with exporter := .loadRunning }
  | .subtractPending =>
    { s with
      pendingEvents := s.pendingEvents - UInt64.ofNat s.batch.length
      exporter := .writing }
  | .writing =>
    match s.batch with
    | event :: rest => { s with batch := rest, exported := s.exported ++ [event] }
    | [] => { s with exporter := .loadRunning }
  | .ended => s

/-! ## Runs -/

def step (s : LatencyProbe) : ProbeEvent → LatencyProbe
  | .record thread call =>
    match s.records thread with
    | .idle => s.goTo thread (.loadEnabled call)
    | _ => s
  | .proceed thread spurious => s.proceed thread spurious
  | .exportNext spurious => s.exportNext spurious
  | .stop =>
    match s.stopPhase with
    | .idle => { s with enabled := false, stopPhase := .clearRunning }
    | .clearRunning => { s with running := false, stopPhase := .joining }
    | .joining => s

/-- What the first `start` of the program leaves: the queues are empty, and no thread has a slot of
its generation. -/
structure Started (s : LatencyProbe) : Prop where
  fresh : s = { runId := s.runId, runGeneration := s.runGeneration, caches := s.caches }
  caches : ∀ thread, (s.caches thread).generation < s.runGeneration

end LatencyProbe

/-- A run of the probe from where `start` leaves it. -/
def runProbe (s : LatencyProbe) (events : List ProbeEvent) : LatencyProbe :=
  events.foldl LatencyProbe.step s

/-! ## Summaries -/

/-- `TraceSummary`. -/
structure TraceSummary where
  stageNs : LatencyStage → Int64 := fun _ => -1
  symbol : LatencySymbol := default

/-- A row of the summary file; `spans` are its columns behind `total_ns`. -/
structure SummaryRow where
  traceId : UInt64
  symbol : LatencySymbol
  terminalStage : LatencyStage
  totalNs : Int64
  spans : List Int64
deriving DecidableEq

/-- The stages between which the columns of a row measure. -/
def summarySpans : List (LatencyStage × LatencyStage) :=
  [(.signalDetected, .lifecycleEnqueued), (.lifecycleEnqueued, .lifecyclePickedUp),
    (.lifecyclePickedUp, .entryLoopStart), (.entryLoopStart, .entryForeignSubmitStart),
    (.entryForeignSubmitStart, .entryForeignSubmitAck),
    (.entryForeignFillQueryStart, .entryForeignFillWorkerStart),
    (.entryForeignFillWorkerStart, .entryForeignFillDone),
    (.entryForeignSubmitAck, .entryKoreanSubmitStart),
    (.entryKoreanSubmitStart, .entryKoreanSubmitAck),
    (.entryKoreanFillQueryStart, .entryKoreanFillWorkerStart),
    (.entryKoreanFillWorkerStart, .entryKoreanFillDone), (.signalDetected, .entryCompleted),
    (.exitLoopStart, .exitForeignSubmitStart), (.exitForeignSubmitStart, .exitForeignSubmitAck),
    (.exitForeignFillQueryStart, .exitForeignFillWorkerStart),
    (.exitForeignFillWorkerStart, .exitForeignFillDone),
    (.exitForeignSubmitAck, .exitKoreanSubmitStart), (.exitKoreanSubmitStart, .exitKoreanSubmitAck),
    (.exitKoreanFillQueryStart, .exitKoreanFillWorkerStart),
    (.exitKoreanFillWorkerStart, .exitKoreanFillDone), (.exitLoopStart, .exitCompleted),
    (.reentryLoopStart, .reentryForeignSubmitStart),
    (.reentryForeignSubmitStart, .reentryForeignSubmitAck),
    (.reentryForeignFillQueryStart, .reentryForeignFillWorkerStart),
    (.reentryForeignFillWorkerStart, .reentryForeignFillDone),
    (.reentryForeignSubmitAck, .reentryKoreanSubmitStart),
    (.reentryKoreanSubmitStart, .reentryKoreanSubmitAck),
    (.reentryKoreanFillQueryStart, .reentryKoreanFillWorkerStart),
    (.reentryKoreanFillWorkerStart, .reentryKoreanFillDone),
    (.reentryLoopStart, .reentryCompleted)]

namespace TraceSummary

/-- The lambda `span` of `write_summary_row`. -/
def span (summary : TraceSummary) (start finish : LatencyStage) : Int64 :=
  let a := summary.stageNs start
  let b := summary.stageNs finish
  if a < 0 ∨ b < 0 ∨ b < a then -1 else b - a

/-- `write_summary_row` to a file that is open. -/
def row (summary : TraceSummary) (traceId : UInt64) (terminalStage : LatencyStage) :
    SummaryRow where
  traceId := traceId
  symbol := summary.symbol
  terminalStage := terminalStage
  totalNs := summary.stageNs terminalStage
  spans := summarySpans.map fun (start, finish) => summary.span start finish

/-- What the exporter adds for an event. -/
def add (summary : TraceSummary) (event : LatencyEvent) : TraceSummary where
  stageNs := Function.update summary.stageNs event.stage event.deltaNs.toInt64
  symbol := if summary.symbol.text = [] then event.symbol else summary.symbol

end TraceSummary

/-- `summaries_` and the rows that are written, where the summary is enabled. -/
structure LatencySummaries where
  summaries : UInt64 → Option TraceSummary := fun _ => none
  rows : List SummaryRow := []

namespace LatencySummaries

/-- The part of `exporter_loop` behind `write_event_row`. -/
def summarize (s : LatencySummaries) (event : LatencyEvent) : LatencySummaries :=
  let summary := ((s.summaries event.traceId).getD {}).add event
  if isTerminalStage event.stage then
    { s with
      rows := s.rows ++ [summary.row event.traceId event.stage]
      summaries := Function.update s.summaries event.traceId none }
  else { s with summaries := Function.update s.summaries event.traceId (some summary) }

end LatencySummaries

end SpotRelay.Model
