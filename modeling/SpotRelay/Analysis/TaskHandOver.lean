import SpotRelay.Library.FlagHolder
import SpotRelay.Library.Run
import SpotRelay.Model.LifecycleExecutor

/-!
# The hand-over of a task to the executor

A pushed task is in one place at a time: in the queue, with a worker, or handed to the handler.  The
workers that are left take whatever is queued before they go, so nothing is lost as long as no push
comes after the last of them.  `enqueue` looks at `running_` before it pushes and not after, so that
is not ruled out: `stop` may join every worker in between.

* **one place**: each step of a caller, a worker or `stop` keeps an accepted task in one place
  (`HandOver`, `runExecutor_handOver`), from what it touches of queue and workers (`EnqueueFrame`,
  `WorkerFrame`, `StopFrame`).
* **a push in time** finds a worker that will look again (`QueueStaffed`); any other one leaves its
  task behind for good (`abandoned_of_not_pushedInTime`, `executorStep_abandoned`).
-/

set_option autoImplicit false

namespace SpotRelay.Analysis

open SpotRelay.Model SpotRelay.Library

variable {Task : Type}

/-- The call has pushed its task. -/
def EnqueuePhase.pushed : EnqueuePhase Task → Bool
  | .counting | .notifying => true
  | .returned accepted => accepted
  | .idle | .pushing .. => false

/-- How often a worker holds the task of a call. -/
def WorkerPhase.holds (call : ℕ) : WorkerPhase Task → ℕ
  | .uncounting t _ | .handling t _ => if t.call = call then 1 else 0
  | _ => 0

def queuedCount (s : LifecycleExecutor Task) (call : ℕ) : ℕ :=
  s.queue.countP fun t => t.call = call

def handledCount (s : LifecycleExecutor Task) (call : ℕ) : ℕ :=
  s.handled.countP fun h => h.1.call = call

variable (o : ExecutorOptions)

def heldCount (s : LifecycleExecutor Task) (call : ℕ) : ℕ :=
  weight (WorkerPhase.holds call) (Finset.range o.workers) s.workers

/-- Some worker has not left its loop. -/
def Staffed (s : LifecycleExecutor Task) : Prop :=
  ∃ worker < o.workers, s.workers worker ≠ .exited

/-- The workers that `stop` has joined. -/
def StopPhase.joined : StopPhase → ℕ
  | .idle | .notifying => 0
  | .joining worker => worker
  | .clearing | .returned => o.workers

/-! ## What an access leaves alone -/

/-- The accesses of a call of `enqueue` leave the flag, the workers, `stop`, what was handled and
the other calls. -/
structure EnqueueFrame (call : ℕ) (s s' : LifecycleExecutor Task) : Prop where
  running : s'.running = s.running
  workers : s'.workers = s.workers
  stopPhase : s'.stopPhase = s.stopPhase
  handled : s'.handled = s.handled
  others : ∀ other, other ≠ call → s'.enqueues other = s.enqueues other

/-- The accesses of a worker leave the calls of `enqueue` and `stop`. -/
structure WorkerFrame (s s' : LifecycleExecutor Task) : Prop where
  enqueues : s'.enqueues = s.enqueues
  stopPhase : s'.stopPhase = s.stopPhase

/-- The accesses of `stop` leave the queue, the calls of `enqueue`, the workers and what was
handled. -/
structure StopFrame (s s' : LifecycleExecutor Task) : Prop where
  queue : s'.queue = s.queue
  enqueues : s'.enqueues = s.enqueues
  workers : s'.workers = s.workers
  handled : s'.handled = s.handled

section

variable {o} {s : LifecycleExecutor Task}

/-- A call that goes on leaves everything but itself. -/
theorem enqueueGoTo_frame (call : ℕ) (phase : EnqueuePhase Task) :
    EnqueueFrame call s (s.enqueueGoTo call phase) :=
  ⟨rfl, rfl, rfl, rfl, fun _ hne => Function.update_of_ne hne ..⟩

/-- The load of `running_` with which a call begins. -/
theorem executorEnqueue_frame (call : ℕ) (task : Task) :
    EnqueueFrame call s (s.step o (.enqueue call task)) := by
  simp only [LifecycleExecutor.step]
  split
  · exact enqueueGoTo_frame call _
  · exact ⟨rfl, rfl, rfl, rfl, fun _ _ => rfl⟩

/-- The next access of a call: the push and the count touch the queue and the counter besides. -/
theorem enqueueImpl_frame (call : ℕ) : EnqueueFrame call s (s.enqueueImpl o call) := by
  have hgoTo := enqueueGoTo_frame (s := s) call
  unfold LifecycleExecutor.enqueueImpl
  cases s.enqueues call with
  | idle => exact ⟨rfl, rfl, rfl, rfl, fun _ _ => rfl⟩
  | pushing task turn =>
    dsimp only
    split
    · exact ⟨rfl, rfl, rfl, rfl, (hgoTo .counting).others⟩
    · split
      · exact hgoTo _
      · exact hgoTo _
  | counting => exact ⟨rfl, rfl, rfl, rfl, (hgoTo .notifying).others⟩
  | notifying => exact hgoTo _
  | returned accepted => exact ⟨rfl, rfl, rfl, rfl, fun _ _ => rfl⟩

/-- The next access of a worker; only one that is handling a task adds to what was handled. -/
theorem workerLoop_frame (s : LifecycleExecutor Task) (worker : ℕ) :
    WorkerFrame s (s.workerLoop o worker) ∧
      ((∀ t site, s.workers worker ≠ .handling t site) →
        (s.workerLoop o worker).handled = s.handled) := by
  unfold LifecycleExecutor.workerLoop
  cases hphase : s.workers worker with
  | draining site =>
    dsimp only
    split
    · exact ⟨⟨rfl, rfl⟩, fun _ => rfl⟩
    · exact ⟨⟨rfl, rfl⟩, fun _ => rfl⟩
  | uncounting t site => exact ⟨⟨rfl, rfl⟩, fun _ => rfl⟩
  | handling t site => exact ⟨⟨rfl, rfl⟩, fun hnot => absurd rfl (hnot t site)⟩
  | checkRunning site => exact ⟨⟨rfl, rfl⟩, fun _ => rfl⟩
  | checkEmpty site => exact ⟨⟨rfl, rfl⟩, fun _ => rfl⟩
  | afterSpin => exact ⟨⟨rfl, rfl⟩, fun _ => rfl⟩
  | waiting => exact ⟨⟨rfl, rfl⟩, fun _ => rfl⟩
  | exited => exact ⟨⟨rfl, rfl⟩, fun _ => rfl⟩

/-- A worker that there is not does nothing. -/
theorem executorWork_frame (worker : ℕ) : WorkerFrame s (s.step o (.work worker)) := by
  simp only [LifecycleExecutor.step]
  split
  · exact (workerLoop_frame s worker).1
  · exact ⟨rfl, rfl⟩

/-- The next access of `stop`, which writes `running_`, the counter and where it is itself. -/
theorem stop_frame : StopFrame s (s.stop o) := by
  unfold LifecycleExecutor.stop
  cases s.stopPhase with
  | idle => exact ⟨rfl, rfl, rfl, rfl⟩
  | notifying => exact ⟨rfl, rfl, rfl, rfl⟩
  | joining worker =>
    dsimp only
    split
    · split
      · exact ⟨rfl, rfl, rfl, rfl⟩
      · exact ⟨rfl, rfl, rfl, rfl⟩
    · exact ⟨rfl, rfl, rfl, rfl⟩
  | clearing => exact ⟨rfl, rfl, rfl, rfl⟩
  | returned => exact ⟨rfl, rfl, rfl, rfl⟩

end

/-! ## Where a task is -/

/-- Each pushed task is in one place, and the workers that `stop` went past have exited. -/
structure HandOver (s : LifecycleExecutor Task) : Prop where
  located : ∀ call, queuedCount s call + heldCount o s call + handledCount s call =
    if EnqueuePhase.pushed (s.enqueues call) then 1 else 0
  joined : ∀ worker, worker < StopPhase.joined o s.stopPhase → s.workers worker = .exited

variable {o} {s : LifecycleExecutor Task}

/-- Before the first step there is no task. -/
theorem handOver_start : HandOver o ({} : LifecycleExecutor Task) where
  located := fun call => by
    simp [queuedCount, heldCount, handledCount, weight, WorkerPhase.holds, EnqueuePhase.pushed]
  joined := fun worker hjoined => absurd hjoined (Nat.not_lt_zero worker)

/-- A step of `enqueue` that does not push. -/
theorem HandOver.enqueueGoTo (h : HandOver o s) {call : ℕ} {phase : EnqueuePhase Task}
    (hsame : EnqueuePhase.pushed phase = EnqueuePhase.pushed (s.enqueues call)) :
    HandOver o (s.enqueueGoTo call phase) where
  located := by
    intro other
    have hpushed : EnqueuePhase.pushed (Function.update s.enqueues call phase other) =
        EnqueuePhase.pushed (s.enqueues other) := by
      by_cases heq : other = call
      · rw [heq, Function.update_self, hsame]
      · rw [Function.update_of_ne heq]
    refine (h.located other).trans ?_
    rw [← hpushed]
    rfl
  joined := h.joined

/-- The push of a call that has not pushed before. -/
theorem HandOver.push (h : HandOver o s) {call : ℕ} {task : Task}
    (hunpushed : EnqueuePhase.pushed (s.enqueues call) = false) :
    HandOver o { s.enqueueGoTo call .counting with queue := s.queue ++ [⟨call, task⟩] } where
  located := by
    intro other
    have hlocated := h.located other
    have hqueued : (s.queue ++ [QueuedTask.mk call task]).countP (fun t => t.call = other) =
        queuedCount s other + if call = other then 1 else 0 := by
      simp [queuedCount, List.countP_append, List.countP_singleton]
    change (s.queue ++ [QueuedTask.mk call task]).countP (fun t => t.call = other) +
      heldCount o s other + handledCount s other =
        if EnqueuePhase.pushed (Function.update s.enqueues call .counting other) then 1 else 0
    by_cases heq : other = call
    · subst heq
      rw [hunpushed, if_neg (by decide)] at hlocated
      rw [hqueued, if_pos rfl, Function.update_self]
      change _ = 1
      omega
    · rw [hqueued, if_neg (Ne.symm heq), Function.update_of_ne heq]
      omega
  joined := h.joined

/-- A step of a worker that has not exited; what it lets go of shows up where the step puts it. -/
theorem HandOver.workerStep (h : HandOver o s) {worker : ℕ} (hworker : worker < o.workers)
    (hrunning : s.workers worker ≠ .exited) {phase : WorkerPhase Task}
    (queue : List (QueuedTask Task)) (handled : List (QueuedTask Task × ℕ)) (pending : UInt64)
    (hmove : ∀ call, queue.countP (fun t => t.call = call) + WorkerPhase.holds call phase +
        handled.countP (fun h => h.1.call = call) =
      queuedCount s call + WorkerPhase.holds call (s.workers worker) + handledCount s call) :
    HandOver o { s.workerGoTo worker phase with
      queue := queue
      handled := handled
      pending := pending } where
  located := by
    intro call
    have hlocated := h.located call
    have hmoved := hmove call
    have hweight : weight (WorkerPhase.holds call) (Finset.range o.workers)
          (Function.update s.workers worker phase) + WorkerPhase.holds call (s.workers worker) =
        weight (WorkerPhase.holds call) (Finset.range o.workers) s.workers +
          WorkerPhase.holds call phase :=
      weight_update (WorkerPhase.holds call) (Finset.mem_range.mpr hworker)
    change queue.countP (fun t => t.call = call) +
      weight (WorkerPhase.holds call) (Finset.range o.workers)
        (Function.update s.workers worker phase) +
      handled.countP (fun h => h.1.call = call) = _
    rw [heldCount] at hlocated
    change _ = if EnqueuePhase.pushed (s.enqueues call) then 1 else 0
    omega
  joined := by
    intro other hother
    have hexited := h.joined other hother
    have hne : other ≠ worker := by
      rintro rfl
      exact hrunning hexited
    change Function.update s.workers worker phase other = .exited
    rw [Function.update_of_ne hne]
    exact hexited

/-- A step of a worker that holds no task before or after it. -/
theorem HandOver.workerGoTo (h : HandOver o s) {worker : ℕ} (hworker : worker < o.workers)
    (hrunning : s.workers worker ≠ .exited) {phase : WorkerPhase Task}
    (hsame : ∀ call, WorkerPhase.holds call phase = WorkerPhase.holds call (s.workers worker)) :
    HandOver o (s.workerGoTo worker phase) := by
  apply h.workerStep hworker hrunning s.queue s.handled s.pending
  intro call
  rw [hsame call]
  rfl

/-- A worker between two tasks holds none, whatever its next check reads. -/
theorem holds_goOn (call : ℕ) (site : CheckSite) :
    WorkerPhase.holds call (site.goOn o : WorkerPhase Task) = 0 := by
  have hspin : ∀ turn, WorkerPhase.holds call (o.spin turn : WorkerPhase Task) = 0 := by
    intro turn
    unfold ExecutorOptions.spin
    split <;> rfl
  cases site with
  | beforeSpin => exact hspin 0
  | spin turn => exact hspin (turn + 1)
  | beforeWait => rfl

/-- A worker moves the task that it takes or holds one place on. -/
theorem workerLoop_handOver (h : HandOver o s) {worker : ℕ} (hworker : worker < o.workers) :
    HandOver o (s.workerLoop o worker) := by
  unfold LifecycleExecutor.workerLoop
  cases hphase : s.workers worker with
  | draining site =>
    have hrunning : s.workers worker ≠ .exited := by simp [hphase]
    cases hqueue : s.queue with
    | nil =>
      apply h.workerGoTo hworker hrunning
      exact fun call => by rw [hphase]; rfl
    | cons t rest =>
      apply h.workerStep hworker hrunning rest s.handled s.pending
      intro call
      simp only [queuedCount, handledCount, hqueue, hphase, List.countP_cons, WorkerPhase.holds,
        decide_eq_true_eq]
      omega
  | uncounting t site =>
    apply h.workerStep hworker (by simp [hphase]) s.queue s.handled
    exact fun call => by rw [hphase]; rfl
  | handling t site =>
    apply h.workerStep hworker (by simp [hphase]) s.queue _ s.pending
    intro call
    have hdrained : WorkerPhase.holds call (site.drained : WorkerPhase Task) = 0 := by
      cases site <;> rfl
    rw [hdrained, hphase, List.countP_append, List.countP_singleton]
    simp only [queuedCount, handledCount, WorkerPhase.holds, decide_eq_true_eq]
    omega
  | checkRunning site =>
    apply h.workerGoTo hworker (by simp [hphase])
    intro call
    rw [hphase]
    split
    · exact holds_goOn call site
    · rfl
  | checkEmpty site =>
    apply h.workerGoTo hworker (by simp [hphase])
    intro call
    rw [hphase]
    split
    · rfl
    · exact holds_goOn call site
  | afterSpin =>
    apply h.workerGoTo hworker (by simp [hphase])
    intro call
    rw [hphase]
    split <;> rfl
  | waiting =>
    apply h.workerGoTo hworker (by simp [hphase])
    exact fun call => by rw [hphase]; rfl
  | exited => exact h

/-! ## Steps of the other threads -/

/-- A call moves its task into the queue in one access, and leaves every task in the others. -/
theorem enqueueImpl_handOver (h : HandOver o s) (call : ℕ) : HandOver o (s.enqueueImpl o call) := by
  unfold LifecycleExecutor.enqueueImpl
  cases hphase : s.enqueues call with
  | idle => exact h
  | pushing task turn =>
    have hunpushed : EnqueuePhase.pushed (s.enqueues call) = false := by rw [hphase]; rfl
    dsimp only
    split
    · exact h.push hunpushed
    · split
      · exact h.enqueueGoTo hunpushed.symm
      · exact h.enqueueGoTo hunpushed.symm
  | counting =>
    have hcounted : HandOver o (s.enqueueGoTo call .notifying) :=
      h.enqueueGoTo (by rw [hphase]; rfl)
    exact ⟨hcounted.located, hcounted.joined⟩
  | notifying => exact h.enqueueGoTo (by rw [hphase]; rfl)
  | returned accepted => exact h

/-- `stop` goes past a worker only when it has exited. -/
theorem stop_handOver (h : HandOver o s) : HandOver o (s.stop o) := by
  unfold LifecycleExecutor.stop
  cases hphase : s.stopPhase with
  | idle => exact ⟨h.located, fun worker hjoined => absurd hjoined (Nat.not_lt_zero worker)⟩
  | notifying => exact ⟨h.located, fun worker hjoined => absurd hjoined (Nat.not_lt_zero worker)⟩
  | joining worker =>
    have hbefore : ∀ other, other < worker → s.workers other = .exited := by
      intro other hother
      exact h.joined other (by rw [hphase]; exact hother)
    dsimp only
    split
    · split
      · next hexited =>
        refine ⟨h.located, ?_⟩
        intro other hother
        rcases Nat.lt_succ_iff_lt_or_eq.mp hother with hlt | rfl
        · exact hbefore other hlt
        · exact hexited
      · exact h
    · next hlast =>
      refine ⟨h.located, ?_⟩
      intro other hother
      exact hbefore other (Nat.lt_of_lt_of_le hother (Nat.le_of_not_lt hlast))
  | clearing =>
    refine ⟨h.located, ?_⟩
    intro other hother
    exact h.joined other (by rw [hphase]; exact hother)
  | returned => exact h

/-- A step of any thread keeps each pushed task in one place. -/
theorem executorStep_handOver (h : HandOver o s) (e : ExecutorEvent Task) :
    HandOver o (s.step o e) := by
  cases e with
  | enqueue call task =>
    simp only [LifecycleExecutor.step]
    split
    · next hphase =>
      apply h.enqueueGoTo
      rw [hphase]
      split <;> rfl
    · exact h
  | proceed call => exact enqueueImpl_handOver h call
  | work worker =>
    simp only [LifecycleExecutor.step]
    split
    · next hworker => exact workerLoop_handOver h hworker
    · exact h
  | stop => exact stop_handOver h

/-- Every state of every run of the executor keeps the hand-over invariant. -/
theorem runExecutor_handOver (events : List (ExecutorEvent Task)) :
    HandOver o (runExecutor o events) := by
  unfold runExecutor
  apply List.foldlRecOn
  · exact handOver_start
  · exact fun _ hs e _ => executorStep_handOver hs e

/-! ## The workers that are left -/

/-- The step does not push once the last worker has exited. -/
def PushedInTime (o : ExecutorOptions) (s : LifecycleExecutor Task) : ExecutorEvent Task → Prop
  | .proceed call =>
    match s.enqueues call with
    | .pushing .. => s.queue.length < o.capacity → Staffed o s
    | _ => True
  | _ => True

instance [DecidableEq Task] (o : ExecutorOptions) (s : LifecycleExecutor Task) :
    Decidable (Staffed o s) :=
  inferInstanceAs (Decidable (∃ worker < o.workers, s.workers worker ≠ .exited))

instance [DecidableEq Task] (o : ExecutorOptions) (s : LifecycleExecutor Task) :
    DecidablePred (PushedInTime o s)
  | .proceed call =>
    match h : s.enqueues call with
    | .pushing _ _ =>
      decidable_of_iff (s.queue.length < o.capacity → Staffed o s) (by simp [PushedInTime, h])
    | .idle | .counting | .notifying | .returned _ => isTrue (by simp [PushedInTime, h])
  | .enqueue _ _ | .work _ | .stop => isTrue trivial

/-- What is queued has a worker to take it. -/
def QueueStaffed (o : ExecutorOptions) (s : LifecycleExecutor Task) : Prop :=
  s.queue ≠ [] → Staffed o s

/-- A worker that does not exit in its step leaves the executor staffed. -/
theorem staffed_update {worker : ℕ} (hworker : worker < o.workers) {phase : WorkerPhase Task}
    (hphase : phase ≠ .exited) :
    ∃ other < o.workers, Function.update s.workers worker phase other ≠ .exited :=
  ⟨worker, hworker, by rwa [Function.update_self]⟩

/-- The checks of the worker loop lead on to another phase of it; the return is a step of its own.
-/
theorem goOn_ne_exited (site : CheckSite) : (site.goOn o : WorkerPhase Task) ≠ .exited := by
  have hspin : ∀ turn, (o.spin turn : WorkerPhase Task) ≠ .exited := by
    intro turn
    unfold ExecutorOptions.spin
    split <;> simp
  cases site with
  | beforeSpin => exact hspin 0
  | spin turn => exact hspin (turn + 1)
  | beforeWait => simp [CheckSite.goOn]

/-- After a drained queue a worker goes back to its loop, it has not returned. -/
theorem drained_ne_exited (site : DrainSite) : (site.drained : WorkerPhase Task) ≠ .exited := by
  cases site <;> simp [DrainSite.drained]

/-- A worker exits in a step that found the queue empty, and in no other. -/
theorem workerLoop_queueStaffed (h : QueueStaffed o s) {worker : ℕ} (hworker : worker < o.workers) :
    QueueStaffed o (s.workerLoop o worker) := by
  unfold LifecycleExecutor.workerLoop
  cases hphase : s.workers worker with
  | draining site =>
    dsimp only
    split
    · exact fun _ => staffed_update hworker (by simp)
    · exact fun _ => staffed_update hworker (by simp)
  | uncounting t site => exact fun _ => staffed_update hworker (by simp)
  | handling t site => exact fun _ => staffed_update hworker (drained_ne_exited site)
  | checkRunning site =>
    dsimp only
    split
    · exact fun _ => staffed_update hworker (goOn_ne_exited site)
    · exact fun _ => staffed_update hworker (by simp)
  | checkEmpty site =>
    dsimp only
    split
    · next hempty => exact fun hqueue => absurd (List.isEmpty_iff.mp hempty) hqueue
    · exact fun _ => staffed_update hworker (goOn_ne_exited site)
  | afterSpin =>
    dsimp only
    split
    · exact fun _ => staffed_update hworker (by simp)
    · exact fun _ => staffed_update hworker (by simp)
  | waiting => exact fun _ => staffed_update hworker (by simp)
  | exited => exact h

/-- What a step does to the queue and to the workers. -/
theorem executorStep_cases (e : ExecutorEvent Task) :
    ((s.step o e).queue = s.queue ∧ (s.step o e).workers = s.workers) ∨
    (∃ call task turn, e = .proceed call ∧ s.enqueues call = .pushing task turn ∧
      s.queue.length < o.capacity ∧ (s.step o e).queue = s.queue ++ [⟨call, task⟩] ∧
      (s.step o e).workers = s.workers) ∨
    (∃ worker < o.workers, s.step o e = s.workerLoop o worker) := by
  cases e with
  | enqueue call task =>
    left
    simp only [LifecycleExecutor.step]
    split <;> exact ⟨rfl, rfl⟩
  | proceed call =>
    simp only [LifecycleExecutor.step, LifecycleExecutor.enqueueImpl]
    cases hphase : s.enqueues call with
    | idle => exact .inl ⟨rfl, rfl⟩
    | pushing task turn =>
      dsimp only
      split
      · next hroom => exact .inr (.inl ⟨call, task, turn, rfl, hphase, hroom, rfl, rfl⟩)
      · left
        split <;> exact ⟨rfl, rfl⟩
    | counting => exact .inl ⟨rfl, rfl⟩
    | notifying => exact .inl ⟨rfl, rfl⟩
    | returned accepted => exact .inl ⟨rfl, rfl⟩
  | work worker =>
    simp only [LifecycleExecutor.step]
    split
    · next hworker => exact .inr (.inr ⟨worker, hworker, rfl⟩)
    · exact .inl ⟨rfl, rfl⟩
  | stop => exact .inl ⟨stop_frame.queue, stop_frame.workers⟩

/-- A step that pushes in time, if it pushes at all, keeps the queue staffed. -/
theorem executorStep_queueStaffed (e : ExecutorEvent Task) (h : QueueStaffed o s)
    (hpush : PushedInTime o s e) : QueueStaffed o (s.step o e) := by
  rcases executorStep_cases (o := o) (s := s) e with ⟨hqueue, hworkers⟩ |
    ⟨call, task, turn, rfl, hphase, hroom, -, hworkers⟩ | ⟨worker, hworker, hstep⟩
  · rw [QueueStaffed, Staffed, hqueue, hworkers]
    exact h
  · simp only [PushedInTime, hphase] at hpush
    rw [QueueStaffed, Staffed, hworkers]
    exact fun _ => hpush hroom
  · rw [hstep]
    exact workerLoop_queueStaffed h hworker

/-- A task is queued that no worker is left to take. -/
def Abandoned (o : ExecutorOptions) (call : ℕ) (s : LifecycleExecutor Task) : Prop :=
  (∃ t ∈ s.queue, t.call = call) ∧ ∀ worker < o.workers, s.workers worker = .exited

/-- A push after the last worker has exited. -/
theorem abandoned_of_not_pushedInTime {e : ExecutorEvent Task} (hlate : ¬ PushedInTime o s e) :
    ∃ call, Abandoned o call (s.step o e) := by
  cases e with
  | proceed call =>
    cases hphase : s.enqueues call with
    | pushing task turn =>
      simp only [PushedInTime, hphase, Classical.not_imp] at hlate
      obtain ⟨hroom, hunstaffed⟩ := hlate
      refine ⟨call, ?_⟩
      simp only [LifecycleExecutor.step, LifecycleExecutor.enqueueImpl, hphase, if_pos hroom]
      refine ⟨⟨⟨call, task⟩, by simp, rfl⟩, ?_⟩
      intro worker hworker
      by_contra hrunning
      exact hunstaffed ⟨worker, hworker, hrunning⟩
    | _ => simp [PushedInTime, hphase] at hlate
  | _ => exact absurd trivial hlate

/-- A task that sits in the queue after every worker has returned sits there for good. -/
theorem executorStep_abandoned {call : ℕ} (h : Abandoned o call s) (e : ExecutorEvent Task) :
    Abandoned o call (s.step o e) := by
  obtain ⟨⟨t, hqueued, hcall⟩, hexited⟩ := h
  rcases executorStep_cases (o := o) (s := s) e with ⟨hqueue, hworkers⟩ |
    ⟨_, _, _, -, -, -, hqueue, hworkers⟩ | ⟨worker, hworker, hstep⟩
  · rw [Abandoned, hqueue, hworkers]
    exact ⟨⟨t, hqueued, hcall⟩, hexited⟩
  · rw [Abandoned, hqueue, hworkers]
    exact ⟨⟨t, List.mem_append_left _ hqueued, hcall⟩, hexited⟩
  · -- an exited worker does nothing
    have hsame : s.workerLoop o worker = s := by
      simp only [LifecycleExecutor.workerLoop, hexited worker hworker]
    rw [hstep, hsame]
    exact ⟨⟨t, hqueued, hcall⟩, hexited⟩

/-! ## The result -/

/-- What `enqueue` answers is what becomes of the task. -/
structure HandledOnce (s : LifecycleExecutor Task) : Prop where
  once : ∀ call, handledCount s call ≤ 1
  refused : ∀ call, s.enqueues call = .returned false → handledCount s call = 0
  accepted : s.stopPhase = .returned → ∀ call, s.enqueues call = .returned true →
    handledCount s call = 1

/-- `stop` and every call of `enqueue` have returned. -/
structure Complete (s : LifecycleExecutor Task) : Prop where
  stopped : s.stopPhase = .returned
  answered : ∀ call, s.enqueues call = .idle ∨ ∃ accepted, s.enqueues call = .returned accepted

/-- With the invariant and a staffed queue no accepted task is lost or run twice. -/
theorem handledOnce_of_queueStaffed (h : HandOver o s) (hstaffed : QueueStaffed o s) :
    HandledOnce s where
  once := by
    intro call
    have hlocated := h.located call
    split at hlocated <;> omega
  refused := by
    intro call hrefused
    have hlocated := h.located call
    rw [hrefused, if_neg (by exact Bool.false_ne_true)] at hlocated
    omega
  accepted := by
    intro hstopped call haccepted
    have hexited : ∀ worker < o.workers, s.workers worker = .exited := by
      intro worker hworker
      exact h.joined worker (by rw [hstopped]; exact hworker)
    have hqueue : s.queue = [] := by
      by_contra hqueued
      obtain ⟨worker, hworker, hrunning⟩ := hstaffed hqueued
      exact hrunning (hexited worker hworker)
    have hheld : heldCount o s call = 0 := by
      rw [heldCount, weight]
      apply Finset.sum_eq_zero
      intro worker hworker
      rw [hexited worker (Finset.mem_range.mp hworker)]
      rfl
    have hlocated := h.located call
    rw [queuedCount, hqueue, List.countP_nil, hheld, haccepted] at hlocated
    simpa [EnqueuePhase.pushed] using hlocated

/-- The task of an abandoned call is never handled, whatever `enqueue` said. -/
theorem not_handledOnce_of_abandoned (h : HandOver o s) {call : ℕ} (habandoned : Abandoned o call s)
    (hcomplete : Complete s) : ¬ HandledOnce s := by
  intro hhandled
  obtain ⟨⟨t, hqueued, hcall⟩, _⟩ := habandoned
  have hcount : 0 < queuedCount s call := by
    apply List.countP_pos_iff.mpr
    exact ⟨t, hqueued, by simpa using hcall⟩
  have hlocated := h.located call
  rcases hcomplete.answered call with hidle | ⟨accepted, hanswered⟩
  · rw [hidle, if_neg (by exact Bool.false_ne_true)] at hlocated
    omega
  · cases accepted with
    | false =>
      rw [hanswered, if_neg (by exact Bool.false_ne_true)] at hlocated
      omega
    | true =>
      have hone := hhandled.accepted hcomplete.stopped call hanswered
      rw [hanswered, if_pos (by exact rfl)] at hlocated
      omega

/-- In a run whose pushes all come while a worker is left, `enqueue` tells the truth in every state;
a run at whose end all calls have returned, and that has a later push, ends with a lost task. -/
theorem handledOnce_iff_pushedInTime (o : ExecutorOptions) (events : List (ExecutorEvent Task)) :
    (Run.Along (PushedInTime o) (LifecycleExecutor.step o) {} events →
      HandledOnce (runExecutor o events)) ∧
    (Complete (runExecutor o events) → HandledOnce (runExecutor o events) →
      Run.Along (PushedInTime o) (LifecycleExecutor.step o) {} events) := by
  constructor
  · intro hrun
    apply handledOnce_of_queueStaffed (runExecutor_handOver events)
    exact Run.invariant (QueueStaffed o) (fun _ e h hpush => executorStep_queueStaffed e h hpush)
      events {} (fun hqueue => absurd rfl hqueue) hrun
  · intro hcomplete hhandled
    by_contra hnot
    obtain ⟨done, e, rest, rfl, hlate⟩ := Run.exists_of_not_along events _ hnot
    obtain ⟨call, habandoned⟩ := abandoned_of_not_pushedInTime hlate
    have hend : Abandoned o call (runExecutor o (done ++ e :: rest)) := by
      rw [runExecutor, List.foldl_append, List.foldl_cons]
      apply List.foldlRecOn
      · exact habandoned
      · exact fun _ h e _ => executorStep_abandoned h e
    exact not_handledOnce_of_abandoned (runExecutor_handOver _) hend hcomplete hhandled

/-- A queue of one slot, and no second try. -/
def oneSlot : ExecutorOptions := { capacity := 1, pushSpinCount := 0, emptySpinCount := 1 }

/-- Two calls, of which one finds no room, and a `stop`. -/
def twoCalls : List (ExecutorEvent ℕ) :=
  [.enqueue 0 7, .enqueue 1 8, .proceed 0, .proceed 1, .proceed 0, .proceed 0,
    .work 0, .work 0, .work 0, .stop, .work 0, .work 0, .work 0, .stop, .stop, .stop, .stop]

/-- The run of two calls has come to its end: `stop` has returned, and so has each call that was
made. -/
theorem complete_twoCalls : Complete (runExecutor oneSlot twoCalls) where
  stopped := by decide
  answered
    | 0 => .inr ⟨true, by decide⟩
    | 1 => .inr ⟨false, by decide⟩
    | _ + 2 => .inl rfl

/-- Of two calls on a queue of one slot, one finds no room, and the task of the other is pushed in
time and handled once. -/
theorem handledOnce_iff_pushedInTime_two_calls :
    HandledOnce (runExecutor oneSlot twoCalls) ∧
      Run.Along (PushedInTime oneSlot) (LifecycleExecutor.step oneSlot) {} twoCalls :=
  have hhandled := (handledOnce_iff_pushedInTime oneSlot twoCalls).1 (by decide)
  ⟨hhandled, (handledOnce_iff_pushedInTime oneSlot twoCalls).2 complete_twoCalls hhandled⟩

/-- `enqueue` finds the executor running, `stop` joins the worker, and only then comes the push. -/
def pushedLate : List (ExecutorEvent ℕ) :=
  [.enqueue 0 7, .stop, .work 0, .work 0, .work 0, .stop, .stop, .stop, .stop,
    .proceed 0, .proceed 0, .proceed 0]

/-- The task is accepted, and nobody handles it. -/
theorem pushedLate_lost :
    let s := runExecutor {} pushedLate
    s.stopPhase = .returned ∧ s.enqueues 0 = .returned true ∧ handledCount s 0 = 0 ∧
      ¬ HandledOnce s := by
  have hstopped : (runExecutor {} pushedLate).stopPhase = .returned := by decide
  have haccepted : (runExecutor {} pushedLate).enqueues 0 = .returned true := by decide
  have hcount : handledCount (runExecutor {} pushedLate) 0 = 0 := by decide
  refine ⟨hstopped, haccepted, hcount, ?_⟩
  intro hhandled
  rw [hhandled.accepted hstopped 0 haccepted] at hcount
  cases hcount

end SpotRelay.Analysis
