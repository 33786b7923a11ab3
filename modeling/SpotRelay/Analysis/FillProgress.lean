import Mathlib.Algebra.Order.BigOperators.Group.Finset
import SpotRelay.Analysis.FillForkJoin

/-!
# A split that waits for its fill queries

As long as the executor has a worker, a split comes to its end by steps of its own thread and of the
workers: the thread pushes or queries, and a worker that finds the queue full of other splits' tasks
works it off.  Without a worker it comes to its end unless a task of it is left in the queue.

* **somebody can go on**: in every state of a run the split's thread or a worker has a step to make,
  or the split has come to its end (`Lively`, `run_lively`).
* **the size** of what is left gets smaller at each of these steps, so they lead to the end
  (`enqueueSize_proceed`, `workerRank`).
-/

set_option autoImplicit false

namespace SpotRelay.Analysis

open SpotRelay.Model SpotRelay.Library

variable {o : ExecutorOptions} {splits : ℕ → SplitOrders} {s : FillQueries}

/-! ## The thread of a split -/

/-- How far a call of `enqueue` is from its answer. -/
def enqueueSize (o : ExecutorOptions) : EnqueuePhase FillQueryTask → ℕ
  | .idle => o.pushSpinCount + 4
  | .pushing _ turn => o.pushSpinCount - turn + 3
  | .counting => 2
  | .notifying => 1
  | .returned _ => 0

/-- How far the thread is from its wait. -/
def threadSize (o : ExecutorOptions) (s : FillQueries) (split : ℕ) : ℕ :=
  match s.phases split with
  | .idle => 2 * (o.pushSpinCount + 7) + 2
  | .enqueueing .foreign =>
    o.pushSpinCount + 9 + enqueueSize o (s.executor.enqueues (fillCall split .foreign))
  | .inline .foreign => o.pushSpinCount + 8
  | .submitting => o.pushSpinCount + 7
  | .enqueueing .korean => 2 + enqueueSize o (s.executor.enqueues (fillCall split .korean))
  | .inline .korean => 1
  | .waiting | .done => 0

/-- No call is farther from its answer than one that has not begun. -/
theorem enqueueSize_le (call : EnqueuePhase FillQueryTask) :
    enqueueSize o call ≤ o.pushSpinCount + 4 := by
  cases call <;> simp only [enqueueSize] <;> omega

variable {e : LifecycleExecutor FillQueryTask}

/-- A call that begins comes nearer to its answer. -/
theorem enqueueSize_enqueue {call : ℕ} (task : FillQueryTask) (hidle : e.enqueues call = .idle) :
    enqueueSize o ((e.step o (.enqueue call task)).enqueues call) <
      enqueueSize o (e.enqueues call) := by
  simp only [LifecycleExecutor.step, hidle, LifecycleExecutor.enqueueGoTo, Function.update_self]
  split <;> simp only [enqueueSize] <;> omega

/-- A call that takes its next access comes nearer to its answer. -/
theorem enqueueSize_proceed (call : ℕ) (hcalled : e.enqueues call ≠ .idle)
    (hunanswered : ∀ accepted, e.enqueues call ≠ .returned accepted) :
    enqueueSize o ((e.step o (.proceed call)).enqueues call) <
      enqueueSize o (e.enqueues call) := by
  cases hphase : e.enqueues call with
  | idle => exact absurd hphase hcalled
  | returned accepted => exact absurd hphase (hunanswered accepted)
  | pushing task turn =>
    simp only [LifecycleExecutor.step, LifecycleExecutor.enqueueImpl, hphase,
      LifecycleExecutor.enqueueGoTo]
    split
    · simp only [Function.update_self, enqueueSize]
      omega
    · split
      · simp only [Function.update_self, enqueueSize]
        omega
      · simp only [Function.update_self, enqueueSize]
        omega
  | counting =>
    simp [LifecycleExecutor.step, LifecycleExecutor.enqueueImpl, hphase,
      LifecycleExecutor.enqueueGoTo, enqueueSize]
  | notifying =>
    simp [LifecycleExecutor.step, LifecycleExecutor.enqueueImpl, hphase,
      LifecycleExecutor.enqueueGoTo, enqueueSize]

/-- In `enqueue` the size is that of the call, above what the thread has to do behind it. -/
theorem threadSize_enqueueing {split : ℕ} {kind : FillKind}
    (hphase : s.phases split = .enqueueing kind) :
    ∃ behind, threadSize o s split =
        behind + 2 + enqueueSize o (s.executor.enqueues (fillCall split kind)) ∧
      ∀ s' : FillQueries,
        (s'.phases split = .enqueueing kind → threadSize o s' split =
          behind + 2 + enqueueSize o (s'.executor.enqueues (fillCall split kind))) ∧
        (s'.phases split = .inline kind → threadSize o s' split = behind + 1) ∧
        (s'.phases split = kind.dispatched → threadSize o s' split = behind) := by
  cases kind with
  | foreign =>
    refine ⟨o.pushSpinCount + 7, ?_, ?_⟩
    · simp only [threadSize, hphase]
    · intro s'
      refine ⟨?_, ?_, ?_⟩ <;> intro hphase' <;> simp only [threadSize, hphase', FillKind.dispatched]
  | korean =>
    refine ⟨0, ?_, ?_⟩
    · simp only [threadSize, hphase]
    · intro s'
      refine ⟨?_, ?_, ?_⟩ <;> intro hphase' <;> simp only [threadSize, hphase', FillKind.dispatched]

/-- A thread that does not wait comes nearer to its wait. -/
theorem threadSize_proceed {split : ℕ} (hwaiting : s.phases split ≠ .waiting)
    (hdone : s.phases split ≠ .done) :
    threadSize o (s.proceed o splits split) split < threadSize o s split := by
  cases hphase : s.phases split with
  | waiting => exact absurd hphase hwaiting
  | done => exact absurd hphase hdone
  | idle =>
    have hsize := enqueueSize_le (o := o) (s.executor.enqueues (fillCall split .foreign))
    simp only [FillQueries.proceed, hphase]
    simp only [threadSize, FillQueries.goTo, FillQueries.writeOrder, Function.update_self, hphase]
    omega
  | submitting =>
    have hsize := enqueueSize_le (o := o) (s.executor.enqueues (fillCall split .korean))
    simp only [FillQueries.proceed, hphase]
    simp only [threadSize, FillQueries.goTo, FillQueries.writeOrder, Function.update_self, hphase]
    omega
  | inline kind =>
    simp only [FillQueries.proceed, hphase]
    cases kind <;>
      simp [threadSize, FillQueries.goTo, hphase, FillKind.dispatched]
  | enqueueing kind =>
    obtain ⟨behind, hsize, hnext⟩ := threadSize_enqueueing (o := o) hphase
    rw [hsize]
    simp only [FillQueries.proceed, hphase]
    cases hcall : s.executor.enqueues (fillCall split kind) with
    | idle =>
      have hless := enqueueSize_enqueue (o := o) ((splits split).task split kind) hcall
      have hafter := (hnext { s with
        executor := s.executor.step o
          (.enqueue (fillCall split kind) ((splits split).task split kind)) }).1 hphase
      rw [hcall] at hless
      exact lt_of_eq_of_lt hafter (Nat.add_lt_add_left hless _)
    | returned accepted =>
      simp only [enqueueSize]
      cases accepted with
      | false =>
        rw [(hnext _).2.1 (by exact Function.update_self ..)]
        omega
      | true =>
        rw [(hnext _).2.2 (by exact Function.update_self ..)]
        omega
    | _ =>
      have hless := enqueueSize_proceed (o := o) (e := s.executor) (fillCall split kind)
        (by rw [hcall]; simp) (by rw [hcall]; simp)
      have hafter := (hnext { s with
        executor := s.executor.step o (.proceed (fillCall split kind)) }).1 hphase
      rw [hcall] at hless
      exact lt_of_eq_of_lt hafter (Nat.add_lt_add_left hless _)

/-! ## The workers -/

/-- How far a worker is from the next `try_pop`, if it finds something in the queue. -/
def workerRank : WorkerPhase FillQueryTask → ℕ
  | .draining _ | .exited => 0
  | .afterSpin | .waiting => 1
  | .handling .. | .checkEmpty _ => 2
  | .uncounting .. | .checkRunning _ => 3

/-- What the executor has left to do; a task that is popped leaves its worker behind. -/
def executorSize (o : ExecutorOptions) (e : LifecycleExecutor FillQueryTask) : ℕ :=
  5 * e.queue.length + weight workerRank (Finset.range o.workers) e.workers

/-- The worker has a task or one to take. -/
def Busy (e : LifecycleExecutor FillQueryTask) (worker : ℕ) : Prop :=
  e.workers worker ≠ .exited ∧
    (e.queue ≠ [] ∨ ∃ t site, e.workers worker = .uncounting t site ∨
      e.workers worker = .handling t site)

/-- A worker behind a check is near its next `try_pop`. -/
theorem workerRank_goOn (site : CheckSite) :
    workerRank (site.goOn o : WorkerPhase FillQueryTask) ≤ 1 := by
  have hspin : ∀ turn, workerRank (o.spin turn : WorkerPhase FillQueryTask) ≤ 1 := by
    intro turn
    unfold ExecutorOptions.spin
    split <;> simp [workerRank]
  cases site with
  | beforeSpin => exact hspin 0
  | spin turn => exact hspin (turn + 1)
  | beforeWait => exact le_rfl

/-- A worker that goes on to `phase` without touching the queue. -/
theorem executorSize_workerGoTo {worker : ℕ} (hworker : worker < o.workers)
    {phase : WorkerPhase FillQueryTask} {next : LifecycleExecutor FillQueryTask}
    (hqueue : next.queue = e.queue)
    (hworkers : next.workers = Function.update e.workers worker phase)
    (hless : workerRank phase < workerRank (e.workers worker)) :
    executorSize o next < executorSize o e := by
  have hweight : weight workerRank (Finset.range o.workers)
        (Function.update e.workers worker phase) + workerRank (e.workers worker) =
      weight workerRank (Finset.range o.workers) e.workers + workerRank phase :=
    weight_update workerRank (Finset.mem_range.mpr hworker)
  rw [executorSize, executorSize, hqueue, hworkers]
  omega

/-- A busy worker brings the executor forward, and does not exit. -/
theorem workerLoop_busy {worker : ℕ} (hworker : worker < o.workers) (hbusy : Busy e worker) :
    executorSize o (e.workerLoop o worker) < executorSize o e ∧
      (e.workerLoop o worker).workers worker ≠ .exited := by
  obtain ⟨hstaffed, hwork⟩ := hbusy
  -- a worker that holds nothing finds the queue full
  have hqueue : (∀ t site, e.workers worker ≠ .uncounting t site ∧
      e.workers worker ≠ .handling t site) → e.queue ≠ [] := by
    intro hnothing
    rcases hwork with hqueue | ⟨t, site, hholds | hholds⟩
    · exact hqueue
    · exact absurd hholds (hnothing t site).1
    · exact absurd hholds (hnothing t site).2
  cases hphase : e.workers worker with
  | exited => exact absurd hphase hstaffed
  | draining site =>
    cases htasks : e.queue with
    | nil => exact absurd htasks (hqueue (by simp [hphase]))
    | cons t rest =>
      have hweight : weight workerRank (Finset.range o.workers)
            (Function.update e.workers worker (.uncounting t site)) +
              workerRank (e.workers worker) =
          weight workerRank (Finset.range o.workers) e.workers +
            workerRank (.uncounting t site) :=
        weight_update workerRank (Finset.mem_range.mpr hworker)
      simp only [LifecycleExecutor.workerLoop, hphase, htasks]
      constructor
      · simp only [executorSize, LifecycleExecutor.workerGoTo, htasks, List.length_cons]
        rw [hphase] at hweight
        simp only [workerRank] at hweight
        omega
      · simp [LifecycleExecutor.workerGoTo]
  | uncounting t site =>
    simp only [LifecycleExecutor.workerLoop, hphase]
    refine ⟨executorSize_workerGoTo hworker rfl rfl ?_, ?_⟩
    · rw [hphase]
      exact Nat.lt_succ_self 2
    · simp [LifecycleExecutor.workerGoTo]
  | handling t site =>
    simp only [LifecycleExecutor.workerLoop, hphase]
    refine ⟨executorSize_workerGoTo hworker rfl rfl ?_, ?_⟩
    · rw [hphase]
      cases site <;> simp [workerRank, DrainSite.drained]
    · simp [LifecycleExecutor.workerGoTo, drained_ne_exited]
  | checkRunning site =>
    have hrank := workerRank_goOn (o := o) site
    simp only [LifecycleExecutor.workerLoop, hphase]
    refine ⟨executorSize_workerGoTo hworker rfl rfl ?_, ?_⟩
    · rw [hphase]
      split
      · exact Nat.lt_of_le_of_lt hrank (Nat.lt_of_sub_eq_succ rfl)
      · exact Nat.lt_succ_self 2
    · simp only [LifecycleExecutor.workerGoTo, Function.update_self]
      split
      · exact goOn_ne_exited site
      · simp
  | checkEmpty site =>
    have hrank := workerRank_goOn (o := o) site
    have htasks : e.queue.isEmpty = false := by simpa using hqueue (by simp [hphase])
    simp only [LifecycleExecutor.workerLoop, hphase, htasks]
    refine ⟨executorSize_workerGoTo hworker rfl rfl ?_, ?_⟩
    · rw [hphase, if_neg Bool.false_ne_true]
      exact Nat.lt_of_le_of_lt hrank (Nat.lt_succ_self 1)
    · simp only [LifecycleExecutor.workerGoTo, Function.update_self]
      exact goOn_ne_exited site
  | afterSpin =>
    have htasks : e.queue.isEmpty = false := by simpa using hqueue (by simp [hphase])
    simp only [LifecycleExecutor.workerLoop, hphase, htasks]
    refine ⟨executorSize_workerGoTo hworker rfl rfl (by rw [hphase]; decide), ?_⟩
    simp [LifecycleExecutor.workerGoTo]
  | waiting =>
    simp only [LifecycleExecutor.workerLoop, hphase]
    refine ⟨executorSize_workerGoTo hworker rfl rfl (by rw [hphase]; decide), ?_⟩
    simp [LifecycleExecutor.workerGoTo]

/-- An access of a worker is a step of the executor, and leaves the threads of the splits. -/
theorem work_executor (o : ExecutorOptions) (splits : ℕ → SplitOrders) (s : FillQueries)
    (worker : ℕ) :
    (s.work o splits worker).executor = s.executor.step o (.work worker) ∧
      (s.work o splits worker).phases = s.phases := by
  simp only [FillQueries.work]
  split
  · split
    · exact ⟨rfl, rfl⟩
    · exact ⟨rfl, rfl⟩
  · exact ⟨rfl, rfl⟩

/-! ## The wait -/

/-- A query that is missing is queued or with a worker. -/
theorem pending_of_waiting (h : FillSound o splits s) {split : ℕ}
    (hwaiting : s.phases split = .waiting) (hclosed : s.latches split ≠ 0) :
    ∃ kind, queuedCount s.executor (fillCall split kind) +
      heldCount o s.executor (fillCall split kind) = 1 := by
  have hsplit := h.splits split
  have hsum := hsplit.latch (by rw [hwaiting]; decide)
  have hmissing : ∃ kind, served s split kind = 0 := by
    by_contra hnone
    have hforeign : served s split .foreign ≠ 0 := fun hzero => hnone ⟨_, hzero⟩
    have hkorean : served s split .korean ≠ 0 := fun hzero => hnone ⟨_, hzero⟩
    omega
  obtain ⟨kind, hzero⟩ := hmissing
  refine ⟨kind, ?_⟩
  have hstage : dispatchStage kind .waiting = .behind := by cases kind <;> rfl
  have hfits := hsplit.calls kind
  rw [hwaiting, hstage] at hfits
  unfold served inlined at hzero
  have hlocated := h.handOver.located (fillCall split kind)
  rcases hfits with haccepted | hrefused
  · rw [haccepted, if_pos (by exact rfl)] at hlocated
    omega
  · rw [hwaiting, hstage, hrefused, if_pos ⟨rfl, rfl⟩] at hzero
    omega

/-- A task that is held has a worker that holds it. -/
theorem exists_holder {call : ℕ} (hheld : heldCount o e call ≠ 0) :
    ∃ worker < o.workers, ∃ t site, e.workers worker = .uncounting t site ∨
      e.workers worker = .handling t site := by
  rw [heldCount, weight] at hheld
  obtain ⟨worker, hmem, hholds⟩ := Finset.exists_ne_zero_of_sum_ne_zero hheld
  refine ⟨worker, Finset.mem_range.mp hmem, ?_⟩
  cases hphase : e.workers worker with
  | uncounting t site => exact ⟨t, site, .inl rfl⟩
  | handling t site => exact ⟨t, site, .inr rfl⟩
  | _ => exact absurd (by rw [hphase]; rfl) hholds

/-- A waiting split whose latch is closed has a busy worker to wait for, if any is left. -/
theorem exists_busy (h : FillSound o splits s) (hstaffed : Staffed o s.executor) {split : ℕ}
    (hwaiting : s.phases split = .waiting) (hclosed : s.latches split ≠ 0) :
    ∃ worker < o.workers, Busy s.executor worker := by
  obtain ⟨kind, hpending⟩ := pending_of_waiting h hwaiting hclosed
  by_cases hqueued : queuedCount s.executor (fillCall split kind) = 0
  · have hheld : heldCount o s.executor (fillCall split kind) ≠ 0 := by omega
    obtain ⟨worker, hworker, t, site, hholds⟩ := exists_holder hheld
    refine ⟨worker, hworker, ?_, .inr ⟨t, site, hholds⟩⟩
    rcases hholds with hholds | hholds <;> simp [hholds]
  · obtain ⟨worker, hworker, hrunning⟩ := hstaffed
    refine ⟨worker, hworker, hrunning, .inl ?_⟩
    intro hempty
    exact hqueued (by rw [queuedCount, hempty, List.countP_nil])

/-- A step of the split's own thread or of a worker. -/
def OwnOrWorker (split : ℕ) (event : FillQueryEvent) : Prop :=
  event = .proceed split ∨ ∃ worker, event = .work worker

/-- The split waits, or is behind its wait. -/
def AtWait (s : FillQueries) (split : ℕ) : Prop :=
  s.phases split = .waiting ∨ s.phases split = .done

/-- The thread of a split comes to its wait by its own steps. -/
theorem reaches_wait (h : FillSound o splits s) (hstaffed : Staffed o s.executor) (split : ℕ) :
    ∃ more : List FillQueryEvent, (∀ event ∈ more, OwnOrWorker split event) ∧
      (FillSound o splits (s.run o splits more) ∧ Staffed o (s.run o splits more).executor) ∧
      AtWait (s.run o splits more) split := by
  apply Run.exists_reach (OwnOrWorker split) (fun s => FillSound o splits s ∧ Staffed o s.executor)
    (fun s => AtWait s split) (fun s => threadSize o s split) _ s ⟨h, hstaffed⟩
  rintro s ⟨h, hstaffed⟩ hnot
  have hworkers : (s.proceed o splits split).executor.workers = s.executor.workers := by
    rcases proceed_executor o splits s split with hsame | ⟨kind, hstep⟩ |
      ⟨kind, hstep⟩
    · rw [hsame]
    · rw [hstep]
      exact (executorEnqueue_frame _ _).workers
    · rw [hstep]
      exact (enqueueImpl_frame _).workers
  refine ⟨.proceed split, .inl rfl, ⟨proceed_sound h split, ?_⟩, ?_⟩
  · change Staffed o (s.proceed o splits split).executor
    rw [Staffed, hworkers]
    exact hstaffed
  · exact threadSize_proceed (fun hwaiting => hnot (.inl hwaiting)) fun hdone => hnot (.inr hdone)

/-- The workers open the latch that a split waits for. -/
theorem reaches_open (h : FillSound o splits s) (hstaffed : Staffed o s.executor) {split : ℕ}
    (hwaiting : s.phases split = .waiting) :
    ∃ more : List FillQueryEvent, (∀ event ∈ more, OwnOrWorker split event) ∧
      (s.run o splits more).phases split = .waiting ∧ (s.run o splits more).latches split = 0 := by
  suffices hreach : ∃ more : List FillQueryEvent, (∀ event ∈ more, OwnOrWorker split event) ∧
      (FillSound o splits (s.run o splits more) ∧ Staffed o (s.run o splits more).executor ∧
        (s.run o splits more).phases split = .waiting) ∧
      (s.run o splits more).latches split = 0 by
    obtain ⟨more, hmore, ⟨-, -, hstill⟩, hopen⟩ := hreach
    exact ⟨more, hmore, hstill, hopen⟩
  apply Run.exists_reach (OwnOrWorker split)
    (fun s => FillSound o splits s ∧ Staffed o s.executor ∧ s.phases split = .waiting)
    (fun s => s.latches split = 0) (fun s => executorSize o s.executor) _ s
    ⟨h, hstaffed, hwaiting⟩
  rintro s ⟨h, hstaffed, hwaiting⟩ hclosed
  obtain ⟨worker, hworker, hbusy⟩ := exists_busy h hstaffed hwaiting hclosed
  obtain ⟨hless, hrunning⟩ := workerLoop_busy hworker hbusy
  obtain ⟨hexecutor, hphases⟩ := work_executor o splits s worker
  have hloop : (s.work o splits worker).executor = s.executor.workerLoop o worker := by
    rw [hexecutor]
    exact if_pos hworker
  refine ⟨.work worker, .inr ⟨worker, rfl⟩, ⟨work_sound h worker, ?_, ?_⟩, ?_⟩
  · refine ⟨worker, hworker, ?_⟩
    change (s.work o splits worker).executor.workers worker ≠ .exited
    rwa [hloop]
  · exact (congrFun hphases split).trans hwaiting
  · change executorSize o (s.work o splits worker).executor < _
    rwa [hloop]

/-- A run is continued by another. -/
theorem run_append (more rest : List FillQueryEvent) :
    s.run o splits (more ++ rest) = (s.run o splits more).run o splits rest :=
  List.foldl_append ..

/-- The thread leaves its wait. -/
theorem leaves_wait {split : ℕ} (hwaiting : s.phases split = .waiting)
    (hopen : s.latches split = 0) :
    (s.run o splits [.proceed split]).phases split = .done := by
  change (s.proceed o splits split).phases split = .done
  simp only [FillQueries.proceed, hwaiting, if_pos hopen]
  exact Function.update_self ..

/-- With a worker left, a split comes to its end by steps of its own thread and of the workers. -/
theorem reaches_done (h : FillSound o splits s) (hstaffed : Staffed o s.executor) (split : ℕ) :
    ∃ more : List FillQueryEvent, (∀ event ∈ more, OwnOrWorker split event) ∧
      (s.run o splits more).phases split = .done := by
  obtain ⟨first, hfirst, ⟨hsound, hstill⟩, hwaiting | hdone⟩ := reaches_wait h hstaffed split
  · obtain ⟨more, hmore, hend, hopen⟩ := reaches_open hsound hstill hwaiting
    refine ⟨first ++ (more ++ [.proceed split]), ?_, ?_⟩
    · intro event hevent
      rcases List.mem_append.mp hevent with hevent | hevent
      · exact hfirst event hevent
      · rcases List.mem_append.mp hevent with hevent | hevent
        · exact hmore event hevent
        · rw [List.mem_singleton.mp hevent]
          exact .inl rfl
    · rw [run_append, run_append]
      exact leaves_wait hend hopen
  · exact ⟨first, hfirst, hdone⟩

/-! ## Without a worker -/

/-- What a step does to the executor. -/
theorem step_executor (o : ExecutorOptions) (splits : ℕ → SplitOrders) (s : FillQueries)
    (event : FillQueryEvent) :
    (s.step o splits event).executor = s.executor ∨
      ∃ access, (s.step o splits event).executor = s.executor.step o access := by
  cases event with
  | proceed split =>
    rcases proceed_executor o splits s split with hsame | ⟨_, hstep⟩ |
      ⟨_, hstep⟩
    · exact .inl hsame
    · exact .inr ⟨_, hstep⟩
    · exact .inr ⟨_, hstep⟩
  | work worker => exact .inr ⟨_, (work_executor o splits s worker).1⟩
  | stop => exact .inr ⟨.stop, rfl⟩

/-- A task that nobody is left to take stays in the queue. -/
theorem run_abandoned {call : ℕ} (more : List FillQueryEvent) (h : Abandoned o call s.executor) :
    Abandoned o call (s.run o splits more).executor := by
  induction more generalizing s with
  | nil => exact h
  | cons event more ih =>
    apply ih
    rcases step_executor o splits s event with hsame | ⟨access, hstep⟩
    · rw [hsame]
      exact h
    · rw [hstep]
      exact executorStep_abandoned h access

/-- The queue and its tasks agree on which split a call is of. -/
theorem split_of_call (h : FillSound o splits s) {t : QueuedTask FillQueryTask}
    (ht : t ∈ s.executor.queue) {split : ℕ} {kind : FillKind}
    (hcall : t.call = fillCall split kind) : t.task.split = split :=
  (fillCall_inj ((h.tasks.queue t ht).1.symm.trans hcall)).1

/-- The invariant holds along a run that goes on. -/
theorem run_sound (h : FillSound o splits s) (more : List FillQueryEvent) :
    FillSound o splits (s.run o splits more) := by
  unfold FillQueries.run
  apply List.foldlRecOn
  · exact h
  · exact fun _ hs event _ => step_fillSound hs event

/-- Where no worker is left, a split leaves its wait exactly if no task of it is queued. -/
theorem leaves_wait_iff (h : FillSound o splits s) (hunstaffed : ¬ Staffed o s.executor)
    {split : ℕ} (hwaiting : s.phases split = .waiting) :
    (∃ more : List FillQueryEvent, (s.run o splits more).phases split = .done) ↔
      ∀ t ∈ s.executor.queue, t.task.split ≠ split := by
  have hexited : ∀ worker < o.workers, s.executor.workers worker = .exited := by
    intro worker hworker
    by_contra hrunning
    exact hunstaffed ⟨worker, hworker, hrunning⟩
  constructor
  · rintro ⟨more, hdone⟩ t ht rfl
    have hlost : Abandoned o t.call (s.run o splits more).executor :=
      run_abandoned more ⟨⟨t, ht, rfl⟩, hexited⟩
    obtain ⟨⟨t', ht', hsame⟩, -⟩ := hlost
    have hend : FillSound o splits (s.run o splits more) := run_sound h more
    have hsplit := split_of_call hend ht' (hsame.trans (h.tasks.queue t ht).1)
    exact (unreferenced_of_served hend (served_of_done hend hdone)).1 t' ht' hsplit
  · intro hnone
    refine ⟨[.proceed split], leaves_wait hwaiting ?_⟩
    by_contra hclosed
    obtain ⟨kind, hpending⟩ := pending_of_waiting h hwaiting hclosed
    have hqueued : queuedCount s.executor (fillCall split kind) = 0 := by
      apply List.countP_eq_zero.mpr
      intro t ht hcall
      exact hnone t ht (split_of_call h ht (by simpa using hcall))
    have hheld : heldCount o s.executor (fillCall split kind) ≠ 0 := by omega
    obtain ⟨worker, hworker, t, site, hholds⟩ := exists_holder hheld
    rw [hexited worker hworker] at hholds
    rcases hholds with hholds | hholds <;> cases hholds

/-- The executor runs, and no worker has seen it stopped. -/
structure Lively (e : LifecycleExecutor FillQueryTask) : Prop where
  running : e.running = true
  workers : ∀ worker, e.workers worker ≠ .exited ∧ ∀ site, e.workers worker ≠ .checkEmpty site

/-- A worker that goes on leaves the executor lively, unless it exits or is about to. -/
theorem Lively.workerGoTo (h : Lively e) {worker : ℕ} {phase : WorkerPhase FillQueryTask}
    (hphase : phase ≠ .exited ∧ ∀ site, phase ≠ .checkEmpty site) :
    Lively (e.workerGoTo worker phase) where
  running := h.running
  workers := by
    intro other
    simp only [LifecycleExecutor.workerGoTo]
    by_cases heq : other = worker
    · rw [heq, Function.update_self]
      exact hphase
    · rw [Function.update_of_ne heq]
      exact h.workers other

/-- Behind a check a worker is not about to check the queue for its exit. -/
theorem goOn_ne_checkEmpty (site other : CheckSite) :
    (site.goOn o : WorkerPhase FillQueryTask) ≠ .checkEmpty other := by
  have hspin : ∀ turn, (o.spin turn : WorkerPhase FillQueryTask) ≠ .checkEmpty other := by
    intro turn
    unfold ExecutorOptions.spin
    split <;> simp
  cases site with
  | beforeSpin => exact hspin 0
  | spin turn => exact hspin (turn + 1)
  | beforeWait => simp [CheckSite.goOn]

/-- While the executor runs no worker leaves its loop. -/
theorem workerLoop_lively (h : Lively e) (worker : ℕ) : Lively (e.workerLoop o worker) := by
  unfold LifecycleExecutor.workerLoop
  cases hphase : e.workers worker with
  | draining site =>
    dsimp only
    split
    · exact h.workerGoTo (by simp)
    · next t rest _ =>
      have hpopped : Lively (e.workerGoTo worker (.uncounting t site)) := h.workerGoTo (by simp)
      exact ⟨hpopped.running, hpopped.workers⟩
  | uncounting t site =>
    have hcounted : Lively (e.workerGoTo worker (.handling t site)) := h.workerGoTo (by simp)
    exact ⟨hcounted.running, hcounted.workers⟩
  | handling t site =>
    have hdrained : Lively (e.workerGoTo worker site.drained) :=
      h.workerGoTo (by cases site <;> simp [DrainSite.drained])
    exact ⟨hdrained.running, hdrained.workers⟩
  | checkRunning site =>
    dsimp only
    rw [if_pos h.running]
    exact h.workerGoTo ⟨goOn_ne_exited site, goOn_ne_checkEmpty site⟩
  | checkEmpty site => exact absurd hphase ((h.workers worker).2 site)
  | afterSpin => exact h.workerGoTo (by split <;> simp)
  | waiting => exact h.workerGoTo (by simp)
  | exited => exact h

/-- A call of `enqueue` leaves the flag and the workers. -/
theorem Lively.enqueueFrame {call : ℕ} {e' : LifecycleExecutor FillQueryTask} (h : Lively e)
    (hframe : EnqueueFrame call e e') : Lively e' where
  running := hframe.running.trans h.running
  workers := by
    rw [hframe.workers]
    exact h.workers

/-- The executor stays lively in every step that is not of `stop`. -/
theorem step_lively (h : Lively s.executor) {event : FillQueryEvent} (hstop : event ≠ .stop) :
    Lively (s.step o splits event).executor := by
  cases event with
  | stop => exact absurd rfl hstop
  | work worker =>
    change Lively (s.work o splits worker).executor
    rw [(work_executor o splits s worker).1]
    simp only [LifecycleExecutor.step]
    split
    · exact workerLoop_lively h worker
    · exact h
  | proceed split =>
    change Lively (s.proceed o splits split).executor
    rcases proceed_executor o splits s split with hsame | ⟨kind, hstep⟩ |
      ⟨kind, hstep⟩
    · rw [hsame]
      exact h
    · rw [hstep]
      exact h.enqueueFrame (executorEnqueue_frame _ _)
    · rw [hstep]
      exact h.enqueueFrame (enqueueImpl_frame _)

/-- It stays so in a run without `stop`. -/
theorem run_lively (h : Lively s.executor) {events : List FillQueryEvent}
    (hstop : .stop ∉ events) : Lively (s.run o splits events).executor := by
  induction events generalizing s with
  | nil => exact h
  | cons event events ih =>
    have hevent : event ≠ .stop := fun heq => hstop (heq ▸ List.mem_cons_self)
    exact ih (step_lively h hevent) fun hmem => hstop (List.mem_cons_of_mem event hmem)

/-- A lively executor has a worker. -/
theorem Lively.staffed (h : Lively e) : Staffed o e := by
  refine ⟨0, ?_, (h.workers 0).1⟩
  unfold ExecutorOptions.workers
  split <;> omega

/-! ## The result -/

/-- Without a `stop` a worker is left.  As long as one is, each split comes to its end by steps of
its own thread and of the workers; and where none is left, a waiting split comes to its end in some
way exactly if no task of it is queued. -/
theorem split_can_finish (o : ExecutorOptions) (splits : ℕ → SplitOrders)
    (events : List FillQueryEvent) (split : ℕ) :
    let s := FillQueries.run o splits {} events
    (.stop ∉ events → Staffed o s.executor) ∧
    (Staffed o s.executor → ∃ more : List FillQueryEvent,
      (∀ event ∈ more, OwnOrWorker split event) ∧ (s.run o splits more).phases split = .done) ∧
    (¬ Staffed o s.executor → s.phases split = .waiting →
      ((∃ more : List FillQueryEvent, (s.run o splits more).phases split = .done) ↔
        ∀ t ∈ s.executor.queue, t.task.split ≠ split)) := by
  intro s
  have hsound : FillSound o splits s := run_fillSound events
  refine ⟨?_, ?_, ?_⟩
  · intro hstop
    have hstart : Lively (FillQueries.executor {}) := ⟨rfl, fun worker => by simp⟩
    exact (run_lively hstart hstop).staffed
  · exact fun hstaffed => reaches_done hsound hstaffed split
  · exact fun hunstaffed hwaiting => leaves_wait_iff hsound hunstaffed hwaiting

end SpotRelay.Analysis
