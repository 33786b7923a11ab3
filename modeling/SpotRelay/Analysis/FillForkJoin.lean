import Mathlib.Algebra.Order.BigOperators.Group.Finset
import SpotRelay.Analysis.TaskHandOver
import SpotRelay.Model.FillQueries

/-!
# The join of the two fill queries

A split counts its two queries down on a latch of its own, whoever makes them: a worker that was
handed the task, or the thread of the split where the executor refused it.  Behind the latch both
orders are what the queries make of them one after the other, and nobody points to them any more.

* **one step** of the split's thread, of a worker or of `stop` keeps the account of both queries
  (`step_fillSound`), phase by phase (`work_sound`, `stop_sound`).
* **a run** keeps it from the start (`run_fillSound`); behind the latch no task points to the orders
  (`unreferenced_of_served`).
-/

set_option autoImplicit false

namespace SpotRelay.Analysis

open SpotRelay.Model SpotRelay.Library

variable {o : ExecutorOptions} {splits : ℕ → SplitOrders}

/-! ## The calls of a split -/

/-- A call is of one split and one leg. -/
theorem fillCall_inj {i j : ℕ} {kind other : FillKind} (h : fillCall i kind = fillCall j other) :
    i = j ∧ kind = other := by
  cases kind <;> cases other <;> simp only [fillCall] at h
  · exact ⟨by omega, rfl⟩
  · omega
  · omega
  · exact ⟨by omega, rfl⟩

/-- Whether the thread has come to the dispatch of a leg, is in `enqueue`, in the query, or behind
them. -/
inductive DispatchStage
  | before
  | enqueueing
  | inline
  | behind
deriving DecidableEq

def dispatchStage : FillKind → SplitPhase → DispatchStage
  | _, .idle => .before
  | _, .waiting | _, .done => .behind
  | .foreign, .enqueueing .foreign => .enqueueing
  | .foreign, .inline .foreign => .inline
  | .foreign, .submitting | .foreign, .enqueueing .korean | .foreign, .inline .korean => .behind
  | .korean, .enqueueing .foreign | .korean, .inline .foreign | .korean, .submitting => .before
  | .korean, .enqueueing .korean => .enqueueing
  | .korean, .inline .korean => .inline

/-- Only a split that has not begun is before its foreign query. -/
theorem stage_foreign_eq_before {phase : SplitPhase} :
    dispatchStage .foreign phase = .before ↔ phase = .idle := by
  cases phase with
  | enqueueing kind => cases kind <;> simp [dispatchStage]
  | inline kind => cases kind <;> simp [dispatchStage]
  | _ => simp [dispatchStage]

/-- What the call of `enqueue` can be at a stage. -/
def CallFits (call : EnqueuePhase FillQueryTask) : DispatchStage → Prop
  | .before => call = .idle
  | .enqueueing => True
  | .inline => call = .returned false
  | .behind => call = .returned true ∨ call = .returned false

/-- How often the thread has made the query of the leg itself. -/
def inlined (s : FillQueries) (split : ℕ) (kind : FillKind) : ℕ :=
  if dispatchStage kind (s.phases split) = .behind ∧
    s.executor.enqueues (fillCall split kind) = .returned false then 1 else 0

/-- How often the query of the leg has been made. -/
def served (s : FillQueries) (split : ℕ) (kind : FillKind) : ℕ :=
  handledCount s.executor (fillCall split kind) + inlined s split kind

/-- What holds of a split in every state. -/
structure SplitSound (splits : ℕ → SplitOrders) (s : FillQueries) (split : ℕ) : Prop where
  calls : ∀ kind, CallFits (s.executor.enqueues (fillCall split kind))
    (dispatchStage kind (s.phases split))
  latch : s.phases split ≠ .idle →
    s.latches split + served s split .foreign + served s split .korean = 2
  orders : ∀ kind, dispatchStage kind (s.phases split) ≠ .before → s.orders split kind =
    if served s split kind = 0 then (splits split).submitted kind
    else (splits split).query ((splits split).task split kind) ((splits split).submitted kind)
  done : s.phases split = .done → s.latches split = 0

/-- A task is the one of its call. -/
def FitsCall (splits : ℕ → SplitOrders) (call : ℕ) (task : FillQueryTask) : Prop :=
  call = fillCall task.split task.kind ∧ task = (splits task.split).task task.split task.kind

/-- The tasks that the executor has are those of their calls. -/
structure TasksFit (splits : ℕ → SplitOrders) (e : LifecycleExecutor FillQueryTask) : Prop where
  queue : ∀ t ∈ e.queue, FitsCall splits t.call t.task
  pushing : ∀ call task turn, e.enqueues call = .pushing task turn → FitsCall splits call task
  workers : ∀ worker t site, e.workers worker = .uncounting t site ∨
    e.workers worker = .handling t site → FitsCall splits t.call t.task

/-- What holds in every state. -/
structure FillSound (o : ExecutorOptions) (splits : ℕ → SplitOrders) (s : FillQueries) : Prop where
  handOver : HandOver o s.executor
  tasks : TasksFit splits s.executor
  splits : ∀ split, SplitSound splits s split

/-! ## The tasks of the executor -/

/-- The task of a leg fits the call of the leg. -/
theorem fitsCall_task (split : ℕ) (kind : FillKind) :
    FitsCall splits (fillCall split kind) ((splits split).task split kind) := by
  cases kind <;> exact ⟨rfl, rfl⟩

/-- The executor has no task at the start. -/
theorem tasksFit_start : TasksFit splits ({} : LifecycleExecutor FillQueryTask) where
  queue := fun t ht => absurd ht List.not_mem_nil
  pushing := fun call task turn h => by cases h
  workers := fun worker t site h => by rcases h with h | h <;> cases h

section

variable {e : LifecycleExecutor FillQueryTask}

/-- A call that is not pushing after its step brings no task. -/
theorem TasksFit.enqueueGoTo (h : TasksFit splits e) {call : ℕ} {phase : EnqueuePhase FillQueryTask}
    (hphase : ∀ task turn, phase = .pushing task turn → FitsCall splits call task) :
    TasksFit splits (e.enqueueGoTo call phase) where
  queue := h.queue
  pushing := by
    intro other task turn hother
    simp only [LifecycleExecutor.enqueueGoTo] at hother
    by_cases heq : other = call
    · subst heq
      rw [Function.update_self] at hother
      exact hphase task turn hother
    · rw [Function.update_of_ne heq] at hother
      exact h.pushing other task turn hother
  workers := h.workers

/-- A worker goes on with a task that was with the executor. -/
theorem TasksFit.workerGoTo (h : TasksFit splits e) {worker : ℕ}
    {phase : WorkerPhase FillQueryTask}
    (hphase : ∀ t site, phase = .uncounting t site ∨ phase = .handling t site →
      FitsCall splits t.call t.task) :
    TasksFit splits (e.workerGoTo worker phase) where
  queue := h.queue
  pushing := h.pushing
  workers := by
    intro other t site hother
    simp only [LifecycleExecutor.workerGoTo] at hother
    by_cases heq : other = worker
    · subst heq
      rw [Function.update_self] at hother
      exact hphase t site hother
    · rw [Function.update_of_ne heq] at hother
      exact h.workers other t site hother

/-- An access of `enqueue` brings a task to the executor only where it pushes the one of its call.
-/
theorem enqueueImpl_tasksFit (h : TasksFit splits e) (call : ℕ) :
    TasksFit splits (e.enqueueImpl o call) := by
  have hquiet : ∀ phase, (∀ task turn, phase ≠ .pushing task turn) →
      TasksFit splits (e.enqueueGoTo call phase) :=
    fun phase hphase => h.enqueueGoTo fun task turn hpushing => absurd hpushing (hphase task turn)
  unfold LifecycleExecutor.enqueueImpl
  cases hphase : e.enqueues call with
  | idle => exact h
  | pushing task turn =>
    have hfits := h.pushing call task turn hphase
    dsimp only
    by_cases hroom : e.queue.length < o.capacity
    · rw [if_pos hroom]
      have hcounting : TasksFit splits (e.enqueueGoTo call .counting) := hquiet _ nofun
      refine ⟨?_, hcounting.pushing, hcounting.workers⟩
      intro t ht
      rcases List.mem_append.mp ht with ht | ht
      · exact h.queue t ht
      · rw [List.mem_singleton.mp ht]
        exact hfits
    · rw [if_neg hroom]
      by_cases hturn : turn < o.pushSpinCount
      · rw [if_pos hturn]
        apply h.enqueueGoTo
        intro _ _ hpushing
        cases hpushing
        exact hfits
      · rw [if_neg hturn]
        exact hquiet _ nofun
  | counting =>
    have hcounted : TasksFit splits (e.enqueueGoTo call .notifying) := hquiet _ nofun
    exact ⟨hcounted.queue, hcounted.pushing, hcounted.workers⟩
  | notifying => exact hquiet _ nofun
  | returned accepted => exact h

/-- A worker that holds nothing after its step. -/
theorem TasksFit.workerIdle (h : TasksFit splits e) {worker : ℕ}
    {phase : WorkerPhase FillQueryTask} (hphase : ∀ call, WorkerPhase.holds call phase = 0) :
    TasksFit splits (e.workerGoTo worker phase) := by
  apply h.workerGoTo
  rintro t site (rfl | rfl)
  · simpa [WorkerPhase.holds] using hphase t.call
  · simpa [WorkerPhase.holds] using hphase t.call

/-- An access of a worker moves a task that the executor has, or none. -/
theorem workerLoop_tasksFit (h : TasksFit splits e) (worker : ℕ) :
    TasksFit splits (e.workerLoop o worker) := by
  unfold LifecycleExecutor.workerLoop
  cases hphase : e.workers worker with
  | draining site =>
    cases hqueue : e.queue with
    | nil => exact h.workerIdle fun _ => rfl
    | cons t rest =>
      have hpopped : TasksFit splits (e.workerGoTo worker (.uncounting t site)) := by
        apply h.workerGoTo
        rintro _ _ (hheld | hheld) <;> cases hheld
        exact h.queue t (by rw [hqueue]; exact List.mem_cons_self)
      refine ⟨?_, hpopped.pushing, hpopped.workers⟩
      intro other hother
      exact h.queue other (by rw [hqueue]; exact List.mem_cons_of_mem t hother)
  | uncounting t site =>
    have hcounted : TasksFit splits (e.workerGoTo worker (.handling t site)) := by
      apply h.workerGoTo
      rintro _ _ (hheld | hheld) <;> cases hheld
      exact h.workers worker t site (.inl hphase)
    exact ⟨hcounted.queue, hcounted.pushing, hcounted.workers⟩
  | handling t site =>
    have hdrained : TasksFit splits (e.workerGoTo worker site.drained) :=
      h.workerIdle fun _ => by cases site <;> rfl
    exact ⟨hdrained.queue, hdrained.pushing, hdrained.workers⟩
  | checkRunning site =>
    apply h.workerIdle
    intro call
    split
    · exact holds_goOn call site
    · rfl
  | checkEmpty site =>
    apply h.workerIdle
    intro call
    split
    · rfl
    · exact holds_goOn call site
  | afterSpin => exact h.workerIdle fun _ => by split <;> rfl
  | waiting => exact h.workerIdle fun _ => rfl
  | exited => exact h

/-- `stop` touches neither the queue nor a task. -/
theorem stop_tasksFit (h : TasksFit splits e) : TasksFit splits (e.stop o) where
  queue := by
    rw [stop_frame.queue]
    exact h.queue
  pushing := by
    rw [stop_frame.enqueues]
    exact h.pushing
  workers := by
    rw [stop_frame.workers]
    exact h.workers

/-- A call of `enqueue` begins with the task of its leg. -/
theorem enqueue_tasksFit (h : TasksFit splits e) (split : ℕ) (kind : FillKind) :
    TasksFit splits
      (e.step o (.enqueue (fillCall split kind) ((splits split).task split kind))) := by
  simp only [LifecycleExecutor.step]
  split
  · apply h.enqueueGoTo
    intro task turn hphase
    split at hphase
    · cases hphase
      exact fitsCall_task split kind
    · cases hphase
  · exact h

end

/-! ## The queries of a split -/

section

variable {s s' : FillQueries} {split : ℕ}

/-- A task that was not pushed was not handled. -/
theorem handledCount_of_not_pushed {e : LifecycleExecutor FillQueryTask} (h : HandOver o e)
    {call : ℕ} (hunpushed : EnqueuePhase.pushed (e.enqueues call) = false) :
    handledCount e call = 0 := by
  have hlocated := h.located call
  rw [hunpushed, if_neg Bool.false_ne_true] at hlocated
  omega

/-- Nobody makes a query twice. -/
theorem served_le_one (h : HandOver o s.executor) (kind : FillKind) : served s split kind ≤ 1 := by
  unfold served inlined
  split
  · next hinlined =>
    rw [handledCount_of_not_pushed h (by rw [hinlined.2]; rfl)]
  · have hlocated := h.located (fillCall split kind)
    split at hlocated <;> omega

/-- What the thread has queried itself depends on its phase and on the answer of its call. -/
theorem inlined_congr {kind : FillKind}
    (hcall : s'.executor.enqueues (fillCall split kind) =
      s.executor.enqueues (fillCall split kind))
    (hphase : s'.phases split = s.phases split) : inlined s' split kind = inlined s split kind := by
  rw [inlined, inlined, hcall, hphase]

/-- A step that is not the split's leaves it as it is. -/
theorem SplitSound.frame (h : SplitSound splits s split)
    (hcalls : ∀ kind, s'.executor.enqueues (fillCall split kind) =
      s.executor.enqueues (fillCall split kind))
    (hhandled : ∀ kind, handledCount s'.executor (fillCall split kind) =
      handledCount s.executor (fillCall split kind))
    (horders : s'.orders split = s.orders split) (hlatch : s'.latches split = s.latches split)
    (hphase : s'.phases split = s.phases split) : SplitSound splits s' split := by
  have hserved : ∀ kind, served s' split kind = served s split kind := by
    intro kind
    rw [served, served, inlined_congr (hcalls kind) hphase, hhandled]
  constructor
  · intro kind
    rw [hcalls, hphase]
    exact h.calls kind
  · rw [hphase, hlatch, hserved, hserved]
    exact h.latch
  · intro kind
    rw [hphase, horders, hserved]
    exact h.orders kind
  · rw [hphase, hlatch]
    exact h.done

/-- The executor takes a step that is no call's, and handles nothing. -/
theorem SplitSound.executorStep (h : SplitSound splits s split)
    {e : LifecycleExecutor FillQueryTask} (hcalls : e.enqueues = s.executor.enqueues)
    (hhandled : e.handled = s.executor.handled) :
    SplitSound splits { s with executor := e } split := by
  refine SplitSound.frame h ?_ ?_ rfl rfl rfl
  · exact fun kind => congrFun hcalls _
  · intro kind
    rw [handledCount, handledCount, hhandled]

/-- The thread goes on, and no query is made. -/
theorem SplitSound.goTo (h : SplitSound splits s split) {phase : SplitPhase}
    (hcalls : ∀ kind, CallFits (s.executor.enqueues (fillCall split kind))
      (dispatchStage kind phase))
    (hserved : ∀ kind, served (s.goTo split phase) split kind = served s split kind)
    (hstage : ∀ kind, dispatchStage kind phase ≠ .before →
      dispatchStage kind (s.phases split) ≠ .before)
    (hdone : phase = .done → s.latches split = 0) :
    SplitSound splits (s.goTo split phase) split := by
  have hphase : (s.goTo split phase).phases split = phase := Function.update_self ..
  constructor
  · intro kind
    rw [hphase]
    exact hcalls kind
  · rw [hphase, hserved, hserved]
    intro hstarted
    apply h.latch
    intro hidle
    have hbegun := mt stage_foreign_eq_before.mp hstarted
    exact hstage .foreign hbegun (stage_foreign_eq_before.mpr hidle)
  · intro kind
    rw [hphase, hserved]
    intro hbegun
    exact h.orders kind (hstage kind hbegun)
  · rw [hphase]
    exact hdone

/-- The query of a leg is made for the first time. -/
theorem SplitSound.serve (h : SplitSound splits s split) (kind : FillKind)
    (hcalls : ∀ other, CallFits (s'.executor.enqueues (fillCall split other))
      (dispatchStage other (s'.phases split)))
    (hstage : ∀ other, dispatchStage other (s'.phases split) ≠ .before →
      dispatchStage other (s.phases split) ≠ .before)
    (hbegun : dispatchStage kind (s.phases split) ≠ .before)
    (hzero : served s split kind = 0) (hone : served s' split kind = 1)
    (hothers : ∀ other, other ≠ kind → served s' split other = served s split other)
    (hle : ∀ other, served s split other ≤ 1)
    (horders : s'.orders split = Function.update (s.orders split) kind
      ((splits split).query ((splits split).task split kind) (s.orders split kind)))
    (hlatch : s'.latches split = s.latches split - 1)
    (hdone : s'.phases split = .done → s.phases split = .done) : SplitSound splits s' split := by
  have hstarted : s.phases split ≠ .idle := by
    intro hidle
    rw [hidle] at hbegun
    exact hbegun (by cases kind <;> rfl)
  have hsum := h.latch hstarted
  have hforeign := hle .foreign
  have hkorean := hle .korean
  have hopen : 0 < s.latches split := by
    cases kind <;> omega
  constructor
  · exact hcalls
  · intro _
    rw [hlatch]
    cases kind with
    | foreign =>
      rw [hone, hothers .korean (by decide)]
      omega
    | korean =>
      rw [hone, hothers .foreign (by decide)]
      omega
  · intro other hother
    have hsubmitted := h.orders other (hstage other hother)
    rw [horders]
    by_cases heq : other = kind
    · subst heq
      rw [Function.update_self, hone, if_neg Nat.one_ne_zero, hsubmitted, hzero, if_pos rfl]
    · rw [Function.update_of_ne heq, hothers other heq]
      exact hsubmitted
  · intro hend
    have hclosed := h.done (hdone hend)
    omega

/-- The executor takes a step for the call that the thread is in. -/
theorem SplitSound.enqueueStep (h : SplitSound splits s split) {kind : FillKind}
    (hphase : s.phases split = .enqueueing kind) {e : LifecycleExecutor FillQueryTask}
    (hcalls : ∀ other, other ≠ fillCall split kind →
      e.enqueues other = s.executor.enqueues other)
    (hhandled : e.handled = s.executor.handled) :
    SplitSound splits { s with executor := e } split := by
  have hstage : dispatchStage kind (.enqueueing kind) = .enqueueing := by cases kind <;> rfl
  have hsame : ∀ other, other ≠ kind →
      e.enqueues (fillCall split other) = s.executor.enqueues (fillCall split other) := by
    intro other hother
    exact hcalls _ fun heq => hother (fillCall_inj heq).2
  have hserved : ∀ other, served { s with executor := e } split other = served s split other := by
    intro other
    have hcount : handledCount e (fillCall split other) =
        handledCount s.executor (fillCall split other) := by
      rw [handledCount, handledCount, hhandled]
    change handledCount e (fillCall split other) + _ = _
    rw [hcount, served]
    by_cases heq : other = kind
    · simp [inlined, hphase, heq, hstage]
    · simp only [inlined, hsame other heq]
  constructor
  · intro other
    by_cases heq : other = kind
    · change CallFits _ (dispatchStage other (s.phases split))
      rw [hphase, heq, hstage]
      trivial
    · change CallFits (e.enqueues (fillCall split other)) _
      rw [hsame other heq]
      exact h.calls other
  · rw [hserved, hserved]
    exact h.latch
  · intro other
    rw [hserved]
    exact h.orders other
  · exact h.done

end

/-! ## The steps -/

section

variable {e : LifecycleExecutor FillQueryTask}

/-- A worker that is handling a task adds it to what was handled. -/
theorem executorWork_handled {worker : ℕ} {t : QueuedTask FillQueryTask} {site : DrainSite}
    (hworker : worker < o.workers) (hphase : e.workers worker = .handling t site) :
    (e.step o (.work worker)).handled = e.handled ++ [(t, worker)] := by
  simp only [LifecycleExecutor.step, if_pos hworker, LifecycleExecutor.workerLoop, hphase]

/-- A worker that is handling nothing leaves what was handled. -/
theorem executorWork_handled_same {worker : ℕ}
    (hphase : ∀ t site, e.workers worker ≠ .handling t site) :
    (e.step o (.work worker)).handled = e.handled := by
  simp only [LifecycleExecutor.step]
  split
  · exact (workerLoop_frame e worker).2 hphase
  · rfl

/-- The task that a worker is about to handle was pushed and has not been handled. -/
theorem pushed_of_handling (h : HandOver o e) {worker : ℕ} {t : QueuedTask FillQueryTask}
    {site : DrainSite} (hworker : worker < o.workers)
    (hphase : e.workers worker = .handling t site) :
    EnqueuePhase.pushed (e.enqueues t.call) = true ∧ handledCount e t.call = 0 := by
  have hlocated := h.located t.call
  have hheld : 1 ≤ heldCount o e t.call := by
    have hone : WorkerPhase.holds t.call (e.workers worker) = 1 := by
      rw [hphase]
      simp [WorkerPhase.holds]
    rw [← hone]
    exact Finset.single_le_sum (f := fun w => WorkerPhase.holds t.call (e.workers w))
      (fun _ _ => Nat.zero_le _) (Finset.mem_range.mpr hworker)
  split at hlocated
  · next hpushed => exact ⟨hpushed, by omega⟩
  · omega

end

variable {s : FillQueries}

/-- What the thread of a split does to the executor. -/
theorem proceed_executor (o : ExecutorOptions) (splits : ℕ → SplitOrders) (s : FillQueries)
    (split : ℕ) :
    (s.proceed o splits split).executor = s.executor ∨
    (∃ kind, (s.proceed o splits split).executor =
      s.executor.step o (.enqueue (fillCall split kind) ((splits split).task split kind))) ∨
    (∃ kind, (s.proceed o splits split).executor =
      s.executor.step o (.proceed (fillCall split kind))) := by
  unfold FillQueries.proceed
  cases s.phases split with
  | idle => exact .inl rfl
  | enqueueing kind =>
    dsimp only
    split
    · exact .inr (.inl ⟨kind, rfl⟩)
    · exact .inl rfl
    · exact .inr (.inr ⟨kind, rfl⟩)
  | inline kind => exact .inl rfl
  | submitting => exact .inl rfl
  | waiting =>
    dsimp only
    split <;> exact .inl rfl
  | done => exact .inl rfl

/-- The thread of a split leaves the others alone. -/
theorem proceed_others (o : ExecutorOptions) (splits : ℕ → SplitOrders) (s : FillQueries)
    {split other : ℕ} (hne : other ≠ split) :
    (s.proceed o splits split).orders other = s.orders other ∧
      (s.proceed o splits split).latches other = s.latches other ∧
      (s.proceed o splits split).phases other = s.phases other := by
  have hphases : ∀ phase, (s.goTo split phase).phases other = s.phases other :=
    fun _ => Function.update_of_ne hne ..
  unfold FillQueries.proceed
  cases s.phases split with
  | idle =>
    exact ⟨Function.update_of_ne hne .., Function.update_of_ne hne .., Function.update_of_ne hne ..⟩
  | enqueueing kind =>
    dsimp only
    split
    · exact ⟨rfl, rfl, rfl⟩
    · exact ⟨rfl, rfl, hphases _⟩
    · exact ⟨rfl, rfl, rfl⟩
  | inline kind =>
    have htask : other ≠ ((splits split).task split kind).split := by
      rw [SplitOrders.task_split]
      exact hne
    exact ⟨Function.update_of_ne htask .., Function.update_of_ne htask ..,
      Function.update_of_ne hne ..⟩
  | submitting =>
    exact ⟨Function.update_of_ne hne .., rfl, Function.update_of_ne hne ..⟩
  | waiting =>
    dsimp only
    split
    · exact ⟨rfl, rfl, hphases _⟩
    · exact ⟨rfl, rfl, rfl⟩
  | done => exact ⟨rfl, rfl, rfl⟩

/-- The thread of a split leaves the other splits sound. -/
theorem proceed_frame {split other : ℕ} (hne : other ≠ split)
    (h : SplitSound splits s other) : SplitSound splits (s.proceed o splits split) other := by
  have hcall : ∀ kind leg, fillCall other kind ≠ fillCall split leg :=
    fun kind leg heq => hne (fillCall_inj heq).1
  have hexecutor : (∀ kind, (s.proceed o splits split).executor.enqueues (fillCall other kind) =
        s.executor.enqueues (fillCall other kind)) ∧
      (s.proceed o splits split).executor.handled = s.executor.handled := by
    rcases proceed_executor o splits s split with hsame | ⟨leg, hstep⟩ |
      ⟨leg, hstep⟩
    · rw [hsame]
      exact ⟨fun _ => rfl, rfl⟩
    · rw [hstep]
      have hframe := executorEnqueue_frame (o := o) (s := s.executor) (fillCall split leg)
        ((splits split).task split leg)
      exact ⟨fun kind => hframe.others _ (hcall kind leg), hframe.handled⟩
    · rw [hstep]
      have hframe := enqueueImpl_frame (o := o) (s := s.executor) (fillCall split leg)
      exact ⟨fun kind => hframe.others _ (hcall kind leg), hframe.handled⟩
  obtain ⟨horders, hlatch, hphase⟩ := proceed_others o splits s hne
  apply h.frame hexecutor.1 _ horders hlatch hphase
  intro kind
  rw [handledCount, handledCount, hexecutor.2]

/-- The latch is made, and the foreign order submitted. -/
theorem start_sound (h : FillSound o splits s) {split : ℕ} (hidle : s.phases split = .idle) :
    SplitSound splits (s.proceed o splits split) split := by
  have hcalls : ∀ kind, s.executor.enqueues (fillCall split kind) = .idle := by
    intro kind
    have hfits := (h.splits split).calls kind
    rw [hidle] at hfits
    cases kind <;> exact hfits
  have hnext : s.proceed o splits split =
      { (s.writeOrder split .foreign (splits split).foreignOrder).goTo split
          (.enqueueing .foreign) with latches := Function.update s.latches split 2 } := by
    simp only [FillQueries.proceed, hidle]
  have hphase : (s.proceed o splits split).phases split = .enqueueing .foreign := by
    rw [hnext]
    exact Function.update_self ..
  have hexecutor : (s.proceed o splits split).executor = s.executor := by
    rw [hnext]
    rfl
  have hserved : ∀ kind, served (s.proceed o splits split) split kind = 0 := by
    intro kind
    rw [served, inlined, hexecutor, hcalls, if_neg (by simp),
      handledCount_of_not_pushed h.handOver (by rw [hcalls]; rfl)]
  constructor
  · intro kind
    rw [hexecutor, hphase, hcalls]
    cases kind with
    | foreign => exact trivial
    | korean => exact rfl
  · intro _
    rw [hserved, hserved, hnext]
    exact Function.update_self ..
  · intro kind hbegun
    rw [hserved, if_pos rfl]
    rw [hphase] at hbegun
    cases kind with
    | foreign =>
      rw [hnext]
      simp [FillQueries.goTo, FillQueries.writeOrder, SplitOrders.submitted]
    | korean => exact absurd rfl hbegun
  · intro hdone
    rw [hphase] at hdone
    cases hdone

/-- The Korean order is submitted. -/
theorem submit_sound (h : FillSound o splits s) {split : ℕ}
    (hsubmitting : s.phases split = .submitting) :
    SplitSound splits (s.proceed o splits split) split := by
  have hsplit := h.splits split
  have hcall : s.executor.enqueues (fillCall split .korean) = .idle := by
    have hfits := hsplit.calls .korean
    rw [hsubmitting] at hfits
    exact hfits
  have hnext : s.proceed o splits split =
      (s.writeOrder split .korean (splits split).koreanOrder).goTo split
        (.enqueueing .korean) := by
    simp only [FillQueries.proceed, hsubmitting]
  have hphase : (s.proceed o splits split).phases split = .enqueueing .korean := by
    rw [hnext]
    exact Function.update_self ..
  have hexecutor : (s.proceed o splits split).executor = s.executor := by
    rw [hnext]
    rfl
  have hforeign : served (s.proceed o splits split) split .foreign = served s split .foreign := by
    rw [served, served, inlined, inlined, hexecutor, hphase, hsubmitting]
    rfl
  have hkorean : ∀ s' : FillQueries, s'.executor = s.executor → served s' split .korean = 0 := by
    intro s' hsame
    rw [served, inlined, hsame, hcall, if_neg (by simp),
      handledCount_of_not_pushed h.handOver (by rw [hcall]; rfl)]
  constructor
  · intro kind
    rw [hexecutor, hphase]
    cases kind with
    | foreign =>
      have hfits := hsplit.calls .foreign
      rw [hsubmitting] at hfits
      exact hfits
    | korean => exact trivial
  · intro _
    have hlatch := hsplit.latch (by rw [hsubmitting]; decide)
    rw [hkorean s rfl] at hlatch
    rw [hforeign, hkorean _ hexecutor, hnext]
    exact hlatch
  · intro kind _
    cases kind with
    | foreign =>
      have horder := hsplit.orders .foreign (by rw [hsubmitting]; decide)
      rw [hforeign, ← horder, hnext]
      simp [FillQueries.goTo, FillQueries.writeOrder]
    | korean =>
      rw [hkorean _ hexecutor, if_pos rfl, hnext]
      simp [FillQueries.goTo, FillQueries.writeOrder, SplitOrders.submitted]
  · intro hdone
    rw [hphase] at hdone
    cases hdone

/-- The stages of both legs where the executor has answered. -/
theorem stage_answered (kind other : FillKind) (accepted : Bool) :
    dispatchStage other (if accepted then kind.dispatched else .inline kind) =
      if other = kind then if accepted then .behind else .inline
      else dispatchStage other (.enqueueing kind) := by
  cases kind <;> cases other <;> cases accepted <;> rfl

/-- The executor has answered a call. -/
theorem answer_sound {split : ℕ} (h : SplitSound splits s split) {kind : FillKind}
    (hphase : s.phases split = .enqueueing kind) {accepted : Bool}
    (hcall : s.executor.enqueues (fillCall split kind) = .returned accepted) :
    SplitSound splits
      (s.goTo split (if accepted then kind.dispatched else .inline kind)) split := by
  have hstage := stage_answered kind
  have henqueueing : dispatchStage kind (.enqueueing kind) = .enqueueing := by cases kind <;> rfl
  apply h.goTo
  · intro other
    rw [hstage]
    by_cases heq : other = kind
    · rw [if_pos heq, heq, hcall]
      cases accepted with
      | false => exact rfl
      | true => exact .inl rfl
    · rw [if_neg heq, ← hphase]
      exact h.calls other
  · intro other
    unfold served inlined
    congr 1
    simp only [FillQueries.goTo, Function.update_self]
    rw [hstage, hphase]
    by_cases heq : other = kind
    · rw [if_pos heq, heq, hcall, henqueueing]
      cases accepted <;> simp
    · rw [if_neg heq]
  · intro other hbegun
    rw [hstage] at hbegun
    rw [hphase]
    by_cases heq : other = kind
    · rw [heq, henqueueing]
      decide
    · rwa [if_neg heq] at hbegun
  · intro hdone
    cases accepted <;> cases kind <;> cases hdone

/-- The thread makes a query that the executor has refused. -/
theorem inline_sound (h : FillSound o splits s) {split : ℕ} {kind : FillKind}
    (hinline : s.phases split = .inline kind) :
    SplitSound splits (s.proceed o splits split) split := by
  have hsplit := h.splits split
  have hstages : dispatchStage kind (.inline kind) = .inline ∧
      dispatchStage kind kind.dispatched = .behind := by
    cases kind <;> exact ⟨rfl, rfl⟩
  have hothers : ∀ other, other ≠ kind →
      dispatchStage other kind.dispatched = dispatchStage other (.inline kind) := by
    intro other hne
    cases kind <;> cases other <;> first | rfl | exact absurd rfl hne
  have hcall : s.executor.enqueues (fillCall split kind) = .returned false := by
    have hfits := hsplit.calls kind
    rw [hinline, hstages.1] at hfits
    exact hfits
  have hnext : s.proceed o splits split =
      (s.handleFillQuery splits ((splits split).task split kind)).goTo split kind.dispatched := by
    simp only [FillQueries.proceed, hinline]
  have hphase : (s.proceed o splits split).phases split = kind.dispatched := by
    rw [hnext]
    exact Function.update_self ..
  have hexecutor : (s.proceed o splits split).executor = s.executor := by
    rw [hnext]
    rfl
  have hunhandled : handledCount s.executor (fillCall split kind) = 0 :=
    handledCount_of_not_pushed h.handOver (by rw [hcall]; rfl)
  apply hsplit.serve kind
  · intro other
    rw [hexecutor, hphase]
    by_cases heq : other = kind
    · rw [heq, hstages.2, hcall]
      exact .inr rfl
    · rw [hothers other heq, ← hinline]
      exact hsplit.calls other
  · intro other hbegun
    rw [hphase] at hbegun
    rw [hinline]
    by_cases heq : other = kind
    · rw [heq, hstages.1]
      decide
    · rwa [hothers other heq] at hbegun
  · rw [hinline, hstages.1]
    decide
  · rw [served, inlined, hunhandled, hinline, hstages.1, if_neg (by simp)]
  · rw [served, inlined, hexecutor, hphase, hunhandled, hstages.2, hcall, if_pos ⟨rfl, rfl⟩]
  · intro other hne
    rw [served, served, inlined, inlined, hexecutor, hphase, hinline, hothers other hne]
  · exact fun other => served_le_one h.handOver other
  · rw [hnext]
    simp [FillQueries.goTo, FillQueries.handleFillQuery, FillQueries.writeOrder]
  · rw [hnext]
    simp [FillQueries.goTo, FillQueries.handleFillQuery]
  · rw [hphase]
    cases kind <;> exact fun hdone => by cases hdone

/-- The thread finds the latch open. -/
theorem join_sound {split : ℕ} (h : SplitSound splits s split)
    (hwaiting : s.phases split = .waiting) (hopen : s.latches split = 0) :
    SplitSound splits (s.goTo split .done) split := by
  apply h.goTo
  · intro kind
    have hfits := h.calls kind
    rw [hwaiting] at hfits
    cases kind <;> exact hfits
  · intro kind
    unfold served inlined
    congr 1
    simp only [FillQueries.goTo, Function.update_self]
    rw [hwaiting]
    cases kind <;> rfl
  · intro kind _
    rw [hwaiting]
    cases kind <;> decide
  · exact fun _ => hopen

/-- Every step of its thread leaves the split sound, whatever phase it is in. -/
theorem proceed_own (h : FillSound o splits s) (split : ℕ) :
    SplitSound splits (s.proceed o splits split) split := by
  have hsplit := h.splits split
  cases hphase : s.phases split with
  | idle => exact start_sound h hphase
  | submitting => exact submit_sound h hphase
  | inline kind => exact inline_sound h hphase
  | enqueueing kind =>
    simp only [FillQueries.proceed, hphase]
    cases hcall : s.executor.enqueues (fillCall split kind) with
    | idle =>
      have hframe := executorEnqueue_frame (o := o) (s := s.executor) (fillCall split kind)
        ((splits split).task split kind)
      exact hsplit.enqueueStep hphase hframe.others hframe.handled
    | returned accepted => exact answer_sound hsplit hphase hcall
    | _ =>
      have hframe := enqueueImpl_frame (o := o) (s := s.executor) (fillCall split kind)
      exact hsplit.enqueueStep hphase hframe.others hframe.handled
  | waiting =>
    simp only [FillQueries.proceed, hphase]
    split
    · next hopen => exact join_sound hsplit hphase hopen
    · exact hsplit
  | done =>
    simp only [FillQueries.proceed, hphase]
    exact hsplit

/-- Every step of the thread of a split keeps the invariant. -/
theorem proceed_sound (h : FillSound o splits s) (split : ℕ) :
    FillSound o splits (s.proceed o splits split) := by
  refine ⟨?_, ?_, ?_⟩
  · rcases proceed_executor o splits s split with hsame | ⟨_, hstep⟩ |
      ⟨_, hstep⟩
    · rw [hsame]
      exact h.handOver
    · rw [hstep]
      exact executorStep_handOver h.handOver _
    · rw [hstep]
      exact executorStep_handOver h.handOver _
  · rcases proceed_executor o splits s split with hsame | ⟨kind, hstep⟩ |
      ⟨kind, hstep⟩
    · rw [hsame]
      exact h.tasks
    · rw [hstep]
      exact enqueue_tasksFit h.tasks split kind
    · rw [hstep]
      exact enqueueImpl_tasksFit h.tasks _
  · intro other
    by_cases heq : other = split
    · rw [heq]
      exact proceed_own h split
    · exact proceed_frame heq (h.splits other)

/-- A worker handles the task of a split. -/
theorem handle_sound (h : FillSound o splits s) {worker : ℕ} (hworker : worker < o.workers)
    {t : QueuedTask FillQueryTask} {site : DrainSite}
    (hhandling : s.executor.workers worker = .handling t site) (split : ℕ) :
    SplitSound splits (FillQueries.handleFillQuery splits
      { s with executor := s.executor.step o (.work worker) } t.task) split := by
  have hsplit := h.splits split
  have henqueues := (executorWork_frame (o := o) (s := s.executor) worker).enqueues
  have hcounts : ∀ call, handledCount (s.executor.step o (.work worker)) call =
      handledCount s.executor call + if t.call = call then 1 else 0 := by
    intro call
    rw [handledCount, executorWork_handled hworker hhandling, List.countP_append,
      List.countP_singleton]
    simp [handledCount]
  obtain ⟨hcall, htask⟩ := h.tasks.workers worker t site (.inr hhandling)
  by_cases heq : split = t.task.split
  · subst heq
    obtain ⟨hpushed, hunhandled⟩ := pushed_of_handling h.handOver hworker hhandling
    rw [hcall] at hpushed hunhandled
    have hbegun : dispatchStage t.task.kind (s.phases t.task.split) ≠ .before := by
      intro hbefore
      have hfits := hsplit.calls t.task.kind
      rw [hbefore] at hfits
      rw [hfits] at hpushed
      cases hpushed
    -- a call that has pushed is not refused
    have hnotInlined : inlined s t.task.split t.task.kind = 0 := by
      apply if_neg
      rintro ⟨-, hrefused⟩
      rw [hrefused] at hpushed
      cases hpushed
    have hinlined : ∀ kind, inlined (FillQueries.handleFillQuery splits
        { s with executor := s.executor.step o (.work worker) } t.task) t.task.split kind =
          inlined s t.task.split kind := by
      exact fun kind => inlined_congr (congrFun henqueues _) rfl
    apply hsplit.serve t.task.kind
    · intro kind
      change CallFits ((s.executor.step o (.work worker)).enqueues _) _
      rw [henqueues]
      exact hsplit.calls kind
    · exact fun kind hkind => hkind
    · exact hbegun
    · rw [served, hunhandled, hnotInlined]
    · rw [served, hinlined, hnotInlined]
      change handledCount (s.executor.step o (.work worker)) _ + 0 = 1
      rw [hcounts, hunhandled, if_pos hcall]
    · intro kind hne
      rw [served, hinlined, served]
      congr 1
      change handledCount (s.executor.step o (.work worker)) _ = _
      rw [hcounts, if_neg, Nat.add_zero]
      intro hsame
      rw [hcall] at hsame
      exact hne (fillCall_inj hsame).2.symm
    · exact fun kind => served_le_one h.handOver kind
    · simp only [FillQueries.handleFillQuery, FillQueries.writeOrder, Function.update_self]
      rw [← htask]
    · exact Function.update_self ..
    · exact fun hdone => hdone
  · have hcalls : ∀ kind, t.call ≠ fillCall split kind := by
      intro kind hsame
      rw [hcall] at hsame
      exact heq (fillCall_inj hsame).1.symm
    apply hsplit.frame
    · exact fun kind => congrFun henqueues _
    · intro kind
      change handledCount (s.executor.step o (.work worker)) _ = _
      rw [hcounts, if_neg (hcalls kind), Nat.add_zero]
    · exact Function.update_of_ne heq ..
    · exact Function.update_of_ne heq ..
    · rfl

/-- Every access of a worker keeps the invariant. -/
theorem work_sound (h : FillSound o splits s) (worker : ℕ) :
    FillSound o splits (s.work o splits worker) := by
  have hexecutor : (s.work o splits worker).executor = s.executor.step o (.work worker) := by
    simp only [FillQueries.work]
    split
    · split <;> rfl
    · rfl
  refine ⟨?_, ?_, ?_⟩
  · rw [hexecutor]
    exact executorStep_handOver h.handOver _
  · rw [hexecutor]
    simp only [LifecycleExecutor.step]
    split
    · exact workerLoop_tasksFit h.tasks worker
    · exact h.tasks
  · intro split
    have hframe : (s.executor.step o (.work worker)).handled = s.executor.handled →
        SplitSound splits { s with executor := s.executor.step o (.work worker) } split :=
      (h.splits split).executorStep (executorWork_frame worker).enqueues
    simp only [FillQueries.work]
    split
    · next hworker =>
      split
      · next t site hhandling => exact handle_sound h hworker hhandling split
      · next hnot => exact hframe (executorWork_handled_same fun t site => hnot t site)
    · next hworker => exact hframe (by simp only [LifecycleExecutor.step, if_neg hworker])

/-- Every access of `stop` keeps the invariant. -/
theorem stop_sound (h : FillSound o splits s) :
    FillSound o splits { s with executor := s.executor.step o .stop } where
  handOver := executorStep_handOver h.handOver .stop
  tasks := stop_tasksFit h.tasks
  splits := fun split => (h.splits split).executorStep stop_frame.enqueues stop_frame.handled

/-- Every event keeps the invariant. -/
theorem step_fillSound (h : FillSound o splits s) (event : FillQueryEvent) :
    FillSound o splits (s.step o splits event) := by
  cases event with
  | proceed split => exact proceed_sound h split
  | work worker => exact work_sound h worker
  | stop => exact stop_sound h

/-- No split has begun at the start. -/
theorem fillSound_start : FillSound o splits {} where
  handOver := handOver_start
  tasks := tasksFit_start
  splits := by
    intro split
    constructor
    · exact fun kind => by cases kind <;> exact rfl
    · exact fun hstarted => absurd rfl hstarted
    · exact fun kind hbegun => absurd (by cases kind <;> rfl) hbegun
    · exact fun hdone => by cases hdone

/-- The invariant holds in every state of a run. -/
theorem run_fillSound (events : List FillQueryEvent) :
    FillSound o splits (FillQueries.run o splits {} events) := by
  unfold FillQueries.run
  apply List.foldlRecOn
  · exact fillSound_start
  · exact fun _ hs event _ => step_fillSound hs event

/-! ## Behind the latch -/

/-- Neither the queue nor a worker has a task of the split. -/
def Unreferenced (o : ExecutorOptions) (e : LifecycleExecutor FillQueryTask) (split : ℕ) : Prop :=
  (∀ t ∈ e.queue, t.task.split ≠ split) ∧
    ∀ worker < o.workers, ∀ t site,
      e.workers worker = .uncounting t site ∨ e.workers worker = .handling t site →
        t.task.split ≠ split

/-- Where both queries have been made, no task of the split is left. -/
theorem unreferenced_of_served (h : FillSound o splits s) {split : ℕ}
    (hserved : ∀ kind, served s split kind = 1) : Unreferenced o s.executor split := by
  -- the task of a leg that was served is neither queued nor held
  have hnowhere : ∀ kind, queuedCount s.executor (fillCall split kind) = 0 ∧
      heldCount o s.executor (fillCall split kind) = 0 := by
    intro kind
    have hlocated := h.handOver.located (fillCall split kind)
    have hone := hserved kind
    unfold served inlined at hone
    split at hone
    · next hinlined =>
      rw [hinlined.2, if_neg (by exact Bool.false_ne_true)] at hlocated
      omega
    · split at hlocated <;> omega
  constructor
  · rintro t ht rfl
    have hcall := (h.tasks.queue t ht).1
    have hqueued : 0 < queuedCount s.executor t.call :=
      List.countP_pos_iff.mpr ⟨t, ht, by simp⟩
    rw [hcall, (hnowhere t.task.kind).1] at hqueued
    exact absurd hqueued (Nat.lt_irrefl 0)
  · rintro worker hworker t site hholds rfl
    have hcall := (h.tasks.workers worker t site hholds).1
    have hone : WorkerPhase.holds t.call (s.executor.workers worker) = 1 := by
      rcases hholds with hholds | hholds <;> rw [hholds] <;> simp [WorkerPhase.holds]
    have hheld : 1 ≤ heldCount o s.executor t.call := by
      rw [← hone]
      exact Finset.single_le_sum
        (f := fun w => WorkerPhase.holds t.call (s.executor.workers w))
        (fun _ _ => Nat.zero_le _) (Finset.mem_range.mpr hworker)
    rw [hcall, (hnowhere t.task.kind).2] at hheld
    exact absurd hheld (Nat.not_succ_le_zero 0)

/-- Behind the latch both queries have been made. -/
theorem served_of_done (h : FillSound o splits s) {split : ℕ} (hdone : s.phases split = .done)
    (kind : FillKind) : served s split kind = 1 := by
  have hsplit := h.splits split
  have hsum := hsplit.latch (by rw [hdone]; decide)
  rw [hsplit.done hdone] at hsum
  have hforeign : served s split .foreign ≤ 1 := served_le_one h.handOver .foreign
  have hkorean : served s split .korean ≤ 1 := served_le_one h.handOver .korean
  cases kind <;> omega

/-- However the threads of the splits, the workers and `stop` take turns: behind the latch of a
split both orders are what their queries make of the submitted ones, and nothing that the executor
has points to them. -/
theorem fill_join_agrees (o : ExecutorOptions) (splits : ℕ → SplitOrders)
    (events : List FillQueryEvent) (split : ℕ) :
    let s := FillQueries.run o splits {} events
    let sent := splits split
    s.phases split = .done →
      s.orders split .foreign =
          queryForeignFill sent.venues.foreign sent.foreignReply sent.foreignOrder ∧
        s.orders split .korean =
          queryKoreanFill sent.venues.korean sent.koreanReply sent.koreanOrder ∧
        Unreferenced o s.executor split := by
  intro s sent hdone
  have hsound : FillSound o splits s := run_fillSound events
  have hserved := served_of_done hsound hdone
  have horder : ∀ kind, s.orders split kind =
      sent.query (sent.task split kind) (sent.submitted kind) := by
    intro kind
    rw [(hsound.splits split).orders kind (by rw [hdone]; cases kind <;> decide), hserved,
      if_neg Nat.one_ne_zero]
  exact ⟨horder .foreign, horder .korean, unreferenced_of_served hsound hserved⟩

end SpotRelay.Analysis
