import Mathlib.Data.Nat.ModEq
import SpotRelay.Analysis.TaskHandOver

/-!
# The pending counter of the executor

The queue and `pending_` change in separate steps, so the counter is what is queued, more the tasks
that workers have popped and not yet subtracted, less those that callers have pushed and not yet
added.  A worker that subtracts before the caller has added takes it below zero.

* **one step** that counts in time keeps the counter balanced with the queue (`Balanced`), and one
  that does not takes it out of its bounds or clears it too early (`Balanced.not_counted`).
* **a miscount stays**: no later step takes it back (`Miscounted.step`), so at a quiet end the
  counter tells.
-/

set_option autoImplicit false

namespace SpotRelay.Analysis

open SpotRelay.Model SpotRelay.Library

variable {Task : Type}

/-! ## What is not counted yet -/

/-- The call has pushed and stands before its `fetch_add`. -/
def EnqueuePhase.uncounted : EnqueuePhase Task → Bool
  | .counting => true
  | _ => false

/-- The worker has popped and stands before its `fetch_sub`. -/
def WorkerPhase.uncounted : WorkerPhase Task → Bool
  | .uncounting .. => true
  | _ => false

def ExecutorEvent.call? : ExecutorEvent Task → Option ℕ
  | .enqueue call _ => some call
  | _ => none

/-- The calls of `enqueue` that a run makes. -/
def callsOf (events : List (ExecutorEvent Task)) : Finset ℕ :=
  (events.filterMap ExecutorEvent.call?).toFinset

def uncountedPushes (calls : Finset ℕ) (s : LifecycleExecutor Task) : ℕ :=
  weight (fun phase => (EnqueuePhase.uncounted phase).toNat) calls s.enqueues

def uncountedPops (o : ExecutorOptions) (s : LifecycleExecutor Task) : ℕ :=
  weight (fun phase => (WorkerPhase.uncounted phase).toNat) (Finset.range o.workers) s.workers

/-- No call of `enqueue`, `drain_one` or `stop` is under way. -/
structure Quiet (o : ExecutorOptions) (s : LifecycleExecutor Task) : Prop where
  enqueues : ∀ call, s.enqueues call = .idle ∨ ∃ accepted, s.enqueues call = .returned accepted
  drains : ∀ worker < o.workers, ∀ t site,
    s.workers worker ≠ .uncounting t site ∧ s.workers worker ≠ .handling t site
  stops : s.stopPhase = .idle ∨ s.stopPhase = .returned

/-- What `pending()` returns. -/
structure PendingRight (o : ExecutorOptions) (s : LifecycleExecutor Task) : Prop where
  le_capacity : s.pending.toNat ≤ o.capacity
  eq_length : Quiet o s → s.pending.toNat = s.queue.length

/-- A caller adds its task while fewer than `Capacity` are counted, a worker subtracts one while
some are, and `stop` stores zero where none are. -/
def CountedInTime (o : ExecutorOptions) (calls : Finset ℕ) (s : LifecycleExecutor Task) :
    ExecutorEvent Task → Prop
  | .enqueue .. => True
  | .proceed call => EnqueuePhase.uncounted (s.enqueues call) = true →
    s.queue.length + uncountedPops o s < o.capacity + uncountedPushes calls s
  | .work worker => worker < o.workers → WorkerPhase.uncounted (s.workers worker) = true →
    uncountedPushes calls s < s.queue.length + uncountedPops o s
  | .stop => s.stopPhase = .clearing → s.queue.length = uncountedPushes calls s

instance (o : ExecutorOptions) (calls : Finset ℕ) (s : LifecycleExecutor Task) :
    DecidablePred (CountedInTime o calls s)
  | .enqueue .. => isTrue trivial
  | .proceed _ => inferInstanceAs (Decidable (_ → _))
  | .work _ => inferInstanceAs (Decidable (_ → _))
  | .stop => inferInstanceAs (Decidable (_ → _))

/-! ## What a step does to the numbers -/

variable {o : ExecutorOptions} {calls : Finset ℕ} {s : LifecycleExecutor Task}

/-- A step of a call, as far as it is not counted before or after it. -/
theorem uncountedPushes_goTo {call : ℕ} (hcall : call ∈ calls) (phase : EnqueuePhase Task) :
    uncountedPushes calls (s.enqueueGoTo call phase) +
        (EnqueuePhase.uncounted (s.enqueues call)).toNat =
      uncountedPushes calls s + (EnqueuePhase.uncounted phase).toNat :=
  weight_update (fun phase => (EnqueuePhase.uncounted phase).toNat) hcall

/-- A step of a worker, as far as it has popped and not counted before or after it. -/
theorem uncountedPops_goTo {worker : ℕ} (hworker : worker < o.workers) (phase : WorkerPhase Task) :
    uncountedPops o (s.workerGoTo worker phase) +
        (WorkerPhase.uncounted (s.workers worker)).toNat =
      uncountedPops o s + (WorkerPhase.uncounted phase).toNat :=
  weight_update (fun phase => (WorkerPhase.uncounted phase).toNat) (Finset.mem_range.mpr hworker)

/-- The step moves a task between the places that are counted and those that are not, or none. -/
def Balances (o : ExecutorOptions) (calls : Finset ℕ) (s s' : LifecycleExecutor Task) : Prop :=
  s'.pending = s.pending ∧
    s'.queue.length + uncountedPops o s' + uncountedPushes calls s =
      s.queue.length + uncountedPops o s + uncountedPushes calls s'

/-- A call that goes on without a push or a count balances. -/
theorem balances_enqueueGoTo {call : ℕ} (hcall : call ∈ calls) {phase : EnqueuePhase Task}
    (hsame : EnqueuePhase.uncounted phase = EnqueuePhase.uncounted (s.enqueues call)) :
    Balances o calls s (s.enqueueGoTo call phase) := by
  have hpushes := uncountedPushes_goTo (s := s) hcall phase
  rw [hsame] at hpushes
  refine ⟨rfl, ?_⟩
  show s.queue.length + uncountedPops o s + _ = _
  omega

/-- A worker that goes on without a pop or a count balances. -/
theorem balances_workerGoTo {worker : ℕ} (hworker : worker < o.workers) {phase : WorkerPhase Task}
    (hsame : WorkerPhase.uncounted phase = WorkerPhase.uncounted (s.workers worker)) :
    Balances o calls s (s.workerGoTo worker phase) := by
  have hpops := uncountedPops_goTo (s := s) hworker phase
  rw [hsame] at hpops
  refine ⟨rfl, ?_⟩
  show s.queue.length + _ + uncountedPushes calls s = _ + _ + uncountedPushes calls s
  omega

/-- Behind a check a worker has nothing to count. -/
theorem uncounted_goOn (site : CheckSite) :
    WorkerPhase.uncounted (site.goOn o : WorkerPhase Task) = false := by
  have hspin : ∀ turn, WorkerPhase.uncounted (o.spin turn : WorkerPhase Task) = false := by
    intro turn
    unfold ExecutorOptions.spin
    split <;> rfl
  cases site with
  | beforeSpin => exact hspin 0
  | spin turn => exact hspin (turn + 1)
  | beforeWait => rfl

/-- Behind a handled task a worker has nothing to count. -/
theorem uncounted_drained (site : DrainSite) :
    WorkerPhase.uncounted (site.drained : WorkerPhase Task) = false := by
  cases site <;> rfl

/-- A caller counts its task. -/
def Adds (o : ExecutorOptions) (calls : Finset ℕ) (s s' : LifecycleExecutor Task) : Prop :=
  s'.pending = s.pending + 1 ∧ uncountedPushes calls s' + 1 = uncountedPushes calls s ∧
    s'.queue = s.queue ∧ uncountedPops o s' = uncountedPops o s

/-- A worker takes its task off the count. -/
def Subtracts (o : ExecutorOptions) (calls : Finset ℕ) (s s' : LifecycleExecutor Task) : Prop :=
  s'.pending = s.pending - 1 ∧ uncountedPops o s' + 1 = uncountedPops o s ∧
    s'.queue = s.queue ∧ uncountedPushes calls s' = uncountedPushes calls s

/-- The access behind the push adds the task to the counter, and no other does. -/
theorem enqueueImpl_counts {call : ℕ} (hcall : call ∈ calls) :
    (EnqueuePhase.uncounted (s.enqueues call) = false ∧
      Balances o calls s (s.enqueueImpl o call)) ∨
    (EnqueuePhase.uncounted (s.enqueues call) = true ∧ Adds o calls s (s.enqueueImpl o call)) := by
  unfold LifecycleExecutor.enqueueImpl
  cases hphase : s.enqueues call with
  | idle => exact .inl ⟨rfl, rfl, rfl⟩
  | pushing task turn =>
    left
    refine ⟨rfl, ?_⟩
    dsimp only
    split
    · have hpushes := uncountedPushes_goTo (s := s) hcall .counting
      rw [hphase] at hpushes
      refine ⟨rfl, ?_⟩
      show (s.queue ++ [_]).length + uncountedPops o s + uncountedPushes calls s =
        _ + _ + uncountedPushes calls (s.enqueueGoTo call .counting)
      simp only [EnqueuePhase.uncounted, Bool.toNat_false, Bool.toNat_true] at hpushes
      rw [List.length_append, List.length_singleton]
      omega
    · split
      · exact balances_enqueueGoTo hcall (by rw [hphase]; rfl)
      · exact balances_enqueueGoTo hcall (by rw [hphase]; rfl)
  | counting =>
    have hpushes := uncountedPushes_goTo (s := s) hcall .notifying
    rw [hphase] at hpushes
    exact .inr ⟨rfl, rfl, hpushes, rfl, rfl⟩
  | notifying => exact .inl ⟨rfl, balances_enqueueGoTo hcall (by rw [hphase]; rfl)⟩
  | returned accepted => exact .inl ⟨rfl, rfl, rfl⟩

/-- The access behind the pop takes the task off the counter, and no other does. -/
theorem workerLoop_counts {worker : ℕ} (hworker : worker < o.workers) :
    (WorkerPhase.uncounted (s.workers worker) = false ∧
      Balances o calls s (s.workerLoop o worker)) ∨
    (WorkerPhase.uncounted (s.workers worker) = true ∧
      Subtracts o calls s (s.workerLoop o worker)) := by
  unfold LifecycleExecutor.workerLoop
  cases hphase : s.workers worker with
  | draining site =>
    left
    refine ⟨rfl, ?_⟩
    cases hqueue : s.queue with
    | nil => exact balances_workerGoTo hworker (by rw [hphase]; rfl)
    | cons t rest =>
      have hpops := uncountedPops_goTo (s := s) hworker (.uncounting t site)
      rw [hphase] at hpops
      refine ⟨rfl, ?_⟩
      show rest.length + uncountedPops o (s.workerGoTo worker (.uncounting t site)) +
        uncountedPushes calls s = s.queue.length + _ + uncountedPushes calls s
      simp only [WorkerPhase.uncounted, Bool.toNat_false, Bool.toNat_true] at hpops
      rw [hqueue, List.length_cons]
      omega
  | uncounting t site =>
    have hpops := uncountedPops_goTo (s := s) hworker (.handling t site)
    rw [hphase] at hpops
    exact .inr ⟨rfl, rfl, hpops, rfl, rfl⟩
  | handling t site =>
    have hgoes : Balances o calls s (s.workerGoTo worker site.drained) :=
      balances_workerGoTo hworker (by rw [hphase, uncounted_drained]; rfl)
    exact .inl ⟨rfl, hgoes⟩
  | checkRunning site =>
    refine .inl ⟨rfl, balances_workerGoTo hworker ?_⟩
    rw [hphase]
    split
    · exact uncounted_goOn site
    · rfl
  | checkEmpty site =>
    refine .inl ⟨rfl, balances_workerGoTo hworker ?_⟩
    rw [hphase]
    split
    · rfl
    · exact uncounted_goOn site
  | afterSpin =>
    refine .inl ⟨rfl, balances_workerGoTo hworker ?_⟩
    rw [hphase]
    split <;> rfl
  | waiting => exact .inl ⟨rfl, balances_workerGoTo hworker (by rw [hphase]; rfl)⟩
  | exited => exact .inl ⟨rfl, rfl, rfl⟩

/-- The call is one of those that are summed over, if it is one at all. -/
def CallKnown (calls : Finset ℕ) (e : ExecutorEvent Task) : Prop :=
  ∀ call, ExecutorEvent.call? e = some call → call ∈ calls

/-- The calls of a run are known throughout it. -/
theorem callKnown_callsOf {events : List (ExecutorEvent Task)} :
    ∀ e ∈ events, CallKnown (callsOf events) e := by
  intro e he call hcall
  rw [callsOf, List.mem_toFinset]
  exact List.mem_filterMap.mpr ⟨e, he, hcall⟩

/-- Calls that are not made stand where they are. -/
theorem executorStep_idle (hidle : ∀ call ∉ calls, s.enqueues call = .idle)
    {e : ExecutorEvent Task} (hknown : CallKnown calls e) :
    ∀ call ∉ calls, (s.step o e).enqueues call = .idle := by
  intro other hother
  cases e with
  | enqueue call task =>
    have hne : other ≠ call := fun heq => hother (heq ▸ hknown call rfl)
    rw [(executorEnqueue_frame call task).others other hne]
    exact hidle other hother
  | proceed call =>
    change (s.enqueueImpl o call).enqueues other = .idle
    by_cases hsame : other = call
    · -- the call has not been made, so there is no access to do
      subst hsame
      simp only [LifecycleExecutor.enqueueImpl, hidle other hother]
    · rw [(enqueueImpl_frame call).others other hsame]
      exact hidle other hother
  | work worker =>
    rw [(executorWork_frame worker).enqueues]
    exact hidle other hother
  | stop =>
    change (s.stop o).enqueues other = .idle
    rw [stop_frame.enqueues]
    exact hidle other hother

/-- A step moves a task, counts one, takes one off the count or clears the count. -/
theorem executorStep_counts (hidle : ∀ call ∉ calls, s.enqueues call = .idle)
    {e : ExecutorEvent Task} (hknown : CallKnown calls e) :
    Balances o calls s (s.step o e) ∨
    (∃ call, e = .proceed call ∧ EnqueuePhase.uncounted (s.enqueues call) = true ∧
      Adds o calls s (s.step o e)) ∨
    (∃ worker < o.workers, e = .work worker ∧ WorkerPhase.uncounted (s.workers worker) = true ∧
      Subtracts o calls s (s.step o e)) ∨
    (e = .stop ∧ s.stopPhase = .clearing ∧
      s.step o e = { s with pending := 0, stopPhase := .returned }) := by
  cases e with
  | enqueue call task =>
    left
    simp only [LifecycleExecutor.step]
    split
    · next hphase =>
      apply balances_enqueueGoTo (hknown call rfl)
      rw [hphase]
      split <;> rfl
    · exact ⟨rfl, rfl⟩
  | proceed call =>
    by_cases hcall : call ∈ calls
    · rcases enqueueImpl_counts hcall with ⟨-, hbalances⟩ | ⟨huncounted, hadds⟩
      · exact .inl hbalances
      · exact .inr (.inl ⟨call, rfl, huncounted, hadds⟩)
    · left
      simp only [LifecycleExecutor.step, LifecycleExecutor.enqueueImpl, hidle call hcall]
      exact ⟨rfl, rfl⟩
  | work worker =>
    by_cases hworker : worker < o.workers
    · simp only [LifecycleExecutor.step, if_pos hworker]
      rcases workerLoop_counts hworker with ⟨-, hbalances⟩ | ⟨huncounted, hsubtracts⟩
      · exact .inl hbalances
      · exact .inr (.inr (.inl ⟨worker, hworker, rfl, huncounted, hsubtracts⟩))
    · left
      simp only [LifecycleExecutor.step, if_neg hworker]
      exact ⟨rfl, rfl⟩
  | stop =>
    simp only [LifecycleExecutor.step, LifecycleExecutor.stop]
    cases hphase : s.stopPhase with
    | idle => exact .inl ⟨rfl, rfl⟩
    | notifying => exact .inl ⟨rfl, rfl⟩
    | joining worker =>
      left
      dsimp only
      split
      · split
        · exact ⟨rfl, rfl⟩
        · exact ⟨rfl, rfl⟩
      · exact ⟨rfl, rfl⟩
    | clearing => exact .inr (.inr (.inr ⟨trivial, rfl, rfl⟩))
    | returned => exact .inl ⟨rfl, rfl⟩

/-! ## Runs that count in time -/

/-- The counter is what is counted, and the queue has room for it. -/
structure Balanced (o : ExecutorOptions) (calls : Finset ℕ) (s : LifecycleExecutor Task) : Prop where
  handOver : HandOver o s
  idle : ∀ call ∉ calls, s.enqueues call = .idle
  count : s.pending.toNat + uncountedPushes calls s = s.queue.length + uncountedPops o s
  le_capacity : s.pending.toNat ≤ o.capacity

/-- Nothing is counted or queued at the start. -/
theorem balanced_start : Balanced o calls ({} : LifecycleExecutor Task) where
  handOver := handOver_start
  idle := fun _ _ => rfl
  count := by
    simp [uncountedPushes, uncountedPops, weight, EnqueuePhase.uncounted, WorkerPhase.uncounted]
  le_capacity := Nat.zero_le _

/-- Once `stop` is past its joins, no worker holds a task. -/
theorem uncountedPops_of_joined (h : HandOver o s)
    (hphase : s.stopPhase = .clearing ∨ s.stopPhase = .returned) : uncountedPops o s = 0 := by
  unfold uncountedPops weight
  refine Finset.sum_eq_zero fun worker hworker => ?_
  have hexited : s.workers worker = .exited := by
    refine h.joined worker ?_
    rcases hphase with hphase | hphase
    · rw [hphase]
      exact Finset.mem_range.mp hworker
    · rw [hphase]
      exact Finset.mem_range.mp hworker
  rw [hexited]
  rfl

/-- The counter does not wrap upwards below half its range. -/
theorem toNat_add_one_of_le {n : UInt64} (h : n.toNat ≤ 2 ^ 63) :
    (n + 1).toNat = n.toNat + 1 := by
  have hlt : n.toNat + 1 < 2 ^ 64 := by omega
  rw [UInt64.toNat_add]
  exact Nat.mod_eq_of_lt hlt

/-- A positive counter does not wrap downwards. -/
theorem toNat_sub_one_of_pos {n : UInt64} (h : 0 < n.toNat) : (n - 1).toNat = n.toNat - 1 := by
  refine UInt64.toNat_sub_of_le n 1 ?_
  rw [UInt64.le_iff_toNat_le]
  exact h

/-- A step that counts in time keeps the counter that of the tasks. -/
theorem Balanced.step (hcapacity : o.capacity ≤ 2 ^ 63) (h : Balanced o calls s)
    {e : ExecutorEvent Task} (hknown : CallKnown calls e) (hcounted : CountedInTime o calls s e) :
    Balanced o calls (s.step o e) := by
  have hcount := h.count
  have hle := h.le_capacity
  suffices hnumbers : (s.step o e).pending.toNat + uncountedPushes calls (s.step o e) =
      (s.step o e).queue.length + uncountedPops o (s.step o e) ∧
        (s.step o e).pending.toNat ≤ o.capacity from
    ⟨executorStep_handOver h.handOver e, executorStep_idle h.idle hknown, hnumbers.1, hnumbers.2⟩
  rcases executorStep_counts (o := o) h.idle hknown with ⟨hpending, hmoved⟩ |
    ⟨call, rfl, huncounted, hpending, hpushes, hqueue, hpops⟩ |
    ⟨worker, hworker, rfl, huncounted, hpending, hpops, hqueue, hpushes⟩ | ⟨rfl, hphase, hstep⟩
  · rw [hpending]
    omega
  · have hroom := hcounted huncounted
    rw [hpending, hqueue, hpops, toNat_add_one_of_le (hle.trans hcapacity)]
    omega
  · have hsome := hcounted hworker huncounted
    rw [hpending, hqueue, hpushes, toNat_sub_one_of_pos (by omega)]
    omega
  · have hnone := hcounted hphase
    have hpops := uncountedPops_of_joined h.handOver (Or.inl hphase)
    rw [hstep]
    show 0 + uncountedPushes calls s = s.queue.length + uncountedPops o s ∧ 0 ≤ o.capacity
    omega

/-- Where nothing is under way, no push waits for its count. -/
theorem uncountedPushes_of_quiet (h : Quiet o s) : uncountedPushes calls s = 0 := by
  unfold uncountedPushes weight
  refine Finset.sum_eq_zero fun call _ => ?_
  rcases h.enqueues call with hphase | ⟨accepted, hphase⟩
  · rw [hphase]
    rfl
  · rw [hphase]
    rfl

/-- Where nothing is under way, no pop waits for its count. -/
theorem uncountedPops_of_quiet (h : Quiet o s) : uncountedPops o s = 0 := by
  unfold uncountedPops weight
  refine Finset.sum_eq_zero fun worker hworker => ?_
  have hdrains := h.drains worker (Finset.mem_range.mp hworker)
  cases hphase : s.workers worker with
  | uncounting t site => exact absurd hphase (hdrains t site).1
  | _ => rfl

/-- A counter that is that of the tasks is right. -/
theorem Balanced.pendingRight (h : Balanced o calls s) : PendingRight o s where
  le_capacity := h.le_capacity
  eq_length := by
    intro hquiet
    have hcount := h.count
    rwa [uncountedPushes_of_quiet hquiet, uncountedPops_of_quiet hquiet, Nat.add_zero,
      Nat.add_zero] at hcount

/-! ## A run that does not -/

/-- What is left of a counter that `stop` has cleared while tasks were counted. -/
structure Miscounted (o : ExecutorOptions) (calls : Finset ℕ) (lost : ℕ)
    (s : LifecycleExecutor Task) : Prop where
  handOver : HandOver o s
  idle : ∀ call ∉ calls, s.enqueues call = .idle
  returned : s.stopPhase = .returned
  count : s.pending.toNat + lost + uncountedPushes calls s ≡ s.queue.length [MOD 2 ^ 64]

/-- `stop` returns for good. -/
theorem executorStep_returned (hreturned : s.stopPhase = .returned) (e : ExecutorEvent Task) :
    (s.step o e).stopPhase = .returned := by
  cases e with
  | enqueue call task => rw [(executorEnqueue_frame call task).stopPhase, hreturned]
  | proceed call => exact (enqueueImpl_frame call).stopPhase.trans hreturned
  | work worker => rw [(executorWork_frame worker).stopPhase, hreturned]
  | stop => simp only [LifecycleExecutor.step, LifecycleExecutor.stop, hreturned]

/-- What was lost stays lost: no worker is left, and `stop` has returned. -/
theorem Miscounted.step {lost : ℕ} (h : Miscounted o calls lost s) {e : ExecutorEvent Task}
    (hknown : CallKnown calls e) : Miscounted o calls lost (s.step o e) := by
  have hhandOver := executorStep_handOver h.handOver e
  have hreturned := executorStep_returned (o := o) h.returned e
  have hpops := uncountedPops_of_joined h.handOver (Or.inr h.returned)
  have hpops' := uncountedPops_of_joined hhandOver (Or.inr hreturned)
  refine ⟨hhandOver, executorStep_idle h.idle hknown, hreturned, ?_⟩
  rcases executorStep_counts (o := o) h.idle hknown with ⟨hpending, hmoved⟩ |
    ⟨call, rfl, -, hpending, hpushes, hqueue, -⟩ | ⟨worker, -, rfl, -, -, hfewer, -⟩ |
    ⟨rfl, hphase, -⟩
  · rw [hpops, hpops', Nat.add_zero, Nat.add_zero] at hmoved
    have hsum := h.count.add_right (uncountedPushes calls (s.step o e))
    rw [← hmoved, Nat.add_right_comm] at hsum
    rw [hpending]
    exact Nat.ModEq.add_right_cancel' (uncountedPushes calls s) hsum
  · have hadded : (s.pending + 1).toNat ≡ s.pending.toNat + 1 [MOD 2 ^ 64] := by
      rw [UInt64.toNat_add]
      exact Nat.mod_modEq _ _
    have hcount := h.count
    rw [← hpushes] at hcount
    rw [hpending, hqueue]
    have hsum := hadded.add_right (lost + uncountedPushes calls (s.step o (.proceed call)))
    rw [← Nat.add_assoc] at hsum
    refine hsum.trans ?_
    convert hcount using 1
    omega
  · omega
  · rw [h.returned] at hphase
    cases hphase

/-- The counter is wrong at the end of such a run. -/
theorem Miscounted.not_pendingRight {lost : ℕ} (h : Miscounted o calls lost s) (hpos : 0 < lost)
    (hlost : lost ≤ 2 ^ 63) (hquiet : Quiet o s) : ¬ PendingRight o s := by
  intro hright
  have hcount := h.count
  rw [uncountedPushes_of_quiet hquiet, Nat.add_zero, ← hright.eq_length hquiet] at hcount
  have hzero : lost ≡ 0 [MOD 2 ^ 64] := by
    refine Nat.ModEq.add_left_cancel' s.pending.toNat ?_
    rwa [Nat.add_zero]
  have hmod : lost % 2 ^ 64 = lost := Nat.mod_eq_of_lt (by omega)
  unfold Nat.ModEq at hzero
  rw [hmod, Nat.zero_mod] at hzero
  omega

/-- A step that does not count in time takes the counter out of its bounds, or clears it too
early. -/
theorem Balanced.not_counted (hcapacity : o.capacity ≤ 2 ^ 63) (h : Balanced o calls s)
    {e : ExecutorEvent Task} (hlate : ¬ CountedInTime o calls s e) :
    ¬ PendingRight o (s.step o e) ∨
      ∃ lost, 0 < lost ∧ lost ≤ 2 ^ 63 ∧ Miscounted o calls lost (s.step o e) := by
  have hcount := h.count
  have hle := h.le_capacity
  cases e with
  | enqueue call task => exact absurd trivial hlate
  | proceed call =>
    obtain ⟨huncounted, hfull⟩ := Classical.not_imp.mp hlate
    left
    intro hright
    have hcall : call ∈ calls := by
      by_contra hcall
      rw [h.idle call hcall] at huncounted
      cases huncounted
    rcases enqueueImpl_counts (o := o) hcall with ⟨hcounted, -⟩ | ⟨-, hpending, -⟩
    · rw [huncounted] at hcounted
      cases hcounted
    · have hbound := hright.le_capacity
      have hpending' : (s.step o (.proceed call)).pending = s.pending + 1 := hpending
      rw [hpending', toNat_add_one_of_le (hle.trans hcapacity)] at hbound
      omega
  | work worker =>
    obtain ⟨hworker, hlate⟩ := Classical.not_imp.mp hlate
    obtain ⟨huncounted, hnone⟩ := Classical.not_imp.mp hlate
    left
    intro hright
    have hstep : s.step o (.work worker) = s.workerLoop o worker := if_pos hworker
    rcases @workerLoop_counts Task o calls s worker hworker with ⟨hcounted, -⟩ | ⟨-, hpending, -⟩
    · rw [huncounted] at hcounted
      cases hcounted
    · have hbound := hright.le_capacity
      have hzero : s.pending = 0 := by
        rw [← UInt64.toNat_inj]
        show s.pending.toNat = 0
        omega
      rw [hstep, hpending, hzero] at hbound
      have hwrapped : 2 ^ 64 - 1 ≤ o.capacity := hbound
      omega
  | stop =>
    obtain ⟨hphase, hcounted⟩ := Classical.not_imp.mp hlate
    right
    have hpops := uncountedPops_of_joined h.handOver (Or.inl hphase)
    have hstep : s.step o .stop = { s with pending := 0, stopPhase := .returned } := by
      simp only [LifecycleExecutor.step, LifecycleExecutor.stop, hphase]
    have hhandOver := executorStep_handOver h.handOver .stop
    refine ⟨s.pending.toNat, by omega, by omega, ?_⟩
    rw [hstep] at hhandOver ⊢
    refine ⟨hhandOver, h.idle, rfl, ?_⟩
    show 0 + s.pending.toNat + uncountedPushes calls s ≡ s.queue.length [MOD 2 ^ 64]
    rw [Nat.zero_add, hcount, hpops]
    exact Nat.ModEq.refl _

/-! ## The result -/

/-- In a run that counts in time `pending()` is right in every state; a run that does not, and at
whose end nothing is under way, has a state in which it is wrong. -/
theorem pendingRight_iff_countedInTime (o : ExecutorOptions) (hcapacity : o.capacity ≤ 2 ^ 63)
    (events : List (ExecutorEvent Task)) :
    (Run.Along (CountedInTime o (callsOf events)) (LifecycleExecutor.step o) {} events →
      ∀ done, done <+: events → PendingRight o (runExecutor o done)) ∧
    (Quiet o (runExecutor o events) →
      (∀ done, done <+: events → PendingRight o (runExecutor o done)) →
        Run.Along (CountedInTime o (callsOf events)) (LifecycleExecutor.step o) {} events) := by
  constructor
  · rintro hrun done ⟨rest, rfl⟩
    have hdone := ((Run.along_append _ _ _).mp hrun).1.and_forall fun e he =>
      callKnown_callsOf e (List.mem_append_left rest he)
    exact (Run.invariant (Balanced o (callsOf (done ++ rest)))
      (fun _ _ hs hx => hs.step hcapacity hx.2 hx.1) done {} balanced_start hdone).pendingRight
  · intro hquiet hright
    by_contra hnot
    obtain ⟨done, e, rest, hevents, hbalanced, hlate⟩ := Run.exists_first_of_not_along
      (Balanced o (callsOf events)) events {}
      (fun _ x hx hs hcounted => hs.step hcapacity (callKnown_callsOf x hx) hcounted)
      balanced_start hnot
    have hhere : PendingRight o ((done.foldl (LifecycleExecutor.step o) {}).step o e) := by
      have hprefix := hright (done ++ [e]) ⟨rest, by rw [hevents, List.append_assoc]; rfl⟩
      rwa [runExecutor, List.foldl_append] at hprefix
    rcases hbalanced.not_counted hcapacity hlate with hwrong | ⟨lost, hpos, hbound, hmiscounted⟩
    · exact hwrong hhere
    · have hend : Miscounted o (callsOf events) lost (runExecutor o events) := by
        have hrest : ∀ x ∈ rest, CallKnown (callsOf events) x := fun x hx =>
          callKnown_callsOf x (by rw [hevents]; simp [hx])
        have hrun : runExecutor o events =
            rest.foldl (LifecycleExecutor.step o)
              ((done.foldl (LifecycleExecutor.step o) {}).step o e) := by
          rw [runExecutor, hevents, List.foldl_append, List.foldl_cons]
        rw [hrun]
        apply List.foldlRecOn
        · exact hmiscounted
        · exact fun _ hs x hx => hs.step (hrest x hx)
      exact hend.not_pendingRight hpos hbound hquiet (hright events (List.prefix_refl events))

/-- A task is pushed, counted, popped, taken off the count and handled. -/
def countedCall : List (ExecutorEvent ℕ) :=
  [.enqueue 0 7, .proceed 0, .proceed 0, .work 0, .work 0, .work 0, .proceed 0]

/-- Nothing is under way at the end of the example's run. -/
theorem quiet_countedCall : Quiet {} (runExecutor {} countedCall) where
  enqueues
    | 0 => .inr ⟨true, rfl⟩
    | _ + 1 => .inl rfl
  drains := by
    intro worker hworker t site
    obtain rfl : worker = 0 := Nat.lt_one_iff.mp hworker
    have hphase : (runExecutor {} countedCall).workers 0 = .draining .top := rfl
    rw [hphase]
    exact ⟨by simp, by simp⟩
  stops := .inl rfl

/-- Both directions for a run with one call. -/
theorem pendingRight_iff_countedInTime_one_call :
    PendingRight {} (runExecutor {} countedCall) ∧
      Run.Along (CountedInTime {} (callsOf countedCall)) (LifecycleExecutor.step {}) {}
        countedCall := by
  have hcapacity : ({} : ExecutorOptions).capacity ≤ 2 ^ 63 := by decide
  obtain ⟨hright, hcounted⟩ := pendingRight_iff_countedInTime {} hcapacity countedCall
  have hall := hright (by decide)
  exact ⟨hall countedCall (List.prefix_refl _), hcounted quiet_countedCall hall⟩

/-- The worker takes the task off the count before its caller has counted it. -/
def subtractedFirst : List (ExecutorEvent ℕ) := [.enqueue 0 7, .proceed 0, .work 0, .work 0]

/-- The counter is below zero, and wrong. -/
theorem subtractedFirst_underflows :
    (runExecutor {} subtractedFirst).pending = 18446744073709551615 ∧
      ¬ PendingRight {} (runExecutor {} subtractedFirst) := by
  have hpending : (runExecutor {} subtractedFirst).pending = 18446744073709551615 := by decide
  refine ⟨hpending, ?_⟩
  intro hright
  have hbound := hright.le_capacity
  rw [hpending] at hbound
  exact absurd hbound (by decide)

end SpotRelay.Analysis
