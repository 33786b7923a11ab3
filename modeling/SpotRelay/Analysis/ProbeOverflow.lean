import Mathlib.Data.List.Nodup
import Mathlib.Data.List.Perm.Subperm
import SpotRelay.Analysis.ProbeSlots

/-!
# The overflow queue of the probe

Any thread may push to the overflow queue, and the exporter pops it.  What it has published is what
the threads sent it, what it has popped is what the exporter took, and every popped ticket is a
published one, so nothing comes out twice.

* **one step** keeps the overflow queue's account (`overflowSound_step`), the exporter's pops
  included (`overflowSound_popOverflow`).
* **what has come out** is a part of what went in (`OverflowSound.exists_waiting`).
-/

set_option autoImplicit false

namespace SpotRelay.Analysis

open SpotRelay.Model SpotRelay.Library
open LatencyProbe (overflowThread overflowExporter)

/-- The event that a thread pushes to the overflow queue. -/
def RecordPhase.overflowPush : RecordPhase → Option LatencyEvent
  | .pushOverflow event => some event
  | _ => none

/-- The exporter is in a pop of the overflow queue. -/
def ExporterPhase.popsOverflow : ExporterPhase → Bool
  | .popOverflow => true
  | _ => false

/-- After `n` steps of the run. -/
structure OverflowSound (n : ℕ) (s : LatencyProbe) : Prop where
  tickets : TicketsSound overflowCapacity s.overflowQueue
  few : s.overflowQueue.enqueuePos ≤ n
  pushing : ∀ thread, QueuePhase.pushing (s.overflowQueue.threads (overflowThread thread)) =
    RecordPhase.overflowPush (s.records thread)
  threads : ∀ thread, QueuePhase.popping (s.overflowQueue.threads (overflowThread thread)) = false
  popping : QueuePhase.popping (s.overflowQueue.threads overflowExporter) =
    ExporterPhase.popsOverflow s.exporter
  exporter : QueuePhase.pushing (s.overflowQueue.threads overflowExporter) = none
  published : s.overflowQueue.published.map Prod.snd = sentTo s.published none
  popped : s.overflowQueue.popped.map Prod.snd = valuesAt none s.taken

/-- The overflow queue is empty behind `start`. -/
theorem overflowSound_started {s : LatencyProbe} (h : s.Started) : OverflowSound 0 s := by
  rw [h.fresh]
  exact ⟨ticketsSound_empty overflowCapacity, le_rfl, fun _ => rfl, fun _ => rfl, rfl, rfl, rfl, rfl⟩

variable {s s' : LatencyProbe} {n thread : ℕ} {event : LatencyEvent}

/-- A step that leaves the overflow queue alone. -/
theorem OverflowSound.congr (h : OverflowSound n s) (hqueue : s'.overflowQueue = s.overflowQueue)
    (hrecords : ∀ thread, RecordPhase.overflowPush (s'.records thread) =
      RecordPhase.overflowPush (s.records thread))
    (hexporter : ExporterPhase.popsOverflow s'.exporter = ExporterPhase.popsOverflow s.exporter)
    (hsent : sentTo s'.published none = sentTo s.published none)
    (htaken : valuesAt none s'.taken = valuesAt none s.taken) : OverflowSound (n + 1) s' where
  tickets := by
    rw [hqueue]
    exact h.tickets
  few := by
    rw [hqueue]
    exact h.few.trans (Nat.le_succ n)
  pushing thread := by rw [hqueue, hrecords, h.pushing]
  threads thread := by rw [hqueue, h.threads]
  popping := by rw [hqueue, hexporter, h.popping]
  exporter := by rw [hqueue, h.exporter]
  published := by rw [hqueue, hsent, h.published]
  popped := by rw [hqueue, htaken, h.popped]

/-- A thread that pushes to the overflow queue neither before nor after its access leaves the pushes
as they are. -/
theorem overflowPush_update {records : ℕ → RecordPhase} {phase : RecordPhase}
    (hsame : RecordPhase.overflowPush phase = RecordPhase.overflowPush (records thread))
    (other : ℕ) : RecordPhase.overflowPush (Function.update records thread phase other) =
      RecordPhase.overflowPush (records other) := by
  by_cases heq : other = thread
  · rw [heq, Function.update_self, hsame]
  · rw [Function.update_of_ne heq]

/-- A thread goes to another phase outside `try_push` of the overflow queue. -/
theorem OverflowSound.goTo (h : OverflowSound n s)
    (hold : RecordPhase.overflowPush (s.records thread) = none) (phase : RecordPhase)
    (hnew : RecordPhase.overflowPush phase = none)
    (hrecords : s'.records = Function.update s.records thread phase)
    (hqueue : s'.overflowQueue = s.overflowQueue) (hexporter : s'.exporter = s.exporter)
    (hsent : sentTo s'.published none = sentTo s.published none)
    (htaken : s'.taken = s.taken) : OverflowSound (n + 1) s' := by
  refine h.congr hqueue ?_ (by rw [hexporter]) hsent (by rw [htaken])
  rw [hrecords]
  exact overflowPush_update (hnew.trans hold.symm)

/-- The exporter is no recording thread of the overflow queue. -/
theorem overflowThread_ne_exporter (thread : ℕ) : overflowThread thread ≠ overflowExporter :=
  Nat.succ_ne_zero thread

/-- Different threads are different threads of the overflow queue. -/
theorem overflowThread_ne {other : ℕ} (hne : other ≠ thread) :
    overflowThread other ≠ overflowThread thread :=
  fun heq => hne (Nat.succ_injective heq)

/-- A thread calls `try_push`. -/
theorem OverflowSound.startOverflow (h : OverflowSound n s)
    (hold : RecordPhase.overflowPush (s.records thread) = none) (event : LatencyEvent) :
    OverflowSound (n + 1) (s.startOverflow thread event) := by
  have hpushing := h.pushing thread
  rw [hold] at hpushing
  have hcall : s.overflowQueue.step overflowCapacity id
      (.tryPush (overflowThread thread) event) =
        s.overflowQueue.goTo (overflowThread thread) (.loadEnqueuePos event) :=
    call_of_resting hpushing (h.threads thread) _
  have hfew : FewOutstanding overflowCapacity s.overflowQueue
      (.tryPush (overflowThread thread) event) := trivial
  have htickets := @ticketsSound_step _ _ id _ _ h.tickets hfew
  have hrest : ∀ other, other ≠ overflowThread thread →
      (s.startOverflow thread event).overflowQueue.threads other =
        s.overflowQueue.threads other := by
    intro other hne
    show (s.overflowQueue.step overflowCapacity id _).threads other = _
    rw [hcall]
    exact Function.update_of_ne hne _ _
  have hself : (s.startOverflow thread event).overflowQueue.threads (overflowThread thread) =
      .loadEnqueuePos event := by
    show (s.overflowQueue.step overflowCapacity id _).threads _ = _
    rw [hcall, MpmcRingBuffer.goTo_threads_self]
  constructor
  · exact htickets
  · show (s.overflowQueue.step overflowCapacity id _).enqueuePos ≤ n + 1
    rw [hcall]
    exact h.few.trans (Nat.le_succ n)
  · intro other
    show _ = RecordPhase.overflowPush
      (Function.update s.records thread (.pushOverflow event) other)
    by_cases heq : other = thread
    · rw [heq, hself, Function.update_self]
      rfl
    · rw [hrest _ (overflowThread_ne heq), Function.update_of_ne heq, h.pushing]
  · intro other
    by_cases heq : other = thread
    · rw [heq, hself]
      rfl
    · rw [hrest _ (overflowThread_ne heq), h.threads]
  · rw [hrest _ (overflowThread_ne_exporter thread).symm]
    exact h.popping
  · rw [hrest _ (overflowThread_ne_exporter thread).symm]
    exact h.exporter
  · show (s.overflowQueue.step overflowCapacity id _).published.map Prod.snd = _
    rw [hcall]
    exact h.published
  · show (s.overflowQueue.step overflowCapacity id _).popped.map Prod.snd = _
    rw [hcall]
    exact h.popped

/-- The beginning of a push leaves the overflow queue. -/
theorem OverflowSound.startPush (h : OverflowSound n s)
    (hold : RecordPhase.overflowPush (s.records thread) = none) (event : LatencyEvent)
    (slot : Option ℕ) : OverflowSound (n + 1) (s.startPush thread event slot) := by
  cases slot with
  | none => exact h.startOverflow hold event
  | some i => exact h.goTo hold (.pushSlot event i) rfl rfl rfl rfl rfl rfl

/-- What is left to show of an access of a push: where the thread goes and what is published. -/
theorem OverflowSound.push (h : OverflowSound n s) {q : MpmcRingBuffer LatencyEvent}
    (htickets : TicketsSound overflowCapacity q)
    (hframe : PushFrame s.overflowQueue q (overflowThread thread))
    (hqueue : s'.overflowQueue = q)
    (hrecords : ∀ other, other ≠ thread → s'.records other = s.records other)
    (hpushing : QueuePhase.pushing (q.threads (overflowThread thread)) =
      RecordPhase.overflowPush (s'.records thread))
    (hpopping : QueuePhase.popping (q.threads (overflowThread thread)) = false)
    (hexporter : s'.exporter = s.exporter) (htaken : s'.taken = s.taken)
    (hpublished : q.published.map Prod.snd = sentTo s'.published none) :
    OverflowSound (n + 1) s' where
  tickets := by rwa [hqueue]
  few := by
    rw [hqueue]
    exact hframe.enqueuePos.trans (Nat.succ_le_succ h.few)
  pushing other := by
    rw [hqueue]
    by_cases heq : other = thread
    · rw [heq, hpushing]
    · rw [hframe.others _ (overflowThread_ne heq), hrecords other heq, h.pushing]
  threads other := by
    rw [hqueue]
    by_cases heq : other = thread
    · rw [heq, hpopping]
    · rw [hframe.others _ (overflowThread_ne heq), h.threads]
  popping := by
    rw [hqueue, hframe.others _ (overflowThread_ne_exporter thread).symm, hexporter, h.popping]
  exporter := by
    rw [hqueue, hframe.others _ (overflowThread_ne_exporter thread).symm, h.exporter]
  published := by rw [hqueue, hpublished]
  popped := by rw [hqueue, hframe.popped, htaken, h.popped]

/-- A thread that pushes does not pop. -/
theorem popping_of_pushing {phase : QueuePhase LatencyEvent}
    (h : QueuePhase.pushing phase = some event) : QueuePhase.popping phase = false := by
  cases phase with
  | idle | pushReturned | popReturned | loadDequeuePos | loadPopSequence | casDequeuePos | moveData
  | storePopSequence => cases h
  | loadEnqueuePos | loadPushSequence | casEnqueuePos | writeData | storePushSequence => rfl

/-- Every step of the overflow queue keeps its tickets sound, since few can be outstanding. -/
theorem ticketsSound_overflow (h : OverflowSound n s)
    (hn : n + overflowCapacity.val < 2 ^ 63) (event : QueueEvent LatencyEvent) :
    TicketsSound overflowCapacity (s.overflowQueue.step overflowCapacity id event) := by
  have hfew : s.overflowQueue.enqueuePos + overflowCapacity.val < 2 ^ 63 :=
    (Nat.add_le_add_right h.few _).trans_lt hn
  exact ticketsSound_step _ _ h.tickets (fewOutstanding_of_few h.tickets hfew event)

/-- An access to the overflow queue keeps it sound. -/
theorem overflowSound_pushOverflow (h : OverflowSound n s)
    (hn : n + overflowCapacity.val < 2 ^ 63) (hthread : s.records thread = .pushOverflow event)
    (spurious : Bool) : OverflowSound (n + 1) (s.proceed thread spurious) := by
  have htickets := ticketsSound_overflow h hn (.proceed (overflowThread thread) spurious)
  have hpushing := h.pushing thread
  rw [hthread] at hpushing
  obtain ⟨hframe, hstep⟩ := @access_push _ overflowCapacity id _ _ _ h.tickets spurious hpushing
  simp only [LatencyProbe.proceed, hthread]
  rcases hstep with ⟨hgoesOn, hpublished⟩ | ⟨hreturned, pos, hpublished⟩ | ⟨hreturned, hpublished⟩
  · have hsplit : ∀ pushed, (s.overflowQueue.step overflowCapacity id
        (.proceed (overflowThread thread) spurious)).threads (overflowThread thread) ≠
          .pushReturned pushed := by
      intro pushed hpushed
      change (s.overflowQueue.access overflowCapacity id _ _).threads _ = _ at hpushed
      rw [hpushed] at hgoesOn
      cases hgoesOn
    split
    next hpushed => exact absurd hpushed (hsplit true)
    next hpushed => exact absurd hpushed (hsplit false)
    next =>
      refine h.push htickets hframe rfl (fun _ _ => rfl) ?_ (popping_of_pushing hgoesOn) rfl rfl ?_
      · show _ = RecordPhase.overflowPush (s.records thread)
        rw [hthread]
        exact hgoesOn
      · exact (congrArg (List.map Prod.snd) hpublished).trans h.published
  · split
    next hpushed =>
      refine h.push htickets hframe rfl (fun other hne => Function.update_of_ne hne _ _) ?_ ?_ rfl rfl
        ?_
      · rw [hpushed, LatencyProbe.goTo_records_self]
        rfl
      · rw [hpushed]
        rfl
      · show (MpmcRingBuffer.published _).map Prod.snd = _
        refine (congrArg (List.map Prod.snd) hpublished).trans ?_
        show _ = sentTo (s.published ++ [⟨thread, some none, event⟩]) none
        rw [sentTo_concat_self, List.map_append, h.published]
        rfl
    next hpushed =>
      change (s.overflowQueue.access overflowCapacity id _ _).threads _ = _ at hpushed
      rw [hreturned] at hpushed
      cases hpushed
    next _ hnot _ => exact absurd hreturned hnot
  · split
    next hpushed =>
      change (s.overflowQueue.access overflowCapacity id _ _).threads _ = _ at hpushed
      rw [hreturned] at hpushed
      cases hpushed
    next hpushed =>
      refine h.push htickets hframe rfl (fun other hne => Function.update_of_ne hne _ _) ?_ ?_ rfl rfl
        ?_
      · rw [hpushed, LatencyProbe.goTo_records_self]
        rfl
      · rw [hpushed]
        rfl
      · exact (congrArg (List.map Prod.snd) hpublished).trans h.published
    next _ _ hnot => exact absurd hreturned hnot

/-- Every access of a recording thread keeps it sound. -/
theorem overflowSound_proceed (h : OverflowSound n s) (hn : n + overflowCapacity.val < 2 ^ 63)
    (spurious : Bool) : OverflowSound (n + 1) (s.proceed thread spurious) := by
  cases hnow : s.records thread with
  | pushOverflow event => exact overflowSound_pushOverflow h hn hnow spurious
  | idle =>
    simp only [LatencyProbe.proceed, hnow]
    exact h.congr rfl (fun _ => rfl) rfl rfl rfl
  | pushSlot event slot =>
    have hold : RecordPhase.overflowPush (s.records thread) = none := by
      rw [hnow]
      rfl
    simp only [LatencyProbe.proceed, hnow]
    split
    · exact h.goTo hold .countPending rfl rfl rfl rfl
        (sentTo_concat_of_ne fun hdestination => by cases Option.some.inj hdestination) rfl
    · exact OverflowSound.startOverflow (s := s.setQueue slot _)
        ⟨h.tickets, h.few, h.pushing, h.threads, h.popping, h.exporter, h.published, h.popped⟩ hold
        event
    · exact h.congr rfl (fun _ => rfl) rfl rfl rfl
  | loadGeneration event =>
    have hold : RecordPhase.overflowPush (s.records thread) = none := by
      rw [hnow]
      rfl
    simp only [LatencyProbe.proceed, hnow]
    split_ifs
    · exact h.startPush hold event _
    · exact h.goTo hold (.lockRegistration event s.runGeneration) rfl rfl rfl rfl rfl rfl
  | unlockRegistration event slot =>
    have hold : RecordPhase.overflowPush (s.records thread) = none := by
      rw [hnow]
      rfl
    simp only [LatencyProbe.proceed, hnow]
    have hpush := h.startPush hold event slot
    exact ⟨hpush.tickets, hpush.few, hpush.pushing, hpush.threads, hpush.popping, hpush.exporter,
      hpush.published, hpush.popped⟩
  | loadEnabled call =>
    have hold : RecordPhase.overflowPush (s.records thread) = none := by
      rw [hnow]
      rfl
    simp only [LatencyProbe.proceed, hnow]
    exact h.goTo hold (if s.enabled then .loadRunId call else .idle)
      (by split_ifs <;> rfl) rfl rfl rfl rfl rfl
  | lockRegistration event generation =>
    have hold : RecordPhase.overflowPush (s.records thread) = none := by
      rw [hnow]
      rfl
    simp only [LatencyProbe.proceed, hnow]
    cases s.registration with
    | some holder => exact h.congr rfl (fun _ => rfl) rfl rfl rfl
    | none =>
      refine h.goTo hold _ ?_ rfl rfl rfl rfl rfl
      split_ifs <;> rfl
  | countDropped event =>
    have hold : RecordPhase.overflowPush (s.records thread) = none := by
      rw [hnow]
      rfl
    simp only [LatencyProbe.proceed, hnow]
    exact h.goTo hold .idle rfl rfl rfl rfl
      (sentTo_concat_of_ne fun hdestination => by cases hdestination) rfl
  | claimSlot event generation j | loadCount event generation j =>
    have hold : RecordPhase.overflowPush (s.records thread) = none := by
      rw [hnow]
      rfl
    simp only [LatencyProbe.proceed, hnow]
    split_ifs
    all_goals exact h.goTo hold _ rfl rfl rfl rfl rfl rfl
  | loadRunId call | storeCount event generation j | countPending =>
    have hold : RecordPhase.overflowPush (s.records thread) = none := by
      rw [hnow]
      rfl
    simp only [LatencyProbe.proceed, hnow]
    exact h.goTo hold _ rfl rfl rfl rfl rfl rfl

/-! ## Steps of the exporter -/

/-- The exporter looks at the next slot, or calls `try_pop` of the overflow queue. -/
theorem OverflowSound.scanFrom (h : OverflowSound n s)
    (hpops : ExporterPhase.popsOverflow s.exporter = false) (producerCount offset : ℕ) :
    OverflowSound (n + 1) (s.scanFrom producerCount offset) := by
  have hpopping := h.popping
  rw [hpops] at hpopping
  unfold LatencyProbe.scanFrom
  split_ifs
  · exact h.congr rfl (fun _ => rfl) hpops.symm rfl rfl
  · have hcall : s.overflowQueue.step overflowCapacity id (.tryPop overflowExporter) =
        s.overflowQueue.goTo overflowExporter .loadDequeuePos :=
      call_of_resting h.exporter hpopping _
    have hfew : FewOutstanding overflowCapacity s.overflowQueue (.tryPop overflowExporter) :=
      trivial
    have htickets := @ticketsSound_step _ _ id _ _ h.tickets hfew
    have hrest : ∀ thread, (s.overflowQueue.goTo overflowExporter .loadDequeuePos).threads
        (overflowThread thread) = s.overflowQueue.threads (overflowThread thread) :=
      fun thread => Function.update_of_ne (overflowThread_ne_exporter thread)
        QueuePhase.loadDequeuePos s.overflowQueue.threads
    rw [hcall] at htickets ⊢
    constructor
    · exact htickets
    · exact h.few.trans (Nat.le_succ n)
    · intro thread
      exact (congrArg QueuePhase.pushing (hrest thread)).trans (h.pushing thread)
    · intro thread
      exact (congrArg QueuePhase.popping (hrest thread)).trans (h.threads thread)
    · exact congrArg QueuePhase.popping (MpmcRingBuffer.goTo_threads_self _ overflowExporter _)
    · exact congrArg QueuePhase.pushing (MpmcRingBuffer.goTo_threads_self _ overflowExporter _)
    · exact h.published
    · exact h.popped

/-- What is left to show of an access of a pop: where the exporter goes and what it took. -/
theorem OverflowSound.pop (h : OverflowSound n s) {q : MpmcRingBuffer LatencyEvent}
    (htickets : TicketsSound overflowCapacity q)
    (hframe : PopFrame s.overflowQueue q overflowExporter) (hqueue : s'.overflowQueue = q)
    (hrecords : s'.records = s.records) (hpublished : s'.published = s.published)
    (hpushing : QueuePhase.pushing (q.threads overflowExporter) = none)
    (hpopping : QueuePhase.popping (q.threads overflowExporter) =
      ExporterPhase.popsOverflow s'.exporter)
    (hpopped : q.popped.map Prod.snd = valuesAt none s'.taken) : OverflowSound (n + 1) s' where
  tickets := by rwa [hqueue]
  few := by
    rw [hqueue, hframe.enqueuePos]
    exact h.few.trans (Nat.le_succ n)
  pushing thread := by
    rw [hqueue, hframe.others _ (overflowThread_ne_exporter thread), hrecords, h.pushing]
  threads thread := by
    rw [hqueue, hframe.others _ (overflowThread_ne_exporter thread), h.threads]
  popping := by rw [hqueue, hpopping]
  exporter := by rw [hqueue, hpushing]
  published := by rw [hqueue, hframe.published, hpublished, h.published]
  popped := by rw [hqueue, hpopped]

/-- A thread that pops does not push. -/
theorem pushing_of_popping {phase : QueuePhase LatencyEvent}
    (h : QueuePhase.popping phase = true) : QueuePhase.pushing phase = none := by
  cases phase with
  | idle | pushReturned | popReturned | loadDequeuePos | loadPopSequence | casDequeuePos | moveData
  | storePopSequence => rfl
  | loadEnqueuePos | loadPushSequence | casEnqueuePos | writeData | storePushSequence => cases h

/-- At the end of a batch the exporter does not pop. -/
theorem popsOverflow_endBatch (s : LatencyProbe) :
    ExporterPhase.popsOverflow s.endBatch.exporter = false := by
  unfold LatencyProbe.endBatch
  dsimp only
  split_ifs <;> rfl

/-- Behind an event that was taken it does not pop. -/
theorem popsOverflow_takeEvent (s : LatencyProbe) (queue : ProbeQueue) (event : LatencyEvent) :
    ExporterPhase.popsOverflow (s.takeEvent queue event).exporter = false := by
  unfold LatencyProbe.takeEvent
  dsimp only
  split_ifs
  · rfl
  · exact popsOverflow_endBatch _

/-- Taking an event leaves the overflow queue. -/
theorem overflowQueue_takeEvent (s : LatencyProbe) (queue : ProbeQueue) (event : LatencyEvent) :
    (s.takeEvent queue event).overflowQueue = s.overflowQueue := by
  unfold LatencyProbe.takeEvent
  dsimp only
  split_ifs <;> rfl

/-- A pop of the exporter keeps the overflow queue sound. -/
theorem overflowSound_popOverflow (h : OverflowSound n s) (hn : n + overflowCapacity.val < 2 ^ 63)
    (hexporter : s.exporter = .popOverflow) (spurious : Bool) :
    OverflowSound (n + 1) (s.exportNext spurious) := by
  have htickets := ticketsSound_overflow h hn (.proceed overflowExporter spurious)
  have hpopping := h.popping
  rw [hexporter] at hpopping
  obtain ⟨hframe, hstep⟩ := @access_pop _ overflowCapacity id _ s.overflowQueue spurious hpopping
  simp only [LatencyProbe.exportNext, hexporter]
  rcases hstep with ⟨hgoesOn, hpopped⟩ | ⟨pos, event, hreturned, hpopped⟩ | ⟨hreturned, hpopped⟩
  · have hsplit : ∀ result, (s.overflowQueue.step overflowCapacity id
        (.proceed overflowExporter spurious)).threads overflowExporter ≠ .popReturned result := by
      intro result hresult
      change (s.overflowQueue.access overflowCapacity id _ _).threads _ = _ at hresult
      rw [hresult] at hgoesOn
      cases hgoesOn
    split
    next hresult => exact absurd hresult (hsplit _)
    next hresult => exact absurd hresult (hsplit _)
    next =>
      exact h.pop htickets hframe rfl rfl rfl (pushing_of_popping hgoesOn) hgoesOn
        ((congrArg (List.map Prod.snd) hpopped).trans h.popped)
  · have hreturned' : (s.overflowQueue.step overflowCapacity id
        (.proceed overflowExporter spurious)).threads overflowExporter =
          .popReturned (some event) := hreturned
    simp only [hreturned']
    have hended := popEnded_takeEvent { s with
      exporter := .popOverflow
      overflowQueue := s.overflowQueue.step overflowCapacity id
        (.proceed overflowExporter spurious) } none event
    refine h.pop htickets hframe (overflowQueue_takeEvent _ none event) hended.records
      hended.published ?_ ?_ ?_
    · rw [hreturned']
      rfl
    · rw [hreturned', popsOverflow_takeEvent]
      rfl
    · rw [hended.taken]
      refine (congrArg (List.map Prod.snd) hpopped).trans ?_
      rw [valuesAt_concat_self, List.map_append, h.popped]
      rfl
  · have hreturned' : (s.overflowQueue.step overflowCapacity id
        (.proceed overflowExporter spurious)).threads overflowExporter = .popReturned none :=
      hreturned
    simp only [hreturned']
    refine h.pop htickets hframe rfl rfl rfl ?_ ?_
      ((congrArg (List.map Prod.snd) hpopped).trans h.popped)
    · rw [hreturned']
      rfl
    · rw [hreturned', popsOverflow_endBatch]
      rfl

/-- Every access of the exporter keeps it sound. -/
theorem overflowSound_exportNext (h : OverflowSound n s) (hn : n + overflowCapacity.val < 2 ^ 63)
    (spurious : Bool) : OverflowSound (n + 1) (s.exportNext spurious) := by
  cases hnow : s.exporter with
  | popOverflow => exact overflowSound_popOverflow h hn hnow spurious
  | loadCount =>
    simp only [LatencyProbe.exportNext, hnow]
    exact h.scanFrom (by rw [hnow]; rfl) _ 0
  | loadClaimed producerCount offset =>
    have hpops : ExporterPhase.popsOverflow s.exporter = false := by
      rw [hnow]
      rfl
    simp only [LatencyProbe.exportNext, hnow]
    split_ifs
    · exact h.congr rfl (fun _ => rfl) hpops.symm rfl rfl
    · exact h.scanFrom hpops _ _
  | popSlot producerCount offset idx =>
    have hpops : ExporterPhase.popsOverflow s.exporter = false := by
      rw [hnow]
      rfl
    simp only [LatencyProbe.exportNext, hnow]
    split
    next event _ =>
      have hended := popEnded_takeEvent
        (s.setQueue idx ((s.queues idx).step slotCapacity id .consume)) (some idx) event
      refine h.congr (overflowQueue_takeEvent _ (some idx) event)
        (fun thread => by rw [hended.records]; rfl) ?_ (by rw [hended.published]; rfl) ?_
      · rw [hpops]
        exact popsOverflow_takeEvent _ _ _
      · rw [hended.taken]
        exact valuesAt_concat_of_ne fun hsome => by cases hsome
    next =>
      exact OverflowSound.scanFrom (s := s.setQueue idx _)
        ⟨h.tickets, h.few, h.pushing, h.threads, h.popping, h.exporter, h.published, h.popped⟩ hpops
        _ _
    next => exact h.congr rfl (fun _ => rfl) rfl rfl rfl
  | writing =>
    have hpops : ExporterPhase.popsOverflow s.exporter = false := by
      rw [hnow]
      rfl
    simp only [LatencyProbe.exportNext, hnow]
    cases s.batch <;> exact h.congr rfl (fun _ => rfl) hpops.symm rfl rfl
  | loadRunning | loadPending =>
    simp only [LatencyProbe.exportNext, hnow]
    refine h.congr rfl (fun _ => rfl) ?_ rfl rfl
    rw [hnow]
    split_ifs <;> rfl
  | waiting | subtractPending =>
    simp only [LatencyProbe.exportNext, hnow]
    refine h.congr rfl (fun _ => rfl) ?_ rfl rfl
    rw [hnow]
    rfl
  | ended =>
    simp only [LatencyProbe.exportNext, hnow]
    exact h.congr rfl (fun _ => rfl) rfl rfl rfl

/-- Every access of any thread keeps it sound. -/
theorem overflowSound_step (h : OverflowSound n s) (hn : n + overflowCapacity.val < 2 ^ 63)
    (event : ProbeEvent) : OverflowSound (n + 1) (s.step event) := by
  cases event with
  | record thread call =>
    rw [LatencyProbe.step]
    split
    next hidle => exact h.goTo (by rw [hidle]; rfl) (.loadEnabled call) rfl rfl rfl rfl rfl rfl
    next => exact h.congr rfl (fun _ => rfl) rfl rfl rfl
  | proceed thread spurious => exact overflowSound_proceed h hn spurious
  | exportNext spurious => exact overflowSound_exportNext h hn spurious
  | stop =>
    rw [LatencyProbe.step]
    split <;> exact h.congr rfl (fun _ => rfl) rfl rfl rfl

/-- Every popped ticket is a published one and no ticket occurs twice, so what has come out is a
part of what went in. -/
theorem OverflowSound.exists_waiting (h : OverflowSound n s) :
    ∃ waiting, (sentTo s.published none).Perm (valuesAt none s.taken ++ waiting) := by
  have hsub : s.overflowQueue.popped.Subperm s.overflowQueue.published := by
    apply List.subperm_of_subset (List.Nodup.of_map _ h.tickets.popped_nodup)
    exact fun entry hentry => (h.tickets.popped entry hentry).1
  obtain ⟨same, hsame, hsublist⟩ := hsub
  obtain ⟨waiting, hperm⟩ := hsublist.exists_perm_append
  refine ⟨waiting.map Prod.snd, ?_⟩
  rw [← h.published, ← h.popped, ← List.map_append]
  exact (hperm.trans (hsame.append_right waiting)).map Prod.snd

end SpotRelay.Analysis
