import SpotRelay.Analysis.ProbeOwners
import SpotRelay.Analysis.QueueCalls
import SpotRelay.Library.KeyedList

/-!
# The slot queues of the probe

A slot's queue stands for what its owner has pushed and the exporter has not popped, in order.  Its
producer is in a push exactly while a thread is, and its consumer in a pop exactly while the exporter
is, so every call finds its end of the queue at rest.

* **a slot's account** is kept by the push of its owner and by the pop of the exporter (`SlotSound`,
  `SlotSound.pop`).
* **one step** keeps it for every slot (`slots_step`).
-/

set_option autoImplicit false

namespace SpotRelay.Analysis

open SpotRelay.Model SpotRelay.Library

/-- What the queues have taken, in order. -/
def accepted (published : List Published) : List (ProbeQueue × LatencyEvent) :=
  published.filterMap fun p => p.destination.map fun queue => (queue, p.event)

/-- What a queue has taken. -/
def sentTo (published : List Published) (queue : ProbeQueue) : List LatencyEvent :=
  valuesAt queue (accepted published)

variable {published : List Published} {taken : List (ProbeQueue × LatencyEvent)}
  {queue other : ProbeQueue} {event : LatencyEvent} {thread : ℕ}

/-- One more event is accepted where a queue has taken it. -/
theorem accepted_concat (published : List Published) (p : Published) :
    accepted (published ++ [p]) =
      accepted published ++ (p.destination.map fun queue => (queue, p.event)).toList := by
  unfold accepted
  rw [List.filterMap_append]
  cases hdestination : p.destination <;> simp [hdestination]

/-- A queue that takes an event has it last. -/
theorem sentTo_concat_self :
    sentTo (published ++ [⟨thread, some queue, event⟩]) queue =
      sentTo published queue ++ [event] := by
  unfold sentTo
  rw [accepted_concat]
  exact valuesAt_concat_self queue _ event

/-- An event that goes elsewhere leaves what the queue has taken. -/
theorem sentTo_concat_of_ne {destination : Option ProbeQueue} (hne : destination ≠ some queue) :
    sentTo (published ++ [⟨thread, destination, event⟩]) queue = sentTo published queue := by
  unfold sentTo
  rw [accepted_concat]
  cases destination with
  | none => exact congrArg (valuesAt queue) (List.append_nil _)
  | some other => exact valuesAt_concat_of_ne fun heq => hne (congrArg some heq)

/-- The exporter is in a pop of the slot. -/
def ExporterPhase.pops : ExporterPhase → ℕ → Bool
  | .popSlot _ _ idx, i => idx = i
  | _, _ => false

structure SlotSound (s : LatencyProbe) (i : ℕ) : Prop where
  contents : ∃ waiting, StandsFor slotCapacity (s.queues i) waiting ∧
    sentTo s.published (some i) = valuesAt (some i) s.taken ++ waiting
  producer : ∀ event, ProducerPhase.carried (s.queues i).producer = some event ↔
    ∃ thread, s.records thread = .pushSlot event i
  popping : ConsumerPhase.popping (s.queues i).consumer = ExporterPhase.pops s.exporter i
  resting : (s.queues i).consumer.resting = !ExporterPhase.pops s.exporter i

/-- Every slot is empty behind `start`. -/
theorem slotSound_started {s : LatencyProbe} (h : s.Started) (i : ℕ) : SlotSound s i := by
  rw [h.fresh]
  refine ⟨⟨[], ⟨0, spscSound_empty slotCapacity⟩, rfl⟩, ?_, rfl, rfl⟩
  intro event
  constructor
  · intro hcarried
    cases hcarried
  · rintro ⟨thread, hpush⟩
    cases hpush

variable {s s' : LatencyProbe} {i : ℕ}

/-- A step that leaves the slot alone. -/
theorem SlotSound.congr (h : SlotSound s i) (hqueue : s'.queues i = s.queues i)
    (hsent : sentTo s'.published (some i) = sentTo s.published (some i))
    (htaken : valuesAt (some i) s'.taken = valuesAt (some i) s.taken)
    (hrecords : ∀ event, (∃ thread, s'.records thread = .pushSlot event i) ↔
      ∃ thread, s.records thread = .pushSlot event i)
    (hpops : ExporterPhase.pops s'.exporter i = ExporterPhase.pops s.exporter i) :
    SlotSound s' i where
  contents := by
    rw [hqueue, hsent, htaken]
    exact h.contents
  producer := by
    intro event
    rw [hqueue, h.producer, hrecords]
  popping := by rw [hqueue, hpops, h.popping]
  resting := by rw [hqueue, hpops, h.resting]

/-- A thread that was in no push of the slot and is in none. -/
theorem pushSlot_goTo {records : ℕ → RecordPhase} {phase : RecordPhase}
    (hold : ∀ event, records thread ≠ .pushSlot event i) (hnew : ∀ event, phase ≠ .pushSlot event i)
    (event : LatencyEvent) :
    (∃ other, Function.update records thread phase other = .pushSlot event i) ↔
      ∃ other, records other = .pushSlot event i := by
  constructor
  · rintro ⟨other, hother⟩
    by_cases heq : other = thread
    · rw [heq, Function.update_self] at hother
      exact absurd hother (hnew event)
    · rw [Function.update_of_ne heq] at hother
      exact ⟨other, hother⟩
  · rintro ⟨other, hother⟩
    refine ⟨other, ?_⟩
    rwa [Function.update_of_ne]
    rintro rfl
    exact hold event hother

/-- Another thread in a push of a slot that the thread owns would own it too. -/
theorem not_pushing_of_owns (h : OwnersSound s)
    (hcache : s.caches thread = ⟨s.runGeneration, some i⟩)
    (hphase : ∀ event, s.records thread ≠ .pushSlot event i) (other : ℕ) (event : LatencyEvent) :
    s.records other ≠ .pushSlot event i := by
  intro hother
  have hphases := h.phases other
  rw [hother] at hphases
  obtain rfl := h.alone thread other i (.inl hcache) (.inl hphases)
  exact hphase event hother

/-- A slot that no thread pushes to carries no event. -/
theorem carried_eq_none (h : SlotSound s i) (hnone : ∀ thread event,
    s.records thread ≠ .pushSlot event i) : ProducerPhase.carried (s.queues i).producer = none := by
  cases hcarried : ProducerPhase.carried (s.queues i).producer with
  | none => rfl
  | some event =>
    obtain ⟨thread, hthread⟩ := (h.producer event).mp hcarried
    exact absurd hthread (hnone thread event)

/-- The owner calls `try_push`. -/
theorem SlotSound.startPush (h : SlotSound s i) (howners : OwnersSound s)
    (hcache : s.caches thread = ⟨s.runGeneration, some i⟩)
    (hphase : ∀ event, s.records thread ≠ .pushSlot event i) (event : LatencyEvent) :
    SlotSound (s.startPush thread event (some i)) i := by
  have hnone := not_pushing_of_owns howners hcache hphase
  obtain ⟨waiting, hstands, hsent⟩ := h.contents
  obtain ⟨hstands', hproducer, hconsumer⟩ :=
    @standsFor_tryPush _ slotCapacity id _ _ hstands .move event (carried_eq_none h hnone)
  have hqueue : (s.startPush thread event (some i)).queues i =
      (s.queues i).step slotCapacity id (.tryPush .move event) := Function.update_self _ _ _
  constructor
  · rw [hqueue]
    exact ⟨waiting, hstands', hsent⟩
  · intro item
    rw [hqueue, hproducer]
    constructor
    · intro hcarried
      obtain rfl : event = item := Option.some.inj hcarried
      exact ⟨thread, LatencyProbe.goTo_records_self s thread _⟩
    · rintro ⟨other, hother⟩
      change Function.update s.records thread (.pushSlot event i) other = .pushSlot item i at hother
      by_cases heq : other = thread
      · rw [heq, Function.update_self] at hother
        cases hother
        rfl
      · rw [Function.update_of_ne heq] at hother
        exact absurd hother (hnone other item)
  · rw [hqueue, hconsumer]
    exact h.popping
  · rw [hqueue, hconsumer]
    exact h.resting

/-- An access of the push that a thread is in, where it goes on. -/
theorem SlotSound.pushOn (h : SlotSound s i) (hthread : s.records thread = .pushSlot event i)
    (hcarried : ProducerPhase.carried
      ((s.queues i).step slotCapacity id .produce).producer = some event)
    (hcontents : ∃ waiting, StandsFor slotCapacity ((s.queues i).step slotCapacity id .produce) waiting ∧
      sentTo s.published (some i) = valuesAt (some i) s.taken ++ waiting) :
    SlotSound (s.setQueue i ((s.queues i).step slotCapacity id .produce)) i := by
  have hqueue : (s.setQueue i ((s.queues i).step slotCapacity id .produce)).queues i =
      (s.queues i).step slotCapacity id .produce := Function.update_self _ _ _
  have hbefore := (h.producer event).mpr ⟨thread, hthread⟩
  have hconsumer : ((s.queues i).step slotCapacity id .produce).consumer = (s.queues i).consumer :=
    consumer_produce (s.queues i)
  constructor
  · rw [hqueue]
    exact hcontents
  · intro item
    rw [hqueue, hcarried, ← hbefore]
    exact h.producer item
  · rw [hqueue, hconsumer]
    exact h.popping
  · rw [hqueue, hconsumer]
    exact h.resting

/-- The last access of a push, behind which the thread goes elsewhere. -/
theorem SlotSound.pushEnd (h : SlotSound s i) (howners : OwnersSound s)
    (hthread : s.records thread = .pushSlot event i) (phase : RecordPhase)
    (hphase : ∀ event, phase ≠ .pushSlot event i)
    (hcarried : ProducerPhase.carried ((s.queues i).step slotCapacity id .produce).producer = none)
    (hqueue : s'.queues i = (s.queues i).step slotCapacity id .produce)
    (hrecords : s'.records = Function.update s.records thread phase)
    (hexporter : s'.exporter = s.exporter)
    (hcontents : ∃ waiting, StandsFor slotCapacity ((s.queues i).step slotCapacity id .produce) waiting ∧
      sentTo s'.published (some i) = valuesAt (some i) s'.taken ++ waiting) : SlotSound s' i := by
  have hconsumer : ((s.queues i).step slotCapacity id .produce).consumer = (s.queues i).consumer :=
    consumer_produce (s.queues i)
  constructor
  · rw [hqueue]
    exact hcontents
  · intro item
    rw [hqueue, hcarried, hrecords]
    constructor
    · intro hnone
      cases hnone
    · rintro ⟨other, hother⟩
      by_cases heq : other = thread
      · rw [heq, Function.update_self] at hother
        exact absurd hother (hphase item)
      · rw [Function.update_of_ne heq] at hother
        have hthreadOwns := howners.phases thread
        have hotherOwns := howners.phases other
        rw [hthread] at hthreadOwns
        rw [hother] at hotherOwns
        exact absurd (howners.alone other thread i (.inl hotherOwns) (.inl hthreadOwns)) heq
  · rw [hqueue, hconsumer, hexporter]
    exact h.popping
  · rw [hqueue, hconsumer, hexporter]
    exact h.resting

/-! ## Steps of a recording thread -/

/-- A thread that was in no push of a slot and is in none. -/
theorem slots_goTo (h : ∀ i, SlotSound s i) {phase : RecordPhase}
    (hold : ∀ event i, s.records thread ≠ .pushSlot event i)
    (hnew : ∀ event i, phase ≠ .pushSlot event i) (hqueues : s'.queues = s.queues)
    (hsent : ∀ i, sentTo s'.published (some i) = sentTo s.published (some i))
    (htaken : s'.taken = s.taken) (hrecords : s'.records = Function.update s.records thread phase)
    (hexporter : s'.exporter = s.exporter) : SlotSound s' i := by
  apply (h i).congr (congrFun hqueues i) (hsent i) (by rw [htaken])
  · rw [hrecords]
    exact pushSlot_goTo (fun event => hold event i) fun event => hnew event i
  · rw [hexporter]

/-- The beginning of a push leaves every slot sound: the slot is the thread's own. -/
theorem slots_startPush (h : ∀ i, SlotSound s i) (howners : OwnersSound s)
    (hold : ∀ event i, s.records thread ≠ .pushSlot event i) (event : LatencyEvent)
    {slot : Option ℕ} (hcache : s.caches thread = ⟨s.runGeneration, slot⟩) (i : ℕ) :
    SlotSound (s.startPush thread event slot) i := by
  cases slot with
  | none =>
    refine slots_goTo h hold (fun _ _ hpush => ?_) rfl (fun _ => rfl) rfl rfl rfl
    cases hpush
  | some j =>
    by_cases heq : i = j
    · rw [heq]
      exact (h j).startPush howners hcache (fun event => hold event j) event
    · refine (h i).congr (Function.update_of_ne heq _ _) rfl rfl ?_ rfl
      refine pushSlot_goTo (fun event => hold event i) fun item hpush => ?_
      cases hpush
      exact heq rfl

/-- An access of a push of slot `j`. -/
theorem slots_pushSlot (h : ∀ i, SlotSound s i) (howners : OwnersSound s) {j : ℕ}
    (hthread : s.records thread = .pushSlot event j) (spurious : Bool) (i : ℕ) :
    SlotSound (s.proceed thread spurious) i := by
  have hother : ∀ event i, i ≠ j → s.records thread ≠ .pushSlot event i := by
    intro item i hne hpush
    rw [hthread] at hpush
    cases hpush
    exact hne rfl
  obtain ⟨waiting, hstands, hsent⟩ := (h j).contents
  have hstep := @standsFor_produce _ slotCapacity id _ _ event hstands
    (((h j).producer event).mpr ⟨thread, hthread⟩)
  simp only [LatencyProbe.proceed, hthread]
  by_cases heq : i = j
  · rw [heq]
    rcases hstep with ⟨hcarried, hnext⟩ | ⟨⟨left, hpushed⟩, hnext⟩ | ⟨⟨left, hpushed⟩, hnext⟩
    · split
      next hreturned =>
        rw [hreturned] at hcarried
        cases hcarried
      next hreturned =>
        rw [hreturned] at hcarried
        cases hcarried
      next => exact (h j).pushOn hthread hcarried ⟨waiting, hnext, hsent⟩
    · simp only [hpushed]
      refine (h j).pushEnd howners hthread .countPending (fun _ hpush => by cases hpush)
        (by rw [hpushed]; rfl) (Function.update_self _ _ _) rfl rfl ⟨waiting ++ [event], hnext, ?_⟩
      show sentTo (s.published ++ [⟨thread, some (some j), event⟩]) (some j) = _
      rw [sentTo_concat_self, hsent, List.append_assoc]
      rfl
    · simp only [hpushed]
      exact (h j).pushEnd howners hthread (.pushOverflow event)
        (fun _ hpush => by cases hpush) (by rw [hpushed]; rfl) (Function.update_self _ _ _) rfl rfl
        ⟨waiting, hnext, hsent⟩
  · split
    · refine (h i).congr (Function.update_of_ne heq _ _) (sentTo_concat_of_ne ?_) rfl ?_ rfl
      · intro hdestination
        exact heq (Option.some.inj (Option.some.inj hdestination)).symm
      · refine pushSlot_goTo (fun item => hother item i heq) fun _ hpush => ?_
        cases hpush
    · refine (h i).congr (Function.update_of_ne heq _ _) rfl rfl ?_ rfl
      refine pushSlot_goTo (fun item => hother item i heq) fun _ hpush => ?_
      cases hpush
    · exact (h i).congr (Function.update_of_ne heq _ _) rfl rfl (fun _ => Iff.rfl) rfl

/-- Every access of a recording thread leaves every slot sound. -/
theorem slots_proceed (h : ∀ i, SlotSound s i) (howners : OwnersSound s) (spurious : Bool)
    (i : ℕ) : SlotSound (s.proceed thread spurious) i := by
  have hphase := howners.phases thread
  cases hnow : s.records thread with
  | pushSlot event slot => exact slots_pushSlot h howners hnow spurious i
  | idle =>
    simp only [LatencyProbe.proceed, hnow]
    exact h i
  | loadEnabled call =>
    simp only [LatencyProbe.proceed, hnow]
    refine slots_goTo h (fun _ _ hpush => ?_) (fun _ _ hpush => ?_) rfl (fun _ => rfl) rfl rfl rfl
    · rw [hnow] at hpush
      cases hpush
    · split_ifs at hpush
  | loadGeneration event =>
    simp only [LatencyProbe.proceed, hnow]
    split_ifs with hcurrent
    · refine slots_startPush h howners ?_ event (by rw [← hcurrent]) i
      intro item j hpush
      rw [hnow] at hpush
      cases hpush
    · refine slots_goTo h (fun _ _ hpush => ?_) (fun _ _ hpush => ?_) rfl (fun _ => rfl) rfl rfl rfl
      · rw [hnow] at hpush
        cases hpush
      · cases hpush
  | lockRegistration event generation =>
    simp only [LatencyProbe.proceed, hnow]
    cases s.registration with
    | some holder => exact h i
    | none =>
      refine slots_goTo h (fun _ _ hpush => ?_) (fun _ _ hpush => ?_) rfl (fun _ => rfl) rfl rfl rfl
      · rw [hnow] at hpush
        cases hpush
      · split_ifs at hpush
  | unlockRegistration event slot =>
    rw [hnow] at hphase
    simp only [LatencyProbe.proceed, hnow]
    refine (slots_startPush h howners ?_ event hphase i).congr rfl rfl rfl (fun _ => Iff.rfl) rfl
    intro item j hpush
    rw [hnow] at hpush
    cases hpush
  | pushOverflow event =>
    have hpushes : ∀ event i, s.records thread ≠ .pushSlot event i := by
      intro item j hpush
      rw [hnow] at hpush
      cases hpush
    simp only [LatencyProbe.proceed, hnow]
    split
    · refine slots_goTo h hpushes (fun _ _ hpush => ?_) rfl (fun j => sentTo_concat_of_ne ?_) rfl rfl
        rfl
      · cases hpush
      · intro hdestination
        cases Option.some.inj hdestination
    · refine slots_goTo h hpushes (fun _ _ hpush => ?_) rfl (fun _ => rfl) rfl rfl rfl
      cases hpush
    · exact (h i).congr rfl rfl rfl (fun _ => Iff.rfl) rfl
  | countDropped event =>
    simp only [LatencyProbe.proceed, hnow]
    refine slots_goTo h (fun _ _ hpush => ?_) (fun _ _ hpush => ?_) rfl
      (fun j => sentTo_concat_of_ne fun hdestination => ?_) rfl rfl rfl
    · rw [hnow] at hpush
      cases hpush
    · cases hpush
    · cases hdestination
  | claimSlot event generation j | loadCount event generation j =>
    simp only [LatencyProbe.proceed, hnow]
    split_ifs
    all_goals
      refine slots_goTo h (fun _ _ hpush => ?_) (fun _ _ hpush => ?_) rfl (fun _ => rfl) rfl rfl rfl
      · rw [hnow] at hpush
        cases hpush
      · cases hpush
  | loadRunId call | storeCount event generation j | countPending =>
    simp only [LatencyProbe.proceed, hnow]
    refine slots_goTo h (fun _ _ hpush => ?_) (fun _ _ hpush => ?_) rfl (fun _ => rfl) rfl rfl rfl
    · rw [hnow] at hpush
      cases hpush
    · cases hpush

/-! ## Steps of the exporter -/

/-- What the exporter does at the end of a pop: it keeps what it found and goes elsewhere. -/
structure PopEnded (s s' : LatencyProbe) (found : List (ProbeQueue × LatencyEvent)) : Prop where
  queues : s'.queues = s.queues
  records : s'.records = s.records
  published : s'.published = s.published
  taken : s'.taken = s.taken ++ found
  pops : ∀ i, ExporterPhase.pops s'.exporter i = false

/-- A scan that begins ends the pop without an event. -/
theorem popEnded_scanFrom (s : LatencyProbe) (producerCount offset : ℕ) :
    PopEnded s (s.scanFrom producerCount offset) [] := by
  unfold LatencyProbe.scanFrom
  split_ifs <;> exact ⟨rfl, rfl, rfl, (List.append_nil _).symm, fun _ => rfl⟩

/-- The end of a batch ends the pop without an event. -/
theorem popEnded_endBatch (s : LatencyProbe) : PopEnded s s.endBatch [] := by
  refine ⟨rfl, rfl, rfl, (List.append_nil _).symm, fun i => ?_⟩
  unfold LatencyProbe.endBatch
  dsimp only
  split_ifs <;> rfl

/-- An event that is taken ends the pop with it. -/
theorem popEnded_takeEvent (s : LatencyProbe) (queue : ProbeQueue) (event : LatencyEvent) :
    PopEnded s (s.takeEvent queue event) [(queue, event)] := by
  unfold LatencyProbe.takeEvent
  dsimp only
  split_ifs
  · exact ⟨rfl, rfl, rfl, rfl, fun _ => rfl⟩
  · have hend := popEnded_endBatch
      { s with batch := s.batch ++ [event], taken := s.taken ++ [(queue, event)] }
    exact ⟨hend.queues, hend.records, hend.published, hend.taken.trans (List.append_nil _),
      hend.pops⟩

/-- The exporter goes on elsewhere where it was in no pop of a slot. -/
theorem PopEnded.slots {found : List (ProbeQueue × LatencyEvent)} (hended : PopEnded s s' found)
    (h : ∀ i, SlotSound s i) (hpops : ∀ i, ExporterPhase.pops s.exporter i = false)
    (hfound : ∀ i, valuesAt (some i) (s.taken ++ found) = valuesAt (some i) s.taken) (i : ℕ) :
    SlotSound s' i := by
  refine (h i).congr (congrFun hended.queues i) (by rw [hended.published]) ?_ ?_ ?_
  · rw [hended.taken, hfound]
  · rw [hended.records]
    exact fun _ => Iff.rfl
  · rw [hpops, hended.pops]

/-- The exporter calls `try_pop` of a slot. -/
theorem SlotSound.startPop (h : SlotSound s i) (hpops : ExporterPhase.pops s.exporter i = false)
    (producerCount offset : ℕ) :
    SlotSound { s.setQueue i ((s.queues i).step slotCapacity id (.tryPop .value)) with
      exporter := .popSlot producerCount offset i } i := by
  obtain ⟨waiting, hstands, hsent⟩ := h.contents
  have hresting : (s.queues i).consumer.resting = true := by
    rw [h.resting, hpops]
    rfl
  obtain ⟨hstands', hconsumer, hproducer⟩ :=
    @standsFor_tryPop _ slotCapacity id _ _ hstands hresting
  have hqueue : Function.update s.queues i ((s.queues i).step slotCapacity id (.tryPop .value)) i =
      (s.queues i).step slotCapacity id (.tryPop .value) := Function.update_self _ _ _
  constructor
  · dsimp only [LatencyProbe.setQueue]
    rw [hqueue]
    exact ⟨waiting, hstands', hsent⟩
  · intro event
    dsimp only [LatencyProbe.setQueue]
    rw [hqueue, hproducer]
    exact h.producer event
  · dsimp only [LatencyProbe.setQueue]
    rw [hqueue, hconsumer]
    exact (decide_eq_true rfl).symm
  · dsimp only [LatencyProbe.setQueue]
    rw [hqueue, hconsumer]
    exact (congrArg (!·) (decide_eq_true rfl)).symm

/-- An access of the pop that the exporter is in. -/
theorem SlotSound.pop (h : SlotSound s i)
    (hqueue : s'.queues i = (s.queues i).step slotCapacity id .consume)
    (hrecords : s'.records = s.records)
    (hpopping : ConsumerPhase.popping ((s.queues i).step slotCapacity id .consume).consumer =
      ExporterPhase.pops s'.exporter i)
    (hresting : ((s.queues i).step slotCapacity id .consume).consumer.resting =
      !ExporterPhase.pops s'.exporter i)
    (hcontents : ∃ waiting, StandsFor slotCapacity ((s.queues i).step slotCapacity id .consume) waiting ∧
      sentTo s'.published (some i) = valuesAt (some i) s'.taken ++ waiting) : SlotSound s' i := by
  have hproducer : ((s.queues i).step slotCapacity id .consume).producer = (s.queues i).producer :=
    producer_consume (s.queues i)
  constructor
  · rw [hqueue]
    exact hcontents
  · intro event
    rw [hqueue, hproducer, hrecords]
    exact h.producer event
  · rw [hqueue, hpopping]
  · rw [hqueue, hresting]

/-- A consumer that pops is not at rest. -/
theorem resting_of_popping {phase : ConsumerPhase LatencyEvent}
    (h : ConsumerPhase.popping phase = true) : phase.resting = false := by
  cases phase with
  | loadTail | reloadHead | moveData | storeTail => rfl
  | idle | popReturned | popIntoReturned | loadPeekTail | loadPeekHead | peekReturned => cases h

/-- A pop of the exporter leaves every slot sound. -/
theorem slots_popSlot (h : ∀ i, SlotSound s i) {producerCount offset idx : ℕ}
    (hexporter : s.exporter = .popSlot producerCount offset idx) (spurious : Bool) (i : ℕ) :
    SlotSound (s.exportNext spurious) i := by
  have hpops : ∀ i, ExporterPhase.pops s.exporter i = decide (idx = i) := by
    intro i
    rw [hexporter]
    rfl
  obtain ⟨waiting, hstands, hsent⟩ := (h idx).contents
  have hpopping := (h idx).popping
  rw [hpops, decide_eq_true rfl] at hpopping
  have hstep := @standsFor_consume _ slotCapacity id _ _ hstands hpopping
  simp only [LatencyProbe.exportNext, hexporter]
  rcases hstep with ⟨hgoesOn, hnext⟩ | ⟨event, rest, hreturned, rfl, hnext⟩ | ⟨hreturned, hnext⟩
  · have hsplit : ∀ result, ((s.queues idx).step slotCapacity id .consume).consumer ≠
        .popReturned result := by
      intro result hresult
      rw [hresult] at hgoesOn
      cases hgoesOn
    split
    next hresult => exact absurd hresult (hsplit _)
    next hresult => exact absurd hresult (hsplit _)
    next =>
      by_cases heq : i = idx
      · rw [heq]
        refine (h idx).pop (Function.update_self _ _ _) rfl ?_ ?_ ⟨waiting, hnext, hsent⟩
        · show _ = ExporterPhase.pops s.exporter idx
          rw [hgoesOn, hpops, decide_eq_true rfl]
        · show _ = !ExporterPhase.pops s.exporter idx
          rw [resting_of_popping hgoesOn, hpops, decide_eq_true rfl]
          rfl
      · exact (h i).congr (Function.update_of_ne heq _ _) rfl rfl (fun _ => Iff.rfl) rfl
  · simp only [hreturned]
    have hended := popEnded_takeEvent
      (s.setQueue idx ((s.queues idx).step slotCapacity id .consume)) (some idx) event
    by_cases heq : i = idx
    · rw [heq]
      refine (h idx).pop ((congrFun hended.queues idx).trans (Function.update_self _ _ _))
        hended.records ?_ ?_ ⟨rest, hnext, ?_⟩
      · rw [hreturned]
        exact (hended.pops idx).symm
      · rw [hreturned]
        exact (congrArg (!·) (hended.pops idx)).symm
      · rw [hended.published, hended.taken]
        show sentTo s.published (some idx) =
          valuesAt (some idx) (s.taken ++ [(some idx, event)]) ++ rest
        rw [valuesAt_concat_self, hsent, List.append_assoc]
        rfl
    · refine (h i).congr ((congrFun hended.queues i).trans (Function.update_of_ne heq _ _)) ?_ ?_ ?_
        ?_
      · exact congrArg (sentTo · (some i)) hended.published
      · refine (congrArg (valuesAt (some i) ·) hended.taken).trans (valuesAt_concat_of_ne ?_)
        exact fun hsome => heq (Option.some.inj hsome).symm
      · rw [hended.records]
        exact fun _ => Iff.rfl
      · rw [hpops, decide_eq_false (Ne.symm heq)]
        exact hended.pops i
  · simp only [hreturned]
    have hended := popEnded_scanFrom
      (s.setQueue idx ((s.queues idx).step slotCapacity id .consume)) producerCount (offset + 1)
    by_cases heq : i = idx
    · rw [heq]
      refine (h idx).pop ((congrFun hended.queues idx).trans (Function.update_self _ _ _))
        hended.records ?_ ?_ ⟨waiting, hnext, ?_⟩
      · rw [hreturned]
        exact (hended.pops idx).symm
      · rw [hreturned]
        exact (congrArg (!·) (hended.pops idx)).symm
      · rw [hended.published, hended.taken, List.append_nil]
        exact hsent
    · refine (h i).congr ((congrFun hended.queues i).trans (Function.update_of_ne heq _ _)) ?_ ?_ ?_
        ?_
      · exact congrArg (sentTo · (some i)) hended.published
      · rw [hended.taken, List.append_nil]
        rfl
      · rw [hended.records]
        exact fun _ => Iff.rfl
      · rw [hpops, decide_eq_false (Ne.symm heq)]
        exact hended.pops i

/-- Every access of the exporter leaves every slot sound. -/
theorem slots_exportNext (h : ∀ i, SlotSound s i) (spurious : Bool) (i : ℕ) :
    SlotSound (s.exportNext spurious) i := by
  cases hnow : s.exporter with
  | popSlot producerCount offset idx => exact slots_popSlot h hnow spurious i
  | loadCount =>
    simp only [LatencyProbe.exportNext, hnow]
    refine (popEnded_scanFrom s _ 0).slots h (fun i => by rw [hnow]; rfl) (fun i => ?_) i
    rw [List.append_nil]
  | loadClaimed producerCount offset =>
    have hpops : ∀ i, ExporterPhase.pops s.exporter i = false := by
      intro i
      rw [hnow]
      rfl
    simp only [LatencyProbe.exportNext, hnow]
    split_ifs
    · by_cases heq : i = (s.producerCursor + offset) % producerCount
      · rw [heq]
        exact (h _).startPop (hpops _) producerCount offset
      · refine (h i).congr (Function.update_of_ne heq _ _) rfl rfl (fun _ => Iff.rfl) ?_
        rw [hpops]
        exact decide_eq_false (Ne.symm heq)
    · refine (popEnded_scanFrom s _ _).slots h hpops (fun i => ?_) i
      rw [List.append_nil]
  | popOverflow =>
    have hpops : ∀ i, ExporterPhase.pops s.exporter i = false := by
      intro i
      rw [hnow]
      rfl
    simp only [LatencyProbe.exportNext, hnow]
    split
    next event _ =>
      refine (popEnded_takeEvent _ none event).slots ?_ (fun _ => rfl) (fun i => ?_) i
      · exact fun i => (h i).congr rfl rfl rfl (fun _ => Iff.rfl) (hpops i).symm
      · exact valuesAt_concat_of_ne fun hnone => by cases hnone
    next =>
      refine (popEnded_endBatch _).slots ?_ (fun _ => rfl) (fun i => ?_) i
      · exact fun i => (h i).congr rfl rfl rfl (fun _ => Iff.rfl) (hpops i).symm
      · rw [List.append_nil]
    next => exact (h i).congr rfl rfl rfl (fun _ => Iff.rfl) (hpops i).symm
  | writing =>
    have hpops : ExporterPhase.pops s.exporter i = false := by
      rw [hnow]
      rfl
    simp only [LatencyProbe.exportNext, hnow]
    cases s.batch <;> exact (h i).congr rfl rfl rfl (fun _ => Iff.rfl) hpops.symm
  | loadRunning | loadPending =>
    simp only [LatencyProbe.exportNext, hnow]
    refine (h i).congr rfl rfl rfl (fun _ => Iff.rfl) ?_
    rw [hnow]
    split_ifs <;> rfl
  | waiting | subtractPending =>
    simp only [LatencyProbe.exportNext, hnow]
    refine (h i).congr rfl rfl rfl (fun _ => Iff.rfl) ?_
    rw [hnow]
    rfl
  | ended =>
    simp only [LatencyProbe.exportNext, hnow]
    exact h i

/-- Every access of any thread leaves every slot sound. -/
theorem slots_step (h : ∀ i, SlotSound s i) (howners : OwnersSound s) (event : ProbeEvent) (i : ℕ) :
    SlotSound (s.step event) i := by
  cases event with
  | record thread call =>
    rw [LatencyProbe.step]
    split
    next hidle =>
      refine slots_goTo h (fun _ _ hpush => ?_) (fun _ _ hpush => ?_) rfl (fun _ => rfl) rfl rfl rfl
      · rw [hidle] at hpush
        cases hpush
      · cases hpush
    next => exact h i
  | proceed thread spurious => exact slots_proceed h howners spurious i
  | exportNext spurious => exact slots_exportNext h spurious i
  | stop =>
    rw [LatencyProbe.step]
    split <;> exact (h i).congr rfl rfl rfl (fun _ => Iff.rfl) rfl

end SpotRelay.Analysis
