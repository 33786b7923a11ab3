import SpotRelay.Analysis.SpscFifo

/-!
# The calls on the two queues, access by access

What an access does to a call that is under way on `SPSCRingBuffer` or `MPMCRingBuffer`: the call
goes on and the queue stands for the same items, or it returns, and the items are those that its
answer says.

* **the queue of two threads**: an access of a pop keeps what the ring stands for, or returns and
  takes its first item away (`standsFor_consume`).
* **the queue of many**: an access of a push keeps the call going, or ends it with its item
  published (`access_push`); for a pop it is the same with the item taken (`access_pop`).
-/

set_option autoImplicit false

namespace SpotRelay.Analysis

open SpotRelay.Model SpotRelay.Library SpotRelay.Library.BoundedQueue

variable {T : Type} {capacity : RingCapacity} {movedFrom : T → T}

/-! ## One producer and one consumer -/

/-- The item of the push that is under way. -/
def ProducerPhase.carried : ProducerPhase T → Option T
  | .loadHead _ item | .reloadTail _ item _ _ | .writeData _ item _ _ | .storeHead item _ _ =>
    some item
  | .idle | .pushReturned _ _ => none

/-- In a `try_pop`. -/
def ConsumerPhase.popping : ConsumerPhase T → Bool
  | .loadTail .value | .reloadHead .value _ | .moveData .value _ | .storeTail .value _ _ => true
  | _ => false

/-- The queue stands for the items. -/
def StandsFor (capacity : RingCapacity) (s : SpscRingBuffer T) (contents : List T) : Prop :=
  ∃ taken, SpscSound capacity s taken contents

variable {s : SpscRingBuffer T} {contents : List T} {item : T}

/-- The contents a ring stands for leave one slot of it free. -/
theorem StandsFor.length_lt (h : StandsFor capacity s contents) :
    contents.length < capacity.val := by
  obtain ⟨taken, hsound⟩ := h
  exact hsound.index.length_lt

/-- A finished call leaves the ring standing for the contents the call on the list gives. -/
theorem standsFor_of_replays {after : SpscRingBuffer T} {call : Call T} {next : List T}
    (h : Simulates capacity contents (some call) after)
    (hcall : ∀ final, Performs (capacity.val - 1) contents call final → final = next) :
    StandsFor capacity after next := by
  obtain ⟨final, ⟨middle, hperforms, hlast⟩, hsound⟩ := h
  obtain rfl : final = middle := hlast
  obtain rfl := hcall final hperforms
  exact hsound

/-- A step that finishes no call leaves the contents as they are. -/
theorem standsFor_of_none {after : SpscRingBuffer T} (h : Simulates capacity contents none after) :
    StandsFor capacity after contents := by
  obtain ⟨final, hreplays, hsound⟩ := h
  obtain rfl : final = contents := hreplays
  exact hsound

/-- A producer that carries no value is between two calls. -/
theorem resting_of_carried (h : ProducerPhase.carried s.producer = none) :
    s.producer.resting = true := by
  cases hphase : s.producer with
  | idle | pushReturned => rfl
  | loadHead | reloadTail | writeData | storeHead =>
    rw [hphase] at h
    cases h

/-- The call of a push where the producer rests. -/
theorem standsFor_tryPush (h : StandsFor capacity s contents) (form : PushForm) (item : T)
    (hrest : ProducerPhase.carried s.producer = none) :
    StandsFor capacity (s.step capacity movedFrom (.tryPush form item)) contents ∧
      (s.step capacity movedFrom (.tryPush form item)).producer = .loadHead form item ∧
      (s.step capacity movedFrom (.tryPush form item)).consumer = s.consumer := by
  obtain ⟨taken, hsound⟩ := h
  refine ⟨standsFor_of_none (simulates_step hsound (.tryPush form item)), ?_, ?_⟩
  · rw [SpscRingBuffer.step, if_pos (resting_of_carried hrest)]
  · rw [SpscRingBuffer.step, if_pos (resting_of_carried hrest)]

/-- The call of a pop where the consumer rests. -/
theorem standsFor_tryPop (h : StandsFor capacity s contents) (hrest : s.consumer.resting = true) :
    StandsFor capacity (s.step capacity movedFrom (.tryPop .value)) contents ∧
      (s.step capacity movedFrom (.tryPop .value)).consumer = .loadTail .value ∧
      (s.step capacity movedFrom (.tryPop .value)).producer = s.producer := by
  obtain ⟨taken, hsound⟩ := h
  refine ⟨standsFor_of_none (simulates_step hsound (.tryPop .value)), ?_, ?_⟩
  · rw [SpscRingBuffer.step, if_pos hrest]
  · rw [SpscRingBuffer.step, if_pos hrest]

/-- The producer's accesses leave the consumer where it was. -/
theorem consumer_produce (s : SpscRingBuffer T) :
    (s.produce capacity movedFrom).consumer = s.consumer := by
  unfold SpscRingBuffer.produce
  cases s.producer with
  | loadHead | reloadTail =>
    dsimp only
    split_ifs <;> rfl
  | idle | writeData | storeHead | pushReturned => rfl

/-- An access of a push. -/
theorem standsFor_produce (h : StandsFor capacity s contents)
    (hcarried : ProducerPhase.carried s.producer = some item) :
    ProducerPhase.carried (s.step capacity movedFrom .produce).producer = some item ∧
        StandsFor capacity (s.step capacity movedFrom .produce) contents ∨
      (∃ left, (s.step capacity movedFrom .produce).producer = .pushReturned true left) ∧
        StandsFor capacity (s.step capacity movedFrom .produce) (contents ++ [item]) ∨
      (∃ left, (s.step capacity movedFrom .produce).producer = .pushReturned false left) ∧
        StandsFor capacity (s.step capacity movedFrom .produce) contents := by
  obtain ⟨taken, hsound⟩ := h
  have hstep := @simulates_produce T capacity movedFrom s taken contents hsound
  cases hphase : s.producer with
  | idle | pushReturned =>
    rw [hphase] at hcarried
    cases hcarried
  | loadHead form other =>
    rw [hphase] at hcarried
    obtain rfl : other = item := Option.some.inj hcarried
    left
    simp only [answer, SpscRingBuffer.step, SpscRingBuffer.produce, hphase] at hstep ⊢
    split_ifs at hstep ⊢ <;> exact ⟨rfl, standsFor_of_none hstep⟩
  | reloadTail form other head nextHead =>
    rw [hphase] at hcarried
    obtain rfl : other = item := Option.some.inj hcarried
    simp only [answer, SpscRingBuffer.step, SpscRingBuffer.produce, hphase] at hstep ⊢
    split_ifs at hstep ⊢ with hfull
    · refine .inr (.inr ⟨⟨_, rfl⟩, standsFor_of_replays hstep ?_⟩)
      intro final hperforms
      cases hperforms
      rfl
    · exact .inl ⟨rfl, standsFor_of_none hstep⟩
  | writeData form other head nextHead =>
    rw [hphase] at hcarried
    obtain rfl : other = item := Option.some.inj hcarried
    simp only [answer, SpscRingBuffer.step, SpscRingBuffer.produce, hphase] at hstep ⊢
    exact .inl ⟨rfl, standsFor_of_none hstep⟩
  | storeHead other left nextHead =>
    rw [hphase] at hcarried
    obtain rfl : other = item := Option.some.inj hcarried
    simp only [answer, SpscRingBuffer.step, SpscRingBuffer.produce, hphase] at hstep ⊢
    refine .inr (.inl ⟨⟨left, rfl⟩, standsFor_of_replays hstep ?_⟩)
    intro final hperforms
    cases hperforms
    rfl

/-- The consumer's accesses leave the producer where it was. -/
theorem producer_consume (s : SpscRingBuffer T) :
    (s.consume capacity movedFrom).producer = s.producer := by
  unfold SpscRingBuffer.consume
  cases s.consumer with
  | loadTail | reloadHead =>
    dsimp only
    split_ifs <;> rfl
  | idle | moveData | storeTail | popReturned | popIntoReturned | loadPeekTail | loadPeekHead
  | peekReturned => rfl

/-- An access of a pop. -/
theorem standsFor_consume (h : StandsFor capacity s contents)
    (hpopping : ConsumerPhase.popping s.consumer = true) :
    ConsumerPhase.popping (s.step capacity movedFrom .consume).consumer = true ∧
        StandsFor capacity (s.step capacity movedFrom .consume) contents ∨
      (∃ item rest, (s.step capacity movedFrom .consume).consumer = .popReturned (some item) ∧
        contents = item :: rest ∧ StandsFor capacity (s.step capacity movedFrom .consume) rest) ∨
      (s.step capacity movedFrom .consume).consumer = .popReturned none ∧
        StandsFor capacity (s.step capacity movedFrom .consume) contents := by
  obtain ⟨taken, hsound⟩ := h
  have hconsumer := hsound.consumer
  have hstep := @simulates_consume T capacity movedFrom s taken contents hsound
  cases hphase : s.consumer with
  | loadTail form =>
    rw [hphase] at hpopping
    obtain rfl : form = .value := by
      cases form with
      | value => rfl
      | into => cases hpopping
    left
    simp only [answer, SpscRingBuffer.step, SpscRingBuffer.consume, hphase] at hstep ⊢
    split_ifs at hstep ⊢ <;> exact ⟨rfl, standsFor_of_none hstep⟩
  | reloadHead form tail =>
    rw [hphase] at hpopping
    obtain rfl : form = .value := by
      cases form with
      | value => rfl
      | into => cases hpopping
    simp only [answer, SpscRingBuffer.step, SpscRingBuffer.consume, hphase] at hstep ⊢
    split_ifs at hstep ⊢ with hempty
    · refine .inr (.inr ⟨rfl, standsFor_of_replays hstep ?_⟩)
      intro final hperforms
      cases hperforms
      rfl
    · exact .inl ⟨rfl, standsFor_of_none hstep⟩
  | moveData form tail =>
    rw [hphase] at hpopping
    obtain rfl : form = .value := by
      cases form with
      | value => rfl
      | into => cases hpopping
    simp only [answer, SpscRingBuffer.step, SpscRingBuffer.consume, hphase] at hstep ⊢
    exact .inl ⟨rfl, standsFor_of_none hstep⟩
  | storeTail form tail data =>
    rw [hphase] at hpopping hconsumer
    obtain rfl : form = .value := by
      cases form with
      | value => rfl
      | into => cases hpopping
    obtain ⟨rest, rfl⟩ := List.head?_eq_some_iff.mp hconsumer.2.2
    simp only [answer, SpscRingBuffer.step, SpscRingBuffer.consume, hphase] at hstep ⊢
    refine .inr (.inl ⟨data, rest, rfl, rfl, standsFor_of_replays hstep ?_⟩)
    intro final hperforms
    cases hperforms
    rfl
  | idle | popReturned | popIntoReturned | loadPeekTail | loadPeekHead | peekReturned =>
    rw [hphase] at hpopping
    cases hpopping

/-! ## Many producers and consumers -/

/-- The item of the push that a thread is in. -/
def QueuePhase.pushing : QueuePhase T → Option T
  | .loadEnqueuePos item | .loadPushSequence item _ | .casEnqueuePos item _ | .writeData item _
  | .storePushSequence item _ => some item
  | _ => none

/-- The thread is in a pop. -/
def QueuePhase.popping : QueuePhase T → Bool
  | .loadDequeuePos | .loadPopSequence _ | .casDequeuePos _ | .moveData _
  | .storePopSequence _ _ => true
  | _ => false

variable {q : MpmcRingBuffer T} {thread : ℕ}

/-- A thread that is in no call may begin any. -/
theorem call_of_resting (hpushing : QueuePhase.pushing (q.threads thread) = none)
    (hpopping : QueuePhase.popping (q.threads thread) = false) (phase : QueuePhase T) :
    q.call thread phase = q.goTo thread phase := by
  unfold MpmcRingBuffer.call
  cases hphase : q.threads thread with
  | idle | pushReturned | popReturned => rfl
  | loadEnqueuePos | loadPushSequence | casEnqueuePos | writeData | storePushSequence =>
    rw [hphase] at hpushing
    cases hpushing
  | loadDequeuePos | loadPopSequence | casDequeuePos | moveData | storePopSequence =>
    rw [hphase] at hpopping
    cases hpopping

/-- A cell is less than a lap and a ticket ahead of the enqueue counter. -/
theorem fewOutstanding_of_few (h : TicketsSound capacity q)
    (hfew : q.enqueuePos + capacity.val < 2 ^ 63) (event : QueueEvent T) :
    FewOutstanding capacity q event := by
  cases event with
  | tryPush | tryPop => trivial
  | proceed thread spurious =>
    intro pos hpos
    obtain ⟨t, -, hahead, -, hsequence⟩ := h.cells pos
    constructor
    · omega
    · rcases hsequence with ⟨hsequence, -⟩ | ⟨hsequence, -⟩ <;> omega

/-- What an access of a push does besides moving the thread on. -/
structure PushFrame (q q' : MpmcRingBuffer T) (thread : ℕ) : Prop where
  others : ∀ other, other ≠ thread → q'.threads other = q.threads other
  popped : q'.popped = q.popped
  enqueuePos : q'.enqueuePos ≤ q.enqueuePos + 1

/-- Moving a thread to another phase is within what an access of a push touches. -/
theorem pushFrame_goTo (q : MpmcRingBuffer T) (thread : ℕ) (phase : QueuePhase T) :
    PushFrame q (q.goTo thread phase) thread :=
  ⟨fun _ hne => Function.update_of_ne hne _ _, rfl, Nat.le_succ _⟩

/-- An access of a push. -/
theorem access_push (h : TicketsSound capacity q) (spurious : Bool)
    (hpushing : QueuePhase.pushing (q.threads thread) = some item) :
    PushFrame q (q.access capacity movedFrom thread spurious) thread ∧
      (QueuePhase.pushing ((q.access capacity movedFrom thread spurious).threads thread) =
            some item ∧
          (q.access capacity movedFrom thread spurious).published = q.published ∨
        (q.access capacity movedFrom thread spurious).threads thread = .pushReturned true ∧
          (∃ pos, (q.access capacity movedFrom thread spurious).published =
            q.published ++ [(pos, item)]) ∨
        (q.access capacity movedFrom thread spurious).threads thread = .pushReturned false ∧
          (q.access capacity movedFrom thread spurious).published = q.published) := by
  have hsound := h.threads thread
  cases hphase : q.threads thread with
  | idle | pushReturned | popReturned | loadDequeuePos | loadPopSequence | casDequeuePos
  | moveData | storePopSequence =>
    rw [hphase] at hpushing
    cases hpushing
  | loadEnqueuePos other =>
    rw [hphase] at hpushing
    obtain rfl : other = item := Option.some.inj hpushing
    simp only [MpmcRingBuffer.access, hphase]
    exact ⟨pushFrame_goTo q thread _, .inl ⟨by rw [MpmcRingBuffer.goTo_threads_self]; rfl, rfl⟩⟩
  | loadPushSequence other pos =>
    rw [hphase] at hpushing
    obtain rfl : other = item := Option.some.inj hpushing
    simp only [MpmcRingBuffer.access, hphase]
    split_ifs
    · exact ⟨pushFrame_goTo q thread _, .inl ⟨by rw [MpmcRingBuffer.goTo_threads_self]; rfl, rfl⟩⟩
    · exact ⟨pushFrame_goTo q thread _, .inr (.inr ⟨MpmcRingBuffer.goTo_threads_self q _ _, rfl⟩)⟩
    · exact ⟨pushFrame_goTo q thread _, .inl ⟨by rw [MpmcRingBuffer.goTo_threads_self]; rfl, rfl⟩⟩
  | casEnqueuePos other pos =>
    rw [hphase] at hpushing hsound
    obtain rfl : other = item := Option.some.inj hpushing
    simp only [MpmcRingBuffer.access, hphase]
    split_ifs
    · refine ⟨⟨fun _ hne => Function.update_of_ne hne _ _, rfl, Nat.succ_le_succ hsound.1⟩,
        .inl ⟨?_, rfl⟩⟩
      show QueuePhase.pushing ((q.goTo thread (.writeData other pos)).threads thread) = some other
      rw [MpmcRingBuffer.goTo_threads_self]
      rfl
    · exact ⟨pushFrame_goTo q thread _, .inl ⟨by rw [MpmcRingBuffer.goTo_threads_self]; rfl, rfl⟩⟩
  | writeData other pos =>
    rw [hphase] at hpushing
    obtain rfl : other = item := Option.some.inj hpushing
    simp only [MpmcRingBuffer.access, hphase]
    refine ⟨⟨fun _ hne => Function.update_of_ne hne _ _, rfl, Nat.le_succ _⟩, .inl ⟨?_, rfl⟩⟩
    show QueuePhase.pushing ((q.goTo thread (.storePushSequence other pos)).threads thread) =
      some other
    rw [MpmcRingBuffer.goTo_threads_self]
    rfl
  | storePushSequence other pos =>
    rw [hphase] at hpushing
    obtain rfl : other = item := Option.some.inj hpushing
    simp only [MpmcRingBuffer.access, hphase]
    exact ⟨⟨fun _ hne => Function.update_of_ne hne _ _, rfl, Nat.le_succ _⟩,
      .inr (.inl ⟨Function.update_self _ _ _, pos, rfl⟩)⟩

/-- What an access of a pop does besides moving the thread on. -/
structure PopFrame (q q' : MpmcRingBuffer T) (thread : ℕ) : Prop where
  others : ∀ other, other ≠ thread → q'.threads other = q.threads other
  published : q'.published = q.published
  enqueuePos : q'.enqueuePos = q.enqueuePos

/-- Moving a thread to another phase is within what an access of a pop touches, too. -/
theorem popFrame_goTo (q : MpmcRingBuffer T) (thread : ℕ) (phase : QueuePhase T) :
    PopFrame q (q.goTo thread phase) thread :=
  ⟨fun _ hne => Function.update_of_ne hne _ _, rfl, rfl⟩

/-- An access of a pop. -/
theorem access_pop (q : MpmcRingBuffer T) (spurious : Bool)
    (hpopping : QueuePhase.popping (q.threads thread) = true) :
    PopFrame q (q.access capacity movedFrom thread spurious) thread ∧
      (QueuePhase.popping ((q.access capacity movedFrom thread spurious).threads thread) = true ∧
          (q.access capacity movedFrom thread spurious).popped = q.popped ∨
        (∃ pos item, (q.access capacity movedFrom thread spurious).threads thread =
            .popReturned (some item) ∧
          (q.access capacity movedFrom thread spurious).popped = q.popped ++ [(pos, item)]) ∨
        (q.access capacity movedFrom thread spurious).threads thread = .popReturned none ∧
          (q.access capacity movedFrom thread spurious).popped = q.popped) := by
  cases hphase : q.threads thread with
  | idle | pushReturned | popReturned | loadEnqueuePos | loadPushSequence | casEnqueuePos
  | writeData | storePushSequence =>
    rw [hphase] at hpopping
    cases hpopping
  | loadDequeuePos =>
    simp only [MpmcRingBuffer.access, hphase]
    exact ⟨popFrame_goTo q thread _, .inl ⟨by rw [MpmcRingBuffer.goTo_threads_self]; rfl, rfl⟩⟩
  | loadPopSequence pos =>
    simp only [MpmcRingBuffer.access, hphase]
    split_ifs
    · exact ⟨popFrame_goTo q thread _, .inl ⟨by rw [MpmcRingBuffer.goTo_threads_self]; rfl, rfl⟩⟩
    · exact ⟨popFrame_goTo q thread _, .inr (.inr ⟨MpmcRingBuffer.goTo_threads_self q _ _, rfl⟩)⟩
    · exact ⟨popFrame_goTo q thread _, .inl ⟨by rw [MpmcRingBuffer.goTo_threads_self]; rfl, rfl⟩⟩
  | casDequeuePos pos =>
    simp only [MpmcRingBuffer.access, hphase]
    split_ifs
    · refine ⟨⟨fun _ hne => Function.update_of_ne hne _ _, rfl, rfl⟩, .inl ⟨?_, rfl⟩⟩
      show QueuePhase.popping ((q.goTo thread (.moveData pos)).threads thread) = true
      rw [MpmcRingBuffer.goTo_threads_self]
      rfl
    · exact ⟨popFrame_goTo q thread _, .inl ⟨by rw [MpmcRingBuffer.goTo_threads_self]; rfl, rfl⟩⟩
  | moveData pos =>
    simp only [MpmcRingBuffer.access, hphase]
    refine ⟨⟨fun _ hne => Function.update_of_ne hne _ _, rfl, rfl⟩, .inl ⟨?_, rfl⟩⟩
    show QueuePhase.popping ((q.goTo thread (.storePopSequence pos _)).threads thread) = true
    rw [MpmcRingBuffer.goTo_threads_self]
    rfl
  | storePopSequence pos data =>
    simp only [MpmcRingBuffer.access, hphase]
    exact ⟨⟨fun _ hne => Function.update_of_ne hne _ _, rfl, rfl⟩,
      .inr (.inl ⟨pos, data, Function.update_self _ _ _, rfl⟩)⟩

end SpotRelay.Analysis
