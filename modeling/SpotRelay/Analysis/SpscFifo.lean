import SpotRelay.Analysis.QueueTickets
import SpotRelay.Library.BoundedQueue
import SpotRelay.Model.SpscRingBuffer

/-!
# The queue of two threads is a bounded queue

The two indices count the items that were pushed and popped, modulo the capacity.  A cached index
is a count that the other thread had reached at some time: since then it has only made more room,
or more items.  So a thread that is let through by its cached index may go on, and one that is not
reloads it and learns the truth.

* **one step** is one call on the bounded queue, or none (`simulates_step`), and the contents are
  those of the calls (`spscSound_run`).
* **a refusal** tells the truth (`full_of_refused_push`, `empty_of_refused_pop`), and no item is
  read while it is written (`not_mayRead_of_writes`).
-/

set_option autoImplicit false

namespace SpotRelay.Analysis

open SpotRelay.Model SpotRelay.Library SpotRelay.Library.BoundedQueue

variable {T : Type}

/-! ## Answers -/

/-- The call that an access of the producer ends. -/
def pushAnswer (before after : ProducerPhase T) : Option (Call T) :=
  match before, after with
  | .reloadTail _ item _ _, .pushReturned pushed _ => some (.push item pushed)
  | .storeHead item _ _, .pushReturned pushed _ => some (.push item pushed)
  | _, _ => none

/-- The call that an access of the consumer ends. -/
def popAnswer (before after : ConsumerPhase T) : Option (Call T) :=
  if before.resting then none
  else match after with
    | .popReturned result => some (.pop result)
    | .popIntoReturned true item => some (.pop (some item))
    | .popIntoReturned false _ => some (.pop none)
    | .peekReturned slot => some (.peek slot.isSome)
    | _ => none

/-- The call that a step ends, with its answer; reading through the pointer of a `peek` counts as
one. -/
def answer (capacity : RingCapacity) (movedFrom : T → T) (s : SpscRingBuffer T) :
    SpscEvent T → Option (Call T)
  | .produce => pushAnswer s.producer (s.produce capacity movedFrom).producer
  | .consume => popAnswer s.consumer (s.consume capacity movedFrom).consumer
  | .readPeeked =>
    match s.consumer with
    | .peekReturned (some slot) => some (.front (s.buffer slot))
    | _ => none
  | .tryPush _ _ | .tryPop _ | .peek => none

/-- A pop that returns reports its result. -/
theorem popAnswer_popReturn {before : ConsumerPhase T} (hbefore : before.resting = false)
    (form : PopForm T) (result : Option T) :
    popAnswer before (SpscRingBuffer.popReturn form result) = some (.pop result) := by
  cases form with
  | value => simp [popAnswer, hbefore, SpscRingBuffer.popReturn]
  | into item => cases result <;> simp [popAnswer, hbefore, SpscRingBuffer.popReturn]

/-! ## Indices -/

variable {capacity : RingCapacity} {movedFrom : T → T} {s : SpscRingBuffer T} {taken : ℕ}
  {contents : List T}

/-- Counts less than a lap apart are equal where their cells are. -/
theorem cell_inj {pos k : ℕ} (hcell : capacity.cell pos = capacity.cell k) (hle : k ≤ pos)
    (hlt : pos < k + capacity.val) : pos = k := by
  by_contra hne
  have hlap := lap_of_cell hcell (by omega : k < pos)
  omega

/-- The cell after a position's cell is the next position's. -/
theorem cell_succ_cell (pos : ℕ) :
    capacity.cell (capacity.cell pos + 1) = capacity.cell (pos + 1) := by
  rw [cell_eq, cell_eq, cell_eq, Nat.mod_add_mod]

/-- `taken` items have come out and `contents` is left. -/
structure IndexSound (capacity : RingCapacity) (s : SpscRingBuffer T) (taken : ℕ)
    (contents : List T) : Prop where
  tail : s.tail = capacity.cell taken
  head : s.head = capacity.cell (taken + contents.length)
  cachedTail : ∃ seen ≤ taken, taken + contents.length < seen + capacity.val ∧
    s.cachedTail = capacity.cell seen
  cachedHead : ∃ seen, taken ≤ seen ∧ seen ≤ taken + contents.length ∧
    s.cachedHead = capacity.cell seen

namespace IndexSound

variable (h : IndexSound capacity s taken contents)

include h

/-- The values between tail and head leave one slot free. -/
theorem length_lt : contents.length < capacity.val := by
  obtain ⟨seen, hseen, hlt, -⟩ := h.cachedTail
  omega

/-- The head after a push points one past the contents. -/
theorem nextHead : capacity.cell (s.head + 1) = capacity.cell (taken + contents.length + 1) := by
  rw [h.head, cell_succ_cell]

/-- The next head index is that of a count that was popped only when the queue is full for it. -/
theorem nextHead_eq_iff {seen : ℕ} (hseen : seen ≤ taken)
    (hlt : taken + contents.length < seen + capacity.val) :
    capacity.cell (s.head + 1) = capacity.cell seen ↔
      taken + contents.length + 1 = seen + capacity.val := by
  rw [h.nextHead]
  constructor
  · intro hcell
    have hlap := lap_of_cell hcell (by omega)
    omega
  · intro heq
    rw [heq, cell_add_val]

/-- A producer that is let through by its cached index has a free slot. -/
theorem room (hroom : capacity.cell (s.head + 1) ≠ s.cachedTail) :
    ∃ seen ≤ taken, taken + contents.length + 1 < seen + capacity.val ∧
      s.cachedTail = capacity.cell seen := by
  obtain ⟨seen, hseen, hlt, hcached⟩ := h.cachedTail
  refine ⟨seen, hseen, ?_, hcached⟩
  rw [hcached, Ne, h.nextHead_eq_iff hseen hlt] at hroom
  omega

/-- A consumer that is let through by its cached index has an item. -/
theorem item (hitem : s.tail ≠ s.cachedHead) :
    ∃ seen, taken + 1 ≤ seen ∧ seen ≤ taken + contents.length ∧
      s.cachedHead = capacity.cell seen := by
  obtain ⟨seen, hseen, hle, hcached⟩ := h.cachedHead
  refine ⟨seen, ?_, hle, hcached⟩
  rw [h.tail, hcached] at hitem
  have hne : taken ≠ seen := fun heq => hitem (congrArg _ heq)
  omega

/-- The indices are equal only when the queue is empty. -/
theorem tail_eq_head_iff : s.tail = s.head ↔ contents = [] := by
  rw [h.tail, h.head]
  constructor
  · intro hcell
    have hlt := h.length_lt
    have hzero := cell_inj hcell.symm (Nat.le_add_right _ _) (by omega)
    exact List.length_eq_zero_iff.mp (by omega)
  · rintro rfl
    rfl

/-- The slot that the producer may write is no slot of an item. -/
theorem head_ne {i : ℕ} (hi : i < contents.length) : s.head ≠ capacity.cell (taken + i) := by
  rw [h.head]
  intro hcell
  have hlt := h.length_lt
  have heq := cell_inj hcell (by omega) (by omega)
  omega

end IndexSound

/-! ## The invariant -/

/-- What the producer knows about its slot. -/
def ProducerSound (capacity : RingCapacity) (s : SpscRingBuffer T) : ProducerPhase T → Prop
  | .reloadTail _ _ head nextHead => head = s.head ∧ nextHead = capacity.cell (s.head + 1)
  | .writeData _ _ head nextHead =>
    head = s.head ∧ nextHead = capacity.cell (s.head + 1) ∧
      capacity.cell (s.head + 1) ≠ s.cachedTail
  | .storeHead item _ nextHead =>
    s.buffer s.head = item ∧ nextHead = capacity.cell (s.head + 1) ∧
      capacity.cell (s.head + 1) ≠ s.cachedTail
  | .idle | .loadHead _ _ | .pushReturned _ _ => True

/-- What the consumer knows about the front item. -/
def ConsumerSound (s : SpscRingBuffer T) (contents : List T) : ConsumerPhase T → Prop
  | .reloadHead _ tail => tail = s.tail
  | .moveData _ tail => tail = s.tail ∧ s.tail ≠ s.cachedHead
  | .storeTail _ tail data =>
    tail = s.tail ∧ s.tail ≠ s.cachedHead ∧ contents.head? = some data
  | .loadPeekHead tail => tail = s.tail
  | .peekReturned (some slot) => slot = s.tail ∧ contents ≠ []
  | .idle | .loadTail _ | .popReturned _ | .popIntoReturned _ _ | .loadPeekTail
  | .peekReturned none => True

/-- The front item is out of its slot and still counted. -/
def ConsumerPhase.moved : ConsumerPhase T → Prop
  | .storeTail _ _ _ => True
  | _ => False

structure SpscSound (capacity : RingCapacity) (s : SpscRingBuffer T) (taken : ℕ)
    (contents : List T) : Prop where
  index : IndexSound capacity s taken contents
  stored : ∀ i item, contents[i]? = some item → (i = 0 → ¬ ConsumerPhase.moved s.consumer) →
    s.buffer (capacity.cell (taken + i)) = item
  producer : ProducerSound capacity s s.producer
  consumer : ConsumerSound s contents s.consumer

/-- An empty ring stands for no values. -/
theorem spscSound_empty [Inhabited T] (capacity : RingCapacity) :
    SpscSound capacity (.empty : SpscRingBuffer T) 0 [] where
  index := {
    tail := (cell_eq capacity 0).symm ▸ (Nat.zero_mod _).symm
    head := (cell_eq capacity 0).symm ▸ (Nat.zero_mod _).symm
    cachedTail := by
      refine ⟨0, le_rfl, ?_, (cell_eq capacity 0).symm ▸ (Nat.zero_mod _).symm⟩
      have hval := two_le_val capacity
      show 0 < 0 + capacity.val
      omega
    cachedHead := ⟨0, le_rfl, le_rfl, (cell_eq capacity 0).symm ▸ (Nat.zero_mod _).symm⟩ }
  stored := by
    intro i item hitem
    cases hitem
  producer := trivial
  consumer := trivial

/-! ## One step -/

/-- The queue answers a step, if it ends a call, and then stands for the state after it. -/
def Simulates (capacity : RingCapacity) (contents : List T) (call : Option (Call T))
    (after : SpscRingBuffer T) : Prop :=
  ∃ next, Replays (capacity.val - 1) contents call.toList next ∧
    ∃ taken, SpscSound capacity after taken next

/-- A step that ends no call. -/
theorem simulates_none {after : SpscRingBuffer T} (h : SpscSound capacity after taken contents) :
    Simulates capacity contents none after :=
  ⟨contents, .nil contents, taken, h⟩

/-- A step that ends one. -/
theorem simulates_some {after : SpscRingBuffer T} {call : Call T} {next : List T}
    (hcall : Performs (capacity.val - 1) contents call next)
    (h : SpscSound capacity after taken next) : Simulates capacity contents (some call) after :=
  ⟨next, .single hcall, taken, h⟩

/-- An access of the producer that only moves it on. -/
theorem SpscSound.withProducer (h : SpscSound capacity s taken contents)
    (phase : ProducerPhase T) (hphase : ProducerSound capacity s phase) :
    SpscSound capacity { s with producer := phase } taken contents :=
  ⟨⟨h.index.tail, h.index.head, h.index.cachedTail, h.index.cachedHead⟩, h.stored, hphase,
    h.consumer⟩

/-- An access of the consumer that only moves it on. -/
theorem SpscSound.withConsumer (h : SpscSound capacity s taken contents)
    {now : ConsumerPhase T} (hnow : s.consumer = now) (hmoved : ¬ ConsumerPhase.moved now)
    (phase : ConsumerPhase T) (hphase : ConsumerSound s contents phase) :
    SpscSound capacity { s with consumer := phase } taken contents := by
  subst hnow
  refine ⟨⟨h.index.tail, h.index.head, h.index.cachedTail, h.index.cachedHead⟩, ?_, h.producer,
    hphase⟩
  intro i item hitem _
  exact h.stored i item hitem fun _ => hmoved

/-- The producer reloads `tail_`; it makes no statement about the old one then. -/
theorem SpscSound.reloadTail (h : SpscSound capacity s taken contents)
    {form : PushForm} {item : T} {head nextHead : ℕ}
    (hphase : s.producer = .reloadTail form item head nextHead) :
    SpscSound capacity { s with cachedTail := s.tail } taken contents := by
  have hlt := h.index.length_lt
  have hproducer := h.producer
  rw [hphase] at hproducer
  refine ⟨⟨h.index.tail, h.index.head, ⟨taken, le_rfl, by omega, h.index.tail⟩,
    h.index.cachedHead⟩, h.stored, ?_, h.consumer⟩
  show ProducerSound capacity _ s.producer
  rw [hphase]
  exact hproducer

/-- The producer writes its slot, which holds no item that is still to come out. -/
theorem SpscSound.writeData (h : SpscSound capacity s taken contents) {item : T}
    {phase : ProducerPhase T}
    (hphase : ProducerSound capacity { s with buffer := Function.update s.buffer s.head item }
      phase) :
    SpscSound capacity
      { s with buffer := Function.update s.buffer s.head item, producer := phase } taken
      contents := by
  refine ⟨⟨h.index.tail, h.index.head, h.index.cachedTail, h.index.cachedHead⟩, ?_, hphase,
    h.consumer⟩
  intro i other hother hmoved
  obtain ⟨hi, -⟩ := List.getElem?_eq_some_iff.mp hother
  show Function.update s.buffer s.head item (capacity.cell (taken + i)) = other
  rw [Function.update_of_ne (h.index.head_ne hi).symm]
  exact h.stored i other hother hmoved

/-- An item behind the others is nothing to the consumer. -/
theorem ConsumerSound.append {phase : ConsumerPhase T} (h : ConsumerSound s contents phase)
    (item : T) : ConsumerSound s (contents ++ [item]) phase := by
  cases phase with
  | storeTail form tail data =>
    obtain ⟨htail, hcached, hfront⟩ := h
    refine ⟨htail, hcached, ?_⟩
    rw [List.head?_append, hfront]
    rfl
  | peekReturned slot =>
    cases slot with
    | none => trivial
    | some slot => exact ⟨h.1, List.append_ne_nil_of_left_ne_nil h.2 _⟩
  | _ => exact h

/-- The producer publishes its slot. -/
theorem SpscSound.storeHead (h : SpscSound capacity s taken contents) {item left : T}
    {nextHead : ℕ} (hphase : s.producer = .storeHead item left nextHead) (pushed : Bool) :
    SpscSound capacity { s with head := nextHead, producer := .pushReturned pushed left } taken
      (contents ++ [item]) := by
  have hproducer := h.producer
  rw [hphase] at hproducer
  obtain ⟨hitem, hnext, hroom⟩ := hproducer
  obtain ⟨seen, hseen, hlt, hcached⟩ := h.index.room hroom
  obtain ⟨later, htaken, hle, hlater⟩ := h.index.cachedHead
  have hlength : (contents ++ [item]).length = contents.length + 1 := List.length_append
  refine ⟨⟨h.index.tail, ?_, ⟨seen, hseen, ?_, hcached⟩, ⟨later, htaken, ?_, hlater⟩⟩, ?_,
    trivial, ?_⟩
  · show nextHead = _
    rw [hnext, h.index.nextHead, hlength]
    rfl
  · omega
  · omega
  · intro i other hother hmoved
    by_cases hi : i < contents.length
    · rw [List.getElem?_append_left hi] at hother
      exact h.stored i other hother hmoved
    · obtain ⟨hlast, hget⟩ := List.getElem?_eq_some_iff.mp hother
      obtain rfl : i = contents.length := by omega
      rw [List.getElem_concat_length rfl] at hget
      show s.buffer (capacity.cell (taken + contents.length)) = other
      rw [← h.index.head, hitem, hget]
  · exact h.consumer.append item

/-- An access of the producer. -/
theorem simulates_produce (h : SpscSound capacity s taken contents) :
    Simulates capacity contents (answer capacity movedFrom s .produce)
      (s.produce capacity movedFrom) := by
  have hproducer := h.producer
  have hlt := h.index.length_lt
  cases hphase : s.producer with
  | idle =>
    simp only [answer, SpscRingBuffer.produce, hphase]
    exact simulates_none h
  | pushReturned pushed left =>
    simp only [answer, SpscRingBuffer.produce, hphase]
    exact simulates_none h
  | loadHead form item =>
    simp only [answer, SpscRingBuffer.produce, hphase]
    split_ifs with hcached
    · exact simulates_none (h.withProducer _ ⟨rfl, rfl⟩)
    · exact simulates_none (h.withProducer _ ⟨rfl, rfl, hcached⟩)
  | reloadTail form item head nextHead =>
    have hreload := h.reloadTail hphase
    rw [hphase] at hproducer
    obtain ⟨rfl, rfl⟩ := hproducer
    simp only [answer, SpscRingBuffer.produce, hphase]
    split_ifs with hfull
    · rw [h.index.tail, h.index.nextHead_eq_iff le_rfl (by omega)] at hfull
      exact simulates_some (.refuse item (by omega)) (hreload.withProducer _ trivial)
    · exact simulates_none (hreload.withProducer _ ⟨rfl, rfl, hfull⟩)
  | writeData form item head nextHead =>
    rw [hphase] at hproducer
    obtain ⟨rfl, rfl, hroom⟩ := hproducer
    simp only [answer, SpscRingBuffer.produce, hphase]
    refine simulates_none (h.writeData ⟨?_, rfl, hroom⟩)
    exact Function.update_self _ _ _
  | storeHead item left nextHead =>
    have hstore := h.storeHead hphase true
    rw [hphase] at hproducer
    obtain ⟨seen, hseen, hroom, -⟩ := h.index.room hproducer.2.2
    simp only [answer, SpscRingBuffer.produce, hphase]
    exact simulates_some (.push item (by omega)) hstore

/-- A consumer between two calls has taken nothing out of the slot. -/
theorem not_moved_of_resting {phase : ConsumerPhase T} (h : phase.resting = true) :
    ¬ ConsumerPhase.moved phase := by
  cases phase with
  | storeTail form tail data => cases h
  | _ => exact id

/-- The consumer reloads `head_`. -/
theorem SpscSound.reloadHead (h : SpscSound capacity s taken contents) {form : PopForm T}
    {tail : ℕ} (hphase : s.consumer = .reloadHead form tail) :
    SpscSound capacity { s with cachedHead := s.head } taken contents := by
  have hconsumer := h.consumer
  rw [hphase] at hconsumer
  refine ⟨⟨h.index.tail, h.index.head, h.index.cachedTail,
    ⟨taken + contents.length, Nat.le_add_right _ _, le_rfl, h.index.head⟩⟩, h.stored, h.producer,
    ?_⟩
  show ConsumerSound _ contents s.consumer
  rw [hphase]
  exact hconsumer

/-- The consumer is at a slot with an item. -/
theorem SpscSound.front (h : SpscSound capacity s taken contents)
    {now : ConsumerPhase T} (hnow : s.consumer = now) (hmoved : ¬ ConsumerPhase.moved now)
    {item : T} {rest : List T} (hcontents : contents = item :: rest) :
    s.buffer s.tail = item := by
  subst hcontents hnow
  rw [h.index.tail]
  exact h.stored 0 item rfl fun _ => hmoved

/-- The slot at `tail_` is not the one that the producer is at. -/
theorem SpscSound.tail_ne_head (h : SpscSound capacity s taken contents)
    (hcontents : contents ≠ []) : s.tail ≠ s.head := by
  rw [Ne, h.index.tail_eq_head_iff]
  exact hcontents

/-- A consumer that is let through by its cached index finds an item. -/
theorem SpscSound.exists_front (h : SpscSound capacity s taken contents)
    (hitem : s.tail ≠ s.cachedHead) : ∃ item rest, contents = item :: rest := by
  obtain ⟨seen, hseen, hle, -⟩ := h.index.item hitem
  apply List.exists_cons_of_length_pos
  omega

/-- The consumer moves the front item out of its slot. -/
theorem SpscSound.moveData (h : SpscSound capacity s taken contents) {form : PopForm T}
    {tail : ℕ} (hphase : s.consumer = .moveData form tail) (left : T) :
    SpscSound capacity
      { s with
        buffer := Function.update s.buffer tail left
        consumer := .storeTail form tail (s.buffer tail) } taken contents := by
  have hconsumer := h.consumer
  rw [hphase] at hconsumer
  obtain ⟨rfl, hcached⟩ := hconsumer
  obtain ⟨item, rest, hcontents⟩ := h.exists_front hcached
  have hne : s.tail ≠ s.head := h.tail_ne_head (by rw [hcontents]; exact List.cons_ne_nil _ _)
  refine ⟨⟨h.index.tail, h.index.head, h.index.cachedTail, h.index.cachedHead⟩, ?_, ?_,
    ⟨rfl, hcached, ?_⟩⟩
  · intro i other hother hmoved
    have hi : i ≠ 0 := fun hzero => hmoved hzero trivial
    obtain ⟨hlength, -⟩ := List.getElem?_eq_some_iff.mp hother
    have hlt := h.index.length_lt
    have hslot : capacity.cell (taken + i) ≠ s.tail := by
      rw [h.index.tail]
      intro hcell
      have heq := cell_inj hcell (by omega) (by omega)
      omega
    show Function.update s.buffer s.tail left (capacity.cell (taken + i)) = other
    rw [Function.update_of_ne hslot]
    exact h.stored i other hother fun _ => by
      rw [hphase]
      exact id
  · have hproducer := h.producer
    show ProducerSound capacity _ s.producer
    cases hproduces : s.producer with
    | storeHead item left nextHead =>
      rw [hproduces] at hproducer
      refine ⟨?_, hproducer.2⟩
      show Function.update s.buffer s.tail _ s.head = _
      rw [Function.update_of_ne hne.symm]
      exact hproducer.1
    | _ =>
      rw [hproduces] at hproducer
      exact hproducer
  · rw [h.front hphase id hcontents, hcontents]
    rfl

/-- The consumer gives its slot back. -/
theorem SpscSound.storeTail {item : T} {rest : List T}
    (h : SpscSound capacity s taken (item :: rest)) {form : PopForm T} {tail : ℕ} {data : T}
    (hphase : s.consumer = .storeTail form tail data) (result : Option T) :
    SpscSound capacity
      { s with
        tail := capacity.cell (tail + 1)
        consumer := SpscRingBuffer.popReturn form result } (taken + 1) rest := by
  have hconsumer := h.consumer
  rw [hphase] at hconsumer
  obtain ⟨rfl, hcached, -⟩ := hconsumer
  obtain ⟨seen, hseen, hle, hhead⟩ := h.index.item hcached
  obtain ⟨earlier, htaken, hlt, htail⟩ := h.index.cachedTail
  rw [List.length_cons] at hle hlt
  refine ⟨⟨?_, ?_, ⟨earlier, by omega, by omega, htail⟩, ⟨seen, hseen, by omega, hhead⟩⟩, ?_,
    h.producer, ?_⟩
  · show capacity.cell (s.tail + 1) = _
    rw [h.index.tail, cell_succ_cell]
  · show s.head = _
    rw [h.index.head, List.length_cons]
    exact congrArg _ (by omega)
  · intro i other hother _
    have hstored := h.stored (i + 1) other hother fun hzero => absurd hzero (Nat.succ_ne_zero i)
    rw [← hstored, Nat.add_assoc, Nat.add_comm 1 i]
  · cases form with
    | value => trivial
    | into target => cases result <;> trivial

/-- A pop that returns knows nothing more of the queue. -/
theorem consumerSound_popReturn (form : PopForm T) (result : Option T) :
    ConsumerSound s contents (SpscRingBuffer.popReturn form result) := by
  cases form with
  | value => trivial
  | into target => cases result <;> trivial

/-- An access of the consumer. -/
theorem simulates_consume (h : SpscSound capacity s taken contents) :
    Simulates capacity contents (answer capacity movedFrom s .consume)
      (s.consume capacity movedFrom) := by
  have hconsumer := h.consumer
  cases hphase : s.consumer with
  | loadTail form =>
    simp only [answer, SpscRingBuffer.consume, hphase]
    split_ifs with hcached
    · exact simulates_none (h.withConsumer hphase id _ rfl)
    · exact simulates_none (h.withConsumer hphase id _ ⟨rfl, hcached⟩)
  | reloadHead form tail =>
    have hreload := h.reloadHead hphase
    rw [hphase] at hconsumer
    obtain rfl : tail = s.tail := hconsumer
    simp only [answer, SpscRingBuffer.consume, hphase]
    split_ifs with hempty
    · rw [popAnswer_popReturn rfl]
      obtain rfl := h.index.tail_eq_head_iff.mp hempty
      exact simulates_some .empty
        (hreload.withConsumer hphase id _ (consumerSound_popReturn form none))
    · exact simulates_none (hreload.withConsumer hphase id _ ⟨rfl, hempty⟩)
  | moveData form tail =>
    have hmove := h.moveData hphase (movedFrom (s.buffer tail))
    simp only [answer, SpscRingBuffer.consume, hphase]
    exact simulates_none hmove
  | storeTail form tail data =>
    rw [hphase] at hconsumer
    obtain ⟨rest, rfl⟩ := List.head?_eq_some_iff.mp hconsumer.2.2
    have hstore := h.storeTail hphase (some data)
    simp only [answer, SpscRingBuffer.consume, hphase]
    rw [popAnswer_popReturn rfl]
    exact simulates_some (.pop data rest) hstore
  | loadPeekTail =>
    simp only [answer, SpscRingBuffer.consume, hphase]
    exact simulates_none (h.withConsumer hphase id _ rfl)
  | loadPeekHead tail =>
    rw [hphase] at hconsumer
    obtain rfl : tail = s.tail := hconsumer
    simp only [answer, SpscRingBuffer.consume, hphase]
    split_ifs with hempty
    · obtain rfl := h.index.tail_eq_head_iff.mp hempty
      exact simulates_some (.peek []) (h.withConsumer hphase id _ trivial)
    · have hcontents : contents ≠ [] := fun hnil => hempty (h.index.tail_eq_head_iff.mpr hnil)
      have hpeek : Performs (capacity.val - 1) contents _ _ := .peek contents
      rw [List.isEmpty_eq_false_iff.mpr hcontents] at hpeek
      exact simulates_some hpeek (h.withConsumer hphase id _ ⟨rfl, hcontents⟩)
  | idle | popReturned result | popIntoReturned popped item | peekReturned slot =>
    simp only [answer, SpscRingBuffer.consume, hphase]
    exact simulates_none h

/-- Every step. -/
theorem simulates_step (h : SpscSound capacity s taken contents) (event : SpscEvent T) :
    Simulates capacity contents (answer capacity movedFrom s event)
      (s.step capacity movedFrom event) := by
  cases event with
  | produce => exact simulates_produce h
  | consume => exact simulates_consume h
  | tryPush form item =>
    refine simulates_none (?_ : SpscSound capacity _ taken contents)
    unfold SpscRingBuffer.step
    dsimp only
    split_ifs
    · exact h.withProducer _ trivial
    · exact h
  | tryPop form =>
    refine simulates_none (?_ : SpscSound capacity _ taken contents)
    unfold SpscRingBuffer.step
    dsimp only
    split_ifs with hresting
    · exact h.withConsumer rfl (not_moved_of_resting hresting) _ trivial
    · exact h
  | peek =>
    refine simulates_none (?_ : SpscSound capacity _ taken contents)
    unfold SpscRingBuffer.step
    dsimp only
    split_ifs with hresting
    · exact h.withConsumer rfl (not_moved_of_resting hresting) _ trivial
    · exact h
  | readPeeked =>
    have hconsumer := h.consumer
    simp only [answer]
    split
    next slot hphase =>
      rw [hphase] at hconsumer
      obtain ⟨rfl, hcontents⟩ := hconsumer
      obtain ⟨item, rest, rfl⟩ := List.exists_cons_of_ne_nil hcontents
      rw [h.front hphase id rfl]
      exact simulates_some (.front item rest) h
    next => exact simulates_none h

/-! ## Runs -/

/-- The calls of a run, in the order in which they end. -/
def spscCalls [Inhabited T] (capacity : RingCapacity) (movedFrom : T → T)
    (events : List (SpscEvent T)) : List (Call T) :=
  Run.emissions (answer capacity movedFrom) (SpscRingBuffer.step capacity movedFrom) .empty events

/-- The slots that may still be read: those of the items from `tail_` on that are not popped, the
one that a pop is about to move from and the one behind the pointer of a `peek`. -/
def MayRead (capacity : RingCapacity) (s : SpscRingBuffer T) (unconsumed slot : ℕ) : Prop :=
  (∃ i < unconsumed, slot = capacity.cell (s.tail + i)) ∨
    (∃ form, s.consumer = .moveData form slot) ∨ s.consumer = .peekReturned (some slot)

/-- Every run leaves the ring sound for the contents its finished calls replay to. -/
theorem spscSound_run [Inhabited T] (capacity : RingCapacity) (movedFrom : T → T)
    (events : List (SpscEvent T)) :
    ∃ contents, Replays (capacity.val - 1) [] (spscCalls capacity movedFrom events) contents ∧
      ∃ taken, SpscSound capacity (runSpsc capacity movedFrom events) taken contents := by
  refine replays_emissions (fun s contents => ∃ taken, SpscSound capacity s taken contents) ?_
    events ⟨0, spscSound_empty capacity⟩
  rintro s contents event ⟨taken, h⟩
  exact simulates_step h event

/-- Cells counted from the tail are cells counted from the number of values taken. -/
theorem cell_tail_add (h : IndexSound capacity s taken contents) (i : ℕ) :
    capacity.cell (s.tail + i) = capacity.cell (taken + i) := by
  rw [h.tail, cell_eq, cell_eq, cell_eq, Nat.mod_add_mod]

/-- The slot that the producer writes may not be read any more. -/
theorem not_mayRead_of_writes (h : SpscSound capacity s taken contents) {form : PushForm}
    {item : T} {head nextHead : ℕ} (hphase : s.producer = .writeData form item head nextHead) :
    ¬ MayRead capacity s contents.length head := by
  have hproducer := h.producer
  rw [hphase] at hproducer
  obtain ⟨rfl, -, -⟩ := hproducer
  have hconsumer := h.consumer
  rintro (⟨i, hi, hslot⟩ | ⟨popForm, hmove⟩ | hpeek)
  · rw [cell_tail_add h.index] at hslot
    exact h.index.head_ne hi hslot
  · rw [hmove] at hconsumer
    obtain ⟨item, rest, hcontents⟩ := h.exists_front hconsumer.2
    exact h.tail_ne_head (by rw [hcontents]; exact List.cons_ne_nil _ _) hconsumer.1.symm
  · rw [hpeek] at hconsumer
    exact h.tail_ne_head hconsumer.2 hconsumer.1.symm

/-- A push is refused where it has reloaded `tail_`, and the queue was full then. -/
theorem full_of_refused_push (h : SpscSound capacity s taken contents) {item : T}
    (hrefused : answer capacity movedFrom s .produce = some (.push item false)) :
    (∃ form head nextHead, s.producer = .reloadTail form item head nextHead) ∧
      contents.length = capacity.val - 1 := by
  constructor
  · simp only [answer, SpscRingBuffer.produce] at hrefused
    cases hphase : s.producer with
    | reloadTail form other head nextHead =>
      simp only [hphase] at hrefused
      split_ifs at hrefused
      · cases hrefused
        exact ⟨form, head, nextHead, rfl⟩
      · cases hrefused
    | loadHead form other =>
      simp only [hphase] at hrefused
      split_ifs at hrefused <;> cases hrefused
    | _ =>
      simp only [hphase] at hrefused
      cases hrefused
  · obtain ⟨next, hcalls, -⟩ := @simulates_produce T capacity movedFrom s taken contents h
    rw [hrefused] at hcalls
    obtain ⟨after, hcall, -⟩ := hcalls
    cases hcall with
    | refuse _ hfull => exact hfull

/-- A pop is refused where it has reloaded `head_`, and the queue was empty then. -/
theorem empty_of_refused_pop (h : SpscSound capacity s taken contents)
    (hrefused : answer capacity movedFrom s .consume = some (.pop none)) :
    (∃ form tail, s.consumer = .reloadHead form tail) ∧ contents = [] := by
  constructor
  · simp only [answer, SpscRingBuffer.consume] at hrefused
    cases hphase : s.consumer with
    | reloadHead form tail => exact ⟨form, tail, rfl⟩
    | storeTail form tail data =>
      simp only [hphase] at hrefused
      rw [popAnswer_popReturn rfl] at hrefused
      cases hrefused
    | loadTail form =>
      simp only [hphase] at hrefused
      split_ifs at hrefused <;> cases hrefused
    | _ =>
      simp only [hphase] at hrefused
      cases hrefused
  · obtain ⟨next, hcalls, -⟩ := @simulates_consume T capacity movedFrom s taken contents h
    rw [hrefused] at hcalls
    obtain ⟨after, hcall, -⟩ := hcalls
    cases hcall with
    | empty => rfl

/-- In every interleaving the calls are answered as by a queue of `Capacity - 1` items: what comes
out is what went in, once and in order, no slot is written that may still be read, and a call is
refused only where the reloaded index shows a full or an empty queue. -/
theorem spsc_is_boundedQueue [Inhabited T] (capacity : RingCapacity) (movedFrom : T → T)
    (events : List (SpscEvent T)) :
    ∃ contents : List T,
      Replays (capacity.val - 1) [] (spscCalls capacity movedFrom events) contents ∧
      pushed (spscCalls capacity movedFrom events) =
        popped (spscCalls capacity movedFrom events) ++ contents ∧
      (∀ form item head nextHead,
        (runSpsc capacity movedFrom events).producer = .writeData form item head nextHead →
        ¬ MayRead capacity (runSpsc capacity movedFrom events) contents.length head) ∧
      (∀ item,
        answer capacity movedFrom (runSpsc capacity movedFrom events) .produce =
          some (.push item false) →
        (∃ form head nextHead, (runSpsc capacity movedFrom events).producer =
          .reloadTail form item head nextHead) ∧ contents.length = capacity.val - 1) ∧
      (answer capacity movedFrom (runSpsc capacity movedFrom events) .consume =
          some (.pop none) →
        (∃ form tail, (runSpsc capacity movedFrom events).consumer = .reloadHead form tail) ∧
          contents = []) := by
  obtain ⟨contents, hreplays, taken, h⟩ := spscSound_run capacity movedFrom events
  refine ⟨contents, hreplays, hreplays.items, ?_, ?_, empty_of_refused_pop h⟩
  · intro form item head nextHead hphase
    exact not_mayRead_of_writes h hphase
  · intro item hrefused
    exact full_of_refused_push h hrefused

/-- With a capacity of 2 there is room for one item. -/
example : spscCalls ⟨1, by decide, by decide⟩ (fun _ => 0)
    ([.tryPush .move 7, .produce, .produce, .produce, .tryPush .copy 8, .produce, .peek, .consume,
      .consume, .readPeeked, .produce, .tryPop .value, .consume, .consume, .consume, .consume] :
      List (SpscEvent ℕ)) =
    [.push 7 true, .peek true, .front 7, .push 8 false, .pop (some 7)] := by decide

end SpotRelay.Analysis
