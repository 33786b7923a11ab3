import SpotRelay.Analysis.QueueTickets
import SpotRelay.Library.Run

/-!
# What the queue delivers

In every run in which no compared position falls `2 ^ 63` tickets behind, what was pushed leaves at
most once and in the order of the tickets, two threads never use the data of one cell, and a call is
refused only when the queue was full or empty for its ticket.

* **a refusal** says that the queue was full, or empty, for the ticket of the call
  (`full_of_refused`, `empty_of_refused`).
* **a run** with few calls outstanding keeps the tickets sound (`ticketsSound_run`), from which the
  deliveries are read off.
-/

set_option autoImplicit false

namespace SpotRelay.Analysis

open SpotRelay.Model SpotRelay.Library SpotRelay.Library.Run

variable {T : Type} {capacity : RingCapacity} {movedFrom : T → T} {s : MpmcRingBuffer T}
  {thread : ℕ}

/-- Where few calls are outstanding, the tickets are sound in every state of a run. -/
theorem ticketsSound_run [Inhabited T] (events : List (QueueEvent T))
    (hrun : Along (FewOutstanding capacity) (MpmcRingBuffer.step capacity movedFrom) .empty
      events) :
    TicketsSound capacity (runQueue capacity movedFrom events) :=
  invariant (TicketsSound capacity) ticketsSound_step events _ (ticketsSound_empty capacity) hrun

/-! ## Refused calls -/

/-- The answer of a call that is refused. -/
def refusal : QueuePhase T → Prop
  | .pushReturned false | .popReturned none => True
  | _ => False

/-- A call is refused where it loads a sequence number that is behind its position. -/
theorem refusing (phase : QueuePhase T) {spurious : Bool} (hrefusal : refusal phase)
    (hbefore : s.threads thread ≠ phase)
    (hafter : (s.access capacity movedFrom thread spurious).threads thread = phase) :
    (∃ item pos, s.threads thread = .loadPushSequence item pos ∧ phase = .pushReturned false ∧
      SerialNumber.distance 64 (s.sequence (capacity.cell pos)) pos < 0) ∨
    (∃ pos, s.threads thread = .loadPopSequence pos ∧ phase = .popReturned none ∧
      SerialNumber.distance 64 (s.sequence (capacity.cell pos)) (pos + 1) < 0) := by
  subst hafter
  cases hthread : s.threads thread with
  | loadPushSequence item pos =>
    simp only [MpmcRingBuffer.access, hthread] at hrefusal ⊢
    split_ifs at hrefusal ⊢ with hzero hnegative
    · simp [refusal] at hrefusal
    · exact .inl ⟨item, pos, rfl, by simp, hnegative⟩
    · simp [refusal] at hrefusal
  | loadPopSequence pos =>
    simp only [MpmcRingBuffer.access, hthread] at hrefusal ⊢
    split_ifs at hrefusal ⊢ with hzero hnegative
    · simp [refusal] at hrefusal
    · exact .inr ⟨pos, rfl, by simp, hnegative⟩
    · simp [refusal] at hrefusal
  | casEnqueuePos item pos =>
    simp only [MpmcRingBuffer.access, hthread] at hrefusal
    split_ifs at hrefusal <;> simp [refusal] at hrefusal
  | casDequeuePos pos =>
    simp only [MpmcRingBuffer.access, hthread] at hrefusal
    split_ifs at hrefusal <;> simp [refusal] at hrefusal
  | idle => simp [MpmcRingBuffer.access, hthread] at hbefore
  | pushReturned pushed => simp [MpmcRingBuffer.access, hthread] at hbefore
  | popReturned result => simp [MpmcRingBuffer.access, hthread] at hbefore
  | _ => simp [MpmcRingBuffer.access, hthread, refusal] at hrefusal

/-- The cell of a refused push still belongs to the ticket a lap earlier. -/
theorem full_of_refused (h : TicketsSound capacity s) {spurious : Bool}
    (hfew : FewOutstanding capacity s (.proceed thread spurious))
    (hbefore : s.threads thread ≠ .pushReturned false)
    (hafter : (s.access capacity movedFrom thread spurious).threads thread = .pushReturned false) :
    ∃ item pos, s.threads thread = .loadPushSequence item pos ∧ capacity.val ≤ pos ∧
      pos - capacity.val ∉ s.popped.map Prod.fst := by
  rcases refusing (.pushReturned false) trivial hbefore hafter with
    ⟨item, pos, hthread, -, hnegative⟩ | ⟨_, _, hother, _⟩
  case inr => cases hother
  have hle := phaseSound_of_taken h hthread
  obtain ⟨-, hsequence⟩ := hfew pos (by rw [hthread]; rfl)
  rw [push_distance h hle hsequence] at hnegative
  have hbehind : s.sequence (capacity.cell pos) < pos := by omega
  have hlap : capacity.val ≤ pos := by
    obtain ⟨t, hcell, -, -, hstate⟩ := h.cells pos
    have hearlier := lap_of_cell hcell.symm (by omega : t < pos)
    omega
  refine ⟨item, pos, hthread, hlap, ?_⟩
  intro hpopped
  obtain ⟨entry, hentry, hticket⟩ := List.mem_map.mp hpopped
  have hreleased := (h.popped entry hentry).2.2
  have hcell : capacity.cell entry.1 = capacity.cell pos := by
    rw [hticket, cell_eq, cell_eq, ← Nat.mod_eq_sub_mod hlap]
  rw [hcell] at hreleased
  omega

/-- A pop that is refused found its slot unpublished. -/
theorem empty_of_refused (h : TicketsSound capacity s) {spurious : Bool}
    (hfew : FewOutstanding capacity s (.proceed thread spurious))
    (hbefore : s.threads thread ≠ .popReturned none)
    (hafter : (s.access capacity movedFrom thread spurious).threads thread = .popReturned none) :
    ∃ pos, s.threads thread = .loadPopSequence pos ∧ pos ∉ s.published.map Prod.fst := by
  rcases refusing (.popReturned none) trivial hbefore hafter with
    ⟨_, _, _, hother, _⟩ | ⟨pos, hthread, -, hnegative⟩
  case inl => cases hother
  have hle := phaseSound_of_taken h hthread
  obtain ⟨-, hsequence⟩ := hfew pos (by rw [hthread]; rfl)
  rw [pop_distance h hle hsequence] at hnegative
  refine ⟨pos, hthread, ?_⟩
  intro hpublished
  obtain ⟨entry, hentry, rfl⟩ := List.mem_map.mp hpublished
  have hreached := (h.published entry hentry).2
  omega

/-! ## The queue -/

/-- What the callers of the queue rely on. -/
structure QueueDelivers (capacity : RingCapacity) (movedFrom : T → T) (s : MpmcRingBuffer T) :
    Prop where
  /-- An item that was popped was pushed with the same ticket, and no ticket serves twice. -/
  popped_pushed : s.popped ⊆ s.published
  pushed_once : (s.published.map Prod.fst).Nodup
  popped_once : (s.popped.map Prod.fst).Nodup
  /-- Tickets are taken in their order. -/
  enqueue_order : s.enqueueTickets = List.range s.enqueuePos
  dequeue_order : s.dequeueTickets = List.range s.dequeuePos
  /-- From its ticket to its store of the sequence number a thread has the cell for itself. -/
  exclusive : ∀ thread other ticket ticket', thread ≠ other →
    takenTicket (s.threads thread) = some ticket → takenTicket (s.threads other) = some ticket' →
    capacity.cell ticket.2 ≠ capacity.cell ticket'.2
  refused_push : ∀ thread spurious, FewOutstanding capacity s (.proceed thread spurious) →
    s.threads thread ≠ .pushReturned false →
    (s.access capacity movedFrom thread spurious).threads thread = .pushReturned false →
    ∃ item pos, s.threads thread = .loadPushSequence item pos ∧ capacity.val ≤ pos ∧
      pos - capacity.val ∉ s.popped.map Prod.fst
  refused_pop : ∀ thread spurious, FewOutstanding capacity s (.proceed thread spurious) →
    s.threads thread ≠ .popReturned none →
    (s.access capacity movedFrom thread spurious).threads thread = .popReturned none →
    ∃ pos, s.threads thread = .loadPopSequence pos ∧ pos ∉ s.published.map Prod.fst

/-- Where few calls are outstanding, what is pushed leaves at most once and in the order of the
tickets, no two threads use the data of one cell, and a call is refused only when the queue was full
or empty for its ticket. -/
theorem queue_delivers [Inhabited T] (events : List (QueueEvent T))
    (hrun : Along (FewOutstanding capacity) (MpmcRingBuffer.step capacity movedFrom) .empty
      events) :
    QueueDelivers capacity movedFrom (runQueue capacity movedFrom events) := by
  have h := ticketsSound_run events hrun
  constructor
  · intro entry hentry
    exact (h.popped entry hentry).1
  · exact h.published_nodup
  · exact h.popped_nodup
  · exact h.enqueueTickets
  · exact h.dequeueTickets
  · intro thread other ticket ticket' hne htaken htaken'
    exact watched_cell_ne h htaken' hne (watchedTicket_of_taken htaken)
  · intro thread spurious hfew hbefore hafter
    exact full_of_refused h hfew hbefore hafter
  · intro thread spurious hfew hbefore hafter
    exact empty_of_refused h hfew hbefore hafter

def twoCells : RingCapacity where
  log := 1
  log_pos := by decide
  log_le := by decide

/-- Two producers race for the first ticket, a third finds the queue full, and a consumer takes the
first item. -/
def racingPushes : List (QueueEvent ℕ) :=
  let proceed thread : QueueEvent ℕ := .proceed thread false
  [.tryPush 0 70, .tryPush 1 71, proceed 0, proceed 1, proceed 0, proceed 1,
    .proceed 0 true, proceed 0, proceed 0, proceed 1, proceed 1, proceed 1,
    .tryPush 2 72, proceed 2, proceed 2,
    .tryPop 3, proceed 3, proceed 1, proceed 1, proceed 3,
    proceed 0, proceed 0, .tryPop 3, proceed 3, proceed 3, proceed 3, proceed 3, proceed 3]

/-- Two racing pushes on two cells, both delivered in the order of their tickets. -/
theorem queue_delivers_racing_pushes :
    let s := runQueue twoCells id racingPushes
    QueueDelivers twoCells id s ∧ s.published = [(1, 71), (0, 70)] ∧ s.popped = [(0, 70)] ∧
      s.threads 2 = .pushReturned false := by
  have hruns : (runQueue twoCells id racingPushes).published = [(1, 71), (0, 70)] ∧
      (runQueue twoCells id racingPushes).popped = [(0, 70)] ∧
      (runQueue twoCells id racingPushes).threads 2 = .pushReturned false := by
    decide +kernel
  exact ⟨queue_delivers racingPushes (by decide +kernel), hruns⟩

end SpotRelay.Analysis
