import Mathlib.Data.List.Range
import Mathlib.Tactic.Linarith
import SpotRelay.Model.RingBuffer

/-!
# The tickets of the queue

A cell serves the tickets that agree with it modulo the capacity, one after the other.  Its sequence
number is the ticket while it waits for a push, and one more while it waits for a pop.  A thread
that has taken a ticket is alone with its cell, because the sequence number says so and no other
thread can take the same ticket.

* **the wrapped difference** that a call compares is the real one while few tickets are outstanding
  (`push_distance`, `pop_distance`).
* **one step** then keeps every cell with its tickets (`ticketsSound_step`).
-/

set_option autoImplicit false

namespace SpotRelay.Analysis

open SpotRelay.Model SpotRelay.Library

variable {T : Type}

/-! ## Cells -/

section Cells

variable (capacity : RingCapacity)

/-- The queue has at least two cells. -/
theorem two_le_val : 2 ≤ capacity.val :=
  Nat.le_self_pow (Nat.one_le_iff_ne_zero.mp capacity.log_pos) 2

/-- The capacity is at most half the range of a ticket. -/
theorem val_le : capacity.val ≤ 2 ^ 63 := Nat.pow_le_pow_right (by norm_num) capacity.log_le

/-- The mask takes the remainder by the capacity. -/
theorem cell_eq (pos : ℕ) : capacity.cell pos = pos % capacity.val :=
  SerialNumber.word_land_mask (capacity.log_le.trans (by norm_num)) pos

/-- A pop releases its cell for the push one capacity later. -/
theorem add_mask_add_one (pos : ℕ) : pos + capacity.mask + 1 = pos + capacity.val := by
  have hval := two_le_val capacity
  rw [RingCapacity.mask]
  omega

/-- A cell comes round again after a lap. -/
theorem cell_add_val (pos : ℕ) : capacity.cell (pos + capacity.val) = capacity.cell pos := by
  rw [cell_eq, cell_eq, Nat.add_mod_right]

variable {capacity}

/-- A ticket that waits for a push and one that waits for a pop are not in one cell. -/
theorem ne_succ_of_cell {pos k : ℕ} (hcell : capacity.cell pos = capacity.cell k) :
    pos ≠ k + 1 := by
  rintro rfl
  rw [cell_eq, cell_eq] at hcell
  have hdvd := (Nat.modEq_iff_dvd' (Nat.le_succ k)).mp hcell.symm
  rw [Nat.succ_eq_add_one, Nat.add_sub_cancel_left, Nat.dvd_one] at hdvd
  have hval := two_le_val capacity
  omega

/-- A later ticket of a cell is at least a lap ahead. -/
theorem lap_of_cell {pos k : ℕ} (hcell : capacity.cell pos = capacity.cell k) (hlt : k < pos) :
    k + capacity.val ≤ pos := by
  rw [cell_eq, cell_eq] at hcell
  have hle := Nat.le_of_dvd (by omega) ((Nat.modEq_iff_dvd' hlt.le).mp hcell.symm)
  omega

end Cells

/-! ## The invariant -/

/-- The ticket that a thread has taken, and whether it is a ticket to push. -/
def takenTicket : QueuePhase T → Option (Bool × ℕ)
  | .writeData _ pos | .storePushSequence _ pos => some (true, pos)
  | .moveData pos | .storePopSequence pos _ => some (false, pos)
  | _ => none

/-- The cell is at a ticket that is at most a lap from the next push, and no pop has passed it. -/
def CellSound (capacity : RingCapacity) (s : MpmcRingBuffer T) (i : ℕ) : Prop :=
  ∃ t, capacity.cell t = i ∧ t < s.enqueuePos + capacity.val ∧ s.enqueuePos ≤ t + capacity.val ∧
    (s.sequence i = t ∧ s.dequeuePos ≤ t ∨ s.sequence i = t + 1 ∧ t < s.enqueuePos)

/-- What a thread knows about its position and its cell. -/
def PhaseSound (capacity : RingCapacity) (s : MpmcRingBuffer T) : QueuePhase T → Prop
  | .loadPushSequence _ pos => pos ≤ s.enqueuePos
  | .casEnqueuePos _ pos =>
    pos ≤ s.enqueuePos ∧ (pos = s.enqueuePos → s.sequence (capacity.cell pos) = pos)
  | .writeData _ pos => pos < s.enqueuePos ∧ s.sequence (capacity.cell pos) = pos
  | .storePushSequence item pos =>
    pos < s.enqueuePos ∧ s.sequence (capacity.cell pos) = pos ∧ s.data (capacity.cell pos) = item
  | .loadPopSequence pos => pos ≤ s.dequeuePos
  | .casDequeuePos pos =>
    pos ≤ s.dequeuePos ∧ (pos = s.dequeuePos → s.sequence (capacity.cell pos) = pos + 1)
  | .moveData pos =>
    pos < s.dequeuePos ∧ s.sequence (capacity.cell pos) = pos + 1 ∧
      (pos, s.data (capacity.cell pos)) ∈ s.published
  | .storePopSequence pos data =>
    pos < s.dequeuePos ∧ s.sequence (capacity.cell pos) = pos + 1 ∧ (pos, data) ∈ s.published
  | .idle | .loadEnqueuePos _ | .pushReturned _ | .loadDequeuePos | .popReturned _ => True

structure TicketsSound (capacity : RingCapacity) (s : MpmcRingBuffer T) : Prop where
  cells : ∀ pos, CellSound capacity s (capacity.cell pos)
  dequeue_le : s.dequeuePos ≤ s.enqueuePos
  threads : ∀ thread, PhaseSound capacity s (s.threads thread)
  alone : ∀ thread other ticket, takenTicket (s.threads thread) = some ticket →
    takenTicket (s.threads other) = some ticket → thread = other
  enqueueTickets : s.enqueueTickets = List.range s.enqueuePos
  dequeueTickets : s.dequeueTickets = List.range s.dequeuePos
  published : ∀ entry ∈ s.published,
    entry.1 < s.enqueuePos ∧ entry.1 + 1 ≤ s.sequence (capacity.cell entry.1)
  popped : ∀ entry ∈ s.popped, entry ∈ s.published ∧ entry.1 < s.dequeuePos ∧
    entry.1 + capacity.val ≤ s.sequence (capacity.cell entry.1)
  published_nodup : (s.published.map Prod.fst).Nodup
  popped_nodup : (s.popped.map Prod.fst).Nodup
  /-- What lies in a cell that waits for a pop. -/
  stored : ∀ t, s.dequeuePos ≤ t → t < s.enqueuePos → s.sequence (capacity.cell t) = t + 1 →
    (t, s.data (capacity.cell t)) ∈ s.published

/-! ## Watched cells -/

variable {capacity : RingCapacity} {s s' : MpmcRingBuffer T} {thread : ℕ} {phase : QueuePhase T}

/-- The ticket whose cell a thread relies on: its own, or the next one while it tries to take it. -/
def watchedTicket (s : MpmcRingBuffer T) : QueuePhase T → Option (Bool × ℕ)
  | .casEnqueuePos _ pos => if pos = s.enqueuePos then some (true, pos) else none
  | .casDequeuePos pos => if pos = s.dequeuePos then some (false, pos) else none
  | phase => takenTicket phase

/-- The sequence number at which a cell waits for the ticket. -/
def waitsAt (ticket : Bool × ℕ) : ℕ := if ticket.1 then ticket.2 else ticket.2 + 1

/-- The cell of a watched ticket has the number that the ticket waits for. -/
theorem sequence_of_watched (h : PhaseSound capacity s phase) {ticket : Bool × ℕ}
    (hwatched : watchedTicket s phase = some ticket) :
    s.sequence (capacity.cell ticket.2) = waitsAt ticket := by
  cases phase with
  | casEnqueuePos item pos =>
    simp only [watchedTicket] at hwatched
    split_ifs at hwatched with hnext
    cases hwatched
    exact h.2 hnext
  | casDequeuePos pos =>
    simp only [watchedTicket] at hwatched
    split_ifs at hwatched with hnext
    cases hwatched
    exact h.2 hnext
  | writeData item pos =>
    cases hwatched
    exact h.2
  | storePushSequence item pos =>
    cases hwatched
    exact h.2.1
  | moveData pos =>
    cases hwatched
    exact h.2.1
  | storePopSequence pos data =>
    cases hwatched
    exact h.2.1
  | _ => cases hwatched

/-- A thread watches the ticket that it has taken. -/
theorem watchedTicket_of_taken {ticket : Bool × ℕ} (htaken : takenTicket phase = some ticket) :
    watchedTicket s phase = some ticket := by
  cases phase <;> first | exact htaken | cases htaken

/-- A taken ticket is behind its position. -/
theorem taken_lt (h : PhaseSound capacity s phase) {ticket : Bool × ℕ}
    (htaken : takenTicket phase = some ticket) :
    ticket.2 < if ticket.1 then s.enqueuePos else s.dequeuePos := by
  cases phase <;> cases htaken <;> exact h.1

/-- What a thread knows outlives the steps of the others that leave its cell alone. -/
theorem phaseSound_frame (h : PhaseSound capacity s phase)
    (henqueue : s.enqueuePos ≤ s'.enqueuePos) (hdequeue : s.dequeuePos ≤ s'.dequeuePos)
    (hpublished : s.published ⊆ s'.published)
    (hcells : ∀ ticket, watchedTicket s phase = some ticket →
      s'.sequence (capacity.cell ticket.2) = s.sequence (capacity.cell ticket.2) ∧
        s'.data (capacity.cell ticket.2) = s.data (capacity.cell ticket.2)) :
    PhaseSound capacity s' phase := by
  cases phase with
  | loadPushSequence item pos => exact h.trans henqueue
  | loadPopSequence pos => exact h.trans hdequeue
  | casEnqueuePos item pos =>
    refine ⟨h.1.trans henqueue, fun hnext => ?_⟩
    -- a position that is the next ticket was so before
    have hwas : pos = s.enqueuePos := le_antisymm h.1 (henqueue.trans_eq hnext.symm)
    rw [(hcells (true, pos) (if_pos hwas)).1]
    exact h.2 hwas
  | casDequeuePos pos =>
    refine ⟨h.1.trans hdequeue, fun hnext => ?_⟩
    have hwas : pos = s.dequeuePos := le_antisymm h.1 (hdequeue.trans_eq hnext.symm)
    rw [(hcells (false, pos) (if_pos hwas)).1]
    exact h.2 hwas
  | writeData item pos =>
    obtain ⟨hsequence, -⟩ := hcells (true, pos) rfl
    exact ⟨h.1.trans_le henqueue, hsequence.trans h.2⟩
  | storePushSequence item pos =>
    obtain ⟨hsequence, hdata⟩ := hcells (true, pos) rfl
    exact ⟨h.1.trans_le henqueue, hsequence.trans h.2.1, hdata.trans h.2.2⟩
  | moveData pos =>
    obtain ⟨hsequence, hdata⟩ := hcells (false, pos) rfl
    refine ⟨h.1.trans_le hdequeue, hsequence.trans h.2.1, ?_⟩
    rw [hdata]
    exact hpublished h.2.2
  | storePopSequence pos data =>
    obtain ⟨hsequence, -⟩ := hcells (false, pos) rfl
    exact ⟨h.1.trans_le hdequeue, hsequence.trans h.2.1, hpublished h.2.2⟩
  | _ => exact trivial

/-! ## One thread moves -/

/-- After a step of one thread the phases are sound if its own is and the others still are. -/
theorem phaseSound_update (hthreads : s'.threads = Function.update s.threads thread phase)
    (hnew : PhaseSound capacity s' phase)
    (hother : ∀ other ≠ thread, PhaseSound capacity s' (s.threads other)) :
    ∀ other, PhaseSound capacity s' (s'.threads other) := by
  rw [hthreads, Function.forall_update_iff s.threads fun _ phase => PhaseSound capacity s' phase]
  exact ⟨hnew, hother⟩

/-- A ticket that no other thread has stays so when it is taken or kept. -/
theorem alone_update (h : TicketsSound capacity s)
    (hnew : ∀ ticket, takenTicket phase = some ticket →
      ∀ other ≠ thread, takenTicket (s.threads other) ≠ some ticket) :
    ∀ first second ticket,
      takenTicket (Function.update s.threads thread phase first) = some ticket →
      takenTicket (Function.update s.threads thread phase second) = some ticket →
      first = second := by
  intro first second ticket hfirst hsecond
  by_cases hf : first = thread
  · by_cases hs : second = thread
    · rw [hf, hs]
    · rw [hf, Function.update_self] at hfirst
      rw [Function.update_of_ne hs] at hsecond
      exact absurd hsecond (hnew ticket hfirst second hs)
  · rw [Function.update_of_ne hf] at hfirst
    by_cases hs : second = thread
    · rw [hs, Function.update_self] at hsecond
      exact absurd hfirst (hnew ticket hsecond first hf)
    · rw [Function.update_of_ne hs] at hsecond
      exact h.alone first second ticket hfirst hsecond

/-- A thread that keeps its ticket keeps it for itself. -/
theorem keeps_ticket (h : TicketsSound capacity s)
    (hkeep : takenTicket phase = none ∨ takenTicket phase = takenTicket (s.threads thread)) :
    ∀ ticket, takenTicket phase = some ticket →
      ∀ other ≠ thread, takenTicket (s.threads other) ≠ some ticket := by
  intro ticket hticket other hother htaken
  rcases hkeep with hnone | hsame
  · rw [hnone] at hticket
    cases hticket
  · rw [hsame] at hticket
    exact hother (h.alone other thread ticket htaken hticket)

/-- A step that changes nothing but the thread itself. -/
theorem TicketsSound.goTo (h : TicketsSound capacity s) (hphase : PhaseSound capacity s phase)
    (hfree : takenTicket phase = none) : TicketsSound capacity (s.goTo thread phase) where
  cells := h.cells
  dequeue_le := h.dequeue_le
  threads := phaseSound_update rfl hphase fun other _ => h.threads other
  alone := alone_update h (keeps_ticket h (.inl hfree))
  enqueueTickets := h.enqueueTickets
  dequeueTickets := h.dequeueTickets
  published := h.published
  popped := h.popped
  published_nodup := h.published_nodup
  popped_nodup := h.popped_nodup
  stored := h.stored

/-- The phase of a thread is sound where all tickets are. -/
theorem phaseSound_of_taken (h : TicketsSound capacity s) (hthread : s.threads thread = phase) :
    PhaseSound capacity s phase := hthread ▸ h.threads thread

/-! ## A ticket is taken -/

/-- The exchange that takes a push ticket keeps the tickets sound. -/
theorem TicketsSound.takePush (h : TicketsSound capacity s) {item : T} {pos : ℕ}
    (hthread : s.threads thread = .casEnqueuePos item pos) (hpos : pos = s.enqueuePos) :
    TicketsSound capacity
      { s.goTo thread (.writeData item pos) with
        enqueuePos := pos + 1
        enqueueTickets := s.enqueueTickets ++ [pos] } := by
  have hval := two_le_val capacity
  obtain ⟨-, hsequence⟩ := phaseSound_of_taken h hthread
  have hseq := hsequence hpos
  have hnew : ∀ ticket, takenTicket (.writeData item pos) = some ticket →
      ∀ other ≠ thread, takenTicket (s.threads other) ≠ some ticket := by
    rintro ticket ⟨⟩ other - htaken
    exact (taken_lt (h.threads other) htaken).ne hpos
  subst hpos
  constructor
  case cells =>
    intro other
    obtain ⟨t, hcell, hlt, hlap, hstate⟩ := h.cells other
    refine ⟨t, hcell, by simp only; omega, ?_, ?_⟩
    · -- the cell of the ticket was not a lap behind it
      simp only
      by_contra hbehind
      have hnext : s.enqueuePos = t + capacity.val := by omega
      rw [hnext, cell_add_val, hcell] at hseq
      rcases hstate with ⟨hstate, -⟩ | ⟨hstate, -⟩ <;> omega
    · rcases hstate with hstate | ⟨hstate, hbelow⟩
      · exact .inl hstate
      · exact .inr ⟨hstate, by simp only; omega⟩
  case dequeue_le => exact h.dequeue_le.trans (Nat.le_succ _)
  case threads =>
    exact phaseSound_update rfl ⟨Nat.lt_succ_self _, hseq⟩ fun other _ =>
      phaseSound_frame (h.threads other) (Nat.le_succ _) le_rfl (List.Subset.refl _)
        fun _ _ => ⟨rfl, rfl⟩
  case alone => exact alone_update h hnew
  case enqueueTickets => simp only [h.enqueueTickets, List.range_succ]
  case dequeueTickets => exact h.dequeueTickets
  case published =>
    intro entry hentry
    obtain ⟨hlt, hreached⟩ := h.published entry hentry
    exact ⟨hlt.trans (Nat.lt_succ_self _), hreached⟩
  case popped => exact h.popped
  case published_nodup => exact h.published_nodup
  case popped_nodup => exact h.popped_nodup
  case stored =>
    intro t hle hlt hwaits
    rcases Nat.lt_succ_iff_lt_or_eq.mp hlt with hbelow | rfl
    · exact h.stored t hle hbelow hwaits
    · have hclash : s.enqueuePos = s.enqueuePos + 1 := hseq.symm.trans hwaits
      omega

/-- The exchange that takes a pop ticket keeps the tickets sound. -/
theorem TicketsSound.takePop (h : TicketsSound capacity s) {pos : ℕ}
    (hthread : s.threads thread = .casDequeuePos pos) (hpos : pos = s.dequeuePos) :
    TicketsSound capacity
      { s.goTo thread (.moveData pos) with
        dequeuePos := pos + 1
        dequeueTickets := s.dequeueTickets ++ [pos] } := by
  obtain ⟨-, hsequence⟩ := phaseSound_of_taken h hthread
  have hseq := hsequence hpos
  have hnew : ∀ ticket, takenTicket (.moveData pos : QueuePhase T) = some ticket →
      ∀ other ≠ thread, takenTicket (s.threads other) ≠ some ticket := by
    rintro ticket ⟨⟩ other - htaken
    exact (taken_lt (h.threads other) htaken).ne hpos
  subst hpos
  -- the popped ticket was pushed
  have hbelow : s.dequeuePos < s.enqueuePos := by
    obtain ⟨t, hcell, -, -, hstate⟩ := h.cells s.dequeuePos
    rcases hstate with ⟨hstate, -⟩ | ⟨hstate, hlt⟩
    · exact absurd (hstate.symm.trans hseq) (ne_succ_of_cell hcell)
    · omega
  constructor
  case cells =>
    intro other
    obtain ⟨t, hcell, hlt, hlap, hstate⟩ := h.cells other
    refine ⟨t, hcell, hlt, hlap, ?_⟩
    rcases hstate with ⟨hstate, hle⟩ | hstate
    · refine .inl ⟨hstate, ?_⟩
      have hne : t ≠ s.dequeuePos := by
        rintro rfl
        rw [← hcell, hseq] at hstate
        omega
      simp only
      omega
    · exact .inr hstate
  case dequeue_le => exact hbelow
  case threads =>
    exact phaseSound_update rfl
      ⟨Nat.lt_succ_self _, hseq, h.stored s.dequeuePos le_rfl hbelow hseq⟩ fun other _ =>
        phaseSound_frame (h.threads other) le_rfl (Nat.le_succ _) (List.Subset.refl _)
          fun _ _ => ⟨rfl, rfl⟩
  case alone => exact alone_update h hnew
  case enqueueTickets => exact h.enqueueTickets
  case dequeueTickets => simp only [h.dequeueTickets, List.range_succ]
  case published => exact h.published
  case popped =>
    intro entry hentry
    obtain ⟨hpublished, hlt, hreleased⟩ := h.popped entry hentry
    exact ⟨hpublished, hlt.trans (Nat.lt_succ_self _), hreleased⟩
  case published_nodup => exact h.published_nodup
  case popped_nodup => exact h.popped_nodup
  case stored =>
    intro t hle hlt hwaits
    exact h.stored t ((Nat.le_succ _).trans hle) hlt hwaits

/-! ## A cell is written or emptied -/

/-- Nobody else relies on the cell of a thread with a ticket. -/
theorem watched_cell_ne (h : TicketsSound capacity s) {ticket watched : Bool × ℕ} {other : ℕ}
    (htaken : takenTicket (s.threads thread) = some ticket) (hother : other ≠ thread)
    (hwatched : watchedTicket s (s.threads other) = some watched) :
    capacity.cell watched.2 ≠ capacity.cell ticket.2 := by
  intro hcell
  have hseq := sequence_of_watched (h.threads thread) (watchedTicket_of_taken htaken)
  have hseq' := sequence_of_watched (h.threads other) hwatched
  rw [hcell, hseq] at hseq'
  obtain ⟨kind, k⟩ := ticket
  obtain ⟨kind', k'⟩ := watched
  have hsame : kind = kind' ∧ k = k' := by
    cases kind <;> cases kind' <;>
      simp only [waitsAt, if_true, if_false, Bool.false_eq_true] at hseq'
    · exact ⟨rfl, by omega⟩
    · exact absurd hseq'.symm (ne_succ_of_cell hcell)
    · exact absurd hseq' (ne_succ_of_cell hcell.symm)
    · exact ⟨rfl, hseq'⟩
  obtain ⟨rfl, rfl⟩ := hsame
  have hlt := taken_lt (h.threads thread) htaken
  -- a watched ticket is either taken, or the next one to be taken
  cases hphase : s.threads other <;> rw [hphase] at hwatched
  case casEnqueuePos =>
    simp only [watchedTicket] at hwatched
    split_ifs at hwatched with hnext
    cases hwatched
    exact hlt.ne hnext
  case casDequeuePos =>
    simp only [watchedTicket] at hwatched
    split_ifs at hwatched with hnext
    cases hwatched
    exact hlt.ne hnext
  all_goals exact hother (h.alone other thread _ (by rw [hphase]; exact hwatched) htaken)

/-- A thread changes the cell of its ticket. -/
theorem threads_of_cell (h : TicketsSound capacity s) {ticket : Bool × ℕ}
    (htaken : takenTicket (s.threads thread) = some ticket)
    (hthreads : s'.threads = Function.update s.threads thread phase)
    (hphase : PhaseSound capacity s' phase) (henqueue : s'.enqueuePos = s.enqueuePos)
    (hdequeue : s'.dequeuePos = s.dequeuePos) (hpublished : s.published ⊆ s'.published)
    (hcells : ∀ i ≠ capacity.cell ticket.2,
      s'.sequence i = s.sequence i ∧ s'.data i = s.data i) :
    ∀ other, PhaseSound capacity s' (s'.threads other) :=
  phaseSound_update hthreads hphase fun other hother =>
    phaseSound_frame (h.threads other) henqueue.ge hdequeue.ge hpublished fun _ hwatched =>
      hcells _ (watched_cell_ne h htaken hother hwatched)

/-- The data of a cell changes while a thread has its ticket. -/
theorem TicketsSound.setData (h : TicketsSound capacity s) {ticket : Bool × ℕ} {item : T}
    (htaken : takenTicket (s.threads thread) = some ticket)
    (hkeep : takenTicket phase = some ticket)
    (hphase : PhaseSound capacity
      { s.goTo thread phase with
        data := Function.update s.data (capacity.cell ticket.2) item } phase) :
    TicketsSound capacity
      { s.goTo thread phase with
        data := Function.update s.data (capacity.cell ticket.2) item } where
  cells := h.cells
  dequeue_le := h.dequeue_le
  threads := threads_of_cell h htaken rfl hphase rfl rfl (List.Subset.refl _) fun i hi =>
    ⟨rfl, Function.update_of_ne hi item s.data⟩
  alone := alone_update h (keeps_ticket h (.inr (hkeep.trans htaken.symm)))
  enqueueTickets := h.enqueueTickets
  dequeueTickets := h.dequeueTickets
  published := h.published
  popped := h.popped
  published_nodup := h.published_nodup
  popped_nodup := h.popped_nodup
  stored := by
    intro t hle hlt hwaits
    have hseq := sequence_of_watched (h.threads thread) (watchedTicket_of_taken htaken)
    have htakenLt := taken_lt (h.threads thread) htaken
    have hother : capacity.cell t ≠ capacity.cell ticket.2 := by
      intro hcell
      change s.sequence (capacity.cell t) = t + 1 at hwaits
      change s.dequeuePos ≤ t at hle
      rw [hcell, hseq] at hwaits
      obtain ⟨kind, k⟩ := ticket
      cases kind <;> simp only [waitsAt, if_true, if_false, Bool.false_eq_true] at hwaits htakenLt
      · omega
      · exact ne_succ_of_cell hcell.symm hwaits
    simp only [Function.update_of_ne hother]
    exact h.stored t hle hlt hwaits

/-- A ticket that is new leaves every ticket listed once. -/
theorem nodup_tickets_concat {entries : List (ℕ × T)} {pos : ℕ} {item : T}
    (hnodup : (entries.map Prod.fst).Nodup) (hnew : ∀ entry ∈ entries, entry.1 ≠ pos) :
    ((entries ++ [(pos, item)]).map Prod.fst).Nodup := by
  rw [List.map_append, List.nodup_append]
  refine ⟨hnodup, List.pairwise_singleton _ _, ?_⟩
  intro k hk k' hk'
  obtain ⟨entry, hentry, rfl⟩ := List.mem_map.mp hk
  rw [List.mem_singleton.mp hk']
  exact hnew entry hentry

/-- The store that publishes an item keeps the tickets sound. -/
theorem TicketsSound.publish (h : TicketsSound capacity s) {item : T} {pos : ℕ}
    (hthread : s.threads thread = .storePushSequence item pos) :
    TicketsSound capacity
      { s.goTo thread (.pushReturned true) with
        sequence := Function.update s.sequence (capacity.cell pos) (pos + 1)
        published := s.published ++ [(pos, item)] } := by
  obtain ⟨hbelow, hseq, hdata⟩ := phaseSound_of_taken h hthread
  have htaken : takenTicket (s.threads thread) = some (true, pos) := by rw [hthread]; rfl
  have hgrows : s.sequence ≤ Function.update s.sequence (capacity.cell pos) (pos + 1) :=
    le_update_self_iff.mpr (hseq.trans_le (Nat.le_succ pos))
  constructor
  case cells =>
    intro other
    obtain ⟨t, hcell, hlt, hlap, hstate⟩ := h.cells other
    refine ⟨t, hcell, hlt, hlap, ?_⟩
    by_cases hsame : capacity.cell other = capacity.cell pos
    · rw [hsame, hseq] at hstate
      simp only [hsame, Function.update_self]
      rcases hstate with ⟨rfl, -⟩ | ⟨hstate, -⟩
      · exact .inr ⟨rfl, hbelow⟩
      · exact absurd hstate (ne_succ_of_cell (hsame.symm.trans hcell.symm))
    · simp only [Function.update_of_ne hsame]
      exact hstate
  case dequeue_le => exact h.dequeue_le
  case threads =>
    exact threads_of_cell h htaken rfl trivial rfl rfl (List.subset_append_left _ _) fun i hi =>
      ⟨Function.update_of_ne hi (pos + 1) s.sequence, rfl⟩
  case alone => exact alone_update h (keeps_ticket h (.inl rfl))
  case enqueueTickets => exact h.enqueueTickets
  case dequeueTickets => exact h.dequeueTickets
  case published =>
    intro entry hentry
    rcases List.mem_append.mp hentry with hold | hnew
    · obtain ⟨hlt, hreached⟩ := h.published entry hold
      exact ⟨hlt, hreached.trans (hgrows _)⟩
    · rw [List.mem_singleton.mp hnew]
      exact ⟨hbelow, (Function.update_self (capacity.cell pos) (pos + 1) s.sequence).ge⟩
  case popped =>
    intro entry hentry
    obtain ⟨hpublished, hlt, hreleased⟩ := h.popped entry hentry
    exact ⟨List.mem_append_left _ hpublished, hlt, hreleased.trans (hgrows _)⟩
  case published_nodup =>
    refine nodup_tickets_concat h.published_nodup ?_
    rintro entry hentry rfl
    have hreached := (h.published entry hentry).2
    omega
  case popped_nodup => exact h.popped_nodup
  case stored =>
    intro t hle hlt hwaits
    by_cases hsame : capacity.cell t = capacity.cell pos
    · simp only [hsame, Function.update_self] at hwaits
      have ht : t = pos := by omega
      rw [ht]
      change (pos, s.data (capacity.cell pos)) ∈ s.published ++ [(pos, item)]
      rw [hdata]
      exact List.mem_append_right _ (List.mem_singleton_self _)
    · simp only [Function.update_of_ne hsame] at hwaits
      exact List.mem_append_left _ (h.stored t hle hlt hwaits)

/-- The store that releases a cell keeps the tickets sound. -/
theorem TicketsSound.release (h : TicketsSound capacity s) {pos : ℕ} {data : T}
    (hthread : s.threads thread = .storePopSequence pos data) :
    TicketsSound capacity
      { s.goTo thread (.popReturned (some data)) with
        sequence := Function.update s.sequence (capacity.cell pos) (pos + capacity.mask + 1)
        popped := s.popped ++ [(pos, data)] } := by
  have hval := two_le_val capacity
  rw [add_mask_add_one]
  obtain ⟨hbelow, hseq, hpublished⟩ := phaseSound_of_taken h hthread
  have htaken : takenTicket (s.threads thread) = some (false, pos) := by rw [hthread]; rfl
  have hgrows : s.sequence ≤
      Function.update s.sequence (capacity.cell pos) (pos + capacity.val) := by
    apply le_update_self_iff.mpr
    rw [hseq]
    omega
  constructor
  case cells =>
    intro other
    obtain ⟨t, hcell, hlt, hlap, hstate⟩ := h.cells other
    by_cases hsame : capacity.cell other = capacity.cell pos
    · rw [hsame, hseq] at hstate
      have ht : t = pos := by
        rcases hstate with ⟨hstate, -⟩ | ⟨hstate, -⟩
        · exact absurd hstate.symm (ne_succ_of_cell (hcell.trans hsame))
        · omega
      have hle := h.dequeue_le
      -- the cell goes on to its next ticket
      have hnext := (cell_add_val capacity pos).trans hsame.symm
      refine ⟨pos + capacity.val, hnext, ?_, ?_, .inl ⟨?_, ?_⟩⟩
      · exact Nat.add_lt_add_right (hbelow.trans_le hle) _
      · rw [ht] at hlap
        exact hlap.trans (Nat.le_add_right _ _)
      · simp only [hsame, Function.update_self]
      · rw [ht] at hlap
        exact hle.trans hlap
    · refine ⟨t, hcell, hlt, hlap, ?_⟩
      simp only [Function.update_of_ne hsame]
      exact hstate
  case dequeue_le => exact h.dequeue_le
  case threads =>
    exact threads_of_cell h htaken rfl trivial rfl rfl (List.Subset.refl _) fun i hi =>
      ⟨Function.update_of_ne hi (pos + capacity.val) s.sequence, rfl⟩
  case alone => exact alone_update h (keeps_ticket h (.inl rfl))
  case enqueueTickets => exact h.enqueueTickets
  case dequeueTickets => exact h.dequeueTickets
  case published =>
    intro entry hentry
    obtain ⟨hlt, hreached⟩ := h.published entry hentry
    exact ⟨hlt, hreached.trans (hgrows _)⟩
  case popped =>
    intro entry hentry
    rcases List.mem_append.mp hentry with hold | hnew
    · obtain ⟨hmem, hlt, hreleased⟩ := h.popped entry hold
      exact ⟨hmem, hlt, hreleased.trans (hgrows _)⟩
    · rw [List.mem_singleton.mp hnew]
      exact ⟨hpublished, hbelow,
        (Function.update_self (capacity.cell pos) (pos + capacity.val) s.sequence).ge⟩
  case published_nodup => exact h.published_nodup
  case popped_nodup =>
    refine nodup_tickets_concat h.popped_nodup ?_
    rintro entry hentry rfl
    have hreleased := (h.popped entry hentry).2.2
    omega
  case stored =>
    intro t hle hlt hwaits
    by_cases hsame : capacity.cell t = capacity.cell pos
    · simp only [hsame, Function.update_self] at hwaits
      exact absurd hwaits (ne_succ_of_cell ((cell_add_val capacity pos).trans hsame.symm))
    · simp only [Function.update_of_ne hsame] at hwaits
      exact h.stored t hle hlt hwaits

/-! ## One step -/

/-- The position that the next access of a thread compares. -/
def comparedPosition : QueuePhase T → Option ℕ
  | .loadPushSequence _ pos | .casEnqueuePos _ pos | .loadPopSequence pos | .casDequeuePos pos =>
    some pos
  | _ => none

/-- The position that a thread compares is fewer than `2 ^ 63` tickets behind. -/
def FewOutstanding (capacity : RingCapacity) (s : MpmcRingBuffer T) : QueueEvent T → Prop
  | .proceed thread _ => ∀ pos ∈ comparedPosition (s.threads thread),
      s.enqueuePos < pos + 2 ^ 63 ∧ s.sequence (capacity.cell pos) < pos + 2 ^ 63
  | .tryPush _ _ | .tryPop _ => True

instance (capacity : RingCapacity) (s : MpmcRingBuffer T) (event : QueueEvent T) :
    Decidable (FewOutstanding capacity s event) := by
  cases event <;> unfold FewOutstanding <;> infer_instance

/-- The cell of a ticket below the enqueue counter is at most a lap behind. -/
theorem CellSound.bounds {pos : ℕ} (h : CellSound capacity s (capacity.cell pos)) :
    s.enqueuePos ≤ s.sequence (capacity.cell pos) + capacity.val := by
  obtain ⟨t, -, -, hlap, hseq⟩ := h
  rcases hseq with ⟨hseq, -⟩ | ⟨hseq, -⟩
  · omega
  · omega

/-- The wrapped difference of a push is the real one while few tickets are outstanding. -/
theorem push_distance (h : TicketsSound capacity s) {pos : ℕ} (hle : pos ≤ s.enqueuePos)
    (hfew : s.sequence (capacity.cell pos) < pos + 2 ^ 63) :
    SerialNumber.distance 64 (s.sequence (capacity.cell pos)) pos =
      (s.sequence (capacity.cell pos) : ℤ) - pos := by
  have hlap := (h.cells pos).bounds
  have hval := val_le capacity
  apply SerialNumber.distance_eq <;> omega

/-- The wrapped difference of a pop is the real one while few tickets are outstanding. -/
theorem pop_distance (h : TicketsSound capacity s) {pos : ℕ} (hle : pos ≤ s.dequeuePos)
    (hfew : s.sequence (capacity.cell pos) < pos + 2 ^ 63) :
    SerialNumber.distance 64 (s.sequence (capacity.cell pos)) (pos + 1) =
      (s.sequence (capacity.cell pos) : ℤ) - (pos + 1 : ℕ) := by
  have hval := val_le capacity
  have hcounters := h.dequeue_le
  obtain ⟨t, -, -, hlap, hstate⟩ := h.cells pos
  apply SerialNumber.distance_eq <;> omega

variable {movedFrom : T → T}

/-- Every access keeps the tickets sound while few of them are outstanding. -/
theorem ticketsSound_access (h : TicketsSound capacity s) (spurious : Bool)
    (hfew : FewOutstanding capacity s (.proceed thread spurious)) :
    TicketsSound capacity (s.access capacity movedFrom thread spurious) := by
  have hphase := h.threads thread
  have hval := two_le_val capacity
  cases hthread : s.threads thread with
  | idle => simpa only [MpmcRingBuffer.access, hthread] using h
  | pushReturned pushed => simpa only [MpmcRingBuffer.access, hthread] using h
  | popReturned result => simpa only [MpmcRingBuffer.access, hthread] using h
  | loadEnqueuePos item =>
    simp only [MpmcRingBuffer.access, hthread]
    exact h.goTo le_rfl rfl
  | loadDequeuePos =>
    simp only [MpmcRingBuffer.access, hthread]
    exact h.goTo le_rfl rfl
  | loadPushSequence item pos =>
    rw [hthread] at hphase
    obtain ⟨-, hsequence⟩ := hfew pos (by rw [hthread]; rfl)
    simp only [MpmcRingBuffer.access, hthread, push_distance h hphase hsequence]
    split_ifs with hzero hnegative
    · exact h.goTo ⟨hphase, fun _ => by omega⟩ rfl
    · exact h.goTo trivial rfl
    · exact h.goTo trivial rfl
  | loadPopSequence pos =>
    rw [hthread] at hphase
    obtain ⟨-, hsequence⟩ := hfew pos (by rw [hthread]; rfl)
    simp only [MpmcRingBuffer.access, hthread, pop_distance h hphase hsequence]
    split_ifs with hzero hnegative
    · exact h.goTo ⟨hphase, fun _ => by omega⟩ rfl
    · exact h.goTo trivial rfl
    · exact h.goTo trivial rfl
  | casEnqueuePos item pos =>
    rw [hthread] at hphase
    obtain ⟨hcounter, -⟩ := hfew pos (by rw [hthread]; rfl)
    simp only [MpmcRingBuffer.access, hthread]
    split_ifs with htaken
    · have hpos := SerialNumber.eq_of_word_eq hphase.1 (by omega) htaken.1
      exact h.takePush hthread hpos.symm
    · exact h.goTo le_rfl rfl
  | casDequeuePos pos =>
    rw [hthread] at hphase
    obtain ⟨hcounter, -⟩ := hfew pos (by rw [hthread]; rfl)
    have hcounters := h.dequeue_le
    simp only [MpmcRingBuffer.access, hthread]
    split_ifs with htaken
    · have hpos := SerialNumber.eq_of_word_eq hphase.1 (by omega) htaken.1
      exact h.takePop hthread hpos.symm
    · exact h.goTo le_rfl rfl
  | writeData item pos =>
    rw [hthread] at hphase
    simp only [MpmcRingBuffer.access, hthread]
    have htaken : takenTicket (s.threads thread) = some (true, pos) := by rw [hthread]; rfl
    exact h.setData htaken rfl ⟨hphase.1, hphase.2, Function.update_self _ item s.data⟩
  | moveData pos =>
    rw [hthread] at hphase
    simp only [MpmcRingBuffer.access, hthread]
    have htaken : takenTicket (s.threads thread) = some (false, pos) := by rw [hthread]; rfl
    exact h.setData htaken rfl hphase
  | storePushSequence item pos =>
    simp only [MpmcRingBuffer.access, hthread]
    exact h.publish hthread
  | storePopSequence pos data =>
    simp only [MpmcRingBuffer.access, hthread]
    exact h.release hthread

/-- A call that begins takes no ticket. -/
theorem ticketsSound_call (h : TicketsSound capacity s) (hphase : PhaseSound capacity s phase)
    (hfree : takenTicket phase = none) : TicketsSound capacity (s.call thread phase) := by
  rw [MpmcRingBuffer.call]
  split
  · exact h.goTo hphase hfree
  · exact h.goTo hphase hfree
  · exact h.goTo hphase hfree
  · exact h

/-- Every event keeps the tickets sound while few of them are outstanding. -/
theorem ticketsSound_step (s : MpmcRingBuffer T) (event : QueueEvent T)
    (h : TicketsSound capacity s) (hfew : FewOutstanding capacity s event) :
    TicketsSound capacity (s.step capacity movedFrom event) := by
  cases event with
  | tryPush thread item => exact ticketsSound_call h trivial rfl
  | tryPop thread => exact ticketsSound_call h trivial rfl
  | proceed thread spurious => exact ticketsSound_access h spurious hfew

/-- No ticket has been taken of an empty queue. -/
theorem ticketsSound_empty [Inhabited T] (capacity : RingCapacity) :
    TicketsSound capacity (MpmcRingBuffer.empty : MpmcRingBuffer T) where
  cells pos := by
    have hval := two_le_val capacity
    refine ⟨capacity.cell pos, ?_, ?_, Nat.zero_le _, .inl ⟨rfl, Nat.zero_le _⟩⟩
    · rw [cell_eq, cell_eq, Nat.mod_mod]
    · rw [cell_eq]
      exact (Nat.mod_lt pos (by omega)).trans_eq (Nat.zero_add _).symm
  dequeue_le := le_rfl
  threads _ := trivial
  alone _ _ _ htaken := by cases htaken
  enqueueTickets := rfl
  dequeueTickets := rfl
  published _ hentry := by cases hentry
  popped _ hentry := by cases hentry
  published_nodup := List.nodup_nil
  popped_nodup := List.nodup_nil
  stored t _ hlt := absurd hlt (Nat.not_lt_zero t)

end SpotRelay.Analysis
