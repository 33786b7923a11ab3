import Mathlib.Logic.Function.Basic
import SpotRelay.Library.SerialNumber

/-!
# The queue of many producers and consumers

`MPMCRingBuffer` (ring_buffer.hpp:224-341) in any number of threads.  Each load, compare-exchange
and store of an atomic and each access of the data of a cell is one step.  Positions and sequences
are kept without bound, as tickets; the program compares and masks their words.
-/

set_option autoImplicit false

namespace SpotRelay.Model

open SpotRelay.Library.SerialNumber (word distance)

/-- `Capacity`: a power of two, at least 2, of type `std::size_t`. -/
structure RingCapacity where
  log : ℕ
  log_pos : 1 ≤ log
  log_le : log ≤ 63

namespace RingCapacity

def val (capacity : RingCapacity) : ℕ := 2 ^ capacity.log

/-- `MASK`. -/
def mask (capacity : RingCapacity) : ℕ := capacity.val - 1

/-- `&buffer_[pos & MASK]`. -/
def cell (capacity : RingCapacity) (pos : ℕ) : ℕ := word 64 pos &&& capacity.mask

end RingCapacity

variable {T : Type}

/-- What a thread does next. -/
inductive QueuePhase (T : Type)
  | idle
  | loadEnqueuePos (item : T)
  | loadPushSequence (item : T) (pos : ℕ)
  | casEnqueuePos (item : T) (pos : ℕ)
  | writeData (item : T) (pos : ℕ)
  | storePushSequence (item : T) (pos : ℕ)
  | pushReturned (pushed : Bool)
  | loadDequeuePos
  | loadPopSequence (pos : ℕ)
  | casDequeuePos (pos : ℕ)
  | moveData (pos : ℕ)
  | storePopSequence (pos : ℕ) (data : T)
  | popReturned (result : Option T)
deriving DecidableEq, Repr

structure MpmcRingBuffer (T : Type) where
  sequence : ℕ → ℕ
  data : ℕ → T
  enqueuePos : ℕ := 0
  dequeuePos : ℕ := 0
  threads : ℕ → QueuePhase T := fun _ => .idle
  /-- The tickets in the order in which they were taken (ghost). -/
  enqueueTickets : List ℕ := []
  dequeueTickets : List ℕ := []
  /-- What `try_push` has published and `try_pop` has released, with the tickets (ghost). -/
  published : List (ℕ × T) := []
  popped : List (ℕ × T) := []

inductive QueueEvent (T : Type)
  /-- A thread calls `try_push`. -/
  | tryPush (thread : ℕ) (item : T)
  /-- A thread calls `try_pop`. -/
  | tryPop (thread : ℕ)
  /-- The next access of a thread; a weak compare-exchange may fail for no reason. -/
  | proceed (thread : ℕ) (spurious : Bool)
deriving DecidableEq, Repr

namespace MpmcRingBuffer

/-- The constructor. -/
def empty [Inhabited T] : MpmcRingBuffer T where
  sequence := fun i => i
  data := fun _ => default

def goTo (s : MpmcRingBuffer T) (thread : ℕ) (phase : QueuePhase T) : MpmcRingBuffer T :=
  { s with threads := Function.update s.threads thread phase }

/-- A thread moved to a phase is in it. -/
@[simp] theorem goTo_threads_self (s : MpmcRingBuffer T) (thread : ℕ) (phase : QueuePhase T) :
    (s.goTo thread phase).threads thread = phase := by
  simp only [goTo, Function.update_self]

variable (capacity : RingCapacity) (movedFrom : T → T)

/-- One access of `try_push` or `try_pop`; `movedFrom` is what a move leaves behind. -/
def access (s : MpmcRingBuffer T) (thread : ℕ) (spurious : Bool) : MpmcRingBuffer T :=
  match s.threads thread with
  | .loadEnqueuePos item => s.goTo thread (.loadPushSequence item s.enqueuePos)
  | .loadPushSequence item pos =>
    let diff := distance 64 (s.sequence (capacity.cell pos)) pos
    if diff = 0 then s.goTo thread (.casEnqueuePos item pos)
    else if diff < 0 then s.goTo thread (.pushReturned false)
    else s.goTo thread (.loadEnqueuePos item)
  | .casEnqueuePos item pos =>
    if word 64 s.enqueuePos = word 64 pos ∧ spurious = false then
      { s.goTo thread (.writeData item pos) with
        enqueuePos := pos + 1
        enqueueTickets := s.enqueueTickets ++ [pos] }
    else s.goTo thread (.loadPushSequence item s.enqueuePos)
  | .writeData item pos =>
    { s.goTo thread (.storePushSequence item pos) with
      data := Function.update s.data (capacity.cell pos) item }
  | .storePushSequence item pos =>
    { s.goTo thread (.pushReturned true) with
      sequence := Function.update s.sequence (capacity.cell pos) (pos + 1)
      published := s.published ++ [(pos, item)] }
  | .loadDequeuePos => s.goTo thread (.loadPopSequence s.dequeuePos)
  | .loadPopSequence pos =>
    let diff := distance 64 (s.sequence (capacity.cell pos)) (pos + 1)
    if diff = 0 then s.goTo thread (.casDequeuePos pos)
    else if diff < 0 then s.goTo thread (.popReturned none)
    else s.goTo thread .loadDequeuePos
  | .casDequeuePos pos =>
    if word 64 s.dequeuePos = word 64 pos ∧ spurious = false then
      { s.goTo thread (.moveData pos) with
        dequeuePos := pos + 1
        dequeueTickets := s.dequeueTickets ++ [pos] }
    else s.goTo thread (.loadPopSequence s.dequeuePos)
  | .moveData pos =>
    { s.goTo thread (.storePopSequence pos (s.data (capacity.cell pos))) with
      data := Function.update s.data (capacity.cell pos) (movedFrom (s.data (capacity.cell pos))) }
  | .storePopSequence pos data =>
    { s.goTo thread (.popReturned (some data)) with
      sequence := Function.update s.sequence (capacity.cell pos) (pos + capacity.mask + 1)
      popped := s.popped ++ [(pos, data)] }
  | .idle | .pushReturned _ | .popReturned _ => s

/-- A thread that is in no call makes the given one. -/
def call (s : MpmcRingBuffer T) (thread : ℕ) (phase : QueuePhase T) : MpmcRingBuffer T :=
  match s.threads thread with
  | .idle | .pushReturned _ | .popReturned _ => s.goTo thread phase
  | _ => s

def step (s : MpmcRingBuffer T) : QueueEvent T → MpmcRingBuffer T
  | .tryPush thread item => s.call thread (.loadEnqueuePos item)
  | .tryPop thread => s.call thread .loadDequeuePos
  | .proceed thread spurious => s.access capacity movedFrom thread spurious

end MpmcRingBuffer

/-- A run from the empty queue. -/
def runQueue [Inhabited T] (capacity : RingCapacity) (movedFrom : T → T)
    (events : List (QueueEvent T)) : MpmcRingBuffer T :=
  events.foldl (MpmcRingBuffer.step capacity movedFrom) .empty

end SpotRelay.Model
