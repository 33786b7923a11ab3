import SpotRelay.Model.RingBuffer

/-!
# The queue of one producer and one consumer

`SPSCRingBuffer` (ring_buffer.hpp:37-218) between its two threads.  Each load and store of `head_`
and `tail_` and each access of the buffer is one step; what a thread does with its locals and with
its own cached index goes with the access before it.
-/

set_option autoImplicit false

namespace SpotRelay.Model

variable {T : Type}

/-- `try_push(const T&)` and `try_push(T&&)`. -/
inductive PushForm
  | copy
  | move
deriving DecidableEq, Repr

/-- `try_pop` and `try_pop_into` with the object that it assigns to. -/
inductive PopForm (T : Type)
  | value
  | into (item : T)
deriving DecidableEq, Repr

/-- What the producer does next.  A push carries what it was given; `left` is what the caller's
object holds after the buffer is written. -/
inductive ProducerPhase (T : Type)
  | idle
  | loadHead (form : PushForm) (item : T)
  | reloadTail (form : PushForm) (item : T) (head nextHead : ℕ)
  | writeData (form : PushForm) (item : T) (head nextHead : ℕ)
  | storeHead (item left : T) (nextHead : ℕ)
  | pushReturned (pushed : Bool) (left : T)
deriving DecidableEq, Repr

/-- What the consumer does next; `peek` returns a pointer to a slot. -/
inductive ConsumerPhase (T : Type)
  | idle
  | loadTail (form : PopForm T)
  | reloadHead (form : PopForm T) (tail : ℕ)
  | moveData (form : PopForm T) (tail : ℕ)
  | storeTail (form : PopForm T) (tail : ℕ) (data : T)
  | popReturned (result : Option T)
  | popIntoReturned (popped : Bool) (item : T)
  | loadPeekTail
  | loadPeekHead (tail : ℕ)
  | peekReturned (slot : Option ℕ)
deriving DecidableEq, Repr

/-- The thread is in no call. -/
def ProducerPhase.resting : ProducerPhase T → Bool
  | .idle | .pushReturned _ _ => true
  | _ => false

def ConsumerPhase.resting : ConsumerPhase T → Bool
  | .idle | .popReturned _ | .popIntoReturned _ _ | .peekReturned _ => true
  | _ => false

structure SpscRingBuffer (T : Type) where
  buffer : ℕ → T
  head : ℕ := 0
  tail : ℕ := 0
  cachedTail : ℕ := 0
  cachedHead : ℕ := 0
  producer : ProducerPhase T := .idle
  consumer : ConsumerPhase T := .idle

inductive SpscEvent (T : Type)
  /-- The producer calls `try_push`. -/
  | tryPush (form : PushForm) (item : T)
  /-- The consumer calls `try_pop` or `try_pop_into`. -/
  | tryPop (form : PopForm T)
  /-- The consumer calls `peek`. -/
  | peek
  /-- The next access of the producer. -/
  | produce
  /-- The next access of the consumer. -/
  | consume
  /-- The consumer reads through the pointer of its last `peek`. -/
  | readPeeked
deriving DecidableEq, Repr

namespace SpscRingBuffer

def empty [Inhabited T] : SpscRingBuffer T where
  buffer := fun _ => default

variable (capacity : RingCapacity) (movedFrom : T → T)

/-- One access of `try_push`; `movedFrom` is what a move leaves behind. -/
def produce (s : SpscRingBuffer T) : SpscRingBuffer T :=
  match s.producer with
  | .loadHead form item =>
    let nextHead := capacity.cell (s.head + 1)
    if nextHead = s.cachedTail then
      { s with producer := .reloadTail form item s.head nextHead }
    else { s with producer := .writeData form item s.head nextHead }
  | .reloadTail form item head nextHead =>
    let s := { s with cachedTail := s.tail }
    if nextHead = s.cachedTail then { s with producer := .pushReturned false item }
    else { s with producer := .writeData form item head nextHead }
  | .writeData form item head nextHead =>
    let left := match form with
      | .copy => item
      | .move => movedFrom item
    { s with
      buffer := Function.update s.buffer head item
      producer := .storeHead item left nextHead }
  | .storeHead _ left nextHead =>
    { s with head := nextHead, producer := .pushReturned true left }
  | .idle | .pushReturned _ _ => s

/-- The return of a pop. -/
def popReturn (form : PopForm T) (result : Option T) : ConsumerPhase T :=
  match form, result with
  | .value, result => .popReturned result
  | .into _, some data => .popIntoReturned true data
  | .into item, none => .popIntoReturned false item

/-- One access of `try_pop`, `try_pop_into` or `peek`. -/
def consume (s : SpscRingBuffer T) : SpscRingBuffer T :=
  match s.consumer with
  | .loadTail form =>
    if s.tail = s.cachedHead then { s with consumer := .reloadHead form s.tail }
    else { s with consumer := .moveData form s.tail }
  | .reloadHead form tail =>
    let s := { s with cachedHead := s.head }
    if tail = s.cachedHead then { s with consumer := popReturn form none }
    else { s with consumer := .moveData form tail }
  | .moveData form tail =>
    { s with
      buffer := Function.update s.buffer tail (movedFrom (s.buffer tail))
      consumer := .storeTail form tail (s.buffer tail) }
  | .storeTail form tail data =>
    { s with tail := capacity.cell (tail + 1), consumer := popReturn form (some data) }
  | .loadPeekTail => { s with consumer := .loadPeekHead s.tail }
  | .loadPeekHead tail =>
    { s with consumer := .peekReturned (if tail = s.head then none else some tail) }
  | .idle | .popReturned _ | .popIntoReturned _ _ | .peekReturned _ => s

/-- A thread that is in no call makes the given one; reading changes nothing. -/
def step (s : SpscRingBuffer T) : SpscEvent T → SpscRingBuffer T
  | .tryPush form item =>
    if s.producer.resting then { s with producer := .loadHead form item } else s
  | .tryPop form => if s.consumer.resting then { s with consumer := .loadTail form } else s
  | .peek => if s.consumer.resting then { s with consumer := .loadPeekTail } else s
  | .produce => s.produce capacity movedFrom
  | .consume => s.consume capacity movedFrom
  | .readPeeked => s

end SpscRingBuffer

/-- A run from the empty queue. -/
def runSpsc [Inhabited T] (capacity : RingCapacity) (movedFrom : T → T)
    (events : List (SpscEvent T)) : SpscRingBuffer T :=
  events.foldl (SpscRingBuffer.step capacity movedFrom) .empty

end SpotRelay.Model
