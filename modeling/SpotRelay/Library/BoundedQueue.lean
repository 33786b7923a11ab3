import SpotRelay.Library.Run

/-!
# A queue of bounded length

What a first-in first-out queue that holds at most `capacity` items answers to its calls, one after
the other.  A system whose steps end calls with the answers of such a queue is one: the rule
`replays_emissions` carries a simulation of the single steps to whole runs.
-/

set_option autoImplicit false

namespace SpotRelay.Library.BoundedQueue

variable {T : Type}

/-- A call with its answer. -/
inductive Call (T : Type)
  | push (item : T) (accepted : Bool)
  | pop (result : Option T)
  /-- Whether there is a front item. -/
  | peek (found : Bool)
  /-- The front item is read. -/
  | front (item : T)
deriving DecidableEq, Repr

/-- The answers of the queue: it refuses a push only when it is full and a pop only when it is
empty. -/
inductive Performs (capacity : ℕ) : List T → Call T → List T → Prop
  | push {contents : List T} (item : T) (hroom : contents.length < capacity) :
    Performs capacity contents (.push item true) (contents ++ [item])
  | refuse {contents : List T} (item : T) (hfull : contents.length = capacity) :
    Performs capacity contents (.push item false) contents
  | pop (item : T) (rest : List T) : Performs capacity (item :: rest) (.pop (some item)) rest
  | empty : Performs capacity [] (.pop none) []
  | peek (contents : List T) : Performs capacity contents (.peek (!contents.isEmpty)) contents
  | front (item : T) (rest : List T) :
    Performs capacity (item :: rest) (.front item) (item :: rest)

/-- The calls, in order, lead from one content to another. -/
def Replays (capacity : ℕ) : List T → List (Call T) → List T → Prop
  | contents, [], final => final = contents
  | contents, call :: calls, final =>
    ∃ next, Performs capacity contents call next ∧ Replays capacity next calls final

/-- The items that the queue took. -/
def pushed (calls : List (Call T)) : List T :=
  calls.filterMap fun call => match call with
    | .push item true => some item
    | _ => none

/-- The items that it gave. -/
def popped (calls : List (Call T)) : List T :=
  calls.filterMap fun call => match call with
    | .pop result => result
    | _ => none

variable {capacity : ℕ} {contents middle final : List T} {calls more : List (Call T)}

/-- No calls leave the contents as they are. -/
theorem Replays.nil (contents : List T) : Replays capacity contents [] contents := rfl

/-- One call replays to what it performs. -/
theorem Replays.single {call : Call T} (h : Performs capacity contents call final) :
    Replays capacity contents [call] final :=
  ⟨final, h, rfl⟩

/-- Replays compose. -/
theorem Replays.append (h : Replays capacity contents calls middle)
    (hmore : Replays capacity middle more final) :
    Replays capacity contents (calls ++ more) final := by
  induction calls generalizing contents with
  | nil =>
    cases h
    exact hmore
  | cons call calls ih =>
    obtain ⟨next, hcall, hcalls⟩ := h
    exact ⟨next, hcall, ih hcalls⟩

/-- One call keeps the order of what is still to come out. -/
theorem Performs.items {call : Call T} (h : Performs capacity contents call final) :
    contents ++ pushed [call] = popped [call] ++ final := by
  cases h with
  | push item hroom => rfl
  | refuse item hfull => exact List.append_nil _
  | pop item => exact List.append_nil _
  | empty => rfl
  | peek => exact List.append_nil _
  | front item rest => exact List.append_nil _

/-- What comes out is what was there and what was taken, in this order, up to what is left. -/
theorem Replays.items (h : Replays capacity contents calls final) :
    contents ++ pushed calls = popped calls ++ final := by
  induction calls generalizing contents with
  | nil =>
    cases h
    exact List.append_nil _
  | cons call calls ih =>
    obtain ⟨next, hcall, hcalls⟩ := h
    have hpushed : pushed (call :: calls) = pushed [call] ++ pushed calls :=
      List.filterMap_append (l := [call])
    have hpopped : popped (call :: calls) = popped [call] ++ popped calls :=
      List.filterMap_append (l := [call])
    rw [hpushed, hpopped, ← List.append_assoc, hcall.items, List.append_assoc, ih hcalls,
      List.append_assoc]

/-- The queue never holds more than its capacity. -/
theorem Replays.length_le (h : Replays capacity contents calls final)
    (hlength : contents.length ≤ capacity) : final.length ≤ capacity := by
  induction calls generalizing contents with
  | nil =>
    cases h
    exact hlength
  | cons call calls ih =>
    obtain ⟨next, hcall, hcalls⟩ := h
    apply ih hcalls
    cases hcall with
    | push item hroom =>
      rw [List.length_append, List.length_singleton]
      omega
    | pop item =>
      rw [List.length_cons] at hlength
      omega
    | _ => exact hlength

section Simulation

variable {σ ι : Type} {emit : σ → ι → Option (Call T)} {step : σ → ι → σ}

/-- Where every step of a system ends no call or one with the answer of the queue that stands for
its state, the answers of a whole run are those of the queue. -/
theorem replays_emissions (R : σ → List T → Prop)
    (hstep : ∀ s contents x, R s contents →
      ∃ next, Replays capacity contents (emit s x).toList next ∧ R (step s x) next)
    (xs : List ι) {s : σ} {contents : List T} (h : R s contents) :
    ∃ final, Replays capacity contents (Run.emissions emit step s xs) final ∧
      R (xs.foldl step s) final := by
  induction xs generalizing s contents with
  | nil => exact ⟨contents, .nil contents, h⟩
  | cons x xs ih =>
    obtain ⟨next, hone, hnext⟩ := hstep s contents x h
    obtain ⟨final, hrest, hfinal⟩ := ih hnext
    exact ⟨final, hone.append hrest, hfinal⟩

end Simulation

end SpotRelay.Library.BoundedQueue
