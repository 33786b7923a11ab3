import Mathlib.Data.Finset.Card
import SpotRelay.Analysis.ProbeOverflow

/-!
# What becomes of a recorded event

An event that a thread records is in its hand until a queue takes it or it is counted as dropped;
what the queues have taken and not given is waiting, and what they have given is in the batch of the
exporter or written.  `pending_events_` counts what the queues have taken, less the threads that have
pushed and not counted yet, less what the exporter has subtracted.  So where the exporter ends, as
many events are left behind as threads stand between their push and their count.

* **the hands**: every thread's events are in its hand, in the queues, in the batch or written
  (`HandsSound`).
* **the waiting**: what the queues have taken is what the exporter took from them and what is left
  (`exists_waiting`).
* **the counter** lags behind by the threads that have pushed and not counted (`PendingSound`).
-/

set_option autoImplicit false

namespace SpotRelay.Analysis

open SpotRelay.Model SpotRelay.Library

/-! ## Events in hand -/

/-- The event that a thread has recorded and not placed yet. -/
def RecordPhase.inHand : RecordPhase → Option LatencyEvent
  | .loadGeneration event | .lockRegistration event _ | .claimSlot event _ _ | .loadCount event _ _
  | .storeCount event _ _ | .unlockRegistration event _ | .pushSlot event _ | .pushOverflow event
  | .countDropped event => some event
  | .idle | .loadEnabled _ | .loadRunId _ | .countPending => none

/-- The events of the thread that found a place, or none, in order. -/
def publishedBy (published : List Published) (thread : ℕ) : List LatencyEvent :=
  valuesAt thread (published.map fun p => (p.thread, p.event))

/-- What the queues have refused. -/
def refused (published : List Published) : List LatencyEvent :=
  published.filterMap fun p => if p.destination = none then some p.event else none

def HandsSound (s : LatencyProbe) : Prop :=
  ∀ thread, valuesAt thread s.recorded =
    publishedBy s.published thread ++ (RecordPhase.inHand (s.records thread)).toList

variable {s s' : LatencyProbe} {thread : ℕ} {event : LatencyEvent}

/-- What a thread has published grows by its own events only. -/
theorem publishedBy_concat (published : List Published) (p : Published) (thread : ℕ) :
    publishedBy (published ++ [p]) thread =
      publishedBy published thread ++ if p.thread = thread then [p.event] else [] := by
  unfold publishedBy
  rw [List.map_append]
  exact valuesAt_concat thread _ (p.thread, p.event)

/-- Steps that record and place nothing. -/
theorem HandsSound.congr (h : HandsSound s) (hrecorded : s'.recorded = s.recorded)
    (hpublished : s'.published = s.published)
    (hrecords : ∀ thread, RecordPhase.inHand (s'.records thread) =
      RecordPhase.inHand (s.records thread)) : HandsSound s' := by
  intro thread
  rw [hrecorded, hpublished, hrecords]
  exact h thread

/-- A thread goes on with what it has in hand. -/
theorem HandsSound.goTo (h : HandsSound s) (phase : RecordPhase)
    (hsame : RecordPhase.inHand phase = RecordPhase.inHand (s.records thread))
    (hrecords : s'.records = Function.update s.records thread phase)
    (hrecorded : s'.recorded = s.recorded) (hpublished : s'.published = s.published) :
    HandsSound s' := by
  refine h.congr hrecorded hpublished fun other => ?_
  rw [hrecords]
  by_cases heq : other = thread
  · rw [heq, Function.update_self, hsame]
  · rw [Function.update_of_ne heq]

/-- A thread records an event. -/
theorem HandsSound.record (h : HandsSound s) (phase : RecordPhase)
    (hold : RecordPhase.inHand (s.records thread) = none)
    (hnew : RecordPhase.inHand phase = some event)
    (hrecords : s'.records = Function.update s.records thread phase)
    (hrecorded : s'.recorded = s.recorded ++ [(thread, event)])
    (hpublished : s'.published = s.published) : HandsSound s' := by
  intro other
  have hother := h other
  rw [hrecorded, hpublished, hrecords, valuesAt_concat, hother]
  by_cases heq : other = thread
  · rw [heq, Function.update_self, hold, hnew, if_pos rfl]
    exact congrArg (· ++ [event]) (List.append_nil _)
  · rw [Function.update_of_ne heq, if_neg (Ne.symm heq), List.append_nil]

/-- An event finds a place, or none. -/
theorem HandsSound.publish (h : HandsSound s) (phase : RecordPhase)
    (destination : Option ProbeQueue)
    (hold : RecordPhase.inHand (s.records thread) = some event)
    (hnew : RecordPhase.inHand phase = none)
    (hrecords : s'.records = Function.update s.records thread phase)
    (hrecorded : s'.recorded = s.recorded)
    (hpublished : s'.published = s.published ++ [⟨thread, destination, event⟩]) :
    HandsSound s' := by
  intro other
  have hother := h other
  rw [hrecorded, hpublished, hrecords, publishedBy_concat, hother]
  by_cases heq : other = thread
  · rw [heq, Function.update_self, hold, hnew, if_pos rfl]
    exact (List.append_nil _).symm
  · rw [Function.update_of_ne heq, if_neg (Ne.symm heq), List.append_nil]

/-- The beginning of a push leaves the event in the hand of its thread. -/
theorem HandsSound.startPush (h : HandsSound s)
    (hold : RecordPhase.inHand (s.records thread) = some event) (slot : Option ℕ) :
    HandsSound (s.startPush thread event slot) := by
  cases slot with
  | none => exact h.goTo (.pushOverflow event) hold.symm rfl rfl rfl
  | some i => exact h.goTo (.pushSlot event i) hold.symm rfl rfl rfl

/-- An access of a recording thread keeps what is in its hand accounted for. -/
theorem handsSound_proceed (h : HandsSound s) (spurious : Bool) :
    HandsSound (s.proceed thread spurious) := by
  cases hnow : s.records thread with
  | idle =>
    simp only [LatencyProbe.proceed, hnow]
    exact h
  | loadEnabled call =>
    simp only [LatencyProbe.proceed, hnow]
    refine h.goTo (if s.enabled then .loadRunId call else .idle) ?_ rfl rfl rfl
    rw [hnow]
    split_ifs <;> rfl
  | loadRunId call =>
    simp only [LatencyProbe.proceed, hnow]
    exact h.record (.loadGeneration _) (by rw [hnow]; rfl) rfl rfl rfl rfl
  | loadGeneration event =>
    have hold : RecordPhase.inHand (s.records thread) = some event := by
      rw [hnow]
      rfl
    simp only [LatencyProbe.proceed, hnow]
    split_ifs
    · exact h.startPush hold _
    · exact h.goTo (.lockRegistration event s.runGeneration) hold.symm rfl rfl rfl
  | lockRegistration event generation =>
    simp only [LatencyProbe.proceed, hnow]
    cases s.registration with
    | some holder => exact h
    | none =>
      refine h.goTo _ ?_ rfl rfl rfl
      rw [hnow]
      split_ifs <;> rfl
  | claimSlot event generation i | loadCount event generation i =>
    simp only [LatencyProbe.proceed, hnow]
    split_ifs
    all_goals exact h.goTo _ (by rw [hnow]; rfl) rfl rfl rfl
  | storeCount event generation i =>
    simp only [LatencyProbe.proceed, hnow]
    exact h.goTo _ (by rw [hnow]; rfl) rfl rfl rfl
  | unlockRegistration event slot =>
    simp only [LatencyProbe.proceed, hnow]
    exact (h.startPush (by rw [hnow]; rfl) slot).congr rfl rfl fun _ => rfl
  | pushSlot event slot =>
    have hold : RecordPhase.inHand (s.records thread) = some event := by
      rw [hnow]
      rfl
    simp only [LatencyProbe.proceed, hnow]
    split
    · exact h.publish .countPending (some (some slot)) hold rfl rfl rfl rfl
    · exact h.goTo (.pushOverflow event) hold.symm rfl rfl rfl
    · exact h.congr rfl rfl fun _ => rfl
  | pushOverflow event =>
    have hold : RecordPhase.inHand (s.records thread) = some event := by
      rw [hnow]
      rfl
    simp only [LatencyProbe.proceed, hnow]
    split
    · exact h.publish .countPending (some none) hold rfl rfl rfl rfl
    · exact h.goTo (.countDropped event) hold.symm rfl rfl rfl
    · exact h.congr rfl rfl fun _ => rfl
  | countDropped event =>
    simp only [LatencyProbe.proceed, hnow]
    exact h.publish .idle none (by rw [hnow]; rfl) rfl rfl rfl rfl
  | countPending =>
    simp only [LatencyProbe.proceed, hnow]
    exact h.goTo .idle (by rw [hnow]; rfl) rfl rfl rfl

/-! ## The exporter's batch -/

/-- What the exporter has taken is written or in its batch, which is empty outside a round of the
loop. -/
structure BatchSound (s : LatencyProbe) : Prop where
  taken : s.taken.map Prod.snd = s.exported ++ s.batch
  empty : s.exporter = .loadRunning ∨ s.exporter = .loadPending ∨ s.exporter = .waiting →
    s.batch = []

/-- What the exporter does not touch outside its own steps. -/
structure SameExporter (s s' : LatencyProbe) : Prop where
  exporter : s'.exporter = s.exporter
  batch : s'.batch = s.batch
  exported : s'.exported = s.exported
  taken : s'.taken = s.taken

/-- The beginning of a push does not concern the exporter. -/
theorem sameExporter_startPush (s : LatencyProbe) (thread : ℕ) (event : LatencyEvent)
    (slot : Option ℕ) : SameExporter s (s.startPush thread event slot) := by
  cases slot <;> exact ⟨rfl, rfl, rfl, rfl⟩

/-- No access of a recording thread concerns the exporter's own data. -/
theorem sameExporter_proceed (s : LatencyProbe) (thread : ℕ) (spurious : Bool) :
    SameExporter s (s.proceed thread spurious) := by
  cases hnow : s.records thread with
  | idle | loadEnabled | loadRunId | storeCount | countDropped | countPending =>
    simp only [LatencyProbe.proceed, hnow]
    exact ⟨rfl, rfl, rfl, rfl⟩
  | loadGeneration event =>
    simp only [LatencyProbe.proceed, hnow]
    split_ifs
    · exact sameExporter_startPush s thread event _
    · exact ⟨rfl, rfl, rfl, rfl⟩
  | lockRegistration event generation =>
    simp only [LatencyProbe.proceed, hnow]
    cases s.registration <;> exact ⟨rfl, rfl, rfl, rfl⟩
  | claimSlot event generation i | loadCount event generation i =>
    simp only [LatencyProbe.proceed, hnow]
    split_ifs <;> exact ⟨rfl, rfl, rfl, rfl⟩
  | unlockRegistration event slot =>
    simp only [LatencyProbe.proceed, hnow]
    have hsame := sameExporter_startPush s thread event slot
    exact ⟨hsame.exporter, hsame.batch, hsame.exported, hsame.taken⟩
  | pushSlot event slot =>
    simp only [LatencyProbe.proceed, hnow]
    split <;> exact ⟨rfl, rfl, rfl, rfl⟩
  | pushOverflow event =>
    simp only [LatencyProbe.proceed, hnow]
    split <;> exact ⟨rfl, rfl, rfl, rfl⟩

/-- The batch stays sound where the exporter does nothing. -/
theorem SameExporter.batchSound (hsame : SameExporter s s') (h : BatchSound s) :
    BatchSound s' where
  taken := by rw [hsame.taken, hsame.exported, hsame.batch, h.taken]
  empty := by
    rw [hsame.exporter, hsame.batch]
    exact h.empty

/-- A scan that begins leaves what was taken and exported. -/
theorem BatchSound.scanFrom (h : BatchSound s) (producerCount offset : ℕ) :
    BatchSound (s.scanFrom producerCount offset) := by
  unfold LatencyProbe.scanFrom
  split_ifs <;> exact ⟨h.taken, by rintro (hphase | hphase | hphase) <;> cases hphase⟩

/-- The end of a batch exports what was taken and not exported yet. -/
theorem BatchSound.endBatch (h : s.taken.map Prod.snd = s.exported ++ s.batch) :
    BatchSound s.endBatch := by
  refine ⟨h, ?_⟩
  unfold LatencyProbe.endBatch
  dsimp only
  split_ifs with hempty
  · exact fun _ => List.isEmpty_iff.mp hempty
  · rintro (hphase | hphase | hphase) <;> cases hphase

/-- An event that is taken is the last of the batch. -/
theorem BatchSound.takeEvent (h : s.taken.map Prod.snd = s.exported ++ s.batch)
    (queue : ProbeQueue) (event : LatencyEvent) : BatchSound (s.takeEvent queue event) := by
  have htaken : (s.taken ++ [(queue, event)]).map Prod.snd =
      s.exported ++ (s.batch ++ [event]) := by
    rw [List.map_append, h, List.append_assoc]
    rfl
  unfold LatencyProbe.takeEvent
  dsimp only
  split_ifs
  · exact ⟨htaken, by rintro (hphase | hphase | hphase) <;> cases hphase⟩
  · exact BatchSound.endBatch htaken

/-- An access of the exporter keeps the events taken those exported and those in the batch. -/
theorem batchSound_exportNext (h : BatchSound s) (spurious : Bool) :
    BatchSound (s.exportNext spurious) := by
  cases hnow : s.exporter with
  | loadRunning =>
    have hempty := h.empty (.inl hnow)
    simp only [LatencyProbe.exportNext, hnow]
    exact ⟨h.taken, fun _ => hempty⟩
  | loadPending =>
    have hempty := h.empty (.inr (.inl hnow))
    simp only [LatencyProbe.exportNext, hnow]
    exact ⟨h.taken, fun _ => hempty⟩
  | waiting =>
    have hempty := h.empty (.inr (.inr hnow))
    simp only [LatencyProbe.exportNext, hnow]
    exact ⟨h.taken, fun _ => hempty⟩
  | loadCount =>
    simp only [LatencyProbe.exportNext, hnow]
    exact h.scanFrom _ 0
  | loadClaimed producerCount offset =>
    simp only [LatencyProbe.exportNext, hnow]
    split_ifs
    · exact ⟨h.taken, by rintro (hphase | hphase | hphase) <;> cases hphase⟩
    · exact h.scanFrom _ _
  | popSlot producerCount offset idx =>
    have hset : ∀ queue, BatchSound (s.setQueue idx queue) := fun _ => ⟨h.taken, h.empty⟩
    simp only [LatencyProbe.exportNext, hnow]
    split
    next event _ =>
      have htake := BatchSound.takeEvent
        (hset ((s.queues idx).step slotCapacity id .consume)).taken (some idx) event
      exact ⟨htake.taken, htake.empty⟩
    next => exact (hset _).scanFrom _ _
    next => exact hset _
  | popOverflow =>
    simp only [LatencyProbe.exportNext, hnow]
    split
    · refine BatchSound.takeEvent ?_ none _
      exact h.taken
    · refine BatchSound.endBatch ?_
      exact h.taken
    · exact ⟨h.taken, by rintro (hphase | hphase | hphase) <;> cases hphase⟩
  | subtractPending =>
    simp only [LatencyProbe.exportNext, hnow]
    exact ⟨h.taken, by rintro (hphase | hphase | hphase) <;> cases hphase⟩
  | writing =>
    simp only [LatencyProbe.exportNext, hnow]
    have htaken := h.taken
    split
    next event rest hbatch =>
      rw [hbatch] at htaken
      refine ⟨htaken.trans (List.append_assoc _ [event] rest).symm, ?_⟩
      rintro (hphase | hphase | hphase) <;> cases hphase
    next hbatch => exact ⟨htaken, fun _ => hbatch⟩
  | ended =>
    simp only [LatencyProbe.exportNext, hnow]
    exact h

/-! ## The pending count -/

/-- What the exporter has taken and not subtracted from `pending_events_`. -/
def unsubtracted (s : LatencyProbe) : ℕ :=
  match s.exporter with
  | .writing => 0
  | _ => s.batch.length

/-- After `n` steps, with the threads that stand before their `fetch_add`. -/
structure PendingSound (n : ℕ) (s : LatencyProbe) (counting : Finset ℕ) : Prop where
  mem : ∀ thread, thread ∈ counting ↔ s.records thread = .countPending
  pending : (s.pendingEvents.toNat + counting.card + s.taken.length) % 2 ^ 64 =
    ((accepted s.published).length + unsubtracted s) % 2 ^ 64
  card_le : counting.card ≤ n
  taken_le : s.taken.length ≤ n
  accepted_le : (accepted s.published).length ≤ n

variable {n : ℕ} {counting : Finset ℕ}

/-- A step that leaves the counts alone. -/
theorem PendingSound.congr (h : PendingSound n s counting)
    (hrecords : ∀ thread, s'.records thread = .countPending ↔ s.records thread = .countPending)
    (hpending : s'.pendingEvents = s.pendingEvents) (htaken : s'.taken = s.taken)
    (haccepted : accepted s'.published = accepted s.published)
    (hunsubtracted : unsubtracted s' = unsubtracted s) : PendingSound (n + 1) s' counting where
  mem thread := by rw [h.mem, hrecords]
  pending := by rw [hpending, htaken, haccepted, hunsubtracted, h.pending]
  card_le := h.card_le.trans (Nat.le_succ n)
  taken_le := by
    rw [htaken]
    exact h.taken_le.trans (Nat.le_succ n)
  accepted_le := by
    rw [haccepted]
    exact h.accepted_le.trans (Nat.le_succ n)

/-- A thread that stands before its count neither before nor after its access is not one of those
that count. -/
theorem countPending_goTo {records : ℕ → RecordPhase} {phase : RecordPhase}
    (hsame : phase = .countPending ↔ records thread = .countPending) (other : ℕ) :
    Function.update records thread phase other = .countPending ↔
      records other = .countPending := by
  by_cases heq : other = thread
  · rw [heq, Function.update_self, hsame]
  · rw [Function.update_of_ne heq]

/-- A thread goes to another phase and is before no count. -/
theorem PendingSound.goTo (h : PendingSound n s counting) (phase : RecordPhase)
    (hold : s.records thread ≠ .countPending) (hnew : phase ≠ .countPending)
    (hrecords : s'.records = Function.update s.records thread phase)
    (hpending : s'.pendingEvents = s.pendingEvents) (hsame : SameExporter s s')
    (haccepted : accepted s'.published = accepted s.published) :
    PendingSound (n + 1) s' counting := by
  refine h.congr ?_ hpending hsame.taken haccepted ?_
  · rw [hrecords]
    exact countPending_goTo (iff_of_false hnew hold)
  · unfold unsubtracted
    rw [hsame.exporter, hsame.batch]

/-- A queue has taken the event of a thread. -/
theorem PendingSound.accept (h : PendingSound n s counting)
    (hold : s.records thread ≠ .countPending)
    (hrecords : s'.records = Function.update s.records thread .countPending)
    (hpending : s'.pendingEvents = s.pendingEvents) (hsame : SameExporter s s')
    (queue : ProbeQueue)
    (haccepted : accepted s'.published = accepted s.published ++ [(queue, event)]) :
    PendingSound (n + 1) s' (insert thread counting) := by
  have hnot : thread ∉ counting := fun hmem => hold ((h.mem thread).mp hmem)
  have hbefore := h.pending
  have hunsubtracted : unsubtracted s' = unsubtracted s := by
    unfold unsubtracted
    rw [hsame.exporter, hsame.batch]
  constructor
  · intro other
    rw [hrecords, Finset.mem_insert]
    by_cases heq : other = thread
    · rw [heq, Function.update_self]
      exact iff_of_true (.inl rfl) rfl
    · rw [Function.update_of_ne heq, h.mem]
      exact or_iff_right heq
  · rw [Finset.card_insert_of_notMem hnot, hpending, hsame.taken, haccepted, hunsubtracted,
      List.length_append, List.length_singleton]
    omega
  · rw [Finset.card_insert_of_notMem hnot]
    exact Nat.succ_le_succ h.card_le
  · rw [hsame.taken]
    exact h.taken_le.trans (Nat.le_succ n)
  · rw [haccepted, List.length_append, List.length_singleton]
    exact Nat.succ_le_succ h.accepted_le

/-- A thread adds its event to the count. -/
theorem PendingSound.count (h : PendingSound n s counting)
    (hold : s.records thread = .countPending) :
    PendingSound (n + 1) { s.goTo thread .idle with pendingEvents := s.pendingEvents + 1 }
      (counting.erase thread) := by
  have hmem : thread ∈ counting := (h.mem thread).mpr hold
  have hcard := Finset.card_erase_add_one hmem
  have hbefore := h.pending
  have hcard_le := h.card_le
  constructor
  · intro other
    show _ ↔ Function.update s.records thread .idle other = _
    rw [Finset.mem_erase]
    by_cases heq : other = thread
    · rw [heq, Function.update_self]
      exact iff_of_false (fun hne => hne.1 rfl) (by rintro ⟨⟩)
    · rw [Function.update_of_ne heq, h.mem]
      exact and_iff_right heq
  · change ((s.pendingEvents + 1).toNat + _ + s.taken.length) % 2 ^ 64 =
      ((accepted s.published).length + unsubtracted s) % 2 ^ 64
    rw [UInt64.toNat_add, UInt64.toNat_one]
    omega
  · omega
  · exact h.taken_le.trans (Nat.le_succ n)
  · exact h.accepted_le.trans (Nat.le_succ n)

/-- An event that a queue took is accepted. -/
theorem accepted_concat_some (published : List Published) (queue : ProbeQueue) :
    accepted (published ++ [⟨thread, some queue, event⟩]) =
      accepted published ++ [(queue, event)] :=
  accepted_concat published _

/-- An event that no queue took is not. -/
theorem accepted_concat_none (published : List Published) :
    accepted (published ++ [⟨thread, none, event⟩]) = accepted published :=
  (accepted_concat published _).trans (List.append_nil _)

/-- The beginning of a push leaves the counter and the threads that are about to count. -/
theorem PendingSound.startPush (h : PendingSound n s counting)
    (hold : s.records thread ≠ .countPending) (event : LatencyEvent) (slot : Option ℕ) :
    PendingSound (n + 1) (s.startPush thread event slot) counting := by
  cases slot with
  | none => exact h.goTo (.pushOverflow event) hold (by rintro ⟨⟩) rfl rfl ⟨rfl, rfl, rfl, rfl⟩ rfl
  | some i => exact h.goTo (.pushSlot event i) hold (by rintro ⟨⟩) rfl rfl ⟨rfl, rfl, rfl, rfl⟩ rfl

/-- An access of a recording thread moves the counter and the threads that are about to count
together. -/
theorem pendingSound_proceed (h : PendingSound n s counting) (spurious : Bool) :
    ∃ counting', PendingSound (n + 1) (s.proceed thread spurious) counting' := by
  have hcong : ∀ s', s'.records = s.records → s'.pendingEvents = s.pendingEvents →
      SameExporter s s' → s'.published = s.published → PendingSound (n + 1) s' counting := by
    intro s' hrecords hpending hsame hpublished
    refine h.congr (fun _ => by rw [hrecords]) hpending hsame.taken (by rw [hpublished]) ?_
    unfold unsubtracted
    rw [hsame.exporter, hsame.batch]
  have hsame := sameExporter_proceed s thread spurious
  cases hnow : s.records thread with
  | idle =>
    simp only [LatencyProbe.proceed, hnow]
    exact ⟨counting, hcong s rfl rfl ⟨rfl, rfl, rfl, rfl⟩ rfl⟩
  | countPending =>
    simp only [LatencyProbe.proceed, hnow]
    exact ⟨_, h.count hnow⟩
  | pushSlot event slot =>
    have hold : s.records thread ≠ .countPending := by
      rw [hnow]
      rintro ⟨⟩
    simp only [LatencyProbe.proceed, hnow]
    split
    · exact ⟨_, h.accept hold rfl rfl ⟨rfl, rfl, rfl, rfl⟩ (some slot) (accepted_concat_some _ _)⟩
    · exact ⟨counting, h.goTo (.pushOverflow event) hold (by rintro ⟨⟩) rfl rfl
        ⟨rfl, rfl, rfl, rfl⟩ rfl⟩
    · exact ⟨counting, hcong _ rfl rfl ⟨rfl, rfl, rfl, rfl⟩ rfl⟩
  | pushOverflow event =>
    have hold : s.records thread ≠ .countPending := by
      rw [hnow]
      rintro ⟨⟩
    simp only [LatencyProbe.proceed, hnow]
    split
    · exact ⟨_, h.accept hold rfl rfl ⟨rfl, rfl, rfl, rfl⟩ none (accepted_concat_some _ _)⟩
    · exact ⟨counting, h.goTo (.countDropped event) hold (by rintro ⟨⟩) rfl rfl
        ⟨rfl, rfl, rfl, rfl⟩ rfl⟩
    · exact ⟨counting, hcong _ rfl rfl ⟨rfl, rfl, rfl, rfl⟩ rfl⟩
  | countDropped event =>
    have hold : s.records thread ≠ .countPending := by
      rw [hnow]
      rintro ⟨⟩
    simp only [LatencyProbe.proceed, hnow]
    exact ⟨counting, h.goTo .idle hold (by rintro ⟨⟩) rfl rfl ⟨rfl, rfl, rfl, rfl⟩
      (accepted_concat_none _)⟩
  | loadEnabled call =>
    have hold : s.records thread ≠ .countPending := by
      rw [hnow]
      rintro ⟨⟩
    simp only [LatencyProbe.proceed, hnow]
    refine ⟨counting, h.goTo _ hold ?_ rfl rfl ⟨rfl, rfl, rfl, rfl⟩ rfl⟩
    split_ifs <;> rintro ⟨⟩
  | loadGeneration event =>
    have hold : s.records thread ≠ .countPending := by
      rw [hnow]
      rintro ⟨⟩
    simp only [LatencyProbe.proceed, hnow]
    split_ifs
    · exact ⟨counting, h.startPush hold event _⟩
    · exact ⟨counting, h.goTo _ hold (by rintro ⟨⟩) rfl rfl ⟨rfl, rfl, rfl, rfl⟩ rfl⟩
  | lockRegistration event generation =>
    have hold : s.records thread ≠ .countPending := by
      rw [hnow]
      rintro ⟨⟩
    simp only [LatencyProbe.proceed, hnow]
    cases s.registration with
    | some holder => exact ⟨counting, hcong s rfl rfl ⟨rfl, rfl, rfl, rfl⟩ rfl⟩
    | none =>
      refine ⟨counting, h.goTo _ hold ?_ rfl rfl ⟨rfl, rfl, rfl, rfl⟩ rfl⟩
      split_ifs <;> rintro ⟨⟩
  | unlockRegistration event slot =>
    have hold : s.records thread ≠ .countPending := by
      rw [hnow]
      rintro ⟨⟩
    simp only [LatencyProbe.proceed, hnow]
    have hpush := h.startPush hold event slot
    exact ⟨counting, hpush.mem, hpush.pending, hpush.card_le, hpush.taken_le,
      hpush.accepted_le⟩
  | claimSlot event generation i | loadCount event generation i =>
    have hold : s.records thread ≠ .countPending := by
      rw [hnow]
      rintro ⟨⟩
    simp only [LatencyProbe.proceed, hnow]
    split_ifs
    all_goals exact ⟨counting, h.goTo _ hold (by rintro ⟨⟩) rfl rfl ⟨rfl, rfl, rfl, rfl⟩ rfl⟩
  | loadRunId call | storeCount event generation i =>
    have hold : s.records thread ≠ .countPending := by
      rw [hnow]
      rintro ⟨⟩
    simp only [LatencyProbe.proceed, hnow]
    exact ⟨counting, h.goTo _ hold (by rintro ⟨⟩) rfl rfl ⟨rfl, rfl, rfl, rfl⟩ rfl⟩

/-- A scan that begins subtracts nothing. -/
theorem unsubtracted_scanFrom (s : LatencyProbe) (producerCount offset : ℕ) :
    unsubtracted (s.scanFrom producerCount offset) = s.batch.length := by
  unfold LatencyProbe.scanFrom
  split_ifs <;> rfl

/-- At the end of a batch the whole batch has yet to be subtracted. -/
theorem unsubtracted_endBatch (s : LatencyProbe) : unsubtracted s.endBatch = s.batch.length := by
  unfold LatencyProbe.endBatch unsubtracted
  dsimp only
  split_ifs <;> rfl

/-- An event that is taken has yet to be subtracted. -/
theorem unsubtracted_takeEvent (s : LatencyProbe) (queue : ProbeQueue) (event : LatencyEvent) :
    unsubtracted (s.takeEvent queue event) = s.batch.length + 1 := by
  have hlength : (s.batch ++ [event]).length = s.batch.length + 1 := List.length_append
  unfold LatencyProbe.takeEvent
  dsimp only
  split_ifs
  · exact hlength
  · exact (unsubtracted_endBatch _).trans hlength

/-- A step of the exporter that takes and subtracts nothing. -/
theorem PendingSound.moveOn (h : PendingSound n s counting) (hrecords : s'.records = s.records)
    (hpending : s'.pendingEvents = s.pendingEvents) (htaken : s'.taken = s.taken)
    (hpublished : s'.published = s.published) (hunsubtracted : unsubtracted s' = unsubtracted s) :
    PendingSound (n + 1) s' counting :=
  h.congr (fun _ => by rw [hrecords]) hpending htaken (by rw [hpublished]) hunsubtracted

/-- The exporter takes an event out of a queue. -/
theorem PendingSound.take (h : PendingSound n s counting) {queue : ProbeQueue}
    (hended : PopEnded s s' [(queue, event)]) (hpending : s'.pendingEvents = s.pendingEvents)
    (hunsubtracted : unsubtracted s' = unsubtracted s + 1) :
    PendingSound (n + 1) s' counting := by
  have hbefore := h.pending
  constructor
  · rw [hended.records]
    exact h.mem
  · rw [hpending, hended.taken, hended.published, hunsubtracted, List.length_append,
      List.length_singleton]
    omega
  · exact h.card_le.trans (Nat.le_succ n)
  · rw [hended.taken, List.length_append, List.length_singleton]
    exact Nat.succ_le_succ h.taken_le
  · rw [hended.published]
    exact h.accepted_le.trans (Nat.le_succ n)

/-- The exporter subtracts its batch. -/
theorem PendingSound.subtract (h : PendingSound n s counting)
    (hexporter : s.exporter = .subtractPending) :
    PendingSound (n + 1) { s with
      pendingEvents := s.pendingEvents - UInt64.ofNat s.batch.length
      exporter := .writing } counting := by
  have hbefore := h.pending
  have hunsubtracted : unsubtracted s = s.batch.length := by
    unfold unsubtracted
    rw [hexporter]
  rw [hunsubtracted] at hbefore
  refine ⟨h.mem, ?_, h.card_le.trans (Nat.le_succ n), h.taken_le.trans (Nat.le_succ n),
    h.accepted_le.trans (Nat.le_succ n)⟩
  change ((s.pendingEvents - UInt64.ofNat s.batch.length).toNat + _ + s.taken.length) % 2 ^ 64 =
    ((accepted s.published).length + 0) % 2 ^ 64
  rw [UInt64.toNat_sub, UInt64.toNat_ofNat']
  omega

/-- Taking an event leaves the counter. -/
theorem pendingEvents_takeEvent (s : LatencyProbe) (queue : ProbeQueue) (event : LatencyEvent) :
    (s.takeEvent queue event).pendingEvents = s.pendingEvents := by
  unfold LatencyProbe.takeEvent
  dsimp only
  split_ifs <;> rfl

/-- The beginning of a scan leaves the counter. -/
theorem pendingEvents_scanFrom (s : LatencyProbe) (producerCount offset : ℕ) :
    (s.scanFrom producerCount offset).pendingEvents = s.pendingEvents := by
  unfold LatencyProbe.scanFrom
  split_ifs <;> rfl

/-- The counter stays sound when a scan begins. -/
theorem PendingSound.scanFrom (h : PendingSound n s counting)
    (hunsubtracted : unsubtracted s = s.batch.length) (producerCount offset : ℕ) :
    PendingSound (n + 1) (s.scanFrom producerCount offset) counting := by
  have hended := popEnded_scanFrom s producerCount offset
  refine h.moveOn hended.records (pendingEvents_scanFrom _ _ _)
    (hended.taken.trans (List.append_nil _)) hended.published ?_
  rw [unsubtracted_scanFrom, hunsubtracted]

/-- An access of the exporter moves the counter with what it has taken. -/
theorem pendingSound_exportNext (h : PendingSound n s counting) (spurious : Bool) :
    PendingSound (n + 1) (s.exportNext spurious) counting := by
  cases hnow : s.exporter with
  | loadRunning | loadPending =>
    have hunsubtracted : unsubtracted s = s.batch.length := by
      unfold unsubtracted
      rw [hnow]
    simp only [LatencyProbe.exportNext, hnow]
    refine h.moveOn rfl rfl rfl rfl ?_
    rw [hunsubtracted]
    unfold unsubtracted
    dsimp only
    split_ifs <;> rfl
  | waiting =>
    have hunsubtracted : unsubtracted s = s.batch.length := by
      unfold unsubtracted
      rw [hnow]
    simp only [LatencyProbe.exportNext, hnow]
    exact h.moveOn rfl rfl rfl rfl hunsubtracted.symm
  | loadCount =>
    have hunsubtracted : unsubtracted s = s.batch.length := by
      unfold unsubtracted
      rw [hnow]
    simp only [LatencyProbe.exportNext, hnow]
    exact h.scanFrom hunsubtracted _ 0
  | loadClaimed producerCount offset =>
    have hunsubtracted : unsubtracted s = s.batch.length := by
      unfold unsubtracted
      rw [hnow]
    simp only [LatencyProbe.exportNext, hnow]
    split_ifs
    · exact h.moveOn rfl rfl rfl rfl hunsubtracted.symm
    · exact h.scanFrom hunsubtracted _ _
  | popSlot producerCount offset idx =>
    have hunsubtracted : unsubtracted s = s.batch.length := by
      unfold unsubtracted
      rw [hnow]
    have hset : ∀ queue, PendingSound n (s.setQueue idx queue) counting := fun _ =>
      ⟨h.mem, h.pending, h.card_le, h.taken_le, h.accepted_le⟩
    simp only [LatencyProbe.exportNext, hnow]
    split
    next event _ =>
      have hended := popEnded_takeEvent
        (s.setQueue idx ((s.queues idx).step slotCapacity id .consume)) (some idx) event
      refine (hset ((s.queues idx).step slotCapacity id .consume)).take
        ⟨hended.queues, hended.records, hended.published, hended.taken, hended.pops⟩
        (pendingEvents_takeEvent _ _ _) ?_
      refine (unsubtracted_takeEvent _ (some idx) event).trans ?_
      exact congrArg (· + 1) hunsubtracted.symm
    next => exact (hset _).scanFrom hunsubtracted _ _
    next => exact h.moveOn rfl rfl rfl rfl rfl
  | popOverflow =>
    have hunsubtracted : unsubtracted s = s.batch.length := by
      unfold unsubtracted
      rw [hnow]
    simp only [LatencyProbe.exportNext, hnow]
    split
    next event _ =>
      refine PendingSound.take ?_ (popEnded_takeEvent _ none event)
        (pendingEvents_takeEvent _ _ _) (unsubtracted_takeEvent _ none event)
      exact ⟨h.mem, h.pending.trans (by rw [hunsubtracted]; rfl), h.card_le, h.taken_le,
        h.accepted_le⟩
    next =>
      refine h.moveOn rfl rfl rfl rfl ?_
      exact (unsubtracted_endBatch _).trans hunsubtracted.symm
    next => exact h.moveOn rfl rfl rfl rfl hunsubtracted.symm
  | subtractPending =>
    simp only [LatencyProbe.exportNext, hnow]
    exact h.subtract hnow
  | writing =>
    have hunsubtracted : unsubtracted s = 0 := by
      unfold unsubtracted
      rw [hnow]
    simp only [LatencyProbe.exportNext, hnow]
    split
    next => exact h.moveOn rfl rfl rfl rfl hunsubtracted.symm
    next hbatch =>
      refine h.moveOn rfl rfl rfl rfl ?_
      rw [hunsubtracted]
      exact congrArg List.length hbatch
  | ended =>
    simp only [LatencyProbe.exportNext, hnow]
    exact h.moveOn rfl rfl rfl rfl rfl

/-! ## The count of dropped events -/

/-- What a step of a recording thread does to its events and to `dropped_events_`. -/
theorem published_proceed (s : LatencyProbe) (thread : ℕ) (spurious : Bool) :
    (s.proceed thread spurious).published = s.published ∧
        (s.proceed thread spurious).droppedEvents = s.droppedEvents ∨
      (∃ queue event, (s.proceed thread spurious).published =
          s.published ++ [⟨thread, some queue, event⟩]) ∧
        (s.proceed thread spurious).droppedEvents = s.droppedEvents ∨
      (∃ event, (s.proceed thread spurious).published = s.published ++ [⟨thread, none, event⟩]) ∧
        (s.proceed thread spurious).droppedEvents = s.droppedEvents + 1 := by
  cases hnow : s.records thread with
  | idle =>
    have hsame : s.proceed thread spurious = s := by simp only [LatencyProbe.proceed, hnow]
    rw [hsame]
    exact .inl ⟨rfl, rfl⟩
  | loadEnabled | loadRunId | storeCount | countPending =>
    simp only [LatencyProbe.proceed, hnow]
    exact .inl ⟨rfl, rfl⟩
  | loadGeneration event =>
    simp only [LatencyProbe.proceed, hnow]
    split_ifs
    · cases (s.caches thread).slot <;> exact .inl ⟨rfl, rfl⟩
    · exact .inl ⟨rfl, rfl⟩
  | lockRegistration event generation =>
    simp only [LatencyProbe.proceed, hnow]
    cases s.registration <;> exact .inl ⟨rfl, rfl⟩
  | claimSlot event generation i | loadCount event generation i =>
    simp only [LatencyProbe.proceed, hnow]
    split_ifs <;> exact .inl ⟨rfl, rfl⟩
  | unlockRegistration event slot =>
    simp only [LatencyProbe.proceed, hnow]
    cases slot <;> exact .inl ⟨rfl, rfl⟩
  | pushSlot event slot =>
    simp only [LatencyProbe.proceed, hnow]
    split
    · exact .inr (.inl ⟨⟨some slot, event, rfl⟩, rfl⟩)
    · exact .inl ⟨rfl, rfl⟩
    · exact .inl ⟨rfl, rfl⟩
  | pushOverflow event =>
    simp only [LatencyProbe.proceed, hnow]
    split
    · exact .inr (.inl ⟨⟨none, event, rfl⟩, rfl⟩)
    · exact .inl ⟨rfl, rfl⟩
    · exact .inl ⟨rfl, rfl⟩
  | countDropped event =>
    simp only [LatencyProbe.proceed, hnow]
    exact .inr (.inr ⟨⟨event, rfl⟩, trivial⟩)

def DroppedSound (s : LatencyProbe) : Prop :=
  s.droppedEvents = UInt64.ofNat (refused s.published).length

/-- An event is refused where it has no destination. -/
theorem refused_concat (published : List Published) (p : Published) :
    (refused (published ++ [p])).length =
      (refused published).length + if p.destination = none then 1 else 0 := by
  unfold refused
  rw [List.filterMap_append, List.length_append]
  by_cases hnone : p.destination = none <;> simp [hnone]

/-- The drop counter goes with the refused events. -/
theorem droppedSound_proceed (h : DroppedSound s) (spurious : Bool) :
    DroppedSound (s.proceed thread spurious) := by
  unfold DroppedSound at h ⊢
  rcases published_proceed s thread spurious with ⟨hpublished, hdropped⟩ |
    ⟨⟨queue, event, hpublished⟩, hdropped⟩ | ⟨⟨event, hpublished⟩, hdropped⟩
  · rw [hpublished, hdropped, h]
  · rw [hpublished, hdropped, h, refused_concat, if_neg (by rintro ⟨⟩)]
    rfl
  · rw [hpublished, hdropped, h, refused_concat, if_pos rfl, UInt64.ofNat_add]
    rfl

/-- What the exporter and `stop` leave as it is. -/
structure SameRecords (s s' : LatencyProbe) : Prop where
  records : s'.records = s.records
  recorded : s'.recorded = s.recorded
  published : s'.published = s.published
  droppedEvents : s'.droppedEvents = s.droppedEvents

/-- A scan that begins does not concern the recording threads. -/
theorem sameRecords_scanFrom (s : LatencyProbe) (producerCount offset : ℕ) :
    SameRecords s (s.scanFrom producerCount offset) := by
  unfold LatencyProbe.scanFrom
  split_ifs <;> exact ⟨rfl, rfl, rfl, rfl⟩

/-- An event that is taken does not concern the recording threads. -/
theorem sameRecords_takeEvent (s : LatencyProbe) (queue : ProbeQueue) (event : LatencyEvent) :
    SameRecords s (s.takeEvent queue event) := by
  unfold LatencyProbe.takeEvent
  dsimp only
  split_ifs <;> exact ⟨rfl, rfl, rfl, rfl⟩

/-- No access of the exporter concerns the recording threads' own data. -/
theorem sameRecords_exportNext (s : LatencyProbe) (spurious : Bool) :
    SameRecords s (s.exportNext spurious) := by
  cases hnow : s.exporter with
  | loadCount =>
    simp only [LatencyProbe.exportNext, hnow]
    exact sameRecords_scanFrom s _ 0
  | loadClaimed producerCount offset =>
    simp only [LatencyProbe.exportNext, hnow]
    split_ifs
    · exact ⟨rfl, rfl, rfl, rfl⟩
    · exact sameRecords_scanFrom s _ _
  | popSlot producerCount offset idx =>
    simp only [LatencyProbe.exportNext, hnow]
    split
    next event _ =>
      have hsame := sameRecords_takeEvent
        (s.setQueue idx ((s.queues idx).step slotCapacity id .consume)) (some idx) event
      exact ⟨hsame.records, hsame.recorded, hsame.published, hsame.droppedEvents⟩
    next =>
      have hsame := sameRecords_scanFrom
        (s.setQueue idx ((s.queues idx).step slotCapacity id .consume)) producerCount (offset + 1)
      exact ⟨hsame.records, hsame.recorded, hsame.published, hsame.droppedEvents⟩
    next => exact ⟨rfl, rfl, rfl, rfl⟩
  | popOverflow =>
    simp only [LatencyProbe.exportNext, hnow]
    split
    next event _ =>
      have hsame := sameRecords_takeEvent { s with
        exporter := .popOverflow
        overflowQueue := s.overflowQueue.step overflowCapacity id
          (.proceed LatencyProbe.overflowExporter spurious) } none event
      exact ⟨hsame.records, hsame.recorded, hsame.published, hsame.droppedEvents⟩
    next => exact ⟨rfl, rfl, rfl, rfl⟩
    next => exact ⟨rfl, rfl, rfl, rfl⟩
  | writing =>
    simp only [LatencyProbe.exportNext, hnow]
    split <;> exact ⟨rfl, rfl, rfl, rfl⟩
  | loadRunning | loadPending | waiting | subtractPending | ended =>
    simp only [LatencyProbe.exportNext, hnow]
    exact ⟨rfl, rfl, rfl, rfl⟩

/-- What the threads have in hand stays accounted for where they do nothing. -/
theorem SameRecords.hands (hsame : SameRecords s s') (h : HandsSound s) : HandsSound s' :=
  h.congr hsame.recorded hsame.published fun _ => by rw [hsame.records]

/-- The drop counter stays accounted for where the threads do nothing. -/
theorem SameRecords.dropped (hsame : SameRecords s s') (h : DroppedSound s) :
    DroppedSound s' := by
  unfold DroppedSound at h ⊢
  rw [hsame.droppedEvents, hsame.published, h]

/-- A queue that one thread pushes to takes its events in its order. -/
theorem sublist_publishedBy {published : List Published} {queue : ProbeQueue} {thread : ℕ}
    (hthread : ∀ p ∈ published, p.destination = some queue → p.thread = thread) :
    (sentTo published queue).Sublist (publishedBy published thread) := by
  induction published with
  | nil => exact List.Sublist.slnil
  | cons p published ih =>
    have htail := ih fun other hother => hthread other (List.mem_cons_of_mem p hother)
    have hby : publishedBy (p :: published) thread =
        if p.thread = thread then p.event :: publishedBy published thread
        else publishedBy published thread := valuesAt_cons thread (p.thread, p.event) _
    have hto : sentTo (p :: published) queue =
        if p.destination = some queue then p.event :: sentTo published queue
        else sentTo published queue := by
      unfold sentTo accepted
      cases hdestination : p.destination with
      | none => rw [List.filterMap_cons_none (by rw [hdestination]; rfl), if_neg (by rintro ⟨⟩)]
      | some other =>
        rw [List.filterMap_cons_some (by rw [hdestination]; rfl), valuesAt_cons]
        by_cases heq : other = queue
        · rw [if_pos heq, if_pos (congrArg some heq)]
        · rw [if_neg heq, if_neg fun hsome => heq (Option.some.inj hsome)]
    rw [hby, hto]
    by_cases hdestination : p.destination = some queue
    · rw [if_pos hdestination, if_pos (hthread p List.mem_cons_self hdestination)]
      exact htail.cons_cons p.event
    · rw [if_neg hdestination]
      split_ifs
      · exact htail.cons p.event
      · exact htail

/-! ## Runs -/

/-- What holds in every state of a run, however long. -/
structure ProbeSound (s : LatencyProbe) : Prop where
  owners : OwnersSound s
  slots : ∀ i, SlotSound s i
  hands : HandsSound s
  dropped : DroppedSound s
  batch : BatchSound s

/-- Every access of any thread keeps the hands, the drop counter and the batch. -/
theorem handed_step {s : LatencyProbe} (h : ProbeSound s) (event : ProbeEvent) :
    HandsSound (s.step event) ∧ DroppedSound (s.step event) ∧ BatchSound (s.step event) := by
  cases event with
  | record thread call =>
    rw [LatencyProbe.step]
    split
    next hidle =>
      refine ⟨h.hands.goTo (.loadEnabled call) (by rw [hidle]; rfl) rfl rfl rfl, h.dropped, ?_⟩
      exact ⟨h.batch.taken, h.batch.empty⟩
    next => exact ⟨h.hands, h.dropped, h.batch⟩
  | proceed thread spurious =>
    exact ⟨handsSound_proceed h.hands spurious, droppedSound_proceed h.dropped spurious,
      (sameExporter_proceed s thread spurious).batchSound h.batch⟩
  | exportNext spurious =>
    have hsame := sameRecords_exportNext s spurious
    exact ⟨hsame.hands h.hands, hsame.dropped h.dropped, batchSound_exportNext h.batch spurious⟩
  | stop =>
    rw [LatencyProbe.step]
    split
    · exact ⟨h.hands, h.dropped, h.batch.taken, h.batch.empty⟩
    · exact ⟨h.hands, h.dropped, h.batch.taken, h.batch.empty⟩
    · exact ⟨h.hands, h.dropped, h.batch⟩

/-- Every access of any thread keeps the invariant. -/
theorem probeSound_step (s : LatencyProbe) (event : ProbeEvent) (h : ProbeSound s) :
    ProbeSound (s.step event) := by
  obtain ⟨hhands, hdropped, hbatch⟩ := handed_step h event
  exact ⟨ownersSound_step h.owners event, slots_step h.slots h.owners event, hhands, hdropped, hbatch⟩

/-- The invariant holds in every state of a run from `start`. -/
theorem probeSound_run {s : LatencyProbe} (h : s.Started) (events : List ProbeEvent) :
    ProbeSound (runProbe s events) := by
  have hfresh := h.fresh
  have hstart : ProbeSound s := by
    refine ⟨ownersSound_started h, slotSound_started h, ?_, ?_, ?_, ?_⟩
    · intro thread
      rw [hfresh]
      rfl
    · rw [hfresh]
      rfl
    · rw [hfresh]
      rfl
    · rw [hfresh]
      exact fun _ => rfl
  refine Run.invariant ProbeSound (fun s event hs _ => probeSound_step s event hs) events s hstart
    (?_ : Run.Along (fun _ _ => True) LatencyProbe.step s events)
  clear hstart hfresh h
  induction events generalizing s with
  | nil => exact trivial
  | cons event events ih => exact ⟨trivial, ih⟩

/-- What holds in every state of a run of fewer than `2 ^ 62` steps. -/
theorem countsSound_run {s : LatencyProbe} (h : s.Started) (events : List ProbeEvent)
    (hshort : events.length < 2 ^ 62) :
    OverflowSound events.length (runProbe s events) ∧
      ∃ counting, PendingSound events.length (runProbe s events) counting := by
  induction events using List.reverseRecOn with
  | nil =>
    refine ⟨overflowSound_started h, ∅, ?_⟩
    change PendingSound 0 s ∅
    rw [h.fresh]
    refine ⟨fun thread => iff_of_false (Finset.notMem_empty thread) ?_, rfl, le_rfl, le_rfl, le_rfl⟩
    rintro ⟨⟩
  | append_singleton events event ih =>
    rw [List.length_append, List.length_singleton] at hshort ⊢
    obtain ⟨hoverflow, counting, hpending⟩ := ih (by omega)
    have hrun : runProbe s (events ++ [event]) = (runProbe s events).step event := by
      rw [runProbe, List.foldl_append]
      rfl
    have hval : overflowCapacity.val = 2 ^ 15 := rfl
    rw [hrun]
    refine ⟨overflowSound_step hoverflow (by omega) event, ?_⟩
    cases event with
    | record thread call =>
      rw [LatencyProbe.step]
      split
      next hidle =>
        exact ⟨counting, hpending.goTo (.loadEnabled call) (by rw [hidle]; rintro ⟨⟩)
          (by rintro ⟨⟩) rfl rfl ⟨rfl, rfl, rfl, rfl⟩ rfl⟩
      next => exact ⟨counting, hpending.moveOn rfl rfl rfl rfl rfl⟩
    | proceed thread spurious => exact pendingSound_proceed hpending spurious
    | exportNext spurious => exact ⟨counting, pendingSound_exportNext hpending spurious⟩
    | stop =>
      rw [LatencyProbe.step]
      split <;> exact ⟨counting, hpending.moveOn rfl rfl rfl rfl rfl⟩

/-- What the queues have taken is what the exporter took from them and what is left. -/
theorem exists_waiting {s : LatencyProbe} {n : ℕ} (h : ProbeSound s)
    (hoverflow : OverflowSound n s) : ∃ waiting, (accepted s.published).Perm (s.taken ++ waiting) := by
  have hsub : s.taken.Subperm (accepted s.published) := by
    apply subperm_of_valuesAt
    rintro (slot | slot)
    · obtain ⟨waiting, hperm⟩ := hoverflow.exists_waiting
      exact ((List.sublist_append_left _ waiting).subperm).trans hperm.symm.subperm
    · obtain ⟨waiting, -, hsent⟩ := (h.slots slot).contents
      change (valuesAt (some slot) s.taken).Subperm (sentTo s.published (some slot))
      rw [hsent]
      exact (List.sublist_append_left _ waiting).subperm
  obtain ⟨same, hsame, hsublist⟩ := hsub
  obtain ⟨waiting, hperm⟩ := hsublist.exists_perm_append
  exact ⟨waiting, hperm.trans (hsame.append_right waiting)⟩

/-- The first `start` of a program. -/
def firstStart : LatencyProbe where
  runId := 1700000000000
  runGeneration := 2
  caches := fun _ => {}

/-- The example's probe has been started. -/
theorem started_firstStart : firstStart.Started := ⟨rfl, fun _ => Nat.zero_lt_two⟩

/-- A thread records an event, the exporter writes it, and `stop` is called. -/
def oneEventRun : List ProbeEvent :=
  .record 0 ⟨1, .copy 23 ['A', '/', 'K', 'R', 'W'], .error, 5, 9, 0, 0, 0, 0⟩ ::
    List.replicate 12 (.proceed 0 false) ++ List.replicate 16 (.exportNext false) ++
      [.stop, .stop, .exportNext false]

/-- In every state of every run, each event that a thread has recorded is in its hand, refused by
all queues and counted as dropped, or in exactly one place on its way from a queue to the file; and
`pending_events_` counts what still waits, but for the threads that have not counted their event and
the batch that the exporter has not subtracted yet. -/
theorem probe_keeps_events {s : LatencyProbe} (h : s.Started) (events : List ProbeEvent)
    (hshort : events.length < 2 ^ 62) :
    (∀ thread, valuesAt thread (runProbe s events).recorded =
      publishedBy (runProbe s events).published thread ++
        (RecordPhase.inHand ((runProbe s events).records thread)).toList) ∧
    (runProbe s events).droppedEvents =
      UInt64.ofNat (refused (runProbe s events).published).length ∧
    (∃ waiting, (accepted (runProbe s events).published).Perm
      ((runProbe s events).taken ++ waiting) ∧
      ∃ counting : Finset ℕ,
        (∀ thread, thread ∈ counting ↔ (runProbe s events).records thread = .countPending) ∧
        ((runProbe s events).pendingEvents.toNat + counting.card) % 2 ^ 64 =
          (waiting.length + unsubtracted (runProbe s events)) % 2 ^ 64) ∧
    (runProbe s events).taken.map Prod.snd =
      (runProbe s events).exported ++ (runProbe s events).batch := by
  have hsound := probeSound_run h events
  obtain ⟨hoverflow, counting, hcounts⟩ := countsSound_run h events hshort
  refine ⟨hsound.hands, hsound.dropped, ?_, hsound.batch.taken⟩
  obtain ⟨waiting, hperm⟩ := exists_waiting hsound hoverflow
  refine ⟨waiting, hperm, counting, hcounts.mem, ?_⟩
  have hlength := hperm.length_eq
  rw [List.length_append] at hlength
  have hpending := hcounts.pending
  omega

/-- The general result for the run with one event. -/
theorem probe_keeps_events_oneEvent :
    (runProbe firstStart oneEventRun).taken.map Prod.snd =
      (runProbe firstStart oneEventRun).exported ++ (runProbe firstStart oneEventRun).batch :=
  (probe_keeps_events started_firstStart oneEventRun (by decide)).2.2.2

/-- Two threads never have the same slot, all that a slot's queue takes comes from one thread, in
the order in which it recorded it, and comes out in this order. -/
theorem probe_slot_has_one_producer {s : LatencyProbe} (h : s.Started) (events : List ProbeEvent)
    (slot : ℕ) :
    (∀ thread other,
      (runProbe s events).caches thread = ⟨(runProbe s events).runGeneration, some slot⟩ →
      (runProbe s events).caches other = ⟨(runProbe s events).runGeneration, some slot⟩ →
      thread = other) ∧
    ∃ thread waiting, waiting.length < slotCapacity.val ∧
      sentTo (runProbe s events).published (some slot) =
        valuesAt (some slot) (runProbe s events).taken ++ waiting ∧
      (sentTo (runProbe s events).published (some slot)).Sublist
        (valuesAt thread (runProbe s events).recorded) := by
  have hsound := probeSound_run h events
  generalize runProbe s events = s at hsound
  refine ⟨fun thread other hthread hother =>
    hsound.owners.alone thread other slot (.inl hthread) (.inl hother), ?_⟩
  obtain ⟨waiting, hstands, hsent⟩ := (hsound.slots slot).contents
  have howner : ∃ thread, ∀ p ∈ s.published, p.destination = some (some slot) →
      p.thread = thread := by
    by_cases hany : ∃ p ∈ s.published, p.destination = some (some slot)
    · obtain ⟨p, hp, hdestination⟩ := hany
      refine ⟨p.thread, fun other hother hsame => ?_⟩
      exact hsound.owners.alone other.thread p.thread slot
        (.inl (hsound.owners.published other hother slot hsame))
        (.inl (hsound.owners.published p hp slot hdestination))
    · exact ⟨0, fun p hp hdestination => absurd ⟨p, hp, hdestination⟩ hany⟩
  obtain ⟨thread, hthread⟩ := howner
  refine ⟨thread, waiting, hstands.length_lt, hsent, ?_⟩
  rw [hsound.hands thread]
  exact (sublist_publishedBy hthread).trans (List.sublist_append_left _ _)

/-- The slot of the run with one event. -/
theorem probe_slot_has_one_producer_oneEvent :
    ∃ thread waiting, waiting.length < slotCapacity.val ∧
      sentTo (runProbe firstStart oneEventRun).published (some 0) =
        valuesAt (some 0) (runProbe firstStart oneEventRun).taken ++ waiting ∧
      (sentTo (runProbe firstStart oneEventRun).published (some 0)).Sublist
        (valuesAt thread (runProbe firstStart oneEventRun).recorded) :=
  (probe_slot_has_one_producer started_firstStart oneEventRun 0).2

/-- Where the exporter finds `running_` clear and no event pending, it has written all that the
queues have taken but for as many events as there are threads between their push and their count. -/
theorem probe_exporter_drains {s : LatencyProbe} (h : s.Started) (events : List ProbeEvent)
    (hshort : events.length < 2 ^ 62)
    (hexporter : (runProbe s events).exporter = .loadPending)
    (hpending : (runProbe s events).pendingEvents = 0) :
    (∀ spurious, (runProbe s events).step (.exportNext spurious) =
        { runProbe s events with exporter := .ended }) ∧
      ∃ counting : Finset ℕ,
        (∀ thread, thread ∈ counting ↔ (runProbe s events).records thread = .countPending) ∧
        ∃ late, late.length = counting.card ∧
          ((accepted (runProbe s events).published).map Prod.snd).Perm
            ((runProbe s events).exported ++ late) := by
  have hsound := probeSound_run h events
  obtain ⟨hoverflow, counting, hcounts⟩ := countsSound_run h events hshort
  generalize runProbe s events = s at hsound hoverflow hcounts hexporter hpending
  refine ⟨?_, counting, hcounts.mem, ?_⟩
  · intro spurious
    simp only [LatencyProbe.step, LatencyProbe.exportNext, hexporter, hpending]
    rw [if_neg (by decide)]
  · have hempty : s.batch = [] := hsound.batch.empty (.inr (.inl hexporter))
    have htaken := hsound.batch.taken
    rw [hempty, List.append_nil] at htaken
    obtain ⟨waiting, hperm⟩ := exists_waiting hsound hoverflow
    have hlength := hperm.length_eq
    rw [List.length_append] at hlength
    refine ⟨waiting.map Prod.snd, ?_, ?_⟩
    · have hcount := hcounts.pending
      have hunsubtracted : unsubtracted s = 0 := by
        unfold unsubtracted
        rw [hexporter, hempty]
        rfl
      have hcard := hcounts.card_le
      have htaken_le := hcounts.taken_le
      have haccepted_le := hcounts.accepted_le
      rw [hpending, hunsubtracted, UInt64.toNat_zero] at hcount
      rw [List.length_map]
      omega
    · have hmap := hperm.map Prod.snd
      rwa [List.map_append, htaken] at hmap

/-- The exporter at the end of the run with one event. -/
theorem probe_exporter_drains_oneEvent :
    ∃ counting : Finset ℕ,
      (∀ thread, thread ∈ counting ↔
        (runProbe firstStart oneEventRun).records thread = .countPending) ∧
      ∃ late, late.length = counting.card ∧
        ((accepted (runProbe firstStart oneEventRun).published).map Prod.snd).Perm
          ((runProbe firstStart oneEventRun).exported ++ late) :=
  (probe_exporter_drains started_firstStart oneEventRun (by decide) (by decide +kernel)
    (by decide +kernel)).2

/-- The event is in the file. -/
example : (runProbe firstStart oneEventRun).exported.map LatencyEvent.deltaNs = [4] := by
  decide +kernel

end SpotRelay.Analysis
