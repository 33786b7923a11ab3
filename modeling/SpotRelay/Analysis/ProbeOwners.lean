import SpotRelay.Library.Run
import SpotRelay.Model.LatencyProbe

/-!
# The owner of a queue slot

The compare-exchange on `claimed` gives a slot to one thread of a generation, which keeps it in its
thread-local cache for the rest of the run.  So the queue of a slot, which is made for one producer,
has one.

* **the claim** of a slot is one compare-exchange, and from then on the thread is its owner
  (`OwnersSound.cacheSlot`).
* **one step** keeps the owners (`ownersSound_step`), the exporter's with nothing to show
  (`ownersSound_exportNext`).
-/

set_option autoImplicit false

namespace SpotRelay.Analysis

open SpotRelay.Model SpotRelay.Library

/-- The slot that a thread has claimed and not cached yet. -/
def RecordPhase.claiming : RecordPhase → Option ℕ
  | .loadCount _ _ i | .storeCount _ _ i => some i
  | _ => none

def Owns (s : LatencyProbe) (thread i : ℕ) : Prop :=
  s.caches thread = ⟨s.runGeneration, some i⟩ ∨
    RecordPhase.claiming (s.records thread) = some i

/-- What a thread knows of its cache. -/
def PhaseOwns (s : LatencyProbe) (thread : ℕ) : RecordPhase → Prop
  | .lockRegistration _ generation => generation = s.runGeneration
  | .claimSlot _ generation _ | .loadCount _ generation _ | .storeCount _ generation _ =>
    generation = s.runGeneration ∧ (s.caches thread).generation ≠ s.runGeneration
  | .unlockRegistration _ slot => s.caches thread = ⟨s.runGeneration, slot⟩
  | .pushSlot _ i => s.caches thread = ⟨s.runGeneration, some i⟩
  | _ => True

structure OwnersSound (s : LatencyProbe) : Prop where
  alone : ∀ thread other i, Owns s thread i → Owns s other i → thread = other
  claimed : ∀ thread i, Owns s thread i → s.claimed i = true
  phases : ∀ thread, PhaseOwns s thread (s.records thread)
  /-- What a slot has taken came from its owner. -/
  published : ∀ p ∈ s.published, ∀ i, p.destination = some (some i) →
    s.caches p.thread = ⟨s.runGeneration, some i⟩

/-- A probe that has just started has no owner yet. -/
theorem ownersSound_started {s : LatencyProbe} (h : s.Started) : OwnersSound s := by
  have hrecords : ∀ thread, s.records thread = .idle := by
    intro thread
    rw [h.fresh]
  have hnone : ∀ thread i, ¬ Owns s thread i := by
    rintro thread i (hcache | hclaim)
    · have hlt := h.caches thread
      rw [hcache] at hlt
      exact lt_irrefl _ hlt
    · rw [hrecords] at hclaim
      cases hclaim
  refine ⟨fun thread _ i hown => absurd hown (hnone thread i),
    fun thread i hown => absurd hown (hnone thread i), ?_, ?_⟩
  · intro thread
    rw [hrecords]
    trivial
  · intro p hp
    rw [h.fresh] at hp
    cases hp

/-- The part of the state that ownership depends on. -/
structure SameOwners (s s' : LatencyProbe) : Prop where
  generation : s'.runGeneration = s.runGeneration
  caches : s'.caches = s.caches
  claimed : s'.claimed = s.claimed
  records : s'.records = s.records
  published : s'.published = s.published

/-- What a phase owns depends on the run's generation and the thread's cache alone. -/
theorem phaseOwns_congr {s s' : LatencyProbe} {thread : ℕ}
    (hgeneration : s'.runGeneration = s.runGeneration)
    (hcache : s'.caches thread = s.caches thread) (phase : RecordPhase) :
    PhaseOwns s' thread phase ↔ PhaseOwns s thread phase := by
  cases phase <;> simp only [PhaseOwns, hgeneration, hcache]

/-- Slot ownership is kept by a step after which the same threads own the same slots. -/
theorem OwnersSound.congr {s s' : LatencyProbe} (h : OwnersSound s) (hsame : SameOwners s s') :
    OwnersSound s' := by
  obtain ⟨hgeneration, hcaches, hclaimed, hrecords, hpublished⟩ := hsame
  have howns : ∀ thread i, Owns s' thread i ↔ Owns s thread i := by
    intro thread i
    unfold Owns
    rw [hgeneration, hcaches, hrecords]
  constructor
  · intro thread other i hthread hother
    exact h.alone thread other i ((howns _ _).mp hthread) ((howns _ _).mp hother)
  · intro thread i hown
    rw [hclaimed]
    exact h.claimed thread i ((howns _ _).mp hown)
  · intro thread
    rw [phaseOwns_congr hgeneration (congrFun hcaches thread), hrecords]
    exact h.phases thread
  · rw [hpublished, hcaches, hgeneration]
    exact h.published

/-- A step of one thread: it may become the owner of a slot that had none. -/
theorem OwnersSound.threadStep {s s' : LatencyProbe} (h : OwnersSound s) (thread : ℕ)
    (hgeneration : s'.runGeneration = s.runGeneration)
    (hcaches : ∀ other, other ≠ thread → s'.caches other = s.caches other)
    (hrecords : ∀ other, other ≠ thread → s'.records other = s.records other)
    (hclaimed : ∀ i, s.claimed i = true → s'.claimed i = true)
    (howns : ∀ i, Owns s' thread i → Owns s thread i ∨ s.claimed i = false ∧ s'.claimed i = true)
    (hphase : PhaseOwns s' thread (s'.records thread))
    (hkept : (s.caches thread).generation = s.runGeneration →
      s'.caches thread = s.caches thread)
    (hpublished : ∀ p ∈ s'.published, p ∈ s.published ∨ ∀ i, p.destination = some (some i) →
      s.caches p.thread = ⟨s.runGeneration, some i⟩) : OwnersSound s' := by
  have hother : ∀ other i, other ≠ thread → (Owns s' other i ↔ Owns s other i) := by
    intro other i hne
    unfold Owns
    rw [hgeneration, hcaches other hne, hrecords other hne]
  have hsame : ∀ other, (s.caches other).generation = s.runGeneration →
      s'.caches other = s.caches other := by
    intro other hcurrent
    by_cases heq : other = thread
    · rw [heq] at hcurrent ⊢
      exact hkept hcurrent
    · exact hcaches other heq
  -- the thread against another one
  have hapart : ∀ other i, other ≠ thread → Owns s' thread i → ¬ Owns s' other i := by
    intro other i hne hown hotherOwn
    rw [hother other i hne] at hotherOwn
    rcases howns i hown with hold | ⟨hfree, -⟩
    · exact hne (h.alone other thread i hotherOwn hold)
    · rw [h.claimed other i hotherOwn] at hfree
      cases hfree
  constructor
  · intro one other i hone hotherOwn
    by_cases hleft : one = thread
    · by_cases hright : other = thread
      · rw [hleft, hright]
      · rw [hleft] at hone
        exact absurd hotherOwn (hapart other i hright hone)
    · by_cases hright : other = thread
      · rw [hright] at hotherOwn
        exact absurd hone (hapart one i hleft hotherOwn)
      · exact h.alone one other i ((hother _ _ hleft).mp hone) ((hother _ _ hright).mp hotherOwn)
  · intro other i hown
    by_cases heq : other = thread
    · rw [heq] at hown
      rcases howns i hown with hold | ⟨-, hnew⟩
      · exact hclaimed i (h.claimed thread i hold)
      · exact hnew
    · exact hclaimed i (h.claimed other i ((hother _ _ heq).mp hown))
  · intro other
    by_cases heq : other = thread
    · rw [heq]
      exact hphase
    · rw [phaseOwns_congr hgeneration (hcaches other heq), hrecords other heq]
      exact h.phases other
  · intro p hp i hdestination
    have hcache : s.caches p.thread = ⟨s.runGeneration, some i⟩ := by
      rcases hpublished p hp with hold | hnew
      · exact h.published p hold i hdestination
      · exact hnew i hdestination
    rw [hgeneration, hsame p.thread (by rw [hcache]), hcache]

section Proceed

variable {s : LatencyProbe} {thread : ℕ}

/-- A step to another phase that changes nothing else of what ownership depends on. -/
theorem OwnersSound.goTo {s' : LatencyProbe} (h : OwnersSound s) (phase : RecordPhase)
    (hsame : SameOwners (s.goTo thread phase) s')
    (hclaiming : ∀ i, RecordPhase.claiming phase = some i →
      RecordPhase.claiming (s.records thread) = some i)
    (hphase : PhaseOwns s thread phase) : OwnersSound s' := by
  refine OwnersSound.congr ?_ hsame
  refine h.threadStep thread rfl (fun _ _ => rfl) ?_ (fun _ hi => hi) ?_ ?_
    (fun _ => rfl) fun p hp => .inl hp
  · intro other hne
    exact Function.update_of_ne hne _ _
  · rintro i (hcache | hclaim)
    · exact .inl (.inl hcache)
    · rw [LatencyProbe.goTo_records_self] at hclaim
      exact .inl (.inr (hclaiming i hclaim))
  · rw [LatencyProbe.goTo_records_self]
    cases phase <;> exact hphase

/-- The start of a push goes to a phase that claims nothing and owns what the cache says. -/
theorem sameOwners_startPush (event : LatencyEvent) (slot : Option ℕ) :
    ∃ phase, RecordPhase.claiming phase = none ∧
      (s.caches thread = ⟨s.runGeneration, slot⟩ → PhaseOwns s thread phase) ∧
      SameOwners (s.goTo thread phase) (s.startPush thread event slot) := by
  cases slot with
  | some i => exact ⟨.pushSlot event i, rfl, fun hcache => hcache, ⟨rfl, rfl, rfl, rfl, rfl⟩⟩
  | none => exact ⟨.pushOverflow event, rfl, fun _ => trivial, ⟨rfl, rfl, rfl, rfl, rfl⟩⟩

/-- A push started on the cached slot keeps the ownership sound. -/
theorem OwnersSound.startPush (h : OwnersSound s) (event : LatencyEvent) {slot : Option ℕ}
    (hcache : s.caches thread = ⟨s.runGeneration, slot⟩) :
    OwnersSound (s.startPush thread event slot) := by
  obtain ⟨phase, hclaiming, hphase, hsame⟩ := @sameOwners_startPush s thread event slot
  refine h.goTo phase hsame ?_ (hphase hcache)
  intro i hi
  rw [hclaiming] at hi
  cases hi

/-- A thread that has looked for a slot keeps the answer. -/
theorem OwnersSound.cacheSlot {s' : LatencyProbe} (h : OwnersSound s) (event : LatencyEvent)
    (slot : Option ℕ) (hslot : slot = none ∨ RecordPhase.claiming (s.records thread) = slot)
    (hcache : (s.caches thread).generation ≠ s.runGeneration)
    (hsame : SameOwners ((s.cacheSlot thread s.runGeneration slot).goTo thread
      (.unlockRegistration event slot)) s') : OwnersSound s' := by
  refine OwnersSound.congr ?_ hsame
  refine h.threadStep thread rfl ?_ ?_ (fun _ hi => hi) ?_ ?_
    (fun hcurrent => absurd hcurrent hcache) fun p hp => .inl hp
  · intro other hne
    exact Function.update_of_ne hne _ _
  · intro other hne
    exact Function.update_of_ne hne _ _
  · rintro i (hnow | hclaim)
    · change Function.update s.caches thread ⟨s.runGeneration, slot⟩ thread = _ at hnow
      rw [Function.update_self, ProducerSlotCache.mk.injEq] at hnow
      obtain ⟨-, rfl⟩ := hnow
      rcases hslot with hnone | hclaiming
      · cases hnone
      · exact .inl (.inr hclaiming)
    · rw [LatencyProbe.goTo_records_self] at hclaim
      cases hclaim
  · rw [LatencyProbe.goTo_records_self]
    show Function.update s.caches thread ⟨s.runGeneration, slot⟩ thread = _
    rw [Function.update_self]
    rfl

/-- The queue of the owner has taken an event, or a queue without owner, or none. -/
theorem OwnersSound.publish {s' : LatencyProbe} (h : OwnersSound s)
    {destination : Option ProbeQueue} {event : LatencyEvent} {phase : RecordPhase}
    (howner : ∀ i, destination = some (some i) → s.caches thread = ⟨s.runGeneration, some i⟩)
    (hfree : phase = .idle ∨ phase = .countPending)
    (hsame : SameOwners ((s.publish thread destination event).goTo thread phase) s') :
    OwnersSound s' := by
  have hclaiming : RecordPhase.claiming phase = none := by
    rcases hfree with rfl | rfl <;> rfl
  refine OwnersSound.congr ?_ hsame
  refine h.threadStep thread rfl (fun _ _ => rfl) ?_ (fun _ hi => hi) ?_ ?_
    (fun _ => rfl) ?_
  · intro other hne
    exact Function.update_of_ne hne _ _
  · rintro i (hcache | hclaim)
    · exact .inl (.inl hcache)
    · rw [LatencyProbe.goTo_records_self, hclaiming] at hclaim
      cases hclaim
  · rw [LatencyProbe.goTo_records_self]
    rcases hfree with rfl | rfl <;> trivial
  · intro p hp
    rcases List.mem_append.mp hp with hold | hnew
    · exact .inl hold
    · rw [List.mem_singleton] at hnew
      subst hnew
      exact .inr howner

/-- One access of a recording thread keeps the ownership sound, claimed slots included. -/
theorem ownersSound_proceed (h : OwnersSound s) (spurious : Bool) :
    OwnersSound (s.proceed thread spurious) := by
  have hphase := h.phases thread
  cases hnow : s.records thread with
  | idle => simpa only [LatencyProbe.proceed, hnow] using h
  | loadEnabled call =>
    simp only [LatencyProbe.proceed, hnow]
    split_ifs
    · exact h.goTo (.loadRunId call) ⟨rfl, rfl, rfl, rfl, rfl⟩ (by rintro i ⟨⟩) trivial
    · exact h.goTo .idle ⟨rfl, rfl, rfl, rfl, rfl⟩ (by rintro i ⟨⟩) trivial
  | loadRunId call =>
    simp only [LatencyProbe.proceed, hnow]
    exact h.goTo (.loadGeneration _) ⟨rfl, rfl, rfl, rfl, rfl⟩ (by rintro i ⟨⟩) trivial
  | loadGeneration event =>
    simp only [LatencyProbe.proceed, hnow]
    split_ifs with hcurrent
    · apply h.startPush
      rw [← hcurrent]
    · exact h.goTo (.lockRegistration event _) ⟨rfl, rfl, rfl, rfl, rfl⟩ (by rintro i ⟨⟩) rfl
  | lockRegistration event generation =>
    rw [hnow] at hphase
    obtain rfl : generation = s.runGeneration := hphase
    simp only [LatencyProbe.proceed, hnow]
    cases s.registration with
    | some holder => exact h
    | none =>
      dsimp only
      split_ifs with hcurrent
      · refine h.goTo (.unlockRegistration event (s.caches thread).slot)
          ⟨rfl, rfl, rfl, rfl, rfl⟩ (by rintro i ⟨⟩) ?_
        show s.caches thread = _
        rw [← hcurrent]
      · exact h.goTo (.claimSlot event s.runGeneration 0) ⟨rfl, rfl, rfl, rfl, rfl⟩
          (by rintro i ⟨⟩) ⟨rfl, hcurrent⟩
  | claimSlot event generation i =>
    rw [hnow] at hphase
    obtain ⟨rfl, hcache⟩ := hphase
    simp only [LatencyProbe.proceed, hnow]
    split_ifs with hbound hclaimed
    · exact h.goTo (.claimSlot event s.runGeneration (i + 1)) ⟨rfl, rfl, rfl, rfl, rfl⟩
        (by rintro j ⟨⟩) ⟨rfl, hcache⟩
    · refine h.threadStep thread rfl (fun _ _ => rfl) ?_ ?_ ?_ ?_ (fun _ => rfl)
        fun p hp => .inl hp
      · intro other hne
        exact Function.update_of_ne hne _ _
      · intro j hj
        show Function.update s.claimed i true j = true
        rw [Function.update_apply, hj, ite_self]
      · rintro j (hold | hclaim)
        · exact .inl (.inl hold)
        · change RecordPhase.claiming ((s.goTo thread _).records thread) = some j at hclaim
          rw [LatencyProbe.goTo_records_self] at hclaim
          obtain rfl : i = j := Option.some.inj hclaim
          exact .inr ⟨by simpa using hclaimed, Function.update_self i true s.claimed⟩
      · change PhaseOwns _ thread ((s.goTo thread (.loadCount event _ i)).records thread)
        rw [LatencyProbe.goTo_records_self]
        exact ⟨rfl, hcache⟩
    · exact h.cacheSlot event none (.inl rfl) hcache ⟨rfl, rfl, rfl, rfl, rfl⟩
  | loadCount event generation i =>
    rw [hnow] at hphase
    obtain ⟨rfl, hcache⟩ := hphase
    simp only [LatencyProbe.proceed, hnow]
    split_ifs with hcount
    · refine h.goTo (.storeCount event s.runGeneration i) ⟨rfl, rfl, rfl, rfl, rfl⟩ ?_
        ⟨rfl, hcache⟩
      rw [hnow]
      exact fun j hj => hj
    · exact h.cacheSlot event (some i) (.inr (by rw [hnow]; rfl)) hcache ⟨rfl, rfl, rfl, rfl, rfl⟩
  | storeCount event generation i =>
    rw [hnow] at hphase
    obtain ⟨rfl, hcache⟩ := hphase
    simp only [LatencyProbe.proceed, hnow]
    exact h.cacheSlot event (some i) (.inr (by rw [hnow]; rfl)) hcache ⟨rfl, rfl, rfl, rfl, rfl⟩
  | unlockRegistration event slot =>
    rw [hnow] at hphase
    simp only [LatencyProbe.proceed, hnow]
    exact (h.startPush event hphase).congr ⟨rfl, rfl, rfl, rfl, rfl⟩
  | pushSlot event slot =>
    rw [hnow] at hphase
    have hset : OwnersSound (s.setQueue slot
        ((s.queues slot).step slotCapacity id .produce)) :=
      h.congr ⟨rfl, rfl, rfl, rfl, rfl⟩
    simp only [LatencyProbe.proceed, hnow]
    split
    · refine hset.publish ?_ (.inr rfl) ⟨rfl, rfl, rfl, rfl, rfl⟩
      intro i hi
      obtain rfl : slot = i := Option.some.inj (Option.some.inj hi)
      exact hphase
    · exact hset.goTo (.pushOverflow event) ⟨rfl, rfl, rfl, rfl, rfl⟩ (by rintro i ⟨⟩) trivial
    · exact hset
  | pushOverflow event =>
    simp only [LatencyProbe.proceed, hnow]
    split
    · refine h.publish ?_ (.inr rfl) ⟨rfl, rfl, rfl, rfl, rfl⟩
      intro i hi
      cases hi
    · exact h.goTo (.countDropped event) ⟨rfl, rfl, rfl, rfl, rfl⟩ (by rintro i ⟨⟩) trivial
    · exact h.congr ⟨rfl, rfl, rfl, rfl, rfl⟩
  | countDropped event =>
    simp only [LatencyProbe.proceed, hnow]
    refine h.publish ?_ (.inl rfl) ⟨rfl, rfl, rfl, rfl, rfl⟩
    intro i hi
    cases hi
  | countPending =>
    simp only [LatencyProbe.proceed, hnow]
    exact h.goTo .idle ⟨rfl, rfl, rfl, rfl, rfl⟩ (by rintro i ⟨⟩) trivial

end Proceed

/-! ## Runs -/

/-- The exporter's scan changes no owner. -/
theorem sameOwners_scanFrom (s : LatencyProbe) (producerCount offset : ℕ) :
    SameOwners s (s.scanFrom producerCount offset) := by
  unfold LatencyProbe.scanFrom
  split_ifs <;> exact ⟨rfl, rfl, rfl, rfl, rfl⟩

/-- Taking an event out of a slot's queue changes no owner. -/
theorem sameOwners_takeEvent (s : LatencyProbe) (queue : ProbeQueue) (event : LatencyEvent) :
    SameOwners s (s.takeEvent queue event) := by
  unfold LatencyProbe.takeEvent
  dsimp only
  split_ifs <;> exact ⟨rfl, rfl, rfl, rfl, rfl⟩

/-- The exporter owns nothing. -/
theorem ownersSound_exportNext {s : LatencyProbe} (h : OwnersSound s) (spurious : Bool) :
    OwnersSound (s.exportNext spurious) := by
  cases hnow : s.exporter with
  | loadCount =>
    simp only [LatencyProbe.exportNext, hnow]
    exact h.congr (sameOwners_scanFrom s _ 0)
  | loadClaimed producerCount offset =>
    simp only [LatencyProbe.exportNext, hnow]
    split_ifs
    · exact h.congr ⟨rfl, rfl, rfl, rfl, rfl⟩
    · exact h.congr (sameOwners_scanFrom s _ _)
  | popSlot producerCount offset idx =>
    have hset : OwnersSound (s.setQueue idx ((s.queues idx).step slotCapacity id .consume)) :=
      h.congr ⟨rfl, rfl, rfl, rfl, rfl⟩
    simp only [LatencyProbe.exportNext, hnow]
    split
    · exact (hset.congr (sameOwners_takeEvent _ (some idx) _)).congr ⟨rfl, rfl, rfl, rfl, rfl⟩
    · exact hset.congr (sameOwners_scanFrom _ _ _)
    · exact hset
  | popOverflow =>
    simp only [LatencyProbe.exportNext, hnow]
    split
    · refine OwnersSound.congr ?_ (sameOwners_takeEvent _ none _)
      exact h.congr ⟨rfl, rfl, rfl, rfl, rfl⟩
    · exact h.congr ⟨rfl, rfl, rfl, rfl, rfl⟩
    · exact h.congr ⟨rfl, rfl, rfl, rfl, rfl⟩
  | writing =>
    simp only [LatencyProbe.exportNext, hnow]
    cases s.batch <;> exact h.congr ⟨rfl, rfl, rfl, rfl, rfl⟩
  | loadRunning | loadPending | waiting | subtractPending | ended =>
    simp only [LatencyProbe.exportNext, hnow]
    exact h.congr ⟨rfl, rfl, rfl, rfl, rfl⟩

/-- Every event of the probe keeps the ownership sound. -/
theorem ownersSound_step {s : LatencyProbe} (h : OwnersSound s) (event : ProbeEvent) :
    OwnersSound (s.step event) := by
  cases event with
  | record thread call =>
    rw [LatencyProbe.step]
    split
    · exact h.goTo (.loadEnabled call) ⟨rfl, rfl, rfl, rfl, rfl⟩ (by rintro i ⟨⟩) trivial
    · exact h
  | proceed thread spurious => exact ownersSound_proceed h spurious
  | exportNext spurious => exact ownersSound_exportNext h spurious
  | stop =>
    rw [LatencyProbe.step]
    split <;> exact h.congr ⟨rfl, rfl, rfl, rfl, rfl⟩

end SpotRelay.Analysis
