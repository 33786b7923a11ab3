import SpotRelay.Analysis.ThreadSteps
import SpotRelay.Interface.TruthfulVenue

/-!
# After a critical stop

A critical stop suppresses entry, and it sets the same flag that the slots use.

* **the flag**: every write of `false` to it is listed (`liftsSuppression`); a step of the loops
  leaves entry suppressed and silent exactly if it makes none of them (`silent_step`).
* **the threads**: no access of a ticker update lifts the suppression, but a scan loads the flag
  once, and one that has passed this check emits what it has selected (`silent_proceed`).
* **runs**: so entry stays suppressed and silent after a critical stop exactly as long as no step
  writes the flag and no scan under way emits; where none was under way at the stop, the writes of
  the flag alone decide (`criticalStop_lasts_iff`).
-/

set_option autoImplicit false

namespace SpotRelay.Analysis

open SpotRelay.Model SpotRelay.Library SpotRelay.Interface

/-! ## The stop and the writes that undo it -/

/-- The iteration runs `trigger_critical_stop`, which alone clears `running_` there. -/
def triggersStop (s : System) : SystemEvent → Bool
  | .iterate i nowMs now replies => s.bot.running && !(s.iterateAt i nowMs now replies).bot.running
  | _ => false

/-- The step writes `false` to the suppression flag: a slot was released, a manual candidate is
declined, or an approved one gets no loop. -/
def liftsSuppression (s : System) : SystemEvent → Bool
  | .answerPrompt approved =>
    s.manualPrompt.isSome && (!approved || !claims s && s.manualConfirmOnce)
  | .storeFlag i =>
    match s.flagStores[i]? with
    | none => false
    | some .released => true
    | some (.claimed task) =>
      !enqueues s && task.initialPosition.isNone && s.manualConfirmOnce
  | .pickUp positionSizeUsd now => s.pickUpRefused positionSizeUsd now && s.manualConfirmOnce
  | _ => false

variable (std : StdSort) (s : System)

/-! ## The flag after a step -/

/-- Entry is suppressed and nothing has been emitted beyond the given signals. -/
structure Silent (signals : List Engine.Emission) (s : System) : Prop where
  entrySuppressed : s.engine.entrySuppressed = true
  emitted : s.emitted = signals

/-- The end of a manual entry lifts the suppression in manual mode only, and emits nothing. -/
theorem suppressed_manualReset :
    s.manualReset.engine.entrySuppressed =
      (s.engine.entrySuppressed && !s.manualConfirmOnce) ∧ s.manualReset.emitted = s.emitted := by
  unfold System.manualReset
  split_ifs with hmanual
  · simp [System.setEntrySuppressed, hmanual]
  · simp [hmanual]

/-- A full queue lifts the suppression where it ends a manual entry, and emits nothing. -/
theorem suppressed_enqueue (task : LifecycleTask) :
    (s.enqueue task).engine.entrySuppressed =
        (s.engine.entrySuppressed &&
          !(!enqueues s && task.initialPosition.isNone && s.manualConfirmOnce)) ∧
      (s.enqueue task).emitted = s.emitted := by
  cases hok : enqueues s with
  | true =>
    rw [enqueue_of_enqueues s task hok]
    simp
  | false =>
    have hfails : ¬ (s.executorRunning ∧ s.bot.queue.length < queueCapacity) := by
      simpa [enqueues] using hok
    have hreset := suppressed_manualReset s.release
    simp only [System.enqueue, if_neg hfails]
    split_ifs with hnone
    · simpa [hnone, System.release] using hreset
    · simp [hnone, System.release]

/-- A claim without a slot lifts the suppression where it ends a manual entry, and emits nothing. -/
theorem suppressed_claim (task : LifecycleTask) :
    (s.claim task).engine.entrySuppressed =
        (s.engine.entrySuppressed &&
          !(!claims s && task.initialPosition.isNone && s.manualConfirmOnce)) ∧
      (s.claim task).emitted = s.emitted := by
  simp only [System.claim, tryClaimSlot_eq]
  by_cases hslot : s.bot.activeLoops < s.bot.maxPositions.val
  · simp only [hslot, if_true]
    split_ifs with hlast
    · simp [claims, hslot, hlast]
    · have henqueue := suppressed_enqueue
        { s with bot := { s.bot with activeLoops := s.bot.activeLoops + 1 } } task
      have hclaims : claims s = enqueues s := by simp [claims, hslot, hlast]
      rw [hclaims]
      exact henqueue
  · have hreset := suppressed_manualReset s
    simp only [hslot, if_false, claims, decide_false, Bool.false_and, Bool.not_false,
      Bool.true_and]
    split_ifs with hnone
    · simpa [hnone] using hreset
    · simp [hnone]

/-- An answer lifts the suppression exactly where `liftsSuppression` says so. -/
theorem suppressed_answerPrompt (approved : Bool) (h : s.engine.entrySuppressed = true) :
    (s.answerPrompt approved).engine.entrySuppressed =
        !liftsSuppression s (.answerPrompt approved) ∧
      (s.answerPrompt approved).emitted = s.emitted := by
  simp only [System.answerPrompt, liftsSuppression]
  cases s.manualPrompt with
  | none => exact ⟨by simpa using h, rfl⟩
  | some signal =>
    cases approved with
    | false => exact ⟨rfl, rfl⟩
    | true =>
      have hclaim := suppressed_claim { s with manualPrompt := none, manualTradePending := true }
        ⟨signal, none⟩
      have hsame : claims { s with manualPrompt := none, manualTradePending := true } = claims s :=
        rfl
      rw [hsame] at hclaim
      simp only [if_true, Option.isSome_some, Bool.true_and, Bool.not_true, Bool.false_or]
      exact ⟨by simpa [h] using hclaim.1, hclaim.2⟩

/-- A flag store lifts the suppression exactly where `liftsSuppression` says so. -/
theorem suppressed_storeFlag (i : ℕ) (h : s.engine.entrySuppressed = true) :
    (s.storeFlag i).engine.entrySuppressed = !liftsSuppression s (.storeFlag i) ∧
      (s.storeFlag i).emitted = s.emitted := by
  simp only [System.storeFlag, liftsSuppression]
  cases s.flagStores[i]? with
  | none => exact ⟨h, rfl⟩
  | some store =>
    cases store with
    | released => exact ⟨rfl, rfl⟩
    | claimed task =>
      have henqueue := suppressed_enqueue
        ({ s with flagStores := s.flagStores.eraseIdx i }.setEntrySuppressed true) task
      exact ⟨henqueue.1, henqueue.2⟩

/-- A loop that begins lifts the suppression exactly where `liftsSuppression` says so. -/
theorem suppressed_pickUp (positionSizeUsd : ℚ) (now : Timestamp)
    (h : s.engine.entrySuppressed = true) :
    (s.pickUp positionSizeUsd now).engine.entrySuppressed =
        !liftsSuppression s (.pickUp positionSizeUsd now) ∧
      (s.pickUp positionSizeUsd now).emitted = s.emitted := by
  simp only [liftsSuppression]
  cases hrefused : s.pickUpRefused positionSizeUsd now with
  | true =>
    obtain ⟨task, rest, -, hpick⟩ := pickUp_of_refused s hrefused
    rw [hpick]
    simp only [System.manualEntryFailed]
    split_ifs with hmanual
    · simp [System.setEntrySuppressed, hmanual]
    · simp [h, hmanual]
  | false =>
    rcases pickUp_of_not_refused s hrefused with hsame | ⟨task, rest, loop, -, -, hpick⟩
    · rw [hsame]
      exact ⟨by simpa using h, rfl⟩
    · rw [hpick]
      exact ⟨by simpa using h, rfl⟩

/-- While entry is suppressed, a step of the loops, of start-up or of shut-down leaves it so exactly
if it does not write the flag. -/
theorem silent_step (signals : List Engine.Emission) (event : LoopEvent)
    (h : Silent signals s) :
    Silent signals (systemStep std s event.val) ↔ liftsSuppression s event.val = false := by
  obtain ⟨hset, hsent⟩ := h
  obtain ⟨event, hloops⟩ := event
  have hexact : ∀ s' : System, s'.engine.entrySuppressed = !liftsSuppression s event →
      s'.emitted = s.emitted → (Silent signals s' ↔ liftsSuppression s event = false) := by
    intro s' hflag hemitted
    constructor
    · intro h'
      simpa [hflag] using h'.entrySuppressed
    · intro hkeeps
      exact ⟨by simp [hflag, hkeeps], hemitted.trans hsent⟩
  cases event with
  | tickerUpdate clock ticker => cases hloops
  | publishTransfers snapshot => exact hexact _ hset rfl
  | refreshEntryFilters nowMs => cases hloops
  | callback i => cases hloops
  | answerPrompt approved =>
    obtain ⟨hflag, hemitted⟩ := suppressed_answerPrompt s approved hset
    exact hexact _ hflag hemitted
  | storeFlag i =>
    obtain ⟨hflag, hemitted⟩ := suppressed_storeFlag s i hset
    exact hexact _ hflag hemitted
  | startExecutor => exact hexact _ hset rfl
  | stopExecutor => exact hexact _ hset rfl
  | launchRecovered usdtKrwRate =>
    simp only [systemStep, System.launchRecovered]
    cases s.bot.pendingRecovery with
    | none => exact hexact _ hset rfl
    | some pos =>
      have hclaim := suppressed_claim { s with bot := { s.bot with pendingRecovery := none } }
        ⟨recoverySignal pos usdtKrwRate, some pos⟩
      simp only [Option.isNone_some, Bool.and_false, Bool.false_and, Bool.not_false,
        Bool.and_true] at hclaim
      exact hexact _ (hclaim.1.trans hset) hclaim.2
  | pickUp positionSizeUsd now =>
    obtain ⟨hflag, hemitted⟩ := suppressed_pickUp s positionSizeUsd now hset
    exact hexact _ hflag hemitted
  | iterate i nowMs now replies =>
    simp only [systemStep, System.iterateAt]
    cases s.bot.loops[i]? with
    | none => exact hexact _ hset rfl
    | some loop =>
      simp only
      split_ifs
      · exact hexact _ rfl rfl
      · exact hexact _ hset rfl
  | loopReturns i =>
    simp only [systemStep, System.returnAt]
    split_ifs
    · exact hexact _ hset rfl
    · exact hexact _ hset rfl
  | shutdown => exact hexact _ hset rfl

/-! ## The accesses of a thread -/

/-- The next access of a thread is the emission of a signal. -/
def emits : TickPhase → Bool
  | .fire _ .emit => true
  | _ => false

/-- A thread in a scan that has passed its check of the suppression flag. -/
def scanning : TickPhase → Bool
  | .select | .nextCandidate .. | .fire .. => true
  | _ => false

/-- The entry callback lifts nothing and emits nothing. -/
theorem suppressed_takeUp (signal : ArbitrageSignal) (h : s.engine.entrySuppressed = true) :
    (s.takeUp signal).engine.entrySuppressed = true ∧ (s.takeUp signal).emitted = s.emitted := by
  unfold System.takeUp
  split_ifs with hmanual
  · exact ⟨h, rfl⟩
  · exact ⟨rfl, rfl⟩
  · have hclaim := suppressed_claim s ⟨signal, none⟩
    refine ⟨?_, hclaim.2⟩
    rw [hclaim.1]
    simp [h, hmanual]

/-- An access of an entry leaves the suppression flag. -/
theorem entrySuppressed_flagStep (e : Engine) (idx : ℕ) (phase : FlagPhase) :
    (e.flagStep idx phase).1.entrySuppressed = e.entrySuppressed := by
  cases phase with
  | wasQualified => rfl
  | wasFired wasQualified =>
    simp only [Engine.flagStep]
    split_ifs <;> rfl
  | unqualify => rfl
  | unfire => rfl
  | values best => rfl
  | loadQualified qualifies => rfl
  | storeQualified wasQualified qualifies => rfl
  | loadFired wasQualified qualifies =>
    simp only [Engine.flagStep]
    split_ifs <;> rfl
  | resetFired qualifies => rfl
  | candidateBit qualifies signalFired =>
    simp only [Engine.flagStep, Engine.setCandidateBit]
    split_ifs <;> rfl
  | firedBit signalFired =>
    simp only [Engine.flagStep, Engine.setFiredBit]
    split_ifs <;> rfl

/-- A rate update leaves the suppression flag. -/
theorem entrySuppressed_onUsdtUpdate (e : Engine) (ex : Exchange) (price : ℚ) :
    (e.onUsdtUpdate ex price).entrySuppressed = e.entrySuppressed := by
  simp only [Engine.onUsdtUpdate]
  split_ifs <;> rfl

/-- No access lifts the suppression, and only an emission emits. -/
theorem silent_tickStep (nowMs : UInt64) (phase : TickPhase)
    (h : s.engine.entrySuppressed = true) :
    (s.tickStep nowMs phase).1.engine.entrySuppressed = true ∧
      ((s.tickStep nowMs phase).1.emitted = s.emitted ↔ emits phase = false) := by
  have hquiet : ∀ s' : System, s'.engine.entrySuppressed = true → s'.emitted = s.emitted →
      emits phase = false → s'.engine.entrySuppressed = true ∧
        (s'.emitted = s.emitted ↔ emits phase = false) :=
    fun s' hset hsame hphase => ⟨hset, iff_of_true hsame hphase⟩
  cases phase with
  | idle => exact hquiet _ h rfl rfl
  | cachePrice ticker => exact hquiet _ h rfl rfl
  | usdtUpdate ticker => exact hquiet _ ((entrySuppressed_onUsdtUpdate ..).trans h) rfl rfl
  | nextEntry idx usdt =>
    simp only [System.tickStep]
    split_ifs <;> exact hquiet _ h rfl rfl
  | evaluate phase after => exact hquiet _ h rfl rfl
  | flags idx phase after => exact hquiet _ ((entrySuppressed_flagStep ..).trans h) rfl rfl
  | askQualified idx => exact hquiet _ h rfl rfl
  | askFired idx => exact hquiet _ h rfl rfl
  | loadDue usdt => exact hquiet _ h rfl rfl
  | exchangeDue usdt due target =>
    simp only [System.tickStep, System.storeDue]
    split_ifs <;> exact hquiet _ h rfl rfl
  | loadSuppressed => exact hquiet _ h rfl rfl
  | select => exact hquiet _ h rfl rfl
  | nextCandidate indices positionState => exact hquiet _ h rfl rfl
  | fire c phase =>
    simp only [System.tickStep]
    cases phase with
    | loadQualified =>
      simp only [System.fireStep]
      split_ifs <;> exact hquiet _ h rfl rfl
    | loadFired =>
      simp only [System.fireStep]
      split_ifs <;> exact hquiet _ h rfl rfl
    | storeFired => exact hquiet _ h rfl rfl
    | candidateBit =>
      refine hquiet _ ?_ rfl rfl
      simp only [System.fireStep, Engine.setCandidateBit]
      split_ifs <;> exact h
    | firedBit =>
      refine hquiet _ ?_ rfl rfl
      simp only [System.fireStep, Engine.setFiredBit]
      split_ifs <;> exact h
    | emit => exact ⟨h, iff_of_false (by simp [System.fireStep]) Bool.noConfusion⟩
    | checkPosition signal =>
      simp only [System.fireStep]
      split_ifs <;> exact hquiet _ h rfl rfl
    | checkPending signal =>
      simp only [System.fireStep]
      split_ifs <;> exact hquiet _ h rfl rfl
    | takeUp signal =>
      obtain ⟨hset, hsame⟩ := suppressed_takeUp s signal h
      exact hquiet _ hset hsame rfl

/-! ## Steps of the threads -/

/-- The step writes `false` to the suppression flag. -/
def lifts (t : ThreadedSystem) : ThreadEvent → Bool
  | .other event => liftsSuppression t.system event.val
  | _ => false

/-- A scan that has passed its check of the flag emits a signal. -/
def firesLate (t : ThreadedSystem) : ThreadEvent → Bool
  | .proceed thread _ => t.threads[thread]?.any emits
  | _ => false

/-- No thread is in a scan that has passed its check of the flag. -/
def NoScan (t : ThreadedSystem) : Prop := ∀ phase ∈ t.threads, scanning phase = false

instance (t : ThreadedSystem) : Decidable (NoScan t) :=
  inferInstanceAs (Decidable (∀ phase ∈ t.threads, _))

variable (t : ThreadedSystem)

/-- A call that begins leaves the shared state. -/
theorem system_beginCall (thread : ℕ) (phase : TickPhase) :
    (t.beginCall thread phase).system = t.system := by
  unfold ThreadedSystem.beginCall
  split <;> rfl

/-- The selection of a scan leaves the shared state. -/
theorem system_selectAt (thread : ℕ) (reads : ScanReads) :
    (t.selectAt std thread reads).system = t.system := by
  unfold ThreadedSystem.selectAt
  split <;> rfl

/-- While entry is suppressed, a step leaves it so and emits nothing exactly if it neither writes
the flag nor is the emission of a scan. -/
theorem silent_threadStep (signals : List Engine.Emission) (event : ThreadEvent)
    (h : Silent signals t.system) :
    Silent signals (t.step std event).system ↔
      lifts t event = false ∧ firesLate t event = false := by
  cases event with
  | other event =>
    have hexact := silent_step std t.system signals event h
    simpa [ThreadedSystem.step, lifts, firesLate] using hexact
  | tick thread ticker =>
    refine iff_of_true ?_ ⟨rfl, rfl⟩
    rwa [ThreadedSystem.step, system_beginCall]
  | refresh thread =>
    refine iff_of_true ?_ ⟨rfl, rfl⟩
    rwa [ThreadedSystem.step, system_beginCall]
  | select thread reads =>
    refine iff_of_true ?_ ⟨rfl, rfl⟩
    rwa [ThreadedSystem.step, system_selectAt]
  | proceed thread nowMs =>
    cases hphase : t.threads[thread]? with
    | none =>
      have hsame : t.step std (.proceed thread nowMs) = t := by
        simp only [ThreadedSystem.step, ThreadedSystem.proceed, hphase]
      rw [hsame]
      exact iff_of_true h ⟨rfl, by simp [firesLate, hphase]⟩
    | some phase =>
      obtain ⟨hset, hsame⟩ := silent_tickStep t.system nowMs phase h.entrySuppressed
      have hstep : (t.step std (.proceed thread nowMs)).system =
          (t.system.tickStep nowMs phase).1 := by
        simp only [ThreadedSystem.step, ThreadedSystem.proceed, hphase]
      have hfires : firesLate t (.proceed thread nowMs) = emits phase := by
        simp only [firesLate, hphase, Option.any_some]
      rw [hstep, hfires]
      constructor
      · intro hafter
        exact ⟨rfl, hsame.mp (hafter.emitted.trans h.emitted.symm)⟩
      · rintro ⟨-, hquiet⟩
        exact ⟨hset, (hsame.mpr hquiet).trans h.emitted⟩

/-- While entry is suppressed no thread passes the check. -/
theorem scanning_tickStep (nowMs : UInt64) {phase : TickPhase}
    (h : s.engine.entrySuppressed = true) (hphase : scanning phase = false) :
    scanning (s.tickStep nowMs phase).2 = false := by
  have hcall : ∀ idx after, scanning (.callEntry s.engine idx after) = false := by
    intro idx after
    unfold TickPhase.callEntry
    split
    · cases after <;> rfl
    · split_ifs <;> rfl
  cases phase with
  | idle => rfl
  | cachePrice ticker =>
    simp only [System.tickStep]
    split_ifs
    · rfl
    · cases s.engine.tickerIndex ticker with
      | none => rfl
      | some idx => exact hcall idx _
  | usdtUpdate ticker => rfl
  | nextEntry idx usdt =>
    simp only [System.tickStep]
    split_ifs
    · exact hcall idx _
    · rfl
    · rfl
  | evaluate phase after =>
    simp only [System.tickStep, TickPhase.evaluateStep]
    split
    · cases after <;> rfl
    · rfl
    · rfl
    · rfl
  | flags idx phase after =>
    simp only [System.tickStep]
    cases (s.engine.flagStep idx phase).2 with
    | none => cases after <;> rfl
    | some phase => rfl
  | askQualified idx =>
    simp only [System.tickStep]
    split_ifs <;> rfl
  | askFired idx =>
    simp only [System.tickStep]
    split_ifs <;> rfl
  | loadDue usdt =>
    simp only [System.tickStep]
    split_ifs <;> rfl
  | exchangeDue usdt due target =>
    simp only [System.tickStep]
    split_ifs <;> rfl
  | loadSuppressed => simp [System.tickStep, h, scanning]
  | select => cases hphase
  | nextCandidate indices positionState => cases hphase
  | fire c phase => cases hphase

/-- A thread whose step does not begin a scan leaves no scan under way. -/
theorem noScan_set (h : NoScan t) (thread : ℕ) {phase : TickPhase}
    (hphase : scanning phase = false) (system : System) :
    NoScan { system := system, threads := t.threads.set thread phase } := by
  intro other hother
  rcases List.mem_or_eq_of_mem_set hother with hother | rfl
  · exact h other hother
  · exact hphase

/-- While entries are suppressed no scan begins. -/
theorem noScan_step (event : ThreadEvent) (h : t.system.engine.entrySuppressed = true)
    (hnone : NoScan t) : NoScan (t.step std event) := by
  cases event with
  | other event => exact hnone
  | tick thread ticker =>
    simp only [ThreadedSystem.step, ThreadedSystem.beginCall]
    split
    · exact noScan_set t hnone thread rfl t.system
    · exact hnone
  | refresh thread =>
    simp only [ThreadedSystem.step, ThreadedSystem.beginCall]
    split
    · exact noScan_set t hnone thread rfl t.system
    · exact hnone
  | select thread reads =>
    simp only [ThreadedSystem.step, ThreadedSystem.selectAt]
    split
    · rename_i hselect
      cases hnone _ (List.mem_of_getElem? hselect)
    · exact hnone
  | proceed thread nowMs =>
    simp only [ThreadedSystem.step, ThreadedSystem.proceed]
    split
    · exact hnone
    · rename_i phase hphase
      exact noScan_set t hnone thread
        (scanning_tickStep t.system nowMs h (hnone phase (List.mem_of_getElem? hphase))) _

/-- Without a scan under way nothing is emitted. -/
theorem firesLate_of_noScan (hnone : NoScan t) (event : ThreadEvent) :
    firesLate t event = false := by
  cases event with
  | proceed thread nowMs =>
    cases hphase : t.threads[thread]? with
    | none => simp [firesLate, hphase]
    | some phase =>
      have hquiet := hnone phase (List.mem_of_getElem? hphase)
      simp only [firesLate, hphase, Option.any_some]
      cases phase with
      | fire c phase => cases hquiet
      | _ => rfl
  | _ => rfl

/-! ## Runs after a critical stop -/

/-- A critical stop suppresses entry and signals nothing. -/
theorem silent_of_triggersStop (event : SystemEvent) (h : triggersStop s event = true) :
    Silent s.emitted (systemStep std s event) := by
  cases event with
  | iterate i nowMs now replies =>
    simp only [triggersStop, Bool.and_eq_true, Bool.not_eq_true'] at h
    simp only [systemStep]
    revert h
    simp only [System.iterateAt]
    cases s.bot.loops[i]? with
    | none =>
      rintro ⟨hrunning, hstopped⟩
      rw [hrunning] at hstopped
      cases hstopped
    | some loop =>
      simp only
      split_ifs with hstop
      · exact fun _ => ⟨rfl, rfl⟩
      · rintro ⟨hrunning, hstopped⟩
        exact absurd (Bool.and_eq_true_iff.mpr ⟨hrunning, by simpa using hstopped⟩) hstop
  | _ => cases h

/-- From a suppressed state without a scan under way, entry stays suppressed and silent throughout
exactly those runs that do not write the flag. -/
theorem silent_throughout_iff_of_noScan (signals : List Engine.Emission)
    (events : List ThreadEvent) (h : Silent signals t.system) (hnone : NoScan t) :
    (∀ done, done <+: events → Silent signals (t.run std done).system) ↔
      Run.Along (fun t event => lifts t event = false) (ThreadedSystem.step std) t events := by
  have hboth := Run.throughout_iff (P := fun t event => lifts t event = false)
    (fun t : ThreadedSystem => Silent signals t.system ∧ NoScan t)
    (fun t event hsilent => by
      rw [silent_threadStep std t signals event hsilent.1,
        and_iff_left (firesLate_of_noScan t hsilent.2 event)]
      exact and_iff_left (noScan_step std t event hsilent.1.entrySuppressed hsilent.2))
    events t ⟨h, hnone⟩
  constructor
  · intro hsilent
    have halong := (Run.throughout_iff (fun t : ThreadedSystem => Silent signals t.system)
      (fun t event h => silent_threadStep std t signals event h) events t h).mp hsilent
    exact halong.mono fun _ _ hstep => hstep.1
  · intro halong done hdone
    exact (hboth.mpr halong done hdone).1

/-- After a critical stop entry stays suppressed, and no signal is emitted, throughout exactly those
runs in which no released slot and no manual reset writes the flag and no scan under way emits;
where no scan is under way at the stop, the writes alone decide. -/
theorem criticalStop_lasts_iff (stop : LoopEvent) (events : List ThreadEvent)
    (hstop : triggersStop t.system stop.val = true) :
    let stopped := t.step std (.other stop)
    ((∀ done, done <+: events → Silent t.system.emitted (stopped.run std done).system) ↔
      Run.Along (fun t event => lifts t event = false ∧ firesLate t event = false)
        (ThreadedSystem.step std) stopped events) ∧
    (NoScan t →
      ((∀ done, done <+: events → Silent t.system.emitted (stopped.run std done).system) ↔
        Run.Along (fun t event => lifts t event = false) (ThreadedSystem.step std) stopped
          events)) := by
  intro stopped
  have hsilent : Silent t.system.emitted stopped.system :=
    silent_of_triggersStop std t.system stop.val hstop
  constructor
  · exact Run.throughout_iff (fun s : ThreadedSystem => Silent t.system.emitted s.system)
      (fun s event h => silent_threadStep std s t.system.emitted event h) events stopped hsilent
  · intro hnone
    exact silent_throughout_iff_of_noScan std stopped t.system.emitted events hsilent hnone

/-! ## A stop that lasts and one that does not -/

/-- A loop for AAA is running. -/
def loopOfAAA : List ThreadEvent := launchOfAAA ++ [pickUpFirst]

/-- The short is filled, and neither the buy nor the rollback is. -/
def nakedShort : LoopEvent :=
  ⟨.iterate 0 1150 0 (legReplies (executingForeign (35 / 2) 2) rejectingKorean), rfl⟩

/-- BBB qualifies after the stop. -/
def signalOfBBB : List ThreadEvent :=
  tickRun 0 1200 (foreignTicker "BBB" 1200) {} ++
    tickRun 0 1200 (koreanTicker "BBB" 1950 1200) (candidateReads 1)

/-- The general result for a run of two coins with a critical stop. -/
theorem criticalStop_lasts_signalOfBBB :
    let t := (twoCoinThreads ⟨2, by decide, by decide⟩).run .insertion loopOfAAA
    ∀ done, done <+: signalOfBBB →
      Silent t.system.emitted ((t.step .insertion (.other nakedShort)).run .insertion done).system := by
  intro t
  refine ((criticalStop_lasts_iff .insertion t nakedShort signalOfBBB (by decide +kernel)).2
    (by decide +kernel)).mpr ?_
  decide +kernel

/-- Once the loop has returned and its guard has released the slot, BBB is signalled. -/
theorem signal_after_criticalStop :
    ¬ ∀ (std : StdSort) (threads : ℕ) (maxPositions : MaxPositions) (blacklist : List SymbolId)
      (recovered : Option Position) (symbols : SymbolTable) (pairs : List ExchangePairConfig)
      (manualConfirmOnce : Bool) (before : List ThreadEvent) (stop : LoopEvent)
      (events : List ThreadEvent),
      let t := (ThreadedSystem.start threads maxPositions blacklist recovered symbols pairs
        manualConfirmOnce).run std before
      triggersStop t.system stop.val = true →
        ∀ done, done <+: events →
          Silent t.system.emitted ((t.step std (.other stop)).run std done).system := by
  intro h
  have hsilent := h .insertion 2 ⟨2, by decide, by decide⟩ [] none
    ((SymbolTable.empty.add (.of "AAA" "KRW")).add (.of "BBB" "KRW"))
    [⟨.bithumb, .bybit, true⟩] false loopOfAAA nakedShort
    ([.other ⟨.loopReturns 0, rfl⟩, storeFirstFlag] ++ signalOfBBB) (by decide +kernel)
    _ List.prefix_rfl
  have hcount := congrArg List.length hsilent.emitted
  revert hcount
  decide +kernel

end SpotRelay.Analysis
