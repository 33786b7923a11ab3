import SpotRelay.Analysis.SystemSteps
import SpotRelay.Model.EngineThreads

/-!
# What one access of a thread does

A thread in a ticker update changes the flags and the bits of an entry, emits signals, and claims
slots for them in the entry callback.

* **a whole call**: without other threads the accesses of an evaluation are `storeQualification` or
  `clearState`, and those for a candidate are `fireCandidate` (`flagRun_values`, `flagRun_clear`,
  `fireRun_eq`).
* **symbols on their way**: a signal is on its way to a loop from the load of `signal_fired` that
  finds it clear, or for a top-up from the look-up that finds its position gone, to the claim of a
  slot.  An access takes up at most one symbol (`takesUp?`), and none is doubled
  (`keepsCount_tickStep`); the other steps of the system launch nothing (`count_occupants_ofLoops`).
-/

set_option autoImplicit false

namespace SpotRelay.Analysis

open SpotRelay.Model SpotRelay.Library

/-! ## Without other threads -/

/-- The accesses of a call of `update_symbol_entry` one after the other. -/
def flagRun : ℕ → Engine → ℕ → FlagPhase → Engine
  | 0, e, _, _ => e
  | fuel + 1, e, idx, phase =>
    match e.flagStep idx phase with
    | (e, none) => e
    | (e, some phase) => flagRun fuel e idx phase

/-- The last of two stores of an entry stays. -/
theorem setEntry_setEntry (e : Engine) (idx : ℕ) (first last : CachedEntryPremium) :
    (e.setEntry idx first).setEntry idx last = e.setEntry idx last := by
  simp only [Engine.setEntry]
  congr 1
  funext i
  split_ifs <;> rfl

/-- A stored entry is read back. -/
theorem entryCache_setEntry (e : Engine) (idx : ℕ) (entry : CachedEntryPremium) :
    (e.setEntry idx entry).entryCache idx = entry :=
  if_pos rfl

/-- The two bits together are `sync_entry_state_bits`. -/
theorem setFiredBit_setCandidateBit (e : Engine) (idx : ℕ) (qualifies signalFired : Bool) :
    (e.setCandidateBit idx qualifies signalFired).setFiredBit idx signalFired =
      e.syncEntryStateBits idx qualifies signalFired := by
  unfold Engine.setFiredBit Engine.setCandidateBit Engine.syncEntryStateBits
  split_ifs <;> rfl

/-- The stores for the best pair. -/
theorem flagRun_values (e : Engine) (idx : ℕ) (best : Engine.PairQuote) :
    flagRun 7 e idx (.values best) = e.storeQualification idx best := by
  have hstored : flagRun 7 e idx (.values best) =
      flagRun 4 ((e.setEntry idx (Engine.storedEntry (e.entryCache idx) best)).storeQualified idx
        best.qualifies) idx (.loadFired (e.entryCache idx).qualified best.qualifies) := by
    simp only [flagRun, Engine.flagStep, entryCache_setEntry]
    rfl
  have hentry : (e.setEntry idx (Engine.storedEntry (e.entryCache idx) best)).storeQualified idx
      best.qualifies = e.setEntry idx
        { Engine.storedEntry (e.entryCache idx) best with qualified := best.qualifies } := by
    rw [Engine.storeQualified, entryCache_setEntry, setEntry_setEntry]
  rw [hstored, hentry, Engine.storeQualification]
  by_cases hchanges : (e.entryCache idx).qualified ≠ best.qualifies
  · simp only [flagRun, Engine.flagStep, if_pos hchanges, Engine.storeFired, entryCache_setEntry,
      setEntry_setEntry, setFiredBit_setCandidateBit]
  · simp only [flagRun, Engine.flagStep, if_neg hchanges, entryCache_setEntry,
      setFiredBit_setCandidateBit]
    rfl

/-- The clearing of an entry without a usable pair. -/
theorem flagRun_clear (e : Engine) (idx : ℕ) :
    flagRun 6 e idx .wasQualified = e.clearState idx := by
  rw [Engine.clearState]
  by_cases hset : ((e.entryCache idx).qualified || (e.entryCache idx).signalFired) = true
  · simp only [flagRun, Engine.flagStep, if_pos hset, Engine.storeQualified, Engine.storeFired,
      entryCache_setEntry, setEntry_setEntry, setFiredBit_setCandidateBit]
  · simp only [flagRun, Engine.flagStep, if_neg hset, setFiredBit_setCandidateBit]

/-- The accesses for a candidate up to its signal. -/
def fireRun (nowMs : UInt64) (c : Candidate) : ℕ → System → FirePhase → System
  | 0, s, _ => s
  | fuel + 1, s, phase =>
    match s.fireStep nowMs c phase with
    | (s, .fire _ (.checkPosition _)) => s
    | (s, .fire _ phase) => fireRun nowMs c fuel s phase
    | (s, _) => s

/-- They are those of a round of the loop of `fire_entry_from_cache`. -/
theorem fireRun_eq (s : System) (nowMs : UInt64) (c : Candidate)
    (hsymbol : s.engine.symbols.symbols[c.idx]? = some c.symbol)
    (htopUp : c.topUp = decide (c.positionState c.idx = .partialPosition)) :
    ((fireRun nowMs c 6 s .loadQualified).engine, (fireRun nowMs c 6 s .loadQualified).emitted) =
      Engine.fireCandidate c.positionState nowMs (s.engine, s.emitted) c.idx := by
  by_cases hqualified : (s.engine.entryCache c.idx).qualified = false
  · simp [fireRun, System.fireStep, Candidate.next, Engine.fireCandidate, hsymbol, hqualified]
  · have hloads : fireRun nowMs c 6 s .loadQualified =
        fireRun nowMs c 5 s (if c.topUp then .emit else .loadFired) := by
      simp only [fireRun, System.fireStep, if_neg hqualified]
      cases c.topUp <;> rfl
    rw [hloads]
    by_cases hpartial : c.positionState c.idx = .partialPosition
    · have htop : c.topUp = true := by rw [htopUp, decide_eq_true hpartial]
      simp [fireRun, System.fireStep, Engine.fireCandidate, hsymbol, hqualified, htop, hpartial]
    · have hfresh : c.topUp = false := by rw [htopUp, decide_eq_false hpartial]
      cases hfired : (s.engine.entryCache c.idx).signalFired with
      | true =>
        simp [fireRun, System.fireStep, Candidate.next, Engine.fireCandidate, hsymbol, hqualified,
          hfresh, hpartial, hfired]
      | false =>
        -- the store, the two bits and the emission
        have hmarked : ((s.engine.storeFired c.idx true).setCandidateBit c.idx true
            true).setFiredBit c.idx true = s.engine.markFired c.idx :=
          setFiredBit_setCandidateBit _ _ _ _
        simp [fireRun, System.fireStep, Engine.fireCandidate, hsymbol, hqualified, hfresh,
          hpartial, hfired, hmarked]

/-! ## Symbols on their way -/

/-- The symbol that a thread is about to launch a loop for. -/
def onWay? : TickPhase → Option SymbolId
  | .fire c .storeFired | .fire c .candidateBit | .fire c .firedBit => some c.symbol
  | .fire c .emit => if c.topUp then none else some c.symbol
  | .fire c (.checkPosition signal) => if c.topUp then none else some signal.symbol
  | .fire _ (.checkPending signal) | .fire _ (.takeUp signal) => some signal.symbol
  | _ => none

/-- The symbol that the next access of a thread takes up: a candidate whose `signal_fired` it finds
clear, or a top-up whose position it finds gone. -/
def takesUp? (s : System) : TickPhase → Option SymbolId
  | .fire c .loadFired => if (s.engine.entryCache c.idx).signalFired then none else some c.symbol
  | .fire c (.checkPosition signal) =>
    if c.topUp && !tracked s signal.symbol then some signal.symbol else none
  | _ => none

/-- The symbols with a loop that runs, is on its way or is still to be recovered, with those that a
thread is about to launch a loop for. -/
def underWay (t : ThreadedSystem) : List SymbolId :=
  occupants t.system ++ t.threads.filterMap onWay?

/-- A symbol is under way where the system has it or a thread has. -/
theorem count_underWay (t : ThreadedSystem) (symbol : SymbolId) :
    (underWay t).count symbol =
      (occupants t.system).count symbol + (t.threads.filterMap onWay?).count symbol := by
  rw [underWay, List.count_append]

/-- An element that is replaced counts for the new one. -/
theorem count_filterMap_set {α : Type} (f : α → Option SymbolId) (symbol : SymbolId) {xs : List α}
    {i : ℕ} {x : α} (h : xs[i]? = some x) (y : α) :
    ((xs.set i y).filterMap f).count symbol + (f x).toList.count symbol =
      (xs.filterMap f).count symbol + (f y).toList.count symbol := by
  have hlt := (List.getElem?_eq_some_iff.mp h).1
  have hset : (xs.set i y)[i]? = some y := by
    rw [List.getElem?_set_self hlt]
  have hrest : (xs.set i y).eraseIdx i = xs.eraseIdx i := by
    rw [List.eraseIdx_set_eq]
  have hold := count_filterMap_eraseIdx symbol f h
  have hnew := count_filterMap_eraseIdx symbol f hset
  rw [hrest] at hnew
  omega

section Accesses

variable (s : System) (nowMs : UInt64) (symbol : SymbolId)

/-- Behind an entry a thread carries no signal. -/
theorem onWay?_ofAfter (after : AfterEntry) : onWay? (.ofAfter after) = none := by
  cases after <;> rfl

/-- A recomputation that begins carries no signal. -/
theorem onWay?_callEntry (e : Engine) (idx : ℕ) (after : AfterEntry) :
    onWay? (.callEntry e idx after) = none := by
  unfold TickPhase.callEntry
  split
  · exact onWay?_ofAfter after
  · split_ifs <;> rfl

/-- A recomputation under way carries no signal. -/
theorem onWay?_evaluateStep (e : Engine) (after : AfterEntry) (phase : EvaluationPhase) :
    onWay? (.evaluateStep e nowMs after phase) = none := by
  unfold TickPhase.evaluateStep
  split
  · exact onWay?_ofAfter after
  · rfl
  · rfl
  · rfl

/-- A scan that begins carries no signal yet. -/
theorem onWay?_ofCandidates (symbols : SymbolTable) (positionState : ℕ → PositionState)
    (indices : List ℕ) : onWay? (.ofCandidates symbols positionState indices) = none := by
  cases indices with
  | nil => rfl
  | cons idx rest =>
    simp only [TickPhase.ofCandidates]
    cases symbols.symbols[idx]? <;> rfl

/-- What an access leaves on its way comes from what was there, or is taken up by it. -/
structure KeepsCount (phase : TickPhase) (s : System) (r : System × TickPhase) : Prop where
  le : ∀ symbol, (occupants r.1).count symbol + (onWay? r.2).toList.count symbol ≤
    (occupants s).count symbol + (onWay? phase).toList.count symbol +
      (takesUp? s phase).toList.count symbol

/-- An access that changes no station, and goes on with the same symbol or none. -/
theorem keepsCount_of_same {phase : TickPhase} {r : System × TickPhase}
    (hstations : occupants r.1 = occupants s)
    (hphase : onWay? r.2 = none ∨ onWay? r.2 = onWay? phase) : KeepsCount phase s r where
  le symbol := by
    rw [hstations]
    rcases hphase with hnone | hsame
    · rw [hnone, Option.toList_none, List.count_nil]
      omega
    · rw [hsame]
      omega

/-- A signal leaves the recovery that waits for its launch. -/
theorem pendingRecovery_takeUp (signal : ArbitrageSignal) :
    (s.takeUp signal).bot.pendingRecovery = s.bot.pendingRecovery := by
  unfold System.takeUp
  split_ifs
  · rfl
  · rfl
  · exact (untouched_claim s _).pendingRecovery

/-- A signal that is taken up adds at most its own symbol. -/
theorem count_occupants_takeUp_le (signal : ArbitrageSignal) :
    (occupants (s.takeUp signal)).count symbol ≤
      (occupants s).count symbol + one signal.symbol symbol := by
  have hlaunching : (launching (s.takeUp signal)).count symbol ≤
      (launching s).count symbol + one signal.symbol symbol := by
    unfold System.takeUp
    split_ifs with hmanual hopen
    · exact Nat.le_add_right _ _
    · have hnone : s.manualPrompt = none := by simpa using hopen
      exact (count_launching_prompt s symbol signal hnone).le
    · exact count_launching_claim_le s symbol ⟨signal, none⟩
  rw [count_occupants, count_occupants, pendingRecovery_takeUp]
  omega

/-- The accesses for a candidate. -/
theorem keepsCount_fireStep (c : Candidate) (phase : FirePhase) :
    KeepsCount (.fire c phase) s (s.fireStep nowMs c phase) := by
  cases phase with
  | loadQualified =>
    refine keepsCount_of_same s ?_ (.inl ?_)
    · simp only [System.fireStep]
      split_ifs <;> rfl
    · simp only [System.fireStep]
      split_ifs with _ htop
      · rfl
      · simp [onWay?, htop]
      · rfl
  | loadFired =>
    constructor
    intro symbol
    simp only [System.fireStep, takesUp?]
    split_ifs
    · exact Nat.le_add_right _ _
    · simp only [onWay?, Option.toList_none, List.count_nil, Nat.add_zero]
      exact le_rfl
  | storeFired => exact keepsCount_of_same s rfl (.inr rfl)
  | candidateBit => exact keepsCount_of_same s rfl (.inr rfl)
  | firedBit =>
    constructor
    intro symbol
    have hemits : (onWay? (.fire c .emit)).toList.count symbol ≤ [c.symbol].count symbol := by
      simp only [onWay?]
      split_ifs
      · exact Nat.zero_le _
      · exact le_rfl
    exact (Nat.add_le_add_left hemits _).trans (Nat.le_add_right _ _)
  | emit => exact keepsCount_of_same s rfl (.inr rfl)
  | checkPosition signal =>
    constructor
    intro symbol
    have hlooked : (s.bot.tracker.getPosition signal.symbol).isSome = tracked s signal.symbol := rfl
    simp only [System.fireStep, hlooked]
    cases hposition : tracked s signal.symbol with
    | true =>
      rw [if_pos rfl]
      exact (Nat.add_le_add_left (Nat.zero_le _) _).trans (Nat.le_add_right _ _)
    | false =>
      -- a new signal was on its way before, a top-up is taken up here
      have hgoes : (onWay? (.fire c (if s.manualConfirmOnce then .checkPending signal
          else .takeUp signal))).toList.count symbol = [signal.symbol].count symbol := by
        split_ifs <;> rfl
      have hcomes : (onWay? (.fire c (.checkPosition signal))).toList.count symbol +
          (takesUp? s (.fire c (.checkPosition signal))).toList.count symbol =
            [signal.symbol].count symbol := by
        cases htop : c.topUp <;> simp [onWay?, takesUp?, htop, hposition]
      rw [if_neg Bool.false_ne_true, hgoes, ← hcomes, Nat.add_assoc]
  | checkPending signal =>
    refine keepsCount_of_same s ?_ ?_
    · simp only [System.fireStep]
      split_ifs <;> rfl
    · simp only [System.fireStep]
      split_ifs
      · exact .inl rfl
      · exact .inr rfl
  | takeUp signal =>
    constructor
    intro symbol
    have hcomes : (onWay? (.fire c (.takeUp signal))).toList.count symbol =
        one signal.symbol symbol := count_singleton symbol signal.symbol
    rw [hcomes]
    exact (count_occupants_takeUp_le s symbol signal).trans (Nat.le_add_right _ _)

/-- One access of a thread. -/
theorem keepsCount_tickStep (phase : TickPhase) : KeepsCount phase s (s.tickStep nowMs phase) := by
  cases phase with
  | idle => exact keepsCount_of_same s rfl (.inl rfl)
  | cachePrice ticker =>
    refine keepsCount_of_same s rfl (.inl ?_)
    simp only [System.tickStep]
    split_ifs
    · rfl
    · cases s.engine.tickerIndex ticker with
      | none => rfl
      | some idx => exact onWay?_callEntry s.engine idx _
  | usdtUpdate ticker => exact keepsCount_of_same s rfl (.inl rfl)
  | nextEntry idx usdt =>
    by_cases hmore : idx < s.engine.symbols.symbols.length
    · simp only [System.tickStep, if_pos hmore]
      exact keepsCount_of_same s rfl (.inl (onWay?_callEntry s.engine idx _))
    · simp only [System.tickStep, if_neg hmore]
      refine keepsCount_of_same s rfl (.inl ?_)
      cases usdt <;> rfl
  | evaluate phase after =>
    exact keepsCount_of_same s rfl (.inl (onWay?_evaluateStep nowMs s.engine after phase))
  | flags idx phase after =>
    refine keepsCount_of_same s rfl (.inl ?_)
    simp only [System.tickStep]
    cases (s.engine.flagStep idx phase).2 with
    | none => exact onWay?_ofAfter after
    | some phase => rfl
  | askQualified idx =>
    refine keepsCount_of_same s rfl (.inl ?_)
    simp only [System.tickStep]
    split_ifs <;> rfl
  | askFired idx =>
    refine keepsCount_of_same s rfl (.inl ?_)
    simp only [System.tickStep]
    split_ifs <;> rfl
  | loadDue usdt =>
    refine keepsCount_of_same s rfl (.inl ?_)
    simp only [System.tickStep]
    split_ifs <;> rfl
  | exchangeDue usdt due target =>
    simp only [System.tickStep]
    split_ifs
    · exact keepsCount_of_same s rfl (.inl rfl)
    · exact keepsCount_of_same s rfl (.inl rfl)
  | loadSuppressed =>
    refine keepsCount_of_same s rfl (.inl ?_)
    simp only [System.tickStep]
    split_ifs <;> rfl
  | select => exact keepsCount_of_same s rfl (.inl rfl)
  | nextCandidate indices positionState =>
    exact keepsCount_of_same s rfl (.inl (onWay?_ofCandidates _ positionState indices))
  | fire c phase => exact keepsCount_fireStep s nowMs c phase

end Accesses

/-! ## The other steps -/

/-- A step of the loops, of start-up or of shut-down launches nothing. -/
theorem count_occupants_ofLoops (std : StdSort) (s : System) (event : LoopEvent)
    (symbol : SymbolId) :
    (occupants (systemStep std s event.val)).count symbol ≤ (occupants s).count symbol := by
  have hkeeps : ∀ s' : System, Untouched s s' →
      (launching s').count symbol ≤ (launching s).count symbol →
        (occupants s').count symbol ≤ (occupants s).count symbol := by
    intro s' hframe hle
    have := count_occupants_of_untouched symbol hframe
    omega
  obtain ⟨event, hloops⟩ := event
  cases event with
  | tickerUpdate clock ticker => cases hloops
  | refreshEntryFilters nowMs => cases hloops
  | callback i => cases hloops
  | publishTransfers snapshot => exact le_rfl
  | answerPrompt approved =>
    exact hkeeps _ (untouched_answerPrompt s approved)
      (count_launching_answerPrompt_le s symbol approved)
  | storeFlag i =>
    exact hkeeps _ (untouched_storeFlag s i) (count_launching_storeFlag_le s symbol i)
  | startExecutor => exact le_rfl
  | stopExecutor => exact le_rfl
  | launchRecovered usdtKrwRate => exact count_occupants_launchRecovered_le s symbol usdtKrwRate
  | pickUp positionSizeUsd now =>
    refine hkeeps _ (untouched_pickUp s positionSizeUsd now) ?_
    show (launching (s.pickUp positionSizeUsd now)).count symbol ≤ _
    cases hrefused : s.pickUpRefused positionSizeUsd now with
    | true =>
      obtain ⟨task, -, hcount⟩ := count_launching_pickUp_refused s symbol hrefused
      omega
    | false => exact (count_launching_pickUp s symbol hrefused).le
  | iterate i nowMs now replies =>
    rw [count_occupants, count_occupants]
    simp only [systemStep, (cache_iterateAt s i nowMs now replies).2.2, loopSymbols_iterateAt]
    exact le_rfl
  | loopReturns i =>
    refine hkeeps _ (untouched_returnAt s i) ?_
    show (launching (s.returnAt i)).count symbol ≤ _
    cases hloop : s.bot.loops[i]? with
    | none => rw [returnAt_of_none s hloop]
    | some loop =>
      have := count_launching_returnAt s symbol hloop
      omega
  | shutdown => exact le_rfl

/-! ## A ticker in one thread -/

/-- A thread is given a ticker, makes its accesses without another thread in between, and selects
on the given loads where it comes to that. -/
def tickRun (thread : ℕ) (nowMs : UInt64) (ticker : Ticker) (reads : ScanReads) :
    List ThreadEvent :=
  .tick thread ticker :: List.replicate 32 (.proceed thread nowMs) ++
    .select thread reads :: List.replicate 16 (.proceed thread nowMs)

/-- Two threads on the Bithumb-Bybit pair of two coins. -/
def twoCoinThreads (maxPositions : MaxPositions) : ThreadedSystem :=
  { system := twoCoinSystem maxPositions, threads := [.idle, .idle] }

/-- The loads of a scan that finds one candidate and no position. -/
def candidateReads (idx : ℕ) : ScanReads where
  candidateBits := (AtomicBitset.empty _).set idx true
  netEdgePct := fun _ => 2
  qualified := fun i => decide (i = idx)

/-- The executor runs and the routes are open. -/
def startUp : List ThreadEvent :=
  [.other ⟨.startExecutor, rfl⟩, .other ⟨.publishTransfers (freeRoutes ["AAA", "BBB"]), rfl⟩]

/-- The first task of the queue is picked up. -/
def pickUpFirst : ThreadEvent := .other ⟨.pickUp 3000 0, rfl⟩

/-- The suppression flag of the first slot that waits for it is stored. -/
def storeFirstFlag : ThreadEvent := .other ⟨.storeFlag 0, rfl⟩

/-- After start-up AAA qualifies at 1100 ms, is signalled and gets a slot. -/
def launchOfAAA : List ThreadEvent :=
  startUp ++ tickRun 0 1000 (usdtTicker 1000) {} ++ tickRun 0 1100 (foreignTicker "AAA" 1100) {} ++
    tickRun 0 1100 (koreanTicker "AAA" 1950 1100) (candidateReads 0)

example : queueSymbols ((twoCoinThreads ⟨2, by decide, by decide⟩).run .insertion
    launchOfAAA).system = [.of "AAA" "KRW"] := by decide +kernel

end SpotRelay.Analysis
