import SpotRelay.Analysis.LoopFrames
import SpotRelay.Analysis.SystemSteps

/-!
# Slots of dropped signals

A fired signal without a position takes a slot of the scan until the qualification of its symbol
changes.  While its symbol is on the way to a loop that is as it should be; when the signal is
dropped, or its loop returns without a position, nothing takes the mark back.  In a run that
drops no marked signal, an idle system has a slot for every position that is not taken.

* **one step**: a symbol that starts to reserve a slot is on its way to a loop, or in one
  (`reserves_step`).
* **an idle system** has nobody on the way (`Idle.launching`), so its reserved slots are those of
  dropped signals (`scanFreeSlots_of_unreserved`).
-/

set_option autoImplicit false

namespace SpotRelay.Analysis

open SpotRelay.Model SpotRelay.Library

/-! ## Marks and drops -/

/-- The symbol takes a slot of the scan for its signal alone. -/
def reserves (s : System) (symbol : SymbolId) : Bool :=
  match s.engine.symbols.koreanIndex symbol with
  | none => false
  | some idx => (s.engine.entryCache idx).signalFired && !tracked s symbol

/-- The symbols whose signal, task or loop ends with the step. -/
def dropped (s : System) : SystemEvent → List SymbolId
  | .callback i =>
    match s.signals[i]? with
    | none => []
    | some p =>
      if p.topUp || (!tracked s p.signal.symbol && accepts s) then [] else [p.signal.symbol]
  | .answerPrompt approved => if approved && claims s then [] else promptSymbols s
  | .storeFlag i =>
    match s.flagStores[i]? with
    | none | some .released => []
    | some (.claimed task) =>
      if enqueues s then [] else task.signal.symbol :: closedPrompt s task
  | .pickUp positionSizeUsd now =>
    if s.pickUpRefused positionSizeUsd now then
      s.bot.queue.head?.toList.map fun task => task.signal.symbol
    else []
  | .loopReturns i =>
    if s.bot.running then []
    else (s.bot.loops[i]?).toList.map fun loop => loop.call.signal.symbol
  | _ => []

/-- The step drops no symbol whose mark takes a slot. -/
def KeepsSignals (s : System) (event : SystemEvent) : Prop :=
  ∀ symbol ∈ dropped s event, reserves s symbol = false

instance (s : System) (event : SystemEvent) : Decidable (KeepsSignals s event) :=
  inferInstanceAs (Decidable (∀ symbol ∈ dropped s event, reserves s symbol = false))

variable (std : StdSort) (s : System) (symbol : SymbolId)

/-! ## What a step drops -/

/-- The signal callback passes its symbol on or drops it, and the count says which. -/
theorem count_dropped_callback (i : ℕ) :
    (launching s).count symbol ≤
      (launching (s.callbackAt i)).count symbol + (dropped s (.callback i)).count symbol := by
  simp only [System.callbackAt, dropped]
  cases hsignal : s.signals[i]? with
  | none => exact Nat.le_add_right _ _
  | some p =>
    have herase := count_launching_eraseSignal s symbol hsignal
    have hless := count_launching_le_entryCallback
      { s with signals := s.signals.eraseIdx i } symbol p.signal
    have hmore := count_launching_entryCallback
      { s with signals := s.signals.eraseIdx i } symbol p.signal
    simp only
    cases htop : p.topUp with
    | true =>
      simp only [htop, if_true] at herase
      simp only [Bool.true_or, if_true, List.count_nil]
      omega
    | false =>
      simp only [htop, Bool.false_eq_true, if_false] at herase
      simp only [Bool.false_or]
      split_ifs with htaken
      · simp only [Bool.and_eq_true, Bool.not_eq_true'] at htaken
        have := hmore htaken.1 htaken.2
        omega
      · rw [count_singleton]
        omega

/-- An answered prompt submits the symbol's task or drops it. -/
theorem count_dropped_answerPrompt (approved : Bool) :
    (launching s).count symbol ≤
      (launching (s.answerPrompt approved)).count symbol +
        (dropped s (.answerPrompt approved)).count symbol := by
  simp only [System.answerPrompt, dropped]
  cases hprompt : s.manualPrompt with
  | none => exact Nat.le_add_right _ _
  | some signal =>
    have hclose := count_launching_closePrompt s symbol hprompt
    have hsymbols : (promptSymbols s).count symbol = one signal.symbol symbol := by
      rw [← count_singleton]
      simp [promptSymbols, hprompt]
    cases approved with
    | false =>
      show _ ≤ (launching { s with manualPrompt := none }).count symbol + _
      simp only [Bool.false_and, Bool.false_eq_true, if_false, hsymbols]
      omega
    | true =>
      generalize hopen : { s with manualPrompt := none, manualTradePending := true } = s'
      have hsame : (launching s').count symbol =
          (launching { s with manualPrompt := none }).count symbol := by rw [← hopen]; rfl
      have hclaims : claims s' = claims s := by rw [← hopen]; rfl
      have hnone : closedPrompt s' ⟨signal, none⟩ = [] := by
        rw [← hopen]
        simp [closedPrompt, promptSymbols]
      simp only [if_true, Bool.true_and]
      split_ifs with hslot
      · have := count_launching_claim s' symbol ⟨signal, none⟩ (hclaims.trans hslot)
        simp only at this
        omega
      · have := count_launching_le_claim s' symbol ⟨signal, none⟩ hnone
        omega

/-- Behind the store of its slot a claimed task goes to the queue, or its symbol is dropped. -/
theorem count_dropped_storeFlag (i : ℕ) :
    (launching s).count symbol ≤
      (launching (s.storeFlag i)).count symbol + (dropped s (.storeFlag i)).count symbol := by
  simp only [System.storeFlag, dropped]
  cases hstore : s.flagStores[i]? with
  | none => exact Nat.le_add_right _ _
  | some store =>
    have herase := count_launching_eraseStore s symbol hstore
    cases store with
    | released => exact herase.le
    | claimed task =>
      rw [FlagStore.symbol?, Option.toList_some, count_singleton] at herase
      generalize hset :
        { s with flagStores := s.flagStores.eraseIdx i }.setEntrySuppressed true = s'
      have hsame : (launching s').count symbol =
          (launching { s with flagStores := s.flagStores.eraseIdx i }).count symbol := by
        rw [← hset]
        rfl
      have henqueues : enqueues s' = enqueues s := by rw [← hset]; rfl
      have hprompt : closedPrompt s' task = closedPrompt s task := by rw [← hset]; rfl
      simp only
      split_ifs with hok
      · have := count_launching_enqueue s' symbol task (henqueues.trans hok)
        omega
      · have := count_launching_enqueue_failed s' symbol task
          (henqueues.trans (by simpa using hok))
        rw [hprompt] at this
        have hcons : (task.signal.symbol :: closedPrompt s task).count symbol =
            (closedPrompt s task).count symbol + one task.signal.symbol symbol := by
          simp only [List.count_cons, one, beq_iff_eq]
        omega

/-- A loop that returns is off the way, and its symbol is dropped. -/
theorem count_dropped_loopReturns (i : ℕ) :
    (launching s).count symbol ≤
      (launching (s.returnAt i)).count symbol + (dropped s (.loopReturns i)).count symbol := by
  cases hloop : s.bot.loops[i]? with
  | none =>
    rw [returnAt_of_none s hloop]
    exact Nat.le_add_right _ _
  | some loop =>
    have hreturn := count_launching_returnAt s symbol hloop
    simp only [dropped, hloop]
    split_ifs at hreturn ⊢
    · omega
    · simp only [Option.toList_some, List.map_cons, List.map_nil, count_singleton]
      omega

/-- What leaves the stations with a step is what the step drops. -/
theorem count_dropped_step (event : SystemEvent) :
    (launching s).count symbol ≤
      (launching (systemStep std s event)).count symbol + (dropped s event).count symbol := by
  cases event with
  | tickerUpdate clock ticker =>
    have := count_launching_tickerUpdate s symbol std clock ticker
    simp only [systemStep]
    omega
  | callback i => exact count_dropped_callback s symbol i
  | answerPrompt approved => exact count_dropped_answerPrompt s symbol approved
  | storeFlag i => exact count_dropped_storeFlag s symbol i
  | launchRecovered usdtKrwRate =>
    simp only [systemStep, System.launchRecovered]
    cases s.bot.pendingRecovery with
    | none => exact Nat.le_add_right _ _
    | some pos =>
      have hclaim := count_launching_le_claim
        { s with bot := { s.bot with pendingRecovery := none } } symbol
        ⟨recoverySignal pos usdtKrwRate, some pos⟩ (by simp [closedPrompt])
      rw [count_launching_bot s symbol { s.bot with pendingRecovery := none } rfl rfl] at hclaim
      exact hclaim
  | pickUp positionSizeUsd now =>
    simp only [systemStep, dropped]
    cases hrefused : s.pickUpRefused positionSizeUsd now with
    | true =>
      obtain ⟨task, hhead, hcount⟩ := count_launching_pickUp_refused s symbol hrefused
      rw [Option.mem_def] at hhead
      simp only [if_true, hhead, Option.toList_some, List.map_cons, List.map_nil, count_singleton]
      omega
    | false =>
      have := count_launching_pickUp s symbol hrefused
      omega
  | iterate i nowMs now replies =>
    simp only [systemStep, loopSymbols_iterateAt]
    exact Nat.le_add_right _ _
  | loopReturns i => exact count_dropped_loopReturns s symbol i
  | _ => exact Nat.le_add_right _ _

/-! ## Where marks come from -/

/-- A step that leaves engine and tracker alone leaves the reservations as they are. -/
theorem Untouched.reserves {s s' : System} (h : Untouched s s') :
    reserves s' symbol = reserves s symbol := by
  unfold Analysis.reserves
  rw [h.symbols, h.cache.entryCache, h.tracked]

/-- Nothing before the scan sets a flag: a flag that is up after it was up already. -/
theorem signalFired_beforeScan (e : Engine) (clock : Engine.Clock) (ticker : Ticker) (i : ℕ)
    (h : ((beforeScan clock ticker e).1.entryCache i).signalFired = true) :
    (e.entryCache i).signalFired = true := by
  refine beforeScan_invariant (I := fun e' =>
    (e'.entryCache i).signalFired = true → (e.entryCache i).signalFired = true)
    e ?_ ?_ clock ticker (fun hfired => hfired) h
  · intro e₁ e₂ hsame h₁ h₂
    rw [hsame.entryCache] at h₂
    exact h₁ h₂
  · intro e₁ nowMs idx h₁ h₂
    exact h₁ (signalFired_updateSymbolEntry e₁ idx nowMs i h₂)

/-- A symbol reserves a slot when its flag is up and it holds no position. -/
theorem reserves_eq_true_iff : reserves s symbol = true ↔
    ∃ idx, s.engine.symbols.koreanIndex symbol = some idx ∧
      (s.engine.entryCache idx).signalFired = true ∧ tracked s symbol = false := by
  unfold reserves
  cases s.engine.symbols.koreanIndex symbol with
  | none => simp
  | some idx => simp

/-- A mark that a tick sets is for a symbol that it signals. -/
theorem reserves_tickerUpdate (clock : Engine.Clock) (ticker : Ticker)
    (hcache : CacheInvariant s.engine)
    (h : reserves (s.tickerUpdate std clock ticker) symbol = true) :
    reserves s symbol = true ∨ symbol ∈ launching (s.tickerUpdate std clock ticker) := by
  obtain ⟨idx, hindex, hfired, huntracked⟩ := (reserves_eq_true_iff _ symbol).mp h
  have hnow : CacheInvariant s.engineNow := hcache.congr ⟨rfl, rfl, rfl⟩
  have hbefore := cacheInvariant_beforeScan s.engineNow clock ticker hnow
  have hsetup := setup_beforeScan s.engineNow clock ticker
  have hspec := fireEntryFromCache_spec std s.bot.maxPositions
    (beforeScan clock ticker s.engineNow).1 clock.scanMs hbefore.flags
  have hcount := count_launching_tickerUpdate s symbol std clock ticker
  have hsame : tracked s symbol = false := huntracked
  have hold : s.engine.symbols.koreanIndex symbol = some idx →
      ((beforeScan clock ticker s.engineNow).1.entryCache idx).signalFired = true →
      reserves s symbol = true := by
    intro hidx hbeforeFired
    exact (reserves_eq_true_iff s symbol).mpr
      ⟨idx, hidx, signalFired_beforeScan s.engineNow clock ticker idx hbeforeFired, hsame⟩
  simp only [System.tickerUpdate, onTickerUpdate_eq] at hindex hfired
  simp only [tickEmissions, onTickerUpdate_eq, hsame, Bool.false_eq_true, if_false] at hcount
  split_ifs at hindex hfired hcount with hscan
  · rw [hspec.1.symbols, hsetup.symbols] at hindex
    rw [hspec.2.1 idx] at hfired
    split_ifs at hfired with hmem
    · right
      have hget : (beforeScan clock ticker s.engineNow).1.symbols.symbols[idx]? = some symbol := by
        rw [hsetup.symbols]
        exact getElem?_of_koreanIndex hindex
      have := List.count_pos_iff.mpr (emitted_of_mem_scanIndices std s.bot.maxPositions _
        clock.scanMs hbefore.flags hmem hget)
      exact List.count_pos_iff.mp (by omega)
    · exact Or.inl (hold hindex hfired)
  · rw [hsetup.symbols] at hindex
    exact Or.inl (hold hindex hfired)

/-- An iteration can only set free the symbol of its own loop. -/
theorem reserves_iterateAt (i : ℕ) (nowMs : UInt64) (now : Timestamp) (replies : SplitReplies)
    (h : reserves (s.iterateAt i nowMs now replies) symbol = true) :
    reserves s symbol = true ∨ symbol ∈ launching s := by
  obtain ⟨hsymbols, hcache, -⟩ := cache_iterateAt s i nowMs now replies
  obtain ⟨idx, hindex, hfired, huntracked⟩ := (reserves_eq_true_iff _ symbol).mp h
  rw [hsymbols] at hindex
  rw [hcache.entryCache] at hfired
  cases hloop : s.bot.loops[i]? with
  | none =>
    simp only [System.iterateAt, hloop] at huntracked
    exact Or.inl ((reserves_eq_true_iff s symbol).mpr ⟨idx, hindex, hfired, huntracked⟩)
  | some loop =>
    by_cases hown : symbol = loop.call.signal.symbol
    · right
      have hmem : symbol ∈ loopSymbols s := by
        rw [hown]
        exact List.mem_map.mpr ⟨loop, List.mem_of_getElem? hloop, rfl⟩
      exact List.mem_append_right _ hmem
    · left
      have hagree := fun x => (loopStep_agreeOff loop.call x
        { loop.state with tracker := s.bot.tracker, running := s.bot.running }).get symbol hown
      refine (reserves_eq_true_iff s symbol).mpr ⟨idx, hindex, hfired, ?_⟩
      show (s.bot.tracker.getPosition symbol).isSome = false
      simp only [System.iterateAt, hloop, BotState.iterateAt, tracked, BotState.iterateLoop]
        at huntracked
      split_ifs at huntracked
      · simpa only [System.setEntrySuppressed, hagree] using huntracked
      · simpa only [hagree] using huntracked

/-- A symbol that starts to reserve a slot is on its way to a loop, or in one. -/
theorem reserves_step (event : SystemEvent) (hcache : CacheInvariant s.engine)
    (h : reserves (systemStep std s event) symbol = true) :
    reserves s symbol = true ∨ symbol ∈ launching (systemStep std s event) := by
  cases event with
  | tickerUpdate clock ticker => exact reserves_tickerUpdate std s symbol clock ticker hcache h
  | refreshEntryFilters nowMs =>
    left
    obtain ⟨idx, hindex, hfired, huntracked⟩ := (reserves_eq_true_iff _ symbol).mp h
    refine (reserves_eq_true_iff s symbol).mpr ⟨idx, ?_, ?_, huntracked⟩
    · simpa only [systemStep, (onlyCache_updateAllEntries s.engine nowMs).symbols] using hindex
    · refine updateAllEntries_invariant (I := fun e' =>
        (e'.entryCache idx).signalFired = true → (s.engine.entryCache idx).signalFired = true)
        s.engine ?_ nowMs (fun hsame => hsame) hfired
      intro e₁ nowMs i h₁ h₂
      exact h₁ (signalFired_updateSymbolEntry e₁ i nowMs idx h₂)
  | callback i => exact Or.inl ((untouched_callbackAt s i).reserves symbol ▸ h)
  | answerPrompt approved => exact Or.inl ((untouched_answerPrompt s approved).reserves symbol ▸ h)
  | storeFlag i => exact Or.inl ((untouched_storeFlag s i).reserves symbol ▸ h)
  | launchRecovered usdtKrwRate =>
    obtain ⟨hsymbols, hentries, htracker⟩ := launchRecovered_cache s usdtKrwRate
    left
    simpa only [systemStep, reserves, tracked, hsymbols, hentries.entryCache, htracker] using h
  | pickUp positionSizeUsd now =>
    exact Or.inl ((untouched_pickUp s positionSizeUsd now).reserves symbol ▸ h)
  | iterate i nowMs now replies =>
    rcases reserves_iterateAt s symbol i nowMs now replies h with hold | hloop
    · exact Or.inl hold
    · right
      simpa only [systemStep, loopSymbols_iterateAt] using hloop
  | loopReturns i => exact Or.inl ((untouched_returnAt s i).reserves symbol ▸ h)
  | _ => exact Or.inl h

/-! ## Idle states -/

/-- No loop is queued or running, no update, claim or release is in progress, and entry is not
suppressed. -/
structure Idle (s : System) : Prop where
  signals : s.signals = []
  manualPrompt : s.manualPrompt = none
  flagStores : s.flagStores = []
  queue : s.bot.queue = []
  loops : s.bot.loops = []
  entrySuppressed : s.engine.entrySuppressed = false

/-- In an idle system no symbol is on its way to a loop. -/
theorem Idle.launching {s : System} (h : Idle s) : launching s = [] := by
  simp [Analysis.launching, freshSymbols, promptSymbols, claimedSymbols, queueSymbols, loopSymbols,
    h.signals, h.manualPrompt, h.flagStores, h.queue, h.loops]

/-- The free slots that a scan finds before it selects anything. -/
def scanFreeSlots (s : System) : ℕ :=
  freeSlots s.engine.symbols.symbols.length s.bot.maxPositions.val s.engineNow.signalFiredBits
    s.engineNow.positionState

/-- Where no symbol reserves a slot, every slot is free but for the positions. -/
theorem scanFreeSlots_of_unreserved (hcache : CacheInvariant s.engine)
    (h : ∀ symbol, reserves s symbol = false) :
    scanFreeSlots s = s.bot.maxPositions.val - s.engine.symbols.symbols.countP (tracked s) := by
  have hpending : pendingNewSignals s.engine.symbols.symbols.length s.engineNow.signalFiredBits
      s.engineNow.positionState = 0 := by
    unfold pendingNewSignals
    rw [List.countP_eq_zero, AtomicBitset.forEachSet_eq]
    intro i hi
    rw [List.mem_filter, List.mem_range] at hi
    have hlt : i < s.engine.symbols.symbols.length := by omega
    have hfired : (s.engine.entryCache i).signalFired = true := by
      rw [← (hcache.flags i).fired]
      exact hi.2
    have hget : s.engineNow.symbols.symbols[i]? = some s.engine.symbols.symbols[i] :=
      List.getElem?_eq_getElem hlt
    rw [decide_eq_true_eq, positionState_eq_noPosition_iff s.engineNow hget]
    intro huntracked
    have hreserves := (reserves_eq_true_iff s s.engine.symbols.symbols[i]).mpr
      ⟨i, (koreanIndex_eq_some_iff hget).mpr rfl, hfired, huntracked⟩
    rw [h] at hreserves
    cases hreserves
  have hactive := activePositions_eq s.engineNow
  unfold scanFreeSlots freeSlots
  rw [hpending, Nat.add_zero]
  exact congrArg (s.bot.maxPositions.val - ·) hactive

/-- AAA stops qualifying while its loop waits; the loop returns when the bot is shut down. -/
def returnedSlotRun : List SystemEvent :=
  signalOfAAA ++
    [.callback 0, .pickUp 3000 0, .tickerUpdate ⟨1200, 1200⟩ (koreanTicker "AAA" 1990 1200),
      .shutdown, .loopReturns 0, .storeFlag 0]

/-- AAA has a position outside the bot, so its task is refused. -/
def blacklistedRun : List SystemEvent :=
  signalOfAAA ++ [.callback 0, .pickUp 3000 0, .storeFlag 0]

end SpotRelay.Analysis
