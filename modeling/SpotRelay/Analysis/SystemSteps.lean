import SpotRelay.Analysis.SignalFreshness
import SpotRelay.Model.System

/-!
# The symbols that are on their way to a loop

A signal passes from the scan to its callback, perhaps a prompt, a claimed slot, the queue and
a loop.  `launching` lists the symbols at all these stations; the lemmas say what each step of
the system does to the list, symbol by symbol.

* **the count** of a symbol on its way goes up by a launch only, and each step says by which
  (`count_launching_enqueue`).
* **the occupants** are these and the recovery that waits for its launch (`count_occupants`).
* **the cache** stays sound through every step (`cacheInvariant_systemStep`).
-/

set_option autoImplicit false

namespace SpotRelay.Analysis

open SpotRelay.Model SpotRelay.Library

/-! ## Stations -/

def FlagStore.symbol? : FlagStore → Option SymbolId
  | .claimed task => some task.signal.symbol
  | .released => none

def freshSymbols (s : System) : List SymbolId :=
  (s.signals.filter fun p => !p.topUp).map fun p => p.signal.symbol

def promptSymbols (s : System) : List SymbolId := s.manualPrompt.toList.map fun p => p.symbol

def claimedSymbols (s : System) : List SymbolId := s.flagStores.filterMap FlagStore.symbol?

def queueSymbols (s : System) : List SymbolId := s.bot.queue.map fun task => task.signal.symbol

def loopSymbols (s : System) : List SymbolId := s.bot.loops.map fun loop => loop.call.signal.symbol

/-- The symbols with a loop that runs or is on its way, once for each. -/
def launching (s : System) : List SymbolId :=
  freshSymbols s ++ promptSymbols s ++ claimedSymbols s ++ queueSymbols s ++ loopSymbols s

/-- A symbol with a position in the tracker. -/
def tracked (s : System) (symbol : SymbolId) : Bool :=
  (s.bot.tracker.getPosition symbol).isSome

variable (s : System) (symbol : SymbolId)

/-- A symbol on its way to a loop is counted station by station. -/
theorem count_launching : (launching s).count symbol =
    (freshSymbols s).count symbol + (promptSymbols s).count symbol +
      (claimedSymbols s).count symbol + (queueSymbols s).count symbol +
      (loopSymbols s).count symbol := by
  simp only [launching, List.count_append]

/-- Taking the `i`-th element out of a list takes its image out of the mapped list. -/
theorem count_filterMap_eraseIdx {α : Type} (f : α → Option SymbolId) {xs : List α} {i : ℕ} {x : α}
    (h : xs[i]? = some x) :
    (xs.filterMap f).count symbol =
      ((xs.eraseIdx i).filterMap f).count symbol + (f x).toList.count symbol := by
  obtain ⟨hi, rfl⟩ := List.getElem?_eq_some_iff.mp h
  have hperm := (List.getElem_cons_eraseIdx_perm hi).filterMap f
  rw [← hperm.count_eq, List.filterMap_cons]
  cases f xs[i] with
  | none => simp
  | some a =>
    simp only [List.count_cons, Option.toList_some, List.count_nil]
    omega

/-- The symbols of the fresh signals, as a single pass. -/
theorem freshSymbols_eq : freshSymbols s =
    s.signals.filterMap fun p => if p.topUp then none else some p.signal.symbol := by
  unfold freshSymbols
  induction s.signals with
  | nil => rfl
  | cons p ps ih => cases h : p.topUp <;> simp [h, ih]

/-- One for the symbol itself, none for another. -/
def one (other symbol : SymbolId) : ℕ := if other = symbol then 1 else 0

/-- One symbol counts for itself only. -/
theorem count_singleton (other : SymbolId) : [other].count symbol = one other symbol := by
  unfold one
  simp [List.count_singleton]

/-! ## Slots and tasks -/

/-- The slot for the task is enqueued rather than released. -/
def enqueues (s : System) : Bool :=
  s.executorRunning && decide (s.bot.queue.length < queueCapacity)

/-- Where the queue has room, the task is appended and nothing else happens. -/
theorem enqueue_of_enqueues (task : LifecycleTask) (h : enqueues s = true) :
    s.enqueue task = { s with bot := { s.bot with queue := s.bot.queue ++ [task] } } := by
  simp only [enqueues, Bool.and_eq_true, decide_eq_true_eq] at h
  simp only [System.enqueue, h, and_self, if_true]

/-- An enqueued task puts its symbol on the way once. -/
theorem count_launching_enqueue (task : LifecycleTask) (h : enqueues s = true) :
    (launching (s.enqueue task)).count symbol =
      (launching s).count symbol + one task.signal.symbol symbol := by
  rw [enqueue_of_enqueues s task h, count_launching, count_launching, ← count_singleton]
  simp only [freshSymbols, promptSymbols, claimedSymbols, queueSymbols, loopSymbols,
    List.map_append, List.map_cons, List.map_nil, List.count_append]
  omega

/-- The prompt that is given up with a task that gets no loop. -/
def closedPrompt (s : System) (task : LifecycleTask) : List SymbolId :=
  if s.manualConfirmOnce && task.initialPosition.isNone then promptSymbols s else []

/-- The end of a manual entry takes the symbol of a closed prompt off the way. -/
theorem count_launching_manualReset (task : LifecycleTask)
    (h : task.initialPosition.isNone = true) :
    (launching s.manualReset).count symbol + (closedPrompt s task).count symbol =
      (launching s).count symbol := by
  rw [count_launching, count_launching, closedPrompt, h, Bool.and_true]
  unfold System.manualReset
  split_ifs
  · simp only [freshSymbols, promptSymbols, claimedSymbols, queueSymbols, loopSymbols,
      System.setEntrySuppressed, Option.toList_none, List.map_nil, List.count_nil]
    omega
  · rfl

/-- A released slot takes no symbol off the way. -/
theorem count_launching_release :
    (launching s.release).count symbol = (launching s).count symbol := by
  rw [count_launching, count_launching]
  simp [freshSymbols, promptSymbols, claimedSymbols, queueSymbols, loopSymbols, System.release,
    BotState.releaseSlot, List.filterMap_cons, FlagStore.symbol?]

/-- A task that finds the queue full puts nothing on the way, and closes its prompt. -/
theorem count_launching_enqueue_failed (task : LifecycleTask) (h : enqueues s = false) :
    (launching (s.enqueue task)).count symbol + (closedPrompt s task).count symbol =
      (launching s).count symbol := by
  have hfails : ¬ (s.executorRunning ∧ s.bot.queue.length < queueCapacity) := by
    simpa [enqueues] using h
  have hrelease := count_launching_release s symbol
  simp only [System.enqueue, if_neg hfails]
  split_ifs with hnone
  · rw [← hrelease]
    exact count_launching_manualReset s.release symbol task hnone
  · simp only [closedPrompt, hnone, Bool.and_false, Bool.false_eq_true, if_false, List.count_nil]
    exact hrelease

/-- Full or not, the queue takes at most the symbol of the task. -/
theorem count_launching_enqueue_le (task : LifecycleTask) :
    (launching (s.enqueue task)).count symbol ≤
      (launching s).count symbol + one task.signal.symbol symbol := by
  cases h : enqueues s with
  | true => exact (count_launching_enqueue s symbol task h).le
  | false =>
    have := count_launching_enqueue_failed s symbol task h
    omega

/-- The task gets a slot and reaches the queue or the write before it. -/
def claims (s : System) : Bool :=
  decide (s.bot.activeLoops < s.bot.maxPositions.val) &&
    (decide (s.bot.maxPositions.val ≤ s.bot.activeLoops + 1) || enqueues s)

/-- `tryClaimSlot` as a bound on the counter. -/
theorem tryClaimSlot_eq (b : BotState) :
    b.tryClaimSlot =
      if b.activeLoops < b.maxPositions.val then some { b with activeLoops := b.activeLoops + 1 }
      else none := rfl

/-- A claim that waits for its flag store has its symbol on the way. -/
theorem count_launching_claimed (bot : BotState) (task : LifecycleTask)
    (hqueue : bot.queue = s.bot.queue) (hloops : bot.loops = s.bot.loops) :
    (launching { s with bot := bot, flagStores := s.flagStores ++ [.claimed task] }).count symbol =
      (launching s).count symbol + one task.signal.symbol symbol := by
  rw [count_launching, count_launching, ← count_singleton]
  simp only [freshSymbols, promptSymbols, claimedSymbols, queueSymbols, loopSymbols, hqueue,
    hloops, List.filterMap_append, List.filterMap_cons, List.filterMap_nil, FlagStore.symbol?,
    List.count_append]
  omega

/-- What the bot has besides its queue and its loops does not count. -/
theorem count_launching_bot (bot : BotState) (hqueue : bot.queue = s.bot.queue)
    (hloops : bot.loops = s.bot.loops) :
    (launching { s with bot := bot }).count symbol = (launching s).count symbol := by
  rw [count_launching, count_launching]
  simp only [freshSymbols, promptSymbols, claimedSymbols, queueSymbols, loopSymbols, hqueue, hloops]

/-- A claim that succeeds puts the symbol of its task on the way once. -/
theorem count_launching_claim (task : LifecycleTask) (h : claims s = true) :
    (launching (s.claim task)).count symbol =
      (launching s).count symbol + one task.signal.symbol symbol := by
  simp only [claims, Bool.and_eq_true, Bool.or_eq_true, decide_eq_true_eq] at h
  obtain ⟨hslot, hlast⟩ := h
  have hbot := count_launching_bot s symbol
    { s.bot with activeLoops := s.bot.activeLoops + 1 } rfl rfl
  simp only [System.claim, tryClaimSlot_eq, hslot, if_true]
  split_ifs with hfull
  · exact count_launching_claimed s symbol _ task rfl rfl
  · rw [← hbot]
    exact count_launching_enqueue _ symbol task (hlast.resolve_left hfull)

/-- A claim that finds no slot puts nothing on the way, and closes its prompt. -/
theorem count_launching_claim_failed (task : LifecycleTask) (h : claims s = false) :
    (launching (s.claim task)).count symbol + (closedPrompt s task).count symbol =
      (launching s).count symbol := by
  have hbot := count_launching_bot s symbol
    { s.bot with activeLoops := s.bot.activeLoops + 1 } rfl rfl
  simp only [System.claim, tryClaimSlot_eq]
  by_cases hslot : s.bot.activeLoops < s.bot.maxPositions.val
  · simp only [claims, hslot, decide_true, Bool.true_and, Bool.or_eq_false_iff,
      decide_eq_false_iff_not] at h
    simp only [hslot, if_true, h.1, if_false]
    rw [← hbot]
    exact count_launching_enqueue_failed _ symbol task h.2
  · simp only [hslot, if_false]
    split_ifs with hnone
    · exact count_launching_manualReset s symbol task hnone
    · simp [closedPrompt, hnone]

/-- With a slot or without, a claim takes at most the symbol of its task. -/
theorem count_launching_claim_le (task : LifecycleTask) :
    (launching (s.claim task)).count symbol ≤
      (launching s).count symbol + one task.signal.symbol symbol := by
  cases h : claims s with
  | true => exact (count_launching_claim s symbol task h).le
  | false =>
    have := count_launching_claim_failed s symbol task h
    omega

/-! ## Callbacks -/

/-- The callback keeps a signal for a symbol without a position: it claims a slot, or opens
the prompt. -/
def accepts (s : System) : Bool :=
  if s.manualConfirmOnce then !(s.manualTradePending || s.manualPrompt.isSome) else claims s

/-- The prompt opens with a signal. -/
theorem count_launching_prompt (signal : ArbitrageSignal) (hnone : s.manualPrompt = none) :
    (launching ({ s with manualPrompt := some signal }.setEntrySuppressed true)).count symbol =
      (launching s).count symbol + one signal.symbol symbol := by
  rw [count_launching, count_launching, ← count_singleton]
  simp only [freshSymbols, promptSymbols, claimedSymbols, queueSymbols, loopSymbols,
    System.setEntrySuppressed, hnone, Option.toList_some, Option.toList_none, List.map_cons,
    List.map_nil, List.count_nil]
  omega

/-- The callback opens a prompt only where none is open. -/
theorem noPrompt_of_not_busy (hbusy : ¬ (s.manualTradePending || s.manualPrompt.isSome) = true) :
    s.manualPrompt = none := by
  simp only [Bool.or_eq_true, not_or, Bool.not_eq_true, Option.isSome_eq_false_iff,
    Option.isNone_iff_eq_none] at hbusy
  exact hbusy.2

/-- An accepted signal puts its symbol on the way once. -/
theorem count_launching_entryCallback (signal : ArbitrageSignal)
    (huntracked : tracked s signal.symbol = false) (h : accepts s = true) :
    (launching (s.entryCallback signal)).count symbol =
      (launching s).count symbol + one signal.symbol symbol := by
  have hnot : ¬ (s.bot.tracker.getPosition signal.symbol).isSome = true := by
    simpa [tracked] using huntracked
  simp only [System.entryCallback, if_neg hnot]
  unfold accepts at h
  split_ifs at h ⊢ with hmanual hbusy
  · simp [hbusy] at h
  · exact count_launching_prompt s symbol signal (noPrompt_of_not_busy s hbusy)
  · exact count_launching_claim s symbol ⟨signal, none⟩ h

/-- The signals of the others stay where they are. -/
theorem count_launching_eraseSignal {i : ℕ} {p : PendingSignal} (h : s.signals[i]? = some p) :
    (launching s).count symbol =
      (launching { s with signals := s.signals.eraseIdx i }).count symbol +
        if p.topUp then 0 else one p.signal.symbol symbol := by
  have herase := count_filterMap_eraseIdx symbol
    (fun p : PendingSignal => if p.topUp then none else some p.signal.symbol) h
  rw [count_launching, count_launching, freshSymbols_eq, freshSymbols_eq, herase]
  simp only [promptSymbols, claimedSymbols, queueSymbols, loopSymbols]
  split_ifs
  · simp only [Option.toList_none, List.count_nil]
    omega
  · rw [Option.toList_some, count_singleton]
    omega

/-- A claim that closes no prompt takes nothing away. -/
theorem count_launching_le_claim (task : LifecycleTask) (h : closedPrompt s task = []) :
    (launching s).count symbol ≤ (launching (s.claim task)).count symbol := by
  cases hclaims : claims s with
  | true =>
    have := count_launching_claim s symbol task hclaims
    omega
  | false =>
    have := count_launching_claim_failed s symbol task hclaims
    rw [h, List.count_nil] at this
    omega

/-- The callback takes no symbol off the way. -/
theorem count_launching_le_entryCallback (signal : ArbitrageSignal) :
    (launching s).count symbol ≤ (launching (s.entryCallback signal)).count symbol := by
  simp only [System.entryCallback]
  split_ifs with htracked hmanual hbusy
  · exact le_rfl
  · exact le_rfl
  · have hnone : s.manualPrompt = none := by
      simp only [Bool.or_eq_true, not_or, Bool.not_eq_true, Option.isSome_eq_false_iff,
        Option.isNone_iff_eq_none] at hbusy
      exact hbusy.2
    rw [count_launching, count_launching]
    simp only [freshSymbols, promptSymbols, claimedSymbols, queueSymbols, loopSymbols,
      System.setEntrySuppressed, hnone, Option.toList_none, List.map_nil, List.count_nil]
    omega
  · exact count_launching_le_claim s symbol _ (by simp [closedPrompt, hmanual])

/-! ## Prompt and flag writes -/

/-- A closed prompt takes its symbol off the way. -/
theorem count_launching_closePrompt {signal : ArbitrageSignal}
    (h : s.manualPrompt = some signal) :
    (launching s).count symbol =
      (launching { s with manualPrompt := none }).count symbol + one signal.symbol symbol := by
  rw [count_launching, count_launching, ← count_singleton]
  simp only [freshSymbols, promptSymbols, claimedSymbols, queueSymbols, loopSymbols, h,
    Option.toList_some, Option.toList_none, List.map_cons, List.map_nil, List.count_nil]
  omega

/-- An answer to the prompt puts no new symbol on the way. -/
theorem count_launching_answerPrompt_le (approved : Bool) :
    (launching (s.answerPrompt approved)).count symbol ≤ (launching s).count symbol := by
  unfold System.answerPrompt
  cases hprompt : s.manualPrompt with
  | none => exact le_rfl
  | some signal =>
    have hclose := count_launching_closePrompt s symbol hprompt
    simp only
    split_ifs
    · have hclaim := count_launching_claim_le
        { s with manualPrompt := none, manualTradePending := true } symbol ⟨signal, none⟩
      refine hclaim.trans ?_
      rw [hclose]
      exact le_rfl
    · rw [hclose]
      exact Nat.le_add_right _ _

/-- A flag store that is done takes its symbol, if it has one, off the list of stores. -/
theorem count_launching_eraseStore {i : ℕ} {store : FlagStore} (h : s.flagStores[i]? = some store) :
    (launching s).count symbol =
      (launching { s with flagStores := s.flagStores.eraseIdx i }).count symbol +
        (FlagStore.symbol? store).toList.count symbol := by
  have herase := count_filterMap_eraseIdx symbol FlagStore.symbol? h
  rw [count_launching, count_launching]
  simp only [claimedSymbols, herase, freshSymbols, promptSymbols, queueSymbols, loopSymbols]
  omega

/-- A flag store moves its symbol on or takes it off, and adds none. -/
theorem count_launching_storeFlag_le (i : ℕ) :
    (launching (s.storeFlag i)).count symbol ≤ (launching s).count symbol := by
  unfold System.storeFlag
  cases hstore : s.flagStores[i]? with
  | none => exact le_rfl
  | some store =>
    have herase := count_launching_eraseStore s symbol hstore
    cases store with
    | released =>
      rw [herase]
      exact Nat.le_add_right _ _
    | claimed task =>
      have henqueue := count_launching_enqueue_le
        ({ s with flagStores := s.flagStores.eraseIdx i }.setEntrySuppressed true) symbol task
      rw [FlagStore.symbol?, Option.toList_some, count_singleton] at herase
      rw [herase]
      exact henqueue

/-! ## Workers -/

/-- Stations that a step does not touch count as before. -/
theorem count_launching_workers {s s' : System} (hfresh : freshSymbols s' = freshSymbols s)
    (hprompt : promptSymbols s' = promptSymbols s)
    (hclaimed : claimedSymbols s' = claimedSymbols s) :
    (launching s').count symbol + (queueSymbols s).count symbol + (loopSymbols s).count symbol =
      (launching s).count symbol + (queueSymbols s').count symbol +
        (loopSymbols s').count symbol := by
  rw [count_launching, count_launching, hfresh, hprompt, hclaimed]
  omega

/-- A release in flight carries no symbol. -/
theorem claimedSymbols_released (stores : List FlagStore) :
    (stores ++ [FlagStore.released]).filterMap FlagStore.symbol? =
      stores.filterMap FlagStore.symbol? := by
  rw [List.filterMap_append]
  exact List.append_nil _

/-- A failed manual entry leaves the signals, the prompt and the bot as they are. -/
theorem manualEntryFailed_stations :
    freshSymbols s.manualEntryFailed = freshSymbols s ∧
      promptSymbols s.manualEntryFailed = promptSymbols s ∧ s.manualEntryFailed.bot = s.bot := by
  unfold System.manualEntryFailed
  split_ifs
  · exact ⟨rfl, rfl, rfl⟩
  · exact ⟨rfl, rfl, rfl⟩

/-- The task that a worker would take is refused. -/
theorem pickUp_of_refused {positionSizeUsd : ℚ} {now : Timestamp}
    (h : s.pickUpRefused positionSizeUsd now = true) :
    ∃ task rest, s.bot.queue = task :: rest ∧
      s.pickUp positionSizeUsd now =
        { { s with bot := ({ s.bot with queue := rest } : BotState).releaseSlot }.manualEntryFailed
          with flagStores := s.flagStores ++ [FlagStore.released] } := by
  cases hqueue : s.bot.queue with
  | nil => simp [System.pickUpRefused, hqueue] at h
  | cons task rest =>
    refine ⟨task, rest, rfl, ?_⟩
    have hbot : s.bot.pickUp positionSizeUsd now =
        ({ s.bot with queue := rest } : BotState).releaseSlot := by
      simp only [System.pickUpRefused, hqueue, Bool.and_eq_true, decide_eq_true_eq] at h
      simp only [BotState.pickUp, hqueue, h.1, if_true]
      split
      · rfl
      · rename_i henter
        rw [henter] at h
        cases h.2
    simp only [System.pickUp, h, if_true, hbot]

/-- The task that a worker takes becomes a loop, or no worker is free. -/
theorem pickUp_of_not_refused {positionSizeUsd : ℚ} {now : Timestamp}
    (h : s.pickUpRefused positionSizeUsd now = false) :
    s.pickUp positionSizeUsd now = s ∨
      ∃ task rest loop, s.bot.queue = task :: rest ∧ loop.call.signal = task.signal ∧
        s.pickUp positionSizeUsd now =
          { s with bot := { s.bot with queue := rest, loops := s.bot.loops ++ [loop] } } := by
  have hpick : s.pickUp positionSizeUsd now =
      { s with bot := s.bot.pickUp positionSizeUsd now } := by
    simp only [System.pickUp, h, Bool.false_eq_true, if_false]
  rw [hpick]
  cases hqueue : s.bot.queue with
  | nil =>
    left
    simp only [BotState.pickUp, hqueue]
  | cons task rest =>
    by_cases hworker : s.bot.loops.length < s.bot.maxPositions.val
    · simp only [System.pickUpRefused, hqueue, hworker, decide_true, Bool.true_and] at h
      simp only [BotState.pickUp, hqueue, hworker, if_true]
      split
      · rename_i henter
        rw [henter] at h
        cases h
      · exact Or.inr ⟨task, rest, _, rfl, rfl, rfl⟩
    · left
      simp only [BotState.pickUp, hqueue, hworker, if_false]

/-- A refused task is dropped. -/
theorem count_launching_pickUp_refused {positionSizeUsd : ℚ} {now : Timestamp}
    (h : s.pickUpRefused positionSizeUsd now = true) :
    ∃ task ∈ s.bot.queue.head?,
      (launching (s.pickUp positionSizeUsd now)).count symbol + one task.signal.symbol symbol =
        (launching s).count symbol := by
  obtain ⟨task, rest, hqueue, hpick⟩ := pickUp_of_refused s h
  refine ⟨task, by simp [hqueue], ?_⟩
  have hold : (queueSymbols s).count symbol =
      (rest.map fun task => task.signal.symbol).count symbol + one task.signal.symbol symbol := by
    simp only [queueSymbols, hqueue, List.map_cons, List.count_cons, one, beq_iff_eq]
  obtain ⟨hfresh, hprompt, hbot⟩ := manualEntryFailed_stations
    { s with bot := ({ s.bot with queue := rest } : BotState).releaseSlot }
  have hqueue' : queueSymbols (s.pickUp positionSizeUsd now) =
      rest.map fun task => task.signal.symbol := by
    rw [hpick, queueSymbols, hbot]
    rfl
  have hloops' : loopSymbols (s.pickUp positionSizeUsd now) = loopSymbols s := by
    rw [hpick, loopSymbols, hbot]
    rfl
  have hfresh' : freshSymbols (s.pickUp positionSizeUsd now) = freshSymbols s := by
    rw [hpick]
    exact hfresh
  have hprompt' : promptSymbols (s.pickUp positionSizeUsd now) = promptSymbols s := by
    rw [hpick]
    exact hprompt
  have hclaimed' : claimedSymbols (s.pickUp positionSizeUsd now) = claimedSymbols s := by
    rw [hpick]
    exact claimedSymbols_released s.flagStores
  have hcount := count_launching_workers symbol hfresh' hprompt' hclaimed'
  rw [hqueue', hloops'] at hcount
  omega

/-- An accepted task stays under way. -/
theorem count_launching_pickUp {positionSizeUsd : ℚ} {now : Timestamp}
    (h : s.pickUpRefused positionSizeUsd now = false) :
    (launching (s.pickUp positionSizeUsd now)).count symbol = (launching s).count symbol := by
  rcases pickUp_of_not_refused s h with hsame | ⟨task, rest, loop, hqueue, hsignal, hpick⟩
  · rw [hsame]
  · rw [hpick, count_launching, count_launching]
    simp only [freshSymbols, promptSymbols, claimedSymbols, queueSymbols, loopSymbols, hqueue,
      hsignal, List.map_append, List.map_cons, List.map_nil, List.count_append, List.count_cons,
      List.count_nil]
    omega

/-- An iteration of a loop leaves every symbol where it is. -/
theorem loopSymbols_iterateAt (i : ℕ) (nowMs : UInt64) (now : Timestamp) (replies : SplitReplies) :
    launching (s.iterateAt i nowMs now replies) = launching s := by
  unfold System.iterateAt
  cases hloop : s.bot.loops[i]? with
  | none => rfl
  | some loop =>
    have hset : ∀ x, ((s.bot.iterateAt i x).loops.map fun loop => loop.call.signal.symbol) =
        s.bot.loops.map fun loop => loop.call.signal.symbol := by
      intro x
      simp only [BotState.iterateAt, hloop]
      refine List.ext_getElem? fun j => ?_
      rw [List.getElem?_map, List.getElem?_map, List.getElem?_set]
      split_ifs with hj hlen
      · subst hj
        simp [hloop]
      · subst hj
        rw [List.getElem?_eq_none (Nat.le_of_not_lt hlen)]
      · rfl
    have hqueue : ∀ x, (s.bot.iterateAt i x).queue = s.bot.queue := by
      intro x
      simp only [BotState.iterateAt, hloop]
    simp only
    split_ifs
    · simp only [launching, freshSymbols, promptSymbols, claimedSymbols, queueSymbols, loopSymbols,
        System.setEntrySuppressed, hset, hqueue]
    · simp only [launching, freshSymbols, promptSymbols, claimedSymbols, queueSymbols, loopSymbols,
        hset, hqueue]

/-- No loop returns where there is none. -/
theorem returnAt_of_none {i : ℕ} (h : s.bot.loops[i]? = none) : s.returnAt i = s := by
  have hlen := List.getElem?_eq_none_iff.mp h
  exact if_neg (by omega)

/-- A loop that returns leaves the list. -/
theorem count_launching_returnAt {i : ℕ} {loop : RunningLoop} (h : s.bot.loops[i]? = some loop) :
    (launching (s.returnAt i)).count symbol +
        (if s.bot.running then 0 else one loop.call.signal.symbol symbol) =
      (launching s).count symbol := by
  have herase := count_filterMap_eraseIdx symbol
    (fun loop : RunningLoop => some loop.call.signal.symbol) h
  simp only [Option.toList_some, count_singleton, List.filterMap_eq_map'] at herase
  have hlt : i < s.bot.loops.length := (List.getElem?_eq_some_iff.mp h).1
  cases hrunning : s.bot.running with
  | true => simp [System.returnAt, hrunning]
  | false =>
    rw [count_launching, count_launching]
    simp only [System.returnAt, BotState.returnAt, hrunning, hlt, and_self, if_true,
      BotState.releaseSlot, freshSymbols, promptSymbols, claimedSymbols, queueSymbols, loopSymbols,
      List.filterMap_append, List.filterMap_cons, List.filterMap_nil, FlagStore.symbol?,
      List.append_nil, Bool.false_eq_true, if_false]
    omega

/-! ## Ticks -/

/-- The signals of a tick. -/
def tickEmissions (std : StdSort) (s : System) (clock : Engine.Clock) (ticker : Ticker) :
    List Engine.Emission :=
  (Engine.onTickerUpdate std s.bot.maxPositions s.engineNow clock ticker).2

/-- A tick adds the symbols it signals, but for the top-ups of tracked ones. -/
theorem count_launching_tickerUpdate (std : StdSort) (clock : Engine.Clock) (ticker : Ticker) :
    (launching (s.tickerUpdate std clock ticker)).count symbol =
      (launching s).count symbol +
        if tracked s symbol then 0
        else ((tickEmissions std s clock ticker).map fun em => em.signal.symbol).count symbol := by
  have hfresh : ∀ emissions : List Engine.Emission,
      (((emissions.map fun em =>
        { signal := em.signal
          topUp := (s.bot.tracker.getPosition em.signal.symbol).isSome : PendingSignal }).filter
        fun p => !p.topUp).map fun p => p.signal.symbol).count symbol =
      if tracked s symbol then 0 else (emissions.map fun em => em.signal.symbol).count symbol := by
    intro emissions
    induction emissions with
    | nil => simp
    | cons em emissions ih =>
      rw [List.map_cons, List.filter_cons]
      cases hheld : (s.bot.tracker.getPosition em.signal.symbol).isSome with
      | true =>
        simp only [Bool.not_true, Bool.false_eq_true, if_false, ih, List.map_cons]
        split_ifs with h
        · rfl
        · have hne : em.signal.symbol ≠ symbol := by
            rintro rfl
            exact h hheld
          rw [List.count_cons_of_ne hne]
      | false =>
        simp only [Bool.not_false, if_true, List.map_cons, List.count_cons, ih, beq_iff_eq]
        split_ifs with h hsame
        · rw [← hsame, tracked, hheld] at h
          cases h
        · rfl
        · rfl
        · rfl
  rw [count_launching, count_launching, ← hfresh (tickEmissions std s clock ticker)]
  simp only [System.tickerUpdate, tickEmissions, freshSymbols, promptSymbols, claimedSymbols,
    queueSymbols, loopSymbols, List.filter_append, List.map_append, List.count_append]
  omega

/-! ## What the steps leave alone -/

/-- The cached entries, the tracker and the pending recovery are as before. -/
structure Untouched (s s' : System) : Prop where
  symbols : s'.engine.symbols = s.engine.symbols
  cache : SameCache s.engine s'.engine
  tracker : s'.bot.tracker = s.bot.tracker
  pendingRecovery : s'.bot.pendingRecovery = s.bot.pendingRecovery

/-- What is left alone is untouched. -/
theorem untouched_refl : Untouched s s := ⟨rfl, ⟨rfl, rfl, rfl⟩, rfl, rfl⟩

/-- Two steps that leave the tracker and the engine's cache alone do so together. -/
theorem Untouched.trans {s s' s'' : System} (h : Untouched s s') (h' : Untouched s' s'') :
    Untouched s s'' where
  symbols := h'.symbols.trans h.symbols
  cache := ⟨h'.cache.1.trans h.cache.1, h'.cache.2.trans h.cache.2, h'.cache.3.trans h.cache.3⟩
  tracker := h'.tracker.trans h.tracker
  pendingRecovery := h'.pendingRecovery.trans h.pendingRecovery

/-- An untouched tracker holds the same symbols. -/
theorem Untouched.tracked {s s' : System} (h : Untouched s s') :
    tracked s' symbol = tracked s symbol := by
  unfold Analysis.tracked
  rw [h.tracker]

/-- The end of a manual entry touches its flags only. -/
theorem untouched_manualReset : Untouched s s.manualReset := by
  unfold System.manualReset
  split_ifs
  · exact ⟨rfl, ⟨rfl, rfl, rfl⟩, rfl, rfl⟩
  · exact untouched_refl s

/-- The queue is not part of what is compared. -/
theorem untouched_enqueue (task : LifecycleTask) : Untouched s (s.enqueue task) := by
  simp only [System.enqueue]
  have hrelease : Untouched s s.release := ⟨rfl, ⟨rfl, rfl, rfl⟩, rfl, rfl⟩
  split_ifs
  · exact ⟨rfl, ⟨rfl, rfl, rfl⟩, rfl, rfl⟩
  · exact hrelease.trans (untouched_manualReset _)
  · exact hrelease

/-- A claim changes the counter and the stores in flight. -/
theorem untouched_claim (task : LifecycleTask) : Untouched s (s.claim task) := by
  simp only [System.claim, tryClaimSlot_eq]
  by_cases hslot : s.bot.activeLoops < s.bot.maxPositions.val
  · simp only [hslot, if_true]
    split_ifs
    · exact ⟨rfl, ⟨rfl, rfl, rfl⟩, rfl, rfl⟩
    · have hbot : Untouched s
          { s with bot := { s.bot with activeLoops := s.bot.activeLoops + 1 } } :=
        ⟨rfl, ⟨rfl, rfl, rfl⟩, rfl, rfl⟩
      exact hbot.trans (untouched_enqueue _ task)
  · simp only [hslot, if_false]
    split_ifs
    · exact untouched_manualReset s
    · exact untouched_refl s

/-- The entry callback leaves the tracker and the cache alone. -/
theorem untouched_callbackAt (i : ℕ) : Untouched s (s.callbackAt i) := by
  unfold System.callbackAt
  cases s.signals[i]? with
  | none => exact untouched_refl s
  | some p =>
    have herase : Untouched s { s with signals := s.signals.eraseIdx i } :=
      ⟨rfl, ⟨rfl, rfl, rfl⟩, rfl, rfl⟩
    refine herase.trans ?_
    generalize { s with signals := s.signals.eraseIdx i } = s'
    simp only [System.entryCallback]
    split_ifs
    · exact untouched_refl s'
    · exact untouched_refl s'
    · exact ⟨rfl, ⟨rfl, rfl, rfl⟩, rfl, rfl⟩
    · exact untouched_claim s' _

/-- The answer to the prompt leaves the tracker and the cache alone. -/
theorem untouched_answerPrompt (approved : Bool) : Untouched s (s.answerPrompt approved) := by
  unfold System.answerPrompt
  cases s.manualPrompt with
  | none => exact untouched_refl s
  | some signal =>
    simp only
    split_ifs
    · have hopen : Untouched s { s with manualPrompt := none, manualTradePending := true } :=
        ⟨rfl, ⟨rfl, rfl, rfl⟩, rfl, rfl⟩
      exact hopen.trans (untouched_claim _ _)
    · exact ⟨rfl, ⟨rfl, rfl, rfl⟩, rfl, rfl⟩

/-- A flag store changes the suppression flag, which is not compared. -/
theorem untouched_storeFlag (i : ℕ) : Untouched s (s.storeFlag i) := by
  unfold System.storeFlag
  cases s.flagStores[i]? with
  | none => exact untouched_refl s
  | some store =>
    cases store with
    | released => exact ⟨rfl, ⟨rfl, rfl, rfl⟩, rfl, rfl⟩
    | claimed task =>
      have hset : Untouched s
          ({ s with flagStores := s.flagStores.eraseIdx i }.setEntrySuppressed true) :=
        ⟨rfl, ⟨rfl, rfl, rfl⟩, rfl, rfl⟩
      exact hset.trans (untouched_enqueue _ task)

/-- A loop that begins has not written anything yet. -/
theorem untouched_pickUp (positionSizeUsd : ℚ) (now : Timestamp) :
    Untouched s (s.pickUp positionSizeUsd now) := by
  cases h : s.pickUpRefused positionSizeUsd now with
  | true =>
    obtain ⟨task, rest, -, hpick⟩ := pickUp_of_refused s h
    rw [hpick]
    unfold System.manualEntryFailed
    split_ifs
    · exact ⟨rfl, ⟨rfl, rfl, rfl⟩, rfl, rfl⟩
    · exact ⟨rfl, ⟨rfl, rfl, rfl⟩, rfl, rfl⟩
  | false =>
    rcases pickUp_of_not_refused s h with hsame | ⟨task, rest, loop, -, -, hpick⟩
    · rw [hsame]
      exact untouched_refl s
    · rw [hpick]
      exact ⟨rfl, ⟨rfl, rfl, rfl⟩, rfl, rfl⟩

/-- The return of a loop leaves what the loop has written. -/
theorem untouched_returnAt (i : ℕ) : Untouched s (s.returnAt i) := by
  unfold System.returnAt
  split_ifs with h
  · simp only [BotState.returnAt, h, and_self, if_true]
    exact ⟨rfl, ⟨rfl, rfl, rfl⟩, rfl, rfl⟩
  · exact untouched_refl s

/-- An iteration leaves the engine's entries alone. -/
theorem cache_iterateAt (i : ℕ) (nowMs : UInt64) (now : Timestamp) (replies : SplitReplies) :
    (s.iterateAt i nowMs now replies).engine.symbols = s.engine.symbols ∧
      SameCache s.engine (s.iterateAt i nowMs now replies).engine ∧
      (s.iterateAt i nowMs now replies).bot.pendingRecovery = s.bot.pendingRecovery := by
  unfold System.iterateAt
  cases hloop : s.bot.loops[i]? with
  | none => exact ⟨rfl, ⟨rfl, rfl, rfl⟩, rfl⟩
  | some loop =>
    simp only [BotState.iterateAt, hloop]
    split_ifs
    · exact ⟨rfl, ⟨rfl, rfl, rfl⟩, rfl⟩
    · exact ⟨rfl, ⟨rfl, rfl, rfl⟩, rfl⟩

/-- The launch of a recovered position leaves the tables, the cache and the tracker. -/
theorem launchRecovered_cache (usdtKrwRate : ℚ) :
    (s.launchRecovered usdtKrwRate).engine.symbols = s.engine.symbols ∧
      SameCache s.engine (s.launchRecovered usdtKrwRate).engine ∧
      (s.launchRecovered usdtKrwRate).bot.tracker = s.bot.tracker := by
  unfold System.launchRecovered
  cases s.bot.pendingRecovery with
  | none => exact ⟨rfl, ⟨rfl, rfl, rfl⟩, rfl⟩
  | some pos =>
    have hclaim := untouched_claim { s with bot := { s.bot with pendingRecovery := none } }
      ⟨recoverySignal pos usdtKrwRate, some pos⟩
    exact ⟨hclaim.symbols, ⟨hclaim.cache.1, hclaim.cache.2, hclaim.cache.3⟩, hclaim.tracker⟩

/-- The cached entries stay sound through every step. -/
theorem cacheInvariant_systemStep (std : StdSort) (event : SystemEvent)
    (h : CacheInvariant s.engine) : CacheInvariant (systemStep std s event).engine := by
  cases event with
  | tickerUpdate clock ticker =>
    have hnow : CacheInvariant s.engineNow := h.congr ⟨rfl, rfl, rfl⟩
    exact cacheInvariant_step std s.bot.maxPositions s.engineNow (.tickerUpdate clock ticker) hnow
  | publishTransfers snapshot => exact h.congr ⟨rfl, rfl, rfl⟩
  | refreshEntryFilters nowMs =>
    exact updateAllEntries_invariant s.engine
      (fun e nowMs idx he => cacheInvariant_updateSymbolEntry e idx nowMs he) nowMs h
  | callback i => exact h.congr (untouched_callbackAt s i).cache
  | answerPrompt approved => exact h.congr (untouched_answerPrompt s approved).cache
  | storeFlag i => exact h.congr (untouched_storeFlag s i).cache
  | startExecutor => exact h
  | stopExecutor => exact h
  | launchRecovered usdtKrwRate => exact h.congr (launchRecovered_cache s usdtKrwRate).2.1
  | pickUp positionSizeUsd now => exact h.congr (untouched_pickUp s positionSizeUsd now).cache
  | iterate i nowMs now replies => exact h.congr (cache_iterateAt s i nowMs now replies).2.1
  | loopReturns i => exact h.congr (untouched_returnAt s i).cache
  | shutdown => exact h

/-- The engine's cache is empty at the start. -/
theorem cacheInvariant_start (maxPositions : MaxPositions) (blacklist : List SymbolId)
    (recovered : Option Position) (symbols : SymbolTable) (pairs : List ExchangePairConfig)
    (manualConfirmOnce : Bool) :
    CacheInvariant
      (startSystem maxPositions blacklist recovered symbols pairs manualConfirmOnce).engine :=
  cacheInvariant_initial.congr ⟨rfl, rfl, rfl⟩

/-! ## Occupied symbols -/

/-- The symbols with a loop that runs, is on its way, or is still to be recovered. -/
def occupants (s : System) : List SymbolId :=
  s.bot.pendingRecovery.toList.map Position.symbol ++ launching s

/-- A symbol is taken by the recovery that waits for its launch, or on the way to a loop. -/
theorem count_occupants : (occupants s).count symbol =
    (s.bot.pendingRecovery.toList.map Position.symbol).count symbol +
      (launching s).count symbol := by
  rw [occupants, List.count_append]

/-- In an untouched step the two counts change alike. -/
theorem count_occupants_of_untouched {s s' : System} (h : Untouched s s') :
    (occupants s').count symbol + (launching s).count symbol =
      (occupants s).count symbol + (launching s').count symbol := by
  rw [count_occupants, count_occupants, h.pendingRecovery]
  omega

/-- The launch of the recovered position takes it out of waiting. -/
theorem count_occupants_launchRecovered_le (usdtKrwRate : ℚ) :
    (occupants (s.launchRecovered usdtKrwRate)).count symbol ≤ (occupants s).count symbol := by
  unfold System.launchRecovered
  cases hpending : s.bot.pendingRecovery with
  | none => exact le_rfl
  | some pos =>
    have hbot := count_launching_bot s symbol { s.bot with pendingRecovery := none } rfl rfl
    have hclaim := count_launching_claim_le
      { s with bot := { s.bot with pendingRecovery := none } } symbol
      ⟨recoverySignal pos usdtKrwRate, some pos⟩
    have hnone := (untouched_claim { s with bot := { s.bot with pendingRecovery := none } }
      ⟨recoverySignal pos usdtKrwRate, some pos⟩).pendingRecovery
    rw [count_occupants, count_occupants, hpending, hnone]
    rw [hbot, ← count_singleton] at hclaim
    simpa [recoverySignal, Nat.add_comm] using hclaim

/-! ## A small system -/

/-- Two coins on the Bithumb-Bybit pair. -/
def twoCoinSystem (maxPositions : MaxPositions) : System :=
  startSystem maxPositions [] none
    ((SymbolTable.empty.add (.of "AAA" "KRW")).add (.of "BBB" "KRW"))
    [⟨.bithumb, .bybit, true⟩] false

/-- The executor runs, the routes are open, and AAA qualifies at 1100 ms. -/
def signalOfAAA : List SystemEvent :=
  [.startExecutor, .publishTransfers (freeRoutes ["AAA", "BBB"]),
    .tickerUpdate ⟨1000, 1000⟩ (usdtTicker 1000),
    .tickerUpdate ⟨1100, 1100⟩ (foreignTicker "AAA" 1100),
    .tickerUpdate ⟨1100, 1100⟩ (koreanTicker "AAA" 1950 1100)]

end SpotRelay.Analysis
