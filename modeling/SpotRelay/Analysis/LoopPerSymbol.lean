import SpotRelay.Analysis.ThreadSteps

/-!
# One loop for a symbol

A scan keeps away from a symbol by two marks: the fired flag of its entry, and its position in
the tracker.  A loop has neither between a change of the qualification and its first fill, and a
scan at that time starts a second loop.  The flag does not keep two scans apart either: it is
loaded and stored in two steps, so scans that overlap in two threads can both find it clear.

* **the condition**: no access takes up a symbol that already has a loop running or on its way
  (`LaunchesOnce`).
* **one step** then keeps every symbol at one (`underWay_step`), and so does a run, whatever the
  order of the threads' accesses (`oneLoopPerSymbol`).
* **two ways to a second loop**: the entry qualifies anew before the first fill
  (`secondLoop_of_requalification`), or two scans overlap.
-/

set_option autoImplicit false

namespace SpotRelay.Analysis

open SpotRelay.Model SpotRelay.Library

/-! ## Steps that start no second loop -/

/-- The symbol that a step takes up: the next access of a thread finds the fired flag of a candidate
clear, or the position of a top-up gone. -/
def stepTakesUp? (t : ThreadedSystem) : ThreadEvent → Option SymbolId
  | .proceed thread _ => t.threads[thread]?.bind (takesUp? t.system)
  | _ => none

/-- A symbol that a step takes up is not under way to a loop, nor has one. -/
def LaunchesOnce (t : ThreadedSystem) (event : ThreadEvent) : Prop :=
  ∀ symbol ∈ stepTakesUp? t event, symbol ∉ underWay t

variable (std : StdSort) (t : ThreadedSystem) (symbol : SymbolId)

/-- A thread that takes up nothing keeps what is under way. -/
theorem count_underWay_set {thread : ℕ} {phase next : TickPhase}
    (hphase : t.threads[thread]? = some phase) (hnone : onWay? next = none) :
    (underWay { t with threads := t.threads.set thread next }).count symbol ≤
      (underWay t).count symbol := by
  have hset := count_filterMap_set onWay? symbol hphase next
  rw [count_underWay, count_underWay]
  rw [hnone, Option.toList_none, List.count_nil] at hset
  dsimp only
  omega

/-- A call that emits nothing puts no symbol on its way. -/
theorem count_underWay_beginCall (thread : ℕ) {phase : TickPhase} (hnone : onWay? phase = none) :
    (underWay (t.beginCall thread phase)).count symbol ≤ (underWay t).count symbol := by
  unfold ThreadedSystem.beginCall
  split
  · rename_i hidle
    exact count_underWay_set t symbol hidle hnone
  · exact le_rfl

/-- Selecting candidates puts no symbol on its way. -/
theorem count_underWay_selectAt (thread : ℕ) (reads : ScanReads) :
    (underWay (t.selectAt std thread reads)).count symbol ≤ (underWay t).count symbol := by
  unfold ThreadedSystem.selectAt
  split
  · rename_i hselect
    exact count_underWay_set t symbol hselect rfl
  · exact le_rfl

/-- An access adds at most the symbol that it takes up. -/
theorem count_underWay_proceed (thread : ℕ) (nowMs : UInt64) :
    (underWay (t.proceed thread nowMs)).count symbol ≤
      (underWay t).count symbol +
        (stepTakesUp? t (.proceed thread nowMs)).toList.count symbol := by
  unfold ThreadedSystem.proceed
  cases hphase : t.threads[thread]? with
  | none => exact Nat.le_add_right _ _
  | some phase =>
    have htakes : stepTakesUp? t (.proceed thread nowMs) = takesUp? t.system phase := by
      simp only [stepTakesUp?, hphase, Option.bind_some]
    have hset := count_filterMap_set onWay? symbol hphase (t.system.tickStep nowMs phase).2
    have hkeeps := (keepsCount_tickStep t.system nowMs phase).le symbol
    rw [count_underWay, count_underWay, htakes]
    dsimp only
    omega

/-- A step adds at most the symbol that it takes up. -/
theorem count_underWay_step (event : ThreadEvent) :
    (underWay (t.step std event)).count symbol ≤
      (underWay t).count symbol + (stepTakesUp? t event).toList.count symbol := by
  cases event with
  | other event =>
    have hother := count_occupants_ofLoops std t.system event symbol
    rw [count_underWay, count_underWay]
    simp only [ThreadedSystem.step, stepTakesUp?, Option.toList_none, List.count_nil]
    omega
  | tick thread ticker => exact count_underWay_beginCall t symbol thread rfl
  | refresh thread => exact count_underWay_beginCall t symbol thread rfl
  | proceed thread nowMs => exact count_underWay_proceed t symbol thread nowMs
  | select thread reads => exact count_underWay_selectAt std t symbol thread reads

/-- A step keeps every symbol at one loop. -/
theorem underWay_step (event : ThreadEvent) (hold : (underWay t).count symbol ≤ 1)
    (hstep : LaunchesOnce t event) : (underWay (t.step std event)).count symbol ≤ 1 := by
  have hadds := count_underWay_step std t symbol event
  cases htaken : stepTakesUp? t event with
  | none =>
    rw [htaken, Option.toList_none, List.count_nil] at hadds
    omega
  | some other =>
    rw [htaken, Option.toList_some, count_singleton] at hadds
    by_cases hsame : other = symbol
    · have hfree : (underWay t).count symbol = 0 :=
        List.count_eq_zero.mpr (hsame ▸ hstep other htaken)
      have hone : one other symbol = 1 := if_pos hsame
      omega
    · have hnone : one other symbol = 0 := if_neg hsame
      omega

/-! ## Runs -/

/-- Before the first step at most the recovered position waits for its loop. -/
theorem underWay_start (threads : ℕ) (maxPositions : MaxPositions) (blacklist : List SymbolId)
    (recovered : Option Position) (symbols : SymbolTable) (pairs : List ExchangePairConfig)
    (manualConfirmOnce : Bool) :
    (underWay (ThreadedSystem.start threads maxPositions blacklist recovered symbols pairs
      manualConfirmOnce)).count symbol ≤ 1 := by
  have hidle : ∀ n, (List.replicate n TickPhase.idle).filterMap onWay? = [] := by
    intro n
    induction n with
    | zero => rfl
    | succ n ih => exact ih
  have hrecovered : (recovered.toList.map Position.symbol ++ []).length ≤ 1 := by
    cases recovered with
    | none => exact Nat.zero_le 1
    | some pos => exact le_rfl
  rw [count_underWay]
  simp only [ThreadedSystem.start, hidle, List.count_nil, Nat.add_zero]
  exact List.count_le_length.trans hrecovered

/-- Whatever the order of the threads' accesses, in a run that takes up no symbol under way every
symbol has at most one loop that is queued or running. -/
theorem oneLoopPerSymbol (threads : ℕ) (maxPositions : MaxPositions) (blacklist : List SymbolId)
    (recovered : Option Position) (symbols : SymbolTable) (pairs : List ExchangePairConfig)
    (manualConfirmOnce : Bool) (events : List ThreadEvent)
    (hrun : Run.Along LaunchesOnce (ThreadedSystem.step std)
      (.start threads maxPositions blacklist recovered symbols pairs manualConfirmOnce) events) :
    let t := (ThreadedSystem.start threads maxPositions blacklist recovered symbols pairs
      manualConfirmOnce).run std events
    (queueSymbols t.system).count symbol + (loopSymbols t.system).count symbol ≤ 1 := by
  intro t
  have hle : (underWay t).count symbol ≤ 1 :=
    Run.invariant (fun t => (underWay t).count symbol ≤ 1)
      (fun t event hold hstep => underWay_step std t symbol event hold hstep) events _
      (underWay_start symbol threads maxPositions blacklist recovered symbols pairs
        manualConfirmOnce) hrun
  rw [count_underWay, count_occupants, count_launching] at hle
  omega

instance (t : ThreadedSystem) (event : ThreadEvent) : Decidable (LaunchesOnce t event) :=
  inferInstanceAs (Decidable (∀ symbol ∈ stepTakesUp? t event, _))

/-- The signal of AAA becomes a loop, and the fired flag keeps the next ticks away. -/
def oneLoopRun : List ThreadEvent :=
  launchOfAAA ++ pickUpFirst ::
    tickRun 1 1200 (koreanTicker "AAA" 1945 1200) {}

/-- The signal of AAA becomes one loop, and the next tick in the other thread starts none. -/
theorem oneLoopPerSymbol_oneLoopRun :
    let t := (twoCoinThreads ⟨2, by decide, by decide⟩).run .insertion oneLoopRun
    loopSymbols t.system = [.of "AAA" "KRW"] ∧
      (queueSymbols t.system).count (.of "AAA" "KRW") +
        (loopSymbols t.system).count (.of "AAA" "KRW") ≤ 1 :=
  ⟨by decide +kernel,
    oneLoopPerSymbol .insertion (.of "AAA" "KRW") 2 ⟨2, by decide, by decide⟩ [] none _ _ false
      oneLoopRun (by decide +kernel)⟩

/-- The ask rises and falls again before the loop has bought anything: the flag is cleared, and
a second task is queued. -/
def secondLoopRun : List ThreadEvent :=
  launchOfAAA ++ pickUpFirst :: tickRun 0 1200 (koreanTicker "AAA" 1990 1200) {} ++
    tickRun 0 1210 (koreanTicker "AAA" 1950 1210) (candidateReads 0) ++ [storeFirstFlag]

/-- AAA is queued while its loop runs. -/
theorem secondLoop_of_requalification :
    ¬ ∀ (std : StdSort) (threads : ℕ) (maxPositions : MaxPositions) (blacklist : List SymbolId)
      (recovered : Option Position) (symbols : SymbolTable) (pairs : List ExchangePairConfig)
      (manualConfirmOnce : Bool) (events : List ThreadEvent) (symbol : SymbolId),
      let t := (ThreadedSystem.start threads maxPositions blacklist recovered symbols pairs
        manualConfirmOnce).run std events
      (queueSymbols t.system).count symbol + (loopSymbols t.system).count symbol ≤ 1 := by
  intro h
  have hle := h .insertion 2 ⟨2, by decide, by decide⟩ [] none
    ((SymbolTable.empty.add (.of "AAA" "KRW")).add (.of "BBB" "KRW"))
    [⟨.bithumb, .bybit, true⟩] false secondLoopRun (.of "AAA" "KRW")
  revert hle
  decide +kernel

/-- Two threads scan at once, and each loads the flag of AAA before the other has stored it. -/
def overlappingScans : List ThreadEvent :=
  startUp ++ tickRun 0 1000 (usdtTicker 1000) {} ++ tickRun 0 1100 (foreignTicker "AAA" 1100) {} ++
    .tick 0 (koreanTicker "AAA" 1950 1100) :: List.replicate 32 (.proceed 0 1100) ++
    .tick 1 (koreanTicker "AAA" 1950 1100) :: List.replicate 32 (.proceed 1 1100) ++
    .select 0 (candidateReads 0) :: .select 1 (candidateReads 0) ::
      List.replicate 3 (.proceed 0 1100) ++ List.replicate 16 (.proceed 1 1100) ++
    List.replicate 16 (.proceed 0 1100) ++ [storeFirstFlag]

example : queueSymbols ((twoCoinThreads ⟨2, by decide, by decide⟩).run .insertion
    overlappingScans).system = [.of "AAA" "KRW", .of "AAA" "KRW"] := by decide +kernel

end SpotRelay.Analysis
