import SpotRelay.Analysis.ExternalPositions
import SpotRelay.Analysis.PositionOwners
import SpotRelay.Analysis.RecoveryOffers

/-!
# The loop of a recovered position

The start-up blacklists every coin that it finds at a foreign venue, apart from the saved symbol,
and the entry checks come before the loop looks at the position it is given.  So a position that
only the scan has found is recovered into the tracker and then never managed.

* **a task that passes** the entry checks gets its loop (`exists_loop_of_resumable`).
* **one that does not** leaves its position stranded, and no later step of the bot gives it a loop
  (`Stranded.step`, `run_stranded`).
-/

set_option autoImplicit false

namespace SpotRelay.Analysis

open SpotRelay.Model SpotRelay.Library

/-! ## What the start-up blocks -/

section Blacklist

variable {scan : RecoveryScan} {venues : VenueClients} {symbol : SymbolId}

/-- The bot manages the symbol of the saved position. -/
theorem mem_botManagedSymbols :
    symbol ∈ scan.botManagedSymbols ↔ ∃ loaded ∈ scan.loaded, loaded.symbol = symbol := by
  unfold RecoveryScan.botManagedSymbols
  cases scan.loaded with
  | none => simp
  | some loaded => simp [eq_comm]

/-- What no round adds, the rounds together do not. -/
theorem not_mem_foldl {α β : Type} {b : β} {round : Finset β → α → Finset β}
    (hround : ∀ (set : Finset β) (a : α), b ∉ set → b ∉ round set a) (as : List α)
    {set : Finset β} (hset : b ∉ set) : b ∉ as.foldl round set :=
  List.foldlRecOn as round hset fun set hset a _ => hround set a hset

/-- A symbol that the bot manages is not blocked by its balance. -/
theorem managed_not_mem_blockBalances {balance : SymbolId → ℚ} {symbols : List SymbolId}
    {botManaged blacklist : Finset SymbolId} (hmanaged : symbol ∈ botManaged)
    (hnot : symbol ∉ blacklist) :
    symbol ∉ OrderManager.blockBalances balance symbols botManaged blacklist := by
  refine not_mem_foldl ?_ symbols hnot
  intro set sym hset
  split_ifs with hsym
  · exact hset
  · refine fun hmem => (Finset.mem_insert.mp hmem).elim (fun heq => hsym ?_) hset
    rw [← heq]
    exact hmanaged
  · exact hset

/-- A symbol that the bot manages is not blocked by its short. -/
theorem managed_not_mem_blockPositions {positions : List ShortPosition}
    {botManaged blacklist : Finset SymbolId} (hmanaged : symbol ∈ botManaged)
    (hnot : symbol ∉ blacklist) :
    symbol ∉ OrderManager.blockPositions positions botManaged blacklist := by
  refine not_mem_foldl ?_ positions hnot
  intro set pos hset
  split_ifs with hmore hsym
  · exact hset
  · refine fun hmem => (Finset.mem_insert.mp hmem).elim (fun heq => hsym ?_) hset
    rw [← heq]
    exact hmanaged
  · exact hset

/-- The saved symbol is never blocked. -/
theorem managed_not_mem_blacklist (hmanaged : symbol ∈ scan.botManagedSymbols) :
    symbol ∉ scan.blacklist venues := by
  obtain ⟨bithumb, upbit, bybit, okx⟩ := venues
  unfold RecoveryScan.blacklist OrderManager.refreshExternalPositions
  dsimp only
  cases bithumb <;> cases upbit <;> cases bybit <;> cases okx
  all_goals
    repeat first
      | exact Finset.notMem_empty symbol
      | refine managed_not_mem_blockPositions hmanaged ?_
      | refine managed_not_mem_blockBalances hmanaged ?_

/-- A marked short is one of the positions, with its symbol and amount. -/
theorem exists_of_mem_markShorts {positions : List ShortPosition} {marks : ℕ → Option Ticker}
    {short : ForeignShort} (h : short ∈ markShorts positions marks) :
    ∃ pos ∈ positions, pos.symbol = short.symbol ∧ pos.foreignAmount = short.foreignAmount := by
  obtain ⟨i, hi, rfl⟩ := List.mem_mapIdx.mp h
  exact ⟨positions[i], List.getElem_mem hi, rfl, rfl⟩

/-- The foreign venues answer the blacklist's queries like those of the scan. -/
structure AnswersAlike (scan : RecoveryScan) (venues : VenueClients) : Prop where
  bybit : venues.bybit = some scan.bybit
  okx : scan.okxEnabled = true → venues.okx = some scan.okx

/-- A held short of another symbol than the saved one is blocked. -/
theorem heldShort_mem_blacklist (halike : AnswersAlike scan venues) {foreignEx : Exchange}
    {short : ForeignShort} (hheld : HeldShort scan foreignEx short)
    (hsymbol : symbol = .ofChars short.symbol.base "KRW".toList)
    (hother : symbol ∉ scan.botManagedSymbols) : symbol ∈ scan.blacklist venues := by
  refine (mem_refreshExternalPositions scan.std venues scan.commonSymbols hother).mpr ?_
  have hlent := hheld.lent
  have hamount := hheld.looked.amount
  unfold RecoveryScan.shorts at hlent
  cases foreignEx with
  | bithumb => exact absurd hlent List.not_mem_nil
  | upbit => exact absurd hlent List.not_mem_nil
  | bybit =>
    obtain ⟨pos, hpos, hsame, hequal⟩ := exists_of_mem_markShorts hlent
    refine .inr (.inr (.inl ⟨scan.bybit, halike.bybit, pos, hpos, hequal ▸ hamount, ?_⟩))
    rw [hsymbol, OrderManager.krwSymbol, hsame]
  | okx =>
    dsimp only at hlent
    split_ifs at hlent with henabled
    · obtain ⟨pos, hpos, hsame, hequal⟩ := exists_of_mem_markShorts hlent
      refine .inr (.inr (.inr ⟨scan.okx, halike.okx henabled, pos, hpos, hequal ▸ hamount, ?_⟩))
      rw [hsymbol, OrderManager.krwSymbol, hsame]
    · exact absurd hlent List.not_mem_nil

end Blacklist

/-! ## A position without a loop -/

section Stranded

variable {b : BotState} {p : Position}

/-- A loop that is given the position starts. -/
def Resumable (b : BotState) (p : Position) : Prop :=
  p.symbol ∉ b.blacklist ∧ p.koreanExchange.isKorean = true ∧ p.matched = true

/-- The position is tracked, and every task of its symbol is its own. -/
structure Stranded (b : BotState) (p : Position) : Prop where
  tracked : b.tracker.getPosition p.symbol = some p
  pending : ∀ pos ∈ b.pendingRecovery, pos = p
  queued : ∀ task ∈ b.queue, task.signal.symbol = p.symbol →
    ∃ usdtKrwRate, task = ⟨recoverySignal p usdtKrwRate, some p⟩
  unowned : ∀ loop ∈ b.loops, loop.call.signal.symbol ≠ p.symbol
  refused : ¬ Resumable b p

/-- A launch only adds to the queue. -/
theorem launch_cases (b : BotState) (task : LifecycleTask) :
    (b.launch task).tracker = b.tracker ∧ (b.launch task).pendingRecovery = b.pendingRecovery ∧
      (b.launch task).loops = b.loops ∧ (b.launch task).blacklist = b.blacklist ∧
      ((b.launch task).queue = b.queue ∨ (b.launch task).queue = b.queue ++ [task]) := by
  unfold BotState.launch BotState.tryClaimSlot
  split_ifs with hfree
  · dsimp only
    split_ifs
    · exact ⟨rfl, rfl, rfl, rfl, .inr rfl⟩
    · exact ⟨rfl, rfl, rfl, rfl, .inl rfl⟩
  · exact ⟨rfl, rfl, rfl, rfl, .inl rfl⟩

/-- The launch of another task, or of the recovery itself, leaves the position stranded. -/
theorem Stranded.launch (h : Stranded b p) (task : LifecycleTask)
    (htask : task.signal.symbol = p.symbol →
      ∃ usdtKrwRate, task = ⟨recoverySignal p usdtKrwRate, some p⟩) :
    Stranded (b.launch task) p := by
  obtain ⟨htracker, hpending, hloops, hblacklist, hqueue⟩ := launch_cases b task
  refine ⟨?_, ?_, ?_, ?_, ?_⟩
  · rw [htracker]
    exact h.tracked
  · rw [hpending]
    exact h.pending
  · intro other hother hsymbol
    rcases hqueue with hqueue | hqueue
    · rw [hqueue] at hother
      exact h.queued other hother hsymbol
    · rw [hqueue, List.mem_append, List.mem_singleton] at hother
      rcases hother with hother | rfl
      · exact h.queued other hother hsymbol
      · exact htask hsymbol
  · rw [hloops]
    exact h.unowned
  · unfold Resumable
    rw [hblacklist]
    exact h.refused

/-- The entry checks refuse the position. -/
theorem enterLoop_refused (hrefused : ¬ Resumable b p) (usdtKrwRate positionSizeUsd : ℚ)
    (now : Timestamp) :
    ∃ result, enterLoop
      { signal := recoverySignal p usdtKrwRate, positionSizeUsd := positionSizeUsd }
      (exchangesAvailable (recoverySignal p usdtKrwRate))
      (b.isSafeToTrade (recoverySignal p usdtKrwRate)) (some p) now b.tracker = .error result := by
  cases hresult : enterLoop
      { signal := recoverySignal p usdtKrwRate, positionSizeUsd := positionSizeUsd }
      (exchangesAvailable (recoverySignal p usdtKrwRate))
      (b.isSafeToTrade (recoverySignal p usdtKrwRate)) (some p) now b.tracker with
  | error result => exact ⟨result, rfl⟩
  | ok state =>
    exfalso
    simp only [enterLoop] at hresult
    split_ifs at hresult with hexchange hsafe hmatched
    refine hrefused ⟨?_, ?_, ?_⟩
    · intro hblocked
      apply hsafe
      rw [BotState.isSafeToTrade, if_pos (by exact hblocked)]
      rfl
    · simpa [exchangesAvailable, recoverySignal] using hexchange
    · simpa using hmatched

/-- A loop that begins leaves the position stranded. -/
theorem Stranded.pickUp (h : Stranded b p) (positionSizeUsd : ℚ) (now : Timestamp) :
    Stranded (b.pickUp positionSizeUsd now) p := by
  unfold BotState.pickUp
  cases hqueue : b.queue with
  | nil => exact h
  | cons task rest =>
    have hrest : ∀ other ∈ rest, other.signal.symbol = p.symbol →
        ∃ usdtKrwRate, other = ⟨recoverySignal p usdtKrwRate, some p⟩ := by
      intro other hother
      exact h.queued other (hqueue ▸ List.mem_cons_of_mem task hother)
    dsimp only
    split_ifs with hworker
    · split
      · exact ⟨h.tracked, h.pending, hrest, h.unowned, h.refused⟩
      · next state hok =>
        refine ⟨h.tracked, h.pending, hrest, ?_, h.refused⟩
        intro loop hloop
        rcases List.mem_append.mp hloop with hloop | hloop
        · exact h.unowned loop hloop
        · rw [List.mem_singleton.mp hloop]
          intro hsymbol
          obtain ⟨usdtKrwRate, rfl⟩ := h.queued task (hqueue ▸ List.mem_cons_self) hsymbol
          obtain ⟨result, herror⟩ := enterLoop_refused h.refused usdtKrwRate positionSizeUsd now
          rw [herror] at hok
          cases hok
    · exact h

/-- An iteration leaves the position stranded. -/
theorem Stranded.iterateAt (h : Stranded b p) (i : ℕ) (x : IterationInput) :
    Stranded (b.iterateAt i x) p := by
  unfold BotState.iterateAt
  cases hi : b.loops[i]? with
  | none => exact h
  | some loop =>
    have hne := h.unowned loop (List.mem_of_getElem? hi)
    refine ⟨?_, h.pending, h.queued, ?_, h.refused⟩
    · have hothers := loopStep_agreeOff loop.call x
        { loop.state with tracker := b.tracker, running := b.running }
      exact (hothers.get p.symbol (Ne.symm hne)).trans h.tracked
    · intro other hother
      rcases List.mem_or_eq_of_mem_set hother with hmem | rfl
      · exact h.unowned other hmem
      · exact hne

/-- Nothing that the bot does brings a loop to the position. -/
theorem Stranded.step (h : Stranded b p) (event : BotEvent) : Stranded (botStep b event) p := by
  cases event with
  | routesRefreshed openRoutes => exact ⟨h.tracked, h.pending, h.queued, h.unowned, h.refused⟩
  | entrySignal signal =>
    simp only [botStep, BotState.entrySignal]
    split_ifs with htracked
    · exact h
    · refine h.launch _ fun hsymbol => ?_
      dsimp only at hsymbol
      rw [hsymbol, h.tracked] at htracked
      exact absurd rfl htracked
  | launchRecovered usdtKrwRate =>
    simp only [botStep, BotState.launchRecovered]
    cases hpending : b.pendingRecovery with
    | none => exact h
    | some pos =>
      obtain rfl := h.pending pos hpending
      have hcleared : Stranded { b with pendingRecovery := none } pos :=
        ⟨h.tracked, fun _ hnone => absurd hnone (Option.not_mem_none _), h.queued, h.unowned,
          h.refused⟩
      exact hcleared.launch _ fun _ => ⟨usdtKrwRate, rfl⟩
  | pickUp positionSizeUsd now => exact h.pickUp positionSizeUsd now
  | iterate i x => exact h.iterateAt i x
  | loopReturns i =>
    simp only [botStep, BotState.returnAt]
    split_ifs
    · refine ⟨h.tracked, h.pending, h.queued, ?_, h.refused⟩
      exact fun loop hloop => h.unowned loop (List.mem_of_mem_eraseIdx hloop)
    · exact h
  | shutdown => exact ⟨h.tracked, h.pending, h.queued, h.unowned, h.refused⟩

/-- A recovered position whose loop is refused is stranded from the start. -/
theorem stranded_start {maxPositions : MaxPositions} {blacklist : List SymbolId}
    {openRoutes : List Route}
    (hrefused : ¬ Resumable (startBot maxPositions blacklist openRoutes (some p)) p) :
    Stranded (startBot maxPositions blacklist openRoutes (some p)) p where
  tracked := by
    refine PositionTracker.getPosition_openPosition .empty p ?_ (PositionTracker.count_empty _)
    rw [PositionTracker.freeSlots_empty]
    omega
  pending := fun _ hpos => (Option.some.inj hpos).symm
  queued := fun _ htask => absurd htask List.not_mem_nil
  unowned := fun _ hloop => absurd hloop List.not_mem_nil
  refused := hrefused

/-- It stays stranded along any run. -/
theorem run_stranded (h : Stranded b p) (events : List BotEvent) :
    Stranded (events.foldl botStep b) p :=
  List.foldlRecOn (motive := fun b => Stranded b p) events botStep h
    fun _ hb event _ => Stranded.step hb event

/-- A task that passes the entry checks gets its loop. -/
theorem exists_loop_of_resumable {maxPositions : MaxPositions} {blacklist : List SymbolId}
    {openRoutes : List Route}
    (h : Resumable (startBot maxPositions blacklist openRoutes (some p)) p) :
    ∃ events : List BotEvent, ∃ loop ∈
      (events.foldl botStep (startBot maxPositions blacklist openRoutes (some p))).loops,
      loop.call.signal.symbol = p.symbol := by
  obtain ⟨hallowed, hkorean, hmatched⟩ := h
  let route : Route := (p.koreanExchange, p.foreignExchange, p.symbol.base)
  have hfree : 0 < maxPositions.val := maxPositions.one_le
  let opened := startBot maxPositions blacklist [route] (some p)
  have hsafe : ∀ b : BotState, b.blacklist = blacklist → b.openRoutes = [route] →
      b.isSafeToTrade (recoverySignal p 0) = true := by
    intro b hblacklist hroutes
    rw [BotState.isSafeToTrade, hblacklist, hroutes, if_neg (by exact hallowed)]
    exact decide_eq_true (List.mem_singleton_self route)
  have hlaunched : botStep opened (.launchRecovered 0) =
      { opened with
        pendingRecovery := none
        activeLoops := 1
        queue := [⟨recoverySignal p 0, some p⟩] } := by
    simp [botStep, BotState.launchRecovered, BotState.launch, BotState.tryClaimSlot, opened,
      startBot, hfree, queueCapacity]
  refine ⟨[.routesRefreshed [route], .launchRecovered 0, .pickUp 0 0], ?_⟩
  change ∃ loop ∈ (botStep (botStep opened (.launchRecovered 0)) (.pickUp 0 0)).loops, _
  rw [hlaunched]
  have hexchange : exchangesAvailable (recoverySignal p 0) = true := hkorean
  have hroom : ([] : List RunningLoop).length < maxPositions.val := hfree
  simp only [botStep, BotState.pickUp, opened, startBot, hroom, if_true, hexchange]
  rw [hsafe _ rfl rfl, enterLoop_of_matched hmatched]
  exact ⟨_, List.mem_append_right _ (List.mem_singleton_self _), rfl⟩

end Stranded

/-! ## The result -/

/-- A selected candidate is one of those offered. -/
theorem selected_mem {scan : RecoveryScan} {choice : ℤ} {c : RecoveryCandidate}
    (h : scan.selected choice = some c) : c ∈ scan.candidates := by
  unfold RecoveryScan.selected at h
  split_ifs at h
  exact List.mem_of_getElem? h

/-- A candidate is blocked exactly if its symbol is not the saved one. -/
theorem mem_blacklist_iff {scan : RecoveryScan} {venues : VenueClients}
    (halike : AnswersAlike scan venues) {c : RecoveryCandidate} (hc : c ∈ scan.candidates) :
    c.pos.symbol ∈ scan.blacklist venues ↔
      ¬ ∃ loaded ∈ scan.loaded, loaded.symbol = c.pos.symbol := by
  rw [← mem_botManagedSymbols]
  constructor
  · exact fun hblocked hmanaged => managed_not_mem_blacklist hmanaged hblocked
  · intro hother
    rcases offers_of_mem_candidates hc with ⟨foreignEx, short, hheld, hoffers⟩ | hsaved
    · exact heldShort_mem_blacklist halike hheld hoffers.symbol hother
    · exact absurd (mem_botManagedSymbols.mpr ⟨c.pos, hsaved.loaded, rfl⟩) hother

/-- A loop can ever run for the recovered position exactly if its symbol is that of the saved one,
its Korean venue has a client and its amounts match.  Where one of these fails, the position stays
in the tracker as it was recovered, whatever happens, and nothing manages it. -/
theorem recovered_position_runs_iff (scan : RecoveryScan) {venues : VenueClients}
    (halike : AnswersAlike scan venues) {choice : ℤ} {c : RecoveryCandidate}
    (hselected : scan.selected choice = some c) (maxPositions : MaxPositions)
    {blacklist : List SymbolId} (hblacklist : blacklist.toFinset = scan.blacklist venues)
    (openRoutes : List Route) :
    let start := startBot maxPositions blacklist openRoutes (some c.pos)
    let managed := (∃ loaded ∈ scan.loaded, loaded.symbol = c.pos.symbol) ∧
      c.pos.koreanExchange.isKorean = true ∧ c.pos.matched = true
    ((∃ events : List BotEvent, ∃ loop ∈ (events.foldl botStep start).loops,
        loop.call.signal.symbol = c.pos.symbol) ↔ managed) ∧
      (¬ managed → ∀ events : List BotEvent,
        (events.foldl botStep start).tracker.getPosition c.pos.symbol = some c.pos) := by
  intro start managed
  have hblocked : c.pos.symbol ∈ blacklist ↔
      ¬ ∃ loaded ∈ scan.loaded, loaded.symbol = c.pos.symbol := by
    rw [← mem_blacklist_iff halike (selected_mem hselected), ← hblacklist, List.mem_toFinset]
  have hresumable : Resumable start c.pos ↔ managed :=
    and_congr_left fun _ => not_iff_comm.mp hblocked.symm
  refine ⟨⟨?_, ?_⟩, ?_⟩
  · rintro ⟨events, loop, hloop, hsymbol⟩
    by_contra hnot
    have hstranded := run_stranded (stranded_start (hresumable.not.mpr hnot)) events
    exact hstranded.unowned loop hloop hsymbol
  · exact fun hmanaged => exists_loop_of_resumable (hresumable.mpr hmanaged)
  · exact fun hnot events =>
      (run_stranded (stranded_start (hresumable.not.mpr hnot)) events).tracked

/-- 20 XRP borrowed on Bybit and 25 on Bithumb, without a saved position. -/
def unsavedScan : RecoveryScan where
  std := .insertion
  sort := insertionCandidates
  hash := ⟨id, fun _ => .rfl⟩
  commonSymbols := [.of "XRP" "KRW"]
  okxEnabled := false
  bybit := .wallet ⟨[⟨some "XRP".toList, .value "20".toList⟩], true⟩
  okx := .failed
  marks := fun _ _ => none
  reads := fun _ _ =>
    { accounts := .accounts [⟨some (.string "XRP".toList), some (.number 25), some (.number 0)⟩]
      korean := { ask := 700, valid := true }
      foreign := { bid := 1 / 2, valid := true }
      usdtRate := 1450
      now := 0 }
  loaded := none

/-- The candidate that it offers. -/
def unsavedCandidate : RecoveryCandidate where
  pos :=
    { symbol := .of "XRP" "KRW"
      koreanExchange := .bithumb
      foreignExchange := .bybit
      entryPremium := premiumPct 700 (1 / 2) 1450
      koreanEntryPrice := 700
      foreignEntryPrice := 1 / 2
      positionSizeUsd := 10
      koreanAmount := 20
      foreignAmount := 20
      isActive := true }
  spotBalance := 25
  shortAmount := 20
  matchedAmount := 20
  matchedUsd := 10

/-- Its position is still tracked when a worker has taken its task and refused it. -/
theorem recovered_position_runs_iff_unsaved :
    ([.launchRecovered 1450, .pickUp 3000 0].foldl botStep
      (startBot MaxPositions.initial [.of "XRP" "KRW"] []
        (some unsavedCandidate.pos))).tracker.getPosition (.of "XRP" "KRW") =
      some unsavedCandidate.pos := by
  have halike : AnswersAlike unsavedScan { bybit := some unsavedScan.bybit } :=
    ⟨rfl, fun h => absurd h (by decide)⟩
  have hselected : unsavedScan.selected 1 = some unsavedCandidate := by decide +kernel
  refine (recovered_position_runs_iff unsavedScan halike hselected MaxPositions.initial
    (by decide +kernel) []).2 ?_ _
  rintro ⟨⟨loaded, hloaded, -⟩, -⟩
  cases hloaded

end SpotRelay.Analysis
