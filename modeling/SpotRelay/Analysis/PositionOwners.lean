import SpotRelay.Analysis.LoopFrames
import SpotRelay.Library.Run
import SpotRelay.Model.Bot

/-!
# Every position has a loop

Only loops exit positions.  In every run in which the loop of a recovered position gets a slot
and passes the entry checks, and no retried sale empties a loop behind the tracker's back, each
tracked position belongs to a queued task or to a loop that holds coins and so exits at some
quotes.

* **at start-up** only the recovered position is tracked, and its launch is pending
  (`startBot_manned`).
* **one step** of the bot keeps an owner for every position (`botStep_manned`).
* **a recovered position** keeps its owner, when a worker picks its task up, exactly if the entry
  checks let it through (`pickUp_owned_iff`).
-/

set_option autoImplicit false

namespace SpotRelay.Analysis

open SpotRelay.Model SpotRelay.Library.Run

variable {c : Call} {x : IterationInput} {q : Quotes} {s : LoopState}

/-- A matched position that holds coins. -/
def Live (p : Position) : Prop := p.matched = true ∧ 0 < p.koreanAmount

/-- There are quotes at which the next iteration of the loop takes the exit branch. -/
def EvaluatesExit (loop : RunningLoop) : Prop :=
  ∃ q coinAmount, branch loop.call q loop.state.ledger = .exit coinAmount

/-- A queued task carries the position, or a running loop of its coin can exit. -/
def Owned (b : BotState) (p : Position) : Prop :=
  (∃ task ∈ b.queue, task.signal.symbol = p.symbol ∧ task.initialPosition = some p) ∨
    ∃ loop ∈ b.loops, loop.call.signal.symbol = p.symbol ∧ EvaluatesExit loop

/-- While the bot runs and start-up is over, every active, matched position of the tracker has
an owner. -/
def NoOrphan (b : BotState) : Prop :=
  b.running = true → b.pendingRecovery = none →
    ∀ symbol, ∀ p ∈ b.tracker.getPosition symbol, Live p → Owned b p

/-- A retried exit sale leaves coins in the ledger. -/
def RetryLeavesCoins (l : Ledger) (legs : CloseLegs) : Prop :=
  match legs with
  | .retrySold cover _ => resolvedFillQuantity cover.order < l.heldAmount
  | _ => True

def TradeLeavesCoins (c : Call) (x : IterationInput) (q : Quotes) (l : Ledger) : Prop :=
  match branch c q l with
  | .exit coinAmount => RetryLeavesCoins l (closeLegs c.venues x.replies coinAmount).1
  | _ => True

def IterationLeavesCoins (c : Call) (l : Ledger) (x : IterationInput) : Prop :=
  match iterationQuotes c x.market l.heldAmount with
  | none => True
  | some q => TradeLeavesCoins c x q l

/-- The launch of a recovered position finds a slot, its task passes the checks of
`execute_spot_relay_entry` when it is picked up, and no retried sale empties a loop. -/
def OwnersStay (b : BotState) : BotEvent → Prop
  | .launchRecovered _ => b.pendingRecovery.isSome → b.activeLoops < b.maxPositions.val
  | .pickUp _ _ =>
    ∀ task ∈ b.queue.head?, task.initialPosition.isSome →
      exchangesAvailable task.signal = true ∧ b.isSafeToTrade task.signal = true
  | .iterate i x => ∀ loop ∈ b.loops[i]?, IterationLeavesCoins loop.call loop.state.ledger x
  | _ => True

section Decidability

instance (p : Position) : Decidable (Live p) := inferInstanceAs (Decidable (_ ∧ _))

instance (l : Ledger) (legs : CloseLegs) : Decidable (RetryLeavesCoins l legs) :=
  match legs with
  | .retrySold _ _ => inferInstanceAs (Decidable (_ < _))
  | .coverFailed => isTrue trivial
  | .sold _ _ => isTrue trivial
  | .retriesFailed _ => isTrue trivial

instance (c : Call) (x : IterationInput) (q : Quotes) (l : Ledger) :
    Decidable (TradeLeavesCoins c x q l) := by
  unfold TradeLeavesCoins
  generalize branch c q l = branch
  exact match branch with | .entry _ | .exit _ | .wait => inferInstance

instance (c : Call) (l : Ledger) (x : IterationInput) : Decidable (IterationLeavesCoins c l x) := by
  unfold IterationLeavesCoins
  generalize iterationQuotes c x.market l.heldAmount = quotes
  exact match quotes with | none | some _ => inferInstance

instance (b : BotState) (e : BotEvent) : Decidable (OwnersStay b e) :=
  match e with
  | .launchRecovered _ => inferInstanceAs (Decidable (_ → _))
  | .pickUp _ _ =>
    inferInstanceAs (Decidable (∀ task ∈ b.queue.head?, task.initialPosition.isSome →
      exchangesAvailable task.signal = true ∧ b.isSafeToTrade task.signal = true))
  | .iterate i x =>
    inferInstanceAs (Decidable (∀ loop ∈ b.loops[i]?,
      IterationLeavesCoins loop.call loop.state.ledger x))
  | .routesRefreshed _ => isTrue trivial
  | .entrySignal _ => isTrue trivial
  | .loopReturns _ => isTrue trivial
  | .shutdown => isTrue trivial

end Decidability

/-! ## A loop that holds coins -/

/-- A loop evaluates its exit condition exactly when it holds coins. -/
theorem evaluatesExit_iff (loop : RunningLoop) :
    EvaluatesExit loop ↔ 0 < loop.state.ledger.heldAmount := by
  constructor
  · rintro ⟨q, coinAmount, h⟩
    exact heldAmount_pos_of_exit h
  · intro hheld
    -- no foreign bid rules an entry out, and a high Korean bid clears any threshold
    let threshold := dynamicExitThreshold loop.state.ledger loop.call.signal.premium 1
    let q : Quotes := ⟨0, 1, 0, 0, 1 + threshold / 100, 0, 1⟩
    have hthreshold : 0 < threshold := by
      show 0 < dynamicExitThreshold _ _ _
      unfold dynamicExitThreshold
      split_ifs
      · exact lt_max_of_lt_right (by norm_num [TradingConfig.exitPremiumThreshold])
      · norm_num [TradingConfig.exitPremiumThreshold]
    have hpremium : exitPremium q = threshold := by
      have hbid : (0 : ℚ) < 1 + threshold / 100 := by linarith
      simp only [exitPremium, q, premiumPct, if_pos (⟨one_pos, one_pos, hbid⟩ : _ ∧ _ ∧ _)]
      ring
    refine ⟨q, exitCoinAmount loop.state.ledger.heldAmount q.foreignAsk, ?_⟩
    have hexit : dynamicExitThreshold loop.state.ledger loop.call.signal.premium q.usdtRate ≤
        exitPremium q ∧ 0 < loop.state.ledger.heldAmount := ⟨hpremium.ge, hheld⟩
    simp only [branch]
    rw [if_neg, if_pos hexit]
    rintro ⟨-, -, -, ⟨hpos, hle⟩, -⟩
    have hzero : q.foreignBid * q.foreignBidQty = 0 := zero_mul _
    linarith

/-! ## What an iteration does to the tracker -/

/-- What an iteration that does not stop the bot does to the tracker and to the amount held. -/
inductive TrackerEffect (c : Call) (before after : LoopState) : Prop
  | kept (htracker : after.tracker = before.tracker)
      (hheld : after.ledger.heldAmount = before.ledger.heldAmount ∨ 0 < after.ledger.heldAmount)
  | reopened (snap : Position) (hsymbol : snap.symbol = c.signal.symbol)
      (hamount : snap.koreanAmount = after.ledger.heldAmount)
      (htracker : after.tracker =
        (before.tracker.closePosition snap.symbol).openPosition snap)
  | closed (htracker : after.tracker = before.tracker.closePosition c.signal.symbol)

/-- Only the tracker and the ledger before the iteration matter. -/
theorem TrackerEffect.of_eq {before before' after : LoopState}
    (h : TrackerEffect c before after) (htracker : before.tracker = before'.tracker)
    (hledger : before.ledger = before'.ledger) : TrackerEffect c before' after := by
  cases h with
  | kept hkept hheld => exact .kept (hkept.trans htracker) (hledger ▸ hheld)
  | reopened snap hsymbol hamount hopened =>
    exact .reopened snap hsymbol hamount (htracker ▸ hopened)
  | closed hclosed => exact .closed (htracker ▸ hclosed)

/-- Booking an entry tracks one position of the loop's symbol. -/
theorem bookEntry_effect (hengine : c.engine = true) (legs : LegFills)
    (correction : Option Correction) : TrackerEffect c s (bookEntry c q legs correction s) := by
  refine .reopened (heldSnapshot c
    { s with
      ledger := s.ledger.addSplit legs (entryAdjustmentPnlKrw legs q.usdtRate correction)
      koreanFilledAmount := min legs.foreignQty legs.koreanQty
      foreignFilledAmount := min legs.foreignQty legs.koreanQty } q.usdtRate) rfl rfl ?_
  simp [bookEntry, persistSnapshot, hengine, heldSnapshot]

/-- What follows an opened split leaves the loop's symbol tracked as it should be, while the loop
goes on. -/
theorem afterOpen_effect (hengine : c.engine = true) (outcome : OpenSplit)
    (hrunning : (afterOpen c q outcome s).running = true) :
    TrackerEffect c s (afterOpen c q outcome s) := by
  cases outcome with
  | shortFailed => exact .kept rfl (Or.inl rfl)
  | minOrderRolledBack short rollback => exact .kept rfl (Or.inl rfl)
  | buyRolledBack short rollback => exact .kept rfl (Or.inl rfl)
  | minOrderRollbackFailed short => cases hrunning
  | buyRollbackFailed short => cases hrunning
  | correctionFailed excess legs => cases excess <;> cases hrunning
  | mismatched legs correction => cases hrunning
  | matched legs correction => exact bookEntry_effect hengine legs correction

/-- Booking an exit tracks what is left, or nothing. -/
theorem bookExit_effect (hengine : c.engine = true) (legs : LegFills) (splitPnl : ℚ) :
    TrackerEffect c s (bookExit c x q legs splitPnl s) := by
  simp only [bookExit]
  split_ifs with hrest
  · exact .kept rfl (Or.inr hrest)
  · refine .closed ?_
    simp [completeCycle, hengine, LoopState.emit]

/-- What follows a sale leaves the loop's symbol tracked as it should be, while the loop goes on. -/
theorem afterSale_effect (hengine : c.engine = true) (legs : LegFills) (hedge : Hedge)
    (hrunning : (afterSale c x q legs hedge s).running = true) :
    TrackerEffect c s (afterSale c x q legs hedge s) := by
  cases hedge with
  | failed excess => cases excess <;> cases hrunning
  | done hedged correction =>
    simp only [afterSale] at hrunning ⊢
    split_ifs at hrunning ⊢
    · exact bookExit_effect hengine hedged _
    · cases hrunning

/-- What follows a retried sale does so, too, if it leaves coins. -/
theorem afterRetry_effect (cover sale : Order)
    (hleaves : resolvedFillQuantity cover < s.ledger.heldAmount)
    (hrunning : (afterRetry c q cover sale s).running = true) :
    TrackerEffect c s (afterRetry c q cover sale s) := by
  simp only [afterRetry] at hrunning ⊢
  split_ifs at hrunning ⊢
  · cases hrunning
  · refine .kept rfl (Or.inr ?_)
    show 0 < s.ledger.heldAmount - resolvedFillQuantity cover
    linarith

/-- What follows a closed split does so, too, if a retried sale leaves coins. -/
theorem afterClose_effect (hengine : c.engine = true) (legs : CloseLegs × List Fill)
    (hleaves : RetryLeavesCoins s.ledger legs.1)
    (hrunning : (afterClose c x q legs s).running = true) :
    TrackerEffect c s (afterClose c x q legs s) := by
  obtain ⟨outcome, fills⟩ := legs
  cases outcome with
  | coverFailed => exact .kept rfl (Or.inl rfl)
  | sold cover sale =>
    simp only [afterClose] at hrunning ⊢
    exact (afterSale_effect hengine _ _ hrunning).of_eq rfl rfl
  | retrySold cover sale =>
    simp only [afterClose] at hrunning ⊢
    exact (afterRetry_effect (s := s.emit [.orders fills]) cover.order sale.order hleaves
      hrunning).of_eq rfl rfl
  | retriesFailed cover => cases hrunning

/-- An iteration does so, too, if a retried sale leaves coins. -/
theorem iterate_effect (hengine : c.engine = true) (hleaves : IterationLeavesCoins c s.ledger x)
    (hrunning : (iterate c s x).running = true) : TrackerEffect c s (iterate c s x) := by
  simp only [iterate] at hrunning ⊢
  unfold IterationLeavesCoins at hleaves
  cases hq : iterationQuotes c x.market s.ledger.heldAmount with
  | none => exact .kept rfl (Or.inl rfl)
  | some q =>
    simp only [hq, trade, TradeLeavesCoins] at hrunning hleaves ⊢
    cases hb : branch c q s.ledger with
    | entry coinAmount =>
      simp only [hb] at hrunning ⊢
      exact (afterOpen_effect hengine _ hrunning).of_eq rfl rfl
    | exit coinAmount =>
      simp only [hb] at hrunning hleaves ⊢
      exact (afterClose_effect (s := { s with lastUsdtRate := iterationRate c x.market })
        hengine _ hleaves hrunning).of_eq rfl rfl
    | wait => exact .kept rfl (Or.inl rfl)

/-- A symbol that is tracked at most once stays so. -/
theorem TrackerEffect.count_le {before after : LoopState} (h : TrackerEffect c before after)
    (honce : before.tracker.count c.signal.symbol ≤ 1) :
    after.tracker.count c.signal.symbol ≤ 1 := by
  cases h with
  | kept htracker hheld =>
    rw [htracker]
    exact honce
  | reopened snap hsymbol hamount htracker =>
    rw [htracker, ← hsymbol]
    exact (before.tracker.reopen_spec snap (hsymbol ▸ honce)).1
  | closed htracker =>
    rw [htracker, PositionTracker.count_closePosition]
    omega

/-- What is tracked for the loop's own symbol was tracked before by a loop that held as much,
or the loop holds coins. -/
theorem TrackerEffect.tracked {before after : LoopState} (h : TrackerEffect c before after)
    (honce : before.tracker.count c.signal.symbol ≤ 1) {p : Position}
    (hp : after.tracker.getPosition c.signal.symbol = some p) (hlive : Live p) :
    0 < after.ledger.heldAmount ∨
      before.tracker.getPosition c.signal.symbol = some p ∧
        after.ledger.heldAmount = before.ledger.heldAmount := by
  cases h with
  | kept htracker hheld =>
    rw [htracker] at hp
    rcases hheld with hsame | hpos
    · exact Or.inr ⟨hp, hsame⟩
    · exact Or.inl hpos
  | reopened snap hsymbol hamount htracker =>
    left
    have hget := (before.tracker.reopen_spec snap (hsymbol ▸ honce)).2
    rw [← htracker, hsymbol, hp] at hget
    split_ifs at hget
    · cases hget
      rw [← hamount]
      exact hlive.2
  | closed htracker =>
    have hcount := before.tracker.count_closePosition c.signal.symbol
    have hnone : after.tracker.getPosition c.signal.symbol = none := by
      rw [htracker, PositionTracker.getPosition_eq_none_iff]
      omega
    rw [hnone] at hp
    cases hp

/-! ## What the steps of the bot keep -/

/-- What holds of the bot while it runs. -/
structure Manned (b : BotState) : Prop where
  once : ∀ symbol, b.tracker.count symbol ≤ 1
  slots : b.activeLoops = b.queue.length + b.loops.length
  bounded : b.activeLoops ≤ b.maxPositions.val
  engine : ∀ loop ∈ b.loops, loop.call.engine = true
  owned : ∀ symbol, ∀ p ∈ b.tracker.getPosition symbol, Live p →
    Owned b p ∨ b.pendingRecovery = some p

variable {b : BotState}

/-- The queue never overflows: there are fewer slots than it has places. -/
theorem launch_spec (hslots : b.activeLoops = b.queue.length + b.loops.length)
    (hbounded : b.activeLoops ≤ b.maxPositions.val) (task : LifecycleTask) :
    b.launch task =
      if b.activeLoops < b.maxPositions.val then
        { b with activeLoops := b.activeLoops + 1, queue := b.queue ++ [task] }
      else b := by
  have hfour := b.maxPositions.le_four
  have hroom : b.queue.length < queueCapacity := by
    show b.queue.length < 64
    omega
  unfold BotState.launch BotState.tryClaimSlot
  split_ifs <;> simp [hroom]

/-- More tasks and loops own no less. -/
theorem Owned.mono {b b' : BotState} {p : Position} (h : Owned b p)
    (hqueue : b.queue ⊆ b'.queue) (hloops : b.loops ⊆ b'.loops) : Owned b' p := by
  rcases h with ⟨task, htask, hcarries⟩ | ⟨loop, hloop, howns⟩
  · exact Or.inl ⟨task, hqueue htask, hcarries⟩
  · exact Or.inr ⟨loop, hloops hloop, howns⟩

/-- A launched task leaves every loop with its tracked position. -/
theorem launch_manned (hb : Manned b) (task : LifecycleTask) : Manned (b.launch task) := by
  rw [launch_spec hb.slots hb.bounded]
  split_ifs with hfree
  · refine ⟨hb.once, ?_, hfree, hb.engine, ?_⟩
    · have hslots := hb.slots
      simp only [List.length_append, List.length_cons, List.length_nil]
      omega
    · intro symbol p hp hlive
      rcases hb.owned symbol p hp hlive with howned | hpending
      · refine Or.inl (howned.mono ?_ (List.Subset.refl _))
        exact List.subset_append_left _ _
      · exact Or.inr hpending
  · exact hb

/-- An entry signal leaves every loop with its tracked position. -/
theorem entrySignal_manned (hb : Manned b) (signal : ArbitrageSignal) :
    Manned (b.entrySignal signal) := by
  unfold BotState.entrySignal
  split_ifs
  · exact hb
  · exact launch_manned hb _

/-- The recovered position passes from start-up to its task. -/
theorem launchRecovered_manned (hb : Manned b) (usdtKrwRate : ℚ)
    (hfree : b.pendingRecovery.isSome → b.activeLoops < b.maxPositions.val) :
    Manned (b.launchRecovered usdtKrwRate) := by
  unfold BotState.launchRecovered
  cases hpending : b.pendingRecovery with
  | none => exact hb
  | some pos =>
    have hroom : b.activeLoops < b.maxPositions.val := hfree (by rw [hpending]; rfl)
    simp only
    rw [launch_spec (b := { b with pendingRecovery := none }) hb.slots hb.bounded, if_pos hroom]
    refine ⟨hb.once, ?_, hroom, hb.engine, ?_⟩
    · have hslots := hb.slots
      simp only [List.length_append, List.length_cons, List.length_nil]
      omega
    · intro symbol p hp hlive
      left
      rcases hb.owned symbol p hp hlive with howned | hrecovered
      · refine howned.mono ?_ (List.Subset.refl _)
        exact List.subset_append_left _ _
      · rw [hpending] at hrecovered
        cases hrecovered
        refine Or.inl ⟨_, List.mem_append_right _ (List.mem_singleton.mpr rfl), rfl, rfl⟩

/-- A call that passes the checks starts from its initial position. -/
theorem enterLoop_ok {exchanges safe : Bool} {initial : Option Position} {now : Timestamp}
    {tracker : PositionTracker} {state : LoopState}
    (h : enterLoop c exchanges safe initial now tracker = .ok state) :
    state = initialState c initial now tracker := by
  simp only [enterLoop] at h
  split_ifs at h
  cases h
  rfl

/-- The checks let a matched initial position through when both venues and the route are
available. -/
theorem enterLoop_of_matched {p : Position} (hmatched : p.matched = true) (now : Timestamp)
    (tracker : PositionTracker) :
    enterLoop c true true (some p) now tracker = .ok (initialState c (some p) now tracker) := by
  simp [enterLoop, hmatched]

/-- The worker's loop takes the position over from the task, or the task had none to lose. -/
theorem pickUp_manned (hb : Manned b) (positionSizeUsd : ℚ) (now : Timestamp)
    (hpasses : ∀ task ∈ b.queue.head?, task.initialPosition.isSome →
      exchangesAvailable task.signal = true ∧ b.isSafeToTrade task.signal = true) :
    Manned (b.pickUp positionSizeUsd now) := by
  have hslots := hb.slots
  have hbounded := hb.bounded
  unfold BotState.pickUp
  cases hqueue : b.queue with
  | nil => exact hb
  | cons task rest =>
    rw [hqueue, List.length_cons] at hslots
    -- the owner of a position is the task picked up, or stays where it is
    have howner : ∀ p, Owned b p → (task.signal.symbol = p.symbol ∧ task.initialPosition = some p) ∨
        Owned { b with queue := rest } p := by
      intro p h
      rcases h with ⟨other, hother, hcarries⟩ | hloop
      · rw [hqueue] at hother
        rcases List.mem_cons.mp hother with rfl | hrest
        · exact Or.inl hcarries
        · exact Or.inr (Or.inl ⟨other, hrest, hcarries⟩)
      · exact Or.inr (Or.inr hloop)
    simp only
    split_ifs with hworker
    · split
      · rename_i result hrefused
        refine ⟨hb.once, ?_, ?_, hb.engine, ?_⟩
        · simp only [BotState.releaseSlot]
          omega
        · exact Nat.le_trans (Nat.sub_le _ _) hbounded
        · intro symbol p hp hlive
          rcases hb.owned symbol p hp hlive with howned | hpending
          · rcases howner p howned with ⟨-, hinitial⟩ | hstays
            · obtain ⟨hexchanges, hsafe⟩ := hpasses task (by simp [hqueue]) (by simp [hinitial])
              rw [hexchanges, hsafe, hinitial, enterLoop_of_matched hlive.1] at hrefused
              cases hrefused
            · exact Or.inl hstays
          · exact Or.inr hpending
      · rename_i state hentered
        refine ⟨hb.once, ?_, hbounded, ?_, ?_⟩
        · simp only [List.length_append, List.length_cons, List.length_nil]
          omega
        · intro loop hloop
          rcases List.mem_append.mp hloop with hloop | hloop
          · exact hb.engine loop hloop
          · rw [List.mem_singleton.mp hloop]
        · intro symbol p hp hlive
          rcases hb.owned symbol p hp hlive with howned | hpending
          · left
            rcases howner p howned with ⟨hsymbol, hinitial⟩ | hstays
            · refine Or.inr ⟨_, List.mem_append_right _ (List.mem_singleton.mpr rfl), hsymbol, ?_⟩
              rw [evaluatesExit_iff, enterLoop_ok hentered, hinitial]
              exact hlive.2
            · refine hstays.mono (List.Subset.refl _) ?_
              exact List.subset_append_left _ _
          · exact Or.inr hpending
    · exact hb

/-- The other loops are still there after one of them made an iteration. -/
theorem mem_set_of_ne {loops : List RunningLoop} {loop other after : RunningLoop} {i : ℕ}
    (hi : loops[i]? = some loop) (hother : other ∈ loops) (hne : other ≠ loop) :
    other ∈ loops.set i after := by
  obtain ⟨j, hj⟩ := List.mem_iff_getElem?.mp hother
  have hij : i ≠ j := by
    intro hij
    rw [hij, hj] at hi
    exact hne (Option.some.inj hi)
  rw [List.mem_iff_getElem?]
  exact ⟨j, by rw [List.getElem?_set_ne hij, hj]⟩

/-- An iteration that does not stop the bot keeps an owner for every position: the loop itself
for those of its symbol, and whoever it was for the others. -/
theorem iterateAt_manned (hb : Manned b) (hrunning : b.running = true) (i : ℕ)
    (x : IterationInput)
    (hleaves : ∀ loop ∈ b.loops[i]?, IterationLeavesCoins loop.call loop.state.ledger x)
    (hafter : (b.iterateAt i x).running = true) : Manned (b.iterateAt i x) := by
  unfold BotState.iterateAt at hafter ⊢
  cases hi : b.loops[i]? with
  | none => exact hb
  | some loop =>
    simp only [hi] at hafter ⊢
    have hloop : loop ∈ b.loops := List.mem_of_getElem? hi
    have hlength : i < b.loops.length := (List.getElem?_eq_some_iff.mp hi).1
    have honce := hb.once loop.call.signal.symbol
    have heffect : TrackerEffect loop.call
        { loop.state with tracker := b.tracker, running := b.running } (b.iterateLoop loop x) := by
      unfold BotState.iterateLoop loopStep at hafter ⊢
      simp only [hrunning, if_true] at hafter ⊢
      exact iterate_effect (hb.engine loop hloop) (hleaves loop hi) hafter
    have hothers : PositionTracker.AgreeOff loop.call.signal.symbol b.tracker
        (b.iterateLoop loop x).tracker :=
      loopStep_agreeOff loop.call x
        { loop.state with tracker := b.tracker, running := b.running }
    have hself : { loop with state := b.iterateLoop loop x } ∈
        b.loops.set i { loop with state := b.iterateLoop loop x } :=
      List.mem_set hlength _
    refine ⟨?_, ?_, hb.bounded, ?_, ?_⟩
    · intro symbol
      by_cases hsymbol : symbol = loop.call.signal.symbol
      · rw [hsymbol]
        exact heffect.count_le honce
      · rw [hothers.count symbol hsymbol]
        exact hb.once symbol
    · rw [List.length_set]
      exact hb.slots
    · intro other hother
      rcases List.mem_or_eq_of_mem_set hother with hmem | rfl
      · exact hb.engine other hmem
      · exact hb.engine loop hloop
    · intro symbol p hp hlive
      have hpsymbol : p.symbol = symbol := PositionTracker.symbol_of_getPosition hp
      by_cases hsymbol : symbol = loop.call.signal.symbol
      · have howner : loop.call.signal.symbol = p.symbol := by rw [hpsymbol, hsymbol]
        rw [hsymbol] at hp
        rcases heffect.tracked honce hp hlive with hpos | ⟨hbefore, hsame⟩
        · exact Or.inl (Or.inr ⟨_, hself, howner, (evaluatesExit_iff _).mpr hpos⟩)
        · rcases hb.owned _ p hbefore hlive with
            (htask | ⟨other, hother, hsame', hexits⟩) | hpending
          · exact Or.inl (Or.inl htask)
          · by_cases hne : other = loop
            · subst hne
              refine Or.inl (Or.inr ⟨_, hself, howner, (evaluatesExit_iff _).mpr ?_⟩)
              show 0 < (b.iterateLoop other x).ledger.heldAmount
              rw [hsame]
              exact (evaluatesExit_iff other).mp hexits
            · exact Or.inl (Or.inr ⟨other, mem_set_of_ne hi hother hne, hsame', hexits⟩)
          · exact Or.inr hpending
      · have hbefore : b.tracker.getPosition symbol = some p := by
          rw [← hothers.get symbol hsymbol]
          exact hp
        rcases hb.owned _ p hbefore hlive with (htask | ⟨other, hother, hsame', hexits⟩) | hpending
        · exact Or.inl (Or.inl htask)
        · have hne : other ≠ loop := by
            rintro rfl
            exact hsymbol (hpsymbol.symm.trans hsame'.symm)
          exact Or.inl (Or.inr ⟨other, mem_set_of_ne hi hother hne, hsame', hexits⟩)
        · exact Or.inr hpending

/-- A launched task is queued, and no loop has begun. -/
theorem launch_running (b : BotState) (task : LifecycleTask) :
    (b.launch task).running = b.running := by
  unfold BotState.launch BotState.tryClaimSlot
  split
  · rfl
  · rename_i claimed h
    split_ifs at h ⊢ <;> cases h <;> rfl

/-- Every step after which the bot still runs started from a running bot. -/
theorem botStep_running {e : BotEvent} (h : (botStep b e).running = true) : b.running = true := by
  cases e with
  | routesRefreshed openRoutes => exact h
  | entrySignal signal =>
    simp only [botStep, BotState.entrySignal] at h
    split_ifs at h
    · exact h
    · rwa [launch_running] at h
  | launchRecovered usdtKrwRate =>
    simp only [botStep, BotState.launchRecovered] at h
    split at h
    · exact h
    · rwa [launch_running] at h
  | pickUp positionSizeUsd now =>
    simp only [botStep, BotState.pickUp] at h
    split at h
    · exact h
    · split_ifs at h
      · split at h <;> exact h
      · exact h
  | iterate i x =>
    simp only [botStep, BotState.iterateAt] at h
    split at h
    · exact h
    · simp only [BotState.iterateLoop, loopStep] at h
      split_ifs at h with hrunning
      · exact hrunning
      · exact h
  | loopReturns i =>
    simp only [botStep, BotState.returnAt] at h
    split_ifs at h <;> exact h
  | shutdown => cases h

/-- Every allowed step that does not stop the bot keeps an owner for every position. -/
theorem botStep_manned {e : BotEvent} (hb : b.running = true → Manned b) (hstep : OwnersStay b e)
    (hafter : (botStep b e).running = true) : Manned (botStep b e) := by
  have hrunning := botStep_running hafter
  have hb := hb hrunning
  cases e with
  | routesRefreshed openRoutes =>
    exact ⟨hb.once, hb.slots, hb.bounded, hb.engine, hb.owned⟩
  | entrySignal signal => exact entrySignal_manned hb signal
  | launchRecovered usdtKrwRate => exact launchRecovered_manned hb usdtKrwRate hstep
  | pickUp positionSizeUsd now => exact pickUp_manned hb positionSizeUsd now hstep
  | iterate i x => exact iterateAt_manned hb hrunning i x hstep hafter
  | loopReturns i =>
    simp only [botStep, BotState.returnAt, hrunning]
    exact hb
  | shutdown => cases hafter

/-- At start-up only the recovered position is tracked, and its launch is pending. -/
theorem startBot_manned (maxPositions : MaxPositions) (blacklist : List SymbolId)
    (openRoutes : List Route) (recovered : Option Position) :
    Manned (startBot maxPositions blacklist openRoutes recovered) := by
  cases recovered with
  | none =>
    have hcount : ∀ symbol, PositionTracker.empty.count symbol = 0 := PositionTracker.count_empty
    refine ⟨fun symbol => ?_, rfl, Nat.zero_le _, fun loop hloop => ?_, fun symbol p hp => ?_⟩
    · exact (hcount symbol).le.trans (Nat.zero_le 1)
    · cases hloop
    · have hnone := (PositionTracker.getPosition_eq_none_iff _ symbol).mpr (hcount symbol)
      rw [show (startBot maxPositions blacklist openRoutes none).tracker = .empty from rfl,
        hnone] at hp
      cases hp
  | some pos =>
    have hroom : 0 < PositionTracker.empty.freeSlots := by
      rw [PositionTracker.freeSlots_empty]
      omega
    have habsent : PositionTracker.empty.count pos.symbol = 0 := PositionTracker.count_empty _
    have hothers := PositionTracker.agreeOff_openPosition .empty pos
    refine ⟨fun symbol => ?_, rfl, Nat.zero_le _, fun loop hloop => ?_, fun symbol p hp _ => ?_⟩
    · show (PositionTracker.empty.openPosition pos).count symbol ≤ 1
      by_cases hsymbol : symbol = pos.symbol
      · rw [hsymbol, PositionTracker.count_openPosition _ _ hroom, habsent]
      · rw [hothers.count symbol hsymbol, PositionTracker.count_empty]
        exact Nat.zero_le 1
    · cases hloop
    · right
      have hp : (PositionTracker.empty.openPosition pos).getPosition symbol = some p := hp
      by_cases hsymbol : symbol = pos.symbol
      · rw [hsymbol, PositionTracker.getPosition_openPosition _ _ hroom habsent] at hp
        exact hp
      · rw [hothers.get symbol hsymbol, (PositionTracker.getPosition_eq_none_iff _ _).mpr
          (PositionTracker.count_empty symbol)] at hp
        cases hp

/-- In every run in which the loop of a recovered position gets a slot and passes the entry
checks, and no retried sale empties a loop, no tracked position is without an owner. -/
theorem runBot_noOrphan (maxPositions : MaxPositions) (blacklist : List SymbolId)
    (openRoutes : List Route) (recovered : Option Position) (es : List BotEvent)
    (hrun : Along OwnersStay botStep (startBot maxPositions blacklist openRoutes recovered) es) :
    NoOrphan (es.foldl botStep (startBot maxPositions blacklist openRoutes recovered)) := by
  have hstart := startBot_manned maxPositions blacklist openRoutes recovered
  have hend := invariant (fun b => b.running = true → Manned b)
    (fun b e hb hstep hafter => botStep_manned hb hstep hafter) es _ (fun _ => hstart) hrun
  intro hrunning hlaunched symbol p hp hlive
  rcases (hend hrunning).owned symbol p hp hlive with howned | hpending
  · exact howned
  · rw [hlaunched] at hpending
    cases hpending

/-- 20 XRP that an earlier run of the bot bought and sold short. -/
def restored : Position where
  symbol := SymbolId.of "XRP" "KRW"
  koreanExchange := .bithumb
  foreignExchange := .bybit
  koreanAmount := 20
  foreignAmount := 20
  koreanEntryPrice := 2300
  foreignEntryPrice := 17 / 10
  positionSizeUsd := 3000
  isActive := true

/-- The restored position gets its loop, then the route closes while a signal for another coin
is queued. -/
theorem runBot_noOrphan_restored :
    NoOrphan ([.launchRecovered 1450, .pickUp 3000 0, .routesRefreshed [],
      .entrySignal ⟨SymbolId.of "DOGE" "KRW", .bithumb, .bybit, -1, 350, 1000, 1 / 4, 1000, 1450⟩,
      .iterate 0 {}].foldl botStep
        (startBot ⟨2, by omega, by omega⟩ [] [(.bithumb, .bybit, "XRP".toList)]
          (some restored))) := by
  apply runBot_noOrphan
  refine ⟨?_, ?_, ?_, ?_, ?_, trivial⟩ <;> decide +kernel

/-! ## A restart that loses the position -/

/-- A position whose only owner is the task at the head of the queue keeps an owner, when a
worker picks the task up, exactly if the entry checks let it through. -/
theorem pickUp_owned_iff {task : LifecycleTask} {rest : List LifecycleTask} {p : Position}
    (hqueue : b.queue = task :: rest) (hsymbol : task.signal.symbol = p.symbol)
    (hinitial : task.initialPosition = some p) (hlive : Live p)
    (honly : ¬ Owned { b with queue := rest } p) (hworker : b.loops.length < b.maxPositions.val)
    (positionSizeUsd : ℚ) (now : Timestamp) :
    Owned (b.pickUp positionSizeUsd now) p ↔
      exchangesAvailable task.signal = true ∧ b.isSafeToTrade task.signal = true := by
  unfold BotState.pickUp
  rw [hqueue]
  simp only [hworker, if_true, hinitial]
  constructor
  · intro howned
    by_contra hrefused
    have herror : ∃ result, enterLoop
        { signal := task.signal, positionSizeUsd := positionSizeUsd }
        (exchangesAvailable task.signal) (b.isSafeToTrade task.signal) (some p) now b.tracker =
        .error result := by
      simp only [enterLoop]
      split_ifs with hexchanges hsafe
      · exact ⟨_, rfl⟩
      · exact ⟨_, rfl⟩
      · exact ⟨_, rfl⟩
      · exact absurd ⟨by simpa using hexchanges, by simpa using hsafe⟩ hrefused
    obtain ⟨result, herror⟩ := herror
    rw [herror] at howned
    exact honly howned
  · rintro ⟨hexchanges, hsafe⟩
    rw [hexchanges, hsafe, enterLoop_of_matched hlive.1]
    refine Or.inr ⟨_, List.mem_append_right _ (List.mem_singleton.mpr rfl), hsymbol, ?_⟩
    exact (evaluatesExit_iff _).mpr hlive.2

/-- The restart of the bot while the transfer route of its coin is closed. -/
def closedRouteRestart : BotState :=
  [.launchRecovered 1450, .pickUp 3000 0].foldl botStep
    (startBot MaxPositions.initial [] [] (some restored))

/-- A restored position whose route is closed has no owner after its task is picked up. -/
theorem closedRoute_orphans_position :
    ¬ ∀ (maxPositions : MaxPositions) (blacklist : List SymbolId) (openRoutes : List Route)
      (recovered : Option Position) (es : List BotEvent),
      NoOrphan (es.foldl botStep (startBot maxPositions blacklist openRoutes recovered)) := by
  intro h
  have horphan : NoOrphan closedRouteRestart := h _ _ _ _ _
  have htracked : restored ∈ closedRouteRestart.tracker.getPosition restored.symbol := by
    decide +kernel
  rcases horphan (by decide) (by decide) _ _ htracked (by decide +kernel) with
    ⟨task, htask, -⟩ | ⟨loop, hloop, -⟩
  · have hqueue : closedRouteRestart.queue = [] := by decide
    rw [hqueue] at htask
    cases htask
  · have hloops : closedRouteRestart.loops = [] := by decide
    rw [hloops] at hloop
    cases hloop

end SpotRelay.Analysis
