import SpotRelay.Analysis.SplitFlows

/-!
# What the bookkeeping of the entry loop touches

Frame lemmas: recording a split changes the ledger as the booking says, a critical stop
changes no total and clears the running flag, and no bookkeeping step sends an order.

* **the ledger**: what a partial and a full exit book (`bookExit_partial`, `bookExit_full`).
* **the rest**: no bookkeeping changes it, branch by branch (`afterOpen_agreeOff`,
  `afterClose_agreeOff`) and so iteration by iteration (`loopStep_agreeOff`).
* **exits** are taken with coins in hand (`exit_of_branch`).
-/

set_option autoImplicit false

namespace SpotRelay.Analysis

open SpotRelay.Model SpotRelay.Interface

variable (c : Call) (x : IterationInput) (q : Quotes) (s : LoopState) (g : Trade → ℚ)

/-! ## The branches -/

/-- The exit branch is taken where the premium has come to the threshold and coins are held, and is
sized by `exitCoinAmount`. -/
theorem exit_of_branch {c : Call} {q : Quotes} {l : Ledger} {coinAmount : ℚ}
    (h : branch c q l = .exit coinAmount) :
    dynamicExitThreshold l c.signal.premium q.usdtRate ≤ exitPremium q ∧ 0 < l.heldAmount ∧
      coinAmount = exitCoinAmount l.heldAmount q.foreignAsk := by
  -- the entry gate comes first, and an entry is no exit
  have hclosed : ∀ {gate : Prop} [Decidable gate] {entryAmount : ℚ} {rest : Branch},
      (if gate then .entry entryAmount else rest) = Branch.exit coinAmount →
        rest = .exit coinAmount := by
    intro gate _ entryAmount rest hbranch
    split at hbranch
    · cases hbranch
    · exact hbranch
  have hexit := hclosed h
  split at hexit
  · next htaken => exact ⟨htaken.1, htaken.2, (Branch.exit.inj hexit).symm⟩
  · cases hexit

/-- The exit branch is only taken while coins are held. -/
theorem heldAmount_pos_of_exit {c : Call} {q : Quotes} {l : Ledger} {coinAmount : ℚ}
    (h : branch c q l = .exit coinAmount) : 0 < l.heldAmount := (exit_of_branch h).2.1

/-- Quotes with a positive price, quantity and rate. -/
structure Priced (q : Quotes) (rate : ℚ) : Prop where
  koreanAsk : 0 < q.koreanAsk
  koreanAskQty : 0 < q.koreanAskQty
  foreignBid : 0 < q.foreignBid
  foreignBidQty : 0 < q.foreignBidQty
  rate : 0 < rate

/-- Without a price, a quantity or a rate the metrics are empty. -/
theorem priced_of_netProfit {q : Quotes} {rate koreanFee foreignFee withdrawFee : ℚ}
    (h : TradingConfig.minEntryNetProfitKrw ≤
      (calculateRelayMetrics q.koreanAsk q.koreanAskQty q.foreignBid q.foreignBidQty rate koreanFee
        foreignFee withdrawFee).netProfitKrw) : Priced q rate := by
  by_contra hnot
  have hempty : q.koreanAsk ≤ 0 ∨ q.koreanAskQty ≤ 0 ∨ q.foreignBid ≤ 0 ∨ q.foreignBidQty ≤ 0 ∨
      rate ≤ 0 := by
    by_contra hall
    simp only [not_or, not_le] at hall
    obtain ⟨h1, h2, h3, h4, h5⟩ := hall
    exact hnot ⟨h1, h2, h3, h4, h5⟩
  simp only [calculateRelayMetrics, if_pos hempty, TradingConfig.minEntryNetProfitKrw] at h
  norm_num at h

/-- An entry is submitted on priced quotes only. -/
theorem priced_of_entry {c : Call} {q : Quotes} {l : Ledger} {coinAmount : ℚ}
    (h : branch c q l = .entry coinAmount) : Priced q q.usdtRate := by
  apply priced_of_netProfit
  unfold branch at h
  dsimp only at h
  by_contra hfloor
  rw [if_neg fun hgate => hfloor hgate.2.1] at h
  split at h <;> cases h

/-! ## Emitting and persisting -/

/-- Events leave the ledger. -/
@[simp] theorem emit_ledger (es : List Event) : (s.emit es).ledger = s.ledger := rfl

/-- Events are appended to those before. -/
@[simp] theorem emit_events (es : List Event) : (s.emit es).events = s.events ++ es := rfl

/-- The tally of sent orders is that of their fills. -/
@[simp] theorem traceTally_orders (fills : List Fill) :
    traceTally g [.orders fills] = tally g fills := by
  simp [traceTally, eventTally]

/-- A reported position trades nothing. -/
@[simp] theorem traceTally_reportPosition (p : Option Position) :
    traceTally g (reportPosition c p) = 0 := by
  unfold reportPosition
  split_ifs <;> simp [traceTally, eventTally]

/-- A persisted snapshot is reported where it is active, and otherwise its removal. -/
theorem persistSnapshot_events (snap : Position) :
    (persistSnapshot c snap s).events =
      s.events ++ reportPosition c (if snap.isActive then some snap else none) := rfl

/-- Persisting a snapshot trades nothing. -/
@[simp] theorem persistSnapshot_traceTally (snap : Position) :
    traceTally g (persistSnapshot c snap s).events = traceTally g s.events := by
  simp [persistSnapshot_events]

/-- A critical stop ends the loop. -/
@[simp] theorem triggerCriticalStop_running (reason : StopReason) (snap : Position) :
    (triggerCriticalStop c reason snap s).running = false := rfl

/-! ## Booking -/

/-- Booking an entry adds its split to the ledger. -/
@[simp] theorem bookEntry_ledger (legs : LegFills) (correction : Option Correction) :
    (bookEntry c q legs correction s).ledger =
      s.ledger.addSplit legs (entryAdjustmentPnlKrw legs q.usdtRate correction) := rfl

/-- Booking an entry reports one position. -/
theorem bookEntry_events (legs : LegFills) (correction : Option Correction) :
    ∃ p, (bookEntry c q legs correction s).events = s.events ++ reportPosition c p :=
  ⟨_, rfl⟩

/-- Booking an entry trades nothing. -/
@[simp] theorem bookEntry_traceTally (legs : LegFills) (correction : Option Correction) :
    traceTally g (bookEntry c q legs correction s).events = traceTally g s.events := by
  unfold bookEntry
  rw [persistSnapshot_traceTally]

/-- The end of a cycle trades nothing. -/
@[simp] theorem completeCycle_traceTally :
    traceTally g (completeCycle c x q s).events = traceTally g s.events := by
  unfold completeCycle
  cases c.hasTradeCallback <;> simp [traceTally, eventTally]

/-- Booking an exit takes the smaller leg off what is held. -/
@[simp] theorem bookExit_heldAmount (legs : LegFills) (splitPnl : ℚ) :
    (bookExit c x q legs splitPnl s).ledger.heldAmount =
      s.ledger.heldAmount - min legs.foreignQty legs.koreanQty := by
  simp only [bookExit]
  split_ifs <;> rfl

/-- Booking an exit trades nothing. -/
@[simp] theorem bookExit_traceTally (legs : LegFills) (splitPnl : ℚ) :
    traceTally g (bookExit c x q legs splitPnl s).events = traceTally g s.events := by
  simp only [bookExit]
  split_ifs <;> simp

/-- An exit split that leaves coins only reports the position. -/
theorem bookExit_partial (legs : LegFills) (splitPnl : ℚ)
    (h : 0 < (s.ledger.closeSplit (min legs.foreignQty legs.koreanQty) splitPnl).heldAmount) :
    (bookExit c x q legs splitPnl s).ledger =
        s.ledger.closeSplit (min legs.foreignQty legs.koreanQty) splitPnl ∧
      ∃ p, (bookExit c x q legs splitPnl s).events = s.events ++ reportPosition c p := by
  simp only [bookExit, h, if_true]
  exact ⟨rfl, _, rfl⟩

/-- A full exit reports the end of the position and of the cycle. -/
theorem bookExit_full (legs : LegFills) (splitPnl : ℚ)
    (h : ¬ 0 < (s.ledger.closeSplit (min legs.foreignQty legs.koreanQty) splitPnl).heldAmount) :
    (bookExit c x q legs splitPnl s).ledger =
        (s.ledger.closeSplit (min legs.foreignQty legs.koreanQty) splitPnl).resetCycle ∧
      ∃ completed, (bookExit c x q legs splitPnl s).events =
        s.events ++ reportPosition c none ++
          ((if c.hasTradeCallback then
            [.tradeComplete completed (s.ledger.realizedPnlKrw + splitPnl) q.usdtRate] else []) ++
          [.cycleReset]) := by
  simp only [bookExit, h, if_false]
  exact ⟨rfl, _, rfl⟩

/-! ## The tracker -/

open PositionTracker (AgreeOff)

/-- A persisted snapshot touches the tracker for its own symbol only. -/
theorem persistSnapshot_agreeOff (snap : Position) (hsymbol : snap.symbol = c.signal.symbol) :
    AgreeOff c.signal.symbol s.tracker (persistSnapshot c snap s).tracker := by
  simp only [persistSnapshot]
  have hclosed := PositionTracker.agreeOff_closePosition s.tracker snap.symbol
  have hopened := PositionTracker.agreeOff_openPosition (s.tracker.closePosition snap.symbol) snap
  rw [hsymbol] at hclosed hopened ⊢
  split_ifs
  · exact hclosed.trans hopened
  · exact hclosed
  · exact PositionTracker.agreeOff_refl _ _

/-- A critical stop touches the tracker for its own symbol only. -/
theorem triggerCriticalStop_agreeOff (reason : StopReason) (snap : Position)
    (hsymbol : snap.symbol = c.signal.symbol) :
    AgreeOff c.signal.symbol s.tracker (triggerCriticalStop c reason snap s).tracker :=
  persistSnapshot_agreeOff c
    { s with running := false, entrySuppressed := c.engine || s.entrySuppressed } snap hsymbol

/-- What follows an opened split touches the tracker for its own symbol only. -/
theorem afterOpen_agreeOff (outcome : OpenSplit) :
    AgreeOff c.signal.symbol s.tracker (afterOpen c q outcome s).tracker := by
  cases outcome with
  | shortFailed => exact PositionTracker.agreeOff_refl _ _
  | minOrderRolledBack short rollback => exact PositionTracker.agreeOff_refl _ _
  | buyRolledBack short rollback => exact PositionTracker.agreeOff_refl _ _
  | minOrderRollbackFailed short => exact triggerCriticalStop_agreeOff c s _ _ rfl
  | buyRollbackFailed short => exact triggerCriticalStop_agreeOff c s _ _ rfl
  | correctionFailed excess legs =>
    cases excess with
    | korean => exact triggerCriticalStop_agreeOff c s _ _ rfl
    | foreign => exact triggerCriticalStop_agreeOff c s _ _ rfl
  | mismatched legs correction => exact triggerCriticalStop_agreeOff c s _ _ rfl
  | matched legs correction =>
    simp only [afterOpen, bookEntry]
    apply persistSnapshot_agreeOff
    rfl

/-- Booking an exit touches the tracker for its own symbol only. -/
theorem bookExit_agreeOff (legs : LegFills) (splitPnl : ℚ) :
    AgreeOff c.signal.symbol s.tracker (bookExit c x q legs splitPnl s).tracker := by
  simp only [bookExit]
  split_ifs
  · exact PositionTracker.agreeOff_refl _ _
  · simp only [completeCycle, LoopState.emit]
    split_ifs
    · exact PositionTracker.agreeOff_closePosition _ _
    · exact PositionTracker.agreeOff_refl _ _

/-- What follows a closed split touches the tracker for its own symbol only. -/
theorem afterClose_agreeOff (legs : CloseLegs × List Fill) :
    AgreeOff c.signal.symbol s.tracker (afterClose c x q legs s).tracker := by
  obtain ⟨outcome, fills⟩ := legs
  cases outcome with
  | coverFailed => exact PositionTracker.agreeOff_refl _ _
  | sold cover sale =>
    simp only [afterClose, afterSale]
    split
    · exact triggerCriticalStop_agreeOff c (s.emit _) _ _ rfl
    · exact triggerCriticalStop_agreeOff c (s.emit _) _ _ rfl
    · split_ifs
      · exact bookExit_agreeOff c x q (s.emit _) _ _
      · exact triggerCriticalStop_agreeOff c (s.emit _) _ _ rfl
  | retrySold cover sale =>
    simp only [afterClose, afterRetry]
    split_ifs
    · exact triggerCriticalStop_agreeOff c { s.emit [.orders fills] with ledger := _ } _ _ rfl
    · exact PositionTracker.agreeOff_refl _ _
  | retriesFailed cover => exact triggerCriticalStop_agreeOff c (s.emit _) _ _ rfl

/-- An iteration leaves the positions of other symbols alone. -/
theorem loopStep_agreeOff :
    AgreeOff c.signal.symbol s.tracker (loopStep c s x).tracker := by
  simp only [loopStep, iterate]
  split_ifs
  · cases iterationQuotes c x.market s.ledger.heldAmount with
    | none => exact PositionTracker.agreeOff_refl _ _
    | some q =>
      simp only [trade]
      cases branch c q s.ledger with
      | entry coinAmount =>
        exact afterOpen_agreeOff c q
          (LoopState.emit { s with lastUsdtRate := iterationRate c x.market } _) _
      | exit coinAmount =>
        exact afterClose_agreeOff c x q { s with lastUsdtRate := iterationRate c x.market } _
      | wait => exact PositionTracker.agreeOff_refl _ _
  · exact PositionTracker.agreeOff_refl _ _

end SpotRelay.Analysis
