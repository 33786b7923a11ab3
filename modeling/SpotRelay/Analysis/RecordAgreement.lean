import SpotRelay.Analysis.LoopFrames
import SpotRelay.Interface.TruthfulVenue

/-!
# The three records of a position

A held position is recorded in the engine's tracker, through `on_position_update_` and in the
ledger of the loop.  An entry split updates all three and so does a full exit.  A partial
exit leaves the tracker behind, and a retried sale tells neither the tracker nor a callback.

* **one iteration** leaves records that agree where it updates them (`iterate_records`).
* **between the iterations** the symbol stays tracked as the next one needs it
  (`entryLoop_tracked`).
-/

set_option autoImplicit false

namespace SpotRelay.Analysis

open SpotRelay.Model SpotRelay.Interface
open SpotRelay.Library.RunningTotal

/-! ## What the trace reports -/

/-- The argument of an `on_position_update_` call. -/
def reported : Event → Option (Option Position)
  | .positionUpdate p => some p
  | _ => none

/-- The last position passed to `on_position_update_`. -/
def lastReport (events : List Event) : Option (Option Position) :=
  (events.filterMap reported).getLast?

/-- One for every call of `on_trade_complete_`. -/
def completion : Event → ℕ
  | .tradeComplete _ _ _ => 1
  | _ => 0

/-- The calls of `on_trade_complete_` in the cycle that is not reset yet. -/
def cycleCompletions (events : List Event) : ℕ := runningTotal endsCycle completion 0 events

/-- The last report is the one appended. -/
@[simp] theorem lastReport_append_update (es : List Event) (p : Option Position) :
    lastReport (es ++ [.positionUpdate p]) = some p := by
  simp [lastReport, reported]

/-- Sent orders complete no cycle. -/
@[simp] theorem cycleCompletions_append_orders (es : List Event) (fills : List Fill) :
    cycleCompletions (es ++ [.orders fills]) = cycleCompletions es := by
  simp [cycleCompletions, endsCycle, completion]

/-- A reported position completes no cycle. -/
@[simp] theorem cycleCompletions_append_update (es : List Event) (p : Option Position) :
    cycleCompletions (es ++ [.positionUpdate p]) = cycleCompletions es := by
  simp [cycleCompletions, endsCycle, completion]

/-! ## The agreement -/

/-- The engine and both callbacks are set, as the bot sets them. -/
structure Wired (c : Call) : Prop where
  engine : c.engine = true
  position : c.hasPositionCallback = true
  trade : c.hasTradeCallback = true

/-- A record carries the held coins on both legs at the average prices. -/
def CarriesHeld (l : Ledger) (p : Position) : Prop :=
  p.koreanAmount = l.heldAmount ∧ p.foreignAmount = l.heldAmount ∧
    p.koreanEntryPrice = l.avgKoreanEntry ∧ p.foreignEntryPrice = l.avgForeignEntry

/-- While coins are held, the tracker's entry and the last report carry them. -/
def HeldRecords (c : Call) (s : LoopState) : Prop :=
  (∃ p ∈ s.tracker.getPosition c.signal.symbol, CarriesHeld s.ledger p) ∧
    ∃ r ∈ lastReport s.events, ∃ p ∈ r, CarriesHeld s.ledger p

/-- The cycle was closed by the last event, with one completed trade in it. -/
def ClosedOnce (events : List Event) : Prop :=
  events.getLast? = some .cycleReset ∧ cycleCompletions events.dropLast = 1

/-- After a full exit nothing is tracked, the end was reported, the trade completed once and
the totals start over. -/
def FlatRecords (c : Call) (s : LoopState) : Prop :=
  s.tracker.getPosition c.signal.symbol = none ∧ lastReport s.events = some none ∧
    ClosedOnce s.events ∧ s.ledger.totalKoreanCost = 0 ∧ s.ledger.totalForeignValue = 0 ∧
      s.ledger.realizedPnlKrw = 0

/-- The records agree with the ledger. -/
def RecordsAgree (c : Call) (s : LoopState) : Prop :=
  if 0 < s.ledger.heldAmount then HeldRecords c s else FlatRecords c s

/-! ## When they do -/

/-- An entry split keeps the records when coins are held after it and the tracker has a slot
for them. -/
def OpenUpdates (c : Call) (s : LoopState) (outcome : OpenSplit) : Prop :=
  match outcome with
  | .matched legs _ =>
    0 < s.ledger.heldAmount + min legs.foreignQty legs.koreanQty ∧
      0 < s.tracker.freeSlots + s.tracker.count c.signal.symbol
  | _ => False

/-- A sale keeps the records when it closes everything. -/
def SaleUpdates (l : Ledger) (hedge : Hedge) : Prop :=
  match hedge with
  | .done hedged _ => l.heldAmount ≤ min hedged.foreignQty hedged.koreanQty
  | .failed _ => False

/-- A closing split keeps the records only through its first sale. -/
def CloseUpdates (v : Venues) (r : SplitReplies) (q : Quotes) (l : Ledger) (legs : CloseLegs) :
    Prop :=
  match legs with
  | .sold cover sale => SaleUpdates l (hedgeClose v r q (closeFills q cover.order sale.order)).1
  | _ => False

def TradeUpdates (c : Call) (x : IterationInput) (q : Quotes) (s : LoopState) : Prop :=
  match branch c q s.ledger with
  | .entry coinAmount => OpenUpdates c s (openSplit c.venues x.replies q coinAmount).1
  | .exit coinAmount =>
    CloseUpdates c.venues x.replies q s.ledger (closeLegs c.venues x.replies coinAmount).1
  | .wait => False

/-- The iteration is an entry split that leaves coins in a tracked slot, or a full exit
through the first sale. -/
def UpdatesRecords (c : Call) (s : LoopState) (x : IterationInput) : Prop :=
  match iterationQuotes c x.market s.ledger.heldAmount with
  | none => False
  | some q => TradeUpdates c x q s

section Decidability

instance (c : Call) (s : LoopState) (outcome : OpenSplit) : Decidable (OpenUpdates c s outcome) :=
  match outcome with
  | .matched _ _ => inferInstanceAs (Decidable (_ ∧ _))
  | .shortFailed => isFalse id
  | .minOrderRolledBack _ _ => isFalse id
  | .minOrderRollbackFailed _ => isFalse id
  | .buyRolledBack _ _ => isFalse id
  | .buyRollbackFailed _ => isFalse id
  | .correctionFailed _ _ => isFalse id
  | .mismatched _ _ => isFalse id

instance (l : Ledger) (hedge : Hedge) : Decidable (SaleUpdates l hedge) :=
  match hedge with
  | .done _ _ => inferInstanceAs (Decidable (_ ≤ _))
  | .failed _ => isFalse id

instance (v : Venues) (r : SplitReplies) (q : Quotes) (l : Ledger) (legs : CloseLegs) :
    Decidable (CloseUpdates v r q l legs) :=
  match legs with
  | .sold _ _ => inferInstanceAs (Decidable (SaleUpdates _ _))
  | .coverFailed => isFalse id
  | .retrySold _ _ => isFalse id
  | .retriesFailed _ => isFalse id

instance (c : Call) (x : IterationInput) (q : Quotes) (s : LoopState) :
    Decidable (TradeUpdates c x q s) := by
  unfold TradeUpdates
  generalize branch c q s.ledger = branch
  exact match branch with | .entry _ | .exit _ | .wait => inferInstance

instance (c : Call) (s : LoopState) (x : IterationInput) : Decidable (UpdatesRecords c s x) := by
  unfold UpdatesRecords
  generalize iterationQuotes c x.market s.ledger.heldAmount = quotes
  exact match quotes with | none | some _ => inferInstance

instance (l : Ledger) (p : Position) : Decidable (CarriesHeld l p) :=
  inferInstanceAs (Decidable (_ ∧ _ ∧ _ ∧ _))

instance (c : Call) (s : LoopState) : Decidable (HeldRecords c s) :=
  inferInstanceAs (Decidable ((∃ p ∈ s.tracker.getPosition c.signal.symbol, CarriesHeld s.ledger p) ∧
    ∃ r ∈ lastReport s.events, ∃ p ∈ r, CarriesHeld s.ledger p))

instance (c : Call) (s : LoopState) : Decidable (FlatRecords c s) :=
  inferInstanceAs (Decidable (_ ∧ _ ∧ (_ ∧ _) ∧ _ ∧ _ ∧ _))

instance (c : Call) (s : LoopState) : Decidable (RecordsAgree c s) :=
  inferInstanceAs (Decidable (if 0 < s.ledger.heldAmount then HeldRecords c s else FlatRecords c s))

end Decidability

/-! ## What holds between iterations -/

/-- The symbol is tracked at most once, the tracker never has fewer coins than the ledger,
and no trade completed since the last reset. -/
structure Tracked (c : Call) (s : LoopState) : Prop where
  once : s.tracker.count c.signal.symbol ≤ 1
  covers : 0 < s.ledger.heldAmount →
    ∀ p ∈ s.tracker.getPosition c.signal.symbol, s.ledger.heldAmount ≤ p.koreanAmount
  open_cycle : cycleCompletions s.events = 0

/-- What a step does to the records: they agree exactly under `updates` when the amount
changed, and the next iteration can rely on `Tracked`. -/
structure StepRecords (c : Call) (before : ℚ) (updates : Prop) (s : LoopState) : Prop where
  agree : s.ledger.heldAmount ≠ before → (RecordsAgree c s ↔ updates)
  tracked : s.running = true → Tracked c s

variable {c : Call} {x : IterationInput} {q : Quotes} {s : LoopState}

/-- Sent orders leave the tracker and the record as they are. -/
theorem Tracked.emit_orders (h : Tracked c s) (fills : List Fill) :
    Tracked c (s.emit [.orders fills]) where
  once := h.once
  covers := h.covers
  open_cycle := by rw [emit_events, cycleCompletions_append_orders, h.open_cycle]

/-! ## One split -/

/-- Booking an entry leaves records that agree. -/
theorem bookEntry_records (hw : Wired c) (hs : Tracked c s) (legs : LegFills)
    (correction : Option Correction) :
    StepRecords c s.ledger.heldAmount (OpenUpdates c s (.matched legs correction))
      (bookEntry c q legs correction s) := by
  obtain ⟨snap, hsymbol, hcarries, htracker, hevents⟩ : ∃ snap : Position,
      snap.symbol = c.signal.symbol ∧
      CarriesHeld (bookEntry c q legs correction s).ledger snap ∧
      (bookEntry c q legs correction s).tracker =
        (s.tracker.closePosition snap.symbol).openPosition snap ∧
      (bookEntry c q legs correction s).events = s.events ++ [.positionUpdate (some snap)] := by
    refine ⟨heldSnapshot c
      { s with
        ledger := s.ledger.addSplit legs (entryAdjustmentPnlKrw legs q.usdtRate correction)
        koreanFilledAmount := min legs.foreignQty legs.koreanQty
        foreignFilledAmount := min legs.foreignQty legs.koreanQty } q.usdtRate,
      rfl, ⟨rfl, rfl, rfl, rfl⟩, ?_, ?_⟩
    · simp [bookEntry, persistSnapshot, hw.engine, heldSnapshot]
    · simp [bookEntry, persistSnapshot, reportPosition, hw.position, heldSnapshot]
  obtain ⟨hcount, hget⟩ := s.tracker.reopen_spec snap (hsymbol ▸ hs.once)
  rw [← htracker, hsymbol] at hcount hget
  constructor
  · intro _
    simp only [RecordsAgree, HeldRecords, FlatRecords, hget, hevents, lastReport_append_update,
      OpenUpdates, bookEntry_ledger, Ledger.addSplit]
    by_cases hheld : 0 < s.ledger.heldAmount + min legs.foreignQty legs.koreanQty
    · simp only [hheld, if_true, true_and]
      constructor
      · rintro ⟨⟨p, hp, -⟩, -⟩
        by_contra hslot
        simp [hslot] at hp
      · intro hslot
        refine ⟨⟨snap, ?_, hcarries⟩, some snap, rfl, snap, rfl, hcarries⟩
        simp [hslot]
    · simp [hheld]
  · intro _
    refine ⟨hcount, ?_, ?_⟩
    · intro _ p hp
      rw [hget] at hp
      have hp' : snap = p := by
        split_ifs at hp
        · simpa using hp
        · cases hp
      rw [← hp', hcarries.1]
    · rw [hevents, cycleCompletions_append_update, hs.open_cycle]

/-- What follows an opened split leaves records that agree where its outcome updates them. -/
theorem afterOpen_records (hw : Wired c) (hs : Tracked c s) (outcome : OpenSplit) :
    StepRecords c s.ledger.heldAmount (OpenUpdates c s outcome) (afterOpen c q outcome s) := by
  cases outcome with
  | shortFailed => exact ⟨fun h => absurd rfl h, fun _ => hs⟩
  | minOrderRolledBack short rollback => exact ⟨fun h => absurd rfl h, fun _ => hs⟩
  | buyRolledBack short rollback => exact ⟨fun h => absurd rfl h, fun _ => hs⟩
  | minOrderRollbackFailed short => exact ⟨fun h => absurd rfl h, fun h => by cases h⟩
  | buyRollbackFailed short => exact ⟨fun h => absurd rfl h, fun h => by cases h⟩
  | correctionFailed excess legs =>
    cases excess <;> exact ⟨fun h => absurd rfl h, fun h => by cases h⟩
  | mismatched legs correction => exact ⟨fun h => absurd rfl h, fun h => by cases h⟩
  | matched legs correction => exact bookEntry_records hw hs legs correction

/-- What a partial exit does: the ledger shrinks, the callback is told, the tracker is not. -/
theorem bookExit_partial_records (hw : Wired c) (hs : Tracked c s)
    (hheld : 0 < s.ledger.heldAmount) (legs : LegFills) (splitPnl : ℚ)
    (hnonneg : 0 ≤ min legs.foreignQty legs.koreanQty)
    (hrest : 0 < s.ledger.heldAmount - min legs.foreignQty legs.koreanQty) :
    StepRecords c s.ledger.heldAmount False (bookExit c x q legs splitPnl s) := by
  obtain ⟨snap, htracker, hevents⟩ : ∃ snap,
      (bookExit c x q legs splitPnl s).tracker = s.tracker ∧
      (bookExit c x q legs splitPnl s).events = s.events ++ [.positionUpdate (some snap)] := by
    simp only [bookExit, Ledger.closeSplit, hrest, if_true, reportPosition, hw.position]
    exact ⟨_, rfl, rfl⟩
  have hcovered : ∀ p ∈ s.tracker.getPosition c.signal.symbol,
      s.ledger.heldAmount ≤ p.koreanAmount := hs.covers hheld
  constructor
  · rw [bookExit_heldAmount]
    intro hchanged
    have hless : s.ledger.heldAmount - min legs.foreignQty legs.koreanQty < s.ledger.heldAmount :=
      lt_of_le_of_ne (by linarith) hchanged
    refine iff_false_intro ?_
    unfold RecordsAgree
    rw [bookExit_heldAmount, if_pos hrest]
    rintro ⟨⟨p, hp, hcarries⟩, -⟩
    rw [htracker] at hp
    have hamount := hcarries.1
    rw [bookExit_heldAmount] at hamount
    have hp' := hcovered p hp
    linarith
  · intro _
    refine ⟨?_, ?_, ?_⟩
    · rw [htracker]
      exact hs.once
    · intro _ p hp
      rw [htracker] at hp
      have hp' := hcovered p hp
      rw [bookExit_heldAmount]
      linarith
    · rw [hevents, cycleCompletions_append_update, hs.open_cycle]

/-- What a full exit does: everything is closed, told and reset. -/
theorem bookExit_full_records (hw : Wired c) (hs : Tracked c s) (legs : LegFills)
    (splitPnl : ℚ) (hrest : ¬ 0 < s.ledger.heldAmount - min legs.foreignQty legs.koreanQty) :
    StepRecords c s.ledger.heldAmount True (bookExit c x q legs splitPnl s) := by
  obtain ⟨hledger, completed, hevents⟩ := bookExit_full c x q s legs splitPnl hrest
  simp only [reportPosition, hw.position, hw.trade, if_true] at hevents
  have htracker : (bookExit c x q legs splitPnl s).tracker =
      s.tracker.closePosition c.signal.symbol := by
    simp only [bookExit, Ledger.closeSplit, hrest, if_false, completeCycle, hw.engine, if_true]
    rfl
  have habsent : (s.tracker.closePosition c.signal.symbol).count c.signal.symbol = 0 := by
    have hcount := s.tracker.count_closePosition c.signal.symbol
    have honce := hs.once
    omega
  have hnone := (PositionTracker.getPosition_eq_none_iff _ _).mpr habsent
  constructor
  · intro _
    refine iff_true_intro ?_
    unfold RecordsAgree
    rw [bookExit_heldAmount, if_neg hrest]
    refine ⟨?_, ?_, ⟨?_, ?_⟩, ?_, ?_, ?_⟩
    · rw [htracker, hnone]
    · simp [hevents, lastReport, List.filterMap_cons, reported]
    · simp [hevents]
    · have hopen := cycleCompletions_append_update s.events none
      rw [hs.open_cycle, cycleCompletions] at hopen
      rw [hevents, ← List.append_assoc, List.dropLast_concat, cycleCompletions,
        runningTotal_append, hopen]
      rfl
    · rw [hledger]; rfl
    · rw [hledger]; rfl
    · rw [hledger]; rfl
  · intro _
    refine ⟨?_, ?_, ?_⟩
    · rw [htracker, habsent]
      exact Nat.zero_le 1
    · intro _ p hp
      rw [htracker, hnone] at hp
      cases hp
    · simp [hevents, cycleCompletions, endsCycle]

/-- What follows a sale leaves records that agree where its outcome updates them. -/
theorem afterSale_records (hw : Wired c) (hs : Tracked c s) (hheld : 0 < s.ledger.heldAmount)
    {closed : LegFills} {hedge : Hedge}
    (hnonneg : ∀ legs correction, hedge = .done legs correction →
      0 ≤ min legs.foreignQty legs.koreanQty) :
    StepRecords c s.ledger.heldAmount (SaleUpdates s.ledger hedge)
      (afterSale c x q closed hedge s) := by
  cases hedge with
  | failed excess =>
    cases excess <;> exact ⟨fun h => absurd rfl h, fun h => by cases h⟩
  | done hedged correction =>
    simp only [afterSale]
    split_ifs with hmatch
    · have hqty := hnonneg hedged correction rfl
      by_cases hrest : 0 < s.ledger.heldAmount - min hedged.foreignQty hedged.koreanQty
      · have hsomeLeft : ¬ SaleUpdates s.ledger (.done hedged correction) := by
          unfold SaleUpdates
          linarith
        simpa [hsomeLeft] using bookExit_partial_records hw hs hheld hedged _ hqty hrest
      · have hall : SaleUpdates s.ledger (.done hedged correction) := by
          unfold SaleUpdates
          linarith
        simpa [hall] using bookExit_full_records hw hs hedged _ hrest
    · exact ⟨fun h => absurd rfl h, fun h => by cases h⟩

/-- Behind a retried sale the cover's quantity is off what is held. -/
theorem afterRetry_heldAmount (cover sale : Order) :
    (afterRetry c q cover sale s).ledger.heldAmount =
      s.ledger.heldAmount - resolvedFillQuantity cover := by
  simp only [afterRetry]
  split_ifs <;> rfl

/-- A retried sale that stays `Filled` tells nobody. -/
theorem afterRetry_filled {sale : Order} (h : sale.status = .filled) (cover : Order) :
    (afterRetry c q cover sale s).tracker = s.tracker ∧
      (afterRetry c q cover sale s).events = s.events := by
  simp [afterRetry, h]

/-- A critical stop reports its snapshot, or the removal of the position. -/
theorem triggerCriticalStop_events (hw : Wired c) (reason : StopReason) (snap : Position)
    (s : LoopState) :
    (triggerCriticalStop c reason snap s).events =
      s.events ++ [.positionUpdate (if snap.isActive then some snap else none)] := by
  simp [triggerCriticalStop, persistSnapshot_events, reportPosition, hw.position]

/-- A retried sale that its fill query takes back stops the bot with unequal legs. -/
theorem afterRetry_stopped (hw : Wired c) {sale : Order} (h : sale.status ≠ .filled)
    (cover : Order) :
    ∃ snap : Position, (afterRetry c q cover sale s).running = false ∧
      (afterRetry c q cover sale s).events =
        s.events ++ [.positionUpdate (if snap.isActive then some snap else none)] ∧
      snap.foreignAmount =
        max 0 (s.ledger.heldAmount - resolvedFillQuantity cover - resolvedFillQuantity cover) := by
  simp only [afterRetry, h, ne_eq, not_false_eq_true, if_true]
  exact ⟨_, rfl, triggerCriticalStop_events hw _ _ _, rfl⟩

/-- A retried sale never agrees: neither the tracker nor a callback is told. -/
theorem afterRetry_records (hw : Wired c) (hs : Tracked c s) (hheld : 0 < s.ledger.heldAmount)
    (cover sale : Order) (fills : List Fill) :
    StepRecords c s.ledger.heldAmount False
      (afterRetry c q cover sale (s.emit [.orders fills])) := by
  have hnonneg := resolvedFillQuantity_nonneg cover
  constructor
  · rw [afterRetry_heldAmount]
    intro hchanged
    have hcovered : 0 < resolvedFillQuantity cover := by
      refine lt_of_le_of_ne hnonneg ?_
      intro hzero
      exact hchanged (by rw [← hzero, sub_zero]; rfl)
    refine iff_false_intro ?_
    unfold RecordsAgree
    rw [afterRetry_heldAmount, emit_ledger]
    by_cases hstatus : sale.status = .filled
    · obtain ⟨htracker, hevents⟩ :=
        afterRetry_filled (c := c) (q := q) (s := s.emit [.orders fills]) hstatus cover
      split_ifs with hrest
      · rintro ⟨⟨p, hp, hcarries⟩, -⟩
        rw [htracker] at hp
        have hamount := hcarries.1
        rw [afterRetry_heldAmount, emit_ledger] at hamount
        have hp' := hs.covers hheld p hp
        linarith
      · rintro ⟨-, -, ⟨hlast, -⟩, -⟩
        simp [hevents] at hlast
    · obtain ⟨snap, -, hevents, hforeign⟩ :=
        afterRetry_stopped (q := q) (s := s.emit [.orders fills]) hw hstatus cover
      split_ifs with hrest
      · rintro ⟨-, r, hr, p, hp, hcarries⟩
        rw [hevents, lastReport_append_update, Option.mem_some_iff] at hr
        have hsnap : snap = p := by
          rw [← hr] at hp
          split_ifs at hp
          · simpa using hp
          · cases hp
        have hamount := hcarries.2.1
        rw [← hsnap, hforeign, afterRetry_heldAmount, emit_ledger] at hamount
        rcases max_choice (0 : ℚ) (s.ledger.heldAmount - resolvedFillQuantity cover
          - resolvedFillQuantity cover) with hmax | hmax
        · rw [hmax] at hamount
          linarith
        · rw [hmax] at hamount
          linarith
      · rintro ⟨-, -, ⟨hlast, -⟩, -⟩
        simp [hevents] at hlast
  · intro hrunning
    by_cases hstatus : sale.status = .filled
    · obtain ⟨htracker, hevents⟩ :=
        afterRetry_filled (c := c) (q := q) (s := s.emit [.orders fills]) hstatus cover
      refine ⟨?_, ?_, ?_⟩
      · rw [htracker]
        exact hs.once
      · intro _ p hp
        rw [htracker] at hp
        have hp' := hs.covers hheld p hp
        rw [afterRetry_heldAmount, emit_ledger]
        linarith
      · rw [hevents]
        exact (hs.emit_orders fills).open_cycle
    · obtain ⟨snap, hstop, -⟩ :=
        afterRetry_stopped (q := q) (s := s.emit [.orders fills]) hw hstatus cover
      rw [hstop] at hrunning
      cases hrunning

/-- The delta hedge of an exit only adds to the closed quantities. -/
theorem hedgeClose_nonneg {v : Venues} {r : SplitReplies} {cover sale : Order}
    {hedged : LegFills} {correction : Option Correction}
    (h : (hedgeClose v r q (closeFills q cover sale)).1 = .done hedged correction) :
    0 ≤ min hedged.foreignQty hedged.koreanQty := by
  have hsale := resolvedFillQuantity_nonneg sale
  have hcover := resolvedFillQuantity_nonneg cover
  simp only [hedgeClose] at h
  split_ifs at h with hmatch hexcess hdone hdone
  · cases h
    exact le_min hcover hsale
  · cases h
    exact le_min hcover (add_nonneg hsale (resolvedFillQuantity_nonneg _))
  · cases h
    exact le_min (add_nonneg hcover (resolvedFillQuantity_nonneg _)) hsale

/-- What follows a closed split leaves records that agree where its outcome updates them. -/
theorem afterClose_records (hw : Wired c) (hs : Tracked c s) (hheld : 0 < s.ledger.heldAmount)
    (legs : CloseLegs) (fills : List Fill) :
    StepRecords c s.ledger.heldAmount (CloseUpdates c.venues x.replies q s.ledger legs)
      (afterClose c x q (legs, fills) s) := by
  cases legs with
  | coverFailed => exact ⟨fun h => absurd rfl h, fun _ => hs.emit_orders _⟩
  | sold cover sale =>
    exact afterSale_records hw (hs.emit_orders _) hheld
      fun legs correction hedged => hedgeClose_nonneg hedged
  | retrySold cover sale => exact afterRetry_records hw hs hheld _ _ _
  | retriesFailed cover => exact ⟨fun h => absurd rfl h, fun h => by cases h⟩

/-! ## Runs -/

/-- An iteration leaves records that agree where it updates them. -/
theorem iterate_records (hw : Wired c) (hs : Tracked c s) (x : IterationInput) :
    StepRecords c s.ledger.heldAmount (UpdatesRecords c s x) (iterate c s x) := by
  have hs' : Tracked c { s with lastUsdtRate := iterationRate c x.market } :=
    ⟨hs.once, hs.covers, hs.open_cycle⟩
  unfold iterate UpdatesRecords
  simp only
  cases hquotes : iterationQuotes c x.market s.ledger.heldAmount with
  | none => exact ⟨fun h => absurd rfl h, fun _ => hs'⟩
  | some q =>
    simp only [trade, TradeUpdates]
    cases hbranch : branch c q s.ledger with
    | entry coinAmount =>
      simp only
      exact afterOpen_records hw (hs'.emit_orders _) _
    | exit coinAmount =>
      simp only
      exact afterClose_records hw hs' (heldAmount_pos_of_exit hbranch) _ _
    | wait => exact ⟨fun h => absurd rfl h, fun _ => hs'⟩

/-- Between the iterations of every run the symbol stays tracked as the next one needs it. -/
theorem entryLoop_tracked (hw : Wired c) (hs : s.running = true → Tracked c s)
    (xs : List IterationInput) :
    (entryLoop c s xs).running = true → Tracked c (entryLoop c s xs) := by
  refine List.foldlRecOn (motive := fun s => s.running = true → Tracked c s) xs (loopStep c) hs ?_
  intro s hs x _ hrunning
  unfold loopStep at hrunning ⊢
  split_ifs at hrunning ⊢ with hbefore
  · exact (iterate_records hw (hs hbefore) x).tracked hrunning
  · exact absurd hrunning hbefore

/-- The loop begins with a tracked record. -/
theorem initialState_tracked {initial : Option Position} {tracker : PositionTracker}
    (hcount : tracker.count c.signal.symbol ≤ 1)
    (hcovers : ∀ p ∈ initial, ∀ tracked ∈ tracker.getPosition c.signal.symbol,
      p.koreanAmount ≤ tracked.koreanAmount) (now : Timestamp) :
    Tracked c (initialState c initial now tracker) := by
  refine ⟨hcount, ?_, rfl⟩
  intro hheld p hp
  cases initial with
  | none => exact absurd hheld (lt_irrefl 0)
  | some p₀ => exact hcovers p₀ rfl p hp

/-- In every run, after every iteration that changed the held amount, the tracker, the last
report and the ledger agree exactly when the iteration was an entry split that leaves coins
in a tracked slot, or a full exit through the first sale. -/
theorem entryLoop_recordsAgree (c : Call) (hw : Wired c) (initial : Option Position)
    (now : Timestamp) (tracker : PositionTracker) (hcount : tracker.count c.signal.symbol ≤ 1)
    (hcovers : ∀ p ∈ initial, ∀ tracked ∈ tracker.getPosition c.signal.symbol,
      p.koreanAmount ≤ tracked.koreanAmount) (xs : List IterationInput) (x : IterationInput)
    (hchanged : (entryLoop c (initialState c initial now tracker) (xs ++ [x])).ledger.heldAmount ≠
      (entryLoop c (initialState c initial now tracker) xs).ledger.heldAmount) :
    RecordsAgree c (entryLoop c (initialState c initial now tracker) (xs ++ [x])) ↔
      UpdatesRecords c (entryLoop c (initialState c initial now tracker) xs) x := by
  have htracked := entryLoop_tracked hw (s := initialState c initial now tracker)
    (fun _ => initialState_tracked hcount hcovers now) xs
  have hstep : entryLoop c (initialState c initial now tracker) (xs ++ [x]) =
      loopStep c (entryLoop c (initialState c initial now tracker) xs) x := by
    simp only [entryLoop, List.foldl_append, List.foldl_cons, List.foldl_nil]
  rw [hstep] at hchanged ⊢
  unfold loopStep at hchanged ⊢
  split_ifs at hchanged ⊢ with hrunning
  · exact (iterate_records hw (htracked hrunning) x).agree hchanged
  · exact absurd rfl hchanged

/-- An entry split of 35 coins. -/
def entrySplit : IterationInput :=
  { market := sampleMarket 1000
    replies := legReplies (executingForeign 35 1) (executingKorean .done 35 1000) }

/-- An exit split of 35 coins. -/
def exitSplit : IterationInput :=
  { market := sampleMarket 1500
    replies := legReplies (executingForeign 35 1) (executingKorean .done 35 1500) }

/-- The second entry split updates the records. -/
theorem entryLoop_recordsAgree_entry :
    RecordsAgree (sampleCall .bithumb .bybit)
      (entryLoop (sampleCall .bithumb .bybit)
        (initialState (sampleCall .bithumb .bybit) none 0 .empty) ([entrySplit] ++ [entrySplit])) := by
  refine (entryLoop_recordsAgree (sampleCall .bithumb .bybit) ⟨rfl, rfl, rfl⟩ none 0 .empty
    ?_ ?_ [entrySplit] entrySplit ?_).mpr ?_
  · decide
  · intro p hp
    cases hp
  · decide +kernel
  · decide +kernel

/-- The example's replies are truthful. -/
theorem legReplies_executed {quantity price won : ℚ} (hq : 0 ≤ quantity) (hp : 0 < price)
    (hwon : 0 < won) :
    TruthfulReplies
      (legReplies (executingForeign quantity price) (executingKorean .done quantity won)) :=
  legReplies_truthful (executingForeign_truthful hq hp)
    (executingKorean_truthful (Or.inl rfl) hq hwon)

/-- Fully executed orders do not keep the records together: after two entry splits and an
exit split the tracker still has all the coins. -/
theorem partialExit_records_differ :
    ¬ ∀ (c : Call) (initial : Option Position) (now : Timestamp) (tracker : PositionTracker)
      (xs : List IterationInput) (x : IterationInput),
      Wired c → tracker.count c.signal.symbol ≤ 1 → 0 < tracker.freeSlots →
      (∀ p ∈ initial, tracker.getPosition c.signal.symbol = some p) →
      (∀ y ∈ xs ++ [x], TruthfulReplies y.replies) →
      (entryLoop c (initialState c initial now tracker) (xs ++ [x])).ledger.heldAmount ≠
        (entryLoop c (initialState c initial now tracker) xs).ledger.heldAmount →
      RecordsAgree c (entryLoop c (initialState c initial now tracker) (xs ++ [x])) := by
  intro h
  have htruthful : ∀ y ∈ [entrySplit, entrySplit] ++ [exitSplit], TruthfulReplies y.replies := by
    intro y hy
    have hcases : y = entrySplit ∨ y = exitSplit := by simpa using hy
    rcases hcases with rfl | rfl
    · exact legReplies_executed (by norm_num) (by norm_num) (by norm_num)
    · exact legReplies_executed (by norm_num) (by norm_num) (by norm_num)
  have hrun := h (sampleCall .bithumb .bybit) none 0 .empty [entrySplit, entrySplit] exitSplit
    ⟨rfl, rfl, rfl⟩ (by decide) (by decide) (by intro p hp; cases hp) htruthful (by decide +kernel)
  revert hrun
  decide +kernel

end SpotRelay.Analysis
