import SpotRelay.Analysis.EntryQuotes
import SpotRelay.Analysis.HedgeDrift
import SpotRelay.Library.AverageCost

/-!
# The size of a position

The next order is sized from what the open notional leaves of the configured size.  Where no
short fills beyond its request and no exit books more than is held, the notional stays
between zero and that size over every run.

* **one iteration** moves the ledger as one of its branches books it (`loopStep_move`), and each of
  these moves keeps the notional within the size (`loopStep_withinSize`).
* **the condition on the opens** follows from venues that report no more than was asked of them
  (`opensWithinRequest_of_reports`).
-/

set_option autoImplicit false

namespace SpotRelay.Analysis

open SpotRelay.Model SpotRelay.Interface SpotRelay.Library.Run
open SpotRelay.Library.AverageCost SpotRelay.Library.Tolerance

/-! ## What a run is asked to keep -/

/-- An acknowledged entry short is resolved to no more coins than were requested, at a price
no higher than the bid they were sized with. -/
def OpensWithinRequest (c : Call) (s : LoopState) (x : IterationInput) : Prop :=
  ∀ short ∈ submittedShort c s x,
    (openShortLeg c.venues x.replies short.coinAmount).order.status = .filled →
    resolvedFillQuantity (openShortFill c.venues x.replies short.coinAmount).order ≤
        short.coinAmount ∧
      resolvedFillPrice (openShortFill c.venues x.replies short.coinAmount).order
        short.quotes.foreignBid ≤ short.quotes.foreignBid

/-- The quantity that the legs of a sold exit book as closed. -/
def hedgedClose : Hedge → Option ℚ
  | .failed _ => none
  | .done hedged _ =>
    if quantitiesMatch hedged.foreignQty hedged.koreanQty then
      some (min hedged.foreignQty hedged.koreanQty)
    else none

/-- The quantity that the legs of an exit book as closed. -/
def legsClose (v : Venues) (r : SplitReplies) (q : Quotes) : CloseLegs → Option ℚ
  | .coverFailed => none
  | .sold cover sale => hedgedClose (hedgeClose v r q (closeFills q cover.order sale.order)).1
  | .retrySold cover _ => some (resolvedFillQuantity cover.order)
  | .retriesFailed _ => none

/-- The quantity that an iteration books as closed. -/
def bookedClose (c : Call) (s : LoopState) (x : IterationInput) : Option ℚ :=
  if s.running then
    match iterationQuotes c x.market s.ledger.heldAmount with
    | none => none
    | some q =>
      match branch c q s.ledger with
      | .entry _ => none
      | .exit coinAmount =>
        legsClose c.venues x.replies q (closeLegs c.venues x.replies coinAmount).1
      | .wait => none
  else none

/-- An exit books no more than is held. -/
def ClosesWithinHeld (c : Call) (s : LoopState) (x : IterationInput) : Prop :=
  ∀ covered ∈ bookedClose c s x, covered ≤ s.ledger.heldAmount

/-- The open notional is within the configured size. -/
structure WithinSize (size : ℚ) (l : Ledger) : Prop where
  nonneg : 0 ≤ l.totalForeignValue
  le_size : l.totalForeignValue ≤ size

/-! ## Entries -/

/-- A correction takes coins off one leg of an opening split and leaves its prices. -/
theorem hedgeOpen_legs {v : Venues} {r : SplitReplies} {q : Quotes} {legs hedged : LegFills}
    {correction : Option Correction} {fills : List Fill}
    (h : hedgeOpen v r q legs = (.done hedged correction, fills)) :
    hedged.foreignPrice = legs.foreignPrice ∧ hedged.foreignQty ≤ legs.foreignQty ∧
      (hedged.koreanQty = legs.koreanQty ∨ hedged.foreignQty = legs.foreignQty) := by
  simp only [hedgeOpen] at h
  split_ifs at h
  · simp only [Prod.mk.injEq, Hedge.done.injEq] at h
    obtain ⟨⟨rfl, -⟩, -⟩ := h
    exact ⟨rfl, le_refl _, Or.inl rfl⟩
  · simp only [Prod.mk.injEq, Hedge.done.injEq] at h
    obtain ⟨⟨rfl, -⟩, -⟩ := h
    exact ⟨rfl, sub_le_self _ (resolvedFillQuantity_nonneg _), Or.inl rfl⟩
  · cases h
  · simp only [Prod.mk.injEq, Hedge.done.injEq] at h
    obtain ⟨⟨rfl, -⟩, -⟩ := h
    exact ⟨rfl, le_refl _, Or.inr rfl⟩
  · cases h

/-- The hedge tolerance is less than the whole quantity. -/
theorem tolerance_lt_one : tolerance < 1 := by
  unfold tolerance TradingConfig.hedgeQuantityToleranceRatio
  norm_num

/-- A split of legs that match after the correction books no negative quantity: a leg that the
correction overshot could not match the other. -/
theorem booked_nonneg {v : Venues} {r : SplitReplies} {q : Quotes} {legs hedged : LegFills}
    {correction : Option Correction} {fills : List Fill} (hforeign : 0 ≤ legs.foreignQty)
    (hkorean : 0 ≤ legs.koreanQty)
    (h : hedgeOpen v r q legs = (.done hedged correction, fills))
    (hmatch : quantitiesMatch hedged.foreignQty hedged.koreanQty = true) :
    0 ≤ min hedged.foreignQty hedged.koreanQty := by
  have hclose := (quantitiesMatch_iff _ _).mp hmatch
  obtain ⟨-, -, hkept | hkept⟩ := hedgeOpen_legs h
  · have hk : 0 ≤ hedged.koreanQty := by rwa [hkept]
    exact le_min (hclose.nonneg tolerance_lt_one hk) hk
  · have hf : 0 ≤ hedged.foreignQty := by rwa [hkept]
    have hclose' : Close tolerance hedged.koreanQty hedged.foreignQty := by
      unfold Close at hclose ⊢
      rwa [abs_sub_comm, max_comm]
    exact le_min hf (hclose'.nonneg tolerance_lt_one hf)

/-- Matched legs are what the correction left. -/
theorem openHedged_matched {v : Venues} {r : SplitReplies} {q : Quotes} {short buy : Fill}
    {hedged : LegFills} {correction : Option Correction}
    (h : (openHedged v r q short buy).1 = .matched hedged correction) :
    ∃ fills, hedgeOpen v r q (openLegs q short.order buy.order) = (.done hedged correction, fills) ∧
      quantitiesMatch hedged.foreignQty hedged.koreanQty = true := by
  unfold openHedged at h
  dsimp only at h
  generalize hedgeOpen v r q (openLegs q short.order buy.order) = outcome at h ⊢
  obtain ⟨hedge, fills⟩ := outcome
  cases hedge with
  | failed excess => cases h
  | done legs made =>
    dsimp only at h
    by_cases hmatch : quantitiesMatch legs.foreignQty legs.koreanQty = true
    · rw [if_pos hmatch] at h
      cases h
      exact ⟨fills, rfl, hmatch⟩
    · rw [if_neg hmatch] at h
      cases h

/-- A matched split is an acknowledged short, a buy, and a correction that leaves both legs
equal. -/
theorem openSplit_matched {v : Venues} {r : SplitReplies} {q : Quotes} {coinAmount : ℚ}
    {hedged : LegFills} {correction : Option Correction}
    (h : (openSplit v r q coinAmount).1 = .matched hedged correction) :
    (openShortLeg v r coinAmount).order.status = .filled ∧
      ∃ buy fills, hedgeOpen v r q (openLegs q (openShortFill v r coinAmount).order buy) =
          (.done hedged correction, fills) ∧
        quantitiesMatch hedged.foreignQty hedged.koreanQty = true := by
  unfold openSplit at h
  by_cases hfilled : (openShortLeg v r coinAmount).order.status = .filled
  · refine ⟨hfilled, ?_⟩
    simp only [hfilled, ne_eq, not_true_eq_false, if_false] at h
    by_cases hminimum : (openShortLeg v r coinAmount).order.quantity * q.koreanAsk
        < TradingConfig.minOrderKrw
    · simp only [hminimum, if_true, openBelowMinimum] at h
      split at h <;> cases h
    · simp only [hminimum, if_false] at h
      split at h
      · obtain ⟨fills, hhedge, hmatch⟩ := openHedged_matched h
        exact ⟨_, fills, hhedge, hmatch⟩
      · simp only [openBuyFailed] at h
        split at h <;> cases h
  · simp only [hfilled, ne_eq, not_false_eq_true, if_true] at h
    cases h

/-- An entry is sized with a bid that is there, from what the open notional leaves of the
size. -/
theorem entry_sizing {c : Call} {q : Quotes} {l : Ledger} {coinAmount : ℚ}
    (h : branch c q l = .entry coinAmount) :
    0 < q.foreignBid ∧ 0 ≤ coinAmount ∧
      coinAmount * q.foreignBid ≤ c.positionSizeUsd - l.totalForeignValue := by
  have hbid := (priced_of_entry h).foreignBid
  refine ⟨hbid, ?_⟩
  unfold branch at h
  dsimp only at h
  rcases ite_eq_iff.mp h with ⟨hgate, hentry⟩ | ⟨-, hother⟩
  · rw [← Branch.entry.inj hentry, if_pos hbid, div_mul_cancel₀ _ hbid.ne']
    refine ⟨div_nonneg hgate.2.2.1.1.le hbid.le, ?_⟩
    -- the next order is positive, so it was not capped at zero
    have hpositive : 0 < max 0 (c.positionSizeUsd - l.totalForeignValue) :=
      lt_of_lt_of_le hgate.2.2.1.1 (min_le_right _ _)
    have hleft : 0 < c.positionSizeUsd - l.totalForeignValue := by
      rcases lt_max_iff.mp hpositive with hzero | hleft
      · exact absurd hzero (lt_irrefl 0)
      · exact hleft
    calc min TradingConfig.orderSizeUsd (max 0 (c.positionSizeUsd - l.totalForeignValue))
        ≤ max 0 (c.positionSizeUsd - l.totalForeignValue) := min_le_right _ _
      _ = c.positionSizeUsd - l.totalForeignValue := max_eq_right hleft.le
  · split at hother <;> cases hother

/-- A matched split adds at most what it was sized for. -/
theorem addSplit_withinSize {size : ℚ} {v : Venues} {r : SplitReplies} {q : Quotes} {l : Ledger}
    {coinAmount adjustment : ℚ} {buy : Order} {hedged : LegFills}
    {correction : Option Correction} {fills : List Fill} (hl : WithinSize size l)
    (hbid : 0 < q.foreignBid) (hsize : coinAmount * q.foreignBid ≤ size - l.totalForeignValue)
    (hqty : resolvedFillQuantity (openShortFill v r coinAmount).order ≤ coinAmount)
    (hprice : resolvedFillPrice (openShortFill v r coinAmount).order q.foreignBid ≤ q.foreignBid)
    (hhedge : hedgeOpen v r q (openLegs q (openShortFill v r coinAmount).order buy) =
      (.done hedged correction, fills))
    (hmatch : quantitiesMatch hedged.foreignQty hedged.koreanQty = true) :
    WithinSize size (l.addSplit hedged adjustment) := by
  obtain ⟨hkept, hless, -⟩ := hedgeOpen_legs hhedge
  have hforeign : 0 ≤ (openLegs q (openShortFill v r coinAmount).order buy).foreignQty :=
    resolvedFillQuantity_nonneg _
  have hkorean : 0 ≤ (openLegs q (openShortFill v r coinAmount).order buy).koreanQty :=
    resolvedFillQuantity_nonneg _
  have hbooked : 0 ≤ min hedged.foreignQty hedged.koreanQty :=
    booked_nonneg hforeign hkorean hhedge hmatch
  have hbounded : min hedged.foreignQty hedged.koreanQty ≤ coinAmount :=
    (min_le_left _ _).trans (hless.trans hqty)
  have hshort : hedged.foreignPrice =
      resolvedFillPrice (openShortFill v r coinAmount).order q.foreignBid := hkept
  have hpaid : 0 ≤ hedged.foreignPrice := by
    rw [hshort, resolvedFillPrice]
    split_ifs with haverage
    · exact haverage.le
    · exact hbid.le
  rw [← hshort] at hprice
  have hvalue : 0 ≤ min hedged.foreignQty hedged.koreanQty * hedged.foreignPrice :=
    mul_nonneg hbooked hpaid
  have hroom : min hedged.foreignQty hedged.koreanQty * hedged.foreignPrice ≤
      size - l.totalForeignValue :=
    calc min hedged.foreignQty hedged.koreanQty * hedged.foreignPrice
        ≤ coinAmount * q.foreignBid :=
          mul_le_mul hbounded hprice hpaid (hbooked.trans hbounded)
      _ ≤ size - l.totalForeignValue := hsize
  constructor
  · exact add_nonneg hl.nonneg hvalue
  · show l.totalForeignValue + _ ≤ size
    linarith

/-! ## Reported fills -/

/-- The venue reports fills of at most `qty` coins at `price` or less, and the lot filter does
not round `qty` up. -/
structure ReportsWithin (r : ForeignReply) (qty price : ℚ) : Prop where
  lot : normalizeOrderQty r.lot r.ticker qty true ≤ qty
  cachedFill : ∀ f, r.cachedFill = some f → f.cumExecQty ≤ qty ∧ f.avgPrice ≤ price
  polls : ∀ f, some f ∈ r.polls → f.cumExecQty ≤ qty ∧ f.avgPrice ≤ price

/-- What the order manager knows of an order is within the request. -/
structure OrderWithin (order : Order) (qty price : ℚ) : Prop where
  quantity : order.quantity ≤ qty
  filledQuantity : order.filledQuantity ≤ qty
  averagePrice : order.averagePrice ≤ price

/-- An order that takes a fill over stays within size and price. -/
theorem OrderWithin.applyForeignFill {order : Order} {qty price : ℚ}
    (horder : OrderWithin order qty price) {f : ForeignFill} (hqty : f.cumExecQty ≤ qty)
    (hprice : f.avgPrice ≤ price) : OrderWithin (order.applyForeignFill f) qty price := by
  refine ⟨horder.quantity, ?_, ?_⟩
  · simp only [Order.applyForeignFill]
    split_ifs
    · exact hqty
    · exact horder.filledQuantity
  · simp only [Order.applyForeignFill]
    split_ifs
    · exact hprice
    · exact horder.averagePrice

/-- Whatever the fill query finds, the order stays within size and price. -/
theorem queryForeignFill_within {ex : Exchange} {r : ForeignReply} {order : Order}
    {qty price : ℚ} (horder : OrderWithin order qty price) (hr : ReportsWithin r qty price) :
    OrderWithin (queryForeignFill ex r order) qty price := by
  refine queryForeignFill_keeps (I := fun o => OrderWithin o qty price) ex ?_ ?_ horder
  · intro f hf order horder
    obtain ⟨hqty, hprice⟩ := hr.cachedFill f hf
    exact ⟨horder.quantity, hqty, hprice⟩
  · intro f hf order horder
    obtain ⟨hqty, hprice⟩ := hr.polls f hf
    exact horder.applyForeignFill hqty hprice

/-- The short leg of an entry sells within the size it was asked for. -/
theorem openShortLeg_within {v : Venues} {r : SplitReplies} {qty price : ℚ} (hqty : 0 ≤ qty)
    (hprice : 0 ≤ price) (hlot : normalizeOrderQty r.foreign.lot r.foreign.ticker qty true ≤ qty) :
    OrderWithin (openShortLeg v r qty).order qty price := by
  simp only [openShortLeg, executeForeignShort, openShort]
  split_ifs
  · exact ⟨hqty, hqty, hprice⟩
  · exact ⟨hlot, hqty, hprice⟩
  · unfold submitForeign
    cases r.foreign.ack with
    | accepted orderId => exact ⟨hlot, hqty, hprice⟩
    | noData => exact ⟨hlot, hqty, hprice⟩
    | rejected => exact ⟨hlot, hqty, hprice⟩

/-- Reports within the request keep the booked opens within it. -/
theorem opensWithinRequest_of_reports {c : Call} {s : LoopState} {x : IterationInput}
    (h : ∀ short ∈ submittedShort c s x,
      ReportsWithin x.replies.foreign short.coinAmount short.quotes.foreignBid) :
    OpensWithinRequest c s x := by
  rintro short hshort -
  obtain ⟨-, -, -, hbranch⟩ := submittedShort_eq_some_iff.mp hshort
  obtain ⟨hbid, hamount, -⟩ := entry_sizing hbranch
  have hreports := h short hshort
  have horder : OrderWithin (openShortFill c.venues x.replies short.coinAmount).order
      short.coinAmount short.quotes.foreignBid :=
    queryForeignFill_within (openShortLeg_within hamount hbid.le hreports.lot) hreports
  constructor
  · unfold resolvedFillQuantity
    split_ifs
    · exact horder.filledQuantity
    · exact horder.quantity
    · exact hamount
  · unfold resolvedFillPrice
    split_ifs
    · exact horder.averagePrice
    · exact le_refl _

/-! ## Exits -/

/-- A correction of a closing split only adds to its legs. -/
theorem hedgeClose_legs {v : Venues} {r : SplitReplies} {q : Quotes} {legs hedged : LegFills}
    {correction : Option Correction} (h : (hedgeClose v r q legs).1 = .done hedged correction) :
    legs.foreignQty ≤ hedged.foreignQty ∧ legs.koreanQty ≤ hedged.koreanQty := by
  simp only [hedgeClose] at h
  split_ifs at h
  · obtain ⟨rfl, -⟩ := Hedge.done.inj h
    exact ⟨le_refl _, le_refl _⟩
  · obtain ⟨rfl, -⟩ := Hedge.done.inj h
    exact ⟨le_refl _, le_add_of_nonneg_right (resolvedFillQuantity_nonneg _)⟩
  · obtain ⟨rfl, -⟩ := Hedge.done.inj h
    exact ⟨le_add_of_nonneg_right (resolvedFillQuantity_nonneg _), le_refl _⟩

/-- The legs of an exit book no negative quantity. -/
theorem legsClose_nonneg {v : Venues} {r : SplitReplies} {q : Quotes} {legs : CloseLegs}
    {covered : ℚ} (h : legsClose v r q legs = some covered) : 0 ≤ covered := by
  cases legs with
  | coverFailed => cases h
  | retriesFailed cover => cases h
  | retrySold cover sale =>
    cases h
    exact resolvedFillQuantity_nonneg _
  | sold cover sale =>
    simp only [legsClose] at h
    cases hhedge : (hedgeClose v r q (closeFills q cover.order sale.order)).1 with
    | failed excess =>
      rw [hhedge] at h
      cases h
    | done hedged correction =>
      rw [hhedge, hedgedClose] at h
      obtain ⟨hforeign, hkorean⟩ := hedgeClose_legs hhedge
      split_ifs at h
      cases h
      apply le_min
      · exact (resolvedFillQuantity_nonneg _).trans hforeign
      · exact (resolvedFillQuantity_nonneg _).trans hkorean

/-- Booking a closed quantity that is held scales the notional down. -/
theorem closeSplit_withinSize {size covered : ℚ} {l : Ledger} (hl : WithinSize size l)
    (hheld : 0 < l.heldAmount) (hcovered : 0 ≤ covered) (hle : covered ≤ l.heldAmount)
    (splitPnl : ℚ) : WithinSize size (l.closeSplit covered splitPnl) := by
  have hreduced := reduceCost_mem hl.nonneg hheld hcovered hle
  unfold reduceCost at hreduced
  constructor
  · simp only [Ledger.closeSplit, if_pos hheld]
    exact hreduced.1
  · simp only [Ledger.closeSplit, if_pos hheld]
    exact hreduced.2.trans hl.le_size

/-- A ledger reset for the next cycle holds nothing and so stays within size. -/
theorem resetCycle_withinSize {size : ℚ} {l : Ledger} (hl : WithinSize size l) :
    WithinSize size l.resetCycle :=
  ⟨le_refl 0, hl.nonneg.trans hl.le_size⟩

/-! ## The ledger of an iteration -/

/-- What an iteration can do to the ledger: nothing, book an opening split, book a closed
quantity, or book the last of one and start the next cycle. -/
inductive LedgerMove (c : Call) (s : LoopState) (x : IterationInput) : Ledger → Prop
  | kept : LedgerMove c s x s.ledger
  | opened (short : PricedShort) (buy : Order) (hedged : LegFills)
      (correction : Option Correction) (fills : List Fill) (adjustment : ℚ)
      (hshort : submittedShort c s x = some short)
      (hfilled : (openShortLeg c.venues x.replies short.coinAmount).order.status = .filled)
      (hhedge : hedgeOpen c.venues x.replies short.quotes (openLegs short.quotes
        (openShortFill c.venues x.replies short.coinAmount).order buy) =
          (.done hedged correction, fills))
      (hmatch : quantitiesMatch hedged.foreignQty hedged.koreanQty = true) :
      LedgerMove c s x (s.ledger.addSplit hedged adjustment)
  | closed (covered splitPnl : ℚ) (hheld : 0 < s.ledger.heldAmount)
      (hbooked : bookedClose c s x = some covered) :
      LedgerMove c s x (s.ledger.closeSplit covered splitPnl)
  | completed (covered splitPnl : ℚ) (hheld : 0 < s.ledger.heldAmount)
      (hbooked : bookedClose c s x = some covered) :
      LedgerMove c s x (s.ledger.closeSplit covered splitPnl).resetCycle

/-- The entry branch books a matched split and nothing else. -/
theorem afterOpen_move {c : Call} {x : IterationInput} {s : LoopState} {short : PricedShort}
    (hshort : submittedShort c s x = some short) {s' : LoopState} (hledger : s'.ledger = s.ledger) :
    LedgerMove c s x (afterOpen c short.quotes
      (openSplit c.venues x.replies short.quotes short.coinAmount).1 s').ledger := by
  have hkept : LedgerMove c s x s'.ledger := by
    rw [hledger]
    exact .kept
  cases hsplit : (openSplit c.venues x.replies short.quotes short.coinAmount).1 with
  | shortFailed => exact hkept
  | minOrderRolledBack short rollback => exact hkept
  | minOrderRollbackFailed short => exact hkept
  | buyRolledBack short rollback => exact hkept
  | buyRollbackFailed short => exact hkept
  | correctionFailed excess legs =>
    cases excess with
    | korean => exact hkept
    | foreign => exact hkept
  | mismatched legs correction => exact hkept
  | matched hedged correction =>
    obtain ⟨hfilled, buy, fills, hhedge, hmatch⟩ := openSplit_matched hsplit
    simp only [afterOpen, bookEntry_ledger, hledger]
    exact .opened short buy hedged correction fills _ hshort hfilled hhedge hmatch

/-- The exit branch books what its legs close and nothing else. -/
theorem afterClose_move {c : Call} {x : IterationInput} {q : Quotes}
    {legs : CloseLegs × List Fill} {s s' : LoopState} (hledger : s'.ledger = s.ledger)
    (hheld : 0 < s.ledger.heldAmount)
    (hbooked : bookedClose c s x = legsClose c.venues x.replies q legs.1) :
    LedgerMove c s x (afterClose c x q legs s').ledger := by
  have hkept : LedgerMove c s x s'.ledger := by
    rw [hledger]
    exact .kept
  obtain ⟨outcome, fills⟩ := legs
  cases outcome with
  | coverFailed => exact hkept
  | retriesFailed cover => exact hkept
  | retrySold cover sale =>
    have hmove := fun splitPnl => LedgerMove.closed _ splitPnl hheld hbooked
    rw [← hledger] at hmove
    simp only [afterClose, afterRetry]
    split_ifs
    · exact hmove _
    · exact hmove _
  | sold cover sale =>
    simp only [afterClose, afterSale]
    cases hhedge : (hedgeClose c.venues x.replies q (closeFills q cover.order sale.order)).1 with
    | failed excess =>
      cases excess with
      | korean => exact hkept
      | foreign => exact hkept
    | done hedged correction =>
      dsimp only
      split_ifs with hmatch
      · simp only [legsClose, hhedge, hedgedClose, if_pos hmatch] at hbooked
        have hclosed := fun splitPnl => LedgerMove.closed _ splitPnl hheld hbooked
        have hcompleted := fun splitPnl => LedgerMove.completed _ splitPnl hheld hbooked
        rw [← hledger] at hclosed hcompleted
        simp only [bookExit]
        split_ifs
        · exact hclosed _
        · exact hcompleted _
      · exact hkept

/-- Every iteration moves the ledger as one of its branches books it. -/
theorem loopStep_move (c : Call) (s : LoopState) (x : IterationInput) :
    LedgerMove c s x (loopStep c s x).ledger := by
  unfold loopStep
  split_ifs with hrunning
  · unfold iterate
    dsimp only
    cases hquotes : iterationQuotes c x.market s.ledger.heldAmount with
    | none => exact .kept
    | some q =>
      simp only [trade]
      cases hbranch : branch c q s.ledger with
      | entry coinAmount =>
        have hshort : submittedShort c s x = some ⟨x.market, q, coinAmount⟩ :=
          submittedShort_eq_some_iff.mpr ⟨hrunning, rfl, hquotes, hbranch⟩
        exact afterOpen_move hshort rfl
      | exit coinAmount =>
        refine afterClose_move ?_ (heldAmount_pos_of_exit hbranch) ?_
        · rfl
        · simp only [bookedClose, if_pos hrunning, hquotes, hbranch]
      | wait => exact .kept
  · exact .kept

/-- An iteration closes no negative quantity. -/
theorem bookedClose_nonneg {c : Call} {s : LoopState} {x : IterationInput} {covered : ℚ}
    (h : bookedClose c s x = some covered) : 0 ≤ covered := by
  unfold bookedClose at h
  split_ifs at h
  split at h
  · cases h
  · split at h
    · cases h
    · exact legsClose_nonneg h
    · cases h

/-! ## Runs -/

/-- One iteration keeps the notional within the size. -/
theorem loopStep_withinSize {c : Call} {s : LoopState} {x : IterationInput}
    (hs : WithinSize c.positionSizeUsd s.ledger) (hopens : OpensWithinRequest c s x)
    (hcloses : ClosesWithinHeld c s x) :
    WithinSize c.positionSizeUsd (loopStep c s x).ledger := by
  have hmove := loopStep_move c s x
  generalize (loopStep c s x).ledger = l at hmove ⊢
  cases hmove with
  | kept => exact hs
  | opened short buy hedged correction fills adjustment hshort hfilled hhedge hmatch =>
    obtain ⟨-, -, -, hbranch⟩ := submittedShort_eq_some_iff.mp hshort
    obtain ⟨hbid, -, hsize⟩ := entry_sizing hbranch
    obtain ⟨hqty, hprice⟩ := hopens short hshort hfilled
    exact addSplit_withinSize hs hbid hsize hqty hprice hhedge hmatch
  | closed covered splitPnl hheld hbooked =>
    exact closeSplit_withinSize hs hheld (bookedClose_nonneg hbooked) (hcloses _ hbooked) splitPnl
  | completed covered splitPnl hheld hbooked =>
    exact resetCycle_withinSize
      (closeSplit_withinSize hs hheld (bookedClose_nonneg hbooked) (hcloses _ hbooked) splitPnl)

/-- Over every run the open notional stays between zero and the configured size.  The position
that the loop takes over is one that a scan found or a loop saved, of nonnegative value. -/
theorem foreignValue_withinSize (c : Call) (initial : Option Position) (now : Timestamp)
    (tracker : PositionTracker) (xs : List IterationInput)
    (hvalue : ∀ p ∈ initial, 0 ≤ p.foreignEntryPrice * p.foreignAmount)
    (hstart : (initialState c initial now tracker).ledger.totalForeignValue ≤ c.positionSizeUsd)
    (hrun : Along (fun s x => OpensWithinRequest c s x ∧ ClosesWithinHeld c s x) (loopStep c)
      (initialState c initial now tracker) xs) :
    WithinSize c.positionSizeUsd
      (entryLoop c (initialState c initial now tracker) xs).ledger := by
  have hfirst : WithinSize c.positionSizeUsd (initialState c initial now tracker).ledger := by
    refine ⟨?_, hstart⟩
    cases initial with
    | none => exact le_refl 0
    | some p => exact hvalue p rfl
  have hstep : ∀ s x, WithinSize c.positionSizeUsd s.ledger →
      OpensWithinRequest c s x ∧ ClosesWithinHeld c s x →
      WithinSize c.positionSizeUsd (loopStep c s x).ledger := by
    rintro s x hs ⟨hopens, hcloses⟩
    exact loopStep_withinSize hs hopens hcloses
  exact invariant (fun s => WithinSize c.positionSizeUsd s.ledger) hstep xs _ hfirst hrun

/-- Two splits, an exit, and an exit whose sale is refused once. -/
def splitsAndExits : List IterationInput :=
  [splitAt 1000, splitAt 1500,
    { market := sampleMarket 1500
      replies := legReplies (executingForeign 35 1) (executingKorean .done 35 1500) },
    { market := sampleMarket 1500
      replies :=
        { legReplies (executingForeign 35 1) rejectingKorean with
          retries := fun _ => executingKorean .done 35 1500 } }]

/-- A call of several splits and exits stays within 3000 USDT. -/
theorem foreignValue_withinSize_splitsAndExits :
    WithinSize 3000 (entryLoop (sampleCall .bithumb .bybit)
      (initialState (sampleCall .bithumb .bybit) none 0 .empty) splitsAndExits).ledger := by
  refine foreignValue_withinSize (sampleCall .bithumb .bybit) none 0 .empty splitsAndExits ?_ ?_ ?_
  · intro p hp
    cases hp
  · decide +kernel
  · refine ⟨?_, ?_, ?_, ?_, trivial⟩ <;>
      (simp only [OpensWithinRequest, ClosesWithinHeld]; decide +kernel)

end SpotRelay.Analysis
