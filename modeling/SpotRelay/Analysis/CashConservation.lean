import SpotRelay.Analysis.LoopFrames
import SpotRelay.Interface.TruthfulVenue
import SpotRelay.Library.AverageCost
import SpotRelay.Library.Run

/-!
# The money of the entry loop

`realized_pnl_krw - total_korean_cost + r * total_foreign_value` is what the loop's books say
the account is worth in cash.  At a constant rate, with reported prices and exactly matched
legs, every branch moves it by exactly the cash that changed hands, so at every loop head it
is the net cash flow of the cycle, and the P&L of a completed cycle is that cash flow.

* **the books**: `equity` is what the ledger says, and a booked pair of legs moves it by its cash
  (`equity_closed`, `equity_retried`).
* **one iteration** keeps the books in step with the orders' cash (`iterate_balanced`), because each
  of the two branches does (`afterOpen_balanced`, `afterClose_balanced`).
-/

set_option autoImplicit false

namespace SpotRelay.Analysis

open SpotRelay.Model SpotRelay.Interface
open SpotRelay.Library.Run SpotRelay.Library.RunningTotal SpotRelay.Library.AverageCost

/-! ## Cash of a split -/

variable {v : Venues} {r : SplitReplies} {q : Quotes}

/-- A correction's P&L only looks at the prices of the split. -/
theorem entryAdjustmentPnlKrw_congr {legs hedged : LegFills}
    (hk : hedged.koreanPrice = legs.koreanPrice) (hf : hedged.foreignPrice = legs.foreignPrice)
    (rate : ℚ) (correction : Option Correction) :
    entryAdjustmentPnlKrw hedged rate correction = entryAdjustmentPnlKrw legs rate correction := by
  rcases correction with - | ⟨leg, qty, price⟩
  · rfl
  · cases leg
    · simp only [entryAdjustmentPnlKrw, hk]
    · simp only [entryAdjustmentPnlKrw, hf]

/-- The cash of the two legs of an opening split, before its correction. -/
theorem cash_openLegs {short buy : Fill} (hshort : OnSide .foreign .sell short.trades)
    (hbuy : OnSide .korean .buy buy.trades) (hsshort : Sound short) (hsbuy : Sound buy)
    (hdshort : short.done = true) (hdbuy : buy.done = true) (rate : ℚ) :
    tally (cash rate) [short, buy] =
      (openLegs q short.order buy.order).foreignQty * (openLegs q short.order buy.order).foreignPrice
          * rate
        - (openLegs q short.order buy.order).koreanQty
          * (openLegs q short.order buy.order).koreanPrice := by
  have hcashShort := sum_of_done hshort hsshort hdshort (cash rate)
  have hcashBuy := sum_of_done hbuy hsbuy hdbuy (cash rate)
  simp only [tally_cons, tally_nil, hcashShort, hcashBuy, openLegs, cash, signedQty,
    resolvedFillPrice_of_done hsshort hdshort, resolvedFillPrice_of_done hsbuy hdbuy]
  ring

/-- The cash of an opening split after its correction: the corrected legs at the split's own
prices, and the correction's P&L. -/
theorem cash_opened {short buy : Fill} {hedged : LegFills} {correction : Option Correction}
    {fills : List Fill} (hshort : OnSide .foreign .sell short.trades)
    (hbuy : OnSide .korean .buy buy.trades) (hsound : ∀ f ∈ short :: buy :: fills, Sound f)
    (hdshort : short.done = true) (hdbuy : buy.done = true)
    (hhedge : hedgeOpen v r q (openLegs q short.order buy.order) = (.done hedged correction, fills))
    (rate : ℚ) :
    tally (cash rate) (short :: buy :: fills) =
      entryAdjustmentPnlKrw hedged rate correction - hedged.koreanQty * hedged.koreanPrice
        + hedged.foreignQty * hedged.foreignPrice * rate := by
  have hcorr := hedgeOpen_done hhedge (fun f hf => hsound f (by simp [hf])) rate
  have hlegs := cash_openLegs (q := q) hshort hbuy (hsound short (by simp)) (hsound buy (by simp))
    hdshort hdbuy rate
  have hsplit : tally (cash rate) (short :: buy :: fills) =
      tally (cash rate) [short, buy] + tally (cash rate) fills := by
    simp only [tally_cons, tally_nil]
    ring
  rw [hsplit, hlegs, hcorr.cash, entryAdjustmentPnlKrw_congr hcorr.koreanPrice hcorr.foreignPrice,
    hcorr.koreanPrice, hcorr.foreignPrice]
  ring

/-- The cash of the two legs of a closing split, before its correction. -/
theorem cash_closeFills {cover sale : Fill} (hcover : OnSide .foreign .buy cover.trades)
    (hsale : OnSide .korean .sell sale.trades) (hscover : Sound cover) (hssale : Sound sale)
    (hdcover : cover.done = true) (hdsale : sale.done = true) (rate : ℚ) (l : Ledger) :
    tally (cash rate) [cover, sale] =
      splitPnlKrw l (closeFills q cover.order sale.order) rate
        + l.avgKoreanEntry * (closeFills q cover.order sale.order).koreanQty
        - l.avgForeignEntry * (closeFills q cover.order sale.order).foreignQty * rate := by
  have hcashCover := sum_of_done hcover hscover hdcover (cash rate)
  have hcashSale := sum_of_done hsale hssale hdsale (cash rate)
  simp only [tally_cons, tally_nil, hcashCover, hcashSale, closeFills, splitPnlKrw, cash, signedQty,
    resolvedFillPrice_of_done hscover hdcover, resolvedFillPrice_of_done hssale hdsale]
  ring

/-- The cash of a closing split after its correction: the split's P&L, and the corrected legs
at the average entry prices. -/
theorem cash_closed {cover sale : Fill} {hedged : LegFills} {correction : Option Correction}
    {fills : List Fill} (hcover : OnSide .foreign .buy cover.trades)
    (hsale : OnSide .korean .sell sale.trades) (hsound : ∀ f ∈ cover :: sale :: fills, Sound f)
    (hdcover : cover.done = true) (hdsale : sale.done = true)
    (hhedge : hedgeClose v r q (closeFills q cover.order sale.order) =
      (.done hedged correction, fills)) (rate : ℚ) (l : Ledger) :
    tally (cash rate) (cover :: sale :: fills) =
      splitPnlKrw l (closeFills q cover.order sale.order) rate
        + exitAdjustmentPnlKrw l rate correction
        + l.avgKoreanEntry * hedged.koreanQty - l.avgForeignEntry * hedged.foreignQty * rate := by
  have hcorr := hedgeClose_done hhedge (fun f hf => hsound f (by simp [hf])) rate l
  have hlegs := cash_closeFills (q := q) hcover hsale (hsound cover (by simp))
    (hsound sale (by simp)) hdcover hdsale rate l
  have hsplit : tally (cash rate) (cover :: sale :: fills) =
      tally (cash rate) [cover, sale] + tally (cash rate) fills := by
    simp only [tally_cons, tally_nil]
    ring
  rw [hsplit, hlegs, hcorr.cash]
  ring

/-! ## Equity -/

/-- What the books say the account is worth in cash. -/
def equity (rate : ℚ) (l : Ledger) : ℚ :=
  l.realizedPnlKrw - l.totalKoreanCost + rate * l.totalForeignValue

/-- Booking an opening split moves the equity by the booked quantity at the split's prices. -/
theorem equity_addSplit (rate : ℚ) (l : Ledger) (legs : LegFills) (adjustment : ℚ) :
    equity rate (l.addSplit legs adjustment) =
      equity rate l + adjustment
        - min legs.foreignQty legs.koreanQty * legs.koreanPrice
        + min legs.foreignQty legs.koreanQty * legs.foreignPrice * rate := by
  simp only [equity, Ledger.addSplit]
  ring

/-- Closing part of a position takes it out at the average entry prices. -/
theorem equity_closeSplit (rate : ℚ) {l : Ledger} (hheld : 0 < l.heldAmount)
    (quantity splitPnl : ℚ) :
    equity rate (l.closeSplit quantity splitPnl) =
      equity rate l + splitPnl + l.avgKoreanEntry * quantity
        - l.avgForeignEntry * quantity * rate := by
  have hkorean := reduceCost_eq l.totalKoreanCost l.heldAmount quantity
  have hforeign := reduceCost_eq l.totalForeignValue l.heldAmount quantity
  unfold reduceCost at hkorean hforeign
  simp only [equity, Ledger.closeSplit, Ledger.avgKoreanEntry, Ledger.avgForeignEntry, hheld,
    if_true, hkorean, hforeign]
  ring

/-- A position that is closed completely leaves nothing but its P&L. -/
theorem equity_closeSplit_all (rate : ℚ) {l : Ledger} (hheld : 0 < l.heldAmount)
    (splitPnl : ℚ) :
    equity rate (l.closeSplit l.heldAmount splitPnl) = l.realizedPnlKrw + splitPnl := by
  have hkorean := reduceCost_self l.totalKoreanCost hheld.ne'
  have hforeign := reduceCost_self l.totalForeignValue hheld.ne'
  unfold reduceCost at hkorean hforeign
  simp [equity, Ledger.closeSplit, hheld, hkorean, hforeign]

/-! ## Cycles -/

/-- Every completed cycle in the trace reports the cash flow of the cycle so far. -/
def CompletesAtCash (rate opening : ℚ) (events : List Event) : Prop :=
  ∀ before position pnl usdtRate after,
    events = before ++ .tradeComplete position pnl usdtRate :: after →
    pnl = cycleCash rate opening before

/-- Events that only report a position. -/
def OnlyUpdates (events : List Event) : Prop := ∀ e ∈ events, ∃ p, e = .positionUpdate p

/-- The cash of a trace is carried through its two parts. -/
theorem cycleCash_append (rate opening : ℚ) (es es' : List Event) :
    cycleCash rate opening (es ++ es') = cycleCash rate (cycleCash rate opening es) es' :=
  runningTotal_append opening es es'

/-- Position reports leave the cash of the cycle alone. -/
theorem cycleCash_updates (rate opening : ℚ) {es : List Event} (h : OnlyUpdates es) :
    cycleCash rate opening es = opening := by
  unfold cycleCash
  have hquiet : ∀ e ∈ es, endsCycle e = false ∧ eventTally (cash rate) e = 0 := by
    intro e he
    obtain ⟨p, rfl⟩ := h e he
    exact ⟨rfl, rfl⟩
  rw [runningTotal_of_no_mark opening es fun e he => (hquiet e he).1]
  have hsum : (es.map (eventTally (cash rate))).sum = 0 := by
    apply List.sum_eq_zero
    intro y hy
    obtain ⟨e, he, rfl⟩ := List.mem_map.mp hy
    exact (hquiet e he).2
  rw [hsum, add_zero]

/-- A batch of orders moves the cash by what its fills paid and earned. -/
theorem cycleCash_orders (rate opening : ℚ) (fills : List Fill) :
    cycleCash rate opening [.orders fills] = opening + tally (cash rate) fills := rfl

/-- Appending events keeps the law when the appended completions respect it. -/
theorem CompletesAtCash.append {rate opening : ℚ} {es es' : List Event}
    (h : CompletesAtCash rate opening es)
    (h' : CompletesAtCash rate (cycleCash rate opening es) es') :
    CompletesAtCash rate opening (es ++ es') := by
  intro before position pnl usdtRate after heq
  rcases List.append_eq_append_iff.mp heq with ⟨mid, hbefore, hafter⟩ | ⟨mid, hes, hafter⟩
  · rw [hbefore, cycleCash_append]
    exact h' mid position pnl usdtRate after hafter
  · cases mid with
    | nil =>
      simp only [List.append_nil] at hes
      rw [← hes]
      exact h' [] position pnl usdtRate after (by simpa using hafter.symm)
    | cons e mid =>
      simp only [List.cons_append, List.cons.injEq] at hafter
      obtain ⟨rfl, -⟩ := hafter
      exact h before position pnl usdtRate mid hes

/-- A trace without completions respects the law. -/
theorem completesAtCash_of_none {rate opening : ℚ} {es : List Event}
    (h : ∀ position pnl usdtRate, .tradeComplete position pnl usdtRate ∉ es) :
    CompletesAtCash rate opening es := by
  intro before position pnl usdtRate after heq
  exact absurd (by simp [heq]) (h position pnl usdtRate)

/-- A position report holds position updates and nothing else. -/
theorem reportPosition_onlyUpdates (c : Call) (p : Option Position) :
    OnlyUpdates (reportPosition c p) := by
  intro e he
  unfold reportPosition at he
  split_ifs at he
  · exact ⟨p, by simpa using he⟩
  · cases he

/-- Among position updates there is no completed trade. -/
theorem OnlyUpdates.no_completion {es : List Event} (h : OnlyUpdates es) (position : Position)
    (pnl usdtRate : ℚ) : .tradeComplete position pnl usdtRate ∉ es := by
  intro hmem
  obtain ⟨p, hp⟩ := h _ hmem
  cases hp

/-- The law of the money: the books agree with the cash of the cycle, and so did every
completed cycle. -/
structure CashBalanced (rate opening : ℚ) (s : LoopState) : Prop where
  equity : equity rate s.ledger = cycleCash rate opening s.events
  completes : CompletesAtCash rate opening s.events

/-- A step within a cycle keeps the law when the equity moves by the cash of its orders. -/
theorem CashBalanced.within {rate opening : ℚ} {s s' : LoopState} (fills : List Fill)
    (updates : List Event) (h : CashBalanced rate opening s)
    (hequity : SpotRelay.Analysis.equity rate s'.ledger =
      SpotRelay.Analysis.equity rate s.ledger + tally (cash rate) fills)
    (hevents : s'.events = s.events ++ (.orders fills :: updates)) (hu : OnlyUpdates updates) :
    CashBalanced rate opening s' := by
  have hsplit : s'.events = (s.events ++ [.orders fills]) ++ updates := by simp [hevents]
  constructor
  · rw [hsplit, cycleCash_append, cycleCash_append, cycleCash_updates _ _ hu, cycleCash_orders,
      ← h.equity, hequity]
  · rw [hsplit]
    refine (h.completes.append ?_).append ?_
    · exact completesAtCash_of_none (by simp)
    · exact completesAtCash_of_none hu.no_completion

/-! ## The hypotheses of the law -/

/-- An opening split either did not start or ended with equal legs. -/
def OpenEqual (outcome : OpenSplit) : Prop :=
  match outcome with
  | .shortFailed => True
  | .matched legs _ => legs.foreignQty = legs.koreanQty
  | _ => False

/-- A sale that was reported `Filled` ended with equal legs, of at most what is held. -/
def SaleEqual (l : Ledger) (hedge : Hedge) : Prop :=
  match hedge with
  | .done hedged _ => hedged.foreignQty = hedged.koreanQty ∧ hedged.koreanQty ≤ l.heldAmount
  | .failed _ => False

/-- Every order of the opening split is known for what it is, and its legs are equal. -/
def OpenExact (outcome : OpenSplit) (fills : List Fill) : Prop :=
  (∀ f ∈ fills, Sound f) ∧ OpenEqual outcome

/-- The same for a closing split, which in addition closes at most what is held. -/
def CloseExact (v : Venues) (r : SplitReplies) (q : Quotes) (l : Ledger) (legs : CloseLegs)
    (fills : List Fill) : Prop :=
  (∀ f ∈ fills, Sound f) ∧
    match legs with
    | .coverFailed => True
    | .sold cover sale =>
      let hedge := hedgeClose v r q (closeFills q cover.order sale.order)
      (∀ f ∈ hedge.2, Sound f) ∧ SaleEqual l hedge.1
    | .retrySold cover sale =>
      sale.done = true ∧ resolvedFillQuantity sale.order = resolvedFillQuantity cover.order ∧
        resolvedFillQuantity cover.order ≤ l.heldAmount
    | .retriesFailed _ => False

/-- The hypotheses on the trades of an iteration. -/
def TradeExact (c : Call) (x : IterationInput) (q : Quotes) (l : Ledger) : Prop :=
  match branch c q l with
  | .entry coinAmount =>
    let split := openSplit c.venues x.replies q coinAmount
    OpenExact split.1 split.2
  | .exit coinAmount =>
    let legs := closeLegs c.venues x.replies coinAmount
    CloseExact c.venues x.replies q l legs.1 legs.2
  | .wait => True

/-- The hypotheses on one iteration: the rate is `rate`, and its trades are exact. -/
def Exact (rate : ℚ) (c : Call) (s : LoopState) (x : IterationInput) : Prop :=
  iterationRate c x.market = rate ∧
    match iterationQuotes c x.market s.ledger.heldAmount with
    | none => True
    | some q => TradeExact c x q s.ledger

section Decidability

instance (outcome : OpenSplit) : Decidable (OpenEqual outcome) :=
  match outcome with
  | .shortFailed => isTrue trivial
  | .minOrderRolledBack _ _ => isFalse id
  | .minOrderRollbackFailed _ => isFalse id
  | .buyRolledBack _ _ => isFalse id
  | .buyRollbackFailed _ => isFalse id
  | .correctionFailed _ _ => isFalse id
  | .mismatched _ _ => isFalse id
  | .matched _ _ => inferInstanceAs (Decidable (_ = _))

instance (l : Ledger) (hedge : Hedge) : Decidable (SaleEqual l hedge) :=
  match hedge with
  | .done _ _ => inferInstanceAs (Decidable (_ ∧ _))
  | .failed _ => isFalse id

instance (outcome : OpenSplit) (fills : List Fill) : Decidable (OpenExact outcome fills) :=
  inferInstanceAs (Decidable (_ ∧ _))

instance (v : Venues) (r : SplitReplies) (q : Quotes) (l : Ledger) (legs : CloseLegs)
    (fills : List Fill) : Decidable (CloseExact v r q l legs fills) :=
  match legs with
  | .coverFailed => inferInstanceAs (Decidable (_ ∧ True))
  | .sold _ _ => inferInstanceAs (Decidable (_ ∧ _ ∧ _))
  | .retrySold _ _ => inferInstanceAs (Decidable (_ ∧ _ ∧ _ ∧ _))
  | .retriesFailed _ => inferInstanceAs (Decidable (_ ∧ False))

instance (c : Call) (x : IterationInput) (q : Quotes) (l : Ledger) :
    Decidable (TradeExact c x q l) := by
  unfold TradeExact
  generalize branch c q l = branch
  exact match branch with | .entry _ | .exit _ | .wait => inferInstance

instance (rate : ℚ) (c : Call) (s : LoopState) (x : IterationInput) :
    Decidable (Exact rate c s x) := by
  unfold Exact
  generalize iterationQuotes c x.market s.ledger.heldAmount = quotes
  exact match quotes with | none | some _ => inferInstance

end Decidability

/-- The quotes of an iteration carry the rate it read. -/
theorem iterationQuotes_rate {c : Call} {m : MarketView} {heldAmount : ℚ} {q : Quotes}
    (h : iterationQuotes c m heldAmount = some q) : q.usdtRate = iterationRate c m := by
  simp only [iterationQuotes] at h
  split_ifs at h
  all_goals
    simp only [Option.some.injEq] at h
    rw [← h]

/-! ## The two branches -/

/-- Booking matched entry legs that are equal moves the equity by their cash. -/
theorem equity_matched {short buy : Fill} {hedged : LegFills} {correction : Option Correction}
    {fills : List Fill} (hshort : OnSide .foreign .sell short.trades)
    (hbuy : OnSide .korean .buy buy.trades) (hsound : ∀ f ∈ short :: buy :: fills, Sound f)
    (hdshort : short.done = true) (hdbuy : buy.done = true)
    (hhedge : hedgeOpen v r q (openLegs q short.order buy.order) = (.done hedged correction, fills))
    (hequal : hedged.foreignQty = hedged.koreanQty) (rate : ℚ) (l : Ledger) :
    equity rate (l.addSplit hedged (entryAdjustmentPnlKrw hedged rate correction)) =
      equity rate l + tally (cash rate) (short :: buy :: fills) := by
  rw [equity_addSplit, cash_opened hshort hbuy hsound hdshort hdbuy hhedge rate, hequal, min_self]
  ring

/-- After an entry split the ledger's cash is the cash the fills moved. -/
theorem afterOpen_balanced {c : Call} {x : IterationInput} {rate opening : ℚ} {s : LoopState}
    {outcome : OpenSplit} {fills : List Fill} (hrate : q.usdtRate = rate)
    (hs : CashBalanced rate opening s) (hsent : OpenSent c.venues x.replies q outcome fills)
    (hexact : OpenExact outcome fills) :
    CashBalanced rate opening (afterOpen c q outcome (s.emit [.orders fills])) := by
  obtain ⟨hsound, hend⟩ := hexact
  cases hsent with
  | shortFailed coinAmount hd =>
    have hcash : tally (cash rate) [(openShortLeg c.venues x.replies coinAmount).toFill] = 0 := by
      apply tally_of_notDone _ (cash_of_zero rate)
      intro f hf
      refine ⟨hsound f hf, ?_⟩
      rw [List.mem_singleton] at hf
      simp [hf, Placed.toFill, hd]
    refine hs.within _ [] ?_ rfl (by intro e he; cases he)
    rw [hcash, add_zero]
    rfl
  | matched coinAmount krwAmount hedged correction cfills hshort hbuy hhedge hmatch =>
    obtain ⟨p, hevents⟩ := bookEntry_events c q (s.emit [.orders
      (openShortFill c.venues x.replies coinAmount ::
        openBuyFill c.venues x.replies krwAmount :: cfills)]) hedged correction
    refine hs.within (openShortFill c.venues x.replies coinAmount ::
      openBuyFill c.venues x.replies krwAmount :: cfills) (reportPosition c p) ?_ ?_
      (reportPosition_onlyUpdates c p)
    · have hbooked := equity_matched (openShortFill_onSide coinAmount) (openBuyFill_onSide krwAmount)
        hsound hshort hbuy hhedge hend rate s.ledger
      rw [← hrate] at hbooked ⊢
      exact hbooked
    · exact hevents.trans (by simp)
  | _ => exact absurd hend id

/-- Booking a full exit ends the cycle at its cash flow and starts the next one at zero. -/
theorem CashBalanced.completed {rate opening : ℚ} {s s' : LoopState} (fills : List Fill)
    (updates : List Event) (callback : Bool) (completed : Position) (pnl usdtRate : ℚ)
    (h : CashBalanced rate opening s)
    (hpnl : pnl = SpotRelay.Analysis.equity rate s.ledger + tally (cash rate) fills)
    (hzero : SpotRelay.Analysis.equity rate s'.ledger = 0)
    (hevents : s'.events = s.events ++ (.orders fills :: updates) ++
      ((if callback then [.tradeComplete completed pnl usdtRate] else []) ++ [.cycleReset]))
    (hu : OnlyUpdates updates) : CashBalanced rate opening s' := by
  have hbefore : cycleCash rate opening (s.events ++ (.orders fills :: updates)) = pnl := by
    have hsplit : s.events ++ (.orders fills :: updates) =
        (s.events ++ [.orders fills]) ++ updates := by simp
    rw [hsplit, cycleCash_append, cycleCash_append, cycleCash_updates _ _ hu, cycleCash_orders,
      ← h.equity, hpnl]
  have hcompletes : CompletesAtCash rate opening (s.events ++ (.orders fills :: updates)) := by
    refine h.completes.append (completesAtCash_of_none ?_)
    intro position pnl usdtRate hmem
    rcases List.mem_cons.mp hmem with heq | hmem
    · cases heq
    · exact hu.no_completion _ _ _ hmem
  constructor
  · rw [hevents, cycleCash_append, hzero]
    cases callback <;> rfl
  · rw [hevents]
    refine hcompletes.append ?_
    rw [hbefore]
    intro before position pnl' usdtRate' after heq
    -- the only completion of the suffix is its first event
    cases callback with
    | false =>
      cases before with
      | nil => simp at heq
      | cons e rest => simp at heq
    | true =>
      cases before with
      | nil =>
        simp only [if_true, List.cons_append, List.nil_append, List.cons.injEq,
          Event.tradeComplete.injEq] at heq
        exact heq.1.2.1.symm
      | cons e rest =>
        cases rest with
        | nil => simp at heq
        | cons e' rest => simp at heq

/-- Closing matched exit legs that are equal moves the equity by their cash. -/
theorem equity_closed {cover sale : Fill} {hedged : LegFills} {correction : Option Correction}
    {fills : List Fill} (hcover : OnSide .foreign .buy cover.trades)
    (hsale : OnSide .korean .sell sale.trades) (hsound : ∀ f ∈ cover :: sale :: fills, Sound f)
    (hdcover : cover.done = true) (hdsale : sale.done = true)
    (hhedge : hedgeClose v r q (closeFills q cover.order sale.order) =
      (.done hedged correction, fills))
    (hequal : hedged.foreignQty = hedged.koreanQty) (rate : ℚ) {l : Ledger}
    (hheld : 0 < l.heldAmount) :
    equity rate (l.closeSplit (min hedged.foreignQty hedged.koreanQty)
        (splitPnlKrw l (closeFills q cover.order sale.order) rate
          + exitAdjustmentPnlKrw l rate correction)) =
      equity rate l + tally (cash rate) (cover :: sale :: fills) := by
  rw [equity_closeSplit rate hheld, cash_closed hcover hsale hsound hdcover hdsale hhedge rate l,
    hequal, min_self]
  ring

/-- An exit split whose first sale was reported `Filled`. -/
theorem afterSale_balanced {c : Call} {x : IterationInput} {rate opening : ℚ} {s : LoopState}
    {cover sale : Fill} (hrate : q.usdtRate = rate) (hheld : 0 < s.ledger.heldAmount)
    (hs : CashBalanced rate opening s) (hcover : OnSide .foreign .buy cover.trades)
    (hsale : OnSide .korean .sell sale.trades) (hdcover : cover.done = true)
    (hdsale : sale.done = true)
    (hexact : CloseExact c.venues x.replies q s.ledger (.sold cover sale) [cover, sale]) :
    CashBalanced rate opening (afterClose c x q (.sold cover sale, [cover, sale]) s) := by
  obtain ⟨⟨hedge, cfills⟩, hhedge⟩ :
      ∃ h, hedgeClose c.venues x.replies q (closeFills q cover.order sale.order) = h := ⟨_, rfl⟩
  obtain ⟨hlegs, hcorrections, hend⟩ := hexact
  rw [hhedge] at hcorrections hend
  simp only [afterClose, hhedge]
  cases hedge with
  | failed excess => exact absurd hend id
  | done hedged correction =>
    obtain ⟨hequal, hle⟩ := hend
    have hmatch : quantitiesMatch hedged.foreignQty hedged.koreanQty = true := by
      rw [hequal]
      exact quantitiesMatch_self _
    have hsound : ∀ f ∈ cover :: sale :: cfills, Sound f := by
      intro f hf
      rcases List.mem_cons.mp hf with rfl | hf'
      · exact hlegs _ (by simp)
      rcases List.mem_cons.mp hf' with rfl | hf''
      · exact hlegs _ (by simp)
      · exact hcorrections f hf''
    have hequity := equity_closed hcover hsale hsound hdcover hdsale hhedge hequal rate hheld
    simp only [afterSale, emit_ledger, hmatch, if_true]
    rw [hrate]
    by_cases hleft : 0 < (s.ledger.closeSplit (min hedged.foreignQty hedged.koreanQty)
        (splitPnlKrw s.ledger (closeFills q cover.order sale.order) rate
          + exitAdjustmentPnlKrw s.ledger rate correction)).heldAmount
    · obtain ⟨hledger, p, hevents⟩ := bookExit_partial c x q
        (s.emit [.orders ([cover, sale] ++ cfills)]) hedged _ hleft
      refine hs.within (cover :: sale :: cfills) (reportPosition c p) ?_ ?_
        (reportPosition_onlyUpdates c p)
      · rw [hledger]
        exact hequity
      · exact hevents.trans (by simp)
    · obtain ⟨hledger, completed, hevents⟩ := bookExit_full c x q
        (s.emit [.orders ([cover, sale] ++ cfills)]) hedged _ hleft
      have hall : min hedged.foreignQty hedged.koreanQty = s.ledger.heldAmount := by
        simp only [Ledger.closeSplit, sub_pos, not_lt] at hleft
        rw [hequal, min_self] at hleft ⊢
        exact le_antisymm hle hleft
      refine hs.completed (cover :: sale :: cfills) (reportPosition c none) c.hasTradeCallback
        completed (s.ledger.realizedPnlKrw
          + (splitPnlKrw s.ledger (closeFills q cover.order sale.order) rate
            + exitAdjustmentPnlKrw s.ledger rate correction)) q.usdtRate ?_ ?_
        (hevents.trans (by simp)) (reportPosition_onlyUpdates c none)
      · rw [← hequity, hall, equity_closeSplit_all rate hheld]
      · rw [hledger]
        simp [equity, Ledger.resetCycle]

/-- Booking a retried sale moves the equity by the cash of the cover and the sale. -/
theorem equity_retried {cover sale : Fill} (hcover : OnSide .foreign .buy cover.trades)
    (hsale : OnSide .korean .sell sale.trades) (hscover : Sound cover) (hssale : Sound sale)
    (hdcover : cover.done = true) (hdsale : sale.done = true)
    (hequal : resolvedFillQuantity sale.order = resolvedFillQuantity cover.order) (rate : ℚ)
    {l : Ledger} (hheld : 0 < l.heldAmount) :
    equity rate (l.closeSplit (resolvedFillQuantity cover.order)
        (splitPnlKrw l
          { koreanQty := resolvedFillQuantity cover.order
            foreignQty := resolvedFillQuantity cover.order
            koreanPrice := resolvedFillPrice sale.order q.koreanBid
            foreignPrice := resolvedFillPrice cover.order q.foreignAsk } rate)) =
      equity rate l + tally (cash rate) [cover, sale] := by
  rw [equity_closeSplit rate hheld,
    cash_closeFills (q := q) hcover hsale hscover hssale hdcover hdsale rate l]
  simp only [closeFills, splitPnlKrw, hequal]
  ring

/-- After an exit split the ledger's cash is the cash the fills moved. -/
theorem afterClose_balanced {c : Call} {x : IterationInput} {rate opening : ℚ} {s : LoopState}
    {legs : CloseLegs} {fills : List Fill} (hrate : q.usdtRate = rate)
    (hheld : 0 < s.ledger.heldAmount) (hs : CashBalanced rate opening s)
    (hsent : CloseSent c.venues x.replies legs fills)
    (hexact : CloseExact c.venues x.replies q s.ledger legs fills) :
    CashBalanced rate opening (afterClose c x q (legs, fills) s) := by
  cases hsent with
  | coverFailed coinAmount hd =>
    have hcash : tally (cash rate) [(closeCoverLeg c.venues x.replies coinAmount).toFill] = 0 := by
      apply tally_of_notDone _ (cash_of_zero rate)
      intro f hf
      refine ⟨hexact.1 f hf, ?_⟩
      rw [List.mem_singleton] at hf
      simp [hf, Placed.toFill, hd]
    refine hs.within [(closeCoverLeg c.venues x.replies coinAmount).toFill] [] ?_ rfl
      (by intro e he; cases he)
    rw [hcash, add_zero]
    rfl
  | sold coinAmount quantity hcover hsale =>
    exact afterSale_balanced hrate hheld hs (closeCoverFill_onSide coinAmount)
      (closeSellFill_onSide _ quantity) hcover hsale hexact
  | retrySold coinAmount quantity sale failed i hcover hside hd =>
    obtain ⟨hsound, hdone, hequal, hle⟩ := hexact
    have hstatus : (closeSellFill c.venues (x.replies.retries i) quantity).order.status =
        .filled := by
      simpa [closeSellFill, Placed.toFill] using hdone
    have hidle : tally (cash rate) (sale :: failed) = 0 := by
      apply tally_of_notDone _ (cash_of_zero rate)
      intro f hf
      exact ⟨hsound f (by simp at hf ⊢; tauto), hd f hf⟩
    have hbooked := equity_retried (q := q) (closeCoverFill_onSide coinAmount)
      (closeSellFill_onSide (x.replies.retries i) quantity) (hsound _ (by simp))
      (hsound _ (by simp)) hcover hdone hequal rate hheld
    refine hs.within (closeCoverFill c.venues x.replies coinAmount ::
      (sale :: failed ++ [closeSellFill c.venues (x.replies.retries i) quantity])) [] ?_ ?_
      (by intro e he; cases he)
    · simp only [afterClose, afterRetry, hstatus, ne_eq, not_true_eq_false, if_false, emit_ledger]
      rw [hrate, hbooked]
      simp only [tally_cons, tally_append, tally_nil, List.cons_append] at hidle ⊢
      linarith
    · simp only [afterClose, afterRetry, hstatus, ne_eq, not_true_eq_false, if_false, emit_events]
  | retriesFailed => exact absurd hexact.2 id

/-! ## Runs -/

/-- One iteration keeps the ledger's cash in step with the trace. -/
theorem iterate_balanced {c : Call} {rate opening : ℚ} {s : LoopState} {x : IterationInput}
    (hs : CashBalanced rate opening s) (hexact : Exact rate c s x) :
    CashBalanced rate opening (iterate c s x) := by
  have hs' : CashBalanced rate opening { s with lastUsdtRate := iterationRate c x.market } :=
    ⟨hs.equity, hs.completes⟩
  obtain ⟨hrate, hexact⟩ := hexact
  unfold iterate
  simp only
  cases hquotes : iterationQuotes c x.market s.ledger.heldAmount with
  | none => exact hs'
  | some q =>
    simp only [hquotes] at hexact ⊢
    have hqrate : q.usdtRate = rate := (iterationQuotes_rate hquotes).trans hrate
    unfold TradeExact at hexact
    cases hbranch : branch c q s.ledger with
    | entry coinAmount =>
      simp only [hbranch] at hexact
      simp only [trade, hbranch]
      exact afterOpen_balanced hqrate hs' (openSplit_sent _ _ _ _) hexact
    | exit coinAmount =>
      simp only [hbranch] at hexact
      simp only [trade, hbranch]
      exact afterClose_balanced hqrate (heldAmount_pos_of_exit hbranch) hs'
        (closeLegs_sent _ _ _) hexact
    | wait =>
      simp only [trade, hbranch]
      exact hs'

/-- At a constant rate, with exact trades, the books of the loop are the cash of the cycle at
every loop head, and every completed cycle reports the cash that it brought in. -/
theorem entryLoop_cashBalanced (c : Call) (initial : Option Position) (now : Timestamp)
    (tracker : PositionTracker) (rate : ℚ) (xs : List IterationInput)
    (hrun : Along (Exact rate c) (loopStep c) (initialState c initial now tracker) xs) :
    CashBalanced rate (equity rate (Ledger.ofInitial initial))
      (entryLoop c (initialState c initial now tracker) xs) := by
  refine invariant (CashBalanced rate (equity rate (Ledger.ofInitial initial))) ?_ xs _ ?_ hrun
  · intro s x hs hx
    unfold loopStep
    split_ifs
    · exact iterate_balanced hs hx
    · exact hs
  · exact ⟨rfl, completesAtCash_of_none (by simp [initialState])⟩

/-- An entry split of 35 coins and a full exit at a higher Korean price. -/
theorem entryLoop_cashBalanced_cycle :
    CashBalanced 1400 (equity 1400 (Ledger.ofInitial none))
      (entryLoop (sampleCall .bithumb .bybit)
        (initialState (sampleCall .bithumb .bybit) none 0 .empty)
        [{ market := sampleMarket 1000
           replies := legReplies (executingForeign 35 1) (executingKorean .done 35 1000) },
          { market := sampleMarket 1500
            replies := legReplies (executingForeign 35 1) (executingKorean .done 35 1500) }]) := by
  apply entryLoop_cashBalanced
  refine ⟨?_, ?_, trivial⟩ <;> decide +kernel

end SpotRelay.Analysis
