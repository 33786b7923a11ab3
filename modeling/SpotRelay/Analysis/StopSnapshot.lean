import SpotRelay.Analysis.CashConservation

/-!
# What a critical stop leaves behind

A critical stop persists a hand-built position.  It carries the cash of the cycle when the
stop is one of those that book what was executed: a short that could not be rolled back
after a failed buy, an entry correction that failed, legs that stay unequal.  A failed exit
correction drops the P&L of the legs that did execute, and a sale that fails five times drops
the P&L of its cover.

* **the books** carry the cost of what is held (`Carried`), so a snapshot of them carries the cash.
* **one iteration** whose fills are accounted for accounts for its stop (`iterate_accounted`), in
  either branch (`afterOpen_accounted`, `afterClose_accounted`).
-/

set_option autoImplicit false

namespace SpotRelay.Analysis

open SpotRelay.Model SpotRelay.Interface
open SpotRelay.Library.Run SpotRelay.Library.AverageCost

/-- What a position record says the account is worth in cash. -/
def positionEquity (rate : ℚ) (p : Position) : ℚ :=
  p.realizedPnlKrw - p.koreanAmount * p.koreanEntryPrice
    + rate * (p.foreignAmount * p.foreignEntryPrice)

/-! ## The carried cost -/

/-- The costs belong to coins that are held. -/
structure Carried (l : Ledger) : Prop where
  held_nonneg : 0 ≤ l.heldAmount
  korean : l.heldAmount = 0 → l.totalKoreanCost = 0
  foreign : l.heldAmount = 0 → l.totalForeignValue = 0

/-- The held amount at the average Korean price is the Korean cost. -/
theorem Carried.avgKorean {l : Ledger} (h : Carried l) :
    l.heldAmount * l.avgKoreanEntry = l.totalKoreanCost := by
  unfold Ledger.avgKoreanEntry
  split_ifs with hpos
  · exact mul_div_cancel₀ _ hpos.ne'
  · rw [mul_zero, h.korean (le_antisymm (not_lt.mp hpos) h.held_nonneg)]

/-- The held amount at the average foreign price is the foreign value. -/
theorem Carried.avgForeign {l : Ledger} (h : Carried l) :
    l.heldAmount * l.avgForeignEntry = l.totalForeignValue := by
  unfold Ledger.avgForeignEntry
  split_ifs with hpos
  · exact mul_div_cancel₀ _ hpos.ne'
  · rw [mul_zero, h.foreign (le_antisymm (not_lt.mp hpos) h.held_nonneg)]

/-- A booked split leaves costs carried by what is held. -/
theorem Carried.addSplit {l : Ledger} (h : Carried l) {legs : LegFills} (adjustment : ℚ)
    (hnonneg : 0 ≤ min legs.foreignQty legs.koreanQty) : Carried (l.addSplit legs adjustment) := by
  have hzero : l.heldAmount + min legs.foreignQty legs.koreanQty = 0 →
      l.heldAmount = 0 ∧ min legs.foreignQty legs.koreanQty = 0 := by
    intro hsum
    have hheld := h.held_nonneg
    constructor <;> linarith
  constructor
  · exact add_nonneg h.held_nonneg hnonneg
  · intro hsum
    obtain ⟨hheld, hmin⟩ := hzero hsum
    simp [Ledger.addSplit, h.korean hheld, hmin]
  · intro hsum
    obtain ⟨hheld, hmin⟩ := hzero hsum
    simp [Ledger.addSplit, h.foreign hheld, hmin]

/-- A booked exit within what is held leaves costs carried by what is held. -/
theorem Carried.closeSplit {l : Ledger} (hheld : 0 < l.heldAmount) {quantity : ℚ}
    (hle : quantity ≤ l.heldAmount) (splitPnl : ℚ) : Carried (l.closeSplit quantity splitPnl) := by
  constructor
  · exact sub_nonneg.mpr hle
  · intro hzero
    have hall : quantity = l.heldAmount := (sub_eq_zero.mp hzero).symm
    simp [Ledger.closeSplit, hheld, hall, div_self hheld.ne']
  · intro hzero
    have hall : quantity = l.heldAmount := (sub_eq_zero.mp hzero).symm
    simp [Ledger.closeSplit, hheld, hall, div_self hheld.ne']

/-- The end of a cycle leaves costs carried by what is held. -/
theorem Carried.resetCycle {l : Ledger} (h : Carried l) : Carried l.resetCycle :=
  ⟨h.held_nonneg, fun _ => rfl, fun _ => rfl⟩

/-- A matched position of a non-negative amount carries its costs. -/
theorem carried_ofInitial {initial : Option Position}
    (h : ∀ p, initial = some p → p.matched = true ∧ 0 ≤ p.koreanAmount) :
    Carried (Ledger.ofInitial initial) := by
  cases initial with
  | none => exact ⟨le_refl 0, fun _ => rfl, fun _ => rfl⟩
  | some p =>
    obtain ⟨hmatched, hnonneg⟩ := h p rfl
    refine ⟨hnonneg, ?_, ?_⟩
    · intro hzero
      have hk : p.koreanAmount = 0 := hzero
      simp [Ledger.ofInitial, hk]
    · intro hzero
      have hk : p.koreanAmount = 0 := hzero
      have hf : p.foreignAmount = 0 := by
        by_contra hne
        have hpos : 0 < |p.foreignAmount| := abs_pos.mpr hne
        unfold Position.matched quantitiesMatch at hmatched
        simp only [hk, abs_zero, zero_sub, abs_neg, max_eq_right hpos.le, not_le.mpr hpos, if_false,
          div_self hpos.ne', decide_eq_true_eq] at hmatched
        norm_num [TradingConfig.hedgeQuantityToleranceRatio] at hmatched
      simp [Ledger.ofInitial, hf]

/-! ## The four snapshots -/

variable {c : Call} {s : LoopState}

/-- The flag of a position does not change its equity. -/
@[simp] theorem flagActive_equity (rate : ℚ) (p : Position) :
    positionEquity rate p.flagActive = positionEquity rate p := rfl

/-- A short that stays open is recorded at its price. -/
theorem rollbackMismatch_equity (rate : ℚ) (h : Carried s.ledger) {actualFilled : ℚ}
    (hfilled : 0 ≤ actualFilled) (shortPrice : ℚ) :
    positionEquity rate (rollbackMismatch c s actualFilled shortPrice) =
      equity rate s.ledger + actualFilled * shortPrice * rate := by
  have hkorean := h.avgKorean
  have hforeign : (s.ledger.heldAmount + actualFilled) *
      (if 0 < s.ledger.heldAmount + actualFilled then
        (s.ledger.totalForeignValue + actualFilled * shortPrice)
          / (s.ledger.heldAmount + actualFilled) else 0) =
      s.ledger.totalForeignValue + actualFilled * shortPrice := by
    split_ifs with hpos
    · exact mul_div_cancel₀ _ hpos.ne'
    · have hheld := h.held_nonneg
      have hzero : s.ledger.heldAmount = 0 := by linarith
      have hnone : actualFilled = 0 := by linarith
      rw [h.foreign hzero, hnone]
      ring
  simp only [rollbackMismatch, flagActive_equity]
  simp only [positionEquity, hforeign, hkorean, equity]
  ring

/-- Unequal entry legs are recorded at the split's prices. -/
theorem entryMismatch_equity (rate : ℚ) (legs : LegFills)
    (hkorean : 0 < s.ledger.heldAmount + legs.koreanQty ∨
      s.ledger.totalKoreanCost + legs.koreanQty * legs.koreanPrice = 0)
    (hforeign : 0 < s.ledger.heldAmount + legs.foreignQty ∨
      s.ledger.totalForeignValue + legs.foreignQty * legs.foreignPrice = 0) (pnl : ℚ) :
    positionEquity rate (entryMismatch c s legs pnl) =
      pnl - (s.ledger.totalKoreanCost + legs.koreanQty * legs.koreanPrice)
        + rate * (s.ledger.totalForeignValue + legs.foreignQty * legs.foreignPrice) := by
  have hvalue : ∀ amount value : ℚ, (0 < amount ∨ value = 0) →
      amount * (if 0 < amount then value / amount else 0) = value := by
    intro amount value h
    split_ifs with hpos
    · exact mul_div_cancel₀ _ hpos.ne'
    · rw [mul_zero, h.resolve_left hpos]
  simp only [entryMismatch, flagActive_equity]
  simp only [positionEquity, hvalue _ _ hkorean,
    hvalue _ _ hforeign]

/-- Unequal exit legs are recorded at the average entry prices. -/
theorem exitMismatch_equity (rate : ℚ) (h : Carried s.ledger) {legs : LegFills}
    (hkorean : legs.koreanQty ≤ s.ledger.heldAmount)
    (hforeign : legs.foreignQty ≤ s.ledger.heldAmount) (pnl : ℚ) :
    positionEquity rate (exitMismatch c s legs pnl) =
      pnl - s.ledger.totalKoreanCost + rate * s.ledger.totalForeignValue
        + s.ledger.avgKoreanEntry * legs.koreanQty
        - s.ledger.avgForeignEntry * legs.foreignQty * rate := by
  have hk := h.avgKorean
  have hf := h.avgForeign
  simp only [exitMismatch, flagActive_equity]
  simp only [positionEquity, max_eq_right (sub_nonneg.mpr hkorean),
    max_eq_right (sub_nonneg.mpr hforeign), ← hk, ← hf]
  ring

/-- A cover without its sale is recorded at the average entry price. -/
theorem retriesMismatch_equity (rate : ℚ) (h : Carried s.ledger) {actualCovered : ℚ}
    (hle : actualCovered ≤ s.ledger.heldAmount) :
    positionEquity rate (retriesMismatch c s actualCovered) =
      equity rate s.ledger - s.ledger.avgForeignEntry * actualCovered * rate := by
  have hk := h.avgKorean
  have hf := h.avgForeign
  simp only [retriesMismatch, flagActive_equity]
  simp only [positionEquity,
    max_eq_right (sub_nonneg.mpr hle), equity, ← hk, ← hf]
  ring

/-! ## The conditions -/

/-- What an opening split may do for its books to carry the cash, stop or no stop. -/
def OpenAccounted (q : Quotes) (l : Ledger) (outcome : OpenSplit) (fills : List Fill) : Prop :=
  match outcome with
  | .minOrderRolledBack _ _ | .buyRolledBack _ _ => False
  | .minOrderRollbackFailed short =>
    -- the fill of this short is never queried, so only the quoted bid is recorded
    short.trades = [⟨.foreign, .sell, short.order.quantity,
        resolvedFillPrice short.order q.foreignBid⟩] ∧ 0 ≤ short.order.quantity ∧
      ∀ f ∈ fills, f.done = false → ∀ t ∈ f.trades, t.quantity = 0
  | .mismatched legs _ =>
    (∀ f ∈ fills, Sound f) ∧
      (0 < l.heldAmount + legs.koreanQty ∨
        l.totalKoreanCost + legs.koreanQty * legs.koreanPrice = 0) ∧
      (0 < l.heldAmount + legs.foreignQty ∨
        l.totalForeignValue + legs.foreignQty * legs.foreignPrice = 0)
  | .buyRollbackFailed _ | .correctionFailed _ _ => ∀ f ∈ fills, Sound f
  | .shortFailed | .matched _ _ => OpenExact outcome fills

/-- The same for a sale that was reported `Filled`: a correction that fails loses the P&L of
the split, so there must be none. -/
def SaleAccounted (q : Quotes) (l : Ledger) (legs : LegFills) (hedge : Hedge) : Prop :=
  match hedge with
  | .done hedged _ =>
    if quantitiesMatch hedged.foreignQty hedged.koreanQty = true then
      hedged.foreignQty = hedged.koreanQty ∧ hedged.koreanQty ≤ l.heldAmount
    else hedged.koreanQty ≤ l.heldAmount ∧ hedged.foreignQty ≤ l.heldAmount
  | .failed _ =>
    splitPnlKrw l legs q.usdtRate = 0 ∧ legs.koreanQty ≤ l.heldAmount ∧
      legs.foreignQty ≤ l.heldAmount

/-- The same for a closing split: a sale that fails five times loses the P&L of the cover. -/
def CloseAccounted (v : Venues) (r : SplitReplies) (q : Quotes) (l : Ledger) (legs : CloseLegs)
    (fills : List Fill) : Prop :=
  match legs with
  | .sold cover sale =>
    let closed := closeFills q cover.order sale.order
    let hedge := hedgeClose v r q closed
    (∀ f ∈ fills ++ hedge.2, Sound f) ∧ SaleAccounted q l closed hedge.1
  | .retriesFailed cover =>
    (∀ f ∈ fills, Sound f) ∧ resolvedFillQuantity cover.order ≤ l.heldAmount ∧
      resolvedFillPrice cover.order q.foreignAsk = l.avgForeignEntry
  | .coverFailed | .retrySold _ _ => CloseExact v r q l legs fills

/-- The condition on the trades of an iteration. -/
def TradeAccounted (c : Call) (x : IterationInput) (q : Quotes) (l : Ledger) : Prop :=
  match branch c q l with
  | .entry coinAmount =>
    let split := openSplit c.venues x.replies q coinAmount
    OpenAccounted q l split.1 split.2
  | .exit coinAmount =>
    let legs := closeLegs c.venues x.replies coinAmount
    CloseAccounted c.venues x.replies q l legs.1 legs.2
  | .wait => True

/-- The condition on one iteration at the rate `rate`. -/
def Accounted (rate : ℚ) (c : Call) (s : LoopState) (x : IterationInput) : Prop :=
  iterationRate c x.market = rate ∧
    match iterationQuotes c x.market s.ledger.heldAmount with
    | none => True
    | some q => TradeAccounted c x q s.ledger

section Decidability

instance (q : Quotes) (l : Ledger) (outcome : OpenSplit) (fills : List Fill) :
    Decidable (OpenAccounted q l outcome fills) :=
  match outcome with
  | .shortFailed => inferInstanceAs (Decidable (OpenExact .shortFailed fills))
  | .minOrderRolledBack _ _ => isFalse id
  | .minOrderRollbackFailed _ =>
    inferInstanceAs (Decidable (_ ∧ _ ∧ ∀ f ∈ fills, f.done = false → ∀ t ∈ f.trades, _))
  | .buyRolledBack _ _ => isFalse id
  | .buyRollbackFailed _ => inferInstanceAs (Decidable (∀ f ∈ fills, Sound f))
  | .correctionFailed _ _ => inferInstanceAs (Decidable (∀ f ∈ fills, Sound f))
  | .mismatched _ _ => inferInstanceAs (Decidable (_ ∧ _ ∧ _))
  | .matched legs correction =>
    inferInstanceAs (Decidable (OpenExact (.matched legs correction) fills))

instance (q : Quotes) (l : Ledger) (legs : LegFills) (hedge : Hedge) :
    Decidable (SaleAccounted q l legs hedge) :=
  match hedge with
  | .done hedged _ =>
    inferInstanceAs (Decidable (if quantitiesMatch hedged.foreignQty hedged.koreanQty = true then
      hedged.foreignQty = hedged.koreanQty ∧ hedged.koreanQty ≤ l.heldAmount
      else hedged.koreanQty ≤ l.heldAmount ∧ hedged.foreignQty ≤ l.heldAmount))
  | .failed _ => inferInstanceAs (Decidable (_ ∧ _ ∧ _))

instance (v : Venues) (r : SplitReplies) (q : Quotes) (l : Ledger) (legs : CloseLegs)
    (fills : List Fill) : Decidable (CloseAccounted v r q l legs fills) :=
  match legs with
  | .coverFailed => inferInstanceAs (Decidable (CloseExact v r q l .coverFailed fills))
  | .sold _ _ => inferInstanceAs (Decidable (_ ∧ SaleAccounted _ _ _ _))
  | .retrySold cover sale =>
    inferInstanceAs (Decidable (CloseExact v r q l (.retrySold cover sale) fills))
  | .retriesFailed _ => inferInstanceAs (Decidable (_ ∧ _ ∧ _))

instance (c : Call) (x : IterationInput) (q : Quotes) (l : Ledger) :
    Decidable (TradeAccounted c x q l) := by
  unfold TradeAccounted
  generalize branch c q l = branch
  exact match branch with | .entry _ | .exit _ | .wait => inferInstance

instance (rate : ℚ) (c : Call) (s : LoopState) (x : IterationInput) :
    Decidable (Accounted rate c s x) := by
  unfold Accounted
  generalize iterationQuotes c x.market s.ledger.heldAmount = quotes
  exact match quotes with | none | some _ => inferInstance

end Decidability

/-! ## The law -/

/-- While the loop runs its books are balanced; after a critical stop the persisted position
carries the cash of the cycle. -/
structure StopAccounted (c : Call) (rate opening : ℚ) (s : LoopState) : Prop where
  running : s.running = true → s.result = none ∧ CashBalanced rate opening s ∧ Carried s.ledger
  stopped : ∀ res, s.result = some res →
    positionEquity rate res.position = cycleCash rate opening s.events ∧
      (c.hasPositionCallback = true → res.position.isActive = true →
        s.events.getLast? = some (.positionUpdate (some res.position)))

/-- A stop persists the position it returns. -/
theorem stopAccounted_of_stop {rate opening : ℚ} {s₀ : LoopState} {fills : List Fill}
    {reason : StopReason} {snap : Position} (hs : CashBalanced rate opening s₀)
    (hs₁ : s.events = s₀.events ++ [.orders fills])
    (hequity : positionEquity rate snap = equity rate s₀.ledger + tally (cash rate) fills) :
    StopAccounted c rate opening (triggerCriticalStop c reason snap s) := by
  constructor
  · intro hrunning
    cases hrunning
  · intro res hres
    have hposition : res.position = snap := by
      simp only [triggerCriticalStop, Option.some.injEq] at hres
      rw [← hres]
    have hevents : (triggerCriticalStop c reason snap s).events = s.events ++
        reportPosition c (if snap.isActive then some snap else none) := rfl
    rw [hposition]
    constructor
    · rw [hevents, hs₁, cycleCash_append, cycleCash_append,
        cycleCash_updates _ _ (reportPosition_onlyUpdates c _), cycleCash_orders, ← hs.equity,
        hequity]
    · intro hcallback hactive
      rw [hevents]
      simp [reportPosition, hcallback, hactive]

/-- A step that stays in the loop keeps the law. -/
theorem stopAccounted_of_running {rate opening : ℚ} (hresult : s.result = none)
    (hs : CashBalanced rate opening s) (hcarried : Carried s.ledger) :
    StopAccounted c rate opening s := by
  refine ⟨fun _ => ⟨hresult, hs, hcarried⟩, ?_⟩
  intro res hres
  rw [hresult] at hres
  cases hres

variable {x : IterationInput} {q : Quotes} {rate opening : ℚ}

/-- The legs of an opening split that are equal after its correction are not negative. -/
theorem min_nonneg_of_equal {v : Venues} {r : SplitReplies} {short buy : Fill} {hedged : LegFills}
    {correction : Option Correction} {fills : List Fill} (hsound : ∀ f ∈ fills, Sound f)
    (hhedge : hedgeOpen v r q (openLegs q short.order buy.order) = (.done hedged correction, fills))
    (hequal : hedged.foreignQty = hedged.koreanQty) :
    0 ≤ min hedged.foreignQty hedged.koreanQty := by
  have hcorr := hedgeOpen_done hhedge hsound 0
  rw [hequal, min_self]
  rcases hcorr.oneLeg with hk | hf
  · rw [hk]
    exact resolvedFillQuantity_nonneg _
  · rw [← hequal, hf]
    exact resolvedFillQuantity_nonneg _

/-- An opened leg is held, or it is empty and costs nothing. -/
theorem openedAmount_pos_or_zero {held total quantity : ℚ} (hheld : 0 ≤ held)
    (htotal : held = 0 → total = 0) (hqty : 0 ≤ quantity) (price : ℚ) :
    0 < held + quantity ∨ total + quantity * price = 0 := by
  rcases (add_nonneg hheld hqty).eq_or_lt with hzero | hpos
  · right
    have hh : held = 0 := by linarith
    have hq : quantity = 0 := by linarith
    rw [htotal hh, hq, zero_mul, add_zero]
  · exact Or.inl hpos

/-- The snapshot of entry legs whose correction failed carries the cash of both legs. -/
theorem correctionFailed_equity (h : Carried s.ledger) {short buy : Fill} {fills : List Fill}
    (hshort : OnSide .foreign .sell short.trades) (hbuy : OnSide .korean .buy buy.trades)
    (hsound : ∀ f ∈ short :: buy :: fills, Sound f) (hdshort : short.done = true)
    (hdbuy : buy.done = true) (hfailed : ∀ f ∈ fills, f.done = false) (rate : ℚ) :
    positionEquity rate
        (entryMismatch c s (openLegs q short.order buy.order) s.ledger.realizedPnlKrw) =
      equity rate s.ledger + tally (cash rate) (short :: buy :: fills) := by
  have hlegs := cash_openLegs (q := q) hshort hbuy (hsound short (by simp)) (hsound buy (by simp))
    hdshort hdbuy rate
  have hidle : tally (cash rate) fills = 0 := by
    apply tally_of_notDone _ (cash_of_zero rate)
    intro f hf
    exact ⟨hsound f (by simp [hf]), hfailed f hf⟩
  have hcash : tally (cash rate) (short :: buy :: fills) = tally (cash rate) [short, buy] := by
    simp only [tally_cons, tally_nil, hidle]
  have hkorean := openedAmount_pos_or_zero h.held_nonneg h.korean
    (resolvedFillQuantity_nonneg buy.order) (resolvedFillPrice buy.order q.koreanAsk)
  have hforeign := openedAmount_pos_or_zero h.held_nonneg h.foreign
    (resolvedFillQuantity_nonneg short.order) (resolvedFillPrice short.order q.foreignBid)
  rw [entryMismatch_equity rate (openLegs q short.order buy.order) hkorean hforeign, hcash, hlegs]
  simp only [equity]
  ring

/-- What follows an opened split accounts for its stop. -/
theorem afterOpen_accounted {outcome : OpenSplit} {fills : List Fill} (hrate : q.usdtRate = rate)
    (hresult : s.result = none) (hs : CashBalanced rate opening s) (hcarried : Carried s.ledger)
    (hsent : OpenSent c.venues x.replies q outcome fills)
    (haccounted : OpenAccounted q s.ledger outcome fills) :
    StopAccounted c rate opening (afterOpen c q outcome (s.emit [.orders fills])) := by
  cases hsent with
  | shortFailed coinAmount hd =>
    refine stopAccounted_of_running hresult ?_ hcarried
    exact afterOpen_balanced hrate hs (.shortFailed coinAmount hd) haccounted
  | minOrderRolledBack => exact absurd haccounted id
  | buyRolledBack => exact absurd haccounted id
  | matched coinAmount krwAmount hedged correction cfills hshort hbuy hhedge hmatch =>
    have hnonneg := min_nonneg_of_equal (fun f hf => haccounted.1 f (by simp [hf])) hhedge
      haccounted.2
    refine stopAccounted_of_running hresult ?_ (hcarried.addSplit _ hnonneg)
    exact afterOpen_balanced hrate hs
      (.matched coinAmount krwAmount hedged correction cfills hshort hbuy hhedge hmatch) haccounted
  | minOrderRollbackFailed short rollback hside hd hrollback =>
    obtain ⟨htrades, hqty, hidle⟩ := haccounted
    refine stopAccounted_of_stop hs rfl ?_
    rw [rollbackMismatch_equity (s := s.emit _) rate hcarried hqty, tally_cons, tally_cons,
      sum_of_zero (hidle rollback (by simp) hrollback) (cash_of_zero rate), htrades]
    simp only [emit_ledger, List.map_cons, List.map_nil, List.sum_cons, List.sum_nil, cash,
      signedQty, tally_nil]
    ring
  | buyRollbackFailed short buy rollback hside hd hbuy hrollback =>
    refine stopAccounted_of_stop hs rfl ?_
    have hsum := sum_of_done hside (haccounted short (by simp)) hd (cash rate)
    rw [rollbackMismatch_equity (s := s.emit _) rate hcarried (resolvedFillQuantity_nonneg _),
      tally_cons, tally_cons, tally_cons, hsum,
      sum_of_notDone (haccounted buy (by simp)) hbuy (cash_of_zero rate),
      sum_of_notDone (haccounted rollback (by simp)) hrollback (cash_of_zero rate),
      resolvedFillPrice_of_done (haccounted short (by simp)) hd]
    simp only [emit_ledger, cash, signedQty, tally_nil]
    ring
  | correctionFailed coinAmount krwAmount excess cfills hshort hbuy hhedge =>
    have hbooks := correctionFailed_equity (c := c) (s := s.emit [.orders
        (openShortFill c.venues x.replies coinAmount ::
          openBuyFill c.venues x.replies krwAmount :: cfills)]) (q := q) hcarried
      (openShortFill_onSide coinAmount) (openBuyFill_onSide krwAmount) haccounted hshort hbuy
      (hedgeOpen_failed hhedge) rate
    cases excess with
    | foreign => exact stopAccounted_of_stop hs rfl hbooks
    | korean => exact stopAccounted_of_stop hs rfl hbooks
  | mismatched coinAmount krwAmount hedged correction cfills hshort hbuy hhedge =>
    obtain ⟨hsound, hkorean, hforeign⟩ := haccounted
    refine stopAccounted_of_stop hs rfl ?_
    rw [entryMismatch_equity (s := s.emit _) rate hedged hkorean hforeign,
      cash_opened (openShortFill_onSide coinAmount) (openBuyFill_onSide krwAmount) hsound hshort hbuy
        hhedge rate, hrate]
    simp only [emit_ledger, equity]
    ring

/-- The snapshot of exit legs whose correction failed carries the cash of both legs only when
their P&L is zero. -/
theorem exitFailed_equity (h : Carried s.ledger) {cover sale : Fill} {fills : List Fill}
    (hcover : OnSide .foreign .buy cover.trades) (hsale : OnSide .korean .sell sale.trades)
    (hsound : ∀ f ∈ cover :: sale :: fills, Sound f) (hdcover : cover.done = true)
    (hdsale : sale.done = true) (hfailed : ∀ f ∈ fills, f.done = false)
    (hpnl : splitPnlKrw s.ledger (closeFills q cover.order sale.order) rate = 0)
    (hkorean : (closeFills q cover.order sale.order).koreanQty ≤ s.ledger.heldAmount)
    (hforeign : (closeFills q cover.order sale.order).foreignQty ≤ s.ledger.heldAmount) :
    positionEquity rate
        (exitMismatch c s (closeFills q cover.order sale.order) s.ledger.realizedPnlKrw) =
      equity rate s.ledger + tally (cash rate) (cover :: sale :: fills) := by
  have hlegs := cash_closeFills (q := q) hcover hsale (hsound cover (by simp))
    (hsound sale (by simp)) hdcover hdsale rate s.ledger
  have hidle : tally (cash rate) fills = 0 := by
    apply tally_of_notDone _ (cash_of_zero rate)
    intro f hf
    exact ⟨hsound f (by simp [hf]), hfailed f hf⟩
  have hcash : tally (cash rate) (cover :: sale :: fills) = tally (cash rate) [cover, sale] := by
    simp only [tally_cons, tally_nil, hidle]
  rw [exitMismatch_equity rate h hkorean hforeign, hcash, hlegs, hpnl]
  simp only [equity]
  ring

/-- What follows a reported sale accounts for its stop. -/
theorem afterSale_accounted {cover sale : Fill} (hrate : q.usdtRate = rate)
    (hheld : 0 < s.ledger.heldAmount) (hresult : s.result = none)
    (hs : CashBalanced rate opening s) (hcarried : Carried s.ledger)
    (hcover : OnSide .foreign .buy cover.trades) (hsale : OnSide .korean .sell sale.trades)
    (hdcover : cover.done = true) (hdsale : sale.done = true)
    (haccounted : CloseAccounted c.venues x.replies q s.ledger (.sold cover sale) [cover, sale]) :
    StopAccounted c rate opening (afterClose c x q (.sold cover sale, [cover, sale]) s) := by
  obtain ⟨⟨hedge, cfills⟩, hhedge⟩ :
      ∃ h, hedgeClose c.venues x.replies q (closeFills q cover.order sale.order) = h := ⟨_, rfl⟩
  obtain ⟨hsound, hend⟩ := haccounted
  rw [hhedge] at hsound hend
  replace hsound : ∀ f ∈ cover :: sale :: cfills, Sound f := hsound
  cases hedge with
  | failed excess =>
    obtain ⟨hpnl, hkorean, hforeign⟩ := hend
    rw [hrate] at hpnl
    have hbooks := exitFailed_equity (c := c) (s := s.emit [.orders ([cover, sale] ++ cfills)])
      hcarried hcover hsale hsound hdcover hdsale (hedgeClose_failed hhedge) hpnl hkorean hforeign
    simp only [afterClose, hhedge]
    cases excess with
    | foreign => exact stopAccounted_of_stop hs rfl hbooks
    | korean => exact stopAccounted_of_stop hs rfl hbooks
  | done hedged correction =>
    simp only [SaleAccounted] at hend
    by_cases hmatch : quantitiesMatch hedged.foreignQty hedged.koreanQty = true
    · rw [if_pos hmatch] at hend
      have hexact : CloseExact c.venues x.replies q s.ledger (.sold cover sale) [cover, sale] := by
        refine ⟨fun f hf => hsound f (by simp at hf ⊢; tauto), ?_⟩
        simp only [hhedge]
        exact ⟨fun f hf => hsound f (by simp [hf]), hend⟩
      have hbalanced := afterSale_balanced (x := x) hrate hheld hs hcover hsale hdcover hdsale
        hexact
      have hle : min hedged.foreignQty hedged.koreanQty ≤ s.ledger.heldAmount :=
        (min_le_right _ _).trans hend.2
      refine stopAccounted_of_running ?_ hbalanced ?_
      · simp only [afterClose, hhedge, afterSale, hmatch, if_true, bookExit]
        split_ifs <;> exact hresult
      · simp only [afterClose, hhedge, afterSale, hmatch, if_true, bookExit]
        split_ifs
        · exact Carried.closeSplit hheld hle _
        · exact (Carried.closeSplit hheld hle _).resetCycle
    · rw [if_neg hmatch] at hend
      have hcash := cash_closed hcover hsale hsound hdcover hdsale hhedge rate s.ledger
      simp only [afterClose, hhedge, afterSale, hmatch, Bool.false_eq_true, if_false]
      refine stopAccounted_of_stop hs rfl ?_
      rw [exitMismatch_equity (s := s.emit _) rate hcarried hend.1 hend.2, hrate]
      have happend : [cover, sale] ++ cfills = cover :: sale :: cfills := rfl
      rw [happend, hcash]
      simp only [emit_ledger, equity]
      ring

/-- What follows a closed split accounts for its stop. -/
theorem afterClose_accounted {legs : CloseLegs} {fills : List Fill} (hrate : q.usdtRate = rate)
    (hheld : 0 < s.ledger.heldAmount) (hresult : s.result = none)
    (hs : CashBalanced rate opening s) (hcarried : Carried s.ledger)
    (hsent : CloseSent c.venues x.replies legs fills)
    (haccounted : CloseAccounted c.venues x.replies q s.ledger legs fills) :
    StopAccounted c rate opening (afterClose c x q (legs, fills) s) := by
  cases hsent with
  | coverFailed coinAmount hd =>
    refine stopAccounted_of_running hresult ?_ hcarried
    exact afterClose_balanced hrate hheld hs (.coverFailed coinAmount hd) haccounted
  | sold coinAmount quantity hcover hsale =>
    exact afterSale_accounted hrate hheld hresult hs hcarried (closeCoverFill_onSide coinAmount)
      (closeSellFill_onSide _ quantity) hcover hsale haccounted
  | retrySold coinAmount quantity sale failed i hcover hside hd =>
    have hbalanced := afterClose_balanced (x := x) hrate hheld hs
      (.retrySold coinAmount quantity sale failed i hcover hside hd) haccounted
    obtain ⟨-, hdone, -, hle⟩ := haccounted
    have hstatus : (closeSellFill c.venues (x.replies.retries i) quantity).order.status =
        .filled := by
      simpa [closeSellFill, Placed.toFill] using hdone
    refine stopAccounted_of_running ?_ hbalanced ?_
    · simp [afterClose, afterRetry, hstatus, LoopState.emit, hresult]
    · simp only [afterClose, afterRetry, hstatus, ne_eq, not_true_eq_false, if_false, emit_ledger]
      exact Carried.closeSplit hheld hle _
  | retriesFailed coinAmount sale failed hcover hside hd =>
    obtain ⟨hsound, hle, hprice⟩ := haccounted
    have hcoverSound := hsound (closeCoverFill c.venues x.replies coinAmount) (by simp)
    have hsum := sum_of_done (closeCoverFill_onSide coinAmount) hcoverSound hcover (cash rate)
    have hidle : tally (cash rate) (sale :: failed) = 0 := by
      apply tally_of_notDone _ (cash_of_zero rate)
      intro f hf
      exact ⟨hsound f (by simp at hf ⊢; tauto), hd f hf⟩
    refine stopAccounted_of_stop hs rfl ?_
    rw [retriesMismatch_equity (s := s.emit _) rate hcarried hle, tally_cons, hidle, hsum]
    rw [resolvedFillPrice_of_done hcoverSound hcover] at hprice
    simp only [emit_ledger, cash, signedQty, ← hprice]
    ring

/-! ## Runs -/

/-- An iteration whose fills are accounted for accounts for its stop. -/
theorem iterate_accounted {x : IterationInput} (hresult : s.result = none)
    (hs : CashBalanced rate opening s) (hcarried : Carried s.ledger)
    (haccounted : Accounted rate c s x) : StopAccounted c rate opening (iterate c s x) := by
  have hs' : CashBalanced rate opening { s with lastUsdtRate := iterationRate c x.market } :=
    ⟨hs.equity, hs.completes⟩
  obtain ⟨hrate, haccounted⟩ := haccounted
  unfold iterate
  simp only
  cases hquotes : iterationQuotes c x.market s.ledger.heldAmount with
  | none => exact stopAccounted_of_running hresult hs' hcarried
  | some q =>
    simp only [hquotes] at haccounted ⊢
    have hqrate : q.usdtRate = rate := (iterationQuotes_rate hquotes).trans hrate
    unfold TradeAccounted at haccounted
    cases hbranch : branch c q s.ledger with
    | entry coinAmount =>
      simp only [hbranch] at haccounted
      simp only [trade, hbranch]
      exact afterOpen_accounted (x := x) hqrate hresult hs' hcarried (openSplit_sent _ _ _ _)
        haccounted
    | exit coinAmount =>
      simp only [hbranch] at haccounted
      simp only [trade, hbranch]
      exact afterClose_accounted hqrate (heldAmount_pos_of_exit hbranch) hresult hs' hcarried
        (closeLegs_sent _ _ _) haccounted
    | wait =>
      simp only [trade, hbranch]
      exact stopAccounted_of_running hresult hs' hcarried

/-- In every run whose iterations are accounted for, a critical stop returns, and persists, a
position that carries the cash of the cycle. -/
theorem entryLoop_stopAccounted (c : Call) (initial : Option Position)
    (hinitial : ∀ p, initial = some p → p.matched = true ∧ 0 ≤ p.koreanAmount) (now : Timestamp)
    (tracker : PositionTracker) (rate : ℚ) (xs : List IterationInput)
    (hrun : Along (Accounted rate c) (loopStep c) (initialState c initial now tracker) xs) :
    StopAccounted c rate (equity rate (Ledger.ofInitial initial))
      (entryLoop c (initialState c initial now tracker) xs) := by
  refine invariant (StopAccounted c rate (equity rate (Ledger.ofInitial initial))) ?_ xs _ ?_ hrun
  · intro s x hs hx
    unfold loopStep
    split_ifs with hrunning
    · obtain ⟨hresult, hbalanced, hcarried⟩ := hs.running hrunning
      exact iterate_accounted hresult hbalanced hcarried hx
    · exact hs
  · refine stopAccounted_of_running rfl ⟨rfl, ?_⟩ (carried_ofInitial hinitial)
    exact completesAtCash_of_none (by simp [initialState])

/-- A short of 35 coins whose buy is rejected and whose rollback is rejected too. -/
theorem entryLoop_stopAccounted_rollback :
    (entryLoop (sampleCall .bithumb .bybit) (initialState (sampleCall .bithumb .bybit) none 0 .empty)
      [{ market := sampleMarket 1000
         replies := legReplies (executingForeign 35 1) rejectingKorean }]).result.isSome = true ∧
    StopAccounted (sampleCall .bithumb .bybit) 1400 (equity 1400 (Ledger.ofInitial none))
      (entryLoop (sampleCall .bithumb .bybit)
        (initialState (sampleCall .bithumb .bybit) none 0 .empty)
        [{ market := sampleMarket 1000
           replies := legReplies (executingForeign 35 1) rejectingKorean }]) := by
  refine ⟨by decide +kernel, ?_⟩
  apply entryLoop_stopAccounted
  · intro p h
    cases h
  · refine ⟨?_, trivial⟩
    decide +kernel

/-! ## The run that loses the P&L of a split -/

/-- The short of the split was not rolled back. -/
def NotRolledBack (outcome : OpenSplit) : Prop :=
  match outcome with
  | .minOrderRolledBack _ _ | .buyRolledBack _ _ => False
  | _ => True

/-- The correction orders behind a closing split. -/
def correctionFills (v : Venues) (r : SplitReplies) (q : Quotes) (legs : CloseLegs) : List Fill :=
  match legs with
  | .sold cover sale => (hedgeClose v r q (closeFills q cover.order sale.order)).2
  | _ => []

/-- What is reported about the trades of an iteration: every order is known for what it is,
and no short was rolled back. -/
def TradeReported (c : Call) (x : IterationInput) (q : Quotes) (l : Ledger) : Prop :=
  match branch c q l with
  | .entry coinAmount =>
    let split := openSplit c.venues x.replies q coinAmount
    (∀ f ∈ split.2, Sound f) ∧ NotRolledBack split.1
  | .exit coinAmount =>
    let legs := closeLegs c.venues x.replies coinAmount
    ∀ f ∈ legs.2 ++ correctionFills c.venues x.replies q legs.1, Sound f
  | .wait => True

/-- Constant rate and complete reports, the assumptions under which a stop should carry the
cash of the cycle. -/
def Reported (rate : ℚ) (c : Call) (s : LoopState) (x : IterationInput) : Prop :=
  iterationRate c x.market = rate ∧
    match iterationQuotes c x.market s.ledger.heldAmount with
    | none => True
    | some q => TradeReported c x q s.ledger

section Decidability

instance (outcome : OpenSplit) : Decidable (NotRolledBack outcome) :=
  match outcome with
  | .minOrderRolledBack _ _ => isFalse id
  | .buyRolledBack _ _ => isFalse id
  | .shortFailed => isTrue trivial
  | .minOrderRollbackFailed _ => isTrue trivial
  | .buyRollbackFailed _ => isTrue trivial
  | .correctionFailed _ _ => isTrue trivial
  | .mismatched _ _ => isTrue trivial
  | .matched _ _ => isTrue trivial

instance (c : Call) (x : IterationInput) (q : Quotes) (l : Ledger) :
    Decidable (TradeReported c x q l) := by
  unfold TradeReported
  generalize branch c q l = branch
  exact match branch with | .entry _ | .exit _ | .wait => inferInstance

instance (rate : ℚ) (c : Call) (s : LoopState) (x : IterationInput) :
    Decidable (Reported rate c s x) := by
  unfold Reported
  generalize iterationQuotes c x.market s.ledger.heldAmount = quotes
  exact match quotes with | none | some _ => inferInstance

end Decidability

/-- The run that loses P&L: after an entry of 35 coins the exit covers 35, sells 30, and the
correction sale of the other 5 is rejected. -/
def failedCorrectionRun : List IterationInput :=
  [{ market := sampleMarket 1000
     replies := legReplies (executingForeign 35 1) (executingKorean .done 35 1000) },
    { market := sampleMarket 1500
      replies := legReplies (executingForeign 35 1) (executingKorean .cancel 30 1500) }]

/-- Constant rate and complete reports do not make a critical stop carry the cash. -/
theorem failedCorrection_not_accounted :
    ¬ ∀ (c : Call) (initial : Option Position) (now : Timestamp) (tracker : PositionTracker)
      (rate : ℚ) (xs : List IterationInput),
      (∀ p, initial = some p → p.matched = true ∧ 0 ≤ p.koreanAmount) →
      Along (Reported rate c) (loopStep c) (initialState c initial now tracker) xs →
      ∀ res, (entryLoop c (initialState c initial now tracker) xs).result = some res →
        positionEquity rate res.position =
          cycleCash rate (equity rate (Ledger.ofInitial initial))
            (entryLoop c (initialState c initial now tracker) xs).events := by
  intro h
  have hrun := h (sampleCall .bithumb .bybit) none 0 .empty 1400 failedCorrectionRun
    (by intro p hp; cases hp) (by refine ⟨?_, ?_, trivial⟩ <;> decide +kernel)
  revert hrun
  decide +kernel

end SpotRelay.Analysis
