import SpotRelay.Library.Run
import SpotRelay.Model.ExitDoubles

/-!
# The divisions of the exit loop

Most divisors of the exit loop are guarded where they stand.  The others rest on the loop: the
remaining amount is positive at its head, a threshold is positive, so that whatever is at it was
computed, and with an engine the quotes are positive where they are usable.

* **the condition**: the values by which an iteration divides do not round to nothing, and without
  an engine, where there is no bid to divide by, a partly exited position is at its threshold
  (`ValuesAtHand`).  In exact arithmetic the latter always holds: an exit leaves the entry averages
  alone, and so what was exited once is exited again.  Doubles round the averages at each exit, and
  can carry the threshold above a premium that was at it.
* **one iteration** divides by nothing that is zero and re-enters only at quotes that it has,
  exactly where its values are at hand (`dividesAndPrices_iff`), because a position that is partly
  exited was exited at a positive rate (`RateKnown`, `rateKnown_step`).
* **a call** does so throughout, and in its result, exactly where every iteration does
  (`exit_divisions_iff`).
-/

set_option autoImplicit false

namespace SpotRelay.Analysis

open SpotRelay.Library.BinaryFloat.BinaryFormat
open SpotRelay.Library.Run
open SpotRelay.Model (Binary64 ExitStopReason)
open SpotRelay.Model.Doubles

/-! ## Checked arithmetic -/

/-- A quotient exists exactly for a divisor that is not zero. -/
theorem checkedDiv_isSome_iff {a b : Binary64} : (checkedDiv a b).isSome = true ↔ b ≠ 0 := by
  unfold checkedDiv
  split_ifs with hzero
  · exact iff_of_false (by simp) (not_not.mpr hzero)
  · exact iff_of_true rfl hzero

/-- A division by a positive number has its quotient. -/
theorem checkedDiv_of_pos {a b : Binary64} (h : 0 < b) : checkedDiv a b = some (a / b) :=
  if_neg h.ne'

/-- A premium exists exactly where the foreign price in won is not zero. -/
theorem premiumPct_isSome_iff {korean foreign rate : Binary64} :
    (premiumPct korean foreign rate).isSome = true ↔ foreign * rate ≠ 0 := by
  rw [← checkedDiv_isSome_iff (a := korean - foreign * rate)]
  unfold premiumPct
  dsimp only
  cases checkedDiv (korean - foreign * rate) (foreign * rate) <;> rfl

/-- A premium behind the guard of its prices exists exactly where their product is not zero. -/
theorem guardedPremium_isSome_iff {korean foreign rate : Binary64} :
    (if 0 < foreign ∧ 0 < rate ∧ 0 < korean then premiumPct korean foreign rate
      else some 0).isSome = true ↔
      (0 < foreign → 0 < rate → 0 < korean → foreign * rate ≠ 0) := by
  split_ifs with hprices
  · obtain ⟨hforeign, hrate, hkorean⟩ := hprices
    rw [premiumPct_isSome_iff]
    exact ⟨fun h _ _ _ => h, fun h => h hforeign hrate hkorean⟩
  · exact iff_of_true rfl fun hforeign hrate hkorean =>
      absurd ⟨hforeign, hrate, hkorean⟩ hprices

/-- A guarded average always exists. -/
theorem guardedAverage_isSome (total amount : Binary64) :
    (guardedAverage total amount).isSome = true := by
  unfold guardedAverage
  split_ifs with hamount
  · exact checkedDiv_isSome_iff.mpr hamount.ne'
  · rfl

/-- The effective entry premium always exists. -/
theorem effectiveEntryPm_isSome (l : Ledger) (fallback usdtRate : Binary64) :
    (effectiveEntryPm l fallback usdtRate).isSome = true := by
  unfold effectiveEntryPm
  split_ifs with hmissing
  · rfl
  · have hheld : 0 < l.heldAmount := not_le.mp fun h => hmissing (Or.inl h)
    rw [checkedDiv_of_pos hheld, checkedDiv_of_pos hheld]
    simp only [Option.bind_eq_bind, Option.bind_some, Option.pure_def]
    split_ifs with hnotional
    · rfl
    · exact premiumPct_isSome_iff.mpr fun hzero => hnotional hzero.le

/-! ## The threshold -/

/-- The floor of the exit threshold is positive in doubles, too. -/
theorem exitFloor_pos : 0 < exitPremiumThreshold := by decide +kernel

/-- The threshold always exists, and is positive. -/
theorem exists_dynamicExitThreshold (l : Ledger) (fallback usdtRate : Binary64) :
    ∃ threshold, dynamicExitThreshold l fallback usdtRate = some threshold ∧ 0 < threshold := by
  unfold dynamicExitThreshold
  split_ifs
  · obtain ⟨effectivePm, heffective⟩ :=
      Option.isSome_iff_exists.mp (effectiveEntryPm_isSome l fallback usdtRate)
    rw [heffective]
    exact ⟨_, rfl, exitFloor_pos.trans_le (le_max_right _ _)⟩
  · exact ⟨_, rfl, exitFloor_pos⟩

/-- A positive exit premium was computed. -/
theorem quotes_of_exitPremium_pos {q : Quotes} {premium : Binary64}
    (h : exitPremium q = some premium) (hpos : 0 < premium) :
    0 < q.foreignAsk ∧ 0 < q.usdtRate ∧ 0 < q.koreanBid := by
  unfold exitPremium at h
  split_ifs at h with hprices
  · exact hprices
  · cases h
    exact absurd hpos (lt_irrefl 0)

/-! ## The branch -/

section Branch

variable {c : ExitCall} {q : Quotes} {l : Ledger} {exitPm entryPm threshold : Binary64}

/-- The branch, once its three premiums are known. -/
theorem exitBranch_eq (hexit : exitPremium q = some exitPm)
    (hentry : reentryPremium q = some entryPm)
    (hthreshold : dynamicExitThreshold l c.position.entryPremium q.usdtRate = some threshold) :
    exitBranch c q l =
      if threshold ≤ exitPm then (exitCoinAmount l.heldAmount q.foreignAsk).map ExitBranch.exit
      else if entryPm ≤ entryPremiumThreshold ∧ l.heldAmount < c.position.foreignAmount then
        (reentryCoinAmount q c.position.foreignAmount l.heldAmount).map ExitBranch.reentry
      else some .wait := by
  unfold exitBranch
  rw [hexit, hentry, hthreshold]
  simp only [Option.bind_eq_bind, Option.bind_some, Option.pure_def, Option.map_eq_bind]
  rfl

/-- Both premiums are computed before the branch is chosen. -/
theorem exists_premiums (h : (exitBranch c q l).isSome = true) :
    ∃ exitPm entryPm, exitPremium q = some exitPm ∧ reentryPremium q = some entryPm := by
  unfold exitBranch at h
  cases hexit : exitPremium q with
  | none =>
    rw [hexit] at h
    cases h
  | some exitPm =>
    cases hentry : reentryPremium q with
    | none =>
      rw [hexit, hentry] at h
      cases h
    | some entryPm => exact ⟨exitPm, entryPm, rfl, rfl⟩

/-- An exit is made at a positive premium. -/
theorem premium_of_exit {coinAmount : Binary64} (h : exitBranch c q l = some (.exit coinAmount)) :
    ∃ premium, exitPremium q = some premium ∧ 0 < premium := by
  obtain ⟨exitPm, entryPm, hexit, hentry⟩ := exists_premiums (Option.isSome_of_eq_some h)
  obtain ⟨threshold, hthreshold, hpositive⟩ :=
    exists_dynamicExitThreshold l c.position.entryPremium q.usdtRate
  rw [exitBranch_eq hexit hentry hthreshold] at h
  split_ifs at h with hatThreshold hreentry
  · exact ⟨exitPm, hexit, hpositive.trans_le hatThreshold⟩
  · obtain ⟨coins, -, hbranch⟩ := Option.map_eq_some_iff.mp h
    cases hbranch
  · cases h

/-- A re-entry is made with a position partly exited. -/
theorem less_of_reentry {coinAmount : Binary64}
    (h : exitBranch c q l = some (.reentry coinAmount)) :
    l.heldAmount < c.position.foreignAmount := by
  obtain ⟨exitPm, entryPm, hexit, hentry⟩ := exists_premiums (Option.isSome_of_eq_some h)
  obtain ⟨threshold, hthreshold, -⟩ :=
    exists_dynamicExitThreshold l c.position.entryPremium q.usdtRate
  rw [exitBranch_eq hexit hentry hthreshold] at h
  split_ifs at h with hatThreshold hreentry
  · obtain ⟨coins, -, hbranch⟩ := Option.map_eq_some_iff.mp h
    cases hbranch
  · exact hreentry.2
  · cases h

/-- The coins of an exit at a positive ask exist. -/
theorem exitCoinAmount_isSome (heldAmount : Binary64) {foreignAsk : Binary64} (h : 0 < foreignAsk) :
    (exitCoinAmount heldAmount foreignAsk).isSome = true := by
  unfold exitCoinAmount
  split_ifs
  · rfl
  · rw [checkedDiv_of_pos h]
    rfl

end Branch

/-! ## Snapshots -/

section Snapshots

variable (c : ExitCall) (l : Ledger) (usdtRate : Binary64)

/-- The common snapshot divides by positive amounts only. -/
theorem exitSnapshot_isSome : (exitSnapshot c l usdtRate).isSome = true := by
  unfold exitSnapshot
  obtain ⟨premium, hpremium⟩ :=
    Option.isSome_iff_exists.mp (effectiveEntryPm_isSome l c.position.entryPremium usdtRate)
  rw [hpremium]
  rfl

/-- A snapshot of something that remains exists. -/
theorem remainingSnapshot_isSome {l : Ledger} (h : 0 < l.heldAmount) :
    (remainingSnapshot c l usdtRate).isSome = true := by
  unfold remainingSnapshot
  obtain ⟨snap, hsnap⟩ := Option.isSome_iff_exists.mp (exitSnapshot_isSome c l usdtRate)
  rw [hsnap, checkedDiv_of_pos h, checkedDiv_of_pos h]
  rfl

/-- A mismatch snapshot exists with its averages. -/
theorem mismatchSnapshot_isSome (koreanAmount foreignAmount realizedPnlKrw : Binary64)
    {koreanAverage foreignAverage : Option Binary64} (hkorean : koreanAverage.isSome = true)
    (hforeign : foreignAverage.isSome = true) :
    (mismatchSnapshot c l usdtRate koreanAmount foreignAmount koreanAverage foreignAverage
      realizedPnlKrw).isSome = true := by
  unfold mismatchSnapshot
  obtain ⟨snap, hsnap⟩ := Option.isSome_iff_exists.mp (exitSnapshot_isSome c l usdtRate)
  obtain ⟨koreanEntryPrice, rfl⟩ := Option.isSome_iff_exists.mp hkorean
  obtain ⟨foreignEntryPrice, rfl⟩ := Option.isSome_iff_exists.mp hforeign
  rw [hsnap]
  rfl

/-- The snapshot of a failed sale divides by positive amounts only. -/
theorem exitRetriesMismatch_isSome (actualCovered : Binary64) :
    (exitRetriesMismatch c l usdtRate actualCovered).isSome = true :=
  mismatchSnapshot_isSome c l usdtRate _ _ _ (guardedAverage_isSome _ _) (guardedAverage_isSome _ _)

/-- The snapshot of a failed rollback divides by positive amounts only. -/
theorem reentryRollbackMismatch_isSome (actualFilled shortPrice : Binary64) :
    (reentryRollbackMismatch c l usdtRate actualFilled shortPrice).isSome = true :=
  mismatchSnapshot_isSome c l usdtRate _ _ _ (guardedAverage_isSome _ _) (guardedAverage_isSome _ _)

/-- The snapshot of unequal re-entry legs divides by positive amounts only. -/
theorem reentryMismatch_isSome (legs : LegFills) (realizedPnlKrw : Binary64) :
    (reentryMismatch c l usdtRate legs realizedPnlKrw).isSome = true :=
  mismatchSnapshot_isSome c l usdtRate _ _ _ (guardedAverage_isSome _ _) (guardedAverage_isSome _ _)

end Snapshots

/-! ## The exit branch -/

section Trading

variable {c : ExitCall} {q : Quotes} {s : ExitState}

/-- A critical stop exists with its snapshot. -/
theorem exitCriticalStop_isSome {snap : Option Position} (reason : ExitStopReason) (s : ExitState)
    (h : snap.isSome = true) : (exitCriticalStop c reason snap s).isSome = true := by
  obtain ⟨position, rfl⟩ := Option.isSome_iff_exists.mp h
  rfl

/-- The report of what remains divides by positive amounts only, while coins are held. -/
theorem reportRemaining_isSome (usdtRate : Binary64) (h : 0 < s.ledger.heldAmount) :
    (reportRemaining c usdtRate s).isSome = true := by
  unfold reportRemaining
  split_ifs
  · obtain ⟨snap, hsnap⟩ := Option.isSome_iff_exists.mp (remainingSnapshot_isSome c usdtRate h)
    rw [hsnap]
    rfl
  · rfl

/-- What is closed of something held is booked. -/
theorem bookClosed_isSome (actualCovered : Binary64) (cover sale : Order)
    (h : 0 < s.ledger.heldAmount) : (bookClosed q actualCovered cover sale s).isSome = true := by
  unfold bookClosed
  rw [checkedDiv_of_pos h, checkedDiv_of_pos h, checkedDiv_of_pos h]
  rfl

/-- The bookkeeping of a filled sale does not divide by zero while coins were held. -/
theorem afterExitSale_isSome (cover sale : Order) (h : 0 < s.ledger.heldAmount) :
    (afterExitSale c q cover sale s).isSome = true := by
  unfold afterExitSale
  dsimp only
  obtain ⟨booked, hbooked⟩ := Option.isSome_iff_exists.mp (bookClosed_isSome (q := q)
    (if 0 < cover.filledQuantity then cover.filledQuantity else cover.quantity) cover sale h)
  rw [hbooked, Option.bind_eq_bind, Option.bind_some]
  split_ifs with hleft
  · exact reportRemaining_isSome _ hleft
  · rfl

/-- The bookkeeping of a sale that was tried again does not divide by zero. -/
theorem afterExitRetries_isSome (r : Replies) (cover : Order) (h : 0 < s.ledger.heldAmount) :
    (afterExitRetries c q r cover s).isSome = true := by
  unfold afterExitRetries
  dsimp only
  split
  · exact exitCriticalStop_isSome _ _ (exitRetriesMismatch_isSome _ _ _ _)
  · rename_i retry _
    obtain ⟨booked, hbooked⟩ := Option.isSome_iff_exists.mp (bookClosed_isSome (q := q)
      (resolvedFillQuantity cover) cover retry.order h)
    rw [hbooked, Option.bind_eq_bind, Option.bind_some]
    split_ifs
    · exact exitCriticalStop_isSome _ _ (exitRetriesMismatch_isSome _ _ _ _)
    · rfl

/-- The exit branch does not divide by zero. -/
theorem closeSplit_isSome (r : Replies) (coinAmount : Binary64) (h : 0 < s.ledger.heldAmount) :
    (closeSplit c q r coinAmount s).isSome = true := by
  unfold closeSplit
  dsimp only
  split_ifs
  · rfl
  · exact afterExitSale_isSome _ _ h
  · exact afterExitRetries_isSome r _ h

/-! ## The re-entry branch -/

/-- The resolved quantity of an order is not negative. -/
theorem resolvedFill_nonneg (order : Order) : 0 ≤ resolvedFillQuantity order := by
  unfold resolvedFillQuantity
  split_ifs with hfilled hquantity
  · exact hfilled.le
  · exact hquantity.le
  · exact le_rfl

/-- The tolerance of the hedge check is less than one in doubles, too. -/
theorem hedgeTolerance_lt_one :
    literal SpotRelay.Model.TradingConfig.hedgeQuantityToleranceRatio < literal 1 := by
  decide +kernel

/-- Numbers of different signs do not match. -/
theorem not_quantitiesMatch {a b : Binary64} (hb : 0 ≤ b) (ha : a < 0) :
    quantitiesMatch a b = false ∧ quantitiesMatch b a = false := by
  have hless : max a.abs b.abs ≤ (a - b).abs := Number.max_abs_le_abs_sub ha.le hb
  have hscale : 0 < max a.abs b.abs := by
    have hneg : 0 < -a := by
      rw [Number.val_lt, Number.val_zero] at ha ⊢
      rw [Number.val_neg]
      linarith
    exact hneg.trans_le ((le_max_right a (-a)).trans (le_max_left _ _))
  have hratio : ¬ (a - b).abs / max a.abs b.abs ≤
      literal SpotRelay.Model.TradingConfig.hedgeQuantityToleranceRatio :=
    not_le.mpr (hedgeTolerance_lt_one.trans_le (Number.one_le_div hscale hless))
  constructor
  · simp only [quantitiesMatch, not_le.mpr hscale, if_false, hratio, decide_false]
  · rw [Number.abs_sub_comm, max_comm] at hratio
    rw [max_comm] at hscale
    simp only [quantitiesMatch, not_le.mpr hscale, if_false, hratio, decide_false]

/-- Legs that match and of which one is not negative add to what is held. -/
theorem bookReentry_isSome (legs : LegFills) (adjustmentPnlKrw : Binary64)
    (h : 0 < s.ledger.heldAmount) (hlegs : 0 ≤ legs.foreignQty ∨ 0 ≤ legs.koreanQty) :
    (bookReentry c q legs adjustmentPnlKrw s).isSome = true := by
  unfold bookReentry
  dsimp only
  split_ifs with hmatch
  · exact exitCriticalStop_isSome _ _ (reentryMismatch_isSome _ _ _ _ _)
  · have hbooked : 0 ≤ min legs.foreignQty legs.koreanQty := by
      rcases hlegs with hforeign | hkorean
      · refine le_min hforeign (not_lt.mp fun hneg => hmatch ?_)
        exact (not_quantitiesMatch hforeign hneg).2
      · refine le_min (not_lt.mp fun hneg => hmatch ?_) hkorean
        exact (not_quantitiesMatch hkorean hneg).1
    exact reportRemaining_isSome _ (h.trans_le (Number.le_add_of_nonneg hbooked))

/-- The correction of re-entry legs does not divide by zero. -/
theorem correctReentry_isSome (r : Replies) {legs : LegFills} (h : 0 < s.ledger.heldAmount)
    (hforeign : 0 ≤ legs.foreignQty) (hkorean : 0 ≤ legs.koreanQty) :
    (correctReentry c q r legs s).isSome = true := by
  unfold correctReentry
  dsimp only
  split_ifs
  · exact bookReentry_isSome _ _ h (Or.inl hforeign)
  · cases r.coverDelta (legs.foreignQty - legs.koreanQty) with
    | none => exact exitCriticalStop_isSome _ _ (reentryMismatch_isSome _ _ _ _ _)
    | some correction => exact bookReentry_isSome _ _ h (Or.inr hkorean)
  · cases r.sellDelta (legs.koreanQty - legs.foreignQty) with
    | none => exact exitCriticalStop_isSome _ _ (reentryMismatch_isSome _ _ _ _ _)
    | some correction => exact bookReentry_isSome _ _ h (Or.inl hforeign)

/-- The re-entry branch, where it is sized while coins are held, does not divide by zero. -/
theorem openSplit_isSome (r : Replies) (coinAmount : Binary64) (h : 0 < s.ledger.heldAmount) :
    (openSplit c q r coinAmount s).isSome = true := by
  unfold openSplit
  dsimp only
  split_ifs
  · rfl
  · rfl
  · exact exitCriticalStop_isSome _ _ (reentryRollbackMismatch_isSome _ _ _ _ _)
  · exact correctReentry_isSome r h (resolvedFill_nonneg _) (resolvedFill_nonneg _)
  · rfl
  · exact exitCriticalStop_isSome _ _ (reentryRollbackMismatch_isSome _ _ _ _ _)

/-- After its branch, an iteration divides by nothing that is zero. -/
theorem exitTrade_isSome_iff (r : Replies) (h : 0 < s.ledger.heldAmount) :
    (exitTrade c r q s).isSome = true ↔ (exitBranch c q s.ledger).isSome = true := by
  unfold exitTrade
  cases hbranch : exitBranch c q s.ledger with
  | none => exact Iff.rfl
  | some branch =>
    refine iff_of_true ?_ rfl
    cases branch with
    | exit coinAmount => exact closeSplit_isSome r coinAmount h
    | reentry coinAmount => exact openSplit_isSome r coinAmount h
    | wait => rfl

end Trading

/-- The result of a call divides by nothing that is zero. -/
theorem finishExit_isSome (c : ExitCall) (s : ExitState) : (finishExit c s).isSome = true := by
  unfold finishExit
  cases s.result with
  | some result => rfl
  | none =>
    dsimp only
    split_ifs with hleft hexited
    · obtain ⟨snap, hsnap⟩ :=
        Option.isSome_iff_exists.mp (remainingSnapshot_isSome c s.lastUsdtRate hleft)
      rw [hsnap]
      rfl
    · rw [checkedDiv_of_pos hexited, checkedDiv_of_pos hexited]
      rfl
    · rfl

/-! ## One iteration -/

/-- The call is at its loop head, and an iteration reads the quotes `q`. -/
structure TradesOn (c : ExitCall) (t : ExitSystem) (x : ExitRound) (q : Quotes) : Prop where
  held : 0 < t.state.ledger.heldAmount
  running : t.state.running = true
  quotes : exitQuotes c (t.rateAt x) x = some q

/-- An iteration divides by nothing that is zero, and where it re-enters, `entry_premium` was
computed from a positive Korean ask, foreign bid and rate. -/
structure DividesAndPrices (c : ExitCall) (t : ExitSystem) (x : ExitRound) : Prop where
  divides : (exitStep c (t.rateAt x) t.state x).isSome = true
  prices : ∀ q coinAmount, TradesOn c t x q →
    exitBranch c q t.state.ledger = some (.reentry coinAmount) →
      (0 < q.koreanAsk ∧ 0 < q.foreignBid ∧ 0 < q.usdtRate) ∧
        reentryPremium q = premiumPct q.koreanAsk q.foreignBid q.usdtRate

/-- The foreign prices in won do not round to nothing, and without an engine a position that is
partly exited is still at its threshold. -/
structure ValuesAtHand (c : ExitCall) (t : ExitSystem) (x : ExitRound) : Prop where
  askValue : ∀ q, TradesOn c t x q → 0 < q.foreignAsk → 0 < q.usdtRate → 0 < q.koreanBid →
    q.foreignAsk * q.usdtRate ≠ 0
  bidValue : ∀ q, TradesOn c t x q → 0 < q.foreignBid → 0 < q.usdtRate → 0 < q.koreanAsk →
    q.foreignBid * q.usdtRate ≠ 0
  signalExits : ∀ q, TradesOn c t x q → c.engine = false →
    t.state.ledger.heldAmount < c.position.foreignAmount →
      ∀ threshold ∈ dynamicExitThreshold t.state.ledger c.position.entryPremium q.usdtRate,
        ∀ premium ∈ exitPremium q, threshold ≤ premium

/-- With an engine, a partly exited position was exited at a positive rate, which is still known. -/
def RateKnown (c : ExitCall) (t : ExitSystem) : Prop :=
  c.engine = true → t.state.ledger.heldAmount < c.position.foreignAmount →
    0 < c.signal.usdtKrwRate ∨ 0 < t.bithumbUsdt

section Iteration

variable {c : ExitCall} {t : ExitSystem} {x : ExitRound} {q : Quotes}

/-- An accepted rate is positive, and a rate that is kept was. -/
theorem onUsdtUpdate_pos {prev price : Binary64} (h : 0 < prev) : 0 < onUsdtUpdate prev price := by
  unfold onUsdtUpdate
  split_ifs with hprice
  · exact h
  · exact h
  · exact not_le.mp hprice

/-- A rate that is known stays known. -/
theorem rateAt_pos (h : 0 < t.bithumbUsdt) : 0 < t.rateAt x :=
  List.foldlRecOn (motive := fun rate => 0 < rate) _ onUsdtUpdate h
    fun _ hpos _ _ => onUsdtUpdate_pos hpos

/-- The rate of an iteration with an engine is positive as soon as one of its sources is. -/
theorem iterationRate_pos_iff (hengine : c.engine = true) (bithumbUsdt : Binary64) :
    0 < iterationRate c bithumbUsdt ↔ 0 < c.signal.usdtKrwRate ∨ 0 < bithumbUsdt := by
  unfold iterationRate
  split_ifs with hbithumb
  · exact iff_of_true hbithumb.2 (Or.inr hbithumb.2)
  · refine ⟨Or.inl, fun h => h.resolve_right fun hpos => hbithumb ⟨hengine, hpos⟩⟩

/-- A side that is not above the spread limit has both of its prices. -/
theorem prices_of_spread {bid ask limit : Binary64} (h : spreadExceeds bid ask limit = false) :
    0 < bid ∧ 0 < ask := by
  unfold spreadExceeds spreadPct at h
  by_cases hmissing : bid ≤ 0 ∨ ask ≤ 0 ∨ ask < bid
  · rw [if_pos hmissing] at h
    cases h
  · exact ⟨not_le.mp fun hbid => hmissing (Or.inl hbid),
      not_le.mp fun hask => hmissing (Or.inr (Or.inl hask))⟩

/-- With an engine the quotes of an iteration are a usable pair at the rate of the iteration. -/
theorem exitQuotes_engine {bithumbUsdt : Binary64} (hengine : c.engine = true)
    (hquotes : exitQuotes c bithumbUsdt x = some q) :
    0 < q.koreanAsk ∧ 0 < q.foreignBid ∧ q.usdtRate = iterationRate c bithumbUsdt := by
  simp only [exitQuotes, hengine, Bool.true_eq_false, if_false] at hquotes
  split_ifs at hquotes with husable
  simp only [quotePairIsUsable, Bool.if_false_left, Bool.and_eq_true, Bool.not_eq_true',
    decide_eq_false_iff_not] at husable
  obtain ⟨-, -, -, hkorean, hforeign⟩ := husable
  cases hquotes
  exact ⟨(prices_of_spread (Bool.eq_false_iff.mpr hkorean)).2, (prices_of_spread hforeign).1, rfl⟩

/-- Without an engine they are the signal's prices, and the bid is missing. -/
theorem exitQuotes_noEngine {bithumbUsdt : Binary64} (hengine : c.engine = false)
    (hquotes : exitQuotes c bithumbUsdt x = some q) : q.foreignBid = 0 := by
  simp only [exitQuotes, hengine, if_true, Option.some.injEq] at hquotes
  rw [← hquotes]

/-- An iteration that trades divides by nothing that is zero where its branch does not. -/
theorem exitStep_isSome_iff (h : TradesOn c t x q) :
    (exitStep c (t.rateAt x) t.state x).isSome = true ↔
      (exitBranch c q t.state.ledger).isSome = true := by
  rw [exitStep, if_pos ⟨h.held, h.running⟩, exitIterate, h.quotes]
  exact exitTrade_isSome_iff x.replies h.held

/-- An iteration that does not trade divides by nothing. -/
theorem exitStep_isSome_of_not_trades (h : ∀ q, ¬ TradesOn c t x q) :
    (exitStep c (t.rateAt x) t.state x).isSome = true := by
  unfold exitStep
  split_ifs with hhead
  · unfold exitIterate
    dsimp only
    cases hquotes : exitQuotes c (t.rateAt x) x with
    | none => rfl
    | some q => exact absurd ⟨hhead.1, hhead.2, hquotes⟩ (h q)
  · rfl

/-- A re-entry with an engine is priced by its quotes and the known rate. -/
theorem prices_of_engine (hknown : RateKnown c t) (hengine : c.engine = true)
    (htrades : TradesOn c t x q) (hless : t.state.ledger.heldAmount < c.position.foreignAmount) :
    0 < q.koreanAsk ∧ 0 < q.foreignBid ∧ 0 < q.usdtRate := by
  obtain ⟨hask, hbid, hrate⟩ := exitQuotes_engine hengine htrades.quotes
  rw [hrate, iterationRate_pos_iff hengine]
  exact ⟨hask, hbid, (hknown hengine hless).imp_right fun h => rateAt_pos h⟩

/-- With its values at hand an iteration finds a branch, and re-enters only with an engine. -/
theorem exitBranch_of_values (hknown : RateKnown c t) (htrades : TradesOn c t x q)
    (hvalues : ValuesAtHand c t x) :
    (exitBranch c q t.state.ledger).isSome = true ∧
      ∀ coinAmount, exitBranch c q t.state.ledger = some (.reentry coinAmount) →
        0 < q.koreanAsk ∧ 0 < q.foreignBid ∧ 0 < q.usdtRate := by
  obtain ⟨exitPm, hexit⟩ := Option.isSome_iff_exists.mp
    (guardedPremium_isSome_iff.mpr (hvalues.askValue q htrades))
  obtain ⟨entryPm, hentry⟩ := Option.isSome_iff_exists.mp
    (guardedPremium_isSome_iff.mpr (hvalues.bidValue q htrades))
  obtain ⟨threshold, hthreshold, hpositive⟩ :=
    exists_dynamicExitThreshold t.state.ledger c.position.entryPremium q.usdtRate
  rw [exitBranch_eq hexit hentry hthreshold]
  split_ifs with hatThreshold hreentry
  · -- a premium at a positive threshold was computed from a positive ask
    have hask := (quotes_of_exitPremium_pos hexit (hpositive.trans_le hatThreshold)).1
    obtain ⟨coinAmount, hcoins⟩ := Option.isSome_iff_exists.mp
      (exitCoinAmount_isSome t.state.ledger.heldAmount hask)
    rw [hcoins]
    refine ⟨rfl, ?_⟩
    rintro _ ⟨⟩
  · have hengine : c.engine = true := by
      by_contra hnone
      rw [Bool.not_eq_true] at hnone
      exact hatThreshold (hvalues.signalExits q htrades hnone hreentry.2 threshold hthreshold
        exitPm hexit)
    have hpriced := prices_of_engine hknown hengine htrades hreentry.2
    refine ⟨?_, fun _ _ => hpriced⟩
    rw [Option.isSome_map]
    exact checkedDiv_isSome_iff.mpr hpriced.2.1.ne'
  · refine ⟨rfl, ?_⟩
    rintro _ ⟨⟩

/-- Where an iteration that trades finds a branch, its values are at hand. -/
theorem values_of_exitBranch (htrades : TradesOn c t x q)
    (hbranch : (exitBranch c q t.state.ledger).isSome = true) : ValuesAtHand c t x := by
  obtain ⟨exitPm, entryPm, hexit, hentry⟩ := exists_premiums hbranch
  have hsame : ∀ q', TradesOn c t x q' → q' = q := fun q' h =>
    Option.some.inj (h.quotes.symm.trans htrades.quotes)
  refine ⟨fun q' h => ?_, fun q' h => ?_, fun q' h hengine hless threshold hthreshold premium
    hpremium => ?_⟩
  · rw [hsame q' h]
    exact guardedPremium_isSome_iff.mp (Option.isSome_of_eq_some hexit)
  · rw [hsame q' h]
    exact guardedPremium_isSome_iff.mp (Option.isSome_of_eq_some hentry)
  · -- below the threshold the default premium re-enters, at the missing bid
    rw [hsame q' h] at hthreshold hpremium
    have hbid : q.foreignBid = 0 := exitQuotes_noEngine hengine htrades.quotes
    have hdefault : reentryPremium q = some 0 := by
      rw [reentryPremium, if_neg]
      rw [hbid]
      exact fun hprices => lt_irrefl _ hprices.1
    by_contra hbelow
    have hzero : (0 : Binary64) ≤ entryPremiumThreshold := by decide +kernel
    rw [exitBranch_eq hpremium hdefault hthreshold, if_neg hbelow, if_pos ⟨hzero, hless⟩,
      reentryCoinAmount, hbid, Option.isSome_map, checkedDiv_isSome_iff] at hbranch
    exact hbranch rfl

/-- An iteration that divides by nothing that is zero has its values at hand. -/
theorem valuesAtHand_of_divides (h : (exitStep c (t.rateAt x) t.state x).isSome = true) :
    ValuesAtHand c t x := by
  by_cases htrades : ∃ q, TradesOn c t x q
  · obtain ⟨q, htrades⟩ := htrades
    exact values_of_exitBranch htrades ((exitStep_isSome_iff htrades).mp h)
  · have hnone : ∀ q, ¬ TradesOn c t x q := not_exists.mp htrades
    exact ⟨fun q htrades => absurd htrades (hnone q), fun q htrades => absurd htrades (hnone q),
      fun q htrades => absurd htrades (hnone q)⟩

/-- An iteration divides by nothing that is zero and re-enters at quotes that it has, exactly where
its values are at hand. -/
theorem dividesAndPrices_iff (hknown : RateKnown c t) :
    DividesAndPrices c t x ↔ ValuesAtHand c t x := by
  refine ⟨fun h => valuesAtHand_of_divides h.divides, fun hvalues => ⟨?_, ?_⟩⟩
  · by_cases htrades : ∃ q, TradesOn c t x q
    · obtain ⟨q, htrades⟩ := htrades
      exact (exitStep_isSome_iff htrades).mpr (exitBranch_of_values hknown htrades hvalues).1
    · exact exitStep_isSome_of_not_trades (not_exists.mp htrades)
  · intro q coinAmount htrades hbranch
    have hpriced := (exitBranch_of_values hknown htrades hvalues).2 coinAmount hbranch
    exact ⟨hpriced, if_pos ⟨hpriced.2.1, hpriced.2.2, hpriced.1⟩⟩

/-- An iteration that changes the ledger exits or re-enters. -/
theorem exists_branch_of_changed (h : (t.step c x).state.ledger ≠ t.state.ledger) :
    ∃ q branch, TradesOn c t x q ∧ exitBranch c q t.state.ledger = some branch ∧
      branch ≠ .wait := by
  by_contra hnone
  refine h ?_
  unfold ExitSystem.step exitStep
  dsimp only
  split_ifs with hhead
  · unfold exitIterate
    dsimp only
    cases hquotes : exitQuotes c (t.rateAt x) x with
    | none => rfl
    | some q =>
      unfold exitTrade
      dsimp only
      cases hbranch : exitBranch c q t.state.ledger with
      | none => rfl
      | some branch =>
        cases branch with
        | wait => rfl
        | exit coinAmount =>
          exact absurd ⟨q, _, ⟨hhead.1, hhead.2, hquotes⟩, hbranch, by simp⟩ hnone
        | reentry coinAmount =>
          exact absurd ⟨q, _, ⟨hhead.1, hhead.2, hquotes⟩, hbranch, by simp⟩ hnone
  · rfl

/-- An iteration leaves a rate known where it leaves a position partly exited. -/
theorem rateKnown_step (hknown : RateKnown c t) : RateKnown c (t.step c x) := by
  intro hengine hless
  -- the rate of the iteration has a source before it, and that source stays
  have hkept : 0 < c.signal.usdtKrwRate ∨ 0 < t.bithumbUsdt →
      0 < c.signal.usdtKrwRate ∨ 0 < (t.step c x).bithumbUsdt :=
    fun h => h.imp_right fun hpos => rateAt_pos hpos
  by_cases hbefore : t.state.ledger.heldAmount < c.position.foreignAmount
  · exact hkept (hknown hengine hbefore)
  · -- the first exit is made at a positive premium, so at a positive rate
    have hchanged : (t.step c x).state.ledger ≠ t.state.ledger := by
      intro hsame
      rw [hsame] at hless
      exact hbefore hless
    obtain ⟨q, branch, htrades, hbranch, htraded⟩ := exists_branch_of_changed hchanged
    cases branch with
    | exit coinAmount =>
      obtain ⟨premium, hpremium, hpositive⟩ := premium_of_exit hbranch
      have hrate := (quotes_of_exitPremium_pos hpremium hpositive).2.1
      rw [(exitQuotes_engine hengine htrades.quotes).2.2, iterationRate_pos_iff hengine] at hrate
      exact hrate
    | reentry coinAmount => exact absurd (less_of_reentry hbranch) hbefore
    | wait => exact absurd rfl htraded

end Iteration

/-! ## A call -/

/-- The property and the condition agree along every run of a call. -/
theorem along_dividesAndPrices_iff (c : ExitCall) (xs : List ExitRound) (t : ExitSystem)
    (hknown : RateKnown c t) :
    Along (DividesAndPrices c) (ExitSystem.step c) t xs ↔
      Along (ValuesAtHand c) (ExitSystem.step c) t xs := by
  induction xs generalizing t with
  | nil => exact Iff.rfl
  | cons x xs ih => exact and_congr (dividesAndPrices_iff hknown) (ih _ (rateKnown_step hknown))

/-- Nothing is exited at the first loop head. -/
theorem rateKnown_of_enter {c : ExitCall} {exchangesAvailable : Bool} {s : ExitState}
    (h : enterExitLoop c exchangesAvailable = .ok s) (bithumbUsdt : Binary64) :
    RateKnown c ⟨bithumbUsdt, s⟩ := by
  unfold enterExitLoop at h
  split_ifs at h
  cases h
  exact fun _ hless => absurd hless (lt_irrefl _)

/-- A call that enters its loop, next to any history of the price cache and whatever the clients
return: it divides by nothing that is zero, in its iterations and in its result, and re-enters only
at quotes that it has, exactly where the values of every iteration are at hand. -/
theorem exit_divisions_iff (c : ExitCall) (exchangesAvailable : Bool) (s : ExitState)
    (henter : enterExitLoop c exchangesAvailable = .ok s) (bithumbUsdt : Binary64)
    (xs : List ExitRound) :
    (Along (DividesAndPrices c) (ExitSystem.step c) ⟨bithumbUsdt, s⟩ xs ∧
        (finishExit c (xs.foldl (ExitSystem.step c) ⟨bithumbUsdt, s⟩).state).isSome = true) ↔
      Along (ValuesAtHand c) (ExitSystem.step c) ⟨bithumbUsdt, s⟩ xs := by
  rw [along_dividesAndPrices_iff c xs _ (rateKnown_of_enter henter bithumbUsdt)]
  exact and_iff_left (finishExit_isSome c _)

/-! ### Two runs -/

/-- A position of 175 coins, bought for 1016.015 won and sold short for 0.7 USD. -/
def heldPosition : Position where
  koreanAmount := literal 175
  foreignAmount := literal 175
  koreanEntryPrice := literal (1016015 / 1000)
  foreignEntryPrice := literal (7 / 10)
  isActive := true

/-- Venues that fill what is ordered, at the quoted prices. -/
def fillingVenues : Replies where
  cover quantity := { filled := true, quantity := quantity }
  sale quantity := { filled := true, quantity := quantity }
  short quantity := { filled := true, quantity := quantity }
  buy _ := { filled := true, quantity := literal 50 }

/-- A call next to an engine that knows no rate yet. -/
def engineCall : ExitCall where
  signal := ⟨literal (7 / 10), literal 1025, 0, literal (1 / 2)⟩
  position := heldPosition

/-- The Korean market falls after an exit, and what was closed is bought back. -/
def engineRounds : List ExitRound :=
  [{ usdtTicks := [literal 1450]
     nowMs := 1100
     foreign := ⟨literal (699 / 1000), literal (7 / 10), 1000, true⟩
     korean := ⟨literal 1025, literal 1030, 1000, true⟩
     replies := fillingVenues },
   { nowMs := 1200
     foreign := ⟨literal (7 / 10), literal (701 / 1000), 1200, true⟩
     korean := ⟨literal 1009, literal 1010, 1200, true⟩
     replies := fillingVenues }]

/-- The general result for a run of two rounds with an engine. -/
theorem exit_divisions_iff_engineRounds :
    (engineRounds.foldl (ExitSystem.step engineCall)
        ⟨0, initialExitState engineCall⟩).state.updates.map (Option.map Position.koreanAmount) =
      [some (literal 125), some (literal 175)] ∧
      Along (DividesAndPrices engineCall) (ExitSystem.step engineCall)
        ⟨0, initialExitState engineCall⟩ engineRounds := by
  refine ⟨by decide +kernel, ?_⟩
  refine ((exit_divisions_iff engineCall true (initialExitState engineCall) (by decide +kernel) 0
    engineRounds).mpr ?_).1
  have hdivides : Along (fun t x => (exitStep engineCall (t.rateAt x) t.state x).isSome = true)
      (ExitSystem.step engineCall) ⟨0, initialExitState engineCall⟩ engineRounds := by
    decide +kernel
  exact hdivides.mono fun _ _ => valuesAtHand_of_divides

/-- A call without an engine, whose signal is at the threshold. -/
def signalCall : ExitCall where
  signal := ⟨literal (7 / 10), literal (1019466 / 1000), literal 1450, literal (44 / 100)⟩
  position := heldPosition
  engine := false

/-- The first exit of 50 coins rounds the averages, and with them the threshold rises above the
unchanged premium: the default premium re-enters, and 0 is divided by the missing bid. -/
theorem rounded_threshold_divides :
    ¬ ∀ (c : ExitCall) (exchangesAvailable : Bool) (s : ExitState),
      enterExitLoop c exchangesAvailable = .ok s → ∀ (bithumbUsdt : Binary64) (xs : List ExitRound),
        Along (DividesAndPrices c) (ExitSystem.step c) ⟨bithumbUsdt, s⟩ xs := by
  intro h
  have hruns := h signalCall true (initialExitState signalCall) (by decide +kernel) 0
    [{ replies := fillingVenues }, { replies := fillingVenues }]
  have hdivides := hruns.2.1.divides
  revert hdivides
  decide +kernel

end SpotRelay.Analysis
