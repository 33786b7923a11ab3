import SpotRelay.Analysis.ClientOrders

/-!
# What a split moves

The orders behind every way a split can end, and what they do to the hedge account when the
order manager's view of them is sound: the correction of a split moves exactly the
difference between its legs before and after, and its cash is the correction's P&L on top
of the legs' own prices.

* **the orders** of an entry and of an exit split, way by way (`openSplit_sent`, `closeLegs_sent`),
  and of the retries of a sale (`sellRetries_sent`).
* **the correction** moves the difference of the legs, or nothing where it failed (`hedgeOpen_done`,
  `hedgeOpen_failed`).
-/

set_option autoImplicit false

namespace SpotRelay.Analysis

open SpotRelay.Model SpotRelay.Interface

/-! ## One order -/

/-- A sound order that counts as done is one trade of the resolved quantity. -/
theorem sum_of_done {leg : Leg} {side : Side} {f : Fill} (hside : OnSide leg side f.trades)
    (hsound : Sound f) (hd : f.done = true) (g : Trade → ℚ) :
    (f.trades.map g).sum =
      g ⟨leg, side, resolvedFillQuantity f.order, f.order.averagePrice⟩ := by
  obtain ⟨t, hone, hqty, hprice, -⟩ := hsound.done hd
  rcases hside with hnil | ⟨quantity, price, hone'⟩
  · rw [hnil] at hone
    cases hone
  · rw [hone', List.singleton_inj] at hone
    subst hone
    rw [hone', ← hqty, ← hprice]
    simp

/-- An order that executed nothing contributes nothing. -/
theorem sum_of_zero {trades : List Trade} (hzero : ∀ t ∈ trades, t.quantity = 0)
    {g : Trade → ℚ} (hg : ∀ t, t.quantity = 0 → g t = 0) : (trades.map g).sum = 0 := by
  apply List.sum_eq_zero
  intro x hx
  obtain ⟨t, ht, rfl⟩ := List.mem_map.mp hx
  exact hg t (hzero t ht)

/-- A fill that was not reported moves nothing. -/
theorem sum_of_notDone {f : Fill} (hsound : Sound f) (hd : f.done = false) {g : Trade → ℚ}
    (hg : ∀ t, t.quantity = 0 → g t = 0) : (f.trades.map g).sum = 0 :=
  sum_of_zero (hsound.notDone hd) hg

/-- Several fills that were not reported move nothing. -/
theorem tally_of_notDone {fills : List Fill} (h : ∀ f ∈ fills, Sound f ∧ f.done = false)
    {g : Trade → ℚ} (hg : ∀ t, t.quantity = 0 → g t = 0) : tally g fills = 0 := by
  induction fills with
  | nil => rfl
  | cons f rest ih =>
    have hf := h f (by simp)
    rw [tally_cons, sum_of_notDone hf.1 hf.2 hg, ih fun g hg => h g (by simp [hg]), add_zero]

/-- A trade of nothing has no signed quantity. -/
theorem signedQty_of_zero {t : Trade} (h : t.quantity = 0) : signedQty t = 0 := by
  unfold signedQty
  split <;> simp [h]

/-- A trade of nothing buys no coins. -/
theorem koreanLong_of_zero (t : Trade) (h : t.quantity = 0) : koreanLong t = 0 := by
  unfold koreanLong
  split
  · exact signedQty_of_zero h
  · rfl

/-- A trade of nothing shorts no coins. -/
theorem foreignShort_of_zero (t : Trade) (h : t.quantity = 0) : foreignShort t = 0 := by
  unfold foreignShort
  split
  · rfl
  · rw [signedQty_of_zero h, neg_zero]

/-- A trade of nothing moves no coins. -/
theorem moved_of_zero (t : Trade) (h : t.quantity = 0) : moved t = 0 := by
  rw [moved, h, abs_zero]

/-- A trade of nothing moves no money. -/
theorem cash_of_zero (rate : ℚ) (t : Trade) (h : t.quantity = 0) : cash rate t = 0 := by
  unfold cash
  split <;> simp [signedQty_of_zero h]

/-- The resolved quantity of an order is not negative. -/
theorem resolvedFillQuantity_nonneg (o : Order) : 0 ≤ resolvedFillQuantity o := by
  unfold resolvedFillQuantity
  split_ifs with h₁ h₂
  · exact h₁.le
  · exact h₂.le
  · exact le_refl 0

/-- A quantity matches itself. -/
theorem quantitiesMatch_self (a : ℚ) : quantitiesMatch a a = true := by
  simp only [quantitiesMatch, sub_self, abs_zero, zero_div]
  split_ifs
  · rfl
  · norm_num [TradingConfig.hedgeQuantityToleranceRatio]

/-- A reported price is used as it is. -/
theorem resolvedFillPrice_of_done {f : Fill} (hsound : Sound f) (hd : f.done = true)
    (fallback : ℚ) : resolvedFillPrice f.order fallback = f.order.averagePrice := by
  obtain ⟨t, -, -, hprice, hpos⟩ := hsound.done hd
  rw [hprice] at hpos
  simp [resolvedFillPrice, hpos]

/-! ## The sides of the legs -/

variable {v : Venues} {r : SplitReplies} {q : Quotes}

/-- The short of an entry sells abroad. -/
theorem openShortFill_onSide (coinAmount : ℚ) :
    OnSide .foreign .sell (openShortFill v r coinAmount).trades :=
  (executeForeignShort_submits v.foreign r.foreign coinAmount).onSide

/-- The buy of an entry buys in Korea. -/
theorem openBuyFill_onSide (krwAmount : ℚ) :
    OnSide .korean .buy (openBuyFill v r krwAmount).trades :=
  (executeKoreanBuy_submits v.korean r.korean krwAmount).trades_onSide

/-- A rollback buys abroad. -/
theorem rollbackFill_onSide (quantity : ℚ) :
    OnSide .foreign .buy (rollbackFill v r quantity).trades :=
  (executeForeignCover_submits v.foreign r.rollback quantity).onSide

/-- The correction of an extra short buys abroad. -/
theorem coverDelta_onSide (quantity : ℚ) :
    OnSide .foreign .buy (coverDelta v r quantity).trades := by
  have htrades := flattenExtraForeignShort_trades v.foreign r.coverDelta quantity
  have hside := (executeForeignCover_submits v.foreign r.coverDelta quantity).onSide
  rw [← htrades] at hside
  exact hside

/-- The correction of an extra long sells in Korea. -/
theorem sellDelta_onSide (quantity : ℚ) :
    OnSide .korean .sell (sellDelta v r quantity).trades := by
  have htrades := flattenExtraKoreanLong_trades v.korean r.sellDelta quantity
  have hside := (executeKoreanSell_submits v.korean r.sellDelta quantity).trades_onSide
  rw [← htrades] at hside
  exact hside

/-- The cover of an exit buys abroad. -/
theorem closeCoverFill_onSide (coinAmount : ℚ) :
    OnSide .foreign .buy (closeCoverFill v r coinAmount).trades :=
  (executeForeignCover_submits v.foreign r.foreign coinAmount).onSide

/-- The sale of an exit sells in Korea. -/
theorem closeSellFill_onSide (reply : KoreanReply) (quantity : ℚ) :
    OnSide .korean .sell (closeSellFill v reply quantity).trades :=
  (executeKoreanSell_submits v.korean reply quantity).trades_onSide

/-! ## Corrections -/

/-- What the correction of an opening split does: `hedged` are the legs after it. -/
structure OpenCorrection (rate : ℚ) (legs hedged : LegFills) (correction : Option Correction)
    (fills : List Fill) : Prop where
  koreanPrice : hedged.koreanPrice = legs.koreanPrice
  foreignPrice : hedged.foreignPrice = legs.foreignPrice
  korean : tally koreanLong fills = hedged.koreanQty - legs.koreanQty
  foreign : tally foreignShort fills = hedged.foreignQty - legs.foreignQty
  koreanMoved : |hedged.koreanQty - legs.koreanQty| ≤ tally moved fills
  foreignMoved : |hedged.foreignQty - legs.foreignQty| ≤ tally moved fills
  /-- Only one leg is corrected. -/
  oneLeg : hedged.koreanQty = legs.koreanQty ∨ hedged.foreignQty = legs.foreignQty
  cash : tally (cash rate) fills =
    entryAdjustmentPnlKrw legs rate correction
      - legs.koreanPrice * (hedged.koreanQty - legs.koreanQty)
      + legs.foreignPrice * (hedged.foreignQty - legs.foreignQty) * rate

/-- A correction of opened legs that succeeds accounts for its fills. -/
theorem hedgeOpen_done {legs hedged : LegFills} {correction : Option Correction}
    {fills : List Fill} (h : hedgeOpen v r q legs = (.done hedged correction, fills))
    (hsound : ∀ f ∈ fills, Sound f) (rate : ℚ) :
    OpenCorrection rate legs hedged correction fills := by
  simp only [hedgeOpen] at h
  split_ifs at h with hmatch hexcess hcover hsale
  · obtain ⟨⟨rfl, rfl⟩, rfl⟩ : (legs = hedged ∧ none = correction) ∧ [] = fills := by simpa using h
    constructor <;> simp [entryAdjustmentPnlKrw]
  · -- the excess short is covered
    simp only [Prod.mk.injEq, Hedge.done.injEq] at h
    obtain ⟨⟨rfl, rfl⟩, rfl⟩ := h
    have hs := hsound _ (List.mem_singleton_self _)
    have hsum := sum_of_done (coverDelta_onSide _) hs hcover
    constructor
    · rfl
    · rfl
    · simp [hsum, koreanLong]
    · simp [hsum, foreignShort, signedQty]
    · simp [hsum, moved]
    · simp [hsum, moved]
    · exact Or.inl rfl
    · simp only [tally_cons, tally_nil, hsum, cash, signedQty, entryAdjustmentPnlKrw,
        resolvedFillPrice_of_done hs hcover]
      ring
  · cases h
  · -- the excess long is sold
    simp only [Prod.mk.injEq, Hedge.done.injEq] at h
    obtain ⟨⟨rfl, rfl⟩, rfl⟩ := h
    have hs := hsound _ (List.mem_singleton_self _)
    have hsum := sum_of_done (sellDelta_onSide _) hs hsale
    constructor
    · rfl
    · rfl
    · simp [hsum, koreanLong, signedQty]
    · simp [hsum, foreignShort]
    · simp [hsum, moved]
    · simp [hsum, moved]
    · exact Or.inr rfl
    · simp only [tally_cons, tally_nil, hsum, cash, signedQty, entryAdjustmentPnlKrw,
        resolvedFillPrice_of_done hs hsale]
      ring
  · cases h

/-- A failed correction leaves an order that does not count as done. -/
theorem hedgeOpen_failed {legs : LegFills} {excess : Leg} {fills : List Fill}
    (h : hedgeOpen v r q legs = (.failed excess, fills)) : ∀ f ∈ fills, f.done = false := by
  simp only [hedgeOpen] at h
  split_ifs at h with hmatch hexcess hcover hsale
  · simp at h
  · simp at h
  · simp only [Prod.mk.injEq] at h
    rw [← h.2]
    simpa using hcover
  · simp at h
  · simp only [Prod.mk.injEq] at h
    rw [← h.2]
    simpa using hsale

/-- What the correction of a closing split does, at the average entry prices of `l`. -/
structure CloseCorrection (rate : ℚ) (l : Ledger) (legs hedged : LegFills)
    (correction : Option Correction) (fills : List Fill) : Prop where
  korean : tally koreanLong fills = -(hedged.koreanQty - legs.koreanQty)
  foreign : tally foreignShort fills = -(hedged.foreignQty - legs.foreignQty)
  koreanMoved : |hedged.koreanQty - legs.koreanQty| ≤ tally moved fills
  foreignMoved : |hedged.foreignQty - legs.foreignQty| ≤ tally moved fills
  cash : tally (cash rate) fills =
    exitAdjustmentPnlKrw l rate correction
      + l.avgKoreanEntry * (hedged.koreanQty - legs.koreanQty)
      - l.avgForeignEntry * (hedged.foreignQty - legs.foreignQty) * rate

/-- A correction of closed legs that succeeds accounts for its fills. -/
theorem hedgeClose_done {legs hedged : LegFills} {correction : Option Correction}
    {fills : List Fill} (h : hedgeClose v r q legs = (.done hedged correction, fills))
    (hsound : ∀ f ∈ fills, Sound f) (rate : ℚ) (l : Ledger) :
    CloseCorrection rate l legs hedged correction fills := by
  simp only [hedgeClose] at h
  split_ifs at h with hmatch hexcess hsale hcover
  · obtain ⟨⟨rfl, rfl⟩, rfl⟩ : (legs = hedged ∧ none = correction) ∧ [] = fills := by simpa using h
    constructor <;> simp [exitAdjustmentPnlKrw]
  · simp only [Prod.mk.injEq, Hedge.done.injEq] at h
    obtain ⟨⟨rfl, rfl⟩, rfl⟩ := h
    have hs := hsound _ (List.mem_singleton_self _)
    have hsum := sum_of_done (sellDelta_onSide _) hs hsale
    constructor
    · simp [hsum, koreanLong, signedQty]
    · simp [hsum, foreignShort]
    · simp [hsum, moved]
    · simp [hsum, moved]
    · simp only [tally_cons, tally_nil, hsum, cash, signedQty, exitAdjustmentPnlKrw,
        resolvedFillPrice_of_done hs hsale]
      ring
  · cases h
  · simp only [Prod.mk.injEq, Hedge.done.injEq] at h
    obtain ⟨⟨rfl, rfl⟩, rfl⟩ := h
    have hs := hsound _ (List.mem_singleton_self _)
    have hsum := sum_of_done (coverDelta_onSide _) hs hcover
    constructor
    · simp [hsum, koreanLong]
    · simp [hsum, foreignShort, signedQty]
    · simp [hsum, moved]
    · simp [hsum, moved]
    · simp only [tally_cons, tally_nil, hsum, cash, signedQty, exitAdjustmentPnlKrw,
        resolvedFillPrice_of_done hs hcover]
      ring
  · cases h

/-- A correction of closed legs that fails has no reported fill. -/
theorem hedgeClose_failed {legs : LegFills} {excess : Leg} {fills : List Fill}
    (h : hedgeClose v r q legs = (.failed excess, fills)) : ∀ f ∈ fills, f.done = false := by
  simp only [hedgeClose] at h
  split_ifs at h with hmatch hexcess hsale hcover
  · simp at h
  · simp at h
  · simp only [Prod.mk.injEq] at h
    rw [← h.2]
    simpa using hsale
  · simp at h
  · simp only [Prod.mk.injEq] at h
    rw [← h.2]
    simpa using hcover

/-! ## The orders behind each outcome -/

/-- The ways an opening split can end, with the orders it sent. -/
inductive OpenSent (v : Venues) (r : SplitReplies) (q : Quotes) :
    OpenSplit → List Fill → Prop
  | shortFailed (coinAmount : ℚ) (hd : (openShortLeg v r coinAmount).order.status ≠ .filled) :
      OpenSent v r q .shortFailed [(openShortLeg v r coinAmount).toFill]
  | minOrderRolledBack (short rollback : Fill) (hshort : OnSide .foreign .sell short.trades)
      (hrollback : OnSide .foreign .buy rollback.trades) :
      OpenSent v r q (.minOrderRolledBack short rollback) [short, rollback]
  | minOrderRollbackFailed (short rollback : Fill)
      (hside : OnSide .foreign .sell short.trades)
      (hd : short.done = true) (hrollback : rollback.done = false) :
      OpenSent v r q (.minOrderRollbackFailed short) [short, rollback]
  | buyRolledBack (short buy rollback : Fill) (hshort : OnSide .foreign .sell short.trades)
      (hbuy : OnSide .korean .buy buy.trades) (hd : buy.done = false)
      (hrollback : OnSide .foreign .buy rollback.trades) :
      OpenSent v r q (.buyRolledBack short rollback) [short, buy, rollback]
  | buyRollbackFailed (short buy rollback : Fill)
      (hside : OnSide .foreign .sell short.trades) (hd : short.done = true)
      (hbuy : buy.done = false) (hrollback : rollback.done = false) :
      OpenSent v r q (.buyRollbackFailed short) [short, buy, rollback]
  | correctionFailed (coinAmount krwAmount : ℚ) (excess : Leg) (fills : List Fill)
      (hshort : (openShortFill v r coinAmount).done = true)
      (hbuy : (openBuyFill v r krwAmount).done = true)
      (hhedge : hedgeOpen v r q (openLegs q (openShortFill v r coinAmount).order
        (openBuyFill v r krwAmount).order) = (.failed excess, fills)) :
      OpenSent v r q
        (.correctionFailed excess (openLegs q (openShortFill v r coinAmount).order
          (openBuyFill v r krwAmount).order))
        (openShortFill v r coinAmount :: openBuyFill v r krwAmount :: fills)
  | mismatched (coinAmount krwAmount : ℚ) (hedged : LegFills) (correction : Option Correction)
      (fills : List Fill)
      (hshort : (openShortFill v r coinAmount).done = true)
      (hbuy : (openBuyFill v r krwAmount).done = true)
      (hhedge : hedgeOpen v r q (openLegs q (openShortFill v r coinAmount).order
        (openBuyFill v r krwAmount).order) = (.done hedged correction, fills)) :
      OpenSent v r q (.mismatched hedged correction)
        (openShortFill v r coinAmount :: openBuyFill v r krwAmount :: fills)
  | matched (coinAmount krwAmount : ℚ) (hedged : LegFills) (correction : Option Correction)
      (fills : List Fill)
      (hshort : (openShortFill v r coinAmount).done = true)
      (hbuy : (openBuyFill v r krwAmount).done = true)
      (hhedge : hedgeOpen v r q (openLegs q (openShortFill v r coinAmount).order
        (openBuyFill v r krwAmount).order) = (.done hedged correction, fills))
      (hmatch : quantitiesMatch hedged.foreignQty hedged.koreanQty = true) :
      OpenSent v r q (.matched hedged correction)
        (openShortFill v r coinAmount :: openBuyFill v r krwAmount :: fills)

/-- A short that is acknowledged still counts as done after its fill query. -/
theorem openShortFill_done {coinAmount : ℚ}
    (h : (openShortLeg v r coinAmount).order.status = .filled) :
    (openShortFill v r coinAmount).done = true := by
  simp [openShortFill, Placed.toFill, queryForeignFill_status, h]

/-- What the opening of a split has sent, by its outcome. -/
theorem openSplit_sent (v : Venues) (r : SplitReplies) (q : Quotes) (coinAmount : ℚ) :
    OpenSent v r q (openSplit v r q coinAmount).1 (openSplit v r q coinAmount).2 := by
  have hside : OnSide .foreign .sell (openShortLeg v r coinAmount).toFill.trades :=
    (executeForeignShort_submits v.foreign r.foreign coinAmount).onSide
  unfold openSplit
  by_cases hfilled : (openShortLeg v r coinAmount).order.status = .filled
  · simp only [hfilled, ne_eq, not_true_eq_false, if_false]
    by_cases hmin : (openShortLeg v r coinAmount).order.quantity * q.koreanAsk
        < TradingConfig.minOrderKrw
    · simp only [hmin, if_true, openBelowMinimum]
      split_ifs with hrollback
      · exact .minOrderRollbackFailed _ _ hside (by simp [Placed.toFill, hfilled]) hrollback
      · exact .minOrderRolledBack _ _ hside (rollbackFill_onSide _)
    · simp only [hmin, if_false]
      have hshort := openShortFill_done hfilled
      split_ifs with hbuy
      · unfold openHedged
        simp only
        split
        · rename_i hhedge
          exact .correctionFailed coinAmount _ _ _ hshort hbuy hhedge
        · rename_i hhedge
          split_ifs with hmatch
          · exact .matched coinAmount _ _ _ _ hshort hbuy hhedge hmatch
          · exact .mismatched coinAmount _ _ _ _ hshort hbuy hhedge
      · unfold openBuyFailed
        have hbuy' : (openBuyFill v r
            ((openShortLeg v r coinAmount).order.quantity * q.koreanAsk)).done = false := by
          simpa using hbuy
        simp only
        split_ifs with hrollback
        · exact .buyRollbackFailed _ _ _ (openShortFill_onSide _) hshort hbuy' hrollback
        · exact .buyRolledBack _ _ _ (openShortFill_onSide _) (openBuyFill_onSide _) hbuy'
            (rollbackFill_onSide _)
  · simp only [hfilled, ne_eq, not_false_eq_true, if_true]
    exact .shortFailed coinAmount hfilled

/-- The ways the legs of a closing split can end, with the orders they sent. -/
inductive CloseSent (v : Venues) (r : SplitReplies) : CloseLegs → List Fill → Prop
  | coverFailed (coinAmount : ℚ) (hd : (closeCoverLeg v r coinAmount).order.status ≠ .filled) :
      CloseSent v r .coverFailed [(closeCoverLeg v r coinAmount).toFill]
  | sold (coinAmount quantity : ℚ) (hcover : (closeCoverFill v r coinAmount).done = true)
      (hsale : (closeSellFill v r.korean quantity).done = true) :
      CloseSent v r (.sold (closeCoverFill v r coinAmount) (closeSellFill v r.korean quantity))
        [closeCoverFill v r coinAmount, closeSellFill v r.korean quantity]
  | retrySold (coinAmount quantity : ℚ) (sale : Fill) (failed : List Fill) (i : Fin 5)
      (hcover : (closeCoverFill v r coinAmount).done = true)
      (hside : ∀ f ∈ sale :: failed, OnSide .korean .sell f.trades)
      (hd : ∀ f ∈ sale :: failed, f.done = false) :
      CloseSent v r
        (.retrySold (closeCoverFill v r coinAmount) (closeSellFill v (r.retries i) quantity))
        (closeCoverFill v r coinAmount ::
          (sale :: failed ++ [closeSellFill v (r.retries i) quantity]))
  | retriesFailed (coinAmount : ℚ) (sale : Fill) (failed : List Fill)
      (hcover : (closeCoverFill v r coinAmount).done = true)
      (hside : ∀ f ∈ sale :: failed, OnSide .korean .sell f.trades)
      (hd : ∀ f ∈ sale :: failed, f.done = false) :
      CloseSent v r (.retriesFailed (closeCoverFill v r coinAmount))
        (closeCoverFill v r coinAmount :: sale :: failed)

/-- The retry loop sends refused orders, then at most one that is accepted. -/
theorem sellRetries_sent (v : Venues) (quantity : ℚ) (replies : List KoreanReply) :
    ∃ failed : List Fill,
      (∀ f ∈ failed, f.done = false ∧ OnSide .korean .sell f.trades) ∧
      (sellRetries v quantity replies = (none, failed) ∨
        ∃ reply ∈ replies, sellRetries v quantity replies =
          (some (closeSellFill v reply quantity), failed ++ [closeSellFill v reply quantity])) := by
  induction replies with
  | nil => exact ⟨[], by simp, Or.inl rfl⟩
  | cons reply rest ih =>
    by_cases hfilled : (executeKoreanSell v.korean reply quantity).order.status = .filled
    · refine ⟨[], by simp, Or.inr ⟨reply, by simp, ?_⟩⟩
      simp [sellRetries, hfilled]
    · obtain ⟨failed, hfailed, htail⟩ := ih
      refine ⟨(executeKoreanSell v.korean reply quantity).toFill :: failed, ?_, ?_⟩
      · intro f hf
        rcases List.mem_cons.mp hf with rfl | hf
        · refine ⟨by simp [Placed.toFill, hfilled], ?_⟩
          exact (executeKoreanSell_submits v.korean reply quantity).trades_onSide
        · exact hfailed f hf
      · rcases htail with hnone | ⟨reply', hmem, hsome⟩
        · left
          simp [sellRetries, hfilled, hnone]
        · right
          refine ⟨reply', by simp [hmem], ?_⟩
          simp [sellRetries, hfilled, hsome]

/-- What the closing of a split has sent, by its outcome. -/
theorem closeLegs_sent (v : Venues) (r : SplitReplies) (coinAmount : ℚ) :
    CloseSent v r (closeLegs v r coinAmount).1 (closeLegs v r coinAmount).2 := by
  unfold closeLegs
  by_cases hfilled : (closeCoverLeg v r coinAmount).order.status = .filled
  · simp only [hfilled, ne_eq, not_true_eq_false, if_false]
    have hcover : (closeCoverFill v r coinAmount).done = true := by
      simp [closeCoverFill, Placed.toFill, queryForeignFill_status, hfilled]
    split_ifs with hsale
    · exact .sold coinAmount _ hcover hsale
    · have hsale' : (closeSellFill v r.korean
          (closeCoverLeg v r coinAmount).order.quantity).done = false := by
        simpa using hsale
      obtain ⟨failed, hfailed, hnone | ⟨reply, hmem, hsome⟩⟩ := sellRetries_sent v
        (resolvedFillQuantity (closeCoverFill v r coinAmount).order) (List.ofFn r.retries)
      · rw [hnone]
        refine .retriesFailed coinAmount _ failed hcover ?_ ?_
        · intro f hf
          rcases List.mem_cons.mp hf with rfl | hf
          · exact closeSellFill_onSide _ _
          · exact (hfailed f hf).2
        · intro f hf
          rcases List.mem_cons.mp hf with rfl | hf
          · exact hsale'
          · exact (hfailed f hf).1
      · obtain ⟨i, rfl⟩ := List.mem_ofFn.mp hmem
        rw [hsome]
        refine .retrySold coinAmount _ _ failed i hcover ?_ ?_
        · intro f hf
          rcases List.mem_cons.mp hf with rfl | hf
          · exact closeSellFill_onSide _ _
          · exact (hfailed f hf).2
        · intro f hf
          rcases List.mem_cons.mp hf with rfl | hf
          · exact hsale'
          · exact (hfailed f hf).1
  · simp only [hfilled, ne_eq, not_false_eq_true, if_true]
    exact .coverFailed coinAmount hfilled

end SpotRelay.Analysis
