import SpotRelay.Analysis.PositionCap
import SpotRelay.Library.LotRounding

/-!
# The size of an exit

An exit split is sized within `held_amount`.  The venue client then rounds the cover to its
lots, and the rounded quantity is what is sold and booked: the totals stay nonnegative over a run
exactly when every rounded cover still fits into what is held, and on OKX, whose covers are
sized in quote currency, when the coins it reports do.

* **one exit** books within what is held exactly where the rounded cover, and on OKX the reported
  coins, fit (`sellsWithin_iff`).
* **the totals** then stay nonnegative from iteration to iteration (`loopStep_nonnegTotals`).
-/

set_option autoImplicit false

namespace SpotRelay.Analysis

open SpotRelay.Model SpotRelay.Interface SpotRelay.Library.Run
open SpotRelay.Library.AverageCost SpotRelay.Library.LotRounding

/-! ## The exit of an iteration -/

/-- The coin amount of an exit split whose cover the foreign venue acknowledges. -/
def coveredExit (c : Call) (s : LoopState) (x : IterationInput) : Option ℚ :=
  if s.running then
    match iterationQuotes c x.market s.ledger.heldAmount with
    | none => none
    | some q =>
      match branch c q s.ledger with
      | .entry _ => none
      | .exit coinAmount =>
        if (closeCoverLeg c.venues x.replies coinAmount).order.status = .filled then
          some coinAmount
        else none
      | .wait => none
  else none

variable (v : Venues) (r : SplitReplies) (coinAmount : ℚ)

/-- The first Korean sale of an exit split. -/
def firstSale : Fill := closeSellFill v r.korean (closeCoverLeg v r coinAmount).order.quantity

/-- The coins that the foreign venue reports for the cover, or the ordered ones. -/
def coverReported : ℚ := resolvedFillQuantity (closeCoverFill v r coinAmount).order

/-- The coins that the Korean venue reports for the first sale, or the ordered ones. -/
def saleReported : ℚ := resolvedFillQuantity (firstSale v r coinAmount).order

/-- No Korean sale of an exit split exceeds `held`: not the first one, not the correction on top
of what the first one sold, and no retry. -/
def SellsWithin (held : ℚ) : Prop :=
  (closeCoverLeg v r coinAmount).order.quantity ≤ held ∧
    if (firstSale v r coinAmount).done then
      quantitiesMatch (coverReported v r coinAmount) (saleReported v r coinAmount) = false →
        saleReported v r coinAmount < coverReported v r coinAmount →
        saleReported v r coinAmount +
          (coverReported v r coinAmount - saleReported v r coinAmount) ≤ held
    else coverReported v r coinAmount ≤ held

/-- The totals of a ledger are not negative. -/
structure NonnegTotals (l : Ledger) : Prop where
  heldAmount : 0 ≤ l.heldAmount
  totalKoreanCost : 0 ≤ l.totalKoreanCost
  totalForeignValue : 0 ≤ l.totalForeignValue

/-- An iteration sells and books no more than is held, and leaves no negative total. -/
structure ExitsWithinHeld (c : Call) (s : LoopState) (x : IterationInput) : Prop where
  sells : ∀ coinAmount ∈ coveredExit c s x,
    SellsWithin c.venues x.replies coinAmount s.ledger.heldAmount
  books : ClosesWithinHeld c s x
  totals : NonnegTotals (loopStep c s x).ledger

/-! ## The condition -/

/-- The lots of the foreign venue leave room for the exit.  On Bybit the minimum is held, and a
multiple of the step lies between the exit amount, less the tolerance, and the held amount.  On
OKX no multiple that the tolerance lets the exit amount reach is more than is held. -/
def LotFits (ex : Exchange) (lot : Option LotSize) (coinAmount held : ℚ) : Prop :=
  ∀ l ∈ lot,
    match getForeignExchange ex with
    | .okx => 0 < l.qtyStep →
        ∀ k : ℤ, k * l.qtyStep ≤ coinAmount + 1 / 1000000000 * l.qtyStep → k * l.qtyStep ≤ held
    | _ => l.minQty ≤ held ∧ (0 < l.qtyStep →
        ∃ k : ℤ, coinAmount - 1 / 1000000000 * l.qtyStep ≤ k * l.qtyStep ∧ k * l.qtyStep ≤ held)

/-- The coins that OKX reports for the cover are held, or the first sale is filled for as many. -/
def CoverFits (held : ℚ) : Prop :=
  coverReported v r coinAmount ≤ held ∨ (firstSale v r coinAmount).done = true ∧
    quantitiesMatch (coverReported v r coinAmount) (saleReported v r coinAmount) = true

/-- An acknowledged exit fits into what is held. -/
def ExitFits (c : Call) (s : LoopState) (x : IterationInput) : Prop :=
  ∀ coinAmount ∈ coveredExit c s x,
    LotFits c.signal.foreignExchange x.replies.foreign.lot coinAmount s.ledger.heldAmount ∧
      (getForeignExchange c.signal.foreignExchange = .okx →
        CoverFits c.venues x.replies coinAmount s.ledger.heldAmount)

/-- The reports on a foreign order sized in coins: no more of them than were ordered. -/
def ForeignAtMost (r : ForeignReply) (quantity : ℚ) : Prop :=
  (∀ f ∈ r.cachedFill, f.cumExecQty ≤ quantity) ∧
    ∀ poll ∈ r.polls, ∀ f ∈ poll, f.cumExecQty ≤ quantity

/-- The reports on a Korean sale: no more coins than were ordered. -/
def KoreanAtMost (r : KoreanReply) (quantity : ℚ) : Prop :=
  (∀ fill ∈ r.cachedFill, fill.1 ≤ quantity) ∧
    ∀ body ∈ r.response :: r.polls, ∀ b ∈ body,
      b.executedVolume ≤ quantity ∧ (tradeTotals b.trades).1 ≤ quantity ∧ b.volume ≤ quantity

/-- No venue reports more coins for an order that was sized in coins than were ordered.  An OKX
cover is not: it is sized in quote currency. -/
def ReportsWithinOrders (c : Call) (s : LoopState) (x : IterationInput) : Prop :=
  ∀ coinAmount ∈ coveredExit c s x,
    KoreanAtMost x.replies.korean (closeCoverLeg c.venues x.replies coinAmount).order.quantity ∧
      (getForeignExchange c.signal.foreignExchange ≠ .okx →
        ForeignAtMost x.replies.foreign
          (closeCoverLeg c.venues x.replies coinAmount).order.quantity)

/-! ## The exit amount -/

/-- A quantity is covered where the exit branch is taken and its cover order fills. -/
theorem coveredExit_eq_some_iff {c : Call} {s : LoopState} {x : IterationInput} {coinAmount : ℚ} :
    coveredExit c s x = some coinAmount ↔
      s.running = true ∧ ∃ q, iterationQuotes c x.market s.ledger.heldAmount = some q ∧
        branch c q s.ledger = .exit coinAmount ∧
        (closeCoverLeg c.venues x.replies coinAmount).order.status = .filled := by
  unfold coveredExit
  constructor
  · intro h
    split_ifs at h with hrunning
    cases hquotes : iterationQuotes c x.market s.ledger.heldAmount with
    | none => simp [hquotes] at h
    | some q =>
      cases hbranch : branch c q s.ledger with
      | entry amount => simp [hquotes, hbranch] at h
      | wait => simp [hquotes, hbranch] at h
      | exit amount =>
        simp only [hquotes, hbranch] at h
        split_ifs at h with hfilled
        cases h
        exact ⟨hrunning, q, rfl, hbranch, hfilled⟩
  · rintro ⟨hrunning, q, hquotes, hbranch, hfilled⟩
    simp only [if_pos hrunning, hquotes, hbranch, if_pos hfilled]

/-- The exit amount is a part of what is held. -/
theorem exitCoinAmount_mem {held foreignAsk : ℚ} (hheld : 0 < held) :
    0 < exitCoinAmount held foreignAsk ∧ exitCoinAmount held foreignAsk ≤ held := by
  unfold exitCoinAmount
  split_ifs with hsmall
  · exact ⟨hheld, le_refl _⟩
  · have hask : 0 < foreignAsk := by
      have hvalue : 0 < held * foreignAsk := by linarith
      exact pos_of_mul_pos_right hvalue hheld.le
    have hsize : 0 < TradingConfig.orderSizeUsd := by
      norm_num [TradingConfig.orderSizeUsd, TradingConfig.targetEntryUsdt]
    exact ⟨lt_min (div_pos hsize hask) hheld, min_le_right _ _⟩

/-- An exit is sized within what is held. -/
theorem exit_sizing {c : Call} {q : Quotes} {l : Ledger} {coinAmount : ℚ}
    (h : branch c q l = .exit coinAmount) :
    0 < l.heldAmount ∧ 0 < coinAmount ∧ coinAmount ≤ l.heldAmount := by
  obtain ⟨-, hheld, hamount⟩ := exit_of_branch h
  refine ⟨hheld, ?_⟩
  rw [hamount]
  exact exitCoinAmount_mem hheld

/-! ## The rounded cover -/

/-- The Bybit cover, rounded up and raised to the minimum, stays within a bound exactly when the
minimum does and a large enough multiple of the step does. -/
theorem normalizeCloseQty_le_iff {lot : Option LotSize} {coinAmount held : ℚ}
    (hpos : 0 < coinAmount) (hle : coinAmount ≤ held) :
    normalizeCloseQty lot coinAmount ≤ held ↔
      ∀ l ∈ lot, l.minQty ≤ held ∧ (0 < l.qtyStep →
        ∃ k : ℤ, coinAmount - 1 / 1000000000 * l.qtyStep ≤ k * l.qtyStep ∧
          k * l.qtyStep ≤ held) := by
  cases lot with
  | none => simp [normalizeCloseQty, not_le.mpr hpos, hle]
  | some l =>
    have hraised : ∀ qty : ℚ, (if qty < l.minQty then l.minQty else qty) ≤ held ↔
        l.minQty ≤ held ∧ qty ≤ held := by
      intro qty
      split_ifs with hmin
      · exact ⟨fun h => ⟨h, hmin.le.trans h⟩, And.left⟩
      · exact ⟨fun h => ⟨(not_lt.mp hmin).trans h, h⟩, And.right⟩
    simp only [normalizeCloseQty, not_le.mpr hpos, if_false, Option.mem_some_iff, forall_eq']
    rw [hraised]
    refine and_congr_right fun _ => ?_
    split_ifs with hstep
    · rw [← roundUp_le_iff hstep]
      exact ⟨fun h _ => h, fun h => h hstep⟩
    · exact ⟨fun _ h => absurd h hstep, fun _ => hle⟩

/-- The OKX cover, rounded down, stays within a bound exactly when every multiple of the step
does that the tolerance lets the amount reach. -/
theorem normalizeOrderQty_le_iff {lot : Option LotSize} {ticker : Option CachedTicker}
    {coinAmount held : ℚ} (hle : coinAmount ≤ held)
    (hsent : 0 < normalizeOrderQty lot ticker coinAmount false) :
    normalizeOrderQty lot ticker coinAmount false ≤ held ↔
      ∀ l ∈ lot, 0 < l.qtyStep →
        ∀ k : ℤ, k * l.qtyStep ≤ coinAmount + 1 / 1000000000 * l.qtyStep →
          k * l.qtyStep ≤ held := by
  have hpos : 0 < coinAmount := by
    by_contra hnot
    simp [normalizeOrderQty, not_lt.mp hnot] at hsent
  cases lot with
  | none => simp [normalizeOrderQty, not_le.mpr hpos, hle]
  | some l =>
    have hqty : normalizeOrderQty (some l) ticker coinAmount false =
        if 0 < l.qtyStep then roundDown (1 / 1000000000) l.qtyStep coinAmount else coinAmount := by
      simp only [normalizeOrderQty, not_le.mpr hpos, if_false] at hsent ⊢
      split_ifs at hsent ⊢ <;> first
        | rfl
        | exact absurd hsent (lt_irrefl 0)
    rw [hqty]
    simp only [Option.mem_some_iff, forall_eq']
    split_ifs with hstep
    · rw [roundDown_le_iff hstep]
      exact ⟨fun h _ => h, fun h => h hstep⟩
    · exact ⟨fun _ h => absurd h hstep, fun _ => hle⟩

/-- The cover that is sent fits into what is held exactly when the lots leave room for it. -/
theorem cover_le_iff {v : Venues} {r : SplitReplies} {coinAmount held : ℚ} (hpos : 0 < coinAmount)
    (hle : coinAmount ≤ held) (hfilled : (closeCoverLeg v r coinAmount).order.status = .filled) :
    (closeCoverLeg v r coinAmount).order.quantity ≤ held ↔
      LotFits v.foreign r.foreign.lot coinAmount held := by
  obtain ⟨hquantity, hsent, -⟩ := executeForeignCover_filled hfilled
  have hcover : (closeCoverLeg v r coinAmount).order.quantity =
      coverQuantity v.foreign r.foreign coinAmount := hquantity
  rw [hcover]
  unfold coverQuantity LotFits at *
  cases hex : getForeignExchange v.foreign with
  | okx =>
    rw [hex] at hsent
    exact normalizeOrderQty_le_iff hle hsent
  | _ => exact normalizeCloseQty_le_iff hpos hle

/-! ## The reported quantities -/

/-- What the order manager knows of an order is at most `quantity`. -/
def KnownAtMost (order : Order) (quantity : ℚ) : Prop :=
  order.quantity ≤ quantity ∧ order.filledQuantity ≤ quantity

/-- An order known to be filled at most so far resolves to at most that. -/
theorem KnownAtMost.resolved_le {order : Order} {quantity : ℚ} (h : KnownAtMost order quantity)
    (hpos : 0 ≤ quantity) : resolvedFillQuantity order ≤ quantity := by
  unfold resolvedFillQuantity
  split_ifs
  · exact h.2
  · exact h.1
  · exact hpos

/-- An order body within the order leaves the order within it. -/
theorem KnownAtMost.populate {order updated : Order} {b : OrderBody} {quantity : ℚ}
    (h : KnownAtMost order quantity)
    (hb : b.executedVolume ≤ quantity ∧ (tradeTotals b.trades).1 ≤ quantity ∧ b.volume ≤ quantity)
    (hupdated : populateUpbitOrderFromBody (some b) order = some updated) :
    KnownAtMost updated quantity := by
  obtain ⟨hexecuted, htrades, hvolume⟩ := hb
  have hid : ¬ b.uuid.isEmpty = true := by
    intro hempty
    simp [populateUpbitOrderFromBody, hempty] at hupdated
  simp only [populateUpbitOrderFromBody, if_neg hid] at hupdated
  obtain rfl := Option.some.inj hupdated
  constructor
  · dsimp only
    split_ifs
    · exact hvolume
    · exact h.1
  · dsimp only
    split_ifs
    · exact hexecuted
    · exact htrades

/-- An order of the quantity, or of none, of which nothing is filled. -/
theorem knownAtMost_unfilled {order : Order} {quantity : ℚ} (hpos : 0 ≤ quantity)
    (hordered : order.quantity = quantity ∨ order.quantity = 0)
    (hfilled : order.filledQuantity = 0) : KnownAtMost order quantity := by
  refine ⟨?_, hfilled.le.trans hpos⟩
  rcases hordered with hquantity | hquantity
  · exact hquantity.le
  · exact hquantity.le.trans hpos

/-- The answer to an Upbit order leaves it within the order. -/
theorem KnownAtMost.finishUpbit {reply : KoreanReply} {order : Order} {quantity : ℚ}
    (h : KnownAtMost order quantity)
    (hresponse : ∀ b, reply.response = some b → b.executedVolume ≤ quantity ∧
      (tradeTotals b.trades).1 ≤ quantity ∧ b.volume ≤ quantity) :
    KnownAtMost (finishUpbitSubmission reply order) quantity := by
  unfold finishUpbitSubmission
  cases hbody : reply.response with
  | none => exact h
  | some b =>
    cases hupdated : populateUpbitOrderFromBody (some b) order with
    | none => exact h
    | some updated =>
      have hknown := h.populate (hresponse b hbody) hupdated
      dsimp only
      split <;> exact hknown

/-- The answer to a market sale leaves it within the order. -/
theorem executeKoreanSell_knownAtMost (ex : Exchange) {reply : KoreanReply} {quantity : ℚ}
    (hpos : 0 ≤ quantity)
    (hresponse : ∀ b, reply.response = some b → b.executedVolume ≤ quantity ∧
      (tradeTotals b.trades).1 ≤ quantity ∧ b.volume ≤ quantity) :
    KnownAtMost (executeKoreanSell ex reply quantity).order quantity := by
  unfold executeKoreanSell
  cases ex with
  | bithumb =>
    unfold bithumbPlaceMarketOrder
    cases reply.response with
    | none => exact knownAtMost_unfilled hpos (Or.inl rfl) rfl
    | some b => exact knownAtMost_unfilled hpos (Or.inl rfl) rfl
  | upbit =>
    unfold upbitPlaceMarketSell
    split_ifs
    · exact knownAtMost_unfilled hpos (Or.inr rfl) rfl
    · exact (knownAtMost_unfilled hpos (Or.inl rfl) rfl).finishUpbit hresponse
  | bybit => exact knownAtMost_unfilled hpos (Or.inr rfl) rfl
  | okx => exact knownAtMost_unfilled hpos (Or.inr rfl) rfl

/-- An order detail within the order leaves it within the order. -/
theorem KnownAtMost.detail {order updated : Order} {b : OrderBody} {quantity : ℚ}
    (h : KnownAtMost order quantity)
    (hb : b.executedVolume ≤ quantity ∧ (tradeTotals b.trades).1 ≤ quantity)
    (hupdated : queryOrderDetailV1 (some b) order = some updated) :
    KnownAtMost updated quantity := by
  obtain ⟨hexecuted, htrades⟩ := hb
  have hvolume : ¬ b.executedVolume ≤ 0 := by
    intro hnone
    simp [queryOrderDetailV1, hnone] at hupdated
  simp only [queryOrderDetailV1, if_neg hvolume] at hupdated
  obtain rfl := Option.some.inj hupdated
  refine ⟨h.1, ?_⟩
  dsimp only
  split_ifs
  · exact htrades
  · exact hexecuted

/-- The sale is resolved to no more coins than were ordered. -/
theorem closeSellFill_resolved_le {v : Venues} {reply : KoreanReply} {quantity : ℚ}
    (hpos : 0 ≤ quantity) (hreports : KoreanAtMost reply quantity) :
    resolvedFillQuantity (closeSellFill v reply quantity).order ≤ quantity := by
  obtain ⟨hcached, hbodies⟩ := hreports
  have hpolled : ∀ b, some b ∈ reply.polls → b.executedVolume ≤ quantity ∧
      (tradeTotals b.trades).1 ≤ quantity ∧ b.volume ≤ quantity :=
    fun b hb => hbodies (some b) (List.mem_cons_of_mem _ hb) b rfl
  have hplaced : KnownAtMost (executeKoreanSell v.korean reply quantity).order quantity :=
    executeKoreanSell_knownAtMost v.korean hpos fun b hb =>
      hbodies (some b) (hb ▸ List.mem_cons_self) b rfl
  have hqueried : KnownAtMost
      (queryKoreanFill v.korean reply (executeKoreanSell v.korean reply quantity).order)
      quantity := by
    refine queryKoreanFill_keeps (I := fun o => KnownAtMost o quantity) v.korean ?_ ?_ ?_ hplaced
    · intro volume funds hfill order horder
      exact ⟨horder.1, hcached (volume, funds) hfill⟩
    · intro b hb order updated hdetail horder
      obtain ⟨hexecuted, htrades, -⟩ := hpolled b hb
      exact horder.detail ⟨hexecuted, htrades⟩ hdetail
    · intro b hb order updated hbody horder
      exact horder.populate (hpolled b hb) hbody
  exact hqueried.resolved_le hpos

/-- A cover sized in coins is resolved to no more coins than were ordered. -/
theorem coverReported_le {v : Venues} {r : SplitReplies} {coinAmount : ℚ}
    (hfilled : (closeCoverLeg v r coinAmount).order.status = .filled)
    (hreports : ForeignAtMost r.foreign (closeCoverLeg v r coinAmount).order.quantity) :
    coverReported v r coinAmount ≤ (closeCoverLeg v r coinAmount).order.quantity := by
  obtain ⟨hquantity, hsent, hunfilled⟩ := executeForeignCover_filled hfilled
  have hcover : (closeCoverLeg v r coinAmount).order.quantity =
      coverQuantity v.foreign r.foreign coinAmount := hquantity
  obtain ⟨hcached, hpolls⟩ := hreports
  have hpos : 0 < (closeCoverLeg v r coinAmount).order.quantity := hcover ▸ hsent
  have hplaced : KnownAtMost (closeCoverLeg v r coinAmount).order
      (closeCoverLeg v r coinAmount).order.quantity :=
    ⟨le_refl _, hunfilled.le.trans hpos.le⟩
  have hqueried : KnownAtMost
      (queryForeignFill v.foreign r.foreign (closeCoverLeg v r coinAmount).order)
      (closeCoverLeg v r coinAmount).order.quantity := by
    refine queryForeignFill_keeps (I := fun o => KnownAtMost o _) v.foreign ?_ ?_ hplaced
    · intro f hf order horder
      exact ⟨horder.1, hcached f hf⟩
    · intro f hf order horder
      refine ⟨horder.1, ?_⟩
      simp only [Order.applyForeignFill]
      split_ifs
      · exact hpolls (some f) hf f rfl
      · exact horder.2
  exact hqueried.resolved_le hpos.le

/-! ## The booked quantity -/

/-- The smaller leg after the correction is the covered quantity when the correction was sold, and
the sold one otherwise. -/
theorem hedgedClose_le {v : Venues} {r : SplitReplies} {q : Quotes} {legs : LegFills} {covered : ℚ}
    (h : hedgedClose (hedgeClose v r q legs).1 = some covered) :
    covered ≤ legs.koreanQty ∨
      quantitiesMatch legs.foreignQty legs.koreanQty = false ∧ legs.koreanQty < legs.foreignQty ∧
        covered ≤ legs.foreignQty := by
  have hbooked : ∀ {hedged : LegFills} {correction : Option Correction},
      hedgedClose (.done hedged correction) = some covered →
      covered = min hedged.foreignQty hedged.koreanQty := by
    intro hedged correction hdone
    simp only [hedgedClose] at hdone
    split_ifs at hdone
    exact (Option.some.inj hdone).symm
  simp only [hedgeClose] at h
  split_ifs at h with hmatch hless hsold hcovered
  · rw [hbooked h]
    exact Or.inl (min_le_right _ _)
  · rw [hbooked h]
    exact Or.inr ⟨by simpa using hmatch, hless, min_le_left _ _⟩
  · cases h
  · rw [hbooked h]
    exact Or.inl (min_le_right _ _)
  · cases h

/-- An exit that sells within a bound, of which the first sale reports no more than was ordered,
books within it. -/
theorem legsClose_le {v : Venues} {r : SplitReplies} {q : Quotes} {coinAmount held covered : ℚ}
    (hfilled : (closeCoverLeg v r coinAmount).order.status = .filled)
    (hsells : SellsWithin v r coinAmount held)
    (hsale : saleReported v r coinAmount ≤ (closeCoverLeg v r coinAmount).order.quantity)
    (h : legsClose v r q (closeLegs v r coinAmount).1 = some covered) : covered ≤ held := by
  obtain ⟨hfirst, hrest⟩ := hsells
  simp only [closeLegs, hfilled, ne_eq, not_true_eq_false, if_false] at h
  change legsClose v r q (if (firstSale v r coinAmount).done then
    ((_, _) : CloseLegs × List Fill) else _).1 = _ at h
  by_cases hdone : (firstSale v r coinAmount).done = true
  · rw [if_pos hdone] at h hrest
    rcases hedgedClose_le h with hle | ⟨hmatch, hless, hle⟩
    · exact hle.trans (hsale.trans hfirst)
    · have hcorrected := hrest hmatch hless
      rw [add_sub_cancel] at hcorrected
      exact hle.trans hcorrected
  · rw [if_neg hdone] at h hrest
    cases hretries : sellRetries v (coverReported v r coinAmount) (List.ofFn r.retries) with
    | mk outcome fills =>
      rw [coverReported] at hretries
      rw [hretries] at h
      cases outcome with
      | none => cases h
      | some retried =>
        cases h
        exact hrest

/-! ## The totals -/

/-- A correction leaves the price of the Korean leg. -/
theorem hedgeOpen_koreanPrice {v : Venues} {r : SplitReplies} {q : Quotes} {legs hedged : LegFills}
    {correction : Option Correction} {fills : List Fill}
    (h : hedgeOpen v r q legs = (.done hedged correction, fills)) :
    hedged.koreanPrice = legs.koreanPrice := by
  simp only [hedgeOpen] at h
  split_ifs at h
  · simp only [Prod.mk.injEq, Hedge.done.injEq] at h
    obtain ⟨⟨rfl, -⟩, -⟩ := h
    rfl
  · simp only [Prod.mk.injEq, Hedge.done.injEq] at h
    obtain ⟨⟨rfl, -⟩, -⟩ := h
    rfl
  · cases h
  · simp only [Prod.mk.injEq, Hedge.done.injEq] at h
    obtain ⟨⟨rfl, -⟩, -⟩ := h
    rfl
  · cases h

/-- The resolved price is not negative where the fallback is not. -/
theorem resolvedFillPrice_nonneg (order : Order) {fallback : ℚ} (h : 0 ≤ fallback) :
    0 ≤ resolvedFillPrice order fallback := by
  unfold resolvedFillPrice
  split_ifs with haverage
  · exact haverage.le
  · exact h

/-- Booking a closed quantity that is held leaves no negative total. -/
theorem closeSplit_nonnegTotals {l : Ledger} {covered : ℚ} (hl : NonnegTotals l)
    (hheld : 0 < l.heldAmount) (hcovered : 0 ≤ covered) (hle : covered ≤ l.heldAmount)
    (splitPnl : ℚ) : NonnegTotals (l.closeSplit covered splitPnl) := by
  constructor
  · exact sub_nonneg.mpr hle
  · simp only [Ledger.closeSplit, if_pos hheld]
    exact (reduceCost_mem hl.totalKoreanCost hheld hcovered hle).1
  · simp only [Ledger.closeSplit, if_pos hheld]
    exact (reduceCost_mem hl.totalForeignValue hheld hcovered hle).1

/-- An iteration that closes no more than is held leaves no negative total. -/
theorem loopStep_nonnegTotals {c : Call} {s : LoopState} {x : IterationInput}
    (hs : NonnegTotals s.ledger) (hcloses : ClosesWithinHeld c s x) :
    NonnegTotals (loopStep c s x).ledger := by
  have hmove := loopStep_move c s x
  generalize (loopStep c s x).ledger = l at hmove ⊢
  cases hmove with
  | kept => exact hs
  | opened short buy hedged correction fills adjustment hshort hfilled hhedge hmatch =>
    obtain ⟨-, -, -, hbranch⟩ := submittedShort_eq_some_iff.mp hshort
    have hpriced := priced_of_entry hbranch
    have hbooked : 0 ≤ min hedged.foreignQty hedged.koreanQty := by
      refine booked_nonneg ?_ ?_ hhedge hmatch
      · exact resolvedFillQuantity_nonneg _
      · exact resolvedFillQuantity_nonneg _
    have hbuy : 0 ≤ hedged.koreanPrice := by
      rw [hedgeOpen_koreanPrice hhedge]
      exact resolvedFillPrice_nonneg _ hpriced.koreanAsk.le
    have hshort : 0 ≤ hedged.foreignPrice := by
      rw [(hedgeOpen_legs hhedge).1]
      exact resolvedFillPrice_nonneg _ hpriced.foreignBid.le
    exact ⟨add_nonneg hs.heldAmount hbooked,
      add_nonneg hs.totalKoreanCost (mul_nonneg hbooked hbuy),
      add_nonneg hs.totalForeignValue (mul_nonneg hbooked hshort)⟩
  | closed covered splitPnl hheld hbooked =>
    exact closeSplit_nonnegTotals hs hheld (bookedClose_nonneg hbooked) (hcloses _ hbooked) splitPnl
  | completed covered splitPnl hheld hbooked =>
    have hclosed := closeSplit_nonnegTotals hs hheld (bookedClose_nonneg hbooked)
      (hcloses _ hbooked) splitPnl
    exact ⟨hclosed.heldAmount, le_refl 0, le_refl 0⟩

/-! ## Runs -/

/-- An acknowledged exit sells within what is held exactly when it fits. -/
theorem sellsWithin_iff {v : Venues} {r : SplitReplies} {coinAmount held : ℚ}
    (hpos : 0 < coinAmount) (hle : coinAmount ≤ held)
    (hfilled : (closeCoverLeg v r coinAmount).order.status = .filled)
    (hsale : saleReported v r coinAmount ≤ (closeCoverLeg v r coinAmount).order.quantity)
    (hcover : getForeignExchange v.foreign ≠ .okx →
      coverReported v r coinAmount ≤ (closeCoverLeg v r coinAmount).order.quantity) :
    SellsWithin v r coinAmount held ↔
      LotFits v.foreign r.foreign.lot coinAmount held ∧
        (getForeignExchange v.foreign = .okx → CoverFits v r coinAmount held) := by
  unfold SellsWithin CoverFits
  rw [cover_le_iff hpos hle hfilled]
  refine and_congr_right fun hfits => ?_
  have hfirst := (cover_le_iff hpos hle hfilled).mpr hfits
  constructor
  · intro hrest _
    by_cases hdone : (firstSale v r coinAmount).done = true
    · rw [if_pos hdone] at hrest
      by_contra hnot
      simp only [not_or, not_le, not_and, Bool.not_eq_true] at hnot
      obtain ⟨hexceeds, hmatch⟩ := hnot
      -- the first sale is held, so what was covered beyond it is more than was sold
      have hcorrected := hrest (hmatch hdone) ((hsale.trans hfirst).trans_lt hexceeds)
      rw [add_sub_cancel] at hcorrected
      exact absurd hcorrected (not_le.mpr hexceeds)
    · rw [if_neg hdone] at hrest
      exact Or.inl hrest
  · intro hokx
    have hreported : coverReported v r coinAmount ≤ held ∨ (firstSale v r coinAmount).done = true ∧
        quantitiesMatch (coverReported v r coinAmount) (saleReported v r coinAmount) = true := by
      by_cases hex : getForeignExchange v.foreign = .okx
      · exact hokx hex
      · exact Or.inl ((hcover hex).trans hfirst)
    split_ifs with hdone
    · intro hmatch hless
      rw [add_sub_cancel]
      rcases hreported with hheld | ⟨-, hsame⟩
      · exact hheld
      · rw [hsame] at hmatch
        cases hmatch
    · rcases hreported with hheld | ⟨hsold, -⟩
      · exact hheld
      · exact absurd hsold hdone

/-- What an iteration books as closed comes from the legs of an acknowledged exit. -/
theorem exit_of_bookedClose {c : Call} {s : LoopState} {x : IterationInput} {covered : ℚ}
    (h : bookedClose c s x = some covered) :
    ∃ coinAmount q, coveredExit c s x = some coinAmount ∧
      legsClose c.venues x.replies q (closeLegs c.venues x.replies coinAmount).1 =
        some covered := by
  unfold bookedClose at h
  split_ifs at h with hrunning
  cases hquotes : iterationQuotes c x.market s.ledger.heldAmount with
  | none => simp [hquotes] at h
  | some q =>
    cases hbranch : branch c q s.ledger with
    | entry amount => simp [hquotes, hbranch] at h
    | wait => simp [hquotes, hbranch] at h
    | exit coinAmount =>
      simp only [hquotes, hbranch] at h
      have hfilled : (closeCoverLeg c.venues x.replies coinAmount).order.status = .filled := by
        by_contra hnot
        simp [closeLegs, hnot, legsClose] at h
      exact ⟨coinAmount, q,
        coveredExit_eq_some_iff.mpr ⟨hrunning, q, hquotes, hbranch, hfilled⟩, h⟩

/-- One iteration keeps its exit within what is held exactly when the exit fits. -/
theorem exitsWithinHeld_iff {c : Call} {s : LoopState} {x : IterationInput}
    (hs : NonnegTotals s.ledger) (hreports : ReportsWithinOrders c s x) :
    ExitsWithinHeld c s x ↔ ExitFits c s x := by
  have hexit : ∀ coinAmount, coveredExit c s x = some coinAmount →
      (closeCoverLeg c.venues x.replies coinAmount).order.status = .filled ∧
        saleReported c.venues x.replies coinAmount ≤
          (closeCoverLeg c.venues x.replies coinAmount).order.quantity ∧
        (SellsWithin c.venues x.replies coinAmount s.ledger.heldAmount ↔
          LotFits c.signal.foreignExchange x.replies.foreign.lot coinAmount s.ledger.heldAmount ∧
            (getForeignExchange c.signal.foreignExchange = .okx →
              CoverFits c.venues x.replies coinAmount s.ledger.heldAmount)) := by
    intro coinAmount hcovered
    obtain ⟨-, q, -, hbranch, hfilled⟩ := coveredExit_eq_some_iff.mp hcovered
    obtain ⟨-, hpos, hle⟩ := exit_sizing hbranch
    obtain ⟨hkorean, hforeign⟩ := hreports coinAmount hcovered
    obtain ⟨hquantity, hsent, -⟩ := executeForeignCover_filled hfilled
    have hordered : 0 ≤ (closeCoverLeg c.venues x.replies coinAmount).order.quantity :=
      hsent.le.trans_eq hquantity.symm
    have hsale : saleReported c.venues x.replies coinAmount ≤
        (closeCoverLeg c.venues x.replies coinAmount).order.quantity :=
      closeSellFill_resolved_le hordered hkorean
    exact ⟨hfilled, hsale, sellsWithin_iff hpos hle hfilled hsale fun hex =>
      coverReported_le hfilled (hforeign hex)⟩
  constructor
  · intro h coinAmount hcovered
    exact (hexit coinAmount hcovered).2.2.mp (h.sells coinAmount hcovered)
  · intro h
    have hsells : ∀ coinAmount ∈ coveredExit c s x,
        SellsWithin c.venues x.replies coinAmount s.ledger.heldAmount :=
      fun coinAmount hcovered => (hexit coinAmount hcovered).2.2.mpr (h coinAmount hcovered)
    have hbooks : ClosesWithinHeld c s x := by
      intro covered hbooked
      obtain ⟨coinAmount, q, hcovered, hlegs⟩ := exit_of_bookedClose hbooked
      obtain ⟨hfilled, hsale, -⟩ := hexit coinAmount hcovered
      exact legsClose_le hfilled (hsells coinAmount hcovered) hsale hlegs
    exact ⟨hsells, hbooks, loopStep_nonnegTotals hs hbooks⟩

/-- Over every run from nonnegative totals, the exits sell and book no more than is held, and no
total becomes negative, exactly when every acknowledged exit fits. -/
theorem exits_within_held_iff (c : Call) (initial : Option Position) (now : Timestamp)
    (tracker : PositionTracker) (xs : List IterationInput)
    (hstart : NonnegTotals (initialState c initial now tracker).ledger)
    (hreports : Along (ReportsWithinOrders c) (loopStep c) (initialState c initial now tracker)
      xs) :
    Along (ExitsWithinHeld c) (loopStep c) (initialState c initial now tracker) xs ↔
      Along (ExitFits c) (loopStep c) (initialState c initial now tracker) xs :=
  along_iff_of_keeps (fun s => NonnegTotals s.ledger) (fun _ _ => exitsWithinHeld_iff)
    (fun _ _ _ _ h => h.totals) xs _ hstart hreports

/-- A Bybit order of `quantity` coins whose lots are whole coins. -/
def wholeCoins (quantity : ℚ) : ForeignReply :=
  { executingForeign quantity 1 with lot := some ⟨1, 1, 1⟩ }

/-- An entry of 35 coins of which the Korean venue fills `bought`, then an exit of 35 coins. -/
def wholeCoinRun (bought : ℚ) : List IterationInput :=
  [{ market := sampleMarket 1000
     replies := legReplies (wholeCoins 35) (executingKorean .done bought 1000) },
    { market := sampleMarket 1500
      replies := legReplies (wholeCoins 35) (executingKorean .done 35 1500) }]

/-- A full exit of whole coins fits. -/
theorem exits_within_held_wholeCoins :
    Along (ExitsWithinHeld (sampleCall .bithumb .bybit)) (loopStep (sampleCall .bithumb .bybit))
      (initialState (sampleCall .bithumb .bybit) none 0 .empty) (wholeCoinRun 35) := by
  refine (exits_within_held_iff (sampleCall .bithumb .bybit) none 0 .empty (wholeCoinRun 35)
    ⟨le_refl 0, le_refl 0, le_refl 0⟩ ?_).mpr ?_
  · refine ⟨?_, ?_, trivial⟩ <;>
      (simp only [ReportsWithinOrders, KoreanAtMost, ForeignAtMost]; decide +kernel)
  · refine ⟨?_, ?_, trivial⟩
    · intro coinAmount hcovered
      have hnone : (some coinAmount).isSome = false := by
        rw [← hcovered]
        decide +kernel
      cases hnone
    · intro coinAmount hcovered
      obtain rfl : (35 : ℚ) = coinAmount := Option.some.inj (by rw [← hcovered]; decide +kernel)
      refine ⟨?_, fun hex => nomatch hex⟩
      rintro l hl
      obtain rfl := Option.some.inj hl
      exact ⟨by decide +kernel, fun _ => ⟨35, by decide +kernel, by decide +kernel⟩⟩

/-- After a Korean underfill within the hedge tolerance the full exit is rounded up past what is
held. -/
theorem underfilled_exit_oversells :
    ¬ ∀ (c : Call) (initial : Option Position) (now : Timestamp) (tracker : PositionTracker)
      (xs : List IterationInput), NonnegTotals (initialState c initial now tracker).ledger →
      Along (ReportsWithinOrders c) (loopStep c) (initialState c initial now tracker) xs →
      Along (ExitsWithinHeld c) (loopStep c) (initialState c initial now tracker) xs := by
  intro h
  obtain ⟨-, hexit, -⟩ := h (sampleCall .bithumb .bybit) none 0 .empty (wholeCoinRun (34999 / 1000))
    ⟨le_refl 0, le_refl 0, le_refl 0⟩
    ⟨by simp only [ReportsWithinOrders, KoreanAtMost, ForeignAtMost]; decide +kernel,
      by simp only [ReportsWithinOrders, KoreanAtMost, ForeignAtMost]; decide +kernel, trivial⟩
  have hheld := hexit.totals.heldAmount
  revert hheld
  decide +kernel

end SpotRelay.Analysis
