import SpotRelay.Analysis.CashConservation
import SpotRelay.Analysis.EntryQuotes
import SpotRelay.Analysis.HedgeDrift

/-!
# What a rollback leaves behind

An entry that cannot be hedged buys its short back.  The loop looks at the status of that cover
and at nothing else of it: neither the coins it bought nor what they cost reach the books, so a
rollback is neutral exactly when the venue buys back what it sold, for the same money.

* **an iteration that rolls back** records its orders and nothing else (`loopStep_of_rolledBack`).
* **it is neutral** exactly when the venue buys back what it sold, for the same money
  (`rollbacksNeutral_iff`).
-/

set_option autoImplicit false

namespace SpotRelay.Analysis

open SpotRelay.Model SpotRelay.Interface
open SpotRelay.Library.Run SpotRelay.Library.Tolerance

/-- What the trades of an order are worth in quote currency. -/
def turnover (f : Fill) : ℚ := (f.trades.map fun t => t.quantity * t.price).sum

/-- The short and the cover of an iteration that ends in a rollback reported `Filled`. -/
def rolledBack (c : Call) (s : LoopState) (x : IterationInput) : Option (Fill × Fill) :=
  match submittedShort c s x with
  | none => none
  | some short =>
    match (openSplit c.venues x.replies short.quotes short.coinAmount).1 with
    | .minOrderRolledBack short rollback => some (short, rollback)
    | .buyRolledBack short rollback => some (short, rollback)
    | _ => none

/-- A rollback leaves the true foreign short where it was, up to the hedge tolerance of what was
traded, or stops the loop; and the realized P&L moves by what the two orders brought in. -/
structure RollbackNeutral (c : Call) (s : LoopState) (x : IterationInput) (short rollback : Fill) :
    Prop where
  quantity : (loopStep c s x).running = false ∨
    |traceTally foreignShort (loopStep c s x).events - traceTally foreignShort s.events| ≤
      tolerance * max |executed short| |executed rollback|
  money : (loopStep c s x).ledger.realizedPnlKrw =
    s.ledger.realizedPnlKrw + (turnover short - turnover rollback) * iterationRate c x.market

/-- Every rollback of an iteration is neutral. -/
def RollbacksNeutral (c : Call) (s : LoopState) (x : IterationInput) : Prop :=
  ∀ orders ∈ rolledBack c s x, RollbackNeutral c s x orders.1 orders.2

/-- Where an iteration rolls back, the venue executes as many coins for the cover as for the
short, and for the same money. -/
def BuysBack (c : Call) (s : LoopState) (x : IterationInput) : Prop :=
  (rolledBack c s x).isSome = true →
    quantitiesMatch x.replies.foreign.executed x.replies.rollback.executed = true ∧
      x.replies.foreign.executed * x.replies.foreign.price =
        x.replies.rollback.executed * x.replies.rollback.price

/-! ## The orders of a rollback -/

/-- An acknowledged foreign order is one trade. -/
theorem SubmitsForeign.trades_of_filled {side : Side} {r : ForeignReply} {p : Placed}
    (h : SubmitsForeign side r p) (hfilled : p.order.status = .filled) :
    p.trades = [⟨.foreign, side, r.executed, r.price⟩] := by
  rcases h with ⟨hrejected, -⟩ | ⟨ex, adjQty, -, rfl⟩
  · rw [hrejected] at hfilled
    cases hfilled
  · exact submitForeign_trades _ _ _ _

/-- The trades behind a rollback: what the short sold and what the cover bought, with a Korean
order between them or none. -/
structure RollbackOrders (r : SplitReplies) (short rollback : Fill) (fills : List Fill) : Prop where
  sold : short.trades = [⟨.foreign, .sell, r.foreign.executed, r.foreign.price⟩]
  bought : rollback.trades = [⟨.foreign, .buy, r.rollback.executed, r.rollback.price⟩]
  sent : fills = [short, rollback] ∨
    ∃ buy, fills = [short, buy, rollback] ∧ OnSide .korean .buy buy.trades

/-- A rollback that is done is an acknowledged cover. -/
theorem rollbackFill_trades {v : Venues} {r : SplitReplies} {quantity : ℚ}
    (hdone : ¬ (rollbackFill v r quantity).done = false) :
    (rollbackFill v r quantity).trades =
      [⟨.foreign, .buy, r.rollback.executed, r.rollback.price⟩] := by
  have hfilled : (executeForeignCover v.foreign r.rollback quantity).order.status = .filled := by
    simpa [rollbackFill, Placed.toFill] using hdone
  exact (executeForeignCover_submits v.foreign r.rollback quantity).trades_of_filled hfilled

/-- A split whose buy was reported `Filled` is not rolled back. -/
theorem openHedged_not_rolledBack {v : Venues} {r : SplitReplies} {q : Quotes}
    (short buy short' rollback : Fill) :
    ¬ ((openHedged v r q short buy).1 = .minOrderRolledBack short' rollback ∨
      (openHedged v r q short buy).1 = .buyRolledBack short' rollback) := by
  unfold openHedged
  dsimp only
  generalize hedgeOpen v r q (openLegs q short.order buy.order) = outcome
  obtain ⟨hedge, fills⟩ := outcome
  cases hedge with
  | failed excess => simp
  | done hedged correction =>
    dsimp only
    split_ifs <;> simp

/-- What an opening split that rolls back has sent. -/
theorem openSplit_rolledBack {v : Venues} {r : SplitReplies} {q : Quotes} {coinAmount : ℚ}
    {short rollback : Fill}
    (h : (openSplit v r q coinAmount).1 = .minOrderRolledBack short rollback ∨
      (openSplit v r q coinAmount).1 = .buyRolledBack short rollback) :
    RollbackOrders r short rollback (openSplit v r q coinAmount).2 := by
  unfold openSplit at h ⊢
  by_cases hfilled : (openShortLeg v r coinAmount).order.status = .filled
  · have hsold : (openShortLeg v r coinAmount).trades =
        [⟨.foreign, .sell, r.foreign.executed, r.foreign.price⟩] :=
      (executeForeignShort_submits v.foreign r.foreign coinAmount).trades_of_filled hfilled
    simp only [hfilled, ne_eq, not_true_eq_false, if_false] at h ⊢
    by_cases hminimum : (openShortLeg v r coinAmount).order.quantity * q.koreanAsk
        < TradingConfig.minOrderKrw
    · simp only [hminimum, if_true, openBelowMinimum] at h ⊢
      by_cases hdone : (rollbackFill v r
          (openShortLeg v r coinAmount).toFill.order.quantity).done = false
      · simp only [if_pos hdone, reduceCtorEq, or_self] at h
      · simp only [if_neg hdone, OpenSplit.minOrderRolledBack.injEq, reduceCtorEq, or_false] at h ⊢
        obtain ⟨rfl, rfl⟩ := h
        exact ⟨hsold, rollbackFill_trades hdone, Or.inl rfl⟩
    · simp only [hminimum, if_false] at h ⊢
      split_ifs at h ⊢ with hbuy
      · exact absurd h (openHedged_not_rolledBack _ _ _ _)
      · unfold openBuyFailed at h ⊢
        dsimp only at h ⊢
        by_cases hdone : (rollbackFill v r
            (resolvedFillQuantity (openShortFill v r coinAmount).order)).done = false
        · simp only [if_pos hdone, reduceCtorEq, or_self] at h
        · simp only [if_neg hdone, OpenSplit.buyRolledBack.injEq, reduceCtorEq, false_or] at h ⊢
          obtain ⟨rfl, rfl⟩ := h
          exact ⟨hsold, rollbackFill_trades hdone, Or.inr ⟨_, rfl, openBuyFill_onSide _⟩⟩
  · simp only [hfilled, ne_eq, not_false_eq_true, if_true, reduceCtorEq, or_self] at h

/-- What the loop does in an iteration that rolls back: it records the orders and nothing else. -/
theorem loopStep_of_rolledBack {c : Call} {s : LoopState} {x : IterationInput}
    {short rollback : Fill} (h : rolledBack c s x = some (short, rollback)) :
    ∃ fills, RollbackOrders x.replies short rollback fills ∧
      loopStep c s x =
        { s with lastUsdtRate := iterationRate c x.market }.emit [.orders fills] ∧
      s.running = true ∧ 0 < iterationRate c x.market := by
  unfold rolledBack at h
  cases hshort : submittedShort c s x with
  | none => simp [hshort] at h
  | some entry =>
    rw [hshort] at h
    dsimp only at h
    obtain ⟨hrunning, -, hquotes, hbranch⟩ := submittedShort_eq_some_iff.mp hshort
    have hrate : 0 < iterationRate c x.market := by
      rw [← iterationQuotes_rate hquotes]
      exact (priced_of_entry hbranch).rate
    have hstep := loopStep_of_submittedShort hshort
    dsimp only at hstep
    have horders := @openSplit_rolledBack c.venues x.replies entry.quotes entry.coinAmount short
      rollback
    generalize openSplit c.venues x.replies entry.quotes entry.coinAmount = split at h hstep horders
    obtain ⟨outcome, fills⟩ := split
    cases outcome with
    | minOrderRolledBack short' rollback' =>
      simp only [Option.some.injEq, Prod.mk.injEq] at h
      obtain ⟨rfl, rfl⟩ := h
      exact ⟨fills, horders (Or.inl rfl), hstep, hrunning, hrate⟩
    | buyRolledBack short' rollback' =>
      simp only [Option.some.injEq, Prod.mk.injEq] at h
      obtain ⟨rfl, rfl⟩ := h
      exact ⟨fills, horders (Or.inr rfl), hstep, hrunning, hrate⟩
    | _ => cases h

/-- The orders of a rollback move the foreign short by what was sold and not bought back. -/
theorem RollbackOrders.foreignShort {r : SplitReplies} {short rollback : Fill} {fills : List Fill}
    (h : RollbackOrders r short rollback fills) :
    tally foreignShort fills = r.foreign.executed - r.rollback.executed := by
  obtain hsent | ⟨buy, hsent, hbuy⟩ := h.sent
  · simp [hsent, h.sold, h.bought, Interface.foreignShort, signedQty, sub_eq_add_neg]
  · have hkorean : (buy.trades.map Interface.foreignShort).sum = 0 := by
      rcases hbuy with hnil | ⟨quantity, price, hone⟩
      · simp [hnil]
      · simp [hone, Interface.foreignShort]
    simp [hsent, h.sold, h.bought, hkorean, Interface.foreignShort, signedQty, sub_eq_add_neg]

/-- A rollback is neutral exactly when the venue buys back what it sold, for the same money. -/
theorem rollbacksNeutral_iff (c : Call) (s : LoopState) (x : IterationInput) :
    RollbacksNeutral c s x ↔ BuysBack c s x := by
  unfold RollbacksNeutral BuysBack
  cases hrolled : rolledBack c s x with
  | none => simp
  | some orders =>
    obtain ⟨short, rollback⟩ := orders
    obtain ⟨fills, horders, hstep, hrunning, hrate⟩ := loopStep_of_rolledBack hrolled
    have hsold : executed short = x.replies.foreign.executed := executed_of_single horders.sold
    have hbought : executed rollback = x.replies.rollback.executed :=
      executed_of_single horders.bought
    have hproceeds : turnover short = x.replies.foreign.executed * x.replies.foreign.price := by
      simp [turnover, horders.sold]
    have hcost : turnover rollback = x.replies.rollback.executed * x.replies.rollback.price := by
      simp [turnover, horders.bought]
    have hmoved : traceTally foreignShort (loopStep c s x).events -
        traceTally foreignShort s.events =
        x.replies.foreign.executed - x.replies.rollback.executed := by
      rw [hstep]
      simp [horders.foreignShort]
    have hbooked : (loopStep c s x).ledger.realizedPnlKrw = s.ledger.realizedPnlKrw := by
      rw [hstep, emit_ledger]
    have halive : (loopStep c s x).running = true := by
      rw [hstep]
      exact hrunning
    simp only [Option.mem_some_iff, forall_eq', Option.isSome_some, forall_const,
      quantitiesMatch_iff]
    constructor
    · rintro ⟨hquantity, hmoney⟩
      rw [halive, hmoved, hsold, hbought] at hquantity
      refine ⟨hquantity.resolve_left (by simp), ?_⟩
      rw [hbooked, hproceeds, hcost, left_eq_add, mul_eq_zero] at hmoney
      exact sub_eq_zero.mp (hmoney.resolve_right hrate.ne')
    · rintro ⟨hquantity, hmoney⟩
      refine ⟨Or.inr ?_, ?_⟩
      · rw [hmoved, hsold, hbought]
        exact hquantity
      · rw [hbooked, hproceeds, hcost, hmoney, sub_self, zero_mul, add_zero]

/-! ## Runs -/

/-- In every run, all rollbacks are neutral exactly when in each of them the venue buys back what
it sold, for the same money. -/
theorem rollbacks_neutral_iff (c : Call) (initial : Option Position) (now : Timestamp)
    (tracker : PositionTracker) (xs : List IterationInput) :
    Along (RollbacksNeutral c) (loopStep c) (initialState c initial now tracker) xs ↔
      Along (BuysBack c) (loopStep c) (initialState c initial now tracker) xs :=
  along_congr (rollbacksNeutral_iff c) _ xs

/-- An entry of 35 coins at one dollar whose Korean buy is refused, and whose cover buys
`bought` coins at `price`. -/
def refusedBuy (bought price : ℚ) : IterationInput where
  market := sampleMarket 1000
  replies :=
    { legReplies (executingForeign 35 1) rejectingKorean with
      rollback := executingForeign bought price }

/-- A cover of fewer coins at a higher price: one coin stays short, and no won is booked. -/
theorem refusedBuy_not_neutral :
    ¬ ∀ (c : Call) (initial : Option Position) (now : Timestamp) (tracker : PositionTracker)
      (xs : List IterationInput),
      Along (RollbacksNeutral c) (loopStep c) (initialState c initial now tracker) xs := by
  intro h
  have hneutral := (h (sampleCall .bithumb .bybit) none 0 .empty [refusedBuy 34 (101 / 100)]).1
  have hback := (rollbacksNeutral_iff _ _ _).mp hneutral (by decide +kernel)
  revert hback
  decide +kernel

end SpotRelay.Analysis
