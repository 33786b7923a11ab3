import SpotRelay.Analysis.HedgeDrift
import SpotRelay.Model.ExitLoop

/-!
# The hedge of the exit loop

The exit loop has the splits of the entry loop, but its exit branch books the covered
quantity on both legs and never reads what the sale executed.  Its hedge holds as long as the
sale of every surviving split executes what the cover executed; a sale that falls short is
neither corrected nor does it stop the loop.

* **one iteration** stays hedged where its sale executes what its cover did (`exitIterate_hedged`),
  because the entry branch books what it executed (`afterReentry_hedged`) and the exit branch what
  it covered (`afterExitClose_hedged`).
* **a short sale** is neither corrected nor stops the loop: one of them leaves the books unhedged.
-/

set_option autoImplicit false

namespace SpotRelay.Analysis

open SpotRelay.Model SpotRelay.Interface
open SpotRelay.Library.Run

/-- Both true legs equal `remaining_amount` up to the hedge tolerance of the traded
quantity. -/
def ExitHedged (c : ExitCall) (s : ExitState) : Prop :=
  HedgedAt c.position.koreanAmount c.position.foreignAmount s.events s.ledger.heldAmount

/-! ## The condition -/

/-- What the venues may not do in a closing split that the loop survives. -/
def ExitCloseSettles (legs : CloseLegs) (fills : List Fill) : Prop :=
  match legs with
  | .sold cover sale =>
    0 < executed cover ∧ quantitiesMatch (executed cover) (executed sale) = true
  | .retrySold cover sale =>
    sale.done = true → 0 < executed cover ∧
      quantitiesMatch (executed cover) (executed sale) = true ∧
        ∀ f ∈ fills, f.done = false → executed f = 0
  | _ => True

/-- The condition on the trades of an iteration with quotes `q`. -/
def ExitTradeSettles (c : ExitCall) (x : IterationInput) (q : Quotes) (l : Ledger) : Prop :=
  match exitBranch c q l with
  | .exit coinAmount =>
    let legs := closeLegs c.venues x.replies coinAmount
    ExitCloseSettles legs.1 legs.2
  | .reentry coinAmount =>
    let split := openSplit c.venues x.replies q coinAmount
    OpenSettles split.1 split.2
  | .wait => True

/-- The condition on one iteration: its state before and what the venues do in it. -/
def ExitSettles (c : ExitCall) (s : ExitState) (x : IterationInput) : Prop :=
  match exitQuotes c x.market with
  | none => True
  | some q => ExitTradeSettles c x q s.ledger

section Decidability

instance (korean foreign held : ℚ) (events : List Event) :
    Decidable (HedgedAt korean foreign events held) :=
  inferInstanceAs (Decidable (_ ∧ _))

instance (c : ExitCall) (s : ExitState) : Decidable (ExitHedged c s) :=
  inferInstanceAs (Decidable (HedgedAt _ _ _ _))

instance (legs : CloseLegs) (fills : List Fill) : Decidable (ExitCloseSettles legs fills) :=
  match legs with
  | .coverFailed => isTrue trivial
  | .sold _ _ => inferInstanceAs (Decidable (_ ∧ _))
  | .retrySold _ _ => inferInstanceAs (Decidable (_ → _))
  | .retriesFailed _ => isTrue trivial

instance (c : ExitCall) (x : IterationInput) (q : Quotes) (l : Ledger) :
    Decidable (ExitTradeSettles c x q l) := by
  unfold ExitTradeSettles
  generalize exitBranch c q l = branch
  exact match branch with | .exit _ | .reentry _ | .wait => inferInstance

instance (c : ExitCall) (s : ExitState) (x : IterationInput) : Decidable (ExitSettles c s x) := by
  unfold ExitSettles
  generalize exitQuotes c x.market = quotes
  exact match quotes with | none | some _ => inferInstance

end Decidability

/-! ## Frame lemmas -/

variable {c : ExitCall} {q : Quotes} {s : ExitState}

/-- Emitting events does not touch the ledger. -/
@[simp] theorem exitEmit_ledger (es : List Event) : (s.emit es).ledger = s.ledger := rfl

/-- Emitted events are appended to the trace. -/
@[simp] theorem exitEmit_events (es : List Event) : (s.emit es).events = s.events ++ es := rfl

/-- A position report leaves the ledger alone. -/
@[simp] theorem report_ledger (p : Option Position) : (s.report c p).ledger = s.ledger := by
  unfold ExitState.report
  split_ifs <;> rfl

/-- A position report neither stops nor restarts the loop. -/
@[simp] theorem report_running (p : Option Position) : (s.report c p).running = s.running := by
  unfold ExitState.report
  split_ifs <;> rfl

/-- A position report adds no trade to the trace. -/
@[simp] theorem report_traceTally (g : Trade → ℚ) (p : Option Position) :
    traceTally g (s.report c p).events = traceTally g s.events := by
  unfold ExitState.report
  split_ifs
  · simp [traceTally, eventTally]
  · rfl

/-- A critical stop ends the loop. -/
@[simp] theorem exitCriticalStop_running (reason : ExitStopReason) (snap : Position) :
    (exitCriticalStop c reason snap s).running = false := by
  unfold exitCriticalStop
  exact report_running _

/-- Booking a closed part adds no event. -/
@[simp] theorem bookClosed_events (actualCovered : ℚ) (cover sale : Order) :
    (bookClosed q actualCovered cover sale s).events = s.events := rfl

/-- Booking a closed part takes the covered quantity from the held one. -/
@[simp] theorem bookClosed_heldAmount (actualCovered : ℚ) (cover sale : Order) :
    (bookClosed q actualCovered cover sale s).ledger.heldAmount =
      s.ledger.heldAmount - actualCovered := rfl

/-- The bookkeeping after an exit's sale adds no trade to the trace. -/
@[simp] theorem afterExitSale_traceTally (g : Trade → ℚ) (cover sale : Order) :
    traceTally g (afterExitSale c q cover sale s).events = traceTally g s.events := by
  simp only [afterExitSale]
  split_ifs <;> simp

/-- A first sale that was reported `Filled` books what the cover is resolved to. -/
theorem afterExitSale_heldAmount {cover : Order} (h : 0 < resolvedFillQuantity cover)
    (sale : Order) :
    (afterExitSale c q cover sale s).ledger.heldAmount =
      s.ledger.heldAmount - resolvedFillQuantity cover := by
  have hcovered : (if 0 < cover.filledQuantity then cover.filledQuantity else cover.quantity) =
      resolvedFillQuantity cover := by
    unfold resolvedFillQuantity at h ⊢
    split_ifs at h ⊢ with hfilled hquantity
    · rfl
    · rfl
    · exact absurd h (lt_irrefl 0)
  simp only [afterExitSale, hcovered]
  split_ifs <;> simp

/-! ## One split -/

/-- Every re-entry split that settles and does not stop the loop keeps the hedge. -/
theorem afterReentry_hedged (hex : c.venues.foreign.isKorean = false) {x : IterationInput}
    (ht : TruthfulReplies x.replies) {outcome : OpenSplit} {fills : List Fill}
    (hs : ExitHedged c s) (hsent : OpenSent c.venues x.replies q outcome fills)
    (hsettles : OpenSettles outcome fills)
    (hrunning : (afterReentry c q outcome (s.emit [.orders fills])).running = true) :
    ExitHedged c (afterReentry c q outcome (s.emit [.orders fills])) := by
  have hkept : ∀ delta, openedAmount outcome = some delta →
      (afterReentry c q outcome (s.emit [.orders fills])).ledger.heldAmount =
        s.ledger.heldAmount + delta →
      (∀ g, traceTally g (afterReentry c q outcome (s.emit [.orders fills])).events =
        traceTally g s.events + tally g fills) →
      ExitHedged c (afterReentry c q outcome (s.emit [.orders fills])) := by
    intro delta hamount hheld hevents
    exact HedgedAt.extend hs (keepsHedge_opened hex ht hsent hsettles hamount) hheld
      fun g _ => hevents g
  cases outcome with
  | shortFailed => exact hkept 0 rfl (by simp [afterReentry]) (by simp [afterReentry])
  | minOrderRolledBack short rollback =>
    exact hkept 0 rfl (by simp [afterReentry]) (by simp [afterReentry])
  | buyRolledBack short rollback =>
    exact hkept 0 rfl (by simp [afterReentry]) (by simp [afterReentry])
  | minOrderRollbackFailed short => simp [afterReentry] at hrunning
  | buyRollbackFailed short => simp [afterReentry] at hrunning
  | correctionFailed excess legs => cases excess <;> simp [afterReentry] at hrunning
  | mismatched legs correction => simp [afterReentry] at hrunning
  | matched legs correction =>
    refine hkept _ rfl ?_ ?_
    · simp [afterReentry, Ledger.addSplit]
    · simp [afterReentry]

/-- Every exit split that settles and does not stop the loop keeps the hedge. -/
theorem afterExitClose_hedged (hex : c.venues.foreign.isKorean = false) {x : IterationInput}
    (ht : TruthfulReplies x.replies) {legs : CloseLegs} {fills : List Fill}
    (hs : ExitHedged c s) (hsent : CloseSent c.venues x.replies legs fills)
    (hsettles : ExitCloseSettles legs fills)
    (hrunning : (afterExitClose c q legs (s.emit [.orders fills])).running = true) :
    ExitHedged c (afterExitClose c q legs (s.emit [.orders fills])) := by
  cases hsent with
  | coverFailed coinAmount hd =>
    have hsubmits := executeForeignCover_submits c.venues.foreign x.replies.foreign coinAmount
    have hidle : KeepsHedge [(closeCoverLeg c.venues x.replies coinAmount).toFill] 0 :=
      keepsHedge_idle hsubmits.onSide (hsubmits.executed_eq_zero ht.foreign rfl hd)
    refine HedgedAt.extend hs hidle (by simp [afterExitClose]) ?_
    intro g _
    simp [afterExitClose]
  | sold coinAmount quantity hcover hsale =>
    obtain ⟨hpos, hmatch⟩ := hsettles
    have hsound : Sound (closeCoverFill c.venues x.replies coinAmount) :=
      closeCoverFill_sound hex ht ⟨fun _ => hpos, fun _ => hcover⟩
    have hexecuted := executed_of_sound hsound hcover
    have hkeeps : KeepsHedge (closeCoverFill c.venues x.replies coinAmount ::
        ([] ++ [closeSellFill c.venues x.replies.korean quantity])) _ :=
      keepsHedge_retried (closeCoverFill_onSide coinAmount) (closeSellFill_onSide _ quantity)
        (by simp) hmatch
    refine HedgedAt.extend hs hkeeps ?_ ?_
    · simp only [afterExitClose]
      rw [hexecuted] at hpos ⊢
      rw [afterExitSale_heldAmount hpos, exitEmit_ledger, sub_eq_add_neg]
    · intro g _
      simp [afterExitClose]
  | retrySold coinAmount quantity sale failed i hcover hside hd =>
    have hstatus : (closeSellFill c.venues (x.replies.retries i) quantity).order.status =
        .filled := by
      by_contra hnot
      simp [afterExitClose, afterExitRetry, hnot] at hrunning
    have hdone : (closeSellFill c.venues (x.replies.retries i) quantity).done = true := by
      simpa [closeSellFill, Placed.toFill] using hstatus
    obtain ⟨hpos, hmatch, hidle⟩ := hsettles hdone
    have hsound : Sound (closeCoverFill c.venues x.replies coinAmount) :=
      closeCoverFill_sound hex ht ⟨fun _ => hpos, fun _ => hcover⟩
    have hkeeps : KeepsHedge (closeCoverFill c.venues x.replies coinAmount ::
        ((sale :: failed) ++ [closeSellFill c.venues (x.replies.retries i) quantity])) _ :=
      keepsHedge_retried (closeCoverFill_onSide coinAmount)
        (closeSellFill_onSide (x.replies.retries i) quantity)
        (fun f hf => ⟨hside f hf, hidle f (by simp at hf ⊢; tauto) (hd f hf)⟩) hmatch
    refine HedgedAt.extend hs hkeeps ?_ ?_
    · rw [executed_of_sound hsound hcover]
      simp [afterExitClose, afterExitRetry, hstatus, sub_eq_add_neg]
    · intro g _
      simp [afterExitClose, afterExitRetry, hstatus]
  | retriesFailed => simp [afterExitClose] at hrunning

/-! ## Runs -/

/-- One iteration that settles and does not end in a critical stop keeps the hedge. -/
theorem exitIterate_hedged (hex : c.venues.foreign.isKorean = false) {x : IterationInput}
    (hs : ExitHedged c s) (ht : TruthfulReplies x.replies) (hsettles : ExitSettles c s x)
    (hrunning : (exitIterate c s x).running = true) : ExitHedged c (exitIterate c s x) := by
  have hs' : ExitHedged c { s with lastUsdtRate := exitIterationRate c x.market } := hs
  unfold exitIterate at hrunning ⊢
  simp only at hrunning ⊢
  unfold ExitSettles at hsettles
  cases hquotes : exitQuotes c x.market with
  | none => exact hs'
  | some q =>
    simp only [hquotes] at hrunning hsettles ⊢
    unfold ExitTradeSettles at hsettles
    cases hbranch : exitBranch c q s.ledger with
    | exit coinAmount =>
      simp only [hbranch] at hsettles
      simp only [exitTrade, hbranch] at hrunning ⊢
      exact afterExitClose_hedged hex ht hs' (closeLegs_sent _ _ _) hsettles hrunning
    | reentry coinAmount =>
      simp only [hbranch] at hsettles
      simp only [exitTrade, hbranch] at hrunning ⊢
      exact afterReentry_hedged hex ht hs' (openSplit_sent _ _ _ _) hsettles hrunning
    | wait =>
      simp only [exitTrade, hbranch]
      exact hs'

/-- In every run of the exit loop whose iterations settle, both legs equal `remaining_amount`
up to the hedge tolerance at every loop head that is not reached through a critical stop. -/
theorem exitLoop_hedged (c : ExitCall) (hforeign : c.signal.foreignExchange.isKorean = false)
    (hmatched : c.position.matched = true) (tracker : PositionTracker)
    (xs : List IterationInput) (htruthful : ∀ x ∈ xs, TruthfulReplies x.replies)
    (hrun : Along (ExitSettles c) (exitStep c) (initialExitState c tracker) xs)
    (hrunning : (exitLoop c (initialExitState c tracker) xs).running = true) :
    ExitHedged c (exitLoop c (initialExitState c tracker) xs) := by
  have hboth := hrun.and_forall htruthful
  refine invariant (fun s => s.running = true → ExitHedged c s) ?_ xs _ ?_ hboth hrunning
  · intro s x hs hx hnext
    unfold exitStep at hnext ⊢
    split_ifs at hnext ⊢ with hhead
    · exact exitIterate_hedged hforeign (hs hhead.2) hx.2 hx.1 hnext
    · exact hs hnext
  · intro _
    exact (hedgedAt_of_matched hmatched).2

/-- A call that exits `amount` coins bought at 1000 KRW and sold short at one dollar. -/
def sampleExitCall (korean : Exchange) (amount : ℚ) : ExitCall where
  signal :=
    { symbol := SymbolId.of "XRP" "KRW"
      koreanExchange := korean
      foreignExchange := .bybit
      koreanBid := 1500
      foreignAsk := 1
      usdtKrwRate := 1400 }
  position :=
    { symbol := SymbolId.of "XRP" "KRW"
      koreanExchange := korean
      foreignExchange := .bybit
      koreanEntryPrice := 1000
      foreignEntryPrice := 1
      koreanAmount := amount
      foreignAmount := amount
      isActive := true }

/-- An exit split of 35 of 70 coins, and a re-entry split that buys them back. -/
theorem exitLoop_hedged_reentry :
    ExitHedged (sampleExitCall .bithumb 70)
      (exitLoop (sampleExitCall .bithumb 70) (initialExitState (sampleExitCall .bithumb 70) .empty)
        [{ market := sampleMarket 1500
           replies := legReplies (executingForeign 35 1) (executingKorean .done 35 1500) },
          { market := sampleMarket 1000
            replies := legReplies (executingForeign 35 1) (executingKorean .done 35 1000) }]) := by
  apply exitLoop_hedged
  · rfl
  · decide +kernel
  · intro x hx
    simp only [List.mem_cons, List.not_mem_nil, or_false] at hx
    rcases hx with rfl | rfl
    · exact legReplies_truthful (executingForeign_truthful (by norm_num) (by norm_num))
        (executingKorean_truthful (Or.inl rfl) (by norm_num) (by norm_num))
    · exact legReplies_truthful (executingForeign_truthful (by norm_num) (by norm_num))
        (executingKorean_truthful (Or.inl rfl) (by norm_num) (by norm_num))
  · refine ⟨?_, ?_, trivial⟩ <;> decide +kernel
  · decide +kernel

/-- The iteration that breaks the hedge: 35 coins are covered and Bithumb sells 30 of them. -/
def shortSaleInput : IterationInput where
  market := sampleMarket 1500
  replies := legReplies (executingForeign 35 1) (executingKorean .cancel 30 1500)

/-- Truthful venues alone do not keep the exit loop hedged. -/
theorem shortSale_not_hedged :
    ¬ ∀ (c : ExitCall) (tracker : PositionTracker) (xs : List IterationInput),
      c.signal.foreignExchange.isKorean = false → c.position.matched = true →
      (∀ x ∈ xs, TruthfulReplies x.replies) →
      (exitLoop c (initialExitState c tracker) xs).running = true →
      ExitHedged c (exitLoop c (initialExitState c tracker) xs) := by
  intro h
  have htruthful : TruthfulReplies shortSaleInput.replies :=
    legReplies_truthful (@executingForeign_truthful 35 1 (by norm_num) one_pos)
      (@executingKorean_truthful .cancel (Or.inr rfl) 30 1500 (by norm_num) (by norm_num))
  have hhedged := h (sampleExitCall .bithumb 35) .empty [shortSaleInput] rfl (by decide +kernel)
    (by simpa using htruthful) (by decide +kernel)
  revert hhedged
  decide +kernel

end SpotRelay.Analysis
