import SpotRelay.Analysis.LoopFrames
import SpotRelay.Library.Run
import SpotRelay.Library.Tolerance
import Mathlib.Algebra.Order.BigOperators.Group.List

/-!
# The hedge of the entry loop

The true Korean long and the true foreign short of a call, against the amount its loop
believes to hold.  When an order the manager takes as done executed coins, any other order
executed none, a rollback buys back what the short sold and a retried sale sells what the
cover bought, both stay within the hedge tolerance of everything that was traded.  An order
that is cancelled after a partial fill breaks the hedge without a critical stop.

* **a sound fill** has executed what the manager takes it for (`executed_of_sound`).
* **one iteration** keeps both legs within the tolerance where its orders settle (`iterate_hedged`),
  the correction of an exit split included (`afterSale_hedged`).
-/

set_option autoImplicit false

namespace SpotRelay.Analysis

open SpotRelay.Model SpotRelay.Interface
open SpotRelay.Library.Run SpotRelay.Library.Tolerance

/-- The hedge tolerance, `HEDGE_QUANTITY_TOLERANCE_RATIO`. -/
abbrev tolerance : ℚ := TradingConfig.hedgeQuantityToleranceRatio

/-- The tolerance of the hedge check is not negative. -/
theorem tolerance_nonneg : 0 ≤ tolerance := by
  unfold tolerance TradingConfig.hedgeQuantityToleranceRatio
  norm_num

/-- `quantities_match` is closeness within the hedge tolerance. -/
theorem quantitiesMatch_iff (a b : ℚ) : quantitiesMatch a b = true ↔ Close tolerance a b := by
  unfold quantitiesMatch Close
  simp only
  split_ifs with hscale
  · have hmax : max |a| |b| = 0 := le_antisymm hscale (le_max_of_le_left (abs_nonneg a))
    have ha : a = 0 := by
      have : |a| ≤ 0 := hmax ▸ le_max_left |a| |b|
      exact abs_eq_zero.mp (le_antisymm this (abs_nonneg a))
    have hb : b = 0 := by
      have : |b| ≤ 0 := hmax ▸ le_max_right |a| |b|
      exact abs_eq_zero.mp (le_antisymm this (abs_nonneg b))
    simp [ha, hb]
  · rw [decide_eq_true_iff, div_le_iff₀ (not_le.mp hscale)]

/-! ## The hedge -/

/-- The true Korean long: the initial amount and everything the orders added. -/
def netKoreanLong (initial : Option Position) (s : LoopState) : ℚ :=
  (initial.map Position.koreanAmount).getD 0 + traceTally koreanLong s.events

/-- The true foreign short. -/
def netForeignShort (initial : Option Position) (s : LoopState) : ℚ :=
  (initial.map Position.foreignAmount).getD 0 + traceTally foreignShort s.events

/-- Everything that was traded, the initial position included. -/
def tradedVolume (initial : Option Position) (s : LoopState) : ℚ :=
  |(initial.map Position.koreanAmount).getD 0| + |(initial.map Position.foreignAmount).getD 0|
    + traceTally moved s.events

/-- Both legs equal `held_amount` up to the hedge tolerance of the traded quantity. -/
def Hedged (initial : Option Position) (s : LoopState) : Prop :=
  Drift tolerance (netKoreanLong initial s) s.ledger.heldAmount (tradedVolume initial s) ∧
    Drift tolerance (netForeignShort initial s) s.ledger.heldAmount (tradedVolume initial s)

/-- What the venues may not do in an opening split that the loop survives. -/
def OpenSettles (outcome : OpenSplit) (fills : List Fill) : Prop :=
  match outcome with
  | .minOrderRolledBack short rollback =>
    quantitiesMatch (executed short) (executed rollback) = true
  | .buyRolledBack short rollback =>
    quantitiesMatch (executed short) (executed rollback) = true ∧
      ∀ f ∈ fills, f.done = false → executed f = 0
  | .matched _ _ => ∀ f ∈ fills, Decisive f
  | _ => True

/-- The same for a first sale that was reported `Filled`. -/
def SaleSettles (hedge : Hedge) (fills : List Fill) : Prop :=
  match hedge with
  | .done hedged _ =>
    quantitiesMatch hedged.foreignQty hedged.koreanQty = true → ∀ f ∈ fills, Decisive f
  | .failed _ => True

/-- What the venues may not do in a closing split that the loop survives. -/
def CloseSettles (v : Venues) (r : SplitReplies) (q : Quotes) (legs : CloseLegs)
    (fills : List Fill) : Prop :=
  match legs with
  | .sold cover sale =>
    let hedge := hedgeClose v r q (closeFills q cover.order sale.order)
    SaleSettles hedge.1 (fills ++ hedge.2)
  | .retrySold cover sale =>
    sale.done = true → 0 < executed cover ∧
      quantitiesMatch (executed cover) (executed sale) = true ∧
        ∀ f ∈ fills, f.done = false → executed f = 0
  | _ => True

/-- The condition on the trades of an iteration with quotes `q`. -/
def TradeSettles (c : Call) (x : IterationInput) (q : Quotes) (l : Ledger) : Prop :=
  match branch c q l with
  | .entry coinAmount =>
    let split := openSplit c.venues x.replies q coinAmount
    OpenSettles split.1 split.2
  | .exit coinAmount =>
    let legs := closeLegs c.venues x.replies coinAmount
    CloseSettles c.venues x.replies q legs.1 legs.2
  | .wait => True

/-- The condition on one iteration: its state before and what the venues do in it. -/
def Settles (c : Call) (s : LoopState) (x : IterationInput) : Prop :=
  match iterationQuotes c x.market s.ledger.heldAmount with
  | none => True
  | some q => TradeSettles c x q s.ledger

section Decidability

instance (f : Fill) : Decidable (Decisive f) := inferInstanceAs (Decidable (_ ↔ _))

instance (ε actual booked moved : ℚ) : Decidable (Drift ε actual booked moved) :=
  inferInstanceAs (Decidable (_ ≤ _))

instance (initial : Option Position) (s : LoopState) : Decidable (Hedged initial s) :=
  inferInstanceAs (Decidable (_ ∧ _))

instance (outcome : OpenSplit) (fills : List Fill) : Decidable (OpenSettles outcome fills) :=
  match outcome with
  | .shortFailed => isTrue trivial
  | .minOrderRolledBack _ _ => inferInstanceAs (Decidable (_ = _))
  | .minOrderRollbackFailed _ => isTrue trivial
  | .buyRolledBack _ _ => inferInstanceAs (Decidable (_ ∧ _))
  | .buyRollbackFailed _ => isTrue trivial
  | .correctionFailed _ _ => isTrue trivial
  | .mismatched _ _ => isTrue trivial
  | .matched _ _ => inferInstanceAs (Decidable (∀ f ∈ fills, Decisive f))

instance (hedge : Hedge) (fills : List Fill) : Decidable (SaleSettles hedge fills) :=
  match hedge with
  | .done _ _ => inferInstanceAs (Decidable (_ → ∀ f ∈ fills, Decisive f))
  | .failed _ => isTrue trivial

instance (v : Venues) (r : SplitReplies) (q : Quotes) (legs : CloseLegs) (fills : List Fill) :
    Decidable (CloseSettles v r q legs fills) :=
  match legs with
  | .coverFailed => isTrue trivial
  | .sold _ _ => inferInstanceAs (Decidable (SaleSettles _ _))
  | .retrySold _ _ => inferInstanceAs (Decidable (_ → _))
  | .retriesFailed _ => isTrue trivial

instance (c : Call) (x : IterationInput) (q : Quotes) (l : Ledger) :
    Decidable (TradeSettles c x q l) := by
  unfold TradeSettles
  generalize branch c q l = branch
  exact match branch with | .entry _ | .exit _ | .wait => inferInstance

instance (c : Call) (s : LoopState) (x : IterationInput) : Decidable (Settles c s x) := by
  unfold Settles
  generalize iterationQuotes c x.market s.ledger.heldAmount = quotes
  exact match quotes with | none | some _ => inferInstance

end Decidability

/-- A step that moved `fills` and added `delta` to `held_amount` keeps the hedge. -/
def KeepsHedge (fills : List Fill) (delta : ℚ) : Prop :=
  Drift tolerance (tally koreanLong fills) delta (tally moved fills) ∧
    Drift tolerance (tally foreignShort fills) delta (tally moved fills)

/-- An account that started with `korean` and `foreign` coins and made the trades of `events`
equals `held` on both sides up to the hedge tolerance. -/
def HedgedAt (korean foreign : ℚ) (events : List Event) (held : ℚ) : Prop :=
  Drift tolerance (korean + traceTally koreanLong events) held
      (|korean| + |foreign| + traceTally moved events) ∧
    Drift tolerance (foreign + traceTally foreignShort events) held
      (|korean| + |foreign| + traceTally moved events)

/-- The hedge of a state, in terms of its events and of what is held. -/
theorem hedged_iff (initial : Option Position) (s : LoopState) :
    Hedged initial s ↔ HedgedAt ((initial.map Position.koreanAmount).getD 0)
      ((initial.map Position.foreignAmount).getD 0) s.events s.ledger.heldAmount :=
  Iff.rfl

/-- Fills that keep the hedge leave the account hedged. -/
theorem HedgedAt.extend {korean foreign held held' delta : ℚ} {events events' : List Event}
    {fills : List Fill} (h : HedgedAt korean foreign events held)
    (hkeeps : KeepsHedge fills delta) (hheld : held' = held + delta)
    (hevents : ∀ g : Trade → ℚ, (∀ t, t.quantity = 0 → g t = 0) →
      traceTally g events' = traceTally g events + tally g fills) :
    HedgedAt korean foreign events' held' := by
  obtain ⟨hk, hf⟩ := h
  obtain ⟨hk', hf'⟩ := hkeeps
  have hkorean := hk.add hk'
  have hforeign := hf.add hf'
  unfold HedgedAt
  rw [hheld, hevents _ koreanLong_of_zero, hevents _ foreignShort_of_zero,
    hevents _ moved_of_zero, ← add_assoc, ← add_assoc, ← add_assoc]
  exact ⟨hkorean, hforeign⟩

/-- A position whose amounts match is hedged before anything is traded. -/
theorem hedgedAt_of_matched {p : Position} (h : p.matched = true) :
    HedgedAt p.koreanAmount p.foreignAmount [] p.koreanAmount ∧
      HedgedAt p.koreanAmount p.foreignAmount [] p.foreignAmount := by
  have hclose := (quantitiesMatch_iff _ _).mp h
  have hgap := hclose.abs_sub_le tolerance_nonneg
    (le_add_of_nonneg_right (abs_nonneg p.foreignAmount))
    (le_add_of_nonneg_left (abs_nonneg p.koreanAmount))
  have hnonneg : 0 ≤ |p.koreanAmount| + |p.foreignAmount| :=
    add_nonneg (abs_nonneg _) (abs_nonneg _)
  have hgap' := hgap
  rw [abs_sub_comm] at hgap'
  simp only [HedgedAt, traceTally_nil, add_zero]
  exact ⟨⟨drift_self tolerance_nonneg hnonneg _, hgap'⟩,
    ⟨hgap, drift_self tolerance_nonneg hnonneg _⟩⟩

/-! ## Opening splits -/

/-- What fills move is not negative. -/
theorem tally_moved_nonneg (fills : List Fill) : 0 ≤ tally moved fills := by
  induction fills with
  | nil => exact le_refl 0
  | cons f rest ih =>
    rw [tally_cons]
    refine add_nonneg (List.sum_nonneg ?_) ih
    intro y hy
    obtain ⟨t, -, rfl⟩ := List.mem_map.mp hy
    exact abs_nonneg _

/-- The tallies of one order on a known side. -/
theorem sum_onSide {leg : Leg} {side : Side} {f : Fill} (h : OnSide leg side f.trades) :
    (f.trades.map koreanLong).sum =
        (match leg, side with
          | .korean, .buy => executed f
          | .korean, .sell => -executed f
          | .foreign, _ => 0) ∧
      (f.trades.map foreignShort).sum =
        (match leg, side with
          | .foreign, .sell => executed f
          | .foreign, .buy => -executed f
          | .korean, _ => 0) ∧
      (f.trades.map moved).sum = |executed f| := by
  rcases h with hnil | ⟨quantity, price, hone⟩
  · cases leg <;> cases side <;> simp [hnil, executed]
  · cases leg <;> cases side <;>
      simp [hone, executed, koreanLong, foreignShort, moved, signedQty]

/-- A short that is bought back within the tolerance keeps the hedge. -/
theorem keepsHedge_rollback {short rollback : Fill} (hshort : OnSide .foreign .sell short.trades)
    (hrollback : OnSide .foreign .buy rollback.trades)
    (hmatch : quantitiesMatch (executed short) (executed rollback) = true) :
    KeepsHedge [short, rollback] 0 := by
  have hclose := (quantitiesMatch_iff _ _).mp hmatch
  obtain ⟨hk, hf, hm⟩ := sum_onSide hshort
  obtain ⟨hk', hf', hm'⟩ := sum_onSide hrollback
  have hmoved : tally moved [short, rollback] = |executed short| + |executed rollback| := by
    simp [hm, hm']
  constructor
  · have hzero : tally koreanLong [short, rollback] = 0 := by simp [hk, hk']
    rw [hzero]
    exact drift_self tolerance_nonneg (tally_moved_nonneg _) 0
  · have hnet : tally foreignShort [short, rollback] = executed short - executed rollback := by
      simp [hf, hf', sub_eq_add_neg]
    unfold Drift
    rw [hnet, hmoved, sub_zero]
    exact hclose.abs_sub_le tolerance_nonneg (le_add_of_nonneg_right (abs_nonneg _))
      (le_add_of_nonneg_left (abs_nonneg _))

/-- An order that executed nothing changes no tally. -/
theorem sum_of_executed_zero {leg : Leg} {side : Side} {f : Fill}
    (hside : OnSide leg side f.trades) (h : executed f = 0) (g : Trade → ℚ)
    (hg : ∀ t, t.quantity = 0 → g t = 0) : (f.trades.map g).sum = 0 := by
  rcases hside with hnil | ⟨quantity, price, hone⟩
  · simp [hnil]
  · rw [executed_of_single hone] at h
    rw [hone]
    simp [hg _ h]

/-- The short of an entry that is reported decisively is reported soundly. -/
theorem openShortFill_sound {v : Venues} (hex : v.foreign.isKorean = false) {r : SplitReplies}
    (ht : TruthfulReplies r) {coinAmount : ℚ} (hdec : Decisive (openShortFill v r coinAmount)) :
    Sound (openShortFill v r coinAmount) :=
  foreignFill_sound hex ht.foreign (executeForeignShort_submits _ _ _) hdec

/-- The buy of an entry that is reported decisively is reported soundly. -/
theorem openBuyFill_sound {v : Venues} {r : SplitReplies} (ht : TruthfulReplies r)
    {krwAmount : ℚ} (hdec : Decisive (openBuyFill v r krwAmount)) :
    Sound (openBuyFill v r krwAmount) :=
  koreanFill_sound ht.korean (executeKoreanBuy_submits _ _ _) hdec

/-- The cover of extra shorts that is reported decisively is reported soundly. -/
theorem coverDelta_sound {v : Venues} (hex : v.foreign.isKorean = false) {r : SplitReplies}
    (ht : TruthfulReplies r) {quantity : ℚ} (hdec : Decisive (coverDelta v r quantity)) :
    Sound (coverDelta v r quantity) :=
  flattenExtraForeignShort_sound hex ht.coverDelta quantity rfl hdec

/-- The sale of extra coins that is reported decisively is reported soundly. -/
theorem sellDelta_sound {v : Venues} {r : SplitReplies} (ht : TruthfulReplies r) {quantity : ℚ}
    (hdec : Decisive (sellDelta v r quantity)) : Sound (sellDelta v r quantity) :=
  flattenExtraKoreanLong_sound ht.sellDelta quantity rfl hdec

/-- The only orders a delta hedge sends are the two corrections. -/
theorem hedgeOpen_sound {v : Venues} (hex : v.foreign.isKorean = false) {r : SplitReplies}
    {q : Quotes} (ht : TruthfulReplies r) (legs : LegFills)
    (hdec : ∀ f ∈ (hedgeOpen v r q legs).2, Decisive f) :
    ∀ f ∈ (hedgeOpen v r q legs).2, Sound f := by
  simp only [hedgeOpen] at hdec ⊢
  split_ifs at hdec ⊢
  · intro f hf
    cases hf
  · simpa using coverDelta_sound hex ht (hdec _ (by simp))
  · simpa using coverDelta_sound hex ht (hdec _ (by simp))
  · simpa using sellDelta_sound ht (hdec _ (by simp))
  · simpa using sellDelta_sound ht (hdec _ (by simp))

/-- The fills of a closing correction that are reported decisively are reported soundly. -/
theorem hedgeClose_sound {v : Venues} (hex : v.foreign.isKorean = false) {r : SplitReplies}
    {q : Quotes} (ht : TruthfulReplies r) (legs : LegFills)
    (hdec : ∀ f ∈ (hedgeClose v r q legs).2, Decisive f) :
    ∀ f ∈ (hedgeClose v r q legs).2, Sound f := by
  simp only [hedgeClose] at hdec ⊢
  split_ifs at hdec ⊢
  · intro f hf
    cases hf
  · simpa using sellDelta_sound ht (hdec _ (by simp))
  · simpa using sellDelta_sound ht (hdec _ (by simp))
  · simpa using coverDelta_sound hex ht (hdec _ (by simp))
  · simpa using coverDelta_sound hex ht (hdec _ (by simp))

/-- A corrected quantity is no larger than everything that was moved for it. -/
theorem abs_le_of_moved {hedged before other moved : ℚ} (hbefore : 0 ≤ before)
    (hother : 0 ≤ other) (hmoved : |hedged - before| ≤ moved) :
    |hedged| ≤ other + (before + moved) := by
  have hsplit : |hedged| ≤ |hedged - before| + |before| := by
    have := abs_add_le (hedged - before) before
    simpa using this
  rw [abs_of_nonneg hbefore] at hsplit
  linarith

/-- An entry split with matched legs keeps the hedge when the smaller leg is booked. -/
theorem keepsHedge_matched {v : Venues} {r : SplitReplies} {q : Quotes} {short buy : Fill}
    {hedged : LegFills} {correction : Option Correction} {fills : List Fill}
    (hshort : OnSide .foreign .sell short.trades) (hbuy : OnSide .korean .buy buy.trades)
    (hsound : ∀ f ∈ short :: buy :: fills, Sound f) (hdshort : short.done = true)
    (hdbuy : buy.done = true)
    (hhedge : hedgeOpen v r q (openLegs q short.order buy.order) = (.done hedged correction, fills))
    (hmatch : quantitiesMatch hedged.foreignQty hedged.koreanQty = true) :
    KeepsHedge (short :: buy :: fills) (min hedged.foreignQty hedged.koreanQty) := by
  have hcorr := hedgeOpen_done hhedge (fun f hf => hsound f (by simp [hf])) 0
  have hsumShort := sum_of_done hshort (hsound short (by simp)) hdshort
  have hsumBuy := sum_of_done hbuy (hsound buy (by simp)) hdbuy
  have hF := resolvedFillQuantity_nonneg short.order
  have hK := resolvedFillQuantity_nonneg buy.order
  have hkorean : tally koreanLong (short :: buy :: fills) = hedged.koreanQty := by
    rw [tally_cons, tally_cons, hsumShort, hsumBuy, hcorr.korean]
    simp [koreanLong, signedQty, openLegs]
  have hforeign : tally foreignShort (short :: buy :: fills) = hedged.foreignQty := by
    rw [tally_cons, tally_cons, hsumShort, hsumBuy, hcorr.foreign]
    simp [foreignShort, signedQty, openLegs]
  have hmoved : tally moved (short :: buy :: fills) =
      resolvedFillQuantity short.order + (resolvedFillQuantity buy.order + tally moved fills) := by
    rw [tally_cons, tally_cons, hsumShort, hsumBuy]
    simp [moved, abs_of_nonneg hF, abs_of_nonneg hK]
  have hkoreanLe : |hedged.koreanQty| ≤ tally moved (short :: buy :: fills) := by
    rw [hmoved]
    exact abs_le_of_moved hK hF hcorr.koreanMoved
  have hforeignLe : |hedged.foreignQty| ≤ tally moved (short :: buy :: fills) := by
    rw [hmoved, add_left_comm]
    exact abs_le_of_moved hF hK hcorr.foreignMoved
  have hclose := (quantitiesMatch_iff _ _).mp hmatch
  obtain ⟨hdf, hdk⟩ := drift_min tolerance_nonneg hclose hforeignLe hkoreanLe
  unfold KeepsHedge
  rw [hkorean, hforeign]
  exact ⟨hdk, hdf⟩

/-- An order that executed nothing keeps the hedge. -/
theorem keepsHedge_idle {leg : Leg} {side : Side} {f : Fill} (hside : OnSide leg side f.trades)
    (hzero : executed f = 0) : KeepsHedge [f] 0 := by
  have hk := sum_of_executed_zero hside hzero _ koreanLong_of_zero
  have hf := sum_of_executed_zero hside hzero _ foreignShort_of_zero
  have hm := sum_of_executed_zero hside hzero _ moved_of_zero
  constructor <;> simp [Drift, hk, hf, hm]

/-- What an opening split adds to the held amount; `none` when it ends in a critical stop. -/
def openedAmount (outcome : OpenSplit) : Option ℚ :=
  match outcome with
  | .shortFailed | .minOrderRolledBack _ _ | .buyRolledBack _ _ => some 0
  | .matched legs _ => some (min legs.foreignQty legs.koreanQty)
  | _ => none

/-- Every opening split that settles and is not a critical stop keeps the hedge. -/
theorem keepsHedge_opened {v : Venues} (hex : v.foreign.isKorean = false) {r : SplitReplies}
    (ht : TruthfulReplies r) {q : Quotes} {outcome : OpenSplit} {fills : List Fill} {delta : ℚ}
    (hsent : OpenSent v r q outcome fills) (hsettles : OpenSettles outcome fills)
    (hamount : openedAmount outcome = some delta) : KeepsHedge fills delta := by
  cases hsent with
  | shortFailed coinAmount hd =>
    cases hamount
    have hsubmits := executeForeignShort_submits v.foreign r.foreign coinAmount
    exact keepsHedge_idle (f := (openShortLeg v r coinAmount).toFill) hsubmits.onSide
      (hsubmits.executed_eq_zero ht.foreign rfl hd)
  | minOrderRolledBack short rollback hshort hrollback =>
    cases hamount
    exact keepsHedge_rollback hshort hrollback hsettles
  | minOrderRollbackFailed => cases hamount
  | buyRolledBack short buy rollback hshort hbuy hd hrollback =>
    cases hamount
    obtain ⟨hmatch, hidle⟩ := hsettles
    have hbuySum := sum_of_executed_zero hbuy (hidle buy (by simp) hd)
    have hkeeps := keepsHedge_rollback hshort hrollback hmatch
    simp only [KeepsHedge, tally_cons, hbuySum _ koreanLong_of_zero,
      hbuySum _ foreignShort_of_zero, hbuySum _ moved_of_zero, zero_add] at hkeeps ⊢
    exact hkeeps
  | buyRollbackFailed => cases hamount
  | correctionFailed => cases hamount
  | mismatched => cases hamount
  | matched coinAmount krwAmount hedged correction cfills hshort hbuy hhedge hmatch =>
    cases hamount
    have hcs : cfills = (hedgeOpen v r q (openLegs q (openShortFill v r coinAmount).order
        (openBuyFill v r krwAmount).order)).2 := by rw [hhedge]
    have hsound : ∀ f ∈ openShortFill v r coinAmount :: openBuyFill v r krwAmount :: cfills,
        Sound f := by
      intro f hf
      rcases List.mem_cons.mp hf with rfl | hf'
      · exact openShortFill_sound hex ht (hsettles _ hf)
      rcases List.mem_cons.mp hf' with rfl | hf''
      · exact openBuyFill_sound ht (hsettles _ hf)
      · rw [hcs] at hf''
        refine hedgeOpen_sound hex ht _ ?_ f hf''
        intro g hg
        rw [← hcs] at hg
        exact hsettles g (by simp [hg])
    exact keepsHedge_matched (openShortFill_onSide coinAmount) (openBuyFill_onSide krwAmount)
      hsound hshort hbuy hhedge hmatch

/-- Every opening split that settles and does not stop the loop keeps the hedge. -/
theorem afterOpen_hedged {c : Call} (hex : c.venues.foreign.isKorean = false) {x : IterationInput}
    (ht : TruthfulReplies x.replies) {q : Quotes} {initial : Option Position} {s : LoopState}
    {outcome : OpenSplit} {fills : List Fill} (hs : Hedged initial s)
    (hsent : OpenSent c.venues x.replies q outcome fills) (hsettles : OpenSettles outcome fills)
    (hrunning : (afterOpen c q outcome (s.emit [.orders fills])).running = true) :
    Hedged initial (afterOpen c q outcome (s.emit [.orders fills])) := by
  obtain ⟨delta, hamount, hheld⟩ : ∃ delta, openedAmount outcome = some delta ∧
      (afterOpen c q outcome (s.emit [.orders fills])).ledger.heldAmount =
        s.ledger.heldAmount + delta := by
    cases outcome with
    | shortFailed => exact ⟨0, rfl, (add_zero _).symm⟩
    | minOrderRolledBack short rollback => exact ⟨0, rfl, (add_zero _).symm⟩
    | buyRolledBack short rollback => exact ⟨0, rfl, (add_zero _).symm⟩
    | minOrderRollbackFailed short => cases hrunning
    | buyRollbackFailed short => cases hrunning
    | correctionFailed excess legs => cases excess <;> cases hrunning
    | mismatched legs correction => cases hrunning
    | matched legs correction => exact ⟨_, rfl, rfl⟩
  refine (hedged_iff _ _).mpr
    (((hedged_iff _ _).mp hs).extend (keepsHedge_opened hex ht hsent hsettles hamount) hheld ?_)
  intro g _
  cases outcome with
  | correctionFailed excess legs => cases excess <;> cases hrunning
  | matched legs correction => simp [afterOpen]
  | minOrderRollbackFailed short => cases hrunning
  | buyRollbackFailed short => cases hrunning
  | mismatched legs correction => cases hrunning
  | shortFailed => simp [afterOpen]
  | minOrderRolledBack short rollback => simp [afterOpen]
  | buyRolledBack short rollback => simp [afterOpen]

/-! ## Closing splits -/

/-- The cover of an exit that is reported decisively is reported soundly. -/
theorem closeCoverFill_sound {v : Venues} (hex : v.foreign.isKorean = false) {r : SplitReplies}
    (ht : TruthfulReplies r) {coinAmount : ℚ} (hdec : Decisive (closeCoverFill v r coinAmount)) :
    Sound (closeCoverFill v r coinAmount) :=
  foreignFill_sound hex ht.foreign (executeForeignCover_submits _ _ _) hdec

/-- The sale of an exit that is reported decisively is reported soundly. -/
theorem closeSellFill_sound {v : Venues} {reply : KoreanReply} (ht : TruthfulKorean reply)
    {quantity : ℚ} (hdec : Decisive (closeSellFill v reply quantity)) :
    Sound (closeSellFill v reply quantity) :=
  koreanFill_sound ht (executeKoreanSell_submits _ _ _) hdec

/-- An exit split with matched legs keeps the hedge when the smaller leg is booked. -/
theorem keepsHedge_closed {v : Venues} {r : SplitReplies} {q : Quotes} {cover sale : Fill}
    {hedged : LegFills} {correction : Option Correction} {fills : List Fill}
    (hcover : OnSide .foreign .buy cover.trades) (hsale : OnSide .korean .sell sale.trades)
    (hsound : ∀ f ∈ cover :: sale :: fills, Sound f) (hdcover : cover.done = true)
    (hdsale : sale.done = true)
    (hhedge : hedgeClose v r q (closeFills q cover.order sale.order) =
      (.done hedged correction, fills))
    (hmatch : quantitiesMatch hedged.foreignQty hedged.koreanQty = true) :
    KeepsHedge (cover :: sale :: fills) (-min hedged.foreignQty hedged.koreanQty) := by
  have hcorr := hedgeClose_done hhedge (fun f hf => hsound f (by simp [hf])) 0 {}
  have hsumCover := sum_of_done hcover (hsound cover (by simp)) hdcover
  have hsumSale := sum_of_done hsale (hsound sale (by simp)) hdsale
  have hF := resolvedFillQuantity_nonneg cover.order
  have hK := resolvedFillQuantity_nonneg sale.order
  have hkorean : tally koreanLong (cover :: sale :: fills) = -hedged.koreanQty := by
    rw [tally_cons, tally_cons, hsumCover, hsumSale, hcorr.korean]
    simp only [koreanLong, signedQty, closeFills]
    ring
  have hforeign : tally foreignShort (cover :: sale :: fills) = -hedged.foreignQty := by
    rw [tally_cons, tally_cons, hsumCover, hsumSale, hcorr.foreign]
    simp only [foreignShort, signedQty, closeFills]
    ring
  have hmoved : tally moved (cover :: sale :: fills) =
      resolvedFillQuantity cover.order + (resolvedFillQuantity sale.order + tally moved fills) := by
    rw [tally_cons, tally_cons, hsumCover, hsumSale]
    simp [moved, abs_of_nonneg hF, abs_of_nonneg hK]
  have hkoreanLe : |hedged.koreanQty| ≤ tally moved (cover :: sale :: fills) := by
    rw [hmoved]
    exact abs_le_of_moved hK hF hcorr.koreanMoved
  have hforeignLe : |hedged.foreignQty| ≤ tally moved (cover :: sale :: fills) := by
    rw [hmoved, add_left_comm]
    exact abs_le_of_moved hF hK hcorr.foreignMoved
  have hclose := (quantitiesMatch_iff _ _).mp hmatch
  obtain ⟨hdf, hdk⟩ := drift_min tolerance_nonneg hclose hforeignLe hkoreanLe
  unfold KeepsHedge
  rw [hkorean, hforeign]
  exact ⟨hdk.neg, hdf.neg⟩

/-- A cover whose quantity a later sale matches keeps the hedge when the cover is booked. -/
theorem keepsHedge_retried {cover sale : Fill} {failed : List Fill}
    (hcover : OnSide .foreign .buy cover.trades) (hsale : OnSide .korean .sell sale.trades)
    (hfailed : ∀ f ∈ failed, OnSide .korean .sell f.trades ∧ executed f = 0)
    (hmatch : quantitiesMatch (executed cover) (executed sale) = true) :
    KeepsHedge (cover :: (failed ++ [sale])) (-executed cover) := by
  have hidle : ∀ g : Trade → ℚ, (∀ t, t.quantity = 0 → g t = 0) → tally g failed = 0 := by
    intro g hg
    unfold tally
    apply List.sum_eq_zero
    intro y hy
    obtain ⟨f, hf, rfl⟩ := List.mem_map.mp hy
    exact sum_of_executed_zero (hfailed f hf).1 (hfailed f hf).2 g hg
  obtain ⟨hk, hf, hm⟩ := sum_onSide hcover
  obtain ⟨hk', hf', hm'⟩ := sum_onSide hsale
  have hkorean : tally koreanLong (cover :: (failed ++ [sale])) = -executed sale := by
    simp [hk, hk', hidle _ koreanLong_of_zero]
  have hforeign : tally foreignShort (cover :: (failed ++ [sale])) = -executed cover := by
    simp [hf, hf', hidle _ foreignShort_of_zero]
  have hmoved : tally moved (cover :: (failed ++ [sale])) = |executed cover| + |executed sale| := by
    simp [hm, hm', hidle _ moved_of_zero]
  have hclose := (quantitiesMatch_iff _ _).mp hmatch
  have hgap := hclose.abs_sub_le tolerance_nonneg
    (le_add_of_nonneg_right (abs_nonneg (executed sale)))
    (le_add_of_nonneg_left (abs_nonneg (executed cover)))
  unfold KeepsHedge
  rw [hkorean, hforeign, hmoved]
  constructor
  · have hswap : -executed sale - -executed cover = executed cover - executed sale := by ring
    unfold Drift
    rw [hswap]
    exact hgap
  · exact drift_self tolerance_nonneg (add_nonneg (abs_nonneg _) (abs_nonneg _)) _

/-- A sound fill that was reported has executed its resolved quantity. -/
theorem executed_of_sound {f : Fill} (hsound : Sound f) (hd : f.done = true) :
    executed f = resolvedFillQuantity f.order := by
  obtain ⟨t, hone, hqty, -⟩ := hsound.done hd
  rw [executed_of_single hone, hqty]

/-- The delta hedge of an exit split that settles and does not stop the loop. -/
theorem afterSale_hedged {c : Call} (hex : c.venues.foreign.isKorean = false)
    {x : IterationInput} (ht : TruthfulReplies x.replies) {q : Quotes}
    {initial : Option Position} {s : LoopState} {cover sale : Fill} (hs : Hedged initial s)
    (hcover : OnSide .foreign .buy cover.trades) (hsale : OnSide .korean .sell sale.trades)
    (hdcover : cover.done = true) (hdsale : sale.done = true)
    (hcoverSound : Decisive cover → Sound cover) (hsaleSound : Decisive sale → Sound sale)
    (hsettles : CloseSettles c.venues x.replies q (.sold cover sale) [cover, sale])
    (hrunning : (afterClose c x q (.sold cover sale, [cover, sale]) s).running = true) :
    Hedged initial (afterClose c x q (.sold cover sale, [cover, sale]) s) := by
  obtain ⟨⟨hedge, cfills⟩, hhedge⟩ :
      ∃ h, hedgeClose c.venues x.replies q (closeFills q cover.order sale.order) = h := ⟨_, rfl⟩
  simp only [CloseSettles, hhedge] at hsettles
  simp only [afterClose, hhedge] at hrunning ⊢
  cases hedge with
  | failed excess => cases excess <;> simp [afterSale] at hrunning
  | done hedged correction =>
    by_cases hmatch : quantitiesMatch hedged.foreignQty hedged.koreanQty = true
    · have hdec : ∀ f ∈ [cover, sale] ++ cfills, Decisive f := hsettles hmatch
      have hcorrections : ∀ f ∈ cfills, Sound f := by
        have h := hedgeClose_sound hex ht (q := q) (closeFills q cover.order sale.order)
        rw [hhedge] at h
        exact h fun f hf => hdec f (by simp [hf])
      have hsound : ∀ f ∈ cover :: sale :: cfills, Sound f := by
        intro f hf
        rcases List.mem_cons.mp hf with rfl | hf'
        · exact hcoverSound (hdec _ (by simp))
        rcases List.mem_cons.mp hf' with rfl | hf''
        · exact hsaleSound (hdec _ (by simp))
        · exact hcorrections f hf''
      have hkeeps := keepsHedge_closed hcover hsale hsound hdcover hdsale hhedge hmatch
      refine (hedged_iff _ _).mpr (((hedged_iff _ _).mp hs).extend hkeeps ?_ ?_)
      · simp [afterSale, hmatch, sub_eq_add_neg]
      · intro g _
        simp [afterSale, hmatch]
    · simp [afterSale, hmatch] at hrunning

/-- Every closing split that settles and does not stop the loop keeps the hedge. -/
theorem afterClose_hedged {c : Call} (hex : c.venues.foreign.isKorean = false)
    {x : IterationInput} (ht : TruthfulReplies x.replies) {q : Quotes}
    {initial : Option Position} {s : LoopState} {legs : CloseLegs} {fills : List Fill}
    (hs : Hedged initial s) (hsent : CloseSent c.venues x.replies legs fills)
    (hsettles : CloseSettles c.venues x.replies q legs fills)
    (hrunning : (afterClose c x q (legs, fills) s).running = true) :
    Hedged initial (afterClose c x q (legs, fills) s) := by
  cases hsent with
  | coverFailed coinAmount hd =>
    have hsubmits := executeForeignCover_submits c.venues.foreign x.replies.foreign coinAmount
    have hzero : executed (closeCoverLeg c.venues x.replies coinAmount).toFill = 0 :=
      hsubmits.executed_eq_zero ht.foreign rfl hd
    have hside : OnSide .foreign .buy (closeCoverLeg c.venues x.replies coinAmount).toFill.trades :=
      hsubmits.onSide
    refine (hedged_iff _ _).mpr (((hedged_iff _ _).mp hs).extend (keepsHedge_idle hside hzero)
      (by simp [afterClose]) ?_)
    intro g _
    simp [afterClose]
  | sold coinAmount quantity hcover hsale =>
    refine afterSale_hedged hex ht hs (closeCoverFill_onSide coinAmount)
      (closeSellFill_onSide _ quantity) hcover hsale ?_ ?_ hsettles hrunning
    · exact closeCoverFill_sound hex ht
    · exact closeSellFill_sound ht.korean
  | retrySold coinAmount quantity sale failed i hcover hside hd =>
    have hdone : (closeSellFill c.venues (x.replies.retries i) quantity).done = true := by
      by_contra hnot
      have hstatus : (closeSellFill c.venues (x.replies.retries i) quantity).order.status ≠
          .filled := by
        intro h
        apply hnot
        simp only [closeSellFill, Placed.toFill] at h ⊢
        simp [h]
      simp [afterClose, afterRetry, hstatus] at hrunning
    obtain ⟨hpos, hmatch, hidle⟩ := hsettles hdone
    have hstatus : (closeSellFill c.venues (x.replies.retries i) quantity).order.status =
        .filled := by
      simpa [closeSellFill, Placed.toFill] using hdone
    have hsound : Sound (closeCoverFill c.venues x.replies coinAmount) :=
      closeCoverFill_sound hex ht ⟨fun _ => hpos, fun _ => hcover⟩
    have hkeeps : KeepsHedge (closeCoverFill c.venues x.replies coinAmount ::
        ((sale :: failed) ++ [closeSellFill c.venues (x.replies.retries i) quantity])) _ :=
      keepsHedge_retried (closeCoverFill_onSide coinAmount)
        (closeSellFill_onSide (x.replies.retries i) quantity)
        (fun f hf => ⟨hside f hf, hidle f (by simp at hf ⊢; tauto) (hd f hf)⟩) hmatch
    refine (hedged_iff _ _).mpr (((hedged_iff _ _).mp hs).extend hkeeps ?_ ?_)
    · rw [executed_of_sound hsound hcover]
      simp [afterClose, afterRetry, hstatus, Ledger.closeSplit, sub_eq_add_neg]
    · intro g _
      simp [afterClose, afterRetry, hstatus]
  | retriesFailed => simp [afterClose] at hrunning

/-! ## Runs -/

/-- One iteration that settles and does not end in a critical stop keeps the hedge. -/
theorem iterate_hedged {c : Call} (hex : c.venues.foreign.isKorean = false)
    {initial : Option Position} {s : LoopState} {x : IterationInput} (hs : Hedged initial s)
    (ht : TruthfulReplies x.replies) (hsettles : Settles c s x)
    (hrunning : (iterate c s x).running = true) : Hedged initial (iterate c s x) := by
  have hs' : Hedged initial { s with lastUsdtRate := iterationRate c x.market } := hs
  unfold iterate at hrunning ⊢
  simp only at hrunning ⊢
  unfold Settles at hsettles
  cases hquotes : iterationQuotes c x.market s.ledger.heldAmount with
  | none => exact hs'
  | some q =>
    simp only [hquotes] at hrunning hsettles ⊢
    unfold TradeSettles at hsettles
    cases hbranch : branch c q s.ledger with
    | entry coinAmount =>
      simp only [hbranch] at hsettles
      simp only [trade, hbranch] at hrunning ⊢
      exact afterOpen_hedged hex ht hs' (openSplit_sent _ _ _ _) hsettles hrunning
    | exit coinAmount =>
      simp only [hbranch] at hsettles
      simp only [trade, hbranch] at hrunning ⊢
      exact afterClose_hedged hex ht hs' (closeLegs_sent _ _ _) hsettles hrunning
    | wait =>
      simp only [trade, hbranch]
      exact hs'

/-- A matched position is hedged before the loop has traded. -/
theorem initialState_hedged (c : Call) (initial : Option Position) (now : Timestamp)
    (tracker : PositionTracker) (hmatched : ∀ p, initial = some p → p.matched = true) :
    Hedged initial (initialState c initial now tracker) := by
  cases initial with
  | none =>
    constructor <;>
      simp [Drift, netKoreanLong, netForeignShort, tradedVolume, initialState, Ledger.ofInitial]
  | some p => exact (hedgedAt_of_matched (hmatched p rfl)).1

/-- In every run whose iterations settle, both legs equal `held_amount` up to the hedge
tolerance at every loop head that is not reached through a critical stop. -/
theorem entryLoop_hedged (c : Call) (hforeign : c.signal.foreignExchange.isKorean = false)
    (initial : Option Position) (hmatched : ∀ p, initial = some p → p.matched = true)
    (now : Timestamp) (tracker : PositionTracker) (xs : List IterationInput)
    (htruthful : ∀ x ∈ xs, TruthfulReplies x.replies)
    (hrun : Along (Settles c) (loopStep c) (initialState c initial now tracker) xs)
    (hrunning : (entryLoop c (initialState c initial now tracker) xs).running = true) :
    Hedged initial (entryLoop c (initialState c initial now tracker) xs) := by
  have hboth := hrun.and_forall htruthful
  refine invariant (fun s => s.running = true → Hedged initial s) ?_ xs _ ?_ hboth hrunning
  · intro s x hs hx hnext
    unfold loopStep at hnext ⊢
    split_ifs at hnext ⊢ with hhead
    · exact iterate_hedged hforeign (hs hhead) hx.2 hx.1 hnext
    · exact hs hnext
  · intro _
    exact initialState_hedged c initial now tracker hmatched

/-- One entry split of 35 coins that both venues fill, then a market without an edge. -/
theorem entryLoop_hedged_filled :
    Hedged none (entryLoop (sampleCall .bithumb .bybit)
      (initialState (sampleCall .bithumb .bybit) none 0 .empty)
      [{ market := sampleMarket 1000
         replies := legReplies (executingForeign 35 1) (executingKorean .done 35 1000) },
        { market := sampleMarket 1400
          replies := legReplies rejectingForeign rejectingKorean }]) := by
  apply entryLoop_hedged
  · rfl
  · intro p h
    cases h
  · intro x hx
    simp only [List.mem_cons, List.not_mem_nil, or_false] at hx
    rcases hx with rfl | rfl
    · exact legReplies_truthful (executingForeign_truthful (by norm_num) (by norm_num))
        (executingKorean_truthful (Or.inl rfl) (by norm_num) (by norm_num))
    · exact legReplies_truthful rejectingForeign_truthful rejectingKorean_truthful
  · refine ⟨?_, ?_, trivial⟩ <;> decide +kernel
  · decide +kernel

/-- The iteration that breaks the hedge: Upbit buys 20 of 35 coins and cancels the rest, so
the buy counts as failed and only the short is rolled back. -/
def partialBuyInput : IterationInput where
  market := sampleMarket 1000
  replies :=
    { legReplies (executingForeign 35 1) (executingKorean .cancel 20 1000) with
      rollback := executingForeign 35 1 }

/-- Truthful venues alone do not keep the loop hedged. -/
theorem partialBuy_not_hedged :
    ¬ ∀ (c : Call) (initial : Option Position) (now : Timestamp) (tracker : PositionTracker)
      (xs : List IterationInput), c.signal.foreignExchange.isKorean = false →
      (∀ p, initial = some p → p.matched = true) → (∀ x ∈ xs, TruthfulReplies x.replies) →
      (entryLoop c (initialState c initial now tracker) xs).running = true →
      Hedged initial (entryLoop c (initialState c initial now tracker) xs) := by
  intro h
  have htruthful : TruthfulReplies partialBuyInput.replies :=
    { legReplies_truthful (@executingForeign_truthful 35 1 (by norm_num) one_pos)
        (@executingKorean_truthful .cancel (Or.inr rfl) 20 1000 (by norm_num) (by norm_num)) with
      rollback := executingForeign_truthful (by norm_num) one_pos }
  have hhedged := h (sampleCall .upbit .bybit) none 0 .empty [partialBuyInput] rfl
    (by intro p hp; cases hp) (by simpa using htruthful) (by decide +kernel)
  revert hhedged
  decide +kernel

end SpotRelay.Analysis
