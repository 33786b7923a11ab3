import SpotRelay.Analysis.CoverSizing
import SpotRelay.Analysis.RollbackNeutrality

/-!
# The size of a short and of its rollback

A short is rounded down to whole lots, a cover is rounded up to whole lots, and each tolerates a
billionth of a lot.  What has been rounded down for a short is therefore whole lots, which neither
rounding moves any more.

* **a short** is rounded down to whole lots (`openShortFill_quantity`) and neither rounding moves
  whole lots any more.
* **a rollback** under the same lot filter therefore buys what was ordered
  (`coversOpened_openSplit`), below the Korean minimum as well as after a refused buy
  (`guardRollback_openSplit`, `refusedBuyRollback_openSplit`).
-/

set_option autoImplicit false

namespace SpotRelay.Analysis

open SpotRelay.Model SpotRelay.Interface
open SpotRelay.Library.LotRounding SpotRelay.Library.Run

/-! ## The rounded quantity -/

/-- The price that the minimum notional of an order is checked with. -/
def orderPriceHint (ticker : Option CachedTicker) (isOpen : Bool) : ℚ :=
  match ticker with
  | none => 0
  | some t =>
    if isOpen then (if 0 < t.bid then t.bid else t.last) else (if 0 < t.ask then t.ask else t.last)

/-- An amount below one of the minimums. -/
def BelowMinimums (l : LotSize) (price amount : ℚ) : Prop :=
  amount < l.minQty ∨ 0 < l.minNotional ∧ 0 < price ∧ amount * price < l.minNotional

instance (l : LotSize) (price amount : ℚ) : Decidable (BelowMinimums l price amount) :=
  inferInstanceAs (Decidable (_ ∨ _))

/-- An order is rounded down to whole lots, and not made below a minimum. -/
theorem normalizeOrderQty_eq (l : LotSize) (ticker : Option CachedTicker) (isOpen : Bool)
    {quantity : ℚ} (hquantity : 0 < quantity) :
    normalizeOrderQty (some l) ticker quantity isOpen =
      if BelowMinimums l (orderPriceHint ticker isOpen) (floorLots l quantity) then 0
      else floorLots l quantity := by
  have hchecks : normalizeOrderQty (some l) ticker quantity isOpen =
      if floorLots l quantity < l.minQty then 0
      else if 0 < l.minNotional ∧ 0 < orderPriceHint ticker isOpen ∧
          floorLots l quantity * orderPriceHint ticker isOpen < l.minNotional then 0
      else floorLots l quantity := by
    simp only [normalizeOrderQty, not_le.mpr hquantity, if_false]
    rfl
  rw [hchecks]
  by_cases hmin : floorLots l quantity < l.minQty <;> simp [BelowMinimums, hmin]

/-- Nothing is ordered of nothing. -/
theorem normalizeOrderQty_of_nonpos (lot : Option LotSize) (ticker : Option CachedTicker)
    (isOpen : Bool) {quantity : ℚ} (hquantity : quantity ≤ 0) :
    normalizeOrderQty lot ticker quantity isOpen = 0 :=
  if_pos hquantity

/-- What is below the minimums stays below them when it gets smaller. -/
theorem belowMinimums_anti {l : LotSize} {price amount more : ℚ} (hmore : amount ≤ more)
    (h : BelowMinimums l price more) : BelowMinimums l price amount := by
  rcases h with hqty | ⟨hset, hprice, hnotional⟩
  · exact Or.inl (hmore.trans_lt hqty)
  · exact Or.inr ⟨hset, hprice, (mul_le_mul_of_nonneg_right hmore hprice.le).trans_lt hnotional⟩

/-- What is ordered is nothing, or whole lots that no minimum refuses. -/
theorem normalizeOrderQty_cases (l : LotSize) (ticker : Option CachedTicker) (isOpen : Bool)
    (quantity : ℚ) :
    normalizeOrderQty (some l) ticker quantity isOpen = 0 ∨
      0 < quantity ∧ normalizeOrderQty (some l) ticker quantity isOpen = floorLots l quantity ∧
        ¬ BelowMinimums l (orderPriceHint ticker isOpen) (floorLots l quantity) := by
  rcases lt_or_ge 0 quantity with hquantity | hquantity
  · rw [normalizeOrderQty_eq l ticker isOpen hquantity]
    split_ifs with hbelow
    · exact Or.inl rfl
    · exact Or.inr ⟨hquantity, rfl, hbelow⟩
  · exact Or.inl (normalizeOrderQty_of_nonpos _ _ _ hquantity)

section Lots

variable {l : LotSize} (hstep : 0 < l.qtyStep)

include hstep

/-- With a lot step the quantity is rounded down to it. -/
theorem floorLots_of_step (quantity : ℚ) :
    floorLots l quantity = roundDown (1 / 1000000000) l.qtyStep quantity :=
  if_pos hstep

/-- Rounding down keeps a quantity from going negative. -/
theorem floorLots_nonneg {quantity : ℚ} (hquantity : 0 ≤ quantity) : 0 ≤ floorLots l quantity := by
  have hnone : (0 : ℚ) ≤ roundDown (1 / 1000000000) l.qtyStep quantity := by
    have hfits : ((0 : ℤ) : ℚ) * l.qtyStep ≤ quantity + 1 / 1000000000 * l.qtyStep := by
      have hnoise : 0 ≤ 1 / 1000000000 * l.qtyStep := by positivity
      rw [Int.cast_zero, zero_mul]
      exact add_nonneg hquantity hnoise
    simpa using multiple_le_roundDown hstep hfits
  rwa [floorLots_of_step hstep]

/-- Whole lots stay whole lots. -/
theorem floorLots_floorLots (quantity : ℚ) :
    floorLots l (floorLots l quantity) = floorLots l quantity := by
  rw [floorLots_of_step hstep quantity, floorLots_of_step hstep]
  exact roundDown_multiple hstep (by norm_num) (by norm_num) _

/-- An ordered quantity is whole lots, less than one lot below what was asked for. -/
theorem normalizeOrderQty_lots (ticker : Option CachedTicker) (isOpen : Bool) (quantity : ℚ) :
    normalizeOrderQty (some l) ticker quantity isOpen = 0 ∨
      ∃ n : ℤ, normalizeOrderQty (some l) ticker quantity isOpen = n * l.qtyStep ∧
        l.minQty ≤ n * l.qtyStep ∧ quantity - l.qtyStep < n * l.qtyStep ∧
        n * l.qtyStep ≤ quantity + 1 / 1000000000 * l.qtyStep := by
  refine (normalizeOrderQty_cases l ticker isOpen quantity).imp_right ?_
  rintro ⟨-, hfloor, hmeets⟩
  rw [floorLots_of_step hstep] at hfloor hmeets
  refine ⟨⌊quantity / l.qtyStep + 1 / 1000000000⌋, hfloor, ?_, ?_, ?_⟩
  · exact not_lt.mp fun hless => hmeets (Or.inl hless)
  · exact sub_lt_roundDown hstep (by norm_num)
  · exact roundDown_le hstep

/-- A normalized quantity is not negative. -/
theorem normalizeOrderQty_nonneg (ticker : Option CachedTicker) (isOpen : Bool) (quantity : ℚ) :
    0 ≤ normalizeOrderQty (some l) ticker quantity isOpen := by
  rcases normalizeOrderQty_cases l ticker isOpen quantity with hzero | ⟨hpos, hfloor, -⟩
  · exact hzero.ge
  · rw [hfloor]
    exact floorLots_nonneg hstep hpos.le

/-- Normalizing keeps the order of quantities. -/
theorem normalizeOrderQty_mono (ticker : Option CachedTicker) (isOpen : Bool) :
    Monotone fun quantity => normalizeOrderQty (some l) ticker quantity isOpen := by
  intro less more hmore
  dsimp only
  rcases normalizeOrderQty_cases l ticker isOpen less with hzero | ⟨hpos, hfloor, hmeets⟩
  · rw [hzero]
    exact normalizeOrderQty_nonneg hstep ticker isOpen more
  · have hlots : floorLots l less ≤ floorLots l more := by
      rw [floorLots_of_step hstep, floorLots_of_step hstep]
      exact roundDown_mono hstep hmore
    -- a minimum that the smaller quantity meets does not stop the larger one
    rw [hfloor, normalizeOrderQty_eq l ticker isOpen (hpos.trans_le hmore), if_neg]
    · exact hlots
    · exact fun hbelow => hmeets (belowMinimums_anti hlots hbelow)

/-- An ordered quantity is ordered as it is. -/
theorem normalizeOrderQty_idem (ticker : Option CachedTicker) (isOpen : Bool) (quantity : ℚ) :
    normalizeOrderQty (some l) ticker (normalizeOrderQty (some l) ticker quantity isOpen) isOpen =
      normalizeOrderQty (some l) ticker quantity isOpen := by
  rcases normalizeOrderQty_cases l ticker isOpen quantity with hzero | ⟨hpos, hfloor, hmeets⟩
  · rw [hzero]
    exact normalizeOrderQty_of_nonpos _ _ _ le_rfl
  · rw [hfloor]
    rcases (floorLots_nonneg hstep hpos.le).lt_or_eq with hlots | hnone
    · rw [normalizeOrderQty_eq l ticker isOpen hlots, floorLots_floorLots hstep, if_neg hmeets]
    · rw [← hnone]
      exact normalizeOrderQty_of_nonpos _ _ _ le_rfl

/-- A cover of whole lots that meet the minimum covers them exactly. -/
theorem normalizeCloseQty_of_lots {n : ℤ} (hpos : 0 < n * l.qtyStep)
    (hmin : l.minQty ≤ n * l.qtyStep) :
    normalizeCloseQty (some l) (n * l.qtyStep) = n * l.qtyStep := by
  rw [normalizeCloseQty_eq _ hpos, lotOf_some, ceilLots, if_pos hstep,
    roundUp_multiple hstep (by norm_num) (by norm_num), max_eq_right hmin]

/-- A cover of an ordered quantity covers it exactly. -/
theorem normalizeCloseQty_normalizeOrderQty (ticker : Option CachedTicker) (isOpen : Bool)
    {quantity : ℚ} (hpos : 0 < normalizeOrderQty (some l) ticker quantity isOpen) :
    normalizeCloseQty (some l) (normalizeOrderQty (some l) ticker quantity isOpen) =
      normalizeOrderQty (some l) ticker quantity isOpen := by
  rcases normalizeOrderQty_lots hstep ticker isOpen quantity with hzero | ⟨n, hlots, hmin, -⟩
  · exact absurd hzero hpos.ne'
  · rw [hlots] at hpos ⊢
    exact normalizeCloseQty_of_lots hstep hpos hmin

end Lots

/-! ## Rollbacks -/

/-- The short and its cover where the order is below the Korean minimum. -/
def guardRollback : OpenSplit × List Fill → Option (Fill × Fill)
  | (.minOrderRolledBack short rollback, _) => some (short, rollback)
  | (.minOrderRollbackFailed _, [short, rollback]) => some (short, rollback)
  | _ => none

/-- The short and its cover where the Korean buy was not reported `Filled`. -/
def refusedBuyRollback : OpenSplit × List Fill → Option (Fill × Fill)
  | (.buyRolledBack short rollback, _) => some (short, rollback)
  | (.buyRollbackFailed _, [short, _, rollback]) => some (short, rollback)
  | _ => none

/-- A fill report of whole lots, no less than the minimum. -/
def ReportedInLots (l : LotSize) (order : Order) : Prop :=
  0 < order.filledQuantity →
    ∃ n : ℤ, order.filledQuantity = n * l.qtyStep ∧ l.minQty ≤ n * l.qtyStep

/-- What a rollback of an opening split buys is what its short sold.  The first rollback takes the
quantity from the order of the short, the second one from the report of its fill. -/
structure CoversOpened (l : LotSize) (split : OpenSplit × List Fill) : Prop where
  guard : ∀ orders ∈ guardRollback split, orders.2.order.quantity = orders.1.order.quantity
  refusedBuy : ∀ orders ∈ refusedBuyRollback split, ReportedInLots l orders.1.order →
    orders.2.order.quantity = resolvedFillQuantity orders.1.order

section Rollback

variable {l : LotSize} {v : Venues} {r : SplitReplies}

/-- A Bybit cover has the rounded quantity, whether it is acknowledged or not. -/
theorem rollbackFill_quantity (hvenue : getForeignExchange v.foreign = .bybit)
    (hlot : r.rollback.lot = some l) {quantity : ℚ}
    (hpos : 0 < normalizeCloseQty (some l) quantity) :
    (rollbackFill v r quantity).order.quantity = normalizeCloseQty (some l) quantity := by
  simp only [rollbackFill, Placed.toFill, executeForeignCover, hvenue, bybitCloseShort, hlot,
    not_le.mpr hpos, if_false]
  split_ifs
  · rfl
  · exact submitForeign_quantity _ _ _ _

/-- An acknowledged short has the rounded quantity. -/
theorem openShortLeg_quantity (coinAmount : ℚ)
    (hfilled : (openShortLeg v r coinAmount).order.status = .filled) :
    0 < (openShortLeg v r coinAmount).order.quantity ∧
      (openShortLeg v r coinAmount).order.quantity =
        normalizeOrderQty r.foreign.lot r.foreign.ticker coinAmount true := by
  unfold openShortLeg executeForeignShort openShort at hfilled ⊢
  dsimp only at hfilled ⊢
  split_ifs at hfilled ⊢ with hnone hmargin
  rw [submitForeign_quantity]
  exact ⟨not_le.mp hnone, rfl⟩

/-- The fill query of a short keeps its quantity. -/
theorem openShortFill_quantity (coinAmount : ℚ) :
    (openShortFill v r coinAmount).order.quantity = (openShortLeg v r coinAmount).order.quantity :=
  queryForeignFill_keeps
    (I := fun order => order.quantity = (openShortLeg v r coinAmount).order.quantity) v.foreign
    (fun _ _ _ h => h) (fun _ _ _ h => h) rfl

/-- The orders of a split that is below the Korean minimum. -/
theorem guardRollback_openSplit {q : Quotes} {coinAmount : ℚ} {orders : Fill × Fill}
    (h : orders ∈ guardRollback (openSplit v r q coinAmount)) :
    (openShortLeg v r coinAmount).order.status = .filled ∧
      orders = ((openShortLeg v r coinAmount).toFill,
        rollbackFill v r (openShortLeg v r coinAmount).order.quantity) := by
  unfold openSplit at h
  dsimp only at h
  split_ifs at h with hrefused hminimum hbuy
  · simp [guardRollback] at h
  · refine ⟨not_not.mp hrefused, ?_⟩
    unfold openBelowMinimum at h
    dsimp only at h
    split_ifs at h <;> exact (Option.mem_some_iff.mp h).symm
  · unfold openHedged at h
    dsimp only at h
    split at h
    · simp [guardRollback] at h
    · split_ifs at h <;> simp [guardRollback] at h
  · unfold openBuyFailed at h
    dsimp only at h
    split_ifs at h <;> simp [guardRollback] at h

/-- The orders of a split whose buy was refused. -/
theorem refusedBuyRollback_openSplit {q : Quotes} {coinAmount : ℚ} {orders : Fill × Fill}
    (h : orders ∈ refusedBuyRollback (openSplit v r q coinAmount)) :
    (openShortLeg v r coinAmount).order.status = .filled ∧
      orders = (openShortFill v r coinAmount,
        rollbackFill v r (resolvedFillQuantity (openShortFill v r coinAmount).order)) := by
  unfold openSplit at h
  dsimp only at h
  split_ifs at h with hrefused hminimum hbuy
  · simp [refusedBuyRollback] at h
  · unfold openBelowMinimum at h
    dsimp only at h
    split_ifs at h <;> simp [refusedBuyRollback] at h
  · unfold openHedged at h
    dsimp only at h
    split at h
    · simp [refusedBuyRollback] at h
    · split_ifs at h <;> simp [refusedBuyRollback] at h
  · refine ⟨not_not.mp hrefused, ?_⟩
    unfold openBuyFailed at h
    dsimp only at h
    split_ifs at h <;> exact (Option.mem_some_iff.mp h).symm

/-- A rollback at Bybit, under the lot filter of its short, buys what was sold. -/
theorem coversOpened_openSplit (hstep : 0 < l.qtyStep)
    (hvenue : getForeignExchange v.foreign = .bybit) (hopen : r.foreign.lot = some l)
    (hclose : r.rollback.lot = some l) (q : Quotes) (coinAmount : ℚ) :
    CoversOpened l (openSplit v r q coinAmount) := by
  have hcover : ∀ quantity, 0 < quantity → normalizeCloseQty (some l) quantity = quantity →
      (rollbackFill v r quantity).order.quantity = quantity := by
    intro quantity hpos hsame
    rw [rollbackFill_quantity hvenue hclose (hpos.trans_eq hsame.symm), hsame]
  have hordered : (openShortLeg v r coinAmount).order.status = .filled →
      0 < (openShortLeg v r coinAmount).order.quantity ∧
        normalizeCloseQty (some l) (openShortLeg v r coinAmount).order.quantity =
          (openShortLeg v r coinAmount).order.quantity := by
    intro hfilled
    obtain ⟨hpos, hqty⟩ := openShortLeg_quantity coinAmount hfilled
    rw [hopen] at hqty
    rw [hqty] at hpos ⊢
    exact ⟨hpos, normalizeCloseQty_normalizeOrderQty hstep _ _ hpos⟩
  constructor
  · intro orders h
    obtain ⟨hfilled, rfl⟩ := guardRollback_openSplit h
    exact hcover _ (hordered hfilled).1 (hordered hfilled).2
  · intro orders h hreport
    obtain ⟨hfilled, rfl⟩ := refusedBuyRollback_openSplit h
    dsimp only at hreport ⊢
    -- the report of the fill if there is one, else the quantity of the order
    rcases lt_or_ge 0 (openShortFill v r coinAmount).order.filledQuantity with hknown | hunknown
    · obtain ⟨n, hlots, hmin⟩ := hreport hknown
      rw [resolvedFillQuantity, if_pos hknown, hlots]
      rw [hlots] at hknown
      exact hcover _ hknown (normalizeCloseQty_of_lots hstep hknown hmin)
    · obtain ⟨hpos, hsame⟩ := hordered hfilled
      rw [← openShortFill_quantity] at hpos hsame
      rw [resolvedFillQuantity, if_neg (not_lt.mpr hunknown), if_pos hpos]
      exact hcover _ hpos hsame

end Rollback

/-- Lots of a tenth of a coin, of which Bybit trades no less than one coin. -/
def tenthLots : LotSize := ⟨1 / 10, 1, 5⟩

/-- A split of ten coins of which Bybit sells `sold`, whose buy the Korean venue refuses, and of
which Bybit buys back `bought`. -/
def refusedBuySplit (sold bought : ℚ) : OpenSplit × List Fill :=
  openSplit ⟨.bithumb, .bybit⟩
    { foreign := { executingForeign sold 1 with lot := some tenthLots }
      korean := rejectingKorean
      rollback := { executingForeign bought 1 with lot := some tenthLots } }
    ⟨1, 1, 1000, 1000, 1000, 1000, 1400⟩ 10

end SpotRelay.Analysis
