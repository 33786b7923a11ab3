import SpotRelay.Library.Run
import SpotRelay.Model.EntryDoubles

/-!
# The minimum of the Korean order

An entry is let through when its size in USD reaches the Korean minimum at the quoted prices, and
its short is rolled back when the ordered coins do not.  Between the two stand the rounding to
whole lots and the rounding of doubles.

* **the condition**: where the foreign venue takes a short, some whole number of lots within the
  coin amount is worth a Korean order (`LotsWorthOrder`).  What the order is worth never decreases
  with its lots, so that it is enough for the lots rounded down to (`floorLots_worth_iff`).
* **a run** of iterations submits no short that is rolled back for being too small, exactly where
  the condition holds along it (`filled_shorts_executable_iff`).
* **a rolled-back short** leaves everything that the next size depends on, and on the same quotes
  it is submitted again (`rolledBack_repeats`).
-/

set_option autoImplicit false

namespace SpotRelay.Analysis.Doubles

open SpotRelay.Library.BinaryFloat.BinaryFormat
open SpotRelay.Library.Run
open SpotRelay.Model (Binary64)
open SpotRelay.Model.Doubles

/-! ## Lots -/

/-- A whole number of lots within a quantity, up to a billionth of a lot; without a lot step, any
amount within it. -/
def LotsWithin (l : LotSize) (quantity amount : Binary64) : Prop :=
  if 0 < l.qtyStep then
    ∃ n : ℤ, (n : ℚ) ≤ (quantity / l.qtyStep + literal (1 / 1000000000)).val ∧
      amount = literal n * l.qtyStep
  else amount ≤ quantity

/-- An amount below one of the minimums. -/
def BelowMinimums (l : LotSize) (price amount : Binary64) : Prop :=
  amount < l.minQty ∨ 0 < l.minNotional ∧ 0 < price ∧ amount * price < l.minNotional

instance (l : LotSize) (price amount : Binary64) : Decidable (BelowMinimums l price amount) :=
  inferInstanceAs (Decidable (_ ∨ _))

/-- The filter of a venue, or one that filters nothing. -/
def lotOf (lot : Option LotSize) : LotSize := lot.getD ⟨0, 0, 0⟩

/-- The lots rounded down to are the largest ones within a quantity. -/
theorem isGreatest_floorLots (l : LotSize) (quantity : Binary64) :
    IsGreatest {amount | LotsWithin l quantity amount} (floorLots l quantity) := by
  unfold LotsWithin floorLots
  by_cases hstep : 0 < l.qtyStep
  · simp only [if_pos hstep]
    refine ⟨⟨_, Int.floor_le _, rfl⟩, ?_⟩
    rintro amount ⟨n, hwithin, rfl⟩
    -- more lots are no fewer coins, rounded or not
    have hlots : (n : ℚ) ≤ ⌊(quantity / l.qtyStep + literal (1 / 1000000000)).val⌋ :=
      Int.cast_le.mpr (Int.le_floor.mpr hwithin)
    exact Number.mul_le_mul_of_nonneg_right (Number.ofRat_mono hlots) hstep.le
  · simp only [if_neg hstep]
    exact ⟨le_refl quantity, fun _ h => h⟩

/-- The lots rounded down to are worth as much as any. -/
theorem floorLots_worth_iff {l : LotSize} {price quantity minimum : Binary64} (hprice : 0 < price) :
    minimum ≤ floorLots l quantity * price ↔
      ∃ amount, LotsWithin l quantity amount ∧ minimum ≤ amount * price := by
  obtain ⟨hwithin, hgreatest⟩ := isGreatest_floorLots l quantity
  constructor
  · intro h
    exact ⟨_, hwithin, h⟩
  · rintro ⟨amount, hamount, hworth⟩
    exact hworth.trans (Number.mul_le_mul_of_nonneg_right (hgreatest hamount) hprice.le)

/-- Less than what is below a minimum is below it too. -/
theorem belowMinimums_anti {l : LotSize} {price amount more : Binary64} (hmore : amount ≤ more)
    (h : BelowMinimums l price more) : BelowMinimums l price amount := by
  rcases h with hqty | ⟨hset, hprice, hnotional⟩
  · exact Or.inl (hmore.trans_lt hqty)
  · have hvalue : amount * price ≤ more * price :=
      Number.mul_le_mul_of_nonneg_right hmore hprice.le
    exact Or.inr ⟨hset, hprice, hvalue.trans_lt hnotional⟩

/-- With or without a filter, what is ordered is rounded down to its lots unless that is below a
minimum. -/
theorem normalizeOrderQty_eq (lot : Option LotSize) (ticker : Option CachedTicker) (isOpen : Bool)
    {quantity : Binary64} (hquantity : 0 < quantity) :
    normalizeOrderQty lot ticker quantity isOpen =
      if BelowMinimums (lotOf lot) (orderPriceHint ticker isOpen) (floorLots (lotOf lot) quantity)
      then 0 else floorLots (lotOf lot) quantity := by
  cases lot with
  | none =>
    have hwhole : floorLots (lotOf none) quantity = quantity := if_neg (lt_irrefl _)
    have hall : ¬ BelowMinimums (lotOf none) (orderPriceHint ticker isOpen) quantity := by
      rintro (hqty | ⟨hset, -⟩)
      · exact lt_asymm hquantity hqty
      · exact lt_irrefl _ hset
    simp only [hwhole, hall, if_false]
    exact if_neg (not_le.mpr hquantity)
  | some l =>
    have hchecks : normalizeOrderQty (some l) ticker quantity isOpen =
        if floorLots l quantity < l.minQty then 0
        else if 0 < l.minNotional ∧ 0 < orderPriceHint ticker isOpen ∧
            floorLots l quantity * orderPriceHint ticker isOpen < l.minNotional then 0
        else floorLots l quantity :=
      if_neg (not_le.mpr hquantity)
    have hlot : lotOf (some l) = l := rfl
    rw [hchecks, hlot]
    by_cases hqty : floorLots l quantity < l.minQty
    · have hbelow : BelowMinimums l (orderPriceHint ticker isOpen) (floorLots l quantity) :=
        Or.inl hqty
      rw [if_pos hqty, if_pos hbelow]
    · rw [if_neg hqty]
      exact if_congr (or_iff_right hqty).symm rfl rfl

/-- Something is ordered exactly where some whole lots are not below a minimum. -/
theorem normalizeOrderQty_pos_iff {lot : Option LotSize} {ticker : Option CachedTicker}
    {isOpen : Bool} {quantity : Binary64} (hquantity : 0 < quantity) :
    0 < normalizeOrderQty lot ticker quantity isOpen ↔
      ∃ amount, LotsWithin (lotOf lot) quantity amount ∧ 0 < amount ∧
        ¬ BelowMinimums (lotOf lot) (orderPriceHint ticker isOpen) amount := by
  obtain ⟨hwithin, hgreatest⟩ := isGreatest_floorLots (lotOf lot) quantity
  rw [normalizeOrderQty_eq lot ticker isOpen hquantity]
  constructor
  · intro h
    split_ifs at h with hbelow
    · exact absurd h (lt_irrefl 0)
    · exact ⟨_, hwithin, h, hbelow⟩
  · rintro ⟨amount, hamount, hpos, hmeets⟩
    have hmore : amount ≤ floorLots (lotOf lot) quantity := hgreatest hamount
    rw [if_neg fun hbelow => hmeets (belowMinimums_anti hmore hbelow)]
    exact hpos.trans_le hmore

/-! ## The short -/

/-- The foreign venue takes a short of an amount: it acknowledges orders, and some whole lots
within the amount meet its minimums. -/
structure TakesShort (r : ShortReply) (coinAmount : Binary64) : Prop where
  margin : r.marginReady = true
  acknowledged : r.acknowledged = true
  positive : 0 < coinAmount
  sellable : ∃ amount, LotsWithin (lotOf r.lot) coinAmount amount ∧ 0 < amount ∧
    ¬ BelowMinimums (lotOf r.lot) (orderPriceHint r.ticker true) amount

section Short

variable {r : ShortReply} {coinAmount : Binary64}

/-- A filled short has the rounded quantity, which is positive. -/
theorem openShort_filled_iff :
    (openShort r coinAmount).filled = true ↔
      0 < normalizeOrderQty r.lot r.ticker coinAmount true ∧ r.marginReady = true ∧
        r.acknowledged = true := by
  unfold openShort
  dsimp only
  split_ifs with hnone hmargin
  · exact iff_of_false (by simp) fun h => absurd hnone (not_le.mpr h.1)
  · refine iff_of_false (by simp) fun h => ?_
    rw [h.2.1] at hmargin
    cases hmargin
  · have hready : r.marginReady = true := by simpa using hmargin
    exact ⟨fun h => ⟨not_le.mp hnone, hready, h⟩, fun h => h.2.2⟩

/-- A short is `Filled` exactly where the venue takes it. -/
theorem openShort_filled_iff_takes :
    (openShort r coinAmount).filled = true ↔ TakesShort r coinAmount := by
  rw [openShort_filled_iff]
  constructor
  · rintro ⟨hlots, hmargin, hack⟩
    have hpositive : 0 < coinAmount := by
      by_contra hnone
      have hzero : normalizeOrderQty r.lot r.ticker coinAmount true = 0 :=
        if_pos (not_lt.mp hnone)
      exact lt_irrefl _ (hzero ▸ hlots)
    exact ⟨hmargin, hack, hpositive, (normalizeOrderQty_pos_iff hpositive).mp hlots⟩
  · rintro ⟨hmargin, hack, hpositive, hsellable⟩
    exact ⟨(normalizeOrderQty_pos_iff hpositive).mpr hsellable, hmargin, hack⟩

/-- The quantity of a filled short is the lots rounded down to. -/
theorem openShort_quantity (hfilled : (openShort r coinAmount).filled = true) :
    (openShort r coinAmount).quantity = floorLots (lotOf r.lot) coinAmount := by
  obtain ⟨hlots, hmargin, -⟩ := openShort_filled_iff.mp hfilled
  have hpositive := (openShort_filled_iff_takes.mp hfilled).positive
  have hquantity : (openShort r coinAmount).quantity =
      normalizeOrderQty r.lot r.ticker coinAmount true := by
    simp only [openShort, not_le.mpr hlots, if_false, hmargin, Bool.not_true, Bool.false_eq_true]
  rw [hquantity]
  rw [normalizeOrderQty_eq r.lot r.ticker true hpositive] at hlots ⊢
  split_ifs at hlots ⊢
  · exact absurd hlots (lt_irrefl 0)
  · rfl

end Short

/-! ## One iteration -/

/-- A short that is reported `Filled` is worth a Korean order, and is not rolled back for being
too small. -/
structure ShortsExecutable (positionSizeUsd : Binary64) (s : EntryHead) (x : EntryRound) :
    Prop where
  worth : ∀ short ∈ submittedShort positionSizeUsd s x,
    (openShort x.reply short.coinAmount).filled = true →
      minOrderKrw ≤ (openShort x.reply short.coinAmount).quantity * short.quotes.koreanAsk
  kept : guardRollback positionSizeUsd s x = none

/-- Where the foreign venue takes a short, some whole lots within the coin amount are worth a
Korean order. -/
def LotsWorthOrder (positionSizeUsd : Binary64) (s : EntryHead) (x : EntryRound) : Prop :=
  ∀ short ∈ submittedShort positionSizeUsd s x, TakesShort x.reply short.coinAmount →
    ∃ amount, LotsWithin (lotOf x.reply.lot) short.coinAmount amount ∧
      minOrderKrw ≤ amount * short.quotes.koreanAsk

section Iteration

variable {positionSizeUsd : Binary64} {s : EntryHead} {x : EntryRound}

/-- An entry is priced: without a Korean ask there is no profit. -/
theorem koreanAsk_pos_of_entry {totalForeignValue amount : Binary64} {q : EntryQuotes}
    (h : entryCoinAmount positionSizeUsd totalForeignValue q = some amount) :
    0 < q.koreanAsk := by
  have hfloor : (0 : Binary64) < literal SpotRelay.Model.TradingConfig.minEntryNetProfitKrw := by
    decide +kernel
  unfold entryCoinAmount at h
  dsimp only at h
  obtain ⟨⟨-, hprofitable, -⟩, -⟩ := Option.ite_none_right_eq_some.mp h
  by_contra hnone
  have hprofit := hfloor.trans_le hprofitable
  rw [calculateRelayMetrics, if_pos (Or.inl (not_lt.mp hnone))] at hprofit
  exact lt_irrefl _ hprofit

/-- A submitted short is an entry at quotes of its iteration. -/
theorem entry_of_submittedShort {short : SizedShort}
    (h : short ∈ submittedShort positionSizeUsd s x) :
    s.running = true ∧ x.quotes = some short.quotes ∧
      entryCoinAmount positionSizeUsd s.totalForeignValue short.quotes = some short.coinAmount := by
  unfold submittedShort at h
  split_ifs at h with hrunning
  · obtain ⟨q, hquotes, hshort⟩ := Option.bind_eq_some_iff.mp h
    obtain ⟨amount, hamount, rfl⟩ := Option.map_eq_some_iff.mp hshort
    exact ⟨hrunning, hquotes, hamount⟩
  · cases h

/-- The guard rolls back exactly the filled shorts that are worth too little. -/
theorem guardRollback_eq_none_iff :
    guardRollback positionSizeUsd s x = none ↔
      ∀ short ∈ submittedShort positionSizeUsd s x,
        (openShort x.reply short.coinAmount).filled = true →
          minOrderKrw ≤ (openShort x.reply short.coinAmount).quantity * short.quotes.koreanAsk := by
  unfold guardRollback
  cases submittedShort positionSizeUsd s x with
  | none => simp
  | some short =>
    simp only [Option.bind_some, Option.mem_some_iff, forall_eq', belowMinimum]
    cases (openShort x.reply short.coinAmount).filled <;> simp

/-- The shorts of an iteration are executable exactly where the lots allow it. -/
theorem shortsExecutable_iff :
    ShortsExecutable positionSizeUsd s x ↔ LotsWorthOrder positionSizeUsd s x := by
  have hboth : ShortsExecutable positionSizeUsd s x ↔
      ∀ short ∈ submittedShort positionSizeUsd s x,
        (openShort x.reply short.coinAmount).filled = true →
          minOrderKrw ≤ (openShort x.reply short.coinAmount).quantity * short.quotes.koreanAsk :=
    ⟨fun h => h.worth, fun h => ⟨h, guardRollback_eq_none_iff.mpr h⟩⟩
  rw [hboth]
  refine forall₂_congr fun short hshort => ?_
  have hask := koreanAsk_pos_of_entry (entry_of_submittedShort hshort).2.2
  rw [← openShort_filled_iff_takes]
  refine forall_congr' fun hfilled => ?_
  rw [openShort_quantity hfilled]
  exact floorLots_worth_iff hask

end Iteration

/-! ## Runs -/

/-- Whatever is held at first and booked in between, every filled short of a run is worth a Korean
order exactly when some whole lots within each coin amount are. -/
theorem filled_shorts_executable_iff (positionSizeUsd : Binary64) (s : EntryHead)
    (xs : List EntryRound) :
    Along (ShortsExecutable positionSizeUsd) (entryStep positionSizeUsd) s xs ↔
      Along (LotsWorthOrder positionSizeUsd) (entryStep positionSizeUsd) s xs :=
  along_congr (fun _ _ => shortsExecutable_iff) s xs

/-- A market of 1200 won and 0.81 USD, and a venue that trades any amount. -/
def unfilteredRound : EntryRound where
  quotes := some
    { foreignBid := literal (81 / 100)
      foreignBidQty := literal 1000
      koreanAsk := literal 1200
      koreanAskQty := literal 1000
      usdtRate := literal 1600 }

-- without lots the rounding of doubles is enough: 3.375 USD are converted to 4999.999999999999 won
example : guardRollback (literal 3000) ⟨literal (2996625 / 1000), true⟩ unfilteredRound ≠ none := by
  decide +kernel

/-- A rollback of the guard that is filled changes nothing. -/
theorem entryStep_of_rolledBack {positionSizeUsd : Binary64} {s : EntryHead} {x : EntryRound}
    (hguard : (guardRollback positionSizeUsd s x).isSome = true)
    (hcover : x.rollbackFilled = true) : entryStep positionSizeUsd s x = s := by
  unfold guardRollback at hguard
  cases hshort : submittedShort positionSizeUsd s x with
  | none =>
    rw [hshort] at hguard
    cases hguard
  | some short =>
    obtain ⟨hrunning, -, -⟩ := entry_of_submittedShort hshort
    rw [hshort, Option.bind_some] at hguard
    dsimp only at hguard
    split_ifs at hguard with hrolled
    · rw [Bool.and_eq_true] at hrolled
      simp only [entryStep, hrunning, hshort, hrolled.1, hrolled.2, hcover, if_true,
        Bool.true_eq_false, if_false]
      rw [← hrunning]
    · cases hguard

/-- What a rollback leaves behind submits the same short again, as often as the quotes last. -/
theorem rolledBack_repeats {positionSizeUsd : Binary64} {s : EntryHead} {x : EntryRound}
    (hguard : (guardRollback positionSizeUsd s x).isSome = true)
    (hcover : x.rollbackFilled = true) (n : ℕ) :
    (emissions (guardRollback positionSizeUsd) (entryStep positionSizeUsd) s
      (List.replicate n x)).length = n := by
  obtain ⟨order, horder⟩ := Option.isSome_iff_exists.mp hguard
  induction n with
  | zero => rfl
  | succ n ih =>
    rw [List.replicate_succ, emissions, horder, entryStep_of_rolledBack hguard hcover,
      List.length_append, ih, Option.toList_some, List.length_singleton, Nat.add_comm]

/-- A market of 4200 won and 3.06 USD, and a venue that trades whole coins. -/
def residualRound : EntryRound where
  quotes := some
    { foreignBid := literal (306 / 100)
      foreignBidQty := literal 1000
      koreanAsk := literal 4200
      koreanAskQty := literal 1000
      usdtRate := literal 1400 }
  reply := { lot := some ⟨literal 1, literal 1, literal 1⟩ }

/-- Of 5.5 USD, 1.79 coins, one coin is sold, which is worth 4200 won. -/
theorem residual_short_not_executable :
    ¬ ∀ (positionSizeUsd : Binary64) (s : EntryHead) (xs : List EntryRound),
      Along (ShortsExecutable positionSizeUsd) (entryStep positionSizeUsd) s xs := by
  intro h
  have hexecutable := (h (literal 3000) ⟨literal (29945 / 10), true⟩ [residualRound]).1
  have hguarded : (guardRollback (literal 3000) ⟨literal (29945 / 10), true⟩
      residualRound).isSome = true := by
    decide +kernel
  rw [hexecutable.kept] at hguarded
  cases hguarded

end SpotRelay.Analysis.Doubles
