import SpotRelay.Analysis.AmountTexts
import SpotRelay.Analysis.ClientOrders
import SpotRelay.Library.LotRounding
import SpotRelay.Model.CoverOrders
import SpotRelay.Model.PendingOrders

/-!
# What a cover buys

A cover should buy back what was borrowed.  Bybit rounds the quantity up to whole lots and to the
minimum.  OKX rounds it down, as it does when a short is opened, and refuses what falls below a
minimum; only the fee that it adds to the notional can make up for the part of a lot that is lost.

* **a cover is right** where it covers the borrow as far as whole lots go (`CoversBorrow`), which
  needs an order to be sent (`coversBorrow_iff_sent`).
* **each venue** has its own condition on lots and minimums (`bybitCover_iff`, `okxCover_iff`).
-/

set_option autoImplicit false

namespace SpotRelay.Analysis

open SpotRelay.Model SpotRelay.Library.DecimalText SpotRelay.Library.LotRounding

/-! ## Lots -/

/-- The filter of a symbol; without one there are no lots and no minimums. -/
def lotOf (lot : Option LotSize) : LotSize := lot.getD ⟨0, 0, 0⟩

/-- The least notional of a cover is that of its lots. -/
theorem coverMinNotional_eq (lot : Option LotSize) :
    coverMinNotional lot = (lotOf lot).minNotional := by
  cases lot <;> rfl

/-- A known lot size is used as it is. -/
@[simp] theorem lotOf_some (l : LotSize) : lotOf (some l) = l := rfl

/-- A billionth of a lot, which counts as rounding noise. -/
def lotTolerance (l : LotSize) : ℚ := 1 / 1000000000 * max l.qtyStep 0

/-- An amount of whole lots. -/
def WholeLots (l : LotSize) (amount : ℚ) : Prop := 0 < l.qtyStep → ∃ k : ℤ, amount = k * l.qtyStep

/-- A quantity rounded up to whole lots. -/
def ceilLots (l : LotSize) (quantity : ℚ) : ℚ :=
  if 0 < l.qtyStep then roundUp (1 / 1000000000) l.qtyStep quantity else quantity

/-- A quantity rounded down to whole lots. -/
def floorLots (l : LotSize) (quantity : ℚ) : ℚ :=
  if 0 < l.qtyStep then roundDown (1 / 1000000000) l.qtyStep quantity else quantity

/-- The tolerance of a lot step is a small part of it. -/
theorem lotTolerance_of_pos {l : LotSize} (h : 0 < l.qtyStep) :
    lotTolerance l = 1 / 1000000000 * l.qtyStep := by
  rw [lotTolerance, max_eq_left h.le]

/-- Without a lot step there is no tolerance. -/
theorem lotTolerance_of_not_pos {l : LotSize} (h : ¬ 0 < l.qtyStep) : lotTolerance l = 0 := by
  rw [lotTolerance, max_eq_right (not_lt.mp h), mul_zero]

/-- Rounding up finds the least whole lots that cover the quantity, up to the tolerance. -/
theorem isLeast_ceilLots (l : LotSize) (quantity : ℚ) :
    IsLeast {a | WholeLots l a ∧ quantity - lotTolerance l ≤ a} (ceilLots l quantity) := by
  unfold WholeLots ceilLots
  split_ifs with hstep
  · rw [lotTolerance_of_pos hstep]
    simp only [hstep, true_imp_iff]
    exact isLeast_roundUp hstep
  · rw [lotTolerance_of_not_pos hstep, sub_zero]
    exact ⟨⟨fun h => absurd h hstep, le_refl _⟩, fun a ha => ha.2⟩

/-- Rounding down finds the greatest whole lots within the quantity, up to the tolerance. -/
theorem isGreatest_floorLots (l : LotSize) (quantity : ℚ) :
    IsGreatest {a | WholeLots l a ∧ a ≤ quantity + lotTolerance l} (floorLots l quantity) := by
  unfold WholeLots floorLots
  split_ifs with hstep
  · rw [lotTolerance_of_pos hstep]
    simp only [hstep, true_imp_iff]
    exact isGreatest_roundDown hstep
  · rw [lotTolerance_of_not_pos hstep, add_zero]
    exact ⟨⟨fun h => absurd h hstep, le_refl _⟩, fun a ha => ha.2⟩

/-- Rounding up yields something exactly above the tolerance. -/
theorem ceilLots_pos_iff {l : LotSize} {quantity : ℚ} :
    0 < ceilLots l quantity ↔ lotTolerance l < quantity := by
  unfold ceilLots
  split_ifs with hstep
  · rw [lotTolerance_of_pos hstep, roundUp_pos_iff hstep]
  · rw [lotTolerance_of_not_pos hstep]

/-- A Bybit cover is rounded up and raised to the minimum. -/
theorem normalizeCloseQty_eq (lot : Option LotSize) {quantity : ℚ} (hquantity : 0 < quantity) :
    normalizeCloseQty lot quantity =
      max (lotOf lot).minQty (ceilLots (lotOf lot) quantity) := by
  cases lot with
  | none => simp [normalizeCloseQty, lotOf, ceilLots, hquantity.le, not_le.mpr hquantity]
  | some l =>
    simp only [normalizeCloseQty, not_le.mpr hquantity, if_false, lotOf, Option.getD_some]
    rw [max_comm, max_def_lt]
    rfl

/-- The amount is at least both minimums of the filter. -/
def MeetsMinimums (l : LotSize) (price amount : ℚ) : Prop :=
  l.minQty ≤ amount ∧ (0 < l.minNotional → l.minNotional ≤ amount * price)

/-- The OKX quantity is rounded down, and refused below a minimum. -/
theorem normalizeOrderQty_some (l : LotSize) {ticker : Option CachedTicker} {quantity : ℚ}
    (hquantity : 0 < quantity) :
    normalizeOrderQty (some l) ticker quantity false =
      if floorLots l quantity < l.minQty then 0
      else if 0 < l.minNotional ∧ 0 < coverPriceHint ticker ∧
          floorLots l quantity * coverPriceHint ticker < l.minNotional then 0
      else floorLots l quantity := by
  simp only [normalizeOrderQty, not_le.mpr hquantity, if_false]
  rfl

/-- An order that meets the minimums has the size rounded down. -/
theorem normalizeOrderQty_of_meets {lot : Option LotSize} {ticker : Option CachedTicker}
    {quantity : ℚ} (hquantity : 0 < quantity)
    (h : MeetsMinimums (lotOf lot) (coverPriceHint ticker) (floorLots (lotOf lot) quantity)) :
    normalizeOrderQty lot ticker quantity false = floorLots (lotOf lot) quantity := by
  cases lot with
  | none => simp [normalizeOrderQty, lotOf, floorLots, not_le.mpr hquantity]
  | some l =>
    rw [lotOf_some] at h ⊢
    obtain ⟨hmin, hnotional⟩ := h
    rw [normalizeOrderQty_some l hquantity, if_neg (not_lt.mpr hmin), if_neg]
    rintro ⟨hset, -, hless⟩
    exact absurd (hnotional hset) (not_le.mpr hless)

/-- An order that does not is refused. -/
theorem normalizeOrderQty_of_not_meets {lot : Option LotSize} {ticker : Option CachedTicker}
    {quantity : ℚ} (hquantity : 0 < quantity) (hprice : 0 < coverPriceHint ticker)
    (h : ¬ MeetsMinimums (lotOf lot) (coverPriceHint ticker) (floorLots (lotOf lot) quantity)) :
    normalizeOrderQty lot ticker quantity false = 0 := by
  cases lot with
  | none =>
    refine absurd ⟨?_, fun hset => absurd hset (lt_irrefl 0)⟩ h
    simpa [lotOf, floorLots] using hquantity.le
  | some l =>
    rw [lotOf_some] at h
    rw [normalizeOrderQty_some l hquantity]
    split_ifs with hmin hnotional
    · rfl
    · rfl
    · refine absurd ⟨not_lt.mp hmin, fun hset => ?_⟩ h
      exact not_lt.mp fun hless => hnotional ⟨hset, hprice, hless⟩

/-! ## Covering the borrow -/

/-- The coins that a submitted size buys at a price. -/
def coinsBought (ex : Exchange) (size : List Char) (price : ℚ) : ℚ :=
  match getForeignExchange ex with
  | .okx => fastStod size / price
  | _ => fastStod size

/-- An order can be sent: borrowing is set up, and OKX has a price to turn coins into quote
currency. -/
def CanSendCover (ex : Exchange) (r : ForeignReply) : Prop :=
  r.marginReady = true ∧ (getForeignExchange ex = .okx → 0 < coverPriceHint r.ticker)

/-- What is submitted buys the quantity at the cached price, and nothing that can be sent is
refused. -/
def CoversBorrow (ex : Exchange) (r : ForeignReply) (quantity : ℚ) : Prop :=
  match coverOrder ex r quantity with
  | some size => quantity - lotTolerance (lotOf r.lot) ≤
      coinsBought ex size (coverPriceHint r.ticker)
  | none => ¬ CanSendCover ex r

/-- Eight decimals are enough for the minimum, or for every amount of whole lots, to cover the
quantity. -/
def BybitLotsCover (l : LotSize) (quantity : ℚ) : Prop :=
  (0 < l.minQty ∧ quantity - lotTolerance l ≤ roundPlaces 8 l.minQty) ∨
    (lotTolerance l < quantity ∧ ∀ amount, WholeLots l amount →
      quantity - lotTolerance l ≤ amount → quantity - lotTolerance l ≤ roundPlaces 8 amount)

/-- There is an amount of whole lots that the quantity reaches, that no minimum refuses and that
costs, with the fee, as much as the quantity. -/
def OkxLotsCover (l : LotSize) (price quantity : ℚ) : Prop :=
  ∃ amount, WholeLots l amount ∧ 0 < amount ∧ amount ≤ quantity + lotTolerance l ∧
    MeetsMinimums l price amount ∧ (quantity - lotTolerance l) * price ≤
      roundPlaces 8 (amount * price * (1 + TradingConfig.okxFeeRate))

/-- The size that is posted is the one of the order that is placed. -/
theorem coverOrder_sent (ex : Exchange) (r : ForeignReply) (quantity : ℚ) :
    (executeForeignCover ex r quantity).trades ≠ [] ↔
      (coverOrder ex r quantity).isSome = true := by
  have hokx : (okxCloseShort r quantity).trades ≠ [] ↔ (okxCoverSz r quantity).isSome = true := by
    unfold okxCloseShort okxCoverSz coverPriceHint coverMinNotional
    cases r.ticker <;> cases r.lot <;> dsimp only <;> split_ifs <;> simp
  have hbybit : (bybitCloseShort r quantity).trades ≠ [] ↔
      (bybitCoverQty r quantity).isSome = true := by
    unfold bybitCloseShort bybitCoverQty
    dsimp only
    split_ifs <;> simp
  unfold executeForeignCover coverOrder
  cases getForeignExchange ex <;> first
    | exact hokx
    | exact hbybit

/-- A request over the trade socket prints its quantity in the same way. -/
theorem formatQty_toList {qty : ℚ} (hqty : 0 ≤ qty) : (formatQty qty).toList = sizeText qty := by
  have hunits : (if |qty| * 10 ^ 8 - (⌊|qty| * 10 ^ 8⌋.toNat : ℚ) < 1 / 2 ∨
      |qty| * 10 ^ 8 - (⌊|qty| * 10 ^ 8⌋.toNat : ℚ) = 1 / 2 ∧ ⌊|qty| * 10 ^ 8⌋.toNat % 2 = 0 then
      ⌊|qty| * 10 ^ 8⌋.toNat else ⌊|qty| * 10 ^ 8⌋.toNat + 1) = roundHalfEven (qty * 10 ^ 8) := by
    rw [abs_of_nonneg hqty]
    rfl
  unfold formatQty sizeText fixedText
  dsimp only
  rw [hunits, if_neg (not_lt.mpr hqty), if_neg (by norm_num), lastDigits_succ_eq_padded 7]
  simp [Nat.toString_eq_repr, Nat.repr]

/-- A Bybit cover has one size, over the trade socket and over REST. -/
theorem bybitCoverQty_socket {r : ForeignReply} {quantity : ℚ} {size : List Char}
    (h : bybitCoverQty r quantity = some size) :
    (formatQty (MarginCall.bybitCloseShort.submission r quantity).adjQty).toList = size := by
  unfold bybitCoverQty at h
  dsimp only at h
  split_ifs at h with hnone hmargin
  rw [← Option.some.inj h]
  exact formatQty_toList (not_le.mp hnone).le

/-- A size is read back as the amount, rounded to eight decimals. -/
theorem fastStod_sizeText (size : ℚ) : fastStod (sizeText size) = roundPlaces 8 size :=
  fastStod_fixedText (by norm_num) size

/-- Without a price or without borrowing nothing is sent. -/
theorem coverOrder_none {ex : Exchange} {r : ForeignReply} (quantity : ℚ)
    (h : ¬ CanSendCover ex r) : coverOrder ex r quantity = none := by
  unfold CanSendCover at h
  unfold coverOrder bybitCoverQty okxCoverSz
  cases hready : r.marginReady
  · cases getForeignExchange ex <;> simp
  · cases hex : getForeignExchange ex <;> simp [hready, hex] at h
    simp [h]

/-- A Bybit cover is sent with a positive quantity of whole lots, or with the minimum. -/
theorem bybitCoverQty_eq_some {r : ForeignReply} {quantity : ℚ} (hquantity : 0 < quantity)
    (hready : r.marginReady = true) {size : List Char} :
    bybitCoverQty r quantity = some size ↔
      0 < max (lotOf r.lot).minQty (ceilLots (lotOf r.lot) quantity) ∧
        size = sizeText (max (lotOf r.lot).minQty (ceilLots (lotOf r.lot) quantity)) := by
  unfold bybitCoverQty
  rw [normalizeCloseQty_eq r.lot hquantity]
  dsimp only
  split_ifs with hnone hmargin
  · simp [not_lt.mpr hnone]
  · simp [hready] at hmargin
  · simp [not_le.mp hnone, eq_comm]

/-- An OKX cover is sent when the whole lots of the quantity meet the minimums; its notional
then meets the minimum as well, and is not raised. -/
theorem okxCoverSz_eq_some {r : ForeignReply} {quantity : ℚ} (hquantity : 0 < quantity)
    (hready : r.marginReady = true) (hprice : 0 < coverPriceHint r.ticker) {size : List Char} :
    okxCoverSz r quantity = some size ↔
      (0 < floorLots (lotOf r.lot) quantity ∧ MeetsMinimums (lotOf r.lot)
        (coverPriceHint r.ticker) (floorLots (lotOf r.lot) quantity)) ∧
        size = sizeText (floorLots (lotOf r.lot) quantity * coverPriceHint r.ticker *
          (1 + TradingConfig.okxFeeRate)) := by
  obtain ⟨amount, hamount⟩ : ∃ amount, amount = floorLots (lotOf r.lot) quantity := ⟨_, rfl⟩
  obtain ⟨price, hhint⟩ : ∃ price, price = coverPriceHint r.ticker := ⟨_, rfl⟩
  unfold okxCoverSz
  rw [coverMinNotional_eq, ← hamount, ← hhint]
  rw [← hhint] at hprice
  dsimp only
  by_cases hmeets : MeetsMinimums (lotOf r.lot) price amount
  · have hqty : normalizeOrderQty r.lot r.ticker quantity false = amount := by
      rw [hamount]
      exact normalizeOrderQty_of_meets hquantity (hhint ▸ hamount ▸ hmeets)
    rw [hqty]
    by_cases hnone : amount ≤ 0
    · rw [if_pos hnone]
      simp [not_lt.mpr hnone]
    · have hpos : 0 < amount * price := mul_pos (not_le.mp hnone) hprice
      have hfee : amount * price ≤ amount * price * (1 + TradingConfig.okxFeeRate) := by
        refine le_mul_of_one_le_right hpos.le ?_
        norm_num [TradingConfig.okxFeeRate]
      have hraise : ¬ (0 < (lotOf r.lot).minNotional ∧
          amount * price * (1 + TradingConfig.okxFeeRate) < (lotOf r.lot).minNotional) := by
        rintro ⟨hset, hless⟩
        exact absurd ((hmeets.2 hset).trans hfee) (not_le.mpr hless)
      rw [if_neg hnone, if_neg (by simp [hready]), if_neg (not_le.mpr hprice), if_neg hraise,
        if_neg (not_le.mpr (hpos.trans_le hfee))]
      simp [hmeets, not_le.mp hnone, eq_comm]
  · have hqty : normalizeOrderQty r.lot r.ticker quantity false = 0 :=
      normalizeOrderQty_of_not_meets hquantity (hhint ▸ hprice) (hhint ▸ hamount ▸ hmeets)
    rw [hqty, if_pos (le_refl 0)]
    simp [hmeets]

/-! ## When a cover covers -/

/-- Two sizes, of which the larger one is sent. -/
theorem max_covers_iff {minimum amount bound : ℚ} :
    0 < max minimum amount ∧ bound ≤ roundPlaces 8 (max minimum amount) ↔
      (0 < minimum ∧ bound ≤ roundPlaces 8 minimum) ∨
        (0 < amount ∧ bound ≤ roundPlaces 8 amount) := by
  rcases le_total minimum amount with hle | hle
  · rw [max_eq_right hle]
    constructor
    · exact Or.inr
    · rintro (⟨hpos, hbound⟩ | h)
      · exact ⟨hpos.trans_le hle, hbound.trans (roundPlaces_mono 8 hle)⟩
      · exact h
  · rw [max_eq_left hle]
    constructor
    · exact Or.inl
    · rintro (h | ⟨hpos, hbound⟩)
      · exact h
      · exact ⟨hpos.trans_le hle, hbound.trans (roundPlaces_mono 8 hle)⟩

/-- A Bybit cover covers exactly when the eight decimals are enough. -/
theorem bybitLotsCover_iff (l : LotSize) (quantity : ℚ) :
    BybitLotsCover l quantity ↔ 0 < max l.minQty (ceilLots l quantity) ∧
      quantity - lotTolerance l ≤ roundPlaces 8 (max l.minQty (ceilLots l quantity)) := by
  obtain ⟨⟨hwhole, hreached⟩, hleast⟩ := isLeast_ceilLots l quantity
  rw [max_covers_iff, ceilLots_pos_iff]
  unfold BybitLotsCover
  refine or_congr_right (and_congr_right fun _ => ?_)
  constructor
  · intro h
    exact h _ hwhole hreached
  · intro h amount hlots hamount
    exact h.trans (roundPlaces_mono 8 (hleast ⟨hlots, hamount⟩))

/-- An OKX cover covers exactly when the largest amount of whole lots does. -/
theorem okxLotsCover_iff (l : LotSize) {price : ℚ} (hprice : 0 < price) (quantity : ℚ) :
    OkxLotsCover l price quantity ↔
      (0 < floorLots l quantity ∧ MeetsMinimums l price (floorLots l quantity)) ∧
        (quantity - lotTolerance l) * price ≤
          roundPlaces 8 (floorLots l quantity * price * (1 + TradingConfig.okxFeeRate)) := by
  obtain ⟨⟨hwhole, hreached⟩, hgreatest⟩ := isGreatest_floorLots l quantity
  constructor
  · rintro ⟨amount, hlots, hpos, hamount, ⟨hmin, hnotional⟩, hpays⟩
    have hle : amount ≤ floorLots l quantity := hgreatest ⟨hlots, hamount⟩
    have hcost : amount * price ≤ floorLots l quantity * price :=
      mul_le_mul_of_nonneg_right hle hprice.le
    refine ⟨⟨hpos.trans_le hle, hmin.trans hle, fun hset => (hnotional hset).trans hcost⟩, ?_⟩
    refine hpays.trans (roundPlaces_mono 8 (mul_le_mul_of_nonneg_right hcost ?_))
    norm_num [TradingConfig.okxFeeRate]
  · rintro ⟨⟨hpos, hmeets⟩, hpays⟩
    exact ⟨_, hwhole, hpos, hreached, hmeets, hpays⟩

/-- Lots that eight decimals can write make every Bybit cover large enough. -/
theorem bybitLotsCover_of_units {l : LotSize} {quantity : ℚ} {units : ℕ} (hunits : 0 < units)
    (hstep : l.qtyStep = units / 10 ^ 8) (hquantity : lotTolerance l < quantity) :
    BybitLotsCover l quantity := by
  have hpos : 0 < l.qtyStep := by
    rw [hstep]
    positivity
  refine Or.inr ⟨hquantity, fun amount hlots hamount => ?_⟩
  obtain ⟨k, hk⟩ := hlots hpos
  have hsome : 0 < (k : ℚ) * l.qtyStep := by linarith
  have hcount : 0 < k := Int.cast_pos.mp ((mul_pos_iff_of_pos_right hpos).mp hsome)
  obtain ⟨lots, rfl⟩ := Int.eq_ofNat_of_zero_le hcount.le
  have hwritten : amount = ((lots * units : ℕ) : ℚ) / 10 ^ 8 := by
    rw [hk, hstep]
    push_cast
    ring
  rw [hwritten, roundPlaces_units, ← hwritten]
  exact hamount

/-- Whole lots that meet the minimums are covered at OKX: the fee is more than the decimals
lose. -/
theorem okxLotsCover_of_wholeLots {l : LotSize} {price quantity : ℚ} (hprice : 0 < price)
    (hlots : WholeLots l quantity) (hmeets : MeetsMinimums l price quantity)
    (hnotional : 1 / 100000 ≤ quantity * price) : OkxLotsCover l price quantity := by
  have hquantity : 0 < quantity := by
    refine (mul_pos_iff_of_pos_right hprice).mp (lt_of_lt_of_le ?_ hnotional)
    norm_num
  have htolerance : 0 ≤ lotTolerance l := by
    unfold lotTolerance
    positivity
  refine ⟨quantity, hlots, hquantity, le_add_of_nonneg_right htolerance, hmeets, ?_⟩
  have hcost : (quantity - lotTolerance l) * price ≤ quantity * price :=
    mul_le_mul_of_nonneg_right (sub_le_self _ htolerance) hprice.le
  have hsize : 0 ≤ quantity * price * (1 + TradingConfig.okxFeeRate) := by
    norm_num [TradingConfig.okxFeeRate]
    positivity
  have hrounded := (abs_le.mp (abs_sub_roundPlaces_le 8 hsize)).2
  norm_num [TradingConfig.okxFeeRate] at hrounded ⊢
  linarith

/-- What could be sent covers exactly when something was sent that buys enough. -/
theorem coversBorrow_iff_sent {ex : Exchange} {r : ForeignReply} (quantity : ℚ)
    (hsend : CanSendCover ex r) :
    CoversBorrow ex r quantity ↔ ∃ size, coverOrder ex r quantity = some size ∧
      quantity - lotTolerance (lotOf r.lot) ≤ coinsBought ex size (coverPriceHint r.ticker) := by
  unfold CoversBorrow
  cases coverOrder ex r quantity <;> simp [hsend]

/-- Bybit covers what was borrowed exactly if its whole lots do. -/
theorem bybitCover_iff {ex : Exchange} {r : ForeignReply} {quantity : ℚ} (hquantity : 0 < quantity)
    (hex : getForeignExchange ex = .bybit) (hsend : CanSendCover ex r) :
    CoversBorrow ex r quantity ↔ BybitLotsCover (lotOf r.lot) quantity := by
  rw [coversBorrow_iff_sent quantity hsend, bybitLotsCover_iff]
  simp only [coverOrder, coinsBought, hex, bybitCoverQty_eq_some hquantity hsend.1]
  constructor
  · rintro ⟨size, ⟨hpos, rfl⟩, hbuys⟩
    rw [fastStod_sizeText] at hbuys
    exact ⟨hpos, hbuys⟩
  · rintro ⟨hpos, hbuys⟩
    refine ⟨_, ⟨hpos, rfl⟩, ?_⟩
    rw [fastStod_sizeText]
    exact hbuys

/-- OKX covers what was borrowed exactly if its whole lots do and meet the minimums. -/
theorem okxCover_iff {ex : Exchange} {r : ForeignReply} {quantity : ℚ} (hquantity : 0 < quantity)
    (hex : getForeignExchange ex = .okx) (hsend : CanSendCover ex r) :
    CoversBorrow ex r quantity ↔
      OkxLotsCover (lotOf r.lot) (coverPriceHint r.ticker) quantity := by
  have hprice : 0 < coverPriceHint r.ticker := hsend.2 hex
  rw [coversBorrow_iff_sent quantity hsend, okxLotsCover_iff _ hprice]
  simp only [coverOrder, coinsBought, hex, okxCoverSz_eq_some hquantity hsend.1 hprice]
  constructor
  · rintro ⟨size, ⟨hamount, rfl⟩, hbuys⟩
    rw [fastStod_sizeText, le_div_iff₀ hprice] at hbuys
    exact ⟨hamount, hbuys⟩
  · rintro ⟨hamount, hbuys⟩
    refine ⟨_, ⟨hamount, rfl⟩, ?_⟩
    rw [fastStod_sizeText, le_div_iff₀ hprice]
    exact hbuys

/-- A cover that can be sent buys what was borrowed exactly under the condition of its venue. -/
theorem cover_buys_iff (ex : Exchange) (r : ForeignReply) {quantity : ℚ}
    (hquantity : 0 < quantity) :
    CoversBorrow ex r quantity ↔ (CanSendCover ex r →
      match getForeignExchange ex with
      | .okx => OkxLotsCover (lotOf r.lot) (coverPriceHint r.ticker) quantity
      | _ => BybitLotsCover (lotOf r.lot) quantity) := by
  by_cases hsend : CanSendCover ex r
  · cases ex with
    | okx => exact (okxCover_iff hquantity rfl hsend).trans (imp_iff_right hsend).symm
    | _ => exact (bybitCover_iff hquantity rfl hsend).trans (imp_iff_right hsend).symm
  · unfold CoversBorrow
    rw [coverOrder_none quantity hsend]
    exact iff_of_true hsend fun h => absurd h hsend

/-- 1.23 coins at Bybit, in lots of a tenth. -/
theorem cover_buys_in_tenths :
    CoversBorrow .bybit { lot := some ⟨1 / 10, 1, 5⟩ } (123 / 100) := by
  refine (cover_buys_iff .bybit _ (by norm_num)).mpr fun _ => ?_
  refine bybitLotsCover_of_units (by norm_num : 0 < 10000000) ?_ ?_
  · norm_num [lotOf]
  · norm_num [lotOf, lotTolerance]

/-- OKX buys one of one and a half coins, in lots of one coin, and refuses half a coin. -/
theorem okx_cover_loses_part_of_a_lot :
    let r : ForeignReply := { lot := some ⟨1, 1 / 10, 1⟩, ticker := some ⟨2, 2, 2⟩ }
    (coverOrder .okx r (3 / 2) = some "2.00200000".toList ∧ ¬ CoversBorrow .okx r (3 / 2)) ∧
      coverOrder .okx r (1 / 2) = none ∧ ¬ CoversBorrow .okx r (1 / 2) := by
  intro r
  have hbuys : coverOrder .okx r (3 / 2) = some "2.00200000".toList := by decide +kernel
  have hrefused : coverOrder .okx r (1 / 2) = none := by decide +kernel
  refine ⟨⟨hbuys, ?_⟩, hrefused, ?_⟩
  · unfold CoversBorrow
    rw [hbuys]
    decide +kernel
  · unfold CoversBorrow
    rw [hrefused]
    exact not_not.mpr ⟨rfl, fun _ => by decide +kernel⟩

end SpotRelay.Analysis
