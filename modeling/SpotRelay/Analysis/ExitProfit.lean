import SpotRelay.Analysis.LoopFrames
import SpotRelay.Interface.TruthfulVenue

/-!
# What an exit earns

The exit threshold adds the round-trip fees to the effective entry premium.  Both premiums are
percentages, but of different notionals: the entry premium of the foreign price at entry, the exit
premium of the foreign ask.  An exit can lose money when the foreign price has fallen so far that
the fees no longer make up for the smaller notional.

* **the threshold** is positive and is the effective entry premium with fees and spread
  (`dynamicExitThreshold_pos`, `effectiveEntryPm_eq`).
* **it covers the costs** exactly under a condition on the entry, the foreign ask and the rate
  (`thresholdCovers_iff`); at every foreign ask and rate there is an exit right at the threshold
  (`exit_at_threshold`).
-/

set_option autoImplicit false

namespace SpotRelay.Analysis

open SpotRelay.Model SpotRelay.Interface

/-- What closing one coin at the quotes earns in KRW, before fees. -/
def exitProfitKrw (l : Ledger) (q : Quotes) : ℚ :=
  (q.koreanBid - l.avgKoreanEntry) + (l.avgForeignEntry - q.foreignAsk) * q.usdtRate

/-- The threshold leaves no exit at a loss.  A position entered at no positive premium, at the
current rate, has none; otherwise the foreign ask may not have fallen below the average entry by
more than the premium and the fees have grown apart. -/
def ThresholdCovers (l : Ledger) (foreignAsk usdtRate : ℚ) : Prop :=
  0 < l.heldAmount → 0 < foreignAsk → 0 < usdtRate →
    if 0 < l.totalForeignValue then
      let entryPm := premiumPct l.avgKoreanEntry l.avgForeignEntry usdtRate
      entryPm ≤ 0 ∨
        l.avgForeignEntry * entryPm ≤ foreignAsk * (entryPm + TradingConfig.dynamicExitSpread)
    else
      l.avgKoreanEntry - l.avgForeignEntry * usdtRate ≤
        foreignAsk * usdtRate * TradingConfig.exitPremiumThreshold / 100

/-! ## The threshold -/

/-- A premium is the distance to the foreign price in KRW. -/
theorem premiumPct_mul {korean foreign rate : ℚ} (hforeign : 0 < foreign) (hrate : 0 < rate) :
    foreign * rate * premiumPct korean foreign rate / 100 = korean - foreign * rate := by
  have hnotional : foreign * rate ≠ 0 := (mul_pos hforeign hrate).ne'
  unfold premiumPct
  field_simp

/-- The exit threshold is positive. -/
theorem exitPremiumThreshold_pos : 0 < TradingConfig.exitPremiumThreshold := by
  norm_num [TradingConfig.exitPremiumThreshold]

/-- The exit threshold is at most the dynamic spread. -/
theorem exitPremiumThreshold_le_spread :
    TradingConfig.exitPremiumThreshold ≤ TradingConfig.dynamicExitSpread := by
  unfold TradingConfig.dynamicExitSpread TradingConfig.entryTotalFeePct
    TradingConfig.minNetProfitPct
  norm_num [TradingConfig.bithumbFeeRate, TradingConfig.koreanFeeEvents,
    TradingConfig.bybitFeeRate, TradingConfig.foreignFeeEvents, TradingConfig.exitPremiumThreshold]

variable {l : Ledger} {fallback usdtRate : ℚ}

/-- A held position has a positive average entry price. -/
theorem avgForeignEntry_pos (hheld : 0 < l.heldAmount) (hvalue : 0 < l.totalForeignValue) :
    0 < l.avgForeignEntry := by
  rw [Ledger.avgForeignEntry, if_pos hheld]
  exact div_pos hvalue hheld

/-- The effective entry premium of a valued position compares its average entry prices. -/
theorem effectiveEntryPm_eq (hheld : 0 < l.heldAmount) (hvalue : 0 < l.totalForeignValue)
    (hrate : 0 < usdtRate) :
    l.effectiveEntryPm fallback usdtRate =
      premiumPct l.avgKoreanEntry l.avgForeignEntry usdtRate := by
  have hnotional : 0 < l.totalForeignValue / l.heldAmount * usdtRate :=
    mul_pos (div_pos hvalue hheld) hrate
  simp only [Ledger.effectiveEntryPm, Ledger.avgKoreanEntry, Ledger.avgForeignEntry, if_pos hheld,
    not_le.mpr hheld, not_le.mpr hvalue, not_le.mpr hrate, not_le.mpr hnotional, or_self, if_false]

/-- The exit threshold is positive, so an exit is never taken on missing quotes. -/
theorem dynamicExitThreshold_pos : 0 < dynamicExitThreshold l fallback usdtRate := by
  unfold dynamicExitThreshold
  split_ifs
  · exact lt_max_of_lt_right exitPremiumThreshold_pos
  · exact exitPremiumThreshold_pos

/-- Closing at the threshold breaks even exactly when the threshold covers the position. -/
theorem thresholdCovers_iff (fallback : ℚ) {foreignAsk : ℚ} (hheld : 0 < l.heldAmount)
    (hask : 0 < foreignAsk) (hrate : 0 < usdtRate) :
    ThresholdCovers l foreignAsk usdtRate ↔
      l.avgKoreanEntry - l.avgForeignEntry * usdtRate ≤
        foreignAsk * usdtRate * dynamicExitThreshold l fallback usdtRate / 100 := by
  unfold ThresholdCovers dynamicExitThreshold
  simp only [hheld, hask, hrate, forall_const, true_and, and_true]
  split_ifs with hvalue
  · rw [effectiveEntryPm_eq hheld hvalue hrate,
      ← premiumPct_mul (avgForeignEntry_pos hheld hvalue) hrate]
    have hforeign := avgForeignEntry_pos hheld hvalue
    generalize premiumPct l.avgKoreanEntry l.avgForeignEntry usdtRate = entryPm
    have hscale : ∀ threshold : ℚ,
        l.avgForeignEntry * usdtRate * entryPm / 100 ≤ foreignAsk * usdtRate * threshold / 100 ↔
          l.avgForeignEntry * entryPm ≤ foreignAsk * threshold := by
      intro threshold
      rw [div_le_div_iff_of_pos_right (by norm_num), mul_right_comm, mul_right_comm foreignAsk,
        mul_le_mul_iff_of_pos_right hrate]
    rw [hscale]
    rcases le_or_gt entryPm 0 with hnone | hpremium
    · -- without a premium the floor alone is enough
      refine iff_of_true (Or.inl hnone) ?_
      have hfloor : 0 < max (entryPm + TradingConfig.dynamicExitSpread)
          TradingConfig.exitPremiumThreshold :=
        lt_max_of_lt_right exitPremiumThreshold_pos
      exact (mul_nonpos_of_nonneg_of_nonpos hforeign.le hnone).trans (mul_pos hask hfloor).le
    · have hmax : max (entryPm + TradingConfig.dynamicExitSpread)
          TradingConfig.exitPremiumThreshold = entryPm + TradingConfig.dynamicExitSpread := by
        apply max_eq_left
        linarith [exitPremiumThreshold_le_spread]
      rw [hmax]
      exact or_iff_right (not_le.mpr hpremium)
  · exact Iff.rfl

/-! ## The exits that are taken -/

/-- An exit is taken at quotes that are there, with a Korean bid at the threshold or above. -/
theorem exit_priced {c : Call} {q : Quotes} {l : Ledger} {coinAmount : ℚ}
    (h : branch c q l = .exit coinAmount) :
    0 < q.foreignAsk ∧ 0 < q.usdtRate ∧
      q.foreignAsk * q.usdtRate *
          dynamicExitThreshold l c.signal.premium q.usdtRate / 100 ≤
        q.koreanBid - q.foreignAsk * q.usdtRate := by
  obtain ⟨hthreshold, -, -⟩ := exit_of_branch h
  have hpositive : 0 < exitPremium q := dynamicExitThreshold_pos.trans_le hthreshold
  unfold exitPremium at hthreshold hpositive
  split_ifs at hthreshold hpositive with hquotes
  · obtain ⟨hask, hrate, -⟩ := hquotes
    refine ⟨hask, hrate, ?_⟩
    rw [← premiumPct_mul hask hrate]
    have hnotional : 0 ≤ q.foreignAsk * q.usdtRate := (mul_pos hask hrate).le
    exact div_le_div_of_nonneg_right (mul_le_mul_of_nonneg_left hthreshold hnotional)
      (by norm_num)
  · exact absurd hpositive (lt_irrefl 0)

/-- Quotes whose Korean ask shows no quantity, so that no entry is possible. -/
def noEntryQuotes (koreanBid foreignAsk usdtRate : ℚ) : Quotes where
  foreignBid := foreignAsk
  foreignAsk := foreignAsk
  foreignBidQty := 1
  koreanAsk := koreanBid
  koreanBid := koreanBid
  koreanAskQty := 0
  usdtRate := usdtRate

/-- While coins are held an exit is taken at a Korean bid right at the threshold. -/
theorem exit_at_threshold (c : Call) {foreignAsk : ℚ} (hheld : 0 < l.heldAmount)
    (hask : 0 < foreignAsk) (hrate : 0 < usdtRate) :
    ∃ q coinAmount, branch c q l = .exit coinAmount ∧ q.foreignAsk = foreignAsk ∧
      q.usdtRate = usdtRate ∧ q.koreanBid - foreignAsk * usdtRate =
        foreignAsk * usdtRate * dynamicExitThreshold l c.signal.premium usdtRate / 100 := by
  have hthreshold : 0 < dynamicExitThreshold l c.signal.premium usdtRate :=
    dynamicExitThreshold_pos
  have hnotional : 0 < foreignAsk * usdtRate := mul_pos hask hrate
  obtain ⟨koreanBid, hbid⟩ : ∃ koreanBid, koreanBid = foreignAsk * usdtRate +
      foreignAsk * usdtRate * dynamicExitThreshold l c.signal.premium usdtRate / 100 := ⟨_, rfl⟩
  have hpositive : 0 < koreanBid := by
    rw [hbid]
    exact add_pos hnotional (div_pos (mul_pos hnotional hthreshold) (by norm_num))
  refine ⟨noEntryQuotes koreanBid foreignAsk usdtRate, exitCoinAmount l.heldAmount foreignAsk, ?_,
    rfl, rfl, ?_⟩
  · have hpremium : exitPremium (noEntryQuotes koreanBid foreignAsk usdtRate) =
        dynamicExitThreshold l c.signal.premium usdtRate := by
      have hquoted : exitPremium (noEntryQuotes koreanBid foreignAsk usdtRate) =
          premiumPct koreanBid foreignAsk usdtRate := if_pos ⟨hask, hrate, hpositive⟩
      have hdistance := @premiumPct_mul koreanBid foreignAsk usdtRate hask hrate
      rw [hquoted]
      rw [hbid, add_sub_cancel_left] at hdistance
      rw [hbid]
      have hsame := (div_left_inj' (by norm_num : (100 : ℚ) ≠ 0)).mp hdistance
      exact mul_left_cancel₀ hnotional.ne' hsame
    unfold branch
    dsimp only
    rw [if_neg, if_pos]
    · rfl
    · exact ⟨hpremium.ge, hheld⟩
    · intro hgate
      exact absurd (priced_of_netProfit hgate.2.1).koreanAskQty (lt_irrefl 0)
  · show koreanBid - foreignAsk * usdtRate = _
    rw [hbid, add_sub_cancel_left]

/-! ## No loss -/

/-- What an exit earns is what its Korean bid leaves over the spread at entry. -/
theorem exitProfitKrw_eq (l : Ledger) (q : Quotes) :
    exitProfitKrw l q = (q.koreanBid - q.foreignAsk * q.usdtRate)
      - (l.avgKoreanEntry - l.avgForeignEntry * q.usdtRate) := by
  unfold exitProfitKrw
  ring

/-- For every position, foreign ask and rate, no exit loses money before fees exactly when the
threshold covers the position. -/
theorem exits_profitable_iff (c : Call) (l : Ledger) (foreignAsk usdtRate : ℚ) :
    (∀ q coinAmount, q.foreignAsk = foreignAsk → q.usdtRate = usdtRate →
      branch c q l = .exit coinAmount → 0 ≤ exitProfitKrw l q) ↔
      ThresholdCovers l foreignAsk usdtRate := by
  constructor
  · intro hprofit hheld hask hrate
    obtain ⟨q, coinAmount, hexit, hqask, hqrate, hbid⟩ :=
      exit_at_threshold c hheld hask hrate
    have hearned := hprofit q coinAmount hqask hqrate hexit
    rw [exitProfitKrw_eq, hqask, hqrate, hbid, sub_nonneg] at hearned
    exact (thresholdCovers_iff c.signal.premium hheld hask hrate).mpr hearned hheld hask hrate
  · rintro hcovers q coinAmount rfl rfl hexit
    obtain ⟨hask, hrate, hbid⟩ := exit_priced hexit
    have hentry := (thresholdCovers_iff c.signal.premium (heldAmount_pos_of_exit hexit) hask
      hrate).mp hcovers
    rw [exitProfitKrw_eq, sub_nonneg]
    exact hentry.trans hbid

/-- A coin bought at 1010 KRW and sold short at one dollar of 1000 KRW. -/
def premiumEntry : Ledger where
  heldAmount := 1
  totalKoreanCost := 1010
  totalForeignValue := 1

/-- A fall of the coin by two fifths turns an exit above the threshold into a loss. -/
theorem fallen_price_exit_loses :
    ¬ ∀ (c : Call) (l : Ledger) (q : Quotes) (coinAmount : ℚ), branch c q l = .exit coinAmount →
      0 ≤ exitProfitKrw l q := by
  intro h
  have hprofit := h (sampleCall .bithumb .bybit) premiumEntry (noEntryQuotes 609 (3 / 5) 1000) 1
    (by decide +kernel)
  revert hprofit
  decide +kernel

end SpotRelay.Analysis
