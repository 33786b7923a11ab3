import Mathlib.Tactic.Linarith
import Mathlib.Tactic.NormNum
import Mathlib.Tactic.Positivity
import Mathlib.Tactic.Ring
import SpotRelay.Model.SpotRelayMath

/-!
# The two relay calculators

The scripts price the whole matched size and the engine the size capped at the target, but an edge
is a ratio of two amounts that are both proportional to the size.  Where the entry earns a profit
the Bybit bid is worth more than the Bithumb ask, and what fills the target at the ask's price then
fills it in coins.

* **the edges** of a size are those of one coin, in the scripts (`script_edges`) and in the engine
  (`engine_grossEdgePct`, `engine_netEdgePct`).
* **the target** in coins follows from the target in won where the net edge is positive
  (`ask_le_of_unitNetEdge_pos`).
-/

set_option autoImplicit false

namespace SpotRelay.Analysis

open SpotRelay.Model

/-- Positive quotes and non-negative fee rates. -/
structure RelayQuotes (i : SpotRelayMath.RelayInput) : Prop where
  bithumbAsk : 0 < i.bithumbAsk
  bithumbAskQty : 0 < i.bithumbAskQty
  bybitBid : 0 < i.bybitBid
  bybitBidQty : 0 < i.bybitBidQty
  usdtBid : 0 < i.usdtBid
  bithumbFeeRate : 0 ≤ i.bithumbFeeRate
  bybitTakerFeeRate : 0 ≤ i.bybitTakerFeeRate

/-- The gross edge of one coin. -/
def unitGrossEdgePct (ask bid rate : ℚ) : ℚ := (bid * rate - ask) / ask * 100

/-- The fees of one coin. -/
def unitFee (ask bid rate koreanFeeRate foreignFeeRate : ℚ) : ℚ :=
  ask * koreanFeeRate * 1 + bid * rate * foreignFeeRate * 3

/-- The net edge of one coin. -/
def unitNetEdgePct (ask bid rate koreanFeeRate foreignFeeRate : ℚ) : ℚ :=
  let fee := unitFee ask bid rate koreanFeeRate foreignFeeRate
  (bid * rate - ask - fee) / (ask + fee) * 100

section Edges

variable {ask bid rate koreanFeeRate foreignFeeRate qty : ℚ}

/-- The gross edge of a quantity is the gross edge of one coin. -/
theorem grossEdgePct_scale (hask : 0 < ask) (hqty : 0 < qty) :
    (if 0 < ask * qty then (bid * qty * rate - ask * qty) / (ask * qty) * 100 else 0) =
      unitGrossEdgePct ask bid rate := by
  have hsplit : bid * qty * rate - ask * qty = (bid * rate - ask) * qty := by ring
  rw [if_pos (mul_pos hask hqty), hsplit, mul_div_mul_right _ _ hqty.ne', unitGrossEdgePct]

/-- The net edge of a quantity is the net edge of one coin, the fees being proportional. -/
theorem netEdgePct_scale (hask : 0 < ask) (hbid : 0 < bid) (hrate : 0 < rate) (hqty : 0 < qty)
    (hkorean : 0 ≤ koreanFeeRate) (hforeign : 0 ≤ foreignFeeRate) {fee : ℚ}
    (hfee : fee = unitFee ask bid rate koreanFeeRate foreignFeeRate * qty) :
    (if 0 < ask * qty + fee then
      (bid * qty * rate - ask * qty - fee) / (ask * qty + fee) * 100 else 0) =
      unitNetEdgePct ask bid rate koreanFeeRate foreignFeeRate := by
  have hunit : 0 ≤ unitFee ask bid rate koreanFeeRate foreignFeeRate := by
    unfold unitFee
    positivity
  have hbasis : ask * qty + fee =
      (ask + unitFee ask bid rate koreanFeeRate foreignFeeRate) * qty := by
    rw [hfee]
    ring
  have hprofit : bid * qty * rate - ask * qty - fee =
      (bid * rate - ask - unitFee ask bid rate koreanFeeRate foreignFeeRate) * qty := by
    rw [hfee]
    ring
  have hpositive : 0 < (ask + unitFee ask bid rate koreanFeeRate foreignFeeRate) * qty :=
    mul_pos (by linarith) hqty
  rw [hbasis, hprofit, if_pos hpositive, mul_div_mul_right _ _ hqty.ne', unitNetEdgePct]

end Edges

variable {i : SpotRelayMath.RelayInput}

/-- The engine's metrics of the same quotes. -/
def engineMetrics (i : SpotRelayMath.RelayInput) : RelayMetrics :=
  calculateRelayMetrics i.bithumbAsk i.bithumbAskQty i.bybitBid i.bybitBidQty i.usdtBid
    i.bithumbFeeRate i.bybitTakerFeeRate 0

/-- The quantity that the engine prices. -/
def engineQty (i : SpotRelayMath.RelayInput) : ℚ :=
  min (min i.bithumbAskQty i.bybitBidQty) (TradingConfig.targetEntryUsdt / i.bybitBid)

/-- The engine sizes a positive quantity on usable quotes. -/
theorem engineQty_pos (h : RelayQuotes i) : 0 < engineQty i := by
  have htarget : 0 < TradingConfig.targetEntryUsdt / i.bybitBid :=
    div_pos (by norm_num [TradingConfig.targetEntryUsdt]) h.bybitBid
  exact lt_min (lt_min h.bithumbAskQty h.bybitBidQty) htarget

/-- The quotes are ones that the engine prices. -/
theorem engine_priced (h : RelayQuotes i) : ¬ (i.bithumbAsk ≤ 0 ∨ i.bithumbAskQty ≤ 0 ∨
    i.bybitBid ≤ 0 ∨ i.bybitBidQty ≤ 0 ∨ i.usdtBid ≤ 0) := by
  simp only [not_or, not_le]
  exact ⟨h.bithumbAsk, h.bithumbAskQty, h.bybitBid, h.bybitBidQty, h.usdtBid⟩

/-- The engine's gross edge is that of one coin. -/
theorem engine_grossEdgePct (h : RelayQuotes i) : (engineMetrics i).grossEdgePct =
    unitGrossEdgePct i.bithumbAsk i.bybitBid i.usdtBid := by
  simp only [engineMetrics, calculateRelayMetrics, if_neg (engine_priced h)]
  exact grossEdgePct_scale h.bithumbAsk (engineQty_pos h)

/-- The engine's net edge is that of one coin. -/
theorem engine_netEdgePct (h : RelayQuotes i) : (engineMetrics i).netEdgePct =
    unitNetEdgePct i.bithumbAsk i.bybitBid i.usdtBid i.bithumbFeeRate i.bybitTakerFeeRate := by
  simp only [engineMetrics, calculateRelayMetrics, if_neg (engine_priced h)]
  refine netEdgePct_scale h.bithumbAsk h.bybitBid h.usdtBid (engineQty_pos h) h.bithumbFeeRate
    h.bybitTakerFeeRate ?_
  simp only [unitFee, engineQty, TradingConfig.koreanFeeEvents, TradingConfig.foreignFeeEvents]
  ring

/-- The scripts at the default fee events. -/
theorem script_edges (h : RelayQuotes i) (hbithumb : i.bithumbFeeEvents = .finite 1)
    (hbybit : i.bybitFeeEvents = .finite 3) :
    (SpotRelayMath.calculateRelayMetrics i).grossEdgePct =
        unitGrossEdgePct i.bithumbAsk i.bybitBid i.usdtBid ∧
      (SpotRelayMath.calculateRelayMetrics i).netEdgePct =
        unitNetEdgePct i.bithumbAsk i.bybitBid i.usdtBid i.bithumbFeeRate i.bybitTakerFeeRate := by
  have hqty : 0 < min i.bithumbAskQty i.bybitBidQty := lt_min h.bithumbAskQty h.bybitBidQty
  have hevents : SpotRelayMath.normalizeFeeEvents i.bithumbFeeEvents i.bybitFeeEvents = ⟨1, 3⟩ := by
    rw [hbithumb, hbybit]
    decide +kernel
  constructor
  · exact grossEdgePct_scale h.bithumbAsk hqty
  · simp only [SpotRelayMath.calculateRelayMetrics, hevents]
    refine netEdgePct_scale h.bithumbAsk h.bybitBid h.usdtBid hqty h.bithumbFeeRate
      h.bybitTakerFeeRate ?_
    simp only [unitFee]
    ring

/-- Where the sale brings more than the purchase costs, a notional at the target is a quantity at
the target. -/
theorem qty_of_notional {ask askQty bid rate target : ℚ} (hask : 0 < ask) (hbid : 0 < bid)
    (hrate : 0 < rate) (htarget : 0 ≤ target) (hprofit : ask ≤ bid * rate)
    (hfill : target ≤ ask * askQty / rate) : target / bid ≤ askQty := by
  have hnotional : target * rate ≤ ask * askQty := (le_div_iff₀ hrate).mp hfill
  rw [div_le_iff₀ hbid]
  have hchain : target * ask ≤ askQty * bid * ask := by
    calc target * ask ≤ target * (bid * rate) := mul_le_mul_of_nonneg_left hprofit htarget
      _ = target * rate * bid := by ring
      _ ≤ ask * askQty * bid := mul_le_mul_of_nonneg_right hnotional hbid.le
      _ = askQty * bid * ask := by ring
  exact le_of_mul_le_mul_right hchain hask

/-- A positive net edge means that the sale brings more than the purchase costs. -/
theorem ask_le_of_unitNetEdge_pos (h : RelayQuotes i)
    (hedge : 0 < unitNetEdgePct i.bithumbAsk i.bybitBid i.usdtBid i.bithumbFeeRate
      i.bybitTakerFeeRate) : i.bithumbAsk ≤ i.bybitBid * i.usdtBid := by
  obtain ⟨hask, -, hbid, -, hrate, hkorean, hforeign⟩ := h
  have hfee :
      0 ≤ unitFee i.bithumbAsk i.bybitBid i.usdtBid i.bithumbFeeRate i.bybitTakerFeeRate := by
    unfold unitFee
    positivity
  rw [unitNetEdgePct] at hedge
  by_contra hloss
  have hnegative : i.bybitBid * i.usdtBid - i.bithumbAsk -
      unitFee i.bithumbAsk i.bybitBid i.usdtBid i.bithumbFeeRate i.bybitTakerFeeRate ≤ 0 := by
    linarith [not_le.mp hloss]
  have hratio := div_nonpos_of_nonpos_of_nonneg hnegative
    (add_nonneg hask.le hfee)
  linarith

/-- The two calculators agree on the edges of the same positive quotes, and what passes the
engine's entry gate is profitable and fillable to the scripts. -/
theorem relay_calculators_agree (i : SpotRelayMath.RelayInput) (h : RelayQuotes i)
    (htarget : i.targetUsdt = 35) (hbithumb : i.bithumbFeeEvents = .finite 1)
    (hbybit : i.bybitFeeEvents = .finite 3) :
    let script := SpotRelayMath.calculateRelayMetrics i
    let engine := calculateRelayMetrics i.bithumbAsk i.bithumbAskQty i.bybitBid i.bybitBidQty
      i.usdtBid i.bithumbFeeRate i.bybitTakerFeeRate 0
    script.grossEdgePct = engine.grossEdgePct ∧ script.netEdgePct = engine.netEdgePct ∧
      (TradingConfig.entryGatePasses engine.bothCanFillTarget engine.matchQty engine.netEdgePct
          engine.netProfitKrw = true →
        0 < script.netEdgePct ∧ script.bothCanFillTarget = true) := by
  obtain ⟨hgross, hnet⟩ := script_edges h hbithumb hbybit
  refine ⟨hgross.trans (engine_grossEdgePct h).symm, hnet.trans (engine_netEdgePct h).symm, ?_⟩
  intro hgate
  simp only [TradingConfig.entryGatePasses, Bool.and_eq_true, decide_eq_true_eq] at hgate
  obtain ⟨⟨⟨hfill, _⟩, hedge⟩, _⟩ := hgate
  have hpositive : 0 < unitNetEdgePct i.bithumbAsk i.bybitBid i.usdtBid i.bithumbFeeRate
      i.bybitTakerFeeRate := (engine_netEdgePct h) ▸ hedge
  refine ⟨by rwa [hnet], ?_⟩
  simp only [calculateRelayMetrics, if_neg (engine_priced h), Bool.and_eq_true,
    TradingConfig.targetEntryUsdt] at hfill
  obtain ⟨hkorean, hforeign⟩ := hfill
  simp only [SpotRelayMath.calculateRelayMetrics, if_pos h.bybitBid, htarget, Bool.and_eq_true,
    decide_eq_true_eq]
  constructor
  · exact qty_of_notional h.bithumbAsk h.bybitBid h.usdtBid (by norm_num)
      (ask_le_of_unitNetEdge_pos h hpositive) (of_decide_eq_true hkorean)
  · rw [div_le_iff₀ h.bybitBid, mul_comm]
    exact of_decide_eq_true hforeign

/-- A coin at 1000 won and at one dollar of 1500 won. -/
def wideSpread : SpotRelayMath.RelayInput where
  bithumbAsk := 1000
  bithumbAskQty := 100
  bybitBid := 1
  bybitBidQty := 40
  usdtBid := 1500
  targetUsdt := 35
  bithumbFeeRate := 4 / 10000
  bybitTakerFeeRate := 1 / 1000

/-- The wide spread of the test is made of usable quotes. -/
theorem relayQuotes_wideSpread : RelayQuotes wideSpread := by
  constructor <;> norm_num [wideSpread]

/-- Script and engine on a wide spread: the same percentages from different sizes. -/
theorem relay_calculators_agree_wide_spread :
    let script := SpotRelayMath.calculateRelayMetrics wideSpread
    let engine := calculateRelayMetrics 1000 100 1 40 1500 (4 / 10000) (1 / 1000) 0
    script.netEdgePct = engine.netEdgePct ∧ script.matchBuyKrw ≠ engine.matchBuyKrw ∧
      0 < script.netEdgePct ∧ script.bothCanFillTarget = true := by
  obtain ⟨-, hnet, hgate⟩ := relay_calculators_agree wideSpread relayQuotes_wideSpread rfl rfl rfl
  obtain ⟨hpositive, hfill⟩ := hgate (by decide +kernel)
  exact ⟨hnet, by decide +kernel, hpositive, hfill⟩

end SpotRelay.Analysis
