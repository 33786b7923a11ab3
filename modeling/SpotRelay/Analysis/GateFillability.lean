import SpotRelay.Analysis.RelayCalculators

/-!
# What passes the entry gate fills the target

The Korean side is tested in won at the current rate, not in coins.  The test says something about
coins only where the sale is worth at least the purchase, and that is what the profit floor gives:
fees are not negative, so a profit of 600 won leaves the bid above the ask.

* **the profit floor** puts the ask below what the sale brings (`ask_le_of_profit`).
* **the match** then holds the target in coins, because the gate held it in won
  (`target_le_match_of_gate`).
-/

set_option autoImplicit false

namespace SpotRelay.Analysis

open SpotRelay.Model

/-- `entry_gate_passes` on the metrics. -/
def passesGate (m : RelayMetrics) : Bool :=
  TradingConfig.entryGatePasses m.bothCanFillTarget m.matchQty m.netEdgePct m.netProfitKrw

/-- The profit in won of the whole target: coins for 35 USDT sold at the bid and bought at the ask,
after the Korean and foreign fees and the withdrawal fee. -/
def fullTargetProfitKrw (ask bid rate koreanFeeRate foreignFeeRate withdrawFeeCoins : ℚ) : ℚ :=
  let saleKrw := TradingConfig.targetEntryUsdt * rate
  let costKrw := ask * (TradingConfig.targetEntryUsdt / bid)
  let feeKrw := costKrw * koreanFeeRate * TradingConfig.koreanFeeEvents +
    saleKrw * foreignFeeRate * TradingConfig.foreignFeeEvents + withdrawFeeCoins * ask
  saleKrw - costKrw - feeKrw

section Gate

variable {ask askQty bid bidQty rate koreanFeeRate foreignFeeRate withdrawFeeCoins : ℚ}

/-- What does not pass the first check of the metrics does not pass the gate. -/
theorem quotes_pos_of_gate
    (hgate : passesGate (calculateRelayMetrics ask askQty bid bidQty rate koreanFeeRate
      foreignFeeRate withdrawFeeCoins) = true) :
    ¬ (ask ≤ 0 ∨ askQty ≤ 0 ∨ bid ≤ 0 ∨ bidQty ≤ 0 ∨ rate ≤ 0) := by
  intro hquotes
  simp [passesGate, calculateRelayMetrics, hquotes, TradingConfig.entryGatePasses] at hgate

/-- A profit on a positive size leaves the bid above the ask. -/
theorem ask_le_of_profit {qty fee profit : ℚ} (hqty : 0 < qty) (hfee : 0 ≤ fee)
    (hprofit : 0 ≤ profit) (heq : profit = bid * qty * rate - ask * qty - fee) :
    ask ≤ bid * rate := by
  have hspread : ask * qty ≤ bid * rate * qty := by
    have hcomm : bid * qty * rate = bid * rate * qty := by ring
    rw [hcomm] at heq
    linarith
  exact le_of_mul_le_mul_right hspread hqty

/-- The match covers the target where the gate passes. -/
theorem target_le_match_of_gate (hkorean : 0 ≤ koreanFeeRate) (hforeign : 0 ≤ foreignFeeRate)
    (hwithdraw : 0 ≤ withdrawFeeCoins)
    (hgate : passesGate (calculateRelayMetrics ask askQty bid bidQty rate koreanFeeRate
      foreignFeeRate withdrawFeeCoins) = true) :
    TradingConfig.targetEntryUsdt / bid ≤ min askQty bidQty := by
  have hquotes := quotes_pos_of_gate hgate
  simp only [passesGate, calculateRelayMetrics, if_neg hquotes, TradingConfig.entryGatePasses,
    TradingConfig.meetsEntryProfitFloor, Bool.and_eq_true, decide_eq_true_eq] at hgate
  obtain ⟨⟨⟨⟨hkoreanFill, hforeignFill⟩, -⟩, -⟩, hfloor⟩ := hgate
  simp only [not_or, not_le] at hquotes
  obtain ⟨hask, haskQty, hbid, hbidQty, hrate⟩ := hquotes
  have htarget : 0 < TradingConfig.targetEntryUsdt := by norm_num [TradingConfig.targetEntryUsdt]
  have hqty : 0 < min (min askQty bidQty) (TradingConfig.targetEntryUsdt / bid) :=
    lt_min (lt_min haskQty hbidQty) (div_pos htarget hbid)
  have hfee : 0 ≤ ask * min (min askQty bidQty) (TradingConfig.targetEntryUsdt / bid) *
          koreanFeeRate * TradingConfig.koreanFeeEvents +
        bid * min (min askQty bidQty) (TradingConfig.targetEntryUsdt / bid) * rate *
          foreignFeeRate * TradingConfig.foreignFeeEvents + withdrawFeeCoins * ask := by
    have hevents : (0 : ℚ) ≤ TradingConfig.koreanFeeEvents := by
      norm_num [TradingConfig.koreanFeeEvents]
    have hevents' : (0 : ℚ) ≤ TradingConfig.foreignFeeEvents := by
      norm_num [TradingConfig.foreignFeeEvents]
    positivity
  have hprofit : (0 : ℚ) ≤ TradingConfig.minEntryNetProfitKrw := by
    norm_num [TradingConfig.minEntryNetProfitKrw]
  have hspread : ask ≤ bid * rate := ask_le_of_profit hqty hfee (hprofit.trans hfloor) rfl
  apply le_min
  · exact qty_of_notional hask hbid hrate htarget.le hspread hkoreanFill
  · rwa [div_le_iff₀ hbid, mul_comm]

end Gate

/-- What passes the gate is priced at the whole target: the top of both books covers it in coins,
and the net profit is the profit of all 35 USDT of it. -/
theorem gate_prices_full_target
    (ask askQty bid bidQty rate koreanFeeRate foreignFeeRate withdrawFeeCoins : ℚ)
    (hkorean : 0 ≤ koreanFeeRate) (hforeign : 0 ≤ foreignFeeRate)
    (hwithdraw : 0 ≤ withdrawFeeCoins)
    (hgate : passesGate (calculateRelayMetrics ask askQty bid bidQty rate koreanFeeRate
      foreignFeeRate withdrawFeeCoins) = true) :
    let m := calculateRelayMetrics ask askQty bid bidQty rate koreanFeeRate foreignFeeRate
      withdrawFeeCoins
    m.targetCoinQty = TradingConfig.targetEntryUsdt / bid ∧
      m.targetCoinQty ≤ askQty ∧ m.targetCoinQty ≤ bidQty ∧ m.targetCoinQty ≤ m.matchQty ∧
      m.matchBuyKrw = ask * m.targetCoinQty ∧
      m.matchSellUsdt = bid * m.targetCoinQty ∧ m.matchSellUsdt = TradingConfig.targetEntryUsdt ∧
      m.netProfitKrw =
        fullTargetProfitKrw ask bid rate koreanFeeRate foreignFeeRate withdrawFeeCoins := by
  have hcovered := target_le_match_of_gate hkorean hforeign hwithdraw hgate
  have hquotes := quotes_pos_of_gate hgate
  have hbid : bid ≠ 0 := by
    intro hzero
    exact hquotes (.inr (.inr (.inl hzero.le)))
  have hpriced : min (min askQty bidQty) (TradingConfig.targetEntryUsdt / bid) =
      TradingConfig.targetEntryUsdt / bid := min_eq_right hcovered
  have hsale : bid * (TradingConfig.targetEntryUsdt / bid) = TradingConfig.targetEntryUsdt :=
    mul_div_cancel₀ _ hbid
  simp only [calculateRelayMetrics, if_neg hquotes, hpriced, hsale, fullTargetProfitKrw, true_and,
    and_true]
  exact ⟨hcovered.trans (min_le_left _ _), hcovered.trans (min_le_right _ _), hcovered⟩

/-- A coin at 1000 won and at one dollar of 1500 won, with a withdrawal fee of one coin. -/
theorem gate_prices_full_target_wide_spread :
    let m := calculateRelayMetrics 1000 100 1 40 1500 (4 / 10000) (1 / 1000) 1
    m.targetCoinQty ≤ m.matchQty ∧
      m.netProfitKrw = fullTargetProfitKrw 1000 1 1500 (4 / 10000) (1 / 1000) 1 := by
  have h := gate_prices_full_target 1000 100 1 40 1500 (4 / 10000) (1 / 1000) 1 (by norm_num)
    (by norm_num) (by norm_num) (by decide +kernel)
  exact ⟨h.2.2.2.1, h.2.2.2.2.2.2.2⟩

end SpotRelay.Analysis
