import Mathlib.Tactic.FieldSimp
import Mathlib.Tactic.Linarith
import Mathlib.Tactic.Ring
import SpotRelay.Analysis.SignalFreshness
import SpotRelay.Model.Monitor

/-!
# The batch premiums of the monitor

Lanes and remainder of the batch calculation compute the scalar premium of their row, and so does a
division by zero.  A row has a positive foreign bid and a positive rate, but nothing is asked of its
foreign ask, and the batch has no guard where `calculate_exit_premium` has one.

* **the lanes**: both vector paths compute what the scalar path does, row by row
  (`calculateBatch_eq`).
* **the rows** are the monitored symbols with their best pair (`mem_getAllPremiums`).
* **the premiums** of a row are exact precisely where its foreign ask is usable
  (`premiumsExact_iff`).
-/

set_option autoImplicit false

namespace SpotRelay.Analysis

open SpotRelay.Model

open SimdPremiumCalculator (Row Target calculateScalar laneNeon calculateBatchAvx2
  calculateBatchNeon calculateBatch)

/-! ## Lanes -/

/-- Dividing first and subtracting later changes nothing, at a zero divisor either. -/
theorem laneNeon_eq (r : Row) : laneNeon r = calculateScalar r := by
  unfold laneNeon calculateScalar
  by_cases hzero : r.foreign * r.usdt = 0
  · simp only [hzero, Double.div, ne_eq, not_true_eq_false, if_false, sub_zero]
    split_ifs <;> rfl
  · simp only [Double.div, ne_eq, hzero, not_false_eq_true, if_true, Double.scale, Double.shift]
    congr 1
    rw [sub_div, div_self hzero]
    ring

/-- The AVX2 path computes what the scalar path computes, row by row. -/
theorem calculateBatchAvx2_eq (rows : List Row) :
    calculateBatchAvx2 rows = rows.map calculateScalar := by
  fun_induction calculateBatchAvx2 rows with
  | case1 a b c d rest ih =>
    rw [ih]
    rfl
  | case2 rows hshort => rfl

/-- The NEON path computes what the scalar path computes, row by row. -/
theorem calculateBatchNeon_eq (rows : List Row) :
    calculateBatchNeon rows = rows.map calculateScalar := by
  fun_induction calculateBatchNeon rows with
  | case1 a b rest ih =>
    rw [ih, laneNeon_eq, laneNeon_eq]
    rfl
  | case2 rows hshort => rfl

/-- For every number of rows and every lane width, each row gets its scalar premium. -/
theorem calculateBatch_eq (target : Target) (rows : List Row) :
    calculateBatch target rows = rows.map calculateScalar := by
  cases target with
  | avx2 => exact calculateBatchAvx2_eq rows
  | neon => exact calculateBatchNeon_eq rows
  | scalar => rfl

variable (e : Engine) (nowMs : UInt64) (target : Target)

/-- A row of the monitor is the row of a symbol. -/
theorem mem_getAllPremiums {info : PremiumInfo} :
    info ∈ e.getAllPremiums target nowMs ↔
      ∃ symbol ∈ e.symbols.symbols, ∃ row, e.bestPremiumPair symbol = some row ∧
        info = Engine.premiumInfo nowMs symbol row (calculateScalar row.entryRow)
          (calculateScalar row.exitRow) := by
  have hrows : e.getAllPremiums target nowMs = e.premiumRows.map fun row =>
      Engine.premiumInfo nowMs row.1 row.2 (calculateScalar row.2.entryRow)
        (calculateScalar row.2.exitRow) := by
    simp only [Engine.getAllPremiums, calculateBatch_eq]
    induction e.premiumRows with
    | nil => rfl
    | cons row rows ih => simpa using ih
  rw [hrows, List.mem_map]
  constructor
  · rintro ⟨⟨symbol, row⟩, hmem, rfl⟩
    obtain ⟨symbol', hsymbol, hrow⟩ := List.mem_filterMap.mp hmem
    obtain ⟨row', hbest, heq⟩ := Option.map_eq_some_iff.mp hrow
    obtain ⟨rfl, rfl⟩ := Prod.mk.inj heq
    exact ⟨symbol', hsymbol, row', hbest, rfl⟩
  · rintro ⟨symbol, hsymbol, row, hbest, rfl⟩
    refine ⟨(symbol, row), List.mem_filterMap.mpr ⟨symbol, hsymbol, ?_⟩, rfl⟩
    rw [hbest, Option.map_some]

variable {e}

/-- What the pair loop of the monitor makes sure of, and what it knows of the pair then. -/
theorem premiumQuote_eq_some {symbol : SymbolId} {pair : ExchangePairConfig}
    {row : Engine.PairQuote} (h : e.premiumQuote symbol pair = some row) :
    (row.koreanPrice.valid = true ∧ row.foreignPrice.valid = true) ∧
      0 < row.foreignPrice.bid ∧ 0 < row.usdtRate ∧ row = quoteOf e symbol pair := by
  simp only [Engine.premiumQuote] at h
  split_ifs at h with hroute hkorean hforeign hrate
  simp only [not_or, not_le, Bool.not_eq_false] at hkorean hforeign hrate
  obtain rfl := Option.some.inj h
  exact ⟨⟨hkorean.1, hforeign.1⟩, hforeign.2, hrate, rfl⟩

/-- The pair behind a best premium is one of the configured pairs. -/
theorem exists_premiumQuote {symbol : SymbolId} {row : Engine.PairQuote}
    (h : e.bestPremiumPair symbol = some row) :
    ∃ pair ∈ e.exchangePairs, e.premiumQuote symbol pair = some row := by
  rcases mem_of_foldl_betterPair h with hmem | hnone
  · exact List.mem_filterMap.mp hmem
  · cases hnone

/-! ## The result -/

/-- The premiums of a row are those of the calculator, without a division by zero, and a missing
foreign ask is no reason to exit. -/
structure PremiumsExact (info : PremiumInfo) : Prop where
  entry : info.entryPremium =
    .finite (Engine.calculateEntryPremium info.koreanAsk info.foreignBid info.usdtRate)
  exit : info.exitPremium =
    .finite (calculateExitPremium info.koreanBid info.foreignAsk info.usdtRate)
  entryDivisor : info.foreignBid * info.usdtRate ≠ 0
  exitDivisor : info.foreignAsk * info.usdtRate ≠ 0
  noExit : info.foreignAsk ≤ 0 → info.exitSignal = false

/-- The foreign ask is there, or it is negative and the premium over it happens to be nil. -/
def ForeignAskUsable (row : Engine.PairQuote) : Prop :=
  0 < row.foreignPrice.ask ∨
    row.foreignPrice.ask < 0 ∧ row.koreanPrice.bid = row.foreignPrice.ask * row.usdtRate

/-- Where foreign price and rate are not zero, the scalar path computes the premium. -/
theorem calculateScalar_eq {r : Row} (h : r.foreign * r.usdt ≠ 0) :
    calculateScalar r = .finite (premiumPct r.korean r.foreign r.usdt) := by
  simp only [calculateScalar, Double.div, ne_eq, h, not_false_eq_true, if_true, Double.scale,
    premiumPct]

/-- Both premiums of a row are exact precisely where the foreign ask is usable. -/
theorem premiumsExact_iff (symbol : SymbolId) {row : Engine.PairQuote}
    (hbid : 0 < row.foreignPrice.bid) (hrate : 0 < row.usdtRate) :
    PremiumsExact (Engine.premiumInfo nowMs symbol row (calculateScalar row.entryRow)
      (calculateScalar row.exitRow)) ↔ ForeignAskUsable row := by
  have hentry : row.foreignPrice.bid * row.usdtRate ≠ 0 := (mul_pos hbid hrate).ne'
  have hentryEq : calculateScalar row.entryRow = .finite (Engine.calculateEntryPremium
      row.koreanPrice.ask row.foreignPrice.bid row.usdtRate) := by
    rw [Engine.calculateEntryPremium, if_neg (by simp [hbid, hrate])]
    exact calculateScalar_eq hentry
  constructor
  · rintro ⟨-, hexit, -, hdivisor, -⟩
    change row.foreignPrice.ask * row.usdtRate ≠ 0 at hdivisor
    change calculateScalar row.exitRow = .finite (calculateExitPremium row.koreanPrice.bid
      row.foreignPrice.ask row.usdtRate) at hexit
    rcases lt_trichotomy row.foreignPrice.ask 0 with hneg | hzero | hpos
    · right
      refine ⟨hneg, ?_⟩
      -- below zero the calculator returns nothing, and the batch the formula
      rw [calculateScalar_eq hdivisor, calculateExitPremium, if_pos (.inl hneg.le)] at hexit
      have hpremium := Double.finite.inj hexit
      rw [Engine.PairQuote.exitRow, premiumPct, mul_eq_zero, div_eq_zero_iff] at hpremium
      rcases hpremium with (hdiff | hdiv) | hhundred
      · exact sub_eq_zero.mp hdiff
      · exact absurd hdiv hdivisor
      · norm_num at hhundred
    · rw [hzero, zero_mul] at hdivisor
      exact absurd rfl hdivisor
    · exact .inl hpos
  · intro husable
    have hask : row.foreignPrice.ask ≠ 0 := by
      rcases husable with hpos | ⟨hneg, -⟩
      · exact hpos.ne'
      · exact hneg.ne
    have hdivisor : row.foreignPrice.ask * row.usdtRate ≠ 0 := mul_ne_zero hask hrate.ne'
    have hexit : calculateScalar row.exitRow = .finite (calculateExitPremium row.koreanPrice.bid
        row.foreignPrice.ask row.usdtRate) := by
      rw [calculateScalar_eq hdivisor, calculateExitPremium, Engine.PairQuote.exitRow]
      rcases husable with hpos | ⟨hneg, hbidEq⟩
      · rw [if_neg (by simp [hpos, hrate])]
      · rw [if_pos (.inl hneg.le), premiumPct, hbidEq, sub_self, zero_div, zero_mul]
    refine ⟨hentryEq, hexit, hentry, hdivisor, ?_⟩
    intro hmissing
    change (calculateScalar row.exitRow).atLeast _ = false
    rw [hexit, calculateExitPremium, if_pos (.inl hmissing)]
    decide +kernel

/-- For every engine, every number of rows and every lane width, the rows of the monitor carry the
calculator's premiums exactly if every row has a usable foreign ask. -/
theorem getAllPremiums_exact_iff (target : Target) (e : Engine) (nowMs : UInt64) :
    (∀ info ∈ e.getAllPremiums target nowMs, PremiumsExact info) ↔
      ∀ symbol ∈ e.symbols.symbols, ∀ row, e.bestPremiumPair symbol = some row →
        ForeignAskUsable row := by
  have hpositive : ∀ {symbol : SymbolId} {row : Engine.PairQuote},
      e.bestPremiumPair symbol = some row → 0 < row.foreignPrice.bid ∧ 0 < row.usdtRate := by
    intro symbol row hbest
    obtain ⟨pair, -, hquote⟩ := exists_premiumQuote hbest
    obtain ⟨-, hbid, hrate, -⟩ := premiumQuote_eq_some hquote
    exact ⟨hbid, hrate⟩
  constructor
  · intro hexact symbol hsymbol row hbest
    obtain ⟨hbid, hrate⟩ := hpositive hbest
    apply (premiumsExact_iff nowMs symbol hbid hrate).mp
    exact hexact _ ((mem_getAllPremiums e nowMs target).mpr ⟨symbol, hsymbol, row, hbest, rfl⟩)
  · intro husable info hinfo
    obtain ⟨symbol, hsymbol, row, hbest, rfl⟩ := (mem_getAllPremiums e nowMs target).mp hinfo
    obtain ⟨hbid, hrate⟩ := hpositive hbest
    exact (premiumsExact_iff nowMs symbol hbid hrate).mpr (husable symbol hsymbol row hbest)

/-- Bybit bids for AAA and asks for nothing. -/
def missingAsk : List Engine.Op :=
  twoCoinSetup ++
    [.tickerUpdate ⟨1100, 1100⟩ { foreignTicker "AAA" 1100 with ask := 0, askQty := 0 },
      .tickerUpdate ⟨1100, 1100⟩ (koreanTicker "AAA" 1950 1100)]

/-- The exit premium over the missing ask is infinite, so the row says to exit. -/
theorem exitSignal_missingAsk :
    ¬ ∀ (target : Target) (e : Engine) (nowMs : UInt64),
      ∀ info ∈ e.getAllPremiums target nowMs, PremiumsExact info := by
  intro h
  have hexits : ∃ info ∈ (Engine.run .insertion .initial .initial missingAsk).getAllPremiums
      .avx2 1100, info.foreignAsk = 0 ∧ info.exitSignal = true := by
    decide +kernel
  obtain ⟨info, hinfo, hask, hexit⟩ := hexits
  have hnone := (h .avx2 _ 1100 info hinfo).noExit hask.le
  rw [hexit] at hnone
  cases hnone

end SpotRelay.Analysis
