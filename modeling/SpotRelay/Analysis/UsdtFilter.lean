import SpotRelay.Analysis.EngineInvariant

/-!
# The USDT/KRW rate

A price further than 1.5 % from the stored rate is dropped, and the drop leaves no trace: the next
price is compared with the same rate.  So a level that is out of reach once is out of reach until
another price comes nearer to it.

* **one price** is taken or dropped by its distance from the stored rate alone (`filteredRate`).
* **an operation** of the engine does to a venue's rate what its price does (`getUsdtKrw_step`), and
  a run what its prices do (`getUsdtKrw_run`).
-/

set_option autoImplicit false

namespace SpotRelay.Analysis

open SpotRelay.Model

/-! ## The filter -/

/-- The price may replace the rate: nothing is stored yet, or the jump is small. -/
def InReach (rate price : ℚ) : Prop :=
  rate ≤ 0 ∨ |price - rate| / rate * 100 ≤ TradingConfig.maxUsdtJumpPct

instance (rate price : ℚ) : Decidable (InReach rate price) := inferInstanceAs (Decidable (_ ∨ _))

/-- The rate after a price has been reported. -/
def filteredRate (rate price : ℚ) : ℚ := if 0 < price ∧ InReach rate price then price else rate

/-- A rate is in reach of itself. -/
theorem inReach_self (rate : ℚ) : InReach rate rate := by
  right
  rw [sub_self, abs_zero, zero_div, zero_mul]
  exact (by norm_num [TradingConfig.maxUsdtJumpPct] : (0 : ℚ) ≤ TradingConfig.maxUsdtJumpPct)

/-- Reports of one price settle everything at the first of them. -/
theorem foldl_filteredRate_replicate (rate : ℚ) {price : ℚ} (hprice : 0 < price) (n : ℕ) :
    (List.replicate (n + 1) price).foldl filteredRate rate =
      if InReach rate price then price else rate := by
  induction n with
  | zero => simp [filteredRate, hprice]
  | succ n ih =>
    rw [List.replicate_succ', List.foldl_append, ih, List.foldl_cons, List.foldl_nil]
    split_ifs with hreach
    · rw [filteredRate, if_pos ⟨hprice, inReach_self price⟩]
    · rw [filteredRate, if_neg fun htaken => hreach htaken.2]

/-! ## The engine -/

/-- The USDT/KRW price that an operation reports for a venue. -/
def reportedUsdt (ex : Exchange) : Engine.Op → Option ℚ
  | .usdtUpdate venue price => if venue = ex then some price else none
  | .tickerUpdate _ ticker =>
    if ticker.symbol.isUsdtKrw = true ∧ ticker.exchange = ex then some (Engine.usdtPrice ticker)
    else none
  | _ => none

/-- The rate of a venue after an operation that may report a price. -/
def rateAfter (rate : ℚ) (report : Option ℚ) : ℚ := report.elim rate (filteredRate rate)

section Engine

variable (std : StdSort) (maxPositions : MaxPositions) (e : Engine)

/-- A scan changes no price. -/
theorem priceCache_fireEntryFromCache (scanMs : UInt64) :
    (Engine.fireEntryFromCache std maxPositions e scanMs).1.priceCache = e.priceCache := by
  unfold Engine.fireEntryFromCache
  split_ifs
  · rfl
  · rfl
  · rfl
  · refine List.foldlRecOn
      (motive := fun r : Engine × List Engine.Emission => r.1.priceCache = e.priceCache) _ _ rfl ?_
    intro r hr idx _
    rw [(onlyCache_fireCandidate idx e.positionState scanMs r).priceCache, hr]

/-- The engine with the quote of a ticker. -/
def withQuote (clock : Engine.Clock) (ticker : Ticker) : Engine :=
  { e with priceCache := e.priceCache.update ticker clock.quotesMs }

/-- A ticker stores its quote, and the rate too where it is the USDT ticker's. -/
theorem priceCache_beforeScan (clock : Engine.Clock) (ticker : Ticker) :
    (beforeScan clock ticker e).1.priceCache =
      if ticker.symbol.isUsdtKrw = true then
        ((withQuote e clock ticker).onUsdtUpdate ticker.exchange (Engine.usdtPrice ticker)).priceCache
      else (withQuote e clock ticker).priceCache := by
  simp only [beforeScan]
  generalize hstored : { e with priceCache := e.priceCache.update ticker clock.quotesMs } = stored
  have hwith : withQuote e clock ticker = stored := hstored
  rw [hwith]
  by_cases husdt : ticker.symbol.isUsdtKrw = true
  · rw [if_pos husdt, if_pos husdt]
    have hall := (onlyCache_updateAllEntries
      (stored.onUsdtUpdate ticker.exchange (Engine.usdtPrice ticker)) clock.quotesMs).priceCache
    split_ifs <;> exact hall
  · rw [if_neg husdt, if_neg husdt]
    cases stored.tickerIndex ticker with
    | none => rfl
    | some idx =>
      have hone := (onlyCache_updateSymbolEntry stored idx clock.quotesMs).priceCache
      simp only
      split_ifs <;> exact hone

/-- A ticker is stored before anything else, and a USDT/KRW one passes the filter. -/
theorem priceCache_onTickerUpdate (clock : Engine.Clock) (ticker : Ticker) :
    (Engine.onTickerUpdate std maxPositions e clock ticker).1.priceCache =
      if ticker.symbol.isUsdtKrw = true then
        ((withQuote e clock ticker).onUsdtUpdate ticker.exchange (Engine.usdtPrice ticker)).priceCache
      else (withQuote e clock ticker).priceCache := by
  rw [← priceCache_beforeScan, onTickerUpdate_eq]
  split_ifs
  · exact priceCache_fireEntryFromCache std maxPositions _ clock.scanMs
  · rfl

variable {ex : Exchange} (hkorean : ex.isKorean = true)

include hkorean

/-- A stored rate is that venue's and no other's. -/
theorem getUsdtKrw_updateUsdtKrw (cache : PriceCache) (venue : Exchange) (price : ℚ) :
    (cache.updateUsdtKrw venue price).getUsdtKrw ex =
      if venue = ex then price else cache.getUsdtKrw ex := by
  cases venue <;> cases ex <;> first | rfl | cases hkorean

/-- A report is filtered into the rate of its venue. -/
theorem getUsdtKrw_onUsdtUpdate (venue : Exchange) (price : ℚ) :
    (e.onUsdtUpdate venue price).priceCache.getUsdtKrw ex =
      if venue = ex then filteredRate (e.priceCache.getUsdtKrw ex) price
      else e.priceCache.getUsdtKrw ex := by
  have hstored := getUsdtKrw_updateUsdtKrw hkorean e.priceCache venue price
  unfold Engine.onUsdtUpdate
  by_cases hnone : price ≤ 0
  · have hkept : filteredRate (e.priceCache.getUsdtKrw ex) price = e.priceCache.getUsdtKrw ex :=
      if_neg fun htaken => hnone.not_gt htaken.1
    rw [if_pos hnone, hkept, ite_self]
  · rw [if_neg hnone]
    dsimp only
    by_cases hvenue : venue = ex
    · subst hvenue
      rw [if_pos rfl] at hstored ⊢
      rw [filteredRate]
      split_ifs with hjump htaken htaken
      · exact absurd hjump.2 (not_lt.mpr (htaken.2.resolve_left (not_le.mpr hjump.1)))
      · rfl
      · exact hstored
      · refine absurd ⟨not_le.mp hnone, ?_⟩ htaken
        rcases le_or_gt (e.priceCache.getUsdtKrw venue) 0 with hempty | hknown
        · exact Or.inl hempty
        · exact Or.inr (not_lt.mp fun hfar => hjump ⟨hknown, hfar⟩)
    · rw [if_neg hvenue] at hstored ⊢
      split_ifs
      · rfl
      · exact hstored

/-- What an operation does to the rate of a Korean venue. -/
theorem getUsdtKrw_step (op : Engine.Op) :
    (e.step std maxPositions op).1.priceCache.getUsdtKrw ex =
      rateAfter (e.priceCache.getUsdtKrw ex) (reportedUsdt ex op) := by
  cases op with
  | usdtUpdate venue price =>
    simp only [Engine.step, reportedUsdt]
    rw [getUsdtKrw_onUsdtUpdate e hkorean]
    split_ifs <;> rfl
  | tickerUpdate clock ticker =>
    simp only [Engine.step, reportedUsdt]
    rw [priceCache_onTickerUpdate]
    -- the quote of the ticker is no rate
    have hquote : (withQuote e clock ticker).priceCache.getUsdtKrw ex =
        e.priceCache.getUsdtKrw ex := by
      cases ex <;> rfl
    by_cases husdt : ticker.symbol.isUsdtKrw = true
    · rw [if_pos husdt, getUsdtKrw_onUsdtUpdate _ hkorean, hquote]
      simp only [husdt, true_and]
      split_ifs <;> rfl
    · rw [if_neg husdt, if_neg fun hreport => husdt hreport.1]
      exact hquote
  | refreshEntryFilters nowMs =>
    simp only [Engine.step, (onlyCache_updateAllEntries e nowMs).priceCache]
    rfl
  | publishTransfers snapshot => cases ex <;> rfl
  | _ => rfl

/-- The rate of a venue is what the filter makes of the reported prices. -/
theorem getUsdtKrw_run (ops : List Engine.Op) :
    (Engine.run std maxPositions e ops).priceCache.getUsdtKrw ex =
      (ops.filterMap (reportedUsdt ex)).foldl filteredRate (e.priceCache.getUsdtKrw ex) := by
  induction ops generalizing e with
  | nil => rfl
  | cons op ops ih =>
    have hrest := ih (e.step std maxPositions op).1
    rw [getUsdtKrw_step std maxPositions e hkorean] at hrest
    refine hrest.trans ?_
    cases hreport : reportedUsdt ex op <;> simp [hreport, rateAfter]

end Engine

/-- Whatever was reported before, and whatever happens in between, reports of one price for a Korean
venue end at that price if it is in reach of the stored rate, and otherwise leave the rate alone,
however many there are. -/
theorem usdt_rate_of_ticks (std : StdSort) (maxPositions : MaxPositions) (e : Engine)
    (history ticks : List Engine.Op) {ex : Exchange} (hkorean : ex.isKorean = true) {price : ℚ}
    (hprice : 0 < price) (n : ℕ)
    (hticks : ticks.filterMap (reportedUsdt ex) = List.replicate (n + 1) price) :
    (Engine.run std maxPositions e (history ++ ticks)).priceCache.getUsdtKrw ex =
      if InReach ((Engine.run std maxPositions e history).priceCache.getUsdtKrw ex) price then price
      else (Engine.run std maxPositions e history).priceCache.getUsdtKrw ex := by
  have hsplit : Engine.run std maxPositions e (history ++ ticks) =
      Engine.run std maxPositions (Engine.run std maxPositions e history) ticks :=
    List.foldl_append
  rw [hsplit, getUsdtKrw_run std maxPositions _ hkorean ticks, hticks,
    foldl_filteredRate_replicate _ hprice]

/-- From 1000 won, 1010 won are taken at the first tick. -/
theorem usdt_rate_of_ticks_near :
    (Engine.run .insertion .initial .initial
      ([.usdtUpdate .bithumb 1000] ++ [.usdtUpdate .bithumb 1010])).priceCache.getUsdtKrw .bithumb =
      1010 := by
  rw [@usdt_rate_of_ticks .insertion .initial .initial [.usdtUpdate .bithumb 1000]
    [.usdtUpdate .bithumb 1010] .bithumb rfl 1010 (by norm_num) 0 rfl, if_pos]
  decide +kernel

/-- From 1000 won, a level of 1100 won is never reached. -/
theorem usdt_rate_stuck :
    ¬ ∀ (std : StdSort) (maxPositions : MaxPositions) (history : List Engine.Op) (ex : Exchange)
      (price : ℚ), ex.isKorean = true → 0 < price →
      ∃ n, (Engine.run std maxPositions .initial
        (history ++ List.replicate n (.usdtUpdate ex price))).priceCache.getUsdtKrw ex = price := by
  intro h
  obtain ⟨n, hn⟩ := h .insertion .initial [.usdtUpdate .bithumb 1000] .bithumb 1100 rfl
    (by norm_num)
  rw [getUsdtKrw_run .insertion .initial .initial rfl] at hn
  cases n with
  | zero =>
    revert hn
    decide +kernel
  | succ n =>
    have hreports : ([Engine.Op.usdtUpdate .bithumb 1000] ++
        List.replicate (n + 1) (Engine.Op.usdtUpdate .bithumb 1100)).filterMap
          (reportedUsdt .bithumb) = (1000 : ℚ) :: List.replicate (n + 1) 1100 := by
      simp [reportedUsdt]
    have hfirst : filteredRate (Engine.initial.priceCache.getUsdtKrw .bithumb) 1000 = 1000 := by
      decide +kernel
    have hfar : ¬ InReach 1000 1100 := by decide +kernel
    rw [hreports, List.foldl_cons, hfirst, foldl_filteredRate_replicate _ (by norm_num),
      if_neg hfar] at hn
    norm_num at hn

end SpotRelay.Analysis
