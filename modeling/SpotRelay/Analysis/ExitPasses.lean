import SpotRelay.Analysis.EntryScan
import SpotRelay.Analysis.SignalFreshness
import SpotRelay.Analysis.UsdtFilter
import SpotRelay.Library.Run
import SpotRelay.Model.ExitSignals

/-!
# The backup pass of the exits

Each ticker checks the position of its symbol, a USDT/KRW ticker all of them.  A quote does not get
usable with time, so once a position has been checked nothing that the backup pass would find is
new, as long as the position stays as it is: whatever changes its premium checks it again.

* **a check** by a ticker finds what the backup pass would find at that moment (`check_covers`), and
  the ticker of another symbol changes nothing of it (`exitSignal_otherTicker`).
* **a step** that keeps the position and is timely leaves nothing new to find (`step_covered`), and
  so does a run (`run_covered`).
-/

set_option autoImplicit false

namespace SpotRelay.Analysis

open SpotRelay.Model SpotRelay.Library

/-! ## The check of one position -/

section

variable {e e' : Engine}

/-- A quote that is fresh now was fresh at every earlier time since it was stamped. -/
theorem quoteIsFresh_earlier {price : PriceData} {thenMs nowMs maxAgeMs : UInt64}
    (hstamped : price.timestamp ≤ thenMs) (hthen : thenMs ≤ nowMs)
    (hfresh : Engine.quoteIsFreshWithLimit price nowMs maxAgeMs = true) :
    Engine.quoteIsFreshWithLimit price thenMs maxAgeMs = true := by
  unfold Engine.quoteIsFreshWithLimit at hfresh ⊢
  split_ifs at hfresh ⊢ with hvalid hnow
  · exact absurd hstamped (UInt64.not_le.mpr ‹_›)
  · simp only [decide_eq_true_eq, UInt64.le_iff_toNat_le] at hfresh hstamped hthen ⊢
    have hnow : price.timestamp ≤ nowMs := UInt64.le_trans ‹_› ‹_›
    rw [UInt64.toNat_sub_of_le _ _ hnow] at hfresh
    rw [UInt64.toNat_sub_of_le _ _ (UInt64.le_iff_toNat_le.mpr hstamped)]
    omega

/-- Quotes that are usable for an exit were so at every earlier time behind their stamps. -/
theorem quotePairIsUsableExit_earlier {korean foreign : PriceData} {thenMs nowMs : UInt64}
    (hkorean : korean.timestamp ≤ thenMs) (hforeign : foreign.timestamp ≤ thenMs)
    (hthen : thenMs ≤ nowMs)
    (husable : Engine.quotePairIsUsableExit nowMs korean foreign = true) :
    Engine.quotePairIsUsableExit thenMs korean foreign = true := by
  unfold Engine.quotePairIsUsableExit at husable ⊢
  split at husable
  · cases husable
  · next hfresh =>
    simp only [Bool.or_eq_true, Bool.not_eq_true', not_or, Bool.not_eq_false] at hfresh
    rw [quoteIsFresh_earlier hkorean hthen hfresh.1, quoteIsFresh_earlier hforeign hthen hfresh.2]
    exact husable

/-- A signal of now would have been one at every earlier time since its quotes were stamped. -/
theorem exitSignal_earlier {pos : Position} {korean foreign : SymbolId} {thenMs nowMs : UInt64}
    {signal : ExitSignal}
    (hstamped : ∀ ex symbol, (e.priceCache.getPrice ex symbol).timestamp ≤ thenMs)
    (hthen : thenMs ≤ nowMs) (hsignal : e.exitSignal nowMs pos korean foreign = some signal) :
    e.exitSignal thenMs pos korean foreign = some signal := by
  unfold Engine.exitSignal at hsignal ⊢
  simp only at hsignal ⊢
  split at hsignal
  · cases hsignal
  · next hkorean =>
    rw [if_neg hkorean]
    split at hsignal
    · cases hsignal
    · next hforeign =>
      rw [if_neg hforeign]
      split at hsignal
      · cases hsignal
      · next husable =>
        rw [Bool.not_eq_false] at husable
        rw [if_neg (by
          rw [Bool.not_eq_false]
          exact quotePairIsUsableExit_earlier (hstamped _ _) (hstamped _ _) hthen husable)]
        exact hsignal

/-- A check reads two quotes and a rate. -/
theorem exitSignal_congr {pos : Position} {korean foreign : SymbolId} (nowMs : UInt64)
    (hkorean : e'.priceCache.getPrice pos.koreanExchange korean =
      e.priceCache.getPrice pos.koreanExchange korean)
    (hforeign : e'.priceCache.getPrice pos.foreignExchange foreign =
      e.priceCache.getPrice pos.foreignExchange foreign)
    (hrate : e'.priceCache.getUsdtKrw pos.koreanExchange =
      e.priceCache.getUsdtKrw pos.koreanExchange) :
    e'.exitSignal nowMs pos korean foreign = e.exitSignal nowMs pos korean foreign := by
  simp only [Engine.exitSignal, hkorean, hforeign, hrate]

/-- The foreign symbol that the engine looks up is the one of its table. -/
theorem foreignSymbolOf_eq (e : Engine) (symbol : SymbolId) :
    e.foreignSymbolOf symbol = symbol.foreign := by
  unfold Engine.foreignSymbolOf
  cases hindex : e.symbols.koreanIndex symbol with
  | none => rfl
  | some idx => simp [getElem?_of_koreanIndex hindex]

/-- An exit signal is of the symbol that was looked at. -/
theorem symbol_of_exitSignal {pos : Position} {korean foreign : SymbolId} {nowMs : UInt64}
    {signal : ExitSignal} (hsignal : e.exitSignal nowMs pos korean foreign = some signal) :
    signal.symbol = korean := by
  unfold Engine.exitSignal at hsignal
  simp only at hsignal
  split_ifs at hsignal
  cases hsignal
  rfl

/-- The full pass finds what the check of some position finds. -/
theorem mem_checkExitConditions {nowMs : UInt64} {signal : ExitSignal} :
    signal ∈ e.checkExitConditions nowMs ↔ ∃ pos ∈ e.activePositions,
      e.exitSignal nowMs pos pos.symbol pos.symbol.foreign = some signal := by
  unfold Engine.checkExitConditions
  split
  · next hempty => simp [hempty]
  · simp only [List.mem_filterMap, foreignSymbolOf_eq]

/-- The check of a symbol with one position finds what the full pass finds of it. -/
theorem mem_checkSymbolExit {nowMs : UInt64} {idx : ℕ} {symbol : SymbolId} {pos : Position}
    {signal : ExitSignal} (hget : e.symbols.symbols[idx]? = some symbol)
    (hone : e.tracker.count symbol ≤ 1) (hpos : pos ∈ e.activePositions)
    (hsymbol : pos.symbol = symbol)
    (hsignal : e.exitSignal nowMs pos symbol symbol.foreign = some signal) :
    (e.tracker.getPosition symbol).isSome = true ∧ signal ∈ e.checkSymbolExit nowMs idx := by
  have hsome : (e.tracker.getPosition symbol).isSome = true :=
    (e.tracker.getPosition_isSome_iff symbol).mpr ⟨pos, hpos, hsymbol⟩
  obtain ⟨found, hfound⟩ := Option.isSome_iff_exists.mp hsome
  have hmem : found ∈ e.activePositions := by
    rw [PositionTracker.getPosition, SlotTable.find_eq_find?] at hfound
    exact List.mem_of_find?_eq_some hfound
  have heq : found = pos := by
    apply SlotTable.eq_of_occurrences_le_one hone hmem hpos
    · simp [PositionTracker.ofSymbol, PositionTracker.symbol_of_getPosition hfound]
    · simp [PositionTracker.ofSymbol, hsymbol]
  refine ⟨hsome, ?_⟩
  simp [Engine.checkSymbolExit, hget, hfound, heq, hsignal]

end

/-! ## What a ticker changes -/

section

variable (std : StdSort) (maxPositions : MaxPositions) (e : Engine)

/-- A scan changes the entry cache only. -/
theorem onlyCache_fireEntryFromCache (scanMs : UInt64) :
    OnlyCache e (Engine.fireEntryFromCache std maxPositions e scanMs).1 := by
  unfold Engine.fireEntryFromCache
  split_ifs
  · exact onlyCache_refl e
  · exact onlyCache_refl e
  · exact onlyCache_refl e
  · refine List.foldlRecOn
      (motive := fun r : Engine × List Engine.Emission => OnlyCache e r.1) _ _
      (onlyCache_refl e) ?_
    intro r hr idx _
    exact hr.trans (onlyCache_fireCandidate idx e.positionState scanMs r)

/-- A ticker update leaves the set-up. -/
theorem setup_onTickerUpdate (clock : Engine.Clock) (ticker : Ticker) :
    SameSetup e (Engine.onTickerUpdate std maxPositions e clock ticker).1 := by
  have hbefore := setup_beforeScan e clock ticker
  rw [onTickerUpdate_eq]
  split_ifs
  · exact hbefore.trans (onlyCache_fireEntryFromCache std maxPositions _ clock.scanMs).setup
  · exact hbefore

/-- A price update leaves the prices of other venues and symbols. -/
theorem getPrice_update {ex : Exchange} {symbol : SymbolId} {ticker : Ticker} (c : PriceCache)
    (nowMs : UInt64) (hother : ¬ (ex = ticker.exchange ∧ symbol = ticker.symbol)) :
    (c.update ticker nowMs).getPrice ex symbol = c.getPrice ex symbol := by
  simp only [PriceCache.getPrice, PriceCache.update, if_neg hother]

/-- A price update leaves the rates. -/
theorem getUsdtKrw_update (c : PriceCache) (ticker : Ticker) (nowMs : UInt64) (ex : Exchange) :
    (c.update ticker nowMs).getUsdtKrw ex = c.getUsdtKrw ex := by
  cases ex <;> rfl

/-- A rate update leaves the prices. -/
theorem getPrice_onUsdtUpdate (ex : Exchange) (price : ℚ) (venue : Exchange) (symbol : SymbolId) :
    (e.onUsdtUpdate ex price).priceCache.getPrice venue symbol =
      e.priceCache.getPrice venue symbol := by
  simp only [Engine.onUsdtUpdate]
  split_ifs
  · rfl
  · rfl
  · cases ex <;> rfl

/-- The quotes are stamped with times that have passed. -/
def Stamped (e : Engine) (nowMs : UInt64) : Prop :=
  ∀ ex symbol, (e.priceCache.getPrice ex symbol).timestamp ≤ nowMs

/-- A ticker update leaves every price stamped by the present. -/
theorem stamped_onTickerUpdate {clock : Engine.Clock} {ticker : Ticker} {thenMs nowMs : UInt64}
    (hstamped : Stamped e thenMs) (hthen : thenMs ≤ nowMs) (hticker : ticker.timestamp ≤ nowMs)
    (hquotes : clock.quotesMs ≤ nowMs) :
    Stamped (Engine.onTickerUpdate std maxPositions e clock ticker).1 nowMs := by
  have hupdated : Stamped (withQuote e clock ticker) nowMs := by
    intro ex symbol
    by_cases hown : ex = ticker.exchange ∧ symbol = ticker.symbol
    · simp only [withQuote, PriceCache.getPrice, PriceCache.update, if_pos hown,
        PriceCache.updatedEntry]
      split <;> split_ifs <;> assumption
    · simp only [withQuote]
      rw [getPrice_update _ _ hown]
      exact UInt64.le_trans (hstamped ex symbol) hthen
  intro ex symbol
  rw [priceCache_onTickerUpdate]
  split_ifs
  · rw [getPrice_onUsdtUpdate]
    exact hupdated ex symbol
  · exact hupdated ex symbol

end

/-! ## Runs -/

/-- The clock goes on, and tickers are stamped with times that have passed. -/
def Timely (w : ExitWatch) : ExitEvent → Prop
  | .op (.tickerUpdate clock ticker) nowMs =>
    w.nowMs ≤ nowMs ∧ ticker.timestamp ≤ nowMs ∧ clock.quotesMs ≤ nowMs
  | .op _ nowMs => w.nowMs ≤ nowMs
  | .backup nowMs => w.nowMs ≤ nowMs

/-- The positions of a symbol. -/
def symbolPositions (tracker : PositionTracker) (symbol : SymbolId) : List Position :=
  (tracker.slots.filterMap id).filter fun pos => pos.symbol = symbol

/-- The symbol keeps its positions and its index; a rate comes with a ticker. -/
def Keeps (symbol : SymbolId) (w : ExitWatch) : ExitEvent → Prop
  | .op (.positionsChange tracker) _ =>
    symbolPositions tracker symbol = symbolPositions w.engine.tracker symbol
  | .op (.addSymbol _) _ | .op (.usdtUpdate ..) _ => False
  | _ => True

/-- The event checks the position of the symbol. -/
def Checks (symbol : SymbolId) (w : ExitWatch) : ExitEvent → Prop
  | .backup _ => True
  | .op (.tickerUpdate _ ticker) _ =>
    ticker.symbol.isUsdtKrw = true ∨
      w.engine.tickerIndex ticker = w.engine.symbols.koreanIndex symbol
  | .op _ _ => False

instance (symbol : SymbolId) (w : ExitWatch) : DecidablePred (Keeps symbol w)
  | .op (.positionsChange tracker) _ =>
    inferInstanceAs (Decidable
      (symbolPositions tracker symbol = symbolPositions w.engine.tracker symbol))
  | .op (.addSymbol _) _ | .op (.usdtUpdate ..) _ => isFalse id
  | .op (.tickerUpdate ..) _ | .op (.addExchangePair ..) _
  | .op (.setExchangePairEntryEnabled ..) _ | .op (.publishTransfers _) _
  | .op (.refreshEntryFilters _) _ | .op (.setEntrySuppressed _) _ | .backup _ => isTrue trivial

instance (w : ExitWatch) : DecidablePred (Timely w)
  | .op (.tickerUpdate ..) _ => inferInstanceAs (Decidable (_ ∧ _ ∧ _))
  | .op (.addSymbol _) _ | .op (.addExchangePair ..) _ | .op (.setExchangePairEntryEnabled ..) _
  | .op (.usdtUpdate ..) _ | .op (.publishTransfers _) _ | .op (.refreshEntryFilters _) _
  | .op (.positionsChange _) _ | .op (.setEntrySuppressed _) _ | .backup _ =>
    inferInstanceAs (Decidable (_ ≤ _))

/-- The symbol is found by its Korean and by its foreign name. -/
def Monitored (e : Engine) (symbol : SymbolId) : Prop :=
  ∃ idx, e.symbols.koreanIndex symbol = some idx ∧
    e.symbols.foreignIndex symbol.foreign = some idx

/-- At most one position of the symbol, between a Korean and a foreign venue. -/
def HeldOnce (tracker : PositionTracker) (symbol : SymbolId) : Prop :=
  (symbolPositions tracker symbol).length ≤ 1 ∧ ∀ pos ∈ symbolPositions tracker symbol,
    pos.koreanExchange.isKorean = true ∧ pos.foreignExchange.isKorean = false

/-- Whatever a pass finds of the symbol from now on has been signalled behind the first `count`
signals. -/
def ExitCovered (symbol : SymbolId) (count : ℕ) (w : ExitWatch) : Prop :=
  ∀ pos ∈ w.engine.activePositions, pos.symbol = symbol → ∀ nowMs, w.nowMs ≤ nowMs →
    ∀ signal, w.engine.exitSignal nowMs pos symbol symbol.foreign = some signal →
      signal ∈ w.signals.drop count

variable {std : StdSort} {maxPositions : MaxPositions} {w : ExitWatch} {symbol : SymbolId}
  {count : ℕ}

/-- The positions of a symbol are as many as its slots. -/
theorem count_eq_length (tracker : PositionTracker) (symbol : SymbolId) :
    tracker.count symbol = (symbolPositions tracker symbol).length := by
  rw [PositionTracker.count, SlotTable.occurrences_eq_countP, List.countP_eq_length_filter]
  rfl

/-- The positions of a symbol are those of the tracker that are of it. -/
theorem mem_symbolPositions {tracker : PositionTracker} {pos : Position} :
    pos ∈ symbolPositions tracker symbol ↔
      pos ∈ tracker.slots.filterMap id ∧ pos.symbol = symbol := by
  simp [symbolPositions, List.mem_filter]

/-- A signal stays among the later ones when more come. -/
theorem mem_drop_append {signals exits : List ExitSignal} {signal : ExitSignal}
    (h : signal ∈ signals.drop count ∨ count ≤ signals.length ∧ signal ∈ exits) :
    signal ∈ (signals ++ exits).drop count := by
  rw [List.drop_append]
  rcases h with h | ⟨hle, h⟩
  · exact List.mem_append_left _ h
  · apply List.mem_append_right
    rw [Nat.sub_eq_zero_of_le hle]
    exact h

/-- What an event leaves as it is. -/
theorem step_frame (std : StdSort) (maxPositions : MaxPositions) (w : ExitWatch)
    (symbol : SymbolId) (event : ExitEvent) :
    (∃ exits, (w.step std maxPositions event).signals = w.signals ++ exits) ∧
      (Keeps symbol w event → (w.step std maxPositions event).engine.symbols = w.engine.symbols ∧
        symbolPositions (w.step std maxPositions event).engine.tracker symbol =
          symbolPositions w.engine.tracker symbol) := by
  cases event with
  | backup nowMs => exact ⟨⟨_, rfl⟩, fun _ => ⟨rfl, rfl⟩⟩
  | op op nowMs =>
    refine ⟨⟨_, rfl⟩, ?_⟩
    cases op with
    | addSymbol symbol => exact fun hkeeps => hkeeps.elim
    | usdtUpdate ex price => exact fun hkeeps => hkeeps.elim
    | tickerUpdate clock ticker =>
      intro _
      have hsetup := setup_onTickerUpdate std maxPositions w.engine clock ticker
      refine ⟨hsetup.symbols, ?_⟩
      change symbolPositions
        (Engine.onTickerUpdate std maxPositions w.engine clock ticker).1.tracker symbol = _
      rw [hsetup.tracker]
    | refreshEntryFilters nowMs =>
      intro _
      have hcache := onlyCache_updateAllEntries w.engine nowMs
      refine ⟨hcache.symbols, ?_⟩
      change symbolPositions (w.engine.updateAllEntries nowMs).tracker symbol = _
      rw [hcache.tracker]
    | positionsChange tracker => exact fun hkeeps => ⟨rfl, hkeeps⟩
    | _ => exact fun _ => ⟨rfl, rfl⟩

/-- A timely event leaves every price stamped by the present, and the present does not go back. -/
theorem stamped_step (std : StdSort) (maxPositions : MaxPositions) (h : Stamped w.engine w.nowMs)
    {event : ExitEvent} (htimely : Timely w event) :
    Stamped (w.step std maxPositions event).engine (w.step std maxPositions event).nowMs ∧
      w.nowMs ≤ (w.step std maxPositions event).nowMs := by
  have hlater : ∀ {e : Engine} {nowMs : UInt64}, w.nowMs ≤ nowMs →
      (∀ ex symbol, e.priceCache.getPrice ex symbol = w.engine.priceCache.getPrice ex symbol) →
      Stamped e nowMs := by
    intro e nowMs hthen hsame ex symbol
    rw [hsame]
    exact UInt64.le_trans (h ex symbol) hthen
  cases event with
  | backup nowMs => exact ⟨hlater htimely fun _ _ => rfl, htimely⟩
  | op op nowMs =>
    cases op with
    | tickerUpdate clock ticker =>
      obtain ⟨hthen, hticker, hquotes⟩ := htimely
      exact ⟨stamped_onTickerUpdate std maxPositions w.engine h hthen hticker hquotes, hthen⟩
    | usdtUpdate ex price =>
      exact ⟨hlater htimely (getPrice_onUsdtUpdate w.engine ex price), htimely⟩
    | refreshEntryFilters quotesMs =>
      refine ⟨hlater htimely fun ex symbol => ?_, htimely⟩
      change (w.engine.updateAllEntries quotesMs).priceCache.getPrice ex symbol = _
      rw [(onlyCache_updateAllEntries w.engine quotesMs).priceCache]
    | _ => exact ⟨hlater htimely fun _ _ => rfl, htimely⟩

/-- A full pass covers every symbol. -/
theorem covered_of_pass {e : Engine} {signals : List ExitSignal} {nowMs : UInt64}
    (hstamped : Stamped e nowMs) (hcount : count ≤ signals.length) :
    ExitCovered symbol count ⟨e, signals ++ e.checkExitConditions nowMs, nowMs⟩ := by
  rintro pos hpos rfl laterMs hlater signal hsignal
  apply mem_drop_append
  right
  refine ⟨hcount, mem_checkExitConditions.mpr ⟨pos, hpos, ?_⟩⟩
  exact exitSignal_earlier hstamped hlater hsignal

/-- The check of a ticker covers the symbol of the ticker. -/
theorem covered_of_ticker {e : Engine} {signals : List ExitSignal} {nowMs : UInt64}
    {ticker : Ticker} (hstamped : Stamped e nowMs) (hcount : count ≤ signals.length)
    (hone : e.tracker.count symbol ≤ 1)
    (idx : ℕ) (hindex : e.symbols.koreanIndex symbol = some idx)
    (hticker : ticker.symbol.isUsdtKrw = true ∨ e.tickerIndex ticker = some idx) :
    ExitCovered symbol count ⟨e, signals ++ e.exitsOfTicker nowMs ticker, nowMs⟩ := by
  by_cases husdt : ticker.symbol.isUsdtKrw = true
  · simp only [Engine.exitsOfTicker, if_pos husdt]
    exact covered_of_pass hstamped hcount
  · have hget := getElem?_of_koreanIndex hindex
    have hown := hticker.resolve_left husdt
    intro pos hpos hsymbol laterMs hlater signal hsignal
    obtain ⟨hsome, hmem⟩ := mem_checkSymbolExit hget hone hpos hsymbol
      (exitSignal_earlier hstamped hlater hsignal)
    apply mem_drop_append
    right
    refine ⟨hcount, ?_⟩
    simp only [Engine.exitsOfTicker, if_neg husdt, hown, hget, if_pos hsome]
    exact hmem

/-- What a position reads stays as it was, and so does what was signalled. -/
theorem ExitCovered.congr {w' : ExitWatch} (h : ExitCovered symbol count w)
    (hthen : w.nowMs ≤ w'.nowMs) (hsignals : ∃ exits, w'.signals = w.signals ++ exits)
    (hpositions : symbolPositions w'.engine.tracker symbol =
      symbolPositions w.engine.tracker symbol)
    (hsame : ∀ pos ∈ symbolPositions w.engine.tracker symbol, ∀ nowMs,
      w'.engine.exitSignal nowMs pos symbol symbol.foreign =
        w.engine.exitSignal nowMs pos symbol symbol.foreign) : ExitCovered symbol count w' := by
  intro pos hpos hsymbol nowMs hnow signal hsignal
  obtain ⟨exits, hexits⟩ := hsignals
  have hmem : pos ∈ symbolPositions w.engine.tracker symbol := by
    rw [← hpositions]
    exact mem_symbolPositions.mpr ⟨hpos, hsymbol⟩
  rw [hsame pos hmem] at hsignal
  rw [hexits]
  apply mem_drop_append
  left
  have hearlier : w.nowMs ≤ nowMs := UInt64.le_trans hthen hnow
  exact h pos (mem_symbolPositions.mp hmem).1 hsymbol nowMs hearlier signal hsignal

/-- A ticker of another symbol is for no quote of the position. -/
theorem exitSignal_otherTicker {clock : Engine.Clock} {ticker : Ticker} {pos : Position} {idx : ℕ}
    (husdt : ticker.symbol.isUsdtKrw = false)
    (hindex : w.engine.symbols.koreanIndex symbol = some idx ∧
      w.engine.symbols.foreignIndex symbol.foreign = some idx)
    (hother : w.engine.tickerIndex ticker ≠ some idx)
    (hvenues : pos.koreanExchange.isKorean = true ∧ pos.foreignExchange.isKorean = false)
    (nowMs : UInt64) :
    (Engine.onTickerUpdate std maxPositions w.engine clock ticker).1.exitSignal nowMs pos symbol
        symbol.foreign = w.engine.exitSignal nowMs pos symbol symbol.foreign := by
  have hcache := priceCache_onTickerUpdate std maxPositions w.engine clock ticker
  rw [if_neg (by rw [husdt]; exact Bool.false_ne_true)] at hcache
  apply exitSignal_congr
  · rw [hcache]
    apply getPrice_update
    rintro ⟨hex, hsymbol⟩
    apply hother
    rw [Engine.tickerIndex, ← hex, ← hsymbol, if_pos hvenues.1]
    exact hindex.1
  · rw [hcache]
    apply getPrice_update
    rintro ⟨hex, hsymbol⟩
    apply hother
    rw [Engine.tickerIndex, ← hex, ← hsymbol, hvenues.2, if_neg Bool.false_ne_true]
    exact hindex.2
  · rw [hcache]
    exact getUsdtKrw_update ..

/-- The index of a ticker depends on the table of symbols only. -/
theorem tickerIndex_congr {e e' : Engine} (hsymbols : e'.symbols = e.symbols) (ticker : Ticker) :
    e'.tickerIndex ticker = e.tickerIndex ticker := by
  simp only [Engine.tickerIndex, hsymbols]

/-- The event that checks a symbol covers it. -/
theorem check_covers (hstamped : Stamped w.engine w.nowMs) {event : ExitEvent}
    (htimely : Timely w event) (hchecks : Checks symbol w event)
    (hmonitored : Monitored (w.step std maxPositions event).engine symbol)
    (hheld : HeldOnce (w.step std maxPositions event).engine.tracker symbol) :
    ExitCovered symbol w.signals.length (w.step std maxPositions event) := by
  have hstep := (stamped_step std maxPositions hstamped htimely).1
  cases event with
  | backup nowMs => exact covered_of_pass hstep le_rfl
  | op op nowMs =>
    cases op with
    | tickerUpdate clock ticker =>
      obtain ⟨idx, hkorean, -⟩ := hmonitored
      have hsymbols := (setup_onTickerUpdate std maxPositions w.engine clock ticker).symbols
      refine covered_of_ticker hstep le_rfl ?_ idx hkorean ?_
      · rw [count_eq_length]
        exact hheld.1
      · refine hchecks.imp_right fun hown => ?_
        have hkept : w.engine.symbols.koreanIndex symbol = some idx := by
          rw [← hkorean]
          exact congrArg (fun symbols => SymbolTable.koreanIndex symbols symbol) hsymbols.symm
        rw [← hkept, ← hown]
        exact tickerIndex_congr hsymbols ticker
    | _ => exact hchecks.elim

/-- Nothing that keeps the symbol uncovers it. -/
theorem step_covered (hstamped : Stamped w.engine w.nowMs) (h : ExitCovered symbol count w)
    (hcount : count ≤ w.signals.length) {event : ExitEvent} (htimely : Timely w event)
    (hkeeps : Keeps symbol w event) (hmonitored : Monitored w.engine symbol)
    (hheld : HeldOnce w.engine.tracker symbol) :
    ExitCovered symbol count (w.step std maxPositions event) := by
  obtain ⟨hstep, hthen⟩ := stamped_step std maxPositions hstamped htimely
  obtain ⟨hsignals, hframe⟩ := step_frame std maxPositions w symbol event
  obtain ⟨-, hpositions⟩ := hframe hkeeps
  have hcongr := h.congr hthen hsignals hpositions
  cases event with
  | backup nowMs => exact covered_of_pass hstep hcount
  | op op nowMs =>
    cases op with
    | tickerUpdate clock ticker =>
      obtain ⟨idx, hindex⟩ := hmonitored
      have hsetup := setup_onTickerUpdate std maxPositions w.engine clock ticker
      by_cases hown : ticker.symbol.isUsdtKrw = true ∨ w.engine.tickerIndex ticker = some idx
      · refine covered_of_ticker hstep hcount ?_ idx ?_ ?_
        · rw [count_eq_length]
          exact (congrArg List.length hpositions).trans_le hheld.1
        · rw [← hindex.1]
          exact congrArg (fun symbols => SymbolTable.koreanIndex symbols symbol) hsetup.symbols
        · refine hown.imp_right fun hown => ?_
          rw [← hown]
          exact tickerIndex_congr hsetup.symbols ticker
      · rw [not_or, Bool.not_eq_true] at hown
        apply hcongr
        intro pos hpos nowMs
        exact exitSignal_otherTicker hown.1 hindex hown.2 (hheld.2 pos hpos) nowMs
    | addSymbol symbol => exact hkeeps.elim
    | usdtUpdate ex price => exact hkeeps.elim
    | refreshEntryFilters quotesMs =>
      apply hcongr
      intro pos _ nowMs
      have hcache := onlyCache_updateAllEntries w.engine quotesMs
      change (w.engine.updateAllEntries quotesMs).exitSignal nowMs pos symbol symbol.foreign = _
      apply exitSignal_congr <;> rw [hcache.priceCache]
    | _ => exact hcongr fun pos _ nowMs => rfl

/-- A symbol that was checked stays covered while it keeps its positions. -/
theorem run_covered (hstamped : Stamped w.engine w.nowMs) (h : ExitCovered symbol count w)
    (hcount : count ≤ w.signals.length) (hmonitored : Monitored w.engine symbol)
    (hheld : HeldOnce w.engine.tracker symbol) (events : List ExitEvent)
    (htimely : Run.Along Timely (ExitWatch.step std maxPositions) w events)
    (hkeeps : Run.Along (Keeps symbol) (ExitWatch.step std maxPositions) w events) :
    ExitCovered symbol count (w.run std maxPositions events) := by
  induction events generalizing w with
  | nil => exact h
  | cons event events ih =>
    obtain ⟨htime, htimely⟩ := htimely
    obtain ⟨hkeep, hkeeps⟩ := hkeeps
    obtain ⟨⟨exits, hsignals⟩, hframe⟩ := step_frame std maxPositions w symbol event
    obtain ⟨hsymbols, hpositions⟩ := hframe hkeep
    apply ih _ _ _ _ _ htimely hkeeps
    · exact (stamped_step std maxPositions hstamped htime).1
    · exact step_covered hstamped h hcount htime hkeep hmonitored hheld
    · rw [hsignals, List.length_append]
      exact Nat.le_add_right_of_le hcount
    · rw [Monitored, hsymbols]
      exact hmonitored
    · rw [HeldOnce, hpositions]
      exact hheld

/-- In a timely run every price is stamped by the present. -/
theorem run_stamped (hstamped : Stamped w.engine w.nowMs) (events : List ExitEvent)
    (htimely : Run.Along Timely (ExitWatch.step std maxPositions) w events) :
    Stamped (w.run std maxPositions events).engine (w.run std maxPositions events).nowMs := by
  induction events generalizing w with
  | nil => exact hstamped
  | cons event events ih => exact ih (stamped_step std maxPositions hstamped htimely.1).1 htimely.2

/-! ## The result -/

/-- Take any run in which the clock goes on, and an event of it that checks a symbol which is
monitored and has one position at most.  As long as the position stays as it is, whatever a full
pass would signal for it at any later time has been signalled by that event or since. -/
theorem exits_found_before_backup (std : StdSort) (maxPositions : MaxPositions)
    (before : List ExitEvent) (check : ExitEvent) (after : List ExitEvent) (symbol : SymbolId) :
    let w := ExitWatch.run std maxPositions {} before
    let checked := w.step std maxPositions check
    let last := checked.run std maxPositions after
    Run.Along Timely (ExitWatch.step std maxPositions) {} (before ++ check :: after) →
      Checks symbol w check → Monitored checked.engine symbol →
      HeldOnce checked.engine.tracker symbol →
      Run.Along (Keeps symbol) (ExitWatch.step std maxPositions) checked after →
      ∀ nowMs, last.nowMs ≤ nowMs → ∀ signal ∈ last.engine.checkExitConditions nowMs,
        signal.symbol = symbol → signal ∈ last.signals.drop w.signals.length := by
  intro w checked last htimely hchecks hmonitored hheld hkeeps nowMs hnow signal hsignal hsymbol
  obtain ⟨hbefore, hcheck, hafter⟩ := (Run.along_append _ before (check :: after)).mp htimely
  have hstart : Stamped (ExitWatch.engine {}) (ExitWatch.nowMs {}) := fun _ _ => UInt64.le_refl _
  have hstamped : Stamped w.engine w.nowMs := run_stamped hstart before hbefore
  have hcovered : ExitCovered symbol w.signals.length checked :=
    check_covers hstamped hcheck hchecks hmonitored hheld
  obtain ⟨⟨exits, hsignals⟩, -⟩ := step_frame std maxPositions w symbol check
  have hcount : w.signals.length ≤ checked.signals.length := by
    rw [hsignals, List.length_append]
    exact Nat.le_add_right ..
  have hlast : ExitCovered symbol w.signals.length last :=
    run_covered (stamped_step std maxPositions hstamped hcheck).1 hcovered hcount hmonitored hheld
      after hafter hkeeps
  obtain ⟨pos, hpos, hfound⟩ := mem_checkExitConditions.mp hsignal
  have hown : pos.symbol = symbol := (symbol_of_exitSignal hfound).symm.trans hsymbol
  rw [hown] at hfound
  exact hlast pos hpos hown nowMs hnow signal hfound

/-- A position of AAA, entered at a premium of -2 %. -/
def heldAAA : Position where
  symbol := .of "AAA" "KRW"
  koreanExchange := .bithumb
  foreignExchange := .bybit
  entryPremium := -2

/-- The tracker with that position, and the quotes of a premium of 0.75 %. -/
def beforeExit : List ExitEvent :=
  [.op (.addSymbol (.of "AAA" "KRW")) 1000, .op (.tickerUpdate ⟨1000, 1000⟩ (usdtTicker 1000)) 1000,
    .op (.positionsChange (PositionTracker.empty.openPosition heldAAA)) 1000,
    .op (.tickerUpdate ⟨1100, 1100⟩ (foreignTicker "AAA" 1100)) 1100]

def exitTicker : ExitEvent := .op (.tickerUpdate ⟨1200, 1200⟩ (koreanTicker "AAA" 2025 1200)) 1200

/-- The Korean ticker signals the exit that a later pass finds. -/
theorem exits_found_before_backup_of_ticker :
    let w := ExitWatch.run .insertion .initial {} beforeExit
    let last := (w.step .insertion .initial exitTicker).run .insertion .initial
      [.op (.setEntrySuppressed true) 1300]
    (last.engine.checkExitConditions 1400).length = 1 ∧
      ∀ signal ∈ last.engine.checkExitConditions 1400, signal.symbol = .of "AAA" "KRW" →
        signal ∈ last.signals := by
  refine ⟨by decide +kernel, ?_⟩
  have hnone : (ExitWatch.run .insertion .initial {} beforeExit).signals.length = 0 := by
    decide +kernel
  have hfound := exits_found_before_backup .insertion .initial beforeExit exitTicker
    [.op (.setEntrySuppressed true) 1300] (.of "AAA" "KRW") (by decide +kernel)
    (.inr (by decide +kernel)) ⟨0, by decide +kernel, by decide +kernel⟩
    ⟨by decide +kernel, by decide +kernel⟩ ⟨trivial, trivial⟩ 1400 (by decide +kernel)
  rw [hnone, List.drop_zero] at hfound
  exact hfound

end SpotRelay.Analysis
