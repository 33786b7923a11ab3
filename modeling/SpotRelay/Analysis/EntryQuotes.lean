import SpotRelay.Interface.TruthfulVenue
import SpotRelay.Library.Run
import Mathlib.Tactic.MkIffOfInductiveProp

/-!
# The quotes behind the entries

The loop checks the age, the desync and the spreads of its quotes while it holds nothing.
Once coins are held any priced pair will do, for the exit and for the next split alike, so
the entries of a run are priced from usable quotes exactly when no split is added while the
cached pair is beyond the entry limits.

* **the shorts of a run** are what its iterations submit (`submittedShort`); every other iteration
  sends no entry (`loopStep_of_submittedShort_eq_none`).
* **one short** is priced from usable quotes exactly if the cached pair is within the entry limits
  where coins are held (`submittedShort_usable_iff`).
-/

set_option autoImplicit false

namespace SpotRelay.Analysis

open SpotRelay.Model SpotRelay.Interface SpotRelay.Library.Run

/-! ## The entries of a run -/

/-- A submitted entry short, with what the loop read before it. -/
structure PricedShort where
  market : MarketView
  quotes : Quotes
  coinAmount : ℚ

/-- The entry short that an iteration submits. -/
def submittedShort (c : Call) (s : LoopState) (x : IterationInput) : Option PricedShort :=
  if s.running then
    match iterationQuotes c x.market s.ledger.heldAmount with
    | none => none
    | some q =>
      match branch c q s.ledger with
      | .entry coinAmount => some ⟨x.market, q, coinAmount⟩
      | .exit _ => none
      | .wait => none
  else none

/-- The entry shorts of a run, in order. -/
def submittedShorts (c : Call) (s : LoopState) (xs : List IterationInput) : List PricedShort :=
  emissions (submittedShort c) (loopStep c) s xs

/-- An iteration submits a short exactly when it is alive and the entry gate is open on quotes it
accepts. -/
theorem submittedShort_eq_some_iff {c : Call} {s : LoopState} {x : IterationInput}
    {short : PricedShort} :
    submittedShort c s x = some short ↔
      s.running = true ∧ short.market = x.market ∧
        iterationQuotes c x.market s.ledger.heldAmount = some short.quotes ∧
        branch c short.quotes s.ledger = .entry short.coinAmount := by
  unfold submittedShort
  constructor
  · intro h
    split_ifs at h with hrunning
    cases hquotes : iterationQuotes c x.market s.ledger.heldAmount with
    | none =>
      rw [hquotes] at h
      cases h
    | some q =>
      rw [hquotes] at h
      dsimp only at h
      split at h
      next coinAmount hbranch =>
        cases h
        exact ⟨hrunning, rfl, rfl, hbranch⟩
      all_goals cases h
  · rintro ⟨hrunning, hmarket, hquotes, hbranch⟩
    rw [if_pos hrunning, hquotes]
    dsimp only
    rw [hbranch]
    dsimp only
    rw [← hmarket]

/-- The iteration of a submitted short is an opening split at its quotes. -/
theorem loopStep_of_submittedShort {c : Call} {s : LoopState} {x : IterationInput}
    {short : PricedShort} (h : submittedShort c s x = some short) :
    let split := openSplit c.venues x.replies short.quotes short.coinAmount
    loopStep c s x =
      afterOpen c short.quotes split.1
        ({ s with lastUsdtRate := iterationRate c x.market }.emit [.orders split.2]) := by
  obtain ⟨hrunning, -, hquotes, hbranch⟩ := submittedShort_eq_some_iff.mp h
  simp only [loopStep, if_pos hrunning, iterate, hquotes, trade, hbranch]

/-- Every other iteration sends no order, or those of a closing split. -/
theorem loopStep_of_submittedShort_eq_none {c : Call} {s : LoopState} {x : IterationInput}
    (h : submittedShort c s x = none) :
    (loopStep c s x).events = s.events ∨
      ∃ q coinAmount, loopStep c s x =
        afterClose c x q (closeLegs c.venues x.replies coinAmount)
          { s with lastUsdtRate := iterationRate c x.market } := by
  unfold submittedShort at h
  split_ifs at h with hrunning
  · cases hquotes : iterationQuotes c x.market s.ledger.heldAmount with
    | none =>
      left
      simp only [loopStep, if_pos hrunning, iterate, hquotes]
    | some q =>
      rw [hquotes] at h
      dsimp only at h
      cases hbranch : branch c q s.ledger with
      | entry coinAmount =>
        rw [hbranch] at h
        cases h
      | exit coinAmount =>
        right
        refine ⟨q, coinAmount, ?_⟩
        simp only [loopStep, if_pos hrunning, iterate, hquotes, trade, hbranch]
      | wait =>
        left
        simp only [loopStep, if_pos hrunning, iterate, hquotes, trade, hbranch]
  · left
    simp only [loopStep, if_neg hrunning]

/-! ## Entry limits -/

/-- The limits of `quote_pair_is_usable` for an entry.  An age is a difference of unsigned
clocks. -/
@[mk_iff]
structure EntryLimits (m : MarketView) : Prop where
  koreanSeen : m.korean.valid = true ∧ m.korean.timestamp ≠ 0
  foreignSeen : m.foreign.valid = true ∧ m.foreign.timestamp ≠ 0
  koreanAge : m.nowMs - m.korean.timestamp ≤ TradingConfig.maxQuoteAgeMs
  foreignAge : m.nowMs - m.foreign.timestamp ≤ TradingConfig.maxQuoteAgeMs
  desync : (if m.foreign.timestamp ≤ m.korean.timestamp then
      m.korean.timestamp - m.foreign.timestamp
    else m.foreign.timestamp - m.korean.timestamp) ≤ TradingConfig.maxQuoteDesyncMs
  koreanSpread :
    spreadExceeds m.korean.bid m.korean.ask TradingConfig.maxKoreanSpreadPct = false
  foreignSpread :
    spreadExceeds m.foreign.bid m.foreign.ask TradingConfig.maxForeignSpreadPct = false

/-- The check of the loop is the two venues' limits on age and spread. -/
theorem quotePairIsUsable_iff (m : MarketView) :
    quotePairIsUsable m.nowMs m.korean m.foreign false = true ↔ EntryLimits m := by
  rw [entryLimits_iff]
  simp [quotePairIsUsable, and_assoc]

/-- A short priced from the cached quotes, within the entry limits at that moment. -/
structure PricedShort.Usable (short : PricedShort) : Prop where
  foreignBid : short.quotes.foreignBid = short.market.foreign.bid
  koreanAsk : short.quotes.koreanAsk = short.market.korean.ask
  limits : EntryLimits short.market

/-! ## Entries from usable quotes -/

/-- The quotes of an iteration that takes what the cache holds. -/
def cachedQuotes (c : Call) (m : MarketView) : Quotes :=
  ⟨m.foreign.bid, m.foreign.ask, m.foreign.bidQty, m.korean.ask, m.korean.bid, m.korean.askQty,
    iterationRate c m⟩

/-- An iteration that finds coins held, and the entry gate open on priced cached quotes, finds
those quotes within the entry limits. -/
def AddOnWithinLimits (c : Call) (s : LoopState) (x : IterationInput) : Prop :=
  s.running = true → 0 < s.ledger.heldAmount →
    0 < x.market.foreign.bid ∧ 0 < x.market.korean.ask →
    (∃ coinAmount, branch c (cachedQuotes c x.market) s.ledger = .entry coinAmount) →
    EntryLimits x.market

/-- With an engine the quotes are the cached ones, of which only those read with nothing held
were checked. -/
theorem iterationQuotes_eq_some_iff {c : Call} (hengine : c.engine = true) {m : MarketView}
    {heldAmount : ℚ} {q : Quotes} :
    iterationQuotes c m heldAmount = some q ↔
      q = cachedQuotes c m ∧ (0 < m.foreign.bid ∧ 0 < m.korean.ask) ∧
        (heldAmount ≤ 0 → EntryLimits m) := by
  have hattached : ¬ c.engine = false := by simp [hengine]
  rw [← quotePairIsUsable_iff]
  simp only [iterationQuotes, if_neg hattached]
  change (if 0 < heldAmount then
      (if 0 < m.foreign.bid ∧ 0 < m.korean.ask then some (cachedQuotes c m) else none)
    else if (0 < m.foreign.bid ∧ 0 < m.korean.ask) ∧
        quotePairIsUsable m.nowMs m.korean m.foreign false = true then some (cachedQuotes c m)
      else none) = some q ↔ _
  by_cases hheld : 0 < heldAmount
  · rw [if_pos hheld, Option.ite_none_right_eq_some, Option.some_inj]
    constructor
    · rintro ⟨hprices, rfl⟩
      exact ⟨rfl, hprices, fun h => absurd hheld (not_lt.mpr h)⟩
    · rintro ⟨rfl, hprices, -⟩
      exact ⟨hprices, rfl⟩
  · rw [if_neg hheld, Option.ite_none_right_eq_some, Option.some_inj]
    constructor
    · rintro ⟨⟨hprices, husable⟩, rfl⟩
      exact ⟨rfl, hprices, fun _ => husable⟩
    · rintro ⟨rfl, hprices, husable⟩
      exact ⟨⟨hprices, husable (not_lt.mp hheld)⟩, rfl⟩

/-- One iteration: the short it submits is usable exactly when the checks it skips would have
passed. -/
theorem submittedShort_usable_iff {c : Call} (hengine : c.engine = true) (s : LoopState)
    (x : IterationInput) :
    (∀ short, submittedShort c s x = some short → short.Usable) ↔ AddOnWithinLimits c s x := by
  constructor
  · rintro h hrunning hheld hprices ⟨coinAmount, hbranch⟩
    have hquotes : iterationQuotes c x.market s.ledger.heldAmount =
        some (cachedQuotes c x.market) := by
      rw [iterationQuotes_eq_some_iff hengine]
      exact ⟨rfl, hprices, fun hle => absurd hheld (not_lt.mpr hle)⟩
    have hshort : submittedShort c s x = some ⟨x.market, cachedQuotes c x.market, coinAmount⟩ :=
      submittedShort_eq_some_iff.mpr ⟨hrunning, rfl, hquotes, hbranch⟩
    exact (h _ hshort).limits
  · intro h short hshort
    obtain ⟨hrunning, hmarket, hquotes, hbranch⟩ := submittedShort_eq_some_iff.mp hshort
    obtain ⟨hcached, hprices, hempty⟩ := (iterationQuotes_eq_some_iff hengine).mp hquotes
    rw [hcached] at hbranch
    have hlimits : EntryLimits x.market := by
      rcases lt_or_ge 0 s.ledger.heldAmount with hheld | hle
      · exact h hrunning hheld hprices ⟨_, hbranch⟩
      · exact hempty hle
    rw [← hmarket] at hcached hlimits
    refine ⟨?_, ?_, hlimits⟩
    · rw [hcached]
      rfl
    · rw [hcached]
      rfl

/-- Every entry of a run is priced from usable quotes exactly when no split is added while the
cached pair is beyond the entry limits. -/
theorem entries_usable_iff (c : Call) (hengine : c.engine = true) (s : LoopState)
    (xs : List IterationInput) :
    (∀ short ∈ submittedShorts c s xs, short.Usable) ↔
      Along (AddOnWithinLimits c) (loopStep c) s xs := by
  rw [submittedShorts, forall_emissions_iff]
  exact along_congr (submittedShort_usable_iff hengine) s xs

/-! ## A feed that stalls after the first split -/

/-- XRP on both venues and the USDT rate, as last seen at 900 ms. -/
def seenAt900 : PriceCache :=
  ((PriceCache.empty.updateUsdtKrw .bithumb 1400).update
    { exchange := .bybit, symbol := .of "XRP" "USDT", timestamp := 900
      bid := 1, ask := 1, last := 1, bidQty := 1000, askQty := 1000 } 900).update
    { exchange := .bithumb, symbol := .of "XRP" "KRW", timestamp := 900
      bid := 1000, ask := 1000, last := 1000, bidQty := 1000, askQty := 1000 } 900

/-- A split of 35 coins at the given time, from those quotes. -/
def splitAt (nowMs : UInt64) : IterationInput where
  market := (sampleCall .bithumb .bybit).marketView seenAt900 nowMs
  replies := legReplies (executingForeign 35 1) (executingKorean .done 35 1000)

/-- Two splits on prompt quotes, both sold within the limits. -/
theorem entries_usable_promptSplits :
    (submittedShorts (sampleCall .bithumb .bybit)
      (initialState (sampleCall .bithumb .bybit) none 0 .empty)
      [splitAt 1000, splitAt 1500]).length = 2 ∧
    ∀ short ∈ submittedShorts (sampleCall .bithumb .bybit)
      (initialState (sampleCall .bithumb .bybit) none 0 .empty) [splitAt 1000, splitAt 1500],
      short.Usable := by
  refine ⟨by decide +kernel, (entries_usable_iff (sampleCall .bithumb .bybit) rfl _ _).mpr ?_⟩
  refine ⟨?_, ?_, trivial⟩
  · rintro - - - -
    exact (quotePairIsUsable_iff _).mp (by decide +kernel)
  · rintro - - - -
    exact (quotePairIsUsable_iff _).mp (by decide +kernel)

/-- Ten seconds after its quotes a second split is submitted. -/
theorem add_on_from_stalled_quotes :
    ¬ ∀ (c : Call) (initial : Option Position) (now : Timestamp) (tracker : PositionTracker)
      (xs : List IterationInput), c.engine = true →
      ∀ short ∈ submittedShorts c (initialState c initial now tracker) xs, short.Usable := by
  intro h
  have hall := h (sampleCall .bithumb .bybit) none 0 .empty [splitAt 1000, splitAt 10900] rfl
  have hstale : (submittedShorts (sampleCall .bithumb .bybit)
      (initialState (sampleCall .bithumb .bybit) none 0 .empty)
      [splitAt 1000, splitAt 10900]).any
        (fun short => decide (TradingConfig.maxQuoteAgeMs <
          short.market.nowMs - short.market.korean.timestamp)) = true := by
    decide +kernel
  obtain ⟨short, hmem, hage⟩ := List.any_eq_true.mp hstale
  exact absurd (hall short hmem).limits.koreanAge (UInt64.not_le.mpr (of_decide_eq_true hage))

end SpotRelay.Analysis
