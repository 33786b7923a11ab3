import Mathlib.Logic.Relation
import SpotRelay.Analysis.SignalFreshness
import SpotRelay.Analysis.TransferRoutes
import SpotRelay.Model.EntryEvaluation

/-!
# The fee of a qualified entry

An evaluation asks for the route of a pair once and for its fee twice, each time in the snapshot
that is published at the moment.  A fee that is not in the snapshot reads as nil, so the last look-up
has to find the route that the first one found.

* **the published fees** are those of the open routes in every state (`feesMatch_step`).
* **one access** keeps an entry's fee that of an open route exactly where the route it looks up is
  still open (`storesSoundly_step`).
-/

set_option autoImplicit false

namespace SpotRelay.Analysis

open SpotRelay.Model SpotRelay.Library

open Engine (PairQuote updateSymbolEntryStep)

/-! ## Without interference -/

section Undisturbed

variable (e : Engine) (nowMs : UInt64)

/-- The call takes its next step, and nobody else does. -/
def Proceeds (r r' : Engine × EvaluationPhase) : Prop := updateSymbolEntryStep r.1 nowMs r.2 = r'

variable {e nowMs}

open Relation (ReflTransGen)

/-- A step that leaves the engine may come before the rest of an evaluation. -/
theorem proceeds_trans {phase : EvaluationPhase} {r : Engine × EvaluationPhase}
    (phase' : EvaluationPhase)
    (hstep : updateSymbolEntryStep e nowMs phase = (e, phase'))
    (hrest : ReflTransGen (Proceeds nowMs) (e, phase') r) :
    ReflTransGen (Proceeds nowMs) (e, phase) r :=
  .head hstep hrest

/-- The steps from the head of the loop to the next one evaluate one pair. -/
theorem proceeds_pair (l : PairLoop) (pair : ExchangePairConfig) (pairs : List ExchangePairConfig) :
    ReflTransGen (Proceeds nowMs) (e, .nextPair { l with pairs := pair :: pairs })
      (e, .nextPair { l with
        pairs := pairs
        best := (e.pairQuote nowMs l.symbol pair).elim l.best (Engine.betterPair l.best) }) := by
  simp only [Engine.pairQuote]
  by_cases henabled : pair.entryEnabled = false
  · rw [if_pos henabled]
    exact .single (if_pos henabled)
  rw [if_neg henabled]
  refine proceeds_trans (.route { l with pairs := pairs } pair) (if_neg henabled) ?_
  by_cases hroute : e.priceCache.isTransferRouteAvailable
    (pair.korean, pair.foreign, l.symbol.base) = false
  · rw [if_pos hroute]
    exact .single (if_pos hroute)
  rw [if_neg hroute]
  refine proceeds_trans (.koreanPrice { l with pairs := pairs } pair) (if_neg hroute) ?_
  by_cases hkorean : (e.priceCache.getPrice pair.korean l.symbol).valid = false ∨
    (e.priceCache.getPrice pair.korean l.symbol).ask ≤ 0
  · rw [if_pos hkorean]
    exact .single (if_pos hkorean)
  rw [if_neg hkorean]
  refine proceeds_trans (.foreignPrice { l with pairs := pairs } pair
    (e.priceCache.getPrice pair.korean l.symbol)) (if_neg hkorean) ?_
  by_cases hforeign : (e.priceCache.getPrice pair.foreign l.symbol.foreign).valid = false ∨
    (e.priceCache.getPrice pair.foreign l.symbol.foreign).bid ≤ 0
  · rw [if_pos hforeign]
    exact .single (if_pos hforeign)
  rw [if_neg hforeign]
  by_cases husable : Engine.quotePairIsUsable nowMs (e.priceCache.getPrice pair.korean l.symbol)
    (e.priceCache.getPrice pair.foreign l.symbol.foreign) = false
  · rw [if_pos husable]
    exact .single ((if_neg hforeign).trans (if_pos husable))
  rw [if_neg husable]
  refine proceeds_trans (.usdtKrw { l with pairs := pairs } pair
    (e.priceCache.getPrice pair.korean l.symbol)
    (e.priceCache.getPrice pair.foreign l.symbol.foreign))
    ((if_neg hforeign).trans (if_neg husable)) ?_
  by_cases hrate : e.priceCache.getUsdtKrw pair.korean ≤ 0
  · rw [if_pos hrate]
    exact .single (if_pos hrate)
  rw [if_neg hrate]
  exact proceeds_trans (.withdrawFee { l with pairs := pairs } pair
    (e.priceCache.getPrice pair.korean l.symbol)
    (e.priceCache.getPrice pair.foreign l.symbol.foreign) (e.priceCache.getUsdtKrw pair.korean))
    (if_neg hrate) (.single rfl)

/-- With nothing in between, the pair loop goes through all its pairs and ends with the best of
them. -/
theorem proceeds_pairs (l : PairLoop) :
    ReflTransGen (Proceeds nowMs) (e, .nextPair l)
      (e, .nextPair { l with
        pairs := []
        best := (l.pairs.filterMap (e.pairQuote nowMs l.symbol)).foldl Engine.betterPair l.best })
    := by
  obtain ⟨idx, symbol, pairs, best⟩ := l
  induction pairs generalizing best with
  | nil => exact .refl
  | cons pair pairs ih =>
    refine (proceeds_pair ⟨idx, symbol, [], best⟩ pair pairs).trans ?_
    have hrest := ih ((e.pairQuote nowMs symbol pair).elim best (Engine.betterPair best))
    cases hquote : e.pairQuote nowMs symbol pair with
    | none => simpa [hquote] using hrest
    | some quote => simpa [hquote] using hrest

/-- A look-up of the same snapshot changes nothing in the metrics. -/
theorem withFee_of_pairQuote {symbol : SymbolId} {pair : ExchangePairConfig} {quote : PairQuote}
    (h : e.pairQuote nowMs symbol pair = some quote) :
    quote.withFee (e.priceCache.getWithdrawFee (quote.route symbol)) = quote := by
  obtain ⟨-, rfl⟩ := pairQuote_eq_some_iff.mp h
  rfl

/-- A call that nobody interferes with ends where `update_symbol_entry` does. -/
theorem proceeds_updateSymbolEntry (idx : ℕ) :
    ReflTransGen (Proceeds nowMs) (e.callUpdateSymbolEntry idx)
      (e.updateSymbolEntry nowMs idx, .idle) := by
  simp only [Engine.callUpdateSymbolEntry, Engine.updateSymbolEntry]
  cases e.symbols.symbols[idx]? with
  | none => exact .refl
  | some symbol =>
    simp only
    split_ifs with hpairs
    · exact .refl
    · refine (proceeds_pairs ⟨idx, symbol, e.exchangePairs, none⟩).trans ?_
      have hbest : (e.exchangePairs.filterMap (e.pairQuote nowMs symbol)).foldl Engine.betterPair
        none = e.bestPair nowMs symbol := rfl
      simp only [hbest]
      cases hchosen : e.bestPair nowMs symbol with
      | none => exact .single rfl
      | some best =>
        obtain ⟨pair, -, hquote⟩ := exists_pairQuote_of_bestPair hchosen
        refine proceeds_trans (.finalFee idx symbol best) rfl ?_
        refine proceeds_trans (.store idx symbol best e.priceCache.transferSnapshot) ?_
          (.single rfl)
        simp only [updateSymbolEntryStep, withFee_of_pairQuote hquote]

end Undisturbed

/-! ## Snapshots -/

/-- A snapshot lists the fee of each available route and nothing else. -/
def FeesMatch (snapshot : TransferSnapshot) : Prop :=
  ∀ key, snapshot.fees.lookup key =
    ((snapshot.routes.lookup key).filter fun route => route.available).map fun route =>
      route.feeCoins

/-- Finalised tables list the fee of each available route and nothing else. -/
theorem feesMatch_finalizeWithdrawFees (t : TransferTables) (nowMs : UInt64) :
    FeesMatch (t.finalizeWithdrawFees nowMs) := by
  intro key
  simp only [TransferTables.finalizeWithdrawFees]
  by_cases hmem : key ∈ t.routeKeys
  · rw [List.lookup_graph (t.route nowMs) hmem, Option.filter_some]
    split_ifs with havailable
    · have hfee : key ∈ t.routeKeys.filter fun key => (t.route nowMs key).available :=
        List.mem_filter.mpr ⟨hmem, havailable⟩
      rw [List.lookup_graph (fun key => (t.route nowMs key).feeCoins) hfee]
      rfl
    · have hfee : key ∉ t.routeKeys.filter fun key => (t.route nowMs key).available :=
        fun h => havailable (List.mem_filter.mp h).2
      rw [lookup_graph_of_not_mem (fun key => (t.route nowMs key).feeCoins) hfee]
      rfl
  · have hfee : key ∉ t.routeKeys.filter fun key => (t.route nowMs key).available :=
      fun h => hmem (List.mem_filter.mp h).1
    rw [lookup_graph_of_not_mem (t.route nowMs) hmem,
      lookup_graph_of_not_mem (fun key => (t.route nowMs key).feeCoins) hfee]
    rfl

/-- The pair's metrics are those at the fee of its route, which is available in the snapshot. -/
def FeeOfOpenRoute (snapshot : TransferSnapshot) (symbol : SymbolId) (best : PairQuote) : Prop :=
  ∃ route ∈ snapshot.routes.lookup (best.route symbol),
    route.available = true ∧ best = best.withFee route.feeCoins

instance (snapshot : TransferSnapshot) (symbol : SymbolId) (best : PairQuote) :
    Decidable (FeeOfOpenRoute snapshot symbol best) :=
  inferInstanceAs (Decidable (∃ route ∈ snapshot.routes.lookup (best.route symbol),
    route.available = true ∧ best = best.withFee route.feeCoins))

/-- What the last look-up finds. -/
theorem feeOfOpenRoute_iff {cache : PriceCache} (hfees : FeesMatch cache.transferSnapshot)
    (symbol : SymbolId) (best : PairQuote) :
    FeeOfOpenRoute cache.transferSnapshot symbol
        (best.withFee (cache.getWithdrawFee (best.route symbol))) ↔
      cache.isTransferRouteAvailable (best.route symbol) = true := by
  have hlookup := hfees (best.route symbol)
  have hroute : ∀ fee, (best.withFee fee).route symbol = best.route symbol := fun _ => rfl
  simp only [FeeOfOpenRoute, hroute, PriceCache.isTransferRouteAvailable, PriceCache.getWithdrawFee,
    hlookup]
  cases cache.transferSnapshot.routes.lookup (best.route symbol) with
  | none => simp
  | some route =>
    constructor
    · rintro ⟨_, ⟨⟩, havailable, -⟩
      exact havailable
    · intro havailable
      refine ⟨route, rfl, havailable, ?_⟩
      rw [Option.filter_some, if_pos havailable]
      rfl

/-- A closed route has no fee on record. -/
theorem getWithdrawFee_of_closed {cache : PriceCache} (hfees : FeesMatch cache.transferSnapshot)
    {key : Route} (hclosed : cache.isTransferRouteAvailable key = false) :
    cache.getWithdrawFee key = 0 := by
  rw [PriceCache.getWithdrawFee, hfees key]
  rw [PriceCache.isTransferRouteAvailable] at hclosed
  cases hroute : cache.transferSnapshot.routes.lookup key with
  | none => rfl
  | some route =>
    rw [hroute] at hclosed
    simp only at hclosed
    rw [Option.filter_some, hclosed]
    rfl

/-! ## What is stored -/

/-- A call that is about to store a qualified entry has the fee of a route that is available in the
snapshot it read the fee from. -/
def SoundPhase : EvaluationPhase → Prop
  | .store _ symbol best snapshot => best.qualifies = true → FeeOfOpenRoute snapshot symbol best
  | _ => True

instance (phase : EvaluationPhase) : Decidable (SoundPhase phase) :=
  match phase with
  | .store _ symbol best snapshot =>
    inferInstanceAs (Decidable (best.qualifies = true → FeeOfOpenRoute snapshot symbol best))
  | .idle | .nextPair _ | .route _ _ | .koreanPrice _ _ | .foreignPrice _ _ _ | .usdtKrw _ _ _ _
  | .withdrawFee _ _ _ _ _ | .finalFee _ _ _ => isTrue trivial

def StoresSoundly (s : EntryThreads) : Prop := ∀ id, SoundPhase (s.calls id)

/-- The last look-up of a call finds the route of its pair available, or the pair fails the gate at
no fee at all. -/
def RouteStillOpen (s : EntryThreads) : EntryEvent → Prop
  | .proceed id _ =>
    match s.calls id with
    | .finalFee _ symbol best =>
      s.engine.priceCache.isTransferRouteAvailable (best.route symbol) = true ∨
        (best.withFee 0).qualifies = false
    | _ => True
  | _ => True

/-- One access of an evaluation changes nothing but the entry cache. -/
theorem onlyCache_updateSymbolEntryStep (e : Engine) (nowMs : UInt64) (phase : EvaluationPhase) :
    OnlyCache e (updateSymbolEntryStep e nowMs phase).1 := by
  cases phase with
  | nextPair l =>
    simp only [updateSymbolEntryStep]
    split
    · exact onlyCache_clearState e l.idx
    · exact onlyCache_refl e
    · split_ifs <;> exact onlyCache_refl e
  | store idx symbol best snapshot =>
    exact (onlyCache_setEntry e idx _).trans (onlyCache_sync _ idx _ _)
  | idle => exact onlyCache_refl e
  | finalFee idx symbol best => exact onlyCache_refl e
  | withdrawFee l pair koreanPrice foreignPrice rate => exact onlyCache_refl e
  | _ =>
    simp only [updateSymbolEntryStep]
    split_ifs <;> exact onlyCache_refl e

/-- The call that starts an evaluation changes nothing but the entry cache. -/
theorem onlyCache_callUpdateSymbolEntry (e : Engine) (idx : ℕ) :
    OnlyCache e (e.callUpdateSymbolEntry idx).1 := by
  simp only [Engine.callUpdateSymbolEntry]
  split
  · exact onlyCache_refl e
  · split_ifs
    · exact onlyCache_clearState e idx
    · exact onlyCache_refl e

/-! ## The result -/

/-- Every event of the threads keeps the fees of the published tables matched. -/
theorem feesMatch_step {s : EntryThreads} (event : EntryEvent)
    (h : FeesMatch s.engine.priceCache.transferSnapshot) :
    FeesMatch (s.step event).engine.priceCache.transferSnapshot := by
  cases event with
  | publish tables nowMs => exact feesMatch_finalizeWithdrawFees tables nowMs
  | ticker ticker nowMs => exact h
  | call id idx =>
    simp only [EntryThreads.step]
    split
    · rw [EntryThreads.goTo, (onlyCache_callUpdateSymbolEntry s.engine idx).priceCache]
      exact h
    · exact h
  | proceed id nowMs =>
    simp only [EntryThreads.step, EntryThreads.goTo]
    rw [(onlyCache_updateSymbolEntryStep s.engine nowMs (s.calls id)).priceCache]
    exact h

/-- A step of one call decides about this call alone. -/
theorem storesSoundly_goTo {s : EntryThreads} (h : StoresSoundly s) (id : ℕ)
    (r : Engine × EvaluationPhase) : StoresSoundly (s.goTo id r) ↔ SoundPhase r.2 := by
  unfold StoresSoundly EntryThreads.goTo
  rw [Function.forall_update_iff s.calls fun _ phase => SoundPhase phase]
  exact and_iff_left fun other _ => h other

/-- Only the last look-up leads to the stores. -/
theorem soundPhase_updateSymbolEntryStep (e : Engine) (nowMs : UInt64)
    (hfees : FeesMatch e.priceCache.transferSnapshot) (phase : EvaluationPhase) :
    SoundPhase (updateSymbolEntryStep e nowMs phase).2 ↔
      match phase with
      | .finalFee _ symbol best =>
        e.priceCache.isTransferRouteAvailable (best.route symbol) = true ∨
          (best.withFee 0).qualifies = false
      | _ => True := by
  cases phase with
  | finalFee idx symbol best =>
    simp only [updateSymbolEntryStep, SoundPhase, feeOfOpenRoute_iff hfees]
    cases hopen : e.priceCache.isTransferRouteAvailable (best.route symbol) with
    | true => simp
    | false => simp [getWithdrawFee_of_closed hfees hopen]
  | nextPair l =>
    simp only [updateSymbolEntryStep, iff_true]
    split
    · exact trivial
    · exact trivial
    · split_ifs <;> exact trivial
  | idle => exact iff_of_true trivial trivial
  | store idx symbol best snapshot => exact iff_of_true trivial trivial
  | withdrawFee l pair koreanPrice foreignPrice rate => exact iff_of_true trivial trivial
  | _ =>
    simp only [updateSymbolEntryStep, iff_true]
    split_ifs <;> exact trivial

/-- One event keeps the stored entries sound exactly where no route closed under it. -/
theorem storesSoundly_step {s : EntryThreads} (event : EntryEvent)
    (hfees : FeesMatch s.engine.priceCache.transferSnapshot) (h : StoresSoundly s) :
    StoresSoundly (s.step event) ↔ RouteStillOpen s event := by
  cases event with
  | publish tables nowMs => exact iff_of_true h trivial
  | ticker ticker nowMs => exact iff_of_true h trivial
  | call id idx =>
    refine iff_of_true ?_ trivial
    simp only [EntryThreads.step]
    split
    · refine (storesSoundly_goTo h id _).mpr ?_
      simp only [Engine.callUpdateSymbolEntry]
      split
      · exact trivial
      · split_ifs <;> exact trivial
    · exact h
  | proceed id nowMs =>
    exact (storesSoundly_goTo h id _).trans
      (soundPhase_updateSymbolEntryStep s.engine nowMs hfees (s.calls id))

/-- For every interleaving of evaluations, publications and tickers, every store of a qualified
entry rests on the fee of a route of its snapshot exactly if each last look-up still finds the route
or has a pair that fails the gate even without a fee. -/
theorem storesSoundly_iff (e : Engine) (tables : TransferTables) (publishedMs : UInt64)
    (events : List EntryEvent) :
    (∀ done, done <+: events →
        StoresSoundly (done.foldl EntryThreads.step (.start e tables publishedMs))) ↔
      Run.Along RouteStillOpen EntryThreads.step (.start e tables publishedMs) events := by
  have hrun := Run.throughout_iff
    (fun s : EntryThreads => FeesMatch s.engine.priceCache.transferSnapshot ∧ StoresSoundly s)
    (fun s event h =>
      ⟨fun h' => (storesSoundly_step event h.1 h.2).mp h'.2,
        fun hopen => ⟨feesMatch_step event h.1, (storesSoundly_step event h.1 h.2).mpr hopen⟩⟩)
    events (.start e tables publishedMs)
    ⟨feesMatch_finalizeWithdrawFees tables publishedMs, fun _ => trivial⟩
  rw [← hrun]
  refine forall₂_congr fun done _ => (and_iff_right ?_).symm
  refine List.foldlRecOn
    (motive := fun s : EntryThreads => FeesMatch s.engine.priceCache.transferSnapshot) done
    EntryThreads.step ?_ fun s h event _ => feesMatch_step event h
  exact feesMatch_finalizeWithdrawFees tables publishedMs

/-- Bithumb takes one AAA for its withdrawal to Bybit. -/
def chargedAAA : TransferTables :=
  runTransferCalls [.setWithdrawNetworkFees .bithumb "AAA".toList [⟨"ETH", 1⟩],
    .setForeignDepositNetworks .bybit "AAA".toList {"ETH"}]

/-- Both venues quote AAA. -/
def quotedAAA : Engine :=
  Engine.run .insertion .initial .initial
    [.addExchangePair .bithumb .bybit, .addSymbol (.of "AAA" "KRW"),
      .tickerUpdate ⟨1000, 1000⟩ (usdtTicker 1000),
      .tickerUpdate ⟨1100, 1100⟩ (foreignTicker "AAA" 1100),
      .tickerUpdate ⟨1100, 1100⟩ (koreanTicker "AAA" 1950 1100)]

/-- The loop has chosen its pair when tables without a network are published. -/
def routeTakenAway : List EntryEvent :=
  .call 0 0 :: List.replicate 7 (.proceed 0 1100) ++
    [.publish {} 1100, .proceed 0 1100]

/-- AAA misses the gate at its fee, and qualifies at the fee of a route that is gone. -/
theorem unsound_routeTakenAway :
    ¬ ∀ (e : Engine) (tables : TransferTables) (publishedMs : UInt64) (events : List EntryEvent),
      ∀ done, done <+: events →
        StoresSoundly (done.foldl EntryThreads.step (.start e tables publishedMs)) := by
  intro h
  have hsound := h quotedAAA chargedAAA 1000 routeTakenAway routeTakenAway (List.prefix_refl _) 0
  have hunsound : ¬ SoundPhase ((routeTakenAway.foldl EntryThreads.step
      (.start quotedAAA chargedAAA 1000)).calls 0) := by
    decide +kernel
  exact hunsound hsound

end SpotRelay.Analysis
