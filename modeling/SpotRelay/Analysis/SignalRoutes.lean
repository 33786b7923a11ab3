import SpotRelay.Analysis.RouteRefresh
import SpotRelay.Analysis.SignalEpisodes
import SpotRelay.Analysis.SignalFreshness

/-!
# The routes of the entry signals

An entry is qualified over a route that was open when it was recomputed.  A refresh publishes its
routes first and recomputes the entries after; between the two a scan may still signal an entry over
a route that the refresh has closed.  Once the refresh is over every signal goes over a route that
is open by the last answers of its venues.

* **the published snapshot** allows only routes that were said to be open (`saidOpen_of_published`).
* **a run** keeps the routes of the entries within what was published since their recomputation
  (`programSound_run`).
-/

set_option autoImplicit false

namespace SpotRelay.Analysis

open SpotRelay.Model

/-! ## The entries of the engine -/

section Entries

/-- The route of an entry is one of the allowed ones, for its symbol and over one of the pairs. -/
structure EntryRoute (allowed : Route → Prop) (e : Engine) (i : ℕ) (entry : CachedEntryPremium) :
    Prop where
  symbol : ∃ symbol, e.symbols.symbols[i]? = some symbol ∧
    allowed (entry.bestKoreanExchange, entry.bestForeignExchange, symbol.base)
  pair : ∃ pair ∈ e.exchangePairs,
    pair.korean = entry.bestKoreanExchange ∧ pair.foreign = entry.bestForeignExchange

/-- All routes of the snapshot and of the qualified entries are allowed. -/
structure RoutesWithin (allowed : Route → Prop) (e : Engine) : Prop where
  flags : ∀ i, FlagsAgree e i
  snapshot : ∀ route, e.priceCache.isTransferRouteAvailable route = true → allowed route
  entries : ∀ i, (e.entryCache i).qualified = true → EntryRoute allowed e i (e.entryCache i)

variable {allowed : Route → Prop} {e e' : Engine} {i idx : ℕ} {entry : CachedEntryPremium}

/-- Symbols keep their indexes, pairs their venues, and no routes are published. -/
structure KeepsRoutes (e e' : Engine) : Prop where
  symbols : ∀ (i : ℕ) (symbol : SymbolId), e.symbols.symbols[i]? = some symbol →
    e'.symbols.symbols[i]? = some symbol
  pairs : ∀ pair ∈ e.exchangePairs,
    ∃ pair' ∈ e'.exchangePairs, pair'.korean = pair.korean ∧ pair'.foreign = pair.foreign
  snapshot : e'.priceCache.transferSnapshot = e.priceCache.transferSnapshot

/-- Symbols, pairs and published routes are the same. -/
structure SameRoutes (e e' : Engine) : Prop where
  symbols : e'.symbols = e.symbols
  exchangePairs : e'.exchangePairs = e.exchangePairs
  snapshot : e'.priceCache.transferSnapshot = e.priceCache.transferSnapshot

/-- Two steps that leave the routes do so together. -/
theorem SameRoutes.trans {e'' : Engine} (h : SameRoutes e e') (h' : SameRoutes e' e'') :
    SameRoutes e e'' where
  symbols := h'.symbols.trans h.symbols
  exchangePairs := h'.exchangePairs.trans h.exchangePairs
  snapshot := h'.snapshot.trans h.snapshot

/-- Engines with the same routes keep what is said of entries. -/
theorem SameRoutes.keeps (h : SameRoutes e e') : KeepsRoutes e e' := by
  refine ⟨fun i symbol hget => h.symbols ▸ hget, ?_, h.snapshot⟩
  intro pair hpair
  exact ⟨pair, h.exchangePairs ▸ hpair, rfl, rfl⟩

/-- A step on the entry cache alone leaves the routes. -/
theorem OnlyCache.sameRoutes (h : OnlyCache e e') : SameRoutes e e' :=
  ⟨h.symbols, h.exchangePairs, by rw [h.priceCache]⟩

/-- A rate update leaves the routes. -/
theorem sameRoutes_onUsdtUpdate (ex : Exchange) (price : ℚ) :
    SameRoutes e (e.onUsdtUpdate ex price) := by
  simp only [Engine.onUsdtUpdate]
  split_ifs
  · exact ⟨rfl, rfl, rfl⟩
  · exact ⟨rfl, rfl, rfl⟩
  · refine ⟨rfl, rfl, ?_⟩
    cases ex <;> rfl

/-- What a ticker update does before its scan leaves the routes. -/
theorem sameRoutes_beforeScan (clock : Engine.Clock) (ticker : Ticker) :
    SameRoutes e (beforeScan clock ticker e).1 := by
  have hprice : SameRoutes e { e with priceCache := e.priceCache.update ticker clock.quotesMs } :=
    ⟨rfl, rfl, rfl⟩
  refine hprice.trans ?_
  simp only [beforeScan]
  generalize { e with priceCache := e.priceCache.update ticker clock.quotesMs } = e
  have hall := (sameRoutes_onUsdtUpdate (e := e) ticker.exchange (Engine.usdtPrice ticker)).trans
    (onlyCache_updateAllEntries _ clock.quotesMs).sameRoutes
  split_ifs
  · exact hall.trans ⟨rfl, rfl, rfl⟩
  · exact hall
  · cases e.tickerIndex ticker with
    | none => exact ⟨rfl, rfl, rfl⟩
    | some idx =>
      have hone := (onlyCache_updateSymbolEntry e idx clock.quotesMs).sameRoutes
      simp only
      split_ifs
      · exact hone
      · exact hone.trans ⟨rfl, rfl, rfl⟩
      · exact hone

/-- The route of an entry stays allowed while the cache keeps what it read. -/
theorem EntryRoute.keeps (h : EntryRoute allowed e i entry) (hkeeps : KeepsRoutes e e') :
    EntryRoute allowed e' i entry := by
  obtain ⟨⟨symbol, hget, hallowed⟩, pair, hpair, hkorean, hforeign⟩ := h
  refine ⟨⟨symbol, hkeeps.symbols i symbol hget, hallowed⟩, ?_⟩
  obtain ⟨pair', hpair', hkorean', hforeign'⟩ := hkeeps.pairs pair hpair
  exact ⟨pair', hpair', hkorean'.trans hkorean, hforeign'.trans hforeign⟩

/-- The snapshot is within the allowed routes if it was before and has not changed. -/
theorem snapshot_within_of_eq (h : RoutesWithin allowed e)
    (hsnapshot : e'.priceCache.transferSnapshot = e.priceCache.transferSnapshot) (route : Route)
    (havailable : e'.priceCache.isTransferRouteAvailable route = true) : allowed route := by
  apply h.snapshot route
  rw [PriceCache.isTransferRouteAvailable, hsnapshot] at havailable
  exact havailable

/-- All routes stay within the allowed ones where cache and routes are kept. -/
theorem RoutesWithin.congr (h : RoutesWithin allowed e) (hsame : SameCache e e')
    (hkeeps : KeepsRoutes e e') : RoutesWithin allowed e' where
  flags i := (h.flags i).congr hsame
  snapshot := snapshot_within_of_eq h hkeeps.snapshot
  entries i hqualified := by
    rw [hsame.entryCache] at hqualified ⊢
    exact (h.entries i hqualified).keeps hkeeps

/-- The best pair of a symbol is one of the pairs, and its route is available. -/
theorem route_of_bestPair {nowMs : UInt64} {symbol : SymbolId} {best : Engine.PairQuote}
    (h : e.bestPair nowMs symbol = some best) :
    e.priceCache.isTransferRouteAvailable (best.korean, best.foreign, symbol.base) = true ∧
      ∃ pair ∈ e.exchangePairs, pair.korean = best.korean ∧ pair.foreign = best.foreign := by
  obtain ⟨pair, hpair, hquote⟩ := exists_pairQuote_of_bestPair h
  obtain ⟨heligible, rfl⟩ := pairQuote_eq_some_iff.mp hquote
  exact ⟨heligible.route, pair, hpair, rfl, rfl⟩

/-- The recomputation of a monitored symbol leaves an entry over an available route. -/
theorem entryRoute_updateSymbolEntry (nowMs : UInt64) {symbol : SymbolId}
    (hget : e.symbols.symbols[idx]? = some symbol)
    (hallowed : ∀ route, e.priceCache.isTransferRouteAvailable route = true → allowed route)
    (hqualified : ((e.updateSymbolEntry nowMs idx).entryCache idx).qualified = true) :
    EntryRoute allowed e idx ((e.updateSymbolEntry nowMs idx).entryCache idx) := by
  have hcleared : ((e.clearState idx).entryCache idx).qualified = false := by
    simp only [Engine.clearState, entryCache_sync]
    split_ifs with hold
    · simp [Engine.setEntry]
    · simp only [Bool.or_eq_true, not_or, Bool.not_eq_true] at hold
      exact hold.1
  unfold Engine.updateSymbolEntry at hqualified ⊢
  simp only [hget] at hqualified ⊢
  split_ifs at hqualified ⊢ with hpairs
  · rw [hcleared] at hqualified
    cases hqualified
  · cases hbest : e.bestPair nowMs symbol with
    | none =>
      simp only [hbest] at hqualified
      rw [hcleared] at hqualified
      cases hqualified
    | some best =>
      obtain ⟨havailable, hpair⟩ := route_of_bestPair hbest
      simp only [Engine.storeQualification, entryCache_sync, Engine.setEntry, if_true]
      exact ⟨⟨symbol, hget, hallowed _ havailable⟩, hpair⟩

/-- The recomputation of an entry keeps them within. -/
theorem routesWithin_updateSymbolEntry (nowMs : UInt64) (h : RoutesWithin allowed e) :
    RoutesWithin allowed (e.updateSymbolEntry nowMs idx) := by
  have hkeeps := (onlyCache_updateSymbolEntry e idx nowMs).sameRoutes.keeps
  refine ⟨flagsAgree_updateSymbolEntry e idx nowMs h.flags,
    snapshot_within_of_eq h hkeeps.snapshot, ?_⟩
  intro i hqualified
  by_cases hi : i = idx
  · subst hi
    cases hget : e.symbols.symbols[i]? with
    | none =>
      have hsame : e.updateSymbolEntry nowMs i = e := by
        unfold Engine.updateSymbolEntry
        rw [hget]
      rw [hsame] at hqualified ⊢
      exact h.entries i hqualified
    | some symbol =>
      exact (entryRoute_updateSymbolEntry nowMs hget h.snapshot hqualified).keeps hkeeps
  · rw [entryCache_updateSymbolEntry_of_ne e nowMs hi] at hqualified ⊢
    exact (h.entries i hqualified).keeps hkeeps

/-- The recomputation of all entries keeps them within. -/
theorem routesWithin_updateAllEntries (nowMs : UInt64) (h : RoutesWithin allowed e) :
    RoutesWithin allowed (e.updateAllEntries nowMs) :=
  updateAllEntries_invariant (I := RoutesWithin allowed) e
    (fun _ nowMs _ he => routesWithin_updateSymbolEntry nowMs he) nowMs h

/-- A scan marks entries and leaves their routes. -/
theorem routesWithin_fireEntryFromCache (std : StdSort) (maxPositions : MaxPositions)
    (scanMs : UInt64) (h : RoutesWithin allowed e) :
    RoutesWithin allowed (Engine.fireEntryFromCache std maxPositions e scanMs).1 := by
  obtain ⟨honly, hcache, -⟩ := fireEntryFromCache_spec std maxPositions e scanMs h.flags
  refine ⟨flagsAgree_fireEntryFromCache e std maxPositions scanMs h.flags,
    snapshot_within_of_eq h honly.sameRoutes.snapshot, ?_⟩
  intro i hqualified
  rw [hcache i] at hqualified ⊢
  unfold firedEntry at hqualified ⊢
  split_ifs at hqualified ⊢
  · exact (h.entries i hqualified).keeps honly.sameRoutes.keeps
  · obtain ⟨hsymbol, hpair⟩ := (h.entries i hqualified).keeps honly.sameRoutes.keeps
    exact ⟨hsymbol, hpair⟩
  · exact (h.entries i hqualified).keeps honly.sameRoutes.keeps

/-- A rate update keeps them within. -/
theorem routesWithin_onUsdtUpdate (ex : Exchange) (price : ℚ) (h : RoutesWithin allowed e) :
    RoutesWithin allowed (e.onUsdtUpdate ex price) :=
  h.congr (sameCache_onUsdtUpdate e ex price) (sameRoutes_onUsdtUpdate ex price).keeps

/-- What precedes a scan keeps them within. -/
theorem routesWithin_beforeScan (clock : Engine.Clock) (ticker : Ticker)
    (h : RoutesWithin allowed e) : RoutesWithin allowed (beforeScan clock ticker e).1 := by
  have hprice :
      RoutesWithin allowed { e with priceCache := e.priceCache.update ticker clock.quotesMs } :=
    h.congr ⟨rfl, rfl, rfl⟩ (SameRoutes.keeps ⟨rfl, rfl, rfl⟩)
  simp only [beforeScan]
  generalize { e with priceCache := e.priceCache.update ticker clock.quotesMs } = e at hprice ⊢
  have hall := routesWithin_updateAllEntries clock.quotesMs
    (routesWithin_onUsdtUpdate ticker.exchange (Engine.usdtPrice ticker) hprice)
  split_ifs
  · exact hall.congr ⟨rfl, rfl, rfl⟩ (SameRoutes.keeps ⟨rfl, rfl, rfl⟩)
  · exact hall
  · cases e.tickerIndex ticker with
    | none => exact hprice
    | some idx =>
      have hone : RoutesWithin allowed (e.updateSymbolEntry clock.quotesMs idx) :=
        routesWithin_updateSymbolEntry clock.quotesMs hprice
      simp only
      split_ifs
      · exact hone
      · exact hone.congr ⟨rfl, rfl, rfl⟩ (SameRoutes.keeps ⟨rfl, rfl, rfl⟩)
      · exact hone

variable (std : StdSort) (maxPositions : MaxPositions)

/-- The operations of feeds and loops. -/
theorem routesWithin_step (op : Engine.Op) (hop : ∀ snapshot, op ≠ .publishTransfers snapshot)
    (h : RoutesWithin allowed e) : RoutesWithin allowed (e.step std maxPositions op).1 := by
  cases op with
  | addSymbol symbol =>
    refine h.congr ⟨rfl, rfl, rfl⟩ ⟨?_, fun pair hpair => ⟨pair, hpair, rfl, rfl⟩, rfl⟩
    exact fun i other hget => getElem?_step e std maxPositions (.addSymbol symbol) h.flags hget
  | addExchangePair korean foreign =>
    refine h.congr ⟨rfl, rfl, rfl⟩ ⟨fun _ _ hget => hget, ?_, rfl⟩
    exact fun pair hpair => ⟨pair, List.mem_append_left _ hpair, rfl, rfl⟩
  | setExchangePairEntryEnabled korean foreign enabled =>
    refine h.congr ⟨rfl, rfl, rfl⟩ ⟨fun _ _ hget => hget, ?_, rfl⟩
    intro pair hpair
    refine ⟨_, List.mem_map_of_mem hpair, ?_⟩
    unfold Engine.setPairEnabled
    split <;> exact ⟨rfl, rfl⟩
  | tickerUpdate clock ticker =>
    have hbefore := routesWithin_beforeScan clock ticker h
    simp only [Engine.step, onTickerUpdate_eq]
    split_ifs
    · exact routesWithin_fireEntryFromCache std maxPositions clock.scanMs hbefore
    · exact hbefore
  | usdtUpdate ex price => exact routesWithin_onUsdtUpdate ex price h
  | publishTransfers snapshot => exact absurd rfl (hop snapshot)
  | refreshEntryFilters nowMs => exact routesWithin_updateAllEntries nowMs h
  | positionsChange tracker => exact h.congr ⟨rfl, rfl, rfl⟩ (SameRoutes.keeps ⟨rfl, rfl, rfl⟩)
  | setEntrySuppressed suppressed =>
    exact h.congr ⟨rfl, rfl, rfl⟩ (SameRoutes.keeps ⟨rfl, rfl, rfl⟩)

/-- The route of a signal. -/
def signalRoute (em : Engine.Emission) : Route :=
  (em.signal.koreanExchange, em.signal.foreignExchange, em.signal.symbol.base)

/-- What a scan signals, it signals over an allowed route and over one of the pairs. -/
theorem route_of_scan (scanMs : UInt64) (h : RoutesWithin allowed e) {em : Engine.Emission}
    (hem : em ∈ (Engine.fireEntryFromCache std maxPositions e scanMs).2) :
    allowed (signalRoute em) ∧ ∃ pair ∈ e.exchangePairs,
      pair.korean = em.signal.koreanExchange ∧ pair.foreign = em.signal.foreignExchange := by
  rw [(fireEntryFromCache_spec std maxPositions e scanMs h.flags).2.2] at hem
  obtain ⟨idx, hidx, hemit⟩ := List.mem_filterMap.mp hem
  have hfires := fires_of_mem_scanIndices std maxPositions e h.flags hidx
  obtain ⟨⟨symbol, hget, hallowed⟩, hpair⟩ := h.entries idx hfires.qualified
  rw [scanEmission, hget] at hemit
  obtain rfl := Option.some.inj hemit
  exact ⟨hallowed, hpair⟩

/-- The signals of an operation. -/
theorem route_of_step (op : Engine.Op) (h : RoutesWithin allowed e) {em : Engine.Emission}
    (hem : em ∈ (e.step std maxPositions op).2) :
    allowed (signalRoute em) ∧ ∃ pair ∈ e.exchangePairs,
      pair.korean = em.signal.koreanExchange ∧ pair.foreign = em.signal.foreignExchange := by
  cases op with
  | tickerUpdate clock ticker =>
    have hbefore := routesWithin_beforeScan clock ticker h
    simp only [Engine.step, onTickerUpdate_eq] at hem
    split_ifs at hem
    · have hroute := route_of_scan std maxPositions clock.scanMs hbefore hem
      rwa [(sameRoutes_beforeScan clock ticker).exchangePairs] at hroute
    · cases hem
  | _ => cases hem

/-- Recomputing a list of symbols brings each of their entries within the routes of the snapshot. -/
theorem entryRoute_foldl_updateSymbolEntry (nowMs : UInt64) {symbol : SymbolId}
    (hget : e.symbols.symbols[i]? = some symbol)
    (hallowed : ∀ route, e.priceCache.isTransferRouteAvailable route = true → allowed route)
    (idxs : List ℕ) (hi : i ∈ idxs ∨
      ((e.entryCache i).qualified = true → EntryRoute allowed e i (e.entryCache i))) :
    let e' := idxs.foldl (fun e idx => e.updateSymbolEntry nowMs idx) e
    (e'.entryCache i).qualified = true → EntryRoute allowed e' i (e'.entryCache i) := by
  induction idxs generalizing e with
  | nil => exact hi.resolve_left List.not_mem_nil
  | cons idx idxs ih =>
    have honly := onlyCache_updateSymbolEntry e idx nowMs
    refine ih (e := e.updateSymbolEntry nowMs idx) (by rw [honly.symbols]; exact hget)
      (by rw [honly.priceCache]; exact hallowed) ?_
    by_cases hlater : i ∈ idxs
    · exact .inl hlater
    · right
      intro hqualified
      by_cases hidx : i = idx
      · subst hidx
        exact (entryRoute_updateSymbolEntry nowMs hget hallowed hqualified).keeps
          honly.sameRoutes.keeps
      · have hold := hi.resolve_left fun hmem =>
          (List.mem_cons.mp hmem).elim hidx hlater
        rw [entryCache_updateSymbolEntry_of_ne e nowMs hidx] at hqualified ⊢
        exact (hold hqualified).keeps honly.sameRoutes.keeps

/-- After a recomputation of all entries none is left over a route of an older snapshot. -/
theorem routesWithin_snapshot (nowMs : UInt64) (h : RoutesWithin allowed e) :
    RoutesWithin (fun route => e.priceCache.isTransferRouteAvailable route = true)
      (e.updateAllEntries nowMs) := by
  have hall := routesWithin_updateAllEntries nowMs h
  have honly := onlyCache_updateAllEntries e nowMs
  refine ⟨hall.flags, fun route havailable => honly.priceCache ▸ havailable, ?_⟩
  intro i hqualified
  obtain ⟨⟨symbol, hget, -⟩, -⟩ := hall.entries i hqualified
  rw [honly.symbols] at hget
  have hi : i ∈ List.range e.symbols.symbols.length :=
    List.mem_range.mpr (List.getElem?_eq_some_iff.mp hget).1
  exact entryRoute_foldl_updateSymbolEntry nowMs hget (fun _ havailable => havailable) _
    (.inl hi) hqualified

end Entries

/-! ## What the venues have said -/

section Said

variable (switches : VenueSwitches) (startup : CoinMap (List NetworkFee))
  (history : List RouteAnswers)

/-- The fees of the networks that the last answers of the two venues share. -/
def saidFees (route : Route) : Set ℚ :=
  {fee | ∃ nf ∈ ((knownFees switches startup history route.1).lookup route.2.2).getD [],
    normalizeChain nf.network ∈
        (((knownNetworks switches history route.2.1).lookup route.2.2).getD ∅).image
          normalizeChain ∧
      nf.feeCoins = fee}

/-- The last answers share a network, and none of them forbids the withdrawal. -/
def SaidOpen (route : Route) : Prop :=
  (saidFees switches startup history route).Nonempty ∧
    (knownStatuses history route.1).lookup route.2.2 ≠ some false

/-- The calls of all refreshes share the fees that the venues have said. -/
theorem latestSharedFees_refreshCalls (route : Route) :
    latestSharedFees route.1 route.2.1 route.2.2 (refreshCalls switches startup history) =
      saidFees switches startup history route := by
  unfold latestSharedFees saidFees
  rw [latestFees_refreshCalls, latestNets_refreshCalls]

/-- An available route shares a network and is not switched off, whatever the fees are. -/
theorem shared_of_available {t : TransferTables} {nowMs : UInt64} {key : Route}
    (h : (t.route nowMs key).available = true) :
    (TransferTables.shared t key).Nonempty ∧
      t.koreanWithdrawEnabled.find key.1 key.2.2 ≠ some false := by
  unfold TransferTables.shared
  simp only [TransferTables.route, TransferTables.getWithdrawFeeLocked] at h
  split_ifs at h with hclosed hfee
  simp only [Bool.or_eq_true, Bool.not_eq_true', not_or, Bool.not_eq_false, Bool.and_eq_true]
    at hclosed
  constructor
  · obtain hmax | ⟨nf, hnf, hnet, hcheapest⟩ := foldl_cheaper_mem
      ((t.foreignDepositNets.find key.2.1 key.2.2).getD ∅)
      ((t.withdrawNetworkFees.find key.1 key.2.2).getD []) (doubleMax, "")
    · change (TransferTables.cheapestNetwork _ _).1 = doubleMax at hmax
      rw [hmax] at hfee
      exact absurd hfee (lt_irrefl doubleMax)
    · exact ⟨_, nf, hnf, hnet, hcheapest⟩
  · intro hoff
    have henabled := hclosed.1.2
    rw [hoff] at henabled
    cases henabled

/-- The routes of the snapshot that the refreshes of `history` leave. -/
theorem saidOpen_of_available {c : PriceCache} {nowMs : UInt64} {route : Route}
    (hsnapshot : c.transferSnapshot =
      (runTransferCalls (refreshCalls switches startup history)).finalizeWithdrawFees nowMs)
    (h : c.isTransferRouteAvailable route = true) : SaidOpen switches startup history route := by
  have havailable : ((runTransferCalls (refreshCalls switches startup history)).route nowMs
      route).available = true := by
    rw [← isTransferRouteAvailable_publish c]
    · rw [PriceCache.isTransferRouteAvailable, hsnapshot] at h
      exact h
    · intro havailable
      exact mem_routeKeys (shared_of_available havailable).1
  obtain ⟨hshared, hflag⟩ := shared_of_available havailable
  rw [find_koreanWithdrawEnabled, latestEnabled_refreshCalls] at hflag
  obtain ⟨koreanEx, foreignEx, coin⟩ := route
  rw [shared_runTransferCalls] at hshared
  have hsaid := latestSharedFees_refreshCalls switches startup history (koreanEx, foreignEx, coin)
  exact ⟨hsaid ▸ hshared, hflag⟩

end Said

/-! ## The program -/

section Program

variable {startup : CoinMap (List NetworkFee)} {p : RouteProgram}

/-- Some refresh had an answer that was not empty. -/
def AnyUpdate (switches : VenueSwitches) (history : List RouteAnswers) : Prop :=
  ∃ answers ∈ history, answers.updatedAny switches = true

/-- A snapshot that no refresh has published yet, or the one that the refreshes of `history`
leave. -/
def RoutesPublished (switches : VenueSwitches) (startup : CoinMap (List NetworkFee))
    (history : List RouteAnswers) (snapshot : TransferSnapshot) : Prop :=
  (snapshot = {} ∧ ¬ AnyUpdate switches history) ∨
    (AnyUpdate switches history ∧ ∃ nowMs, snapshot =
      (runTransferCalls (refreshCalls switches startup history)).finalizeWithdrawFees nowMs)

/-- What a snapshot says of a route. -/
def snapshotAllows (snapshot : TransferSnapshot) (route : Route) : Prop :=
  ({ PriceCache.empty with transferSnapshot := snapshot } : PriceCache).isTransferRouteAvailable
    route = true

/-- The tables and the snapshots are what the refreshes left. -/
structure TablesSound (startup : CoinMap (List NetworkFee)) (p : RouteProgram) : Prop where
  tables : p.tables = runTransferCalls (refreshCalls p.switches startup p.answers)
  current : RoutesPublished p.switches startup p.answers p.engine.priceCache.transferSnapshot
  previous : p.refreshing = true → RoutesPublished p.switches startup p.settled p.previous
  settled : p.refreshing = false → p.settled = p.answers

/-- The routes over which an entry may stand: while a refresh is under way, those of the snapshot
before it too. -/
def liveRoutes (p : RouteProgram) (route : Route) : Prop :=
  snapshotAllows p.engine.priceCache.transferSnapshot route ∨
    (p.refreshing = true ∧ snapshotAllows p.previous route)

/-- An answer of which no map has an entry changes no table. -/
theorem calls_of_not_updated {switches : VenueSwitches} {answers : RouteAnswers}
    (h : answers.updatedAny switches = false) : answers.calls switches = [] := by
  simp only [RouteAnswers.updatedAny, Bool.or_eq_false_iff, Bool.not_eq_false',
    List.isEmpty_iff, Bool.and_eq_false_iff] at h
  obtain ⟨⟨⟨⟨hfees, hstatuses⟩, hupbit⟩, hbybit⟩, hokx⟩ := h
  simp only [RouteAnswers.calls, feeCalls, statusCalls, networkCalls, replaceCalls, hfees,
    hstatuses, hbybit, if_true, List.nil_append, List.append_eq_nil_iff]
  constructor
  · rcases hupbit with hoff | hempty
    · rw [if_neg (by rw [hoff]; exact Bool.false_ne_true)]
    · rw [if_pos hempty, ite_self]
  · rcases hokx with hoff | hempty
    · rw [if_neg (by rw [hoff]; exact Bool.false_ne_true)]
    · rw [if_pos hempty, ite_self]

/-- A refresh adds the calls of its answers. -/
theorem refreshCalls_concat (switches : VenueSwitches) (history : List RouteAnswers)
    (answers : RouteAnswers) : refreshCalls switches startup (history ++ [answers]) =
      refreshCalls switches startup history ++ answers.calls switches := by
  rw [refreshCalls, refreshCalls, List.flatMap_append, List.flatMap_singleton, List.append_assoc]

/-- Answers that update no table leave the snapshot that of all answers. -/
theorem routesPublished_concat {switches : VenueSwitches} {history : List RouteAnswers}
    {snapshot : TransferSnapshot} {answers : RouteAnswers}
    (h : RoutesPublished switches startup history snapshot)
    (hempty : answers.updatedAny switches = false) :
    RoutesPublished switches startup (history ++ [answers]) snapshot := by
  rcases h with ⟨hnone, hold⟩ | ⟨⟨given, hgiven, hupdated⟩, nowMs, hsnapshot⟩
  · refine .inl ⟨hnone, ?_⟩
    rintro ⟨given, hgiven, hupdated⟩
    rcases List.mem_append.mp hgiven with hbefore | hnew
    · exact hold ⟨given, hbefore, hupdated⟩
    · rw [List.mem_singleton.mp hnew, hempty] at hupdated
      cases hupdated
  · refine .inr ⟨⟨given, List.mem_append_left _ hgiven, hupdated⟩, nowMs, ?_⟩
    rw [refreshCalls_concat, calls_of_not_updated hempty, List.append_nil, hsnapshot]

/-- The tables of the start hold the fees of start-up. -/
theorem tablesSound_start (switches : VenueSwitches) :
    TablesSound startup (.start switches startup) where
  tables := by
    rw [refreshCalls]
    exact (congrArg runTransferCalls (List.append_nil _)).symm
  current := .inl ⟨rfl, fun ⟨_, h, _⟩ => absurd h List.not_mem_nil⟩
  previous := fun hbusy => by cases hbusy
  settled := fun _ => rfl

/-- A refresh leaves tables that hold all answers so far. -/
theorem tablesSound_refresh (answers : RouteAnswers) (nowMs : UInt64) (h : TablesSound startup p) :
    TablesSound startup (p.refresh answers nowMs) := by
  simp only [RouteProgram.refresh]
  split_ifs with hbusy hupdated
  · exact h
  · have hsettled := h.settled (by simpa using hbusy)
    have htables : (answers.calls p.switches).foldl TransferTables.call p.tables =
        runTransferCalls (refreshCalls p.switches startup (p.answers ++ [answers])) := by
      rw [refreshCalls_concat, runTransferCalls, List.foldl_append, h.tables]
      rfl
    refine ⟨htables, .inr ⟨⟨answers, by simp, hupdated⟩, nowMs, ?_⟩, fun _ => ?_,
      fun hidle => absurd hidle.symm Bool.false_ne_true⟩
    · rw [← htables]
      rfl
    · rw [hsettled]
      exact h.current
  · have hempty : answers.updatedAny p.switches = false := Bool.eq_false_iff.mpr hupdated
    refine ⟨?_, routesPublished_concat h.current hempty, fun hold => absurd hold hbusy,
      fun _ => rfl⟩
    rw [refreshCalls_concat, calls_of_not_updated hempty, List.append_nil]
    exact h.tables

/-- What every state of a run satisfies. -/
structure ProgramSound (startup : CoinMap (List NetworkFee)) (p : RouteProgram) : Prop where
  tables : TablesSound startup p
  routes : RoutesWithin (liveRoutes p) p.engine

/-- The program is sound at its start. -/
theorem programSound_start (switches : VenueSwitches) :
    ProgramSound startup (.start switches startup) where
  tables := tablesSound_start switches
  routes := by
    refine ⟨flagsAgree_initial, ?_, fun i hqualified => by cases hqualified⟩
    exact fun route havailable => .inl havailable

/-- A refresh keeps it sound: what it publishes is what the venues have said. -/
theorem programSound_refresh (answers : RouteAnswers) (nowMs : UInt64)
    (h : ProgramSound startup p) : ProgramSound startup (p.refresh answers nowMs) := by
  refine ⟨tablesSound_refresh answers nowMs h.tables, ?_⟩
  simp only [RouteProgram.refresh]
  split_ifs with hbusy
  · exact h.routes
  · refine ⟨fun i => (h.routes.flags i).congr ⟨rfl, rfl, rfl⟩,
      fun route havailable => .inl havailable, ?_⟩
    intro i hqualified
    obtain ⟨⟨symbol, hget, hlive⟩, hpair⟩ := h.routes.entries i hqualified
    -- no refresh was under way: the route is one of the snapshot that is replaced
    exact ⟨⟨symbol, hget, .inr ⟨rfl, hlive.resolve_right fun hold => hbusy hold.1⟩⟩, hpair⟩
  · exact h.routes

/-- The recomputation behind a refresh keeps it sound. -/
theorem programSound_refilter (nowMs : UInt64) (h : ProgramSound startup p) :
    ProgramSound startup (p.refilter nowMs) := by
  unfold RouteProgram.refilter
  split_ifs with hbusy
  · have honly := onlyCache_updateAllEntries p.engine nowMs
    have hroutes := routesWithin_snapshot nowMs h.routes
    refine ⟨⟨h.tables.tables, ?_, fun hold => absurd hold Bool.false_ne_true, fun _ => rfl⟩,
      hroutes.flags, ?_, ?_⟩
    · rw [honly.priceCache]
      exact h.tables.current
    · exact fun route havailable => .inl havailable
    · intro i hqualified
      obtain ⟨⟨symbol, hget, havailable⟩, hpair⟩ := hroutes.entries i hqualified
      refine ⟨⟨symbol, hget, .inl ?_⟩, hpair⟩
      rw [honly.priceCache]
      exact havailable
  · exact h

variable (std : StdSort) (maxPositions : MaxPositions)

/-- No engine operation besides the publication changes the snapshot. -/
theorem snapshot_step (op : Engine.Op) (hop : ∀ snapshot, op ≠ .publishTransfers snapshot)
    (h : ∀ i, FlagsAgree p.engine i) :
    (p.engine.step std maxPositions op).1.priceCache.transferSnapshot =
      p.engine.priceCache.transferSnapshot := by
  cases op with
  | tickerUpdate clock ticker =>
    have hbefore := sameRoutes_beforeScan (e := p.engine) clock ticker
    simp only [Engine.step, onTickerUpdate_eq]
    split_ifs
    · have hflags := flagsAgree_beforeScan p.engine clock ticker h
      rw [(fireEntryFromCache_spec std maxPositions _ clock.scanMs hflags).1.priceCache]
      exact hbefore.snapshot
    · exact hbefore.snapshot
  | usdtUpdate ex price => exact (sameRoutes_onUsdtUpdate ex price).snapshot
  | publishTransfers snapshot => exact absurd rfl (hop snapshot)
  | refreshEntryFilters nowMs =>
    exact (onlyCache_updateAllEntries p.engine nowMs).sameRoutes.snapshot
  | addSymbol symbol => rfl
  | addExchangePair korean foreign => rfl
  | setExchangePairEntryEnabled korean foreign enabled => rfl
  | positionsChange tracker => rfl
  | setEntrySuppressed suppressed => rfl

/-- An engine operation keeps the program sound. -/
theorem programSound_engineOp (op : Engine.Op) (hop : ∀ snapshot, op ≠ .publishTransfers snapshot)
    (h : ProgramSound startup p) :
    ProgramSound startup { p with engine := (p.engine.step std maxPositions op).1 } := by
  have hsnapshot := snapshot_step std maxPositions op hop h.routes.flags
  refine ⟨⟨h.tables.tables, ?_, h.tables.previous, h.tables.settled⟩, ?_⟩
  · change RoutesPublished _ _ _ (p.engine.step std maxPositions op).1.priceCache.transferSnapshot
    rw [hsnapshot]
    exact h.tables.current
  · have hlive : liveRoutes { p with engine := (p.engine.step std maxPositions op).1 } =
        liveRoutes p := by
      funext route
      simp only [liveRoutes, hsnapshot]
    rw [hlive]
    exact routesWithin_step std maxPositions op hop h.routes

/-- An engine operation is a step of the engine. -/
theorem step_engineOp (op : Engine.Op) (hop : ∀ snapshot, op ≠ .publishTransfers snapshot) :
    p.step std maxPositions (.engineOp op) =
      ({ p with engine := (p.engine.step std maxPositions op).1 },
        (p.engine.step std maxPositions op).2) := by
  cases op with
  | publishTransfers snapshot => exact absurd rfl (hop snapshot)
  | _ => rfl

/-- Every event keeps the program sound. -/
theorem programSound_step (event : RouteEvent) (h : ProgramSound startup p) :
    ProgramSound startup (p.step std maxPositions event).1 := by
  cases event with
  | refresh answers nowMs => exact programSound_refresh answers nowMs h
  | refilter nowMs => exact programSound_refilter nowMs h
  | engineOp op =>
    by_cases hop : ∀ snapshot, op ≠ .publishTransfers snapshot
    · rw [step_engineOp std maxPositions op hop]
      exact programSound_engineOp std maxPositions op hop h
    · push Not at hop
      obtain ⟨snapshot, rfl⟩ := hop
      exact h

/-- The program is sound in every state of a run. -/
theorem programSound_run (switches : VenueSwitches) (startup : CoinMap (List NetworkFee))
    (events : List RouteEvent) :
    ProgramSound startup ((RouteProgram.start switches startup).run std maxPositions events) := by
  refine List.foldlRecOn (motive := ProgramSound startup) events _ (programSound_start switches) ?_
  exact fun p h event _ => programSound_step std maxPositions event h

/-- The venues that are switched on stay the same. -/
theorem switches_run (switches : VenueSwitches) (events : List RouteEvent) :
    ((RouteProgram.start switches startup).run std maxPositions events).switches = switches := by
  refine List.foldlRecOn (motive := fun p : RouteProgram => p.switches = switches) events _ rfl ?_
  intro p h event _
  cases event with
  | refresh answers nowMs =>
    simp only [RouteProgram.step, RouteProgram.refresh]
    split_ifs <;> exact h
  | refilter nowMs =>
    simp only [RouteProgram.step, RouteProgram.refilter]
    split_ifs <;> exact h
  | engineOp op => cases op <;> exact h

/-- A route that the snapshot allows was said to be open. -/
theorem saidOpen_of_published {switches : VenueSwitches} {history : List RouteAnswers}
    {snapshot : TransferSnapshot} {route : Route}
    (h : RoutesPublished switches startup history snapshot)
    (hallows : snapshotAllows snapshot route) : SaidOpen switches startup history route := by
  rcases h with ⟨rfl, -⟩ | ⟨-, nowMs, hsnapshot⟩
  · cases hallows
  · exact saidOpen_of_available switches startup history
      (c := { PriceCache.empty with transferSnapshot := snapshot }) hsnapshot hallows

/-- In every state of every run a route is available exactly if some refresh was answered and the
last answers of the two venues that were not empty share a network and do not forbid the withdrawal;
the fee is then the least of the shared ones, and zero otherwise. -/
theorem route_follows_answers (switches : VenueSwitches) (startup : CoinMap (List NetworkFee))
    (events : List RouteEvent) (route : Route)
    (hfees : ∀ fees, (knownFees switches startup
      ((RouteProgram.start switches startup).run std maxPositions events).answers
        route.1).lookup route.2.2 = some fees → ∀ nf ∈ fees, nf.feeCoins < doubleMax) :
    let p := (RouteProgram.start switches startup).run std maxPositions events
    (p.engine.priceCache.isTransferRouteAvailable route = true ↔
      AnyUpdate switches p.answers ∧ SaidOpen switches startup p.answers route) ∧
    (p.engine.priceCache.isTransferRouteAvailable route = true →
      IsLeast (saidFees switches startup p.answers route)
        (p.engine.priceCache.getWithdrawFee route)) ∧
    (p.engine.priceCache.isTransferRouteAvailable route = false →
      p.engine.priceCache.getWithdrawFee route = 0) := by
  intro p
  have hcurrent := (programSound_run std maxPositions switches startup events).tables.current
  rw [switches_run std maxPositions switches events] at hcurrent
  obtain ⟨koreanEx, foreignEx, coin⟩ := route
  have hsame : ∀ nowMs, p.engine.priceCache.transferSnapshot =
      (runTransferCalls (refreshCalls switches startup p.answers)).finalizeWithdrawFees nowMs →
      p.engine.priceCache.publishTransfers
        (runTransferCalls (refreshCalls switches startup p.answers)) nowMs =
          p.engine.priceCache := by
    intro nowMs hsnapshot
    rw [PriceCache.publishTransfers, ← hsnapshot]
  rcases hcurrent with ⟨hnone, hnever⟩ | ⟨hany, nowMs, hsnapshot⟩
  · have hclosed : p.engine.priceCache.isTransferRouteAvailable (koreanEx, foreignEx, coin) =
        false := by
      rw [PriceCache.isTransferRouteAvailable, hnone]
      rfl
    refine ⟨iff_of_false ?_ fun h => hnever h.1, ?_, fun _ => ?_⟩
    · rw [hclosed]
      exact Bool.false_ne_true
    · intro havailable
      rw [hclosed] at havailable
      cases havailable
    · rw [PriceCache.getWithdrawFee, hnone]
      rfl
  · have hbelow : ∀ fees,
        latestFees koreanEx coin (refreshCalls switches startup p.answers) = some fees →
          ∀ nf ∈ fees, nf.feeCoins < doubleMax := by
      rw [latestFees_refreshCalls]
      exact hfees
    have hroute := published_route koreanEx foreignEx coin p.engine.priceCache nowMs hbelow
    simp only [hsame nowMs hsnapshot, latestEnabled_refreshCalls] at hroute
    rw [latestSharedFees_refreshCalls switches startup p.answers (koreanEx, foreignEx, coin)]
      at hroute
    exact ⟨hroute.1.trans ⟨fun h => ⟨hany, h⟩, fun h => h.2⟩, hroute.2⟩

/-- A signal of a step goes over a live route and over one of the pairs. -/
theorem route_of_signal (switches : VenueSwitches) (startup : CoinMap (List NetworkFee))
    (events : List RouteEvent) (event : RouteEvent) :
    let p := (RouteProgram.start switches startup).run std maxPositions events
    ∀ em ∈ (p.step std maxPositions event).2, liveRoutes p (signalRoute em) ∧
      ∃ pair ∈ p.engine.exchangePairs,
        pair.korean = em.signal.koreanExchange ∧ pair.foreign = em.signal.foreignExchange := by
  intro p em hem
  have hsound := programSound_run std maxPositions switches startup events
  cases event with
  | engineOp op =>
    by_cases hop : ∀ snapshot, op ≠ .publishTransfers snapshot
    · rw [step_engineOp std maxPositions op hop] at hem
      exact route_of_step std maxPositions op hsound.routes hem
    · push Not at hop
      obtain ⟨snapshot, rfl⟩ := hop
      cases hem
  | refresh answers nowMs => cases hem
  | refilter nowMs => cases hem

/-- Every signal of every run goes over a route that is open by the last answers of its venues, or,
while a refresh has published its routes and not recomputed the entries yet, by the last ones before
it. -/
theorem signal_over_said_route (switches : VenueSwitches) (startup : CoinMap (List NetworkFee))
    (events : List RouteEvent) (event : RouteEvent) :
    let p := (RouteProgram.start switches startup).run std maxPositions events
    ∀ em ∈ (p.step std maxPositions event).2,
      SaidOpen switches startup p.answers (signalRoute em) ∨
        (p.refreshing = true ∧ SaidOpen switches startup p.settled (signalRoute em)) := by
  intro p em hem
  have hsound := programSound_run std maxPositions switches startup events
  have hcurrent := hsound.tables.current
  have hprevious := hsound.tables.previous
  rw [switches_run std maxPositions switches events] at hcurrent hprevious
  rcases (route_of_signal std maxPositions switches startup events event em hem).1 with
    hnow | ⟨hbusy, hbefore⟩
  · exact .inl (saidOpen_of_published hcurrent hnow)
  · exact .inr ⟨hbusy, saidOpen_of_published (hprevious hbusy) hbefore⟩

/-! ## One refresh and one signal -/

/-- Bithumb sends AAA over Tron for nothing, and Bybit takes it there. -/
def tronAnswers : RouteAnswers where
  bithumbFees := AList.singleton "AAA".toList [⟨"TRX", 0⟩, ⟨"Aptos", 1⟩]
  bybitNets := AList.singleton "AAA".toList {"Tron"}

def bithumbAndBybit : VenueSwitches := ⟨false, false⟩

/-- The pair and the coin are set up, the routes are refreshed, and quotes come in. -/
def refreshedRun : List RouteEvent :=
  [.engineOp (.addExchangePair .bithumb .bybit), .engineOp (.addSymbol (.of "AAA" "KRW")),
    .refresh tronAnswers 900, .refilter 900,
    .engineOp (.tickerUpdate ⟨1000, 1000⟩ (usdtTicker 1000)),
    .engineOp (.tickerUpdate ⟨1100, 1100⟩ (foreignTicker "AAA" 1100))]

/-- The last quote makes AAA profitable. -/
def refreshedQuote : RouteEvent :=
  .engineOp (.tickerUpdate ⟨1100, 1101⟩ (koreanTicker "AAA" 1950 1100))

/-- The signal of a run with one refresh is over a route that was said to be open. -/
theorem signal_over_said_route_refreshed :
    ∃ em ∈ (((RouteProgram.start bithumbAndBybit ∅).run .insertion .initial refreshedRun).step
        .insertion .initial refreshedQuote).2,
      SaidOpen bithumbAndBybit ∅
          ((RouteProgram.start bithumbAndBybit ∅).run .insertion .initial refreshedRun).answers
          (signalRoute em) ∨
        (((RouteProgram.start bithumbAndBybit ∅).run .insertion .initial refreshedRun).refreshing =
            true ∧
          SaidOpen bithumbAndBybit ∅
            ((RouteProgram.start bithumbAndBybit ∅).run .insertion .initial refreshedRun).settled
            (signalRoute em)) := by
  have hone : (((RouteProgram.start bithumbAndBybit ∅).run .insertion .initial refreshedRun).step
      .insertion .initial refreshedQuote).2.length = 1 := by decide +kernel
  obtain ⟨em, hem⟩ := List.length_pos_iff_exists_mem.mp (by rw [hone]; exact Nat.one_pos)
  exact ⟨em, hem,
    signal_over_said_route .insertion .initial bithumbAndBybit ∅ refreshedRun refreshedQuote em hem⟩

/-- What the snapshot of that run has is what the venues said. -/
theorem route_follows_answers_refreshed :
    let p := (RouteProgram.start bithumbAndBybit ∅).run .insertion .initial refreshedRun
    p.engine.priceCache.isTransferRouteAvailable (.bithumb, .bybit, "AAA".toList) = true ∧
      IsLeast (saidFees bithumbAndBybit ∅ p.answers (.bithumb, .bybit, "AAA".toList))
        (p.engine.priceCache.getWithdrawFee (.bithumb, .bybit, "AAA".toList)) := by
  intro p
  have hopen : p.engine.priceCache.isTransferRouteAvailable (.bithumb, .bybit, "AAA".toList) =
      true := by decide +kernel
  refine ⟨hopen, (route_follows_answers .insertion .initial bithumbAndBybit ∅ refreshedRun
    (.bithumb, .bybit, "AAA".toList) ?_).2.1 hopen⟩
  intro fees hlookup nf hnf
  have hknown : (knownFees bithumbAndBybit ∅ p.answers .bithumb).lookup "AAA".toList =
      some [⟨"TRX", 0⟩, ⟨"Aptos", 1⟩] := by decide +kernel
  obtain rfl := Option.some.inj (hknown.symm.trans hlookup)
  have hsmall : nf.feeCoins ≤ 1 := by
    simp only [List.mem_cons, List.not_mem_nil, or_false] at hnf
    rcases hnf with rfl | rfl <;> norm_num
  have hmax : (1 : ℚ) < doubleMax := by
    have hscale : (1 : ℚ) ≤ 2 ^ 971 := one_le_pow₀ (by norm_num)
    calc (1 : ℚ) < (2 ^ 53 - 1) * 1 := by norm_num
      _ ≤ doubleMax := mul_le_mul_of_nonneg_left hscale (by norm_num)
  exact hsmall.trans_lt hmax

end Program

end SpotRelay.Analysis
