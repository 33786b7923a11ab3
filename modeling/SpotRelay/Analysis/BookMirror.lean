import SpotRelay.Interface.MirroredBook
import SpotRelay.Analysis.BboConsistency

/-!
# The copy of a book of which only the first levels are fetched

The copy holds the levels of the exchange under the prices that the feed has been told of, no
more.  Its best level on a side is that of the exchange exactly if the price of that one is among
them, so that a delta which takes away the last level known on a side leaves the wrong quote
behind.

* **the copy** keeps the levels whose prices are known under every event of the feed
  (`Mirrors.step`).
* **its best level** is the exchange's exactly where the exchange's is known (`Mirrors.agrees_iff`).
-/

set_option autoImplicit false

namespace SpotRelay.Analysis

open SpotRelay.Model SpotRelay.Library SpotRelay.Interface

variable {symbol : SymbolId} {m : MirroredBook}

/-! ## Sides of a book -/

section Side

variable {before : ℚ → ℚ → Prop} {copy whole : OrderedMap before ℚ} {known : Set ℚ}

/-- The best price and size of a side of positive levels tell whether it is empty. -/
theorem first_eq_iff_of_pos (hcopy : ∀ e ∈ copy.entries, 0 < e.1)
    (hwhole : ∀ e ∈ whole.entries, 0 < e.1) :
    (copy.first.map Prod.fst).getD 0 = (whole.first.map Prod.fst).getD 0 ∧
      (copy.first.map Prod.snd).getD 0 = (whole.first.map Prod.snd).getD 0 ↔
        copy.first = whole.first := by
  cases hc : copy.first with
  | none =>
    cases hw : whole.first with
    | none => simp
    | some e =>
      have hpos := hwhole e (OrderedMap.mem_of_first hw)
      simp [hpos.ne]
  | some d =>
    have hpos := hcopy d (OrderedMap.mem_of_first hc)
    cases hw : whole.first with
    | none => simp [hpos.ne']
    | some e => simp [Prod.ext_iff]

/-- A snapshot that lists any level lists the first one. -/
theorem first_mem_take {depth : ℕ} (hdepth : 0 < depth) {e : ℚ × ℚ} (he : whole.first = some e) :
    e ∈ (whole.take depth).entries := by
  obtain ⟨rest, hrest⟩ : ∃ rest, whole.entries = e :: rest := List.head?_eq_some_iff.mp he
  rw [OrderedMap.entries_take, hrest, List.take_cons hdepth]
  exact List.mem_cons_self

variable [IsStrictTotalOrder ℚ before] [DecidableRel before]

/-- Filling an empty side with the levels of a map of positive levels gives these levels. -/
theorem mem_filled (hpos : ∀ e ∈ whole.entries, 0 < e.1 ∧ 0 < e.2) {e : ℚ × ℚ} :
    e ∈ ((OrderbookState.usableLevels whole.entries).foldl
      (fun m level => m.insert level.1 level.2) (.empty : OrderedMap before ℚ)).entries ↔
        e ∈ whole.entries := by
  have husable : OrderbookState.usableLevels whole.entries = whole.entries := by
    apply List.filter_eq_self.mpr
    intro level hlevel
    simpa using hpos level hlevel
  rw [husable, OrderedMap.mem_foldl_insert whole.keys_ne]
  simp

/-- A side that is filled from a snapshot restricts the other to the levels of the snapshot. -/
theorem restricts_filled (hpos : ∀ e ∈ whole.entries, 0 < e.1 ∧ 0 < e.2) (depth : ℕ) :
    OrderedMap.Restricts
      ((OrderbookState.usableLevels (whole.take depth).entries).foldl
        (fun m level => m.insert level.1 level.2) .empty)
      whole {price | ∃ quantity, (price, quantity) ∈ (whole.take depth).entries} := by
  intro e
  refine (mem_filled fun e he => hpos e (List.mem_of_mem_take he)).trans ?_
  exact OrderedMap.Restricts.take whole depth e

end Side

/-! ## One change on both sides -/

/-- The copy of both sides. -/
structure Copies (state : OrderbookState) (book : ExchangeBook) (known : KnownLevels) : Prop where
  bids : OrderedMap.Restricts state.bids book.bids known.bids
  asks : OrderedMap.Restricts state.asks book.asks known.asks

variable {state : OrderbookState} {book : ExchangeBook} {known : KnownLevels}

/-- A level update applied on both sides keeps the copy. -/
theorem Copies.update (h : Copies state book known) (u : LevelUpdate) :
    Copies ((u.toDepthUpdate symbol).applyTo state) (book.update u) (known.touch u) := by
  obtain ⟨side, price, quantity, hpos⟩ := u
  cases side with
  | bid =>
    by_cases hgone : quantity ≤ 0
    · constructor
      · simpa [LevelUpdate.toDepthUpdate, DepthUpdate.applyTo, OrderbookState.applyLevel,
          ExchangeBook.update, KnownLevels.touch, hgone] using h.bids.erase price
      · simpa [LevelUpdate.toDepthUpdate, DepthUpdate.applyTo, OrderbookState.applyLevel,
          ExchangeBook.update, KnownLevels.touch, hgone] using h.asks
    · constructor
      · simpa [LevelUpdate.toDepthUpdate, DepthUpdate.applyTo, OrderbookState.applyLevel,
          ExchangeBook.update, KnownLevels.touch, hgone] using h.bids.insert price quantity
      · simpa [LevelUpdate.toDepthUpdate, DepthUpdate.applyTo, OrderbookState.applyLevel,
          ExchangeBook.update, KnownLevels.touch, hgone] using h.asks
  | ask =>
    by_cases hgone : quantity ≤ 0
    · constructor
      · simpa [LevelUpdate.toDepthUpdate, DepthUpdate.applyTo, OrderbookState.applyLevel,
          ExchangeBook.update, KnownLevels.touch, hgone] using h.bids
      · simpa [LevelUpdate.toDepthUpdate, DepthUpdate.applyTo, OrderbookState.applyLevel,
          ExchangeBook.update, KnownLevels.touch, hgone] using h.asks.erase price
    · constructor
      · simpa [LevelUpdate.toDepthUpdate, DepthUpdate.applyTo, OrderbookState.applyLevel,
          ExchangeBook.update, KnownLevels.touch, hgone] using h.bids
      · simpa [LevelUpdate.toDepthUpdate, DepthUpdate.applyTo, OrderbookState.applyLevel,
          ExchangeBook.update, KnownLevels.touch, hgone] using h.asks.insert price quantity

/-- The changes of one message. -/
theorem Copies.updates (h : Copies state book known) (updates : List LevelUpdate) :
    Copies (updatedBook symbol (updates.map (LevelUpdate.toDepthUpdate symbol)) state)
      (updates.foldl ExchangeBook.update book) (updates.foldl KnownLevels.touch known) := by
  have hall : (updates.map (LevelUpdate.toDepthUpdate symbol)).filter
      (fun u => u.symbol = symbol) = updates.map (LevelUpdate.toDepthUpdate symbol) := by
    apply List.filter_eq_self.mpr
    intro u hu
    obtain ⟨v, -, rfl⟩ := List.mem_map.mp hu
    simp [LevelUpdate.toDepthUpdate]
  rw [updatedBook, hall, List.foldl_map]
  clear hall
  induction updates generalizing state book known with
  | nil => exact h
  | cons u updates ih => exact ih (h.update u)

/-- The best levels of the copy are those of the exchange exactly if they are known. -/
theorem Copies.bestLevels_eq_iff (h : Copies state book known) :
    state.bestLevels = book.bestLevels ↔
      (∀ e, book.bids.first = some e → e.1 ∈ known.bids) ∧
        ∀ e, book.asks.first = some e → e.1 ∈ known.asks := by
  have hbids := first_eq_iff_of_pos
    (fun e he => (book.bids_pos e ((h.bids e).mp he).1).1) fun e he => (book.bids_pos e he).1
  have hasks := first_eq_iff_of_pos
    (fun e he => (book.asks_pos e ((h.asks e).mp he).1).1) fun e he => (book.asks_pos e he).1
  rw [← h.bids.first_eq_iff, ← h.asks.first_eq_iff, ← hbids, ← hasks]
  simp only [OrderbookState.bestLevels, ExchangeBook.bestLevels, BestLevels.mk.injEq]
  constructor
  · rintro ⟨hbid, hask, hbidQty, haskQty⟩
    exact ⟨⟨hbid, hbidQty⟩, hask, haskQty⟩
  · rintro ⟨⟨hbid, hbidQty⟩, hask, haskQty⟩
    exact ⟨hbid, hask, hbidQty, haskQty⟩

/-! ## Runs -/

/-- The copy of the feed, and its BBO. -/
structure Mirrors (symbol : SymbolId) (m : MirroredBook) : Prop where
  entry : (m.feed.orderbookBbo symbol).isSome = true
  unseeded : m.known = none → m.feed.orderbookState symbol = none
  seeded : ∀ known, m.known = some known → ∃ state, m.feed.orderbookState symbol = some state ∧
    state.initialized = true ∧ Copies state m.exchange known ∧
      publishedLevels m.feed symbol = some state.bestLevels

/-- The mirror starts out as a copy of nothing. -/
theorem mirrors_start (symbol : SymbolId) (exchange : ExchangeBook) :
    Mirrors symbol (MirroredBook.start symbol exchange) where
  entry := by simp [MirroredBook.start, OrderbookFeed.subscribeOrderbook]
  unseeded _ := by simp [MirroredBook.start, OrderbookFeed.subscribeOrderbook]
  seeded known hknown := by cases hknown

/-- Where a mirror agrees with the exchange. -/
theorem Mirrors.agrees_iff (h : Mirrors symbol m) : m.Agrees symbol ↔ m.BestKnown := by
  unfold MirroredBook.Agrees MirroredBook.BestKnown
  cases hknown : m.known with
  | none => simp
  | some known =>
    obtain ⟨state, -, -, hcopies, hpublished⟩ := h.seeded known hknown
    rw [publishedLevels] at hpublished
    rw [hpublished]
    simp only [Option.isSome_some, forall_true_left, Option.some.injEq, forall_eq']
    exact hcopies.bestLevels_eq_iff

/-- A message is passed over by a feed without a book. -/
theorem Mirrors.delta (h : Mirrors symbol m) (updates : List LevelUpdate) (nowMs : UInt64) :
    Mirrors symbol (m.step symbol (.delta updates nowMs)) := by
  have hinit : ∀ u ∈ (updates.map (LevelUpdate.toDepthUpdate symbol)).filter
      (fun u => m.feed.isInitialized u.symbol), m.feed.isInitialized u.symbol = true :=
    fun u hu => (List.mem_filter.mp hu).2
  have hbatch := batchAfter hinit
  obtain ⟨hstate, hbbo⟩ := announceUpdated_books (m.feed.applyDepthUpdates
    ((updates.map (LevelUpdate.toDepthUpdate symbol)).filter
      fun u => m.feed.isInitialized u.symbol) true) nowMs
  have hbook : (m.step symbol (.delta updates nowMs)).feed.orderbookState symbol =
      (m.feed.orderbookState symbol).map (updatedBook symbol
        ((updates.map (LevelUpdate.toDepthUpdate symbol)).filter
          fun u => m.feed.isInitialized u.symbol)) := by
    rw [MirroredBook.step, hstate, OrderbookFeed.applyDepthUpdates, if_pos rfl,
      BatchAfter.orderbookState_flush, hbatch.books]
  constructor
  · rw [MirroredBook.step, hbbo, OrderbookFeed.applyDepthUpdates, if_pos rfl,
      BatchAfter.isSome_orderbookBbo_flush, hbatch.entries]
    exact h.entry
  · intro hknown
    rw [hbook, h.unseeded (Option.map_eq_none_iff.mp hknown)]
    rfl
  · intro known hknown
    obtain ⟨before, hbefore, rfl⟩ := Option.map_eq_some_iff.mp hknown
    obtain ⟨state, hseeded, hused, hcopies, hpublished⟩ := h.seeded before hbefore
    have hall : (updates.map (LevelUpdate.toDepthUpdate symbol)).filter
        (fun u => m.feed.isInitialized u.symbol) =
          updates.map (LevelUpdate.toDepthUpdate symbol) := by
      apply List.filter_eq_self.mpr
      intro u hu
      obtain ⟨v, -, rfl⟩ := List.mem_map.mp hu
      exact isInitialized_of hseeded hused
    rw [hall] at hbook hbatch
    refine ⟨_, by rw [hbook, hseeded, Option.map_some], by simpa using hused,
      hcopies.updates updates, ?_⟩
    rw [publishedLevels, MirroredBook.step, hbbo, hall, OrderbookFeed.applyDepthUpdates, if_pos rfl]
    exact hbatch.published_flush hseeded hused hpublished

/-- A snapshot keeps the mirror a copy of the levels that it has been told of. -/
theorem Mirrors.snapshot (h : Mirrors symbol m) (depthCount : ℕ) (nowMs : UInt64) :
    Mirrors symbol (m.step symbol (.snapshot depthCount nowMs)) := by
  let depth := OrderbookFeed.requestedDepth depthCount
  obtain ⟨hstate, hbbo⟩ := announceBooks_books (s := m.feed.seedBook symbol
    (m.exchange.bids.take depth).entries (m.exchange.asks.take depth).entries true) [symbol] nowMs
  obtain ⟨bbo, hentry⟩ := Option.isSome_iff_exists.mp h.entry
  constructor
  · rw [MirroredBook.step, hbbo, orderbookBbo_seedBook, Option.isSome_map]
    exact h.entry
  · intro hknown
    cases hknown
  · rintro known hknown
    rw [MirroredBook.step, Option.some.injEq] at hknown
    subst hknown
    refine ⟨_, by rw [MirroredBook.step, hstate, orderbookState_seedBook, Function.update_self],
      rfl, ⟨?_, ?_⟩, ?_⟩
    · exact restricts_filled m.exchange.bids_pos depth
    · exact restricts_filled m.exchange.asks_pos depth
    · rw [publishedLevels, MirroredBook.step, hbbo, orderbookBbo_seedBook, hentry]
      rfl

/-- A snapshot has the best level of each side. -/
theorem bestKnown_snapshot (m : MirroredBook) (depthCount : ℕ) (nowMs : UInt64) :
    (m.step symbol (.snapshot depthCount nowMs)).BestKnown := by
  have hdepth : 0 < OrderbookFeed.requestedDepth depthCount := by
    unfold OrderbookFeed.requestedDepth
    split <;> omega
  intro known hknown
  rw [MirroredBook.step, Option.some.injEq] at hknown
  subst hknown
  constructor
  · intro e he
    exact ⟨e.2, first_mem_take hdepth he⟩
  · intro e he
    exact ⟨e.2, first_mem_take hdepth he⟩

/-- Every event of the feed keeps the mirror. -/
theorem Mirrors.step (h : Mirrors symbol m) (event : BookEvent) :
    Mirrors symbol (m.step symbol event) := by
  cases event with
  | delta updates nowMs => exact h.delta updates nowMs
  | snapshot depthCount nowMs => exact h.snapshot depthCount nowMs

/-- A delta leaves the best level of each side among the prices that the last snapshot listed or
a delta has changed since. -/
def KeepsBestKnown (symbol : SymbolId) (m : MirroredBook) : BookEvent → Prop
  | .delta updates nowMs => (m.step symbol (.delta updates nowMs)).BestKnown
  | .snapshot _ _ => True

/-- After every delta that follows a snapshot the BBO of the feed is that of the exchange exactly
if every such delta leaves best levels of which the feed has been told. -/
theorem publishedQuotes_ofExchange_iff (symbol : SymbolId) (exchange : ExchangeBook)
    (events : List BookEvent) :
    (∀ done, done <+: events → (MirroredBook.run symbol exchange done).Agrees symbol) ↔
      Run.Along (KeepsBestKnown symbol) (MirroredBook.step symbol)
        (MirroredBook.start symbol exchange) events := by
  have hstep : ∀ m event, Mirrors symbol m ∧ m.Agrees symbol →
      (Mirrors symbol (m.step symbol event) ∧ (m.step symbol event).Agrees symbol ↔
        KeepsBestKnown symbol m event) := by
    rintro m event ⟨h, -⟩
    rw [(h.step event).agrees_iff, and_iff_right (h.step event)]
    cases event with
    | delta updates nowMs => exact Iff.rfl
    | snapshot depthCount nowMs => exact iff_of_true (bestKnown_snapshot m depthCount nowMs) trivial
  have hstart := mirrors_start symbol exchange
  rw [← Run.throughout_iff (fun m => Mirrors symbol m ∧ m.Agrees symbol) hstep events
    (MirroredBook.start symbol exchange) ⟨hstart, fun hknown => by cases hknown⟩]
  constructor
  · intro h done hdone
    refine ⟨?_, h done hdone⟩
    exact List.foldlRecOn done (MirroredBook.step symbol) hstart fun m hm event _ => hm.step event
  · exact fun h done hdone => (h done hdone).2

/-! ## The best level of a copy of depth 1 -/

/-- Two bid levels and one ask level. -/
def twoBids : ExchangeBook :=
  [⟨.bid, 100, 5, by norm_num⟩, ⟨.bid, 99, 3, by norm_num⟩, ⟨.ask, 101, 4, by norm_num⟩].foldl
    ExchangeBook.update .empty

/-- The best bid is taken away after a resync with the depth of the resync loop. -/
def bestBidGone : List BookEvent :=
  [.snapshot OrderbookFeed.orderbookBboDepth 1, .delta [⟨.bid, 100, 0, by norm_num⟩] 2]

/-- The feed then publishes no bid, and the exchange has its second level. -/
theorem secondLevel_notPublished :
    ¬ ∀ (symbol : SymbolId) (exchange : ExchangeBook) (events : List BookEvent),
      (MirroredBook.run symbol exchange events).Agrees symbol := by
  intro h
  have hpublished := h xrp twoBids bestBidGone rfl
  have hfeed : ((MirroredBook.run xrp twoBids bestBidGone).feed.orderbookBbo xrp).map
      Bbo.toBestLevels = some ⟨0, 101, 0, 4⟩ := by decide +kernel
  have hexchange : (MirroredBook.run xrp twoBids bestBidGone).exchange.bestLevels =
      ⟨99, 101, 3, 4⟩ := by decide +kernel
  rw [hfeed, hexchange] at hpublished
  revert hpublished
  decide

end SpotRelay.Analysis
