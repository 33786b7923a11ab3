import SpotRelay.Analysis.BboConsistency

/-!
# Where the quotes of a ticker come from

A reconnect clears the books and keeps the BBO cache, and a snapshot of any part of the symbols
makes the whole feed ready again.  Every quote that is dispatched with a depth message or a
snapshot is of a book seeded since; a ticker of the socket is overlaid with what the cache holds,
so that it depends on its symbol having been seeded too.

* **the lineage** of a cached quote says whether its book was seeded since the last connection, and
  each handler keeps it (`LineageAt`).
* **one event** dispatches fresh quotes exactly if its tickers are covered (`feedStep_fresh`), and
  the feed starts with fresh ones (`quotesFresh_initial`).
-/

set_option autoImplicit false

namespace SpotRelay.Analysis

open SpotRelay.Model SpotRelay.Library

/-- A value of the BBO is laid over a ticker. -/
def Overlays (bbo : Bbo) : Prop :=
  0 < bbo.bestBid ∨ 0 < bbo.bestAsk ∨ 0 < bbo.bestBidQty ∨ 0 < bbo.bestAskQty

/-- A ticker with a quote has it from a book that was seeded since the last connect, and from a
refresh since the last disconnect. -/
def Fresh (d : DispatchedTicker) : Prop :=
  0 < d.ticker.bid ∨ 0 < d.ticker.ask ∨ 0 < d.ticker.bidQty ∨ 0 < d.ticker.askQty →
    ∃ bbo, d.source = some bbo ∧ bbo.seededIn = d.connects ∧ bbo.storedIn = d.disconnects

/-- The symbol has no cached value, or its book is in use; while the feed is disconnected, the
value must have been stored since. -/
def Covered (s : OrderbookFeed) (x : SymbolId) : Prop :=
  ∀ bbo, s.orderbookBbo x = some bbo → Overlays bbo →
    s.isInitialized x = true ∧ (s.connected = true ∨ bbo.storedIn = s.disconnects)

/-- A ticker that is handled while the feed is ready is of a covered symbol. -/
def TickerCovered (simdjson : Simdjson) (s : OrderbookFeed) : FeedEvent → Prop
  | .message text _ =>
    findAfter "orderbookdepth".toList text = none → s.orderbookReady = true →
      ∀ parsed, OrderbookFeed.readTicker simdjson text = some parsed → Covered s parsed.symbol
  | _ => True

/-! ## The lineage of a BBO -/

/-- How the BBO of a symbol is tied to its book. -/
structure LineageAt (s : OrderbookFeed) (x : SymbolId) : Prop where
  seeded : ∀ state, s.orderbookState x = some state → state.initialized = true →
    state.seededIn = s.connects
  seededIn_le : ∀ bbo, s.orderbookBbo x = some bbo → bbo.seededIn ≤ s.connects
  refreshed : ∀ bbo, s.orderbookBbo x = some bbo → Overlays bbo → s.isInitialized x = true →
    bbo.seededIn = s.connects ∧ (s.connected = true → bbo.storedIn = s.disconnects)
  backed : ∀ bbo, s.orderbookBbo x = some bbo → Overlays bbo → bbo.seededIn = s.connects →
    s.isInitialized x = true

/-- The BBO was stored from a book in use, with no disconnect since. -/
def CurrentBbo (s : OrderbookFeed) (x : SymbolId) : Prop :=
  ∀ bbo, s.orderbookBbo x = some bbo →
    bbo.seededIn = s.connects ∧ bbo.storedIn = s.disconnects

/-- The connection and what is dispatched stay as they are. -/
structure SameLink (s s' : OrderbookFeed) : Prop where
  connects : s'.connects = s.connects
  disconnects : s'.disconnects = s.disconnects
  connected : s'.connected = s.connected
  dispatched : s'.dispatched = s.dispatched

variable {s s' s'' : OrderbookFeed} {x y : SymbolId}

/-- What is left alone keeps its connection. -/
theorem SameLink.refl (s : OrderbookFeed) : SameLink s s := ⟨rfl, rfl, rfl, rfl⟩

/-- Two steps that keep the connection do so together. -/
theorem SameLink.trans (h : SameLink s s') (h' : SameLink s' s'') : SameLink s s'' where
  connects := h'.connects.trans h.connects
  disconnects := h'.disconnects.trans h.disconnects
  connected := h'.connected.trans h.connected
  dispatched := h'.dispatched.trans h.dispatched

/-- A refresh of a BBO keeps the link. -/
theorem sameLink_updateBbo (s : OrderbookFeed) (x : SymbolId) : SameLink s (s.updateBbo x) := by
  rcases updateBbo_eq_or_setBbo s x with hsame | ⟨bbo, hset⟩
  · rw [hsame]
    exact .refl s
  · rw [hset]
    exact ⟨rfl, rfl, rfl, rfl⟩

/-- An item of a snapshot keeps the link. -/
theorem sameLink_loadItem (s : OrderbookFeed) (x : SymbolId) (item : SnapshotItem) :
    SameLink s (s.loadItem x item) := by
  unfold OrderbookFeed.loadItem
  split
  · have hlink := sameLink_updateBbo
      (s.setBook x (s.seededBook x item.bidLevels item.askLevels item.isSound)) x
    exact ⟨hlink.connects, hlink.disconnects, hlink.connected, hlink.dispatched⟩
  · exact ⟨rfl, rfl, rfl, rfl⟩

namespace LineageAt

/-- A symbol whose BBO stays and whose book changes in nothing but its levels. -/
theorem of_levels (h : LineageAt s x) (hlink : SameLink s s')
    (hbbo : s'.orderbookBbo x = s.orderbookBbo x) (hinit : s'.isInitialized x = s.isInitialized x)
    (hseeded : ∀ state, s'.orderbookState x = some state → state.initialized = true →
      ∃ before, s.orderbookState x = some before ∧ before.initialized = true ∧
        state.seededIn = before.seededIn) : LineageAt s' x where
  seeded state hstate hused := by
    obtain ⟨before, hbefore, hinuse, hsame⟩ := hseeded state hstate hused
    rw [hlink.connects, hsame]
    exact h.seeded before hbefore hinuse
  seededIn_le := by
    rw [hbbo, hlink.connects]
    exact h.seededIn_le
  refreshed := by
    rw [hbbo, hinit, hlink.connects, hlink.connected, hlink.disconnects]
    exact h.refreshed
  backed := by
    rw [hbbo, hinit, hlink.connects]
    exact h.backed

/-- A symbol that a step leaves alone. -/
theorem of_same (h : LineageAt s x) (hlink : SameLink s s')
    (hbook : s'.orderbookState x = s.orderbookState x)
    (hbbo : s'.orderbookBbo x = s.orderbookBbo x) : LineageAt s' x := by
  refine h.of_levels hlink hbbo ?_ fun state hstate hused => ?_
  · unfold OrderbookFeed.isInitialized
    rw [hbook]
  · exact ⟨state, hbook ▸ hstate, hused, rfl⟩

/-- A symbol whose BBO is stored from a book in use. -/
theorem of_current (hinit : s.isInitialized x = true) (hcurrent : CurrentBbo s x)
    (hseeded : ∀ state, s.orderbookState x = some state → state.seededIn = s.connects) :
    LineageAt s x where
  seeded state hstate _ := hseeded state hstate
  seededIn_le bbo hbbo := (hcurrent bbo hbbo).1.le
  refreshed bbo hbbo _ _ := ⟨(hcurrent bbo hbbo).1, fun _ => (hcurrent bbo hbbo).2⟩
  backed _ _ _ _ := hinit

end LineageAt

/-- A refresh stores from the book in use. -/
theorem currentBbo_updateBbo (h : LineageAt s x) (hinit : s.isInitialized x = true) :
    CurrentBbo (s.updateBbo x) x := by
  obtain ⟨state, hstate, hused⟩ := exists_of_isInitialized hinit
  intro bbo hbbo
  have hlink := sameLink_updateBbo s x
  cases hbefore : s.orderbookBbo x with
  | none =>
    have hkeep := isSome_orderbookBbo_updateBbo (s := s) (x := x) (y := x)
    simp [hbbo, hbefore] at hkeep
  | some before =>
    rw [orderbookBbo_updateBbo hstate hused hbefore, Option.some.injEq] at hbbo
    subst hbbo
    rw [hlink.connects, hlink.disconnects]
    exact ⟨h.seeded state hstate hused, rfl⟩

/-- A refresh seeds no book. -/
@[simp] theorem isInitialized_updateBbo :
    (s.updateBbo x).isInitialized y = s.isInitialized y := by
  simp [OrderbookFeed.isInitialized]

/-- A refresh of an initialised book keeps where every BBO comes from. -/
theorem lineageAt_updateBbo (h : ∀ y, LineageAt s y) (hinit : s.isInitialized x = true)
    (y : SymbolId) : LineageAt (s.updateBbo x) y := by
  by_cases hy : y = x
  · subst hy
    refine LineageAt.of_current (by simpa using hinit) (currentBbo_updateBbo (h y) hinit) ?_
    intro state hstate
    rw [orderbookState_updateBbo] at hstate
    obtain ⟨before, hbefore, hused⟩ := exists_of_isInitialized hinit
    rw [hbefore, Option.some.injEq] at hstate
    subst hstate
    rw [(sameLink_updateBbo s y).connects]
    exact (h y).seeded before hbefore hused
  · exact (h y).of_same (sameLink_updateBbo s x) (by simp) (orderbookBbo_updateBbo_of_ne hy)

/-! ## Depth messages -/

/-- The loop over the updates of a message, as far as the lineage goes. -/
structure BatchFresh (s : OrderbookFeed) (b : DepthBatch) : Prop where
  link : SameLink s b.feed
  lineage : ∀ x, LineageAt b.feed x
  inits : ∀ x, b.feed.isInitialized x = s.isInitialized x
  last : ∀ x, b.lastUpdatedSymbol = some x → s.isInitialized x = true
  current : ∀ x ∈ b.updatedSymbols, CurrentBbo b.feed x

variable {b : DepthBatch}

/-- The end of a batch leaves it fresh. -/
theorem BatchFresh.flush (h : BatchFresh s b) : BatchFresh s b.flush := by
  unfold DepthBatch.flush
  cases hlast : b.lastUpdatedSymbol with
  | none => exact h
  | some last =>
    have hinit : b.feed.isInitialized last = true := (h.inits last).trans (h.last last hlast)
    refine ⟨h.link.trans (sameLink_updateBbo _ last), lineageAt_updateBbo h.lineage hinit,
      fun x => isInitialized_updateBbo.trans (h.inits x), by simp, ?_⟩
    intro x hx
    by_cases hne : x = last
    · subst hne
      exact currentBbo_updateBbo (h.lineage x) hinit
    · have hold : x ∈ b.updatedSymbols := by simpa [hne] using hx
      intro bbo hbbo
      rw [orderbookBbo_updateBbo_of_ne hne] at hbbo
      have hlink := sameLink_updateBbo b.feed last
      rw [hlink.connects, hlink.disconnects]
      exact h.current x hold bbo hbbo

/-- An update of an initialised book leaves the batch fresh. -/
theorem BatchFresh.apply (h : BatchFresh s b) {u : DepthUpdate}
    (hinit : s.isInitialized u.symbol = true) : BatchFresh s (b.apply u) := by
  obtain ⟨state, hstate, hused⟩ := exists_of_isInitialized ((h.inits u.symbol).trans hinit)
  obtain ⟨bids, asks, hlevels⟩ := applyTo_frame u state
  have happlied : BatchFresh s { b with feed := b.feed.setBook u.symbol (u.applyTo state) } := by
    have hinits : ∀ x, (b.feed.setBook u.symbol (u.applyTo state)).isInitialized x =
        b.feed.isInitialized x := by
      intro x
      by_cases hx : x = u.symbol
      · subst hx
        simp [OrderbookFeed.isInitialized, hstate, hlevels]
      · simp [OrderbookFeed.isInitialized, Function.update_of_ne hx]
    refine ⟨h.link.trans ⟨rfl, rfl, rfl, rfl⟩, fun x => ?_, fun x => (hinits x).trans (h.inits x),
      h.last, h.current⟩
    refine (h.lineage x).of_levels ⟨rfl, rfl, rfl, rfl⟩ rfl (hinits x) fun after hafter hinuse => ?_
    by_cases hx : x = u.symbol
    · subst hx
      simp only [orderbookState_setBook, Function.update_self, Option.some.injEq] at hafter
      exact ⟨state, hstate, hused, by rw [← hafter, hlevels]⟩
    · simp only [orderbookState_setBook, Function.update_of_ne hx] at hafter
      exact ⟨after, hafter, hinuse, rfl⟩
  unfold DepthBatch.apply
  rw [hstate]
  dsimp only
  split_ifs with hlast
  · exact happlied
  · have hflushed := happlied.flush
    refine ⟨hflushed.link, hflushed.lineage, hflushed.inits, ?_, hflushed.current⟩
    rintro x hx
    rw [Option.some.injEq] at hx
    rw [← hx]
    exact hinit

/-- A depth message announces current BBOs only, complete or not. -/
theorem applyDepthUpdates_fresh (h : ∀ x, LineageAt s x) {updates : List DepthUpdate}
    (hinit : ∀ u ∈ updates, s.isInitialized u.symbol = true) (complete : Bool) :
    SameLink s (s.applyDepthUpdates updates complete).1 ∧
      (∀ x, LineageAt (s.applyDepthUpdates updates complete).1 x) ∧
        ∀ x ∈ (s.applyDepthUpdates updates complete).2,
          CurrentBbo (s.applyDepthUpdates updates complete).1 x := by
  have hloop : BatchFresh s (updates.foldl DepthBatch.apply { feed := s }) := by
    refine List.foldlRecOn (motive := BatchFresh s) updates DepthBatch.apply ?_
      fun b hb u hu => hb.apply (hinit u hu)
    exact ⟨SameLink.refl s, h, fun _ => rfl, by simp, by simp⟩
  unfold OrderbookFeed.applyDepthUpdates
  cases complete with
  | true => exact ⟨hloop.flush.link, hloop.flush.lineage, hloop.flush.current⟩
  | false => exact ⟨hloop.link, hloop.lineage, hloop.current⟩

/-! ## Snapshots -/

/-- A book that is read to its end is current. -/
theorem currentBbo_loadItem {item : SnapshotItem} (hread : item.isRead = true) :
    CurrentBbo (s.loadItem x item) x := by
  have hlink := sameLink_loadItem s x item
  intro bbo hbbo
  rw [hlink.connects, hlink.disconnects]
  rw [OrderbookFeed.loadItem, if_pos hread, orderbookBbo_seedBook, Option.map_eq_some_iff] at hbbo
  obtain ⟨before, -, rfl⟩ := hbbo
  exact ⟨rfl, rfl⟩

/-- An item of a snapshot keeps where every BBO comes from. -/
theorem lineageAt_loadItem (h : ∀ y, LineageAt s y) (x : SymbolId) (item : SnapshotItem)
    (y : SymbolId) : LineageAt (s.loadItem x item) y := by
  have hlink := sameLink_loadItem s x item
  by_cases hy : y = x
  · subst hy
    cases hread : item.isRead with
    | true =>
      have hstate := orderbookState_loadItem (s := s) (x := y) hread
      refine LineageAt.of_current (isInitialized_of hstate rfl) (currentBbo_loadItem hread) ?_
      intro state hafter
      rw [hstate, Option.some.injEq] at hafter
      subst hafter
      exact hlink.connects.symm
    | false =>
      rw [OrderbookFeed.loadItem, if_neg (by simp [hread])] at hlink ⊢
      refine (h y).of_levels hlink rfl ?_ fun state hstate hused => ?_
      · unfold OrderbookFeed.isInitialized OrderbookFeed.book OrderbookState.replaceLevels
        cases s.orderbookState y <;> simp
      · rw [orderbookState_setBook, Function.update_self, Option.some.injEq] at hstate
        subst hstate
        unfold OrderbookFeed.book OrderbookState.replaceLevels at hused ⊢
        cases hbefore : s.orderbookState y with
        | none => simp [hbefore] at hused
        | some before => exact ⟨before, rfl, by simpa [hbefore] using hused, rfl⟩
  · exact (h y).of_same hlink (orderbookState_loadItem_of_ne item hy)
      (orderbookBbo_loadItem_of_ne item hy)

/-- Only symbols whose item was read are announced as seeded. -/
theorem seeded_subset (symbols : List SymbolId) (items : List SnapshotItem) :
    ∀ x ∈ (OrderbookFeed.seedBooks symbols s items).2.1,
      ∃ p ∈ booksRead symbols items, p.1 = x := by
  induction items generalizing s with
  | nil => simp [OrderbookFeed.seedBooks]
  | cons item rest ih =>
    unfold OrderbookFeed.seedBooks booksRead
    cases item.key with
    | none => simp
    | some key =>
      dsimp only
      cases OrderbookFeed.requestedSymbol symbols key with
      | none => exact ih
      | some sym =>
        dsimp only
        split_ifs with hread
        · intro x hx
          rcases List.mem_cons.mp hx with rfl | hx
          · exact ⟨(x, item), by simp, rfl⟩
          · obtain ⟨p, hp, hpx⟩ := ih x hx
            exact ⟨p, List.mem_cons_of_mem _ hp, hpx⟩
        · simp

/-- The loop over a snapshot. -/
theorem seedBooks_fresh (h : ∀ x, LineageAt s x) (symbols : List SymbolId)
    (items : List SnapshotItem) :
    SameLink s (OrderbookFeed.seedBooks symbols s items).1 ∧
      (∀ x, LineageAt (OrderbookFeed.seedBooks symbols s items).1 x) ∧
        ((OrderbookFeed.seedBooks symbols s items).2.2 = true →
          ∀ x ∈ (OrderbookFeed.seedBooks symbols s items).2.1,
            CurrentBbo (OrderbookFeed.seedBooks symbols s items).1 x) := by
  have hcurrent : ∀ books : List (SymbolId × SnapshotItem), (∀ p ∈ books, p.2.isRead = true) →
      ∀ p ∈ books, CurrentBbo (books.foldl (fun s p => s.loadItem p.1 p.2) s) p.1 := by
    intro books
    induction books using List.reverseRecOn with
    | nil => simp
    | append_singleton books q ih =>
      intro hread p hp
      rw [List.foldl_append, List.foldl_cons, List.foldl_nil]
      by_cases hpq : p.1 = q.1
      · rw [hpq]
        exact currentBbo_loadItem (hread q (by simp))
      · have hold : p ∈ books := by
          rcases List.mem_append.mp hp with hp | hp
          · exact hp
          · exact absurd (congrArg Prod.fst (List.mem_singleton.mp hp)) hpq
        intro bbo hbbo
        rw [orderbookBbo_loadItem_of_ne _ hpq] at hbbo
        have hlink := sameLink_loadItem (books.foldl (fun s p => s.loadItem p.1 p.2) s) q.1 q.2
        rw [hlink.connects, hlink.disconnects]
        exact ih (fun r hr => hread r (List.mem_append_left _ hr)) p hold bbo hbbo
  rw [seedBooks_eq]
  refine ⟨?_, ?_, ?_⟩
  · exact List.foldlRecOn (motive := SameLink s) _ _ (SameLink.refl s)
      fun t ht p _ => ht.trans (sameLink_loadItem t p.1 p.2)
  · exact List.foldlRecOn (motive := fun t => ∀ x, LineageAt t x) _ _ h
      fun t ht p _ => lineageAt_loadItem ht p.1 p.2
  · intro hcomplete x hx
    obtain ⟨p, hp, rfl⟩ := seeded_subset symbols items x hx
    exact hcurrent _ (isRead_of_complete hcomplete) p hp

/-! ## Dispatch -/

/-- What is dispatched for a symbol comes from its cache entry. -/
theorem mem_dispatchBbo {nowMs : UInt64} {d : DispatchedTicker}
    (h : d ∈ (s.dispatchBbo x nowMs).dispatched) :
    d ∈ s.dispatched ∨ ∃ bbo, s.orderbookBbo x = some bbo ∧ d.source = some bbo ∧
      d.connects = s.connects ∧ d.disconnects = s.disconnects := by
  unfold OrderbookFeed.dispatchBbo at h
  cases hbbo : s.orderbookBbo x with
  | none =>
    rw [hbbo] at h
    exact Or.inl h
  | some bbo =>
    rw [hbbo] at h
    dsimp only at h
    split at h
    · exact Or.inl h
    · rcases List.mem_append.mp h with h | h
      · exact Or.inl h
      · rw [List.mem_singleton.mp h]
        exact Or.inr ⟨bbo, rfl, rfl, rfl, rfl⟩

/-- What is announced is made of the BBOs of the announced symbols. -/
theorem mem_dispatchBbos {symbols : List SymbolId} {nowMs : UInt64} {d : DispatchedTicker}
    (h : d ∈ (s.dispatchBbos symbols nowMs).dispatched) :
    d ∈ s.dispatched ∨ ∃ x ∈ symbols, ∃ bbo, s.orderbookBbo x = some bbo ∧ d.source = some bbo ∧
      d.connects = s.connects ∧ d.disconnects = s.disconnects := by
  unfold OrderbookFeed.dispatchBbos at h
  induction symbols generalizing s with
  | nil => exact Or.inl h
  | cons x symbols ih =>
    obtain ⟨usdt, dispatched, hone⟩ := dispatchBbo_eq s x nowMs
    rcases ih h with hd | ⟨y, hy, bbo, hbbo, hd⟩
    · rcases mem_dispatchBbo hd with hd | hd
      · exact Or.inl hd
      · exact Or.inr ⟨x, List.mem_cons_self, hd⟩
    · dsimp only at hbbo hd
      rw [hone] at hbbo hd
      exact Or.inr ⟨y, List.mem_cons_of_mem x hy, bbo, hbbo, hd⟩

/-- Announcing current symbols dispatches fresh quotes. -/
theorem fresh_dispatchBbos {symbols : List SymbolId} {nowMs : UInt64}
    (h : ∀ d ∈ s.dispatched, Fresh d) (hcurrent : ∀ x ∈ symbols, CurrentBbo s x) :
    ∀ d ∈ (s.dispatchBbos symbols nowMs).dispatched, Fresh d := by
  intro d hd
  rcases mem_dispatchBbos hd with hd | ⟨x, hx, bbo, hbbo, hsource, hconnects, hdisconnects⟩
  · exact h d hd
  · intro _
    rw [hconnects, hdisconnects]
    exact ⟨bbo, hsource, hcurrent x hx bbo hbbo⟩

/-- Announcing symbols keeps where every BBO comes from. -/
theorem lineageAt_dispatchBbos {symbols : List SymbolId} {nowMs : UInt64} (h : LineageAt s x) :
    LineageAt (s.dispatchBbos symbols nowMs) x := by
  obtain ⟨_, _, heq⟩ := dispatchBbos_eq s symbols nowMs
  rw [heq]
  exact ⟨h.seeded, h.seededIn_le, h.refreshed, h.backed⟩

/-! ## Tickers -/

/-- Storing a last price touches the cache only. -/
theorem storeLastPrice_eq (s : OrderbookFeed) (parsed : ParsedTicker) :
    ∃ bbos, s.storeLastPrice parsed = { s with orderbookBbo := bbos } := by
  unfold OrderbookFeed.storeLastPrice
  split
  · exact ⟨_, rfl⟩
  · exact ⟨s.orderbookBbo, rfl⟩

/-- It leaves the books, the flag and the connection. -/
theorem storeLastPrice_books (parsed : ParsedTicker) :
    (s.storeLastPrice parsed).orderbookState = s.orderbookState ∧
      (s.storeLastPrice parsed).orderbookReady = s.orderbookReady ∧
        SameLink s (s.storeLastPrice parsed) := by
  obtain ⟨_, heq⟩ := storeLastPrice_eq s parsed
  rw [heq]
  exact ⟨rfl, rfl, rfl, rfl, rfl, rfl⟩

/-- The last price is all that a ticker changes of a BBO. -/
theorem exists_of_storeLastPrice {parsed : ParsedTicker} {bbo : Bbo}
    (h : (s.storeLastPrice parsed).orderbookBbo x = some bbo) :
    ∃ before, s.orderbookBbo x = some before ∧ bbo = { before with lastPrice := bbo.lastPrice } := by
  unfold OrderbookFeed.storeLastPrice at h
  cases hbbo : s.orderbookBbo parsed.symbol with
  | none =>
    rw [hbbo] at h
    exact ⟨bbo, h, rfl⟩
  | some before =>
    rw [hbbo] at h
    by_cases hx : x = parsed.symbol
    · subst hx
      simp only [OrderbookFeed.setBbo, Function.update_self, Option.some.injEq] at h
      subst h
      exact ⟨before, hbbo, rfl⟩
    · simp only [OrderbookFeed.setBbo, Function.update_of_ne hx] at h
      exact ⟨bbo, h, rfl⟩

/-- It keeps where every BBO comes from. -/
theorem lineageAt_storeLastPrice (h : LineageAt s x) (parsed : ParsedTicker) :
    LineageAt (s.storeLastPrice parsed) x := by
  obtain ⟨hbooks, -, hlink⟩ := storeLastPrice_books (s := s) parsed
  have hinit : (s.storeLastPrice parsed).isInitialized x = s.isInitialized x := by
    unfold OrderbookFeed.isInitialized
    rw [hbooks]
  constructor
  · rw [hbooks, hlink.connects]
    exact h.seeded
  · intro bbo hbbo
    obtain ⟨before, hbefore, heq⟩ := exists_of_storeLastPrice hbbo
    rw [heq, hlink.connects]
    exact h.seededIn_le before hbefore
  · intro bbo hbbo hover hused
    obtain ⟨before, hbefore, heq⟩ := exists_of_storeLastPrice hbbo
    rw [heq] at hover ⊢
    rw [hlink.connects, hlink.connected, hlink.disconnects]
    exact h.refreshed before hbefore hover (hinit ▸ hused)
  · intro bbo hbbo hover hsame
    obtain ⟨before, hbefore, heq⟩ := exists_of_storeLastPrice hbbo
    rw [heq] at hover hsame
    rw [hinit]
    exact h.backed before hbefore hover (hsame.trans hlink.connects)

/-- The quotes of an overlaid ticker are the positive values of the BBO. -/
theorem hasQuote_overlay {bbo : Bbo} {parsed : ParsedTicker} {nowMs : UInt64} :
    (0 < (OrderbookFeed.overlay bbo (OrderbookFeed.bareTicker parsed nowMs)).bid ∨
      0 < (OrderbookFeed.overlay bbo (OrderbookFeed.bareTicker parsed nowMs)).ask ∨
        0 < (OrderbookFeed.overlay bbo (OrderbookFeed.bareTicker parsed nowMs)).bidQty ∨
          0 < (OrderbookFeed.overlay bbo (OrderbookFeed.bareTicker parsed nowMs)).askQty) ↔
      Overlays bbo := by
  have hif : ∀ q : ℚ, 0 < (if 0 < q then q else 0) ↔ 0 < q := by
    intro q
    split_ifs with hq
    · rfl
    · simp [hq]
  simp only [OrderbookFeed.overlay, OrderbookFeed.bareTicker, hif, Overlays]

/-- A ticker without quotes is fresh. -/
theorem fresh_bareTicker {parsed : ParsedTicker} {nowMs : UInt64} {source : Option Bbo}
    {connects disconnects : ℕ} :
    Fresh ⟨OrderbookFeed.bareTicker parsed nowMs, source, connects, disconnects⟩ := by
  intro hquote
  simp [OrderbookFeed.bareTicker] at hquote

/-- A ticker is fresh exactly if its symbol is covered while the feed is ready. -/
theorem fresh_onTicker_iff (h : ∀ x, LineageAt s x) (hfresh : ∀ d ∈ s.dispatched, Fresh d)
    (parsed : ParsedTicker) (nowMs : UInt64) :
    (∀ d ∈ (s.onTicker parsed nowMs).dispatched, Fresh d) ↔
      (s.orderbookReady = true → Covered s parsed.symbol) := by
  obtain ⟨-, hready, hlink⟩ := storeLastPrice_books (s := s) parsed
  have hone : ∀ ticker source, (∀ d ∈ ((s.storeLastPrice parsed).dispatchTicker ticker
      source).dispatched, Fresh d) ↔ Fresh ⟨ticker, source, s.connects, s.disconnects⟩ := by
    intro ticker source
    simp only [OrderbookFeed.dispatchTicker, hlink.dispatched, hlink.connects, hlink.disconnects,
      List.mem_append, List.mem_singleton, or_imp, forall_and, forall_eq]
    exact ⟨fun hall => hall.2, fun hnew => ⟨hfresh, hnew⟩⟩
  unfold OrderbookFeed.onTicker
  dsimp only
  rw [hready]
  cases hon : s.orderbookReady with
  | false =>
    rw [if_neg (by simp), hone]
    exact iff_of_true fresh_bareTicker (by simp)
  | true =>
    rw [if_pos rfl]
    simp only [forall_true_left]
    cases hbbo : (s.storeLastPrice parsed).orderbookBbo parsed.symbol with
    | none =>
      dsimp only
      rw [hone]
      refine iff_of_true fresh_bareTicker fun bbo hentry => ?_
      unfold OrderbookFeed.storeLastPrice at hbbo
      rw [hentry] at hbbo
      simp [OrderbookFeed.setBbo] at hbbo
    | some bbo =>
      dsimp only
      rw [hone]
      obtain ⟨before, hbefore, heq⟩ := exists_of_storeLastPrice hbbo
      have hover : Overlays bbo ↔ Overlays before := by
        rw [heq]
        rfl
      have hghosts : bbo.seededIn = before.seededIn ∧ bbo.storedIn = before.storedIn := by
        rw [heq]
        exact ⟨rfl, rfl⟩
      unfold Fresh Covered
      rw [hasQuote_overlay, hover]
      constructor
      · intro hquote old hold holds
        rw [hbefore, Option.some.injEq] at hold
        subst hold
        obtain ⟨source, hsource, hseeded, hstored⟩ := hquote holds
        rw [Option.some.injEq] at hsource
        rw [← hsource, hghosts.1] at hseeded
        rw [← hsource, hghosts.2] at hstored
        exact ⟨(h parsed.symbol).backed before hbefore holds hseeded, Or.inr hstored⟩
      · intro hcovered holds
        obtain ⟨hinit, hstored⟩ := hcovered before hbefore holds
        obtain ⟨hseeded, hconnected⟩ := (h parsed.symbol).refreshed before hbefore holds hinit
        exact ⟨bbo, rfl, hghosts.1.trans hseeded, hghosts.2.trans (hstored.elim hconnected id)⟩

/-- A whole ticker message keeps the lineage. -/
theorem lineageAt_onTicker (h : LineageAt s x) (parsed : ParsedTicker) (nowMs : UInt64) :
    LineageAt (s.onTicker parsed nowMs) x := by
  have hstored := lineageAt_storeLastPrice h parsed
  obtain ⟨ticker, source, hticker⟩ := onTicker_eq s parsed nowMs
  rw [hticker]
  exact ⟨hstored.seeded, hstored.seededIn_le, hstored.refreshed, hstored.backed⟩

/-! ## Runs -/

/-- The quotes dispatched so far are fresh. -/
structure QuotesFresh (s : OrderbookFeed) : Prop where
  lineage : ∀ x, LineageAt s x
  fresh : ∀ d ∈ s.dispatched, Fresh d

/-- A connection keeps the lineage. -/
theorem lineageAt_onWsConnected (h : LineageAt s x) : LineageAt s.onWsConnected x := by
  have hidle : s.onWsConnected.isInitialized x = false := by
    simp only [OrderbookFeed.isInitialized, OrderbookFeed.onWsConnected]
    cases s.orderbookState x <;> rfl
  constructor
  · intro state hstate hused
    rw [isInitialized_of hstate hused] at hidle
    cases hidle
  · intro bbo hbbo
    exact (h.seededIn_le bbo hbbo).trans (Nat.le_succ _)
  · intro bbo _ _ hused
    rw [hused] at hidle
    cases hidle
  · intro bbo hbbo _ hsame
    have hle := h.seededIn_le bbo hbbo
    rw [hsame] at hle
    exact absurd hle (Nat.not_succ_le_self s.connects)

/-- A disconnection, which invalidates every book, keeps the lineage. -/
theorem lineageAt_onWsDisconnected (h : LineageAt s x) : LineageAt s.onWsDisconnected x where
  seeded := h.seeded
  seededIn_le := h.seededIn_le
  refreshed bbo hbbo hover hused :=
    ⟨(h.refreshed bbo hbbo hover hused).1, fun hconnected => by cases hconnected⟩
  backed := h.backed

/-- A new entry of the cache overlays nothing. -/
theorem lineageAt_subscribeOrderbook (h : LineageAt s x) (symbols : List SymbolId)
    (wsConnected : Bool) : LineageAt (s.subscribeOrderbook symbols wsConnected) x := by
  unfold OrderbookFeed.subscribeOrderbook
  split
  · have hentry : ∀ bbo, (if x ∈ symbols then some ((s.orderbookBbo x).getD {})
        else s.orderbookBbo x) = some bbo → s.orderbookBbo x = some bbo ∨ bbo = {} := by
      intro bbo hbbo
      cases hbefore : s.orderbookBbo x with
      | none =>
        rw [hbefore] at hbbo
        split_ifs at hbbo
        exact Or.inr (Option.some.inj hbbo).symm
      | some before =>
        rw [hbefore] at hbbo
        split_ifs at hbbo
        · exact Or.inl hbbo
        · exact Or.inl hbbo
    have hnothing : ¬ Overlays {} := by simp [Overlays]
    constructor
    · exact h.seeded
    · intro bbo hbbo
      rcases hentry bbo hbbo with hbefore | rfl
      · exact h.seededIn_le bbo hbefore
      · exact Nat.zero_le _
    · intro bbo hbbo hover
      rcases hentry bbo hbbo with hbefore | rfl
      · exact h.refreshed bbo hbefore hover
      · exact absurd hover hnothing
    · intro bbo hbbo hover
      rcases hentry bbo hbbo with hbefore | rfl
      · exact h.backed bbo hbefore hover
      · exact absurd hover hnothing
  · exact h

/-- The announcement of the seeded books keeps the lineage. -/
theorem lineageAt_announceBooks (h : LineageAt s x) (seeded : List SymbolId) (nowMs : UInt64) :
    LineageAt (s.announceBooks seeded nowMs) x :=
  lineageAt_dispatchBbos ⟨h.seeded, h.seededIn_le, h.refreshed, h.backed⟩

/-- The announcement of the updated books keeps the lineage. -/
theorem lineageAt_announceUpdated {parsed : OrderbookFeed × List SymbolId}
    (h : LineageAt parsed.1 x) (nowMs : UInt64) :
    LineageAt (OrderbookFeed.announceUpdated parsed nowMs) x := by
  unfold OrderbookFeed.announceUpdated
  split
  · exact lineageAt_dispatchBbos h
  · exact h

/-- A step keeps the lineage, and only a ticker of a symbol that is not covered dispatches
anything but fresh quotes. -/
theorem feedStep_fresh (simdjson : Simdjson) (event : FeedEvent) (h : ∀ x, LineageAt s x) :
    (∀ x, LineageAt (feedStep simdjson s event) x) ∧
      ((∀ d ∈ s.dispatched, Fresh d) → ((∀ d ∈ (feedStep simdjson s event).dispatched, Fresh d) ↔
        TickerCovered simdjson s event)) := by
  cases event with
  | wsConnected =>
    exact ⟨fun x => lineageAt_onWsConnected (h x), fun hfresh => iff_of_true hfresh trivial⟩
  | wsDisconnected =>
    exact ⟨fun x => lineageAt_onWsDisconnected (h x), fun hfresh => iff_of_true hfresh trivial⟩
  | subscribeOrderbook symbols wsConnected =>
    refine ⟨fun x => lineageAt_subscribeOrderbook (h x) symbols wsConnected, fun hfresh => ?_⟩
    refine iff_of_true ?_ trivial
    simp only [feedStep, OrderbookFeed.subscribeOrderbook]
    split
    · exact hfresh
    · exact hfresh
  | snapshots symbols response nowMs =>
    cases response with
    | none => exact ⟨h, fun hfresh => iff_of_true hfresh trivial⟩
    | some body =>
      obtain ⟨hlink, hlineage, hcurrent⟩ :=
        seedBooks_fresh h symbols (simdjson.snapshots body).data.items
      simp only [feedStep, OrderbookFeed.fetchAllOrderbookSnapshots, TickerCovered, iff_true]
      split_ifs with hstatus hcomplete
      · refine ⟨fun x => lineageAt_announceBooks (hlineage x) _ nowMs, fun hfresh => ?_⟩
        rw [Bool.and_eq_true] at hcomplete
        refine fresh_dispatchBbos ?_ (hcurrent hcomplete.1)
        rw [hlink.dispatched]
        exact hfresh
      · refine ⟨hlineage, fun hfresh => ?_⟩
        rw [hlink.dispatched]
        exact hfresh
      · exact ⟨h, fun hfresh => hfresh⟩
  | message text nowMs =>
    simp only [feedStep, OrderbookFeed.onWsMessage, TickerCovered]
    cases hdepth : findAfter "orderbookdepth".toList text with
    | some rest =>
      have hused : ∀ u ∈ (s.depthUpdates simdjson text).1, s.isInitialized u.symbol = true :=
        fun u hu => isInitialized_of_depthUpdates hu
      obtain ⟨hlink, hlineage, hcurrent⟩ :=
        applyDepthUpdates_fresh h hused (s.depthUpdates simdjson text).2
      refine ⟨fun x => lineageAt_announceUpdated (hlineage x) nowMs, fun hfresh => ?_⟩
      refine iff_of_true ?_ (by simp)
      have hkept : ∀ d ∈ (s.parseOrderbookdepthMessage simdjson text).1.dispatched, Fresh d := by
        rw [OrderbookFeed.parseOrderbookdepthMessage, hlink.dispatched]
        exact hfresh
      dsimp only
      unfold OrderbookFeed.announceUpdated
      split
      · exact fresh_dispatchBbos hkept hcurrent
      · exact hkept
    | none =>
      dsimp only
      cases hparsed : OrderbookFeed.readTicker simdjson text with
      | none => exact ⟨h, fun hfresh => iff_of_true hfresh (by simp)⟩
      | some parsed =>
        refine ⟨fun x => lineageAt_onTicker (h x) parsed nowMs, fun hfresh => ?_⟩
        rw [fresh_onTicker_iff h hfresh]
        simp

/-- Nothing has been dispatched at the start. -/
theorem quotesFresh_initial : QuotesFresh {} where
  lineage x := ⟨by simp, by simp, by simp, by simp⟩
  fresh := by simp

/-- Every quote dispatched up to any moment of a run is of a book seeded since the last connect
exactly if every ticker that is handled while the feed is ready is of a covered symbol. -/
theorem dispatched_fresh_iff (simdjson : Simdjson) (events : List FeedEvent) :
    (∀ done, done <+: events → ∀ d ∈ (runFeed simdjson done).dispatched, Fresh d) ↔
      Run.Along (TickerCovered simdjson) (feedStep simdjson) {} events := by
  have hstep : ∀ s event, QuotesFresh s →
      (QuotesFresh (feedStep simdjson s event) ↔ TickerCovered simdjson s event) := by
    intro s event h
    obtain ⟨hlineage, hiff⟩ := feedStep_fresh simdjson event h.lineage
    rw [← hiff h.fresh]
    exact ⟨QuotesFresh.fresh, fun hfresh => ⟨hlineage, hfresh⟩⟩
  rw [← Run.throughout_iff QuotesFresh hstep events {} quotesFresh_initial]
  constructor
  · intro h done hdone
    refine ⟨?_, h done hdone⟩
    exact List.foldlRecOn (motive := fun s => ∀ x, LineageAt s x) done (feedStep simdjson)
      quotesFresh_initial.lineage fun s hs event _ => (feedStep_fresh simdjson event hs).1
  · exact fun h done hdone => (h done hdone).fresh

/-! ## A snapshot of a part of the symbols -/

/-- The text of a snapshot without XRP. -/
def eosSnapshotText : List Char :=
  ("\x7b\"status\":\"0000\",\"data\":\x7b\"EOS\":\x7b\"bids\":[\x7b\"price\":\"7\"," ++
    "\"quantity\":\"5\"\x7d],\"asks\":[\x7b\"price\":\"8\",\"quantity\":\"4\"\x7d]\x7d\x7d\x7d").toList

def eosSnapshotItem : SnapshotItem where
  key := some "EOS".toList
  bids := .levels ⟨[⟨some "7".toList, some "5".toList⟩], true⟩
  asks := .levels ⟨[⟨some "8".toList, some "4".toList⟩], true⟩

/-- Simdjson on the two snapshots. -/
def twoSnapshotsJson : Simdjson :=
  { xrpSnapshotJson with
    snapshots := fun text =>
      if text = eosSnapshotText then ⟨some "0000".toList, [eosSnapshotItem], true⟩
      else xrpSnapshotJson.snapshots text }

def xrpTickerText : List Char :=
  ("\x7b\"type\":\"ticker\",\"content\":\x7b\"symbol\":\"XRP_KRW\"," ++
    "\"closePrice\":\"90\"\x7d\x7d").toList

/-- After a reconnect the snapshot brings EOS only, and then a ticker of XRP arrives. -/
def partlySeeded : List FeedEvent :=
  xrpSeeded ++
    [.wsDisconnected, .wsConnected, .snapshots [xrp, eos] (some eosSnapshotText) 2,
      .message xrpTickerText 3]

/-- It is dispatched with the quotes from before the disconnect. -/
theorem staleQuote_afterReconnect :
    ¬ ∀ (simdjson : Simdjson) (events : List FeedEvent),
      ∀ d ∈ (runFeed simdjson events).dispatched, Fresh d := by
  intro h
  have hlast : ((runFeed twoSnapshotsJson partlySeeded).dispatched.getLast?.map fun d =>
      (d.ticker.symbol, d.ticker.bid, d.source.map Bbo.seededIn, d.connects)) =
        some (xrp, 100, some 1, 2) := by decide +kernel
  obtain ⟨d, hd, hvalues⟩ := Option.map_eq_some_iff.mp hlast
  simp only [Prod.mk.injEq] at hvalues
  obtain ⟨-, hbid, hseeded, hconnects⟩ := hvalues
  obtain ⟨bbo, hsource, hfresh, -⟩ := h twoSnapshotsJson partlySeeded d (List.mem_of_getLast? hd)
    (Or.inl (by rw [hbid]; norm_num))
  rw [hsource, Option.map_some, Option.some.injEq] at hseeded
  omega

end SpotRelay.Analysis
