import SpotRelay.Library.Run
import SpotRelay.Analysis.FeedFrames

/-!
# The published quotes are those of the books

A depth message refreshes the BBO of a symbol only when another symbol comes up or the message
ends.  `BatchAfter` says what the cache holds in the middle of the loop: of every symbol the best
levels of its book as it was before the batch that is open.  At the end of the message no batch is
open, and at every other event the cache follows the books at once.

* **the middle of a message**: each update keeps the cache in step with the books before the open
  batch (`BatchAfter`).
* **each event** of the feed leaves the cache consistent with the books (`feedStep_consistent`).
* **what is handed on** after a depth message is every symbol whose best levels it changed
  (`mem_updated_of_changed`).
-/

set_option autoImplicit false

namespace SpotRelay.Analysis

open SpotRelay.Model SpotRelay.Library

/-! ## The loop over the updates of a message -/

/-- Where the loop is after `updates`, started in the feed `s`. -/
structure BatchAfter (s : OrderbookFeed) (updates : List DepthUpdate) (b : DepthBatch) : Prop where
  last : b.lastUpdatedSymbol = updates.getLast?.map DepthUpdate.symbol
  books : ∀ x, b.feed.orderbookState x = (s.orderbookState x).map (updatedBook x updates)
  entries : ∀ x, (b.feed.orderbookBbo x).isSome = (s.orderbookBbo x).isSome
  published : ∀ x state, s.orderbookState x = some state → state.initialized = true →
    publishedLevels s x = some state.bestLevels →
      publishedLevels b.feed x = some (updatedBook x (beforeOpenBatch x updates) state).bestLevels

variable {s : OrderbookFeed} {updates : List DepthUpdate} {b : DepthBatch}

/-- An initialised book is there. -/
theorem exists_of_isInitialized {x : SymbolId} (h : s.isInitialized x = true) :
    ∃ state, s.orderbookState x = some state ∧ state.initialized = true := by
  unfold OrderbookFeed.isInitialized at h
  cases hstate : s.orderbookState x with
  | none => simp [hstate] at h
  | some state => exact ⟨state, rfl, by simpa [hstate] using h⟩

/-- A book that is there and has its flag set is initialised. -/
theorem isInitialized_of {x : SymbolId} {state : OrderbookState}
    (hstate : s.orderbookState x = some state) (hinit : state.initialized = true) :
    s.isInitialized x = true := by
  simp [OrderbookFeed.isInitialized, hstate, hinit]

/-- Published levels are those of an entry. -/
theorem isSome_of_publishedLevels {x : SymbolId} {levels : BestLevels}
    (h : publishedLevels s x = some levels) : (s.orderbookBbo x).isSome = true := by
  unfold publishedLevels at h
  cases hbbo : s.orderbookBbo x with
  | none => simp [hbbo] at h
  | some bbo => rfl

namespace BatchAfter

/-- Before its first update a batch is as the feed was. -/
theorem start (s : OrderbookFeed) : BatchAfter s [] { feed := s } where
  last := rfl
  books x := by
    cases s.orderbookState x <;> rfl
  entries _ := rfl
  published _ _ _ _ hpublished := hpublished

/-- When the symbol that was being updated is flushed, every BBO is that of its book. -/
theorem published_flush (h : BatchAfter s updates b) {x : SymbolId} {state : OrderbookState}
    (hstate : s.orderbookState x = some state) (hinit : state.initialized = true)
    (hpublished : publishedLevels s x = some state.bestLevels) :
    publishedLevels b.flush.feed x = some (updatedBook x updates state).bestLevels := by
  have hlevels := h.published x state hstate hinit hpublished
  unfold DepthBatch.flush
  cases hlast : b.lastUpdatedSymbol with
  | none =>
    have hclosed : beforeOpenBatch x updates = updates :=
      beforeOpenBatch_of_last (by simp [← h.last, hlast])
    rw [hclosed] at hlevels
    exact hlevels
  | some last =>
    by_cases hx : x = last
    · subst hx
      refine publishedLevels_updateBbo (by rw [h.books, hstate]; rfl) (by simpa using hinit) ?_
      rw [h.entries]
      exact isSome_of_publishedLevels hpublished
    · rw [publishedLevels_updateBbo_of_ne hx, hlevels, beforeOpenBatch_of_last]
      rw [← h.last, hlast]
      simpa using Ne.symm hx

/-- The flush of another symbol does not see the book that is set. -/
theorem flush_setBook {x : SymbolId} {state : OrderbookState}
    (h : b.lastUpdatedSymbol ≠ some x) :
    { b with feed := b.feed.setBook x state }.flush =
      { b.flush with feed := b.flush.feed.setBook x state } := by
  unfold DepthBatch.flush
  dsimp only
  cases hlast : b.lastUpdatedSymbol with
  | none => simp [hlast]
  | some last =>
    have hne : last ≠ x := fun heq => h (hlast.trans (congrArg some heq))
    dsimp only
    rw [updateBbo_setBook_of_ne hne]

/-- The end of a batch leaves the books. -/
theorem orderbookState_flush : b.flush.feed.orderbookState = b.feed.orderbookState := by
  unfold DepthBatch.flush
  split <;> simp

/-- It adds no entry to the cache. -/
theorem isSome_orderbookBbo_flush (x : SymbolId) :
    (b.flush.feed.orderbookBbo x).isSome = (b.feed.orderbookBbo x).isSome := by
  unfold DepthBatch.flush
  split
  · exact isSome_orderbookBbo_updateBbo
  · rfl

/-- The next update of the message: it opens a new batch where it names another symbol. -/
theorem apply (h : BatchAfter s updates b) {u : DepthUpdate}
    (hinit : s.isInitialized u.symbol = true) : BatchAfter s (updates ++ [u]) (b.apply u) := by
  obtain ⟨state, hstate, -⟩ := exists_of_isInitialized hinit
  have hbook : b.feed.orderbookState u.symbol = some (updatedBook u.symbol updates state) := by
    rw [h.books, hstate]
    rfl
  have hbooks : ∀ x, Function.update b.feed.orderbookState u.symbol
      (some (u.applyTo (updatedBook u.symbol updates state))) x =
        (s.orderbookState x).map (updatedBook x (updates ++ [u])) := by
    intro x
    by_cases hx : u.symbol = x
    · subst hx
      rw [Function.update_self, hstate, Option.map_some, updatedBook_append_self rfl]
    · rw [Function.update_of_ne (Ne.symm hx), h.books]
      congr 1
      funext state
      rw [updatedBook_append_of_ne hx]
  unfold DepthBatch.apply
  rw [hbook]
  dsimp only
  split_ifs with hlast
  · -- the open batch goes on
    refine ⟨by simp [hlast], hbooks, h.entries, ?_⟩
    intro x state' hstate' hinit' hpublished
    have hlevels := h.published x state' hstate' hinit' hpublished
    by_cases hx : u.symbol = x
    · rw [beforeOpenBatch_append_self hx]
      exact hlevels
    · rw [beforeOpenBatch_append_of_ne hx, updatedBook_append_of_ne hx]
      rw [beforeOpenBatch_of_last] at hlevels
      · exact hlevels
      · rw [← h.last, hlast]
        simpa using hx
  · -- the batch of the last symbol ends
    rw [flush_setBook hlast]
    refine ⟨by simp, ?_, ?_, ?_⟩
    · intro x
      simpa [orderbookState_flush] using hbooks x
    · intro x
      exact (isSome_orderbookBbo_flush x).trans (h.entries x)
    · intro x state' hstate' hinit' hpublished
      have hlevels := h.published_flush hstate' hinit' hpublished
      by_cases hx : u.symbol = x
      · subst hx
        rw [beforeOpenBatch_append_self rfl, beforeOpenBatch_of_last (by rwa [← h.last])]
        exact hlevels
      · rw [beforeOpenBatch_append_of_ne hx, updatedBook_append_of_ne hx]
        exact hlevels

end BatchAfter

/-- The whole loop, which only meets updates of seeded books. -/
theorem batchAfter (hinit : ∀ u ∈ updates, s.isInitialized u.symbol = true) :
    BatchAfter s updates (updates.foldl DepthBatch.apply { feed := s }) := by
  induction updates using List.reverseRecOn with
  | nil => exact BatchAfter.start s
  | append_singleton updates u ih =>
    rw [List.foldl_append, List.foldl_cons, List.foldl_nil]
    refine (ih fun v hv => hinit v ?_).apply (hinit u ?_)
    · exact List.mem_append_left _ hv
    · simp

/-- The slow path yields updates of initialised books only. -/
theorem isInitialized_of_readDepthItems {initialized : SymbolId → Bool} {items : List DepthItem}
    {u : DepthUpdate} (h : u ∈ (readDepthItems initialized items).1) :
    initialized u.symbol = true := by
  induction items with
  | nil => cases h
  | cons item rest ih =>
    unfold readDepthItems at h
    cases hsymbol : item.symbol with
    | none => simp [hsymbol] at h
    | some symbolSv =>
      rw [hsymbol] at h
      dsimp only at h
      split_ifs at h with hinit
      · split at h
        · rcases List.mem_cons.mp h with rfl | h
          · exact hinit
          · exact ih h
        · cases h
      · exact ih h

/-- Both paths yield updates of initialised books only. -/
theorem isInitialized_of_depthUpdates {simdjson : Simdjson} {message : List Char} {u : DepthUpdate}
    (h : u ∈ (s.depthUpdates simdjson message).1) : s.isInitialized u.symbol = true := by
  unfold OrderbookFeed.depthUpdates at h
  cases hfast : parseOrderbookdepthFast message with
  | some updates =>
    rw [hfast] at h
    exact (List.mem_filter.mp h).2
  | none =>
    rw [hfast] at h
    dsimp only at h
    cases htype : (simdjson.depth message).type with
    | none =>
      rw [htype] at h
      cases h
    | some type =>
      rw [htype] at h
      dsimp only at h
      split_ifs at h
      · exact isInitialized_of_readDepthItems h
      · cases h

/-! ## Every event -/

/-- The BBO of every seeded book whose symbol had an entry then is that of its first levels. -/
def BboConsistent (s : OrderbookFeed) : Prop :=
  ∀ x state, s.orderbookState x = some state → state.initialized = true →
    state.seededBbo = true → publishedLevels s x = some state.bestLevels

/-- The handlers throw nothing on the event. -/
def parsedThrough (simdjson : Simdjson) (s : OrderbookFeed) : FeedEvent → Bool
  | .snapshots symbols (some body) _ =>
    let doc := simdjson.snapshots body
    doc.status ≠ some "0000".toList ||
      ((OrderbookFeed.seedBooks symbols s doc.data.items).2.2 && doc.data.complete)
  | .message text _ =>
    (findAfter "orderbookdepth".toList text).isNone || (s.depthUpdates simdjson text).2
  | _ => true

variable {s' : OrderbookFeed}

/-- What is published may only be added to. -/
theorem BboConsistent.of_published (h : BboConsistent s)
    (hstate : s'.orderbookState = s.orderbookState)
    (hlevels : ∀ x levels, publishedLevels s x = some levels → publishedLevels s' x = some levels) :
    BboConsistent s' := by
  intro x state hx hinit hbbo
  rw [hstate] at hx
  exact hlevels x _ (h x state hx hinit hbbo)

/-- An item that is read leaves the cache consistent with the books. -/
theorem loadItem_consistent (h : BboConsistent s) (y : SymbolId) {item : SnapshotItem}
    (hread : item.isRead = true) : BboConsistent (s.loadItem y item) := by
  intro x state hstate hinit hbbo
  by_cases hx : x = y
  · subst hx
    rw [orderbookState_loadItem hread, Option.some.injEq] at hstate
    subst hstate
    obtain ⟨bbo, hentry⟩ := Option.isSome_iff_exists.mp hbbo
    rw [publishedLevels_loadItem hread, hentry, Option.map_some]
  · rw [orderbookState_loadItem_of_ne item hx] at hstate
    rw [publishedLevels, orderbookBbo_loadItem_of_ne item hx]
    exact h x state hstate hinit hbbo

/-- A depth message that is read to its end leaves every BBO to its book. -/
theorem applyDepthUpdates_consistent (h : BboConsistent s)
    (hinit : ∀ u ∈ updates, s.isInitialized u.symbol = true) :
    BboConsistent (s.applyDepthUpdates updates true).1 := by
  have hbatch := batchAfter hinit
  intro x state hstate hseeded hbbo
  simp only [OrderbookFeed.applyDepthUpdates, if_true] at hstate ⊢
  rw [BatchAfter.orderbookState_flush, hbatch.books, Option.map_eq_some_iff] at hstate
  obtain ⟨before, hbefore, rfl⟩ := hstate
  rw [initialized_updatedBook] at hseeded
  rw [seededBbo_updatedBook] at hbbo
  exact hbatch.published_flush hbefore hseeded (h x before hbefore hseeded hbbo)

/-- A stored last price leaves the published levels. -/
theorem publishedLevels_storeLastPrice (parsed : ParsedTicker) (x : SymbolId) :
    publishedLevels (s.storeLastPrice parsed) x = publishedLevels s x := by
  unfold OrderbookFeed.storeLastPrice publishedLevels
  cases hbbo : s.orderbookBbo parsed.symbol with
  | none => rfl
  | some bbo =>
    by_cases hx : x = parsed.symbol
    · subst hx
      simp [OrderbookFeed.setBbo, hbbo]
    · simp [OrderbookFeed.setBbo, Function.update_of_ne hx]

/-- A ticker message stores its last price and dispatches one ticker. -/
theorem onTicker_eq (s : OrderbookFeed) (parsed : ParsedTicker) (nowMs : UInt64) :
    ∃ ticker source,
      s.onTicker parsed nowMs = (s.storeLastPrice parsed).dispatchTicker ticker source := by
  unfold OrderbookFeed.onTicker
  dsimp only
  split
  · split
    · exact ⟨_, _, rfl⟩
    · exact ⟨_, _, rfl⟩
  · exact ⟨_, _, rfl⟩

/-- A ticker message leaves the books, and the cache but for the last price. -/
theorem onTicker_books (parsed : ParsedTicker) (nowMs : UInt64) :
    (s.onTicker parsed nowMs).orderbookState = s.orderbookState ∧
      (s.onTicker parsed nowMs).orderbookBbo = (s.storeLastPrice parsed).orderbookBbo := by
  have hstore : (s.storeLastPrice parsed).orderbookState = s.orderbookState := by
    unfold OrderbookFeed.storeLastPrice
    split <;> rfl
  obtain ⟨ticker, source, hticker⟩ := onTicker_eq s parsed nowMs
  rw [hticker]
  exact ⟨hstore, rfl⟩

/-- The announcement of updated symbols leaves books and cache. -/
theorem announceUpdated_books (parsed : OrderbookFeed × List SymbolId) (nowMs : UInt64) :
    (OrderbookFeed.announceUpdated parsed nowMs).orderbookState = parsed.1.orderbookState ∧
      (OrderbookFeed.announceUpdated parsed nowMs).orderbookBbo = parsed.1.orderbookBbo := by
  unfold OrderbookFeed.announceUpdated
  split <;> simp

/-- The announcement of seeded symbols leaves books and cache. -/
theorem announceBooks_books (seeded : List SymbolId) (nowMs : UInt64) :
    (s.announceBooks seeded nowMs).orderbookState = s.orderbookState ∧
      (s.announceBooks seeded nowMs).orderbookBbo = s.orderbookBbo := by
  simp [OrderbookFeed.announceBooks]

/-- Every event that is parsed through leaves the cache consistent with the books. -/
theorem feedStep_consistent {simdjson : Simdjson} {event : FeedEvent} (h : BboConsistent s)
    (hparsed : parsedThrough simdjson s event = true) :
    BboConsistent (feedStep simdjson s event) := by
  cases event with
  | wsConnected =>
    intro x state hstate hinit
    simp only [feedStep, OrderbookFeed.onWsConnected, Option.map_eq_some_iff] at hstate
    obtain ⟨before, -, rfl⟩ := hstate
    cases hinit
  | wsDisconnected => exact h.of_published rfl fun _ _ hlevels => hlevels
  | subscribeOrderbook symbols wsConnected =>
    simp only [feedStep, OrderbookFeed.subscribeOrderbook]
    split
    · refine h.of_published rfl fun x levels hlevels => ?_
      obtain ⟨bbo, hbbo, rfl⟩ := Option.map_eq_some_iff.mp hlevels
      simp [publishedLevels, hbbo]
    · exact h
  | snapshots symbols response nowMs =>
    cases response with
    | none => exact h
    | some body =>
      simp only [feedStep, OrderbookFeed.fetchAllOrderbookSnapshots]
      simp only [parsedThrough] at hparsed
      split_ifs with hstatus hcomplete
      · obtain ⟨hstate, hbbo⟩ := announceBooks_books
          (s := (OrderbookFeed.seedBooks symbols s (simdjson.snapshots body).data.items).1)
          (OrderbookFeed.seedBooks symbols s (simdjson.snapshots body).data.items).2.1 nowMs
        refine BboConsistent.of_published ?_ hstate fun x levels hlevels => ?_
        · rw [Bool.and_eq_true] at hcomplete
          rw [seedBooks_eq]
          have hread := isRead_of_complete hcomplete.1
          exact List.foldlRecOn _ _ h fun s hs p hp => loadItem_consistent hs p.1 (hread p hp)
        · rw [publishedLevels, hbbo]
          exact hlevels
      · simp [hstatus, hcomplete] at hparsed
      · exact h
  | message text nowMs =>
    simp only [feedStep, OrderbookFeed.onWsMessage]
    simp only [parsedThrough] at hparsed
    cases hdepth : findAfter "orderbookdepth".toList text with
    | some rest =>
      rw [hdepth] at hparsed
      obtain ⟨hstate, hbbo⟩ :=
        announceUpdated_books (s.parseOrderbookdepthMessage simdjson text) nowMs
      refine BboConsistent.of_published ?_ hstate fun x levels hlevels => ?_
      · have hcomplete : (s.depthUpdates simdjson text).2 = true := by simpa using hparsed
        rw [OrderbookFeed.parseOrderbookdepthMessage, hcomplete]
        exact applyDepthUpdates_consistent h fun u hu => isInitialized_of_depthUpdates hu
      · rw [publishedLevels, hbbo]
        exact hlevels
    | none =>
      dsimp only
      cases OrderbookFeed.readTicker simdjson text with
      | none => exact h
      | some parsed =>
        obtain ⟨hstate, hbbo⟩ := onTicker_books (s := s) parsed nowMs
        refine h.of_published hstate fun x levels hlevels => ?_
        rw [publishedLevels, hbbo]
        exact (publishedLevels_storeLastPrice parsed x).trans hlevels

/-! ## What is announced -/

/-- A BBO that the loop has changed is in the list. -/
theorem mem_updatedSymbols_flush (x : SymbolId)
    (h : b.feed.orderbookBbo x ≠ s.orderbookBbo x → x ∈ b.updatedSymbols) :
    b.flush.feed.orderbookBbo x ≠ s.orderbookBbo x → x ∈ b.flush.updatedSymbols := by
  unfold DepthBatch.flush
  cases b.lastUpdatedSymbol with
  | none => exact h
  | some last =>
    intro hchanged
    by_cases hx : x = last
    · simp [hx]
    · rw [orderbookBbo_updateBbo_of_ne hx] at hchanged
      exact List.mem_append_left _ (h hchanged)

/-- A symbol whose entry an update has changed is listed as updated. -/
theorem mem_updatedSymbols_apply (x : SymbolId) (u : DepthUpdate)
    (h : b.feed.orderbookBbo x ≠ s.orderbookBbo x → x ∈ b.updatedSymbols) :
    (b.apply u).feed.orderbookBbo x ≠ s.orderbookBbo x → x ∈ (b.apply u).updatedSymbols := by
  unfold DepthBatch.apply
  cases b.feed.orderbookState u.symbol with
  | none => exact h
  | some state =>
    dsimp only
    split
    · exact h
    · exact mem_updatedSymbols_flush x h

/-- Every symbol whose BBO a depth message changes is handed on, also when the message throws. -/
theorem mem_updated_of_changed (s : OrderbookFeed) (updates : List DepthUpdate) (complete : Bool)
    (x : SymbolId)
    (h : (s.applyDepthUpdates updates complete).1.orderbookBbo x ≠ s.orderbookBbo x) :
    x ∈ (s.applyDepthUpdates updates complete).2 := by
  have hloop : (updates.foldl DepthBatch.apply { feed := s }).feed.orderbookBbo x ≠
      s.orderbookBbo x → x ∈ (updates.foldl DepthBatch.apply { feed := s }).updatedSymbols :=
    List.foldlRecOn (motive := fun b : DepthBatch =>
      b.feed.orderbookBbo x ≠ s.orderbookBbo x → x ∈ b.updatedSymbols) updates DepthBatch.apply
      (fun hchanged => absurd rfl hchanged) fun b hb u _ => mem_updatedSymbols_apply x u hb
  unfold OrderbookFeed.applyDepthUpdates at h ⊢
  cases complete with
  | true => exact mem_updatedSymbols_flush x hloop h
  | false => exact hloop h

/-! ## Runs without exceptions -/

/-- As long as nothing throws, the BBO of every seeded book is its first levels, and a depth
message hands on every symbol whose BBO it changes. -/
theorem publishedQuotes_ofBooks (simdjson : Simdjson) (events : List FeedEvent)
    (hparsed : Run.Along (fun s event => parsedThrough simdjson s event = true)
      (feedStep simdjson) {} events) :
    BboConsistent (runFeed simdjson events) ∧
      ∀ text x,
        let parsed := (runFeed simdjson events).parseOrderbookdepthMessage simdjson text
        parsed.1.orderbookBbo x ≠ (runFeed simdjson events).orderbookBbo x → x ∈ parsed.2 := by
  constructor
  · refine Run.invariant BboConsistent (fun s event h hthrough => feedStep_consistent h hthrough)
      events {} ?_ hparsed
    intro x state hstate
    cases hstate
  · intro text x parsed hchanged
    exact mem_updated_of_changed _ _ _ x hchanged

/-! ## A run over two symbols -/

def xrp : SymbolId := .of "XRP" "KRW"
def eos : SymbolId := .of "EOS" "KRW"

/-- One element of the list of a depth message. -/
def depthObject (symbol side price quantity : String) : List Char :=
  "\x7b\"symbol\":\"".toList ++ symbol.toList ++ "\",\"orderType\":\"".toList ++ side.toList ++
    "\",\"price\":\"".toList ++ price.toList ++ "\",\"quantity\":\"".toList ++
      quantity.toList ++ "\"\x7d".toList

/-- A depth message of such elements. -/
def depthText (objects : List (List Char)) : List Char :=
  "\x7b\"type\":\"orderbookdepth\",\"content\":\x7b\"list\":[".toList ++
    [','].intercalate objects ++ "]\x7d\x7d".toList

/-- The text of a snapshot of XRP with one level a side. -/
def xrpSnapshotText : List Char :=
  ("\x7b\"status\":\"0000\",\"data\":\x7b\"XRP\":\x7b\"bids\":[\x7b\"price\":\"100\"," ++
    "\"quantity\":\"5\"\x7d],\"asks\":[\x7b\"price\":\"102\",\"quantity\":\"4\"\x7d]\x7d\x7d\x7d").toList

def xrpSnapshotItem : SnapshotItem where
  key := some "XRP".toList
  bids := .levels ⟨[⟨some "100".toList, some "5".toList⟩], true⟩
  asks := .levels ⟨[⟨some "102".toList, some "4".toList⟩], true⟩

/-- Simdjson on that text; every other text is no document. -/
def xrpSnapshotJson : Simdjson where
  depth _ := ⟨none, [], false⟩
  ticker _ := ⟨none, none, none⟩
  snapshots text :=
    if text = xrpSnapshotText then ⟨some "0000".toList, [xrpSnapshotItem], true⟩
    else ⟨none, [], false⟩

/-- The feed is connected and subscribed, and then seeded. -/
def xrpSubscribed : List FeedEvent := [.wsConnected, .subscribeOrderbook [xrp, eos] true]

def xrpSeeded : List FeedEvent :=
  xrpSubscribed ++ [.snapshots [xrp, eos] (some xrpSnapshotText) 1]

/-- A message then brings three updates. -/
def xrpEvents : List FeedEvent :=
  xrpSeeded ++
    [.message (depthText [depthObject "XRP_KRW" "bid" "101" "2",
      depthObject "EOS_KRW" "ask" "7" "1", depthObject "XRP_KRW" "ask" "102" "0"]) 2]

/-- The general result for a snapshot of XRP and two messages. -/
theorem publishedQuotes_ofBooks_xrp :
    publishedLevels (runFeed xrpSnapshotJson xrpEvents) xrp = some ⟨101, 0, 2, 0⟩ ∧
      BboConsistent (runFeed xrpSnapshotJson xrpEvents) :=
  ⟨by decide +kernel, (publishedQuotes_ofBooks xrpSnapshotJson xrpEvents (by decide +kernel)).1⟩

end SpotRelay.Analysis
