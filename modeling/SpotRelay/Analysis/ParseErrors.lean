import SpotRelay.Analysis.BboConsistency

/-!
# What a parse error leaves of the books

Both handlers change the books while they read, and what an exception finds changed stays so.  A
depth message is harmless if the batch that it breaks off leaves the best levels of its symbol as
they were; a snapshot is if no book that is already in use is the one whose levels break off.

* **a snapshot** leaves the books sound exactly if it is harmless (`loadBooks_sound_iff`), however
  far it was read.
* **one event** does so exactly if it is (`feedStep_sound_iff`), and the feed starts with sound
  books (`booksSound_initial`).
-/

set_option autoImplicit false

namespace SpotRelay.Analysis

open SpotRelay.Model SpotRelay.Library

/-- Every seeded book holds all levels of a snapshot, and its best ones are those published. -/
def BooksSound (s : OrderbookFeed) : Prop :=
  BboConsistent s ∧
    ∀ x state, s.orderbookState x = some state → state.initialized = true → state.whole = true

/-- The updates of a depth message that is broken off: in each book the open batch leaves the
best levels as it found them. -/
def InterruptionHarmless (s : OrderbookFeed) (updates : List DepthUpdate) : Prop :=
  ∀ x state, s.orderbookState x = some state → state.initialized = true →
    state.seededBbo = true →
      (updatedBook x (beforeOpenBatch x updates) state).bestLevels =
        (updatedBook x updates state).bestLevels

/-- What the loop over a snapshot gets to see of the book of `x`. -/
def entriesOf (x : SymbolId) (books : List (SymbolId × SnapshotItem)) : List SnapshotItem :=
  (books.filter fun p => p.1 = x).map Prod.snd

/-- The last that is read of each book is all of it, or it breaks off in a book that is not in
use. -/
def SnapshotHarmless (s : OrderbookFeed) (books : List (SymbolId × SnapshotItem)) : Prop :=
  ∀ x item, (entriesOf x books).getLast? = some item →
    item.isRead = true ∧ item.isSound = true ∨
      item.isRead = false ∧ s.isInitialized x = false ∧ entriesOf x books = [item]

/-- The event leaves the books sound. -/
def Harmless (simdjson : Simdjson) (s : OrderbookFeed) : FeedEvent → Prop
  | .snapshots symbols (some body) _ =>
    (simdjson.snapshots body).status = some "0000".toList →
      SnapshotHarmless s (booksRead symbols (simdjson.snapshots body).data.items)
  | .message text _ =>
    (findAfter "orderbookdepth".toList text).isSome = true →
      (s.depthUpdates simdjson text).2 = false →
        InterruptionHarmless s (s.depthUpdates simdjson text).1
  | _ => True

variable {s s' : OrderbookFeed}

/-- The books' soundness depends on the book state and the published levels alone. -/
theorem BooksSound.congr (hstate : s'.orderbookState = s.orderbookState)
    (hlevels : ∀ x, publishedLevels s' x = publishedLevels s x) :
    BooksSound s' ↔ BooksSound s := by
  unfold BooksSound BboConsistent
  simp only [hstate, hlevels]

/-! ## Depth messages -/

/-- A depth message changes no book but in its levels. -/
theorem whole_applyDepthUpdates {updates : List DepthUpdate} {complete : Bool}
    (h : ∀ x state, s.orderbookState x = some state → state.initialized = true →
      state.whole = true)
    (hinit : ∀ u ∈ updates, s.isInitialized u.symbol = true) :
    ∀ x state, (s.applyDepthUpdates updates complete).1.orderbookState x = some state →
      state.initialized = true → state.whole = true := by
  have hbatch := batchAfter hinit
  intro x state hstate hseeded
  have hbook : (s.orderbookState x).map (updatedBook x updates) = some state := by
    rw [← hbatch.books, ← hstate]
    unfold OrderbookFeed.applyDepthUpdates
    split
    · rw [BatchAfter.orderbookState_flush]
    · rfl
  obtain ⟨before, hbefore, rfl⟩ := Option.map_eq_some_iff.mp hbook
  rw [initialized_updatedBook] at hseeded
  rw [whole_updatedBook]
  exact h x before hbefore hseeded

/-- A message that is broken off leaves the books sound exactly if its open batch changes no best
level. -/
theorem interrupted_iff {updates : List DepthUpdate} (h : BooksSound s)
    (hinit : ∀ u ∈ updates, s.isInitialized u.symbol = true) :
    BooksSound (s.applyDepthUpdates updates false).1 ↔ InterruptionHarmless s updates := by
  have hbatch := batchAfter hinit
  have hbook : ∀ x, (s.applyDepthUpdates updates false).1.orderbookState x =
      (s.orderbookState x).map (updatedBook x updates) := hbatch.books
  have hlevels : ∀ x state, s.orderbookState x = some state → state.initialized = true →
      state.seededBbo = true → publishedLevels (s.applyDepthUpdates updates false).1 x =
        some (updatedBook x (beforeOpenBatch x updates) state).bestLevels := by
    intro x state hstate hseeded hbbo
    exact hbatch.published x state hstate hseeded (h.1 x state hstate hseeded hbbo)
  constructor
  · rintro ⟨hconsistent, -⟩ x state hstate hseeded hbbo
    have hafter := hconsistent x (updatedBook x updates state) (by rw [hbook, hstate]; rfl)
      (by simpa using hseeded) (by simpa using hbbo)
    rw [hlevels x state hstate hseeded hbbo] at hafter
    exact Option.some.inj hafter
  · intro hharmless
    refine ⟨?_, whole_applyDepthUpdates h.2 hinit⟩
    intro x state hstate hseeded hbbo
    rw [hbook, Option.map_eq_some_iff] at hstate
    obtain ⟨before, hbefore, rfl⟩ := hstate
    rw [initialized_updatedBook] at hseeded
    rw [seededBbo_updatedBook] at hbbo
    rw [hlevels x before hbefore hseeded hbbo, hharmless x before hbefore hseeded hbbo]

/-! ## Snapshots -/

/-- The books of a snapshot, one after the other. -/
def loadBooks (s : OrderbookFeed) (books : List (SymbolId × SnapshotItem)) : OrderbookFeed :=
  books.foldl (fun s p => s.loadItem p.1 p.2) s

/-- Books are loaded in the order in which they are listed. -/
theorem loadBooks_append (books : List (SymbolId × SnapshotItem)) (p : SymbolId × SnapshotItem) :
    loadBooks s (books ++ [p]) = (loadBooks s books).loadItem p.1 p.2 := by
  simp [loadBooks]

/-- A symbol's entries end with its last listed book. -/
theorem entriesOf_append_self {x : SymbolId} {books : List (SymbolId × SnapshotItem)}
    {p : SymbolId × SnapshotItem} (h : p.1 = x) :
    entriesOf x (books ++ [p]) = entriesOf x books ++ [p.2] := by
  simp [entriesOf, h]

/-- Another symbol's book is not among a symbol's entries. -/
theorem entriesOf_append_of_ne {x : SymbolId} {books : List (SymbolId × SnapshotItem)}
    {p : SymbolId × SnapshotItem} (h : p.1 ≠ x) :
    entriesOf x (books ++ [p]) = entriesOf x books := by
  simp [entriesOf, h]

/-- A book that the snapshot does not come to is left alone. -/
theorem loadBooks_untouched {x : SymbolId} {books : List (SymbolId × SnapshotItem)}
    (h : entriesOf x books = []) :
    (loadBooks s books).orderbookState x = s.orderbookState x ∧
      (loadBooks s books).orderbookBbo x = s.orderbookBbo x := by
  induction books using List.reverseRecOn with
  | nil => exact ⟨rfl, rfl⟩
  | append_singleton books p ih =>
    by_cases hp : p.1 = x
    · simp [entriesOf_append_self hp] at h
    · rw [entriesOf_append_of_ne hp] at h
      rw [loadBooks_append, orderbookState_loadItem_of_ne _ (Ne.symm hp),
        orderbookBbo_loadItem_of_ne _ (Ne.symm hp)]
      exact ih h

/-- A book that is read to its end at last is in use, sound as far as the item is, and
published. -/
theorem loadBooks_read {x : SymbolId} {books : List (SymbolId × SnapshotItem)}
    {item : SnapshotItem} (hlast : (entriesOf x books).getLast? = some item)
    (hread : item.isRead = true) :
    ∃ state, (loadBooks s books).orderbookState x = some state ∧ state.initialized = true ∧
      state.whole = item.isSound ∧
        (state.seededBbo = true →
          publishedLevels (loadBooks s books) x = some state.bestLevels) := by
  induction books using List.reverseRecOn with
  | nil => cases hlast
  | append_singleton books p ih =>
    rw [loadBooks_append]
    by_cases hp : p.1 = x
    · rw [entriesOf_append_self hp, List.getLast?_concat, Option.some.injEq] at hlast
      subst hp
      subst hlast
      refine ⟨_, orderbookState_loadItem hread, rfl, rfl, fun hbbo => ?_⟩
      obtain ⟨bbo, hentry⟩ := Option.isSome_iff_exists.mp hbbo
      rw [publishedLevels_loadItem hread, hentry, Option.map_some]
    · rw [entriesOf_append_of_ne hp] at hlast
      rw [publishedLevels, orderbookState_loadItem_of_ne _ (Ne.symm hp),
        orderbookBbo_loadItem_of_ne _ (Ne.symm hp)]
      exact ih hlast

/-- A book that breaks off keeps the part of the levels, in use if it was before. -/
theorem loadBooks_brokenOff {init : List (SymbolId × SnapshotItem)}
    (hinit : ∀ q ∈ init, q.2.isRead = true) {p : SymbolId × SnapshotItem}
    (hread : p.2.isRead = false) :
    ∃ state, (loadBooks s (init ++ [p])).orderbookState p.1 = some state ∧ state.whole = false ∧
      (state.initialized = false ↔ s.isInitialized p.1 = false ∧ entriesOf p.1 init = []) := by
  refine ⟨((loadBooks s init).book p.1).replaceLevels p.2.bidLevels p.2.askLevels, ?_, rfl, ?_⟩
  · rw [loadBooks_append, OrderbookFeed.loadItem, if_neg (by simp [hread]), orderbookState_setBook,
      Function.update_self]
  · have hflag : (((loadBooks s init).book p.1).replaceLevels p.2.bidLevels
        p.2.askLevels).initialized = (loadBooks s init).isInitialized p.1 := by
      unfold OrderbookState.replaceLevels OrderbookFeed.book OrderbookFeed.isInitialized
      cases (loadBooks s init).orderbookState p.1 <;> rfl
    rw [hflag]
    rcases List.eq_nil_or_concat (entriesOf p.1 init) with hnone | ⟨earlier, item, hsome⟩
    · simp only [hnone, and_true, OrderbookFeed.isInitialized,
        (loadBooks_untouched (s := s) hnone).1]
    · have hmem : item ∈ entriesOf p.1 init := by simp [hsome]
      obtain ⟨q, hq, rfl⟩ := List.mem_map.mp hmem
      have hlast : (entriesOf p.1 init).getLast? = some q.2 := by
        rw [hsome, List.concat_eq_append, List.getLast?_concat]
      obtain ⟨state, hstate, hused, -⟩ :=
        loadBooks_read (s := s) hlast (hinit q (List.mem_filter.mp hq).1)
      rw [isInitialized_of hstate hused]
      simp [hsome]

/-- The entry that breaks off is the last one that the loop gets to. -/
theorem booksRead_brokenOff {symbols : List SymbolId} {items : List SnapshotItem} {x : SymbolId}
    {item : SnapshotItem} (hlast : (entriesOf x (booksRead symbols items)).getLast? = some item)
    (hread : item.isRead = false) :
    ∃ init, booksRead symbols items = init ++ [(x, item)] ∧ ∀ q ∈ init, q.2.isRead = true := by
  rcases List.eq_nil_or_concat (booksRead symbols items) with hnone | ⟨init, p, hsome⟩
  · rw [hnone] at hlast
    cases hlast
  · rw [List.concat_eq_append] at hsome
    have hinit := isRead_of_mem_init hsome
    obtain ⟨q, hq, rfl⟩ := List.mem_map.mp (List.mem_of_getLast? hlast)
    obtain ⟨hq, hx⟩ := List.mem_filter.mp hq
    rw [hsome, List.mem_append, List.mem_singleton] at hq
    rcases hq with hq | rfl
    · rw [hinit q hq] at hread
      cases hread
    · have hx : q.1 = x := by simpa using hx
      subst hx
      exact ⟨init, hsome, hinit⟩

/-- The loop leaves the books sound exactly if the snapshot is harmless. -/
theorem loadBooks_sound_iff {symbols : List SymbolId} {items : List SnapshotItem}
    (h : BooksSound s) :
    BooksSound (loadBooks s (booksRead symbols items)) ↔
      SnapshotHarmless s (booksRead symbols items) := by
  constructor
  · rintro ⟨-, hwhole⟩ x item hlast
    cases hread : item.isRead with
    | true =>
      obtain ⟨state, hstate, hused, hsound, -⟩ := loadBooks_read (s := s) hlast hread
      exact Or.inl ⟨rfl, hsound.symm.trans (hwhole x state hstate hused)⟩
    | false =>
      obtain ⟨init, hbooks, hinit⟩ := booksRead_brokenOff hlast hread
      obtain ⟨state, hstate, hpart, hused⟩ :=
        loadBooks_brokenOff (s := s) hinit (p := (x, item)) hread
      rw [← hbooks] at hstate
      have hidle : state.initialized = false := by
        rw [← Bool.not_eq_true]
        intro hinuse
        rw [hwhole x state hstate hinuse] at hpart
        cases hpart
      obtain ⟨hbefore, halone⟩ := hused.mp hidle
      refine Or.inr ⟨rfl, hbefore, ?_⟩
      rw [hbooks, entriesOf_append_self (x := x) rfl, halone]
      rfl
  · intro hharmless
    have hbook : ∀ x state, (loadBooks s (booksRead symbols items)).orderbookState x = some state →
        state.initialized = true → state.whole = true ∧ (state.seededBbo = true →
          publishedLevels (loadBooks s (booksRead symbols items)) x = some state.bestLevels) := by
      intro x state hstate hused
      cases hlast : (entriesOf x (booksRead symbols items)).getLast? with
      | none =>
        obtain ⟨hsame, hbbo⟩ := loadBooks_untouched (s := s) (List.getLast?_eq_none_iff.mp hlast)
        rw [hsame] at hstate
        rw [publishedLevels, hbbo]
        exact ⟨h.2 x state hstate hused, h.1 x state hstate hused⟩
      | some item =>
        rcases hharmless x item hlast with ⟨hread, hsound⟩ | ⟨hread, hidle, halone⟩
        · obtain ⟨after, hafter, -, hwhole, hpublished⟩ := loadBooks_read (s := s) hlast hread
          rw [hafter, Option.some.injEq] at hstate
          subst hstate
          exact ⟨hwhole.trans hsound, hpublished⟩
        · obtain ⟨init, hbooks, hinit⟩ := booksRead_brokenOff hlast hread
          obtain ⟨after, hafter, -, hinuse⟩ :=
            loadBooks_brokenOff (s := s) hinit (p := (x, item)) hread
          rw [← hbooks, hstate, Option.some.injEq] at hafter
          subst hafter
          have hnone : entriesOf x init = [] := by
            rw [hbooks, entriesOf_append_self (x := x) rfl] at halone
            simpa using halone
          rw [hinuse.mpr ⟨hidle, hnone⟩] at hused
          cases hused
    exact ⟨fun x state hstate hused => (hbook x state hstate hused).2,
      fun x state hstate hused => (hbook x state hstate hused).1⟩

/-- A snapshot without a damaged item is harmless. -/
theorem snapshotHarmless_of_sound {books : List (SymbolId × SnapshotItem)}
    (h : ∀ p ∈ books, p.2.isRead = true ∧ p.2.isSound = true) : SnapshotHarmless s books := by
  intro x item hlast
  obtain ⟨p, hp, rfl⟩ := List.mem_map.mp (List.mem_of_getLast? hlast)
  exact Or.inl (h p (List.mem_filter.mp hp).1)

/-! ## Every event -/

/-- One event keeps the books sound exactly where it is harmless. -/
theorem feedStep_sound_iff (simdjson : Simdjson) (event : FeedEvent) (h : BooksSound s) :
    BooksSound (feedStep simdjson s event) ↔ Harmless simdjson s event := by
  cases event with
  | wsConnected =>
    refine iff_of_true ⟨feedStep_consistent h.1 rfl, ?_⟩ trivial
    intro x state hstate hinit
    simp only [feedStep, OrderbookFeed.onWsConnected, Option.map_eq_some_iff] at hstate
    obtain ⟨before, -, rfl⟩ := hstate
    cases hinit
  | wsDisconnected => exact iff_of_true h trivial
  | subscribeOrderbook symbols wsConnected =>
    refine iff_of_true ⟨feedStep_consistent h.1 rfl, ?_⟩ trivial
    simp only [feedStep, OrderbookFeed.subscribeOrderbook]
    split
    · exact h.2
    · exact h.2
  | snapshots symbols response nowMs =>
    cases response with
    | none => exact iff_of_true h trivial
    | some body =>
      simp only [feedStep, OrderbookFeed.fetchAllOrderbookSnapshots, Harmless]
      split_ifs with hstatus hcomplete
      · obtain ⟨hstate, hbbo⟩ := announceBooks_books
          (s := (OrderbookFeed.seedBooks symbols s (simdjson.snapshots body).data.items).1)
          (OrderbookFeed.seedBooks symbols s (simdjson.snapshots body).data.items).2.1 nowMs
        rw [BooksSound.congr hstate fun x => by rw [publishedLevels, hbbo]; rfl, seedBooks_eq,
          imp_iff_right hstatus]
        exact loadBooks_sound_iff h
      · rw [seedBooks_eq, imp_iff_right hstatus]
        exact loadBooks_sound_iff h
      · exact iff_of_true h fun hok => absurd hok hstatus
  | message text nowMs =>
    simp only [feedStep, OrderbookFeed.onWsMessage, Harmless]
    cases hdepth : findAfter "orderbookdepth".toList text with
    | some rest =>
      obtain ⟨hstate, hbbo⟩ :=
        announceUpdated_books (s.parseOrderbookdepthMessage simdjson text) nowMs
      have hinit : ∀ u ∈ (s.depthUpdates simdjson text).1, s.isInitialized u.symbol = true :=
        fun u hu => isInitialized_of_depthUpdates hu
      dsimp only
      rw [BooksSound.congr hstate fun x => by rw [publishedLevels, hbbo]; rfl,
        OrderbookFeed.parseOrderbookdepthMessage]
      cases hcomplete : (s.depthUpdates simdjson text).2 with
      | true =>
        refine iff_of_true ?_ (by simp)
        exact ⟨applyDepthUpdates_consistent h.1 hinit, whole_applyDepthUpdates h.2 hinit⟩
      | false =>
        rw [interrupted_iff h hinit]
        simp
    | none =>
      dsimp only
      refine iff_of_true ?_ (by simp)
      cases OrderbookFeed.readTicker simdjson text with
      | none => exact h
      | some parsed =>
        obtain ⟨hstate, hbbo⟩ := onTicker_books (s := s) parsed nowMs
        refine (BooksSound.congr hstate fun x => ?_).mpr h
        rw [publishedLevels, hbbo]
        exact publishedLevels_storeLastPrice parsed x

/-- The feed starts with sound books: there are none. -/
theorem booksSound_initial : BooksSound {} := by
  constructor
  · intro x state hstate
    cases hstate
  · intro x state hstate
    cases hstate

/-- The books are sound throughout a run exactly if every event of it is harmless. -/
theorem booksSound_throughout_iff (simdjson : Simdjson) (events : List FeedEvent) :
    (∀ done, done <+: events → BooksSound (runFeed simdjson done)) ↔
      Run.Along (Harmless simdjson) (feedStep simdjson) {} events :=
  Run.throughout_iff BooksSound (fun _ event h => feedStep_sound_iff simdjson event h) events {}
    booksSound_initial

/-! ## A level without a price -/

/-- A new best bid, and a second level that lacks its price. -/
def pricelessText : List Char :=
  depthText [depthObject "XRP_KRW" "bid" "101" "2",
    "\x7b\"symbol\":\"XRP_KRW\",\"orderType\":\"bid\",\"quantity\":\"1\"\x7d".toList]

/-- Simdjson on the snapshot of XRP and on that message. -/
def pricelessJson : Simdjson :=
  { xrpSnapshotJson with
    depth := fun text =>
      if text = pricelessText then
        { type := some "orderbookdepth".toList
          list :=
            ⟨[⟨some "XRP_KRW".toList, some "bid".toList, some "101".toList, some "2".toList⟩,
              ⟨some "XRP_KRW".toList, some "bid".toList, none, some "1".toList⟩], true⟩ }
      else ⟨none, [], false⟩ }

/-- The new best bid is in the book and not in the BBO. -/
theorem booksSound_lost_onPriceless :
    ¬ ∀ (simdjson : Simdjson) (events : List FeedEvent) (text : List Char) (nowMs : UInt64),
      BooksSound (runFeed simdjson events) →
        BooksSound ((runFeed simdjson events).onWsMessage simdjson text nowMs) := by
  intro h
  have hconnected : BooksSound (feedStep pricelessJson {} .wsConnected) :=
    (feedStep_sound_iff pricelessJson .wsConnected booksSound_initial).mpr trivial
  have hsubscribed : BooksSound (runFeed pricelessJson xrpSubscribed) :=
    (feedStep_sound_iff pricelessJson (.subscribeOrderbook [xrp, eos] true) hconnected).mpr trivial
  have hbooks : ∀ p ∈ booksRead [xrp, eos] (pricelessJson.snapshots xrpSnapshotText).data.items,
      p.2.isRead = true ∧ p.2.isSound = true := by decide +kernel
  have hseeded : BooksSound (runFeed pricelessJson xrpSeeded) := by
    rw [xrpSeeded, runFeed, List.foldl_append, List.foldl_cons, List.foldl_nil]
    exact (feedStep_sound_iff pricelessJson _ hsubscribed).mpr
      fun _ => snapshotHarmless_of_sound hbooks
  have hafter := (h pricelessJson xrpSeeded pricelessText 2 hseeded).1 xrp
  have hbest : (((runFeed pricelessJson xrpSeeded).onWsMessage pricelessJson pricelessText
      2).orderbookState xrp).map (fun state => (state.initialized, state.seededBbo,
        state.bestLevels)) = some (true, true, ⟨101, 102, 2, 4⟩) := by decide +kernel
  have hpublished : publishedLevels ((runFeed pricelessJson xrpSeeded).onWsMessage pricelessJson
      pricelessText 2) xrp = some ⟨100, 102, 5, 4⟩ := by decide +kernel
  obtain ⟨state, hstate, hlevels⟩ := Option.map_eq_some_iff.mp hbest
  simp only [Prod.mk.injEq] at hlevels
  rw [hafter state hstate hlevels.1 hlevels.2.1, hlevels.2.2] at hpublished
  revert hpublished
  decide

end SpotRelay.Analysis
