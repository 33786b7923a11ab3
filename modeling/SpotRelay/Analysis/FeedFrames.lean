import SpotRelay.Model.BithumbFeed
import Mathlib.Data.List.DropRight
import Mathlib.Data.List.Induction

/-!
# What the handlers of the Bithumb feed touch

Frame lemmas: dispatching a ticker leaves the books and the BBO cache alone, a refresh of one BBO
changes that one only, and a depth message changes the levels of the books that it names, so that
after any part of it the published levels are those from before the batch that is still open.

* **the books**: an update changes the book it names, level by level (`updatedBook_frame`,
  `applyTo_frame`).
* **the batch**: what is published lags behind by the batch that is open, and catches up where
  another symbol comes up (`beforeOpenBatch_append_self`, `beforeOpenBatch_append_of_ne`).
-/

set_option autoImplicit false

namespace SpotRelay.Analysis

open SpotRelay.Model SpotRelay.Library

variable (s : OrderbookFeed) (x y : SymbolId)

/-- The levels that the BBO cache holds for a symbol. -/
def publishedLevels : Option BestLevels := (s.orderbookBbo x).map Bbo.toBestLevels

/-! ## Dispatch -/

section Dispatch

variable (symbols : List SymbolId) (nowMs : UInt64)

/-- Announcing a symbol only adds to what is dispatched, and may store the rate. -/
theorem dispatchBbo_eq : ∃ usdtKrwPrice dispatched, s.dispatchBbo x nowMs =
    { s with usdtKrwPrice := usdtKrwPrice, dispatched := dispatched } := by
  unfold OrderbookFeed.dispatchBbo
  cases s.orderbookBbo x with
  | none => exact ⟨_, _, rfl⟩
  | some bbo =>
    dsimp only
    cases OrderbookFeed.makeBboTicker x bbo nowMs with
    | none => exact ⟨_, _, rfl⟩
    | some ticker => exact ⟨_, _, rfl⟩

/-- Announcing symbols only adds to what is dispatched. -/
theorem dispatchBbos_eq : ∃ usdtKrwPrice dispatched, s.dispatchBbos symbols nowMs =
    { s with usdtKrwPrice := usdtKrwPrice, dispatched := dispatched } := by
  unfold OrderbookFeed.dispatchBbos
  induction symbols generalizing s with
  | nil => exact ⟨_, _, rfl⟩
  | cons y symbols ih =>
    obtain ⟨usdt, dispatched, hone⟩ := dispatchBbo_eq s y nowMs
    rw [List.foldl_cons, hone]
    exact ih _

/-- Announcing symbols leaves the books. -/
@[simp] theorem orderbookState_dispatchBbos :
    (s.dispatchBbos symbols nowMs).orderbookState = s.orderbookState := by
  obtain ⟨_, _, h⟩ := dispatchBbos_eq s symbols nowMs
  rw [h]

/-- It leaves the BBO cache. -/
@[simp] theorem orderbookBbo_dispatchBbos :
    (s.dispatchBbos symbols nowMs).orderbookBbo = s.orderbookBbo := by
  obtain ⟨_, _, h⟩ := dispatchBbos_eq s symbols nowMs
  rw [h]

end Dispatch

/-! ## One refresh -/

section Refresh

/-- A refresh replaces the BBO of the symbol or nothing at all. -/
theorem updateBbo_eq_or_setBbo : s.updateBbo x = s ∨ ∃ bbo, s.updateBbo x = s.setBbo x bbo := by
  unfold OrderbookFeed.updateBbo
  cases s.orderbookState x with
  | none => exact .inl rfl
  | some state =>
    cases s.orderbookBbo x with
    | none => exact .inl rfl
    | some bbo =>
      dsimp only
      split
      · exact .inr ⟨_, rfl⟩
      · exact .inl rfl

variable (state : OrderbookState)

/-- A stored book replaces that of its symbol. -/
@[simp] theorem orderbookState_setBook :
    (s.setBook x state).orderbookState = Function.update s.orderbookState x (some state) := rfl

/-- It leaves the BBO cache. -/
@[simp] theorem orderbookBbo_setBook : (s.setBook x state).orderbookBbo = s.orderbookBbo := rfl

/-- A refresh of a BBO leaves the books. -/
@[simp] theorem orderbookState_updateBbo : (s.updateBbo x).orderbookState = s.orderbookState := by
  rcases updateBbo_eq_or_setBbo s x with hsame | ⟨bbo, hset⟩
  · rw [hsame]
  · rw [hset]
    rfl

variable {s x y state}

/-- A refresh of one BBO leaves the others alone. -/
theorem orderbookBbo_updateBbo_of_ne (h : y ≠ x) :
    (s.updateBbo x).orderbookBbo y = s.orderbookBbo y := by
  rcases updateBbo_eq_or_setBbo s x with hsame | ⟨bbo, hset⟩
  · rw [hsame]
  · rw [hset]
    exact Function.update_of_ne h ..

/-- It publishes the first levels of a seeded book. -/
theorem orderbookBbo_updateBbo {bbo : Bbo} (hstate : s.orderbookState x = some state)
    (hinit : state.initialized = true) (hbbo : s.orderbookBbo x = some bbo) :
    (s.updateBbo x).orderbookBbo x =
      some { bbo with
        toBestLevels := state.bestLevels
        seededIn := state.seededIn
        storedIn := s.disconnects } := by
  simp [OrderbookFeed.updateBbo, hstate, hbbo, hinit, OrderbookFeed.setBbo]

/-- A refresh does not see the books of other symbols. -/
theorem updateBbo_setBook_of_ne (h : y ≠ x) :
    (s.setBook x state).updateBbo y = (s.updateBbo y).setBook x state := by
  simp only [OrderbookFeed.updateBbo, OrderbookFeed.setBook, Function.update_of_ne h]
  cases s.orderbookState y with
  | none => rfl
  | some other =>
    cases s.orderbookBbo y with
    | none => rfl
    | some bbo =>
      dsimp only
      split <;> rfl

/-- It adds no entry to the cache and removes none. -/
theorem isSome_orderbookBbo_updateBbo :
    ((s.updateBbo x).orderbookBbo y).isSome = (s.orderbookBbo y).isSome := by
  by_cases hy : y = x
  · subst hy
    unfold OrderbookFeed.updateBbo
    split
    · rename_i state bbo hstate hbbo
      split <;> simp [OrderbookFeed.setBbo, hbbo]
    · rfl
  · rw [orderbookBbo_updateBbo_of_ne hy]

/-- A refreshed entry publishes the first levels of its book. -/
theorem publishedLevels_updateBbo (hstate : s.orderbookState x = some state)
    (hinit : state.initialized = true) (hbbo : (s.orderbookBbo x).isSome = true) :
    publishedLevels (s.updateBbo x) x = some state.bestLevels := by
  obtain ⟨bbo, hbbo⟩ := Option.isSome_iff_exists.mp hbbo
  rw [publishedLevels, orderbookBbo_updateBbo hstate hinit hbbo]
  rfl

/-- The other entries publish what they did. -/
theorem publishedLevels_updateBbo_of_ne (h : y ≠ x) :
    publishedLevels (s.updateBbo x) y = publishedLevels s y := by
  rw [publishedLevels, publishedLevels, orderbookBbo_updateBbo_of_ne h]

end Refresh

/-! ## One book of a snapshot -/

section Seed

variable {s : OrderbookFeed} {x y : SymbolId} (bids asks : List (ℚ × ℚ)) (whole : Bool)

/-- A seeded book replaces that of its symbol. -/
@[simp] theorem orderbookState_seedBook : (s.seedBook x bids asks whole).orderbookState =
    Function.update s.orderbookState x (some (s.seededBook x bids asks whole)) := by
  simp [OrderbookFeed.seedBook]

/-- The entry of a seeded book holds its first levels. -/
theorem orderbookBbo_seedBook : (s.seedBook x bids asks whole).orderbookBbo x =
    (s.orderbookBbo x).map fun bbo =>
      { bbo with
        toBestLevels := (s.seededBook x bids asks whole).bestLevels
        seededIn := s.connects
        storedIn := s.disconnects } := by
  unfold OrderbookFeed.seedBook
  cases hbbo : s.orderbookBbo x with
  | none =>
    have hkeep := isSome_orderbookBbo_updateBbo
      (s := s.setBook x (s.seededBook x bids asks whole)) (x := x) (y := x)
    rw [orderbookBbo_setBook, hbbo, Option.isSome_none, Option.isSome_eq_false_iff,
      Option.isNone_iff_eq_none] at hkeep
    exact hkeep
  | some bbo =>
    have hstate : (s.setBook x (s.seededBook x bids asks whole)).orderbookState x =
        some (s.seededBook x bids asks whole) := by simp
    exact orderbookBbo_updateBbo hstate rfl hbbo

/-- The other entries are left alone. -/
theorem orderbookBbo_seedBook_of_ne (h : y ≠ x) :
    (s.seedBook x bids asks whole).orderbookBbo y = s.orderbookBbo y := by
  rw [OrderbookFeed.seedBook, orderbookBbo_updateBbo_of_ne h, orderbookBbo_setBook]

variable {bids asks whole} (item : SnapshotItem)

/-- The book of another symbol stays as it is. -/
theorem orderbookState_loadItem_of_ne (h : y ≠ x) :
    (s.loadItem x item).orderbookState y = s.orderbookState y := by
  unfold OrderbookFeed.loadItem
  split <;> simp [Function.update_of_ne h]

/-- An item of a snapshot leaves the entries of other symbols. -/
theorem orderbookBbo_loadItem_of_ne (h : y ≠ x) :
    (s.loadItem x item).orderbookBbo y = s.orderbookBbo y := by
  unfold OrderbookFeed.loadItem
  split
  · exact orderbookBbo_seedBook_of_ne _ _ _ h
  · rfl

variable {item}

/-- An item that is read seeds the book of its symbol. -/
theorem orderbookState_loadItem (hread : item.isRead = true) :
    (s.loadItem x item).orderbookState x =
      some (s.seededBook x item.bidLevels item.askLevels item.isSound) := by
  rw [OrderbookFeed.loadItem, if_pos hread, orderbookState_seedBook, Function.update_self]

/-- A book that is read to its end is published, if there is an entry for it. -/
theorem publishedLevels_loadItem (hread : item.isRead = true) :
    publishedLevels (s.loadItem x item) x = (s.orderbookBbo x).map fun _ =>
      (s.seededBook x item.bidLevels item.askLevels item.isSound).bestLevels := by
  rw [OrderbookFeed.loadItem, if_pos hread, publishedLevels, orderbookBbo_seedBook, Option.map_map]
  rfl

end Seed

/-- The books of a snapshot that the loop gets to, the one that throws included. -/
def booksRead (symbols : List SymbolId) : List SnapshotItem → List (SymbolId × SnapshotItem)
  | [] => []
  | item :: rest =>
    match item.key with
    | none => []
    | some key =>
      match OrderbookFeed.requestedSymbol symbols key with
      | none => booksRead symbols rest
      | some sym => (sym, item) :: if item.isRead then booksRead symbols rest else []

/-- Seeding is one item after the other, those that are read. -/
theorem seedBooks_eq (symbols : List SymbolId) (items : List SnapshotItem) :
    (OrderbookFeed.seedBooks symbols s items).1 =
      (booksRead symbols items).foldl (fun s p => s.loadItem p.1 p.2) s := by
  induction items generalizing s with
  | nil => rfl
  | cons item rest ih =>
    unfold OrderbookFeed.seedBooks booksRead
    cases item.key with
    | none => rfl
    | some key =>
      dsimp only
      cases OrderbookFeed.requestedSymbol symbols key with
      | none => exact ih s
      | some sym =>
        dsimp only
        rw [List.foldl_cons]
        split
        · exact ih _
        · rfl

variable {s} in
/-- A loop that gets to its end has read every book that it got to. -/
theorem isRead_of_complete {symbols : List SymbolId} {items : List SnapshotItem}
    (h : (OrderbookFeed.seedBooks symbols s items).2.2 = true) :
    ∀ p ∈ booksRead symbols items, p.2.isRead = true := by
  induction items generalizing s with
  | nil => simp [booksRead]
  | cons item rest ih =>
    unfold OrderbookFeed.seedBooks at h
    unfold booksRead
    cases hkey : item.key with
    | none => simp
    | some key =>
      rw [hkey] at h
      dsimp only at h ⊢
      cases hsym : OrderbookFeed.requestedSymbol symbols key with
      | none =>
        rw [hsym] at h
        exact ih h
      | some sym =>
        rw [hsym] at h
        dsimp only at h ⊢
        split_ifs at h ⊢ with hread
        · intro p hp
          rcases List.mem_cons.mp hp with rfl | hp
          · exact hread
          · exact ih h p hp

/-- Only the last of them may have thrown. -/
theorem isRead_of_mem_init {symbols : List SymbolId} {items : List SnapshotItem}
    {init : List (SymbolId × SnapshotItem)} {p : SymbolId × SnapshotItem}
    (h : booksRead symbols items = init ++ [p]) : ∀ q ∈ init, q.2.isRead = true := by
  induction items generalizing init with
  | nil => simp [booksRead] at h
  | cons item rest ih =>
    unfold booksRead at h
    cases hkey : item.key with
    | none => simp [hkey] at h
    | some key =>
      rw [hkey] at h
      dsimp only at h
      cases hsym : OrderbookFeed.requestedSymbol symbols key with
      | none =>
        rw [hsym] at h
        exact ih h
      | some sym =>
        rw [hsym] at h
        dsimp only at h
        cases init with
        | nil => simp
        | cons q init =>
          rw [List.cons_append, List.cons.injEq] at h
          split_ifs at h with hread
          · intro r hr
            rcases List.mem_cons.mp hr with rfl | hr
            · rw [← h.1]
              exact hread
            · exact ih h.2 r hr
          · simp at h

/-! ## One book under level updates -/

/-- The book of `x` after the updates that name it. -/
def updatedBook (updates : List DepthUpdate) (state : OrderbookState) : OrderbookState :=
  (updates.filter fun u => u.symbol = x).foldl (fun state u => u.applyTo state) state

variable {x}

/-- The last update of a symbol is applied last. -/
theorem updatedBook_append_self {updates : List DepthUpdate} {u : DepthUpdate}
    {state : OrderbookState} (h : u.symbol = x) :
    updatedBook x (updates ++ [u]) state = u.applyTo (updatedBook x updates state) := by
  simp [updatedBook, h]

/-- An update of another symbol is not applied. -/
theorem updatedBook_append_of_ne {updates : List DepthUpdate} {u : DepthUpdate}
    {state : OrderbookState} (h : u.symbol ≠ x) :
    updatedBook x (updates ++ [u]) state = updatedBook x updates state := by
  simp [updatedBook, h]

/-- A level update changes levels only. -/
theorem applyTo_frame (u : DepthUpdate) (state : OrderbookState) :
    ∃ bids asks, u.applyTo state = { state with bids := bids, asks := asks } := by
  unfold DepthUpdate.applyTo OrderbookState.applyLevel
  cases u.side with
  | none => exact ⟨_, _, rfl⟩
  | some side =>
    cases side with
    | bid =>
      dsimp only
      split <;> exact ⟨_, _, rfl⟩
    | ask =>
      dsimp only
      split <;> exact ⟨_, _, rfl⟩

/-- The updates of a message change levels only. -/
theorem updatedBook_frame (updates : List DepthUpdate) (state : OrderbookState) :
    ∃ bids asks, updatedBook x updates state = { state with bids := bids, asks := asks } := by
  induction updates using List.reverseRecOn with
  | nil => exact ⟨_, _, rfl⟩
  | append_singleton updates u ih =>
    obtain ⟨bids, asks, ih⟩ := ih
    by_cases hu : u.symbol = x
    · obtain ⟨bids', asks', h⟩ := applyTo_frame u (updatedBook x updates state)
      exact ⟨bids', asks', by rw [updatedBook_append_self hu, h, ih]⟩
    · exact ⟨bids, asks, by rw [updatedBook_append_of_ne hu, ih]⟩

/-- They leave the flag of the book. -/
@[simp] theorem initialized_updatedBook (updates : List DepthUpdate) (state : OrderbookState) :
    (updatedBook x updates state).initialized = state.initialized := by
  obtain ⟨_, _, h⟩ := updatedBook_frame (x := x) updates state
  rw [h]

/-- They leave the seeded BBO. -/
@[simp] theorem seededBbo_updatedBook (updates : List DepthUpdate) (state : OrderbookState) :
    (updatedBook x updates state).seededBbo = state.seededBbo := by
  obtain ⟨_, _, h⟩ := updatedBook_frame (x := x) updates state
  rw [h]

/-- They leave the mark of a whole snapshot. -/
@[simp] theorem whole_updatedBook (updates : List DepthUpdate) (state : OrderbookState) :
    (updatedBook x updates state).whole = state.whole := by
  obtain ⟨_, _, h⟩ := updatedBook_frame (x := x) updates state
  rw [h]

/-- The updates before the batch of `x` that is open at the end. -/
def beforeOpenBatch (x : SymbolId) (updates : List DepthUpdate) : List DepthUpdate :=
  updates.rdropWhile fun u => u.symbol = x

/-- An update of the same symbol goes on with the open batch. -/
theorem beforeOpenBatch_append_self {updates : List DepthUpdate} {u : DepthUpdate}
    (h : u.symbol = x) : beforeOpenBatch x (updates ++ [u]) = beforeOpenBatch x updates := by
  simp [beforeOpenBatch, h]

/-- An update of another symbol closes it. -/
theorem beforeOpenBatch_append_of_ne {updates : List DepthUpdate} {u : DepthUpdate}
    (h : u.symbol ≠ x) : beforeOpenBatch x (updates ++ [u]) = updates ++ [u] := by
  simp [beforeOpenBatch, h]

/-- No batch of `x` is open unless its symbol is the last. -/
theorem beforeOpenBatch_of_last {updates : List DepthUpdate}
    (h : updates.getLast?.map DepthUpdate.symbol ≠ some x) :
    beforeOpenBatch x updates = updates := by
  rcases List.eq_nil_or_concat updates with rfl | ⟨init, u, rfl⟩
  · rfl
  · rw [List.concat_eq_append] at h ⊢
    refine beforeOpenBatch_append_of_ne ?_
    simpa using h

end SpotRelay.Analysis
