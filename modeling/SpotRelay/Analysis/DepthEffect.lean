import SpotRelay.Library.MapWrites
import SpotRelay.Analysis.BboConsistency

/-!
# What a list of depth updates does

The loop of a depth message refreshes the BBO of a symbol when the next one comes up.  At its end
that is as good as a refresh after every update, so what a list of updates does to a feed is
settled by the last level that it writes at every price, and what it hands on by its runs of
symbols.  Two lists do the same to every feed exactly if they agree on both.

* **the books** after a list of updates hold the last level at every price (`booksAfter_of_levels`).
* **the effect** is the levels and the runs of symbols together: lists that agree on both do the
  same to every feed, and lists that do the same to a seeded feed agree on both
  (`applyDepthUpdates_of_sameEffect`, `sameEffect_of_applyDepthUpdates`).
-/

set_option autoImplicit false

namespace SpotRelay.Analysis

open SpotRelay.Model SpotRelay.Library

/-! ## Refreshing after every update -/

/-- An update of a known book with its BBO refreshed at once. -/
def settle (s : OrderbookFeed) (u : DepthUpdate) : OrderbookFeed :=
  match s.orderbookState u.symbol with
  | none => s
  | some state => (s.setBook u.symbol (u.applyTo state)).updateBbo u.symbol

/-- The last refresh of a BBO is the one that counts. -/
theorem updateBbo_setBook_updateBbo {s : OrderbookFeed} {x : SymbolId} {old state : OrderbookState}
    (hold : s.orderbookState x = some old) (hinit : state.initialized = old.initialized) :
    ((s.updateBbo x).setBook x state).updateBbo x = (s.setBook x state).updateBbo x := by
  by_cases hseeded : old.initialized = true
  · cases hbbo : s.orderbookBbo x with
    | none =>
      have hsame : s.updateBbo x = s := by rw [OrderbookFeed.updateBbo, hold, hbbo]
      rw [hsame]
    | some bbo =>
      simp [OrderbookFeed.updateBbo, OrderbookFeed.setBook, OrderbookFeed.setBbo, hold, hbbo,
        hinit, hseeded]
  · have hsame : s.updateBbo x = s := by
      unfold OrderbookFeed.updateBbo
      rw [hold]
      cases s.orderbookBbo x with
      | none => rfl
      | some bbo => exact if_neg hseeded
    rw [hsame]

/-- An update of a level leaves the flag of the book. -/
theorem initialized_applyTo (u : DepthUpdate) (state : OrderbookState) :
    (u.applyTo state).initialized = state.initialized := by
  obtain ⟨bids, asks, heq⟩ := applyTo_frame u state
  rw [heq]

/-- An update and the end of its batch come to the update settled on its own. -/
theorem flush_apply (b : DepthBatch) (u : DepthUpdate) :
    (b.apply u).flush.feed = settle b.flush.feed u := by
  unfold settle DepthBatch.apply
  rw [BatchAfter.orderbookState_flush]
  cases hstate : b.feed.orderbookState u.symbol with
  | none => rfl
  | some state =>
    dsimp only
    by_cases hlast : b.lastUpdatedSymbol = some u.symbol
    · rw [if_pos hlast]
      simp only [DepthBatch.flush, hlast]
      exact (updateBbo_setBook_updateBbo hstate (initialized_applyTo u state)).symm
    · rw [if_neg hlast, BatchAfter.flush_setBook hlast]
      rfl

/-- The end of the loop is that of refreshing after every update. -/
theorem foldl_apply_flush (updates : List DepthUpdate) (b : DepthBatch) :
    (updates.foldl DepthBatch.apply b).flush.feed = updates.foldl settle b.flush.feed := by
  induction updates generalizing b with
  | nil => rfl
  | cons u updates ih => rw [List.foldl_cons, List.foldl_cons, ih, flush_apply]

/-! ## The feed at the end -/

/-- A BBO entry with the best levels of a book; only a seeded book is looked at. -/
def refreshed (s : OrderbookFeed) (state : OrderbookState) (bbo : Bbo) : Bbo :=
  if state.initialized then
    { bbo with
      toBestLevels := state.bestLevels
      seededIn := state.seededIn
      storedIn := s.disconnects }
  else bbo

/-- The entry of a symbol after a refresh, for its book and its entry before. -/
def refreshedEntry (s : OrderbookFeed) (book : Option OrderbookState) (entry : Option Bbo) :
    Option Bbo :=
  match book with
  | some state => entry.map (refreshed s state)
  | none => entry

/-- A refresh writes the entry of the symbol, with the first levels of an initialised book. -/
theorem updateBbo_eq (s : OrderbookFeed) (x : SymbolId) :
    s.updateBbo x = { s with
      orderbookBbo := Function.update s.orderbookBbo x
        (refreshedEntry s (s.orderbookState x) (s.orderbookBbo x)) } := by
  have hsame : { s with orderbookBbo := Function.update s.orderbookBbo x (s.orderbookBbo x) } =
      s := by rw [Function.update_eq_self]
  unfold OrderbookFeed.updateBbo refreshedEntry
  cases hstate : s.orderbookState x with
  | none => exact hsame.symm
  | some state =>
    cases hbbo : s.orderbookBbo x with
    | none =>
      rw [hbbo] at hsame
      exact hsame.symm
    | some bbo =>
      dsimp only [Option.map_some, refreshed]
      by_cases hinit : state.initialized = true
      · rw [if_pos hinit, if_pos hinit]
        rfl
      · rw [if_neg hinit, if_neg hinit, ← hbbo]
        exact hsame.symm

/-- A second refresh makes up for the first. -/
theorem refreshed_refreshed (s : OrderbookFeed) {old state : OrderbookState}
    (hinit : state.initialized = old.initialized) (bbo : Bbo) :
    refreshed s state (refreshed s old bbo) = refreshed s state bbo := by
  unfold refreshed
  rw [hinit]
  split <;> rfl

/-- The books after a list of updates. -/
def booksAfter (s : OrderbookFeed) (updates : List DepthUpdate) (x : SymbolId) :
    Option OrderbookState :=
  (s.orderbookState x).map (updatedBook x updates)

/-- The BBOs after it: the symbols that it names are refreshed. -/
def bbosAfter (s : OrderbookFeed) (updates : List DepthUpdate) (x : SymbolId) : Option Bbo :=
  if x ∈ updates.map DepthUpdate.symbol then
    refreshedEntry s (booksAfter s updates x) (s.orderbookBbo x)
  else s.orderbookBbo x

/-- The feed after it. -/
def feedAfter (s : OrderbookFeed) (updates : List DepthUpdate) : OrderbookFeed :=
  { s with
    orderbookState := booksAfter s updates
    orderbookBbo := bbosAfter s updates }

section Step

variable (s : OrderbookFeed) (updates : List DepthUpdate) (u : DepthUpdate)

/-- The last update of a symbol is applied to its book last. -/
theorem booksAfter_append_self :
    booksAfter s (updates ++ [u]) u.symbol = (booksAfter s updates u.symbol).map u.applyTo := by
  unfold booksAfter
  rw [Option.map_map]
  congr 1
  funext state
  exact updatedBook_append_self rfl

variable {x : SymbolId}

/-- An update of another symbol leaves the book. -/
theorem booksAfter_append_of_ne (h : u.symbol ≠ x) :
    booksAfter s (updates ++ [u]) x = booksAfter s updates x := by
  unfold booksAfter
  congr 1
  funext state
  exact updatedBook_append_of_ne h

/-- An update of another symbol leaves the entry. -/
theorem bbosAfter_append_of_ne (h : u.symbol ≠ x) :
    bbosAfter s (updates ++ [u]) x = bbosAfter s updates x := by
  unfold bbosAfter
  rw [booksAfter_append_of_ne s updates u h]
  simp [Ne.symm h]

/-- One more refresh of the symbol of an update is all that it adds. -/
theorem bbosAfter_append_self :
    bbosAfter s (updates ++ [u]) u.symbol =
      refreshedEntry s (booksAfter s (updates ++ [u]) u.symbol) (bbosAfter s updates u.symbol) := by
  have hmem : u.symbol ∈ (updates ++ [u]).map DepthUpdate.symbol := by simp
  rw [bbosAfter, if_pos hmem, booksAfter_append_self]
  unfold bbosAfter
  by_cases hbefore : u.symbol ∈ updates.map DepthUpdate.symbol
  · rw [if_pos hbefore]
    cases booksAfter s updates u.symbol with
    | none => rfl
    | some state =>
      cases s.orderbookBbo u.symbol with
      | none => rfl
      | some bbo =>
        show some _ = some _
        rw [refreshed_refreshed s (initialized_applyTo u state)]
  · rw [if_neg hbefore]

/-- One more settled update is one more update of the feed. -/
theorem settle_feedAfter : settle (feedAfter s updates) u = feedAfter s (updates ++ [u]) := by
  have hbook : (feedAfter s updates).orderbookState u.symbol = booksAfter s updates u.symbol := rfl
  have hself := booksAfter_append_self s updates u
  have hentry := bbosAfter_append_self s updates u
  unfold settle
  rw [hbook]
  cases hstate : booksAfter s updates u.symbol with
  | none =>
    rw [hstate, Option.map_none] at hself
    rw [hself] at hentry
    have hbooks : booksAfter s (updates ++ [u]) = booksAfter s updates := by
      funext x
      by_cases hx : u.symbol = x
      · rw [← hx, hself, hstate]
      · exact booksAfter_append_of_ne s updates u hx
    have hbbos : bbosAfter s (updates ++ [u]) = bbosAfter s updates := by
      funext x
      by_cases hx : u.symbol = x
      · rw [← hx, hentry]
        rfl
      · exact bbosAfter_append_of_ne s updates u hx
    unfold feedAfter
    rw [hbooks, hbbos]
  | some state =>
    rw [hstate, Option.map_some] at hself
    rw [hself] at hentry
    dsimp only
    have hbooks : booksAfter s (updates ++ [u]) =
        Function.update (booksAfter s updates) u.symbol (some (u.applyTo state)) := by
      funext x
      by_cases hx : u.symbol = x
      · rw [← hx, hself, Function.update_self]
      · rw [Function.update_of_ne (Ne.symm hx), booksAfter_append_of_ne s updates u hx]
    have hbbos : bbosAfter s (updates ++ [u]) =
        Function.update (bbosAfter s updates) u.symbol
          (refreshedEntry s (some (u.applyTo state)) (bbosAfter s updates u.symbol)) := by
      funext x
      by_cases hx : u.symbol = x
      · rw [← hx, hentry, Function.update_self]
      · rw [Function.update_of_ne (Ne.symm hx), bbosAfter_append_of_ne s updates u hx]
    have hset : ((feedAfter s updates).setBook u.symbol (u.applyTo state)).orderbookState u.symbol =
        some (u.applyTo state) := Function.update_self u.symbol _ _
    rw [updateBbo_eq, hset]
    unfold feedAfter
    rw [hbooks, hbbos]
    rfl

end Step

/-- Settling the updates one by one comes to the feed behind all of them. -/
theorem foldl_settle (s : OrderbookFeed) (updates : List DepthUpdate) :
    updates.foldl settle s = feedAfter s updates := by
  induction updates using List.reverseRecOn with
  | nil =>
    have hbooks : booksAfter s [] = s.orderbookState := by
      funext x
      unfold booksAfter
      cases s.orderbookState x with
      | none => rfl
      | some state => rfl
    show s = { s with orderbookState := booksAfter s [], orderbookBbo := s.orderbookBbo }
    rw [hbooks]
  | append_singleton updates u ih =>
    rw [List.foldl_append, List.foldl_cons, List.foldl_nil, ih, settle_feedAfter]

/-! ## The symbols handed on -/

/-- What the loop hands on are the runs of the symbols that it meets. -/
theorem foldl_apply_symbols {s : OrderbookFeed} {updates : List DepthUpdate}
    (hinit : ∀ u ∈ updates, s.isInitialized u.symbol = true) :
    (updates.foldl DepthBatch.apply { feed := s }).flush.updatedSymbols =
      runs (updates.map DepthUpdate.symbol) := by
  induction updates using List.reverseRecOn with
  | nil => rfl
  | append_singleton updates u ih =>
    have hbefore : ∀ v ∈ updates, s.isInitialized v.symbol = true := fun v hv =>
      hinit v (List.mem_append_left _ hv)
    have hbatch := batchAfter hbefore
    replace ih := ih hbefore
    rw [List.foldl_append, List.foldl_cons, List.foldl_nil, List.map_append, List.map_cons,
      List.map_nil, runs_append_singleton, ← ih]
    revert hbatch ih
    generalize updates.foldl DepthBatch.apply { feed := s } = b
    intro hbatch ih
    have hruns : b.flush.updatedSymbols.getLast? = b.lastUpdatedSymbol := by
      rw [ih, getLast?_runs, hbatch.last, List.getLast?_map]
    obtain ⟨state, hstate, -⟩ := exists_of_isInitialized (hinit u (by simp))
    have hbook : b.feed.orderbookState u.symbol = some (updatedBook u.symbol updates state) := by
      rw [hbatch.books, hstate]
      rfl
    unfold DepthBatch.apply addRun
    rw [hbook, hruns]
    dsimp only
    by_cases hlast : b.lastUpdatedSymbol = some u.symbol
    · rw [if_pos hlast, if_pos hlast]
      simp only [DepthBatch.flush, hlast]
    · rw [if_neg hlast, if_neg hlast, BatchAfter.flush_setBook hlast]
      rfl

/-- The whole loop on seeded books, read to its end. -/
theorem applyDepthUpdates_eq {s : OrderbookFeed} {updates : List DepthUpdate}
    (hinit : ∀ u ∈ updates, s.isInitialized u.symbol = true) :
    s.applyDepthUpdates updates true =
      (feedAfter s updates, runs (updates.map DepthUpdate.symbol)) := by
  have hfeed := foldl_apply_flush updates { feed := s }
  have hstart : DepthBatch.flush { feed := s } = { feed := s } := rfl
  rw [hstart, foldl_settle] at hfeed
  rw [← foldl_apply_symbols hinit, ← hfeed]
  rfl

/-! ## A loop that is broken off -/

/-- The symbols that the loop hands on: the last run is left out where it is broken off. -/
def handedOn (updates : List DepthUpdate) (complete : Bool) : List SymbolId :=
  if complete then runs (updates.map DepthUpdate.symbol)
  else (runs (updates.map DepthUpdate.symbol)).dropLast

/-- Whether it is broken off or not, every update is in the books. -/
theorem orderbookState_applyDepthUpdates {s : OrderbookFeed} {updates : List DepthUpdate}
    (hinit : ∀ u ∈ updates, s.isInitialized u.symbol = true) (complete : Bool) :
    (s.applyDepthUpdates updates complete).1.orderbookState = booksAfter s updates := by
  have hbooks : (updates.foldl DepthBatch.apply { feed := s }).feed.orderbookState =
      booksAfter s updates := funext (batchAfter hinit).books
  cases complete with
  | true => exact (BatchAfter.orderbookState_flush).trans hbooks
  | false => exact hbooks

/-- The end of a batch refreshes the last symbol and lists it. -/
theorem updatedSymbols_flush {b : DepthBatch} {last : SymbolId}
    (h : b.lastUpdatedSymbol = some last) :
    b.flush.feed = b.feed.updateBbo last ∧ b.flush.updatedSymbols = b.updatedSymbols ++ [last] := by
  unfold DepthBatch.flush
  rw [h]
  exact ⟨rfl, rfl⟩

/-- The symbols that are handed on are those that the updates say. -/
theorem snd_applyDepthUpdates {s : OrderbookFeed} {updates : List DepthUpdate}
    (hinit : ∀ u ∈ updates, s.isInitialized u.symbol = true) (complete : Bool) :
    (s.applyDepthUpdates updates complete).2 = handedOn updates complete := by
  cases complete with
  | true => exact foldl_apply_symbols hinit
  | false =>
    have hlast := (batchAfter hinit).last
    show (updates.foldl DepthBatch.apply { feed := s }).updatedSymbols =
      (runs (updates.map DepthUpdate.symbol)).dropLast
    rw [← foldl_apply_symbols hinit]
    rcases List.eq_nil_or_concat' updates with rfl | ⟨init, u, rfl⟩
    · rfl
    · rw [List.getLast?_concat, Option.map_some] at hlast
      rw [(updatedSymbols_flush hlast).2, List.dropLast_concat]

/-- A BBO is only touched where its symbol is handed on. -/
theorem orderbookBbo_foldl_apply {s : OrderbookFeed} {updates : List DepthUpdate} {x : SymbolId}
    (h : x ∉ (updates.foldl DepthBatch.apply { feed := s }).updatedSymbols) :
    (updates.foldl DepthBatch.apply { feed := s }).feed.orderbookBbo x = s.orderbookBbo x := by
  induction updates using List.reverseRecOn with
  | nil => rfl
  | append_singleton updates u ih =>
    rw [List.foldl_append, List.foldl_cons, List.foldl_nil] at h ⊢
    revert h ih
    generalize updates.foldl DepthBatch.apply { feed := s } = b
    unfold DepthBatch.apply
    intro ih h
    cases hstate : b.feed.orderbookState u.symbol with
    | none =>
      rw [hstate] at h
      exact ih h
    | some state =>
      rw [hstate] at h
      dsimp only at h ⊢
      by_cases hlast : b.lastUpdatedSymbol = some u.symbol
      · rw [if_pos hlast] at h ⊢
        exact ih h
      · rw [if_neg hlast, BatchAfter.flush_setBook hlast] at h ⊢
        cases hopen : b.lastUpdatedSymbol with
        | none =>
          have hflush : b.flush = b := by
            unfold DepthBatch.flush
            rw [hopen]
          rw [hflush] at h ⊢
          exact ih h
        | some last =>
          obtain ⟨hfeed, hsymbols⟩ := updatedSymbols_flush hopen
          dsimp only at h ⊢
          rw [hsymbols, List.mem_append, not_or, List.mem_singleton] at h
          rw [hfeed, updateBbo_eq]
          exact (Function.update_of_ne h.2 _ _).trans (ih h.1)

/-- A loop that is broken off has not refreshed its last symbol, where it has not met it before. -/
theorem applyDepthUpdates_brokenOff {s : OrderbookFeed} {updates : List DepthUpdate}
    {last : DepthUpdate} (hinit : ∀ u ∈ updates, s.isInitialized u.symbol = true)
    (hlast : updates.getLast? = some last) (hnew : last.symbol ∉ handedOn updates false) :
    (s.applyDepthUpdates updates false).1 = { feedAfter s updates with
      orderbookBbo :=
        Function.update (bbosAfter s updates) last.symbol (s.orderbookBbo last.symbol) } := by
  have hopen := (batchAfter hinit).last
  rw [hlast, Option.map_some] at hopen
  rw [← snd_applyDepthUpdates hinit] at hnew
  have hbbo := orderbookBbo_foldl_apply hnew
  have hflush := foldl_apply_flush updates { feed := s }
  have hstart : DepthBatch.flush { feed := s } = { feed := s } := rfl
  rw [hstart, foldl_settle, (updatedSymbols_flush hopen).1, updateBbo_eq] at hflush
  show (updates.foldl DepthBatch.apply { feed := s }).feed = _
  revert hbbo hflush
  generalize (updates.foldl DepthBatch.apply { feed := s }).feed = feed
  intro hbbo hflush
  have hbbos : Function.update (bbosAfter s updates) last.symbol (s.orderbookBbo last.symbol) =
      feed.orderbookBbo := by
    have hall := congrArg OrderbookFeed.orderbookBbo hflush
    dsimp only [feedAfter] at hall
    rw [← hall, Function.update_idem, ← hbbo, Function.update_eq_self]
  rw [hbbos, ← hflush]

/-! ## The last levels -/

/-- What an update writes at its price. -/
def levelWrite (u : DepthUpdate) : ℚ × Option ℚ :=
  (u.price, if u.quantity ≤ 0 then none else some u.quantity)

/-- The levels that a list of updates writes into one side of a book. -/
def levelWrites (x : SymbolId) (side : BookSide) (updates : List DepthUpdate) :
    List (ℚ × Option ℚ) :=
  (updates.filter fun u => u.symbol = x ∧ u.side = some side).map levelWrite

/-- The last level at every price, of every side and symbol, and the symbols that are handed on;
the second list may be all that a loop has met when it is broken off. -/
structure SameEffect (updates updates' : List DepthUpdate) (complete : Bool) : Prop where
  levels : ∀ x side price,
    lastWrite price (levelWrites x side updates) = lastWrite price (levelWrites x side updates')
  symbols : runs (updates.map DepthUpdate.symbol) = handedOn updates' complete

variable {x : SymbolId} {side : BookSide}

/-- An update of the side writes its level last. -/
theorem levelWrites_append_self {updates : List DepthUpdate} {u : DepthUpdate}
    (hsymbol : u.symbol = x) (hside : u.side = some side) :
    levelWrites x side (updates ++ [u]) = levelWrites x side updates ++ [levelWrite u] := by
  simp [levelWrites, hsymbol, hside]

/-- Another update writes no level of the side. -/
theorem levelWrites_append_of_not {updates : List DepthUpdate} {u : DepthUpdate}
    (h : ¬ (u.symbol = x ∧ u.side = some side)) :
    levelWrites x side (updates ++ [u]) = levelWrites x side updates := by
  simp [levelWrites, h]

/-- A book after a list of updates, as its two maps after their writes. -/
theorem updatedBook_eq (x : SymbolId) (updates : List DepthUpdate) (state : OrderbookState) :
    updatedBook x updates state =
      { state with
        bids := (levelWrites x .bid updates).foldl OrderedMap.write state.bids
        asks := (levelWrites x .ask updates).foldl OrderedMap.write state.asks } := by
  induction updates using List.reverseRecOn with
  | nil => rfl
  | append_singleton updates u ih =>
    by_cases hsymbol : u.symbol = x
    · rw [updatedBook_append_self hsymbol, ih]
      cases hside : u.side with
      | none =>
        rw [levelWrites_append_of_not (by simp [hside]), levelWrites_append_of_not (by simp [hside]),
          DepthUpdate.applyTo, hside]
      | some side =>
        cases side with
        | bid =>
          rw [levelWrites_append_self hsymbol hside, levelWrites_append_of_not (by simp [hside]),
            List.foldl_append, DepthUpdate.applyTo, hside]
          dsimp only [OrderbookState.applyLevel, List.foldl_cons, List.foldl_nil, levelWrite]
          split <;> rfl
        | ask =>
          rw [levelWrites_append_self hsymbol hside, levelWrites_append_of_not (by simp [hside]),
            List.foldl_append, DepthUpdate.applyTo, hside]
          dsimp only [OrderbookState.applyLevel, List.foldl_cons, List.foldl_nil, levelWrite]
          split <;> rfl
    · rw [updatedBook_append_of_ne hsymbol, ih,
        levelWrites_append_of_not fun h => hsymbol h.1,
        levelWrites_append_of_not fun h => hsymbol h.1]

/-- Updates of the books that are looked at. -/
theorem levelWrites_filter (keep : SymbolId → Bool) (updates : List DepthUpdate) :
    levelWrites x side (updates.filter fun u => keep u.symbol) =
      if keep x then levelWrites x side updates else [] := by
  unfold levelWrites
  rw [List.filter_filter]
  by_cases hkeep : keep x = true
  · rw [if_pos hkeep]
    congr 1
    refine List.filter_congr fun u _ => ?_
    by_cases hx : u.symbol = x
    · simp [hx, hkeep]
    · simp [hx]
  · rw [if_neg hkeep, List.map_eq_nil_iff, List.filter_eq_nil_iff]
    intro u _ h
    simp only [Bool.and_eq_true, decide_eq_true_eq] at h
    exact hkeep (h.1.1 ▸ h.2)

/-- Updates with the same last write of every level leave the same books. -/
theorem booksAfter_of_levels {updates updates' : List DepthUpdate}
    (h : ∀ x side price, lastWrite price (levelWrites x side updates) =
      lastWrite price (levelWrites x side updates')) (s : OrderbookFeed) :
    booksAfter s updates = booksAfter s updates' := by
  funext x
  unfold booksAfter
  congr 1
  funext state
  rw [updatedBook_eq, updatedBook_eq, (foldl_write_eq_iff _ _).mpr (h x .bid),
    (foldl_write_eq_iff _ _).mpr (h x .ask)]

/-- Lists of the same effect do the same to a feed in which all their books are seeded, if a
symbol that is left unrefreshed is in one of them only. -/
theorem applyDepthUpdates_of_sameEffect {updates updates' : List DepthUpdate} {complete : Bool}
    (h : SameEffect updates updates' complete)
    (hlast : complete = false → ∀ last, updates'.getLast? = some last →
      last.symbol ∉ updates.map DepthUpdate.symbol) {s : OrderbookFeed}
    (hinit : ∀ u ∈ updates, s.isInitialized u.symbol = true)
    (hinit' : ∀ u ∈ updates', s.isInitialized u.symbol = true) :
    s.applyDepthUpdates updates true = s.applyDepthUpdates updates' complete := by
  have hbooks := booksAfter_of_levels h.levels s
  have hsymbols : (s.applyDepthUpdates updates true).2 =
      (s.applyDepthUpdates updates' complete).2 := by
    rw [snd_applyDepthUpdates hinit, snd_applyDepthUpdates hinit']
    exact h.symbols
  refine Prod.ext ?_ hsymbols
  rw [applyDepthUpdates_eq hinit]
  cases complete with
  | true =>
    have hbbos : bbosAfter s updates = bbosAfter s updates' := by
      funext x
      have hmem : x ∈ updates.map DepthUpdate.symbol ↔ x ∈ updates'.map DepthUpdate.symbol := by
        rw [← mem_runs, h.symbols]
        exact mem_runs
      unfold bbosAfter
      simp only [hmem, hbooks]
    rw [applyDepthUpdates_eq hinit']
    unfold feedAfter
    rw [hbooks, hbbos]
  | false =>
    rcases List.eq_nil_or_concat' updates' with rfl | ⟨init, last, rfl⟩
    · have hnil : updates = [] := List.map_eq_nil_iff.mp (runs_eq_nil h.symbols)
      rw [hnil, ← foldl_settle]
      rfl
    · have hnot := hlast rfl last List.getLast?_concat
      have hruns := h.symbols
      have hnew : last.symbol ∉ handedOn (init ++ [last]) false := by
        rwa [← hruns, mem_runs]
      have hsplit : runs ((init ++ [last]).map DepthUpdate.symbol) =
          handedOn (init ++ [last]) false ++ [last.symbol] := by
        have hend : (runs ((init ++ [last]).map DepthUpdate.symbol)).getLast? =
            some last.symbol := by
          rw [getLast?_runs]
          simp
        exact (List.dropLast_append_getLast? last.symbol hend).symm
      have hbbos : bbosAfter s updates = Function.update (bbosAfter s (init ++ [last])) last.symbol
          (s.orderbookBbo last.symbol) := by
        funext x
        by_cases hx : x = last.symbol
        · subst hx
          rw [Function.update_self, bbosAfter, if_neg hnot]
        · have hmem : x ∈ updates.map DepthUpdate.symbol ↔
              x ∈ (init ++ [last]).map DepthUpdate.symbol := by
            have hlonger : x ∈ runs ((init ++ [last]).map DepthUpdate.symbol) ↔
                x ∈ handedOn (init ++ [last]) false := by
              rw [hsplit, List.mem_append, List.mem_singleton, or_iff_left hx]
            rw [← mem_runs, hruns, ← hlonger, mem_runs]
          rw [Function.update_of_ne hx]
          unfold bbosAfter
          simp only [hmem, hbooks]
      rw [applyDepthUpdates_brokenOff hinit' List.getLast?_concat hnew, ← hbbos]
      unfold feedAfter
      rw [hbooks]

/-- A feed with the same seeded book for some symbols. -/
def seededFeed (seeded : SymbolId → Bool) (bids : Bids) (asks : Asks) : OrderbookFeed where
  orderbookState x :=
    if seeded x then some { bids := bids, asks := asks, initialized := true } else none

/-- The books of the constructed feed are seeded as asked. -/
theorem isInitialized_seededFeed (seeded : SymbolId → Bool) (bids : Bids) (asks : Asks) :
    (seededFeed seeded bids asks).isInitialized = seeded := by
  funext x
  unfold OrderbookFeed.isInitialized seededFeed
  cases hx : seeded x <;> simp [hx]

/-- Feeds with one book for all their symbols tell lists of different effect apart. -/
theorem sameEffect_of_applyDepthUpdates {updates updates' : List DepthUpdate} {complete : Bool}
    {seeded : SymbolId → Bool} (hinit : ∀ u ∈ updates, seeded u.symbol = true)
    (hinit' : ∀ u ∈ updates', seeded u.symbol = true)
    (h : ∀ bids asks, (seededFeed seeded bids asks).applyDepthUpdates updates true =
      (seededFeed seeded bids asks).applyDepthUpdates updates' complete) :
    SameEffect updates updates' complete := by
  have hfeed : ∀ bids asks {us : List DepthUpdate}, (∀ u ∈ us, seeded u.symbol = true) →
      ∀ u ∈ us, (seededFeed seeded bids asks).isInitialized u.symbol = true := by
    intro bids asks us hus u hu
    rw [isInitialized_seededFeed]
    exact hus u hu
  constructor
  · intro x side price
    by_cases hx : seeded x = true
    · have hbook : ∀ (bids : Bids) (asks : Asks),
          ((levelWrites x .bid updates).foldl OrderedMap.write bids,
            (levelWrites x .ask updates).foldl OrderedMap.write asks) =
          ((levelWrites x .bid updates').foldl OrderedMap.write bids,
            (levelWrites x .ask updates').foldl OrderedMap.write asks) := by
        intro bids asks
        have hbooks := congrArg (fun parsed : OrderbookFeed × List SymbolId =>
          parsed.1.orderbookState x) (h bids asks)
        rw [orderbookState_applyDepthUpdates (hfeed bids asks hinit),
          orderbookState_applyDepthUpdates (hfeed bids asks hinit')] at hbooks
        unfold booksAfter seededFeed at hbooks
        dsimp only at hbooks
        rw [if_pos hx, Option.map_some, Option.map_some, updatedBook_eq, updatedBook_eq] at hbooks
        have hstate := Option.some.inj hbooks
        exact Prod.ext (congrArg OrderbookState.bids hstate) (congrArg OrderbookState.asks hstate)
      cases side with
      | bid => exact (foldl_write_eq_iff _ _).mp (fun m => congrArg Prod.fst (hbook m .empty)) price
      | ask => exact (foldl_write_eq_iff _ _).mp (fun m => congrArg Prod.snd (hbook .empty m)) price
    · have hnone : ∀ {us : List DepthUpdate}, (∀ u ∈ us, seeded u.symbol = true) →
          levelWrites x side us = [] := by
        intro us hus
        unfold levelWrites
        rw [List.map_eq_nil_iff, List.filter_eq_nil_iff]
        intro u hu hsame
        simp only [decide_eq_true_eq] at hsame
        exact hx (hsame.1 ▸ hus u hu)
      rw [hnone hinit, hnone hinit']
  · have hsymbols := congrArg Prod.snd (h .empty .empty)
    rw [snd_applyDepthUpdates (hfeed _ _ hinit), snd_applyDepthUpdates (hfeed _ _ hinit')]
      at hsymbols
    exact hsymbols

end SpotRelay.Analysis
