import SpotRelay.Analysis.DepthEffect
import SpotRelay.Analysis.DepthReading

/-!
# The two ways to read a depth message

The scanner takes an order type that is neither side for an ask, passes over objects that do not
show a symbol, and does not unescape.  Both paths do the same to every feed exactly if what it
reads has, whatever books are seeded, the effect of what the document says up to an object that
cannot be read.

* **the fast path** applies what it takes of the message (`parse_of_taken`), and the document path
  what it can read of the items (`simdjsonPath_eq`).
* **two ways that agree** read updates of the same effect (`ReadAlike`), which on a message read in
  full is a condition on its items (`readAlike_iff_of_read`).
-/

set_option autoImplicit false

namespace SpotRelay.Analysis

open SpotRelay.Library
open SpotRelay.Library.JsonText
open SpotRelay.Model SpotRelay.Interface

/-! ## The document -/

/-- What the simdjson path reads from a message (bithumb.cpp:1254-1297). -/
def simdjsonUpdates (simdjson : Simdjson) (s : OrderbookFeed) (message : List Char) :
    List DepthUpdate × Bool :=
  match (simdjson.depth message).type with
  | none => ([], false)
  | some type =>
    if type = "orderbookdepth".toList then
      let read := readDepthItems s.isInitialized (simdjson.depth message).list.items
      (read.1, read.2 && (simdjson.depth message).list.complete)
    else ([], true)

/-- The simdjson path on its own. -/
def simdjsonPath (simdjson : Simdjson) (s : OrderbookFeed) (message : List Char) :
    OrderbookFeed × List SymbolId :=
  s.applyDepthUpdates (simdjsonUpdates simdjson s message).1 (simdjsonUpdates simdjson s message).2

/-- It is what is left where the scanner gives up. -/
theorem parseOrderbookdepthMessage_of_none {simdjson : Simdjson} {s : OrderbookFeed}
    {message : List Char} (h : parseOrderbookdepthFast message = none) :
    s.parseOrderbookdepthMessage simdjson message = simdjsonPath simdjson s message := by
  unfold OrderbookFeed.parseOrderbookdepthMessage simdjsonPath OrderbookFeed.depthUpdates
  rw [h]
  rfl

/-- The update that an object of the list stands for. -/
def readUpdate (item : DepthItem) : Option DepthUpdate := do
  let symbol ← item.symbol
  let orderType ← item.orderType
  let price ← item.price
  let quantity ← item.quantity
  return {
    symbol := .fromBithumbFormat symbol
    side :=
      if orderType = "bid".toList then some .bid
      else if orderType = "ask".toList then some .ask
      else none
    price := fastStod price
    quantity := fastStod quantity }

/-- An item that reads has all its four fields, and the update is made of them. -/
theorem readUpdate_eq_some {item : DepthItem} {u : DepthUpdate} (h : readUpdate item = some u) :
    ∃ symbol orderType price quantity, item = ⟨some symbol, some orderType, some price,
      some quantity⟩ ∧ u = {
        symbol := .fromBithumbFormat symbol
        side :=
          if orderType = "bid".toList then some .bid
          else if orderType = "ask".toList then some .ask
          else none
        price := fastStod price
        quantity := fastStod quantity } := by
  unfold readUpdate at h
  revert h
  rcases item with ⟨_ | symbol, _ | orderType, _ | price, _ | quantity⟩
  all_goals intro h
  case some.some.some.some =>
    exact ⟨symbol, orderType, price, quantity, rfl, (Option.some.inj h).symm⟩
  all_goals exact absurd h (by simp)

/-- The items are read in order, and those of unknown symbols are passed over. -/
theorem readDepthItems_cons {initialized : SymbolId → Bool} {item : DepthItem} {u : DepthUpdate}
    (h : readUpdate item = some u) (rest : List DepthItem) :
    readDepthItems initialized (item :: rest) =
      ((if initialized u.symbol then [u] else []) ++ (readDepthItems initialized rest).1,
        (readDepthItems initialized rest).2) := by
  obtain ⟨symbol, orderType, price, quantity, rfl, rfl⟩ := readUpdate_eq_some h
  rw [readDepthItems]
  dsimp only
  split <;> rfl

/-- A list that can be read is read to its end. -/
theorem readDepthItems_append {initialized : SymbolId → Bool} {items : List DepthItem}
    {updates : List DepthUpdate} (h : items.mapM readUpdate = some updates)
    (rest : List DepthItem) :
    readDepthItems initialized (items ++ rest) =
      ((updates.filter fun u => initialized u.symbol) ++ (readDepthItems initialized rest).1,
        (readDepthItems initialized rest).2) := by
  induction items generalizing updates with
  | nil =>
    obtain rfl : [] = updates := Option.some.inj h
    rfl
  | cons item items ih =>
    rw [List.mapM_cons] at h
    cases hitem : readUpdate item with
    | none =>
      rw [hitem] at h
      exact absurd h (by simp)
    | some u =>
      cases hitems : items.mapM readUpdate with
      | none =>
        rw [hitem, hitems] at h
        exact absurd h (by simp)
      | some more =>
        rw [hitem, hitems] at h
        obtain rfl : u :: more = updates := Option.some.inj h
        rw [List.cons_append, readDepthItems_cons hitem, ih hitems]
        by_cases hu : initialized u.symbol = true
        · have hfilter : (u :: more).filter (fun u => initialized u.symbol) =
              u :: more.filter fun u => initialized u.symbol := List.filter_cons_of_pos hu
          rw [if_pos hu, hfilter]
          rfl
        · have hfilter : (u :: more).filter (fun u => initialized u.symbol) =
              more.filter fun u => initialized u.symbol := List.filter_cons_of_neg hu
          rw [if_neg hu, hfilter]
          rfl

/-! ## The message -/

/-- Where the scanner takes a message, its path does what the simdjson path does. -/
def PathsAgree (simdjson : Simdjson) (message : List Char) (s : OrderbookFeed) : Prop :=
  parseOrderbookdepthFast message ≠ none →
    s.parseOrderbookdepthMessage simdjson message = simdjsonPath simdjson s message

/-- Where the scanner takes a message, what it reads has, whatever books are seeded, the effect of
what the document says up to an object that cannot be read. -/
def ReadAlike {unescape : List Char → Option (List Char)} (m : DepthMessage unescape) : Prop :=
  ∀ updates, Taken m updates → ∀ seeded : SymbolId → Bool,
    SameEffect
      ((updates.map FastBithumbDepthUpdate.toDepthUpdate).filter fun u => seeded u.symbol)
      (readDepthItems seeded m.items).1 (readDepthItems seeded m.items).2

variable {unescape : List Char → Option (List Char)} {simdjson : Simdjson}
  {m : DepthMessage unescape}

/-- A message the fast path takes is applied as the updates it reads. -/
theorem parse_of_taken {updates : List FastBithumbDepthUpdate} (htaken : Taken m updates)
    (s : OrderbookFeed) :
    s.parseOrderbookdepthMessage simdjson m.text =
      s.applyDepthUpdates ((updates.map FastBithumbDepthUpdate.toDepthUpdate).filter
        fun u => s.isInitialized u.symbol) true := by
  have hfast : parseOrderbookdepthFast m.text = some updates :=
    parseOrderbookdepthFast_eq_some.mpr htaken
  unfold OrderbookFeed.parseOrderbookdepthMessage OrderbookFeed.depthUpdates
  rw [hfast]

/-- The fallback applies what simdjson reads of the message's items. -/
theorem simdjsonPath_eq (hparse : simdjson.depth m.text = m.document) (s : OrderbookFeed) :
    simdjsonPath simdjson s m.text =
      s.applyDepthUpdates (readDepthItems s.isInitialized m.items).1
        (readDepthItems s.isInitialized m.items).2 := by
  unfold simdjsonPath simdjsonUpdates
  rw [hparse]
  dsimp only [DepthMessage.document]
  rw [m.type_eq]
  simp only [if_true, Bool.and_true]

/-- Where every object can be read, alike means the same effect as all of them. -/
theorem readAlike_iff_of_read {updates : List DepthUpdate}
    (hread : m.items.mapM readUpdate = some updates) :
    ReadAlike m ↔ ∀ scanned, Taken m scanned →
      SameEffect (scanned.map FastBithumbDepthUpdate.toDepthUpdate) updates true := by
  have hitems : ∀ seeded, readDepthItems seeded m.items =
      (updates.filter fun u => seeded u.symbol, true) := by
    intro seeded
    have hall := @readDepthItems_append seeded _ _ hread []
    simpa [readDepthItems] using hall
  have hsymbols : ∀ (seeded : SymbolId → Bool) (us : List DepthUpdate),
      runs ((us.filter fun u => seeded u.symbol).map DepthUpdate.symbol) =
        runs ((runs (us.map DepthUpdate.symbol)).filter seeded) := by
    intro seeded us
    rw [← runs_filter, List.filter_map]
    rfl
  constructor
  · intro h scanned htaken
    have hsame := h scanned htaken fun _ => true
    simp only [hitems, List.filter_true] at hsame
    exact hsame
  · intro h scanned htaken seeded
    obtain ⟨hlevels, hruns⟩ := h scanned htaken
    rw [hitems]
    refine ⟨fun x side price => ?_, ?_⟩
    · rw [levelWrites_filter, levelWrites_filter]
      split
      · exact hlevels x side price
      · rfl
    · have hruns' : runs ((scanned.map FastBithumbDepthUpdate.toDepthUpdate).map
          DepthUpdate.symbol) = runs (updates.map DepthUpdate.symbol) := hruns
      show _ = runs _
      rw [hsymbols, hruns', ← hsymbols]

/-! ## Where the document path stops -/

/-- A reading that breaks off does so at the same object where fewer books are seeded, as long as
the book of that object is: `stop` is its symbol, if it has one. -/
theorem readDepthItems_stop {initialized : SymbolId → Bool} {items : List DepthItem}
    (h : (readDepthItems initialized items).2 = false) :
    ∃ stop : Option SymbolId, (∀ y, stop = some y → initialized y = true) ∧
      ∀ fewer : SymbolId → Bool, (∀ x, fewer x = true → initialized x = true) →
        (∀ y, stop = some y → fewer y = true) →
          readDepthItems fewer items =
            ((readDepthItems initialized items).1.filter fun u => fewer u.symbol, false) := by
  induction items with
  | nil => exact absurd h (by simp [readDepthItems])
  | cons item items ih =>
    obtain ⟨symbol, orderType, price, quantity⟩ := item
    cases symbol with
    | none =>
      refine ⟨none, fun y hy => absurd hy (by simp), fun fewer _ _ => ?_⟩
      simp [readDepthItems]
    | some symbol =>
      by_cases hinit : initialized (.fromBithumbFormat symbol) = true
      · cases orderType with
        | none =>
          refine ⟨some (.fromBithumbFormat symbol), ?_, fun fewer _ hstop => ?_⟩
          · rintro y ⟨⟩
            exact hinit
          · simp [readDepthItems, hinit, hstop _ rfl]
        | some orderType =>
          cases price with
          | none =>
            refine ⟨some (.fromBithumbFormat symbol), ?_, fun fewer _ hstop => ?_⟩
            · rintro y ⟨⟩
              exact hinit
            · simp [readDepthItems, hinit, hstop _ rfl]
          | some price =>
            cases quantity with
            | none =>
              refine ⟨some (.fromBithumbFormat symbol), ?_, fun fewer _ hstop => ?_⟩
              · rintro y ⟨⟩
                exact hinit
              · simp [readDepthItems, hinit, hstop _ rfl]
            | some quantity =>
              simp only [readDepthItems, hinit, if_true] at h ⊢
              obtain ⟨stop, hstop, hfewer⟩ := ih h
              refine ⟨stop, hstop, fun fewer hless hin => ?_⟩
              rw [hfewer fewer hless hin]
              by_cases hkeep : fewer (.fromBithumbFormat symbol) = true
              · simp [hkeep]
              · simp [hkeep]
      · simp only [readDepthItems, hinit] at h ⊢
        obtain ⟨stop, hstop, hfewer⟩ := ih h
        refine ⟨stop, hstop, fun fewer hless hin => ?_⟩
        have hskip : ¬ fewer (.fromBithumbFormat symbol) = true := fun hkeep =>
          hinit (hless _ hkeep)
        simp only [hskip]
        exact hfewer fewer hless hin

/-- What a reading that is broken off hands on of one book is nothing. -/
theorem handedOn_of_forall_eq {updates : List DepthUpdate} {x : SymbolId}
    (h : ∀ u ∈ updates, u.symbol = x) : handedOn updates false = [] := by
  have hsymbols : ∀ y ∈ updates.map DepthUpdate.symbol, y = x := by
    intro y hy
    obtain ⟨u, hu, rfl⟩ := List.mem_map.mp hy
    exact h u hu
  unfold handedOn
  by_cases hnil : updates.map DepthUpdate.symbol = []
  · rw [hnil]
    rfl
  · rw [runs_of_forall_eq hsymbols hnil]
    rfl

/-- The symbol that a broken-off reading leaves unrefreshed is not one that the scanner reads: with
no other books seeded than its own and that of the object where the reading breaks off, it would
be handed on by the scanner alone. -/
theorem last_not_scanned {scanned : List DepthUpdate} {documents : List DepthItem}
    (hsame : ∀ seeded : SymbolId → Bool,
      SameEffect (scanned.filter fun u => seeded u.symbol) (readDepthItems seeded documents).1
        (readDepthItems seeded documents).2)
    {seeded : SymbolId → Bool} (hstop : (readDepthItems seeded documents).2 = false)
    {last : DepthUpdate} (hlast : (readDepthItems seeded documents).1.getLast? = some last) :
    last.symbol ∉ scanned.map DepthUpdate.symbol := by
  obtain ⟨stop, hstopSeeded, hfewer⟩ := readDepthItems_stop hstop
  have hlastSeeded : seeded last.symbol = true :=
    isInitialized_of_readDepthItems (List.mem_of_getLast? hlast)
  intro hmem
  -- the book of the object where the reading breaks off is not one of the scanner
  have hstopNot : ∀ y, stop = some y → y ∉ scanned.map DepthUpdate.symbol := by
    intro y hy hscanned
    have hone := hfewer (fun x => decide (x = y))
      (fun x hx => by rw [of_decide_eq_true hx]; exact hstopSeeded y hy)
      (fun z hz => decide_eq_true (Option.some.inj (hz.symm.trans hy)))
    have hsymbols := (hsame fun x => decide (x = y)).symbols
    rw [hone] at hsymbols
    dsimp only at hsymbols
    rw [handedOn_of_forall_eq fun u hu => of_decide_eq_true (List.mem_filter.mp hu).2] at hsymbols
    obtain ⟨u, hu, rfl⟩ := List.mem_map.mp hscanned
    have hnil := List.map_eq_nil_iff.mp (runs_eq_nil hsymbols)
    rw [List.filter_eq_nil_iff] at hnil
    exact hnil u hu (decide_eq_true rfl)
  -- so the scanner hands on the last symbol alone
  have htwo := hfewer (fun x => decide (x = last.symbol ∨ stop = some x))
    (fun x hx => by
      rcases of_decide_eq_true hx with rfl | hy
      · exact hlastSeeded
      · exact hstopSeeded x hy)
    (fun y hy => decide_eq_true (Or.inr hy))
  have hsymbols := (hsame fun x => decide (x = last.symbol ∨ stop = some x)).symbols
  rw [htwo] at hsymbols
  have hscanned : runs ((scanned.filter fun u =>
      decide (u.symbol = last.symbol ∨ stop = some u.symbol)).map DepthUpdate.symbol) =
        [last.symbol] := by
    refine runs_of_forall_eq ?_ ?_
    · intro y hy
      obtain ⟨u, hu, rfl⟩ := List.mem_map.mp hy
      obtain ⟨hu, hkept⟩ := List.mem_filter.mp hu
      refine (of_decide_eq_true hkept).resolve_right fun hy => ?_
      exact hstopNot _ hy (List.mem_map_of_mem hu)
    · obtain ⟨u, hu, heq⟩ := List.mem_map.mp hmem
      intro hnil
      rw [List.map_eq_nil_iff, List.filter_eq_nil_iff] at hnil
      exact hnil u hu (decide_eq_true (Or.inl heq))
  -- while it is the name of the last two runs of the document
  rw [hscanned] at hsymbols
  obtain ⟨init, hinit⟩ := List.getLast?_eq_some_iff.mp hlast
  have hend : (runs (((readDepthItems seeded documents).1.filter fun u =>
      decide (u.symbol = last.symbol ∨ stop = some u.symbol)).map
        DepthUpdate.symbol)).getLast? = some last.symbol := by
    rw [getLast?_runs, hinit, List.filter_append]
    simp
  have hsplit := List.dropLast_append_getLast? last.symbol hend
  have htwice : [last.symbol] ++ [last.symbol] = _ :=
    (congrArg (· ++ [last.symbol]) hsymbols).trans hsplit
  exact runs_ne_append_twice _ [] last.symbol htwice.symm

/-- The paths agree on every feed exactly if the message is read alike. -/
theorem pathsAgree_iff (hparse : simdjson.depth m.text = m.document) :
    (∀ s, PathsAgree simdjson m.text s) ↔ ReadAlike m := by
  constructor
  · intro hagree updates htaken seeded
    refine sameEffect_of_applyDepthUpdates (fun u hu => (List.mem_filter.mp hu).2)
      (fun u hu => isInitialized_of_readDepthItems hu) fun bids asks => ?_
    have hfast : parseOrderbookdepthFast m.text ≠ none := by
      rw [parseOrderbookdepthFast_eq_some.mpr htaken]
      exact Option.some_ne_none updates
    have hsame := hagree (seededFeed seeded bids asks) hfast
    rwa [parse_of_taken htaken, simdjsonPath_eq hparse, isInitialized_seededFeed] at hsame
  · intro halike s hfast
    obtain ⟨updates, hupdates⟩ := Option.ne_none_iff_exists'.mp hfast
    have htaken := parseOrderbookdepthFast_eq_some.mp hupdates
    have hsame := halike updates htaken
    rw [parse_of_taken htaken, simdjsonPath_eq hparse]
    refine applyDepthUpdates_of_sameEffect (hsame s.isInitialized) ?_
      (fun u hu => (List.mem_filter.mp hu).2) fun u hu => isInitialized_of_readDepthItems hu
    intro hstop last hlast hmem
    obtain ⟨u, hu, heq⟩ := List.mem_map.mp hmem
    exact last_not_scanned hsame hstop hlast
      (heq ▸ List.mem_map_of_mem (List.mem_of_mem_filter hu))

/-- Strings without escapes stand for themselves. -/
def plainUnescape (raw : List Char) : Option (List Char) :=
  if '\\' ∈ raw then none else some raw

def noBlanks : Blanks := ⟨[], by decide⟩

/-- A field without blanks, in front of others. -/
def fieldOf (name : Body) (value : Json .value) (rest : Json .fields) : Json .fields :=
  .field noBlanks name noBlanks noBlanks value noBlanks rest

/-- An object with the four fields in the order of the scanner. -/
def btcFields (orderType : Body) : Json .fields :=
  fieldOf ⟨"symbol".toList, by decide⟩ (.string ⟨"BTC_KRW".toList, by decide⟩)
    (fieldOf ⟨"orderType".toList, by decide⟩ (.string orderType)
      (fieldOf ⟨"price".toList, by decide⟩ (.string ⟨"100".toList, by decide⟩)
        (fieldOf ⟨"quantity".toList, by decide⟩ (.string ⟨"5".toList, by decide⟩)
          (.noField noBlanks))))

/-- A message of one object. -/
def btcMessage (orderType : Body) : DepthMessage plainUnescape :=
  let list : Json .elements :=
    .element noBlanks (.object (btcFields orderType)) noBlanks (.noElement noBlanks)
  let content := fieldOf ⟨"list".toList, by decide⟩ (.array list) (.noField noBlanks)
  { lead := noBlanks
    trail := noBlanks
    root :=
      fieldOf ⟨"type".toList, by decide⟩ (.string ⟨"orderbookdepth".toList, by decide⟩)
        (fieldOf ⟨"content".toList, by decide⟩ (.object content) (.noField noBlanks))
    content := content
    list := list
    type_eq := rfl
    content_eq := rfl
    list_eq := rfl
    root_nodup := by
      show ["type".toList, "content".toList].Nodup
      decide
    content_nodup := by
      show ["list".toList].Nodup
      decide
    items_nodup := by
      intro fields hmem
      obtain rfl := Json.object.inj (List.mem_singleton.mp hmem)
      show depthKeys.Nodup
      decide }

def bidMessage : DepthMessage plainUnescape := btcMessage ⟨"bid".toList, by decide⟩

/-- An order type that is neither side. -/
def tradeMessage : DepthMessage plainUnescape := btcMessage ⟨"trade".toList, by decide⟩

/-- Simdjson on one depth message. -/
def depthJson (m : DepthMessage plainUnescape) : Simdjson where
  depth text := if text = m.text then m.document else ⟨none, [], false⟩
  ticker _ := ⟨none, none, none⟩
  snapshots _ := ⟨none, [], false⟩

/-- The sample parser reads the message it was made for. -/
theorem depth_depthJson (m : DepthMessage plainUnescape) :
    (depthJson m).depth m.text = m.document := if_pos rfl

/-- Both paths agree on a message of one bid. -/
theorem pathsAgree_iff_bid :
    PathsAgree (depthJson bidMessage) bidMessage.text
      (seededFeed (fun _ => true) .empty .empty) := by
  have hscanned : shownUpdates bidMessage = some [⟨.of "BTC" "KRW", true, 100, 5⟩] := by
    decide +kernel
  have hread : bidMessage.items.mapM readUpdate =
      some [⟨.of "BTC" "KRW", some .bid, 100, 5⟩] := by
    decide +kernel
  refine (pathsAgree_iff (depth_depthJson bidMessage)).mpr ?_ _
  refine (readAlike_iff_of_read hread).mpr fun scanned htaken => ?_
  obtain rfl := Option.some.inj (hscanned.symm.trans htaken.2.1)
  exact ⟨fun _ _ _ => rfl, rfl⟩

/-- The scanner puts the order on the ask side, the document path nowhere. -/
theorem pathsAgree_trade :
    ¬ PathsAgree (depthJson tradeMessage) tradeMessage.text
      (seededFeed (fun _ => true) .empty .empty) := by
  intro hagree
  have hsame := hagree (by decide +kernel)
  have hbook := congrArg (fun parsed : OrderbookFeed × List SymbolId =>
    (parsed.1.orderbookState (.of "BTC" "KRW")).map fun state => state.asks.entries) hsame
  revert hbook
  decide +kernel

end SpotRelay.Analysis
