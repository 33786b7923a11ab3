import Mathlib.Data.List.TakeWhile
import SpotRelay.Analysis.QuotedValues
import SpotRelay.Interface.BybitOrderbook

/-!
# The two ways to read an order book message

What the markers of `parse_orderbook_fast` find in a message of the venue, what the document path
finds in its document, and when the two agree on the symbol.

* **the fast path** reads a ticker exactly where the message is named and has both best quotes
  (`orderbookFast_ticker`).
* **both paths agree** where the symbol is kept by the copy into the ticker (`agree_of_symbolKept`),
  and where they agree it is kept (`symbolKept_of_agree`).
-/

set_option autoImplicit false

namespace SpotRelay.Analysis

open SpotRelay.Library.MarkerSearch
open SpotRelay.Library.JsonString
open SpotRelay.Model SpotRelay.Model.Bybit
open SpotRelay.Interface SpotRelay.Interface.OrderbookMessage

/-! ## The parts of a message -/

/-- A key that is none of those before the book, and no bracket or comma. -/
def BookKey (key : List Char) : Prop :=
  PlainKey key ∧ key.head? ≠ some ':' ∧ key.head? ≠ some ',' ∧ key.head? ≠ some ']'

instance (key : List Char) : Decidable (BookKey key) := inferInstanceAs (Decidable (_ ∧ _))

variable {key tail : List Char}

/-- A quoted text before a comma does not end the search for a book key. -/
theorem after_quoted (hkey : BookKey key) (text rest : List Char) :
    after (keyMarker key tail) (quoted text (',' :: rest)) = after (keyMarker key tail) rest := by
  show after (keyMarker key tail) ('"' :: (escape text ++ '"' :: ',' :: rest)) = _
  rw [after_string hkey.1 (quotesEscaped_escape text) (by decide) hkey.2.2.1,
    after_cons_of_ne (by decide)]

/-- A number does not end the search for a book key. -/
theorem after_number (n : ℕ) (rest : List Char) :
    after (keyMarker key tail) (number n rest) = after (keyMarker key tail) rest := by
  refine after_skip (fun hmem => ?_) rest
  have hdigit := Nat.isDigit_of_mem_toDigits (by decide) (by decide) hmem
  exact absurd hdigit (by decide)

/-- The search passes over another key. -/
theorem after_otherKey (hkey : BookKey key) {other : List Char} (hother : '"' ∉ other)
    (hne : other ≠ key) (rest : List Char) :
    after (keyMarker key tail) (keyMarker other rest) = after (keyMarker key tail) rest := by
  rw [keyMarker.eq_def other, after_key hkey.1 hkey.2.1 hother (Or.inl hne),
    after_cons_of_ne (by decide)]

/-- A row of the book does not end the search for a book key. -/
theorem after_row (hkey : BookKey key) (row : BookRow) (rest : List Char) :
    after (keyMarker key tail) (row.text rest) = after (keyMarker key tail) rest := by
  show after _ ('[' :: quoted row.price.chars (',' :: quoted row.size.chars (']' :: rest))) = _
  rw [after_cons_of_ne (by decide), after_quoted hkey]
  show after _ ('"' :: (escape row.size.chars ++ '"' :: ']' :: rest)) = _
  rw [after_string hkey.1 (quotesEscaped_escape _) (by decide) hkey.2.2.2,
    after_cons_of_ne (by decide)]

/-- The rows behind the first one do not end the search for a book key. -/
theorem after_moreRows (hkey : BookKey key) (rows : List BookRow) (rest : List Char) :
    after (keyMarker key tail) (moreRows rows rest) = after (keyMarker key tail) rest := by
  induction rows with
  | nil => exact after_cons_of_ne (by decide) rest
  | cons row rows ih =>
    show after _ (',' :: row.text (moreRows rows rest)) = _
    rw [after_cons_of_ne (by decide), after_row hkey, ih]

/-- All rows of a side together do not end the search for a book key. -/
theorem after_rowsText (hkey : BookKey key) (rows : List BookRow) (rest : List Char) :
    after (keyMarker key tail) (rowsText rows rest) = after (keyMarker key tail) rest := by
  cases rows with
  | nil =>
    show after _ ('[' :: ']' :: rest) = _
    rw [after_cons_of_ne (by decide), after_cons_of_ne (by decide)]
  | cons row rows =>
    show after _ ('[' :: row.text (moreRows rows rest)) = _
    rw [after_cons_of_ne (by decide), after_row hkey, after_moreRows hkey]

/-- The header of a message has no book key in it. -/
theorem after_headerText (hkey : BookKey key) (hts : "ts".toList ≠ key)
    (htype : "type".toList ≠ key) (m : OrderbookMessage) (rest : List Char) :
    after (keyMarker key tail) (m.headerText (',' :: rest)) = after (keyMarker key tail) rest := by
  unfold headerText
  by_cases hfirst : m.tsFirst
  · rw [if_pos hfirst, after_otherKey hkey (by decide) hts, after_number,
      after_cons_of_ne (by decide), after_otherKey hkey (by decide) htype, after_quoted hkey]
  · rw [if_neg hfirst, after_otherKey hkey (by decide) htype, after_quoted hkey,
      after_otherKey hkey (by decide) hts, after_number, after_cons_of_ne (by decide)]

/-- The end of a message has no book key in it. -/
theorem after_endText (hkey : BookKey key) (hcts : "cts".toList ≠ key) (m : OrderbookMessage) :
    after (keyMarker key tail) m.endText = none := by
  have hbrace : after (keyMarker key tail) ['}'] = none := after_nil_of_skip (by decide)
  unfold endText
  cases m.cts with
  | none => exact hbrace
  | some cts =>
    show after _ (',' :: keyMarker "cts".toList (number cts ['}'])) = _
    rw [after_cons_of_ne (by decide), after_otherKey hkey (by decide) hcts, after_number, hbrace]

/-- The search passes over everything before the book. -/
theorem after_text (hkey : BookKey key) (m : OrderbookMessage)
    (hkeys : key ∉ ["topic".toList, "ts".toList, "type".toList, "data".toList, "s".toList]) :
    after (keyMarker key tail) m.text = after (keyMarker key tail) m.bookText := by
  simp only [List.mem_cons, List.not_mem_nil, or_false, not_or] at hkeys
  obtain ⟨htopic, hts, htype, hdata, hsymbol⟩ := hkeys
  unfold OrderbookMessage.text dataText bookText
  rw [after_cons_of_ne (by decide), after_otherKey hkey (by decide) (Ne.symm htopic),
    after_quoted hkey, after_headerText hkey (Ne.symm hts) (Ne.symm htype),
    after_otherKey hkey (by decide) (Ne.symm hdata), after_cons_of_ne (by decide),
    after_otherKey hkey (by decide) (Ne.symm hsymbol), after_quoted hkey,
    after_cons_of_ne (by decide)]

/-! ## The scanner -/

/-- The topic is found where the message has it. -/
theorem findAfter_topic (m : OrderbookMessage) :
    findAfter "\"topic\":\"orderbook.1.".toList m.text =
      some (escape m.topicSymbol ++ '"' :: m.dataText) := by
  have hmarker : "\"topic\":\"orderbook.1.".toList =
      keyMarker "topic".toList ('"' :: topicName) := by decide
  have hname : escape topicName = topicName := escape_of_plain (by decide)
  have htopic : quoted (topicName ++ m.topicSymbol) m.dataText =
      '"' :: topicName ++ (escape m.topicSymbol ++ '"' :: m.dataText) := by
    rw [quoted, escape_append, hname, List.append_assoc, List.cons_append]
  unfold OrderbookMessage.text
  rw [findAfter_eq_after, hmarker, htopic, after_cons_of_ne (by decide), after_keyMarker]

/-- The symbol is found in front of the book. -/
theorem findAfter_symbol (m : OrderbookMessage) :
    findAfter "\"s\":\"".toList ('"' :: m.dataText) =
      some (escape m.symbol ++ '"' :: m.bookText) := by
  have hkey : BookKey "s".toList := by decide
  have hmarker : "\"s\":\"".toList = keyMarker "s".toList ['"'] := by decide
  have hsymbol : quoted m.symbol m.bookText =
      ['"'] ++ (escape m.symbol ++ '"' :: m.bookText) := rfl
  unfold dataText
  rw [findAfter_eq_after, hmarker, after_quote hkey.1 hkey.2.2.1, after_cons_of_ne (by decide),
    after_headerText hkey (by decide) (by decide), after_otherKey hkey (by decide) (by decide),
    after_cons_of_ne (by decide), hsymbol, after_keyMarker]

/-- The price and size of a row as the code reads them. -/
def quote (row : BookRow) : ℚ × ℚ := (fastStod row.price.chars, fastStod row.size.chars)

/-- A number has nothing to escape. -/
theorem escape_numberText (n : NumberText) : escape n.chars = n.chars := escape_of_plain n.plain

/-- A number has no quotation mark in it. -/
theorem quote_not_mem_numberText (n : NumberText) : '"' ∉ n.chars :=
  fun hmem => (n.plain '"' hmem).1 rfl

/-- A marker in front of a row yields the price and the size of the row. -/
theorem parseQuotedDoublePair_row {message marker rest : List Char} {row : BookRow}
    (h : findAfter marker message =
      some (row.price.chars ++ '"' :: ',' :: quoted row.size.chars rest)) :
    parseQuotedDoublePair message marker = some (quote row) := by
  have hprice := extractQuotedValue_of_found h (quote_not_mem_numberText row.price)
  have hfound : findAfter "\",\"".toList ('"' :: ',' :: quoted row.size.chars rest) =
      some (row.size.chars ++ '"' :: rest) := by
    rw [quoted, escape_numberText, findAfter_eq_after]
    exact after_self (by decide) _
  have hsize := extractQuotedValue_of_found hfound (quote_not_mem_numberText row.size)
  rw [parseQuotedDoublePair, hprice]
  simp only [Option.bind_eq_bind, Option.bind_some, hsize]
  rfl

/-- A marker that is not there yields nothing. -/
theorem parseQuotedDoublePair_none {message marker : List Char}
    (h : findAfter marker message = none) : parseQuotedDoublePair message marker = none := by
  rw [parseQuotedDoublePair, extractQuotedValue_of_none h]
  rfl

/-- Behind its key, a side that is not empty shows its first row. -/
theorem after_side (key : List Char) (row : BookRow) (rows : List BookRow) (rest : List Char) :
    after (keyMarker key "[[\"".toList) (keyMarker key (rowsText (row :: rows) rest)) =
      some (row.price.chars ++ '"' :: ',' :: quoted row.size.chars (']' :: moreRows rows rest)) := by
  have hrow : rowsText (row :: rows) rest = "[[\"".toList ++
      (row.price.chars ++ '"' :: ',' :: quoted row.size.chars (']' :: moreRows rows rest)) := by
    rw [rowsText, BookRow.text, quoted, escape_numberText]
    rfl
  rw [hrow, after_keyMarker]

/-- The search passes over an empty side. -/
theorem after_emptySide (hkey : BookKey key) (rest : List Char) :
    after (keyMarker key "[[\"".toList) (keyMarker key (rowsText [] rest)) =
      after (keyMarker key "[[\"".toList) rest := by
  have hempty : ¬ "[[\"".toList <+: rowsText [] rest := by
    intro hprefix
    have hbracket := (List.cons_prefix_cons.mp (List.cons_prefix_cons.mp hprefix).2).1
    exact absurd hbracket (by decide)
  rw [keyMarker.eq_def key (rowsText [] rest), after_key hkey.1 hkey.2.1 hkey.1.1 (Or.inr hempty),
    after_cons_of_ne (by decide), after_rowsText hkey]

/-- Nothing is found behind the asks. -/
theorem after_counters (hkey : BookKey key) (m : OrderbookMessage)
    (hkeys : key ∉ ["u".toList, "seq".toList, "cts".toList]) :
    after (keyMarker key tail) (',' :: keyMarker "u".toList (number m.u
      (',' :: keyMarker "seq".toList (number m.seq ('}' :: m.endText))))) = none := by
  simp only [List.mem_cons, List.not_mem_nil, or_false, not_or] at hkeys
  obtain ⟨hu, hseq, hcts⟩ := hkeys
  rw [after_cons_of_ne (by decide), after_otherKey hkey (by decide) (Ne.symm hu), after_number,
    after_cons_of_ne (by decide), after_otherKey hkey (by decide) (Ne.symm hseq), after_number,
    after_cons_of_ne (by decide), after_endText hkey (Ne.symm hcts)]

/-- A side is read as its first row, where the search reaches it and finds nothing behind it. -/
theorem parseQuotedDoublePair_side (hkey : BookKey key) {message rest : List Char}
    {rows : List BookRow}
    (hside : after (keyMarker key "[[\"".toList) message =
      after (keyMarker key "[[\"".toList) (keyMarker key (rowsText rows rest)))
    (hrest : after (keyMarker key "[[\"".toList) rest = none) :
    parseQuotedDoublePair message (keyMarker key "[[\"".toList) = rows.head?.map quote := by
  cases rows with
  | nil =>
    rw [after_emptySide hkey, hrest, ← findAfter_eq_after] at hside
    exact parseQuotedDoublePair_none hside
  | cons row rows =>
    rw [after_side, ← findAfter_eq_after] at hside
    exact parseQuotedDoublePair_row hside

/-- The fast path reads the first bid. -/
theorem parseQuotedDoublePair_bids (m : OrderbookMessage) :
    parseQuotedDoublePair m.text "\"b\":[[\"".toList = m.bids.head?.map quote := by
  have hkey : BookKey "b".toList := by decide
  have hmarker : "\"b\":[[\"".toList = keyMarker "b".toList "[[\"".toList := by decide
  rw [hmarker]
  apply parseQuotedDoublePair_side hkey
  · rw [after_text hkey m (by decide), bookText, after_cons_of_ne (by decide)]
  · rw [after_cons_of_ne (by decide), after_otherKey hkey (by decide) (by decide),
      after_rowsText hkey, after_counters hkey m (by decide)]

/-- It reads the first ask. -/
theorem parseQuotedDoublePair_asks (m : OrderbookMessage) :
    parseQuotedDoublePair m.text "\"a\":[[\"".toList = m.asks.head?.map quote := by
  have hkey : BookKey "a".toList := by decide
  have hmarker : "\"a\":[[\"".toList = keyMarker "a".toList "[[\"".toList := by decide
  rw [hmarker]
  apply parseQuotedDoublePair_side hkey
  · rw [after_text hkey m (by decide), bookText, after_cons_of_ne (by decide),
      after_otherKey hkey (by decide) (by decide), after_rowsText hkey,
      after_cons_of_ne (by decide)]
  · exact after_counters hkey m (by decide)

/-- The scanner knows the symbol: topic and data name the same one, in USDT. -/
def Named (m : OrderbookMessage) : Prop :=
  m.topicSymbol = m.symbol ∧ '"' ∉ m.symbol ∧ 4 < m.symbol.length ∧ "USDT".toList <:+ m.symbol

instance (m : OrderbookMessage) : Decidable (Named m) := inferInstanceAs (Decidable (_ ∧ _))

/-- A text that ends in a backslash does not end in the quote coin. -/
theorem not_usdt_suffix (init : List Char) : ¬ "USDT".toList <:+ init ++ ['\\'] := by
  rintro ⟨front, heq⟩
  have hsplit : (front ++ "USD".toList) ++ ['T'] = init ++ ['\\'] := by
    rw [← heq, List.append_assoc]
    rfl
  have hlast := (List.cons.inj (List.append_inj' hsplit rfl).2).1
  exact absurd hlast (by decide)

/-- Escaping keeps a symbol in USDT one. -/
theorem usdt_suffix_escape {text : List Char} :
    "USDT".toList <:+ escape text ↔ "USDT".toList <:+ text := by
  constructor
  · rintro ⟨front, heq⟩
    obtain ⟨init, rfl, -⟩ := escape_eq_append (by decide) heq.symm
    exact ⟨init, rfl⟩
  · rintro ⟨init, rfl⟩
    have husdt : escape "USDT".toList = "USDT".toList := escape_of_plain (by decide)
    exact ⟨escape init, by rw [escape_append, husdt]⟩

/-- A guard that holds goes on. -/
theorem guard_pos {p : Prop} [Decidable p] (h : p) : (guard p : Option Unit) = some () := by
  rw [guard, if_pos h]
  rfl

/-- A guard that fails ends the parser. -/
theorem guard_neg {p : Prop} [Decidable p] (h : ¬ p) : (guard p : Option Unit) = none := by
  rw [guard, if_neg h]
  rfl

/-- The checks of the scanner, once topic and data are found. -/
theorem topicSymbol_of_found {message value post : List Char}
    (hvalue : extractQuotedValue message "\"topic\":\"orderbook.1.".toList = some (value, post))
    (hdata : (findAfter "\"s\":\"".toList post).isSome = true) (known : List Char) :
    Bybit.topicSymbol message = some known ↔
      known = value ∧ 4 < value.length ∧ "USDT".toList <:+ value ∧
        ∃ rest, extractQuotedValue post "\"s\":\"".toList = some (value, rest) := by
  unfold Bybit.topicSymbol
  simp only [hvalue, Option.bind_eq_bind, Option.bind_some, hdata, if_true]
  by_cases husdt : 4 < value.length ∧ "USDT".toList <:+ value
  · rw [guard_pos husdt, Option.bind_some]
    cases hsymbol : extractQuotedValue post "\"s\":\"".toList with
    | none =>
      refine ⟨fun h => absurd h (by simp), fun h => ?_⟩
      obtain ⟨rest, hrest⟩ := h.2.2.2
      exact absurd hrest (by simp)
    | some found =>
      obtain ⟨dataSymbol, rest⟩ := found
      rw [Option.bind_some]
      by_cases heq : dataSymbol = value
      · rw [guard_pos heq, Option.bind_some, heq]
        refine ⟨fun h => ⟨(Option.some.inj h).symm, husdt.1, husdt.2, rest, rfl⟩, fun h => ?_⟩
        rw [h.1]
        rfl
      · rw [guard_neg heq]
        refine ⟨fun h => absurd h (by simp), fun h => ?_⟩
        obtain ⟨rest', hrest'⟩ := h.2.2.2
        exact absurd (Prod.ext_iff.mp (Option.some.inj hrest')).1 heq
  · rw [guard_neg husdt]
    exact ⟨fun h => absurd h (by simp), fun h => absurd ⟨h.2.1, h.2.2.1⟩ husdt⟩

/-- A symbol in USDT is more than that, escaped or not. -/
theorem four_lt_length_escape {text : List Char} (h : "USDT".toList <:+ text) :
    4 < (escape text).length ↔ 4 < text.length := by
  obtain ⟨init, rfl⟩ := h
  have husdt : escape "USDT".toList = "USDT".toList := escape_of_plain (by decide)
  have hfour : "USDT".toList.length = 4 := by decide
  rw [escape_append, husdt, List.length_append, List.length_append, hfour]
  have hnil : (escape init).length = 0 ↔ init.length = 0 := by
    rw [List.length_eq_zero_iff, List.length_eq_zero_iff]
    exact ⟨escape_eq_nil, fun h => by rw [h, escape_nil]⟩
  omega

/-- What the scanner takes for the symbol of a message. -/
theorem topicSymbol_text (m : OrderbookMessage) (known : List Char) :
    Bybit.topicSymbol m.text = some known ↔ Named m ∧ known = escape m.symbol := by
  have hdata : (findAfter "\"s\":\"".toList ('"' :: m.dataText)).isSome = true := by
    rw [findAfter_symbol]
    rfl
  rcases extractQuotedValue_string (findAfter_topic m) with
    ⟨htopic, hvalue⟩ | ⟨htopic, init, post, hvalue⟩
  · rw [topicSymbol_of_found hvalue hdata]
    rcases extractQuotedValue_string (findAfter_symbol m) with
      ⟨hsymbol, hfound⟩ | ⟨hsymbol, init, post, hfound⟩
    · constructor
      · rintro ⟨rfl, hlength, husdt, rest, hrest⟩
        rw [hfound] at hrest
        have hsame : escape m.symbol = escape m.topicSymbol :=
          (Prod.ext_iff.mp (Option.some.inj hrest)).1
        rw [← hsame] at hlength husdt ⊢
        have hsuffix := usdt_suffix_escape.mp husdt
        exact ⟨⟨(escape_inj hsame).symm, hsymbol, (four_lt_length_escape hsuffix).mp hlength,
          hsuffix⟩, rfl⟩
      · rintro ⟨⟨hsame, -, hlength, husdt⟩, rfl⟩
        rw [hsame]
        exact ⟨rfl, (four_lt_length_escape husdt).mpr hlength, usdt_suffix_escape.mpr husdt, _,
          hfound⟩
    · constructor
      · rintro ⟨rfl, -, husdt, rest, hrest⟩
        rw [hfound] at hrest
        have hsame : init ++ ['\\'] = escape m.topicSymbol :=
          (Prod.ext_iff.mp (Option.some.inj hrest)).1
        rw [← hsame] at husdt
        exact absurd husdt (not_usdt_suffix init)
      · exact fun h => absurd hsymbol h.1.2.1
  · constructor
    · intro h
      unfold Bybit.topicSymbol at h
      simp only [hvalue, Option.bind_eq_bind, Option.bind_some] at h
      rw [guard_neg fun hcheck => not_usdt_suffix init hcheck.2] at h
      exact absurd h (by simp)
    · exact fun h => absurd htopic (h.1.1 ▸ h.1.2.1)

/-- The best quotes of a message, both positive. -/
def BestQuotes (m : OrderbookMessage) (bid ask : BookRow) : Prop :=
  m.bids.head? = some bid ∧ m.asks.head? = some ask ∧
    0 < (quote bid).1 ∧ 0 < (quote ask).1

/-- A ticker with the best quotes of a message. -/
def quoteTicker (before : Ticker) (now : UInt64) (symbol : SymbolId) (bid ask : BookRow) :
    Ticker :=
  { before with
    exchange := .bybit
    timestamp := now
    symbol
    bid := (quote bid).1
    bidQty := (quote bid).2
    ask := (quote ask).1
    askQty := (quote ask).2 }

/-- The fast path announces exactly the first quotes of both sides under the escaped symbol. -/
theorem orderbookFast_ticker (m : OrderbookMessage) (now : UInt64) (before ticker : Ticker) :
    (parseOrderbookFast now m.text).ticker before = some ticker ↔
      Named m ∧ ∃ bid ask, BestQuotes m bid ask ∧
        ticker = quoteTicker before now (usdtSymbol (escape m.symbol)) bid ask := by
  unfold parseOrderbookFast
  simp only [TickerParser.ticker_found_bind, TickerParser.ticker_modify_bind,
    TickerParser.ticker_guard, parseQuotedDoublePair_bids, parseQuotedDoublePair_asks,
    Option.bind_eq_some_iff, Option.map_eq_some_iff, topicSymbol_text]
  constructor
  · rintro ⟨known, ⟨hnamed, rfl⟩, _, ⟨bid, hbid, rfl⟩, _, ⟨ask, hask, rfl⟩, hticker⟩
    by_cases hpositive : 0 < (quote bid).1 ∧ 0 < (quote ask).1
    · rw [if_pos hpositive] at hticker
      exact ⟨hnamed, bid, ask, ⟨hbid, hask, hpositive⟩, (Option.some.inj hticker).symm⟩
    · rw [if_neg hpositive] at hticker
      exact absurd hticker (Option.some_ne_none _).symm
  · rintro ⟨hnamed, bid, ask, ⟨hbid, hask, hpositive⟩, rfl⟩
    refine ⟨_, ⟨hnamed, rfl⟩, _, ⟨bid, hbid, rfl⟩, _, ⟨ask, hask, rfl⟩, ?_⟩
    rw [if_pos hpositive]
    rfl

/-! ## The document -/

/-- The topic of the parsed message. -/
theorem field_topic (m : OrderbookMessage) :
    m.json.field "topic" = some (.string (topicName ++ m.topicSymbol)) := rfl

/-- Its data. -/
theorem field_data (m : OrderbookMessage) : m.json.field "data" = some m.dataJson := by
  unfold OrderbookMessage.json
  cases m.tsFirst <;> rfl

/-- Its bids. -/
theorem field_b (m : OrderbookMessage) :
    m.dataJson.field "b" = some (.array (m.bids.map BookRow.json)) := rfl

/-- Its asks. -/
theorem field_a (m : OrderbookMessage) :
    m.dataJson.field "a" = some (.array (m.asks.map BookRow.json)) := rfl

/-- A string as `get_c_str` hands it over: up to its first NUL. -/
def cString (text : List Char) : List Char := text.takeWhile (· ≠ '\x00')

/-- A text without a NUL is its own C string. -/
theorem cString_of_noNul {text : List Char} (h : '\x00' ∉ text) : cString text = text :=
  List.takeWhile_eq_self_iff.mpr fun _ hc => decide_eq_true fun heq => h (heq ▸ hc)

/-- A C string has no NUL in it. -/
theorem nul_not_mem_cString (text : List Char) : '\x00' ∉ cString text := by
  intro hmem
  have hne := List.mem_takeWhile_imp (p := fun c => decide (c ≠ '\x00')) hmem
  exact of_decide_eq_true hne rfl

/-- A number is its own C string. -/
theorem cString_numberText (n : NumberText) : cString n.chars = n.chars :=
  cString_of_noNul fun hmem => (n.plain '\x00' hmem).2.2 (by decide)

/-- As a value of the parsed message a number is its own C string too. -/
theorem cStr_numberText (n : NumberText) : Json.cStr (.string n.chars) = some n.chars :=
  congrArg some (cString_numberText n)

/-- The topic is that of an order book, whatever its symbol is. -/
theorem cString_topic (m : OrderbookMessage) :
    cString (topicName ++ m.topicSymbol) = topicName ++ cString m.topicSymbol :=
  List.takeWhile_append_of_pos (by decide)

/-- Of a message of a book the document is read as the book. -/
theorem readDocument_ticker (cached : SymbolId → Option Ticker) (now : UInt64)
    (m : OrderbookMessage) (before : Ticker) :
    (readDocument cached now m.json).ticker before =
      (readOrderbook cached m.dataJson).ticker
        { before with exchange := .bybit, timestamp := now } := by
  have htopic : (m.json.field "topic").bind Json.cStr =
      some (topicName ++ cString m.topicSymbol) := by
    rw [field_topic, ← cString_topic]
    rfl
  have htickers : (topicName ++ cString m.topicSymbol).take 8 ≠ "tickers.".toList := by
    rw [List.take_append_of_le_length (by decide)]
    decide
  have hname : (topicName ++ cString m.topicSymbol).take 12 = "orderbook.1.".toList := by
    rw [List.take_append_of_le_length (by decide)]
    decide
  rw [readDocument, TickerParser.ticker_found_bind, htopic, Option.bind_some,
    TickerParser.ticker_found_bind, field_data, Option.bind_some,
    TickerParser.ticker_modify_bind, if_neg htickers, TickerParser.ticker_guard_bind,
    if_pos hname]

/-- The slow path announces exactly the first quotes of both sides under the symbol's C string. -/
theorem tickerDom_ticker {parse : List Char → Option Json} {m : OrderbookMessage}
    (hparse : parse m.text = some m.json) (cached : SymbolId → Option Ticker) (now : UInt64)
    (before ticker : Ticker) :
    (parseTickerDom parse cached now m.text).ticker before = some ticker ↔
      4 < (cString m.symbol).length ∧ ∃ bid ask, BestQuotes m bid ask ∧
        ticker = withLast cached
          (quoteTicker before now (usdtSymbol (cString m.symbol)) bid ask) := by
  have hsymbol : (m.dataJson.field "s").bind Json.cStr = some (cString m.symbol) := rfl
  rw [parseTickerDom, TickerParser.ticker_found_bind, hparse, Option.bind_some,
    readDocument_ticker, readOrderbook]
  simp only [TickerParser.ticker_found_bind, Option.bind_some, TickerParser.ticker_modify_bind,
    TickerParser.ticker_guard_bind, hsymbol, field_b, field_a, Json.getArray, List.head?_map,
    TickerParser.ticker_get_bind, TickerParser.ticker_guard]
  by_cases hlong : 4 < (cString m.symbol).length
  · rw [if_pos hlong]
    cases hbid : m.bids.head? with
    | none => exact ⟨fun h => absurd h (by simp), fun ⟨_, _, _, hbest, _⟩ =>
        absurd hbest.1 (by rw [hbid]; simp)⟩
    | some bid =>
      cases hask : m.asks.head? with
      | none => exact ⟨fun h => absurd h (by simp), fun ⟨_, _, _, hbest, _⟩ =>
          absurd hbest.2.1 (by rw [hask]; simp)⟩
      | some ask =>
        have htwo : 2 ≤ 2 ∧ 2 ≤ 2 := by decide
        simp only [Option.map_some, Option.bind_some, BookRow.json, List.length_cons,
          List.length_nil, Nat.zero_add, Nat.reduceAdd, if_pos htwo, List.getElem?_cons_zero,
          List.getElem?_cons_succ, cStr_numberText]
        show (if 0 < (quote bid).1 ∧ 0 < (quote ask).1 then
          some (withLast cached (quoteTicker before now (usdtSymbol (cString m.symbol)) bid ask))
          else none) = some ticker ↔ _
        by_cases hpositive : 0 < (quote bid).1 ∧ 0 < (quote ask).1
        · rw [if_pos hpositive]
          constructor
          · exact fun h => ⟨hlong, bid, ask, ⟨hbid, hask, hpositive⟩, (Option.some.inj h).symm⟩
          · rintro ⟨-, bid', ask', ⟨hbid', hask', -⟩, rfl⟩
            rw [Option.some.inj (hbid.symm.trans hbid'), Option.some.inj (hask.symm.trans hask')]
        · rw [if_neg hpositive]
          refine ⟨fun h => absurd h (by simp), ?_⟩
          rintro ⟨-, bid', ask', ⟨hbid', hask', hpositive'⟩, -⟩
          rw [Option.some.inj (hbid.symm.trans hbid'), Option.some.inj (hask.symm.trans hask')]
            at hpositive
          exact absurd hpositive' hpositive
  · rw [if_neg hlong]
    exact ⟨fun h => absurd h (by simp), fun h => absurd h.1 hlong⟩

/-! ## Agreement -/

/-- What the message parser answers with: the scanner's ticker, or that of the document where the
scanner gives up. -/
theorem tickerMessage_ticker (parse : List Char → Option Json) (m : OrderbookMessage)
    (cached : SymbolId → Option Ticker) (now : UInt64) (before : Ticker) :
    ∃ between, (parseTickerMessage parse cached now m.text).ticker before =
      (((parseOrderbookFast now m.text).ticker before).map (withLast cached)).or
        ((parseTickerDom parse cached now m.text).ticker between) := by
  have htopic : (findAfter "\"topic\":\"orderbook.1.".toList m.text).isSome = true := by
    rw [findAfter_topic]
    rfl
  unfold parseTickerMessage
  rw [if_pos htopic, TickerParser.ticker_orElse, TickerParser.ticker_bind_modify]
  exact ⟨_, rfl⟩

/-- The symbols of the tickers that a message gives. -/
theorem tickerMessage_symbol {parse : List Char → Option Json} {m : OrderbookMessage}
    (hparse : parse m.text = some m.json) (cached : SymbolId → Option Ticker) (now : UInt64)
    (before : Ticker) (symbol : SymbolId) :
    (∃ ticker, (parseTickerMessage parse cached now m.text).ticker before = some ticker ∧
        ticker.symbol = symbol) ↔
      (∃ bid ask, BestQuotes m bid ask) ∧
        ((Named m ∧ symbol = usdtSymbol (escape m.symbol)) ∨
          (¬ Named m ∧ 4 < (cString m.symbol).length ∧
            symbol = usdtSymbol (cString m.symbol))) := by
  obtain ⟨between, hmessage⟩ := tickerMessage_ticker parse m cached now before
  rw [hmessage]
  cases hfast : (parseOrderbookFast now m.text).ticker before with
  | some fast =>
    obtain ⟨hnamed, bid, ask, hbest, rfl⟩ := (orderbookFast_ticker m now before fast).mp hfast
    rw [Option.map_some, Option.some_or]
    constructor
    · rintro ⟨_, hticker, rfl⟩
      rw [← Option.some.inj hticker]
      exact ⟨⟨bid, ask, hbest⟩, Or.inl ⟨hnamed, rfl⟩⟩
    · rintro ⟨-, ⟨-, rfl⟩ | ⟨hunnamed, -⟩⟩
      · exact ⟨_, rfl, rfl⟩
      · exact absurd hnamed hunnamed
  | none =>
    have hunnamed : ∀ bid ask, BestQuotes m bid ask → ¬ Named m := by
      intro bid ask hbest hnamed
      rw [(orderbookFast_ticker m now before _).mpr ⟨hnamed, bid, ask, hbest, rfl⟩] at hfast
      exact absurd hfast (by simp)
    rw [Option.map_none, Option.none_or]
    constructor
    · rintro ⟨ticker, hticker, rfl⟩
      obtain ⟨hlong, bid, ask, hbest, rfl⟩ :=
        (tickerDom_ticker hparse cached now between ticker).mp hticker
      exact ⟨⟨bid, ask, hbest⟩, Or.inr ⟨hunnamed bid ask hbest, hlong, rfl⟩⟩
    · rintro ⟨⟨bid, ask, hbest⟩, ⟨hnamed, -⟩ | ⟨-, hlong, rfl⟩⟩
      · exact absurd hnamed (hunnamed bid ask hbest)
      · exact ⟨_, (tickerDom_ticker hparse cached now between _).mpr
          ⟨hlong, bid, ask, hbest, rfl⟩, rfl⟩

/-- What is asked of the two paths: where the scanner reads a ticker, the document path reads the
same symbol and quotes, and no ticker is of another symbol than the message. -/
def TickersAgree (parse : List Char → Option Json) (cached : SymbolId → Option Ticker)
    (now : UInt64) (before : Ticker) (m : OrderbookMessage) : Prop :=
  (∀ fast, (parseOrderbookFast now m.text).ticker before = some fast →
    ∃ dom, (parseTickerDom parse cached now m.text).ticker before = some dom ∧
      dom.symbol = fast.symbol ∧ dom.bid = fast.bid ∧ dom.bidQty = fast.bidQty ∧
        dom.ask = fast.ask ∧ dom.askQty = fast.askQty) ∧
  ∀ ticker, (parseTickerMessage parse cached now m.text).ticker before = some ticker →
    ∀ base, ticker.symbol.base = base ∧ ticker.symbol.quote = "USDT".toList →
      m.symbol = base ++ "USDT".toList

/-- A symbol in USDT that the code keeps as it is: it has room in a `SymbolId`, and where the
scanner takes it from the text, the text shows it unescaped. -/
def SymbolKept (m : OrderbookMessage) : Prop :=
  ∃ base, m.symbol = base ++ "USDT".toList ∧ base.length ≤ 11 ∧ '\x00' ∉ base ∧
    (m.topicSymbol = m.symbol → '"' ∉ base → (escape base).take 11 = base)

/-- The quote coin of a symbol that is read is USDT. -/
theorem usdtSymbol_quote (symbol : List Char) :
    (usdtSymbol symbol).quote = "USDT".toList := by
  show "USDT".toList.take 7 = "USDT".toList
  decide

/-- A symbol that ends in USDT is split before it. -/
theorem usdtSymbol_append (base : List Char) :
    usdtSymbol (base ++ "USDT".toList) = .ofChars base "USDT".toList := by
  have hlength : (base ++ "USDT".toList).length - 4 = base.length := by
    rw [List.length_append]
    exact Nat.add_sub_cancel base.length 4
  rw [usdtSymbol, hlength, List.take_left]

/-- The escaped symbol is split at the same place. -/
theorem usdtSymbol_escape_append (base : List Char) :
    usdtSymbol (escape (base ++ "USDT".toList)) = .ofChars (escape base) "USDT".toList := by
  have husdt : escape "USDT".toList = "USDT".toList := escape_of_plain (by decide)
  rw [escape_append, husdt, usdtSymbol_append]

/-- A symbol without a NUL is its own C string. -/
theorem cString_usdt {base : List Char} (h : '\x00' ∉ base) :
    cString (base ++ "USDT".toList) = base ++ "USDT".toList := by
  refine cString_of_noNul fun hmem => ?_
  rcases List.mem_append.mp hmem with hbase | husdt
  · exact h hbase
  · exact absurd husdt (by decide)

/-- Where the tickers of a message are of its symbol, the symbol is kept. -/
theorem symbolKept_of_agree {parse : List Char → Option Json} {m : OrderbookMessage}
    (hparse : parse m.text = some m.json) (cached : SymbolId → Option Ticker) (now : UInt64)
    (before : Ticker) (hagree : TickersAgree parse cached now before m)
    (hquotes : ∃ bid ask, BestQuotes m bid ask)
    (hread : Named m ∨ 4 < (cString m.symbol).length) : SymbolKept m := by
  have hsymbol : ∀ symbol, ((Named m ∧ symbol = usdtSymbol (escape m.symbol)) ∨
      (¬ Named m ∧ 4 < (cString m.symbol).length ∧ symbol = usdtSymbol (cString m.symbol))) →
      symbol.quote = "USDT".toList → m.symbol = symbol.base ++ "USDT".toList := by
    intro symbol hcase hquote
    obtain ⟨ticker, hticker, rfl⟩ :=
      (tickerMessage_symbol hparse cached now before symbol).mpr ⟨hquotes, hcase⟩
    exact hagree.2 ticker hticker _ ⟨rfl, hquote⟩
  by_cases hnamed : Named m
  · have hbase := hsymbol _ (Or.inl ⟨hnamed, rfl⟩) (usdtSymbol_quote _)
    obtain ⟨base, heq⟩ := hnamed.2.2.2
    have hkept : base = (escape base).take 11 := by
      rw [← heq, usdtSymbol_escape_append] at hbase
      exact List.append_cancel_right hbase
    refine ⟨base, heq.symm, ?_, ?_, fun _ _ => hkept.symm⟩
    · rw [hkept]
      exact List.length_take_le 11 _
    · rw [hkept]
      exact fun hmem => not_control_of_mem_escape (List.mem_of_mem_take hmem) (by decide)
  · have hlong := hread.resolve_left hnamed
    have hbase := hsymbol _ (Or.inr ⟨hnamed, hlong, rfl⟩) (usdtSymbol_quote _)
    refine ⟨_, hbase, (usdtSymbol (cString m.symbol)).base_length_le, ?_, ?_⟩
    · exact fun hmem => nul_not_mem_cString m.symbol
        (List.mem_of_mem_take (List.mem_of_mem_take hmem))
    · -- the scanner has given up on a symbol of its kind, so nothing is before its end
      intro htopic hquote
      revert hbase hquote
      generalize (usdtSymbol (cString m.symbol)).base = base
      intro hbase hquote
      cases base with
      | nil => rfl
      | cons c base =>
        refine absurd ⟨htopic, ?_, ?_, ⟨_, hbase.symm⟩⟩ hnamed
        · rw [hbase]
          exact fun hmem => (List.mem_append.mp hmem).elim hquote (by decide)
        · rw [hbase, List.length_append]
          show 4 < (base.length + 1) + 4
          omega

/-- Where the symbol is kept, both paths read the same ticker, of the message's symbol. -/
theorem agree_of_symbolKept {parse : List Char → Option Json} {m : OrderbookMessage}
    (hparse : parse m.text = some m.json) (cached : SymbolId → Option Ticker) (now : UInt64)
    (before : Ticker)
    (hkept : (∃ bid ask, BestQuotes m bid ask) → Named m ∨ 4 < (cString m.symbol).length →
      SymbolKept m) : TickersAgree parse cached now before m := by
  constructor
  · intro fast hfast
    obtain ⟨hnamed, bid, ask, hbest, rfl⟩ := (orderbookFast_ticker m now before fast).mp hfast
    obtain ⟨base, hbase, hlength, hnul, hescape⟩ := hkept ⟨bid, ask, hbest⟩ (Or.inl hnamed)
    have hwhole : cString m.symbol = m.symbol := by rw [hbase, cString_usdt hnul]
    have hsame : usdtSymbol (cString m.symbol) = usdtSymbol (escape m.symbol) := by
      have hquote : '"' ∉ base := fun hmem =>
        hnamed.2.1 (by rw [hbase]; exact List.mem_append_left _ hmem)
      have htake : base.take 11 = (escape base).take 11 := by
        rw [hescape hnamed.1 hquote, List.take_of_length_le hlength]
      rw [hwhole, hbase, usdtSymbol_append, usdtSymbol_escape_append]
      simp only [SymbolId.ofChars, htake]
    refine ⟨_, (tickerDom_ticker hparse cached now before _).mpr
      ⟨by rw [hwhole]; exact hnamed.2.2.1, bid, ask, hbest, rfl⟩, hsame, rfl, rfl, rfl, rfl⟩
  · rintro ticker hticker _ ⟨rfl, -⟩
    obtain ⟨hquotes, hcase⟩ :=
      (tickerMessage_symbol hparse cached now before _).mp ⟨ticker, hticker, rfl⟩
    obtain ⟨base, hbase, hlength, hnul, hescape⟩ := hkept hquotes (by
      rcases hcase with ⟨hnamed, -⟩ | ⟨-, hlong, -⟩
      · exact Or.inl hnamed
      · exact Or.inr hlong)
    rcases hcase with ⟨hnamed, hsymbol⟩ | ⟨-, -, hsymbol⟩
    · have hquote : '"' ∉ base := fun hmem =>
        hnamed.2.1 (by rw [hbase]; exact List.mem_append_left _ hmem)
      rw [hsymbol, hbase, usdtSymbol_escape_append]
      show base ++ _ = (escape base).take 11 ++ _
      rw [hescape hnamed.1 hquote]
    · rw [hsymbol, hbase, cString_usdt hnul, usdtSymbol_append]
      show base ++ _ = base.take 11 ++ _
      rw [List.take_of_length_le hlength]

/-- The tickers of a message agree exactly where the message gives none or its symbol is kept. -/
theorem tickersAgree_iff {parse : List Char → Option Json} {m : OrderbookMessage}
    (hparse : parse m.text = some m.json) (cached : SymbolId → Option Ticker) (now : UInt64)
    (before : Ticker) :
    TickersAgree parse cached now before m ↔
      ((∃ bid ask, BestQuotes m bid ask) → Named m ∨ 4 < (cString m.symbol).length →
        SymbolKept m) :=
  ⟨symbolKept_of_agree hparse cached now before, agree_of_symbolKept hparse cached now before⟩

/-- A snapshot of one bid and one ask. -/
def snapshotOf (symbol : String) : OrderbookMessage where
  topicSymbol := symbol.toList
  type := "snapshot".toList
  ts := 1773342407942
  tsFirst := true
  symbol := symbol.toList
  bids := [⟨⟨"69904.3".toList, by decide⟩, ⟨"0.347143".toList, by decide⟩⟩]
  asks := [⟨⟨"69904.4".toList, by decide⟩, ⟨"0.390684".toList, by decide⟩⟩]
  u := 141506058
  seq := 101969058574
  cts := some 1773342407934

/-- Simdjson on one message. -/
def parseOnly (m : OrderbookMessage) (text : List Char) : Option Json :=
  if text = m.text then some m.json else none

/-- The example's message has quotes on both sides. -/
theorem snapshotOf_quotes (symbol : String) : ∃ bid ask, BestQuotes (snapshotOf symbol) bid ask :=
  ⟨_, _, rfl, rfl, by decide +kernel⟩

/-- The two paths agree on a message for BTCUSDT. -/
theorem tickersAgree_iff_usdt :
    TickersAgree (parseOnly (snapshotOf "BTCUSDT")) (fun _ => none) 0
      { exchange := .bybit, symbol := .of "" "" } (snapshotOf "BTCUSDT") :=
  (tickersAgree_iff (if_pos rfl) _ _ _).mpr fun _ _ =>
    ⟨"BTC".toList, by decide, by decide, by decide, fun _ _ => by decide⟩

/-- The document path takes the last four characters of any symbol for `USDT`. -/
theorem tickersAgree_usdc :
    ¬ TickersAgree (parseOnly (snapshotOf "BTCUSDC")) (fun _ => none) 0
      { exchange := .bybit, symbol := .of "" "" } (snapshotOf "BTCUSDC") := by
  intro hagree
  obtain ⟨base, hbase, -⟩ := symbolKept_of_agree (if_pos rfl) _ _ _ hagree
    (snapshotOf_quotes "BTCUSDC") (Or.inr (by decide))
  have hsuffix : "USDT".toList <:+ "BTCUSDC".toList := ⟨base, hbase.symm⟩
  exact absurd hsuffix (by decide)

end SpotRelay.Analysis
