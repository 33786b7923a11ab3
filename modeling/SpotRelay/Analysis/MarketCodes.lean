import SpotRelay.Model.SymbolFormats
import SpotRelay.Model.UpbitOrders

/-!
# Market codes and symbols

A market code stands for its symbol as far as the arrays of the symbol reach: eleven characters of
the base and seven of the quote.  What is longer is cut, without a sign of it.

* **both formats** are read as the symbol of their parts (`fromBithumbFormat_code`,
  `fromUpbitFormat_code`).
* **one symbol** stands for all markets that agree up to the cut (`symbol_eq_iff`), so markets that
  fit are told apart (`MarketParts.eq_code_of_sameCut`).
* **the other modules** see the symbol without its padding (`toSymbolId_fromBithumbFormat`).
-/

set_option autoImplicit false

namespace SpotRelay.Analysis

open SpotRelay.Model SpotRelay.Library

/-- The parts of a market code, without a NUL and without its separator. -/
structure MarketParts (separator : Char) where
  base : List Char
  quote : List Char
  base_noNul : '\x00' ∉ base
  quote_noNul : '\x00' ∉ quote
  base_noSeparator : separator ∉ base
  quote_noSeparator : separator ∉ quote

namespace MarketParts

/-- `BASE_QUOTE`. -/
def bithumbCode (m : MarketParts '_') : List Char := m.base ++ '_' :: m.quote

/-- `QUOTE-BASE`. -/
def upbitCode (m : MarketParts '-') : List Char := m.quote ++ '-' :: m.base

variable {separator : Char}

/-- There is room for the parts. -/
def Fits (m : MarketParts separator) : Prop := m.base.length ≤ 11 ∧ m.quote.length ≤ 7

/-- The parts agree as far as there is room. -/
def SameCut {separator' : Char} (m : MarketParts separator) (m' : MarketParts separator') : Prop :=
  m.base.take 11 = m'.base.take 11 ∧ m.quote.take 7 = m'.quote.take 7

/-- The symbol with these parts. -/
def symbol (m : MarketParts separator) : SymbolArrays := ⟨.copy 11 m.base, .copy 7 m.quote⟩

/-- Two markets get one symbol exactly where they agree up to the cut. -/
theorem symbol_eq_iff {separator' : Char} (m : MarketParts separator)
    (m' : MarketParts separator') : m.symbol = m'.symbol ↔ m.SameCut m' := by
  rw [symbol, symbol, SymbolArrays.mk.injEq, CharArray.copy_eq_iff m.base_noNul m'.base_noNul,
    CharArray.copy_eq_iff m.quote_noNul m'.quote_noNul]
  rfl

/-- The symbol keeps eleven characters of the base. -/
theorem getBase_symbol (m : MarketParts separator) : m.symbol.getBase = m.base.take 11 :=
  CharArray.text_copy m.base_noNul

/-- The symbol keeps seven characters of the quote. -/
theorem getQuote_symbol (m : MarketParts separator) : m.symbol.getQuote = m.quote.take 7 :=
  CharArray.text_copy m.quote_noNul

/-- Bithumb's code for a market is read as its symbol. -/
theorem fromBithumbFormat_code (m : MarketParts '_') :
    SymbolArrays.fromBithumbFormat m.bithumbCode = m.symbol := by
  unfold SymbolArrays.fromBithumbFormat bithumbCode
  rw [splitAtFirst_append m.base_noSeparator]
  rfl

/-- Upbit's code for a market is read as its symbol. -/
theorem fromUpbitFormat_code (m : MarketParts '-') :
    SymbolArrays.fromUpbitFormat m.upbitCode = m.symbol := by
  unfold SymbolArrays.fromUpbitFormat upbitCode
  rw [splitAtFirst_append m.quote_noSeparator]
  rfl

/-- Parts that are cut differ from themselves. -/
theorem take_append_eq_iff {a b : List Char} {c : Char} {i j : ℕ} :
    a.take i ++ c :: b.take j = a ++ c :: b ↔ a.length ≤ i ∧ b.length ≤ j := by
  constructor
  · intro heq
    have hlength := congrArg List.length heq
    simp only [List.length_append, List.length_cons, List.length_take] at hlength
    omega
  · rintro ⟨ha, hb⟩
    rw [List.take_of_length_le ha, List.take_of_length_le hb]

end MarketParts

/-- What a format makes of the codes of its markets. -/
structure IdentifiesUpToCut {separator : Char} (code : MarketParts separator → List Char)
    (cutCode : MarketParts separator → List Char) (fromFormat : List Char → SymbolArrays)
    (toFormat : SymbolArrays → List Char) : Prop where
  same_iff : ∀ m m', fromFormat (code m) = fromFormat (code m') ↔ m.SameCut m'
  printed : ∀ m, toFormat (fromFormat (code m)) = cutCode m
  read_back_iff : ∀ m, toFormat (fromFormat (code m)) = code m ↔ m.Fits
  distinct : ∀ m m', m.Fits → m'.Fits → code m ≠ code m' →
    fromFormat (code m) ≠ fromFormat (code m')

/-- Markets that fit the arrays and agree up to the cut are the same. -/
theorem MarketParts.eq_code_of_sameCut {separator : Char} {m m' : MarketParts separator}
    (hm : m.Fits) (hm' : m'.Fits) (h : m.SameCut m') : m.base = m'.base ∧ m.quote = m'.quote := by
  obtain ⟨hbase, hquote⟩ := h
  rw [List.take_of_length_le hm.1, List.take_of_length_le hm'.1] at hbase
  rw [List.take_of_length_le hm.2, List.take_of_length_le hm'.2] at hquote
  exact ⟨hbase, hquote⟩

/-- Two markets have the same symbol exactly if their bases agree in the first eleven characters
and their quotes in the first seven, a code is given back exactly if it is no longer than that, and
both venues' codes of the same parts have the same symbol. -/
theorem marketCodes_identify_up_to_cut :
    IdentifiesUpToCut MarketParts.bithumbCode (fun m => m.base.take 11 ++ '_' :: m.quote.take 7)
      SymbolArrays.fromBithumbFormat SymbolArrays.toBithumbFormat ∧
    IdentifiesUpToCut MarketParts.upbitCode (fun m => m.quote.take 7 ++ '-' :: m.base.take 11)
      SymbolArrays.fromUpbitFormat SymbolArrays.toUpbitFormat ∧
    ∀ (m : MarketParts '_') (m' : MarketParts '-'), m.base = m'.base → m.quote = m'.quote →
      SymbolArrays.fromBithumbFormat m.bithumbCode =
        SymbolArrays.fromUpbitFormat m'.upbitCode := by
  refine ⟨⟨?_, ?_, ?_, ?_⟩, ⟨?_, ?_, ?_, ?_⟩, ?_⟩
  · intro m m'
    rw [m.fromBithumbFormat_code, m'.fromBithumbFormat_code, m.symbol_eq_iff]
  · intro m
    rw [m.fromBithumbFormat_code, SymbolArrays.toBithumbFormat, m.getBase_symbol,
      m.getQuote_symbol]
  · intro m
    rw [m.fromBithumbFormat_code, SymbolArrays.toBithumbFormat, m.getBase_symbol,
      m.getQuote_symbol, MarketParts.bithumbCode, MarketParts.take_append_eq_iff]
    rfl
  · intro m m' hm hm' hne heq
    rw [m.fromBithumbFormat_code, m'.fromBithumbFormat_code, m.symbol_eq_iff] at heq
    obtain ⟨hbase, hquote⟩ := MarketParts.eq_code_of_sameCut hm hm' heq
    exact hne (by rw [MarketParts.bithumbCode, MarketParts.bithumbCode, hbase, hquote])
  · intro m m'
    rw [m.fromUpbitFormat_code, m'.fromUpbitFormat_code, m.symbol_eq_iff]
  · intro m
    rw [m.fromUpbitFormat_code, SymbolArrays.toUpbitFormat, m.getBase_symbol, m.getQuote_symbol]
  · intro m
    rw [m.fromUpbitFormat_code, SymbolArrays.toUpbitFormat, m.getBase_symbol, m.getQuote_symbol,
      MarketParts.upbitCode, MarketParts.take_append_eq_iff, and_comm]
    rfl
  · intro m m' hm hm' hne heq
    rw [m.fromUpbitFormat_code, m'.fromUpbitFormat_code, m.symbol_eq_iff] at heq
    obtain ⟨hbase, hquote⟩ := MarketParts.eq_code_of_sameCut hm hm' heq
    exact hne (by rw [MarketParts.upbitCode, MarketParts.upbitCode, hbase, hquote])
  · intro m m' hbase hquote
    rw [m.fromBithumbFormat_code, m'.fromUpbitFormat_code, m.symbol_eq_iff]
    exact ⟨by rw [hbase], by rw [hquote]⟩

/-- Two markets whose bases differ in the twelfth character. -/
theorem longBases_share_a_symbol :
    SymbolArrays.fromBithumbFormat "ABCDEFGHIJKL_KRW".toList =
        SymbolArrays.fromBithumbFormat "ABCDEFGHIJKM_KRW".toList ∧
      (SymbolArrays.fromBithumbFormat "ABCDEFGHIJKL_KRW".toList).toBithumbFormat =
        "ABCDEFGHIJK_KRW".toList ∧
      "ABCDEFGHIJKL_KRW".toList ≠ "ABCDEFGHIJKM_KRW".toList := by
  decide

/-! ## The symbols of the other modules -/

/-- Without its padding a symbol is what the rest of the program is modelled with. -/
theorem toSymbolId_fromBithumbFormat {sv : List Char} (h : '\x00' ∉ sv) :
    (SymbolArrays.fromBithumbFormat sv).toSymbolId = .fromBithumbFormat sv := by
  unfold SymbolArrays.fromBithumbFormat SymbolId.fromBithumbFormat splitAtFirst
  have hsplit : ∀ part, part <:+: sv → '\x00' ∉ part := fun part hpart hmem =>
    h (hpart.subset hmem)
  have hrest : sv.dropWhile (· ≠ '_') <:+: sv := (List.dropWhile_suffix _).isInfix
  have hfront : sv.takeWhile (· ≠ '_') <:+: sv := (List.takeWhile_prefix _).isInfix
  cases hdrop : sv.dropWhile (· ≠ '_') with
  | nil => rfl
  | cons c quote =>
    rw [hdrop] at hrest
    have hquote : '\x00' ∉ quote := fun hmem => hsplit _ hrest (List.mem_cons_of_mem c hmem)
    have hbase : '\x00' ∉ sv.takeWhile (· ≠ '_') := hsplit _ hfront
    show SymbolId.mk _ _ _ _ = SymbolId.mk _ _ _ _
    congr 1
    · exact CharArray.text_copy hbase
    · exact CharArray.text_copy hquote

end SpotRelay.Analysis
