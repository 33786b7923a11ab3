import SpotRelay.Model.UpbitOrders

/-!
# What the amounts of the Upbit orders denote

The number formatter trims trailing zeros whether or not a decimal point stands before them.
A fraction keeps its value; a whole number, as the cost of a market buy is one, loses a factor of
ten with every zero.

* **with decimals** the text that is printed is read back as the rounded value
  (`fastStod_formatUpbitNumber`).
* **without decimals** it is read back exactly if the rounded value is nothing or does not end in a
  zero (`formatUpbitNumber_denotes_iff`), and the cost of a buy, which is rounded down first,
  accordingly (`buyCost_denotes_iff`).
-/

set_option autoImplicit false

namespace SpotRelay.Analysis

open SpotRelay.Model SpotRelay.Library.DecimalText

/-! ## Reading a number back -/

/-- Reading digits is the standard library's reading in base ten. -/
theorem decimalDigits_eq (digits : List Char) :
    decimalDigits digits = Nat.ofDigitChars 10 digits 0 := rfl

/-- Digits are read up to what follows them. -/
theorem takeWhile_isDigit {digits rest : List Char} (hdigits : ∀ c ∈ digits, c.isDigit = true)
    (hrest : ∀ c, rest.head? = some c → c.isDigit = false) :
    (digits ++ rest).takeWhile Char.isDigit = digits ∧
      (digits ++ rest).dropWhile Char.isDigit = rest := by
  have hstop : rest.takeWhile Char.isDigit = [] ∧ rest.dropWhile Char.isDigit = rest := by
    cases rest with
    | nil => exact ⟨rfl, rfl⟩
    | cons c rest =>
      have hc : c.isDigit = false := hrest c rfl
      simp [hc]
  constructor
  · rw [List.takeWhile_append_of_pos hdigits, hstop.1, List.append_nil]
  · rw [List.dropWhile_append_of_pos hdigits, hstop.2]

/-- A number without a sign is read as it stands. -/
theorem fastStod_of_isDigit {c : Char} {rest : List Char} (hc : c.isDigit = true) :
    fastStod (c :: rest) = unsignedDecimal (c :: rest) := by
  unfold fastStod
  split
  · next heq =>
    rw [(List.cons.inj heq).1] at hc
    cases hc
  · rfl

/-- A whole number reads back as its digits. -/
theorem fastStod_digits {digits : List Char} (hdigits : ∀ c ∈ digits, c.isDigit = true)
    (hne : digits ≠ []) : fastStod digits = Nat.ofDigitChars 10 digits 0 := by
  obtain ⟨htake, hdrop⟩ := @takeWhile_isDigit digits [] hdigits (by simp)
  rw [List.append_nil] at htake hdrop
  obtain ⟨c, rest, rfl⟩ := List.exists_cons_of_ne_nil hne
  rw [fastStod_of_isDigit (hdigits c List.mem_cons_self), unsignedDecimal, htake, hdrop]
  simp [decimalDigits_eq, decimalExponent]

/-- A number with a point reads back as its whole part and its fraction. -/
theorem fastStod_fraction {whole fraction : List Char} (hwhole : ∀ c ∈ whole, c.isDigit = true)
    (hne : whole ≠ []) (hfraction : ∀ c ∈ fraction, c.isDigit = true) :
    fastStod (whole ++ '.' :: fraction) = Nat.ofDigitChars 10 whole 0 +
      (Nat.ofDigitChars 10 fraction 0 : ℚ) / 10 ^ fraction.length := by
  have hpoint : ∀ c, ('.' :: fraction).head? = some c → c.isDigit = false := by
    intro c hc
    rw [← Option.some.inj hc]
    decide
  obtain ⟨htake, hdrop⟩ := takeWhile_isDigit hwhole hpoint
  obtain ⟨hfrac, hend⟩ := @takeWhile_isDigit fraction [] hfraction (by simp)
  rw [List.append_nil] at hfrac hend
  have hread : fastStod (whole ++ '.' :: fraction) =
      unsignedDecimal (whole ++ '.' :: fraction) := by
    obtain ⟨c, rest, rfl⟩ := List.exists_cons_of_ne_nil hne
    exact fastStod_of_isDigit (hwhole c List.mem_cons_self)
  rw [hread, unsignedDecimal, htake, hdrop]
  simp only [hfrac, hend, List.append_eq_nil_iff, hne, false_and, if_false, decimalDigits_eq,
    decimalExponent, zero_sub, zpow_neg, zpow_natCast, Nat.ofDigitChars_append]
  rw [Nat.ofDigitChars_eq_ofDigitChars_zero]
  push_cast
  field_simp

/-- A point at the end is dropped without a change of the value. -/
theorem fastStod_dropPoint {whole fraction : List Char} (hwhole : ∀ c ∈ whole, c.isDigit = true)
    (hne : whole ≠ []) (hfraction : ∀ c ∈ fraction, c.isDigit = true) :
    let text := whole ++ '.' :: fraction
    let out := if text.getLast? = some '.' then text.dropLast else text
    out ≠ [] ∧ fastStod out = fastStod text := by
  intro text out
  cases fraction using List.reverseRecOn with
  | nil =>
    have hpoint : text.getLast? = some '.' := by simp [text]
    have hout : out = whole := by simp [out, hpoint, text]
    rw [hout, fastStod_digits hwhole hne, fastStod_fraction hwhole hne hfraction]
    exact ⟨hne, by simp⟩
  | append_singleton fraction last =>
    have hlast : last.isDigit = true := hfraction last (by simp)
    have hkept : text.getLast? ≠ some '.' := by
      intro hpoint
      have hsplit : text = (whole ++ '.' :: fraction) ++ [last] := by simp [text]
      rw [hsplit, List.getLast?_concat] at hpoint
      rw [Option.some.inj hpoint] at hlast
      cases hlast
    have hout : out = text := if_neg hkept
    rw [hout]
    exact ⟨by simp [text], rfl⟩

/-- A number printed with fixed decimals reads back rounded. -/
theorem fastStod_fixedText {places : ℕ} (hplaces : 0 < places) (value : ℚ) :
    fastStod (fixedText places value) = roundPlaces places value := by
  rw [fixedText, if_neg hplaces.ne', fastStod_fraction isDigit_of_mem_toDigits
    Nat.toDigits_ne_nil fun _ hc => isDigit_of_mem_lastDigits hc,
    Nat.ofDigitChars_ten_toDigits, length_lastDigits]
  exact (roundPlaces_eq_digits places value).symm

/-! ## The formatter -/

/-- A nonnegative number of one decimal at least is printed with a fraction, which is trimmed. -/
theorem fastStod_formatUpbitNumber {value : ℚ} (hvalue : 0 ≤ value) {precision : ℕ}
    (hprecision : 0 < precision) :
    fastStod (formatUpbitNumber value precision) = roundPlaces precision value := by
  have hprinted : trimZeros ((if value < 0 then ['-'] else []) ++ fixedText precision |value|) =
      Nat.toDigits 10 (roundHalfEven (value * 10 ^ precision) / 10 ^ precision) ++
        '.' :: trimZeros (lastDigits precision (roundHalfEven (value * 10 ^ precision))) := by
    rw [if_neg (not_lt.mpr hvalue), abs_of_nonneg hvalue, List.nil_append]
    exact trimZeros_fixedText hprecision.ne' value
  have hfraction := isDigit_of_mem_trimZeros fun c (hc : c ∈ lastDigits precision
    (roundHalfEven (value * 10 ^ precision))) => isDigit_of_mem_lastDigits hc
  obtain ⟨hsome, hread⟩ :=
    fastStod_dropPoint isDigit_of_mem_toDigits Nat.toDigits_ne_nil hfraction
  rw [formatUpbitNumber, hprinted]
  rw [if_neg hsome, hread, fastStod_fraction isDigit_of_mem_toDigits Nat.toDigits_ne_nil hfraction,
    fraction_trimZeros, length_lastDigits, Nat.ofDigitChars_ten_toDigits]
  exact (roundPlaces_eq_digits precision value).symm

/-- A number without decimals is printed without a point, and keeps its value exactly when no zero
at its end is trimmed. -/
theorem fastStod_formatUpbitNumber_zero {value : ℚ} (hvalue : 0 ≤ value) :
    fastStod (formatUpbitNumber value 0) = roundHalfEven value ↔
      roundHalfEven value = 0 ∨ ¬ 10 ∣ roundHalfEven value := by
  obtain ⟨units, hunits⟩ : ∃ units, units = roundHalfEven value := ⟨_, rfl⟩
  obtain ⟨digits, hdigits⟩ : ∃ digits, digits = trimZeros (Nat.toDigits 10 units) := ⟨_, rfl⟩
  have hprinted :
      trimZeros ((if value < 0 then ['-'] else []) ++ fixedText 0 |value|) = digits := by
    rw [if_neg (not_lt.mpr hvalue), abs_of_nonneg hvalue, hdigits, hunits]
    simp [fixedText]
  have hdigitsAre : ∀ c ∈ digits, c.isDigit = true := by
    rw [hdigits]
    exact isDigit_of_mem_trimZeros isDigit_of_mem_toDigits
  have hpoint : digits.getLast? ≠ some '.' := by
    intro hlast
    cases hdigitsAre '.' (List.mem_of_getLast? hlast)
  rw [formatUpbitNumber, hprinted, if_neg hpoint, ← hunits]
  rcases eq_or_ne units 0 with hzero | hpositive
  · have hnone : digits = [] := by
      rw [hdigits, hzero]
      decide
    rw [if_pos hnone, hzero]
    refine iff_of_true ?_ (Or.inl rfl)
    decide +kernel
  · have hsome : digits ≠ [] := by
      intro hnone
      obtain ⟨count, hcount⟩ := exists_trimmed (Nat.toDigits 10 units)
      have hvalue := ofDigitChars_trimZeros hcount
      rw [Nat.ofDigitChars_ten_toDigits, ← hdigits, hnone] at hvalue
      simp [hpositive] at hvalue
    rw [if_neg hsome, fastStod_digits hdigitsAre hsome, Nat.cast_inj, hdigits,
      ofDigitChars_trimZeros_iff hpositive]
    simp [hpositive]

/-! ## The amounts of an order -/

/-- Rounding to no places is rounding to an integer. -/
theorem roundPlaces_zero (value : ℚ) : roundPlaces 0 value = roundHalfEven value := by
  simp [roundPlaces]

/-- Reading a formatted amount back gives the amount, rounded, exactly when decimals were asked for
or no zero ends the whole number. -/
theorem formatUpbitNumber_denotes_iff {value : ℚ} (hvalue : 0 ≤ value) (precision : ℕ) :
    fastStod (formatUpbitNumber value precision) = roundPlaces precision value ↔
      0 < precision ∨ roundHalfEven value = 0 ∨ ¬ 10 ∣ roundHalfEven value := by
  cases precision with
  | zero =>
    rw [roundPlaces_zero, fastStod_formatUpbitNumber_zero hvalue]
    simp
  | succ precision =>
    exact iff_of_true (fastStod_formatUpbitNumber hvalue precision.succ_pos)
      (Or.inl precision.succ_pos)

/-- The cost of a buy is a whole number and printed without decimals. -/
theorem buyCost_denotes_iff {cost : ℚ} (hcost : TradingConfig.minOrderKrw ≤ cost) :
    fastStod (formatUpbitNumber ⌊cost⌋ 0) = ⌊cost⌋ ↔ ¬ (10 : ℤ) ∣ ⌊cost⌋ := by
  have hpositive : 0 < ⌊cost⌋ := by
    refine Int.floor_pos.mpr (le_trans ?_ hcost)
    norm_num [TradingConfig.minOrderKrw]
  obtain ⟨units, hunits⟩ := Int.eq_ofNat_of_zero_le hpositive.le
  rw [hunits] at hpositive ⊢
  have hround : roundHalfEven ((units : ℤ) : ℚ) = units := by
    rw [Int.cast_natCast, roundHalfEven_natCast]
  have hnonneg : (0 : ℚ) ≤ ((units : ℤ) : ℚ) := by positivity
  have hread := fastStod_formatUpbitNumber_zero hnonneg
  rw [hround] at hread
  rw [Int.cast_natCast] at hread ⊢
  rw [hread]
  omega

/-- Upbit's three texts against their numbers: the printed price loses a round amount's zeros where
no places are printed, and a sale's volume never does. -/
theorem upbit_amounts_iff (symbol : SymbolId) (value cost quantity : ℚ) (precision : ℕ) :
    (0 ≤ value →
      (fastStod (formatUpbitNumber value precision) = roundPlaces precision value ↔
        0 < precision ∨ roundHalfEven value = 0 ∨ ¬ 10 ∣ roundHalfEven value)) ∧
    (TradingConfig.minOrderKrw ≤ cost →
      ∃ price, upbitMarketBuyCost true symbol cost = some (marketBuyCostTexts symbol price) ∧
        (fastStod price = ⌊cost⌋ ↔ ¬ (10 : ℤ) ∣ ⌊cost⌋)) ∧
    (0 < quantity →
      ∃ volume, upbitMarketSell true symbol quantity = some (marketSellTexts symbol volume) ∧
        fastStod volume = roundPlaces 16 quantity) := by
  refine ⟨fun hvalue => formatUpbitNumber_denotes_iff hvalue precision, ?_, ?_⟩
  · intro hcost
    have hwhole : (5000 : ℤ) ≤ ⌊cost⌋ := by
      refine Int.le_floor.mpr ?_
      norm_num [TradingConfig.minOrderKrw] at hcost ⊢
      exact hcost
    have hfloor : TradingConfig.minOrderKrw ≤ (⌊cost⌋ : ℚ) := by
      have hwhole' : (5000 : ℚ) ≤ ⌊cost⌋ := by exact_mod_cast hwhole
      norm_num [TradingConfig.minOrderKrw]
      exact hwhole'
    refine ⟨_, ?_, buyCost_denotes_iff hcost⟩
    unfold upbitMarketBuyCost
    simp [not_lt.mpr hfloor]
  · intro hquantity
    refine ⟨_, ?_, fastStod_formatUpbitNumber hquantity.le (by norm_num)⟩
    unfold upbitMarketSell
    simp [not_le.mpr hquantity]

/-- 0.5 with two decimals, a buy for 34567.8 KRW and a sale of 1.25 coins. -/
theorem upbit_amounts_read_back :
    fastStod (formatUpbitNumber (1 / 2) 2) = roundPlaces 2 (1 / 2 : ℚ) ∧
      (∃ price, upbitMarketBuyCost true (.of "XRP" "KRW") (345678 / 10) =
        some (marketBuyCostTexts (.of "XRP" "KRW") price) ∧ fastStod price = 34567) ∧
      ∃ volume, upbitMarketSell true (.of "XRP" "KRW") (5 / 4) =
        some (marketSellTexts (.of "XRP" "KRW") volume) ∧
        fastStod volume = roundPlaces 16 (5 / 4) := by
  obtain ⟨hformat, hbuy, hsell⟩ :=
    upbit_amounts_iff (.of "XRP" "KRW") (1 / 2) (345678 / 10) (5 / 4) 2
  refine ⟨(hformat (by norm_num)).mpr (Or.inl (by norm_num)), ?_, hsell (by norm_num)⟩
  obtain ⟨price, hsent, hdenotes⟩ := hbuy (by norm_num [TradingConfig.minOrderKrw])
  have hfloor : ⌊(345678 / 10 : ℚ)⌋ = 34567 := by norm_num
  rw [hfloor] at hdenotes
  exact ⟨price, hsent, hdenotes.mpr (by norm_num)⟩

/-- A market buy for 35000 KRW is signed and posted as one for 35. -/
theorem upbit_buy_of_35000_reads_35 :
    upbitMarketBuyCost true (.of "XRP" "KRW") 35000 =
        some (marketBuyCostTexts (.of "XRP" "KRW") "35".toList) ∧
      fastStod (formatUpbitNumber ⌊(35000 : ℚ)⌋ 0) = 35 ∧ (35 : ℚ) ≠ ⌊(35000 : ℚ)⌋ := by
  refine ⟨?_, ?_, ?_⟩ <;> decide +kernel

end SpotRelay.Analysis
