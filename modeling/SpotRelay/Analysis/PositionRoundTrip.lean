import SpotRelay.Analysis.RecoveryFile
import SpotRelay.Library.DecimalText
import SpotRelay.Model.PositionDoubles

/-!
# Saving a position and loading it again

A number is printed as the digits of the nearest one with so many decimals, and these digits are
read back as they stand.  What is loaded is therefore the rounded position, and since a number
that has no more decimals than are printed is its own nearest one, saving it again changes nothing
in the file.  The trimmed price loses zeros only, and the sign of a zero.

* **the file** holds the text of the last save (`read_saveActivePosition`), which is an object of
  the printed fields (`plainFields_recordFields`).
* **the position** of the other modules, which has no negative zero, is saved as the same text
  (`positionText_ofPosition`).
-/

set_option autoImplicit false

namespace SpotRelay.Analysis

open SpotRelay.Model
open SpotRelay.Library SpotRelay.Library.DecimalText SpotRelay.Library.FlatJson

/-! ## What is relied on -/

/-- The numeral of `units` in the last of `places` decimals. -/
def fixedNumeral (negative : Bool) (places units : ℕ) : Numeral where
  negative := negative
  whole := units / 10 ^ places
  fraction := lastDigits places units
  isDigit := fun _ h => isDigit_of_mem_lastDigits h

/-- `fmt` prints the sign of a double and the digits of a nearest number with so many decimals,
and integers digit by digit. -/
structure CorrectlyRounded (fmt : DoubleFormat) : Prop where
  fixed : ∀ places x, ∃ units : ℕ, |x.magnitude * 10 ^ places - (units : ℚ)| ≤ 1 / 2 ∧
    fmt.fixed places x = (fixedNumeral x.negative places units).text
  integer : ∀ i, fmt.integer i = (Numeral.ofInt i).text

/-- `simdjson` reads an object of one level as its fields, every numeral digit by digit. -/
def ReadsObjects (parse : List Char → Option Object) : Prop :=
  ∀ fields, fields ≠ [] → PlainFields fields → parse (objectText fields) = some fields

/-- `y` is `x` rounded to `places` decimals. -/
def RoundedTo (places : ℕ) (x y : ℚ) : Prop :=
  (∃ units : ℤ, y = units / 10 ^ places) ∧ |x - y| ≤ 1 / 2 / 10 ^ places

/-! ## One number -/

/-- The number that a fixed numeral denotes. -/
theorem fixedNumeral_magnitude (negative : Bool) (places units : ℕ) :
    (fixedNumeral negative places units).magnitude = (units : ℚ) / 10 ^ places := by
  have hlength : (lastDigits places units).length = places := length_lastDigits places units
  simp only [Numeral.magnitude, fixedNumeral, hlength]
  exact whole_add_lastDigits places units

/-- A number has its nearest one with so many decimals within half a unit. -/
theorem roundedTo_of_units {places units : ℕ} {x : FiniteDouble} {negative : Bool} {y : ℚ}
    (hnear : |x.magnitude * 10 ^ places - units| ≤ 1 / 2)
    (hsign : negative = x.negative ∨ units = 0)
    (hy : y = if negative then -((units : ℚ) / 10 ^ places) else (units : ℚ) / 10 ^ places) :
    RoundedTo places x.value y := by
  have hscale : (0 : ℚ) < 10 ^ places := by positivity
  -- a zero has either sign
  have hy' : y =
      if x.negative then -((units : ℚ) / 10 ^ places) else (units : ℚ) / 10 ^ places := by
    rcases hsign with hsame | hzero
    · rw [hy, hsame]
    · rw [hy, hzero]
      simp
  have hdistance : |x.magnitude - (units : ℚ) / 10 ^ places| ≤ 1 / 2 / 10 ^ places := by
    have hscaled : x.magnitude - (units : ℚ) / 10 ^ places =
        (x.magnitude * 10 ^ places - units) / 10 ^ places := by
      field_simp
    rw [hscaled, abs_div, abs_of_pos hscale]
    exact div_le_div_of_nonneg_right hnear hscale.le
  unfold RoundedTo FiniteDouble.value
  rw [hy']
  cases x.negative with
  | true =>
    refine ⟨⟨-units, by simp [neg_div]⟩, ?_⟩
    rw [if_pos rfl, if_pos rfl, ← neg_sub', abs_neg]
    exact hdistance
  | false => exact ⟨⟨units, by simp⟩, hdistance⟩

/-- Two whole numbers half a unit apart are the same. -/
theorem units_unique {units units' : ℕ} (h : |(units : ℚ) - units'| ≤ 1 / 2) : units' = units := by
  have hless : |(units : ℤ) - units'| < 1 := by
    have hcast : ((|(units : ℤ) - units'| : ℤ) : ℚ) ≤ 1 / 2 := by push_cast; exact h
    have hone : ((|(units : ℤ) - units'| : ℤ) : ℚ) < (1 : ℤ) := hcast.trans_lt (by norm_num)
    exact_mod_cast hone
  have := Int.abs_lt_one_iff.mp hless
  omega

variable {fmt : DoubleFormat}

/-- A double that has no more decimals than are printed is printed as these decimals. -/
theorem CorrectlyRounded.fixed_units (hfmt : CorrectlyRounded fmt) {places units : ℕ}
    {x : FiniteDouble} (hx : x.magnitude = (units : ℚ) / 10 ^ places) :
    fmt.fixed places x = (fixedNumeral x.negative places units).text := by
  obtain ⟨units', hnear, htext⟩ := hfmt.fixed places x
  have hscale : (10 : ℚ) ^ places ≠ 0 := by positivity
  rw [hx, div_mul_cancel₀ _ hscale] at hnear
  rw [htext, units_unique hnear]

/-- A numeral with decimals has a fraction. -/
theorem fixedNumeral_fraction (negative : Bool) {places : ℕ} (hplaces : places ≠ 0) (units : ℕ) :
    (fixedNumeral negative places units).fraction ≠ [] := by
  intro hnone
  have hlength := length_lastDigits places units
  rw [show lastDigits places units = [] from hnone] at hlength
  exact hplaces hlength.symm

/-- What a fixed number of decimals, at least one, is read as. -/
theorem asDouble_fixedNumeral (negative : Bool) {places : ℕ} (hplaces : places ≠ 0) (units : ℕ) :
    ∃ x : FiniteDouble, Signed.asDouble (.number (fixedNumeral negative places units)) = some x ∧
      x.negative = negative ∧ x.magnitude = (units : ℚ) / 10 ^ places :=
  ⟨_, if_neg (fixedNumeral_fraction negative hplaces units), rfl,
    fixedNumeral_magnitude negative places units⟩

/-! ## The trimmed price -/

/-- The numeral of a price after trimming; a price that prints as zero loses its sign. -/
def trimmedNumeral (negative : Bool) (units : ℕ) : Numeral :=
  if units = 0 then ⟨false, 0, [], Numeral.isDigit_of_mem_nil⟩
  else
    { negative := negative
      whole := units / 10 ^ 8
      fraction := trimZeros (lastDigits 8 units)
      isDigit := isDigit_of_mem_trimZeros fun _ h => isDigit_of_mem_lastDigits h }

/-- Trimming zeros leaves the number. -/
theorem trimmedNumeral_magnitude (negative : Bool) (units : ℕ) :
    (trimmedNumeral negative units).magnitude = (units : ℚ) / 10 ^ 8 := by
  unfold trimmedNumeral
  split_ifs with hzero
  · simp [Numeral.magnitude, hzero]
  · have htrimmed := fraction_trimZeros (K := ℚ) (lastDigits 8 units)
    simp only [Numeral.magnitude, htrimmed, length_lastDigits]
    exact whole_add_lastDigits 8 units

/-- Nothing is left of the decimals of a whole number, and of no other. -/
theorem eq_zero_of_trimmed {places units : ℕ} (h : trimZeros (lastDigits places units) = []) :
    units % 10 ^ places = 0 := by
  obtain ⟨count, hcount⟩ := exists_trimmed (lastDigits places units)
  rw [← ofDigitChars_lastDigits places units, ofDigitChars_trimZeros hcount, h]
  rfl

/-- The sign and the whole part of a numeral. -/
def signedWhole (negative : Bool) (whole : ℕ) : List Char :=
  (if negative then ['-'] else []) ++ Nat.toDigits 10 whole

/-- The whole part of a numeral is not empty. -/
theorem signedWhole_ne_nil (negative : Bool) (whole : ℕ) : signedWhole negative whole ≠ [] :=
  List.append_ne_nil_of_right_ne_nil _ Nat.toDigits_ne_nil

/-- Only zero is written as `-0`. -/
theorem eq_zero_of_signedWhole {negative : Bool} {whole : ℕ}
    (h : signedWhole negative whole = "-0".toList) : whole = 0 := by
  have hdigits : Nat.toDigits 10 whole = ['0'] := by
    cases negative with
    | true =>
      have hsigned : ['-'] ++ Nat.toDigits 10 whole = ['-'] ++ ['0'] := h
      exact List.append_cancel_left hsigned
    | false =>
      have hhead : '-' ∈ Nat.toDigits 10 whole := by
        rw [show Nat.toDigits 10 whole = "-0".toList from h]
        decide
      exact absurd (isDigit_of_mem_toDigits _ hhead) (by decide)
  rw [← Nat.ofDigitChars_ten_toDigits (n := whole), hdigits]
  rfl

/-- Trimming cuts the zeros off the decimals, and the point when nothing is left of them. -/
theorem trimDecimal_point (negative : Bool) (whole : ℕ) (decimals : List Char)
    (hdigits : ∀ c ∈ decimals, c.isDigit = true)
    (hnonzero : whole ≠ 0 ∨ trimZeros decimals ≠ []) :
    trimDecimal (signedWhole negative whole ++ '.' :: decimals) =
      signedWhole negative whole ++
        if trimZeros decimals = [] then [] else '.' :: trimZeros decimals := by
  have htrimmed : trimZeros (signedWhole negative whole ++ '.' :: decimals) =
      signedWhole negative whole ++ '.' :: trimZeros decimals :=
    trimZeros_append_cons (by decide) _ _
  have hreverse : (signedWhole negative whole ++ '.' :: decimals).reverse.dropWhile (· = '0') =
      (signedWhole negative whole ++ '.' :: trimZeros decimals).reverse := by
    rw [← htrimmed, trimZeros, List.rdropWhile, List.reverse_reverse]
  unfold trimDecimal
  rw [hreverse]
  by_cases hnone : trimZeros decimals = []
  · -- the point goes as well
    rw [hnone, if_pos rfl, List.append_nil]
    have hwhole : whole ≠ 0 := hnonzero.resolve_right (not_not.mpr hnone)
    have hout : ¬ (signedWhole negative whole = [] ∨ signedWhole negative whole = "-0".toList) := by
      rintro (hempty | hminus)
      · exact signedWhole_ne_nil negative whole hempty
      · exact hwhole (eq_zero_of_signedWhole hminus)
    simp only [List.reverse_append, List.reverse_cons, List.reverse_nil, List.nil_append,
      List.cons_append, List.head?_cons, if_true, List.tail_cons, List.reverse_reverse]
    exact if_neg hout
  · rw [if_neg hnone]
    obtain ⟨init, d, hinit⟩ := (List.eq_nil_or_concat' (trimZeros decimals)).resolve_left hnone
    have hd : d.isDigit = true := by
      apply isDigit_of_mem_trimZeros hdigits
      rw [hinit]
      exact List.mem_concat_self
    have hhead : (signedWhole negative whole ++ '.' :: trimZeros decimals).reverse.head? =
        some d := by
      rw [hinit]
      simp
    have hpoint : ¬ some d = some '.' := by
      intro heq
      rw [Option.some.inj heq] at hd
      exact absurd hd (by decide)
    have hout : ¬ (signedWhole negative whole ++ '.' :: trimZeros decimals = [] ∨
        signedWhole negative whole ++ '.' :: trimZeros decimals = "-0".toList) := by
      rintro (hempty | hminus)
      · exact List.append_ne_nil_of_right_ne_nil _ (List.cons_ne_nil _ _) hempty
      · have hmem : '.' ∈ "-0".toList := by
          rw [← hminus]
          simp
        exact absurd hmem (by decide)
    simp only [hhead, hpoint, if_false, List.reverse_reverse]
    exact if_neg hout

/-- A fixed number of decimals, at least one, is printed with all of them. -/
theorem fixedNumeral_text (negative : Bool) {places : ℕ} (hplaces : places ≠ 0) (units : ℕ) :
    (fixedNumeral negative places units).text =
      signedWhole negative (units / 10 ^ places) ++ '.' :: lastDigits places units := by
  have hfraction := fixedNumeral_fraction negative hplaces units
  rw [Numeral.text, if_neg hfraction]
  exact (List.append_assoc _ _ _).symm

/-- `trim_decimal` writes the trimmed numeral. -/
theorem trimDecimal_fixedNumeral (negative : Bool) (units : ℕ) :
    trimDecimal (fixedNumeral negative 8 units).text = (trimmedNumeral negative units).text := by
  by_cases hzero : units = 0
  · subst hzero
    cases negative <;> decide +kernel
  · have hnonzero : units / 10 ^ 8 ≠ 0 ∨ trimZeros (lastDigits 8 units) ≠ [] := by
      by_contra hnone
      obtain ⟨hwhole, hdecimals⟩ := not_or.mp hnone
      have hrest := eq_zero_of_trimmed (not_not.mp hdecimals)
      have hsplit := Nat.div_add_mod units (10 ^ 8)
      rw [not_not.mp hwhole, hrest] at hsplit
      exact hzero hsplit.symm
    have htrim := trimDecimal_point negative (units / 10 ^ 8) (lastDigits 8 units)
      (fun _ h => isDigit_of_mem_lastDigits h) hnonzero
    rw [fixedNumeral_text negative (by decide) units, htrim, trimmedNumeral, if_neg hzero]
    exact List.append_assoc _ _ _

/-- A numeral without a fraction is read as an integer, whose zero has no sign. -/
theorem ofRat_integer {n : Numeral} (h : n.fraction = []) :
    (FiniteDouble.ofRat n.integer).magnitude = n.magnitude ∧
      ((FiniteDouble.ofRat n.integer).negative = n.negative ∨ n.magnitude = 0) := by
  have hmagnitude : n.magnitude = n.whole := by simp [Numeral.magnitude, h]
  rw [hmagnitude]
  unfold FiniteDouble.ofRat Numeral.integer
  cases n.negative with
  | true =>
    refine ⟨by simp, ?_⟩
    by_cases hzero : n.whole = 0
    · exact Or.inr (by simp [hzero])
    · exact Or.inl (by simpa using Nat.pos_of_ne_zero hzero)
  | false => exact ⟨by simp, Or.inl (by simp)⟩

/-- What a trimmed price is read as; a price that prints as zero is the positive zero. -/
theorem asDouble_trimmedNumeral (negative : Bool) (units : ℕ) :
    ∃ x : FiniteDouble, Signed.asDouble (.number (trimmedNumeral negative units)) = some x ∧
      (x.negative = negative ∨ units = 0) ∧ x.magnitude = (units : ℚ) / 10 ^ 8 := by
  have hmagnitude := trimmedNumeral_magnitude negative units
  have hsign : (trimmedNumeral negative units).negative = negative ∨ units = 0 := by
    unfold trimmedNumeral
    split_ifs with hzero
    · exact Or.inr hzero
    · exact Or.inl rfl
  by_cases hfraction : (trimmedNumeral negative units).fraction = []
  · obtain ⟨hvalue, hinteger⟩ := ofRat_integer hfraction
    refine ⟨_, if_pos hfraction, ?_, hvalue.trans hmagnitude⟩
    rcases hinteger with hsame | hzero
    · rw [hsame]
      exact hsign
    · right
      rw [hmagnitude] at hzero
      simpa using hzero
  · exact ⟨_, if_neg hfraction, hsign, hmagnitude⟩

/-! ## One field of the file -/

/-- A number `x` that `print` writes as the numeral `n`: `n` is read as `y`, which is `x` rounded
and is written as `n` again. -/
structure Stored (print : FiniteDouble → List Char) (places : ℕ) (x y : FiniteDouble)
    (n : Numeral) : Prop where
  text : print x = n.text
  read : Signed.asDouble (.number n) = some y
  rounded : RoundedTo places x.value y.value
  again : print y = n.text

/-- A number printed with a fixed number of decimals is stored rounded. -/
theorem CorrectlyRounded.stored_fixed (hfmt : CorrectlyRounded fmt) (places : ℕ)
    (hplaces : places ≠ 0) (x : FiniteDouble) : ∃ y n, Stored (fmt.fixed places) places x y n := by
  obtain ⟨units, hnear, htext⟩ := hfmt.fixed places x
  obtain ⟨y, hread, hsign, hmagnitude⟩ := asDouble_fixedNumeral x.negative hplaces units
  refine ⟨y, fixedNumeral x.negative places units, htext, hread, ?_, ?_⟩
  · apply roundedTo_of_units hnear (Or.inl hsign)
    rw [FiniteDouble.value, hmagnitude]
  · rw [hfmt.fixed_units hmagnitude, hsign]

/-- So is a trimmed price. -/
theorem CorrectlyRounded.stored_trimmed (hfmt : CorrectlyRounded fmt) (x : FiniteDouble) :
    ∃ y n, Stored (fun x => trimDecimal (fmt.fixed 8 x)) 8 x y n := by
  obtain ⟨units, hnear, htext⟩ := hfmt.fixed 8 x
  obtain ⟨y, hread, hsign, hmagnitude⟩ := asDouble_trimmedNumeral x.negative units
  refine ⟨y, trimmedNumeral x.negative units, ?_, hread, ?_, ?_⟩
  · show trimDecimal (fmt.fixed 8 x) = _
    rw [htext, trimDecimal_fixedNumeral]
  · apply roundedTo_of_units hnear hsign
    rw [FiniteDouble.value, hmagnitude]
  · show trimDecimal (fmt.fixed 8 y) = _
    rw [hfmt.fixed_units hmagnitude, trimDecimal_fixedNumeral]
    rcases hsign with hsame | hzero
    · rw [hsame]
    · rw [hzero]
      rfl

/-! ## The file -/

/-- The numerals of a file. -/
structure PrintedNumbers where
  entryPremium : Numeral
  positionSizeUsd : Numeral
  koreanAmount : Numeral
  foreignAmount : Numeral
  koreanEntryPrice : Numeral
  foreignEntryPrice : Numeral
  realizedPnlKrw : Numeral

/-- The fields of a file. -/
def recordFields (pos : Signed.Position) (n : PrintedNumbers) : Object :=
  [("symbol_base".toList, .string pos.symbol.base),
    ("symbol_quote".toList, .string pos.symbol.quote),
    ("korean_exchange".toList, .number (.ofInt pos.koreanExchange.code)),
    ("foreign_exchange".toList, .number (.ofInt pos.foreignExchange.code)),
    ("entry_time_ms".toList, .number (.ofInt pos.entryMs)),
    ("entry_premium".toList, .number n.entryPremium),
    ("position_size_usd".toList, .number n.positionSizeUsd),
    ("korean_amount".toList, .number n.koreanAmount),
    ("foreign_amount".toList, .number n.foreignAmount),
    ("korean_entry_price".toList, .number n.koreanEntryPrice),
    ("foreign_entry_price".toList, .number n.foreignEntryPrice),
    ("realized_pnl_krw".toList, .number n.realizedPnlKrw),
    ("is_active".toList, .boolean true)]

set_option maxRecDepth 4000 in
/-- The saved text is the object of the printed fields. -/
theorem positionText_eq_objectText (hfmt : CorrectlyRounded fmt) {pos : Signed.Position}
    {n : PrintedNumbers} (hpremium : fmt.fixed 6 pos.entryPremium = n.entryPremium.text)
    (hsize : fmt.fixed 2 pos.positionSizeUsd = n.positionSizeUsd.text)
    (hkorean : fmt.fixed 8 pos.koreanAmount = n.koreanAmount.text)
    (hforeign : fmt.fixed 8 pos.foreignAmount = n.foreignAmount.text)
    (hkoreanPrice : trimDecimal (fmt.fixed 8 pos.koreanEntryPrice) = n.koreanEntryPrice.text)
    (hforeignPrice : fmt.fixed 8 pos.foreignEntryPrice = n.foreignEntryPrice.text)
    (hpnl : fmt.fixed 2 pos.realizedPnlKrw = n.realizedPnlKrw.text) :
    Signed.positionText fmt pos = objectText (recordFields pos n) := by
  unfold Signed.positionText
  rw [hfmt.integer, hfmt.integer, hfmt.integer, hpremium, hsize, hkorean, hforeign, hkoreanPrice,
    hforeignPrice, hpnl]
  simp only [recordFields, objectText, restText, fieldText, Scalar.text, List.append_assoc,
    List.cons_append, List.nil_append]
  rfl

/-- The fields that are read are those that were written. -/
theorem readPosition_recordFields (pos : Signed.Position) (n : PrintedNumbers)
    {premium size korean foreign koreanPrice foreignPrice pnl : FiniteDouble}
    (hpremium : Signed.asDouble (.number n.entryPremium) = some premium)
    (hsize : Signed.asDouble (.number n.positionSizeUsd) = some size)
    (hkorean : Signed.asDouble (.number n.koreanAmount) = some korean)
    (hforeign : Signed.asDouble (.number n.foreignAmount) = some foreign)
    (hkoreanPrice : Signed.asDouble (.number n.koreanEntryPrice) = some koreanPrice)
    (hforeignPrice : Signed.asDouble (.number n.foreignEntryPrice) = some foreignPrice)
    (hpnl : Signed.asDouble (.number n.realizedPnlKrw) = some pnl) :
    Signed.readPosition (recordFields pos n) = some
      { symbol := pos.symbol
        koreanExchange := pos.koreanExchange
        foreignExchange := pos.foreignExchange
        entryTime := pos.entryMs * 1000000
        entryPremium := premium
        positionSizeUsd := size
        koreanAmount := korean
        foreignAmount := foreign
        koreanEntryPrice := koreanPrice
        foreignEntryPrice := foreignPrice
        realizedPnlKrw := pnl
        isActive := true } := by
  have hinteger : ∀ i, Signed.asInteger (.number (.ofInt i)) = some i := by
    intro i
    show some (Numeral.ofInt i).integer = some i
    rw [Numeral.integer_ofInt]
  have hvenue : ∀ ex : Exchange,
      (Signed.asInteger (.number (.ofInt ex.code))).bind Exchange.ofCode = some ex := by
    intro ex
    rw [hinteger]
    exact exchange_ofCode_code ex
  unfold Signed.readPosition
  apply bind_field rfl
  apply bind_field rfl
  apply bind_field (hvenue pos.koreanExchange)
  apply bind_field (hvenue pos.foreignExchange)
  apply bind_field (hinteger pos.entryMs)
  apply bind_field hpremium
  apply bind_field hsize
  apply bind_field hkorean
  apply bind_field hforeign
  apply bind_field hkoreanPrice
  apply bind_field hforeignPrice
  apply bind_field hpnl
  rw [symbolId_of_ofList]
  rfl

/-- The text of a save is what the file holds after it. -/
theorem read_saveActivePosition (pos : Signed.Position) (disk : Disk) :
    (Signed.saveActivePosition fmt pos disk).read .activePosition =
      some (Signed.positionText fmt pos) := by
  have hempty := Directory.openTrunc_content disk FileName.tmp
  unfold Signed.saveActivePosition
  rw [Directory.read_rename (i := (disk.openTrunc .tmp).2)]
  · rw [Directory.write_content _ _ hempty]
  · exact Directory.openTrunc_inode disk .tmp

/-- The keys of a file. -/
def recordKeys : List (List Char) :=
  ["symbol_base", "symbol_quote", "korean_exchange", "foreign_exchange", "entry_time_ms",
    "entry_premium", "position_size_usd", "korean_amount", "foreign_amount", "korean_entry_price",
    "foreign_entry_price", "realized_pnl_krw", "is_active"].map String.toList

/-- The keys of the record have nothing to escape. -/
theorem plain_recordKeys : ∀ key ∈ recordKeys, Plain key := by decide

/-- The values of the record have nothing to escape. -/
theorem plainFields_recordFields {pos : Signed.Position} (hbase : Plain pos.symbol.base)
    (hquote : Plain pos.symbol.quote) (n : PrintedNumbers) : PlainFields (recordFields pos n) := by
  intro f hf
  have hkey : f.1 ∈ recordKeys := List.mem_map_of_mem (f := Prod.fst) hf
  refine ⟨plain_recordKeys _ hkey, ?_⟩
  simp only [recordFields, List.mem_cons, List.not_mem_nil, or_false] at hf
  rcases hf with rfl | rfl | rfl | rfl | rfl | rfl | rfl | rfl | rfl | rfl | rfl | rfl | rfl
  · exact hbase
  · exact hquote
  all_goals exact trivial

/-- A time that is stored in milliseconds is read as the same milliseconds. -/
theorem entryMs_of_stored (ms : ℤ) : (ms * 1000000).tdiv 1000000 = ms :=
  Int.mul_tdiv_cancel ms (by decide)

/-- An active position that is saved is loaded as the same trade with every number rounded to its
printed decimals, and what is loaded is saved as the same text. -/
theorem position_roundTrip (fmt : DoubleFormat) (hfmt : CorrectlyRounded fmt)
    (parse : List Char → Option Object) (hparse : ReadsObjects parse) (pos : Signed.Position)
    (hactive : pos.isActive = true) (hbase : Plain pos.symbol.base)
    (hquote : Plain pos.symbol.quote) (disk : Disk) :
    ∃ loaded, Signed.loadActivePosition parse (Signed.saveActivePosition fmt pos disk) =
        some loaded ∧
      loaded.symbol = pos.symbol ∧ loaded.koreanExchange = pos.koreanExchange ∧
      loaded.foreignExchange = pos.foreignExchange ∧ loaded.entryMs = pos.entryMs ∧
      loaded.isActive = pos.isActive ∧
      RoundedTo 6 pos.entryPremium.value loaded.entryPremium.value ∧
      RoundedTo 2 pos.positionSizeUsd.value loaded.positionSizeUsd.value ∧
      RoundedTo 8 pos.koreanAmount.value loaded.koreanAmount.value ∧
      RoundedTo 8 pos.foreignAmount.value loaded.foreignAmount.value ∧
      RoundedTo 8 pos.koreanEntryPrice.value loaded.koreanEntryPrice.value ∧
      RoundedTo 8 pos.foreignEntryPrice.value loaded.foreignEntryPrice.value ∧
      RoundedTo 2 pos.realizedPnlKrw.value loaded.realizedPnlKrw.value ∧
      Signed.positionText fmt loaded = Signed.positionText fmt pos := by
  obtain ⟨premium, premiumText, hpremium⟩ := hfmt.stored_fixed 6 (by decide)
    pos.entryPremium
  obtain ⟨size, sizeText, hsize⟩ := hfmt.stored_fixed 2 (by decide) pos.positionSizeUsd
  obtain ⟨korean, koreanText, hkorean⟩ := hfmt.stored_fixed 8 (by decide)
    pos.koreanAmount
  obtain ⟨foreign, foreignText, hforeign⟩ := hfmt.stored_fixed 8 (by decide)
    pos.foreignAmount
  obtain ⟨koreanPrice, koreanPriceText, hkoreanPrice⟩ := hfmt.stored_trimmed pos.koreanEntryPrice
  obtain ⟨foreignPrice, foreignPriceText, hforeignPrice⟩ := hfmt.stored_fixed 8
    (by decide) pos.foreignEntryPrice
  obtain ⟨pnl, pnlText, hpnl⟩ := hfmt.stored_fixed 2 (by decide) pos.realizedPnlKrw
  let n : PrintedNumbers :=
    ⟨premiumText, sizeText, koreanText, foreignText, koreanPriceText, foreignPriceText, pnlText⟩
  have htext : Signed.positionText fmt pos = objectText (recordFields pos n) :=
    positionText_eq_objectText hfmt hpremium.text hsize.text hkorean.text hforeign.text
      hkoreanPrice.text hforeignPrice.text hpnl.text
  have hparsed : parse (objectText (recordFields pos n)) = some (recordFields pos n) :=
    hparse _ (List.cons_ne_nil _ _) (plainFields_recordFields hbase hquote n)
  have hread := readPosition_recordFields pos n hpremium.read hsize.read hkorean.read hforeign.read
    hkoreanPrice.read hforeignPrice.read hpnl.read
  let loaded : Signed.Position :=
    { symbol := pos.symbol, koreanExchange := pos.koreanExchange
      foreignExchange := pos.foreignExchange, entryTime := pos.entryMs * 1000000
      entryPremium := premium, positionSizeUsd := size, koreanAmount := korean
      foreignAmount := foreign, koreanEntryPrice := koreanPrice
      foreignEntryPrice := foreignPrice, realizedPnlKrw := pnl, isActive := true }
  refine ⟨loaded, ?_, rfl, rfl, rfl, entryMs_of_stored pos.entryMs, hactive.symm,
    hpremium.rounded, hsize.rounded, hkorean.rounded, hforeign.rounded, hkoreanPrice.rounded,
    hforeignPrice.rounded, hpnl.rounded, ?_⟩
  · rw [Signed.loadActivePosition, read_saveActivePosition, Option.bind_some, htext,
      hparsed, Option.bind_some]
    exact hread
  · have hms : loaded.entryMs = pos.entryMs := entryMs_of_stored pos.entryMs
    have hfields : recordFields loaded n = recordFields pos n := by
      unfold recordFields
      rw [hms]
    rw [htext, positionText_eq_objectText hfmt (n := n) hpremium.again hsize.again hkorean.again
      hforeign.again hkoreanPrice.again hforeignPrice.again hpnl.again, hfields]

/-- For a position without a negative zero this is the text of the file as the loops write it. -/
theorem positionText_ofPosition (fmt : DoubleFormat) (pos : Position) :
    Signed.positionText fmt (.ofPosition pos) = positionText fmt.unsigned pos := by
  have hms : (Signed.Position.ofPosition pos).entryMs = pos.entryTime :=
    entryMs_of_stored pos.entryTime
  unfold Signed.positionText
  rw [hms]
  rfl

/-! ## A position with a small loss -/

/-- Digits of the nearest number with so many decimals, the even one in the middle. -/
def exactFormat : DoubleFormat where
  fixed places x :=
    (fixedNumeral x.negative places (roundHalfEven (x.magnitude * 10 ^ places))).text
  integer i := (Numeral.ofInt i).text

/-- The example's printing is correctly rounded. -/
theorem correctlyRounded_exactFormat : CorrectlyRounded exactFormat where
  fixed places x := by
    have hscaled : 0 ≤ x.magnitude * 10 ^ places := mul_nonneg x.nonneg (by positivity)
    exact ⟨_, abs_sub_roundHalfEven_le hscaled, rfl⟩
  integer _ := rfl

/-- Half a coin at a price of 2300.5 won and 0.001 won of loss. -/
def lossPosition : Signed.Position where
  symbol := SymbolId.of "XRP" "KRW"
  koreanExchange := .bithumb
  foreignExchange := .bybit
  entryTime := 1700000000123456789
  entryPremium := .ofRat (-1 / 3)
  positionSizeUsd := .ofRat 3000
  koreanAmount := .ofRat (1 / 2)
  foreignAmount := .ofRat (1 / 2)
  koreanEntryPrice := .ofRat (4601 / 2)
  foreignEntryPrice := .ofRat (17 / 10)
  realizedPnlKrw := .ofRat (-1 / 1000)
  isActive := true

/-- A position with a loss is read back. -/
theorem position_roundTrip_loss :
    ∃ loaded, Signed.loadActivePosition readObject
        (Signed.saveActivePosition exactFormat lossPosition Directory.empty) = some loaded ∧
      loaded.symbol = lossPosition.symbol ∧
      RoundedTo 2 lossPosition.realizedPnlKrw.value loaded.realizedPnlKrw.value ∧
      Signed.positionText exactFormat loaded = Signed.positionText exactFormat lossPosition := by
  obtain ⟨loaded, hloaded, hsymbol, -, -, -, -, -, -, -, -, -, -, hpnl, htext⟩ :=
    position_roundTrip exactFormat correctlyRounded_exactFormat readObject
      (fun _ hfields hplain => readObject_objectText hfields hplain) lossPosition rfl (by decide)
      (by decide) Directory.empty
  exact ⟨loaded, hloaded, hsymbol, hpnl, htext⟩

end SpotRelay.Analysis
