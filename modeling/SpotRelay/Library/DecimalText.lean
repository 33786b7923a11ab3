import Mathlib.Algebra.Order.Floor.Semiring
import Mathlib.Algebra.Order.Floor.Ring
import Mathlib.Algebra.Order.Field.Basic
import Mathlib.Data.List.DropRight
import Mathlib.Tactic.FieldSimp
import Mathlib.Tactic.Linarith

/-!
# Numbers as decimal text

Rounding to a number of decimal places, to even in the middle, and the digits that are printed:
the digits of the whole part and exactly as many of the fraction as there are places.  Zeros at the
end of a fraction may be trimmed, zeros at the end of a whole number may not.
-/

set_option autoImplicit false

namespace SpotRelay.Library.DecimalText

/-! ## Rounding -/

section Rounding

variable {K : Type} [Field K] [LinearOrder K] [IsStrictOrderedRing K] [FloorSemiring K]

/-- The nearest natural number, the even one in the middle. -/
def roundHalfEven (x : K) : ℕ :=
  if x - ⌊x⌋₊ < 1 / 2 ∨ x - ⌊x⌋₊ = 1 / 2 ∧ ⌊x⌋₊ % 2 = 0 then ⌊x⌋₊ else ⌊x⌋₊ + 1

/-- The nearest number with `places` decimals. -/
def roundPlaces (places : ℕ) (x : K) : K := roundHalfEven (x * 10 ^ places) / 10 ^ places

/-- Rounding to an integer is off by at most a half. -/
theorem abs_sub_roundHalfEven_le {x : K} (h : 0 ≤ x) : |x - roundHalfEven x| ≤ 1 / 2 := by
  have hbelow : (⌊x⌋₊ : K) ≤ x := Nat.floor_le h
  have habove : x < ⌊x⌋₊ + 1 := Nat.lt_floor_add_one x
  rw [abs_le]
  unfold roundHalfEven
  split_ifs with hnear
  · have hhalf : x - ⌊x⌋₊ ≤ 1 / 2 := by
      rcases hnear with hless | ⟨hmiddle, -⟩
      · exact hless.le
      · exact hmiddle.le
    constructor <;> linarith
  · have hhalf : 1 / 2 ≤ x - ⌊x⌋₊ := not_lt.mp fun hless => hnear (Or.inl hless)
    push_cast
    constructor <;> linarith

/-- A whole number is its own rounding. -/
@[simp] theorem roundHalfEven_natCast (n : ℕ) : roundHalfEven (n : K) = n := by
  simp [roundHalfEven]

/-- A number of `places` decimals is not moved. -/
theorem roundPlaces_units (places n : ℕ) :
    roundPlaces places ((n : K) / 10 ^ places) = n / 10 ^ places := by
  have hscale : (10 : K) ^ places ≠ 0 := by positivity
  rw [roundPlaces, div_mul_cancel₀ _ hscale, roundHalfEven_natCast]

/-- Rounding keeps the order. -/
theorem roundHalfEven_mono {x y : K} (h : x ≤ y) : roundHalfEven x ≤ roundHalfEven y := by
  rcases (Nat.floor_mono h).lt_or_eq with hfloor | hfloor
  · have hround : roundHalfEven x ≤ ⌊x⌋₊ + 1 := by
      unfold roundHalfEven
      split_ifs <;> omega
    have hround' : ⌊y⌋₊ ≤ roundHalfEven y := by
      unfold roundHalfEven
      split_ifs <;> omega
    omega
  · -- with one whole part, the larger number has the larger fraction
    have hrest : x - ⌊y⌋₊ ≤ y - ⌊y⌋₊ := sub_le_sub_right h _
    unfold roundHalfEven
    rw [hfloor]
    split_ifs with hx hy hy
    · exact le_refl _
    · exact Nat.le_succ _
    · refine absurd ?_ hx
      rcases hy with hless | ⟨hmiddle, heven⟩
      · exact Or.inl (hrest.trans_lt hless)
      · exact (hrest.trans_eq hmiddle).lt_or_eq.imp_right fun hsame => ⟨hsame, heven⟩
    · exact le_refl _

/-- Rounding to decimal places keeps the order. -/
theorem roundPlaces_mono (places : ℕ) {x y : K} (h : x ≤ y) :
    roundPlaces places x ≤ roundPlaces places y := by
  have hscale : (0 : K) ≤ 10 ^ places := by positivity
  have hround : (roundHalfEven (x * 10 ^ places) : K) ≤ roundHalfEven (y * 10 ^ places) :=
    Nat.cast_le.mpr (roundHalfEven_mono (mul_le_mul_of_nonneg_right h hscale))
  exact div_le_div_of_nonneg_right hround hscale

/-- Rounding moves a number by half a unit of the last place at most. -/
theorem abs_sub_roundPlaces_le (places : ℕ) {x : K} (h : 0 ≤ x) :
    |x - roundPlaces places x| ≤ 1 / 2 / 10 ^ places := by
  have hscale : (0 : K) < 10 ^ places := by positivity
  have hscaled := abs_sub_roundHalfEven_le (mul_nonneg h hscale.le)
  have hdistance : x - roundPlaces places x =
      (x * 10 ^ places - roundHalfEven (x * 10 ^ places)) / 10 ^ places := by
    unfold roundPlaces
    field_simp
  rw [hdistance, abs_div, abs_of_pos hscale]
  exact div_le_div_of_nonneg_right hscaled hscale.le

end Rounding

/-! ## Digits -/

/-- The last `places` digits of a number. -/
def lastDigits : ℕ → ℕ → List Char
  | 0, _ => []
  | places + 1, n => lastDigits places (n / 10) ++ [(n % 10).digitChar]

/-- The last digits are as many as were asked for. -/
@[simp] theorem length_lastDigits (places n : ℕ) : (lastDigits places n).length = places := by
  induction places generalizing n with
  | zero => rfl
  | succ places ih => simp [lastDigits, ih]

/-- The decimal digits of a number are digits. -/
theorem isDigit_of_mem_toDigits {n : ℕ} : ∀ c ∈ Nat.toDigits 10 n, c.isDigit = true :=
  fun _ h => Nat.isDigit_of_mem_toDigits (by norm_num) (by norm_num) h

/-- The last digits of a number are digits, leading zeros included. -/
theorem isDigit_of_mem_lastDigits {places n : ℕ} {c : Char} (h : c ∈ lastDigits places n) :
    c.isDigit = true := by
  induction places generalizing n with
  | zero => cases h
  | succ places ih =>
    rcases List.mem_append.mp h with hinit | hlast
    · exact ih hinit
    · rw [List.mem_singleton.mp hlast, Nat.isDigit_digitChar]
      exact decide_eq_true (Nat.mod_lt n (by norm_num))

/-- The last digits of a number are its remainder. -/
theorem ofDigitChars_lastDigits (places n : ℕ) :
    Nat.ofDigitChars 10 (lastDigits places n) 0 = n % 10 ^ places := by
  induction places generalizing n with
  | zero => simp [lastDigits, Nat.mod_one]
  | succ places ih =>
    have hlast : n % 10 < 10 := Nat.mod_lt n (by norm_num)
    rw [lastDigits, Nat.ofDigitChars_append, ih, Nat.ofDigitChars_cons_digitChar_of_lt_ten hlast,
      Nat.ofDigitChars_nil, pow_succ, mul_comm (10 ^ places) 10, Nat.mod_mul, add_comm]

/-- The last digits are the digits of the remainder, with zeros before them. -/
theorem lastDigits_succ_eq_padded (places n : ℕ) :
    lastDigits (places + 1) n =
      List.replicate (places + 1 - (Nat.toDigits 10 (n % 10 ^ (places + 1))).length) '0' ++
        Nat.toDigits 10 (n % 10 ^ (places + 1)) := by
  induction places generalizing n with
  | zero =>
    have hlast : n % 10 < 10 := Nat.mod_lt n (by norm_num)
    simp [lastDigits, Nat.toDigits_of_lt_base hlast]
  | succ places ih =>
    have hlast : n % 10 < 10 := Nat.mod_lt n (by norm_num)
    have hsplit : n % 10 ^ (places + 2) = n % 10 + 10 * (n / 10 % 10 ^ (places + 1)) := by
      rw [pow_succ, mul_comm _ 10, Nat.mod_mul]
    rw [lastDigits, ih, hsplit]
    obtain ⟨rest, hrest⟩ : ∃ rest, rest = n / 10 % 10 ^ (places + 1) := ⟨_, rfl⟩
    rw [← hrest]
    rcases Nat.eq_zero_or_pos rest with hzero | hpos
    · rw [hzero]
      simp [Nat.toDigits_of_lt_base hlast, ← List.replicate_succ']
    · have hbase : 10 ≤ n % 10 + 10 * rest := by omega
      rw [Nat.toDigits_of_base_le (by norm_num) hbase]
      have hdiv : (n % 10 + 10 * rest) / 10 = rest := by omega
      have hmod : (n % 10 + 10 * rest) % 10 = n % 10 := by omega
      rw [hdiv, hmod]
      simp

/-- Whole part and decimals make up the number again. -/
theorem whole_add_lastDigits {K : Type} [Field K] [CharZero K] (places units : ℕ) :
    ((units / 10 ^ places : ℕ) : K) +
        (Nat.ofDigitChars 10 (lastDigits places units) 0 : K) / 10 ^ places =
      units / 10 ^ places := by
  have hscale : (10 : K) ^ places ≠ 0 := pow_ne_zero _ (by norm_num)
  have hsplit : (units : K) = 10 ^ places * (units / 10 ^ places : ℕ) +
      (units % 10 ^ places : ℕ) := by
    exact_mod_cast (Nat.div_add_mod units (10 ^ places)).symm
  rw [ofDigitChars_lastDigits, hsplit]
  field_simp

/-- A rounded number is its whole part and its decimals. -/
theorem roundPlaces_eq_digits {K : Type} [Field K] [LinearOrder K] [IsStrictOrderedRing K]
    [FloorSemiring K] (places : ℕ) (x : K) :
    roundPlaces places x = (roundHalfEven (x * 10 ^ places) / 10 ^ places : ℕ) +
      (Nat.ofDigitChars 10 (lastDigits places (roundHalfEven (x * 10 ^ places))) 0 : K) /
        10 ^ places :=
  (whole_add_lastDigits places (roundHalfEven (x * 10 ^ places))).symm

/-- A number printed with `places` decimals. -/
def fixedText {K : Type} [Field K] [LinearOrder K] [FloorSemiring K] (places : ℕ) (x : K) :
    List Char :=
  let units := roundHalfEven (x * 10 ^ places)
  Nat.toDigits 10 (units / 10 ^ places) ++
    if places = 0 then [] else '.' :: lastDigits places units

/-! ## Trailing zeros -/

/-- Text without its trailing zeros. -/
def trimZeros (text : List Char) : List Char := text.rdropWhile (· = '0')

/-- Trimming stops at a character that is no zero. -/
theorem trimZeros_append_cons {c : Char} (hc : c ≠ '0') (init rest : List Char) :
    trimZeros (init ++ c :: rest) = init ++ c :: trimZeros rest := by
  unfold trimZeros
  induction rest using List.reverseRecOn with
  | nil => rw [List.rdropWhile_concat_neg _ _ _ (by simpa using hc), List.rdropWhile_nil]
  | append_singleton rest last ih =>
    rw [show init ++ c :: (rest ++ [last]) = (init ++ c :: rest) ++ [last] by simp,
      List.rdropWhile_concat, List.rdropWhile_concat, ih]
    split_ifs
    · rfl
    · simp

/-- Only the decimals of a printed number are trimmed. -/
theorem trimZeros_fixedText {K : Type} [Field K] [LinearOrder K] [FloorSemiring K] {places : ℕ}
    (hplaces : places ≠ 0) (x : K) :
    trimZeros (fixedText places x) =
      Nat.toDigits 10 (roundHalfEven (x * 10 ^ places) / 10 ^ places) ++
        '.' :: trimZeros (lastDigits places (roundHalfEven (x * 10 ^ places))) := by
  rw [fixedText, if_neg hplaces]
  exact trimZeros_append_cons (by decide) _ _

/-- Only zeros are trimmed. -/
theorem exists_trimmed (text : List Char) :
    ∃ count, text = trimZeros text ++ List.replicate count '0' := by
  refine ⟨(text.rtakeWhile (· = '0')).length, ?_⟩
  have hzeros : text.rtakeWhile (· = '0') =
      List.replicate (text.rtakeWhile (· = '0')).length '0' := by
    refine List.eq_replicate_of_mem fun c hc => ?_
    simpa using List.mem_rtakeWhile_imp hc
  rw [← hzeros]
  exact List.rdropWhile_append_rtakeWhile.symm

/-- Dropping trailing zeros leaves digits. -/
theorem isDigit_of_mem_trimZeros {text : List Char} (h : ∀ c ∈ text, c.isDigit = true) :
    ∀ c ∈ trimZeros text, c.isDigit = true :=
  fun c hc => h c ((List.rdropWhile_prefix _ _).subset hc)

/-- Each zero that is trimmed off a whole number was a factor of ten. -/
theorem ofDigitChars_trimZeros {text : List Char} {count : ℕ}
    (h : text = trimZeros text ++ List.replicate count '0') :
    Nat.ofDigitChars 10 text 0 = 10 ^ count * Nat.ofDigitChars 10 (trimZeros text) 0 := by
  conv_lhs => rw [h]
  rw [Nat.ofDigitChars_append, Nat.ofDigitChars_replicate_zero]

/-- Zeros that are trimmed off a fraction leave its value. -/
theorem fraction_trimZeros {K : Type} [Field K] [CharZero K] (text : List Char) :
    (Nat.ofDigitChars 10 (trimZeros text) 0 : K) / 10 ^ (trimZeros text).length =
      (Nat.ofDigitChars 10 text 0 : K) / 10 ^ text.length := by
  obtain ⟨count, hcount⟩ := exists_trimmed text
  have hlength : text.length = count + (trimZeros text).length := by
    conv_lhs => rw [hcount]
    rw [List.length_append, List.length_replicate, add_comm]
  rw [ofDigitChars_trimZeros hcount, hlength, pow_add]
  push_cast
  exact (mul_div_mul_left _ _ (pow_ne_zero _ (by norm_num))).symm

/-- Trimming keeps the value of a whole number exactly when it is no positive multiple of ten. -/
theorem ofDigitChars_trimZeros_iff {n : ℕ} (hn : n ≠ 0) :
    Nat.ofDigitChars 10 (trimZeros (Nat.toDigits 10 n)) 0 = n ↔ ¬ 10 ∣ n := by
  obtain ⟨count, hcount⟩ := exists_trimmed (Nat.toDigits 10 n)
  have hvalue := ofDigitChars_trimZeros hcount
  rw [Nat.ofDigitChars_ten_toDigits] at hvalue
  cases count with
  | zero =>
    have hkept : trimZeros (Nat.toDigits 10 n) = Nat.toDigits 10 n := by simpa using hcount.symm
    refine iff_of_true (by rw [hkept, Nat.ofDigitChars_ten_toDigits]) ?_
    intro hten
    have hdigits : Nat.toDigits 10 n = Nat.toDigits 10 (n / 10) ++ ['0'] := by
      rw [Nat.toDigits_of_base_le (by norm_num) (Nat.le_of_dvd (Nat.pos_of_ne_zero hn) hten),
        Nat.mod_eq_zero_of_dvd hten, Nat.digitChar_eq_zero.mpr rfl]
    -- a number that ends in a zero would be trimmed
    rw [hdigits, trimZeros, List.rdropWhile_concat_pos _ _ _ (by simp)] at hkept
    have hshorter := (List.rdropWhile_prefix (· = '0') (Nat.toDigits 10 (n / 10))).length_le
    rw [hkept, List.length_append, List.length_singleton] at hshorter
    omega
  | succ count =>
    have hpositive : 0 < Nat.ofDigitChars 10 (trimZeros (Nat.toDigits 10 n)) 0 := by
      refine Nat.pos_of_ne_zero fun hzero => hn ?_
      rw [hvalue, hzero, mul_zero]
    refine iff_of_false ?_ (not_not.mpr ?_)
    · intro hsame
      rw [hsame, pow_succ] at hvalue
      have hgrown : n < 10 ^ count * 10 * n := by
        have hscale : 1 ≤ 10 ^ count := Nat.one_le_pow _ _ (by norm_num)
        have hn' : 0 < n := Nat.pos_of_ne_zero hn
        calc n < 1 * 10 * n := by omega
          _ ≤ 10 ^ count * 10 * n := by gcongr
      exact absurd hvalue hgrown.ne
    · rw [hvalue, pow_succ]
      exact Dvd.dvd.mul_right (Dvd.intro_left _ rfl) _

end SpotRelay.Library.DecimalText
