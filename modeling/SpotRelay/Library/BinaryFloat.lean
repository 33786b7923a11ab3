import Mathlib.Algebra.Order.Floor.Semifield
import Mathlib.Data.Int.Log
import Mathlib.Data.Rat.Floor
import Mathlib.Tactic.Linarith
import SpotRelay.Library.DecimalText

/-!
# Binary floating-point numbers

The numbers of a binary format are the rationals that its rounding keeps, and an operation on them
is the exact one, rounded to the nearest number and to the even one in the middle.  Exponents are
bounded below, so that small results lose digits and then vanish; there is no largest number.

* **the rounding** of a rational is odd, monotone and idempotent (`round_neg`, `round_mono`,
  `round_round`), since a power of two in between is a multiple of the units on both of its sides
  (`roundMagnitude_le_pow`, `pow_le_roundMagnitude`).
* **numbers** are a subtype: an operation always returns one, and comparisons are those of the
  rationals (`Number.ofRat`, `Number.ofRat_mono`).
* **sums** with a non-negative number are no smaller, although they need not be larger
  (`Number.le_add_of_nonneg`), and a difference of numbers of different signs is at least as large
  as each of them (`Number.max_abs_le_abs_sub`).
-/

set_option autoImplicit false

namespace SpotRelay.Library.BinaryFloat

open SpotRelay.Library.DecimalText

/-- A binary format: the bits of its significands, and the exponent of its smallest number. -/
structure BinaryFormat where
  precision : ℕ
  minExponent : ℤ
  precision_pos : 0 < precision
deriving DecidableEq

/-- The format of `double`. -/
def binary64 : BinaryFormat := ⟨53, -1074, by decide⟩

namespace BinaryFormat

variable (F : BinaryFormat)

/-! ## The unit of the last place -/

/-- The exponent of the last place of a significand of the size of `x`. -/
def lastPlace (x : ℚ) : ℤ := max (Int.log 2 x + 1 - F.precision) F.minExponent

/-- The unit of the last place. -/
def unit (x : ℚ) : ℚ := 2 ^ F.lastPlace x

/-- The spacing of the numbers around a magnitude is positive. -/
theorem unit_pos (x : ℚ) : 0 < F.unit x := zpow_pos two_pos _

/-- Larger numbers have no smaller last place. -/
theorem lastPlace_mono {x y : ℚ} (hx : 0 < x) (h : x ≤ y) : F.lastPlace x ≤ F.lastPlace y := by
  have hlog : Int.log 2 x ≤ Int.log 2 y := Int.log_mono_right hx h
  exact max_le_max (by omega) le_rfl

/-- A number has at most `precision` places above its last one. -/
theorem lt_pow_lastPlace (x : ℚ) : x < 2 ^ (F.lastPlace x + F.precision) := by
  have hlog : x < 2 ^ (Int.log 2 x + 1) := Int.lt_zpow_succ_log_self one_lt_two x
  have hplace : Int.log 2 x + 1 ≤ F.lastPlace x + F.precision := by
    have hmax := le_max_left (Int.log 2 x + 1 - F.precision) F.minExponent
    unfold lastPlace
    omega
  exact hlog.trans_le (zpow_le_zpow_right₀ one_le_two hplace)

/-- A power of two is a whole number of smaller powers of two. -/
theorem exists_pow_eq_natCast_mul {least exponent : ℤ} (h : least ≤ exponent) :
    ∃ n : ℕ, (2 : ℚ) ^ exponent = n * 2 ^ least := by
  refine ⟨2 ^ (exponent - least).toNat, ?_⟩
  have hexponent : ((exponent - least).toNat : ℤ) = exponent - least :=
    Int.toNat_of_nonneg (by omega)
  calc (2 : ℚ) ^ exponent = 2 ^ (exponent - least + least) := by rw [sub_add_cancel]
    _ = 2 ^ (exponent - least) * 2 ^ least := zpow_add₀ two_ne_zero _ _
    _ = ((2 ^ (exponent - least).toNat : ℕ) : ℚ) * 2 ^ least := by
      rw [← hexponent, zpow_natCast]
      push_cast
      rfl

/-! ## Magnitudes -/

/-- The nearest multiple of the unit of a magnitude. -/
def roundMagnitude (x : ℚ) : ℚ := roundHalfEven (x / F.unit x) * F.unit x

/-- A rounded magnitude is not negative. -/
theorem roundMagnitude_nonneg (x : ℚ) : 0 ≤ F.roundMagnitude x :=
  mul_nonneg (Nat.cast_nonneg _) (F.unit_pos x).le

/-- Zero is rounded to itself. -/
@[simp] theorem roundMagnitude_zero : F.roundMagnitude 0 = 0 := by
  have hzero : roundHalfEven ((0 : ℕ) : ℚ) = 0 := roundHalfEven_natCast 0
  rw [Nat.cast_zero] at hzero
  rw [roundMagnitude, zero_div, hzero, Nat.cast_zero, zero_mul]

/-- A multiple of the unit is its own rounding. -/
theorem roundMagnitude_of_multiple {x : ℚ} {n : ℕ} (h : x = n * F.unit x) :
    F.roundMagnitude x = x := by
  have hplaces : x / F.unit x = n := (div_eq_iff (F.unit_pos x).ne').mpr h
  rw [roundMagnitude, hplaces, roundHalfEven_natCast, ← h]

/-- A power of two that is not below a magnitude is not below its rounding. -/
theorem roundMagnitude_le_pow {x : ℚ} {exponent : ℤ} (hplace : F.lastPlace x ≤ exponent)
    (h : x ≤ 2 ^ exponent) : F.roundMagnitude x ≤ 2 ^ exponent := by
  obtain ⟨n, hn⟩ := exists_pow_eq_natCast_mul hplace
  rw [hn] at h ⊢
  have hplaces : x / F.unit x ≤ n := (div_le_iff₀ (F.unit_pos x)).mpr h
  have hround := roundHalfEven_mono hplaces
  rw [roundHalfEven_natCast] at hround
  exact mul_le_mul_of_nonneg_right (Nat.cast_le.mpr hround) (F.unit_pos x).le

/-- A power of two that is not above a magnitude is not above its rounding. -/
theorem pow_le_roundMagnitude {x : ℚ} {exponent : ℤ} (hplace : F.lastPlace x ≤ exponent)
    (h : 2 ^ exponent ≤ x) : 2 ^ exponent ≤ F.roundMagnitude x := by
  obtain ⟨n, hn⟩ := exists_pow_eq_natCast_mul hplace
  rw [hn] at h ⊢
  have hplaces : (n : ℚ) ≤ x / F.unit x := (le_div_iff₀ (F.unit_pos x)).mpr h
  have hround := roundHalfEven_mono hplaces
  rw [roundHalfEven_natCast] at hround
  exact mul_le_mul_of_nonneg_right (Nat.cast_le.mpr hround) (F.unit_pos x).le

/-- Rounding keeps the order of magnitudes. -/
theorem roundMagnitude_mono {x y : ℚ} (hx : 0 ≤ x) (h : x ≤ y) :
    F.roundMagnitude x ≤ F.roundMagnitude y := by
  rcases hx.eq_or_lt with rfl | hpos
  · rw [roundMagnitude_zero]
    exact F.roundMagnitude_nonneg y
  · have hplaces := F.lastPlace_mono hpos h
    rcases hplaces.eq_or_lt with hsame | hless
    · -- with one unit, the rounding of the significands is monotone
      have hunit : F.unit x = F.unit y := by rw [unit, hsame, unit]
      have hround : roundHalfEven (x / F.unit y) ≤ roundHalfEven (y / F.unit y) :=
        roundHalfEven_mono (div_le_div_of_nonneg_right h (F.unit_pos y).le)
      rw [roundMagnitude, roundMagnitude, hunit]
      exact mul_le_mul_of_nonneg_right (Nat.cast_le.mpr hround) (F.unit_pos y).le
    · -- otherwise the first power of two of the larger one lies in between
      have hleast : F.minExponent ≤ F.lastPlace x := le_max_right _ _
      have hlast : F.lastPlace y = Int.log 2 y + 1 - F.precision := by
        rcases max_choice (Int.log 2 y + 1 - F.precision) F.minExponent with hmax | hmax
        · exact hmax
        · exact absurd (hleast.trans_lt hless) (not_lt.mpr hmax.le)
      have hprecision := F.precision_pos
      have hlog : Int.log 2 x < Int.log 2 y := by
        have hmax := le_max_left (Int.log 2 x + 1 - F.precision) F.minExponent
        rw [← lastPlace] at hmax
        omega
      have hbelow : x ≤ 2 ^ Int.log 2 y :=
        (Int.lt_zpow_succ_log_self one_lt_two x).le.trans
          (zpow_le_zpow_right₀ one_le_two (by omega))
      have habove : (2 : ℚ) ^ Int.log 2 y ≤ y :=
        Int.zpow_log_le_self one_lt_two (hpos.trans_le h)
      exact (F.roundMagnitude_le_pow (by omega) hbelow).trans
        (F.pow_le_roundMagnitude (by omega) habove)

/-- A rounded magnitude is a multiple of its own unit. -/
theorem roundMagnitude_multiple (x : ℚ) :
    ∃ n : ℕ, F.roundMagnitude x = n * F.unit (F.roundMagnitude x) := by
  have hprecision := F.precision_pos
  have hbound : F.roundMagnitude x ≤ 2 ^ (F.lastPlace x + F.precision) :=
    F.roundMagnitude_le_pow (by omega) (F.lt_pow_lastPlace x).le
  rcases hbound.eq_or_lt with hpow | hless
  · -- rounded up to the next power of two, which is a multiple of its own unit
    have hlog : Int.log 2 (F.roundMagnitude x) = F.lastPlace x + F.precision := by
      rw [hpow]
      exact Int.log_zpow one_lt_two _
    have hleast : F.minExponent ≤ F.lastPlace x := le_max_right _ _
    have hplace : F.lastPlace (F.roundMagnitude x) ≤ F.lastPlace x + F.precision := by
      rw [lastPlace, hlog]
      exact max_le (by omega) (by omega)
    obtain ⟨n, hn⟩ := exists_pow_eq_natCast_mul hplace
    exact ⟨n, hpow.trans hn⟩
  · rcases (F.roundMagnitude_nonneg x).eq_or_lt with hzero | hpos
    · exact ⟨0, by rw [Nat.cast_zero, zero_mul, ← hzero]⟩
    · -- below it the unit has not grown
      have hlog : Int.log 2 (F.roundMagnitude x) < F.lastPlace x + F.precision :=
        (Int.lt_zpow_iff_log_lt one_lt_two hpos).mp hless
      have hplace : F.lastPlace (F.roundMagnitude x) ≤ F.lastPlace x :=
        max_le (by omega) (le_max_right _ _)
      obtain ⟨m, hm⟩ := exists_pow_eq_natCast_mul hplace
      refine ⟨roundHalfEven (x / F.unit x) * m, ?_⟩
      have hunit : F.unit x = m * F.unit (F.roundMagnitude x) := hm
      calc F.roundMagnitude x = roundHalfEven (x / F.unit x) * F.unit x := rfl
        _ = roundHalfEven (x / F.unit x) * (m * F.unit (F.roundMagnitude x)) := by rw [← hunit]
        _ = (roundHalfEven (x / F.unit x) * m : ℕ) * F.unit (F.roundMagnitude x) := by
          rw [Nat.cast_mul, mul_assoc]

/-! ## The rounding -/

/-- The nearest number of the format. -/
def round (x : ℚ) : ℚ := if 0 ≤ x then F.roundMagnitude x else -F.roundMagnitude (-x)

/-- A number that is not negative is rounded as a magnitude. -/
theorem round_of_nonneg {x : ℚ} (h : 0 ≤ x) : F.round x = F.roundMagnitude x := if_pos h

/-- Zero is a number of the format. -/
@[simp] theorem round_zero : F.round 0 = 0 := by rw [F.round_of_nonneg le_rfl, roundMagnitude_zero]

/-- Rounding commutes with the sign. -/
theorem round_neg (x : ℚ) : F.round (-x) = -F.round x := by
  rcases lt_trichotomy x 0 with hneg | rfl | hpos
  · rw [F.round_of_nonneg (neg_nonneg.mpr hneg.le), round, if_neg (not_le.mpr hneg), neg_neg]
  · rw [neg_zero, round_zero, neg_zero]
  · rw [F.round_of_nonneg hpos.le, round, if_neg (not_le.mpr (neg_neg_of_pos hpos)), neg_neg]

/-- Rounding keeps the order. -/
theorem round_mono : Monotone F.round := by
  intro x y h
  rcases le_or_gt 0 x with hx | hx
  · rw [F.round_of_nonneg hx, F.round_of_nonneg (hx.trans h)]
    exact F.roundMagnitude_mono hx h
  · rw [round, if_neg (not_le.mpr hx)]
    rcases le_or_gt 0 y with hy | hy
    · rw [F.round_of_nonneg hy]
      exact (neg_nonpos.mpr (F.roundMagnitude_nonneg _)).trans (F.roundMagnitude_nonneg _)
    · rw [round, if_neg (not_le.mpr hy)]
      exact neg_le_neg (F.roundMagnitude_mono (neg_nonneg.mpr hy.le) (neg_le_neg h))

/-- A rounded number is a number of the format. -/
theorem round_round (x : ℚ) : F.round (F.round x) = F.round x := by
  have hmagnitude : ∀ y, F.round (F.roundMagnitude y) = F.roundMagnitude y := by
    intro y
    obtain ⟨n, hn⟩ := F.roundMagnitude_multiple y
    rw [F.round_of_nonneg (F.roundMagnitude_nonneg y), F.roundMagnitude_of_multiple hn]
  rcases le_or_gt 0 x with hx | hx
  · rw [F.round_of_nonneg hx, hmagnitude]
  · have hround : F.round x = -F.roundMagnitude (-x) := if_neg (not_le.mpr hx)
    rw [hround, round_neg, hmagnitude]

/-! ## Numbers -/

/-- A number of the format. -/
def Number : Type := {x : ℚ // F.round x = x}

namespace Number

instance : LinearOrder F.Number := inferInstanceAs (LinearOrder {x : ℚ // F.round x = x})

variable {F}

/-- The number nearest to a rational. -/
def ofRat (x : ℚ) : F.Number := ⟨F.round x, F.round_round x⟩

instance : Zero F.Number := ⟨ofRat 0⟩
instance : Neg F.Number := ⟨fun a => ofRat (-a.val)⟩
instance : Add F.Number := ⟨fun a b => ofRat (a.val + b.val)⟩
instance : Sub F.Number := ⟨fun a b => ofRat (a.val - b.val)⟩
instance : Mul F.Number := ⟨fun a b => ofRat (a.val * b.val)⟩
instance : Div F.Number := ⟨fun a b => ofRat (a.val / b.val)⟩

/-- The magnitude of a number. -/
def abs (a : F.Number) : F.Number := max a (-a)

/-- The value of a literal is the rounded rational. -/
@[simp] theorem val_ofRat (x : ℚ) : (ofRat x : F.Number).val = F.round x := rfl

/-- The value of the number zero. -/
@[simp] theorem val_zero : (0 : F.Number).val = 0 := F.round_zero

/-- Negation is exact. -/
@[simp] theorem val_neg (a : F.Number) : (-a).val = -a.val :=
  (F.round_neg a.val).trans (congrArg Neg.neg a.property)

/-- Numbers are ordered by their values. -/
theorem val_le {a b : F.Number} : a ≤ b ↔ a.val ≤ b.val := Iff.rfl

/-- Numbers are strictly ordered by their values. -/
theorem val_lt {a b : F.Number} : a < b ↔ a.val < b.val := Iff.rfl

/-- Literals keep the order of the rationals. -/
theorem ofRat_mono : Monotone (ofRat : ℚ → F.Number) := fun _ _ h => F.round_mono h

/-- A number is the literal of its value. -/
@[simp] theorem ofRat_val (a : F.Number) : ofRat a.val = a := Subtype.ext a.property

/-- A number below a rational is below its rounding. -/
theorem le_ofRat {a : F.Number} {x : ℚ} (h : a.val ≤ x) : a ≤ ofRat x :=
  (ofRat_val a).symm.le.trans (ofRat_mono h)

/-- A number above a rational is above its rounding. -/
theorem ofRat_le {a : F.Number} {x : ℚ} (h : x ≤ a.val) : ofRat x ≤ a :=
  (ofRat_mono h).trans (ofRat_val a).le

/-- A sum with a non-negative number is no smaller. -/
theorem le_add_of_nonneg {a b : F.Number} (h : 0 ≤ b) : a ≤ a + b := by
  have hb : 0 ≤ b.val := val_zero (F := F) ▸ val_le.mp h
  exact le_ofRat (le_add_of_nonneg_right hb)

/-- A difference with a non-negative number is no larger. -/
theorem sub_le_of_nonneg {a b : F.Number} (h : 0 ≤ b) : a - b ≤ a := by
  have hb : 0 ≤ b.val := val_zero (F := F) ▸ val_le.mp h
  exact ofRat_le (sub_le_self a.val hb)

/-- A product with a non-negative number is monotone. -/
protected theorem mul_le_mul_of_nonneg_right {a b c : F.Number} (h : a ≤ b) (hc : 0 ≤ c) :
    a * c ≤ b * c := by
  rw [val_le, val_zero] at hc
  exact ofRat_mono (mul_le_mul_of_nonneg_right h hc)

/-- A quotient by a number that is no larger is at least one. -/
theorem one_le_div {a b : F.Number} (hb : 0 < b) (h : b ≤ a) : ofRat 1 ≤ a / b := by
  rw [val_lt, val_zero] at hb
  exact ofRat_mono ((one_le_div₀ hb).mpr h)

/-! ### Negation and magnitudes -/

/-- Negation turns the order around. -/
protected theorem neg_le_neg {a b : F.Number} (h : a ≤ b) : -b ≤ -a :=
  ofRat_mono (neg_le_neg (val_le.mp h))

/-- Rounding is odd, so that a difference changes its sign with its order. -/
protected theorem neg_sub (a b : F.Number) : -(a - b) = b - a := by
  apply Subtype.ext
  have hround : F.round (-(a.val - b.val)) = -F.round (a.val - b.val) := F.round_neg _
  rw [neg_sub] at hround
  exact (val_neg (a - b)).trans hround.symm

/-- Negation is its own inverse. -/
protected theorem neg_neg (a : F.Number) : -(-a) = a :=
  Subtype.ext (by rw [val_neg, val_neg, neg_neg])

/-- A number and its negation have one magnitude. -/
protected theorem abs_neg (a : F.Number) : (-a).abs = a.abs := by
  rw [abs, abs, Number.neg_neg, max_comm]

/-- The rounded distance of two numbers does not depend on their order. -/
protected theorem abs_sub_comm (a b : F.Number) : (a - b).abs = (b - a).abs := by
  rw [← Number.neg_sub a b, Number.abs_neg]

/-- A difference of numbers of different signs is at least as large as each of them. -/
theorem max_abs_le_abs_sub {a b : F.Number} (ha : a ≤ 0) (hb : 0 ≤ b) :
    max a.abs b.abs ≤ (a - b).abs := by
  have habs : -(a - b) ≤ (a - b).abs := le_max_right _ _
  have hless : -a ≤ -(a - b) := Number.neg_le_neg (sub_le_of_nonneg hb)
  have hzero : -(0 : F.Number) = 0 := Subtype.ext (by rw [val_neg, val_zero, neg_zero])
  have hmore : b ≤ -(a - b) := by
    rw [Number.neg_sub]
    apply le_ofRat
    rw [val_le, val_zero] at ha
    linarith
  have hneg : 0 ≤ -a := hzero ▸ Number.neg_le_neg ha
  have hpos : -b ≤ 0 := hzero ▸ Number.neg_le_neg hb
  have hfirst : a.abs = -a := max_eq_right (ha.trans hneg)
  have hsecond : b.abs = b := max_eq_left (hpos.trans hb)
  rw [hfirst, hsecond]
  exact max_le (hless.trans habs) (hmore.trans habs)

end Number

end BinaryFormat

end SpotRelay.Library.BinaryFloat
