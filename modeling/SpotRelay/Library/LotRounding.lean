import Mathlib.Algebra.Order.Floor.Ring
import Mathlib.Algebra.Order.Field.Basic
import Mathlib.Tactic.Linarith
import Mathlib.Tactic.Ring

/-!
# Rounding to lots

A quantity is rounded to a multiple of a lot step, up or down.  A quantity that misses a multiple
by no more than a tolerance, given in lots, counts as that multiple.
-/

set_option autoImplicit false

namespace SpotRelay.Library.LotRounding

variable {K : Type} [Field K] [LinearOrder K] [IsStrictOrderedRing K] [FloorRing K]

/-- The least multiple of `step` that `x` exceeds by no more than `tol` lots. -/
def roundUp (tol step x : K) : K := ⌈x / step - tol⌉ * step

/-- The largest multiple of `step` that exceeds `x` by no more than `tol` lots. -/
def roundDown (tol step x : K) : K := ⌊x / step + tol⌋ * step

variable {tol step x bound : K}

/-! ## Up -/

/-- Rounding up loses no more than the tolerance. -/
theorem le_roundUp (hstep : 0 < step) : x - tol * step ≤ roundUp tol step x := by
  have hceil : x / step - tol ≤ ⌈x / step - tol⌉ := Int.le_ceil _
  calc x - tol * step = (x / step - tol) * step := by
        rw [sub_mul, div_mul_cancel₀ _ hstep.ne']
    _ ≤ roundUp tol step x := mul_le_mul_of_nonneg_right hceil hstep.le

/-- Rounding up stops at the first multiple that is large enough. -/
theorem roundUp_le_multiple (hstep : 0 < step) {k : ℤ} (h : x - tol * step ≤ k * step) :
    roundUp tol step x ≤ k * step := by
  have hlots : x / step - tol ≤ k := by
    apply le_of_mul_le_mul_right _ hstep
    rwa [sub_mul, div_mul_cancel₀ _ hstep.ne']
  have hceil : (⌈x / step - tol⌉ : K) ≤ k := by exact_mod_cast Int.ceil_le.mpr hlots
  exact mul_le_mul_of_nonneg_right hceil hstep.le

/-- What is rounded up stays below a bound when a large enough multiple does. -/
theorem roundUp_le_iff (hstep : 0 < step) :
    roundUp tol step x ≤ bound ↔ ∃ k : ℤ, x - tol * step ≤ k * step ∧ k * step ≤ bound := by
  constructor
  · intro h
    exact ⟨⌈x / step - tol⌉, le_roundUp hstep, h⟩
  · rintro ⟨k, hlow, hhigh⟩
    exact (roundUp_le_multiple hstep hlow).trans hhigh

/-- Rounding up finds the least multiple of the step that is not below the value, up to the
tolerance. -/
theorem isLeast_roundUp (hstep : 0 < step) :
    IsLeast {a | (∃ k : ℤ, a = k * step) ∧ x - tol * step ≤ a} (roundUp tol step x) := by
  refine ⟨⟨⟨_, rfl⟩, le_roundUp hstep⟩, ?_⟩
  rintro a ⟨⟨k, rfl⟩, hk⟩
  exact roundUp_le_multiple hstep hk

/-- Only what the tolerance covers is rounded up to nothing. -/
theorem roundUp_pos_iff (hstep : 0 < step) : 0 < roundUp tol step x ↔ tol * step < x := by
  unfold roundUp
  rw [mul_pos_iff_of_pos_right hstep, Int.cast_pos, Int.ceil_pos, sub_pos, lt_div_iff₀ hstep]

/-- A multiple is its own rounding. -/
theorem roundUp_multiple (hstep : 0 < step) (htol : 0 ≤ tol) (hless : tol < 1) (k : ℤ) :
    roundUp tol step (k * step) = k * step := by
  have hceil : ⌈(k : K) - tol⌉ = k := by
    rw [Int.ceil_eq_iff]
    constructor <;> linarith
  rw [roundUp, mul_div_cancel_right₀ _ hstep.ne', hceil]

/-! ## Down -/

/-- Rounding down gains no more than the tolerance. -/
theorem roundDown_le (hstep : 0 < step) : roundDown tol step x ≤ x + tol * step := by
  have hfloor : (⌊x / step + tol⌋ : K) ≤ x / step + tol := Int.floor_le _
  calc roundDown tol step x ≤ (x / step + tol) * step :=
        mul_le_mul_of_nonneg_right hfloor hstep.le
    _ = x + tol * step := by rw [add_mul, div_mul_cancel₀ _ hstep.ne']

/-- Rounding down stops at the last multiple that is small enough. -/
theorem multiple_le_roundDown (hstep : 0 < step) {k : ℤ} (h : k * step ≤ x + tol * step) :
    k * step ≤ roundDown tol step x := by
  have hlots : (k : K) ≤ x / step + tol := by
    apply le_of_mul_le_mul_right _ hstep
    rwa [add_mul, div_mul_cancel₀ _ hstep.ne']
  have hfloor : (k : K) ≤ ⌊x / step + tol⌋ := by exact_mod_cast Int.le_floor.mpr hlots
  exact mul_le_mul_of_nonneg_right hfloor hstep.le

/-- Rounding down finds the greatest multiple of the step that is not above the value, up to the
tolerance. -/
theorem isGreatest_roundDown (hstep : 0 < step) :
    IsGreatest {a | (∃ k : ℤ, a = k * step) ∧ a ≤ x + tol * step} (roundDown tol step x) := by
  refine ⟨⟨⟨_, rfl⟩, roundDown_le hstep⟩, ?_⟩
  rintro a ⟨⟨k, rfl⟩, hk⟩
  exact multiple_le_roundDown hstep hk

/-- What is rounded down stays below a bound when every small enough multiple does. -/
theorem roundDown_le_iff (hstep : 0 < step) :
    roundDown tol step x ≤ bound ↔ ∀ k : ℤ, k * step ≤ x + tol * step → k * step ≤ bound := by
  constructor
  · intro h k hk
    exact (multiple_le_roundDown hstep hk).trans h
  · intro h
    exact h _ (roundDown_le hstep)

/-- Rounding down loses less than a lot. -/
theorem sub_lt_roundDown (hstep : 0 < step) (htol : 0 ≤ tol) :
    x - step < roundDown tol step x := by
  have hfloor : x / step + tol < ⌊x / step + tol⌋ + 1 := Int.lt_floor_add_one _
  have hlots : x / step - 1 < ⌊x / step + tol⌋ := by linarith
  calc x - step = (x / step - 1) * step := by
        rw [sub_mul, div_mul_cancel₀ _ hstep.ne', one_mul]
    _ < roundDown tol step x := mul_lt_mul_of_pos_right hlots hstep

/-- Rounding down keeps the order. -/
theorem roundDown_mono (hstep : 0 < step) {y : K} (h : x ≤ y) :
    roundDown tol step x ≤ roundDown tol step y := by
  have hlots : x / step + tol ≤ y / step + tol :=
    add_le_add_left (div_le_div_of_nonneg_right h hstep.le) tol
  have hfloor : (⌊x / step + tol⌋ : K) ≤ ⌊y / step + tol⌋ := by exact_mod_cast Int.floor_mono hlots
  exact mul_le_mul_of_nonneg_right hfloor hstep.le

/-- A multiple is its own rounding. -/
theorem roundDown_multiple (hstep : 0 < step) (htol : 0 ≤ tol) (hless : tol < 1) (k : ℤ) :
    roundDown tol step (k * step) = k * step := by
  have hfloor : ⌊(k : K) + tol⌋ = k := by
    rw [Int.floor_eq_iff]
    constructor <;> linarith
  rw [roundDown, mul_div_cancel_right₀ _ hstep.ne', hfloor]

end SpotRelay.Library.LotRounding
