import Mathlib.Data.Int.ModEq
import Mathlib.Data.Nat.Bitwise

/-!
# Serial numbers

A counter that is kept in a word of `w` bits.  Two of its values that lie less than half a turn
apart are ordered by the signed difference of their words.
-/

set_option autoImplicit false

namespace SpotRelay.Library.SerialNumber

/-- The word that a counter value is kept in. -/
def word (w n : ℕ) : ℕ := n % 2 ^ w

/-- The signed difference of two words, which wraps around. -/
def distance (w a b : ℕ) : ℤ := ((word w a : ℤ) - word w b).bmod (2 ^ w)

variable {w a b : ℕ}

/-- Two numbers less than half the range apart have the distance of the integers. -/
theorem distance_eq (hlow : 2 * b ≤ 2 * a + 2 ^ w) (hhigh : 2 * a < 2 * b + 2 ^ w) :
    distance w a b = (a : ℤ) - b := by
  have hwrap : ((word w a : ℤ) - word w b) % ((2 ^ w : ℕ) : ℤ) = ((a : ℤ) - b) % (2 ^ w : ℕ) := by
    rw [word, word, Int.natCast_mod, Int.natCast_mod, ← Int.sub_emod]
  rw [distance, ← Int.emod_bmod, hwrap, Int.emod_bmod]
  apply Int.bmod_eq_of_le_mul_two
  · omega
  · omega

/-- Words tell two values apart that are less than a turn apart. -/
theorem eq_of_word_eq (hle : b ≤ a) (hlt : a < b + 2 ^ w) (h : word w a = word w b) : a = b := by
  have hdvd : 2 ^ w ∣ a - b := (Nat.modEq_iff_dvd' hle).mp h.symm
  have hzero := Nat.eq_zero_of_dvd_of_lt hdvd (by omega)
  omega

/-- The lowest bits of a word. -/
theorem word_land_mask {k : ℕ} (hk : k ≤ w) (n : ℕ) : word w n &&& (2 ^ k - 1) = n % 2 ^ k := by
  rw [Nat.and_two_pow_sub_one_eq_mod, word, Nat.mod_mod_of_dvd]
  exact Nat.pow_dvd_pow 2 hk

end SpotRelay.Library.SerialNumber
