import Mathlib.Algebra.Order.Field.Basic
import Mathlib.Tactic.Linarith
import Mathlib.Tactic.Ring

/-!
# Relative tolerance and the drift it allows

Two quantities are close when their distance is at most a fraction of the larger one.  When
a bookkeeper records the smaller of two close quantities again and again, the recorded total
stays within the same fraction of everything that was moved.
-/

set_option autoImplicit false

namespace SpotRelay.Library.Tolerance

variable {K : Type} [Field K] [LinearOrder K] [IsStrictOrderedRing K]

/-- The distance of `a` and `b` is at most `ε` of the larger magnitude. -/
def Close (ε a b : K) : Prop := |a - b| ≤ ε * max |a| |b|

/-- A bound on both magnitudes bounds the distance of close quantities. -/
theorem Close.abs_sub_le {ε a b t : K} (hε : 0 ≤ ε) (h : Close ε a b) (ha : |a| ≤ t)
    (hb : |b| ≤ t) : |a - b| ≤ ε * t :=
  h.trans (mul_le_mul_of_nonneg_left (max_le ha hb) hε)

/-- A tolerance below one keeps the sign: what is close to a nonnegative quantity is
nonnegative. -/
theorem Close.nonneg {ε a b : K} (hε : ε < 1) (h : Close ε a b) (hb : 0 ≤ b) : 0 ≤ a := by
  by_contra hneg
  have ha : a < 0 := not_le.mp hneg
  have hsum : max |a| |b| ≤ |a - b| := by
    rw [abs_of_neg ha, abs_of_nonneg hb, abs_of_nonpos (by linarith)]
    apply max_le
    · linarith
    · linarith
  have hpos : 0 < max |a| |b| := lt_max_of_lt_left (abs_pos.mpr ha.ne)
  have hless : ε * max |a| |b| < max |a| |b| := mul_lt_of_lt_one_left hpos hε
  exact absurd (hsum.trans h) (not_le.mpr hless)

/-- The smaller of two quantities is no further from either than they are apart. -/
theorem abs_sub_min_le (a b : K) : |a - min a b| ≤ |a - b| ∧ |b - min a b| ≤ |a - b| := by
  rcases le_total a b with h | h
  · rw [min_eq_left h, sub_self, abs_zero, abs_sub_comm b a]
    exact ⟨abs_nonneg _, le_refl _⟩
  · rw [min_eq_right h, sub_self, abs_zero]
    exact ⟨le_refl _, abs_nonneg _⟩

/-- `actual` has drifted from `booked` by at most `ε` of the volume `moved`. -/
def Drift (ε actual booked moved : K) : Prop := |actual - booked| ≤ ε * moved

/-- Drifts of consecutive movements add up. -/
theorem Drift.add {ε a b t a' b' t' : K} (h : Drift ε a b t) (h' : Drift ε a' b' t') :
    Drift ε (a + a') (b + b') (t + t') := by
  unfold Drift at *
  have hsplit : a + a' - (b + b') = (a - b) + (a' - b') := by ring
  calc |a + a' - (b + b')| = |(a - b) + (a' - b')| := by rw [hsplit]
    _ ≤ |a - b| + |a' - b'| := abs_add_le _ _
    _ ≤ ε * t + ε * t' := add_le_add h h'
    _ = ε * (t + t') := by ring

omit [IsStrictOrderedRing K] in
/-- The same movement on the other side of the account drifts by the same amount. -/
theorem Drift.neg {ε a b t : K} (h : Drift ε a b t) : Drift ε (-a) (-b) t := by
  unfold Drift at *
  have hneg : -a - -b = -(a - b) := by ring
  rw [hneg, abs_neg]
  exact h

/-- Movements that are booked exactly do not drift. -/
theorem drift_self {ε t : K} (hε : 0 ≤ ε) (ht : 0 ≤ t) (a : K) : Drift ε a a t := by
  unfold Drift
  rw [sub_self, abs_zero]
  exact mul_nonneg hε ht

/-- Booking the smaller of two close movements drifts by at most `ε` on either side. -/
theorem drift_min {ε a b t : K} (hε : 0 ≤ ε) (h : Close ε a b) (ha : |a| ≤ t) (hb : |b| ≤ t) :
    Drift ε a (min a b) t ∧ Drift ε b (min a b) t := by
  have hab := h.abs_sub_le hε ha hb
  obtain ⟨h₁, h₂⟩ := abs_sub_min_le a b
  exact ⟨h₁.trans hab, h₂.trans hab⟩

end SpotRelay.Library.Tolerance
