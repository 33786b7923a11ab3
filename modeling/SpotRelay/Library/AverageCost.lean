import Mathlib.Algebra.Order.Field.Basic
import Mathlib.Tactic.FieldSimp
import Mathlib.Tactic.Ring

/-!
# Average-cost accounting

A holding is carried at its total cost.  Closing part of it takes out the same share of the
cost, so the average cost of a coin does not move and the part taken out is the closed
quantity at that average.
-/

set_option autoImplicit false

namespace SpotRelay.Library.AverageCost

variable {K : Type} [Field K]

/-- The cost that stays when `quantity` of `held` is closed. -/
def reduceCost (cost held quantity : K) : K := cost * (1 - quantity / held)

/-- Closing takes out the closed quantity at the average cost. -/
theorem reduceCost_eq (cost held quantity : K) :
    reduceCost cost held quantity = cost - cost / held * quantity := by
  unfold reduceCost
  ring

/-- Closing everything takes out the whole cost. -/
theorem reduceCost_self (cost : K) {held : K} (h : held ≠ 0) : reduceCost cost held held = 0 := by
  unfold reduceCost
  rw [div_self h, sub_self, mul_zero]

/-- Closing no more than is held keeps the cost between nothing and what it was. -/
theorem reduceCost_mem [LinearOrder K] [IsStrictOrderedRing K] {cost held quantity : K}
    (hcost : 0 ≤ cost) (hheld : 0 < held) (hquantity : 0 ≤ quantity) (hle : quantity ≤ held) :
    0 ≤ reduceCost cost held quantity ∧ reduceCost cost held quantity ≤ cost := by
  have hshare : 0 ≤ quantity / held := div_nonneg hquantity hheld.le
  have hwhole : quantity / held ≤ 1 := (div_le_one hheld).mpr hle
  unfold reduceCost
  constructor
  · exact mul_nonneg hcost (sub_nonneg.mpr hwhole)
  · exact mul_le_of_le_one_right hcost (sub_le_self 1 hshare)

end SpotRelay.Library.AverageCost
