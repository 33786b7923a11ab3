import Mathlib.Algebra.BigOperators.Group.List.Basic

/-!
# Totals that start over

`runningTotal` adds up an observable over a trace and starts again from zero at every marked
element: the balance of an account since its last settlement.
-/

set_option autoImplicit false

namespace SpotRelay.Library.RunningTotal

variable {α M : Type} [AddCommMonoid M]

/-- The sum of `f` since the last marked element, or since `acc` when there is none. -/
def runningTotal (isMark : α → Bool) (f : α → M) : M → List α → M
  | acc, [] => acc
  | acc, x :: xs => runningTotal isMark f (if isMark x then 0 else acc + f x) xs

variable {isMark : α → Bool} {f : α → M}

/-- Without elements the total is what was carried. -/
@[simp] theorem runningTotal_nil (acc : M) : runningTotal isMark f acc [] = acc := rfl

/-- A mark resets the total, any other element is added to it. -/
@[simp] theorem runningTotal_cons (acc : M) (x : α) (xs : List α) :
    runningTotal isMark f acc (x :: xs) =
      runningTotal isMark f (if isMark x then 0 else acc + f x) xs := rfl

/-- Totals are carried through two lists in turn. -/
@[simp] theorem runningTotal_append (acc : M) (xs ys : List α) :
    runningTotal isMark f acc (xs ++ ys) =
      runningTotal isMark f (runningTotal isMark f acc xs) ys := by
  induction xs generalizing acc with
  | nil => rfl
  | cons x xs ih => simp [ih]

/-- Without a mark the total grows by the plain sum. -/
theorem runningTotal_of_no_mark (acc : M) (xs : List α) (h : ∀ x ∈ xs, isMark x = false) :
    runningTotal isMark f acc xs = acc + (xs.map f).sum := by
  induction xs generalizing acc with
  | nil => simp
  | cons x xs ih =>
    have hx : isMark x = false := h x (by simp)
    rw [runningTotal_cons, hx, ih _ fun y hy => h y (by simp [hy])]
    simp [add_assoc]

end SpotRelay.Library.RunningTotal
