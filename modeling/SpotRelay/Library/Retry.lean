import Mathlib.Data.List.Basic
import Mathlib.Data.List.TakeWhile

/-!
# Bounded retries

A retry loop works through a tape of attempts and stops after the first one that ends it.
`made` is the list of attempts it makes; everything but its last element was followed by
another attempt, and an effect that no other attempt follows happens at most once.
-/

set_option autoImplicit false

namespace SpotRelay.Library.Retry

variable {α : Type}

/-- The attempts that are made. -/
def made (ends : α → Bool) : List α → List α
  | [] => []
  | a :: rest => if ends a then [a] else a :: made ends rest

/-- Nothing is tried only where there is nothing to try. -/
theorem made_eq_nil_iff (ends : α → Bool) (tape : List α) : made ends tape = [] ↔ tape = [] := by
  cases tape with
  | nil => simp [made]
  | cons a rest => by_cases h : ends a <;> simp [made, h]

/-- The attempts that another one follows: the ones before the last of the tape, up to the
first that ends the loop. -/
theorem dropLast_made (ends : α → Bool) (tape : List α) :
    (made ends tape).dropLast = tape.dropLast.takeWhile fun a => !ends a := by
  induction tape with
  | nil => rfl
  | cons a rest ih =>
    cases rest with
    | nil => by_cases h : ends a <;> simp [made, h]
    | cons b rest =>
      by_cases h : ends a
      · simp [made, h]
      · have hne : made ends (b :: rest) ≠ [] := by
          rw [ne_eq, made_eq_nil_iff]
          simp
        have hmade : made ends (a :: b :: rest) = a :: made ends (b :: rest) := by
          rw [made, if_neg h]
        rw [hmade, List.dropLast_cons_of_ne_nil hne, ih,
          List.dropLast_cons_of_ne_nil (List.cons_ne_nil b rest)]
        simp [h]

/-- A property of every attempt that another one follows. -/
theorem pairwise_left_iff (p : α → Prop) (xs : List α) :
    xs.Pairwise (fun a _ => p a) ↔ ∀ a ∈ xs.dropLast, p a := by
  induction xs with
  | nil => simp
  | cons a rest ih =>
    cases rest with
    | nil => simp
    | cons b rest =>
      rw [List.pairwise_cons, ih, List.dropLast_cons_of_ne_nil (List.cons_ne_nil b rest)]
      constructor
      · rintro ⟨ha, hrest⟩
        exact List.forall_mem_cons.mpr ⟨ha b (by simp), hrest⟩
      · intro h
        exact ⟨fun _ _ => h a (by simp), fun c hc => h c (by simp [hc])⟩

/-- An effect that no other attempt follows happens at most once. -/
theorem countP_le_one (effect : α → Bool) {xs : List α}
    (h : xs.Pairwise fun a _ => effect a = false) : xs.countP effect ≤ 1 := by
  induction xs with
  | nil => simp
  | cons a rest ih =>
    rw [List.pairwise_cons] at h
    by_cases ha : effect a = true
    · have hrest : rest = [] := by
        cases rest with
        | nil => rfl
        | cons b rest => exact absurd (h.1 b (by simp)) (by simp [ha])
      simp [hrest, ha]
    · rw [List.countP_cons_of_neg ha]
      exact ih h.2

end SpotRelay.Library.Retry
