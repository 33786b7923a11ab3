import Mathlib.Algebra.BigOperators.Group.Finset.Piecewise
import Mathlib.Tactic.Common

/-!
# A flag that one task holds

Tasks stand in phases, some of which hold a flag.  An atomic exchange gives the flag to a task only
if no other has it, so the flag is set exactly while one task holds it, and that task is the only
one.
-/

set_option autoImplicit false

namespace SpotRelay.Library

variable {ι α : Type} {holds : α → Bool} {flag : Bool} {phase : ι → α}

/-- The flag is set exactly while a task holds it, and never held twice. -/
structure FlagHolder (holds : α → Bool) (flag : Bool) (phase : ι → α) : Prop where
  active : flag = true → ∃ task, holds (phase task) = true
  taken : ∀ task, holds (phase task) = true → flag = true
  exclusive : ∀ i j, holds (phase i) = true → holds (phase j) = true → i = j

variable [DecidableEq ι] {task : ι} {a : α}

/-- A step of a task keeps what some task satisfies, unless that task alone did and does no more. -/
theorem exists_update {p : α → Bool} (h : ∃ other, p (phase other) = true)
    (hstep : p (phase task) = true → p a = true) :
    ∃ other, p (Function.update phase task a other) = true := by
  obtain ⟨other, hother⟩ := h
  by_cases heq : other = task
  · refine ⟨task, ?_⟩
    rw [Function.update_self]
    exact hstep (heq ▸ hother)
  · refine ⟨other, ?_⟩
    rw [Function.update_of_ne heq]
    exact hother

/-- What holds of a value holds of the place it is written to. -/
theorem exists_update_self {p : α → Bool} (h : p a = true) :
    ∃ other, p (Function.update phase task a other) = true := by
  refine ⟨task, ?_⟩
  rw [Function.update_self]
  exact h

/-- What the tasks of a set weigh in their phases. -/
def weight (g : α → ℕ) (tasks : Finset ι) (phase : ι → α) : ℕ := ∑ i ∈ tasks, g (phase i)

/-- A step of one task of the set. -/
theorem weight_update (g : α → ℕ) {tasks : Finset ι} (htask : task ∈ tasks) :
    weight g tasks (Function.update phase task a) + g (phase task) =
      weight g tasks phase + g a := by
  have hsplit := Finset.sum_sdiff (f := fun i => g (phase i))
    (Finset.singleton_subset_iff.mpr htask)
  rw [Finset.sum_singleton] at hsplit
  unfold weight
  rw [Finset.sum_congr rfl fun i _ => Function.apply_update (fun _ => g) phase task a i,
    Finset.sum_update_of_mem htask]
  omega

namespace FlagHolder

/-- A task that does not hold the flag after its step leaves the holders as they were, less
itself. -/
theorem holds_of_update (ha : holds a = false) {other : ι}
    (hother : holds (Function.update phase task a other) = true) :
    other ≠ task ∧ holds (phase other) = true := by
  by_cases heq : other = task
  · rw [heq, Function.update_self, ha] at hother
    cases hother
  · rw [Function.update_of_ne heq] at hother
    exact ⟨heq, hother⟩

/-- A step in which the task neither takes nor gives up the flag. -/
theorem pass (h : FlagHolder holds flag phase) (hsame : holds a = holds (phase task)) :
    FlagHolder holds flag (Function.update phase task a) := by
  have hupdate : ∀ other, holds (Function.update phase task a other) = holds (phase other) := by
    intro other
    by_cases heq : other = task
    · rw [heq, Function.update_self, hsame]
    · rw [Function.update_of_ne heq]
  constructor
  · simpa only [hupdate] using h.active
  · simpa only [hupdate] using h.taken
  · simpa only [hupdate] using h.exclusive

/-- The exchange finds the flag clear. -/
theorem takes (h : FlagHolder holds false phase) (ha : holds a = true) :
    FlagHolder holds true (Function.update phase task a) := by
  have hnone : ∀ other, holds (Function.update phase task a other) = true → other = task := by
    intro other hother
    by_contra hne
    rw [Function.update_of_ne hne] at hother
    exact Bool.noConfusion (h.taken other hother)
  constructor
  · exact fun _ => exists_update_self ha
  · exact fun _ _ => rfl
  · exact fun i j hi hj => (hnone i hi).trans (hnone j hj).symm

/-- The holder clears the flag. -/
theorem givesUp (h : FlagHolder holds flag phase) (htask : holds (phase task) = true)
    (ha : holds a = false) : FlagHolder holds false (Function.update phase task a) := by
  have hnone : ∀ other, ¬ holds (Function.update phase task a other) = true := by
    intro other hother
    obtain ⟨hne, hheld⟩ := holds_of_update ha hother
    exact hne (h.exclusive other task hheld htask)
  constructor
  · exact fun hset => Bool.noConfusion hset
  · exact fun other hother => absurd hother (hnone other)
  · exact fun i _ hi => absurd hi (hnone i)

end FlagHolder

end SpotRelay.Library
