import Mathlib.Logic.Relation
import Mathlib.Tactic.Common

/-!
# Loops with fuel

A loop runs a step that goes on with a new state or stops with a result.  With a measure that every
round lowers, enough fuel gives a result; where an invariant keeps it going, no fuel is enough.
-/

set_option autoImplicit false

namespace SpotRelay.Library.FuelLoop

variable {σ β : Type}

/-- At most `fuel` rounds. -/
def run (step : σ → σ ⊕ β) : ℕ → σ → Option β
  | 0, _ => none
  | fuel + 1, s =>
    match step s with
    | .inl s' => run step fuel s'
    | .inr result => some result

variable {step : σ → σ ⊕ β}

/-- A step that goes on costs one unit of fuel. -/
theorem run_of_goes {fuel : ℕ} {s s' : σ} (hstep : step s = .inl s') :
    run step (fuel + 1) s = run step fuel s' := by
  rw [run, hstep]

/-- A step that stops gives its result. -/
theorem run_of_stops (fuel : ℕ) {s : σ} {result : β} (hstep : step s = .inr result) :
    run step (fuel + 1) s = some result := by
  rw [run, hstep]

/-- More fuel changes no result. -/
theorem run_add {fuel : ℕ} {s : σ} {result : β} (h : run step fuel s = some result) (more : ℕ) :
    run step (fuel + more) s = some result := by
  induction fuel generalizing s with
  | zero => cases h
  | succ fuel ih =>
    rw [Nat.succ_add]
    cases hstep : step s with
    | inl s' =>
      rw [run_of_goes hstep] at h ⊢
      exact ih h
    | inr stopped =>
      rw [run_of_stops _ hstep] at h ⊢
      exact h

/-- There is one result at most. -/
theorem run_unique {fuel fuel' : ℕ} {s : σ} {result result' : β}
    (h : run step fuel s = some result) (h' : run step fuel' s = some result') :
    result = result' := by
  have hmore := run_add h fuel'
  rw [Nat.add_comm, run_add h' fuel] at hmore
  exact (Option.some.inj hmore).symm

/-- One round that goes on. -/
def Goes (step : σ → σ ⊕ β) (s s' : σ) : Prop := step s = .inl s'

/-- A loop that comes to a state where it stops has that result. -/
theorem exists_run_of_goes {s s' : σ} (hgoes : Relation.ReflTransGen (Goes step) s s') {result : β}
    (hstops : step s' = .inr result) : ∃ fuel, run step fuel s = some result := by
  induction hgoes using Relation.ReflTransGen.head_induction_on with
  | refl => exact ⟨1, run_of_stops 0 hstops⟩
  | head hstep _ ih =>
    obtain ⟨fuel, hfuel⟩ := ih
    exact ⟨fuel + 1, (run_of_goes hstep).trans hfuel⟩

/-- With a measure that every round lowers the loop stops, and its result is good. -/
theorem exists_run_of_measure (measure : σ → ℕ) (I : σ → Prop) (Good : β → Prop)
    (hround : ∀ s, I s → (∃ s', step s = .inl s' ∧ I s' ∧ measure s' < measure s) ∨
      ∃ result, step s = .inr result ∧ Good result) {s : σ} (hs : I s) :
    ∃ fuel result, run step fuel s = some result ∧ Good result := by
  induction hn : measure s using Nat.strongRecOn generalizing s with
  | ind n ih =>
    rcases hround s hs with ⟨s', hstep, hs', hless⟩ | ⟨result, hstep, hgood⟩
    · obtain ⟨fuel, result, hresult, hgood⟩ := ih (measure s') (hn ▸ hless) hs' rfl
      exact ⟨fuel + 1, result, (run_of_goes hstep).trans hresult, hgood⟩
    · exact ⟨1, result, run_of_stops 0 hstep, hgood⟩

/-- An invariant that keeps the loop going leaves it without a result. -/
theorem run_eq_none (I : σ → Prop) (hround : ∀ s, I s → ∃ s', step s = .inl s' ∧ I s') (fuel : ℕ)
    {s : σ} (hs : I s) : run step fuel s = none := by
  induction fuel generalizing s with
  | zero => rfl
  | succ fuel ih =>
    obtain ⟨s', hstep, hs'⟩ := hround s hs
    rw [run_of_goes hstep]
    exact ih hs'

end SpotRelay.Library.FuelLoop
