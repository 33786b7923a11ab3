import Mathlib.Data.List.Basic
import Mathlib.Tactic.Common

/-!
# Runs of a step function

A run is a left fold of a step function over the inputs it meets.  `Along P step s xs` says
that `P` holds of every state and input the run `xs` from `s` passes through; the invariant
rule turns a one-step fact into a fact about the state a whole run ends in.
-/

set_option autoImplicit false

namespace SpotRelay.Library.Run

variable {σ ι : Type}

/-- `P` holds before every step of the run. -/
def Along (P : σ → ι → Prop) (step : σ → ι → σ) : σ → List ι → Prop
  | _, [] => True
  | s, x :: xs => P s x ∧ Along P step (step s x) xs

variable {P Q : σ → ι → Prop} {step : σ → ι → σ}

/-- A condition holds along the empty run. -/
@[simp] theorem along_nil (s : σ) : Along P step s [] := trivial

/-- A condition holds along a run when it holds of the first event and along the rest. -/
@[simp] theorem along_cons (s : σ) (x : ι) (xs : List ι) :
    Along P step s (x :: xs) ↔ P s x ∧ Along P step (step s x) xs :=
  Iff.rfl

/-- What holds before every step weakens. -/
theorem Along.mono (h : ∀ s x, P s x → Q s x) {s : σ} {xs : List ι} (hrun : Along P step s xs) :
    Along Q step s xs := by
  induction xs generalizing s with
  | nil => trivial
  | cons x xs ih => exact ⟨h s x hrun.1, ih hrun.2⟩

/-- A condition holds along two runs in turn when it holds along each. -/
theorem along_append (s : σ) (xs ys : List ι) :
    Along P step s (xs ++ ys) ↔ Along P step s xs ∧ Along P step (xs.foldl step s) ys := by
  induction xs generalizing s with
  | nil => exact (and_iff_right trivial).symm
  | cons x xs ih => exact (and_congr_right fun _ => ih (step s x)).trans (and_assoc).symm

/-- Whether every step of a run is allowed can be evaluated. -/
instance Along.decidable [hP : ∀ s x, Decidable (P s x)] :
    ∀ (s : σ) (xs : List ι), Decidable (Along P step s xs)
  | _, [] => isTrue trivial
  | s, x :: xs =>
    match hP s x, Along.decidable (step s x) xs with
    | isTrue hx, isTrue hxs => isTrue ⟨hx, hxs⟩
    | isFalse hx, _ => isFalse fun h => hx h.1
    | _, isFalse hxs => isFalse fun h => hxs h.2

/-- A property that each allowed step keeps holds at the end of every allowed run. -/
theorem invariant (I : σ → Prop) (hstep : ∀ s x, I s → P s x → I (step s x))
    (xs : List ι) (s : σ) (hs : I s) (hrun : Along P step s xs) : I (xs.foldl step s) := by
  induction xs generalizing s with
  | nil => exact hs
  | cons x xs ih => exact ih (step s x) (hstep s x hs hrun.1) hrun.2

/-- A property that holds at the start of a run and not at its end is lost at some step of it. -/
theorem exists_of_lost (I : σ → Prop) (hstep : ∀ s x, I s → ¬ Q s x → I (step s x))
    (xs : List ι) (s : σ) (hs : I s) (hend : ¬ I (xs.foldl step s)) :
    ∃ done x rest, xs = done ++ x :: rest ∧ Q (done.foldl step s) x := by
  induction xs generalizing s with
  | nil => exact absurd hs hend
  | cons x xs ih =>
    by_cases hx : Q s x
    · exact ⟨[], x, xs, rfl, hx⟩
    · obtain ⟨done, y, rest, rfl, hy⟩ := ih (step s x) (hstep s x hs hx) hend
      exact ⟨x :: done, y, rest, rfl, hy⟩

/-- Where a step keeps a property exactly if it is allowed, the property holds throughout a run
exactly if every step of the run is. -/
theorem throughout_iff (I : σ → Prop) (hstep : ∀ s x, I s → (I (step s x) ↔ P s x)) (xs : List ι)
    (s : σ) (hs : I s) : (∀ done, done <+: xs → I (done.foldl step s)) ↔ Along P step s xs := by
  induction xs generalizing s with
  | nil =>
    refine ⟨fun _ => trivial, ?_⟩
    rintro - done hdone
    rw [List.prefix_nil.mp hdone]
    exact hs
  | cons x xs ih =>
    constructor
    · intro h
      have hone : I (step s x) := h [x] ⟨xs, rfl⟩
      refine ⟨(hstep s x hs).mp hone, (ih (step s x) hone).mp ?_⟩
      intro done hdone
      exact h (x :: done) ((List.prefix_cons_inj x).mpr hdone)
    · rintro ⟨hx, hxs⟩ done hdone
      cases done with
      | nil => exact hs
      | cons y done =>
        obtain ⟨rfl, hrest⟩ := List.cons_prefix_cons.mp hdone
        exact (ih (step s y) ((hstep s y hs).mpr hx)).mpr hxs done hrest

/-- Conditions that agree on every allowed step from a state of the invariant agree along every
allowed run, where one of them keeps the invariant. -/
theorem along_iff_of_keeps {H : σ → ι → Prop} (I : σ → Prop)
    (hiff : ∀ s x, I s → H s x → (P s x ↔ Q s x))
    (hkeeps : ∀ s x, I s → H s x → P s x → I (step s x)) (xs : List ι) (s : σ) (hs : I s)
    (hrun : Along H step s xs) : Along P step s xs ↔ Along Q step s xs := by
  induction xs generalizing s with
  | nil => exact Iff.rfl
  | cons x xs ih =>
    obtain ⟨hx, hxs⟩ := hrun
    constructor
    · rintro ⟨hp, hps⟩
      exact ⟨(hiff s x hs hx).mp hp, (ih _ (hkeeps s x hs hx hp) hxs).mp hps⟩
    · rintro ⟨hq, hqs⟩
      have hp := (hiff s x hs hx).mpr hq
      exact ⟨hp, (ih _ (hkeeps s x hs hx hp) hxs).mpr hqs⟩

/-- Conditions that agree on every step agree along every run. -/
theorem along_congr (h : ∀ s x, P s x ↔ Q s x) (s : σ) (xs : List ι) :
    Along P step s xs ↔ Along Q step s xs := by
  induction xs generalizing s with
  | nil => exact Iff.rfl
  | cons x xs ih => exact and_congr (h s x) (ih (step s x))

/-- A run that is not allowed throughout has a step that is not. -/
theorem exists_of_not_along (xs : List ι) (s : σ) (hrun : ¬ Along P step s xs) :
    ∃ done x rest, xs = done ++ x :: rest ∧ ¬ P (done.foldl step s) x := by
  induction xs generalizing s with
  | nil => exact absurd trivial hrun
  | cons x xs ih =>
    by_cases hx : P s x
    · obtain ⟨done, y, rest, rfl, hy⟩ := ih (step s x) fun hxs => hrun ⟨hx, hxs⟩
      exact ⟨x :: done, y, rest, rfl, hy⟩
    · exact ⟨[], x, xs, rfl, hx⟩

/-- The first step that is not allowed comes from a state of any invariant of the allowed ones. -/
theorem exists_first_of_not_along (I : σ → Prop) (xs : List ι) (s : σ)
    (hstep : ∀ s, ∀ x ∈ xs, I s → P s x → I (step s x)) (hs : I s)
    (hrun : ¬ Along P step s xs) :
    ∃ done x rest, xs = done ++ x :: rest ∧ I (done.foldl step s) ∧ ¬ P (done.foldl step s) x := by
  induction xs generalizing s with
  | nil => exact absurd trivial hrun
  | cons x xs ih =>
    by_cases hx : P s x
    · obtain ⟨done, y, rest, rfl, hdone, hy⟩ := ih (step s x)
        (fun t y hy => hstep t y (List.mem_cons_of_mem x hy))
        (hstep s x List.mem_cons_self hs hx) fun hxs => hrun ⟨hx, hxs⟩
      exact ⟨x :: done, y, rest, rfl, hdone, hy⟩
    · exact ⟨[], x, xs, rfl, hs, hx⟩

/-- What the steps of a run emit, in order. -/
def emissions {ε : Type} (emit : σ → ι → Option ε) (step : σ → ι → σ) : σ → List ι → List ε
  | _, [] => []
  | s, x :: xs => (emit s x).toList ++ emissions emit step (step s x) xs

/-- Every emission of a run is good exactly if each step emits nothing else. -/
theorem forall_emissions_iff {ε : Type} (emit : σ → ι → Option ε) (G : ε → Prop) (s : σ)
    (xs : List ι) :
    (∀ e ∈ emissions emit step s xs, G e) ↔
      Along (fun s x => ∀ e, emit s x = some e → G e) step s xs := by
  induction xs generalizing s with
  | nil => simp [emissions]
  | cons x xs ih =>
    rw [along_cons, ← ih]
    simp only [emissions, List.mem_append, Option.mem_toList, or_imp, forall_and]

/-- A property of the inputs alone may be added to what holds before each step. -/
theorem Along.and_forall {R : ι → Prop} {s : σ} {xs : List ι} (hrun : Along P step s xs)
    (hR : ∀ x ∈ xs, R x) : Along (fun s x => P s x ∧ R x) step s xs := by
  induction xs generalizing s with
  | nil => exact trivial
  | cons x xs ih =>
    refine ⟨⟨hrun.1, hR x (by simp)⟩, ?_⟩
    exact ih hrun.2 fun y hy => hR y (by simp [hy])

/-- Where every state short of the goal has an allowed step to a smaller state of the invariant, an
allowed run comes to the goal. -/
theorem exists_reach (allowed : ι → Prop) (I goal : σ → Prop) (size : σ → ℕ)
    (hstep : ∀ s, I s → ¬ goal s → ∃ x, allowed x ∧ I (step s x) ∧ size (step s x) < size s)
    (s : σ) (hs : I s) :
    ∃ xs : List ι, (∀ x ∈ xs, allowed x) ∧ I (xs.foldl step s) ∧ goal (xs.foldl step s) := by
  induction hsize : size s using Nat.strongRecOn generalizing s with
  | ind n ih =>
    by_cases hgoal : goal s
    · exact ⟨[], by simp, hs, hgoal⟩
    · obtain ⟨x, hx, hnext, hless⟩ := hstep s hs hgoal
      obtain ⟨xs, hxs, hend⟩ := ih (size (step s x)) (hsize ▸ hless) (step s x) hnext rfl
      refine ⟨x :: xs, ?_, hend⟩
      intro y hy
      rcases List.mem_cons.mp hy with rfl | hy
      · exact hx
      · exact hxs y hy

end SpotRelay.Library.Run
