import SpotRelay.Library.Run
import SpotRelay.Model.LoopSlots

/-!
# The counter and the flag of the lifecycle slots

The counter never leaves its range: a slot is released only by its owner.  The flag follows the
counter through stores that may overtake each other.  What counts is the store that belongs to
the latest change of the counter; as long as none of the opposite value is made after it, the
flag says whether all slots are taken once the threads are done.

* **the counter** counts the threads that own a slot (`SlotsCounted`) and stays in its range
  (`activeLoops_bounds`).
* **one step** keeps the flag following the counter exactly if it makes no store too early
  (`flagFollows_step_iff`).
-/

set_option autoImplicit false

namespace SpotRelay.Analysis

open SpotRelay.Model SpotRelay.Library

/-! ## The counter -/

/-- The counter is the number of slots that are held or whose claim has yet to return. -/
structure SlotsCounted (s : LoopSlots) : Prop where
  counted : s.activeLoops = s.held + s.stores.count true
  le_max : s.activeLoops ≤ s.maxPositions.val

variable (s : LoopSlots)

/-- Taking the `i`-th element out of a list. -/
theorem count_eraseIdx {α : Type} [DecidableEq α] {xs : List α} {i : ℕ} {x : α} (y : α)
    (h : xs[i]? = some x) :
    xs.count y = (xs.eraseIdx i).count y + if x = y then 1 else 0 := by
  obtain ⟨hi, rfl⟩ := List.getElem?_eq_some_iff.mp h
  rw [← (List.getElem_cons_eraseIdx_perm hi).count_eq, List.count_cons]
  simp only [beq_iff_eq]

/-- A claim keeps the counter that of the slots. -/
theorem slotsCounted_compareExchange (i : ℕ) (spurious : Bool) (h : SlotsCounted s) :
    SlotsCounted (s.compareExchange i spurious) := by
  obtain ⟨hcounted, hle⟩ := h
  unfold LoopSlots.compareExchange
  cases s.loaded[i]? with
  | none => exact ⟨hcounted, hle⟩
  | some current =>
    simp only
    split_ifs with hfull hfails hlast
    · exact ⟨hcounted, hle⟩
    · exact ⟨hcounted, hle⟩
    · have hcurrent : s.activeLoops = current := by
        by_contra hne
        exact hfails (Or.inr hne)
      constructor
      · simp only [List.count_append, List.count_singleton_self]
        omega
      · show current + 1 ≤ (s.maxPositions.val : ℤ)
        omega
    · have hcurrent : s.activeLoops = current := by
        by_contra hne
        exact hfails (Or.inr hne)
      constructor
      · simp only
        omega
      · show current + 1 ≤ (s.maxPositions.val : ℤ)
        omega

/-- A release keeps the counter that of the slots. -/
theorem slotsCounted_release (h : SlotsCounted s) : SlotsCounted s.release := by
  obtain ⟨hcounted, hle⟩ := h
  unfold LoopSlots.release
  cases hheld : s.held with
  | zero => exact ⟨hcounted, hle⟩
  | succ held =>
    rw [hheld] at hcounted
    simp only
    split_ifs
    · constructor
      · simp only [List.count_append, List.count_cons, List.count_nil]
        simp only [Bool.false_eq_true, beq_iff_eq, if_false]
        omega
      · simp only
        omega
    · constructor
      · simp only
        omega
      · simp only
        omega

/-- A flag store does not concern the counter. -/
theorem slotsCounted_store (i : ℕ) (h : SlotsCounted s) : SlotsCounted (s.store i) := by
  obtain ⟨hcounted, hle⟩ := h
  unfold LoopSlots.store
  cases hstore : s.stores[i]? with
  | none => exact ⟨hcounted, hle⟩
  | some value =>
    have herase := count_eraseIdx true hstore
    refine ⟨?_, hle⟩
    cases value with
    | true =>
      simp only [if_true] at herase ⊢
      omega
    | false =>
      simp only [Bool.false_eq_true, if_false] at herase ⊢
      omega

/-- Every event keeps the counter that of the slots. -/
theorem slotsCounted_step (event : SlotEvent) (h : SlotsCounted s) :
    SlotsCounted (slotStep s event) := by
  cases event with
  | load => exact ⟨h.counted, h.le_max⟩
  | compareExchange i spurious => exact slotsCounted_compareExchange s i spurious h
  | release => exact slotsCounted_release s h
  | store i => exact slotsCounted_store s i h

/-- The number of slots stays the same. -/
theorem maxPositions_step (event : SlotEvent) :
    (slotStep s event).maxPositions = s.maxPositions := by
  cases event with
  | load => rfl
  | compareExchange i spurious =>
    simp only [slotStep, LoopSlots.compareExchange]
    cases s.loaded[i]? with
    | none => rfl
    | some current =>
      simp only
      split_ifs <;> rfl
  | release =>
    simp only [slotStep, LoopSlots.release]
    cases s.held with
    | zero => rfl
    | succ held =>
      simp only
      split_ifs <;> rfl
  | store i =>
    simp only [slotStep, LoopSlots.store]
    cases s.stores[i]? <;> rfl

/-! ## The flag -/

/-- The value that the flag will have when the outstanding stores are made in order. -/
def settledFlag (s : LoopSlots) : Bool := s.stores.getLast?.getD s.entrySuppressed

/-- The settled flag says whether all slots are taken. -/
def FlagFollows (s : LoopSlots) : Prop :=
  settledFlag s = true ↔ s.activeLoops = s.maxPositions.val

/-- The newest outstanding store is not made before an older one of the other value. -/
def StoresInOrder (s : LoopSlots) : SlotEvent → Prop
  | .store i => i + 1 = s.stores.length → 0 < i → s.stores[i - 1]? = s.stores[i]?
  | _ => True

/-- A claim leaves the flag to its own store. -/
theorem flagFollows_compareExchange (i : ℕ) (spurious : Bool) (hcounted : SlotsCounted s)
    (h : FlagFollows s) : FlagFollows (s.compareExchange i spurious) := by
  have hle := hcounted.le_max
  unfold LoopSlots.compareExchange
  cases s.loaded[i]? with
  | none => exact h
  | some current =>
    simp only
    split_ifs with hfull hfails hlast
    · exact h
    · exact h
    · unfold FlagFollows settledFlag
      simp only [List.getLast?_append, List.getLast?_singleton, Option.some_or, Option.getD_some,
        true_iff]
      omega
    · have hcurrent : s.activeLoops = current := by
        by_contra hne
        exact hfails (Or.inr hne)
      have hfalse : ¬ settledFlag s = true := by
        intro hset
        have := h.mp hset
        omega
      constructor
      · intro hset
        exact absurd hset hfalse
      · intro hmax
        exact absurd hmax.ge hlast

/-- A release leaves the flag to its own store. -/
theorem flagFollows_release (hcounted : SlotsCounted s) (h : FlagFollows s) :
    FlagFollows s.release := by
  have hle := hcounted.le_max
  unfold LoopSlots.release
  cases s.held with
  | zero => exact h
  | succ held =>
    simp only
    rw [if_pos (by omega)]
    unfold FlagFollows settledFlag
    simp only [List.getLast?_append, List.getLast?_singleton, Option.some_or, Option.getD_some,
      Bool.false_eq_true, false_iff]
    omega

/-- A store leaves the settled flag exactly if it is not the newest, or the next older one has the
same value. -/
theorem settledFlag_store (i : ℕ) :
    settledFlag (s.store i) = settledFlag s ↔ StoresInOrder s (.store i) := by
  unfold LoopSlots.store StoresInOrder settledFlag
  cases hstore : s.stores[i]? with
  | none =>
    have hlen := List.getElem?_eq_none_iff.mp hstore
    simp only [true_iff]
    intro hlast
    omega
  | some value =>
    obtain ⟨hi, hvalue⟩ := List.getElem?_eq_some_iff.mp hstore
    simp only [List.getLast?_eq_getElem?, List.length_eraseIdx, hi, if_true,
      List.getElem?_eraseIdx]
    by_cases hlast : i + 1 = s.stores.length
    · have hnewest : s.stores[s.stores.length - 1]? = some value := by
        rw [← hstore]
        congr 1
        omega
      by_cases hzero : i = 0
      · -- the only outstanding store
        have hnone : s.stores[s.stores.length - 1 - 1 + 1]? = none :=
          List.getElem?_eq_none (by omega)
        rw [if_neg (by omega), hnewest, hnone]
        simp [hzero]
      · obtain ⟨older, holder⟩ : ∃ older, s.stores[i - 1]? = some older :=
          ⟨_, List.getElem?_eq_getElem (by omega)⟩
        have hprevious : s.stores[s.stores.length - 1 - 1]? = some older := by
          rw [← holder]
          congr 1
          omega
        rw [if_pos (by omega), hnewest, hprevious, holder]
        simp [hlast, Nat.pos_of_ne_zero hzero, hstore]
    · have hsame : s.stores.length - 1 - 1 + 1 = s.stores.length - 1 := by omega
      rw [if_neg (by omega), hsame]
      have hsome : s.stores[s.stores.length - 1]? = some s.stores[s.stores.length - 1] :=
        List.getElem?_eq_getElem (by omega)
      simp [hsome, hlast]

/-- While the flag follows the counter, a step keeps it so exactly if it makes no store too
early. -/
theorem flagFollows_step_iff (event : SlotEvent) (hcounted : SlotsCounted s)
    (h : FlagFollows s) : FlagFollows (slotStep s event) ↔ StoresInOrder s event := by
  cases event with
  | load => exact iff_of_true h trivial
  | compareExchange i spurious =>
    exact iff_of_true (flagFollows_compareExchange s i spurious hcounted h) trivial
  | release => exact iff_of_true (flagFollows_release s hcounted h) trivial
  | store i =>
    have hloops : (s.store i).activeLoops = s.activeLoops := by
      unfold LoopSlots.store
      cases s.stores[i]? <;> rfl
    have hmax := maxPositions_step s (.store i)
    rw [← settledFlag_store s i]
    unfold FlagFollows at h ⊢
    simp only [slotStep] at hmax ⊢
    rw [hloops, hmax, ← h]
    cases settledFlag (s.store i) <;> cases settledFlag s <;> simp

/-! ## Runs -/

/-- No slot is taken at the start. -/
theorem slotsCounted_start (maxPositions : MaxPositions) :
    SlotsCounted { maxPositions := maxPositions } where
  counted := rfl
  le_max := Int.natCast_nonneg _

/-- The flag is right at the start. -/
theorem flagFollows_start (maxPositions : MaxPositions) :
    FlagFollows { maxPositions := maxPositions } := by
  have hpos := maxPositions.one_le
  unfold FlagFollows settledFlag
  simp only [List.getLast?_nil, Option.getD_none, Bool.false_eq_true, false_iff]
  omega

/-- The counter stays between 0 and `MAX_POSITIONS` in every run. -/
theorem activeLoops_bounds (maxPositions : MaxPositions) (events : List SlotEvent) :
    0 ≤ (runSlots maxPositions events).activeLoops ∧
      (runSlots maxPositions events).activeLoops ≤ maxPositions.val := by
  have hrun : ∀ (events : List SlotEvent) (s : LoopSlots), SlotsCounted s →
      SlotsCounted (events.foldl slotStep s) ∧
        (events.foldl slotStep s).maxPositions = s.maxPositions := by
    intro events
    induction events with
    | nil => exact fun s h => ⟨h, rfl⟩
    | cons event events ih =>
      intro s h
      obtain ⟨hcounted, hmax⟩ := ih _ (slotsCounted_step s event h)
      exact ⟨hcounted, hmax.trans (maxPositions_step s event)⟩
  obtain ⟨⟨hcounted, hle⟩, hmax⟩ := hrun events _ (slotsCounted_start maxPositions)
  rw [hmax] at hle
  refine ⟨?_, hle⟩
  show 0 ≤ (events.foldl slotStep { maxPositions := maxPositions }).activeLoops
  omega

/-- In every run the counter stays between 0 and `MAX_POSITIONS`.  If no store of the flag is made
before an older one of the other value that is then the newest left, entry is suppressed exactly
when all slots are taken, whenever no claim or release is in progress. -/
theorem suppressed_iff_slots_taken (maxPositions : MaxPositions) (events : List SlotEvent) :
    let s := runSlots maxPositions events
    (0 ≤ s.activeLoops ∧ s.activeLoops ≤ maxPositions.val) ∧
      (Run.Along StoresInOrder slotStep { maxPositions := maxPositions } events →
        s.loaded = [] → s.stores = [] →
        (s.entrySuppressed = true ↔ s.activeLoops = maxPositions.val)) := by
  intro s
  refine ⟨activeLoops_bounds maxPositions events, ?_⟩
  intro hrun hloaded hstores
  have hinv := Run.invariant
    (fun s => SlotsCounted s ∧ FlagFollows s ∧ s.maxPositions = maxPositions)
    (fun s event h hstep => ⟨slotsCounted_step s event h.1,
      (flagFollows_step_iff s event h.1 h.2.1).mpr hstep,
      (maxPositions_step s event).trans h.2.2⟩)
    events _ ⟨slotsCounted_start maxPositions, flagFollows_start maxPositions, rfl⟩ hrun
  have hfollows : FlagFollows s := hinv.2.1
  have hmax : s.maxPositions = maxPositions := hinv.2.2
  unfold FlagFollows settledFlag at hfollows
  rwa [hstores, List.getLast?_nil, Option.getD_none, hmax] at hfollows

/-! ## Stores in order and out of order -/

/-- A claim, a release and a second claim of the only slot, with their stores in order. -/
def orderedStores : List SlotEvent :=
  [.load, .compareExchange 0 false, .store 0, .release, .load, .compareExchange 0 false, .store 0,
    .store 0]

/-- The general result for a run whose stores come in order. -/
theorem suppressed_iff_slots_taken_orderedStores :
    let s := runSlots ⟨1, by decide, by decide⟩ orderedStores
    (0 ≤ s.activeLoops ∧ s.activeLoops ≤ 1) ∧ s.entrySuppressed = true := by
  intro s
  obtain ⟨hbounds, hflag⟩ := suppressed_iff_slots_taken ⟨1, by decide, by decide⟩ orderedStores
  refine ⟨hbounds, (hflag ?_ (by decide +kernel) (by decide +kernel)).mpr (by decide +kernel)⟩
  refine ⟨trivial, trivial, ?_, trivial, trivial, trivial, ?_, ?_, trivial⟩ <;>
    (simp only [StoresInOrder]; decide +kernel)

/-- The store of the release comes after that of the second claim. -/
def overtakenStore : List SlotEvent :=
  [.load, .compareExchange 0 false, .store 0, .release, .load, .compareExchange 0 false, .store 1,
    .store 0]

/-- The only slot is taken and entry is open. -/
theorem open_with_no_slot_free :
    ¬ ∀ (maxPositions : MaxPositions) (events : List SlotEvent),
      let s := runSlots maxPositions events
      (0 ≤ s.activeLoops ∧ s.activeLoops ≤ maxPositions.val) ∧
        (s.loaded = [] → s.stores = [] →
          (s.entrySuppressed = true ↔ s.activeLoops = maxPositions.val)) := by
  intro h
  have hflag := (h ⟨1, by decide, by decide⟩ overtakenStore).2 (by decide +kernel)
    (by decide +kernel)
  revert hflag
  decide +kernel

end SpotRelay.Analysis
