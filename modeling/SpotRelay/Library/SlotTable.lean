import Mathlib.Data.List.Basic
import Mathlib.Data.List.Nodup
import Mathlib.Tactic.Common

/-!
# First-fit slot tables

A fixed list of slots, each empty or holding a value.  `put` fills the first empty slot,
`take` empties the first slot whose value satisfies a predicate, `find` reads it.  The
lemmas say how the three interact through `occurrences`, the number of slots that match.
-/

set_option autoImplicit false

namespace SpotRelay.Library.SlotTable

variable {α : Type}

/-- Fill the first empty slot; `none` when every slot is taken. -/
def put (a : α) : List (Option α) → Option (List (Option α))
  | [] => none
  | none :: rest => some (some a :: rest)
  | some b :: rest => (put a rest).map (some b :: ·)

/-- Empty the first slot whose value satisfies `p`, and return that value. -/
def take (p : α → Bool) : List (Option α) → Option (α × List (Option α))
  | [] => none
  | none :: rest => (take p rest).map fun r => (r.1, none :: r.2)
  | some b :: rest =>
    if p b then some (b, none :: rest) else (take p rest).map fun r => (r.1, some b :: r.2)

/-- The value of the first slot that satisfies `p`. -/
def find (p : α → Bool) : List (Option α) → Option α
  | [] => none
  | none :: rest => find p rest
  | some b :: rest => if p b then some b else find p rest

/-- The number of slots that hold a value satisfying `p`. -/
def occurrences (p : α → Bool) (slots : List (Option α)) : ℕ :=
  slots.countP fun slot => slot.any p

/-- The number of empty slots. -/
def free (slots : List (Option α)) : ℕ :=
  slots.countP fun slot => slot.isNone

/-- An empty table holds nothing. -/
@[simp] theorem occurrences_nil (p : α → Bool) : occurrences p [] = 0 := rfl

/-- A free slot counts for nothing. -/
@[simp] theorem occurrences_none (p : α → Bool) (rest : List (Option α)) :
    occurrences p (none :: rest) = occurrences p rest := by
  simp [occurrences]

/-- A taken slot counts once where its value is meant. -/
@[simp] theorem occurrences_some (p : α → Bool) (b : α) (rest : List (Option α)) :
    occurrences p (some b :: rest) = occurrences p rest + if p b then 1 else 0 := by
  simp [occurrences, List.countP_cons]

/-- An empty table has no free slot. -/
@[simp] theorem free_nil : free ([] : List (Option α)) = 0 := rfl

/-- A free slot counts as one. -/
@[simp] theorem free_none (rest : List (Option α)) : free (none :: rest) = free rest + 1 := by
  simp [free]

/-- A taken slot is not free. -/
@[simp] theorem free_some (b : α) (rest : List (Option α)) :
    free (some b :: rest) = free rest := by
  simp [free]

/-- Filling a slot keeps the number of slots. -/
theorem put_length {a : α} {slots slots' : List (Option α)} (h : put a slots = some slots') :
    slots'.length = slots.length := by
  induction slots generalizing slots' with
  | nil => simp [put] at h
  | cons slot rest ih =>
    cases slot with
    | none =>
      simp only [put, Option.some.injEq] at h
      simp [← h]
    | some b =>
      simp only [put, Option.map_eq_some_iff] at h
      obtain ⟨rest', hrest, rfl⟩ := h
      simp [ih hrest]

/-- Emptying a slot keeps the number of slots. -/
theorem take_length {p : α → Bool} {a : α} {slots slots' : List (Option α)}
    (h : take p slots = some (a, slots')) : slots'.length = slots.length := by
  induction slots generalizing slots' with
  | nil => simp [take] at h
  | cons slot rest ih =>
    cases slot with
    | none =>
      simp only [take, Option.map_eq_some_iff, Prod.mk.injEq] at h
      obtain ⟨⟨b, rest'⟩, hrest, rfl, rfl⟩ := h
      simp [ih hrest]
    | some b =>
      simp only [take] at h
      split at h
      · simp only [Option.some.injEq, Prod.mk.injEq] at h
        simp [← h.2]
      · simp only [Option.map_eq_some_iff, Prod.mk.injEq] at h
        obtain ⟨⟨c, rest'⟩, hrest, rfl, rfl⟩ := h
        simp [ih hrest]

/-- `put` succeeds exactly when a slot is empty. -/
theorem put_isSome_iff (a : α) (slots : List (Option α)) :
    (put a slots).isSome ↔ 0 < free slots := by
  induction slots with
  | nil => simp [put]
  | cons slot rest ih =>
    cases slot with
    | none => simp [put]
    | some b => simpa [put] using ih

/-- A filled slot adds one occurrence of every predicate it satisfies. -/
theorem occurrences_put {a : α} {slots slots' : List (Option α)} (p : α → Bool)
    (h : put a slots = some slots') :
    occurrences p slots' = occurrences p slots + if p a then 1 else 0 := by
  induction slots generalizing slots' with
  | nil => simp [put] at h
  | cons slot rest ih =>
    cases slot with
    | none =>
      simp only [put, Option.some.injEq] at h
      simp [← h]
    | some b =>
      simp only [put, Option.map_eq_some_iff] at h
      obtain ⟨rest', hrest, rfl⟩ := h
      simp only [occurrences_some, ih hrest]
      omega

/-- A filled slot is one empty slot less. -/
theorem free_put {a : α} {slots slots' : List (Option α)} (h : put a slots = some slots') :
    free slots' + 1 = free slots := by
  induction slots generalizing slots' with
  | nil => simp [put] at h
  | cons slot rest ih =>
    cases slot with
    | none =>
      simp only [put, Option.some.injEq] at h
      simp [← h]
    | some b =>
      simp only [put, Option.map_eq_some_iff] at h
      obtain ⟨rest', hrest, rfl⟩ := h
      simpa using ih hrest

/-- An emptied slot removes one occurrence and frees one slot. -/
theorem occurrences_take {p : α → Bool} {a : α} {slots slots' : List (Option α)}
    (h : take p slots = some (a, slots')) :
    occurrences p slots = occurrences p slots' + 1 ∧ free slots' = free slots + 1 := by
  induction slots generalizing slots' with
  | nil => simp [take] at h
  | cons slot rest ih =>
    cases slot with
    | none =>
      simp only [take, Option.map_eq_some_iff, Prod.mk.injEq] at h
      obtain ⟨⟨b, rest'⟩, hrest, rfl, rfl⟩ := h
      have := ih hrest
      simp only [occurrences_none, free_none]
      omega
    | some b =>
      simp only [take] at h
      split at h
      · rename_i hp
        simp only [Option.some.injEq, Prod.mk.injEq] at h
        simp [← h.2, hp]
      · simp only [Option.map_eq_some_iff, Prod.mk.injEq] at h
        obtain ⟨⟨c, rest'⟩, hrest, rfl, rfl⟩ := h
        have := ih hrest
        simp only [occurrences_some, free_some]
        omega

/-- `take` finds nothing exactly when no slot matches. -/
theorem take_eq_none_iff (p : α → Bool) (slots : List (Option α)) :
    take p slots = none ↔ occurrences p slots = 0 := by
  induction slots with
  | nil => simp [take]
  | cons slot rest ih =>
    cases slot with
    | none => simp [take, ih]
    | some b =>
      by_cases hp : p b
      · simp [take, hp]
      · simp [take, hp, ih]

/-- `find` finds nothing exactly when no slot matches. -/
theorem find_eq_none_iff (p : α → Bool) (slots : List (Option α)) :
    find p slots = none ↔ occurrences p slots = 0 := by
  induction slots with
  | nil => simp [find]
  | cons slot rest ih =>
    cases slot with
    | none => simp [find, ih]
    | some b =>
      by_cases hp : p b
      · simp [find, hp]
      · simp [find, hp, ih]

/-- `find` is the search of a list among the values that are there. -/
theorem find_eq_find? (p : α → Bool) (slots : List (Option α)) :
    find p slots = (slots.filterMap id).find? p := by
  induction slots with
  | nil => rfl
  | cons slot rest ih =>
    cases slot with
    | none => simpa [find] using ih
    | some b =>
      by_cases hp : p b
      · simp [find, hp]
      · simp [find, hp, ih]

/-- Occurrences are counted among the values that are there. -/
theorem occurrences_eq_countP (p : α → Bool) (slots : List (Option α)) :
    occurrences p slots = (slots.filterMap id).countP p := by
  induction slots with
  | nil => rfl
  | cons slot rest ih =>
    cases slot with
    | none => simpa using ih
    | some b => simp [List.countP_cons, ih]

/-- Two values that match a predicate of at most one occurrence are one. -/
theorem eq_of_occurrences_le_one {p : α → Bool} {slots : List (Option α)} {a b : α}
    (hone : occurrences p slots ≤ 1) (ha : a ∈ slots.filterMap id) (hb : b ∈ slots.filterMap id)
    (hpa : p a = true) (hpb : p b = true) : a = b := by
  rw [occurrences_eq_countP, List.countP_eq_length_filter] at hone
  have hfa : a ∈ (slots.filterMap id).filter p := List.mem_filter.mpr ⟨ha, hpa⟩
  have hfb : b ∈ (slots.filterMap id).filter p := List.mem_filter.mpr ⟨hb, hpb⟩
  obtain ⟨c, hc⟩ := List.length_eq_one_iff.mp (Nat.le_antisymm hone (List.length_pos_of_mem hfa))
  rw [hc, List.mem_singleton] at hfa hfb
  exact hfa.trans hfb.symm

/-- Where each key occurs at most once, the values that are there are those a search of their key
finds, and they differ. -/
theorem values_of_occurrences_le_one {κ : Type} [DecidableEq κ] (key : α → κ)
    {slots : List (Option α)}
    (hone : ∀ k, occurrences (fun a => decide (key a = k)) slots ≤ 1) :
    (slots.filterMap id).Nodup ∧
      ∀ a, a ∈ slots.filterMap id ↔ find (fun b => decide (key b = key a)) slots = some a := by
  classical
  constructor
  · rw [List.nodup_iff_count_le_one]
    intro a
    refine Nat.le_trans ?_ (hone (key a))
    rw [occurrences_eq_countP]
    apply List.countP_mono_left
    intro b _ hb
    simp only [beq_iff_eq] at hb
    simp [hb]
  · intro a
    rw [find_eq_find?]
    constructor
    · intro ha
      cases hfound : (slots.filterMap id).find? fun b => decide (key b = key a) with
      | none =>
        have := List.find?_eq_none.mp hfound a ha
        simp at this
      | some b =>
        have hb := List.find?_some hfound
        rw [eq_of_occurrences_le_one (hone (key a)) (List.mem_of_find?_eq_some hfound) ha hb
          (by simp)]
    · intro hfound
      exact List.mem_of_find?_eq_some hfound

/-- The only matching value is the one that was just put in. -/
theorem find_put {p : α → Bool} {a : α} {slots slots' : List (Option α)}
    (habsent : occurrences p slots = 0) (hp : p a) (h : put a slots = some slots') :
    find p slots' = some a := by
  induction slots generalizing slots' with
  | nil => simp [put] at h
  | cons slot rest ih =>
    cases slot with
    | none =>
      simp only [put, Option.some.injEq] at h
      simp [← h, find, hp]
    | some b =>
      simp only [occurrences_some] at habsent
      have hb : p b = false := by
        by_contra hb
        simp [hb] at habsent
      simp only [put, Option.map_eq_some_iff] at h
      obtain ⟨rest', hrest, rfl⟩ := h
      simpa [find, hb] using ih (by omega) hrest

/-- `take` returns what `find` finds. -/
theorem find_of_take {p : α → Bool} {a : α} {slots slots' : List (Option α)}
    (h : take p slots = some (a, slots')) : find p slots = some a := by
  induction slots generalizing slots' with
  | nil => simp [take] at h
  | cons slot rest ih =>
    cases slot with
    | none =>
      simp only [take, Option.map_eq_some_iff, Prod.mk.injEq] at h
      obtain ⟨⟨b, rest'⟩, hrest, rfl, rfl⟩ := h
      exact ih hrest
    | some b =>
      simp only [take] at h
      simp only [find]
      split at h
      · rename_i hp
        simp only [Option.some.injEq, Prod.mk.injEq] at h
        rw [if_pos hp, h.1]
      · rename_i hp
        simp only [Option.map_eq_some_iff, Prod.mk.injEq] at h
        obtain ⟨⟨c, rest'⟩, hrest, rfl, rfl⟩ := h
        rw [if_neg hp]
        exact ih hrest

/-- What `find` finds satisfies the predicate. -/
theorem find_some {p : α → Bool} {a : α} {slots : List (Option α)}
    (h : find p slots = some a) : p a = true := by
  induction slots with
  | nil => cases h
  | cons slot rest ih =>
    cases slot with
    | none => exact ih h
    | some b =>
      simp only [find] at h
      split_ifs at h with hp
      · cases h
        exact hp
      · exact ih h

/-- Filling a slot with a value that does not match leaves what is found. -/
theorem find_put_of_not {p : α → Bool} {a : α} {slots slots' : List (Option α)}
    (ha : p a = false) (h : put a slots = some slots') : find p slots' = find p slots := by
  induction slots generalizing slots' with
  | nil => simp [put] at h
  | cons slot rest ih =>
    cases slot with
    | none =>
      simp only [put, Option.some.injEq] at h
      simp [← h, find, ha]
    | some b =>
      simp only [put, Option.map_eq_some_iff] at h
      obtain ⟨rest', hrest, rfl⟩ := h
      simp [find, ih hrest]

/-- Emptying a slot leaves what is found by a predicate that excludes the first one. -/
theorem find_take_of_disjoint {p r : α → Bool} {a : α} {slots slots' : List (Option α)}
    (hpr : ∀ b, p b = true → r b = false) (h : take p slots = some (a, slots')) :
    find r slots' = find r slots ∧ occurrences r slots' = occurrences r slots := by
  induction slots generalizing slots' with
  | nil => simp [take] at h
  | cons slot rest ih =>
    cases slot with
    | none =>
      simp only [take, Option.map_eq_some_iff, Prod.mk.injEq] at h
      obtain ⟨⟨b, rest'⟩, hrest, rfl, rfl⟩ := h
      simpa [find] using ih hrest
    | some b =>
      simp only [take] at h
      split at h
      · rename_i hp
        simp only [Option.some.injEq, Prod.mk.injEq] at h
        simp [← h.2, find, hpr b hp]
      · simp only [Option.map_eq_some_iff, Prod.mk.injEq] at h
        obtain ⟨⟨c, rest'⟩, hrest, rfl, rfl⟩ := h
        have := ih hrest
        simp [find, this]

end SpotRelay.Library.SlotTable
