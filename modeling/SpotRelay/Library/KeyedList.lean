import Mathlib.Data.List.Perm.Subperm

/-!
# Lists of values with keys

The values of one key, in order, and that a list is part of another one where it is so key by key.
-/

set_option autoImplicit false

namespace SpotRelay.Library

variable {K V : Type} [DecidableEq K]

/-- The values of a key. -/
def valuesAt (key : K) (entries : List (K × V)) : List V :=
  entries.filterMap fun entry => if entry.1 = key then some entry.2 else none

/-- An empty list has no values under any key. -/
@[simp] theorem valuesAt_nil (key : K) : valuesAt key ([] : List (K × V)) = [] := rfl

/-- The first entry is among the values under its own key. -/
theorem valuesAt_cons (key : K) (entry : K × V) (entries : List (K × V)) :
    valuesAt key (entry :: entries) =
      if entry.1 = key then entry.2 :: valuesAt key entries else valuesAt key entries := by
  unfold valuesAt
  by_cases hkey : entry.1 = key
  · simp [hkey]
  · simp [hkey]

/-- The values under a key come list by list. -/
theorem valuesAt_append (key : K) (entries more : List (K × V)) :
    valuesAt key (entries ++ more) = valuesAt key entries ++ valuesAt key more :=
  List.filterMap_append

/-- An appended entry comes last under its own key and nowhere else. -/
theorem valuesAt_concat (key : K) (entries : List (K × V)) (entry : K × V) :
    valuesAt key (entries ++ [entry]) =
      valuesAt key entries ++ if entry.1 = key then [entry.2] else [] := by
  rw [valuesAt_append, valuesAt_cons, valuesAt_nil]

/-- A value appended under a key comes last under it. -/
theorem valuesAt_concat_self (key : K) (entries : List (K × V)) (value : V) :
    valuesAt key (entries ++ [(key, value)]) = valuesAt key entries ++ [value] := by
  rw [valuesAt_concat, if_pos rfl]

/-- An entry appended under another key is not seen. -/
theorem valuesAt_concat_of_ne {key : K} {entry : K × V} {entries : List (K × V)}
    (hne : entry.1 ≠ key) : valuesAt key (entries ++ [entry]) = valuesAt key entries := by
  rw [valuesAt_concat, if_neg hne, List.append_nil]

/-- A value occurs under a key as often as its entry occurs in the list. -/
theorem count_valuesAt [DecidableEq V] (key : K) (value : V) (entries : List (K × V)) :
    (valuesAt key entries).count value = entries.count (key, value) := by
  induction entries with
  | nil => rfl
  | cons entry entries ih =>
    obtain ⟨k, v⟩ := entry
    rw [valuesAt_cons, List.count_cons, ← ih]
    by_cases hkey : k = key
    · rw [if_pos hkey, List.count_cons, hkey]
      by_cases hvalue : v = value <;> simp [hvalue]
    · rw [if_neg hkey]
      simp [hkey]

/-- Entries whose values are part of others key by key are part of the others. -/
theorem subperm_of_valuesAt [DecidableEq V] {part whole : List (K × V)}
    (h : ∀ key, (valuesAt key part).Subperm (valuesAt key whole)) : part.Subperm whole := by
  rw [List.subperm_ext_iff]
  rintro ⟨key, value⟩ -
  rw [← count_valuesAt, ← count_valuesAt]
  exact (h key).count_le value

end SpotRelay.Library
