import Mathlib.Data.List.Basic
import Mathlib.Data.List.Induction
import SpotRelay.Library.OrderedMap

/-!
# Logs of writes

A write sets or erases the entry of one key of an ordered map.  What a log of writes makes of a map
is settled by the last write of every key, and by nothing less: two logs act alike on all maps
exactly if they have the same last writes.  `runs` are the names that a log visits, without
immediate repetitions.
-/

set_option autoImplicit false

namespace SpotRelay.Library

/-! ## Writes to a map -/

namespace OrderedMap

variable {κ ν : Type} {before : κ → κ → Prop}

/-- Maps with the same entries are the same. -/
theorem ext_entries [IsStrictTotalOrder κ before] {m m' : OrderedMap before ν}
    (h : ∀ e, e ∈ m.entries ↔ e ∈ m'.entries) : m = m' := by
  have hnodup : ∀ m : OrderedMap before ν, m.entries.Nodup := fun m =>
    m.keys_ne.imp fun hne heq => hne (congrArg Prod.fst heq)
  have hperm : m.entries.Perm m'.entries :=
    (List.perm_ext_iff_of_nodup (hnodup m) (hnodup m')).mpr h
  have hentries : m.entries = m'.entries := by
    refine hperm.eq_of_pairwise ?_ m.sorted m'.sorted
    intro a b _ _ hab hba
    exact absurd (trans_of before hab hba) (irrefl_of before a.1)
  cases m
  cases m'
  congr 1

variable [DecidableRel before] [DecidableEq κ] [IsStrictTotalOrder κ before]

/-- Sets the entry of a key, or erases it. -/
def write (m : OrderedMap before ν) (w : κ × Option ν) : OrderedMap before ν :=
  match w.2 with
  | some v => m.insert w.1 v
  | none => m.erase w.1

/-- What a map has after a write. -/
theorem mem_write {m : OrderedMap before ν} {w : κ × Option ν} {e : κ × ν} :
    e ∈ (m.write w).entries ↔
      (e.1 = w.1 ∧ w.2 = some e.2) ∨ (e.1 ≠ w.1 ∧ e ∈ m.entries) := by
  obtain ⟨k, v⟩ := w
  cases v with
  | none =>
    rw [write, mem_erase]
    simp
  | some v =>
    rw [write, mem_insert, Prod.ext_iff, Option.some.injEq, eq_comm (a := v)]

end OrderedMap

/-- The last write of a key. -/
def lastWrite {κ ν : Type} [DecidableEq κ] (k : κ) (ws : List (κ × Option ν)) :
    Option (Option ν) :=
  ws.foldl (fun last w => if w.1 = k then some w.2 else last) none

section Log

variable {κ ν : Type} {before : κ → κ → Prop} [DecidableEq κ]

/-- The last write of its key is the one appended. -/
theorem lastWrite_append_self {ws : List (κ × Option ν)} {w : κ × Option ν} :
    lastWrite w.1 (ws ++ [w]) = some w.2 := by
  simp [lastWrite]

/-- A write of another key leaves the last write. -/
theorem lastWrite_append_of_ne {ws : List (κ × Option ν)} {w : κ × Option ν} {k : κ}
    (h : w.1 ≠ k) : lastWrite k (ws ++ [w]) = lastWrite k ws := by
  simp [lastWrite, h]

variable [DecidableRel before] [IsStrictTotalOrder κ before]

/-- An entry is the last write of its key, or an old one of a key that is not written. -/
theorem mem_foldl_write {m : OrderedMap before ν} {ws : List (κ × Option ν)} {e : κ × ν} :
    e ∈ (ws.foldl OrderedMap.write m).entries ↔
      lastWrite e.1 ws = some (some e.2) ∨ (lastWrite e.1 ws = none ∧ e ∈ m.entries) := by
  induction ws using List.reverseRecOn with
  | nil => simp [lastWrite]
  | append_singleton ws w ih =>
    rw [List.foldl_append, List.foldl_cons, List.foldl_nil, OrderedMap.mem_write, ih]
    by_cases hkey : w.1 = e.1
    · rw [← hkey, lastWrite_append_self]
      simp
    · rw [lastWrite_append_of_ne hkey]
      simp [Ne.symm hkey]

/-- Two logs act alike on all maps exactly if they have the same last writes. -/
theorem foldl_write_eq_iff [Inhabited ν] (ws ws' : List (κ × Option ν)) :
    (∀ m : OrderedMap before ν, ws.foldl OrderedMap.write m = ws'.foldl OrderedMap.write m) ↔
      ∀ k, lastWrite k ws = lastWrite k ws' := by
  constructor
  · intro h k
    have hmem : ∀ (m : OrderedMap before ν) v,
        (lastWrite k ws = some (some v) ∨ (lastWrite k ws = none ∧ (k, v) ∈ m.entries)) ↔
          (lastWrite k ws' = some (some v) ∨ (lastWrite k ws' = none ∧ (k, v) ∈ m.entries)) := by
      intro m v
      have hsame : (k, v) ∈ (ws.foldl OrderedMap.write m).entries ↔
          (k, v) ∈ (ws'.foldl OrderedMap.write m).entries := by rw [h]
      rwa [mem_foldl_write, mem_foldl_write] at hsame
    -- a value that is set shows on the empty map
    have hset : ∀ v, lastWrite k ws = some (some v) ↔ lastWrite k ws' = some (some v) := by
      intro v
      simpa using hmem .empty v
    -- and a value that is erased on a map that has one
    have hkept : lastWrite k ws = none ↔ lastWrite k ws' = none := by
      have hin : (k, (default : ν)) ∈
          ((.empty : OrderedMap before ν).insert k default).entries :=
        OrderedMap.mem_insert.mpr (Or.inl rfl)
      have hone := hmem ((.empty : OrderedMap before ν).insert k default) default
      simp only [hin, and_true, hset default] at hone
      constructor
      · intro hnone
        rcases hone.mp (Or.inr hnone) with hsome | hnone'
        · rw [(hset default).mpr hsome] at hnone
          exact absurd hnone (by simp)
        · exact hnone'
      · intro hnone
        rcases hone.mpr (Or.inr hnone) with hsome | hnone'
        · rw [hsome] at hnone
          exact absurd hnone (by simp)
        · exact hnone'
    cases hleft : lastWrite k ws with
    | none => exact (hkept.mp hleft).symm
    | some written =>
      cases written with
      | some v => exact ((hset v).mp hleft).symm
      | none =>
        cases hright : lastWrite k ws' with
        | none => exact absurd (hkept.mpr hright) (by rw [hleft]; simp)
        | some written' =>
          cases written' with
          | none => rfl
          | some v => exact absurd ((hset v).mpr hright) (by rw [hleft]; simp)
  · intro h m
    refine OrderedMap.ext_entries fun e => ?_
    rw [mem_foldl_write, mem_foldl_write, h]

end Log

/-! ## Runs -/

section Runs

variable {α : Type} [DecidableEq α]

/-- A further name, unless it is the last one. -/
def addRun (names : List α) (x : α) : List α :=
  if names.getLast? = some x then names else names ++ [x]

/-- The names without immediate repetitions. -/
def runs (names : List α) : List α := names.foldl addRun []

/-- No names have no runs. -/
@[simp] theorem runs_nil : runs ([] : List α) = [] := rfl

/-- One more name goes on with the last run or begins another. -/
theorem runs_append_singleton (names : List α) (x : α) :
    runs (names ++ [x]) = addRun (runs names) x := by
  rw [runs, List.foldl_append]
  rfl

/-- The name that is added is that of the last run. -/
theorem getLast?_addRun (names : List α) (x : α) : (addRun names x).getLast? = some x := by
  unfold addRun
  by_cases h : names.getLast? = some x
  · rw [if_pos h, h]
  · rw [if_neg h, List.getLast?_concat]

/-- The last run is that of the last name. -/
theorem getLast?_runs (names : List α) : (runs names).getLast? = names.getLast? := by
  rcases List.eq_nil_or_concat' names with rfl | ⟨init, x, rfl⟩
  · rfl
  · rw [runs_append_singleton, getLast?_addRun, List.getLast?_concat]

/-- A name that is added twice in a row is added once. -/
theorem addRun_addRun (names : List α) (x : α) : addRun (addRun names x) x = addRun names x :=
  if_pos (getLast?_addRun names x)

/-- Only no names have no runs. -/
theorem runs_eq_nil {names : List α} (h : runs names = []) : names = [] := by
  rw [← List.getLast?_eq_none_iff, ← getLast?_runs, h]
  rfl

/-- The runs are those of the names. -/
theorem mem_runs {names : List α} {x : α} : x ∈ runs names ↔ x ∈ names := by
  induction names using List.reverseRecOn with
  | nil => rfl
  | append_singleton names y ih =>
    rw [runs_append_singleton, addRun]
    by_cases hlast : (runs names).getLast? = some y
    · rw [if_pos hlast, ih, List.mem_append, List.mem_singleton]
      have hy : y ∈ names := List.mem_of_getLast? ((getLast?_runs names).symm.trans hlast)
      exact ⟨Or.inl, fun h => h.elim id fun heq => heq ▸ hy⟩
    · rw [if_neg hlast, List.mem_append, List.mem_append, ih]

/-- Names may be left out before or after the repetitions are. -/
theorem runs_filter (p : α → Bool) (names : List α) :
    runs (names.filter p) = runs ((runs names).filter p) := by
  induction names using List.reverseRecOn with
  | nil => rfl
  | append_singleton names x ih =>
    rw [runs_append_singleton, List.filter_append]
    cases hx : p x with
    | false =>
      have hnone : [x].filter p = [] := by simp [hx]
      rw [hnone, List.append_nil, ih, addRun]
      by_cases hlast : (runs names).getLast? = some x
      · rw [if_pos hlast]
      · rw [if_neg hlast, List.filter_append, hnone, List.append_nil]
    | true =>
      have hone : [x].filter p = [x] := by simp [hx]
      rw [hone, runs_append_singleton, ih, addRun.eq_def (runs names)]
      by_cases hlast : (runs names).getLast? = some x
      · rw [if_pos hlast]
        obtain ⟨init, hinit⟩ := List.getLast?_eq_some_iff.mp hlast
        rw [hinit, List.filter_append, hone, runs_append_singleton, addRun_addRun]
      · rw [if_neg hlast, List.filter_append, hone, runs_append_singleton]

/-- No run is followed by another one of the same name. -/
theorem runs_ne_append_twice (names init : List α) (x : α) : runs names ≠ init ++ [x] ++ [x] := by
  induction names using List.reverseRecOn with
  | nil => simp
  | append_singleton names y ih =>
    rw [runs_append_singleton, addRun]
    by_cases hlast : (runs names).getLast? = some y
    · rw [if_pos hlast]
      exact ih
    · rw [if_neg hlast]
      intro heq
      obtain ⟨hinit, hy⟩ := List.append_inj' heq rfl
      rw [hinit, List.getLast?_concat, List.singleton_inj.mp hy] at hlast
      exact hlast rfl

/-- Equal names are one run. -/
theorem runs_of_forall_eq {names : List α} {x : α} (h : ∀ y ∈ names, y = x) (hne : names ≠ []) :
    runs names = [x] := by
  induction names using List.reverseRecOn with
  | nil => exact absurd rfl hne
  | append_singleton names y ih =>
    obtain rfl : y = x := h y (by simp)
    rw [runs_append_singleton]
    by_cases hnames : names = []
    · subst hnames
      rfl
    · rw [ih (fun z hz => h z (List.mem_append_left _ hz)) hnames]
      exact if_pos rfl

end Runs

end SpotRelay.Library
