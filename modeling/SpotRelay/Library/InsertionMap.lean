import Mathlib.Data.List.Induction
import Mathlib.Data.List.Nodup
import Mathlib.Order.Defs.Unbundled
import Mathlib.Tactic.Common

/-!
# Maps that keep the order of insertion

A map whose entries stand in the order in which their keys came.  `IsBest` says which entry is first
in an order on the keys; a scan over all entries finds it, and it can be followed through the writes
and deletions without one, except where the best entry itself is deleted.
-/

set_option autoImplicit false

namespace SpotRelay.Library

/-- Entries in the order of insertion, each key once. -/
structure InsertionMap (κ ν : Type) where
  entries : List (κ × ν)
  nodup : (entries.map Prod.fst).Nodup

namespace InsertionMap

variable {κ ν : Type}

/-- No entry. -/
def empty : InsertionMap κ ν := ⟨[], List.nodup_nil⟩

/-- The empty map has no entries. -/
@[simp] theorem entries_empty : (empty : InsertionMap κ ν).entries = [] := rfl

/-- A key has one entry. -/
theorem eq_of_key_eq {m : InsertionMap κ ν} {e f : κ × ν} (he : e ∈ m.entries)
    (hf : f ∈ m.entries) (hkey : e.1 = f.1) : e = f :=
  List.inj_on_of_nodup_map m.nodup he hf hkey

section Update

variable [DecidableEq κ]

/-- The value of a key. -/
def get? (m : InsertionMap κ ν) (k : κ) : Option ν :=
  (m.entries.find? fun e => e.1 = k).map Prod.snd

/-- Writes over the value of a key where it stands; a new key comes last. -/
def set (m : InsertionMap κ ν) (k : κ) (v : ν) : InsertionMap κ ν where
  entries :=
    if k ∈ m.entries.map Prod.fst then m.entries.map fun e => if e.1 = k then (k, v) else e
    else m.entries ++ [(k, v)]
  nodup := by
    split_ifs with hmem
    · have hkeys : (m.entries.map fun e => if e.1 = k then (k, v) else e).map Prod.fst =
          m.entries.map Prod.fst := by
        rw [List.map_map]
        refine List.map_congr_left fun e _ => ?_
        by_cases hkey : e.1 = k <;> simp [hkey]
      rw [hkeys]
      exact m.nodup
    · rw [List.map_append, List.nodup_append]
      refine ⟨m.nodup, List.nodup_singleton k, ?_⟩
      intro a ha b hb hab
      rw [List.map_singleton, List.mem_singleton] at hb
      rw [hab, hb] at ha
      exact hmem ha

/-- Drops the entry of a key. -/
def delete (m : InsertionMap κ ν) (k : κ) : InsertionMap κ ν where
  entries := m.entries.filter fun e => e.1 ≠ k
  nodup := m.nodup.sublist (List.filter_sublist.map Prod.fst)

/-- A key is looked up exactly where its entry is in the map. -/
theorem get?_eq_some_iff {m : InsertionMap κ ν} {k : κ} {v : ν} :
    m.get? k = some v ↔ (k, v) ∈ m.entries := by
  unfold get?
  constructor
  · intro h
    obtain ⟨e, he, rfl⟩ := Option.map_eq_some_iff.mp h
    have hkey : e.1 = k := by simpa using List.find?_some he
    rw [← hkey]
    exact List.mem_of_find?_eq_some he
  · intro h
    cases hfind : m.entries.find? fun e => e.1 = k with
    | none =>
      have hno := List.find?_eq_none.mp hfind (k, v) h
      simp at hno
    | some e =>
      have hkey : e.1 = k := by simpa using List.find?_some hfind
      rw [eq_of_key_eq (List.mem_of_find?_eq_some hfind) h hkey]
      rfl

/-- After a `set` the map holds the new entry and the old ones under other keys. -/
theorem mem_set {m : InsertionMap κ ν} {k : κ} {v : ν} {e : κ × ν} :
    e ∈ (m.set k v).entries ↔ e = (k, v) ∨ e ∈ m.entries ∧ e.1 ≠ k := by
  unfold set
  dsimp only
  split_ifs with hmem
  · obtain ⟨old, hold, rfl⟩ := List.mem_map.mp hmem
    rw [List.mem_map]
    constructor
    · rintro ⟨f, hf, rfl⟩
      by_cases hkey : f.1 = old.1
      · simp [hkey]
      · simp [hkey, hf]
    · rintro (rfl | ⟨he, hkey⟩)
      · exact ⟨old, hold, if_pos rfl⟩
      · exact ⟨e, he, if_neg hkey⟩
  · rw [List.mem_append, List.mem_singleton, or_comm]
    refine or_congr_right (iff_self_and.mpr fun he hkey => hmem ?_)
    rw [← hkey]
    exact List.mem_map_of_mem he

/-- After a `delete` the map holds the entries under other keys. -/
theorem mem_delete {m : InsertionMap κ ν} {k : κ} {e : κ × ν} :
    e ∈ (m.delete k).entries ↔ e ∈ m.entries ∧ e.1 ≠ k := by
  simp [delete]

end Update

/-! ## The best entry -/

section Best

variable (before : κ → κ → Prop)

/-- The entry whose key is before every other one, or none in an empty map. -/
def IsBest (m : InsertionMap κ ν) : Option (κ × ν) → Prop
  | none => m.entries = []
  | some e => e ∈ m.entries ∧ ∀ f ∈ m.entries, f = e ∨ before e.1 f.1

variable {before}

/-- The empty map has no best entry. -/
theorem isBest_empty : IsBest before (empty : InsertionMap κ ν) none := rfl

/-- There is one best entry at most. -/
theorem IsBest.unique [IsStrictOrder κ before] {m : InsertionMap κ ν} {a b : Option (κ × ν)}
    (ha : IsBest before m a) (hb : IsBest before m b) : a = b := by
  cases a with
  | none =>
    cases b with
    | none => rfl
    | some f =>
      have hf := hb.1
      rw [show m.entries = [] from ha] at hf
      cases hf
  | some e =>
    cases b with
    | none =>
      have he := ha.1
      rw [show m.entries = [] from hb] at he
      cases he
    | some f =>
      rcases ha.2 f hb.1 with rfl | hef
      · rfl
      · rcases hb.2 e ha.1 with rfl | hfe
        · rfl
        · exact absurd (trans_of before hef hfe) (irrefl_of before e.1)

section Follow

variable [DecidableEq κ] {m : InsertionMap κ ν} {b : κ × ν} {k : κ}

/-- The first entry is the best. -/
theorem IsBest.set_first (h : IsBest before m none) (v : ν) :
    IsBest before (m.set k v) (some (k, v)) := by
  refine ⟨mem_set.mpr (Or.inl rfl), fun f hf => ?_⟩
  rcases mem_set.mp hf with rfl | ⟨hf, -⟩
  · exact Or.inl rfl
  · rw [show m.entries = [] from h] at hf
    cases hf

/-- An entry before the best takes its place. -/
theorem IsBest.set_before [IsStrictOrder κ before] (h : IsBest before m (some b))
    (hbefore : before k b.1) (v : ν) : IsBest before (m.set k v) (some (k, v)) := by
  refine ⟨mem_set.mpr (Or.inl rfl), fun f hf => ?_⟩
  rcases mem_set.mp hf with rfl | ⟨hf, -⟩
  · exact Or.inl rfl
  · right
    rcases h.2 f hf with rfl | hbf
    · exact hbefore
    · exact trans_of before hbefore hbf

/-- The best entry keeps its place with a new value. -/
theorem IsBest.set_same (h : IsBest before m (some b)) (v : ν) :
    IsBest before (m.set b.1 v) (some (b.1, v)) := by
  refine ⟨mem_set.mpr (Or.inl rfl), fun f hf => ?_⟩
  rcases mem_set.mp hf with rfl | ⟨hf, hkey⟩
  · exact Or.inl rfl
  · right
    rcases h.2 f hf with rfl | hbf
    · exact absurd rfl hkey
    · exact hbf

/-- An entry behind the best leaves it. -/
theorem IsBest.set_after [IsStrictOrder κ before] (h : IsBest before m (some b))
    (hafter : before b.1 k) (v : ν) : IsBest before (m.set k v) (some b) := by
  have hne : b.1 ≠ k := by
    rintro rfl
    exact irrefl_of before _ hafter
  refine ⟨mem_set.mpr (Or.inr ⟨h.1, hne⟩), fun f hf => ?_⟩
  rcases mem_set.mp hf with rfl | ⟨hf, -⟩
  · exact Or.inr hafter
  · exact h.2 f hf

/-- So does the deletion of another entry. -/
theorem IsBest.delete_other (h : IsBest before m (some b)) (hne : b.1 ≠ k) :
    IsBest before (m.delete k) (some b) :=
  ⟨mem_delete.mpr ⟨h.1, hne⟩, fun f hf => h.2 f (mem_delete.mp hf).1⟩

/-- A map without entries stays without a best one when a key is deleted. -/
theorem IsBest.delete_none (h : IsBest before m none) : IsBest before (m.delete k) none := by
  show m.entries.filter _ = []
  rw [show m.entries = [] from h]
  rfl

end Follow

variable [DecidableRel before]

/-- The better of the best entry so far and the next one. -/
def keepBetter (before : κ → κ → Prop) [DecidableRel before] (best : Option (κ × ν))
    (e : κ × ν) : Option (κ × ν) :=
  match best with
  | none => some e
  | some b => if before e.1 b.1 then some e else some b

/-- One pass over the entries. -/
def scan (before : κ → κ → Prop) [DecidableRel before] (m : InsertionMap κ ν) : Option (κ × ν) :=
  m.entries.foldl (keepBetter before) none

/-- Any two entries can be compared. -/
def Comparable (before : κ → κ → Prop) (m : InsertionMap κ ν) : Prop :=
  ∀ e ∈ m.entries, ∀ f ∈ m.entries, e.1 ≠ f.1 → before e.1 f.1 ∨ before f.1 e.1

/-- Where the keys can be compared, the pass finds the best entry. -/
theorem isBest_scan [IsStrictOrder κ before] {m : InsertionMap κ ν} (hall : Comparable before m) :
    IsBest before m (m.scan before) := by
  obtain ⟨entries, hnodup⟩ := m
  unfold scan
  dsimp only
  induction entries using List.reverseRecOn with
  | nil => exact isBest_empty
  | append_singleton entries e ih =>
    have hprefix : (entries.map Prod.fst).Nodup := by
      rw [List.map_append] at hnodup
      exact (List.nodup_append.mp hnodup).1
    have hbest := ih hprefix fun a ha b hb =>
      hall a (List.mem_append_left _ ha) b (List.mem_append_left _ hb)
    rw [List.foldl_append, List.foldl_cons, List.foldl_nil]
    cases hfound : entries.foldl (keepBetter before) none with
    | none =>
      rw [hfound] at hbest
      have hnil : entries = [] := hbest
      subst hnil
      exact ⟨by simp, fun f hf => Or.inl (by simpa using hf)⟩
    | some b =>
      rw [hfound] at hbest
      obtain ⟨hmem, hfirst⟩ := hbest
      by_cases hbetter : before e.1 b.1
      · rw [keepBetter, if_pos hbetter]
        refine ⟨by simp, fun f hf => ?_⟩
        rcases List.mem_append.mp hf with hf | hf
        · right
          rcases hfirst f hf with rfl | hbf
          · exact hbetter
          · exact trans_of before hbetter hbf
        · exact Or.inl (by simpa using hf)
      · rw [keepBetter, if_neg hbetter]
        refine ⟨List.mem_append_left _ hmem, fun f hf => ?_⟩
        rcases List.mem_append.mp hf with hf | hf
        · exact hfirst f hf
        · obtain rfl := List.mem_singleton.mp hf
          right
          -- another entry has another key
          have hne : b.1 ≠ f.1 := by
            intro hkey
            rw [List.map_append, List.nodup_append] at hnodup
            exact hnodup.2.2 b.1 (List.mem_map_of_mem hmem) f.1 (by simp) hkey
          exact (hall b (List.mem_append_left _ hmem) f (by simp) hne).resolve_right hbetter

end Best

end InsertionMap

end SpotRelay.Library
