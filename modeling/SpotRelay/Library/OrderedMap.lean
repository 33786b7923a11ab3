import Mathlib.Data.List.Pairwise
import Mathlib.Data.Set.Basic
import Mathlib.Order.Defs.Unbundled
import Mathlib.Tactic.Common

/-!
# Maps whose entries are kept in order

A map from `κ` to `ν` whose entries stand in the strict order `before` on the keys, so that the
entry of the first key is at hand.  `Restricts` compares a map with another one of which it only
has the entries under some of the keys: the two have the same first entry exactly if the first
key of the larger map is one of those.
-/

set_option autoImplicit false

namespace SpotRelay.Library

/-- Entries in the order of their keys, each key once. -/
structure OrderedMap {κ : Type} (before : κ → κ → Prop) (ν : Type) where
  entries : List (κ × ν)
  sorted : entries.Pairwise fun a b => before a.1 b.1

namespace OrderedMap

variable {κ ν : Type} {before : κ → κ → Prop}

/-- No entry. -/
def empty : OrderedMap before ν := ⟨[], .nil⟩

/-- The entry of the first key. -/
def first (m : OrderedMap before ν) : Option (κ × ν) := m.entries.head?

/-- The map of the first `n` entries. -/
def take (n : ℕ) (m : OrderedMap before ν) : OrderedMap before ν :=
  ⟨m.entries.take n, m.sorted.sublist (List.take_sublist n m.entries)⟩

/-- The empty map has no entries. -/
@[simp] theorem entries_empty : (empty : OrderedMap before ν).entries = [] := rfl

/-- The first entries of a map are those of its list. -/
@[simp] theorem entries_take (n : ℕ) (m : OrderedMap before ν) :
    (m.take n).entries = m.entries.take n := rfl

/-- The first entry is an entry. -/
theorem mem_of_first {m : OrderedMap before ν} {e : κ × ν} (h : m.first = some e) :
    e ∈ m.entries :=
  List.mem_of_mem_head? h

/-- Only the empty map has no first entry. -/
theorem first_eq_none_iff {m : OrderedMap before ν} : m.first = none ↔ m.entries = [] :=
  List.head?_eq_none_iff

/-- The first key is before every other one. -/
theorem first_before {m : OrderedMap before ν} {e f : κ × ν} (h : m.first = some e)
    (hf : f ∈ m.entries) : f = e ∨ before e.1 f.1 := by
  obtain ⟨rest, hrest⟩ : ∃ rest, m.entries = e :: rest := List.head?_eq_some_iff.mp h
  have hsorted := m.sorted
  rw [hrest] at hf hsorted
  rcases List.mem_cons.mp hf with rfl | hf
  · exact Or.inl rfl
  · exact Or.inr (List.rel_of_pairwise_cons hsorted hf)

section Strict

variable [IsStrictTotalOrder κ before]

/-- No two entries of a map share a key. -/
theorem keys_ne (m : OrderedMap before ν) : m.entries.Pairwise fun a b => a.1 ≠ b.1 := by
  apply m.sorted.imp
  intro a b hab heq
  rw [heq] at hab
  exact irrefl_of before b.1 hab

/-- A key has one entry. -/
theorem eq_of_key_eq {m : OrderedMap before ν} {e f : κ × ν} (he : e ∈ m.entries)
    (hf : f ∈ m.entries) (hkey : e.1 = f.1) : e = f := by
  by_contra hne
  have : Std.Symm fun a b : κ × ν => a.1 ≠ b.1 := ⟨fun _ _ h => h.symm⟩
  exact m.keys_ne.forall he hf hne hkey

/-- An entry that is before all others is the first. -/
theorem first_eq_some {m : OrderedMap before ν} {e : κ × ν} (he : e ∈ m.entries)
    (hbefore : ∀ f ∈ m.entries, f = e ∨ before e.1 f.1) : m.first = some e := by
  cases hfirst : m.first with
  | none =>
    rw [first_eq_none_iff.mp hfirst] at he
    cases he
  | some f =>
    rcases hbefore f (mem_of_first hfirst) with rfl | hef
    · rfl
    rcases first_before hfirst he with rfl | hfe
    · rfl
    · exact absurd (trans_of before hef hfe) (irrefl_of before e.1)

end Strict

section Update

variable [DecidableRel before]

/-- Sets the entry of a key. -/
def insert [IsStrictTotalOrder κ before] (m : OrderedMap before ν) (k : κ) (v : ν) :
    OrderedMap before ν where
  entries := m.entries.filter (fun e => before e.1 k) ++
    (k, v) :: m.entries.filter (fun e => before k e.1)
  sorted := by
    rw [List.pairwise_append]
    refine ⟨m.sorted.filter _, ?_, ?_⟩
    · rw [List.pairwise_cons]
      exact ⟨fun e he => by simpa using (List.mem_filter.mp he).2, m.sorted.filter _⟩
    · intro e he f hf
      have hek : before e.1 k := by simpa using (List.mem_filter.mp he).2
      rcases List.mem_cons.mp hf with rfl | hf
      · exact hek
      · have hkf : before k f.1 := by simpa using (List.mem_filter.mp hf).2
        exact trans_of before hek hkf

/-- Drops the entry of a key. -/
def erase [DecidableEq κ] (m : OrderedMap before ν) (k : κ) : OrderedMap before ν :=
  ⟨m.entries.filter fun e => e.1 ≠ k, m.sorted.filter _⟩

variable [IsStrictTotalOrder κ before]

/-- After an insertion the map holds the new entry and the old ones under other keys. -/
theorem mem_insert {m : OrderedMap before ν} {k : κ} {v : ν} {e : κ × ν} :
    e ∈ (m.insert k v).entries ↔ e = (k, v) ∨ e.1 ≠ k ∧ e ∈ m.entries := by
  simp only [insert, List.mem_append, List.mem_filter, List.mem_cons, decide_eq_true_eq]
  constructor
  · rintro (⟨he, hbefore⟩ | rfl | ⟨he, hafter⟩)
    · exact Or.inr ⟨ne_of_irrefl hbefore, he⟩
    · exact Or.inl rfl
    · exact Or.inr ⟨ne_of_irrefl' hafter, he⟩
  · rintro (rfl | ⟨hne, he⟩)
    · exact Or.inr (Or.inl rfl)
    · rcases trichotomous_of before e.1 k with hbefore | heq | hafter
      · exact Or.inl ⟨he, hbefore⟩
      · exact absurd heq hne
      · exact Or.inr (Or.inr ⟨he, hafter⟩)

omit [IsStrictTotalOrder κ before] [DecidableRel before] in
/-- After an erasure the map holds the entries under other keys. -/
theorem mem_erase [DecidableEq κ] {m : OrderedMap before ν} {k : κ} {e : κ × ν} :
    e ∈ (m.erase k).entries ↔ e.1 ≠ k ∧ e ∈ m.entries := by
  simp [erase, and_comm]

/-- Entries set one after the other over distinct keys. -/
theorem mem_foldl_insert {m : OrderedMap before ν} {es : List (κ × ν)}
    (hkeys : es.Pairwise fun a b => a.1 ≠ b.1) {e : κ × ν} :
    e ∈ (es.foldl (fun m x => m.insert x.1 x.2) m).entries ↔
      e ∈ es ∨ (∀ x ∈ es, e.1 ≠ x.1) ∧ e ∈ m.entries := by
  induction es generalizing m with
  | nil => simp
  | cons x es ih =>
    rw [List.pairwise_cons] at hkeys
    rw [List.foldl_cons, ih hkeys.2, mem_insert]
    simp only [List.mem_cons, forall_eq_or_imp]
    constructor
    · rintro (he | ⟨hrest, rfl | ⟨hne, he⟩⟩)
      · exact Or.inl (Or.inr he)
      · exact Or.inl (Or.inl rfl)
      · exact Or.inr ⟨⟨hne, hrest⟩, he⟩
    · rintro ((rfl | he) | ⟨⟨hne, hrest⟩, he⟩)
      · exact Or.inr ⟨hkeys.1, Or.inl rfl⟩
      · exact Or.inl he
      · exact Or.inr ⟨hrest, Or.inr ⟨hne, he⟩⟩

end Update

/-! ## A map of which another one knows a part -/

/-- `m` has the entries of `whole` under the keys `known`, and no others. -/
def Restricts (m whole : OrderedMap before ν) (known : Set κ) : Prop :=
  ∀ e, e ∈ m.entries ↔ e ∈ whole.entries ∧ e.1 ∈ known

namespace Restricts

variable [IsStrictTotalOrder κ before] {m whole : OrderedMap before ν} {known : Set κ}

/-- The first entry is the same exactly if its key is known. -/
theorem first_eq_iff (h : Restricts m whole known) :
    m.first = whole.first ↔ ∀ e, whole.first = some e → e.1 ∈ known := by
  constructor
  · intro heq e he
    exact ((h e).mp (mem_of_first (heq.trans he))).2
  · intro hknown
    cases hfirst : whole.first with
    | none =>
      rw [first_eq_none_iff] at hfirst ⊢
      rw [List.eq_nil_iff_forall_not_mem]
      intro e he
      rw [h e, hfirst] at he
      cases he.1
    | some e =>
      apply first_eq_some ((h e).mpr ⟨mem_of_first hfirst, hknown e hfirst⟩)
      intro f hf
      exact first_before hfirst ((h f).mp hf).1

/-- The first entries of a map are what the map of them knows. -/
theorem take (whole : OrderedMap before ν) (n : ℕ) :
    Restricts (whole.take n) whole {k | ∃ v, (k, v) ∈ (whole.take n).entries} := by
  intro e
  constructor
  · intro he
    exact ⟨List.mem_of_mem_take he, e.2, he⟩
  · rintro ⟨he, v, hv⟩
    have hsame : e = (e.1, v) := eq_of_key_eq he (List.mem_of_mem_take hv) rfl
    rw [hsame]
    exact hv

variable [DecidableRel before]

/-- An entry set in both maps is known. -/
theorem insert (h : Restricts m whole known) (k : κ) (v : ν) :
    Restricts (m.insert k v) (whole.insert k v) (Set.insert k known) := by
  intro e
  rw [mem_insert, mem_insert, h e]
  constructor
  · rintro (rfl | ⟨hne, he, hknown⟩)
    · exact ⟨Or.inl rfl, Or.inl rfl⟩
    · exact ⟨Or.inr ⟨hne, he⟩, Or.inr hknown⟩
  · rintro ⟨rfl | ⟨hne, he⟩, hknown⟩
    · exact Or.inl rfl
    · exact Or.inr ⟨hne, he, hknown.resolve_left hne⟩

omit [IsStrictTotalOrder κ before] [DecidableRel before] in
/-- Erasing one key from both maps keeps the restriction, and the key is known from then on. -/
theorem erase [DecidableEq κ] (h : Restricts m whole known) (k : κ) :
    Restricts (m.erase k) (whole.erase k) (Set.insert k known) := by
  intro e
  rw [mem_erase, mem_erase, h e]
  constructor
  · rintro ⟨hne, he, hknown⟩
    exact ⟨⟨hne, he⟩, Or.inr hknown⟩
  · rintro ⟨⟨hne, he⟩, hknown⟩
    exact ⟨hne, he, hknown.resolve_left hne⟩

end Restricts

end OrderedMap

end SpotRelay.Library
