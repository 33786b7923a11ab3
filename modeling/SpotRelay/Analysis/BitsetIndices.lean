import SpotRelay.Interface.IndexSet
import SpotRelay.Model.AtomicBitset

/-!
# A bitset is a set of indices

After any calls the bits of an `AtomicBitset` are the members of the set of indices that the same
calls leave, whatever its size: the words and masks do not show.

* **one call** on the bitset is the same call on the set (`Represents.call`), and so is any sequence
  of calls (`represents_run`).
* **the walk** over the set bits is the walk over the members in order (`Represents.forEachSet_eq`).
-/

set_option autoImplicit false

namespace SpotRelay.Analysis

open SpotRelay.Model SpotRelay.Interface SpotRelay.Library

variable {bitCount : ℕ}

/-- A call on the bitset. -/
def bitsetCall (b : AtomicBitset bitCount) : BitsetCall → AtomicBitset bitCount
  | .set index enabled => b.set index enabled
  | .clearAll => b.clearAll

def runBitset (bitCount : ℕ) (calls : List BitsetCall) : AtomicBitset bitCount :=
  calls.foldl bitsetCall (.empty bitCount)

/-- The bits that are set are the members. -/
def Represents (b : AtomicBitset bitCount) (s : IndexSet bitCount) : Prop :=
  ∀ i, b.test i = decide (i ∈ s.members)

/-- The empty bitset represents the empty set. -/
theorem represents_empty : Represents (.empty bitCount) (IndexSet.empty bitCount) := by
  intro i
  simp [IndexSet.empty]

variable {b : AtomicBitset bitCount} {s : IndexSet bitCount}

/-- One operation on the bitset is the same operation on the set. -/
theorem Represents.call (h : Represents b s) (c : BitsetCall) :
    Represents (bitsetCall b c) (s.call c) := by
  intro i
  cases c with
  | clearAll => simp [bitsetCall, IndexSet.call, IndexSet.empty]
  | set index enabled =>
    by_cases hindex : index < bitCount
    · have htest : (bitsetCall b (.set index enabled)).test i =
          if i = index then enabled else decide (i ∈ s.members) := by
        rw [← h i]
        exact b.test_set index i enabled hindex
      rw [htest]
      cases enabled with
      | true =>
        by_cases hi : i = index
        · simp [IndexSet.call, IndexSet.insert, hindex, hi]
        · simp [IndexSet.call, IndexSet.insert, hindex, hi]
      | false =>
        by_cases hi : i = index
        · simp [IndexSet.call, IndexSet.erase, hi]
        · simp [IndexSet.call, IndexSet.erase, hi]
    · have hsame : bitsetCall b (.set index enabled) = b :=
        b.set_of_le enabled (Nat.le_of_not_lt hindex)
      -- an index that is out of bounds is no member
      have hnot : index ∉ s.members := fun hmem => hindex (s.lt_bitCount index hmem)
      have hset : (s.call (.set index enabled)).members = s.members := by
        cases enabled with
        | true => simp [IndexSet.call, hindex]
        | false => exact Finset.erase_eq_of_notMem hnot
      rw [hsame, hset]
      exact h i

/-- Any sequence of operations on the bitset is the same sequence on the set. -/
theorem represents_run (calls : List BitsetCall) :
    Represents (runBitset bitCount calls) (IndexSet.run bitCount calls) := by
  unfold runBitset IndexSet.run
  induction calls using List.reverseRecOn with
  | nil => exact represents_empty
  | append_singleton calls c ih =>
    rw [List.foldl_append, List.foldl_append]
    exact ih.call c

/-- `for_each_set` goes through the members below the limit. -/
theorem Represents.forEachSet_eq (h : Represents b s) (limit : ℕ) :
    b.forEachSet limit = (s.below (min limit bitCount)).sort (· ≤ ·) := by
  have hsorted : (b.forEachSet limit).Pairwise (· < ·) := by
    rw [b.forEachSet_eq]
    exact WordBits.sorted_filter_range _ _
  have hmembers : (b.forEachSet limit).toFinset = s.below (min limit bitCount) := by
    ext i
    rw [b.forEachSet_eq, List.mem_toFinset, List.mem_filter, List.mem_range, h i,
      decide_eq_true_eq, IndexSet.below, Finset.mem_filter, and_comm]
  have hnodup : (b.forEachSet limit).Nodup := hsorted.imp Nat.ne_of_lt
  rw [← hmembers]
  exact ((List.toFinset_sort (· ≤ ·) hnodup).mpr (hsorted.imp Nat.le_of_lt)).symm

/-- A bitset does what a set of indices does: `test` is membership, `for_each_set` calls its
argument for each member below the limit, once and in increasing order, and `count` is their
number. -/
theorem bitset_refines_indexSet (bitCount : ℕ) (calls : List BitsetCall) :
    let b := runBitset bitCount calls
    let s := IndexSet.run bitCount calls
    (∀ i, b.test i = decide (i ∈ s.members)) ∧
      ∀ limit, b.forEachSet limit = (s.below (min limit bitCount)).sort (· ≤ ·) ∧
        b.count limit = (s.below (min limit bitCount)).card := by
  intro b s
  have hbits : Represents b s := represents_run calls
  refine ⟨hbits, fun limit => ⟨hbits.forEachSet_eq limit, ?_⟩⟩
  rw [b.count_eq_length, hbits.forEachSet_eq, Finset.length_sort]

end SpotRelay.Analysis
