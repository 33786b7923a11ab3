import Mathlib.Data.Finset.Sort

/-!
# Sets of indices

What a bitset is for: a finite set of indices below a bound.  Indices that are out of bounds are
neither put in nor taken out.
-/

set_option autoImplicit false

namespace SpotRelay.Interface

/-- A set of indices below `bitCount`. -/
@[ext] structure IndexSet (bitCount : ℕ) where
  members : Finset ℕ
  lt_bitCount : ∀ i ∈ members, i < bitCount
deriving DecidableEq

/-- A call that changes a bitset. -/
inductive BitsetCall
  | set (index : ℕ) (enabled : Bool)
  | clearAll
deriving DecidableEq, Repr

namespace IndexSet

variable {bitCount : ℕ}

def empty (bitCount : ℕ) : IndexSet bitCount := ⟨∅, by simp⟩

def insert (s : IndexSet bitCount) (index : ℕ) (hindex : index < bitCount) : IndexSet bitCount where
  members := Insert.insert index s.members
  lt_bitCount := by
    intro i hi
    rcases Finset.mem_insert.mp hi with rfl | hi
    · exact hindex
    · exact s.lt_bitCount i hi

def erase (s : IndexSet bitCount) (index : ℕ) : IndexSet bitCount where
  members := s.members.erase index
  lt_bitCount := fun i hi => s.lt_bitCount i (Finset.mem_of_mem_erase hi)

/-- The index is put in or taken out, if it is one of the set's. -/
def call (s : IndexSet bitCount) : BitsetCall → IndexSet bitCount
  | .set index true => if hindex : index < bitCount then s.insert index hindex else s
  | .set index false => s.erase index
  | .clearAll => empty bitCount

def run (bitCount : ℕ) (calls : List BitsetCall) : IndexSet bitCount :=
  calls.foldl call (empty bitCount)

/-- The members below a limit. -/
def below (s : IndexSet bitCount) (limit : ℕ) : Finset ℕ := s.members.filter (· < limit)

end IndexSet

end SpotRelay.Interface
