import Mathlib.Logic.Function.Basic
import Mathlib.Tactic.Common

/-!
# A directory of named files

Names point to inodes, and a handle keeps the inode it was opened on: `rename` and `remove`
change the names only, and a write through a handle reaches its inode wherever that one is
named by then.  No two names share an inode, and an inode is never used again.
-/

set_option autoImplicit false

namespace SpotRelay.Library

/-- Files with contents over `α` under names from `ν`. -/
structure Directory (ν α : Type) where
  inode : ν → Option ℕ
  content : ℕ → List α
  nextInode : ℕ
  inode_lt : ∀ n i, inode n = some i → i < nextInode
  inode_inj : ∀ n m i, inode n = some i → inode m = some i → n = m

namespace Directory

variable {ν α : Type} {n m : ν} {i : ℕ}

/-- What a reader that opens `n` finds. -/
def read (d : Directory ν α) (n : ν) : Option (List α) := (d.inode n).map d.content

/-- No file yet. -/
def empty : Directory ν α where
  inode := fun _ => none
  content := fun _ => []
  nextInode := 0
  inode_lt := fun _ _ h => by cases h
  inode_inj := fun _ _ _ h => by cases h

/-- Writes `text` at the start of the file behind a handle; what lies beyond it stays. -/
def write (d : Directory ν α) (i : ℕ) (text : List α) : Directory ν α :=
  { d with content := Function.update d.content i (text ++ (d.content i).drop text.length) }

/-- The file behind a handle is cut to nothing. -/
def cut (d : Directory ν α) (i : ℕ) : Directory ν α :=
  { d with content := Function.update d.content i [] }

section Names

variable [DecidableEq ν]

/-- A new empty file under the name `n`. -/
def create (d : Directory ν α) (n : ν) : Directory ν α where
  inode := Function.update d.inode n (some d.nextInode)
  content := Function.update d.content d.nextInode []
  nextInode := d.nextInode + 1
  inode_lt := by
    intro m j hj
    by_cases hm : m = n
    · subst hm
      simp at hj
      omega
    · rw [Function.update_of_ne hm] at hj
      exact Nat.lt_succ_of_lt (d.inode_lt m j hj)
  inode_inj := by
    intro m k j hm hk
    by_cases hmn : m = n
    · by_cases hkn : k = n
      · rw [hmn, hkn]
      · subst hmn
        rw [Function.update_of_ne hkn] at hk
        have := d.inode_lt k j hk
        simp at hm
        omega
    · rw [Function.update_of_ne hmn] at hm
      by_cases hkn : k = n
      · subst hkn
        have := d.inode_lt m j hm
        simp at hk
        omega
      · rw [Function.update_of_ne hkn] at hk
        exact d.inode_inj m k j hm hk

/-- Opens `n` for writing and gives the handle: an existing file is cut to nothing, a missing
one is created. -/
def openTrunc (d : Directory ν α) (n : ν) : Directory ν α × ℕ :=
  match d.inode n with
  | some i => (d.cut i, i)
  | none => (d.create n, d.nextInode)

/-- The name `n` is taken away; handles on its file stay open. -/
def remove (d : Directory ν α) (n : ν) : Directory ν α where
  inode := Function.update d.inode n none
  content := d.content
  nextInode := d.nextInode
  inode_lt := by
    intro m j hj
    by_cases hm : m = n
    · subst hm
      simp at hj
    · rw [Function.update_of_ne hm] at hj
      exact d.inode_lt m j hj
  inode_inj := by
    intro m k j hm hk
    by_cases hmn : m = n
    · subst hmn
      simp at hm
    · by_cases hkn : k = n
      · subst hkn
        simp at hk
      · rw [Function.update_of_ne hmn] at hm
        rw [Function.update_of_ne hkn] at hk
        exact d.inode_inj m k j hm hk

/-- The file `n` becomes the file `m`, in place of the one that had this name.  It fails and
changes nothing when there is no `n`. -/
def rename (d : Directory ν α) (n m : ν) : Directory ν α :=
  match hn : d.inode n with
  | none => d
  | some i =>
    { inode := fun k => if k = m then some i else if k = n then none else d.inode k
      content := d.content
      nextInode := d.nextInode
      inode_lt := by
        intro k j hj
        split_ifs at hj with hkm hkn
        · rw [← Option.some.inj hj]
          exact d.inode_lt n i hn
        · exact d.inode_lt k j hj
      inode_inj := by
        intro k l j hk hl
        split_ifs at hk hl with hkm hlm hln hkn hlm hln
        · rw [hkm, hlm]
        · rw [← Option.some.inj hk] at hl
          exact absurd (d.inode_inj l n i hl hn) hln
        · rw [← Option.some.inj hl] at hk
          exact absurd (d.inode_inj k n i hk hn) hkn
        · exact d.inode_inj k l j hk hl }

end Names

/-! ## What a reader finds after an operation -/

/-- A write to an empty file leaves just what was written. -/
theorem write_content (d : Directory ν α) (text : List α) (h : d.content i = []) :
    (d.write i text).content i = text := by
  simp [write, h]

/-- A change of one file's content is not seen under the names of others. -/
theorem map_update_of_ne (d : Directory ν α) (text : List α) (hn : d.inode n = some i)
    (h : m ≠ n) : (d.inode m).map (Function.update d.content i text) = d.read m := by
  unfold read
  cases hm : d.inode m with
  | none => rfl
  | some j =>
    have hij : j ≠ i := by
      intro hij
      exact h (d.inode_inj m n i (hij ▸ hm) hn)
    simp [Function.update_of_ne hij]

/-- Writing one file leaves another as it was. -/
theorem read_write_of_ne (d : Directory ν α) (text : List α) (hn : d.inode n = some i)
    (h : m ≠ n) : (d.write i text).read m = d.read m :=
  map_update_of_ne d _ hn h

variable [DecidableEq ν]

/-- Creating one file leaves another as it was. -/
theorem read_create_of_ne (d : Directory ν α) (h : m ≠ n) : (d.create n).read m = d.read m := by
  show (Function.update d.inode n (some d.nextInode) m).map
    (Function.update d.content d.nextInode []) = (d.inode m).map d.content
  rw [Function.update_of_ne h]
  cases hm : d.inode m with
  | none => rfl
  | some j =>
    have hij : j ≠ d.nextInode := Nat.ne_of_lt (d.inode_lt m j hm)
    simp [Function.update_of_ne hij]

/-- The file opened for writing bears its name. -/
theorem openTrunc_inode (d : Directory ν α) (n : ν) :
    (d.openTrunc n).1.inode n = some (d.openTrunc n).2 := by
  unfold openTrunc
  split
  · assumption
  · simp [create]

/-- A file opened for truncation is empty. -/
theorem openTrunc_content (d : Directory ν α) (n : ν) :
    (d.openTrunc n).1.content (d.openTrunc n).2 = [] := by
  unfold openTrunc
  split
  · simp [cut]
  · simp [create]

/-- Opening one file leaves the others. -/
theorem read_openTrunc_of_ne (d : Directory ν α) (h : m ≠ n) :
    (d.openTrunc n).1.read m = d.read m := by
  unfold openTrunc
  split
  · rename_i i hn
    exact map_update_of_ne d _ hn h
  · exact read_create_of_ne d h

/-- Under the new name one reads what the old name held. -/
theorem read_rename (d : Directory ν α) (hn : d.inode n = some i) :
    (d.rename n m).read m = some (d.content i) := by
  unfold rename read
  split
  · rename_i hnone
    rw [hn] at hnone
    cases hnone
  · rename_i j hsome
    rw [hn] at hsome
    cases hsome
    simp

/-- A removed file cannot be read. -/
theorem read_remove (d : Directory ν α) (n : ν) : (d.remove n).read n = none := by
  simp [read, remove]

/-- Removing one name leaves the others pointing where they did. -/
theorem remove_inode_of_ne (d : Directory ν α) (h : m ≠ n) :
    (d.remove n).inode m = d.inode m :=
  Function.update_of_ne h _ _

end Directory

end SpotRelay.Library
