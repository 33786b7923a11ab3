import Mathlib.Data.List.TakeWhile
import Mathlib.Tactic.Common

/-!
# Texts in fixed arrays

A text is copied into an array of characters that is filled with NUL before, with room for the NUL
at its end, and read back up to the first NUL.  Text that is too long is cut.
-/

set_option autoImplicit false

namespace SpotRelay.Library

/-- The text before the first separator and the text behind it. -/
def splitAtFirst (separator : Char) (text : List Char) : Option (List Char × List Char) :=
  match text.dropWhile (· ≠ separator) with
  | _ :: rest => some (text.takeWhile (· ≠ separator), rest)
  | [] => none

/-- A text splits at the first separator. -/
theorem splitAtFirst_append {separator : Char} {front : List Char} (h : separator ∉ front)
    (rest : List Char) :
    splitAtFirst separator (front ++ separator :: rest) = some (front, rest) := by
  have hfront : ∀ c ∈ front, decide (c ≠ separator) = true := fun c hc =>
    decide_eq_true fun heq => h (heq ▸ hc)
  unfold splitAtFirst
  rw [List.dropWhile_append_of_pos hfront, List.takeWhile_append_of_pos hfront,
    List.dropWhile_cons_of_neg (by simp), List.takeWhile_cons_of_neg (by simp), List.append_nil]

/-- Room for so many characters and a NUL. -/
structure CharArray (room : ℕ) where
  chars : List Char
  length_eq : chars.length = room + 1
  last_nul : chars.getLast? = some '\x00'
deriving DecidableEq

namespace CharArray

variable {room : ℕ}

/-- The text is cut to the room that there is, and the rest of the array is NUL. -/
def copy (room : ℕ) (text : List Char) : CharArray room where
  chars := text.take room ++ List.replicate (room + 1 - min text.length room) '\x00'
  length_eq := by
    rw [List.length_append, List.length_take, List.length_replicate]
    omega
  last_nul := by
    have hpad : room + 1 - min text.length room = (room - min text.length room) + 1 := by omega
    rw [hpad, List.replicate_succ', ← List.append_assoc, List.getLast?_concat]

instance : Inhabited (CharArray room) := ⟨copy room []⟩

/-- The text up to the first NUL. -/
def text (a : CharArray room) : List Char := a.chars.takeWhile (· ≠ '\x00')

/-- The text of an array is no longer than its room. -/
theorem length_text_le (a : CharArray room) : a.text.length ≤ room := by
  by_contra hlong
  have hsub : a.text.Sublist a.chars := List.takeWhile_sublist _
  have hwhole : a.text = a.chars := by
    refine hsub.eq_of_length (Nat.le_antisymm hsub.length_le ?_)
    rw [a.length_eq]
    omega
  have hnul : '\x00' ∈ a.text := hwhole ▸ List.mem_of_getLast? a.last_nul
  have hne : decide ('\x00' ≠ '\x00') = true :=
    List.mem_takeWhile_imp (l := a.chars) (p := fun c => decide (c ≠ '\x00')) hnul
  exact of_decide_eq_true hne rfl

/-- Text without a zero byte is copied as far as there is room. -/
theorem text_copy {chars : List Char} (h : '\x00' ∉ chars) :
    (copy room chars).text = chars.take room := by
  have hplain : ∀ c ∈ chars.take room, decide (c ≠ '\x00') = true := fun c hc =>
    decide_eq_true fun heq => h (heq ▸ List.mem_of_mem_take hc)
  have hpad : room + 1 - min chars.length room = (room - min chars.length room) + 1 := by omega
  unfold text copy
  rw [List.takeWhile_append_of_pos hplain, hpad, List.replicate_succ,
    List.takeWhile_cons_of_neg (by simp), List.append_nil]

/-- Texts without a NUL fill an array alike exactly if they agree as far as there is room. -/
theorem copy_eq_iff {chars chars' : List Char} (h : '\x00' ∉ chars) (h' : '\x00' ∉ chars') :
    copy room chars = copy room chars' ↔ chars.take room = chars'.take room := by
  constructor
  · intro heq
    rw [← text_copy h, ← text_copy h', heq]
  · intro heq
    have hlength := congrArg List.length heq
    rw [List.length_take, List.length_take, Nat.min_comm, Nat.min_comm room] at hlength
    have hchars : (copy room chars).chars = (copy room chars').chars := by
      show _ ++ _ = _ ++ _
      rw [heq, hlength]
    generalize copy room chars = a at hchars ⊢
    generalize copy room chars' = b at hchars ⊢
    cases a
    cases b
    congr 1

end CharArray

end SpotRelay.Library
