import Mathlib.Data.List.Basic
import Mathlib.Data.List.Sort
import Mathlib.Data.Nat.Bitwise
import Mathlib.Tactic.Common

/-!
# The set bits of a machine word

The loop `while (word != 0) { visit(countr_zero(word)); word &= word - 1; }` visits the set
bits of a word in increasing order, each once.
-/

set_option autoImplicit false

namespace SpotRelay.Library.WordBits

/-! ## Sorted lists -/

/-- Two strictly increasing lists with the same members are equal. -/
theorem eq_of_sorted_of_mem_iff {xs ys : List ℕ} (hxs : xs.Pairwise (· < ·))
    (hys : ys.Pairwise (· < ·)) (hmem : ∀ i, i ∈ xs ↔ i ∈ ys) : xs = ys := by
  have hperm : xs.Perm ys :=
    (List.perm_ext_iff_of_nodup (hxs.imp Nat.ne_of_lt) (hys.imp Nat.ne_of_lt)).mpr hmem
  exact hperm.eq_of_pairwise (fun a b _ _ hab hba => absurd hab (Nat.lt_asymm hba)) hxs hys

/-- A filtered range is still sorted. -/
theorem sorted_filter_range (p : ℕ → Bool) (n : ℕ) :
    ((List.range n).filter p).Pairwise (· < ·) :=
  List.pairwise_lt_range.filter p

/-! ## Clearing the lowest set bit -/

/-- Subtracting one flips the lowest set bit and everything below it. -/
theorem testBit_sub_one {n k : ℕ} (hk : n.testBit k = true)
    (hlow : ∀ j < k, n.testBit j = false) (i : ℕ) :
    (n - 1).testBit i = (decide (i < k) || (decide (k < i) && n.testBit i)) := by
  induction k generalizing n i with
  | zero =>
    have hodd : n % 2 = 1 := by simpa using hk
    cases i with
    | zero =>
      have : (n - 1) % 2 = 0 := by omega
      simp [this]
    | succ i =>
      have : (n - 1) / 2 = n / 2 := by omega
      simp [Nat.testBit_succ, this]
  | succ k ih =>
    have heven : n % 2 = 0 := by simpa using hlow 0 (Nat.succ_pos k)
    have hpos : n ≠ 0 := by
      rintro rfl
      simp at hk
    cases i with
    | zero =>
      have : (n - 1) % 2 = 1 := by omega
      simp [this]
    | succ i =>
      have hhalf : (n - 1) / 2 = n / 2 - 1 := by omega
      have hnext := ih (n := n / 2) (by simpa [Nat.testBit_succ] using hk)
        (fun j hj => by simpa [Nat.testBit_succ] using hlow (j + 1) (by omega)) i
      simp only [Nat.testBit_succ, hhalf, hnext]
      congr 1
      · simp
      · simp

variable {w : ℕ}

/-- `word &= word - 1` clears the lowest set bit and no other. -/
theorem getLsbD_clear_lowest {x : BitVec w} (hx : x ≠ 0#w) (i : ℕ) :
    (x &&& (x - 1#w)).getLsbD i = (x.getLsbD i && decide (i ≠ x.ctz.toNat)) := by
  have hpos : 1 ≤ x.toNat := by
    have := BitVec.toNat_ne.mp hx
    simp only [BitVec.toNat_ofNat, Nat.zero_mod] at this
    omega
  have hw : 0 < w := by
    rcases Nat.eq_zero_or_pos w with rfl | hw
    · exact absurd (BitVec.eq_nil x) (by simpa using hx)
    · exact hw
  have hsub : (x - 1#w).toNat = x.toNat - 1 := by
    rw [BitVec.toNat_sub_of_le]
    · rw [BitVec.toNat_ofNat, Nat.mod_eq_of_lt (Nat.one_lt_two_pow hw.ne')]
    · rw [BitVec.le_def, BitVec.toNat_ofNat, Nat.mod_eq_of_lt (Nat.one_lt_two_pow hw.ne')]
      exact hpos
  have hbit := testBit_sub_one (n := x.toNat) (k := x.ctz.toNat)
    (BitVec.getLsbD_true_ctz_of_ne_zero hx) (fun j hj => BitVec.getLsbD_false_of_lt_ctz hj) i
  rw [BitVec.getLsbD_and]
  simp only [BitVec.getLsbD, hsub, hbit]
  rcases Nat.lt_trichotomy i x.ctz.toNat with h | h | h
  · have : x.toNat.testBit i = false := BitVec.getLsbD_false_of_lt_ctz h
    simp [this]
  · simp [h]
  · simp [h, Nat.ne_of_gt h, Nat.not_lt_of_gt h]

/-! ## The loop -/

/-- The bits that the loop visits; a word of width `w` needs at most `w` rounds. -/
def visit : ℕ → BitVec w → List ℕ
  | 0, _ => []
  | fuel + 1, x => if x = 0#w then [] else x.ctz.toNat :: visit fuel (x &&& (x - 1#w))

/-- The set bits of a word in increasing order. -/
def setBits (x : BitVec w) : List ℕ := (List.range w).filter x.getLsbD

/-- No bit of zero is set. -/
theorem setBits_zero : setBits (0#w) = [] := by
  simp [setBits]

/-- The lowest set bit comes first, the others are those of the cleared word. -/
theorem setBits_of_ne_zero {x : BitVec w} (hx : x ≠ 0#w) :
    setBits x = x.ctz.toNat :: setBits (x &&& (x - 1#w)) := by
  have hlow : ∀ i, x.getLsbD i = true → x.ctz.toNat ≤ i := by
    intro i hi
    by_contra hlt
    rw [BitVec.getLsbD_false_of_lt_ctz (Nat.lt_of_not_le hlt)] at hi
    exact absurd hi (by simp)
  refine eq_of_sorted_of_mem_iff (sorted_filter_range _ _) ?_ ?_
  · refine List.pairwise_cons.mpr ⟨?_, sorted_filter_range _ _⟩
    intro i hi
    simp only [setBits, List.mem_filter, getLsbD_clear_lowest hx, Bool.and_eq_true,
      decide_eq_true_eq] at hi
    exact Nat.lt_of_le_of_ne (hlow i hi.2.1) (Ne.symm hi.2.2)
  · intro i
    have hlt : ∀ j, x.getLsbD j = true → j < w := fun j hj => BitVec.lt_of_getLsbD hj
    have hctz := BitVec.getLsbD_true_ctz_of_ne_zero hx
    simp only [setBits, List.mem_filter, List.mem_range, List.mem_cons,
      getLsbD_clear_lowest hx, Bool.and_eq_true, decide_eq_true_eq]
    constructor
    · rintro ⟨hi, hbit⟩
      by_cases heq : i = x.ctz.toNat
      · exact Or.inl heq
      · exact Or.inr ⟨hi, hbit, heq⟩
    · rintro (rfl | ⟨hi, hbit, -⟩)
      · exact ⟨hlt _ hctz, hctz⟩
      · exact ⟨hi, hbit⟩

/-- The loop visits exactly the set bits, in increasing order. -/
theorem visit_eq_setBits (x : BitVec w) : visit w x = setBits x := by
  suffices h : ∀ (fuel : ℕ) (x : BitVec w), (setBits x).length ≤ fuel → visit fuel x = setBits x by
    refine h w x ?_
    calc (setBits x).length ≤ (List.range w).length := List.length_filter_le _ _
      _ = w := List.length_range
  intro fuel
  induction fuel with
  | zero =>
    intro x hlen
    exact (List.eq_nil_of_length_eq_zero (Nat.le_zero.mp hlen)).symm
  | succ fuel ih =>
    intro x hlen
    by_cases hx : x = 0#w
    · simp [visit, hx, setBits_zero]
    · rw [setBits_of_ne_zero hx] at hlen ⊢
      rw [visit, if_neg hx, ih]
      simpa using hlen

/-! ## Counting -/

/-- The population count of a word is the number of its set bits. -/
theorem toNat_cpop_eq_length (x : BitVec w) : x.cpop.toNat = (setBits x).length := by
  have hbelow : ∀ n, x.cpopNatRec n 0 = ((List.range n).filter x.getLsbD).length := by
    intro n
    induction n with
    | zero => rfl
    | succ n ih =>
      rw [BitVec.cpopNatRec_succ, BitVec.cpopNatRec_eq, ih, List.range_succ, List.filter_append,
        List.length_append, Nat.zero_add]
      cases hbit : x.getLsbD n with
      | false => simp [hbit]
      | true => simp [hbit]
  rw [BitVec.toNat_cpop, hbelow]
  rfl

end SpotRelay.Library.WordBits
