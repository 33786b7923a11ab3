import SpotRelay.Library.WordBits

/-!
# `AtomicBitset`

The bitset of memory/atomic_bitset.hpp: 64-bit words, bit `i` in word `i / 64`.  The engine
keeps its entry candidates and its fired signals in two of them.
-/

set_option autoImplicit false

namespace SpotRelay.Model

open SpotRelay.Library

/-- `AtomicBitset<BitCount>`: `WORD_COUNT` words of `WORD_BITS = 64` bits. -/
structure AtomicBitset (bitCount : ℕ) where
  words : List (BitVec 64)
  length_eq : words.length = (bitCount + 63) / 64
deriving DecidableEq

namespace AtomicBitset

variable {bitCount : ℕ}

/-- All bits clear. -/
def empty (bitCount : ℕ) : AtomicBitset bitCount :=
  ⟨List.replicate ((bitCount + 63) / 64) 0#64, by simp⟩

/-- `words_[word_idx]`. -/
def word (b : AtomicBitset bitCount) (i : ℕ) : BitVec 64 := b.words.getD i 0#64

/-- `uint64_t{1} << (index % WORD_BITS)`. -/
def mask (index : ℕ) : BitVec 64 := 1#64 <<< (index % 64)

def setWord (b : AtomicBitset bitCount) (i : ℕ) (x : BitVec 64) : AtomicBitset bitCount :=
  ⟨b.words.set i x, by rw [List.length_set, b.length_eq]⟩

/-- `set` (atomic_bitset.hpp:22-39). -/
def set (b : AtomicBitset bitCount) (index : ℕ) (enabled : Bool) : AtomicBitset bitCount :=
  if bitCount ≤ index then b
  else
    let current := b.word (index / 64)
    if enabled then
      if current &&& mask index ≠ 0#64 then b else b.setWord (index / 64) (current ||| mask index)
    else
      if current &&& mask index = 0#64 then b
      else b.setWord (index / 64) (current &&& ~~~(mask index))

/-- `test` (atomic_bitset.hpp:41-49). -/
def test (b : AtomicBitset bitCount) (index : ℕ) : Bool :=
  if bitCount ≤ index then false
  else decide (b.word (index / 64) &&& mask index ≠ 0#64)

/-- A word of `for_each_set` and `count`: the last one is cut at the limit. -/
def limitedWord (b : AtomicBitset bitCount) (limit i : ℕ) : BitVec 64 :=
  if i + 1 = (limit + 63) / 64 ∧ limit % 64 ≠ 0 then
    b.word i &&& ((1#64 <<< (limit % 64)) - 1#64)
  else b.word i

/-- `for_each_set` (atomic_bitset.hpp:73-93): the indices it calls `fn` with, in order. -/
def forEachSet (b : AtomicBitset bitCount) (limit : ℕ) : List ℕ :=
  let limit := min limit bitCount
  (List.range ((limit + 63) / 64)).flatMap fun i =>
    (WordBits.visit 64 (b.limitedWord limit i)).map (i * 64 + ·)

/-- `count` (atomic_bitset.hpp:57-71). -/
def count (b : AtomicBitset bitCount) (limit : ℕ) : ℕ :=
  let limit := min limit bitCount
  (List.range ((limit + 63) / 64)).foldl
    (fun total i => total + (b.limitedWord limit i).cpop.toNat) 0

/-- `clear_all` (atomic_bitset.hpp:51-55). -/
def clearAll (b : AtomicBitset bitCount) : AtomicBitset bitCount :=
  ⟨b.words.map fun _ => 0#64, by rw [List.length_map, b.length_eq]⟩

/-! ## A bitset is the set of its bits -/

/-- An index's mask has one bit set, that of its place in the word. -/
theorem getLsbD_mask (index i : ℕ) : (mask index).getLsbD i = decide (i = index % 64) := by
  have hlt : index % 64 < 64 := Nat.mod_lt _ (by omega)
  simp only [mask, BitVec.getLsbD_shiftLeft, BitVec.getLsbD_one]
  by_cases h : i = index % 64
  · simp [h, hlt]
  · simp only [h, decide_false, Bool.and_eq_false_imp, Bool.and_eq_true, decide_eq_true_eq,
      Bool.not_eq_true', decide_eq_false_iff_not]
    intro hi
    omega

/-- A masked word is nonzero exactly when the bit is set. -/
theorem and_mask_ne_zero_iff (x : BitVec 64) (index : ℕ) :
    x &&& mask index ≠ 0#64 ↔ x.getLsbD (index % 64) = true := by
  constructor
  · intro h
    by_contra hbit
    refine h (BitVec.eq_of_getLsbD_eq fun i _ => ?_)
    simp only [BitVec.getLsbD_and, getLsbD_mask, BitVec.getLsbD_zero]
    by_cases hi : i = index % 64
    · simpa [hi] using hbit
    · simp [hi]
  · intro hbit h
    have := congrArg (fun y => y.getLsbD (index % 64)) h
    simp [BitVec.getLsbD_and, getLsbD_mask, hbit] at this

/-- A bit reads as the bit of its word where the index is in range, and as false elsewhere. -/
theorem test_eq (b : AtomicBitset bitCount) (index : ℕ) :
    b.test index = (decide (index < bitCount) && (b.word (index / 64)).getLsbD (index % 64)) := by
  unfold test
  by_cases h : bitCount ≤ index
  · simp [h, Nat.not_lt_of_le h]
  · have hlt : index < bitCount := Nat.lt_of_not_le h
    rw [if_neg h, decide_eq_true hlt, Bool.true_and, Bool.eq_iff_iff, decide_eq_true_eq]
    exact and_mask_ne_zero_iff _ _

/-- Writing one word leaves the others as they were. -/
theorem word_setWord (b : AtomicBitset bitCount) (i j : ℕ) (x : BitVec 64)
    (hi : i < (bitCount + 63) / 64) :
    (b.setWord i x).word j = if i = j then x else b.word j := by
  have hlen : i < b.words.length := by rwa [b.length_eq]
  simp only [word, setWord, List.getD_eq_getElem?_getD, List.getElem?_set]
  by_cases h : i = j
  · subst h
    simp [hlen]
  · simp [h]

/-- In an empty bitset no bit is set. -/
@[simp] theorem test_empty (index : ℕ) : (empty bitCount).test index = false := by
  have hword : (empty bitCount).word (index / 64) = 0#64 := by
    simp only [empty, word, List.getD_eq_getElem?_getD, List.getElem?_replicate]
    split_ifs <;> rfl
  simp [test_eq, hword]

/-- Setting a bit below the size of the set changes that bit alone. -/
theorem test_set (b : AtomicBitset bitCount) (index i : ℕ) (enabled : Bool)
    (hindex : index < bitCount) :
    (b.set index enabled).test i = if i = index then enabled else b.test i := by
  have hword : index / 64 < (bitCount + 63) / 64 := by omega
  have hsplit : i = index ↔ index / 64 = i / 64 ∧ i % 64 = index % 64 := by
    have := Nat.div_add_mod i 64
    have := Nat.div_add_mod index 64
    constructor
    · rintro rfl
      exact ⟨rfl, rfl⟩
    · rintro ⟨hdiv, hmod⟩
      omega
  have hbound : i % 64 < 64 := Nat.mod_lt _ (by omega)
  have hself : (if i = index then b.test index else b.test i) = b.test i := by
    split_ifs with h
    · rw [h]
    · rfl
  unfold set
  rw [if_neg (Nat.not_le_of_lt hindex)]
  cases enabled with
  | true =>
    by_cases hbit : b.word (index / 64) &&& mask index ≠ 0#64
    · have hset : b.test index = true := by simp [test, Nat.not_le_of_lt hindex, hbit]
      simp only [if_true, if_pos hbit]
      rw [← hset, hself]
    · simp only [if_true, if_neg hbit, test_eq, word_setWord b _ _ _ hword]
      by_cases hdiv : index / 64 = i / 64
      · by_cases hmod : i % 64 = index % 64
        · have heq := hsplit.mpr ⟨hdiv, hmod⟩
          subst heq
          simp [hindex, getLsbD_mask]
        · have hne : i ≠ index := fun h => hmod (hsplit.mp h).2
          simp [hdiv, hne, BitVec.getLsbD_or, getLsbD_mask, hmod]
      · have hne : i ≠ index := fun h => hdiv (hsplit.mp h).1
        simp [hdiv, hne]
  | false =>
    by_cases hbit : b.word (index / 64) &&& mask index = 0#64
    · have hclear : b.test index = false := by simp [test, Nat.not_le_of_lt hindex, hbit]
      simp only [Bool.false_eq_true, if_false, if_pos hbit]
      rw [← hclear, hself]
    · simp only [Bool.false_eq_true, if_false, if_neg hbit, test_eq, word_setWord b _ _ _ hword]
      by_cases hdiv : index / 64 = i / 64
      · by_cases hmod : i % 64 = index % 64
        · have heq := hsplit.mpr ⟨hdiv, hmod⟩
          subst heq
          simp [hindex, getLsbD_mask]
        · have hne : i ≠ index := fun h => hmod (hsplit.mp h).2
          simp only [hdiv, if_true, if_neg hne, BitVec.getLsbD_and, BitVec.getLsbD_not,
          getLsbD_mask, hmod, hbound, decide_true, decide_false, Bool.not_false, Bool.and_true]
      · have hne : i ≠ index := fun h => hdiv (hsplit.mp h).1
        simp [hdiv, hne]

/-- An index past the end is not stored. -/
@[simp] theorem set_of_le (b : AtomicBitset bitCount) {index : ℕ} (enabled : Bool)
    (hindex : bitCount ≤ index) : b.set index enabled = b := if_pos hindex

/-- After `clearAll` no bit is set. -/
@[simp] theorem test_clearAll (b : AtomicBitset bitCount) (index : ℕ) :
    b.clearAll.test index = false := by
  have hword : b.clearAll.word (index / 64) = 0#64 := by
    unfold clearAll word
    rw [List.getD_eq_getElem?_getD, List.getElem?_map]
    cases b.words[index / 64]? <;> rfl
  rw [test_eq, hword]
  simp

/-! ## Iteration -/

/-- The limit cuts the words at the bit with that number. -/
theorem getLsbD_limitedWord (b : AtomicBitset bitCount) (limit i j : ℕ) (hj : j < 64)
    (hi : i < (limit + 63) / 64) :
    (b.limitedWord limit i).getLsbD j =
      (decide (i * 64 + j < limit) && (b.word i).getLsbD j) := by
  unfold limitedWord
  by_cases hlast : i + 1 = (limit + 63) / 64 ∧ limit % 64 ≠ 0
  · obtain ⟨hword, hrest⟩ := hlast
    have hmod : limit % 64 < 64 := Nat.mod_lt _ (by omega)
    have hpow : 2 ^ (limit % 64) < 2 ^ 64 := Nat.pow_lt_pow_right (by omega) hmod
    have hpos : 0 < 2 ^ (limit % 64) := Nat.two_pow_pos _
    have hmask : ((1#64 <<< (limit % 64)) - 1#64).toNat = 2 ^ (limit % 64) - 1 := by
      have hshift : (1#64 <<< (limit % 64)).toNat = 2 ^ (limit % 64) := by
        rw [BitVec.toNat_shiftLeft, BitVec.toNat_ofNat, Nat.one_mod, Nat.one_shiftLeft,
          Nat.mod_eq_of_lt hpow]
      rw [BitVec.toNat_sub_of_le, hshift]
      · rfl
      · rw [BitVec.le_def, hshift]
        exact hpos
    rw [if_pos ⟨hword, hrest⟩, BitVec.getLsbD_and]
    have hbit : ((1#64 <<< (limit % 64)) - 1#64).getLsbD j = decide (j < limit % 64) := by
      rw [BitVec.getLsbD, hmask, Nat.testBit_two_pow_sub_one]
    rw [hbit, Bool.and_comm]
    congr 1
    rw [Bool.eq_iff_iff, decide_eq_true_eq, decide_eq_true_eq]
    omega
  · rw [if_neg hlast]
    have : i * 64 + j < limit := by omega
    simp [this]

/-- `for_each_set` visits the members below the limit, each once, in increasing order. -/
theorem forEachSet_eq (b : AtomicBitset bitCount) (limit : ℕ) :
    b.forEachSet limit = (List.range (min limit bitCount)).filter b.test := by
  have hvisit : ∀ i, WordBits.visit 64 (b.limitedWord (min limit bitCount) i) =
      (List.range 64).filter (b.limitedWord (min limit bitCount) i).getLsbD :=
    fun i => WordBits.visit_eq_setBits _
  refine WordBits.eq_of_sorted_of_mem_iff ?_ (WordBits.sorted_filter_range _ _) ?_
  · simp only [forEachSet, hvisit]
    rw [List.pairwise_flatMap]
    constructor
    · intro i _
      rw [List.pairwise_map]
      exact (WordBits.sorted_filter_range _ _).imp fun h => by omega
    · refine List.pairwise_lt_range.imp ?_
      intro i j hij x hx y hy
      simp only [List.mem_map, List.mem_filter, List.mem_range] at hx hy
      obtain ⟨x, ⟨hx, -⟩, rfl⟩ := hx
      obtain ⟨y, ⟨hy, -⟩, rfl⟩ := hy
      omega
  · intro n
    simp only [forEachSet, hvisit, List.mem_flatMap, List.mem_map, List.mem_filter,
      List.mem_range, test_eq, Bool.and_eq_true, decide_eq_true_eq]
    constructor
    · rintro ⟨i, hi, j, ⟨hj, hbit⟩, rfl⟩
      rw [getLsbD_limitedWord b _ i j hj hi] at hbit
      simp only [Bool.and_eq_true, decide_eq_true_eq] at hbit
      have hdiv : (i * 64 + j) / 64 = i := by omega
      have hmod : (i * 64 + j) % 64 = j := by omega
      rw [hdiv, hmod]
      exact ⟨hbit.1, by omega, hbit.2⟩
    · rintro ⟨hn, -, hbit⟩
      have hword : n / 64 < (min limit bitCount + 63) / 64 := by omega
      have hj : n % 64 < 64 := Nat.mod_lt _ (by omega)
      refine ⟨n / 64, hword, n % 64, ⟨hj, ?_⟩, by omega⟩
      rw [getLsbD_limitedWord b _ _ _ hj hword, Bool.and_eq_true, decide_eq_true_eq]
      exact ⟨by omega, hbit⟩

/-- `count` is the number of the indices that `for_each_set` visits. -/
theorem count_eq_length (b : AtomicBitset bitCount) (limit : ℕ) :
    b.count limit = (b.forEachSet limit).length := by
  have hsum : ∀ (is : List ℕ) (total : ℕ), is.foldl
      (fun total i => total + (b.limitedWord (min limit bitCount) i).cpop.toNat) total =
        total + (is.flatMap fun i =>
          (WordBits.visit 64 (b.limitedWord (min limit bitCount) i)).map (i * 64 + ·)).length := by
    intro is
    induction is with
    | nil => exact fun _ => rfl
    | cons i is ih =>
      intro total
      rw [List.foldl_cons, ih, List.flatMap_cons, List.length_append, List.length_map,
        WordBits.visit_eq_setBits, WordBits.toNat_cpop_eq_length, Nat.add_assoc]
  unfold count forEachSet
  rw [hsum, Nat.zero_add]

end AtomicBitset

end SpotRelay.Model
