import Mathlib.Tactic.Linarith
import SpotRelay.Model.Base64

/-!
# What is encoded is decoded

The decoder keeps the bits of earlier bytes in its word, but a byte that it pushes is made of the
last eight or twelve bits.  So it reads the four digits of a group as the three bytes, whatever
came before, and the digits of the last group as the bytes that there were.

* **one group**: a pass of the decoder over four digits pushes the three bytes that they were made
  of (`decodeLoop_sextets`), and the padding pushes nothing (`decodeLoop_padding`).
* **the alphabet** with two characters changed back is the one that the decoder knows
  (`fromUrlSafe_toUrlSafe`).
-/

set_option autoImplicit false

namespace SpotRelay.Analysis

open SpotRelay.Model SpotRelay.Model.Crypto

/-! ## Words -/

/-- Six more bits at the lower end of a word. -/
theorem toNat_shiftLeft_or (val : UInt32) {digit : ℕ} (hdigit : digit < 64) :
    ((val <<< 6) ||| UInt32.ofNat digit).toNat = (val.toNat * 64 + digit) % 2 ^ 32 := by
  have hword : (UInt32.ofNat digit).toNat = digit := UInt32.toNat_ofNat_of_lt' (by
    show digit < 2 ^ 32
    omega)
  have hshift : (val <<< 6).toNat = (val.toNat % 2 ^ 26) <<< 6 := by
    rw [UInt32.toNat_shiftLeft, Nat.shiftLeft_eq, Nat.shiftLeft_eq]
    show val.toNat * 2 ^ 6 % 2 ^ 32 = _
    omega
  rw [UInt32.toNat_or, hword, hshift, ← Nat.shiftLeft_add_eq_or_of_lt hdigit, Nat.shiftLeft_eq]
  omega

/-- A byte cut out of a word is the word's own digit. -/
theorem toUInt8_shiftRight (val : UInt32) {bits : ℕ} (hbits : bits < 32) :
    (((val >>> UInt32.ofNat bits) &&& 0xFF).toUInt8).toNat = val.toNat / 2 ^ bits % 256 := by
  have hword : (UInt32.ofNat bits).toNat % 32 = bits := by
    rw [UInt32.toNat_ofNat_of_lt' (by show bits < 2 ^ 32; omega), Nat.mod_eq_of_lt hbits]
  have hmask : (0xFF : UInt32).toNat = 2 ^ 8 - 1 := rfl
  rw [UInt32.toNat_toUInt8, UInt32.toNat_and, UInt32.toNat_shiftRight, hword, hmask,
    Nat.and_two_pow_sub_one_eq_mod, Nat.shiftRight_eq_div_pow]
  exact Nat.mod_mod _ _

/-- The word of a group. -/
theorem toNat_group (first second third : UInt8) :
    ((first.toUInt32 <<< 16) ||| (second.toUInt32 <<< 8) ||| third.toUInt32).toNat =
      first.toNat * 65536 + second.toNat * 256 + third.toNat := by
  have hfirst := first.toNat_lt
  have hsecond := second.toNat_lt
  have hthird := third.toNat_lt
  have hhigh : (first.toUInt32 <<< 16).toNat = first.toNat <<< 16 := by
    rw [UInt32.toNat_shiftLeft, UInt8.toNat_toUInt32]
    refine Nat.mod_eq_of_lt ?_
    rw [Nat.shiftLeft_eq]
    show first.toNat * 2 ^ 16 < 2 ^ 32
    omega
  have hmiddle : (second.toUInt32 <<< 8).toNat = second.toNat <<< 8 := by
    rw [UInt32.toNat_shiftLeft, UInt8.toNat_toUInt32]
    refine Nat.mod_eq_of_lt ?_
    rw [Nat.shiftLeft_eq]
    show second.toNat * 2 ^ 8 < 2 ^ 32
    omega
  have hlow : second.toNat <<< 8 < 2 ^ 16 := by
    rw [Nat.shiftLeft_eq]
    omega
  have hboth : first.toNat <<< 16 + second.toNat <<< 8 =
      (first.toNat * 256 + second.toNat) <<< 8 := by
    rw [Nat.shiftLeft_eq, Nat.shiftLeft_eq, Nat.shiftLeft_eq]
    omega
  rw [UInt32.toNat_or, UInt32.toNat_or, hhigh, hmiddle, UInt8.toNat_toUInt32,
    ← Nat.shiftLeft_add_eq_or_of_lt hlow, hboth, ← Nat.shiftLeft_add_eq_or_of_lt hthird,
    Nat.shiftLeft_eq]
  omega

/-! ## Digits -/

/-- The character of a digit. -/
def digitChar (digit : ℕ) : Char := encodeTable.getD digit '\x00'

/-- An encoded digit stands for six bits of the word. -/
theorem encodeDigit_eq (n : UInt32) {shift : UInt32} (hshift : shift.toNat < 32) :
    encodeDigit n shift = digitChar (n.toNat / 2 ^ shift.toNat % 64) := by
  have hmask : (0x3F : UInt32).toNat = 2 ^ 6 - 1 := rfl
  unfold encodeDigit digitChar
  rw [UInt32.toNat_and, UInt32.toNat_shiftRight, Nat.mod_eq_of_lt hshift, hmask,
    Nat.and_two_pow_sub_one_eq_mod, Nat.shiftRight_eq_div_pow]

/-- The tables are inverse to each other, and no digit is written as padding. -/
theorem decodeTable_digitChar {digit : ℕ} (h : digit < 64) :
    decodeTable.getD (digitChar digit).toNat (-1) = digit ∧ (digitChar digit).toNat < 128 ∧
      digitChar digit ≠ '=' := by
  have hall : ∀ k < 64, decodeTable.getD (digitChar k).toNat (-1) = k ∧
      (digitChar k).toNat < 128 ∧ digitChar k ≠ '=' := by decide +kernel
  exact hall digit h

/-- A digit in the loop of the decoder. -/
theorem decodeLoop_digit (val : UInt32) (bits : ℕ) {digit : ℕ} (h : digit < 64)
    (data : List Char) :
    decodeLoop val bits (digitChar digit :: data) =
      if 2 ≤ bits then
        ((((val <<< 6) ||| UInt32.ofNat digit) >>> UInt32.ofNat (bits - 2)) &&& 0xFF).toUInt8 ::
          decodeLoop ((val <<< 6) ||| UInt32.ofNat digit) (bits - 2) data
      else decodeLoop ((val <<< 6) ||| UInt32.ofNat digit) (bits + 6) data := by
  obtain ⟨hvalue, hascii, hpad⟩ := decodeTable_digitChar h
  have hnonneg : ¬ (digit : ℤ) < 0 := by omega
  have hword : UInt32.ofInt (digit : ℤ) = UInt32.ofNat digit := by
    rw [← UInt32.toNat_inj]
    simp [UInt32.ofInt]
    omega
  rw [decodeLoop, if_neg hpad, if_neg (Nat.not_le_of_lt hascii), hvalue]
  dsimp only
  rw [if_neg hnonneg, hword]
  by_cases hbits : 2 ≤ bits
  · have hfull : 8 ≤ bits + 6 := by omega
    have hrest : bits + 6 - 8 = bits - 2 := by omega
    rw [if_pos hbits, if_pos hfull, hrest]
  · have hshort : ¬ 8 ≤ bits + 6 := by omega
    rw [if_neg hbits, if_neg hshort]

/-! ## Groups -/

/-- The digits that a string is written with, three bytes as four. -/
def sextets : List UInt8 → List ℕ
  | [] => []
  | [first] => [first.toNat / 4, first.toNat % 4 * 16]
  | [first, second] =>
    [first.toNat / 4, first.toNat % 4 * 16 + second.toNat / 16, second.toNat % 16 * 4]
  | first :: second :: third :: rest =>
    first.toNat / 4 :: (first.toNat % 4 * 16 + second.toNat / 16) ::
      (second.toNat % 16 * 4 + third.toNat / 64) :: third.toNat % 64 :: sextets rest

/-- The `=` characters behind them. -/
def padding (raw : List UInt8) : List Char := List.replicate ((3 - raw.length % 3) % 3) '='

/-- Six bits make a digit below 64. -/
theorem sextets_lt {raw : List UInt8} : ∀ digit ∈ sextets raw, digit < 64 := by
  fun_induction sextets raw with
  | case1 => simp
  | case2 first =>
    have hfirst := first.toNat_lt
    simp only [List.forall_mem_cons]
    exact ⟨by omega, by omega, by simp⟩
  | case3 first second =>
    have hfirst := first.toNat_lt
    have hsecond := second.toNat_lt
    simp only [List.forall_mem_cons]
    exact ⟨by omega, by omega, by omega, by simp⟩
  | case4 first second third rest ih =>
    have hfirst := first.toNat_lt
    have hsecond := second.toNat_lt
    have hthird := third.toNat_lt
    simp only [List.forall_mem_cons]
    exact ⟨by omega, by omega, by omega, by omega, ih⟩

/-- The four digits of a word that three bytes make. -/
theorem encodeDigits_of_toNat {n : UInt32} {first second third : UInt8}
    (hn : n.toNat = first.toNat * 65536 + second.toNat * 256 + third.toNat) :
    encodeDigit n 18 = digitChar (first.toNat / 4) ∧
      encodeDigit n 12 = digitChar (first.toNat % 4 * 16 + second.toNat / 16) ∧
      encodeDigit n 6 = digitChar (second.toNat % 16 * 4 + third.toNat / 64) ∧
      encodeDigit n 0 = digitChar (third.toNat % 64) := by
  have hfirst := first.toNat_lt
  have hsecond := second.toNat_lt
  have hthird := third.toNat_lt
  rw [encodeDigit_eq n (by decide : (18 : UInt32).toNat < 32),
    encodeDigit_eq n (by decide : (12 : UInt32).toNat < 32),
    encodeDigit_eq n (by decide : (6 : UInt32).toNat < 32),
    encodeDigit_eq n (by decide : (0 : UInt32).toNat < 32), hn]
  simp only [UInt32.reduceToNat]
  refine ⟨?_, ?_, ?_, ?_⟩
  · apply congrArg
    omega
  · apply congrArg
    omega
  · apply congrArg
    omega
  · apply congrArg
    omega

/-- The encoding is the characters of the digits and the padding. -/
theorem base64Encode_eq (raw : List UInt8) :
    base64Encode raw = (sextets raw).map digitChar ++ padding raw := by
  fun_induction sextets raw with
  | case1 => rfl
  | case2 first =>
    have hword : (first.toUInt32 <<< 16).toNat =
        first.toNat * 65536 + (0 : UInt8).toNat * 256 + (0 : UInt8).toNat := by
      simpa using toNat_group first 0 0
    obtain ⟨hone, htwo, -, -⟩ := encodeDigits_of_toNat hword
    simp [base64Encode, encodeGroup, hone, htwo, padding]
  | case3 first second =>
    have hword : ((first.toUInt32 <<< 16) ||| (second.toUInt32 <<< 8)).toNat =
        first.toNat * 65536 + second.toNat * 256 + (0 : UInt8).toNat := by
      simpa using toNat_group first second 0
    obtain ⟨hone, htwo, hthree, -⟩ := encodeDigits_of_toNat hword
    simp [base64Encode, encodeGroup, hone, htwo, hthree, padding]
  | case4 first second third rest ih =>
    obtain ⟨hone, htwo, hthree, hfour⟩ := encodeDigits_of_toNat (toNat_group first second third)
    have hpadding : padding (first :: second :: third :: rest) = padding rest := by
      unfold padding
      congr 1
      simp only [List.length_cons]
      omega
    rw [base64Encode, ih, hpadding]
    simp [encodeGroup, hone, htwo, hthree, hfour]

/-! ## Decoding -/

/-- Two digits give the first byte of a group, whatever the word held; the low end of the word is
then what they hold of the next byte. -/
theorem decodeLoop_first (val : UInt32) (first : UInt8) {low : ℕ} (hlow : low < 16)
    (data : List Char) :
    ∃ rest : UInt32, rest.toNat % 16 = low ∧
      decodeLoop val 0 (digitChar (first.toNat / 4) ::
        digitChar (first.toNat % 4 * 16 + low) :: data) = first :: decodeLoop rest 4 data := by
  have hfirst := first.toNat_lt
  have hone : first.toNat / 4 < 64 := by omega
  have htwo : first.toNat % 4 * 16 + low < 64 := by omega
  refine ⟨(((val <<< 6) ||| UInt32.ofNat (first.toNat / 4)) <<< 6) |||
    UInt32.ofNat (first.toNat % 4 * 16 + low), ?_, ?_⟩
  · rw [toNat_shiftLeft_or _ htwo]
    omega
  · rw [decodeLoop_digit _ _ hone, if_neg (by decide), decodeLoop_digit _ _ htwo,
      if_pos (by decide)]
    refine congrArg₂ List.cons ?_ rfl
    rw [← UInt8.toNat_inj, toUInt8_shiftRight _ (by decide), toNat_shiftLeft_or _ htwo,
      toNat_shiftLeft_or _ hone]
    omega

/-- The next digit completes the second byte. -/
theorem decodeLoop_second {val : UInt32} {second : UInt8}
    (hval : val.toNat % 16 = second.toNat / 16) {low : ℕ} (hlow : low < 4) (data : List Char) :
    ∃ rest : UInt32, rest.toNat % 4 = low ∧
      decodeLoop val 4 (digitChar (second.toNat % 16 * 4 + low) :: data) =
        second :: decodeLoop rest 2 data := by
  have hdigit : second.toNat % 16 * 4 + low < 64 := by omega
  refine ⟨(val <<< 6) ||| UInt32.ofNat (second.toNat % 16 * 4 + low), ?_, ?_⟩
  · rw [toNat_shiftLeft_or _ hdigit]
    omega
  · rw [decodeLoop_digit _ _ hdigit, if_pos (by decide)]
    refine congrArg₂ List.cons ?_ rfl
    rw [← UInt8.toNat_inj, toUInt8_shiftRight _ (by decide), toNat_shiftLeft_or _ hdigit]
    omega

/-- The last digit completes the third byte, and no bits are counted then. -/
theorem decodeLoop_third {val : UInt32} {third : UInt8} (hval : val.toNat % 4 = third.toNat / 64)
    (data : List Char) :
    ∃ rest : UInt32, decodeLoop val 2 (digitChar (third.toNat % 64) :: data) =
      third :: decodeLoop rest 0 data := by
  have hdigit : third.toNat % 64 < 64 := Nat.mod_lt _ (by decide)
  refine ⟨(val <<< 6) ||| UInt32.ofNat (third.toNat % 64), ?_⟩
  rw [decodeLoop_digit _ _ hdigit, if_pos (by decide)]
  refine congrArg₂ List.cons ?_ rfl
  rw [← UInt8.toNat_inj, toUInt8_shiftRight _ (by decide), toNat_shiftLeft_or _ hdigit]
  omega

/-- The decoder stops at the padding, with any number of bits left over. -/
theorem decodeLoop_padding (val : UInt32) (bits n : ℕ) :
    decodeLoop val bits (List.replicate n '=') = [] := by
  cases n with
  | zero => rfl
  | succ n => rw [List.replicate_succ, decodeLoop, if_pos rfl]

/-- The decoder reads the digits of a string back, with any padding and from any word. -/
theorem decodeLoop_sextets (raw : List UInt8) (n : ℕ) (val : UInt32) :
    decodeLoop val 0 ((sextets raw).map digitChar ++ List.replicate n '=') = raw := by
  fun_induction sextets raw generalizing val with
  | case1 => exact decodeLoop_padding val 0 n
  | case2 first =>
    obtain ⟨rest, -, hread⟩ := decodeLoop_first val first (by decide : 0 < 16)
      (List.replicate n '=')
    rw [decodeLoop_padding] at hread
    exact hread
  | case3 first second =>
    have hsecond := second.toNat_lt
    obtain ⟨word, hword, hfirst⟩ := decodeLoop_first val first
      (by omega : second.toNat / 16 < 16) (digitChar (second.toNat % 16 * 4) ::
        List.replicate n '=')
    obtain ⟨rest, -, hread⟩ := decodeLoop_second hword (by decide : 0 < 4)
      (List.replicate n '=')
    rw [decodeLoop_padding] at hread
    exact hfirst.trans (congrArg _ hread)
  | case4 first second third tail ih =>
    have hsecond := second.toNat_lt
    have hthird := third.toNat_lt
    obtain ⟨word, hword, hfirst⟩ := decodeLoop_first val first
      (by omega : second.toNat / 16 < 16) _
    obtain ⟨next, hnext, hread⟩ := decodeLoop_second hword
      (by omega : third.toNat / 64 < 4) _
    obtain ⟨last, hlast⟩ := decodeLoop_third hnext
      ((sextets tail).map digitChar ++ List.replicate n '=')
    rw [ih last] at hlast
    exact hfirst.trans (congrArg _ (hread.trans (congrArg _ hlast)))

/-! ## Lengths and the form of the tokens -/

/-- The characters of the digits and the padding are four for each group of three bytes. -/
theorem length_sextets (raw : List UInt8) :
    (sextets raw).length + (padding raw).length = 4 * ((raw.length + 2) / 3) := by
  have hpadding : (padding raw).length = (3 - raw.length % 3) % 3 := List.length_replicate
  rw [hpadding]
  fun_induction sextets raw with
  | case1 => rfl
  | case2 first => simp only [List.length_cons, List.length_nil]
  | case3 first second => simp only [List.length_cons, List.length_nil]
  | case4 first second third tail ih =>
    have htail := ih List.length_replicate
    simp only [List.length_cons]
    omega

/-- The form of the tokens, a character at a time, … -/
def toUrlSafe (ch : Char) : Char := if ch = '+' then '-' else if ch = '/' then '_' else ch

/-- … and the way back. -/
def fromUrlSafe (ch : Char) : Char := if ch = '-' then '+' else if ch = '_' then '/' else ch

/-- No digit is written with a character of the other alphabet, and none becomes padding. -/
theorem fromUrlSafe_toUrlSafe {digit : ℕ} (h : digit < 64) :
    fromUrlSafe (toUrlSafe (digitChar digit)) = digitChar digit ∧
      toUrlSafe (digitChar digit) ≠ '=' := by
  have hall : ∀ k < 64, fromUrlSafe (toUrlSafe (digitChar k)) = digitChar k ∧
      toUrlSafe (digitChar k) ≠ '=' := by decide +kernel
  exact hall digit h

/-- What is stripped is the padding. -/
theorem rdropWhile_replicate {text : List Char} (htext : ∀ c ∈ text, c ≠ '=') (n : ℕ) :
    (text ++ List.replicate n '=').rdropWhile (· = '=') = text := by
  induction n with
  | zero =>
    rw [List.replicate_zero, List.append_nil, List.rdropWhile_eq_self_iff]
    intro hne
    simpa using htext _ (List.getLast_mem hne)
  | succ n ih =>
    rw [List.replicate_succ', ← List.append_assoc, List.rdropWhile_concat_pos _ _ _ (by simp)]
    exact ih

/-- The form of the tokens is the digits in the other alphabet. -/
theorem base64urlEncode_eq (raw : List UInt8) :
    base64urlEncode raw = ((sextets raw).map digitChar).map toUrlSafe := by
  have hmap : base64urlEncode raw =
      ((base64Encode raw).map toUrlSafe).rdropWhile (· = '=') := rfl
  have hpadding : (padding raw).map toUrlSafe = padding raw := by
    unfold padding
    rw [List.map_replicate]
    rfl
  rw [hmap, base64Encode_eq, List.map_append, hpadding]
  refine rdropWhile_replicate ?_ _
  intro c hc
  rw [List.map_map, List.mem_map] at hc
  obtain ⟨digit, hdigit, rfl⟩ := hc
  exact (fromUrlSafe_toUrlSafe (sextets_lt digit hdigit)).2

/-- Mapped back, it is the digits of the encoding. -/
theorem map_fromUrlSafe (raw : List UInt8) :
    (base64urlEncode raw).map fromUrlSafe = (sextets raw).map digitChar := by
  rw [base64urlEncode_eq, List.map_map, List.map_map]
  refine List.map_congr_left ?_
  intro digit hdigit
  exact (fromUrlSafe_toUrlSafe (sextets_lt digit hdigit)).1

/-! ## The round trip -/

/-- Every byte string is decoded from its encoding, which has four characters for each group of
three bytes, and from the stripped form with the characters mapped back; so no two strings have
one stripped form. -/
theorem base64_round_trip (raw : List UInt8) :
    base64Decode (base64Encode raw) = raw ∧
      (base64Encode raw).length = 4 * ((raw.length + 2) / 3) ∧
      base64Decode ((base64urlEncode raw).map fromUrlSafe) = raw ∧
      ∀ other : List UInt8, base64urlEncode other = base64urlEncode raw → other = raw := by
  have hback : ∀ string : List UInt8,
      base64Decode ((base64urlEncode string).map fromUrlSafe) = string := by
    intro string
    have hdecode := decodeLoop_sextets string 0 0
    rw [List.replicate_zero, List.append_nil, ← map_fromUrlSafe] at hdecode
    exact hdecode
  refine ⟨?_, ?_, hback raw, ?_⟩
  · rw [base64Encode_eq]
    exact decodeLoop_sextets raw _ 0
  · rw [base64Encode_eq, List.length_append, List.length_map]
    exact length_sextets raw
  · intro other heq
    rw [← hback other, heq]
    exact hback raw

end SpotRelay.Analysis
