import Mathlib.Algebra.Order.Field.Rat
import Mathlib.Data.List.TakeWhile
import Mathlib.Tactic.NormNum
import SpotRelay.Library.DecimalText

/-!
# Flat JSON objects

An object of one level, a field on each line: strings, numbers and booleans under their keys.  The
reader takes any blanks between the tokens, and of what the writer writes it reads back every key
and value.
-/

set_option autoImplicit false

namespace SpotRelay.Library.FlatJson

/-! ## Text -/

/-- A decimal number as it is written: its sign, its whole part and the digits of its fraction. -/
structure Numeral where
  negative : Bool
  whole : ℕ
  fraction : List Char
  isDigit : ∀ c ∈ fraction, c.isDigit = true
deriving DecidableEq

namespace Numeral

def text (n : Numeral) : List Char :=
  (if n.negative then ['-'] else []) ++ (Nat.toDigits 10 n.whole ++
    if n.fraction = [] then [] else '.' :: n.fraction)

/-- The number without its sign. -/
def magnitude (n : Numeral) : ℚ :=
  n.whole + (Nat.ofDigitChars 10 n.fraction 0 : ℚ) / 10 ^ n.fraction.length

/-- The whole part with its sign. -/
def integer (n : Numeral) : ℤ := if n.negative then -n.whole else n.whole

/-- No character of an empty text is anything but a digit. -/
theorem isDigit_of_mem_nil : ∀ c ∈ ([] : List Char), c.isDigit = true := List.forall_mem_nil _

/-- The numeral of an integer. -/
def ofInt (i : ℤ) : Numeral where
  negative := decide (i < 0)
  whole := i.natAbs
  fraction := []
  isDigit := isDigit_of_mem_nil

/-- The numeral of an integer denotes it. -/
@[simp] theorem integer_ofInt (i : ℤ) : (ofInt i).integer = i := by
  unfold integer ofInt
  by_cases h : i < 0
  · simp only [h, decide_true, if_true]
    omega
  · simp only [h, decide_false, Bool.false_eq_true, if_false]
    omega

end Numeral

inductive Scalar
  | string (chars : List Char)
  | number (numeral : Numeral)
  | boolean (value : Bool)
deriving DecidableEq

def Scalar.text : Scalar → List Char
  | .string chars => '"' :: (chars ++ ['"'])
  | .number numeral => numeral.text
  | .boolean true => "true".toList
  | .boolean false => "false".toList

/-- The fields in the order in which they are written. -/
abbrev Object := List (List Char × Scalar)

def fieldText (field : List Char × Scalar) : List Char :=
  [' ', ' ', '"'] ++ (field.1 ++ (['"', ':', ' '] ++ field.2.text))

/-- The fields after the first one and the end of the object. -/
def restText : Object → List Char
  | [] => ['\n', '}']
  | f :: fields => ',' :: '\n' :: (fieldText f ++ restText fields)

/-- One field a line. -/
def objectText : Object → List Char
  | [] => ['{', '}']
  | f :: fields => '{' :: '\n' :: (fieldText f ++ restText fields)

/-! ## Reading -/

def isBlank (c : Char) : Bool := c = ' ' || c = '\n' || c = '\r' || c = '\t'

def skipBlanks (text : List Char) : List Char := text.dropWhile isBlank

/-- A quoted text and what comes after it. -/
def readQuoted : List Char → Option (List Char × List Char)
  | '"' :: rest =>
    match rest.dropWhile (· ≠ '"') with
    | _ :: after => some (rest.takeWhile (· ≠ '"'), after)
    | [] => none
  | _ => none

/-- The digits that a text begins with. -/
def leadingDigits (text : List Char) : List Char := text.takeWhile Char.isDigit

/-- The leading digits of a text are digits. -/
theorem isDigit_of_mem_leadingDigits {text : List Char} :
    ∀ c ∈ leadingDigits text, c.isDigit = true :=
  fun _ h => List.mem_takeWhile_imp h

/-- A number without its sign; the whole part has no leading zeros. -/
def readUnsigned (negative : Bool) (text : List Char) : Option (Numeral × List Char) :=
  let whole := Nat.ofDigitChars 10 (leadingDigits text) 0
  if leadingDigits text = Nat.toDigits 10 whole then
    match text.dropWhile Char.isDigit with
    | '.' :: rest =>
      if leadingDigits rest = [] then none
      else some (⟨negative, whole, leadingDigits rest, isDigit_of_mem_leadingDigits⟩,
        rest.dropWhile Char.isDigit)
    | rest => some (⟨negative, whole, [], Numeral.isDigit_of_mem_nil⟩, rest)
  else none

def readNumeral : List Char → Option (Numeral × List Char)
  | '-' :: rest => readUnsigned true rest
  | text => readUnsigned false text

def readScalar : List Char → Option (Scalar × List Char)
  | '"' :: rest => (readQuoted ('"' :: rest)).map fun read => (.string read.1, read.2)
  | 't' :: 'r' :: 'u' :: 'e' :: rest => some (.boolean true, rest)
  | 'f' :: 'a' :: 'l' :: 's' :: 'e' :: rest => some (.boolean false, rest)
  | text => (readNumeral text).map fun read => (.number read.1, read.2)

/-- A field and what comes after it. -/
def readField (text : List Char) : Option ((List Char × Scalar) × List Char) := do
  let (key, rest) ← readQuoted (skipBlanks text)
  match skipBlanks rest with
  | ':' :: rest =>
    let (value, rest) ← readScalar (skipBlanks rest)
    return ((key, value), rest)
  | _ => none

/-- The fields up to the closing brace, `fuel` of them at most. -/
def readFields : ℕ → List Char → Option Object
  | 0, _ => none
  | fuel + 1, text => do
    let (field, rest) ← readField text
    match skipBlanks rest with
    | ',' :: rest =>
      let fields ← readFields fuel rest
      return field :: fields
    | '}' :: rest => if skipBlanks rest = [] then some [field] else none
    | _ => none

/-- A text that is one object with at least one field. -/
def readObject (text : List Char) : Option Object :=
  match skipBlanks text with
  | '{' :: rest => readFields rest.length rest
  | _ => none

/-! ## Reading what was written -/

/-- A string that is written as it is: no quote, no backslash, no control character. -/
def Plain (chars : List Char) : Prop := ∀ c ∈ chars, c ≠ '"' ∧ c ≠ '\\' ∧ ' ' ≤ c

-- A check along the text: a check of every character there is would not end.
instance (chars : List Char) : Decidable (Plain chars) := List.decidableBAll _ chars

def Scalar.Plain : Scalar → Prop
  | .string chars => FlatJson.Plain chars
  | _ => True

/-- Keys and strings can be written as they are. -/
def PlainFields (fields : Object) : Prop := ∀ f ∈ fields, Plain f.1 ∧ f.2.Plain

/-- What follows a value: neither a digit nor a point. -/
def EndsNumeral (rest : List Char) : Prop := ∃ c cs, rest = c :: cs ∧ c.isDigit = false ∧ c ≠ '.'

/-- A text is taken up to the first character that ends it. -/
theorem takeWhile_of_ends {p : Char → Bool} {taken : List Char} (rest : List Char) {c : Char}
    (htaken : ∀ a ∈ taken, p a = true) (hc : p c = false) :
    (taken ++ c :: rest).takeWhile p = taken ∧ (taken ++ c :: rest).dropWhile p = c :: rest := by
  constructor
  · rw [List.takeWhile_append_of_pos htaken, List.takeWhile_cons_of_neg (by simp [hc]),
      List.append_nil]
  · rw [List.dropWhile_append_of_pos htaken, List.dropWhile_cons_of_neg (by simp [hc])]

/-- A quoted text is read back in front of any rest. -/
theorem readQuoted_quoted {chars : List Char} (h : Plain chars) (rest : List Char) :
    readQuoted ('"' :: (chars ++ '"' :: rest)) = some (chars, rest) := by
  obtain ⟨htaken, hdropped⟩ := takeWhile_of_ends (p := (· ≠ '"')) rest (c := '"')
    (fun a ha => decide_eq_true (h a ha).1) (by simp)
  simp only [readQuoted, hdropped, htaken]

/-- Digits are read up to the first character that is none. -/
theorem leadingDigits_ends {digits : List Char} (rest : List Char) {c : Char}
    (hdigits : ∀ a ∈ digits, a.isDigit = true) (hc : c.isDigit = false) :
    leadingDigits (digits ++ c :: rest) = digits ∧
      (digits ++ c :: rest).dropWhile Char.isDigit = c :: rest :=
  takeWhile_of_ends rest hdigits hc

/-- A numeral without its sign is read back. -/
theorem readUnsigned_text (n : Numeral) {rest : List Char} (hrest : EndsNumeral rest) :
    readUnsigned n.negative (Nat.toDigits 10 n.whole ++
      ((if n.fraction = [] then [] else '.' :: n.fraction) ++ rest)) = some (n, rest) := by
  obtain ⟨c, cs, rfl, hdigit, hpoint⟩ := hrest
  obtain ⟨negative, whole, fraction, hfraction⟩ := n
  simp only
  by_cases hempty : fraction = []
  · subst hempty
    obtain ⟨htaken, hdropped⟩ := leadingDigits_ends cs
      (DecimalText.isDigit_of_mem_toDigits (n := whole)) hdigit
    rw [if_pos rfl, List.nil_append]
    simp only [readUnsigned, htaken, hdropped, Nat.ofDigitChars_ten_toDigits, if_true]
    split
    · rename_i tail heq
      exact absurd (List.cons.inj heq).1 hpoint
    · rfl
  · obtain ⟨htaken, hdropped⟩ := leadingDigits_ends (fraction ++ c :: cs) (c := '.')
      (DecimalText.isDigit_of_mem_toDigits (n := whole)) (by decide)
    obtain ⟨htaken', hdropped'⟩ := leadingDigits_ends cs hfraction hdigit
    rw [if_neg hempty, List.cons_append]
    simp only [readUnsigned, htaken, hdropped, htaken', hdropped', Nat.ofDigitChars_ten_toDigits,
      if_true, if_neg hempty]

/-- A number has a first digit. -/
theorem toDigits_eq_cons (n : ℕ) : ∃ d ds, Nat.toDigits 10 n = d :: ds ∧ d.isDigit = true := by
  cases hdigits : Nat.toDigits 10 n with
  | nil => exact absurd hdigits Nat.toDigits_ne_nil
  | cons d ds =>
    refine ⟨d, ds, rfl, DecimalText.isDigit_of_mem_toDigits (n := n) d ?_⟩
    rw [hdigits]
    exact List.mem_cons_self

/-- A numeral begins with its sign or with a digit. -/
theorem Numeral.text_eq_cons (n : Numeral) :
    ∃ c cs, n.text = c :: cs ∧ (c = '-' ∨ c.isDigit = true) := by
  obtain ⟨d, ds, hdigits, hd⟩ := toDigits_eq_cons n.whole
  unfold Numeral.text
  cases n.negative with
  | true => exact ⟨'-', _, rfl, Or.inl rfl⟩
  | false =>
    rw [hdigits]
    exact ⟨d, _, rfl, Or.inr hd⟩

/-- A numeral is read back in front of anything that ends it. -/
theorem readNumeral_text (n : Numeral) {rest : List Char} (hrest : EndsNumeral rest) :
    readNumeral (n.text ++ rest) = some (n, rest) := by
  have hread := readUnsigned_text n hrest
  unfold Numeral.text
  rw [List.append_assoc, List.append_assoc]
  cases hsign : n.negative with
  | true =>
    rw [hsign] at hread
    exact hread
  | false =>
    rw [hsign] at hread
    obtain ⟨d, ds, hdigits, hd⟩ := toDigits_eq_cons n.whole
    rw [hdigits] at hread ⊢
    unfold readNumeral
    split
    · rename_i tail heq
      have hminus : d = '-' := (List.cons.inj heq).1
      rw [hminus] at hd
      exact absurd hd (by decide)
    · exact hread

/-- A scalar is read back in front of anything that ends a numeral. -/
theorem readScalar_text {value : Scalar} (hvalue : value.Plain) {rest : List Char}
    (hrest : EndsNumeral rest) : readScalar (value.text ++ rest) = some (value, rest) := by
  cases value with
  | string chars =>
    have hread := readQuoted_quoted hvalue rest
    simp only [Scalar.text, List.cons_append, List.append_assoc, List.nil_append, readScalar, hread,
      Option.map_some]
  | boolean value => cases value <;> rfl
  | number numeral =>
    have hread := readNumeral_text numeral hrest
    obtain ⟨c, cs, htext, hc⟩ := numeral.text_eq_cons
    have hother : ∀ d tail, d = '"' ∨ d = 't' ∨ d = 'f' → (Scalar.number numeral).text ++ rest ≠
        d :: tail := by
      rintro d tail hd heq
      rw [Scalar.text, htext] at heq
      have hcd : c = d := (List.cons.inj heq).1
      subst hcd
      rcases hd with rfl | rfl | rfl <;> revert hc <;> decide
    unfold readScalar
    split
    · rename_i tail heq
      exact absurd heq (hother _ _ (Or.inl rfl))
    · rename_i tail heq
      exact absurd heq (hother _ _ (Or.inr (Or.inl rfl)))
    · rename_i tail heq
      exact absurd heq (hother _ _ (Or.inr (Or.inr rfl)))
    · rw [Scalar.text, hread]
      rfl

/-- A numeral does not begin with a blank. -/
theorem isBlank_of_numeral {c : Char} (h : c = '-' ∨ c.isDigit = true) : isBlank c = false := by
  rw [Bool.eq_false_iff]
  intro hblank
  simp only [isBlank, Bool.or_eq_true, decide_eq_true_eq] at hblank
  rcases hblank with ((rfl | rfl) | rfl) | rfl <;> revert h <;> decide

/-- A value begins with no blank. -/
theorem skipBlanks_scalar (value : Scalar) (rest : List Char) :
    skipBlanks (value.text ++ rest) = value.text ++ rest := by
  have hhead : ∃ c cs, value.text = c :: cs ∧ isBlank c = false := by
    cases value with
    | string chars => exact ⟨'"', chars ++ ['"'], rfl, by decide⟩
    | boolean value => cases value <;> exact ⟨_, _, rfl, by decide⟩
    | number numeral =>
      obtain ⟨c, cs, htext, hc⟩ := numeral.text_eq_cons
      exact ⟨c, cs, htext, isBlank_of_numeral hc⟩
  obtain ⟨c, cs, htext, hc⟩ := hhead
  rw [htext, List.cons_append, skipBlanks, List.dropWhile_cons_of_neg (by simp [hc])]

/-- A field is read back up to the break that follows it. -/
theorem readField_text {f : List Char × Scalar} (hkey : Plain f.1) (hvalue : f.2.Plain)
    {rest : List Char} (hrest : EndsNumeral rest) :
    readField (fieldText f ++ rest) = some (f, rest) := by
  have hquoted := readQuoted_quoted hkey (':' :: ' ' :: (f.2.text ++ rest))
  have hblanks : skipBlanks (fieldText f ++ rest) =
      '"' :: (f.1 ++ '"' :: ':' :: ' ' :: (f.2.text ++ rest)) := by
    simp [fieldText, skipBlanks, isBlank]
  have hcolon : skipBlanks (':' :: ' ' :: (f.2.text ++ rest)) = ':' :: ' ' :: (f.2.text ++ rest) :=
    rfl
  have hspace : skipBlanks (' ' :: (f.2.text ++ rest)) = f.2.text ++ rest :=
    skipBlanks_scalar f.2 rest
  simp only [readField, hblanks, hquoted, hcolon, hspace, readScalar_text hvalue hrest,
    Option.bind_eq_bind, Option.bind_some, Option.pure_def]

/-- What follows a field ends its numeral. -/
theorem endsNumeral_restText (fields : Object) : EndsNumeral (restText fields) := by
  cases fields with
  | nil => exact ⟨'\n', ['}'], rfl, by decide⟩
  | cons f fields => exact ⟨',', _, rfl, by decide⟩

/-- The fields are read back with a unit of fuel for each of them. -/
theorem readFields_text (f : List Char × Scalar) (fields : Object) (h : PlainFields (f :: fields))
    {fuel : ℕ} (hfuel : fields.length < fuel) :
    readFields fuel ('\n' :: (fieldText f ++ restText fields)) = some (f :: fields) := by
  induction fields generalizing f fuel with
  | nil =>
    obtain ⟨hkey, hvalue⟩ := h f List.mem_cons_self
    obtain ⟨fuel, rfl⟩ : ∃ n, fuel = n + 1 := Nat.exists_eq_add_one.mpr hfuel
    have hread : readField ('\n' :: (fieldText f ++ restText [])) = some (f, ['\n', '}']) :=
      readField_text hkey hvalue (endsNumeral_restText [])
    have hclose : skipBlanks ['\n', '}'] = ['}'] := rfl
    simp only [readFields, hread, hclose, Option.bind_eq_bind, Option.bind_some]
    rfl
  | cons g fields ih =>
    obtain ⟨hkey, hvalue⟩ := h f List.mem_cons_self
    obtain ⟨fuel, rfl⟩ : ∃ n, fuel = n + 1 := Nat.exists_eq_add_one.mpr (by omega)
    have hread : readField ('\n' :: (fieldText f ++ restText (g :: fields))) =
        some (f, restText (g :: fields)) :=
      readField_text hkey hvalue (endsNumeral_restText (g :: fields))
    have hcomma : skipBlanks (restText (g :: fields)) =
        ',' :: '\n' :: (fieldText g ++ restText fields) := rfl
    have hrest := ih g (fun x hx => h x (List.mem_cons_of_mem f hx))
      (Nat.lt_of_succ_lt_succ hfuel)
    simp only [readFields, hread, hcomma, Option.bind_eq_bind, Option.bind_some, hrest,
      Option.pure_def]

/-- An object that is written is read back. -/
theorem readObject_objectText {fields : Object} (hfields : fields ≠ []) (h : PlainFields fields) :
    readObject (objectText fields) = some fields := by
  cases fields with
  | nil => exact absurd rfl hfields
  | cons f fields =>
    have hlength : fields.length < ('\n' :: (fieldText f ++ restText fields)).length := by
      have hrest : ∀ fields : Object, fields.length ≤ (restText fields).length := by
        intro fields
        induction fields with
        | nil => exact Nat.zero_le _
        | cons g fields ih =>
          simp only [restText, List.length_cons, List.length_append]
          omega
      have := hrest fields
      simp only [List.length_cons, List.length_append]
      omega
    exact readFields_text f fields h hlength

end SpotRelay.Library.FlatJson
