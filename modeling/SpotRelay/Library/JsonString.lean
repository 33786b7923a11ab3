import SpotRelay.Library.MarkerSearch

/-!
# Strings in JSON

A string is written between quotes, with its quotes, backslashes and control characters escaped.
Every quote inside it is then escaped, and the string can be read back.
-/

set_option autoImplicit false

namespace SpotRelay.Library.JsonString

open SpotRelay.Library.MarkerSearch

/-- A character inside a JSON string. -/
def escapeChar (c : Char) : List Char :=
  if c = '"' then ['\\', '"']
  else if c = '\\' then ['\\', '\\']
  else if c.toNat < 32 then
    ['\\', 'u', '0', '0', Nat.digitChar (c.toNat / 16), Nat.digitChar (c.toNat % 16)]
  else [c]

def escape (text : List Char) : List Char := text.flatMap escapeChar

/-- A string and what follows it. -/
def quoted (text rest : List Char) : List Char := '"' :: (escape text ++ '"' :: rest)

/-- A character that is written as it is. -/
def PlainChar (c : Char) : Prop := c ≠ '"' ∧ c ≠ '\\' ∧ ¬ c.toNat < 32

instance (c : Char) : Decidable (PlainChar c) := inferInstanceAs (Decidable (_ ∧ _))

/-! ## One character -/

/-- A plain character stands for itself. -/
theorem escapeChar_of_plain {c : Char} (h : PlainChar c) : escapeChar c = [c] := by
  rw [escapeChar, if_neg h.1, if_neg h.2.1, if_neg h.2.2]

/-- How a character is written. -/
inductive Escaped (c : Char) : List Char → Prop
  | plain (h : PlainChar c) : Escaped c [c]
  | quote (h : c = '"') : Escaped c ['\\', '"']
  | backslash (h : c = '\\') : Escaped c ['\\', '\\']
  | control (h : c.toNat < 32) : Escaped c
      ['\\', 'u', '0', '0', Nat.digitChar (c.toNat / 16), Nat.digitChar (c.toNat % 16)]

/-- Every character is escaped in one of the ways there are. -/
theorem escaped_escapeChar (c : Char) : Escaped c (escapeChar c) := by
  unfold escapeChar
  by_cases hquote : c = '"'
  · rw [if_pos hquote]
    exact .quote hquote
  · by_cases hbackslash : c = '\\'
    · rw [if_neg hquote, if_pos hbackslash]
      exact .backslash hbackslash
    · by_cases hcontrol : c.toNat < 32
      · rw [if_neg hquote, if_neg hbackslash, if_pos hcontrol]
        exact .control hcontrol
      · rw [if_neg hquote, if_neg hbackslash, if_neg hcontrol]
        exact .plain ⟨hquote, hbackslash, hcontrol⟩

/-- The hexadecimal digits of a control character. -/
def hexDigits : List Char := "0123456789abcdef".toList

/-- A hexadecimal digit is one of the sixteen characters. -/
theorem digitChar_mem {n : ℕ} (h : n < 16) : Nat.digitChar n ∈ hexDigits := by
  have hall : ∀ k < 16, Nat.digitChar k ∈ hexDigits := by decide
  exact hall n h

/-- Different digits have different characters. -/
theorem digitChar_inj {m n : ℕ} (hm : m < 16) (hn : n < 16)
    (h : Nat.digitChar m = Nat.digitChar n) : m = n := by
  have hall : ∀ i < 16, ∀ j < 16, Nat.digitChar i = Nat.digitChar j → i = j := by decide
  exact hall m hm n hn h

/-- What a character that is not written as it is ends in. -/
def escapeEnds : List Char := '"' :: '\\' :: hexDigits

namespace Escaped

variable {c d : Char} {s t : List Char}

/-- An escaped character is not empty. -/
theorem ne_nil (h : Escaped c s) : s ≠ [] := by
  cases h <;> exact List.cons_ne_nil _ _

/-- Characters are told apart by how they are written, whatever follows them. -/
theorem append_inj (hc : Escaped c s) (hd : Escaped d t) {x y : List Char}
    (h : s ++ x = t ++ y) : c = d ∧ x = y := by
  cases hc with
  | plain hplain =>
    cases hd with
    | plain => exact ⟨(List.cons.inj h).1, (List.cons.inj h).2⟩
    | quote | backslash | control => exact absurd (List.cons.inj h).1 hplain.2.1
  | quote hquote =>
    cases hd with
    | plain hplain => exact absurd (List.cons.inj h).1.symm hplain.2.1
    | quote hquote' => exact ⟨hquote.trans hquote'.symm, by simpa using h⟩
    | backslash | control => simp at h
  | backslash hbackslash =>
    cases hd with
    | plain hplain => exact absurd (List.cons.inj h).1.symm hplain.2.1
    | backslash hbackslash' => exact ⟨hbackslash.trans hbackslash'.symm, by simpa using h⟩
    | quote | control => simp at h
  | control hcontrol =>
    cases hd with
    | plain hplain => exact absurd (List.cons.inj h).1.symm hplain.2.1
    | quote | backslash => simp at h
    | control hcontrol' =>
      simp only [List.cons_append, List.nil_append, List.cons.injEq, true_and] at h
      have hhigh := digitChar_inj (by omega) (by omega) h.1
      have hlow := digitChar_inj (by omega) (by omega) h.2.1
      exact ⟨Char.toNat_inj.mp (by omega), h.2.2⟩

/-- A text that no escape ends in is that of the character itself. -/
theorem concat (h : Escaped c s) {front : List Char} {last : Char} (hlast : last ∉ escapeEnds)
    (heq : s = front ++ [last]) : front = [] ∧ c = last := by
  cases h with
  | plain =>
    have hsplit : [] ++ [c] = front ++ [last] := heq
    obtain ⟨hfront, hc⟩ := List.append_inj' hsplit rfl
    exact ⟨hfront.symm, (List.cons.inj hc).1⟩
  | quote =>
    have hsplit : ['\\'] ++ ['"'] = front ++ [last] := heq
    obtain ⟨-, hc⟩ := List.append_inj' hsplit rfl
    exact absurd (by rw [← (List.cons.inj hc).1]; decide) hlast
  | backslash =>
    have hsplit : ['\\'] ++ ['\\'] = front ++ [last] := heq
    obtain ⟨-, hc⟩ := List.append_inj' hsplit rfl
    exact absurd (by rw [← (List.cons.inj hc).1]; decide) hlast
  | control hcontrol =>
    have hsplit : ['\\', 'u', '0', '0', Nat.digitChar (c.toNat / 16)] ++
        [Nat.digitChar (c.toNat % 16)] = front ++ [last] := heq
    obtain ⟨-, hc⟩ := List.append_inj' hsplit rfl
    refine absurd ?_ hlast
    rw [← (List.cons.inj hc).1]
    exact List.mem_cons_of_mem _ (List.mem_cons_of_mem _ (digitChar_mem (by omega)))

/-- A quote is that of an escaped quote. -/
theorem quote_split (h : Escaped c s) {before post : List Char} (heq : s = before ++ '"' :: post) :
    c = '"' ∧ before = ['\\'] := by
  have hdigit : '"' ∉ hexDigits := by decide
  cases h with
  | plain hplain =>
    have hmem : '"' ∈ [c] := by rw [heq]; simp
    exact absurd (List.mem_singleton.mp hmem).symm hplain.1
  | quote hquote =>
    cases before with
    | nil => simp at heq
    | cons b before =>
      obtain ⟨rfl, hrest⟩ := List.cons.inj heq
      cases before with
      | nil => exact ⟨hquote, rfl⟩
      | cons b' before => simp at hrest
  | backslash =>
    have hmem : '"' ∈ ['\\', '\\'] := by rw [heq]; simp
    exact absurd hmem (by decide)
  | control hcontrol =>
    have hmem : '"' ∈ ['\\', 'u', '0', '0', Nat.digitChar (c.toNat / 16),
        Nat.digitChar (c.toNat % 16)] := by
      rw [heq]
      simp
    have hhigh : '"' ≠ Nat.digitChar (c.toNat / 16) := fun heq =>
      hdigit (heq ▸ digitChar_mem (by omega))
    have hlow : '"' ≠ Nat.digitChar (c.toNat % 16) := fun heq =>
      hdigit (heq ▸ digitChar_mem (by omega))
    simp [hhigh, hlow] at hmem

/-- No control character is written. -/
theorem not_control (h : Escaped c s) : ∀ d ∈ s, ¬ d.toNat < 32 := by
  have hdigits : ∀ d ∈ hexDigits, ¬ d.toNat < 32 := by decide
  cases h with
  | plain hplain => exact fun d hd => List.mem_singleton.mp hd ▸ hplain.2.2
  | quote | backslash => decide
  | control hcontrol =>
    have hhigh : c.toNat / 16 < 16 := by omega
    have hlow : c.toNat % 16 < 16 := by omega
    intro d hd
    simp only [List.mem_cons, List.not_mem_nil, or_false] at hd
    rcases hd with rfl | rfl | rfl | rfl | rfl | rfl
    · decide
    · decide
    · decide
    · decide
    · exact hdigits _ (digitChar_mem hhigh)
    · exact hdigits _ (digitChar_mem hlow)

end Escaped

/-! ## Texts -/

/-- The empty text has nothing to escape. -/
@[simp] theorem escape_nil : escape [] = [] := rfl

/-- A text is escaped character by character. -/
theorem escape_cons (c : Char) (text : List Char) :
    escape (c :: text) = escapeChar c ++ escape text := rfl

/-- Two texts are escaped one after the other. -/
theorem escape_append (a b : List Char) : escape (a ++ b) = escape a ++ escape b :=
  List.flatMap_append

/-- A text of plain characters stands for itself. -/
theorem escape_of_plain {text : List Char} (h : ∀ c ∈ text, PlainChar c) : escape text = text := by
  induction text with
  | nil => rfl
  | cons c text ih =>
    have hrest : escape text = text := ih fun d hd => h d (List.mem_cons_of_mem c hd)
    rw [escape_cons, escapeChar_of_plain (h c List.mem_cons_self), hrest, List.singleton_append]

/-- Only the empty text is escaped to nothing. -/
theorem escape_eq_nil {text : List Char} (h : escape text = []) : text = [] := by
  cases text with
  | nil => rfl
  | cons c text =>
    rw [escape_cons, List.append_eq_nil_iff] at h
    exact absurd h.1 (escaped_escapeChar c).ne_nil

/-- Different texts are escaped differently. -/
theorem escape_inj {a b : List Char} (h : escape a = escape b) : a = b := by
  induction a generalizing b with
  | nil => exact (escape_eq_nil h.symm).symm
  | cons c a ih =>
    cases b with
    | nil => exact escape_eq_nil h
    | cons d b =>
      rw [escape_cons, escape_cons] at h
      obtain ⟨rfl, hrest⟩ := (escaped_escapeChar c).append_inj (escaped_escapeChar d) h
      rw [ih hrest]

/-- A last character that no escape ends in is that of the text itself. -/
theorem escape_eq_concat {text front : List Char} {last : Char} (hlast : last ∉ escapeEnds)
    (h : escape text = front ++ [last]) : ∃ init, text = init ++ [last] ∧ escape init = front := by
  rcases List.eq_nil_or_concat' text with rfl | ⟨init, c, rfl⟩
  · simp at h
  · have hc := escaped_escapeChar c
    rw [escape_append, escape_cons, escape_nil, List.append_nil] at h
    obtain ⟨front', last', heq⟩ := (List.eq_nil_or_concat' (escapeChar c)).resolve_left hc.ne_nil
    rw [heq, ← List.append_assoc] at h
    obtain ⟨hfront, hone⟩ := List.append_inj' h rfl
    obtain ⟨rfl, -⟩ := List.cons.inj hone
    obtain ⟨rfl, rfl⟩ := hc.concat hlast heq
    exact ⟨init, rfl, by rw [← hfront, List.append_nil]⟩

/-- So is a whole end of such characters. -/
theorem escape_eq_append {text front tail : List Char} (htail : ∀ d ∈ tail, d ∉ escapeEnds)
    (h : escape text = front ++ tail) : ∃ init, text = init ++ tail ∧ escape init = front := by
  induction tail generalizing front with
  | nil => exact ⟨text, (List.append_nil text).symm, by rw [h, List.append_nil]⟩
  | cons d tail ih =>
    have hsplit : escape text = (front ++ [d]) ++ tail := by rw [h, List.append_assoc]; rfl
    obtain ⟨init, rfl, hinit⟩ := ih (fun c hc => htail c (List.mem_cons_of_mem d hc)) hsplit
    obtain ⟨init', rfl, hinit'⟩ := escape_eq_concat (htail d List.mem_cons_self) hinit
    exact ⟨init', List.append_assoc init' [d] tail, hinit'⟩

/-- An escaped text has no control character in it. -/
theorem not_control_of_mem_escape {text : List Char} {d : Char} (h : d ∈ escape text) :
    ¬ d.toNat < 32 := by
  obtain ⟨c, -, hd⟩ := List.mem_flatMap.mp h
  exact (escaped_escapeChar c).not_control d hd

/-! ## Quotes -/

/-- Where the first quote of a string stands, there is an escaped one. -/
theorem escape_quote {text before post : List Char} (h : escape text = before ++ '"' :: post) :
    ∃ init rest, text = init ++ '"' :: rest ∧ before = escape init ++ ['\\'] := by
  induction text generalizing before with
  | nil => simp at h
  | cons c text ih =>
    rw [escape_cons, List.append_eq_append_iff] at h
    rcases h with ⟨middle, hbefore, hrest⟩ | ⟨middle, hc, hrest⟩
    · obtain ⟨init, rest, rfl, rfl⟩ := ih hrest
      refine ⟨c :: init, rest, rfl, ?_⟩
      rw [hbefore, escape_cons, List.append_assoc]
    · cases middle with
      | nil =>
        have hfirst : escape text = [] ++ '"' :: post := hrest.symm
        obtain ⟨init, rest, -, hnil⟩ := ih hfirst
        simp at hnil
      | cons d middle =>
        obtain ⟨rfl, -⟩ := List.cons.inj hrest
        obtain ⟨rfl, rfl⟩ := (escaped_escapeChar c).quote_split hc
        exact ⟨[], text, rfl, rfl⟩

/-- Every quotation mark of an escaped text has a backslash before it. -/
theorem quotesEscaped_escape (text : List Char) : QuotesEscaped (escape text) := by
  intro before post h
  obtain ⟨init, -, -, hbefore⟩ := escape_quote h
  exact ⟨escape init, hbefore⟩

/-- An escaped text has a quotation mark where the text has one. -/
theorem quote_mem_escape {text : List Char} : '"' ∈ escape text ↔ '"' ∈ text := by
  constructor
  · intro h
    obtain ⟨before, post, heq⟩ := List.append_of_mem h
    obtain ⟨init, rest, rfl, -⟩ := escape_quote heq
    simp
  · intro h
    exact List.mem_flatMap.mpr ⟨'"', h, by decide⟩

end SpotRelay.Library.JsonString
