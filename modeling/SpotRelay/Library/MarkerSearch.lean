import Mathlib.Data.List.Basic
import Mathlib.Tactic.Common

/-!
# Searching quoted text for a key

A marker is a quoted key, a colon and some more text.  In text that is made of quoted strings and
of characters that are no quotes, with every quote inside a string escaped, it is found only where
that key stands: a search passes over strings, over other keys and over everything between them.
-/

set_option autoImplicit false

namespace SpotRelay.Library.MarkerSearch

/-- The text after the first occurrence of `marker`. -/
def after (marker : List Char) : List Char → Option (List Char)
  | [] => none
  | c :: cs =>
    if marker.isPrefixOf (c :: cs) then some ((c :: cs).drop marker.length) else after marker cs

/-- A marker is found at the start of a text. -/
theorem after_self {marker : List Char} (h : marker ≠ []) (rest : List Char) :
    after marker (marker ++ rest) = some rest := by
  have hprefix : marker.isPrefixOf (marker ++ rest) = true :=
    List.isPrefixOf_iff_prefix.mpr (List.prefix_append marker rest)
  cases marker with
  | nil => exact absurd rfl h
  | cons c marker =>
    rw [List.cons_append] at hprefix ⊢
    rw [after, if_pos hprefix, ← List.cons_append, List.drop_left]

/-- A search goes on where no occurrence begins. -/
theorem after_cons {marker rest : List Char} {c : Char} (h : ¬ marker <+: c :: rest) :
    after marker (c :: rest) = after marker rest := by
  rw [after, if_neg fun hprefix => h (List.isPrefixOf_iff_prefix.mp hprefix)]

/-- No occurrence of `marker` begins in a part of the text that `rest` follows. -/
def Passes (marker skipped rest : List Char) : Prop :=
  ∀ before post, skipped = before ++ post → post ≠ [] → ¬ marker <+: post ++ rest

namespace Passes

variable {marker skipped more rest : List Char}

/-- Nothing is passed over. -/
theorem nil (marker rest : List Char) : Passes marker [] rest :=
  fun _ _ heq hne => absurd (List.append_eq_nil_iff.mp heq.symm).2 hne

/-- The marker does not begin at the first character that is passed over. -/
theorem head {c : Char} (h : Passes marker (c :: skipped) rest) :
    ¬ marker <+: c :: (skipped ++ rest) :=
  h [] (c :: skipped) rfl (List.cons_ne_nil _ _)

/-- What is passed over behind the first character is passed over, too. -/
theorem tail {c : Char} (h : Passes marker (c :: skipped) rest) : Passes marker skipped rest :=
  fun before post heq hne => h (c :: before) post (by rw [heq, List.cons_append]) hne

/-- One more character is passed over if the marker does not begin at it. -/
theorem cons {c : Char} (hhere : ¬ marker <+: c :: (skipped ++ rest))
    (h : Passes marker skipped rest) : Passes marker (c :: skipped) rest := by
  intro before post heq hne
  cases before with
  | nil =>
    rw [List.nil_append] at heq
    rwa [← heq]
  | cons b before => exact h before post (List.cons.inj heq).2 hne

/-- Two texts are passed over one after the other. -/
theorem append (h : Passes marker skipped (more ++ rest)) (hmore : Passes marker more rest) :
    Passes marker (skipped ++ more) rest := by
  induction skipped with
  | nil => exact hmore
  | cons c skipped ih =>
    refine cons ?_ (ih h.tail)
    show ¬ marker <+: c :: ((skipped ++ more) ++ rest)
    rw [List.append_assoc]
    exact h.head

/-- The rear of what is passed over is passed over. -/
theorem suffix (h : Passes marker (skipped ++ more) rest) : Passes marker more rest :=
  fun before post heq hne => h (skipped ++ before) post (by rw [heq, List.append_assoc]) hne

/-- Where no occurrence begins, none does if the text ends earlier. -/
theorem shorten {rest' : List Char} (h : Passes marker skipped rest) (hrest : rest' <+: rest) :
    Passes marker skipped rest' := by
  intro before post heq hne hbegins
  exact h before post heq hne (hbegins.trans ((List.prefix_append_right_inj post).mpr hrest))

/-- A text that is passed over in front of another has no marker in it. -/
theorem truncate (h : Passes marker (skipped ++ more) rest) :
    after marker skipped = none := by
  induction skipped with
  | nil => rfl
  | cons c skipped ih =>
    have hhere : ¬ marker <+: c :: skipped := by
      intro hbegins
      refine h.head (hbegins.trans ?_)
      show c :: skipped <+: c :: ((skipped ++ more) ++ rest)
      rw [List.append_assoc]
      exact List.prefix_append _ _
    rw [after_cons hhere]
    exact ih h.tail

end Passes

/-- The search goes on behind such a part. -/
theorem after_append {marker skipped rest : List Char} (h : Passes marker skipped rest) :
    after marker (skipped ++ rest) = after marker rest := by
  induction skipped with
  | nil => rfl
  | cons c skipped ih =>
    rw [List.cons_append, after_cons h.head]
    exact ih h.tail

/-! ## Keys -/

-- What holds of every character of a text is checked along the text, not for every character
-- there is.
instance decidableForallMem (text : List Char) (p : Char → Prop) [DecidablePred p] :
    Decidable (∀ c ∈ text, p c) :=
  List.decidableBAll p text

/-- A quoted key, a colon and what follows them. -/
def keyMarker (key tail : List Char) : List Char := '"' :: (key ++ '"' :: ':' :: tail)

/-- A name that is written as it is. -/
def PlainKey (key : List Char) : Prop := '"' ∉ key ∧ '\\' ∉ key ∧ key ≠ []

instance (key : List Char) : Decidable (PlainKey key) := inferInstanceAs (Decidable (_ ∧ _))

/-- Two texts that agree up to their first quotes agree behind them. -/
theorem prefix_of_quote {a b x y : List Char} (ha : '"' ∉ a) (hb : '"' ∉ b)
    (h : a ++ '"' :: x <+: b ++ '"' :: y) : a = b ∧ x <+: y := by
  induction a generalizing b with
  | nil =>
    cases b with
    | nil => exact ⟨rfl, (List.cons_prefix_cons.mp h).2⟩
    | cons d b =>
      have hd : '"' = d := (List.cons_prefix_cons.mp h).1
      exact absurd (by rw [hd]; exact List.mem_cons_self) hb
  | cons c a ih =>
    cases b with
    | nil =>
      have hc : c = '"' := (List.cons_prefix_cons.mp h).1
      exact absurd (by rw [hc]; exact List.mem_cons_self) ha
    | cons d b =>
      obtain ⟨rfl, htail⟩ := List.cons_prefix_cons.mp h
      obtain ⟨rfl, hrest⟩ := ih (fun hmem => ha (List.mem_cons_of_mem c hmem))
        (fun hmem => hb (List.mem_cons_of_mem c hmem)) htail
      exact ⟨rfl, hrest⟩

variable {key tail : List Char}

/-- A key is found where it stands. -/
theorem after_keyMarker (key tail rest : List Char) :
    after (keyMarker key tail) (keyMarker key (tail ++ rest)) = some rest := by
  have happend : keyMarker key (tail ++ rest) = keyMarker key tail ++ rest := by
    simp only [keyMarker, List.cons_append, List.append_assoc]
  rw [happend, after_self]
  exact List.cons_ne_nil _ _

/-- No key begins at a character that is no quote. -/
theorem after_cons_of_ne {c : Char} (hc : c ≠ '"') (rest : List Char) :
    after (keyMarker key tail) (c :: rest) = after (keyMarker key tail) rest :=
  after_cons fun hprefix => hc (List.cons_prefix_cons.mp hprefix).1.symm

/-- A text without a quotation mark does not end the search for a key. -/
theorem after_skip {text : List Char} (h : '"' ∉ text) (rest : List Char) :
    after (keyMarker key tail) (text ++ rest) = after (keyMarker key tail) rest := by
  induction text with
  | nil => rfl
  | cons c text ih =>
    rw [List.mem_cons, not_or] at h
    rw [List.cons_append, after_cons_of_ne (Ne.symm h.1), ih h.2]

/-- A text without a quotation mark has no key in it. -/
theorem after_nil_of_skip {text : List Char} (h : '"' ∉ text) :
    after (keyMarker key tail) text = none := by
  have hskip : after (keyMarker key tail) (text ++ []) = none := after_skip h []
  rwa [List.append_nil] at hskip

/-- A closing quote is no opening one: what follows it is not what a key begins with. -/
theorem after_quote (hkey : PlainKey key) {c : Char} (hc : key.head? ≠ some c)
    (rest : List Char) :
    after (keyMarker key tail) ('"' :: c :: rest) = after (keyMarker key tail) (c :: rest) := by
  refine after_cons fun hprefix => ?_
  have hbehind := (List.cons_prefix_cons.mp hprefix).2
  cases key with
  | nil => exact hkey.2.2 rfl
  | cons d key => exact hc (congrArg some (List.cons_prefix_cons.mp hbehind).1)

/-- The search passes over a key that is another one, or has other text behind it. -/
theorem after_key (hkey : PlainKey key) (hcolon : key.head? ≠ some ':') {other rest : List Char}
    (hother : '"' ∉ other) (hne : other ≠ key ∨ ¬ tail <+: rest) :
    after (keyMarker key tail) ('"' :: (other ++ '"' :: ':' :: rest)) =
      after (keyMarker key tail) (':' :: rest) := by
  have hopen : ¬ keyMarker key tail <+: '"' :: (other ++ '"' :: ':' :: rest) := by
    intro hprefix
    obtain ⟨rfl, hbehind⟩ := prefix_of_quote hkey.1 hother (List.cons_prefix_cons.mp hprefix).2
    rcases hne with hdiffer | htail
    · exact hdiffer rfl
    · exact htail (List.cons_prefix_cons.mp hbehind).2
  rw [after_cons hopen, after_skip hother, after_quote hkey hcolon]

/-! ## Strings -/

/-- Every quote in the text is escaped. -/
def QuotesEscaped (text : List Char) : Prop :=
  ∀ before post, text = before ++ '"' :: post → ∃ init, before = init ++ ['\\']

/-- A text without a quotation mark has none that is not escaped. -/
theorem quotesEscaped_of_noQuote {text : List Char} (h : '"' ∉ text) : QuotesEscaped text :=
  fun before post heq => absurd (by rw [heq]; simp) h

/-- No key begins at a quoted text: it would have to end at a quote that is escaped, or at the
closing one. -/
theorem passes_quoted (hkey : PlainKey key) {content rest : List Char}
    (hcontent : QuotesEscaped content)
    (hend : (∃ init, content = init ++ ['\\']) ∨ rest.head? ≠ some ':') :
    Passes (keyMarker key tail) ('"' :: content) ('"' :: rest) := by
  have hends : ∀ {front last}, key = front ++ [last] → last ≠ '\\' := by
    rintro front last hfront rfl
    exact hkey.2.1 (by rw [hfront]; simp)
  obtain ⟨front, d, hd⟩ := (List.eq_nil_or_concat' key).resolve_left hkey.2.2
  intro before post heq hne hprefix
  obtain ⟨c, post', rfl⟩ := List.exists_cons_of_ne_nil hne
  rw [List.cons_append] at hprefix
  obtain ⟨rfl, hbehind⟩ := List.cons_prefix_cons.mp hprefix
  by_cases hquote : '"' ∈ post'
  · -- the next quote is an escaped one, and no key ends in a backslash
    obtain ⟨inner, post'', rfl, hinner⟩ := List.eq_append_cons_of_mem hquote
    rw [List.append_assoc, List.cons_append] at hbehind
    obtain ⟨rfl, -⟩ := prefix_of_quote hkey.1 hinner hbehind
    have hsplit : ∃ init, content = (init ++ key) ++ '"' :: post'' := by
      cases before with
      | nil => exact ⟨[], (List.cons.inj heq).2⟩
      | cons b before => exact ⟨before ++ ['"'], by simpa using (List.cons.inj heq).2⟩
    obtain ⟨init, hsplit⟩ := hsplit
    obtain ⟨init', hlast⟩ := hcontent _ _ hsplit
    rw [hd, ← List.append_assoc] at hlast
    exact hends hd (List.cons.inj (List.append_inj' hlast rfl).2).1
  · -- the next quote is the one behind the text
    obtain ⟨rfl, hrest⟩ := prefix_of_quote hkey.1 hquote hbehind
    rcases hend with ⟨init, hinit⟩ | hcolon
    · have hsplit : ∃ init', content = init' ++ key := by
        cases before with
        | nil => exact ⟨[], (List.cons.inj heq).2⟩
        | cons b before => exact ⟨before ++ ['"'], by simpa using (List.cons.inj heq).2⟩
      obtain ⟨init', hsplit⟩ := hsplit
      rw [hinit, hd, ← List.append_assoc] at hsplit
      exact hends hd (List.cons.inj (List.append_inj' hsplit rfl).2).1.symm
    · obtain ⟨more, hmore⟩ := hrest
      exact hcolon (by rw [← hmore]; rfl)

/-- The search passes over a string: a key inside it would have to end at its closing quote, and
that one is followed by no colon. -/
theorem after_string (hkey : PlainKey key) {content : List Char} (hcontent : QuotesEscaped content)
    {c : Char} (hcolon : c ≠ ':') (hc : key.head? ≠ some c) (rest : List Char) :
    after (keyMarker key tail) ('"' :: (content ++ '"' :: c :: rest)) =
      after (keyMarker key tail) (c :: rest) := by
  have hinside : after (keyMarker key tail) (('"' :: content) ++ ('"' :: c :: rest)) =
      after (keyMarker key tail) ('"' :: c :: rest) :=
    after_append (passes_quoted hkey hcontent (Or.inr fun h => hcolon (Option.some.inj h)))
  rw [List.cons_append] at hinside
  rw [hinside, after_quote hkey hc]

end SpotRelay.Library.MarkerSearch
