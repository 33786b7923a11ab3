import Mathlib.Data.List.TakeWhile
import SpotRelay.Library.MarkerSearch

/-!
# JSON text in segments

A JSON text as a search for keys meets it: the name of a field with what its value begins with, a
string that is an element of an array, and any other character.  Blanks may stand around a colon.
A search finds a key exactly where its name stands, with no blanks between it and the value; of a
name with quotes in it, it sees what stands behind the last one.
-/

set_option autoImplicit false

namespace SpotRelay.Library.JsonSegments

open SpotRelay.Library.MarkerSearch

def blankChars : List Char := [' ', '\t', '\n', '\r']

/-- What may follow a value. -/
def closers : List Char := blankChars ++ [',', ']', '\x7d']

def Blank (text : List Char) : Prop := ∀ c ∈ text, c ∈ blankChars

instance (text : List Char) : Decidable (Blank text) := inferInstanceAs (Decidable (∀ _ ∈ _, _))

/-- What may stand between the quotes of a string: a backslash goes with the character behind it,
and no other character is a quote. -/
def isBody : List Char → Bool
  | [] => true
  | '\\' :: _ :: rest => isBody rest
  | c :: rest => c ≠ '"' && c ≠ '\\' && isBody rest

/-- A body has its quotation marks escaped. -/
theorem quotesEscaped_of_isBody {text : List Char} (h : isBody text = true) :
    QuotesEscaped text := by
  fun_induction isBody text with
  | case1 => exact quotesEscaped_of_noQuote (by simp)
  | case2 c rest ih =>
    intro before post heq
    rcases before with _ | ⟨b, _ | ⟨b', before⟩⟩
    · exact absurd (List.cons.inj heq).1 (by decide)
    · exact ⟨[], by rw [(List.cons.inj heq).1]; rfl⟩
    · have hrest := (List.cons.inj heq).2
      obtain ⟨init, rfl⟩ := ih h before post (List.cons.inj hrest).2
      exact ⟨b :: b' :: init, rfl⟩
  | case3 c rest hnot ih =>
    simp only [Bool.and_eq_true, decide_eq_true_eq] at h
    intro before post heq
    cases before with
    | nil => exact absurd (List.cons.inj heq).1 h.1.1
    | cons b before =>
      obtain ⟨init, rfl⟩ := ih h.2 before post (List.cons.inj heq).2
      exact ⟨b :: init, rfl⟩

inductive Segment
  | plain (c : Char)
  | string (body : List Char)
  /-- A name up to its last quote; the rest of it is the name of the field that follows. -/
  | nameStart (init : List Char)
  /-- A field whose value is a string. -/
  | stringField (name before behind body : List Char)
  /-- Another field, up to the first character of its value. -/
  | otherField (name before behind : List Char) (opening : Char)
deriving DecidableEq

namespace Segment

def text : Segment → List Char
  | plain c => [c]
  | string body => '"' :: (body ++ ['"'])
  | nameStart init => '"' :: init
  | stringField name before behind body =>
    '"' :: (name ++ '"' :: (before ++ ':' :: (behind ++ '"' :: (body ++ ['"']))))
  | otherField name before behind opening =>
    '"' :: (name ++ '"' :: (before ++ ':' :: (behind ++ [opening])))

/-- The segment is sound in front of that character. -/
def Ready : Segment → Option Char → Prop
  | plain c, _ => c ≠ '"'
  | string body, next => QuotesEscaped body ∧ ∃ c ∈ closers, next = some c
  | nameStart init, next =>
    QuotesEscaped init ∧ (∃ front, init = front ++ ['\\']) ∧ next = some '"'
  | stringField name before behind body, next =>
    '"' ∉ name ∧ Blank before ∧ Blank behind ∧ QuotesEscaped body ∧ ∃ c ∈ closers, next = some c
  | otherField name before behind opening, _ =>
    '"' ∉ name ∧ Blank before ∧ Blank behind ∧ opening ≠ '"'

/-- The string that a search for `"key":"` finds here. -/
def shownString (key : List Char) : Segment → Option (List Char)
  | stringField name [] [] body => if name = key then some body else none
  | _ => none

/-- A search for `"key":` and `opening`, which is no quote, finds it here. -/
def showsOther (key : List Char) (opening : Char) : Segment → Bool
  | otherField name [] [] first => decide (name = key ∧ first = opening)
  | _ => false

end Segment

def segmentsText (segments : List Segment) : List Char := segments.flatMap Segment.text

/-- The text of segments, the first one apart. -/
theorem segmentsText_cons (s : Segment) (segments : List Segment) :
    segmentsText (s :: segments) = s.text ++ segmentsText segments := List.flatMap_cons

/-- The text of two lists of segments. -/
theorem segmentsText_append (a b : List Segment) :
    segmentsText (a ++ b) = segmentsText a ++ segmentsText b := List.flatMap_append

/-- Every segment is sound in front of the next one. -/
def Chain : List Segment → Prop
  | [] => True
  | s :: rest => s.Ready (segmentsText rest).head? ∧ Chain rest

/-! ## Searching -/

/-- A key that may be searched for. -/
def SearchKey (key : List Char) : Prop :=
  PlainKey key ∧ ∀ c ∈ ':' :: closers, key.head? ≠ some c

instance (key : List Char) : Decidable (SearchKey key) := inferInstanceAs (Decidable (_ ∧ _))

/-- No closer is a colon. -/
theorem ne_colon_of_closer {c : Char} (h : c ∈ closers) : c ≠ ':' := by
  rintro rfl
  exact absurd h (by decide)

variable {key tail : List Char}

/-- A text without a quotation mark is passed over in the search for a key. -/
theorem passes_of_noQuote {text : List Char} (h : '"' ∉ text) (rest : List Char) :
    Passes (keyMarker key tail) text rest := by
  rintro before post rfl hne hprefix
  obtain ⟨c, post, rfl⟩ := List.exists_cons_of_ne_nil hne
  obtain ⟨rfl, -⟩ := List.cons_prefix_cons.mp hprefix
  exact h (by simp)

/-- Blanks have no quotation mark in them. -/
theorem not_mem_of_blank {text : List Char} (h : Blank text) : '"' ∉ text :=
  fun hmem => absurd (h '"' hmem) (by decide)

/-- No key begins at a closing quote. -/
theorem passes_closing (hkey : SearchKey key) {rest : List Char} {c : Char}
    (hc : c ∈ ':' :: closers) (hnext : rest.head? = some c) :
    Passes (keyMarker key tail) ['"'] rest := by
  refine Passes.cons (fun hprefix => ?_) (Passes.nil _ _)
  obtain ⟨d, front, rfl⟩ := List.exists_cons_of_ne_nil hkey.1.2.2
  have hbehind : d :: (front ++ '"' :: ':' :: tail) <+: rest :=
    (List.cons_prefix_cons.mp hprefix).2
  obtain ⟨more, rfl⟩ := hbehind
  exact hkey.2 c hc hnext

/-- A search passes over a string. -/
theorem passes_string (hkey : SearchKey key) {body rest : List Char} (hbody : QuotesEscaped body)
    (hnext : ∃ c ∈ closers, rest.head? = some c) :
    Passes (keyMarker key tail) ('"' :: (body ++ ['"'])) rest := by
  obtain ⟨c, hc, hhead⟩ := hnext
  have hcolon : rest.head? ≠ some ':' := by
    rw [hhead]
    exact fun h => ne_colon_of_closer hc (Option.some.inj h)
  rw [← List.cons_append]
  exact (passes_quoted hkey.1 hbody (Or.inr hcolon)).append
    (passes_closing hkey (List.mem_cons_of_mem _ hc) hhead)

/-- Behind its opening quote a name is passed over, with its colon and the blanks. -/
theorem passes_name (hkey : SearchKey key) {name before behind : List Char} (hname : '"' ∉ name)
    (hbefore : Blank before) (hbehind : Blank behind) (rest : List Char) :
    Passes (keyMarker key tail) (name ++ '"' :: (before ++ ':' :: behind)) rest := by
  have hblank : '"' ∉ before ++ ':' :: behind := by
    simp [not_mem_of_blank hbefore, not_mem_of_blank hbehind]
  have hhead : ∃ c ∈ ':' :: closers, (before ++ ':' :: behind ++ rest).head? = some c := by
    cases before with
    | nil => exact ⟨':', List.mem_cons_self, rfl⟩
    | cons c before =>
      exact ⟨c, List.mem_cons_of_mem _ (List.mem_append_left _ (hbefore c List.mem_cons_self)),
        rfl⟩
  obtain ⟨c, hc, hhead⟩ := hhead
  refine (passes_of_noQuote hname _).append ?_
  exact (passes_closing hkey hc hhead).append (passes_of_noQuote hblank rest)

/-- The first quote of a segment apart, no key begins in it. -/
theorem passes_tail (hkey : SearchKey key) {s : Segment} {rest : List Char}
    (h : s.Ready rest.head?) : Passes (keyMarker key tail) s.text.tail rest := by
  cases s with
  | plain c => exact Passes.nil _ _
  | string body => exact (passes_string hkey h.1 h.2).tail
  | nameStart init =>
    obtain ⟨hinit, hlast, hnext⟩ := h
    obtain ⟨more, rfl⟩ := List.head?_eq_some_iff.mp hnext
    exact (passes_quoted hkey.1 hinit (Or.inl hlast)).tail
  | stringField name before behind body =>
    obtain ⟨hname, hbefore, hbehind, hbody, hnext⟩ := h
    have htext : (Segment.stringField name before behind body).text.tail =
        (name ++ '"' :: (before ++ ':' :: behind)) ++ '"' :: (body ++ ['"']) := by
      simp [Segment.text]
    rw [htext]
    exact (passes_name hkey hname hbefore hbehind _).append (passes_string hkey hbody hnext)
  | otherField name before behind opening =>
    obtain ⟨hname, hbefore, hbehind, hopening⟩ := h
    have htext : (Segment.otherField name before behind opening).text.tail =
        (name ++ '"' :: (before ++ ':' :: behind)) ++ [opening] := by
      simp [Segment.text]
    rw [htext]
    exact (passes_name hkey hname hbefore hbehind _).append
      (passes_of_noQuote (by simpa using hopening.symm) rest)

/-- A key begins at a field only where it is the field's name, next to its colon and a value that
begins as it should. -/
theorem field_of_prefix (hkey : SearchKey key) {opening : Char} (hblank : opening ∉ blankChars)
    {name before behind rest : List Char} {first : Char} (hname : '"' ∉ name)
    (hbefore : Blank before) (hbehind : Blank behind)
    (h : keyMarker key [opening] <+:
      '"' :: (name ++ '"' :: (before ++ ':' :: (behind ++ first :: rest)))) :
    name = key ∧ before = [] ∧ behind = [] ∧ first = opening := by
  obtain ⟨rfl, hvalue⟩ := prefix_of_quote hkey.1.1 hname (List.cons_prefix_cons.mp h).2
  cases before with
  | cons c before =>
    have hcolon : ':' = c := (List.cons_prefix_cons.mp hvalue).1
    exact absurd (hbefore c List.mem_cons_self) (by rw [← hcolon]; decide)
  | nil =>
    have hopening : [opening] <+: behind ++ first :: rest := (List.cons_prefix_cons.mp hvalue).2
    cases behind with
    | cons c behind =>
      have hsame : opening = c := (List.cons_prefix_cons.mp hopening).1
      exact absurd (hsame ▸ hbehind c List.mem_cons_self) hblank
    | nil => exact ⟨rfl, rfl, rfl, (List.cons_prefix_cons.mp hopening).1.symm⟩

/-- A search passes over a segment with a field whose value begins in another way. -/
theorem passes_segment (hkey : SearchKey key) {opening : Char} (hblank : opening ∉ blankChars)
    {s : Segment} {rest : List Char} (h : s.Ready rest.head?)
    (hstring : opening = '"' → s.shownString key = none)
    (hother : s.showsOther key opening = false) :
    Passes (keyMarker key [opening]) s.text rest := by
  cases s with
  | plain c =>
    have hquote : '"' ∉ [c] := fun hmem => h (List.mem_singleton.mp hmem).symm
    exact passes_of_noQuote hquote rest
  | string body => exact passes_string hkey h.1 h.2
  | nameStart init =>
    obtain ⟨hinit, hlast, hnext⟩ := h
    obtain ⟨more, rfl⟩ := List.head?_eq_some_iff.mp hnext
    exact passes_quoted hkey.1 hinit (Or.inl hlast)
  | stringField name before behind body =>
    refine Passes.cons (fun hprefix => ?_) (passes_tail hkey h)
    obtain ⟨hname, hbefore, hbehind, -, -⟩ := h
    simp only [List.append_assoc, List.cons_append] at hprefix
    obtain ⟨rfl, rfl, rfl, hquote⟩ := field_of_prefix hkey hblank hname hbefore hbehind hprefix
    exact absurd (hstring hquote.symm) (by simp [Segment.shownString])
  | otherField name before behind first =>
    refine Passes.cons (fun hprefix => ?_) (passes_tail hkey h)
    obtain ⟨hname, hbefore, hbehind, -⟩ := h
    simp only [List.append_assoc, List.cons_append, List.nil_append] at hprefix
    obtain ⟨rfl, rfl, rfl, hfirst⟩ := field_of_prefix hkey hblank hname hbefore hbehind hprefix
    exact absurd hother (by simp [Segment.showsOther, hfirst])

/-- A segment that is ready does not show the key with a quoted value. -/
theorem showsOther_quote {s : Segment} {next : Option Char} (h : s.Ready next) :
    s.showsOther key '"' = false := by
  cases s with
  | otherField name before behind first =>
    cases before with
    | cons => rfl
    | nil =>
      cases behind with
      | cons => rfl
      | nil => exact decide_eq_false fun hshown => h.2.2.2 hshown.2
  | _ => rfl

/-- What follows the first field of that name whose value begins so. -/
def behindOther (key : List Char) (opening : Char) : List Segment → Option (List Segment)
  | [] => none
  | s :: rest => if s.showsOther key opening then some rest else behindOther key opening rest

/-- A segment that shows the key with another value is the marker itself. -/
theorem text_of_showsOther {s : Segment} {opening : Char} (h : s.showsOther key opening = true) :
    s.text = keyMarker key [opening] := by
  cases s with
  | otherField name before behind first =>
    cases before with
    | cons => cases h
    | nil =>
      cases behind with
      | cons => cases h
      | nil =>
        obtain ⟨rfl, rfl⟩ := of_decide_eq_true h
        rfl
  | _ => cases h

/-- A search for a field whose value is no string ends behind the first one that is shown. -/
theorem after_segments (hkey : SearchKey key) {opening : Char} (hblank : opening ∉ blankChars)
    (hquote : opening ≠ '"') {segments : List Segment} (h : Chain segments) :
    after (keyMarker key [opening]) (segmentsText segments) =
      (behindOther key opening segments).map segmentsText := by
  induction segments with
  | nil => rfl
  | cons s segments ih =>
    rw [segmentsText_cons, behindOther]
    by_cases hshown : s.showsOther key opening = true
    · rw [if_pos hshown, text_of_showsOther hshown, after_self (by exact List.cons_ne_nil _ _)]
      rfl
    · have hnot : s.showsOther key opening = false := by simpa using hshown
      have hpasses := passes_segment hkey hblank h.1 (fun hopening => absurd hopening hquote) hnot
      rw [if_neg hshown, after_append hpasses, ih h.2]

/-- What stands behind the other value is a chain. -/
theorem chain_behindOther {opening : Char} {segments more : List Segment} (h : Chain segments)
    (hmore : behindOther key opening segments = some more) : Chain more := by
  induction segments with
  | nil => cases hmore
  | cons s segments ih =>
    rw [behindOther] at hmore
    by_cases hshown : s.showsOther key opening = true
    · rw [if_pos hshown] at hmore
      exact Option.some.inj hmore ▸ h.2
    · rw [if_neg hshown] at hmore
      exact ih h.2 hmore

/-! ## Values -/

/-- A string up to its next quote, which is the end of a value to a search. -/
def cutValue (body : List Char) : List Char := body.takeWhile (· ≠ '"')

/-- A value that is cut at its quotation mark has none in it. -/
theorem quote_not_mem_cutValue (body : List Char) : '"' ∉ cutValue body := by
  intro hmem
  have hne := List.mem_takeWhile_imp (p := fun c => decide (c ≠ '"')) hmem
  exact of_decide_eq_true hne rfl

/-- The value and the quote behind it, in a string with its closing quote. -/
theorem cutValue_split (body : List Char) :
    ∃ post, body ++ ['"'] = cutValue body ++ '"' :: post := by
  have hsplit := List.takeWhile_append_dropWhile (p := fun c => decide (c ≠ '"')) (l := body)
  cases hdrop : body.dropWhile fun c => decide (c ≠ '"') with
  | nil =>
    rw [hdrop, List.append_nil] at hsplit
    exact ⟨[], by rw [cutValue, hsplit]⟩
  | cons c post =>
    have hne : body.dropWhile (fun c => decide (c ≠ '"')) ≠ [] := by
      rw [hdrop]
      exact List.cons_ne_nil _ _
    have hquote := List.head_dropWhile_not (fun c => decide (c ≠ '"')) hne
    simp only [hdrop, List.head_cons, decide_eq_false_iff_not, not_not] at hquote
    subst hquote
    refine ⟨post ++ ['"'], ?_⟩
    calc body ++ ['"']
        = (cutValue body ++ '"' :: post) ++ ['"'] := by
          rw [hdrop] at hsplit
          exact congrArg (· ++ ['"']) hsplit.symm
      _ = cutValue body ++ '"' :: (post ++ ['"']) := by rw [List.append_assoc, List.cons_append]

/-- A string is shown where nothing stands between its name, the colon and itself. -/
theorem eq_of_shownString {s : Segment} {body : List Char}
    (h : s.shownString key = some body) : s = .stringField key [] [] body := by
  cases s with
  | stringField name before behind value =>
    cases before with
    | cons => cases h
    | nil =>
      cases behind with
      | cons => cases h
      | nil =>
        simp only [Segment.shownString] at h
        by_cases hsame : name = key
        · rw [if_pos hsame] at h
          rw [hsame, Option.some.inj h]
        · rw [if_neg hsame] at h
          cases h
  | _ => cases h

end SpotRelay.Library.JsonSegments
