import SpotRelay.Library.JsonSegments

/-!
# JSON texts

The texts of JSON values, one family for values and for the elements and fields inside them, with
the blanks that stand between their parts.  Every text falls into segments that are sound for a
search.
-/

set_option autoImplicit false

namespace SpotRelay.Library.JsonText

open SpotRelay.Library.MarkerSearch SpotRelay.Library.JsonSegments

abbrev Blanks := { text : List Char // Blank text }

/-- What stands between the quotes of a string. -/
abbrev Body := { text : List Char // isBody text = true }

def wordChars : List Char := "0123456789+-.eEtrufalsn".toList

/-- A number, `true`, `false` or `null`. -/
abbrev Word := { text : List Char // text ≠ [] ∧ ∀ c ∈ text, c ∈ wordChars }

inductive Kind
  | value
  | elements
  | fields
deriving DecidableEq

inductive Json : Kind → Type
  | word (text : Word) : Json .value
  | string (body : Body) : Json .value
  | array (elements : Json .elements) : Json .value
  | object (fields : Json .fields) : Json .value
  | noElement (blanks : Blanks) : Json .elements
  | element (lead : Blanks) (value : Json .value) (gap : Blanks) (rest : Json .elements) :
      Json .elements
  | noField (blanks : Blanks) : Json .fields
  | field (lead : Blanks) (name : Body) (before behind : Blanks) (value : Json .value)
      (gap : Blanks) (rest : Json .fields) : Json .fields

namespace Json

/-- The comma in front of an element or a field that is not the first one. -/
def comma : {k : Kind} → Json k → List Char
  | _, element .. => [',']
  | _, field .. => [',']
  | _, _ => []

def text : {k : Kind} → Json k → List Char
  | _, word text => text
  | _, string body => '"' :: (body ++ ['"'])
  | _, array elements => '[' :: (elements.text ++ [']'])
  | _, object fields => '\x7b' :: (fields.text ++ ['\x7d'])
  | _, noElement blanks => blanks
  | _, element lead value gap rest => lead ++ (value.text ++ (gap ++ (rest.comma ++ rest.text)))
  | _, noField blanks => blanks
  | _, field lead name before behind value gap rest =>
    lead ++ ('"' :: (name ++ '"' :: (before ++ ':' :: (behind ++
      (value.text ++ (gap ++ (rest.comma ++ rest.text)))))))

/-! ## Reading -/

/-- The value of the first field with that name. -/
def find (key : List Char) : {k : Kind} → Json k → Option (Json .value)
  | _, field _ name _ _ value _ rest => if name.1 = key then some value else rest.find key
  | _, _ => none

/-- The names of the fields. -/
def names : {k : Kind} → Json k → List (List Char)
  | _, field _ name _ _ _ _ rest => name.1 :: rest.names
  | _, _ => []

def toList : {k : Kind} → Json k → List (Json .value)
  | _, element _ value _ rest => value :: rest.toList
  | _, _ => []

end Json

/-! ## Segments -/

def plains (text : List Char) : List Segment := text.map Segment.plain

/-- A plain text is its characters. -/
theorem segmentsText_plains (text : List Char) : segmentsText (plains text) = text := by
  induction text with
  | nil => rfl
  | cons c text ih =>
    show segmentsText (.plain c :: plains text) = c :: text
    rw [segmentsText_cons, ih]
    rfl

/-- Plain characters without a quotation mark may precede any chain. -/
theorem chain_plains {text : List Char} (h : '"' ∉ text) {more : List Segment}
    (hmore : Chain more) : Chain (plains text ++ more) := by
  induction text with
  | nil => exact hmore
  | cons c text ih =>
    rw [List.mem_cons, not_or] at h
    exact ⟨Ne.symm h.1, ih h.2⟩

/-- A character that may follow a value follows it. -/
def Closed (more : List Segment) : Prop := ∃ c ∈ closers, (segmentsText more).head? = some c

/-- A closer closes what stands before it. -/
theorem closed_plain {c : Char} (h : c ∈ closers) (more : List Segment) :
    Closed (.plain c :: more) := ⟨c, h, rfl⟩

/-- Closers may precede what is closed. -/
theorem closed_plains {text : List Char} (h : ∀ c ∈ text, c ∈ closers) {more : List Segment}
    (hmore : Closed more) : Closed (plains text ++ more) := by
  cases text with
  | nil => exact hmore
  | cons c text => exact closed_plain (h c List.mem_cons_self) _

/-- A name up to its last quote, if it has one, and the rest. -/
def splitName : List Char → Option (List Char) × List Char
  | [] => (none, [])
  | c :: name =>
    match splitName name with
    | (some init, last) => (some (c :: init), last)
    | (none, last) => if c = '"' then (some [], last) else (none, c :: last)

/-- A name is split behind its last quotation mark. -/
theorem splitName_spec (name : List Char) :
    '"' ∉ (splitName name).2 ∧
      match (splitName name).1 with
      | none => (splitName name).2 = name
      | some init => name = init ++ '"' :: (splitName name).2 := by
  induction name with
  | nil => exact ⟨List.not_mem_nil, rfl⟩
  | cons c name ih =>
    rw [splitName]
    rcases hsplit : splitName name with ⟨_ | init, last⟩
    · rw [hsplit] at ih
      dsimp only at ih ⊢
      obtain ⟨hlast, hname⟩ := ih
      by_cases hc : c = '"'
      · rw [if_pos hc]
        exact ⟨hlast, by rw [hc, ← hname]; rfl⟩
      · rw [if_neg hc]
        refine ⟨?_, by rw [← hname]⟩
        rw [List.mem_cons, not_or]
        exact ⟨Ne.symm hc, hlast⟩
    · rw [hsplit] at ih
      dsimp only at ih ⊢
      obtain ⟨hlast, hname⟩ := ih
      exact ⟨hlast, by rw [hname, List.cons_append]⟩

/-- A field, from the segments of its value. -/
def fieldSegments (name before behind : List Char) : List Segment → List Segment
  | .string body :: more => .stringField name before behind body :: more
  | .plain c :: more => .otherField name before behind c :: more
  | more => more

def nameSegments (name : List Char) : List Segment :=
  match (splitName name).1 with
  | none => []
  | some init => [.nameStart init]

namespace Json

def segments : {k : Kind} → Json k → List Segment
  | _, word text => plains text
  | _, string body => [.string body]
  | _, array elements => .plain '[' :: (elements.segments ++ [.plain ']'])
  | _, object fields => .plain '\x7b' :: (fields.segments ++ [.plain '\x7d'])
  | _, noElement blanks => plains blanks
  | _, element lead value gap rest =>
    plains lead ++ (value.segments ++ (plains (gap ++ rest.comma) ++ rest.segments))
  | _, noField blanks => plains blanks
  | _, field lead name before behind value gap rest =>
    plains lead ++ (nameSegments name ++
      (fieldSegments (splitName name).2 before behind value.segments ++
        (plains (gap ++ rest.comma) ++ rest.segments)))

/-- A value is a string or begins with another character. -/
theorem segments_value (t : Json .value) :
    (∃ body : Body, t.segments = [.string body]) ∨
      ∃ c more, t.segments = .plain c :: more ∧ c ≠ '"' := by
  cases t with
  | word text =>
    obtain ⟨text, hne, hchars⟩ := text
    obtain ⟨c, text, rfl⟩ := List.exists_cons_of_ne_nil hne
    refine Or.inr ⟨c, plains text, rfl, ?_⟩
    rintro rfl
    exact absurd (hchars '"' List.mem_cons_self) (by decide)
  | string body => exact Or.inl ⟨body, rfl⟩
  | array elements => exact Or.inr ⟨'[', _, rfl, by decide⟩
  | object fields => exact Or.inr ⟨'\x7b', _, rfl, by decide⟩

/-- The text of a field: its name, the colon between its blanks and its value. -/
theorem text_fieldSegments (name before behind : List Char) (t : Json .value) :
    segmentsText (fieldSegments name before behind t.segments) =
      '"' :: (name ++ '"' :: (before ++ ':' :: (behind ++ segmentsText t.segments))) := by
  rcases segments_value t with ⟨body, h⟩ | ⟨c, more, h, -⟩
  · rw [h]
    simp [fieldSegments, segmentsText, Segment.text]
  · rw [h]
    simp [fieldSegments, segmentsText, Segment.text]

/-- The text of a name that is split at a quotation mark. -/
theorem text_nameSegments (name rest : List Char) :
    segmentsText (nameSegments name) ++ '"' :: ((splitName name).2 ++ rest) =
      '"' :: (name ++ rest) := by
  obtain ⟨-, hname⟩ := splitName_spec name
  unfold nameSegments
  cases hinit : (splitName name).1 with
  | none =>
    rw [hinit] at hname
    dsimp only at hname ⊢
    rw [hname]
    rfl
  | some init =>
    rw [hinit] at hname
    dsimp only at hname ⊢
    have htext : segmentsText [Segment.nameStart init] = '"' :: init := by
      simp [segmentsText, Segment.text]
    calc segmentsText [Segment.nameStart init] ++ '"' :: ((splitName name).2 ++ rest)
        = '"' :: ((init ++ '"' :: (splitName name).2) ++ rest) := by
          rw [htext, List.cons_append, List.append_assoc, List.cons_append]
      _ = '"' :: (name ++ rest) := by rw [← hname]

/-- The segments make up the text. -/
theorem segmentsText_segments {k : Kind} (t : Json k) : segmentsText t.segments = t.text := by
  induction t with
  | word text => exact segmentsText_plains _
  | string body => exact List.append_nil _
  | array elements ih =>
    show segmentsText (.plain '[' :: (elements.segments ++ [.plain ']'])) = _
    rw [segmentsText_cons, segmentsText_append, ih]
    rfl
  | object fields ih =>
    show segmentsText (.plain '\x7b' :: (fields.segments ++ [.plain '\x7d'])) = _
    rw [segmentsText_cons, segmentsText_append, ih]
    rfl
  | noElement blanks => exact segmentsText_plains _
  | element lead value gap rest ihValue ihRest =>
    simp only [segments, segmentsText_append, segmentsText_plains, ihValue, ihRest, text,
      List.append_assoc]
  | noField blanks => exact segmentsText_plains _
  | field lead name before behind value gap rest ihValue ihRest =>
    simp only [segments, segmentsText_append, segmentsText_plains, text_fieldSegments, ihValue,
      ihRest, text, List.append_assoc, List.cons_append]
    rw [text_nameSegments]

/-! ### Soundness -/

/-- Blanks are closers. -/
theorem closers_of_blank (blanks : Blanks) : ∀ c ∈ blanks.1, c ∈ closers :=
  fun c hc => List.mem_append_left _ (blanks.2 c hc)

/-- What stands between two elements is made of closers. -/
theorem closers_of_gap (gap : Blanks) {k : Kind} (rest : Json k) :
    ∀ c ∈ gap ++ rest.comma, c ∈ closers := by
  intro c hc
  rcases List.mem_append.mp hc with hgap | hcomma
  · exact closers_of_blank gap c hgap
  · have hcommas : ∀ d ∈ rest.comma, d ∈ closers := by
      cases rest <;> exact of_decide_eq_true rfl
    exact hcommas c hcomma

/-- Behind a value the text goes on with blanks, a comma or what follows the last value. -/
theorem closed_rest (gap : Blanks) {k : Kind} (hk : k ≠ .value) (rest : Json k)
    {more : List Segment} (hmore : Closed more) :
    Closed (plains (gap ++ rest.comma) ++ (rest.segments ++ more)) := by
  have hgap := closers_of_gap gap rest
  cases rest with
  | noElement blanks => exact closed_plains hgap (closed_plains (closers_of_blank blanks) hmore)
  | noField blanks => exact closed_plains hgap (closed_plains (closers_of_blank blanks) hmore)
  | element lead value inner rest =>
    show Closed (plains (gap ++ [',']) ++ _)
    rw [plains, List.map_append, List.append_assoc]
    exact closed_plains (closers_of_blank gap) (closed_plain (by decide) _)
  | field lead name before behind value inner rest =>
    show Closed (plains (gap ++ [',']) ++ _)
    rw [plains, List.map_append, List.append_assoc]
    exact closed_plains (closers_of_blank gap) (closed_plain (by decide) _)
  | _ => exact absurd rfl hk

/-- The segments of an escaped name form a chain. -/
theorem chain_nameSegments {name : List Char} (hname : QuotesEscaped name) {more : List Segment}
    (hnext : (segmentsText more).head? = some '"') (hmore : Chain more) :
    Chain (nameSegments name ++ more) := by
  obtain ⟨-, hsplit⟩ := splitName_spec name
  unfold nameSegments
  cases hinit : (splitName name).1 with
  | none => exact hmore
  | some init =>
    rw [hinit] at hsplit
    dsimp only at hsplit
    refine ⟨⟨fun before post heq => ?_, hname init _ hsplit, hnext⟩, hmore⟩
    refine hname before (post ++ '"' :: (splitName name).2) (hsplit.trans ?_)
    rw [heq, List.append_assoc, List.cons_append]

/-- The segments of a field form a chain. -/
theorem chain_fieldSegments {name before behind : List Char} (hname : '"' ∉ name)
    (hbefore : Blank before) (hbehind : Blank behind) (t : Json .value) {more : List Segment}
    (h : Chain (t.segments ++ more)) :
    Chain (fieldSegments name before behind t.segments ++ more) := by
  rcases segments_value t with ⟨body, hsegments⟩ | ⟨c, rest, hsegments, hc⟩
  · rw [hsegments] at h ⊢
    exact ⟨⟨hname, hbefore, hbehind, h.1.1, h.1.2⟩, h.2⟩
  · rw [hsegments] at h ⊢
    exact ⟨⟨hname, hbefore, hbehind, hc⟩, h.2⟩

/-- Every segment is sound in front of the next one. -/
theorem chain_segments {k : Kind} (t : Json k) {more : List Segment} (hclosed : Closed more)
    (hmore : Chain more) : Chain (t.segments ++ more) := by
  have hblank : ∀ blanks : Blanks, '"' ∉ blanks.1 := fun blanks => not_mem_of_blank blanks.2
  have hgap : ∀ (gap : Blanks) {k : Kind} (rest : Json k), '"' ∉ gap ++ rest.comma := by
    intro gap k rest hmem
    exact absurd (closers_of_gap gap rest '"' hmem) (by decide)
  induction t generalizing more with
  | word text =>
    refine chain_plains (fun hmem => ?_) hmore
    exact absurd (text.2.2 '"' hmem) (by decide)
  | string body => exact ⟨⟨quotesEscaped_of_isBody body.2, hclosed⟩, hmore⟩
  | array elements ih =>
    have hend : Chain (.plain ']' :: more) := ⟨by simp [Segment.Ready], hmore⟩
    have helements := ih (closed_plain (by decide) more) hend
    rw [← List.singleton_append, ← List.append_assoc] at helements
    exact ⟨by simp [Segment.Ready], helements⟩
  | object fields ih =>
    have hend : Chain (.plain '\x7d' :: more) := ⟨by simp [Segment.Ready], hmore⟩
    have hfields := ih (closed_plain (by decide) more) hend
    rw [← List.singleton_append, ← List.append_assoc] at hfields
    exact ⟨by simp [Segment.Ready], hfields⟩
  | noElement blanks => exact chain_plains (hblank blanks) hmore
  | element lead value gap rest ihValue ihRest =>
    have hrest := chain_plains (hgap gap rest) (ihRest hclosed hmore)
    have hvalue := ihValue (closed_rest gap (by decide) rest hclosed) hrest
    simp only [segments, List.append_assoc]
    exact chain_plains (hblank lead) hvalue
  | noField blanks => exact chain_plains (hblank blanks) hmore
  | field lead name before behind value gap rest ihValue ihRest =>
    have hrest := chain_plains (hgap gap rest) (ihRest hclosed hmore)
    have hvalue := ihValue (closed_rest gap (by decide) rest hclosed) hrest
    have hfield := chain_fieldSegments (splitName_spec name).1 before.2 behind.2 value hvalue
    simp only [segments, List.append_assoc]
    refine chain_plains (hblank lead) ?_
    refine chain_nameSegments (quotesEscaped_of_isBody name.2) ?_ hfield
    rw [segmentsText_append, text_fieldSegments]
    rfl

end Json

end SpotRelay.Library.JsonText
