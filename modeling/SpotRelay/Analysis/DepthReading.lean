import SpotRelay.Interface.BithumbDepth
import SpotRelay.Analysis.QuotedValues

/-!
# What the depth scanner reads

The scanner of the depth messages goes by the text: behind the list it takes for an object what
stands between an opening brace and the next closing one, wherever these stand, and for a field
what stands where a search for its name ends.

* **the pieces** that the scanner cuts out are those of the message's segments (`pieces_segments`).
* **the fields** of a piece are searched for one by one (`parseDepthObject_eq`), so the whole scan
  is one update for each piece that shows its fields (`parseOrderbookdepthFast_eq_some`).
-/

set_option autoImplicit false

namespace SpotRelay.Analysis

open SpotRelay.Library.MarkerSearch SpotRelay.Library.JsonSegments SpotRelay.Library.JsonText
open SpotRelay.Model SpotRelay.Interface

/-! ## One piece of text -/

/-- The values behind the keys, each searched for behind the one before, up to the first key that
has none. -/
def readKeys : List (List Char) → List Char → List (List Char)
  | [], _ => []
  | key :: keys, text =>
    match extractQuotedValue text (keyMarker key ['"']) with
    | none => []
    | some (value, rest) => value :: readKeys keys rest

def depthKeys : List (List Char) :=
  ["symbol".toList, "orderType".toList, "price".toList, "quantity".toList]

/-- The update that the values of an object make: `some none` where there is no symbol. -/
def updateOf : List (List Char) → Option (Option FastBithumbDepthUpdate)
  | [] => some none
  | [symbol, orderType, price, quantity] =>
    some (some
      { symbol := .fromBithumbFormat symbol
        isBid := orderType == "bid".toList
        price := fastStod price
        quantity := fastStod quantity })
  | _ => none

/-- The object parser reads its keys one after the other and makes the update of what they hold. -/
theorem parseDepthObject_eq (item : List Char) :
    parseDepthObject item = updateOf (readKeys depthKeys item) := by
  have hsymbol : "\"symbol\":\"".toList = keyMarker "symbol".toList ['"'] := by decide
  have htype : "\"orderType\":\"".toList = keyMarker "orderType".toList ['"'] := by decide
  have hprice : "\"price\":\"".toList = keyMarker "price".toList ['"'] := by decide
  have hquantity : "\"quantity\":\"".toList = keyMarker "quantity".toList ['"'] := by decide
  unfold parseDepthObject depthKeys
  rw [hsymbol, htype, hprice, hquantity, readKeys]
  rcases extractQuotedValue item (keyMarker "symbol".toList ['"']) with _ | ⟨symbol, afterSymbol⟩
  · rfl
  simp only [readKeys, Option.bind_eq_bind]
  rcases extractQuotedValue afterSymbol (keyMarker "orderType".toList ['"']) with
    _ | ⟨orderType, afterType⟩
  · rfl
  simp only [Option.bind_some]
  rcases extractQuotedValue afterType (keyMarker "price".toList ['"']) with _ | ⟨price, afterPrice⟩
  · rfl
  simp only [Option.bind_some]
  rcases extractQuotedValue afterPrice (keyMarker "quantity".toList ['"']) with
    _ | ⟨quantity, afterQuantity⟩
  · rfl
  · rfl

/-- A text up to its first closing brace. -/
def through : List Char → List Char
  | [] => []
  | c :: text => if c = '\x7d' then [c] else c :: through text

/-- Text before the closing brace is read through. -/
theorem through_append {text : List Char} (h : '\x7d' ∉ text) (rest : List Char) :
    through (text ++ rest) = text ++ through rest := by
  induction text with
  | nil => rfl
  | cons c text ih =>
    rw [List.mem_cons, not_or] at h
    rw [List.cons_append, through, if_neg (Ne.symm h.1), ih h.2, List.cons_append]

/-- Past the first closing brace nothing is read. -/
theorem through_of_mem {text : List Char} (h : '\x7d' ∈ text) (rest : List Char) :
    through (text ++ rest) = through text := by
  induction text with
  | nil => cases h
  | cons c text ih =>
    rw [List.cons_append, through, through]
    by_cases hc : c = '\x7d'
    · rw [if_pos hc, if_pos hc]
    · rw [if_neg hc, if_neg hc, ih ((List.mem_cons.mp h).resolve_left (Ne.symm hc))]

/-- What is read of a text is a beginning of it. -/
theorem prefix_through (text : List Char) : through text <+: text := by
  induction text with
  | nil => exact List.prefix_rfl
  | cons c text ih =>
    rw [through]
    split
    · exact List.prefix_append [c] text
    · exact List.cons_prefix_cons.mpr ⟨rfl, ih⟩

variable {key : List Char} {skipped rest : List Char}

/-- In a text without the key that the brace cuts off, there is no value. -/
theorem extractQuotedValue_cut (h : Passes (keyMarker key ['"']) skipped rest)
    (hbrace : '\x7d' ∈ skipped) :
    extractQuotedValue (through (skipped ++ rest)) (keyMarker key ['"']) = none := by
  refine extractQuotedValue_of_none ?_
  obtain ⟨more, hmore⟩ := prefix_through skipped
  rw [through_of_mem hbrace, findAfter_eq_after]
  rw [← hmore] at h
  exact h.truncate

/-- A text without the key is passed over. -/
theorem extractQuotedValue_skip (h : Passes (keyMarker key ['"']) skipped rest)
    (hbrace : '\x7d' ∉ skipped) :
    extractQuotedValue (through (skipped ++ rest)) (keyMarker key ['"']) =
      extractQuotedValue (through rest) (keyMarker key ['"']) := by
  refine extractQuotedValue_congr ?_
  rw [through_append hbrace, findAfter_eq_after, findAfter_eq_after]
  exact after_append (h.shorten (prefix_through rest))

/-- The value of a string that is shown, cut off at its next quote; none if a brace comes first. -/
theorem extractQuotedValue_shown {body post : List Char} (hkey : '\x7d' ∉ key)
    (hsplit : body ++ ['"'] = cutValue body ++ '"' :: post) (rest : List Char) :
    extractQuotedValue (through (keyMarker key ['"'] ++ (body ++ '"' :: rest)))
        (keyMarker key ['"']) =
      if '\x7d' ∈ cutValue body then none
      else some (cutValue body, through ('"' :: post ++ rest)) := by
  have hmarker : '\x7d' ∉ keyMarker key ['"'] := by simp [keyMarker, hkey]
  have htext : body ++ '"' :: rest = cutValue body ++ ('"' :: post ++ rest) := by
    rw [← List.append_assoc, ← hsplit, List.append_assoc, List.singleton_append]
  have hfind : ∀ value, findAfter (keyMarker key ['"']) (keyMarker key ['"'] ++ value) =
      some value := by
    intro value
    rw [findAfter_eq_after]
    exact after_self (by exact List.cons_ne_nil _ _) value
  rw [through_append hmarker, htext]
  by_cases hbrace : '\x7d' ∈ cutValue body
  · rw [if_pos hbrace, through_of_mem hbrace]
    refine extractQuotedValue_of_open (hfind _) fun hmem => ?_
    exact quote_not_mem_cutValue body ((prefix_through _).subset hmem)
  · rw [if_neg hbrace, through_append hbrace]
    have hquote : through ('"' :: post ++ rest) = '"' :: through (post ++ rest) := rfl
    rw [hquote]
    exact extractQuotedValue_of_found (hfind _) (quote_not_mem_cutValue body)

/-- The values that are shown one behind the other before a closing brace. -/
def shownValues : List (List Char) → List Segment → List (List Char)
  | key :: keys, s :: rest =>
    match s.shownString key with
    | some body =>
      if '\x7d' ∈ cutValue body then []
      else cutValue body :: if '\x7d' ∈ s.text then [] else shownValues keys rest
    | none => if '\x7d' ∈ s.text then [] else shownValues (key :: keys) rest
  | _, _ => []

/-- Without keys no value is shown. -/
theorem shownValues_nil (segments : List Segment) : shownValues [] segments = [] := by
  cases segments <;> rfl

/-- What is read up to the next closing brace is what the segments show, behind a text in which no
key begins. -/
theorem readKeys_through {keys : List (List Char)}
    (hkeys : ∀ key ∈ keys, SearchKey key ∧ '\x7d' ∉ key) {segments : List Segment}
    (hchain : Chain segments) {skipped : List Char}
    (hskip : ∀ key, keys.head? = some key →
      Passes (keyMarker key ['"']) skipped (segmentsText segments)) :
    readKeys keys (through (skipped ++ segmentsText segments)) =
      if '\x7d' ∈ skipped then [] else shownValues keys segments := by
  induction segments generalizing keys skipped with
  | nil =>
    cases keys with
    | nil => simp [readKeys, shownValues]
    | cons key keys =>
      have hpass := hskip key rfl
      by_cases hbrace : '\x7d' ∈ skipped
      · rw [if_pos hbrace, readKeys, extractQuotedValue_cut hpass hbrace]
      · rw [if_neg hbrace, readKeys, extractQuotedValue_skip hpass hbrace]
        rfl
  | cons s segments ih =>
    cases keys with
    | nil => simp [readKeys, shownValues_nil]
    | cons key keys =>
      obtain ⟨hkey, hkeyBrace⟩ := hkeys key List.mem_cons_self
      have hpass := hskip key rfl
      by_cases hbrace : '\x7d' ∈ skipped
      · rw [if_pos hbrace, readKeys, extractQuotedValue_cut hpass hbrace]
      · rw [if_neg hbrace, readKeys, extractQuotedValue_skip hpass hbrace, segmentsText_cons]
        cases hshown : s.shownString key with
        | none =>
          have hs := passes_segment hkey (by decide) hchain.1 (fun _ => hshown)
            (showsOther_quote hchain.1)
          rw [shownValues, hshown]
          refine ih hkeys hchain.2 fun other hother => ?_
          obtain rfl := Option.some.inj hother
          exact hs
        | some body =>
          obtain ⟨post, hsplit⟩ := cutValue_split body
          obtain rfl := eq_of_shownString hshown
          have hs : (Segment.stringField key [] [] body).text =
              '"' :: ((key ++ '"' :: ':' :: '"' :: cutValue body) ++ '"' :: post) := by
            simp [Segment.text, hsplit]
          have htext : (Segment.stringField key [] [] body).text ++ segmentsText segments =
              keyMarker key ['"'] ++ (body ++ '"' :: segmentsText segments) := by
            simp [Segment.text, keyMarker]
          have hpost : ∀ other, SearchKey other →
              Passes (keyMarker other ['"']) ('"' :: post) (segmentsText segments) := by
            intro other hother
            have htail := @passes_tail _ ['"'] hother _ _ hchain.1
            rw [hs] at htail
            exact htail.suffix
          rw [shownValues, hshown, htext, extractQuotedValue_shown hkeyBrace hsplit]
          by_cases hcut : '\x7d' ∈ cutValue body
          · simp [hcut]
          · have hmem : '\x7d' ∈ (Segment.stringField key [] [] body).text ↔
                '\x7d' ∈ '"' :: post := by
              rw [hs]
              simp [hkeyBrace, hcut]
            have hkeys' : ∀ other ∈ keys, SearchKey other ∧ '\x7d' ∉ other :=
              fun other hother => hkeys other (List.mem_cons_of_mem key hother)
            have hrest := @ih keys hkeys' hchain.2 ('"' :: post) fun other hother =>
              hpost other (hkeys' other (List.mem_of_head? hother)).1
            simp only [if_neg hcut, hrest, hmem]

/-! ## The pieces of a text -/

/-- Whether a scan is inside a piece behind that text. -/
def endsInside : Bool → List Char → Bool
  | inside, [] => inside
  | true, c :: text => endsInside (c ≠ '\x7d') text
  | false, c :: text => endsInside (c = '\x7b') text

/-- What stands behind the braces at which pieces begin, each up to its closing brace. -/
def pieces : Bool → List Char → List (List Char)
  | _, [] => []
  | true, c :: text => pieces (c ≠ '\x7d') text
  | false, c :: text =>
    if c = '\x7b' then through text :: pieces true text else pieces false text

/-- The objects of a scan are the pieces, with their opening braces, where the last of them is
closed. -/
theorem scanObjects_eq (text : List Char) :
    ((scanObjects none text).2 = !endsInside false text ∧
      (endsInside false text = false →
        (scanObjects none text).1 = (pieces false text).map ('\x7b' :: ·))) ∧
    ∀ opened, (scanObjects (some opened) text).2 = !endsInside true text ∧
      (endsInside true text = false → (scanObjects (some opened) text).1 =
        (opened ++ through text) :: (pieces true text).map ('\x7b' :: ·)) := by
  induction text with
  | nil => exact ⟨⟨rfl, fun _ => rfl⟩, fun opened => ⟨rfl, fun h => absurd h (by decide)⟩⟩
  | cons c text ih =>
    obtain ⟨⟨ihClosed, ihObjects⟩, ihOpened⟩ := ih
    refine ⟨?_, fun opened => ?_⟩
    · rw [scanObjects, endsInside, pieces]
      by_cases hc : c = '\x7b'
      · simp only [hc, if_true, decide_true]
        exact ihOpened ['\x7b']
      · simp only [hc, if_false, decide_false]
        exact ⟨ihClosed, ihObjects⟩
    · rw [scanObjects, endsInside, pieces, through]
      by_cases hc : c = '\x7d'
      · simp only [hc, if_true, ne_eq, not_true, decide_false]
        exact ⟨ihClosed, fun h => by rw [ihObjects h]⟩
      · simp only [hc, if_false, ne_eq, not_false_eq_true, decide_true]
        obtain ⟨hclosed, hobjects⟩ := ihOpened (opened ++ [c])
        refine ⟨hclosed, fun h => ?_⟩
        rw [hobjects h, List.append_assoc, List.singleton_append]

/-- The readings of the pieces that begin in these segments; `inside` says whether the text begins
inside a piece. -/
def shownPieces (keys : List (List Char)) : Bool → List Segment → List (List (List Char))
  | _, [] => []
  | inside, s :: rest =>
    let more := shownPieces keys (endsInside inside s.text) rest
    -- a piece that also ends in its segment shows nothing
    if endsInside inside s.text && (!inside || decide ('\x7d' ∈ s.text)) then
      shownValues keys rest :: more
    else more

/-- The readings in which there is a value. -/
def withValue (readings : List (List (List Char))) : List (List (List Char)) :=
  readings.filter (· ≠ [])

/-- A text without a closing brace ends inside the object. -/
theorem endsInside_of_not_mem {text : List Char} (h : '\x7d' ∉ text) :
    endsInside true text = true := by
  induction text with
  | nil => rfl
  | cons c text ih =>
    rw [List.mem_cons, not_or] at h
    rw [endsInside, decide_eq_true (Ne.symm h.1), ih h.2]

variable {keys : List (List Char)} {segments : List Segment}

/-- The pieces that begin in one segment, or in what is left of it. -/
theorem pieces_append (hkeys : ∀ key ∈ keys, SearchKey key ∧ '\x7d' ∉ key)
    (hchain : Chain segments) {skipped : List Char}
    (hskip : ∀ key, keys.head? = some key →
      Passes (keyMarker key ['"']) skipped.tail (segmentsText segments)) (inside : Bool) :
    withValue ((pieces inside (skipped ++ segmentsText segments)).map (readKeys keys)) =
      withValue (if endsInside inside skipped && (!inside || decide ('\x7d' ∈ skipped)) then
        [shownValues keys segments] else []) ++
      withValue ((pieces (endsInside inside skipped) (segmentsText segments)).map
        (readKeys keys)) := by
  induction skipped generalizing inside with
  | nil => cases inside <;> rfl
  | cons c skipped ih =>
    have htail : ∀ key, keys.head? = some key →
        Passes (keyMarker key ['"']) skipped.tail (segmentsText segments) := by
      intro key hkey
      have hpass := hskip key hkey
      cases skipped with
      | nil => exact Passes.nil _ _
      | cons d skipped => exact hpass.tail
    have hread : readKeys keys (through (skipped ++ segmentsText segments)) =
        if '\x7d' ∈ skipped then [] else shownValues keys segments :=
      readKeys_through hkeys hchain hskip
    cases inside with
    | true =>
      rw [List.cons_append, pieces, endsInside, ih htail]
      by_cases hc : c = '\x7d'
      · simp [hc]
      · simp [hc, Ne.symm hc]
    | false =>
      rw [List.cons_append, pieces, endsInside]
      by_cases hc : c = '\x7b'
      · rw [if_pos hc, List.map_cons, hread]
        have hcons : ∀ readings, withValue ((if '\x7d' ∈ skipped then [] else
            shownValues keys segments) :: readings) = withValue (if '\x7d' ∈ skipped then [] else
              [shownValues keys segments]) ++ withValue readings := by
          intro readings
          by_cases hbrace : '\x7d' ∈ skipped
          · rw [if_pos hbrace, if_pos hbrace]
            rfl
          · rw [if_neg hbrace, if_neg hbrace]
            exact List.filter_append [shownValues keys segments] readings
        rw [hcons, ih htail true]
        by_cases hbrace : '\x7d' ∈ skipped
        · simp [hc, hbrace, withValue]
        · simp [hc, hbrace, withValue, endsInside_of_not_mem hbrace]
      · rw [if_neg hc, ih htail]
        simp [hc]

/-- The readings of the pieces are those of the segments, up to those without a value. -/
theorem pieces_segments (hkeys : ∀ key ∈ keys, SearchKey key ∧ '\x7d' ∉ key)
    (hchain : Chain segments) (inside : Bool) :
    withValue ((pieces inside (segmentsText segments)).map (readKeys keys)) =
      withValue (shownPieces keys inside segments) := by
  induction segments generalizing inside with
  | nil => cases inside <;> rfl
  | cons s segments ih =>
    have hskip : ∀ key, keys.head? = some key →
        Passes (keyMarker key ['"']) s.text.tail (segmentsText segments) := fun key hkey =>
      passes_tail (hkeys key (List.mem_of_head? hkey)).1 hchain.1
    rw [segmentsText_cons, pieces_append hkeys hchain.2 hskip, ih hchain.2, shownPieces]
    split
    · exact (List.filter_append [shownValues keys segments] _).symm
    · rfl

/-! ## The message -/

/-- A reading without a value is left out. -/
theorem mapM_updateOf (readings : List (List (List Char))) :
    (readings.mapM updateOf).map List.reduceOption =
      ((withValue readings).mapM updateOf).map List.reduceOption := by
  induction readings with
  | nil => rfl
  | cons values readings ih =>
    rw [List.mapM_cons]
    by_cases hvalues : values = []
    · have hskip : withValue (values :: readings) = withValue readings := by
        rw [hvalues]
        rfl
      rw [hskip, ← ih, hvalues]
      cases readings.mapM updateOf <;> rfl
    · have hkeep : withValue (values :: readings) = values :: withValue readings :=
        List.filter_cons_of_pos (by simpa using hvalues)
      rw [hkeep, List.mapM_cons]
      cases updateOf values with
      | none => rfl
      | some read =>
        rcases hall : readings.mapM updateOf with _ | updates <;>
          rcases hvalued : (withValue readings).mapM updateOf with _ | valued
        · rfl
        · rw [hall, hvalued] at ih
          cases ih
        · rw [hall, hvalued] at ih
          cases ih
        · rw [hall, hvalued] at ih
          have hsame : updates.reduceOption = valued.reduceOption := Option.some.inj ih
          cases read with
          | none => exact congrArg some hsame
          | some u => exact congrArg (fun us => some (u :: us)) hsame

variable {unescape : List Char → Option (List Char)}

/-- The updates that the scanner reads behind the list, if it does not give up. -/
def shownUpdates (m : DepthMessage unescape) : Option (List FastBithumbDepthUpdate) := do
  let list ← behindOther "list".toList '[' m.segments
  if endsInside false (segmentsText list) then none
  else ((shownPieces depthKeys false list).mapM updateOf).map List.reduceOption

/-- The scanner takes the message for these updates. -/
def Taken (m : DepthMessage unescape) (updates : List FastBithumbDepthUpdate) : Prop :=
  (findAfter "\"type\":\"orderbookdepth\"".toList m.text).isSome = true ∧
    shownUpdates m = some updates ∧ updates ≠ []

/-- The four keys can be searched for, and none of them holds a closing brace. -/
theorem depthKeys_search : ∀ key ∈ depthKeys, SearchKey key ∧ '\x7d' ∉ key := by decide

/-- The opening brace is no part of any key. -/
theorem readKeys_brace (text : List Char) :
    readKeys depthKeys ('\x7b' :: text) = readKeys depthKeys text := by
  have hvalue : extractQuotedValue ('\x7b' :: text) (keyMarker "symbol".toList ['"']) =
      extractQuotedValue text (keyMarker "symbol".toList ['"']) := by
    refine extractQuotedValue_congr ?_
    rw [findAfter_eq_after, findAfter_eq_after, after_cons_of_ne (by decide)]
  unfold depthKeys
  rw [readKeys, readKeys, hvalue]

/-- The list is where its key and its bracket stand next to each other. -/
theorem findAfter_list (m : DepthMessage unescape) :
    findAfter "\"list\":[".toList m.text =
      (behindOther "list".toList '[' m.segments).map segmentsText := by
  have hmarker : "\"list\":[".toList = keyMarker "list".toList ['['] := by decide
  rw [findAfter_eq_after, hmarker, ← m.segmentsText_segments]
  exact after_segments (by decide) (by decide) (by decide) m.chain_segments

/-- The readings of the objects of a scan are those of the segments. -/
theorem mapM_parseDepthObject {list : List Segment} (hchain : Chain list) :
    (((pieces false (segmentsText list)).map ('\x7b' :: ·)).mapM parseDepthObject).map
        List.reduceOption =
      ((shownPieces depthKeys false list).mapM updateOf).map List.reduceOption := by
  have hread : ((pieces false (segmentsText list)).map ('\x7b' :: ·)).mapM parseDepthObject =
      ((pieces false (segmentsText list)).map (readKeys depthKeys)).mapM updateOf := by
    rw [List.mapM_map, List.mapM_map]
    congr 1
    funext piece
    exact (parseDepthObject_eq _).trans (congrArg updateOf (readKeys_brace piece))
  rw [hread, mapM_updateOf, pieces_segments depthKeys_search hchain, ← mapM_updateOf]

/-- What the scanner answers, and when. -/
theorem parseOrderbookdepthFast_eq_some {m : DepthMessage unescape}
    {updates : List FastBithumbDepthUpdate} :
    parseOrderbookdepthFast m.text = some updates ↔ Taken m updates := by
  unfold parseOrderbookdepthFast Taken shownUpdates
  rw [findAfter_list]
  cases findAfter "\"type\":\"orderbookdepth\"".toList m.text with
  | none => simp
  | some post =>
    cases hlist : behindOther "list".toList '[' m.segments with
    | none => simp
    | some list =>
      have hread := mapM_parseDepthObject (chain_behindOther m.chain_segments hlist)
      obtain ⟨hclosed, hobjects⟩ := (scanObjects_eq (segmentsText list)).1
      simp only [Option.map_some, Option.isSome_some, true_and, Option.bind_eq_bind,
        Option.bind_some, hclosed]
      cases hends : endsInside false (segmentsText list) with
      | true =>
        cases (scanObjects none (segmentsText list)).1.mapM parseDepthObject <;> simp
      | false =>
        rw [hobjects hends, if_neg Bool.false_ne_true, ← hread]
        cases ((pieces false (segmentsText list)).map ('\x7b' :: ·)).mapM parseDepthObject with
        | none => simp
        | some read =>
          by_cases hne : read.reduceOption = []
          · simp [hne]
          · simp only [hne, Bool.not_false, ne_eq, not_false_eq_true, and_self, if_true,
              Option.map_some, Option.some.injEq]
            exact ⟨fun heq => ⟨heq, heq ▸ hne⟩, fun h => h.1⟩

end SpotRelay.Analysis
