import SpotRelay.Library.JsonText
import SpotRelay.Model.BithumbFeed

/-!
# The depth messages of Bithumb

The JSON texts in which the venue sends level updates: any text of an object with the type and,
inside its content, the list.  Every element of the list may be any value.
-/

set_option autoImplicit false

namespace SpotRelay.Interface

open SpotRelay.Library.JsonSegments SpotRelay.Library.JsonText
open SpotRelay.Model

variable (unescape : List Char → Option (List Char))

/-- A string that a value is; `unescape` says what stands for what. -/
def stringValue : Json .value → Option (List Char)
  | .string body => unescape body
  | _ => none

/-- Names are compared as they are written. -/
def fieldString (key : String) (fields : Json .fields) : Option (List Char) :=
  (fields.find key.toList).bind (stringValue unescape)

def depthItem : Json .value → DepthItem
  | .object fields =>
    { symbol := fieldString unescape "symbol" fields
      orderType := fieldString unescape "orderType" fields
      price := fieldString unescape "price" fields
      quantity := fieldString unescape "quantity" fields }
  | _ => { symbol := none, orderType := none, price := none, quantity := none }

/-- An `orderbookdepth` message. -/
structure DepthMessage where
  /-- The blanks around the object. -/
  lead : Blanks
  trail : Blanks
  root : Json .fields
  content : Json .fields
  list : Json .elements
  type_eq : fieldString unescape "type" root = some "orderbookdepth".toList
  content_eq : root.find "content".toList = some (.object content)
  list_eq : content.find "list".toList = some (.array list)
  /-- A name stands for one field. -/
  root_nodup : root.names.Nodup
  content_nodup : content.names.Nodup
  items_nodup : ∀ fields, Json.object fields ∈ list.toList → fields.names.Nodup

namespace DepthMessage

variable {unescape}

def text (m : DepthMessage unescape) : List Char :=
  m.lead ++ ((Json.object m.root).text ++ m.trail)

def items (m : DepthMessage unescape) : List DepthItem := m.list.toList.map (depthItem unescape)

def document (m : DepthMessage unescape) : DepthDocument where
  type := fieldString unescape "type" m.root
  list := ⟨m.items, true⟩

/-- The message as a search meets it. -/
def segments (m : DepthMessage unescape) : List Segment :=
  plains m.lead ++ ((Json.object m.root).segments ++ plains m.trail)

/-- A message's segments make its text. -/
theorem segmentsText_segments (m : DepthMessage unescape) : segmentsText m.segments = m.text := by
  unfold segments text
  rw [segmentsText_append, segmentsText_append, segmentsText_plains, segmentsText_plains,
    Json.segmentsText_segments]

/-- A message's segments fit together. -/
theorem chain_segments (m : DepthMessage unescape) : Chain m.segments := by
  have htrail : Chain (plains m.trail) := by
    have h := @chain_plains _ (not_mem_of_blank m.trail.2) [] trivial
    rwa [List.append_nil] at h
  have hend : Chain (.plain '\x7d' :: plains m.trail) := ⟨by simp [Segment.Ready], htrail⟩
  have hroot := m.root.chain_segments (closed_plain (by decide) (plains m.trail)) hend
  refine chain_plains (not_mem_of_blank m.lead.2) ⟨by simp [Segment.Ready], ?_⟩
  rw [← List.singleton_append, ← List.append_assoc] at hroot
  exact hroot

end DepthMessage

end SpotRelay.Interface
