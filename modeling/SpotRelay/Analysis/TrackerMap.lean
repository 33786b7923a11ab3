import SpotRelay.Library.Run
import SpotRelay.Model.SlotTracker

/-!
# The tracker is a map

A slot that is closed keeps its hash and its position.  Neither is ever read, because a look-up
asks for `active` first and an active slot always carries the hash of its own position
(`Filed`).  So the slots show no more than the sixteen places of `SlotTable`, on which two
symbols of one hash are told apart by their names; and those refine a finite map.

* **the slots** hold a map where every active one carries the hash of its own position (`Holds`).
* **one call** does to the slots what it does to the map, and answers the same (`holds_call`).
-/

set_option autoImplicit false

namespace SpotRelay.Analysis

open SpotRelay.Library SpotRelay.Model

/-! ## The places of the slots -/

/-- Every active slot carries the hash of the position in it. -/
def Filed (slots : List PositionSlot) : Prop :=
  ∀ slot ∈ slots, slot.active = true → slot.symbolHash = slot.position.symbol.hash

/-- The first slot is filed under the hash of its position. -/
theorem Filed.head {slot : PositionSlot} {rest : List PositionSlot} (h : Filed (slot :: rest)) :
    slot.active = true → slot.symbolHash = slot.position.symbol.hash :=
  h slot (by simp)

/-- The slots behind the first one are filed. -/
theorem Filed.tail {slot : PositionSlot} {rest : List PositionSlot} (h : Filed (slot :: rest)) :
    Filed rest :=
  fun other hother => h other (by simp [hother])

/-- Slots are filed where the first one is and the others are. -/
theorem filed_cons {slot : PositionSlot} {rest : List PositionSlot}
    (hhead : slot.active = true → slot.symbolHash = slot.position.symbol.hash)
    (htail : Filed rest) : Filed (slot :: rest) := by
  intro other hother
  rcases List.mem_cons.mp hother with rfl | hmem
  · exact hhead
  · exact htail other hmem

/-- The hash decides nothing: a filed slot is of a symbol if its position is. -/
theorem isOf_eq_any {slot : PositionSlot}
    (hslot : slot.active = true → slot.symbolHash = slot.position.symbol.hash)
    (symbol : SymbolId) :
    slot.isOf symbol = slot.value.any (PositionTracker.ofSymbol symbol) := by
  cases hactive : slot.active with
  | false => simp [PositionSlot.isOf, PositionSlot.value, hactive]
  | true =>
    have hhash := hslot hactive
    by_cases hsymbol : slot.position.symbol = symbol
    · simp [PositionSlot.isOf, PositionSlot.value, PositionTracker.ofSymbol, hactive, hhash,
        hsymbol]
    · simp [PositionSlot.isOf, PositionSlot.value, PositionTracker.ofSymbol, hactive, hsymbol]

/-- An active slot holds its position. -/
theorem value_of_active {slot : PositionSlot} (h : slot.active = true) :
    slot.value = some slot.position := by
  simp [PositionSlot.value, h]

/-- A free slot holds nothing. -/
theorem value_of_inactive {slot : PositionSlot} (h : slot.active = false) :
    slot.value = none := by
  simp [PositionSlot.value, h]

/-- The slots as places that are empty or hold a position. -/
def places (slots : List PositionSlot) : List (Option Position) :=
  slots.map fun slot => slot.value

/-- The places of the slots, slot by slot. -/
@[simp] theorem places_cons (slot : PositionSlot) (rest : List PositionSlot) :
    places (slot :: rest) = slot.value :: places rest := rfl

/-! ## The three loops -/

/-- An `open_position` fills the first empty place. -/
theorem places_openFirst (pos : Position) (slots : List PositionSlot) :
    (PositionSlot.openFirst pos slots).map places = SlotTable.put pos (places slots) := by
  induction slots with
  | nil => rfl
  | cons slot rest ih =>
    cases hactive : slot.active with
    | false => simp [PositionSlot.openFirst, hactive, SlotTable.put, PositionSlot.value]
    | true =>
      rw [places_cons, value_of_active hactive, SlotTable.put, ← ih]
      simp only [PositionSlot.openFirst, hactive, if_true, Option.map_map]
      congr 1
      funext rest'
      simp [value_of_active hactive]

/-- An opened position is filed under its hash. -/
theorem filed_openFirst {pos : Position} {slots slots' : List PositionSlot} (hfiled : Filed slots)
    (h : PositionSlot.openFirst pos slots = some slots') : Filed slots' := by
  induction slots generalizing slots' with
  | nil => simp [PositionSlot.openFirst] at h
  | cons slot rest ih =>
    simp only [PositionSlot.openFirst] at h
    split at h
    · simp only [Option.map_eq_some_iff] at h
      obtain ⟨rest', hrest, rfl⟩ := h
      exact filed_cons hfiled.head (ih hfiled.tail hrest)
    · simp only [Option.some.injEq] at h
      subst h
      exact filed_cons (fun _ => rfl) hfiled.tail

/-- A `close_position` empties the first place of the symbol. -/
theorem places_closeFirst (symbol : SymbolId) {slots : List PositionSlot} (hfiled : Filed slots) :
    (PositionSlot.closeFirst symbol slots).map (fun r => (r.1, places r.2)) =
      SlotTable.take (PositionTracker.ofSymbol symbol) (places slots) := by
  induction slots with
  | nil => rfl
  | cons slot rest ih =>
    have hof := isOf_eq_any hfiled.head symbol
    cases hactive : slot.active with
    | false =>
      have hnot : slot.isOf symbol = false := by
        rw [hof, value_of_inactive hactive]
        rfl
      rw [places_cons, value_of_inactive hactive, SlotTable.take, ← ih hfiled.tail]
      simp only [PositionSlot.closeFirst, hnot, Bool.false_eq_true, if_false, Option.map_map]
      congr 1
      funext r
      simp [value_of_inactive hactive]
    | true =>
      rw [value_of_active hactive, Option.any_some] at hof
      rw [places_cons, value_of_active hactive, SlotTable.take, ← ih hfiled.tail]
      simp only [PositionSlot.closeFirst, hof]
      split
      · simp [PositionSlot.value]
      · simp only [Option.map_map]
        congr 1
        funext r
        simp [value_of_active hactive]

/-- A closed position leaves the others filed. -/
theorem filed_closeFirst {symbol : SymbolId} {pos : Position} {slots slots' : List PositionSlot}
    (hfiled : Filed slots) (h : PositionSlot.closeFirst symbol slots = some (pos, slots')) :
    Filed slots' := by
  induction slots generalizing slots' with
  | nil => simp [PositionSlot.closeFirst] at h
  | cons slot rest ih =>
    simp only [PositionSlot.closeFirst] at h
    split at h
    · simp only [Option.some.injEq, Prod.mk.injEq] at h
      obtain ⟨-, rfl⟩ := h
      exact filed_cons (by simp) hfiled.tail
    · simp only [Option.map_eq_some_iff, Prod.mk.injEq] at h
      obtain ⟨⟨found, rest'⟩, hrest, rfl, rfl⟩ := h
      exact filed_cons hfiled.head (ih hfiled.tail hrest)

/-- A look-up reads the first place of the symbol. -/
theorem find_isOf (symbol : SymbolId) {slots : List PositionSlot} (hfiled : Filed slots) :
    (slots.find? fun slot => slot.isOf symbol).map (fun slot => slot.position) =
      SlotTable.find (PositionTracker.ofSymbol symbol) (places slots) := by
  induction slots with
  | nil => rfl
  | cons slot rest ih =>
    have hof := isOf_eq_any hfiled.head symbol
    cases hactive : slot.active with
    | false =>
      rw [value_of_inactive hactive, Option.any_none] at hof
      rw [places_cons, value_of_inactive hactive, SlotTable.find, ← ih hfiled.tail]
      simp [hof]
    | true =>
      rw [value_of_active hactive, Option.any_some] at hof
      rw [places_cons, value_of_active hactive, SlotTable.find, ← ih hfiled.tail]
      split_ifs with hsymbol
      · simp [hof, hsymbol]
      · simp [hof, hsymbol]

/-- The positions a callback is run on are those that are there, in order. -/
theorem active_eq_filterMap (slots : List PositionSlot) :
    (slots.filter fun slot => slot.active).map (fun slot => slot.position) =
      (places slots).filterMap id := by
  induction slots with
  | nil => rfl
  | cons slot rest ih =>
    cases hactive : slot.active with
    | false => simp [hactive, value_of_inactive hactive, ih]
    | true => simp [hactive, value_of_active hactive, ih]

/-- Active and free slots are all slots. -/
theorem countP_active (slots : List PositionSlot) :
    slots.countP (fun slot => slot.active) + SlotTable.free (places slots) = slots.length := by
  induction slots with
  | nil => rfl
  | cons slot rest ih =>
    cases hactive : slot.active with
    | false =>
      simp only [places_cons, value_of_inactive hactive, SlotTable.free_none, hactive,
        List.countP_cons, List.length_cons, Bool.false_eq_true, if_false]
      omega
    | true =>
      simp only [places_cons, value_of_active hactive, SlotTable.free_some, hactive,
        List.countP_cons, List.length_cons, if_true]
      omega

/-- The active slots of a symbol are its occurrences in the table. -/
theorem countP_symbol (symbol : SymbolId) (slots : List PositionSlot) :
    slots.countP (fun slot => slot.active && decide (slot.position.symbol = symbol)) =
      SlotTable.occurrences (PositionTracker.ofSymbol symbol) (places slots) := by
  induction slots with
  | nil => rfl
  | cons slot rest ih =>
    cases hactive : slot.active with
    | false => simp [hactive, value_of_inactive hactive, ih]
    | true =>
      simp [List.countP_cons, hactive, value_of_active hactive, ih, PositionTracker.ofSymbol]

/-! ## The tracker of the engine -/

/-- The tracker without its hashes and without what closed slots keep. -/
def view (t : SlotTracker) : PositionTracker where
  slots := places t.positions
  length_eq := by simp [places, t.length_eq, slotCount]

/-- The tracker's active slots and the free ones of its table are all slots. -/
theorem activeSlots_add_freeSlots (t : SlotTracker) :
    t.activeSlots + (view t).freeSlots = slotCount := by
  rw [← t.length_eq]
  exact countP_active t.positions

/-- The slots of a symbol are counted as in the table. -/
theorem slotsOf_eq_count (t : SlotTracker) (symbol : SymbolId) :
    t.slotsOf symbol = (view t).count symbol :=
  countP_symbol symbol t.positions

/-- `get_position` finds what the table has. -/
theorem getPosition_view {t : SlotTracker} (hfiled : Filed t.positions) (symbol : SymbolId) :
    t.getPosition symbol = (view t).getPosition symbol :=
  find_isOf symbol hfiled

/-- `has_position` says whether the table has one. -/
theorem hasPosition_view {t : SlotTracker} (hfiled : Filed t.positions) (symbol : SymbolId) :
    t.hasPosition symbol = ((view t).getPosition symbol).isSome := by
  rw [← getPosition_view hfiled, SlotTracker.getPosition, Option.isSome_map, Bool.eq_iff_iff,
    List.find?_isSome, SlotTracker.hasPosition, List.any_eq_true]

/-- What an `open_position` does to the slots, read off their places. -/
theorem openPosition_view {t : SlotTracker} (hfiled : Filed t.positions) (pos : Position) :
    Filed (t.openPosition pos).2.positions ∧
      view (t.openPosition pos).2 = (view t).openPosition pos ∧
      (t.openPosition pos).1 = decide (t.activeSlots < slotCount) ∧
      (t.openPosition pos).2.positionCount =
        t.positionCount + if t.activeSlots < slotCount then 1 else 0 := by
  have hplaces := places_openFirst pos t.positions
  have hsum := activeSlots_add_freeSlots t
  have hput := SlotTable.put_isSome_iff pos (view t).slots
  have hslots := (view t).slots_openPosition pos
  change (PositionSlot.openFirst pos t.positions).map places =
    SlotTable.put pos (view t).slots at hplaces
  rw [← hplaces] at hput hslots
  change _ ↔ 0 < (view t).freeSlots at hput
  unfold SlotTracker.openPosition
  split
  · rename_i h
    rw [h, Option.map_none] at hput hslots
    have hfull : ¬ t.activeSlots < slotCount := by
      intro hroom
      have := hput.mpr (by omega)
      simp at this
    refine ⟨hfiled, PositionTracker.eq_of_slots hslots.symm, ?_, ?_⟩
    · simp [hfull]
    · simp [hfull]
  · rename_i slots h
    rw [h, Option.map_some] at hput hslots
    have hroom : t.activeSlots < slotCount := by
      have := hput.mp rfl
      omega
    refine ⟨filed_openFirst hfiled h, PositionTracker.eq_of_slots hslots.symm, ?_, ?_⟩
    · simp [hroom]
    · simp [hroom]

/-- What a `close_position` does to the slots, read off their places. -/
theorem closePosition_view {t : SlotTracker} (hfiled : Filed t.positions) (symbol : SymbolId) :
    Filed (t.closePosition symbol).2.positions ∧
      view (t.closePosition symbol).2 = (view t).closePosition symbol ∧
      (t.closePosition symbol).1 = (view t).getPosition symbol ∧
      (t.closePosition symbol).2.positionCount =
        t.positionCount - if (view t).count symbol = 0 then 0 else 1 := by
  have hplaces := places_closeFirst symbol hfiled
  have htake := SlotTable.take_eq_none_iff (PositionTracker.ofSymbol symbol) (view t).slots
  have hslots := (view t).slots_closePosition symbol
  change (PositionSlot.closeFirst symbol t.positions).map (fun r => (r.1, places r.2)) =
    SlotTable.take (PositionTracker.ofSymbol symbol) (view t).slots at hplaces
  rw [← hplaces] at htake hslots
  change _ ↔ (view t).count symbol = 0 at htake
  unfold SlotTracker.closePosition
  split
  · rename_i h
    rw [h, Option.map_none] at htake hslots
    have hnone := htake.mp rfl
    refine ⟨hfiled, PositionTracker.eq_of_slots hslots.symm, ?_, ?_⟩
    · exact ((PositionTracker.getPosition_eq_none_iff _ _).mpr hnone).symm
    · simp [hnone]
  · rename_i closed slots h
    rw [h, Option.map_some] at hplaces htake hslots
    have hsome : (view t).count symbol ≠ 0 := by
      intro hzero
      have := htake.mpr hzero
      simp at this
    refine ⟨filed_closeFirst hfiled h, PositionTracker.eq_of_slots hslots.symm, ?_, ?_⟩
    · exact (SlotTable.find_of_take hplaces.symm).symm
    · simp [hsome]

/-! ## The simulation -/

/-- The tracker holds the positions of the map, each in one slot, and counts them. -/
structure Holds (t : SlotTracker) (m : PositionMap) : Prop where
  filed : Filed t.positions
  lookup : ∀ symbol, (view t).getPosition symbol = m.lookup symbol
  once : ∀ symbol, (view t).count symbol ≤ 1
  counted : t.positionCount = t.activeSlots
  sized : t.activeSlots = m.size

/-- The empty tracker holds the empty map. -/
theorem holds_empty : Holds {} PositionMap.empty where
  filed := by
    intro slot hslot hactive
    rw [List.eq_of_mem_replicate hslot] at hactive
    cases hactive
  lookup := by
    intro symbol
    rw [(PositionTracker.getPosition_eq_none_iff _ _).mpr ?_]
    · rfl
    · exact PositionTracker.count_empty symbol
  once := fun symbol => (PositionTracker.count_empty symbol).le.trans zero_le_one
  counted := rfl
  sized := rfl

section step

variable {t : SlotTracker} {m : PositionMap}

/-- The table has no slot of a symbol that the map has not. -/
theorem Holds.count_eq_zero_iff (h : Holds t m) (symbol : SymbolId) :
    (view t).count symbol = 0 ↔ m.lookup symbol = none := by
  rw [← h.lookup, PositionTracker.getPosition_eq_none_iff]

/-- `open_position` does what the map does, and succeeds while the map has room. -/
theorem holds_openPosition (h : Holds t m) {pos : Position}
    (habsent : m.lookup pos.symbol = none) :
    Holds (t.openPosition pos).2 (m.step (.openPosition pos)) ∧
      (t.openPosition pos).1 = decide (m.size < slotCount) := by
  obtain ⟨hfiled, hview, hresult, hcount⟩ := openPosition_view h.filed pos
  have hsum := activeSlots_add_freeSlots t
  have hsum' := activeSlots_add_freeSlots (t.openPosition pos).2
  have hzero := (h.count_eq_zero_iff pos.symbol).mpr habsent
  have hagree := (view t).agreeOff_openPosition pos
  rw [hview] at hsum'
  rw [h.sized] at hresult hcount hsum
  refine ⟨?_, hresult⟩
  by_cases hroom : m.size < slotCount
  · have hfree : 0 < (view t).freeSlots := by omega
    have htaken := (view t).freeSlots_openPosition pos hfree
    rw [if_pos hroom] at hcount
    simp only [PositionMap.step, hroom, dif_pos]
    constructor
    case filed => exact hfiled
    case lookup =>
      intro symbol
      rw [hview, PositionMap.lookup_put]
      split_ifs with hsymbol
      · subst hsymbol
        exact (view t).getPosition_openPosition pos hfree hzero
      · rw [hagree.get symbol hsymbol]
        exact h.lookup symbol
    case once =>
      intro symbol
      rw [hview]
      by_cases hsymbol : symbol = pos.symbol
      · subst hsymbol
        rw [(view t).count_openPosition pos hfree, hzero]
      · rw [hagree.count symbol hsymbol]
        exact h.once symbol
    case counted =>
      have := h.counted
      have := h.sized
      omega
    case sized =>
      rw [PositionMap.size_put_of_none _ _ _ habsent]
      omega
  · have hfull : (view t).freeSlots = 0 := by omega
    rw [(view t).openPosition_of_full pos hfull] at hview hsum'
    rw [if_neg hroom] at hcount
    simp only [PositionMap.step, hroom, dif_neg, not_false_eq_true]
    constructor
    case filed => exact hfiled
    case lookup => rw [hview]; exact h.lookup
    case once => rw [hview]; exact h.once
    case counted =>
      have := h.counted
      have := h.sized
      omega
    case sized => omega

/-- `close_position` does what the map does, and returns what the map had. -/
theorem holds_closePosition (h : Holds t m) (symbol : SymbolId) :
    Holds (t.closePosition symbol).2 (m.step (.closePosition symbol)) ∧
      (t.closePosition symbol).1 = m.lookup symbol := by
  obtain ⟨hfiled, hview, hresult, hcount⟩ := closePosition_view h.filed symbol
  have hsum := activeSlots_add_freeSlots t
  have hsum' := activeSlots_add_freeSlots (t.closePosition symbol).2
  have hgone := (view t).count_closePosition symbol
  have honce := h.once symbol
  have hagree := (view t).agreeOff_closePosition symbol
  have hfree := (view t).freeSlots_closePosition symbol
  have hzero := h.count_eq_zero_iff symbol
  have hsize := m.size_erase symbol
  have hcounted := h.counted
  have hsized := h.sized
  rw [hview] at hsum'
  rw [h.lookup] at hresult
  refine ⟨?_, hresult⟩
  constructor
  case filed => exact hfiled
  case lookup =>
    intro other
    rw [hview]
    change _ = (m.erase symbol).lookup other
    rw [PositionMap.lookup_erase]
    split_ifs with hother
    · subst hother
      rw [PositionTracker.getPosition_eq_none_iff]
      omega
    · rw [hagree.get other hother]
      exact h.lookup other
  case once =>
    intro other
    rw [hview]
    by_cases hother : other = symbol
    · subst hother
      omega
    · rw [hagree.count other hother]
      exact h.once other
  case counted =>
    split_ifs at hcount hfree <;> omega
  case sized =>
    change _ = (m.erase symbol).size
    by_cases hnone : m.lookup symbol = none
    · rw [if_pos (hzero.mpr hnone)] at hfree
      rw [if_pos hnone] at hsize
      omega
    · rw [if_neg (fun hcount' => hnone (hzero.mp hcount'))] at hfree
      rw [if_neg hnone] at hsize
      omega

/-- An update of an open position finds the slot that its close has just freed. -/
theorem holds_updatePosition (h : Holds t m) (pos : Position) :
    Holds (t.updatePosition pos).2 (m.step (.updatePosition pos)) ∧
      (t.updatePosition pos).1 = (m.lookup pos.symbol).isSome := by
  obtain ⟨hclosed, hresult⟩ := holds_closePosition h pos.symbol
  change Holds _ (m.erase pos.symbol) at hclosed
  have hkeys := m.mem_keys pos.symbol
  cases hlookup : m.lookup pos.symbol with
  | none =>
    rw [hlookup] at hresult hkeys
    have hnot : pos.symbol ∉ m.entries.keys := by simp [hkeys]
    rw [m.erase_of_none _ hlookup] at hclosed
    rw [SlotTracker.updatePosition_of_none hresult]
    simp only [PositionMap.step, hnot, dif_neg, not_false_eq_true]
    exact ⟨hclosed, rfl⟩
  | some old =>
    rw [hlookup] at hresult hkeys
    have hmem : pos.symbol ∈ m.entries.keys := by simp [hkeys]
    have habsent : (m.erase pos.symbol).lookup pos.symbol = none := by
      rw [PositionMap.lookup_erase, if_pos rfl]
    have hsize : (m.erase pos.symbol).size < slotCount := by
      have hle : m.size ≤ slotCount := m.card_le
      have hpos : 0 < m.size := Finset.card_pos.mpr ⟨_, hmem⟩
      rw [PositionMap.size_erase, if_neg (by simp [hlookup])]
      omega
    obtain ⟨hopened, hflag⟩ := holds_openPosition hclosed habsent
    have hroom : (insert pos.symbol m.entries.keys).card ≤ slotCount := by
      rw [Finset.insert_eq_self.mpr hmem]
      exact m.card_le
    rw [SlotTracker.updatePosition_of_some hresult]
    simp only [PositionMap.step, hsize, hmem, dif_pos] at hopened ⊢
    rw [PositionMap.put_erase m pos hroom] at hopened
    refine ⟨hopened, ?_⟩
    rw [hflag]
    simp [hsize]

/-- `get_position` returns what the map has. -/
theorem Holds.getPosition (h : Holds t m) (symbol : SymbolId) :
    t.getPosition symbol = m.lookup symbol :=
  (getPosition_view h.filed symbol).trans (h.lookup symbol)

/-- `has_position` says whether the map has it. -/
theorem Holds.hasPosition (h : Holds t m) (symbol : SymbolId) :
    t.hasPosition symbol = (m.lookup symbol).isSome := by
  rw [hasPosition_view h.filed, h.lookup]

/-- The callback runs on every position of the map, and on each once. -/
theorem Holds.forEachActivePosition (h : Holds t m) :
    t.forEachActivePosition.Nodup ∧
      ∀ pos, pos ∈ t.forEachActivePosition ↔ m.lookup pos.symbol = some pos := by
  have hlist : t.forEachActivePosition = (view t).slots.filterMap id :=
    active_eq_filterMap t.positions
  obtain ⟨hnodup, hmem⟩ :=
    SlotTable.values_of_occurrences_le_one (fun pos : Position => pos.symbol) h.once
  rw [hlist]
  refine ⟨hnodup, ?_⟩
  intro pos
  rw [hmem pos, ← h.lookup]
  rfl

/-- One call, on the slots and on the map. -/
theorem holds_call (h : Holds t m) {op : TrackerOp} (hopens : m.Opens op) :
    Holds (t.call op).2 (m.step op) ∧ m.Answers op (t.call op).1 := by
  cases op with
  | openPosition pos =>
    obtain ⟨hnext, hflag⟩ := holds_openPosition h hopens
    exact ⟨hnext, congrArg TrackerResult.flag hflag⟩
  | closePosition symbol =>
    obtain ⟨hnext, hclosed⟩ := holds_closePosition h symbol
    exact ⟨hnext, congrArg TrackerResult.position hclosed⟩
  | updatePosition pos =>
    obtain ⟨hnext, hflag⟩ := holds_updatePosition h pos
    exact ⟨hnext, congrArg TrackerResult.flag hflag⟩
  | getPosition symbol => exact ⟨h, congrArg TrackerResult.position (h.getPosition symbol)⟩
  | hasPosition symbol => exact ⟨h, congrArg TrackerResult.flag (h.hasPosition symbol)⟩
  | forEachActivePosition =>
    exact ⟨h, t.forEachActivePosition, rfl, h.forEachActivePosition.1, h.forEachActivePosition.2⟩

end step

/-- A whole sequence of calls, on the slots and on the map. -/
theorem holds_foldl (ops : List TrackerOp) {t : SlotTracker} {m : PositionMap} (h : Holds t m)
    (hopens : Run.Along PositionMap.Opens PositionMap.step m ops) :
    Holds (ops.foldl (fun t op => (t.call op).2) t) (ops.foldl PositionMap.step m) := by
  induction ops generalizing t m with
  | nil => exact h
  | cons op rest ih => exact ih (holds_call h hopens.1).1 hopens.2

/-- A call in a sequence of calls is made in the state that the calls before it leave. -/
theorem opens_of_prefix {ops done : List TrackerOp} {op : TrackerOp} {m : PositionMap}
    (hopens : Run.Along PositionMap.Opens PositionMap.step m ops) (hdone : done ++ [op] <+: ops) :
    Run.Along PositionMap.Opens PositionMap.step m done ∧
      (done.foldl PositionMap.step m).Opens op := by
  obtain ⟨rest, rfl⟩ := hdone
  rw [List.append_assoc, Run.along_append] at hopens
  exact ⟨hopens.1, hopens.2.1⟩

/-! ## The claim -/

/-- Whatever is called, in whatever order, the tracker answers as a map of at most sixteen
positions: it fails to open only when it is full, it keeps a symbol in one slot, it counts its
slots, and an update keeps the position of its symbol. -/
theorem tracker_refines_map (ops : List TrackerOp)
    (hopens : Run.Along PositionMap.Opens PositionMap.step PositionMap.empty ops) :
    (∀ done op, done ++ [op] <+: ops →
      (PositionMap.after done).Answers op ((SlotTracker.after done).call op).1) ∧
    ∀ done, done <+: ops →
      (∀ symbol, (SlotTracker.after done).getPosition symbol =
        (PositionMap.after done).lookup symbol) ∧
      (∀ symbol, (SlotTracker.after done).slotsOf symbol ≤ 1) ∧
      (SlotTracker.after done).positionCount = (SlotTracker.after done).activeSlots ∧
      (SlotTracker.after done).activeSlots = (PositionMap.after done).size ∧
      (∀ pos, ((SlotTracker.after done).openPosition pos).1 = false →
        (SlotTracker.after done).activeSlots = slotCount) ∧
      ∀ pos, (SlotTracker.after done).hasPosition pos.symbol = true →
        ((SlotTracker.after done).updatePosition pos).1 = true ∧
        ∀ symbol, ((SlotTracker.after done).updatePosition pos).2.getPosition symbol =
          if symbol = pos.symbol then some pos
          else (SlotTracker.after done).getPosition symbol := by
  constructor
  · intro done op hdone
    obtain ⟨hbefore, hop⟩ := opens_of_prefix hopens hdone
    exact (holds_call (holds_foldl done holds_empty hbefore) hop).2
  · intro done hdone
    have h : Holds (SlotTracker.after done) (PositionMap.after done) := by
      obtain ⟨rest, rfl⟩ := hdone
      exact holds_foldl done holds_empty ((Run.along_append _ _ _).mp hopens).1
    refine ⟨h.getPosition, ?_, h.counted, h.sized, ?_, ?_⟩
    · intro symbol
      rw [slotsOf_eq_count]
      exact h.once symbol
    · intro pos hfail
      rw [(openPosition_view h.filed pos).2.2.1, decide_eq_false_iff_not] at hfail
      have := activeSlots_add_freeSlots (SlotTracker.after done)
      omega
    · intro pos hopen
      rw [h.hasPosition] at hopen
      obtain ⟨hnext, hflag⟩ := holds_updatePosition h pos
      refine ⟨hflag.trans hopen, ?_⟩
      intro symbol
      rw [hnext.getPosition, h.getPosition]
      simp only [PositionMap.step, ((PositionMap.after done).mem_keys _).mpr hopen, dif_pos]
      exact PositionMap.lookup_put _ _ _ _

/-- Two symbols after each other in the first slot, and an update of the second one. -/
def reusedSlot : List TrackerOp :=
  let first : Position :=
    { symbol := .of "BTC" "KRW", koreanExchange := .bithumb, foreignExchange := .bybit }
  let second : Position :=
    { symbol := .of "ETH" "KRW", koreanExchange := .upbit, foreignExchange := .okx }
  [.openPosition first, .closePosition first.symbol, .openPosition second,
    .updatePosition { second with koreanAmount := 2 }]

/-- The general result where a slot is used again. -/
theorem reusedSlot_refines_map :
    (SlotTracker.after reusedSlot).getPosition (.of "BTC" "KRW") =
        (PositionMap.after reusedSlot).lookup (.of "BTC" "KRW") ∧
      (SlotTracker.after reusedSlot).getPosition (.of "ETH" "KRW") =
        (PositionMap.after reusedSlot).lookup (.of "ETH" "KRW") := by
  have hopens : Run.Along PositionMap.Opens PositionMap.step PositionMap.empty reusedSlot := by
    refine ⟨rfl, trivial, ?_, trivial, trivial⟩
    change PositionMap.lookup _ _ = none
    decide +kernel
  have h := (tracker_refines_map reusedSlot hopens).2 reusedSlot (List.prefix_refl _)
  exact ⟨h.1 _, h.1 _⟩

end SpotRelay.Analysis
