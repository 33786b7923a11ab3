import SpotRelay.Model.AtomicBitset
import Mathlib.Algebra.Order.Ring.Rat
import Mathlib.Data.List.Sort

/-!
# Entry selection

`select_entry_candidates` of strategy/entry_selection_bitmap.hpp:29-106: top-ups of partial
positions first, then as many fresh candidates as there are free slots, best first.

* **the loops** are those of the source, each with its accumulator (`pushIndex`, `collectFresh`,
  `pushFresh`).
* **what they leave** is a list cut to the bound (`foldl_pushIndex`, `pushFresh_eq`).
-/

set_option autoImplicit false

namespace SpotRelay.Model

/-- `std::sort` by a key.  It is not stable, so nothing is said about equal keys. -/
structure StdSort where
  sort : (ℕ → ℚ) → List ℕ → List ℕ
  perm : ∀ key xs, (sort key xs).Perm xs
  sorted : ∀ key xs, (sort key xs).Pairwise fun a b => key a ≤ key b

/-- A sort that keeps the order of equal keys. -/
def StdSort.insertion : StdSort where
  sort := fun key xs => xs.insertionSort fun a b => key a ≤ key b
  perm := fun _ xs => xs.perm_insertionSort _
  sorted := fun key xs => by
    have : Std.Total fun a b : ℕ => key a ≤ key b := ⟨fun a b => le_total (key a) (key b)⟩
    have : IsTrans ℕ fun a b => key a ≤ key b := ⟨fun _ _ _ => le_trans⟩
    exact xs.pairwise_insertionSort _

/-- `position_state`: 0, 1 or 2. -/
inductive PositionState
  | noPosition
  | fullPosition
  | partialPosition
deriving DecidableEq, Repr

/-- `EntrySelectionResult`; `freeSlots` is what is left after the selection. -/
structure EntrySelectionResult where
  indices : List ℕ := []
  activePositions : ℕ := 0
  pendingNewSignals : ℕ := 0
  freeSlots : ℕ := 0
deriving DecidableEq

/-- The number of indices with a position (entry_selection_bitmap.hpp:40-44). -/
def activePositions (symbolCount : ℕ) (positionState : ℕ → PositionState) : ℕ :=
  (List.range symbolCount).countP fun i => positionState i ≠ .noPosition

/-- The number of fired signals without a position (entry_selection_bitmap.hpp:46-50). -/
def pendingNewSignals {maxSymbols : ℕ} (symbolCount : ℕ) (signaledBits : AtomicBitset maxSymbols)
    (positionState : ℕ → PositionState) : ℕ :=
  (signaledBits.forEachSet symbolCount).countP fun i => positionState i = .noPosition

/-- `free_slots` before any candidate is taken; a negative count is cut at 0
(entry_selection_bitmap.hpp:52-56). -/
def freeSlots {maxSymbols : ℕ} (symbolCount maxPositions : ℕ)
    (signaledBits : AtomicBitset maxSymbols) (positionState : ℕ → PositionState) : ℕ :=
  maxPositions -
    (activePositions symbolCount positionState +
      pendingNewSignals symbolCount signaledBits positionState)

/-- `select_entry_candidates`. -/
def selectEntryCandidates {maxSymbols : ℕ} (std : StdSort) (symbolCount maxPositions : ℕ)
    (candidateBits signaledBits : AtomicBitset maxSymbols) (positionState : ℕ → PositionState)
    (premiumAt : ℕ → ℚ) (qualifiedAt : ℕ → Bool) : EntrySelectionResult :=
  let free := freeSlots symbolCount maxPositions signaledBits positionState
  let topUps :=
    (List.range symbolCount).filter fun i => positionState i = .partialPosition && qualifiedAt i
  let freshCandidates :=
    if free = 0 then []
    else
      ((candidateBits.forEachSet symbolCount).filter fun i =>
        positionState i = .noPosition).take maxSymbols
  let fresh := (std.sort premiumAt freshCandidates).take free
  { indices := (topUps ++ fresh).take maxSymbols
    activePositions := activePositions symbolCount positionState
    pendingNewSignals := pendingNewSignals symbolCount signaledBits positionState
    freeSlots := free - fresh.length }

/-! ## The loops of the source

What is above is the selection as lists; below are the loops that compute it, with a fixed array
and an `int` of free slots that may start below zero.
-/

/-- `EntrySelectionResult::push`: a full array takes no more. -/
def pushIndex (maxSymbols : ℕ) (indices : List ℕ) (idx : ℕ) : List ℕ :=
  if indices.length < maxSymbols then indices ++ [idx] else indices

/-- `free_slots` before any candidate is taken. -/
def freeSlotsInt {maxSymbols : ℕ} (symbolCount : ℕ) (maxPositions : ℤ)
    (signaledBits : AtomicBitset maxSymbols) (positionState : ℕ → PositionState) : ℤ :=
  let usedSlots : ℤ := activePositions symbolCount positionState +
    pendingNewSignals symbolCount signaledBits positionState
  if maxPositions - usedSlots < 0 then 0 else maxPositions - usedSlots

/-- The callback of `candidate_bits.for_each_set`, with the array of fresh candidates. -/
def collectFresh (maxSymbols : ℕ) (freeSlots : ℤ) (positionState : ℕ → PositionState)
    (freshCandidates : List ℕ) (idx : ℕ) : List ℕ :=
  if positionState idx = .partialPosition then freshCandidates
  else if positionState idx ≠ .noPosition then freshCandidates
  else if freeSlots ≤ 0 then freshCandidates
  else pushIndex maxSymbols freshCandidates idx

/-- The last loop: one fresh candidate after the other until no slot is free. -/
def pushFresh (maxSymbols : ℕ) : List ℕ → List ℕ × ℤ → List ℕ × ℤ
  | [], r => r
  | idx :: rest, (indices, freeSlots) =>
    if freeSlots ≤ 0 then (indices, freeSlots)
    else pushFresh maxSymbols rest (pushIndex maxSymbols indices idx, freeSlots - 1)

/-- `select_entry_candidates`, loop by loop: the indices and the slots that stay free. -/
def selectEntryCandidatesLoop {maxSymbols : ℕ} (std : StdSort) (symbolCount : ℕ)
    (maxPositions : ℤ) (candidateBits signaledBits : AtomicBitset maxSymbols)
    (positionState : ℕ → PositionState) (premiumAt : ℕ → ℚ) (qualifiedAt : ℕ → Bool) :
    List ℕ × ℤ :=
  let free := freeSlotsInt symbolCount maxPositions signaledBits positionState
  let indices := (List.range symbolCount).foldl
    (fun indices idx =>
      if positionState idx = .partialPosition ∧ qualifiedAt idx = true then
        pushIndex maxSymbols indices idx
      else indices) []
  let freshCandidates := (candidateBits.forEachSet symbolCount).foldl
    (collectFresh maxSymbols free positionState) []
  pushFresh maxSymbols (std.sort premiumAt freshCandidates) (indices, free)

/-- A bounded push is an append cut to the bound. -/
theorem pushIndex_eq_take {maxSymbols : ℕ} {indices : List ℕ} (hle : indices.length ≤ maxSymbols)
    (idx : ℕ) : pushIndex maxSymbols indices idx = (indices ++ [idx]).take maxSymbols := by
  unfold pushIndex
  split_ifs with hlt
  · rw [List.take_of_length_le (by rw [List.length_append, List.length_singleton]; omega)]
  · rw [List.take_left' (by omega)]

/-- Cutting twice is cutting once. -/
theorem take_take_append (n : ℕ) (xs ys : List ℕ) :
    (xs.take n ++ ys).take n = (xs ++ ys).take n := by
  rw [List.take_append, List.take_append, List.take_take, Nat.min_self, List.length_take]
  congr 2
  omega

/-- Bounded pushes are one append cut to the bound. -/
theorem foldl_pushIndex {maxSymbols : ℕ} (xs : List ℕ) {indices : List ℕ}
    (hle : indices.length ≤ maxSymbols) :
    xs.foldl (pushIndex maxSymbols) indices = (indices ++ xs).take maxSymbols := by
  induction xs generalizing indices with
  | nil => rw [List.append_nil, List.take_of_length_le hle, List.foldl_nil]
  | cons idx rest ih =>
    rw [List.foldl_cons, pushIndex_eq_take hle, ih (List.length_take_le _ _), take_take_append,
      List.append_assoc, List.singleton_append]

/-- A filtered loop is a loop over the filtered list. -/
theorem foldl_pushIndex_filter (maxSymbols : ℕ) (p : ℕ → Bool) (step : List ℕ → ℕ → List ℕ)
    (hstep : ∀ indices idx, step indices idx =
      if p idx = true then pushIndex maxSymbols indices idx else indices) (xs : List ℕ) :
    xs.foldl step [] = (xs.filter p).take maxSymbols := by
  have hfilter : ∀ indices, xs.foldl step indices =
      (xs.filter p).foldl (pushIndex maxSymbols) indices := by
    induction xs with
    | nil => intro indices; rfl
    | cons idx rest ih =>
      intro indices
      rw [List.foldl_cons, hstep, ih]
      by_cases hidx : p idx = true
      · simp [hidx]
      · simp [hidx]
  rw [hfilter, foldl_pushIndex _ (Nat.zero_le _), List.nil_append]

/-- Fresh symbols are pushed up to the bound and as far as the free slots go. -/
theorem pushFresh_eq {maxSymbols : ℕ} (xs : List ℕ) {indices : List ℕ} (freeSlots : ℤ)
    (hle : indices.length ≤ maxSymbols) :
    pushFresh maxSymbols xs (indices, freeSlots) =
      ((indices ++ xs.take freeSlots.toNat).take maxSymbols,
        freeSlots - (xs.take freeSlots.toNat).length) := by
  induction xs generalizing indices freeSlots with
  | nil => simp [pushFresh, List.take_of_length_le hle]
  | cons idx rest ih =>
    unfold pushFresh
    split_ifs with hfree
    · have hzero : freeSlots.toNat = 0 := by omega
      simp [hzero, List.take_of_length_le hle]
    · have hsucc : freeSlots.toNat = (freeSlots - 1).toNat + 1 := by omega
      rw [pushIndex_eq_take hle, ih _ (List.length_take_le _ _), hsucc, List.take_succ_cons,
        take_take_append, List.append_assoc, List.singleton_append, List.length_cons]
      congr 1
      push_cast
      omega

section Loops

variable {maxSymbols : ℕ} (std : StdSort) (symbolCount : ℕ) (maxPositions : ℤ)
  (candidateBits signaledBits : AtomicBitset maxSymbols) (positionState : ℕ → PositionState)
  (premiumAt : ℕ → ℚ) (qualifiedAt : ℕ → Bool)

/-- A negative number of positions leaves as many free slots as none. -/
theorem toNat_freeSlotsInt :
    (freeSlotsInt symbolCount maxPositions signaledBits positionState).toNat =
      freeSlots symbolCount maxPositions.toNat signaledBits positionState := by
  unfold freeSlotsInt freeSlots
  dsimp only
  split_ifs <;> omega

/-- Collecting fresh symbols is a filter cut to the bound, and empty without free slots. -/
theorem foldl_collectFresh (freeSlots : ℤ) :
    (candidateBits.forEachSet symbolCount).foldl
        (collectFresh maxSymbols freeSlots positionState) [] =
      if freeSlots.toNat = 0 then []
      else
        ((candidateBits.forEachSet symbolCount).filter fun i =>
          positionState i = .noPosition).take maxSymbols := by
  have hloop := foldl_pushIndex_filter maxSymbols
    (fun i => decide (positionState i = .noPosition) && decide (0 < freeSlots))
    (collectFresh maxSymbols freeSlots positionState)
    (fun indices idx => by
      unfold collectFresh
      rcases le_or_gt freeSlots 0 with hnone | hsome
      · cases positionState idx <;> simp [hnone, hnone.not_gt]
      · cases positionState idx <;> simp [hsome, hsome.not_ge])
    (candidateBits.forEachSet symbolCount)
  rw [hloop]
  rcases le_or_gt freeSlots 0 with hnone | hsome
  · have hzero : freeSlots.toNat = 0 := by omega
    simp [hzero, hnone.not_gt]
  · have hpos : freeSlots.toNat ≠ 0 := by omega
    simp [hpos, hsome]

/-- The loops compute the selection. -/
theorem selectEntryCandidatesLoop_eq :
    (selectEntryCandidatesLoop std symbolCount maxPositions candidateBits signaledBits
        positionState premiumAt qualifiedAt).1 =
      (selectEntryCandidates std symbolCount maxPositions.toNat candidateBits signaledBits
        positionState premiumAt qualifiedAt).indices := by
  have htopUps := foldl_pushIndex_filter maxSymbols
    (fun i => positionState i = .partialPosition && qualifiedAt i)
    (fun indices idx =>
      if positionState idx = .partialPosition ∧ qualifiedAt idx = true then
        pushIndex maxSymbols indices idx
      else indices)
    (fun indices idx => by simp) (List.range symbolCount)
  simp only [selectEntryCandidatesLoop, htopUps, foldl_collectFresh,
    pushFresh_eq _ _ (List.length_take_le _ _), take_take_append, toNat_freeSlotsInt,
    selectEntryCandidates]

end Loops

end SpotRelay.Model
