import SpotRelay.Analysis.EntryScan

/-!
# What the selection chooses

The whole specification of `select_entry_candidates`: which indices it returns, how many, in what
order and why no other.  The loops are those of the source, the lists they compute those of the
scan.

* **the candidates** are the set bits in range whose symbol holds no position (`IsCandidate`).
* **the cut**: what a sorted list keeps in front is no larger than what it keeps behind
  (`le_of_mem_take`).
-/

set_option autoImplicit false

namespace SpotRelay.Analysis

open SpotRelay.Model SpotRelay.Library

/-- A fresh candidate: below the count, without a position and with its bit set. -/
def IsCandidate {maxSymbols : ℕ} (symbolCount : ℕ) (candidateBits : AtomicBitset maxSymbols)
    (positionState : ℕ → PositionState) (i : ℕ) : Prop :=
  i < symbolCount ∧ positionState i = .noPosition ∧ candidateBits.test i = true

/-- The top-ups and the fresh candidates that are returned, in this order. -/
structure Selects {maxSymbols : ℕ} (symbolCount : ℕ) (maxPositions : ℤ)
    (candidateBits signaledBits : AtomicBitset maxSymbols) (positionState : ℕ → PositionState)
    (premiumAt : ℕ → ℚ) (qualifiedAt : ℕ → Bool) (topUps fresh : List ℕ) : Prop where
  topUps_increasing : topUps.Pairwise (· < ·)
  mem_topUps : ∀ i, i ∈ topUps ↔
    i < symbolCount ∧ positionState i = .partialPosition ∧ qualifiedAt i = true
  fresh_candidates : ∀ i ∈ fresh, IsCandidate symbolCount candidateBits positionState i
  length_fresh : (fresh.length : ℤ) =
    min (max 0 (maxPositions -
        (List.range symbolCount).countP (fun i => positionState i ≠ .noPosition) -
        (List.range symbolCount).countP fun i =>
          decide (positionState i = .noPosition) && signaledBits.test i))
      ((List.range symbolCount).countP fun i =>
        decide (positionState i = .noPosition) && candidateBits.test i)
  fresh_sorted : fresh.Pairwise fun i j => premiumAt i ≤ premiumAt j
  fresh_best : ∀ i ∈ fresh, ∀ j, IsCandidate symbolCount candidateBits positionState j →
    j ∉ fresh → premiumAt i ≤ premiumAt j
  nodup : (topUps ++ fresh).Nodup
  lt_symbolCount : ∀ i ∈ topUps ++ fresh, i < symbolCount
  length_le : (topUps ++ fresh).length ≤ maxSymbols

section Selection

variable {maxSymbols : ℕ} (std : StdSort) (symbolCount : ℕ)
  (candidateBits signaledBits : AtomicBitset maxSymbols) (positionState : ℕ → PositionState)
  (premiumAt : ℕ → ℚ) (qualifiedAt : ℕ → Bool)

/-- The candidates are the set bits in range whose symbol holds no position. -/
theorem mem_candidates (i : ℕ) :
    i ∈ (List.range symbolCount).filter (fun i =>
        decide (positionState i = .noPosition) && candidateBits.test i) ↔
      IsCandidate symbolCount candidateBits positionState i := by
  rw [List.mem_filter, List.mem_range, Bool.and_eq_true, decide_eq_true_eq]
  exact Iff.rfl

/-- What a sorted list keeps in front is no larger than what it keeps behind. -/
theorem le_of_mem_take {xs : List ℕ} {key : ℕ → ℚ} {n i j : ℕ}
    (hsorted : xs.Pairwise fun i j => key i ≤ key j) (hi : i ∈ xs.take n) (hj : j ∈ xs)
    (hnot : j ∉ xs.take n) : key i ≤ key j := by
  rw [← List.take_append_drop n xs] at hsorted hj
  have hdrop : j ∈ xs.drop n := (List.mem_append.mp hj).resolve_left hnot
  exact (List.pairwise_append.mp hsorted).2.2 i hi j hdrop

/-- The free slots as the number that the specification speaks of. -/
theorem freeSlots_eq_max (hcount : symbolCount ≤ maxSymbols) (maxPositions : ℤ) :
    (freeSlots symbolCount maxPositions.toNat signaledBits positionState : ℤ) =
      max 0 (maxPositions -
        (List.range symbolCount).countP (fun i => positionState i ≠ .noPosition) -
        (List.range symbolCount).countP fun i =>
          decide (positionState i = .noPosition) && signaledBits.test i) := by
  rw [freeSlots, pendingNewSignals_eq_countP hcount,
    activePositions]
  omega

end Selection

/-- The selection: all qualified partial positions in index order, then the best fresh candidates
that the free slots have room for. -/
theorem select_entry_candidates_spec {maxSymbols : ℕ} (std : StdSort) (symbolCount : ℕ)
    (maxPositions : ℤ) (candidateBits signaledBits : AtomicBitset maxSymbols)
    (positionState : ℕ → PositionState) (premiumAt : ℕ → ℚ) (qualifiedAt : ℕ → Bool)
    (hcount : symbolCount ≤ maxSymbols) :
    ∃ topUps fresh,
      (selectEntryCandidatesLoop std symbolCount maxPositions candidateBits signaledBits
        positionState premiumAt qualifiedAt).1 = topUps ++ fresh ∧
      Selects symbolCount maxPositions candidateBits signaledBits positionState premiumAt
        qualifiedAt topUps fresh := by
  have hindices := indices_selectEntryCandidates std symbolCount maxPositions.toNat candidateBits
    signaledBits positionState premiumAt qualifiedAt hcount
  have hnodup := nodup_selectEntryCandidates std symbolCount maxPositions.toNat candidateBits
    signaledBits positionState premiumAt qualifiedAt
  have hlt := fun i => @mem_selectEntryCandidates _ std symbolCount maxPositions.toNat candidateBits
    signaledBits positionState premiumAt qualifiedAt i
  have hlength := length_picks_le symbolCount candidateBits positionState qualifiedAt
  have hmem := mem_candidates symbolCount candidateBits positionState
  have hfree := freeSlots_eq_max symbolCount signaledBits positionState hcount maxPositions
  have hloop := selectEntryCandidatesLoop_eq std symbolCount maxPositions candidateBits signaledBits
    positionState premiumAt qualifiedAt
  rw [hindices] at hnodup hlt hloop
  have hcandidates : ((List.range symbolCount).countP fun i =>
      decide (positionState i = .noPosition) && candidateBits.test i) =
        ((List.range symbolCount).filter fun i =>
          decide (positionState i = .noPosition) && candidateBits.test i).length :=
    List.countP_eq_length_filter
  generalize ((List.range symbolCount).filter fun i =>
    decide (positionState i = .noPosition) && candidateBits.test i) = candidates at *
  have hperm := std.perm premiumAt candidates
  refine ⟨_, _, hloop, ?_⟩
  constructor
  case topUps_increasing => exact WordBits.sorted_filter_range _ _
  case mem_topUps =>
    intro i
    rw [List.mem_filter, List.mem_range, Bool.and_eq_true, decide_eq_true_eq]
  case fresh_candidates =>
    intro i hi
    exact (hmem i).mp (hperm.mem_iff.mp (List.mem_of_mem_take hi))
  case length_fresh =>
    rw [List.length_take, hperm.length_eq, hcandidates, ← hfree]
    exact Nat.cast_min _ _
  case fresh_sorted => exact (std.sorted premiumAt candidates).sublist (List.take_sublist _ _)
  case fresh_best =>
    intro i hi j hj hnot
    exact le_of_mem_take (std.sorted premiumAt candidates) hi
      (hperm.mem_iff.mpr ((hmem j).mpr hj)) hnot
  case nodup => exact hnodup
  case lt_symbolCount => exact fun i hi => (hlt i hi).1
  case length_le =>
    have hfresh := List.length_take_le'
      (freeSlots symbolCount maxPositions.toNat signaledBits positionState)
      (std.sort premiumAt candidates)
    rw [hperm.length_eq] at hfresh
    rw [List.length_append]
    omega

/-- Three candidates, one signal pending and room for three positions. -/
theorem select_entry_candidates_best_two :
    let candidateBits := (((AtomicBitset.empty 16).set 1 true).set 2 true).set 4 true
    let signaledBits := (AtomicBitset.empty 16).set 7 true
    let premiumAt : ℕ → ℚ := fun i => if i = 4 then -13 else if i = 2 then -12 else -11
    (selectEntryCandidatesLoop .insertion 8 3 candidateBits signaledBits (fun _ => .noPosition)
        premiumAt candidateBits.test).1 = [4, 2] ∧
      ∃ topUps fresh, [4, 2] = topUps ++ fresh ∧
        Selects 8 3 candidateBits signaledBits (fun _ => .noPosition) premiumAt candidateBits.test
          topUps fresh := by
  intro candidateBits signaledBits premiumAt
  have hrun : (selectEntryCandidatesLoop .insertion 8 3 candidateBits signaledBits
      (fun _ => .noPosition) premiumAt candidateBits.test).1 = [4, 2] := by
    decide +kernel
  have h := select_entry_candidates_spec .insertion 8 3 candidateBits signaledBits
    (fun _ => .noPosition) premiumAt candidateBits.test (by decide)
  rw [hrun] at h
  exact ⟨hrun, h⟩

end SpotRelay.Analysis
