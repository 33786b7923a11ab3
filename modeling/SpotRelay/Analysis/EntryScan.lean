import SpotRelay.Analysis.EntryFlags

/-!
# What a scan of the entry cache emits

A scan selects distinct indices, each of which is qualified and either has a partial position
or no position and an unfired signal.  It emits one signal for each of them, in that order, and
marks those without a position as fired.

* **one candidate**: what the scan stores and emits for an index is settled by what it finds there
  (`fireCandidate_of_fires`).
* **the scan** is the selected indices, none twice (`scanIndices_nodup`), each of which fires
  (`fires_of_mem_scanIndices`); together they are `fireEntryFromCache_spec`.
-/

set_option autoImplicit false

namespace SpotRelay.Analysis

open SpotRelay.Model SpotRelay.Library

/-! ## Position states -/

/-- The state of an index differs from `noPosition` if it did at the start, or if a position of
its symbol comes up. -/
theorem foldl_positionState (symbols : SymbolTable) (idx : ℕ) (positions : List Position)
    (state : ℕ → PositionState) :
    positions.foldl
        (fun state pos =>
          match symbols.koreanIndex pos.symbol with
          | none => state
          | some idx => fun i => if i = idx then Engine.stateOfPosition pos else state i)
        state idx = .noPosition ↔
      state idx = .noPosition ∧
        ∀ pos ∈ positions, symbols.koreanIndex pos.symbol ≠ some idx := by
  induction positions generalizing state with
  | nil => simp
  | cons pos positions ih =>
    rw [List.foldl_cons, ih, List.forall_mem_cons]
    have hheld : Engine.stateOfPosition pos ≠ .noPosition := by
      unfold Engine.stateOfPosition
      split_ifs <;> simp
    cases hindex : symbols.koreanIndex pos.symbol with
    | none => simp
    | some j =>
      by_cases hj : idx = j
      · subst hj
        simp [hheld]
      · simp [hj, Ne.symm hj]

/-- The index of a symbol in a table without repetitions. -/
theorem koreanIndex_eq_some_iff {symbols : SymbolTable} {idx : ℕ} {symbol other : SymbolId}
    (hget : symbols.symbols[idx]? = some symbol) :
    symbols.koreanIndex other = some idx ↔ other = symbol := by
  obtain ⟨hlt, rfl⟩ := List.getElem?_eq_some_iff.mp hget
  unfold SymbolTable.koreanIndex
  constructor
  · intro h
    rw [List.idxOf?_eq_some_iff] at h
    obtain ⟨_, heq, -⟩ := h
    simpa using heq.symm
  · rintro rfl
    rw [List.idxOf?_eq_some_iff]
    refine ⟨hlt, by simp, ?_⟩
    intro j hj heq
    have := (List.Nodup.getElem_inj_iff symbols.nodup).mp (eq_of_beq (by simpa using heq))
    omega

/-- The index on record for a symbol is where the symbol stands. -/
theorem getElem?_of_koreanIndex {symbols : SymbolTable} {idx : ℕ} {symbol : SymbolId}
    (h : symbols.koreanIndex symbol = some idx) : symbols.symbols[idx]? = some symbol := by
  obtain ⟨hlt, heq, -⟩ := List.idxOf?_eq_some_iff.mp h
  rw [List.getElem?_eq_getElem hlt, heq]

/-- A monitored symbol is without a position in the scan exactly when it is untracked. -/
theorem positionState_eq_noPosition_iff (e : Engine) {idx : ℕ} {symbol : SymbolId}
    (hget : e.symbols.symbols[idx]? = some symbol) :
    e.positionState idx = .noPosition ↔ (e.tracker.getPosition symbol).isSome = false := by
  refine Iff.trans (foldl_positionState e.symbols idx (e.tracker.slots.filterMap id) _) ?_
  rw [← Bool.not_eq_true, PositionTracker.getPosition_isSome_iff]
  simp only [true_and, not_exists, not_and]
  constructor
  · intro h pos hpos heq
    exact h pos hpos ((koreanIndex_eq_some_iff hget).mpr heq)
  · intro h pos hpos heq
    exact h pos hpos ((koreanIndex_eq_some_iff hget).mp heq)

/-- The active positions of a scan are the monitored symbols with a position. -/
theorem activePositions_eq (e : Engine) :
    activePositions e.symbols.symbols.length e.positionState =
      e.symbols.symbols.countP fun symbol => (e.tracker.getPosition symbol).isSome := by
  unfold activePositions
  rw [← List.map_coe_finRange_eq_range]
  conv_rhs => rw [← List.map_get_finRange e.symbols.symbols]
  rw [List.countP_map, List.countP_map]
  refine List.countP_congr ?_
  intro i _
  have hget : e.symbols.symbols[i.val]? = some (e.symbols.symbols.get i) := by simp
  have hstate := positionState_eq_noPosition_iff e hget
  simp only [Function.comp_apply, ne_eq, decide_eq_true_eq, hstate, Bool.not_eq_false]

/-! ## The selection -/

/-- The number of fired signals without a position, below the count. -/
theorem pendingNewSignals_eq_countP {maxSymbols symbolCount : ℕ}
    {signaledBits : AtomicBitset maxSymbols} {positionState : ℕ → PositionState}
    (hcount : symbolCount ≤ maxSymbols) :
    pendingNewSignals symbolCount signaledBits positionState =
      (List.range symbolCount).countP fun i =>
        decide (positionState i = .noPosition) && signaledBits.test i := by
  rw [pendingNewSignals, AtomicBitset.forEachSet_eq, Nat.min_eq_left hcount, List.countP_filter]

section Selection

variable {maxSymbols : ℕ} (std : StdSort) (symbolCount maxPositions : ℕ)
  (candidateBits signaledBits : AtomicBitset maxSymbols) (positionState : ℕ → PositionState)
  (premiumAt : ℕ → ℚ) (qualifiedAt : ℕ → Bool)

/-- A selected index is a top-up or a fresh candidate; fresh ones need a free slot. -/
theorem mem_selectEntryCandidates {idx : ℕ}
    (h : idx ∈ (selectEntryCandidates std symbolCount maxPositions candidateBits signaledBits
      positionState premiumAt qualifiedAt).indices) :
    idx < symbolCount ∧
      (positionState idx = .partialPosition ∧ qualifiedAt idx = true ∨
        positionState idx = .noPosition ∧ candidateBits.test idx = true ∧
          0 < freeSlots symbolCount maxPositions signaledBits positionState) := by
  simp only [selectEntryCandidates] at h
  rcases List.mem_append.mp (List.mem_of_mem_take h) with htop | hfresh
  · simp only [List.mem_filter, List.mem_range, Bool.and_eq_true, decide_eq_true_eq] at htop
    exact ⟨htop.1, Or.inl htop.2⟩
  · have hsorted := (std.perm _ _).mem_iff.mp (List.mem_of_mem_take hfresh)
    split_ifs at hsorted with hfree
    · cases hsorted
    · have hmem := List.mem_of_mem_take hsorted
      simp only [AtomicBitset.forEachSet_eq, List.mem_filter, List.mem_range,
        decide_eq_true_eq] at hmem
      obtain ⟨⟨hlt, hbit⟩, hstate⟩ := hmem
      exact ⟨by omega, Or.inr ⟨hstate, hbit, Nat.pos_of_ne_zero hfree⟩⟩

/-- No index is selected twice. -/
theorem nodup_selectEntryCandidates :
    (selectEntryCandidates std symbolCount maxPositions candidateBits signaledBits
      positionState premiumAt qualifiedAt).indices.Nodup := by
  have hrange : ∀ p : ℕ → Bool, ∀ n, ((List.range n).filter p).Nodup :=
    fun p n => List.nodup_range.filter p
  simp only [selectEntryCandidates]
  refine List.Nodup.sublist (List.take_sublist _ _) ?_
  rw [List.nodup_append]
  refine ⟨hrange _ _, ?_, ?_⟩
  · refine List.Nodup.sublist (List.take_sublist _ _) ((std.perm _ _).nodup_iff.mpr ?_)
    split_ifs
    · exact List.nodup_nil
    · refine List.Nodup.sublist (List.take_sublist _ _) (List.Nodup.filter _ ?_)
      rw [AtomicBitset.forEachSet_eq]
      exact hrange _ _
  · intro a ha b hb
    rintro rfl
    have hsorted := (std.perm _ _).mem_iff.mp (List.mem_of_mem_take hb)
    split_ifs at hsorted
    · cases hsorted
    · have hfresh := List.mem_of_mem_take hsorted
      simp only [List.mem_filter, Bool.and_eq_true, decide_eq_true_eq] at ha hfresh
      rw [ha.2.1] at hfresh
      cases hfresh.2

/-- The candidates without a position, in index order. -/
theorem freshCandidates_eq (hcount : symbolCount ≤ maxSymbols) :
    ((candidateBits.forEachSet symbolCount).filter fun i =>
        positionState i = .noPosition).take maxSymbols =
      (List.range symbolCount).filter fun i =>
        decide (positionState i = .noPosition) && candidateBits.test i := by
  rw [AtomicBitset.forEachSet_eq, Nat.min_eq_left hcount, List.filter_filter]
  refine List.take_of_length_le (le_trans (List.length_filter_le _ _) ?_)
  rwa [List.length_range]

/-- The top-ups and the candidates without a position are different indices. -/
theorem length_picks_le :
    ((List.range symbolCount).filter fun i =>
        positionState i = .partialPosition && qualifiedAt i).length +
      ((List.range symbolCount).filter fun i =>
        decide (positionState i = .noPosition) && candidateBits.test i).length ≤ symbolCount := by
  rw [← List.countP_eq_length_filter, ← List.countP_eq_length_filter]
  have hsplit := List.length_eq_countP_add_countP
    (fun i => decide (positionState i = .noPosition)) (l := List.range symbolCount)
  have hpartial : (List.range symbolCount).countP
      (fun i => positionState i = .partialPosition && qualifiedAt i) ≤
        (List.range symbolCount).countP fun i =>
          decide ¬ decide (positionState i = .noPosition) = true := by
    refine List.countP_mono_left fun i _ hi => ?_
    rw [Bool.and_eq_true, decide_eq_true_eq] at hi
    simp [hi.1]
  have hcandidate : (List.range symbolCount).countP
      (fun i => decide (positionState i = .noPosition) && candidateBits.test i) ≤
        (List.range symbolCount).countP fun i => decide (positionState i = .noPosition) :=
    List.countP_mono_left fun i _ hi => (Bool.and_eq_true _ _ ▸ hi).1
  rw [List.length_range] at hsplit
  omega

/-- The result holds all its picks: the array is not full before the last one. -/
theorem indices_selectEntryCandidates (hcount : symbolCount ≤ maxSymbols) :
    (selectEntryCandidates std symbolCount maxPositions candidateBits signaledBits
        positionState premiumAt qualifiedAt).indices =
      ((List.range symbolCount).filter fun i =>
        positionState i = .partialPosition && qualifiedAt i) ++
      (std.sort premiumAt ((List.range symbolCount).filter fun i =>
          decide (positionState i = .noPosition) && candidateBits.test i)).take
        (freeSlots symbolCount maxPositions signaledBits positionState) := by
  have hpicks := length_picks_le symbolCount candidateBits positionState qualifiedAt
  simp only [selectEntryCandidates, freshCandidates_eq _ _ _ hcount]
  split_ifs with hfree
  · rw [hfree, List.take_zero, List.take_zero, List.append_nil]
    exact List.take_of_length_le (by omega)
  · refine List.take_of_length_le ?_
    have hsorted := List.length_take_le'
      (freeSlots symbolCount maxPositions signaledBits positionState)
      (std.sort premiumAt ((List.range symbolCount).filter fun i =>
        decide (positionState i = .noPosition) && candidateBits.test i))
    rw [(std.perm _ _).length_eq] at hsorted
    rw [List.length_append]
    omega

/-- As many fresh candidates are selected as there are, but no more than there are free slots. -/
theorem countP_selectEntryCandidates (hcount : symbolCount ≤ maxSymbols) :
    (selectEntryCandidates std symbolCount maxPositions candidateBits signaledBits
        positionState premiumAt qualifiedAt).indices.countP
      (fun i => positionState i = .noPosition) =
    min (freeSlots symbolCount maxPositions signaledBits positionState)
      ((List.range symbolCount).countP fun i =>
        decide (positionState i = .noPosition) && candidateBits.test i) := by
  rw [indices_selectEntryCandidates _ _ _ _ _ _ _ _ hcount, List.countP_append,
    List.countP_eq_length_filter (l := List.range symbolCount)]
  generalize hcandidates : ((List.range symbolCount).filter fun i =>
    decide (positionState i = .noPosition) && candidateBits.test i) = candidates
  have hzero : ((List.range symbolCount).filter fun i =>
      positionState i = .partialPosition && qualifiedAt i).countP
      (fun i => positionState i = .noPosition) = 0 := by
    rw [List.countP_eq_zero]
    intro i hi
    simp only [List.mem_filter, Bool.and_eq_true, decide_eq_true_eq] at hi
    simp [hi.2.1]
  have hfresh : ∀ i ∈ (std.sort premiumAt candidates).take
      (freeSlots symbolCount maxPositions signaledBits positionState),
      decide (positionState i = .noPosition) = true := by
    intro i hi
    have hmem := (std.perm _ _).mem_iff.mp (List.mem_of_mem_take hi)
    rw [← hcandidates, List.mem_filter, Bool.and_eq_true] at hmem
    exact hmem.2.1
  rw [hzero, Nat.zero_add, List.countP_eq_length.mpr hfresh, List.length_take,
    (std.perm _ _).length_eq]

end Selection

/-! ## The scan -/

/-- The entry of a selected index as the scan leaves it. -/
def firedEntry (state : ℕ → PositionState) (e : Engine) (idx : ℕ) : CachedEntryPremium :=
  if state idx = .partialPosition then e.entryCache idx
  else { e.entryCache idx with signalFired := true }

/-- The signal of a selected index. -/
def scanEmission (state : ℕ → PositionState) (scanMs : UInt64) (e : Engine) (idx : ℕ) :
    Option Engine.Emission :=
  (e.symbols.symbols[idx]?).map fun symbol =>
    { e.emitSignal scanMs symbol idx with entry := firedEntry state e idx }

/-- An index that the last loop of the scan does not pass over. -/
structure Fires (state : ℕ → PositionState) (e : Engine) (idx : ℕ) : Prop where
  monitored : idx < e.symbols.symbols.length
  qualified : (e.entryCache idx).qualified = true
  eligible : state idx = .partialPosition ∨ (e.entryCache idx).signalFired = false

/-- One round of the loop, for an index that fires. -/
theorem fireCandidate_of_fires {state : ℕ → PositionState} (scanMs : UInt64)
    {r : Engine × List Engine.Emission} {idx : ℕ} (h : Fires state r.1 idx) :
    let r' := Engine.fireCandidate state scanMs r idx
    (∀ i, r'.1.entryCache i = if i = idx then firedEntry state r.1 idx else r.1.entryCache i) ∧
      r'.2 = r.2 ++ (scanEmission state scanMs r.1 idx).toList := by
  obtain ⟨symbol, hget⟩ : ∃ symbol, r.1.symbols.symbols[idx]? = some symbol :=
    ⟨_, List.getElem?_eq_getElem h.monitored⟩
  have hlt : ¬ maxCachedSymbols ≤ idx := Nat.not_le_of_lt (lt_maxCachedSymbols r.1 hget)
  have hqualified : ¬ (r.1.entryCache idx).qualified = false := by
    rw [h.qualified]
    simp
  simp only [Engine.fireCandidate, hget, scanEmission, firedEntry, Option.map_some,
    Option.toList_some]
  rw [if_neg hqualified]
  by_cases hstate : state idx = .partialPosition
  · simp only [hstate, not_true_eq_false, false_and, if_true, if_false]
    refine ⟨?_, rfl⟩
    intro i
    split_ifs with hi
    · rw [hi]
    · rfl
  · have hfired : ¬ (r.1.entryCache idx).signalFired = true := by
      rw [h.eligible.resolve_left hstate]
      simp
    rw [if_neg fun hpassed => hfired hpassed.2]
    simp only [hstate, if_false]
    refine ⟨?_, ?_⟩
    · intro i
      simp only [Engine.markFired, Engine.syncEntryStateBits, hlt, if_false, Engine.setEntry]
    · simp only [Engine.emitSignal, Engine.markFired, Engine.syncEntryStateBits, hlt, if_false,
        Engine.setEntry, if_true]

/-- The loop over distinct indices that all fire. -/
theorem foldl_fireCandidate {state : ℕ → PositionState} (scanMs : UInt64) (idxs : List ℕ)
    (r : Engine × List Engine.Emission) (hnodup : idxs.Nodup)
    (hfires : ∀ idx ∈ idxs, Fires state r.1 idx) :
    let r' := idxs.foldl (Engine.fireCandidate state scanMs) r
    OnlyCache r.1 r'.1 ∧
      (∀ i, r'.1.entryCache i =
        if i ∈ idxs then firedEntry state r.1 i else r.1.entryCache i) ∧
      r'.2 = r.2 ++ idxs.filterMap (scanEmission state scanMs r.1) := by
  induction idxs generalizing r with
  | nil => simp [onlyCache_refl]
  | cons idx idxs ih =>
    obtain ⟨hnot, hnodup⟩ := List.nodup_cons.mp hnodup
    have hframe := onlyCache_fireCandidate idx state scanMs r
    obtain ⟨hcache, hemit⟩ := fireCandidate_of_fires scanMs (hfires idx (by simp))
    have hother : ∀ j, j ≠ idx →
        (Engine.fireCandidate state scanMs r idx).1.entryCache j = r.1.entryCache j := by
      intro j hj
      rw [hcache j, if_neg hj]
    have hrest : ∀ j ∈ idxs, Fires state (Engine.fireCandidate state scanMs r idx).1 j := by
      intro j hj
      have hne : j ≠ idx := fun h => hnot (h ▸ hj)
      have hold := hfires j (by simp [hj])
      refine ⟨?_, ?_, ?_⟩
      · rw [hframe.symbols]
        exact hold.monitored
      · rw [hother j hne]
        exact hold.qualified
      · rw [hother j hne]
        exact hold.eligible
    obtain ⟨hframe', hcache', hemit'⟩ := ih _ hnodup hrest
    have hsame : ∀ j ∈ idxs, scanEmission state scanMs
        (Engine.fireCandidate state scanMs r idx).1 j = scanEmission state scanMs r.1 j := by
      intro j hj
      have hne : j ≠ idx := fun h => hnot (h ▸ hj)
      simp only [scanEmission, firedEntry, Engine.emitSignal, hframe.symbols, hother j hne]
    refine ⟨hframe.trans hframe', ?_, ?_⟩
    · intro i
      rw [List.foldl_cons, hcache' i]
      by_cases hi : i = idx
      · subst hi
        simp [hnot, hcache i]
      · simp only [List.mem_cons, hi, false_or, firedEntry, hother i hi]
    · rw [List.foldl_cons, hemit', hemit, List.filterMap_congr hsame, List.filterMap_cons]
      cases scanEmission state scanMs r.1 idx <;> simp

/-- The indices that a scan fires. -/
def scanIndices (std : StdSort) (maxPositions : MaxPositions) (e : Engine) : List ℕ :=
  if e.exchangePairs = [] ∨ e.entrySuppressed = true ∨ e.symbols.symbols.length = 0 then []
  else (Engine.selection std maxPositions e).indices

variable (std : StdSort) (maxPositions : MaxPositions) (e : Engine)

/-- A scan looks at no symbol twice. -/
theorem scanIndices_nodup : (scanIndices std maxPositions e).Nodup := by
  unfold scanIndices
  split_ifs
  · exact List.nodup_nil
  · exact nodup_selectEntryCandidates _ _ _ _ _ _ _ _

/-- What is selected fires: nothing is passed over. -/
theorem fires_of_mem_scanIndices (hflags : ∀ i, FlagsAgree e i) {idx : ℕ}
    (h : idx ∈ scanIndices std maxPositions e) : Fires e.positionState e idx := by
  unfold scanIndices at h
  split_ifs at h
  · cases h
  · obtain ⟨hlt, ⟨htopUp, hqualified⟩ | ⟨-, hbit, -⟩⟩ :=
      mem_selectEntryCandidates _ _ _ _ _ _ _ _ h
    · exact ⟨hlt, hqualified, Or.inl htopUp⟩
    · rw [(hflags idx).candidate, Bool.and_eq_true, Bool.not_eq_true'] at hbit
      exact ⟨hlt, hbit.1, Or.inr hbit.2⟩

/-- A scan emits one signal for each selected index and marks the fresh ones as fired. -/
theorem fireEntryFromCache_spec (scanMs : UInt64) (hflags : ∀ i, FlagsAgree e i) :
    let r := Engine.fireEntryFromCache std maxPositions e scanMs
    let idxs := scanIndices std maxPositions e
    OnlyCache e r.1 ∧
      (∀ i, r.1.entryCache i =
        if i ∈ idxs then firedEntry e.positionState e i else e.entryCache i) ∧
      r.2 = idxs.filterMap (scanEmission e.positionState scanMs e) := by
  have hrun := foldl_fireCandidate scanMs _ (e, [])
    (scanIndices_nodup std maxPositions e)
    fun idx h => fires_of_mem_scanIndices std maxPositions e hflags h
  have heq : Engine.fireEntryFromCache std maxPositions e scanMs =
      (scanIndices std maxPositions e).foldl (Engine.fireCandidate e.positionState scanMs)
        (e, []) := by
    unfold Engine.fireEntryFromCache scanIndices
    by_cases hpairs : e.exchangePairs = []
    · simp [hpairs]
    · by_cases hsuppressed : e.entrySuppressed = true
      · simp [hpairs, hsuppressed]
      · by_cases hnone : e.symbols.symbols.length = 0
        · simp [hpairs, hsuppressed, hnone]
        · simp only [hpairs, hsuppressed, hnone, if_false, false_or, Bool.false_eq_true]
  intro r idxs
  simp only [r, idxs, heq]
  simpa using hrun

/-- No symbol is signalled twice by one scan. -/
theorem nodup_emitted (scanMs : UInt64) (hflags : ∀ i, FlagsAgree e i) :
    ((Engine.fireEntryFromCache std maxPositions e scanMs).2.map
      fun em => em.signal.symbol).Nodup := by
  rw [(fireEntryFromCache_spec std maxPositions e scanMs hflags).2.2, List.map_filterMap]
  refine (scanIndices_nodup std maxPositions e).filterMap ?_
  intro i j symbol hi hj
  simp only [scanEmission, Engine.emitSignal, Option.map_map, Option.mem_def,
    Option.map_eq_some_iff, Function.comp_apply] at hi hj
  obtain ⟨other, hgeti, rfl⟩ := hi
  obtain ⟨other', hgetj, heq⟩ := hj
  cases heq
  have hlt := (List.getElem?_eq_some_iff.mp hgeti).1
  exact (List.getElem?_inj hlt e.symbols.nodup).mp (hgeti.trans hgetj.symm)

/-- A signal of a scan is the one of a selected index. -/
theorem mem_emitted {scanMs : UInt64} (hflags : ∀ i, FlagsAgree e i) {em : Engine.Emission}
    (h : em ∈ (Engine.fireEntryFromCache std maxPositions e scanMs).2) :
    ∃ idx ∈ scanIndices std maxPositions e,
      e.symbols.symbols[idx]? = some em.signal.symbol := by
  rw [(fireEntryFromCache_spec std maxPositions e scanMs hflags).2.2] at h
  obtain ⟨idx, hidx, hemit⟩ := List.mem_filterMap.mp h
  obtain ⟨symbol, hget, rfl⟩ := Option.map_eq_some_iff.mp hemit
  exact ⟨idx, hidx, hget⟩

/-- Every selected index is signalled. -/
theorem emitted_of_mem_scanIndices (scanMs : UInt64) (hflags : ∀ i, FlagsAgree e i) {idx : ℕ}
    {symbol : SymbolId} (hidx : idx ∈ scanIndices std maxPositions e)
    (hget : e.symbols.symbols[idx]? = some symbol) :
    symbol ∈ (Engine.fireEntryFromCache std maxPositions e scanMs).2.map
      fun em => em.signal.symbol := by
  rw [(fireEntryFromCache_spec std maxPositions e scanMs hflags).2.2, List.map_filterMap]
  refine List.mem_filterMap.mpr ⟨idx, hidx, ?_⟩
  simp [scanEmission, hget, Engine.emitSignal]

end SpotRelay.Analysis
