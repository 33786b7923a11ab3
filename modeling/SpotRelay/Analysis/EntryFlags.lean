import SpotRelay.Analysis.EngineInvariant

/-!
# The flags and the bitmaps of the entry cache

Two flags of a cached entry are mirrored in two bitmaps.  Every path that writes a flag writes
the bits with it, so the four agree after every operation of the engine.

* **each path** that writes a flag keeps flag and bit together: a recomputation
  (`flagsAgree_updateSymbolEntry`) and a scan (`flagsAgree_fireEntryFromCache`).
* **a run** therefore keeps them together for every symbol (`flagsAgree_run`).
-/

set_option autoImplicit false

namespace SpotRelay.Analysis

open SpotRelay.Model SpotRelay.Library

variable (e : Engine) (idx : ℕ)

/-! ## What a recomputation writes -/

/-- The bits of an entry are not in the entry. -/
theorem entryCache_sync (qualifies signalFired : Bool) :
    (e.syncEntryStateBits idx qualifies signalFired).entryCache = e.entryCache := by
  unfold Engine.syncEntryStateBits
  split_ifs <;> rfl

/-- The recomputation of an entry leaves the others. -/
theorem entryCache_updateSymbolEntry_of_ne (nowMs : UInt64) {idx i : ℕ} (hi : i ≠ idx) :
    (e.updateSymbolEntry nowMs idx).entryCache i = e.entryCache i := by
  have hclear : (e.clearState idx).entryCache i = e.entryCache i := by
    simp only [Engine.clearState, entryCache_sync]
    split_ifs <;> simp [Engine.setEntry, hi]
  unfold Engine.updateSymbolEntry
  split
  · rfl
  · split_ifs
    · exact hclear
    · split
      · exact hclear
      · simp [Engine.storeQualification, entryCache_sync, Engine.setEntry, hi]

/-- Clearing an entry does not mark it as fired. -/
theorem signalFired_clearState
    (h : ((e.clearState idx).entryCache idx).signalFired = true) :
    (e.entryCache idx).signalFired = true := by
  simp only [Engine.clearState, entryCache_sync] at h
  split_ifs at h
  · simp [Engine.setEntry] at h
  · exact h

/-- A recomputation marks nothing. -/
theorem signalFired_updateSymbolEntry (nowMs : UInt64) (i : ℕ)
    (h : ((e.updateSymbolEntry nowMs idx).entryCache i).signalFired = true) :
    (e.entryCache i).signalFired = true := by
  by_cases hi : i = idx
  · subst hi
    unfold Engine.updateSymbolEntry at h
    split at h
    · exact h
    · split_ifs at h
      · exact signalFired_clearState e i h
      · split at h
        · exact signalFired_clearState e i h
        · simp only [Engine.storeQualification, entryCache_sync, Engine.setEntry, if_true] at h
          split_ifs at h
          exact h
  · rw [entryCache_updateSymbolEntry_of_ne e nowMs hi] at h
    exact h

/-! ## Agreement -/

/-- The two flags of an entry and the two bits of its index say the same. -/
structure FlagsAgree (e : Engine) (i : ℕ) : Prop where
  candidate : e.candidateBits.test i =
    ((e.entryCache i).qualified && !(e.entryCache i).signalFired)
  fired : e.signalFiredBits.test i = (e.entryCache i).signalFired
  qualified_of_fired : (e.entryCache i).signalFired = true → (e.entryCache i).qualified = true

/-- A write of both flags of an entry together with its bits: the shape of every path. -/
theorem FlagsAgree.of_write {e e' : Engine} {idx : ℕ} {qualifies signalFired : Bool}
    (hidx : idx < maxCachedSymbols) (hfired : signalFired = true → qualifies = true)
    (hcache : ∀ i, i ≠ idx → e'.entryCache i = e.entryCache i)
    (hqualified : (e'.entryCache idx).qualified = qualifies)
    (hsignal : (e'.entryCache idx).signalFired = signalFired)
    (hcandidate : e'.candidateBits = e.candidateBits.set idx (qualifies && !signalFired))
    (hbits : e'.signalFiredBits = e.signalFiredBits.set idx signalFired) (i : ℕ)
    (h : FlagsAgree e i) : FlagsAgree e' i := by
  by_cases hi : i = idx
  · subst hi
    refine ⟨?_, ?_, ?_⟩
    · rw [hcandidate, AtomicBitset.test_set _ _ _ _ hidx, if_pos rfl, hqualified, hsignal]
    · rw [hbits, AtomicBitset.test_set _ _ _ _ hidx, if_pos rfl, hsignal]
    · rw [hqualified, hsignal]
      exact hfired
  · refine ⟨?_, ?_, ?_⟩
    · rw [hcandidate, AtomicBitset.test_set _ _ _ _ hidx, if_neg hi, hcache i hi]
      exact h.candidate
    · rw [hbits, AtomicBitset.test_set _ _ _ _ hidx, if_neg hi, hcache i hi]
      exact h.fired
    · rw [hcache i hi]
      exact h.qualified_of_fired

/-- An entry is written together with its bits. -/
theorem flagsAgree_setEntry_sync (entry : CachedEntryPremium) (hidx : idx < maxCachedSymbols)
    (hfired : entry.signalFired = true → entry.qualified = true) (i : ℕ) (h : FlagsAgree e i) :
    FlagsAgree ((e.setEntry idx entry).syncEntryStateBits idx entry.qualified entry.signalFired)
      i := by
  have hlt : ¬ maxCachedSymbols ≤ idx := Nat.not_le_of_lt hidx
  simp only [Engine.syncEntryStateBits, hlt, if_false]
  refine h.of_write hidx hfired ?_ ?_ ?_ rfl rfl
  · intro j hj
    simp [Engine.setEntry, hj]
  · simp [Engine.setEntry]
  · simp [Engine.setEntry]

/-- Clearing an entry leaves flags and bits in agreement. -/
theorem flagsAgree_clearState (hidx : idx < maxCachedSymbols) (i : ℕ) (h : FlagsAgree e i) :
    FlagsAgree (e.clearState idx) i := by
  have hlt : ¬ maxCachedSymbols ≤ idx := Nat.not_le_of_lt hidx
  simp only [Engine.clearState]
  split_ifs with hset
  · exact flagsAgree_setEntry_sync e idx
      { e.entryCache idx with qualified := false, signalFired := false } hidx
      (fun hfalse => hfalse) i h
  · simp only [Bool.or_eq_true, not_or, Bool.not_eq_true] at hset
    simp only [Engine.syncEntryStateBits, hlt, if_false]
    refine h.of_write hidx (fun hfalse => hfalse) ?_ ?_ ?_ rfl rfl
    · exact fun _ _ => rfl
    · exact hset.1
    · exact hset.2

/-- Storing an entry leaves flags and bits in agreement. -/
theorem flagsAgree_storeQualification (best : Engine.PairQuote) (hidx : idx < maxCachedSymbols)
    (i : ℕ) (hself : FlagsAgree e idx) (h : FlagsAgree e i) :
    FlagsAgree (e.storeQualification idx best) i := by
  unfold Engine.storeQualification
  refine flagsAgree_setEntry_sync e idx _ hidx ?_ i h
  simp only
  -- a flag that is kept belongs to an entry whose qualification has not changed
  split_ifs with hchanged
  · intro hfalse
    cases hfalse
  · intro hfired
    rw [← not_not.mp hchanged]
    exact hself.qualified_of_fired hfired

/-- A symbol that is registered has a place in the bit sets. -/
theorem lt_maxCachedSymbols {i : ℕ} {symbol : SymbolId}
    (h : e.symbols.symbols[i]? = some symbol) : i < maxCachedSymbols :=
  lt_of_lt_of_le (List.getElem?_eq_some_iff.mp h).1 e.symbols.length_le

/-- The recomputation of an entry leaves flags and bits in agreement. -/
theorem flagsAgree_updateSymbolEntry (nowMs : UInt64) (h : ∀ i, FlagsAgree e i) :
    ∀ i, FlagsAgree (e.updateSymbolEntry nowMs idx) i := by
  intro i
  unfold Engine.updateSymbolEntry
  cases hsymbol : e.symbols.symbols[idx]? with
  | none => exact h i
  | some symbol =>
    have hidx := lt_maxCachedSymbols e hsymbol
    simp only
    split_ifs
    · exact flagsAgree_clearState e idx hidx i (h i)
    · cases e.bestPair nowMs symbol with
      | none => exact flagsAgree_clearState e idx hidx i (h i)
      | some best => exact flagsAgree_storeQualification e idx best hidx i (h idx) (h i)

/-- A fired mark leaves flags and bits in agreement. -/
theorem flagsAgree_markFired (hidx : idx < maxCachedSymbols)
    (hqualified : (e.entryCache idx).qualified = true) (i : ℕ) (h : FlagsAgree e i) :
    FlagsAgree (e.markFired idx) i := by
  have hwrite := flagsAgree_setEntry_sync e idx
    { e.entryCache idx with signalFired := true } hidx (fun _ => hqualified) i h
  unfold Engine.markFired
  rwa [show ({ e.entryCache idx with signalFired := true } : CachedEntryPremium).qualified = true
    from hqualified] at hwrite

/-- A candidate that fires leaves flags and bits in agreement. -/
theorem flagsAgree_fireCandidate (positionState : ℕ → PositionState) (scanMs : UInt64)
    (r : Engine × List Engine.Emission) (h : ∀ i, FlagsAgree r.1 i) (i : ℕ) :
    FlagsAgree (Engine.fireCandidate positionState scanMs r idx).1 i := by
  simp only [Engine.fireCandidate]
  cases hsymbol : r.1.symbols.symbols[idx]? with
  | none => exact h i
  | some symbol =>
    simp only
    split_ifs with hqualified
    · exact h i
    · exact h i
    · exact h i
    · have hset : (r.1.entryCache idx).qualified = true := by simpa using hqualified
      exact flagsAgree_markFired r.1 idx (lt_maxCachedSymbols r.1 hsymbol) hset i (h i)

/-- A scan leaves flags and bits in agreement. -/
theorem flagsAgree_fireEntryFromCache (std : StdSort) (maxPositions : MaxPositions)
    (scanMs : UInt64) (h : ∀ i, FlagsAgree e i) :
    ∀ i, FlagsAgree (Engine.fireEntryFromCache std maxPositions e scanMs).1 i := by
  intro i
  unfold Engine.fireEntryFromCache
  split_ifs
  · exact h i
  · exact h i
  · exact h i
  · generalize (Engine.selection std maxPositions e).indices = idxs
    generalize e.positionState = state
    have hfold : ∀ (idxs : List ℕ) (r : Engine × List Engine.Emission),
        (∀ i, FlagsAgree r.1 i) →
          ∀ i, FlagsAgree (idxs.foldl (Engine.fireCandidate state scanMs) r).1 i := by
      intro idxs
      induction idxs with
      | nil => exact fun r hr => hr
      | cons idx idxs ih =>
        exact fun r hr => ih _ (flagsAgree_fireCandidate idx state scanMs r hr)
    exact hfold idxs (e, []) h i

/-- Agreement depends on the cached entries and the bits alone. -/
theorem FlagsAgree.congr {e e' : Engine} {i : ℕ} (h : FlagsAgree e i) (hsame : SameCache e e') :
    FlagsAgree e' i := by
  constructor
  · rw [hsame.candidateBits, hsame.entryCache]
    exact h.candidate
  · rw [hsame.signalFiredBits, hsame.entryCache]
    exact h.fired
  · rw [hsame.entryCache]
    exact h.qualified_of_fired

/-- Flags and bits agree at the start. -/
theorem flagsAgree_initial (i : ℕ) : FlagsAgree Engine.initial i where
  candidate := AtomicBitset.test_empty i
  fired := AtomicBitset.test_empty i
  qualified_of_fired := fun h => h

/-- Flags and bits agree in every state of a run. -/
theorem flagsAgree_run (std : StdSort) (maxPositions : MaxPositions) (ops : List Engine.Op) :
    ∀ i, FlagsAgree (Engine.run std maxPositions .initial ops) i := by
  refine run_invariant (I := fun e => ∀ i, FlagsAgree e i) .initial std maxPositions ?_ ?_ ?_ ops
    flagsAgree_initial
  · exact fun e e' hsame h i => (h i).congr hsame
  · exact fun e nowMs idx h => flagsAgree_updateSymbolEntry e idx nowMs h
  · exact fun e scanMs h => flagsAgree_fireEntryFromCache e std maxPositions scanMs h

/-- In every reachable state the candidate bit of an index is set exactly when its entry is
qualified and has not fired, the fired bit is the fired flag, and a fired entry is
qualified. -/
theorem entryBits_agree (std : StdSort) (maxPositions : MaxPositions) (ops : List Engine.Op)
    (i : ℕ) :
    let e := Engine.run std maxPositions .initial ops
    (e.candidateBits.test i = true ↔
        (e.entryCache i).qualified = true ∧ (e.entryCache i).signalFired = false) ∧
      (e.signalFiredBits.test i = true ↔ (e.entryCache i).signalFired = true) ∧
      ((e.entryCache i).signalFired = true → (e.entryCache i).qualified = true) := by
  intro e
  have h : FlagsAgree e i := flagsAgree_run std maxPositions ops i
  refine ⟨?_, ?_, h.qualified_of_fired⟩
  · rw [h.candidate, Bool.and_eq_true, Bool.not_eq_true']
  · rw [h.fired]

end SpotRelay.Analysis
