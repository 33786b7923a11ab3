import SpotRelay.Library.Run
import SpotRelay.Model.TrackerThreads
import Mathlib.Data.List.Nodup

/-!
# Slots that are claimed but not written

Between its claim and its write a slot shows the symbol it held before, and the loop of that
symbol may close it.  As long as no `close_position` takes such a slot for its own, every opened
position has exactly one slot, and the count is the number of slots in use.

* **the owners** of the slots are kept in a run without a claim between the hash and the lock of a
  closing call (`slotsOwned_run`).
* **a look-up alone** goes from slot to slot and returns the position of its symbol
  (`getHash_alone`, `getLock_alone`).
-/

set_option autoImplicit false

namespace SpotRelay.Analysis

open SpotRelay.Model SpotRelay.Library

/-! ## Calls -/

/-- The slot that the call has claimed. -/
def TrackerCall.writes : TrackerCall → Option ℕ
  | .openWrite _ i => some i
  | _ => none

/-- The first slot that a close has still to look at. -/
def TrackerCall.closesFrom : TrackerCall → Option ℕ
  | .closeLoad _ i | .closeHash _ i | .closeLock _ i => some i
  | _ => none

/-- The call opens or closes. -/
def TrackerCall.changes : TrackerCall → Bool
  | .getLoad _ _ | .getHash _ _ | .getLock _ _ => false
  | _ => true

def beingWritten (s : SharedTracker) (i : ℕ) : Bool :=
  s.calls.any fun call => decide (TrackerCall.writes call = some i)

/-- The slot is active and shows the position it was opened for. -/
def settled (s : SharedTracker) (i : ℕ) : Bool :=
  decide (i < slotCount) && (s.slots i).active && !beingWritten s i

/-- The symbol that a slot shows. -/
def shown (s : SharedTracker) (i : ℕ) : SymbolId := (s.slots i).position.symbol

/-- A close has the lock of an active slot that shows its symbol, though another loop has claimed
the slot and not yet written it. -/
def takesClaimed (s : SharedTracker) : TrackerCall → Bool
  | .closeLock symbol i =>
    (s.slots i).active && decide (shown s i = symbol) && beingWritten s i
  | _ => false

/-- The step is not that of a close in a slot that another loop has claimed. -/
def StaleFree (s : SharedTracker) : TrackerEvent → Prop
  | .advance symbol => ∀ call ∈ s.callOf symbol, takesClaimed s call = false
  | _ => True

/-- The slots, the calls and the opened positions belong together. -/
structure SlotsOwned (s : SharedTracker) : Prop where
  distinct : (s.calls.map TrackerCall.symbol).Nodup
  claimed : ∀ call ∈ s.calls, ∀ i, TrackerCall.writes call = some i →
    i < slotCount ∧ (s.slots i).active = true
  oneWriter : ∀ call ∈ s.calls, ∀ call' ∈ s.calls, ∀ i, TrackerCall.writes call = some i →
    TrackerCall.writes call' = some i → call = call'
  hashed : ∀ i, settled s i = true → (s.slots i).symbolHash = (shown s i).hash
  single : ∀ i j, settled s i = true → settled s j = true → shown s i = shown s j → i = j
  known : ∀ i, settled s i = true → (s.slots i).position ∈ s.opened ∨
    ∃ call ∈ s.calls, call.symbol = shown s i ∧ ∃ j ≤ i, TrackerCall.closesFrom call = some j
  kept : ∀ pos ∈ s.opened, ∃ i, settled s i = true ∧ (s.slots i).position = pos
  apart : ∀ call ∈ s.calls, TrackerCall.changes call = true →
    ∀ pos ∈ s.opened, pos.symbol ≠ call.symbol
  beyond : ∀ i, slotCount ≤ i → (s.slots i).active = false
  counted : s.positionCount = (List.range slotCount).countP (settled s)

variable {s : SharedTracker} {call call' : TrackerCall}

/-- A slot is being written where a call under way is writing it. -/
theorem beingWritten_iff (s : SharedTracker) (i : ℕ) :
    beingWritten s i = true ↔ ∃ call ∈ s.calls, TrackerCall.writes call = some i := by
  simp [beingWritten]

/-- A settled slot is active, and no call is writing it. -/
theorem settled_iff (s : SharedTracker) (i : ℕ) :
    settled s i = true ↔
      i < slotCount ∧ (s.slots i).active = true ∧ beingWritten s i = false := by
  simp [settled, and_assoc]

/-- Two calls of one symbol are the same call. -/
theorem SlotsOwned.eq_of_symbol (h : SlotsOwned s) (hcall : call ∈ s.calls)
    (hcall' : call' ∈ s.calls) (hsymbol : call.symbol = call'.symbol) : call = call' :=
  List.inj_on_of_nodup_map h.distinct hcall hcall' hsymbol

/-- A call that goes on replaces the one of its symbol. -/
theorem mem_goOn (hcall : call ∈ s.calls) (hsymbol : call'.symbol = call.symbol)
    (c : TrackerCall) :
    c ∈ (s.goOn call').calls ↔ c = call' ∨ c ∈ s.calls ∧ c.symbol ≠ call.symbol := by
  simp only [SharedTracker.goOn, List.mem_map, hsymbol]
  constructor
  · rintro ⟨c', hmem, rfl⟩
    split_ifs with hsame
    · exact Or.inl rfl
    · exact Or.inr ⟨hmem, hsame⟩
  · rintro (rfl | ⟨hmem, hne⟩)
    · exact ⟨call, hcall, if_pos rfl⟩
    · exact ⟨c, hmem, if_neg hne⟩

/-- A call that ends is the only one removed. -/
theorem mem_finish (symbol : SymbolId) (c : TrackerCall) :
    c ∈ (s.finish symbol).calls ↔ c ∈ s.calls ∧ c.symbol ≠ symbol := by
  simp [SharedTracker.finish]

/-- A call that goes on leaves one call for each symbol. -/
theorem distinct_goOn (h : SlotsOwned s) :
    ((s.goOn call').calls.map TrackerCall.symbol).Nodup := by
  have hsame : (s.goOn call').calls.map TrackerCall.symbol =
      s.calls.map TrackerCall.symbol := by
    simp only [SharedTracker.goOn, List.map_map]
    refine List.map_congr_left ?_
    intro c _
    simp only [Function.comp_apply]
    split_ifs with hc
    · exact hc.symm
    · rfl
  rw [hsame]
  exact h.distinct

/-- A call that ends leaves one call for each symbol. -/
theorem distinct_finish (symbol : SymbolId) (h : SlotsOwned s) :
    ((s.finish symbol).calls.map TrackerCall.symbol).Nodup :=
  h.distinct.sublist (List.filter_sublist.map TrackerCall.symbol)

/-! ## Steps that settle no slot -/

/-- The slots are the same, and so are the writers. -/
theorem settled_congr {s s' : SharedTracker} (hslots : s'.slots = s.slots)
    (hwriters : ∀ i, beingWritten s' i = beingWritten s i) : settled s' = settled s := by
  funext i
  simp only [settled, hslots, hwriters]

/-- A call that claims nothing takes no writer away when it returns. -/
theorem beingWritten_of_finished {s s' : SharedTracker} (h : SlotsOwned s) (hcall : call ∈ s.calls)
    (hwrites : TrackerCall.writes call = none)
    (hmem : ∀ c, c ∈ s'.calls ↔ c ∈ s.calls ∧ c.symbol ≠ call.symbol) (i : ℕ) :
    beingWritten s' i = beingWritten s i := by
  rw [Bool.eq_iff_iff, beingWritten_iff, beingWritten_iff]
  constructor
  · rintro ⟨c, hc, hi⟩
    exact ⟨c, ((hmem c).mp hc).1, hi⟩
  · rintro ⟨c, hc, hi⟩
    refine ⟨c, (hmem c).mpr ⟨hc, ?_⟩, hi⟩
    intro hsame
    rw [h.eq_of_symbol hc hcall hsame, hwrites] at hi
    cases hi

/-- A step that neither settles nor closes a slot has to keep the calls in order. -/
theorem slotsOwned_of_settled {s s' : SharedTracker} (h : SlotsOwned s)
    (hsettled : settled s' = settled s)
    (hslots : ∀ i, settled s i = true → s'.slots i = s.slots i)
    (hopened : s'.opened = s.opened) (hcount : s'.positionCount = s.positionCount)
    (hclosers : ∀ i, settled s i = true → ∀ call ∈ s.calls, call.symbol = shown s i →
      ∀ j ≤ i, TrackerCall.closesFrom call = some j →
        ∃ call' ∈ s'.calls, call'.symbol = shown s i ∧
          ∃ j' ≤ i, TrackerCall.closesFrom call' = some j')
    (hdistinct : (s'.calls.map TrackerCall.symbol).Nodup)
    (hclaimed : ∀ call ∈ s'.calls, ∀ i, TrackerCall.writes call = some i →
      i < slotCount ∧ (s'.slots i).active = true)
    (honeWriter : ∀ call ∈ s'.calls, ∀ call' ∈ s'.calls, ∀ i,
      TrackerCall.writes call = some i → TrackerCall.writes call' = some i → call = call')
    (hapart : ∀ call ∈ s'.calls, TrackerCall.changes call = true →
      ∀ pos ∈ s.opened, pos.symbol ≠ call.symbol)
    (hbeyond : ∀ i, slotCount ≤ i → (s'.slots i).active = false) : SlotsOwned s' where
  distinct := hdistinct
  claimed := hclaimed
  oneWriter := honeWriter
  hashed := fun i hi => by
    rw [hsettled] at hi
    rw [shown, hslots i hi]
    exact h.hashed i hi
  single := fun i j hi hj hsame => by
    rw [hsettled] at hi hj
    rw [shown, shown, hslots i hi, hslots j hj] at hsame
    exact h.single i j hi hj hsame
  known := fun i hi => by
    rw [hsettled] at hi
    rw [shown, hslots i hi, hopened]
    rcases h.known i hi with hold | ⟨call, hcall, hshown, j, hj, hfrom⟩
    · exact Or.inl hold
    · exact Or.inr (hclosers i hi call hcall hshown j hj hfrom)
  kept := fun pos hpos => by
    rw [hopened] at hpos
    obtain ⟨i, hi, hposition⟩ := h.kept pos hpos
    exact ⟨i, by rw [hsettled]; exact hi, by rw [hslots i hi]; exact hposition⟩
  apart := fun call hcall hchange pos hpos => hapart call hcall hchange pos (hopened ▸ hpos)
  beyond := hbeyond
  counted := by
    rw [hcount, hsettled]
    exact h.counted

/-- A call that claims nothing goes on; a close has passed no slot that is its own. -/
theorem slotsOwned_goOn (h : SlotsOwned s) (hcall : call ∈ s.calls)
    (hsymbol : call'.symbol = call.symbol)
    (hchanges : TrackerCall.changes call' = TrackerCall.changes call)
    (hwrites : TrackerCall.writes call = none) (hwrites' : TrackerCall.writes call' = none)
    (hpassed : ∀ i, settled s i = true → shown s i = call.symbol →
      ∀ j ≤ i, TrackerCall.closesFrom call = some j →
        ∃ j' ≤ i, TrackerCall.closesFrom call' = some j') :
    SlotsOwned (s.goOn call') := by
  have hmem := mem_goOn hcall hsymbol
  have hwriters : ∀ i, beingWritten (s.goOn call') i = beingWritten s i := by
    intro i
    rw [Bool.eq_iff_iff, beingWritten_iff, beingWritten_iff]
    constructor
    · rintro ⟨c, hc, hi⟩
      rcases (hmem c).mp hc with rfl | ⟨hold, -⟩
      · rw [hwrites'] at hi
        cases hi
      · exact ⟨c, hold, hi⟩
    · rintro ⟨c, hc, hi⟩
      refine ⟨c, (hmem c).mpr (Or.inr ⟨hc, ?_⟩), hi⟩
      intro hsame
      rw [h.eq_of_symbol hc hcall hsame, hwrites] at hi
      cases hi
  have hwriter : ∀ c ∈ (s.goOn call').calls, ∀ i, TrackerCall.writes c = some i →
      c ∈ s.calls := by
    intro c hc i hi
    rcases (hmem c).mp hc with rfl | ⟨hold, -⟩
    · rw [hwrites'] at hi
      cases hi
    · exact hold
  refine slotsOwned_of_settled h (settled_congr rfl hwriters) (fun _ _ => rfl) rfl rfl ?_
    (distinct_goOn h) (fun c hc i hi => h.claimed c (hwriter c hc i hi) i hi)
    (fun c hc c' hc' i hi hi' =>
      h.oneWriter c (hwriter c hc i hi) c' (hwriter c' hc' i hi') i hi hi') ?_ h.beyond
  · intro i hi c hc hshown j hj hfrom
    by_cases hsame : c.symbol = call.symbol
    · obtain rfl := h.eq_of_symbol hc hcall hsame
      obtain ⟨j', hj', hfrom'⟩ := hpassed i hi hshown.symm j hj hfrom
      exact ⟨call', (hmem call').mpr (Or.inl rfl), hsymbol.trans hshown, j', hj', hfrom'⟩
    · exact ⟨c, (hmem c).mpr (Or.inr ⟨hc, hsame⟩), hshown, j, hj, hfrom⟩
  · intro c hc hchange pos hpos
    rcases (hmem c).mp hc with rfl | ⟨hold, -⟩
    · rw [hsymbol]
      exact h.apart call hcall (hchanges ▸ hchange) pos hpos
    · exact h.apart c hold hchange pos hpos

/-- A call that claims nothing returns; a close has no slot left that is its own. -/
theorem slotsOwned_finish (h : SlotsOwned s) (hcall : call ∈ s.calls)
    (hwrites : TrackerCall.writes call = none)
    (hdone : ∀ i, settled s i = true → shown s i = call.symbol →
      ∀ j ≤ i, TrackerCall.closesFrom call ≠ some j) :
    SlotsOwned (s.finish call.symbol) := by
  have hwriters : ∀ i, beingWritten (s.finish call.symbol) i = beingWritten s i :=
    beingWritten_of_finished h hcall hwrites (mem_finish call.symbol)
  have hold : ∀ c ∈ (s.finish call.symbol).calls, c ∈ s.calls :=
    fun c hc => ((mem_finish _ c).mp hc).1
  refine slotsOwned_of_settled h (settled_congr rfl hwriters) (fun _ _ => rfl) rfl rfl ?_
    (distinct_finish _ h) (fun c hc => h.claimed c (hold c hc))
    (fun c hc c' hc' => h.oneWriter c (hold c hc) c' (hold c' hc'))
    (fun c hc => h.apart c (hold c hc)) h.beyond
  intro i hi c hc hshown j hj hfrom
  refine ⟨c, (mem_finish _ c).mpr ⟨hc, ?_⟩, hshown, j, hj, hfrom⟩
  intro hsame
  obtain rfl := h.eq_of_symbol hc hcall hsame
  exact hdone i hi hshown.symm j hj hfrom

/-! ## New calls -/

/-- A loop that is in no call starts one; what a close takes out of the opened positions it has
still to find. -/
theorem slotsOwned_start (opened : List Position) (h : SlotsOwned s)
    (hfree : ∀ c ∈ s.calls, c.symbol ≠ call.symbol) (hwrites : TrackerCall.writes call = none)
    (hsub : ∀ pos ∈ opened, pos ∈ s.opened)
    (hlost : ∀ pos ∈ s.opened, pos ∈ opened ∨
      pos.symbol = call.symbol ∧ TrackerCall.closesFrom call = some 0)
    (hapart : TrackerCall.changes call = true → ∀ pos ∈ opened, pos.symbol ≠ call.symbol) :
    SlotsOwned { s with calls := s.calls ++ [call], opened := opened } := by
  have hwriters : ∀ i, beingWritten
      { s with calls := s.calls ++ [call], opened := opened } i = beingWritten s i := by
    intro i
    simp [beingWritten, hwrites]
  have hsettled : settled { s with calls := s.calls ++ [call], opened := opened } = settled s :=
    settled_congr rfl hwriters
  have hwriter : ∀ c ∈ s.calls ++ [call], ∀ i, TrackerCall.writes c = some i → c ∈ s.calls := by
    intro c hc i hi
    rcases List.mem_append.mp hc with hold | hnew
    · exact hold
    · rw [List.mem_singleton.mp hnew, hwrites] at hi
      cases hi
  constructor
  · simp only [List.map_append, List.map_cons, List.map_nil]
    refine List.nodup_append.mpr ⟨h.distinct, List.nodup_singleton _, ?_⟩
    intro symbol hmem other hother
    obtain ⟨c, hc, rfl⟩ := List.mem_map.mp hmem
    rw [List.mem_singleton.mp hother]
    exact hfree c hc
  · exact fun c hc i hi => h.claimed c (hwriter c hc i hi) i hi
  · exact fun c hc c' hc' i hi hi' =>
      h.oneWriter c (hwriter c hc i hi) c' (hwriter c' hc' i hi') i hi hi'
  · rw [hsettled]
    exact h.hashed
  · rw [hsettled]
    exact h.single
  · rw [hsettled]
    intro i hi
    rcases h.known i hi with hopened | ⟨c, hc, hshown, hfrom⟩
    · rcases hlost _ hopened with hstill | ⟨hown, hfrom⟩
      · exact Or.inl hstill
      · right
        exact ⟨call, by simp, hown.symm, 0, Nat.zero_le i, hfrom⟩
    · exact Or.inr ⟨c, List.mem_append_left _ hc, hshown, hfrom⟩
  · rw [hsettled]
    exact fun pos hpos => h.kept pos (hsub pos hpos)
  · intro c hc hchange pos hpos
    rcases List.mem_append.mp hc with hold | hnew
    · exact h.apart c hold hchange pos (hsub pos hpos)
    · rw [List.mem_singleton.mp hnew] at hchange ⊢
      exact hapart hchange pos hpos
  · exact h.beyond
  · rw [hsettled]
    exact h.counted

/-! ## Claiming, writing and closing a slot -/

/-- A predicate that becomes true at one index of a range is counted once more. -/
theorem countP_range_flip {n i : ℕ} {p q : ℕ → Bool} (hi : i < n) (hp : p i = false)
    (hq : q i = true) (hsame : ∀ j, j ≠ i → q j = p j) :
    (List.range n).countP q = (List.range n).countP p + 1 := by
  have hcount : ∀ m, (List.range m).countP q =
      (List.range m).countP p + if i < m then 1 else 0 := by
    intro m
    induction m with
    | zero => simp
    | succ m ih =>
      rw [List.range_succ, List.countP_append, List.countP_append, ih, List.countP_singleton,
        List.countP_singleton]
      by_cases hm : m = i
      · subst hm
        simp [hp, hq]
      · rw [hsame m hm]
        split_ifs <;> omega
  rw [hcount n, if_pos hi]

/-- A claimed slot is not settled, before or after the claim, and no other slot changes. -/
theorem settled_claim {s s' : SharedTracker} {pos : Position} {i : ℕ} (h : SlotsOwned s)
    (hcall : TrackerCall.openSlot pos i ∈ s.calls) (hinactive : (s.slots i).active = false)
    (hother : ∀ j, j ≠ i → s'.slots j = s.slots j)
    (hmem : ∀ c, c ∈ s'.calls ↔ c = .openWrite pos i ∨ c ∈ s.calls ∧ c.symbol ≠ pos.symbol) :
    settled s' = settled s := by
  have hwriters : ∀ j, beingWritten s' j = true ↔ j = i ∨ beingWritten s j = true := by
    intro j
    rw [beingWritten_iff, beingWritten_iff]
    constructor
    · rintro ⟨c, hc, hj⟩
      rcases (hmem c).mp hc with rfl | ⟨hold, -⟩
      · left
        exact (Option.some.inj hj).symm
      · exact Or.inr ⟨c, hold, hj⟩
    · rintro (rfl | ⟨c, hc, hj⟩)
      · exact ⟨_, (hmem _).mpr (Or.inl rfl), rfl⟩
      · refine ⟨c, (hmem c).mpr (Or.inr ⟨hc, ?_⟩), hj⟩
        intro hsame
        rw [h.eq_of_symbol hc hcall hsame] at hj
        cases hj
  funext j
  rw [Bool.eq_iff_iff, settled_iff, settled_iff, ← Bool.not_eq_true, ← Bool.not_eq_true,
    hwriters j]
  by_cases hj : j = i
  · subst hj
    simp [hinactive]
  · rw [hother j hj]
    simp [hj]

/-- The compare-exchange of an open succeeds. -/
theorem slotsOwned_claim {pos : Position} {i : ℕ} (h : SlotsOwned s)
    (hcall : TrackerCall.openSlot pos i ∈ s.calls) (hi : i < slotCount)
    (hinactive : (s.slots i).active = false) :
    SlotsOwned ((s.setSlot i { s.slots i with active := true }).goOn (.openWrite pos i)) := by
  have hother : ∀ j, j ≠ i →
      (s.setSlot i { s.slots i with active := true }).slots j = s.slots j := fun j hj => if_neg hj
  have hself : ((s.setSlot i { s.slots i with active := true }).slots i).active = true := by
    simp [SharedTracker.setSlot]
  generalize hs' : s.setSlot i { s.slots i with active := true } = s' at hother hself ⊢
  have hcalls : s'.calls = s.calls := by rw [← hs']; rfl
  have hmem : ∀ c, c ∈ (s'.goOn (.openWrite pos i)).calls ↔
      c = .openWrite pos i ∨ c ∈ s.calls ∧ c.symbol ≠ pos.symbol := by
    intro c
    rw [← hcalls]
    exact mem_goOn (hcalls ▸ hcall)
      (show (TrackerCall.openWrite pos i).symbol = (TrackerCall.openSlot pos i).symbol from rfl) c
  -- an inactive slot has no writer yet
  have hunclaimed : ∀ c ∈ s.calls, TrackerCall.writes c ≠ some i := by
    intro c hc hwrites
    rw [(h.claimed c hc i hwrites).2] at hinactive
    cases hinactive
  have hsettled : settled (s'.goOn (.openWrite pos i)) = settled s :=
    settled_claim h hcall hinactive hother hmem
  have hsettledNe : ∀ j, settled s j = true → j ≠ i := by
    rintro j hj rfl
    rw [((settled_iff s j).mp hj).2.1] at hinactive
    cases hinactive
  refine slotsOwned_of_settled h hsettled (fun j hj => hother j (hsettledNe j hj)) ?_ ?_ ?_ ?_
    ?_ ?_ ?_ ?_
  · rw [← hs']
    rfl
  · rw [← hs']
    rfl
  · intro j _ c hc hshown k hk hfrom
    refine ⟨c, (hmem c).mpr (Or.inr ⟨hc, ?_⟩), hshown, k, hk, hfrom⟩
    intro hsame
    rw [h.eq_of_symbol hc hcall hsame] at hfrom
    cases hfrom
  · have hsame : (s'.goOn (.openWrite pos i)).calls = (s.goOn (.openWrite pos i)).calls := by
      simp only [SharedTracker.goOn, hcalls]
    rw [hsame]
    exact distinct_goOn h
  · intro c hc j hj
    rcases (hmem c).mp hc with rfl | ⟨hold, -⟩
    · obtain rfl := Option.some.inj hj
      exact ⟨hi, hself⟩
    · have hne : j ≠ i := by
        rintro rfl
        exact hunclaimed c hold hj
      show j < slotCount ∧ (s'.slots j).active = true
      rw [hother j hne]
      exact h.claimed c hold j hj
  · intro c hc c' hc' j hj hj'
    rcases (hmem c).mp hc with rfl | ⟨hold, -⟩
    · rcases (hmem c').mp hc' with rfl | ⟨hold', -⟩
      · rfl
      · obtain rfl := Option.some.inj hj
        exact absurd hj' (hunclaimed c' hold')
    · rcases (hmem c').mp hc' with rfl | ⟨hold', -⟩
      · obtain rfl := Option.some.inj hj'
        exact absurd hj (hunclaimed c hold)
      · exact h.oneWriter c hold c' hold' j hj hj'
  · intro c hc hchange
    rcases (hmem c).mp hc with rfl | ⟨hold, -⟩
    · exact h.apart (.openSlot pos i) hcall rfl
    · exact h.apart c hold hchange
  · intro j hj
    show (s'.slots j).active = false
    rw [hother j (by omega)]
    exact h.beyond j hj

/-- The write ends the claim of its slot and no other. -/
theorem beingWritten_openWrite {pos : Position} {i : ℕ} (h : SlotsOwned s)
    (hcall : TrackerCall.openWrite pos i ∈ s.calls) (j : ℕ) :
    beingWritten (s.openWrite pos i) j = true ↔ j ≠ i ∧ beingWritten s j = true := by
  have hmem : ∀ c, c ∈ (s.openWrite pos i).calls ↔ c ∈ s.calls ∧ c.symbol ≠ pos.symbol :=
    fun c => mem_finish pos.symbol c
  rw [beingWritten_iff, beingWritten_iff]
  constructor
  · rintro ⟨c, hc, hj⟩
    obtain ⟨hold, hdiffers⟩ := (hmem c).mp hc
    refine ⟨?_, c, hold, hj⟩
    rintro rfl
    rw [h.oneWriter c hold _ hcall j hj rfl] at hdiffers
    exact hdiffers rfl
  · rintro ⟨hne, c, hc, hj⟩
    refine ⟨c, (hmem c).mpr ⟨hc, ?_⟩, hj⟩
    intro hsame
    rw [h.eq_of_symbol hc hcall hsame] at hj
    exact hne (Option.some.inj hj).symm

/-- The write settles its slot and leaves the others as they are. -/
theorem settled_openWrite {pos : Position} {i : ℕ} (h : SlotsOwned s)
    (hcall : TrackerCall.openWrite pos i ∈ s.calls) :
    settled s i = false ∧ settled (s.openWrite pos i) i = true ∧
      ∀ j, j ≠ i → settled (s.openWrite pos i) j = settled s j := by
  obtain ⟨hi, hactive⟩ := h.claimed _ hcall i rfl
  refine ⟨?_, ?_, ?_⟩
  · rw [← Bool.not_eq_true, settled_iff]
    rintro ⟨-, -, hfree⟩
    rw [(beingWritten_iff s i).mpr ⟨_, hcall, rfl⟩] at hfree
    cases hfree
  · have hself : (s.openWrite pos i).slots i =
        { s.slots i with symbolHash := pos.symbol.hash, position := pos } := if_pos rfl
    rw [settled_iff, hself, ← Bool.not_eq_true, beingWritten_openWrite h hcall]
    exact ⟨hi, hactive, fun hwritten => hwritten.1 rfl⟩
  · intro j hj
    have hother : (s.openWrite pos i).slots j = s.slots j := if_neg hj
    rw [Bool.eq_iff_iff, settled_iff, settled_iff, hother, ← Bool.not_eq_true,
      ← Bool.not_eq_true, beingWritten_openWrite h hcall]
    simp [hj]

/-- While a symbol is being written no settled slot shows it. -/
theorem SlotsOwned.shown_ne_of_openWrite {pos : Position} {i : ℕ} (h : SlotsOwned s)
    (hcall : TrackerCall.openWrite pos i ∈ s.calls) {j : ℕ} (hj : settled s j = true) :
    shown s j ≠ pos.symbol := by
  intro hshown
  rcases h.known j hj with hopened | ⟨c, hc, hc', k, -, hfrom⟩
  · exact h.apart _ hcall rfl _ hopened hshown
  · rw [h.eq_of_symbol hc hcall (hc'.trans hshown)] at hfrom
    cases hfrom

/-- The claimed slot is written. -/
theorem slotsOwned_write {pos : Position} {i : ℕ} (h : SlotsOwned s)
    (hcall : TrackerCall.openWrite pos i ∈ s.calls) : SlotsOwned (s.openWrite pos i) := by
  obtain ⟨hi, -⟩ := h.claimed _ hcall i rfl
  obtain ⟨hbefore, hafter, hsame⟩ := settled_openWrite h hcall
  have hother : ∀ j, j ≠ i → (s.openWrite pos i).slots j = s.slots j := fun j hj => if_neg hj
  have hself : (s.openWrite pos i).slots i =
      { s.slots i with symbolHash := pos.symbol.hash, position := pos } := if_pos rfl
  have hmem : ∀ c, c ∈ (s.openWrite pos i).calls ↔ c ∈ s.calls ∧ c.symbol ≠ pos.symbol :=
    fun c => mem_finish pos.symbol c
  have hold : ∀ c ∈ (s.openWrite pos i).calls, c ∈ s.calls := fun c hc => ((hmem c).mp hc).1
  have hnone : ∀ j, settled s j = true → shown s j ≠ pos.symbol := fun j hj =>
    h.shown_ne_of_openWrite hcall hj
  have hshownSelf : shown (s.openWrite pos i) i = pos.symbol := by rw [shown, hself]
  have hshown : ∀ j, j ≠ i → shown (s.openWrite pos i) j = shown s j := by
    intro j hj
    rw [shown, hother j hj, shown]
  constructor
  case distinct =>
    show ((s.finish pos.symbol).calls.map TrackerCall.symbol).Nodup
    exact distinct_finish pos.symbol h
  case claimed =>
    intro c hc j hj
    have hne : j ≠ i := by
      rintro rfl
      have hwritten := (beingWritten_iff _ j).mpr ⟨c, hc, hj⟩
      exact ((beingWritten_openWrite h hcall j).mp hwritten).1 rfl
    rw [hother j hne]
    exact h.claimed c (hold c hc) j hj
  case oneWriter => exact fun c hc c' hc' => h.oneWriter c (hold c hc) c' (hold c' hc')
  case hashed =>
    intro j hj
    by_cases hji : j = i
    · rw [hji, hshownSelf, hself]
    · rw [hsame j hji] at hj
      rw [hother j hji, hshown j hji]
      exact h.hashed j hj
  case single =>
    intro j k hj hk heq
    by_cases hji : j = i
    · by_cases hki : k = i
      · rw [hji, hki]
      · rw [hji, hshownSelf, hshown k hki] at heq
        rw [hsame k hki] at hk
        exact absurd heq.symm (hnone k hk)
    · by_cases hki : k = i
      · rw [hki, hshownSelf, hshown j hji] at heq
        rw [hsame j hji] at hj
        exact absurd heq (hnone j hj)
      · rw [hsame j hji] at hj
        rw [hsame k hki] at hk
        rw [hshown j hji, hshown k hki] at heq
        exact h.single j k hj hk heq
  case known =>
    intro j hj
    by_cases hji : j = i
    · left
      rw [hji, hself]
      exact List.mem_append_right _ (List.mem_singleton.mpr rfl)
    · rw [hsame j hji] at hj
      rw [hother j hji, hshown j hji]
      rcases h.known j hj with hopened | ⟨c, hc, hc', hfrom⟩
      · exact Or.inl (List.mem_append_left _ hopened)
      · right
        refine ⟨c, (hmem c).mpr ⟨hc, ?_⟩, hc', hfrom⟩
        rw [hc']
        exact hnone j hj
  case kept =>
    intro other hother'
    rcases List.mem_append.mp hother' with holdPos | hnew
    · obtain ⟨j, hj, hposition⟩ := h.kept other holdPos
      have hji : j ≠ i := by
        rintro rfl
        rw [hbefore] at hj
        cases hj
      exact ⟨j, (hsame j hji).trans hj, by rw [hother j hji]; exact hposition⟩
    · rw [List.mem_singleton.mp hnew]
      exact ⟨i, hafter, by rw [hself]⟩
  case apart =>
    intro c hc hchange other hother'
    rcases List.mem_append.mp hother' with holdPos | hnew
    · exact h.apart c (hold c hc) hchange other holdPos
    · rw [List.mem_singleton.mp hnew]
      exact ((hmem c).mp hc).2.symm
  case beyond =>
    intro j hj
    rw [hother j (by omega)]
    exact h.beyond j hj
  case counted =>
    show s.positionCount + 1 = _
    rw [countP_range_flip hi hbefore hafter hsame, h.counted]
    exact (Nat.cast_succ _).symm

/-- A close finds its symbol in a slot that nobody is writing. -/
theorem slotsOwned_close {symbol : SymbolId} {i : ℕ} (h : SlotsOwned s)
    (hcall : TrackerCall.closeLock symbol i ∈ s.calls) (hi : settled s i = true)
    (hown : shown s i = symbol) :
    SlotsOwned
      { (s.setSlot i { s.slots i with active := false }).finish symbol with
        positionCount := s.positionCount - 1 } := by
  generalize hs' :
    { (s.setSlot i { s.slots i with active := false }).finish symbol with
      positionCount := s.positionCount - 1 } = s'
  have hopened : s'.opened = s.opened := by rw [← hs']; rfl
  have hother : ∀ j, j ≠ i → s'.slots j = s.slots j := by
    intro j hj
    rw [← hs']
    exact if_neg hj
  have hself : (s'.slots i).active = false := by
    rw [← hs']
    simp [SharedTracker.setSlot, SharedTracker.finish]
  have hmem : ∀ c, c ∈ s'.calls ↔ c ∈ s.calls ∧ c.symbol ≠ symbol := by
    intro c
    rw [← hs']
    exact mem_finish symbol c
  have hold : ∀ c ∈ s'.calls, c ∈ s.calls := fun c hc => ((hmem c).mp hc).1
  have hwriters : ∀ j, beingWritten s' j = beingWritten s j :=
    beingWritten_of_finished h hcall rfl hmem
  have hafter : settled s' i = false := by
    rw [← Bool.not_eq_true, settled_iff, hself]
    simp
  have hsame : ∀ j, j ≠ i → settled s' j = settled s j := by
    intro j hj
    simp only [settled, hother j hj, hwriters j]
  have hstill : ∀ j, settled s' j = true → j ≠ i ∧ settled s j = true := by
    intro j hj
    have hji : j ≠ i := by
      rintro rfl
      rw [hafter] at hj
      cases hj
    exact ⟨hji, (hsame j hji).symm.trans hj⟩
  -- no other slot shows the symbol
  have hnone : ∀ j, settled s' j = true → shown s j ≠ symbol := by
    intro j hj hshown
    obtain ⟨hji, hbefore⟩ := hstill j hj
    exact hji (h.single j i hbefore hi (hshown.trans hown.symm))
  have hshown : ∀ j, settled s' j = true → shown s' j = shown s j := by
    intro j hj
    rw [shown, hother j (hstill j hj).1, shown]
  constructor
  case distinct =>
    rw [← hs']
    show ((s.finish symbol).calls.map TrackerCall.symbol).Nodup
    exact distinct_finish symbol h
  case claimed =>
    intro c hc j hj
    have hji : j ≠ i := by
      rintro rfl
      rw [settled_iff, (beingWritten_iff s j).mpr ⟨c, hold c hc, hj⟩] at hi
      cases hi.2.2
    rw [hother j hji]
    exact h.claimed c (hold c hc) j hj
  case oneWriter => exact fun c hc c' hc' => h.oneWriter c (hold c hc) c' (hold c' hc')
  case hashed =>
    intro j hj
    rw [hother j (hstill j hj).1, hshown j hj]
    exact h.hashed j (hstill j hj).2
  case single =>
    intro j k hj hk heq
    rw [hshown j hj, hshown k hk] at heq
    exact h.single j k (hstill j hj).2 (hstill k hk).2 heq
  case known =>
    intro j hj
    rw [hother j (hstill j hj).1, hshown j hj, hopened]
    rcases h.known j (hstill j hj).2 with hpos | ⟨c, hc, hc', hfrom⟩
    · exact Or.inl hpos
    · right
      refine ⟨c, (hmem c).mpr ⟨hc, ?_⟩, hc', hfrom⟩
      rw [hc']
      exact hnone j hj
  case kept =>
    intro pos hpos
    rw [hopened] at hpos
    obtain ⟨j, hj, hposition⟩ := h.kept pos hpos
    have hji : j ≠ i := by
      rintro rfl
      refine h.apart _ hcall rfl pos hpos ?_
      rw [← hposition]
      exact hown
    exact ⟨j, (hsame j hji).trans hj, by rw [hother j hji]; exact hposition⟩
  case apart =>
    intro c hc hchange pos hpos
    rw [hopened] at hpos
    exact h.apart c (hold c hc) hchange pos hpos
  case beyond =>
    intro j hj
    by_cases hji : j = i
    · rw [hji]
      exact hself
    · rw [hother j hji]
      exact h.beyond j hj
  case counted =>
    have hcount := countP_range_flip ((settled_iff s i).mp hi).1 hafter hi
      fun j hj => (hsame j hj).symm
    have hposition : s'.positionCount = s.positionCount - 1 := by rw [← hs']
    rw [hposition, h.counted, hcount]
    omega

/-! ## Steps -/

/-- A symbol has a call where one of that symbol is under way. -/
theorem callOf_isSome_iff (s : SharedTracker) (symbol : SymbolId) :
    (s.callOf symbol).isSome = true ↔ ∃ c ∈ s.calls, c.symbol = symbol := by
  simp [SharedTracker.callOf, List.find?_isSome]

/-- The call of a symbol is under way, and is of that symbol. -/
theorem mem_of_callOf {symbol : SymbolId} (h : s.callOf symbol = some call) :
    call ∈ s.calls ∧ call.symbol = symbol :=
  ⟨List.mem_of_find?_eq_some h, by simpa using List.find?_some h⟩

/-- The results of earlier lookups do not matter. -/
theorem SlotsOwned.withFound (h : SlotsOwned s) (found : List (SymbolId × Option Position)) :
    SlotsOwned { s with found := found } :=
  ⟨h.distinct, h.claimed, h.oneWriter, h.hashed, h.single, h.known, h.kept, h.apart, h.beyond,
    h.counted⟩

/-- The claim of a slot keeps the owners of the slots. -/
theorem slotsOwned_openSlot {pos : Position} {i : ℕ} (h : SlotsOwned s)
    (hcall : TrackerCall.openSlot pos i ∈ s.calls) : SlotsOwned (s.openSlot pos i) := by
  unfold SharedTracker.openSlot
  split_ifs with hend hactive
  · exact slotsOwned_finish h hcall rfl fun _ _ _ _ _ => by simp [TrackerCall.closesFrom]
  · exact slotsOwned_goOn h hcall rfl rfl rfl rfl fun _ _ _ _ _ hfrom => by cases hfrom
  · exact slotsOwned_claim h hcall (Nat.lt_of_not_le hend) (by simpa using hactive)

/-- A close passes a slot that is not its own. -/
theorem slotsOwned_passes {symbol : SymbolId} {i : ℕ} (h : SlotsOwned s) (hcall : call ∈ s.calls)
    (hclose : call = .closeLoad symbol i ∨ call = .closeHash symbol i ∨
      call = .closeLock symbol i)
    (hpassed : settled s i = true → shown s i ≠ symbol) :
    SlotsOwned (s.goOn (.closeLoad symbol (i + 1))) := by
  have hgoes : TrackerCall.closesFrom call = some i := by
    rcases hclose with rfl | rfl | rfl <;> rfl
  have hsymbol : symbol = call.symbol := by rcases hclose with rfl | rfl | rfl <;> rfl
  refine slotsOwned_goOn h hcall hsymbol ?_ ?_ rfl ?_
  · rcases hclose with rfl | rfl | rfl <;> rfl
  · rcases hclose with rfl | rfl | rfl <;> rfl
  · intro j hj hown k hk hfrom
    obtain rfl := Option.some.inj (hgoes.symm.trans hfrom)
    have hne : j ≠ i := by
      rintro rfl
      exact hpassed hj (hown.trans hsymbol.symm)
    exact ⟨i + 1, by omega, rfl⟩

/-- The load of a slot's flag in `close_position` keeps them. -/
theorem slotsOwned_closeLoad {symbol : SymbolId} {i : ℕ} (h : SlotsOwned s)
    (hcall : TrackerCall.closeLoad symbol i ∈ s.calls) : SlotsOwned (s.closeLoad symbol i) := by
  unfold SharedTracker.closeLoad
  split_ifs with hend hactive
  · refine slotsOwned_finish h hcall rfl ?_
    intro j hj _ k hk hfrom
    have hlt := ((settled_iff s j).mp hj).1
    cases hfrom
    omega
  · exact slotsOwned_goOn h hcall rfl rfl rfl rfl fun _ _ _ k hk hfrom => ⟨k, hk, hfrom⟩
  · refine slotsOwned_passes h hcall (Or.inl rfl) ?_
    intro hi
    exact absurd ((settled_iff s i).mp hi).2.1 hactive

/-- The load of a slot's hash in `close_position` keeps them. -/
theorem slotsOwned_closeHash {symbol : SymbolId} {i : ℕ} (h : SlotsOwned s)
    (hcall : TrackerCall.closeHash symbol i ∈ s.calls) : SlotsOwned (s.closeHash symbol i) := by
  unfold SharedTracker.closeHash
  split_ifs with hhash
  · exact slotsOwned_goOn h hcall rfl rfl rfl rfl fun _ _ _ k hk hfrom => ⟨k, hk, hfrom⟩
  · refine slotsOwned_passes h hcall (Or.inr (Or.inl rfl)) ?_
    intro hi hown
    exact hhash ((h.hashed i hi).trans (congrArg SymbolId.hash hown))

/-- The locked part of `close_position` keeps them, unless it finds a slot that was claimed anew. -/
theorem slotsOwned_closeLock {symbol : SymbolId} {i : ℕ} (h : SlotsOwned s)
    (hcall : TrackerCall.closeLock symbol i ∈ s.calls)
    (hfresh : takesClaimed s (.closeLock symbol i) = false) :
    SlotsOwned (s.closeLock symbol i) := by
  unfold SharedTracker.closeLock
  split_ifs with hpass
  · refine slotsOwned_passes h hcall (Or.inr (Or.inr rfl)) ?_
    intro hi
    rcases hpass with hinactive | hdiffers
    · rw [((settled_iff s i).mp hi).2.1] at hinactive
      cases hinactive
    · exact hdiffers
  · simp only [not_or, Bool.not_eq_false, not_not] at hpass
    obtain ⟨hactive, hown⟩ := hpass
    have hi : i < slotCount := by
      by_contra hge
      rw [h.beyond i (Nat.le_of_not_lt hge)] at hactive
      cases hactive
    have hwritten : beingWritten s i = false := by
      simpa [takesClaimed, hactive, shown, hown] using hfresh
    exact slotsOwned_close h hcall ((settled_iff s i).mpr ⟨hi, hactive, hwritten⟩) hown

/-- A lookup changes nothing. -/
theorem slotsOwned_get {symbol : SymbolId} {i : ℕ} (h : SlotsOwned s)
    (hcall : call ∈ s.calls) (hsymbol : call.symbol = symbol)
    (hget : call = .getLoad symbol i ∨ call = .getHash symbol i ∨ call = .getLock symbol i) :
    SlotsOwned (s.advanceCall call) := by
  have hfrom : ∀ j, TrackerCall.closesFrom call ≠ some j := by
    intro j
    rcases hget with rfl | rfl | rfl <;> simp [TrackerCall.closesFrom]
  have hwrites : TrackerCall.writes call = none := by
    rcases hget with rfl | rfl | rfl <;> rfl
  have hchanges : TrackerCall.changes call = false := by
    rcases hget with rfl | rfl | rfl <;> rfl
  have hgoes : ∀ next : TrackerCall, next.symbol = symbol → TrackerCall.changes next = false →
      TrackerCall.writes next = none → SlotsOwned (s.goOn next) := by
    intro next hnext hnone hnextWrites
    exact slotsOwned_goOn h hcall (hnext.trans hsymbol.symm) (hnone.trans hchanges.symm) hwrites
      hnextWrites fun _ _ _ j _ hj => absurd hj (hfrom j)
  have hreturns : ∀ result, SlotsOwned (s.returnFound symbol result) := by
    intro result
    have hfinish := slotsOwned_finish h hcall hwrites fun _ _ _ j _ => hfrom j
    rw [hsymbol] at hfinish
    exact hfinish.withFound _
  rcases hget with rfl | rfl | rfl
  · simp only [SharedTracker.advanceCall, SharedTracker.getLoad]
    split_ifs
    · exact hreturns none
    · exact hgoes _ rfl rfl rfl
    · exact hgoes _ rfl rfl rfl
  · simp only [SharedTracker.advanceCall, SharedTracker.getHash]
    split_ifs
    · exact hgoes _ rfl rfl rfl
    · exact hgoes _ rfl rfl rfl
  · simp only [SharedTracker.advanceCall, SharedTracker.getLock]
    split_ifs
    · exact hreturns _
    · exact hgoes _ rfl rfl rfl

/-- A step in which no close takes a claimed slot for its own keeps the slots owned. -/
theorem slotsOwned_step (s : SharedTracker) (event : TrackerEvent) (h : SlotsOwned s)
    (hstep : StaleFree s event) : SlotsOwned (trackerStep s event) := by
  have hfree : ∀ symbol, ¬ (s.callOf symbol).isSome = true →
      ∀ c ∈ s.calls, c.symbol ≠ symbol := by
    intro symbol hnone c hc hsame
    exact hnone ((callOf_isSome_iff s symbol).mpr ⟨c, hc, hsame⟩)
  cases event with
  | openPosition pos =>
    simp only [trackerStep]
    split_ifs with hbusy
    · exact h
    · simp only [Bool.or_eq_true, not_or] at hbusy
      refine slotsOwned_start s.opened h (hfree pos.symbol hbusy.1) rfl
        (fun _ hpos => hpos) (fun _ hpos => Or.inl hpos) ?_
      intro _ other hother hsame
      refine hbusy.2 (List.any_eq_true.mpr ⟨other, hother, ?_⟩)
      exact decide_eq_true hsame
  | closePosition symbol =>
    simp only [trackerStep]
    split_ifs with hbusy
    · exact h
    · refine slotsOwned_start _ h (hfree symbol hbusy) rfl ?_ ?_ ?_
      · intro pos hpos
        exact (List.mem_filter.mp hpos).1
      · intro pos hpos
        by_cases hsame : pos.symbol = symbol
        · exact Or.inr ⟨hsame, rfl⟩
        · exact Or.inl (List.mem_filter.mpr ⟨hpos, by simpa using hsame⟩)
      · intro _ pos hpos
        exact of_decide_eq_true (List.mem_filter.mp hpos).2
  | getPosition symbol =>
    simp only [trackerStep]
    split_ifs with hbusy
    · exact h
    · exact slotsOwned_start s.opened h (hfree symbol hbusy) rfl
        (fun _ hpos => hpos) (fun _ hpos => Or.inl hpos) (fun hchange => by cases hchange)
  | advance symbol =>
    simp only [trackerStep]
    cases hcallOf : s.callOf symbol with
    | none => exact h
    | some call =>
      obtain ⟨hcall, hsymbol⟩ := mem_of_callOf hcallOf
      have hfresh := hstep call hcallOf
      cases call with
      | openSlot pos i => exact slotsOwned_openSlot h hcall
      | openWrite pos i => exact slotsOwned_write h hcall
      | closeLoad symbol i => exact slotsOwned_closeLoad h hcall
      | closeHash symbol i => exact slotsOwned_closeHash h hcall
      | closeLock symbol i => exact slotsOwned_closeLock h hcall hfresh
      | getLoad symbol i => exact slotsOwned_get h hcall rfl (Or.inl rfl)
      | getHash symbol i => exact slotsOwned_get h hcall rfl (Or.inr (Or.inl rfl))
      | getLock symbol i => exact slotsOwned_get h hcall rfl (Or.inr (Or.inr rfl))

/-- No slot is active at the start. -/
theorem slotsOwned_initial : SlotsOwned {} := by
  have hnone : ∀ i, settled {} i = false := by
    intro i
    simp [settled]
  constructor
  · exact List.nodup_nil
  · intro call hcall
    cases hcall
  · intro call hcall
    cases hcall
  · intro i hi
    rw [hnone i] at hi
    cases hi
  · intro i j hi
    rw [hnone i] at hi
    cases hi
  · intro i hi
    rw [hnone i] at hi
    cases hi
  · intro pos hpos
    cases hpos
  · intro call hcall
    cases hcall
  · intro i _
    rfl
  · symm
    rw [Nat.cast_eq_zero, List.countP_eq_zero]
    intro i _
    simp [hnone i]

/-! ## A lookup that runs alone -/

/-- The loop of a symbol makes `n` steps in a row. -/
def advances (s : SharedTracker) (symbol : SymbolId) (n : ℕ) : SharedTracker :=
  (List.replicate n (TrackerEvent.advance symbol)).foldl trackerStep s

/-- Advancing a call twice is advancing it by the sum. -/
theorem advances_add (s : SharedTracker) (symbol : SymbolId) (m n : ℕ) :
    advances s symbol (m + n) = advances (advances s symbol m) symbol n := by
  unfold advances
  rw [List.replicate_add, List.foldl_append]

/-- The tracker with no call but the given one. -/
def alone (s : SharedTracker) (call : TrackerCall) : SharedTracker := { s with calls := [call] }

/-- A call that is alone takes its own step. -/
theorem trackerStep_alone (s : SharedTracker) (call : TrackerCall) :
    trackerStep (alone s call) (.advance call.symbol) = (alone s call).advanceCall call := by
  simp [trackerStep, SharedTracker.callOf, alone]

/-- A call that is alone goes on alone. -/
theorem goOn_alone (s : SharedTracker) (call next : TrackerCall)
    (hsymbol : next.symbol = call.symbol) : (alone s call).goOn next = alone s next := by
  simp [SharedTracker.goOn, alone, hsymbol]

variable (s) (symbol : SymbolId) (i : ℕ)

/-- A reader that is alone goes from an active slot to its hash, and from another to the next slot.
-/
theorem getLoad_alone (hi : i < slotCount) :
    trackerStep (alone s (.getLoad symbol i)) (.advance symbol) =
      if (s.slots i).active then alone s (.getHash symbol i)
      else alone s (.getLoad symbol (i + 1)) := by
  refine (trackerStep_alone s (.getLoad symbol i)).trans ?_
  simp only [SharedTracker.advanceCall, SharedTracker.getLoad, if_neg (Nat.not_le_of_lt hi)]
  rw [goOn_alone s (.getLoad symbol i) (.getHash symbol i) rfl,
    goOn_alone s (.getLoad symbol i) (.getLoad symbol (i + 1)) rfl]
  rfl

/-- From the hash it goes to the lock where the hash is that of its symbol. -/
theorem getHash_alone :
    trackerStep (alone s (.getHash symbol i)) (.advance symbol) =
      if (s.slots i).symbolHash = symbol.hash then alone s (.getLock symbol i)
      else alone s (.getLoad symbol (i + 1)) := by
  refine (trackerStep_alone s (.getHash symbol i)).trans ?_
  simp only [SharedTracker.advanceCall, SharedTracker.getHash]
  rw [goOn_alone s (.getHash symbol i) (.getLock symbol i) rfl,
    goOn_alone s (.getHash symbol i) (.getLoad symbol (i + 1)) rfl]
  rfl

/-- Behind the lock it returns the position of a slot that is still its symbol's. -/
theorem getLock_alone :
    trackerStep (alone s (.getLock symbol i)) (.advance symbol) =
      if (s.slots i).active = true ∧ shown s i = symbol then
        { s with calls := [], found := s.found ++ [(symbol, some (s.slots i).position)] }
      else alone s (.getLoad symbol (i + 1)) := by
  refine (trackerStep_alone s (.getLock symbol i)).trans ?_
  have hfinish : (alone s (.getLock symbol i)).finish symbol = { s with calls := [] } := by
    simp [SharedTracker.finish, alone, TrackerCall.symbol]
  simp only [SharedTracker.advanceCall, SharedTracker.getLock, SharedTracker.returnFound, hfinish]
  rw [goOn_alone s (.getLock symbol i) (.getLoad symbol (i + 1)) rfl]
  rfl

/-- A lookup that runs alone passes a slot that does not show its symbol. -/
theorem advances_pass (hi : i < slotCount)
    (hother : ¬ ((s.slots i).active = true ∧ shown s i = symbol)) :
    ∃ n, advances (alone s (.getLoad symbol i)) symbol n = alone s (.getLoad symbol (i + 1)) := by
  have hload := getLoad_alone s symbol i hi
  have hhash := getHash_alone s symbol i
  have hlock := getLock_alone s symbol i
  rw [if_neg hother] at hlock
  by_cases hactive : (s.slots i).active = true
  · rw [if_pos hactive] at hload
    by_cases hsame : (s.slots i).symbolHash = symbol.hash
    · rw [if_pos hsame] at hhash
      refine ⟨3, ?_⟩
      simp only [advances, List.replicate, List.foldl_cons, List.foldl_nil, hload, hhash, hlock]
    · rw [if_neg hsame] at hhash
      refine ⟨2, ?_⟩
      simp only [advances, List.replicate, List.foldl_cons, List.foldl_nil, hload, hhash]
  · rw [if_neg hactive] at hload
    refine ⟨1, ?_⟩
    simp only [advances, List.replicate, List.foldl_cons, List.foldl_nil, hload]

/-- A lookup that runs alone returns the position of the first slot that shows its symbol. -/
theorem advances_found {target : ℕ} (htarget : target < slotCount)
    (hactive : (s.slots target).active = true) (hown : shown s target = symbol)
    (hhash : (s.slots target).symbolHash = symbol.hash)
    (hfirst : ∀ j < target, ¬ ((s.slots j).active = true ∧ shown s j = symbol)) (d : ℕ)
    (hd : i + d = target) :
    ∃ n, advances (alone s (.getLoad symbol i)) symbol n =
      { s with calls := [], found := s.found ++ [(symbol, some (s.slots target).position)] } := by
  induction d generalizing i with
  | zero =>
    obtain rfl : i = target := by omega
    have hload := getLoad_alone s symbol i htarget
    have hcompare := getHash_alone s symbol i
    have hlock := getLock_alone s symbol i
    rw [if_pos hactive] at hload
    rw [if_pos hhash] at hcompare
    rw [if_pos ⟨hactive, hown⟩] at hlock
    refine ⟨3, ?_⟩
    simp only [advances, List.replicate, List.foldl_cons, List.foldl_nil, hload, hcompare, hlock]
  | succ d ih =>
    obtain ⟨m, hm⟩ := advances_pass s symbol i (by omega) (hfirst i (by omega))
    obtain ⟨n, hn⟩ := ih (i + 1) (by omega)
    exact ⟨m + n, by rw [advances_add, hm, hn]⟩

/-! ## Runs -/

/-- The owners are kept in a run without a claim between the hash and the lock of a closing call. -/
theorem slotsOwned_run (events : List TrackerEvent)
    (hrun : Run.Along StaleFree trackerStep {} events) : SlotsOwned (runTracker events) :=
  Run.invariant SlotsOwned (fun s event => slotsOwned_step s event) events {} slotsOwned_initial
    hrun

/-- In a run in which no `close_position` takes a slot for its own that another loop has claimed
and not yet written, no slot is deactivated while it is being opened; and once all calls have
returned, every opened position that has not been closed is found by `get_position`, and the
count is the number of active slots. -/
theorem openedPositions_found (events : List TrackerEvent)
    (hrun : Run.Along StaleFree trackerStep {} events) :
    let s := runTracker events
    (∀ pos i, TrackerCall.openWrite pos i ∈ s.calls → (s.slots i).active = true) ∧
      (s.calls = [] →
        (∀ pos ∈ s.opened, ∃ n,
          (advances (trackerStep s (.getPosition pos.symbol)) pos.symbol n).found =
            s.found ++ [(pos.symbol, some pos)]) ∧
        s.positionCount = (List.range slotCount).countP fun i => (s.slots i).active) := by
  intro s
  have h : SlotsOwned s := slotsOwned_run events hrun
  refine ⟨fun pos i hcall => (h.claimed _ hcall i rfl).2, ?_⟩
  intro hcalls
  have hfree : ∀ i, beingWritten s i = false := by
    intro i
    simp [beingWritten, hcalls]
  constructor
  · intro pos hpos
    obtain ⟨i, hi, hposition⟩ := h.kept pos hpos
    obtain ⟨hlt, hactive, -⟩ := (settled_iff s i).mp hi
    have hown : shown s i = pos.symbol := by rw [shown, hposition]
    have hfirst : ∀ j < i, ¬ ((s.slots j).active = true ∧ shown s j = pos.symbol) := by
      rintro j hj ⟨hactiveJ, hshown⟩
      have hsettled : settled s j = true :=
        (settled_iff s j).mpr ⟨by omega, hactiveJ, hfree j⟩
      have := h.single j i hsettled hi (hshown.trans hown.symm)
      omega
    have hstart : trackerStep s (.getPosition pos.symbol) = alone s (.getLoad pos.symbol 0) := by
      simp [trackerStep, SharedTracker.callOf, hcalls, alone]
    obtain ⟨n, hn⟩ := advances_found s pos.symbol 0 hlt hactive hown
      ((h.hashed i hi).trans (congrArg SymbolId.hash hown)) hfirst i (Nat.zero_add i)
    refine ⟨n, ?_⟩
    rw [hstart, hn, hposition]
  · rw [h.counted]
    congr 1
    refine List.countP_congr ?_
    intro i hi
    have hlt := List.mem_range.mp hi
    rw [settled_iff]
    simp [hlt, hfree i]

/-! ## A slot that changes hands -/

def positionOf (base : String) : Position where
  symbol := .of base "KRW"
  koreanExchange := .bithumb
  foreignExchange := .bybit

/-- AAA is opened and closed again, and BBB claims its slot. -/
def slotHandover : List TrackerEvent :=
  [.openPosition (positionOf "AAA"), .advance (.of "AAA" "KRW"), .advance (.of "AAA" "KRW"),
    .closePosition (.of "AAA" "KRW"), .advance (.of "AAA" "KRW"), .advance (.of "AAA" "KRW"),
    .advance (.of "AAA" "KRW"), .openPosition (positionOf "BBB"), .advance (.of "BBB" "KRW")]

/-- The general result where a slot is handed from one symbol to another. -/
theorem openedPositions_found_slotHandover :
    let s := runTracker (slotHandover ++ [.advance (.of "BBB" "KRW")])
    (∀ pos ∈ s.opened, ∃ n,
        (advances (trackerStep s (.getPosition pos.symbol)) pos.symbol n).found =
          s.found ++ [(pos.symbol, some pos)]) ∧
      s.opened = [positionOf "BBB"] := by
  intro s
  refine ⟨((openedPositions_found (slotHandover ++ [.advance (.of "BBB" "KRW")]) ?_).2 ?_).1,
    by decide +kernel⟩
  · refine ⟨trivial, ?_, ?_, trivial, ?_, ?_, ?_, trivial, ?_, ?_, trivial⟩ <;>
      (simp only [StaleFree]; decide +kernel)
  · decide +kernel

/-- The next close of AAA takes the claimed slot of BBB for its own. -/
theorem claimed_slot_deactivated :
    ¬ ∀ events : List TrackerEvent,
      let s := runTracker events
      (∀ pos i, TrackerCall.openWrite pos i ∈ s.calls → (s.slots i).active = true) ∧
        (s.calls = [] →
          (∀ pos ∈ s.opened, ∃ n,
            (advances (trackerStep s (.getPosition pos.symbol)) pos.symbol n).found =
              s.found ++ [(pos.symbol, some pos)]) ∧
          s.positionCount = (List.range slotCount).countP fun i => (s.slots i).active) := by
  intro h
  have hactive := (h (slotHandover ++ [.closePosition (.of "AAA" "KRW"), .advance (.of "AAA" "KRW"),
    .advance (.of "AAA" "KRW"), .advance (.of "AAA" "KRW")])).1 (positionOf "BBB") 0
    (by decide +kernel)
  revert hactive
  decide +kernel

end SpotRelay.Analysis
