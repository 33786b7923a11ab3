import SpotRelay.Model.ConnectionPool

/-!
# What a step of a guard does to the pool

Every step moves one guard to its next phase, moves the mutex along with it and has one
effect on the connections, their states and the connections that exist.  The two results about
the pool are read off these moves.

* **the move** of a guard names its new phase, what becomes of the mutex and its one effect on the
  pool (`PoolMove`, `PoolEffect`).
* **every step** is such a move or none (`step_move`).
-/

set_option autoImplicit false

namespace SpotRelay.Analysis

open SpotRelay.Model

/-! ## Moves -/

/-- A guard that goes on to `phase` takes the mutex, keeps it as it is or gives it back. -/
inductive MutexMove (s : ConnectionPool) (guard : ℕ) (phase : GuardPhase) : Option ℕ → Prop
  | take (hfree : s.mutex = none) : MutexMove s guard phase (some guard)
  | keep (hlocked : phase.locked = true → (s.guards guard).locked = true) :
    MutexMove s guard phase s.mutex
  | give (hunlocked : phase.locked = false) (hlocked : (s.guards guard).locked = true) :
    MutexMove s guard phase none

/-- What a step of a guard on its way to `phase` does to `connections`, `state` and `live`. -/
inductive PoolEffect (s : ConnectionPool) (guard : ℕ) (phase : GuardPhase) :
    List Address → (Address → PooledConnection.State) → Finset Address → Prop
  | none (hconn : phase.conn = none) (hconnects : phase.connects = false) :
    PoolEffect s guard phase s.connections s.state s.live
  | check (hphase : phase = .creating) (hroom : s.connections.length < s.maxPoolSize) :
    PoolEffect s guard phase s.connections s.state s.live
  | miss (hbefore : s.guards guard = .creating) (hphase : phase = .created none) :
    PoolEffect s guard phase s.connections s.state s.live
  | find (conn : Address) (hbefore : s.guards guard = .failing conn)
      (hphase : phase = .replacing conn) :
    PoolEffect s guard phase s.connections s.state s.live
  | claim (conn : Address) (hphase : phase = .holding conn) (hmem : conn ∈ s.connections)
      (hfree : s.state conn = .connected) :
    PoolEffect s guard phase s.connections (Function.update s.state conn .inUse) s.live
  | make (conn : Address) (hbefore : s.guards guard = .creating)
      (hphase : phase = .created (some conn)) (hnew : conn ∉ s.live) :
    PoolEffect s guard phase s.connections (Function.update s.state conn .connected)
      (insert conn s.live)
  | push (conn : Address) (hbefore : s.guards guard = .created (some conn))
      (hmutex : s.mutex = Option.none) (hphase : phase = .holding conn) :
    PoolEffect s guard phase (s.connections ++ [conn]) (Function.update s.state conn .inUse) s.live
  | release (conn : Address) (hbefore : s.guards guard = .holding conn) (hphase : phase = .idle) :
    PoolEffect s guard phase s.connections (Function.update s.state conn .connected) s.live
  | fail (conn : Address) (hbefore : s.guards guard = .holding conn)
      (hphase : phase = .failing conn) :
    PoolEffect s guard phase s.connections (Function.update s.state conn .failed) s.live
  | replace (old new : Address) (hbefore : s.guards guard = .replacing old)
      (hphase : phase = .idle) (hnew : new ∉ s.live) :
    PoolEffect s guard phase (s.connections.replace old new)
      (Function.update s.state new .connected) ((insert new s.live).erase old)
  | erase (old : Address) (hbefore : s.guards guard = .replacing old) (hphase : phase = .idle) :
    PoolEffect s guard phase (s.connections.erase old) s.state (s.live.erase old)

/-- A guard has moved to `phase`. -/
structure PoolMove (s : ConnectionPool) (guard : ℕ) (phase : GuardPhase) (s' : ConnectionPool) :
    Prop where
  maxPoolSize : s'.maxPoolSize = s.maxPoolSize
  guards : s'.guards = Function.update s.guards guard phase
  mutex : MutexMove s guard phase s'.mutex
  effect : PoolEffect s guard phase s'.connections s'.state s'.live

variable {s : ConnectionPool} {guard : ℕ}

/-- A guard that only changes phase takes and gives back nothing. -/
theorem move_goTo {phase : GuardPhase} (hconn : phase.conn = none)
    (hconnects : phase.connects = false)
    (hlocked : phase.locked = true → (s.guards guard).locked = true) :
    PoolMove s guard phase (s.goTo guard phase) :=
  ⟨rfl, rfl, .keep hlocked, .none hconn hconnects⟩

/-- A guard takes the free mutex. -/
theorem move_lockAs {phase : GuardPhase} (hconn : phase.conn = none)
    (hconnects : phase.connects = false) (hfree : s.mutex = none) :
    PoolMove s guard phase (s.lockAs guard phase) :=
  ⟨rfl, rfl, .take hfree, .none hconn hconnects⟩

/-- A guard gives the mutex back that it held. -/
theorem move_unlockAs {phase : GuardPhase} (hconn : phase.conn = none)
    (hconnects : phase.connects = false) (hunlocked : phase.locked = false)
    (hlocked : (s.guards guard).locked = true) :
    PoolMove s guard phase (s.unlockAs guard phase) :=
  ⟨rfl, rfl, .give hunlocked hlocked, .none hconn hconnects⟩

/-- A scan claims a free connection or goes where the loop says. -/
theorem move_scan {i : ℕ} {next done : ConnectionPool}
    (hlocked : (s.guards guard).locked = true)
    (hnext : ∃ phase, PoolMove s guard phase next) (hdone : ∃ phase, PoolMove s guard phase done) :
    ∃ phase, PoolMove s guard phase (s.scan guard i next done) := by
  unfold ConnectionPool.scan
  split
  · exact hdone
  · rename_i conn hconn
    split_ifs with hfree
    · refine ⟨.holding conn, rfl, rfl, .give rfl hlocked, ?_⟩
      exact .claim conn rfl (List.mem_of_getElem? hconn) hfree
    · exact hnext

/-- One access of a guard is a move of that guard, or nothing. -/
theorem move_proceed :
    s.proceed guard = s ∨ ∃ phase, PoolMove s guard phase (s.proceed guard) := by
  unfold ConnectionPool.proceed
  split
  · rename_i i hphase
    have hlocked : (s.guards guard).locked = true := by rw [hphase]; rfl
    refine .inr (move_scan hlocked ⟨_, move_goTo rfl rfl fun _ => hlocked⟩ ?_)
    split_ifs with hroom
    · exact ⟨_, rfl, rfl, .give rfl hlocked, .check rfl hroom⟩
    · exact ⟨_, move_goTo rfl rfl fun _ => hlocked⟩
  · rename_i conn hphase
    split_ifs with hmutex
    · exact .inl rfl
    · rw [Bool.not_eq_true, Option.isSome_eq_false_iff, Option.isNone_iff_eq_none] at hmutex
      right
      cases conn with
      | none => exact ⟨_, move_lockAs rfl rfl hmutex⟩
      | some a =>
        exact ⟨_, rfl, rfl, .keep (by simp [GuardPhase.locked]), .push a hphase hmutex rfl⟩
  · rename_i i hphase
    have hlocked : (s.guards guard).locked = true := by rw [hphase]; rfl
    exact .inr (move_scan hlocked ⟨_, move_goTo rfl rfl fun _ => hlocked⟩
      ⟨_, move_goTo rfl rfl fun _ => hlocked⟩)
  · rename_i conn hphase
    split_ifs with hmutex hmem
    · exact .inl rfl
    · rw [Bool.not_eq_true, Option.isSome_eq_false_iff, Option.isNone_iff_eq_none] at hmutex
      exact .inr ⟨_, rfl, rfl, .take hmutex, .find conn hphase rfl⟩
    · exact .inr ⟨_, move_goTo rfl rfl (by simp [GuardPhase.locked])⟩
  · exact .inl rfl

/-- The factory's answer is a move of the guard that asked, or nothing. -/
theorem move_create (conn : Option Address) :
    s.create guard conn = s ∨ ∃ phase, PoolMove s guard phase (s.create guard conn) := by
  unfold ConnectionPool.create
  split
  · rename_i hphase
    exact .inr ⟨_, rfl, rfl, .keep (by simp [GuardPhase.locked]), .miss hphase rfl⟩
  · rename_i a hphase
    split_ifs with hlive
    · exact .inl rfl
    · exact .inr ⟨_, rfl, rfl, .keep (by simp [GuardPhase.locked]), .make a hphase rfl hlive⟩
  · rename_i old hphase
    have hlocked : (s.guards guard).locked = true := by rw [hphase]; rfl
    exact .inr ⟨_, rfl, rfl, .give rfl hlocked, .erase old hphase rfl⟩
  · rename_i old a hphase
    have hlocked : (s.guards guard).locked = true := by rw [hphase]; rfl
    split_ifs with hlive
    · exact .inl rfl
    · exact .inr ⟨_, rfl, rfl, .give rfl hlocked, .replace old a hphase rfl hlive⟩
  · exact .inl rfl

/-- A guard's destructor is a move of that guard, or nothing. -/
theorem move_destruct (failed : Bool) :
    s.destruct guard failed = s ∨ ∃ phase, PoolMove s guard phase (s.destruct guard failed) := by
  unfold ConnectionPool.destruct
  split
  · rename_i conn hphase
    right
    split_ifs
    · exact ⟨_, rfl, rfl, .keep (by simp [GuardPhase.locked]), .fail conn hphase rfl⟩
    · exact ⟨_, rfl, rfl, .keep (by simp [GuardPhase.locked]), .release conn hphase rfl⟩
  · exact .inl rfl

/-- Every step moves its guard or does nothing. -/
theorem step_move (s : ConnectionPool) (event : PoolEvent) :
    s.step event = s ∨ ∃ phase, PoolMove s event.guard phase (s.step event) := by
  cases event with
  | construct guard =>
    simp only [ConnectionPool.step]
    split_ifs with h
    · exact .inr ⟨_, move_lockAs rfl rfl h.2⟩
    · exact .inl rfl
  | proceed guard => exact move_proceed
  | create guard conn => exact move_create conn
  | readClock guard passed =>
    simp only [ConnectionPool.step]
    by_cases h : s.guards guard = .deadline
    · have hlocked : (s.guards guard).locked = true := by rw [h]; rfl
      rw [if_pos h]
      cases passed with
      | true => exact .inr ⟨_, move_unlockAs rfl rfl rfl hlocked⟩
      | false => exact .inr ⟨_, move_unlockAs rfl rfl rfl hlocked⟩
    · rw [if_neg h]
      exact .inl rfl
  | wake guard =>
    simp only [ConnectionPool.step]
    split_ifs with h
    · exact .inr ⟨_, move_lockAs rfl rfl h.2⟩
    · exact .inl rfl
  | destruct guard failed => exact move_destruct failed

end SpotRelay.Analysis
