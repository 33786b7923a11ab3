import SpotRelay.Analysis.PoolSteps
import SpotRelay.Library.Run

/-!
# The size of the pool

`acquire` compares the size with `max_pool_size` under the mutex, unlocks it to connect and pushes
without a second look.  The pool grows only at that push, so it keeps its bound exactly as long as
no push finds it full.

* **the rule**: what `initialize` establishes and every step keeps holds at all times
  (`after_induction`).
* **room** is kept for the connection that is being made where one guard connects at a time
  (`roomForNew_step`), and then the bound holds (`bounded_of_oneConnects`).
-/

set_option autoImplicit false

namespace SpotRelay.Analysis

open SpotRelay.Library SpotRelay.Model

variable {s : ConnectionPool}

/-! ## Steps -/

/-- No event of the pool changes its configured size. -/
theorem maxPoolSize_step (s : ConnectionPool) (event : PoolEvent) :
    (s.step event).maxPoolSize = s.maxPoolSize := by
  rcases step_move s event with hsame | ⟨phase, hmove⟩
  · rw [hsame]
  · exact hmove.maxPoolSize

/-- Giving a connection up makes the pool no larger. -/
theorem length_erase_le (conn : Address) (connections : List Address) :
    (connections.erase conn).length ≤ connections.length :=
  (List.erase_sublist).length_le

/-- A guard with a new connection only waits for the mutex. -/
theorem step_of_created {event : PoolEvent} {conn : Address}
    (hphase : s.guards event.guard = .created (some conn))
    (hother : event ≠ .proceed event.guard) : s.step event = s := by
  cases event with
  | proceed guard => exact absurd rfl hother
  | construct guard | create guard conn | readClock guard passed | wake guard
  | destruct guard failed =>
    simp only [PoolEvent.guard] at hphase
    simp [ConnectionPool.step, ConnectionPool.create, ConnectionPool.destruct, hphase]

/-- The pool grows only where a guard pushes its new connection. -/
theorem length_step (s : ConnectionPool) (event : PoolEvent) :
    (s.step event).connections.length ≤ s.connections.length ∨
      ∃ guard conn, event = .proceed guard ∧ s.guards guard = .created (some conn) ∧
        s.mutex = none ∧
        (s.step event).connections.length = s.connections.length + 1 := by
  rcases step_move s event with hsame | ⟨phase, hmove⟩
  · rw [hsame]
    exact .inl le_rfl
  · have heffect := hmove.effect
    generalize hconnections : (s.step event).connections = connections at heffect ⊢
    generalize (s.step event).state = state at heffect
    generalize (s.step event).live = live at heffect
    cases heffect with
    | none | check | miss | find | claim | make | release | fail => exact .inl le_rfl
    | replace => exact .inl (List.length_replace).le
    | erase old => exact .inl (length_erase_le old _)
    | push conn hbefore hmutex hphase =>
      by_cases hevent : event = .proceed event.guard
      · exact .inr ⟨event.guard, conn, hevent, hbefore, hmutex, by simp⟩
      · rw [step_of_created hbefore hevent] at hconnections
        exact .inl (congrArg List.length hconnections).ge

/-- A push on a full pool. -/
theorem length_of_pushesPastMax {event : PoolEvent} (h : s.PushesPastMax event) :
    s.maxPoolSize < (s.step event).connections.length := by
  cases event with
  | proceed guard =>
    obtain ⟨hnew, hmutex, hfull⟩ := h
    cases hphase : s.guards guard with
    | created conn =>
      cases conn with
      | some conn =>
        simp only [ConnectionPool.step, ConnectionPool.proceed, hphase, hmutex,
          ConnectionPool.pushNew, List.length_append, List.length_singleton, Option.isSome_none,
          Bool.false_eq_true, if_false]
        omega
      | none => simp [hphase, GuardPhase.newConn] at hnew
    | idle | scanning | creating | deadline | waiting | rescanning | holding | failing
    | replacing => simp [hphase, GuardPhase.newConn] at hnew
  | construct | create | readClock | wake | destruct => exact h.elim

/-- One step keeps the bound exactly if it does not push past it. -/
theorem bounded_step (s : ConnectionPool) (event : PoolEvent)
    (hle : s.connections.length ≤ s.maxPoolSize) :
    (s.step event).connections.length ≤ (s.step event).maxPoolSize ↔ ¬ s.PushesPastMax event := by
  rw [maxPoolSize_step]
  constructor
  · intro hstep hpush
    have := length_of_pushesPastMax hpush
    omega
  · intro hpush
    rcases length_step s event with hlength | ⟨guard, conn, rfl, hphase, hmutex, hlength⟩
    · omega
    · by_contra hgt
      refine hpush ⟨?_, hmutex, by omega⟩
      simp [hphase, GuardPhase.newConn]

/-! ## Runs -/

/-- `initialize` makes connections and nothing else. -/
theorem initialized_induction (config : ConnectionPoolConfig) (made : ℕ → Option Address)
    (I : ConnectionPool → Prop) (hstart : I { maxPoolSize := config.maxPoolSize })
    (hround : ∀ s conn, I s → I (s.preEstablish conn)) :
    I (ConnectionPool.initialized config made) := by
  unfold ConnectionPool.initialized
  generalize ({ maxPoolSize := config.maxPoolSize } : ConnectionPool) = s at hstart ⊢
  induction List.range config.poolSize generalizing s with
  | nil => exact hstart
  | cons i rest ih => exact ih _ (hround s (made i) hstart)

/-- What `initialize` establishes and every step keeps holds of the pool at all times. -/
theorem after_induction (config : ConnectionPoolConfig) (made : ℕ → Option Address)
    (I : ConnectionPool → Prop) (hstart : I (ConnectionPool.initialized config made))
    (hstep : ∀ s event, I s → I (s.step event)) (events : List PoolEvent) :
    I (ConnectionPool.after config made events) := by
  unfold ConnectionPool.after
  generalize ConnectionPool.initialized config made = s at hstart ⊢
  induction events generalizing s with
  | nil => exact hstart
  | cons event rest ih => exact ih _ (hstep s event hstart)

/-- A pool that has just been filled has no guard in use. -/
theorem guards_initialized (config : ConnectionPoolConfig) (made : ℕ → Option Address)
    (guard : ℕ) : (ConnectionPool.initialized config made).guards guard = .idle := by
  refine initialized_induction config made (fun s => s.guards guard = .idle) rfl ?_
  intro s conn h
  unfold ConnectionPool.preEstablish
  split
  · exact h
  · split_ifs <;> exact h

/-- Every run keeps the size the pool was configured with. -/
theorem maxPoolSize_after (config : ConnectionPoolConfig) (made : ℕ → Option Address)
    (events : List PoolEvent) :
    (ConnectionPool.after config made events).maxPoolSize = config.maxPoolSize := by
  refine after_induction config made (fun s => s.maxPoolSize = config.maxPoolSize) ?_ ?_ events
  · refine initialized_induction config made (fun s => s.maxPoolSize = config.maxPoolSize) rfl ?_
    intro s conn h
    unfold ConnectionPool.preEstablish
    split
    · exact h
    · split_ifs <;> exact h
  · intro s event h
    rwa [maxPoolSize_step]

/-! ## The claim -/

/-- The pool stays within `max_pool_size` exactly if `initialize` does and no new connection is
pushed onto a full pool. -/
theorem pool_bounded_iff (config : ConnectionPoolConfig) (made : ℕ → Option Address)
    (events : List PoolEvent) :
    (∀ done, done <+: events →
        (ConnectionPool.after config made done).connections.length ≤ config.maxPoolSize) ↔
      (ConnectionPool.initialized config made).connections.length ≤ config.maxPoolSize ∧
        Run.Along (fun s event => ¬ s.PushesPastMax event) ConnectionPool.step
          (ConnectionPool.initialized config made) events := by
  have hmax := fun done => maxPoolSize_after config made done
  have hinit : (ConnectionPool.initialized config made).maxPoolSize = config.maxPoolSize := hmax []
  have hiff := Run.throughout_iff
    (fun s : ConnectionPool => s.connections.length ≤ s.maxPoolSize)
    (fun s event hle => bounded_step s event hle) events (ConnectionPool.initialized config made)
  constructor
  · intro h
    have hstart := h [] List.nil_prefix
    refine ⟨hstart, (hiff (hinit.symm ▸ hstart)).mp ?_⟩
    intro done hdone
    exact (h done hdone).trans (hmax done).ge
  · rintro ⟨hstart, hrun⟩ done hdone
    exact ((hiff (hinit.symm ▸ hstart)).mpr hrun done hdone).trans (hmax done).le

/-- Four guards hold the four connections of `initialize`; five more see four connections and each
makes one. -/
def fiveConnects : List PoolEvent :=
  ((List.range 4).flatMap fun guard =>
    .construct guard :: List.replicate (guard + 1) (.proceed guard)) ++
  ((List.range' 4 5).flatMap fun guard => .construct guard :: List.replicate 5 (.proceed guard)) ++
  (List.range' 4 5).flatMap fun guard => [.create guard (some guard), .proceed guard]

/-- Five acquires at once on four connections leave nine, one over the bound. -/
theorem fiveConnects_exceeds :
    (ConnectionPool.after {} some fiveConnects).connections.length = 9 ∧
      ¬ ∀ (config : ConnectionPoolConfig) (made : ℕ → Option Address) (events : List PoolEvent),
        (ConnectionPool.after config made events).connections.length ≤ config.maxPoolSize := by
  have hnine : (ConnectionPool.after {} some fiveConnects).connections.length = 9 := by
    decide +kernel
  refine ⟨hnine, ?_⟩
  intro h
  have := h {} some fiveConnects
  rw [hnine] at this
  exact absurd this (by decide)

/-! ## One connect at a time -/

/-- At most one guard is between its look at the size and its push. -/
def OneConnects (s : ConnectionPool) : Prop :=
  ∀ guard guard', (s.guards guard).connects = true → (s.guards guard').connects = true →
    guard = guard'

/-- The pool is within its bound, and has room for the connection that is being made. -/
def RoomForNew (s : ConnectionPool) : Prop :=
  s.connections.length ≤ s.maxPoolSize ∧
    ∀ guard, (s.guards guard).connects = true → s.connections.length < s.maxPoolSize

/-- Where one guard moves to a phase that does not connect, any connecting one is another. -/
theorem connects_update {guards : ℕ → GuardPhase} {guard other : ℕ} {phase : GuardPhase}
    (hphase : phase.connects = false)
    (h : (Function.update guards guard phase other).connects = true) :
    other ≠ guard ∧ (guards other).connects = true := by
  by_cases hother : other = guard
  · subst hother
    rw [Function.update_self, hphase] at h
    cases h
  · rw [Function.update_of_ne hother] at h
    exact ⟨hother, h⟩

/-- Where one guard connects at a time, the pool keeps room for its new connection. -/
theorem roomForNew_step (s : ConnectionPool) (event : PoolEvent) (hroom : RoomForNew s)
    (hone : OneConnects s) : RoomForNew (s.step event) := by
  rcases step_move s event with hsame | ⟨phase, hmove⟩
  · rwa [hsame]
  · obtain ⟨hle, hconnects⟩ := hroom
    have heffect := hmove.effect
    unfold RoomForNew
    rw [hmove.maxPoolSize, hmove.guards]
    generalize (s.step event).connections = connections at heffect ⊢
    generalize (s.step event).state = state at heffect
    generalize (s.step event).live = live at heffect
    -- a guard that does not connect afterwards leaves the others as they were
    have hothers : ∀ n ≤ s.connections.length, phase.connects = false →
        n ≤ s.maxPoolSize ∧ ∀ other,
          (Function.update s.guards event.guard phase other).connects = true →
          n < s.maxPoolSize := by
      intro n hn hphase
      refine ⟨hn.trans hle, ?_⟩
      intro other hother
      exact hn.trans_lt (hconnects other (connects_update hphase hother).2)
    cases heffect with
    | none hconn hphase => exact hothers _ le_rfl hphase
    | find conn hbefore hphase => exact hothers _ le_rfl (by rw [hphase]; rfl)
    | claim conn hphase hmem hfree => exact hothers _ le_rfl (by rw [hphase]; rfl)
    | release conn hbefore hphase => exact hothers _ le_rfl (by rw [hphase]; rfl)
    | fail conn hbefore hphase => exact hothers _ le_rfl (by rw [hphase]; rfl)
    | replace old new hbefore hphase hnew =>
      exact hothers _ (List.length_replace).le (by rw [hphase]; rfl)
    | erase old hbefore hphase => exact hothers _ (length_erase_le old _) (by rw [hphase]; rfl)
    | check hphase hlt => exact ⟨hle, fun _ _ => hlt⟩
    | miss hbefore hphase =>
      have hguard : (s.guards event.guard).connects = true := by rw [hbefore]; rfl
      exact ⟨hle, fun _ _ => hconnects _ hguard⟩
    | make conn hbefore hphase hnew =>
      have hguard : (s.guards event.guard).connects = true := by rw [hbefore]; rfl
      exact ⟨hle, fun _ _ => hconnects _ hguard⟩
    | push conn hbefore hmutex hphase =>
      have hguard : (s.guards event.guard).connects = true := by rw [hbefore]; rfl
      have hlt := hconnects _ hguard
      rw [List.length_append, List.length_singleton]
      refine ⟨hlt, ?_⟩
      intro other hother
      obtain ⟨hne, hother⟩ := connects_update (by rw [hphase]; rfl) hother
      exact absurd (hone other _ hother hguard) hne

/-- While at most one guard connects at a time, the look at the size is enough. -/
theorem bounded_of_oneConnects (config : ConnectionPoolConfig) (made : ℕ → Option Address)
    (events : List PoolEvent)
    (hinit : (ConnectionPool.initialized config made).connections.length ≤ config.maxPoolSize)
    (hone : Run.Along (fun s _ => OneConnects s) ConnectionPool.step
      (ConnectionPool.initialized config made) events) :
    (ConnectionPool.after config made events).connections.length ≤ config.maxPoolSize := by
  have hmax := maxPoolSize_after config made []
  have hstart : RoomForNew (ConnectionPool.initialized config made) := by
    refine ⟨hinit.trans hmax.ge, ?_⟩
    intro guard hguard
    rw [guards_initialized] at hguard
    cases hguard
  have hend := Run.invariant RoomForNew
    (fun s event hroom hone => roomForNew_step s event hroom hone) events _ hstart hone
  exact hend.1.trans (maxPoolSize_after config made events).le

end SpotRelay.Analysis
