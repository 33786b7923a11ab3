import SpotRelay.Analysis.PoolBound

/-!
# Whose connection it is

A connection that a guard has is in the pool and not `Connected`, so no compare-exchange of
another guard can take it, and no other guard has it when it is replaced.  The stores of `release`
and `mark_failed` need no mutex for this: the guard that makes them is the only one with the
connection.

* **the invariant**: every move of a guard keeps the connections that are held apart from each other
  and from those that can be taken (`Exclusive`, `exclusive_of_move`).
* **a connection that goes** is the one that its own guard has marked failed (`replacing_of_gone`).
-/

set_option autoImplicit false

namespace SpotRelay.Analysis

open SpotRelay.Library SpotRelay.Model

/-! ## A connection in the place of another -/

/-- A replaced connection is gone, and the new one is there. -/
theorem mem_replace_iff {connections : List Address} (hnodup : connections.Nodup)
    {old new conn : Address} (hold : old ∈ connections) :
    conn ∈ connections.replace old new ↔ conn = new ∨ conn ∈ connections ∧ conn ≠ old := by
  induction connections with
  | nil => cases hold
  | cons head rest ih =>
    obtain ⟨hhead, hrest⟩ := List.nodup_cons.mp hnodup
    by_cases hsame : old = head
    · subst hsame
      rw [List.replace_cons_self, List.mem_cons, List.mem_cons]
      constructor
      · rintro (rfl | hmem)
        · exact .inl rfl
        · exact .inr ⟨.inr hmem, fun heq => hhead (heq ▸ hmem)⟩
      · rintro (rfl | ⟨rfl | hmem, hne⟩)
        · exact .inl rfl
        · exact absurd rfl hne
        · exact .inr hmem
    · have hmem : old ∈ rest := (List.mem_cons.mp hold).resolve_left hsame
      have hbeq : (old == head) = false := by simpa using hsame
      rw [List.replace_cons, hbeq, List.mem_cons, ih hrest hmem, List.mem_cons]
      constructor
      · rintro (rfl | rfl | ⟨hconn, hne⟩)
        · exact .inr ⟨.inl rfl, fun heq => hsame heq.symm⟩
        · exact .inl rfl
        · exact .inr ⟨.inr hconn, hne⟩
      · rintro (rfl | ⟨rfl | hconn, hne⟩)
        · exact .inr (.inl rfl)
        · exact .inl rfl
        · exact .inr (.inr ⟨hconn, hne⟩)

/-- A new connection in the place of another leaves each listed once. -/
theorem nodup_replace {connections : List Address} (hnodup : connections.Nodup)
    {old new : Address} (hnew : new ∉ connections) : (connections.replace old new).Nodup := by
  induction connections with
  | nil => exact hnodup
  | cons head rest ih =>
    obtain ⟨hhead, hrest⟩ := List.nodup_cons.mp hnodup
    rw [List.mem_cons, not_or] at hnew
    by_cases hsame : old = head
    · subst hsame
      rw [List.replace_cons_self]
      exact List.nodup_cons.mpr ⟨hnew.2, hrest⟩
    · have hbeq : (old == head) = false := by simpa using hsame
      rw [List.replace_cons, hbeq]
      refine List.nodup_cons.mpr ⟨?_, ih hrest hnew.2⟩
      intro hmem
      by_cases hold : old ∈ rest
      · rcases (mem_replace_iff hrest hold).mp hmem with heq | ⟨hin, -⟩
        · exact hnew.1 heq.symm
        · exact hhead hin
      · rw [List.replace_of_not_mem hold] at hmem
        exact hhead hmem

/-! ## The invariant -/

/-- Every connection is in the pool, on its way into it or gone, and every guard's is its own. -/
structure Exclusive (s : ConnectionPool) : Prop where
  nodup : s.connections.Nodup
  pooled : ∀ conn ∈ s.connections, conn ∈ s.live
  new : ∀ guard conn, (s.guards guard).newConn = some conn →
    conn ∈ s.live ∧ conn ∉ s.connections
  newApart : ∀ guard guard' conn, (s.guards guard).newConn = some conn →
    (s.guards guard').newConn = some conn → guard = guard'
  held : ∀ guard conn, s.held guard = some conn →
    conn ∈ s.connections ∧ s.state conn ≠ .connected
  apart : ∀ guard guard' conn, s.held guard = some conn → s.held guard' = some conn →
    guard = guard'

variable {s s' : ConnectionPool} {guard : ℕ} {phase : GuardPhase}

/-- What the phase of a guard carries, after the guard has moved. -/
theorem update_carries {α : Type} (carried : GuardPhase → Option α) {guards : ℕ → GuardPhase}
    {other : ℕ} {a : α} (h : carried (Function.update guards guard phase other) = some a) :
    other = guard ∧ carried phase = some a ∨ other ≠ guard ∧ carried (guards other) = some a := by
  by_cases hother : other = guard
  · subst hother
    rw [Function.update_self] at h
    exact .inl ⟨rfl, h⟩
  · rw [Function.update_of_ne hother] at h
    exact .inr ⟨hother, h⟩

/-- Two guards still carry different things if the moved one carries nothing of the others. -/
theorem update_apart {α : Type} (carried : GuardPhase → Option α) {guards : ℕ → GuardPhase}
    (hapart : ∀ guard guard' a, carried (guards guard) = some a → carried (guards guard') = some a →
      guard = guard')
    (hphase : ∀ a, carried phase = some a → ∀ other, other ≠ guard →
      carried (guards other) ≠ some a) (one two : ℕ) (a : α)
    (hone : carried (Function.update guards guard phase one) = some a)
    (htwo : carried (Function.update guards guard phase two) = some a) : one = two := by
  rcases update_carries carried hone with ⟨hguard, hmoved⟩ | ⟨hne, hstill⟩
  · rcases update_carries carried htwo with ⟨hguard', -⟩ | ⟨hne', hstill'⟩
    · exact hguard.trans hguard'.symm
    · exact absurd hstill' (hphase a hmoved two hne')
  · rcases update_carries carried htwo with ⟨-, hmoved'⟩ | ⟨-, hstill'⟩
    · exact absurd hstill (hphase a hmoved' one hne)
    · exact hapart one two a hstill hstill'

/-- The invariant after a move, from what the moved guard carries and what the others do. -/
theorem Exclusive.move (h : Exclusive s)
    (hguards : s'.guards = Function.update s.guards guard phase)
    (hnodup : s'.connections.Nodup) (hpooled : ∀ conn ∈ s'.connections, conn ∈ s'.live)
    (hnew : ∀ conn, phase.newConn = some conn → conn ∈ s'.live ∧ conn ∉ s'.connections ∧
      ∀ other, other ≠ guard → (s.guards other).newConn ≠ some conn)
    (hnewOthers : ∀ other conn, other ≠ guard → (s.guards other).newConn = some conn →
      conn ∈ s'.live ∧ conn ∉ s'.connections)
    (hheld : ∀ conn, phase.conn = some conn → conn ∈ s'.connections ∧
      s'.state conn ≠ .connected ∧ ∀ other, other ≠ guard → s.held other ≠ some conn)
    (hheldOthers : ∀ other conn, other ≠ guard → s.held other = some conn →
      conn ∈ s'.connections ∧ s'.state conn ≠ .connected) : Exclusive s' where
  nodup := hnodup
  pooled := hpooled
  new := by
    intro other conn hconn
    rw [hguards] at hconn
    rcases update_carries GuardPhase.newConn hconn with ⟨-, hconn⟩ | ⟨hne, hconn⟩
    · exact ⟨(hnew conn hconn).1, (hnew conn hconn).2.1⟩
    · exact hnewOthers other conn hne hconn
  newApart := by
    rw [hguards]
    exact update_apart GuardPhase.newConn h.newApart fun conn hconn => (hnew conn hconn).2.2
  held := by
    intro other conn hconn
    unfold ConnectionPool.held at hconn
    rw [hguards] at hconn
    rcases update_carries GuardPhase.conn hconn with ⟨-, hconn⟩ | ⟨hne, hconn⟩
    · exact ⟨(hheld conn hconn).1, (hheld conn hconn).2.1⟩
    · exact hheldOthers other conn hne hconn
  apart := by
    unfold ConnectionPool.held
    rw [hguards]
    exact update_apart GuardPhase.conn h.apart fun conn hconn => (hheld conn hconn).2.2

/-! ## Steps -/

/-- What a guard holds is read off its phase. -/
theorem held_of_guards (hbefore : s.guards guard = phase) : s.held guard = phase.conn := by
  rw [ConnectionPool.held, hbefore]

/-- Two guards hold different connections. -/
theorem ne_of_held (h : Exclusive s) {other : ℕ} {conn mine : Address} (hne : other ≠ guard)
    (hmine : s.held guard = some mine) (hconn : s.held other = some conn) : conn ≠ mine := by
  rintro rfl
  exact hne (h.apart other guard conn hconn hmine)

/-- A connection that is held is live. -/
theorem live_of_held (h : Exclusive s) {other : ℕ} {conn : Address}
    (hconn : s.held other = some conn) : conn ∈ s.live :=
  h.pooled conn (h.held other conn hconn).1

/-- A step that leaves the pool alone and changes a state at most. -/
theorem Exclusive.move_kept (h : Exclusive s)
    (hguards : s'.guards = Function.update s.guards guard phase)
    (hconnections : s'.connections = s.connections) (hlive : s'.live = s.live)
    (hnew : phase.newConn = none)
    (hmine : ∀ conn, phase.conn = some conn → conn ∈ s.connections ∧
      s'.state conn ≠ .connected ∧ ∀ other, other ≠ guard → s.held other ≠ some conn)
    (hstate : ∀ other conn, other ≠ guard → s.held other = some conn →
      s'.state conn ≠ .connected) : Exclusive s' := by
  refine h.move hguards ?_ ?_ ?_ ?_ ?_ ?_
  · rw [hconnections]
    exact h.nodup
  · rw [hconnections, hlive]
    exact h.pooled
  · simp [hnew]
  · rw [hconnections, hlive]
    intro other conn _ hother
    exact h.new other conn hother
  · rw [hconnections]
    exact hmine
  · rw [hconnections]
    intro other conn hne hother
    exact ⟨(h.held other conn hother).1, hstate other conn hne hother⟩

/-- A connection that was not free is not made free by the change of another. -/
theorem update_ne_connected {state : Address → PooledConnection.State}
    {value : PooledConnection.State} {mine conn : Address} (hvalue : value ≠ .connected)
    (hconn : state conn ≠ .connected) :
    Function.update state mine value conn ≠ .connected := by
  by_cases hsame : conn = mine
  · subst hsame
    rwa [Function.update_self]
  · rwa [Function.update_of_ne hsame]

/-- A guard marks the connection that it alone holds now. -/
theorem exclusive_mark (h : Exclusive s) {mine : Address} {mark : PooledConnection.State}
    (hguards : s'.guards = Function.update s.guards guard phase)
    (hphase : phase.conn = some mine) (hnew : phase.newConn = none) (hmark : mark ≠ .connected)
    (hmem : mine ∈ s.connections)
    (halone : ∀ other, other ≠ guard → s.held other ≠ some mine)
    (hconnections : s'.connections = s.connections)
    (hstate : s'.state = Function.update s.state mine mark) (hlive : s'.live = s.live) :
    Exclusive s' := by
  refine h.move_kept hguards hconnections hlive hnew ?_ ?_
  · intro conn hconn
    rw [hphase] at hconn
    obtain rfl := Option.some.inj hconn
    refine ⟨hmem, ?_, halone⟩
    rw [hstate, Function.update_self]
    exact hmark
  · rw [hstate]
    intro other conn _ hother
    exact update_ne_connected hmark (h.held other conn hother).2

/-- Nothing that another guard has or has made is new. -/
theorem ne_of_new {new conn : Address} (hnew : new ∉ s.live) (hconn : conn ∈ s.live) :
    conn ≠ new := by
  rintro rfl
  exact hnew hconn

/-- A connection that is made belongs to the guard that made it. -/
theorem exclusive_make (h : Exclusive s) {mine : Address}
    (hguards : s'.guards = Function.update s.guards guard (.created (some mine)))
    (hnew : mine ∉ s.live) (hconnections : s'.connections = s.connections)
    (hstate : s'.state = Function.update s.state mine .connected)
    (hlive : s'.live = insert mine s.live) : Exclusive s' := by
  refine h.move hguards ?_ ?_ ?_ ?_ (fun _ hconn => nomatch hconn) ?_
  · rw [hconnections]
    exact h.nodup
  · rw [hconnections, hlive]
    intro conn hconn
    exact Finset.mem_insert_of_mem (h.pooled conn hconn)
  · intro conn hconn
    cases hconn
    rw [hlive, hconnections]
    exact ⟨Finset.mem_insert_self _ _, fun hmem => hnew (h.pooled _ hmem),
      fun other _ hother => hnew (h.new other _ hother).1⟩
  · rw [hlive, hconnections]
    intro other conn _ hother
    exact ⟨Finset.mem_insert_of_mem (h.new other conn hother).1, (h.new other conn hother).2⟩
  · rw [hconnections, hstate]
    intro other conn hne hother
    rw [Function.update_of_ne (ne_of_new hnew (live_of_held h hother))]
    exact ⟨(h.held other conn hother).1, (h.held other conn hother).2⟩

/-- A made connection goes into the pool in use. -/
theorem exclusive_push (h : Exclusive s) {mine : Address}
    (hguards : s'.guards = Function.update s.guards guard (.holding mine))
    (hbefore : s.guards guard = .created (some mine))
    (hconnections : s'.connections = s.connections ++ [mine])
    (hstate : s'.state = Function.update s.state mine .inUse)
    (hlive : s'.live = s.live) : Exclusive s' := by
  have hmine : (s.guards guard).newConn = some mine := by rw [hbefore]; rfl
  obtain ⟨hlived, hout⟩ := h.new guard mine hmine
  refine h.move hguards ?_ ?_ (fun _ hconn => nomatch hconn) ?_ ?_ ?_
  · rw [hconnections]
    exact List.nodup_append.mpr ⟨h.nodup, List.nodup_singleton _, by
      intro a ha b hb
      rw [List.mem_singleton.mp hb]
      exact fun heq => hout (heq ▸ ha)⟩
  · rw [hconnections, hlive]
    intro conn hconn
    rcases List.mem_append.mp hconn with hin | hlast
    · exact h.pooled conn hin
    · rwa [List.mem_singleton.mp hlast]
  · rw [hlive, hconnections]
    intro other conn hne hother
    refine ⟨(h.new other conn hother).1, ?_⟩
    rw [List.mem_append, List.mem_singleton, not_or]
    exact ⟨(h.new other conn hother).2, fun heq => hne (h.newApart other guard conn hother
      (heq ▸ hmine))⟩
  · intro conn hconn
    cases hconn
    rw [hconnections, hstate, Function.update_self]
    exact ⟨by simp, by decide, fun other _ hother => hout (h.held other _ hother).1⟩
  · rw [hconnections, hstate]
    intro other conn hne hother
    exact ⟨List.mem_append_left _ (h.held other conn hother).1,
      update_ne_connected (by decide) ((h.held other conn hother).2)⟩

/-- A replacement frees the new connection and drops the old one. -/
theorem exclusive_replace (h : Exclusive s) {old new : Address}
    (hguards : s'.guards = Function.update s.guards guard .idle)
    (hbefore : s.guards guard = .replacing old) (hnew : new ∉ s.live)
    (hconnections : s'.connections = s.connections.replace old new)
    (hstate : s'.state = Function.update s.state new .connected)
    (hlive : s'.live = (insert new s.live).erase old) : Exclusive s' := by
  have hmine : s.held guard = some old := held_of_guards hbefore
  have hin := (h.held guard old hmine).1
  have hmem : ∀ conn, conn ∈ s.connections.replace old new ↔
      conn = new ∨ conn ∈ s.connections ∧ conn ≠ old := fun _ => mem_replace_iff h.nodup hin
  refine h.move hguards ?_ ?_ (fun _ hconn => nomatch hconn) ?_ (fun _ hconn => nomatch hconn) ?_
  · rw [hconnections]
    exact nodup_replace h.nodup fun hpool => hnew (h.pooled new hpool)
  · rw [hconnections, hlive]
    intro conn hconn
    rcases (hmem conn).mp hconn with rfl | ⟨hpool, hne⟩
    · exact Finset.mem_erase.mpr ⟨(ne_of_new hnew (live_of_held h hmine)).symm,
        Finset.mem_insert_self _ _⟩
    · exact Finset.mem_erase.mpr ⟨hne, Finset.mem_insert_of_mem (h.pooled conn hpool)⟩
  · rw [hlive, hconnections]
    intro other conn _ hother
    obtain ⟨hlived, hout⟩ := h.new other conn hother
    refine ⟨Finset.mem_erase.mpr ⟨?_, Finset.mem_insert_of_mem hlived⟩, ?_⟩
    · rintro rfl
      exact hout hin
    · intro hconn
      rcases (hmem conn).mp hconn with heq | ⟨hpool, -⟩
      · exact ne_of_new hnew hlived heq
      · exact hout hpool
  · rw [hconnections, hstate]
    intro other conn hne hother
    rw [Function.update_of_ne (ne_of_new hnew (live_of_held h hother))]
    exact ⟨(hmem conn).mpr (.inr ⟨(h.held other conn hother).1, ne_of_held h hne hmine hother⟩),
      (h.held other conn hother).2⟩

/-- A connection that cannot be replaced is dropped. -/
theorem exclusive_erase (h : Exclusive s) {old : Address}
    (hguards : s'.guards = Function.update s.guards guard .idle)
    (hbefore : s.guards guard = .replacing old)
    (hconnections : s'.connections = s.connections.erase old) (hstate : s'.state = s.state)
    (hlive : s'.live = s.live.erase old) : Exclusive s' := by
  have hmine : s.held guard = some old := held_of_guards hbefore
  have hin := (h.held guard old hmine).1
  refine h.move hguards ?_ ?_ (fun _ hconn => nomatch hconn) ?_ (fun _ hconn => nomatch hconn) ?_
  · rw [hconnections]
    exact h.nodup.erase old
  · rw [hconnections, hlive]
    intro conn hconn
    obtain ⟨hne, hpool⟩ := (h.nodup.mem_erase_iff).mp hconn
    exact Finset.mem_erase.mpr ⟨hne, h.pooled conn hpool⟩
  · rw [hlive, hconnections]
    intro other conn _ hother
    obtain ⟨hlived, hout⟩ := h.new other conn hother
    refine ⟨Finset.mem_erase.mpr ⟨?_, hlived⟩, fun hconn => hout (List.mem_of_mem_erase hconn)⟩
    rintro rfl
    exact hout hin
  · rw [hconnections, hstate]
    intro other conn hne hother
    exact ⟨(h.nodup.mem_erase_iff).mpr ⟨ne_of_held h hne hmine hother,
      (h.held other conn hother).1⟩, (h.held other conn hother).2⟩

/-- Every move of a guard keeps the connections exclusive. -/
theorem exclusive_of_move (h : Exclusive s) (hmove : PoolMove s guard phase s') : Exclusive s' := by
  have hguards := hmove.guards
  have heffect := hmove.effect
  generalize hconnections : s'.connections = connections at heffect
  generalize hstate : s'.state = state at heffect
  generalize hlive : s'.live = live at heffect
  have hold : ∀ other conn, other ≠ guard → s.held other = some conn →
      s.state conn ≠ .connected := fun other conn _ hother => (h.held other conn hother).2
  cases heffect with
  | none hconn hconnects =>
    refine h.move_kept hguards hconnections hlive (GuardPhase.newConn_of_connects hconnects) ?_ ?_
    · simp [hconn]
    · rwa [hstate]
  | check hphase hroom =>
    subst hphase
    refine h.move_kept hguards hconnections hlive rfl (fun _ hconn => nomatch hconn) ?_
    rwa [hstate]
  | miss hbefore hphase =>
    subst hphase
    refine h.move_kept hguards hconnections hlive rfl (fun _ hconn => nomatch hconn) ?_
    rwa [hstate]
  | find mine hbefore hphase =>
    subst hphase
    have hmine : s.held guard = some mine := held_of_guards hbefore
    refine h.move_kept hguards hconnections hlive rfl ?_ ?_
    · intro conn hconn
      cases hconn
      rw [hstate]
      exact ⟨(h.held guard _ hmine).1, (h.held guard _ hmine).2,
        fun other hne hother => ne_of_held h hne hmine hother rfl⟩
    · rwa [hstate]
  | claim mine hphase hmem hfree =>
    subst hphase
    exact exclusive_mark h hguards rfl rfl (by decide) hmem
      (fun other _ hother => (h.held other _ hother).2 hfree) hconnections hstate hlive
  | fail mine hbefore hphase =>
    subst hphase
    have hmine : s.held guard = some mine := held_of_guards hbefore
    exact exclusive_mark h hguards rfl rfl (by decide) (h.held guard _ hmine).1
      (fun other hne hother => ne_of_held h hne hmine hother rfl) hconnections hstate hlive
  | release mine hbefore hphase =>
    subst hphase
    have hmine : s.held guard = some mine := held_of_guards hbefore
    refine h.move_kept hguards hconnections hlive rfl (fun _ hconn => nomatch hconn) ?_
    rw [hstate]
    intro other conn hne hother
    rw [Function.update_of_ne (ne_of_held h hne hmine hother)]
    exact hold other conn hne hother
  | make mine hbefore hphase hnew =>
    subst hphase
    exact exclusive_make h hguards hnew hconnections hstate hlive
  | push mine hbefore hmutex hphase =>
    subst hphase
    exact exclusive_push h hguards hbefore hconnections hstate hlive
  | replace old new hbefore hphase hnew =>
    subst hphase
    exact exclusive_replace h hguards hbefore hnew hconnections hstate hlive
  | erase old hbefore hphase =>
    subst hphase
    exact exclusive_erase h hguards hbefore hconnections hstate hlive

/-! ## Runs -/

/-- The connections of the start are free. -/
theorem exclusive_initialized (config : ConnectionPoolConfig) (made : ℕ → Option Address) :
    Exclusive (ConnectionPool.initialized config made) := by
  have h := initialized_induction config made
    (fun s => (s.connections.Nodup ∧ ∀ conn ∈ s.connections, conn ∈ s.live)) (by simp) ?_
  · have hidle := guards_initialized config made
    constructor
    case nodup => exact h.1
    case pooled => exact h.2
    case new => simp [hidle, GuardPhase.newConn]
    case newApart => simp [hidle, GuardPhase.newConn]
    case held => simp [ConnectionPool.held, hidle, GuardPhase.conn]
    case apart => simp [ConnectionPool.held, hidle, GuardPhase.conn]
  · rintro s conn ⟨hnodup, hpooled⟩
    unfold ConnectionPool.preEstablish
    split
    · exact ⟨hnodup, hpooled⟩
    · rename_i a
      split_ifs with hlive
      · exact ⟨hnodup, hpooled⟩
      · constructor
        · exact List.nodup_append.mpr ⟨hnodup, List.nodup_singleton _, by
            intro b hb c hc
            rw [List.mem_singleton.mp hc]
            exact ne_of_new hlive (hpooled b hb)⟩
        · intro b hb
          rcases List.mem_append.mp hb with hin | hlast
          · exact Finset.mem_insert_of_mem (hpooled b hin)
          · rw [List.mem_singleton.mp hlast]
            exact Finset.mem_insert_self _ _

/-- In every state of a run a connection has one guard at most. -/
theorem exclusive_after (config : ConnectionPoolConfig) (made : ℕ → Option Address)
    (events : List PoolEvent) : Exclusive (ConnectionPool.after config made events) := by
  refine after_induction config made Exclusive (exclusive_initialized config made) ?_ events
  intro s event h
  rcases step_move s event with hsame | ⟨phase, hmove⟩
  · rwa [hsame]
  · exact exclusive_of_move h hmove

/-! ## Connections that go -/

/-- A connection that a step destroys, or takes out of the pool, is the one that its guard has
marked failed. -/
theorem replacing_of_gone (h : Exclusive s) (event : PoolEvent) {conn : Address}
    (hgone : conn ∈ s.live ∧ conn ∉ (s.step event).live ∨
      conn ∈ s.connections ∧ conn ∉ (s.step event).connections) :
    s.guards event.guard = .replacing conn := by
  rcases step_move s event with hsame | ⟨phase, hmove⟩
  · rw [hsame] at hgone
    rcases hgone with ⟨hin, hout⟩ | ⟨hin, hout⟩ <;> exact absurd hin hout
  · have heffect := hmove.effect
    generalize (s.step event).connections = connections at heffect hgone
    generalize (s.step event).state = state at heffect
    generalize (s.step event).live = live at heffect hgone
    cases heffect with
    | none | check | miss | find | claim | release | fail =>
      rcases hgone with ⟨hin, hout⟩ | ⟨hin, hout⟩ <;> exact absurd hin hout
    | make mine hbefore hphase hnew =>
      rcases hgone with ⟨hin, hout⟩ | ⟨hin, hout⟩
      · exact absurd (Finset.mem_insert_of_mem hin) hout
      · exact absurd hin hout
    | push mine hbefore hmutex hphase =>
      rcases hgone with ⟨hin, hout⟩ | ⟨hin, hout⟩
      · exact absurd hin hout
      · exact absurd (List.mem_append_left _ hin) hout
    | replace old new hbefore hphase hnew =>
      have hmine : s.held event.guard = some old := held_of_guards hbefore
      have hpool := (h.held _ old hmine).1
      by_contra hother
      have hne : conn ≠ old := fun heq => hother (heq ▸ hbefore)
      rcases hgone with ⟨hin, hout⟩ | ⟨hin, hout⟩
      · exact hout (Finset.mem_erase.mpr ⟨hne, Finset.mem_insert_of_mem hin⟩)
      · exact hout ((mem_replace_iff h.nodup hpool).mpr (.inr ⟨hin, hne⟩))
    | erase old hbefore hphase =>
      by_contra hother
      have hne : conn ≠ old := fun heq => hother (heq ▸ hbefore)
      rcases hgone with ⟨hin, hout⟩ | ⟨hin, hout⟩
      · exact hout (Finset.mem_erase.mpr ⟨hne, hin⟩)
      · exact hout ((h.nodup.mem_erase_iff).mpr ⟨hne, hin⟩)

/-! ## The claim -/

/-- No connection is held by two guards, and the only guard that has a connection when it is
destroyed or replaced is the one that has marked it failed. -/
theorem connection_exclusive (config : ConnectionPoolConfig) (made : ℕ → Option Address)
    (events : List PoolEvent) :
    let s := ConnectionPool.after config made events
    (∀ guard guard' conn, s.held guard = some conn → s.held guard' = some conn →
      guard = guard') ∧
    ∀ event conn,
      conn ∈ s.live ∧ conn ∉ (s.step event).live ∨
        conn ∈ s.connections ∧ conn ∉ (s.step event).connections →
      s.guards event.guard = .replacing conn ∧
        ∀ guard, s.held guard = some conn → guard = event.guard := by
  intro s
  have h : Exclusive s := exclusive_after config made events
  refine ⟨h.apart, ?_⟩
  intro event conn hgone
  have hphase := replacing_of_gone h event hgone
  have hmine : s.held event.guard = some conn := by rw [ConnectionPool.held, hphase]; rfl
  exact ⟨hphase, fun guard hguard => h.apart guard event.guard conn hguard hmine⟩

end SpotRelay.Analysis
