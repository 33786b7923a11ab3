import SpotRelay.Library.Run
import SpotRelay.Model.WsBroadcastServer

/-!
# The sessions of the broadcast server

The strand of a session has at most one `do_write` posted or one `async_write` outstanding, and
`writing_` says whether it has one, or had one that failed.  So no write runs into another, the
message that is being written stays where it is, and what is queued is on its way.

* **the server**: what an event does to a session is a step of that session (`step_session`).
* **one session** that is left alone sends all that it has queued (`session_drains`), unless a write
  of it has failed, and then it writes nothing any more (`run_failed`).
-/

set_option autoImplicit false

namespace SpotRelay.Analysis

open SpotRelay.Model SpotRelay.Library

/-! ## One session -/

/-- What holds of a session in every state. -/
structure SessionSound (s : WebSocketSession) : Prop where
  account : s.sent = s.written ++ s.failed ++ s.writes ++ s.queue
  one : s.posted + s.writes.length + s.failed.length = if s.writing then 1 else 0
  current : s.writes = [] ∨ s.writes = [s.currentMessage]
  idle : s.writing = false → s.queue = []

/-- A session that has not begun has nothing in its queue. -/
theorem sessionSound_start : SessionSound {} where
  account := rfl
  one := rfl
  current := .inl rfl
  idle := fun _ => rfl

variable {s : WebSocketSession}

/-- A message that is sent is posted behind the others. -/
theorem send_sound (h : SessionSound s) (message : String) : SessionSound (s.send message) where
  account := by
    simp only [WebSocketSession.send, h.account, List.append_assoc]
  one := by
    have hone := h.one
    simp only [WebSocketSession.send, if_true]
    cases hwriting : s.writing with
    | true =>
      rw [hwriting] at hone
      exact hone
    | false =>
      rw [hwriting] at hone
      simp only [Bool.false_eq_true, if_false] at hone ⊢
      omega
  current := h.current
  idle := fun hfalse => by cases hfalse

/-- `do_write` takes over from a call or a write that has ended. -/
theorem doWrite_sound (haccount : s.sent = s.written ++ s.queue)
    (hnone : s.posted = 0 ∧ s.writes = [] ∧ s.failed = []) (hwriting : s.writing = true) :
    SessionSound s.doWrite := by
  obtain ⟨hposted, hwrites, hfailed⟩ := hnone
  unfold WebSocketSession.doWrite
  split
  · next hqueue =>
    constructor
    · simp [haccount, hwrites, hfailed, hqueue]
    · simp [hposted, hwrites, hfailed]
    · exact .inl hwrites
    · exact fun _ => hqueue
  · next message rest hqueue =>
    constructor
    · simp [haccount, hwrites, hfailed, hqueue]
    · simp [hposted, hwrites, hfailed, hwriting]
    · exact .inr (by simp [hwrites])
    · exact fun hidle => by simp [hwriting] at hidle

/-- A posted message goes to the end of the queue. -/
theorem runPosted_sound (h : SessionSound s) : SessionSound s.runPosted := by
  unfold WebSocketSession.runPosted
  split
  · exact h
  · next hposted =>
    have hone := h.one
    have hwriting : s.writing = true := by
      by_contra hidle
      rw [if_neg hidle] at hone
      omega
    rw [hwriting, if_pos rfl] at hone
    have hwrites : s.writes = [] := List.length_eq_zero_iff.mp (by omega)
    have hfailed : s.failed = [] := List.length_eq_zero_iff.mp (by omega)
    apply doWrite_sound
    · simp [h.account, hwrites, hfailed]
    · exact ⟨by simp only; omega, hwrites, hfailed⟩
    · exact hwriting

/-- A write that ends takes the front of the queue with it. -/
theorem onWrite_sound (h : SessionSound s) (error : Bool) : SessionSound (s.onWrite error) := by
  unfold WebSocketSession.onWrite
  split
  · exact h
  · next message rest hwrites =>
    have hone := h.one
    rw [hwrites, List.length_cons] at hone
    have hwriting : s.writing = true := by
      by_contra hidle
      rw [if_neg hidle] at hone
      omega
    rw [hwriting, if_pos rfl] at hone
    have hrest : rest = [] := List.length_eq_zero_iff.mp (by omega)
    have hfailed : s.failed = [] := List.length_eq_zero_iff.mp (by omega)
    have hposted : s.posted = 0 := by omega
    split
    · constructor
      · simp [h.account, hwrites, hfailed]
      · simp [hposted, hfailed, hrest, hwriting]
      · exact .inl hrest
      · exact h.idle
    · apply doWrite_sound
      · simp [h.account, hwrites, hfailed, hrest]
      · exact ⟨hposted, hrest, hfailed⟩
      · exact hwriting

/-- A write sends nothing new and leaves the phase. -/
theorem doWrite_sent : s.doWrite.sent = s.sent ∧ s.doWrite.phase = s.phase := by
  unfold WebSocketSession.doWrite
  split <;> exact ⟨rfl, rfl⟩

/-- A posted message sends nothing by itself. -/
theorem runPosted_sent : s.runPosted.sent = s.sent ∧ s.runPosted.phase = s.phase := by
  unfold WebSocketSession.runPosted
  split
  · exact ⟨rfl, rfl⟩
  · exact doWrite_sent

/-- A write that ends sends nothing by itself. -/
theorem onWrite_sent (error : Bool) :
    (s.onWrite error).sent = s.sent ∧ (s.onWrite error).phase = s.phase := by
  unfold WebSocketSession.onWrite
  split
  · exact ⟨rfl, rfl⟩
  · split
    · exact ⟨rfl, rfl⟩
    · exact doWrite_sent

/-! ## The set of sessions -/

/-- What was broadcast in a span of the log. -/
def window (log : List String) : SessionSpan → List String
  | .never => []
  | .since start => log.drop start
  | .between start stop => (log.take stop).drop start

/-- The span lies in the log. -/
def Within (length : ℕ) : SessionSpan → Prop
  | .never => True
  | .since start => start ≤ length
  | .between _ stop => stop ≤ length

/-- What the broadcast under way has yet to send to a session. -/
def due (s : WsBroadcastServer) (i : ℕ) : List String :=
  match s.broadcasting with
  | none => []
  | some (message, rest) => if i ∈ rest then [message] else []

/-- What holds of the server in every state. -/
structure BroadcastSound (s : WsBroadcastServer) : Prop where
  sessions : ∀ i, SessionSound (s.session i)
  member : ∀ i, i ∈ s.sessions ↔ ∃ start, s.span i = .since start
  within : ∀ i, Within s.log.length (s.span i)
  handshake : ∀ i, (s.session i).phase = .handshake → s.span i = .never
  remaining : ∀ message rest, s.broadcasting = some (message, rest) →
    rest.Nodup ∧ ∀ i ∈ rest, i ∈ s.sessions
  delivered : ∀ i, (s.session i).sent ++ due s i = window s.log (s.span i)

variable {server : WsBroadcastServer} {i : ℕ}

/-- Nothing has been broadcast at the start. -/
theorem broadcastSound_start : BroadcastSound {} where
  sessions := fun _ => sessionSound_start
  member := fun i => by simp
  within := fun _ => trivial
  handshake := fun _ _ => rfl
  remaining := fun _ _ h => by cases h
  delivered := fun _ => rfl

/-- A span that ends now stays within the log. -/
theorem within_ended {length : ℕ} {span : SessionSpan} (h : Within length span) :
    Within length (span.ended length) := by
  cases span with
  | since start => exact le_rfl
  | never => exact h
  | between start stop => exact h

/-- A span that ends now has what it had in it. -/
theorem window_ended (log : List String) (span : SessionSpan) :
    window log (span.ended log.length) = window log span := by
  cases span with
  | since start => simp [SessionSpan.ended, window]
  | never => rfl
  | between start stop => rfl

/-- A span that has ended is not open. -/
theorem ended_ne_since {length start : ℕ} (span : SessionSpan) :
    span.ended length ≠ .since start := by
  cases span <;> simp [SessionSpan.ended]

/-- A handler that sends nothing new and stays behind the handshake. -/
theorem BroadcastSound.setSession (h : BroadcastSound server) {next : WebSocketSession}
    (hsound : SessionSound next) (hsent : next.sent = (server.session i).sent)
    (hphase : next.phase = .handshake → (server.session i).phase = .handshake) :
    BroadcastSound (server.setSession i next) where
  sessions := by
    intro j
    simp only [WsBroadcastServer.setSession]
    by_cases heq : j = i
    · rw [heq, Function.update_self]
      exact hsound
    · rw [Function.update_of_ne heq]
      exact h.sessions j
  member := h.member
  within := h.within
  handshake := by
    intro j hj
    simp only [WsBroadcastServer.setSession] at hj
    by_cases heq : j = i
    · rw [heq, Function.update_self] at hj
      rw [heq]
      exact h.handshake i (hphase hj)
    · rw [Function.update_of_ne heq] at hj
      exact h.handshake j hj
  remaining := h.remaining
  delivered := by
    intro j
    refine Eq.trans ?_ (h.delivered j)
    simp only [WsBroadcastServer.setSession]
    by_cases heq : j = i
    · rw [heq, Function.update_self, hsent]
      rfl
    · rw [Function.update_of_ne heq]
      rfl

/-- A session that joins begins its span at the end of the log. -/
theorem sessionJoin_sound (h : BroadcastSound server) (hfree : server.broadcasting = none)
    (hnever : server.span i = .never) (hphase : (server.session i).phase ≠ .handshake) :
    BroadcastSound (server.join i) where
  sessions := h.sessions
  member := by
    intro j
    simp only [WsBroadcastServer.join, Finset.mem_insert]
    by_cases heq : j = i
    · rw [heq, Function.update_self]
      simp
    · rw [Function.update_of_ne heq, ← h.member j]
      simp [heq]
  within := by
    intro j
    simp only [WsBroadcastServer.join]
    by_cases heq : j = i
    · rw [heq, Function.update_self]
      exact le_rfl
    · rw [Function.update_of_ne heq]
      exact h.within j
  handshake := by
    intro j hj
    have hne : j ≠ i := by
      rintro rfl
      exact hphase hj
    simp only [WsBroadcastServer.join, Function.update_of_ne hne]
    exact h.handshake j hj
  remaining := by
    intro message rest hrest
    rw [WsBroadcastServer.join, hfree] at hrest
    cases hrest
  delivered := by
    intro j
    have hdelivered := h.delivered j
    change (server.session j).sent ++ due server j = window server.log _
    rw [hdelivered]
    simp only [WsBroadcastServer.join]
    by_cases heq : j = i
    · rw [heq, Function.update_self, hnever]
      simp [window]
    · rw [Function.update_of_ne heq]

/-- A session leaves, or several do. -/
theorem ended_sound (h : BroadcastSound server) (hfree : server.broadcasting = none)
    {next : WsBroadcastServer} (hsession : next.session = server.session)
    (hlog : next.log = server.log) (hbroadcasting : next.broadcasting = none)
    (hspan : ∀ j, (j ∉ next.sessions ∧ next.span j = (server.span j).ended server.log.length) ∨
      ((j ∈ next.sessions ↔ j ∈ server.sessions) ∧ next.span j = server.span j)) :
    BroadcastSound next where
  sessions := by
    rw [hsession]
    exact h.sessions
  member := by
    intro j
    rcases hspan j with ⟨hleft, hended⟩ | ⟨hsame, hspan⟩
    · rw [hended]
      simp [hleft, ended_ne_since]
    · rw [hsame, hspan]
      exact h.member j
  within := by
    intro j
    rw [hlog]
    rcases hspan j with ⟨-, hended⟩ | ⟨-, hspan⟩
    · rw [hended]
      exact within_ended (h.within j)
    · rw [hspan]
      exact h.within j
  handshake := by
    intro j hj
    rw [hsession] at hj
    have hnever := h.handshake j hj
    rcases hspan j with ⟨-, hended⟩ | ⟨-, hspan⟩
    · rw [hended, hnever]
      rfl
    · rw [hspan, hnever]
  remaining := by
    intro message rest hrest
    rw [hbroadcasting] at hrest
    cases hrest
  delivered := by
    intro j
    have hdelivered := h.delivered j
    simp only [due, hfree, List.append_nil] at hdelivered
    simp only [due, hbroadcasting, List.append_nil, hsession, hlog, hdelivered]
    rcases hspan j with ⟨-, hended⟩ | ⟨-, hspan⟩
    · rw [hended, window_ended]
    · rw [hspan]

/-- A session that leaves ends its span there. -/
theorem leave_sound (h : BroadcastSound server) (hfree : server.broadcasting = none) (i : ℕ) :
    BroadcastSound (server.leave i) := by
  refine ended_sound h hfree rfl rfl ?_ ?_
  · exact hfree
  intro j
  simp only [WsBroadcastServer.leave]
  by_cases heq : j = i
  · left
    rw [heq, Function.update_self]
    exact ⟨Finset.notMem_erase i _, rfl⟩
  · right
    exact ⟨by simp [heq], Function.update_of_ne heq ..⟩

/-- `stop` ends all spans. -/
theorem serverStop_sound (h : BroadcastSound server) (hfree : server.broadcasting = none) :
    BroadcastSound server.stop := by
  unfold WsBroadcastServer.stop
  split
  · refine ended_sound h hfree rfl rfl ?_ ?_
    · exact hfree
    · exact fun j => .inl ⟨Finset.notMem_empty j, rfl⟩
  · exact h

/-- A broadcast takes the lock, and has every session before it. -/
theorem broadcast_sound (h : BroadcastSound server) (hfree : server.broadcasting = none)
    (message : String) :
    BroadcastSound { server with
      broadcasting := some (message, server.sessions.sort (· ≤ ·))
      log := server.log ++ [message] } where
  sessions := h.sessions
  member := h.member
  within := by
    intro j
    have hwithin := h.within j
    simp only [List.length_append, List.length_singleton]
    cases hspan : server.span j with
    | never => exact trivial
    | since start =>
      rw [hspan] at hwithin
      exact Nat.le_succ_of_le hwithin
    | between start stop =>
      rw [hspan] at hwithin
      exact Nat.le_succ_of_le hwithin
  handshake := h.handshake
  remaining := by
    intro sent rest hrest
    cases hrest
    exact ⟨Finset.sort_nodup .., fun j hj => (Finset.mem_sort _).mp hj⟩
  delivered := by
    intro j
    have hdelivered := h.delivered j
    have hwithin := h.within j
    simp only [due, hfree, List.append_nil] at hdelivered
    simp only [due, Finset.mem_sort, hdelivered]
    cases hspan : server.span j with
    | never =>
      have hout : j ∉ server.sessions := by simp [h.member, hspan]
      simp [hout, window]
    | since start =>
      have hin : j ∈ server.sessions := (h.member j).mpr ⟨start, hspan⟩
      rw [hspan] at hwithin
      rw [if_pos hin]
      exact (List.drop_append_of_le_length hwithin).symm
    | between start stop =>
      have hout : j ∉ server.sessions := by simp [h.member, hspan]
      rw [hspan] at hwithin
      rw [if_neg hout, List.append_nil]
      simp only [window]
      rw [List.take_append_of_le_length hwithin]

/-- A broadcast reaches one session at a time. -/
theorem sendNext_sound (h : BroadcastSound server) : BroadcastSound server.sendNext := by
  unfold WsBroadcastServer.sendNext
  split
  · exact h
  · next message hbroadcasting =>
    refine ⟨h.sessions, h.member, h.within, h.handshake, ?_, ?_⟩
    · exact fun _ _ hrest => absurd hrest (by simp)
    intro j
    have hdelivered := h.delivered j
    simp only [due, hbroadcasting, List.not_mem_nil, if_false] at hdelivered
    exact hdelivered
  · next message i rest hbroadcasting =>
    obtain ⟨hnodup, hmem⟩ := h.remaining message (i :: rest) hbroadcasting
    obtain ⟨hfirst, hrest⟩ := List.nodup_cons.mp hnodup
    refine ⟨?_, h.member, h.within, ?_, ?_, ?_⟩
    · intro j
      simp only [WsBroadcastServer.setSession]
      by_cases heq : j = i
      · rw [heq, Function.update_self]
        exact send_sound (h.sessions i) message
      · rw [Function.update_of_ne heq]
        exact h.sessions j
    · intro j hj
      simp only [WsBroadcastServer.setSession] at hj
      by_cases heq : j = i
      · rw [heq, Function.update_self] at hj
        rw [heq]
        exact h.handshake i hj
      · rw [Function.update_of_ne heq] at hj
        exact h.handshake j hj
    · intro sent left hleft
      cases hleft
      exact ⟨hrest, fun j hj => hmem j (List.mem_cons_of_mem i hj)⟩
    · intro j
      have hdelivered := h.delivered j
      simp only [due, hbroadcasting, List.mem_cons] at hdelivered
      simp only [due, WsBroadcastServer.setSession]
      by_cases heq : j = i
      · subst heq
        rw [if_pos (Or.inl rfl)] at hdelivered
        rw [Function.update_self, if_neg hfirst, List.append_nil]
        exact hdelivered
      · rw [Function.update_of_ne heq]
        simp only [heq, false_or] at hdelivered
        exact hdelivered

/-! ## Runs -/

/-- A step that needs the lock keeps what holds if it does so where nobody has the lock. -/
theorem locked_sound (h : BroadcastSound server) {next : WsBroadcastServer}
    (hnext : server.broadcasting = none → BroadcastSound next) :
    BroadcastSound (server.locked next) := by
  unfold WsBroadcastServer.locked
  split
  · exact h
  · next hfree => exact hnext (by simpa using hfree)

/-- The phase of a session does not matter for its queue. -/
theorem sessionSound_phase (h : SessionSound s) (phase : SessionPhase) :
    SessionSound { s with phase := phase } :=
  ⟨h.account, h.one, h.current, h.idle⟩

/-- Every event keeps the invariant. -/
theorem step_broadcastSound (h : BroadcastSound server) (event : ServerEvent) :
    BroadcastSound (server.step event) := by
  cases event with
  | start error =>
    simp only [WsBroadcastServer.step]
    split
    · exact h
    · exact ⟨h.sessions, h.member, h.within, h.handshake, h.remaining, h.delivered⟩
  | accepted i error =>
    simp only [WsBroadcastServer.step]
    split
    · next hphase =>
      have hset : ∀ phase, phase ≠ .handshake → BroadcastSound
          (server.setSession i { server.session i with phase := phase }) := by
        intro phase hne
        exact h.setSession (sessionSound_phase (h.sessions i) phase) rfl fun heq => absurd heq hne
      split
      · exact hset .closed (by decide)
      · apply locked_sound h
        intro hfree
        apply sessionJoin_sound (hset .reading (by decide)) hfree (h.handshake i hphase)
        simp [WsBroadcastServer.setSession]
    · exact h
    · exact h
  | read i error =>
    simp only [WsBroadcastServer.step]
    split
    · split
      · apply locked_sound h
        intro hfree
        have hset : BroadcastSound
            (server.setSession i { server.session i with phase := .closed }) :=
          h.setSession (sessionSound_phase (h.sessions i) .closed) rfl fun heq => by cases heq
        exact leave_sound hset hfree i
      · exact h
    · exact h
    · exact h
  | posted i =>
    have hsent := runPosted_sent (s := server.session i)
    exact h.setSession (runPosted_sound (h.sessions i)) hsent.1 fun hphase => hsent.2 ▸ hphase
  | written i error =>
    have hset : ∀ error, BroadcastSound
        (server.setSession i ((server.session i).onWrite error)) := by
      intro error
      have hsent := onWrite_sent (s := server.session i) error
      exact h.setSession (onWrite_sound (h.sessions i) error) hsent.1
        fun hphase => hsent.2 ▸ hphase
    simp only [WsBroadcastServer.step]
    split
    · exact h
    · split
      · exact locked_sound h fun hfree => leave_sound (hset true) hfree i
      · exact hset false
  | broadcast message => exact locked_sound h fun hfree => broadcast_sound h hfree message
  | send => exact sendNext_sound h
  | stop => exact locked_sound h fun hfree => serverStop_sound h hfree

/-- It holds in every state of a run. -/
theorem run_broadcastSound (events : List ServerEvent) :
    BroadcastSound (WsBroadcastServer.run {} events) := by
  unfold WsBroadcastServer.run
  apply List.foldlRecOn
  · exact broadcastSound_start
  · exact fun _ hs event _ => step_broadcastSound hs event

/-! ## The queue of a session -/

/-- What a session has left to do. -/
def sessionSize (s : WebSocketSession) : ℕ := 3 * s.queue.length + 2 * s.writes.length + s.posted

/-- A write does not make a session larger. -/
theorem doWrite_size : sessionSize s.doWrite ≤ sessionSize s := by
  unfold WebSocketSession.doWrite
  split
  · exact le_rfl
  · next message rest hqueue =>
    simp only [sessionSize, hqueue, List.length_cons, List.length_append, List.length_nil]
    omega

/-- It records neither a failure nor a message. -/
theorem doWrite_ledger : s.doWrite.failed = s.failed ∧ s.doWrite.written = s.written := by
  unfold WebSocketSession.doWrite
  split <;> exact ⟨rfl, rfl⟩

/-- A session that has something to write has a call or a write that brings it forward. -/
theorem session_progress (h : SessionSound s) (hfailed : s.failed = [])
    (hleft : s.written ≠ s.sent) :
    (sessionSize s.runPosted < sessionSize s ∧ s.runPosted.failed = []) ∨
      s.writes ≠ [] ∧ sessionSize (s.onWrite false) < sessionSize s ∧
        (s.onWrite false).failed = [] := by
  have hone := h.one
  rw [hfailed, List.length_nil] at hone
  cases hwrites : s.writes with
  | cons message rest =>
    right
    simp only [WebSocketSession.onWrite, hwrites, Bool.false_eq_true, if_false]
    refine ⟨by simp, ?_, ?_⟩
    · refine Nat.lt_of_le_of_lt doWrite_size ?_
      simp only [sessionSize, hwrites, List.length_cons]
      omega
    · rw [doWrite_ledger.1]
      exact hfailed
  | nil =>
    left
    have hwriting : s.writing = true := by
      by_contra hidle
      have hqueue := h.idle (by simpa using hidle)
      exact hleft (by simp [h.account, hfailed, hwrites, hqueue])
    rw [hwrites, hwriting, if_pos rfl, List.length_nil] at hone
    have hposted : s.posted ≠ 0 := by omega
    simp only [WebSocketSession.runPosted, if_neg hposted]
    refine ⟨?_, ?_⟩
    · refine Nat.lt_of_le_of_lt doWrite_size ?_
      simp only [sessionSize]
      omega
    · rw [doWrite_ledger.1]
      exact hfailed

/-- A posted `do_write` of the session runs, or a write of it succeeds. -/
def WritesOn (i : ℕ) (event : ServerEvent) : Prop :=
  event = .posted i ∨ event = .written i false

/-- The handlers of a session write out what it was given. -/
theorem session_drains (h : BroadcastSound server) (hfailed : (server.session i).failed = []) :
    ∃ more : List ServerEvent, (∀ event ∈ more, WritesOn i event) ∧
      ((server.run more).session i).written = (server.session i).sent := by
  suffices hreach : ∃ more : List ServerEvent,
      (∀ event ∈ more, WritesOn i event) ∧
      (BroadcastSound (server.run more) ∧ ((server.run more).session i).failed = [] ∧
        ((server.run more).session i).sent = (server.session i).sent) ∧
      ((server.run more).session i).written = (server.session i).sent by
    obtain ⟨more, hmore, -, hend⟩ := hreach
    exact ⟨more, hmore, hend⟩
  apply Run.exists_reach (WritesOn i)
    (fun next => BroadcastSound next ∧ (next.session i).failed = [] ∧
      (next.session i).sent = (server.session i).sent)
    (fun next => (next.session i).written = (server.session i).sent)
    (fun next => sessionSize (next.session i)) _ server ⟨h, hfailed, rfl⟩
  rintro next ⟨hsound, hfailed, hsent⟩ hleft
  rw [← hsent] at hleft
  rcases session_progress (hsound.sessions i) hfailed hleft with ⟨hless, hnone⟩ |
    ⟨hwrites, hless, hnone⟩
  · have hself : ((next.step (.posted i)).session i) = (next.session i).runPosted :=
      Function.update_self ..
    refine ⟨.posted i, .inl rfl, ⟨step_broadcastSound hsound _, ?_, ?_⟩, ?_⟩
    · rw [hself]
      exact hnone
    · rw [hself, runPosted_sent.1]
      exact hsent
    · rw [hself]
      exact hless
  · have hself : ((next.step (.written i false)).session i) = (next.session i).onWrite false := by
      simp only [WsBroadcastServer.step]
      split
      · next hempty => exact absurd hempty hwrites
      · exact Function.update_self ..
    refine ⟨.written i false, .inr rfl, ⟨step_broadcastSound hsound _, ?_, ?_⟩, ?_⟩
    · rw [hself]
      exact hnone
    · rw [hself, (onWrite_sent false).1]
      exact hsent
    · rw [hself]
      exact hless

/-! ## The results -/

/-- What a step can do to a session. -/
inductive SessionStep (s : WebSocketSession) : WebSocketSession → Prop
  | none : SessionStep s s
  | phase (phase : SessionPhase) : SessionStep s { s with phase := phase }
  | send (message : String) : SessionStep s (s.send message)
  | posted : SessionStep s s.runPosted
  | written (error : Bool) : SessionStep s (s.onWrite error)

/-- A step of one session is at most a step for each other one. -/
theorem setSession_step {next : WebSocketSession} (j : ℕ)
    (hnext : SessionStep (server.session i) next) :
    SessionStep (server.session j) ((server.setSession i next).session j) := by
  simp only [WsBroadcastServer.setSession]
  by_cases heq : j = i
  · rw [heq, Function.update_self]
    exact hnext
  · rw [Function.update_of_ne heq]
    exact .none

/-- What is a step of a session is one behind the lock of the server, too. -/
theorem locked_step {next : WsBroadcastServer} (j : ℕ)
    (hnext : SessionStep (server.session j) (next.session j)) :
    SessionStep (server.session j) ((server.locked next).session j) := by
  unfold WsBroadcastServer.locked
  split
  · exact .none
  · exact hnext

/-- What an event does to a session is a step of that session. -/
theorem step_session (event : ServerEvent) (j : ℕ) :
    SessionStep (server.session j) ((server.step event).session j) := by
  cases event with
  | start error =>
    simp only [WsBroadcastServer.step]
    split <;> exact .none
  | accepted i error =>
    simp only [WsBroadcastServer.step]
    split
    · split
      · exact setSession_step j (.phase .closed)
      · exact locked_step j (setSession_step j (.phase .reading))
    · exact .none
    · exact .none
  | read i error =>
    simp only [WsBroadcastServer.step]
    split
    · split
      · exact locked_step j (setSession_step j (.phase .closed))
      · exact .none
    · exact .none
    · exact .none
  | posted i => exact setSession_step j .posted
  | written i error =>
    simp only [WsBroadcastServer.step]
    split
    · exact .none
    · split
      · exact locked_step j (setSession_step j (.written true))
      · exact setSession_step j (.written false)
  | broadcast message => exact locked_step j .none
  | send =>
    simp only [WsBroadcastServer.step, WsBroadcastServer.sendNext]
    split
    · exact .none
    · exact .none
    · next message i rest _ => exact setSession_step j (.send message)
  | stop =>
    apply locked_step
    unfold WsBroadcastServer.stop
    split <;> exact .none

/-- A session whose write failed keeps what it has written, whatever is sent to it. -/
theorem sessionStep_failed (h : SessionSound s) (hfailed : s.failed ≠ [])
    {next : WebSocketSession} (hstep : SessionStep s next) :
    next.written = s.written ∧ next.failed = s.failed := by
  have hone := h.one
  have hlength := List.length_pos_iff.mpr hfailed
  have hposted : s.posted = 0 := by split at hone <;> omega
  have hwrites : s.writes = [] := List.length_eq_zero_iff.mp (by split at hone <;> omega)
  cases hstep with
  | none => exact ⟨rfl, rfl⟩
  | phase => exact ⟨rfl, rfl⟩
  | send => exact ⟨rfl, rfl⟩
  | posted =>
    rw [WebSocketSession.runPosted, if_pos hposted]
    exact ⟨rfl, rfl⟩
  | written error =>
    simp only [WebSocketSession.onWrite, hwrites]
    exact ⟨trivial, trivial⟩

/-- Once a write of a session has failed nothing of it is written any more. -/
theorem run_failed (h : BroadcastSound server) (hfailed : (server.session i).failed ≠ [])
    (more : List ServerEvent) :
    ((server.run more).session i).written = (server.session i).written := by
  induction more generalizing server with
  | nil => rfl
  | cons event more ih =>
    obtain ⟨hwritten, hstill⟩ := sessionStep_failed (h.sessions i) hfailed (step_session event i)
    have hnext := ih (step_broadcastSound h event) (by rw [hstill]; exact hfailed)
    exact hnext.trans hwritten

/-- In every state of every run a session has at most one `async_write` outstanding, whose message
is still in `current_message_`; what it was sent is, in this order, what it has written, what it is
writing or failed to write, and what is queued.  As long as no write failed its handlers can write
out all of it; after a failed write it writes nothing more. -/
theorem session_writes_in_order (events : List ServerEvent) (i : ℕ) :
    let server := WsBroadcastServer.run {} events
    let s := server.session i
    (s.writes = [] ∨ s.writes = [s.currentMessage]) ∧
      s.sent = s.written ++ s.failed ++ s.writes ++ s.queue ∧
      (s.failed = [] → ∃ more : List ServerEvent, (∀ event ∈ more, WritesOn i event) ∧
        ((server.run more).session i).written = s.sent) ∧
      (s.failed ≠ [] → ∀ more : List ServerEvent,
        ((server.run more).session i).written = s.written) := by
  intro server s
  have hsound : BroadcastSound server := run_broadcastSound events
  have hsession := hsound.sessions i
  refine ⟨hsession.current, hsession.account, ?_, ?_⟩
  · exact fun hfailed => session_drains hsound hfailed
  · exact fun hfailed more => run_failed hsound hfailed more

/-- In every state of every run what a session was sent, with what the broadcast under way has yet
to send to it, is what was broadcast while it was in the set, each message once and in the order of
the broadcasts, which is one for all sessions; and what it has written is a beginning of it. -/
theorem broadcasts_reach_sessions (events : List ServerEvent) (i : ℕ) :
    let server := WsBroadcastServer.run {} events
    (i ∈ server.sessions ↔ ∃ start, server.span i = .since start) ∧
      (server.session i).sent ++ due server i = window server.log (server.span i) ∧
      (server.session i).written <+: window server.log (server.span i) := by
  intro server
  have hsound : BroadcastSound server := run_broadcastSound events
  have hdelivered := hsound.delivered i
  refine ⟨hsound.member i, hdelivered, ?_⟩
  rw [← hdelivered, (hsound.sessions i).account]
  simp only [List.append_assoc]
  exact List.prefix_append _ _

end SpotRelay.Analysis
