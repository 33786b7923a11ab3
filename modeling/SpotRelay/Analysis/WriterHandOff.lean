import SpotRelay.Library.FlagHolder
import SpotRelay.Library.Run
import SpotRelay.Model.WriteQueue

/-!
# The writer of a session

Whoever finds `is_writing_` clear becomes the writer.  A push is followed by an exchange of the
flag, and a writer that finds the queue empty looks again after it has cleared the flag, so a
message is never left without a writer by a hand-over.  Two other steps leave one: a write that
fails gives up the flag with the rest of the queue unwritten, and a new session begins with what
is left of the queue of the session before.

* **the invariant**: a queue that is not empty has a writer, or somebody about to become one, and it
  is of the current session (`QueueInvariant`).
* **one step** keeps it where no session begins with messages of an earlier one and no failed write
  leaves messages to nobody (`QueueDrained`, `QueueInvariant.step`).
-/

set_option autoImplicit false

namespace SpotRelay.Model.TaskPhase

/-- The task is the writer, or its `do_write` is dispatched. -/
def holdsFlag : TaskPhase → Bool
  | .popping | .clearing | .writing | .releasing => true
  | _ => false

/-- The task is about to claim the flag if the queue needs it. -/
def handsOver : TaskPhase → Bool
  | .claiming | .rechecking | .reclaiming => true
  | _ => false

end SpotRelay.Model.TaskPhase

namespace SpotRelay.Analysis

open SpotRelay.Model SpotRelay.Library

/-- Every message is written in the session that it was accepted in, and a message that waits in a
live session has a writer, or a task that makes itself one with its next operations. -/
structure WritesServed (s : WriteState) : Prop where
  same_session : ∀ t ∈ s.transmitted, t.message.session = t.session
  served : s.client.state = .connected → s.writeQueue ≠ [] →
    s.isWriting = true ∨
      ∃ task, (s.phase task).handsOver = true ∧ ((s.run task).run task).isWriting = true
  active : s.isWriting = true → ∃ task, (s.phase task).holdsFlag = true

/-- No session begins with a message left of an earlier one, and no failed write gives up the flag
in a live session while messages wait for nobody else. -/
def QueueDrained (s : WriteState) : WriteEvent → Prop
  | .handshake => 0 < s.client.opening → s.writeQueue = []
  | .run task =>
    s.phase task = .releasing → s.client.state = .connected →
      s.writeQueue = [] ∨ ∃ other, (s.phase other).handsOver = true
  | _ => True

variable {s : WriteState} {task : ℕ}

/-- A task that hands over claims the flag for a message that waits with its next operations. -/
theorem isWriting_of_handsOver (hhands : (s.phase task).handsOver = true)
    (hqueue : s.writeQueue ≠ []) : ((s.run task).run task).isWriting = true := by
  have hclaims : ∀ s' : WriteState, s'.writeQueue ≠ [] →
      s'.phase task = .claiming ∨ s'.phase task = .reclaiming → (s'.run task).isWriting = true ∧
        ((s'.run task).run task).isWriting = true := by
    intro s' hqueue hphase
    obtain ⟨message, rest, hcons⟩ := List.exists_cons_of_ne_nil hqueue
    rcases hphase with hphase | hphase
    all_goals
      cases hwriting : s'.isWriting <;>
        simp [WriteState.run, WriteState.goTo, hphase, hwriting, hcons]
  cases hphase : s.phase task with
  | claiming => exact (hclaims s hqueue (Or.inl hphase)).2
  | reclaiming => exact (hclaims s hqueue (Or.inr hphase)).2
  | rechecking =>
    have hstep : s.run task = s.goTo task .reclaiming := by
      simp [WriteState.run, hphase, hqueue]
    rw [hstep]
    exact (hclaims (s.goTo task .reclaiming) hqueue (Or.inr (Function.update_self ..))).1
  | _ => simp [hphase, TaskPhase.handsOver] at hhands

/-- `reconnect`, when nothing comes between its operations. -/
theorem reconnect_uninterrupted (hphase : s.phase task = .reconnecting) :
    ((((s.run task).run task).run task).run task).client = s.client.reconnect := by
  cases hmay : s.client.shouldReconnect <;>
    simp [WriteState.run, WriteState.goTo, hphase, hmay, WebSocketClient.reconnect,
      WebSocketClient.scheduleReconnect]

/-! ## The invariant -/

structure QueueInvariant (s : WriteState) : Prop where
  same_session : ∀ t ∈ s.transmitted, t.message.session = t.session
  current : ∀ message ∈ s.writeQueue, message.session = s.session
  served : s.client.state = .connected → s.writeQueue ≠ [] →
    s.isWriting = true ∨ ∃ task, (s.phase task).handsOver = true
  flag : FlagHolder TaskPhase.holdsFlag s.isWriting s.phase

/-- The write queue starts out empty. -/
theorem queueInvariant_start : QueueInvariant {} where
  same_session := by simp
  current := by simp
  served := by simp
  flag := by constructor <;> simp [TaskPhase.holdsFlag]

/-- Under the invariant every queued write has a writer. -/
theorem QueueInvariant.writesServed (h : QueueInvariant s) : WritesServed s where
  same_session := h.same_session
  served := by
    intro hin hqueue
    refine (h.served hin hqueue).imp_right ?_
    rintro ⟨task, hhands⟩
    exact ⟨task, hhands, isWriting_of_handsOver hhands hqueue⟩
  active := h.flag.active

/-! ## Steps that leave the flag -/

/-- The connection changes, or the task goes on, and nobody who was to claim the flag stops. -/
theorem QueueInvariant.goesOn (h : QueueInvariant s) {client : WebSocketClient} {phase : TaskPhase}
    (hstate : client.state = .connected → s.client.state = .connected)
    (hhands : (s.phase task).handsOver = true → phase.handsOver = true)
    (hholds : phase.holdsFlag = (s.phase task).holdsFlag) :
    QueueInvariant ({ s with client := client }.goTo task phase) where
  same_session := h.same_session
  current := h.current
  served hin hqueue :=
    (h.served (hstate hin) hqueue).imp_right fun hother => exists_update hother hhands
  flag := h.flag.pass hholds

/-- A task of the connection. -/
theorem QueueInvariant.aside (h : QueueInvariant s) {client : WebSocketClient}
    {current phase : TaskPhase} (hphase : s.phase task = current)
    (hstate : client.state = .connected → s.client.state = .connected)
    (hhands : current.handsOver = false) (hholds : current.holdsFlag = false)
    (hnext : phase.holdsFlag = false) :
    QueueInvariant ({ s with client := client }.goTo task phase) := by
  refine h.goesOn hstate ?_ ?_
  · rw [hphase, hhands]
    exact Bool.noConfusion
  · rw [hphase, hholds, hnext]

/-- A task that was to claim the flag finds it set, or the queue empty. -/
theorem QueueInvariant.rests (h : QueueInvariant s) (hholds : (s.phase task).holdsFlag = false)
    (hneedless : s.isWriting = true ∨ s.writeQueue = []) : QueueInvariant (s.goTo task .idle) where
  same_session := h.same_session
  current := h.current
  served := by
    intro _ hqueue
    rcases hneedless with hwriting | hempty
    · exact Or.inl hwriting
    · exact absurd hempty hqueue
  flag := h.flag.pass hholds.symm

/-- The message of a push is one of the current session, and its task is to claim the flag. -/
theorem QueueInvariant.pushes (h : QueueInvariant s) (hholds : (s.phase task).holdsFlag = false)
    (text : String) :
    QueueInvariant
      ({ s with writeQueue := s.writeQueue ++ [QueuedMessage.mk text s.session] }.goTo task
        .claiming) where
  same_session := h.same_session
  current := by
    intro message hmessage
    rcases List.mem_append.mp hmessage with hmessage | hmessage
    · exact h.current message hmessage
    · rw [List.mem_singleton.mp hmessage]
      rfl
  served _ _ := Or.inr (exists_update_self rfl)
  flag := h.flag.pass hholds.symm

/-- The writer takes a message, and writes it in the session that it was pushed in. -/
theorem QueueInvariant.pops (h : QueueInvariant s) {message : QueuedMessage}
    {rest : List QueuedMessage} (hqueue : s.writeQueue = message :: rest)
    (hholds : (s.phase task).holdsFlag = true) :
    QueueInvariant
      ({ s with
          writeQueue := rest
          transmitted := s.transmitted ++ [Transmission.mk message s.session] }.goTo task
        .writing) where
  same_session := by
    intro t ht
    rcases List.mem_append.mp ht with ht | ht
    · exact h.same_session t ht
    · rw [List.mem_singleton.mp ht]
      exact h.current message (by rw [hqueue]; exact List.mem_cons_self)
  current := by
    intro other hother
    exact h.current other (by rw [hqueue]; exact List.mem_cons_of_mem _ hother)
  served _ _ := Or.inl (h.flag.taken task hholds)
  flag := h.flag.pass hholds.symm

/-! ## Steps of the flag -/

/-- An exchange that finds the flag clear. -/
theorem QueueInvariant.takes (h : QueueInvariant s) (hfree : s.isWriting = false) :
    QueueInvariant ({ s with isWriting := true }.goTo task .popping) where
  same_session := h.same_session
  current := h.current
  served _ _ := Or.inl rfl
  flag := by
    have hflag := h.flag
    rw [hfree] at hflag
    exact hflag.takes rfl

/-- The writer clears the flag: to look again, or after an error. -/
theorem QueueInvariant.givesUp (h : QueueInvariant s) {phase : TaskPhase}
    (hholds : (s.phase task).holdsFlag = true) (hnext : phase.holdsFlag = false)
    (hserved : s.client.state = .connected → s.writeQueue ≠ [] →
      ∃ other, (Function.update s.phase task phase other).handsOver = true) :
    QueueInvariant ({ s with isWriting := false }.goTo task phase) where
  same_session := h.same_session
  current := h.current
  served hin hqueue := Or.inr (hserved hin hqueue)
  flag := h.flag.givesUp hholds hnext

/-- A new session that finds the queue drained. -/
theorem QueueInvariant.handshake (h : QueueInvariant s) (hdrained : s.writeQueue = [])
    (client : WebSocketClient) :
    QueueInvariant { s with client := client, session := s.session + 1 } where
  same_session := h.same_session
  current := by simp [hdrained]
  served _ hqueue := absurd hdrained hqueue
  flag := h.flag

/-! ## Runs -/

/-- The next operation of a task. -/
theorem QueueInvariant.run (h : QueueInvariant s) (hdrained : QueueDrained s (.run task)) :
    QueueInvariant (s.run task) := by
  unfold WriteState.run
  cases hphase : s.phase task with
  | idle => exact h
  | writing => exact h
  | pushing text =>
    dsimp only
    split
    · exact h.pushes (by rw [hphase]; rfl) text
    · exact h.aside hphase id rfl rfl rfl
  | claiming =>
    dsimp only
    split
    · rename_i hwriting
      exact h.rests (by rw [hphase]; rfl) (Or.inl hwriting)
    · rename_i hfree
      exact h.takes (Bool.eq_false_iff.mpr hfree)
  | popping =>
    dsimp only
    split
    · exact h.goesOn id (by rw [hphase]; exact Bool.noConfusion) (by rw [hphase]; rfl)
    · rename_i hqueue
      exact h.pops hqueue (by rw [hphase]; rfl)
  | clearing =>
    exact h.givesUp (by rw [hphase]; rfl) rfl fun _ _ => exists_update_self rfl
  | rechecking =>
    dsimp only
    split
    · rename_i hempty
      exact h.rests (by rw [hphase]; rfl) (Or.inr (List.isEmpty_iff.mp hempty))
    · exact h.goesOn id (fun _ => rfl) (by rw [hphase]; rfl)
  | reclaiming =>
    dsimp only
    split
    · rename_i hwriting
      exact h.rests (by rw [hphase]; rfl) (Or.inl hwriting)
    · rename_i hfree
      exact h.takes (Bool.eq_false_iff.mpr hfree)
  | releasing =>
    refine h.givesUp (by rw [hphase]; rfl) rfl fun hin hqueue => ?_
    obtain ⟨other, hother⟩ := (hdrained hphase hin).resolve_left hqueue
    exact exists_update ⟨other, hother⟩ (by rw [hphase]; exact Bool.noConfusion)
  | reconnecting =>
    dsimp only
    split
    all_goals exact h.aside hphase id rfl rfl rfl
  | leaving => exact h.aside hphase ConnectionState.noConfusion rfl rfl rfl
  | scheduling =>
    dsimp only
    split
    · rename_i hmay
      refine h.aside hphase ?_ rfl rfl rfl
      simp [WebSocketClient.scheduleReconnect, hmay]
    · exact h.aside hphase id rfl rfl rfl
  | givingUp => exact h.aside hphase ConnectionState.noConfusion rfl rfl rfl
  | connecting =>
    dsimp only
    split
    all_goals exact h.aside hphase id rfl rfl rfl
  | starting => exact h.aside hphase ConnectionState.noConfusion rfl rfl rfl
  | resolving => exact h.aside hphase id rfl rfl rfl
  | disconnecting =>
    dsimp only
    split
    all_goals exact h.aside hphase id rfl rfl rfl
  | dropping => exact h.aside hphase ConnectionState.noConfusion rfl rfl rfl

/-- One event keeps the invariant where it leaves no message to a session, or to a writer, that is
gone. -/
theorem QueueInvariant.step (h : QueueInvariant s) {e : WriteEvent} (hdrained : QueueDrained s e) :
    QueueInvariant (s.step e) := by
  cases e with
  | run task => exact h.run hdrained
  | handshake =>
    simp only [WriteState.step]
    split
    · rename_i hopening
      exact h.handshake (hdrained hopening) _
    · exact h
  | reconnectTimer cancelled =>
    simp only [WriteState.step]
    split
    · refine ⟨h.same_session, h.current, fun hin hqueue => h.served ?_ hqueue, h.flag⟩
      cases cancelled with
      | true => exact hin
      | false => cases hin
    · exact h
  | written task =>
    simp only [WriteState.step]
    split
    · rename_i hphase
      exact h.goesOn id (by rw [hphase]; exact Bool.noConfusion) (by rw [hphase]; rfl)
    · exact h
  | writeFailed task =>
    simp only [WriteState.step]
    split
    · rename_i hphase
      exact h.goesOn id (by rw [hphase]; exact Bool.noConfusion) (by rw [hphase]; rfl)
    · exact h
  | send task text =>
    simp only [WriteState.step]
    split
    · rename_i hready
      exact h.aside hready.1 id rfl rfl rfl
    · exact h
  | connect task =>
    simp only [WriteState.step]
    split
    · rename_i hready
      exact h.aside hready.1 id rfl rfl rfl
    · exact h
  | disconnect task =>
    simp only [WriteState.step]
    split
    · rename_i hready
      exact h.aside hready id rfl rfl rfl
    · exact h
  | connectFailed task =>
    simp only [WriteState.step]
    split
    · rename_i hready
      exact h.aside hready.1 id rfl rfl rfl
    · exact h
  | readFailed task =>
    simp only [WriteState.step]
    split
    · rename_i hready
      exact h.aside hready.1 id rfl rfl rfl
    · exact h

/-- Every run of such events keeps the invariant. -/
theorem queueInvariant_of_drained (events : List WriteEvent)
    (hdrained : Run.Along QueueDrained WriteState.step {} events) :
    QueueInvariant (runWrites events) :=
  Run.invariant QueueInvariant (fun _ _ h => h.step) events {} queueInvariant_start hdrained

/-- In a run that lets no session begin, and no failed write give up the flag, over messages that
are left, every message is written in its session and none waits without a writer. -/
theorem writesServed_of_drained (events : List WriteEvent)
    (hdrained : Run.Along QueueDrained WriteState.step {} events) :
    WritesServed (runWrites events) :=
  (queueInvariant_of_drained events hdrained).writesServed

/-- A hand-over from one writer to the next, a write that fails with nothing left, and a message of
the session after. -/
theorem writesServed_of_drained_twoSessions :
    WritesServed
      (runWrites
        [.connect 0, .run 0, .run 0, .run 0, .handshake,
          .send 1 "a", .run 1, .run 1, .run 1, .written 1, .run 1, .run 1,
          .send 2 "b", .run 2, .run 1, .run 2, .run 1, .run 2, .writeFailed 2, .run 2,
          .run 2, .run 2, .run 2, .reconnectTimer false, .handshake,
          .send 3 "c", .run 3, .run 3, .run 3]) := by
  have hother {s : WriteState} {task : ℕ} (hphase : s.phase task ≠ .releasing) :
      QueueDrained s (.run task) :=
    fun hreleasing => absurd hreleasing hphase
  refine writesServed_of_drained _
    ⟨trivial, hother (by decide), hother (by decide), hother (by decide), fun _ => rfl,
      trivial, hother (by decide), hother (by decide), hother (by decide), trivial,
      hother (by decide), hother (by decide), trivial, hother (by decide), hother (by decide),
      hother (by decide), hother (by decide), hother (by decide), trivial,
      fun _ _ => Or.inl rfl, hother (by decide), hother (by decide), hother (by decide), trivial,
      fun _ => rfl, trivial, hother (by decide), hother (by decide), hother (by decide), trivial⟩

/-- Two orders are accepted and the write of the first fails: the second has no writer, and goes
out in the next session with the first message of that session. -/
theorem writesServed_lost_onWriteError : ¬ ∀ events, WritesServed (runWrites events) := by
  intro h
  have hserved := h
    [.connect 0, .run 0, .run 0, .run 0, .handshake,
      .send 1 "a", .run 1, .run 1, .run 1, .send 2 "b", .run 2, .run 2, .writeFailed 1, .run 1,
      .run 1, .run 1, .run 1, .reconnectTimer false, .handshake,
      .send 3 "c", .run 3, .run 3, .run 3]
  have hsession := hserved.same_session ⟨⟨"b", 1⟩, 2⟩ (by decide)
  cases hsession

end SpotRelay.Analysis
