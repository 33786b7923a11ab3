import Mathlib.Data.Finset.Sort
import Mathlib.Logic.Function.Basic

/-!
# The broadcast server

`WsBroadcastServer` and `WebSocketSession` (ws_broadcast_server.cpp:23-240).  A handler of a session
is one step, as the strand of the session runs one at a time; so is each call of `send` in the loop
of `broadcast`, which holds `sessions_mutex_` from its first step to its last.  A session is a
number, its address.
-/

set_option autoImplicit false

namespace SpotRelay.Model

/-- Where a session is with its handshake and its reads. -/
inductive SessionPhase
  | handshake
  | reading
  | closed
deriving DecidableEq, Repr

structure WebSocketSession where
  phase : SessionPhase := .handshake
  queue : List String := []
  currentMessage : String := ""
  writing : Bool := false
  /-- The calls of `do_write` posted to the strand. -/
  posted : ℕ := 0
  /-- The messages of the outstanding `async_write`s, as they were when these began. -/
  writes : List String := []
  /-- What was given to `send`, what was written, and what failed writes were about (ghost). -/
  sent : List String := []
  written : List String := []
  failed : List String := []

namespace WebSocketSession

def send (s : WebSocketSession) (message : String) : WebSocketSession :=
  { s with
    queue := s.queue ++ [message]
    writing := true
    posted := if s.writing then s.posted else s.posted + 1
    sent := s.sent ++ [message] }

def doWrite (s : WebSocketSession) : WebSocketSession :=
  match s.queue with
  | [] => { s with writing := false }
  | message :: rest =>
    { s with
      queue := rest
      currentMessage := message
      writes := s.writes ++ [message] }

/-- The strand runs a posted `do_write`. -/
def runPosted (s : WebSocketSession) : WebSocketSession :=
  if s.posted = 0 then s else doWrite { s with posted := s.posted - 1 }

/-- `on_write`, less the call of `leave` after an error. -/
def onWrite (s : WebSocketSession) (error : Bool) : WebSocketSession :=
  match s.writes with
  | [] => s
  | message :: rest =>
    if error then { s with writes := rest, failed := s.failed ++ [message] }
    else doWrite { s with writes := rest, written := s.written ++ [message] }

end WebSocketSession

/-- When a session was in the set, in numbers of broadcasts (ghost). -/
inductive SessionSpan
  | never
  | since (start : ℕ)
  | between (start stop : ℕ)
deriving DecidableEq, Repr

def SessionSpan.ended (length : ℕ) : SessionSpan → SessionSpan
  | .since start => .between start length
  | span => span

structure WsBroadcastServer where
  running : Bool := false
  sessions : Finset ℕ := ∅
  session : ℕ → WebSocketSession := fun _ => {}
  /-- The message of the `broadcast` that holds `sessions_mutex_`, and the sessions before it. -/
  broadcasting : Option (String × List ℕ) := none
  /-- What was broadcast, and who was in the set when (ghost). -/
  log : List String := []
  span : ℕ → SessionSpan := fun _ => .never

inductive ServerEvent
  /-- `start`. -/
  | start (error : Bool)
  /-- `WebSocketSession::on_accept`. -/
  | accepted (session : ℕ) (error : Bool)
  /-- `on_read`. -/
  | read (session : ℕ) (error : Bool)
  /-- A posted `do_write`. -/
  | posted (session : ℕ)
  /-- `on_write`. -/
  | written (session : ℕ) (error : Bool)
  /-- `broadcast` takes the lock. -/
  | broadcast (message : String)
  /-- The next call of `send` in the loop of `broadcast`, or its end. -/
  | send
  | stop
deriving DecidableEq, Repr

namespace WsBroadcastServer

def setSession (s : WsBroadcastServer) (i : ℕ) (session : WebSocketSession) : WsBroadcastServer :=
  { s with session := Function.update s.session i session }

def join (s : WsBroadcastServer) (i : ℕ) : WsBroadcastServer :=
  { s with
    sessions := insert i s.sessions
    span := Function.update s.span i (.since s.log.length) }

def leave (s : WsBroadcastServer) (i : ℕ) : WsBroadcastServer :=
  { s with
    sessions := s.sessions.erase i
    span := Function.update s.span i ((s.span i).ended s.log.length) }

/-- The calls of `close` show in the reads and writes of the sessions, which fail. -/
def stop (s : WsBroadcastServer) : WsBroadcastServer :=
  if s.running then
    { s with
      running := false
      sessions := ∅
      span := fun i => (s.span i).ended s.log.length }
  else s

/-- One step of `broadcast` behind the lock. -/
def sendNext (s : WsBroadcastServer) : WsBroadcastServer :=
  match s.broadcasting with
  | none => s
  | some (_, []) => { s with broadcasting := none }
  | some (message, i :: rest) =>
    { s.setSession i ((s.session i).send message) with broadcasting := some (message, rest) }

/-- A step that waits for `sessions_mutex_` does nothing while a broadcast holds it. -/
def locked (s : WsBroadcastServer) (next : WsBroadcastServer) : WsBroadcastServer :=
  if s.broadcasting.isSome then s else next

def step (s : WsBroadcastServer) : ServerEvent → WsBroadcastServer
  | .start error => if s.running then s else { s with running := !error }
  | .accepted i error =>
    match (s.session i).phase with
    | .handshake =>
      if error then s.setSession i { s.session i with phase := .closed }
      else s.locked ((s.setSession i { s.session i with phase := .reading }).join i)
    | .reading | .closed => s
  | .read i error =>
    match (s.session i).phase with
    | .reading =>
      if error then s.locked ((s.setSession i { s.session i with phase := .closed }).leave i)
      else s
    | .handshake | .closed => s
  | .posted i => s.setSession i (s.session i).runPosted
  | .written i error =>
    match (s.session i).writes with
    | [] => s
    | _ :: _ =>
      if error then s.locked ((s.setSession i ((s.session i).onWrite true)).leave i)
      else s.setSession i ((s.session i).onWrite false)
  | .broadcast message =>
    s.locked
      { s with
        broadcasting := some (message, s.sessions.sort (· ≤ ·))
        log := s.log ++ [message] }
  | .send => s.sendNext
  | .stop => s.locked s.stop

/-- The state after a run. -/
def run (s : WsBroadcastServer) (events : List ServerEvent) : WsBroadcastServer :=
  events.foldl step s

end WsBroadcastServer

end SpotRelay.Model
