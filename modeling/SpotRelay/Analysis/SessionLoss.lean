import SpotRelay.Library.Run
import SpotRelay.Model.WebSocketClient

/-!
# What a lost session leaves of the trade socket

The trade socket learns of a lost session from `on_disconnect_` only, and two handlers call it:
the read that finds the stream closed by the server, and the end of a close that the user asked
for.  A session is lost where its stream ends or the state leaves `Connected`; where reconnecting
is disabled the stream can end without the state leaving.

* **the account**: a lost session still has its close under way, or has had its one call, and then
  the authentication and the pending orders are gone (`SessionsAccounted`).
* **the condition**: a session is lost in the two announced ways only, and no new one begins before
  the close has ended (`StepAnnounced`).
* **the invariant** is kept by each handler (`LossInvariant.handle`) and by each message and call of
  the trade socket (`LossInvariant.step`), so every run that meets the condition accounts for every
  session.  Every other way out leaves the flags of the lost session to the next one.
-/

set_option autoImplicit false

namespace SpotRelay.Analysis

open SpotRelay.Model SpotRelay.Library

/-- A lost session has its call of `on_disconnect_` still to come from the close that the user asked
for, or has had it, once, and with it its authentication and its orders are gone. -/
def LossSettled (s : TradeSession) (before : ℕ) : Prop :=
  s.trade.disconnectCalls = before ∧ s.client.closes = 1 ∨
    s.trade.disconnectCalls = before + 1 ∧ s.client.closes = 0 ∧
      s.trade.authenticated = false ∧ s.trade.pendingOrders = []

/-- Every session that was lost has had its one call of `on_disconnect_` before the next began, and
dropped what belonged to it; neither an order nor an authentication of an earlier session is taken
for the current one. -/
structure SessionsAccounted (s : TradeSession) : Prop where
  lost : ∀ n ∈ s.trade.lossCalls, n = 1
  settled : ∀ before, s.trade.leftAt = some before → LossSettled s before
  pending : ∀ order ∈ s.trade.pendingOrders, order.session = s.trade.session
  authenticated : s.trade.isConnected = true → s.trade.authSession = s.trade.session

/-- The state would leave `Connected` through `reconnect`. -/
def WouldReconnect (c : WebSocketClient) : Prop :=
  c.state = .connected ∧ c.shouldReconnect = true

/-- The handler ends a session only where `on_disconnect_` is called, once, and begins one only when
none is left open. -/
def LossAnnounced (s : TradeSession) : ConnectionEvent → Prop
  | .connectError ec => 0 < s.client.opening → ec ≠ .aborted → ¬ WouldReconnect s.client
  | .handshake => 0 < s.client.opening → s.client.state ≠ .connected ∧ s.client.closes = 0
  | .readError .closed => 0 < s.client.reads → s.InSession
  | .readError .aborted => s.client.reads = 1 → ¬ s.InSession
  | .readError .other => 0 < s.client.reads → ¬ s.InSession
  | .writeError => ¬ s.InSession
  | .disconnect isOpen =>
    s.client.state ≠ .disconnected →
      (isOpen = true → s.InSession) ∧ (s.client.state = .connected → isOpen = true)
  | .reconnectTimer cancelled =>
    0 < s.client.waits → cancelled = false → s.client.state ≠ .connected
  | _ => True

/-- Nor is an authentication answered after the session that asked for it is accounted for. -/
def StepAnnounced (s : TradeSession) : SocketEvent → Prop
  | .connection e => LossAnnounced s e
  | .disconnect isOpen => LossAnnounced s (.disconnect isOpen)
  | .authResponse _ =>
    0 < s.client.reads →
      s.trade.leftAt = none ∨ s.trade.leftAt = some s.trade.disconnectCalls
  | _ => True

instance (s : TradeSession) : DecidablePred (LossAnnounced s)
  | .connectError ec =>
    inferInstanceAs (Decidable (0 < s.client.opening → ec ≠ .aborted → ¬ (_ ∧ _)))
  | .handshake => inferInstanceAs (Decidable (0 < s.client.opening → _ ∧ _))
  | .readError .closed => inferInstanceAs (Decidable (0 < s.client.reads → _))
  | .readError .aborted => inferInstanceAs (Decidable (s.client.reads = 1 → ¬ s.InSession))
  | .readError .other => inferInstanceAs (Decidable (0 < s.client.reads → ¬ s.InSession))
  | .writeError => inferInstanceAs (Decidable (¬ s.InSession))
  | .disconnect isOpen =>
    inferInstanceAs (Decidable (s.client.state ≠ .disconnected →
      (isOpen = true → s.InSession) ∧ (s.client.state = .connected → isOpen = true)))
  | .reconnectTimer cancelled =>
    inferInstanceAs (Decidable (0 < s.client.waits → cancelled = false → _ ≠ _))
  | .connect _ | .close => isTrue trivial

instance (s : TradeSession) : DecidablePred (StepAnnounced s)
  | .connection e => inferInstanceAs (Decidable (LossAnnounced s e))
  | .disconnect isOpen => inferInstanceAs (Decidable (LossAnnounced s (.disconnect isOpen)))
  | .authResponse _ => inferInstanceAs (Decidable (0 < s.client.reads → _ ∨ _))
  | .orderResponse .. | .placeOrder _ | .orderTimeout _ => isTrue trivial

/-! ## The invariant -/

/-- Where the account of the current session stands. -/
structure LossInvariant (s : TradeSession) : Prop where
  accounted : SessionsAccounted s
  /-- The client is connected, or a session has been lost, or there was none. -/
  left : s.client.state = .connected ∨ s.trade.leftAt.isSome = true ∨ s.trade.session = 0
  /-- A client stays connected without a session only where it may not reconnect. -/
  stranded : s.client.state = .connected → s.trade.leftAt ≠ none →
    s.client.shouldReconnect = false
  closing : 0 < s.client.closes →
    s.client.closes = 1 ∧ s.client.state ≠ .connected ∧
      s.trade.leftAt = some s.trade.disconnectCalls
  unused : s.trade.session = 0 →
    s.client.state ≠ .connected ∧ s.client.reads = 0 ∧ s.trade.authenticated = false ∧
      s.trade.pendingOrders = [] ∧ s.trade.leftAt = none
  authSession : s.trade.authenticated = true → s.trade.authSession = s.trade.session

variable {s : TradeSession}

/-! ## Handlers without a callback -/

/-- `reconnect` neither closes the stream nor reads from it. -/
theorem reconnect_frame (c : WebSocketClient) :
    c.reconnect.closes = c.closes ∧ c.reconnect.reads = c.reads := by
  unfold WebSocketClient.reconnect WebSocketClient.scheduleReconnect
  by_cases hleft : (!c.shouldReconnect) = true
  · rw [if_pos hleft]
    exact ⟨rfl, rfl⟩
  · rw [if_neg hleft, if_neg hleft]
    exact ⟨rfl, rfl⟩

/-- `reconnect` takes a connected client out of its state if it may reconnect. -/
theorem reconnect_state_iff {c : WebSocketClient} (h : ¬ WouldReconnect c) :
    c.reconnect.state = .connected ↔ c.state = .connected := by
  unfold WouldReconnect at h
  unfold WebSocketClient.reconnect WebSocketClient.scheduleReconnect
  cases hmay : c.shouldReconnect with
  | false => simp
  | true =>
    have hstate : c.state ≠ .connected := fun hin => h ⟨hin, hmay⟩
    simp [hstate]

/-- `reconnect` never enables reconnecting. -/
theorem reconnect_shouldReconnect (c : WebSocketClient) :
    c.reconnect.shouldReconnect = c.shouldReconnect := by
  cases hmay : c.shouldReconnect <;>
    simp [WebSocketClient.reconnect, WebSocketClient.scheduleReconnect, hmay]

/-- What is still connected behind `reconnect` may not reconnect. -/
theorem never_of_reconnect_state {c : WebSocketClient} (hstays : c.reconnect.state = .connected) :
    c.shouldReconnect = false := by
  cases hmay : c.shouldReconnect with
  | false => rfl
  | true => simp [WebSocketClient.reconnect, WebSocketClient.scheduleReconnect, hmay] at hstays

/-- A handler that neither is told of the end of the stream nor leaves `Connected`. -/
theorem handled_of_kept {ended : Bool} {c : WebSocketClient} {callbacks : List SocketCallback}
    (hkept : s.InSession → ended = false ∧ c.state = .connected) :
    s.handled ended c callbacks = ⟨c, callbacks.foldl TradeWs.callback s.trade⟩ := by
  simp only [TradeSession.handled]
  rw [if_neg]
  rintro ⟨hin, hended | hout⟩
  · rw [(hkept hin).1] at hended
    cases hended
  · exact hout (hkept hin).2

/-- The session is lost with the handler. -/
theorem handled_of_lost (hin : s.InSession) {ended : Bool} {c : WebSocketClient}
    {callbacks : List SocketCallback} (hlost : ended = true ∨ c.state ≠ .connected) :
    s.handled ended c callbacks =
      ⟨c, { callbacks.foldl TradeWs.callback s.trade with
        leftAt := some s.trade.disconnectCalls }⟩ := by
  simp only [TradeSession.handled]
  rw [if_pos ⟨hin, hlost⟩]

/-- Without a session nothing takes the client out of `Connected`. -/
theorem LossInvariant.not_wouldReconnect (h : LossInvariant s) (hout : ¬ s.InSession) :
    ¬ WouldReconnect s.client := by
  rintro ⟨hconnected, hmay⟩
  have hnever := h.stranded hconnected fun hnone => hout ⟨hconnected, hnone⟩
  rw [hmay] at hnever
  cases hnever

/-- The client changes in nothing that the account is kept of. -/
theorem LossInvariant.of_client (h : LossInvariant s) {c : WebSocketClient}
    (hstate : c.state = .connected ↔ s.client.state = .connected)
    (hcloses : c.closes = s.client.closes) (hreads : c.reads ≤ s.client.reads)
    (hmay : c.state = .connected → s.client.shouldReconnect = false →
      c.shouldReconnect = false) :
    LossInvariant { s with client := c } where
  accounted :=
    { lost := h.accounted.lost
      settled := by
        intro before hbefore
        unfold LossSettled
        dsimp only
        rw [hcloses]
        exact h.accounted.settled before hbefore
      pending := h.accounted.pending
      authenticated := h.accounted.authenticated }
  left := by
    dsimp only
    rw [hstate]
    exact h.left
  stranded hin hlost := hmay hin (h.stranded (hstate.mp hin) hlost)
  closing hclose := by
    dsimp only at hclose ⊢
    rw [hcloses] at hclose ⊢
    obtain ⟨hone, hout, hleft⟩ := h.closing hclose
    exact ⟨hone, fun hin => hout (hstate.mp hin), hleft⟩
  unused hnone := by
    obtain ⟨hout, hidle, hflags⟩ := h.unused hnone
    exact ⟨fun hin => hout (hstate.mp hin), Nat.le_zero.mp (hidle ▸ hreads), hflags⟩
  authSession := h.authSession

/-- A handler without a callback keeps the invariant where it leaves the state and the stream. -/
theorem LossInvariant.quiet (h : LossInvariant s) {ended : Bool} {c : WebSocketClient}
    (hended : s.InSession → ended = false)
    (hstate : c.state = .connected ↔ s.client.state = .connected)
    (hcloses : c.closes = s.client.closes) (hreads : c.reads ≤ s.client.reads)
    (hmay : c.state = .connected → s.client.shouldReconnect = false →
      c.shouldReconnect = false) :
    LossInvariant (s.handled ended c []) := by
  rw [handled_of_kept fun hin => ⟨hended hin, hstate.mpr hin.1⟩]
  exact h.of_client hstate hcloses hreads hmay

/-- A handler that changes nothing. -/
theorem LossInvariant.idle (h : LossInvariant s) {ended : Bool}
    (hended : s.InSession → ended = false) : LossInvariant (s.handled ended s.client []) :=
  h.quiet hended Iff.rfl rfl le_rfl fun _ hmay => hmay

/-! ## The two announced losses -/

/-- In a session no close is under way. -/
theorem LossInvariant.not_closing (h : LossInvariant s) (hin : s.InSession) :
    s.client.closes = 0 := by
  by_contra hclose
  exact (h.closing (Nat.pos_of_ne_zero hclose)).2.1 hin.1

/-- The stream is read to its end: the callback clears what belongs to the session, whether or not
the state is left with it. -/
theorem LossInvariant.disconnected (h : LossInvariant s) (hin : s.InSession)
    {c : WebSocketClient} (hcloses : c.closes = 0)
    (hmay : c.state = .connected → c.shouldReconnect = false) (reason : String) :
    LossInvariant (s.handled true c [.onDisconnect reason]) := by
  have hlive : s.trade.session ≠ 0 := fun hnone => (h.unused hnone).1 hin.1
  have hhandled : s.handled true c [.onDisconnect reason] =
      ⟨c, { s.trade.onDisconnect with leftAt := some s.trade.disconnectCalls }⟩ :=
    handled_of_lost hin (.inl rfl)
  rw [hhandled]
  refine
    { accounted :=
        { lost := h.accounted.lost
          settled := ?_
          pending := by simp [TradeWs.onDisconnect]
          authenticated := by simp [TradeWs.onDisconnect, TradeWs.isConnected] }
      left := .inr (.inl rfl)
      stranded := fun hstays _ => hmay hstays
      closing := ?_
      unused := fun hnone => absurd hnone hlive
      authSession := by simp [TradeWs.onDisconnect] }
  · rintro before hbefore
    rw [← Option.some.inj hbefore]
    exact .inr ⟨rfl, hcloses, rfl, rfl⟩
  · intro hclose
    rw [hcloses] at hclose
    cases hclose

/-- A close that the user asked for is begun. -/
theorem LossInvariant.closeBegun (h : LossInvariant s) (hin : s.InSession) {ended : Bool}
    {c : WebSocketClient} (hout : c.state ≠ .connected) (hcloses : c.closes = 1) :
    LossInvariant (s.handled ended c []) := by
  have hlive : s.trade.session ≠ 0 := fun hnone => (h.unused hnone).1 hin.1
  have hhandled : s.handled ended c [] =
      ⟨c, { s.trade with leftAt := some s.trade.disconnectCalls }⟩ :=
    handled_of_lost hin (.inr hout)
  rw [hhandled]
  refine
    { accounted :=
        { lost := h.accounted.lost
          settled := ?_
          pending := h.accounted.pending
          authenticated := h.accounted.authenticated }
      left := .inr (.inl rfl)
      stranded := fun hstays => absurd hstays hout
      closing := fun _ => ⟨hcloses, hout, rfl⟩
      unused := fun hnone => absurd hnone hlive
      authSession := h.authSession }
  rintro before hbefore
  rw [← Option.some.inj hbefore]
  exact .inl ⟨rfl, hcloses⟩

/-- It ends. -/
theorem LossInvariant.closed (h : LossInvariant s) (hclosing : 0 < s.client.closes) :
    LossInvariant (s.handled false s.client.onClose.1 s.client.onClose.2) := by
  obtain ⟨hone, hout, hleft⟩ := h.closing hclosing
  have hlive : s.trade.session ≠ 0 := by
    intro hnone
    rw [(h.unused hnone).2.2.2.2] at hleft
    cases hleft
  have hhandled : s.handled false s.client.onClose.1 s.client.onClose.2 =
      ⟨s.client.onClose.1, s.trade.onDisconnect⟩ :=
    handled_of_kept fun hin => absurd hin.1 hout
  have hnone : s.client.onClose.1.closes = 0 := by simp [WebSocketClient.onClose, hone]
  rw [hhandled]
  refine
    { accounted :=
        { lost := h.accounted.lost
          settled := ?_
          pending := by simp [TradeWs.onDisconnect]
          authenticated := by simp [TradeWs.onDisconnect, TradeWs.isConnected] }
      left := .inr (.inl ?_)
      stranded := fun hstays => absurd hstays hout
      closing := ?_
      unused := fun hnone => absurd hnone hlive
      authSession := by simp [TradeWs.onDisconnect] }
  · intro before hbefore
    have hsame : s.trade.disconnectCalls = before := Option.some.inj (hleft.symm.trans hbefore)
    rw [← hsame]
    exact .inr ⟨rfl, hnone, rfl, rfl⟩
  · show s.trade.leftAt.isSome = true
    rw [hleft]
    rfl
  · intro hclose
    rw [hnone] at hclose
    cases hclose

/-! ## A new session -/

/-- Between two sessions nothing of the earlier one is left, and its call has been made. -/
theorem LossInvariant.between (h : LossInvariant s) (hout : s.client.state ≠ .connected)
    (hcloses : s.client.closes = 0) :
    s.trade.authenticated = false ∧ s.trade.pendingOrders = [] ∧
      ∀ before, s.trade.leftAt = some before → s.trade.disconnectCalls - before = 1 := by
  rcases h.left with hin | hleft | hnone
  · exact absurd hin hout
  · obtain ⟨before, hbefore⟩ := Option.isSome_iff_exists.mp hleft
    rcases h.accounted.settled before hbefore with ⟨-, hclose⟩ | ⟨hcalls, -, hauth, hpending⟩
    · rw [hcloses] at hclose
      cases hclose
    · refine ⟨hauth, hpending, fun other hother => ?_⟩
      rw [hbefore, Option.some.injEq] at hother
      omega
  · obtain ⟨-, -, hauth, hpending, hleft⟩ := h.unused hnone
    refine ⟨hauth, hpending, fun other hother => ?_⟩
    rw [hleft] at hother
    cases hother

/-- A handshake begins a session. -/
theorem LossInvariant.handshake (h : LossInvariant s) (hout : s.client.state ≠ .connected)
    (hcloses : s.client.closes = 0) :
    LossInvariant (s.handled false s.client.onHandshake.1 s.client.onHandshake.2) := by
  obtain ⟨hauth, hpending, hcalls⟩ := h.between hout hcloses
  have hhandled : s.handled false s.client.onHandshake.1 s.client.onHandshake.2 =
      ⟨s.client.onHandshake.1, s.trade.onConnect true⟩ :=
    handled_of_kept fun hin => absurd hin.1 hout
  rw [hhandled]
  refine
    { accounted := ⟨?_, ?_, ?_, ?_⟩
      left := .inl rfl
      stranded := fun _ hlost => absurd rfl hlost
      closing := ?_
      unused := ?_
      authSession := ?_ }
  · intro n hn
    rcases List.mem_append.mp hn with hn | hn
    · exact h.accounted.lost n hn
    · simp only [Option.mem_toList, Option.map_eq_some_iff] at hn
      obtain ⟨before, hbefore, rfl⟩ := hn
      exact hcalls before hbefore
  · intro before hbefore
    cases hbefore
  · show ∀ order ∈ s.trade.pendingOrders, order.session = s.trade.session + 1
    rw [hpending]
    simp
  · intro hconnected
    simp [TradeWs.onConnect, TradeWs.isConnected, hauth] at hconnected
  · intro hclose
    exact absurd hclose (by simp [WebSocketClient.onHandshake, hcloses])
  · intro hnone
    cases hnone
  · intro hauthenticated
    simp [TradeWs.onConnect, hauth] at hauthenticated

/-! ## One handler -/

/-- What a handler of the client does to the session. -/
theorem handle_eq {e : ConnectionEvent} {c : WebSocketClient} {callbacks : List SocketCallback}
    (h : s.client.handle e = (c, callbacks)) :
    s.handle e = s.handled (s.client.streamEnds e) c callbacks := by
  unfold TradeSession.handle
  rw [h]

/-- `connect` keeps the invariant. -/
theorem LossInvariant.connect (h : LossInvariant s) (validUrl : Bool) :
    LossInvariant (s.handle (.connect validUrl)) := by
  by_cases hbusy : s.client.state = .connected ∨ s.client.state = .connecting
  · have hresult : s.client.handle (.connect validUrl) = (s.client, []) := if_pos hbusy
    rw [handle_eq hresult]
    exact h.idle fun _ => rfl
  · cases validUrl with
    | false =>
      have hresult : s.client.handle (.connect false) = (s.client, [.onConnect false]) :=
        if_neg hbusy
      rw [handle_eq hresult]
      -- The callback of a failed connection changes nothing.
      exact h.idle fun _ => rfl
    | true =>
      have hresult : s.client.handle (.connect true) =
          ({ s.client with
              state := .connecting
              reconnectAttempts := 0
              shouldReconnect := true
              opening := s.client.opening + 1 }, []) :=
        if_neg hbusy
      rw [handle_eq hresult]
      have hleaves : ConnectionState.connecting ≠ .connected := ConnectionState.noConfusion
      exact h.quiet (fun _ => rfl) (iff_of_false hleaves fun hin => hbusy (.inl hin)) rfl le_rfl
        fun hin => absurd hin hleaves

/-- An error that ends in `reconnect` changes nothing of the account where there is no session. -/
theorem LossInvariant.reconnects (h : LossInvariant s) (hout : ¬ WouldReconnect s.client)
    {ended : Bool} (hended : s.InSession → ended = false) {c : WebSocketClient}
    (hstate : c.state = s.client.state) (hmay : c.shouldReconnect = s.client.shouldReconnect)
    (hcloses : c.closes = s.client.closes) (hreads : c.reads ≤ s.client.reads) :
    LossInvariant (s.handled ended c.reconnect []) := by
  obtain ⟨hkeeps, hsame⟩ := reconnect_frame c
  have hstays : ¬ WouldReconnect c := by
    unfold WouldReconnect
    rwa [hstate, hmay]
  refine h.quiet hended ?_ (hkeeps.trans hcloses) (hsame.trans_le hreads) ?_
  · rw [reconnect_state_iff hstays, hstate]
  · rw [reconnect_shouldReconnect, hmay]
    exact fun _ hnever => hnever

/-- A read error that is announced keeps the invariant. -/
theorem LossInvariant.readError (h : LossInvariant s) {ec : IoError}
    (hannounced : LossAnnounced s (.readError ec)) : LossInvariant (s.handle (.readError ec)) := by
  by_cases hread : 0 < s.client.reads
  · have hresult : s.client.handle (.readError ec) = s.client.onReadError ec := if_pos hread
    rw [handle_eq hresult]
    cases ec with
    | closed =>
      have hin : s.InSession := hannounced hread
      have hended : s.client.streamEnds (.readError .closed) = true := decide_eq_true hread
      rw [hended]
      refine h.disconnected (c := WebSocketClient.reconnect _) hin ?_ ?_ "Server closed connection"
      · rw [(reconnect_frame _).1]
        exact h.not_closing hin
      · intro hstays
        rw [reconnect_shouldReconnect]
        exact never_of_reconnect_state hstays
    | aborted =>
      refine h.quiet ?_ Iff.rfl rfl (Nat.sub_le _ _) fun _ hmay => hmay
      exact fun hin => decide_eq_false fun hone => hannounced hone hin
    | other =>
      have hout : ¬ s.InSession := hannounced hread
      exact h.reconnects (h.not_wouldReconnect hout) (fun hin => absurd hin hout) rfl rfl rfl
        (Nat.sub_le _ _)
  · have hresult : s.client.handle (.readError ec) = _ := if_neg hread
    have hended : s.client.streamEnds (.readError ec) = false := by
      cases ec with
      | aborted => exact decide_eq_false fun hone => hread (by omega)
      | closed | other => exact decide_eq_false hread
    rw [handle_eq hresult]
    exact h.idle fun _ => hended

/-- A `disconnect` that is announced keeps the invariant. -/
theorem LossInvariant.disconnect (h : LossInvariant s) {isOpen : Bool}
    (hannounced : LossAnnounced s (.disconnect isOpen)) :
    LossInvariant (s.handle (.disconnect isOpen)) := by
  by_cases hout : s.client.state = .disconnected
  · have hresult : s.client.handle (.disconnect isOpen) =
        ({ s.client with shouldReconnect := false }, []) := by
      simp only [WebSocketClient.handle, WebSocketClient.disconnect, if_pos hout]
    rw [handle_eq hresult]
    exact h.quiet (fun _ => rfl) Iff.rfl rfl le_rfl fun _ _ => rfl
  · obtain ⟨hopen, hopened⟩ := hannounced hout
    have hleaves : ConnectionState.disconnected ≠ .connected := ConnectionState.noConfusion
    cases isOpen with
    | false =>
      have hresult : s.client.handle (.disconnect false) =
          ({ s.client with shouldReconnect := false, state := .disconnected }, []) := by
        simp [WebSocketClient.handle, WebSocketClient.disconnect, hout]
      rw [handle_eq hresult]
      exact h.quiet (fun _ => rfl)
        (iff_of_false hleaves fun hin => Bool.noConfusion (hopened hin)) rfl le_rfl fun _ _ => rfl
    | true =>
      have hin : s.InSession := hopen rfl
      have hresult : s.client.handle (.disconnect true) =
          ({ s.client with
              shouldReconnect := false
              state := .disconnected
              closes := s.client.closes + 1 }, []) := by
        simp [WebSocketClient.handle, WebSocketClient.disconnect, hout]
      rw [handle_eq hresult]
      refine h.closeBegun hin hleaves ?_
      show s.client.closes + 1 = 1
      rw [h.not_closing hin]

/-- One handler of the client. -/
theorem LossInvariant.handle (h : LossInvariant s) {e : ConnectionEvent}
    (hannounced : LossAnnounced s e) : LossInvariant (s.handle e) := by
  cases e with
  | connect validUrl => exact h.connect validUrl
  | connectError ec =>
    by_cases hopening : 0 < s.client.opening
    · have hresult : s.client.handle (.connectError ec) = _ := if_pos hopening
      rw [handle_eq hresult]
      by_cases hec : ec = .aborted
      · rw [WebSocketClient.handleError, if_pos hec]
        exact h.quiet (fun _ => rfl) Iff.rfl rfl le_rfl fun _ hmay => hmay
      · rw [WebSocketClient.handleError, if_neg hec]
        exact h.reconnects (hannounced hopening hec) (fun _ => rfl) rfl rfl rfl le_rfl
    · have hresult : s.client.handle (.connectError ec) = _ := if_neg hopening
      rw [handle_eq hresult]
      exact h.idle fun _ => rfl
  | handshake =>
    by_cases hopening : 0 < s.client.opening
    · have hresult : s.client.handle .handshake = _ := if_pos hopening
      rw [handle_eq hresult]
      exact h.handshake (hannounced hopening).1 (hannounced hopening).2
    · have hresult : s.client.handle .handshake = _ := if_neg hopening
      rw [handle_eq hresult]
      exact h.idle fun _ => rfl
  | readError ec => exact h.readError hannounced
  | writeError =>
    have hout : ¬ s.InSession := hannounced
    exact h.reconnects (h.not_wouldReconnect hout) (fun hin => absurd hin hout) rfl rfl rfl le_rfl
  | disconnect isOpen => exact h.disconnect hannounced
  | close =>
    by_cases hcloses : 0 < s.client.closes
    · have hresult : s.client.handle .close = _ := if_pos hcloses
      rw [handle_eq hresult]
      exact h.closed hcloses
    · have hresult : s.client.handle .close = _ := if_neg hcloses
      rw [handle_eq hresult]
      exact h.idle fun _ => rfl
  | reconnectTimer cancelled =>
    by_cases hwaits : 0 < s.client.waits
    · have hresult : s.client.handle (.reconnectTimer cancelled) = _ := if_pos hwaits
      rw [handle_eq hresult]
      cases cancelled with
      | true => exact h.quiet (fun _ => rfl) Iff.rfl rfl le_rfl fun _ hmay => hmay
      | false =>
        have hout : s.client.state ≠ .connected := hannounced hwaits rfl
        exact h.quiet (fun _ => rfl)
          (iff_of_false (by simp [WebSocketClient.onReconnectTimer]) hout) rfl le_rfl
          fun _ hmay => hmay
    · have hresult : s.client.handle (.reconnectTimer cancelled) = _ := if_neg hwaits
      rw [handle_eq hresult]
      exact h.idle fun _ => rfl

/-! ## The trade socket -/

/-- Entries are taken out of the pending orders. -/
theorem LossInvariant.of_pending (h : LossInvariant s) {orders : List PendingOrder}
    (horders : orders ⊆ s.trade.pendingOrders) (resolved : List (String × PlaceOrderResult)) :
    LossInvariant
      { s with trade := { s.trade with pendingOrders := orders, resolved := resolved } } where
  accounted :=
    { lost := h.accounted.lost
      settled := by
        intro before hbefore
        refine (h.accounted.settled before hbefore).imp_right ?_
        rintro ⟨hcalls, hcloses, hauth, hpending⟩
        exact ⟨hcalls, hcloses, hauth, List.subset_nil.mp (hpending ▸ horders)⟩
      pending := fun order horder => h.accounted.pending order (horders horder)
      authenticated := h.accounted.authenticated }
  left := h.left
  stranded := h.stranded
  closing := h.closing
  unused hnone := by
    obtain ⟨hout, hreads, hauth, hpending, hleft⟩ := h.unused hnone
    exact ⟨hout, hreads, hauth, List.subset_nil.mp (hpending ▸ horders), hleft⟩
  authSession := h.authSession

/-- An order that is placed keeps the invariant. -/
theorem LossInvariant.placeOrder (h : LossInvariant s) (reqId : String) :
    LossInvariant { s with trade := s.trade.placeOrder reqId } := by
  unfold TradeWs.placeOrder
  by_cases hconnected : s.trade.isConnected = true
  · have hauth : s.trade.authenticated = true := by
      simp only [TradeWs.isConnected, Bool.and_eq_true] at hconnected
      exact hconnected.2
    rw [if_pos hconnected]
    refine
      { accounted := ⟨h.accounted.lost, ?_, ?_, h.accounted.authenticated⟩
        left := h.left
        stranded := h.stranded
        closing := h.closing
        unused := ?_
        authSession := h.authSession }
    · intro before hbefore
      refine (h.accounted.settled before hbefore).imp_right ?_
      rintro ⟨-, -, hclear, -⟩
      rw [hauth] at hclear
      cases hclear
    · intro order horder
      rcases List.mem_append.mp horder with horder | horder
      · exact h.accounted.pending order horder
      · rw [List.mem_singleton.mp horder]
    · intro hnone
      have hclear := (h.unused hnone).2.2.1
      rw [hauth] at hclear
      cases hclear
  · rw [if_neg hconnected]
    exact h

/-- An answer to the authentication keeps the invariant while the session is read. -/
theorem LossInvariant.onAuth (h : LossInvariant s) (hreads : 0 < s.client.reads)
    (hannounced : s.trade.leftAt = none ∨ s.trade.leftAt = some s.trade.disconnectCalls)
    (success : Bool) : LossInvariant { s with trade := s.trade.onAuth success } := by
  cases success with
  | false => exact h
  | true =>
    refine
      { accounted := ⟨h.accounted.lost, ?_, h.accounted.pending, fun _ => rfl⟩
        left := h.left
        stranded := h.stranded
        closing := h.closing
        unused := ?_
        authSession := fun _ => rfl }
    · intro before (hbefore : s.trade.leftAt = some before)
      refine (h.accounted.settled before hbefore).imp_right ?_
      rintro ⟨hcalls, -⟩
      rw [hbefore, Option.some.injEq] at hannounced
      rcases hannounced with hnone | hbegun
      · cases hnone
      · omega
    · intro hnone
      have hidle := (h.unused hnone).2.1
      omega

/-- `disconnect` of the trade socket drops the flags at once. -/
theorem LossInvariant.dropped (h : LossInvariant s) :
    LossInvariant
      { s with trade := { s.trade with connected := false, authenticated := false } } where
  accounted :=
    { lost := h.accounted.lost
      settled := by
        intro before hbefore
        refine (h.accounted.settled before hbefore).imp_right ?_
        rintro ⟨hcalls, hcloses, -, hpending⟩
        exact ⟨hcalls, hcloses, rfl, hpending⟩
      pending := h.accounted.pending
      authenticated := Bool.noConfusion }
  left := h.left
  stranded := h.stranded
  closing := h.closing
  unused hnone := by
    obtain ⟨hout, hreads, -, hrest⟩ := h.unused hnone
    exact ⟨hout, hreads, rfl, hrest⟩
  authSession := Bool.noConfusion

/-! ## Runs -/

/-- Every step that announces its loss keeps the invariant. -/
theorem LossInvariant.step (h : LossInvariant s) {e : SocketEvent}
    (hannounced : StepAnnounced s e) : LossInvariant (s.step e) := by
  cases e with
  | connection e => exact h.handle hannounced
  | disconnect isOpen => exact (h.handle (e := .disconnect isOpen) hannounced).dropped
  | authResponse success =>
    simp only [TradeSession.step]
    split
    · rename_i hreads
      exact h.onAuth hreads (hannounced hreads) success
    · exact h
  | orderResponse reqId result =>
    by_cases hreads : 0 < s.client.reads
    · simp only [TradeSession.step, if_pos hreads, TradeWs.resolvePending]
      split
      · exact h.of_pending (List.filter_subset_self _) _
      · exact h
    · simp only [TradeSession.step, if_neg hreads]
      exact h
  | placeOrder reqId => exact h.placeOrder reqId
  | orderTimeout reqId => exact h.of_pending (List.filter_subset_self _) _

/-- No session has begun at the start. -/
theorem lossInvariant_start : LossInvariant {} where
  accounted :=
    { lost := by simp
      settled := by simp
      pending := by simp
      authenticated := Bool.noConfusion }
  left := .inr (.inr rfl)
  stranded := ConnectionState.noConfusion
  closing := by simp
  unused := fun _ => ⟨ConnectionState.noConfusion, rfl, rfl, rfl, rfl⟩
  authSession := Bool.noConfusion

/-- Where a close was asked for before the handshake, the state does not even leave `Connected`. -/
example : ¬ SessionsAccounted
    (runTradeSession
      [.connection (.connect true), .connection (.disconnect false), .connection .handshake,
        .authResponse true, .placeOrder "r1", .connection (.readError .other)]) := by
  intro haccounted
  have hsettled : LossSettled _ 0 := haccounted.settled 0 (by decide)
  revert hsettled
  unfold LossSettled
  decide

end SpotRelay.Analysis
