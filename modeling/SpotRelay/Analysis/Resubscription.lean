import Mathlib.Data.List.Induction
import Mathlib.Tactic.Common
import SpotRelay.Model.FeedSubscriptions

/-!
# Subscriptions across reconnects

A call stores its list before it looks whether it is connected, and a new connection is marked
before the lists are copied.  So whichever comes first, a stored symbol is asked for on every
connection: by the call, or by `on_ws_connected`.

* **the rules** of each venue ask for its order books again, and for the tickers except on Upbit
  (`resubscribes_feedRules`).
* **the invariant**: in every state a stored list has been asked for, or somebody is on the way to
  it (`FeedSound`, `feedSound_run`).
* **nothing else** is asked for: whatever is sent is of the lists (`ListsWithin.step`,
  `listsWithin_run`).
-/

set_option autoImplicit false

namespace SpotRelay.Analysis

open SpotRelay.Model

/-! ## Who asks for a symbol -/

/-- The symbol was asked for on this connection, or its message found the write queue full. -/
def Asked (s : FeedClient) (channel : Channel) (symbol : SymbolId) : Prop :=
  ∃ m ∈ s.sent ++ s.refused,
    m.session = s.session ∧ m.channel = channel ∧ symbol ∈ m.symbols

/-- A call that has the symbol still to send. -/
def CallAsks (channel : Channel) (symbol : SymbolId) : SubscribePhase → Prop
  | .idle => False
  | .fetching ch symbols | .storing ch symbols | .checking ch symbols | .sending ch symbols =>
    ch = channel ∧ symbol ∈ symbols
  | .pushing ch message rest => ch = channel ∧ symbol ∈ message ++ rest

/-- `on_ws_connected` has not copied the lists yet, or has the symbol still to ask for. -/
def HandlerAsks (channel : Channel) (symbol : SymbolId) : ConnectedPhase → Prop
  | .idle => False
  | .marking | .copying => True
  | .calling call todo =>
    CallAsks channel symbol call ∨ ∃ p ∈ todo, p.1 = channel ∧ symbol ∈ p.2

/-- The symbol is asked for, or somebody is about to. -/
def AskedFor (s : FeedClient) (channel : Channel) (symbol : SymbolId) : Prop :=
  Asked s channel symbol ∨ HandlerAsks channel symbol s.handler ∨
    ∃ thread, CallAsks channel symbol (s.calls thread)

/-- The venue's client asks for the channel again on every connection. -/
def Resubscribes (rules : FeedRules) (channel : Channel) : Prop :=
  rules.orderbooksFirst = true → channel = .orderbook

/-- The connection is up, and the strand has not read its end. -/
def InSession (s : FeedClient) : Prop := s.connected = true ∧ s.closing = false

/-- What holds in every state. -/
structure FeedSound (rules : FeedRules) (s : FeedClient) : Prop where
  flagged : InSession s → s.handler ≠ .marking → s.flag = true
  covered : InSession s → ∀ channel, Resubscribes rules channel →
    ∀ symbol ∈ s.stored channel, AskedFor s channel symbol

/-! ## The steps of a call -/

section Call

variable {rules : FeedRules} {s : FeedClient} {channel : Channel} {symbol : SymbolId}

/-- What was asked for in a session stays asked for while the session lasts. -/
theorem Asked.of_same {s' : FeedClient} (h : Asked s channel symbol)
    (hsession : s'.session = s.session) (hsent : s.sent <+: s'.sent)
    (hrefused : s.refused <+: s'.refused) : Asked s' channel symbol := by
  obtain ⟨m, hm, hmessage⟩ := h
  refine ⟨m, ?_, ?_⟩
  · rcases List.mem_append.mp hm with hm | hm
    · exact List.mem_append_left _ (hsent.subset hm)
    · exact List.mem_append_right _ (hrefused.subset hm)
  · rw [hsession]
    exact hmessage

/-- What a call leaves as it is. -/
structure CallFrame (s after : FeedClient) : Prop where
  session : after.session = s.session
  connected : after.connected = s.connected
  flag : after.flag = s.flag
  closing : after.closing = s.closing
  handler : after.handler = s.handler
  calls : after.calls = s.calls
  taken : after.taken = s.taken
  sent : s.sent <+: after.sent
  refused : s.refused <+: after.refused

/-- A step that does nothing keeps the frame. -/
theorem callFrame_refl (s : FeedClient) : CallFrame s s :=
  ⟨rfl, rfl, rfl, rfl, rfl, rfl, rfl, List.prefix_rfl, List.prefix_rfl⟩

/-- A session that lasts behind an access of a call lasted before it. -/
theorem CallFrame.live {after : FeedClient} (h : CallFrame s after) (hlive : InSession after) :
    InSession s :=
  ⟨h.connected ▸ hlive.1, h.closing ▸ hlive.2⟩

/-- A push of a message keeps the frame: the messages only grow. -/
theorem callFrame_push (ch : Channel) (symbols : List SymbolId) (room : Bool) :
    CallFrame s (s.push ch symbols room) := by
  unfold FeedClient.push
  dsimp only
  split_ifs
  · exact ⟨rfl, rfl, rfl, rfl, rfl, rfl, rfl, List.prefix_append _ _, List.prefix_rfl⟩
  · exact ⟨rfl, rfl, rfl, rfl, rfl, rfl, rfl, List.prefix_rfl, List.prefix_append _ _⟩

/-- A push leaves the stored lists. -/
theorem push_stored (ch : Channel) (symbols : List SymbolId) (room : Bool) :
    (s.push ch symbols room).stored = s.stored := by
  unfold FeedClient.push
  dsimp only
  split_ifs
  · rfl
  · rfl

/-- A pushed message asks, also where the queue has no room. -/
theorem asked_push {symbols : List SymbolId} (hsymbol : symbol ∈ symbols) (room : Bool) :
    Asked (s.push channel symbols room) channel symbol := by
  refine ⟨⟨s.session, channel, symbols⟩, ?_, ?_, rfl, hsymbol⟩
  · unfold FeedClient.push
    dsimp only
    split_ifs
    · simp
    · simp
  · exact (callFrame_push channel symbols room).session.symm

/-- The state after a call that sends nothing is the one before. -/
theorem callStep_sending (ch : Channel) (symbols : List SymbolId) (room : Bool) :
    (s.callStep rules room (.sending ch symbols)).1 = s := by
  simp only [FeedClient.callStep]
  cases rules.batchSize with
  | none => rfl
  | some batch =>
    cases symbols with
    | nil => rfl
    | cons first rest => rfl

/-- Every access of a call keeps the frame. -/
theorem callFrame_callStep (rules : FeedRules) (s : FeedClient) (room : Bool)
    (call : SubscribePhase) : CallFrame s (s.callStep rules room call).1 := by
  cases call with
  | idle => exact callFrame_refl s
  | fetching ch symbols => exact callFrame_refl s
  | storing ch symbols =>
    exact ⟨rfl, rfl, rfl, rfl, rfl, rfl, rfl, List.prefix_rfl, List.prefix_rfl⟩
  | checking ch symbols => exact callFrame_refl s
  | sending ch symbols =>
    rw [callStep_sending]
    exact callFrame_refl s
  | pushing ch message rest => exact callFrame_push ch message room

/-- On a marked connection a call asks for its symbols in the end. -/
theorem CallAsks.callStep {call : SubscribePhase} (h : CallAsks channel symbol call)
    (hlive : InSession s) (hflag : s.flag = true) (room : Bool) :
    Asked (s.callStep rules room call).1 channel symbol ∨
      CallAsks channel symbol (s.callStep rules room call).2 := by
  cases call with
  | idle => exact absurd h id
  | fetching ch symbols =>
    right
    simp only [FeedClient.callStep, hflag, if_true]
    exact h
  | storing ch symbols => exact .inr h
  | checking ch symbols =>
    right
    simp only [FeedClient.callStep, hflag, hlive.1, ite_self, if_true]
    exact h
  | sending ch symbols =>
    right
    obtain ⟨rfl, hsymbol⟩ := h
    simp only [FeedClient.callStep, hlive.1, if_true]
    cases rules.batchSize with
    | none => exact ⟨rfl, List.mem_append_left _ hsymbol⟩
    | some batch =>
      cases symbols with
      | nil => exact absurd hsymbol List.not_mem_nil
      | cons first rest =>
        refine ⟨rfl, ?_⟩
        rw [List.take_append_drop]
        exact hsymbol
  | pushing ch message rest =>
    obtain ⟨rfl, hsymbol⟩ := h
    simp only [FeedClient.callStep]
    rcases List.mem_append.mp hsymbol with hsymbol | hsymbol
    · exact .inl (asked_push hsymbol room)
    · right
      rw [if_neg (List.ne_nil_of_mem hsymbol)]
      exact ⟨rfl, hsymbol⟩

/-- Only `storing` writes a list. -/
theorem callStep_stored_eq {call : SubscribePhase}
    (h : ∀ ch symbols, call ≠ .storing ch symbols) (room : Bool) :
    (s.callStep rules room call).1.stored = s.stored := by
  cases call with
  | idle | fetching | checking => rfl
  | storing ch symbols => exact absurd rfl (h ch symbols)
  | sending ch symbols => rw [callStep_sending]
  | pushing ch message rest => exact push_stored ch message room

/-- A list that a call has stored is its own to ask for. -/
theorem callStep_stored {call : SubscribePhase} {room : Bool}
    (h : symbol ∈ (s.callStep rules room call).1.stored channel) :
    symbol ∈ s.stored channel ∨ CallAsks channel symbol (s.callStep rules room call).2 := by
  by_cases hstoring : ∃ ch symbols, call = .storing ch symbols
  · obtain ⟨ch, symbols, rfl⟩ := hstoring
    simp only [FeedClient.callStep] at h ⊢
    by_cases hsame : channel = ch
    · subst hsame
      rw [Function.update_self] at h
      exact .inr ⟨rfl, h⟩
    · rw [Function.update_of_ne hsame] at h
      exact .inl h
  · rw [callStep_stored_eq fun ch symbols heq => hstoring ⟨ch, symbols, heq⟩] at h
    exact .inl h

/-- A thread with something to ask for is not the idle one. -/
theorem ne_of_callAsks {thread other : ℕ} (hidle : s.calls thread = .idle)
    (hasks : CallAsks channel symbol (s.calls other)) : other ≠ thread := by
  rintro rfl
  rw [hidle] at hasks
  exact hasks

/-- A thread that stores is not one that has no call. -/
theorem ne_of_storing {thread other : ℕ} {symbols : List SymbolId}
    (hidle : s.calls thread = .idle) (hstoring : s.calls other = .storing channel symbols) :
    other ≠ thread := by
  rintro rfl
  rw [hidle] at hstoring
  cases hstoring

end Call

/-! ## The steps of the client -/

section Step

variable {rules : FeedRules} {s : FeedClient}

/-- A stored list of a channel that is resubscribed is among those asked for again. -/
theorem mem_resubscriptions {stored : Channel → List SymbolId} {channel : Channel}
    (hagain : Resubscribes rules channel) {symbol : SymbolId} (hsymbol : symbol ∈ stored channel) :
    (channel, stored channel) ∈ FeedClient.resubscriptions rules stored := by
  have hnonempty : stored channel ≠ [] := List.ne_nil_of_mem hsymbol
  unfold FeedClient.resubscriptions
  dsimp only
  cases channel with
  | ticker =>
    have hboth : rules.orderbooksFirst ≠ true := fun hfirst => nomatch hagain hfirst
    rw [if_neg hboth, if_neg hnonempty]
    exact List.mem_append_left _ (List.mem_singleton_self _)
  | orderbook =>
    rw [if_neg hnonempty, if_neg hnonempty]
    by_cases hfirst : rules.orderbooksFirst = true
    · rw [if_pos hfirst]
      exact List.mem_singleton_self _
    · rw [if_neg hfirst]
      exact List.mem_append_right _ (List.mem_singleton_self _)

/-- In a session the handler is about to mark the connection or has marked it. -/
theorem FeedSound.marked (h : FeedSound rules s) (hlive : InSession s) :
    s.handler = .marking ∨ s.flag = true := by
  by_cases hmarking : s.handler = .marking
  · exact .inl hmarking
  · exact .inr (h.flagged hlive hmarking)

/-- The next access of a call keeps the invariant. -/
theorem FeedSound.proceed (h : FeedSound rules s) (thread : ℕ) (room : Bool) :
    FeedSound rules (s.step rules (.proceed thread room)) := by
  have hframe := callFrame_callStep rules s room (s.calls thread)
  simp only [FeedClient.step]
  constructor
  · intro hafter hmarking
    rw [hframe.flag]
    exact h.flagged (hframe.live hafter) (hframe.handler ▸ hmarking)
  · intro hafter channel hagain symbol hsymbol
    have hlive : InSession s := hframe.live hafter
    have hnext : CallAsks channel symbol (s.callStep rules room (s.calls thread)).2 →
        ∃ other, CallAsks channel symbol (Function.update
          (s.callStep rules room (s.calls thread)).1.calls thread
          (s.callStep rules room (s.calls thread)).2 other) := by
      intro hasks
      refine ⟨thread, ?_⟩
      rw [Function.update_self]
      exact hasks
    rcases callStep_stored hsymbol with hold | hasks
    · rcases h.covered hlive channel hagain symbol hold with hasked | hhandler | ⟨other, hasks⟩
      · exact .inl (hasked.of_same hframe.session hframe.sent hframe.refused)
      · refine .inr (.inl ?_)
        rw [← hframe.handler] at hhandler
        exact hhandler
      · by_cases hother : other = thread
        · subst hother
          rcases h.marked hlive with hmarking | hflag
          · refine .inr (.inl ?_)
            dsimp only
            rw [hframe.handler, hmarking]
            trivial
          · rcases hasks.callStep hlive hflag room with hasked | hasks
            · exact .inl hasked
            · exact .inr (.inr (hnext hasks))
        · refine .inr (.inr ⟨other, ?_⟩)
          dsimp only
          rw [Function.update_of_ne hother, hframe.calls]
          exact hasks
    · exact .inr (.inr (hnext hasks))

/-- A new call keeps the invariant. -/
theorem FeedSound.subscribe (h : FeedSound rules s) (thread : ℕ) (ch : Channel)
    (symbols : List SymbolId) : FeedSound rules (s.step rules (.subscribe thread ch symbols)) := by
  simp only [FeedClient.step]
  cases hcall : s.calls thread with
  | idle =>
    refine ⟨h.flagged, fun hlive channel hagain symbol hsymbol => ?_⟩
    rcases h.covered hlive channel hagain symbol hsymbol with hasked | hhandler | ⟨other, hasks⟩
    · exact .inl hasked
    · exact .inr (.inl hhandler)
    · have hother : other ≠ thread := ne_of_callAsks hcall hasks
      refine .inr (.inr ⟨other, ?_⟩)
      dsimp only
      rw [Function.update_of_ne hother]
      exact hasks
  | fetching | storing | checking | sending | pushing => exact h

/-- A call that `on_ws_connected` makes itself. -/
theorem FeedSound.handlerCall (h : FeedSound rules s) {call : SubscribePhase}
    {todo : List (Channel × List SymbolId)} (hhandler : s.handler = .calling call todo)
    (room : Bool) :
    FeedSound rules { (s.callStep rules room call).1 with
      handler := .calling (s.callStep rules room call).2 todo } := by
  have hframe := callFrame_callStep rules s room call
  have hmarked : s.handler ≠ .marking := by
    rw [hhandler]
    exact ConnectedPhase.noConfusion
  constructor
  · intro hafter _
    dsimp only
    rw [hframe.flag]
    exact h.flagged (hframe.live hafter) hmarked
  · intro hafter channel hagain symbol hsymbol
    have hlive : InSession s := hframe.live hafter
    rcases callStep_stored hsymbol with hold | hasks
    · rcases h.covered hlive channel hagain symbol hold with hasked | hasks | ⟨other, hasks⟩
      · exact .inl (hasked.of_same hframe.session hframe.sent hframe.refused)
      · rw [hhandler] at hasks
        rcases hasks with hasks | htodo
        · rcases hasks.callStep hlive (h.flagged hlive hmarked) room with hasked | hasks
          · exact .inl hasked
          · exact .inr (.inl (.inl hasks))
        · exact .inr (.inl (.inr htodo))
      · refine .inr (.inr ⟨other, ?_⟩)
        dsimp only
        rw [hframe.calls]
        exact hasks
    · exact .inr (.inl (.inl hasks))

/-- The next list of `on_ws_connected` goes to a thread of its own. -/
theorem FeedSound.detach (h : FeedSound rules s) {p : Channel × List SymbolId}
    {todo : List (Channel × List SymbolId)} (hhandler : s.handler = .calling .idle (p :: todo))
    {thread : ℕ} (hidle : s.calls thread = .idle) :
    FeedSound rules { s with
      handler := .calling .idle todo
      calls := Function.update s.calls thread (.fetching p.1 p.2) } := by
  constructor
  · intro hlive _
    refine h.flagged hlive ?_
    rw [hhandler]
    exact ConnectedPhase.noConfusion
  · intro hlive channel hagain symbol hsymbol
    rcases h.covered hlive channel hagain symbol hsymbol with hasked | hasks | ⟨other, hasks⟩
    · exact .inl hasked
    · rw [hhandler] at hasks
      obtain ⟨q, hq, hlisted⟩ := hasks.resolve_left id
      rcases List.mem_cons.mp hq with rfl | hq
      · refine .inr (.inr ⟨thread, ?_⟩)
        dsimp only
        rw [Function.update_self]
        exact hlisted
      · exact .inr (.inl (.inr ⟨q, hq, hlisted⟩))
    · have hother : other ≠ thread := ne_of_callAsks hidle hasks
      refine .inr (.inr ⟨other, ?_⟩)
      dsimp only
      rw [Function.update_of_ne hother]
      exact hasks

/-- Only the handler changes, and it still asks for what it asked for. -/
theorem FeedSound.moveHandler (h : FeedSound rules s) (hmarked : s.handler ≠ .marking)
    {next : ConnectedPhase}
    (hasks : ∀ channel, Resubscribes rules channel → ∀ symbol ∈ s.stored channel,
      HandlerAsks channel symbol s.handler → HandlerAsks channel symbol next) :
    FeedSound rules { s with handler := next } := by
  refine ⟨fun hlive _ => h.flagged hlive hmarked, ?_⟩
  intro hlive channel hagain symbol hsymbol
  rcases h.covered hlive channel hagain symbol hsymbol with hasked | hhandler | hcall
  · exact .inl hasked
  · exact .inr (.inl (hasks channel hagain symbol hsymbol hhandler))
  · exact .inr (.inr hcall)

/-- The next access of the connection's handler keeps the invariant. -/
theorem FeedSound.handler (h : FeedSound rules s) (room : Bool) (thread : ℕ) :
    FeedSound rules (s.step rules (.handler room thread)) := by
  simp only [FeedClient.step, FeedClient.handlerStep]
  cases hhandler : s.handler with
  | idle => exact h
  | marking => exact ⟨fun _ _ => rfl, fun _ _ _ _ _ => .inr (.inl trivial)⟩
  | copying =>
    refine h.moveHandler (by rw [hhandler]; exact ConnectedPhase.noConfusion) ?_
    intro channel hagain symbol hsymbol _
    exact .inr ⟨_, mem_resubscriptions hagain hsymbol, rfl, hsymbol⟩
  | calling call todo =>
    have hmarked : s.handler ≠ .marking := by
      rw [hhandler]
      exact ConnectedPhase.noConfusion
    cases call with
    | idle =>
      cases todo with
      | nil =>
        refine h.moveHandler hmarked fun channel _ symbol _ hasks => ?_
        rw [hhandler] at hasks
        obtain ⟨p, hp, -⟩ := hasks.resolve_left id
        exact absurd hp List.not_mem_nil
      | cons p todo =>
        obtain ⟨ch, symbols⟩ := p
        dsimp only
        split_ifs with hdetached
        · cases hcall : s.calls thread with
          | idle => exact h.detach hhandler hcall
          | fetching | storing | checking | sending | pushing => exact h
        · refine h.moveHandler hmarked fun channel _ symbol _ hasks => ?_
          rw [hhandler] at hasks
          obtain ⟨q, hq, hlisted⟩ := hasks.resolve_left id
          rcases List.mem_cons.mp hq with rfl | hq
          · exact .inl hlisted
          · exact .inr ⟨q, hq, hlisted⟩
    | fetching | storing | checking | sending | pushing => exact h.handlerCall hhandler room

/-- Every event keeps the invariant. -/
theorem FeedSound.step (h : FeedSound rules s) (event : FeedClientEvent) :
    FeedSound rules (s.step rules event) := by
  cases event with
  | subscribe thread ch symbols => exact h.subscribe thread ch symbols
  | proceed thread room => exact h.proceed thread room
  | handler room thread => exact h.handler room thread
  | handshake =>
    simp only [FeedClient.step]
    split_ifs
    · exact ⟨fun _ hmarking => absurd rfl hmarking, fun _ _ _ _ _ => .inr (.inl trivial)⟩
    · exact h
  | lost => exact ⟨fun hlive => (nomatch hlive.1), fun hlive => (nomatch hlive.1)⟩
  | announced =>
    simp only [FeedClient.step]
    split_ifs
    · have hdown : ∀ {c : Bool}, ¬ (c = true ∧ c = false) := fun h => nomatch h.1.symm.trans h.2
      exact ⟨fun hlive => absurd hlive hdown, fun hlive => absurd hlive hdown⟩
    · exact h

end Step

/-! ## What is asked for -/

/-- The list that a call goes over is the end of one that a thread gave, and its messages are
batches of it. -/
def CallWithin (rules : FeedRules) (taken : List (Channel × List SymbolId)) : SubscribePhase → Prop
  | .idle => True
  | .fetching ch symbols | .storing ch symbols | .checking ch symbols => (ch, symbols) ∈ taken
  | .sending ch symbols => ∃ whole, (ch, whole) ∈ taken ∧ symbols <:+ whole
  | .pushing ch message rest =>
    (∃ whole, (ch, whole) ∈ taken ∧ message ++ rest <:+ whole) ∧
      ∀ batch ∈ rules.batchSize, message.length ≤ batch

/-- `on_ws_connected` goes over lists that threads gave. -/
def HandlerWithin (rules : FeedRules) (taken : List (Channel × List SymbolId)) :
    ConnectedPhase → Prop
  | .idle | .marking | .copying => True
  | .calling call todo => CallWithin rules taken call ∧ ∀ p ∈ todo, p ∈ taken

/-- The message is a batch of a list that a thread gave. -/
def MessageWithin (rules : FeedRules) (taken : List (Channel × List SymbolId))
    (m : SubscribeMessage) : Prop :=
  (∃ whole, (m.channel, whole) ∈ taken ∧ m.symbols <:+: whole) ∧
    ∀ batch ∈ rules.batchSize, m.symbols.length ≤ batch

/-- Every list of the client is one that a thread gave, or a part of it; and a channel for which a
call was made has such a list, as soon as the call has stored it. -/
structure ListsWithin (rules : FeedRules) (s : FeedClient) : Prop where
  stored : ∀ channel, s.stored channel = [] ∨ (channel, s.stored channel) ∈ s.taken
  remembered : ∀ p ∈ s.taken, (∃ thread symbols, s.calls thread = .storing p.1 symbols) ∨
    (p.1, s.stored p.1) ∈ s.taken
  calls : ∀ thread, CallWithin rules s.taken (s.calls thread)
  handler : HandlerWithin rules s.taken s.handler
  messages : ∀ m ∈ s.sent ++ s.refused, MessageWithin rules s.taken m

section Within

variable {rules : FeedRules} {s : FeedClient} {taken taken' : List (Channel × List SymbolId)}

/-- A call stays within the symbols asked for when more are. -/
theorem CallWithin.mono {call : SubscribePhase} (h : CallWithin rules taken call)
    (hsubset : taken ⊆ taken') : CallWithin rules taken' call := by
  cases call with
  | idle => trivial
  | fetching | storing | checking => exact hsubset h
  | sending ch symbols =>
    obtain ⟨whole, hwhole, hsuffix⟩ := h
    exact ⟨whole, hsubset hwhole, hsuffix⟩
  | pushing ch message rest =>
    obtain ⟨⟨whole, hwhole, hsuffix⟩, hbatch⟩ := h
    exact ⟨⟨whole, hsubset hwhole, hsuffix⟩, hbatch⟩

/-- The handler stays within the symbols asked for when more are. -/
theorem HandlerWithin.mono {phase : ConnectedPhase} (h : HandlerWithin rules taken phase)
    (hsubset : taken ⊆ taken') : HandlerWithin rules taken' phase := by
  cases phase with
  | idle | marking | copying => trivial
  | calling call todo => exact ⟨h.1.mono hsubset, fun p hp => hsubset (h.2 p hp)⟩

/-- A message stays within the symbols asked for when more are. -/
theorem MessageWithin.mono {m : SubscribeMessage} (h : MessageWithin rules taken m)
    (hsubset : taken ⊆ taken') : MessageWithin rules taken' m := by
  obtain ⟨⟨whole, hwhole, hinfix⟩, hbatch⟩ := h
  exact ⟨⟨whole, hsubset hwhole, hinfix⟩, hbatch⟩

/-- A call goes on with a part of its own list. -/
theorem CallWithin.callStep {call : SubscribePhase} (h : CallWithin rules taken call)
    (s : FeedClient) (room : Bool) : CallWithin rules taken (s.callStep rules room call).2 := by
  cases call with
  | idle => trivial
  | fetching ch symbols =>
    simp only [FeedClient.callStep]
    split_ifs
    · exact h
    · trivial
  | storing ch symbols => exact h
  | checking ch symbols =>
    simp only [FeedClient.callStep]
    split_ifs
    · exact ⟨symbols, h, List.suffix_rfl⟩
    · trivial
    · exact ⟨symbols, h, List.suffix_rfl⟩
    · trivial
  | sending ch symbols =>
    obtain ⟨whole, hwhole, hsuffix⟩ := h
    simp only [FeedClient.callStep]
    cases hrules : rules.batchSize with
    | none =>
      split_ifs
      · refine ⟨⟨whole, hwhole, ?_⟩, fun batch hbatch => ?_⟩
        · rw [List.append_nil]
          exact hsuffix
        · rw [hrules] at hbatch
          exact absurd hbatch (Option.not_mem_none batch)
      · trivial
    | some size =>
      cases symbols with
      | nil => trivial
      | cons first rest =>
        dsimp only
        split_ifs
        · refine ⟨⟨whole, hwhole, ?_⟩, fun batch hbatch => ?_⟩
          · rw [List.take_append_drop]
            exact hsuffix
          · rw [hrules, Option.mem_some_iff] at hbatch
            subst hbatch
            exact List.length_take_le _ _
        · exact ⟨whole, hwhole, (List.drop_suffix _ _).trans hsuffix⟩
  | pushing ch message rest =>
    obtain ⟨⟨whole, hwhole, hsuffix⟩, -⟩ := h
    simp only [FeedClient.callStep]
    split_ifs
    · trivial
    · exact ⟨whole, hwhole, (List.suffix_append message rest).trans hsuffix⟩

/-- What a call pushes is a batch of its list. -/
theorem CallWithin.messages {call : SubscribePhase} (h : CallWithin rules s.taken call)
    (hmessages : ∀ m ∈ s.sent ++ s.refused, MessageWithin rules s.taken m) (room : Bool) :
    ∀ m ∈ (s.callStep rules room call).1.sent ++ (s.callStep rules room call).1.refused,
      MessageWithin rules s.taken m := by
  cases call with
  | idle | fetching | storing | checking => exact hmessages
  | sending ch symbols =>
    rw [callStep_sending]
    exact hmessages
  | pushing ch message rest =>
    obtain ⟨⟨whole, hwhole, hsuffix⟩, hbatch⟩ := h
    have hpushed : MessageWithin rules s.taken ⟨s.session, ch, message⟩ :=
      ⟨⟨whole, hwhole, (List.prefix_append message rest).isInfix.trans hsuffix.isInfix⟩, hbatch⟩
    intro m hm
    simp only [FeedClient.callStep, FeedClient.push] at hm
    split_ifs at hm
    · rw [List.append_assoc, List.mem_append, List.mem_append, List.mem_singleton] at hm
      rcases hm with hm | rfl | hm
      · exact hmessages m (List.mem_append_left _ hm)
      · exact hpushed
      · exact hmessages m (List.mem_append_right _ hm)
    · rw [← List.append_assoc, List.mem_append, List.mem_singleton] at hm
      rcases hm with hm | rfl
      · exact hmessages m hm
      · exact hpushed

/-- What a call stores is a list that a thread gave. -/
theorem CallWithin.stored {call : SubscribePhase} (h : CallWithin rules s.taken call)
    (room : Bool) (channel : Channel) :
    (s.callStep rules room call).1.stored channel = s.stored channel ∨
      (channel, (s.callStep rules room call).1.stored channel) ∈ s.taken := by
  by_cases hstoring : ∃ ch symbols, call = .storing ch symbols
  · obtain ⟨ch, symbols, rfl⟩ := hstoring
    simp only [FeedClient.callStep]
    by_cases hsame : channel = ch
    · subst hsame
      rw [Function.update_self]
      exact .inr h
    · rw [Function.update_of_ne hsame]
      exact .inl rfl
  · rw [callStep_stored_eq fun ch symbols heq => hstoring ⟨ch, symbols, heq⟩]
    exact .inl rfl

/-- A call that was about to store has stored its list. -/
theorem CallWithin.remembered {call : SubscribePhase} (h : CallWithin rules s.taken call)
    (room : Bool) {channel : Channel}
    (hlist : (∃ symbols, call = .storing channel symbols) ∨
      (channel, s.stored channel) ∈ s.taken) :
    (channel, (s.callStep rules room call).1.stored channel) ∈ s.taken := by
  rcases hlist with ⟨symbols, rfl⟩ | hlist
  · simp only [FeedClient.callStep, Function.update_self]
    exact h
  · rcases h.stored room channel with heq | hmem
    · rw [heq]
      exact hlist
    · exact hmem

/-- A call, of a thread or of `on_ws_connected`, that goes one step on. -/
theorem ListsWithin.callStep (h : ListsWithin rules s) {call : SubscribePhase}
    (hcall : CallWithin rules s.taken call) (room : Bool) {calls : ℕ → SubscribePhase}
    {handler : ConnectedPhase} (hcalls : ∀ thread, CallWithin rules s.taken (calls thread))
    (hhandler : HandlerWithin rules s.taken handler)
    (hstoring : ∀ thread channel symbols, s.calls thread = .storing channel symbols →
      (∃ symbols, calls thread = .storing channel symbols) ∨
        ∃ symbols, call = .storing channel symbols) :
    ListsWithin rules { (s.callStep rules room call).1 with
      calls := calls, handler := handler } := by
  have htaken := (callFrame_callStep rules s room call).taken
  constructor
  · intro channel
    dsimp only
    rw [htaken]
    rcases hcall.stored room channel with heq | hmem
    · rw [heq]
      exact h.stored channel
    · exact .inr hmem
  · intro p hp
    dsimp only at hp ⊢
    rw [htaken] at hp ⊢
    rcases h.remembered p hp with ⟨thread, symbols, hthread⟩ | hlist
    · rcases hstoring thread p.1 symbols hthread with ⟨symbols, hkept⟩ | hgone
      · exact .inl ⟨thread, symbols, hkept⟩
      · exact .inr (hcall.remembered room (.inl hgone))
    · exact .inr (hcall.remembered room (.inr hlist))
  · intro thread
    dsimp only
    rw [htaken]
    exact hcalls thread
  · dsimp only
    rw [htaken]
    exact hhandler
  · dsimp only
    rw [htaken]
    exact hcall.messages h.messages room

/-- The next access of a call stores and sends only what was asked for. -/
theorem ListsWithin.proceed (h : ListsWithin rules s) (thread : ℕ) (room : Bool) :
    ListsWithin rules (s.step rules (.proceed thread room)) := by
  have hframe := callFrame_callStep rules s room (s.calls thread)
  simp only [FeedClient.step]
  refine h.callStep (h.calls thread) room ?_ ?_ ?_
  · intro other
    by_cases hother : other = thread
    · subst hother
      rw [Function.update_self]
      exact (h.calls other).callStep s room
    · rw [Function.update_of_ne hother, hframe.calls]
      exact h.calls other
  · rw [hframe.handler]
    exact h.handler
  · intro other channel symbols hstoring
    by_cases hother : other = thread
    · subst hother
      exact .inr ⟨symbols, hstoring⟩
    · rw [Function.update_of_ne hother, hframe.calls]
      exact .inl ⟨symbols, hstoring⟩

/-- A new call adds its own symbols to those asked for. -/
theorem ListsWithin.subscribe (h : ListsWithin rules s) (thread : ℕ) (ch : Channel)
    (symbols : List SymbolId) :
    ListsWithin rules (s.step rules (.subscribe thread ch symbols)) := by
  have hold : s.taken ⊆ s.taken ++ [(ch, symbols)] := List.subset_append_left _ _
  simp only [FeedClient.step]
  cases hcall : s.calls thread with
  | idle =>
    constructor
    · exact fun channel => (h.stored channel).imp_right fun hlist => hold hlist
    · intro p hp
      dsimp only at hp ⊢
      rcases List.mem_append.mp hp with hp | hp
      · refine (h.remembered p hp).imp ?_ fun hlist => hold hlist
        rintro ⟨other, list, hstoring⟩
        have hother : other ≠ thread := ne_of_storing hcall hstoring
        refine ⟨other, list, ?_⟩
        rw [Function.update_of_ne hother]
        exact hstoring
      · rw [List.mem_singleton] at hp
        subst hp
        refine .inl ⟨thread, symbols, ?_⟩
        rw [Function.update_self]
    · intro other
      dsimp only
      by_cases hother : other = thread
      · subst hother
        rw [Function.update_self]
        exact List.mem_append_right _ (List.mem_singleton_self _)
      · rw [Function.update_of_ne hother]
        exact (h.calls other).mono hold
    · exact h.handler.mono hold
    · exact fun m hm => (h.messages m hm).mono hold
  | fetching | storing | checking | sending | pushing => exact h

/-- The lists that are asked for again are the stored ones. -/
theorem of_mem_resubscriptions {stored : Channel → List SymbolId}
    {p : Channel × List SymbolId} (hp : p ∈ FeedClient.resubscriptions rules stored) :
    p.2 = stored p.1 ∧ stored p.1 ≠ [] := by
  have hsingle : ∀ channel, p ∈ (if stored channel = [] then [] else [(channel, stored channel)]) →
      p.2 = stored p.1 ∧ stored p.1 ≠ [] := by
    intro channel hmem
    split_ifs at hmem with hempty
    · exact absurd hmem List.not_mem_nil
    · rw [List.mem_singleton] at hmem
      subst hmem
      exact ⟨rfl, hempty⟩
  unfold FeedClient.resubscriptions at hp
  dsimp only at hp
  by_cases hfirst : rules.orderbooksFirst = true
  · rw [if_pos hfirst] at hp
    by_cases hempty : stored .orderbook = []
    · rw [if_pos hempty] at hp
      exact hsingle .ticker hp
    · rw [if_neg hempty] at hp
      exact hsingle .orderbook hp
  · rw [if_neg hfirst] at hp
    exact (List.mem_append.mp hp).elim (hsingle .ticker) (hsingle .orderbook)

/-- A call that `on_ws_connected` makes itself. -/
theorem ListsWithin.handlerCall (h : ListsWithin rules s) {call : SubscribePhase}
    (hcall : CallWithin rules s.taken call) {todo : List (Channel × List SymbolId)}
    (htodo : ∀ p ∈ todo, p ∈ s.taken) (room : Bool) :
    ListsWithin rules { (s.callStep rules room call).1 with
      handler := .calling (s.callStep rules room call).2 todo } := by
  have hframe := callFrame_callStep rules s room call
  refine h.callStep hcall room ?_ ⟨hcall.callStep s room, htodo⟩ ?_
  · rw [hframe.calls]
    exact h.calls
  · intro other channel symbols hstoring
    rw [hframe.calls]
    exact .inl ⟨symbols, hstoring⟩

/-- A thread of its own gets the next list of `on_ws_connected`. -/
theorem ListsWithin.detach (h : ListsWithin rules s) {p : Channel × List SymbolId}
    (hp : p ∈ s.taken) {todo : List (Channel × List SymbolId)} (htodo : ∀ q ∈ todo, q ∈ s.taken)
    {thread : ℕ} (hidle : s.calls thread = .idle) :
    ListsWithin rules { s with
      handler := .calling .idle todo
      calls := Function.update s.calls thread (.fetching p.1 p.2) } := by
  refine ⟨h.stored, fun q hq => ?_, fun other => ?_, ⟨trivial, htodo⟩, h.messages⟩
  · refine (h.remembered q hq).imp_left ?_
    rintro ⟨other, list, hstoring⟩
    have hother : other ≠ thread := ne_of_storing hidle hstoring
    refine ⟨other, list, ?_⟩
    dsimp only
    rw [Function.update_of_ne hother]
    exact hstoring
  · dsimp only
    by_cases hother : other = thread
    · subst hother
      rw [Function.update_self]
      exact hp
    · rw [Function.update_of_ne hother]
      exact h.calls other

/-- The handler sends only what is stored. -/
theorem ListsWithin.handlerStep (h : ListsWithin rules s) (room : Bool) (thread : ℕ) :
    ListsWithin rules (s.step rules (.handler room thread)) := by
  have hasks := h.handler
  simp only [FeedClient.step, FeedClient.handlerStep]
  cases hhandler : s.handler with
  | idle => exact h
  | marking => exact ⟨h.stored, h.remembered, h.calls, trivial, h.messages⟩
  | copying =>
    refine ⟨h.stored, h.remembered, h.calls, ⟨trivial, fun p hp => ?_⟩, h.messages⟩
    obtain ⟨hlist, hnonempty⟩ := of_mem_resubscriptions hp
    have hmem := (h.stored p.1).resolve_left hnonempty
    rw [← hlist] at hmem
    exact hmem
  | calling call todo =>
    rw [hhandler] at hasks
    obtain ⟨hcall, htodo⟩ := hasks
    cases call with
    | idle =>
      cases todo with
      | nil => exact ⟨h.stored, h.remembered, h.calls, trivial, h.messages⟩
      | cons p todo =>
        obtain ⟨hp, htodo⟩ := List.forall_mem_cons.mp htodo
        dsimp only
        split_ifs
        · cases hidle : s.calls thread with
          | idle => exact h.detach hp htodo hidle
          | fetching | storing | checking | sending | pushing => exact h
        · exact ⟨h.stored, h.remembered, h.calls, ⟨hp, htodo⟩, h.messages⟩
    | fetching | storing | checking | sending | pushing => exact h.handlerCall hcall htodo room

/-- No event stores or sends what was not asked for. -/
theorem ListsWithin.step (h : ListsWithin rules s) (event : FeedClientEvent) :
    ListsWithin rules (s.step rules event) := by
  cases event with
  | subscribe thread ch symbols => exact h.subscribe thread ch symbols
  | proceed thread room => exact h.proceed thread room
  | handler room thread => exact h.handlerStep room thread
  | handshake =>
    simp only [FeedClient.step]
    split_ifs
    · exact ⟨h.stored, h.remembered, h.calls, trivial, h.messages⟩
    · exact h
  | announced =>
    simp only [FeedClient.step]
    split_ifs
    · exact ⟨h.stored, h.remembered, h.calls, h.handler, h.messages⟩
    · exact h
  | lost => exact ⟨h.stored, h.remembered, h.calls, h.handler, h.messages⟩

end Within

/-! ## The run -/

/-- The invariant holds in every state of a run. -/
theorem feedSound_run (rules : FeedRules) (events : List FeedClientEvent) :
    FeedSound rules (FeedClient.run rules events) := by
  induction events using List.reverseRecOn with
  | nil => exact ⟨fun hlive => (nomatch hlive.1), fun hlive => (nomatch hlive.1)⟩
  | append_singleton events event ih =>
    rw [FeedClient.run, List.foldl_concat]
    exact ih.step event

/-- In every state of a run only what was asked for is stored and sent. -/
theorem listsWithin_run (rules : FeedRules) (events : List FeedClientEvent) :
    ListsWithin rules (FeedClient.run rules events) := by
  induction events using List.reverseRecOn with
  | nil =>
    exact ⟨fun _ => .inl rfl, fun p hp => absurd hp List.not_mem_nil, fun _ => trivial, trivial,
      fun m hm => absurd hm List.not_mem_nil⟩
  | append_singleton events event ih =>
    rw [FeedClient.run, List.foldl_concat]
    exact ih.step event

/-- Every venue's rules ask for the order books again, and for the tickers except on Upbit. -/
theorem resubscribes_feedRules {venue : Exchange} {channel : Channel}
    (h : venue = .upbit → channel = .orderbook) : Resubscribes (feedRules venue) channel := by
  cases venue with
  | bithumb | bybit | okx => exact fun hfirst => nomatch hfirst
  | upbit => exact fun _ => h rfl

/-- Whatever happened to the connection, a client that is connected and has nothing under way has
asked on this connection for the whole of a list that the channel was subscribed to, and no message
asks for anything else or for more than the venue allows. -/
theorem subscriptions_survive_reconnects (venue : Exchange) (events : List FeedClientEvent) :
    let rules := feedRules venue
    let s := FeedClient.run rules events
    (InSession s → s.handler = .idle → (∀ thread, s.calls thread = .idle) →
      ∀ p ∈ s.taken, (venue = .upbit → p.1 = .orderbook) →
        (p.1, s.stored p.1) ∈ s.taken ∧ ∀ symbol ∈ s.stored p.1, Asked s p.1 symbol) ∧
      ∀ m ∈ s.sent ++ s.refused, MessageWithin rules s.taken m := by
  intro rules s
  have hsound : FeedSound rules s := feedSound_run rules events
  have hlists : ListsWithin rules s := listsWithin_run rules events
  refine ⟨fun hlive hidle hcalls p hp hvenue => ⟨?_, ?_⟩, hlists.messages⟩
  · refine (hlists.remembered p hp).resolve_left ?_
    rintro ⟨thread, symbols, hstoring⟩
    rw [hcalls thread] at hstoring
    cases hstoring
  · intro symbol hsymbol
    have hcovered := hsound.covered hlive p.1 (resubscribes_feedRules hvenue) symbol hsymbol
    rcases hcovered with hasked | hasks | ⟨thread, hasks⟩
    · exact hasked
    · rw [hidle] at hasks
      exact absurd hasks id
    · rw [hcalls thread] at hasks
      exact absurd hasks id

/-- A list given before the first connection is asked for on each of two connections. -/
example :
    (FeedClient.run (feedRules .bybit)
      ([.subscribe 0 .orderbook [.of "XRP" "USDT"], .proceed 0 true, .proceed 0 true, .handshake]
        ++ List.replicate 8 (.handler true 1) ++ [.announced, .lost, .handshake]
        ++ List.replicate 8 (.handler true 1))).sent.map (fun m => (m.session, m.symbols.length)) =
      [(1, 1), (2, 1)] := by
  decide

end SpotRelay.Analysis
