import SpotRelay.Model.PendingOrders

/-!
# One answer for each pending order

An entry of `pending_orders_` is there from the registration of its call until the first of three
parties takes it away: the answer that sets its promise, the disconnect callback that does so, or
the call itself on its way out.  What is kept of each call is stated on that call and its own entry
alone, so that a step of another call, or an answer to another request, leaves it be.

* **one step** of the socket, of a call or of an answer keeps every call's account
  (`orderSocketStep_invariant`): the call itself (`placeOrderSync_invariant`), the answer
  (`PendingInvariant.answer`) and the disconnect callback (`PendingInvariant.reject`).
* **a run** therefore does (`runOrderSocket_invariant`).
-/

set_option autoImplicit false

namespace SpotRelay.Analysis

open SpotRelay.Model

/-- The call has not offered its promise yet. -/
def OrderCallPhase.unregistered : OrderCallPhase → Bool
  | .idle | .connected _ | .registering _ => true
  | _ => false

/-- The call has offered its promise and not returned. -/
def OrderCallPhase.underway : OrderCallPhase → Bool
  | .formatting _ | .overflowed _ | .waiting _ | .timedOut _ => true
  | _ => false

/-- What holds of a call under a request id, given whether its promise is pending. -/
structure OrderCallSound (reqId : String) (pending : Prop) (c : OrderCall) : Prop where
  open_ : pending → c.promise = [] ∧ OrderCallPhase.underway c.phase = true
  once : c.promise.length ≤ 1
  own : ∀ d ∈ c.promise, ∀ answered, d.answerTo = some answered → answered = reqId
  /-- Only a message brings a success. -/
  success : ∀ d ∈ c.promise, d.result.success = true → d.answerTo.isSome = true
  unset : OrderCallPhase.unregistered c.phase = true → c.promise = []
  filled : ∀ order, c.phase = .returned order → order.status = .filled →
    ∃ d, c.promise = [d] ∧ d.answerTo = some reqId ∧ order.orderIdStr = d.result.orderId

variable {reqId : String} {pending : Prop} {c : OrderCall} {d : Delivery}

namespace OrderCallSound

/-- A call that has not begun is sound. -/
theorem idle (reqId : String) : OrderCallSound reqId False {} where
  open_ := False.elim
  once := by simp
  own := by simp
  success := by simp
  unset := fun _ => rfl
  filled := by simp

/-- An entry may go away at any time. -/
theorem forget (h : OrderCallSound reqId pending c) : OrderCallSound reqId False c :=
  { h with open_ := False.elim }

/-- Whether a call is pending may be said in other words. -/
theorem of_iff {pending' : Prop} (h : OrderCallSound reqId pending c) (hiff : pending ↔ pending') :
    OrderCallSound reqId pending' c :=
  { h with open_ := fun hp => h.open_ (hiff.mpr hp) }

/-- The one delivery of a pending promise. -/
theorem setValue (h : OrderCallSound reqId pending c) (hp : pending)
    (hown : ∀ answered, d.answerTo = some answered → answered = reqId)
    (hsuccess : d.result.success = true → d.answerTo.isSome = true) :
    OrderCallSound reqId False (c.setValue d) := by
  obtain ⟨hempty, hphase⟩ := h.open_ hp
  have hpromise : (c.setValue d).promise = [d] := by simp [OrderCall.setValue, hempty]
  have hsame : (c.setValue d).phase = c.phase := rfl
  refine ⟨False.elim, ?_, ?_, ?_, ?_, ?_⟩
  · simp [hpromise]
  · simpa [hpromise] using hown
  · simpa [hpromise] using hsuccess
  · intro hearly
    rw [hsame] at hearly
    cases hcase : c.phase <;> rw [hcase] at hearly hphase <;>
      simp [OrderCallPhase.unregistered, OrderCallPhase.underway] at hearly hphase
  · intro order hreturned
    rw [hsame] at hreturned
    rw [hreturned] at hphase
    cases hphase

/-- A step of the call that neither returns an order nor goes back before the registration. -/
theorem enter {phase : OrderCallPhase} (h : OrderCallSound reqId pending c)
    (hopen : pending → OrderCallPhase.underway phase = true)
    (hunset : OrderCallPhase.unregistered phase = true → c.promise = [])
    (hfilled : ∀ order, phase = .returned order → order.status = .filled →
      ∃ d, c.promise = [d] ∧ d.answerTo = some reqId ∧ order.orderIdStr = d.result.orderId) :
    OrderCallSound reqId pending (c.enter phase) where
  open_ := fun hp => ⟨(h.open_ hp).1, hopen hp⟩
  once := h.once
  own := h.own
  success := h.success
  unset := hunset
  filled := hfilled

/-- A rejected order is not filled. -/
theorem reject (h : OrderCallSound reqId False c) (r : OrderRequest) :
    OrderCallSound reqId False (c.enter (.returned r.rejected)) := by
  apply h.enter False.elim
  · exact fun hearly => Bool.noConfusion hearly
  · intro order horder hstatus
    cases horder
    cases hstatus

/-- The order of a call that takes the value of its future. -/
theorem answer (h : OrderCallSound reqId False c) (r : OrderRequest) {rest : List Delivery}
    (hpromise : c.promise = d :: rest) :
    OrderCallSound reqId False (c.enter (.returned (r.answered d.result))) := by
  have hrest : rest = [] := by
    have hlength := h.once
    rw [hpromise, List.length_cons] at hlength
    exact List.length_eq_zero_iff.mp (by omega)
  subst hrest
  have hmem : d ∈ c.promise := by simp [hpromise]
  apply h.enter False.elim
  · exact fun hearly => Bool.noConfusion hearly
  · intro order horder hstatus
    cases horder
    cases hok : d.result.success with
    | false =>
      rw [OrderRequest.answered, hok, if_neg (by decide)] at hstatus
      cases hstatus
    | true =>
      obtain ⟨answered, hanswered⟩ := Option.isSome_iff_exists.mp (h.success d hmem hok)
      refine ⟨d, hpromise, ?_, ?_⟩
      · rw [hanswered, h.own d hmem answered hanswered]
      · rw [OrderRequest.answered, hok, if_pos rfl]

end OrderCallSound

/-! ## The map and the calls together -/

/-- The promise of a call is kept under its own request id. -/
def IsPending (generateUuid : ℕ → String) (s : OrderSocket) (call : ℕ) : Prop :=
  s.pendingOrders.lookup (generateUuid call) = some call

structure PendingInvariant (generateUuid : ℕ → String) (s : OrderSocket) : Prop where
  keyed : ∀ reqId call, s.pendingOrders.lookup reqId = some call → reqId = generateUuid call
  sound : ∀ call, OrderCallSound (generateUuid call) (IsPending generateUuid s call) (s.calls call)

variable {generateUuid : ℕ → String} {s : OrderSocket}

/-- Nothing is pending at the start. -/
theorem pendingInvariant_start : PendingInvariant generateUuid {} where
  keyed := by simp
  sound := fun call => (OrderCallSound.idle _).of_iff (by simp [IsPending])

/-- A step that leaves the other calls and the entries under other request ids as they were. -/
theorem PendingInvariant.update (h : PendingInvariant generateUuid s)
    (huuid : Function.Injective generateUuid) {s' : OrderSocket} {call : ℕ} {c : OrderCall}
    (hcalls : s'.calls = Function.update s.calls call c)
    (hothers : ∀ reqId, reqId ≠ generateUuid call →
      s'.pendingOrders.lookup reqId = s.pendingOrders.lookup reqId)
    (hkeyed : ∀ other, s'.pendingOrders.lookup (generateUuid call) = some other → other = call)
    (hcall : OrderCallSound (generateUuid call) (IsPending generateUuid s' call) c) :
    PendingInvariant generateUuid s' := by
  constructor
  · intro reqId other hlookup
    by_cases heq : reqId = generateUuid call
    · rw [heq] at hlookup
      rw [heq, hkeyed other hlookup]
    · rw [hothers reqId heq] at hlookup
      exact h.keyed reqId other hlookup
  · intro other
    rw [hcalls]
    by_cases heq : other = call
    · rw [heq, Function.update_self]
      exact hcall
    · rw [Function.update_of_ne heq]
      apply (h.sound other).of_iff
      rw [IsPending, IsPending, hothers _ (huuid.ne heq)]

/-- A step that changes the phase of one call alone. -/
theorem PendingInvariant.goTo (h : PendingInvariant generateUuid s)
    (huuid : Function.Injective generateUuid) {call : ℕ} {phase : OrderCallPhase}
    (hcall : OrderCallSound (generateUuid call) (IsPending generateUuid s call)
      ((s.calls call).enter phase)) :
    PendingInvariant generateUuid (s.goTo call phase) := by
  refine h.update huuid rfl (fun _ _ => rfl) ?_ hcall
  exact fun other hlookup => (huuid (h.keyed _ _ hlookup)).symm

/-- The entry of a call goes away, and the call is left with what holds without one. -/
theorem PendingInvariant.erase (h : PendingInvariant generateUuid s)
    (huuid : Function.Injective generateUuid) {call : ℕ} {c : OrderCall}
    (hcall : OrderCallSound (generateUuid call) False c) :
    PendingInvariant generateUuid
      { s with
        pendingOrders := s.pendingOrders.erase (generateUuid call)
        calls := Function.update s.calls call c } := by
  refine h.update huuid rfl ?_ ?_ ?_
  · exact fun reqId hne => AList.lookup_erase_ne hne
  · intro other hlookup
    rw [AList.lookup_erase] at hlookup
    cases hlookup
  · exact hcall.of_iff (by simp [IsPending])

/-- A result is delivered to the promise that is pending, and takes it out of the map. -/
theorem resolvePending_invariant (h : PendingInvariant generateUuid s)
    (huuid : Function.Injective generateUuid) (reqId : String) (result : PlaceOrderResult) :
    PendingInvariant generateUuid (s.resolvePending reqId result) := by
  unfold OrderSocket.resolvePending
  cases hlookup : s.pendingOrders.lookup reqId with
  | none => exact h
  | some call =>
    obtain rfl := h.keyed reqId call hlookup
    apply h.erase huuid
    apply (h.sound call).setValue hlookup
    · intro answered hanswered
      exact (Option.some.inj hanswered).symm
    · exact fun _ => rfl

/-- The loop of the disconnect callback reaches each of the promises once. -/
theorem cancelAll_apply (pending : List (Sigma fun _ : String => ℕ))
    (hdistinct : (pending.map Sigma.snd).Nodup) (calls : ℕ → OrderCall) (call : ℕ) :
    OrderSocket.cancelAll calls pending call =
      if call ∈ pending.map Sigma.snd then (calls call).setValue OrderSocket.cancelled
      else calls call := by
  induction pending generalizing calls with
  | nil => rfl
  | cons entry pending ih =>
    rw [List.map_cons, List.nodup_cons] at hdistinct
    rw [OrderSocket.cancelAll, List.foldl_cons]
    refine (ih hdistinct.2 _).trans ?_
    by_cases heq : call = entry.2
    · subst heq
      rw [if_neg hdistinct.1, Function.update_self, if_pos (by simp)]
    · rw [Function.update_of_ne heq]
      simp only [List.map_cons, List.mem_cons, heq, false_or]

/-- Entries under different request ids are of different calls. -/
theorem pendingCalls_nodup (h : PendingInvariant generateUuid s) :
    (s.pendingOrders.entries.map Sigma.snd).Nodup := by
  have hkeys : s.pendingOrders.entries.map Sigma.fst =
      (s.pendingOrders.entries.map Sigma.snd).map generateUuid := by
    rw [List.map_map]
    apply List.map_congr_left
    rintro ⟨reqId, call⟩ hentry
    exact h.keyed reqId call (AList.mem_lookup_iff.mpr hentry)
  have hnodup : (s.pendingOrders.entries.map Sigma.fst).Nodup := s.pendingOrders.nodupKeys
  rw [hkeys] at hnodup
  exact hnodup.of_map

/-- The calls in the map are those that are pending. -/
theorem mem_pendingCalls_iff (h : PendingInvariant generateUuid s) (call : ℕ) :
    call ∈ s.pendingOrders.entries.map Sigma.snd ↔ IsPending generateUuid s call := by
  constructor
  · intro hmem
    obtain ⟨⟨reqId, _⟩, hentry, rfl⟩ := List.mem_map.mp hmem
    have hlookup := AList.mem_lookup_iff.mpr hentry
    rw [IsPending, ← h.keyed _ _ hlookup]
    exact hlookup
  · intro hlookup
    exact List.mem_map.mpr ⟨_, AList.mem_lookup_iff.mp hlookup, rfl⟩

/-- The disconnect callback answers every pending promise once. -/
theorem cancelPending_invariant (h : PendingInvariant generateUuid s) :
    PendingInvariant generateUuid s.cancelPending where
  keyed := by simp [OrderSocket.cancelPending]
  sound := by
    intro call
    suffices hcall : OrderCallSound (generateUuid call) False (s.cancelPending.calls call) from
      hcall.of_iff (by simp [IsPending, OrderSocket.cancelPending])
    have hcalls := cancelAll_apply _ (pendingCalls_nodup h) s.calls call
    change OrderCallSound _ False (OrderSocket.cancelAll s.calls s.pendingOrders.entries call)
    rw [hcalls]
    by_cases hmem : call ∈ s.pendingOrders.entries.map Sigma.snd
    · rw [if_pos hmem]
      apply (h.sound call).setValue ((mem_pendingCalls_iff h call).mp hmem)
      · simp [OrderSocket.cancelled]
      · exact fun hfailed => Bool.noConfusion hfailed
    · rw [if_neg hmem]
      exact (h.sound call).forget

/-- A message keeps the invariant. -/
theorem onMessage_invariant (h : PendingInvariant generateUuid s)
    (huuid : Function.Injective generateUuid) (m : TradeMessage) :
    PendingInvariant generateUuid (s.onMessage m) := by
  unfold OrderSocket.onMessage
  split
  · split
    · exact ⟨h.keyed, h.sound⟩
    · exact h
  · split
    · exact resolvePending_invariant h huuid _ _
    · exact h
  · exact h

/-! ## The steps of a call -/

/-- A call outside of its wait has no entry before it registers and none after it returns. -/
theorem not_isPending (h : PendingInvariant generateUuid s) {call : ℕ}
    (hphase : OrderCallPhase.underway (s.calls call).phase = false) :
    ¬ IsPending generateUuid s call := by
  intro hpending
  have hunderway := ((h.sound call).open_ hpending).2
  rw [hphase] at hunderway
  cases hunderway

/-- A call that offers its promise is pending from then on. -/
theorem register_invariant (h : PendingInvariant generateUuid s)
    (huuid : Function.Injective generateUuid) {call : ℕ} {r : OrderRequest}
    (hphase : (s.calls call).phase = .registering r) :
    PendingInvariant generateUuid
      { s.goTo call (.formatting r) with
        pendingOrders := s.pendingOrders.emplace (generateUuid call) call } := by
  have hnone : s.pendingOrders.lookup (generateUuid call) = none := by
    cases hlookup : s.pendingOrders.lookup (generateUuid call) with
    | none => rfl
    | some other =>
      obtain rfl := huuid (h.keyed _ _ hlookup)
      exact absurd hlookup (not_isPending h (by rw [hphase]; rfl))
  have hfresh : generateUuid call ∉ s.pendingOrders := by
    rwa [← AList.lookup_eq_none]
  have hempty : (s.calls call).promise = [] := (h.sound call).unset (by rw [hphase]; rfl)
  rw [PendingOrders.emplace, if_neg hfresh]
  refine h.update huuid rfl ?_ ?_ ?_
  · exact fun reqId hne => AList.lookup_insert_ne hne
  · intro other hlookup
    rw [AList.lookup_insert] at hlookup
    exact (Option.some.inj hlookup).symm
  · have hsound := h.sound call
    refine ⟨fun _ => ⟨hempty, rfl⟩, hsound.once, hsound.own, hsound.success, ?_, ?_⟩
    · exact fun hearly => Bool.noConfusion hearly
    · exact fun order hreturned => OrderCallPhase.noConfusion hreturned

/-- A step before the registration. -/
theorem PendingInvariant.approach (h : PendingInvariant generateUuid s)
    (huuid : Function.Injective generateUuid) {call : ℕ} {phase : OrderCallPhase}
    (hfrom : OrderCallPhase.unregistered (s.calls call).phase = true)
    (hto : ∀ order, phase ≠ .returned order) :
    PendingInvariant generateUuid (s.goTo call phase) := by
  have hnot : ¬ IsPending generateUuid s call := by
    apply not_isPending h
    cases hphase : (s.calls call).phase <;> rw [hphase] at hfrom <;> first | rfl | cases hfrom
  apply h.goTo huuid
  apply (h.sound call).enter
  · exact fun hpending => absurd hpending hnot
  · exact fun _ => (h.sound call).unset hfrom
  · exact fun order horder => absurd horder (hto order)

/-- A step of a call whose promise is out. -/
theorem PendingInvariant.await (h : PendingInvariant generateUuid s)
    (huuid : Function.Injective generateUuid) {call : ℕ} {phase : OrderCallPhase}
    (hto : OrderCallPhase.underway phase = true) :
    PendingInvariant generateUuid (s.goTo call phase) := by
  apply h.goTo huuid
  apply (h.sound call).enter
  · exact fun _ => hto
  · intro hearly
    cases phase <;>
      first | exact absurd hearly Bool.false_ne_true | exact absurd hto Bool.false_ne_true
  · rintro order rfl
    cases hto

/-- The call gives up before it has registered. -/
theorem PendingInvariant.reject (h : PendingInvariant generateUuid s)
    (huuid : Function.Injective generateUuid) {call : ℕ} (r : OrderRequest)
    (hphase : OrderCallPhase.underway (s.calls call).phase = false) :
    PendingInvariant generateUuid (s.goTo call (.returned r.rejected)) := by
  apply h.goTo huuid
  apply ((h.sound call).forget.reject r).of_iff
  exact iff_of_false id (not_isPending h hphase)

/-- The call takes what its promise was set to. -/
theorem PendingInvariant.answer (h : PendingInvariant generateUuid s)
    (huuid : Function.Injective generateUuid) {call : ℕ} (r : OrderRequest) {d : Delivery}
    {rest : List Delivery} (hpromise : (s.calls call).promise = d :: rest) :
    PendingInvariant generateUuid (s.goTo call (.returned (r.answered d.result))) := by
  have hnot : ¬ IsPending generateUuid s call := by
    intro hpending
    rw [((h.sound call).open_ hpending).1] at hpromise
    cases hpromise
  apply h.goTo huuid
  exact ((h.sound call).forget.answer r hpromise).of_iff (iff_of_false id hnot)

/-- The thread of a call takes a step. -/
theorem placeOrderSync_invariant (h : PendingInvariant generateUuid s)
    (huuid : Function.Injective generateUuid) (call : ℕ) (e : OrderCallEvent) :
    PendingInvariant generateUuid (s.placeOrderSync generateUuid call e) := by
  have hdrop : ∀ r : OrderRequest, PendingInvariant generateUuid
      { s.goTo call (.returned r.rejected) with
        pendingOrders := s.pendingOrders.erase (generateUuid call) } :=
    fun r => h.erase huuid ((h.sound call).forget.reject r)
  unfold OrderSocket.placeOrderSync
  -- a step that does not belong to the phase of the call leaves the socket
  cases hphase : (s.calls call).phase with
  | idle =>
    cases e with
    | start r =>
      dsimp only
      split
      · exact h.approach huuid (by rw [hphase]; rfl) fun _ => OrderCallPhase.noConfusion
      · exact h.reject huuid r (by rw [hphase]; rfl)
    | proceed timestampMs => exact h
    | timeout => exact h
  | connected r =>
    cases e with
    | proceed timestampMs =>
      dsimp only
      split
      · exact h.approach huuid (by rw [hphase]; rfl) fun _ => OrderCallPhase.noConfusion
      · exact h.reject huuid r (by rw [hphase]; rfl)
    | start _ => exact h
    | timeout => exact h
  | registering r =>
    cases e with
    | proceed timestampMs => exact register_invariant h huuid hphase
    | start _ => exact h
    | timeout => exact h
  | formatting r =>
    cases e with
    | proceed timestampMs =>
      dsimp only
      split
      · exact h.await huuid rfl
      · -- the frame goes out
        have hsent : PendingInvariant generateUuid (s.goTo call (.waiting r)) := h.await huuid rfl
        exact ⟨hsent.keyed, hsent.sound⟩
    | start _ => exact h
    | timeout => exact h
  | overflowed r =>
    cases e with
    | proceed timestampMs => exact hdrop r
    | start _ => exact h
    | timeout => exact h
  | waiting r =>
    cases e with
    | proceed timestampMs =>
      dsimp only
      split
      · exact h
      · next d rest hpromise => exact h.answer huuid r hpromise
    | start _ => exact h
    | timeout =>
      dsimp only
      split
      · exact h.await huuid rfl
      · exact h
  | timedOut r =>
    cases e with
    | proceed timestampMs => exact hdrop r
    | start _ => exact h
    | timeout => exact h
  | returned order => exact h

/-- Every event keeps the invariant. -/
theorem orderSocketStep_invariant (h : PendingInvariant generateUuid s)
    (huuid : Function.Injective generateUuid) (event : OrderSocketEvent) :
    PendingInvariant generateUuid (s.step generateUuid event) := by
  cases event with
  | connected => exact ⟨h.keyed, h.sound⟩
  | flagsCleared => exact ⟨h.keyed, h.sound⟩
  | pendingCancelled => exact cancelPending_invariant h
  | message m => exact onMessage_invariant h huuid m
  | call call e => exact placeOrderSync_invariant h huuid call e

/-- The invariant holds in every state of a run. -/
theorem runOrderSocket_invariant (huuid : Function.Injective generateUuid)
    (events : List OrderSocketEvent) :
    PendingInvariant generateUuid (runOrderSocket generateUuid events) := by
  unfold runOrderSocket
  apply List.foldlRecOn
  · exact pendingInvariant_start
  · exact fun _ hs event _ => orderSocketStep_invariant hs huuid event

/-! ## The result -/

/-- Where request ids never repeat, in every reachable state a promise has been set at most once, by
a message only if it answers the request of that call; a call returns a filled order only from such
a message, and once a call has returned nothing is pending under its request id. -/
theorem promise_set_once (generateUuid : ℕ → String) (huuid : Function.Injective generateUuid)
    (events : List OrderSocketEvent) (call : ℕ) :
    let s := runOrderSocket generateUuid events
    (s.calls call).promise.length ≤ 1 ∧
      (∀ d ∈ (s.calls call).promise, ∀ reqId, d.answerTo = some reqId →
        reqId = generateUuid call) ∧
      (∀ order, (s.calls call).phase = .returned order →
        generateUuid call ∉ s.pendingOrders ∧
        (order.status = .filled →
          ∃ d, (s.calls call).promise = [d] ∧ d.answerTo = some (generateUuid call) ∧
            order.orderIdStr = d.result.orderId)) := by
  have h := runOrderSocket_invariant huuid events
  have hsound := h.sound call
  refine ⟨hsound.once, hsound.own, ?_⟩
  intro order hreturned
  refine ⟨?_, hsound.filled order hreturned⟩
  rw [← AList.lookup_eq_none]
  cases hlookup : (runOrderSocket generateUuid events).pendingOrders.lookup (generateUuid call) with
  | none => rfl
  | some other =>
    obtain rfl := huuid (h.keyed _ _ hlookup)
    exact absurd hlookup (not_isPending h (by rw [hreturned]; rfl))

/-- Request ids that differ in how they end. -/
def countedUuid (n : ℕ) : String :=
  "f47ac10b-58cc-4372-a567-0e02b2c3d479" ++ String.ofList (List.replicate n 'f')

/-- The example's identifiers are different. -/
theorem countedUuid_injective : Function.Injective countedUuid := by
  intro m n h
  have hlists := String.ofList_injective ((String.append_right_inj _).mp h)
  simpa using congrArg List.length hlists

def sellXrp : OrderRequest := { symbol := "XRPUSDT", side := .sell, qty := 25, isLeverage := true }

def acceptedFirst : TradeMessage :=
  { op := .value "order.create"
    reqId := .value (countedUuid 0)
    retCode := .value 0
    orderId := .value "1524" }

/-- Two orders go out; the first is accepted, twice, and the session then drops before the second
is answered. -/
def answeredTwice : List OrderSocketEvent :=
  [.connected, .message { op := .value "auth", success := .value true },
    .call 0 (.start sellXrp), .call 0 (.proceed 1), .call 0 (.proceed 2), .call 0 (.proceed 3),
    .call 1 (.start sellXrp), .call 1 (.proceed 4), .call 1 (.proceed 5), .call 1 (.proceed 6),
    .message acceptedFirst, .message acceptedFirst, .flagsCleared, .pendingCancelled,
    .call 0 (.proceed 7), .message acceptedFirst, .call 1 (.proceed 8)]

/-- A response that comes twice sets the promise once. -/
theorem promise_set_once_answered_twice :
    let s := runOrderSocket countedUuid answeredTwice
    (s.calls 0).phase =
        .returned { sellXrp.order with status := .filled, orderIdStr := "1524" } ∧
      (s.calls 0).promise.length ≤ 1 ∧
      (∀ d ∈ (s.calls 0).promise, ∀ reqId, d.answerTo = some reqId → reqId = countedUuid 0) ∧
      countedUuid 0 ∉ s.pendingOrders := by
  have hreturned : ((runOrderSocket countedUuid answeredTwice).calls 0).phase =
      .returned { sellXrp.order with status := .filled, orderIdStr := "1524" } := by
    decide +kernel
  obtain ⟨honce, hown, hgone⟩ :=
    promise_set_once countedUuid countedUuid_injective answeredTwice 0
  exact ⟨hreturned, honce, hown, (hgone _ hreturned).1⟩

end SpotRelay.Analysis
