import SpotRelay.Library.Run
import SpotRelay.Model.TradeSocket

/-!
# One call, one market order

A call whose socket request ends ambiguously sends a second one over REST.  In every run in
which the venue executes only what the call still waits for, and in which an executed order is
acknowledged, a call executes at most one market order and none when it returns `Rejected`.

* **the invariant** of a call says what has been executed in each of its phases, and each event
  keeps it where the answer is for this call's order (`callStep_invariant`).
* **the client functions**: what a call returns in a run is an order of its client function for some
  answer to the submission (`runCall_refines`).
-/

set_option autoImplicit false

namespace SpotRelay.Analysis

open SpotRelay.Model SpotRelay.Library.Run

variable {parse : String → ForeignAck} {sub : Submission} {s : CallState}

/-- The venue executed at most one order for the call, and none if the call was rejected. -/
def ExecutedOnce (s : CallState) : Prop :=
  s.executions ≤ 1 ∧
    ∀ order, s.phase = .returned order → order.status = .rejected → s.executions = 0

/-- The attempt is answered with success and a body that does not reject the order. -/
def Acknowledges (parse : String → ForeignAck) (a : Attempt) : Prop :=
  match a with
  | .answered statusCode body _ =>
    (statusCode = 200 ∨ statusCode = 201) ∧ parse body ≠ .rejected
  | _ => False

/-- The call is in its REST fallback. -/
def inFallback (phase : CallPhase) : Bool :=
  match phase with
  | .rest _ => true
  | _ => false

/-- A step after which what happened to the order is known: the venue executes a request only
while the call waits for it, the wait is not given up once it did, and an order that is
executed over REST is acknowledged. -/
def Unambiguous (parse : String → ForeignAck) (s : CallState) (e : CallEvent) : Prop :=
  match e with
  | .venueExecutes _ => s.inFlight = true → s.pending = true
  | .timeout => s.phase = .waiting → s.promise = none → s.executions = 0
  | .disconnect => s.pending = true → s.executions = 0
  | .restAttempt a executed =>
    inFallback s.phase = true → executed = true → a.processed = true → Acknowledges parse a
  | _ => True

section Decidability

instance (parse : String → ForeignAck) (a : Attempt) : Decidable (Acknowledges parse a) :=
  match a with
  | .answered _ _ _ => inferInstanceAs (Decidable (_ ∧ _))
  | .raised _ _ => isFalse id
  | .poolExhausted => isFalse id
  | .invalidStream => isFalse id

instance (parse : String → ForeignAck) (s : CallState) (e : CallEvent) :
    Decidable (Unambiguous parse s e) :=
  match e with
  | .venueExecutes _ => inferInstanceAs (Decidable (_ → _))
  | .timeout => inferInstanceAs (Decidable (_ → _ → _))
  | .disconnect => inferInstanceAs (Decidable (_ → _))
  | .restAttempt _ _ => inferInstanceAs (Decidable (_ → _ → _ → _))
  | .venueRefuses _ _ => isTrue trivial
  | .ackDelivered => isTrue trivial
  | .ackLost => isTrue trivial
  | .wake => isTrue trivial

end Decidability

/-! ## The invariant -/

/-- What the steps of a call keep. -/
structure CallInvariant (s : CallState) : Prop where
  once : s.executions ≤ 1
  /-- A pending request has no result yet, and the caller waits for it. -/
  pending : s.pending = true → s.phase = .waiting ∧ s.promise = none
  inFlight : s.pending = true → s.inFlight = true → s.executions = 0
  refusal : s.pending = true → ∀ r, s.ack = some r → r.success = false → s.executions = 0
  failure : s.phase = .waiting → ∀ r, s.promise = some r → r.success = false → s.executions = 0
  rest : ∀ attempt, s.phase = .rest attempt → s.executions = 0
  rejected : ∀ order, s.phase = .returned order → order.status = .rejected → s.executions = 0

/-- A call that waits no longer has no order on record. -/
theorem CallInvariant.not_pending (h : CallInvariant s) (hphase : s.phase ≠ .waiting) :
    s.pending = false := by
  cases hp : s.pending with
  | false => rfl
  | true => exact absurd (h.pending hp).1 hphase

/-- A call whose promise is set has no order on record. -/
theorem CallInvariant.not_pending_of_promise (h : CallInvariant s) {r : PlaceOrderResult}
    (hpromise : s.promise = some r) : s.pending = false := by
  cases hp : s.pending with
  | false => rfl
  | true =>
    rw [(h.pending hp).2] at hpromise
    cases hpromise

/-- Once nothing is pending, only the phase and the promise matter. -/
theorem callInvariant_of_idle (hidle : s.pending = false) (honce : s.executions ≤ 1)
    (hwaiting : s.phase = .waiting → ∀ r, s.promise = some r → r.success = false →
      s.executions = 0)
    (hrest : ∀ attempt, s.phase = .rest attempt → s.executions = 0)
    (hrejected : ∀ order, s.phase = .returned order → order.status = .rejected →
      s.executions = 0) : CallInvariant s where
  once := honce
  pending := fun h => by rw [hidle] at h; cases h
  inFlight := fun h => by rw [hidle] at h; cases h
  refusal := fun h => by rw [hidle] at h; cases h
  failure := hwaiting
  rest := hrest
  rejected := hrejected

/-- Setting the promise keeps the invariant when a failure is reported for nothing. -/
theorem CallInvariant.resolvePending (h : CallInvariant s) (result : PlaceOrderResult)
    (hresult : s.pending = true → result.success = false → s.executions = 0) :
    CallInvariant (s.resolvePending result) := by
  unfold CallState.resolvePending
  split_ifs with hpending
  · obtain ⟨hphase, -⟩ := h.pending hpending
    refine callInvariant_of_idle rfl h.once ?_ ?_ ?_
    · intro _ r hr hfail
      simp only [Option.some.injEq] at hr
      rw [← hr] at hfail
      exact hresult hpending hfail
    · intro attempt hrest
      rw [hphase] at hrest
      cases hrest
    · intro order hreturned
      rw [hphase] at hreturned
      cases hreturned
  · exact h

/-- The order of an acknowledged submission is not rejected. -/
theorem Submission.order_not_rejected {ack : ForeignAck} (h : ack ≠ .rejected) :
    (sub.order ack).status ≠ .rejected := by
  cases ack with
  | accepted orderId => simp [Submission.order, submitForeign]
  | noData => simp [Submission.order, submitForeign]
  | rejected => exact absurd rfl h

/-- An acknowledging attempt ends the call with an order that is not rejected. -/
theorem restStep_acknowledged (sub : Submission) {a : Attempt} (h : Acknowledges parse a)
    (attempt : ℕ) : ∃ order, restStep parse sub attempt a = .returned order ∧ order.status ≠ .rejected := by
  cases a with
  | answered statusCode body processed =>
    obtain ⟨hsuccess, haccepted⟩ := h
    refine ⟨_, by simp [restStep, tryRequest]; rfl, ?_⟩
    apply Submission.order_not_rejected
    simpa [restAck, hsuccess] using haccepted
  | raised fault progress => exact absurd h id
  | poolExhausted => exact absurd h id
  | invalidStream => exact absurd h id

/-! ## Steps -/

/-- The venue executes a pending request. -/
theorem venueExecutes_invariant (h : CallInvariant s) (orderId : String)
    (hcond : s.inFlight = true → s.pending = true) :
    CallInvariant (callStep parse sub s (.venueExecutes orderId)) := by
  simp only [callStep]
  split_ifs with hflight
  · have hpending := hcond hflight
    obtain ⟨hphase, hpromise⟩ := h.pending hpending
    have hnone := h.inFlight hpending hflight
    constructor
    · simp [hnone]
    · exact fun _ => ⟨hphase, hpromise⟩
    · intro _ hfalse
      cases hfalse
    · intro _ r hr hfail
      simp only [Option.some.injEq] at hr
      rw [← hr] at hfail
      cases hfail
    · intro _ r hr
      rw [hpromise] at hr
      cases hr
    · intro attempt hrest
      rw [hphase] at hrest
      cases hrest
    · intro order hreturned
      rw [hphase] at hreturned
      cases hreturned
  · exact h

/-- The venue refuses a request, which executes nothing. -/
theorem venueRefuses_invariant (h : CallInvariant s) (retCode : ℤ) (retMsg : String) :
    CallInvariant (callStep parse sub s (.venueRefuses retCode retMsg)) := by
  simp only [callStep]
  split_ifs with hflight
  · exact
      { once := h.once
        pending := h.pending
        inFlight := fun _ hfalse => by cases hfalse
        refusal := fun hpending _ _ _ => h.inFlight hpending hflight
        failure := h.failure
        rest := h.rest
        rejected := h.rejected }
  · exact h

/-- Dropping the answer under way keeps the invariant. -/
theorem CallInvariant.without_ack (h : CallInvariant s) : CallInvariant { s with ack := none } where
  once := h.once
  pending := h.pending
  inFlight := h.inFlight
  refusal := fun _ r hr => by cases hr
  failure := h.failure
  rest := h.rest
  rejected := h.rejected

/-- The answer of the trade socket keeps the call's invariant. -/
theorem ackDelivered_invariant (h : CallInvariant s) :
    CallInvariant (callStep parse sub s .ackDelivered) := by
  simp only [callStep]
  cases hack : s.ack with
  | none => exact h
  | some result =>
    refine h.without_ack.resolvePending result ?_
    intro hpending hfail
    exact h.refusal hpending result hack hfail

/-- The wait is given up for a request that was not executed. -/
theorem timeout_invariant (h : CallInvariant s)
    (hcond : s.phase = .waiting → s.promise = none → s.executions = 0) :
    CallInvariant (callStep parse sub s .timeout) := by
  simp only [callStep]
  split
  · rename_i hphase hpromise
    have hnone := hcond hphase hpromise
    refine callInvariant_of_idle rfl h.once ?_ ?_ ?_
    · intro hwaiting
      cases hwaiting
    · exact fun _ _ => hnone
    · intro order hreturned
      cases hreturned
  · exact h

/-- The caller takes the result: an order id ends the call, a failure starts the fallback. -/
theorem wake_invariant (h : CallInvariant s) : CallInvariant (callStep parse sub s .wake) := by
  simp only [callStep]
  split
  · rename_i result hphase hpromise
    have hidle := h.not_pending_of_promise hpromise
    split_ifs with hsuccess
    · refine callInvariant_of_idle hidle h.once ?_ ?_ ?_
      · intro hwaiting
        cases hwaiting
      · intro attempt hrest
        cases hrest
      · intro order hreturned hrejected
        simp only [CallPhase.returned.injEq] at hreturned
        rw [← hreturned] at hrejected
        exact absurd hrejected (Submission.order_not_rejected (by simp))
    · have hfail : result.success = false := by simpa using hsuccess
      refine callInvariant_of_idle hidle h.once ?_ ?_ ?_
      · intro hwaiting
        cases hwaiting
      · exact fun _ _ => h.failure hphase result hpromise hfail
      · intro order hreturned
        cases hreturned
  · exact h

/-- A REST attempt executes nothing, or ends the call with its order. -/
theorem restAttempt_invariant (h : CallInvariant s) (a : Attempt) (executed : Bool)
    (hcond : inFallback s.phase = true → executed = true → a.processed = true →
      Acknowledges parse a) :
    CallInvariant (callStep parse sub s (.restAttempt a executed)) := by
  simp only [callStep]
  split
  · rename_i attempt hphase
    have hwaiting : s.phase ≠ .waiting := by
      rw [hphase]
      simp
    have hnone := h.rest attempt hphase
    have hidle := h.not_pending hwaiting
    have hnext : restStep parse sub attempt a ≠ .waiting := by
      simp only [restStep]
      split_ifs <;> simp
    by_cases hexecuted : (executed && a.processed) = true
    · obtain ⟨hdone, hprocessed⟩ := Bool.and_eq_true_iff.mp hexecuted
      obtain ⟨order, hreturned, hstatus⟩ :=
        restStep_acknowledged sub (hcond (by rw [hphase]; rfl) hdone hprocessed) attempt
      simp only [hexecuted, if_true, hnone, zero_add, hreturned]
      refine callInvariant_of_idle hidle (le_refl 1) ?_ ?_ ?_
      · intro hw
        cases hw
      · intro attempt' hrest
        cases hrest
      · intro order' hreturned' hrejected
        simp only [CallPhase.returned.injEq] at hreturned'
        rw [← hreturned'] at hrejected
        exact absurd hrejected hstatus
    · simp only [hexecuted, Bool.false_eq_true, if_false, add_zero]
      refine callInvariant_of_idle hidle h.once ?_ ?_ ?_
      · exact fun hw => absurd hw hnext
      · exact fun _ _ => hnone
      · exact fun _ _ _ => hnone
  · exact h

/-- Every event of the call after which what happened to its order is known keeps the invariant. -/
theorem callStep_invariant (h : CallInvariant s) (e : CallEvent) (hcond : Unambiguous parse s e) :
    CallInvariant (callStep parse sub s e) := by
  cases e with
  | venueExecutes orderId => exact venueExecutes_invariant h orderId hcond
  | venueRefuses retCode retMsg => exact venueRefuses_invariant h retCode retMsg
  | ackDelivered => exact ackDelivered_invariant h
  | ackLost => exact h.without_ack
  | timeout => exact timeout_invariant h hcond
  | disconnect => exact h.resolvePending _ fun hpending _ => hcond hpending
  | wake => exact wake_invariant h
  | restAttempt a executed => exact restAttempt_invariant h a executed hcond

/-! ## Runs -/

/-- A call begins with nothing sent and nothing set. -/
theorem beginCall_invariant (call : MarginCall) (r : ForeignReply) (quantity : ℚ)
    (socket : SocketState) : CallInvariant (beginCall call r quantity socket) := by
  simp only [beginCall]
  split_ifs
  · constructor <;> simp
  · constructor <;> simp
  · cases socket <;> constructor <;> simp

/-- In every run of a call whose steps are unambiguous the venue executes at most one order,
and none if the call returns `Rejected`. -/
theorem runCall_executedOnce (parse : String → ForeignAck) (call : MarginCall) (r : ForeignReply)
    (quantity : ℚ) (socket : SocketState) (es : List CallEvent)
    (hrun : Along (Unambiguous parse) (callStep parse (call.submission r quantity))
      (beginCall call r quantity socket) es) :
    ExecutedOnce (runCall parse call r quantity socket es) := by
  have hinv : CallInvariant (runCall parse call r quantity socket es) := by
    refine invariant CallInvariant ?_ es _ (beginCall_invariant call r quantity socket) hrun
    exact fun s e hs hcond => callStep_invariant hs e hcond
  exact ⟨hinv.once, hinv.rejected⟩

/-- An order that the venue executes and acknowledges over the socket. -/
theorem runCall_executedOnce_socket :
    ExecutedOnce (runCall (fun _ => .noData) .okxOpenShort {} 35 .sent
      [.venueExecutes "1", .ackDelivered, .wake]) := by
  apply runCall_executedOnce
  refine ⟨?_, ?_, ?_, trivial⟩ <;> decide +kernel

/-- The acknowledgement of an executed order misses the timeout, and the fallback is executed
too. -/
def lateAckRun : List CallEvent :=
  [.venueExecutes "1", .timeout, .ackDelivered, .restAttempt (.answered 200 "2" true) true]

/-- Not every order of the steps executes a call once. -/
theorem lateAck_executed_twice :
    ¬ ∀ (parse : String → ForeignAck) (call : MarginCall) (r : ForeignReply) (quantity : ℚ)
      (socket : SocketState) (es : List CallEvent),
      ExecutedOnce (runCall parse call r quantity socket es) := by
  intro h
  have honce := (h .accepted .bybitOpenShort {} 35 .sent lateAckRun).1
  revert honce
  decide +kernel

/-! ## The call as the order manager sees it -/

/-- What a call returns is what its client function returns for some answer. -/
structure Refines (call : MarginCall) (r : ForeignReply) (quantity : ℚ) (s : CallState) : Prop where
  running : (∀ order, s.phase ≠ .returned order) →
    0 < (call.submission r quantity).adjQty ∧ r.marginReady = true
  returned : ∀ order, s.phase = .returned order →
    ∃ ack, order = (call.place { r with ack := ack } quantity).order

variable {call : MarginCall} {r : ForeignReply} {quantity : ℚ}

/-- A submitted order is the one its client function returns. -/
theorem place_order (hqty : 0 < (call.submission r quantity).adjQty)
    (hmargin : r.marginReady = true) (ack : ForeignAck) :
    (call.place { r with ack := ack } quantity).order = (call.submission r quantity).order ack := by
  have hnot := not_le.mpr hqty
  cases call with
  | bybitOpenShort =>
    simp only [MarginCall.submission] at hnot
    simp [MarginCall.place, openShort, MarginCall.submission, Submission.order, submitForeign, hnot,
      hmargin]
    cases ack <;> rfl
  | bybitCloseShort =>
    simp only [MarginCall.submission] at hnot
    simp [MarginCall.place, bybitCloseShort, MarginCall.submission, Submission.order, submitForeign,
      hnot, hmargin]
    cases ack <;> rfl
  | okxOpenShort =>
    simp only [MarginCall.submission] at hnot
    simp [MarginCall.place, openShort, MarginCall.submission, Submission.order, submitForeign, hnot,
      hmargin]
    cases ack <;> rfl

/-- A call begins where the abstract one begins. -/
theorem beginCall_refines (socket : SocketState) :
    Refines call r quantity (beginCall call r quantity socket) := by
  simp only [beginCall]
  split_ifs with hqty hmargin
  · refine ⟨fun h => absurd rfl (h _), ?_⟩
    intro order hreturned
    simp only [CallPhase.returned.injEq] at hreturned
    refine ⟨.rejected, ?_⟩
    rw [← hreturned]
    cases call with
    | bybitOpenShort =>
      simp only [MarginCall.submission] at hqty ⊢
      simp [MarginCall.place, openShort, hqty]
    | bybitCloseShort =>
      simp only [MarginCall.submission] at hqty ⊢
      simp [MarginCall.place, bybitCloseShort, hqty]
    | okxOpenShort =>
      simp only [MarginCall.submission] at hqty ⊢
      simp [MarginCall.place, openShort, hqty]
  · refine ⟨fun h => absurd rfl (h _), ?_⟩
    intro order hreturned
    simp only [CallPhase.returned.injEq] at hreturned
    refine ⟨.rejected, ?_⟩
    rw [← hreturned]
    have hmargin' : r.marginReady = false := by simpa using hmargin
    cases call with
    | bybitOpenShort =>
      simp only [MarginCall.submission] at hqty ⊢
      simp [MarginCall.place, openShort, Submission.order, submitForeign, hqty, hmargin']
    | bybitCloseShort =>
      simp only [MarginCall.submission] at hqty ⊢
      simp [MarginCall.place, bybitCloseShort, Submission.order, submitForeign, hqty, hmargin']
    | okxOpenShort =>
      simp only [MarginCall.submission] at hqty ⊢
      simp [MarginCall.place, openShort, Submission.order, submitForeign, hqty, hmargin']
  · have hstarted : 0 < (call.submission r quantity).adjQty ∧ r.marginReady = true :=
      ⟨not_le.mp hqty, by simpa using hmargin⟩
    refine ⟨fun _ => hstarted, ?_⟩
    intro order hreturned
    cases socket <;> cases hreturned

/-- A step either leaves the phase alone, or leaves a running call for another running phase or
for the order of an answered submission. -/
theorem callStep_phase (parse : String → ForeignAck) (sub : Submission) (s : CallState)
    (e : CallEvent) :
    (callStep parse sub s e).phase = s.phase ∨ (∀ order, s.phase ≠ .returned order) ∧
      ((∀ order, (callStep parse sub s e).phase ≠ .returned order) ∨
        ∃ ack, (callStep parse sub s e).phase = .returned (sub.order ack)) := by
  have hresolve : ∀ (t : CallState) result, (t.resolvePending result).phase = t.phase := by
    intro t result
    unfold CallState.resolvePending
    split_ifs <;> rfl
  cases e with
  | venueExecutes orderId =>
    simp only [callStep]
    split_ifs <;> exact Or.inl rfl
  | venueRefuses retCode retMsg =>
    simp only [callStep]
    split_ifs <;> exact Or.inl rfl
  | ackDelivered =>
    simp only [callStep]
    cases s.ack with
    | none => exact Or.inl rfl
    | some result => exact Or.inl (hresolve _ _)
  | ackLost => exact Or.inl rfl
  | disconnect => exact Or.inl (hresolve _ _)
  | timeout =>
    simp only [callStep]
    split
    · rename_i hphase _
      exact Or.inr ⟨by simp [hphase], Or.inl (by simp)⟩
    · exact Or.inl rfl
  | wake =>
    simp only [callStep]
    split
    · rename_i result hphase _
      refine Or.inr ⟨by simp [hphase], ?_⟩
      split_ifs
      · exact Or.inr ⟨_, rfl⟩
      · exact Or.inl (by simp)
    · exact Or.inl rfl
  | restAttempt a executed =>
    simp only [callStep]
    split
    · rename_i attempt hphase
      refine Or.inr ⟨by simp [hphase], ?_⟩
      simp only [restStep]
      split_ifs
      · exact Or.inr ⟨_, rfl⟩
      · exact Or.inl (by simp)
    · exact Or.inl rfl

/-- Whatever the interleaving, a call returns an order that its client function returns for
some answer to the submission. -/
theorem runCall_refines (parse : String → ForeignAck) (call : MarginCall) (r : ForeignReply)
    (quantity : ℚ) (socket : SocketState) (es : List CallEvent) :
    Refines call r quantity (runCall parse call r quantity socket es) := by
  refine List.foldlRecOn (motive := Refines call r quantity) es _ (beginCall_refines socket) ?_
  intro s hs e _
  rcases callStep_phase parse (call.submission r quantity) s e with hkept | ⟨hrunning, hnext⟩
  · refine ⟨?_, ?_⟩
    · rw [hkept]
      exact hs.running
    · rw [hkept]
      exact hs.returned
  · have hstarted := hs.running hrunning
    refine ⟨fun _ => hstarted, ?_⟩
    intro order hreturned
    rcases hnext with hnever | ⟨ack, hack⟩
    · exact absurd hreturned (hnever order)
    · rw [hack] at hreturned
      cases hreturned
      exact ⟨ack, (place_order hstarted.1 hstarted.2 ack).symm⟩

end SpotRelay.Analysis
