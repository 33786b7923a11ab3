import SpotRelay.Library.Run
import SpotRelay.Interface.OrderLife

/-!
# Whether a fill query returns the final fill

The cache holds what the last message about the order said, and a query that finds anything takes
it.  So it returns the final fill exactly if the last message that came in before was sent after
the last execution; a REST answer is taken as soon as it shows any volume.

* **the cache** says what the last message about the order said (`orderStep_cacheOfLast`).
* **a query** returns the final fill exactly if that message was the last one, or if its REST answer
  is the final one (`restAnswer_returned_iff`, `orderStep_returned_iff`).
-/

set_option autoImplicit false

namespace SpotRelay.Analysis

open SpotRelay.Model SpotRelay.Library SpotRelay.Interface

variable {life : OrderLife} {s : QueriedOrder}

/-! ## The totals of an order -/

/-- The sum up to the next element adds that element. -/
theorem sum_take_succ (xs : List ℚ) (k : ℕ) (h : k < xs.length) :
    (xs.take (k + 1)).sum = (xs.take k).sum + xs[k] := by
  rw [List.take_succ_eq_append_getElem h, List.sum_append, List.sum_singleton]

/-- Every execution adds volume. -/
theorem volume_lt_succ {k : ℕ} (h : k < life.executions.length) :
    life.volume k < life.volume (k + 1) := by
  have hk : k < (life.executions.map Prod.fst).length := by simpa using h
  have hpos : 0 < (life.executions.map Prod.fst)[k] := by
    rw [List.getElem_map]
    exact (life.executions_pos _ (List.getElem_mem h)).1
  unfold OrderLife.volume
  rw [List.map_take, List.map_take, sum_take_succ _ k hk]
  linarith

/-- Before the last execution the volume is not the final one. -/
theorem volume_lt_final {k : ℕ} (h : k < life.executions.length) :
    life.volume k < life.finalVolume := by
  have hgrow : ∀ n, k + 1 ≤ n → n ≤ life.executions.length → life.volume k < life.volume n := by
    intro n hkn
    induction n, hkn using Nat.le_induction with
    | base => exact fun _ => volume_lt_succ h
    | succ n _ ih => exact fun hn => (ih (by omega)).trans (volume_lt_succ (by omega))
  exact hgrow _ h le_rfl

/-- Once every execution is counted, the volume is the final one. -/
theorem volume_of_le {k : ℕ} (h : life.executions.length ≤ k) :
    life.volume k = life.finalVolume := by
  simp [OrderLife.finalVolume, OrderLife.volume, List.take_of_length_le h]

/-- Once every execution is counted, the funds are the final ones. -/
theorem funds_of_le {k : ℕ} (h : life.executions.length ≤ k) : life.funds k = life.finalFunds := by
  simp [OrderLife.finalFunds, OrderLife.funds, List.take_of_length_le h]

/-- The fill that message `i` reports. -/
def reportedFill (life : OrderLife) (i : ℕ) : FillInfo where
  filledQty := life.volume (i + 1)
  avgPrice := life.funds (i + 1) / life.volume (i + 1)

/-- It is the final one exactly if the message follows the last execution. -/
theorem isFinal_reported_iff (i : ℕ) (order : Order) :
    life.IsFinal { order with
      averagePrice := (reportedFill life i).avgPrice
      filledQuantity := (reportedFill life i).filledQty } ↔ life.executions.length ≤ i + 1 := by
  constructor
  · rintro ⟨hvolume, -⟩
    by_contra hlate
    exact (volume_lt_final (not_le.mp hlate)).ne hvolume
  · intro hlate
    refine ⟨volume_of_le hlate, ?_⟩
    simp only [reportedFill, volume_of_le hlate, funds_of_le hlate]

/-- Once the order has executed, every message reports an amount. -/
theorem totals_pos (h : life.executions ≠ []) (i : ℕ) :
    0 < life.volume (i + 1) ∧ 0 < life.funds (i + 1) := by
  have hne : life.executions.take (i + 1) ≠ [] := by simpa using h
  constructor
  · refine List.sum_pos _ ?_ (by simpa using h)
    intro x hx
    obtain ⟨e, he, rfl⟩ := List.mem_map.mp hx
    exact (life.executions_pos e (List.mem_of_mem_take he)).1
  · refine List.sum_pos _ ?_ (by simpa using h)
    intro x hx
    obtain ⟨e, he, rfl⟩ := List.mem_map.mp hx
    exact (life.executions_pos e (List.mem_of_mem_take he)).2

/-! ## The cache -/

/-- A field with a known key is stored under its name. -/
theorem collect_of_field {key : List Char} {name : MyOrderField} (fields : MyOrderFields)
    (value : MessageValue) (h : myOrderField key = some name) :
    fields.collect (key, value) = fields.set name value := by
  rw [MyOrderFields.collect, h]

/-- The handler reads from a message what the exchange wrote. -/
theorem fields_message (i : ℕ) : (life.message i).fields =
    { type := "myOrder".toList
      orderId := life.orderId
      state := life.messageState i
      executedVolume := life.volume (i + 1)
      executedFunds := life.funds (i + 1) } := by
  have htype : myOrderField "type".toList = some .type := by decide
  have huid : myOrderField "uid".toList = some .orderId := by decide
  have hstate : myOrderField "s".toList = some .state := by decide
  have hvolume : myOrderField "ev".toList = some .executedVolume := by decide
  have hfunds : myOrderField "ef".toList = some .executedFunds := by decide
  unfold PrivateMessage.fields OrderLife.message
  dsimp only
  rw [List.foldl_cons, collect_of_field _ _ htype, List.foldl_cons, collect_of_field _ _ huid,
    List.foldl_cons, collect_of_field _ _ hstate, List.foldl_cons, collect_of_field _ _ hvolume,
    List.foldl_cons, collect_of_field _ _ hfunds]
  rfl

/-- A message of the order reports a fill where the order has been executed at all. -/
theorem isFill_message (i : ℕ) :
    (life.message i).fields.isFill = decide (life.executions ≠ []) := by
  have hstate : life.messageState i ≠ [] ∧ (life.messageState i = "trade".toList ∨
      life.messageState i = "done".toList ∨ life.messageState i = "cancel".toList) := by
    unfold OrderLife.messageState
    split_ifs <;> decide
  rw [fields_message, MyOrderFields.isFill, decide_eq_decide]
  constructor
  · rintro ⟨-, -, -, hpos, -⟩ hempty
    simp [OrderLife.volume, hempty] at hpos
  · intro hne
    obtain ⟨hvolume, hfunds⟩ := totals_pos hne i
    exact ⟨rfl, life.orderId_ne, hstate.1, not_or.mpr ⟨not_le.mpr hvolume, not_le.mpr hfunds⟩,
      hstate.2⟩

/-- A message of the order is stored if the order has executed at all. -/
theorem fillCache_message (client : FillClient) (i : ℕ) :
    (client.onPrivateWsMessage (life.message i)).fillCache life.orderId =
      if life.executions = [] then client.fillCache life.orderId
      else some (reportedFill life i) := by
  have hmarker : (findAfter "myOrder".toList OrderLife.messageText).isSome = true := by
    decide +kernel
  obtain ⟨rest, hrest⟩ := Option.isSome_iff_exists.mp hmarker
  have hcomplete : (life.message i).object.complete = true := rfl
  have htext : (life.message i).text = OrderLife.messageText := rfl
  unfold FillClient.onPrivateWsMessage
  rw [htext, hrest, isFill_message, hcomplete]
  by_cases hempty : life.executions = []
  · simp [hempty]
  · simp [hempty, fields_message, reportedFill]

/-- What the cache holds for the order is what its last message reported. -/
def CacheOfLast (life : OrderLife) (s : QueriedOrder) : Prop :=
  ∀ fill, s.client.fillCache life.orderId = some fill →
    life.executions ≠ [] ∧ ∃ i, s.handled = some i ∧ fill = reportedFill life i

/-- The message that the cache holds, if any, follows the last execution. -/
def CachedFinal (life : OrderLife) (s : QueriedOrder) : Prop :=
  ∀ i, s.handled = some i → (s.client.fillCache life.orderId).isSome = true →
    life.executions.length ≤ i + 1

/-- A read of the cache finds a message that follows the last execution, and a REST answer that
shows a volume lists the trades of the final state. -/
def ReadsFinal (life : OrderLife) (s : QueriedOrder) : OrderEvent → Prop
  | .client .query => s.client.query = .idle → CachedFinal life s
  | .client .wake => s.client.query = .waiting → CachedFinal life s
  | .client .timeout => s.client.query = .waiting → CachedFinal life s
  | .client (.restAnswer (some body)) =>
    (∃ attempt, s.client.query = .polling attempt) → 0 < body.executedVolume →
      0 < life.finalVolume ∧ tradeTotals body.trades = (life.finalVolume, life.finalFunds)
  | _ => True

/-- Every query that found the order returned its final state. -/
def ReturnedFinal (life : OrderLife) (client : FillClient) : Prop :=
  ∀ r ∈ client.returned, r.found = true → life.IsFinal r.order

/-! ## One step -/

/-- Only what was returned counts. -/
theorem ReturnedFinal.of_returned {client client' : FillClient} (h : ReturnedFinal life client)
    (hsame : client'.returned = client.returned) : ReturnedFinal life client' := by
  rw [ReturnedFinal, hsame]
  exact h

/-- An answer keeps the returned orders final where it is itself final. -/
theorem returnedFinal_finish {client : FillClient} {order : Order}
    (h : ReturnedFinal life client) :
    ReturnedFinal life (client.finish true order) ↔ life.IsFinal order := by
  unfold ReturnedFinal FillClient.finish
  simp only [List.mem_append, List.mem_singleton, or_imp, forall_and, forall_eq,
    forall_true_left]
  exact ⟨fun hall => hall.2, fun hnew => ⟨h, hnew⟩⟩

/-- A fill is taken from the cache. -/
theorem returnedFinal_applyFill {fill : FillInfo} (hcache : CacheOfLast life s)
    (h : ReturnedFinal life s.client) (hfill : s.client.fillCache life.orderId = some fill) :
    ReturnedFinal life (s.client.applyFill life.orderId fill) ↔ CachedFinal life s := by
  obtain ⟨-, i, hi, rfl⟩ := hcache fill hfill
  unfold FillClient.applyFill
  rw [returnedFinal_finish (by exact h), isFinal_reported_iff]
  constructor
  · intro hlate j hj _
    rw [hi, Option.some.injEq] at hj
    subst hj
    exact hlate
  · intro hfinal
    exact hfinal i hi (by rw [hfill]; rfl)

/-- Trades that report a volume report funds. -/
theorem tradeTotals_pos (trades : List (ℚ × ℚ)) :
    tradeTotals trades = (0, 0) ∨ 0 < (tradeTotals trades).1 ∧ 0 < (tradeTotals trades).2 := by
  induction trades with
  | nil => exact Or.inl rfl
  | cons trade rest ih =>
    obtain ⟨volume, funds⟩ := trade
    simp only [tradeTotals]
    split_ifs with hpos
    · refine Or.inr ?_
      rcases ih with hnone | ⟨hvolume, hfunds⟩
      · simpa [hnone] using hpos
      · exact ⟨add_pos hpos.1 hvolume, add_pos hpos.2 hfunds⟩
    · exact ih

/-- An order with a final volume has final funds. -/
theorem final_pos (h : 0 < life.finalVolume) : 0 < life.finalFunds := by
  have hne : life.executions ≠ [] := by
    intro hempty
    simp [OrderLife.finalVolume, OrderLife.volume, hempty] at h
  rw [← funds_of_le (k := life.executions.length + 1) (by omega)]
  exact (totals_pos hne _).2

/-- What a REST answer leaves is final exactly if it lists the trades of the final state. -/
theorem isFinal_restAnswer_iff {body : OrderBody} {order updated : Order}
    (h : queryOrderDetailV1 (some body) order = some updated) :
    life.IsFinal updated ↔
      0 < life.finalVolume ∧ tradeTotals body.trades = (life.finalVolume, life.finalFunds) := by
  unfold queryOrderDetailV1 at h
  dsimp only at h
  by_cases hnone : body.executedVolume ≤ 0
  · rw [if_pos hnone] at h
    cases h
  rw [if_neg hnone, Option.some.injEq] at h
  subst h
  unfold OrderLife.IsFinal
  dsimp only
  rcases tradeTotals_pos body.trades with hzero | ⟨hvolume, hfunds⟩
  · rw [hzero]
    simp only [lt_irrefl, if_false, false_and]
    constructor
    · rintro ⟨hexecuted, hprice⟩
      rw [← hexecuted] at hprice
      have hpos : 0 < life.finalVolume := hexecuted ▸ not_le.mp hnone
      have hdiv := div_pos (final_pos hpos) (hexecuted.symm ▸ hpos : 0 < body.executedVolume)
      exact absurd hprice hdiv.ne
    · rintro ⟨hpos, heq⟩
      exact absurd (Prod.ext_iff.mp heq).1 hpos.ne
  · rw [if_pos hvolume, if_pos ⟨hvolume, hfunds⟩]
    constructor
    · rintro ⟨hsame, hprice⟩
      have hpos : 0 < life.finalVolume := hsame ▸ hvolume
      rw [hsame, div_left_inj' hpos.ne'] at hprice
      exact ⟨hpos, Prod.ext hsame hprice⟩
    · rintro ⟨-, heq⟩
      rw [heq]
      exact ⟨rfl, rfl⟩

/-! ## Every event -/

/-- The cache of the order is only touched by its messages and by the query. -/
theorem fillStep_cache (client : FillClient) {event : FillEvent}
    (hother : event.isMessageOf life.orderId = false) :
    (fillStep life.orderId client event).fillCache life.orderId = none ∨
      (fillStep life.orderId client event).fillCache life.orderId =
        client.fillCache life.orderId := by
  have happly : ∀ fill, (client.applyFill life.orderId fill).fillCache life.orderId = none := by
    intro fill
    simp [FillClient.applyFill, FillClient.finish]
  cases event with
  | message m =>
    refine Or.inr ?_
    have hne : life.orderId ≠ m.fields.orderId := by
      simpa [FillEvent.isMessageOf, eq_comm] using hother
    simp only [fillStep, FillClient.onPrivateWsMessage]
    split
    · rfl
    · split
      · exact Function.update_of_ne hne _ _
      · rfl
  | privateConnected => exact Or.inr rfl
  | privateDisconnected => exact Or.inr rfl
  | disconnect => exact Or.inl rfl
  | query =>
    simp only [fillStep, FillClient.queryOrderDetail]
    split
    · split
      · exact Or.inl (happly _)
      · exact Or.inr rfl
    · exact Or.inr rfl
  | wake =>
    simp only [fillStep, FillClient.wake]
    split
    · split
      · exact Or.inl (happly _)
      · exact Or.inr rfl
    · exact Or.inr rfl
  | timeout =>
    simp only [fillStep, FillClient.timeout]
    split
    · split
      · exact Or.inl (happly _)
      · exact Or.inr rfl
    · exact Or.inr rfl
  | restAnswer body =>
    refine Or.inr ?_
    simp only [fillStep, FillClient.restAnswer]
    split
    · -- the answer, or the next attempt, or the end of the attempts
      split
      · rfl
      · split <;> rfl
    · rfl

/-- A message of the private stream returns nothing. -/
theorem returned_onPrivateWsMessage (client : FillClient) (m : PrivateMessage) :
    (client.onPrivateWsMessage m).returned = client.returned := by
  unfold FillClient.onPrivateWsMessage
  split
  · rfl
  · split <;> rfl

/-- The cache holds what the last message said, after every event. -/
theorem orderStep_cacheOfLast (event : OrderEvent) (h : CacheOfLast life s) :
    CacheOfLast life (orderStep life s event) := by
  cases event with
  | deliver =>
    simp only [orderStep]
    split
    · intro fill hfill
      dsimp only [fillStep] at hfill ⊢
      rw [fillCache_message] at hfill
      split_ifs at hfill with hempty
      · exact absurd hempty (h fill hfill).1
      · exact ⟨hempty, s.next, rfl, (Option.some.inj hfill).symm⟩
    · exact h
  | lose =>
    simp only [orderStep]
    split
    · exact h
    · exact h
  | client event =>
    simp only [orderStep]
    split
    · exact h
    · rename_i hother
      intro fill hfill
      rcases fillStep_cache s.client (Bool.eq_false_iff.mpr hother) with hnone | hsame
      · rw [hnone] at hfill
        cases hfill
      · rw [hsame] at hfill
        exact h fill hfill

/-- A REST answer keeps the returned orders final exactly if what it shows is the final fill. -/
theorem restAnswer_returned_iff (body : Option OrderBody) (h : ReturnedFinal life s.client) :
    ReturnedFinal life (orderStep life s (.client (.restAnswer body))).client ↔
      ReadsFinal life s (.client (.restAnswer body)) := by
  simp only [orderStep, FillEvent.isMessageOf, Bool.false_eq_true, if_false, fillStep]
  cases hphase : s.client.query with
  | idle => cases body <;> exact iff_of_true h (by simp [ReadsFinal, hphase])
  | waiting => cases body <;> exact iff_of_true h (by simp [ReadsFinal, hphase])
  | polling attempt =>
    dsimp only
    unfold FillClient.restAnswer
    cases hanswer : queryOrderDetailV1 body s.client.order with
    | none =>
      refine iff_of_true ?_ ?_
      · dsimp only
        split
        · exact h
        · intro r hr hfound
          rcases List.mem_append.mp hr with hr | hr
          · exact h r hr hfound
          · rw [List.mem_singleton.mp hr] at hfound
            cases hfound
      · cases body with
        | none => trivial
        | some body =>
          intro _ hvolume
          unfold queryOrderDetailV1 at hanswer
          dsimp only at hanswer
          rw [if_neg (not_le.mpr hvolume)] at hanswer
          cases hanswer
    | some updated =>
      cases body with
      | none => cases hanswer
      | some body =>
        have hvolume : 0 < body.executedVolume := by
          by_contra hnone
          unfold queryOrderDetailV1 at hanswer
          dsimp only at hanswer
          rw [if_pos (not_lt.mp hnone)] at hanswer
          cases hanswer
        dsimp only
        rw [returnedFinal_finish h, isFinal_restAnswer_iff hanswer]
        simp only [ReadsFinal, hphase]
        exact ⟨fun hall _ _ => hall, fun hall => hall ⟨attempt, rfl⟩ hvolume⟩

/-- One event keeps the returned orders final exactly if what it reads is the final fill. -/
theorem orderStep_returned_iff (event : OrderEvent) (hcache : CacheOfLast life s)
    (h : ReturnedFinal life s.client) :
    ReturnedFinal life (orderStep life s event).client ↔ ReadsFinal life s event := by
  have hempty : s.client.fillCache life.orderId = none → CachedFinal life s := by
    intro hnone i _ hsome
    rw [hnone] at hsome
    cases hsome
  cases event with
  | deliver =>
    refine iff_of_true ?_ trivial
    simp only [orderStep]
    split
    · exact h.of_returned (returned_onPrivateWsMessage _ _)
    · exact h
  | lose =>
    refine iff_of_true ?_ trivial
    simp only [orderStep]
    split
    · exact h
    · exact h
  | client event =>
    cases event with
    | message m =>
      refine iff_of_true ?_ trivial
      simp only [orderStep]
      split
      · exact h
      · exact h.of_returned (returned_onPrivateWsMessage _ _)
    | privateConnected => exact iff_of_true h trivial
    | privateDisconnected => exact iff_of_true h trivial
    | disconnect => exact iff_of_true h trivial
    | query =>
      simp only [orderStep, FillEvent.isMessageOf, Bool.false_eq_true, if_false, fillStep, ReadsFinal]
      split_ifs with hidle
      · rw [imp_iff_right hidle]
        unfold FillClient.queryOrderDetail
        cases hfill : s.client.fillCache life.orderId with
        | none => exact iff_of_true h (hempty hfill)
        | some fill => exact returnedFinal_applyFill hcache h hfill
      · exact iff_of_true h fun hphase => absurd hphase hidle
    | wake =>
      simp only [orderStep, FillEvent.isMessageOf, Bool.false_eq_true, if_false, fillStep, ReadsFinal]
      split_ifs with hwaiting
      · rw [imp_iff_right hwaiting]
        unfold FillClient.wake
        cases hfill : s.client.fillCache life.orderId with
        | none => exact iff_of_true h (hempty hfill)
        | some fill => exact returnedFinal_applyFill hcache h hfill
      · exact iff_of_true h fun hphase => absurd hphase hwaiting
    | timeout =>
      simp only [orderStep, FillEvent.isMessageOf, Bool.false_eq_true, if_false, fillStep, ReadsFinal]
      split_ifs with hwaiting
      · rw [imp_iff_right hwaiting]
        unfold FillClient.timeout
        cases hfill : s.client.fillCache life.orderId with
        | none => exact iff_of_true h (hempty hfill)
        | some fill => exact returnedFinal_applyFill hcache h hfill
      · exact iff_of_true h fun hphase => absurd hphase hwaiting
    | restAnswer body => exact restAnswer_returned_iff body h

/-- Every query that returns the order up to any moment of a run returns its final state exactly
if each read of the cache finds a message sent after the last execution, and each REST answer
that is accepted lists all trades. -/
theorem returnedFinal_throughout_iff (life : OrderLife) (events : List OrderEvent) :
    (∀ done, done <+: events → ReturnedFinal life (runOrder life done).client) ↔
      Run.Along (ReadsFinal life) (orderStep life) {} events := by
  have hstart : CacheOfLast life {} := fun fill hfill => by cases hfill
  have hstep : ∀ s event, CacheOfLast life s ∧ ReturnedFinal life s.client →
      (CacheOfLast life (orderStep life s event) ∧
        ReturnedFinal life (orderStep life s event).client ↔ ReadsFinal life s event) := by
    rintro s event ⟨hcache, hreturned⟩
    rw [and_iff_right (orderStep_cacheOfLast event hcache)]
    exact orderStep_returned_iff event hcache hreturned
  rw [← Run.throughout_iff (fun s => CacheOfLast life s ∧ ReturnedFinal life s.client) hstep
    events {} ⟨hstart, fun r hr => by cases hr⟩]
  constructor
  · intro h done hdone
    refine ⟨?_, h done hdone⟩
    exact List.foldlRecOn done (orderStep life) hstart
      fun s hs event _ => orderStep_cacheOfLast event hs
  · exact fun h done hdone => (h done hdone).2

/-! ## A query between two parts -/

/-- Two coins, bought one at a time. -/
def twoParts : OrderLife where
  orderId := "C0101".toList
  executions := [(1, 100), (1, 102)]
  cancelled := false
  orderId_ne := by decide
  executions_pos := by simp

/-- The query that comes after the first message returns half of the order at its own price. -/
theorem partialFill_returned :
    ¬ ∀ (life : OrderLife) (events : List OrderEvent),
      ReturnedFinal life (runOrder life events).client := by
  intro h
  have hreturned : (runOrder twoParts [.deliver, .client .query]).client.returned =
      [⟨true, { filledQuantity := 1, averagePrice := 100 }⟩] := by decide +kernel
  have hfinal := h twoParts [.deliver, .client .query] ⟨true, _⟩
    (by rw [hreturned]; exact List.mem_singleton_self _) rfl
  have hvolume : twoParts.finalVolume = 2 := by decide +kernel
  have hfilled := hfinal.1
  rw [hvolume] at hfilled
  norm_num at hfilled

end SpotRelay.Analysis
