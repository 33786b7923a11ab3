import SpotRelay.Interface.TruthfulVenue

/-!
# What the clients return

Each client function either refuses before it submits, or submits once and returns an order
that the reply shapes.  From that follow the facts the order manager's accounting rests on:
the side every executed trade is on, and, when the venue is truthful, that a fill query
replaces the assumed fill by the executed one.

* **one submission**: each function trades at most once, and on its own side (`SubmitsForeign`,
  `SubmitsKorean.trades_onSide`).
* **a sound fill**: with a truthful venue, the order that a fill query has seen says what was
  executed (`koreanFill_sound`, `flattenExtraKoreanLong_sound`).
-/

set_option autoImplicit false

namespace SpotRelay.Analysis

open SpotRelay.Model SpotRelay.Interface

/-! ## Executed quantities -/

/-- A fill with one trade has executed the quantity of that trade. -/
theorem executed_of_single {f : Fill} {t : Trade} (h : f.trades = [t]) :
    executed f = t.quantity := by
  simp [executed, h]

/-- An order that counts as done exactly when coins were executed, and whose fill query then
tells what was executed, is known for what it is. -/
theorem sound_of_decisive {leg : Leg} {side : Side} {f : Fill} (hside : OnSide leg side f.trades)
    (hnonneg : 0 ≤ executed f) (hdec : Decisive f)
    (hresolved : f.done = true → 0 < executed f → ∃ t, f.trades = [t] ∧
      t.quantity = resolvedFillQuantity f.order ∧ t.price = f.order.averagePrice ∧ 0 < t.price) :
    Sound f := by
  refine ⟨fun hd => hresolved hd (hdec.mp hd), ?_⟩
  intro hd t ht
  have hle : executed f ≤ 0 := by
    by_contra hpos
    have hdone := hdec.mpr (not_le.mp hpos)
    rw [hd] at hdone
    cases hdone
  rcases hside with hnil | ⟨quantity, price, hone⟩
  · rw [hnil] at ht
    cases ht
  · rw [hone, List.mem_singleton] at ht
    rw [ht, ← executed_of_single hone]
    exact le_antisymm hle hnonneg

/-! ## Foreign orders -/

/-- A foreign order was refused before submission, or submitted once. -/
def SubmitsForeign (side : Side) (r : ForeignReply) (p : Placed) : Prop :=
  (p.order.status = .rejected ∧ p.trades = []) ∨
    ∃ ex adjQty, 0 < adjQty ∧ p = submitForeign ex side adjQty r

/-- `open_short` submits one sell or refuses. -/
theorem openShort_submits (ex : Exchange) (r : ForeignReply) (quantity : ℚ) :
    SubmitsForeign .sell r (openShort ex r quantity) := by
  unfold openShort
  by_cases hqty : normalizeOrderQty r.lot r.ticker quantity true ≤ 0
  · rw [if_pos hqty]
    exact Or.inl ⟨rfl, rfl⟩
  · rw [if_neg hqty]
    cases r.marginReady
    · exact Or.inl ⟨rfl, rfl⟩
    · exact Or.inr ⟨_, _, not_le.mp hqty, rfl⟩

/-- The quantity that a client normalises a cover to (bybit.cpp:521, okx.cpp:600). -/
def coverQuantity (ex : Exchange) (r : ForeignReply) (quantity : ℚ) : ℚ :=
  match getForeignExchange ex with
  | .okx => normalizeOrderQty r.lot r.ticker quantity false
  | _ => normalizeCloseQty r.lot quantity

/-- A cover was refused before submission, or submitted once, of the normalised quantity. -/
def CoverSubmitted (ex : Exchange) (r : ForeignReply) (adjQty : ℚ) (p : Placed) : Prop :=
  (p.order.status = .rejected ∧ p.trades = []) ∨
    (0 < adjQty ∧ p = submitForeign ex .buy adjQty r)

/-- Bybit submits the cover at the size rounded up, or refuses. -/
theorem bybitCloseShort_submitted (r : ForeignReply) (quantity : ℚ) :
    CoverSubmitted .bybit r (normalizeCloseQty r.lot quantity) (bybitCloseShort r quantity) := by
  unfold bybitCloseShort
  by_cases hqty : normalizeCloseQty r.lot quantity ≤ 0
  · rw [if_pos hqty]
    exact Or.inl ⟨rfl, rfl⟩
  · rw [if_neg hqty]
    cases r.marginReady
    · exact Or.inl ⟨rfl, rfl⟩
    · exact Or.inr ⟨not_le.mp hqty, rfl⟩

/-- OKX submits the cover at the size rounded down, or refuses. -/
theorem okxCloseShort_submitted (r : ForeignReply) (quantity : ℚ) :
    CoverSubmitted .okx r (normalizeOrderQty r.lot r.ticker quantity false)
      (okxCloseShort r quantity) := by
  unfold okxCloseShort
  simp only
  by_cases hqty : normalizeOrderQty r.lot r.ticker quantity false ≤ 0
  · rw [if_pos hqty]
    exact Or.inl ⟨rfl, rfl⟩
  · rw [if_neg hqty]
    split_ifs
    -- margin mode, price hint and notional each refuse before the submission
    all_goals first
      | exact Or.inl ⟨rfl, rfl⟩
      | exact Or.inr ⟨not_le.mp hqty, rfl⟩

/-- The cover of either client is submitted at its size, or refused. -/
theorem executeForeignCover_submitted (ex : Exchange) (r : ForeignReply) (quantity : ℚ) :
    CoverSubmitted (getForeignExchange ex) r (coverQuantity ex r quantity)
      (executeForeignCover ex r quantity) := by
  cases ex with
  | okx => exact okxCloseShort_submitted r quantity
  | _ => exact bybitCloseShort_submitted r quantity

/-- A short is one sell or a refusal. -/
theorem executeForeignShort_submits (ex : Exchange) (r : ForeignReply) (quantity : ℚ) :
    SubmitsForeign .sell r (executeForeignShort ex r quantity) :=
  openShort_submits _ r quantity

/-- A cover is one buy or a refusal. -/
theorem executeForeignCover_submits (ex : Exchange) (r : ForeignReply) (quantity : ℚ) :
    SubmitsForeign .buy r (executeForeignCover ex r quantity) :=
  (executeForeignCover_submitted ex r quantity).imp_right fun h => ⟨_, _, h⟩

/-- A submission executes one trade, of what the venue says. -/
@[simp] theorem submitForeign_trades (ex : Exchange) (side : Side) (adjQty : ℚ)
    (r : ForeignReply) :
    (submitForeign ex side adjQty r).trades = [⟨.foreign, side, r.executed, r.price⟩] := by
  unfold submitForeign
  cases r.ack <;> rfl

/-- Only an acknowledgement with an order id leaves a foreign order `Filled`. -/
theorem submitForeign_filled {ex : Exchange} {side : Side} {adjQty : ℚ} {r : ForeignReply}
    (h : (submitForeign ex side adjQty r).order.status = .filled) :
    ∃ orderId, r.ack = .accepted orderId ∧
      (submitForeign ex side adjQty r).order.orderIdStr = orderId := by
  unfold submitForeign at h ⊢
  cases hack : r.ack with
  | accepted orderId => exact ⟨orderId, rfl, by simp⟩
  | noData => simp [hack] at h
  | rejected => simp [hack] at h

/-- The order has the size that was submitted. -/
@[simp] theorem submitForeign_quantity (ex : Exchange) (side : Side) (adjQty : ℚ)
    (r : ForeignReply) : (submitForeign ex side adjQty r).order.quantity = adjQty := by
  unfold submitForeign
  cases r.ack <;> rfl

/-- The submission itself reports no fill. -/
@[simp] theorem submitForeign_filledQuantity (ex : Exchange) (side : Side) (adjQty : ℚ)
    (r : ForeignReply) : (submitForeign ex side adjQty r).order.filledQuantity = 0 := by
  unfold submitForeign
  cases r.ack <;> rfl

/-- An acknowledged cover carries its normalised quantity, which is positive, and no fill. -/
theorem executeForeignCover_filled {ex : Exchange} {r : ForeignReply} {quantity : ℚ}
    (h : (executeForeignCover ex r quantity).order.status = .filled) :
    (executeForeignCover ex r quantity).order.quantity = coverQuantity ex r quantity ∧
      0 < coverQuantity ex r quantity ∧
      (executeForeignCover ex r quantity).order.filledQuantity = 0 := by
  rcases executeForeignCover_submitted ex r quantity with ⟨hrejected, -⟩ | ⟨hpos, hplaced⟩
  · rw [hrejected] at h
    cases h
  · rw [hplaced, submitForeign_quantity, submitForeign_filledQuantity]
    exact ⟨rfl, hpos, rfl⟩

/-- What it trades is on its side. -/
theorem SubmitsForeign.onSide {side : Side} {r : ForeignReply} {p : Placed}
    (h : SubmitsForeign side r p) : OnSide .foreign side p.trades := by
  rcases h with ⟨-, h⟩ | ⟨ex, adjQty, -, rfl⟩
  · exact Or.inl h
  · exact Or.inr ⟨r.executed, r.price, submitForeign_trades _ _ _ _⟩

/-- A truthful poll that is answered first ends the query with the executed quantity. -/
theorem pollForeignFill_truthful {r : ForeignReply} {order : Order}
    (hprice : 0 < r.price) (hexec : 0 < r.executed) {f : ForeignFill}
    {rest : List (Option ForeignFill)} (hf : TruthfulFill r f) :
    pollForeignFill order (some f :: rest) =
      { order with averagePrice := r.price, filledQuantity := r.executed } := by
  obtain ⟨hqty, hpx⟩ := hf
  simp [pollForeignFill, Order.applyForeignFill, hqty, hpx, hprice, hexec]

/-- A truthful fill query of an accepted order returns what was executed. -/
theorem queryForeignFill_truthful {ex : Exchange} (hex : ex.isKorean = false)
    {side : Side} {r : ForeignReply} (ht : TruthfulForeign r) {p : Placed}
    (hp : SubmitsForeign side r p) (hfilled : p.order.status = .filled)
    (hexec : 0 < r.executed) :
    queryForeignFill ex r p.order =
      { p.order with averagePrice := r.price, filledQuantity := r.executed } := by
  rcases hp with ⟨hrejected, -⟩ | ⟨ex', adjQty, -, rfl⟩
  · rw [hrejected] at hfilled
    cases hfilled
  obtain ⟨orderId, hack, hid⟩ := submitForeign_filled hfilled
  have hnonempty : (submitForeign ex' side adjQty r).order.orderIdStr.isEmpty = false := by
    rw [hid]
    exact ht.id_nonempty orderId hack
  have hquery : ∀ order, queryOrderFill r order =
      { order with averagePrice := r.price, filledQuantity := r.executed } := by
    intro order
    unfold queryOrderFill
    cases hcached : r.cachedFill with
    | some f =>
      obtain ⟨hqty, hpx⟩ := ht.cachedFill f hcached
      simp [hqty, hpx]
    | none =>
      obtain ⟨f, rest, hpolls⟩ := ht.answered
      have hf : TruthfulFill r f := ht.polls f (by simp [hpolls])
      rw [hpolls]
      exact pollForeignFill_truthful ht.price_pos hexec hf
  unfold queryForeignFill
  rw [hnonempty, hfilled]
  cases ex with
  | bybit => exact hquery _
  | okx => exact hquery _
  | bithumb => cases hex
  | upbit => cases hex

/-- What every report that is applied keeps is kept by the polling loop. -/
theorem pollForeignFill_keeps {I : Order → Prop} {polls : List (Option ForeignFill)}
    (hreport : ∀ f, some f ∈ polls → ∀ order, I order → I (order.applyForeignFill f))
    {order : Order} (horder : I order) : I (pollForeignFill order polls) := by
  induction polls generalizing order with
  | nil => exact horder
  | cons poll rest ih =>
    have hrest : ∀ f, some f ∈ rest → ∀ order, I order → I (order.applyForeignFill f) :=
      fun f hf => hreport f (List.mem_cons_of_mem _ hf)
    cases poll with
    | none => exact ih hrest horder
    | some f =>
      have happlied : I (order.applyForeignFill f) := hreport f List.mem_cons_self order horder
      simp only [pollForeignFill]
      split_ifs
      · exact happlied
      · exact ih hrest happlied

/-- What every report keeps is kept by the fill query. -/
theorem queryForeignFill_keeps {I : Order → Prop} {r : ForeignReply} (ex : Exchange)
    (hcached : ∀ f, r.cachedFill = some f → ∀ order, I order →
      I { order with averagePrice := f.avgPrice, filledQuantity := f.cumExecQty })
    (hpolls : ∀ f, some f ∈ r.polls → ∀ order, I order → I (order.applyForeignFill f))
    {order : Order} (horder : I order) : I (queryForeignFill ex r order) := by
  have hquery : I (queryOrderFill r order) := by
    unfold queryOrderFill
    cases hfill : r.cachedFill with
    | some f => exact hcached f hfill order horder
    | none =>
      exact pollForeignFill_keeps (fun f hf => hpolls f (List.mem_of_mem_take hf)) horder
  unfold queryForeignFill
  split_ifs
  · exact horder
  · cases ex with
    | bybit => exact hquery
    | okx => exact hquery
    | bithumb => exact horder
    | upbit => exact horder

/-- A fill query never changes the status of a foreign order. -/
theorem queryForeignFill_status (ex : Exchange) (r : ForeignReply) (order : Order) :
    (queryForeignFill ex r order).status = order.status :=
  queryForeignFill_keeps (I := fun o => o.status = order.status) ex (fun _ _ _ h => h)
    (fun _ _ _ h => h) rfl

/-- A truthful venue executes no negative quantity. -/
theorem SubmitsForeign.executed_nonneg {side : Side} {r : ForeignReply} {p : Placed} {f : Fill}
    (h : SubmitsForeign side r p) (ht : TruthfulForeign r) (hf : f.trades = p.trades) :
    0 ≤ executed f := by
  rcases h with ⟨-, hnil⟩ | ⟨ex, adjQty, -, rfl⟩
  · simp [executed, hf, hnil]
  · rw [executed_of_single (hf.trans (submitForeign_trades _ _ _ _))]
    exact ht.executed_nonneg

/-- A truthful venue executes nothing for a foreign order that it does not accept. -/
theorem SubmitsForeign.executed_eq_zero {side : Side} {r : ForeignReply} {p : Placed} {f : Fill}
    (h : SubmitsForeign side r p) (ht : TruthfulForeign r) (hf : f.trades = p.trades)
    (hrefused : p.order.status ≠ .filled) : executed f = 0 := by
  rcases h with ⟨-, hnil⟩ | ⟨ex, adjQty, -, rfl⟩
  · simp [executed, hf, hnil]
  · rw [executed_of_single (hf.trans (submitForeign_trades _ _ _ _))]
    apply ht.rejected
    intro orderId hack
    apply hrefused
    simp [submitForeign, hack]

/-- What a truthful fill query leaves of an order that executed something. -/
theorem SubmitsForeign.resolved {ex : Exchange} (hex : ex.isKorean = false) {side : Side}
    {r : ForeignReply} {p : Placed} {f : Fill} (h : SubmitsForeign side r p)
    (ht : TruthfulForeign r) (hf : f.trades = p.trades)
    (horder : f.order = queryForeignFill ex r p.order) (hfilled : p.order.status = .filled)
    (hpos : 0 < executed f) :
    ∃ t, f.trades = [t] ∧ t.quantity = resolvedFillQuantity f.order ∧
      t.price = f.order.averagePrice ∧ 0 < t.price := by
  have hsubmits := h
  rcases h with ⟨hrejected, -⟩ | ⟨ex', adjQty, -, rfl⟩
  · rw [hrejected] at hfilled
    cases hfilled
  have hone : f.trades = [⟨.foreign, side, r.executed, r.price⟩] :=
    hf.trans (submitForeign_trades _ _ _ _)
  rw [executed_of_single hone] at hpos
  have hq := queryForeignFill_truthful hex ht hsubmits hfilled hpos
  refine ⟨_, hone, ?_, ?_, ht.price_pos⟩
  · rw [horder, hq]
    simp [resolvedFillQuantity, hpos]
  · rw [horder, hq]

/-- With truthful answers a queried foreign leg that executed coins exactly when it counts
as done is known for what it is. -/
theorem foreignFill_sound {ex : Exchange} (hex : ex.isKorean = false) {side : Side}
    {r : ForeignReply} (ht : TruthfulForeign r) {p : Placed} (hp : SubmitsForeign side r p)
    (hdec : Decisive (Placed.toFill ⟨queryForeignFill ex r p.order, p.trades⟩)) :
    Sound (Placed.toFill ⟨queryForeignFill ex r p.order, p.trades⟩) := by
  apply sound_of_decisive hp.onSide (hp.executed_nonneg ht rfl) hdec
  intro hd hpos
  have hfilled : p.order.status = .filled := by
    simpa [Placed.toFill, queryForeignFill_status] using hd
  exact hp.resolved hex ht rfl rfl hfilled hpos

/-- The correction cover executes on the foreign buy side. -/
theorem flattenExtraForeignShort_trades (ex : Exchange) (r : ForeignReply) (quantity : ℚ) :
    (flattenExtraForeignShort ex r quantity).2.trades =
      (executeForeignCover ex r quantity).trades := by
  by_cases h : (executeForeignCover ex r quantity).order.status = .filled
  · simp [flattenExtraForeignShort, h]
  · simp [flattenExtraForeignShort, h]

/-- A cover of extra shorts that is reported decisively is reported soundly. -/
theorem flattenExtraForeignShort_sound {ex : Exchange} (hex : ex.isKorean = false)
    {r : ForeignReply} (ht : TruthfulForeign r) (quantity : ℚ) {f : Fill}
    (hf : f = ⟨(flattenExtraForeignShort ex r quantity).2.order,
      (flattenExtraForeignShort ex r quantity).1,
      (flattenExtraForeignShort ex r quantity).2.trades⟩)
    (hdec : Decisive f) : Sound f := by
  have hp := executeForeignCover_submits ex r quantity
  have htrades : f.trades = (executeForeignCover ex r quantity).trades := by
    rw [hf]
    exact flattenExtraForeignShort_trades ex r quantity
  have hside : OnSide .foreign .buy f.trades := by
    rw [htrades]
    exact hp.onSide
  apply sound_of_decisive hside (hp.executed_nonneg ht htrades) hdec
  intro hd hpos
  by_cases hfilled : (executeForeignCover ex r quantity).order.status = .filled
  · have horder : f.order = queryForeignFill ex r (executeForeignCover ex r quantity).order := by
      rw [hf]
      simp [flattenExtraForeignShort, hfilled]
    exact hp.resolved hex ht htrades horder hfilled hpos
  · rw [hf] at hd
    simp [flattenExtraForeignShort, hfilled] at hd

/-! ## Korean orders -/

/-- A Korean order was refused before submission, or submitted once; an order that is then
`Filled` can be queried. -/
structure SubmitsKorean (ex : Exchange) (side : Side) (r : KoreanReply) (p : Placed) : Prop where
  onSide : (p.order.status = .rejected ∧ p.trades = []) ∨
    p.trades = [⟨.korean, side, r.executed, r.price⟩]
  queried : p.order.status = .filled → p.trades ≠ [] ∧
    ((ex = .bithumb ∧ ∃ b, r.response = some b ∧ p.order.orderIdStr = b.uuid) ∨
      (ex = .upbit ∧ r.credentialsSet = true ∧ p.order.orderIdStr.isEmpty = false))

/-- A market order of Bithumb is one trade or a refusal. -/
theorem bithumbPlaceMarketOrder_submits (r : KoreanReply) (side : Side) (quantity : ℚ) :
    SubmitsKorean .bithumb side r (bithumbPlaceMarketOrder r side quantity) := by
  refine ⟨Or.inr rfl, ?_⟩
  intro hfilled
  refine ⟨by simp [bithumbPlaceMarketOrder], Or.inl ⟨rfl, ?_⟩⟩
  unfold bithumbPlaceMarketOrder at hfilled ⊢
  cases hresponse : r.response with
  | none => simp [hresponse] at hfilled
  | some b => exact ⟨b, rfl, rfl⟩

/-- An Upbit submission that is treated as filled carries the body's order id. -/
theorem finishUpbitSubmission_filled {r : KoreanReply} {order : Order}
    (h : (finishUpbitSubmission r order).status = .filled) :
    (finishUpbitSubmission r order).orderIdStr.isEmpty = false := by
  unfold finishUpbitSubmission at h ⊢
  cases hbody : populateUpbitOrderFromBody r.response order with
  | none => simp [hbody] at h
  | some updated =>
    have hid : updated.orderIdStr.isEmpty = false := by
      unfold populateUpbitOrderFromBody at hbody
      cases hresponse : r.response with
      | none => simp [hresponse] at hbody
      | some b =>
        cases hempty : b.uuid.isEmpty with
        | true => simp [hresponse, hempty] at hbody
        | false =>
          simp only [hresponse, hempty, Bool.false_eq_true, if_false, Option.some.injEq] at hbody
          rw [← hbody]
          exact hempty
    simp only
    split <;> exact hid

/-- A submission of Upbit with its credentials set is one trade or a refusal. -/
theorem upbitSubmission_submits {side : Side} {r : KoreanReply} (order : Order)
    (hcredentials : r.credentialsSet = true) :
    SubmitsKorean .upbit side r
      ⟨finishUpbitSubmission r order, [⟨.korean, side, r.executed, r.price⟩]⟩ := by
  refine ⟨Or.inr rfl, ?_⟩
  intro hfilled
  exact ⟨by simp, Or.inr ⟨rfl, hcredentials, finishUpbitSubmission_filled hfilled⟩⟩

/-- A sale on Upbit is one trade or a refusal. -/
theorem upbitPlaceMarketSell_submits (r : KoreanReply) (quantity : ℚ) :
    SubmitsKorean .upbit .sell r (upbitPlaceMarketSell r quantity) := by
  unfold upbitPlaceMarketSell
  by_cases hrefused : quantity ≤ 0 ∨ r.credentialsSet = false
  · rw [if_pos hrefused]
    exact ⟨Or.inl ⟨rfl, rfl⟩, fun h => by cases h⟩
  · rw [if_neg hrefused]
    apply upbitSubmission_submits
    simpa using fun h => hrefused (Or.inr h)

/-- A buy on Upbit for an amount of money is one trade or a refusal. -/
theorem upbitPlaceMarketBuyCost_submits (r : KoreanReply) (cost : ℚ) :
    SubmitsKorean .upbit .buy r (upbitPlaceMarketBuyCost r cost) := by
  unfold upbitPlaceMarketBuyCost
  by_cases hrefused : (⌊cost⌋ : ℚ) < TradingConfig.minOrderKrw ∨ r.credentialsSet = false
  · simp only [if_pos hrefused]
    exact ⟨Or.inl ⟨rfl, rfl⟩, fun h => by cases h⟩
  · simp only [if_neg hrefused]
    apply upbitSubmission_submits
    simpa using fun h => hrefused (Or.inr h)

/-- A buy on Bithumb for an amount of money is one trade or a refusal. -/
theorem bithumbPlaceMarketBuyCost_submits (r : KoreanReply) (cost : ℚ) :
    SubmitsKorean .bithumb .buy r (bithumbPlaceMarketBuyCost r cost) := by
  unfold bithumbPlaceMarketBuyCost
  split_ifs
  · exact ⟨Or.inl ⟨rfl, rfl⟩, fun h => by cases h⟩
  · exact bithumbPlaceMarketOrder_submits r .buy cost

/-- A Korean buy is one buy or a refusal. -/
theorem executeKoreanBuy_submits (ex : Exchange) (r : KoreanReply) (krwAmount : ℚ) :
    SubmitsKorean ex .buy r (executeKoreanBuy ex r krwAmount) := by
  cases ex with
  | bithumb => exact bithumbPlaceMarketBuyCost_submits r krwAmount
  | upbit => exact upbitPlaceMarketBuyCost_submits r krwAmount
  | bybit => exact ⟨Or.inl ⟨rfl, rfl⟩, fun h => by cases h⟩
  | okx => exact ⟨Or.inl ⟨rfl, rfl⟩, fun h => by cases h⟩

/-- A Korean sale is one sell or a refusal. -/
theorem executeKoreanSell_submits (ex : Exchange) (r : KoreanReply) (quantity : ℚ) :
    SubmitsKorean ex .sell r (executeKoreanSell ex r quantity) := by
  cases ex with
  | bithumb => exact bithumbPlaceMarketOrder_submits r .sell quantity
  | upbit => exact upbitPlaceMarketSell_submits r quantity
  | bybit => exact ⟨Or.inl ⟨rfl, rfl⟩, fun h => by cases h⟩
  | okx => exact ⟨Or.inl ⟨rfl, rfl⟩, fun h => by cases h⟩

/-! ### Korean fill queries -/

/-- What every answer with order data keeps is kept by the Bithumb queries. -/
theorem pollBithumbDetail_keeps {I : Order → Prop} {polls : List (Option OrderBody)}
    (hdetail : ∀ b, some b ∈ polls → ∀ order updated,
      queryOrderDetailV1 (some b) order = some updated → I order → I updated)
    {order : Order} (horder : I order) : I (pollBithumbDetail order polls) := by
  induction polls with
  | nil => exact horder
  | cons body rest ih =>
    have hrest := ih fun b hb => hdetail b (List.mem_cons_of_mem _ hb)
    simp only [pollBithumbDetail]
    cases hquery : queryOrderDetailV1 body order with
    | none => exact hrest
    | some updated =>
      cases body with
      | none => cases hquery
      | some b => exact hdetail b List.mem_cons_self order updated hquery horder

/-- What every answer with order data keeps is kept by the Upbit polling loop. -/
theorem pollUpbitDetail_keeps {I : Order → Prop} {polls : List (Option OrderBody)}
    (hbody : ∀ b, some b ∈ polls → ∀ order updated,
      populateUpbitOrderFromBody (some b) order = some updated → I order → I updated)
    {order : Order} (horder : I order) : I (pollUpbitDetail order polls) := by
  induction polls generalizing order with
  | nil => exact horder
  | cons body rest ih =>
    simp only [pollUpbitDetail]
    cases hquery : populateUpbitOrderFromBody body order with
    | none => exact horder
    | some updated =>
      have hupdated : I updated := by
        cases body with
        | none => cases hquery
        | some b => exact hbody b List.mem_cons_self order updated hquery horder
      have hrest := ih (fun b hb => hbody b (List.mem_cons_of_mem _ hb)) hupdated
      dsimp only
      cases updated.status with
      | new => exact hrest
      | partiallyFilled => exact hrest
      | _ => exact hupdated

/-- What every report keeps is kept by the fill query of a Korean order. -/
theorem queryKoreanFill_keeps {I : Order → Prop} {r : KoreanReply} (ex : Exchange)
    (hcached : ∀ volume funds, r.cachedFill = some (volume, funds) → ∀ order, I order →
      I { order with averagePrice := funds / volume, filledQuantity := volume })
    (hdetail : ∀ b, some b ∈ r.polls → ∀ order updated,
      queryOrderDetailV1 (some b) order = some updated → I order → I updated)
    (hbody : ∀ b, some b ∈ r.polls → ∀ order updated,
      populateUpbitOrderFromBody (some b) order = some updated → I order → I updated)
    {order : Order} (horder : I order) : I (queryKoreanFill ex r order) := by
  unfold queryKoreanFill
  split_ifs
  · exact horder
  · cases ex with
    | bithumb =>
      unfold bithumbQueryOrderDetail
      cases hfill : r.cachedFill with
      | some fill => exact hcached fill.1 fill.2 hfill order horder
      | none =>
        exact pollBithumbDetail_keeps (fun b hb => hdetail b (List.mem_of_mem_take hb)) horder
    | upbit =>
      unfold upbitQueryOrderDetail
      split_ifs
      · exact horder
      · exact pollUpbitDetail_keeps (fun b hb => hbody b (List.mem_of_mem_take hb)) horder
    | bybit => exact horder
    | okx => exact horder

/-- A truthful Bithumb query returns what was executed. -/
theorem bithumbQueryOrderDetail_truthful {r : KoreanReply} (ht : TruthfulKorean r)
    (hexec : 0 < r.executed) (order : Order) :
    bithumbQueryOrderDetail r order =
      { order with averagePrice := r.price, filledQuantity := r.executed } := by
  have hne : r.executed ≠ 0 := hexec.ne'
  have hfunds : 0 < r.executed * r.price := mul_pos hexec ht.price_pos
  have haverage : r.executed * r.price / r.executed = r.price := mul_div_cancel_left₀ _ hne
  unfold bithumbQueryOrderDetail
  cases hcached : r.cachedFill with
  | some fill =>
    obtain ⟨volume, funds⟩ := fill
    obtain ⟨hvolume, hf⟩ := ht.cachedFill volume funds hcached
    simp only [hvolume, hf, haverage]
  | none =>
    obtain ⟨p, rest, hpolls⟩ := List.exists_cons_of_ne_nil ht.answered
    obtain ⟨b, rfl, hb⟩ := ht.polls p (by simp [hpolls])
    have hvolume : ¬ b.executedVolume ≤ 0 := by
      rw [hb.executed]
      exact not_le.mpr hexec
    simp only [hpolls, List.take_succ_cons, pollBithumbDetail, queryOrderDetailV1, hvolume,
      if_false, hb.trades, hexec, hfunds, if_true, and_self, haverage]

/-- Every truthful body brings an Upbit order up to what was executed. -/
theorem populateUpbitOrderFromBody_truthful {r : KoreanReply} (ht : TruthfulKorean r)
    (hexec : 0 < r.executed) {b : OrderBody} (hb : TruthfulBody r b) (order : Order) :
    ∃ updated, populateUpbitOrderFromBody (some b) order = some updated ∧
      updated.filledQuantity = r.executed ∧ updated.averagePrice = r.price := by
  have hne : r.executed ≠ 0 := hexec.ne'
  have hfunds : 0 < r.executed * r.price := mul_pos hexec ht.price_pos
  refine ⟨_, by simp only [populateUpbitOrderFromBody, hb.uuid_nonempty]; rfl, ?_, ?_⟩
  · simp [hb.executed, hexec]
  · simp [hb.trades, hexec, hfunds, mul_div_cancel_left₀ _ hne]

/-- The Upbit polling loop keeps what a truthful body has reported. -/
theorem pollUpbitDetail_truthful {r : KoreanReply} (ht : TruthfulKorean r)
    (hexec : 0 < r.executed) (polls : List (Option OrderBody))
    (hpolls : ∀ p ∈ polls, ∃ b, p = some b ∧ TruthfulBody r b) (order : Order)
    (hstart : polls ≠ [] ∨ order.filledQuantity = r.executed ∧ order.averagePrice = r.price) :
    (pollUpbitDetail order polls).filledQuantity = r.executed ∧
      (pollUpbitDetail order polls).averagePrice = r.price := by
  induction polls generalizing order with
  | nil =>
    rcases hstart with h | h
    · exact absurd rfl h
    · exact h
  | cons p rest ih =>
    obtain ⟨b, rfl, hb⟩ := hpolls p (by simp)
    obtain ⟨updated, hupdated, hvalues⟩ := populateUpbitOrderFromBody_truthful ht hexec hb order
    have hrest := ih (fun p hp => hpolls p (by simp [hp])) updated (Or.inr hvalues)
    simp only [pollUpbitDetail, hupdated]
    split
    · exact hvalues
    · exact hvalues
    · exact hvalues
    · exact hvalues
    · exact hrest

/-- A truthful fill query of a Korean order that was accepted returns what was executed. -/
theorem SubmitsKorean.query_truthful {ex : Exchange} {side : Side} {r : KoreanReply} {p : Placed}
    (h : SubmitsKorean ex side r p) (ht : TruthfulKorean r) (hfilled : p.order.status = .filled)
    (hexec : 0 < r.executed) :
    (queryKoreanFill ex r p.order).filledQuantity = r.executed ∧
      (queryKoreanFill ex r p.order).averagePrice = r.price := by
  obtain ⟨-, ⟨rfl, b, hresponse, hid⟩ | ⟨rfl, hcredentials, hid⟩⟩ := h.queried hfilled
  · have hnonempty : p.order.orderIdStr.isEmpty = false := by
      rw [hid]
      exact ht.uuid_nonempty b hresponse
    unfold queryKoreanFill
    rw [hnonempty, hfilled]
    simp [bithumbQueryOrderDetail_truthful ht hexec]
  · have hpolls : r.polls.take 20 ≠ [] := by
      simpa using ht.answered
    have hquery := pollUpbitDetail_truthful ht hexec (r.polls.take 20)
      (fun p hp => ht.polls p (List.mem_of_mem_take hp)) p.order (Or.inl hpolls)
    unfold queryKoreanFill
    rw [hid, hfilled]
    simpa [upbitQueryOrderDetail, hid, hcredentials] using hquery

/-- A truthful venue executes no negative quantity. -/
theorem SubmitsKorean.executed_nonneg {ex : Exchange} {side : Side} {r : KoreanReply} {p : Placed}
    {f : Fill} (h : SubmitsKorean ex side r p) (ht : TruthfulKorean r)
    (hf : f.trades = p.trades) : 0 ≤ executed f := by
  rcases h.onSide with ⟨-, hnil⟩ | hone
  · simp [executed, hf, hnil]
  · rw [executed_of_single (hf.trans hone)]
    exact ht.executed_nonneg

/-- What it trades is on its side. -/
theorem SubmitsKorean.trades_onSide {ex : Exchange} {side : Side} {r : KoreanReply} {p : Placed}
    (h : SubmitsKorean ex side r p) : OnSide .korean side p.trades := by
  rcases h.onSide with ⟨-, hnil⟩ | hone
  · exact Or.inl hnil
  · exact Or.inr ⟨_, _, hone⟩

/-- What a truthful fill query leaves of a Korean order that executed something. -/
theorem SubmitsKorean.resolved {ex : Exchange} {side : Side} {r : KoreanReply} {p : Placed}
    {f : Fill} (h : SubmitsKorean ex side r p) (ht : TruthfulKorean r)
    (hf : f.trades = p.trades) (horder : f.order = queryKoreanFill ex r p.order)
    (hfilled : p.order.status = .filled) (hpos : 0 < executed f) :
    ∃ t, f.trades = [t] ∧ t.quantity = resolvedFillQuantity f.order ∧
      t.price = f.order.averagePrice ∧ 0 < t.price := by
  have hone : f.trades = [⟨.korean, side, r.executed, r.price⟩] := by
    rcases h.onSide with ⟨-, hnil⟩ | hone
    · exact absurd hnil (h.queried hfilled).1
    · exact hf.trans hone
  rw [executed_of_single hone] at hpos
  obtain ⟨hqty, hprice⟩ := h.query_truthful ht hfilled hpos
  refine ⟨_, hone, ?_, ?_, ht.price_pos⟩
  · rw [horder]
    simp [resolvedFillQuantity, hqty, hpos]
  · rw [horder, hprice]

/-- A fill query is only made for an order whose submission counted as filled. -/
theorem status_of_queryKoreanFill {ex : Exchange} {r : KoreanReply} {order : Order}
    (h : (queryKoreanFill ex r order).status = .filled) : order.status = .filled := by
  by_contra hne
  simp [queryKoreanFill, hne] at h

/-- With truthful answers a queried Korean leg that executed coins exactly when it counts
as done is known for what it is. -/
theorem koreanFill_sound {ex : Exchange} {side : Side} {r : KoreanReply}
    (ht : TruthfulKorean r) {p : Placed} (hp : SubmitsKorean ex side r p)
    (hdec : Decisive (Placed.toFill ⟨queryKoreanFill ex r p.order, p.trades⟩)) :
    Sound (Placed.toFill ⟨queryKoreanFill ex r p.order, p.trades⟩) := by
  apply sound_of_decisive hp.trades_onSide (hp.executed_nonneg ht rfl) hdec
  intro hd hpos
  have hfilled : p.order.status = .filled :=
    status_of_queryKoreanFill (by simpa [Placed.toFill] using hd)
  exact hp.resolved ht rfl rfl hfilled hpos

/-- The sale of extra coins trades what `execute_korean_sell` does. -/
theorem flattenExtraKoreanLong_trades (ex : Exchange) (r : KoreanReply) (quantity : ℚ) :
    (flattenExtraKoreanLong ex r quantity).2.trades =
      (executeKoreanSell ex r quantity).trades := by
  by_cases h : (executeKoreanSell ex r quantity).order.status = .filled
  · simp [flattenExtraKoreanLong, h]
  · simp [flattenExtraKoreanLong, h]

/-- A sale of extra coins that is reported decisively is reported soundly. -/
theorem flattenExtraKoreanLong_sound {ex : Exchange} {r : KoreanReply} (ht : TruthfulKorean r)
    (quantity : ℚ) {f : Fill}
    (hf : f = ⟨(flattenExtraKoreanLong ex r quantity).2.order,
      (flattenExtraKoreanLong ex r quantity).1, (flattenExtraKoreanLong ex r quantity).2.trades⟩)
    (hdec : Decisive f) : Sound f := by
  have hp := executeKoreanSell_submits ex r quantity
  have htrades : f.trades = (executeKoreanSell ex r quantity).trades := by
    rw [hf]
    exact flattenExtraKoreanLong_trades ex r quantity
  have hside : OnSide .korean .sell f.trades := by
    rw [htrades]
    exact hp.trades_onSide
  apply sound_of_decisive hside (hp.executed_nonneg ht htrades) hdec
  intro hd hpos
  by_cases hfilled : (executeKoreanSell ex r quantity).order.status = .filled
  · have horder : f.order = queryKoreanFill ex r (executeKoreanSell ex r quantity).order := by
      rw [hf]
      simp [flattenExtraKoreanLong, hfilled]
    exact hp.resolved ht htrades horder hfilled hpos
  · rw [hf] at hd
    simp [flattenExtraKoreanLong, hfilled] at hd

end SpotRelay.Analysis
