import SpotRelay.Analysis.SplitFlows
import SpotRelay.Interface.TruthfulVenue

/-!
# The quantity of a buy sized by its cost

A Korean market buy is sized in KRW.  Its coins are only known from a fill report, and the
delta hedge falls back on `quantity` without one: the KRW cost on Bithumb, nothing on Upbit.

* **what is submitted** when a buy is sized by its cost (`bithumbBuy_submitted`,
  `upbitBuy_submitted`).
* **what the polling ends with** is the last body it was sent (`lastBody_sent`), and the quantity is
  coins only where that reported them (`upbitBuy_spec`).
-/

set_option autoImplicit false

namespace SpotRelay.Analysis

open SpotRelay.Model SpotRelay.Interface

/-- The venue never reports more than it executed, and a buy sized by its cost has no
volume. -/
structure ReportsAtMost (r : KoreanReply) : Prop where
  executed_nonneg : 0 ≤ r.executed
  cachedFill : ∀ volume funds, r.cachedFill = some (volume, funds) → volume ≤ r.executed
  body : ∀ b, r.response = some b ∨ some b ∈ r.polls →
    b.executedVolume ≤ r.executed ∧ (tradeTotals b.trades).1 ≤ r.executed ∧ b.volume ≤ 0

/-- The quantity is the reported one, not the cost; it is at most what the buy executed and
positive when the buy executed anything. -/
def CoinQuantity (f : Fill) (quantity : ℚ) : Prop :=
  quantity = max 0 f.order.filledQuantity ∧ quantity ≤ executed f ∧
    (0 < executed f → 0 < quantity)

/-! ## The condition -/

/-- One of the fill queries of Bithumb, or its cached fill event, reports a positive volume. -/
def BithumbReports (r : KoreanReply) : Prop :=
  (∃ b ∈ r.response, b.uuid.isEmpty = false) ∧
    match r.cachedFill with
    | some fill => 0 < fill.1
    | none => ∃ p ∈ r.polls.take 7, ∃ b ∈ p, 0 < b.executedVolume

/-- The volume that an Upbit order takes from a body. -/
def reportedVolume (b : OrderBody) : ℚ :=
  if 0 < b.executedVolume then b.executedVolume else (tradeTotals b.trades).1

/-- The status after which Upbit is not polled again. -/
def endsPolling (status : OrderStatus) : Bool :=
  match status with
  | .filled | .cancelled | .rejected | .expired => true
  | _ => false

/-- The last body the polling loop takes over, after the body `b`. -/
def lastBody (b : OrderBody) : List (Option OrderBody) → OrderBody
  | [] => b
  | none :: _ => b
  | some polled :: rest =>
    if polled.uuid.isEmpty then b
    else if endsPolling (parseUpbitOrderStatus polled.state polled.executedVolume
        polled.remainingVolume) then polled
    else lastBody polled rest

/-- The last answer of Upbit reports a positive volume. -/
def UpbitReports (r : KoreanReply) : Prop :=
  ∃ b ∈ r.response, 0 < reportedVolume (lastBody b (r.polls.take 20))

/-- The fill of a buy is known: Bithumb reported it, or Upbit did unless there is none. -/
def FillKnown (ex : Exchange) (r : KoreanReply) : Prop :=
  match ex with
  | .bithumb => BithumbReports r
  | .upbit => UpbitReports r ∨ r.executed = 0
  | _ => True

section Decidability

instance (f : Fill) (quantity : ℚ) : Decidable (CoinQuantity f quantity) :=
  inferInstanceAs (Decidable (_ ∧ _ ∧ (_ → _)))

instance (r : KoreanReply) : Decidable (BithumbReports r) := by
  unfold BithumbReports
  generalize r.cachedFill = fill
  exact match fill with | none | some _ => inferInstance

instance (r : KoreanReply) : Decidable (UpbitReports r) :=
  inferInstanceAs (Decidable (∃ b ∈ r.response, 0 < reportedVolume (lastBody b (r.polls.take 20))))

instance (ex : Exchange) (r : KoreanReply) : Decidable (FillKnown ex r) :=
  match ex with
  | .bithumb => inferInstanceAs (Decidable (BithumbReports r))
  | .upbit => inferInstanceAs (Decidable (UpbitReports r ∨ r.executed = 0))
  | .bybit => isTrue trivial
  | .okx => isTrue trivial

end Decidability

/-! ## Bithumb -/

/-- The query leaves the quantity alone and finds a fill exactly when an answer has a
positive volume. -/
theorem pollBithumbDetail_spec {r : KoreanReply} (ht : ReportsAtMost r) {order : Order}
    (hunfilled : order.filledQuantity = 0) (polls : List (Option OrderBody))
    (hpolls : ∀ p ∈ polls, p ∈ r.polls) :
    (pollBithumbDetail order polls).quantity = order.quantity ∧
      ((∃ p ∈ polls, ∃ b ∈ p, 0 < b.executedVolume) →
        0 < (pollBithumbDetail order polls).filledQuantity ∧
          (pollBithumbDetail order polls).filledQuantity ≤ r.executed) ∧
      (¬ (∃ p ∈ polls, ∃ b ∈ p, 0 < b.executedVolume) →
        (pollBithumbDetail order polls).filledQuantity = 0) := by
  induction polls with
  | nil => exact ⟨rfl, fun h => by simp at h, fun _ => hunfilled⟩
  | cons p rest ih =>
    have hrest := ih fun p' hp' => hpolls p' (List.mem_cons_of_mem _ hp')
    cases p with
    | none => simpa [pollBithumbDetail, queryOrderDetailV1] using hrest
    | some b =>
      by_cases hvolume : b.executedVolume ≤ 0
      · simpa [pollBithumbDetail, queryOrderDetailV1, hvolume, not_lt.mpr hvolume] using hrest
      · obtain ⟨hexecuted, htrades, -⟩ := ht.body b (Or.inr (hpolls _ (by simp)))
        have hpos : 0 < b.executedVolume := not_le.mp hvolume
        simp only [pollBithumbDetail, queryOrderDetailV1, hvolume, if_false]
        refine ⟨trivial, fun _ => ?_, fun h => ?_⟩
        · split_ifs with htotal
          · exact ⟨htotal, htrades⟩
          · exact ⟨hpos, hexecuted⟩
        · exact absurd ⟨some b, by simp, b, rfl, hpos⟩ h

/-- The queried Bithumb buy still carries its cost; its fill is positive exactly when the
venue reports it. -/
theorem bithumbBuy_spec {r : KoreanReply} (ht : ReportsAtMost r) {order : Order}
    (hunfilled : order.filledQuantity = 0) (hfilled : order.status = .filled)
    (hid : ∃ b ∈ r.response, order.orderIdStr = b.uuid) :
    (queryKoreanFill .bithumb r order).quantity = order.quantity ∧
      (BithumbReports r → 0 < (queryKoreanFill .bithumb r order).filledQuantity ∧
        (queryKoreanFill .bithumb r order).filledQuantity ≤ r.executed) ∧
      (¬ BithumbReports r → (queryKoreanFill .bithumb r order).filledQuantity ≤ 0) := by
  obtain ⟨b, hb, hidb⟩ := hid
  have hresponse : r.response = some b := hb
  by_cases hempty : b.uuid.isEmpty = true
  · have hsilent : ¬ BithumbReports r := by
      rintro ⟨⟨b', hb', hid⟩, -⟩
      rw [hresponse, Option.mem_some_iff] at hb'
      rw [← hb', hempty] at hid
      cases hid
    have hskipped : queryKoreanFill .bithumb r order = order := by
      simp [queryKoreanFill, hidb, hempty]
    rw [hskipped]
    exact ⟨rfl, fun h => absurd h hsilent, fun _ => hunfilled.le⟩
  · unfold queryKoreanFill BithumbReports
    have hnonempty : b.uuid.isEmpty = false := by simpa using hempty
    simp only [hidb, hresponse, hnonempty, hfilled, ne_eq, not_true_eq_false, decide_false,
      Bool.or_false, Bool.false_eq_true, if_false, Option.mem_some_iff, exists_eq_left', true_and]
    unfold bithumbQueryOrderDetail
    cases hcached : r.cachedFill with
    | some fill =>
      obtain ⟨volume, funds⟩ := fill
      have hle := ht.cachedFill volume funds hcached
      exact ⟨rfl, fun hpos => ⟨hpos, hle⟩, fun hneg => not_lt.mp hneg⟩
    | none =>
      obtain ⟨hquantity, hsome, hnone⟩ := pollBithumbDetail_spec ht hunfilled (r.polls.take 7)
        fun p hp => List.mem_of_mem_take hp
      exact ⟨hquantity, hsome, fun h => (hnone h).le⟩

/-! ## Upbit -/

/-- Every answer of Upbit overwrites the filled quantity; the quantity stays unset. -/
theorem pollUpbitDetail_spec {r : KoreanReply} (ht : ReportsAtMost r) {order : Order}
    {b : OrderBody} (hb : order.filledQuantity = reportedVolume b) (hunset : order.quantity ≤ 0)
    (polls : List (Option OrderBody)) (hpolls : ∀ p ∈ polls, p ∈ r.polls) :
    (pollUpbitDetail order polls).filledQuantity = reportedVolume (lastBody b polls) ∧
      (pollUpbitDetail order polls).quantity ≤ 0 := by
  induction polls generalizing order b with
  | nil => exact ⟨hb, hunset⟩
  | cons p rest ih =>
    cases p with
    | none => exact ⟨hb, hunset⟩
    | some polled =>
      obtain ⟨-, -, hvolume⟩ := ht.body polled (Or.inr (hpolls _ (by simp)))
      have hrest := fun p' hp' => hpolls p' (List.mem_cons_of_mem _ hp')
      by_cases hempty : polled.uuid.isEmpty = true
      · simp only [pollUpbitDetail, populateUpbitOrderFromBody, hempty, if_true, lastBody]
        exact ⟨hb, hunset⟩
      · obtain ⟨updated, hupdated, hstatus, hfilled, hquantity⟩ : ∃ updated,
            populateUpbitOrderFromBody (some polled) order = some updated ∧
            updated.status = parseUpbitOrderStatus polled.state polled.executedVolume
              polled.remainingVolume ∧
            updated.filledQuantity = reportedVolume polled ∧ updated.quantity ≤ 0 := by
          simp only [populateUpbitOrderFromBody, hempty, Bool.false_eq_true, if_false]
          refine ⟨_, rfl, rfl, rfl, ?_⟩
          rw [if_neg (not_lt.mpr hvolume)]
          exact hunset
        simp only [pollUpbitDetail, hupdated, lastBody, hempty, Bool.false_eq_true, if_false,
          ← hstatus]
        cases hcase : updated.status with
        | filled => exact ⟨hfilled, hquantity⟩
        | cancelled => exact ⟨hfilled, hquantity⟩
        | rejected => exact ⟨hfilled, hquantity⟩
        | expired => exact ⟨hfilled, hquantity⟩
        | new => exact ih hfilled hquantity hrest
        | partiallyFilled => exact ih hfilled hquantity hrest

/-- A submitted Upbit buy takes the volume of the response and no quantity. -/
theorem finishUpbitSubmission_spec {r : KoreanReply} (ht : ReportsAtMost r) {order : Order}
    (hunset : order.quantity ≤ 0) (hfilled : (finishUpbitSubmission r order).status = .filled) :
    ∃ b ∈ r.response, (finishUpbitSubmission r order).filledQuantity = reportedVolume b ∧
      (finishUpbitSubmission r order).quantity ≤ 0 := by
  cases hresponse : r.response with
  | none => simp [finishUpbitSubmission, hresponse, populateUpbitOrderFromBody] at hfilled
  | some b =>
    refine ⟨b, rfl, ?_⟩
    have hvolume := (ht.body b (Or.inl hresponse)).2.2
    by_cases hempty : b.uuid.isEmpty = true
    · simp [finishUpbitSubmission, hresponse, populateUpbitOrderFromBody, hempty] at hfilled
    · simp only [finishUpbitSubmission, hresponse, populateUpbitOrderFromBody, hempty,
        Bool.false_eq_true, if_false, not_lt.mpr hvolume] at hfilled ⊢
      split
      · exact ⟨rfl, hunset⟩
      · exact ⟨rfl, hunset⟩
      · exact ⟨rfl, hunset⟩
      · exact ⟨rfl, hunset⟩

/-- The reported volume is at most what was executed. -/
theorem reportedVolume_le {r : KoreanReply} (ht : ReportsAtMost r) {b : OrderBody}
    (hb : r.response = some b ∨ some b ∈ r.polls) : reportedVolume b ≤ r.executed := by
  obtain ⟨hexecuted, htrades, -⟩ := ht.body b hb
  unfold reportedVolume
  split_ifs
  · exact hexecuted
  · exact htrades

/-- The last body is one that the venue sent. -/
theorem lastBody_sent (b : OrderBody) (polls : List (Option OrderBody)) :
    lastBody b polls = b ∨ some (lastBody b polls) ∈ polls := by
  induction polls generalizing b with
  | nil => exact Or.inl rfl
  | cons p rest ih =>
    cases p with
    | none => exact Or.inl rfl
    | some polled =>
      simp only [lastBody]
      split_ifs
      · exact Or.inl rfl
      · exact Or.inr (by simp)
      · rcases ih polled with h | h
        · rw [h]
          exact Or.inr (by simp)
        · exact Or.inr (List.mem_cons_of_mem _ h)

/-- The queried Upbit buy has no quantity, and its fill is positive exactly when the last
answer reports one. -/
theorem upbitBuy_spec {r : KoreanReply} (ht : ReportsAtMost r) {order : Order}
    (hquantity : order.quantity ≤ 0) (hcredentials : r.credentialsSet = true)
    (hid : order.orderIdStr.isEmpty = false) (hfilled : order.status = .filled)
    (hresponse : ∃ b ∈ r.response, order.filledQuantity = reportedVolume b) :
    (queryKoreanFill .upbit r order).quantity ≤ 0 ∧
      (queryKoreanFill .upbit r order).filledQuantity ≤ r.executed ∧
      (0 < (queryKoreanFill .upbit r order).filledQuantity ↔ UpbitReports r) := by
  obtain ⟨b, hb, hvolume⟩ := hresponse
  have hbsome : r.response = some b := hb
  obtain ⟨hpolled, hunset⟩ := pollUpbitDetail_spec ht hvolume hquantity (r.polls.take 20)
    fun p hp => List.mem_of_mem_take hp
  have hquery : queryKoreanFill .upbit r order = pollUpbitDetail order (r.polls.take 20) := by
    simp [queryKoreanFill, upbitQueryOrderDetail, hid, hfilled, hcredentials]
  rw [hquery, hpolled]
  refine ⟨hunset, reportedVolume_le ht ?_, ?_⟩
  · rcases lastBody_sent b (r.polls.take 20) with h | h
    · rw [h]
      exact Or.inl hbsome
    · exact Or.inr (List.mem_of_mem_take h)
  · simp [UpbitReports, hbsome]

/-! ## The buy of a split -/

/-- A Bithumb buy that counts as filled was submitted with its cost as the quantity. -/
theorem bithumbBuy_submitted {r : KoreanReply} {cost : ℚ}
    (hfilled : (executeKoreanBuy .bithumb r cost).order.status = .filled) :
    (executeKoreanBuy .bithumb r cost).order.quantity = cost ∧
      (executeKoreanBuy .bithumb r cost).order.filledQuantity = 0 ∧ 0 < cost ∧
      (∃ b ∈ r.response, (executeKoreanBuy .bithumb r cost).order.orderIdStr = b.uuid) ∧
      (executeKoreanBuy .bithumb r cost).trades = [⟨.korean, .buy, r.executed, r.price⟩] := by
  unfold executeKoreanBuy bithumbPlaceMarketBuyCost at hfilled ⊢
  by_cases hmin : cost < TradingConfig.minOrderKrw
  · simp [hmin] at hfilled
  · have hpos : 0 < cost := by
      have hmin' := not_lt.mp hmin
      norm_num [TradingConfig.minOrderKrw] at hmin'
      linarith
    simp only [hmin, if_false] at hfilled ⊢
    cases hresponse : r.response with
    | none => simp [bithumbPlaceMarketOrder, hresponse] at hfilled
    | some b =>
      simp only [bithumbPlaceMarketOrder, hresponse]
      exact ⟨trivial, trivial, hpos, ⟨b, rfl, rfl⟩, trivial⟩

/-- An Upbit buy that counts as filled was submitted without a quantity. -/
theorem upbitBuy_submitted {r : KoreanReply} (ht : ReportsAtMost r) {cost : ℚ}
    (hfilled : (executeKoreanBuy .upbit r cost).order.status = .filled) :
    (executeKoreanBuy .upbit r cost).order.quantity ≤ 0 ∧ r.credentialsSet = true ∧
      (executeKoreanBuy .upbit r cost).order.orderIdStr.isEmpty = false ∧
      (∃ b ∈ r.response,
        (executeKoreanBuy .upbit r cost).order.filledQuantity = reportedVolume b) ∧
      (executeKoreanBuy .upbit r cost).trades = [⟨.korean, .buy, r.executed, r.price⟩] := by
  unfold executeKoreanBuy upbitPlaceMarketBuyCost at hfilled ⊢
  by_cases hrefused : (⌊cost⌋ : ℚ) < TradingConfig.minOrderKrw ∨ r.credentialsSet = false
  · simp [hrefused] at hfilled
  · have hcredentials : r.credentialsSet = true := by
      simpa using fun h => hrefused (Or.inr h)
    simp only [hrefused, if_false] at hfilled ⊢
    obtain ⟨b, hb, hvolume, hquantity⟩ := finishUpbitSubmission_spec ht (le_refl 0) hfilled
    exact ⟨hquantity, hcredentials, finishUpbitSubmission_filled hfilled, ⟨b, hb, hvolume⟩, trivial⟩

/-- The Korean quantity that the delta hedge of an opening split uses is a coin quantity of
what the buy executed exactly when the fill of the buy is known. -/
theorem buyQuantity_iff (v : Venues) (r : SplitReplies) (q : Quotes) (short : Order)
    (krwAmount : ℚ) (ht : ReportsAtMost r.korean)
    (hdone : (openBuyFill v r krwAmount).done = true) :
    CoinQuantity (openBuyFill v r krwAmount)
        (openLegs q short (openBuyFill v r krwAmount).order).koreanQty ↔
      FillKnown v.korean r.korean := by
  have hplaced : (executeKoreanBuy v.korean r.korean krwAmount).order.status = .filled :=
    status_of_queryKoreanFill (by simpa [openBuyFill, Placed.toFill] using hdone)
  simp only [openLegs, CoinQuantity, openBuyFill, Placed.toFill, executed]
  cases hvenue : v.korean with
  | bithumb =>
    rw [hvenue] at hplaced
    obtain ⟨hquantity, hunfilled, hcost, hid, htrades⟩ := bithumbBuy_submitted hplaced
    obtain ⟨hkept, hreported, hsilent⟩ := bithumbBuy_spec ht hunfilled hplaced hid
    rw [hquantity] at hkept
    simp only [htrades, List.map_cons, List.map_nil, List.sum_cons, List.sum_nil, add_zero,
      FillKnown]
    constructor
    · rintro ⟨hcoins, -, -⟩
      by_contra hnot
      have hle := hsilent hnot
      -- without a report the cost is taken for the quantity
      rw [resolvedFillQuantity, if_neg (not_lt.mpr hle), hkept, if_pos hcost, max_eq_left hle]
        at hcoins
      exact hcost.ne' hcoins
    · intro hknown
      obtain ⟨hpos, hle⟩ := hreported hknown
      simp only [resolvedFillQuantity, if_pos hpos, max_eq_right hpos.le]
      exact ⟨trivial, hle, fun _ => hpos⟩
  | upbit =>
    rw [hvenue] at hplaced
    obtain ⟨hquantity, hcredentials, hid, hresponse, htrades⟩ := upbitBuy_submitted ht hplaced
    obtain ⟨hunset, hle, hreports⟩ := upbitBuy_spec ht hquantity hcredentials hid hplaced hresponse
    simp only [htrades, List.map_cons, List.map_nil, List.sum_cons, List.sum_nil, add_zero,
      FillKnown, ← hreports]
    by_cases hpos : 0 < (queryKoreanFill .upbit r.korean
        (executeKoreanBuy .upbit r.korean krwAmount).order).filledQuantity
    · rw [resolvedFillQuantity, if_pos hpos, max_eq_right hpos.le]
      exact iff_of_true ⟨rfl, hle, fun _ => hpos⟩ (Or.inl hpos)
    · have hzero : resolvedFillQuantity (queryKoreanFill .upbit r.korean
          (executeKoreanBuy .upbit r.korean krwAmount).order) = 0 := by
        rw [resolvedFillQuantity, if_neg hpos, if_neg (not_lt.mpr hunset)]
      rw [hzero, max_eq_left (not_lt.mp hpos)]
      simp only [hpos, false_or, lt_irrefl, imp_false, not_lt, true_and]
      exact ⟨fun h => le_antisymm h.2 ht.executed_nonneg, fun h => ⟨h.ge, h.le⟩⟩
  | bybit =>
    rw [hvenue] at hplaced
    cases hplaced
  | okx =>
    rw [hvenue] at hplaced
    cases hplaced

/-- A venue that executes a buy and answers its fill query reports what it executed. -/
theorem executingKorean_reportsAtMost {quantity price : ℚ} (hq : 0 ≤ quantity) (hp : 0 < price) :
    ReportsAtMost (executingKorean .done quantity price) where
  executed_nonneg := hq
  cachedFill := by
    intro volume funds h
    cases h
  body := by
    intro b hb
    rcases hb with hb | hb
    · cases hb
      exact ⟨hq, by rw [tradeTotals_orderBody (le_refl 0) hp]; exact hq, le_refl 0⟩
    · simp only [executingKorean, List.mem_singleton, Option.some.injEq] at hb
      rw [hb]
      exact ⟨le_refl _, by rw [tradeTotals_orderBody hq hp]; exact le_refl _, le_refl 0⟩

/-- A Bithumb buy of 35 coins whose fill query is answered. -/
theorem buyQuantity_answered :
    CoinQuantity
      (openBuyFill ⟨.bithumb, .bybit⟩
        (legReplies (executingForeign 35 1) (executingKorean .done 35 1000)) 35000)
      (openLegs ⟨1, 1, 1000, 1000, 1000, 1000, 1400⟩ {}
        (openBuyFill ⟨.bithumb, .bybit⟩
          (legReplies (executingForeign 35 1) (executingKorean .done 35 1000)) 35000).order).koreanQty := by
  refine (buyQuantity_iff _ _ _ _ _ ?_ ?_).mpr ?_
  · exact executingKorean_reportsAtMost (by norm_num) (by norm_num)
  · decide +kernel
  · decide +kernel

/-- A Bithumb market buy of 35 coins whose fill queries all fail. -/
def unansweredBuy : SplitReplies :=
  legReplies (executingForeign 35 1)
    { executingKorean .done 35 1000 with polls := List.replicate 7 none }

/-- Without an answer the delta hedge takes the 35000 KRW of the buy for 35000 coins. -/
theorem unansweredBuy_not_coins :
    ¬ ∀ (v : Venues) (r : SplitReplies) (q : Quotes) (short : Order) (krwAmount : ℚ),
      ReportsAtMost r.korean → (openBuyFill v r krwAmount).done = true →
      CoinQuantity (openBuyFill v r krwAmount)
        (openLegs q short (openBuyFill v r krwAmount).order).koreanQty := by
  intro h
  have hanswered := @executingKorean_reportsAtMost 35 1000 (by norm_num) (by norm_num)
  have hreports : ReportsAtMost unansweredBuy.korean := by
    refine ⟨hanswered.executed_nonneg, hanswered.cachedFill, ?_⟩
    intro b hb
    refine hanswered.body b (hb.imp id ?_)
    intro hpolls
    simp [unansweredBuy, legReplies] at hpolls
  have hcoins := h ⟨.bithumb, .bybit⟩ unansweredBuy ⟨1, 1, 1000, 1000, 1000, 1000, 1400⟩ {} 35000
    hreports (by decide +kernel)
  revert hcoins
  decide +kernel

end SpotRelay.Analysis
